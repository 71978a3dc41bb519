import BigipCtlr.Go.Duration
import BigipCtlr.RouteFetcher.Fetcher

/-!
# When a backend expires

`expired` multiplies the TTL with a second. That is right for a TTL, which is a
number of seconds, as long as the product fits; the default is a Duration and
so a second too much.
-/

namespace BigipCtlr

open Go

-- ---------------------------------------------------------------------------
-- What a sweep leaves
-- ---------------------------------------------------------------------------

theorem lookup_foldl_pruneBackend (defaultTTL : Int64) (now : BackendServerKey → Int)
    (l : List (BackendServerKey × BackendServerDetails)) (s : List BackendServerKey × Entry) :
    (l.foldl (pruneBackend defaultTTL now) s).2.lookup k = some d ↔
      s.2.lookup k = some d ∧ ∀ d', (k, d') ∈ l → d'.expired defaultTTL (now k) = false := by
  induction l generalizing s with
  | nil => simp
  | cons b l ih =>
    obtain ⟨k', e⟩ := b
    have hstep : (pruneBackend defaultTTL now s (k', e)).2.lookup k = some d ↔
        s.2.lookup k = some d ∧ (k = k' → e.expired defaultTTL (now k) = false) := by
      rw [pruneBackend]
      split
      · next hexp =>
        rw [GoMap.lookup_erase_ite]
        by_cases hk : k = k'
        · subst hk
          simp [hexp]
        · simp [hk]
      · next hexp =>
        refine (and_iff_left ?_).symm
        rintro rfl
        exact Bool.not_eq_true _ ▸ hexp
    rw [List.foldl_cons, ih, hstep, and_assoc]
    refine and_congr_right' ⟨fun h d' hd' => ?_,
      fun h => ⟨?_, fun d' hd' => h d' (List.mem_cons_of_mem _ hd')⟩⟩
    · rcases List.mem_cons.mp hd' with heq | hd'
      · cases heq
        exact h.1 rfl
      · exact h.2 d' hd'
    · rintro rfl
      exact h e List.mem_cons_self

theorem lookup_pruneBackends (defaultTTL : Int64) (o : Order) (now : BackendServerKey → Int)
    (backends : Entry) (k : BackendServerKey) :
    (pruneBackends defaultTTL o now backends).2.lookup k =
      (backends.lookup k).filter (!·.expired defaultTTL (now k)) := by
  refine Option.ext fun d => ?_
  rw [pruneBackends, lookup_foldl_pruneBackend, Option.filter_eq_some_iff, Bool.not_eq_true']
  refine and_congr_right fun hd => ?_
  simp only [GoMap.mem_range, hd, Option.some.injEq, forall_eq']

theorem details_foldl_pruneEntry (defaultTTL : Int64) (w : Sweep) (t : Triple)
    (l : List (UInt16 × Entry)) (s : RoutingTable × List UpdateTCP) (hnd : (l.map Prod.fst).Nodup) :
    (∀ e, (t.1, e) ∈ l → (l.foldl (pruneEntry defaultTTL w) s).1.details t =
      (e.lookup t.2).filter (!·.expired defaultTTL (w.now t.1 t.2))) ∧
    (t.1 ∉ l.map Prod.fst → (l.foldl (pruneEntry defaultTTL w) s).1.details t = s.1.details t) := by
  induction l generalizing s with
  | nil => exact ⟨fun e he => absurd he List.not_mem_nil, fun _ => rfl⟩
  | cons entry l ih =>
    rw [List.map_cons, List.nodup_cons] at hnd
    obtain ⟨hin, hout⟩ := ih (pruneEntry defaultTTL w s entry) hnd.2
    have hhead : (pruneEntry defaultTTL w s entry).1.details t = if t.1 = entry.1 then
        (pruneBackends defaultTTL (w.inner entry.1) (w.now entry.1) entry.2).2.lookup t.2
          else s.1.details t :=
      details_keep ..
    rw [List.foldl_cons]
    constructor
    · intro e he
      rcases List.mem_cons.mp he with rfl | he
      · rw [hout hnd.1, hhead, if_pos rfl, lookup_pruneBackends]
      · exact hin e he
    · intro hnot
      rw [List.map_cons, List.mem_cons, not_or] at hnot
      rw [hout hnot.2, hhead, if_neg hnot.1]

/-- `pruneEntries` removes the expired backends and keeps the others as they
are. -/
theorem details_pruneEntries (table : RoutingTable) (defaultTTL : Int64) (w : Sweep) (t : Triple) :
    (table.pruneEntries defaultTTL w).1.details t =
      (table.details t).filter (!·.expired defaultTTL (w.now t.1 t.2)) := by
  obtain ⟨hin, hout⟩ :=
    details_foldl_pruneEntry defaultTTL w t (table.entries.range w.order) (table, [])
    (GoMap.range_keys_nodup _ _)
  rw [RoutingTable.pruneEntries]
  cases hl : table.entries.lookup t.1 with
  | some e => rw [hin e (GoMap.mem_range.mpr hl), RoutingTable.details, hl, Option.bind_some]
  | none =>
    rw [hout, RoutingTable.details, hl]
    · rfl
    · intro hmem
      obtain ⟨⟨port, e⟩, he, rfl⟩ := List.mem_map.mp hmem
      rw [GoMap.mem_range.mp he] at hl
      cases hl

-- ---------------------------------------------------------------------------
-- Lifetimes
-- ---------------------------------------------------------------------------

/-- How long a backend should last, in nanoseconds: its TTL is in seconds, the
default is a Duration. -/
def lifetime (ttl interval : Int64) : Int :=
  if ttl = 0 then interval.toInt else ttl.toInt * 1000000000

def Models.TcpRouteMapping.details (m : Models.TcpRouteMapping) (updated : Int) :
    BackendServerDetails :=
  (serverKeyDetailsFromInfo m.toRoutingTableEntry.2 updated).2

theorem expired_iff (m : Models.TcpRouteMapping) (interval : Int64) (updated now : Int) :
    (m.details updated).expired interval now = true ↔
      -(-(if m.ttl.getD 0 = 0 then interval else m.ttl.getD 0) * 1000000000 : Int64).toInt <
        now - updated := by
  change decide (updated < now + _) = true ↔ _
  rw [decide_eq_true_eq]
  change updated < now + (-(if m.ttl.getD 0 = 0 then interval else m.ttl.getD 0) * 1000000000 :
    Int64).toInt ↔ _
  omega

theorem back_eq_lifetime_iff {ttl interval : Int64} (hs : 0 ≤ ttl) (hD : 0 < interval) :
    -(-(if ttl = 0 then interval else ttl) * 1000000000 : Int64).toInt = lifetime ttl interval ↔
      0 < ttl ∧ ttl ≤ 9223372036 := by
  have hzero : (0 : Int64).toInt = 0 := by decide
  have hmax : (9223372036 : Int64).toInt = 9223372036 := by decide
  rw [toInt_neg_seconds, lifetime, Int64.lt_iff_toInt_lt, Int64.le_iff_toInt_le, hzero, hmax]
  rw [Int64.le_iff_toInt_le, hzero] at hs
  split
  · next h0 =>
    rw [Int64.lt_iff_toInt_lt, hzero] at hD
    refine iff_of_false (neg_bmod_seconds_ne hD interval.toInt_lt) ?_
    rw [h0, hzero]
    omega
  · next h0 =>
    have hpos : ttl.toInt ≠ 0 := fun he => h0 (Int64.toInt_inj.mp (he.trans hzero.symm))
    rw [Int.neg_eq_comm, eq_comm, bmod_eq_self_iff]
    omega

/-- A backend expires when its time is up exactly when it has a TTL and that
fits; then a sweep removes it when its time is up and not before. -/
theorem expires_on_time_iff (m : Models.TcpRouteMapping) (interval : Int64) (hs : 0 ≤ m.ttl.getD 0)
    (hD : 0 < interval) :
    ((∀ updated now, (m.details updated).expired interval now = true ↔
        lifetime (m.ttl.getD 0) interval < now - updated) ↔
      0 < m.ttl.getD 0 ∧ m.ttl.getD 0 ≤ 9223372036) ∧
    (0 < m.ttl.getD 0 ∧ m.ttl.getD 0 ≤ 9223372036 →
      ∀ (table : RoutingTable) (t : Triple) (updated : Int) (w : Sweep),
        table.details t = some (m.details updated) →
        ((table.pruneEntries interval w).1.details t = none ↔
          lifetime (m.ttl.getD 0) interval < w.now t.1 t.2 - updated)) := by
  simp only [expired_iff, forall_lt_sub_iff]
  refine ⟨back_eq_lifetime_iff hs hD, fun hfits table t updated w hd => ?_⟩
  rw [details_pruneEntries, hd, ← (back_eq_lifetime_iff hs hD).mpr hfits, ← expired_iff,
    Option.filter_some]
  cases (m.details updated).expired interval (w.now t.1 t.2) <;> simp

namespace Sample

def mappingWith (ttl : Option Int64) : Models.TcpRouteMapping where
  hostPort := 8080
  hostIP := "10.0.0.1".toList
  externalPort := 6000
  modificationTag := ⟨"tag".toList, 0⟩
  ttl := ttl

end Sample

theorem minute_expires_on_time : (0 : Int64) ≤ 60 ∧ (0 : Int64) < 30000000000 ∧
    (((Sample.mappingWith (some 60)).details 0).expired 30000000000 60000000001 = true ↔
      lifetime 60 30000000000 < 60000000001 - 0) :=
  ⟨by decide, by decide,
    (expires_on_time_iff (Sample.mappingWith (some 60)) 30000000000 (by decide) (by decide)).1.mpr
    (by decide) 0 60000000001⟩

/-- With the default interval of 30 s a backend without a TTL has expired at once. -/
theorem default_expires_at_once :
    ((Sample.mappingWith none).details 0).expired 30000000000 0 = true ∧
      ¬ lifetime 0 30000000000 < 0 - 0 := by
  decide

end BigipCtlr
