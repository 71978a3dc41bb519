import BigipCtlr.Go.Duration
import BigipCtlr.Route.PoolIndex

/-!
# Which endpoints are pruned

`PruneEndpoints` splits the members in two: those whose last update is longer
ago than their threshold, and the others. The threshold of a member is a number
of seconds from outside, which may not fit into a Duration.
-/

namespace BigipCtlr.Route

open Go Lib

def Entry.Overdue (m : Entry) (defaultThreshold : Int64) (now : Int) : Prop :=
  m.updated < now - (m.effectiveThreshold defaultThreshold).toInt

instance (m : Entry) (defaultThreshold : Int64) (now : Int) :
    Decidable (m.Overdue defaultThreshold now) :=
  inferInstanceAs (Decidable (_ < _))

theorem Entry.effectiveThreshold_ne (m : Entry) (h : defaultThreshold ≠ Int64.minValue) :
    m.effectiveThreshold defaultThreshold ≠ Int64.minValue := by
  rw [Entry.effectiveThreshold, Route.effectiveThreshold]
  split
  · next hpos =>
    intro hmin
    rw [hmin] at hpos
    exact absurd hpos.1 (by decide)
  · exact h

/-- The negation of the threshold is exact. -/
theorem Entry.stale_eq (m : Entry) (h : defaultThreshold ≠ Int64.minValue) (now : Int) :
    m.stale defaultThreshold now = decide (m.Overdue defaultThreshold now) := by
  have hneg := toInt_neg_of_ne (m.effectiveThreshold_ne h)
  rw [Bool.eq_iff_iff, decide_eq_true_eq, Entry.Overdue, Int.sub_eq_add_neg, ← hneg]
  exact decide_eq_true_iff

section
variable {p : Pool}

theorem Pool.Represented.nodup_endpoints (h : p.Represented) :
    (p.members.map Entry.endpoint).Nodup := by
  have hnd := h.distinct
  rw [Pool.addresses_eq] at hnd
  exact List.Nodup.of_map Endpoint.canonicalAddr (by rwa [List.map_map])

theorem Pool.Represented.pruneEndpoints (h : p.Represented)
    (hdefault : defaultThreshold ≠ Int64.minValue) (now : Int) :
    ∃ p' pruned, p.pruneEndpoints defaultThreshold now = some (p', pruned) ∧ ∀ m ∈ p.members,
      (m.endpoint ∈ pruned ↔ m.Overdue defaultThreshold now) ∧
      (m ∈ p'.members ↔ ¬ m.Overdue defaultThreshold now) := by
  obtain ⟨p', pruned, hp', -, hleft, hpruned, -⟩ := h.placed.pruneEndpoints defaultThreshold now
  refine ⟨p', pruned, hp', fun m hm => ⟨?_, ?_⟩⟩
  · rw [hpruned.mem_iff, List.mem_map]
    simp only [List.mem_filter, Entry.stale_eq _ hdefault, decide_eq_true_eq]
    constructor
    · rintro ⟨m', ⟨hm', hover⟩, heq⟩
      rwa [← List.inj_on_of_nodup_map h.nodup_endpoints hm' hm heq]
    · exact fun hover => ⟨m, ⟨hm, hover⟩, rfl⟩
  · rw [hleft.mem_iff, List.mem_filter, and_iff_right hm, Entry.stale_eq _ hdefault,
      Bool.not_eq_true', decide_eq_false_iff_not]

end

theorem represented_singleton (endpoint : Endpoint)
    (hid : endpoint.privateInstanceId ≠ endpoint.canonicalAddr) (updated : Int) : ∃ p :
    Pool, p.Represented ∧ p.members = [⟨endpoint, updated⟩] := by
  have hnew : (newPool 0 []).Indexes (· = endpoint.canonicalAddr) .empty := newPool_indexes _
  obtain ⟨p, added, hput, h⟩ := hnew.put ⟨rfl, hid⟩ updated
  refine ⟨p, h.represented, ?_⟩
  cases hput
  rfl

-- ---------------------------------------------------------------------------
-- The partition
-- ---------------------------------------------------------------------------

/-- Pruning returns the overdue endpoints, each once, and leaves the other
members as they are. -/
theorem prune_partitions (p : Pool) (h : p.Represented) (defaultThreshold : Int64)
    (hdefault : defaultThreshold ≠ Int64.minValue) (now : Int) :
    ∃ p' pruned, p.pruneEndpoints defaultThreshold now = some (p', pruned) ∧
      pruned.Perm ((p.members.filter (·.Overdue defaultThreshold now)).map Entry.endpoint) ∧
      pruned.Nodup ∧
      p'.members.Perm (p.members.filter (¬ ·.Overdue defaultThreshold now)) := by
  obtain ⟨p', pruned, hp', -, hleft, hpruned, -⟩ := h.placed.pruneEndpoints defaultThreshold now
  simp only [Entry.stale_eq _ hdefault, ← decide_not] at hleft hpruned
  refine ⟨p', pruned, hp', hpruned, hpruned.nodup_iff.mpr ?_, hleft⟩
  exact h.nodup_endpoints.sublist (List.filter_sublist.map _)

namespace Sample

def impatient : Endpoint :=
  newEndpoint 3 "app".toList "10.0.0.1".toList 82 "app".toList 600 ⟨"tag".toList, 1⟩

def aging : List PoolOp :=
  [.put (instanceOf "app" 80 1) 0, .put (instanceOf "app" 81 2) 5400000000000,
    .put impatient 5400000000000]

end Sample

theorem prune_partitions_hour :
    ∃ p, run Pool.step (newPool 0 "/".toList) Sample.aging = some p ∧ p.Represented ∧
      (3600000000000 : Int64) ≠ Int64.minValue ∧
      ∃ p' pruned, p.pruneEndpoints 3600000000000 7200000000000 = some (p', pruned) ∧
        pruned.Perm [Sample.instanceOf "app" 80 1, Sample.impatient] ∧
        p'.members.Perm [⟨Sample.instanceOf "app" 81 2, 5400000000000⟩] := by
  obtain ⟨p, hp, h, -⟩ := pool_represented 0 "/".toList Sample.aging (by decide)
  have hmembers : p.members = [⟨Sample.instanceOf "app" 80 1, 0⟩,
      ⟨Sample.instanceOf "app" 81 2, 5400000000000⟩, ⟨Sample.impatient, 5400000000000⟩] := by
    have hrun : (run Pool.step (newPool 0 "/".toList) Sample.aging).map Pool.members =
        some [⟨Sample.instanceOf "app" 80 1, 0⟩, ⟨Sample.instanceOf "app" 81 2, 5400000000000⟩,
          ⟨Sample.impatient, 5400000000000⟩] := by decide
    rw [hp] at hrun
    exact Option.some.inj hrun
  obtain ⟨p', pruned, hp', hpruned, -, hleft⟩ :=
    prune_partitions p h 3600000000000 (by decide) 7200000000000
  rw [hmembers] at hpruned hleft
  exact ⟨p, hp, h, by decide, p', pruned, hp', hpruned, hleft⟩

/-- The smallest Duration is its own negation: an endpoint stays that is overdue. -/
theorem smallest_default_keeps_overdue : ∃ p :
    Pool, p.Represented ∧ ∃ m ∈ p.members, m.Overdue Int64.minValue 0 ∧
    ∃ p', p.pruneEndpoints Int64.minValue 0 = some (p', []) := by
  obtain ⟨p, h, hm⟩ := represented_singleton (Sample.instanceOf "app" 80 1) (by decide) 0
  obtain ⟨p', pruned, hp', -, -, hpruned, -⟩ := h.placed.pruneEndpoints Int64.minValue 0
  refine ⟨p, h, ⟨Sample.instanceOf "app" 80 1,
    0⟩, by rw [hm]; exact List.mem_singleton_self _, by decide, p', ?_⟩
  rw [hm] at hpruned
  rw [hp', hpruned.eq_nil]

-- ---------------------------------------------------------------------------
-- Thresholds in seconds
-- ---------------------------------------------------------------------------

/-- How long an endpoint with a threshold of `k` seconds should stay without an
update, in nanoseconds. -/
def allowance (k defaultThreshold : Int64) : Int :=
  if k ≤ 0 then defaultThreshold.toInt else min (k.toInt * 1000000000) defaultThreshold.toInt

def Honoured (k defaultThreshold : Int64) : Prop :=
  ∀ (p : Pool) (m : Entry) (ptr : Nat) (appId host : Str) (port : UInt16) (privateInstanceId : Str)
    (modificationTag : ModificationTag) (now : Int), p.Represented → m ∈ p.members →
    m.endpoint = newEndpoint ptr appId host port privateInstanceId k modificationTag →
    ∃ p' pruned, p.pruneEndpoints defaultThreshold now = some (p', pruned) ∧
      (m.endpoint ∈ pruned ↔ allowance k defaultThreshold < now - m.updated) ∧
      (m ∈ p'.members ↔ ¬ allowance k defaultThreshold < now - m.updated)

theorem overdue_iff {m : Entry}
    (hm : m.endpoint = newEndpoint ptr appId host port privateId k tag) :
    m.Overdue defaultThreshold now ↔ (effectiveThreshold (k * 1000000000) defaultThreshold).toInt <
      now - m.updated := by
  have heff : m.effectiveThreshold defaultThreshold =
      Route.effectiveThreshold (k * 1000000000) defaultThreshold := by
    rw [Entry.effectiveThreshold, hm]
    rfl
  rw [Entry.Overdue, heff]
  omega

theorem honoured_iff (hdefault : defaultThreshold ≠ Int64.minValue) :
    Honoured k defaultThreshold ↔ (effectiveThreshold (k * 1000000000) defaultThreshold).toInt =
      allowance k defaultThreshold := by
  constructor
  · intro h
    refine forall_lt_sub_iff.mp fun updated now => ?_
    obtain ⟨p, hp, hm⟩ :=
      represented_singleton (newEndpoint 0 [] [] 0 [] k ⟨[], 0⟩)
        (by simp [newEndpoint, Endpoint.canonicalAddr]) updated
    have hmem : ⟨newEndpoint 0 [] [] 0 [] k ⟨[], 0⟩, updated⟩ ∈ p.members :=
      hm ▸ List.mem_singleton_self _
    obtain ⟨p', pruned, hp', hin, -⟩ := h p _ 0 [] [] 0 [] ⟨[], 0⟩ now hp hmem rfl
    obtain ⟨p'', pruned', hp'', hall⟩ := hp.pruneEndpoints hdefault now
    rw [hp'] at hp''
    cases hp''
    exact (overdue_iff rfl).symm.trans ((hall _ hmem).1.symm.trans hin)
  · intro heq p m ptr appId host port id tag now hp hmem hm
    obtain ⟨p', pruned, hp', hall⟩ := hp.pruneEndpoints hdefault now
    rw [← heq, ← overdue_iff hm]
    exact ⟨p', pruned, hp', hall m hmem⟩

/-- A wrapped product does no harm where it is not positive or not below the
default, which is then what the exact one amounts to. -/
theorem effectiveThreshold_eq_allowance_iff :
    (effectiveThreshold (k * 1000000000) defaultThreshold).toInt = allowance k defaultThreshold ↔
      (-9223372036 ≤ k ∧ k ≤ 9223372036) ∨ k * 1000000000 ≤ 0 ∨
        defaultThreshold ≤ k * 1000000000 := by
  have hzero : (0 : Int64).toInt = 0 := by decide
  have hlt := defaultThreshold.toInt_lt
  rw [effectiveThreshold, allowance]
  by_cases hfits : -9223372036 ≤ k ∧ k ≤ 9223372036
  · refine iff_of_true ?_ (.inl hfits)
    have hexact := (toInt_seconds_eq_iff k).mpr hfits
    simp only [Int64.lt_iff_toInt_lt, Int64.le_iff_toInt_le, hzero, hexact]
    split <;> split <;> omega
  · have hallow : (if k ≤ 0 then defaultThreshold.toInt
        else min (k.toInt * 1000000000) defaultThreshold.toInt) =
        defaultThreshold.toInt := by
      split
      · rfl
      · next hk =>
        have hhi : (9223372036 : Int64).toInt = 9223372036 := by decide
        have hlo : (-9223372036 : Int64).toInt = -9223372036 := by decide
        simp only [Int64.le_iff_toInt_le, hzero, hhi, hlo] at hk hfits
        omega
    rw [hallow, Int64.toInt_inj, or_iff_right hfits, ← Int64.not_lt, ← Int64.not_lt, ← not_and_or]
    split
    · next hw => exact iff_of_false (fun he => absurd hw.2 (he ▸ Int64.lt_irrefl)) fun hn => hn hw
    · next hw => exact iff_of_true rfl hw

/-- The threshold of a message is honoured exactly when its seconds fit into a
Duration, or wrap to something that is not positive or not below the default. -/
theorem thresholds_honoured_iff (k defaultThreshold : Int64) (hD : 0 < defaultThreshold) :
    Honoured k defaultThreshold ↔
      (-9223372036 ≤ k ∧ k ≤ 9223372036) ∨ k * 1000000000 ≤ 0 ∨
        defaultThreshold ≤ k * 1000000000 := by
  have hmin : defaultThreshold ≠ Int64.minValue := by
    rintro rfl
    exact absurd hD (by decide)
  rw [honoured_iff hmin, effectiveThreshold_eq_allowance_iff]

theorem minute_honoured : (0 : Int64) < 120000000000 ∧ Honoured 60 120000000000 :=
  ⟨by decide, (thresholds_honoured_iff 60 120000000000 (by decide)).mpr (by decide)⟩

/-- 18446744074 seconds wrap to 0.29 s: with a default of two minutes the
endpoint is gone after one second. -/
theorem wrapped_threshold_prunes :
    ((newPool 0 "/".toList).put 0
        (newEndpoint 0 [] "10.0.0.1".toList 80 [] 18446744074 ⟨[], 0⟩)).bind
      (fun s => (s.1.pruneEndpoints 120000000000 1000000000).map
        fun t => (t.1.members.length, t.2.length)) = some (0, 1) ∧
    ¬ allowance 18446744074 120000000000 < 1000000000 - 0 := by
  decide

end BigipCtlr.Route
