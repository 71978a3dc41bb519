import BigipCtlr.F5Router.Binding
import BigipCtlr.F5Router.Members

/-!
# Unbinding a mapped route

An Unbind is to take a route back to the defaults and to leave its members and
its address alone. It does so for a pool of one member. With more of them
`removePool` leaves the pool in the map, so that `addPool` appends all members
once more and the settings stay.
-/

namespace BigipCtlr

open Go Lib

-- ---------------------------------------------------------------------------
-- Removing the head of a slice from itself
-- ---------------------------------------------------------------------------

theorem removeMember_head_single (m : Member) : removeMember List.head? [m] = some [] := by
  simp [removeMember, removeRound, MemberSlice.members, List.range_succ]

theorem removeMember_head (a l : Member) (mid : List Member) (hnd : (a :: (mid ++ [l])).Nodup)
    (hzero : l ≠ Member.zero) : removeMember List.head? (a :: (mid ++ [l])) = some (l :: mid) := by
  have hmid : l ∉ mid := by
    have := (List.nodup_cons.mp hnd).2
    exact fun h => (List.nodup_append'.mp this).2.2 h (by simp)
  refine removeMember_eq_some.mpr ⟨⟨l :: (mid ++ [Member.zero]), mid.length + 1⟩,
    ?_, by simp [MemberSlice.members]⟩
  rw [List.length_cons, List.range_succ_eq_map]
  refine run_cons_eq_some.mpr ⟨_, ?_, run_idle fun i hi => ?_⟩
  · simp [removeRound, MemberSlice.members]
  · -- what the later rounds read is not the new head
    obtain ⟨k, hk, rfl⟩ := List.mem_map.mp hi
    have hlt : k < (mid ++ [Member.zero]).length := by simpa using hk
    have hne : (mid ++ [Member.zero])[k] ≠ l := by
      intro he
      rcases List.mem_append.mp (he ▸ List.getElem_mem hlt) with h | h
      · exact hmid h
      · exact hzero (List.mem_singleton.mp h)
    simp [removeRound, MemberSlice.members, List.getElem?_eq_getElem hlt, hne]

-- ---------------------------------------------------------------------------
-- What an Unbind is to do
-- ---------------------------------------------------------------------------

structure F5Router.SameAs (r r' : F5Router) : Prop where
  setup : r.SameSetup r'
  route : ∀ n, r'.route n = r.route n
  rules : r.SameRules r'
  books : r.SameBooks r'

/-- The members, each once, and the address of a route stay, and what a plan
decides goes back to the defaults. Nothing else changes, and once is enough. -/
structure F5Router.ResetsPlan (codec : Codec) (r : F5Router) (ru : UpdateHTTP)
    (p : Pool) (v : Virtual) (r' : F5Router) : Prop where
  pool : ∃ p', (r'.route ru.name).pool = some p' ∧ p'.members.Perm p.members ∧
    p'.balance = (defaultSettings r.c).balance ∧
    p'.monitorNames = (defaultSettings r.c).monitorNames
  virtual : ∃ v', (r'.route ru.name).virtual = some v' ∧ v'.destination = v.destination ∧
    v'.profiles = (defaultSettings r.c).profiles ∧ v'.policies = (defaultSettings r.c).policies
  setup : r.SameSetup r'
  others : ∀ m, m ≠ ru.name → r'.route m = r.route m
  rules : r.SameRules r'
  books : r.SameBooks r'
  again : ∃ r'', r'.handle codec (.http ru) = some r'' ∧ r'.SameAs r''

-- ---------------------------------------------------------------------------
-- What it does
-- ---------------------------------------------------------------------------

section
variable {r : F5Router} {ru : UpdateHTTP} {p : Pool} {v : Virtual}

theorem processRouteUnbind_returns (hop : ru.op = .unbind) (hname : p.name = ru.name)
    (hp : (r.route ru.name).pool = some p) (hv : (r.route ru.name).virtual = some v)
    (hms : removeMember List.head? p.members = some ms) (hne : p.members ≠ []) :
    (r.processRouteUnbind ru).isSome = true := by
  obtain ⟨first, rest, hfirst⟩ := List.exists_cons_of_ne_nil hne
  have hlook : r.poolResources.lookup ru.name = some p := hp
  have hvlook : r.virtualResources.lookup ru.name = some v := hv
  obtain ⟨gone, r₁, hrem⟩ := removePool_own_returns hname hlook hms
  simp only [F5Router.processRouteUnbind, hlook, hvlook, hrem, hfirst, bind, Option.bind_some,
    List.head?_cons, createBrokerDefaultResources_eq hop]
  by_cases hbad : first.address = [] ∨ p.description = []
  · rw [if_pos hbad]
    rfl
  · rw [if_neg hbad]
    rfl

theorem handle_unbind (codec : Codec) (hN : r.Named) (hw : (r.route ru.name).Whole)
    (hop : ru.op = .unbind) (hp : (r.route ru.name).pool = some p)
    (hv : (r.route ru.name).virtual = some v) (hms : removeMember List.head? p.members = some ms)
    (hfirst : p.members.head? = some first) :
    ∃ r', r.handle codec (.http ru) = some r' ∧ (r.SameRules r' ∧ r.SameBooks r') ∧
      r.Turns ru.name ((r.route ru.name).unbindMapped p ms
        (defaultResources r.c ru.name p.description v.destination first.address first.port))
      r' := by
  obtain ⟨hname, hne⟩ := hN.pool _ _ hp
  obtain ⟨r', hr'⟩ :=
    Option.isSome_iff_exists.mp (processRouteUnbind_returns hop hname hp hv hms hne)
  refine ⟨r', by simpa [F5Router.handle, hop] using hr', ?_⟩
  obtain ⟨hsame, ⟨hun, -⟩ | ⟨q, w, ms', first', hq, hw', hms', hfirst', ht⟩⟩ :=
    processRouteUnbind_spec hN hop hr'
  · exact (hun p v hp hv).elim
  · rw [hp] at hq
    rw [hv] at hw'
    cases hq
    cases hw'
    rw [hms] at hms'
    rw [hfirst] at hfirst'
    cases hms'
    cases hfirst'
    rw [if_neg ((hw.restorable p hp).first hfirst)] at ht
    exact ⟨hsame, ht⟩

theorem unbind_single (codec : Codec) (hN : r.Named) (hw : (r.route ru.name).Whole)
    (hop : ru.op = .unbind) (hp : (r.route ru.name).pool = some p)
    (hv : (r.route ru.name).virtual = some v) (hms : p.members = [a]) :
    ∃ r', r.handle codec (.http ru) = some r' ∧ r.ResetsPlan codec ru p v r' := by
  have hone : removeMember List.head? p.members = some [] := hms ▸ removeMember_head_single a
  have hfirst : p.members.head? = some a := by rw [hms]; rfl
  obtain ⟨r', hr', ⟨hrules, hbooks⟩, ht⟩ := handle_unbind codec hN hw hop hp hv hone hfirst
  let rs := defaultResources r.c ru.name p.description v.destination a.address a.port
  let p' : Pool := { rs.pool with members := p.members }
  have hp' : (r'.route ru.name).pool = some p' := by rw [ht.own]; rfl
  have hv' : (r'.route ru.name).virtual = some rs.virtual := by rw [ht.own]; rfl
  have hw' : (r'.route ru.name).Whole := by
    refine ⟨by rw [hp', hv']; rfl, fun hnone => ?_, fun q hq => ?_⟩
    · rw [hp'] at hnone
      cases hnone
    · rw [hp'] at hq
      cases hq
      exact ⟨(hw.restorable p hp).description, (hw.restorable p hp).address⟩
  refine ⟨r', hr', ⟨p', hp', .refl _, rfl, rfl⟩, ⟨rs.virtual, hv', rfl, rfl, rfl⟩,
    ht.toSameSetup, ht.other, hrules, hbooks, ?_⟩
  -- the pool made anew has one member too
  obtain ⟨r'', hr'', ⟨hrules', hbooks'⟩, ht'⟩ :=
    handle_unbind codec (handle_named hN hr') hw' hop hp' hv' hone hfirst
  refine ⟨r'', hr'', ht'.toSameSetup, fun m => ?_, hrules', hbooks'⟩
  by_cases hm : m = ru.name
  · rw [hm, ht'.own, ht.c, ht.own]
    rfl
  · exact ht'.other m hm

end

-- ---------------------------------------------------------------------------
-- Runs
-- ---------------------------------------------------------------------------

theorem run_whole (hboot : boot codec c plans dg = some r₀)
    (hrun : run (F5Router.step codec) r₀ es = some r) (hn : ¬ tier1 n)
    (htcp : ∀ e ∈ es, ∀ tu, e.item = .tcp tu → UpdateTCP.name tu ≠ n) :
    r.Named ∧ (r.route n).Whole := by
  refine run_handled (P := fun r => (r.route n).Whole) hboot (fun _ _ _ _ hs => hs) ?_ ?_ hrun
  · intro s t e he hnamed hwhole hstep
    obtain ⟨x, ht, hroute⟩ := handle_step hnamed hstep
    by_cases hname : e.item.name = n
    · subst hname
      rw [ht.own]
      refine hroute.whole (H := (· = e.item.name)) hwhole ?_ rfl
      cases hi : e.item with
      | http ru => rfl
      | tcp tu => exact fun heq => htcp e he tu hi (by rw [hi]; rfl)
    · rw [ht.other n fun h => hname h.symm]
      exact hwhole
  · exact (F5Router.Shaped.boot (H := (· = n)) hboot fun m hm => hm ▸ hn).whole n rfl

theorem unbindMapped_members (x : RouteState) {p : Pool} (hms : p.members = a :: (mid ++ [l]))
    (hnd : p.members.Nodup) :
    ∃ q, (x.unbindMapped p (l :: mid) rs).pool = some q ∧ q.members = l :: mid ++ p.members := by
  refine ⟨_, rfl, ?_⟩
  rw [hms] at hnd ⊢
  have ha : a ∉ l :: mid := by
    have := (List.nodup_cons.mp hnd).1
    simpa [and_comm] using this
  simp only [joinPool, List.cons_ne_nil, if_false, List.head?_cons, Option.some.injEq,
    List.any_eq_true, decide_eq_true_eq, exists_eq_right, ha]

/-- An Unbind resets a mapped route and nothing else exactly when the route has
one member. -/
theorem unbind_resets_iff (hboot : boot codec c plans dg = some r₀)
    (hrun : run (F5Router.step codec) r₀ es = some r) (hop : ru.op = .unbind)
    (htcp : ∀ e ∈ es, ∀ tu, e.item = .tcp tu → UpdateTCP.name tu ≠ ru.name)
    (hp : (r.route ru.name).pool = some p) (hv : (r.route ru.name).virtual = some v)
    (hnd : p.members.Nodup) :
    ∃ r', r.handle codec (.http ru) = some r' ∧
      (r.ResetsPlan codec ru p v r' ↔ p.members.length = 1) := by
  obtain ⟨hnamed, hwhole⟩ := run_whole hboot hrun (not_tier1 ru.name_starts) htcp
  obtain ⟨hname, hne⟩ := hnamed.pool _ _ hp
  obtain ⟨a, rest, hcons⟩ := List.exists_cons_of_ne_nil hne
  rcases rest.eq_nil_or_concat with rfl | ⟨mid, l, rfl⟩
  · obtain ⟨r', hr', hreset⟩ := unbind_single codec hnamed hwhole hop hp hv hcons
    exact ⟨r', hr', iff_of_true hreset (by simp [hcons])⟩
  · rw [List.concat_eq_append] at hcons
    have hzero : l ≠ Member.zero := by
      rintro rfl
      exact (hwhole.restorable p hp).address Member.zero (by simp [hcons]) rfl
    obtain ⟨r', hr', -, hturns⟩ := handle_unbind codec hnamed hwhole hop hp hv
      (by rw [hcons]; exact removeMember_head a l mid (hcons ▸ hnd) hzero) (by rw [hcons]; rfl)
    refine ⟨r', hr', iff_of_false (fun h => ?_) (by simp [hcons])⟩
    obtain ⟨p', hp', hperm, -⟩ := h.pool
    obtain ⟨q, hq, hmembers⟩ := unbindMapped_members (r.route ru.name) hcons hnd
    rw [hturns.own, hq] at hp'
    cases hp'
    have hlen := hperm.length_eq
    simp only [hmembers, List.cons_append, List.length_cons, List.length_append] at hlen
    omega

namespace Sample

def unbound : UpdateHTTP :=
  ⟨.unbind, "*.a".toList, none, "cf-a".toList, [], 0, named_a, brokered_none⟩

end Sample

theorem unbind_resets_iff_sample :
    ∃ r₀ ∈ boot jsonCodec Sample.config Sample.plans none, ∃ r ∈ run (F5Router.step jsonCodec) r₀
        [Sample.event Sample.addA 0, Sample.event (Sample.bindA "ratio".toList) 0],
      ∃ p ∈ (r.route "cf-a".toList).pool, ∃ v ∈ (r.route "cf-a".toList).virtual,
        ∃ r', r.handle jsonCodec (.http Sample.unbound) = some r' ∧
          r.ResetsPlan jsonCodec Sample.unbound p v r' := by
  have hrun : ∃ r₀ ∈ boot jsonCodec Sample.config Sample.plans none,
        ∃ r ∈ run (F5Router.step jsonCodec) r₀
        [Sample.event Sample.addA 0, Sample.event (Sample.bindA "ratio".toList) 0],
      ∃ p ∈ (r.route "cf-a".toList).pool, ∃ v ∈ (r.route "cf-a".toList).virtual,
        p.members.Nodup ∧ p.members.length = 1 := by
    decide +kernel
  obtain ⟨r₀, hboot, r, hrun, p, hp, v, hv, hnd, hone⟩ := hrun
  obtain ⟨r', hr', hiff⟩ := unbind_resets_iff hboot hrun (show Sample.unbound.op = .unbind from rfl)
    (by simp [Sample.event, Sample.addA, Sample.bindA, Sample.update]) hp hv hnd
  exact ⟨r₀, hboot, r, hrun, p, hp, v, hv, r', hr', hiff.mpr hone⟩

/-- With two members one of them is there twice afterwards, and the balance
mode of the plan stays. -/
theorem unbind_duplicates :
    ∃ r₀ ∈ boot jsonCodec Sample.config Sample.plans none, ∃ r ∈ run (F5Router.step jsonCodec) r₀
        [Sample.event Sample.addA 0, Sample.event Sample.addA2 0,
          Sample.event (Sample.bindA "ratio".toList) 0],
      ∃ r' ∈ r.handle jsonCodec (.http Sample.unbound),
        (r.route "cf-a".toList).pool.map (·.members.map Member.port) = some [1, 2] ∧
        (r.route "cf-a".toList).virtual.isSome = true ∧
        (r'.route "cf-a".toList).pool.map (fun p => (p.members.map Member.port, p.balance)) =
          some ([2, 1, 2], "ratio-member".toList) ∧
        ∀ p v, (r.route "cf-a".toList).pool = some p →
          ¬ r.ResetsPlan jsonCodec Sample.unbound p v r' := by
  have hrun : ∃ r₀ ∈ boot jsonCodec Sample.config Sample.plans none,
        ∃ r ∈ run (F5Router.step jsonCodec) r₀
        [Sample.event Sample.addA 0, Sample.event Sample.addA2 0,
          Sample.event (Sample.bindA "ratio".toList) 0],
      ∃ r' ∈ r.handle jsonCodec (.http Sample.unbound),
        (r.route "cf-a".toList).pool.map (·.members.map Member.port) = some [1, 2] ∧
        (r.route "cf-a".toList).virtual.isSome = true ∧
        (r'.route "cf-a".toList).pool.map (fun p => (p.members.map Member.port, p.balance)) =
          some ([2, 1, 2], "ratio-member".toList) := by
    decide +kernel
  obtain ⟨r₀, hboot, r, hrun, r', hr', htwo, hmapped, hthree⟩ := hrun
  refine ⟨r₀, hboot, r, hrun, r', hr', htwo, hmapped, hthree, fun p v hp hreset => ?_⟩
  obtain ⟨p', hp', hperm, -⟩ := hreset.pool
  have hp₂ : (r'.route "cf-a".toList).pool = some p' := hp'
  rw [hp, Option.map_some, Option.some.injEq] at htwo
  rw [hp₂, Option.map_some, Option.some.injEq, Prod.mk.injEq] at hthree
  have hlen := (hperm.map Member.port).length_eq
  rw [htwo, hthree.1] at hlen
  cases hlen

end BigipCtlr
