import BigipCtlr.F5Router.Router
import BigipCtlr.F5Router.UpdateLaws
import BigipCtlr.Lib.Run

/-!
# One route at a time

What the router keeps under one name, what each kind of update makes of it,
and that an update of the router is that update of the route it names: the
other routes, and the rest of the state, stay as they are.
-/

namespace BigipCtlr

open Go Lib

@[ext] structure RouteState where
  pool : Option Pool
  virtual : Option Virtual
  monitors : Option (List Monitor)
  unmapped : Option RouteResources

def F5Router.route (r : F5Router) (n : Str) : RouteState where
  pool := r.poolResources.lookup n
  virtual := r.virtualResources.lookup n
  monitors := r.monitorResources.lookup n
  unmapped := r.unmappedResourcesMap.lookup n

-- ---------------------------------------------------------------------------
-- Updates of a route
-- ---------------------------------------------------------------------------

def joinPool (old : Option Pool) (pool : Pool) : Pool :=
  match old with
  | some p =>
    if p.members.any (fun addr => some addr = pool.members.head?) then p
    else { p with members := p.members ++ pool.members }
  | none => pool

def RouteState.resources (x : RouteState) (rs : RouteResources) : RouteResources :=
  match x.unmapped with
  | some resources => updateResources rs resources
  | none => rs

def RouteState.add (x : RouteState) (rs : RouteResources) (vs : Virtual) : RouteState :=
  { x with
    pool := some (joinPool x.pool rs.pool)
    virtual := some (x.virtual.getD vs)
    monitors := if rs.monitors = [] then x.monitors else some rs.monitors }

def RouteState.shrink (x : RouteState) (p : Pool) (ms : List Member) : RouteState :=
  if ms = [] then { x with pool := none, virtual := none, monitors := none }
  else { x with pool := some { p with members := ms } }

def RouteState.bindMapped (x : RouteState) (c : Config) (plan : Plan) (p : Pool) (v : Virtual) :
    RouteState :=
  let new := createPlanResources c plan
  let rs := updateResources ⟨v, p, []⟩ new
  { x with
    pool := some rs.pool
    virtual := some rs.virtual
    monitors := if new.monitors ≠ [] then some new.monitors
      else if plan.pool.healthMonitors ≠ [] then none else x.monitors }

/-- `processRouteUnbind` of a route with pool `p`, from which `removePool` made
`ms`. A pool that kept a member also keeps its settings. -/
def RouteState.unbindMapped (x : RouteState) (p : Pool) (ms : List Member) (rs : RouteResources) :
    RouteState :=
  let pool := { rs.pool with members := p.members }
  { x with
    pool := some (joinPool (if ms = [] then none else some { p with members := ms }) pool)
    virtual := some rs.virtual
    monitors := none }

-- ---------------------------------------------------------------------------
-- Operations on the maps
-- ---------------------------------------------------------------------------

theorem lookup_addPool (r : F5Router) (pool : Pool) (m : Str) :
    (r.addPool pool).poolResources.lookup m =
      if m = pool.name then some (joinPool (r.poolResources.lookup m) pool)
      else r.poolResources.lookup m := by
  simp only [F5Router.addPool]
  by_cases hm : m = pool.name
  · subst hm
    rw [if_pos rfl]
    cases hp : r.poolResources.lookup pool.name with
    | none => exact AList.lookup_insert _
    | some p =>
      simp only [joinPool]
      split
      · exact hp
      · exact AList.lookup_insert _
  · rw [if_neg hm]
    split
    · split
      · rfl
      · exact AList.lookup_insert_ne hm
    · exact AList.lookup_insert_ne hm

theorem lookup_addVirtual (r : F5Router) (vs : Virtual) (m : Str) :
    (r.addVirtual vs).virtualResources.lookup m =
      if m = vs.virtualServerName then some ((r.virtualResources.lookup m).getD vs)
      else r.virtualResources.lookup m := by
  simp only [F5Router.addVirtual]
  by_cases hm : m = vs.virtualServerName
  · subst hm
    rw [if_pos rfl]
    split
    · next h =>
      obtain ⟨v, hv⟩ := Option.isSome_iff_exists.mp (AList.lookup_isSome.mpr h)
      rw [hv, Option.getD_some]
    · next h =>
      rw [AList.lookup_insert, AList.lookup_eq_none.mpr h, Option.getD_none]
  · rw [if_neg hm]
    split
    · rfl
    · exact AList.lookup_insert_ne hm

theorem lookup_addAnyMonitors (r : F5Router) (n : Str) (monitors : List Monitor) (m : Str) :
    (r.addAnyMonitors n monitors).monitorResources.lookup m =
      if m = n ∧ monitors ≠ [] then some monitors else r.monitorResources.lookup m := by
  simp only [F5Router.addAnyMonitors, ne_eq, List.length_eq_zero_iff]
  by_cases h : monitors = []
  · simp [h]
  · simp [h, GoMap.lookup_insert_ite]

/-- What `removePool` can do. -/
theorem removePool_cases {r : F5Router} (h : r.removePool key first = some (gone, r')) :
    (r.poolResources.lookup key = none ∧ gone = false ∧ r' = r) ∨
      ∃ p ms, r.poolResources.lookup key = some p ∧ removeMember first p.members = some ms ∧
        ((ms = [] ∧ gone = true ∧ r' = { r with poolResources := r.poolResources.erase key }) ∨
          (ms ≠ [] ∧ gone = false ∧
            r' = { r with
              poolResources := r.poolResources.insert key { p with members := ms } })) := by
  simp only [F5Router.removePool] at h
  split at h
  · next hp =>
    cases h
    exact .inl ⟨hp, rfl, rfl⟩
  · next p hp =>
    obtain ⟨ms, hms, h⟩ := Option.bind_eq_some_iff.mp h
    refine .inr ⟨p, ms, hp, hms, ?_⟩
    split at h
    · next hl =>
      cases h
      exact .inl ⟨List.length_eq_zero_iff.mp hl, rfl, rfl⟩
    · next hl =>
      cases h
      exact .inr ⟨fun he => hl (List.length_eq_zero_iff.mpr he), rfl, rfl⟩

-- ---------------------------------------------------------------------------
-- Members
-- ---------------------------------------------------------------------------

theorem removeRound_cases (h : removeRound first s i = some s') :
    s' = s ∨ ∃ last, i < s.len ∧ s.array[s.len - 1]? = some last ∧
      s' = ⟨(s.array.set i last).set (s.len - 1) Member.zero, s.len - 1⟩ := by
  simp only [removeRound, bind, Option.bind_eq_some_iff] at h
  obtain ⟨addr, -, wanted, -, h⟩ := h
  split at h
  · split at h
    · next hlen =>
      obtain ⟨last, hlast, h⟩ := Option.bind_eq_some_iff.mp h
      cases h
      exact .inr ⟨last, hlen, hlast, rfl⟩
    · cases h
  · cases h
    exact .inl rfl

theorem removeRound_subset (h : removeRound first s i = some s') : s'.members ⊆ s.members := by
  obtain rfl | ⟨last, hi, hlast, rfl⟩ := removeRound_cases h
  · exact fun _ => id
  · intro m hm
    simp only [MemberSlice.members] at hm ⊢
    rw [List.take_set_of_le (by omega)] at hm
    obtain ⟨j, hj, rfl⟩ := List.getElem_of_mem hm
    simp only [List.length_take, List.length_set] at hj
    rw [List.getElem_take, List.getElem_set]
    split
    · obtain ⟨hl, rfl⟩ := List.getElem?_eq_some_iff.mp hlast
      exact List.mem_take_iff_getElem.mpr ⟨s.len - 1, by omega, rfl⟩
    · exact List.mem_take_iff_getElem.mpr ⟨j, by omega, rfl⟩

theorem removeMember_eq_some :
    removeMember first ms = some ms' ↔ ∃ s, run (removeRound first) ⟨ms, ms.length⟩
      (List.range ms.length) = some s ∧ s.members = ms' :=
  Option.map_eq_some_iff

theorem removeMember_subset (h : removeMember first ms = some ms') : ms' ⊆ ms := by
  obtain ⟨s, hs, rfl⟩ := removeMember_eq_some.mp h
  have hstart : (MemberSlice.mk ms ms.length).members ⊆ ms := by simp [MemberSlice.members]
  refine run_invariant_mem (I := fun s => s.members ⊆ ms) ?_ hstart hs
  intro s t i _ hI ht m hm
  exact hI (removeRound_subset ht hm)

theorem route_addBoth (r : F5Router) (h : vs.virtualServerName = pool.name) (m : Str) :
    ((r.addPool pool).addVirtual vs).route m =
      if m = pool.name then
        { r.route m with
          pool := some (joinPool (r.route m).pool pool)
          virtual := some ((r.route m).virtual.getD vs) }
      else r.route m := by
  have hp := lookup_addPool r pool m
  have hv := lookup_addVirtual (r.addPool pool) vs m
  rw [h] at hv
  by_cases hm : m = pool.name
  · rw [if_pos hm] at hp hv ⊢
    exact RouteState.ext hp hv rfl rfl
  · rw [if_neg hm] at hp hv ⊢
    exact RouteState.ext hp hv rfl rfl

theorem removeMember_head_eq_nil (hne : ms ≠ []) (h : removeMember List.head? ms = some ms') :
    ms' = [] ↔ ms.length = 1 := by
  obtain ⟨s, hs, rfl⟩ := removeMember_eq_some.mp h
  match ms, hne with
  | a :: rest, _ =>
    rw [List.length_cons, List.range_succ_eq_map, run_cons_eq_some] at hs
    obtain ⟨s₁, h₁, hs⟩ := hs
    have hs₁ : s₁.len = rest.length ∧ s₁.array.length = rest.length + 1 := by
      simp only [removeRound, MemberSlice.members, bind, Option.bind_eq_some_iff] at h₁
      obtain ⟨addr, ha, wanted, hw, h₁⟩ := h₁
      cases ha
      cases hw
      rw [if_pos rfl, if_pos (Nat.succ_pos _)] at h₁
      obtain ⟨last, -, h₁⟩ := Option.bind_eq_some_iff.mp h₁
      cases h₁
      simp
    cases rest with
    | nil =>
      cases hs
      simp [MemberSlice.members, hs₁.1]
    | cons b rest =>
      -- a later round only ever removes behind the first slot
      have hlen : 1 ≤ s.len ∧ s.len ≤ s.array.length := by
        refine run_invariant_mem (I := fun s => 1 ≤ s.len ∧ s.len ≤ s.array.length) ?_ ?_ hs
        · intro u v i hi hu hv
          obtain ⟨j, -, rfl⟩ := List.mem_map.mp hi
          obtain rfl | ⟨last, hj, -, rfl⟩ := removeRound_cases hv
          · exact hu
          · simp only [List.length_set]
            omega
        · simp only [hs₁, List.length_cons]
          omega
      refine iff_of_false (fun he => ?_) (by simp)
      have := congrArg List.length he
      simp only [MemberSlice.members, List.length_take, List.length_nil] at this
      omega

-- ---------------------------------------------------------------------------
-- Updates of the router
-- ---------------------------------------------------------------------------

structure F5Router.SameSetup (r r' : F5Router) : Prop where
  c : r'.c = r.c
  ruleResources : r'.ruleResources = r.ruleResources
  plansMap : r'.plansMap = r.plansMap
  firstSyncDone : r'.firstSyncDone = r.firstSyncDone
  bindIDRouteURIPlanNameMap : r'.bindIDRouteURIPlanNameMap = r.bindIDRouteURIPlanNameMap

/-- The update turns the route `n` into `x`; the other routes and what no
update changes stay. -/
structure F5Router.Turns (r : F5Router) (n : Str) (x : RouteState) (r' : F5Router) : Prop
    extends F5Router.SameSetup r r' where
  own : r'.route n = x
  other : ∀ m, m ≠ n → r'.route m = r.route m

structure F5Router.SameRules (r r' : F5Router) : Prop where
  rules : r'.r = r.r
  wildcards : r'.wildcards = r.wildcards

structure F5Router.SameBooks (r r' : F5Router) : Prop where
  internalDataGroup : r'.internalDataGroup = r.internalDataGroup
  tier2VSInfo : r'.tier2VSInfo = r.tier2VSInfo

/-- Pools and virtual servers are kept under their own names, and no pool is
empty. -/
structure F5Router.Named (r : F5Router) : Prop where
  pool : ∀ n p, r.poolResources.lookup n = some p → p.name = n ∧ p.members ≠ []
  virtual : ∀ n v, r.virtualResources.lookup n = some v → v.virtualServerName = n

def RouteState.bind (x : RouteState) (c : Config) (plan : Option Plan) : RouteState :=
  match plan, x.pool, x.virtual with
  | none, _, _ => x
  | some plan, some p, some v => x.bindMapped c plan p v
  | some plan, _, _ => { x with unmapped := some (createPlanResources c plan) }

theorem joinPool_self {pool : Pool} (hne : pool.members ≠ []) :
    joinPool (some pool) pool = pool := by
  match hm : pool.members, hne with
  | a :: rest, _ => simp [joinPool, hm]

theorem lookup_putBack {r r₁ r₂ : F5Router} (h : r.removePool n first = some (gone, r₁))
    (hp : r.poolResources.lookup n = some p) (hname : pool.name = n) (hne : pool.members ≠ [])
    (heq : r₂.poolResources = (r₁.writeBack pool).poolResources) (m : Str) :
    (r₂.addPool pool).poolResources.lookup m =
      if m = n then some pool else r.poolResources.lookup m := by
  subst hname
  rw [lookup_addPool, heq]
  simp only [F5Router.writeBack]
  obtain ⟨hnone, -⟩ | ⟨q, ms, -, -, ⟨-, -, rfl⟩ | ⟨-, -, rfl⟩⟩ := removePool_cases h
  · rw [hp] at hnone
    cases hnone
  · simp only [AList.mem_erase, ne_eq, not_true_eq_false, false_and, if_false]
    split
    · next hm => rw [hm, AList.lookup_erase, joinPool]
    · next hm => exact AList.lookup_erase_ne hm
  · simp only [AList.mem_insert, true_or, if_true]
    split
    · next hm =>
      rw [hm, AList.lookup_insert]
      exact congrArg some (joinPool_self hne)
    · next hm => rw [AList.lookup_insert_ne hm, AList.lookup_insert_ne hm]

theorem removePool_frame {r : F5Router} (h : r.removePool key first = some (gone, r')) :
    ∃ pools, r' = { r with poolResources := pools } := by
  obtain ⟨-, -, rfl⟩ | ⟨p, ms, -, -, ⟨-, -, rfl⟩ | ⟨-, -, rfl⟩⟩ := removePool_cases h
  · exact ⟨_, rfl⟩
  · exact ⟨_, rfl⟩
  · exact ⟨_, rfl⟩

theorem bind_of_unmapped {x : RouteState}
    (h : ∀ p v, x.pool = some p → x.virtual = some v → False) :
    x.bind c plan = { x with unmapped := match plan with
      | some plan => some (createPlanResources c plan)
      | none => x.unmapped } := by
  cases plan with
  | none => rfl
  | some plan =>
    obtain ⟨pool, virtual, monitors, unmapped⟩ := x
    cases pool with
    | none => cases virtual <;> rfl
    | some p =>
      cases virtual with
      | none => rfl
      | some v => exact (h p v rfl rfl).elim

theorem bind_of_mapped {x : RouteState} (hp : x.pool = some p) (hv : x.virtual = some v) :
    x.bind c (some plan) = x.bindMapped c plan p v := by
  simp only [RouteState.bind, hp, hv]

theorem lookup_readd {r r₁ : F5Router} (hr : r₁.virtualResources = r.virtualResources.erase n)
    (hv : v.virtualServerName = n) (m : Str) :
    (r₁.addVirtual v).virtualResources.lookup m =
      if m = n then some v else r.virtualResources.lookup m := by
  rw [lookup_addVirtual, hv, hr]
  split
  · next hm => rw [hm, AList.lookup_erase, Option.getD_none]
  · next hm => exact AList.lookup_erase_ne hm

theorem route_putBack {r r₁ r₂ : F5Router} (h : r.removePool n first = some (gone, r₁))
    (hp : r.poolResources.lookup n = some p) (hname : pool.name = n) (hne : pool.members ≠ [])
    (hv : v.virtualServerName = n) (m : Str)
    (hpools : r₂.poolResources = (r₁.writeBack pool).poolResources)
    (hvirtuals : r₂.virtualResources = r.virtualResources.erase n) :
    ((r₂.addPool pool).addVirtual v).route m =
      { r₂.route m with
        pool := if m = n then some pool else r.poolResources.lookup m
        virtual := if m = n then some v else r.virtualResources.lookup m } := by
  refine RouteState.ext ?_ ?_ rfl rfl
  · exact lookup_putBack h hp hname hne hpools m
  · exact @lookup_readd _ _ r (r₂.addPool pool) hvirtuals hv m

theorem processRouteBind_spec {r : F5Router} (hN : r.Named) (h : r.processRouteBind ru = some r') :
    r.Turns ru.name ((r.route ru.name).bind r.c (r.plansMap.lookup ru.planID)) r' ∧
      r.SameRules r' ∧ r.SameBooks r' := by
  simp only [F5Router.processRouteBind] at h
  split at h
  · next p v hp hv =>
    obtain ⟨⟨gone, r₁⟩, hrem, h⟩ := Option.bind_eq_some_iff.mp h
    obtain ⟨hname, hne⟩ := hN.pool _ _ hp
    have hvname := hN.virtual _ _ hv
    obtain ⟨pools, rfl⟩ := removePool_frame hrem
    rw [hname] at hrem
    cases hplan : r.plansMap.lookup ru.planID with
    | none =>
      simp only [F5Router.bindPlan, F5Router.removeVirtual, hplan] at h
      cases h
      refine ⟨⟨⟨rfl, rfl, rfl, rfl, rfl⟩, ?_, fun m hm => ?_⟩, ⟨rfl, rfl⟩, ⟨rfl, rfl⟩⟩
      · refine Eq.trans (route_putBack hrem hp hname hne hvname _ ?_ ?_) ?_
        · rfl
        · rfl
        rw [if_pos rfl, if_pos rfl, ← hp, ← hv]
        rfl
      · refine Eq.trans (route_putBack hrem hp hname hne hvname m ?_ ?_) ?_
        · rfl
        · rfl
        rw [if_neg hm, if_neg hm]
        rfl
    | some plan =>
      simp only [F5Router.bindPlan, F5Router.removeVirtual, hplan] at h
      cases h
      refine ⟨⟨⟨rfl, rfl, rfl, rfl, rfl⟩, ?_, fun m hm => ?_⟩, ⟨rfl, rfl⟩, ⟨rfl, rfl⟩⟩
      · refine Eq.trans (route_putBack hrem hp ?_ ?_ ?_ _ ?_ ?_) ?_
        · exact hname
        · exact hne
        · exact hvname
        · rfl
        · rfl
        rw [if_pos rfl, if_pos rfl, bind_of_mapped hp hv]
        refine RouteState.ext rfl rfl (Eq.trans (lookup_addAnyMonitors _ _ _ _) ?_) rfl
        simp only [RouteState.bindMapped, updateResources, F5Router.writeBack, hname, true_and]
        by_cases hnew : (createPlanResources r.c plan).monitors = [] <;>
          by_cases hhm : plan.pool.healthMonitors = [] <;> simp [hnew, hhm, F5Router.route]
      · refine Eq.trans (route_putBack hrem hp ?_ ?_ ?_ _ ?_ ?_) ?_
        · exact hname
        · exact hne
        · exact hvname
        · rfl
        · rfl
        rw [if_neg hm, if_neg hm]
        refine RouteState.ext rfl rfl (Eq.trans (lookup_addAnyMonitors _ _ _ _) ?_) rfl
        rw [if_neg fun h => hm (h.1.trans hname)]
        simp only [F5Router.writeBack, hname]
        split
        · exact AList.lookup_erase_ne hm
        · rfl
  · next hun =>
    have hb : (r.route ru.name).bind r.c (r.plansMap.lookup ru.planID) = _ :=
      bind_of_unmapped fun p v hp hv => hun p v hp hv
    split at h
    · next plan hplan =>
      cases h
      rw [hb, hplan]
      refine ⟨⟨⟨rfl, rfl, rfl, rfl, rfl⟩, ?_, ?_⟩, ⟨rfl, rfl⟩, ⟨rfl, rfl⟩⟩
      · simp [F5Router.route]
      · intro m hm
        simp [F5Router.route, AList.lookup_insert_ne hm]
    · next hplan =>
      cases h
      rw [hb, hplan]
      exact ⟨⟨⟨rfl, rfl, rfl, rfl, rfl⟩, rfl, fun m hm => rfl⟩, ⟨rfl, rfl⟩, ⟨rfl, rfl⟩⟩

theorem route_takeOut {r r₁ : F5Router} (h : r.removePool n first = some (gone, r₁))
    (hp : r.poolResources.lookup n = some p) :
    ∃ ms, removeMember first p.members = some ms ∧ ∀ m,
      ((r₁.removeVirtual n).removeMonitors n).route m =
        if m = n then
          { r.route n with
            pool := if ms = [] then none else some { p with members := ms }
            virtual := none
            monitors := none }
        else r.route m := by
  obtain ⟨hnone, -⟩ | ⟨q, ms, hq, hms, hcase⟩ := removePool_cases h
  · rw [hp] at hnone
    cases hnone
  · rw [hp] at hq
    cases hq
    refine ⟨ms, hms, fun m => ?_⟩
    obtain ⟨hnil, -, rfl⟩ | ⟨hnil, -, rfl⟩ := hcase
    all_goals
      simp only [hnil, if_true, if_false, F5Router.removeVirtual,
        F5Router.removeMonitors, F5Router.route, GoMap.lookup_erase_ite, GoMap.lookup_insert_ite]
      split
      · next hm =>
        subst hm
        rfl
      · rfl

theorem processRouteUnbind_spec {r : F5Router} (hN : r.Named) (hop : ru.op = .unbind)
    (h : r.processRouteUnbind ru = some r') :
    (r.SameRules r' ∧ r.SameBooks r') ∧
      (((∀ p v, (r.route ru.name).pool = some p → (r.route ru.name).virtual = some v → False) ∧
          r.Turns ru.name { r.route ru.name with unmapped := none } r') ∨
        ∃ p v ms first, (r.route ru.name).pool = some p ∧ (r.route ru.name).virtual = some v ∧
          removeMember List.head? p.members = some ms ∧ p.members.head? = some first ∧
          r.Turns ru.name
            (if first.address = [] ∨ p.description = [] then
              { r.route ru.name with
                pool := if ms = [] then none else some { p with members := ms }
                virtual := none
                monitors := none }
            else (r.route ru.name).unbindMapped p ms
              (defaultResources r.c ru.name p.description v.destination first.address first.port))
            r') := by
  simp only [F5Router.processRouteUnbind] at h
  split at h
  · next p v hp hv =>
    obtain ⟨⟨gone, r₁⟩, hrem, h⟩ := Option.bind_eq_some_iff.mp h
    obtain ⟨first, hfirst, h⟩ := Option.bind_eq_some_iff.mp h
    obtain ⟨hname, -⟩ := hN.pool _ _ hp
    rw [hname] at hrem h
    obtain ⟨ms, hms, hroute⟩ := route_takeOut hrem hp
    obtain ⟨pools, rfl⟩ := removePool_frame hrem
    simp only [createBrokerDefaultResources_eq hop, F5Router.removeMonitors, F5Router.removeVirtual]
      at h hroute
    by_cases hbad : first.address = [] ∨ p.description = []
    · simp only [if_pos hbad] at h
      cases h
      refine ⟨⟨⟨rfl, rfl⟩, ⟨rfl, rfl⟩⟩, .inr ⟨p, v, ms, first, hp, hv, hms, hfirst, ?_⟩⟩
      rw [if_pos hbad]
      exact ⟨⟨rfl, rfl, rfl, rfl, rfl⟩, by rw [hroute, if_pos rfl],
        fun m hm => by rw [hroute, if_neg hm]⟩
    · simp only [if_neg hbad] at h
      cases h
      refine ⟨⟨⟨rfl, rfl⟩, ⟨rfl, rfl⟩⟩, .inr ⟨p, v, ms, first, hp, hv, hms, hfirst, ?_⟩⟩
      rw [if_neg hbad]
      refine ⟨⟨rfl, rfl, rfl, rfl, rfl⟩, ?_, fun m hm => ?_⟩
      · rw [route_addBoth _ rfl, hroute, if_pos rfl]
        exact if_pos rfl
      · rw [route_addBoth _ rfl, hroute, if_neg hm]
        exact if_neg hm
  · next hun =>
    cases h
    refine ⟨⟨⟨rfl, rfl⟩, ⟨rfl, rfl⟩⟩,
      .inl ⟨fun p v hp hv => hun p v hp hv, ⟨rfl, rfl, rfl, rfl, rfl⟩, ?_, ?_⟩⟩
    · simp [F5Router.route]
    · intro m hm
      simp [F5Router.route, AList.lookup_erase_ne hm]

/-- Where `assignVSPort` gets the destination from: the virtual server, its
record, a new address; or there is none to be had. -/
theorem assignVSPort_cases {r : F5Router} (h : r.assignVSPort codec vs = some (r₁, res)) :
    (∃ v, r.virtualResources.lookup vs.virtualServerName = some v ∧ r₁ = r ∧
        res = .ok { vs with destination := v.destination }) ∨
      (r.virtualResources.lookup vs.virtualServerName = none ∧
        ((∃ record, r.internalDataGroup.lookup vs.virtualServerName = some record ∧ r₁ = r ∧
            ((∃ err, codec.decode record.data = .error err ∧ res = .error err) ∨
              ∃ va, codec.decode record.data = .address va ∧
                res = (verifyDestAddress va r.c.partition).map fun dest =>
                  { vs with destination := dest })) ∨
          (r.internalDataGroup.lookup vs.virtualServerName = none ∧
            ((∃ t va, r.tier2VSInfo.getAvailableVirtualAddress = some (t, .ok (some va)) ∧
                r₁ = { r with
                  tier2VSInfo := t
                  internalDataGroup := r.internalDataGroup.insert vs.virtualServerName
                    ⟨vs.virtualServerName, codec.encode va⟩ } ∧
                res = (verifyDestAddress va r.c.partition).map fun dest =>
                  { vs with destination := dest }) ∨
              ∃ t err, r.tier2VSInfo.getAvailableVirtualAddress = some (t, .error err) ∧
                r₁ = { r with tier2VSInfo := t } ∧ res = .error err)))) := by
  simp only [F5Router.assignVSPort] at h
  split at h
  · next v hv =>
    cases h
    exact .inl ⟨v, hv, rfl, rfl⟩
  · next hv =>
    refine .inr ⟨hv, ?_⟩
    split at h
    · next hdg =>
      refine .inr ⟨hdg, ?_⟩
      split at h
      · cases h
      · next t err ht =>
        cases h
        exact .inr ⟨t, err, ht, rfl, rfl⟩
      · cases h
      · next t va ht =>
        cases h
        exact .inl ⟨t, va, ht, rfl, rfl⟩
    · next record hdg =>
      refine .inl ⟨record, hdg, ?_⟩
      simp only [InternalDataGroupRecord.tier2VirtualAddress] at h
      split at h
      · next err hdec =>
        cases h
        exact ⟨rfl, .inl ⟨err, hdec, rfl⟩⟩
      · cases h
      · next va hdec =>
        cases h
        exact ⟨rfl, .inr ⟨va, hdec, rfl⟩⟩

/-- `assignVSPort` changes only the tier-2 addresses of the router and the
destination of the virtual server. -/
theorem assignVSPort_frame {r : F5Router} (h : r.assignVSPort codec vs = some (r₁, res)) :
    (∃ t dg, r₁ = { r with tier2VSInfo := t, internalDataGroup := dg }) ∧
      ∀ vs', res = .ok vs' → ∃ dest, vs' = { vs with destination := dest } := by
  have hmap : ∀ va vs', (verifyDestAddress va r.c.partition).map
      (fun dest => { vs with destination := dest }) = .ok vs' →
        ∃ dest, vs' = { vs with destination := dest } := by
    intro va vs' hva
    cases hd : verifyDestAddress va r.c.partition with
    | error e =>
      rw [hd] at hva
      cases hva
    | ok dest =>
      rw [hd] at hva
      cases hva
      exact ⟨dest, rfl⟩
  obtain ⟨v, -, rfl, rfl⟩ |
    ⟨-, ⟨record, -, rfl, hres⟩ | ⟨-, ⟨t, va, -, rfl, rfl⟩ | ⟨t, err, -, rfl, rfl⟩⟩⟩ :=
    assignVSPort_cases h
  · refine ⟨⟨_, _, rfl⟩, ?_⟩
    rintro _ ⟨⟩
    exact ⟨_, rfl⟩
  · refine ⟨⟨_, _, rfl⟩, ?_⟩
    obtain ⟨err, -, rfl⟩ | ⟨va, -, rfl⟩ := hres
    · rintro _ ⟨⟩
    · exact hmap va
  · exact ⟨⟨_, _, rfl⟩, hmap va⟩
  · refine ⟨⟨_, _, rfl⟩, ?_⟩
    rintro _ ⟨⟩

theorem resources_fixed (x : RouteState) (rs : RouteResources) :
    (x.resources rs).pool.name = rs.pool.name ∧
      (x.resources rs).pool.members = rs.pool.members ∧
      (x.resources rs).pool.description = rs.pool.description ∧
      (x.resources rs).virtual.virtualServerName = rs.virtual.virtualServerName ∧
      (x.resources rs).virtual.poolName = rs.virtual.poolName ∧
      (x.resources rs).virtual.iRules = rs.virtual.iRules := by
  simp only [RouteState.resources]
  split <;> exact ⟨rfl, rfl, rfl, rfl, rfl, rfl⟩

theorem addedResources_eq (r : F5Router) (ru : UpdateHTTP) (rs : RouteResources) :
    r.addedResources ru rs = (r.route ru.name).resources rs := rfl

def F5Router.Accepts (codec : Codec) (r : F5Router) (ru : UpdateHTTP) : Prop :=
  verifyRouteURI ru = .ok () ∧ ∃ rs r₁ vs, ru.createResources r.c = .ok rs ∧
    r.assignVSPort codec (r.addedResources ru rs).virtual = some (r₁, .ok vs)

/-- The outcomes of an Add: refused, without an address, or carried out. -/
theorem processRouteAdd_cases {r : F5Router} (h : r.processRouteAdd codec ru = some r') :
    (r' = r ∧ (verifyRouteURI ru ≠ .ok () ∨ ∀ rs, ru.createResources r.c ≠ .ok rs)) ∨
      ∃ rs, verifyRouteURI ru = .ok () ∧ ru.createResources r.c = .ok rs ∧
        ((∃ err, r.assignVSPort codec (r.addedResources ru rs).virtual = some (r', .error err)) ∨
          ∃ r₁ vs rule, r.assignVSPort codec (r.addedResources ru rs).virtual = some (r₁, .ok vs) ∧
            makeRouteRule ru = some rule ∧
            r' = ((((r₁.addAnyMonitors ru.name (r.addedResources ru rs).monitors).addPool
                (r.addedResources ru rs).pool).addVirtual vs).changeRules ru.uri fun rules =>
                  rules.insert ru.uri rule.toOption)) := by
  simp only [F5Router.processRouteAdd] at h
  split at h
  · next hverify =>
    cases h
    exact .inl ⟨rfl, .inl (by simp [hverify])⟩
  · next hverify =>
    split at h
    · next hcreate =>
      cases h
      exact .inl ⟨rfl, .inr (by simp [hcreate])⟩
    · next rs hcreate =>
      refine .inr ⟨rs, hverify, hcreate, ?_⟩
      split at h
      · cases h
      · next hassign =>
        cases h
        exact .inl ⟨_, hassign⟩
      · next r₁ vs hassign =>
        obtain ⟨rule, hrule, rfl⟩ := Option.map_eq_some_iff.mp h
        refine .inr ⟨r₁, vs, rule, hassign, hrule, ?_⟩
        obtain ⟨ep, -, -, rfl⟩ := createResources_ok hcreate
        rw [addedResources_eq, (resources_fixed _ _).1]
        rfl

theorem added_turns {r : F5Router} (change : GoMap Uri (Option Rule) → GoMap Uri (Option Rule))
    (hcreate : ru.createResources r.c = .ok rs)
    (hassign : r.assignVSPort codec (r.addedResources ru rs).virtual = some (r₁, .ok vs)) :
    r.Turns ru.name ((r.route ru.name).add (r.addedResources ru rs) vs)
      ((((r₁.addAnyMonitors ru.name (r.addedResources ru rs).monitors).addPool
        (r.addedResources ru rs).pool).addVirtual vs).changeRules ru.uri change) := by
  obtain ⟨⟨t, dg, rfl⟩, hvs⟩ := assignVSPort_frame hassign
  obtain ⟨dest, rfl⟩ := hvs vs rfl
  obtain ⟨ep, -, -, hrs⟩ := createResources_ok hcreate
  obtain ⟨hpname, -, -, hvname, -, -⟩ := resources_fixed (r.route ru.name) rs
  have hp : (r.addedResources ru rs).pool.name = ru.name := hpname.trans (by rw [hrs]; rfl)
  have hv : (r.addedResources ru rs).virtual.virtualServerName = ru.name :=
    hvname.trans (by rw [hrs]; rfl)
  refine ⟨⟨rfl, rfl, rfl, rfl, rfl⟩, ?_, fun m hm => ?_⟩
  · refine Eq.trans (route_addBoth _ ?_ _) ?_
    · exact hv.trans hp.symm
    rw [if_pos hp.symm]
    refine RouteState.ext rfl rfl (Eq.trans (lookup_addAnyMonitors _ _ _ _) ?_) rfl
    by_cases hm : (r.addedResources ru rs).monitors = [] <;>
      simp [RouteState.add, F5Router.route, hm]
  · refine Eq.trans (route_addBoth _ ?_ _) ?_
    · exact hv.trans hp.symm
    rw [if_neg fun he => hm (he.trans hp)]
    refine RouteState.ext rfl rfl (Eq.trans (lookup_addAnyMonitors _ _ _ _) ?_) rfl
    rw [if_neg fun he => hm he.1]
    rfl

/-- The outcomes of a Remove: refused or of an unknown pool, of one member
among others, or of the last. -/
theorem processRouteRemove_cases {r : F5Router} (h : r.processRouteRemove codec ru = some r') :
    (r' = r ∧ (verifyRouteURI ru ≠ .ok () ∨ (∀ rs, ru.createResources r.c ≠ .ok rs) ∨
        r.poolResources.lookup ru.name = none)) ∨
      ∃ ep p ms, verifyRouteURI ru = .ok () ∧ ru.endpoint = some ep ∧ ep.address ≠ [] ∧
        r.poolResources.lookup ru.name = some p ∧
        removeMember (fun _ => some ⟨ep.address, ep.port, "user-enabled".toList⟩) p.members =
          some ms ∧
        ((ms ≠ [] ∧
            r' = { r with poolResources := r.poolResources.insert ru.name { p with
              members := ms } }) ∨
          (ms = [] ∧
            r' = (((({ r with poolResources := r.poolResources.erase ru.name }).removeMonitors
              ru.name).removeRule ru).removeVirtual ru.name).reap codec ru.name)) := by
  simp only [F5Router.processRouteRemove] at h
  split at h
  · next hverify =>
    cases h
    exact .inl ⟨rfl, .inl (by simp [hverify])⟩
  · next hverify =>
    split at h
    · next hcreate =>
      cases h
      exact .inl ⟨rfl, .inr (.inl (by simp [hcreate]))⟩
    · next rs hcreate =>
      obtain ⟨ep, hep, haddr, rfl⟩ := createResources_ok hcreate
      obtain ⟨⟨gone, r₁⟩, hrem, h⟩ := Option.bind_eq_some_iff.mp h
      obtain ⟨hnone, rfl, rfl⟩ | ⟨p, ms, hp, hms, hcase⟩ := removePool_cases hrem
      · cases h
        exact .inl ⟨rfl, .inr (.inr hnone)⟩
      · refine .inr ⟨ep, p, ms, hverify, hep, haddr, hp, hms, ?_⟩
        obtain ⟨hnil, rfl, rfl⟩ | ⟨hnil, rfl, rfl⟩ := hcase
        · cases h
          exact .inr ⟨hnil, rfl⟩
        · cases h
          exact .inl ⟨hnil, rfl⟩

theorem reap_frame (codec : Codec) (r : F5Router) (n : Str) :
    ∃ t dg, r.reap codec n = { r with tier2VSInfo := t, internalDataGroup := dg } := by
  simp only [F5Router.reap]
  split
  · exact ⟨_, _, rfl⟩
  · exact ⟨_, _, rfl⟩

theorem removed_turns (r : F5Router) (codec : Codec) (ru : UpdateHTTP) (p : Pool) :
    r.Turns ru.name ((r.route ru.name).shrink p [])
      ((((({ r with poolResources := r.poolResources.erase ru.name }).removeMonitors
        ru.name).removeRule ru).removeVirtual ru.name).reap codec ru.name) := by
  obtain ⟨t, dg, hreap⟩ := reap_frame codec (((({ r with
    poolResources := r.poolResources.erase ru.name }).removeMonitors
        ru.name).removeRule ru).removeVirtual ru.name) ru.name
  rw [hreap]
  refine ⟨⟨rfl, rfl, rfl, rfl, rfl⟩, ?_, fun m hm => ?_⟩
  · simp [RouteState.shrink, F5Router.route, F5Router.removeVirtual, F5Router.removeMonitors,
      F5Router.removeRule, F5Router.changeRules]
  · simp [F5Router.route, F5Router.removeVirtual, F5Router.removeMonitors,
      F5Router.removeRule, F5Router.changeRules, AList.lookup_erase_ne hm]

theorem shrunk_turns {r : F5Router} (hnil : ms ≠ []) :
    r.Turns n ((r.route n).shrink p ms)
      { r with poolResources := r.poolResources.insert n { p with members := ms } } := by
  refine ⟨⟨rfl, rfl, rfl, rfl, rfl⟩, ?_, fun m hm => ?_⟩
  · simp [RouteState.shrink, F5Router.route, hnil]
  · simp [F5Router.route, AList.lookup_insert_ne hm]

theorem processTCPRouteAdd_cases (r : F5Router) (tu : UpdateTCP) :
    (r.processTCPRouteAdd tu = r ∧ ∀ rs, tu.createResources r.c ≠ .ok rs) ∨
      ∃ rs, tu.createResources r.c = .ok rs ∧
        r.Turns tu.name ((r.route tu.name).add rs rs.virtual) (r.processTCPRouteAdd tu) ∧
        r.SameRules (r.processTCPRouteAdd tu) ∧ r.SameBooks (r.processTCPRouteAdd tu) := by
  simp only [F5Router.processTCPRouteAdd]
  split
  · next hrs => exact .inl ⟨rfl, by simp [hrs]⟩
  · next rs hrs =>
    obtain ⟨hv, hp, -, hmon, -⟩ := UpdateTCP.createResources_ok hrs
    refine .inr ⟨rs, hrs, ⟨⟨rfl, rfl, rfl, rfl, rfl⟩, ?_, fun m hm => ?_⟩, ⟨rfl, rfl⟩, ⟨rfl, rfl⟩⟩
    · rw [route_addBoth _ (hv.trans hp.symm), if_pos hp.symm]
      refine RouteState.ext rfl rfl ?_ rfl
      simp [RouteState.add, hmon]
    · rw [route_addBoth _ (hv.trans hp.symm), if_neg fun he => hm (he.trans hp)]

theorem processTCPRouteRemove_cases {r : F5Router} (h : r.processTCPRouteRemove tu = some r') :
    (r' = r ∧ ((∀ rs, tu.createResources r.c ≠ .ok rs) ∨ r.poolResources.lookup tu.name = none)) ∨
      ∃ p ms, r.poolResources.lookup tu.name = some p ∧
        removeMember (fun _ => some tu.member) p.members = some ms ∧
        r.Turns tu.name
          (if ms = [] then { r.route tu.name with pool := none, virtual := none }
          else { r.route tu.name with pool := some { p with members := ms } }) r' ∧
        r.SameRules r' ∧ r.SameBooks r' := by
  simp only [F5Router.processTCPRouteRemove] at h
  split at h
  · next hrs =>
    cases h
    exact .inl ⟨rfl, .inl (by simp [hrs])⟩
  · next rs hrs =>
    obtain ⟨hv, hp, hmem, -⟩ := UpdateTCP.createResources_ok hrs
    obtain ⟨⟨gone, r₁⟩, hrem, hres⟩ := Option.bind_eq_some_iff.mp h
    rw [hp, hmem] at hrem
    obtain ⟨hnone, rfl, rfl⟩ | ⟨p, ms, hlook, hms, hcase⟩ := removePool_cases hrem
    · cases hres
      exact .inl ⟨rfl, .inr hnone⟩
    · refine .inr ⟨p, ms, hlook, hms, ?_⟩
      obtain ⟨hnil, rfl, rfl⟩ | ⟨hnil, rfl, rfl⟩ := hcase
      · cases hres
        rw [if_pos hnil, hv]
        refine ⟨⟨⟨rfl, rfl, rfl, rfl, rfl⟩, ?_, fun m hm => ?_⟩, ⟨rfl, rfl⟩, ⟨rfl, rfl⟩⟩
        · simp [F5Router.route, F5Router.removeVirtual]
        · simp [F5Router.route, F5Router.removeVirtual, AList.lookup_erase_ne hm]
      · cases hres
        rw [if_neg hnil]
        refine ⟨⟨⟨rfl, rfl, rfl, rfl, rfl⟩, ?_, fun m hm => ?_⟩, ⟨rfl, rfl⟩, ⟨rfl, rfl⟩⟩
        · simp [F5Router.route]
        · simp [F5Router.route, AList.lookup_insert_ne hm]

end BigipCtlr
