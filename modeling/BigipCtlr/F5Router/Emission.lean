import BigipCtlr.F5Router.Mapping
import BigipCtlr.F5Router.References
import Mathlib.Data.List.Rotate

/-!
# What is written out

`createResources` walks maps, and Go leaves the order of a walk open. Virtual
servers, pools, iRules and records are written out whatever the order is. Of
the monitors of one name only the first met is, so what is written out depends
on the order unless the plans bound agree on their monitors.
-/

namespace BigipCtlr

open Go Lib

-- ---------------------------------------------------------------------------
-- The schema of plans
-- ---------------------------------------------------------------------------

/-- A `healthMonitorType`, where absent properties are zero values: the name of
a monitor that exists already, or a monitor with its type. -/
def Monitor.SchemaValid (m : Monitor) : Prop :=
  m.name ≠ [] ∧
    (m = { name := m.name } ∨
      m.type ∈ ["http".toList, "tcp".toList] ∧
        (m.interval = 0 ∨ 1 ≤ m.interval ∧ m.interval ≤ 86400) ∧
        (m.timeout = 0 ∨ 1 ≤ m.timeout ∧ m.timeout ≤ 86400))

/-- One of the `plans`. A `pool` or a `virtualServer` that is present sets
something. -/
def Plan.SchemaValid (plan : Plan) : Prop :=
  plan.name ≠ [] ∧ plan.description ≠ [] ∧ (plan.pool ≠ {} ∨ plan.virtualServer ≠ {}) ∧
    (∀ m ∈ plan.pool.healthMonitors, m.SchemaValid) ∧
    [] ∉ plan.virtualServer.policies ++ plan.virtualServer.profiles ++
      plan.virtualServer.sslProfiles

instance (m : Monitor) : Decidable m.SchemaValid := inferInstanceAs (Decidable (_ ∧ _))

instance (plan : Plan) : Decidable plan.SchemaValid := inferInstanceAs (Decidable (_ ∧ _))

-- ---------------------------------------------------------------------------
-- Emitted objects
-- ---------------------------------------------------------------------------

def F5Router.Emits (r : F5Router) (o : Order) (res : Resources) : Prop :=
  ∃ pm, r.createResources o = some pm ∧ pm.lookup r.c.partition = some res

structure Resources.Within (res res' : Resources) : Prop where
  virtuals : res.virtuals ⊆ res'.virtuals
  pools : res.pools ⊆ res'.pools
  monitors : res.monitors ⊆ res'.monitors
  iRules : res.iRules ⊆ res'.iRules
  dataGroups : ∀ g ∈ res.internalDataGroups, ∃ g' ∈ res'.internalDataGroups, g'.name = g.name ∧
    g.records ⊆ g'.records

def SameObjects (res res' : Resources) : Prop := res.Within res' ∧ res'.Within res

def F5Router.OrderFree (r : F5Router) : Prop :=
  ∀ o o' res res', r.Emits o res → r.Emits o' res' → SameObjects res res'

def F5Router.EmitsEveryPlans (r : F5Router) : Prop :=
  ∀ o res, r.Emits o res → ∀ n ms, r.monitorResources.lookup n = some ms → ∀ m ∈ ms,
    ∀ m' ∈ res.monitors, m'.name = m.name → m' = m

def firstNamed (name : Str) (ms : List Monitor) : Option Monitor := ms.find? (·.name = name)

def F5Router.FirstsAgree (r : F5Router) : Prop :=
  ∀ n n' ms ms', r.monitorResources.lookup n = some ms → r.monitorResources.lookup n' = some ms' →
    ∀ name m m', firstNamed name ms = some m → firstNamed name ms' = some m' → m = m'

def F5Router.NamesAgree (r : F5Router) : Prop :=
  ∀ n n' ms ms', r.monitorResources.lookup n = some ms → r.monitorResources.lookup n' = some ms' →
    ∀ m ∈ ms, ∀ m' ∈ ms', m.name = m'.name → m = m'

def Planned (plans : GoMap Str Plan) (m : Monitor) : Prop :=
  ∃ planID plan, plans.lookup planID = some plan ∧ m ∈ plan.pool.healthMonitors ∧ m.type ≠ []

-- ---------------------------------------------------------------------------
-- Objects that no order changes
-- ---------------------------------------------------------------------------

theorem range_values_subset [DecidableEq K] (o o' : Order) (m : GoMap K V) :
    (m.range o).map Prod.snd ⊆ (m.range o').map Prod.snd := by
  intro v hv
  exact GoMap.mem_range_values.mpr (GoMap.mem_range_values.mp hv)

theorem mem_createInternalDataGroups :
    g ∈ createInternalDataGroups o dataGroups ↔
      ∃ records, dataGroups.lookup g.name = some records ∧
        g.records = (records.range o).map Prod.snd := by
  simp only [createInternalDataGroups, newInternalDataGroup, List.mem_map, Prod.exists]
  constructor
  · rintro ⟨name, records, hin, rfl⟩
    exact ⟨records, GoMap.mem_range.mp hin, rfl⟩
  · rintro ⟨records, hlook, hrecords⟩
    exact ⟨g.name, records, GoMap.mem_range.mpr hlook, by rw [← hrecords]⟩

theorem createInternalDataGroups_within {o o' : Order}
    {groups groups' : GoMap Str (GoMap Str InternalDataGroupRecord)}
    (h : ∀ name records, groups.lookup name = some records →
      ∃ records', groups'.lookup name = some records' ∧
      ∀ k, records.lookup k = records'.lookup k) :
    ∀ g ∈ createInternalDataGroups o groups, ∃ g' ∈ createInternalDataGroups o' groups',
      g'.name = g.name ∧ g.records ⊆ g'.records := by
  intro g hg
  obtain ⟨records, hlook, hrecords⟩ := mem_createInternalDataGroups.mp hg
  obtain ⟨records', hlook', hsame⟩ := h _ _ hlook
  refine ⟨⟨g.name, (records'.range o').map Prod.snd⟩,
    mem_createInternalDataGroups.mpr ⟨records', hlook', rfl⟩, rfl, ?_⟩
  intro record hrecord
  rw [hrecords] at hrecord
  obtain ⟨k, hk⟩ := GoMap.mem_range_values.mp hrecord
  exact GoMap.mem_range_values.mpr ⟨k, (hsame k).symm.trans hk⟩

/-- A nil rule is met in every order. -/
theorem sortRules_isSome_iff : (sortRules o rules k).isSome = true ↔
    ∀ u x, rules.lookup u = some x → x ≠ none := by
  refine ⟨fun h u x hx => ?_, fun h => sortRules_isSome o h k⟩
  rw [sortRules, Option.isSome_map] at h
  exact Option.isSome_iff_ne_none.mp (mapM_isSome_iff.mp h (u, x) (GoMap.mem_range.mpr hx))

theorem makeRoutePolicy_isSome_iff : (makeRoutePolicy o rules wildcards name).isSome = true ↔
    (∀ u x, rules.lookup u = some x → x ≠ none) ∧ ∀ u x, wildcards.lookup u = some x →
      x ≠ none := by
  rw [← sortRules_isSome_iff (o := o) (k := 0), ← sortRules_isSome_iff (o := o) (k := rules.size),
    makeRoutePolicy]
  cases sortRules o rules 0 <;> cases sortRules o wildcards rules.size <;> simp

theorem createPolicies_isSome {r : F5Router} (h : (r.createPolicies o).isSome = true) (o' : Order) :
    (r.createPolicies o').isSome = true := by
  simp only [F5Router.createPolicies] at h ⊢
  split
  · next hne =>
    rw [if_pos hne, Option.isSome_map, makeRoutePolicy_isSome_iff] at h
    rw [Option.isSome_map, makeRoutePolicy_isSome_iff]
    exact h
  · rfl

theorem createResources_isSome {r : F5Router}
    (h : (r.createResources o).isSome = true) (o' : Order) :
    (r.createResources o').isSome = true := by
  have hpolicies (o : Order) : (r.createResources o).isSome = (r.createPolicies o).isSome := by
    rw [F5Router.createResources]
    cases r.createPolicies o <;> rfl
  rw [hpolicies] at h ⊢
  exact createPolicies_isSome h o'

section
variable {r : F5Router} {o o' : Order} {res res' : Resources}

theorem F5Router.Emits.of_isSome (h : (r.createResources o).isSome = true) (o' : Order) :
    ∃ res, r.Emits o' res := by
  obtain ⟨pm, hpm⟩ := Option.isSome_iff_exists.mp (createResources_isSome h o')
  obtain ⟨policies, -, hres⟩ := Option.bind_eq_some_iff.mp hpm
  cases hres
  exact ⟨_, _, hpm, AList.lookup_insert _⟩

theorem F5Router.Emits.monitors_eq (h : r.Emits o res) : res.monitors = r.createMonitors o := by
  obtain ⟨pm, hpm, hres⟩ := h
  obtain ⟨policies, -, hpm⟩ := Option.bind_eq_some_iff.mp hpm
  cases hpm
  rw [AList.lookup_insert] at hres
  cases hres
  rfl

theorem F5Router.Emits.within (h : r.Emits o res) (h' : r.Emits o' res')
    (hmonitors : r.createMonitors o ⊆ r.createMonitors o') : res.Within res' := by
  obtain ⟨pm, hpm, hres⟩ := h
  obtain ⟨policies, -, hpm⟩ := Option.bind_eq_some_iff.mp hpm
  obtain ⟨pm', hpm', hres'⟩ := h'
  obtain ⟨policies', -, hpm'⟩ := Option.bind_eq_some_iff.mp hpm'
  cases hpm
  cases hpm'
  rw [AList.lookup_insert] at hres hres'
  cases hres
  cases hres'
  refine ⟨range_values_subset o o' _, range_values_subset o o' _, hmonitors,
    range_values_subset o o' _, createInternalDataGroups_within fun name records hlook => ?_⟩
  simp only [GoMap.lookup_insert_ite] at hlook ⊢
  split at hlook
  · next hname => exact ⟨records, (if_pos hname).trans hlook, fun _ => rfl⟩
  · next hname =>
    -- Any other group is the broker's, made in an order of its own.
    simp only [if_neg hname]
    split at hlook
    · next hmode =>
      simp only [if_pos hmode, GoMap.lookup_insert_ite] at hlook ⊢
      split at hlook
      · next hbroker =>
        cases hlook
        refine ⟨_, if_pos hbroker, fun k => ?_⟩
        rw [populateBrokerDataGroup_lookup, populateBrokerDataGroup_lookup]
      · cases hlook
    · cases hlook

end

-- ---------------------------------------------------------------------------
-- Monitors
-- ---------------------------------------------------------------------------

theorem mem_foldl_emitMonitor_iff {all added : List Monitor} : m ∈ all.foldl emitMonitor added ↔
    m ∈ added ∨ m.name ∉ added.map Monitor.name ∧ firstNamed m.name all = some m := by
  induction all generalizing added with
  | nil => simp [firstNamed]
  | cons a all ih =>
    rw [List.foldl_cons, ih, emitMonitor, firstNamed, firstNamed, List.find?_cons]
    by_cases hname : a.name = m.name
    · simp only [hname, decide_true, Option.some.injEq]
      split
      · next hin => simp [hin]
      · next hin =>
        simp only [List.mem_append, List.mem_singleton, List.map_append, List.map_cons,
          List.map_nil, hname]
        constructor
        · rintro ((h | rfl) | ⟨h, -⟩)
          · exact .inl h
          · exact .inr ⟨hin, rfl⟩
          · exact absurd (.inr trivial) h
        · rintro (h | ⟨-, rfl⟩)
          · exact .inl (.inl h)
          · exact .inl (.inr rfl)
    · have hne : m ≠ a := fun h => hname (h ▸ rfl)
      simp only [hname, decide_false]
      split
      · rfl
      · simp [hne, Ne.symm hname]

theorem mem_createMonitors_iff {r : F5Router} {o : Order} : m ∈ r.createMonitors o ↔
    ((r.monitorResources.range o).map Prod.snd).findSome? (firstNamed m.name) = some m := by
  rw [F5Router.createMonitors, mem_foldl_emitMonitor_iff, firstNamed, List.find?_flatten]
  simp only [List.not_mem_nil, List.map_nil, not_false_eq_true, true_and, false_or]
  rfl

theorem firstNamed_of_mem_createMonitors {r : F5Router} (h : m ∈ r.createMonitors o) :
    ∃ n ms, r.monitorResources.lookup n = some ms ∧ firstNamed m.name ms = some m := by
  obtain ⟨ms, hms, hfirst⟩ := List.exists_of_findSome?_eq_some (mem_createMonitors_iff.mp h)
  obtain ⟨n, hn⟩ := GoMap.mem_range_values.mp hms
  exact ⟨n, ms, hn, hfirst⟩

theorem firstNamed_spec (h : firstNamed name ms = some m) : m ∈ ms ∧ m.name = name :=
  ⟨List.mem_of_find?_eq_some h, by simpa using List.find?_some h⟩

theorem createMonitors_unique {r : F5Router} (hm : m ∈ r.createMonitors o)
    (hm' : m' ∈ r.createMonitors o) (hname : m.name = m'.name) : m = m' := by
  have h := mem_createMonitors_iff.mp hm
  rw [hname, mem_createMonitors_iff.mp hm'] at h
  exact (Option.some.inj h).symm

def startingAt (i : Nat) : Order := ⟨fun l => l.rotate i, fun l => l.rotate_perm i⟩

/-- A loop over a map can start at any of its entries. -/
theorem exists_range_head [DecidableEq K] {m : GoMap K V} (h : m.lookup k = some v) :
    ∃ o rest, m.range o = (k, v) :: rest := by
  obtain ⟨before, after, hsplit⟩ := List.append_of_mem (GoMap.mem_pairs.mpr h)
  refine ⟨startingAt before.length, after ++ before, ?_⟩
  change m.pairs.rotate before.length = _
  rw [hsplit, List.rotate_append_length_eq]
  rfl

theorem exists_emitted {r : F5Router} (h : r.monitorResources.lookup n = some ms)
    (hfirst : firstNamed name ms = some m) :
    ∃ o, m ∈ r.createMonitors o := by
  obtain ⟨o, rest, hrange⟩ := exists_range_head h
  refine ⟨o, mem_createMonitors_iff.mpr ?_⟩
  rw [hrange, List.map_cons, List.findSome?_cons, (firstNamed_spec hfirst).2, hfirst]

theorem F5Router.FirstsAgree.subset {r : F5Router} (h : r.FirstsAgree) (o o' : Order) :
    r.createMonitors o ⊆ r.createMonitors o' := by
  intro m hm
  obtain ⟨n, ms, hn, hfirst⟩ := firstNamed_of_mem_createMonitors hm
  obtain ⟨m', hm', hname⟩ := mem_createMonitors hn (firstNamed_spec hfirst).1 o'
  obtain ⟨n', ms', hn', hfirst'⟩ := firstNamed_of_mem_createMonitors hm'
  rw [hname] at hfirst'
  rw [h n n' ms ms' hn hn' m.name m m' hfirst hfirst']
  exact hm'

theorem F5Router.NamesAgree.firstsAgree {r : F5Router} (h : r.NamesAgree) : r.FirstsAgree := by
  intro n n' ms ms' hn hn' name m m' hm hm'
  obtain ⟨hmem, hname⟩ := firstNamed_spec hm
  obtain ⟨hmem', hname'⟩ := firstNamed_spec hm'
  exact h n n' ms ms' hn hn' m hmem m' hmem' (hname.trans hname'.symm)

section
variable {r : F5Router} {o : Order} (hsome : (r.createResources o).isSome = true)
include hsome

theorem orderFree_iff_firstsAgree : r.OrderFree ↔ r.FirstsAgree := by
  constructor
  · intro h n n' ms ms' hn hn' name m m' hm hm'
    -- Each of the two is emitted in the order that starts at its route.
    obtain ⟨o₁, ho₁⟩ := exists_emitted hn hm
    obtain ⟨o₂, ho₂⟩ := exists_emitted hn' hm'
    obtain ⟨res₁, h₁⟩ := F5Router.Emits.of_isSome hsome o₁
    obtain ⟨res₂, h₂⟩ := F5Router.Emits.of_isSome hsome o₂
    have hsub := (h o₁ o₂ res₁ res₂ h₁ h₂).1.monitors
    rw [h₁.monitors_eq, h₂.monitors_eq] at hsub
    exact createMonitors_unique (hsub ho₁) ho₂
      ((firstNamed_spec hm).2.trans (firstNamed_spec hm').2.symm)
  · intro h o o' res res' he he'
    exact ⟨he.within he' (h.subset o o'), he'.within he (h.subset o' o)⟩

theorem orderFree_and_emitsEveryPlans_iff : r.OrderFree ∧ r.EmitsEveryPlans ↔ r.NamesAgree := by
  constructor
  · rintro ⟨-, h⟩ n n' ms ms' hn hn' m hm m' hm' hname
    obtain ⟨res, he⟩ := F5Router.Emits.of_isSome hsome o
    obtain ⟨e, hemit, hename⟩ := mem_createMonitors hn hm o
    rw [← he.monitors_eq] at hemit
    rw [← h o res he n ms hn m hm e hemit hename,
      ← h o res he n' ms' hn' m' hm' e hemit (hename.trans hname)]
  · intro h
    refine ⟨(orderFree_iff_firstsAgree hsome).mpr h.firstsAgree,
      fun o res he n ms hn m hm m' hm' hname => ?_⟩
    rw [he.monitors_eq] at hm'
    obtain ⟨n', ms', hn', hfirst⟩ := firstNamed_of_mem_createMonitors hm'
    exact h n' n ms' ms hn' hn m' (firstNamed_spec hfirst).1 m hm hname

end

-- ---------------------------------------------------------------------------
-- Where monitors come from
-- ---------------------------------------------------------------------------

structure RouteState.Planned (plans : GoMap Str Plan) (x : RouteState) : Prop where
  monitors : ∀ ms ∈ x.monitors, ∀ m ∈ ms, BigipCtlr.Planned plans m
  unmapped : ∀ rs ∈ x.unmapped, ∀ m ∈ rs.monitors, BigipCtlr.Planned plans m

theorem mem_planMonitors (h : m ∈ (planMonitors c hms).2) : m ∈ hms ∧ m.type ≠ [] := by
  revert h
  simp only [planMonitors]
  refine List.foldlRecOn (motive := fun acc : List MonitorName × List Monitor =>
    m ∈ acc.2 → m ∈ hms ∧ m.type ≠ []) hms _ (fun h => absurd h List.not_mem_nil) ?_
  rintro ⟨names, monitors⟩ ih a ha
  simp only
  split
  · next htype =>
    split
    · exact ih
    · intro hm
      rcases List.mem_append.mp hm with hm | hm
      · exact ih hm
      · rw [List.mem_singleton.mp hm]
        exact ⟨ha, htype⟩
  · exact ih

theorem planned_of_plan (hplan : plans.lookup planID = some plan)
    (hm : m ∈ (createPlanResources c plan).monitors) :
    Planned plans m :=
  ⟨planID, plan, hplan, mem_planMonitors hm⟩

theorem RouteState.Planned.bind {x : RouteState} (h : x.Planned plans) :
    (x.bind c (plans.lookup planID)).Planned plans := by
  simp only [RouteState.bind]
  split
  · exact h
  · next hplan _ _ =>
    refine ⟨fun ms hms m hm => ?_, h.unmapped⟩
    simp only [RouteState.bindMapped] at hms
    split at hms
    · cases hms
      exact planned_of_plan hplan hm
    · split at hms
      · cases hms
      · exact h.monitors ms hms m hm
  · next hplan _ =>
    refine ⟨h.monitors, ?_⟩
    rintro _ ⟨⟩ m hm
    exact planned_of_plan hplan hm

theorem RouteState.Planned.add {x : RouteState} (h : x.Planned plans)
    (hrs : ∀ m ∈ rs.monitors, BigipCtlr.Planned plans m) :
    (x.add rs vs).Planned plans := by
  refine ⟨fun ms hms m hm => ?_, h.unmapped⟩
  simp only [RouteState.add] at hms
  split at hms
  · exact h.monitors ms hms m hm
  · cases hms
    exact hrs m hm

theorem RouteState.Planned.resources {x : RouteState} (h : x.Planned plans)
    (hrs : rs.monitors = []) :
    ∀ m ∈ (x.resources rs).monitors, BigipCtlr.Planned plans m := by
  intro m hm
  cases hu : x.unmapped with
  | none => simp [RouteState.resources, hu, hrs] at hm
  | some res =>
    simp only [RouteState.resources, hu, updateResources] at hm
    split at hm
    · exact h.unmapped res hu m hm
    · simp [hrs] at hm

theorem RouteStep.planned (hx : x.Planned plans) (h : RouteStep c plans item x x') :
    x'.Planned plans := by
  cases h with
  | idle => exact hx
  | add dest hop hep haddr hrs =>
    subst hrs
    exact hx.add (hx.resources rfl)
  | remove hop hpool hsub =>
    simp only [RouteState.shrink]
    split
    · exact ⟨by simp, hx.unmapped⟩
    · exact ⟨hx.monitors, hx.unmapped⟩
  | bind hop => exact hx.bind
  | unbindUnmapped hop hun => exact ⟨hx.monitors, by simp⟩
  | unbindFailed hop hpool hsub hfirst hbad => exact ⟨by simp, hx.unmapped⟩
  | unbind hop hpool hvirtual hms hfirst => exact ⟨by simp [RouteState.unbindMapped], hx.unmapped⟩
  | tcpAdd hrs =>
    obtain ⟨-, -, -, hm, -⟩ := UpdateTCP.createResources_ok hrs
    exact hx.add (by simp [hm])
  | tcpRemove hpool hsub => split <;> exact ⟨hx.monitors, hx.unmapped⟩

theorem run_planned (hboot : boot codec c plans dg = some r₀)
    (hrun : run (F5Router.step codec) r₀ es = some r) (n : Str) :
    (r.route n).Planned plans := by
  have h : r.Named ∧ r.plansMap = plans ∧ ∀ n, (r.route n).Planned plans := by
    refine run_invariant_mem (I := fun r => r.Named ∧ r.plansMap = plans ∧
      ∀ n, (r.route n).Planned plans)
      ?_ ⟨boot_named hboot, ?_⟩ hrun
    · rintro s t e - ⟨hn, hplans, hs⟩ hstep
      obtain ⟨s₁, dg', t₂, done, hs₁, rfl⟩ := step_spec hstep
      obtain ⟨x, ht, hroute⟩ := handle_step hn hs₁
      have hn₁ := handle_named hn hs₁
      rw [hplans] at hroute
      exact ⟨⟨hn₁.pool, hn₁.virtual⟩, ht.plansMap.trans hplans,
        ht.forall_route (Q := fun _ x => x.Planned plans) hs (hroute.planned (hs _))⟩
    · obtain ⟨r', used, records, hf, hplans, -, rfl⟩ := boot_state hboot
      exact ⟨hplans, fun n =>
        ⟨by simp [F5Router.route, hf.monitors], by simp [F5Router.route, hf.unmapped]⟩⟩
  exact h.2.2 n

namespace Sample

def bindB (planID : Str) : Item := update .bind "b".toList none planID brokered_none named_b

def checkMonitor (interval : Int) : Monitor :=
  { name := "check".toList, type := "http".toList, interval := interval }

def checkPlan (name : Str) (interval : Int) : Plan :=
  { name := name, description := name, pool := { healthMonitors := [checkMonitor interval] } }

def checkPlans : GoMap Str Plan :=
  ((∅ : GoMap Str Plan).insert "slow".toList (checkPlan "slow".toList 60)).insert "fast".toList
    (checkPlan "fast".toList 5)

def checkRun (planA planB : Str) : List Event :=
  [event addA 3, event addB 2, event (bindA planA) 1, event (bindB planB) 0]

end Sample

end BigipCtlr
