import BigipCtlr.F5Router.Binding
import BigipCtlr.F5Router.Members
import BigipCtlr.Lib.List

/-!
# References

A configuration names its objects: virtual servers name pools and iRules, the
rules of the policy name virtual servers, pools name monitors. What a
configuration names it is to contain. Only monitors can go missing, in updates
that replace them without the names, and `KeepsMonitors` tells which do not.
-/

namespace BigipCtlr

open Go Lib

-- ---------------------------------------------------------------------------
-- Closed configurations
-- ---------------------------------------------------------------------------

def Listed (c : Config) (names : List MonitorName) (monitors : List Monitor) : Prop :=
  ∀ mn ∈ names, mn.custom = true → ∃ m ∈ monitors, joinBigipPath c.partition m.name = .ok mn.path

instance (c : Config) (names : List MonitorName) (monitors : List Monitor) :
    Decidable (Listed c names monitors) :=
  inferInstanceAs (Decidable (∀ mn ∈ names, _))

/-- What the objects of a configuration name is part of it. -/
structure Closed (c : Config) (res : Resources) : Prop where
  pool : ∀ v ∈ res.virtuals, ¬ tier1 v.virtualServerName →
    ∃ p ∈ res.pools, joinBigipPath c.partition p.name = .ok v.poolName
  rule : ∀ policy ∈ res.policies, ∀ rule ∈ policy.rules, ∀ a ∈ rule.actions, a.tmName =
    "target_vip".toList →
    ∃ v ∈ res.virtuals, v.virtualServerName = a.expression
  iRule : ∀ v ∈ res.virtuals, ∀ path ∈ v.iRules, ∃ i ∈ res.iRules,
    joinBigipPath c.partition i.name = .ok path
  monitor : ∀ p ∈ res.pools, Listed c p.monitorNames res.monitors

instance (c : Config) (res : Resources) : Decidable (Closed c res) :=
  decidable_of_iff (_ ∧ _ ∧ _ ∧ _)
    ⟨fun ⟨hp, hr, hi, hm⟩ => ⟨hp, hr, hi, hm⟩, fun h => ⟨h.pool, h.rule, h.iRule, h.monitor⟩⟩

structure RouteState.Monitored (c : Config) (x : RouteState) : Prop where
  pool : ∀ p ∈ x.pool, Listed c p.monitorNames (x.monitors.getD [])
  unmapped : ∀ rs ∈ x.unmapped, Listed c rs.pool.monitorNames rs.monitors

-- ---------------------------------------------------------------------------
-- The updates that keep the monitors of a pool
-- ---------------------------------------------------------------------------

def Pool.NamesCustom (p : Pool) : Prop := ∃ mn ∈ p.monitorNames, mn.custom = true

/-- What waits for a route that has endpoints replaces its monitors only by
others that its pool names. -/
def RouteState.KeepsMonitorsAdd (x : RouteState) (c : Config) : Prop :=
  ∀ p ∈ x.pool, (x.pending c).monitors = [] ∨ Listed c p.monitorNames (x.pending c).monitors

/-- A plan drops the monitors of a pool only with their names. -/
def RouteState.KeepsMonitorsBind (x : RouteState) (c : Config) (plan : Plan) : Prop :=
  ∀ p ∈ x.pool, plan.pool.healthMonitors = [] ∨ (planMonitors c plan.pool.healthMonitors).1 ≠ [] ∨
    ¬ p.NamesCustom

/-- A pool with several members, which keeps its names, has none to keep. -/
def RouteState.KeepsMonitorsUnbind (x : RouteState) : Prop :=
  ∀ p ∈ x.pool, p.members.length = 1 ∨ ¬ p.NamesCustom

def KeepsMonitors (codec : Codec) (r : F5Router) (e : Event) : Prop :=
  match e.item with
  | .http ru =>
    match ru.op with
    | .add => r.Accepts codec ru → (r.route ru.name).KeepsMonitorsAdd r.c
    | .remove => True
    | .bind => ∀ plan ∈ r.plansMap.lookup ru.planID, (r.route ru.name).KeepsMonitorsBind r.c plan
    | .unbind => (r.route ru.name).KeepsMonitorsUnbind
  | .tcp _ => True

instance (p : Pool) : Decidable p.NamesCustom :=
  inferInstanceAs (Decidable (∃ mn ∈ p.monitorNames, _))

instance (x : RouteState) (c : Config) : Decidable (x.KeepsMonitorsAdd c) :=
  inferInstanceAs (Decidable (∀ p ∈ x.pool, _))

instance (x : RouteState) (c : Config) (plan : Plan) : Decidable (x.KeepsMonitorsBind c plan) :=
  inferInstanceAs (Decidable (∀ p ∈ x.pool, _))

instance (x : RouteState) : Decidable x.KeepsMonitorsUnbind :=
  inferInstanceAs (Decidable (∀ p ∈ x.pool, _))

theorem listed_of_not_custom {p : Pool} (h : ¬ p.NamesCustom) : Listed c p.monitorNames monitors :=
  fun mn hmn hc => absurd ⟨mn, hmn, hc⟩ h

theorem listed_default : Listed c (defaultMonitorNames c') monitors := by
  intro mn hmn hc
  obtain ⟨path, -, rfl⟩ := List.mem_map.mp hmn
  cases hc

theorem Listed.mono (h : Listed c names monitors) (hsub : monitors ⊆ monitors') :
    Listed c names monitors' :=
  fun mn hmn hc => (h mn hmn hc).imp fun _ hm => ⟨hsub hm.1, hm.2⟩

theorem planMonitors_listed (c : Config) (hms : List Monitor) :
    Listed c (planMonitors c hms).1 (planMonitors c hms).2 := by
  simp only [planMonitors]
  refine List.foldlRecOn (motive := fun acc : List MonitorName × List Monitor =>
    Listed c acc.1 acc.2) hms _ nofun ?_
  intro ⟨names, monitors⟩ h m _
  simp only
  split
  · split
    · exact h
    · next path hpath =>
      intro mn hmn hc
      rcases List.mem_append.mp hmn with hmn | hmn
      · exact h.mono (List.subset_append_left _ _) mn hmn hc
      · rw [List.mem_singleton.mp hmn]
        exact ⟨m, by simp, hpath⟩
  · intro mn hmn hc
    rcases List.mem_append.mp hmn with hmn | hmn
    · exact h mn hmn hc
    · rw [List.mem_singleton.mp hmn] at hc
      cases hc

theorem planMonitors_eq_nil (h : (planMonitors c hms).1 = []) : (planMonitors c hms).2 = [] := by
  revert h
  simp only [planMonitors]
  refine List.foldlRecOn (motive := fun acc : List MonitorName × List Monitor => acc.1 = [] →
    acc.2 = []) hms _
    (fun _ => rfl) ?_
  intro ⟨names, monitors⟩ h m _
  simp only
  split
  · split
    · exact h
    · simp
  · simp

theorem RouteState.Monitored.pending {x : RouteState} (h : x.Monitored c) :
    Listed c (x.pending c).monitorNames (x.pending c).monitors := by
  cases hu : x.unmapped with
  | none =>
    simp only [RouteState.pending, RouteState.resources, hu]
    exact listed_default
  | some res =>
    simp only [RouteState.pending, RouteState.resources, hu, RouteResources.settings,
      updateResources]
    split
    · refine (h.unmapped res hu).mono ?_
      split
      · exact fun _ => id
      · next hnil => simp [not_not.mp hnil]
    · exact listed_default

-- ---------------------------------------------------------------------------
-- Monitors of a route
-- ---------------------------------------------------------------------------

theorem RouteState.Monitored.add {x : RouteState} (h : x.Monitored c) (hw : x.Whole)
    (hrs : rs.settings = x.pending c) (hkeep : x.KeepsMonitorsAdd c) :
    (x.add rs vs).Monitored c := by
  refine ⟨?_, h.unmapped⟩
  have hnames : rs.pool.monitorNames = (x.pending c).monitorNames :=
    congrArg Settings.monitorNames hrs
  have hmon : rs.monitors = (x.pending c).monitors := congrArg Settings.monitors hrs
  rintro _ ⟨⟩
  cases hp : x.pool with
  | none =>
    simp only [RouteState.add, joinPool, hnames, hmon, hw.monitors hp]
    refine h.pending.mono ?_
    split
    · next hnil => simp [hnil]
    · exact fun _ => id
  | some p =>
    rw [(joinPool_some_settings p rs.pool).2]
    simp only [RouteState.add, hmon]
    split
    · exact h.pool p hp
    · next hne => exact (hkeep p hp).resolve_left hne

theorem RouteState.Monitored.shrink {x : RouteState} (h : x.Monitored c) (hp : x.pool = some p) :
    (x.shrink p ms).Monitored c := by
  simp only [RouteState.shrink]
  split
  · exact ⟨by simp, h.unmapped⟩
  · refine ⟨?_, h.unmapped⟩
    rintro _ ⟨⟩
    exact h.pool p hp

theorem RouteState.Monitored.bind {x : RouteState} (h : x.Monitored c) (hw : x.Whole)
    (hkeep : ∀ plan ∈ plan?, x.KeepsMonitorsBind c plan) : (x.bind c plan?).Monitored c := by
  cases plan? with
  | none => exact h
  | some plan =>
    cases hp : x.pool with
    | none =>
      simp only [RouteState.bind, hp]
      refine ⟨fun p hp' => h.pool p (hp.trans hp'), ?_⟩
      rintro _ ⟨⟩
      exact planMonitors_listed c plan.pool.healthMonitors
    | some p =>
      obtain ⟨v, hv⟩ := hw.virtual_eq_some hp
      rw [bind_of_mapped hp hv]
      refine ⟨?_, h.unmapped⟩
      rintro _ ⟨⟩
      have hplan : Listed c (createPlanResources c plan).pool.monitorNames
          (createPlanResources c plan).monitors :=
        planMonitors_listed c plan.pool.healthMonitors
      simp only [RouteState.bindMapped, updateResources]
      by_cases hnil : (createPlanResources c plan).pool.monitorNames = []
      · have hnone : (createPlanResources c plan).monitors = [] := planMonitors_eq_nil hnil
        rw [if_neg (not_not.mpr hnil), if_neg (not_not.mpr hnone)]
        by_cases hhm : plan.pool.healthMonitors = []
        · rw [if_neg (not_not.mpr hhm)]
          exact h.pool p hp
        · obtain hhm' | hne | hnot := hkeep plan rfl p hp
          · exact absurd hhm' hhm
          · exact absurd hnil hne
          · exact listed_of_not_custom hnot
      · rw [if_pos hnil]
        refine hplan.mono ?_
        by_cases hmon : (createPlanResources c plan).monitors = []
        · simp [hmon]
        · rw [if_pos hmon]
          exact fun _ => id

theorem RouteState.Monitored.unbindMapped {x : RouteState} (h : x.Monitored c)
    (hp : x.pool = some p) (hne : p.members ≠ [])
    (hms : removeMember List.head? p.members = some ms) (hkeep : x.KeepsMonitorsUnbind) :
    (x.unbindMapped p ms (defaultResources c n d dest a port)).Monitored c := by
  refine ⟨?_, h.unmapped⟩
  rintro _ ⟨⟩
  split
  · exact listed_default
  · next hnil =>
    rw [(joinPool_some_settings _ _).2]
    have hone := mt (removeMember_head_eq_nil hne hms).mpr hnil
    exact listed_of_not_custom ((hkeep p hp).resolve_left hone)

theorem handle_monitored {r : F5Router} (hs : r.Shaped (¬ tier1 ·))
    (h : ∀ n, (r.route n).Monitored r.c) (hi : e.item = .http ru) (hkeep : KeepsMonitors codec r e)
    (hstep : r.handle codec (.http ru) = some r') (n : Str) :
    (r'.route n).Monitored r'.c := by
  have hw := hs.whole _ (not_tier1 ru.name_starts)
  obtain ⟨x, ht, -⟩ := handle_step hs.named hstep
  rw [ht.c]
  refine ht.forall_route (Q := fun _ x => x.Monitored r.c) h ?_ n
  rw [← ht.own]
  simp only [Item.name, KeepsMonitors, hi, F5Router.handle] at hstep hkeep ⊢
  split at hstep
  · next hop =>
    simp only [hop] at hkeep
    obtain ⟨-, hroute⟩ | ⟨hacc, rs, dest, hrs, hroute⟩ := processRouteAdd_route hstep
    · rw [hroute]
      exact h _
    · rw [hroute]
      exact (h _).add hw hrs (hkeep hacc)
  · obtain ⟨rfl, -⟩ | ⟨ep, p, ms, -, -, -, hp, -, ⟨hnil, rfl⟩ | ⟨-, rfl⟩⟩ :=
      processRouteRemove_cases hstep
    · exact h _
    · rw [(shrunk_turns hnil).own]
      exact (h _).shrink hp
    · rw [(removed_turns r codec ru p).own]
      exact (h _).shrink hp
  · next hop =>
    simp only [hop] at hkeep
    rw [(processRouteBind_spec hs.named hstep).1.own]
    exact (h _).bind hw hkeep
  · next hop =>
    simp only [hop] at hkeep
    obtain ⟨hp, ht'⟩ | ⟨p, v, ms, first, hp, hv, hms, ht'⟩ :=
      hs.processRouteUnbind_cases (not_tier1 ru.name_starts) hop hstep
    · rw [ht'.own]
      exact ⟨(h _).pool, by simp⟩
    · rw [ht'.own]
      exact (h _).unbindMapped hp (hs.named.pool _ p hp).2 hms hkeep

-- ---------------------------------------------------------------------------
-- Virtual servers and rules
-- ---------------------------------------------------------------------------

structure Tier2Virtual (c : Config) (n : Str) (v : Virtual) : Prop where
  poolName : joinBigipPath c.partition n = .ok v.poolName
  iRules : v.iRules = if c.sessionPersistence then
    [bigipPath c.partition jsessionidIRuleName] else []

theorem tier2Virtual_default (ru : UpdateHTTP) :
    Tier2Virtual c ru.name (defaultResources c ru.name d dest a port).virtual :=
  ⟨joinBigipPath_ok ru.name_ne_nil, rfl⟩

theorem RouteStep.tier2Virtual (hx : ∀ v ∈ x.virtual, Tier2Virtual c ru.name v)
    (h : RouteStep c plans (.http ru) x x') : ∀ v ∈ x'.virtual, Tier2Virtual c ru.name v := by
  cases h with
  | idle => exact hx
  | add dest hop hep haddr hrs =>
    subst hrs
    obtain ⟨-, -, -, -, hpool, hrules⟩ := resources_fixed x (defaultResources c _ _ [] _ _)
    rintro _ ⟨⟩
    cases hv : x.virtual with
    | none =>
      have hdef : Tier2Virtual c ru.name (defaultResources c ru.name [] [] [] 0).virtual :=
        tier2Virtual_default ru
      exact ⟨hdef.poolName.trans (congrArg _ hpool.symm), hrules.trans hdef.iRules⟩
    | some v => exact hx v hv
  | remove hop hpool hsub =>
    simp only [RouteState.shrink]
    split
    · rintro _ ⟨⟩
    · exact hx
  | bind hop =>
    simp only [RouteState.bind]
    split
    · exact hx
    · next p v _ hp hv =>
      rintro _ ⟨⟩
      exact ⟨(hx v hv).poolName, (hx v hv).iRules⟩
    · exact hx
  | unbindUnmapped hop hun => exact hx
  | unbindFailed hop hpool hsub hfirst hbad => rintro _ ⟨⟩
  | unbind hop hpool hvirtual hms hfirst =>
    rintro _ ⟨⟩
    exact tier2Virtual_default ru

def Aimed (es : List Event) (r : F5Router) (u : Uri) (x : Option Rule) : Prop :=
  ∀ rule ∈ x, ∃ e ∈ es, ∃ ru, e.item = .http ru ∧ ru.uri = u ∧
    rule.actions = [routeAction ru.name] ∧
    (r.virtualResources.lookup ru.name).isSome = true

theorem Aimed.keep {r r' : F5Router} (h : Aimed es r u x)
    (hkeep : ∀ e ∈ es, ∀ ru, e.item = .http ru → ru.uri = u →
      (r.virtualResources.lookup ru.name).isSome = true →
      (r'.virtualResources.lookup ru.name).isSome = true) : Aimed es r' u x := by
  intro rule hrule
  obtain ⟨e, he, ru, hi, hu, ha, hv⟩ := h rule hrule
  exact ⟨e, he, ru, hi, hu, ha, hkeep e he ru hi hu hv⟩

theorem F5Router.Turns.virtual_isSome {r r' : F5Router} (h : r.Turns n x r')
    (hx : (r.virtualResources.lookup n).isSome = true → x.virtual.isSome = true) (m : Str)
    (hm : (r.virtualResources.lookup m).isSome = true) :
    (r'.virtualResources.lookup m).isSome = true :=
  h.forall_route (Q := fun m x => (r.virtualResources.lookup m).isSome = true →
    x.virtual.isSome = true)
    (fun _ => id) hx m hm

theorem handle_aimed {r : F5Router} (hs : r.Shaped (¬ tier1 ·)) (h : r.Rules (Aimed es r))
    (hnames : DistinctNames es)
    (he : e ∈ es) (hi : e.item = .http ru) (hstep : r.handle codec (.http ru) = some r') :
    r'.Rules (Aimed es r') := by
  have hw := hs.whole _ (not_tier1 ru.name_starts)
  simp only [F5Router.handle] at hstep
  split at hstep
  · obtain ⟨rfl, -⟩ | ⟨rs, -, hcreate, ⟨err, hassign⟩ | ⟨r₁, vs, rule, hassign, hrule, rfl⟩⟩ :=
      processRouteAdd_cases hstep
    · exact h
    · obtain ⟨⟨t, dg, rfl⟩, -⟩ := assignVSPort_frame hassign
      exact h.mono ⟨rfl, rfl⟩ fun _ _ hx => hx
    · have ht := added_turns (fun rules => rules.insert ru.uri rule.toOption) hcreate hassign
      obtain ⟨⟨t, dg, rfl⟩, -⟩ := assignVSPort_frame hassign
      refine F5Router.Rules.insert (h.mono ⟨rfl, rfl⟩ fun u x hx =>
        hx.keep fun e _ ru' _ _ hv => ?_) ?_
      · exact ht.virtual_isSome (fun _ => rfl) ru'.name hv
      · intro rule' hrule'
        refine ⟨e, he, ru, hi, rfl,
          (makeRouteRule_ok (hrule.trans (congrArg some (ok_of_toOption hrule')))).2, ?_⟩
        have hown := congrArg RouteState.virtual ht.own
        exact (congrArg Option.isSome hown).trans rfl
  · obtain ⟨rfl, -⟩ | ⟨ep, p, ms, -, -, -, hp, -, ⟨hnil, rfl⟩ | ⟨-, rfl⟩⟩ :=
      processRouteRemove_cases hstep
    · exact h
    · exact h.mono ⟨rfl, rfl⟩ fun _ _ hx => hx
    · have ht := removed_turns r codec ru p
      obtain ⟨t, dg, hreap⟩ := reap_frame codec (((({ r with
        poolResources := r.poolResources.erase ru.name }).removeMonitors
          ru.name).removeRule ru).removeVirtual ru.name) ru.name
      refine (h.erase ru.uri).mono ⟨by rw [hreap]; rfl, by rw [hreap]; rfl⟩ ?_
      rintro u x ⟨hne, hx⟩
      refine hx.keep fun f hf rv hj hu hv => ?_
      have hname : rv.name ≠ ru.name := fun hn => hne (hu.symm.trans (hnames.eq hf he hj hi hn))
      have hother := congrArg RouteState.virtual (ht.other rv.name hname)
      exact (congrArg Option.isSome hother).trans hv
  · obtain ⟨ht, hrules, -⟩ := processRouteBind_spec hs.named hstep
    refine h.mono hrules fun u x hx => hx.keep fun e _ ru' _ _ =>
      ht.virtual_isSome (fun hv => ?_) ru'.name
    simp only [RouteState.bind]
    split
    · exact hv
    · rfl
    · exact hv
  · next hop =>
    have hrules := (processRouteUnbind_spec hs.named hop hstep).1.1
    refine h.mono hrules fun u x hx => hx.keep fun e _ ru' _ _ => ?_
    obtain ⟨-, ht⟩ | ⟨p, v, ms, first, -, -, -, ht⟩ :=
      hs.processRouteUnbind_cases (not_tier1 ru.name_starts) hop hstep
    · exact ht.virtual_isSome id ru'.name
    · exact ht.virtual_isSome (fun _ => rfl) ru'.name

-- ---------------------------------------------------------------------------
-- Runs
-- ---------------------------------------------------------------------------

structure Linked (es : List Event) (r : F5Router) : Prop where
  shaped : r.Shaped (¬ tier1 ·)
  virtual : ∀ n v, r.virtualResources.lookup n = some v →
    if tier1 n then Tier1Virtual r.c n v else Tier2Virtual r.c n v
  rules : r.Rules (Aimed es r)
  forward : httpForwardingiRuleName ∈ r.ruleResources
  session : r.c.sessionPersistence = true → jsessionidIRuleName ∈ r.ruleResources
  iRule : ∀ n i, r.ruleResources.lookup n = some i → i.name = n
  monitored : ∀ n, (r.route n).Monitored r.c

theorem Linked.handle {r : F5Router} (h : Linked es r)
    (hnames : DistinctNames es)
    (he : e ∈ es) (hi : e.item = .http ru) (hkeep : KeepsMonitors codec r e)
    (hstep : r.handle codec (.http ru) = some r') : Linked es r' := by
  obtain ⟨x, ht, hroute⟩ := handle_step h.shaped.named hstep
  have hname := not_tier1 ru.name_starts
  have hsorted : (Item.http ru).Sorted (¬ tier1 ·) := hname
  refine ⟨h.shaped.handle hsorted hstep, fun n v hv => ?_, ?_, ?_, ?_, ?_,
    handle_monitored h.shaped h.monitored hi hkeep hstep⟩
  · have hall := ht.forall_route (Q := fun n x => ∀ v ∈ x.virtual,
      if tier1 n then Tier1Virtual r.c n v else Tier2Virtual r.c n v) h.virtual ?_ n v hv
    · rw [ht.c]
      exact hall
    · intro v hv
      refine (if_neg hname).mpr (hroute.tier2Virtual (fun v hv => ?_) v hv)
      have hold := h.virtual ru.name v hv
      rwa [if_neg hname] at hold
  · exact handle_aimed h.shaped h.rules hnames he hi hstep
  · rw [ht.ruleResources]
    exact h.forward
  · rw [ht.ruleResources, ht.c]
    exact h.session
  · rw [ht.ruleResources]
    exact h.iRule

theorem Linked.step {r : F5Router} (h : Linked es r)
    (hnames : DistinctNames es)
    (he : e ∈ es) (hhttp : e.item.isHTTP = true) (hkeep : KeepsMonitors codec r e)
    (hstep : r.step codec e = some r') : Linked es r' := by
  obtain ⟨r₁, dg, t, done, hr₁, rfl⟩ := step_spec hstep
  cases hi : e.item with
  | tcp tu => simp [hi, Item.isHTTP] at hhttp
  | http ru =>
    rw [hi] at hr₁
    have h₁ := h.handle hnames he hi hkeep hr₁
    exact ⟨⟨⟨h₁.shaped.named.pool, h₁.shaped.named.virtual⟩, h₁.shaped.whole⟩, h₁.virtual,
      h₁.rules.mono ⟨rfl, rfl⟩ fun _ _ hx => hx, h₁.forward, h₁.session, h₁.iRule, h₁.monitored⟩

theorem Linked.boot {c : Config} {r : F5Router} (h : boot codec c plans dg = some r)
    (hmode : r.c.routingMode ≠ .tcp) : Linked es r := by
  have hshaped : r.Shaped (¬ tier1 ·) := .boot h fun _ hn => hn
  obtain ⟨r₀, used, records, hf, -, -, rfl⟩ := boot_state h
  refine ⟨hshaped, fun n v hv => ?_, ⟨?_, ?_⟩, (hf.iRules hmode).1, (hf.iRules hmode).2,
    hf.iRuleNames, fun n => ⟨?_, ?_⟩⟩
  · have hv := hf.virtual n v hv
    rw [if_pos hv.tier1]
    exact hv
  · simp [hf.rules.1]
  · simp [hf.rules.2]
  · simp [F5Router.route, hf.pools]
  · simp [F5Router.route, hf.unmapped]

-- ---------------------------------------------------------------------------
-- The configuration
-- ---------------------------------------------------------------------------

theorem mem_emitMonitor (added : List Monitor) (m : Monitor) :
    m.name ∈ (emitMonitor added m).map Monitor.name ∧ added ⊆ emitMonitor added m := by
  simp only [emitMonitor]
  split
  · next hin => exact ⟨hin, fun _ => id⟩
  · simp

theorem mem_foldl_emitMonitor {all added : List Monitor}
    (h : m ∈ all ∨ m.name ∈ added.map Monitor.name) :
    m.name ∈ (all.foldl emitMonitor added).map Monitor.name := by
  induction all generalizing added with
  | nil => exact h.resolve_left List.not_mem_nil
  | cons a all ih =>
    obtain ⟨hown, hsub⟩ := mem_emitMonitor added a
    refine ih ?_
    obtain h | h := h
    · rcases List.mem_cons.mp h with rfl | h
      · exact .inr hown
      · exact .inl h
    · exact .inr (List.map_subset _ hsub h)

theorem mem_createMonitors {r : F5Router} (hn : r.monitorResources.lookup n = some ms)
    (hm : m ∈ ms) (o : Order) :
    ∃ m' ∈ r.createMonitors o, m'.name = m.name := by
  have hmem : m ∈ ((r.monitorResources.range o).map Prod.snd).flatten :=
    List.mem_flatten.mpr ⟨ms, GoMap.mem_range_values.mpr ⟨n, hn⟩, hm⟩
  have hin : m.name ∈ (r.createMonitors o).map Monitor.name := mem_foldl_emitMonitor (.inl hmem)
  exact List.mem_map.mp hin

theorem sortRules_mem (h : sortRules o rules k = some rls) (hr : rule ∈ rls) :
    ∃ u v, rules.lookup u = some (some v) ∧ rule.actions = v.actions := by
  obtain ⟨all, hall, rfl⟩ := Option.map_eq_some_iff.mp h
  obtain ⟨⟨v, i⟩, hv, rfl⟩ := List.mem_map.mp hr
  have hv : v ∈ all := (List.mem_insertionSort _).mp (List.fst_mem_of_mem_zipIdx hv)
  have hmem : some v ∈ (rules.range o).map Prod.snd := by
    rw [mapM_eq_some.mp hall]
    exact List.mem_map_of_mem hv
  obtain ⟨u, hu⟩ := GoMap.mem_range_values.mp hmem
  exact ⟨u, v, hu, rfl⟩

theorem Linked.closed {r : F5Router} (h : Linked es r) (hres : r.createResources o = some pm) :
    ∃ res, pm.lookup r.c.partition = some res ∧ Closed r.c res := by
  obtain ⟨policies, hpol, hres⟩ := Option.bind_eq_some_iff.mp hres
  cases hres
  refine ⟨_, AList.lookup_insert _,
    ⟨fun v hv ht => ?_, fun policy hp rule hr a ha _ => ?_, fun v hv path hpath => ?_,
      fun p hp mn hmn hc => ?_⟩⟩
  · obtain ⟨n, hn⟩ := GoMap.mem_range_values.mp hv
    obtain rfl := h.shaped.named.virtual n v hn
    have hv := h.virtual _ v hn
    rw [if_neg ht] at hv
    have hpaired := (h.shaped.whole _ ht).paired
    obtain ⟨p, hp⟩ : ∃ p, r.poolResources.lookup v.virtualServerName = some p := by
      refine Option.isSome_iff_exists.mp (hpaired.trans ?_)
      exact congrArg Option.isSome hn
    refine ⟨p, GoMap.mem_range_values.mpr ⟨_, hp⟩, ?_⟩
    rw [(h.shaped.named.pool _ p hp).1]
    exact hv.poolName
  · have hrule : ∃ u x, Aimed es r u (some x) ∧ rule.actions = x.actions := by
      simp only [F5Router.createPolicies] at hpol
      split at hpol
      · obtain ⟨plcy, hplcy, rfl⟩ := Option.map_eq_some_iff.mp hpol
        obtain ⟨rls, hrls, hplcy⟩ := Option.bind_eq_some_iff.mp hplcy
        obtain ⟨w, hw, hplcy⟩ := Option.bind_eq_some_iff.mp hplcy
        cases hplcy
        rw [List.mem_singleton.mp hp] at hr
        rcases List.mem_append.mp hr with hr | hr
        · obtain ⟨u, x, hu, hx⟩ := sortRules_mem hrls hr
          exact ⟨u, x, (h.rules.exact u _ hu).2, hx⟩
        · obtain ⟨u, x, hu, hx⟩ := sortRules_mem hw hr
          exact ⟨u, x, (h.rules.wildcard u _ hu).2, hx⟩
      · cases hpol
        cases hp
    obtain ⟨u, x, haimed, hactions⟩ := hrule
    obtain ⟨e, -, ru, -, -, hx, hv⟩ := haimed x rfl
    rw [hactions, hx, List.mem_singleton] at ha
    obtain ⟨v, hv⟩ := Option.isSome_iff_exists.mp hv
    refine ⟨v, GoMap.mem_range_values.mpr ⟨_, hv⟩, ?_⟩
    rw [ha]
    exact h.shaped.named.virtual _ v hv
  · have hfind : ∀ name, name ≠ [] → name ∈ r.ruleResources → path = bigipPath r.c.partition name →
        ∃ i ∈ r.createiRules o, joinBigipPath r.c.partition i.name = .ok path := by
      rintro name hne hmem rfl
      obtain ⟨i, hi⟩ := Option.isSome_iff_exists.mp (AList.lookup_isSome.mpr hmem)
      refine ⟨i, GoMap.mem_range_values.mpr ⟨name, hi⟩, ?_⟩
      rw [h.iRule name i hi]
      exact joinBigipPath_ok hne
    obtain ⟨n, hn⟩ := GoMap.mem_range_values.mp hv
    have hv := h.virtual n v hn
    split at hv
    · rw [hv.iRules, List.mem_singleton] at hpath
      exact hfind _ (by decide) h.forward hpath
    · rw [hv.iRules] at hpath
      split at hpath
      · next hsess => exact hfind _ (by decide) (h.session hsess) (List.mem_singleton.mp hpath)
      · cases hpath
  · obtain ⟨n, hn⟩ := GoMap.mem_range_values.mp hp
    obtain ⟨m, hm, hpath⟩ := (h.monitored n).pool p hn mn hmn hc
    cases hms : (r.route n).monitors with
    | none =>
      rw [hms] at hm
      cases hm
    | some ms =>
      rw [hms] at hm
      obtain ⟨m', hm', hname⟩ := mem_createMonitors hms hm o
      exact ⟨m', hm', hname ▸ hpath⟩

/-- In a run of HTTP updates that keep the monitors of their pools, every
configuration is closed. -/
theorem closed_of_keepsMonitors (hboot : boot codec c plans dg = some r₀)
    (hmode : r₀.c.routingMode ≠ .tcp) (hhttp : ∀ e ∈ es, e.item.isHTTP = true)
    (hnames : DistinctNames es)
    (hkeep : Along (F5Router.step codec) (KeepsMonitors codec) r₀ es)
    (hrun : run (F5Router.step codec) r₀ es = some r) (hres : r.createResources o = some pm) :
    ∃ res, pm.lookup r.c.partition = some res ∧ Closed r.c res := by
  have h : Linked es r := by
    refine run_invariant (I := Linked es) ?_ hkeep (.boot hboot hmode) hrun
    exact fun s t e he hs hk hstep => hs.step hnames he (hhttp e he) hk hstep
  exact h.closed hres

namespace Sample

def monitorPlans : GoMap Str Plan :=
  (∅ : GoMap Str Plan).insert "checked".toList
    { pool := { healthMonitors := [{ name := "check".toList, type := "http".toList }] } }

def monitorRun : List Event := [event (bindA "checked".toList) 1, event addA 0, event addA2 0]

def keepsMonitors (r : F5Router) (e : Event) : Bool :=
  match e.item with
  | .http ru =>
    match ru.op with
    | .add => (r.route ru.name).KeepsMonitorsAdd r.c
    | .remove => true
    | .bind => ∀ plan ∈ r.plansMap.lookup ru.planID, (r.route ru.name).KeepsMonitorsBind r.c plan
    | .unbind => (r.route ru.name).KeepsMonitorsUnbind
  | .tcp _ => true

theorem keepsMonitors_sound (h : keepsMonitors r e = true) : KeepsMonitors codec r e := by
  simp only [keepsMonitors] at h
  simp only [KeepsMonitors]
  cases hi : e.item with
  | tcp tu => trivial
  | http ru =>
    simp only [hi] at h
    split at h
    · next hop =>
      simp only [hop]
      exact fun _ => of_decide_eq_true h
    · next hop => simp only [hop]
    · next hop =>
      simp only [hop]
      exact of_decide_eq_true h
    · next hop =>
      simp only [hop]
      exact of_decide_eq_true h

end Sample

theorem closed_of_keepsMonitors_sample :
    ∃ r₀, boot jsonCodec Sample.config Sample.monitorPlans none = some r₀ ∧
      ∃ r, run (F5Router.step jsonCodec) r₀ Sample.monitorRun = some r ∧
        ∃ pm, r.createResources Order.stored = some pm ∧
          ∃ res, pm.lookup r.c.partition = some res ∧ Closed r.c res := by
  have hsome : ((boot jsonCodec Sample.config Sample.monitorPlans none).bind fun r₀ =>
      (run (F5Router.step jsonCodec) r₀ Sample.monitorRun).bind fun r =>
        r.createResources Order.stored).isSome = true := by decide +kernel
  have hkeep : ∀ r₀ ∈ boot jsonCodec Sample.config Sample.monitorPlans none,
      r₀.c.routingMode ≠ .tcp ∧
      Along (F5Router.step jsonCodec) (fun r e => Sample.keepsMonitors r e = true) r₀
        Sample.monitorRun := by
    decide +kernel
  obtain ⟨pm, hpm⟩ := Option.isSome_iff_exists.mp hsome
  obtain ⟨r₀, hboot, hpm⟩ := Option.bind_eq_some_iff.mp hpm
  obtain ⟨r, hrun, hpm⟩ := Option.bind_eq_some_iff.mp hpm
  obtain ⟨hmode, halong⟩ := hkeep r₀ hboot
  exact ⟨r₀, hboot, r, hrun, pm, hpm, closed_of_keepsMonitors hboot hmode (by decide) (by decide)
    (along_mono (fun _ _ h => Sample.keepsMonitors_sound h) halong) hrun hpm⟩

/-- An Unbind of a route with two endpoints leaves its pool with the name of a
monitor that is gone. -/
theorem unbind_dangles :
    ∃ r₀ ∈ boot jsonCodec Sample.config Sample.monitorPlans none,
      ∃ r ∈ run (F5Router.step jsonCodec) r₀ [Sample.event Sample.addA 0,
        Sample.event Sample.addA2 0, Sample.event (Sample.bindA "checked".toList) 0,
        Sample.event Sample.unbindA 0], ∃ pm ∈ r.createResources Order.stored,
      ∃ res ∈ pm.lookup r.c.partition, ¬ Closed r.c res := by
  decide +kernel

end BigipCtlr
