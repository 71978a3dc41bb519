import BigipCtlr.F5Router.Shape
import Mathlib.Data.List.Infix

/-!
# Bindings

What a plan decides of a route is to depend on the route's current binding
only. The router keeps a binding in the objects of a mapped route and in
`unmappedResourcesMap` for others; `Keeps` says exactly which updates take it
from one place to the other.
-/

namespace BigipCtlr

open Go Lib

/-- What a plan decides of a route. -/
structure Settings where
  balance : Str
  monitorNames : List MonitorName
  profiles : List ProfileRef
  policies : List NameRef
  monitors : List Monitor
  deriving DecidableEq

def RouteResources.settings (rs : RouteResources) : Settings :=
  ⟨rs.pool.balance, rs.pool.monitorNames, rs.virtual.profiles, rs.virtual.policies, rs.monitors⟩

def defaultSettings (c : Config) : Settings := (defaultResources c [] [] [] [] 0).settings

def boundSettings (c : Config) : Option Plan → Settings
  | none => defaultSettings c
  | some plan =>
    (updateResources (defaultResources c [] [] [] [] 0) (createPlanResources c plan)).settings

def RouteState.settings (x : RouteState) (p : Pool) (v : Virtual) : Settings :=
  ⟨p.balance, p.monitorNames, v.profiles, v.policies, x.monitors.getD []⟩

/-- The settings as the code has them: a monitor is named by its path. -/
structure SeenSettings where
  balance : Str
  monitorNames : List Str
  profiles : List ProfileRef
  policies : List NameRef
  monitors : List Monitor
  deriving DecidableEq

def Settings.seen (s : Settings) : SeenSettings :=
  ⟨s.balance, s.monitorNames.map MonitorName.path, s.profiles, s.policies, s.monitors⟩

/-- A route with members has the settings of its binding. -/
def RouteState.Configured (x : RouteState) (c : Config) (b : Option Plan) : Prop :=
  ∀ p ∈ x.pool, ∃ v ∈ x.virtual, (x.settings p v).seen = (boundSettings c b).seen

instance (x : RouteState) (c : Config) (b : Option Plan) : Decidable (x.Configured c b) :=
  inferInstanceAs (Decidable (∀ p ∈ x.pool, ∃ v ∈ x.virtual, _))

/-- The binding of a route after an update. A Bind to a plan that is not known
has no effect. -/
def rebind (plans : GoMap Str Plan) (n : Str) (b : Option Plan) (e : Event) : Option Plan :=
  match e.item with
  | .http ru =>
    if ru.name = n then
      match ru.op with
      | .bind => (plans.lookup ru.planID).or b
      | .unbind => none
      | _ => b
    else b
  | .tcp _ => b

-- ---------------------------------------------------------------------------
-- The updates that keep a binding
-- ---------------------------------------------------------------------------

def RouteState.pending (x : RouteState) (c : Config) : Settings :=
  (x.resources (defaultResources c [] [] [] [] 0)).settings

/-- Two settings that come to the same where the default stands for none. -/
def Alike (default a b : List α) : Prop :=
  a = b ∨ ((a = [] ∨ a = default) ∧ (b = [] ∨ b = default))

def setBy (rs : Option RouteResources) : Settings :=
  (rs.map RouteResources.settings).getD ⟨[], [], [], [], []⟩

/-- What waits in `unmappedResourcesMap` and the resources of the plan that is
bound come to the same. -/
def RouteState.WaitsFor (x : RouteState) (c : Config) (b : Option Plan) : Prop :=
  let waiting := setBy x.unmapped
  let bound := setBy (b.map (createPlanResources c))
  let default := defaultSettings c
  Alike default.balance waiting.balance bound.balance ∧
    Alike (default.monitorNames.map MonitorName.path) (waiting.monitorNames.map MonitorName.path)
      (bound.monitorNames.map MonitorName.path) ∧
    Alike default.profiles waiting.profiles bound.profiles ∧
    Alike default.policies waiting.policies bound.policies ∧
    waiting.monitors = bound.monitors

/-- For the first endpoint the binding waits in `unmappedResourcesMap`; for a
further one nothing waits there that would replace the monitors. -/
def RouteState.KeepsAdd (x : RouteState) (c : Config) (b : Option Plan) : Prop :=
  if x.pool = none then x.WaitsFor c b
  else (setBy x.unmapped).monitors = [] ∨ (setBy x.unmapped).monitors = x.monitors.getD []

/-- A plan bound to a route with endpoints sets what is not at its default. -/
def RouteState.KeepsBind (x : RouteState) (c : Config) (plan : Plan) : Prop :=
  let new := (createPlanResources c plan).settings
  ∀ p ∈ x.pool, ∀ v ∈ x.virtual,
    (new.balance ≠ [] ∨ p.balance = (defaultSettings c).balance) ∧
    (new.monitorNames ≠ [] ∨
      p.monitorNames.map MonitorName.path = (defaultSettings c).monitorNames.map MonitorName.path) ∧
    (new.profiles ≠ [] ∨ v.profiles = (defaultSettings c).profiles) ∧
    (new.policies ≠ [] ∨ v.policies = (defaultSettings c).policies) ∧
    (plan.pool.healthMonitors ≠ [] ∨ x.monitors.getD [] = [])

/-- A pool with several members that is unbound has its default settings. -/
def RouteState.KeepsUnbind (x : RouteState) (c : Config) : Prop :=
  ∀ p ∈ x.pool, p.members.length = 1 ∨
    (p.balance = (defaultSettings c).balance ∧
      p.monitorNames.map MonitorName.path = (defaultSettings c).monitorNames.map MonitorName.path)

def F5Router.Keeps (codec : Codec) (r : F5Router) (b : Option Plan) (ru : UpdateHTTP) : Prop :=
  match ru.op with
  | .add => r.Accepts codec ru → (r.route ru.name).KeepsAdd r.c b
  | .remove => True
  | .bind => ∀ plan ∈ r.plansMap.lookup ru.planID, (r.route ru.name).KeepsBind r.c plan
  | .unbind => (r.route ru.name).KeepsUnbind r.c

def KeepsBinding (codec : Codec) (n : Str) (s : F5Router × Option Plan) (e : Event) : Prop :=
  match e.item with
  | .http ru => ru.name = n → s.1.Keeps codec s.2 ru
  | .tcp _ => True

-- ---------------------------------------------------------------------------
-- Updates of a route
-- ---------------------------------------------------------------------------

theorem settings_resources (x : RouteState) :
    (x.resources (defaultResources c n d dest a port)).settings = x.pending c := by
  simp only [RouteState.pending, RouteState.resources]
  split <;> rfl

def Settings.over (default new : Settings) : Settings where
  balance := if new.balance ≠ [] then new.balance else default.balance
  monitorNames := if new.monitorNames ≠ [] then new.monitorNames else default.monitorNames
  profiles := if new.profiles ≠ [] then new.profiles else default.profiles
  policies := if new.policies ≠ [] then new.policies else default.policies
  monitors := if new.monitors ≠ [] then new.monitors else default.monitors

theorem pending_eq (x : RouteState) :
    x.pending c = (defaultSettings c).over (setBy x.unmapped) := by
  simp only [RouteState.pending, RouteState.resources]
  cases x.unmapped <;> rfl

theorem boundSettings_eq :
    boundSettings c b = (defaultSettings c).over (setBy (b.map (createPlanResources c))) := by
  cases b <;> rfl

theorem pending_monitors (x : RouteState) :
    (x.pending c).monitors = (setBy x.unmapped).monitors := by
  rw [pending_eq]
  exact ite_eq_left_iff.mpr fun h => (not_not.mp h).symm

theorem alike_iff {default a b : List α} :
    ((if a ≠ [] then a else default) = if b ≠ [] then b else default) ↔ Alike default a b := by
  by_cases ha : a = []
  · by_cases hb : b = []
    · simp [Alike, ha, hb]
    · simp [Alike, ha, hb, Ne.symm hb, eq_comm]
  · by_cases hb : b = []
    · simp [Alike, ha, hb]
    · simp only [Alike, ha, hb, ne_eq, not_false_eq_true, if_true, false_or]
      exact ⟨.inl, fun h => h.elim id fun h => h.1.trans h.2.symm⟩

theorem map_override (f : α → β) (new default : List α) :
    (if new ≠ [] then new else default).map f = if new.map f ≠ [] then new.map f
      else default.map f := by
  by_cases h : new = [] <;> simp [h]

theorem RouteState.waitsFor_iff {x : RouteState} :
    (x.pending c).seen = (boundSettings c b).seen ↔ x.WaitsFor c b := by
  have hmonitors : (boundSettings c b).monitors =
      (setBy (b.map (createPlanResources c))).monitors := by
    rw [boundSettings_eq]
    exact ite_eq_left_iff.mpr fun h => (not_not.mp h).symm
  simp only [Settings.seen, SeenSettings.mk.injEq, pending_monitors, hmonitors]
  simp only [pending_eq, boundSettings_eq, Settings.over, map_override, alike_iff]
  exact Iff.rfl

theorem joinPool_some_settings (p pool : Pool) :
    (joinPool (some p) pool).balance = p.balance ∧
      (joinPool (some p) pool).monitorNames = p.monitorNames := by
  simp only [joinPool]
  split <;> exact ⟨rfl, rfl⟩

theorem RouteState.configured_iff {x : RouteState} (hp : x.pool = some p)
    (hv : x.virtual = some v) :
    x.Configured c b ↔ (x.settings p v).seen = (boundSettings c b).seen := by
  simp [Configured, hp, hv]

theorem RouteState.configured_of_none {x : RouteState} (hp : x.pool = none) : x.Configured c b := by
  simp [Configured, hp]

theorem RouteState.configured_add {x : RouteState} (hw : x.Whole) (h : x.Configured c b)
    (hrs : rs.settings = x.pending c) :
    (x.add rs { rs.virtual with destination := dest }).Configured c b ↔ x.KeepsAdd c b := by
  have hmon : (if rs.monitors = [] then x.monitors else some rs.monitors).getD [] =
      if rs.monitors = [] then x.monitors.getD [] else rs.monitors := by split <;> rfl
  have hrsmon : rs.monitors = (setBy x.unmapped).monitors :=
    (congrArg Settings.monitors hrs).trans (pending_monitors x)
  cases hp : x.pool with
  | none =>
    have hv := hw.virtual_eq_none hp
    have hs : (x.add rs { rs.virtual with destination := dest }).settings rs.pool
        { rs.virtual with destination := dest } = rs.settings := by
      simp only [RouteState.settings, RouteState.add, hw.monitors hp, RouteResources.settings]
      split
      · next he =>
        rw [he]
        rfl
      · rfl
    rw [configured_iff (p := rs.pool) (v := { rs.virtual with destination := dest }), hs, hrs,
      KeepsAdd, if_pos hp, waitsFor_iff]
    · simp [RouteState.add, hp, joinPool]
    · simp [RouteState.add, hv]
  | some p =>
    obtain ⟨v, hv⟩ := hw.virtual_eq_some hp
    have hbound := (configured_iff hp hv).mp h
    obtain ⟨hbal, hnames⟩ := joinPool_some_settings p rs.pool
    rw [configured_iff (p := joinPool (some p) rs.pool) (v := v), KeepsAdd, if_neg (by simp [hp]),
      ← hbound, ← hrsmon]
    · simp only [Settings.seen, RouteState.settings, RouteState.add, hmon, hbal, hnames,
        SeenSettings.mk.injEq, true_and]
      split
      · next he => simp [he]
      · next he => simp [he]
    · simp [RouteState.add, hp]
    · simp [RouteState.add, hv]

theorem RouteState.configured_shrink {x : RouteState} (h : x.Configured c b)
    (hp : x.pool = some p) :
    (x.shrink p ms).Configured c b := by
  simp only [RouteState.shrink]
  split
  · exact configured_of_none rfl
  · obtain ⟨v, hv, hs⟩ := h p hp
    rintro q ⟨⟩
    exact ⟨v, hv, hs⟩

theorem override_eq_iff {new old default : List α} :
    ((if new ≠ [] then new else old) = if new ≠ [] then new else default) ↔
      new ≠ [] ∨ old = default := by
  by_cases h : new = [] <;> simp [h]

theorem override_map_eq_iff {f : α → β} {new old default : List α} :
    ((if new ≠ [] then new else old).map f = (if new ≠ [] then new else default).map f) ↔
      new ≠ [] ∨ old.map f = default.map f := by
  by_cases h : new = [] <;> simp [h]

theorem planMonitors_ne_nil (h : (planMonitors c hms).2 ≠ []) : hms ≠ [] := by
  rintro rfl
  exact h rfl

theorem RouteState.configured_bindMapped {x : RouteState} (hp : x.pool = some p)
    (hv : x.virtual = some v) :
    (x.bindMapped c plan p v).Configured c (some plan) ↔ x.KeepsBind c plan := by
  have hmon : ((if (createPlanResources c plan).monitors ≠
      [] then some (createPlanResources c plan).monitors
      else if plan.pool.healthMonitors ≠ [] then none else x.monitors).getD [] =
        if (createPlanResources c plan).monitors ≠ [] then
          (createPlanResources c plan).monitors else []) ↔
      plan.pool.healthMonitors ≠ [] ∨ x.monitors.getD [] = [] := by
    by_cases hnew : (createPlanResources c plan).monitors = []
    · by_cases hplan : plan.pool.healthMonitors = [] <;> simp [hnew, hplan]
    · simp [hnew, planMonitors_ne_nil hnew]
  rw [configured_iff (p := (x.bindMapped c plan p v).pool.getD p)
    (v := (x.bindMapped c plan p v).virtual.getD v)
    rfl rfl]
  simp only [KeepsBind, hp, hv, Option.mem_some_iff, forall_eq', RouteState.settings,
    RouteState.bindMapped, Option.getD_some, boundSettings, RouteResources.settings,
    updateResources, Settings.seen, SeenSettings.mk.injEq, override_eq_iff, override_map_eq_iff]
  exact and_congr_right fun _ => and_congr_right fun _ => and_congr_right fun _ =>
    and_congr_right fun _ => hmon

theorem RouteState.configured_unbindMapped {x : RouteState} (hp : x.pool = some p)
    (hne : p.members ≠ []) (hms : removeMember List.head? p.members = some ms) :
    (x.unbindMapped p ms (defaultResources c n d dest a port)).Configured c none ↔
      x.KeepsUnbind c := by
  have hone := removeMember_head_eq_nil hne hms
  simp only [KeepsUnbind, hp, Option.mem_some_iff, forall_eq', ← hone]
  rw [configured_iff (p := joinPool (if ms = [] then none else some { p with members := ms })
    { (defaultResources c n d dest a port).pool with members := p.members })
    (v := (defaultResources c n d dest a port).virtual) rfl rfl]
  by_cases hnil : ms = []
  · simp only [hnil, if_pos, true_or, iff_true]
    rfl
  · obtain ⟨hbal, hnames⟩ := joinPool_some_settings { p with members := ms }
      { (defaultResources c n d dest a port).pool with members := p.members }
    rw [if_neg hnil]
    simp only [hnil, false_or, Settings.seen, RouteState.settings, hbal, hnames, boundSettings,
      SeenSettings.mk.injEq]
    constructor
    · rintro ⟨hb, hn, -⟩
      exact ⟨hb, hn⟩
    · rintro ⟨hb, hn⟩
      exact ⟨hb, hn, rfl, rfl, rfl⟩

-- ---------------------------------------------------------------------------
-- Runs
-- ---------------------------------------------------------------------------

theorem processRouteAdd_route {r : F5Router} (h : r.processRouteAdd codec ru = some r') :
    (¬ r.Accepts codec ru ∧ r'.route ru.name = r.route ru.name) ∨
      (r.Accepts codec ru ∧ ∃ rs dest, rs.settings = (r.route ru.name).pending r.c ∧
        r'.route ru.name = (r.route ru.name).add rs { rs.virtual with destination := dest }) := by
  obtain ⟨rfl, hno⟩ | ⟨rs, hverify, hcreate, ⟨err, hassign⟩ | ⟨r₁, vs, rule, hassign, -, rfl⟩⟩ :=
    processRouteAdd_cases h
  · refine .inl ⟨?_, rfl⟩
    rintro ⟨hverify, rs, -, -, hcreate, -⟩
    exact hno.elim (fun hv => hv hverify) fun hc => hc rs hcreate
  · refine .inl ⟨?_, ?_⟩
    · rintro ⟨-, rs', r₁, vs, hcreate', hassign'⟩
      rw [hcreate] at hcreate'
      cases hcreate'
      rw [hassign] at hassign'
      cases hassign'
    · obtain ⟨⟨t, dg, rfl⟩, -⟩ := assignVSPort_frame hassign
      rfl
  · obtain ⟨ep, -, -, hrs⟩ := createResources_ok hcreate
    obtain ⟨dest, rfl⟩ := (assignVSPort_frame hassign).2 vs rfl
    refine .inr ⟨⟨hverify, rs, r₁, _, hcreate, hassign⟩, r.addedResources ru rs, dest, ?_, ?_⟩
    · rw [addedResources_eq, hrs]
      exact settings_resources _
    · exact (added_turns _ hcreate hassign).own

theorem handle_configured {r : F5Router} (hs : r.Shaped (¬ tier1 ·))
    (h : (r.route ru.name).Configured r.c b) (hitem : e.item = .http ru)
    (hstep : r.handle codec (.http ru) = some r') :
    (r'.route ru.name).Configured r.c (rebind r.plansMap ru.name b e) ↔ r.Keeps codec b ru := by
  have hw := hs.whole _ (not_tier1 ru.name_starts)
  simp only [F5Router.handle] at hstep
  simp only [rebind, hitem, if_true, F5Router.Keeps]
  split at hstep
  · next hop =>
    simp only [hop]
    obtain ⟨hacc, hroute⟩ | ⟨hacc, rs, dest, hrs, hroute⟩ := processRouteAdd_route hstep
    · simp only [hacc, hroute, h, false_imp_iff]
    · rw [hroute, RouteState.configured_add hw h hrs]
      simp only [hacc, true_imp_iff]
  · next hop =>
    simp only [hop, iff_true]
    obtain ⟨rfl, -⟩ | ⟨ep, p, ms, -, -, -, hp, -, ⟨hnil, rfl⟩ | ⟨-, rfl⟩⟩ :=
      processRouteRemove_cases hstep
    · exact h
    · rw [(shrunk_turns hnil).own]
      exact RouteState.configured_shrink h hp
    · rw [(removed_turns r codec ru p).own]
      exact RouteState.configured_shrink h hp
  · next hop =>
    simp only [hop]
    rw [(processRouteBind_spec hs.named hstep).1.own]
    cases hplan : r.plansMap.lookup ru.planID with
    | none =>
      simp only [RouteState.bind, Option.none_or, Option.not_mem_none, false_imp_iff,
        implies_true, iff_true]
      exact h
    | some plan =>
      simp only [Option.some_or, Option.mem_some_iff, forall_eq']
      cases hp : (r.route ru.name).pool with
      | none =>
        have hkeep : (r.route ru.name).KeepsBind r.c plan := by simp [RouteState.KeepsBind, hp]
        simp only [RouteState.bind, hp, hkeep, iff_true]
        exact RouteState.configured_of_none rfl
      | some p =>
        obtain ⟨v, hv⟩ := hw.virtual_eq_some hp
        simp only [RouteState.bind, hp, hv]
        exact RouteState.configured_bindMapped hp hv
  · next hop =>
    simp only [hop]
    obtain ⟨hp, ht⟩ | ⟨p, v, ms, first, hp, hv, hms, ht⟩ :=
      hs.processRouteUnbind_cases (not_tier1 ru.name_starts) hop hstep
    · have hkeep : (r.route ru.name).KeepsUnbind r.c := by simp [RouteState.KeepsUnbind, hp]
      rw [ht.own]
      simp only [hkeep, iff_true]
      exact RouteState.configured_of_none hp
    · rw [ht.own]
      exact RouteState.configured_unbindMapped hp (hs.named.pool _ p hp).2 hms

theorem step_configured {r : F5Router} (hs : r.Shaped (¬ tier1 ·))
    (h : (r.route n).Configured r.c b) (hhttp : e.item.isHTTP = true)
    (hstep : r.step codec e = some r') :
    (r'.route n).Configured r'.c (rebind r.plansMap n b e) ↔ KeepsBinding codec n (r, b) e := by
  obtain ⟨r₁, dg, t, done, hr₁, rfl⟩ := step_spec hstep
  obtain ⟨x, ht, -⟩ := handle_step hs.named hr₁
  cases hi : e.item with
  | tcp tu => simp [hi, Item.isHTTP] at hhttp
  | http ru =>
    rw [hi] at hr₁ ht
    simp only [KeepsBinding, hi]
    change (r₁.route n).Configured r₁.c _ ↔ _
    rw [ht.c]
    by_cases hn : ru.name = n
    · subst hn
      simp only [true_imp_iff]
      exact handle_configured hs h hi hr₁
    · rw [ht.other n fun he => hn he.symm]
      simp only [rebind, hi, hn, if_false, false_imp_iff, iff_true]
      exact h

theorem boot_configured (h : boot codec c plans dg = some r) :
    r.plansMap = plans ∧ ∀ n, (r.route n).Configured r.c none := by
  obtain ⟨r₀, used, records, hf, hplans, -, rfl⟩ := boot_state h
  refine ⟨hplans, fun n => RouteState.configured_of_none ?_⟩
  simp [F5Router.route, hf.pools]

theorem step_plansMap {r : F5Router} (hn : r.Named) (h : r.step codec e = some r') :
    r'.plansMap = r.plansMap := by
  obtain ⟨r₁, dg, t, done, hr₁, rfl⟩ := step_spec h
  obtain ⟨x, ht, -⟩ := handle_step hn hr₁
  exact ht.plansMap

/-- In a run of HTTP updates the settings of a route follow from its binding
all along exactly when every update keeps the binding. -/
theorem configured_iff_keepsBinding (hboot : boot codec c plans dg = some r₀)
    (hhttp : ∀ e ∈ es, e.item.isHTTP = true) (n : Str) :
    (∀ fs, fs <+: es → ∀ r, run (F5Router.step codec) r₀ fs = some r →
        (r.route n).Configured r.c (fs.foldl (rebind plans n) none)) ↔
      Along (ghost (F5Router.step codec) (rebind plans n)) (KeepsBinding codec n)
        (r₀, none) es := by
  obtain ⟨hplans, hconf⟩ := boot_configured hboot
  rw [← forall_prefix_iff_along (J := fun s => s.1.Shaped (¬ tier1 ·) ∧ s.1.plansMap = plans)
    (P := fun s => (s.1.route n).Configured s.1.c s.2)]
  · refine forall_congr' fun fs => imp_congr_right fun _ => ?_
    simp only [run_ghost, Option.map_eq_some_iff, Prod.forall, Prod.mk.injEq]
    constructor
    · rintro h r b ⟨r', hr', rfl, rfl⟩
      exact h r' hr'
    · exact fun h r hr => h r _ ⟨r, hr, rfl, rfl⟩
  · rintro ⟨r, b⟩ t e he ⟨hs, hp⟩ hstep
    obtain ⟨r', hr', rfl⟩ := Option.map_eq_some_iff.mp hstep
    exact ⟨hs.step (Item.sorted_of_isHTTP (hhttp e he)) hr', (step_plansMap hs.named hr').trans hp⟩
  · rintro ⟨r, b⟩ t e he ⟨hs, rfl⟩ hP hstep
    obtain ⟨r', hr', rfl⟩ := Option.map_eq_some_iff.mp hstep
    exact step_configured hs hP (hhttp e he) hr'
  · exact ⟨.boot hboot fun _ hn => hn, hplans⟩
  · exact hconf n

def Sample.plans : GoMap Str Plan :=
  (∅ : GoMap Str Plan).insert "ratio".toList { pool := { balance := "ratio-member".toList } }

def Sample.boundFirst : List Event :=
  [event (bindA "ratio".toList) 1, event addA 0, event addA2 0, event removeA 0, event unbindA 0]

theorem configured_iff_keepsBinding_sample :
    ∃ r₀, boot jsonCodec Sample.config Sample.plans none = some r₀ ∧
      (∀ fs, fs <+: Sample.boundFirst → ∀ r, run (F5Router.step jsonCodec) r₀ fs = some r →
        (r.route "cf-a".toList).Configured r.c
          (fs.foldl (rebind Sample.plans "cf-a".toList) none)) ∧
      Along (ghost (F5Router.step jsonCodec) (rebind Sample.plans "cf-a".toList))
        (KeepsBinding jsonCodec "cf-a".toList) (r₀, none) Sample.boundFirst := by
  have hall : ∃ r₀ ∈ boot jsonCodec Sample.config Sample.plans none,
      ∀ fs ∈ Sample.boundFirst.inits, ∀ r ∈ run (F5Router.step jsonCodec) r₀ fs,
        (r.route "cf-a".toList).Configured r.c
          (fs.foldl (rebind Sample.plans "cf-a".toList) none) := by decide +kernel
  obtain ⟨r₀, hboot, hall⟩ := hall
  have hconf : ∀ fs, fs <+: Sample.boundFirst → ∀ r, run (F5Router.step jsonCodec) r₀ fs = some r →
      (r.route "cf-a".toList).Configured r.c (fs.foldl (rebind Sample.plans "cf-a".toList) none) :=
    fun fs hfs r hr => hall fs ((List.mem_inits fs _).mpr hfs) r hr
  exact ⟨r₀, hboot, hconf, (configured_iff_keepsBinding hboot (by decide) _).mp hconf⟩

/-- A route that is bound while it has an endpoint loses the binding when the
endpoint goes and comes back. -/
theorem binding_lost :
    ∃ r₀ ∈ boot jsonCodec Sample.config Sample.plans none,
      ∃ r ∈ run (F5Router.step jsonCodec) r₀ [Sample.event Sample.addA 0,
        Sample.event (Sample.bindA "ratio".toList) 0, Sample.event Sample.removeA 0,
        Sample.event Sample.addA 0],
          ¬ (r.route "cf-a".toList).Configured r.c
            ([Sample.event Sample.addA 0, Sample.event (Sample.bindA "ratio".toList) 0,
              Sample.event Sample.removeA 0, Sample.event Sample.addA 0].foldl
              (rebind Sample.plans "cf-a".toList) none) := by
  decide +kernel

end BigipCtlr
