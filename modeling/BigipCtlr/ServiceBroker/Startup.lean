import BigipCtlr.F5Router.Binding
import BigipCtlr.F5Router.Controller
import BigipCtlr.ServiceBroker.Broker

/-!
# Requests at startup

The handler of the broker serves requests before `Run` has recovered the
mapping of the bindings. `Run` builds a map from the records of the data group
it has fetched and puts it in the place of the mapping.
-/

namespace BigipCtlr

open Go Lib

-- ---------------------------------------------------------------------------
-- The worker leaves the bindings alone
-- ---------------------------------------------------------------------------

structure F5Router.SameBindings (r r' : F5Router) : Prop where
  plans : r'.plansMap = r.plansMap
  bindings : r'.bindIDRouteURIPlanNameMap = r.bindIDRouteURIPlanNameMap

theorem processRouteAdd_sameBindings {r : F5Router} (h : r.processRouteAdd codec ru = some r') :
    r.SameBindings r' := by
  obtain ⟨rfl, -⟩ | ⟨rs, -, -, ⟨err, hassign⟩ | ⟨r₁, vs, rule, hassign, -, rfl⟩⟩ :=
    processRouteAdd_cases h
  · exact ⟨rfl, rfl⟩
  all_goals
    obtain ⟨⟨t, dg, rfl⟩, -⟩ := assignVSPort_frame hassign
    exact ⟨rfl, rfl⟩

theorem processRouteRemove_sameBindings {r : F5Router}
    (h : r.processRouteRemove codec ru = some r') :
    r.SameBindings r' := by
  obtain ⟨rfl, -⟩ | ⟨ep, p, ms, -, -, -, -, -, ⟨-, rfl⟩ | ⟨-, rfl⟩⟩ := processRouteRemove_cases h
  · exact ⟨rfl, rfl⟩
  · exact ⟨rfl, rfl⟩
  · obtain ⟨t, dg, hreap⟩ := reap_frame codec (((({ r with
      poolResources := r.poolResources.erase ru.name }).removeMonitors ru.name).removeRule
        ru).removeVirtual
        ru.name) ru.name
    rw [hreap]
    exact ⟨rfl, rfl⟩

theorem bindPlan_frame (r : F5Router) (planID : Str) (rs : RouteResources) :
    ∃ monitors rs', r.bindPlan planID rs = ({ r with monitorResources := monitors }, rs') := by
  rw [F5Router.bindPlan]
  split
  · exact ⟨_, _, rfl⟩
  · exact ⟨_, _, rfl⟩

theorem processRouteBind_sameBindings {r : F5Router} (h : r.processRouteBind ru = some r') :
    r.SameBindings r' := by
  rw [F5Router.processRouteBind] at h
  split at h
  · next p v hp hv =>
    obtain ⟨⟨gone, r₁⟩, hrem, h⟩ := Option.bind_eq_some_iff.mp h
    obtain ⟨pools, rfl⟩ := removePool_frame hrem
    obtain ⟨monitors, rs, hplan⟩ :=
      bindPlan_frame (F5Router.removeVirtual { r with poolResources := pools } ru.name)
      ru.planID ⟨v, p, []⟩
    simp only [hplan] at h
    cases h
    exact ⟨rfl, rfl⟩
  · split at h
    all_goals
      cases h
      exact ⟨rfl, rfl⟩

theorem processRouteUnbind_sameBindings {r : F5Router} (h : r.processRouteUnbind ru = some r') :
    r.SameBindings r' := by
  rw [F5Router.processRouteUnbind] at h
  split at h
  · obtain ⟨⟨gone, r₁⟩, hrem, h⟩ := Option.bind_eq_some_iff.mp h
    obtain ⟨pools, rfl⟩ := removePool_frame hrem
    obtain ⟨first, -, h⟩ := Option.bind_eq_some_iff.mp h
    split at h
    all_goals
      cases h
      exact ⟨rfl, rfl⟩
  · cases h
    exact ⟨rfl, rfl⟩

theorem processTCPRouteRemove_sameBindings {r : F5Router}
    (h : r.processTCPRouteRemove tu = some r') :
    r.SameBindings r' := by
  rw [F5Router.processTCPRouteRemove] at h
  split at h
  · cases h
    exact ⟨rfl, rfl⟩
  · obtain ⟨⟨gone, r₁⟩, hrem, h⟩ := Option.bind_eq_some_iff.mp h
    obtain ⟨pools, rfl⟩ := removePool_frame hrem
    cases gone
    all_goals
      cases h
      exact ⟨rfl, rfl⟩

theorem handle_sameBindings {r : F5Router} (h : r.handle codec item = some r') :
    r.SameBindings r' := by
  cases item with
  | http ru =>
    simp only [F5Router.handle] at h
    split at h
    · exact processRouteAdd_sameBindings h
    · exact processRouteRemove_sameBindings h
    · exact processRouteBind_sameBindings h
    · exact processRouteUnbind_sameBindings h
  | tcp tu =>
    simp only [F5Router.handle] at h
    split at h
    · cases h
      rw [F5Router.processTCPRouteAdd]
      split <;> exact ⟨rfl, rfl⟩
    · exact processTCPRouteRemove_sameBindings h
    all_goals
      cases h
      exact ⟨rfl, rfl⟩

theorem Controller.turn_sameBindings {k : Controller} (h : k.turn codec o = some k') :
    k.router.SameBindings k'.router := by
  obtain ⟨r, q, phase, w⟩ := k
  cases phase with
  | waiting =>
    obtain ⟨⟨item, q⟩, -, rfl⟩ := Option.map_eq_some_iff.mp h
    exact ⟨rfl, rfl⟩
  | got item =>
    obtain ⟨r', hr, rfl⟩ := Option.map_eq_some_iff.mp h
    exact handle_sameBindings hr
  | draining item =>
    obtain ⟨r', hsync, h⟩ := Option.bind_eq_some_iff.mp h
    obtain ⟨sections, -, h⟩ := Option.bind_eq_some_iff.mp h
    cases h
    obtain ⟨dg, t, done, rfl⟩ := firstSync_spec hsync
    exact ⟨rfl, rfl⟩
  | handled | rendered | finished =>
    cases h
    exact ⟨rfl, rfl⟩

-- ---------------------------------------------------------------------------
-- The start of Run beside the requests
-- ---------------------------------------------------------------------------

/-- Where `Run` is: before the fetch of the broker data group, in the loop of
`processBrokerDataGroup`, or past the start of the worker. -/
inductive RunPhase
  | starting
  | recovering (planIDs : GoMap Str Str) (built : GoMap Str Str)
    (rest : List InternalDataGroupRecord)
  | running

instance : ∀ phase : RunPhase, Decidable (phase = .running)
  | .running => isTrue rfl
  | .starting => isFalse fun h => RunPhase.noConfusion h
  | .recovering _ _ _ => isFalse fun h => RunPhase.noConfusion h

def MappingChange.bindID : MappingChange → Str
  | .add bindID _ _ | .remove bindID => bindID

/-- `inFlight` has the requests that passed their checks and have not changed
the mapping yet, `accepted` the last change of every bind ID by a request
that succeeded. -/
structure Startup where
  controller : Controller
  phase : RunPhase
  inFlight : List (MappingChange × UpdateHTTP)
  accepted : GoMap Str MappingChange

inductive StartupEvent
  | bind (bindID : Str) (details : BindDetails)
  | unbind (bindID : Str)
  | respond (index session : Nat)
  | fetched (dg : Option InternalDataGroup) (o : Order)
  | record (session : Nat)
  | install
  | turn (o : Order)

namespace Startup

/-- A request whose checks failed has returned its error, or its panic was
caught by the server: it leaves no trace. -/
def enter (s : Startup) (change : MappingChange) : Option (Except Str UpdateHTTP) → Startup
  | some (.ok ru) => { s with inFlight := s.inFlight ++ [(change, ru)] }
  | some (.error _) | none => s

def accept (s : Startup) (change : MappingChange) (ru : UpdateHTTP) : Startup :=
  { s with
    controller :=
      { s.controller with router := s.controller.router.change change }.updateRoute (.http ru)
    accepted := s.accepted.insert change.bindID change }

def step (codec : Codec) (s : Startup) : StartupEvent → Option Startup
  | .bind bindID details =>
    some (s.enter (.add bindID (details.route.getD []) details.planID)
      (s.controller.router.bindUpdate details))
  | .unbind bindID => some (s.enter (.remove bindID) (s.controller.router.unbindUpdate bindID))
  | .respond index session =>
    (s.inFlight[index]?).map fun (change, ru) =>
      { s with inFlight := s.inFlight.eraseIdx index }.accept change (ru.withSession session)
  | .fetched dg o =>
    match s.phase with
    | .starting =>
      let phase := match s.controller.router.c.brokerMode, dg with
        | true, some dg =>
          .recovering (planNamePlanIDMap o s.controller.router.plansMap) ∅ dg.records
        | _, _ => .running
      some { s with phase := phase }
    | _ => none
  | .record session =>
    match s.phase with
    | .recovering planIDs built (record :: rest) =>
      (recoverRecord planIDs record).map fun update =>
        { s with
          controller := update.elim s.controller fun ru =>
            s.controller.updateRoute (.http (ru.withSession session))
          phase := .recovering planIDs (built.insert record.name record.data) rest }
    | _ => none
  | .install =>
    match s.phase with
    | .recovering _ built [] =>
      let router := { s.controller.router with bindIDRouteURIPlanNameMap := built }
      some { s with controller := { s.controller with router := router }, phase := .running }
    | _ => none
  | .turn o =>
    match s.phase with
    | .running => (s.controller.turn codec o).map fun k => { s with controller := k }
    | _ => none

def start (r : F5Router) : Startup := ⟨.start r, .starting, [], ∅⟩

def expected (r : F5Router) : MappingChange → Option Str
  | .add _ routeURI planID => some (routeURI ++ "|".toList ++ r.planName planID)
  | .remove _ => none

/-- Every accepted Bind that was not undone is in the mapping with its route,
and no bind ID is there whose Unbind was accepted last. -/
def Kept (s : Startup) : Prop :=
  ∀ bindID change, s.accepted.lookup bindID = some change →
    s.controller.router.bindIDRouteURIPlanNameMap.lookup bindID =
      expected s.controller.router change

def fetchedRecords (records : List InternalDataGroupRecord) :
    StartupEvent → List InternalDataGroupRecord
  | .fetched (some dg) _ => dg.records
  | _ => records

def recordOf (records : List InternalDataGroupRecord) (bindID : Str) :
    Option InternalDataGroupRecord :=
  records.reverse.find? (·.name = bindID)

/-- At the installation the records that were fetched agree with the requests
accepted so far: the last record of a bind ID bound last has its route and the
name of its plan, and a bind ID unbound last has none. -/
def Agrees (s : Startup × List InternalDataGroupRecord) : StartupEvent → Prop
  | .install => ∀ bindID change, s.1.accepted.lookup bindID = some change →
      match change with
      | .add _ routeURI planID => recordOf s.2 bindID =
          some ⟨bindID, routeURI ++ "|".toList ++ s.1.controller.router.planName planID⟩
      | .remove _ => recordOf s.2 bindID = none
  | _ => True

-- ---------------------------------------------------------------------------
-- Recovery in one go
-- ---------------------------------------------------------------------------

theorem run_record (s : Startup) (built : GoMap Str Str) :
    run (step codec) { s with phase := .recovering planIDs built records }
      (List.replicate records.length (.record 0)) =
      (records.mapM (recoverRecord planIDs)).map fun updates =>
        { s with
          controller :=
            updates.reduceOption.foldl (fun k ru => k.updateRoute (.http ru)) s.controller
          phase :=
            .recovering planIDs (records.foldl (fun m record => m.insert record.name record.data)
              built) [] } := by
  induction records generalizing s built with
  | nil => rfl
  | cons record records ih =>
    rw [List.length_cons, List.replicate_succ, run_cons, List.mapM_cons]
    cases hrec : recoverRecord planIDs record with
    | none => simp [step, hrec]
    | some update =>
      simp only [step, hrec, Option.map_some, Option.bind_some, bind]
      let s' : Startup :=
        { s with controller := update.elim s.controller fun ru =>
            s.controller.updateRoute (.http (ru.withSession 0)) }
      refine (ih s' _).trans ?_
      cases records.mapM (recoverRecord planIDs) with
      | none => rfl
      | some updates =>
        cases update with
        | none => rfl
        | some ru =>
          obtain ⟨routeURI, planID, -, hnew⟩ := recoverRecord_eq_update.mp hrec
          simp only [s', Option.elim_some, newUpdate_withSession hnew]
          rfl

theorem updateRoute_router (updates : List UpdateHTTP) (k : Controller) (r : F5Router) :
    { updates.foldl (fun k ru => k.updateRoute (.http ru)) k with router := r } =
      updates.foldl (fun k ru => k.updateRoute (.http ru)) { k with router := r } := by
  induction updates generalizing k with
  | nil => rfl
  | cons ru updates ih => exact ih _

theorem updateRoute_same (updates : List UpdateHTTP) (k : Controller) :
    (updates.foldl (fun k ru => k.updateRoute (.http ru)) k).router = k.router := by
  induction updates generalizing k with
  | nil => rfl
  | cons ru updates ih => exact ih _

/-- Without a request in between, the rounds and the installation are
`processBrokerDataGroup`, before the sessions are told. -/
theorem run_recovery (s : Startup) (o : Order) (dg : InternalDataGroup) :
    run (step codec)
        { s with
          phase := .recovering (planNamePlanIDMap o s.controller.router.plansMap) ∅ dg.records }
        (List.replicate dg.records.length (.record 0) ++ [.install]) =
      (s.controller.router.processBrokerDataGroup o dg).map fun (r, updates) =>
        { s with
          controller :=
            updates.foldl (fun k ru => k.updateRoute (.http ru)) { s.controller with router := r }
          phase := .running } := by
  rw [run_append, run_record, F5Router.processBrokerDataGroup]
  cases dg.records.mapM (recoverRecord (planNamePlanIDMap o s.controller.router.plansMap)) with
  | none => rfl
  | some updates =>
    simp only [Option.map_some, Option.bind_some, bind, run_cons, step, run_nil, updateRoute_router,
      updateRoute_same]
    rfl

-- ---------------------------------------------------------------------------
-- Runs
-- ---------------------------------------------------------------------------

theorem Kept.congr {s t : Startup} (h : s.Kept) (haccepted : t.accepted = s.accepted)
    (hsame : s.controller.router.SameBindings t.controller.router) : t.Kept := by
  intro bindID change hlook
  have hplanName : ∀ planID, t.controller.router.planName planID =
      s.controller.router.planName planID := fun planID => by
    rw [F5Router.planName, F5Router.planName, hsame.plans]
  rw [hsame.bindings, h bindID change (haccepted ▸ hlook)]
  cases change <;> simp [expected, hplanName]

theorem Kept.accept (h : s.Kept) (change : MappingChange) (ru : UpdateHTTP) :
    (accept s change ru).Kept := by
  intro bindID change' hlook
  simp only [Startup.accept, GoMap.lookup_insert_ite] at hlook
  split at hlook
  · next heq =>
    cases hlook
    subst heq
    cases change with
    | add bindID routeURI planID => exact AList.lookup_insert _
    | remove bindID => exact AList.lookup_erase _ _
  · next hne =>
    have hold := h bindID change' hlook
    cases change with
    | add bindID' routeURI planID => exact (AList.lookup_insert_ne hne).trans hold
    | remove bindID' => exact (AList.lookup_erase_ne hne).trans hold

theorem enter_same (s : Startup) (change : MappingChange) (res : Option (Except Str UpdateHTTP)) :
    (s.enter change res).controller = s.controller ∧ (s.enter change res).accepted = s.accepted ∧
      (s.enter change res).phase = s.phase := by
  cases res with
  | none => exact ⟨rfl, rfl, rfl⟩
  | some res => cases res <;> exact ⟨rfl, rfl, rfl⟩

/-- Only the installation of the recovered map can lose a binding. -/
theorem Kept.step (h : s.Kept) (he : e ≠ .install) (hstep : step codec s e = some t) : t.Kept := by
  cases e with
  | bind bindID details =>
    cases hstep
    obtain ⟨hk, ha, -⟩ := s.enter_same (.add bindID (details.route.getD []) details.planID)
      (s.controller.router.bindUpdate details)
    exact h.congr ha (by rw [hk]; exact ⟨rfl, rfl⟩)
  | unbind bindID =>
    cases hstep
    obtain ⟨hk, ha, -⟩ := s.enter_same (.remove bindID) (s.controller.router.unbindUpdate bindID)
    exact h.congr ha (by rw [hk]; exact ⟨rfl, rfl⟩)
  | respond index session =>
    obtain ⟨⟨change, ru⟩, -, rfl⟩ := Option.map_eq_some_iff.mp hstep
    exact (h.congr rfl ⟨rfl, rfl⟩ : Kept { s with inFlight := s.inFlight.eraseIdx index }).accept
      change (ru.withSession session)
  | fetched dg o =>
    simp only [Startup.step] at hstep
    split at hstep
    · cases hstep
      exact h.congr rfl ⟨rfl, rfl⟩
    · cases hstep
  | record session =>
    simp only [Startup.step] at hstep
    split at hstep
    · obtain ⟨update, -, rfl⟩ := Option.map_eq_some_iff.mp hstep
      cases update <;> exact h.congr rfl ⟨rfl, rfl⟩
    · cases hstep
  | install => exact absurd rfl he
  | turn o =>
    simp only [Startup.step] at hstep
    split at hstep
    · obtain ⟨k, hturn, rfl⟩ := Option.map_eq_some_iff.mp hstep
      exact h.congr rfl (Controller.turn_sameBindings hturn)
    · cases hstep

theorem step_running (h : s.phase = .running) (hstep : step codec s e = some t) :
    t.phase = .running := by
  cases e with
  | bind bindID details =>
    cases hstep
    exact (s.enter_same _ _).2.2.trans h
  | unbind bindID =>
    cases hstep
    exact (s.enter_same _ _).2.2.trans h
  | respond index session =>
    obtain ⟨⟨change, ru⟩, -, rfl⟩ := Option.map_eq_some_iff.mp hstep
    exact h
  | turn o =>
    simp only [step, h] at hstep
    obtain ⟨k, -, rfl⟩ := Option.map_eq_some_iff.mp hstep
    rfl
  | fetched | record | install =>
    simp only [step, h] at hstep
    cases hstep

theorem install_cases (hstep : step codec s .install = some t) :
    ∃ planIDs built, s.phase = .recovering planIDs built [] ∧ t.phase = .running ∧
      (t.Kept ↔ ∀ bindID change, s.accepted.lookup bindID = some change →
        built.lookup bindID = expected s.controller.router change) := by
  simp only [step] at hstep
  split at hstep
  · next planIDs built hphase =>
    cases hstep
    refine ⟨planIDs, built, hphase, rfl, ?_⟩
    have hexpected : ∀ change, expected { s.controller.router with
        bindIDRouteURIPlanNameMap := built } change =
        expected s.controller.router change := fun change => by cases change <;> rfl
    simp only [Kept, hexpected]
  · cases hstep

def Recovers (s : Startup) (records : List InternalDataGroupRecord) : Prop :=
  ∀ planIDs built rest, s.phase = .recovering planIDs built rest →
    ∃ read, records = read ++ rest ∧
      ∀ bindID, built.lookup bindID = (recordOf read bindID).map InternalDataGroupRecord.data

theorem recordOf_concat (records : List InternalDataGroupRecord) (record : InternalDataGroupRecord)
    (bindID : Str) :
    recordOf (records ++ [record]) bindID =
      if bindID = record.name then some record else recordOf records bindID := by
  rw [recordOf, List.reverse_concat, List.find?_cons]
  by_cases h : record.name = bindID
  · simp [h]
  · simp [h, Ne.symm h, recordOf]

theorem recordOf_name (h : recordOf records bindID = some record) : record.name = bindID := by
  simpa using List.find?_some h

theorem Recovers.congr (h : Recovers s records) (hphase : t.phase = s.phase) :
    Recovers t records := by
  intro planIDs built rest ht
  exact h planIDs built rest (hphase ▸ ht)

theorem Recovers.step (h : Recovers s records) (hstep : step codec s e = some t) :
    Recovers t (fetchedRecords records e) := by
  cases e with
  | bind bindID details =>
    cases hstep
    exact h.congr (s.enter_same _ _).2.2
  | unbind bindID =>
    cases hstep
    exact h.congr (s.enter_same _ _).2.2
  | respond index session =>
    obtain ⟨⟨change, ru⟩, -, rfl⟩ := Option.map_eq_some_iff.mp hstep
    exact h.congr rfl
  | fetched dg o =>
    simp only [Startup.step] at hstep
    split at hstep
    · cases hstep
      intro planIDs built rest hphase
      split at hphase
      · cases hphase
        exact ⟨[], rfl, fun _ => rfl⟩
      · cases hphase
    · cases hstep
  | record session =>
    simp only [Startup.step] at hstep
    split at hstep
    · next planIDs built record rest hphase =>
      obtain ⟨update, -, rfl⟩ := Option.map_eq_some_iff.mp hstep
      obtain ⟨read, hrecords, hbuilt⟩ := h _ _ _ hphase
      rintro planIDs' built' rest' ⟨⟩
      refine ⟨read ++ [record], by simp [fetchedRecords, hrecords], fun bindID => ?_⟩
      rw [GoMap.lookup_insert_ite, recordOf_concat, hbuilt]
      split <;> rfl
    · cases hstep
  | install =>
    obtain ⟨planIDs, built, -, hrunning, -⟩ := install_cases hstep
    intro planIDs' built' rest' hphase
    cases hrunning.symm.trans hphase
  | turn o =>
    simp only [Startup.step] at hstep
    split at hstep
    · next hrunning =>
      obtain ⟨k, -, rfl⟩ := Option.map_eq_some_iff.mp hstep
      exact h.congr rfl
    · cases hstep

theorem Recovers.install (h : Recovers s records) (hstep : Startup.step codec s .install = some t) :
    t.phase = .running ∧ (t.Kept ↔ Agrees (s, records) .install) := by
  obtain ⟨planIDs, built, hphase, hrunning, hkept⟩ := install_cases hstep
  obtain ⟨read, hrecords, hbuilt⟩ := h _ _ _ hphase
  rw [List.append_nil] at hrecords
  refine ⟨hrunning, hkept.trans ?_⟩
  refine forall_congr' fun bindID => forall_congr' fun change => imp_congr_right fun _ => ?_
  rw [hbuilt, ← hrecords]
  cases change with
  | remove => exact Option.map_eq_none_iff
  | add _ routeURI planID =>
    simp only [expected, Option.map_eq_some_iff]
    constructor
    · rintro ⟨⟨name, data⟩, hfound, rfl⟩
      obtain rfl : name = bindID := recordOf_name hfound
      exact hfound
    · exact fun hfound => ⟨_, hfound, rfl⟩

end Startup

/-- Accepted requests are kept in every state after the start of the worker
exactly when the records that were fetched agree with those accepted before
their map is installed. -/
theorem requests_kept_iff (codec : Codec) (r : F5Router) (es : List StartupEvent) :
    (∀ fs, fs <+: es → ∀ t, run (Startup.step codec) (.start r) fs = some t →
        t.phase = .running → t.Kept) ↔
      Along (ghost (Startup.step codec) Startup.fetchedRecords) Startup.Agrees
        (.start r, []) es := by
  rw [← forall_prefix_iff_along
    (J := fun s => (s.1.phase ≠ .running → s.1.Kept) ∧ s.1.Recovers s.2)
    (P := fun s => s.1.phase = .running → s.1.Kept)]
  · refine forall_congr' fun fs => imp_congr_right fun _ => ?_
    simp only [run_ghost, Option.map_eq_some_iff, Prod.forall, Prod.mk.injEq]
    constructor
    · rintro h t records ⟨t', ht', rfl, rfl⟩
      exact h t' ht'
    · exact fun h t ht => h t _ ⟨t, ht, rfl, rfl⟩
  · rintro ⟨s, records⟩ u e - ⟨hJ, hrecovers⟩ hghost
    obtain ⟨t, hstep, rfl⟩ := Option.map_eq_some_iff.mp hghost
    refine ⟨fun hphase => ?_, hrecovers.step hstep⟩
    have hs : s.phase ≠ .running := fun hrunning => hphase (Startup.step_running hrunning hstep)
    refine (hJ hs).step ?_ hstep
    rintro rfl
    exact hphase (hrecovers.install hstep).1
  · rintro ⟨s, records⟩ u e - ⟨hJ, hrecovers⟩ hP hghost
    obtain ⟨t, hstep, rfl⟩ := Option.map_eq_some_iff.mp hghost
    have hkept : s.Kept := Classical.byCases hP hJ
    by_cases he : e = .install
    · subst he
      obtain ⟨hrunning, hiff⟩ := hrecovers.install hstep
      rw [← hiff]
      exact ⟨fun h => h hrunning, fun h _ => h⟩
    · refine iff_of_true (fun _ => hkept.step he hstep) ?_
      cases e with
      | install => exact absurd rfl he
      | _ => trivial
  · refine ⟨fun _ bindID change hlook => ?_, fun planIDs built rest hphase => ?_⟩
    · cases hlook
    · cases hphase
  · intro hphase
    cases hphase

namespace Sample

def earlyBind : List StartupEvent :=
  [.bind "bind".toList ⟨"ratio".toList, some "*.a".toList⟩, .respond 0 1,
    .fetched (some (newInternalDataGroup brokerDataGroupName)) .stored, .install]

end Sample

theorem early_bind_lost :
    ∃ r ∈ boot jsonCodec Sample.brokerConfig Sample.plans none,
      ∃ s ∈ run (Startup.step jsonCodec) (.start r) Sample.earlyBind,
        s.phase = .running ∧
        s.accepted.lookup "bind".toList = some (.add "bind".toList "*.a".toList "ratio".toList) ∧
        s.controller.router.bindIDRouteURIPlanNameMap.lookup "bind".toList = none ∧ ¬ s.Kept := by
  have hrun : ∃ r ∈ boot jsonCodec Sample.brokerConfig Sample.plans none,
      ∃ s ∈ run (Startup.step jsonCodec) (.start r) Sample.earlyBind,
        s.phase = .running ∧
        s.accepted.lookup "bind".toList = some (.add "bind".toList "*.a".toList "ratio".toList) ∧
        s.controller.router.bindIDRouteURIPlanNameMap.lookup "bind".toList = none := by
    decide +kernel
  obtain ⟨r, hboot, s, hrun, hrunning, haccepted, hlost⟩ := hrun
  refine ⟨r, hboot, s, hrun, hrunning, haccepted, hlost, fun hkept => ?_⟩
  have hfound := hkept _ _ haccepted
  rw [hlost] at hfound
  cases hfound

end BigipCtlr
