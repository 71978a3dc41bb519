import BigipCtlr.F5Router.Router
import BigipCtlr.F5Router.UpdateLaws

/-!
# Bindings

The mapping of bind IDs to routes and plans, which the broker changes, how it
is written to a data group and how it is recovered from one.
-/

namespace BigipCtlr

open Go

namespace F5Router

def verifyPlanExists (r : F5Router) (planID : Str) : Except Str Unit :=
  if planID = [] then .error "planID not included".toList
  else if planID ∈ r.plansMap then .ok ()
  else .error ("plan for planID: ".toList ++ planID ++ " not found".toList)

def planName (r : F5Router) (planID : Str) : Str := (r.plansMap.lookup planID).elim [] Plan.name

def addBindIDRouteURIPlanNameMapping (r : F5Router) (bindID routeURI planID : Str) : F5Router :=
  { r with
    bindIDRouteURIPlanNameMap := r.bindIDRouteURIPlanNameMap.insert bindID
      (routeURI ++ "|".toList ++ r.planName planID) }

def removeBindIDRouteURIPlanNameMapping (r : F5Router) (bindID : Str) : F5Router :=
  { r with bindIDRouteURIPlanNameMap := r.bindIDRouteURIPlanNameMap.erase bindID }

def getRouteURIFromBindID (r : F5Router) (bindID : Str) : Str :=
  (split ((r.bindIDRouteURIPlanNameMap.lookup bindID).getD []) '|').headD []

end F5Router

inductive MappingChange
  | add (bindID routeURI planID : Str)
  | remove (bindID : Str)
  deriving DecidableEq

def F5Router.change (r : F5Router) : MappingChange → F5Router
  | .add bindID routeURI planID => r.addBindIDRouteURIPlanNameMapping bindID routeURI planID
  | .remove bindID => r.removeBindIDRouteURIPlanNameMapping bindID

-- ---------------------------------------------------------------------------
-- Recovery
-- ---------------------------------------------------------------------------

def InternalDataGroupRecord.routeURIAndPlanName (idgr : InternalDataGroupRecord) :
    Except Str (Str × Str) :=
  match split idgr.data '|' with
  | [routeURI, planName] =>
    if routeURI = [] ∨ planName = [] then
      .error ("Incorrect data missing routeURI: ".toList ++ routeURI ++
        " or planName: ".toList ++ planName)
    else .ok (routeURI, planName)
  | _ => .error ("Improperly formatted record: ".toList ++ idgr.data)

/-- `planNamePlanIDMap`: of the plans of one name the last that the loop visits
is found. -/
def planNamePlanIDMap (o : Order) (plans : GoMap Str Plan) : GoMap Str Str :=
  (plans.range o).foldl (fun m (_, plan) => m.insert plan.name plan.id) ∅

/-- One round of the loop in `processBrokerDataGroup`: the update for the queue,
if the record gives one. -/
def recoverRecord (planIDs : GoMap Str Str) (record : InternalDataGroupRecord) :
    Option (Option UpdateHTTP) :=
  match record.routeURIAndPlanName with
  | .error _ => some none
  | .ok (routeURI, planName) =>
    let foundPlanID := (planIDs.lookup planName).getD []
    if foundPlanID = [] then some none
    else (newUpdate .bind routeURI none foundPlanID).map Except.toOption

def InternalDataGroupRecord.Bound (planIDs : GoMap Str Str) (record : InternalDataGroupRecord)
    (routeURI planID : Str) : Prop :=
  ∃ planName, record.routeURIAndPlanName = .ok (routeURI, planName) ∧
    planIDs.lookup planName = some planID ∧
    planID ≠ []

theorem InternalDataGroupRecord.Bound.recoverRecord_eq (h : record.Bound planIDs routeURI planID) :
    recoverRecord planIDs record = (newUpdate .bind routeURI none planID).map Except.toOption := by
  obtain ⟨planName, hparse, hplan, hne⟩ := h
  simp [recoverRecord, hparse, hplan, hne]

theorem InternalDataGroupRecord.Bound.routeURI_ne {record : InternalDataGroupRecord}
    (h : record.Bound planIDs routeURI planID) : routeURI ≠ [] := by
  obtain ⟨planName, hparse, -⟩ := h
  simp only [InternalDataGroupRecord.routeURIAndPlanName] at hparse
  split at hparse
  · split at hparse
    · cases hparse
    · next hne =>
      cases hparse
      exact fun he => hne (.inl he)
  · cases hparse

theorem recoverRecord_cases (planIDs : GoMap Str Str) (record : InternalDataGroupRecord) :
    (∃ routeURI planID, record.Bound planIDs routeURI planID) ∨
      recoverRecord planIDs record = some none ∧
        ∀ routeURI planID, ¬ record.Bound planIDs routeURI planID := by
  by_cases h : ∃ routeURI planID, record.Bound planIDs routeURI planID
  · exact .inl h
  refine .inr ⟨?_, fun routeURI planID hb => h ⟨routeURI, planID, hb⟩⟩
  simp only [recoverRecord]
  split
  · rfl
  · next routeURI planName hparse =>
    refine if_pos ?_
    cases hplan : planIDs.lookup planName with
    | none => rfl
    | some planID =>
      by_contra hne
      exact h ⟨routeURI, planID, planName, hparse, hplan, hne⟩

theorem recoverRecord_eq_update :
    recoverRecord planIDs record = some (some ru) ↔
      ∃ routeURI planID, record.Bound planIDs routeURI planID ∧
        newUpdate .bind routeURI none planID = some (.ok ru) := by
  constructor
  · intro h
    obtain ⟨routeURI, planID, hb⟩ | ⟨hnone, -⟩ := recoverRecord_cases planIDs record
    · rw [hb.recoverRecord_eq] at h
      obtain ⟨res, hnew, hres⟩ := Option.map_eq_some_iff.mp h
      cases res with
      | error err => cases hres
      | ok ru' =>
        cases hres
        exact ⟨routeURI, planID, hb, hnew⟩
    · cases hnone.symm.trans h
  · rintro ⟨routeURI, planID, hb, hnew⟩
    rw [hb.recoverRecord_eq, hnew]
    rfl

/-- A record panics when its plan is there and its route has no name. -/
theorem recoverRecord_returns_iff :
    (recoverRecord planIDs record).isSome = true ↔
      ∀ routeURI planID, record.Bound planIDs routeURI planID →
        (makeObjectName (Uri.string routeURI)).isSome = true := by
  have hbound : ∀ routeURI planID, record.Bound planIDs routeURI planID →
      ((recoverRecord planIDs record).isSome = true ↔
        (makeObjectName (Uri.string routeURI)).isSome = true) := by
    intro routeURI planID hb
    rw [hb.recoverRecord_eq, Option.isSome_map, newUpdate_returns]
    exact or_iff_right hb.routeURI_ne
  obtain ⟨routeURI, planID, hb⟩ | ⟨hnone, hunbound⟩ := recoverRecord_cases planIDs record
  · exact ⟨fun h routeURI planID hb => (hbound routeURI planID hb).mp h,
      fun h => (hbound _ _ hb).mpr (h _ _ hb)⟩
  · simp [hnone, hunbound]

def recoveredMap (records : List InternalDataGroupRecord) : GoMap Str Str :=
  records.foldl (fun m record => m.insert record.name record.data) ∅

/-- `processBrokerDataGroup`, with what it submits to `UpdateRoute`. -/
def F5Router.processBrokerDataGroup (o : Order) (r : F5Router) (dg : InternalDataGroup) :
    Option (F5Router × List UpdateHTTP) := do
  let updates ← dg.records.mapM (recoverRecord (planNamePlanIDMap o r.plansMap))
  some ({ r with bindIDRouteURIPlanNameMap := recoveredMap dg.records }, updates.reduceOption)

def F5Router.brokerDataGroup (o : Order) (r : F5Router) : InternalDataGroup :=
  { newInternalDataGroup brokerDataGroupName with
    records := ((populateBrokerDataGroup o r.bindIDRouteURIPlanNameMap).range o).map Prod.snd }

theorem createResources_brokerDataGroup {r : F5Router} (h : r.createResources o = some pm)
    (hmode : r.c.brokerMode = true) :
    ∃ resources, pm.lookup r.c.partition = some resources ∧
      r.brokerDataGroup o ∈ resources.internalDataGroups := by
  obtain ⟨policies, -, h⟩ := Option.bind_eq_some_iff.mp h
  cases h
  refine ⟨_, AList.lookup_insert _, ?_⟩
  simp only [hmode, if_true, createInternalDataGroups, List.mem_map, Prod.exists]
  refine ⟨brokerDataGroupName, populateBrokerDataGroup o r.bindIDRouteURIPlanNameMap,
    GoMap.mem_range.mpr ?_, rfl⟩
  rw [AList.lookup_insert_ne (by decide), AList.lookup_insert]

theorem populateBrokerDataGroup_lookup (o : Order) (data : GoMap Str Str) (bindID : Str) :
    (populateBrokerDataGroup o data).lookup bindID = (data.lookup bindID).map fun v =>
      ⟨bindID, v⟩ := by
  let record (e : Str × Str) : InternalDataGroupRecord := ⟨e.1, e.2⟩
  cases hv : data.lookup bindID with
  | none =>
    refine GoMap.lookup_foldl_insert_of_ne Prod.fst record ∅ fun e he hkey => ?_
    have hsome := GoMap.mem_range.mp he
    rw [hkey, hv] at hsome
    cases hsome
  | some v =>
    obtain ⟨⟨k, w⟩, he, rfl, hlook⟩ := GoMap.lookup_foldl_insert_of_mem Prod.fst record ∅
      ⟨(bindID, v), GoMap.mem_range.mpr hv, rfl⟩
    cases (GoMap.mem_range.mp he).symm.trans hv
    exact hlook

theorem brokerDataGroup_records {r : F5Router} : record ∈ (r.brokerDataGroup o).records ↔
    r.bindIDRouteURIPlanNameMap.lookup record.name = some record.data := by
  simp only [F5Router.brokerDataGroup, GoMap.mem_range_values, populateBrokerDataGroup_lookup,
    Option.map_eq_some_iff]
  constructor
  · rintro ⟨bindID, v, hv, rfl⟩
    exact hv
  · intro h
    exact ⟨record.name, record.data, h, rfl⟩

theorem recoveredMap_lookup (r : F5Router) (o : Order) (bindID : Str) :
    (recoveredMap (r.brokerDataGroup o).records).lookup bindID =
      r.bindIDRouteURIPlanNameMap.lookup bindID := by
  cases hv : r.bindIDRouteURIPlanNameMap.lookup bindID with
  | none =>
    refine GoMap.lookup_foldl_insert_of_ne InternalDataGroupRecord.name
      InternalDataGroupRecord.data ∅
      fun record hrecord hkey => ?_
    have hsome := brokerDataGroup_records.mp hrecord
    rw [hkey, hv] at hsome
    cases hsome
  | some v =>
    obtain ⟨record, hrecord, rfl, hlook⟩ :=
      GoMap.lookup_foldl_insert_of_mem InternalDataGroupRecord.name
      InternalDataGroupRecord.data ∅ ⟨⟨bindID, v⟩,
        (brokerDataGroup_records (r := r) (o := o)).mpr hv, rfl⟩
    cases (brokerDataGroup_records.mp hrecord).symm.trans hv
    exact hlook

end BigipCtlr
