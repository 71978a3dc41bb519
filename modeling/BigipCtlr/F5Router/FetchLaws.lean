import BigipCtlr.F5Router.Fetch
import BigipCtlr.F5Router.Members
import BigipCtlr.F5Router.Rejection
import Mathlib.Data.List.ReduceOption

/-!
# Starting with any response

The start gets through a response unless that has a `null` where the code
follows a pointer. What it keeps of the internal data group can be decoded
again at any later time.
-/

namespace BigipCtlr

open Go Lib

-- ---------------------------------------------------------------------------
-- Reading through the pointers
-- ---------------------------------------------------------------------------

def fetchedRecords (data : Str) : List (Option InternalDataGroupRecord) :=
  match fetchExistingDataGroup data with
  | .ok (some dg) => dg.records
  | _ => []

/-- The value of `records` in an object: the last one, as each is read over the
ones before. -/
def recordsMember (members : List (Str × Json)) : Option Json :=
  (members.findRev? fun member => Json.foldKey member.1 = "records".toList).map Prod.snd

/-- The response has no `null` where a loop over the records follows a pointer:
it is none, and there is none among the records of an object that can be read. -/
structure NoNil (data : Str) : Prop where
  group : ¬ "was not found".toList <:+: data → Json.parse data ≠ some .null
  records : ¬ "was not found".toList <:+: data → Json.parse data = some (.object members) →
    unmarshalDataGroup (.object members) = .ok dg → recordsMember members = some (.array elements) →
    Json.null ∉ elements

theorem unmarshalRecord_eq_none : unmarshalRecord old j = .ok none ↔ j = .null := by
  cases j with
  | null => simp [unmarshalRecord]
  | object members =>
    rw [unmarshalRecord]
    cases members.foldlM unmarshalRecordField (old.getD ⟨[], []⟩) <;> simp [Except.map]
  | _ => simp [unmarshalRecord]

theorem unmarshalRecords_nil (h : unmarshalRecords old j = .ok slice) :
    none ∈ slice.elements ↔ ∃ elements, j = .array elements ∧ Json.null ∈ elements := by
  obtain ⟨rfl, hnil⟩ | ⟨js, rfl, hread⟩ := Json.readSlice_elements h
  · simp [hnil]
  have hnone : none ∈ slice.elements ↔
      (Except.ok none : Except FetchError _) ∈ slice.elements.map .ok := by simp
  rw [hnone, ← hread]
  simp only [List.mem_map, unmarshalRecord_eq_none, Prod.exists]
  constructor
  · rintro ⟨_, i, hmem, rfl⟩
    exact ⟨js, rfl, List.mem_of_getElem? (List.mk_mem_zipIdx_iff_getElem?.mp hmem)⟩
  · rintro ⟨_, hjs, hmem⟩
    cases hjs
    obtain ⟨i, hi⟩ := List.mem_iff_getElem?.mp hmem
    exact ⟨_, i, List.mk_mem_zipIdx_iff_getElem?.mpr hi, rfl⟩

theorem unmarshalMembers_nil (h : members.foldlM unmarshalDataGroupField ⟨name, ⟨[], 0⟩⟩ = .ok dg) :
    none ∈ dg.records ↔ ∃ elements, recordsMember members = some (.array elements) ∧
      Json.null ∈ elements := by
  induction members using List.reverseRecOn generalizing dg with
  | nil =>
    cases h
    simp [FetchedDataGroup.records, Json.Slice.elements, recordsMember]
  | append_singleton members member ih =>
    rw [List.foldlM_append] at h
    obtain ⟨dg', hdg, h⟩ := bind_ok h
    rw [List.foldlM_cons] at h
    obtain ⟨dg'', hfield, h⟩ := bind_ok h
    cases h
    have hlast : recordsMember (members ++ [member]) =
        if Json.foldKey member.1 = "records".toList then some member.2
          else recordsMember members := by
      rw [recordsMember, List.findRev?_eq_find?_reverse, List.reverse_concat,
        List.find?_cons, recordsMember, List.findRev?_eq_find?_reverse]
      split <;> simp_all
    rw [hlast]
    rw [unmarshalDataGroupField] at hfield
    split_ifs at hfield with hname hkey
    · obtain ⟨_, -, rfl⟩ := map_ok hfield
      have hrest := ih hdg
      rwa [if_neg (by rw [hname]; decide)]
    · obtain ⟨slice, hslice, rfl⟩ := map_ok hfield
      rw [if_pos hkey]
      simpa [FetchedDataGroup.records] using unmarshalRecords_nil hslice
    · cases hfield
      rw [if_neg hkey]
      exact ih hdg

theorem unmarshalDataGroup_eq_none : unmarshalDataGroup j = .ok none ↔ j = .null := by
  cases j with
  | null => simp [unmarshalDataGroup]
  | object members =>
    rw [unmarshalDataGroup]
    cases members.foldlM unmarshalDataGroupField ⟨[], ⟨[], 0⟩⟩ <;> simp [Except.map]
  | _ => simp [unmarshalDataGroup]

theorem unmarshalDataGroup_eq_some (h : unmarshalDataGroup j = .ok (some dg)) :
    ∃ members, j = .object members ∧
      (none ∈ dg.records ↔ ∃ elements, recordsMember members = some (.array elements) ∧
        Json.null ∈ elements) := by
  cases j with
  | object members =>
    obtain ⟨dg', hfold, hdg⟩ := map_ok h
    cases hdg
    exact ⟨members, rfl, unmarshalMembers_nil hfold⟩
  | _ => cases h

theorem fetchExistingDataGroup_eq_ok : fetchExistingDataGroup data = .ok dg ↔
    ¬ "was not found".toList <:+: data ∧ ∃ j, Json.parse data = some j ∧
      unmarshalDataGroup j = .ok dg := by
  have hdef : fetchExistingDataGroup data = if "was not found".toList <:+: data then .error _
      else _ := rfl
  rw [hdef]
  split_ifs with hfound
  · refine iff_of_false (fun h => ?_) fun h => h.1 hfound
    cases h
  · rw [and_iff_right hfound]
    cases Json.parse data <;> simp

theorem none_mem_fetchedRecords :
    none ∈ fetchedRecords data ↔ ∃ dg, fetchExistingDataGroup data = .ok (some dg) ∧
      none ∈ dg.records := by
  rw [fetchedRecords]
  split
  · next dg h => simp [h]
  · next hother =>
    refine ⟨fun h => (List.not_mem_nil h).elim, ?_⟩
    rintro ⟨dg, h, -⟩
    exact (hother dg h).elim

theorem noNil_iff_pointers :
    NoNil data ↔ fetchExistingDataGroup data ≠ .ok none ∧ none ∉ fetchedRecords data := by
  constructor
  · rintro ⟨hgroup, hrecords⟩
    refine ⟨fun h => ?_, fun hmem => ?_⟩
    · obtain ⟨hfound, j, hj, hnull⟩ := fetchExistingDataGroup_eq_ok.mp h
      exact hgroup hfound (unmarshalDataGroup_eq_none.mp hnull ▸ hj)
    · obtain ⟨dg, h, hnone⟩ := none_mem_fetchedRecords.mp hmem
      obtain ⟨hfound, j, hj, hread⟩ := fetchExistingDataGroup_eq_ok.mp h
      obtain ⟨members, rfl, hiff⟩ := unmarshalDataGroup_eq_some hread
      obtain ⟨elements, hlast, hnull⟩ := hiff.mp hnone
      exact hrecords hfound hj hread hlast hnull
  · rintro ⟨hgroup, hrecords⟩
    refine ⟨fun hfound hj => ?_, fun {members dg elements} hfound hj hread hlast hnull => ?_⟩
    · exact hgroup (fetchExistingDataGroup_eq_ok.mpr ⟨hfound, _, hj, rfl⟩)
    · have h := fetchExistingDataGroup_eq_ok.mpr ⟨hfound, _, hj, hread⟩
      cases dg with
      | none => cases unmarshalDataGroup_eq_none.mp hread
      | some dg =>
        obtain ⟨_, hobject, hiff⟩ := unmarshalDataGroup_eq_some hread
        cases hobject
        exact hrecords (none_mem_fetchedRecords.mpr ⟨dg, h, hiff.mpr ⟨elements, hlast, hnull⟩⟩)

inductive Fetched (data : Str) : Option InternalDataGroup → Prop
  | failed : fetchExistingDataGroup data = .error err → Fetched data none
  | found : fetchExistingDataGroup data = .ok (some dg) → dg.deref = some g → Fetched data (some g)

theorem FetchedDataGroup.deref_eq_some {dg : FetchedDataGroup} (h : dg.deref = some g) :
    dg.records = g.records.map some := by
  obtain ⟨records, hrecords, h⟩ := Option.bind_eq_some_iff.mp h
  cases h
  simpa using mapM_eq_some.mp hrecords

theorem Fetched.mem_records (h : Fetched data dg) :
    some record ∈ fetchedRecords data ↔ ∃ g ∈ dg, record ∈ g.records := by
  cases h with
  | failed h => simp [fetchedRecords, h]
  | found h hderef => simp [fetchedRecords, h, FetchedDataGroup.deref_eq_some hderef]

theorem noNil_iff : NoNil data ↔ ∃ dg, Fetched data dg := by
  rw [noNil_iff_pointers]
  constructor
  · rintro ⟨hgroup, hrecords⟩
    cases h : fetchExistingDataGroup data with
    | error err => exact ⟨none, .failed h⟩
    | ok dg =>
      cases dg with
      | none => exact absurd h hgroup
      | some dg =>
        simp only [fetchedRecords, h] at hrecords
        have hread : (dg.records.mapM id).isSome = true :=
          mapM_isSome_iff.mpr fun x hx => Option.isSome_iff_ne_none.mpr fun hnone =>
            hrecords (hnone ▸ hx)
        obtain ⟨records, hread⟩ := Option.isSome_iff_exists.mp hread
        exact ⟨some ⟨dg.name, records⟩, .found h (by simp [FetchedDataGroup.deref, hread])⟩
  · rintro ⟨dg, hf⟩
    refine ⟨fun hnil => ?_, fun hnone => ?_⟩
    · cases hf with
      | failed h => cases h.symm.trans hnil
      | found h => cases h.symm.trans hnil
    · cases hf with
      | failed h => simp [fetchedRecords, h] at hnone
      | found h hderef => simp [fetchedRecords, h, FetchedDataGroup.deref_eq_some hderef] at hnone

/-- A start that goes on with what was fetched returns unless it meets a nil
pointer or a record it cannot take. -/
theorem fetched_returns_iff {k : Option InternalDataGroup → Option α}
    {Q : InternalDataGroupRecord → Prop}
    (hk : ∀ dg, (k dg).isSome = true ↔ ∀ g ∈ dg, ∀ record ∈ g.records, Q record) :
    (∃ dg a, Fetched data dg ∧ k dg = some a) ↔
      NoNil data ∧ ∀ record, some record ∈ fetchedRecords data → Q record := by
  constructor
  · rintro ⟨dg, a, hf, h⟩
    refine ⟨noNil_iff.mpr ⟨dg, hf⟩, fun record hrec => ?_⟩
    obtain ⟨g, hg, hmem⟩ := hf.mem_records.mp hrec
    exact (hk dg).mp (Option.isSome_iff_exists.mpr ⟨a, h⟩) g hg record hmem
  · rintro ⟨hnil, hQ⟩
    obtain ⟨dg, hf⟩ := noNil_iff.mp hnil
    have hreturns := (hk dg).mpr fun g hg record hmem =>
      hQ record (hf.mem_records.mpr ⟨g, hg, hmem⟩)
    obtain ⟨a, h⟩ := Option.isSome_iff_exists.mp hreturns
    exact ⟨dg, a, hf, h⟩

theorem fetched_eq_some (k : Option InternalDataGroup → Option α) :
    (match fetchExistingDataGroup data with
      | .error _ => k none
      | .ok dg => do
        let dg ← dg
        let dg ← dg.deref
        k (some dg)) = some a ↔ ∃ dg, Fetched data dg ∧ k dg = some a := by
  constructor
  · intro h
    split at h
    · next err hf => exact ⟨none, .failed hf, h⟩
    · next hf =>
      simp only [bind, Option.bind_eq_some_iff] at h
      obtain ⟨dg, rfl, g, hderef, h⟩ := h
      exact ⟨some g, .found hf hderef, h⟩
  · rintro ⟨dg, hf, h⟩
    cases hf with
    | failed hf => simpa only [hf] using h
    | found hf hderef => simpa only [hf, hderef, bind, Option.bind_some] using h

-- ---------------------------------------------------------------------------
-- The internal data group
-- ---------------------------------------------------------------------------

section
variable {r : F5Router}

theorem runCached_eq_some :
    r.runCached codec data = some r' ↔ ∃ dg, Fetched data dg ∧ r.start codec dg = some r' :=
  fetched_eq_some (r.start codec)

/-- What is kept of the records: those that decode to an address of the range,
and no other. They are good for the rest of the run. -/
structure F5Router.Recovers (codec : Codec) (records : List (Option InternalDataGroupRecord))
    (r : F5Router) : Prop where
  used : ∀ va : VirtualAddress, va.string ∈ r.tier2VSInfo.usedPorts ↔
    ∃ record, some record ∈ records ∧ record.Usable codec r.tier2VSInfo.ipNet va
  kept : ∀ va : VirtualAddress, va.string ∈ r.tier2VSInfo.usedPorts →
    ∃ record, some record ∈ records ∧ record.Usable codec r.tier2VSInfo.ipNet va ∧
      record.name ∈ r.internalDataGroup
  record : ∀ n record, r.internalDataGroup.lookup n = some record →
    record.name = n ∧ some record ∈ records ∧ ∃ va, record.Usable codec r.tier2VSInfo.ipNet va
  later : ∀ es r', run (F5Router.step codec) r es = some r' →
    (∀ vs : Virtual, vs.virtualServerName ∈ r'.internalDataGroup →
        ∃ r₁ vs', r'.assignVSPort codec vs = some (r₁, .ok vs')) ∧
      ∀ o, ∃ r₁, r'.truncateInternalDataGroup codec o = some r₁

theorem runCached_recovers (hnew : newF5Router c = .ok r₀)
    (h : (r₀.addPlans plans).runCached codec data = some r) :
    r.Recovers codec (fetchedRecords data) := by
  obtain ⟨dg, hf, hstart⟩ := runCached_eq_some.mp h
  have hboot : boot codec c plans dg = some r := by
    simp only [boot, hnew]
    exact hstart
  obtain ⟨r₁, hfresh, -, hstart⟩ := boot_spec hboot
  obtain ⟨hused, hkept, hrecord⟩ := start_records hfresh hstart
  refine ⟨fun va => ?_, fun va hva => ?_, fun n record hn => ?_, fun es r' hrun => ?_⟩
  · rw [hused]
    simp only [hf.mem_records]
    constructor
    · rintro ⟨g, hg, record, hrec, husable⟩
      exact ⟨record, ⟨g, hg, hrec⟩, husable⟩
    · rintro ⟨record, ⟨g, hg, hrec⟩, husable⟩
      exact ⟨g, hg, record, hrec, husable⟩
  · obtain ⟨g, hg, record, hrec, husable⟩ := hkept va hva
    exact ⟨record, hf.mem_records.mpr ⟨g, hg, hrec⟩, husable⟩
  · obtain ⟨hname, g, hg, hrec, husable⟩ := hrecord n record hn
    exact ⟨hname, hf.mem_records.mpr ⟨g, hg, hrec⟩, husable⟩
  · obtain ⟨-, hl⟩ := run_ledger hboot hrun
    refine ⟨fun vs hvs => assignVSPort_isOk hl vs fun hnot => absurd hvs hnot, fun o => ?_⟩
    obtain ⟨dg, used, drop, htrunc, -⟩ := truncateInternalDataGroup_spec hl o
    exact ⟨_, htrunc⟩

end

-- ---------------------------------------------------------------------------
-- The broker data group
-- ---------------------------------------------------------------------------

/-- What is made of the records of bindings: those of a plan that is there are
queued, and the mapping has the data of every record. -/
structure F5Router.RecoversBindings (o : Order) (r : F5Router)
    (records : List (Option InternalDataGroupRecord)) (r' : F5Router)
    (updates : List UpdateHTTP) : Prop where
  queued : ∀ ru, ru ∈ updates ↔ ∃ record routeURI planID, some record ∈ records ∧
    record.Bound (planNamePlanIDMap o r.plansMap) routeURI planID ∧
    newUpdate .bind routeURI none planID = some (.ok ru)
  mapped : ∀ record, some record ∈ records →
    ∃ other, some other ∈ records ∧ other.name = record.name ∧
    r'.bindIDRouteURIPlanNameMap.lookup record.name = some other.data
  rest : ∃ mapping, r' = { r with bindIDRouteURIPlanNameMap := mapping }

theorem runBroker_eq_some {r : F5Router} :
    r.runBroker o data = some (r', updates) ↔
      ∃ dg, Fetched data dg ∧ dg.elim (some (r, [])) (r.processBrokerDataGroup o) =
        some (r', updates) :=
  fetched_eq_some fun dg => dg.elim (some (r, [])) (r.processBrokerDataGroup o)

theorem processBrokerDataGroup_isSome_iff {r : F5Router} :
    (r.processBrokerDataGroup o dg).isSome = true ↔ ∀ record ∈ dg.records, ∀ routeURI planID,
      record.Bound (planNamePlanIDMap o r.plansMap) routeURI planID →
        (makeObjectName (Uri.string routeURI)).isSome = true := by
  have hall : (dg.records.mapM (recoverRecord (planNamePlanIDMap o r.plansMap))).isSome = true ↔
      _ := mapM_isSome_iff
  simp only [recoverRecord_returns_iff] at hall
  rw [← hall, F5Router.processBrokerDataGroup]
  cases dg.records.mapM (recoverRecord (planNamePlanIDMap o r.plansMap)) <;> rfl

theorem runBroker_recovers {r : F5Router} (h : r.runBroker o data = some (r', updates)) :
    r.RecoversBindings o (fetchedRecords data) r' updates := by
  obtain ⟨dg, hf, h⟩ := runBroker_eq_some.mp h
  cases dg with
  | none =>
    cases h
    refine ⟨?_, ?_, _, rfl⟩ <;> simp [hf.mem_records]
  | some g =>
    obtain ⟨us, hus, h⟩ := Option.bind_eq_some_iff.mp h
    cases h
    have hrecords : ∀ record, some record ∈ fetchedRecords data ↔ record ∈ g.records := by
      simp [hf.mem_records]
    refine ⟨fun ru => ?_, fun record hrec => ?_, _, rfl⟩
    · have hmem : some ru ∈ us ↔ ∃ record ∈ g.records,
          recoverRecord (planNamePlanIDMap o r.plansMap) record = some (some ru) := by
        rw [← List.mem_map, mapM_eq_some.mp hus]
        simp
      simp only [List.reduceOption_mem_iff, hmem, recoverRecord_eq_update, hrecords]
      constructor
      · rintro ⟨record, hrec, routeURI, planID, hrest⟩
        exact ⟨record, routeURI, planID, hrec, hrest⟩
      · rintro ⟨record, routeURI, planID, hrec, hrest⟩
        exact ⟨record, hrec, routeURI, planID, hrest⟩
    · obtain ⟨other, hother, hname, hlook⟩ :=
        GoMap.lookup_foldl_insert_of_mem InternalDataGroupRecord.name
        InternalDataGroupRecord.data ∅ ⟨record, (hrecords record).mp hrec, rfl⟩
      exact ⟨other, (hrecords other).mpr hother, hname, hlook⟩

-- ---------------------------------------------------------------------------
-- Any response
-- ---------------------------------------------------------------------------

/-- The start gets through a response exactly when that has no `null` for the
data group, a record or a virtual address and, in broker mode, no route without
a name. What it keeps is then what can be used. -/
theorem startup_survives_iff (hnew : newF5Router c = .ok r₀) (codec : Codec)
    (plans : GoMap Str Plan) (o : Order) (r : F5Router) (data : Str) :
    ((∃ r', (r₀.addPlans plans).runCached codec data = some r' ∧
      r'.Recovers codec (fetchedRecords data)) ↔
      NoNil data ∧ ∀ record, some record ∈ fetchedRecords data → codec.decode record.data ≠ .null) ∧
    ((∃ r' updates, r.runBroker o data = some (r', updates) ∧
        r.RecoversBindings o (fetchedRecords data) r' updates) ↔
      NoNil data ∧ ∀ record, some record ∈ fetchedRecords data → ∀ routeURI planID,
        record.Bound (planNamePlanIDMap o r.plansMap) routeURI planID →
          '.' ∈ Uri.string routeURI ∨ '*' ∈ Uri.string routeURI) := by
  constructor
  · rw [← fetched_returns_iff fun dg => start_isSome_iff (r := r₀.addPlans plans)]
    constructor
    · rintro ⟨r', h, -⟩
      obtain ⟨dg, hf, h⟩ := runCached_eq_some.mp h
      exact ⟨dg, r', hf, h⟩
    · rintro ⟨dg, r', hf, h⟩
      have hrun := runCached_eq_some.mpr ⟨dg, hf, h⟩
      exact ⟨r', hrun, runCached_recovers hnew hrun⟩
  · have hk : ∀ dg : Option InternalDataGroup,
        (dg.elim (some (r, [])) (r.processBrokerDataGroup o)).isSome = true ↔
          ∀ g ∈ dg, ∀ record ∈ g.records, ∀ routeURI planID,
            record.Bound (planNamePlanIDMap o r.plansMap) routeURI planID →
              '.' ∈ Uri.string routeURI ∨ '*' ∈ Uri.string routeURI := by
      intro dg
      cases dg with
      | none => simp
      | some g =>
        simp only [Option.elim_some, processBrokerDataGroup_isSome_iff, makeObjectName_isSome_iff]
        simp
    rw [← fetched_returns_iff hk]
    constructor
    · rintro ⟨r', updates, h, -⟩
      obtain ⟨dg, hf, h⟩ := runBroker_eq_some.mp h
      exact ⟨dg, (r', updates), hf, h⟩
    · rintro ⟨dg, ⟨r', updates⟩, hf, h⟩
      have hrun := runBroker_eq_some.mpr ⟨dg, hf, h⟩
      exact ⟨r', updates, hrun, runBroker_recovers hrun⟩

namespace Sample

def goldPlans : GoMap Str Plan :=
  (∅ : GoMap Str Plan).insert "1".toList { name := "gold".toList, id := "1".toList }

def response (data : Str) : Str :=
  "\x7b\"name\":\"dg\",\"records\":[\x7b\"name\":\"cf-a\",\"data\":\"".toList ++ data ++
    "\"\x7d]\x7d".toList

end Sample

theorem startup_survives_iff_sample :
    ∃ r₀, newF5Router Sample.config = .ok r₀ ∧
      (∃ r, (r₀.addPlans Sample.goldPlans).runCached jsonCodec
          (Sample.response (Sample.record "a".toList 10000).data) =
          some r ∧
        r.Recovers jsonCodec [some (Sample.record "a".toList 10000)]) ∧
      ∃ r updates, (r₀.addPlans Sample.goldPlans).runBroker .stored
          (Sample.response "*.a|gold".toList) =
          some (r, updates) ∧
        (r₀.addPlans Sample.goldPlans).RecoversBindings .stored
          [some ⟨"cf-a".toList, "*.a|gold".toList⟩] r updates := by
  have hok : (newF5Router Sample.config).toOption.isSome = true := by decide +kernel
  have hcached : fetchedRecords (Sample.response (Sample.record "a".toList 10000).data) =
      [some (Sample.record "a".toList 10000)] := by decide +kernel
  have hbroker : fetchedRecords (Sample.response "*.a|gold".toList) =
      [some ⟨"cf-a".toList, "*.a|gold".toList⟩] := by decide +kernel
  cases hnew : newF5Router Sample.config with
  | error err =>
    rw [hnew] at hok
    cases hok
  | ok r₀ =>
    have hall :=
      startup_survives_iff hnew jsonCodec Sample.goldPlans .stored (r₀.addPlans Sample.goldPlans)
    refine ⟨r₀, rfl, ?_, ?_⟩
    · rw [← hcached]
      refine (hall _).1.mpr ⟨noNil_iff_pointers.mpr ⟨by decide +kernel, by rw [hcached]; decide⟩,
        fun record hrec => ?_⟩
      rw [hcached, List.mem_singleton, Option.some.injEq] at hrec
      rw [hrec]
      decide +kernel
    · rw [← hbroker]
      refine (hall _).2.mpr ⟨noNil_iff_pointers.mpr ⟨by decide +kernel, by rw [hbroker]; decide⟩,
        ?_⟩
      rintro record hrec routeURI planID ⟨planName, hparse, -⟩
      rw [hbroker, List.mem_singleton, Option.some.injEq] at hrec
      rw [hrec] at hparse
      cases hparse
      decide

/-- A `null` at each place ends the controller, without an error to report. -/
theorem startup_panics :
    ∃ r₀ ∈ (newF5Router Sample.config).toOption,
      r₀.runCached jsonCodec "null".toList = none ∧
      r₀.runCached jsonCodec "\x7b\"records\":[null]\x7d".toList = none ∧
      r₀.runCached jsonCodec (Sample.response (Base64.encode "null".toList)) = none ∧
      r₀.runBroker .stored "null".toList = none := by
  decide +kernel

end BigipCtlr
