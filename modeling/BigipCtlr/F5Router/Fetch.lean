import BigipCtlr.F5Router.Mapping
import BigipCtlr.Go.Json
import Mathlib.Data.List.Infix

/-!
# Fetching a data group

What `fetchExistingDataGroup` makes of a response body, and the start of `Run`
with it. `json.Unmarshal` leaves a pointer nil for `null`, be it the data group
or a record of it, and reports no error. Reading through a nil pointer panics,
which is `none`.
-/

namespace BigipCtlr

open Go

-- ---------------------------------------------------------------------------
-- json.Unmarshal
-- ---------------------------------------------------------------------------

inductive FetchError
  | notFound (text : Str)
  | badSyntax
  /-- A value that does not fit the Go type. -/
  | badType (goType : Str)
  deriving DecidableEq

def unmarshalString (old : Str) : Json → Except FetchError Str
  | .null => .ok old
  | .string s => .ok s
  | _ => .error (.badType "string".toList)

def unmarshalRecordField (record : InternalDataGroupRecord) (member : Str × Json) :
    Except FetchError InternalDataGroupRecord :=
  let key := Json.foldKey member.1
  if key = "name".toList then (unmarshalString record.name member.2).map fun name =>
    { record with name := name }
  else if key = "data".toList then (unmarshalString record.data member.2).map fun data =>
    { record with data := data }
  else .ok record

def unmarshalRecord (old : Option InternalDataGroupRecord) :
    Json → Except FetchError (Option InternalDataGroupRecord)
  | .null => .ok none
  | .object members => (members.foldlM unmarshalRecordField (old.getD ⟨[], []⟩)).map some
  | _ => .error (.badType "bigipResources.InternalDataGroupRecord".toList)

def unmarshalRecords : Json.Slice (Option InternalDataGroupRecord) → Json →
    Except FetchError (Json.Slice (Option InternalDataGroupRecord)) :=
  Json.readSlice (fun old => unmarshalRecord old.join)
    (.badType "[]*bigipResources.InternalDataGroupRecord".toList)

/-- An `InternalDataGroup` as it is read, with pointers that may be nil. -/
structure FetchedDataGroup where
  name : Str
  slice : Json.Slice (Option InternalDataGroupRecord)
  deriving DecidableEq

def FetchedDataGroup.records (dg : FetchedDataGroup) : List (Option InternalDataGroupRecord) :=
  dg.slice.elements

def unmarshalDataGroupField (dg : FetchedDataGroup) (member : Str × Json) :
    Except FetchError FetchedDataGroup :=
  let key := Json.foldKey member.1
  if key = "name".toList then (unmarshalString dg.name member.2).map fun name =>
    { dg with name := name }
  else if key = "records".toList then (unmarshalRecords dg.slice member.2).map fun slice =>
    { dg with slice := slice }
  else .ok dg

def unmarshalDataGroup : Json → Except FetchError (Option FetchedDataGroup)
  | .null => .ok none
  | .object members => (members.foldlM unmarshalDataGroupField ⟨[], ⟨[], 0⟩⟩).map some
  | _ => .error (.badType "bigipResources.InternalDataGroup".toList)

-- ---------------------------------------------------------------------------
-- The start of Run
-- ---------------------------------------------------------------------------

/-- `fetchExistingDataGroup` from the response on. The error names the internal
data group, whichever was asked for. -/
def fetchExistingDataGroup (data : Str) : Except FetchError (Option FetchedDataGroup) :=
  if "was not found".toList <:+: data then
    .error (.notFound ("data group ".toList ++ internalDataGroupName ++
      " not found on the BIG-IP".toList))
  else
    match Json.parse data with
    | none => .error .badSyntax
    | some j => unmarshalDataGroup j

/-- The data group as a loop over its records finds it: the loop panics at a
nil record. -/
def FetchedDataGroup.deref (dg : FetchedDataGroup) : Option InternalDataGroup := do
  let records ← dg.records.mapM id
  some ⟨dg.name, records⟩

def F5Router.runCached (codec : Codec) (r : F5Router) (data : Str) : Option F5Router :=
  match fetchExistingDataGroup data with
  | .error _ => r.start codec none
  | .ok dg => do
    let dg ← dg
    let dg ← dg.deref
    r.start codec (some dg)

def F5Router.runBroker (o : Order) (r : F5Router) (data : Str) :
    Option (F5Router × List UpdateHTTP) :=
  match fetchExistingDataGroup data with
  | .error _ => some (r, [])
  | .ok dg => do
    let dg ← dg
    let dg ← dg.deref
    r.processBrokerDataGroup o dg

end BigipCtlr
