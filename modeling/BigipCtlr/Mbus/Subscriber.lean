import BigipCtlr.Go.Json
import BigipCtlr.Registry.Registry

/-!
# The subscriber

`Subscriber`: the messages on the subjects `router.*`, and the calls of the
registry that they lead to. How a payload is decoded is an argument, and
`RegistryMessage.unmarshal` is what `json.Unmarshal` makes of it.
-/

namespace BigipCtlr.Mbus

open Go Registry

structure RegistryMessage where
  host : Str
  port : UInt16
  uris : List Uri
  app : Str := []
  staleThresholdInSeconds : Int64 := 0
  routeServiceURL : Str := []
  privateInstanceID : Str := []
  routerGroupGuid : Str := []
  deriving DecidableEq

/-- `makeEndpoint`: the modification tag is empty. -/
def RegistryMessage.makeEndpoint (rm : RegistryMessage) (ptr : Nat) : Endpoint :=
  newEndpoint ptr rm.app rm.host rm.port rm.privateInstanceID rm.staleThresholdInSeconds ⟨[], 0⟩

def RegistryMessage.validateMessage (rm : RegistryMessage) : Bool :=
  rm.routeServiceURL = [] || hasPrefix rm.routeServiceURL "https".toList

abbrev Unmarshal := Str → Except Str RegistryMessage

def createRegistryMessage (unmarshal : Unmarshal) (data : Str) : Except Str RegistryMessage := do
  let msg ← unmarshal data
  if !msg.validateMessage then
    .error "Unable to validate message. route_service_url must be https".toList
  else .ok msg

-- ---------------------------------------------------------------------------
-- json.Unmarshal
-- ---------------------------------------------------------------------------

def badType (goType : Str) : Str := "json: cannot unmarshal into Go value of type ".toList ++ goType

def unmarshalText (old : Str) : Json → Except Str Str
  | .null => .ok old
  | .string s => .ok s
  | _ => .error (badType "string".toList)

/-- A number of the range of its type, without a fraction or an exponent, and
without a sign where the type has none. -/
def unmarshalInteger (old : α) (goType : Str) (least greatest : Int) (ofInt : Int → α) :
    Json → Except Str α
  | .null => .ok old
  | .number text =>
    match Json.integer text with
    | some n =>
      if least ≤ n ∧ n ≤ greatest ∧ (least < 0 ∨ text.head? ≠ some '-') then .ok (ofInt n)
        else .error (badType goType)
    | none => .error (badType goType)
  | _ => .error (badType goType)

/-- The tags are read, and left out of the message. -/
def unmarshalTags : Json → Except Str Unit
  | .null => .ok ()
  | .object members => members.forM fun member => (unmarshalText [] member.2).map fun _ => ()
  | _ => .error (badType "map[string]string".toList)

def unmarshalMember (s : RegistryMessage × Json.Slice Uri) (member : Str × Json) :
    Except Str (RegistryMessage × Json.Slice Uri) :=
  let (msg, uris) := s
  let key := Json.foldKey member.1
  let text (old : Str) (put : Str → RegistryMessage) :=
    (unmarshalText old member.2).map fun t => (put t, uris)
  if key = "host".toList then text msg.host fun t => { msg with host := t }
  else if key = "port".toList then
    (unmarshalInteger msg.port "uint16".toList 0 65535 UInt16.ofInt member.2).map fun port =>
      ({ msg with port := port }, uris)
  else if key = "uris".toList then
    (Json.readSlice (fun old => unmarshalText (old.getD []))
      (badType "[]route.Uri".toList) uris member.2).map fun uris =>
      (msg, uris)
  else if key = "tags".toList then (unmarshalTags member.2).map fun _ => s
  else if key = "app".toList then text msg.app fun t => { msg with app := t }
  else if key = "stale_threshold_in_seconds".toList then
    (unmarshalInteger msg.staleThresholdInSeconds "int".toList Int64.minValue.toInt
      Int64.maxValue.toInt Int64.ofInt
      member.2).map fun seconds => ({ msg with staleThresholdInSeconds := seconds }, uris)
  else if key = "route_service_url".toList then
    text msg.routeServiceURL fun t => { msg with routeServiceURL := t }
  else if key = "private_instance_id".toList then
    text msg.privateInstanceID fun t => { msg with privateInstanceID := t }
  else if key = "private_instance_index".toList then (unmarshalText [] member.2).map fun _ => s
  else if key = "router_group_guid".toList then
    text msg.routerGroupGuid fun t => { msg with routerGroupGuid := t }
  else .ok s

/-- `json.Unmarshal` into an empty message; its error texts are shortened. -/
def RegistryMessage.unmarshal : Unmarshal := fun data =>
  let empty : RegistryMessage := { host := [], port := 0, uris := [] }
  match Json.parse data with
  | none => .error "json: syntax error".toList
  | some .null => .ok empty
  | some (.object members) =>
    (members.foldlM unmarshalMember (empty, ⟨[], 0⟩)).map fun (msg, uris) =>
      { msg with uris := uris.elements }
  | some _ => .error (badType "mbus.RegistryMessage".toList)

-- ---------------------------------------------------------------------------
-- The handlers
-- ---------------------------------------------------------------------------

inductive Verb
  | register
  | unregister
  deriving DecidableEq

structure Errand where
  verb : Verb
  uri : Uri
  endpoint : Endpoint

def Errand.call (e : Errand) (now : Int) : Call :=
  match e.verb with
  | .register => .register e.uri e.endpoint now
  | .unregister => .unregister e.uri e.endpoint

/-- One endpoint for all URIs of the message. -/
def RegistryMessage.errands (verb : Verb) (ptr : Nat) (msg : RegistryMessage) : List Errand :=
  msg.uris.map fun uri => ⟨verb, uri, msg.makeEndpoint ptr⟩

structure Subscriber where
  routerGroupGuid : Str

namespace Subscriber

def registerEndpoint (ptr : Nat) (msg : RegistryMessage) : List Errand := msg.errands .register ptr

def unregisterEndpoint (ptr : Nat) (msg : RegistryMessage) : List Errand :=
  msg.errands .unregister ptr

def withRouterGroup (s : Subscriber) (handle : RegistryMessage → List Errand)
    (msg : RegistryMessage) : List Errand :=
  if s.routerGroupGuid = msg.routerGroupGuid then handle msg else []

def withoutRouterGroup (handle : RegistryMessage → List Errand) (msg : RegistryMessage) :
    List Errand :=
  if msg.routerGroupGuid = [] then handle msg else []

def registerWithRouterGroup (s : Subscriber) (ptr : Nat) : RegistryMessage → List Errand :=
  s.withRouterGroup (registerEndpoint ptr)

def registerRoute (ptr : Nat) : RegistryMessage → List Errand :=
  withoutRouterGroup (registerEndpoint ptr)

def unregisterWithRouterGroup (s : Subscriber) (ptr : Nat) : RegistryMessage → List Errand :=
  s.withRouterGroup (unregisterEndpoint ptr)

def unregisterRoute (ptr : Nat) : RegistryMessage → List Errand :=
  withoutRouterGroup (unregisterEndpoint ptr)

def handleRouteRegister (s : Subscriber) (ptr : Nat) (msg : RegistryMessage) : List Errand :=
  if s.routerGroupGuid ≠ [] then s.registerWithRouterGroup ptr msg else registerRoute ptr msg

def handleRouteUnregsiter (s : Subscriber) (ptr : Nat) (msg : RegistryMessage) : List Errand :=
  if s.routerGroupGuid ≠ [] then s.unregisterWithRouterGroup ptr msg else unregisterRoute ptr msg

end Subscriber

structure NatsMsg where
  subject : Str
  data : Str

/-- What the callback of `subscribeRoutes` makes of a message; `ptr` is the
endpoint that it creates. -/
def Subscriber.receive (unmarshal : Unmarshal) (s : Subscriber) (ptr : Nat) (message : NatsMsg) :
    List Errand :=
  match createRegistryMessage unmarshal message.data with
  | .error _ => []
  | .ok msg =>
    if message.subject = "router.register".toList then s.handleRouteRegister ptr msg
    else if message.subject = "router.unregister".toList then s.handleRouteUnregsiter ptr msg
    else []

-- ---------------------------------------------------------------------------
-- Accepted messages
-- ---------------------------------------------------------------------------

def Verb.subject : Verb → Str
  | .register => "router.register".toList
  | .unregister => "router.unregister".toList

/-- The message is a well-formed one of the router group, on the subject of the
verb. -/
structure Subscriber.Accepts (unmarshal : Unmarshal) (s : Subscriber)
    (message : NatsMsg) (verb : Verb) (msg : RegistryMessage) : Prop where
  decoded : unmarshal message.data = .ok msg
  valid : msg.validateMessage = true
  group : msg.routerGroupGuid = s.routerGroupGuid
  subject : message.subject = verb.subject

theorem createRegistryMessage_eq_ok {unmarshal : Unmarshal} :
    createRegistryMessage unmarshal data = .ok msg ↔
      unmarshal data = .ok msg ∧ msg.validateMessage = true := by
  rw [createRegistryMessage]
  cases hdata : unmarshal data with
  | error err => exact iff_of_false (fun h => by cases h) fun h => by cases h.1
  | ok rm =>
    change (if (!rm.validateMessage) = true then _ else _) = _ ↔ _
    cases hvalid : rm.validateMessage with
    | true =>
      rw [if_neg (by simp)]
      constructor
      · rintro ⟨⟩
        exact ⟨rfl, hvalid⟩
      · rintro ⟨⟨⟩, -⟩
        rfl
    | false =>
      rw [if_pos (by simp)]
      refine iff_of_false (fun h => by cases h) ?_
      rintro ⟨⟨⟩, h⟩
      rw [hvalid] at h
      cases h

theorem Subscriber.handle_eq (s : Subscriber) (handle : RegistryMessage → List Errand)
    (msg : RegistryMessage) :
    (if s.routerGroupGuid ≠ [] then s.withRouterGroup handle msg
      else withoutRouterGroup handle msg) =
      if msg.routerGroupGuid = s.routerGroupGuid then handle msg else [] := by
  simp only [withRouterGroup, withoutRouterGroup]
  by_cases hown : s.routerGroupGuid = []
  · rw [if_neg (not_not.mpr hown), hown]
  · rw [if_pos hown]
    exact if_congr eq_comm rfl rfl

theorem Subscriber.Accepts.receive {unmarshal : Unmarshal} {s : Subscriber}
    (h : s.Accepts unmarshal message verb msg) (ptr : Nat) :
    s.receive unmarshal ptr message = msg.errands verb ptr := by
  have hcreate := createRegistryMessage_eq_ok.mpr ⟨h.decoded, h.valid⟩
  have hne : "router.unregister".toList ≠ "router.register".toList := by decide
  simp only [Subscriber.receive, hcreate, h.subject]
  cases verb with
  | register =>
    exact (if_pos rfl).trans ((s.handle_eq (registerEndpoint ptr) msg).trans (if_pos h.group))
  | unregister =>
    exact (if_neg hne).trans
      ((if_pos rfl).trans ((s.handle_eq (unregisterEndpoint ptr) msg).trans (if_pos h.group)))

theorem Subscriber.receive_cases (unmarshal : Unmarshal) (s : Subscriber) (ptr : Nat)
    (message : NatsMsg) :
    (∃ verb msg, s.Accepts unmarshal message verb msg) ∨ s.receive unmarshal ptr message = [] := by
  cases hcreate : createRegistryMessage unmarshal message.data with
  | error err => simp only [Subscriber.receive, hcreate, or_true]
  | ok msg =>
    obtain ⟨hdecoded, hvalid⟩ := createRegistryMessage_eq_ok.mp hcreate
    by_cases hgroup : msg.routerGroupGuid = s.routerGroupGuid
    · by_cases hregister : message.subject = "router.register".toList
      · exact .inl ⟨.register, msg, hdecoded, hvalid, hgroup, hregister⟩
      · by_cases hunregister : message.subject = "router.unregister".toList
        · exact .inl ⟨.unregister, msg, hdecoded, hvalid, hgroup, hunregister⟩
        · simp only [Subscriber.receive, hcreate, hregister, hunregister, if_false, or_true]
    · right
      have hnone : ∀ handle, (if s.routerGroupGuid ≠ [] then s.withRouterGroup handle msg
          else withoutRouterGroup handle msg) = [] := fun handle =>
        (s.handle_eq handle msg).trans (if_neg hgroup)
      simp only [Subscriber.receive, hcreate]
      split
      · exact hnone (registerEndpoint ptr)
      · split
        · exact hnone (unregisterEndpoint ptr)
        · rfl

end BigipCtlr.Mbus
