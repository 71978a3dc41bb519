import BigipCtlr.F5Router.Resources
import BigipCtlr.Go.Sha256
import BigipCtlr.Route

/-!
# Route updates

`updateHTTP` and `updateTCP`: the names of the objects of a route, the
default resources of an update, the resources of a plan, and how the second
overwrite the first. A Go panic is `none`; an error result is `Except`.
-/

namespace BigipCtlr

open Go

inductive Operation
  | add
  | remove
  | bind
  | unbind
  deriving DecidableEq, Repr

-- ---------------------------------------------------------------------------
-- Names
-- ---------------------------------------------------------------------------

/-- The name of a route's objects. Slicing the URI at a dot that is not there
panics. -/
def makeObjectName (uri : Str) : Option Str :=
  if hasPrefix uri "*.".toList then some ("cf-".toList ++ trimPrefix uri "*.".toList)
  else if '*' ∈ uri then some ("cf-".toList ++ replace uri '*' '_')
  else (index uri '.').map fun i =>
    "cf-".toList ++ uri.take i ++ '-' :: hexBytes ((Sha256.sum256 uri).take 8)

def fixupNames (names : List Str) : List Str :=
  names.map fun val => if hasPrefix val "/".toList then val else '/' :: val

def makeDescription (uri appID : Str) : Str :=
  let s := "route: ".toList ++ uri
  if appID = [] then s else s ++ " - App GUID: ".toList ++ appID

def generateNameList (names : List Str) : List NameRef × List Str :=
  names.foldl
    (fun (refs, skipped) name =>
      let p := trimPrefix name "/".toList
      match split p '/' with
      | [partition, name] => (refs ++ [⟨name, partition⟩], skipped)
      | _ => (refs, skipped ++ [p]))
    ([], [])

def generateProfileList (names : List Str) (context : Str) : List ProfileRef :=
  (generateNameList names).1.map fun ref => ⟨ref.name, ref.partition, context⟩

def joinBigipPath (partition objName : Str) : Except Str Str :=
  if objName = [] then .error "object name is blank".toList
  else if partition = [] then .ok objName
  else .ok ('/' :: partition ++ '/' :: objName)

-- ---------------------------------------------------------------------------
-- updateHTTP
-- ---------------------------------------------------------------------------

/-- An update as `NewUpdate` builds it: with the name it derives, and no
endpoint when it comes from the broker. Its logger is a session of its own,
which tells it apart from every other update. Only the queue compares updates,
so the session is told where they are submitted, and is 0 before. -/
structure UpdateHTTP where
  op : Operation
  uri : Uri
  endpoint : Option Endpoint
  name : Str
  planID : Str
  session : Nat
  named : makeObjectName uri.string = some name
  brokered : op = .bind ∨ op = .unbind → endpoint = none
  deriving DecidableEq

theorem unbrokered_add {ep : Option Endpoint} :
    Operation.add = .bind ∨ Operation.add = .unbind → ep = none := by simp

theorem unbrokered_remove {ep : Option Endpoint} :
    Operation.remove = .bind ∨ Operation.remove = .unbind → ep = none := by simp

theorem brokered_none {op : Operation} :
    op = .bind ∨ op = .unbind → (none : Option Endpoint) = none := fun _ => rfl

/-- `NewUpdate`: an Add or Remove carries its endpoint, a Bind or Unbind its
plan. -/
def newUpdate (op : Operation) (uri : Uri) (ep : Option Endpoint) (planID : Str) :
    Option (Except Str UpdateHTTP) :=
  if uri.length = 0 then some (.error "uri length of zero is not allowed".toList)
  else match h : makeObjectName uri.string with
    | none => none
    | some name =>
      match op with
      | .add => some (.ok ⟨.add, uri, ep, name, [], 0, h, unbrokered_add⟩)
      | .remove => some (.ok ⟨.remove, uri, ep, name, [], 0, h, unbrokered_remove⟩)
      | .bind => some (.ok ⟨.bind, uri, none, name, planID, 0, h, brokered_none⟩)
      | .unbind => some (.ok ⟨.unbind, uri, none, name, planID, 0, h, brokered_none⟩)

def UpdateHTTP.withSession (ru : UpdateHTTP) (session : Nat) : UpdateHTTP :=
  { ru with session := session }

def verifyRouteURI (ru : UpdateHTTP) : Except Str Unit :=
  let uri := ru.uri.string
  if 1 < uri.count '*' then
    .error ("Invalid URI: ".toList ++ uri ++ " multiple wildcards are not supported".toList)
  else .ok ()

def defaultProfiles : List ProfileRef :=
  [⟨"http".toList, "Common".toList, "all".toList⟩, ⟨"tcp".toList, "Common".toList, "all".toList⟩]

def defaultMonitorNames (c : Config) : List MonitorName :=
  (fixupNames c.bigIP.healthMonitors).map fun path => ⟨path, false⟩

def makePool (name descrip : Str) (members : List Member) (balanceMode : Str)
    (hmNames : List MonitorName) : Pool :=
  { name := name
    balance := balanceMode
    members := members
    monitorNames := hmNames
    description := descrip }

/-- The file-level `createResources`: the default pool and virtual server of
an update. The arguments stand in for an endpoint that is missing. -/
def UpdateHTTP.resources (hu : UpdateHTTP) (c : Config) (description destination address : Str)
    (port : UInt16) : Except Str RouteResources := do
  let iRules ← if c.sessionPersistence then
    (joinBigipPath c.partition jsessionidIRuleName).map ([·])
    else pure []
  let poolPath ← joinBigipPath c.partition hu.name
  let (address, port, description) := match hu.endpoint with
    | some ep => (ep.address, ep.port, makeDescription hu.uri.string ep.applicationId)
    | none => (address, port, description)
  if address = [] ∨ description = [] then
    throw "createResources error: missing endpoint address or description".toList
  pure {
    virtual := {
      virtualServerName := hu.name
      poolName := poolPath
      mode := "tcp".toList
      enabled := true
      destination := destination
      sourceAddress := c.bigIP.tier2IPRange
      iRules := iRules
      profiles := defaultProfiles
      sourceAddrTranslation := ⟨"automap".toList⟩ }
    pool := makePool hu.name description [⟨address, port, "user-enabled".toList⟩]
      c.bigIP.loadBalancingMode (defaultMonitorNames c) }

def UpdateHTTP.createResources (hu : UpdateHTTP) (c : Config) : Except Str RouteResources :=
  hu.resources c [] [] [] 0

def UpdateHTTP.createBrokerDefaultResources (hu : UpdateHTTP) (c : Config)
    (description destination address : Str) (port : UInt16) : Except Str RouteResources :=
  hu.resources c description destination address port

/-- The monitor names of a plan and the monitors to create for it. A typed
monitor is created in the partition, any other exists already. -/
def planMonitors (c : Config) (hms : List Monitor) : List MonitorName × List Monitor :=
  hms.foldl
    (fun (names, monitors) m =>
      if m.type ≠ [] then
        match joinBigipPath c.partition m.name with
        | .error _ => (names, monitors)
        | .ok path => (names ++ [⟨path, true⟩], monitors ++ [m])
      else (names ++ [⟨m.name, false⟩], monitors))
    ([], [])

def createPlanResources (c : Config) (plan : Plan) : RouteResources :=
  let profiles := generateProfileList plan.virtualServer.profiles "all".toList ++
    generateProfileList plan.virtualServer.sslProfiles "serverside".toList
  let monitors := planMonitors c plan.pool.healthMonitors
  { virtual := {
      virtualServerName := []
      policies := (generateNameList plan.virtualServer.policies).1
      profiles := profiles }
    pool := { name := [], balance := plan.pool.balance, monitorNames := monitors.1 }
    monitors := monitors.2 }

/-- `UpdateResources`: what the new resources set replaces the old. -/
def updateResources (old new : RouteResources) : RouteResources :=
  { virtual := { old.virtual with
      profiles := if new.virtual.profiles ≠ [] then new.virtual.profiles else old.virtual.profiles
      policies := if new.virtual.policies ≠ [] then new.virtual.policies else old.virtual.policies }
    pool := { old.pool with
      balance := if new.pool.balance ≠ [] then new.pool.balance else old.pool.balance
      monitorNames := if new.pool.monitorNames ≠ [] then new.pool.monitorNames
        else old.pool.monitorNames }
    monitors := if new.monitors ≠ [] then new.monitors else old.monitors }

-- ---------------------------------------------------------------------------
-- updateTCP
-- ---------------------------------------------------------------------------

def createTCPObjectName (c : Config) (port : UInt16) : Str :=
  "cf-tcp-route-".toList ++ c.tcpRouterGroupName ++ '-' :: itoa port.toNat

/-- An update as `NewTCPUpdate` builds it; its name is derived from the
configuration it was built with. -/
structure UpdateTCP where
  c : Config
  op : Operation
  routePort : UInt16
  member : Member
  deriving DecidableEq

def newTCPUpdate (c : Config) (op : Operation) (routePort : UInt16) (member : Member) : UpdateTCP :=
  ⟨c, op, routePort, member⟩

def UpdateTCP.name (tu : UpdateTCP) : Str := createTCPObjectName tu.c tu.routePort

end BigipCtlr
