import BigipCtlr.F5Router.Policy
import BigipCtlr.F5Router.Tier2

/-!
# The router

The state of `F5Router`, the operations the worker applies to it, and what it
writes out when its queue is empty. A Go panic, which ends the controller, is
`none`. The record data is decoded with a `Codec`, loops over maps take an
`Order`.
-/

namespace BigipCtlr

open Go

def httpRouterName : Str := "routing-vip-http".toList
def httpsRouterName : Str := "routing-vip-https".toList
def cfRoutingPolicyName : Str := "cf-routing-policy".toList
def internalDataGroupName : Str := "cf-ctlr-data-group".toList
def brokerDataGroupName : Str := "cf-broker-data-group".toList

structure F5Router where
  c : Config
  r : GoMap Uri (Option Rule)
  wildcards : GoMap Uri (Option Rule)
  virtualResources : GoMap Str Virtual
  poolResources : GoMap Str Pool
  ruleResources : GoMap Str IRule
  monitorResources : GoMap Str (List Monitor)
  internalDataGroup : GoMap Str InternalDataGroupRecord
  tier2VSInfo : Tier2VSInfo
  firstSyncDone : Bool
  unmappedResourcesMap : GoMap Str RouteResources
  plansMap : GoMap Str Plan
  bindIDRouteURIPlanNameMap : GoMap Str Str

-- ---------------------------------------------------------------------------
-- Start
-- ---------------------------------------------------------------------------

/-- `validateConfig`, with the configuration completed by the defaults and the
tier-2 range it describes. -/
def validateConfig (c : Config) : Except Str (Config × IP × IPNet) := do
  let b := c.bigIP
  if b.url.length = 0 ∨ b.user.length = 0 ∨ b.pass.length = 0 ∨ b.partitions.length = 0 ∨
      b.externalAddr.length = 0 then
    throw ("required parameter missing; URL, User, Pass, Partitions, ExternalAddr, ".toList ++
      "must have value".toList)
  let _ ← verifyDestAddress ⟨b.externalAddr, 80⟩ c.partition
  let tier2IPRange := if b.tier2IPRange.length = 0 then defaultTier2IPRange else b.tier2IPRange
  let (ipAddr, ipNet) ← validateTier2Range tier2IPRange
  let healthMonitors := if b.healthMonitors.length = 0 then ["/Common/tcp_half_open".toList]
    else b.healthMonitors
  let profiles := if b.profiles.length = 0 then ["/Common/http".toList, "/Common/tcp".toList]
    else if "/Common/tcp".toList ∈ b.profiles then b.profiles
    else b.profiles ++ ["/Common/tcp".toList]
  let bigIP := { b with
    tier2IPRange := tier2IPRange, healthMonitors := healthMonitors, profiles := profiles }
  pure ({ c with bigIP := bigIP }, ipAddr, ipNet)

def initiRule (ruleResources : GoMap Str IRule) (name code : Str) : GoMap Str IRule :=
  ruleResources.insert name ⟨name, code⟩

def tier1Virtual (c : Config) (name : Str) (port : Int32) (profiles : List ProfileRef) :
    Except Str Virtual := do
  let iRulePath ← joinBigipPath c.partition httpForwardingiRuleName
  let dest ← verifyDestAddress ⟨c.bigIP.externalAddr, port⟩ c.partition
  pure {
    virtualServerName := name
    mode := "tcp".toList
    enabled := true
    destination := dest
    policies := (generateNameList c.bigIP.policies).1 ++ [⟨cfRoutingPolicyName, c.partition⟩]
    profiles := profiles
    iRules := [iRulePath]
    sourceAddrTranslation := ⟨"automap".toList⟩ }

def F5Router.createHTTPVirtuals (r : F5Router) : Except Str F5Router := do
  let b := r.c.bigIP
  let prfls := generateProfileList b.profiles "all".toList
  let ruleResources := if r.c.sessionPersistence then
    initiRule r.ruleResources jsessionidIRuleName jsessionidIRule else r.ruleResources
  let http ← tier1Virtual r.c httpRouterName 80 prfls
  let virtuals := r.virtualResources.insert httpRouterName http
  if b.sslProfiles.length ≠ 0 then
    let prfls := prfls ++ generateProfileList b.sslProfiles "clientside".toList
    let https ← tier1Virtual r.c httpsRouterName 443 prfls
    let virtuals := virtuals.insert httpsRouterName https
    pure { r with ruleResources := ruleResources, virtualResources := virtuals }
  else pure { r with ruleResources := ruleResources, virtualResources := virtuals }

/-- `NewF5Router`, with a writer that takes the initial configuration. -/
def newF5Router (c : Config) : Except Str F5Router := do
  let (c, holderIP, ipNet) ← validateConfig c
  let r : F5Router := {
    c := c
    r := ∅
    wildcards := ∅
    virtualResources := ∅
    poolResources := ∅
    ruleResources := ∅
    monitorResources := ∅
    internalDataGroup := ∅
    tier2VSInfo := ⟨∅, [], 10000, holderIP, ipNet⟩
    firstSyncDone := false
    unmappedResourcesMap := ∅
    plansMap := ∅
    bindIDRouteURIPlanNameMap := ∅ }
  if c.routingMode ≠ .tcp then
    let r ← r.createHTTPVirtuals
    let ruleResources := initiRule r.ruleResources httpForwardingiRuleName forwardToVIPiRule
    pure { r with ruleResources := ruleResources }
  else pure r

def F5Router.addPlans (r : F5Router) (plans : GoMap Str Plan) : F5Router :=
  { r with plansMap := plans }

/-- One record of `processCachedDataGroup`: kept with its address when that
lies in the range and no earlier record has it. -/
def cacheRecord (codec : Codec) (ipNet : IPNet)
    (kept : GoMap Str VirtualAddress × GoMap Str InternalDataGroupRecord)
    (record : InternalDataGroupRecord) :
    Option (GoMap Str VirtualAddress × GoMap Str InternalDataGroupRecord) :=
  match record.tier2VirtualAddress codec with
  | .error _ => some kept
  | .null => none
  | .address va =>
    match parseIP va.bindAddr with
    | none => some kept
    | some vaIP =>
      if ipNet.contains vaIP ∧ va.port ≤ 65535 ∧ va.string ∉ kept.1 then
        some (kept.1.insert va.string va, kept.2.insert record.name record)
      else some kept

def F5Router.processCachedDataGroup (codec : Codec) (r : F5Router) (dg : InternalDataGroup) :
    Option F5Router := do
  let (usedPorts, newDataGroup) ←
    dg.records.foldlM (cacheRecord codec r.tier2VSInfo.ipNet) (r.tier2VSInfo.usedPorts, ∅)
  some { r with
    tier2VSInfo := { r.tier2VSInfo with usedPorts := usedPorts }
    internalDataGroup := newDataGroup }

/-- The start of `Run`, with the data group found on the BIG-IP, if any. -/
def F5Router.start (codec : Codec) (r : F5Router) : Option InternalDataGroup → Option F5Router
  | none => some { r with internalDataGroup := ∅ }
  | some dg => r.processCachedDataGroup codec dg

-- ---------------------------------------------------------------------------
-- Pools, virtual servers, rules and monitors
-- ---------------------------------------------------------------------------

def F5Router.removeMonitors (r : F5Router) (poolName : Str) : F5Router :=
  { r with monitorResources := r.monitorResources.erase poolName }

/-- `addMonitors` as it is called: only when there are monitors. -/
def F5Router.addAnyMonitors (r : F5Router) (poolName : Str) (monitors : List Monitor) : F5Router :=
  { r with
    monitorResources := if monitors.length ≠ 0 then r.monitorResources.insert poolName monitors
      else r.monitorResources }

/-- A pool that exists keeps its settings and gains the members, unless it has
the first of them. -/
def F5Router.addPool (r : F5Router) (pool : Pool) : F5Router :=
  let key := pool.name
  let pools := match r.poolResources.lookup key with
    | some p =>
      if p.members.any (fun addr => some addr = pool.members.head?) then r.poolResources
      else r.poolResources.insert key { p with members := p.members ++ pool.members }
    | none => r.poolResources.insert key pool
  { r with poolResources := pools }

/-- A slice over its array: the members are the first `len` elements. -/
structure MemberSlice where
  array : List Member
  len : Nat
  deriving DecidableEq, Repr

def MemberSlice.members (s : MemberSlice) : List Member := s.array.take s.len

/-- One round of the loop in `removePool`. The loop runs over the array as it
was, while the slice gets shorter; `first` reads the member to remove, which
may be the head of the very slice. An index past the slice panics. -/
def removeRound (first : List Member → Option Member) (s : MemberSlice) (i : Nat) :
    Option MemberSlice := do
  let addr ← s.array[i]?
  let wanted ← first s.members
  if addr = wanted then
    if i < s.len then
      let last ← s.array[s.len - 1]?
      some ⟨(s.array.set i last).set (s.len - 1) Member.zero, s.len - 1⟩
    else none
  else some s

def removeMember (first : List Member → Option Member) (members : List Member) :
    Option (List Member) :=
  ((List.range members.length).foldlM (removeRound first) ⟨members, members.length⟩).map
    MemberSlice.members

/-- `removePool`, true when the pool is deleted. `first` is `pool.Members[0]`:
a constant, or the head of the stored pool when that is the argument. -/
def F5Router.removePool (r : F5Router) (key : Str) (first : List Member → Option Member) :
    Option (Bool × F5Router) :=
  match r.poolResources.lookup key with
  | none => some (false, r)
  | some p => do
    let members ← removeMember first p.members
    if members.length = 0 then some (true, { r with poolResources := r.poolResources.erase key })
    else
      let p := { p with members := members }
      some (false, { r with poolResources := r.poolResources.insert key p })

def F5Router.addVirtual (r : F5Router) (vs : Virtual) : F5Router :=
  let key := vs.virtualServerName
  let virtuals := if key ∈ r.virtualResources then r.virtualResources
    else r.virtualResources.insert key vs
  { r with virtualResources := virtuals }

def F5Router.removeVirtual (r : F5Router) (key : Str) : F5Router :=
  { r with virtualResources := r.virtualResources.erase key }

/-- The maps a rule can be in: URIs with a wildcard have their own. -/
def F5Router.changeRules (r : F5Router) (uri : Uri)
    (change : GoMap Uri (Option Rule) → GoMap Uri (Option Rule)) : F5Router :=
  { r with
    wildcards := if '*' ∈ uri.string then change r.wildcards else r.wildcards
    r := if '*' ∈ uri.string then r.r else change r.r }

/-- `addRule`. When the rule cannot be made a nil rule is stored. -/
def F5Router.addRule (r : F5Router) (ru : UpdateHTTP) : Option F5Router :=
  (makeRouteRule ru).map fun rule =>
    r.changeRules ru.uri fun rules => rules.insert ru.uri rule.toOption

def F5Router.removeRule (r : F5Router) (ru : UpdateHTTP) : F5Router :=
  r.changeRules ru.uri fun rules => rules.erase ru.uri

-- ---------------------------------------------------------------------------
-- Route updates
-- ---------------------------------------------------------------------------

/-- `assignVSPort`: the virtual server with its destination, from the one that
exists, from its record, or from a new address. -/
def F5Router.assignVSPort (codec : Codec) (r : F5Router) (vs : Virtual) :
    Option (F5Router × Except Str Virtual) :=
  let key := vs.virtualServerName
  let placed (va : VirtualAddress) : Except Str Virtual :=
    (verifyDestAddress va r.c.partition).map fun dest => { vs with destination := dest }
  match r.virtualResources.lookup key with
  | some existingVS => some (r, .ok { vs with destination := existingVS.destination })
  | none =>
    match r.internalDataGroup.lookup key with
    | none =>
      match r.tier2VSInfo.getAvailableVirtualAddress with
      | none => none
      | some (t, .error err) => some ({ r with tier2VSInfo := t }, .error err)
      | some (_, .ok none) => none
      | some (t, .ok (some va)) =>
        let record := ⟨key, codec.encode va⟩
        some ({ r with
          tier2VSInfo := t
          internalDataGroup := r.internalDataGroup.insert key record }, placed va)
    | some dgr =>
      match dgr.tier2VirtualAddress codec with
      | .error err => some (r, .error err)
      | .null => none
      | .address va => some (r, placed va)

def F5Router.addedResources (r : F5Router) (ru : UpdateHTTP) (rs : RouteResources) :
    RouteResources :=
  match r.unmappedResourcesMap.lookup ru.name with
  | some resources => updateResources rs resources
  | none => rs

def F5Router.processRouteAdd (codec : Codec) (r : F5Router) (ru : UpdateHTTP) : Option F5Router :=
  match verifyRouteURI ru with
  | .error _ => some r
  | .ok _ =>
    match ru.createResources r.c with
    | .error _ => some r
    | .ok rs =>
      let rs := r.addedResources ru rs
      match r.assignVSPort codec rs.virtual with
      | none => none
      | some (r, .error _) => some r
      | some (r, .ok vs) =>
        (((r.addAnyMonitors rs.pool.name rs.monitors).addPool rs.pool).addVirtual vs).addRule ru

def F5Router.bindPlan (r : F5Router) (planID : Str) (rs : RouteResources) :
    F5Router × RouteResources :=
  match r.plansMap.lookup planID with
  | some plan =>
    let monitors := if plan.pool.healthMonitors.length ≠
      0 then r.monitorResources.erase rs.pool.name
      else r.monitorResources
    ({ r with monitorResources := monitors }, updateResources rs (createPlanResources r.c plan))
  | none => (r, rs)

def F5Router.writeBack (r : F5Router) (pool : Pool) : F5Router :=
  let pools := if pool.name ∈ r.poolResources then r.poolResources.insert pool.name pool
    else r.poolResources
  { r with poolResources := pools }

/-- `processRouteBind`. While a pool keeps a member `removePool` leaves it in
the map, where the update then changes it in place. -/
def F5Router.processRouteBind (r : F5Router) (ru : UpdateHTTP) : Option F5Router :=
  match r.poolResources.lookup ru.name, r.virtualResources.lookup ru.name with
  | some existingPool, some existingVirtual => do
    let members := existingPool.members
    let (_, r) ← r.removePool existingPool.name List.head?
    let (r, rs) := (r.removeVirtual ru.name).bindPlan ru.planID ⟨existingVirtual, existingPool, []⟩
    let pool := { rs.pool with members := members }
    let r := (r.writeBack pool).addAnyMonitors pool.name rs.monitors
    some ((r.addPool pool).addVirtual rs.virtual)
  | _, _ =>
    match r.plansMap.lookup ru.planID with
    | some plan =>
      let planResources := createPlanResources r.c plan
      some { r with unmappedResourcesMap := r.unmappedResourcesMap.insert ru.name planResources }
    | none => some r

def F5Router.processRouteUnbind (r : F5Router) (ru : UpdateHTTP) : Option F5Router :=
  match r.poolResources.lookup ru.name, r.virtualResources.lookup ru.name with
  | some existingPool, some existingVirtual => do
    let members := existingPool.members
    let (_, r) ← r.removePool existingPool.name List.head?
    let r := (r.removeVirtual ru.name).removeMonitors existingPool.name
    let first ← members.head?
    match ru.createBrokerDefaultResources r.c existingPool.description existingVirtual.destination
        first.address first.port with
    | .error _ => some r
    | .ok rs =>
      let pool := { rs.pool with members := members }
      some ((r.addPool pool).addVirtual rs.virtual)
  | _, _ => some { r with unmappedResourcesMap := r.unmappedResourcesMap.erase ru.name }

/-- The end of `processRouteRemove`: the record of a tier-2 virtual server that
is gone goes too, and its address is kept for reuse. The entry of `usedPorts`
deleted is that of the name, not of the address. -/
def F5Router.reap (codec : Codec) (r : F5Router) (vsName : Str) : F5Router :=
  let t := { r.tier2VSInfo with usedPorts := r.tier2VSInfo.usedPorts.erase vsName }
  match r.internalDataGroup.lookup vsName with
  | none => { r with tier2VSInfo := t }
  | some record =>
    let reaped := match record.tier2VirtualAddress codec with
      | .error _ => t.reapedPorts
      | .null => t.reapedPorts ++ [none]
      | .address va => t.reapedPorts ++ [some va]
    { r with
      tier2VSInfo := { t with reapedPorts := reaped }
      internalDataGroup := r.internalDataGroup.erase vsName }

def F5Router.processRouteRemove (codec : Codec) (r : F5Router) (ru : UpdateHTTP) :
    Option F5Router :=
  match verifyRouteURI ru with
  | .error _ => some r
  | .ok _ =>
    match ru.createResources r.c with
    | .error _ => some r
    | .ok rs => do
      let (poolRemoved, r) ← r.removePool rs.pool.name fun _ => rs.pool.members.head?
      if poolRemoved then
        let vsName := rs.virtual.virtualServerName
        some ((((r.removeMonitors rs.pool.name).removeRule ru).removeVirtual vsName).reap
          codec vsName)
      else some r

def F5Router.processTCPRouteAdd (r : F5Router) (ru : UpdateTCP) : F5Router :=
  match ru.createResources r.c with
  | .error _ => r
  | .ok rs => (r.addPool rs.pool).addVirtual rs.virtual

def F5Router.processTCPRouteRemove (r : F5Router) (ru : UpdateTCP) : Option F5Router :=
  match ru.createResources r.c with
  | .error _ => some r
  | .ok rs => do
    let (poolRemoved, r) ← r.removePool rs.pool.name fun _ => rs.pool.members.head?
    if poolRemoved then some (r.removeVirtual rs.virtual.virtualServerName) else some r

-- ---------------------------------------------------------------------------
-- The configuration
-- ---------------------------------------------------------------------------

def keepRecord (codec : Codec) (dg : GoMap Str InternalDataGroupRecord)
    (kept : GoMap Str InternalDataGroupRecord × GoMap Str VirtualAddress) (vsName : Str) :
    Option (GoMap Str InternalDataGroupRecord × GoMap Str VirtualAddress) :=
  match dg.lookup vsName with
  | none => some kept
  | some record =>
    match record.tier2VirtualAddress codec with
    | .error _ => some kept
    | .null => none
    | .address va => some (kept.1.insert vsName record, kept.2.insert va.string va)

def unusedPorts (o : Order) (old new : GoMap Str VirtualAddress) : List VirtualAddress :=
  ((old.range o).filter fun e => e.1 ∉ new).map Prod.snd

def F5Router.truncateInternalDataGroup (codec : Codec) (o : Order) (r : F5Router) :
    Option F5Router := do
  let vsNames := (r.virtualResources.range o).map Prod.fst
  let (newDataGroup, newUsedPorts) ← vsNames.foldlM (keepRecord codec r.internalDataGroup) (∅, ∅)
  let t := r.tier2VSInfo
  let unused := unusedPorts o t.usedPorts newUsedPorts
  some { r with
    internalDataGroup := newDataGroup
    tier2VSInfo := { t with
      reapedPorts := t.reapedPorts ++ unused.map some
      usedPorts := newUsedPorts } }

def F5Router.createPolicies (o : Order) (r : F5Router) : Option (List Policy) :=
  if r.wildcards.size ≠ 0 ∨ r.r.size ≠ 0 then
    (makeRoutePolicy o r.r r.wildcards cfRoutingPolicyName).map ([·])
  else some []

def F5Router.createVirtuals (o : Order) (r : F5Router) : List Virtual :=
  (r.virtualResources.range o).map Prod.snd

def F5Router.createPools (o : Order) (r : F5Router) : List Pool :=
  (r.poolResources.range o).map Prod.snd

def F5Router.createiRules (o : Order) (r : F5Router) : List IRule :=
  (r.ruleResources.range o).map Prod.snd

/-- One round of the loops in `createMonitors`: of the monitors of one name only
the first is emitted. -/
def emitMonitor (added : List Monitor) (monitor : Monitor) : List Monitor :=
  if monitor.name ∈ added.map Monitor.name then added else added ++ [monitor]

def F5Router.createMonitors (o : Order) (r : F5Router) : List Monitor :=
  (((r.monitorResources.range o).map Prod.snd).flatten).foldl emitMonitor []

def createInternalDataGroups (o : Order)
    (dataGroups : GoMap Str (GoMap Str InternalDataGroupRecord)) :
    List InternalDataGroup :=
  (dataGroups.range o).map fun (name, dataGroup) =>
    { newInternalDataGroup name with records := (dataGroup.range o).map Prod.snd }

def populateBrokerDataGroup (o : Order) (brokerData : GoMap Str Str) :
    GoMap Str InternalDataGroupRecord :=
  (brokerData.range o).foldl (fun dg (k, v) => dg.insert k ⟨k, v⟩) ∅

def F5Router.createResources (o : Order) (r : F5Router) : Option PartitionMap := do
  let policies ← r.createPolicies o
  let dataGroups : GoMap Str (GoMap Str InternalDataGroupRecord) :=
    if r.c.brokerMode then
      (∅ : GoMap Str _).insert brokerDataGroupName
        (populateBrokerDataGroup o r.bindIDRouteURIPlanNameMap)
    else ∅
  let dataGroups := dataGroups.insert internalDataGroupName r.internalDataGroup
  let resources : Resources := {
    virtuals := r.createVirtuals o
    pools := r.createPools o
    monitors := r.createMonitors o
    policies := policies
    iRules := r.createiRules o
    internalDataGroups := createInternalDataGroups o dataGroups }
  some ((∅ : PartitionMap).insert r.c.partition resources)

-- ---------------------------------------------------------------------------
-- The worker
-- ---------------------------------------------------------------------------

inductive Item
  | http (ru : UpdateHTTP)
  | tcp (ru : UpdateTCP)
  deriving DecidableEq

structure Sections where
  global : GlobalConfig
  bigip : BigIPConfig
  resources : PartitionMap

def F5Router.handle (codec : Codec) (r : F5Router) : Item → Option F5Router
  | .http ru =>
    match ru.op with
    | .add => r.processRouteAdd codec ru
    | .remove => r.processRouteRemove codec ru
    | .bind => r.processRouteBind ru
    | .unbind => r.processRouteUnbind ru
  | .tcp ru =>
    match ru.op with
    | .add => some (r.processTCPRouteAdd ru)
    | .remove => r.processTCPRouteRemove ru
    | .bind | .unbind => some r

/-- The first drain of the queue; later ones change nothing. -/
def F5Router.firstSync (codec : Codec) (o : Order) (r : F5Router) : Option F5Router :=
  if r.firstSyncDone then some r
  else (r.truncateInternalDataGroup codec o).map fun r => { r with firstSyncDone := true }

def F5Router.sections (o : Order) (r : F5Router) : Option Sections :=
  (r.createResources o).map fun resources =>
    ⟨⟨r.c.logLevel, r.c.bigIP.verifyInterval⟩, r.c.bigIP, resources⟩

/-- One call of `process`: the item it gets, the length of the queue after it,
and the order of the loops over maps. -/
structure Event where
  item : Item
  length : Nat
  order : Order

/-- `process`, with what it writes when no item is left. -/
def F5Router.process (codec : Codec) (r : F5Router) (e : Event) :
    Option (F5Router × Option Sections) := do
  let r ← r.handle codec e.item
  if e.length = 0 then
    let r ← r.firstSync codec e.order
    let sections ← r.sections e.order
    some (r, some sections)
  else some (r, none)

def F5Router.step (codec : Codec) (r : F5Router) (e : Event) : Option F5Router :=
  (r.process codec e).map Prod.fst

def boot (codec : Codec) (c : Config) (plans : GoMap Str Plan) (dg : Option InternalDataGroup) :
    Option F5Router :=
  match newF5Router c with
  | .error _ => none
  | .ok r => (r.addPlans plans).start codec dg

end BigipCtlr
