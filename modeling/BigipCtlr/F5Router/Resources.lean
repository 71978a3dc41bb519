import BigipCtlr.Go.Map
import BigipCtlr.Go.Net

/-!
# BIG-IP resources, configuration and plans

The data of the packages `bigipResources`, `config` and `planResources`, as
far as the router reads or writes it.
-/

namespace BigipCtlr

open Go

-- ---------------------------------------------------------------------------
-- bigipResources
-- ---------------------------------------------------------------------------

structure GlobalConfig where
  logLevel : Str
  verifyInterval : Int
  deriving DecidableEq, Repr

structure VirtualAddress where
  bindAddr : Str
  port : Int32
  deriving DecidableEq, Repr

structure NameRef where
  name : Str
  partition : Str
  deriving DecidableEq, Repr

structure ProfileRef where
  name : Str
  partition : Str
  context : Str
  deriving DecidableEq, Repr

structure SourceAddrTranslation where
  type : Str
  deriving DecidableEq, Repr

structure Virtual where
  virtualServerName : Str
  poolName : Str := []
  mode : Str := []
  enabled : Bool := false
  destination : Str := []
  sourceAddress : Str := []
  policies : List NameRef := []
  profiles : List ProfileRef := []
  iRules : List Str := []
  sourceAddrTranslation : SourceAddrTranslation := ⟨[]⟩
  deriving DecidableEq, Repr

structure Member where
  address : Str
  port : UInt16
  session : Str
  deriving DecidableEq, Repr

/-- The zero value of `Member`, which fills the slots a removal vacates. -/
def Member.zero : Member := ⟨[], 0, []⟩

/-- A health monitor by its path. `custom` is ghost data for statements about
the references: it records that the path was generated for a typed monitor of a
plan. No function of the controller reads it. -/
structure MonitorName where
  path : Str
  custom : Bool
  deriving DecidableEq, Repr

structure Pool where
  name : Str
  balance : Str := []
  members : List Member := []
  monitorNames : List MonitorName := []
  description : Str := []
  deriving DecidableEq, Repr

structure Monitor where
  name : Str
  interval : Int := 0
  type : Str := []
  send : Str := []
  recv : Str := []
  timeout : Int := 0
  deriving DecidableEq, Repr

structure Action where
  forward : Bool := false
  name : Str
  pool : Str := []
  request : Bool
  expression : Str := []
  tmName : Str := []
  tcl : Bool := false
  setVariable : Bool := false
  deriving DecidableEq, Repr

structure Condition where
  equals : Bool := false
  startsWith : Bool := false
  endsWith : Bool := false
  host : Bool := false
  httpHost : Bool := false
  httpURI : Bool := false
  pathSegment : Bool := false
  name : Str
  index : Nat
  request : Bool
  values : List Str
  deriving DecidableEq, Repr

structure Rule where
  fullURI : Str
  actions : List Action
  conditions : List Condition
  name : Str
  ordinal : Nat := 0
  description : Str
  deriving DecidableEq, Repr

structure Policy where
  controls : List Str
  description : Str := []
  legacy : Bool
  name : Str
  requires : List Str
  rules : List Rule
  strategy : Str
  deriving DecidableEq, Repr

structure IRule where
  name : Str
  code : Str
  deriving DecidableEq, Repr

/-- `HTTPForwardingiRuleName` and the text of the rule that hands a request of
a tier-1 virtual server to the tier-2 one its policy selected. -/
def httpForwardingiRuleName : Str := "forward-to-vip".toList

def forwardToVIPiRule : Str :=
  ("\n" ++
   "when HTTP_REQUEST \x7b\n" ++
   "  if \x7b[info exists target_vip] && [string length $target_vip] != 0\x7d \x7b\n" ++
   "    if \x7b [catch \x7b virtual $target_vip \x7d ] \x7d \x7b\n" ++
   "      log local0. \"ERROR: Attempting to assign traffic to non-existent virtual $target_vip\"\n" ++
   "      reject\n" ++
   "    \x7d\n" ++
   "  \x7d\n" ++
   "\x7d").toList

def jsessionidIRuleName : Str := "jsessionid-persistence".toList

def jsessionidIRule : Str :=
  ("\n" ++
   "when HTTP_RESPONSE \x7b\n" ++
   "  set jsessionid [lsearch -inline -regexp [HTTP::cookie names] (?i)^jsessionid$]\n" ++
   "  set cookieVal [HTTP::cookie value $jsessionid]\n" ++
   "  if \x7b $jsessionid ne \"\" \x7d \x7b\n" ++
   "    set maxAge [HTTP::cookie maxage $jsessionid]\n" ++
   "    if \x7b $maxAge < 0 \x7d \x7b\n" ++
   "      persist add uie $cookieVal 3600\n" ++
   "    \x7d elseif \x7b $maxAge == 0 \x7d \x7b\n" ++
   "      if \x7b [persist lookup uie $cookieVal] \x7d \x7b\n" ++
   "        persist delete uie $cookieVal\n" ++
   "      \x7d\n" ++
   "    \x7d else \x7b\n" ++
   "      persist add uie $cookieVal $maxAge\n" ++
   "    \x7d\n" ++
   "  \x7d\n" ++
   "\x7d\n" ++
   "when HTTP_REQUEST \x7b\n" ++
   "  set jsessionid [lsearch -inline -regexp [HTTP::cookie names] (?i)^jsessionid$]\n" ++
   "  set cookieVal [HTTP::cookie value $jsessionid]\n" ++
   "  if \x7b $jsessionid ne \"\" \x7d \x7b\n" ++
   "    set forwardNode [persist lookup uie $cookieVal node]\n" ++
   "    set forwardPort [persist lookup uie $cookieVal port]\n" ++
   "    set forwardIP $forwardNode:$forwardPort\n" ++
   "    if \x7b $forwardNode ne \"\" && $forwardPort ne \"\" \x7d \x7b\n" ++
   "      node $forwardIP\n" ++
   "    \x7d else \x7b\n" ++
   "      log local0. \"Could not find endpoint for persistence record: $cookieVal. \\\n" ++
   "      Check to see if this record still exists (check Statistics -> Module Statistics -> Local \\\n" ++
   "      Traffic -> Persistence Records) or the status of the records endpoint.\"\n" ++
   "    \x7d\n" ++
   "  \x7d\n" ++
   "\x7d").toList

structure InternalDataGroupRecord where
  name : Str
  data : Str
  deriving DecidableEq, Repr

structure InternalDataGroup where
  name : Str
  records : List InternalDataGroupRecord
  deriving DecidableEq, Repr

def newInternalDataGroup (name : Str) : InternalDataGroup := ⟨name, []⟩

structure Resources where
  virtuals : List Virtual := []
  pools : List Pool := []
  monitors : List Monitor := []
  policies : List Policy := []
  iRules : List IRule := []
  internalDataGroups : List InternalDataGroup := []
  deriving DecidableEq, Repr

abbrev PartitionMap := GoMap Str Resources

/-- The `Resources` of one route update: always one virtual server and one
pool, so that `Virtuals[0]` and `Pools[0]` exist. -/
structure RouteResources where
  virtual : Virtual
  pool : Pool
  monitors : List Monitor := []
  deriving DecidableEq, Repr

-- ---------------------------------------------------------------------------
-- config
-- ---------------------------------------------------------------------------

inductive RoutingMode
  | tcp
  | http
  | all
  deriving DecidableEq, Repr

structure BigIPConfig where
  url : Str
  user : Str
  pass : Str
  partitions : List Str
  loadBalancingMode : Str := "round-robin".toList
  verifyInterval : Int := 30
  externalAddr : Str
  sslProfiles : List Str := []
  policies : List Str := []
  profiles : List Str := []
  healthMonitors : List Str := []
  tier2IPRange : Str := "172.0.0.0/24".toList
  deriving DecidableEq, Repr

structure Config where
  bigIP : BigIPConfig
  logLevel : Str := "info".toList
  routingMode : RoutingMode := .http
  brokerMode : Bool := false
  sessionPersistence : Bool := true
  tcpRouterGroupName : Str := []
  deriving DecidableEq, Repr

def defaultTier2IPRange : Str := "172.0.0.0/24".toList

def Config.partition (c : Config) : Str := c.bigIP.partitions.headD []

-- ---------------------------------------------------------------------------
-- planResources
-- ---------------------------------------------------------------------------

structure PoolType where
  balance : Str := []
  healthMonitors : List Monitor := []
  deriving DecidableEq, Repr

structure VirtualType where
  policies : List Str := []
  profiles : List Str := []
  sslProfiles : List Str := []
  deriving DecidableEq, Repr

structure Plan where
  name : Str := []
  description : Str := []
  pool : PoolType := {}
  virtualServer : VirtualType := {}
  id : Str := []
  deriving DecidableEq, Repr

end BigipCtlr
