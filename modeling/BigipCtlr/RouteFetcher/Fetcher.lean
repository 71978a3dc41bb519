import BigipCtlr.Lib.TaggedStore
import BigipCtlr.Registry.Registry
import BigipCtlr.RoutingTable.Table

/-!
# The route fetchers

`HTTPFetcher` and `TCPFetcher`: the list of the last bulk fetch, what a new one
makes of it, and the events in between. Both hand endpoints on, the one to the
registry and the other to the routing table. `made` counts these calls: it
tells the endpoints that are created apart, and is what a clock is read with.
-/

namespace BigipCtlr

open Go Lib

-- ---------------------------------------------------------------------------
-- The routing API
-- ---------------------------------------------------------------------------

namespace Models

structure Route where
  route : Str
  port : UInt16
  ip : Str
  ttl : Option Int64 := none
  logGuid : Str
  modificationTag : ModificationTag
  deriving DecidableEq

def Route.getTTL (r : Route) : Int64 := r.ttl.getD 0

structure TcpRouteMapping where
  hostPort : UInt16
  hostIP : Str
  externalPort : UInt16
  modificationTag : ModificationTag
  ttl : Option Int64 := none
  deriving DecidableEq

end Models

def unauthorized : Str := "unauthorized".toList

inductive Attempt (α : Type)
  | tokenError (err : Str)
  | error (err : Str)
  | routes (routes : List α)

/-- The loop of `FetchRoutes`: an unauthorized request is made a second time,
with a new token. -/
def fetchWithTokenRefresh (first second : Attempt α) : Except Str (List α) :=
  let result : Attempt α → Except Str (List α)
    | .tokenError err => .error err
    | .error err => .error err
    | .routes routes => .ok routes
  match first with
  | .error err => if err = unauthorized then result second else .error err
  | _ => result first

structure ApiEvent (α : Type) where
  route : α
  action : Str

/-- What a fetcher is called with. An event of another type is `none`: the zero
event in its place has no action. -/
inductive FetcherCall (α : Type)
  | fetchRoutes (first second : Attempt α)
  | handleEvent (event : Option (ApiEvent α))

-- ---------------------------------------------------------------------------
-- HTTP
-- ---------------------------------------------------------------------------

def Models.Route.newEndpoint (r : Models.Route) (ptr : Nat) : Endpoint :=
  BigipCtlr.newEndpoint ptr r.logGuid r.ip r.port r.logGuid r.getTTL r.modificationTag

def routeEquals (current desired : Models.Route) : Bool :=
  current.route = desired.route && current.ip = desired.ip && current.port = desired.port

structure HTTPFetcher where
  routeRegistry : Registry.RouteRegistry × List Registry.Sent
  endpoints : List Models.Route
  made : Nat

def newHTTPFetcher (routeRegistry : Registry.RouteRegistry) : HTTPFetcher :=
  ⟨(routeRegistry, []), [], 0⟩

namespace HTTPFetcher

def call (lower : Lower) (f : HTTPFetcher) (c : Registry.Call) : Option HTTPFetcher :=
  (Registry.RouteRegistry.step lower f.routeRegistry c).map fun s =>
    { f with routeRegistry := s, made := f.made + 1 }

def register (lower : Lower) (clock : Nat → Int) (f : HTTPFetcher) (aRoute : Models.Route) :
    Option HTTPFetcher :=
  f.call lower (.register aRoute.route (aRoute.newEndpoint f.made) (clock f.made))

def unregister (lower : Lower) (f : HTTPFetcher) (aRoute : Models.Route) : Option HTTPFetcher :=
  f.call lower (.unregister aRoute.route (aRoute.newEndpoint f.made))

def deleteEndpoints (lower : Lower) (f : HTTPFetcher) (validRoutes : List Models.Route) :
    Option HTTPFetcher :=
  run (unregister lower) f (Tagging.missing routeEquals f.endpoints validRoutes)

def refreshEndpoints (lower : Lower) (clock : Nat → Int) (f : HTTPFetcher)
    (validRoutes : List Models.Route) :
    Option HTTPFetcher := do
  let f ← f.deleteEndpoints lower validRoutes
  let f := { f with endpoints := validRoutes }
  run (register lower clock) f f.endpoints

def handleEvent (lower : Lower) (clock : Nat → Int) (f : HTTPFetcher) (e : ApiEvent Models.Route) :
    Option HTTPFetcher :=
  if e.action = "Delete".toList then f.unregister lower e.route
  else if e.action = "Upsert".toList then f.register lower clock e.route
  else some f

def step (lower : Lower) (clock : Nat → Int) (f : HTTPFetcher) :
    FetcherCall Models.Route → Option HTTPFetcher
  | .fetchRoutes first second =>
    match fetchWithTokenRefresh first second with
    | .error _ => some f
    | .ok routes => f.refreshEndpoints lower clock routes
  | .handleEvent none => some f
  | .handleEvent (some e) => f.handleEvent lower clock e

end HTTPFetcher

-- ---------------------------------------------------------------------------
-- TCP
-- ---------------------------------------------------------------------------

def Models.TcpRouteMapping.toRoutingTableEntry (routeMapping : Models.TcpRouteMapping) :
    UInt16 × BackendServerInfo :=
  (routeMapping.externalPort,
    { address := routeMapping.hostIP
      port := routeMapping.hostPort
      modificationTag := routeMapping.modificationTag
      ttl := routeMapping.ttl.getD 0 })

def routeEqualsTCP (old other : Models.TcpRouteMapping) : Bool :=
  old.externalPort = other.externalPort && old.hostIP =
    other.hostIP && old.hostPort = other.hostPort

structure TCPFetcher where
  routingTable : RoutingTable × List UpdateTCP
  endpoints : List Models.TcpRouteMapping
  made : Nat

def newTCPFetcher (routingTable : RoutingTable) : TCPFetcher := ⟨(routingTable, []), [], 0⟩

namespace TCPFetcher

def call (f : TCPFetcher) (c : TableCall) : TCPFetcher :=
  { f with routingTable := RoutingTable.serve f.routingTable c, made := f.made + 1 }

def upsert (clock : Nat → Int × Int) (f : TCPFetcher) (aRoute : Models.TcpRouteMapping) :
    TCPFetcher :=
  let (routingKey, backendServerInfo) := aRoute.toRoutingTableEntry
  f.call (.upsert routingKey backendServerInfo (clock f.made).1 (clock f.made).2)

def delete (clock : Nat → Int × Int) (f : TCPFetcher) (aRoute : Models.TcpRouteMapping) :
    TCPFetcher :=
  let (routingKey, backendServerInfo) := aRoute.toRoutingTableEntry
  f.call (.delete routingKey backendServerInfo (clock f.made).1)

def deleteTCPEndpoints (clock : Nat → Int × Int) (f : TCPFetcher)
    (validRoutes : List Models.TcpRouteMapping) :
    TCPFetcher :=
  (Tagging.missing routeEqualsTCP f.endpoints validRoutes).foldl (delete clock) f

def refreshTCPEndpoints (clock : Nat → Int × Int) (f : TCPFetcher)
    (validRoutes : List Models.TcpRouteMapping) :
    TCPFetcher :=
  let f := { f.deleteTCPEndpoints clock validRoutes with endpoints := validRoutes }
  f.endpoints.foldl (upsert clock) f

def handleEvent (clock : Nat → Int × Int) (f : TCPFetcher) (e : ApiEvent Models.TcpRouteMapping) :
    TCPFetcher :=
  if e.action = "Upsert".toList then f.upsert clock e.route
  else if e.action = "Delete".toList then f.delete clock e.route
  else f

def step (clock : Nat → Int × Int) (f : TCPFetcher) :
    FetcherCall Models.TcpRouteMapping → TCPFetcher
  | .fetchRoutes first second =>
    match fetchWithTokenRefresh first second with
    | .error _ => f
    | .ok routes => f.refreshTCPEndpoints clock routes
  | .handleEvent none => f
  | .handleEvent (some e) => f.handleEvent clock e

end TCPFetcher

end BigipCtlr
