import BigipCtlr.F5Router.Update
import BigipCtlr.Registry.Trie
import BigipCtlr.Route.Pool

/-!
# The route registry

`RouteRegistry`: the pools of the routes in a trie, and the updates that go to
the listener when an endpoint comes or goes. A panic is `none`; clock readings
and the order of a walk over the trie are arguments.
-/

namespace BigipCtlr.Registry

open Go

inductive PruneStatus
  | connected
  | disconnected
  deriving DecidableEq

structure RouteRegistry where
  byURI : Trie Route.Pool
  pruningStatus : PruneStatus
  dropletStaleThreshold : Int64
  /-- Whether there is a listener. -/
  listener : Bool

def newRouteRegistry (dropletStaleThreshold : Int64) (listener : Bool) : RouteRegistry :=
  ⟨newTrie, .connected, dropletStaleThreshold, listener⟩

def parseContextPath (uri : Uri) : Str :=
  let contextPath := match splitN2 (trimPrefix uri.string "/".toList) '/' with
    | [_, rest] => '/' :: rest
    | _ => "/".toList
  contextPath.takeWhile (· ≠ '?')

/-- An update handed to the listener, with the node of the trie whose pool
changed. -/
structure Sent where
  node : List Str
  update : UpdateHTTP
  deriving DecidableEq

/-- `updateRouter`: an update that cannot be made is skipped. -/
def updateRouter (node : List Str) (op : Operation) (uri : Uri) (endpoint : Endpoint) :
    Option (List Sent) :=
  (newUpdate op uri (some endpoint) []).map fun
    | .ok update => [⟨node, update⟩]
    | .error _ => []

def RouteRegistry.updateIf (changed : Bool) (r : RouteRegistry) (node : List Str)
    (op : Operation) (uri : Uri) (endpoint : Endpoint) : Option (List Sent) :=
  if changed && r.listener then updateRouter node op uri endpoint else some []

def RouteRegistry.register (lower : Lower) (now : Int) (r : RouteRegistry) (uri : Uri)
    (endpoint : Endpoint) :
    Option (RouteRegistry × List Sent) := do
  let routekey := uri.routeKey lower
  let (pool, byURI, updateRoute) := match r.byURI.find routekey with
    | none =>
      let pool := Route.newPool (r.dropletStaleThreshold / 4) (parseContextPath uri)
      (pool, r.byURI.insert routekey pool, true)
    | some pool => (pool, r.byURI, (pool.findById endpoint.canonicalAddr).isNone)
  let (pool, endpointAdded) ← pool.put now endpoint
  let sent ← r.updateIf (endpointAdded && updateRoute) (segments routekey) .add routekey endpoint
  some ({ r with byURI := byURI.setPool (segments routekey) (some pool) }, sent)

def RouteRegistry.unregister (lower : Lower) (r : RouteRegistry) (uri : Uri) (endpoint : Endpoint) :
    Option (RouteRegistry × List Sent) :=
  let uri := uri.routeKey lower
  match r.byURI.find uri with
  | none => some (r, [])
  | some pool => do
    let (pool, endpointRemoved) ← pool.remove endpoint
    let byURI := r.byURI.setPool (segments uri) (some pool)
    let byURI ← byURI.deleteIf pool.isEmpty uri
    let sent ← r.updateIf endpointRemoved (segments uri) .remove uri endpoint
    some ({ r with byURI := byURI }, sent)

/-- The loop of `Lookup`, with the URI that matched. Each turn takes a label
off, so a bound on the labels left ends it. -/
def Trie.lookupFrom (t : Trie V) : Nat → Uri → Option (Uri × V)
  | 0, _ => none
  | labels + 1, uri =>
    match t.matchUri uri with
    | some pool => some (uri, pool)
    | none => uri.nextWildcard.bind (t.lookupFrom labels)

def RouteRegistry.lookupRoute (lower : Lower) (r : RouteRegistry) (uri : Uri) :
    Option (Uri × Route.Pool) :=
  let uri := uri.routeKey lower
  r.byURI.lookupFrom (uri.length + 1) uri

def RouteRegistry.lookup (lower : Lower) (r : RouteRegistry) (uri : Uri) : Option Route.Pool :=
  (r.lookupRoute lower uri).map Prod.snd

def RouteRegistry.lookupWithoutWildcard (lower : Lower) (r : RouteRegistry) (uri : Uri) :
    Option Route.Pool :=
  r.byURI.find (uri.routeKey lower)

def RouteRegistry.numUris (r : RouteRegistry) : Nat := r.byURI.poolCount

def RouteRegistry.pruneNode (r : RouteRegistry) (now : Int) (node : List Str) :
    Option (RouteRegistry × List Sent) :=
  match r.byURI.poolAt node with
  | none => some (r, [])
  | some pool => do
    let (pool, endpoints) ← pool.pruneEndpoints r.dropletStaleThreshold now
    let byURI := (r.byURI.setPool node (some pool)).snip Route.Pool.isEmpty node
    let sent ← endpoints.mapM fun e => r.updateIf true node .remove (toPath node) e
    some ({ r with byURI := byURI }, sent.flatten)

def RouteRegistry.pruneNodes (now : List Str → Int) : List (List Str) → RouteRegistry →
    Option (RouteRegistry × List Sent)
  | [], r => some (r, [])
  | node :: nodes, r => do
    let (r, sent) ← r.pruneNode (now node) node
    let (r, rest) ← pruneNodes now nodes r
    some (r, sent ++ rest)

def RouteRegistry.freshenRoutes (r : RouteRegistry) (now : Int) : RouteRegistry :=
  { r with byURI := r.byURI.eachPool (·.markUpdated now) }

def RouteRegistry.resume (r : RouteRegistry) (fresh : Int) : RouteRegistry :=
  { (if r.pruningStatus = .disconnected then r.freshenRoutes fresh else r) with
    pruningStatus := .connected }

/-- `pruneStaleDroplets`: `suspended` is what `suspendPruning` says, `fresh` the
clock of `freshenRoutes`, and `now` that of each pool. -/
def RouteRegistry.pruneStaleDroplets (suspended : Bool) (fresh : Int)
    (now : List Str → Int) (order : Order) (r : RouteRegistry) :
    Option (RouteRegistry × List Sent) :=
  if suspended then some ({ r with pruningStatus := .disconnected }, [])
  else
    let r := r.resume fresh
    RouteRegistry.pruneNodes now (order.visit r.byURI.nodesWithPool) r

-- ---------------------------------------------------------------------------
-- Runs
-- ---------------------------------------------------------------------------

inductive Call
  | register (uri : Uri) (endpoint : Endpoint) (now : Int)
  | unregister (uri : Uri) (endpoint : Endpoint)
  | prune (suspended : Bool) (fresh : Int) (now : List Str → Int) (order : Order)

def RouteRegistry.call (lower : Lower) (r : RouteRegistry) :
    Call → Option (RouteRegistry × List Sent)
  | .register uri endpoint now => r.register lower now uri endpoint
  | .unregister uri endpoint => r.unregister lower uri endpoint
  | .prune suspended fresh now order => r.pruneStaleDroplets suspended fresh now order

def RouteRegistry.step (lower : Lower) (s : RouteRegistry × List Sent) (c : Call) :
    Option (RouteRegistry × List Sent) :=
  (s.1.call lower c).map fun (r, sent) => (r, s.2 ++ sent)

def Call.endpoint : Call → Option Endpoint
  | .register _ endpoint _ => some endpoint
  | .unregister _ endpoint => some endpoint
  | .prune .. => none

def Call.uri : Call → Option Uri
  | .register uri _ _ => some uri
  | .unregister uri _ => some uri
  | .prune .. => none

end BigipCtlr.Registry
