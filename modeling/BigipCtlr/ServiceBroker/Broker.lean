import BigipCtlr.F5Router.Mapping

/-!
# The service broker

The plans with the IDs they get at a start, and the requests that bind a plan
to a route. A request is split where it changes the mapping of the router:
first its checks and the update it makes, then the change. A Go panic is
`none`.
-/

namespace BigipCtlr

open Go

def processPlans (plans : List Plan) (guids : List Str) : GoMap Str Plan :=
  (plans.zip guids).foldl (fun planMap (plan, guid) =>
    planMap.insert guid { plan with id := guid }) ∅

/-- The part of the request that `Bind` reads; `route` is that of the bind
resource, if there is one. -/
structure BindDetails where
  planID : Str
  route : Option Str

/-- `Bind` up to its update. The error for a missing bind ID is overwritten. -/
def F5Router.bindUpdate (r : F5Router) (details : BindDetails) : Option (Except Str UpdateHTTP) :=
  match details.route with
  | none | some [] => some (.error "only route services bindings are supported".toList)
  | some routeURI =>
    match r.verifyPlanExists details.planID with
    | .error err => some (.error err)
    | .ok _ => newUpdate .bind routeURI none details.planID

def F5Router.unbindUpdate (r : F5Router) (bindID : Str) : Option (Except Str UpdateHTTP) :=
  let routeURI := r.getRouteURIFromBindID bindID
  if routeURI = [] then some (.error ("unbind route not found for bindID: ".toList ++ bindID))
  else newUpdate .unbind routeURI none []

end BigipCtlr
