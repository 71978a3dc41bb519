import BigipCtlr.F5Router.Update
import BigipCtlr.Go.Url
import Mathlib.Data.Char
import Mathlib.Data.List.Lex
import Mathlib.Data.List.Sort

/-!
# The routing policy

One rule for each route: conditions on the host and the path segments, and
an action that names the route's virtual server. The policy lists the rules
without a wildcard first, each group in descending order of the URI.
-/

namespace BigipCtlr

open Go

-- ---------------------------------------------------------------------------
-- Rules
-- ---------------------------------------------------------------------------

def routeAction (name : Str) : Action :=
  { name := "0".toList
    request := true
    expression := name
    tmName := "target_vip".toList
    tcl := true
    setVariable := true }

def hostCondition (index : Nat) (value : Str) : Condition :=
  { host := true
    httpHost := true
    name := itoa index
    index := index
    request := true
    values := [value] }

def segmentCondition (index : Nat) (segment : Str) : Condition :=
  { equals := true
    httpURI := true
    pathSegment := true
    name := itoa index
    index := index
    request := true
    values := [segment] }

/-- The conditions of a URI with a wildcard: the host starts with what stands
before the first wildcard of the host and ends with what stands after the
last. Without one in the host the second index is out of range. -/
def wildcardConditions (host : Str) : Option (List Condition) :=
  let splits := split host '*'
  let first := splits.headD []
  let starts := if hasPrefix host first ∧ first ≠ [] then
    [{ hostCondition 0 first with startsWith := true }] else []
  let splits := if hasPrefix host first then splits.drop 1 else splits
  match splits.getLast? with
  | none => none
  | some last =>
    let ends := if hasSuffix host last ∧ last ≠ [] then
      [{ hostCondition starts.length last with endsWith := true }] else []
    some (starts ++ ends)

/-- The conditions of a URI without a wildcard: the host and, from index one
on, the segments of its path. -/
def exactConditions (u : Url) : List Condition :=
  let path := u.escapedPath
  { hostCondition 0 u.host with equals := true } ::
    if path.length = 0 then []
    else (split (trimPrefix path "/".toList) '/').zipIdx.map fun (v, i) =>
      segmentCondition (i + 1) v

def makeRouteRule (ru : UpdateHTTP) : Option (Except Str Rule) :=
  let _u := trimSuffix ("scheme://".toList ++ ru.uri.string) "/".toList
  match urlParse _u with
  | none => some (.error ("parse ".toList ++ _u))
  | some u => do
    let uriString := ru.uri.string
    let c ← if '*' ∈ uriString then wildcardConditions u.host else some (exactConditions u)
    let ep ← ru.endpoint
    some (.ok {
      fullURI := uriString
      actions := [routeAction ru.name]
      conditions := c
      name := ru.name
      description := makeDescription uriString ep.applicationId })

-- ---------------------------------------------------------------------------
-- The policy
-- ---------------------------------------------------------------------------

/-- `sort.Sort(sort.Reverse(rls))` with `Less` on the full URI. The order of
equal URIs is that in which the loop over the map found them. -/
def sortDescending (rls : List Rule) : List Rule :=
  rls.insertionSort fun a b => b.fullURI ≤ a.fullURI

/-- The rules of one map, sorted and numbered from `ordinal` on. A nil rule is
dereferenced, which panics. -/
def sortRules (o : Order) (rules : GoMap Uri (Option Rule)) (ordinal : Nat) : Option (List Rule) :=
  ((rules.range o).mapM Prod.snd).map fun rls =>
    (sortDescending rls).zipIdx.map fun (v, i) => { v with ordinal := ordinal + i }

def makeRoutePolicy (o : Order) (r wildcards : GoMap Uri (Option Rule)) (policyName : Str) :
    Option Policy := do
  let rls ← sortRules o r 0
  let w ← sortRules o wildcards r.size
  some {
    controls := ["forwarding".toList]
    legacy := true
    name := policyName
    requires := ["http".toList]
    rules := rls ++ w
    strategy := "/Common/first-match".toList }

end BigipCtlr
