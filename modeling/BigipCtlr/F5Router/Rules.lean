import BigipCtlr.F5Router.Names
import BigipCtlr.F5Router.Routing

/-!
# The rule of a wildcard route

`makeRouteRule` looks for the `*` in the whole URI and splits the host at it.
With the `*` outside the host the split has one piece, which is taken as the
start of the host, and there is no last piece to read. With the `*` in the
host the rule has one condition for what stands before and one for what stands
after it, and none for the path.
-/

namespace BigipCtlr

open Go Lib

def UpdateHTTP.url (ru : UpdateHTTP) : Option Url :=
  urlParse (trimSuffix ("scheme://".toList ++ ru.uri.string) "/".toList)

-- ---------------------------------------------------------------------------
-- The conditions on the host
-- ---------------------------------------------------------------------------

theorem split_ne_nil (s : Str) (sep : Char) : split s sep ≠ [] := by
  intro h
  have hlen := split_length s sep
  rw [h] at hlen
  cases hlen

theorem wildcardConditions_append (ha : '*' ∉ a) (b : Str) :
    wildcardConditions (a ++ '*' :: b) = (split b '*').getLast?.map fun last =>
      let starts := if a ≠ [] then [{ hostCondition 0 a with startsWith := true }] else []
      starts ++ if hasSuffix (a ++ '*' :: b) last ∧ last ≠ [] then
        [{ hostCondition starts.length last with endsWith := true }] else [] := by
  have hpre : hasPrefix (a ++ '*' :: b) a = true := hasPrefix_iff.mpr (List.prefix_append _ _)
  simp only [wildcardConditions, split_cons_of_notMem ha, List.headD_cons, hpre, true_and, if_true,
    List.drop_succ_cons, List.drop_zero]
  cases (split b '*').getLast? <;> rfl

theorem wildcardConditions_isSome_iff (host : Str) :
    (wildcardConditions host).isSome = true ↔ '*' ∈ host := by
  by_cases h : '*' ∈ host
  · obtain ⟨a, b, rfl, ha⟩ := List.eq_append_cons_of_mem h
    rw [wildcardConditions_append ha, Option.isSome_map, List.getLast?_isSome]
    exact iff_of_true (split_ne_nil b '*') h
  · have hpre : hasPrefix host host = true := hasPrefix_iff.mpr List.prefix_rfl
    simp [wildcardConditions, split_of_notMem h, hpre, h]

-- ---------------------------------------------------------------------------
-- Which rules can be made
-- ---------------------------------------------------------------------------

def ruleConditions (uriString : Str) (u : Url) : Option (List Condition) :=
  if '*' ∈ uriString then wildcardConditions u.host else some (exactConditions u)

theorem makeRouteRule_of_url {ru : UpdateHTTP} (hurl : ru.url = some u)
    (hep : ru.endpoint = some ep) :
    makeRouteRule ru = (ruleConditions ru.uri.string u).map fun c => .ok {
      fullURI := ru.uri.string
      actions := [routeAction ru.name]
      conditions := c
      name := ru.name
      description := makeDescription ru.uri.string ep.applicationId } := by
  have hparse : urlParse (trimSuffix ("scheme://".toList ++ ru.uri.string) "/".toList) =
      some u := hurl
  simp only [makeRouteRule, hparse, hep, ruleConditions]
  split
  · cases wildcardConditions u.host <;> rfl
  · rfl

theorem makeRouteRule_error_iff (ru : UpdateHTTP) :
    (∃ err, makeRouteRule ru = some (.error err)) ↔ ru.url = none := by
  simp only [makeRouteRule, UpdateHTTP.url]
  cases urlParse (trimSuffix ("scheme://".toList ++ ru.uri.string) "/".toList) with
  | none => simp
  | some u =>
    refine iff_of_false ?_ (by simp)
    rintro ⟨err, herr⟩
    simp only at herr
    split at herr
    all_goals
      obtain ⟨c, -, herr⟩ := Option.bind_eq_some_iff.mp herr
      obtain ⟨ep, -, herr⟩ := Option.bind_eq_some_iff.mp herr
      cases herr

/-- For a URL that parses a rule is made exactly when the wildcard, if there is
one, stands in the host; otherwise an index is out of range. -/
theorem makeRouteRule_total_iff {ru : UpdateHTTP} (hurl : ru.url = some u)
    (hep : ru.endpoint = some ep) :
    ((∃ rule, makeRouteRule ru = some (.ok rule)) ↔ ('*' ∈ ru.uri.string → '*' ∈ u.host)) ∧
      (makeRouteRule ru = none ↔ '*' ∈ ru.uri.string ∧ '*' ∉ u.host) ∧
      ∀ r : F5Router, (r.addRule ru).isSome = true ↔ ('*' ∈ ru.uri.string → '*' ∈ u.host) := by
  have hsome : (makeRouteRule ru).isSome = true ↔ ('*' ∈ ru.uri.string → '*' ∈ u.host) := by
    rw [makeRouteRule_of_url hurl hep, Option.isSome_map, ruleConditions]
    split
    · next hstar => simp [wildcardConditions_isSome_iff, hstar]
    · next hstar => simp [hstar]
  refine ⟨⟨?_, fun h => ?_⟩, ?_, fun r => ?_⟩
  · rintro ⟨rule, hrule⟩
    exact hsome.mp (by rw [hrule]; rfl)
  · rw [← hsome, makeRouteRule_of_url hurl hep, Option.isSome_map] at h
    obtain ⟨c, hc⟩ := Option.isSome_iff_exists.mp h
    rw [makeRouteRule_of_url hurl hep, hc]
    exact ⟨_, rfl⟩
  · rw [← Option.not_isSome_iff_eq_none, hsome]
    simp
  · rw [F5Router.addRule, Option.isSome_map, hsome]

namespace Sample

def wild (uri name : Str) (h : makeObjectName (Uri.string uri) = some name) : UpdateHTTP :=
  addUpdate uri name (endpoint 1) h

def wildA : UpdateHTTP := wild "*.a".toList "cf-a".toList (by decide)

def wildPath : UpdateHTTP := wild "a.b/*".toList "cf-a.b/_".toList (by decide)

end Sample

theorem makeRouteRule_total_iff_sample :
    (∃ u, Sample.wildA.url = some u ∧ '*' ∈ u.host) ∧
      ∃ rule, makeRouteRule Sample.wildA = some (.ok rule) := by
  have hurl : Sample.wildA.url = some ⟨"*.a".toList, [], []⟩ := by decide +kernel
  exact ⟨⟨_, hurl, by decide⟩, (makeRouteRule_total_iff hurl rfl).1.mpr fun _ => by decide⟩

/-- A URI with one wildcard, in its path, that passes `verifyRouteURI` and
`url.Parse`. -/
theorem makeRouteRule_wildcard_path :
    (verifyRouteURI Sample.wildPath).toBool = true ∧ Sample.wildPath.url.isSome = true ∧
      Sample.wildPath.endpoint.isSome = true ∧ makeRouteRule Sample.wildPath = none := by
  decide +kernel

-- ---------------------------------------------------------------------------
-- What a wildcard rule matches
-- ---------------------------------------------------------------------------

def Go.Url.segments (u : Url) : List Str :=
  if u.escapedPath.length = 0 then [] else split (trimPrefix u.escapedPath "/".toList) '/'

/-- The request that a pattern `pre*post` with a path stands for. -/
def Glob (pre post : Str) (segments : List Str) (q : Request) : Prop :=
  (∃ w, q.host = pre ++ w ++ post) ∧ segments <+: q.segments

theorem wildcardConditions_hold_iff (hpre : '*' ∉ pre) (hpost : '*' ∉ post)
    (hc : wildcardConditions (pre ++ '*' :: post) = some c) (q : Request) :
    c.all (·.holds q) = true ↔ pre <+: q.host ∧ post <:+ q.host := by
  have hsuf : hasSuffix (pre ++ '*' :: post) post = true :=
    hasSuffix_iff.mpr ⟨pre ++ ['*'], by simp⟩
  rw [wildcardConditions_append hpre, split_of_notMem hpost, List.getLast?_singleton,
    Option.map_some] at hc
  cases hc
  simp only [hsuf, true_and]
  by_cases h₁ : pre = [] <;> by_cases h₂ : post = [] <;>
    simp [h₁, h₂, Condition.holds, hostCondition, hasPrefix_iff, hasSuffix_iff]

/-- The rule of a wildcard route matches exactly its pattern if and only if the
URI has no path and what stands before the wildcard does not overlap with what
stands after it. -/
theorem wildcard_matches_iff {ru : UpdateHTTP} (hstar : '*' ∈ ru.uri.string)
    (hurl : ru.url = some u) (hhost : u.host = pre ++ '*' :: post) (hpre : '*' ∉ pre)
    (hpost : '*' ∉ post) (hep : ru.endpoint = some ep) :
    ∃ rule, makeRouteRule ru = some (.ok rule) ∧
      ((∀ q, rule.holds q = true ↔ Glob pre post u.segments q) ↔
        u.segments = [] ∧ ¬ Overlaps pre post) := by
  obtain ⟨c, hc⟩ :=
    Option.isSome_iff_exists.mp ((wildcardConditions_isSome_iff u.host).mpr (by simp [hhost]))
  have hrule := makeRouteRule_of_url hurl hep
  rw [ruleConditions, if_pos hstar, hc, Option.map_some] at hrule
  rw [hhost] at hc
  refine ⟨_, hrule, ?_⟩
  simp only [Rule.holds, wildcardConditions_hold_iff hpre hpost hc]
  constructor
  · intro h
    have hsegs : u.segments = [] := by
      have hroot := (h ⟨pre ++ post, []⟩).mp ⟨List.prefix_append _ _, List.suffix_append _ _⟩
      exact List.prefix_nil.mp hroot.2
    refine ⟨hsegs, (forall_between_iff pre post).mp fun host hstart hend => ?_⟩
    exact ((h ⟨host, []⟩).mp ⟨hstart, hend⟩).1
  · rintro ⟨hsegs, hover⟩ q
    rw [Glob, hsegs]
    constructor
    · rintro ⟨hstart, hend⟩
      exact ⟨(forall_between_iff pre post).mpr hover _ hstart hend, List.nil_prefix⟩
    · rintro ⟨⟨w, hw⟩, -⟩
      rw [hw]
      exact ⟨⟨w ++ post, by simp⟩, List.suffix_append _ _⟩

theorem wildcard_matches_iff_sample :
    ∃ rule, makeRouteRule Sample.wildA = some (.ok rule) ∧ ∀ q, rule.holds q = true ↔
      Glob [] ".a".toList [] q := by
  have hurl : Sample.wildA.url = some ⟨"*.a".toList, [], []⟩ := by decide +kernel
  have hhost : "*.a".toList = [] ++ '*' :: ".a".toList := rfl
  obtain ⟨rule, hrule, hiff⟩ :=
    wildcard_matches_iff (by decide) hurl hhost (by decide) (by decide) rfl
  refine ⟨rule, hrule, hiff.mpr ⟨by decide, ?_⟩⟩
  rintro ⟨x, hx, hsuf, -⟩
  exact hx (List.suffix_nil.mp hsuf)

namespace Sample

def wildOverlap : UpdateHTTP := wild "ab*ba".toList "cf-ab_ba".toList (by decide)

def wildSegment : UpdateHTTP := wild "*.a/x".toList "cf-a/x".toList (by decide)

end Sample

/-- The host `aba` has no room for `ab` and `ba`, and the path of `*.a/x` is not
asked for. -/
theorem wildcard_matches_more :
    (∃ u ∈ Sample.wildOverlap.url, u.host = "ab*ba".toList ∧
        ∃ rule ∈ (makeRouteRule Sample.wildOverlap).bind Except.toOption,
          rule.holds ⟨"aba".toList, []⟩ = true ∧
          ¬ Glob "ab".toList "ba".toList u.segments ⟨"aba".toList, []⟩) ∧
      ∃ u ∈ Sample.wildSegment.url, u.host = "*.a".toList ∧
        ∃ rule ∈ (makeRouteRule Sample.wildSegment).bind Except.toOption,
          rule.holds ⟨"b.a".toList, []⟩ = true ∧
          ¬ Glob [] ".a".toList u.segments ⟨"b.a".toList, []⟩ := by
  have hholds : (∃ u ∈ Sample.wildOverlap.url, u.host = "ab*ba".toList ∧
        ∃ rule ∈ (makeRouteRule Sample.wildOverlap).bind Except.toOption,
          rule.holds ⟨"aba".toList, []⟩ = true) ∧
      ∃ u ∈ Sample.wildSegment.url, u.host = "*.a".toList ∧ u.segments = ["x".toList] ∧
        ∃ rule ∈ (makeRouteRule Sample.wildSegment).bind Except.toOption,
          rule.holds ⟨"b.a".toList, []⟩ = true := by
    decide +kernel
  obtain ⟨⟨u, hu, huri, rule, hrule, hhost⟩, u', hu', huri', hsegs, rule', hrule', hpath⟩ := hholds
  refine ⟨⟨u, hu, huri, rule, hrule, hhost, ?_⟩, u', hu', huri', rule', hrule', hpath, ?_⟩
  · rintro ⟨⟨w, hw⟩, -⟩
    have hlen := congrArg List.length hw
    simp at hlen
  · rintro ⟨-, h⟩
    rw [hsegs] at h
    cases List.prefix_nil.mp h

end BigipCtlr
