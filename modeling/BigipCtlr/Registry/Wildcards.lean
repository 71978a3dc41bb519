import BigipCtlr.F5Router.Routing
import BigipCtlr.Registry.Table

/-!
# Wildcard routes in the registry and in the policy

For a host without an exact route `Lookup` takes off one label after the
other and so finds the longest wildcard route that is registered. The policy
takes the one whose URI is the greatest. The two agree where the longest is
the greatest, for a host in lower case.
-/

namespace BigipCtlr.Registry

open Go Lib

/-- A wildcard URI: a star, a dot and characters that stand for themselves in a
host. -/
structure WildcardURI where
  suffix : Str
  plain : ∀ c ∈ suffix, isHostByte c = true ∧ c ≠ '*'

def wildcardOf (suffix : Str) : Uri := '*' :: '.' :: suffix

def WildcardURI.uri (x : WildcardURI) : Uri := wildcardOf x.suffix

def Covers (suffix host : Str) : Prop := '.' :: suffix <:+ host

instance : Decidable (Covers suffix host) := inferInstanceAs (Decidable (_ <:+ _))

-- ---------------------------------------------------------------------------
-- The rule of a wildcard
-- ---------------------------------------------------------------------------

theorem WildcardURI.slash_notMem (x : WildcardURI) : '/' ∉ x.uri := by
  intro h
  simp only [WildcardURI.uri, wildcardOf, List.mem_cons] at h
  rcases h with h | h | h
  · cases h
  · cases h
  · exact absurd (x.plain _ h).1 (by decide)

theorem WildcardURI.string_uri (x : WildcardURI) : Uri.string x.uri = x.uri :=
  trimSuffix_slash (t := []) (List.cons_ne_nil _ _) x.slash_notMem

theorem WildcardURI.urlParse (x : WildcardURI) :
    Go.urlParse (trimSuffix ("scheme://".toList ++ Uri.string x.uri) "/".toList) =
      some ⟨x.uri, [], []⟩ := by
  have hne : x.uri ≠ [] := List.cons_ne_nil _ _
  rw [x.string_uri, trimSuffix_slash hne x.slash_notMem,
    ← List.append_nil ("scheme://".toList ++ x.uri)]
  refine urlParse_plain (by simp [WildcardURI.uri, wildcardOf]) (fun c hc => ?_)
    (by simp) (.inl rfl)
  simp only [WildcardURI.uri, wildcardOf, List.mem_cons] at hc
  rcases hc with rfl | rfl | hc
  · decide
  · decide
  · exact (x.plain c hc).1

theorem WildcardURI.split_uri (x : WildcardURI) : split x.uri '*' = [[], '.' :: x.suffix] := by
  have hstar : '*' ∉ '.' :: x.suffix := by
    intro h
    rcases List.mem_cons.mp h with h | h
    · cases h
    · exact (x.plain _ h).2 rfl
  have hjoin : x.uri = ['*'].intercalate [[], '.' :: x.suffix] := by
    simp [WildcardURI.uri, wildcardOf, List.intercalate]
  rw [hjoin, split]
  refine List.splitOn_intercalate '*' (fun s hs => ?_) (by simp)
  simp only [List.mem_cons, List.not_mem_nil, or_false] at hs
  rcases hs with rfl | rfl
  · simp
  · exact hstar

theorem WildcardURI.conditions (x : WildcardURI) :
    wildcardConditions x.uri =
      some [{ hostCondition 0 ('.' :: x.suffix) with endsWith := true }] := by
  have hends : hasSuffix x.uri ('.' :: x.suffix) = true := hasSuffix_iff.mpr ⟨"*".toList, rfl⟩
  have hstarts : hasPrefix x.uri [] = true := hasPrefix_iff.mpr List.nil_prefix
  simp [wildcardConditions, x.split_uri, hends, hstarts]

theorem WildcardURI.holds_iff (x : WildcardURI) (hu : ru.uri = x.uri)
    (hrule : makeRouteRule ru = some (.ok rule)) :
    rule.holds q = true ↔ Covers x.suffix q.host := by
  have hstar : '*' ∈ Uri.string ru.uri := by
    rw [hu, x.string_uri]
    exact List.mem_cons_self
  simp only [makeRouteRule, hu ▸ x.urlParse, if_pos hstar] at hrule
  obtain ⟨conditions, hc, hrule⟩ := Option.bind_eq_some_iff.mp hrule
  obtain ⟨ep, -, hrule⟩ := Option.bind_eq_some_iff.mp hrule
  rw [hu, x.conditions] at hc
  cases hc
  cases hrule
  simp [Rule.holds, Condition.holds, hostCondition, Covers, hasSuffix_iff]

-- ---------------------------------------------------------------------------
-- The lookup
-- ---------------------------------------------------------------------------

section
variable {V : Type} {t : Trie V}

theorem segments_host {u : Uri} (h : '/' ∉ u) : segments u = [u] := by
  have hsuf : ¬ "/".toList <:+ u := fun hs => h (hs.subset (by simp))
  have hpre : ¬ "/".toList <+: u := fun hp => h (hp.subset (by simp))
  have hjoin : u = ['/'].intercalate [u] := by simp [List.intercalate]
  rw [segments, Uri.string, trimSuffix_of_not hsuf, trimPrefix_of_not hpre, split]
  nth_rewrite 1 [hjoin]
  exact List.splitOn_intercalate '/' (by simpa using h) (by simp)

theorem matchUri_host {u : Uri} (h : '/' ∉ u) : t.matchUri u = t.poolAt [u] := by
  simp only [Trie.matchUri, segments_host h, Trie.matchFrom, List.nil_append,
    Trie.poolAt_root, Option.none_or]
  split
  · cases t.poolAt [u] <;> rfl
  · next hno => rw [Trie.poolAt_of_notMem hno]

theorem nextWildcard_of_notMem {u : Uri} (h : '.' ∉ trimPrefix u.string "*.".toList) :
    u.nextWildcard = none := by
  simp only [Uri.nextWildcard, index, Option.map_eq_none_iff]
  exact List.idxOf?_eq_none_iff.mpr h

theorem nextWildcard_of_label {u : Uri} (h : trimPrefix u.string "*.".toList = a ++ '.' :: b)
    (ha : '.' ∉ a) :
    u.nextWildcard = some (wildcardOf b) := by
  have hidx : index (a ++ '.' :: b) '.' = some a.length := by
    rw [index, List.idxOf?_eq_some_iff]
    refine ⟨by simp, by simp, fun j hj hdot => ha ?_⟩
    rw [List.getElem_append_left hj] at hdot
    exact hdot ▸ List.getElem_mem hj
  simp only [Uri.nextWildcard, h, hidx, Option.map_some]
  simp [wildcardOf]

def Below (suffix host : Str) : Prop := suffix = host ∨ Covers suffix host

theorem covers_cons : Covers s (c :: l) ↔ (c = '.' ∧ s = l) ∨ Covers s l := by
  simp only [Covers, List.suffix_cons_iff, List.cons.injEq, eq_comm]

theorem not_covers (h : '.' ∉ l) : ¬ Covers s l := fun hs => h (hs.subset List.mem_cons_self)

theorem covers_label (ha : '.' ∉ a) : Covers s (a ++ '.' :: b) ↔ Below s b := by
  induction a with
  | nil => simp [covers_cons, Below]
  | cons c a ih =>
    have hc : c ≠ '.' := fun h => ha (h ▸ List.mem_cons_self)
    rw [List.cons_append, covers_cons, ih fun h => ha (List.mem_cons_of_mem _ h)]
    simp [hc]

/-- The outcome of a search: the longest wildcard registered among those of
some suffixes. -/
def Longest (t : Trie V) (among : Str → Prop) : Option (Uri × V) → Prop
  | none => ∀ s, among s → t.poolAt [wildcardOf s] = none
  | some (u, pool) => ∃ s, u = wildcardOf s ∧ among s ∧ t.poolAt [wildcardOf s] = some pool ∧
    ∀ s', among s' → t.poolAt [wildcardOf s'] ≠ none → s'.length ≤ s.length

theorem Longest.congr (h : ∀ s, among s ↔ among' s) : Longest t among x ↔ Longest t among' x := by
  rw [funext fun s => propext (h s)]

theorem Below.length_le (h : Below s l) : s.length ≤ l.length := by
  rcases h with rfl | h
  · exact Nat.le_refl _
  · exact Nat.le_of_succ_le h.length_le

theorem Longest.skip (hnone : t.poolAt [wildcardOf s] = none) (h : Longest t (Covers · s) x) :
    Longest t (Below · s) x := by
  cases x with
  | none =>
    rintro s' (rfl | hs')
    · exact hnone
    · exact h s' hs'
  | some found =>
    obtain ⟨b, hu, hb, hpool, hmax⟩ := h
    refine ⟨b, hu, .inr hb, hpool, ?_⟩
    rintro s' (rfl | hs') hsome
    · exact absurd hnone hsome
    · exact hmax s' hs' hsome

/-- From a wildcard on, the loop finds the longest one. -/
theorem lookupFrom_wildcard (hs : '/' ∉ s) (hn : s.length < n) :
    Longest t (Below · s) (t.lookupFrom n (wildcardOf s)) := by
  induction n generalizing s with
  | zero => cases hn
  | succ n ih =>
    have hslash : '/' ∉ wildcardOf s := by simp [wildcardOf, hs]
    have htrim : trimPrefix (Uri.string (wildcardOf s)) "*.".toList = s := by
      have hstring : Uri.string (wildcardOf s) = "*.".toList ++ s :=
        trimSuffix_slash (t := []) (List.cons_ne_nil _ _) hslash
      rw [hstring, trimPrefix_append]
    rw [Trie.lookupFrom, matchUri_host hslash]
    cases hpool : t.poolAt [wildcardOf s] with
    | some pool => exact ⟨s, rfl, .inl rfl, hpool, fun s' hs' _ => hs'.length_le⟩
    | none =>
      refine Longest.skip hpool ?_
      by_cases hdot : '.' ∈ s
      · obtain ⟨a, b, rfl, ha⟩ := List.eq_append_cons_of_mem hdot
        simp only [nextWildcard_of_label htrim ha, Option.bind_some]
        rw [Longest.congr fun _ => covers_label ha]
        refine ih (fun h => hs (by simp [h])) ?_
        simp only [List.length_append, List.length_cons] at hn
        omega
      · simp only [nextWildcard_of_notMem (htrim ▸ hdot), Option.bind_none]
        exact fun s' hs' => absurd hs' (not_covers hdot)

end

theorem routeKey_host (lower : Lower) {host : Uri} (hslash : '/' ∉ host) (hquery : '?' ∉ host) :
    host.routeKey lower = host.map lower.toLower := by
  have hsuf : ¬ "/".toList <:+ host := fun hs => hslash (hs.subset (by simp))
  rw [Uri.routeKey, Uri.toLower, Uri.string, trimSuffix_of_not hsuf]
  refine List.takeWhile_eq_self_iff.mpr fun c hc => decide_eq_true fun h => hquery ?_
  exact (lower.mem_map_iff (by decide) (by decide)).mp (h ▸ hc)

theorem lookupRoute_longest {r : RouteRegistry} (hslash : '/' ∉ host) (hquery : '?' ∉ host)
    (hexact : ∀ pool, r.byURI.poolAt [host.map lower.toLower] = some pool →
      ∃ s, host.map lower.toLower = wildcardOf s) :
    Longest r.byURI (Covers · (host.map lower.toLower)) (r.lookupRoute lower host) := by
  have hkey : '/' ∉ host.map lower.toLower :=
    mt (lower.mem_map_iff (by decide) (by decide)).mp hslash
  rw [RouteRegistry.lookupRoute, routeKey_host lower hslash hquery]
  generalize host.map lower.toLower = key at hexact hkey ⊢
  by_cases hwild : ∃ s, key = wildcardOf s
  · obtain ⟨s, rfl⟩ := hwild
    have hcover : ∀ s', Covers s' (wildcardOf s) ↔ Below s' s := by
      intro s'
      simp [wildcardOf, covers_cons, Below]
    rw [Longest.congr hcover]
    refine lookupFrom_wildcard (fun h => hkey (by simp [wildcardOf, h])) ?_
    simp only [wildcardOf, List.length_cons]
    omega
  · have hnone : r.byURI.poolAt [key] = none := by
      cases hpool : r.byURI.poolAt [key] with
      | none => rfl
      | some pool => exact absurd (hexact pool hpool) hwild
    have htrim : trimPrefix (Uri.string key) "*.".toList = key := by
      rw [Uri.string, trimSuffix_of_not fun hs => hkey (hs.subset (by simp))]
      refine trimPrefix_of_not ?_
      rintro ⟨s, hs⟩
      exact hwild ⟨s, hs.symm⟩
    simp only [Trie.lookupFrom, matchUri_host hkey, hnone]
    by_cases hdot : '.' ∈ key
    · obtain ⟨a, b, rfl, ha⟩ := List.eq_append_cons_of_mem hdot
      simp only [nextWildcard_of_label htrim ha, Option.bind_some]
      rw [Longest.congr fun _ => covers_label ha]
      refine lookupFrom_wildcard (fun h => hkey (by simp [h])) ?_
      simp only [List.length_append, List.length_cons]
      omega
    · simp only [nextWildcard_of_notMem (htrim ▸ hdot), Option.bind_none]
      exact fun s' hs' => absurd hs' (not_covers hdot)

-- ---------------------------------------------------------------------------
-- The two compared
-- ---------------------------------------------------------------------------

def LongestIn (wildcards : GoMap Uri (Option Rule)) (host s : Str) : Prop :=
  wildcardOf s ∈ wildcards ∧ Covers s host ∧
    ∀ s', wildcardOf s' ∈ wildcards → Covers s' host → s'.length ≤ s.length

def GreatestIn (wildcards : GoMap Uri (Option Rule)) (host s : Str) : Prop :=
  wildcardOf s ∈ wildcards ∧ Covers s host ∧
    ∀ s', wildcardOf s' ∈ wildcards → Covers s' host → wildcardOf s' ≤ wildcardOf s

theorem LongestIn.unique (h : LongestIn wildcards host s) (h' : LongestIn wildcards host s') :
    s = s' := by
  have hlen : s.length = s'.length := Nat.le_antisymm (h'.2.2 s h.1 h.2.1) (h.2.2 s' h'.1 h'.2.1)
  have hsuf := List.suffix_of_suffix_length_le h.2.1 h'.2.1 (by simp [hlen])
  exact List.cons_inj_right '.' |>.mp (hsuf.eq_of_length (by simp [hlen]))

theorem Covers.map_lower (h : Covers s host) (hs : s.map lower.toLower = s) :
    Covers s (host.map (Lower.toLower lower)) := by
  have hdot : lower.toLower '.' = '.' := (lower.toLower_eq_iff (by decide) (by decide)).mpr rfl
  simpa [Covers, hdot, hs] using h.map lower.toLower

def Wild (lower : Lower) (wildcards : GoMap Uri (Option Rule)) : Prop :=
  ∀ u ∈ wildcards, ∃ x : WildcardURI, x.uri = u ∧ x.suffix.map lower.toLower = x.suffix

def Rule.matchesWildcard (q : BigipCtlr.Request) (rule : Rule) : Bool :=
  '*' ∈ rule.fullURI && rule.holds q

def RuleOf (s : Str) (rule : Rule) : Prop :=
  rule.fullURI = wildcardOf s ∧ ∀ q, Rule.matchesWildcard q rule = true ↔ Covers s q.host

section
variable {wildcards : GoMap Uri (Option Rule)} {lower : Lower} (h : Wild lower wildcards)
  (hw : Made wildcards)
include h hw

theorem Wild.ruleOf (hv : wildcards.lookup u = some (some v)) :
    ∃ s, u = wildcardOf s ∧ ∀ i, RuleOf s { v with ordinal := i } := by
  obtain ⟨x, rfl, -⟩ := h u (GoMap.mem_iff.mpr ⟨_, hv⟩)
  obtain ⟨ru, rule, hru, hrule, hsome⟩ := hw _ _ hv
  cases hsome
  have huri : v.fullURI = x.uri := (hw.fullURI hv).trans x.string_uri
  have hmatches : ∀ q, Rule.matchesWildcard q v = true ↔ Covers x.suffix q.host := by
    intro q
    rw [← x.holds_iff hru hrule]
    simp [Rule.matchesWildcard, huri, WildcardURI.uri, wildcardOf]
  exact ⟨x.suffix, rfl, fun i => ⟨huri, hmatches⟩⟩

theorem Wild.of_mem (hranked : Ranked wildcards k w) {rule : Rule} (hrule : rule ∈ w) :
    ∃ s, wildcardOf s ∈ wildcards ∧ RuleOf s rule := by
  obtain ⟨u, v, hv, hrv⟩ := hranked.mem rule hrule
  obtain ⟨s, rfl, hof⟩ := h.ruleOf hw hv
  exact ⟨s, GoMap.mem_iff.mpr ⟨_, hv⟩, hrv ▸ hof rule.ordinal⟩

theorem Wild.exists_rule (hranked : Ranked wildcards k w) (hs : wildcardOf s ∈ wildcards) :
    ∃ rule ∈ w, RuleOf s rule := by
  obtain ⟨y, hy⟩ := GoMap.mem_iff.mp hs
  obtain ⟨ru, v, -, -, rfl⟩ := hw _ _ hy
  obtain ⟨s', hs', hof⟩ := h.ruleOf hw hy
  obtain rfl : s = s' := by simpa [wildcardOf] using hs'
  obtain ⟨i, hi⟩ := hranked.all _ _ hy
  exact ⟨_, hi, hof i⟩

/-- The first rule that holds is that of the greatest URI. -/
theorem Wild.find?_eq_some_iff (hsort : sortRules o wildcards k = some w)
    (q : BigipCtlr.Request) (s : Str) :
    (w.find? (Rule.matchesWildcard q)).map Rule.fullURI = some (wildcardOf s) ↔
      GreatestIn wildcards q.host s := by
  have hranked := sortRules_ranked hsort
  have hnodup := sortRules_nodup hsort fun u v hv => by
    obtain ⟨s, rfl, hof⟩ := h.ruleOf hw hv
    exact (hof v.ordinal).1
  simp only [Option.map_eq_some_iff, find?_eq_some_iff_above hranked.sorted hnodup]
  constructor
  · rintro ⟨rule, ⟨hrule, hholds, hmax⟩, huri⟩
    obtain ⟨s', hs', hof⟩ := h.of_mem hw hranked hrule
    obtain rfl : s' = s := by simpa [wildcardOf] using hof.1.symm.trans huri
    refine ⟨hs', (hof.2 q).mp hholds, fun s₁ hs₁ hcovers => ?_⟩
    obtain ⟨rule₁, hrule₁, hof₁⟩ := h.exists_rule hw hranked hs₁
    have habove := hmax rule₁ hrule₁ ((hof₁.2 q).mpr hcovers)
    rwa [Rule.Above, hof₁.1, hof.1] at habove
  · rintro ⟨hs, hcovers, hmax⟩
    obtain ⟨rule, hrule, hof⟩ := h.exists_rule hw hranked hs
    refine ⟨rule, ⟨hrule, (hof.2 q).mpr hcovers, fun rule₁ hrule₁ hholds => ?_⟩, hof.1⟩
    obtain ⟨s₁, hs₁, hof₁⟩ := h.of_mem hw hranked hrule₁
    rw [Rule.Above, hof₁.1, hof.1]
    exact hmax s₁ hs₁ ((hof₁.2 q).mp hholds)

theorem Wild.find?_eq_none (hsort : sortRules o wildcards k = some w) (q : BigipCtlr.Request)
    (hno : ∀ s, wildcardOf s ∈ wildcards → ¬ Covers s q.host) :
    w.find? (Rule.matchesWildcard q) = none := by
  refine List.find?_eq_none.mpr fun rule hrule hholds => ?_
  obtain ⟨s, hs, hof⟩ := h.of_mem hw (sortRules_ranked hsort) hrule
  exact hno s hs ((hof.2 q).mp hholds)

end

theorem find?_exact (hr : Made exact) (hplain : ∀ u ∈ exact, '*' ∉ u.string)
    (hrls : sortRules o exact k = some rls) :
    rls.find? (Rule.matchesWildcard q) = none := by
  refine List.find?_eq_none.mpr fun rule hrule => ?_
  obtain ⟨u, v, hv, hrv⟩ := (sortRules_ranked hrls).mem rule hrule
  have hstar : '*' ∉ rule.fullURI := by
    rw [hrv]
    exact hr.fullURI hv ▸ hplain u (GoMap.mem_iff.mpr ⟨_, hv⟩)
  simp [Rule.matchesWildcard, hstar]

/-- The first wildcard rule of the policy is that of the route `Lookup` finds
exactly where the longest wildcard for the host in lower case covers the host
as it was sent, and no other that does has a greater URI. -/
theorem wildcard_rule_eq_lookup_iff (lower : Lower) (hr : Made exact)
    (hplain : ∀ u ∈ exact, '*' ∉ u.string) (hw : Made wildcards)
    (hform : ∀ u ∈ wildcards, ∃ x : WildcardURI, x.uri = u ∧ x.suffix.map lower.toLower = x.suffix)
    (o : Order) (name : Str) (r : RouteRegistry)
    (hreg : ∀ s, r.byURI.poolAt [wildcardOf s] ≠ none ↔ wildcardOf s ∈ wildcards) :
    ∃ policy, makeRoutePolicy o exact wildcards name = some policy ∧
      ∀ q : BigipCtlr.Request, '/' ∉ q.host → '?' ∉ q.host →
        (∀ pool, r.byURI.poolAt [q.host.map lower.toLower] = some pool →
          ∃ s, q.host.map lower.toLower = wildcardOf s) →
        Longest r.byURI (Covers · (q.host.map lower.toLower)) (r.lookupRoute lower q.host) ∧
        ((policy.rules.find? (Rule.matchesWildcard q)).map Rule.fullURI =
            (r.lookupRoute lower q.host).map Prod.fst ↔
          ∀ s, LongestIn wildcards (q.host.map lower.toLower) s →
            GreatestIn wildcards q.host s) := by
  have hwild : Wild lower wildcards := hform
  obtain ⟨policy, rls, w, hpolicy, hrules, hrls, hsort⟩ := hr.policy hw o name
  refine ⟨policy, hpolicy, fun q hslash hquery hexact => ?_⟩
  have hlongest := lookupRoute_longest hslash hquery hexact
  refine ⟨hlongest, ?_⟩
  rw [hrules, List.find?_append, find?_exact hr hplain hrls, Option.none_or]
  cases hfound : r.lookupRoute lower q.host with
  | none =>
    rw [hfound] at hlongest
    have hno : ∀ s, wildcardOf s ∈ wildcards → ¬ Covers s (q.host.map lower.toLower) :=
      fun s hs hcovers => (hreg s).mpr hs (hlongest s hcovers)
    rw [hwild.find?_eq_none hw hsort q fun s hs hcovers => ?_]
    · exact iff_of_true rfl fun s hs => absurd hs.2.1 (hno s hs.1)
    · obtain ⟨x, hx, hlower⟩ := hwild _ hs
      obtain rfl : x.suffix = s := by simpa [WildcardURI.uri, wildcardOf] using hx
      exact hno _ hs (hcovers.map_lower hlower)
  | some found =>
    rw [hfound] at hlongest
    obtain ⟨s, hs, hcovers, hpool, hmax⟩ := hlongest
    have hin : LongestIn wildcards (q.host.map lower.toLower) s :=
      ⟨(hreg s).mp (by rw [hpool]; simp), hcovers,
        fun s' hs' hc' => hmax s' hc' ((hreg s').mpr hs')⟩
    rw [Option.map_some, hs, hwild.find?_eq_some_iff hw hsort]
    exact ⟨fun hg s' hs' => hin.unique hs' ▸ hg, fun hall => hall s hin⟩

namespace Sample

def rulesOf (sent : List Sent) : GoMap Uri (Option Rule) :=
  sent.foldl (fun rules t => rules.insert t.update.uri
    ((makeRouteRule t.update).bind Except.toOption)) ∅

def nestedRegistry : RouteRegistry :=
  { newRouteRegistry 10 true with
    byURI := (newTrie.insert "*.b.com".toList (Route.newPool 2 "/".toList)).insert
      "*.z.b.com".toList (Route.newPool 2 "/".toList) }

theorem named_shorter : makeObjectName (Uri.string "*.b.com".toList) = some "cf-b.com".toList := by
  decide

theorem named_longer : makeObjectName
    (Uri.string "*.z.b.com".toList) = some "cf-z.b.com".toList := by
  decide

def shorter : UpdateHTTP :=
  BigipCtlr.Sample.addUpdate "*.b.com".toList "cf-b.com".toList (backend 1) named_shorter

def longer : UpdateHTTP :=
  BigipCtlr.Sample.addUpdate "*.z.b.com".toList "cf-z.b.com".toList (backend 2) named_longer

def nestedRules : GoMap Uri (Option Rule) :=
  ((∅ : GoMap Uri (Option Rule)).insert "*.b.com".toList
    ((makeRouteRule shorter).bind Except.toOption)).insert "*.z.b.com".toList
    ((makeRouteRule longer).bind Except.toOption)

theorem mem_nestedRules : u ∈ nestedRules ↔ u = "*.z.b.com".toList ∨ u = "*.b.com".toList := by
  rw [nestedRules, AList.mem_insert, AList.mem_insert]
  simp

theorem nestedRules_made : Made nestedRules := by
  intro u x hx
  rw [nestedRules, GoMap.lookup_insert_ite, GoMap.lookup_insert_ite] at hx
  split at hx
  · next hu =>
    cases hx
    exact hu ▸ BigipCtlr.Sample.made_rule longer (by decide +kernel)
  · split at hx
    · next hu =>
      cases hx
      exact hu ▸ BigipCtlr.Sample.made_rule shorter (by decide +kernel)
    · cases hx

theorem poolAt_nestedRegistry (u : Uri) :
    nestedRegistry.byURI.poolAt [u] ≠ none ↔ u ∈ nestedRules := by
  simp only [nestedRegistry, Trie.poolAt_insert,
    show segments "*.z.b.com".toList = ["*.z.b.com".toList] from by decide,
    show segments "*.b.com".toList = ["*.b.com".toList] from by decide, mem_nestedRules]
  split
  · next h => exact iff_of_true (Option.some_ne_none _) (.inl (List.singleton_inj.mp h))
  · next h₁ =>
    split
    · next h => exact iff_of_true (Option.some_ne_none _) (.inr (List.singleton_inj.mp h))
    · next h₂ =>
      refine iff_of_false (fun h => h rfl) ?_
      rintro (rfl | rfl)
      · exact h₁ rfl
      · exact h₂ rfl

theorem nestedRules_wild : Wild Lower.asciiOnly nestedRules := by
  intro u hu
  rcases mem_nestedRules.mp hu with rfl | rfl
  · exact ⟨⟨"z.b.com".toList, forall_mem_of_all (by decide)⟩, rfl, by decide⟩
  · exact ⟨⟨"b.com".toList, forall_mem_of_all (by decide)⟩, rfl, by decide⟩

end Sample

theorem wildcard_rule_eq_lookup_nested :
    ∃ policy, makeRoutePolicy Order.stored ∅ Sample.nestedRules cfRoutingPolicyName = some policy ∧
      (policy.rules.find? (Rule.matchesWildcard ⟨"x.z.b.com".toList, []⟩)).map Rule.fullURI =
        some "*.z.b.com".toList ∧
      (Sample.nestedRegistry.lookupRoute Lower.asciiOnly "x.z.b.com".toList).map Prod.fst =
        some "*.z.b.com".toList := by
  have hexact : Made ∅ := by rintro u x ⟨⟩
  obtain ⟨policy, hpolicy, hall⟩ := wildcard_rule_eq_lookup_iff Lower.asciiOnly hexact (by simp)
    Sample.nestedRules_made Sample.nestedRules_wild Order.stored cfRoutingPolicyName
    Sample.nestedRegistry (fun s => Sample.poolAt_nestedRegistry _)
  have hnone : Sample.nestedRegistry.byURI.poolAt ["x.z.b.com".toList] = none := by decide
  obtain ⟨-, hiff⟩ := hall ⟨"x.z.b.com".toList, []⟩ (by decide) (by decide)
    fun pool hpool => absurd (hnone.symm.trans hpool) (Option.some_ne_none pool).symm
  have hlookup : (Sample.nestedRegistry.lookupRoute Lower.asciiOnly "x.z.b.com".toList).map
      Prod.fst =
      some "*.z.b.com".toList := by decide +kernel
  refine ⟨policy, hpolicy, ?_, hlookup⟩
  refine (hiff.mpr fun s hs => ?_).trans hlookup
  have hmem : ∀ s, wildcardOf s ∈ Sample.nestedRules →
      s = "z.b.com".toList ∨ s = "b.com".toList := by
    intro s hs
    simpa [wildcardOf] using Sample.mem_nestedRules.mp hs
  obtain rfl : s = "z.b.com".toList := by
    rcases hmem s hs.1 with rfl | rfl
    · rfl
    · exact absurd (hs.2.2 "z.b.com".toList (Sample.mem_nestedRules.mpr (.inl rfl)) (by decide))
        (by decide)
  refine ⟨hs.1, by decide, fun s' hs' _ => ?_⟩
  rcases hmem s' hs' with rfl | rfl <;> decide

/-- Nested wildcards where the shorter one sorts above the longer. -/
theorem wildcard_rule_ne_lookup :
    ∃ s ∈ run (RouteRegistry.step Lower.asciiOnly) (newRouteRegistry 10 true, [])
        [.register "*.a.b.com".toList (Sample.backend 1) 0,
          .register "*.b.com".toList (Sample.backend 2) 0],
      ∃ policy ∈ makeRoutePolicy Order.stored ∅ (Sample.rulesOf s.2) cfRoutingPolicyName,
        (policy.rules.find? (Rule.matchesWildcard ⟨"x.a.b.com".toList, []⟩)).map Rule.fullURI =
          some "*.b.com".toList ∧
        (s.1.lookupRoute Lower.asciiOnly "x.a.b.com".toList).map Prod.fst =
          some "*.a.b.com".toList := by
  decide +kernel

end BigipCtlr.Registry
