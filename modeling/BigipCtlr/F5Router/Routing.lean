import BigipCtlr.F5Router.Members
import BigipCtlr.Lib.List

/-!
# What the policy selects

The meaning of the conditions of a rule for a request, and the rule that the
first-match strategy takes: among the rules without a wildcard that of the
longest path.
-/

namespace BigipCtlr

open Go Lib

-- ---------------------------------------------------------------------------
-- Requests
-- ---------------------------------------------------------------------------

structure Request where
  host : Str
  segments : List Str

/-- A condition is on the host or on the path segment of its index, from one
on. -/
def Condition.holds (q : Request) (c : Condition) : Bool :=
  if c.httpHost then
    c.values.any fun v => (c.equals && q.host == v) || (c.startsWith && hasPrefix q.host v) ||
      (c.endsWith && hasSuffix q.host v)
  else c.values.any fun v => c.equals && q.segments[c.index - 1]? == some v

def Rule.holds (q : Request) (rule : Rule) : Bool := rule.conditions.all (·.holds q)

def Policy.select (q : Request) (policy : Policy) : Option Rule := policy.rules.find? (·.holds q)

-- ---------------------------------------------------------------------------
-- The order of the rules
-- ---------------------------------------------------------------------------

def MadeFor (u : Uri) (x : Option Rule) : Prop :=
  ∃ ru rule, UpdateHTTP.uri ru = u ∧ makeRouteRule ru = some (.ok rule) ∧ x = some rule

def Made (rules : GoMap Uri (Option Rule)) : Prop := ∀ u x, rules.lookup u = some x → MadeFor u x

theorem Made.fullURI (h : Made rules) (hu : rules.lookup u = some (some v)) :
    v.fullURI = u.string := by
  obtain ⟨ru, rule, rfl, hrule, hx⟩ := h u _ hu
  cases hx
  exact (makeRouteRule_ok hrule).1

theorem Made.isSome (h : Made rules) (o : Order) (k : Nat) :
    (sortRules o rules k).isSome = true := by
  refine sortRules_isSome o (fun u x hx => ?_) k
  obtain ⟨ru, rule, -, -, rfl⟩ := h u x hx
  exact nofun

def Rule.Above (a b : Rule) : Prop := b.fullURI ≤ a.fullURI

instance : Std.Total Rule.Above := ⟨fun a b => le_total b.fullURI a.fullURI⟩

instance : IsTrans Rule Rule.Above := ⟨fun _ _ _ hab hbc => le_trans hbc hab⟩

instance : DecidableRel Rule.Above := fun a b => inferInstanceAs (Decidable (b.fullURI ≤ a.fullURI))

theorem sortDescending_pairwise (rls : List Rule) : (sortDescending rls).Pairwise Rule.Above :=
  List.pairwise_insertionSort Rule.Above rls

/-- The rules of a map in the policy: in descending order, each numbered, and
no two for one URI. -/
structure Ranked (rules : GoMap Uri (Option Rule)) (k : Nat) (rls : List Rule) : Prop where
  length : rls.length = rules.size
  ordinal : rls.map Rule.ordinal = List.range' k rls.length
  sorted : rls.Pairwise Rule.Above
  mem : ∀ rule, rule ∈ rls → ∃ u v, rules.lookup u = some (some v) ∧
    rule = { v with ordinal := rule.ordinal }
  all : ∀ u v, rules.lookup u = some (some v) → ∃ i, { v with ordinal := i } ∈ rls

theorem sortRules_ranked (h : sortRules o rules k = some rls) : Ranked rules k rls := by
  obtain ⟨all, hall, rfl⟩ := Option.map_eq_some_iff.mp h
  have hperm : (sortDescending all).Perm all := List.perm_insertionSort _ _
  have hmap := mapM_eq_some.mp hall
  have hlen : all.length = rules.size := by
    rw [← GoMap.length_range o, ← List.length_map (f := Prod.snd), hmap, List.length_map]
  have hmem : ∀ v, v ∈ sortDescending all ↔ ∃ u, rules.lookup u = some (some v) := by
    intro v
    rw [hperm.mem_iff, ← GoMap.mem_range_values (o := o), hmap]
    simp
  refine ⟨?_, ?_, ?_, fun rule hrule => ?_, fun u v hv => ?_⟩
  · simp [hperm.length_eq, hlen]
  · have hcount : ((sortDescending all).zipIdx.map Prod.snd).map (k + ·) =
        List.range' k (sortDescending all).length := by
      rw [List.zipIdx_map_snd, List.map_add_range', Nat.add_zero]
    rw [List.length_map, List.length_zipIdx, ← hcount, List.map_map, List.map_map]
    rfl
  · have hsorted := sortDescending_pairwise all
    rw [← List.zipIdx_map_fst 0 (sortDescending all), List.pairwise_map] at hsorted
    exact List.pairwise_map.mpr hsorted
  · obtain ⟨⟨v, i⟩, hv, rfl⟩ := List.mem_map.mp hrule
    obtain ⟨u, hu⟩ := (hmem v).mp (List.fst_mem_of_mem_zipIdx hv)
    exact ⟨u, v, hu, rfl⟩
  · obtain ⟨i, hi, rfl⟩ := List.getElem_of_mem ((hmem v).mpr ⟨u, hv⟩)
    refine ⟨k + i, List.mem_map.mpr ⟨((sortDescending all)[i], i), ?_, rfl⟩⟩
    exact List.mem_zipIdx_iff_getElem?.mpr (List.getElem?_eq_getElem hi)

theorem sortRules_nodup (h : sortRules o rules k = some rls)
    (hkey : ∀ u v, rules.lookup u = some (some v) → v.fullURI = u) :
    (rls.map Rule.fullURI).Nodup := by
  obtain ⟨all, hall, rfl⟩ := Option.map_eq_some_iff.mp h
  have hmap := mapM_eq_some.mp hall
  have hentry : ∀ e ∈ rules.range o, e.2.map Rule.fullURI = some e.1 := by
    intro e he
    have hv : e.2 ∈ all.map some := by
      rw [← hmap]
      exact List.mem_map_of_mem he
    obtain ⟨v, -, hv⟩ := List.mem_map.mp hv
    rw [← hv, Option.map_some, hkey e.1 v (hv ▸ GoMap.mem_range.mp he)]
  have huris : (all.map Rule.fullURI).map some = ((rules.range o).map Prod.fst).map some :=
    calc (all.map Rule.fullURI).map some
      _ = (all.map some).map (Option.map Rule.fullURI) := by simp
      _ = (rules.range o).map fun e => e.2.map Rule.fullURI := by rw [← hmap, List.map_map]; rfl
      _ = ((rules.range o).map Prod.fst).map some := by
        rw [List.map_map]
        exact List.map_congr_left hentry
  have hsame : ((sortDescending all).zipIdx.map fun e =>
      { e.1 with ordinal := k + e.2 }).map Rule.fullURI =
      (sortDescending all).map Rule.fullURI := by
    nth_rewrite 2 [← List.zipIdx_map_fst 0 (sortDescending all)]
    rw [List.map_map, List.map_map]
    rfl
  have hperm : ((sortDescending all).map Rule.fullURI).Perm (all.map Rule.fullURI) :=
    (List.perm_insertionSort _ all).map _
  rw [hsame, hperm.nodup_iff, List.map_injective_iff.mpr (Option.some_injective _) huris]
  exact GoMap.range_keys_nodup o rules

theorem find?_eq_some_iff_above {rls : List Rule} (hsorted : rls.Pairwise Rule.Above)
    (hnodup : (rls.map Rule.fullURI).Nodup) :
    rls.find? p = some a ↔ a ∈ rls ∧ p a = true ∧ ∀ b ∈ rls, p b = true → a.Above b := by
  refine find?_eq_some_iff_top hsorted (fun a _ => le_refl a.fullURI) fun a ha b hb hab hba => ?_
  exact List.inj_on_of_nodup_map hnodup ha hb (le_antisymm hba hab)

-- ---------------------------------------------------------------------------
-- Exact URIs
-- ---------------------------------------------------------------------------

/-- A URI without a wildcard: a host and path segments of unreserved
characters. -/
structure ExactURI where
  host : Str
  segments : List Str
  host_ne : host ≠ []
  host_plain : ∀ c ∈ host, isUnreserved c = true
  segment_plain : ∀ s ∈ segments, s ≠ [] ∧ ∀ c ∈ s, isUnreserved c = true

def ExactURI.path (x : ExactURI) : Str := x.segments.flatMap ('/' :: ·)

def ExactURI.uri (x : ExactURI) : Uri := x.host ++ x.path

theorem ExactURI.path_plain (x : ExactURI) : ∀ c ∈ x.path, isUnreserved c = true ∨ c = '/' := by
  intro c hc
  obtain ⟨s, hs, hc⟩ := List.mem_flatMap.mp hc
  rcases List.mem_cons.mp hc with rfl | hc
  · exact .inr rfl
  · exact .inl ((x.segment_plain s hs).2 c hc)

theorem ExactURI.star_notMem (x : ExactURI) : '*' ∉ x.uri := by
  intro h
  rcases List.mem_append.mp h with h | h
  · exact absurd (x.host_plain _ h) (by decide)
  · rcases x.path_plain _ h with h | h
    · exact absurd h (by decide)
    · exact absurd h (by decide)

theorem trimSuffix_slash (hs : s ≠ []) (h : '/' ∉ s) : trimSuffix (t ++ s) "/".toList = t ++ s := by
  refine trimSuffix_of_not fun hslash => ?_
  rcases List.suffix_or_suffix_of_suffix hslash (List.suffix_append t s) with hsub | hsub
  · exact h (hsub.subset (by simp))
  · obtain ⟨c, hc⟩ := List.exists_mem_of_ne_nil s hs
    have : c = '/' := by simpa using hsub.subset hc
    exact h (this ▸ hc)

theorem ExactURI.ending (x : ExactURI) : ∃ t s, x.uri = t ++ s ∧ s ≠ [] ∧ '/' ∉ s := by
  have hslash : ∀ {s : Str}, (∀ c ∈ s, isUnreserved c = true) → '/' ∉ s :=
    fun h hm => absurd (h _ hm) (by decide)
  rcases x.segments.eq_nil_or_concat with hnil | ⟨ss, s, hss⟩
  · refine ⟨[], x.host, ?_, x.host_ne, hslash x.host_plain⟩
    simp [ExactURI.uri, ExactURI.path, hnil]
  · have hs := x.segment_plain s (by simp [hss])
    refine ⟨x.host ++ ss.flatMap ('/' :: ·) ++ "/".toList, s, ?_, hs.1, hslash hs.2⟩
    simp [ExactURI.uri, ExactURI.path, hss]

theorem ExactURI.string_uri (x : ExactURI) : Uri.string x.uri = x.uri := by
  obtain ⟨t, s, hu, hne, hs⟩ := x.ending
  rw [Uri.string, hu]
  exact trimSuffix_slash hne hs

theorem flatMap_slash (ss : List Str) (s : Str) :
    (s :: ss).flatMap ('/' :: ·) = '/' :: ['/'].intercalate (s :: ss) := by
  induction ss generalizing s with
  | nil => simp [List.intercalate]
  | cons s' ss ih =>
    rw [List.flatMap_cons, ih]
    simp [List.intercalate]

theorem ExactURI.split_path (x : ExactURI) (h : x.segments ≠ []) :
    x.path ≠ [] ∧ split (trimPrefix x.path "/".toList) '/' = x.segments := by
  obtain ⟨s, ss, hss⟩ := List.exists_cons_of_ne_nil h
  have hpath : x.path = "/".toList ++ ['/'].intercalate x.segments := by
    rw [ExactURI.path, hss]
    exact flatMap_slash ss s
  refine ⟨by simp [hpath], ?_⟩
  rw [hpath, trimPrefix_append, split]
  refine List.splitOn_intercalate '/' (fun s hs hm => ?_) h
  exact absurd ((x.segment_plain s hs).2 _ hm) (by decide)

theorem ExactURI.conditions (x : ExactURI) :
    exactConditions ⟨x.host, x.path, []⟩ = { hostCondition 0 x.host with equals := true } ::
      x.segments.zipIdx.map fun (v, i) => segmentCondition (i + 1) v := by
  simp only [exactConditions, escapedPath_plain x.path_plain]
  by_cases h : x.segments = []
  · simp [ExactURI.path, h]
  · obtain ⟨hne, hsplit⟩ := x.split_path h
    rw [if_neg fun hlen => hne (List.length_eq_zero_iff.mp hlen), hsplit]

theorem ExactURI.urlParse (x : ExactURI) :
    Go.urlParse (trimSuffix ("scheme://".toList ++ Uri.string x.uri) "/".toList) =
      some ⟨x.host, x.path, []⟩ := by
  have hplain : trimSuffix ("scheme://".toList ++ Uri.string x.uri) "/".toList =
      "scheme://".toList ++ x.host ++ x.path := by
    obtain ⟨t, s, hu, hne, hs⟩ := x.ending
    rw [x.string_uri, List.append_assoc, ← ExactURI.uri, hu, ← List.append_assoc]
    exact trimSuffix_slash hne hs
  rw [hplain]
  refine urlParse_plain (fun h => ?_) (fun c hc => isHostByte_unreserved (x.host_plain c hc))
    x.path_plain ?_
  · exact absurd (x.host_plain _ (h.subset (List.mem_singleton_self _))) (by decide)
  · cases hss : x.segments with
    | nil => exact .inl (by simp [ExactURI.path, hss])
    | cons s ss => exact .inr ⟨_, by rw [ExactURI.path, hss, flatMap_slash]⟩

theorem segments_hold_iff (q : Request) (segments : List Str) :
    ((segments.zipIdx.map fun (v, i) => segmentCondition (i + 1) v).all (·.holds q)) = true ↔
      segments <+: q.segments := by
  rw [List.prefix_iff_getElem?]
  simp only [List.all_map, List.all_eq_true, Function.comp_apply, Prod.forall,
    List.mem_zipIdx_iff_getElem?]
  constructor
  · intro h i hi
    simpa [Condition.holds, segmentCondition] using h segments[i] i (List.getElem?_eq_getElem hi)
  · intro h v i hv
    obtain ⟨hi, rfl⟩ := List.getElem?_eq_some_iff.mp hv
    simpa [Condition.holds, segmentCondition] using h i hi

theorem ExactURI.holds_iff (x : ExactURI) (hu : ru.uri = x.uri)
    (hrule : makeRouteRule ru = some (.ok rule)) :
    rule.holds q = true ↔ q.host = x.host ∧ x.segments <+: q.segments := by
  have hcond : rule.conditions = exactConditions ⟨x.host, x.path, []⟩ := by
    have hstar : '*' ∉ Uri.string ru.uri := by
      rw [hu, x.string_uri]
      exact x.star_notMem
    simp only [makeRouteRule, hu ▸ x.urlParse, if_neg hstar] at hrule
    obtain ⟨conditions, hc, hrule⟩ := Option.bind_eq_some_iff.mp hrule
    obtain ⟨ep, -, hrule⟩ := Option.bind_eq_some_iff.mp hrule
    cases hc
    cases hrule
    rfl
  rw [Rule.holds, hcond, x.conditions, List.all_cons, Bool.and_eq_true, segments_hold_iff]
  simp [Condition.holds, hostCondition]

-- ---------------------------------------------------------------------------
-- The rule selected
-- ---------------------------------------------------------------------------

theorem Made.policy (hr : Made r) (hw : Made wildcards) (o : Order) (name : Str) :
    ∃ policy rls w, makeRoutePolicy o r wildcards name = some policy ∧ policy.rules = rls ++ w ∧
      sortRules o r 0 = some rls ∧ sortRules o wildcards r.size = some w := by
  obtain ⟨rls, hrls⟩ := Option.isSome_iff_exists.mp (hr.isSome o 0)
  obtain ⟨w, hw⟩ := Option.isSome_iff_exists.mp (hw.isSome o r.size)
  simp only [makeRoutePolicy, hrls, hw]
  exact ⟨_, rls, w, rfl, rfl, rfl, rfl⟩

theorem Ranked.ordinals (hr : Ranked r 0 rls) (hw : Ranked wildcards r.size w) :
    (rls ++ w).map Rule.ordinal = List.range (rls ++ w).length := by
  rw [List.map_append, hr.ordinal, hw.ordinal, ← hr.length, List.length_append,
    List.range_eq_range']
  have happend := @List.range'_append 0 rls.length w.length 1
  simpa using happend

theorem ordinal_eq {rules before after : List Rule}
    (h : rules.map Rule.ordinal = List.range rules.length)
    (hsplit : rules = before ++ rule :: after) : rule.ordinal = before.length := by
  have hget : (rules.map Rule.ordinal)[before.length]? = some rule.ordinal := by simp [hsplit]
  rw [h, hsplit, List.getElem?_range (by simp)] at hget
  exact (Option.some.inj hget).symm

theorem ExactURI.le_of_segments {x y : ExactURI} (hhost : y.host = x.host)
    (hsegs : y.segments <+: x.segments) :
    y.uri ≤ x.uri := by
  obtain ⟨rest, hrest⟩ := hsegs
  refine not_lt.mp (List.IsPrefix.le ⟨rest.flatMap ('/' :: ·), ?_⟩)
  simp only [ExactURI.uri, ExactURI.path, hhost, ← hrest, List.flatMap_append, List.append_assoc]

/-- For a request to an exact host the policy selects the rule of the longest
path registered, before any wildcard is consulted. -/
theorem policy_selects_longest (hr : Made r) (hplain : ∀ u ∈ r, ∃ x : ExactURI, x.uri = u)
    (hw : Made wildcards) (o : Order) (name : Str) :
    ∃ policy, makeRoutePolicy o r wildcards name = some policy ∧
      policy.rules.map Rule.ordinal = List.range policy.rules.length ∧
      ∀ (q : Request) (x : ExactURI), x.uri ∈ r → x.host = q.host → x.segments <+: q.segments →
        (∀ y : ExactURI, y.uri ∈ r → y.host = q.host → y.segments <+: q.segments →
          y.segments.length ≤ x.segments.length) →
        ∃ rule before after, r.lookup x.uri = some (some rule) ∧
          policy.select q = some { rule with ordinal := before.length } ∧
          policy.rules = before ++ { rule with ordinal := before.length } :: after ∧
          ∀ b ∈ before, '*' ∉ b.fullURI := by
  obtain ⟨policy, rls, w, hpolicy, hrules, hrls, hwild⟩ := hr.policy hw o name
  have hranked := sortRules_ranked hrls
  have hordinals := hranked.ordinals (sortRules_ranked hwild)
  rw [← hrules] at hordinals
  have hkey : ∀ u v, r.lookup u = some (some v) → v.fullURI = u := by
    intro u v hv
    obtain ⟨x, rfl⟩ := hplain u (AList.lookup_isSome.mp (by rw [hv]; rfl))
    rw [hr.fullURI hv, x.string_uri]
  refine ⟨policy, hpolicy, hordinals, fun q x hx hhost hsegs hlongest => ?_⟩
  obtain ⟨y, hy⟩ := Option.isSome_iff_exists.mp (AList.lookup_isSome.mpr hx)
  obtain ⟨ru, rule, hru, hrule, rfl⟩ := hr _ _ hy
  obtain ⟨i, hi⟩ := hranked.all _ _ hy
  have hfind : rls.find? (·.holds q) = some { rule with ordinal := i } := by
    rw [find?_eq_some_iff_above hranked.sorted (sortRules_nodup hrls hkey)]
    refine ⟨hi, (x.holds_iff hru hrule).mpr ⟨hhost.symm, hsegs⟩, fun b hb hbq => ?_⟩
    obtain ⟨u, v, hv, hbv⟩ := hranked.mem b hb
    obtain ⟨z, rfl⟩ := hplain u (AList.lookup_isSome.mp (by rw [hv]; rfl))
    obtain ⟨rv, rule', hrv, hrule', hsome⟩ := hr _ _ hv
    cases hsome
    rw [hbv] at hbq ⊢
    obtain ⟨hzhost, hzsegs⟩ := (z.holds_iff hrv hrule').mp hbq
    have hlen := hlongest z (AList.lookup_isSome.mp (by rw [hv]; rfl)) hzhost.symm hzsegs
    simp only [Rule.Above, hkey _ _ hv, hkey _ _ hy]
    exact ExactURI.le_of_segments (hzhost.symm.trans hhost.symm)
      (List.prefix_of_prefix_length_le hzsegs hsegs hlen)
  obtain ⟨-, before, after, hsplit, -⟩ := List.find?_eq_some_iff_append.mp hfind
  have hall : policy.rules = before ++ { rule with ordinal := i } :: (after ++ w) := by
    rw [hrules, hsplit, List.append_assoc, List.cons_append]
  obtain rfl : i = before.length := ordinal_eq hordinals hall
  refine ⟨rule, before, after ++ w, hy, ?_, hall, fun b hb => ?_⟩
  · rw [Policy.select, hrules, List.find?_append, hfind, Option.some_or]
  · obtain ⟨u, v, hv, hbv⟩ := hranked.mem b (by rw [hsplit]; exact List.mem_append_left _ hb)
    obtain ⟨z, rfl⟩ := hplain u (AList.lookup_isSome.mp (by rw [hv]; rfl))
    rw [hbv]
    simp only [hkey _ _ hv]
    exact z.star_notMem

theorem run_made (hboot : boot codec c plans dg = some r₀)
    (hrule : ∀ e ∈ es, ∀ ru, e.item = .http ru → ∃ rule, makeRouteRule ru = some (.ok rule))
    (hrun : run (F5Router.step codec) r₀ es = some r) : Made r.r ∧ Made r.wildcards := by
  have h : r.Named ∧ r.Rules MadeFor := by
    refine run_handled hboot (fun s _ _ _ hs => hs.mono ⟨rfl, rfl⟩ fun _ _ => id) ?_ ?_ hrun
    · intro s t e he hn hs hstep
      refine handle_rules hn hs ?_ hstep
      intro ru res hi _ _ hres
      obtain ⟨rule, hok⟩ := hrule e he ru hi
      rw [hres] at hok
      cases hok
      exact ⟨ru, rule, rfl, hres, rfl⟩
    · obtain ⟨r', used, records, hf, -, -, rfl⟩ := boot_state hboot
      refine ⟨?_, ?_⟩
      · simp [hf.rules.1]
      · simp [hf.rules.2]
  exact ⟨fun u x hx => (h.2.exact u x hx).2, fun u x hx => (h.2.wildcard u x hx).2⟩

namespace Sample

theorem named_get {uri : Uri} (h : (makeObjectName uri.string).isSome = true) :
    makeObjectName uri.string = some ((makeObjectName uri.string).get h) := by
  simp

def exact (uri : Uri) (h : (makeObjectName uri.string).isSome = true) : UpdateHTTP :=
  addUpdate uri ((makeObjectName uri.string).get h) (endpoint 1) (named_get h)

def exactA : UpdateHTTP := exact "a.b".toList (by rfl)

def exactC : UpdateHTTP := exact "a.b/c".toList (by rfl)

def exactRules : GoMap Uri (Option Rule) :=
  ((∅ : GoMap Uri (Option Rule)).insert "a.b".toList
    ((makeRouteRule exactA).bind Except.toOption)).insert
    "a.b/c".toList ((makeRouteRule exactC).bind Except.toOption)

theorem made_rule (ru : UpdateHTTP) (h : ((makeRouteRule ru).bind Except.toOption).isSome = true) :
    MadeFor ru.uri ((makeRouteRule ru).bind Except.toOption) := by
  obtain ⟨rule, hrule⟩ := makeRouteRule_of_isSome h
  exact ⟨ru, rule, rfl, hrule, by rw [hrule]; rfl⟩

theorem exactRules_made : Made exactRules := by
  intro u x hx
  rw [exactRules, GoMap.lookup_insert_ite] at hx
  split at hx
  · next hu =>
    cases hx
    exact hu ▸ made_rule exactC (by decide +kernel)
  · rw [GoMap.lookup_insert_ite] at hx
    split at hx
    · next hu =>
      cases hx
      exact hu ▸ made_rule exactA (by decide +kernel)
    · cases hx

def exactURI (segments : List Str)
    (h : segments.all (fun s => s ≠ [] ∧ s.all isUnreserved) = true) : ExactURI :=
  ⟨"a.b".toList, segments, by decide, forall_mem_of_all (by decide), by simpa using h⟩

end Sample

theorem policy_selects_longest_sample :
    ∃ policy, makeRoutePolicy Order.stored Sample.exactRules ∅ cfRoutingPolicyName = some policy ∧
      ∃ rule before after, Sample.exactRules.lookup "a.b/c".toList = some (some rule) ∧
        policy.select ⟨"a.b".toList, ["c".toList, "d".toList]⟩ =
          some { rule with ordinal := before.length } ∧
        policy.rules = before ++ { rule with ordinal := before.length } :: after ∧
        ∀ b ∈ before, '*' ∉ b.fullURI := by
  have hplain : ∀ u ∈ Sample.exactRules, ∃ x : ExactURI, x.uri = u := by
    intro u hu
    rcases (AList.mem_insert _).mp hu with rfl | hu
    · exact ⟨Sample.exactURI ["c".toList] (by decide), rfl⟩
    · rcases (AList.mem_insert _).mp hu with rfl | hu
      · exact ⟨Sample.exactURI [] (by decide), rfl⟩
      · cases hu
  have hnone : Made ∅ := by
    rintro u x ⟨⟩
  obtain ⟨policy, hpolicy, -, hselect⟩ := policy_selects_longest Sample.exactRules_made hplain hnone
    Order.stored cfRoutingPolicyName
  refine ⟨policy, hpolicy, hselect ⟨"a.b".toList, ["c".toList, "d".toList]⟩
    (Sample.exactURI ["c".toList] (by decide)) (by decide +kernel) rfl ⟨["d".toList], rfl⟩
      fun y hy hhost hsegs => ?_⟩
  -- the one longer candidate is not registered
  by_contra hlong
  have hsegs' : y.segments = ["c".toList, "d".toList] := by
    refine hsegs.eq_of_length_le ?_
    simp only [Sample.exactURI, List.length_cons, List.length_nil] at hlong ⊢
    omega
  rw [ExactURI.uri, ExactURI.path, hhost, hsegs'] at hy
  exact absurd hy (by decide +kernel)

end BigipCtlr
