import BigipCtlr.Registry.Wildcards

/-!
# What a lookup finds

`MatchUri` finds the pool of the longest prefix of a URI that has one, segment
by segment. `Lookup` does so for the route key and then for the wildcards that
`NextWildcard` derives from it. That cuts at any dot, so a dot in the path
leads to the wildcards of other hosts.
-/

namespace BigipCtlr.Registry

open Go Lib

-- ---------------------------------------------------------------------------
-- The longest prefix
-- ---------------------------------------------------------------------------

section
variable {V : Type}

/-- The node is on the way to a key and has a pool, and no longer one does. -/
structure Trie.Deepest (t : Trie V) (key node : List Str) : Prop where
  onWay : node <+: key
  pooled : t.poolAt node ≠ none
  longest : ∀ q, q <+: key → node.length < q.length → t.poolAt q = none

variable {t : Trie V}

theorem deepest_concat : t.Deepest (key ++ [s]) node ↔
    (node = key ++ [s] ∧ t.poolAt node ≠ none) ∨
      (t.poolAt (key ++ [s]) = none ∧ t.Deepest key node) := by
  constructor
  · rintro ⟨hway, hpool, hlong⟩
    rcases List.prefix_concat_iff.mp hway with rfl | hway
    · exact .inl ⟨rfl, hpool⟩
    · refine .inr ⟨hlong _ List.prefix_rfl ?_, hway, hpool,
        fun q hq => hlong q (hq.trans (List.prefix_append _ _))⟩
      have := hway.length_le
      simp only [List.length_append, List.length_singleton]
      omega
  · rintro (⟨rfl, hpool⟩ | ⟨hnone, hway, hpool, hlong⟩)
    · refine ⟨List.prefix_rfl, hpool, fun q hq hlt => ?_⟩
      have := hq.length_le
      omega
    · refine ⟨hway.trans (List.prefix_append _ _), hpool, fun q hq hlt => ?_⟩
      rcases List.prefix_concat_iff.mp hq with rfl | hq
      · exact hnone
      · exact hlong q hq hlt

theorem deepest_nil : ¬ t.Deepest [] node := by
  rintro ⟨hway, hpool, -⟩
  rw [List.prefix_nil.mp hway, Trie.poolAt_root] at hpool
  exact hpool rfl

theorem deepest_append (h : ∀ q, q <+: rest → q ≠ [] → t.poolAt (key ++ q) = none) :
    t.Deepest (key ++ rest) node ↔ t.Deepest key node := by
  induction rest using List.reverseRecOn with
  | nil => rw [List.append_nil]
  | append_singleton rest s ih =>
    have hnone := h (rest ++ [s]) List.prefix_rfl (by simp)
    rw [← List.append_assoc] at hnone ⊢
    rw [deepest_concat, ← ih fun q hq => h q (hq.trans (List.prefix_append _ _))]
    constructor
    · rintro (⟨rfl, hpool⟩ | ⟨-, hdeep⟩)
      · exact absurd hnone hpool
      · exact hdeep
    · exact fun hdeep => .inr ⟨hnone, hdeep⟩

theorem exists_deepest (hp : p <+: key) (hpool : t.poolAt p ≠ none) :
    ∃ node, t.Deepest key node := by
  induction key using List.reverseRecOn with
  | nil =>
    rw [List.prefix_nil.mp hp, Trie.poolAt_root] at hpool
    exact absurd rfl hpool
  | append_singleton key s ih =>
    by_cases hlast : t.poolAt (key ++ [s]) = none
    · rcases List.prefix_concat_iff.mp hp with rfl | hp
      · exact absurd hlast hpool
      · obtain ⟨node, hnode⟩ := ih hp
        exact ⟨node, deepest_concat.mpr (.inr ⟨hlast, hnode⟩)⟩
    · exact ⟨key ++ [s], deepest_concat.mpr (.inl ⟨rfl, hlast⟩)⟩

def Trie.Answers (t : Trie V) (key : List Str) (res : Option V) : Prop :=
  ∀ v, res = some v ↔ ∃ node, t.Deepest key node ∧ t.poolAt node = some v

theorem answers_nil : t.Answers [] none :=
  fun _ => iff_of_false (by simp) fun ⟨_, h, _⟩ => deepest_nil h

theorem Trie.Answers.concat (h : t.Answers key res) (s : Str) :
    t.Answers (key ++ [s]) ((t.poolAt (key ++ [s])).or res) := by
  intro v
  simp only [Option.or_eq_some_iff, h v, deepest_concat]
  constructor
  · rintro (hpool | ⟨hnone, node, hnode, hv⟩)
    · exact ⟨_, .inl ⟨rfl, by simp [hpool]⟩, hpool⟩
    · exact ⟨node, .inr ⟨hnone, hnode⟩, hv⟩
  · rintro ⟨node, ⟨rfl, -⟩ | ⟨hnone, hnode⟩, hv⟩
    · exact .inl hv
    · exact .inr ⟨hnone, node, hnode, hv⟩

theorem Trie.Answers.own (h : t.Answers key res) : (t.poolAt key).or res = res := by
  cases hpool : t.poolAt key with
  | none => exact Option.none_or
  | some v =>
    refine ((h v).mpr ⟨key, ⟨List.prefix_rfl, by simp [hpool], fun q hq hlt => ?_⟩, hpool⟩).symm
    exact absurd hq.length_le (Nat.not_le.mpr hlt)

/-- In the loop of `MatchUri` the last pool is that of the deepest node so far. -/
theorem matchFrom_answers (rest : List Str) (h : t.Answers node lastPool) :
    t.Answers (node ++ rest) (t.matchFrom node lastPool rest) := by
  induction rest generalizing node lastPool with
  | nil =>
    rw [Trie.matchFrom, h.own, List.append_nil]
    exact h
  | cons s rest ih =>
    rw [Trie.matchFrom]
    split
    · rw [List.append_cons]
      exact ih (h.concat s)
    · next hs =>
      -- nothing is below a child that is missing
      have hbare : ∀ q, q <+: s :: rest → q ≠ [] → t.poolAt (node ++ q) = none := by
        intro q hq hne
        obtain ⟨c, q, rfl⟩ := List.exists_cons_of_ne_nil hne
        obtain ⟨rfl, -⟩ := List.cons_prefix_cons.mp hq
        refine Trie.poolAt_of_notMem fun hmem => hs ?_
        exact Trie.mem_of_prefix (q := q) (by simpa using hmem) (by simp)
      rw [h.own]
      intro v
      simp only [h v, deepest_append hbare]

theorem matchUri_answers (t : Trie V) (uri : Uri) : t.Answers (segments uri) (t.matchUri uri) :=
  matchFrom_answers (segments uri) answers_nil

theorem matchUri_eq_none_iff : t.matchUri uri = none ↔ ∀ p, p <+: segments uri →
    t.poolAt p = none := by
  rw [Option.eq_none_iff_forall_ne_some]
  simp only [ne_eq, matchUri_answers t uri _]
  constructor
  · intro hno p hp
    by_contra hpool
    obtain ⟨node, hnode⟩ := exists_deepest hp hpool
    obtain ⟨v, hv⟩ := Option.ne_none_iff_exists'.mp hnode.pooled
    exact hno v ⟨node, hnode, hv⟩
  · rintro hnone v ⟨node, hnode, -⟩
    exact hnode.pooled (hnone node hnode.onWay)

/-- `MatchUri` is longest-prefix match, and `Find` an exact one. -/
theorem matchUri_longest (t : Trie V) (uri : Uri) :
    (∀ pool, t.matchUri uri = some pool ↔ ∃ p, p <+: segments uri ∧ t.poolAt p = some pool ∧
      ∀ q, q <+: segments uri → p.length < q.length → t.poolAt q = none) ∧
    (t.matchUri uri = none ↔ ∀ p, p <+: segments uri → t.poolAt p = none) ∧
    t.find uri = t.poolAt (segments uri) := by
  refine ⟨fun pool => (matchUri_answers t uri pool).trans ?_, matchUri_eq_none_iff,
    Trie.find_eq uri⟩
  constructor
  · rintro ⟨p, hdeep, hpool⟩
    exact ⟨p, hdeep.onWay, hpool, hdeep.longest⟩
  · rintro ⟨p, hway, hpool, hlong⟩
    exact ⟨p, ⟨hway, by simp [hpool], hlong⟩, hpool⟩

end

-- ---------------------------------------------------------------------------
-- The URIs that are tried
-- ---------------------------------------------------------------------------

def stem (u : Uri) : Str := trimPrefix u.string "*.".toList

theorem nextWildcard_eq_some_iff {u v : Uri} :
    u.nextWildcard = some v ↔ ∃ a b, stem u = a ++ '.' :: b ∧ '.' ∉ a ∧ v = wildcardOf b := by
  constructor
  · intro h
    by_cases hdot : '.' ∈ stem u
    · obtain ⟨a, b, hab, ha⟩ := List.eq_append_cons_of_mem hdot
      rw [nextWildcard_of_label hab ha] at h
      exact ⟨a, b, hab, ha, (Option.some.inj h).symm⟩
    · rw [nextWildcard_of_notMem hdot] at h
      cases h
  · rintro ⟨a, b, hab, ha, rfl⟩
    exact nextWildcard_of_label hab ha

theorem trimSuffix_cases (s : Str) :
    (trimSuffix s "/".toList = s ∧ ¬ "/".toList <:+ s) ∨
      ∃ t, s = t ++ ['/'] ∧ trimSuffix s "/".toList = t := by
  by_cases h : "/".toList <:+ s
  · obtain ⟨t, rfl⟩ := h
    exact .inr ⟨t, rfl, trimSuffix_append t "/".toList⟩
  · exact .inl ⟨trimSuffix_of_not h, h⟩

theorem string_wildcardOf (b : Str) :
    Uri.string (wildcardOf b) = wildcardOf (trimSuffix b "/".toList) := by
  rw [Uri.string]
  obtain ⟨hb, hno⟩ | ⟨t, rfl, ht⟩ := trimSuffix_cases b
  · rw [hb, trimSuffix_of_not]
    intro h
    simp only [wildcardOf, List.suffix_cons_iff] at h
    rcases h with h | h | h
    · cases h
    · cases h
    · exact hno h
  · rw [ht]
    exact trimSuffix_append (wildcardOf t) "/".toList

theorem stem_wildcardOf (b : Str) : stem (wildcardOf b) = trimSuffix b "/".toList := by
  rw [stem, string_wildcardOf]
  exact trimPrefix_append "*.".toList _

theorem takeWhile_append_slash (b : Str) :
    (b ++ ['/']).takeWhile (· ≠ '/') = b.takeWhile (· ≠ '/') := by
  induction b with
  | nil => rfl
  | cons c b ih =>
    rw [List.cons_append, List.takeWhile_cons, List.takeWhile_cons, ih]

theorem takeWhile_trimSuffix (b : Str) :
    (trimSuffix b "/".toList).takeWhile (· ≠ '/') = b.takeWhile (· ≠ '/') := by
  obtain ⟨hb, -⟩ | ⟨t, rfl, ht⟩ := trimSuffix_cases b
  · rw [hb]
  · rw [ht, takeWhile_append_slash]

def firstSegment (u : Uri) : Str := (trimPrefix u.string "/".toList).takeWhile (· ≠ '/')

/-- Each turn leaves less to cut. -/
theorem nextWildcard_shorter {u v : Uri} (h : u.nextWildcard = some v) :
    (stem v).length < (stem u).length := by
  obtain ⟨a, b, hab, -, rfl⟩ := nextWildcard_eq_some_iff.mp h
  have hle := (trimSuffix_isPrefix b "/".toList).length_le
  rw [stem_wildcardOf, hab, List.length_append, List.length_cons]
  omega

theorem head?_segments (u : Uri) : (segments u).head? = some (firstSegment u) := by
  rw [segments, firstSegment]
  generalize trimPrefix u.string "/".toList = s
  by_cases h : '/' ∈ s
  · obtain ⟨a, b, rfl, ha⟩ := List.eq_append_cons_of_mem h
    rw [split_cons_of_notMem ha, (cut_append ha b).1, List.head?_cons]
  · rw [split_of_notMem h, (cut_of_notMem h).1, List.head?_cons]

theorem firstSegment_wildcardOf (b : Str) :
    firstSegment (wildcardOf b) = wildcardOf (b.takeWhile (· ≠ '/')) := by
  rw [firstSegment, string_wildcardOf, trimPrefix_of_not, ← takeWhile_trimSuffix b]
  · rfl
  · rintro ⟨t, ht⟩
    cases ht

def WildSegment (s seg : Str) : Prop :=
  ∃ rest, Covers rest s ∧ seg = wildcardOf (rest.takeWhile (· ≠ '/'))

theorem wildSegment_label (ha : '.' ∉ a) :
    WildSegment (a ++ '.' :: b) seg ↔ seg = wildcardOf (b.takeWhile (· ≠ '/')) ∨
      WildSegment b seg := by
  simp only [WildSegment, covers_label ha, Below]
  constructor
  · rintro ⟨rest, rfl | hrest, hseg⟩
    · exact .inl hseg
    · exact .inr ⟨rest, hrest, hseg⟩
  · rintro (hseg | ⟨rest, hrest, hseg⟩)
    · exact ⟨b, .inl rfl, hseg⟩
    · exact ⟨rest, .inr hrest, hseg⟩

theorem covers_slash : Covers s (b ++ ['/']) ↔ ∃ s', s = s' ++ ['/'] ∧ Covers s' b := by
  rw [Covers, List.suffix_concat_iff]
  constructor
  · rintro (h | ⟨t, ht, hsuf⟩)
    · cases h
    · cases t with
      | nil => cases ht
      | cons c t =>
        cases ht
        exact ⟨t, rfl, hsuf⟩
  · rintro ⟨s', rfl, hsuf⟩
    exact .inr ⟨'.' :: s', rfl, hsuf⟩

theorem wildSegment_trimSuffix (b : Str) :
    WildSegment (trimSuffix b "/".toList) seg ↔ WildSegment b seg := by
  obtain ⟨hb, -⟩ | ⟨t, rfl, ht⟩ := trimSuffix_cases b
  · rw [hb]
  · rw [ht]
    simp only [WildSegment, covers_slash]
    constructor
    · rintro ⟨rest, hrest, hseg⟩
      exact ⟨rest ++ ['/'], ⟨rest, rfl, hrest⟩, by rwa [takeWhile_append_slash]⟩
    · rintro ⟨_, ⟨rest, rfl, hrest⟩, hseg⟩
      exact ⟨rest, hrest, by rwa [takeWhile_append_slash] at hseg⟩

abbrev Tries : Uri → Uri → Prop := Relation.ReflTransGen fun u v => u.nextWildcard = some v

theorem tries_iff (u : Uri) (seg : Str) :
    (∃ v, Tries u v ∧ firstSegment v = seg) ↔ firstSegment u = seg ∨ WildSegment (stem u) seg := by
  induction hn : (stem u).length using Nat.strongRecOn generalizing u with
  | ind n ih =>
    by_cases hdot : '.' ∈ stem u
    · obtain ⟨a, b, hab, ha⟩ := List.eq_append_cons_of_mem hdot
      have hnext : u.nextWildcard = some (wildcardOf b) := nextWildcard_of_label hab ha
      have hrest := ih _ (hn ▸ nextWildcard_shorter hnext) (wildcardOf b) rfl
      rw [firstSegment_wildcardOf, stem_wildcardOf, wildSegment_trimSuffix] at hrest
      rw [hab, wildSegment_label ha, eq_comm (a := seg), ← hrest]
      constructor
      · rintro ⟨v, hv, rfl⟩
        rcases hv.cases_head with rfl | ⟨w, hw, hwv⟩
        · exact .inl rfl
        · rw [hnext] at hw
          cases hw
          exact .inr ⟨v, hwv, rfl⟩
      · rintro (hseg | ⟨v, hv, hseg⟩)
        · exact ⟨u, .refl, hseg⟩
        · exact ⟨v, .head hnext hv, hseg⟩
    · have hstop := nextWildcard_of_notMem hdot
      constructor
      · rintro ⟨v, hv, rfl⟩
        rcases hv.cases_head with rfl | ⟨w, hw, -⟩
        · exact .inl rfl
        · rw [hstop] at hw
          cases hw
      · rintro (hseg | ⟨rest, hrest, -⟩)
        · exact ⟨u, .refl, hseg⟩
        · exact absurd hrest (not_covers hdot)

-- ---------------------------------------------------------------------------
-- The loop
-- ---------------------------------------------------------------------------

/-- The loop of `Lookup` ends with a result: it finds a pool, or no wildcard is
left. -/
inductive Trie.Looks {V : Type} (t : Trie V) : Uri → Option (Uri × V) → Prop
  | found (h : t.matchUri u = some pool) : t.Looks u (some (u, pool))
  | stop (h : t.matchUri u = none) (hstop : Uri.nextWildcard u = none) : t.Looks u none
  | next (h : t.matchUri u = none) (hnext : Uri.nextWildcard u = some v) (hrest : t.Looks v res) :
    t.Looks u res

section
variable {V : Type} {t : Trie V}

theorem Trie.Looks.found_tries (h : t.Looks u (some (v, pool))) :
    Tries u v ∧ t.matchUri v = some pool := by
  generalize hres : some (v, pool) = res at h
  induction h with
  | found hmatch =>
    cases hres
    exact ⟨.refl, hmatch⟩
  | stop => cases hres
  | next _ hnext _ ih =>
    obtain ⟨htries, hmatch⟩ := ih hres
    exact ⟨.head hnext htries, hmatch⟩

theorem Trie.Looks.none_tries (h : t.Looks u none) (hv : Tries u v) : t.matchUri v = none := by
  generalize hres : (none : Option (Uri × V)) = res at h
  induction h with
  | found => cases hres
  | stop hmatch hstop =>
    rcases hv.cases_head with rfl | ⟨w, hw, -⟩
    · exact hmatch
    · rw [hstop] at hw
      cases hw
  | next hmatch hnext _ ih =>
    rcases hv.cases_head with rfl | ⟨w, hw, hwv⟩
    · exact hmatch
    · rw [hnext] at hw
      cases hw
      exact ih hwv hres

theorem lookupFrom_looks (hn : (stem u).length < n) : t.Looks u (t.lookupFrom n u) := by
  induction n generalizing u with
  | zero => cases hn
  | succ n ih =>
    rw [Trie.lookupFrom]
    cases hmatch : t.matchUri u with
    | some pool => exact .found hmatch
    | none =>
      cases hnext : Uri.nextWildcard u with
      | none => exact .stop hmatch hnext
      | some v =>
        refine .next hmatch hnext (ih ?_)
        have := nextWildcard_shorter hnext
        omega

theorem lookupRoute_looks (lower : Lower) (r : RouteRegistry) (u : Uri) :
    r.byURI.Looks (u.routeKey lower) (r.lookupRoute lower u) := by
  refine lookupFrom_looks ?_
  have hstem := (trimPrefix_isSuffix (u.routeKey lower).string "*.".toList).length_le
  have hstring := (trimSuffix_isPrefix (u.routeKey lower) "/".toList).length_le
  rw [stem]
  rw [Uri.string] at hstem ⊢
  omega

theorem Trie.Deepest.head?_eq (h : t.Deepest (segments u) node) :
    node.head? = some (firstSegment u) := by
  obtain ⟨pool, hpool⟩ := Option.ne_none_iff_exists'.mp h.pooled
  obtain ⟨s, node, rfl⟩ :=
    List.exists_cons_of_ne_nil (Trie.ne_nil_of_mem (Trie.mem_of_poolAt hpool))
  obtain ⟨rest, hrest⟩ := h.onWay
  rw [← head?_segments, ← hrest]
  rfl

end

-- ---------------------------------------------------------------------------
-- Hosts
-- ---------------------------------------------------------------------------

/-- The host of a URI: what stands before the first slash, in lower case. -/
def hostOf (lower : Lower) (u : Uri) : Str := (u.takeWhile (· ≠ '/')).map lower.toLower

def OfHost (host seg : Str) : Prop := seg = host ∨ ∃ rest, seg = wildcardOf rest ∧ Covers rest host

/-- The route whose pool is found is one of the host of the URI. -/
def KeepsToHost (lower : Lower) (u : Uri) : Prop :=
  ∀ (r : RouteRegistry) (v : Uri) (pool : Route.Pool), r.lookupRoute lower u = some (v, pool) →
    ∃ node seg, r.byURI.Deepest (segments v) node ∧ r.byURI.poolAt node = some pool ∧
      node.head? = some seg ∧ OfHost (hostOf lower u) seg

/-- The first segments of what is tried for a key: its own, and behind each dot
what goes up to the next slash. -/
def TriedSegment (key : Uri) (seg : Str) : Prop :=
  firstSegment key = seg ∨ WildSegment (stem key) seg

theorem TriedSegment.slash_notMem (h : TriedSegment key seg) : '/' ∉ seg := by
  obtain ⟨v, -, rfl⟩ := (tries_iff key seg).mpr h
  intro hmem
  simpa using List.mem_takeWhile_imp hmem

/-- With no slash in front and no dot behind the first one, all are of the host. -/
theorem ofHost_of_tried {key : Uri} (hlead : key.head? ≠ some '/')
    (hdots : '.' ∉ key.dropWhile (· ≠ '/')) (h : TriedSegment key seg) :
    OfHost (key.takeWhile (· ≠ '/')) seg := by
  rcases h with rfl | ⟨rest, hrest, hseg⟩
  · refine .inl ?_
    rw [firstSegment, Uri.string, trimPrefix_of_not, takeWhile_trimSuffix]
    rintro ⟨x, hx⟩
    obtain ⟨y, hy⟩ := trimSuffix_isPrefix key "/".toList
    refine hlead ?_
    rw [← hy, ← hx]
    rfl
  · obtain ⟨rest, ⟨pre, hpre⟩, hseg⟩ : WildSegment key seg :=
      (wildSegment_trimSuffix key).mp ⟨rest, hrest.trans (trimPrefix_isSuffix _ _), hseg⟩
    have hslash : ∀ c ∈ pre, decide (c ≠ '/') = true := by
      intro c hc
      refine decide_eq_true fun heq => hdots ?_
      obtain ⟨x, y, rfl, hx⟩ := List.eq_append_cons_of_mem (heq ▸ hc)
      rw [← hpre, List.append_assoc, List.cons_append, (cut_append hx _).2]
      simp
    refine .inr ⟨_, hseg, pre, ?_⟩
    rw [← hpre, List.takeWhile_append_of_pos hslash, List.takeWhile_cons_of_pos (by decide)]

theorem dropWhile_append_slash (b : Str) :
    (b ++ ['/']).dropWhile (· ≠ '/') = b.dropWhile (· ≠ '/') ++ ['/'] := by
  induction b with
  | nil => rfl
  | cons c b ih =>
    rw [List.cons_append, List.dropWhile_cons, List.dropWhile_cons, ih]
    split <;> rfl

/-- Without a query the key is the URI in lower case, but for a slash at the end. -/
theorem routeKey_of_no_query (lower : Lower) {u : Uri} (hquery : '?' ∉ u) :
    u.routeKey lower = u.string.map lower.toLower := by
  refine (cut_of_notMem fun hmem => hquery ?_).1
  exact (trimSuffix_isPrefix u "/".toList).subset
    ((lower.mem_map_iff (by decide) (by decide)).mp hmem)

theorem slash_comp_lower (lower : Lower) :
    (fun c => decide (c ≠ '/')) ∘ lower.toLower = fun c => decide (c ≠ '/') := by
  funext c
  simp [lower.toLower_eq_iff]

theorem tried_ofHost (lower : Lower) {u : Uri} (hquery : '?' ∉ u) (hlead : u.head? ≠ some '/')
    (hdots : '.' ∉ u.dropWhile (· ≠ '/')) (h : TriedSegment (u.routeKey lower) seg) :
    OfHost (hostOf lower u) seg := by
  have hhost : hostOf lower u = (u.routeKey lower).takeWhile (· ≠ '/') := by
    rw [routeKey_of_no_query lower hquery, List.takeWhile_map, slash_comp_lower, Uri.string,
      takeWhile_trimSuffix, hostOf]
  rw [hhost]
  refine ofHost_of_tried ?_ ?_ h
  · rw [routeKey_of_no_query lower hquery, List.head?_map]
    intro hhead
    obtain ⟨c, hc, hslash⟩ := Option.map_eq_some_iff.mp hhead
    obtain ⟨rest, hrest⟩ := trimSuffix_isPrefix u "/".toList
    rw [(lower.toLower_eq_iff (by decide) (by decide)).mp hslash] at hc
    refine hlead ?_
    rw [← hrest, List.head?_append]
    exact Option.or_eq_some_iff.mpr (.inl hc)
  · rw [routeKey_of_no_query lower hquery, List.dropWhile_map, slash_comp_lower,
      lower.mem_map_iff (by decide) (by decide)]
    refine fun hmem => hdots ?_
    obtain ⟨hu, -⟩ | ⟨t, rfl, ht⟩ := trimSuffix_cases u
    · rwa [Uri.string, hu] at hmem
    · rw [Uri.string, ht] at hmem
      rw [dropWhile_append_slash]
      exact List.mem_append_left _ hmem

def registryWith (seg : Str) : RouteRegistry :=
  { newRouteRegistry 0 false with byURI := newTrie.insert seg (Route.newPool 0 []) }

theorem poolAt_registryWith (h : '/' ∉ seg) :
    (registryWith seg).byURI.poolAt x = if x = [seg] then some (Route.newPool 0 []) else none := by
  rw [registryWith, Trie.poolAt_insert, segments_host h]
  rfl

theorem lookupRoute_registryWith (h : TriedSegment (Uri.routeKey lower u) seg) :
    ∃ v pool, (registryWith seg).lookupRoute lower u = some (v, pool) := by
  have hslash := h.slash_notMem
  obtain ⟨v, hv, rfl⟩ := (tries_iff _ _).mpr h
  have hlooks := lookupRoute_looks lower (registryWith (firstSegment v)) u
  cases hres : (registryWith (firstSegment v)).lookupRoute lower u with
  | some found => exact ⟨found.1, found.2, rfl⟩
  | none =>
    rw [hres] at hlooks
    have hpre : [firstSegment v] <+: segments v := by
      have hhead := head?_segments v
      obtain ⟨s, rest, hseg⟩ := List.exists_cons_of_ne_nil (Trie.segments_ne_nil v)
      rw [hseg, List.head?_cons, Option.some.injEq] at hhead
      exact ⟨rest, by rw [hseg, hhead]; rfl⟩
    have hnone := matchUri_eq_none_iff.mp (hlooks.none_tries hv) _ hpre
    rw [poolAt_registryWith hslash, if_pos rfl] at hnone
    cases hnone

theorem keepsToHost_iff (lower : Lower) (u : Uri) :
    KeepsToHost lower u ↔ ∀ seg, TriedSegment (u.routeKey lower) seg →
      OfHost (hostOf lower u) seg := by
  constructor
  · intro h seg hseg
    obtain ⟨v, pool, hroute⟩ := lookupRoute_registryWith hseg
    obtain ⟨node, seg', -, hnode, hhead, hof⟩ := h _ v pool hroute
    rw [poolAt_registryWith hseg.slash_notMem] at hnode
    split at hnode
    · next heq =>
      rw [heq] at hhead
      cases hhead
      exact hof
    · cases hnode
  · intro h r v pool hroute
    have hlooks := lookupRoute_looks lower r u
    rw [hroute] at hlooks
    obtain ⟨htries, hmatch⟩ := hlooks.found_tries
    obtain ⟨node, hdeep, hnode⟩ := (matchUri_answers r.byURI v pool).mp hmatch
    exact ⟨node, _, hdeep, hnode, hdeep.head?_eq, h _ ((tries_iff _ _).mp ⟨v, htries, rfl⟩)⟩

/-- `Lookup` ends. It keeps to the host of the URI exactly when each segment
that it tries is the host or one of its wildcards, as it is for a URI without a
query, without a slash in front and without a dot in the path. -/
theorem lookup_keeps_to_host_iff (lower : Lower) (u : Uri) :
    (∀ r : RouteRegistry, r.byURI.Looks (u.routeKey lower) (r.lookupRoute lower u)) ∧
    (KeepsToHost lower u ↔ ∀ seg, TriedSegment (u.routeKey lower) seg →
      OfHost (hostOf lower u) seg) ∧
    ('?' ∉ u → u.head? ≠ some '/' → '.' ∉ u.dropWhile (· ≠ '/') → KeepsToHost lower u) := by
  have hiff := keepsToHost_iff lower u
  exact ⟨fun r => lookupRoute_looks lower r u, hiff, fun hquery hlead hdots =>
    hiff.mpr fun _ => tried_ofHost lower hquery hlead hdots⟩

/-- The dot in the path leads to the wildcard of another domain. -/
theorem lookup_crosses_hosts :
    ((newRouteRegistry 0 false).register Lower.asciiOnly 0 "*.com".toList
      ⟨0, "app".toList, "10.0.0.1".toList, 80, "id".toList, 0, ⟨[], 0⟩⟩).map (fun s =>
        ((s.1.lookup Lower.asciiOnly "foo/x.com".toList).isSome, s.1.byURI.nodesWithPool)) =
      some (true, [["*.com".toList]]) ∧
    ¬ OfHost (hostOf Lower.asciiOnly "foo/x.com".toList) "*.com".toList := by
  refine ⟨by decide, ?_⟩
  have hhost : hostOf Lower.asciiOnly "foo/x.com".toList = "foo".toList := by decide
  rw [hhost]
  rintro (h | ⟨rest, -, hcovers⟩)
  · cases h
  · exact not_covers (by decide) hcovers

end BigipCtlr.Registry
