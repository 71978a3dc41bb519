import BigipCtlr.Lib.Run
import BigipCtlr.Registry.Trie

/-!
# The exported route map

`ToMap` and `ToPath` spell the path of a node each in its own way: from the top
down, where nothing comes before a slash that is not there yet, and from the
node up. The two agree unless a route has an empty first segment and more
behind it.
-/

namespace BigipCtlr.Registry

open Go Lib

section
variable {V : Type}

def newseg (segment child : Str) : Str :=
  if segment.length = 0 then segment ++ child else segment ++ '/' :: child

/-- `toMap` at a node that many levels above the deepest. The order of each loop
over the children is open. -/
def Trie.toMapFrom (t : Trie V) (order : List Str → Order) :
    Nat → List Str → Str → GoMap Uri V → GoMap Uri V
  | 0, _, _, m => m
  | depth + 1, node, segment, m =>
    let m := match t.poolAt node with
      | some pool => m.insert segment pool
      | none => m
    ((order node).visit (t.childNodes node)).foldl
      (fun m child => t.toMapFrom order depth (node ++ [child]) (newseg segment child) m) m

def Trie.height (t : Trie V) : Nat := t.nodes.keys.foldr (fun node h => max node.length h) 0

/-- `ToMap`: the root has an empty segment. -/
def Trie.toMap (t : Trie V) (order : List Str → Order) : GoMap Uri V :=
  t.toMapFrom order (t.height + 1) [] [] ∅

/-- The map has one entry for each pool, under the path of its node. -/
def Trie.Faithful (t : Trie V) (m : GoMap Uri V) : Prop :=
  m.size = t.poolCount ∧ ∀ k pool, m.lookup k = some pool ↔
    ∃ node, t.poolAt node = some pool ∧ toPath node = k

-- ---------------------------------------------------------------------------
-- Paths
-- ---------------------------------------------------------------------------

theorem toPath_singleton (s : Str) : toPath [s] = s := by simp [toPath, List.intercalate]

theorem toPath_cons (hne : node ≠ []) (s : Str) : toPath (s :: node) = s ++ '/' :: toPath node := by
  obtain ⟨c, node, rfl⟩ := List.exists_cons_of_ne_nil hne
  simp [toPath, List.intercalate]

/-- `ToPath` puts a segment behind the path of the parent. -/
theorem toPath_concat (hne : node ≠ []) (s : Str) :
    toPath (node ++ [s]) = toPath node ++ '/' :: s := by
  induction node with
  | nil => exact absurd rfl hne
  | cons c node ih =>
    rw [List.cons_append, toPath_cons (by simp)]
    cases node with
    | nil => rw [List.nil_append, toPath_singleton, toPath_singleton]
    | cons d node => rw [ih (by simp), toPath_cons (by simp) c, List.append_assoc, List.cons_append]

def mapPath (node : List Str) : Str := node.foldl newseg []

theorem mapPath_concat (node : List Str) (s : Str) :
    mapPath (node ++ [s]) = newseg (mapPath node) s := by
  rw [mapPath, List.foldl_append]
  rfl

theorem toPath_injective (hp : ∀ s ∈ p, '/' ∉ s) (hq : ∀ s ∈ q, '/' ∉ s)
    (hpne : p ≠ []) (hqne : q ≠ []) (h : toPath p = toPath q) : p = q := by
  rw [← List.splitOn_intercalate '/' hp hpne, ← List.splitOn_intercalate '/' hq hqne]
  exact congrArg (List.splitOn '/') h

theorem toPath_cons_ne_nil (hs : s ≠ []) (node : List Str) : toPath (s :: node) ≠ [] := by
  cases node with
  | nil => rwa [toPath_singleton]
  | cons c node =>
    rw [toPath_cons (by simp)]
    simp

/-- The two spellings agree unless an empty segment is followed by others. -/
theorem mapPath_eq_toPath (hne : node ≠ []) (h : 2 ≤ node.length → node.head? ≠ some []) :
    mapPath node = toPath node := by
  induction node using List.reverseRecOn with
  | nil => exact absurd rfl hne
  | append_singleton node s ih =>
    rw [mapPath_concat]
    cases node with
    | nil => exact (toPath_singleton s).symm
    | cons c node =>
      have hc : c ≠ [] := by
        rintro rfl
        exact h (by simp) rfl
      have hpath : mapPath (c :: node) = toPath (c :: node) := ih (by simp) (by simp [hc])
      rw [hpath, toPath_concat (by simp), newseg, if_neg]
      rw [List.length_eq_zero_iff]
      exact toPath_cons_ne_nil hc node

theorem head?_mapPath_ne (h : ∀ s ∈ node, '/' ∉ s) : (mapPath node).head? ≠ some '/' := by
  induction node using List.reverseRecOn with
  | nil => simp [mapPath]
  | append_singleton node s ih =>
    have hnode := ih fun x hx => h x (List.mem_append_left _ hx)
    rw [mapPath_concat, newseg]
    split
    · next hnil =>
      rw [List.length_eq_zero_iff.mp hnil, List.nil_append]
      exact fun hs => h s (by simp) (List.mem_of_head? hs)
    · next hne =>
      obtain ⟨c, rest, hpath⟩ := List.exists_cons_of_ne_nil fun hnil =>
        hne (List.length_eq_zero_iff.mpr hnil)
      rw [hpath] at hnode ⊢
      exact hnode

-- ---------------------------------------------------------------------------
-- The walk
-- ---------------------------------------------------------------------------

def Trie.walk (t : Trie V) (order : List Str → Order) : Nat → List Str → List (List Str)
  | 0, _ => []
  | depth + 1, node => node :: ((order node).visit (t.childNodes node)).flatMap fun child =>
      t.walk order depth (node ++ [child])

def Trie.exports (t : Trie V) (nodes : List (List Str)) : List (Uri × V) :=
  nodes.filterMap fun node => (t.poolAt node).map fun pool => (mapPath node, pool)

variable {t : Trie V}

theorem toMapFrom_eq (order : List Str → Order) (depth : Nat) (node : List Str) (m : GoMap Uri V) :
    t.toMapFrom order depth node (mapPath node) m =
      (t.exports (t.walk order depth node)).foldl (fun m e => m.insert e.1 e.2) m := by
  induction depth generalizing node m with
  | zero => rfl
  | succ depth ih =>
    rw [Trie.walk, Trie.exports, List.filterMap_cons, List.filterMap_flatMap]
    have hchildren : ∀ (children : List Str) (m : GoMap Uri V),
        children.foldl (fun m child =>
          t.toMapFrom order depth (node ++ [child]) (newseg (mapPath node) child) m) m =
          (children.flatMap fun child => t.exports (t.walk order depth (node ++ [child]))).foldl
            (fun m e => m.insert e.1 e.2) m := by
      intro children m
      simp only [List.foldl_flatMap, ← ih, mapPath_concat]
    rw [Trie.toMapFrom]
    cases t.poolAt node with
    | none => exact hchildren _ m
    | some pool => exact hchildren _ _

theorem mem_walk (order : List Str → Order) (hnode : node ≠ [] → node ∈ t.nodes) :
    n ∈ t.walk order depth node ↔
      (n = node ∨ n ∈ t.nodes) ∧ node <+: n ∧ n.length < node.length + depth := by
  induction depth generalizing node with
  | zero =>
    simp only [Trie.walk, List.not_mem_nil, Nat.add_zero, false_iff, not_and, Nat.not_lt]
    exact fun _ hpre => hpre.length_le
  | succ depth ih =>
    simp only [Trie.walk, List.mem_cons, List.mem_flatMap, ((order node).perm _).mem_iff,
      Trie.mem_childNodes]
    constructor
    · rintro (rfl | ⟨c, hc, hn⟩)
      · exact ⟨.inl rfl, List.prefix_rfl, by omega⟩
      · obtain ⟨hmem, hpre, hlt⟩ := (ih fun _ => hc).mp hn
        refine ⟨.inr (hmem.elim (fun h => h ▸ hc) id), (List.prefix_append _ _).trans hpre, ?_⟩
        simp only [List.length_append, List.length_singleton] at hlt
        omega
    · rintro ⟨hmem, ⟨rest, rfl⟩, hlt⟩
      cases rest with
      | nil => exact .inl (List.append_nil _)
      | cons c rest =>
        have hn : node ++ c :: rest ∈ t.nodes := hmem.resolve_left (by simp)
        have hc : node ++ [c] ∈ t.nodes :=
          Trie.mem_of_prefix (q := rest) (by simpa using hn) (by simp)
        refine .inr ⟨c, hc, (ih fun _ => hc).mpr ⟨.inr hn, ⟨rest, by simp⟩, ?_⟩⟩
        simp only [List.length_append, List.length_cons, List.length_nil] at hlt ⊢
        omega

theorem length_le_height (h : n ∈ t.nodes) : n.length ≤ t.height := by
  have hkeys : n ∈ t.nodes.keys := AList.mem_keys.mpr h
  rw [Trie.height]
  generalize t.nodes.keys = l at hkeys
  induction l with
  | nil => cases hkeys
  | cons x l ih =>
    rw [List.foldr_cons]
    rcases List.mem_cons.mp hkeys with rfl | hl
    · exact Nat.le_max_left _ _
    · exact Nat.le_trans (ih hl) (Nat.le_max_right _ _)

theorem mem_exports (order : List Str → Order) :
    (k, pool) ∈ t.exports (t.walk order (t.height + 1) []) ↔
      ∃ node, t.poolAt node = some pool ∧ mapPath node = k := by
  simp only [Trie.exports, List.mem_filterMap, Option.map_eq_some_iff, Prod.mk.injEq]
  constructor
  · rintro ⟨node, -, _, hpool, hk, rfl⟩
    exact ⟨node, hpool, hk⟩
  · rintro ⟨node, hpool, hk⟩
    have hmem := Trie.mem_of_poolAt hpool
    refine ⟨node, (mem_walk order (by simp)).mpr ⟨.inr hmem, List.nil_prefix, ?_⟩,
      pool, hpool, hk, rfl⟩
    have := length_le_height hmem
    simp only [List.length_nil]
    omega

theorem toMap_eq (order : List Str → Order) :
    t.toMap order = (t.exports (t.walk order (t.height + 1) [])).foldl
      (fun m e => m.insert e.1 e.2) ∅ :=
  toMapFrom_eq order (t.height + 1) [] ∅

/-- What is found in the map was stored by a node with this path. -/
theorem node_of_lookup_toMap (order : List Str → Order) (h : (t.toMap order).lookup k = some pool) :
    ∃ node, t.poolAt node = some pool ∧ mapPath node = k := by
  rw [toMap_eq] at h
  by_cases hkey : ∃ e ∈ t.exports (t.walk order (t.height + 1) []), e.1 = k
  · obtain ⟨⟨k', pool'⟩, he, rfl, hlook⟩ :=
      GoMap.lookup_foldl_insert_of_mem Prod.fst Prod.snd ∅ hkey
    rw [h] at hlook
    cases hlook
    exact (mem_exports order).mp he
  · rw [GoMap.lookup_foldl_insert_of_ne Prod.fst Prod.snd ∅ fun e he hk => hkey ⟨e, he, hk⟩] at h
    cases h

theorem lookup_toMap_of_node (order : List Str → Order) (hpool : t.poolAt node = some pool) :
    ∃ pool', (t.toMap order).lookup (mapPath node) = some pool' := by
  have he := (mem_exports order).mpr ⟨node, hpool, rfl⟩
  obtain ⟨e, -, -, hlook⟩ := GoMap.lookup_foldl_insert_of_mem Prod.fst Prod.snd ∅ ⟨_, he, rfl⟩
  exact ⟨e.2, by rw [toMap_eq, hlook]⟩

def Trie.Slashless (t : Trie V) : Prop := ∀ node ∈ t.nodes, ∀ s ∈ node, '/' ∉ s

def Trie.Spelled (t : Trie V) : Prop :=
  ∀ node ∈ t.nodesWithPool, 2 ≤ node.length → node.head? ≠ some []

theorem Trie.Slashless.eq_of_toPath (h : t.Slashless) (hp : t.poolAt p = some v)
    (hq : t.poolAt q = some w) (heq : toPath p = toPath q) : p = q := by
  have hp := Trie.mem_of_poolAt hp
  have hq := Trie.mem_of_poolAt hq
  exact toPath_injective (h p hp) (h q hq) (Trie.ne_nil_of_mem hp) (Trie.ne_nil_of_mem hq) heq

theorem Trie.Slashless.size_eq (h : t.Slashless) {m : GoMap Uri V}
    (hm : ∀ k pool, m.lookup k = some pool ↔ ∃ node, t.poolAt node = some pool ∧ toPath node = k) :
    m.size = t.poolCount := by
  have hnodup : (t.nodesWithPool.map toPath).Nodup := by
    refine List.Nodup.map_on (fun p hp q hq => ?_) Trie.nodesWithPool_nodup
    obtain ⟨v, hv⟩ := Trie.mem_nodesWithPool.mp hp
    obtain ⟨w, hw⟩ := Trie.mem_nodesWithPool.mp hq
    exact h.eq_of_toPath hv hw
  have hperm : m.keys.Perm (t.nodesWithPool.map toPath) := by
    refine (List.perm_ext_iff_of_nodup m.keys_nodup hnodup).mpr fun k => ?_
    rw [← AList.mem_keys, GoMap.mem_iff, List.mem_map]
    simp only [hm, Trie.mem_nodesWithPool]
    constructor
    · rintro ⟨pool, node, hpool, hk⟩
      exact ⟨node, ⟨pool, hpool⟩, hk⟩
    · rintro ⟨node, ⟨pool, hpool⟩, hk⟩
      exact ⟨pool, node, hpool, hk⟩
  have hlen := hperm.length_eq
  rw [List.length_map, ← GoMap.pairs_keys, List.length_map, GoMap.pairs, List.length_map] at hlen
  exact hlen

theorem Trie.Slashless.faithful_iff (h : t.Slashless) (order : List Str → Order) :
    t.Faithful (t.toMap order) ↔ t.Spelled := by
  constructor
  · rintro ⟨-, hlook⟩ node hmem hlen hhead
    obtain ⟨pool, hpool⟩ := Trie.mem_nodesWithPool.mp hmem
    obtain ⟨node', hpool', hpath⟩ := node_of_lookup_toMap order ((hlook _ _).mpr ⟨node, hpool, rfl⟩)
    refine head?_mapPath_ne (h node' (Trie.mem_of_poolAt hpool')) ?_
    obtain ⟨c, node, rfl⟩ :=
      List.exists_cons_of_ne_nil (Trie.ne_nil_of_mem (Trie.mem_of_poolAt hpool))
    cases hhead
    rw [hpath, toPath_cons]
    · rfl
    · rintro rfl
      simp at hlen
  · intro hspelled
    have hpath : ∀ {node pool}, t.poolAt node = some pool → mapPath node = toPath node :=
      fun hpool =>
      mapPath_eq_toPath (Trie.ne_nil_of_mem (Trie.mem_of_poolAt hpool))
        (hspelled _ (Trie.mem_nodesWithPool.mpr ⟨_, hpool⟩))
    have hlook : ∀ k pool, (t.toMap order).lookup k = some pool ↔
        ∃ node, t.poolAt node = some pool ∧ toPath node = k := by
      intro k pool
      constructor
      · intro hk
        obtain ⟨node, hpool, hmap⟩ := node_of_lookup_toMap order hk
        exact ⟨node, hpool, (hpath hpool).symm.trans hmap⟩
      · rintro ⟨node, hpool, rfl⟩
        obtain ⟨pool', hk⟩ := lookup_toMap_of_node order hpool
        obtain ⟨node', hpool', hmap⟩ := node_of_lookup_toMap order hk
        rw [hpath hpool, hpath hpool'] at hmap
        rw [h.eq_of_toPath hpool' hpool hmap, hpool] at hpool'
        rw [← hpath hpool, hk, hpool']
    exact ⟨h.size_eq hlook, hlook⟩

-- ---------------------------------------------------------------------------
-- Runs
-- ---------------------------------------------------------------------------

inductive TrieOp (V : Type)
  | insert (uri : Uri) (value : V)
  | delete (uri : Uri)

def Trie.step (t : Trie V) : TrieOp V → Option (Trie V)
  | .insert uri value => some (t.insert uri value)
  | .delete uri => t.delete uri

theorem mem_of_mem_delete (h : t.delete uri = some t') (hn : n ∈ t'.nodes) : n ∈ t.nodes := by
  rw [Trie.delete] at h
  split at h
  · simp only [Trie.deleteEmptyNodes] at h
    split at h
    · obtain ⟨s, -, rfl⟩ := Option.map_eq_some_iff.mp h
      exact Trie.mem_setPool.mp (Trie.mem_deleteChild.mp hn).1
    · cases h
      exact Trie.mem_setPool.mp hn
  · cases h

theorem Trie.Slashless.step (h : t.Slashless) (hstep : t.step op = some t') : t'.Slashless := by
  cases op with
  | insert uri value =>
    cases hstep
    intro node hnode s hs
    rcases ((Trie.insertFrom_spec (by simp) (Trie.segments_ne_nil uri)).2 node).mp hnode with hold |
      ⟨pre, -, hpre, rfl⟩
    · exact h node hold s hs
    · exact notMem_of_mem_split (hpre.subset hs)
  | delete uri => exact fun node hnode => h node (mem_of_mem_delete hstep hnode)

/-- The map is faithful exactly when no route has an empty first segment and more
behind it. -/
theorem toMap_faithful_iff (ops : List (TrieOp V)) (t : Trie V)
    (hrun : run Trie.step newTrie ops = some t) (order : List Str → Order) :
    t.Faithful (t.toMap order) ↔ ∀ node ∈ t.nodesWithPool, 2 ≤ node.length →
      node.head? ≠ some [] := by
  have hslash : t.Slashless := by
    refine run_invariant_mem (I := Trie.Slashless) (fun s t op _ hs => hs.step) ?_ hrun
    intro node hnode
    simp [newTrie] at hnode
  exact hslash.faithful_iff order

end

theorem toMap_faithful_two : ∃ t : Trie Nat,
    run Trie.step newTrie [.insert "a.com/b".toList 1, .insert "c".toList 2,
        .insert "a.com".toList 3, .delete "c".toList] = some t ∧
      t.poolCount = 2 ∧ t.Faithful (t.toMap fun _ => .stored) := by
  have hrun : ∃ t ∈ run Trie.step (newTrie : Trie Nat) [.insert "a.com/b".toList 1,
      .insert "c".toList 2, .insert "a.com".toList 3, .delete "c".toList],
      t.poolCount = 2 ∧ ∀ node ∈ t.nodesWithPool, 2 ≤ node.length → node.head? ≠ some [] := by
    decide
  obtain ⟨t, ht, hcount, hspelled⟩ := hrun
  exact ⟨t, ht, hcount, (toMap_faithful_iff _ t ht _).mpr hspelled⟩

/-- A route with an empty first segment takes the place of another. -/
theorem toMap_loses_route :
    (run Trie.step (newTrie : Trie Nat) [.insert "a".toList 1, .insert "//a".toList 2]).map
      (fun t => (t.poolCount, (t.toMap fun _ => .stored).size)) = some (2, 1) := by
  decide

end BigipCtlr.Registry
