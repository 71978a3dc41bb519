import BigipCtlr.Go.Map
import BigipCtlr.Route
import Mathlib.Data.List.Induction

/-!
# The route trie

`container.Trie`. A node is the list of segments that leads to it from the
root, so its parent is the list without the last one; `nodes` has the pool of
every node below the root. Using a child that is not there panics, which is
`none`.
-/

namespace BigipCtlr.Registry

open Go

structure Trie (V : Type) where
  nodes : GoMap (List Str) (Option V)
  rooted : [] ∉ nodes
  closed : ∀ p s, p ++ [s] ∈ nodes → p ≠ [] → p ∈ nodes

/-- The segments that the loops over `parts` take off a URI one by one. -/
def segments (uri : Uri) : List Str := split (trimPrefix uri.string "/".toList) '/'

section
variable {V : Type}

def newTrie : Trie V := ⟨∅, by simp, by simp⟩

namespace Trie

def poolAt (t : Trie V) (node : List Str) : Option V := (t.nodes.lookup node).join

def childNodes (t : Trie V) (node : List Str) : List Str :=
  t.nodes.keys.filterMap fun q => if q.dropLast = node then q.getLast? else none

def isLeaf (t : Trie V) (node : List Str) : Bool := (t.childNodes node).length = 0

def setPool (t : Trie V) (node : List Str) (value : Option V) : Trie V :=
  if h : node ∈ t.nodes then
    { nodes := t.nodes.insert node value
      rooted := by
        rw [AList.mem_insert]
        rintro (he | hr)
        · exact t.rooted (he ▸ h)
        · exact t.rooted hr
      closed := by
        intro p s hp hne
        rw [AList.mem_insert] at hp ⊢
        rcases hp with hp | hp
        · exact .inr (t.closed p s (hp ▸ h) hne)
        · exact .inr (t.closed p s hp hne) }
  else t

def addChild (t : Trie V) (node : List Str) (segment : Str) : Trie V :=
  if h : node ++ [segment] ∉ t.nodes ∧ (node ≠ [] → node ∈ t.nodes) then
    { nodes := t.nodes.insert (node ++ [segment]) none
      rooted := by
        rw [AList.mem_insert]
        rintro (he | hr)
        · simp at he
        · exact t.rooted hr
      closed := by
        intro p s hp hne
        rw [AList.mem_insert] at hp ⊢
        rcases hp with hp | hp
        · obtain ⟨rfl, -⟩ := List.append_inj' hp rfl
          exact .inr (h.2 hne)
        · exact .inr (t.closed p s hp hne) }
  else t

/-- `delete(node.ChildNodes, segment)`: the child goes with all below it. -/
def deleteChild (t : Trie V) (node : List Str) (segment : Str) : Trie V where
  nodes := t.nodes.filterKeys fun q => ¬ node ++ [segment] <+: q
  rooted := by
    rw [GoMap.mem_iff]
    rintro ⟨v, hv⟩
    rw [GoMap.lookup_filterKeys] at hv
    split at hv
    · exact t.rooted (GoMap.mem_iff.mpr ⟨v, hv⟩)
    · cases hv
  closed := by
    intro p s hp hne
    obtain ⟨v, hv⟩ := GoMap.mem_iff.mp hp
    rw [GoMap.lookup_filterKeys] at hv
    split at hv
    · next hkeep =>
      obtain ⟨w, hw⟩ := GoMap.mem_iff.mp (t.closed p s (GoMap.mem_iff.mpr ⟨v, hv⟩) hne)
      refine GoMap.mem_iff.mpr ⟨w, ?_⟩
      rw [GoMap.lookup_filterKeys, if_pos, hw]
      simp only [decide_eq_true_eq] at hkeep ⊢
      exact fun hpre => hkeep (hpre.trans (List.prefix_append p [s]))
    · cases hv

-- ---------------------------------------------------------------------------
-- The operations
-- ---------------------------------------------------------------------------

def findFrom (t : Trie V) : List Str → List Str → Option V
  | node, [] => t.poolAt node
  | node, s :: rest => if node ++ [s] ∈ t.nodes then t.findFrom (node ++ [s]) rest else none

def find (t : Trie V) (uri : Uri) : Option V := t.findFrom [] (segments uri)

def matchFrom (t : Trie V) : List Str → Option V → List Str → Option V
  | node, lastPool, [] => (t.poolAt node).or lastPool
  | node, lastPool, s :: rest =>
    if node ++ [s] ∈ t.nodes then
      t.matchFrom (node ++ [s]) ((t.poolAt (node ++ [s])).or lastPool) rest
    else (t.poolAt node).or lastPool

def matchUri (t : Trie V) (uri : Uri) : Option V := t.matchFrom [] none (segments uri)

def insertFrom : Trie V → List Str → List Str → V → Trie V
  | t, node, [], value => t.setPool node (some value)
  | t, node, s :: rest, value => (t.addChild node s).insertFrom (node ++ [s]) rest value

def insert (t : Trie V) (uri : Uri) (value : V) : Trie V := t.insertFrom [] (segments uri) value

/-- The loop of `deleteEmptyNodes`: `nodeToKeep` and `nodeToRemove` at its
end. -/
def emptyNodes (t : Trie V) : List Str → List Str → Option (List Str) → List Str →
    List Str × Option (List Str)
  | _, nodeToKeep, nodeToRemove, [] => (nodeToKeep, nodeToRemove)
  | node, nodeToKeep, nodeToRemove, s :: rest =>
    let child := node ++ [s]
    if nodeToRemove = none ∧ (t.poolAt child).isNone ∧ (t.childNodes child).length < 2 then
      t.emptyNodes child nodeToKeep (some child) rest
    else if (t.poolAt child).isSome ∨ 1 < (t.childNodes child).length then
      t.emptyNodes child child none rest
    else t.emptyNodes child nodeToKeep nodeToRemove rest

/-- `deleteEmptyNodes`; `nodeToRemove` is used without a look at whether it is
nil. -/
def deleteEmptyNodes (t : Trie V) (path : List Str) : Option (Trie V) :=
  let (nodeToKeep, nodeToRemove) := t.emptyNodes [] [] none path
  if t.isLeaf path then (nodeToRemove.bind List.getLast?).map (t.deleteChild nodeToKeep) else some t

def delete (t : Trie V) (uri : Uri) : Option (Trie V) :=
  let path := segments uri
  if path ∈ t.nodes then (t.setPool path none).deleteEmptyNodes path else none

def deleteIf (emptied : Bool) (t : Trie V) (uri : Uri) : Option (Trie V) :=
  if emptied then t.delete uri else some t

/-- The nodes with a pool. `EachNodeWithPool` visits them in an order that is
open, as every loop over a map is. -/
def nodesWithPool (t : Trie V) : List (List Str) :=
  t.nodes.keys.filter fun node => (t.poolAt node).isSome

/-- `EachNodeWithPool` with a change of the pool itself, where the order does
not matter. -/
def eachPool (f : V → V) (t : Trie V) : Trie V :=
  t.nodesWithPool.foldl (fun t node => t.setPool node ((t.poolAt node).map f)) t

def poolCount (t : Trie V) : Nat := t.nodesWithPool.length

/-- The first statement of `Snip`. -/
def dropEmpty (isEmpty : V → Bool) (t : Trie V) (node : List Str) : Trie V :=
  if (t.poolAt node).any isEmpty then t.setPool node none else t

def snipUp (isEmpty : V → Bool) : Trie V → List Str → Trie V
  | t, [] => t
  | t, segment :: up =>
    let node := up.reverse ++ [segment]
    let t := t.dropEmpty isEmpty node
    if (t.poolAt node).any (!isEmpty ·) || !t.isLeaf node then t
    else snipUp isEmpty (t.deleteChild up.reverse segment) up

def snip (isEmpty : V → Bool) (t : Trie V) (node : List Str) : Trie V :=
  t.snipUp isEmpty node.reverse

end Trie

def toPath (node : List Str) : Str := ['/'].intercalate node

-- ---------------------------------------------------------------------------
-- What the parts change
-- ---------------------------------------------------------------------------

namespace Trie

variable {t : Trie V}

theorem poolAt_eq_some : t.poolAt p = some v ↔ t.nodes.lookup p = some (some v) := by
  simp only [poolAt, Option.join_eq_some_iff]

theorem mem_of_poolAt (h : t.poolAt p = some v) : p ∈ t.nodes :=
  GoMap.mem_iff.mpr ⟨_, poolAt_eq_some.mp h⟩

theorem poolAt_of_notMem (h : p ∉ t.nodes) : t.poolAt p = none := by
  rw [poolAt, AList.lookup_eq_none.mpr h]
  rfl

@[simp] theorem poolAt_root : t.poolAt [] = none := poolAt_of_notMem t.rooted

theorem ne_nil_of_mem (h : p ∈ t.nodes) : p ≠ [] := by
  rintro rfl
  exact t.rooted h

theorem mem_of_prefix (h : p ++ q ∈ t.nodes) (hp : p ≠ []) : p ∈ t.nodes := by
  induction q using List.reverseRecOn with
  | nil => simpa using h
  | append_singleton q s ih =>
    rw [← List.append_assoc] at h
    exact ih (t.closed _ _ h (by simp [hp]))

theorem mem_childNodes : s ∈ t.childNodes p ↔ p ++ [s] ∈ t.nodes := by
  simp only [childNodes, List.mem_filterMap, AList.mem_keys, Option.ite_none_right_eq_some]
  constructor
  · rintro ⟨q, hq, rfl, hs⟩
    rwa [List.dropLast_append_getLast? s hs]
  · intro h
    exact ⟨p ++ [s], h, by simp, by simp⟩

theorem isLeaf_iff : t.isLeaf p = true ↔ ∀ s, p ++ [s] ∉ t.nodes := by
  simp only [isLeaf, decide_eq_true_eq, List.length_eq_zero_iff, ← mem_childNodes,
    List.eq_nil_iff_forall_not_mem]

theorem childNodes_nodup : (t.childNodes p).Nodup := by
  refine List.Nodup.filterMap ?_ t.nodes.keys_nodup
  intro q q' s hq hq'
  simp only [Option.mem_def, Option.ite_none_right_eq_some] at hq hq'
  rw [← List.dropLast_append_getLast? s hq.2, ← List.dropLast_append_getLast? s hq'.2, hq.1, hq'.1]

theorem child_unique (h : (t.childNodes p).length < 2) (hx : p ++ [x] ∈ t.nodes)
    (hy : p ++ [y] ∈ t.nodes) :
    x = y := by
  rw [← mem_childNodes] at hx hy
  match hl : t.childNodes p, h with
  | [], _ =>
    rw [hl] at hx
    cases hx
  | [c], _ =>
    rw [hl, List.mem_singleton] at hx hy
    exact hx.trans hy.symm

theorem exists_other_child (h : 1 < (t.childNodes p).length) (x : Str) :
    ∃ y, y ≠ x ∧ p ++ [y] ∈ t.nodes := by
  by_contra hno
  have hall : ∀ y ∈ t.childNodes p, y = x := by
    intro y hy
    by_contra hne
    exact hno ⟨y, hne, mem_childNodes.mp hy⟩
  have hrep := List.eq_replicate_of_mem hall
  have hnd := childNodes_nodup (t := t) (p := p)
  rw [hrep, List.nodup_replicate] at hnd
  omega

theorem mem_setPool : q ∈ (t.setPool p v).nodes ↔ q ∈ t.nodes := by
  rw [setPool]
  split
  · next h =>
    rw [AList.mem_insert]
    exact ⟨fun hq => hq.elim (fun he => he ▸ h) id, .inr⟩
  · rfl

theorem poolAt_setPool (h : p ∈ t.nodes) :
    (t.setPool p v).poolAt q = if q = p then v else t.poolAt q := by
  rw [setPool, dif_pos h, poolAt, GoMap.lookup_insert_ite]
  split
  · rfl
  · rfl

theorem mem_addChild (h : p ≠ [] → p ∈ t.nodes) :
    q ∈ (t.addChild p s).nodes ↔ q = p ++ [s] ∨ q ∈ t.nodes := by
  rw [addChild]
  split
  · exact AList.mem_insert _
  · next hno =>
    have hmem : p ++ [s] ∈ t.nodes := by
      by_contra hne
      exact hno ⟨hne, h⟩
    exact ⟨.inr, fun hq => hq.elim (fun he => he ▸ hmem) id⟩

theorem poolAt_addChild : (t.addChild p s).poolAt q = t.poolAt q := by
  rw [addChild]
  split
  · next h =>
    rw [poolAt, GoMap.lookup_insert_ite]
    split
    · next hq =>
      rw [hq, poolAt_of_notMem h.1]
      rfl
    · rfl
  · rfl

theorem lookup_deleteChild :
    (t.deleteChild p s).nodes.lookup q = if p ++ [s] <+: q then none else t.nodes.lookup q := by
  simp only [deleteChild, GoMap.lookup_filterKeys, decide_eq_true_eq, ite_not]

theorem mem_deleteChild : q ∈ (t.deleteChild p s).nodes ↔ q ∈ t.nodes ∧ ¬ p ++ [s] <+: q := by
  simp only [GoMap.mem_iff, lookup_deleteChild]
  split
  · next h => simp [h]
  · next h => simp [h]

theorem poolAt_deleteChild : (t.deleteChild p s).poolAt q = if p ++
    [s] <+: q then none else t.poolAt q := by
  rw [poolAt, lookup_deleteChild]
  split
  · rfl
  · rfl

-- ---------------------------------------------------------------------------
-- What the operations change
-- ---------------------------------------------------------------------------

theorem findFrom_eq (h : p ≠ [] → p ∈ t.nodes) : t.findFrom p q = t.poolAt (p ++ q) := by
  induction q generalizing p with
  | nil => rw [findFrom, List.append_nil]
  | cons s rest ih =>
    rw [findFrom]
    split
    · next hs =>
      rw [ih fun _ => hs, List.append_assoc]
      rfl
    · next hs =>
      symm
      refine poolAt_of_notMem fun hmem => hs ?_
      exact mem_of_prefix (q := rest) (by simpa using hmem) (by simp)

theorem find_eq (uri : Uri) : t.find uri = t.poolAt (segments uri) := findFrom_eq (by simp)

theorem insertFrom_spec (h : p ≠ [] → p ∈ t.nodes) (hne : p ++ q ≠ []) :
    (∀ x, (t.insertFrom p q v).poolAt x = if x = p ++ q then some v else t.poolAt x) ∧
      ∀ x, x ∈ (t.insertFrom p q v).nodes ↔ x ∈ t.nodes ∨ ∃ pre, pre ≠ [] ∧ pre <+: q ∧
        x = p ++ pre := by
  induction q generalizing t p with
  | nil =>
    rw [List.append_nil] at hne
    rw [insertFrom]
    refine ⟨fun x => ?_, fun x => ?_⟩
    · rw [poolAt_setPool (h hne), List.append_nil]
    · rw [mem_setPool]
      simp
  | cons s rest ih =>
    have hchild : p ++ [s] ∈ (t.addChild p s).nodes := (mem_addChild h).mpr (.inl rfl)
    obtain ⟨hpool, hmem⟩ := ih (t := t.addChild p s) (p := p ++ [s]) (fun _ => hchild) (by simp)
    rw [insertFrom]
    refine ⟨fun x => ?_, fun x => ?_⟩
    · rw [hpool, poolAt_addChild, List.append_assoc]
      rfl
    · rw [hmem, mem_addChild h]
      constructor
      · rintro ((rfl | hx) | ⟨pre, -, hpre, rfl⟩)
        · exact .inr ⟨[s], by simp, ⟨rest, rfl⟩, rfl⟩
        · exact .inl hx
        · exact .inr ⟨s :: pre, by simp, List.cons_prefix_cons.mpr ⟨rfl, hpre⟩, by simp⟩
      · rintro (hx | ⟨pre, hne, hpre, rfl⟩)
        · exact .inl (.inr hx)
        · cases pre with
          | nil => exact absurd rfl hne
          | cons c pre =>
            obtain ⟨rfl, hpre'⟩ := List.cons_prefix_cons.mp hpre
            by_cases hnil : pre = []
            · exact .inl (.inl (by rw [hnil]))
            · exact .inr ⟨pre, hnil, hpre', by simp⟩

def Trimmed (t : Trie V) : Prop := ∀ p ∈ t.nodes, t.poolAt p ≠ none ∨ ∃ s, p ++ [s] ∈ t.nodes

def TrimmedBut (t : Trie V) (node : List Str) : Prop :=
  ∀ p ∈ t.nodes, p ≠ node → t.poolAt p ≠ none ∨ ∃ s, p ++ [s] ∈ t.nodes

theorem segments_ne_nil (uri : Uri) : segments uri ≠ [] := by
  simp [segments, split]

theorem poolAt_insert (uri : Uri) (v : V) :
    (t.insert uri v).poolAt x = if x = segments uri then some v else t.poolAt x :=
  (insertFrom_spec (by simp) (segments_ne_nil uri)).1 x

theorem Trimmed.insert (h : t.Trimmed) (uri : Uri) (v : V) : (t.insert uri v).Trimmed := by
  have hmem :=
    (insertFrom_spec (t := t) (p := []) (q := segments uri) (v := v) (by simp)
      (segments_ne_nil uri)).2
  intro p hp
  rw [poolAt_insert]
  have hkeep : ∀ {q}, q ∈ t.nodes → q ∈ (t.insert uri v).nodes := fun hq => (hmem _).mpr (.inl hq)
  rcases (hmem p).mp hp with hold | ⟨pre, hne, ⟨rest, hrest⟩, rfl⟩
  · split
    · exact .inl (by simp)
    · exact (h p hold).imp id fun ⟨s, hs⟩ => ⟨s, hkeep hs⟩
  · cases rest with
    | nil =>
      rw [List.append_nil] at hrest
      exact .inl (by simp [hrest])
    | cons s rest =>
      refine .inr ⟨s, (hmem _).mpr (.inr ⟨_ ++ [s], by simp, ⟨rest, ?_⟩, rfl⟩)⟩
      rw [← hrest, List.append_assoc]
      rfl

def Bare (t : Trie V) (rm node : List Str) : Prop :=
  ∀ q, rm <+: q → q <+: node → t.poolAt q = none ∧ (t.childNodes q).length < 2

/-- Where the loop of `deleteEmptyNodes` stands at a node: `keep` is the last
node on the way that has to stay, and what follows is bare. -/
def Walked (t : Trie V) (node keep : List Str) : Option (List Str) → Prop
  | none => node = keep
  | some rm => ∃ s rest, rm = keep ++ [s] ∧ node = rm ++ rest ∧ t.Bare rm node

def Kept (t : Trie V) (keep : List Str) : Prop :=
  keep = [] ∨ t.poolAt keep ≠ none ∨ 1 < (t.childNodes keep).length

theorem Bare.extend (h : t.Bare rm node) (hpool : t.poolAt (node ++ [s]) = none)
    (hone : (t.childNodes (node ++ [s])).length < 2) : t.Bare rm (node ++ [s]) := by
  intro q hrm hq
  rcases List.prefix_concat_iff.mp hq with rfl | hq
  · exact ⟨hpool, hone⟩
  · exact h q hrm hq

theorem emptyNodes_spec (rest : List Str) (h : t.Walked node keep rm) (hkeep : t.Kept keep) :
    ∃ keep' rm', t.emptyNodes node keep rm rest = (keep', rm') ∧ t.Walked (node ++ rest) keep' rm' ∧
      t.Kept keep' := by
  induction rest generalizing node keep rm with
  | nil => exact ⟨keep, rm, rfl, by rwa [List.append_nil], hkeep⟩
  | cons s rest ih =>
    have hassoc : node ++ s :: rest = node ++ [s] ++ rest := by simp
    rw [hassoc]
    simp only [emptyNodes]
    split
    · next hfirst =>
      obtain ⟨rfl, hpool, hone⟩ := hfirst
      obtain rfl : node = keep := h
      refine ih ⟨s, [], rfl, by simp, fun q hrm hq => ?_⟩ hkeep
      obtain rfl : q = node ++ [s] := hq.eq_of_length_le hrm.length_le
      exact ⟨by simpa using hpool, hone⟩
    · next hfirst =>
      split
      · next hstay =>
        refine ih (show t.Walked (node ++ [s]) (node ++ [s]) none from rfl) (.inr ?_)
        rwa [← Option.isSome_iff_ne_none]
      · next hstay =>
        rw [not_or, Option.not_isSome_iff_eq_none, Nat.not_lt] at hstay
        cases rm with
        | none => exact absurd ⟨rfl, by simp [hstay.1], by omega⟩ hfirst
        | some rm =>
          obtain ⟨x, r, rfl, rfl, hbare⟩ := h
          refine ih ⟨x, r ++ [s], rfl, by simp, ?_⟩ hkeep
          exact hbare.extend hstay.1 (by omega)

theorem Bare.below (h : t.Bare rm node) (hleaf : t.isLeaf node = true) (hrm : rm <+: node)
    (hnode : node ∈ t.nodes) (hne : rm ≠ []) (hq : q ∈ t.nodes) (hrmq : rm <+: q) : q <+: node := by
  obtain ⟨r, rfl⟩ := hrmq
  induction r using List.reverseRecOn with
  | nil => simpa using hrm
  | append_singleton r x ih =>
    rw [← List.append_assoc] at hq
    have hup := ih (t.closed _ _ hq (by simp [hne]))
    obtain ⟨rest, hrest⟩ := hup
    cases rest with
    | nil =>
      rw [List.append_nil] at hrest
      exact absurd (hrest ▸ hq) (isLeaf_iff.mp hleaf x)
    | cons y rest =>
      have hy : rm ++ r ++ [y] ∈ t.nodes := by
        refine mem_of_prefix (q := rest) ?_ (by simp)
        rw [List.append_assoc]
        exact hrest ▸ hnode
      have hone := (h (rm ++ r) (List.prefix_append _ _) ⟨_, hrest⟩).2
      obtain rfl := child_unique hone hq hy
      exact ⟨rest, by rw [← hrest]; simp⟩

/-- `deleteEmptyNodes` at a node without a pool takes no pool away and leaves
no dead branch, where that node was the only one. -/
theorem deleteEmptyNodes_spec (hmem : path ∈ t.nodes) (hpool : t.poolAt path = none)
    (htrim : t.TrimmedBut path) :
    ∃ t', t.deleteEmptyNodes path = some t' ∧ (∀ q, t'.poolAt q = t.poolAt q) ∧ t'.Trimmed := by
  obtain ⟨keep, rm, hloop, hwalk, hkeep⟩ :=
    emptyNodes_spec path (show t.Walked [] [] none from rfl) (.inl rfl)
  rw [List.nil_append] at hwalk
  simp only [deleteEmptyNodes, hloop]
  split
  · next hleaf =>
    cases rm with
    | none =>
      obtain rfl : path = keep := hwalk
      rcases hkeep with rfl | hp | hmany
      · exact absurd hmem t.rooted
      · exact absurd hpool hp
      · simp only [isLeaf, decide_eq_true_eq] at hleaf
        omega
    | some rm =>
      obtain ⟨s, rest, rfl, rfl, hbare⟩ := hwalk
      have hbelow : ∀ q ∈ t.nodes, keep ++ [s] <+: q → t.poolAt q = none := fun q hq hrmq =>
        (hbare q hrmq (hbare.below hleaf (List.prefix_append _ _) hmem (by simp) hq hrmq)).1
      have hpools : ∀ q, (t.deleteChild keep s).poolAt q = t.poolAt q := by
        intro q
        rw [poolAt_deleteChild]
        split
        · next hq =>
          by_cases hqm : q ∈ t.nodes
          · rw [hbelow q hqm hq]
          · rw [poolAt_of_notMem hqm]
        · rfl
      refine ⟨t.deleteChild keep s, by simp, hpools, fun p hp => ?_⟩
      rw [hpools]
      obtain ⟨hp, hout⟩ := mem_deleteChild.mp hp
      have hne : p ≠ keep ++ [s] ++ rest := by
        rintro rfl
        exact hout (List.prefix_append _ _)
      rcases htrim p hp hne with h | ⟨x, hx⟩
      · exact .inl h
      · by_cases hin : keep ++ [s] <+: p ++ [x]
        · -- the child is the node removed, so that the node is the one kept
          rcases List.prefix_concat_iff.mp hin with heq | hin
          · obtain ⟨rfl, -⟩ := List.append_inj' heq rfl
            rcases hkeep with rfl | hpl | hmany
            · exact absurd hp t.rooted
            · exact .inl hpl
            · obtain ⟨y, hy, hmemy⟩ := exists_other_child hmany s
              refine .inr ⟨y, mem_deleteChild.mpr ⟨hmemy, fun hpre => hy ?_⟩⟩
              have := hpre.eq_of_length_le (by simp)
              simpa using this.symm
          · exact absurd hin hout
        · exact .inr ⟨x, mem_deleteChild.mpr ⟨hx, hin⟩⟩
  · next hleaf =>
    refine ⟨t, rfl, fun _ => rfl, fun p hp => ?_⟩
    by_cases hne : p = path
    · subst hne
      right
      by_contra hno
      exact hleaf (isLeaf_iff.mpr fun s hs => hno ⟨s, hs⟩)
    · exact htrim p hp hne

/-- `Delete` of a route that is there takes its pool away and no other. -/
theorem Trimmed.delete (h : t.Trimmed) (hv : t.find uri = some v) :
    ∃ t', t.delete uri = some t' ∧ t'.Trimmed ∧
      ∀ q, t'.poolAt q = if q = segments uri then none else t.poolAt q := by
  rw [find_eq] at hv
  have hmem := mem_of_poolAt hv
  obtain ⟨t', ht', hpools, htrim⟩ := deleteEmptyNodes_spec (t := t.setPool (segments uri) none)
    (mem_setPool.mpr hmem) (by rw [poolAt_setPool hmem, if_pos rfl]) (by
      intro p hp hne
      rw [poolAt_setPool hmem, if_neg hne]
      exact (h p (mem_setPool.mp hp)).imp id fun ⟨s, hs⟩ => ⟨s, mem_setPool.mpr hs⟩)
  refine ⟨t', by simp only [Trie.delete, if_pos hmem, ht'], htrim, fun q => ?_⟩
  rw [hpools, poolAt_setPool hmem]

theorem mem_nodesWithPool : p ∈ t.nodesWithPool ↔ ∃ v, t.poolAt p = some v := by
  simp only [nodesWithPool, List.mem_filter, Option.isSome_iff_exists]
  exact ⟨And.right, fun ⟨v, hv⟩ => ⟨mem_of_poolAt hv, v, hv⟩⟩

theorem nodesWithPool_nodup : t.nodesWithPool.Nodup := t.nodes.keys_nodup.filter _

theorem foldl_setPool (f : V → V) (nodes : List (List Str)) (hnd : nodes.Nodup)
    (hmem : ∀ p ∈ nodes, p ∈ t.nodes) :
    (∀ q, q ∈ (nodes.foldl (fun t node => t.setPool node ((t.poolAt node).map f)) t).nodes ↔
      q ∈ t.nodes) ∧
      ∀ q, (nodes.foldl (fun t node => t.setPool node ((t.poolAt node).map f)) t).poolAt q =
        if q ∈ nodes then (t.poolAt q).map f else t.poolAt q := by
  induction nodes generalizing t with
  | nil => simp
  | cons p nodes ih =>
    obtain ⟨hp, hnd⟩ := List.nodup_cons.mp hnd
    obtain ⟨hm, hpools⟩ := ih (t := t.setPool p ((t.poolAt p).map f)) hnd fun q hq =>
      mem_setPool.mpr (hmem q (List.mem_cons_of_mem _ hq))
    refine ⟨fun q => (hm q).trans mem_setPool, fun q => ?_⟩
    rw [List.foldl_cons, hpools, poolAt_setPool (hmem p List.mem_cons_self)]
    by_cases hqp : q = p
    · subst hqp
      simp [hp]
    · simp [hqp]

theorem mem_eachPool (f : V → V) : q ∈ (t.eachPool f).nodes ↔ q ∈ t.nodes :=
  (foldl_setPool f t.nodesWithPool nodesWithPool_nodup fun _ hp =>
    mem_of_poolAt (mem_nodesWithPool.mp hp).choose_spec).1 q

theorem poolAt_eachPool (f : V → V) : (t.eachPool f).poolAt q = (t.poolAt q).map f := by
  rw [eachPool, (foldl_setPool f t.nodesWithPool nodesWithPool_nodup fun _ hp =>
    mem_of_poolAt (mem_nodesWithPool.mp hp).choose_spec).2]
  split
  · rfl
  · next hq =>
    cases hv : t.poolAt q with
    | none => rfl
    | some v => exact absurd (mem_nodesWithPool.mpr ⟨v, hv⟩) hq

section
variable {isEmpty : V → Bool}

theorem filter_full {x : Option V} (h : ∀ v, x = some v → isEmpty v = false) :
    x.filter (!isEmpty ·) = x := by
  cases x with
  | none => rfl
  | some v => rw [Option.filter_some, if_pos (by simp [h v rfl])]

theorem filter_filter_full (x : Option V) :
    (x.filter (!isEmpty ·)).filter (!isEmpty ·) = x.filter (!isEmpty ·) :=
  filter_full fun _ hv => by simpa using (Option.filter_eq_some_iff.mp hv).2

theorem mem_dropEmpty : q ∈ (t.dropEmpty isEmpty p).nodes ↔ q ∈ t.nodes := by
  rw [dropEmpty]
  split
  · exact mem_setPool
  · rfl

theorem poolAt_dropEmpty (h : p ∈ t.nodes) :
    (t.dropEmpty isEmpty p).poolAt q = if q = p then (t.poolAt q).filter (!isEmpty ·)
      else t.poolAt q := by
  rw [dropEmpty]
  split
  · next hany =>
    rw [poolAt_setPool h]
    split
    · next hq =>
      rw [hq]
      cases hv : t.poolAt p with
      | none => rfl
      | some v =>
        rw [Option.filter_some, if_neg]
        simpa [hv] using hany
    · rfl
  · next hany =>
    split
    · next hq =>
      rw [hq]
      refine (filter_full fun v hv => ?_).symm
      simpa [hv] using hany
    · rfl

theorem TrimmedBut.deleteLeaf (h : t.TrimmedBut (up ++ [s])) (hpool : t.poolAt (up ++ [s]) = none)
    (hleaf : t.isLeaf (up ++ [s]) = true) :
    (t.deleteChild up s).TrimmedBut up ∧ ∀ q, (t.deleteChild up s).poolAt q = t.poolAt q := by
  have hpools : ∀ q, (t.deleteChild up s).poolAt q = t.poolAt q := by
    intro q
    rw [poolAt_deleteChild]
    split
    · next hpre =>
      obtain ⟨r, rfl⟩ := hpre
      cases r with
      | nil => rw [List.append_nil, hpool]
      | cons x r =>
        symm
        refine poolAt_of_notMem fun hm => isLeaf_iff.mp hleaf x ?_
        exact mem_of_prefix (q := r) (by simpa using hm) (by simp)
    · rfl
  refine ⟨fun p hp hne => ?_, hpools⟩
  obtain ⟨hp, hout⟩ := mem_deleteChild.mp hp
  rw [hpools]
  have hpn : p ≠ up ++ [s] := by
    rintro rfl
    exact hout (List.prefix_refl _)
  refine (h p hp hpn).imp id fun ⟨x, hx⟩ => ⟨x, mem_deleteChild.mpr ⟨hx, fun hpre => ?_⟩⟩
  rcases List.prefix_concat_iff.mp hpre with heq | hpre
  · exact hne (List.append_inj' heq rfl).1.symm
  · exact hout hpre

/-- `Snip` at the one node whose pool may be empty takes that pool away if it
is, and leaves no dead branch. -/
theorem snipUp_spec (hfull : ∀ q v, q ≠ up.reverse → t.poolAt q = some v → isEmpty v = false)
    (htrim : t.TrimmedBut up.reverse) (hmem : up ≠ [] → up.reverse ∈ t.nodes) :
    (t.snipUp isEmpty up).Trimmed ∧
      ∀ q, (t.snipUp isEmpty up).poolAt q = (t.poolAt q).filter (!isEmpty ·) := by
  induction up generalizing t with
  | nil =>
    rw [snipUp]
    refine ⟨fun p hp => htrim p hp (ne_nil_of_mem hp), fun q => (filter_full fun v hv => ?_).symm⟩
    exact hfull q v (ne_nil_of_mem (mem_of_poolAt hv)) hv
  | cons segment up ih =>
    rw [List.reverse_cons] at hfull htrim hmem
    have hin : up.reverse ++ [segment] ∈ t.nodes := hmem (by simp)
    have hdrop : ∀ q, (t.dropEmpty isEmpty (up.reverse ++ [segment])).poolAt q =
        (t.poolAt q).filter (!isEmpty ·) := by
      intro q
      rw [poolAt_dropEmpty hin]
      split
      · rfl
      · next hq => exact (filter_full fun v hv => hfull q v hq hv).symm
    have htrim₁ : (t.dropEmpty isEmpty (up.reverse ++ [segment])).TrimmedBut
        (up.reverse ++ [segment]) := by
      intro p hp hne
      rw [poolAt_dropEmpty hin, if_neg hne]
      exact (htrim p (mem_dropEmpty.mp hp) hne).imp id fun ⟨s, hs⟩ => ⟨s, mem_dropEmpty.mpr hs⟩
    simp only [snipUp]
    split
    · next hstop =>
      refine ⟨fun p hp => ?_, hdrop⟩
      by_cases hne : p = up.reverse ++ [segment]
      · subst hne
        rcases Bool.or_eq_true _ _ |>.mp hstop with hany | hleaf
        · left
          intro hnone
          simp [hnone] at hany
        · right
          by_contra hno
          rw [isLeaf_iff.mpr fun s hs => hno ⟨s, hs⟩] at hleaf
          cases hleaf
      · exact htrim₁ p hp hne
    · next hgo =>
      rw [Bool.or_eq_true, not_or, Bool.not_eq_true', Bool.not_eq_false] at hgo
      have hnone : (t.dropEmpty isEmpty (up.reverse ++ [segment])).poolAt
          (up.reverse ++ [segment]) = none := by
        cases hv : (t.dropEmpty isEmpty (up.reverse ++ [segment])).poolAt
          (up.reverse ++ [segment]) with
        | none => rfl
        | some v =>
          have hkeep := (Option.filter_eq_some_iff.mp ((hdrop _).symm.trans hv)).2
          exact absurd (by rw [hv]; exact hkeep) hgo.1
      obtain ⟨htrim₂, hpools⟩ := htrim₁.deleteLeaf hnone hgo.2
      have hfull₂ : ∀ q v, q ≠ up.reverse →
          ((t.dropEmpty isEmpty (up.reverse ++ [segment])).deleteChild up.reverse segment).poolAt
            q = some v → isEmpty v = false := by
        intro q v _ hv
        rw [hpools, hdrop] at hv
        simpa using (Option.filter_eq_some_iff.mp hv).2
      have hmem₂ : up ≠ [] → up.reverse ∈
          ((t.dropEmpty isEmpty (up.reverse ++ [segment])).deleteChild up.reverse
            segment).nodes := by
        intro hne
        have hup : up.reverse ≠ [] := by simpa using hne
        refine mem_deleteChild.mpr ⟨mem_dropEmpty.mpr (t.closed _ segment hin hup), fun hpre => ?_⟩
        have := hpre.length_le
        rw [List.length_append, List.length_singleton] at this
        omega
      obtain ⟨htrim', hpools'⟩ := ih hfull₂ htrim₂ hmem₂
      exact ⟨htrim', fun q => by rw [hpools', hpools, hdrop, filter_filter_full]⟩

theorem snip_spec (isEmpty : V → Bool)
    (hfull : ∀ q v, q ≠ p → t.poolAt q = some v → isEmpty v = false) (htrim : t.TrimmedBut p)
    (hmem : p ∈ t.nodes) :
    (t.snip isEmpty p).Trimmed ∧ ∀ q, (t.snip isEmpty p).poolAt q =
      (t.poolAt q).filter (!isEmpty ·) :=
  snipUp_spec (by simpa using hfull) (by simpa using htrim) (by simpa using fun _ => hmem)

end

end Trie

end

end BigipCtlr.Registry
