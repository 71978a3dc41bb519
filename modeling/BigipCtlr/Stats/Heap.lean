import BigipCtlr.Go.ContainerHeap
import Mathlib.Data.Int.Order.Basic

/-!
# The heaps of the statistics

`container.Heap` holds pointers to entries and tells each entry, through
`SetIndex`, where it is. The entries stand in a list of their own, which the
heaps of one object share, and a pointer is a place in it. A Go panic is `none`.
-/

namespace BigipCtlr.Stats

open Go Lib

/-- What a kind of heap does with its entries: `Less`, which may panic, and
`SetIndex`. -/
structure HeapType (E : Type) where
  less : E → E → Option Bool
  setIndex : E → Int → E

structure Heap (E : Type) where
  entries : List E
  h : List Nat

namespace Heap

def get (x : Heap E) (i : Nat) : Option E := x.h[i]?.bind fun ptr => x.entries[ptr]?

def setIndex (T : HeapType E) (x : Heap E) (i : Nat) (j : Int) : Option (Heap E) :=
  x.h[i]?.map fun ptr => { x with entries := x.entries.modify ptr (T.setIndex · j) }

def swap (T : HeapType E) (x : Heap E) (i j : Nat) : Option (Heap E) := do
  let a ← x.h[i]?
  let b ← x.h[j]?
  let x := { x with h := (x.h.set i b).set j a }
  let x ← x.setIndex T i i
  x.setIndex T j j

def push (T : HeapType E) (x : Heap E) (a : Nat) : Option (Heap E) :=
  let x := { x with h := x.h ++ [a] }
  let n := x.h.length
  x.setIndex T (n - 1) (n - 1 : Nat)

def pop (T : HeapType E) (x : Heap E) : Option (Heap E × Nat) := do
  let n := x.h.length
  let x ← x.setIndex T (n - 1) (-1)
  let y ← x.h[n - 1]?
  some ({ x with h := x.h.take (n - 1) }, y)

end Heap

def HeapType.interface (T : HeapType E) : Heap.Interface (Heap E) Nat where
  len x := x.h.length
  less x i j := (x.get i).bind fun yi => (x.get j).bind fun yj => T.less yi yj
  swap := Heap.swap T
  push := Heap.push T
  pop := Heap.pop T

-- ---------------------------------------------------------------------------
-- Coherent heaps
-- ---------------------------------------------------------------------------

/-- The entries compare by rank, and an index does not change the rank. `At`
says which index an entry has; entries of snapshots have none. -/
structure HeapType.Lawful (T : HeapType E) (rank : E → Int) (Valid : E → Prop)
    (At : E → Int → Prop) : Prop where
  less : ∀ a b, Valid a → Valid b → T.less a b = some (decide (rank a < rank b))
  again : ∀ e i j, T.setIndex (T.setIndex e i) j = T.setIndex e j
  rank : ∀ e i, rank (T.setIndex e i) = rank e
  valid : ∀ e i, Valid (T.setIndex e i) ↔ Valid e
  told : ∀ e i, At (T.setIndex e i) i

def HeapType.Same (T : HeapType E) (entries entries' : List E) : Prop :=
  ∀ ptr : Nat, entries'[ptr]?.map (T.setIndex · 0) = entries[ptr]?.map (T.setIndex · 0)

def rankAt (rank : E → Int) (entries : List E) (ptr : Nat) : Int := entries[ptr]?.elim 0 rank

structure Heap.Placed (Valid : E → Prop) (At : E → Int → Prop) (x : Heap E) : Prop where
  nodup : x.h.Nodup
  entry : ∀ (i ptr : Nat), x.h[i]? = some ptr → ∃ e, x.entries[ptr]? = some e ∧ Valid e ∧ At e i

structure Heap.Coherent (rank : E → Int) (Valid : E → Prop) (At : E → Int → Prop)
    (x : Heap E) : Prop
    extends Heap.Placed Valid At x where
  ordered : Heap.Ordered (rankAt rank x.entries) x.h

section
variable {T : HeapType E} {rank : E → Int} {Valid : E → Prop} {At : E → Int → Prop}
  {entries entries' : List E} {x x' : Heap E}

theorem HeapType.Same.refl (T : HeapType E) (entries : List E) :
    T.Same entries entries := fun _ => rfl

theorem HeapType.Same.trans (h : T.Same entries entries') (h' : T.Same entries' entries'') :
    T.Same entries entries'' :=
  fun ptr => (h' ptr).trans (h ptr)

theorem HeapType.Same.entry {ptr : Nat} (h : T.Same entries entries')
    (he : entries[ptr]? = some e) :
    ∃ e', entries'[ptr]? = some e' ∧ T.setIndex e' 0 = T.setIndex e 0 := by
  have hptr := h ptr
  rw [he, Option.map_some] at hptr
  exact Option.map_eq_some_iff.mp hptr

theorem Heap.Placed.entry_of_mem (h : x.Placed Valid At) (hptr : ptr ∈ x.h) :
    ∃ e, x.entries[ptr]? = some e ∧ Valid e ∧ ∃ i : Nat, x.h[i]? = some ptr ∧ At e i := by
  obtain ⟨i, hi⟩ := List.mem_iff_getElem?.mp hptr
  obtain ⟨e, he, hv, hat⟩ := h.entry i ptr hi
  exact ⟨e, he, hv, i, hi, hat⟩

theorem Heap.Coherent.congr (h : Heap.Coherent rank Valid At ⟨entries, l⟩)
    (hsame : ∀ ptr ∈ l, ∀ e, entries[ptr]? = some e →
      ∃ e', entries'[ptr]? = some e' ∧ rank e' = rank e ∧
      (Valid e → Valid e') ∧ ∀ i, At e i → At e' i) :
    Heap.Coherent rank Valid At ⟨entries', l⟩ := by
  refine ⟨⟨h.nodup, fun i ptr hi => ?_⟩, ?_⟩
  · obtain ⟨e, he, hv, hat⟩ := h.entry i ptr hi
    obtain ⟨e', he', -, hv', hat'⟩ := hsame ptr (List.mem_of_getElem? hi) e he
    exact ⟨e', he', hv' hv, hat' _ hat⟩
  · have hkeys : ∀ i < l.length, Heap.keyAt (rankAt rank entries') l i =
        Heap.keyAt (rankAt rank entries) l i := by
      intro i hi
      have hget : l[i]? = some (l.getD i default) := by
        rw [List.getD_eq_getElem _ _ hi]
        exact List.getElem?_eq_getElem hi
      obtain ⟨e, he, -⟩ := h.entry i _ hget
      obtain ⟨e', he', hrank, -⟩ := hsame _ (List.mem_of_getElem? hget) e he
      simp only [Heap.keyAt, rankAt, show entries[l.getD i default]? = some e from he, he',
        Option.elim_some, hrank]
    exact HeapOrdered.congr h.ordered hkeys

-- ---------------------------------------------------------------------------
-- The operations
-- ---------------------------------------------------------------------------

def Heap.From (T : HeapType E) (Valid : E → Prop) (At : E → Int → Prop) (entries : List E)
    (x : Heap E) : Prop :=
  x.Placed Valid At ∧ T.Same entries x.entries

theorem getElem?_setIndex (T : HeapType E) (entries : List E) (ptr : Nat) (j : Int) (q : Nat) :
    (entries.modify ptr (T.setIndex · j))[q]? = entries[q]?.map fun e =>
      if q = ptr then T.setIndex e j else e := by
  rw [List.getElem?_modify]
  by_cases hq : ptr = q
  · simp [hq]
  · simp [hq, Ne.symm hq]

variable (L : T.Lawful rank Valid At)
include L

theorem HeapType.Lawful.same_setIndex (entries : List E) (ptr : Nat) (j : Int) :
    T.Same entries (entries.modify ptr (T.setIndex · j)) := by
  intro q
  rw [getElem?_setIndex, Option.map_map]
  refine Option.map_congr fun e _ => ?_
  simp only [Function.comp_apply]
  split
  · exact L.again e j 0
  · rfl

theorem HeapType.Lawful.rank_eq (h : T.setIndex e 0 = T.setIndex e' 0) : rank e = rank e' := by
  rw [← L.rank e 0, h, L.rank]

theorem HeapType.Lawful.valid_eq (h : T.setIndex e 0 = T.setIndex e' 0) : Valid e ↔ Valid e' := by
  rw [← L.valid e 0, h, L.valid]

theorem HeapType.Lawful.rankAt_eq (h : T.Same entries entries') :
    rankAt rank entries' = rankAt rank entries := by
  funext ptr
  simp only [rankAt]
  cases he : entries[ptr]? with
  | none =>
    have hptr := h ptr
    rw [he, Option.map_none, Option.map_eq_none_iff] at hptr
    rw [hptr]
  | some e =>
    obtain ⟨e', he', hcore⟩ := h.entry he
    rw [he', Option.elim_some, Option.elim_some, L.rank_eq hcore]

theorem HeapType.Lawful.setIndex (entries : List E) {l : List Nat} (i : Nat) (j : Int)
    (hi : l[i]? = some ptr) :
    ∃ x', Heap.setIndex T ⟨entries, l⟩ i j = some x' ∧ x'.h = l ∧ T.Same entries x'.entries ∧
      ∀ q : Nat, x'.entries[q]? = entries[q]?.map fun e =>
        if q = ptr then T.setIndex e j else e := by
  refine ⟨⟨entries.modify ptr (T.setIndex · j), l⟩, ?_, rfl, L.same_setIndex _ _ _,
    getElem?_setIndex T _ _ _⟩
  rw [Heap.setIndex, hi, Option.map_some]

theorem HeapType.Lawful.swap (h : x.Placed Valid At) (hi : i < x.h.length) (hj : j < x.h.length) :
    ∃ x', x.swap T i j = some x' ∧ x'.Placed Valid At ∧ T.Same x.entries x'.entries ∧
      x'.h = x.h.swap i j := by
  have hlen : (x.h.swap i j).length = x.h.length := List.length_swap
  have hnodup : (x.h.swap i j).Nodup := (List.swap_perm x.h i j).nodup_iff.mpr h.nodup
  have hunique : ∀ {k l ptr : Nat}, (x.h.swap i j)[k]? = some ptr →
      (x.h.swap i j)[l]? = some ptr → k = l := by
    intro k l ptr hk hl
    exact (List.getElem?_inj (List.getElem?_eq_some_iff.mp hk).1 hnodup).mp (hk.trans hl.symm)
  obtain ⟨a, ha⟩ : ∃ a, (x.h.swap i j)[i]? = some a := ⟨_, List.getElem?_eq_getElem (by omega)⟩
  obtain ⟨b, hb⟩ : ∃ b, (x.h.swap i j)[j]? = some b := ⟨_, List.getElem?_eq_getElem (by omega)⟩
  obtain ⟨x₁, hx₁, hh₁, hsame₁, hentries₁⟩ := L.setIndex x.entries i i ha
  obtain ⟨x₂, hx₂, hh₂, hsame₂, hentries₂⟩ := L.setIndex x₁.entries (l := x₁.h) j j (hh₁ ▸ hb)
  refine ⟨x₂, ?_, ⟨?_, fun k ptr hk => ?_⟩, hsame₁.trans hsame₂, hh₂.trans hh₁⟩
  · simp only [Heap.swap, List.getElem?_eq_getElem hi, List.getElem?_eq_getElem hj, bind,
      Option.bind_some, ← List.swap_eq_of_lt hi hj, hx₁, hx₂]
  · rw [hh₂, hh₁]
    exact hnodup
  · rw [hh₂, hh₁] at hk
    -- The pointer was somewhere in the heap.
    have hmem : ptr ∈ x.h := (List.swap_perm x.h i j).subset (List.mem_of_getElem? hk)
    obtain ⟨e, he, hv, m, hm, hat⟩ := h.entry_of_mem hmem
    obtain ⟨e', he', hcore⟩ := (hsame₁.trans hsame₂).entry he
    refine ⟨e', he', (L.valid_eq hcore).mpr hv, ?_⟩
    rw [hentries₂, hentries₁, he, Option.map_some, Option.map_some, Option.some.injEq] at he'
    subst he'
    by_cases hptrb : ptr = b
    · rw [if_pos hptrb, hunique hk (hptrb ▸ hb)]
      exact L.told _ _
    · rw [if_neg hptrb]
      by_cases hptra : ptr = a
      · rw [if_pos hptra, hunique hk (hptra ▸ ha)]
        exact L.told _ _
      · rw [if_neg hptra]
        -- It is where it was.
        have hki : k ≠ i := by
          rintro rfl
          exact hptra (Option.some.inj (hk.symm.trans ha))
        have hkj : k ≠ j := by
          rintro rfl
          exact hptrb (Option.some.inj (hk.symm.trans hb))
        obtain ⟨hlt, hget⟩ := List.getElem?_eq_some_iff.mp hk
        rw [List.getElem_swap_of_ne hki hkj] at hget
        rw [hlen] at hlt
        have hkm : k = m := (List.getElem?_inj (by omega) h.nodup).mp
          ((List.getElem?_eq_some_iff.mpr ⟨by omega, hget⟩).trans hm.symm)
        rw [hkm]
        exact hat

/-- A heap is lawful for `container/heap`. -/
theorem HeapType.Lawful.interface (entries : List E) :
    T.interface.Lawful (rankAt rank entries) Heap.h (Heap.From T Valid At entries) where
  len _ _ := rfl
  less := by
    rintro x i j ⟨h, hsame⟩ hi hj
    obtain ⟨e, he, hv, -⟩ := h.entry i _ (List.getElem?_eq_getElem hi)
    obtain ⟨e', he', hv', -⟩ := h.entry j _ (List.getElem?_eq_getElem hj)
    rw [← L.rankAt_eq hsame]
    simp only [HeapType.interface, Heap.get, List.getElem?_eq_getElem hi,
      List.getElem?_eq_getElem hj, Option.bind_some, he, he', L.less e e' hv hv', Heap.keyAt,
      rankAt, List.getD_eq_getElem _ _ hi, List.getD_eq_getElem _ _ hj, Option.elim_some]
  swap := by
    rintro x i j ⟨h, hsame⟩ hi hj
    obtain ⟨x', hx', h', hsame', hh⟩ := L.swap h hi hj
    exact ⟨x', hx', ⟨h', hsame.trans hsame'⟩, hh⟩

theorem HeapType.Lawful.coherent (h : Heap.From T Valid At entries x)
    (hord : Heap.Ordered (rankAt rank entries) x.h) :
    x.Coherent rank Valid At :=
  ⟨h.1, by rwa [L.rankAt_eq h.2]⟩

theorem HeapType.Lawful.push (h : x.Placed Valid At) (hptr : ptr ∉ x.h)
    (he : x.entries[ptr]? = some e) (hv : Valid e) :
    ∃ x', x.push T ptr = some x' ∧ x'.h = x.h ++ [ptr] ∧ Heap.From T Valid At x.entries x' := by
  have hlast : (x.h ++ [ptr])[x.h.length]? = some ptr := by simp
  obtain ⟨x', hx', hh, hsame, hentries⟩ := L.setIndex x.entries x.h.length x.h.length hlast
  refine ⟨x', ?_, hh, ⟨?_, fun i q hq => ?_⟩, hsame⟩
  · simpa only [Heap.push, List.length_append, List.length_singleton, Nat.add_sub_cancel] using hx'
  · rw [hh, List.nodup_append]
    refine ⟨h.nodup, by simp, fun a ha b hb => ?_⟩
    rw [List.mem_singleton.mp hb]
    rintro rfl
    exact hptr ha
  · rw [hh] at hq
    rw [hentries]
    by_cases hi : i < x.h.length
    · rw [List.getElem?_append_left hi] at hq
      obtain ⟨e', he', hv', hat⟩ := h.entry i q hq
      have hne : q ≠ ptr := fun heq => hptr (heq ▸ List.mem_of_getElem? hq)
      exact ⟨e', by rw [he', Option.map_some, if_neg hne], hv', hat⟩
    · have hi' : i = x.h.length := by
        have := (List.getElem?_eq_some_iff.mp hq).1
        simp only [List.length_append, List.length_singleton] at this
        omega
      subst hi'
      rw [hlast] at hq
      cases hq
      exact ⟨T.setIndex e x.h.length, by rw [he, Option.map_some, if_pos rfl],
        (L.valid _ _).mpr hv, L.told _ _⟩

theorem HeapType.Lawful.pop (h : Heap.From T Valid At entries x) (hh : x.h = rest ++ [ptr]) :
    ∃ x', x.pop T = some (x', ptr) ∧ x'.h = rest ∧ Heap.From T Valid At entries x' := by
  obtain ⟨⟨hnodup, hentry⟩, hsame⟩ := h
  have hlast : x.h[x.h.length - 1]? = some ptr := by simp [hh]
  obtain ⟨x₁, hx₁, hh₁, hsame₁, hentries⟩ := L.setIndex x.entries (x.h.length - 1) (-1) hlast
  have hrest : x.h.take (x.h.length - 1) = rest := by simp [hh]
  have hnot : ptr ∉ rest := by
    rw [hh, List.nodup_append] at hnodup
    exact fun hin => hnodup.2.2 ptr hin ptr (List.mem_singleton_self _) rfl
  refine ⟨{ x₁ with h := rest }, ?_, rfl, ⟨?_, fun i q hq => ?_⟩, hsame.trans hsame₁⟩
  · simp only [Heap.pop, hx₁, bind, Option.bind_some, hh₁, hlast, hrest]
  · exact hnodup.sublist (hh ▸ List.sublist_append_left _ _)
  · have hi : x.h[i]? = some q := by
      rw [hh, List.getElem?_append_left (List.getElem?_eq_some_iff.mp hq).1]
      exact hq
    obtain ⟨e, he, hv, hat⟩ := hentry i q hi
    have hne : q ≠ ptr := fun heq => hnot (heq ▸ List.mem_of_getElem? hq)
    exact ⟨e, by rw [hentries, he, Option.map_some, if_neg hne], hv, hat⟩

theorem HeapType.Lawful.heapPush (h : x.Coherent rank Valid At) (hptr : ptr ∉ x.h)
    (he : x.entries[ptr]? = some e) (hv : Valid e) :
    ∃ x', T.interface.heapPush x ptr = some x' ∧ x'.Coherent rank Valid At ∧
      x'.h.Perm (ptr :: x.h) ∧
      T.Same x.entries x'.entries := by
  obtain ⟨x₁, hx₁, hh₁, hfrom₁⟩ := L.push h.toPlaced hptr he hv
  obtain ⟨x', hx', hfrom, hperm, hord⟩ := (L.interface x.entries).heapPush hx₁ hfrom₁ hh₁ h.ordered
  exact ⟨x', hx', L.coherent hfrom hord, hperm.trans (List.perm_append_singleton _ _), hfrom.2⟩

theorem HeapType.Lawful.heapPop (h : x.Coherent rank Valid At) (hne : x.h ≠ []) :
    ∃ x' ptr, T.interface.heapPop x = some (x', ptr) ∧ x'.Coherent rank Valid At ∧
      x.h.Perm (ptr :: x'.h) ∧
      T.Same x.entries x'.entries ∧ ∀ q ∈ x.h, rankAt rank x.entries ptr ≤
        rankAt rank x.entries q := by
  obtain ⟨x₁, rest, hpop, hfrom₁, hview, hperm, hord⟩ :=
    (L.interface x.entries).heapPop ⟨h.toPlaced, .refl T _⟩ h.ordered hne
  obtain ⟨x', hx', rfl, hfrom⟩ := L.pop hfrom₁ hview
  refine ⟨x', _, hpop.trans hx', L.coherent hfrom hord, ?_, hfrom.2, fun q hq => ?_⟩
  · exact hperm.symm.trans (hview ▸ List.perm_append_singleton _ _)
  · obtain ⟨i, hi, rfl⟩ := List.getElem_of_mem hq
    have hroot := HeapOrdered.root_le h.ordered hi
    rwa [Heap.keyAt, Heap.keyAt, List.getD_eq_getElem _ _ hi] at hroot

theorem HeapType.Lawful.heapRemove {i : Nat} (h : x.Coherent rank Valid At)
    (hi : x.h[i]? = some ptr) :
    ∃ x', T.interface.heapRemove x i = some (x', ptr) ∧ x'.Coherent rank Valid At ∧
      x.h.Perm (ptr :: x'.h) ∧
      T.Same x.entries x'.entries := by
  obtain ⟨hlt, hget⟩ := List.getElem?_eq_some_iff.mp hi
  obtain ⟨x₁, rest, hremove, hfrom₁, hview, hperm, hord⟩ :=
    (L.interface x.entries).heapRemove ⟨h.toPlaced, .refl T _⟩ h.ordered hlt
  rw [List.getD_eq_getElem _ _ hlt, hget] at hview
  obtain ⟨x', hx', rfl, hfrom⟩ := L.pop hfrom₁ hview
  exact ⟨x', hremove.trans hx', L.coherent hfrom hord,
    hperm.symm.trans (hview ▸ List.perm_append_singleton _ _), hfrom.2⟩

-- ---------------------------------------------------------------------------
-- Snapshots
-- ---------------------------------------------------------------------------

/-- A snapshot of a heap shares the entries, and tells them nothing. -/
def HeapType.snapshot (T : HeapType E) : HeapType E := { T with setIndex := fun e _ => e }

inductive Heap.Drains (T : HeapType E) (entries : List E) : List Nat → List E → Prop
  | nil : Heap.Drains T entries [] []
  | cons : T.interface.heapPop ⟨entries, l⟩ = some (⟨entries, l'⟩, ptr) → entries[ptr]? = some e →
      Heap.Drains T entries l' es → Heap.Drains T entries l (e :: es)

omit L in
theorem length_pos_of_heapPop (h : T.interface.heapPop x = some r) : x.h.length > 0 := by
  cases hlen : x.h.length with
  | zero => simp [Go.Heap.Interface.heapPop, HeapType.interface, hlen] at h
  | succ n => exact Nat.succ_pos n

theorem HeapType.Lawful.snapshot : T.snapshot.Lawful rank Valid fun _ _ => True where
  less := L.less
  again _ _ _ := rfl
  rank _ _ := rfl
  valid _ _ := Iff.rfl
  told _ _ := trivial

theorem HeapType.Lawful.drains (h : Heap.Coherent rank Valid At ⟨entries, l⟩) :
    ∃ es, Heap.Drains T.snapshot entries l es ∧ (l.filterMap (entries[·]?)).Perm es ∧
      es.Pairwise (rank · ≤ rank ·) := by
  have hsnap : Heap.Coherent rank Valid (fun _ _ => True) ⟨entries, l⟩ :=
    ⟨⟨h.nodup, fun i ptr hi => (h.entry i ptr hi).imp fun e he => ⟨he.1, he.2.1, trivial⟩⟩,
      h.ordered⟩
  clear h
  -- By induction on the length of the heap.
  induction hlen : l.length generalizing l with
  | zero =>
    rw [List.length_eq_zero_iff] at hlen
    subst hlen
    exact ⟨[], .nil, .refl _, .nil⟩
  | succ n ih =>
    have hne : l ≠ [] := List.ne_nil_of_length_eq_add_one hlen
    obtain ⟨⟨entries', l'⟩, ptr, hpop, hcoherent, hperm, hsame, hleast⟩ :=
      L.snapshot.heapPop hsnap hne
    -- Without indices the entries are the same.
    have hentries : entries' = entries := List.ext_getElem? fun i => by
      simpa only [HeapType.snapshot, Option.map_id_fun', id_eq] using hsame i
    subst hentries
    have hlen' : l'.length = n := by
      have := hperm.length_eq
      simp only [List.length_cons] at this
      omega
    obtain ⟨es, hdrains, hperm', hsorted⟩ := ih hcoherent hlen'
    obtain ⟨e, he, -⟩ := hsnap.entry_of_mem (hperm.mem_iff.mpr List.mem_cons_self)
    refine ⟨e :: es, .cons hpop he hdrains, ?_, List.pairwise_cons.mpr ⟨fun e' he' => ?_, hsorted⟩⟩
    · refine (hperm.filterMap _).trans ?_
      rw [List.filterMap_cons_some he]
      exact hperm'.cons e
    · obtain ⟨q, hq, hqe⟩ := List.mem_filterMap.mp (hperm'.mem_iff.mpr he')
      have hrank := hleast q (hperm.mem_iff.mpr (List.mem_cons_of_mem _ hq))
      simpa only [rankAt, he, hqe, Option.elim_some] using hrank

end

end BigipCtlr.Stats
