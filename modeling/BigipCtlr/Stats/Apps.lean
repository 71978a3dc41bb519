import BigipCtlr.Go.Map
import BigipCtlr.Route
import BigipCtlr.Stats.Heap
import Mathlib.Data.Finset.Card

/-!
# Applications in a map and two heaps

`ActiveApps` and `TopApps` have one shape: a map from application ids to
entries, and two heaps of these entries. An entry is told its index in either
heap. Each operation on one heap leaves the other coherent, and leaves the data
of the entries alone.
-/

namespace BigipCtlr.Stats

open Go Lib

def unix (z : Int) : Int := z / 1000000000

/-- The two heaps: `i` and `j` of `ActiveApps`, `t` and `n` of `TopApps`. -/
inductive Side
  | first
  | second
  deriving DecidableEq

structure Apps (E : Type) where
  entries : List E
  m : GoMap Str Nat
  heap : Side → List Nat

namespace Apps

def empty : Apps E := ⟨[], ∅, fun _ => []⟩

def side (x : Apps E) (s : Side) : Heap E := ⟨x.entries, x.heap s⟩

def setSide (x : Apps E) (s : Side) (y : Heap E) : Apps E :=
  { x with entries := y.entries, heap := fun s' => if s' = s then y.h else x.heap s' }

def push (K : Side → HeapType E) (s : Side) (x : Apps E) (ptr : Nat) : Option (Apps E) :=
  ((K s).interface.heapPush (x.side s) ptr).map (x.setSide s)

def pop (K : Side → HeapType E) (s : Side) (x : Apps E) : Option (Apps E × Nat) :=
  ((K s).interface.heapPop (x.side s)).map fun (y, ptr) => (x.setSide s y, ptr)

def remove (K : Side → HeapType E) (s : Side) (x : Apps E) (index : Int) : Option (Apps E × Nat) :=
  ((K s).interface.heapRemove (x.side s) index).map fun (y, ptr) => (x.setSide s y, ptr)

def pushBoth (K : Side → HeapType E) (x : Apps E) (ptr : Nat) : Option (Apps E) := do
  let x ← x.push K .first ptr
  x.push K .second ptr

def modify (x : Apps E) (ptr : Nat) (f : E → E) : Apps E :=
  { x with entries := x.entries.modify ptr f }

def insert (x : Apps E) (applicationId : Str) (e : E) : Apps E :=
  { x with entries := x.entries ++ [e], m := x.m.insert applicationId x.entries.length }

end Apps

-- ---------------------------------------------------------------------------
-- Entries
-- ---------------------------------------------------------------------------

/-- What entries are to the heaps: an index in each, and data by which they are
ranked. -/
structure Reading (E D : Type) where
  data : E → D
  applicationId : D → Str
  rank : Side → D → Int
  Valid : D → Prop
  index : Side → E → Int

structure Reading.Lawful (R : Reading E D) (K : Side → HeapType E) : Prop where
  less : ∀ s a b, R.Valid (R.data a) → R.Valid (R.data b) →
    (K s).less a b = some (decide (R.rank s (R.data a) < R.rank s (R.data b)))
  again : ∀ s e i j, (K s).setIndex ((K s).setIndex e i) j = (K s).setIndex e j
  data : ∀ s e i, R.data ((K s).setIndex e i) = R.data e
  own : ∀ s e i, R.index s ((K s).setIndex e i) = i
  other : ∀ s s' e i, s' ≠ s → R.index s' ((K s).setIndex e i) = R.index s' e

def Reading.at (R : Reading E D) (entries : List E) (ptr : Nat) : Option D :=
  entries[ptr]?.map R.data

def Reading.Heaped (R : Reading E D) (s : Side) (x : Heap E) : Prop :=
  x.Coherent (fun e => R.rank s (R.data e)) (fun e => R.Valid (R.data e)) fun e i => R.index s e = i

structure Reading.Holds (R : Reading E D) (x : Apps E) (P : Side → Nat → Prop) : Prop where
  heaped : ∀ s, R.Heaped s (x.side s)
  mem : ∀ s ptr, ptr ∈ x.heap s ↔ P s ptr

structure Reading.Kept (R : Reading E D) (x x' : Apps E) : Prop where
  m : x'.m = x.m
  data : ∀ ptr, R.at x'.entries ptr = R.at x.entries ptr

def Reading.Keyed (R : Reading E D) (x : Apps E) : Prop :=
  ∀ id ptr, x.m.lookup id = some ptr → ∃ d, R.at x.entries ptr = some d ∧ R.applicationId d = id

/-- The map and both heaps hold the same entries. -/
structure Reading.Coherent (R : Reading E D) (x : Apps E) : Prop where
  holds : R.Holds x fun _ ptr => ∃ id, x.m.lookup id = some ptr
  keyed : R.Keyed x

section
variable {R : Reading E D} {K : Side → HeapType E} {x x' x'' : Apps E} {P P' : Side → Nat → Prop}

theorem Reading.Kept.refl (R : Reading E D) (x : Apps E) : R.Kept x x := ⟨rfl, fun _ => rfl⟩

theorem Reading.Kept.trans (h : R.Kept x x') (h' : R.Kept x' x'') : R.Kept x x'' :=
  ⟨h'.m.trans h.m, fun ptr => (h'.data ptr).trans (h.data ptr)⟩

theorem Reading.Holds.congr (h : R.Holds x P) (hP : ∀ s ptr, P s ptr ↔ P' s ptr) : R.Holds x P' :=
  ⟨h.heaped, fun s ptr => (h.mem s ptr).trans (hP s ptr)⟩

theorem Reading.Holds.entry (h : R.Holds x P) (s : Side) (ptr : Nat) (hptr : P s ptr) :
    ∃ e, x.entries[ptr]? = some e ∧ R.Valid (R.data e) ∧ ∃ i : Nat, (x.heap s)[i]? = some ptr ∧
      R.index s e = i :=
  (h.heaped s).entry_of_mem ((h.mem s ptr).mpr hptr)

theorem Reading.at_eq_some (he : entries[ptr]? = some e) : R.at entries ptr = some (R.data e) := by
  rw [Reading.at, he, Option.map_some]

theorem Reading.Holds.change (h : R.Holds x P) (x' : Apps E) (hheap : x'.heap = x.heap)
    (hentries : ∀ s ptr, P s ptr → x'.entries[ptr]? = x.entries[ptr]?) : R.Holds x' P := by
  refine ⟨fun s => ?_, fun s ptr => by rw [hheap]; exact h.mem s ptr⟩
  rw [Apps.side, hheap]
  refine (h.heaped s).congr fun ptr hptr e he => ⟨e, ?_, rfl, fun hv => hv, fun _ hi => hi⟩
  rw [hentries s ptr ((h.mem s ptr).mp hptr)]
  exact he

variable (L : R.Lawful K)
include L

theorem Reading.Lawful.heapType (s : Side) :
    (K s).Lawful (fun e => R.rank s (R.data e)) (fun e => R.Valid (R.data e)) fun e i =>
      R.index s e = i where
  less a b ha hb := L.less s a b ha hb
  again := L.again s
  rank e i := by rw [L.data]
  valid e i := by rw [L.data]
  told := L.own s

theorem Reading.Lawful.same {ptr : Nat} (h : (K s).Same entries entries')
    (he : entries[ptr]? = some e) :
    ∃ e', entries'[ptr]? = some e' ∧ R.data e' = R.data e ∧ ∀ s', s' ≠ s →
      R.index s' e' = R.index s' e := by
  obtain ⟨e', he', hcore⟩ := h.entry he
  refine ⟨e', he', ?_, fun s' hs' => ?_⟩
  · rw [← L.data s e' 0, hcore, L.data]
  · rw [← L.other s s' e' 0 hs', hcore, L.other s s' e 0 hs']

theorem Reading.Lawful.at_eq (h : (K s).Same entries entries') (ptr : Nat) :
    R.at entries' ptr = R.at entries ptr := by
  cases he : entries[ptr]? with
  | none =>
    have hptr := h ptr
    rw [he, Option.map_none, Option.map_eq_none_iff] at hptr
    rw [Reading.at, Reading.at, he, hptr]
  | some e =>
    obtain ⟨e', he', hdata, -⟩ := L.same h he
    rw [Reading.at_eq_some he', Reading.at_eq_some he, hdata]

theorem Reading.Lawful.setSide (P' : Side → Nat → Prop) (h : R.Holds x P) (hy : R.Heaped s y)
    (hsame : (K s).Same x.entries y.entries) (hmem : ∀ ptr, ptr ∈ y.h ↔ P' s ptr)
    (hother : ∀ s' ptr, s' ≠ s → (P s' ptr ↔ P' s' ptr)) :
    R.Holds (x.setSide s y) P' ∧ R.Kept x (x.setSide s y) := by
  refine ⟨⟨fun s' => ?_, fun s' ptr => ?_⟩, rfl, L.at_eq hsame⟩
  · by_cases hs : s' = s
    · subst hs
      simp only [Apps.side, Apps.setSide, if_true]
      exact hy
    · simp only [Apps.side, Apps.setSide, if_neg hs]
      refine (h.heaped s').congr fun ptr _ e he => ?_
      obtain ⟨e', he', hdata, hindex⟩ := L.same hsame he
      exact ⟨e', he', by rw [hdata], by rw [hdata]; exact fun hv => hv,
        fun i hi => (hindex s' hs).trans hi⟩
  · by_cases hs : s' = s
    · subst hs
      simp only [Apps.setSide, if_true]
      exact hmem ptr
    · simp only [Apps.setSide, if_neg hs]
      exact (h.mem s' ptr).trans (hother s' ptr hs)

theorem Reading.Lawful.push (s : Side) (ptr : Nat) (h : R.Holds x P) (hptr : ¬ P s ptr)
    (hd : R.at x.entries ptr = some d) (hv : R.Valid d) :
    ∃ x', x.push K s ptr = some x' ∧ R.Holds x' (fun s' q => P s' q ∨ s' = s ∧ q = ptr) ∧
      R.Kept x x' := by
  obtain ⟨e, he, rfl⟩ := Option.map_eq_some_iff.mp hd
  obtain ⟨y, hy, hcoherent, hperm, hsame⟩ :=
    (L.heapType s).heapPush (h.heaped s) (mt (h.mem s ptr).mp hptr) he hv
  have hmem : ∀ q, q ∈ y.h ↔ P s q ∨ s = s ∧ q = ptr := fun q => by
    rw [hperm.mem_iff, List.mem_cons, show (x.side s).h = x.heap s from rfl, h.mem]
    simp [or_comm]
  obtain ⟨hholds, hkept⟩ := L.setSide (fun s' q => P s' q ∨ s' = s ∧ q = ptr) h hcoherent hsame hmem
    fun s' q hs => by simp [hs]
  exact ⟨_, by rw [Apps.push, hy, Option.map_some], hholds, hkept⟩

def Without (P : Side → Nat → Prop) (s : Side) (ptr : Nat) : Side → Nat → Prop :=
  fun s' q => P s' q ∧ (s' = s → q ≠ ptr)

omit L in
theorem mem_without (h : R.Holds x P) (hperm : (x.heap s).Perm (ptr :: l)) (q : Nat) :
    q ∈ l ↔ Without P s ptr s q := by
  have hnodup : (ptr :: l).Nodup := hperm.nodup_iff.mp (h.heaped s).nodup
  have hmem : q ∈ ptr :: l ↔ P s q := hperm.mem_iff.symm.trans (h.mem s q)
  rw [Without, ← hmem, List.mem_cons]
  constructor
  · intro hq
    refine ⟨.inr hq, fun _ hptr => ?_⟩
    exact (List.nodup_cons.mp hnodup).1 (hptr ▸ hq)
  · rintro ⟨hq, hne⟩
    exact hq.resolve_left (hne rfl)

theorem Reading.Lawful.pop (h : R.Holds x P) (hne : x.heap s ≠ []) :
    ∃ x' ptr, x.pop K s = some (x', ptr) ∧ P s ptr ∧ R.Holds x' (Without P s ptr) ∧ R.Kept x x' ∧
      ∀ q d d', P s q → R.at x.entries ptr = some d → R.at x.entries q = some d' →
        R.rank s d ≤ R.rank s d' := by
  obtain ⟨y, ptr, hy, hcoherent, hperm, hsame, hleast⟩ := (L.heapType s).heapPop (h.heaped s) hne
  obtain ⟨hholds, hkept⟩ := L.setSide (Without P s ptr) h hcoherent hsame (mem_without h hperm)
    fun s' q hs => by simp [Without, hs]
  refine ⟨_, ptr, by rw [Apps.pop, hy, Option.map_some],
    (h.mem s ptr).mp (hperm.mem_iff.mpr List.mem_cons_self), hholds, hkept,
    fun q d d' hq hd hd' => ?_⟩
  obtain ⟨e, he, rfl⟩ := Option.map_eq_some_iff.mp hd
  obtain ⟨e', he', rfl⟩ := Option.map_eq_some_iff.mp hd'
  have hrank := hleast q ((h.mem s q).mpr hq)
  simpa only [rankAt, Apps.side, he, he', Option.elim_some] using hrank

theorem Reading.Lawful.remove (s : Side) (ptr : Nat) (h : R.Holds x P) (hptr : P s ptr)
    (he : x.entries[ptr]? = some e) :
    ∃ x', x.remove K s (R.index s e) = some (x', ptr) ∧ R.Holds x' (Without P s ptr) ∧
      R.Kept x x' := by
  obtain ⟨e', he', -, i, hi, hindex⟩ := h.entry s ptr hptr
  rw [he] at he'
  cases he'
  obtain ⟨y, hy, hcoherent, hperm, hsame⟩ := (L.heapType s).heapRemove (h.heaped s) hi
  obtain ⟨hholds, hkept⟩ := L.setSide (Without P s ptr) h hcoherent hsame (mem_without h hperm)
    fun s' q hs => by simp [Without, hs]
  exact ⟨_, by rw [Apps.remove, hindex, hy, Option.map_some], hholds, hkept⟩

end

-- ---------------------------------------------------------------------------
-- Entries out of the heaps
-- ---------------------------------------------------------------------------

def Reading.dataOf (R : Reading E D) (x : Apps E) (id : Str) : Option D :=
  (x.m.lookup id).bind (R.at x.entries)

/-- The map as it is, and both heaps without the entry of one application. -/
structure Reading.Detached (R : Reading E D) (x : Apps E) (id : Str) (ptr : Nat) : Prop where
  lookup : x.m.lookup id = some ptr
  holds : R.Holds x fun _ q => (∃ i, x.m.lookup i = some q) ∧ q ≠ ptr
  keyed : R.Keyed x

section
variable {R : Reading E D} {K : Side → HeapType E} {x x' : Apps E} {id : Str} {ptr : Nat}

theorem Reading.Kept.dataOf (h : R.Kept x x') : R.dataOf x' = R.dataOf x := by
  funext id
  rw [Reading.dataOf, Reading.dataOf, h.m, show R.at x'.entries = R.at x.entries from funext h.data]

theorem Reading.empty_coherent (R : Reading E D) : R.Coherent Apps.empty := by
  refine ⟨⟨fun s => ⟨⟨List.nodup_nil, by simp [Apps.side, Apps.empty]⟩, heapOrdered_zero⟩, ?_⟩, ?_⟩
  · simp [Apps.empty]
  · simp [Reading.Keyed, Apps.empty]

theorem Reading.Keyed.injective (h : R.Keyed x) (hi : x.m.lookup i = some ptr)
    (hj : x.m.lookup j = some ptr) : i = j := by
  obtain ⟨d, hd, rfl⟩ := h i ptr hi
  obtain ⟨d', hd', rfl⟩ := h j ptr hj
  rw [hd] at hd'
  cases hd'
  rfl

theorem dataOf_eq_some : R.dataOf x id = some d ↔
    ∃ ptr, x.m.lookup id = some ptr ∧ R.at x.entries ptr = some d := Option.bind_eq_some_iff

theorem Reading.Keyed.applicationId (h : R.Keyed x) (hd : R.dataOf x id = some d) :
    R.applicationId d = id := by
  obtain ⟨ptr, hptr, hat⟩ := dataOf_eq_some.mp hd
  obtain ⟨d', hd', hid⟩ := h id ptr hptr
  rw [hat] at hd'
  cases hd'
  exact hid

theorem Reading.Kept.keyed (hkept : R.Kept x x') (h : R.Keyed x) : R.Keyed x' := by
  intro i q hi
  rw [hkept.m] at hi
  rw [hkept.data]
  exact h i q hi

theorem Reading.Coherent.known (h : R.Coherent x) (hid : x.m.lookup id = some ptr)
    (fresh : D) (i : Str) :
    R.dataOf x i = if i = id then some ((R.dataOf x i).getD fresh) else R.dataOf x i := by
  split
  · next hi =>
    obtain ⟨d, hd, -⟩ := h.keyed id ptr hid
    rw [hi, dataOf_eq_some.mpr ⟨ptr, hid, hd⟩, Option.getD_some]
  · rfl

theorem Reading.Coherent.valid (h : R.Coherent x) (hd : R.dataOf x id = some d) : R.Valid d := by
  obtain ⟨ptr, hptr, hat⟩ := dataOf_eq_some.mp hd
  obtain ⟨e, he, hv, -⟩ := h.holds.entry .first ptr ⟨id, hptr⟩
  rw [Reading.at_eq_some he] at hat
  cases hat
  exact hv

theorem Apps.lookup_insert (x : Apps E) (id : Str) (e : E) (i : Str) :
    (x.insert id e).m.lookup i = if i = id then some x.entries.length else x.m.lookup i :=
  GoMap.lookup_insert_ite x.m id i _

theorem Reading.Keyed.lt (h : R.Keyed x) (hi : x.m.lookup i = some ptr) :
    ptr < x.entries.length := by
  obtain ⟨d, hd, -⟩ := h i ptr hi
  obtain ⟨e, he, -⟩ := Option.map_eq_some_iff.mp hd
  exact (List.getElem?_eq_some_iff.mp he).1

theorem Reading.Keyed.entries_insert (h : R.Keyed x) (hi : x.m.lookup i = some ptr) :
    (x.insert id e).entries[ptr]? = x.entries[ptr]? :=
  List.getElem?_append_left (h.lt hi)

theorem Reading.at_insert (R : Reading E D) (x : Apps E) (id : Str) (e : E) :
    R.at (x.insert id e).entries x.entries.length = some (R.data e) := by
  simp [Reading.at, Apps.insert]

theorem Reading.Keyed.insert (h : R.Keyed x) (he : R.applicationId (R.data e) = id) :
    R.Keyed (x.insert id e) := by
  intro i q hi
  rw [Apps.lookup_insert] at hi
  split at hi
  · next hid =>
    cases hi
    exact ⟨_, R.at_insert x id e, he.trans hid.symm⟩
  · rw [Reading.at, h.entries_insert hi]
    exact h i q hi

theorem Reading.Keyed.dataOf_insert (h : R.Keyed x) (hnew : x.m.lookup id = none) (i : Str) :
    R.dataOf (x.insert id e) i = if i = id then some ((R.dataOf x i).getD (R.data e))
      else R.dataOf x i := by
  rw [Reading.dataOf, Apps.lookup_insert]
  split
  · next hid =>
    rw [Reading.dataOf, hid, hnew]
    exact R.at_insert x id e
  · rw [Reading.dataOf]
    cases hi : x.m.lookup i with
    | none => rfl
    | some q => rw [Option.bind_some, Option.bind_some, Reading.at, Reading.at, h.entries_insert hi]

theorem Reading.Coherent.insert (h : R.Coherent x) (hnew : x.m.lookup id = none)
    (he : R.applicationId (R.data e) = id) :
    R.Detached (x.insert id e) id x.entries.length := by
  refine ⟨by rw [Apps.lookup_insert, if_pos rfl], ?_, h.keyed.insert he⟩
  refine (h.holds.change (x.insert id e) rfl fun s q hq => ?_).congr fun s q => ⟨?_, ?_⟩
  · obtain ⟨i, hi⟩ := hq
    exact h.keyed.entries_insert hi
  · rintro ⟨i, hi⟩
    have hne : i ≠ id := by
      rintro rfl
      rw [hnew] at hi
      cases hi
    exact ⟨⟨i, by rw [Apps.lookup_insert, if_neg hne, hi]⟩, Nat.ne_of_lt (h.keyed.lt hi)⟩
  · rintro ⟨⟨i, hi⟩, hne⟩
    rw [Apps.lookup_insert] at hi
    split at hi
    · cases hi
      exact absurd rfl hne
    · exact ⟨i, hi⟩

theorem Reading.Detached.entry (h : R.Detached x id ptr) :
    ∃ e, x.entries[ptr]? = some e ∧ R.dataOf x id = some (R.data e) := by
  obtain ⟨d, hd, -⟩ := h.keyed id ptr h.lookup
  obtain ⟨e, he, rfl⟩ := Option.map_eq_some_iff.mp hd
  exact ⟨e, he, dataOf_eq_some.mpr ⟨ptr, h.lookup, hd⟩⟩

theorem Reading.Detached.modify (h : R.Detached x id ptr) {f : E → E} {g : D → D}
    (hf : ∀ e, R.data (f e) = g (R.data e)) (hg : ∀ d, R.applicationId (g d) = R.applicationId d) :
    R.Detached (x.modify ptr f) id ptr ∧
      ∀ i, R.dataOf (x.modify ptr f) i = if i = id then (R.dataOf x i).map g else R.dataOf x i := by
  have hget : ∀ q, (x.modify ptr f).entries[q]? = if ptr = q then x.entries[q]?.map f
      else x.entries[q]? := fun q => by
    rw [Apps.modify, List.getElem?_modify]
    by_cases hq : ptr = q <;> simp [hq]
  have hat : ∀ q, R.at (x.modify ptr f).entries q = if ptr = q then (R.at x.entries q).map g
      else R.at x.entries q := fun q => by
    rw [Reading.at, hget, Reading.at]
    split
    · rw [Option.map_map, Option.map_map]
      exact Option.map_congr fun e _ => hf e
    · rfl
  refine ⟨⟨h.lookup, ?_, fun i q hi => ?_⟩, fun i => ?_⟩
  · refine h.holds.change _ rfl fun s q hq => ?_
    rw [hget, if_neg hq.2.symm]
  · obtain ⟨d, hd, hid⟩ := h.keyed i q hi
    rw [hat]
    split
    · exact ⟨g d, by rw [hd, Option.map_some], (hg d).trans hid⟩
    · exact ⟨d, hd, hid⟩
  · rw [Reading.dataOf, Reading.dataOf, show (x.modify ptr f).m = x.m from rfl]
    cases hi : x.m.lookup i with
    | none => simp
    | some q =>
      rw [Option.bind_some, Option.bind_some, hat]
      by_cases hid : i = id
      · subst hid
        rw [h.lookup] at hi
        cases hi
        rw [if_pos rfl, if_pos rfl]
      · rw [if_neg hid, if_neg]
        rintro rfl
        exact hid (h.keyed.injective hi h.lookup)

theorem Reading.Detached.delete (h : R.Detached x id ptr) :
    R.Coherent { x with m := x.m.erase id } ∧
      ∀ i, R.dataOf { x with m := x.m.erase id } i = if i = id then none else R.dataOf x i := by
  have hlook : ∀ i, (x.m.erase id).lookup i = if i = id then none else x.m.lookup i := fun i =>
    GoMap.lookup_erase_ite x.m id i
  refine ⟨⟨?_, fun i q hi => ?_⟩, fun i => ?_⟩
  · refine (h.holds.change { x with m := x.m.erase id } rfl fun _ _ _ => rfl).congr
      fun s q => ⟨?_, ?_⟩
    · rintro ⟨⟨i, hi⟩, hne⟩
      refine ⟨i, ?_⟩
      rw [hlook, if_neg, hi]
      rintro rfl
      exact hne (Option.some.inj (hi.symm.trans h.lookup))
    · rintro ⟨i, hi⟩
      simp only [hlook] at hi
      split at hi
      · cases hi
      · next hne =>
        refine ⟨⟨i, hi⟩, ?_⟩
        rintro rfl
        exact hne (h.keyed.injective hi h.lookup)
  · simp only [hlook] at hi
    split at hi
    · cases hi
    · exact h.keyed i q hi
  · simp only [Reading.dataOf, hlook]
    split <;> rfl

variable (L : R.Lawful K)
include L

theorem Reading.Lawful.attach (h : R.Detached x id ptr)
    (hv : ∀ d, R.dataOf x id = some d → R.Valid d) :
    ∃ x', x.pushBoth K ptr = some x' ∧ R.Coherent x' ∧ R.Kept x x' := by
  obtain ⟨d, hd, -⟩ := h.keyed id ptr h.lookup
  have hvalid := hv d (by rw [Reading.dataOf, h.lookup, Option.bind_some, hd])
  obtain ⟨x₁, hx₁, h₁, hkept₁⟩ := L.push .first ptr h.holds (fun hq => hq.2 rfl) hd hvalid
  obtain ⟨x₂, hx₂, h₂, hkept₂⟩ :=
    L.push .second ptr h₁ (by simp) ((hkept₁.data ptr).trans hd) hvalid
  have hkept := hkept₁.trans hkept₂
  refine ⟨x₂, by simp only [Apps.pushBoth, hx₁, bind, Option.bind_some, hx₂],
    ⟨h₂.congr fun s q => ?_, hkept.keyed h.keyed⟩, hkept⟩
  rw [hkept.m]
  have hptr : ∃ i, x.m.lookup i = some ptr := ⟨id, h.lookup⟩
  by_cases hq : q = ptr
  · subst hq
    cases s <;> simp only [ne_eq, not_true_eq_false, and_false, and_true, reduceCtorEq,
      or_false, false_or, hptr]
  · simp [hq]

/-- The entry of an application comes out of both heaps, by the indices it was
told. -/
theorem Reading.Lawful.detach (h : R.Coherent x) (hptr : x.m.lookup id = some ptr) :
    ∃ e x₁ e₁ x₂, x.entries[ptr]? = some e ∧ x.remove K .first (R.index .first e) = some (x₁, ptr) ∧
      x₁.entries[ptr]? = some e₁ ∧ x₁.remove K .second (R.index .second e₁) = some (x₂, ptr) ∧
      R.Detached x₂ id ptr ∧ R.Kept x x₂ := by
  have hin : ∃ i, x.m.lookup i = some ptr := ⟨id, hptr⟩
  obtain ⟨e, he, -⟩ := h.holds.entry .first ptr hin
  obtain ⟨x₁, hx₁, h₁, hkept₁⟩ := L.remove .first ptr h.holds hin he
  obtain ⟨e₁, he₁, -⟩ := h₁.entry .second ptr ⟨hin, by simp⟩
  obtain ⟨x₂, hx₂, h₂, hkept₂⟩ := L.remove .second ptr h₁ ⟨hin, by simp⟩ he₁
  have hkept := hkept₁.trans hkept₂
  refine ⟨e, x₁, e₁, x₂, he, hx₁, he₁, hx₂,
    ⟨hkept.m ▸ hptr, h₂.congr fun s q => ?_, hkept.keyed h.keyed⟩, hkept⟩
  rw [hkept.m]
  cases s <;> simp [Without]

/-- How `Mark` comes to the entry of an application: a known one is taken out of
both heaps, or a new one is made. -/
theorem Reading.Lawful.entry (h : R.Coherent x) (id : Str) {e : E}
    (hown : R.applicationId (R.data e) = id) :
    (∃ ptr e₀ x₁ e₁ x₂, x.m.lookup id = some ptr ∧ x.entries[ptr]? = some e₀ ∧
      x.remove K .first (R.index .first e₀) = some (x₁, ptr) ∧ x₁.entries[ptr]? = some e₁ ∧
      x₁.remove K .second (R.index .second e₁) = some (x₂, ptr) ∧ R.Detached x₂ id ptr ∧
      ∀ i, R.dataOf x₂ i = if i = id then some ((R.dataOf x i).getD (R.data e)) else R.dataOf x i) ∨
    x.m.lookup id = none ∧ R.Detached (x.insert id e) id x.entries.length ∧
      ∀ i, R.dataOf (x.insert id e) i = if i = id then some ((R.dataOf x i).getD (R.data e))
        else R.dataOf x i := by
  cases hid : x.m.lookup id with
  | some ptr =>
    obtain ⟨e₀, x₁, e₁, x₂, he₀, hx₁, he₁, hx₂, hdet, hkept⟩ := L.detach h hid
    refine .inl ⟨ptr, e₀, x₁, e₁, x₂, rfl, he₀, hx₁, he₁, hx₂, hdet, fun i => ?_⟩
    rw [hkept.dataOf]
    exact h.known hid _ i
  | none => exact .inr ⟨rfl, h.insert hid hown, h.keyed.dataOf_insert hid⟩

theorem Reading.Lawful.reattach (h : R.Detached x id ptr) {f : E → E} {g : D → D}
    (hf : ∀ e, R.data (f e) = g (R.data e)) (hg : ∀ d, R.applicationId (g d) = R.applicationId d)
    (hd : R.dataOf x id = some d) (hv : R.Valid (g d)) :
    ∃ x', (x.modify ptr f).pushBoth K ptr = some x' ∧ R.Coherent x' ∧
      ∀ i, R.dataOf x' i = if i = id then some (g d) else R.dataOf x i := by
  obtain ⟨hdet, hdata⟩ := h.modify hf hg
  have hnew : R.dataOf (x.modify ptr f) id = some (g d) := by
    rw [hdata, if_pos rfl, hd, Option.map_some]
  obtain ⟨x', hx', hcoherent, hkept⟩ := L.attach hdet fun d' hd' => by
    rw [hnew] at hd'
    cases hd'
    exact hv
  refine ⟨x', hx', hcoherent, fun i => ?_⟩
  rw [hkept.dataOf]
  split
  · next hi =>
    rw [hi, hnew]
  · next hi =>
    rw [hdata, if_neg hi]

/-- The application whose entry `heap.Pop` takes off the first heap. The entry
can go back as it is, or come out of the second heap too. -/
theorem Reading.Lawful.popFirst (h : R.Coherent x) (hne : x.heap .first ≠ []) :
    ∃ x₁ ptr id e, x.pop K .first = some (x₁, ptr) ∧ x₁.entries[ptr]? = some e ∧
      R.dataOf x id = some (R.data e) ∧
      R.applicationId (R.data e) = id ∧
      (∀ i d, R.dataOf x i = some d → R.rank .first (R.data e) ≤ R.rank .first d) ∧
      (∃ x', x₁.push K .first ptr = some x' ∧ R.Coherent x' ∧ R.Kept x x') ∧
      ∃ x₂, x₁.remove K .second (R.index .second e) = some (x₂, ptr) ∧ R.Detached x₂ id ptr ∧
        R.Kept x x₂ := by
  obtain ⟨x₁, ptr, hx₁, ⟨id, hid⟩, h₁, hkept₁, hleast⟩ := L.pop h.holds hne
  obtain ⟨e, he, hv, -⟩ := h₁.entry .second ptr ⟨⟨id, hid⟩, by simp⟩
  have hat₁ : R.at x₁.entries ptr = some (R.data e) := Reading.at_eq_some he
  have hat : R.at x.entries ptr = some (R.data e) := (hkept₁.data ptr).symm.trans hat₁
  have hdata : R.dataOf x id = some (R.data e) := dataOf_eq_some.mpr ⟨ptr, hid, hat⟩
  obtain ⟨x', hx', h', hkept'⟩ := L.push .first ptr h₁ (by simp [Without]) hat₁ hv
  obtain ⟨x₂, hx₂, h₂, hkept₂⟩ := L.remove .second ptr h₁ ⟨⟨id, hid⟩, by simp⟩ he
  have hback := hkept₁.trans hkept'
  have hkept := hkept₁.trans hkept₂
  refine ⟨x₁, ptr, id, e, hx₁, he, hdata, h.keyed.applicationId hdata, fun i d hi => ?_,
    ⟨x', hx', ⟨h'.congr fun s q => ?_, hback.keyed h.keyed⟩, hback⟩, x₂, hx₂,
    ⟨hkept.m ▸ hid, h₂.congr fun s q => ?_, hkept.keyed h.keyed⟩, hkept⟩
  · obtain ⟨q, hq, hd⟩ := dataOf_eq_some.mp hi
    exact hleast q _ d ⟨i, hq⟩ hat hd
  · rw [hback.m]
    have hptr : ∃ i, x.m.lookup i = some ptr := ⟨id, hid⟩
    by_cases hq : q = ptr
    · subst hq
      cases s <;> simp [Without, hptr]
    · simp [Without, hq]
  · rw [hkept.m]
    cases s <;> simp [Without]

omit L in
theorem Reading.Coherent.dataOf_eq_none (h : R.Coherent x) (hnil : x.heap s = []) (id : Str) :
    R.dataOf x id = none := by
  rw [Reading.dataOf]
  cases hid : x.m.lookup id with
  | none => rfl
  | some ptr =>
    have hptr : ptr ∈ x.heap s := (h.holds.mem s ptr).mpr ⟨id, hid⟩
    rw [hnil] at hptr
    cases hptr

-- ---------------------------------------------------------------------------
-- Applications that are due
-- ---------------------------------------------------------------------------

def Reading.due (R : Reading E D) (p : D → Bool) (x : Apps E) : Finset Str :=
  x.m.keys.toFinset.filter fun id => (R.dataOf x id).any p

omit L in
theorem mem_due {p : D → Bool} : id ∈ R.due p x ↔ ∃ d, R.dataOf x id = some d ∧ p d := by
  rw [Reading.due, Finset.mem_filter, List.mem_toFinset, Option.any_eq_true]
  refine ⟨fun ⟨_, hd⟩ => hd, fun ⟨d, hd, hp⟩ => ⟨?_, d, hd, hp⟩⟩
  obtain ⟨ptr, hptr, -⟩ := dataOf_eq_some.mp hd
  exact AList.mem_keys.mp (GoMap.mem_iff.mpr ⟨ptr, hptr⟩)

omit L in
theorem card_due_le (p : D → Bool) (x : Apps E) : (R.due p x).card ≤ x.m.size :=
  calc (R.due p x).card ≤ x.m.keys.toFinset.card := Finset.card_filter_le _ _
    _ ≤ x.m.keys.length := List.toFinset_card_le _
    _ = x.m.size := by rw [AList.keys, List.keys, List.length_map, GoMap.size]

omit L in
theorem card_due_lt {p : D → Bool} (hd : R.dataOf x id = some d) (hp : p d)
    (hid : ∀ d', R.dataOf x' id = some d' → ¬ p d')
    (hother : ∀ i, i ≠ id → R.dataOf x' i = R.dataOf x i) :
    (R.due p x').card < (R.due p x).card := by
  refine Finset.card_lt_card
    (Finset.ssubset_iff_of_subset ?_ |>.mpr ⟨id, mem_due.mpr ⟨d, hd, hp⟩, ?_⟩)
  · intro i hi
    obtain ⟨d', hd', hp'⟩ := mem_due.mp hi
    have hne : i ≠ id := by
      rintro rfl
      exact hid d' hd' hp'
    exact mem_due.mpr ⟨d', hother i hne ▸ hd', hp'⟩
  · intro hi
    obtain ⟨d', hd', hp'⟩ := mem_due.mp hi
    exact hid d' hd' hp'

-- ---------------------------------------------------------------------------
-- Snapshots
-- ---------------------------------------------------------------------------

omit L in
theorem Reading.Coherent.lookup (h : R.Coherent x) (hptr : ptr ∈ x.heap s)
    (he : x.entries[ptr]? = some e) :
    x.m.lookup (R.applicationId (R.data e)) = some ptr := by
  obtain ⟨id, hid⟩ := (h.holds.mem s ptr).mp hptr
  obtain ⟨d, hd, rfl⟩ := h.keyed id ptr hid
  rw [Reading.at_eq_some he] at hd
  cases hd
  exact hid

/-- What a snapshot of either heap brings, pop after pop: every application
once, in the order of the ranks. -/
theorem Reading.Lawful.drains (h : R.Coherent x) (s : Side) :
    ∃ es, Heap.Drains (K s).snapshot x.entries (x.heap s) es ∧ es.length ≤ (x.heap s).length ∧
      (es.map fun e => R.applicationId (R.data e)).Nodup ∧
      (∀ d, d ∈ es.map R.data ↔ R.dataOf x (R.applicationId d) = some d) ∧
      es.Pairwise fun a b => R.rank s (R.data a) ≤ R.rank s (R.data b) := by
  obtain ⟨es, hdrains, hperm, hsorted⟩ := (L.heapType s).drains (h.holds.heaped s)
  refine ⟨es, hdrains, hperm.length_eq ▸ List.length_filterMap_le _ _, ?_, fun d => ?_, hsorted⟩
  · refine (hperm.map _).nodup_iff.mp (List.pairwise_map.mpr (List.pairwise_filterMap.mpr ?_))
    refine (h.holds.heaped s).nodup.imp_of_mem fun {p q} hp hq hne a ha b hb heq => hne ?_
    have hb' := h.lookup hq hb
    rw [← heq, h.lookup hp ha] at hb'
    exact Option.some.inj hb'
  · rw [List.mem_map, dataOf_eq_some]
    constructor
    · rintro ⟨e, he, rfl⟩
      obtain ⟨ptr, hptr, hentry⟩ := List.mem_filterMap.mp (hperm.mem_iff.mpr he)
      exact ⟨ptr, h.lookup hptr hentry, Reading.at_eq_some hentry⟩
    · rintro ⟨ptr, hptr, hat⟩
      obtain ⟨e, he, rfl⟩ := Option.map_eq_some_iff.mp hat
      exact ⟨e,
        hperm.mem_iff.mp (List.mem_filterMap.mpr ⟨ptr, (h.holds.mem s ptr).mpr ⟨_, hptr⟩, he⟩), rfl⟩

end

end BigipCtlr.Stats
