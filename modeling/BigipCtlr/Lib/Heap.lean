import Mathlib.Order.Lattice

/-!
# Heaps in an array

The order of a binary heap whose positions are numbered level by level. While
an element is sifted its position is a hole: the pairs of parent and child away
from it are in order, and its children come after its parent. Exchanging it
with its parent, or with the smaller of its children, moves the hole.
-/

namespace BigipCtlr.Lib

def parent (i : Nat) : Nat := (i - 1) / 2

def exch (a : Nat → α) (i j : Nat) : Nat → α :=
  fun k => if k = i then a j else if k = j then a i else a k

theorem exch_right (a : Nat → α) (i j : Nat) : exch a i j j = a i := by
  simp only [exch, if_true]
  split
  · next h => rw [h]
  · rfl

theorem exch_of_ne (a : Nat → α) (hi : k ≠ i) (hj : k ≠ j) : exch a i j k = a k := by
  simp only [exch, hi, hj, if_false]

theorem parent_lt (h : 0 < i) : parent i < i := by
  simp only [parent]
  omega

theorem parent_eq_iff (h : 0 < k) : parent k = i ↔ k = 2 * i + 1 ∨ k = 2 * i + 2 := by
  simp only [parent]
  omega

section
variable [LinearOrder κ] {a b : Nat → κ}

def HeapOrdered (a : Nat → κ) (n : Nat) : Prop := ∀ i, 0 < i → i < n → a (parent i) ≤ a i

/-- They do except at the hole. -/
structure HoleOrdered (a : Nat → κ) (n hole : Nat) : Prop where
  apart : ∀ i, 0 < i → i < n → i ≠ hole → parent i ≠ hole → a (parent i) ≤ a i
  grand : 0 < hole → ∀ i, 0 < i → i < n → parent i = hole → a (parent hole) ≤ a i

def AfterParent (a : Nat → κ) (hole : Nat) : Prop := 0 < hole → a (parent hole) ≤ a hole

def BeforeChildren (a : Nat → κ) (n hole : Nat) : Prop :=
  ∀ i, 0 < i → i < n → parent i = hole → a hole ≤ a i

theorem heapOrdered_zero : HeapOrdered a 0 := fun i _ hi => absurd hi (Nat.not_lt_zero i)

theorem HeapOrdered.congr (h : HeapOrdered a n) (hab : ∀ i < n, b i = a i) : HeapOrdered b n := by
  intro i hi hin
  rw [hab i hin, hab _ (Nat.lt_trans (parent_lt hi) hin)]
  exact h i hi hin

theorem HeapOrdered.mono (h : HeapOrdered a n) (hm : m ≤ n) : HeapOrdered a m :=
  fun i hi him => h i hi (Nat.lt_of_lt_of_le him hm)

theorem HeapOrdered.root_le (h : HeapOrdered a n) (hi : i < n) : a 0 ≤ a i := by
  induction i using Nat.strongRecOn with
  | ind i ih =>
    rcases Nat.eq_zero_or_pos i with rfl | hpos
    · exact le_refl _
    · have hlt := parent_lt hpos
      exact (ih _ hlt (Nat.lt_trans hlt hi)).trans (h i hpos hi)

theorem HoleOrdered.filled (h : HoleOrdered a n hole) (hup : AfterParent a hole)
    (hdown : BeforeChildren a n hole) :
    HeapOrdered a n := by
  intro i hi hin
  by_cases hhole : i = hole
  · subst hhole
    exact hup hi
  · by_cases hpar : parent i = hole
    · rw [hpar]
      exact hdown i hi hin hpar
    · exact h.apart i hi hin hhole hpar

theorem HeapOrdered.holeOrdered (h : HeapOrdered a m) (hmn : n ≤ m) (hin : hole < m)
    (hab : ∀ i < n, i ≠ hole → b i = a i) :
    HoleOrdered b n hole := by
  refine ⟨fun i hi hi' hne hpar => ?_, fun hpos i hi hi' hpar => ?_⟩
  · rw [hab i hi' hne, hab _ (Nat.lt_trans (parent_lt hi) hi') hpar]
    exact h i hi (Nat.lt_of_lt_of_le hi' hmn)
  · have hlt := parent_lt hi
    have hlt' := parent_lt hpos
    rw [hab i hi' (by omega), hab _ (by omega) (by omega)]
    exact (h hole hpos hin).trans (hpar ▸ h i hi (Nat.lt_of_lt_of_le hi' hmn))

theorem HeapOrdered.append (h : HeapOrdered a n) (hab : ∀ i < n, b i = a i) :
    HoleOrdered b (n + 1) n ∧ BeforeChildren b (n + 1) n := by
  have hnone : ∀ i, 0 < i → i < n + 1 → parent i ≠ n := fun i hi hin hpar => by
    have := parent_lt hi
    omega
  refine ⟨⟨fun i hi hin hne _ => ?_, fun _ i hi hin hpar => absurd hpar (hnone i hi hin)⟩,
    fun i hi hin hpar => absurd hpar (hnone i hi hin)⟩
  have hlt := parent_lt hi
  rw [hab i (by omega), hab _ (by omega)]
  exact h i hi (by omega)

theorem HoleOrdered.up (h : HoleOrdered a n j) (hbelow : BeforeChildren a n j)
    (hpos : 0 < j) (hj : j < n) (hless : a j < a (parent j)) :
    HoleOrdered (exch a (parent j) j) n (parent j) ∧
      BeforeChildren (exch a (parent j) j) n (parent j) := by
  have hlt := parent_lt hpos
  generalize hp : parent j = p at *
  have hup : 0 < p → a (parent p) ≤ a p :=
    fun hpos => h.apart p hpos (by omega) (by omega) (by have := parent_lt hpos; omega)
  have hchild : ∀ i, 0 < i → i < n → i ≠ j → parent i = p → a p ≤ a i := fun i hi hin hne hpar =>
    hpar ▸ h.apart i hi hin hne (by omega)
  refine ⟨⟨fun i hi hin hne hpar => ?_, fun hpos i hi hin hpar => ?_⟩, fun i hi hin hpar => ?_⟩
  · have hij : i ≠ j := by
      rintro rfl
      exact hpar hp
    simp only [exch, hne, hij, hpar, if_false]
    by_cases hpj : parent i = j
    · rw [if_pos hpj]
      exact hp ▸ h.grand (by omega) i hi hin hpj
    · rw [if_neg hpj]
      exact h.apart i hi hin hij hpj
  · have hpp := parent_lt hpos
    have hip := parent_lt hi
    simp only [exch]
    rw [if_neg (by omega), if_neg (by omega), if_neg (by omega)]
    split
    · exact hup hpos
    · next hij => exact (hup hpos).trans (hchild i hi hin hij hpar)
  · have hip := parent_lt hi
    simp only [exch, if_true]
    rw [if_neg (by omega)]
    split
    · exact hless.le
    · next hij => exact hless.le.trans (hchild i hi hin hij hpar)

theorem HoleOrdered.down (h : HoleOrdered a n i) (hpos : 0 < j) (hj : j < n) (hpar : parent j = i)
    (hfirst : ∀ k, 0 < k → k < n → parent k = i → a j ≤ a k) (hless : a j < a i) :
    HoleOrdered (exch a i j) n j ∧ AfterParent (exch a i j) j := by
  have hlt := parent_lt hpos
  have hgrand : ∀ k, 0 < k → k < n → parent k = j → a j ≤ a k := fun k hk hkn hkj =>
    hkj ▸ h.apart k hk hkn (by have := parent_lt hk; omega) (by omega)
  refine ⟨⟨fun k hk hkn hne hkpar => ?_, fun _ k hk hkn hkj => ?_⟩, fun _ => ?_⟩
  · have hkp := parent_lt hk
    simp only [exch, hne, if_false, hkpar]
    by_cases hki : k = i
    · subst hki
      rw [if_neg (by omega), if_pos rfl]
      exact h.grand hk j hpos hj hpar
    · rw [if_neg hki]
      split
      · next hpi => exact hfirst k hk hkn hpi
      · next hpi => exact h.apart k hk hkn hki hpi
  · have hkp := parent_lt hk
    simp only [exch, hpar, if_true]
    rw [if_neg (by omega), if_neg (by omega)]
    exact hgrand k hk hkn hkj
  · simp only [exch, hpar, if_true]
    rw [if_neg (by omega)]
    exact hless.le

end

end BigipCtlr.Lib
