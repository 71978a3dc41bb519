import BigipCtlr.Lib.Heap
import Mathlib.Data.List.GetD
import Mathlib.Data.List.Perm.Basic

/-!
# container/heap

The heap operations of the standard library, over any state with a length, a
comparison and exchanges of positions. A panic of one of these is `none`. If
they are lawful for a view of the state as a list, the operations keep the list
in heap order and otherwise only rearrange it.
-/

namespace BigipCtlr.Go.Heap

open Lib

/-- `heap.Interface`, for a state `σ` with elements `ε`. -/
structure Interface (σ ε : Type) where
  len : σ → Nat
  less : σ → Nat → Nat → Option Bool
  swap : σ → Nat → Nat → Option σ
  push : σ → ε → Option σ
  pop : σ → Option (σ × ε)

namespace Interface

/-- The loop of `up`; each turn goes to the parent, so a bound on the turns ends it. -/
def up (h : Interface σ ε) : Nat → σ → Nat → Option σ
  | 0, s, _ => some s
  | turns + 1, s, j =>
    let i := (j - 1) / 2
    if i = j then some s
    else do
      if ← h.less s j i then
        let s ← h.swap s i j
        up h turns s i
      else some s

def child (h : Interface σ ε) (n : Nat) (s : σ) (i : Nat) : Option Nat :=
  let j1 := 2 * i + 1
  let j2 := j1 + 1
  if j2 < n then (h.less s j2 j1).map fun right => if right then j2 else j1 else some j1

def down (h : Interface σ ε) (n : Nat) : Nat → σ → Nat → Option (σ × Nat)
  | 0, s, i => some (s, i)
  | turns + 1, s, i =>
    if n ≤ 2 * i + 1 then some (s, i)
    else do
      let j ← h.child n s i
      if ← h.less s j i then
        let s ← h.swap s i j
        down h n turns s j
      else some (s, i)

def heapPush (h : Interface σ ε) (s : σ) (x : ε) : Option σ := do
  let s ← h.push s x
  h.up (h.len s) s (h.len s - 1)

def heapPop (h : Interface σ ε) (s : σ) : Option (σ × ε) :=
  match h.len s with
  | 0 => none
  | n + 1 => do
    let s ← h.swap s 0 n
    let (s, _) ← h.down n n s 0
    h.pop s

def removeAt (h : Interface σ ε) (s : σ) (n i : Nat) : Option (σ × ε) :=
  if n = i then h.pop s
  else do
    let s ← h.swap s i n
    let (s, k) ← h.down n n s i
    let s ← (if i < k then some s else h.up (i + 1) s i)
    h.pop s

def heapRemove (h : Interface σ ε) (s : σ) (i : Int) : Option (σ × ε) :=
  match i, h.len s with
  | .ofNat i, n + 1 => h.removeAt s n i
  | _, _ => none

end Interface

-- ---------------------------------------------------------------------------
-- Positions of a list
-- ---------------------------------------------------------------------------

section
variable [Inhabited ε]

def keyAt (key : ε → κ) (l : List ε) (i : Nat) : κ := key (l.getD i default)

theorem getD_swap {l : List ε} (hi : i < l.length) (hj : j < l.length) (k : Nat) :
    (l.swap i j).getD k default = exch (l.getD · default) i j k := by
  simp only [exch]
  by_cases hk : k < l.length
  · rw [List.getD_eq_getElem _ _ (by rwa [List.length_swap]), List.getElem_swap]
    simp only [hi, hj, and_true, List.getD_eq_getElem, hk]
    split
    · rfl
    · split <;> rfl
  · rw [if_neg (by omega), if_neg (by omega),
      List.getD_eq_default _ _ (by rw [List.length_swap]; omega),
      List.getD_eq_default _ _ (by omega)]

theorem keyAt_swap (key : ε → κ) {l : List ε} (hi : i < l.length) (hj : j < l.length) :
    keyAt key (l.swap i j) = exch (keyAt key l) i j := by
  funext k
  rw [keyAt, getD_swap hi hj, exch, exch]
  split
  · rfl
  · split <;> rfl

structure Rearranged (n : Nat) (l l' : List ε) : Prop where
  perm : l'.Perm l
  rest : ∀ k, n ≤ k → l'.getD k default = l.getD k default

theorem Rearranged.refl (n : Nat) (l : List ε) : Rearranged n l l := ⟨.refl l, fun _ _ => rfl⟩

theorem Rearranged.trans {l l' l'' : List ε} (h : Rearranged n l l') (h' : Rearranged n l' l'') :
    Rearranged n l l'' :=
  ⟨h'.perm.trans h.perm, fun k hk => (h'.rest k hk).trans (h.rest k hk)⟩

theorem rearranged_swap {l : List ε} (hi : i < n) (hj : j < n) (hn : n ≤ l.length) :
    Rearranged n l (l.swap i j) := by
  refine ⟨List.swap_perm l i j, fun k hk => ?_⟩
  rw [getD_swap (by omega) (by omega), exch_of_ne _ (by omega) (by omega)]

theorem exists_split_last {l : List ε} (hlen : l.length = n + 1) :
    ∃ rest, l = rest ++ [l.getD n default] ∧ rest.length = n ∧
      ∀ i < n, rest.getD i default = l.getD i default := by
  refine ⟨l.take n, ?_, by rw [List.length_take]; omega, fun i hi => ?_⟩
  · rw [List.getD_eq_getElem _ _ (by omega), List.take_append_getElem,
      List.take_of_length_le (by omega)]
  · rw [List.getD_eq_getElem?_getD, List.getElem?_take_of_lt hi, ← List.getD_eq_getElem?_getD]

-- ---------------------------------------------------------------------------
-- Lawful interfaces
-- ---------------------------------------------------------------------------

variable [LinearOrder κ]

def Ordered (key : ε → κ) (l : List ε) : Prop := HeapOrdered (keyAt key l) l.length

/-- In the states of an invariant, comparing and exchanging positions is doing
so in a list, and keeps the invariant. -/
structure Interface.Lawful (h : Interface σ ε) (key : ε → κ) (view : σ → List ε)
    (I : σ → Prop) : Prop where
  len : ∀ s, I s → h.len s = (view s).length
  less : ∀ s i j, I s → i < (view s).length → j < (view s).length →
    h.less s i j = some (decide (keyAt key (view s) i < keyAt key (view s) j))
  swap : ∀ s i j, I s → i < (view s).length → j < (view s).length →
    ∃ s', h.swap s i j = some s' ∧ I s' ∧ view s' = (view s).swap i j

theorem Rearranged.sifted {key : ε → κ} {l l' : List ε} (hre : Rearranged n l l')
    (hlen : l.length = n + 1) (hord : HeapOrdered (keyAt key l') n) :
    ∃ rest, l' = rest ++ [l.getD n default] ∧ Ordered key rest := by
  obtain ⟨rest, hrest, hn, hsame⟩ := exists_split_last (hre.perm.length_eq.trans hlen)
  rw [hre.rest n (Nat.le_refl n)] at hrest
  refine ⟨rest, hrest, ?_⟩
  rw [Ordered, hn]
  exact hord.congr fun i hi => congrArg key (hsame i hi)

section
variable {h : Interface σ ε} {key : ε → κ} {view : σ → List ε} {I : σ → Prop}
  (L : h.Lawful key view I)
include L

theorem Interface.Lawful.up (turns : Nat) (hI : I s) (hn : n ≤ (view s).length) (hj : j < n)
    (hturns : j < turns) (hhole : HoleOrdered (keyAt key (view s)) n j)
    (hbelow : BeforeChildren (keyAt key (view s)) n j) :
    ∃ s', h.up turns s j = some s' ∧ I s' ∧ Rearranged n (view s) (view s') ∧
      HeapOrdered (keyAt key (view s')) n := by
  induction turns generalizing s j with
  | zero => omega
  | succ turns ih =>
    simp only [Interface.up]
    split
    · next hroot =>
      refine ⟨s, rfl, hI, .refl _ _, hhole.filled (fun hpos => ?_) hbelow⟩
      omega
    · next hne =>
      have hpos : 0 < j := by omega
      have hlt : (j - 1) / 2 < j := parent_lt hpos
      rw [L.less s j _ hI (by omega) (by omega)]
      simp only [bind, Option.bind_some, decide_eq_true_eq]
      split
      · next hless =>
        obtain ⟨s₁, hs₁, hI₁, hview⟩ := L.swap s ((j - 1) / 2) j hI (by omega) (by omega)
        obtain ⟨hhole₁, hbelow₁⟩ := hhole.up hbelow hpos hj hless
        have hkeys := keyAt_swap key (l := view s) (i := (j - 1) / 2) (j := j) (by omega) (by omega)
        rw [← hview] at hkeys
        have hre := rearranged_swap (l := view s) (i := (j - 1) / 2) (by omega) hj hn
        rw [← hview] at hre
        obtain ⟨s', hs', hI', hre', hord⟩ :=
          ih (j := (j - 1) / 2) hI₁ (by rw [hview, List.length_swap]; exact hn)
            (by omega) (by omega)
          (by rw [hkeys]; exact hhole₁) (by rw [hkeys]; exact hbelow₁)
        exact ⟨s', by rw [hs₁, Option.bind_some, hs'], hI', hre.trans hre', hord⟩
      · next hless => exact ⟨s, rfl, hI, .refl _ _, hhole.filled (fun _ => not_lt.mp hless) hbelow⟩

theorem Interface.Lawful.child (hI : I s) (hn : n ≤ (view s).length) (hi : 2 * i + 1 < n) :
    ∃ j, h.child n s i = some j ∧ 0 < j ∧ j < n ∧ parent j = i ∧
      ∀ k, 0 < k → k < n → parent k = i → keyAt key (view s) j ≤ keyAt key (view s) k := by
  have hleft : parent (2 * i + 1) = i := (parent_eq_iff (by omega)).mpr (.inl rfl)
  have hright : parent (2 * i + 1 + 1) = i := (parent_eq_iff (by omega)).mpr (.inr rfl)
  simp only [Interface.child]
  by_cases htwo : 2 * i + 1 + 1 < n
  · rw [if_pos htwo, L.less s _ _ hI (by omega) (by omega), Option.map_some]
    by_cases hless : keyAt key (view s) (2 * i + 1 + 1) < keyAt key (view s) (2 * i + 1)
    · refine ⟨_, by rw [decide_eq_true hless, if_pos rfl], by omega, htwo, hright,
        fun k hk hkn hpar => ?_⟩
      rcases (parent_eq_iff hk).mp hpar with rfl | rfl
      · exact hless.le
      · exact le_refl _
    · refine ⟨_, by rw [decide_eq_false hless, if_neg Bool.false_ne_true], by omega, hi, hleft,
        fun k hk hkn hpar => ?_⟩
      rcases (parent_eq_iff hk).mp hpar with rfl | rfl
      · exact le_refl _
      · exact not_lt.mp hless
  · refine ⟨_, if_neg htwo, by omega, hi, hleft, fun k hk hkn hpar => ?_⟩
    rcases (parent_eq_iff hk).mp hpar with rfl | rfl
    · exact le_refl _
    · omega

theorem Interface.Lawful.down (turns : Nat) (hI : I s) (hn : n ≤ (view s).length)
    (hturns : n ≤ turns + i) (hhole : HoleOrdered (keyAt key (view s)) n i) :
    ∃ s' k, h.down n turns s i = some (s', k) ∧ I s' ∧ Rearranged n (view s) (view s') ∧
      (k = i ∧ s' = s ∧ BeforeChildren (keyAt key (view s)) n i ∨
        i < k ∧ HeapOrdered (keyAt key (view s')) n) := by
  induction turns generalizing s i with
  | zero =>
    refine ⟨s, i, rfl, hI, .refl _ _, .inl ⟨rfl, rfl, fun k hk hkn hpar => ?_⟩⟩
    have := parent_lt hk
    omega
  | succ turns ih =>
    simp only [Interface.down]
    split
    · next hleaf =>
      refine ⟨s, i, rfl, hI, .refl _ _, .inl ⟨rfl, rfl, fun k hk hkn hpar => ?_⟩⟩
      rcases (parent_eq_iff hk).mp hpar with rfl | rfl <;> omega
    · next hinner =>
      obtain ⟨j, hchild, hpos, hj, hpar, hfirst⟩ := L.child hI hn (i := i) (by omega)
      have hlt := parent_lt hpos
      simp only [hchild, bind, Option.bind_some, L.less s j i hI (by omega) (by omega),
        decide_eq_true_eq]
      split
      · next hless =>
        obtain ⟨s₁, hs₁, hI₁, hview⟩ := L.swap s i j hI (by omega) (by omega)
        obtain ⟨hhole₁, habove₁⟩ := hhole.down hpos hj hpar hfirst hless
        have hkeys := keyAt_swap key (l := view s) (i := i) (j := j) (by omega) (by omega)
        rw [← hview] at hkeys
        have hre := rearranged_swap (l := view s) (i := i) (by omega) hj hn
        rw [← hview] at hre
        rw [← hkeys] at hhole₁ habove₁
        obtain ⟨s', k, hs', hI', hre', hend⟩ :=
          ih hI₁ (by rw [hview, List.length_swap]; exact hn) (by omega) hhole₁
        refine ⟨s', k, by rw [hs₁, Option.bind_some, hs'], hI', hre.trans hre', .inr ?_⟩
        obtain ⟨rfl, rfl, hbelow⟩ | ⟨hk, hord⟩ := hend
        · exact ⟨by omega, hhole₁.filled habove₁ hbelow⟩
        · exact ⟨by omega, hord⟩
      · next hless =>
        refine ⟨s, i, rfl, hI, .refl _ _, .inl ⟨rfl, rfl, fun k hk hkn hkpar => ?_⟩⟩
        exact (not_lt.mp hless).trans (hfirst k hk hkn hkpar)

theorem Interface.Lawful.heapPush (hpush : h.push s x = some s₁) (hI : I s₁)
    (hview : view s₁ = l ++ [x]) (hord : Ordered key l) :
    ∃ s', h.heapPush s x = some s' ∧ I s' ∧ (view s').Perm (l ++ [x]) ∧ Ordered key (view s') := by
  have hlen : (view s₁).length = l.length + 1 := by
    rw [hview, List.length_append, List.length_singleton]
  have hkeys : ∀ i < l.length, keyAt key (view s₁) i = keyAt key l i := fun i hi => by
    rw [keyAt, keyAt, hview, List.getD_append _ _ _ _ hi]
  obtain ⟨hhole, hbelow⟩ := HeapOrdered.append hord hkeys
  obtain ⟨s', hup, hI', hre, hord'⟩ :=
    L.up (l.length + 1) hI (hlen ▸ Nat.le_refl _) (Nat.lt_succ_self _)
    (Nat.lt_succ_self _) hhole hbelow
  refine ⟨s', ?_, hI', hview ▸ hre.perm, ?_⟩
  · simp only [Interface.heapPush, hpush, bind, Option.bind_some, L.len s₁ hI, hlen,
      Nat.add_sub_cancel, hup]
  · rw [Ordered, hre.perm.length_eq, hlen]
    exact hord'

theorem Interface.Lawful.swapLast (hI : I s) (hord : Ordered key (view s))
    (hlen : (view s).length = n + 1) (hi : i ≤ n) :
    ∃ s', h.swap s i n = some s' ∧ I s' ∧ (view s').length = n + 1 ∧ (view s').Perm (view s) ∧
      (view s').getD n default = (view s).getD i default ∧
      HoleOrdered (keyAt key (view s')) n i := by
  obtain ⟨s', hs', hI', hview⟩ := L.swap s i n hI (by omega) (by omega)
  refine ⟨s', hs', hI', ?_, hview ▸ List.swap_perm _ _ _, ?_, ?_⟩
  · rw [hview, List.length_swap, hlen]
  · rw [hview, getD_swap (by omega) (by omega), exch_right]
  · rw [hview, keyAt_swap key (by omega) (by omega)]
    exact HeapOrdered.holeOrdered hord (by omega) (by omega) fun k hk hne =>
      exch_of_ne _ hne (by omega)

theorem Interface.Lawful.heapPop (hI : I s) (hord : Ordered key (view s)) (hne : view s ≠ []) :
    ∃ s₁ rest, h.heapPop s = h.pop s₁ ∧ I s₁ ∧ view s₁ = rest ++ [(view s).getD 0 default] ∧
      (view s₁).Perm (view s) ∧ Ordered key rest := by
  obtain ⟨n, hlen⟩ := Nat.exists_eq_add_one_of_ne_zero (mt List.length_eq_zero_iff.mp hne)
  obtain ⟨s₀, hs₀, hI₀, hlen₀, hperm, hroot, hhole⟩ := L.swapLast hI hord hlen (Nat.zero_le n)
  obtain ⟨s₁, k, hdown, hI₁, hre, hend⟩ := L.down n hI₀ (by omega) (by omega) hhole
  have hord₁ : HeapOrdered (keyAt key (view s₁)) n := by
    obtain ⟨-, rfl, hbelow⟩ | ⟨-, hord₁⟩ := hend
    · exact hhole.filled (fun hpos => absurd hpos (Nat.lt_irrefl 0)) hbelow
    · exact hord₁
  obtain ⟨rest, hrest, hordered⟩ := hre.sifted hlen₀ hord₁
  refine ⟨s₁, rest, ?_, hI₁, hroot ▸ hrest, hre.perm.trans hperm, hordered⟩
  simp only [Interface.heapPop, L.len s hI, hlen, hs₀, hdown, bind, Option.bind_some]

theorem Interface.Lawful.heapRemove (hI : I s) (hord : Ordered key (view s))
    (hi : i < (view s).length) :
    ∃ s₁ rest, h.heapRemove s i = h.pop s₁ ∧ I s₁ ∧ view s₁ = rest ++ [(view s).getD i default] ∧
      (view s₁).Perm (view s) ∧ Ordered key rest := by
  obtain ⟨n, hlen⟩ := Nat.exists_eq_add_one_of_ne_zero (show (view s).length ≠ 0 by omega)
  have hremove : h.heapRemove s i = h.removeAt s n i := by
    simp only [Interface.heapRemove, L.len s hI, hlen]
  rw [hremove, Interface.removeAt]
  by_cases hlast : n = i
  · subst hlast
    obtain ⟨rest, hrest, hordered⟩ :=
      Rearranged.sifted (.refl n (view s)) hlen (HeapOrdered.mono hord (by omega))
    exact ⟨s, rest, if_pos rfl, hI, hrest, .refl _, hordered⟩
  · obtain ⟨s₀, hs₀, hI₀, hlen₀, hperm, htaken, hhole⟩ :=
      L.swapLast hI hord hlen (i := i) (by omega)
    obtain ⟨s₁, k, hdown, hI₁, hre, hend⟩ := L.down n hI₀ (by omega) (by omega) hhole
    simp only [if_neg hlast, hs₀, hdown, bind, Option.bind_some]
    obtain ⟨rfl, rfl, hbelow⟩ | ⟨hk, hord₁⟩ := hend
    · obtain ⟨s₂, hup, hI₂, hre₂, hord₂⟩ :=
        L.up (k + 1) hI₁ (by omega) (by omega) (by omega) hhole hbelow
      obtain ⟨rest, hrest, hordered⟩ := hre₂.sifted hlen₀ hord₂
      refine ⟨s₂, rest, ?_, hI₂, htaken ▸ hrest, hre₂.perm.trans hperm, hordered⟩
      rw [if_neg (Nat.lt_irrefl _), hup, Option.bind_some]
    · obtain ⟨rest, hrest, hordered⟩ := hre.sifted hlen₀ hord₁
      refine ⟨s₁, rest, ?_, hI₁, htaken ▸ hrest, hre.perm.trans hperm, hordered⟩
      rw [if_pos hk, Option.bind_some]

end

end

end BigipCtlr.Go.Heap
