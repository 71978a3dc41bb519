import Mathlib.Data.Option.Basic

/-!
# Tables with a second key

Rows under a primary key, and for each id one slot with the key of a row that
has it. Rows may share an id but not its slot: the last one to come takes it,
and whichever row gives the id up clears it. So no slot dangles, but a row can
no longer be found by its id once another has given that up.
-/

namespace BigipCtlr.Lib

@[ext] structure Indexed (κ ι ρ : Type) where
  rows : κ → Option ρ
  slots : ι → Option κ

namespace Indexed

def empty : Indexed κ ι ρ := ⟨fun _ => none, fun _ => none⟩

section
variable (id : ρ → ι) (s : Indexed κ ι ρ)

/-- A row at a key. It takes the slot of its id, and the row in whose place it
comes gives its id up; both only if their ids differ. -/
def put [DecidableEq κ] [DecidableEq ι] (k : κ) (r : ρ) : Indexed κ ι ρ where
  rows k' := if k' = k then some r else s.rows k'
  slots x := if (s.rows k).map id = some (id r) then s.slots x else if x = id r then some k
    else if (s.rows k).map id = some x then none else s.slots x

open Classical in
noncomputable def drop (P : ρ → Prop) : Indexed κ ι ρ where
  rows k := (s.rows k).filter (¬ P ·)
  slots x := if ∃ k r, s.rows k = some r ∧ P r ∧ id r = x then none else s.slots x

def mapRows (f : ρ → ρ) : Indexed κ ι ρ := ⟨fun k => (s.rows k).map f, s.slots⟩

def Linked : Prop := ∀ x k, s.slots x = some k → ∃ r, s.rows k = some r ∧ id r = x

def Findable : Prop := ∀ k r, s.rows k = some r → s.slots (id r) ≠ none

end

section
variable {id : ρ → ι} {s : Indexed κ ι ρ}

theorem rows_drop_eq_some {P : ρ → Prop} :
    (s.drop id P).rows k = some r ↔ s.rows k = some r ∧ ¬ P r := by
  simp only [drop, Option.filter_eq_some_iff, decide_eq_true_eq]

theorem slots_drop_eq_some {P : ρ → Prop} :
    (s.drop id P).slots x = some k ↔ (∀ k' r, s.rows k' = some r → P r → id r ≠ x) ∧
      s.slots x = some k := by
  simp only [drop, ite_eq_iff, reduceCtorEq, and_false, false_or, not_exists, not_and, ne_eq]

theorem drop_congr {P Q : ρ → Prop} (h : ∀ k r, s.rows k = some r → (P r ↔ Q r)) :
    s.drop id P = s.drop id Q := by
  ext y z
  · rw [rows_drop_eq_some, rows_drop_eq_some]
    exact and_congr_right fun hr => not_congr (h y z hr)
  · rw [slots_drop_eq_some, slots_drop_eq_some]
    refine and_congr_left' (forall_congr' fun k' => forall_congr' fun r =>
      imp_congr_right fun hr => ?_)
    rw [h k' r hr]

theorem drop_false : s.drop id (fun _ => False) = s := by
  ext y z
  · simp [rows_drop_eq_some]
  · simp [slots_drop_eq_some]

theorem drop_drop {P Q : ρ → Prop} : (s.drop id P).drop id Q = s.drop id fun r => P r ∨ Q r := by
  ext y z
  · simp only [rows_drop_eq_some, not_or, and_assoc]
  · simp only [slots_drop_eq_some, rows_drop_eq_some]
    constructor
    · rintro ⟨hQ, hP, hk⟩
      refine ⟨fun k' r hr hor => ?_, hk⟩
      by_cases hp : P r
      · exact hP k' r hr hp
      · exact hQ k' r ⟨hr, hp⟩ (hor.resolve_left hp)
    · rintro ⟨hor, hk⟩
      exact ⟨fun k' r hr hq => hor k' r hr.1 (.inr hq), fun k' r hr hp => hor k' r hr (.inl hp), hk⟩

theorem linked_empty : (empty : Indexed κ ι ρ).Linked id := by
  rintro x k ⟨⟩

theorem Linked.drop (h : s.Linked id) (P : ρ → Prop) : (s.drop id P).Linked id := by
  intro x k hx
  obtain ⟨hgone, hk⟩ := slots_drop_eq_some.mp hx
  obtain ⟨r, hr, hid⟩ := h x k hk
  exact ⟨r, rows_drop_eq_some.mpr ⟨hr, fun hp => hgone k r hr hp hid⟩, hid⟩

/-- After rows are dropped all others can be found exactly when none of them
shares an id with one that was dropped. -/
theorem findable_drop_iff (h : s.Findable id) {P : ρ → Prop} :
    (s.drop id P).Findable id ↔
      ∀ k r k' r', s.rows k = some r → P r → s.rows k' = some r' → ¬ P r' → id r ≠ id r' := by
  constructor
  · intro hfind k r k' r' hr hp hr' hp'
    obtain ⟨k'', hk''⟩ :=
      Option.ne_none_iff_exists'.mp (hfind k' r' (rows_drop_eq_some.mpr ⟨hr', hp'⟩))
    exact (slots_drop_eq_some.mp hk'').1 k r hr hp
  · intro hapart k' r' hr'
    obtain ⟨hr', hp'⟩ := rows_drop_eq_some.mp hr'
    obtain ⟨k'', hk''⟩ := Option.ne_none_iff_exists'.mp (h k' r' hr')
    rw [slots_drop_eq_some.mpr ⟨fun k r hr hp => hapart k r k' r' hr hp hr' hp', hk''⟩]
    exact Option.some_ne_none k''

theorem Linked.mapRows (h : s.Linked id) (hf : ∀ r, id (f r) = id r) : (s.mapRows f).Linked id := by
  intro x k hx
  obtain ⟨r, hr, hid⟩ := h x k hx
  exact ⟨f r, by simp [Indexed.mapRows, hr], (hf r).trans hid⟩

theorem findable_mapRows (hf : ∀ r, id (f r) = id r) :
    (s.mapRows f).Findable id ↔ s.Findable id := by
  simp only [Findable, Indexed.mapRows, Option.map_eq_some_iff]
  constructor
  · intro h k r hr
    exact hf r ▸ h k _ ⟨r, hr, rfl⟩
  · rintro h k _ ⟨r, hr, rfl⟩
    exact (hf r).symm ▸ h k r hr

section
variable [DecidableEq κ] [DecidableEq ι]

theorem rows_put (k' : κ) : (s.put id k r).rows k' = if k' = k then some r else s.rows k' := rfl

theorem slots_put_of_new (hk : s.rows k = none) (x : ι) :
    (s.put id k r).slots x = if x = id r then some k else s.slots x := by
  simp [Indexed.put, hk]

theorem slots_put_of_old (hk : s.rows k = some old) (x : ι) :
    (s.put id k r).slots x = if id old = id r then s.slots x else if x = id r then some k
      else if id old = x then none else s.slots x := by
  simp [Indexed.put, hk]

theorem Linked.put (h : s.Linked id) (k : κ) (r : ρ) : (s.put id k r).Linked id := by
  intro x k' hx
  have hown : s.slots x = some k → (s.rows k).map id = some x := by
    intro hk
    obtain ⟨r', hr', rfl⟩ := h x k hk
    rw [hr', Option.map_some]
  have hkeep : ∀ {k'}, s.slots x = some k' → k' ≠ k →
      ∃ r', (s.put id k r).rows k' = some r' ∧ id r' = x := by
    intro k' hk' hne
    rw [rows_put, if_neg hne]
    exact h x k' hk'
  have hnew : (s.put id k r).rows k = some r := if_pos rfl
  simp only [Indexed.put] at hx
  split at hx
  · next hsame =>
    by_cases hk : k' = k
    · subst hk
      exact ⟨r, hnew, Option.some.inj (hsame.symm.trans (hown hx))⟩
    · exact hkeep hx hk
  · split at hx
    · next hxr =>
      cases hx
      exact ⟨r, hnew, hxr.symm⟩
    · split at hx
      · cases hx
      · next hgone =>
        refine hkeep hx ?_
        rintro rfl
        exact hgone (hown hx)

/-- After a row was put all can be found exactly when no other row has the id
that the one in whose place it came gave up. -/
theorem findable_put_iff (h : s.Findable id) :
    (s.put id k r).Findable id ↔
      ∀ old k' r', s.rows k = some old → id old ≠ id r → k' ≠ k → s.rows k' = some r' →
        id old ≠ id r' := by
  constructor
  · intro hfind old k' r' hold hne hk' hr' hid
    refine hfind k' r' (by rw [rows_put, if_neg hk', hr']) ?_
    rw [slots_put_of_old hold, if_neg hne, if_neg (hid ▸ hne), if_pos hid]
  · intro hapart k' r' hr'
    simp only [Indexed.put]
    have hcases : r' = r ∨ (k' ≠ k ∧ s.rows k' = some r') := by
      rw [rows_put] at hr'
      split at hr'
      · exact .inl (Option.some.inj hr').symm
      · next hne => exact .inr ⟨hne, hr'⟩
    split
    · next hsame =>
      obtain rfl | ⟨-, hr'⟩ := hcases
      · obtain ⟨old, hold, hid⟩ := Option.map_eq_some_iff.mp hsame
        exact hid ▸ h k old hold
      · exact h k' r' hr'
    · next hdiff =>
      split
      · exact Option.some_ne_none k
      · next hid =>
        obtain rfl | ⟨hk', hr'⟩ := hcases
        · exact absurd rfl hid
        · rw [if_neg]
          · exact h k' r' hr'
          · intro hgone
            obtain ⟨old, hold, hold'⟩ := Option.map_eq_some_iff.mp hgone
            refine hapart old k' r' hold (fun he => hdiff ?_) hk' hr' hold'
            rw [hold, Option.map_some, he]

end

end

end Indexed

end BigipCtlr.Lib
