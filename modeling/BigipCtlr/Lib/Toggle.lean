import BigipCtlr.Lib.Run

/-!
# Replaying switches

A log of insertions and removals in which nothing present is inserted and
nothing absent removed. Such a log can be replayed key by key.
-/

namespace BigipCtlr.Lib

/-- A switch is only turned to where it does not stand. -/
def switch (on want : Bool) : Option Bool := if on = want then none else some want

theorem switch_eq_some : switch a w = some b ↔ a ≠ w ∧ b = w := by
  rw [switch]
  split <;> simp_all [eq_comm]

theorem opposite_mem (h : run switch w (ws ++ w :: zs) = some b) : (!w) ∈ ws := by
  cases ws with
  | nil =>
    obtain ⟨c, hc, -⟩ := run_cons_eq_some.mp h
    exact absurd rfl (switch_eq_some.mp hc).1
  | cons x ws =>
    obtain ⟨c, hc, -⟩ := run_cons_eq_some.mp h
    have hne := (switch_eq_some.mp hc).1
    rw [Bool.not_eq_eq_eq_not.mpr (Bool.eq_not_of_ne hne)]
    simp

section
variable [DecidableEq κ]

def toggle (S : κ → Bool) (u : κ × Bool) : Option (κ → Bool) :=
  (switch (S u.1) u.2).map (Function.update S u.1)

def ofKey (k : κ) (us : List (κ × Bool)) : List Bool := (us.filter (·.1 = k)).map Prod.snd

theorem toggle_eq_some {S : κ → Bool} :
    toggle S u = some T ↔ S u.1 ≠ u.2 ∧ Function.update S u.1 u.2 = T := by
  simp only [toggle, Option.map_eq_some_iff, switch_eq_some]
  constructor
  · rintro ⟨b, ⟨hne, rfl⟩, hT⟩
    exact ⟨hne, hT⟩
  · rintro ⟨hne, hT⟩
    exact ⟨u.2, ⟨hne, rfl⟩, hT⟩

theorem run_toggle_ofKey {S : κ → Bool} (h : run toggle S us = some T) (k : κ) :
    run switch (S k) (ofKey k us) = some (T k) := by
  induction us generalizing S with
  | nil =>
    cases h
    rfl
  | cons u us ih =>
    obtain ⟨S', hS, h⟩ := run_cons_eq_some.mp h
    obtain ⟨hne, rfl⟩ := toggle_eq_some.mp hS
    have hrest := ih h
    by_cases hk : u.1 = k
    · subst hk
      rw [Function.update_self] at hrest
      rw [ofKey, List.filter_cons_of_pos (by simp)]
      exact run_cons_eq_some.mpr ⟨u.2, switch_eq_some.mpr ⟨hne, rfl⟩, hrest⟩
    · rw [Function.update_of_ne (Ne.symm hk)] at hrest
      rwa [ofKey, List.filter_cons_of_neg (by simpa using hk)]

theorem run_toggle_off {S : κ → Bool} {ks : List κ} (hnd : ks.Nodup) (hon : ∀ k ∈ ks, S k = true) :
    run toggle S (ks.map fun k => (k, false)) = some fun k => S k && !decide (k ∈ ks) := by
  induction ks generalizing S with
  | nil => simp
  | cons k ks ih =>
    obtain ⟨hk, hnd⟩ := List.nodup_cons.mp hnd
    refine run_cons_eq_some.mpr ⟨_,
      toggle_eq_some.mpr ⟨by simp [hon k List.mem_cons_self], rfl⟩, ?_⟩
    rw [ih hnd fun x hx => ?_]
    · congr 1
      funext x
      by_cases hx : x = k
      · subst hx
        simp
      · simp [hx]
    · have hne : x ≠ k := fun he => hk (he ▸ hx)
      rw [Function.update_of_ne hne]
      exact hon x (List.mem_cons_of_mem _ hx)

/-- What such a log amounts to, and what each entry finds. -/
theorem run_toggle_spec {S : κ → Bool} (h : run toggle S us = some T) :
    us.foldl (fun S u => Function.update S u.1 u.2) S = T ∧
      ∀ vs u, vs ++ [u] <+: us → vs.foldl (fun S u => Function.update S u.1 u.2) S u.1 ≠ u.2 := by
  have hfold : ∀ {S T : κ → Bool} {vs}, run toggle S vs = some T →
      vs.foldl (fun S u => Function.update S u.1 u.2) S = T := by
    intro S T vs h
    induction vs generalizing S with
    | nil =>
      cases h
      rfl
    | cons u vs ih =>
      obtain ⟨S', hS, h⟩ := run_cons_eq_some.mp h
      obtain ⟨-, rfl⟩ := toggle_eq_some.mp hS
      exact ih h
  refine ⟨hfold h, ?_⟩
  rintro vs u ⟨ws, rfl⟩
  obtain ⟨T₁, h₁, -⟩ := run_append_eq_some.mp h
  obtain ⟨T₂, h₂, hu⟩ := run_append_eq_some.mp h₁
  obtain ⟨T₃, h₃, -⟩ := run_cons_eq_some.mp hu
  rw [hfold h₂]
  exact (toggle_eq_some.mp h₃).1

end

end BigipCtlr.Lib
