import Mathlib.Data.List.Basic

/-!
# Lists

A loop that reads every element, the removal of an element that puts the last
in its place, the first match in a sorted list, and lists between two ends.
-/

namespace BigipCtlr.Lib

theorem mapM_eq_some {f : α → Option β} {l : List α} :
    l.mapM f = some bs ↔ l.map f = bs.map some := by
  induction l generalizing bs with
  | nil => cases bs <;> simp
  | cons a l ih =>
    rw [List.mapM_cons, List.map_cons]
    cases bs with
    | nil => cases f a <;> cases l.mapM f <;> simp
    | cons b bs =>
      simp only [List.map_cons, List.cons.injEq, ← ih]
      cases f a <;> cases l.mapM f <;> simp

theorem mapM_eq_ok {f : α → Except ε β} {l : List α} :
    l.mapM f = .ok bs ↔ l.map f = bs.map .ok := by
  induction l generalizing bs with
  | nil => cases bs <;> simp [pure, Except.pure]
  | cons a l ih =>
    rw [List.mapM_cons, List.map_cons]
    cases bs with
    | nil => cases f a <;> cases l.mapM f <;> simp [bind, Except.bind, pure, Except.pure]
    | cons b bs =>
      simp only [List.map_cons, List.cons.injEq, ← ih]
      cases f a <;> cases l.mapM f <;> simp [bind, Except.bind, pure, Except.pure]

theorem mapM_isSome_iff {f : α → Option β} {l : List α} :
    (l.mapM f).isSome = true ↔ ∀ a ∈ l, (f a).isSome = true := by
  induction l with
  | nil => simp
  | cons a l ih =>
    rw [List.mapM_cons, List.forall_mem_cons, ← ih]
    cases f a <;> cases l.mapM f <;> simp

def lastFirst (l : List α) : List α := l.getLast?.toList ++ l.dropLast

theorem lastFirst_perm (l : List α) : (lastFirst l).Perm l := by
  obtain rfl | ⟨l', b, rfl⟩ := l.eq_nil_or_concat
  · exact .nil
  · rw [lastFirst, List.concat_eq_append, List.getLast?_concat, List.dropLast_concat]
    exact (List.perm_append_singleton b l').symm

theorem take_set_last {m last : α} (as bs : List α)
    (hlast : (as ++ m :: bs)[as.length + bs.length]? = some last) :
    ((as ++ m :: bs).set as.length last).take (as.length + bs.length) = as ++ lastFirst bs := by
  rw [List.set_append_right _ _ (Nat.le_refl _), Nat.sub_self, List.set_cons_zero, List.take_append,
    List.take_of_length_le (by omega), Nat.add_sub_cancel_left]
  congr 1
  obtain rfl | ⟨bs', b, rfl⟩ := bs.eq_nil_or_concat
  · rfl
  · rw [List.getElem?_append_right (by omega), Nat.add_sub_cancel_left] at hlast
    simp only [List.length_append, List.length_singleton, List.getElem?_cons_succ,
      List.concat_eq_append] at hlast
    rw [List.getElem?_append_right (Nat.le_refl _)] at hlast
    simp only [Nat.sub_self, List.getElem?_cons_zero, Option.some.injEq] at hlast
    subst hlast
    simp [lastFirst]

/-- In a sorted list the first match is the one on top of all matches. -/
theorem find?_eq_some_iff_top {R : α → α → Prop} {l : List α} {p : α → Bool} (hs : l.Pairwise R)
    (hrefl : ∀ a ∈ l, R a a) (hanti : ∀ a ∈ l, ∀ b ∈ l, R a b → R b a → a = b) :
    l.find? p = some a ↔ a ∈ l ∧ p a = true ∧ ∀ b ∈ l, p b = true → R a b := by
  induction l with
  | nil => simp
  | cons c l ih =>
    obtain ⟨hc, hs⟩ := List.pairwise_cons.mp hs
    have hmem : ∀ {b}, b ∈ l → b ∈ c :: l := List.mem_cons_of_mem c
    cases hp : p c with
    | true =>
      rw [List.find?_cons_of_pos hp, Option.some.injEq]
      constructor
      · rintro rfl
        refine ⟨List.mem_cons_self, hp, fun b hb _ => ?_⟩
        rcases List.mem_cons.mp hb with rfl | hb
        · exact hrefl _ List.mem_cons_self
        · exact hc b hb
      · rintro ⟨ha, -, htop⟩
        rcases List.mem_cons.mp ha with rfl | hal
        · rfl
        · exact hanti c List.mem_cons_self a ha (hc a hal) (htop c List.mem_cons_self hp)
    | false =>
      have hne : ∀ {b}, p b = true → b ≠ c := by
        rintro b hb rfl
        rw [hp] at hb
        cases hb
      rw [List.find?_cons_of_neg (by simp [hp]),
        ih hs (fun a ha => hrefl a (hmem ha)) fun a ha b hb => hanti a (hmem ha) b (hmem hb)]
      constructor
      · rintro ⟨ha, hpa, htop⟩
        refine ⟨hmem ha, hpa, fun b hb hpb => ?_⟩
        exact htop b ((List.mem_cons.mp hb).resolve_left (hne hpb)) hpb
      · rintro ⟨ha, hpa, htop⟩
        exact ⟨(List.mem_cons.mp ha).resolve_left (hne hpa), hpa, fun b hb => htop b (hmem hb)⟩

-- ---------------------------------------------------------------------------
-- Overlaps
-- ---------------------------------------------------------------------------

def Overlaps (s t : List α) : Prop := ∃ x, x ≠ [] ∧ x <:+ s ∧ x <+: t

/-- A list that begins with `s` and ends with `t` has room for both unless they
overlap in it. -/
theorem between_or_overlaps {s t l : List α} (hs : s <+: l) (ht : t <:+ l) :
    (∃ w, l = s ++ w ++ t) ∨ Overlaps s t := by
  obtain ⟨after, rfl⟩ := hs
  obtain ⟨before, h⟩ := ht
  rcases List.append_eq_append_iff.mp h with ⟨x, rfl, rfl⟩ | ⟨w, rfl, rfl⟩
  · by_cases hx : x = []
    · subst hx
      exact .inl ⟨[], by simp⟩
    · exact .inr ⟨x, hx, ⟨before, rfl⟩, ⟨after, rfl⟩⟩
  · exact .inl ⟨w, by simp⟩

theorem forall_between_iff (s t : List α) :
    (∀ l, s <+: l → t <:+ l → ∃ w, l = s ++ w ++ t) ↔ ¬ Overlaps s t := by
  constructor
  · rintro h ⟨x, hx, ⟨a, rfl⟩, ⟨b, rfl⟩⟩
    obtain ⟨w, hw⟩ := h (a ++ x ++ b) (List.prefix_append _ _) ⟨a, by simp⟩
    have hlen := congrArg List.length hw
    have hpos := List.length_pos_iff.mpr hx
    simp only [List.length_append] at hlen
    omega
  · intro h l hs ht
    exact (between_or_overlaps hs ht).resolve_right h

end BigipCtlr.Lib
