import BigipCtlr.Lib.Run
import Mathlib.Order.Defs.PartialOrder

/-!
# Stores with tags

A store that keeps the tag of the last entry at each place. An older entry does
not replace a newer one, and does not drop it either. A bulk sync drops what
the last list had and the next one has not, and then puts the next one.

A system that keeps one such entry for the messages about it does not depend on
the order in which late and repeated ones come in (`Versioned`).
-/

namespace BigipCtlr.Lib

/-- Where an entry goes and which tag it has, and what a tag can do to the one
that is stored, which comes first. -/
structure Tagging (ε κ τ : Type) where
  place : ε → κ
  tag : ε → τ
  replaces : τ → τ → Bool
  drops : τ → τ → Bool

namespace Tagging

section
variable [DecidableEq κ] (m : Tagging ε κ τ)

def put (S : κ → Option τ) (e : ε) : κ → Option τ := fun k =>
  if k = m.place e then
    some ((S k).elim (m.tag e) fun t => if m.replaces t (m.tag e) then m.tag e else t)
  else S k

def drop (S : κ → Option τ) (e : ε) : κ → Option τ := fun k =>
  if k = m.place e ∧ (S k).any (m.drops · (m.tag e)) then none else S k

def missing (same : ε → ε → Bool) (last next : List ε) : List ε :=
  last.filter fun e => !next.any (same e)

def sync (same : ε → ε → Bool) (last next : List ε) (S : κ → Option τ) : κ → Option τ :=
  next.foldl m.put ((missing same last next).foldl m.drop S)

theorem foldl_put_isSome (es : List ε) (S : κ → Option τ) (k : κ) :
    (es.foldl m.put S k).isSome = true ↔ (S k).isSome = true ∨ ∃ e ∈ es, m.place e = k := by
  induction es generalizing S with
  | nil => simp
  | cons e es ih =>
    rw [List.foldl_cons, ih, List.exists_mem_cons_iff, ← or_assoc]
    refine or_congr_left ?_
    rw [put]
    split
    · next hk => simp [hk]
    · next hk => simp [Ne.symm hk]

theorem foldl_drop_eq_some (es : List ε) (S : κ → Option τ) (k : κ) :
    es.foldl m.drop S k = some t ↔ S k = some t ∧ ∀ e ∈ es, m.place e = k →
      m.drops t (m.tag e) = false := by
  induction es generalizing S with
  | nil => simp
  | cons e es ih =>
    rw [List.foldl_cons, ih, List.forall_mem_cons, ← and_assoc]
    refine and_congr_left' ?_
    rw [drop]
    split
    · next hk =>
      obtain ⟨rfl, hany⟩ := hk
      refine iff_of_false (by simp) ?_
      rintro ⟨ht, hkeep⟩
      rw [ht, Option.any_some, hkeep rfl] at hany
      cases hany
    · next hk =>
      refine ⟨fun ht => ⟨ht, fun hplace => ?_⟩, And.left⟩
      by_contra hdrop
      exact hk ⟨hplace.symm, by rw [ht, Option.any_some]; simpa using hdrop⟩

/-- After a sync a place is taken exactly when the next list has it, unless the
last list does not have what is stored there with a tag that drops it. -/
theorem sync_exact_iff {same : ε → ε → Bool}
    (hsame : ∀ a b, same a b = true → m.place a = m.place b) (last next : List ε)
    (S : κ → Option τ) (k : κ) :
    ((m.sync same last next S k).isSome = true ↔ ∃ e ∈ next, m.place e = k) ↔
      ∀ t, S k = some t → (∃ e ∈ next, m.place e = k) ∨ ∃ e ∈ last, m.place e = k ∧
        m.drops t (m.tag e) = true := by
  rw [sync, foldl_put_isSome, Option.isSome_iff_exists]
  simp only [foldl_drop_eq_some]
  by_cases hnext : ∃ e ∈ next, m.place e = k
  · simp [hnext]
  have hmissing : ∀ e ∈ last, m.place e = k → e ∈ missing same last next := by
    intro e he hk
    refine List.mem_filter.mpr ⟨he, ?_⟩
    rw [Bool.not_eq_true', List.any_eq_false]
    exact fun v hv hsv => hnext ⟨v, hv, (hsame e v hsv).symm.trans hk⟩
  simp only [hnext, or_false, iff_false, false_or, not_exists, not_and]
  refine forall_congr' fun t => imp_congr_right fun ht => ?_
  constructor
  · intro hall
    by_contra hno
    refine hall fun e he hk => ?_
    by_contra hdrop
    exact hno ⟨e, (List.mem_filter.mp he).1, hk, by simpa using hdrop⟩
  · rintro ⟨e, he, hk, hdrop⟩ hall
    rw [hall e (hmissing e he hk) hk] at hdrop
    cases hdrop

theorem put_sync_singleton {e e' : ε}
    (h : m.put (m.sync same [] [e] fun _ => none) e' k = some t) :
    m.place e' = k ∨ (m.place e = k ∧ t = m.tag e) := by
  by_cases hk : k = m.place e'
  · exact .inl hk.symm
  · rw [put, if_neg hk] at h
    by_cases hk' : k = m.place e
    · have ht : m.tag e = t := by simpa [sync, missing, put, hk'] using h
      exact .inr ⟨hk'.symm, ht.symm⟩
    · simp [sync, missing, put, hk'] at h

end

end Tagging

-- ---------------------------------------------------------------------------
-- Messages about one entry
-- ---------------------------------------------------------------------------

universe u v w

/-- A system that stores an entry with an index, and the messages that put or
drop the entry with theirs. -/
structure Versioned (σ : Type u) (ε : Type v) (ι : Type) (β : Type w) where
  step : σ → ε → Option σ
  stored : σ → Option ι
  /-- What can be seen of a state. -/
  view : σ → β
  puts : ε → ι → Prop
  drops : ε → ι → Prop

namespace Versioned

variable {σ : Type u} {ε : Type v} {ι : Type} {β : Type w} [Preorder ι]
  (V : Versioned σ ε ι β) {ok : ε → Prop}

/-- With an entry stored, a message that is too old returns and changes nothing,
and one that drops the entry and is not does so. -/
structure Orders (ok : ε → Prop) (s : σ) (i : ι) : Prop where
  stalePut : ∀ e j, ok e → V.puts e j → j ≤ i → ∃ t, V.step s e = some t ∧ V.view t = V.view s
  staleDrop : ∀ e j, ok e → V.drops e j → j < i → ∃ t, V.step s e = some t ∧ V.view t = V.view s
  drop : ∀ e j, ok e → V.drops e j → i ≤ j → ∃ t, V.step s e = some t ∧ V.stored t = none

def Grows (ok : ε → Prop) (s : σ) (i : ι) : Prop :=
  ∀ es, (∀ e ∈ es, ok e) → (∀ fs, fs <+: es → ∀ t, run V.step s fs = some t → V.stored t ≠ none) →
    ∀ t j, run V.step s es = some t → V.stored t = some j → i ≤ j

def StaleNeverWins (start : σ) (ok : ε → Prop) : Prop :=
  ∀ es, (∀ e ∈ es, ok e) → ∀ s, run V.step start es = some s →
    ∀ i, V.stored s = some i → V.Orders ok s i ∧ V.Grows ok s i

variable {V} {J : σ → Prop}

theorem grows_of_invariant
    (hstep : ∀ s t e, ok e → J s → V.step s e = some t →
      J t ∧ ∀ i j, V.stored s = some i → V.stored t = some j → i ≤ j)
    (hs : J s) (hi : V.stored s = some i) : V.Grows ok s i := by
  intro es hok hstay t j hrun hj
  induction es generalizing s i with
  | nil =>
    cases hrun
    rw [hi] at hj
    cases hj
    exact le_refl _
  | cons e es ih =>
    obtain ⟨u, hu, hrun⟩ := run_cons_eq_some.mp hrun
    obtain ⟨hJ, hle⟩ := hstep s u e (hok e List.mem_cons_self) hs hu
    obtain ⟨k, hk⟩ := Option.ne_none_iff_exists'.mp
      (hstay [e] ⟨es, rfl⟩ u (run_cons_eq_some.mpr ⟨u, hu, rfl⟩))
    refine le_trans (hle i k hi hk)
      (ih hJ hk (fun f hf => hok f (List.mem_cons_of_mem _ hf)) ?_ hrun)
    intro fs hfs w hw
    exact hstay (e :: fs) (List.cons_prefix_cons.mpr ⟨rfl, hfs⟩) w
      (run_cons_eq_some.mpr ⟨u, hu, hw⟩)

theorem staleNeverWins_of_invariant (hstart : J start)
    (hstep : ∀ s t e, ok e → J s → V.step s e = some t →
      J t ∧ ∀ i j, V.stored s = some i → V.stored t = some j → i ≤ j)
    (horders : ∀ s i, J s → V.stored s = some i → V.Orders ok s i) : V.StaleNeverWins start ok := by
  intro es hok s hrun i hi
  have hs : J s :=
    run_invariant_mem (fun s t e he hJ ht => (hstep s t e (hok e he) hJ ht).1) hstart hrun
  exact ⟨horders s i hs hi, grows_of_invariant hstep hs hi⟩

end Versioned

end BigipCtlr.Lib
