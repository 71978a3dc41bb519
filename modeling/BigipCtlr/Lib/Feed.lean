import BigipCtlr.Lib.TaggedStore
import Mathlib.Data.Set.Insert

/-!
# A store that follows a stream of changes

A store with tags follows a server. It gets the changes of the server in their
order, but late, and is synced now and then with a list of all that the server
had at one moment. While the stream of changes lasts, a place that no change is
on its way for is as the server has it, once a list has been synced that was
read after the stream was opened; what was stored before that can stay.
-/

namespace BigipCtlr.Lib

inductive Change (ε : Type)
  | upsert (e : ε)
  | delete (e : ε)
  deriving DecidableEq

def Change.entry : Change ε → ε
  | .upsert e => e
  | .delete e => e

namespace Tagging

section
variable (m : Tagging ε κ τ)

def changed (has : κ → Prop) : Change ε → κ → Prop
  | .upsert e => fun k => k = m.place e ∨ has k
  | .delete e => fun k => k ≠ m.place e ∧ has k

theorem changed_of_ne (has : κ → Prop) (c : Change ε) (h : k ≠ m.place c.entry) :
    m.changed has c k ↔ has k := by
  cases c with
  | upsert e => exact or_iff_right h
  | delete e => exact and_iff_right h

def recorded (seen : Set (κ × τ)) : Change ε → Set (κ × τ)
  | .upsert e => insert (m.place e, m.tag e) seen
  | .delete _ => seen

theorem subset_recorded (seen : Set (κ × τ)) (c : Change ε) : seen ⊆ m.recorded seen c := by
  cases c with
  | upsert e => exact Set.subset_insert _ _
  | delete e => exact subset_rfl

def Ordered (seen : Set (κ × τ)) : Change ε → Prop
  | .upsert _ => True
  | .delete e => ∀ t, (m.place e, t) ∈ seen → m.drops t (m.tag e) = true

def Quiet (pending : List (Change ε)) (k : κ) : Prop := ∀ c ∈ pending, m.place c.entry ≠ k

def Announces (has : κ → Prop) (seen : Set (κ × τ)) (pending : List (Change ε)) : Prop :=
  ∀ pre c post, pending = pre ++ c :: post → m.Quiet post (m.place c.entry) →
    match c with
    | .upsert e => has (m.place e)
    | .delete e => ¬ has (m.place e) ∧ m.Ordered seen (.delete e)

/-- Where no change is on its way a list has what the server has. -/
structure Lists (has : κ → Prop) (seen : Set (κ × τ)) (pending : List (Change ε))
    (next : List ε) : Prop where
  places : ∀ k, m.Quiet pending k → ((∃ e ∈ next, m.place e = k) ↔ has k)
  tags : ∀ e ∈ next, (m.place e, m.tag e) ∈ seen

/-- The store follows the server; `stale` is what was stored when the stream
was opened, and `synced` says that a list has been synced since. -/
structure Follows (has : κ → Prop) (seen : Set (κ × τ)) (stale : κ → Prop) (synced : Prop)
    (pending : List (Change ε)) (S : κ → Option τ) : Prop where
  announces : m.Announces has seen pending
  tagged : ∀ k t, S k = some t → (k, t) ∈ seen
  covers : synced → ∀ k, m.Quiet pending k → has k → (S k).isSome = true
  bounded : ∀ k, m.Quiet pending k → (S k).isSome = true → has k ∨ stale k

end

section
variable {m : Tagging ε κ τ} {has : κ → Prop} {seen : Set (κ × τ)}
  {stale : κ → Prop} {synced : Prop}
  {pending : List (Change ε)} {S : κ → Option τ}

theorem quiet_concat : m.Quiet (pending ++ [c]) k ↔ m.Quiet pending k ∧ m.place c.entry ≠ k := by
  simp [Quiet, or_imp, forall_and]

theorem quiet_cons : m.Quiet (c :: pending) k ↔ m.place c.entry ≠ k ∧ m.Quiet pending k :=
  List.forall_mem_cons

theorem Announces.concat (h : m.Announces has seen pending) (hc : m.Ordered seen c) :
    m.Announces (m.changed has c) (m.recorded seen c) (pending ++ [c]) := by
  intro pre d post heq hquiet
  rcases List.eq_nil_or_concat post with rfl | ⟨post', x, rfl⟩
  · -- the last change of all is the new one
    obtain rfl : c = d := by simpa using (List.append_inj' heq rfl).2
    cases c with
    | upsert e => exact .inl rfl
    | delete e => exact ⟨fun hk => hk.1 rfl, hc⟩
  · rw [List.concat_eq_append, ← List.cons_append, ← List.append_assoc] at heq
    obtain ⟨hinit, hlast⟩ := List.append_inj' heq rfl
    obtain rfl : c = x := by simpa using hlast
    rw [List.concat_eq_append, quiet_concat] at hquiet
    have hd := h pre d post' hinit hquiet.1
    have hne : m.place d.entry ≠ m.place c.entry := Ne.symm hquiet.2
    cases d with
    | upsert e => exact (m.changed_of_ne has c hne).mpr hd
    | delete e =>
      refine ⟨fun hk => hd.1 ((m.changed_of_ne has c hne).mp hk), fun t ht => hd.2 t ?_⟩
      cases c with
      | upsert e' =>
        rcases ht with ht | ht
        · exact absurd (congrArg Prod.fst ht) hne
        · exact ht
      | delete e' => exact ht

theorem Follows.change (h : m.Follows has seen stale synced pending S) (hc : m.Ordered seen c) :
    m.Follows (m.changed has c) (m.recorded seen c) stale synced (pending ++ [c]) S := by
  refine ⟨h.announces.concat hc, fun k t ht => m.subset_recorded seen c (h.tagged k t ht),
    fun hs k hk hhas => ?_, fun k hk hS => ?_⟩
  · rw [quiet_concat] at hk
    exact h.covers hs k hk.1 ((m.changed_of_ne has c hk.2.symm).mp hhas)
  · rw [quiet_concat] at hk
    exact (h.bounded k hk.1 hS).imp_left (m.changed_of_ne has c hk.2.symm).mpr

theorem Lists.change (h : m.Lists has seen pending next) (c : Change ε) :
    m.Lists (m.changed has c) (m.recorded seen c) (pending ++ [c]) next := by
  refine ⟨fun k hk => ?_, fun e he => m.subset_recorded seen c (h.tags e he)⟩
  rw [quiet_concat] at hk
  rw [h.places k hk.1, m.changed_of_ne has c hk.2.symm]

theorem follows_nil (h : ∀ k t, S k = some t → (k, t) ∈ seen) :
    m.Follows has seen (fun k => (S k).isSome = true) False [] S where
  announces := fun pre c post heq => by simp at heq
  tagged := h
  covers := False.elim
  bounded := fun _ _ hS => .inr hS

/-- With nothing on its way the store has what the server has, and perhaps some
of what it had before. -/
theorem Follows.settled (h : m.Follows has seen stale synced [] S) (hs : synced) (k : κ) :
    (has k → (S k).isSome = true) ∧ ((S k).isSome = true → has k ∨ stale k) := by
  have hquiet : m.Quiet [] k := by simp [Quiet]
  exact ⟨h.covers hs k hquiet, h.bounded k hquiet⟩

variable [DecidableEq κ]

def apply (m : Tagging ε κ τ) (S : κ → Option τ) : Change ε → κ → Option τ
  | .upsert e => m.put S e
  | .delete e => m.drop S e

theorem apply_of_ne (m : Tagging ε κ τ) (S : κ → Option τ) (c : Change ε)
    (h : k ≠ m.place c.entry) : m.apply S c k = S k := by
  cases c with
  | upsert e => exact if_neg h
  | delete e => exact if_neg fun hk => h hk.1

theorem apply_tagged (h : ∀ k t, S k = some t → (k, t) ∈ seen)
    (hc : ∀ e, c = .upsert e → (m.place e, m.tag e) ∈ seen) (k : κ) (t : τ)
    (ht : m.apply S c k = some t) :
    (k, t) ∈ seen := by
  cases c with
  | upsert e =>
    rw [apply, put] at ht
    split at ht
    · next hk =>
      subst hk
      cases hS : S (m.place e) with
      | none =>
        rw [hS] at ht
        cases ht
        exact hc e rfl
      | some old =>
        rw [hS, Option.elim_some] at ht
        split at ht
        · cases ht
          exact hc e rfl
        · cases ht
          exact h _ _ hS
    · exact h k t ht
  | delete e =>
    rw [apply, drop] at ht
    split at ht
    · cases ht
    · exact h k t ht

theorem Follows.handle (h : m.Follows has seen stale synced (c :: pending) S)
    (hc : ∀ e, c = .upsert e → (m.place e, m.tag e) ∈ seen) :
    m.Follows has seen stale synced pending (m.apply S c) := by
  have hannounces : m.Announces has seen pending := by
    intro pre d post heq hquiet
    exact h.announces (c :: pre) d post (by rw [heq, List.cons_append]) hquiet
  refine ⟨hannounces, apply_tagged h.tagged hc, fun hs k hk hhas => ?_, fun k hk hS => ?_⟩
  all_goals by_cases hplace : k = m.place c.entry
  · -- the change was the last one about its place, and the server has it
    subst hplace
    have hlast := h.announces [] c pending rfl hk
    cases c with
    | upsert e => simp [apply, put, Change.entry]
    | delete e => exact absurd hhas hlast.1
  · rw [m.apply_of_ne S c hplace]
    exact h.covers hs k (quiet_cons.mpr ⟨Ne.symm hplace, hk⟩) hhas
  · subst hplace
    have hlast := h.announces [] c pending rfl hk
    cases c with
    | upsert e => exact .inl hlast
    | delete e =>
      -- it drops whatever is stored
      have hnone : m.apply S (.delete e) (m.place e) = none := by
        rw [apply, drop]
        cases hS' : S (m.place e) with
        | none => exact ite_self _
        | some t =>
          refine if_pos ⟨rfl, ?_⟩
          rw [Option.any_some]
          exact hlast.2 t (h.tagged _ _ hS')
      rw [Change.entry, hnone] at hS
      cases hS
  · rw [m.apply_of_ne S c hplace] at hS
    exact h.bounded k (quiet_cons.mpr ⟨Ne.symm hplace, hk⟩) hS

theorem foldl_put_tagged (h : ∀ k t, S k = some t → (k, t) ∈ seen) (es : List ε)
    (hes : ∀ e ∈ es, (m.place e, m.tag e) ∈ seen) (k : κ) (t : τ)
    (ht : es.foldl m.put S k = some t) :
    (k, t) ∈ seen := by
  induction es generalizing S with
  | nil => exact h k t ht
  | cons e es ih =>
    refine ih (S := m.put S e) (fun k t => apply_tagged (c := .upsert e) h ?_ k t)
      (fun f hf => hes f (List.mem_cons_of_mem _ hf)) ht
    rintro f hf
    cases hf
    exact hes e List.mem_cons_self

theorem sync_tagged {same : ε → ε → Bool} (h : ∀ k t, S k = some t → (k, t) ∈ seen)
    (hnext : ∀ e ∈ next, (m.place e, m.tag e) ∈ seen) (last : List ε) (k : κ) (t : τ)
    (ht : m.sync same last next S k = some t) : (k, t) ∈ seen := by
  refine foldl_put_tagged (fun k t ht => ?_) next hnext k t ht
  exact h k t ((m.foldl_drop_eq_some _ S k).mp ht).1

theorem Follows.sync {same : ε → ε → Bool} {synced' : Prop}
    (h : m.Follows has seen stale synced pending S) (hl : m.Lists has seen pending next)
    (last : List ε) :
    m.Follows has seen stale synced' pending (m.sync same last next S) := by
  refine ⟨h.announces, sync_tagged h.tagged hl.tags last, fun _ k hk hhas => ?_, fun k hk hS => ?_⟩
  · exact (m.foldl_put_isSome next _ k).mpr (.inr ((hl.places k hk).mpr hhas))
  · rcases (m.foldl_put_isSome next _ k).mp hS with hkept | hnext
    · obtain ⟨t, ht⟩ := Option.isSome_iff_exists.mp hkept
      refine h.bounded k hk ?_
      rw [((m.foldl_drop_eq_some _ S k).mp ht).1]
      rfl
    · exact .inl ((hl.places k hk).mp hnext)

end

end Tagging

end BigipCtlr.Lib
