import Mathlib.Data.List.Basic

/-!
# Runs of a fallible step

`run` folds a partial step over a list of events; `none` is a step that does
not return. `Along` says that every step a run takes meets a condition on the
event and the state before it, `Throughout` that every step it tries does.
-/

namespace BigipCtlr.Lib

theorem bind_ok {x : Except ε α} {f : α → Except ε β} (h : (x >>= f) = .ok b) :
    ∃ a, x = .ok a ∧ f a = .ok b := by
  cases x with
  | error e => cases h
  | ok a => exact ⟨a, rfl, h⟩

theorem map_ok {x : Except ε α} {f : α → β} (h : x.map f = .ok b) : ∃ a, x = .ok a ∧ f a = b := by
  cases x with
  | error e => cases h
  | ok a => exact ⟨a, rfl, Except.ok.inj h⟩

theorem ok_of_toOption {x : Except ε α} (h : x.toOption = some a) : x = .ok a := by
  cases x with
  | error e => cases h
  | ok b =>
    cases h
    rfl

universe u v

variable {σ : Type u} {ε : Type v} {step : σ → ε → Option σ}

def run (step : σ → ε → Option σ) (s : σ) (es : List ε) : Option σ := es.foldlM step s

def Along (step : σ → ε → Option σ) (C : σ → ε → Prop) : σ → List ε → Prop
  | _, [] => True
  | s, e :: es => ∀ t ∈ step s e, C s e ∧ Along step C t es

instance decidableAlong (step : σ → ε → Option σ) (C : σ → ε → Prop) [∀ s e, Decidable (C s e)] :
    ∀ s es, Decidable (Along step C s es)
  | _, [] => inferInstanceAs (Decidable True)
  | s, e :: es =>
    have : ∀ t, Decidable (Along step C t es) := fun t => decidableAlong step C t es
    inferInstanceAs (Decidable (∀ t ∈ step s e, C s e ∧ Along step C t es))

@[simp] theorem run_nil : run step s [] = some s := rfl

theorem run_cons : run step s (e :: es) = (step s e).bind fun t => run step t es := rfl

theorem run_cons_eq_some :
    run step s (e :: es) = some u ↔ ∃ t, step s e = some t ∧ run step t es = some u := by
  rw [run_cons, Option.bind_eq_some_iff]

theorem run_append : run step s (es ++ fs) = (run step s es).bind fun t => run step t fs :=
  List.foldlM_append

theorem run_append_eq_some :
    run step s (es ++ fs) = some u ↔ ∃ t, run step s es = some t ∧ run step t fs = some u := by
  rw [run_append, Option.bind_eq_some_iff]

theorem run_idle (h : ∀ e ∈ es, step s e = some s) : run step s es = some s := by
  induction es with
  | nil => rfl
  | cons e es ih =>
    exact run_cons_eq_some.mpr ⟨s, h e List.mem_cons_self,
      ih fun f hf => h f (List.mem_cons_of_mem _ hf)⟩

theorem along_append (h : Along step C s (es ++ fs)) :
    Along step C s es ∧ ∀ t, run step s es = some t → Along step C t fs := by
  induction es generalizing s with
  | nil =>
    refine ⟨trivial, ?_⟩
    rintro t ⟨⟩
    exact h
  | cons e es ih =>
    refine ⟨fun t ht => ⟨(h t ht).1, (ih (h t ht).2).1⟩, ?_⟩
    intro u hu
    obtain ⟨t, ht, hr⟩ := run_cons_eq_some.mp hu
    exact (ih (h t ht).2).2 u hr

theorem along_at (h : Along step C s es) (hr : run step s es = some u) (hp : fs ++ [e] <+: es)
    (ht : run step s fs = some t) : C t e := by
  obtain ⟨gs, rfl⟩ := hp
  rw [List.append_assoc] at h hr
  obtain ⟨t', ht', hr⟩ := run_append_eq_some.mp hr
  rw [ht] at ht'
  cases ht'
  obtain ⟨v, hv, -⟩ := run_cons_eq_some.mp hr
  exact ((along_append h).2 t ht v hv).1

theorem along_mono {C D : σ → ε → Prop} (hCD : ∀ s e, C s e → D s e) (h : Along step C s es) :
    Along step D s es := by
  induction es generalizing s with
  | nil => trivial
  | cons e es ih => exact fun t ht => ⟨hCD _ _ (h t ht).1, ih (h t ht).2⟩

theorem along_and {C D : σ → ε → Prop} (h : Along step C s es) (h' : Along step D s es) :
    Along step (fun s e => C s e ∧ D s e) s es := by
  induction es generalizing s with
  | nil => trivial
  | cons e es ih => exact fun t ht => ⟨⟨(h t ht).1, (h' t ht).1⟩, ih (h t ht).2 (h' t ht).2⟩

/-- What every step that meets the condition keeps, a run keeps. -/
theorem run_invariant {C : σ → ε → Prop} {I : σ → Prop}
    (hstep : ∀ s t, ∀ e ∈ es, I s → C s e → step s e = some t → I t)
    (h : Along step C s es) (hs : I s) (hr : run step s es = some t) : I t := by
  induction es generalizing s with
  | nil =>
    cases hr
    exact hs
  | cons e es ih =>
    obtain ⟨u, hu, hr⟩ := run_cons_eq_some.mp hr
    obtain ⟨hC, htail⟩ := h u hu
    exact ih (fun s t e he => hstep s t e (List.mem_cons_of_mem _ he)) htail
      (hstep s u e List.mem_cons_self hs hC hu) hr

theorem along_of_forall {C : σ → ε → Prop} (h : ∀ e ∈ es, ∀ s, C s e) (s : σ) :
    Along step C s es := by
  induction es generalizing s with
  | nil => trivial
  | cons e es ih =>
    exact fun t _ => ⟨h e List.mem_cons_self s, ih (fun f hf => h f (List.mem_cons_of_mem _ hf)) t⟩

theorem run_invariant_mem {I : σ → Prop}
    (hstep : ∀ s t, ∀ e ∈ es, I s → step s e = some t → I t)
    (hs : I s) (hr : run step s es = some t) : I t :=
  run_invariant (fun s t e he hI _ => hstep s t e he hI)
    (along_of_forall (C := fun _ _ => True) (fun _ _ _ => trivial) s) hs hr

/-- A run makes no more of some steps than a measure allows that each of them
brings down and no other raises. -/
theorem run_countP_le {I : σ → Prop} {p : ε → Bool} {left : σ → Nat}
    (hstep : ∀ s t, ∀ e ∈ es, I s → step s e = some t →
      I t ∧ left t + (if p e then 1 else 0) ≤ left s)
    (hs : I s) (hr : run step s es = some t) : es.countP p + left t ≤ left s := by
  induction es generalizing s with
  | nil =>
    cases hr
    exact Nat.le_of_eq (Nat.zero_add _)
  | cons e es ih =>
    obtain ⟨u, hu, hr⟩ := run_cons_eq_some.mp hr
    obtain ⟨hI, hle⟩ := hstep s u e List.mem_cons_self hs hu
    have htail := ih (fun s t e he => hstep s t e (List.mem_cons_of_mem _ he)) hI hr
    rw [List.countP_cons]
    omega

/-- A run whose steps all return and follow a total step is followed by its
run. -/
theorem run_simulates {R : σ → α → Prop} {f : α → ε → α}
    (hstep : ∀ s a, ∀ e ∈ es, R s a → ∃ t, step s e = some t ∧ R t (f a e)) (hs : R s a) :
    ∃ t, run step s es = some t ∧ R t (es.foldl f a) := by
  induction es generalizing s a with
  | nil => exact ⟨s, rfl, hs⟩
  | cons e es ih =>
    obtain ⟨t, ht, hR⟩ := hstep s a e List.mem_cons_self hs
    obtain ⟨u, hu, hRu⟩ := ih (fun s a e he => hstep s a e (List.mem_cons_of_mem _ he)) hR
    exact ⟨u, run_cons_eq_some.mpr ⟨t, ht, hu⟩, hRu⟩

theorem run_returns {I : σ → Prop} (hstep : ∀ s, ∀ e ∈ es, I s → ∃ t, step s e = some t ∧ I t)
    (hs : I s) :
    ∃ t, run step s es = some t ∧ I t :=
  run_simulates (R := fun s (_ : Unit) => I s) (a := ()) (f := fun _ _ => ())
    (fun s _ => hstep s) hs

-- ---------------------------------------------------------------------------
-- Steps that need not return
-- ---------------------------------------------------------------------------

/-- The condition holds of every step that is tried, the one that does not
return included. -/
def Throughout (step : σ → ε → Option σ) (C : σ → ε → Prop) : σ → List ε → Prop
  | _, [] => True
  | s, e :: es => C s e ∧ ∀ t ∈ step s e, Throughout step C t es

instance decidableThroughout (step : σ → ε → Option σ) (C : σ → ε → Prop)
    [∀ s e, Decidable (C s e)] :
    ∀ s es, Decidable (Throughout step C s es)
  | _, [] => inferInstanceAs (Decidable True)
  | s, e :: es =>
    have : ∀ t, Decidable (Throughout step C t es) := fun t => decidableThroughout step C t es
    inferInstanceAs (Decidable (C s e ∧ ∀ t ∈ step s e, Throughout step C t es))

theorem throughout_of_forall {C : σ → ε → Prop} (h : ∀ s e, C s e) (s : σ) (es : List ε) :
    Throughout step C s es := by
  induction es generalizing s with
  | nil => trivial
  | cons e es ih => exact ⟨h s e, fun t _ => ih t⟩

/-- Two conditions that agree where an invariant holds agree throughout a run,
if a step that meets them keeps the invariant. -/
theorem throughout_iff {C D : σ → ε → Prop} {J : σ → Prop} (hCD : ∀ s e, J s → (C s e ↔ D s e))
    (hJ : ∀ s t e, J s → C s e → step s e = some t → J t) (hs : J s) (es : List ε) :
    Throughout step C s es ↔ Throughout step D s es := by
  induction es generalizing s with
  | nil => exact Iff.rfl
  | cons e es ih =>
    constructor
    · rintro ⟨hC, htail⟩
      exact ⟨(hCD s e hs).mp hC, fun t ht => (ih (hJ s t e hs hC ht)).mp (htail t ht)⟩
    · rintro ⟨hD, htail⟩
      have hC := (hCD s e hs).mpr hD
      exact ⟨hC, fun t ht => (ih (hJ s t e hs hC ht)).mpr (htail t ht)⟩

/-- A step that also keeps track of something. -/
def ghost (step : σ → ε → Option σ) (track : γ → ε → γ) : σ × γ → ε → Option (σ × γ) :=
  fun s e => (step s.1 e).map fun t => (t, track s.2 e)

theorem run_ghost {track : γ → ε → γ} :
    run (ghost step track) (s, g) es = (run step s es).map fun t => (t, es.foldl track g) := by
  induction es generalizing s g with
  | nil => rfl
  | cons e es ih =>
    rw [run_cons, run_cons, ghost]
    cases step s e with
    | none => rfl
    | some t => exact ih

/-- Where a step keeps `P` exactly when it meets `C`, the states of a run all
satisfy `P` exactly when its steps all meet `C`. -/
theorem forall_prefix_iff_along {C : σ → ε → Prop} {J P : σ → Prop}
    (hJ : ∀ s t, ∀ e ∈ es, J s → step s e = some t → J t)
    (hP : ∀ s t, ∀ e ∈ es, J s → P s → step s e = some t → (P t ↔ C s e)) (hs : J s) (hp : P s) :
    (∀ fs, fs <+: es → ∀ t, run step s fs = some t → P t) ↔ Along step C s es := by
  induction es generalizing s with
  | nil =>
    refine ⟨fun _ => trivial, ?_⟩
    intro _ fs hfs t ht
    rw [List.prefix_nil.mp hfs] at ht
    cases ht
    exact hp
  | cons e es ih =>
    have hmem : ∀ {f}, f ∈ es → f ∈ e :: es := List.mem_cons_of_mem _
    have hstep : ∀ t, step s e = some t → J t ∧ (P t ↔ C s e) := fun t ht =>
      ⟨hJ s t e List.mem_cons_self hs ht, hP s t e List.mem_cons_self hs hp ht⟩
    have hrest := fun t (ht : step s e = some t) (hpt : P t) =>
      ih (fun s t f hf => hJ s t f (hmem hf)) (fun s t f hf => hP s t f (hmem hf))
        (hstep t ht).1 hpt
    constructor
    · intro h t ht
      have hpt : P t := h [e] ⟨es, rfl⟩ t (run_cons_eq_some.mpr ⟨t, ht, rfl⟩)
      refine ⟨(hstep t ht).2.mp hpt, (hrest t ht hpt).mp ?_⟩
      intro fs hfs u hu
      exact h (e :: fs) (List.cons_prefix_cons.mpr ⟨rfl, hfs⟩) u (run_cons_eq_some.mpr ⟨t, ht, hu⟩)
    · intro h fs hfs u hu
      cases fs with
      | nil =>
        cases hu
        exact hp
      | cons f fs =>
        obtain ⟨rfl, htail⟩ := List.cons_prefix_cons.mp hfs
        obtain ⟨t, ht, hu⟩ := run_cons_eq_some.mp hu
        have hpt := (hstep t ht).2.mpr (h t ht).1
        exact (hrest t ht hpt).mpr (h t ht).2 fs htail u hu

end BigipCtlr.Lib
