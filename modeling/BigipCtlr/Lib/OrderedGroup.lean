import BigipCtlr.Lib.Run
import Mathlib.Algebra.Order.BigOperators.Group.List
import Mathlib.Algebra.Order.Group.Nat
import Mathlib.Algebra.Ring.Nat
import Mathlib.Data.List.Nodup

/-!
# Ordered groups of processes

Processes that are started one after the other, each when the one before is
ready, and stopped in the reverse order, each when the one after has returned.
A signal or the return of a process ends the start, or the wait after it.
-/

namespace BigipCtlr.Lib

open scoped List

-- ---------------------------------------------------------------------------
-- One element before another
-- ---------------------------------------------------------------------------

theorem pair_sublist_concat {l : List α} (h : [a, b] <+ l ++ [m]) :
    [a, b] <+ l ∨ (a ∈ l ∧ b = m) := by
  obtain ⟨l₁, l₂, heq, h₁, h₂⟩ := List.sublist_append_iff.mp h
  cases l₁ with
  | nil =>
    have hlen := h₂.length_le
    rw [← List.nil_append l₂, ← heq] at hlen
    cases Nat.lt_irrefl _ hlen
  | cons x l₁ =>
    rw [List.cons_append, List.cons.injEq] at heq
    obtain ⟨rfl, htail⟩ := heq
    cases l₁ with
    | nil =>
      rw [List.nil_append] at htail
      subst htail
      exact .inr ⟨List.singleton_sublist.mp h₁,
        List.mem_singleton.mp (List.singleton_sublist.mp h₂)⟩
    | cons y l₁ =>
      rw [List.cons_append, List.cons.injEq] at htail
      obtain ⟨rfl, -⟩ := htail
      exact .inl
        ((List.cons_sublist_cons.mpr (List.cons_sublist_cons.mpr (List.nil_sublist _))).trans h₁)

theorem pair_sublist_right {l gone : List α} (hnd : (l ++ gone).Nodup) (ha : a ∈ gone)
    (h : [a, b] <+ l ++ gone) :
    [a, b] <+ gone := by
  obtain ⟨l₁, l₂, heq, h₁, h₂⟩ := List.sublist_append_iff.mp h
  cases l₁ with
  | nil =>
    rw [List.nil_append] at heq
    exact heq ▸ h₂
  | cons x l₁ =>
    obtain ⟨rfl, -⟩ := List.cons.inj heq
    exact absurd ha ((List.nodup_append'.mp hnd).2.2 (h₁.subset List.mem_cons_self))

theorem pair_sublist_left {l rest : List α} (hnd : (l ++ rest).Nodup) (hb : b ∈ l)
    (h : [a, b] <+ l ++ rest) :
    [a, b] <+ l := by
  obtain ⟨l₁, l₂, heq, h₁, h₂⟩ := List.sublist_append_iff.mp h
  have hnot : b ∉ l₂ := fun hb₂ => (List.nodup_append'.mp hnd).2.2 hb (h₂.subset hb₂)
  have hlast : l₂ = [] := by
    rcases l₂.eq_nil_or_concat with hnil | ⟨l, x, hx⟩
    · exact hnil
    · rw [hx, List.concat_eq_append, ← List.append_assoc] at heq
      have hxb : b = x := by
        have := congrArg List.getLast? heq
        simpa using this
      exact absurd (by rw [hx, hxb]; simp) hnot
  rw [hlast, List.append_nil] at heq
  exact heq ▸ h₁

-- ---------------------------------------------------------------------------
-- Groups
-- ---------------------------------------------------------------------------

/-- `exited` tells whether the process has returned, and with an error. -/
structure Proc where
  ready : Bool
  signalled : Bool
  exited : Option Bool
  deriving DecidableEq

def Proc.new : Proc := ⟨false, false, none⟩

/-- While it stops a group has the members left to stop, the next one first, and
has signalled that one or not. -/
inductive GroupPhase (M : Type)
  | starting
  | waiting
  | stopping (todo : List M) (awaited : Bool)
  | done
  deriving DecidableEq

/-- `trace` has the members whose return the group has seen. -/
structure OrderedGroup (M : Type) where
  pending : List M
  started : List M
  proc : M → Proc
  phase : GroupPhase M
  trace : List (M × Bool)

inductive GroupEvent (M : Type)
  | ready (m : M)
  | exit (m : M) (err : Bool)
  | launch
  | notice (m : M)
  | signal
  | stop
  | reap

namespace OrderedGroup

variable {M : Type}

def new (members : List M) : OrderedGroup M := ⟨members, [], fun _ => .new, .starting, []⟩

def selects (g : OrderedGroup M) : Bool :=
  match g.phase with
  | .starting => !g.started.isEmpty
  | .waiting => true
  | .stopping _ _ | .done => false

def stops (g : OrderedGroup M) : Bool :=
  match g.phase with
  | .starting | .waiting => false
  | .stopping _ _ | .done => true

def procLeft (p : Proc) : Nat := if p.exited.isSome then 0 else if p.ready then 1 else 2

def phaseLeft : GroupPhase M → Nat
  | .starting | .waiting | .done => 0
  | .stopping todo awaited => 2 * todo.length + if awaited then 0 else 1

def left (g : OrderedGroup M) : Nat :=
  (g.started.map fun m => procLeft (g.proc m)).sum + phaseLeft g.phase

def ends : GroupEvent M → Bool
  | .ready _ | .exit _ _ | .stop | .reap => true
  | .launch | .notice _ | .signal => false

section
variable [DecidableEq M]

def set (g : OrderedGroup M) (m : M) (p : Proc) : OrderedGroup M :=
  { g with proc := Function.update g.proc m p }

def step (g : OrderedGroup M) : GroupEvent M → Option (OrderedGroup M)
  | .ready m =>
    if m ∈ g.started ∧ (g.proc m).ready = false ∧ (g.proc m).exited = none then
      some (g.set m { g.proc m with ready := true })
    else none
  | .exit m err =>
    if m ∈ g.started ∧ (g.proc m).exited = none then
      some (g.set m { g.proc m with exited := some err }) else none
  | .launch =>
    if g.phase = .starting ∧ ∀ m ∈ g.started.getLast?, (g.proc m).ready = true then
      match g.pending with
      | [] => some { g with phase := .waiting }
      | m :: rest => some { g with pending := rest, started := g.started ++ [m] }
    else none
  | .notice m =>
    match (g.proc m).exited with
    | none => none
    | some err =>
      -- the member that starts is taken to have returned an error
      if g.selects = true ∧ m ∈ g.started ∧
        (g.phase = .starting → g.started.getLast? = some m → err = true) then
        some { g with phase := .stopping g.started.reverse false, trace := [(m, err)] }
      else none
  | .signal =>
    match g.phase with
    -- it is passed on to the member that is awaited, which has one
    | .stopping _ true => some g
    | _ => if g.selects then some { g with phase := .stopping g.started.reverse false } else none
  | .stop =>
    match g.phase with
    | .stopping [] false => some { g with phase := .done }
    | .stopping (m :: todo) false =>
      if m ∈ g.trace.map Prod.fst then some { g with phase := .stopping todo false }
      else some { g.set m { g.proc m with signalled := true } with
        phase := .stopping (m :: todo) true }
    | _ => none
  | .reap =>
    match g.phase with
    | .stopping (m :: todo) true =>
      (g.proc m).exited.map fun err =>
        { g with phase := .stopping todo false, trace := g.trace ++ [(m, err)] }
    | _ => none

end

-- ---------------------------------------------------------------------------
-- The invariant
-- ---------------------------------------------------------------------------

/-- What is known in each phase: before the stop nobody is signalled; during it,
who is not left to stop has returned, and only the next one is signalled. -/
def PhaseSound (g : OrderedGroup M) : Prop :=
  match g.phase with
  | .starting | .waiting => (∀ m, (g.proc m).signalled = false) ∧ g.trace = []
  | .stopping todo awaited =>
      (∃ gone, g.started = todo.reverse ++ gone ∧ ∀ m ∈ gone, ∃ err, (m, err) ∈ g.trace) ∧
      (∀ m ∈ todo, (g.proc m).signalled = true → awaited = true ∧ todo.head? = some m) ∧
      (awaited = true → ∃ m rest, todo = m :: rest ∧ (g.proc m).signalled = true)
  | .done => ∀ m ∈ g.started, ∃ err, (m, err) ∈ g.trace

structure Sound (members : List M) (g : OrderedGroup M) : Prop where
  order : members = g.started ++ g.pending
  fresh : ∀ m, m ∉ g.started → g.proc m = .new
  readied : ∀ a b, [a, b] <+ g.started → (g.proc a).ready = true
  trace : ∀ x ∈ g.trace, (g.proc x.1).exited = some x.2
  phase : g.PhaseSound

section
variable {members : List M} {g g' : OrderedGroup M}

theorem sound_new (members : List M) : (new members).Sound members where
  order := rfl
  fresh _ _ := rfl
  readied a b h := by cases h
  trace x hx := by cases hx
  phase := ⟨fun _ => rfl, rfl⟩

/-- A member that is signalled is followed by ones that have returned. -/
theorem Sound.exited_of_signalled (h : g.Sound members) (hnd : members.Nodup)
    (hab : [a, b] <+ g.started) (ha : (g.proc a).signalled = true) :
    (g.proc b).exited.isSome = true := by
  have hseen : ∀ m, (∃ err, (m, err) ∈ g.trace) → (g.proc m).exited.isSome = true := by
    rintro m ⟨err, hm⟩
    rw [h.trace _ hm]
    rfl
  have hnd : g.started.Nodup := by
    rw [h.order] at hnd
    exact (List.nodup_append'.mp hnd).1
  have hphase := h.phase
  rw [PhaseSound] at hphase
  split at hphase
  · rw [hphase.1 a] at ha
    cases ha
  · rw [hphase.1 a] at ha
    cases ha
  · obtain ⟨⟨gone, hstarted, hgone⟩, hnext, -⟩ := hphase
    rw [hstarted] at hab hnd
    have hmem : a ∈ _ ++ gone := hab.subset List.mem_cons_self
    refine hseen b (hgone b ?_)
    rcases List.mem_append.mp hmem with htodo | hgone'
    · obtain ⟨-, hhead⟩ := hnext a (List.mem_reverse.mp htodo) ha
      obtain ⟨rest, rfl⟩ := List.head?_eq_some_iff.mp hhead
      rw [List.reverse_cons, List.append_assoc] at hab hnd
      have hpair := pair_sublist_right hnd List.mem_cons_self hab
      exact List.singleton_sublist.mp (List.cons_sublist_cons.mp hpair)
    · exact (pair_sublist_right hnd hgone' hab).subset (by simp)
  · exact hseen b (hphase b (hab.subset (by simp)))

theorem Sound.pair (h : g.Sound members) (hnd : members.Nodup) (hab : [a, b] <+ members)
    (hb : b ∈ g.started) :
    [a, b] <+ g.started := by
  rw [h.order] at hab hnd
  exact pair_sublist_left hnd hb hab

theorem Sound.exited_of_done (h : g.Sound members) (hdone : g.phase = .done) (hm : m ∈ g.started) :
    ∃ err, (m, err) ∈ g.trace ∧ (g.proc m).exited = some err := by
  have hphase := h.phase
  simp only [PhaseSound, hdone] at hphase
  obtain ⟨err, herr⟩ := hphase m hm
  exact ⟨err, herr, h.trace _ herr⟩

theorem Sound.mem_started (h : g.Sound members) (hm : g.proc m ≠ .new) : m ∈ g.started := by
  by_contra hnot
  exact hm (h.fresh m hnot)

theorem selects_of_stops (h : g.stops = true) : g.selects = false := by
  rw [stops] at h
  rw [selects]
  split at h
  · cases h
  · cases h
  · rfl
  · rfl

section
variable [DecidableEq M]

theorem Sound.set_kept (h : g.Sound members) (hm : m ∈ g.started) {p : Proc}
    (hready : (g.proc m).ready = true → p.ready = true)
    (hexit : ∀ err, (g.proc m).exited = some err → p.exited = some err) :
    (∀ n, n ∉ g.started → (g.set m p).proc n = .new) ∧
    (∀ a b, [a, b] <+ g.started → ((g.set m p).proc a).ready = true) ∧
    ∀ x ∈ g.trace, ((g.set m p).proc x.1).exited = some x.2 := by
  refine ⟨fun n hn => ?_, fun a b hab => ?_, fun x hx => ?_⟩
  · have hne : n ≠ m := fun heq => hn (heq ▸ hm)
    exact (Function.update_of_ne hne p g.proc).trans (h.fresh n hn)
  · have hold := h.readied a b hab
    by_cases ha : a = m
    · subst ha
      simpa [OrderedGroup.set] using hready hold
    · simpa [OrderedGroup.set, Function.update_of_ne ha] using hold
  · have hold := h.trace x hx
    by_cases hn : x.1 = m
    · simpa [OrderedGroup.set, hn] using hexit _ (hn ▸ hold)
    · simpa [OrderedGroup.set, Function.update_of_ne hn] using hold

theorem Sound.set (h : g.Sound members) (hm : m ∈ g.started) {p : Proc}
    (hready : (g.proc m).ready = true → p.ready = true)
    (hsignal : p.signalled = (g.proc m).signalled)
    (hexit : ∀ err, (g.proc m).exited = some err → p.exited = some err) :
    (g.set m p).Sound members := by
  obtain ⟨hfresh, hreadied, htrace⟩ := h.set_kept hm hready hexit
  have hsignalled : ∀ n, ((g.set m p).proc n).signalled = (g.proc n).signalled := by
    intro n
    by_cases hn : n = m
    · subst hn
      simpa [OrderedGroup.set] using hsignal
    · simp [OrderedGroup.set, Function.update_of_ne hn]
  refine ⟨h.order, hfresh, hreadied, htrace, ?_⟩
  have hphase := h.phase
  have hp : (g.set m p).phase = g.phase := rfl
  have ht : (g.set m p).trace = g.trace := rfl
  have hs : (g.set m p).started = g.started := rfl
  simp only [PhaseSound, hp, ht, hs, hsignalled] at hphase ⊢
  exact hphase

theorem step_proc (hstep : g.step e = some g') (n : M) :
    ((g'.proc n).ready = true ↔ (g.proc n).ready = true ∨ e = .ready n) ∧
    (∀ err, (g'.proc n).exited = some err ↔ (g.proc n).exited = some err ∨ e = .exit n err) ∧
    ((g.proc n).signalled = true → (g'.proc n).signalled = true) := by
  cases e with
  | ready m =>
    simp only [OrderedGroup.step, Option.ite_none_right_eq_some, Option.some.injEq] at hstep
    obtain ⟨-, rfl⟩ := hstep
    by_cases hn : n = m
    · subst hn
      simp [OrderedGroup.set]
    · have hne : ¬ m = n := fun h => hn h.symm
      simp [OrderedGroup.set, Function.update_of_ne hn, hne]
  | exit m err =>
    simp only [OrderedGroup.step, Option.ite_none_right_eq_some, Option.some.injEq] at hstep
    obtain ⟨⟨-, hnone⟩, rfl⟩ := hstep
    by_cases hn : n = m
    · subst hn
      simp [OrderedGroup.set, hnone]
    · have hne : ¬ m = n := fun h => hn h.symm
      simp [OrderedGroup.set, Function.update_of_ne hn, hne]
  | launch =>
    simp only [OrderedGroup.step, Option.ite_none_right_eq_some] at hstep
    obtain ⟨-, hstep⟩ := hstep
    split at hstep
    · cases hstep
      simp
    · cases hstep
      simp
  | notice m =>
    simp only [OrderedGroup.step] at hstep
    split at hstep
    · cases hstep
    · simp only [Option.ite_none_right_eq_some, Option.some.injEq] at hstep
      obtain ⟨-, rfl⟩ := hstep
      simp
  | signal =>
    simp only [OrderedGroup.step] at hstep
    split at hstep
    · cases hstep
      simp
    · obtain ⟨-, hstep⟩ := Option.ite_none_right_eq_some.mp hstep
      cases hstep
      simp
  | stop =>
    simp only [OrderedGroup.step] at hstep
    split at hstep
    · cases hstep
      simp
    · next m todo hp =>
      split at hstep
      · cases hstep
        simp
      · cases hstep
        by_cases hn : n = m
        · subst hn
          simp [OrderedGroup.set]
        · simp [OrderedGroup.set, Function.update_of_ne hn]
    · cases hstep
  | reap =>
    simp only [OrderedGroup.step] at hstep
    split at hstep
    · obtain ⟨err, -, rfl⟩ := Option.map_eq_some_iff.mp hstep
      simp
    · cases hstep

theorem Sound.step (h : g.Sound members) (hnd : members.Nodup) (hstep : g.step e = some g') :
    g'.Sound members := by
  have hphase := h.phase
  rw [PhaseSound] at hphase
  -- what a signal and a return lead to
  have hstop : g.selects = true → ∀ trace, (∀ x ∈ trace, (g.proc x.1).exited = some x.2) →
      Sound members { g with phase := .stopping g.started.reverse false, trace := trace } := by
    intro hsel trace htrace
    have hnone : ∀ m, (g.proc m).signalled = false := by
      rw [selects] at hsel
      split at hsel
      · next hp =>
        rw [hp] at hphase
        exact hphase.1
      · next hp =>
        rw [hp] at hphase
        exact hphase.1
      · cases hsel
      · cases hsel
    refine ⟨h.order, h.fresh, h.readied, htrace, ⟨[], by simp, by simp⟩, fun m _ hs => ?_, by simp⟩
    rw [hnone m] at hs
    cases hs
  cases e with
  | ready m =>
    simp only [OrderedGroup.step, Option.ite_none_right_eq_some, Option.some.injEq] at hstep
    obtain ⟨⟨hm, -, -⟩, rfl⟩ := hstep
    exact h.set hm (fun _ => rfl) rfl fun _ => id
  | exit m err =>
    simp only [OrderedGroup.step, Option.ite_none_right_eq_some, Option.some.injEq] at hstep
    obtain ⟨⟨hm, hnone⟩, rfl⟩ := hstep
    refine h.set hm id rfl fun err' herr' => ?_
    rw [hnone] at herr'
    cases herr'
  | launch =>
    simp only [OrderedGroup.step, Option.ite_none_right_eq_some] at hstep
    obtain ⟨⟨hp, hlast⟩, hstep⟩ := hstep
    rw [hp] at hphase
    split at hstep
    · cases hstep
      exact ⟨h.order, h.fresh, h.readied, h.trace, hphase⟩
    · next m rest hpending =>
      cases hstep
      refine ⟨?_, fun n hn => h.fresh n fun hmem => hn (List.mem_append_left _ hmem),
        fun a b hab => ?_, h.trace, ?_⟩
      · rw [h.order, hpending, List.append_assoc]
        rfl
      · rcases pair_sublist_concat hab with hab | ⟨ha, -⟩
        · exact h.readied a b hab
        · -- the last one is ready, and so are those before it
          obtain ⟨l, z, hz⟩ :=
            List.eq_nil_or_concat g.started |>.resolve_left (List.ne_nil_of_mem ha)
          rw [List.concat_eq_append] at hz
          rw [hz] at ha
          rcases List.mem_append.mp ha with hl | hl
          · refine h.readied a z ?_
            rw [hz]
            exact (List.singleton_sublist.mpr hl).append (List.Sublist.refl [z])
          · rw [List.mem_singleton.mp hl]
            exact hlast z (by rw [hz]; simp)
      · rw [PhaseSound]
        simp only [hp]
        exact hphase
  | notice m =>
    simp only [OrderedGroup.step] at hstep
    split at hstep
    · cases hstep
    · next err herr =>
      simp only [Option.ite_none_right_eq_some, Option.some.injEq] at hstep
      obtain ⟨⟨hsel, -, -⟩, rfl⟩ := hstep
      refine hstop hsel [(m, err)] fun x hx => ?_
      rw [List.mem_singleton.mp hx]
      exact herr
  | signal =>
    simp only [OrderedGroup.step] at hstep
    split at hstep
    · cases hstep
      exact h
    · obtain ⟨hsel, hstep⟩ := Option.ite_none_right_eq_some.mp hstep
      cases hstep
      exact hstop hsel g.trace h.trace
  | stop =>
    simp only [OrderedGroup.step] at hstep
    split at hstep
    · next hp =>
      cases hstep
      rw [hp] at hphase
      obtain ⟨⟨gone, hstarted, hgone⟩, -, -⟩ := hphase
      refine ⟨h.order, h.fresh, h.readied, h.trace, fun m hm => hgone m ?_⟩
      dsimp only at hm
      rw [hstarted] at hm
      simpa using hm
    · next m todo hp =>
      rw [hp] at hphase
      obtain ⟨⟨gone, hstarted, hgone⟩, hnext, -⟩ := hphase
      split at hstep
      · next hseen =>
        cases hstep
        refine ⟨h.order, h.fresh, h.readied, h.trace, ⟨m :: gone, ?_, fun n hn => ?_⟩,
          fun n hn hs => ?_, by simp⟩
        · rw [hstarted, List.reverse_cons, List.append_assoc]
          rfl
        · rcases List.mem_cons.mp hn with rfl | hn
          · obtain ⟨⟨n, err⟩, hmem, rfl⟩ := List.mem_map.mp hseen
            exact ⟨err, hmem⟩
          · exact hgone n hn
        · exact absurd (hnext n (List.mem_cons_of_mem _ hn) hs).1 (by simp)
      · cases hstep
        have hm : m ∈ g.started := by
          rw [hstarted]
          simp
        obtain ⟨hfresh, hreadied, htrace⟩ :=
          h.set_kept hm (p := { g.proc m with signalled := true }) id fun _ => id
        refine ⟨h.order, hfresh, hreadied, htrace, ⟨gone, hstarted, hgone⟩, fun n hn hs => ?_,
          fun _ => ⟨m, todo, rfl, by simp [OrderedGroup.set]⟩⟩
        · refine ⟨rfl, ?_⟩
          by_cases hn' : n = m
          · rw [hn']
            rfl
          · simp only [OrderedGroup.set, Function.update_of_ne hn'] at hs
            exact absurd (hnext n hn hs).1 (by simp)
    · cases hstep
  | reap =>
    simp only [OrderedGroup.step] at hstep
    split at hstep
    · next m todo hp =>
      rw [hp] at hphase
      obtain ⟨⟨gone, hstarted, hgone⟩, hnext, -⟩ := hphase
      obtain ⟨err, herr, rfl⟩ := Option.map_eq_some_iff.mp hstep
      refine ⟨h.order, h.fresh, h.readied, fun x hx => ?_, ⟨m :: gone, ?_, fun n hn => ?_⟩,
        fun n hn hs => ?_, by simp⟩
      · rcases List.mem_append.mp hx with hx | hx
        · exact h.trace x hx
        · rw [List.mem_singleton.mp hx]
          exact herr
      · rw [hstarted, List.reverse_cons, List.append_assoc]
        rfl
      · rcases List.mem_cons.mp hn with rfl | hn
        · exact ⟨err, by simp⟩
        · obtain ⟨err', herr'⟩ := hgone n hn
          exact ⟨err', List.mem_append_left _ herr'⟩
      · -- only the one that was awaited was signalled
        obtain ⟨-, hhead⟩ := hnext n (List.mem_cons_of_mem _ hn) hs
        have heq : m = n := Option.some.inj hhead
        rw [h.order, hstarted, List.reverse_cons] at hnd
        simp only [List.append_assoc, List.nodup_append', List.mem_reverse,
          List.disjoint_left] at hnd
        exact absurd (heq ▸ List.mem_cons_self) (hnd.2.2 hn)
    · cases hstep

-- ---------------------------------------------------------------------------
-- The stop ends
-- ---------------------------------------------------------------------------

theorem left_set_lt (hm : m ∈ g.started) {p : Proc} (hp : procLeft p < procLeft (g.proc m)) :
    (g.set m p).left < g.left := by
  refine Nat.add_lt_add_right (List.sum_lt_sum _ _ (fun n _ => ?_) ⟨m, hm, ?_⟩) _
  · by_cases hn : n = m
    · subst hn
      simpa [OrderedGroup.set] using Nat.le_of_lt hp
    · simp [OrderedGroup.set, Function.update_of_ne hn]
  · simpa [OrderedGroup.set] using hp

theorem left_set_signalled :
    ((g.set m { g.proc m with signalled := true }).started.map fun n =>
      procLeft ((g.set m { g.proc m with signalled := true }).proc n)) = g.started.map fun n =>
    procLeft (g.proc n) := by
  refine List.map_congr_left fun n _ => ?_
  by_cases hn : n = m
  · subst hn
    simp [OrderedGroup.set, procLeft]
  · simp [OrderedGroup.set, Function.update_of_ne hn]

/-- Once the members are being stopped, what they and the group do takes the
stop on. -/
theorem left_step (hs : g.stops = true) (hstep : g.step e = some g') :
    g'.stops = true ∧ g'.left + (if ends e then 1 else 0) ≤ g.left := by
  have hsel := selects_of_stops hs
  cases e with
  | ready m =>
    simp only [OrderedGroup.step, Option.ite_none_right_eq_some, Option.some.injEq] at hstep
    obtain ⟨⟨hm, hready, hexit⟩, rfl⟩ := hstep
    exact ⟨hs, left_set_lt hm (by simp [procLeft, hready, hexit])⟩
  | exit m err =>
    simp only [OrderedGroup.step, Option.ite_none_right_eq_some, Option.some.injEq] at hstep
    obtain ⟨⟨hm, hexit⟩, rfl⟩ := hstep
    refine ⟨hs, left_set_lt hm ?_⟩
    simp only [procLeft, hexit, Option.isSome_some, Option.isSome_none, if_true,
      Bool.false_eq_true, if_false]
    split <;> decide
  | launch =>
    simp only [OrderedGroup.step, Option.ite_none_right_eq_some] at hstep
    rw [stops, hstep.1.1] at hs
    cases hs
  | notice m =>
    simp only [OrderedGroup.step] at hstep
    split at hstep
    · cases hstep
    · rw [if_neg fun h => by rw [hsel] at h; cases h.1] at hstep
      cases hstep
  | signal =>
    simp only [OrderedGroup.step] at hstep
    split at hstep
    · cases hstep
      exact ⟨hs, Nat.le_refl _⟩
    · rw [hsel] at hstep
      cases hstep
  | stop =>
    simp only [OrderedGroup.step] at hstep
    split at hstep
    · next hp =>
      cases hstep
      exact ⟨rfl, by simp [left, hp, phaseLeft, ends]⟩
    · next m todo hp =>
      split at hstep
      · cases hstep
        refine ⟨rfl, ?_⟩
        simp only [left, hp, phaseLeft, ends, List.length_cons, if_true,
          Bool.false_eq_true, if_false]
        omega
      · cases hstep
        refine ⟨rfl, ?_⟩
        simp only [left, hp, phaseLeft, ends, if_true, Bool.false_eq_true, if_false]
        rw [left_set_signalled]
        omega
    · cases hstep
  | reap =>
    simp only [OrderedGroup.step] at hstep
    split at hstep
    · next m todo hp =>
      obtain ⟨err, -, rfl⟩ := Option.map_eq_some_iff.mp hstep
      refine ⟨rfl, ?_⟩
      simp only [left, hp, phaseLeft, ends, List.length_cons, if_true, Bool.false_eq_true, if_false]
      omega
    · cases hstep

theorem Sound.awaits (h : g.Sound members) (hs : g.stops = true) (hdone : g.phase ≠ .done) :
    (∃ g', g.step .stop = some g') ∨ (∃ g', g.step .reap = some g') ∨
      ∃ m ∈ g.started, (g.proc m).signalled = true ∧ (g.proc m).exited = none := by
  have hphase := h.phase
  rw [PhaseSound] at hphase
  rw [stops] at hs
  split at hs
  · cases hs
  · cases hs
  · next todo awaited hp =>
    rw [hp] at hphase
    obtain ⟨⟨gone, hstarted, -⟩, -, hawaited⟩ := hphase
    cases awaited with
    | false =>
      refine .inl ?_
      simp only [OrderedGroup.step, hp]
      cases todo with
      | nil => exact ⟨_, rfl⟩
      | cons m todo =>
        dsimp only
        split
        · exact ⟨_, rfl⟩
        · exact ⟨_, rfl⟩
    | true =>
      obtain ⟨m, rest, rfl, hsignalled⟩ := hawaited rfl
      cases hexit : (g.proc m).exited with
      | some err =>
        refine .inr (.inl ?_)
        simp only [OrderedGroup.step, hp, hexit]
        exact ⟨_, rfl⟩
      | none =>
        refine .inr (.inr ⟨m, ?_, hsignalled, hexit⟩)
        rw [hstarted]
        simp
  · next hp => exact absurd hp hdone

end

end

end OrderedGroup

end BigipCtlr.Lib
