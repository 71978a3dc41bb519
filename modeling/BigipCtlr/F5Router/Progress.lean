import BigipCtlr.F5Router.Controller

/-!
# The worker catches up

Every piece of `process` brings the worker nearer to an idle queue. While
nothing is submitted it gets there, unless a piece panics.
-/

namespace BigipCtlr

open Go Lib

def Phase.left : Phase → Nat
  | .waiting => 0
  | .got _ => 5
  | .handled _ => 4
  | .draining _ => 3
  | .rendered _ _ => 2
  | .finished _ => 1

/-- A bound on the pieces that are left until the queue is idle. -/
def Controller.work (k : Controller) : Nat :=
  6 * (k.queue.backlog k.phase.item).length + k.phase.left

theorem Controller.turn_work {k : Controller} (h : k.turn codec o = some k') :
    k'.work < k.work := by
  obtain ⟨r, q, phase, w⟩ := k
  cases phase with
  | waiting =>
    obtain ⟨⟨item, q'⟩, hget, rfl⟩ := Option.map_eq_some_iff.mp h
    simp only [Controller.work, Phase.item, Phase.left, WorkQueue.get_backlog hget,
      List.length_cons]
    omega
  | got item =>
    obtain ⟨r', -, rfl⟩ := Option.map_eq_some_iff.mp h
    simp only [Controller.work, Phase.item, Phase.left]
    omega
  | handled item =>
    cases h
    by_cases hlen : q.len = 0
    · simp only [Controller.work, Phase.item, Phase.left, hlen, if_true]
      omega
    · simp only [Controller.work, Phase.item, Phase.left, hlen, if_false]
      omega
  | draining item =>
    obtain ⟨r', -, h⟩ := Option.bind_eq_some_iff.mp h
    obtain ⟨sections, -, h⟩ := Option.bind_eq_some_iff.mp h
    cases h
    simp only [Controller.work, Phase.item, Phase.left]
    omega
  | rendered item sections =>
    cases h
    simp only [Controller.work, Phase.item, Phase.left]
    omega
  | finished item =>
    cases h
    simp only [Controller.work, Phase.item, Phase.left, WorkQueue.done_backlog]
    omega

def Controller.Waits (k : Controller) : Prop := k.phase = .waiting ∧ k.queue.queue = []

theorem Controller.Waits.idle {k : Controller} (h : k.Waits) (hq : k.queue.Sound k.phase.item) :
    k.queue.Idle := by
  rw [h.1] at hq
  exact WorkQueue.Sound.idle hq h.2

theorem Controller.Waits.turn_eq_none {k : Controller} (h : k.Waits) : k.turn codec o = none := by
  obtain ⟨r, q, phase, w⟩ := k
  obtain ⟨rfl, hq⟩ := h
  have hget : q.get = none := by
    rw [WorkQueue.get, show q.queue = [] from hq]
  rw [turn_waiting, hget, Option.map_none]

/-- With the turns of the worker alone a system gets to a state in which the
worker waits, if an invariant keeps it from panicking until then. -/
theorem reaches_waiting {σ : Type} {step : σ → Order → Option σ} {C : σ → Order → Prop}
    {I : σ → Prop} {s : σ} (controller : σ → Controller)
    (hstep : ∀ s t o, step s o = some t → (controller s).turn codec o = some (controller t))
    (hturn : ∀ s o, I s → C s o → (controller s).Waits ∨ ∃ t, step s o = some t ∧ I t)
    (hs : I s) (hC : Throughout step C s os) (hlen : (controller s).work ≤ os.length) :
    ∃ fs t, fs <+: os ∧ run step s fs = some t ∧ I t ∧ (controller t).Waits := by
  induction os generalizing s with
  | nil =>
    refine ⟨[], s, List.prefix_rfl, rfl, hs, ?_⟩
    have hwork : (controller s).work = 0 := Nat.le_zero.mp hlen
    rw [Controller.work] at hwork
    have hphase : (controller s).phase = .waiting := by
      cases hp : (controller s).phase with
      | waiting => rfl
      | got | handled | draining | rendered | finished =>
        rw [hp] at hwork
        simp [Phase.left] at hwork
    refine ⟨hphase, ?_⟩
    rw [hphase, Phase.item, WorkQueue.backlog_none] at hwork
    exact List.length_eq_zero_iff.mp (by omega)
  | cons o os ih =>
    rcases hturn s o hs hC.1 with hwaits | ⟨t, ht, hI⟩
    · exact ⟨[], s, List.nil_prefix, rfl, hs, hwaits⟩
    · have hless := Controller.turn_work (hstep s t o ht)
      rw [List.length_cons] at hlen
      obtain ⟨fs, u, hfs, hrun, hIu, hwaits⟩ := ih hI (hC.2 t ht) (by omega)
      exact ⟨o :: fs, u, List.cons_prefix_cons.mpr ⟨rfl, hfs⟩,
        run_cons_eq_some.mpr ⟨t, ht, hrun⟩, hIu, hwaits⟩

end BigipCtlr
