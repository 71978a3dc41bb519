import BigipCtlr.F5Router.Drain
import BigipCtlr.F5Router.Progress

/-!
# Shutdown

At a signal `Run` shuts the work queue down and waits for the worker. From then
on updates are ignored, the ones that were accepted are handled, and the worker
ends. A broker call that submits its update after the signal has changed the
mapping of the bindings already.
-/

namespace BigipCtlr

open Go Lib

/-- `refused` has the updates of broker calls that came after the shutdown. -/
structure Service where
  drain : Drain
  shuttingDown : Bool
  refused : List Item
  /-- The worker has ended, and so has `Run`. -/
  quit : Bool

inductive ServiceEvent
  | drain (e : DrainEvent)
  | shutDown

namespace Service

def go (codec : Codec) (s : Service) (e : DrainEvent) : Option Service :=
  (s.drain.step codec e).map fun d => { s with drain := d }

/-- `runWorker`: `Get` ends the worker when nothing is queued. -/
def turn (codec : Codec) (s : Service) (o : Order) : Option Service :=
  if s.quit then none
  else match s.drain.controller.phase, s.drain.controller.queue.queue with
    | .waiting, [] => if s.shuttingDown then some { s with quit := true } else none
    | _, _ => s.go codec (.turn o)

def step (codec : Codec) (s : Service) : ServiceEvent → Option Service
  | .drain (.update item) => if s.shuttingDown then some s else s.go codec (.update item)
  | .drain (.change change item) => s.go codec (.change change item)
  | .drain (.submit item) =>
    if s.shuttingDown then
      if item ∈ s.drain.inFlight then
        some { s with
          drain := { s.drain with inFlight := s.drain.inFlight.erase item }
          refused := item :: s.refused }
      else none
    else s.go codec (.submit item)
  | .drain (.turn o) => s.turn codec o
  | .shutDown => some { s with shuttingDown := true }

def start (r : F5Router) : Service := ⟨.start r, false, [], false⟩

end Service

def Controller.Panics (codec : Codec) (k : Controller) (o : Order) : Prop :=
  ¬ k.Waits ∧ k.turn codec o = none

def ServiceEvent.isTurn : ServiceEvent → Bool
  | .drain (.turn _) => true
  | .drain (.update _) | .drain (.change _ _) | .drain (.submit _) | .shutDown => false

def turnsOf (es : List ServiceEvent) : Nat := es.countP ServiceEvent.isTurn

/-- A bound on the turns that are left after the shutdown: the last one ends the
worker. -/
def Service.left (s : Service) : Nat := if s.quit then 0 else s.drain.controller.work + 1

-- ---------------------------------------------------------------------------
-- Steps
-- ---------------------------------------------------------------------------

section
variable {codec : Codec} {s t : Service}

structure Service.Sound (s : Service) : Prop where
  queue : s.drain.controller.queue.Sound s.drain.controller.phase.item
  drain : s.refused = [] → s.drain.Sound
  quit : s.quit = true → s.shuttingDown = true ∧ s.drain.controller.Waits

theorem Drain.step_queue {d : Drain} (h : d.controller.queue.Sound d.controller.phase.item)
    (hstep : d.step codec e = some d') : d'.controller.queue.Sound d'.controller.phase.item := by
  cases e with
  | update item =>
    cases hstep
    exact h.add item
  | change change item =>
    cases hstep
    exact h
  | submit item =>
    simp only [Drain.step, Option.ite_none_right_eq_some, Option.some.injEq] at hstep
    obtain ⟨-, rfl⟩ := hstep
    exact h.add item
  | turn o =>
    obtain ⟨k, hk, rfl⟩ := Option.map_eq_some_iff.mp hstep
    exact Controller.turn_sound h hk

theorem Service.Sound.go (h : s.Sound) (hstep : s.go codec e = some t)
    (hquit : s.quit = true → t.drain.controller.Waits) :
    t.Sound := by
  obtain ⟨d, hd, rfl⟩ := Option.map_eq_some_iff.mp hstep
  exact ⟨Drain.step_queue h.queue hd, fun hr => (h.drain hr).step hd,
    fun hq => ⟨(h.quit hq).1, hquit hq⟩⟩

/-- What a turn does: it ends the worker, or is one of the controller. -/
theorem Service.turn_cases (hstep : s.turn codec o = some t) :
    s.quit = false ∧
      ((s.drain.controller.Waits ∧ s.shuttingDown = true ∧ t = { s with quit := true }) ∨
        (¬ s.drain.controller.Waits ∧ s.go codec (.turn o) = some t)) := by
  rw [Service.turn] at hstep
  cases hq : s.quit with
  | true =>
    rw [hq] at hstep
    cases hstep
  | false =>
    rw [hq, if_neg Bool.false_ne_true] at hstep
    refine ⟨rfl, ?_⟩
    split at hstep
    · next hp hnil =>
      simp only [Option.ite_none_right_eq_some, Option.some.injEq] at hstep
      exact .inl ⟨⟨hp, hnil⟩, hstep.1, hstep.2.symm⟩
    · next hno => exact .inr ⟨fun hw => hno hw.1 hw.2, hstep⟩

theorem Service.Sound.step (h : s.Sound) (hstep : s.step codec e = some t) : t.Sound := by
  cases e with
  | shutDown =>
    cases hstep
    exact ⟨h.queue, h.drain, fun hq => ⟨rfl, (h.quit hq).2⟩⟩
  | drain e =>
    cases e with
    | update item =>
      simp only [Service.step] at hstep
      split at hstep
      · cases hstep
        exact h
      · next hdown => exact h.go hstep fun hq => absurd (h.quit hq).1 hdown
    | change change item =>
      refine h.go hstep fun hq => ?_
      cases hstep
      exact (h.quit hq).2
    | submit item =>
      simp only [Service.step] at hstep
      split at hstep
      · simp only [Option.ite_none_right_eq_some, Option.some.injEq] at hstep
        obtain ⟨-, rfl⟩ := hstep
        exact ⟨h.queue, (fun hr => by cases hr), h.quit⟩
      · next hdown => exact h.go hstep fun hq => absurd (h.quit hq).1 hdown
    | turn o =>
      obtain ⟨hquit, ⟨hwaits, hdown, rfl⟩ | ⟨-, hgo⟩⟩ := Service.turn_cases hstep
      · exact ⟨h.queue, h.drain, fun _ => ⟨hdown, hwaits⟩⟩
      · refine h.go hgo fun hq => ?_
        rw [hquit] at hq
        cases hq

theorem Service.step_flags (hstep : s.step codec e = some t) :
    (s.quit = true → t.quit = true) ∧
      (t.shuttingDown = true → s.shuttingDown = true ∨ e = .shutDown) := by
  have hgo : ∀ e, s.go codec e = some t →
      (s.quit = true → t.quit = true) ∧ (t.shuttingDown = true → s.shuttingDown = true) := by
    intro e hgo
    obtain ⟨d, -, rfl⟩ := Option.map_eq_some_iff.mp hgo
    exact ⟨id, id⟩
  cases e with
  | shutDown =>
    cases hstep
    exact ⟨id, fun _ => .inr rfl⟩
  | drain e =>
    suffices hflags : (s.quit = true → t.quit = true) ∧
      (t.shuttingDown = true → s.shuttingDown = true) from
      ⟨hflags.1, fun hdown => .inl (hflags.2 hdown)⟩
    cases e with
    | update item =>
      simp only [Service.step] at hstep
      split at hstep
      · cases hstep
        exact ⟨id, id⟩
      · exact hgo _ hstep
    | change change item => exact hgo _ hstep
    | submit item =>
      simp only [Service.step] at hstep
      split at hstep
      · obtain ⟨-, hstep⟩ := Option.ite_none_right_eq_some.mp hstep
        cases hstep
        exact ⟨id, id⟩
      · exact hgo _ hstep
    | turn o =>
      obtain ⟨-, ⟨-, -, rfl⟩ | ⟨-, hturn⟩⟩ := Service.turn_cases hstep
      · exact ⟨fun _ => rfl, id⟩
      · exact hgo _ hturn

/-- After the shutdown a turn brings the worker nearer to its end, and nothing
else keeps it from there. -/
theorem Service.left_step (hdown : s.shuttingDown = true) (hstep : s.step codec e = some t) :
    t.shuttingDown = true ∧ t.left + (if e.isTurn then 1 else 0) ≤ s.left := by
  cases e with
  | shutDown =>
    cases hstep
    exact ⟨rfl, Nat.le_refl _⟩
  | drain e =>
    cases e with
    | update item =>
      simp only [Service.step, hdown, if_true, Option.some.injEq] at hstep
      subst hstep
      exact ⟨hdown, Nat.le_refl _⟩
    | change change item =>
      cases hstep
      exact ⟨hdown, Nat.le_refl _⟩
    | submit item =>
      simp only [Service.step, hdown, if_true, Option.ite_none_right_eq_some, Option.some.injEq]
        at hstep
      obtain ⟨-, rfl⟩ := hstep
      exact ⟨rfl, Nat.le_refl _⟩
    | turn o =>
      obtain ⟨hquit, ⟨hwaits, -, rfl⟩ | ⟨-, hgo⟩⟩ := Service.turn_cases hstep
      · refine ⟨hdown, ?_⟩
        simp only [Service.left, hquit, ServiceEvent.isTurn, if_true, Bool.false_eq_true, if_false]
        omega
      · obtain ⟨d, hd, rfl⟩ := Option.map_eq_some_iff.mp hgo
        obtain ⟨k, hk, rfl⟩ := Option.map_eq_some_iff.mp hd
        have hwork := Controller.turn_work hk
        refine ⟨hdown, ?_⟩
        simp only [Service.left, hquit, ServiceEvent.isTurn, if_true, Bool.false_eq_true, if_false]
        omega

theorem Service.left_run (hdown : s.shuttingDown = true)
    (hrun : run (Service.step codec) s es = some t) :
    turnsOf es + t.left ≤ s.left :=
  run_countP_le (I := fun s => s.shuttingDown = true)
    (fun _ _ _ _ h hstep => Service.left_step h hstep) hdown hrun

theorem Service.sound_start (r : F5Router) : (Service.start r).Sound :=
  ⟨WorkQueue.sound_empty, fun _ => ⟨WorkQueue.sound_empty, fun _ => fun h => absurd rfl h⟩,
    fun hq => by cases hq⟩

theorem Service.Sound.ended (h : s.Sound) (hquit : s.quit = true) :
    s.drain.controller.queue.Idle ∧
      (s.drain.inFlight = [] → s.refused = [] → 1 ≤ s.drain.processed →
        ∃ sections, s.drain.controller.written = some sections ∧
          s.drain.controller.router.Current sections) := by
  have hidle := (h.quit hquit).2.idle h.queue
  exact ⟨hidle, fun hflight hrefused hprocessed =>
    ((h.drain hrefused).current hidle hflight hprocessed).2⟩

theorem Service.goes (hdown : s.shuttingDown = true) (hquit : s.quit = false) (o : Order) :
    s.drain.controller.Panics codec o ∨ ∃ u, s.step codec (.drain (.turn o)) = some u := by
  have hstep : s.step codec (.drain (.turn o)) = s.turn codec o := rfl
  rw [hstep, Service.turn, hquit, if_neg Bool.false_ne_true, hdown]
  split
  · exact .inr ⟨_, rfl⟩
  · next hno =>
    cases hturn : s.drain.controller.turn codec o with
    | none => exact .inl ⟨fun hw => hno hw.1 hw.2, hturn⟩
    | some k =>
      rw [Service.go, Drain.step, hturn, Option.map_some, Option.map_some]
      exact .inr ⟨_, rfl⟩

/-- After the shutdown, whatever else happens: the worker has ended, with all
accepted updates handled and, unless a broker call came too late, the
configuration written; or it has had fewer turns than its backlog takes and can
take the next one. -/
theorem shutdown_drains (r : F5Router) (hrun : run (Service.step codec) (.start r) es = some s)
    (hdown : s.shuttingDown = true) (hrest : run (Service.step codec) s fs = some t) :
    (t.quit = true ∧ t.drain.controller.queue.Idle ∧
      (t.drain.inFlight = [] → t.refused = [] → 1 ≤ t.drain.processed →
        ∃ sections, t.drain.controller.written = some sections ∧
          t.drain.controller.router.Current sections)) ∨
    (t.quit = false ∧ turnsOf fs < s.left ∧
      ∀ o, t.drain.controller.Panics codec o ∨ ∃ u, t.step codec (.drain (.turn o)) = some u) := by
  have hs : s.Sound :=
    run_invariant_mem (fun _ _ _ _ h hstep => h.step hstep) (Service.sound_start r) hrun
  have ht : t.Sound := run_invariant_mem (fun _ _ _ _ h hstep => h.step hstep) hs hrest
  have htdown : t.shuttingDown = true :=
    run_invariant_mem (I := fun u => u.shuttingDown = true)
      (fun _ _ _ _ h hstep => (Service.left_step h hstep).1)
      hdown hrest
  have hleft := Service.left_run hdown hrest
  cases hquit : t.quit with
  | true =>
    obtain ⟨hidle, hcurrent⟩ := ht.ended hquit
    exact .inl ⟨rfl, hidle, hcurrent⟩
  | false =>
    rw [Service.left, hquit, if_neg Bool.false_ne_true] at hleft
    exact .inr ⟨rfl, by omega, fun o => Service.goes htdown hquit o⟩

end

namespace Sample

def beforeShutdown : List ServiceEvent := [.drain (.update addA), .drain (.turn .stored), .shutDown]

def afterShutdown : List ServiceEvent :=
  .drain (.update (bindA "ratio".toList)) :: List.replicate 6 (.drain (.turn .stored))

end Sample

theorem shutdown_drains_sample :
    ∃ r ∈ boot jsonCodec Sample.config ∅ none,
      ∃ s ∈ run (Service.step jsonCodec) (.start r) Sample.beforeShutdown,
      ∃ t ∈ run (Service.step jsonCodec) s Sample.afterShutdown,
        t.quit = true ∧ t.drain.processed = 1 ∧
        ∃ sections, t.drain.controller.written = some sections ∧
          t.drain.controller.router.Current sections := by
  have hrun : ∃ r ∈ boot jsonCodec Sample.config ∅ none,
      ∃ s ∈ run (Service.step jsonCodec) (.start r) Sample.beforeShutdown, s.shuttingDown = true ∧
        ∃ t ∈ run (Service.step jsonCodec) s Sample.afterShutdown,
          t.quit = true ∧ t.drain.inFlight = [] ∧ t.refused = [] ∧ t.drain.processed = 1 := by
    decide +kernel
  obtain ⟨r, hboot, s, hrun, hdown, t, hrest, hquit, hflight, hrefused, hprocessed⟩ := hrun
  refine ⟨r, hboot, s, hrun, t, hrest, hquit, hprocessed, ?_⟩
  rcases shutdown_drains r hrun hdown hrest with ⟨-, -, hcurrent⟩ | ⟨hgoes, -⟩
  · exact hcurrent hflight hrefused (Nat.le_of_eq hprocessed.symm)
  · rw [hquit] at hgoes
    cases hgoes

end BigipCtlr
