import BigipCtlr.F5Router.Binding
import BigipCtlr.F5Router.Mapping
import BigipCtlr.F5Router.Controller

/-!
# Drains

Updates and calls of the broker come in from other goroutines while the
worker runs. A broker call changes the mapping of the bindings first and
submits its update later. The items come with their sessions, so that an
update need not equal another one of the same data.
-/

namespace BigipCtlr

open Go Lib

/-- `inFlight` has the updates of the broker calls that have changed the
mapping; `processed` counts the items that are done. -/
structure Drain where
  controller : Controller
  inFlight : List Item
  processed : Nat

inductive DrainEvent
  | update (item : Item)
  | change (change : MappingChange) (item : Item)
  | submit (item : Item)
  | turn (o : Order)

def Drain.step (codec : Codec) (s : Drain) : DrainEvent → Option Drain
  | .update item => some { s with controller := s.controller.updateRoute item }
  | .change change item =>
    some { s with
      controller := { s.controller with router := s.controller.router.change change }
      inFlight := item :: s.inFlight }
  | .submit item =>
    if item ∈ s.inFlight then
      some { s with controller := s.controller.updateRoute item, inFlight := s.inFlight.erase item }
    else none
  | .turn o =>
    (s.controller.turn codec o).map fun k =>
      { s with
        controller := k
        processed := match s.controller.phase with
          | .finished _ => s.processed + 1
          | _ => s.processed }

def Drain.start (r : F5Router) : Drain := ⟨.start r, [], 0⟩

def F5Router.Current (r : F5Router) (sections : Sections) : Prop :=
  ∃ o, r.sections o = some sections

def Drain.Settled (s : Drain) : Prop := s.controller.queue.dirty = ∅ ∧ s.inFlight = []

def Drain.UpToDate (s : Drain) : Prop :=
  match s.controller.phase with
  | .waiting => s.processed ≠ 0 → ∃ sections, s.controller.written = some sections ∧
      s.controller.router.Current sections
  | .got _ | .handled _ | .draining _ => True
  | .rendered _ sections => s.controller.router.Current sections
  | .finished _ =>
    ∃ sections, s.controller.written = some sections ∧ s.controller.router.Current sections

structure Drain.Sound (s : Drain) : Prop where
  queue : s.controller.queue.Sound s.controller.phase.item
  upToDate : s.Settled → s.UpToDate

theorem Drain.not_settled_of_mem {s : Drain} (h : item ∈ s.controller.queue.dirty) :
    ¬ s.Settled := by
  rintro ⟨hdirty, -⟩
  rw [hdirty] at h
  exact absurd h (Finset.notMem_empty _)

theorem Drain.Sound.turn (h : Drain.Sound s) (hstep : s.step codec (.turn o) = some s') :
    s'.Sound := by
  obtain ⟨k, hturn, rfl⟩ := Option.map_eq_some_iff.mp hstep
  refine ⟨Controller.turn_sound h.queue hturn, ?_⟩
  obtain ⟨⟨r, q, phase, w⟩, inFlight, processed⟩ := s
  cases phase with
  | waiting =>
    obtain ⟨⟨item, q⟩, -, rfl⟩ := Option.map_eq_some_iff.mp hturn
    exact fun _ => trivial
  | got item =>
    obtain ⟨r, -, rfl⟩ := Option.map_eq_some_iff.mp hturn
    exact fun _ => trivial
  | handled item =>
    cases hturn
    intro hset
    by_cases hlen : q.len = 0
    · simp [Drain.UpToDate, hlen]
    · -- an item that is queued is dirty
      have hne : q.queue ≠ [] := fun hnil => hlen (by rw [WorkQueue.len, hnil]; rfl)
      obtain ⟨x, rest, hq⟩ := List.exists_cons_of_ne_nil hne
      have hx : x ∈ q.dirty := (h.queue.queued x (by simp [hq])).1
      exact absurd hset (Drain.not_settled_of_mem hx)
  | draining item =>
    obtain ⟨r, -, hturn⟩ := Option.bind_eq_some_iff.mp hturn
    obtain ⟨sections, hsections, hturn⟩ := Option.bind_eq_some_iff.mp hturn
    cases hturn
    exact fun _ => ⟨o, hsections⟩
  | rendered item sections =>
    cases hturn
    exact fun hset => ⟨sections, rfl, h.upToDate hset⟩
  | finished item =>
    cases hturn
    exact fun hset _ => h.upToDate hset

theorem Drain.Sound.step (h : Drain.Sound s) (hstep : s.step codec e = some s') : s'.Sound := by
  cases e with
  | update item =>
    cases hstep
    exact ⟨h.queue.add item, fun hset =>
      absurd hset (Drain.not_settled_of_mem (WorkQueue.mem_dirty_add _ item))⟩
  | change change item =>
    cases hstep
    exact ⟨h.queue, fun hset => absurd hset.2 (by simp)⟩
  | submit item =>
    simp only [Drain.step, Option.ite_none_right_eq_some, Option.some.injEq] at hstep
    obtain ⟨-, rfl⟩ := hstep
    exact ⟨h.queue.add item, fun hset =>
      absurd hset (Drain.not_settled_of_mem (WorkQueue.mem_dirty_add _ item))⟩
  | turn o => exact h.turn hstep

theorem Drain.Sound.current {s : Drain} (h : s.Sound) (hidle : s.controller.queue.Idle)
    (hflight : s.inFlight = []) (hprocessed : 1 ≤ s.processed) : s.controller.phase = .waiting ∧
      ∃ sections, s.controller.written = some sections ∧ s.controller.router.Current sections := by
  have hup := h.upToDate ⟨hidle.2.1, hflight⟩
  have hitem := h.queue.cur_eq_none hidle
  cases hp : s.controller.phase with
  | waiting =>
    simp only [Drain.UpToDate, hp] at hup
    exact ⟨rfl, hup (by omega)⟩
  | got | handled | draining | rendered | finished =>
    rw [hp] at hitem
    cases hitem

/-- Whenever the queue is idle and no broker call is between its two halves,
what was written last is current, if anything was processed. -/
theorem written_current (r : F5Router) (hrun : run (Drain.step codec) (.start r) es = some s)
    (hidle : s.controller.queue.Idle) (hflight : s.inFlight = []) (hprocessed : 1 ≤ s.processed) :
    ∃ o sections, s.controller.router.sections o = some sections ∧
      s.controller.written = some sections := by
  have hsound : s.Sound := by
    refine run_invariant_mem (fun s t e _ hs hstep => hs.step hstep) ?_ hrun
    exact ⟨WorkQueue.sound_empty, fun _ => fun h => absurd rfl h⟩
  obtain ⟨-, sections, hwritten, o, hsections⟩ := hsound.current hidle hflight hprocessed
  exact ⟨o, sections, hsections, hwritten⟩

namespace Sample

def inSession (session : Nat) : Item → Item
  | .http ru => .http (ru.withSession session)
  | .tcp tu => .tcp tu

def lateBind : List DrainEvent :=
  [.update addA] ++ List.replicate 4 (.turn .stored) ++
    [.change (.add "bind".toList "*.a".toList "ratio".toList) (inSession 1 (bindA "ratio".toList)),
      .submit (inSession 1 (bindA "ratio".toList)),
      .change (.remove "bind".toList) (inSession 2 unbindA), .submit (inSession 2 unbindA),
      .change (.add "bind".toList "*.a".toList "ratio".toList) (inSession 3 (bindA "ratio".toList)),
      .turn .stored, .submit (inSession 3 (bindA "ratio".toList))] ++
    List.replicate 15 (.turn .stored)

end Sample

theorem written_current_sample :
    ∃ r ∈ boot jsonCodec Sample.brokerConfig Sample.plans none,
      ∃ s ∈ run (Drain.step jsonCodec) (.start r) Sample.lateBind,
        s.controller.router.getRouteURIFromBindID "bind".toList = "*.a".toList ∧ s.processed = 4 ∧
        ∃ o sections, s.controller.router.sections o = some sections ∧
          s.controller.written = some sections := by
  have hrun : ∃ r ∈ boot jsonCodec Sample.brokerConfig Sample.plans none,
      ∃ s ∈ run (Drain.step jsonCodec) (.start r) Sample.lateBind,
        s.controller.router.getRouteURIFromBindID "bind".toList = "*.a".toList ∧
        s.controller.queue.Idle ∧ s.inFlight = [] ∧ s.processed = 4 := by
    decide +kernel
  obtain ⟨r, hboot, s, hrun, hroute, hidle, hflight, hprocessed⟩ := hrun
  exact ⟨r, hboot, s, hrun, hroute, hprocessed,
    written_current r hrun hidle hflight (by rw [hprocessed]; decide)⟩

end BigipCtlr
