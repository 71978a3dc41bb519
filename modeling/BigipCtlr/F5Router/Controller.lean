import BigipCtlr.F5Router.Router
import BigipCtlr.Lib.Run
import BigipCtlr.Lib.WorkQueue

/-!
# The controller

The router with its work queue. `process` is cut where it touches the queue,
the mapping of the bindings or the writer, so that calls of other goroutines
can come in between.
-/

namespace BigipCtlr

open Go Lib

inductive Phase
  | waiting
  | got (item : Item)
  | handled (item : Item)
  | draining (item : Item)
  | rendered (item : Item) (sections : Sections)
  | finished (item : Item)

def Phase.item : Phase → Option Item
  | .waiting => none
  | .got item | .handled item | .draining item | .rendered item _ | .finished item => some item

structure Controller where
  router : F5Router
  queue : WorkQueue Item
  phase : Phase
  /-- What was handed to the writer last. -/
  written : Option Sections

def Controller.start (r : F5Router) : Controller := ⟨r, .empty, .waiting, none⟩

def Controller.updateRoute (k : Controller) (item : Item) : Controller :=
  { k with queue := k.queue.add item }

/-- The next piece of `process`: `Get`, the switch, `Len`, the sections, the
writer, `Done`. -/
def Controller.turn (codec : Codec) (k : Controller) (o : Order) : Option Controller :=
  match k.phase with
  | .waiting => k.queue.get.map fun (item, queue) => { k with queue := queue, phase := .got item }
  | .got item =>
    (k.router.handle codec item).map fun r => { k with router := r, phase := .handled item }
  | .handled item =>
    some { k with phase := if k.queue.len = 0 then .draining item else .finished item }
  | .draining item => do
    let r ← k.router.firstSync codec o
    let sections ← r.sections o
    some { k with router := r, phase := .rendered item sections }
  | .rendered item sections => some { k with written := some sections, phase := .finished item }
  | .finished item => some { k with queue := k.queue.done item, phase := .waiting }

section
variable {r : F5Router} {q : WorkQueue Item} {w : Option Sections} {codec : Codec} {o : Order}

@[simp] theorem turn_waiting : Controller.turn codec ⟨r, q, .waiting, w⟩ o =
    q.get.map fun (item, q) => ⟨r, q, .got item, w⟩ := rfl

@[simp] theorem turn_got : Controller.turn codec ⟨r, q, .got item, w⟩ o =
    (r.handle codec item).map fun r => ⟨r, q, .handled item, w⟩ := rfl

@[simp] theorem turn_handled : Controller.turn codec ⟨r, q, .handled item, w⟩ o =
    some ⟨r, q, if q.len = 0 then .draining item else .finished item, w⟩ := rfl

@[simp] theorem turn_draining : Controller.turn codec ⟨r, q, .draining item, w⟩ o =
    (r.firstSync codec o).bind fun r => (r.sections o).bind fun sections =>
      some ⟨r, q, .rendered item sections, w⟩ := rfl

@[simp] theorem turn_rendered : Controller.turn codec ⟨r, q, .rendered item sections, w⟩ o =
    some ⟨r, q, .finished item, some sections⟩ := rfl

@[simp] theorem turn_finished : Controller.turn codec ⟨r, q, .finished item, w⟩ o =
    some ⟨r, q.done item, .waiting, w⟩ := rfl

end

/-- Without a call in between, the pieces make up `process`. -/
theorem run_turn_process {k : Controller} (hk : k.phase = .waiting)
    (hq : k.queue.get = some (item, q)) (o : Order) :
    run (Controller.turn codec) k (List.replicate (if q.len = 0 then 6 else 4) o) =
      (k.router.process codec ⟨item, q.len, o⟩).map fun (r, sections) =>
        ⟨r, q.done item, .waiting, sections.or k.written⟩ := by
  obtain ⟨r, q₀, phase, w⟩ := k
  obtain rfl : phase = .waiting := hk
  have hget : q₀.get = some (item, q) := hq
  by_cases hlen : q.len = 0
  · simp only [F5Router.process, hlen, if_true, List.replicate, run_cons, turn_waiting, hget,
      Option.map_some, Option.bind_some, turn_got, bind]
    cases r.handle codec item with
    | none => rfl
    | some r =>
      simp only [Option.map_some, Option.bind_some, turn_handled, hlen, if_true, turn_draining]
      cases r.firstSync codec o with
      | none => rfl
      | some r => cases hs : r.sections o <;> simp [hs]
  · simp only [F5Router.process, hlen, if_false, List.replicate, run_cons, turn_waiting, hget,
      Option.map_some, Option.bind_some, turn_got, bind]
    cases r.handle codec item with
    | none => rfl
    | some r => simp [hlen]

theorem Controller.turn_sound {k : Controller} (h : k.queue.Sound k.phase.item)
    (hturn : k.turn codec o = some k') :
    k'.queue.Sound k'.phase.item := by
  obtain ⟨r, q, phase, w⟩ := k
  cases phase with
  | waiting =>
    obtain ⟨⟨item, q⟩, hget, rfl⟩ := Option.map_eq_some_iff.mp hturn
    exact WorkQueue.Sound.get h hget
  | got item =>
    obtain ⟨r, -, rfl⟩ := Option.map_eq_some_iff.mp hturn
    exact h
  | handled item =>
    cases hturn
    dsimp only
    split <;> exact h
  | draining item =>
    obtain ⟨r, -, hturn⟩ := Option.bind_eq_some_iff.mp hturn
    obtain ⟨sections, -, hturn⟩ := Option.bind_eq_some_iff.mp hturn
    cases hturn
    exact h
  | rendered item sections =>
    cases hturn
    exact h
  | finished item =>
    cases hturn
    exact WorkQueue.Sound.done h

end BigipCtlr
