import Mathlib.Data.Finset.Option

/-!
# A queue that coalesces

The work queue of a single worker. An item that is waiting is not queued a
second time, and one that is added while it is worked on waits until that is
done. The backlog is what the worker has still to do, in order.
-/

namespace BigipCtlr.Lib

structure WorkQueue (α : Type) where
  queue : List α
  dirty : Finset α
  processing : Finset α

namespace WorkQueue

def empty : WorkQueue α := ⟨[], ∅, ∅⟩

/-- The queue of a worker that has the item `cur`. -/
structure Sound (q : WorkQueue α) (cur : Option α) : Prop where
  nodup : q.queue.Nodup
  queued : ∀ x ∈ q.queue, x ∈ q.dirty ∧ cur ≠ some x
  dirty : ∀ x ∈ q.dirty, x ∈ q.queue ∨ cur = some x
  processing : q.processing = cur.toFinset

theorem sound_empty : (empty : WorkQueue α).Sound none :=
  ⟨.nil, by simp [empty], by simp [empty], by simp [empty]⟩

section
variable [DecidableEq α]

def add (q : WorkQueue α) (x : α) : WorkQueue α :=
  if x ∈ q.dirty then q
  else
    { q with
      dirty := insert x q.dirty
      queue := if x ∈ q.processing then q.queue else q.queue ++ [x] }

def get (q : WorkQueue α) : Option (α × WorkQueue α) :=
  match q.queue with
  | [] => none
  | x :: rest => some (x, ⟨rest, q.dirty.erase x, insert x q.processing⟩)

def done (q : WorkQueue α) (x : α) : WorkQueue α :=
  { q with
    processing := q.processing.erase x
    queue := if x ∈ q.dirty then q.queue ++ [x] else q.queue }

def len (q : WorkQueue α) : Nat := q.queue.length

def Idle (q : WorkQueue α) : Prop := q.queue = [] ∧ q.dirty = ∅ ∧ q.processing = ∅

instance (q : WorkQueue α) : Decidable q.Idle := inferInstanceAs (Decidable (_ ∧ _ ∧ _))

-- ---------------------------------------------------------------------------
-- One worker
-- ---------------------------------------------------------------------------

theorem Sound.add {q : WorkQueue α} (h : q.Sound cur) (x : α) : (q.add x).Sound cur := by
  rw [WorkQueue.add]
  split
  · exact h
  · next hx =>
    have hq : x ∉ q.queue := fun hmem => hx (h.queued x hmem).1
    by_cases hp : cur = some x
    · have hproc : x ∈ q.processing := by simp [h.processing, hp]
      simp only [if_pos hproc]
      refine ⟨h.nodup, fun y hy => ⟨?_, (h.queued y hy).2⟩, fun y hy => ?_, h.processing⟩
      · exact Finset.mem_insert_of_mem (h.queued y hy).1
      · rcases Finset.mem_insert.mp hy with rfl | hy
        · exact .inr hp
        · exact h.dirty y hy
    · have hproc : x ∉ q.processing := by simpa [h.processing] using hp
      simp only [if_neg hproc]
      refine ⟨?_, fun y hy => ?_, fun y hy => ?_, h.processing⟩
      · exact List.nodup_append'.mpr ⟨h.nodup, List.nodup_singleton x,
          List.disjoint_singleton.mpr hq⟩
      · rcases List.mem_append.mp hy with hy | hy
        · exact ⟨Finset.mem_insert_of_mem (h.queued y hy).1, (h.queued y hy).2⟩
        · rw [List.mem_singleton.mp hy]
          exact ⟨Finset.mem_insert_self x _, hp⟩
      · rcases Finset.mem_insert.mp hy with rfl | hy
        · exact .inl (by simp)
        · exact (h.dirty y hy).imp_left (List.mem_append_left _)

theorem mem_dirty_add (q : WorkQueue α) (x : α) : x ∈ (q.add x).dirty := by
  rw [WorkQueue.add]
  split
  · assumption
  · exact Finset.mem_insert_self _ _

theorem mem_dirty_of_add {q : WorkQueue α} (h : y ∈ (q.add x).dirty) : y = x ∨ y ∈ q.dirty := by
  rw [WorkQueue.add] at h
  split at h
  · exact .inr h
  · exact Finset.mem_insert.mp h

theorem mem_queue_add {q : WorkQueue α} (h : y ∈ (q.add x).queue) : y = x ∨ y ∈ q.queue := by
  rw [WorkQueue.add] at h
  split at h
  · exact .inr h
  · simp only at h
    split at h
    · exact .inr h
    · simpa [or_comm] using h

theorem get_eq_some {q : WorkQueue α} (h : q.get = some (x, q')) :
    q.queue = x :: q'.queue ∧ q'.dirty = q.dirty.erase x ∧
      q'.processing = insert x q.processing := by
  rw [get] at h
  split at h
  · cases h
  · next hq =>
    cases h
    exact ⟨hq, rfl, rfl⟩

omit [DecidableEq α] in
theorem Sound.cur_eq_none {q : WorkQueue α} (h : q.Sound cur) (hidle : q.Idle) : cur = none := by
  have hproc := h.processing
  rw [hidle.2.2] at hproc
  cases cur with
  | none => rfl
  | some x => simp at hproc

theorem Sound.get {q : WorkQueue α} (h : q.Sound none) (hget : q.get = some (x, q')) :
    q'.Sound (some x) := by
  obtain ⟨hq, hd, hp⟩ := get_eq_some hget
  obtain ⟨hx, hnd⟩ := List.nodup_cons.mp (hq ▸ h.nodup)
  refine ⟨hnd, fun y hy => ?_, fun y hy => ?_, by simp [hp, h.processing]⟩
  · have hne : y ≠ x := fun he => hx (he ▸ hy)
    rw [hd]
    exact ⟨Finset.mem_erase.mpr ⟨hne, (h.queued y (by simp [hq, hy])).1⟩, by simpa using hne.symm⟩
  · rw [hd] at hy
    obtain ⟨hne, hy⟩ := Finset.mem_erase.mp hy
    have hmem := (h.dirty y hy).resolve_right (by simp)
    rw [hq] at hmem
    exact .inl ((List.mem_cons.mp hmem).resolve_left hne)

theorem Sound.done {q : WorkQueue α} (h : q.Sound (some x)) : (q.done x).Sound none := by
  have hx : x ∉ q.queue := fun hmem => (h.queued x hmem).2 rfl
  rw [WorkQueue.done]
  refine ⟨?_, fun y hy => ⟨?_, by simp⟩, fun y hy => ?_, by simp [h.processing]⟩
  · show (if x ∈ q.dirty then q.queue ++ [x] else q.queue).Nodup
    split
    · exact List.nodup_append'.mpr ⟨h.nodup, List.nodup_singleton x, List.disjoint_singleton.mpr hx⟩
    · exact h.nodup
  · change y ∈ if x ∈ q.dirty then q.queue ++ [x] else q.queue at hy
    split at hy
    · next hd =>
      rcases List.mem_append.mp hy with hy | hy
      · exact (h.queued y hy).1
      · exact List.mem_singleton.mp hy ▸ hd
    · exact (h.queued y hy).1
  · refine .inl ?_
    show y ∈ if x ∈ q.dirty then q.queue ++ [x] else q.queue
    rcases h.dirty y hy with hmem | heq
    · split
      · exact List.mem_append_left _ hmem
      · exact hmem
    · cases heq
      rw [if_pos hy]
      simp

theorem mem_queue_done {q : WorkQueue α} (h : y ∈ (q.done x).queue) : y = x ∨ y ∈ q.queue := by
  simp only [WorkQueue.done] at h
  split at h
  · simpa [or_comm] using h
  · exact .inr h

-- ---------------------------------------------------------------------------
-- The backlog
-- ---------------------------------------------------------------------------

def deferred (q : WorkQueue α) (cur : Option α) : List α := (cur.filter (· ∈ q.dirty)).toList

def backlog (q : WorkQueue α) (cur : Option α) : List α := q.queue ++ q.deferred cur

theorem backlog_none (q : WorkQueue α) : q.backlog none = q.queue := by simp [backlog, deferred]

theorem backlog_of_idle {q : WorkQueue α} (h : q.Idle) (cur : Option α) : q.backlog cur = [] := by
  cases cur <;> simp [backlog, deferred, h.1, h.2.1, Option.filter]

theorem get_backlog {q : WorkQueue α} (hget : q.get = some (x, q')) :
    q.backlog none = x :: q'.backlog (some x) := by
  obtain ⟨hq, hd, -⟩ := get_eq_some hget
  simp [backlog, deferred, hq, hd, Option.filter]

theorem done_backlog (q : WorkQueue α) (x : α) : (q.done x).backlog none = q.backlog (some x) := by
  rw [backlog_none, backlog, deferred, WorkQueue.done]
  by_cases hx : x ∈ q.dirty <;> simp [hx, Option.filter]

theorem mem_dirty_of_deferred {q : WorkQueue α} (h : y ∈ q.deferred cur) :
    cur = some y ∧ y ∈ q.dirty := by
  simpa [deferred, Option.filter_eq_some_iff] using h

/-- What is added comes last among the items of its kind, unless one of that
kind is deferred. -/
theorem Sound.add_backlog {q : WorkQueue α} {f : α → Option β} (h : q.Sound cur) (hx : x ∉ q.dirty)
    (hf : f x ≠ none → ∀ y ∈ q.deferred cur, f y = none) :
    ((q.add x).backlog cur).filterMap f = (q.backlog cur ++ [x]).filterMap f := by
  rw [WorkQueue.add, if_neg hx]
  by_cases hcur : cur = some x
  · subst hcur
    have hproc : x ∈ q.processing := by simp [h.processing]
    simp [backlog, deferred, hproc, hx, Option.filter]
  · have hproc : x ∉ q.processing := by simpa [h.processing] using hcur
    have hsame : deferred { q with dirty := insert x q.dirty, queue := q.queue ++ [x] } cur =
        q.deferred cur := by
      cases cur with
      | none => rfl
      | some y =>
        have hne : y ≠ x := fun he => hcur (he ▸ rfl)
        simp [deferred, Option.filter, hne]
    simp only [if_neg hproc, backlog, hsame, List.filterMap_append, List.append_assoc]
    congr 1
    cases hfx : f x with
    | none => simp [hfx]
    | some b =>
      have hnone : (q.deferred cur).filterMap f = [] :=
        List.filterMap_eq_nil_iff.mpr fun y hy => hf (by simp [hfx]) y hy
      simp [hnone]

-- ---------------------------------------------------------------------------
-- Items that are added once
-- ---------------------------------------------------------------------------

theorem Sound.add_new {q : WorkQueue α} (h : q.Sound cur) (hq : x ∉ q.queue) (hcur : cur ≠ some x) :
    q.add x = { q with dirty := insert x q.dirty, queue := q.queue ++ [x] } := by
  have hdirty : x ∉ q.dirty := fun hx => (h.dirty x hx).elim hq hcur
  have hproc : x ∉ q.processing := by simpa [h.processing] using hcur
  rw [WorkQueue.add, if_neg hdirty, if_neg hproc]

theorem filterMap_queue_add {f : α → Option β} (q : WorkQueue α) (hf : f x = none) :
    (q.add x).queue.filterMap f = q.queue.filterMap f := by
  rw [WorkQueue.add]
  split
  · rfl
  · simp only
    split
    · rfl
    · simp [hf]

theorem filterMap_queue_done {f : α → Option β} {q : WorkQueue α} (hf : f x ≠ none → x ∉ q.dirty) :
    (q.done x).queue.filterMap f = q.queue.filterMap f := by
  simp only [WorkQueue.done]
  split
  · next hx =>
    have hnone : f x = none := by
      by_contra hne
      exact hf hne hx
    simp [hnone]
  · rfl

omit [DecidableEq α] in
theorem Sound.idle {q : WorkQueue α} (h : q.Sound none) (hq : q.queue = []) : q.Idle := by
  refine ⟨hq, Finset.eq_empty_of_forall_notMem fun x hx => ?_, by simp [h.processing]⟩
  rcases h.dirty x hx with hmem | hcur
  · rw [hq] at hmem
    cases hmem
  · cases hcur

end

end WorkQueue

end BigipCtlr.Lib
