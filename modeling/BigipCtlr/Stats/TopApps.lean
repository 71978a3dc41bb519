import BigipCtlr.Stats.ActiveApps
import Mathlib.Algebra.BigOperators.Group.List.Basic
import Mathlib.Algebra.Ring.Int.Defs

/-!
# Top applications

`TopApps` counts the requests of each application in slots of a second. One heap
has the application with the earliest slot first, by which `trim` finds the slots
that are old, the other the application with the most requests, by which
`TopSince` finds the top ones. An entry has slots and counts the requests in
them, so nothing panics.
-/

namespace BigipCtlr.Stats

open Go Lib

/-- A slot of a second. Its counter, like that of an entry, is unbounded; in
the code it has 64 bits. -/
structure TopAppsEntryTimeSlot where
  t : Int
  n : Int
  deriving DecidableEq

structure TopAppsData where
  t : List TopAppsEntryTimeSlot
  n : Int
  applicationId : Str
  deriving DecidableEq

structure TopAppsEntry extends TopAppsData where
  ti : Int
  ni : Int
  deriving DecidableEq

namespace TopAppsData

def mark (x : TopAppsData) (t : Int) : TopAppsData :=
  let slots := if x.t.getLast?.all (·.t < t) then x.t ++ [⟨t, 0⟩] else x.t
  { x with t := slots.modify (slots.length - 1) fun slot => { slot with n := slot.n + 1 },
           n := x.n + 1 }

/-- The loop of `Trim`: the slots that are kept, and the requests in the others. -/
def trimSlots (t : Int) : List TopAppsEntryTimeSlot → Int → List TopAppsEntryTimeSlot × Int
  | [], n => ([], n)
  | slot :: slots, n => if slot.t > t then (slot :: slots, n) else trimSlots t slots (n + slot.n)

def trim (x : TopAppsData) (t : Int) : TopAppsData :=
  let (slots, n) := trimSlots t x.t 0
  { x with t := slots, n := x.n - n }

end TopAppsData

def byFirstMarkTimeHeap : HeapType TopAppsEntry where
  -- An entry without slots panics.
  less yi yj := do
    let first ← yi.t[0]?
    let second ← yj.t[0]?
    some (first.t < second.t)
  setIndex y j := { y with ti := j }

def byRequestsHeap : HeapType TopAppsEntry where
  less yi yj := some (yi.n > yj.n)
  setIndex y j := { y with ni := j }

def byRequestsHeapSnapshot : HeapType TopAppsEntry := byRequestsHeap.snapshot

def byMarks : Side → HeapType TopAppsEntry
  | .first => byFirstMarkTimeHeap
  | .second => byRequestsHeap

abbrev TopApps := Apps TopAppsEntry

structure TopAppsTopEntry where
  applicationId : Str
  requests : Int
  deriving DecidableEq

namespace TopApps

def entry (x : TopApps) (applicationId : Str) : Option (TopApps × Nat) :=
  match x.m.lookup applicationId with
  | some y => do
    let e ← x.entries[y]?
    let (x, z1) ← Apps.remove byMarks .first x e.ti
    -- "z1 != y"
    guard (z1 = y)
    let e ← x.entries[y]?
    let (x, z2) ← Apps.remove byMarks .second x e.ni
    -- "z2 != y"
    guard (z2 = y)
    some (x, y)
  | none =>
    some (x.insert applicationId { t := [], n := 0, ti := 0, ni := 0,
                                   applicationId := applicationId }, x.entries.length)

def mark (x : TopApps) (applicationId : Str) (z : Int) : Option TopApps := do
  let t := unix z
  let (x, y) ← entry x applicationId
  let x := x.modify y fun e => { e with toTopAppsData := e.toTopAppsData.mark t }
  x.pushBoth byMarks y

/-- The loop of `trim`. Each turn but the last leaves one application less whose
first slot is old. -/
def trimLoop (t : Int) : Nat → TopApps → Option TopApps
  | 0, _ => none
  | turns + 1, x =>
    if (x.heap .first).length > 0 then do
      let (x, y) ← Apps.pop byMarks .first x
      let u ← x.entries[y]?
      let (x, v) ← Apps.remove byMarks .second x u.ni
      -- "v != u"
      guard (v = y)
      let slot ← u.t[0]?
      if slot.t > t then x.pushBoth byMarks y
      else
        let x := x.modify y fun e => { e with toTopAppsData := e.toTopAppsData.trim t }
        let u ← x.entries[y]?
        match u.t with
        | [] => trimLoop t turns { x with m := x.m.erase u.applicationId }
        | slot :: _ =>
          -- "expected u.t[0].t <= t"
          if slot.t ≤ t then none
          else (x.pushBoth byMarks y).bind (trimLoop t turns)
    else some x

def trim (x : TopApps) (y : Int) : Option TopApps := trimLoop (unix y) (x.m.size + 1) x

def topSinceLoop (n : Int) : Nat → Heap TopAppsEntry → List TopAppsTopEntry →
    Option (List TopAppsTopEntry)
  | 0, _, _ => none
  | turns + 1, a, s =>
    if a.h.length > 0 ∧ s.length < n then do
      let (a, y) ← byRequestsHeapSnapshot.interface.heapPop a
      let z ← a.entries[y]?
      topSinceLoop n turns a (s ++ [⟨z.applicationId, z.n⟩])
    else some s

/-- `TopSince`; a slice of a negative capacity cannot be made. -/
def topSince (x : TopApps) (y : Int) (n : Int) : Option (TopApps × List TopAppsTopEntry) := do
  let x ← trim x (y - 1000000000)
  guard (0 ≤ n)
  let s ← topSinceLoop n ((x.heap .second).length + 1) (x.side .second) []
  some (x, s)

-- ---------------------------------------------------------------------------
-- Runs
-- ---------------------------------------------------------------------------

inductive Call
  | mark (applicationId : Str) (z : Int)
  | trim (y : Int)
  | topSince (y : Int) (n : Nat)

def step (x : TopApps) : Call → Option TopApps
  | .mark applicationId z => mark x applicationId z
  | .trim y => trim x y
  | .topSince y n => (topSince x y n).map Prod.fst

def trimmed (t : Int) (d : TopAppsData) : Option TopAppsData :=
  if (d.trim t).t = [] then none else some (d.trim t)

def Call.note (data : Str → Option TopAppsData) : Call → Str → Option TopAppsData
  | .mark applicationId z => fun a =>
    if a = applicationId then some (((data a).getD ⟨[], 0, a⟩).mark (unix z)) else data a
  | .trim y => fun a => (data a).bind (trimmed (unix y))
  | .topSince y _ => fun a => (data a).bind (trimmed (unix y - 1))

def slotsAfter (calls : List Call) : Str → Option TopAppsData := calls.foldl Call.note fun _ => none

end TopApps

-- ---------------------------------------------------------------------------
-- Slots
-- ---------------------------------------------------------------------------

namespace TopAppsData

def total (slots : List TopAppsEntryTimeSlot) : Int := (slots.map (·.n)).sum

/-- There are slots, later ones after earlier ones, and their requests are
counted. -/
structure Formed (d : TopAppsData) : Prop where
  slots : d.t ≠ []
  increasing : d.t.Pairwise (·.t < ·.t)
  count : d.n = total d.t

theorem total_append (l l' : List TopAppsEntryTimeSlot) : total (l ++ l') = total l + total l' := by
  rw [total, List.map_append, List.sum_append, total, total]

theorem mark_t (d : TopAppsData) (t : Int) :
    (∃ init last, d.t = init ++ [last] ∧ t ≤ last.t ∧
      (d.mark t).t = init ++ [⟨last.t, last.n + 1⟩]) ∨
      ((∀ last ∈ d.t.getLast?, last.t < t) ∧ (d.mark t).t = d.t ++ [⟨t, 1⟩]) := by
  have hmodify : ∀ (init : List TopAppsEntryTimeSlot) last,
      (init ++ [last]).modify ((init ++ [last]).length - 1)
        (fun slot => { slot with n := slot.n + 1 }) =
        init ++ [⟨last.t, last.n + 1⟩] := by
    intro init last
    simp [List.modify_eq_take_cons_drop]
  by_cases hlast : d.t.getLast?.all (·.t < t)
  · refine .inr ⟨fun last hin => ?_, ?_⟩
    · rw [hin] at hlast
      exact of_decide_eq_true hlast
    · simp only [mark, if_pos hlast, hmodify, Int.zero_add]
  · obtain hnil | ⟨init, last, hconcat⟩ := d.t.eq_nil_or_concat'
    · rw [hnil] at hlast
      exact absurd rfl hlast
    · refine .inl ⟨init, last, hconcat, ?_, ?_⟩
      · simpa [hconcat] using hlast
      · simp only [mark, if_neg hlast]
        rw [hconcat, hmodify]

theorem mark_increasing {d : TopAppsData} (h : d.t.Pairwise (·.t < ·.t)) (t : Int) :
    (d.mark t).t.Pairwise (·.t < ·.t) := by
  obtain ⟨init, last, hd, ht, hmark⟩ | ⟨hlast, hmark⟩ := d.mark_t t
  · rw [hd, List.pairwise_append] at h
    rw [hmark, List.pairwise_append]
    exact ⟨h.1, List.pairwise_singleton _ _, by simpa using h.2.2⟩
  · rw [hmark, List.pairwise_append]
    refine ⟨h, List.pairwise_singleton _ _, fun slot hslot new hnew => ?_⟩
    rw [List.mem_singleton.mp hnew]
    obtain hnil | ⟨init, last, hconcat⟩ := d.t.eq_nil_or_concat'
    · rw [hnil] at hslot
      cases hslot
    · have hlt : last.t < t := hlast last (by simp [hconcat])
      rw [hconcat, List.pairwise_append] at h
      rw [hconcat, List.mem_append, List.mem_singleton] at hslot
      obtain hin | rfl := hslot
      · exact (h.2.2 slot hin last (by simp)).trans hlt
      · exact hlt

/-- The marked entry is formed; a new entry counts as one without requests. -/
theorem mark_formed {d : TopAppsData} (hincreasing : d.t.Pairwise (·.t < ·.t))
    (hcount : d.n = total d.t) (t : Int) :
    (d.mark t).Formed := by
  have hn : (d.mark t).n = d.n + 1 := rfl
  refine ⟨?_, mark_increasing hincreasing t, ?_⟩
  · obtain ⟨_, _, -, -, hmark⟩ | ⟨-, hmark⟩ := d.mark_t t <;> simp [hmark]
  · obtain ⟨init, last, hd, -, hmark⟩ | ⟨-, hmark⟩ := d.mark_t t
    · rw [hmark, hn, hcount, hd, total_append, total_append]
      simp only [total, List.map_cons, List.map_nil, List.sum_singleton]
      omega
    · rw [hmark, hn, hcount, total_append]
      rfl

theorem trimSlots_fst (t : Int) (l : List TopAppsEntryTimeSlot) (n : Int) :
    (trimSlots t l n).1 = l.dropWhile (·.t ≤ t) := by
  induction l generalizing n with
  | nil => rfl
  | cons slot l ih =>
    by_cases hslot : slot.t > t
    · rw [trimSlots, if_pos hslot, List.dropWhile_cons_of_neg (by simpa using hslot)]
    · rw [trimSlots, if_neg hslot, ih, List.dropWhile_cons_of_pos (by simpa using hslot)]

theorem trimSlots_total (t : Int) (l : List TopAppsEntryTimeSlot) (n : Int) :
    (trimSlots t l n).2 + total (trimSlots t l n).1 = n + total l := by
  induction l generalizing n with
  | nil => rfl
  | cons slot l ih =>
    by_cases hslot : slot.t > t
    · rw [trimSlots, if_pos hslot]
    · rw [trimSlots, if_neg hslot, ih]
      simp only [total, List.map_cons, List.sum_cons]
      omega

theorem trim_t (d : TopAppsData) (t : Int) : (d.trim t).t = d.t.dropWhile (·.t ≤ t) :=
  trimSlots_fst t d.t 0

theorem Formed.trim {d : TopAppsData} (h : d.Formed) (t : Int) (hne : (d.trim t).t ≠ []) :
    (d.trim t).Formed := by
  refine ⟨hne, ?_, ?_⟩
  · rw [trim_t]
    exact h.increasing.sublist (List.dropWhile_sublist _)
  · have htotal := trimSlots_total t d.t 0
    have hcount := h.count
    simp only [TopAppsData.trim]
    omega

theorem trim_of_first {d : TopAppsData} {t : Int} (hd : d.t = slot :: slots) (ht : slot.t > t) :
    d.trim t = d := by
  simp only [TopAppsData.trim, hd, trimSlots, if_pos ht, Int.sub_zero]
  rw [← hd]

theorem lt_of_trim {d : TopAppsData} {t : Int} (hd : (d.trim t).t = slot :: slots) :
    t < slot.t := by
  rw [trim_t] at hd
  have hhead := List.head_dropWhile_not (fun slot : TopAppsEntryTimeSlot => decide (slot.t ≤ t))
    (l := d.t) (by rw [hd]; simp)
  simp only [hd, List.head_cons, decide_eq_false_iff_not] at hhead
  omega

end TopAppsData

namespace TopApps

-- ---------------------------------------------------------------------------
-- Coherence
-- ---------------------------------------------------------------------------

def reading : Reading TopAppsEntry TopAppsData where
  data e := e.toTopAppsData
  applicationId d := d.applicationId
  rank
    | .first, d => d.t.head?.elim 0 (·.t)
    | .second, d => -d.n
  Valid := TopAppsData.Formed
  index
    | .first, e => e.ti
    | .second, e => e.ni

theorem reading_lawful : reading.Lawful byMarks where
  less s a b ha hb := by
    cases s with
    | first =>
      obtain ⟨slot, slots, hslots⟩ := List.exists_cons_of_ne_nil ha.slots
      obtain ⟨slot', slots', hslots'⟩ := List.exists_cons_of_ne_nil hb.slots
      simp only [reading] at hslots hslots'
      simp [byMarks, byFirstMarkTimeHeap, reading, hslots, hslots']
    | second => simp [byMarks, byRequestsHeap, reading]
  again s e i j := by cases s <;> rfl
  data s e i := by cases s <;> rfl
  own s e i := by cases s <;> rfl
  other s s' e i hne := by cases s <;> cases s' <;> first | rfl | exact absurd rfl hne

structure Represents (x : TopApps) (data : Str → Option TopAppsData) : Prop where
  coherent : reading.Coherent x
  data : ∀ a, reading.dataOf x a = data a

theorem represents_empty : Represents .empty fun _ => none :=
  ⟨Reading.empty_coherent reading, fun _ => rfl⟩

theorem entry_detached (h : reading.Coherent x) (applicationId : Str) :
    ∃ x' y, entry x applicationId = some (x', y) ∧ reading.Detached x' applicationId y ∧
      ∀ a, reading.dataOf x' a =
        if a = applicationId then some ((reading.dataOf x a).getD ⟨[], 0, applicationId⟩)
          else reading.dataOf x a := by
  obtain ⟨y, e, x₁, e₁, x₂, hid, he, hx₁, he₁, hx₂, hdet, hdata⟩ | ⟨hid, hdet, hdata⟩ :=
    reading_lawful.entry h applicationId
    (e := { t := [], n := 0, ti := 0, ni := 0, applicationId := applicationId }) rfl
  · refine ⟨x₂, y, ?_, hdet, hdata⟩
    simp only [entry, hid, bind, Option.bind_some, he,
      show e.ti = reading.index .first e from rfl, hx₁, he₁,
      show e₁.ni = reading.index .second e₁ from rfl, hx₂, guard_true, pure]
  · exact ⟨_, _, by rw [entry, hid], hdet, hdata⟩

theorem mark_represents (h : Represents x data) (applicationId : Str) (z : Int) :
    ∃ x', mark x applicationId z = some x' ∧
      Represents x' (Call.note data (.mark applicationId z)) := by
  obtain ⟨x₁, y, hx₁, hdet, hdata₁⟩ := entry_detached h.coherent applicationId
  have hformed : (((data applicationId).getD ⟨[], 0, applicationId⟩).mark (unix z)).Formed := by
    cases hd : data applicationId with
    | none => exact TopAppsData.mark_formed .nil rfl _
    | some d =>
      have hvalid : d.Formed := h.coherent.valid ((h.data applicationId).trans hd)
      exact TopAppsData.mark_formed hvalid.increasing hvalid.count _
  obtain ⟨x', hx', hcoherent, hdata⟩ := reading_lawful.reattach hdet
    (f := fun e => { e with toTopAppsData := e.toTopAppsData.mark (unix z) })
      (g := (·.mark (unix z)))
    (fun _ => rfl) (fun d => rfl) (by rw [hdata₁, if_pos rfl, h.data]) hformed
  refine ⟨x', by simp only [mark, hx₁, bind, Option.bind_some, hx'], hcoherent, fun a => ?_⟩
  by_cases ha : a = applicationId
  · subst ha
    rw [hdata, if_pos rfl]
    simp only [Call.note, if_true]
  · rw [hdata, if_neg ha, hdata₁, if_neg ha, h.data]
    simp only [Call.note, if_neg ha]

theorem trimmed_of_first {d : TopAppsData} {t : Int} (hd : d.t = slot :: rest) (ht : slot.t > t) :
    trimmed t d = some d := by
  rw [trimmed, TopAppsData.trim_of_first hd ht, if_neg (by simp [hd])]

theorem trimmed_eq_some {d d' : TopAppsData} {t : Int} :
    trimmed t d = some d' ↔ d' = d.trim t ∧ ∃ slot rest, d'.t = slot :: rest ∧ t < slot.t := by
  rw [trimmed]
  split
  · next hnil =>
    refine ⟨fun h => absurd h (by simp), ?_⟩
    rintro ⟨rfl, slot, rest, hd, -⟩
    rw [hnil] at hd
    cases hd
  · next hne =>
    rw [Option.some.injEq, eq_comm]
    refine ⟨?_, fun h => h.1⟩
    rintro rfl
    obtain ⟨slot, rest, hd⟩ := List.exists_cons_of_ne_nil hne
    exact ⟨rfl, slot, rest, hd, TopAppsData.lt_of_trim hd⟩

theorem trimmed_trimmed (t : Int) (d : TopAppsData) :
    (trimmed t d).bind (trimmed t) = trimmed t d := by
  cases hd : trimmed t d with
  | none => rfl
  | some d' =>
    obtain ⟨-, slot, rest, hslots, ht⟩ := trimmed_eq_some.mp hd
    exact trimmed_of_first hslots ht

def isOld (t : Int) (d : TopAppsData) : Bool := d.t.head?.any (·.t ≤ t)

theorem not_isOld_of_trimmed {d d' : TopAppsData} {t : Int} (h : trimmed t d = some d') :
    ¬ isOld t d' := by
  obtain ⟨-, slot, rest, hslots, ht⟩ := trimmed_eq_some.mp h
  simpa [isOld, hslots] using ht

section
variable {t : Int} {id : Str}

theorem trimLoop_next (h : Represents x data) (hid : data id = some d) (hold : isOld t d)
    (hx : Represents x' fun a => if a = id then trimmed t d else data a)
    (ih : ∀ {x data}, Represents x data → (reading.due (isOld t) x).card < turns →
      ∃ x', trimLoop t turns x = some x' ∧ Represents x' fun a => (data a).bind (trimmed t))
    (hturns : (reading.due (isOld t) x).card < turns + 1) :
    ∃ x'', trimLoop t turns x' = some x'' ∧ Represents x'' fun a => (data a).bind (trimmed t) := by
  have hdue : (reading.due (isOld t) x').card < (reading.due (isOld t) x).card := by
    refine card_due_lt ((h.data id).trans hid) hold (fun d' hd' => ?_) fun i hi => ?_
    · rw [hx.data, if_pos rfl] at hd'
      exact not_isOld_of_trimmed hd'
    · rw [hx.data, if_neg hi, h.data]
  obtain ⟨x'', hx'', hrep⟩ := ih hx (by omega)
  refine ⟨x'', hx'', hrep.coherent, fun a => ?_⟩
  rw [hrep.data]
  split
  · next ha =>
    rw [ha, hid, trimmed_trimmed]
    rfl
  · rfl

theorem trim_entry (h : Represents x data) (hdet : reading.Detached x₂ id ptr)
    (hkept : reading.Kept x x₂) (hid : data id = some d) (t : Int) :
    ∃ x₃ e₃, x₂.modify ptr (fun e => { e with toTopAppsData := e.toTopAppsData.trim t }) = x₃ ∧
      x₃.entries[ptr]? = some e₃ ∧
      e₃.applicationId = id ∧
      (e₃.t = [] ∧ Represents { x₃ with m := x₃.m.erase id }
        (fun a => if a = id then trimmed t d else data a) ∨
        ∃ slot rest x₄, e₃.t = slot :: rest ∧ t < slot.t ∧ x₃.pushBoth byMarks ptr = some x₄ ∧
          Represents x₄ fun a => if a = id then trimmed t d else data a) := by
  obtain ⟨hdet₃, hdata₃⟩ := hdet.modify
    (f := fun e => { e with toTopAppsData := e.toTopAppsData.trim t }) (g := (·.trim t))
      (fun _ => rfl) (fun _ => rfl)
  obtain ⟨e₃, he₃, hid₃⟩ := hdet₃.entry
  have hd : reading.dataOf x id = some d := (h.data id).trans hid
  have htrim : e₃.toTopAppsData = d.trim t := by
    have hsame := hid₃
    rw [hdata₃, if_pos rfl, hkept.dataOf, hd] at hsame
    exact (Option.some.inj hsame).symm
  refine ⟨_, e₃, rfl, he₃, hdet₃.keyed.applicationId hid₃, ?_⟩
  cases hslots : e₃.t with
  | nil =>
    obtain ⟨hcoherent, hdata⟩ := hdet₃.delete
    refine .inl ⟨rfl, hcoherent, fun a => ?_⟩
    rw [hdata]
    split
    · rw [trimmed, if_pos (by rw [← htrim, hslots])]
    · next ha =>
      rw [hdata₃, if_neg ha, hkept.dataOf, h.data]
  | cons slot rest =>
    have hne : (d.trim t).t ≠ [] := by
      rw [← htrim, hslots]
      exact List.cons_ne_nil _ _
    obtain ⟨x₄, hx₄, hcoherent, hdata⟩ := reading_lawful.reattach hdet
      (f := fun e => { e with toTopAppsData := e.toTopAppsData.trim t }) (g := (·.trim t))
        (fun _ => rfl) (fun _ => rfl)
      (hkept.dataOf ▸ hd) ((h.coherent.valid hd).trim t hne)
    refine .inr ⟨slot, rest, x₄, rfl, TopAppsData.lt_of_trim (htrim ▸ hslots), hx₄,
      hcoherent, fun a => ?_⟩
    rw [hdata]
    split
    · rw [trimmed, if_neg hne]
    · rw [hkept.dataOf, h.data]

/-- Trimming: the earliest slot decides whether anything is left to trim. -/
theorem trimLoop_represents (h : Represents x data)
    (hturns : (reading.due (isOld t) x).card < turns) :
    ∃ x', trimLoop t turns x = some x' ∧ Represents x' fun a => (data a).bind (trimmed t) := by
  induction turns generalizing x data with
  | zero => omega
  | succ turns ih =>
    by_cases hnil : x.heap .first = []
    · refine ⟨x, by simp [trimLoop, hnil], h.coherent, fun a => ?_⟩
      rw [← h.data, h.coherent.dataOf_eq_none hnil]
      rfl
    · obtain ⟨x₁, ptr, id, e, hpop, he, hid, hown, hleast, -, x₂, hremove, hdet, hkept⟩ :=
        reading_lawful.popFirst h.coherent hnil
      have hlen : (x.heap .first).length > 0 := List.length_pos_of_ne_nil hnil
      have hformed : e.toTopAppsData.Formed := h.coherent.valid hid
      obtain ⟨slot, rest, hslots⟩ := List.exists_cons_of_ne_nil hformed.slots
      have hdata : data id = some e.toTopAppsData := (h.data id).symm.trans hid
      have hni : e.ni = reading.index .second e := rfl
      by_cases ht : slot.t > t
      · obtain ⟨x', hpush, hcoherent', hback⟩ := reading_lawful.attach hdet fun d hd => by
          rw [hkept.dataOf] at hd
          exact h.coherent.valid hd
        refine ⟨x', ?_, hcoherent', fun a => ?_⟩
        · simp only [trimLoop, hlen, if_true, hpop, bind, Option.bind_some, he, hni, hremove,
            guard_true, pure, hslots, List.getElem?_cons_zero, ht, hpush]
        · rw [hback.dataOf, hkept.dataOf, h.data]
          cases ha : data a with
          | none => rfl
          | some d =>
            have hd : reading.dataOf x a = some d := (h.data a).trans ha
            obtain ⟨slot', rest', hslots'⟩ := List.exists_cons_of_ne_nil (h.coherent.valid hd).slots
            have hle : slot.t ≤ slot'.t := by simpa [reading, hslots, hslots'] using hleast a d hd
            exact (trimmed_of_first hslots' (by omega)).symm
      · have hold : isOld t e.toTopAppsData := by simpa [isOld, hslots] using ht
        obtain ⟨x₃, e₃, hx₃, he₃, hid₃, ⟨hnone, hrep⟩ |
          ⟨slot₃, rest₃, x₄, hslots₃, ht₃, hx₄, hrep⟩⟩ :=
          trim_entry h hdet hkept hdata t
        · obtain ⟨x', hx', hrep'⟩ := trimLoop_next h hdata hold hrep ih hturns
          refine ⟨x', ?_, hrep'⟩
          simp only [trimLoop, hlen, if_true, hpop, bind, Option.bind_some, he, hni, hremove,
            guard_true, pure, hslots, List.getElem?_cons_zero, ht, if_false, hx₃, he₃,
            hnone, hid₃, hx']
        · obtain ⟨x', hx', hrep'⟩ := trimLoop_next h hdata hold hrep ih hturns
          refine ⟨x', ?_, hrep'⟩
          simp only [trimLoop, hlen, if_true, hpop, bind, Option.bind_some, he, hni, hremove,
            guard_true, pure, hslots, List.getElem?_cons_zero, ht, if_false, hx₃, he₃, hslots₃,
            not_le.mpr ht₃, hx₄, hx']

end

theorem trim_represents (h : Represents x data) (y : Int) :
    ∃ x', trim x y = some x' ∧ Represents x' fun a => (data a).bind (trimmed (unix y)) :=
  trimLoop_represents h (Nat.lt_succ_of_le (card_due_le _ _))

-- ---------------------------------------------------------------------------
-- TopSince
-- ---------------------------------------------------------------------------

theorem topSinceLoop_eq (h : Heap.Drains byRequestsHeapSnapshot entries l es)
    (hturns : es.length < turns) {n : Nat} (s : List TopAppsTopEntry) :
    topSinceLoop n turns ⟨entries, l⟩ s =
      some (s ++ (es.take (n - s.length)).map fun e => ⟨e.applicationId, e.n⟩) := by
  induction h generalizing turns s with
  | nil =>
    obtain ⟨turns, rfl⟩ : ∃ n, turns = n + 1 := ⟨turns - 1, by omega⟩
    simp [topSinceLoop]
  | @cons l ptr l' e es hpop he _ ih =>
    obtain ⟨turns, rfl⟩ : ∃ n, turns = n + 1 := ⟨turns - 1, by omega⟩
    have hlen : l.length > 0 := length_pos_of_heapPop hpop
    by_cases hs : s.length < n
    · obtain ⟨k, hk⟩ : ∃ k, n - s.length = k + 1 := ⟨n - s.length - 1, by omega⟩
      have hk' : n - (s ++ [(⟨e.applicationId, e.n⟩ : TopAppsTopEntry)]).length = k := by
        rw [List.length_append, List.length_singleton]
        omega
      simp only [topSinceLoop, hlen, Int.ofNat_lt, hs, and_self, if_true, hpop, bind,
        Option.bind_some, he]
      rw [ih (by simpa using hturns), hk', hk, List.take_succ_cons, List.map_cons,
        List.append_assoc, List.singleton_append]
    · have hzero : n - s.length = 0 := by omega
      simp [topSinceLoop, hs, hzero]

structure Tops (data : Str → Option TopAppsData) (n : Nat) (s : List TopAppsTopEntry) : Prop where
  once : (s.map (·.applicationId)).Nodup
  counts : ∀ e ∈ s, ∃ d, data e.applicationId = some d ∧ e.requests = d.n
  sorted : s.Pairwise fun a b => b.requests ≤ a.requests
  length : s.length ≤ n
  rest : ∀ a d, data a = some d → a ∉ s.map (·.applicationId) →
    s.length = n ∧ ∀ e ∈ s, d.n ≤ e.requests

theorem unix_sub_second (y : Int) : unix (y - 1000000000) = unix y - 1 := by
  rw [unix, unix]
  omega

theorem tops_take {es : List TopAppsEntry} (hnodup : (es.map fun e => e.applicationId).Nodup)
    (hmem : ∀ a d, data a = some d ↔ ∃ e ∈ es, e.toTopAppsData = d ∧ e.applicationId = a)
    (hsorted : es.Pairwise fun a b => b.n ≤ a.n) (n : Nat) :
    Tops data n ((es.take n).map fun e => ⟨e.applicationId, e.n⟩) := by
  have hsub : (es.take n).Sublist es := List.take_sublist n es
  refine ⟨?_, fun e he => ?_, ?_, ?_, fun a d ha hnot => ?_⟩
  · rw [List.map_map]
    exact hnodup.sublist (hsub.map _)
  · obtain ⟨z, hz, rfl⟩ := List.mem_map.mp he
    exact ⟨z.toTopAppsData, (hmem _ _).mpr ⟨z, hsub.subset hz, rfl, rfl⟩, rfl⟩
  · rw [List.pairwise_map]
    exact hsorted.sublist hsub
  · rw [List.length_map, List.length_take]
    omega
  · -- The entries left out come after those that are reported.
    obtain ⟨z, hz, rfl, rfl⟩ := (hmem a d).mp ha
    rw [← List.take_append_drop n es, List.mem_append] at hz
    have hdrop : z ∈ es.drop n := hz.resolve_left fun hin =>
      hnot (List.mem_map.mpr ⟨⟨z.applicationId, z.n⟩, List.mem_map_of_mem hin, rfl⟩)
    refine ⟨?_, fun e he => ?_⟩
    · have := List.length_pos_of_mem hdrop
      rw [List.length_drop] at this
      rw [List.length_map, List.length_take]
      omega
    · obtain ⟨w, hw, rfl⟩ := List.mem_map.mp he
      rw [← List.take_append_drop n es, List.pairwise_append] at hsorted
      exact hsorted.2.2 w hw z hdrop

theorem topSince_represents (h : Represents x data) (y : Int) (n : Nat) :
    ∃ x' s, topSince x y n = some (x', s) ∧ Represents x' (Call.note data (.topSince y n)) ∧
      Tops (Call.note data (.topSince y n)) n s := by
  obtain ⟨x', hx', htrim⟩ := trim_represents h (y - 1000000000)
  have hrep : Represents x' (Call.note data (.topSince y n)) := by
    rw [unix_sub_second] at htrim
    exact htrim
  obtain ⟨es, hdrains, hlen, hnodup, hmem, hsorted⟩ := reading_lawful.drains hrep.coherent .second
  have hs := topSinceLoop_eq (n := n) hdrains (Nat.lt_succ_of_le hlen) []
  rw [List.nil_append, List.length_nil, Nat.sub_zero] at hs
  refine ⟨x', (es.take n).map fun e => ⟨e.applicationId, e.n⟩, ?_, hrep,
    tops_take hnodup (fun a d => ?_) ?_ n⟩
  · simp only [topSince, hx', bind, Option.bind_some, Int.natCast_nonneg, guard_true,
      pure, Apps.side, hs]
  · rw [← hrep.data]
    constructor
    · intro ha
      obtain rfl : d.applicationId = a := hrep.coherent.keyed.applicationId ha
      obtain ⟨z, hz, rfl⟩ := List.mem_map.mp ((hmem d).mpr ha)
      exact ⟨z, hz, rfl, rfl⟩
    · rintro ⟨z, hz, rfl, rfl⟩
      exact (hmem _).mp (List.mem_map_of_mem hz)
  · exact hsorted.imp fun hab => by simpa [reading] using hab

theorem step_represents (h : Represents x data) (call : Call) :
    ∃ x', step x call = some x' ∧ Represents x' (Call.note data call) := by
  cases call with
  | mark applicationId z => exact mark_represents h applicationId z
  | trim y => exact trim_represents h y
  | topSince y n =>
    obtain ⟨x', s, hx', hrep, -⟩ := topSince_represents h y n
    exact ⟨x', by rw [step, hx', Option.map_some], hrep⟩

theorem run_represents (calls : List Call) :
    ∃ x, run step .empty calls = some x ∧ Represents x (slotsAfter calls) :=
  run_simulates (fun _ _ call _ h => step_represents h call) represents_empty

end TopApps

-- ---------------------------------------------------------------------------
-- Both statistics
-- ---------------------------------------------------------------------------

/-- Whatever is called, nothing panics and both statistics stay coherent.
`ActiveSince` then returns the applications whose latest mark is not before the
second of `y`, and `TopSince` the entries with the most requests of those its
own trim leaves. -/
theorem statistics_coherent :
    (∀ calls, ∃ x, run ActiveApps.step .empty calls = some x ∧ ActiveApps.reading.Coherent x ∧
      ∀ y, ∃ ids, ActiveApps.activeSince x y = some ids ∧ ids.Nodup ∧
        (∀ a, a ∈ ids ↔ ∃ t, ActiveApps.latestMarks calls a = some t ∧ unix y ≤ t) ∧
        ids.Pairwise fun a b => ∃ t t', ActiveApps.latestMarks calls a = some t ∧
        ActiveApps.latestMarks calls b = some t' ∧ t' ≤ t) ∧
    ∀ calls, ∃ x, run TopApps.step .empty calls = some x ∧ TopApps.reading.Coherent x ∧
      (∀ a d, TopApps.reading.dataOf x a = some d → d.t ≠ [] ∧ d.n = TopAppsData.total d.t) ∧
      ∀ y (n : Nat), ∃ x' s, TopApps.topSince x y n = some (x', s) ∧ TopApps.reading.Coherent x' ∧
        (∀ a, TopApps.reading.dataOf x' a =
          (TopApps.reading.dataOf x a).bind (TopApps.trimmed (unix y - 1))) ∧
        TopApps.Tops (TopApps.reading.dataOf x') n s := by
  refine ⟨fun calls => ?_, fun calls => ?_⟩
  · obtain ⟨x, hx, hrep⟩ := ActiveApps.run_represents calls
    exact ⟨x, hx, hrep.coherent, ActiveApps.activeSince_represents hrep⟩
  · obtain ⟨x, hx, hrep⟩ := TopApps.run_represents calls
    refine ⟨x, hx, hrep.coherent, fun a d hd => ?_, fun y n => ?_⟩
    · have hformed : d.Formed := hrep.coherent.valid hd
      exact ⟨hformed.slots, hformed.count⟩
    · obtain ⟨x', s, hs, hrep', htops⟩ := TopApps.topSince_represents hrep y n
      refine ⟨x', s, hs, hrep'.coherent, fun a => ?_, funext hrep'.data ▸ htops⟩
      rw [hrep'.data, hrep.data]
      rfl

/-- Times are compared in seconds: an application is active since 1.7 s though
its only mark is at 1.2 s. -/
theorem active_since_later :
    (run ActiveApps.step .empty [.mark "a".toList 1200000000]).bind
      (ActiveApps.activeSince · 1700000000) = some ["a".toList] ∧
      (1200000000 : Int) < 1700000000 := by
  decide

end BigipCtlr.Stats
