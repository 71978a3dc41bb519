import BigipCtlr.Lib.Run
import BigipCtlr.Stats.Apps

/-!
# Active applications

`ActiveApps` keeps the time of each application's latest mark in a min-heap, by
which `Trim` finds what is old, and in a max-heap, by which `ActiveSince` finds
what is recent. Marks and trims keep the heaps coherent, and the whole is a map
from applications to seconds.
-/

namespace BigipCtlr.Stats

open Go Lib

structure ActiveAppsData where
  t : Int
  applicationId : Str
  deriving DecidableEq

structure ActiveAppsEntry extends ActiveAppsData where
  ti : Int
  tj : Int
  deriving DecidableEq

def ActiveAppsData.mark (x : ActiveAppsData) (t : Int) : ActiveAppsData :=
  if x.t < t then { x with t := t } else x

def byTimeMinHeap : HeapType ActiveAppsEntry where
  less yi yj := some (yi.t < yj.t)
  setIndex y j := { y with ti := j }

def byTimeMaxHeap : HeapType ActiveAppsEntry where
  less yi yj := some (yi.t > yj.t)
  setIndex y j := { y with tj := j }

def byTimeMaxHeapSnapshot : HeapType ActiveAppsEntry := byTimeMaxHeap.snapshot

def byTime : Side → HeapType ActiveAppsEntry
  | .first => byTimeMinHeap
  | .second => byTimeMaxHeap

abbrev ActiveApps := Apps ActiveAppsEntry

namespace ActiveApps

def entry (x : ActiveApps) (applicationId : Str) : Option (ActiveApps × Nat) :=
  match x.m.lookup applicationId with
  | some y => do
    let e ← x.entries[y]?
    let (x, _) ← Apps.remove byTime .first x e.ti
    let e ← x.entries[y]?
    let (x, _) ← Apps.remove byTime .second x e.tj
    some (x, y)
  | none =>
    some (x.insert applicationId { t := 0, ti := 0, tj := 0, applicationId := applicationId },
      x.entries.length)

def mark (x : ActiveApps) (applicationId : Str) (z : Int) : Option ActiveApps := do
  let t := unix z
  let (x, y) ← entry x applicationId
  let x := x.modify y fun e => { e with toActiveAppsData := e.toActiveAppsData.mark t }
  x.pushBoth byTime y

/-- The loop of `Trim`. Each turn but the last takes an application out. -/
def trimLoop (t : Int) : Nat → ActiveApps → Option ActiveApps
  | 0, _ => none
  | turns + 1, x =>
    if (x.heap .first).length > 0 then do
      let (x, y) ← Apps.pop byTime .first x
      let z ← x.entries[y]?
      if z.t > t then
        -- It goes back to the min-heap.
        Apps.push byTime .first x y
      else
        let (x, _) ← Apps.remove byTime .second x z.tj
        trimLoop t turns { x with m := x.m.erase z.applicationId }
    else some x

def trim (x : ActiveApps) (y : Int) : Option ActiveApps := trimLoop (unix y) (x.m.size + 1) x

def activeSinceLoop (t : Int) : Nat → Heap ActiveAppsEntry → List Str → Option (List Str)
  | 0, _, _ => none
  | turns + 1, a, b =>
    if a.h.length > 0 then do
      let (a, y) ← byTimeMaxHeapSnapshot.interface.heapPop a
      let z ← a.entries[y]?
      if z.t < t then some b else activeSinceLoop t turns a (b ++ [z.applicationId])
    else some b

def activeSince (x : ActiveApps) (y : Int) : Option (List Str) :=
  activeSinceLoop (unix y) ((x.heap .second).length + 1) (x.side .second) []

-- ---------------------------------------------------------------------------
-- Runs
-- ---------------------------------------------------------------------------

inductive Call
  | mark (applicationId : Str) (z : Int)
  | trim (y : Int)

def step (x : ActiveApps) : Call → Option ActiveApps
  | .mark applicationId z => mark x applicationId z
  | .trim y => trim x y

/-- What the calls make of the applications' latest marks, in seconds. A trim
forgets those up to its second, and an application that is not known counts from
the epoch. -/
def Call.note (last : Str → Option Int) : Call → Str → Option Int
  | .mark applicationId z =>
    fun a => if a = applicationId then some (max ((last a).getD 0) (unix z)) else last a
  | .trim y => fun a => (last a).filter (unix y < ·)

def latestMarks (calls : List Call) : Str → Option Int := calls.foldl Call.note fun _ => none

-- ---------------------------------------------------------------------------
-- Coherence
-- ---------------------------------------------------------------------------

def reading : Reading ActiveAppsEntry ActiveAppsData where
  data e := e.toActiveAppsData
  applicationId d := d.applicationId
  rank
    | .first, d => d.t
    | .second, d => -d.t
  Valid _ := True
  index
    | .first, e => e.ti
    | .second, e => e.tj

theorem reading_lawful : reading.Lawful byTime where
  less s a b _ _ := by
    cases s with
    | first => rfl
    | second => simp [byTime, byTimeMaxHeap, reading]
  again s e i j := by cases s <;> rfl
  data s e i := by cases s <;> rfl
  own s e i := by cases s <;> rfl
  other s s' e i hne := by cases s <;> cases s' <;> first | rfl | exact absurd rfl hne

structure Represents (x : ActiveApps) (last : Str → Option Int) : Prop where
  coherent : reading.Coherent x
  data : ∀ a, reading.dataOf x a = (last a).map fun t => ⟨t, a⟩

theorem represents_empty : Represents .empty fun _ => none :=
  ⟨Reading.empty_coherent reading, fun _ => rfl⟩

theorem Represents.last_eq (h : Represents x last) (hd : reading.dataOf x a = some d) :
    last a = some d.t := by
  rw [h.data] at hd
  obtain ⟨t, ht, rfl⟩ := Option.map_eq_some_iff.mp hd
  exact ht

theorem mark_t (d : ActiveAppsData) (t : Int) : d.mark t = ⟨max d.t t, d.applicationId⟩ := by
  rw [ActiveAppsData.mark]
  split
  · rw [max_eq_right (by omega)]
  · rw [max_eq_left (by omega)]

theorem entry_detached (h : reading.Coherent x) (applicationId : Str) :
    ∃ x' y, entry x applicationId = some (x', y) ∧ reading.Detached x' applicationId y ∧
      ∀ a, reading.dataOf x' a =
        if a = applicationId then some ((reading.dataOf x a).getD ⟨0, applicationId⟩)
          else reading.dataOf x a := by
  obtain ⟨y, e, x₁, e₁, x₂, hid, he, hx₁, he₁, hx₂, hdet, hdata⟩ | ⟨hid, hdet, hdata⟩ :=
    reading_lawful.entry h applicationId
    (e := { t := 0, ti := 0, tj := 0, applicationId := applicationId }) rfl
  · refine ⟨x₂, y, ?_, hdet, hdata⟩
    simp only [entry, hid, bind, Option.bind_some, he,
      show e.ti = reading.index .first e from rfl, hx₁, he₁,
      show e₁.tj = reading.index .second e₁ from rfl, hx₂]
  · exact ⟨_, _, by rw [entry, hid], hdet, hdata⟩

theorem mark_represents (h : Represents x last) (applicationId : Str) (z : Int) :
    ∃ x', mark x applicationId z = some x' ∧
      Represents x' (Call.note last (.mark applicationId z)) := by
  obtain ⟨x₁, y, hx₁, hdet, hdata₁⟩ := entry_detached h.coherent applicationId
  obtain ⟨x', hx', hcoherent, hdata⟩ := reading_lawful.reattach hdet
    (f := fun e => { e with toActiveAppsData := e.toActiveAppsData.mark (unix z) })
      (g := (·.mark (unix z)))
    (fun _ => rfl) (fun d => by rw [mark_t]; rfl) (by rw [hdata₁, if_pos rfl]) trivial
  refine ⟨x', by simp only [mark, hx₁, bind, Option.bind_some, hx'], hcoherent, fun a => ?_⟩
  by_cases ha : a = applicationId
  · subst ha
    rw [hdata, if_pos rfl, mark_t, h.data]
    cases hlast : last a <;> simp [Call.note, hlast]
  · rw [hdata, if_neg ha, hdata₁, if_neg ha, h.data]
    simp only [Call.note, if_neg ha]

theorem Represents.delete {id : Str} (h : Represents x last) (hdet : reading.Detached x₂ id ptr)
    (hkept : reading.Kept x x₂) :
    Represents { x₂ with m := x₂.m.erase id } fun a => if a = id then none else last a := by
  obtain ⟨hcoherent, hdata⟩ := hdet.delete
  refine ⟨hcoherent, fun a => ?_⟩
  rw [hdata, hkept.dataOf, h.data]
  split <;> rfl

/-- Trimming: the earliest mark decides whether anything is left to trim. -/
theorem trimLoop_represents (h : Represents x last)
    (hturns : (reading.due (·.t ≤ t) x).card < turns) :
    ∃ x', trimLoop t turns x = some x' ∧ Represents x' fun a => (last a).filter (t < ·) := by
  induction turns generalizing x last with
  | zero => omega
  | succ turns ih =>
    by_cases hnil : x.heap .first = []
    · refine ⟨x, by simp [trimLoop, hnil], h.coherent, fun a => ?_⟩
      have hnone := h.data a
      rw [h.coherent.dataOf_eq_none hnil] at hnone
      rw [h.coherent.dataOf_eq_none hnil, Option.map_eq_none_iff.mp hnone.symm]
      rfl
    · obtain ⟨x₁, ptr, id, e, hpop, he, hid, hown, hleast, ⟨x', hpush, hcoherent', hback⟩, x₂,
        hremove, hdet, hkept⟩ :=
        reading_lawful.popFirst h.coherent hnil
      have hlen : (x.heap .first).length > 0 := List.length_pos_of_ne_nil hnil
      by_cases ht : e.t > t
      · refine ⟨x', ?_, hcoherent', fun a => ?_⟩
        · simp only [trimLoop, if_pos hlen, hpop, bind, Option.bind_some, he, if_pos ht, hpush]
        · rw [hback.dataOf, h.data]
          cases hlast : last a with
          | none => rfl
          | some t' =>
            have hle : e.t ≤ t' := hleast a ⟨t', a⟩ (by rw [h.data, hlast, Option.map_some])
            rw [Option.filter_some, if_pos (decide_eq_true (by omega))]
      · have hlast : last id = some e.t := h.last_eq hid
        have hrep := h.delete hdet hkept
        have hdue : (reading.due (·.t ≤ t) { x₂ with m := x₂.m.erase id }).card <
            (reading.due (·.t ≤ t) x).card := by
          refine card_due_lt hid (decide_eq_true (by simpa [reading] using ht)) (fun d' hd' => ?_)
            fun i hi => ?_
          · rw [hrep.data, if_pos rfl] at hd'
            cases hd'
          · rw [hrep.data, if_neg hi, h.data]
        obtain ⟨x', hx', hrep'⟩ := ih hrep (by omega)
        refine ⟨x', ?_, hrep'.coherent, fun a => ?_⟩
        · simp only [trimLoop, if_pos hlen, hpop, bind, Option.bind_some, he, if_neg ht,
            show e.tj = reading.index .second e from rfl, hremove,
            show e.applicationId = id from hown, hx']
        · rw [hrep'.data]
          split
          · next ha =>
            rw [ha, hlast, Option.filter_some, if_neg (by simpa using ht)]
            rfl
          · rfl

theorem trim_represents (h : Represents x last) (y : Int) :
    ∃ x', trim x y = some x' ∧ Represents x' (Call.note last (.trim y)) :=
  trimLoop_represents h (Nat.lt_succ_of_le (card_due_le _ _))

theorem step_represents (h : Represents x last) (call : Call) :
    ∃ x', step x call = some x' ∧ Represents x' (Call.note last call) := by
  cases call with
  | mark applicationId z => exact mark_represents h applicationId z
  | trim y => exact trim_represents h y

theorem run_represents (calls : List Call) :
    ∃ x, run step .empty calls = some x ∧ Represents x (latestMarks calls) :=
  run_simulates (fun _ _ call _ h => step_represents h call) represents_empty

-- ---------------------------------------------------------------------------
-- ActiveSince
-- ---------------------------------------------------------------------------

theorem activeSinceLoop_eq (h : Heap.Drains byTimeMaxHeapSnapshot entries l es)
    (hsorted : es.Pairwise fun a b => b.t ≤ a.t) (hturns : es.length < turns) (b : List Str) :
    activeSinceLoop t turns ⟨entries, l⟩ b =
      some (b ++ (es.filter (t ≤ ·.t)).map (·.applicationId)) := by
  induction h generalizing turns b with
  | nil =>
    obtain ⟨turns, rfl⟩ : ∃ n, turns = n + 1 := ⟨turns - 1, by omega⟩
    simp [activeSinceLoop]
  | @cons l ptr l' e es hpop he _ ih =>
    obtain ⟨turns, rfl⟩ : ∃ n, turns = n + 1 := ⟨turns - 1, by omega⟩
    obtain ⟨hfirst, hrest⟩ := List.pairwise_cons.mp hsorted
    have hlen : l.length > 0 := length_pos_of_heapPop hpop
    simp only [activeSinceLoop, if_pos hlen, hpop, bind, Option.bind_some, he]
    by_cases ht : e.t < t
    · -- Everything that follows is older still.
      have hnone : es.filter (t ≤ ·.t) = [] := by
        rw [List.filter_eq_nil_iff]
        intro e' he'
        have := hfirst e' he'
        simp only [decide_eq_true_eq]
        omega
      rw [if_pos ht, List.filter_cons_of_neg (by simpa using ht), hnone, List.map_nil,
        List.append_nil]
    · rw [if_neg ht, ih hrest (by simpa using hturns),
        List.filter_cons_of_pos (by simpa using ht), List.map_cons, List.append_assoc,
        List.singleton_append]

/-- The applications whose latest mark is not before the second of `y`, each
once, the latest first. -/
theorem activeSince_represents (h : Represents x last) (y : Int) :
    ∃ ids, activeSince x y = some ids ∧ ids.Nodup ∧
      (∀ a, a ∈ ids ↔ ∃ t, last a = some t ∧ unix y ≤ t) ∧
      ids.Pairwise fun a b => ∃ t t', last a = some t ∧ last b = some t' ∧ t' ≤ t := by
  obtain ⟨es, hdrains, hlen, hnodup, hmem, hsorted⟩ := reading_lawful.drains h.coherent .second
  have hts : es.Pairwise fun a b => b.t ≤ a.t := hsorted.imp fun hab => by simpa [reading] using hab
  have hlast : ∀ e ∈ es, last e.applicationId = some e.t := by
    intro e he
    exact h.last_eq ((hmem e.toActiveAppsData).mp (List.mem_map_of_mem he))
  refine ⟨_, activeSinceLoop_eq hdrains hts (Nat.lt_succ_of_le hlen) [], ?_, fun a => ?_, ?_⟩
  · rw [List.nil_append]
    exact hnodup.sublist ((List.filter_sublist).map _)
  · rw [List.nil_append]
    constructor
    · intro ha
      obtain ⟨e, he, rfl⟩ := List.mem_map.mp ha
      obtain ⟨hin, ht⟩ := List.mem_filter.mp he
      exact ⟨e.t, hlast e hin, of_decide_eq_true ht⟩
    · rintro ⟨t, ht, hle⟩
      have hdata : reading.dataOf x a = some ⟨t, a⟩ := by rw [h.data, ht, Option.map_some]
      obtain ⟨e, he, hd⟩ := List.mem_map.mp ((hmem ⟨t, a⟩).mpr hdata)
      have hte : e.t = t := congrArg ActiveAppsData.t hd
      refine List.mem_map.mpr ⟨e, List.mem_filter.mpr ⟨he, decide_eq_true (hte ▸ hle)⟩,
        congrArg ActiveAppsData.applicationId hd⟩
  · rw [List.nil_append, List.pairwise_map]
    refine (hts.filter _).imp_of_mem fun {a b} ha hb hab => ?_
    exact ⟨a.t, b.t, hlast a (List.mem_filter.mp ha).1, hlast b (List.mem_filter.mp hb).1, hab⟩

end ActiveApps

end BigipCtlr.Stats
