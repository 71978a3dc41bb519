import BigipCtlr.Stats.TopApps
import Mathlib.Data.List.TakeWhile

/-!
# Requests since a time

Requests are marked with the time they started when they end, so that marks come
out of order. A mark for a second before that of the last slot is counted in the
last slot. Of an application `TopSince` therefore reports the marks from the
first one that is recent enough on, whatever their own times.
-/

namespace BigipCtlr.Stats

open Go Lib

namespace TopApps

def marksOf (calls : List Call) (a : Str) : List Int :=
  calls.filterMap fun
    | .mark applicationId z => if applicationId = a then some (unix z) else none
    | _ => none

def Call.cutoff : Call → Option Int
  | .mark _ _ => none
  | .trim y => some (unix y + 1)
  | .topSince y _ => some (unix y)

def slotsOf (data : Str → Option TopAppsData) (a : Str) : List TopAppsEntryTimeSlot :=
  (data a).elim [] (·.t)

/-- From a second on, slots hold what was marked from the first mark that is not
before it on. -/
structure Tracks (slots : List TopAppsEntryTimeSlot) (marks : List Int) (c : Int) : Prop where
  total : TopAppsData.total (slots.filter (c ≤ ·.t)) = (marks.dropWhile (· < c)).length
  reached : (∃ slot ∈ slots, c ≤ slot.t) ↔ ∃ t ∈ marks, c ≤ t

theorem tracks_nil (c : Int) : Tracks [] [] c := ⟨rfl, by simp⟩

-- ---------------------------------------------------------------------------
-- Marks
-- ---------------------------------------------------------------------------

theorem reached_mark (d : TopAppsData) (t c : Int) :
    (∃ slot ∈ (d.mark t).t, c ≤ slot.t) ↔ (∃ slot ∈ d.t, c ≤ slot.t) ∨ c ≤ t := by
  obtain ⟨init, last, hd, ht, hmark⟩ | ⟨-, hmark⟩ := d.mark_t t
  · rw [hmark, hd]
    simp only [List.mem_append, List.mem_singleton, or_and_right, exists_or, exists_eq_left]
    constructor
    · exact .inl
    · rintro (h | h)
      · exact h
      · exact .inr (by omega)
  · rw [hmark]
    simp only [List.mem_append, List.mem_singleton, or_and_right, exists_or, exists_eq_left]

theorem reached_append {slots : List TopAppsEntryTimeSlot}
    (hincreasing : (slots ++ [new]).Pairwise (·.t < ·.t)) (c : Int) :
    (∃ slot ∈ slots ++ [new], c ≤ slot.t) ↔ c ≤ new.t := by
  refine ⟨?_, fun hc => ⟨new, by simp, hc⟩⟩
  rintro ⟨slot, hslot, hc⟩
  rw [List.mem_append, List.mem_singleton] at hslot
  obtain hin | rfl := hslot
  · exact hc.trans ((List.pairwise_append.mp hincreasing).2.2 slot hin new (by simp)).le
  · exact hc

/-- A mark counts from a second on if that second is reached at all. -/
theorem total_mark {d : TopAppsData} (hincreasing : d.t.Pairwise (·.t < ·.t)) (t c : Int) :
    TopAppsData.total ((d.mark t).t.filter (c ≤ ·.t)) =
      TopAppsData.total (d.t.filter (c ≤ ·.t)) + if ∃ slot ∈ (d.mark t).t, c ≤
        slot.t then 1 else 0 := by
  have hmarked := TopAppsData.mark_increasing hincreasing t
  obtain ⟨init, last, hd, -, hmark⟩ | ⟨-, hmark⟩ := d.mark_t t
  · rw [hmark] at hmarked ⊢
    rw [hd, if_congr (reached_append hmarked c) rfl rfl, List.filter_append, List.filter_append,
      TopAppsData.total_append, TopAppsData.total_append]
    by_cases hc : c ≤ last.t
    · simp only [hc, if_true, TopAppsData.total, List.filter_cons, decide_true, List.filter_nil,
        List.map_cons, List.map_nil, List.sum_singleton]
      omega
    · simp [hc, TopAppsData.total]
  · rw [hmark] at hmarked ⊢
    rw [if_congr (reached_append hmarked c) rfl rfl, List.filter_append, TopAppsData.total_append]
    by_cases hc : c ≤ t <;> simp [hc, TopAppsData.total]

theorem length_dropWhile_append (marks : List Int) (t c : Int) :
    ((marks ++ [t]).dropWhile (· < c)).length =
      (marks.dropWhile (· < c)).length + if (∃ t ∈ marks, c ≤ t) ∨ c ≤ t then 1 else 0 := by
  have hnil : marks.dropWhile (· < c) = [] ↔ ¬ ∃ t ∈ marks, c ≤ t := by
    rw [List.dropWhile_eq_nil_iff]
    simp
  rw [List.dropWhile_append]
  by_cases hany : ∃ t ∈ marks, c ≤ t
  · have hne : marks.dropWhile (· < c) ≠ [] := fun h => hnil.mp h hany
    rw [if_neg (by simpa using hne), if_pos (.inl hany), List.length_append, List.length_singleton]
  · rw [hnil.mpr hany]
    by_cases hc : c ≤ t
    · simp [hc]
    · simp [List.dropWhile_cons, hany, hc]

theorem Tracks.mark {d : TopAppsData} (h : Tracks d.t marks c)
    (hincreasing : d.t.Pairwise (·.t < ·.t)) (t : Int) :
    Tracks (d.mark t).t (marks ++ [t]) c := by
  have hreached : (∃ slot ∈ (d.mark t).t, c ≤ slot.t) ↔ (∃ t ∈ marks, c ≤ t) ∨ c ≤ t := by
    rw [reached_mark, h.reached]
  refine ⟨?_, ?_⟩
  · rw [total_mark hincreasing, h.total, length_dropWhile_append, if_congr hreached rfl rfl]
    split <;> simp
  · rw [hreached]
    simp [or_and_right, exists_or]

theorem Tracks.dropWhile (h : Tracks slots marks c) (hk : k < c) :
    Tracks (slots.dropWhile (·.t ≤ k)) marks c := by
  have hfilter : (slots.dropWhile (·.t ≤ k)).filter (c ≤ ·.t) = slots.filter (c ≤ ·.t) := by
    have hold : (slots.takeWhile (·.t ≤ k)).filter (c ≤ ·.t) = [] := by
      rw [List.filter_eq_nil_iff]
      intro slot hslot
      have hle := List.mem_takeWhile_imp hslot
      simp only [decide_eq_true_eq] at hle ⊢
      omega
    conv_rhs => rw [← List.takeWhile_append_dropWhile (p := fun slot => slot.t ≤ k) (l := slots),
      List.filter_append, hold, List.nil_append]
  refine ⟨hfilter ▸ h.total, h.reached.symm.trans ?_ |>.symm⟩
  have hmem : ∀ slot, slot ∈ (slots.dropWhile (·.t ≤ k)).filter (c ≤ ·.t) ↔
      slot ∈ slots.filter (c ≤ ·.t) := fun slot => by
    rw [hfilter]
  simp only [List.mem_filter, decide_eq_true_eq] at hmem
  exact exists_congr fun slot => (hmem slot).symm

-- ---------------------------------------------------------------------------
-- Runs
-- ---------------------------------------------------------------------------

theorem slotsAfter_append (calls : List Call) (call : Call) :
    slotsAfter (calls ++ [call]) = call.note (slotsAfter calls) := by
  rw [slotsAfter, List.foldl_append]
  rfl

theorem slotsAfter_formed (hd : slotsAfter calls a = some d) : d.Formed := by
  obtain ⟨x, -, h⟩ := run_represents calls
  exact h.coherent.valid ((h.data a).trans hd)

theorem slotsOf_increasing (calls : List Call) (a : Str) :
    (slotsOf (slotsAfter calls) a).Pairwise (·.t < ·.t) := by
  rw [slotsOf]
  cases hd : slotsAfter calls a with
  | none => exact .nil
  | some d => exact (slotsAfter_formed hd).increasing

theorem slotsOf_getD (data : Str → Option TopAppsData) (a : Str) :
    ((data a).getD ⟨[], 0, a⟩).t = slotsOf data a := by
  rw [slotsOf]
  cases data a <;> rfl

theorem slotsOf_trimmed (data : Str → Option TopAppsData) (t : Int) (a : Str) :
    slotsOf (fun a => (data a).bind (trimmed t)) a = (slotsOf data a).dropWhile (·.t ≤ t) := by
  simp only [slotsOf]
  cases data a with
  | none => rfl
  | some d =>
    rw [Option.bind_some, trimmed, Option.elim_some, ← TopAppsData.trim_t]
    split
    · next hnil => rw [hnil]; rfl
    · rfl

theorem tracks_run (calls : List Call) (a : Str) (c : Int)
    (hc : ∀ k ∈ calls.filterMap Call.cutoff, k ≤ c) :
    Tracks (slotsOf (slotsAfter calls) a) (marksOf calls a) c := by
  induction calls using List.reverseRecOn with
  | nil => exact tracks_nil c
  | append_singleton calls call ih =>
    rw [List.filterMap_append, List.forall_mem_append] at hc
    have h := ih hc.1
    rw [slotsAfter_append, marksOf, List.filterMap_append]
    cases call with
    | mark applicationId z =>
      by_cases ha : a = applicationId
      · subst ha
        have hincreasing := slotsOf_increasing calls a
        rw [← slotsOf_getD] at h hincreasing
        simpa [slotsOf, Call.note, marksOf] using h.mark hincreasing (unix z)
      · simpa [slotsOf, Call.note, marksOf, ha, Ne.symm ha] using h
    | trim y =>
      have hy : unix y + 1 ≤ c := hc.2 _ (by simp [Call.cutoff])
      have h' := h.dropWhile (k := unix y) (by omega)
      rw [← slotsOf_trimmed] at h'
      simpa [Call.note, marksOf] using h'
    | topSince y n =>
      have hy : unix y ≤ c := hc.2 _ (by simp [Call.cutoff])
      have h' := h.dropWhile (k := unix y - 1) (by omega)
      rw [← slotsOf_trimmed] at h'
      simpa [Call.note, marksOf] using h'

/-- The marks counted are those that are recent unless an older one came after
a recent one. -/
theorem length_dropWhile_eq_countP (marks : List Int) (c : Int) :
    (marks.dropWhile (· < c)).length = marks.countP (c ≤ ·) ↔
      ∀ t ∈ marks.dropWhile (· < c), c ≤ t := by
  have hcount : marks.countP (c ≤ ·) = (marks.dropWhile (· < c)).countP (c ≤ ·) := by
    have hold : (marks.takeWhile (· < c)).countP (c ≤ ·) = 0 := by
      rw [List.countP_eq_zero]
      intro t ht
      have hlt := List.mem_takeWhile_imp ht
      simp only [decide_eq_true_eq] at hlt ⊢
      omega
    conv_lhs => rw [← List.takeWhile_append_dropWhile (p := fun t => t < c) (l := marks),
      List.countP_append, hold, Nat.zero_add]
  rw [hcount, eq_comm, List.countP_eq_length]
  simp only [decide_eq_true_eq]

theorem report_eq (hc : ∀ k ∈ calls.filterMap Call.cutoff, k ≤ unix y) {n : Nat}
    (hd : Call.note (slotsAfter calls) (.topSince y n) a = some d) :
    d.n = ((marksOf calls a).dropWhile (· < unix y)).length := by
  obtain ⟨_, -, htrimmed⟩ := Option.bind_eq_some_iff.mp hd
  obtain ⟨-, slot, rest, hslots, hslot⟩ := trimmed_eq_some.mp htrimmed
  rw [← slotsAfter_append] at hd
  have hformed := slotsAfter_formed hd
  have h := tracks_run (calls ++ [.topSince y n]) a (unix y) (by
    rw [List.filterMap_append, List.forall_mem_append]
    exact ⟨hc, by simp [Call.cutoff]⟩)
  have hmarks : marksOf (calls ++ [.topSince y n]) a = marksOf calls a := by
    rw [marksOf, List.filterMap_append]
    exact List.append_nil _
  -- The slots that are left are all recent.
  have hall : d.t.filter (unix y ≤ ·.t) = d.t := by
    have hincreasing := hformed.increasing
    rw [hslots, List.pairwise_cons] at hincreasing
    simp only [List.filter_eq_self, decide_eq_true_eq, hslots, List.forall_mem_cons]
    refine ⟨by omega, fun later hlater => ?_⟩
    have := hincreasing.1 later hlater
    omega
  rw [hformed.count, ← hmarks, ← h.total, slotsOf, hd, Option.elim_some, hall]

/-- Of every application in its report, `TopSince` counts the marks from the
first one on whose second is not before that of `y`. They are the marks whose
own second is not before it exactly if no older mark follows a recent one. -/
theorem topSince_counts (calls : List Call) (y : Int) (n : Nat)
    (hcutoffs : ∀ k ∈ calls.filterMap Call.cutoff, k ≤ unix y) :
    ∃ x x' s, run step .empty calls = some x ∧ topSince x y n = some (x', s) ∧
      ∀ e ∈ s, e.requests = ((marksOf calls e.applicationId).dropWhile (· < unix y)).length ∧
        (e.requests = (marksOf calls e.applicationId).countP (unix y ≤ ·) ↔
          ∀ t ∈ (marksOf calls e.applicationId).dropWhile (· < unix y), unix y ≤ t) := by
  obtain ⟨x, hx, hrep⟩ := run_represents calls
  obtain ⟨x', s, hs, -, htops⟩ := topSince_represents hrep y n
  refine ⟨x, x', s, hx, hs, fun e he => ?_⟩
  obtain ⟨d, hd, hn⟩ := htops.counts e he
  have hcount : e.requests = ((marksOf calls e.applicationId).dropWhile (· < unix y)).length := by
    rw [hn]
    exact report_eq hcutoffs hd
  refine ⟨hcount, ?_⟩
  rw [hcount, ← length_dropWhile_eq_countP]
  exact Int.ofNat_inj

def Sample.inOrder : List Call :=
  [.mark "a".toList 5000000000, .topSince 4000000000 1, .mark "b".toList 7000000000,
    .mark "a".toList 6000000000, .mark "a".toList 8000000000]

theorem topSince_counts_marked :
    (∀ k ∈ Sample.inOrder.filterMap Call.cutoff, k ≤ unix 6000000000) ∧
      ∃ x x', run step .empty Sample.inOrder = some x ∧
        topSince x 6000000000 (2 : Nat) = some (x', [⟨"a".toList, 2⟩, ⟨"b".toList, 1⟩]) ∧
        ∀ e ∈ [TopAppsTopEntry.mk "a".toList 2, ⟨"b".toList, 1⟩],
          e.requests = (marksOf Sample.inOrder e.applicationId).countP (unix 6000000000 ≤ ·) := by
  obtain ⟨x, x', s, hx, hs, hcounts⟩ := topSince_counts Sample.inOrder 6000000000 2 (by decide)
  have hreport : ((run step .empty Sample.inOrder).bind (topSince · 6000000000 2)).map Prod.snd =
      some [⟨"a".toList, 2⟩, ⟨"b".toList, 1⟩] := by decide
  rw [hx, Option.bind_some] at hreport
  obtain ⟨⟨x'', s'⟩, hs', rfl⟩ := Option.map_eq_some_iff.mp hreport
  cases hs.symm.trans hs'
  refine ⟨by decide, x, x', hx, hs, fun e he => (hcounts e he).2.mpr ?_⟩
  revert e
  decide

/-- A mark for second 3 comes after one for second 5: both are reported as
requests since second 4. -/
theorem late_mark_counted :
    let calls : List Call := [.mark "a".toList 5000000000, .mark "a".toList 3000000000]
    ((run step .empty calls).bind (topSince · 4000000000 1)).map Prod.snd = some [⟨"a".toList, 2⟩] ∧
      (marksOf calls "a".toList).countP (unix 4000000000 ≤ ·) = 1 := by
  decide

end TopApps

end BigipCtlr.Stats
