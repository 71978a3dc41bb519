import BigipCtlr.F5Router.Fetch
import Mathlib.Order.Basic

/-!
# Retrying the fetch

`fetchExistingDataGroup` calls `Get` once and, after an error that may pass,
again and again from a loop with growing pauses. Neither handles an error that
is no `net.Error`: the first attempt drops it, the loop takes it for one that
will pass.
-/

namespace BigipCtlr

open Go

structure NetError where
  timeout : Bool
  temporary : Bool
  deriving DecidableEq

/-- An error of `bigIPClient.Get`. The body of a response may break off with
one that is no `net.Error`. -/
structure GetError where
  text : Str
  net : Option NetError
  deriving DecidableEq

abbrev GetResult := Except GetError Str

/-- Where `fetchExistingDataGroup` stands between two results of `Get`. -/
inductive FetchState
  | first
  /-- In the loop, about to wait for `interval` seconds. -/
  | backoff (interval : Int64)
  | done (res : GetResult)
  /-- Has returned neither a data group nor an error. -/
  | dropped
  deriving DecidableEq

def firstAttempt : GetResult → FetchState
  | .ok data => .done (.ok data)
  | .error err =>
    match err.net with
    | some e => if e.timeout || e.temporary then .backoff 1 else .done (.error err)
    -- the type assertion declares an `err` of its own, nil here, and that one is returned
    | none => .dropped

def retryBackoff (interval : Int64) (res : GetResult) : FetchState :=
  match res with
  | .ok data => .done (.ok data)
  | .error err =>
    match err.net with
    | some e => if !(e.timeout || e.temporary) then .done (.error err) else .backoff (interval * 2)
    | none => .backoff (interval * 2)

def FetchState.step : FetchState → GetResult → FetchState
  | .first, res => firstAttempt res
  | .backoff interval, res => retryBackoff interval res
  | .done res, _ => .done res
  | .dropped, _ => .dropped

def fetchAfter (results : Nat → GetResult) : Nat → FetchState
  | 0 => .first
  | n + 1 => (fetchAfter results n).step (results n)

def FetchState.returned :
    FetchState → Option (Except GetError (Except FetchError (Option FetchedDataGroup)))
  | .done res => some (res.map fetchExistingDataGroup)
  | .dropped => some (.ok (.ok none))
  | _ => none

def Recoverable (res : GetResult) : Prop :=
  ∃ err e, res = .error err ∧ err.net = some e ∧ (e.timeout || e.temporary) = true

def OfNetwork (res : GetResult) : Prop := ∀ err, res = .error err → err.net ≠ none

theorem not_recoverable_error (h : ¬ Recoverable (.error err)) (hnet : err.net = some e) :
    (e.timeout || e.temporary) = false := by
  rw [← Bool.not_eq_true]
  exact fun hpasses => h ⟨err, e, rfl, hnet, hpasses⟩

theorem firstAttempt_recoverable (h : Recoverable res) : firstAttempt res = .backoff 1 := by
  obtain ⟨err, e, rfl, hnet, hpasses⟩ := h
  simp [firstAttempt, hnet, hpasses]

theorem firstAttempt_final (h : ¬ Recoverable res) :
    (OfNetwork res ∧ firstAttempt res = .done res) ∨
      (¬ OfNetwork res ∧ firstAttempt res = .dropped ∧ ∃ err, res = .error err) := by
  cases res with
  | ok data => simp [firstAttempt, OfNetwork]
  | error err =>
    cases hnet : err.net with
    | none => simp [firstAttempt, OfNetwork, hnet]
    | some e => simp [firstAttempt, OfNetwork, hnet, not_recoverable_error h hnet]

theorem retryBackoff_recoverable (h : Recoverable res) :
    retryBackoff interval res = .backoff (interval * 2) := by
  obtain ⟨err, e, rfl, hnet, hpasses⟩ := h
  simp [retryBackoff, hnet, hpasses]

theorem retryBackoff_final (h : ¬ Recoverable res) :
    (OfNetwork res ∧ retryBackoff interval res = .done res) ∨
      (¬ OfNetwork res ∧ retryBackoff interval res = .backoff (interval * 2)) := by
  cases res with
  | ok data => simp [retryBackoff, OfNetwork]
  | error err =>
    cases hnet : err.net with
    | none => simp [retryBackoff, OfNetwork, hnet]
    | some e => simp [retryBackoff, OfNetwork, hnet, not_recoverable_error h hnet]

theorem fetchAfter_recoverable (h : ∀ j < n, Recoverable (results j)) :
    (n = 0 ∧ fetchAfter results n = .first) ∨
      (0 < n ∧ ∃ interval, fetchAfter results n = .backoff interval) := by
  induction n with
  | zero => exact .inl ⟨rfl, rfl⟩
  | succ n ih =>
    have hn := h n (Nat.lt_succ_self n)
    refine .inr ⟨Nat.succ_pos n, ?_⟩
    obtain ⟨-, hs⟩ | ⟨-, interval, hs⟩ := ih fun j hj => h j (Nat.lt_succ_of_lt hj)
    · exact ⟨1, by rw [fetchAfter, hs, FetchState.step, firstAttempt_recoverable hn]⟩
    · exact ⟨interval * 2, by rw [fetchAfter, hs, FetchState.step, retryBackoff_recoverable hn]⟩

theorem fetchAfter_final (h : ∀ j < n, Recoverable (results j)) (hn : ¬ Recoverable (results n)) :
    (OfNetwork (results n) ∧ fetchAfter results (n + 1) = .done (results n)) ∨
      (¬ OfNetwork (results n) ∧
        (fetchAfter results (n + 1)).returned ≠ some ((results n).map fetchExistingDataGroup)) := by
  rw [fetchAfter]
  obtain ⟨-, hs⟩ | ⟨-, interval, hs⟩ := fetchAfter_recoverable h
  · rw [hs, FetchState.step]
    obtain ⟨hnet, hstep⟩ | ⟨hnet, hstep, err, herr⟩ := firstAttempt_final hn
    · exact .inl ⟨hnet, hstep⟩
    · refine .inr ⟨hnet, ?_⟩
      rw [hstep, herr]
      simp [FetchState.returned, Except.map]
  · rw [hs, FetchState.step]
    obtain ⟨hnet, hstep⟩ | ⟨hnet, hstep⟩ := @retryBackoff_final _ interval hn
    · exact .inl ⟨hnet, hstep⟩
    · refine .inr ⟨hnet, ?_⟩
      rw [hstep]
      exact (Option.some_ne_none _).symm

/-- The fetch ends at the first result that is a success or an error that will
not pass, with that result, and `Get` is called again only after one that may. -/
structure StopsAtFinal (results : Nat → GetResult) : Prop where
  again : ∀ n, (fetchAfter results (n + 1)).returned = none → Recoverable (results n)
  stops : ∀ n, (∀ j < n, Recoverable (results j)) → ¬ Recoverable (results n) →
    (fetchAfter results n).returned = none ∧
      (fetchAfter results (n + 1)).returned = some ((results n).map fetchExistingDataGroup)

theorem recoverable_of_going
    (hends : ∀ n, (∀ j < n, Recoverable (results j)) → ¬ Recoverable (results n) →
      fetchAfter results (n + 1) = .done (results n))
    (h : (fetchAfter results n).returned = none) : ∀ j < n, Recoverable (results j) := by
  induction n with
  | zero => exact fun j hj => absurd hj (Nat.not_lt_zero j)
  | succ n ih =>
    have hbefore : ∀ j < n, Recoverable (results j) := by
      refine ih ?_
      cases hs : fetchAfter results n with
      | done res =>
        rw [fetchAfter, hs] at h
        cases h
      | dropped =>
        rw [fetchAfter, hs] at h
        cases h
      | first => rfl
      | backoff interval => rfl
    intro j hj
    rcases Nat.lt_succ_iff_lt_or_eq.mp hj with hlt | rfl
    · exact hbefore j hlt
    · by_contra hfinal
      rw [hends j hbefore hfinal] at h
      cases h

/-- This is so just when the first final result is no error outside the network. -/
theorem stopsAtFinal_iff (results : Nat → GetResult) :
    StopsAtFinal results ↔ ∀ n, (∀ j < n, Recoverable (results j)) → OfNetwork (results n) := by
  constructor
  · intro h n hbefore
    by_cases hn : Recoverable (results n)
    · obtain ⟨err, e, herr, hnet, -⟩ := hn
      intro err' herr'
      rw [herr] at herr'
      cases herr'
      rw [hnet]
      exact Option.some_ne_none e
    · obtain ⟨hnet, -⟩ | ⟨-, hother⟩ := fetchAfter_final hbefore hn
      · exact hnet
      · exact absurd (h.stops n hbefore hn).2 hother
  · intro h
    have hends : ∀ n, (∀ j < n, Recoverable (results j)) → ¬ Recoverable (results n) →
        fetchAfter results (n + 1) = .done (results n) := by
      intro n hbefore hn
      obtain ⟨-, hs⟩ | ⟨hnet, -⟩ := fetchAfter_final hbefore hn
      · exact hs
      · exact absurd (h n hbefore) hnet
    refine ⟨fun n hgoes => recoverable_of_going hends hgoes n (Nat.lt_succ_self n),
      fun n hbefore hn => ⟨?_, ?_⟩⟩
    · obtain ⟨-, hs⟩ | ⟨-, interval, hs⟩ := fetchAfter_recoverable hbefore <;> rw [hs] <;> rfl
    · rw [hends n hbefore hn]
      rfl

namespace Sample

def timedOut : GetError := ⟨"request canceled (Client.Timeout exceeded)".toList, some ⟨true, true⟩⟩

def unexpectedEOF : GetError := ⟨"unexpected EOF".toList, none⟩

end Sample

/-- A body that breaks off at the first attempt is taken for an answer without a
data group. After a timeout, such bodies are asked for again for ever. -/
theorem breaking_off_retried :
    ¬ StopsAtFinal (fun _ => .error Sample.unexpectedEOF) ∧
      (fetchAfter (fun _ => .error Sample.unexpectedEOF) 1).returned = some (.ok (.ok none)) ∧
      ¬ StopsAtFinal (fun n => .error (if n = 0 then Sample.timedOut else Sample.unexpectedEOF)) ∧
      ∀ n, (fetchAfter (fun n =>
        .error (if n = 0 then Sample.timedOut else Sample.unexpectedEOF)) n).returned = none := by
  refine ⟨fun h => ?_, rfl, fun h => ?_, fun n => ?_⟩
  · have hends := h.stops 0 (fun j hj => absurd hj (Nat.not_lt_zero j))
      (by rintro ⟨err, e, ⟨⟩, ⟨⟩, -⟩)
    cases hends.2
  · have hends := h.stops 1 (fun j hj => ?_) (by rintro ⟨err, e, ⟨⟩, ⟨⟩, -⟩)
    · cases hends.2
    · obtain rfl : j = 0 := by omega
      exact ⟨_, _, rfl, rfl, rfl⟩
  · have hgoes : ∀ n, ∃ interval, fetchAfter (fun n =>
        .error (if n = 0 then Sample.timedOut else Sample.unexpectedEOF)) (n + 1) =
          .backoff interval := by
      intro n
      induction n with
      | zero => exact ⟨1, rfl⟩
      | succ n ih =>
        obtain ⟨interval, hs⟩ := ih
        rw [fetchAfter, hs]
        exact ⟨interval * 2, rfl⟩
    cases n with
    | zero => rfl
    | succ n =>
      obtain ⟨interval, hs⟩ := hgoes n
      rw [hs]
      rfl

end BigipCtlr
