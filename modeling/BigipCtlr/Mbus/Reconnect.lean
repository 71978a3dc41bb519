import BigipCtlr.Go.Strings
import BigipCtlr.Lib.Toggle
import Mathlib.Algebra.Ring.Nat

/-!
# Reconnects

The callbacks of the NATS client: the client puts them into a channel, and one
goroutine makes them one after the other. Each disconnect starts a goroutine
that logs until it is told of the reconnect; each reconnect also tells `Run` of
the subscriber to send a start message. Both are told through channels without a
buffer, so the callback waits for whom it tells. The client holds the lock of the
connection while it waits for room in its channel.
-/

namespace BigipCtlr.Mbus

open Go Lib

/-- `lost`: `doReconnect` has not got the lock yet. -/
inductive LinkStatus
  | connected
  | lost
  | reconnecting
  deriving DecidableEq

inductive Callback
  | disconnected
  | reconnected
  deriving DecidableEq

/-- Where the goroutine of the callbacks is. `ReconnectedCB` waits for
`connectedChan`, asks for the URL of the connection and waits for `startMsg`. -/
inductive Dispatch
  | idle
  | connecting
  | locating
  | announcing
  deriving DecidableEq

/-- Where `Run` of the subscriber is; without HTTP routes there is none. -/
inductive Listening
  | absent
  | starting
  | select
  | sending
  | exited
  deriving DecidableEq

structure NatsLink where
  status : LinkStatus
  /-- What the client is putting into the channel; it has the lock meanwhile. -/
  queueing : Option Callback
  ach : List Callback
  dispatch : Dispatch
  /-- The goroutines that wait for a reconnect. -/
  tickers : Nat
  natsHost : Option Str
  listening : Listening
  /-- The calls of `sendStartMessage`. -/
  sent : Nat
  reconnects : Nat
  deriving DecidableEq

def asyncCBChanSize : Nat := 32

/-- A connection, before `connectToNatsServer` has stored its host. -/
def NatsLink.start (listening : Listening) : NatsLink :=
  ⟨.connected, none, [], .idle, 0, none, listening, 0, 0⟩

inductive NatsLinkEvent
  | store (host : Str)
  | lose
  | disconnect
  | reconnect
  | push
  | dispatch
  | connect
  | locate (host : Str)
  | announce
  | start (ok : Bool)
  | send
  | signal

def NatsLink.step (s : NatsLink) : NatsLinkEvent → Option NatsLink
  | .store host => if s.queueing.isNone then some { s with natsHost := some host } else none
  | .lose =>
    match s.status, s.queueing with
    | .connected, none => some { s with status := .lost }
    | _, _ => none
  | .disconnect =>
    match s.status, s.queueing with
    | .lost, none => some { s with status := .reconnecting, queueing := some .disconnected }
    | _, _ => none
  | .reconnect =>
    match s.status, s.queueing with
    | .reconnecting, none =>
      some { s with status := .connected, queueing := some .reconnected,
                    reconnects := s.reconnects + 1 }
    | _, _ => none
  | .push =>
    match s.queueing with
    | some cb => if s.ach.length < asyncCBChanSize then some { s with
      queueing := none, ach := s.ach ++ [cb] } else none
    | none => none
  | .dispatch =>
    match s.dispatch, s.ach with
    -- without a host that is stored the type assertion panics
    | .idle, .disconnected :: rest =>
      if s.natsHost.isSome then some { s with ach := rest, tickers := s.tickers + 1 } else none
    | .idle, .reconnected :: rest => some { s with ach := rest, dispatch := .connecting }
    | _, _ => none
  | .connect =>
    match s.dispatch, s.tickers with
    | .connecting, tickers + 1 => some { s with tickers := tickers, dispatch := .locating }
    | _, _ => none
  | .locate host =>
    match s.dispatch, s.queueing with
    | .locating, none => some { s with natsHost := some host, dispatch := .announcing }
    | _, _ => none
  | .announce =>
    match s.dispatch, s.listening with
    | .announcing, .select => some { s with dispatch := .idle, listening := .sending }
    | _, _ => none
  | .start ok =>
    match s.listening, s.queueing with
    | .starting, none =>
      some { s with sent := s.sent + 1, listening := if ok then .select else .exited }
    | _, _ => none
  | .send =>
    match s.listening, s.queueing with
    | .sending, none => some { s with sent := s.sent + 1, listening := .select }
    | _, _ => none
  | .signal =>
    match s.listening with
    | .select => some { s with listening := .exited }
    | _ => none

/-- The steps that follow from a callback, and from nothing else. -/
def NatsLinkEvent.follows : NatsLinkEvent → Bool
  | .push | .dispatch | .connect | .locate _ | .announce | .send => true
  | .store _ | .lose | .disconnect | .reconnect | .start _ | .signal => false

def Listening.loops : Listening → Bool
  | .select | .sending => true
  | .absent | .starting | .exited => false

-- ---------------------------------------------------------------------------
-- What follows from the callbacks
-- ---------------------------------------------------------------------------

def Callback.steps : Callback → Nat
  | .disconnected => 1
  | .reconnected => 5

def Dispatch.steps : Dispatch → Nat
  | .idle => 0
  | .connecting => 4
  | .locating => 3
  | .announcing => 2

def Listening.steps : Listening → Nat
  | .sending => 1
  | .absent | .starting | .select | .exited => 0

def NatsLink.left (s : NatsLink) : Nat :=
  s.queueing.elim 0 (·.steps + 1) + (s.ach.map Callback.steps).sum + s.dispatch.steps +
    s.listening.steps

def Callback.opens : Callback → Bool
  | .disconnected => true
  | .reconnected => false

def Dispatch.pending : Dispatch → List Callback
  | .connecting => [.reconnected]
  | .idle | .locating | .announcing => []

def NatsLink.pending (s : NatsLink) : List Callback :=
  s.dispatch.pending ++ s.ach ++ s.queueing.toList

def Dispatch.owed : Dispatch → Nat
  | .locating | .announcing => 1
  | .idle | .connecting => 0

def NatsLink.owed (s : NatsLink) : Nat :=
  s.pending.count .reconnected + s.dispatch.owed + s.listening.steps

def Listening.first : Listening → Nat
  | .absent | .starting => 0
  | .select | .sending | .exited => 1

structure NatsLink.Sound (s : NatsLink) : Prop where
  /-- The callbacks alternate, and there is one goroutine to tell at most. -/
  alternates : ∃ waiting, s.tickers = (if waiting then 1 else 0) ∧
    run switch waiting (s.pending.map Callback.opens) = some (decide (s.status = .reconnecting))
  counted : s.sent + s.owed = s.listening.first + s.reconnects

section
variable {s t : NatsLink}

theorem NatsLink.sound_start (l : Listening) (hl : l.first = 0) : (NatsLink.start l).Sound := by
  refine ⟨⟨false, rfl, rfl⟩, ?_⟩
  cases l with
  | absent => rfl
  | starting => rfl
  | select => cases hl
  | sending => cases hl
  | exited => cases hl

theorem run_opens_cons {cb : Callback} {cbs : List Callback} :
    run switch waiting ((cb :: cbs).map Callback.opens) = some b ↔
      waiting = !cb.opens ∧ run switch cb.opens (cbs.map Callback.opens) = some b := by
  rw [List.map_cons, run_cons_eq_some]
  constructor
  · rintro ⟨w, hw, hrest⟩
    obtain ⟨hne, rfl⟩ := switch_eq_some.mp hw
    exact ⟨Bool.eq_not_of_ne hne, hrest⟩
  · rintro ⟨rfl, hrest⟩
    exact ⟨cb.opens, switch_eq_some.mpr ⟨by simp, rfl⟩, hrest⟩

theorem run_opens_concat {cb : Callback} {cbs : List Callback}
    (h : run switch waiting (cbs.map Callback.opens) = some (!cb.opens)) :
    run switch waiting ((cbs ++ [cb]).map Callback.opens) = some cb.opens := by
  rw [List.map_append]
  exact run_append_eq_some.mpr ⟨_, h,
    run_cons_eq_some.mpr ⟨cb.opens, switch_eq_some.mpr ⟨by simp, rfl⟩, rfl⟩⟩

theorem NatsLink.pending_queue {status reconnects} (cb : Callback) (h : s.queueing = none) :
    NatsLink.pending { s with status := status, queueing := some cb, reconnects := reconnects } =
      s.pending ++ [cb] := by
  simp [NatsLink.pending, h]

theorem NatsLink.Sound.step (h : s.Sound) (hstep : s.step e = some t) : t.Sound := by
  obtain ⟨⟨waiting, htickers, halt⟩, hcounted⟩ := h
  cases e with
  | store host =>
    simp only [NatsLink.step, Option.ite_none_right_eq_some, Option.some.injEq] at hstep
    obtain ⟨-, rfl⟩ := hstep
    exact ⟨⟨waiting, htickers, halt⟩, hcounted⟩
  | lose =>
    simp only [NatsLink.step] at hstep
    split at hstep
    · next hs hq =>
      cases hstep
      refine ⟨⟨waiting, htickers, ?_⟩, hcounted⟩
      rw [hs] at halt
      exact halt
    · cases hstep
  | disconnect =>
    simp only [NatsLink.step] at hstep
    split at hstep
    · next hs hq =>
      cases hstep
      refine ⟨⟨waiting, htickers, ?_⟩, ?_⟩
      · rw [NatsLink.pending_queue .disconnected hq]
        rw [hs] at halt
        exact run_opens_concat halt
      · rw [NatsLink.owed, NatsLink.pending_queue .disconnected hq, List.count_append]
        exact hcounted
    · cases hstep
  | reconnect =>
    simp only [NatsLink.step] at hstep
    split at hstep
    · next hs hq =>
      cases hstep
      refine ⟨⟨waiting, htickers, ?_⟩, ?_⟩
      · rw [NatsLink.pending_queue .reconnected hq]
        rw [hs] at halt
        exact run_opens_concat halt
      · rw [NatsLink.owed, NatsLink.pending_queue .reconnected hq, List.count_append,
          List.count_singleton_self]
        simp only [NatsLink.owed] at hcounted ⊢
        omega
    · cases hstep
  | push =>
    simp only [NatsLink.step] at hstep
    split at hstep
    · next cb hq =>
      simp only [Option.ite_none_right_eq_some, Option.some.injEq] at hstep
      obtain ⟨-, rfl⟩ := hstep
      have hpending : NatsLink.pending { s with queueing := none, ach := s.ach ++ [cb] } =
          s.pending := by
        simp [NatsLink.pending, hq]
      refine ⟨⟨waiting, htickers, ?_⟩, ?_⟩
      · rw [hpending]
        exact halt
      · rw [NatsLink.owed, hpending]
        exact hcounted
    · cases hstep
  | dispatch =>
    simp only [NatsLink.step] at hstep
    split at hstep
    · next rest hd hach =>
      simp only [Option.ite_none_right_eq_some, Option.some.injEq] at hstep
      obtain ⟨-, rfl⟩ := hstep
      have hpending : s.pending = .disconnected :: (rest ++ s.queueing.toList) := by
        rw [NatsLink.pending, hd, hach]
        rfl
      rw [hpending] at halt
      obtain ⟨rfl, hrest⟩ := run_opens_cons.mp halt
      refine ⟨⟨true, by rw [htickers]; rfl, ?_⟩, ?_⟩
      · rw [NatsLink.pending, hd]
        exact hrest
      · rw [NatsLink.owed, hpending, List.count_cons_of_ne (by decide)] at hcounted
        rw [NatsLink.owed, NatsLink.pending, hd]
        rw [hd] at hcounted
        exact hcounted
    · next rest hd hach =>
      cases hstep
      have hpending : NatsLink.pending { s with ach := rest, dispatch := .connecting } =
          s.pending := by
        rw [NatsLink.pending, NatsLink.pending, hd, hach]
        rfl
      refine ⟨⟨waiting, htickers, ?_⟩, ?_⟩
      · rw [hpending]
        exact halt
      · rw [NatsLink.owed, hpending]
        rw [NatsLink.owed, hd] at hcounted
        exact hcounted
    · cases hstep
  | connect =>
    simp only [NatsLink.step] at hstep
    split at hstep
    · next tickers hd ht =>
      cases hstep
      have hpending : s.pending = .reconnected :: (s.ach ++ s.queueing.toList) := by
        rw [NatsLink.pending, hd]
        rfl
      rw [hpending] at halt
      obtain ⟨rfl, hrest⟩ := run_opens_cons.mp halt
      refine ⟨⟨false, ?_, hrest⟩, ?_⟩
      · rw [ht] at htickers
        exact Nat.succ.inj htickers
      · rw [NatsLink.owed, hpending, List.count_cons_self, hd] at hcounted
        simp only [NatsLink.owed, NatsLink.pending, Dispatch.pending, Dispatch.owed,
          List.nil_append] at hcounted ⊢
        omega
    · cases hstep
  | locate host =>
    simp only [NatsLink.step] at hstep
    split at hstep
    · next hd hq =>
      cases hstep
      simp only [NatsLink.pending, NatsLink.owed, hd] at halt hcounted
      exact ⟨⟨waiting, htickers, halt⟩, hcounted⟩
    · cases hstep
  | announce =>
    simp only [NatsLink.step] at hstep
    split at hstep
    · next hd hl =>
      cases hstep
      simp only [NatsLink.pending, NatsLink.owed, hd, hl] at halt hcounted
      exact ⟨⟨waiting, htickers, halt⟩, hcounted⟩
    · cases hstep
  | start ok =>
    simp only [NatsLink.step] at hstep
    split at hstep
    · next hl hq =>
      cases hstep
      refine ⟨⟨waiting, htickers, halt⟩, ?_⟩
      cases ok <;>
      · simp [NatsLink.owed, NatsLink.pending, hl, Listening.steps, Listening.first] at hcounted ⊢
        omega
    · cases hstep
  | send =>
    simp only [NatsLink.step] at hstep
    split at hstep
    · next hl hq =>
      cases hstep
      refine ⟨⟨waiting, htickers, halt⟩, ?_⟩
      simp only [NatsLink.owed, NatsLink.pending, hl, Listening.steps, Listening.first]
        at hcounted ⊢
      omega
    · cases hstep
  | signal =>
    simp only [NatsLink.step] at hstep
    split at hstep
    · next hl =>
      cases hstep
      rw [NatsLink.owed, hl] at hcounted
      exact ⟨⟨waiting, htickers, halt⟩, hcounted⟩
    · cases hstep

-- ---------------------------------------------------------------------------
-- Every reconnect is announced
-- ---------------------------------------------------------------------------

/-- The callbacks are made: there is a host to log, a subscriber to tell, and room
for what the client queues. -/
structure NatsLink.Served (s : NatsLink) : Prop where
  host : s.natsHost.isSome
  loops : s.listening.loops
  room : s.ach.length + s.queueing.toList.length ≤ asyncCBChanSize

instance : Decidable s.Served :=
  decidable_of_iff (s.natsHost.isSome ∧ s.listening.loops ∧
    s.ach.length + s.queueing.toList.length ≤ asyncCBChanSize)
    ⟨fun h => ⟨h.1, h.2.1, h.2.2⟩, fun h => ⟨h.host, h.loops, h.room⟩⟩

theorem NatsLink.Served.step (h : s.Served) (he : e.follows = true) (hstep : s.step e = some t) :
    t.Served ∧ t.left + 1 = s.left := by
  have hroom := h.room
  cases e with
  | push =>
    simp only [NatsLink.step] at hstep
    split at hstep
    · next cb hq =>
      simp only [Option.ite_none_right_eq_some, Option.some.injEq] at hstep
      obtain ⟨-, rfl⟩ := hstep
      rw [hq] at hroom
      refine ⟨⟨h.host, h.loops, by simpa using hroom⟩, ?_⟩
      simp [NatsLink.left, hq]
      omega
    · cases hstep
  | dispatch =>
    simp only [NatsLink.step] at hstep
    split at hstep
    · next rest hd hach =>
      simp only [Option.ite_none_right_eq_some, Option.some.injEq] at hstep
      obtain ⟨-, rfl⟩ := hstep
      rw [hach, List.length_cons] at hroom
      refine ⟨⟨h.host, h.loops, by simp only []; omega⟩, ?_⟩
      simp only [NatsLink.left, hach, List.map_cons, List.sum_cons, Callback.steps]
      omega
    · next rest hd hach =>
      cases hstep
      rw [hach, List.length_cons] at hroom
      refine ⟨⟨h.host, h.loops, by simp only []; omega⟩, ?_⟩
      simp only [NatsLink.left, hd, hach, List.map_cons, List.sum_cons,
        Callback.steps, Dispatch.steps]
      omega
    · cases hstep
  | connect =>
    simp only [NatsLink.step] at hstep
    split at hstep
    · next tickers hd ht =>
      cases hstep
      refine ⟨⟨h.host, h.loops, hroom⟩, ?_⟩
      simp only [NatsLink.left, hd, Dispatch.steps]
      omega
    · cases hstep
  | locate host =>
    simp only [NatsLink.step] at hstep
    split at hstep
    · next hd hq =>
      cases hstep
      refine ⟨⟨rfl, h.loops, hroom⟩, ?_⟩
      simp only [NatsLink.left, hd, Dispatch.steps]
      omega
    · cases hstep
  | announce =>
    simp only [NatsLink.step] at hstep
    split at hstep
    · next hd hl =>
      cases hstep
      refine ⟨⟨h.host, rfl, hroom⟩, ?_⟩
      simp only [NatsLink.left, hd, hl, Dispatch.steps, Listening.steps]
    · cases hstep
  | send =>
    simp only [NatsLink.step] at hstep
    split at hstep
    · next hl hq =>
      cases hstep
      refine ⟨⟨h.host, rfl, hroom⟩, ?_⟩
      simp only [NatsLink.left, hl, Listening.steps]
    · cases hstep
  | store host => cases he
  | lose => cases he
  | disconnect => cases he
  | reconnect => cases he
  | start ok => cases he
  | signal => cases he

theorem NatsLink.Served.run (h : s.Served) (hfs : ∀ e ∈ fs, e.follows = true)
    (hrun : Lib.run NatsLink.step s fs = some t) : t.Served ∧ fs.length + t.left = s.left := by
  induction fs generalizing s with
  | nil =>
    cases hrun
    exact ⟨h, Nat.zero_add _⟩
  | cons e fs ih =>
    obtain ⟨u, hstep, hrest⟩ := run_cons_eq_some.mp hrun
    obtain ⟨hu, hleft⟩ := h.step (hfs e (by simp)) hstep
    obtain ⟨ht, hcount⟩ := ih hu (fun f hf => hfs f (by simp [hf])) hrest
    refine ⟨ht, ?_⟩
    rw [List.length_cons]
    omega

/-- While a step is left, one can be made: the one who is to be told is there. -/
theorem NatsLink.Served.progress (h : s.Served) (hs : s.Sound) (hleft : 0 < s.left) :
    ∃ e : NatsLinkEvent, e.follows = true ∧ (s.step e).isSome := by
  cases hq : s.queueing with
  | some cb =>
    have hroom := h.room
    simp only [hq, Option.toList_some, List.length_singleton] at hroom
    exact ⟨.push,
      rfl, by
        simp only [NatsLink.step, hq, if_pos (show s.ach.length < asyncCBChanSize by omega)]; rfl⟩
  | none =>
    cases hl : s.listening with
    | sending => exact ⟨.send, rfl, by simp only [NatsLink.step, hl, hq]; rfl⟩
    | select =>
      cases hd : s.dispatch with
      | connecting =>
        obtain ⟨waiting, htickers, halt⟩ := hs.alternates
        rw [NatsLink.pending, hd] at halt
        obtain ⟨rfl, -⟩ := run_opens_cons.mp halt
        exact ⟨.connect, rfl, by simp only [NatsLink.step, hd, htickers]; rfl⟩
      | locating => exact ⟨.locate [], rfl, by simp only [NatsLink.step, hd, hq]; rfl⟩
      | announcing => exact ⟨.announce, rfl, by simp only [NatsLink.step, hd, hl]; rfl⟩
      | idle =>
        cases hach : s.ach with
        | nil =>
          rw [NatsLink.left, hq, hl, hd, hach] at hleft
          cases hleft
        | cons cb rest =>
          cases cb with
          | disconnected =>
            exact ⟨.dispatch, rfl, by simp only [NatsLink.step, hd, hach, if_pos h.host]; rfl⟩
          | reconnected => exact ⟨.dispatch, rfl, by simp only [NatsLink.step, hd, hach]; rfl⟩
    | absent => have := h.loops; rw [hl] at this; cases this
    | starting => have := h.loops; rw [hl] at this; cases this
    | exited => have := h.loops; rw [hl] at this; cases this

/-- When nothing is left, every reconnect has had its start message, and a goroutine
waits only if the connection is not there. -/
theorem NatsLink.Sound.quiet (h : s.Sound) (hs : s.Served) (hleft : s.left = 0) :
    s.pending = [] ∧ s.dispatch = .idle ∧ s.sent = 1 + s.reconnects ∧
      s.tickers = if s.status = .reconnecting then 1 else 0 := by
  obtain ⟨⟨waiting, htickers, halt⟩, hcounted⟩ := h
  have hq : s.queueing = none := by
    cases hq : s.queueing with
    | none => rfl
    | some cb => simp [NatsLink.left, hq] at hleft
  have hach : s.ach = [] := by
    cases hach : s.ach with
    | nil => rfl
    | cons cb cbs => cases cb <;> simp [NatsLink.left, hach, Callback.steps] at hleft
  have hd : s.dispatch = .idle := by
    cases hd : s.dispatch with
    | idle => rfl
    | connecting => simp [NatsLink.left, hd, Dispatch.steps] at hleft
    | locating => simp [NatsLink.left, hd, Dispatch.steps] at hleft
    | announcing => simp [NatsLink.left, hd, Dispatch.steps] at hleft
  have hl : s.listening = .select := by
    have hloops := hs.loops
    cases hl : s.listening with
    | select => rfl
    | sending => simp [NatsLink.left, hl, Listening.steps] at hleft
    | absent => rw [hl] at hloops; cases hloops
    | starting => rw [hl] at hloops; cases hloops
    | exited => rw [hl] at hloops; cases hloops
  have hpending : s.pending = [] := by
    rw [NatsLink.pending, hd, hach, hq]
    rfl
  rw [NatsLink.owed, hpending, hd, hl] at hcounted
  rw [hpending] at halt
  cases halt
  refine ⟨hpending, hd, hcounted, ?_⟩
  simpa using htickers

/-- Whatever happened to the connection: once the callbacks are served, the steps
that follow from them are all possible, in any order, and end with a start message
sent for each reconnect. -/
theorem reconnects_announced (hrun : run NatsLink.step (NatsLink.start .starting) es = some s)
    (hserved : s.Served) (hfs : ∀ e ∈ fs, e.follows = true)
    (hrest : run NatsLink.step s fs = some t) :
    (t.pending = [] ∧ t.dispatch = .idle ∧ t.sent = 1 + t.reconnects ∧
      t.tickers = if t.status = .reconnecting then 1 else 0) ∨
    (fs.length < s.left ∧ ∃ e : NatsLinkEvent, e.follows = true ∧ (t.step e).isSome) := by
  have hs : s.Sound :=
    run_invariant_mem (fun _ _ _ _ h => h.step) (NatsLink.sound_start .starting rfl) hrun
  have ht : t.Sound := run_invariant_mem (fun _ _ _ _ h => h.step) hs hrest
  obtain ⟨htserved, hleft⟩ := hserved.run hfs hrest
  rcases Nat.eq_zero_or_pos t.left with hzero | hpos
  · exact Or.inl (ht.quiet htserved hzero)
  · exact Or.inr ⟨by omega, htserved.progress ht hpos⟩

end

def Sample.flapping : List NatsLinkEvent :=
  [.store "10.0.0.1:4222".toList, .lose, .disconnect, .push, .reconnect, .push, .lose, .disconnect,
    .push, .start true, .reconnect]

def Sample.flapped : NatsLink :=
  ⟨.connected, some .reconnected, [.disconnected, .reconnected, .disconnected], .idle, 0,
    some "10.0.0.1:4222".toList, .select, 1, 2⟩

theorem Sample.flapping_flapped : run NatsLink.step
    (NatsLink.start .starting) flapping = some flapped := by decide

def Sample.served : List NatsLinkEvent :=
  [.push, .dispatch, .dispatch, .connect, .locate "10.0.0.2:4222".toList, .announce, .dispatch,
    .dispatch, .connect, .send, .locate "10.0.0.3:4222".toList, .announce, .send]

theorem Sample.served_follows : ∀ e ∈ served, e.follows = true := by decide

theorem reconnects_announced_sample :
    ∃ t, run NatsLink.step Sample.flapped Sample.served = some t ∧
      t.pending = [] ∧ t.dispatch = .idle ∧ t.sent = 1 + t.reconnects ∧
      t.tickers = (if t.status = .reconnecting then 1 else 0) ∧ t.reconnects = 2 := by
  have hrun : ∃ t ∈ run NatsLink.step Sample.flapped Sample.served, t.reconnects = 2 := by decide
  obtain ⟨t, hrun, htwo⟩ := hrun
  have hall : ¬ Sample.served.length < Sample.flapped.left := by decide
  obtain ⟨hpending, hidle, hsent, htickers⟩ | ⟨hshort, -⟩ :=
    reconnects_announced Sample.flapping_flapped (by decide) Sample.served_follows hrun
  · exact ⟨t, hrun, hpending, hidle, hsent, htickers, htwo⟩
  · exact absurd hshort hall

-- ---------------------------------------------------------------------------
-- Callbacks that nobody serves
-- ---------------------------------------------------------------------------

/-- The callback waits for a subscriber that is not there; or for the lock, which
the client has while it waits for room in the channel of the callbacks. -/
def NatsLink.Stuck (s : NatsLink) : Prop :=
  (s.dispatch = .announcing ∧ (s.listening = .absent ∨ s.listening = .exited)) ∨
    (s.dispatch = .locating ∧ s.queueing.isSome ∧ asyncCBChanSize ≤ s.ach.length)

instance (s : NatsLink) : Decidable s.Stuck :=
  inferInstanceAs
    (Decidable ((s.dispatch = .announcing ∧ (s.listening = .absent ∨ s.listening = .exited)) ∨
      (s.dispatch = .locating ∧ s.queueing.isSome ∧ asyncCBChanSize ≤ s.ach.length)))

section
variable {s t : NatsLink}

theorem NatsLink.Stuck.step (h : s.Stuck) (hstep : s.step e = some t) :
    t.Stuck ∧ t.dispatch = s.dispatch ∧ t.tickers = s.tickers ∧ t.sent = s.sent := by
  rcases h with ⟨hd, hl⟩ | ⟨hd, hq, hfull⟩
  -- without a subscriber only the client goes on
  · have hkeep : t.listening = s.listening ∧ t.dispatch = s.dispatch ∧ t.tickers = s.tickers ∧
        t.sent = s.sent := by
      rcases hl with hl | hl <;> cases e <;> simp only [NatsLink.step, hd, hl] at hstep <;> grind
    exact ⟨Or.inl ⟨hkeep.2.1.trans hd, hkeep.1 ▸ hl⟩, hkeep.2⟩
  -- without the lock the subscriber can only be told to end
  · obtain ⟨cb, hcb⟩ := Option.isSome_iff_exists.mp hq
    have hkeep : t.queueing = s.queueing ∧ t.ach = s.ach ∧ t.dispatch = s.dispatch ∧
        t.tickers = s.tickers ∧
        t.sent = s.sent := by
      cases e <;> simp only [NatsLink.step, hd, hcb] at hstep <;> grind
    obtain ⟨hqueueing, hach, hkeep⟩ := hkeep
    exact ⟨Or.inr ⟨hkeep.1.trans hd, hqueueing ▸ hq, hach ▸ hfull⟩, hkeep⟩

/-- No callback is made any more, and no start message sent, whatever happens. -/
theorem stuck_for_ever (h : s.Stuck) (hrun : run NatsLink.step s es = some t) :
    t.Stuck ∧ t.dispatch = s.dispatch ∧ t.tickers = s.tickers ∧ t.sent = s.sent := by
  refine run_invariant_mem (I := fun t => t.Stuck ∧ t.dispatch = s.dispatch ∧
    t.tickers = s.tickers ∧ t.sent = s.sent)
    ?_ ⟨h, rfl, rfl, rfl⟩ hrun
  rintro t u e - ⟨ht, hd, htickers, hsent⟩ hstep
  obtain ⟨hu, hd', htickers', hsent'⟩ := ht.step hstep
  exact ⟨hu, hd'.trans hd, htickers'.trans htickers, hsent'.trans hsent⟩

end

def Sample.unserved : NatsLink :=
  ⟨.connected, none, [], .announcing, 0, some "10.0.0.2:4222".toList, .absent, 0, 1⟩

theorem stuck_for_ever_sample :
    run NatsLink.step (NatsLink.start .absent)
        [.store "10.0.0.1:4222".toList, .lose, .disconnect, .push, .dispatch, .reconnect, .push,
          .dispatch, .connect, .locate "10.0.0.2:4222".toList] = some Sample.unserved ∧
      ∃ t, run NatsLink.step Sample.unserved [.lose, .disconnect, .push, .reconnect,
        .push] = some t ∧
        t.Stuck ∧ t.dispatch = .announcing ∧ t.tickers = 0 ∧ t.sent = 0 := by
  refine ⟨by decide, ?_⟩
  obtain ⟨t, hrun⟩ := Option.isSome_iff_exists.mp
    (show (run NatsLink.step Sample.unserved [.lose, .disconnect, .push, .reconnect,
      .push]).isSome by decide)
  exact ⟨t, hrun, stuck_for_ever (s := Sample.unserved) (by decide) hrun⟩

end BigipCtlr.Mbus
