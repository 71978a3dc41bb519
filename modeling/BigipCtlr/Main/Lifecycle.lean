import BigipCtlr.F5Router.Shutdown
import BigipCtlr.Lib.OrderedGroup

/-!
# The life of the process

`main` runs the feeds of the routes, the controller, the F5 router and the
configuration driver as an ordered group. Calls of `Fatal` and panics end the
process at once and are left out, and so are broker calls that come before the
F5 router has fetched its data groups.
-/

namespace BigipCtlr

open Go Lib

inductive Runner
  | httpRouteFetcher
  | subscriber
  | tcpRouteFetcher
  | controller
  | f5router
  | f5driver
  deriving DecidableEq

/-- `api` is `RoutingApiEnabled`. -/
def Main.members (mode : RoutingMode) (api : Bool) : List Runner :=
  (if mode ≠ .tcp then (if api then [.httpRouteFetcher] else []) ++ [.subscriber] else []) ++
    (if mode ≠ .http then [.tcpRouteFetcher] else []) ++ [.controller, .f5router, .f5driver]

/-- The process of the configuration driver. One that ended by itself, with
status 0, has been waited for, so that it cannot be signalled. -/
inductive DriverProcess
  | absent
  | runs
  | ended
  | stopped
  deriving DecidableEq

/-- The service is the F5 router with its worker, which runs from when the member
is ready. -/
structure Main where
  group : OrderedGroup Runner
  heartbeatOK : Bool
  driver : DriverProcess
  service : Service

inductive MainEvent
  | group (e : GroupEvent Runner)
  | service (e : ServiceEvent)
  | driverEnds

namespace Main

def start (mode : RoutingMode) (api : Bool) (r : F5Router) : Main :=
  ⟨.new (Main.members mode api), false, .absent, .start r⟩

def returns (s : Main) (m : Runner) (err : Bool) : Bool :=
  let p := s.group.proc m
  match m with
  | .subscriber => if p.ready then p.signalled && !err else err
  | .f5router => s.service.quit && !err
  | .f5driver => p.ready && p.signalled && err == decide (s.driver = .ended)
  | .httpRouteFetcher | .tcpRouteFetcher | .controller => p.ready && p.signalled && !err

def allows (s : Main) : GroupEvent Runner → Bool
  | .exit m err => s.returns m err
  | _ => true

/-- The worker runs and broker calls come once the member is ready, and a signal
shuts the queue down once. -/
def serves (s : Main) : ServiceEvent → Bool
  | .drain (.update _) => true
  | .drain (.change _ _) | .drain (.submit _) | .drain (.turn _) => (s.group.proc .f5router).ready
  | .shutDown =>
    (s.group.proc .f5router).ready && (s.group.proc .f5router).signalled && !s.service.shuttingDown

/-- `Driver.Run` starts the process before it is ready, and waits for its end
after it has signalled it. -/
def driverAfter (driver : DriverProcess) : GroupEvent Runner → DriverProcess
  | .ready .f5driver => .runs
  | .exit .f5driver _ => if driver = .runs then .stopped else driver
  | _ => driver

def step (codec : Codec) (s : Main) : MainEvent → Option Main
  | .group e =>
    if s.allows e then
      (s.group.step e).map fun g => { s with
        group := g
        heartbeatOK := match e with
          | .ready .controller => true
          | _ => s.heartbeatOK
        driver := driverAfter s.driver e }
    else none
  | .service e =>
    if s.serves e then (s.service.step codec e).map fun v => { s with service := v } else none
  | .driverEnds => if s.driver = .runs then some { s with driver := .ended } else none

end Main

-- ---------------------------------------------------------------------------
-- The invariant
-- ---------------------------------------------------------------------------

theorem Main.nodup_members (mode : RoutingMode) (api : Bool) : (Main.members mode api).Nodup := by
  cases mode <;> cases api <;> decide

theorem Main.members_order (mode : RoutingMode) (api : Bool) :
    [.controller, .f5router].Sublist (Main.members mode api) ∧
      [.f5router, .f5driver].Sublist (Main.members mode api) ∧
      ∀ m ∈ Main.members mode api, m ≠ .f5router → m ≠ .f5driver →
        [m, .f5router].Sublist (Main.members mode api) := by
  cases mode <;> cases api <;> decide

structure Main.Sound (ms : List Runner) (s : Main) : Prop where
  group : s.group.Sound ms
  heartbeat : (s.group.proc .controller).ready = true → s.heartbeatOK = true
  present : s.driver ≠ .absent → (s.group.proc .f5driver).ready = true
  running : s.driver = .runs → (s.group.proc .f5driver).exited = none
  driver : ∀ err, (s.group.proc .f5driver).exited = some err → (err = true ↔ s.driver = .ended)
  errors : ∀ m, (s.group.proc m).exited = some true → m = .subscriber ∨ m = .f5driver
  quit : (s.group.proc .f5router).exited.isSome = true → s.service.quit = true
  signalled : s.service.shuttingDown = true → (s.group.proc .f5router).signalled = true
  service : s.service.Sound

section
variable {codec : Codec} {ms : List Runner} {s t : Main}

theorem Main.sound_start (mode : RoutingMode) (api : Bool) (r : F5Router) :
    (Main.start mode api r).Sound (Main.members mode api) where
  group := OrderedGroup.sound_new _
  heartbeat h := by cases h
  present h := absurd rfl h
  running h := by cases h
  driver _ h := by cases h
  errors _ h := by cases h
  quit h := by cases h
  signalled h := by cases h
  service := Service.sound_start r

theorem Main.driverAfter_cases (d : DriverProcess) (e : GroupEvent Runner) :
    (driverAfter d e = d ∧ ∀ err, e = .exit .f5driver err → d ≠ .runs) ∨
    (e = .ready .f5driver ∧ driverAfter d e = .runs) ∨
    (∃ err, e = .exit .f5driver err) ∧ d = .runs ∧ driverAfter d e = .stopped := by
  by_cases hready : e = .ready .f5driver
  · subst hready
    exact .inr (.inl ⟨rfl, rfl⟩)
  · by_cases hexit : ∃ err, e = .exit .f5driver err
    · obtain ⟨err, rfl⟩ := hexit
      by_cases hd : d = .runs
      · exact .inr (.inr ⟨⟨err, rfl⟩, hd, if_pos hd⟩)
      · exact .inl ⟨if_neg hd, fun _ _ => hd⟩
    · refine .inl ⟨?_, fun err he => absurd ⟨err, he⟩ hexit⟩
      rw [driverAfter.eq_3 d e hready fun err he => hexit ⟨err, he⟩]

/-- A step of the group. What becomes of the driver depends on whether the event
is its own. -/
theorem Main.Sound.stepGroup (h : s.Sound ms) (hnd : ms.Nodup)
    (hstep : s.step codec (.group e) = some t) :
    t.Sound ms := by
  obtain ⟨hallows, hstep⟩ := Option.ite_none_right_eq_some.mp hstep
  obtain ⟨g, hg, rfl⟩ := Option.map_eq_some_iff.mp hstep
  have hproc := OrderedGroup.step_proc hg
  have hdriver := driverAfter_cases s.driver e
  have hready : e = .ready .f5driver → (s.group.proc .f5driver).exited = none := by
    rintro rfl
    exact (Option.ite_none_right_eq_some.mp hg).1.2.2
  have hexit : ∀ m err, e = .exit m err → (s.group.proc m).exited = none ∧
      s.returns m err = true := by
    rintro m err rfl
    exact ⟨(Option.ite_none_right_eq_some.mp hg).1.2, hallows⟩
  refine ⟨h.group.step hnd hg, fun hc => ?_, fun hd => ?_, fun hd => ?_, fun err herr => ?_,
    fun m hm => ?_, fun hr => ?_, fun hdown => (hproc _).2.2 (h.signalled hdown), h.service⟩
  · rcases (hproc _).1.mp hc with hc | rfl
    · have hb := h.heartbeat hc
      dsimp only
      split
      · rfl
      · exact hb
    · rfl
  · refine (hproc _).1.mpr ?_
    dsimp only at hd
    rcases hdriver with ⟨heq, -⟩ | ⟨he, -⟩ | ⟨-, hruns, -⟩
    · exact .inl (h.present (heq ▸ hd))
    · exact .inr he
    · exact .inl (h.present (by rw [hruns]; decide))
  · dsimp only at hd
    rw [Option.eq_none_iff_forall_ne_some]
    intro err herr
    rcases ((hproc _).2.1 err).mp herr with hold | he <;> rcases hdriver with ⟨heq, hno⟩ |
      ⟨hr, -⟩ | ⟨-, -, heq⟩
    · rw [h.running (heq ▸ hd)] at hold
      cases hold
    · rw [hready hr] at hold
      cases hold
    · rw [heq] at hd
      cases hd
    · exact hno err he (heq ▸ hd)
    · rw [he] at hr
      cases hr
    · rw [heq] at hd
      cases hd
  · dsimp only
    rcases ((hproc _).2.1 err).mp herr with hold | he
    · have hsame : driverAfter s.driver e = s.driver := by
        rcases hdriver with ⟨heq, -⟩ | ⟨hr, -⟩ | ⟨⟨err', he⟩, -⟩
        · exact heq
        · rw [hready hr] at hold
          cases hold
        · rw [(hexit _ err' he).1] at hold
          cases hold
      rw [hsame]
      exact h.driver err hold
    · have hret := (hexit _ err he).2
      simp only [Main.returns, Bool.and_eq_true, beq_iff_eq] at hret
      rw [hret.2, decide_eq_true_iff]
      rcases hdriver with ⟨heq, -⟩ | ⟨hr, -⟩ | ⟨-, hruns, heq⟩
      · rw [heq]
      · rw [he] at hr
        cases hr
      · rw [heq, hruns]
        decide
  · rcases ((hproc m).2.1 true).mp hm with hm | he
    · exact h.errors m hm
    · have hret := (hexit m true he).2
      cases m with
      | subscriber => exact .inl rfl
      | f5driver => exact .inr rfl
      | httpRouteFetcher => simp [Main.returns] at hret
      | tcpRouteFetcher => simp [Main.returns] at hret
      | controller => simp [Main.returns] at hret
      | f5router => simp [Main.returns] at hret
  · obtain ⟨err, herr⟩ := Option.isSome_iff_exists.mp hr
    rcases ((hproc _).2.1 err).mp herr with herr | he
    · exact h.quit (by rw [herr]; rfl)
    · have hret := (hexit _ err he).2
      simp only [Main.returns, Bool.and_eq_true] at hret
      exact hret.1

theorem Main.Sound.step (h : s.Sound ms) (hnd : ms.Nodup) (hstep : s.step codec e = some t) :
    t.Sound ms := by
  cases e with
  | group e => exact h.stepGroup hnd hstep
  | service e =>
    obtain ⟨hserves, hstep⟩ := Option.ite_none_right_eq_some.mp hstep
    obtain ⟨v, hv, rfl⟩ := Option.map_eq_some_iff.mp hstep
    obtain ⟨hquit, hdown⟩ := Service.step_flags hv
    refine { h with quit := fun hr => hquit (h.quit hr), signalled := fun hd => ?_,
                    service := h.service.step hv }
    rcases hdown hd with hold | rfl
    · exact h.signalled hold
    · simp only [Main.serves, Bool.and_eq_true] at hserves
      exact hserves.1.2
  | driverEnds =>
    obtain ⟨hruns, hstep⟩ := Option.ite_none_right_eq_some.mp hstep
    cases hstep
    refine { h with present := fun _ => ?_, running := fun hd => ?_, driver := fun err herr => ?_ }
    · exact h.present (by rw [hruns]; decide)
    · cases hd
    · rw [h.running hruns] at herr
      cases herr

theorem Main.sound_run (hrun : run (Main.step codec) (.start mode api r) es = some s) :
    s.Sound (Main.members mode api) :=
  run_invariant_mem (fun _ _ _ _ h hstep => h.step (Main.nodup_members mode api) hstep)
    (Main.sound_start mode api r) hrun

-- ---------------------------------------------------------------------------
-- Start and stop in order
-- ---------------------------------------------------------------------------

theorem Main.Sound.started_of_signalled (h : s.Sound ms) (hm : (s.group.proc m).signalled = true) :
    m ∈ s.group.started := by
  refine h.group.mem_started fun hnew => ?_
  rw [hnew] at hm
  cases hm

theorem Main.Sound.driver_started (h : s.Sound ms) (hd : s.driver ≠ .absent) :
    .f5driver ∈ s.group.started := by
  refine h.group.mem_started fun hnew => ?_
  have hready := h.present hd
  rw [hnew] at hready
  cases hready

/-- The driver is signalled before the F5 router, and has returned by then. -/
theorem Main.Sound.driver_down (h : s.Sound (Main.members mode api))
    (hr : (s.group.proc .f5router).signalled = true) :
    s.driver ≠ .runs := by
  intro hd
  have hstarted := h.driver_started (by rw [hd]; decide)
  have hpair :=
    h.group.pair (Main.nodup_members mode api) (Main.members_order mode api).2.1 hstarted
  have hexit := h.group.exited_of_signalled (Main.nodup_members mode api) hpair hr
  rw [h.running hd] at hexit
  cases hexit

/-- Who is started, and stopped, in which order: the controller reports healthy
before the F5 router is started; the driver runs only when the F5 router is
ready, and not any more when its queue is shut down; and a feed or the
controller is signalled only when the worker has ended. -/
theorem members_in_order (mode : RoutingMode) (api : Bool) (r : F5Router)
    (hrun : run (Main.step codec) (.start mode api r) es = some s) :
    (.f5router ∈ s.group.started → s.heartbeatOK = true) ∧
    (s.driver = .runs → (s.group.proc .f5router).ready = true ∧ s.service.shuttingDown = false) ∧
    (∀ m, m ≠ .f5router → m ≠ .f5driver → (s.group.proc m).signalled = true →
      .f5router ∈ s.group.started →
      s.service.quit = true) := by
  have h := Main.sound_run hrun
  have hnd := Main.nodup_members mode api
  obtain ⟨hcontroller, hdriver, hfeed⟩ := Main.members_order mode api
  refine ⟨fun hm => ?_, fun hd => ⟨?_, ?_⟩, fun m hr hd hs hm => ?_⟩
  · exact h.heartbeat (h.group.readied _ _ (h.group.pair hnd hcontroller hm))
  · have hstarted := h.driver_started (by rw [hd]; decide)
    exact h.group.readied _ _ (h.group.pair hnd hdriver hstarted)
  · by_contra hdown
    exact h.driver_down (h.signalled (by simpa using hdown)) hd
  · have hmem : m ∈ Main.members mode api := by
      rw [h.group.order]
      exact List.mem_append_left _ (h.started_of_signalled hs)
    exact h.quit (h.group.exited_of_signalled hnd (h.group.pair hnd (hfeed m hmem hr hd) hm) hs)

-- ---------------------------------------------------------------------------
-- The stop ends
-- ---------------------------------------------------------------------------

def MainEvent.ends : MainEvent → Bool
  | .group e => OrderedGroup.ends e
  | .service .shutDown => true
  | .service (.drain _) | .driverEnds => false

def Main.left (s : Main) : Nat := s.group.left + if s.service.shuttingDown then 0 else 1

theorem Main.left_step (hs : s.group.stops = true) (hstep : s.step codec e = some t) :
    t.group.stops = true ∧ t.left + (if e.ends then 1 else 0) ≤ s.left := by
  cases e with
  | group e =>
    obtain ⟨-, hstep⟩ := Option.ite_none_right_eq_some.mp hstep
    obtain ⟨g, hg, rfl⟩ := Option.map_eq_some_iff.mp hstep
    obtain ⟨hstops, hle⟩ := OrderedGroup.left_step hs hg
    refine ⟨hstops, ?_⟩
    dsimp only [Main.left, MainEvent.ends]
    rw [Nat.add_right_comm]
    exact Nat.add_le_add_right hle _
  | service e =>
    obtain ⟨hserves, hstep⟩ := Option.ite_none_right_eq_some.mp hstep
    obtain ⟨v, hv, rfl⟩ := Option.map_eq_some_iff.mp hstep
    refine ⟨hs, ?_⟩
    cases e with
    | shutDown =>
      cases hv
      simp only [Main.serves, Bool.and_eq_true, Bool.not_eq_true'] at hserves
      simp [Main.left, MainEvent.ends, hserves.2]
    | drain e =>
      have hle : (if v.shuttingDown then 0 else 1) ≤ if s.service.shuttingDown then 0 else 1 := by
        cases hdown : s.service.shuttingDown with
        | true => exact Nat.le_of_eq (if_pos (Service.left_step hdown hv).1)
        | false =>
          split
          · exact Nat.zero_le _
          · exact Nat.le_refl _
      exact Nat.add_le_add_left hle s.group.left
  | driverEnds =>
    obtain ⟨-, hstep⟩ := Option.ite_none_right_eq_some.mp hstep
    cases hstep
    exact ⟨hs, Nat.le_refl _⟩

def MainEvent.isTurn : MainEvent → Bool
  | .service e => e.isTurn
  | .group _ | .driverEnds => false

theorem Main.turns_step (hdown : s.service.shuttingDown = true) (hstep : s.step codec e = some t) :
    t.service.shuttingDown = true ∧ t.service.left + (if e.isTurn then 1 else 0) ≤
      s.service.left := by
  cases e with
  | group e =>
    obtain ⟨-, hstep⟩ := Option.ite_none_right_eq_some.mp hstep
    obtain ⟨g, -, rfl⟩ := Option.map_eq_some_iff.mp hstep
    exact ⟨hdown, Nat.le_refl _⟩
  | service e =>
    obtain ⟨-, hstep⟩ := Option.ite_none_right_eq_some.mp hstep
    obtain ⟨v, hv, rfl⟩ := Option.map_eq_some_iff.mp hstep
    exact Service.left_step hdown hv
  | driverEnds =>
    obtain ⟨-, hstep⟩ := Option.ite_none_right_eq_some.mp hstep
    cases hstep
    exact ⟨hdown, Nat.le_refl _⟩

/-- What is left at the end: nothing runs, the updates that were accepted are
handled and the configuration is written, and `main` ends with status 1 exactly
when the driver ended by itself or the subscriber failed. -/
structure Main.Stopped (s : Main) : Prop where
  done : s.group.phase = .done
  exited : ∀ m ∈ s.group.started, (s.group.proc m).exited.isSome = true
  driver : s.driver ≠ .runs
  service : .f5router ∈ s.group.started →
    s.service.quit = true ∧ s.service.drain.controller.queue.Idle ∧
    (s.service.drain.inFlight = [] → s.service.refused = [] → 1 ≤ s.service.drain.processed →
      ∃ sections, s.service.drain.controller.written = some sections ∧
        s.service.drain.controller.router.Current sections)
  status : (∃ m, (m, true) ∈ s.group.trace) ↔
    s.driver = .ended ∨ (s.group.proc .subscriber).exited = some true

theorem Main.Sound.stopped (h : s.Sound ms) (hdone : s.group.phase = .done) : s.Stopped := by
  have hexited : ∀ m ∈ s.group.started, (s.group.proc m).exited.isSome = true := by
    intro m hm
    obtain ⟨err, -, herr⟩ := h.group.exited_of_done hdone hm
    rw [herr]
    rfl
  refine ⟨hdone, hexited, fun hd => ?_, fun hm => ?_, ?_, ?_⟩
  · have hdriver := hexited _ (h.driver_started (by rw [hd]; decide))
    rw [h.running hd] at hdriver
    cases hdriver
  · have hquit := h.quit (hexited _ hm)
    exact ⟨hquit, h.service.ended hquit⟩
  · rintro ⟨m, hm⟩
    have herr := h.group.trace _ hm
    rcases h.errors m herr with rfl | rfl
    · exact .inr herr
    · exact .inl ((h.driver true herr).mp rfl)
  · rintro (hd | herr)
    · obtain ⟨err, hmem, herr⟩ :=
        h.group.exited_of_done hdone (h.driver_started (by rw [hd]; decide))
      rw [(h.driver err herr).mpr hd] at hmem
      exact ⟨_, hmem⟩
    · have hstarted : .subscriber ∈ s.group.started := by
        refine h.group.mem_started fun hnew => ?_
        rw [hnew] at herr
        cases herr
      obtain ⟨err, hmem, herr'⟩ := h.group.exited_of_done hdone hstarted
      rw [herr] at herr'
      cases herr'
      exact ⟨_, hmem⟩

def Main.Drains (codec : Codec) (s : Main) : Prop :=
  s.service.shuttingDown = true ∧ s.service.quit = false ∧
    ∀ o, s.service.drain.controller.Panics codec o ∨
      ∃ u, s.step codec (.service (.drain (.turn o))) = some u

theorem Main.step_group (hallows : s.allows e = true) (hg : s.group.step e = some g) :
    (s.step codec (.group e)).isSome = true := by
  simp only [Main.step, hallows, hg, if_true, Option.map_some, Option.isSome_some]

theorem Main.step_exit (hm : m ∈ s.group.started) (hexit : (s.group.proc m).exited = none)
    (hret : s.returns m err = true) : (s.step codec (.group (.exit m err))).isSome = true :=
  Main.step_group hret (if_pos ⟨hm, hexit⟩)

/-- Who was signalled and has not returned goes on: it gets ready, or returns, or
its worker drains the queue. -/
theorem Main.member_goes (hm : m ∈ s.group.started) (hs : (s.group.proc m).signalled = true)
    (hexit : (s.group.proc m).exited = none) :
    (∃ e : MainEvent, e.ends = true ∧ (s.step codec e).isSome = true) ∨ s.Drains codec := by
  cases hready : (s.group.proc m).ready with
  | false => exact .inl ⟨.group (.ready m), rfl, Main.step_group rfl (if_pos ⟨hm, hready, hexit⟩)⟩
  | true =>
    have hreturns : ∀ err, s.returns m err = true →
        (∃ e : MainEvent, e.ends = true ∧ (s.step codec e).isSome = true) ∨ s.Drains codec :=
      fun err hret => .inl ⟨.group (.exit m err), rfl, Main.step_exit hm hexit hret⟩
    cases m with
    | httpRouteFetcher => exact hreturns false (by simp [Main.returns, hready, hs])
    | subscriber => exact hreturns false (by simp [Main.returns, hready, hs])
    | tcpRouteFetcher => exact hreturns false (by simp [Main.returns, hready, hs])
    | controller => exact hreturns false (by simp [Main.returns, hready, hs])
    | f5driver => exact hreturns (decide (s.driver = .ended)) (by simp [Main.returns, hready, hs])
    | f5router =>
      cases hquit : s.service.quit with
      | true => exact hreturns false (by simp [Main.returns, hquit])
      | false =>
        cases hdown : s.service.shuttingDown with
        | false =>
          refine .inl ⟨.service .shutDown, rfl, ?_⟩
          simp [Main.step, Main.serves, hready, hs, hdown, Service.step]
        | true =>
          refine .inr ⟨hdown, hquit, fun o => ?_⟩
          have hgoes : _ ∨ ∃ v, s.service.step codec (.drain (.turn o)) = some v :=
            Service.goes hdown hquit o
          rcases hgoes with hpanics | ⟨v, hv⟩
          · exact .inl hpanics
          · refine .inr ⟨{ s with service := v }, ?_⟩
            simp only [Main.step, Main.serves, hready, hv, if_true, Option.map_some]

end

namespace Sample

def startup : List MainEvent :=
  [.group .launch, .group (.ready .subscriber), .group .launch, .service (.drain (.update addA)),
    .group (.ready .controller), .group .launch, .group (.ready .f5router),
    .service (.drain (.turn .stored)), .group .launch, .group (.ready .f5driver), .group .launch]

def stopping : List MainEvent :=
  [.group .stop, .group (.exit .f5driver false), .group .reap, .group .stop, .service .shutDown] ++
    List.replicate 6 (.service (.drain (.turn .stored))) ++
    [.group (.exit .f5router false), .group .reap, .group .stop,
      .group (.exit .controller false), .group .reap, .group .stop,
      .group (.exit .subscriber false), .group .reap, .group .stop]

end Sample

theorem members_in_order_sample :
    ∃ r ∈ boot jsonCodec Sample.config ∅ none,
      ∃ s ∈ run (Main.step jsonCodec) (.start .http false r) Sample.startup,
      s.driver = .runs ∧ s.heartbeatOK = true ∧ (s.group.proc .f5router).ready = true := by
  have hrun : ∃ r ∈ boot jsonCodec Sample.config ∅ none,
      ∃ s ∈ run (Main.step jsonCodec) (.start .http false r) Sample.startup,
        s.driver = .runs ∧ .f5router ∈ s.group.started := by
    decide +kernel
  obtain ⟨r, hboot, s, hrun, hd, hm⟩ := hrun
  obtain ⟨hhealthy, hready, -⟩ := members_in_order .http false r hrun
  exact ⟨r, hboot, s, hrun, hd, hhealthy hm, (hready hd).1⟩

end BigipCtlr
