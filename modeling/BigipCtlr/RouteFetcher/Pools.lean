import BigipCtlr.F5Router.Progress
import BigipCtlr.F5Router.Rejection
import BigipCtlr.RouteFetcher.Convergence
import BigipCtlr.RoutingTable.Delivery

/-!
# From the routing API to the pools

The controller for TCP routes: the fetcher calls the routing table, which
submits its updates to the work queue while the worker goes on. When all events
of a stream are handled and all updates submitted, the worker gets by itself to
where the pools of the route ports have the backends of the API.
-/

namespace BigipCtlr

open Go Lib

-- ---------------------------------------------------------------------------
-- Turns return
-- ---------------------------------------------------------------------------

structure F5Router.Steady (codec : Codec) (r : F5Router) : Prop where
  named : r.Named
  ledger : Ledger codec r.tier2VSInfo r.internalDataGroup
  solid : r.Solid

theorem F5Router.Steady.handle_tcp {r : F5Router} (h : r.Steady codec)
    (hstep : r.handle codec (.tcp tu) = some r') :
    r'.Steady codec where
  named := handle_named h.named hstep
  ledger := handle_ledger h.named h.ledger hstep
  solid := handle_rules h.named h.solid (fun _ _ hitem => by cases hitem) hstep

theorem F5Router.Steady.drain {r : F5Router} (h : r.Steady codec) (o : Order) :
    ∃ r' sections, r.firstSync codec o = some r' ∧ r'.sections o = some sections ∧
      r'.Steady codec := by
  have hsync : ∃ r', r.firstSync codec o = some r' := by
    simp only [F5Router.firstSync]
    split
    · exact ⟨r, rfl⟩
    · obtain ⟨dg, used, drop, htrunc, -⟩ := truncateInternalDataGroup_spec h.ledger o
      rw [htrunc, Option.map_some]
      exact ⟨_, rfl⟩
  obtain ⟨r', hsync⟩ := hsync
  have hledger := firstSync_ledger h.ledger hsync
  obtain ⟨dg, t, done, rfl⟩ := firstSync_spec hsync
  have hsolid : F5Router.Solid { r with
      internalDataGroup := dg, tier2VSInfo := t, firstSyncDone := done } :=
    h.solid.same ⟨rfl, rfl⟩
  obtain ⟨sections, hsections⟩ := Option.isSome_iff_exists.mp (hsolid.sections_isSome o)
  exact ⟨_, sections, hsync, hsections, ⟨h.named.pool, h.named.virtual⟩, hledger, hsolid⟩

theorem F5Router.Steady.boot {c : Config} {r : F5Router} (h : boot codec c plans dg = some r) :
    r.Steady codec := by
  have hrefined : Refined codec r.c [] r fun _ => ∅ := .boot h
  exact ⟨hrefined.named, hrefined.ledger, hrefined.solid⟩

theorem Delivery.Sound.turn_returns (h : Delivery.Sound c s)
    (hsteady : s.controller.router.Steady codec) (o : Order) :
    s.controller.Waits ∨ ∃ k, s.controller.turn codec o = some k ∧ k.router.Steady codec := by
  obtain ⟨⟨r, q, phase, w⟩, table, pending⟩ := s
  replace hsteady : r.Steady codec := hsteady
  cases phase with
  | waiting =>
    cases hq : q.get with
    | none =>
      refine .inl ⟨rfl, ?_⟩
      rw [WorkQueue.get] at hq
      split at hq
      · assumption
      · cases hq
    | some x =>
      refine .inr ⟨⟨r, x.2, .got x.1, w⟩, ?_, hsteady⟩
      rw [turn_waiting, hq, Option.map_some]
  | got item =>
    obtain ⟨tu, rfl, htu⟩ := h.made item (by simp [Phase.item])
    obtain ⟨r', hr', -⟩ := h.ports.handle htu codec
    refine .inr ⟨⟨r', q, .handled (.tcp tu), w⟩, ?_, hsteady.handle_tcp hr'⟩
    rw [turn_got, hr', Option.map_some]
  | handled item => exact .inr ⟨_, turn_handled, hsteady⟩
  | draining item =>
    obtain ⟨r', sections, hsync, hsections, hsteady'⟩ := hsteady.drain o
    refine .inr ⟨⟨r', q, .rendered item sections, w⟩, ?_, hsteady'⟩
    rw [turn_draining, hsync, Option.bind_some, hsections, Option.bind_some]
  | rendered item sections => exact .inr ⟨_, turn_rendered, hsteady⟩
  | finished item => exact .inr ⟨_, turn_finished, hsteady⟩

-- ---------------------------------------------------------------------------
-- The system
-- ---------------------------------------------------------------------------

/-- The fetcher with its table, and the router that the table submits to. It
does so under its lock, in the order of the calls: `submitted` counts the
updates of which this is done. -/
structure TCPRouter where
  fetcher : RouteFetcher TCPFetcher Models.TcpRouteMapping
  controller : Controller
  submitted : Nat

def TCPRouter.pending (s : TCPRouter) : List UpdateTCP :=
  s.fetcher.client.routingTable.2.drop s.submitted

inductive TCPRouterEvent
  | fetcher (e : FetcherEvent Models.TcpRouteMapping)
  | send
  | turn (o : Order)

def TCPRouter.step (codec : Codec) (clock : Nat → Int × Int) (s : TCPRouter) :
    TCPRouterEvent → Option TCPRouter
  | .fetcher e => (s.fetcher.step (tcpClient clock) e).map fun f => { s with fetcher := f }
  | .send =>
    match s.pending with
    | [] => none
    | tu :: _ =>
      some { s with controller := s.controller.updateRoute (.tcp tu), submitted := s.submitted + 1 }
  | .turn o => (s.controller.turn codec o).map fun k => { s with controller := k }

def TCPRouter.start (r : F5Router) (routes : List Models.TcpRouteMapping) : TCPRouter :=
  ⟨.start (newTCPFetcher (newRoutingTable r.c true)) routes, .start r, 0⟩

def TCPRouter.turn (codec : Codec) (clock : Nat → Int × Int) (s : TCPRouter) (o : Order) :
    Option TCPRouter :=
  s.step codec clock (.turn o)

def TCPRouterEvent.fetcher? : TCPRouterEvent → Option (FetcherEvent Models.TcpRouteMapping)
  | .fetcher e => some e
  | .send | .turn _ => none

def fetchesOf (es : List TCPRouterEvent) : List (FetcherEvent Models.TcpRouteMapping) :=
  es.filterMap TCPRouterEvent.fetcher?

def TCPRouter.delivery (s : TCPRouter) : Delivery :=
  ⟨s.controller, s.fetcher.client.routingTable.1, s.pending⟩

def TCPRouter.Fresh (s : TCPRouter) : TCPRouterEvent → Prop
  | .send => s.delivery.Fresh .send
  | .fetcher _ | .turn _ => True

instance (s : TCPRouter) : ∀ e, Decidable (s.Fresh e)
  | .send => inferInstanceAs (Decidable (s.delivery.Fresh .send))
  | .fetcher _ | .turn _ => inferInstanceAs (Decidable True)

/-- The pools of the route ports have all backends of the API, and of others
only some that the table had before. -/
structure TCPRouter.Follows (s : TCPRouter) (before : TCPFetcher) : Prop where
  has : ∀ v ∈ s.fetcher.routes, ∃ p,
    s.controller.router.poolResources.lookup
      (createTCPObjectName s.controller.router.c v.externalPort) = some p ∧
      (⟨v.hostIP, v.hostPort, "user-enabled".toList⟩ : Member) ∈ p.members
  only : ∀ port p,
    s.controller.router.poolResources.lookup (createTCPObjectName s.controller.router.c port) =
      some p →
      p.members.Nodup ∧ ∀ m ∈ p.members, m.session = "user-enabled".toList ∧
        ((∃ v ∈ s.fetcher.routes, v.triple = (port, ⟨m.address, m.port⟩)) ∨
          before.routingTable.1.backendExists port ⟨m.address, m.port⟩ = true)

-- ---------------------------------------------------------------------------
-- What the fetcher does to the table
-- ---------------------------------------------------------------------------

def TCPFetcher.Calls (f f' : TCPFetcher) : Prop :=
  ∃ calls : List TableCall, f'.routingTable = calls.foldl RoutingTable.serve f.routingTable

theorem TCPFetcher.Calls.refl (f : TCPFetcher) : f.Calls f := ⟨[], rfl⟩

theorem TCPFetcher.Calls.trans {f f' f'' : TCPFetcher} (h : f.Calls f') (h' : f'.Calls f'') :
    f.Calls f'' := by
  obtain ⟨calls, hcalls⟩ := h
  obtain ⟨calls', hcalls'⟩ := h'
  exact ⟨calls ++ calls', by rw [hcalls', hcalls, List.foldl_append]⟩

theorem TCPFetcher.calls_foldl {g : TCPFetcher → α → TCPFetcher}
    (hg : ∀ f a, TCPFetcher.Calls f (g f a)) (l : List α) (f : TCPFetcher) :
    f.Calls (l.foldl g f) := by
  induction l generalizing f with
  | nil => exact .refl f
  | cons a l ih => exact (hg f a).trans (ih (g f a))

theorem TCPFetcher.calls_upsert (clock : Nat → Int × Int) (f : TCPFetcher)
    (v : Models.TcpRouteMapping) :
    f.Calls (f.upsert clock v) :=
  ⟨[_], rfl⟩

theorem TCPFetcher.calls_delete (clock : Nat → Int × Int) (f : TCPFetcher)
    (v : Models.TcpRouteMapping) :
    f.Calls (f.delete clock v) :=
  ⟨[_], rfl⟩

theorem TCPFetcher.calls_refresh (clock : Nat → Int × Int) (f : TCPFetcher)
    (routes : List Models.TcpRouteMapping) :
    f.Calls (f.refreshTCPEndpoints clock routes) := by
  have hdelete : f.Calls (f.deleteTCPEndpoints clock routes) :=
    TCPFetcher.calls_foldl (TCPFetcher.calls_delete clock) _ f
  have hset : (f.deleteTCPEndpoints clock routes).Calls { f.deleteTCPEndpoints clock routes with
      endpoints := routes } :=
    ⟨[], rfl⟩
  exact (hdelete.trans hset).trans (TCPFetcher.calls_foldl (TCPFetcher.calls_upsert clock) _ _)

theorem TCPFetcher.calls_step (clock : Nat → Int × Int) (f : TCPFetcher)
    (call : FetcherCall Models.TcpRouteMapping) :
    f.Calls (f.step clock call) := by
  cases call with
  | fetchRoutes first second =>
    rw [TCPFetcher.step]
    split
    · exact .refl f
    · exact TCPFetcher.calls_refresh clock f _
  | handleEvent event =>
    cases event with
    | none => exact .refl f
    | some e =>
      rw [TCPFetcher.step, TCPFetcher.handleEvent]
      split
      · exact TCPFetcher.calls_upsert clock f e.route
      · split
        · exact TCPFetcher.calls_delete clock f e.route
        · exact .refl f

/-- A step of a fetcher calls its client once, or not at all. -/
theorem RouteFetcher.step_client {rc : RouteClient σ α} {s : RouteFetcher σ α}
    (hstep : s.step rc e = some t) :
    t.client = s.client ∨ ∃ call, rc.call s.client call = some t.client := by
  have hfinish : ∀ call u, s.finish rc call = some u → rc.call s.client call = some u.client := by
    intro call u hu
    obtain ⟨f, hf, rfl⟩ := Option.map_eq_some_iff.mp hu
    rw [hf]
    cases call with
    | handleEvent => rfl
    | fetchRoutes first second =>
      dsimp only
      split <;> rfl
  cases e with
  | refresh =>
    simp only [RouteFetcher.step] at hstep
    split at hstep
    · obtain ⟨u, hu, rfl⟩ := Option.map_eq_some_iff.mp hstep
      exact .inr ⟨_, hfinish _ u hu⟩
    · cases hstep
  | sync =>
    simp only [RouteFetcher.step] at hstep
    split at hstep
    · obtain ⟨u, hu, rfl⟩ := Option.map_eq_some_iff.mp hstep
      exact .inr ⟨_, hfinish _ u hu⟩
    · cases hstep
  | handle =>
    simp only [RouteFetcher.step] at hstep
    split at hstep
    · obtain ⟨f, hf, rfl⟩ := Option.map_eq_some_iff.mp hstep
      exact .inr ⟨_, hf⟩
    · cases hstep
  | change c =>
    cases hstep
    exact .inl rfl
  | token ok =>
    simp only [RouteFetcher.step] at hstep
    split at hstep
    · cases hstep
      exact .inl (by split <;> rfl)
    · cases hstep
  | subscribe err =>
    simp only [RouteFetcher.step] at hstep
    split at hstep
    · split at hstep
      · split at hstep <;> cases hstep <;> exact .inl rfl
      · cases hstep
        exact .inl rfl
    · cases hstep
  | next err =>
    cases err with
    | some err =>
      simp only [RouteFetcher.step] at hstep
      split at hstep
      · cases hstep
        exact .inl rfl
      · cases hstep
    | none =>
      simp only [RouteFetcher.step] at hstep
      split at hstep
      · split at hstep
        · cases hstep
        · cases hstep
          exact .inl rfl
      · cases hstep
  | push =>
    simp only [RouteFetcher.step] at hstep
    split at hstep
    · split at hstep
      · cases hstep
        exact .inl rfl
      · cases hstep
    · cases hstep
  | check | list | store | resume | wake | tick | signal =>
    simp only [RouteFetcher.step] at hstep
    split at hstep
    · cases hstep
      exact .inl rfl
    · cases hstep

-- ---------------------------------------------------------------------------
-- The invariant
-- ---------------------------------------------------------------------------

theorem Delivery.Sound.serve (h : Delivery.Sound c s) (call : TableCall) :
    Delivery.Sound c { s with
      table := (s.table.call call).1
      pending := s.pending ++ (s.table.call call).2.2 } := by
  have hs := call_sends h.table call
  refine ⟨h.queue, h.ports, hs.config.trans h.config, hs.sound, fun item hitem => ?_,
    h.handled, fun t => ?_⟩
  · rw [List.map_append, ← List.append_assoc] at hitem
    rcases List.mem_append.mp hitem with hold | hnew
    · exact h.made item hold
    · obtain ⟨tu, htu, rfl⟩ := List.mem_map.mp hnew
      exact ⟨tu, rfl, h.config ▸ hs.made tu htu⟩
  · have hleads := h.leads t
    simp only [Delivery.ahead, List.map_append, ← List.append_assoc] at hleads ⊢
    rw [List.filterMap_append, want_map t (s.table.call call).2.2]
    exact run_append_eq_some.mpr ⟨_, hleads, run_toggle_ofKey hs.edits t⟩

structure TCPRouter.Sound (codec : Codec) (c : Config) (s : TCPRouter) : Prop where
  delivery : Delivery.Sound c s.delivery
  steady : s.controller.router.Steady codec
  submitted : s.submitted ≤ s.fetcher.client.routingTable.2.length

theorem TCPRouter.Sound.calls {s : TCPRouter} (h : s.Sound codec c)
    {f : RouteFetcher TCPFetcher Models.TcpRouteMapping}
    (hcalls : s.fetcher.client.Calls f.client) :
    TCPRouter.Sound codec c { s with fetcher := f } := by
  obtain ⟨calls, hcalls⟩ := hcalls
  have hd := h.delivery
  have hn := h.submitted
  rw [TCPRouter.delivery, TCPRouter.pending] at hd
  suffices hserved : ∀ table sent, Delivery.Sound c ⟨s.controller, table, sent.drop s.submitted⟩ →
      s.submitted ≤ sent.length →
      Delivery.Sound c ⟨s.controller, (calls.foldl RoutingTable.serve (table, sent)).1,
        (calls.foldl RoutingTable.serve (table, sent)).2.drop s.submitted⟩ ∧
      s.submitted ≤ (calls.foldl RoutingTable.serve (table, sent)).2.length by
    obtain ⟨hd', hn'⟩ := hserved _ _ hd hn
    rw [← hcalls] at hd' hn'
    exact ⟨hd', h.steady, hn'⟩
  clear hcalls
  induction calls with
  | nil => exact fun table sent hd hn => ⟨hd, hn⟩
  | cons call calls ih =>
    intro table sent hd hn
    refine ih (table.call call).1 (sent ++ (table.call call).2.2) ?_ ?_
    · rw [List.drop_append_of_le_length hn]
      exact hd.serve call
    · rw [List.length_append]
      omega

theorem TCPRouter.Sound.step {s : TCPRouter} (h : s.Sound codec c) (hfresh : s.Fresh e)
    (hstep : s.step codec clock e = some t) : t.Sound codec c := by
  cases e with
  | fetcher e =>
    obtain ⟨f, hf, rfl⟩ := Option.map_eq_some_iff.mp hstep
    refine h.calls ?_
    rcases RouteFetcher.step_client hf with hsame | ⟨call, hcall⟩
    · rw [hsame]
      exact .refl _
    · rw [← Option.some.inj hcall]
      exact TCPFetcher.calls_step clock _ call
  | send =>
    simp only [TCPRouter.step] at hstep
    split at hstep
    · cases hstep
    · next tu rest hpend =>
      cases hstep
      have hlt : s.submitted < s.fetcher.client.routingTable.2.length := by
        by_contra hge
        rw [TCPRouter.pending, List.drop_eq_nil_of_le (Nat.not_lt.mp hge)] at hpend
        cases hpend
      have hrest : s.fetcher.client.routingTable.2.drop (s.submitted + 1) = rest := by
        rw [← List.tail_drop, show s.fetcher.client.routingTable.2.drop s.submitted = tu :: rest
          from hpend, List.tail_cons]
      have hsend := h.delivery.send hpend (hfresh tu (by simp [TCPRouter.delivery, hpend]))
      refine ⟨?_, h.steady, hlt⟩
      rw [TCPRouter.delivery, TCPRouter.pending, hrest]
      exact hsend
  | turn o =>
    obtain ⟨k, hk, rfl⟩ := Option.map_eq_some_iff.mp hstep
    rcases h.delivery.turn_returns h.steady o with hwaits | ⟨k', hk', hsteady⟩
    · rw [show s.controller.turn codec o = none from hwaits.turn_eq_none] at hk
      cases hk
    · rw [show s.controller.turn codec o = some k' from hk'] at hk
      cases hk
      exact ⟨h.delivery.turn hk', hsteady, h.submitted⟩

theorem TCPRouter.Sound.start {r : F5Router} (hboot : boot codec c plans dg = some r)
    (routes : List Models.TcpRouteMapping) :
    (TCPRouter.start r routes).Sound codec r.c :=
  ⟨.start hboot, .boot hboot, Nat.zero_le _⟩

theorem TCPRouter.Sound.follows {s : TCPRouter} {before : TCPFetcher} (h : s.Sound codec c)
    (hwaits : s.controller.Waits) (hpend : s.pending = [])
    (hfollows : s.fetcher.client.Follows before s.fetcher.routes) :
    s.Follows before := by
  have hmirrored := h.delivery.mirrored (hwaits.idle h.delivery.queue) hpend
  have hc : s.controller.router.c = s.fetcher.client.routingTable.1.c :=
    h.delivery.ports.config.trans h.delivery.config.symm
  constructor
  · intro v hv
    have hexists := (hfollows v.externalPort ⟨v.hostIP, v.hostPort⟩).1 ⟨v, hv, rfl⟩
    rw [hc]
    exact (hmirrored.members _ _).mpr ⟨rfl, hexists⟩
  · intro port p hp
    rw [hc] at hp
    refine ⟨hmirrored.nodup port p hp, fun m hm => ?_⟩
    obtain ⟨hsession, hexists⟩ := (hmirrored.members port m).mp ⟨p, hp, hm⟩
    exact ⟨hsession, (hfollows port _).2 hexists⟩

/-- What the fetcher does in a run is a run of the fetcher. -/
theorem run_fetcher {s t : TCPRouter} (hrun : run (TCPRouter.step codec clock) s es = some t) :
    run (RouteFetcher.step (tcpClient clock)) s.fetcher (fetchesOf es) = some t.fetcher := by
  induction es generalizing s with
  | nil =>
    cases hrun
    rfl
  | cons e es ih =>
    obtain ⟨u, hu, hrun⟩ := run_cons_eq_some.mp hrun
    have htail := ih hrun
    cases e with
    | fetcher e =>
      obtain ⟨f, hf, rfl⟩ := Option.map_eq_some_iff.mp hu
      exact run_cons_eq_some.mpr ⟨f, hf, htail⟩
    | send =>
      simp only [TCPRouter.step] at hu
      split at hu
      · cases hu
      · cases hu
        exact htail
    | turn o =>
      obtain ⟨k, -, rfl⟩ := Option.map_eq_some_iff.mp hu
      exact htail

namespace Sample

def tcpSession : List TCPRouterEvent :=
  (session [tcpMapping 1] { tcpMapping 2 with externalPort := 6001 }).map .fetcher ++
    [.send, .send, .send]

end Sample

end BigipCtlr
