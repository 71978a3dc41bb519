import BigipCtlr.F5Router.Progress
import BigipCtlr.F5Router.Rules
import BigipCtlr.Registry.Single
import BigipCtlr.RoutingTable.Delivery

/-!
# From the registry to the pools

The registry submits its updates to the work queue of the controller while the
worker goes on and the routing table submits its own. No update of the registry
equals another, so none is dropped while it waits: all are handled, in the
order in which they were sent, and the pools are those of the registry whenever
nothing is on its way.
-/

namespace BigipCtlr

open Go Lib

theorem Refined.of_routes {r : F5Router} (h : Refined codec c es r S)
    (hsub : ∀ e ∈ es', ∀ ru, e.item = .http ru →
      ∃ f ∈ es, ∃ rv, f.item = .http rv ∧ rv.uri = ru.uri) :
    Refined codec c es' r S := by
  refine ⟨h.config, h.external, h.named, h.ledger, h.solid, h.pool, h.virtual,
    fun e he ru hru => ?_⟩
  obtain ⟨f, hf, rv, hrv, huri⟩ := hsub e he ru hru
  have hname : rv.name = ru.name := by
    have hnamed := rv.named
    rw [huri, ru.named] at hnamed
    exact (Option.some.inj hnamed).symm
  rw [← huri, ← hname]
  exact h.rule f hf rv hrv

theorem Refined.firstSync {r : F5Router} (h : Refined codec c es r S) (o : Order) :
    ∃ r', r.firstSync codec o = some r' ∧ Refined codec c es r' S := by
  simp only [F5Router.firstSync]
  split
  · exact ⟨r, rfl, h⟩
  · obtain ⟨dg, used, drop, htrunc, -⟩ := truncateInternalDataGroup_spec h.ledger o
    have hl := h.ledger.truncate htrunc
    rw [htrunc, Option.map_some]
    exact ⟨_, rfl, ⟨h.config, h.external, ⟨h.named.pool, h.named.virtual⟩, hl,
      h.solid.same ⟨rfl, rfl⟩, h.pool, h.virtual, h.rule⟩⟩

theorem hasRoom_iff {t : Tier2VSInfo} :
    (t.getAvailableVirtualAddress.bind fun x => x.2.toOption).isSome = true ↔ t.HasRoom := by
  refine ⟨hasRoom_of_isSome, ?_⟩
  rintro ⟨t', va, h⟩
  rw [h]
  rfl

instance (t : Tier2VSInfo) : Decidable t.HasRoom := decidable_of_iff _ hasRoom_iff

namespace Registry

open Route

-- ---------------------------------------------------------------------------
-- The system
-- ---------------------------------------------------------------------------

/-- `pending` is what the call that has the lock of the registry has still to
submit. -/
structure RouteDelivery where
  controller : Controller
  registry : RouteRegistry
  pending : List UpdateHTTP

inductive RouteDeliveryEvent
  | call (call : Call)
  | send
  | tcp (tu : UpdateTCP)
  | turn (o : Order)

def RouteDelivery.step (codec : Codec) (lower : Lower) (s : RouteDelivery) :
    RouteDeliveryEvent → Option RouteDelivery
  | .call call =>
    if s.pending = [] then
      (s.registry.call lower call).map fun (r, sent) =>
        { s with registry := r, pending := sent.map Sent.update }
    else none
  | .send =>
    match s.pending with
    | [] => none
    | u :: rest => some { s with controller := s.controller.updateRoute (.http u), pending := rest }
  | .tcp tu => some { s with controller := s.controller.updateRoute (.tcp tu) }
  | .turn o => (s.controller.turn codec o).map fun k => { s with controller := k }

def RouteDelivery.start (r : F5Router) (threshold : Int64) : RouteDelivery :=
  ⟨.start r, newRouteRegistry threshold true, []⟩

def RouteDeliveryEvent.call? : RouteDeliveryEvent → Option Call
  | .call c => some c
  | .send | .tcp _ | .turn _ => none

def callsOf (es : List RouteDeliveryEvent) : List Call := es.filterMap RouteDeliveryEvent.call?

def RouteDelivery.Room (s : RouteDelivery) : RouteDeliveryEvent → Prop
  | .turn _ => s.controller.router.tier2VSInfo.HasRoom
  | .call _ | .send | .tcp _ => True

instance (s : RouteDelivery) : ∀ e, Decidable (s.Room e)
  | .turn _ => inferInstanceAs (Decidable s.controller.router.tier2VSInfo.HasRoom)
  | .call _ | .send | .tcp _ => inferInstanceAs (Decidable True)

def memberAddr (m : Member) : Str := m.address ++ ':' :: itoa m.port.toNat

/-- The objects of the routes with these keys are there exactly for the routes of
the registry, and their pools list exactly its endpoints. -/
structure RouteDelivery.Mirrored (keys : Set (List Str)) (s : RouteDelivery) : Prop where
  routes : ∀ k p, s.registry.byURI.poolAt k = some p → k ∈ keys
  pools : ∀ k ∈ keys, ∀ name, makeObjectName (toPath k) = some name →
    match s.registry.byURI.poolAt k, s.controller.router.poolResources.lookup name with
    | none, none => True
    | some p, some q => q.members.Nodup ∧
        ∀ m, m ∈ q.members ↔ m.session = "user-enabled".toList ∧ memberAddr m ∈ p.addresses
    | _, _ => False
  objects : ∀ k ∈ keys, ∀ name, makeObjectName (toPath k) = some name →
    (s.controller.router.virtualResources.lookup name).isSome = (s.registry.byURI.poolAt k).isSome ∧
      (s.controller.router.rule (toPath k)).isSome = (s.registry.byURI.poolAt k).isSome

def Routable (uri : Uri) : Prop :=
  uri.string.count '*' ≤ 1 ∧
    ∃ u, urlParse (trimSuffix ("scheme://".toList ++ uri.string) "/".toList) = some u ∧
      ('*' ∈ uri.string → '*' ∈ u.host)

instance : DecidablePred Routable := fun uri =>
  inferInstanceAs (Decidable (uri.string.count '*' ≤ 1 ∧
    ∃ u ∈ urlParse (trimSuffix ("scheme://".toList ++ uri.string) "/".toList),
      ('*' ∈ uri.string → '*' ∈ u.host)))

/-- The events under which the pools follow the registry: the calls are
well-spelled, for routable URIs and endpoints with an address, each with an
endpoint of its own for its route; and no TCP update has the name of a route. -/
structure Orderly (lower : Lower) (c : Config) (es : List RouteDeliveryEvent) : Prop where
  spelled : Spelled lower (callsOf es)
  routable : ∀ call ∈ callsOf es, ∀ u ∈ call.uri, Routable (u.routeKey lower)
  addressed : ∀ call ∈ callsOf es, ∀ e ∈ call.endpoint, e.address ≠ []
  own : ((callsOf es).filterMap (Call.place lower)).Nodup
  tcp : ∀ tu, RouteDeliveryEvent.tcp tu ∈ es → (Item.tcp tu).Regular c ∧
    ∀ call ∈ callsOf es, ∀ u ∈ call.uri, makeObjectName (u.routeKey lower) ≠ some tu.name

-- ---------------------------------------------------------------------------
-- The updates of the registry
-- ---------------------------------------------------------------------------

def httpUpdate : Item → Option UpdateHTTP
  | .http u => some u
  | .tcp _ => none

theorem Routable.rule {ru : UpdateHTTP} (h : Routable ru.uri) (hep : ru.endpoint = some ep) :
    ∃ rule, makeRouteRule ru = some (.ok rule) := by
  obtain ⟨-, u, hurl, hhost⟩ := h
  have hsome : (ruleConditions ru.uri.string u).isSome = true := by
    rw [ruleConditions]
    split
    · next hstar => exact (wildcardConditions_isSome_iff u.host).mpr (hhost hstar)
    · rfl
  obtain ⟨conditions, hconditions⟩ := Option.isSome_iff_exists.mp hsome
  rw [makeRouteRule_of_url hurl hep, hconditions]
  exact ⟨_, rfl⟩

/-- What is fixed for a run: the keys of the routes, the TCP updates, and an
event for each route. -/
structure Setting (c : Config) (keys : Set (List Str)) (tcp : UpdateTCP → Prop)
    (routes : List Event) : Prop where
  named : Named keys
  routable : ∀ k ∈ keys, Routable (toPath k)
  regular : ∀ tu, tcp tu → (Item.tcp tu).Regular c
  apart : ∀ tu, tcp tu → ∀ k ∈ keys, makeObjectName (toPath k) ≠ some tu.name
  covered : ∀ k ∈ keys, ∃ e ∈ routes, ∃ ru, e.item = .http ru ∧ ru.uri = toPath k
  routed : ∀ e ∈ routes, ∃ ru, e.item = .http ru ∧ ∃ k ∈ keys, ru.uri = toPath k

def Belongs (keys : Set (List Str)) (tcp : UpdateTCP → Prop) : Item → Prop
  | .http ru => (∃ k ∈ keys, ru.uri = toPath k) ∧ (ru.op = .add ∨ ru.op = .remove) ∧
    ∃ ep, ru.endpoint = some ep ∧ ep.address ≠ []
  | .tcp tu => tcp tu

section
variable {c : Config} {keys : Set (List Str)} {tcp : UpdateTCP → Prop}
  {routes : List Event} {codec : Codec}
  {lower : Lower}

theorem Named.name_eq (h : Named keys) (hk : k ∈ keys) {ru : UpdateHTTP} (hu : ru.uri = toPath k) :
    makeObjectName (toPath k) = some ru.name := by
  obtain ⟨name, hname, hstring⟩ := h.name k hk
  have hnamed := ru.named
  rw [hu, hstring] at hnamed
  rw [hname, hnamed]

theorem Setting.regular_item (h : Setting c keys tcp routes) (hitem : Belongs keys tcp item) :
    item.Regular c := by
  cases item with
  | http ru =>
    obtain ⟨⟨k, hk, hu⟩, hop, ep, hep, ha⟩ := hitem
    have hr := h.routable k hk
    rw [← hu] at hr
    exact ⟨hop, ⟨ep, hep, ha⟩, hr.1, hr.rule hep⟩
  | tcp tu => exact h.regular tu hitem

theorem Setting.apart_cons (h : Setting c keys tcp routes) (hitem : Belongs keys tcp e.item) :
    Apart (e :: routes) := by
  have hroute : ∀ f ∈ e :: routes, ∀ ru, f.item = .http ru → ∃ k ∈ keys, ru.uri = toPath k := by
    intro f hf ru hru
    rcases List.mem_cons.mp hf with rfl | hf
    · rw [hru] at hitem
      exact hitem.1
    · obtain ⟨rv, hrv, hk⟩ := h.routed f hf
      rw [hru] at hrv
      cases hrv
      exact hk
  refine ⟨fun f hf g hg u hu v hv hname => ?_, fun f hf g hg hhttp htcp => ?_⟩
  · cases hfi : f.item with
    | tcp tu =>
      rw [hfi] at hu
      cases hu
    | http ru =>
      cases hgi : g.item with
      | tcp tu =>
        rw [hgi] at hv
        cases hv
      | http rv =>
        rw [hfi] at hu hname
        rw [hgi] at hv hname
        cases hu
        cases hv
        obtain ⟨k, hk, huk⟩ := hroute f hf ru hfi
        obtain ⟨k', hk', hvk⟩ := hroute g hg rv hgi
        have hsame : k = k' := by
          refine h.named.apart k hk k' hk' ?_
          rw [h.named.name_eq hk huk, h.named.name_eq hk' hvk]
          exact congrArg some hname
        rw [huk, hvk, hsame]
  · cases hgi : g.item with
    | http rv =>
      rw [hgi] at htcp
      cases htcp
    | tcp tu =>
      cases hfi : f.item with
      | tcp tu =>
        rw [hfi] at hhttp
        cases hhttp
      | http ru =>
        obtain ⟨k, hk, huk⟩ := hroute f hf ru hfi
        have htu : tcp tu := by
          rcases List.mem_cons.mp hg with rfl | hg
          · rw [hgi] at hitem
            exact hitem
          · obtain ⟨rv, hrv, -⟩ := h.routed g hg
            rw [hgi] at hrv
            cases hrv
        intro heq
        refine h.apart tu htu k hk ?_
        rw [h.named.name_eq hk huk]
        exact congrArg some heq

theorem Setting.handle (h : Setting c keys tcp routes) {r : F5Router}
    (hr : Refined codec c routes r S) (hitem : Belongs keys tcp item)
    (hroom : r.tier2VSInfo.HasRoom) :
    ∃ r', r.handle codec item = some r' ∧ Refined codec c routes r' (S.apply item) := by
  let e : Event := ⟨item, 0, .stored⟩
  have hcons : Refined codec c (e :: routes) r S := by
    refine hr.of_routes fun f hf ru hru => ?_
    rcases List.mem_cons.mp hf with rfl | hf
    · obtain rfl : item = .http ru := hru
      obtain ⟨⟨k, hk, huk⟩, -⟩ := hitem
      obtain ⟨f, hf, rv, hrv, hvk⟩ := h.covered k hk
      exact ⟨f, hf, rv, hrv, hvk.trans huk.symm⟩
    · exact ⟨f, hf, ru, hru, rfl⟩
  obtain ⟨r', hstep, hr'⟩ :=
    hcons.handle (h.apart_cons (e := e) hitem) List.mem_cons_self (h.regular_item hitem) hroom
  exact ⟨r', hstep, hr'.of_routes fun f hf ru hru => ⟨f, List.mem_cons_of_mem _ hf, ru, hru, rfl⟩⟩

-- ---------------------------------------------------------------------------
-- The members that are listed
-- ---------------------------------------------------------------------------

theorem member_eq_iff (ep : Endpoint) (m : Member) :
    m = ⟨ep.address, ep.port, "user-enabled".toList⟩ ↔
      m.session = "user-enabled".toList ∧ memberAddr m = ep.canonicalAddr := by
  constructor
  · rintro rfl
    exact ⟨rfl, rfl⟩
  · rintro ⟨hsession, haddr⟩
    obtain ⟨ha, -, hport⟩ := append_sep_itoa_inj (by rfl) (by rfl) haddr
    obtain ⟨address, port, session⟩ := m
    rw [Member.mk.injEq]
    exact ⟨ha, UInt16.toNat_inj.mp (Int.ofNat_inj.mp hport), hsession⟩

def Lists (tcp : UpdateTCP → Prop) (S : Memberships) (handled : List UpdateHTTP) : Prop :=
  ∀ n, (∀ tu, tcp tu → tu.name ≠ n) → ∀ m, m ∈ S n ↔
    m.session = "user-enabled".toList ∧ memberAddr m ∈ Listing.replay handled n

theorem Lists.http (h : Lists tcp S handled) (hu : Belongs keys tcp (.http u)) :
    Lists tcp (S.apply (.http u)) (handled ++ [u]) := by
  obtain ⟨-, hop, ep, hep, -⟩ := hu
  have hmember : (Item.http u).member = some ⟨ep.address, ep.port, "user-enabled".toList⟩ := by
    simp only [Item.member, hep, Option.map_some]
  intro n hn m
  have hreplay : Listing.replay (handled ++ [u]) = (Listing.replay handled).apply u := by
    rw [Listing.replay, List.foldl_append]
    rfl
  rw [hreplay]
  by_cases hname : n = u.name
  · subst hname
    rcases hop with hop | hop
    · have hadd := Memberships.apply_add (S := S) (.http u) hop hmember
      simp only [Item.name] at hadd
      have hlist : (Listing.replay handled).apply u u.name =
          insert ep.canonicalAddr (Listing.replay handled u.name) := by
        simp only [Listing.apply, hop, hep, Function.update_self]
      rw [hadd, hlist, Finset.mem_insert, Finset.mem_insert, h _ hn, member_eq_iff]
      constructor
      · rintro (⟨hs, ha⟩ | ⟨hs, ha⟩)
        · exact ⟨hs, .inl ha⟩
        · exact ⟨hs, .inr ha⟩
      · rintro ⟨hs, ha | ha⟩
        · exact .inl ⟨hs, ha⟩
        · exact .inr ⟨hs, ha⟩
    · have hremove := Memberships.apply_remove (S := S) (.http u) hop hmember
      simp only [Item.name] at hremove
      have hlist : (Listing.replay handled).apply u u.name =
          (Listing.replay handled u.name).erase ep.canonicalAddr := by
        simp only [Listing.apply, hop, hep, Function.update_self]
      rw [hremove, hlist, Finset.mem_erase, Finset.mem_erase, h _ hn, ne_eq, member_eq_iff]
      constructor
      · rintro ⟨hne, hs, ha⟩
        exact ⟨hs, fun heq => hne ⟨hs, heq⟩, ha⟩
      · rintro ⟨hs, hne, ha⟩
        exact ⟨fun heq => hne heq.2, hs, ha⟩
  · have hother : S.apply (.http u) n = S n := Memberships.apply_other hname
    rw [hother, h n hn]
    rcases hop with hop | hop
    · simp only [Listing.apply, hop, hep, Function.update_of_ne hname]
    · simp only [Listing.apply, hop, hep, Function.update_of_ne hname]

theorem Lists.other (h : Lists tcp S handled) (htu : tcp tu) :
    Lists tcp (S.apply (.tcp tu)) handled := by
  intro n hn m
  have hother : S.apply (.tcp tu) n = S n := Memberships.apply_other (Ne.symm (hn tu htu))
  rw [hother, h n hn]

-- ---------------------------------------------------------------------------
-- The invariant
-- ---------------------------------------------------------------------------

/-- What a run has done: the table that the registry refines, the updates sent,
those handled, and the members that they leave. -/
structure History where
  table : RouteTable
  sent : List Sent
  handled : List UpdateHTTP
  members : Memberships

/-- The updates that were sent and are not handled, in the order in which they
will be. -/
def RouteDelivery.ahead (s : RouteDelivery) : List UpdateHTTP :=
  (s.controller.phase.unhandled ++ s.controller.queue.queue).filterMap httpUpdate ++ s.pending

structure RouteDelivery.Sound (codec : Codec) (c : Config) (keys : Set (List Str))
    (tcp : UpdateTCP → Prop) (routes : List Event) (seen : List (List Str × Endpoint))
    (s : RouteDelivery) (g : History) : Prop where
  refines : s.registry.Refines g.table
  listens : s.registry.listener = true
  tracked : Tracked keys g.table.live g.sent
  single : Single keys seen g.table g.sent
  addressed : ∀ x ∈ seen, x.2.address ≠ []
  queue : s.controller.queue.Sound s.controller.phase.item
  flow : g.handled ++ s.ahead = g.sent.map Sent.update
  current : ∀ u, s.controller.phase.item = some (.http u) → Item.http u ∉ s.controller.queue.dirty ∧
    (s.controller.phase.unhandled = [] → u ∈ g.handled)
  others : ∀ tu, Item.tcp tu ∈ s.controller.queue.queue ++ s.controller.phase.item.toList → tcp tu
  refined : Refined codec c routes s.controller.router g.members
  lists : Lists tcp g.members g.handled

theorem Single.belongs (h : Single keys seen T sent) (ha : ∀ x ∈ seen, x.2.address ≠ [])
    (hu : u ∈ sent.map Sent.update) : Belongs keys tcp (.http u) := by
  obtain ⟨s, hs, rfl⟩ := List.mem_map.mp hu
  obtain ⟨hk, huri, hop⟩ := h.proper s hs
  obtain ⟨e, he, hseen⟩ := h.placed s hs
  exact ⟨⟨s.node, hk, huri⟩, hop, e, he, ha _ hseen⟩

section
variable {seen : List (List Str × Endpoint)} {s : RouteDelivery} {g : History}

theorem RouteDelivery.Sound.call {call : Call} (hset : Setting c keys tcp routes)
    (h : s.Sound codec c keys tcp routes seen g) (hpend : s.pending = [])
    (hcall : s.registry.call lower call = some (r', new))
    (hid : ∀ e ∈ call.endpoint, ¬ IsAddress e.privateInstanceId)
    (haddr : ∀ e ∈ call.endpoint, e.address ≠ [])
    (hkey : ∀ u ∈ call.uri, segments (u.routeKey lower) ∈ keys ∧
      toPath (segments (u.routeKey lower)) = u.routeKey lower)
    (hown : ∀ x ∈ call.place lower, x ∉ seen) :
    ∃ g', RouteDelivery.Sound codec c keys tcp routes ((call.place lower).toList ++ seen)
      { s with registry := r', pending := new.map Sent.update } g' := by
  obtain ⟨r₁, reqs, hr₁, hl₁, href₁, hasks⟩ := h.refines.call lower hid
  rw [hr₁, Option.map_eq_some_iff] at hcall
  obtain ⟨new', hnew', heq⟩ := hcall
  obtain ⟨rfl, rfl⟩ := Prod.mk.inj heq
  obtain ⟨new, hnew, htracked⟩ := h.tracked.call hset.named h.refines h.listens hasks hkey
  rw [hnew'] at hnew
  cases hnew
  refine ⟨⟨g.table.call lower call, g.sent ++ new', g.handled, g.members⟩, href₁,
    hl₁.trans h.listens, htracked,
    h.single.call hset.named h.refines h.listens hasks hnew' hkey hown, fun x hx => ?_, h.queue, ?_,
    h.current, h.others, h.refined, h.lists⟩
  · rcases List.mem_append.mp hx with hx | hx
    · cases call with
      | register uri endpoint now =>
        rw [show x = _ from List.mem_singleton.mp hx]
        exact haddr endpoint rfl
      | unregister uri endpoint =>
        rw [show x = _ from List.mem_singleton.mp hx]
        exact haddr endpoint rfl
      | prune => cases hx
    · exact h.addressed x hx
  · have hflow := h.flow
    simp only [RouteDelivery.ahead, hpend, List.append_nil] at hflow ⊢
    rw [← List.append_assoc, hflow, List.map_append]

theorem RouteDelivery.Sound.send (hset : Setting c keys tcp routes)
    (h : s.Sound codec c keys tcp routes seen g) (hpend : s.pending = u :: rest) :
    RouteDelivery.Sound codec c keys tcp routes seen
      { s with controller := s.controller.updateRoute (.http u), pending := rest } g := by
  have hnd := h.single.updates_nodup hset.named
  have hflow := h.flow
  simp only [RouteDelivery.ahead, hpend] at hflow
  rw [← hflow, ← List.append_assoc] at hnd
  have hfresh : u ∉ g.handled ++
      (s.controller.phase.unhandled ++ s.controller.queue.queue).filterMap httpUpdate := by
    intro hu
    exact (List.nodup_append'.mp hnd).2.2 hu List.mem_cons_self
  have hqueue : Item.http u ∉ s.controller.queue.queue := by
    intro hq
    refine hfresh (List.mem_append_right _
      (List.mem_filterMap.mpr ⟨.http u, List.mem_append_right _ hq, rfl⟩))
  have hcur : s.controller.phase.item ≠ some (.http u) := by
    intro hc
    obtain hnil | ⟨item, hitem, hone⟩ := s.controller.phase.unhandled_cases
    · exact hfresh (List.mem_append_left _ ((h.current u hc).2 hnil))
    · rw [hc] at hitem
      cases hitem
      refine hfresh (List.mem_append_right _ (List.mem_filterMap.mpr ⟨.http u, ?_, rfl⟩))
      rw [hone]
      exact List.mem_cons_self
  have hadd := h.queue.add_new hqueue hcur
  refine ⟨h.refines, h.listens, h.tracked, h.single, h.addressed, h.queue.add _, ?_,
    fun v hv => ⟨?_, (h.current v hv).2⟩, fun tu htu => h.others tu ?_, h.refined, h.lists⟩
  · simp only [RouteDelivery.ahead, Controller.updateRoute, hadd]
    rw [← hflow, ← List.append_assoc s.controller.phase.unhandled, List.filterMap_append,
      List.append_assoc]
    rfl
  · simp only [Controller.updateRoute, hadd, Finset.mem_insert, not_or]
    refine ⟨fun heq => hcur ?_, (h.current v hv).1⟩
    rw [← heq]
    exact hv
  · simp only [Controller.updateRoute, hadd] at htu
    simpa using htu

theorem RouteDelivery.Sound.tcpUpdate (h : s.Sound codec c keys tcp routes seen g) (htu : tcp tu) :
    RouteDelivery.Sound codec c keys tcp routes seen { s with
      controller := s.controller.updateRoute (.tcp tu) } g := by
  refine ⟨h.refines, h.listens, h.tracked, h.single, h.addressed, h.queue.add _, ?_,
    fun u hu => ⟨fun hd => ?_, (h.current u hu).2⟩, fun tv htv => ?_, h.refined, h.lists⟩
  · have hadd :=
      WorkQueue.filterMap_queue_add (f := httpUpdate) s.controller.queue (x := .tcp tu) rfl
    simp only [RouteDelivery.ahead, Controller.updateRoute, List.filterMap_append, hadd]
    rw [← List.filterMap_append]
    exact h.flow
  · rcases WorkQueue.mem_dirty_of_add hd with heq | hd
    · cases heq
    · exact (h.current u hu).1 hd
  · rcases List.mem_append.mp htv with hq | hcur
    · rcases WorkQueue.mem_queue_add hq with heq | hq
      · cases heq
        exact htu
      · exact h.others tv (List.mem_append_left _ hq)
    · exact h.others tv (List.mem_append_right _ hcur)

theorem RouteDelivery.Sound.belongs (h : s.Sound codec c keys tcp routes seen g)
    (hp : s.controller.phase = .got item) :
    Belongs keys tcp item := by
  cases item with
  | http u =>
    refine h.single.belongs h.addressed ?_
    rw [← h.flow, RouteDelivery.ahead, hp]
    simp [Phase.unhandled, httpUpdate]
  | tcp tu =>
    refine h.others tu ?_
    rw [hp]
    simp [Phase.item]

theorem RouteDelivery.Sound.turn (hset : Setting c keys tcp routes)
    (h : s.Sound codec c keys tcp routes seen g)
    (hroom : s.controller.router.tier2VSInfo.HasRoom) (o : Order) :
    s.controller.Waits ∨ ∃ k g', s.controller.turn codec o = some k ∧
      RouteDelivery.Sound codec c keys tcp routes seen { s with controller := k } g' := by
  have hbelongs := fun item (hp : s.controller.phase = .got item) => h.belongs hp
  obtain ⟨⟨r, q, phase, w⟩, registry, pending⟩ := s
  cases phase with
  | waiting =>
    cases hq : q.get with
    | none =>
      refine .inl ⟨rfl, ?_⟩
      rw [WorkQueue.get] at hq
      split at hq
      · assumption
      · cases hq
    | some x =>
      obtain ⟨item, q'⟩ := x
      obtain ⟨hqueue, hdirty, -⟩ := WorkQueue.get_eq_some hq
      have hturn : Controller.turn codec ⟨r, q, .waiting, w⟩ o = some ⟨r, q', .got item, w⟩ := by
        rw [turn_waiting, hq, Option.map_some]
      refine .inr ⟨_, g, hturn, h.refines, h.listens, h.tracked, h.single, h.addressed,
        Controller.turn_sound h.queue hturn, ?_, fun u hu => ⟨?_, fun hnil => ?_⟩,
        fun tu htu => h.others tu ?_, h.refined, h.lists⟩
      · have hflow := h.flow
        simp only [RouteDelivery.ahead, hqueue] at hflow
        exact hflow
      · cases hu
        rw [hdirty]
        exact Finset.notMem_erase _ _
      · cases hnil
      · simp only [hqueue, Phase.item, Option.toList_none, List.append_nil]
        simpa [Phase.item, or_comm] using htu
  | got item =>
    have hitem := hbelongs item rfl
    obtain ⟨r', hr', hrefined⟩ := hset.handle h.refined hitem hroom
    have hturn : Controller.turn codec ⟨r, q, .got item, w⟩ o = some ⟨r', q, .handled item, w⟩ := by
      rw [turn_got, hr', Option.map_some]
    refine .inr ⟨_, ⟨g.table, g.sent, g.handled ++ (httpUpdate item).toList, g.members.apply item⟩,
      hturn, h.refines, h.listens, h.tracked, h.single, h.addressed, h.queue, ?_,
      fun u hu => ⟨(h.current u hu).1, fun _ => ?_⟩, h.others, hrefined, ?_⟩
    · rw [← h.flow]
      simp only [RouteDelivery.ahead, Phase.unhandled, List.nil_append, List.cons_append,
        List.filterMap_cons]
      cases httpUpdate item <;> simp
    · cases hu
      simp [httpUpdate]
    · cases item with
      | http u => exact h.lists.http hitem
      | tcp tu =>
        rw [show (httpUpdate (.tcp tu)).toList = [] from rfl, List.append_nil]
        exact h.lists.other hitem
  | handled item =>
    refine .inr ⟨_, g, turn_handled, h.refines, h.listens, h.tracked, h.single, h.addressed, ?_, ?_,
      ?_, ?_, h.refined, h.lists⟩
    all_goals
      dsimp only [RouteDelivery.ahead]
      split
    · exact h.queue
    · exact h.queue
    · exact h.flow
    · exact h.flow
    · exact h.current
    · exact h.current
    · exact h.others
    · exact h.others
  | draining item =>
    obtain ⟨r₁, hsync, hrefined⟩ := h.refined.firstSync o
    obtain ⟨sections, hsections⟩ := Option.isSome_iff_exists.mp (hrefined.solid.sections_isSome o)
    have hturn : Controller.turn codec ⟨r, q, .draining item, w⟩ o =
        some ⟨r₁, q, .rendered item sections, w⟩ := by
      rw [turn_draining, hsync, Option.bind_some, hsections, Option.bind_some]
    exact .inr ⟨_, g, hturn, h.refines, h.listens, h.tracked, h.single, h.addressed, h.queue,
      h.flow, h.current, h.others, hrefined, h.lists⟩
  | rendered item sections =>
    exact .inr ⟨_, g, turn_rendered, h.refines, h.listens, h.tracked, h.single, h.addressed,
      h.queue, h.flow, h.current, h.others, h.refined, h.lists⟩
  | finished item =>
    refine .inr ⟨_, g, turn_finished, h.refines, h.listens, h.tracked, h.single, h.addressed,
      WorkQueue.Sound.done h.queue, ?_, (fun u hu => by cases hu), fun tu htu => h.others tu ?_,
      h.refined, h.lists⟩
    · have hdone : (q.done item).queue.filterMap httpUpdate = q.queue.filterMap httpUpdate := by
        refine WorkQueue.filterMap_queue_done fun hhttp => ?_
        cases item with
        | http u => exact (h.current u rfl).1
        | tcp tu => exact absurd rfl hhttp
      have hflow := h.flow
      simp only [RouteDelivery.ahead, Phase.unhandled, List.nil_append] at hflow ⊢
      rw [hdone]
      exact hflow
    · simp only [Phase.item, Option.toList_none, List.append_nil] at htu
      rcases WorkQueue.mem_queue_done htu with heq | hq
      · simp [Phase.item, heq]
      · simp [hq]

-- ---------------------------------------------------------------------------
-- Runs
-- ---------------------------------------------------------------------------

structure Fits (lower : Lower) (keys : Set (List Str)) (tcp : UpdateTCP → Prop)
    (seen : List (List Str × Endpoint)) (es : List RouteDeliveryEvent) : Prop where
  ids : ∀ call ∈ callsOf es, ∀ e ∈ call.endpoint, ¬ IsAddress e.privateInstanceId
  addressed : ∀ call ∈ callsOf es, ∀ e ∈ call.endpoint, e.address ≠ []
  keyed : ∀ call ∈ callsOf es, ∀ u ∈ call.uri, segments (u.routeKey lower) ∈ keys ∧
    toPath (segments (u.routeKey lower)) = u.routeKey lower
  own : ((callsOf es).filterMap (Call.place lower) ++ seen).Nodup
  others : ∀ tu, RouteDeliveryEvent.tcp tu ∈ es → tcp tu

theorem Fits.tail (h : Fits lower keys tcp seen (e :: es)) (he : e.call? = none) :
    Fits lower keys tcp seen es := by
  have hcalls : callsOf (e :: es) = callsOf es := List.filterMap_cons_none he
  obtain ⟨hids, haddr, hkey, hown, htcp⟩ := h
  rw [hcalls] at hids haddr hkey hown
  exact ⟨hids, haddr, hkey, hown, fun tu htu => htcp tu (List.mem_cons_of_mem _ htu)⟩

theorem Fits.after {call : Call} (h : Fits lower keys tcp seen (.call call :: es)) :
    Fits lower keys tcp ((call.place lower).toList ++ seen) es := by
  refine ⟨fun c hc => h.ids c (List.mem_cons_of_mem _ hc),
    fun c hc => h.addressed c (List.mem_cons_of_mem _ hc),
    fun c hc => h.keyed c (List.mem_cons_of_mem _ hc), ?_,
    fun tu htu => h.others tu (List.mem_cons_of_mem _ htu)⟩
  have hown : ((call :: callsOf es).filterMap (Call.place lower) ++ seen).Nodup := h.own
  cases hplace : call.place lower with
  | none =>
    rw [List.filterMap_cons_none hplace] at hown
    exact hown
  | some x =>
    rw [List.filterMap_cons_some hplace, List.cons_append] at hown
    exact List.perm_middle.nodup_iff.mpr hown

theorem Fits.fresh {call : Call} (h : Fits lower keys tcp seen (.call call :: es)) :
    ∀ x ∈ call.place lower, x ∉ seen := by
  intro x hx hmem
  have hown : ((call :: callsOf es).filterMap (Call.place lower) ++ seen).Nodup := h.own
  rw [List.filterMap_cons_some hx, List.cons_append, List.nodup_cons] at hown
  exact hown.1 (List.mem_append_right _ hmem)

/-- A run that fits the setting keeps the invariant, and what else the steps
keep with it. -/
theorem RouteDelivery.Sound.run {I : RouteDelivery → Prop} (hset : Setting c keys tcp routes)
    (hkeep : ∀ s t e seen g, s.Sound codec c keys tcp routes seen g → I s →
      s.step codec lower e = some t → I t)
    (h : s.Sound codec c keys tcp routes seen g) (hI : I s)
    (hfits : Fits lower keys tcp seen es)
    (hroom : Along (RouteDelivery.step codec lower) RouteDelivery.Room s es)
    (hrun : Lib.run (RouteDelivery.step codec lower) s es = some t) :
    ∃ seen g, t.Sound codec c keys tcp routes seen g ∧ I t := by
  induction es generalizing s seen g with
  | nil =>
    cases hrun
    exact ⟨seen, g, h, hI⟩
  | cons e es ih =>
    obtain ⟨u, hstep, hrun⟩ := run_cons_eq_some.mp hrun
    obtain ⟨hC, hroom⟩ := hroom u hstep
    have hIu : I u := hkeep s u e seen g h hI hstep
    cases e with
    | call call =>
      simp only [RouteDelivery.step, Option.ite_none_right_eq_some, Option.map_eq_some_iff,
        Prod.exists] at hstep
      obtain ⟨hpend, r', new, hcall, rfl⟩ := hstep
      have hmem : call ∈ callsOf (.call call :: es) := List.mem_cons_self
      obtain ⟨g', h'⟩ := h.call hset hpend hcall (hfits.ids call hmem) (hfits.addressed call hmem)
        (hfits.keyed call hmem) hfits.fresh
      exact ih h' hIu hfits.after hroom hrun
    | send =>
      rw [RouteDelivery.step] at hstep
      split at hstep
      · cases hstep
      · next v rest hpend =>
        cases hstep
        exact ih (h.send hset hpend) hIu (hfits.tail rfl) hroom hrun
    | tcp tu =>
      cases hstep
      exact ih (h.tcpUpdate (hfits.others tu List.mem_cons_self)) hIu (hfits.tail rfl) hroom hrun
    | turn o =>
      obtain ⟨k, hk, rfl⟩ := Option.map_eq_some_iff.mp hstep
      rcases h.turn hset hC o with hwaits | ⟨k', g', hk', h'⟩
      · rw [hwaits.turn_eq_none] at hk
        cases hk
      · rw [hk] at hk'
        cases hk'
        exact ih h' hIu (hfits.tail rfl) hroom hrun

theorem RouteDelivery.Sound.mirrored (hset : Setting c keys tcp routes)
    (h : s.Sound codec c keys tcp routes seen g) (hidle : s.controller.queue.Idle)
    (hpend : s.pending = []) : s.Mirrored keys := by
  have hcur := h.queue.cur_eq_none hidle
  have hphase : s.controller.phase.unhandled = [] := by
    obtain hnil | ⟨item, hitem, -⟩ := s.controller.phase.unhandled_cases
    · exact hnil
    · rw [hcur] at hitem
      cases hitem
  have hall : g.handled = g.sent.map Sent.update := by
    have hflow := h.flow
    simpa [RouteDelivery.ahead, hphase, hidle.1, hpend] using hflow
  have hmembers : ∀ k ∈ keys, ∀ name, makeObjectName (toPath k) = some name →
      ∀ m, m ∈ g.members name ↔
      m.session = "user-enabled".toList ∧ g.table.entries k (memberAddr m) ≠ none := by
    intro k hk name hname m
    have hlists := h.lists name (fun tu htu heq => hset.apart tu htu k hk (heq ▸ hname)) m
    rw [hlists, hall, h.tracked.replay]
    refine and_congr_right fun _ => ⟨?_, fun hlive => ⟨k, hlive, hname⟩⟩
    rintro ⟨k', hlive, hname'⟩
    rw [hset.named.apart k hk k' (h.tracked.keyed _ hlive) (hname.trans hname'.symm)]
    exact hlive
  have hpools : ∀ k ∈ keys, ∀ name, makeObjectName (toPath k) = some name →
      (s.controller.router.poolResources.lookup name).isSome =
        (s.registry.byURI.poolAt k).isSome := by
    intro k hk name hname
    rw [Bool.eq_iff_iff, (h.refined.pool name).isSome_iff, Option.isSome_iff_ne_none, ne_eq,
      h.refines.poolAt_eq_none, not_forall]
    constructor
    · rintro ⟨m, hm⟩
      exact ⟨_, ((hmembers k hk name hname m).mp hm).2⟩
    · rintro ⟨a, ha⟩
      obtain ⟨e, he⟩ := Option.ne_none_iff_exists'.mp ha
      refine ⟨⟨e.endpoint.address, e.endpoint.port, "user-enabled".toList⟩,
        (hmembers k hk name hname _).mpr ⟨rfl, ?_⟩⟩
      have haddr : memberAddr ⟨e.endpoint.address, e.endpoint.port, "user-enabled".toList⟩ = a :=
        h.refines.canonicalAddr he
      rw [haddr]
      exact ha
  refine ⟨fun k p hp => ?_, fun k hk name hname => ?_, fun k hk name hname => ?_⟩
  · have hsome : s.registry.byURI.poolAt k ≠ none := by simp [hp]
    obtain ⟨a, ha⟩ := not_forall.mp (mt h.refines.poolAt_eq_none.mpr hsome)
    exact h.tracked.keyed (k, a) ha
  · have hsame := hpools k hk name hname
    have hholds := h.refined.pool name
    cases hp : s.registry.byURI.poolAt k with
    | none =>
      rw [hp, Option.isSome_none, Option.isSome_eq_false_iff, Option.isNone_iff_eq_none] at hsame
      rw [hsame]
      trivial
    | some p =>
      rw [hp] at hsame
      obtain ⟨q, hq⟩ := Option.isSome_iff_exists.mp hsame
      rw [hq] at hholds ⊢
      refine ⟨hholds.2.1, fun m => ?_⟩
      rw [← List.mem_toFinset, hholds.2.2.1, hmembers k hk name hname, h.refines.mem_addresses hp]
  · obtain ⟨e, he, ru, hru, huri⟩ := hset.covered k hk
    have hru' : ru.name = name := by
      have hn := hset.named.name_eq hk huri
      rw [hname] at hn
      exact (Option.some.inj hn).symm
    have htier : ¬ tier1 name := by
      rw [← hru']
      exact not_tier1 ru.name_starts
    have hrule := h.refined.rule e he ru hru
    rw [huri, hru', hpools k hk name hname] at hrule
    exact ⟨(h.refined.virtual name htier).trans (hpools k hk name hname), hrule⟩

theorem exists_routes (ks : List (List Str))
    (h : ∀ k ∈ ks, ∃ name, makeObjectName (Uri.string (toPath k)) = some name) :
    ∃ routes : List Event, (∀ k ∈ ks, ∃ e ∈ routes, ∃ ru, e.item = .http ru ∧ ru.uri = toPath k) ∧
      ∀ e ∈ routes, ∃ ru, e.item = .http ru ∧ ∃ k ∈ ks, ru.uri = toPath k := by
  induction ks with
  | nil => exact ⟨[], by simp, by simp⟩
  | cons k ks ih =>
    obtain ⟨routes, hcovered, hrouted⟩ := ih fun k hk => h k (List.mem_cons_of_mem _ hk)
    obtain ⟨name, hname⟩ := h k List.mem_cons_self
    obtain ⟨ru, -, -, huri, -⟩ := newUpdate_spec .add none [] hname
    refine ⟨⟨.http ru, 0, .stored⟩ :: routes, fun k' hk' => ?_, fun e he => ?_⟩
    · rcases List.mem_cons.mp hk' with rfl | hk'
      · exact ⟨_, List.mem_cons_self, ru, rfl, huri⟩
      · obtain ⟨e, he, hru⟩ := hcovered k' hk'
        exact ⟨e, List.mem_cons_of_mem _ he, hru⟩
    · rcases List.mem_cons.mp he with rfl | he
      · exact ⟨ru, rfl, k, List.mem_cons_self, huri⟩
      · obtain ⟨rv, hrv, k', hk', huri'⟩ := hrouted e he
        exact ⟨rv, hrv, k', List.mem_cons_of_mem _ hk', huri'⟩

theorem Orderly.setting (h : Orderly lower c es) :
    ∃ routes, Setting c (keysOf lower (callsOf es))
      (fun tu => RouteDeliveryEvent.tcp tu ∈ es) routes := by
  have hnamed := h.spelled.named_keys
  let ks := (callsOf es).filterMap fun call => call.uri.map fun u => segments (u.routeKey lower)
  have hks : ∀ k, k ∈ ks ↔ k ∈ keysOf lower (callsOf es) := by
    intro k
    simp only [ks, List.mem_filterMap, Option.map_eq_some_iff, keysOf,
      Set.mem_ofPred_eq, Option.mem_def]
    exact exists_congr fun call => and_congr_right fun _ => exists_congr fun u =>
      and_congr_right fun _ => eq_comm
  obtain ⟨routes, hcovered, hrouted⟩ := exists_routes ks fun k hk => by
    obtain ⟨name, -, hname⟩ := hnamed.name k ((hks k).mp hk)
    exact ⟨name, hname⟩
  refine ⟨routes, hnamed, ?_, fun tu htu => (h.tcp tu htu).1, ?_,
    fun k hk => hcovered k ((hks k).mpr hk), fun e he => ?_⟩
  · rintro k ⟨call, hcall, u, hu, rfl⟩
    rw [h.spelled.path hcall hu]
    exact h.routable call hcall u hu
  · rintro tu htu k ⟨call, hcall, u, hu, rfl⟩
    rw [h.spelled.path hcall hu]
    exact (h.tcp tu htu).2 call hcall u hu
  · obtain ⟨ru, hru, k, hk, huri⟩ := hrouted e he
    exact ⟨ru, hru, k, (hks k).mp hk, huri⟩

theorem Orderly.fits (h : Orderly lower c es) :
    Fits lower (keysOf lower (callsOf es)) (fun tu => RouteDeliveryEvent.tcp tu ∈ es) [] es where
  ids := h.spelled.ids
  addressed := h.addressed
  keyed := fun call hcall u hu => ⟨⟨call, hcall, u, hu, rfl⟩, h.spelled.path hcall hu⟩
  own := by
    rw [List.append_nil]
    exact h.own
  others := fun _ htu => htu

theorem RouteDelivery.Sound.start {r : F5Router} (hboot : boot codec config plans dg = some r)
    (threshold : Int64) :
    (RouteDelivery.start r threshold).Sound codec r.c keys tcp routes [] ⟨.empty threshold, [], [],
      fun _ => ∅⟩ where
  refines := newRouteRegistry_refines threshold true
  listens := rfl
  tracked := by
    have hlive : (RouteTable.empty threshold).live = ∅ := by
      simp [RouteTable.live, RouteTable.empty]
    rw [hlive]
    exact tracked_nil keys
  single := single_nil keys threshold
  addressed := by simp
  queue := WorkQueue.sound_empty
  flow := rfl
  current := by simp [RouteDelivery.start, Controller.start, Phase.item]
  others := by simp [RouteDelivery.start, Controller.start, Phase.item, WorkQueue.empty]
  refined := .boot hboot
  lists := by simp [Lists, Listing.replay]

/-- An orderly run from the boot keeps the invariant, for some setting, and what
else the steps keep with it. -/
theorem Orderly.sound_and {r : F5Router} {I : RouteDelivery → Prop}
    (hboot : boot codec config plans dg = some r) (horderly : Orderly lower r.c es)
    (hroom : Along (RouteDelivery.step codec lower) RouteDelivery.Room (.start r threshold) es)
    (hrun : Lib.run (RouteDelivery.step codec lower) (.start r threshold) es = some s)
    (hI : I (.start r threshold))
    (hkeep : ∀ tcp routes, Setting r.c (keysOf lower (callsOf es)) tcp routes → ∀ s t e seen g,
      s.Sound codec r.c (keysOf lower (callsOf es)) tcp routes seen g → I s →
      s.step codec lower e = some t → I t) :
    ∃ tcp routes seen g, Setting r.c (keysOf lower (callsOf es)) tcp routes ∧
      s.Sound codec r.c (keysOf lower (callsOf es)) tcp routes seen g ∧ I s := by
  obtain ⟨routes, hset⟩ := horderly.setting
  obtain ⟨seen, g, h, hs⟩ :=
    RouteDelivery.Sound.run hset (hkeep _ routes hset)
      (.start hboot threshold) hI horderly.fits hroom hrun
  exact ⟨_, routes, seen, g, hset, h, hs⟩

theorem Orderly.sound {r : F5Router} (hboot : boot codec config plans dg = some r)
    (horderly : Orderly lower r.c es)
    (hroom : Along (RouteDelivery.step codec lower) RouteDelivery.Room (.start r threshold) es)
    (hrun : Lib.run (RouteDelivery.step codec lower) (.start r threshold) es = some s) :
    ∃ tcp routes seen g, Setting r.c (keysOf lower (callsOf es)) tcp routes ∧
      s.Sound codec r.c (keysOf lower (callsOf es)) tcp routes seen g := by
  obtain ⟨tcp, routes, seen, g, hset, h, -⟩ :=
    horderly.sound_and (I := fun _ => True) hboot hroom hrun trivial
      fun _ _ _ _ _ _ _ _ _ _ _ => trivial
  exact ⟨tcp, routes, seen, g, hset, h⟩

theorem RouteDelivery.refines_calls (h : s.registry.Refines T)
    (hids : ∀ call ∈ callsOf es, ∀ e ∈ call.endpoint, ¬ IsAddress e.privateInstanceId)
    (hrun : Lib.run (RouteDelivery.step codec lower) s es = some t) :
    t.registry.Refines ((callsOf es).foldl (RouteTable.call lower) T) := by
  induction es generalizing s T with
  | nil =>
    cases hrun
    exact h
  | cons e es ih =>
    obtain ⟨u, hstep, hrun⟩ := run_cons_eq_some.mp hrun
    cases e with
    | call call =>
      simp only [RouteDelivery.step, Option.ite_none_right_eq_some, Option.map_eq_some_iff,
        Prod.exists] at hstep
      obtain ⟨-, r', new, hcall, rfl⟩ := hstep
      obtain ⟨r₁, reqs, hr₁, -, href, -⟩ := h.call lower (hids call List.mem_cons_self)
      rw [hr₁, Option.map_eq_some_iff] at hcall
      obtain ⟨new', -, heq⟩ := hcall
      obtain ⟨rfl, rfl⟩ := Prod.mk.inj heq
      exact ih href (fun c hc => hids c (List.mem_cons_of_mem _ hc)) hrun
    | send =>
      rw [RouteDelivery.step] at hstep
      split at hstep
      · cases hstep
      · cases hstep
        refine ih ?_ hids hrun
        exact h
    | tcp tu =>
      cases hstep
      refine ih ?_ hids hrun
      exact h
    | turn o =>
      obtain ⟨k, -, rfl⟩ := Option.map_eq_some_iff.mp hstep
      refine ih ?_ hids hrun
      exact h

/-- Whenever nothing is on its way the pools are those of the registry. -/
theorem pools_mirror_registry {r : F5Router} (hboot : boot codec config plans dg = some r)
    (horderly : Orderly lower r.c es)
    (hroom : Along (RouteDelivery.step codec lower) RouteDelivery.Room (.start r threshold) es)
    (hrun : Lib.run (RouteDelivery.step codec lower) (.start r threshold) es = some s)
    (hidle : s.controller.queue.Idle) (hpend : s.pending = []) :
    s.Mirrored (keysOf lower (callsOf es)) := by
  obtain ⟨tcp, routes, seen, g, hset, h⟩ := horderly.sound hboot hroom hrun
  exact h.mirrored hset hidle hpend

def RouteDelivery.turn (codec : Codec) (lower : Lower) (s : RouteDelivery) (o : Order) :
    Option RouteDelivery :=
  s.step codec lower (.turn o)

/-- From every state that an orderly run reaches the worker catches up with the
registry: while nothing is submitted it does not panic, and within the turns
that the backlog takes it waits with the pools of the registry. -/
theorem pools_catch_up {r : F5Router} (hboot : boot codec config plans dg = some r)
    (horderly : Orderly lower r.c es)
    (hroom : Along (RouteDelivery.step codec lower) RouteDelivery.Room (.start r threshold) es)
    (hrun : Lib.run (RouteDelivery.step codec lower) (.start r threshold) es = some s)
    (hpend : s.pending = [])
    (hturns : Throughout (RouteDelivery.turn codec lower) (fun s o => s.Room (.turn o)) s os)
    (hlen : s.controller.work ≤ os.length) :
    ∃ fs t, fs <+: os ∧ Lib.run (RouteDelivery.turn codec lower) s fs = some t ∧
      t.registry = s.registry ∧
      t.controller.Waits ∧ t.Mirrored (keysOf lower (callsOf es)) := by
  obtain ⟨tcp, routes, seen, g, hset, h⟩ := horderly.sound hboot hroom hrun
  let I := fun t : RouteDelivery => t.registry = s.registry ∧ t.pending = [] ∧
    ∃ g, t.Sound codec r.c (keysOf lower (callsOf es)) tcp routes seen g
  have hstep : ∀ (t u : RouteDelivery) (o : Order), t.turn codec lower o = some u →
      t.controller.turn codec o = some u.controller := by
    intro t u o hu
    obtain ⟨k, hk, rfl⟩ := Option.map_eq_some_iff.mp hu
    exact hk
  have hturn : ∀ t o, I t → t.Room (.turn o) →
      t.controller.Waits ∨ ∃ u, t.turn codec lower o = some u ∧ I u := by
    rintro t o ⟨hreg, hnone, g, ht⟩ hhas
    refine (ht.turn hset hhas o).imp_right ?_
    rintro ⟨k, g', hk, hk'⟩
    refine ⟨{ t with controller := k }, ?_, hreg, hnone, g', hk'⟩
    rw [RouteDelivery.turn, RouteDelivery.step, hk, Option.map_some]
  obtain ⟨fs, t, hfs, hrun', ⟨hreg, hnone, g', ht⟩, hwaits⟩ :=
    reaches_waiting RouteDelivery.controller hstep hturn ⟨rfl, hpend, g, h⟩ hturns hlen
  exact ⟨fs, t, hfs, hrun', hreg, hwaits, ht.mirrored hset (hwaits.idle ht.queue) hnone⟩

end

end

namespace Sample

theorem orderly_of_calls {es : List RouteDeliveryEvent} {cs : List Call} (c : Config)
    (hcalls : callsOf es = cs) (htcp : ∀ tu, RouteDeliveryEvent.tcp tu ∉ es)
    (hends : ∀ call ∈ cs, ∀ e ∈ call.endpoint, e.address ≠ [] ∧ ':' ∉ e.privateInstanceId)
    (hkeys : ∀ call ∈ cs, ∀ u ∈ call.uri,
      (¬ "/".toList <+: u.routeKey .asciiOnly ∧ ¬ "/".toList <:+ u.routeKey .asciiOnly) ∧
      (makeObjectName (u.routeKey .asciiOnly)).isSome = true ∧ Routable (u.routeKey .asciiOnly))
    (hapart : ∀ call ∈ cs, ∀ u ∈ call.uri, ∀ call' ∈ cs, ∀ u' ∈ call'.uri,
      makeObjectName (u.routeKey .asciiOnly) = makeObjectName (u'.routeKey .asciiOnly) →
        u.routeKey .asciiOnly = u'.routeKey .asciiOnly)
    (hown : (cs.filterMap (Call.place .asciiOnly)).Nodup) : Orderly .asciiOnly c es := by
  subst hcalls
  refine ⟨⟨?_, ?_, ?_, hapart⟩, ?_, ?_, hown, fun tu htu => (htcp tu htu).elim⟩
  · exact fun call hc e he haddress => (hends call hc e he).2 haddress.colon_mem
  · exact fun call hc u hu => (hkeys call hc u hu).1
  · exact fun call hc u hu => (hkeys call hc u hu).2.1
  · exact fun call hc u hu => (hkeys call hc u hu).2.2
  · exact fun call hc e he => (hends call hc e he).1

/-- Two endpoints of a route come, and the first one goes before the worker has
got to the second. -/
def replacement (n : Nat) : List RouteDeliveryEvent :=
  [.call (.register "*.a".toList (backend 1) 0), .send,
    .call (.register "*.a".toList (backend 2) 0), .send] ++
  List.replicate 4 (.turn .stored) ++
  [.call (.unregister "*.a".toList { backend 1 with ptr := 3 }), .send] ++
  List.replicate n (.turn .stored)

theorem orderly_replacement (c : Config) (n : Nat) : Orderly .asciiOnly c (replacement n) := by
  have hcalls : callsOf (replacement n) = [.register "*.a".toList (backend 1) 0,
      .register "*.a".toList (backend 2) 0,
      .unregister "*.a".toList { backend 1 with ptr := 3 }] := by
    simp [callsOf, replacement, RouteDeliveryEvent.call?, List.filterMap_cons]
  exact orderly_of_calls c hcalls (by simp [replacement]) (by decide) (by decide) (by decide)
    (by decide)

end Sample

theorem pools_mirror_registry_sample :
    ∃ r ∈ boot jsonCodec BigipCtlr.Sample.config ∅ none,
      ∃ s ∈ run (RouteDelivery.step jsonCodec Lower.asciiOnly) (.start r 10)
          (Sample.replacement 10),
        (∃ p ∈ s.registry.byURI.poolAt ["*.a".toList], p.addresses = ["10.0.0.1:2".toList]) ∧
        s.Mirrored (keysOf Lower.asciiOnly (callsOf (Sample.replacement 10))) := by
  have hrun : ∃ r ∈ boot jsonCodec BigipCtlr.Sample.config ∅ none,
      Along (RouteDelivery.step jsonCodec Lower.asciiOnly) RouteDelivery.Room (.start r 10)
          (Sample.replacement 10) ∧
      ∃ s ∈ run (RouteDelivery.step jsonCodec Lower.asciiOnly) (.start r 10)
          (Sample.replacement 10),
        (∃ p ∈ s.registry.byURI.poolAt ["*.a".toList], p.addresses = ["10.0.0.1:2".toList]) ∧
        s.controller.queue.Idle ∧ s.pending = [] := by
    decide +kernel
  obtain ⟨r, hboot, hroom, s, hrun, hone, hidle, hpend⟩ := hrun
  exact ⟨r, hboot, s, hrun, hone,
    pools_mirror_registry hboot (Sample.orderly_replacement r.c 10) hroom hrun hidle hpend⟩

theorem pools_catch_up_sample :
    ∃ r ∈ boot jsonCodec BigipCtlr.Sample.config ∅ none,
      ∃ s ∈ run (RouteDelivery.step jsonCodec Lower.asciiOnly) (.start r 10) (Sample.replacement 0),
        ¬ s.controller.Waits ∧
        ∃ fs t, fs <+: List.replicate 12 Order.stored ∧
          run (RouteDelivery.turn jsonCodec Lower.asciiOnly) s fs = some t ∧
          t.registry = s.registry ∧ t.controller.Waits ∧
          t.Mirrored (keysOf Lower.asciiOnly (callsOf (Sample.replacement 0))) := by
  have hrun : ∃ r ∈ boot jsonCodec BigipCtlr.Sample.config ∅ none,
      Along (RouteDelivery.step jsonCodec Lower.asciiOnly) RouteDelivery.Room (.start r 10)
          (Sample.replacement 0) ∧
      ∃ s ∈ run (RouteDelivery.step jsonCodec Lower.asciiOnly) (.start r 10) (Sample.replacement 0),
        s.pending = [] ∧ s.controller.queue.queue ≠ [] ∧
        Throughout (RouteDelivery.turn jsonCodec Lower.asciiOnly) (fun s o => s.Room (.turn o)) s
          (List.replicate 12 .stored) ∧ s.controller.work ≤ 12 := by
    decide +kernel
  obtain ⟨r, hboot, hroom, s, hrun, hpend, hqueue, hturns, hwork⟩ := hrun
  exact ⟨r, hboot, s, hrun, fun h => hqueue h.2,
    pools_catch_up hboot (Sample.orderly_replacement r.c 0) hroom hrun hpend hturns hwork⟩

end Registry

end BigipCtlr
