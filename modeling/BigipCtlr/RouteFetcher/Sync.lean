import BigipCtlr.F5Router.Start
import BigipCtlr.Registry.Creation
import BigipCtlr.Registry.Table
import BigipCtlr.RouteFetcher.Fetcher

/-!
# Bulk syncs

The registry and the routing table are stores with tags, and a bulk fetch is a
sync of one. It deletes with the list of the last fetch, so an endpoint that an
event has added since, or given a newer tag, stays when the API no longer has
it.
-/

namespace BigipCtlr

open Go Lib Registry

/-- A stored tag goes with the same tag or one that succeeds it. -/
def ModificationTag.deletedBy (m other : ModificationTag) : Bool := m = other || m.succeededBy other

def FetcherCall.routes : FetcherCall α → List α
  | .fetchRoutes first second => (fetchWithTokenRefresh first second).toOption.getD []
  | .handleEvent event => (event.map ApiEvent.route).toList

-- ---------------------------------------------------------------------------
-- The registry
-- ---------------------------------------------------------------------------

def Registry.RouteRegistry.registered (lower : Lower) (r : RouteRegistry) (uri : Uri) (ip : Str)
    (port : UInt16) :
    Option Endpoint :=
  (r.lookupWithoutWildcard lower uri).bind fun pool => pool.findById (ip ++ ':' :: itoa port.toNat)

def Models.Route.At (lower : Lower) (uri : Uri) (ip : Str) (port : UInt16)
    (v : Models.Route) : Prop :=
  segments (Uri.routeKey lower v.route) = segments (uri.routeKey lower) ∧ v.ip = ip ∧ v.port = port

/-- The log guid is no address, and an update for the route can be created. -/
structure Models.Route.Regular (lower : Lower) (listener : Bool) (v : Models.Route) : Prop where
  guid : ¬ IsAddress v.logGuid
  keyed : listener = true → Uri.routeKey lower v.route = [] ∨ Nameable (Uri.routeKey lower v.route)

def HTTPFetcher.Converged (lower : Lower) (f : HTTPFetcher)
    (validRoutes : List Models.Route) : Prop :=
  ∀ uri ip port, (f.routeRegistry.1.registered lower uri ip port).isSome = true ↔
    ∃ v ∈ validRoutes, v.At lower uri ip port

/-- An endpoint that a list does not have was in the last one, with a tag no
older than that it is registered with. -/
def HTTPFetcher.Covers (lower : Lower) (f : HTTPFetcher) (validRoutes : List Models.Route) : Prop :=
  ∀ uri ip port e, f.routeRegistry.1.registered lower uri ip port = some e →
    (∃ v ∈ validRoutes, v.At lower uri ip port) ∨
      ∃ v ∈ f.endpoints, v.At lower uri ip port ∧
        e.modificationTag.deletedBy v.modificationTag = true

def httpTagging (lower : Lower) : Tagging Models.Route (List Str × Str) ModificationTag where
  place v := (segments (Uri.routeKey lower v.route), v.ip ++ ':' :: itoa v.port.toNat)
  tag := Models.Route.modificationTag
  replaces := ModificationTag.succeededBy
  drops := ModificationTag.deletedBy

theorem place_eq_iff {v : Models.Route} :
    (httpTagging lower).place v =
      (segments (Uri.routeKey lower uri), ip ++ ':' :: itoa (UInt16.toNat port)) ↔
      v.At lower uri ip port := by
  rw [httpTagging, Prod.mk.injEq]
  refine and_congr_right' ⟨fun h => ?_, ?_⟩
  · obtain ⟨hip, -, hport⟩ := append_sep_itoa_inj (by rfl) (by rfl) h
    exact ⟨hip, UInt16.toNat_inj.mp (Int.ofNat_inj.mp hport)⟩
  · rintro ⟨rfl, rfl⟩
    rfl

def Registry.RouteTable.tags (T : RouteTable) (k : List Str × Str) : Option ModificationTag :=
  (T.entries k.1 k.2).map (·.endpoint.modificationTag)

theorem place_newEndpoint (lower : Lower) (v : Models.Route) (ptr : Nat) :
    (httpTagging lower).place v =
      (segments (Uri.routeKey lower v.route), (v.newEndpoint ptr).canonicalAddr) := rfl

theorem put_modificationTag (now : Int) (endpoint : Endpoint) (old : Option Route.Entry) :
    (RouteTable.put now endpoint old).endpoint.modificationTag =
      (old.map (·.endpoint.modificationTag)).elim endpoint.modificationTag fun t =>
        if t.succeededBy endpoint.modificationTag then endpoint.modificationTag else t := by
  cases old with
  | none => rfl
  | some old =>
    simp only [RouteTable.put, Option.map_some, Option.elim_some]
    split
    · split <;> rfl
    · next hsame =>
      rw [not_not.mp hsame]
      simp

theorem tags_register (T : RouteTable) (v : Models.Route) (ptr : Nat) (now : Int) :
    (T.register (segments (Uri.routeKey lower v.route)) (v.newEndpoint ptr) now).tags =
      (httpTagging lower).put T.tags v := by
  funext ⟨k, a⟩
  simp only [RouteTable.tags, RouteTable.register, Tagging.put,
    place_newEndpoint lower v ptr, Prod.mk.injEq]
  split
  · rw [Option.map_some, put_modificationTag]
    rfl
  · rfl

theorem tags_unregister (T : RouteTable) (v : Models.Route) (ptr : Nat) :
    (T.unregister (segments (Uri.routeKey lower v.route)) (v.newEndpoint ptr)).tags =
      (httpTagging lower).drop T.tags v := by
  funext ⟨k, a⟩
  have hremoves : RouteTable.removes (v.newEndpoint ptr) (T.entries k a) =
      (T.tags (k, a)).any ((httpTagging lower).drops · ((httpTagging lower).tag v)) := by
    rw [RouteTable.tags, Option.any_map]
    rfl
  simp only [RouteTable.tags, RouteTable.unregister, Tagging.drop,
    place_newEndpoint lower v ptr, Prod.mk.injEq, hremoves, and_assoc]
  split
  · rfl
  · rfl

theorem sendAll_returns {r : RouteRegistry}
    (h : ∀ q ∈ reqs, r.listener = true → q.uri = [] ∨ Nameable q.uri) :
    ∃ sent, r.sendAll reqs = some sent := by
  refine Option.isSome_iff_exists.mp ((sendAll_isSome_iff r reqs).mpr fun q hq => ?_)
  rw [RouteRegistry.updateIf, Bool.true_and]
  split
  · next hl => exact (updateRouter_isSome_iff ..).mpr (h q hq hl)
  · rfl

theorem Registry.RouteRegistry.Refines.step_returns {r : RouteRegistry} {T : RouteTable}
    (h : r.Refines T) (lower : Lower) (hid : ∀ e ∈ Call.endpoint c, ¬ IsAddress e.privateInstanceId)
    (hreqs : ∀ reqs, T.Asks lower reqs c → ∀ q ∈ reqs, r.listener = true →
      q.uri = [] ∨ Nameable q.uri)
    (sent : List Sent) :
    ∃ r' reqs new, RouteRegistry.step lower (r, sent) c = some (r', sent ++ new) ∧
      r'.listener = r.listener ∧
      r'.Refines (T.call lower c) ∧ T.Asks lower reqs c ∧ r.sendAll reqs = some new := by
  obtain ⟨r', reqs, hstep, hl, h', hasks⟩ := h.step lower hid sent
  obtain ⟨new, hnew⟩ := sendAll_returns (hreqs reqs hasks)
  refine ⟨r', reqs, new, ?_, hl, h', hasks, hnew⟩
  rw [hstep, hnew, Option.map_some]

structure HTTPFetcher.Keeps (lower : Lower) (listener : Bool) (f : HTTPFetcher)
    (S : List Str × Str → Option ModificationTag) : Prop where
  table : ∃ T, f.routeRegistry.1.Refines T ∧ T.tags = S
  listens : f.routeRegistry.1.listener = listener
  regular : ∀ v ∈ f.endpoints, v.Regular lower listener

section
variable {f : HTTPFetcher} {listener : Bool}

theorem HTTPFetcher.Keeps.call (h : f.Keeps lower listener S) (c : Call)
    (hid : ∀ e ∈ c.endpoint, ¬ IsAddress e.privateInstanceId)
    (hreqs : ∀ T reqs, RouteTable.Asks lower T reqs c → ∀ q ∈ reqs, listener = true →
      q.uri = [] ∨ Nameable q.uri) :
    ∃ f' T, f.call lower c = some f' ∧ f'.endpoints = f.endpoints ∧ RouteTable.tags T = S ∧
      f'.Keeps lower listener (T.call lower c).tags := by
  obtain ⟨T, hT, hS⟩ := h.table
  obtain ⟨r', reqs, new, hstep, hl, hT', -⟩ := hT.step_returns lower hid
    (fun reqs hasks q hq hlist => hreqs T reqs hasks q hq (h.listens ▸ hlist)) f.routeRegistry.2
  refine ⟨{ f with routeRegistry := (r', f.routeRegistry.2 ++ new), made := f.made + 1 },
    T, ?_, rfl, hS, ⟨_, hT', rfl⟩, hl.trans h.listens, h.regular⟩
  exact congrArg (Option.map _) hstep

/-- The one update that a call for a route can ask for is for its key. -/
theorem Models.Route.Regular.asked {v : Models.Route} (h : v.Regular lower listener)
    {c : Prop} [Decidable c] (hreqs : reqs =
      if c then [(⟨node, op, Uri.routeKey lower v.route, e⟩ : Registry.Request)] else []) :
    ∀ q ∈ reqs, listener = true → q.uri = [] ∨ Nameable q.uri := by
  intro q hq hlist
  rw [hreqs] at hq
  split at hq
  · rw [List.mem_singleton.mp hq]
    exact h.keyed hlist
  · cases hq

theorem HTTPFetcher.Keeps.register (h : f.Keeps lower listener S) (hv : v.Regular lower listener)
    (clock : Nat → Int) :
    ∃ f', f.register lower clock v = some f' ∧ f'.endpoints = f.endpoints ∧
      f'.Keeps lower listener ((httpTagging lower).put S v) := by
  obtain ⟨f', T, hcall, hends, rfl, h'⟩ :=
    h.call (.register v.route (v.newEndpoint f.made) (clock f.made))
    (by rintro e ⟨⟩; exact hv.guid) fun T reqs hasks => hv.asked hasks
  exact ⟨f', hcall, hends, tags_register T v f.made _ ▸ h'⟩

theorem HTTPFetcher.Keeps.unregister (h : f.Keeps lower listener S)
    (hv : v.Regular lower listener) :
    ∃ f', f.unregister lower v = some f' ∧ f'.endpoints = f.endpoints ∧
      f'.Keeps lower listener ((httpTagging lower).drop S v) := by
  obtain ⟨f', T, hcall, hends, rfl, h'⟩ := h.call (.unregister v.route (v.newEndpoint f.made))
    (by rintro e ⟨⟩; exact hv.guid) fun T reqs hasks => hv.asked hasks
  exact ⟨f', hcall, hends, tags_unregister T v f.made ▸ h'⟩

theorem HTTPFetcher.Keeps.loop {step : HTTPFetcher → Models.Route → Option HTTPFetcher}
    (hstep : ∀ g S, ∀ v ∈ vs, HTTPFetcher.Keeps lower listener g S →
      ∃ g', step g v = some g' ∧ g'.endpoints = g.endpoints ∧ g'.Keeps lower listener (F S v))
    (h : f.Keeps lower listener S) :
    ∃ f', run step f vs = some f' ∧ f'.endpoints = f.endpoints ∧
      f'.Keeps lower listener (vs.foldl F S) := by
  refine run_simulates (R := fun (g : HTTPFetcher) S => g.endpoints = f.endpoints ∧
    g.Keeps lower listener S) ?_ ⟨rfl, h⟩
  rintro g S v hv ⟨hends, hg⟩
  obtain ⟨g', hcall, hends', hg'⟩ := hstep g S v hv hg
  exact ⟨g', hcall, hends'.trans hends, hg'⟩

/-- A refresh returns and is a sync. -/
theorem HTTPFetcher.Keeps.refreshEndpoints (h : f.Keeps lower listener S)
    (hvalid : ∀ v ∈ validRoutes, v.Regular lower listener) (clock : Nat → Int) :
    ∃ f', f.refreshEndpoints lower clock validRoutes = some f' ∧ f'.endpoints = validRoutes ∧
      f'.Keeps lower listener ((httpTagging lower).sync routeEquals f.endpoints validRoutes S) := by
  have hgone : ∀ v ∈ Tagging.missing routeEquals f.endpoints validRoutes,
      v.Regular lower listener :=
    fun v hv => h.regular v (List.mem_filter.mp hv).1
  obtain ⟨f₁, hdelete, -, h₁⟩ := h.loop (F := (httpTagging lower).drop) fun g S v hv hg =>
    hg.unregister (hgone v hv)
  have h₂ : HTTPFetcher.Keeps lower listener { f₁ with endpoints := validRoutes } _ :=
    ⟨h₁.table, h₁.listens, hvalid⟩
  obtain ⟨f₃, hregister, hends, h₃⟩ := h₂.loop (F := (httpTagging lower).put)
    fun g S v hv hg => hg.register (hvalid v hv) clock
  refine ⟨f₃, ?_, hends, h₃⟩
  rw [HTTPFetcher.refreshEndpoints, HTTPFetcher.deleteEndpoints, hdelete]
  exact hregister

theorem HTTPFetcher.Keeps.step (h : f.Keeps lower listener S)
    (hroutes : ∀ v ∈ FetcherCall.routes c, Models.Route.Regular lower listener v)
    (clock : Nat → Int) :
    ∃ f', f.step lower clock c = some f' ∧ ∃ S', f'.Keeps lower listener S' := by
  cases c with
  | fetchRoutes first second =>
    simp only [HTTPFetcher.step]
    simp only [FetcherCall.routes] at hroutes
    cases hfetch : fetchWithTokenRefresh first second with
    | error err => exact ⟨f, rfl, S, h⟩
    | ok routes =>
      rw [hfetch] at hroutes
      obtain ⟨f', hf', -, h'⟩ := h.refreshEndpoints hroutes clock
      exact ⟨f', hf', _, h'⟩
  | handleEvent event =>
    cases event with
    | none => exact ⟨f, rfl, S, h⟩
    | some e =>
      have hv : e.route.Regular lower listener := hroutes e.route (by simp [FetcherCall.routes])
      simp only [HTTPFetcher.step, HTTPFetcher.handleEvent]
      split
      · obtain ⟨f', hf', -, h'⟩ := h.unregister hv
        exact ⟨f', hf', _, h'⟩
      · split
        · obtain ⟨f', hf', -, h'⟩ := h.register hv clock
          exact ⟨f', hf', _, h'⟩
        · exact ⟨f, rfl, S, h⟩

theorem HTTPFetcher.Keeps.registered (h : f.Keeps lower listener S) (uri : Uri) (ip : Str)
    (port : UInt16) :
    (f.routeRegistry.1.registered lower uri ip port).map Endpoint.modificationTag =
      S (segments (uri.routeKey lower), ip ++ ':' :: itoa port.toNat) := by
  obtain ⟨T, hT, rfl⟩ := h.table
  have ha : IsAddress (ip ++ ':' :: itoa port.toNat) := ⟨ip, port, rfl⟩
  rw [RouteTable.tags, hT.entries _ _ ha, RouteRegistry.registered,
    RouteRegistry.lookupWithoutWildcard, Trie.find_eq]
  cases f.routeRegistry.1.byURI.poolAt (segments (uri.routeKey lower)) with
  | none => rfl
  | some p =>
    simp only [Option.bind_some, Route.Pool.findById, Option.map_map]
    rfl

theorem HTTPFetcher.Keeps.converged_iff (h : f.Keeps lower listener S)
    (h' : HTTPFetcher.Keeps lower listener f'
      ((httpTagging lower).sync routeEquals f.endpoints validRoutes S)) :
    f'.Converged lower validRoutes ↔ f.Covers lower validRoutes := by
  have hsame : ∀ a b, routeEquals a b = true →
      (httpTagging lower).place a = (httpTagging lower).place b := by
    intro a b hab
    simp only [routeEquals, Bool.and_eq_true, decide_eq_true_eq] at hab
    simp only [httpTagging, hab]
  rw [HTTPFetcher.Converged, HTTPFetcher.Covers]
  refine forall_congr' fun uri => forall_congr' fun ip => forall_congr' fun port => ?_
  have hexact := (httpTagging lower).sync_exact_iff hsame f.endpoints validRoutes S
    (segments (uri.routeKey lower), ip ++ ':' :: itoa port.toNat)
  simp only [place_eq_iff, ← h'.registered, ← h.registered, Option.isSome_map,
    Option.map_eq_some_iff] at hexact
  rw [hexact]
  constructor
  · intro hall e he
    exact hall e.modificationTag ⟨e, he, rfl⟩
  · rintro hall t ⟨e, he, rfl⟩
    exact hall e he

theorem newHTTPFetcher_keeps (lower : Lower) (threshold : Int64) (listener : Bool) :
    (newHTTPFetcher (newRouteRegistry threshold listener)).Keeps lower listener (fun _ => none) :=
  ⟨⟨_, newRouteRegistry_refines threshold listener, rfl⟩, rfl, by simp [newHTTPFetcher]⟩

end

-- ---------------------------------------------------------------------------
-- The routing table
-- ---------------------------------------------------------------------------

def Models.TcpRouteMapping.triple (v : Models.TcpRouteMapping) : Triple :=
  (v.externalPort, ⟨v.hostIP, v.hostPort⟩)

def TCPFetcher.Converged (f : TCPFetcher) (validRoutes : List Models.TcpRouteMapping) : Prop :=
  ∀ port bk, f.routingTable.1.backendExists port bk = true ↔
    ∃ v ∈ validRoutes, v.triple = (port, bk)

def TCPFetcher.Covers (f : TCPFetcher) (validRoutes : List Models.TcpRouteMapping) : Prop :=
  ∀ port bk d, f.routingTable.1.details (port, bk) = some d →
    (∃ v ∈ validRoutes, v.triple = (port, bk)) ∨
      ∃ v ∈ f.endpoints, v.triple = (port, bk) ∧
        d.modificationTag.deletedBy v.modificationTag = true

def tcpTagging : Tagging Models.TcpRouteMapping Triple ModificationTag where
  place := Models.TcpRouteMapping.triple
  tag := Models.TcpRouteMapping.modificationTag
  replaces := ModificationTag.succeededBy
  drops := ModificationTag.deletedBy

def RoutingTable.tags (table : RoutingTable) (t : Triple) : Option ModificationTag :=
  (table.details t).map BackendServerDetails.modificationTag

theorem upserted_modificationTag (existing : Entry) (k : BackendServerKey)
    (d : BackendServerDetails) (bk : BackendServerKey) :
    ((if (existing.lookup k).all (·.updateSucceededBy d) then existing.insert k d
        else existing).lookup bk).map
        BackendServerDetails.modificationTag =
      if bk = k then
        some (((existing.lookup bk).map BackendServerDetails.modificationTag).elim d.modificationTag
          fun t =>
          if t.succeededBy d.modificationTag then d.modificationTag else t)
      else (existing.lookup bk).map BackendServerDetails.modificationTag := by
  by_cases hk : bk = k
  · subst hk
    cases hcur : existing.lookup bk with
    | none => simp
    | some old =>
      rw [if_pos rfl, Option.all_some]
      split
      · next hs =>
        rw [AList.lookup_insert]
        exact congrArg some (if_pos hs).symm
      · next hs =>
        rw [hcur]
        exact congrArg some (if_neg hs).symm
  · rw [if_neg hk]
    split
    · rw [AList.lookup_insert_ne hk]
    · rfl

section
variable (table : RoutingTable) (key : UInt16) (info : BackendServerInfo)

theorem tags_upsertBackendServerKey (created now : Int) (t : Triple) :
    (table.upsertBackendServerKey key info created now).1.tags t =
      if t = (key, info.key) then
        some ((table.tags t).elim info.modificationTag fun m =>
          if m.succeededBy info.modificationTag then info.modificationTag else m)
      else table.tags t := by
  obtain ⟨port, bk⟩ := t
  rw [RoutingTable.tags, RoutingTable.upsertBackendServerKey, details_insert]
  by_cases hport : port = key
  · subst hport
    rw [if_pos rfl, upserted_modificationTag]
    simp only [serverKeyDetailsFromInfo, Prod.mk.injEq, true_and, RoutingTable.tags,
      RoutingTable.details]
    cases hfound : table.entries.lookup port with
    | none =>
      have hfresh : ∀ k, (newRoutingTableEntry [(info, created)]).lookup k =
          if k = info.key then some ⟨info.modificationTag, info.ttl, created⟩ else none := by
        intro k
        rw [newRoutingTableEntry, List.foldl_cons, List.foldl_nil, GoMap.lookup_insert_ite,
          AList.lookup_empty]
      by_cases hbk : bk = info.key
      · simp only [hfresh, hbk, Option.getD_none, if_true, Option.map_some, Option.elim_some,
          Option.bind_none, Option.map_none, Option.elim_none, Option.some.injEq]
        exact ite_self _
      · simp [hfresh, hbk]
    | some backends => rfl
  · rw [if_neg hport, if_neg fun he => hport (congrArg Prod.fst he)]
    rfl

theorem tags_deleteBackendServerKey (now : Int) (t : Triple) :
    (table.deleteBackendServerKey key info now).1.tags t =
      if t = (key, info.key) ∧ (table.tags t).any (·.deletedBy info.modificationTag) =
        true then none
      else table.tags t := by
  obtain ⟨port, bk⟩ := t
  let d : BackendServerDetails := ⟨info.modificationTag, info.ttl, now⟩
  have hany : ∀ t, (table.tags t).any (·.deletedBy info.modificationTag) =
      (table.details t).any (·.deleteSucceededBy d) := by
    intro t
    rw [RoutingTable.tags, Option.any_map]
    rfl
  rw [hany]
  cases hfound : table.entries.lookup key with
  | none =>
    have htable : (table.deleteBackendServerKey key info now).1 = table := by
      simp [RoutingTable.deleteBackendServerKey, hfound]
    rw [htable, if_neg]
    rintro ⟨he, hgone⟩
    cases he
    simp [RoutingTable.details, hfound] at hgone
  | some backends =>
    have htable : (table.deleteBackendServerKey key info now).1 =
        if (backends.lookup info.key).any (·.deleteSucceededBy d) then
          table.keep key (backends.erase info.key)
        else table := by
      simp only [RoutingTable.deleteBackendServerKey, hfound]
      split
      · next hgone => exact (if_pos hgone).symm
      · next hstay => exact (if_neg hstay).symm
    have hbackends : ∀ bk, table.details (key, bk) = backends.lookup bk := fun bk => by
      simp [RoutingTable.details, hfound]
    rw [htable]
    split
    · next hgone =>
      rw [RoutingTable.tags, details_keep]
      by_cases hport : port = key
      · subst hport
        rw [if_pos rfl, hbackends]
        by_cases hbk : bk = info.key
        · subst hbk
          rw [if_pos ⟨rfl, hgone⟩, AList.lookup_erase]
          rfl
        · rw [if_neg fun h => hbk (congrArg Prod.snd h.1), RoutingTable.tags, hbackends,
            AList.lookup_erase_ne hbk]
      · rw [if_neg hport, if_neg fun h => hport (congrArg Prod.fst h.1)]
        rfl
    · next hstay =>
      rw [if_neg]
      rintro ⟨he, hgone⟩
      cases he
      rw [hbackends] at hgone
      exact hstay hgone

end

theorem tags_upsert (f : TCPFetcher) (clock : Nat → Int × Int) (v : Models.TcpRouteMapping) :
    (f.upsert clock v).routingTable.1.tags = tcpTagging.put f.routingTable.1.tags v :=
  funext (tags_upsertBackendServerKey f.routingTable.1 v.externalPort v.toRoutingTableEntry.2 _ _)

theorem tags_delete (f : TCPFetcher) (clock : Nat → Int × Int) (v : Models.TcpRouteMapping) :
    (f.delete clock v).routingTable.1.tags = tcpTagging.drop f.routingTable.1.tags v :=
  funext (tags_deleteBackendServerKey f.routingTable.1 v.externalPort v.toRoutingTableEntry.2 _)

theorem tags_refreshTCPEndpoints (f : TCPFetcher) (clock : Nat → Int × Int)
    (validRoutes : List Models.TcpRouteMapping) :
    (f.refreshTCPEndpoints clock validRoutes).routingTable.1.tags =
      tcpTagging.sync routeEqualsTCP f.endpoints validRoutes f.routingTable.1.tags := by
  have hdelete : (Tagging.missing routeEqualsTCP f.endpoints validRoutes).foldl tcpTagging.drop
      f.routingTable.1.tags =
      (f.deleteTCPEndpoints clock validRoutes).routingTable.1.tags :=
    List.foldl_hom (fun g : TCPFetcher => g.routingTable.1.tags) fun g v =>
      (tags_delete g clock v).symm
  have hupsert : ∀ g : TCPFetcher, validRoutes.foldl tcpTagging.put g.routingTable.1.tags =
      (validRoutes.foldl (TCPFetcher.upsert clock) g).routingTable.1.tags := fun g =>
    List.foldl_hom (fun g : TCPFetcher => g.routingTable.1.tags) fun g v =>
      (tags_upsert g clock v).symm
  rw [Tagging.sync, hdelete]
  exact (hupsert { f.deleteTCPEndpoints clock validRoutes with endpoints := validRoutes }).symm

theorem TCPFetcher.converged_iff (f : TCPFetcher) (clock : Nat → Int × Int)
    (validRoutes : List Models.TcpRouteMapping) :
    (f.refreshTCPEndpoints clock validRoutes).Converged validRoutes ↔ f.Covers validRoutes := by
  have hsame : ∀ a b, routeEqualsTCP a b = true → tcpTagging.place a = tcpTagging.place b := by
    intro a b hab
    simp only [routeEqualsTCP, Bool.and_eq_true, decide_eq_true_eq] at hab
    simp only [tcpTagging, Models.TcpRouteMapping.triple, hab]
  have hexists : ∀ (table : RoutingTable) port bk, table.backendExists port bk =
      (table.tags (port, bk)).isSome := by
    intro table port bk
    rw [RoutingTable.tags, Option.isSome_map]
    exact has_eq_isSome table (port, bk)
  rw [TCPFetcher.Converged, TCPFetcher.Covers]
  refine forall_congr' fun port => forall_congr' fun bk => ?_
  have hexact :=
    tcpTagging.sync_exact_iff hsame f.endpoints validRoutes f.routingTable.1.tags (port, bk)
  rw [hexists, tags_refreshTCPEndpoints]
  refine hexact.trans ?_
  simp only [RoutingTable.tags, Option.map_eq_some_iff]
  constructor
  · intro hall d hd
    exact hall d.modificationTag ⟨d, hd, rfl⟩
  · rintro hall t ⟨d, hd, rfl⟩
    exact hall d hd

-- ---------------------------------------------------------------------------
-- Convergence
-- ---------------------------------------------------------------------------

/-- Whatever was fetched and whichever events came before, a refresh leaves
exactly the endpoints of its list exactly when all others were in the last list
with a tag no older than that they are registered with. -/
theorem refresh_converges_iff (lower : Lower) (threshold : Int64) (listener : Bool)
    (clock : Nat → Int) (calls : List (FetcherCall Models.Route)) (validRoutes : List Models.Route)
    (hcalls : ∀ c ∈ calls, ∀ v ∈ c.routes, v.Regular lower listener)
    (hvalid : ∀ v ∈ validRoutes, v.Regular lower listener)
    (c : Config) (times : Nat → Int × Int) (tcpCalls : List (FetcherCall Models.TcpRouteMapping))
    (validMappings : List Models.TcpRouteMapping) :
    (∃ f f', run (HTTPFetcher.step lower clock)
      (newHTTPFetcher (newRouteRegistry threshold listener)) calls = some f ∧
      f.refreshEndpoints lower clock validRoutes = some f' ∧
      (f'.Converged lower validRoutes ↔ f.Covers lower validRoutes)) ∧
    let f := tcpCalls.foldl (TCPFetcher.step times) (newTCPFetcher (newRoutingTable c listener))
    ((f.refreshTCPEndpoints times validMappings).Converged validMappings ↔
      f.Covers validMappings) := by
  refine ⟨?_, TCPFetcher.converged_iff _ times validMappings⟩
  have hstart : ∃ S, (newHTTPFetcher (newRouteRegistry threshold listener)).Keeps
      lower listener S :=
    ⟨_, newHTTPFetcher_keeps lower threshold listener⟩
  have hstep : ∀ (f : HTTPFetcher), ∀ c ∈ calls, (∃ S, f.Keeps lower listener S) →
      ∃ f', f.step lower clock c = some f' ∧ ∃ S, f'.Keeps lower listener S := by
    rintro f c hc ⟨S, h⟩
    exact h.step (hcalls c hc) clock
  obtain ⟨f, hrun, S, h⟩ := run_returns hstep hstart
  obtain ⟨f', hrefresh, -, h'⟩ := h.refreshEndpoints hvalid clock
  exact ⟨f, f', hrun, hrefresh, h.converged_iff h'⟩

namespace Sample

def apiRoute (index : UInt32) : Models.Route :=
  { route := "*.a".toList
    port := 80
    ip := "10.0.0.1".toList
    logGuid := "app".toList
    modificationTag := ⟨"tag".toList, index⟩ }

def tcpMapping (index : UInt32) : Models.TcpRouteMapping :=
  { hostPort := 80
    hostIP := "10.0.0.1".toList
    externalPort := 6000
    modificationTag := ⟨"tag".toList, index⟩ }

def otherRoute : Models.Route := { apiRoute 1 with route := "*.b".toList }

def otherMapping : Models.TcpRouteMapping := { tcpMapping 1 with externalPort := 6001 }

def fetched (routes : List α) : FetcherCall α := .fetchRoutes (.routes routes) (.routes [])

def upserted (route : α) : FetcherCall α := .handleEvent (some ⟨route, "Upsert".toList⟩)

theorem apiRoute_regular (index : UInt32) : (apiRoute index).Regular Lower.asciiOnly true := by
  refine ⟨?_, fun _ => .inr (by decide : Nameable (Uri.routeKey Lower.asciiOnly "*.a".toList))⟩
  intro h
  exact absurd h.colon_mem (by simp [apiRoute])

theorem otherRoute_regular : otherRoute.Regular Lower.asciiOnly true :=
  ⟨(apiRoute_regular 1).guid,
    fun _ => .inr (by decide : Nameable (Uri.routeKey Lower.asciiOnly "*.b".toList))⟩

end Sample

theorem refresh_converges_moved :
    (∃ f f', run (HTTPFetcher.step Lower.asciiOnly fun _ => 0)
        (newHTTPFetcher (newRouteRegistry 10 true))
        [Sample.fetched [Sample.apiRoute 1], Sample.upserted Sample.otherRoute] = some f ∧
      f.refreshEndpoints Lower.asciiOnly (fun _ => 0) [Sample.otherRoute] = some f' ∧
      f'.Converged Lower.asciiOnly [Sample.otherRoute]) ∧
    (([Sample.fetched [Sample.tcpMapping 1], Sample.upserted Sample.otherMapping].foldl
      (TCPFetcher.step fun _ => (0, 0)) (newTCPFetcher (newRoutingTable Sample.config true))
      ).refreshTCPEndpoints (fun _ => (0, 0)) [Sample.otherMapping]).Converged
        [Sample.otherMapping] := by
  have hfetched : ∀ v ∈ [Sample.apiRoute 1], v.Regular Lower.asciiOnly true := by
    simpa using Sample.apiRoute_regular 1
  have hother : ∀ v ∈ [Sample.otherRoute], v.Regular Lower.asciiOnly true := by
    simpa using Sample.otherRoute_regular
  obtain ⟨⟨f, f', hrun, hrefresh, hiff⟩, htcp⟩ := refresh_converges_iff Lower.asciiOnly 10 true
    (fun _ => 0) [Sample.fetched [Sample.apiRoute 1], Sample.upserted Sample.otherRoute]
    [Sample.otherRoute] (by simpa using ⟨hfetched, hother⟩) hother Sample.config (fun _ => (0, 0))
    [Sample.fetched [Sample.tcpMapping 1], Sample.upserted Sample.otherMapping]
    [Sample.otherMapping]
  refine ⟨⟨f, f', hrun, hrefresh, hiff.mpr fun uri ip port e he => ?_⟩,
    htcp.mpr fun port bk d hd => ?_⟩
  · obtain ⟨f₁, hf₁, hends₁, h₁⟩ :=
      (newHTTPFetcher_keeps Lower.asciiOnly 10 true).refreshEndpoints hfetched fun _ => 0
    obtain ⟨f₂, hf₂, hends₂, h₂⟩ := h₁.register Sample.otherRoute_regular fun _ => 0
    obtain rfl : f = f₂ := by
      obtain ⟨g₁, hg₁, hrun⟩ := run_cons_eq_some.mp hrun
      obtain ⟨g₂, hg₂, ⟨⟩⟩ := run_cons_eq_some.mp hrun
      obtain rfl : g₁ = f₁ := Option.some.inj (hg₁.symm.trans hf₁)
      exact Option.some.inj (hg₂.symm.trans hf₂)
    have htag : _ = some e.modificationTag :=
      (h₂.registered uri ip port).symm.trans (congrArg (Option.map _) he)
    obtain hplace | ⟨hplace, ht⟩ := Tagging.put_sync_singleton _ htag
    · exact .inl ⟨_, List.mem_singleton_self _, place_eq_iff.mp hplace⟩
    · refine .inr ⟨_, hends₂ ▸ hends₁ ▸ List.mem_singleton_self _, place_eq_iff.mp hplace, ?_⟩
      rw [ht]
      rfl
  · have htag : _ = some d.modificationTag := congrArg (Option.map _) hd
    have hput := congrFun (tags_upsert ((newTCPFetcher (newRoutingTable Sample.config true)
      ).refreshTCPEndpoints (fun _ => (0, 0)) [Sample.tcpMapping 1]) (fun _ => (0, 0))
      Sample.otherMapping) (port, bk)
    rw [tags_refreshTCPEndpoints] at hput
    obtain hplace | ⟨hplace, ht⟩ := Tagging.put_sync_singleton _ (hput.symm.trans htag)
    · exact .inl ⟨_, List.mem_singleton_self _, hplace⟩
    · refine .inr ⟨_, List.mem_singleton_self _, hplace, ?_⟩
      rw [ht]
      rfl

/-- An endpoint that only an event has registered stays when the API has no
routes, and so does one that was fetched and has got a newer tag since. -/
theorem refresh_keeps_endpoint :
    (∀ calls ∈ [[Sample.upserted (Sample.apiRoute 1)],
        [Sample.fetched [Sample.apiRoute 1], Sample.upserted (Sample.apiRoute 2)]],
      ∃ f ∈ run (HTTPFetcher.step Lower.asciiOnly fun _ => 0)
        (newHTTPFetcher (newRouteRegistry 10 true)) calls,
        ∃ f' ∈ f.refreshEndpoints Lower.asciiOnly (fun _ => 0) [],
          (f'.routeRegistry.1.registered Lower.asciiOnly "*.a".toList "10.0.0.1".toList 80).isSome =
            true) ∧
    ∀ calls ∈ [[Sample.upserted (Sample.tcpMapping 1)],
        [Sample.fetched [Sample.tcpMapping 1], Sample.upserted (Sample.tcpMapping 2)]],
      let f := calls.foldl (TCPFetcher.step fun _ => (0, 0))
        (newTCPFetcher (newRoutingTable Sample.config true))
      (f.refreshTCPEndpoints (fun _ => (0, 0)) []).routingTable.1.backendExists 6000
        ⟨"10.0.0.1".toList, 80⟩ = true := by
  decide +kernel

end BigipCtlr
