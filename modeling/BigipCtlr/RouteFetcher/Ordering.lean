import BigipCtlr.RouteFetcher.Sync
import BigipCtlr.RoutingTable.Expiry

/-!
# Messages that come late

The registry and the routing table compare the tag of a message with the one
they have. Among tags of one guid the greater index wins, whatever the order of
the messages: for a TCP backend always, and for an endpoint of a route as long
as no private instance id is an address, for the pool has one index for both.
-/

namespace BigipCtlr

open Go Lib Registry

-- ---------------------------------------------------------------------------
-- Tags of one guid
-- ---------------------------------------------------------------------------

section
variable {m other : ModificationTag} {guid : Str} (hm : m.guid = guid) (ho : other.guid = guid)
  (hg : guid ≠ [])
include hm ho hg

theorem ModificationTag.succeededBy_iff :
    m.succeededBy other = true ↔ m.index.toNat < other.index.toNat := by
  simp [ModificationTag.succeededBy, hm, ho, hg, UInt32.lt_iff_toNat_lt]

theorem ModificationTag.deletedBy_iff :
    m.deletedBy other = true ↔ m.index.toNat ≤ other.index.toNat := by
  have heq : m = other ↔ m.index.toNat = other.index.toNat := by
    cases m
    cases other
    simp_all [UInt32.toNat_inj]
  rw [ModificationTag.deletedBy, Bool.or_eq_true, decide_eq_true_eq, succeededBy_iff hm ho hg, heq,
    Nat.le_iff_lt_or_eq, or_comm]

theorem ModificationTag.not_succeededBy (h : other.index.toNat ≤ m.index.toNat) :
    m.succeededBy other = false := by
  rw [Bool.eq_false_iff, ne_eq, succeededBy_iff hm ho hg]
  exact Nat.not_lt.mpr h

theorem ModificationTag.not_deletedBy (h : other.index.toNat < m.index.toNat) :
    m.deletedBy other = false := by
  rw [Bool.eq_false_iff, ne_eq, deletedBy_iff hm ho hg]
  exact Nat.not_le.mpr h

end

-- ---------------------------------------------------------------------------
-- The registry
-- ---------------------------------------------------------------------------

namespace Registry

def RouteRegistry.members (lower : Lower) (r : RouteRegistry) (uri : Uri) : List Endpoint :=
  ((r.lookupWithoutWildcard lower uri).map fun pool =>
    pool.members.map Route.Entry.endpoint).getD []

def RouteTable.endpointAt (T : RouteTable) (k : List Str) (a : Str) : Option Endpoint :=
  (T.entries k a).map Route.Entry.endpoint

section
variable {r : RouteRegistry} {T : RouteTable}

theorem RouteRegistry.Refines.mem_members (h : r.Refines T) :
    e ∈ r.members lower uri ↔ T.endpointAt (segments (uri.routeKey lower)) e.canonicalAddr =
      some e := by
  rw [RouteRegistry.members, RouteRegistry.lookupWithoutWildcard, Trie.find_eq,
    RouteTable.endpointAt]
  cases hp : r.byURI.poolAt (segments (uri.routeKey lower)) with
  | none => simp [h.poolAt_eq_none.mp hp]
  | some p =>
    have ha := isAddress_canonicalAddr e
    rw [Option.map_some, Option.getD_some, List.mem_map, Option.map_eq_some_iff]
    refine exists_congr fun m => and_congr_left fun hm => ?_
    rw [h.row hp _ ha, (h.pools _ p hp).1.entry_eq_some ha, hm]
    exact (and_iff_left rfl).symm

theorem RouteRegistry.Refines.find?_members (h : r.Refines T) (lower : Lower)
    (uri : Uri) (a : Str) :
    (r.members lower uri).find? (·.canonicalAddr = a) =
      T.endpointAt (segments (uri.routeKey lower)) a := by
  cases hf : (r.members lower uri).find? (·.canonicalAddr = a) with
  | some e =>
    have haddr : e.canonicalAddr = a := by simpa using List.find?_some hf
    rw [← haddr, h.mem_members.mp (List.mem_of_find?_eq_some hf)]
  | none =>
    refine (Option.eq_none_iff_forall_ne_some.mpr fun e he => ?_).symm
    obtain ⟨m, hm, rfl⟩ := Option.map_eq_some_iff.mp he
    have haddr := h.canonicalAddr hm
    rw [← haddr] at he
    exact List.find?_eq_none.mp hf m.endpoint (h.mem_members.mpr he) (decide_eq_true haddr)

end

section
variable {T : RouteTable}

theorem RouteTable.put_stale {old : Route.Entry}
    (h : old.endpoint.modificationTag.succeededBy endpoint.modificationTag = false) (now : Int) :
    (RouteTable.put now endpoint (some old)).endpoint = old.endpoint := by
  simp only [RouteTable.put, h]
  split <;> rfl

/-- An endpoint was there before, or came with a registration and a tag that
succeeds the one before. -/
theorem RouteTable.endpointAt_call (he : (T.call lower c).endpointAt k a = some e) :
    T.endpointAt k a = some e ∨ ∃ u now, c = .register u e now ∧
      segments (Uri.routeKey lower u) = k ∧
      e.canonicalAddr = a ∧ ∀ old, T.endpointAt k a = some old →
        old.modificationTag.succeededBy e.modificationTag = true := by
  obtain ⟨m, hm, rfl⟩ := Option.map_eq_some_iff.mp he
  cases c with
  | register u endpoint now =>
    simp only [RouteTable.call, RouteTable.register] at hm
    split at hm
    · next hplace =>
      obtain ⟨rfl, rfl⟩ := hplace
      cases hm
      simp only [RouteTable.endpointAt]
      cases T.entries (segments (Uri.routeKey lower u)) endpoint.canonicalAddr with
      | none => exact .inr ⟨u, now, rfl, rfl, rfl, by simp⟩
      | some old =>
        simp only [RouteTable.put, Option.map_some, Option.some.injEq]
        split
        · split
          · next htag =>
            refine .inr ⟨u, now, rfl, rfl, rfl, ?_⟩
            rintro _ rfl
            exact htag
          · exact .inl rfl
        · exact .inl rfl
    · exact .inl (congrArg (Option.map Route.Entry.endpoint) hm)
  | unregister u endpoint =>
    simp only [RouteTable.call, RouteTable.unregister] at hm
    split at hm
    · cases hm
    · exact .inl (congrArg (Option.map Route.Entry.endpoint) hm)
  | prune suspended fresh now order =>
    refine .inl ?_
    simp only [RouteTable.call] at hm
    split at hm
    · exact congrArg (Option.map Route.Entry.endpoint) hm
    · simp only [RouteTable.expire, if_true, Option.filter_eq_some_iff] at hm
      obtain ⟨hm, -⟩ := hm
      simp only [RouteTable.resume] at hm
      split at hm
      · obtain ⟨m', hm', rfl⟩ := Option.map_eq_some_iff.mp hm
        exact congrArg (Option.map Route.Entry.endpoint) hm'
      · exact congrArg (Option.map Route.Entry.endpoint) hm

end

/-- The calls for an endpoint at this place are for one route key, and their
tags have one guid. -/
def Call.Tagged (lower : Lower) (uri : Uri) (a guid : Str) (c : Call) : Prop :=
  ∀ u ∈ c.uri, ∀ e ∈ c.endpoint, segments (Uri.routeKey lower u) = segments (uri.routeKey lower) →
    e.canonicalAddr = a → Uri.routeKey lower u = uri.routeKey lower ∧ e.modificationTag.guid = guid

def Call.Apart (c : Call) : Prop := ∀ e ∈ c.endpoint, ¬ IsAddress e.privateInstanceId

/-- The registry with the calls for a route and an address, by the index of their
tags. -/
def registryVersions (lower : Lower) (uri : Uri) (a : Str) :
    Versioned (RouteRegistry × List Sent) Call Nat ((Uri → Set Endpoint) × List Sent) where
  step := RouteRegistry.step lower
  stored s :=
    ((s.1.members lower uri).find? (·.canonicalAddr = a)).map (·.modificationTag.index.toNat)
  view s := (fun u => {e | e ∈ s.1.members lower u}, s.2)
  puts c j := ∃ u e now, c = .register u e now ∧ Uri.routeKey lower u = uri.routeKey lower ∧
    e.canonicalAddr = a ∧ e.modificationTag.index.toNat = j
  drops c j := ∃ u e, c = .unregister u e ∧ Uri.routeKey lower u = uri.routeKey lower ∧
    e.canonicalAddr = a ∧ e.modificationTag.index.toNat = j

/-- The registry has a table in which the endpoint of the place has a tag of the
guid, and can be named if that is needed. -/
def Versions (lower : Lower) (uri : Uri) (a guid : Str) (s : RouteRegistry × List Sent) : Prop :=
  ∃ T, s.1.Refines T ∧ ∀ e, T.endpointAt (segments (uri.routeKey lower)) a = some e →
    e.modificationTag.guid = guid ∧
      (s.1.listener = true → uri.routeKey lower = [] ∨ Nameable (uri.routeKey lower))

section
variable {lower : Lower} {uri : Uri} {a guid : Str} {s t : RouteRegistry × List Sent} {c : Call}

theorem stored_eq {T : RouteTable} (h : s.1.Refines T) : (registryVersions lower uri a).stored s =
    (T.endpointAt (segments (uri.routeKey lower)) a).map (·.modificationTag.index.toNat) := by
  rw [← h.find?_members]
  rfl

theorem view_eq {T T' : RouteTable} (h : s.1.Refines T) (h' : t.1.Refines T') (hsent : t.2 = s.2)
    (hsame : ∀ k a, T'.endpointAt k a = T.endpointAt k a) :
    (registryVersions lower uri a).view t = (registryVersions lower uri a).view s := by
  simp only [registryVersions, hsent, h.mem_members, h'.mem_members, hsame]

theorem step_unseen {T : RouteTable} (h : s.1.Refines T) (hid : c.Apart)
    (hnone : ∀ reqs, T.Asks lower reqs c → reqs = [])
    (hsame : ∀ k a, (T.call lower c).endpointAt k a = T.endpointAt k a) :
    ∃ t, (registryVersions lower uri a).step s c = some t ∧
      (registryVersions lower uri a).view t = (registryVersions lower uri a).view s := by
  have hnames : ∀ reqs, T.Asks lower reqs c → ∀ q ∈ reqs, s.1.listener = true →
      q.uri = [] ∨ Nameable q.uri := by
    intro reqs hasks q hq
    rw [hnone reqs hasks] at hq
    cases hq
  obtain ⟨r', reqs, new, hstep, -, h', hasks, hnew⟩ := h.step_returns lower hid hnames s.2
  rw [hnone reqs hasks] at hnew
  cases hnew
  exact ⟨_, hstep, view_eq h h' (List.append_nil _) hsame⟩

theorem register_unseen {T : RouteTable} (h : s.1.Refines T) (hid : (Call.register u e now).Apart)
    (hm : T.entries (segments (Uri.routeKey lower u)) e.canonicalAddr = some m)
    (hstale : m.endpoint.modificationTag.succeededBy e.modificationTag = false) :
    ∃ t, (registryVersions lower uri a).step s (.register u e now) = some t ∧
      (registryVersions lower uri a).view t = (registryVersions lower uri a).view s := by
  refine step_unseen h hid (fun reqs hasks => ?_) fun k b => ?_
  · rw [RouteTable.Asks, hm, if_neg (by simp)] at hasks
    exact hasks
  · simp only [RouteTable.endpointAt, RouteTable.call, RouteTable.register]
    split
    · next hplace =>
      obtain ⟨rfl, rfl⟩ := hplace
      rw [hm, Option.map_some, Option.map_some, RouteTable.put_stale hstale]
    · rfl

theorem unregister_unseen {T : RouteTable} (h : s.1.Refines T) (hid : (Call.unregister u e).Apart)
    (hstays : RouteTable.removes e (T.entries (segments (Uri.routeKey lower u)) e.canonicalAddr) =
      false) :
    ∃ t, (registryVersions lower uri a).step s (.unregister u e) = some t ∧
      (registryVersions lower uri a).view t = (registryVersions lower uri a).view s := by
  refine step_unseen h hid (fun reqs hasks => ?_) fun k b => ?_
  · rw [RouteTable.Asks, hstays, if_neg (by simp)] at hasks
    exact hasks
  · simp only [RouteTable.endpointAt, RouteTable.call, RouteTable.unregister]
    rw [if_neg]
    rintro ⟨rfl, rfl, hrem⟩
    rw [hstays] at hrem
    cases hrem

theorem unregister_drops {T : RouteTable} (h : s.1.Refines T) (hid : (Call.unregister u e).Apart)
    (hgoes : RouteTable.removes e (T.entries (segments (Uri.routeKey lower u)) e.canonicalAddr) =
      true)
    (hnamed : s.1.listener = true → Uri.routeKey lower u = [] ∨ Nameable (Uri.routeKey lower u))
    (hkey : Uri.routeKey lower u = Uri.routeKey lower uri) :
    ∃ t, (registryVersions lower uri e.canonicalAddr).step s (.unregister u e) = some t ∧
      (registryVersions lower uri e.canonicalAddr).stored t = none := by
  have hnames : ∀ reqs, T.Asks lower reqs (.unregister u e) → ∀ q ∈ reqs, s.1.listener = true →
      q.uri = [] ∨ Nameable q.uri := by
    intro reqs hasks q hq hlisten
    rw [RouteTable.Asks, hgoes, if_pos rfl] at hasks
    rw [hasks, List.mem_singleton] at hq
    rw [hq]
    exact hnamed hlisten
  obtain ⟨r', reqs, new, hstep, -, h', -⟩ := h.step_returns lower hid hnames s.2
  refine ⟨_, hstep, ?_⟩
  rw [stored_eq h', RouteTable.call, RouteTable.endpointAt, RouteTable.unregister, ← hkey]
  simp only [true_and]
  rw [if_pos hgoes]
  rfl

/-- The first endpoint at a place was sent on, so it can be named. -/
theorem nameable_of_first {T : RouteTable} (hasks : T.Asks lower reqs (.register u e now))
    (hnone : T.entries (segments (Uri.routeKey lower u)) e.canonicalAddr = none)
    (hsent : s.1.sendAll reqs = some new) (hlisten : s.1.listener = true) :
    Uri.routeKey lower u = [] ∨ Nameable (Uri.routeKey lower u) := by
  rw [RouteTable.Asks, hnone, if_pos rfl] at hasks
  have hall := (sendAll_isSome_iff s.1 reqs).mp (Option.isSome_iff_exists.mpr ⟨new, hsent⟩)
  rw [hasks] at hall
  have hmade := hall _ List.mem_cons_self
  rw [RouteRegistry.updateIf, hlisten, Bool.and_self, if_pos rfl, updateRouter_isSome_iff] at hmade
  exact hmade

theorem Versions.step (h : Versions lower uri a guid s) (hg : guid ≠ []) (hid : c.Apart)
    (htag : c.Tagged lower uri a guid) (hstep : RouteRegistry.step lower s c = some t) :
    Versions lower uri a guid t ∧ ∀ i j, (registryVersions lower uri a).stored s = some i →
      (registryVersions lower uri a).stored t = some j → i ≤ j := by
  obtain ⟨T, hT, hplace⟩ := h
  obtain ⟨r', reqs, hcall, hl, hT', hasks⟩ := hT.step lower hid s.2
  rw [hcall, Option.map_eq_some_iff] at hstep
  obtain ⟨new, hnew, rfl⟩ := hstep
  refine ⟨⟨_, hT', fun e he => ?_⟩, fun i j hi hj => ?_⟩
  · simp only [hl]
    rcases RouteTable.endpointAt_call he with hold | ⟨u, now, rfl, hkey, ha, hsucc⟩
    · exact hplace e hold
    · obtain ⟨hroute, hguid⟩ := htag u rfl e rfl hkey ha
      refine ⟨hguid, fun hlisten => ?_⟩
      cases hold : T.endpointAt (segments (uri.routeKey lower)) a with
      | some old => exact (hplace old hold).2 hlisten
      | none =>
        rw [← hkey, ← ha] at hold
        rw [← hroute]
        exact nameable_of_first hasks (Option.map_eq_none_iff.mp hold) hnew hlisten
  · rw [stored_eq hT] at hi
    rw [stored_eq hT'] at hj
    obtain ⟨old, hold, rfl⟩ := Option.map_eq_some_iff.mp hi
    obtain ⟨e, he, rfl⟩ := Option.map_eq_some_iff.mp hj
    rcases RouteTable.endpointAt_call he with hsame | ⟨u, now, rfl, hkey, ha, hsucc⟩
    · rw [hold] at hsame
      cases hsame
      exact Nat.le_refl _
    · have hguid := (htag u rfl e rfl hkey ha).2
      exact Nat.le_of_lt ((ModificationTag.succeededBy_iff (hplace old hold).1 hguid hg).mp
        (hsucc old hold))

theorem Versions.orders (h : Versions lower uri a guid s) (hg : guid ≠ [])
    (hi : (registryVersions lower uri a).stored s = some i) :
    (registryVersions lower uri a).Orders (fun c => c.Apart ∧ c.Tagged lower uri a guid) s i := by
  obtain ⟨T, hT, hplace⟩ := h
  rw [stored_eq hT] at hi
  obtain ⟨old, hold, rfl⟩ := Option.map_eq_some_iff.mp hi
  obtain ⟨hguid, hnamed⟩ := hplace old hold
  obtain ⟨m, hm, rfl⟩ := Option.map_eq_some_iff.mp hold
  have hremoves : ∀ e, RouteTable.removes e (T.entries (segments (uri.routeKey lower)) a) =
      m.endpoint.modificationTag.deletedBy e.modificationTag := by
    intro e
    rw [hm]
    rfl
  refine ⟨?_, ?_, ?_⟩
  · rintro _ j ⟨hid, htag⟩ ⟨u, e, now, rfl, hkey, rfl, rfl⟩ hle
    have hguid' := (htag u rfl e rfl (congrArg segments hkey) rfl).2
    rw [← hkey] at hm
    exact register_unseen hT hid hm (ModificationTag.not_succeededBy hguid hguid' hg hle)
  · rintro _ j ⟨hid, htag⟩ ⟨u, e, rfl, hkey, rfl, rfl⟩ hlt
    have hguid' := (htag u rfl e rfl (congrArg segments hkey) rfl).2
    refine unregister_unseen hT hid ?_
    rw [hkey, hremoves]
    exact ModificationTag.not_deletedBy hguid hguid' hg hlt
  · rintro _ j ⟨hid, htag⟩ ⟨u, e, rfl, hkey, rfl, rfl⟩ hle
    have hguid' := (htag u rfl e rfl (congrArg segments hkey) rfl).2
    refine unregister_drops hT hid ?_ (by rwa [hkey]) hkey
    rw [hkey, hremoves]
    exact (ModificationTag.deletedBy_iff hguid hguid' hg).mpr hle

end

theorem newRouteRegistry_versions (lower : Lower) (uri : Uri) (a guid : Str) (threshold : Int64)
    (listener : Bool) :
    Versions lower uri a guid (newRouteRegistry threshold listener, []) := by
  refine ⟨_, newRouteRegistry_refines threshold listener, fun e he => ?_⟩
  cases he

end Registry

-- ---------------------------------------------------------------------------
-- The routing table
-- ---------------------------------------------------------------------------

section
variable {table : RoutingTable} {info : BackendServerInfo} {d : BackendServerDetails}

theorem lookup_of_details (hd : table.details (key, bk) = some d) :
    ∃ backends, table.entries.lookup key = some backends ∧ backends.lookup bk = some d :=
  Option.bind_eq_some_iff.mp hd

/-- An Upsert that is not newer changes nothing and sends nothing. -/
theorem upsert_stale (hd : table.details (key, info.key) = some d)
    (hstale : d.modificationTag.succeededBy info.modificationTag = false) (created now : Int) :
    (table.upsertBackendServerKey key info created now).1.details = table.details ∧
      (table.upsertBackendServerKey key info created now).2.2 = [] := by
  obtain ⟨backends, hfound, hbk⟩ := lookup_of_details hd
  have hall : (backends.lookup info.key).all
      (·.updateSucceededBy ⟨info.modificationTag, info.ttl, now⟩) = false := by
    rw [hbk]
    exact hstale
  have hkept : (table.upsertBackendServerKey key info created now).1 =
      { table with entries := table.entries.insert key backends } := by
    simp only [RoutingTable.upsertBackendServerKey, hfound, Option.getD_some,
      serverKeyDetailsFromInfo, hall]
    rfl
  refine ⟨funext fun t => ?_, ?_⟩
  · rw [hkept, details_insert]
    split
    · next ht => rw [RoutingTable.details, ht, hfound, Option.bind_some]
    · rfl
  · simp only [RoutingTable.upsertBackendServerKey, hfound, Option.getD_some,
      serverKeyDetailsFromInfo, all_differentFrom, hbk]
    rfl

/-- A Delete that is older changes nothing and sends nothing. -/
theorem delete_stale (hd : table.details (key, info.key) = some d)
    (hstale : d.modificationTag.deletedBy info.modificationTag = false) (now : Int) :
    table.deleteBackendServerKey key info now = (table, false, []) := by
  obtain ⟨backends, hfound, hbk⟩ := lookup_of_details hd
  have hany : (backends.lookup info.key).any
      (·.deleteSucceededBy ⟨info.modificationTag, info.ttl, now⟩) = false := by
    rw [hbk]
    exact hstale
  simp only [RoutingTable.deleteBackendServerKey, hfound, serverKeyDetailsFromInfo, hany]
  rfl

theorem tags_call {c : TableCall} (h : (table.call c).1.tags t = some tag) :
    table.tags t = some tag ∨ ∃ key info created now, c = .upsert key info created now ∧
      t = (key, info.key) ∧
      tag = info.modificationTag ∧ ∀ old, table.tags t = some old → old.succeededBy tag = true := by
  cases c with
  | upsert key info created now =>
    change (table.upsertBackendServerKey key info created now).1.tags t = some tag at h
    rw [tags_upsertBackendServerKey] at h
    split at h
    · next ht =>
      cases hold : table.tags t with
      | none =>
        rw [hold] at h
        cases h
        exact .inr ⟨key, info, created, now, rfl, ht, rfl, by simp⟩
      | some old =>
        rw [hold, Option.elim_some, Option.some.injEq] at h
        split at h
        · next hsucc =>
          cases h
          refine .inr ⟨key, info, created, now, rfl, ht, rfl, ?_⟩
          rintro _ ⟨⟩
          exact hsucc
        · exact .inl (congrArg some h)
    · exact .inl h
  | delete key info now =>
    change (table.deleteBackendServerKey key info now).1.tags t = some tag at h
    rw [tags_deleteBackendServerKey] at h
    split at h
    · cases h
    · exact .inl h
  | prune defaultTTL w =>
    change (table.pruneEntries defaultTTL w).1.tags t = some tag at h
    rw [RoutingTable.tags, details_pruneEntries, Option.map_eq_some_iff] at h
    obtain ⟨d, hd, rfl⟩ := h
    exact .inl (congrArg (Option.map BackendServerDetails.modificationTag)
      (Option.filter_eq_some_iff.mp hd).1)

end

def TableCall.Tagged (t : Triple) (guid : Str) : TableCall → Prop
  | .upsert key info _ _ => (key, info.key) = t → info.modificationTag.guid = guid
  | .delete key info _ => (key, info.key) = t → info.modificationTag.guid = guid
  | .prune .. => True

def tableVersions (t : Triple) :
    Versioned (RoutingTable × List UpdateTCP) TableCall Nat
      ((Triple → Option BackendServerDetails) × List UpdateTCP) where
  step s c := some (RoutingTable.serve s c)
  stored s := (s.1.details t).map (·.modificationTag.index.toNat)
  view s := (s.1.details, s.2)
  puts c j := ∃ info created now, c = .upsert t.1 info created now ∧ info.key = t.2 ∧
    info.modificationTag.index.toNat = j
  drops c j := ∃ info now, c = .delete t.1 info now ∧ info.key = t.2 ∧
    info.modificationTag.index.toNat = j

section
variable {t : Triple} {guid : Str} {s s' : RoutingTable × List UpdateTCP} {c : TableCall}

theorem tableVersions_stored : (tableVersions t).stored s = (s.1.tags t).map (·.index.toNat) := by
  rw [RoutingTable.tags, Option.map_map]
  rfl

theorem tableVersions_step (hs : ∀ tag, s.1.tags t = some tag → tag.guid = guid) (hg : guid ≠ [])
    (hc : c.Tagged t guid) (hstep : (tableVersions t).step s c = some s') :
    (∀ tag, s'.1.tags t = some tag → tag.guid = guid) ∧
      ∀ i j, (tableVersions t).stored s = some i →
        (tableVersions t).stored s' = some j → i ≤ j := by
  cases hstep
  refine ⟨fun tag htag => ?_, fun i j hi hj => ?_⟩
  · rcases tags_call htag with hold | ⟨key, info, created, now, rfl, ht, rfl, -⟩
    · exact hs tag hold
    · exact hc ht.symm
  · rw [tableVersions_stored] at hi hj
    obtain ⟨old, hold, rfl⟩ := Option.map_eq_some_iff.mp hi
    obtain ⟨tag, htag, rfl⟩ := Option.map_eq_some_iff.mp hj
    rcases tags_call htag with hsame | ⟨key, info, created, now, rfl, ht, rfl, hsucc⟩
    · rw [hold] at hsame
      cases hsame
      exact Nat.le_refl _
    · exact Nat.le_of_lt ((ModificationTag.succeededBy_iff (hs old hold) (hc ht.symm) hg).mp
        (hsucc old hold))

theorem tableVersions_orders (hs : ∀ tag, s.1.tags t = some tag → tag.guid = guid) (hg : guid ≠ [])
    (hi : (tableVersions t).stored s = some i) :
    (tableVersions t).Orders (·.Tagged t guid) s i := by
  obtain ⟨d, hd, rfl⟩ := Option.map_eq_some_iff.mp hi
  have htag : s.1.tags t = some d.modificationTag := by rw [RoutingTable.tags, hd, Option.map_some]
  have hguid := hs _ htag
  obtain ⟨port, bk⟩ := t
  refine ⟨?_, ?_, ?_⟩
  · rintro _ j hc ⟨info, created, now, rfl, rfl, rfl⟩ hle
    have hstale := ModificationTag.not_succeededBy hguid (hc rfl) hg hle
    obtain ⟨hdetails, hsent⟩ := upsert_stale hd hstale created now
    exact ⟨_, rfl, Prod.ext hdetails ((congrArg (s.2 ++ ·) hsent).trans (List.append_nil _))⟩
  · rintro _ j hc ⟨info, now, rfl, rfl, rfl⟩ hlt
    have hstale := ModificationTag.not_deletedBy hguid (hc rfl) hg hlt
    have hsame : RoutingTable.serve s (.delete port info now) = (s.1, s.2 ++ []) := by
      rw [RoutingTable.serve, RoutingTable.call, delete_stale hd hstale]
    exact ⟨_, rfl, by rw [hsame, List.append_nil]⟩
  · rintro _ j hc ⟨info, now, rfl, rfl, rfl⟩ hle
    have hgoes := (ModificationTag.deletedBy_iff hguid (hc rfl) hg).mpr hle
    refine ⟨_, rfl, ?_⟩
    rw [tableVersions_stored]
    change ((s.1.deleteBackendServerKey port info now).1.tags (port, info.key)).map _ = none
    rw [tags_deleteBackendServerKey, htag, if_pos ⟨rfl, hgoes⟩]
    rfl

end

-- ---------------------------------------------------------------------------
-- Any order of the messages
-- ---------------------------------------------------------------------------

/-- Stale messages never win: not for a backend in the routing table, and not for
an endpoint in the registry, if no private instance id is an address. -/
theorem stale_messages_never_win (guid : Str) (hg : guid ≠ []) :
    (∀ lower uri a threshold listener, (registryVersions lower uri a).StaleNeverWins
      (newRouteRegistry threshold listener, []) fun c => c.Apart ∧ c.Tagged lower uri a guid) ∧
    ∀ t config listener, (tableVersions t).StaleNeverWins (newRoutingTable config listener, [])
      (·.Tagged t guid) := by
  refine ⟨fun lower uri a threshold listener => ?_, fun t config listener => ?_⟩
  · refine Versioned.staleNeverWins_of_invariant
      (newRouteRegistry_versions lower uri a guid threshold listener) ?_ ?_
    · exact fun s t c hc h => h.step hg hc.1 hc.2
    · exact fun s i h => h.orders hg
  · refine Versioned.staleNeverWins_of_invariant (J := fun s => ∀ tag, s.1.tags t = some tag →
      tag.guid = guid) ?_ ?_ ?_
    · rintro tag ⟨⟩
    · exact fun s s' c hc h => tableVersions_step h hg hc
    · exact fun s i h => tableVersions_orders h hg

namespace Sample

def message (privateInstanceId : String) (index : UInt32) : Endpoint :=
  newEndpoint index.toNat "app".toList "10.0.0.1".toList 80 privateInstanceId.toList 0
    ⟨"tag".toList, index⟩

def registered (privateInstanceId : String) (index : UInt32) : Call :=
  .register "*.a".toList (message privateInstanceId index) 0

theorem registered_apart (index : UInt32) : (registered "id" index).Apart := by
  rintro e ⟨⟩ h
  exact absurd (show ':' ∈ "id".toList from h.colon_mem) (by decide)

theorem registered_tagged (index : UInt32) :
    (registered "id" index).Tagged Lower.asciiOnly "*.a".toList "10.0.0.1:80".toList
      "tag".toList := by
  rintro u ⟨⟩ e ⟨⟩ - -
  exact ⟨rfl, rfl⟩

end Sample

theorem late_registration_unseen : "tag".toList ≠ [] ∧
    ∃ s, run (registryVersions Lower.asciiOnly "*.a".toList "10.0.0.1:80".toList).step
      (newRouteRegistry 10 true, [])
      [Sample.registered "id" 5] = some s ∧
      ∃ t, RouteRegistry.step Lower.asciiOnly s (Sample.registered "id" 3) = some t ∧ t.2 = s.2 ∧
        ∀ e, e ∈ t.1.members Lower.asciiOnly "*.a".toList ↔
          e ∈ s.1.members Lower.asciiOnly "*.a".toList := by
  have hok :=
    fun index => And.intro (Sample.registered_apart index) (Sample.registered_tagged index)
  have hrun : (run (registryVersions Lower.asciiOnly "*.a".toList "10.0.0.1:80".toList).step
      (newRouteRegistry 10 true, [])
      [Sample.registered "id" 5]).map
        (registryVersions Lower.asciiOnly "*.a".toList "10.0.0.1:80".toList).stored =
        some (some 5) := by
    decide
  obtain ⟨s, hs, hstored⟩ := Option.map_eq_some_iff.mp hrun
  obtain ⟨horders, -⟩ :=
    (stale_messages_never_win "tag".toList (by decide)).1 Lower.asciiOnly "*.a".toList
    "10.0.0.1:80".toList 10 true [Sample.registered "id" 5] (by simpa using hok 5) s hs 5 hstored
  obtain ⟨t, ht, hview⟩ :=
    horders.stalePut _ 3 (hok 3) ⟨_, _, _, rfl, rfl, by decide, rfl⟩ (by decide)
  obtain ⟨hmembers, hsent⟩ := Prod.ext_iff.mp hview
  exact ⟨by decide, s, hs, t, ht, hsent, fun e => Set.ext_iff.mp (congrFun hmembers "*.a".toList) e⟩

/-- With its own address as its private instance id an endpoint loses its place
in the index when another succeeds it: a registration that is late is then taken
for that of a new endpoint. -/
theorem late_registration_wins :
    (run (RouteRegistry.step Lower.asciiOnly) (newRouteRegistry 10 true, [])
      [Sample.registered "10.0.0.1:80" 1, Sample.registered "x" 2]).map (fun s =>
        ((s.1.members Lower.asciiOnly "*.a".toList).map (·.modificationTag.index),
          s.2.map (·.update.op))) =
      some ([2], [.add]) ∧
    (run (RouteRegistry.step Lower.asciiOnly) (newRouteRegistry 10 true, [])
      [Sample.registered "10.0.0.1:80" 1, Sample.registered "x" 2, Sample.registered "y" 1]).map
    (fun s =>
        ((s.1.members Lower.asciiOnly "*.a".toList).map (·.modificationTag.index),
          s.2.map (·.update.op))) =
      some ([2, 1], [.add, .add]) := by
  decide

end BigipCtlr
