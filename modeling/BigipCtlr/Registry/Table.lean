import BigipCtlr.Lib.Run
import BigipCtlr.Registry.Registry
import Mathlib.Data.Set.Card

/-!
# The registry as a finite map

What the registry is for, without trie, slices and pointers: a table from
route keys and addresses to endpoints. The registry refines it call by call,
and sends the updates that the changes of the table ask for.
-/

namespace BigipCtlr.Registry

open Go Lib Route

def IsAddress (a : Str) : Prop :=
  ∃ (address : Str) (port : UInt16), a = address ++ ':' :: itoa port.toNat

theorem isAddress_canonicalAddr (e : Endpoint) : IsAddress e.canonicalAddr :=
  ⟨e.address, e.port, rfl⟩

theorem IsAddress.colon_mem (h : IsAddress a) : ':' ∈ a := by
  obtain ⟨address, port, rfl⟩ := h
  exact List.mem_append_right _ List.mem_cons_self

structure RouteTable where
  entries : List Str → Str → Option Entry
  suspended : Bool
  threshold : Int64

namespace RouteTable

def empty (threshold : Int64) : RouteTable := ⟨fun _ _ => none, false, threshold⟩

/-- What a registration leaves at an address: an older tag does not replace a
newer one, and the same endpoint is only marked as updated. -/
def put (now : Int) (endpoint : Endpoint) : Option Entry → Entry
  | none => ⟨endpoint, now⟩
  | some old =>
    if old.endpoint ≠ endpoint then
      if old.endpoint.modificationTag.succeededBy endpoint.modificationTag then
        ⟨endpoint, now⟩ else old
    else ⟨old.endpoint, now⟩

def removes (endpoint : Endpoint) (old : Option Entry) : Bool :=
  old.any (·.endpoint.modificationTagSameOrNewer endpoint)

def register (T : RouteTable) (key : List Str) (endpoint : Endpoint) (now : Int) : RouteTable :=
  { T with entries := fun k a =>
      if k = key ∧ a = endpoint.canonicalAddr then some (put now endpoint (T.entries k a))
        else T.entries k a }

def unregister (T : RouteTable) (key : List Str) (endpoint : Endpoint) : RouteTable :=
  { T with entries := fun k a =>
      if k = key ∧ a = endpoint.canonicalAddr ∧ removes endpoint (T.entries k a) = true then none
        else T.entries k a }

def resume (T : RouteTable) (fresh : Int) : RouteTable :=
  if T.suspended then
    { T with entries := fun k a => (T.entries k a).map fun e => { e with updated := fresh },
             suspended := false }
  else T

theorem resume_threshold (T : RouteTable) (fresh : Int) :
    (T.resume fresh).threshold = T.threshold := by
  simp only [resume]
  split <;> rfl

def expire (T : RouteTable) (keys : List Str → Prop) [DecidablePred keys] (now : List Str → Int) :
    RouteTable :=
  { T with entries := fun k a =>
      if keys k then (T.entries k a).filter (!·.stale T.threshold (now k)) else T.entries k a }

def call (lower : Lower) (T : RouteTable) : Call → RouteTable
  | .register uri endpoint now => T.register (segments (uri.routeKey lower)) endpoint now
  | .unregister uri endpoint => T.unregister (segments (uri.routeKey lower)) endpoint
  | .prune suspended fresh now _ =>
    if suspended then { T with suspended := true } else (T.resume fresh).expire (fun _ => True) now

end RouteTable

-- ---------------------------------------------------------------------------
-- Requests
-- ---------------------------------------------------------------------------

structure Request where
  node : List Str
  op : Operation
  uri : Uri
  endpoint : Endpoint

def RouteRegistry.sendAll (r : RouteRegistry) (reqs : List Request) : Option (List Sent) :=
  (reqs.mapM fun q => r.updateIf true q.node q.op q.uri q.endpoint).map List.flatten

theorem sendAll_single (r : RouteRegistry) :
    r.sendAll [q] = r.updateIf true q.node q.op q.uri q.endpoint := by
  simp only [RouteRegistry.sendAll, List.mapM_cons, List.mapM_nil]
  cases r.updateIf true q.node q.op q.uri q.endpoint <;> simp

theorem updateIf_eq (r : RouteRegistry) (changed : Bool) (node : List Str) (op : Operation)
    (uri : Uri) (e : Endpoint) :
    r.updateIf changed node op uri e =
      r.sendAll (if changed then [⟨node, op, uri, e⟩] else []) := by
  cases changed with
  | true => exact (sendAll_single (q := ⟨node, op, uri, e⟩) r).symm
  | false => rfl

theorem sendAll_append (r : RouteRegistry) (as bs : List Request) :
    r.sendAll (as ++ bs) = (r.sendAll as).bind fun x => (r.sendAll bs).map (x ++ ·) := by
  simp only [RouteRegistry.sendAll, List.mapM_append]
  cases as.mapM fun q => r.updateIf true q.node q.op q.uri q.endpoint with
  | none => rfl
  | some x =>
    cases bs.mapM fun q => r.updateIf true q.node q.op q.uri q.endpoint with
    | none => rfl
    | some y => simp

theorem sendAll_congr {r r' : RouteRegistry} (h : r'.listener = r.listener) (reqs : List Request) :
    r'.sendAll reqs = r.sendAll reqs := by
  simp only [RouteRegistry.sendAll, RouteRegistry.updateIf, h]

theorem sendAll_isSome_iff (r : RouteRegistry) (reqs : List Request) :
    (r.sendAll reqs).isSome = true ↔
      ∀ q ∈ reqs, (r.updateIf true q.node q.op q.uri q.endpoint).isSome = true := by
  rw [RouteRegistry.sendAll, Option.isSome_map]
  exact mapM_isSome_iff

theorem sendAll_quiet {r : RouteRegistry} (h : r.listener = false) (reqs : List Request) :
    (r.sendAll reqs).isSome = true := by
  refine (sendAll_isSome_iff r reqs).mpr fun q _ => ?_
  simp [RouteRegistry.updateIf, h]

def RouteTable.Asks (lower : Lower) (T : RouteTable) (reqs : List Request) : Call → Prop
  | .register uri endpoint _ =>
    reqs = if T.entries (segments (uri.routeKey lower)) endpoint.canonicalAddr = none then
      [⟨segments (uri.routeKey lower), .add, uri.routeKey lower, endpoint⟩] else []
  | .unregister uri endpoint =>
    reqs = if RouteTable.removes endpoint
      (T.entries (segments (uri.routeKey lower)) endpoint.canonicalAddr) then
      [⟨segments (uri.routeKey lower), .remove, uri.routeKey lower, endpoint⟩] else []
  | .prune suspended fresh now _ =>
    (reqs.map fun q => (q.node, q.endpoint.canonicalAddr)).Nodup ∧
      ∀ q, q ∈ reqs ↔ suspended = false ∧ q.op = .remove ∧ q.uri = toPath q.node ∧
        ∃ e, (T.resume fresh).entries q.node q.endpoint.canonicalAddr = some e ∧
          e.endpoint = q.endpoint ∧
          e.stale T.threshold (now q.node) = true

-- ---------------------------------------------------------------------------
-- Refinement
-- ---------------------------------------------------------------------------

/-- The pools at the nodes of the trie are the rows of the table. -/
structure RouteRegistry.Refines (r : RouteRegistry) (T : RouteTable) : Prop where
  status : r.pruningStatus = .disconnected ↔ T.suspended = true
  threshold : r.dropletStaleThreshold = T.threshold
  trimmed : r.byURI.Trimmed
  pools : ∀ k p, r.byURI.poolAt k = some p → p.Sound IsAddress ∧ p.isEmpty = false
  entries : ∀ k a, IsAddress a →
    T.entries k a = (r.byURI.poolAt k).bind fun p => (p.elemAt a).map EndpointElem.entry
  bare : ∀ k a, ¬ IsAddress a → T.entries k a = none

theorem newRouteRegistry_refines (threshold : Int64) (listener : Bool) :
    (newRouteRegistry threshold listener).Refines (.empty threshold) where
  status := by simp [newRouteRegistry, RouteTable.empty]
  threshold := rfl
  trimmed := by simp [newRouteRegistry, newTrie, Trie.Trimmed]
  pools := by simp [newRouteRegistry, newTrie, Trie.poolAt]
  entries := by simp [newRouteRegistry, newTrie, Trie.poolAt, RouteTable.empty]
  bare := by simp [RouteTable.empty]

section
variable {r r' : RouteRegistry} {T T' : RouteTable}

/-- A key has no pool exactly when its row is empty. -/
theorem RouteRegistry.Refines.poolAt_eq_none (h : r.Refines T) :
    r.byURI.poolAt k = none ↔ ∀ a, T.entries k a = none := by
  constructor
  · intro hk a
    by_cases ha : IsAddress a
    · rw [h.entries k a ha, hk]
      rfl
    · exact h.bare k a ha
  · intro hrow
    by_contra hne
    obtain ⟨p, hp⟩ := Option.ne_none_iff_exists'.mp hne
    obtain ⟨hsound, hfull⟩ := h.pools k p hp
    have hempty : p.isEmpty = true := by
      refine hsound.isEmpty_iff.mpr fun a ha => ?_
      have := h.entries k a ha
      rw [hrow, hp, Option.bind_some, eq_comm, Option.map_eq_none_iff] at this
      exact this
    rw [hfull] at hempty
    cases hempty

theorem RouteRegistry.Refines.canonicalAddr (h : r.Refines T) (he : T.entries k a = some e) :
    e.endpoint.canonicalAddr = a := by
  by_cases ha : IsAddress a
  · rw [h.entries k a ha, Option.bind_eq_some_iff] at he
    obtain ⟨p, hp, he⟩ := he
    obtain ⟨f, hf, rfl⟩ := Option.map_eq_some_iff.mp he
    exact ((h.pools k p hp).1.addressed ha hf).2
  · rw [h.bare k a ha] at he
    cases he

theorem RouteRegistry.Refines.row (h : r.Refines T) (hp : r.byURI.poolAt k = some p) (a : Str)
    (ha : IsAddress a) :
    T.entries k a = (p.elemAt a).map EndpointElem.entry := by
  rw [h.entries k a ha, hp, Option.bind_some]

theorem RouteRegistry.Refines.mem_addresses (h : r.Refines T)
    (hp : r.byURI.poolAt k = some p) (a : Str) :
    a ∈ p.addresses ↔ T.entries k a ≠ none := by
  rw [(h.pools k p hp).1.mem_addresses]
  by_cases ha : IsAddress a
  · rw [h.row hp a ha, ← Option.isSome_iff_ne_none, Option.isSome_map]
    exact and_iff_right ha
  · simp [ha, h.bare k a ha]

theorem RouteRegistry.Refines.at_key (h : r.Refines T) {byURI : Trie Route.Pool} (key : List Str)
    (pool : Option Route.Pool) (htrim : byURI.Trimmed)
    (hpools : ∀ k, byURI.poolAt k = if k = key then pool else r.byURI.poolAt k)
    (hsound : ∀ p ∈ pool, p.Sound IsAddress ∧ p.isEmpty = false)
    (hstatus : T'.suspended = T.suspended) (hthreshold : T'.threshold = T.threshold)
    (hkey : ∀ a, IsAddress a → T'.entries key a = pool.bind fun p =>
      (p.elemAt a).map EndpointElem.entry)
    (hother : ∀ k a, k ≠ key ∨ ¬ IsAddress a → T'.entries k a = T.entries k a) :
    RouteRegistry.Refines { r with byURI := byURI } T' where
  status := by rw [hstatus]; exact h.status
  threshold := by rw [hthreshold]; exact h.threshold
  trimmed := htrim
  pools := by
    intro k p hp
    rw [hpools] at hp
    split at hp
    · exact hsound p hp
    · exact h.pools k p hp
  entries := by
    intro k a ha
    rw [hpools]
    split
    · next hk => rw [hk, hkey a ha]
    · next hk => rw [hother k a (.inl hk), h.entries k a ha]
  bare := fun k a ha => (hother k a (.inr ha)).trans (h.bare k a ha)

theorem entry_putElem (now : Int) (endpoint : Endpoint) (length : Nat) (e : Option EndpointElem) :
    (putElem now endpoint length e).entry =
      RouteTable.put now endpoint (e.map EndpointElem.entry) := by
  cases e with
  | none => rfl
  | some e =>
    simp only [putElem, RouteTable.put, Option.map_some, EndpointElem.entry]
    split
    · split <;> rfl
    · rfl

theorem RouteRegistry.Refines.put (h : r.Refines T)
    (hid : ¬ IsAddress endpoint.privateInstanceId) (now : Int) {p : Route.Pool}
    (hp : p.Sound IsAddress) {byURI : Trie Route.Pool} (htrim : byURI.Trimmed)
    (hpools : ∀ k, byURI.poolAt k = if k = key then some p else r.byURI.poolAt k)
    (hrow : ∀ a, IsAddress a → T.entries key a = (p.elemAt a).map EndpointElem.entry) :
    ∃ p' added, p.put now endpoint = some (p', added) ∧
      (T.entries key endpoint.canonicalAddr = none → added = true) ∧
      RouteRegistry.Refines { r with byURI := byURI.setPool key (some p') }
        (T.register key endpoint now) := by
  have ha := isAddress_canonicalAddr endpoint
  obtain ⟨p', added, hput, hsound, helems, hadded⟩ := hp.put ⟨ha, hid⟩ now
  have hmem : key ∈ byURI.nodes := Trie.mem_of_poolAt (v := p) (by rw [hpools, if_pos rfl])
  refine ⟨p', added, hput, fun hnone => hadded ?_, ?_⟩
  · rw [hrow _ ha, Option.map_eq_none_iff] at hnone
    exact hnone
  refine h.at_key key (some p') ?_ (fun k => ?_) ?_ rfl rfl (fun a haddr => ?_) fun k a hka => ?_
  · intro q hq
    rw [Trie.mem_setPool] at hq
    rw [Trie.poolAt_setPool hmem]
    split
    · exact .inl (by simp)
    · exact (htrim q hq).imp id fun ⟨s, hs⟩ => ⟨s, Trie.mem_setPool.mpr hs⟩
  · rw [Trie.poolAt_setPool hmem, hpools]
    split
    · rfl
    · rfl
  · rintro q ⟨⟩
    refine ⟨hsound, ?_⟩
    by_contra hempty
    have := hsound.isEmpty_iff.mp (by simpa using hempty) _ ha
    rw [helems _ ha, if_pos rfl] at this
    cases this
  · rw [Option.bind_some, helems a haddr]
    simp only [RouteTable.register, true_and]
    split
    · next hac =>
      subst hac
      rw [Option.map_some, entry_putElem, hrow _ ha]
    · exact hrow a haddr
  · simp only [RouteTable.register]
    rw [if_neg]
    rintro ⟨rfl, rfl⟩
    exact hka.elim (fun hk => hk rfl) fun hna => hna ha

theorem RouteRegistry.Refines.register (h : r.Refines T)
    (hid : ¬ IsAddress (Endpoint.privateInstanceId endpoint)) :
    ∃ r' reqs, r.register lower now uri endpoint = (r.sendAll reqs).map (r', ·) ∧
      r'.listener = r.listener ∧
      r'.Refines (T.register (segments (uri.routeKey lower)) endpoint now) ∧
      reqs = if T.entries (segments (uri.routeKey lower)) endpoint.canonicalAddr = none then
        [⟨segments (uri.routeKey lower), .add, uri.routeKey lower, endpoint⟩] else [] := by
  generalize hkey : segments (uri.routeKey lower) = key
  have ha := isAddress_canonicalAddr endpoint
  have hfind : r.byURI.find (uri.routeKey lower) = r.byURI.poolAt key := by rw [Trie.find_eq, hkey]
  have hsend : ∀ {added known : Bool},
      (T.entries key endpoint.canonicalAddr = none → added = true) →
      (known = true ↔ T.entries key endpoint.canonicalAddr = none) →
      r.updateIf (added && known) key .add (uri.routeKey lower) endpoint =
        r.sendAll (if T.entries key endpoint.canonicalAddr = none then
          [⟨key, .add, uri.routeKey lower, endpoint⟩] else []) := by
    intro added known hadded hknown
    have hboth : (added && known) = decide (T.entries key endpoint.canonicalAddr = none) := by
      rw [Bool.eq_iff_iff, Bool.and_eq_true, decide_eq_true_eq, hknown]
      exact ⟨And.right, fun hnone => ⟨hadded hnone, hnone⟩⟩
    rw [hboth, updateIf_eq]
    simp only [decide_eq_true_eq]
  cases hp : r.byURI.poolAt key with
  | none =>
    have hrow := h.poolAt_eq_none.mp hp
    have hins := fun k => Trie.poolAt_insert (t := r.byURI) (x := k) (uri.routeKey lower)
      (newPool (r.dropletStaleThreshold / 4) (parseContextPath uri))
    rw [hkey] at hins
    obtain ⟨p', added, hput, hadded, href⟩ := h.put hid now (newPool_sound IsAddress)
      (h.trimmed.insert (uri.routeKey lower) _) hins (by simp [hrow, newPool, Pool.elemAt])
    refine ⟨_, _, ?_, ?_, href, rfl⟩
    · simp only [RouteRegistry.register, hfind, hp, hkey, hput, bind, Option.bind_some]
      rw [hsend hadded (by simp [hrow])]
      exact (Option.map_eq_bind ..).symm
    · rfl
  | some p =>
    obtain ⟨hsound, -⟩ := h.pools key p hp
    have hrow := h.row hp
    have hpools : ∀ k, r.byURI.poolAt k = if k = key then some p else r.byURI.poolAt k := by
      intro k
      split
      · next hk => rw [hk, hp]
      · rfl
    obtain ⟨p', added, hput, hadded, href⟩ := h.put hid now hsound h.trimmed hpools hrow
    refine ⟨_, _, ?_, ?_, href, rfl⟩
    · simp only [RouteRegistry.register, hfind, hp, hkey, hput, bind, Option.bind_some]
      rw [hsend hadded (by simp [Pool.findById, hrow _ ha])]
      exact (Option.map_eq_bind ..).symm
    · rfl

theorem RouteRegistry.Refines.unregister (h : r.Refines T) :
    ∃ r' reqs, r.unregister lower uri endpoint = (r.sendAll reqs).map (r', ·) ∧
      r'.listener = r.listener ∧
      r'.Refines (T.unregister (segments (uri.routeKey lower)) endpoint) ∧
      reqs = if RouteTable.removes endpoint
        (T.entries (segments (uri.routeKey lower)) endpoint.canonicalAddr) then
        [⟨segments (uri.routeKey lower), .remove, uri.routeKey lower, endpoint⟩] else [] := by
  generalize hkey : segments (uri.routeKey lower) = key
  have ha := isAddress_canonicalAddr endpoint
  simp only [RouteRegistry.unregister, Trie.find_eq, hkey]
  cases hp : r.byURI.poolAt key with
  | none =>
    have hrow := h.poolAt_eq_none.mp hp
    have hsame : T.unregister key endpoint = T := by
      simp only [RouteTable.unregister]
      congr 1
      funext k a
      split
      · next hka =>
        rw [hka.1, hrow]
      · rfl
    exact ⟨r, [], rfl, rfl, by rwa [hsame], by simp [hrow, RouteTable.removes]⟩
  | some p =>
    obtain ⟨hsound, -⟩ := h.pools key p hp
    have hrow := h.row hp
    have hmem := Trie.mem_of_poolAt hp
    obtain ⟨p', removed, hremove, hsound', hremoved, hentries⟩ := hsound.remove ha
    have hrem : removed = RouteTable.removes endpoint (T.entries key endpoint.canonicalAddr) := by
      rw [hremoved, hrow _ ha, RouteTable.removes, Option.any_map]
      rfl
    have hrow' : ∀ a, IsAddress a →
        (T.unregister key endpoint).entries key a = (p'.elemAt a).map EndpointElem.entry := by
      intro a haddr
      rw [hentries a haddr, ← hrow a haddr]
      simp only [RouteTable.unregister, true_and, hrem]
      by_cases hac : a = endpoint.canonicalAddr
      · subst hac
        simp
      · simp [hac]
    have hother : ∀ k a, k ≠ key ∨ ¬ IsAddress a →
        (T.unregister key endpoint).entries k a = T.entries k a := by
      intro k a hka
      simp only [RouteTable.unregister]
      rw [if_neg]
      rintro ⟨rfl, rfl, -⟩
      exact hka.elim (fun hk => hk rfl) fun hna => hna ha
    have htrim : (r.byURI.setPool key (some p')).Trimmed := by
      intro q hq
      rw [Trie.mem_setPool] at hq
      rw [Trie.poolAt_setPool hmem]
      split
      · exact .inl (by simp)
      · exact (h.trimmed q hq).imp id fun ⟨s, hs⟩ => ⟨s, Trie.mem_setPool.mpr hs⟩
    have hset : ∀ k, (r.byURI.setPool key (some p')).poolAt k = if k = key then some p'
        else r.byURI.poolAt k :=
      fun k => Trie.poolAt_setPool hmem
    simp only [hremove, bind, Option.bind_some, hrem, updateIf_eq, Trie.deleteIf]
    cases hempty : p'.isEmpty with
    | true =>
      have hfind : (r.byURI.setPool key (some p')).find (uri.routeKey lower) = some p' := by
        rw [Trie.find_eq, hkey, hset, if_pos rfl]
      obtain ⟨t', ht', htrim', hpools'⟩ := htrim.delete hfind
      rw [hkey] at hpools'
      refine ⟨{ r with byURI := t' }, _, ?_, rfl, ?_, rfl⟩
      · simp only [if_true, ht', Option.bind_some]
        exact (Option.map_eq_bind ..).symm
      · refine h.at_key _ none htrim' (fun k => ?_) (by simp) rfl rfl (fun a haddr => ?_) hother
        · rw [hpools', hset]
          split
          · rfl
          · rfl
        · rw [hrow' a haddr, hsound'.isEmpty_iff.mp hempty a haddr]
          rfl
    | false =>
      refine ⟨{ r with byURI := r.byURI.setPool key (some p') }, _, ?_, rfl, ?_, rfl⟩
      · simp only [Bool.false_eq_true, if_false, Option.bind_some]
        exact (Option.map_eq_bind ..).symm
      · refine h.at_key _ (some p') htrim hset ?_ rfl rfl hrow' hother
        rintro q ⟨⟩
        exact ⟨hsound', hempty⟩

theorem RouteRegistry.Refines.pruneNode (h : r.Refines T) (now : List Str → Int) (node : List Str) :
    ∃ r' reqs, r.pruneNode (now node) node = (r.sendAll reqs).map (r', ·) ∧
      r'.listener = r.listener ∧
      r'.Refines (T.expire (· = node) now) ∧
      (reqs.map fun q => (q.node, q.endpoint.canonicalAddr)).Nodup ∧
      ∀ q, q ∈ reqs ↔ q.node = node ∧ q.op = .remove ∧ q.uri = toPath node ∧
        ∃ e, T.entries node q.endpoint.canonicalAddr = some e ∧ e.endpoint = q.endpoint ∧
          e.stale T.threshold (now node) = true := by
  simp only [RouteRegistry.pruneNode]
  cases hp : r.byURI.poolAt node with
  | none =>
    have hrow := h.poolAt_eq_none.mp hp
    have hsame : T.expire (· = node) now = T := by
      simp only [RouteTable.expire]
      congr 1
      funext k a
      split
      · next hk => rw [hk, hrow, Option.filter_none]
      · rfl
    refine ⟨r, [], rfl, rfl, by rwa [hsame], by simp, fun q => iff_of_false (by simp) ?_⟩
    rintro ⟨-, -, -, e, he, -⟩
    rw [hrow] at he
    cases he
  | some p =>
    obtain ⟨hsound, -⟩ := h.pools node p hp
    have hrow := h.row hp
    have hmem := Trie.mem_of_poolAt hp
    obtain ⟨p', pruned, hprune, hsound', hentries, hnodup, hpruned⟩ :=
      hsound.pruneEndpoints r.dropletStaleThreshold (now node)
    rw [h.threshold] at hprune hentries hpruned
    have hset : ∀ k, (r.byURI.setPool node (some p')).poolAt k = if k = node then some p'
        else r.byURI.poolAt k :=
      fun k => Trie.poolAt_setPool hmem
    have hfull : ∀ q v, q ≠ node → (r.byURI.setPool node (some p')).poolAt q = some v →
        v.isEmpty = false := by
      intro q v hq hv
      rw [hset, if_neg hq] at hv
      exact (h.pools q v hv).2
    have htrimmed : (r.byURI.setPool node (some p')).TrimmedBut node := by
      intro q hq hne
      rw [Trie.mem_setPool] at hq
      rw [hset, if_neg hne]
      exact (h.trimmed q hq).imp id fun ⟨s, hs⟩ => ⟨s, Trie.mem_setPool.mpr hs⟩
    obtain ⟨htrim, hpools⟩ :=
      Trie.snip_spec Pool.isEmpty hfull htrimmed (Trie.mem_setPool.mpr hmem)
    have hrow' : ∀ a, IsAddress a → (T.expire (· = node) now).entries node a =
        (p'.elemAt a).map EndpointElem.entry := by
      intro a haddr
      rw [hentries a haddr]
      simp only [RouteTable.expire, if_true, hrow a haddr]
      cases p.elemAt a with
      | none => rfl
      | some e =>
        simp only [Option.map_some, Option.filter_some, EndpointElem.stale]
        split <;> rfl
    refine ⟨{ r with byURI := (r.byURI.setPool node (some p')).snip Pool.isEmpty node },
      pruned.map fun e => ⟨node, .remove, toPath node, e⟩, ?_, rfl, ?_, ?_, fun q => ?_⟩
    · simp only [h.threshold, hprune, bind, Option.bind_some, RouteRegistry.sendAll, List.mapM_map,
        Option.map_eq_bind, Option.bind_assoc]
      rfl
    · refine h.at_key node ((some p').filter (!Pool.isEmpty ·)) htrim (fun k => ?_) ?_ rfl rfl
        (fun a haddr => ?_) fun k a hka => ?_
      · rw [hpools, hset]
        split
        · rfl
        · next hk => exact Trie.filter_full fun v hv => (h.pools k v hv).2
      · intro q hq
        obtain ⟨hq, hfull⟩ := Option.filter_eq_some_iff.mp hq
        cases hq
        exact ⟨hsound', by simpa using hfull⟩
      · rw [hrow' a haddr, Option.filter_some]
        split
        · rfl
        · next hempty =>
          rw [hsound'.isEmpty_iff.mp (by simpa using hempty) a haddr]
          rfl
      · simp only [RouteTable.expire]
        split
        · next hk =>
          rcases hka with hne | hna
          · exact absurd hk hne
          · rw [h.bare k a hna, Option.filter_none]
        · rfl
    · rw [List.map_map]
      refine List.Nodup.of_map Prod.snd ?_
      rwa [List.map_map]
    · rw [List.mem_map]
      constructor
      · rintro ⟨x, hx, rfl⟩
        obtain ⟨ha, e, he, hex, hst⟩ := (hpruned x).mp hx
        exact ⟨rfl, rfl, rfl, e.entry, by rw [hrow _ ha, he, Option.map_some], hex, hst⟩
      · rintro ⟨hn, hop, huri, e, he, hex, hst⟩
        have ha := isAddress_canonicalAddr q.endpoint
        rw [hrow _ ha, Option.map_eq_some_iff] at he
        obtain ⟨f, hf, rfl⟩ := he
        refine ⟨q.endpoint, (hpruned _).mpr ⟨ha, f, hf, hex, hst⟩, ?_⟩
        cases q
        simp_all

theorem expire_expire (T : RouteTable) (node : List Str) (nodes : List (List Str))
    (now : List Str → Int) (hne : node ∉ nodes) :
    (T.expire (· = node) now).expire (· ∈ nodes) now = T.expire (· ∈ node :: nodes) now := by
  simp only [RouteTable.expire, List.mem_cons]
  congr 1
  funext k a
  by_cases hk : k = node
  · subst hk
    simp [hne]
  · simp [hk]

theorem RouteRegistry.Refines.pruneNodes (h : r.Refines T) (now : List Str → Int)
    (nodes : List (List Str)) (hnd : nodes.Nodup) :
    ∃ r' reqs, RouteRegistry.pruneNodes now nodes r = (r.sendAll reqs).map (r', ·) ∧
      r'.listener = r.listener ∧
      r'.Refines (T.expire (· ∈ nodes) now) ∧
      (reqs.map fun q => (q.node, q.endpoint.canonicalAddr)).Nodup ∧
      ∀ q, q ∈ reqs ↔ q.node ∈ nodes ∧ q.op = .remove ∧ q.uri = toPath q.node ∧
        ∃ e, T.entries q.node q.endpoint.canonicalAddr = some e ∧ e.endpoint = q.endpoint ∧
          e.stale T.threshold (now q.node) = true := by
  induction nodes generalizing r T with
  | nil =>
    refine ⟨r, [], rfl, rfl, ?_, by simp, by simp⟩
    simpa [RouteTable.expire] using h
  | cons node nodes ih =>
    obtain ⟨hnot, hnd⟩ := List.nodup_cons.mp hnd
    obtain ⟨r₁, reqs₁, hcall₁, hl₁, h₁, hnd₁, hmem₁⟩ := h.pruneNode now node
    obtain ⟨r₂, reqs₂, hcall₂, hl₂, h₂, hnd₂, hmem₂⟩ := ih h₁ hnd
    refine ⟨r₂, reqs₁ ++ reqs₂, ?_, hl₂.trans hl₁, ?_, ?_, fun q => ?_⟩
    · rw [sendAll_append, RouteRegistry.pruneNodes, hcall₁]
      cases r.sendAll reqs₁ with
      | none => rfl
      | some sent =>
        simp only [Option.map_some, bind, Option.bind_some, hcall₂, sendAll_congr hl₁]
        cases r.sendAll reqs₂ <;> rfl
    · rwa [expire_expire T node nodes now hnot] at h₂
    · rw [List.map_append, List.nodup_append]
      refine ⟨hnd₁, hnd₂, fun x hx y hy hxy => ?_⟩
      obtain ⟨q, hq, rfl⟩ := List.mem_map.mp hx
      obtain ⟨q', hq', rfl⟩ := List.mem_map.mp hy
      have hn := ((hmem₁ q).mp hq).1
      have hn' := ((hmem₂ q').mp hq').1
      rw [← (Prod.mk.inj hxy).1, hn] at hn'
      exact hnot hn'
    · rw [List.mem_append, hmem₁, hmem₂, List.mem_cons]
      by_cases hq : q.node = node
      · subst hq
        simp [hnot]
      · simp only [hq, false_and, false_or, RouteTable.expire, if_false]

theorem RouteRegistry.Refines.resume (h : r.Refines T) (fresh : Int) :
    (r.resume fresh).Refines (T.resume fresh) := by
  simp only [RouteRegistry.resume]
  by_cases hs : T.suspended = true
  · rw [if_pos (h.status.mpr hs), RouteTable.resume, if_pos hs]
    have hpools : ∀ k, (r.byURI.eachPool (·.markUpdated fresh)).poolAt k =
        (r.byURI.poolAt k).map (·.markUpdated fresh) :=
      fun k => Trie.poolAt_eachPool _
    constructor
    · simp
    · exact h.threshold
    · intro k hk
      rw [RouteRegistry.freshenRoutes, hpools]
      refine (h.trimmed k ((Trie.mem_eachPool _).mp hk)).imp (fun hne => ?_) fun ⟨s, hs⟩ =>
        ⟨s, (Trie.mem_eachPool _).mpr hs⟩
      simpa using hne
    · intro k p hp
      rw [RouteRegistry.freshenRoutes, hpools, Option.map_eq_some_iff] at hp
      obtain ⟨p, hp, rfl⟩ := hp
      obtain ⟨hsound, hfull⟩ := h.pools k p hp
      exact ⟨(hsound.markUpdated fresh).1, hfull⟩
    · intro k a ha
      simp only [RouteRegistry.freshenRoutes, hpools, h.entries k a ha]
      cases hp : r.byURI.poolAt k with
      | none => rfl
      | some p =>
        rw [Option.bind_some, Option.map_some, Option.bind_some,
          ((h.pools k p hp).1.markUpdated fresh).2 a ha, Option.map_map, Option.map_map]
        rfl
    · intro k a ha
      simp only [h.bare k a ha, Option.map_none]
  · rw [if_neg (mt h.status.mp hs), RouteTable.resume, if_neg hs]
    exact ⟨by simp [hs], h.threshold, h.trimmed, h.pools, h.entries, h.bare⟩

theorem expire_all {nodes : List (List Str)} (h : r.Refines T)
    (hnodes : ∀ k, k ∈ nodes ↔ ∃ p, r.byURI.poolAt k = some p) (now : List Str → Int) :
    T.expire (· ∈ nodes) now = T.expire (fun _ => True) now := by
  simp only [RouteTable.expire, if_true]
  congr 1
  funext k a
  split
  · rfl
  · next hk =>
    have hnone : r.byURI.poolAt k = none := by
      by_contra hne
      exact hk ((hnodes k).mpr (Option.ne_none_iff_exists'.mp hne))
    rw [h.poolAt_eq_none.mp hnone a, Option.filter_none]

theorem RouteRegistry.Refines.prune (h : r.Refines T) (suspended : Bool) (fresh : Int)
    (now : List Str → Int) (order : Order) :
    ∃ r' reqs, r.pruneStaleDroplets suspended fresh now order = (r.sendAll reqs).map (r', ·) ∧
      r'.listener = r.listener ∧ r'.Refines (T.call lower (.prune suspended fresh now order)) ∧
      T.Asks lower reqs (.prune suspended fresh now order) := by
  simp only [RouteRegistry.pruneStaleDroplets, RouteTable.call, RouteTable.Asks]
  cases suspended with
  | true =>
    refine ⟨{ r with pruningStatus := .disconnected }, [], rfl, rfl, ?_, by simp, by simp⟩
    exact ⟨by simp, h.threshold, h.trimmed, h.pools, h.entries, h.bare⟩
  | false =>
    simp only [Bool.false_eq_true, if_false, true_and]
    have h₁ := h.resume fresh
    have hl₁ : (r.resume fresh).listener = r.listener := by
      simp only [RouteRegistry.resume]
      split <;> rfl
    generalize r.resume fresh = r₁ at *
    have hnodes : ∀ k, k ∈ order.visit r₁.byURI.nodesWithPool ↔
        ∃ p, r₁.byURI.poolAt k = some p := by
      intro k
      rw [(order.perm _).mem_iff]
      exact Trie.mem_nodesWithPool
    obtain ⟨r', reqs, hcall, hl, h', hnd, hmem⟩ :=
      h₁.pruneNodes now (order.visit r₁.byURI.nodesWithPool)
      ((order.perm _).nodup_iff.mpr Trie.nodesWithPool_nodup)
    rw [expire_all h₁ hnodes] at h'
    refine ⟨r', reqs, by rw [hcall, sendAll_congr hl₁], hl.trans hl₁, h', hnd, fun q => ?_⟩
    rw [hmem, T.resume_threshold, hnodes]
    refine ⟨And.right, fun hq => ⟨?_, hq⟩⟩
    obtain ⟨-, -, e, he, -⟩ := hq
    by_contra hno
    have hnone : r₁.byURI.poolAt q.node = none := by
      by_contra hne
      exact hno (Option.ne_none_iff_exists'.mp hne)
    rw [h₁.poolAt_eq_none.mp hnone] at he
    cases he

/-- Every call takes the registry and the table to related states, and asks
for the updates that the table says. -/
theorem RouteRegistry.Refines.call (h : r.Refines T) (lower : Lower)
    (hid : ∀ e ∈ Call.endpoint c, ¬ IsAddress e.privateInstanceId) :
    ∃ r' reqs, r.call lower c = (r.sendAll reqs).map (r', ·) ∧ r'.listener = r.listener ∧
      r'.Refines (T.call lower c) ∧ T.Asks lower reqs c := by
  cases c with
  | register uri endpoint now => exact h.register (hid endpoint rfl)
  | unregister uri endpoint => exact h.unregister
  | prune suspended fresh now order => exact h.prune suspended fresh now order

theorem RouteRegistry.Refines.step (h : r.Refines T) (lower : Lower)
    (hid : ∀ e ∈ Call.endpoint c, ¬ IsAddress e.privateInstanceId) (sent : List Sent) :
    ∃ r' reqs, RouteRegistry.step lower (r, sent) c =
      (r.sendAll reqs).map (fun new => (r', sent ++ new)) ∧
      r'.listener = r.listener ∧ r'.Refines (T.call lower c) ∧ T.Asks lower reqs c := by
  obtain ⟨r', reqs, hcall, hl, h', hasks⟩ := h.call lower hid
  refine ⟨r', reqs, ?_, hl, h', hasks⟩
  rw [RouteRegistry.step, hcall, Option.map_map]
  rfl

-- ---------------------------------------------------------------------------
-- Runs
-- ---------------------------------------------------------------------------

theorem run_refines (h : r.Refines T)
    (hids : ∀ c ∈ calls, ∀ e ∈ Call.endpoint c, ¬ IsAddress e.privateInstanceId)
    (hrun : run (RouteRegistry.step lower) (r, sent) calls = some (r', sent')) :
    r'.Refines (calls.foldl (RouteTable.call lower) T) := by
  induction calls generalizing r T sent with
  | nil =>
    cases hrun
    exact h
  | cons c calls ih =>
    obtain ⟨⟨r₁, sent₁⟩, hstep, hrun⟩ := run_cons_eq_some.mp hrun
    obtain ⟨r₂, reqs, hcall, -, h₂, -⟩ := h.step lower (hids c List.mem_cons_self) sent
    rw [hcall, Option.map_eq_some_iff] at hstep
    obtain ⟨new, -, ⟨⟩⟩ := hstep
    exact ih h₂ (fun c hc => hids c (List.mem_cons_of_mem _ hc)) hrun

theorem run_quiet (h : r.Refines T) (hl : r.listener = false)
    (hids : ∀ c ∈ calls, ∀ e ∈ Call.endpoint c, ¬ IsAddress e.privateInstanceId) :
    (run (RouteRegistry.step lower) (r, sent) calls).isSome = true := by
  induction calls generalizing r T sent with
  | nil => rfl
  | cons c calls ih =>
    obtain ⟨r₁, reqs, hcall, hl₁, h₁, -⟩ := h.step lower (hids c List.mem_cons_self) sent
    obtain ⟨new, hnew⟩ := Option.isSome_iff_exists.mp (sendAll_quiet hl reqs)
    rw [run_cons, hcall, hnew, Option.map_some, Option.bind_some]
    exact ih h₁ (hl₁.trans hl) fun c hc => hids c (List.mem_cons_of_mem _ hc)

theorem RouteRegistry.Refines.numUris (h : r.Refines T) :
    {k | ∃ a, T.entries k a ≠ none}.encard = r.numUris := by
  have hset : {k | ∃ a, T.entries k a ≠ none} = ↑r.byURI.nodesWithPool.toFinset := by
    ext k
    rw [Set.mem_ofPred_eq, Finset.mem_coe, List.mem_toFinset, Trie.mem_nodesWithPool,
      ← Option.ne_none_iff_exists', ne_eq, h.poolAt_eq_none, not_forall]
  rw [hset, Set.encard_coe_eq_coe_finsetCard, List.toFinset_card_of_nodup Trie.nodesWithPool_nodup]
  rfl

/-- The registry refines the table: a route is found exactly when its row is
not empty, with exactly the addresses of the row, no pool is empty, no branch
is dead, and the routes are counted. -/
theorem registry_refines_table (lower : Lower) (threshold : Int64) (listener : Bool)
    (calls : List Call) (hids : ∀ c ∈ calls, ∀ e ∈ c.endpoint, ¬ IsAddress e.privateInstanceId) :
    (listener = false →
      (run (RouteRegistry.step lower) (newRouteRegistry threshold listener, []) calls).isSome =
        true) ∧
    ∀ r sent, run (RouteRegistry.step lower) (newRouteRegistry threshold listener, []) calls =
      some (r, sent) →
      let T := calls.foldl (RouteTable.call lower) (.empty threshold)
      (∀ u, r.lookupWithoutWildcard lower u = none ↔
        ∀ a, T.entries (segments (u.routeKey lower)) a = none) ∧
      (∀ u p, r.lookupWithoutWildcard lower u = some p → p.addresses.Nodup ∧
        ∀ a, a ∈ p.addresses ↔ T.entries (segments (u.routeKey lower)) a ≠ none) ∧
      (∀ k p, r.byURI.poolAt k = some p → p.isEmpty = false) ∧
      (∀ k ∈ r.byURI.nodes, r.byURI.isLeaf k = true → r.byURI.poolAt k ≠ none) ∧
      {k | ∃ a, T.entries k a ≠ none}.encard = r.numUris := by
  have h₀ := newRouteRegistry_refines threshold listener
  refine ⟨fun hl => run_quiet h₀ hl hids, fun r sent hrun => ?_⟩
  have h := run_refines h₀ hids hrun
  refine ⟨fun u => ?_, fun u p hp => ?_, fun k p hp => (h.pools k p hp).2,
    fun k hk hleaf => ?_, h.numUris⟩
  · rw [RouteRegistry.lookupWithoutWildcard, Trie.find_eq]
    exact h.poolAt_eq_none
  · rw [RouteRegistry.lookupWithoutWildcard, Trie.find_eq] at hp
    exact ⟨(h.pools _ p hp).1.addresses_nodup, h.mem_addresses hp⟩
  · rcases h.trimmed k hk with hp | ⟨s, hs⟩
    · exact hp
    · exact absurd hs (Trie.isLeaf_iff.mp hleaf s)

end

namespace Sample

def backend (port : UInt16) : Endpoint :=
  { ptr := port.toNat
    applicationId := []
    address := "10.0.0.1".toList
    port := port
    privateInstanceId := "id".toList }

def calls : List Call :=
  [.register "A.b/c".toList (backend 1) 0, .register "a.b".toList (backend 2) 9,
    .prune false 0 (fun _ => 11) Order.stored, .unregister "a.b".toList (backend 2),
    .register "a.b/d".toList (backend 1) 12]

theorem not_isAddress (port : UInt16) : ¬ IsAddress (backend port).privateInstanceId := by
  intro h
  exact absurd h.colon_mem (by simp [backend])

end Sample

theorem registry_refines_table_sample :
    ∃ r sent, run (RouteRegistry.step Lower.asciiOnly)
      (newRouteRegistry 10 false, []) Sample.calls = some (r, sent) ∧
      r.numUris = {k | ∃ a,
        (Sample.calls.foldl (RouteTable.call Lower.asciiOnly) (.empty 10)).entries k a ≠
          none}.encard := by
  have hids : ∀ c ∈ Sample.calls, ∀ e ∈ c.endpoint, ¬ IsAddress e.privateInstanceId := by
    intro c hc e he
    simp only [Sample.calls, List.mem_cons, List.not_mem_nil, or_false] at hc
    rcases hc with rfl | rfl | rfl | rfl | rfl
    all_goals
      cases he
      try exact Sample.not_isAddress _
  obtain ⟨hreturns, hall⟩ := registry_refines_table Lower.asciiOnly 10 false Sample.calls hids
  obtain ⟨⟨r, sent⟩, hrun⟩ := Option.isSome_iff_exists.mp (hreturns rfl)
  exact ⟨r, sent, hrun, (hall r sent hrun).2.2.2.2.symm⟩

end BigipCtlr.Registry
