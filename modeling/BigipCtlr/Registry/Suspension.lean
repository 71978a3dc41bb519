import BigipCtlr.Registry.Table
import BigipCtlr.Route.Pruning

/-!
# Suspended pruning

While the message bus is down nothing is pruned, and when it is back every
endpoint counts as just updated. A log of a run says when each endpoint was last
registered and when pruning last resumed, and an endpoint is pruned only after
its threshold since the later of the two.
-/

namespace BigipCtlr.Registry

open Go Lib Route

-- ---------------------------------------------------------------------------
-- The log of a run
-- ---------------------------------------------------------------------------

def RouteRegistry.accepts (lower : Lower) (r : RouteRegistry) (uri : Uri) (endpoint : Endpoint)
    (now : Int) : Bool :=
  let pool := (r.byURI.find (uri.routeKey lower)).getD
    (newPool (r.dropletStaleThreshold / 4) (parseContextPath uri))
  (pool.put now endpoint).any Prod.snd

structure Log where
  /-- The last accepted registration of an endpoint for a route. -/
  registered : List Str → Endpoint → Option Int
  /-- The last resumption. -/
  resumed : Option Int
  /-- Whether the last cycle was suspended. -/
  down : Bool
  /-- The readings of the clock. -/
  readings : List Int

def Log.start : Log := ⟨fun _ _ => none, none, false, []⟩

def RouteRegistry.cycleReadings (r : RouteRegistry) (down : Bool) (fresh : Int)
    (now : List Str → Int) (order : Order) :
    List Int :=
  (if down then [fresh] else []) ++ (order.visit (r.resume fresh).byURI.nodesWithPool).map now

def Log.note (lower : Lower) (log : Log) (r : RouteRegistry) : Call → Log
  | .register uri endpoint now =>
    { log with
      registered := fun k e =>
        if k = segments (uri.routeKey lower) ∧ e = endpoint ∧
          r.accepts lower uri endpoint now = true then some now
        else log.registered k e
      readings := log.readings ++ [now] }
  | .unregister .. => log
  | .prune true _ _ _ => { log with down := true }
  | .prune false fresh now order =>
    { log with
      resumed := if log.down then some fresh else log.resumed
      down := false
      readings := log.readings ++ r.cycleReadings log.down fresh now order }

def RouteRegistry.observe (lower : Lower) (s : (RouteRegistry × List Sent) × Log) (c : Call) :
    Option ((RouteRegistry × List Sent) × Log) :=
  (RouteRegistry.step lower s.1 c).map fun t => (t, s.2.note lower s.1.1 c)

def latest (t : Int) (resumed : Option Int) : Int := resumed.elim t (max t)

-- ---------------------------------------------------------------------------
-- What a cycle prunes
-- ---------------------------------------------------------------------------

def RouteRegistry.endpointsAt (r : RouteRegistry) (k : List Str) : List Endpoint :=
  (r.byURI.poolAt k).elim [] fun p => p.members.map Entry.endpoint

/-- What `PruneEndpoints` removes at a node in a cycle that is not suspended. -/
def RouteRegistry.prunedAt (r : RouteRegistry) (fresh : Int) (now : List Str → Int) (k : List Str) :
    List Endpoint :=
  (((r.resume fresh).byURI.poolAt k).bind (·.pruneEndpoints r.dropletStaleThreshold (now k))).elim
    [] Prod.snd

def RouteRegistry.thresholdOf (r : RouteRegistry) (e : Endpoint) : Int :=
  ((Entry.mk e 0).effectiveThreshold r.dropletStaleThreshold).toInt

/-- A threshold that is its own negation prunes less than it says. -/
theorem overdue_of_stale {m : Entry} (h : m.stale threshold now = true) :
    m.Overdue threshold now := by
  by_cases hmin : threshold = Int64.minValue
  · subst hmin
    have hnot : ¬ m.endpoint.staleThreshold < Int64.minValue :=
      Int64.not_lt.mpr (Int64.minValue_le _)
    have heff : m.effectiveThreshold Int64.minValue = Int64.minValue :=
      if_neg fun hless => hnot hless.2
    simp only [Entry.stale, heff, decide_eq_true_eq] at h
    rw [Entry.Overdue, heff]
    have hneg : (-Int64.minValue).toInt = -9223372036854775808 := by decide
    have hval : Int64.minValue.toInt = -9223372036854775808 := by decide
    rw [hneg] at h
    rw [hval]
    omega
  · rw [Entry.stale_eq m hmin] at h
    exact of_decide_eq_true h

section
variable {r r' : RouteRegistry} {T : RouteTable}

theorem RouteRegistry.Refines.mem_endpointsAt (h : r.Refines T) :
    e ∈ r.endpointsAt k ↔ ∃ m, T.entries k e.canonicalAddr = some m ∧ m.endpoint = e := by
  rw [RouteRegistry.endpointsAt]
  cases hp : r.byURI.poolAt k with
  | none => simp [h.poolAt_eq_none.mp hp]
  | some p =>
    have ha := isAddress_canonicalAddr e
    rw [Option.elim_some, List.mem_map]
    refine exists_congr fun m => and_congr_left fun hm => ?_
    rw [h.row hp _ ha, (h.pools _ p hp).1.entry_eq_some ha, hm]
    exact (and_iff_left rfl).symm

theorem RouteRegistry.Refines.mem_prunedAt (h : r.Refines T) :
    e ∈ r.prunedAt fresh now k ↔ ∃ m, (T.resume fresh).entries k e.canonicalAddr = some m ∧
      m.endpoint = e ∧
      m.stale T.threshold (now k) = true := by
  have h₁ := h.resume fresh
  rw [RouteRegistry.prunedAt, h.threshold]
  cases hp : (r.resume fresh).byURI.poolAt k with
  | none => simp [h₁.poolAt_eq_none.mp hp]
  | some p =>
    have ha := isAddress_canonicalAddr e
    obtain ⟨p', pruned, hprune, -, -, -, hpruned⟩ :=
      (h₁.pools k p hp).1.pruneEndpoints T.threshold (now k)
    rw [Option.bind_some, hprune, Option.elim_some, hpruned, h₁.row hp _ ha, and_iff_right ha]
    simp only [Option.map_eq_some_iff]
    constructor
    · rintro ⟨x, hx, hxe, hst⟩
      exact ⟨x.entry, ⟨x, hx, rfl⟩, hxe, hst⟩
    · rintro ⟨_, ⟨x, hx, rfl⟩, hxe, hst⟩
      exact ⟨x, hx, hxe, hst⟩

theorem RouteTable.resume_entries (T : RouteTable) (fresh : Int) :
    (T.resume fresh).entries k a =
      (T.entries k a).map fun e => if T.suspended then { e with updated := fresh } else e := by
  simp only [RouteTable.resume]
  split
  · rfl
  · simp

/-- The endpoints after a cycle are those before it that it does not prune. -/
theorem RouteRegistry.Refines.mem_endpointsAt_prune (h : r.Refines T)
    (h' : r'.Refines ((T.resume fresh).expire (fun _ => True) now)) :
    e ∈ r'.endpointsAt k ↔ e ∈ r.endpointsAt k ∧ e ∉ r.prunedAt fresh now k := by
  rw [h'.mem_endpointsAt, h.mem_endpointsAt, h.mem_prunedAt]
  simp only [RouteTable.expire, if_true, RouteTable.resume_threshold, RouteTable.resume_entries]
  cases T.entries k e.canonicalAddr with
  | none => simp
  | some m =>
    have hsame : (if T.suspended then { m with updated := fresh } else m).endpoint =
        m.endpoint := by
      split <;> rfl
    simp only [Option.map_some, Option.filter_some, Option.some.injEq, exists_eq_left', hsame]
    generalize hstale : (if T.suspended then { m with updated := fresh } else m).stale T.threshold
      (now k) = stale
    cases stale with
    | true =>
      rw [if_neg (by simp)]
      refine iff_of_false (by simp) fun hboth => hboth.2 ⟨hboth.1, rfl⟩
    | false =>
      rw [if_pos (by simp)]
      simp [hsame]

end

-- ---------------------------------------------------------------------------
-- The log tells the updates
-- ---------------------------------------------------------------------------

structure Log.Tells (log : Log) (T : RouteTable) : Prop where
  down : T.suspended = log.down
  read : ∀ t, (∃ k e, log.registered k e = some t) ∨ log.resumed = some t → t ∈ log.readings
  updated : log.readings.Pairwise (· ≤ ·) → ∀ k a e, T.entries k a = some e →
    ∃ t, log.registered k e.endpoint = some t ∧ e.updated = latest t log.resumed

def RouteTable.accepts (endpoint : Endpoint) (old : Option Entry) : Bool :=
  old.all fun e => e.endpoint = endpoint ∨
    e.endpoint.modificationTag.succeededBy endpoint.modificationTag

theorem RouteTable.put_eq (now : Int) (endpoint : Endpoint) (old : Option Entry) :
    some (RouteTable.put now endpoint old) =
      if RouteTable.accepts endpoint old then some ⟨endpoint, now⟩ else old := by
  cases old with
  | none => rfl
  | some e =>
    simp only [RouteTable.put, RouteTable.accepts, Option.all_some, decide_eq_true_eq]
    split
    · next hne =>
      split
      · next hsucc => rw [if_pos (.inr hsucc)]
      · next hsucc => rw [if_neg (by simp [hne, hsucc])]
    · next heq => rw [if_pos (.inl (not_not.mp heq)), not_not.mp heq]

theorem put_snd (h : Pool.put now p endpoint = some (p', added)) :
    added = RouteTable.accepts endpoint
      ((p.elemAt endpoint.canonicalAddr).map EndpointElem.entry) := by
  simp only [Pool.put] at h
  simp only [Pool.elemAt, RouteTable.accepts]
  split at h
  · next ptr hptr =>
    obtain ⟨e, he, h⟩ := Option.bind_eq_some_iff.mp h
    rw [hptr, Option.bind_some, he]
    split at h
    · split at h
      · next hne hsucc =>
        cases h
        simp [EndpointElem.entry, hsucc]
      · next hne hsucc =>
        cases h
        simp [EndpointElem.entry, hne, hsucc]
    · next heq =>
      cases h
      simp [EndpointElem.entry, not_not.mp heq]
  · next hnone =>
    cases h
    simp [hnone]

section
variable {r r' : RouteRegistry} {T : RouteTable} {log : Log}

theorem RouteRegistry.Refines.accepts (h : r.Refines T) (lower : Lower) (uri : Uri) (now : Int)
    (hid : ¬ IsAddress (Endpoint.privateInstanceId endpoint)) :
    r.accepts lower uri endpoint now =
      RouteTable.accepts endpoint
        (T.entries (segments (uri.routeKey lower)) endpoint.canonicalAddr) := by
  have ha := isAddress_canonicalAddr endpoint
  rw [RouteRegistry.accepts, Trie.find_eq, h.entries _ _ ha]
  cases hp : r.byURI.poolAt (segments (uri.routeKey lower)) with
  | none => rfl
  | some p =>
    obtain ⟨p', added, hput, -⟩ := (h.pools _ p hp).1.put ⟨ha, hid⟩ now
    simp only [Option.getD_some, hput, Option.any_some, Option.bind_some]
    exact put_snd hput

theorem Log.start_tells (threshold : Int64) : Log.start.Tells (.empty threshold) :=
  ⟨rfl, by simp [Log.start], by simp [RouteTable.empty]⟩

theorem latest_eq (h : ∀ s ∈ resumed, s ≤ t) : latest t resumed = t := by
  cases resumed with
  | none => rfl
  | some s => exact max_eq_left (h s rfl)

theorem Log.Tells.register (h : log.Tells T) (hr : r.Refines T)
    (hid : ¬ IsAddress (Endpoint.privateInstanceId endpoint)) :
    (log.note lower r (.register uri endpoint now)).Tells
      (T.register (segments (uri.routeKey lower)) endpoint now) := by
  generalize hkey : segments (uri.routeKey lower) = key
  have hacc := hr.accepts lower uri now hid
  rw [hkey] at hacc
  simp only [Log.note, hkey, hacc]
  refine ⟨h.down, fun t ht => ?_, fun hsorted k a e he => ?_⟩
  · simp only [List.mem_append, List.mem_singleton]
    rcases ht with ⟨k, e, ht⟩ | ht
    · dsimp only at ht
      split at ht
      · cases ht
        exact .inr rfl
      · exact .inl (h.read t (.inl ⟨k, e, ht⟩))
    · exact .inl (h.read t (.inr ht))
  · obtain ⟨hsorted, -, hlast⟩ := List.pairwise_append.mp hsorted
    simp only [RouteTable.register] at he
    by_cases hka : k = key ∧ a = endpoint.canonicalAddr
    · rw [if_pos hka, hka.1, hka.2, RouteTable.put_eq] at he
      split at he
      · next hin =>
        cases he
        refine ⟨now, by simp [hka.1, hin], (latest_eq fun s hs => ?_).symm⟩
        exact hlast s (h.read s (.inr hs)) now (List.mem_singleton_self _)
      · next hin =>
        obtain ⟨t, ht, hupd⟩ := h.updated hsorted _ _ e he
        exact ⟨t, by simp [hka.1, hin, ht], hupd⟩
    · rw [if_neg hka] at he
      obtain ⟨t, ht, hupd⟩ := h.updated hsorted _ _ e he
      refine ⟨t, ?_, hupd⟩
      -- Another address has another endpoint.
      dsimp only
      rw [if_neg, ht]
      rintro ⟨hk, hend, -⟩
      exact hka ⟨hk, by rw [← hr.canonicalAddr he, hend]⟩

theorem Log.Tells.unregister (h : log.Tells T) : log.Tells (T.unregister key endpoint) := by
  refine ⟨h.down, h.read, fun hsorted k a e he => h.updated hsorted k a e ?_⟩
  simp only [RouteTable.unregister] at he
  split at he
  · cases he
  · exact he

theorem Log.Tells.prune (h : log.Tells T) (hsusp : suspended = false) :
    (log.note lower r (.prune suspended fresh now order)).Tells
      ((T.resume fresh).expire (fun _ => True) now) := by
  subst hsusp
  simp only [Log.note]
  refine ⟨?_, fun t ht => ?_, fun hsorted k a e he => ?_⟩
  · simp only [RouteTable.expire, RouteTable.resume]
    split
    · rfl
    · next hup => exact Bool.not_eq_true _ ▸ hup
  · simp only [List.mem_append, RouteRegistry.cycleReadings]
    rcases ht with ht | ht
    · exact .inl (h.read t (.inl ht))
    · split at ht
      · next hdown =>
        cases ht
        exact .inr (.inl (by simp [hdown]))
      · exact .inl (h.read t (.inr ht))
  · simp only [RouteTable.expire, if_true, RouteTable.resume_entries] at he
    obtain ⟨he, -⟩ := Option.filter_eq_some_iff.mp he
    obtain ⟨m, hm, hme⟩ := Option.map_eq_some_iff.mp he
    obtain ⟨hsorted, -, hlast⟩ := List.pairwise_append.mp hsorted
    obtain ⟨t, ht, hupd⟩ := h.updated hsorted k a m hm
    rw [h.down] at hme
    split at hme
    · next hdown =>
      -- The reading of the resumption is the latest.
      cases hme
      refine ⟨t, ht, ?_⟩
      rw [if_pos hdown]
      refine (max_eq_right (hlast t (h.read t (.inl ⟨k, _, ht⟩)) fresh ?_)).symm
      simp [RouteRegistry.cycleReadings, hdown]
    · next hdown =>
      cases hme
      exact ⟨t, ht, by rw [if_neg hdown, hupd]⟩

theorem Log.Tells.note (h : log.Tells T) (hr : r.Refines T)
    (hid : ∀ e ∈ Call.endpoint c, ¬ IsAddress e.privateInstanceId) :
    (log.note lower r c).Tells (T.call lower c) := by
  cases c with
  | register uri endpoint now => exact h.register hr (hid endpoint rfl)
  | unregister uri endpoint => exact h.unregister
  | prune suspended fresh now order =>
    cases suspended with
    | true => exact ⟨rfl, h.read, h.updated⟩
    | false => exact h.prune rfl

/-- The registry and the log of a run, against the table. -/
theorem observe_tells (hids : ∀ c ∈ calls, ∀ e ∈ Call.endpoint c, ¬ IsAddress e.privateInstanceId)
    (hrun : run (RouteRegistry.observe lower)
      ((newRouteRegistry threshold listener, []), .start) calls =
      some ((r, sent), log)) :
    ∃ T, r.Refines T ∧ log.Tells T := by
  refine run_invariant_mem (I := fun s : (RouteRegistry × List Sent) × Log => ∃ T, s.1.1.Refines T ∧
    s.2.Tells T) ?_
    ⟨_, newRouteRegistry_refines threshold listener, Log.start_tells threshold⟩ hrun
  rintro ⟨⟨r, sent⟩, log⟩ t c hc ⟨T, hr, hlog⟩ hstep
  obtain ⟨r', reqs, hcall, -, hr', -⟩ := hr.step lower (hids c hc) sent
  rw [RouteRegistry.observe, hcall, Option.map_map, Option.map_eq_some_iff] at hstep
  obtain ⟨new, -, rfl⟩ := hstep
  exact ⟨_, hr', hlog.note hr (hids c hc)⟩

end

/-- In a run whose private ids are no addresses and whose clock does not go
back, a suspended cycle leaves the routes alone. Any other takes out what it
prunes and nothing else: in the first after a suspension, endpoints whose
threshold is below the time the cycle took so far; in the rest, endpoints that
were neither registered nor resumed within their threshold. -/
theorem outage_prunes_nothing (lower : Lower) (threshold : Int64) (listener : Bool)
    (calls : List Call) (hids : ∀ c ∈ calls, ∀ e ∈ c.endpoint, ¬ IsAddress e.privateInstanceId)
    (r : RouteRegistry) (sent : List Sent) (log : Log)
    (hrun : run (RouteRegistry.observe lower)
      ((newRouteRegistry threshold listener, []), .start) calls =
      some ((r, sent), log))
    (suspended : Bool) (fresh : Int) (now : List Str → Int) (order : Order) (r' : RouteRegistry)
    (new : List Sent) (hcycle : r.pruneStaleDroplets suspended fresh now order = some (r', new))
    (hclock : (log.note lower r (.prune suspended fresh now order)).readings.Pairwise (· ≤ ·)) :
    (suspended = true → r'.byURI = r.byURI) ∧
    (suspended = false →
      (∀ k e, e ∈ r'.endpointsAt k ↔ e ∈ r.endpointsAt k ∧ e ∉ r.prunedAt fresh now k) ∧
      ∀ k, ∀ e ∈ r.prunedAt fresh now k,
        if log.down then r.thresholdOf e < now k - fresh
        else ∃ t, log.registered k e = some t ∧
          r.thresholdOf e < now k - latest t log.resumed) := by
  constructor
  · rintro rfl
    cases hcycle
    rfl
  rintro rfl
  obtain ⟨T, hr, hlog⟩ := observe_tells hids hrun
  obtain ⟨r₁, reqs, hprune, -, hr₁, -⟩ := (hr.prune false fresh now order :
    ∃ r' reqs, _ ∧ _ ∧ RouteRegistry.Refines r' (T.call lower _) ∧ _)
  rw [hcycle, eq_comm, Option.map_eq_some_iff] at hprune
  obtain ⟨-, -, ⟨⟩⟩ := hprune
  refine ⟨fun k e => hr.mem_endpointsAt_prune hr₁, fun k e he => ?_⟩
  obtain ⟨m, hm, rfl, hstale⟩ := hr.mem_prunedAt.mp he
  have hover : m.updated < now k - r.thresholdOf m.endpoint := by
    rw [RouteRegistry.thresholdOf, hr.threshold]
    exact overdue_of_stale hstale
  rw [RouteTable.resume_entries, Option.map_eq_some_iff, hlog.down] at hm
  obtain ⟨x, hx, rfl⟩ := hm
  cases hdown : log.down with
  | true =>
    simp only [hdown, if_true] at hover ⊢
    omega
  | false =>
    simp only [hdown, Bool.false_eq_true, if_false] at hover ⊢
    obtain ⟨t, ht, hupd⟩ := hlog.updated (List.pairwise_append.mp hclock).1 _ _ _ hx
    exact ⟨t, ht, by omega⟩

namespace Sample

def outage : List Call :=
  [.register "a.b".toList (backend 1) 0, .prune true 0 (fun _ => 0) Order.stored]

def numbered (privateInstanceId : Str) (index : UInt32) : Endpoint :=
  { backend 80 with
    ptr := index.toNat
    privateInstanceId := privateInstanceId
    modificationTag := ⟨"tag".toList, index⟩ }

def readdressed : List Call :=
  [.register "a.b".toList (numbered "10.0.0.1:80".toList 1) 0,
    .register "a.b".toList (numbered "x".toList 2) 1,
    .register "a.b".toList (numbered "x".toList 2) 11]

end Sample

theorem outage_prunes_nothing_sample :
    ∃ r sent log, run (RouteRegistry.observe Lower.asciiOnly)
        ((newRouteRegistry 10 false, []), .start) Sample.outage =
        some ((r, sent), log) ∧
      ∃ r' new, r.pruneStaleDroplets false 100 (fun _ => 105) Order.stored = some (r', new) ∧
        Sample.backend 1 ∈ r'.endpointsAt ["a.b".toList] := by
  have hids : ∀ c ∈ Sample.outage, ∀ e ∈ c.endpoint, ¬ IsAddress e.privateInstanceId := by
    intro c hc e he
    simp only [Sample.outage, List.mem_cons, List.not_mem_nil, or_false] at hc
    rcases hc with rfl | rfl
    all_goals
      cases he
      try exact Sample.not_isAddress _
  have h :
      ((run (RouteRegistry.observe Lower.asciiOnly)
          ((newRouteRegistry 10 false, []), .start) Sample.outage).map
        fun s => (s.1.1.endpointsAt ["a.b".toList], s.1.1.thresholdOf (Sample.backend 1), s.2.down,
        (s.2.note Lower.asciiOnly s.1.1 (.prune false 100 (fun _ => 105) Order.stored)).readings,
        (s.1.1.pruneStaleDroplets false 100 (fun _ => 105) Order.stored).isSome)) =
      some ([Sample.backend 1], 10, true, [0, 100, 105], true) := by decide
  obtain ⟨⟨⟨r, sent⟩, log⟩, hrun, h⟩ := Option.map_eq_some_iff.mp h
  simp only [Prod.mk.injEq] at h
  obtain ⟨hmem, hthreshold, hdown, hreadings, hreturns⟩ := h
  obtain ⟨⟨r', new⟩, hcycle⟩ := Option.isSome_iff_exists.mp hreturns
  obtain ⟨-, hleft⟩ :=
    outage_prunes_nothing _ _ _ _ hids r sent log hrun _ _ _ _ r' new hcycle (hreadings ▸ by decide)
  obtain ⟨hleft, hpruned⟩ := hleft rfl
  refine ⟨r, sent, log, hrun, r', new, hcycle,
    (hleft _ _).mpr ⟨hmem ▸ List.mem_singleton_self _, fun hp => ?_⟩⟩
  have hlate := hpruned _ _ hp
  rw [if_pos hdown, hthreshold] at hlate
  omega

/-- The endpoint of tag index 2 is a member twice: once since it replaced the
one whose private id was the address, and once since it was registered again.
One unit after that it is pruned, with a threshold of ten, and its removal is
sent. -/
theorem registered_endpoint_pruned :
    (run (RouteRegistry.observe Lower.asciiOnly)
      ((newRouteRegistry 10 true, []), .start) Sample.readdressed).map
      (fun s => (s.2.registered ["a.b".toList] (Sample.numbered "x".toList 2), s.2.resumed,
        s.2.down, s.2.readings)) =
      some (some 11, none, false, [0, 1, 11]) ∧
    (run (RouteRegistry.observe Lower.asciiOnly)
      ((newRouteRegistry 10 true, []), .start) Sample.readdressed).map
      (fun s => (s.1.1.prunedAt 12 (fun _ => 12) ["a.b".toList],
        s.1.1.thresholdOf (Sample.numbered "x".toList 2))) =
      some ([Sample.numbered "x".toList 2], 10) ∧
    (run (RouteRegistry.observe Lower.asciiOnly)
      ((newRouteRegistry 10 true, []), .start) Sample.readdressed).bind
      (fun s => (s.1.1.pruneStaleDroplets false 12 (fun _ => 12) Order.stored).map fun t =>
        t.2.map fun u => (u.update.op, u.update.endpoint)) =
      some [(.remove, some (Sample.numbered "x".toList 2))] := by
  decide

end BigipCtlr.Registry
