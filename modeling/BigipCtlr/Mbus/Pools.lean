import BigipCtlr.Mbus.Subscriber
import BigipCtlr.Registry.Delivery

/-!
# From the messages to the pools

The messages of the bus, the registry that they change, the work queue that its
updates go through and the worker that keeps the pools. The endpoints of the
messages have no modification tags, so the last message about a route and an
address decides, until the registration gets too old.
-/

namespace BigipCtlr.Mbus

open Go Lib Registry Route

-- ---------------------------------------------------------------------------
-- The system
-- ---------------------------------------------------------------------------

/-- The subscriber in front of the registry: what the handler of the message at
hand has still to do, and the endpoints created so far. -/
structure NatsRouter where
  delivery : RouteDelivery
  errands : List Errand
  made : Nat

inductive NatsEvent
  | message (message : NatsMsg)
  | errand (now : Int)
  | prune (suspended : Bool) (fresh : Int) (now : List Str → Int) (order : Order)
  | send
  | tcp (tu : UpdateTCP)
  | turn (o : Order)

def NatsRouter.step (codec : Codec) (lower : Lower) (unmarshal : Unmarshal) (sub : Subscriber)
    (s : NatsRouter) :
    NatsEvent → Option NatsRouter
  -- the messages of a subscription are handled one after the other
  | .message message =>
    if s.errands.isEmpty then
      some { s with errands := sub.receive unmarshal s.made message, made := s.made + 1 }
    else none
  | .errand now =>
    match s.errands with
    | [] => none
    | e :: rest =>
      (s.delivery.step codec lower (.call (e.call now))).map fun d =>
        { s with delivery := d, errands := rest }
  | .prune suspended fresh now order =>
    (s.delivery.step codec lower (.call (.prune suspended fresh now order))).map fun d =>
      { s with delivery := d }
  | .send => (s.delivery.step codec lower .send).map fun d => { s with delivery := d }
  | .tcp tu => (s.delivery.step codec lower (.tcp tu)).map fun d => { s with delivery := d }
  | .turn o => (s.delivery.step codec lower (.turn o)).map fun d => { s with delivery := d }

def NatsRouter.start (r : F5Router) (threshold : Int64) : NatsRouter := ⟨.start r threshold, [], 0⟩

def NatsRouter.Room (s : NatsRouter) : NatsEvent → Prop
  | .turn _ => s.delivery.controller.router.tier2VSInfo.HasRoom
  | .message _ | .errand _ | .prune .. | .send | .tcp _ => True

instance (s : NatsRouter) : ∀ e, Decidable (s.Room e)
  | .turn _ => inferInstanceAs (Decidable s.delivery.controller.router.tier2VSInfo.HasRoom)
  | .message _ | .errand _ | .prune .. | .send | .tcp _ => inferInstanceAs (Decidable True)

def NatsEvent.Reads (x : Int) : NatsEvent → Prop
  | .errand now => now = x
  | .prune _ fresh now _ => fresh = x ∨ ∃ node, now node = x
  | .message _ | .send | .tcp _ | .turn _ => False

def RegistryMessage.About (lower : Lower) (k : List Str) (a : Str) (msg : RegistryMessage) : Prop :=
  msg.host ++ ':' :: itoa msg.port.toNat = a ∧ ∃ u ∈ msg.uris, segments (u.routeKey lower) = k

def patience (threshold : Int64) (e : Endpoint) : Int :=
  -(-(Route.effectiveThreshold e.staleThreshold threshold)).toInt

def Accepted (unmarshal : Unmarshal) (sub : Subscriber) (es : List NatsEvent) (verb : Verb)
    (msg : RegistryMessage) :
    Prop := ∃ message, NatsEvent.message message ∈ es ∧ sub.Accepts unmarshal message verb msg

/-- The events under which the pools follow the messages. -/
structure Proper (unmarshal : Unmarshal) (sub : Subscriber) (lower : Lower) (c : Config)
    (es : List NatsEvent) : Prop where
  ids : ∀ verb msg, Accepted unmarshal sub es verb msg → ¬ IsAddress msg.privateInstanceID
  hosts : ∀ verb msg, Accepted unmarshal sub es verb msg → msg.host ≠ []
  /-- No two URIs of a message have one route key. -/
  keys : ∀ verb msg, Accepted unmarshal sub es verb msg →
    (msg.uris.map fun u => segments (u.routeKey lower)).Nodup
  slashes : ∀ verb msg, Accepted unmarshal sub es verb msg → ∀ u ∈ msg.uris,
    ¬ "/".toList <+: u.routeKey lower ∧ ¬ "/".toList <:+ u.routeKey lower
  named : ∀ verb msg, Accepted unmarshal sub es verb msg → ∀ u ∈ msg.uris,
    (makeObjectName (u.routeKey lower)).isSome = true
  routable : ∀ verb msg, Accepted unmarshal sub es verb msg →
    ∀ u ∈ msg.uris, Routable (u.routeKey lower)
  apart : ∀ verb msg, Accepted unmarshal sub es verb msg → ∀ u ∈ msg.uris,
    ∀ verb' msg', Accepted unmarshal sub es verb' msg' → ∀ u' ∈ msg'.uris,
      makeObjectName (u.routeKey lower) = makeObjectName (u'.routeKey lower) →
        u.routeKey lower = u'.routeKey lower
  tcp : ∀ tu, NatsEvent.tcp tu ∈ es → (Item.tcp tu).Regular c ∧
    ∀ verb msg, Accepted unmarshal sub es verb msg →
      ∀ u ∈ msg.uris, makeObjectName (u.routeKey lower) ≠ some tu.name

structure NatsRouter.Follows (unmarshal : Unmarshal) (sub : Subscriber) (lower : Lower)
    (threshold : Int64) (es : List NatsEvent) (s : NatsRouter) : Prop where
  /-- An address that was registered, and not heard of since, is listed, if the
  times that were read since do not exceed its patience. -/
  listed : ∀ pre message post msg u name, es = pre ++ .message message :: post →
    sub.Accepts unmarshal message .register msg → u ∈ msg.uris →
    makeObjectName (u.routeKey lower) = some name →
    (∀ verb msg', Accepted unmarshal sub post verb msg' →
      ¬ msg'.About lower (segments (u.routeKey lower)) (msg.host ++ ':' :: itoa msg.port.toNat)) →
    (∃ t, ∀ e ∈ post, ∀ x, e.Reads x → t ≤ x ∧ x ≤ t + patience threshold (msg.makeEndpoint 0)) →
    ∃ pool, s.delivery.controller.router.poolResources.lookup name = some pool ∧
      ⟨msg.host, msg.port, "user-enabled".toList⟩ ∈ pool.members
  /-- An address that is listed was registered, and not unregistered since. -/
  registered : ∀ verb msg u name pool m, Accepted unmarshal sub es verb msg → u ∈ msg.uris →
    makeObjectName (u.routeKey lower) = some name →
    s.delivery.controller.router.poolResources.lookup name = some pool → m ∈ pool.members →
    ∃ pre message post msg', es = pre ++ .message message :: post ∧
      sub.Accepts unmarshal message .register msg' ∧
      msg'.About lower (segments (u.routeKey lower)) (memberAddr m) ∧
      ∀ msg'', Accepted unmarshal sub post .unregister msg'' →
        ¬ msg''.About lower (segments (u.routeKey lower)) (memberAddr m)

-- ---------------------------------------------------------------------------
-- The table without tags
-- ---------------------------------------------------------------------------

def errandOf : Call → Option Errand
  | .register uri endpoint _ => some ⟨.register, uri, endpoint⟩
  | .unregister uri endpoint => some ⟨.unregister, uri, endpoint⟩
  | .prune .. => none

theorem errandOf_call (e : Errand) (now : Int) : errandOf (e.call now) = some e := by
  obtain ⟨verb, uri, endpoint⟩ := e
  cases verb <;> rfl

def Errand.About (lower : Lower) (k : List Str) (a : Str) (e : Errand) : Prop :=
  segments (e.uri.routeKey lower) = k ∧ e.endpoint.canonicalAddr = a

def CallReads (x : Int) : Call → Prop
  | .register _ _ now => now = x
  | .unregister _ _ => False
  | .prune _ fresh now _ => fresh = x ∨ ∃ node, now node = x

section
variable {T : RouteTable} {lower : Lower} {k : List Str} {a : Str}

theorem call_threshold (c : Call) : (T.call lower c).threshold = T.threshold := by
  cases c with
  | register | unregister => rfl
  | prune suspended fresh now order =>
    simp only [RouteTable.call, RouteTable.resume]
    split
    · rfl
    · split <;> rfl

theorem put_untagged (h : endpoint.modificationTag.guid = []) (old : Option Route.Entry) :
    RouteTable.put now endpoint old = ⟨endpoint, now⟩ := by
  cases old with
  | none => rfl
  | some old =>
    have hsucceeded : old.endpoint.modificationTag.succeededBy endpoint.modificationTag = true := by
      simp [ModificationTag.succeededBy, h]
    simp only [RouteTable.put, hsucceeded, if_true]
    split
    · rfl
    · next heq => rw [not_not.mp heq]

theorem removes_untagged {endpoint : Endpoint} (h : endpoint.modificationTag.guid = [])
    (old : Route.Entry) :
    RouteTable.removes endpoint (some old) = true := by
  simp [RouteTable.removes, Endpoint.modificationTagSameOrNewer, ModificationTag.succeededBy, h]

theorem unregister_untagged (h : endpoint.modificationTag.guid = []) :
    (T.call lower (.unregister uri endpoint)).entries
      (segments (uri.routeKey lower)) endpoint.canonicalAddr = none := by
  cases hold : T.entries (segments (uri.routeKey lower)) endpoint.canonicalAddr with
  | none => simp [RouteTable.call, RouteTable.unregister, hold]
  | some old => simp [RouteTable.call, RouteTable.unregister, hold, removes_untagged h old]

theorem call_entries_other {c : Call} (hc : ∀ e ∈ errandOf c, ¬ e.About lower k a)
    (hsome : errandOf c ≠ none) :
    (T.call lower c).entries k a = T.entries k a := by
  cases c with
  | register uri endpoint now =>
    refine if_neg fun h => hc _ rfl ⟨h.1.symm, h.2.symm⟩
  | unregister uri endpoint =>
    refine if_neg fun h => hc _ rfl ⟨h.1.symm, h.2.1.symm⟩
  | prune => exact absurd rfl hsome

theorem prune_entries (h : (T.call lower (.prune suspended fresh now order)).entries k a ≠ none) :
    T.entries k a ≠ none := by
  intro hnone
  refine h ?_
  simp only [RouteTable.call, RouteTable.resume]
  split
  · exact hnone
  · split
    · simp [RouteTable.expire, hnone]
    · simp [RouteTable.expire, hnone]

theorem last_errand_register (cs : List Call)
    (htags : ∀ c ∈ cs, ∀ e ∈ c.endpoint, e.modificationTag.guid = [])
    (h : (cs.foldl (RouteTable.call lower) (.empty threshold)).entries k a ≠ none) :
    ∃ pre e post, cs.filterMap errandOf = pre ++ e :: post ∧ e.verb = .register ∧
      e.About lower k a ∧
      ∀ f ∈ post, f.verb = .unregister → ¬ f.About lower k a := by
  induction cs using List.reverseRecOn with
  | nil => exact absurd rfl h
  | append_singleton cs c ih =>
    have hold := ih fun c hc => htags c (List.mem_append_left _ hc)
    rw [List.foldl_append, List.foldl_cons, List.foldl_nil] at h
    rw [List.filterMap_append]
    cases c with
    | prune suspended fresh now order =>
      obtain ⟨pre, e, post, heq, hverb, habout, hpost⟩ := hold (prune_entries h)
      exact ⟨pre, e, post, by rw [heq]; simp [errandOf], hverb, habout, hpost⟩
    | register uri endpoint now =>
      by_cases habout : Errand.About lower k a ⟨.register, uri, endpoint⟩
      · exact ⟨cs.filterMap errandOf, _, [], rfl, rfl, habout, by simp⟩
      · rw [call_entries_other (by rintro e ⟨⟩; exact habout) (by simp [errandOf])] at h
        obtain ⟨pre, e, post, heq, hverb, he, hpost⟩ := hold h
        refine ⟨pre, e, post ++ [⟨.register, uri, endpoint⟩], by rw [heq]; simp [errandOf],
          hverb, he, ?_⟩
        intro f hf hunregister
        rcases List.mem_append.mp hf with hf | hf
        · exact hpost f hf hunregister
        · rw [List.mem_singleton.mp hf] at hunregister
          cases hunregister
    | unregister uri endpoint =>
      by_cases habout : Errand.About lower k a ⟨.unregister, uri, endpoint⟩
      · obtain ⟨rfl, rfl⟩ := habout
        refine absurd ?_ h
        have hguid : endpoint.modificationTag.guid = [] :=
          htags (.unregister uri endpoint) (List.mem_append_right _ List.mem_cons_self) endpoint rfl
        exact unregister_untagged hguid
      · rw [call_entries_other (by rintro e ⟨⟩; exact habout) (by simp [errandOf])] at h
        obtain ⟨pre, e, post, heq, hverb, he, hpost⟩ := hold h
        refine ⟨pre, e, post ++ [⟨.unregister, uri, endpoint⟩], by rw [heq]; simp [errandOf],
          hverb, he, ?_⟩
        intro f hf hunregister
        rcases List.mem_append.mp hf with hf | hf
        · exact hpost f hf hunregister
        · rwa [List.mem_singleton.mp hf]

def Holds (T : RouteTable) (k : List Str) (a : Str) (e : Endpoint) (t : Int) : Prop :=
  ∃ x, t ≤ x ∧ T.entries k a = some ⟨e, x⟩

theorem stale_eq_false (h : now ≤ x + patience threshold e) :
    Route.Entry.stale ⟨e, x⟩ threshold now = false := by
  rw [patience] at h
  have hless : ¬ x < now + (-Route.effectiveThreshold e.staleThreshold threshold).toInt := by omega
  exact decide_eq_false hless

theorem Holds.call {c : Call} (h : Holds T k a e t) (hc : ∀ f ∈ errandOf c, ¬ f.About lower k a)
    (hclock : ∀ x, CallReads x c → t ≤ x ∧ x ≤ t + patience T.threshold e) :
    Holds (T.call lower c) k a e t := by
  obtain ⟨x, hx, hentry⟩ := h
  cases c with
  | register uri endpoint now =>
    exact ⟨x, hx, (call_entries_other hc (by simp [errandOf])).trans hentry⟩
  | unregister uri endpoint =>
    exact ⟨x, hx, (call_entries_other hc (by simp [errandOf])).trans hentry⟩
  | prune suspended fresh now order =>
    have hfresh := hclock fresh (.inl rfl)
    have hnow := hclock (now k) (.inr ⟨k, rfl⟩)
    -- a resumed table has the entry with a time that is no older than `t`
    have hresume : ∃ y, t ≤ y ∧ (T.resume fresh).entries k a = some ⟨e, y⟩ := by
      rw [RouteTable.resume]
      split
      · exact ⟨fresh, hfresh.1, by simp [hentry]⟩
      · exact ⟨x, hx, hentry⟩
    simp only [RouteTable.call]
    split
    · exact ⟨x, hx, hentry⟩
    · obtain ⟨y, hy, hentry'⟩ := hresume
      refine ⟨y, hy, ?_⟩
      have hstale : Route.Entry.stale ⟨e, y⟩ T.threshold (now k) = false :=
        stale_eq_false (by omega)
      simp only [RouteTable.expire, if_true, hentry', T.resume_threshold, Option.filter_some,
        hstale, Bool.not_false]

theorem Holds.calls (h : Holds T k a e t) (cs : List Call)
    (hcs : ∀ c ∈ cs, ∀ f ∈ errandOf c, ¬ f.About lower k a)
    (hclock : ∀ c ∈ cs, ∀ x, CallReads x c → t ≤ x ∧ x ≤ t + patience T.threshold e) :
    Holds (cs.foldl (RouteTable.call lower) T) k a e t := by
  induction cs generalizing T with
  | nil => exact h
  | cons c cs ih =>
    refine ih (h.call (hcs c List.mem_cons_self) (hclock c List.mem_cons_self))
      (fun d hd => hcs d (List.mem_cons_of_mem _ hd)) ?_
    rw [call_threshold]
    exact fun d hd => hclock d (List.mem_cons_of_mem _ hd)

theorem holds_register (hguid : endpoint.modificationTag.guid = []) (ht : t ≤ now) :
    Holds (T.call lower (.register uri endpoint now))
      (segments (uri.routeKey lower)) endpoint.canonicalAddr endpoint t := by
  exact ⟨now, ht, (if_pos ⟨rfl, rfl⟩).trans (congrArg some (put_untagged hguid _))⟩

end

-- ---------------------------------------------------------------------------
-- The errands of a run
-- ---------------------------------------------------------------------------

section
variable {codec : Codec} {lower : Lower} {unmarshal : Unmarshal} {sub : Subscriber}

def errandsOf (unmarshal : Unmarshal) (sub : Subscriber) (n : Nat) : List NatsEvent → List Errand
  | [] => []
  | e :: es =>
    match e with
    | .message message => sub.receive unmarshal n message ++ errandsOf unmarshal sub (n + 1) es
    | .errand _ | .prune .. | .send | .tcp _ | .turn _ => errandsOf unmarshal sub n es

theorem Accepted.cons (h : Accepted unmarshal sub es verb msg) (e : NatsEvent) :
    Accepted unmarshal sub (e :: es) verb msg := by
  obtain ⟨message, hmem, haccepts⟩ := h
  exact ⟨message, List.mem_cons_of_mem _ hmem, haccepts⟩

theorem mem_receive (h : e ∈ sub.receive unmarshal n message) :
    ∃ msg, sub.Accepts unmarshal message e.verb msg ∧ e.uri ∈ msg.uris ∧
      e.endpoint = msg.makeEndpoint n := by
  rcases sub.receive_cases unmarshal n message with ⟨verb, msg, haccepts⟩ | hnil
  · rw [haccepts.receive n] at h
    obtain ⟨u, hu, rfl⟩ := List.mem_map.mp h
    exact ⟨msg, haccepts, hu, rfl⟩
  · rw [hnil] at h
    cases h

theorem mem_errandsOf (h : e ∈ errandsOf unmarshal sub n es) :
    ∃ msg i, Accepted unmarshal sub es e.verb msg ∧ e.uri ∈ msg.uris ∧
      e.endpoint = msg.makeEndpoint i ∧ n ≤ i := by
  induction es generalizing n with
  | nil => cases h
  | cons f es ih =>
    have hrest : ∀ m, n ≤ m → e ∈ errandsOf unmarshal sub m es →
        ∃ msg i, Accepted unmarshal sub (f :: es) e.verb msg ∧ e.uri ∈ msg.uris ∧
          e.endpoint = msg.makeEndpoint i ∧
          n ≤ i := by
      intro m hm he
      obtain ⟨msg, i, haccepted, huri, hendpoint, hi⟩ := ih he
      exact ⟨msg, i, haccepted.cons f, huri, hendpoint, hm.trans hi⟩
    cases f with
    | message message =>
      rcases List.mem_append.mp h with h | h
      · obtain ⟨msg, haccepts, huri, hendpoint⟩ := mem_receive h
        exact ⟨msg, n, ⟨message, List.mem_cons_self, haccepts⟩, huri, hendpoint, le_rfl⟩
      · exact hrest (n + 1) (Nat.le_succ n) h
    | errand | prune | send | tcp | turn => exact hrest n le_rfl h

theorem Accepted.mem_errandsOf (h : Accepted unmarshal sub es verb msg)
    (hu : u ∈ msg.uris) (n : Nat) :
    ∃ i, ⟨verb, u, msg.makeEndpoint i⟩ ∈ errandsOf unmarshal sub n es := by
  obtain ⟨message, hmem, haccepts⟩ := h
  induction es generalizing n with
  | nil => cases hmem
  | cons f es ih =>
    rcases List.mem_cons.mp hmem with rfl | htail
    · refine ⟨n, List.mem_append_left _ ?_⟩
      rw [haccepts.receive n]
      exact List.mem_map.mpr ⟨u, hu, rfl⟩
    · cases f with
      | message message' =>
        obtain ⟨i, hi⟩ := ih (n + 1) htail
        exact ⟨i, List.mem_append_right _ hi⟩
      | errand | prune | send | tcp | turn => exact ih n htail

/-- Behind an errand come those of the messages after its own. -/
theorem errandsOf_split (h : errandsOf unmarshal sub n es = before ++ e :: after) :
    ∃ pre message post msg i, es = pre ++ .message message :: post ∧
      sub.Accepts unmarshal message e.verb msg ∧
      e.uri ∈ msg.uris ∧ e.endpoint = msg.makeEndpoint i ∧
      ∀ f ∈ errandsOf unmarshal sub (i + 1) post, f ∈ after := by
  induction es generalizing n before with
  | nil =>
    have hlen := congrArg List.length h
    simp [errandsOf] at hlen
  | cons f es ih =>
    have hrest : ∀ m before, errandsOf unmarshal sub m es = before ++ e :: after →
        ∃ pre message post msg i, f :: es = pre ++ .message message :: post ∧
          sub.Accepts unmarshal message e.verb msg ∧ e.uri ∈ msg.uris ∧
          e.endpoint = msg.makeEndpoint i ∧
          ∀ g ∈ errandsOf unmarshal sub (i + 1) post, g ∈ after := by
      intro m before hm
      obtain ⟨pre, message, post, msg, i, rfl, hrest⟩ := ih hm
      exact ⟨f :: pre, message, post, msg, i, rfl, hrest⟩
    cases f with
    | message message =>
      rcases List.append_eq_append_iff.mp h with ⟨gap, rfl, hgap⟩ | ⟨gap, hown, hgap⟩
      · exact hrest (n + 1) gap hgap
      · cases gap with
        | nil => exact hrest (n + 1) [] hgap.symm
        | cons g gap =>
          obtain ⟨rfl, rfl⟩ := List.cons.inj hgap
          have hmem : e ∈ sub.receive unmarshal n message := by
            rw [hown]
            exact List.mem_append_right _ List.mem_cons_self
          obtain ⟨msg, haccepts, huri, hendpoint⟩ := mem_receive hmem
          exact ⟨[], message, es, msg, n, rfl, haccepts, huri, hendpoint,
            fun g hg => List.mem_append_right _ hg⟩
    | errand | prune | send | tcp | turn => exact hrest n before h

def Errand.place (lower : Lower) (e : Errand) : List Str × Endpoint :=
  (segments (e.uri.routeKey lower), e.endpoint)

theorem errandsOf_nodup (hkeys : ∀ verb msg, Accepted unmarshal sub es verb msg →
      (msg.uris.map fun u => segments (u.routeKey lower)).Nodup) (n : Nat) :
    ((errandsOf unmarshal sub n es).map (Errand.place lower)).Nodup := by
  induction es generalizing n with
  | nil => exact .nil
  | cons f es ih =>
    have hrest := ih fun verb msg h => hkeys verb msg (h.cons f)
    cases f with
    | message message =>
      rw [errandsOf, List.map_append]
      refine List.nodup_append'.mpr ⟨?_, hrest (n + 1), ?_⟩
      · rcases sub.receive_cases unmarshal n message with ⟨verb, msg, haccepts⟩ | hnil
        · rw [haccepts.receive n, RegistryMessage.errands, List.map_map]
          have hown := hkeys verb msg ⟨message, List.mem_cons_self, haccepts⟩
          refine List.Nodup.of_map Prod.fst ?_
          rw [List.map_map]
          exact hown
        · rw [hnil]
          exact .nil
      · -- the endpoints of later messages are created later
        intro x hx hx'
        obtain ⟨e, he, rfl⟩ := List.mem_map.mp hx
        obtain ⟨e', he', heq⟩ := List.mem_map.mp hx'
        obtain ⟨msg, -, -, hendpoint⟩ := mem_receive he
        obtain ⟨msg', i, -, -, hendpoint', hi⟩ := mem_errandsOf he'
        have hptr : i = n := by
          have hsame := congrArg (fun x => x.2.ptr) heq
          simp only [Errand.place, hendpoint, hendpoint'] at hsame
          exact hsame
        omega
    | errand | prune | send | tcp | turn => exact hrest n

-- ---------------------------------------------------------------------------
-- What the registry and the controller see
-- ---------------------------------------------------------------------------

structure Image (codec : Codec) (lower : Lower) (unmarshal : Unmarshal) (sub : Subscriber)
    (s t : NatsRouter) (es : List NatsEvent) (fs : List RouteDeliveryEvent) : Prop where
  run : run (RouteDelivery.step codec lower) s.delivery fs = some t.delivery
  errands : (callsOf fs).filterMap errandOf ++ t.errands =
    s.errands ++ errandsOf unmarshal sub s.made es
  reads : ∀ c ∈ callsOf fs, ∀ x, CallReads x c → ∃ e ∈ es, e.Reads x
  tcp : ∀ tu, RouteDeliveryEvent.tcp tu ∈ fs → NatsEvent.tcp tu ∈ es
  room : Along (NatsRouter.step codec lower unmarshal sub) NatsRouter.Room s es →
    Along (RouteDelivery.step codec lower) RouteDelivery.Room s.delivery fs

theorem Image.cons {f : RouteDeliveryEvent} (h : Image codec lower unmarshal sub u t es fs)
    (hstep : s.step codec lower unmarshal sub e = some u)
    (hf : s.delivery.step codec lower f = some u.delivery) (hmade : u.made = s.made)
    (hnone : errandsOf unmarshal sub s.made (e :: es) = errandsOf unmarshal sub s.made es)
    (herrands : (callsOf [f]).filterMap errandOf ++ u.errands = s.errands)
    (hreads : ∀ c ∈ callsOf [f], ∀ x, CallReads x c → e.Reads x)
    (htcp : ∀ tu, f = .tcp tu → e = .tcp tu) (hroom : s.Room e → s.delivery.Room f) :
    Image codec lower unmarshal sub s t (e :: es) (f :: fs) := by
  have hcalls : callsOf (f :: fs) = callsOf [f] ++ callsOf fs := by
    rw [← List.singleton_append, callsOf, List.filterMap_append]
    rfl
  refine ⟨run_cons_eq_some.mpr ⟨_, hf, h.run⟩, ?_, fun c hc x hx => ?_, fun tu htu => ?_,
    fun halong d hd => ?_⟩
  · rw [hcalls, List.filterMap_append, List.append_assoc, h.errands, hmade, ← List.append_assoc,
      herrands, hnone]
  · rw [hcalls] at hc
    rcases List.mem_append.mp hc with hc | hc
    · exact ⟨e, List.mem_cons_self, hreads c hc x hx⟩
    · obtain ⟨e', he', hx'⟩ := h.reads c hc x hx
      exact ⟨e', List.mem_cons_of_mem _ he', hx'⟩
  · rcases List.mem_cons.mp htu with heq | htu
    · rw [htcp tu heq.symm]
      exact List.mem_cons_self
    · exact List.mem_cons_of_mem _ (h.tcp tu htu)
  · obtain ⟨hC, htail⟩ := halong u hstep
    rw [hf] at hd
    cases hd
    exact ⟨hroom hC, h.room htail⟩

theorem exists_image (hrun : Lib.run (NatsRouter.step codec lower unmarshal sub) s es = some t) :
    ∃ fs, Image codec lower unmarshal sub s t es fs := by
  induction es generalizing s with
  | nil =>
    cases hrun
    exact ⟨[], rfl, by simp [callsOf, errandsOf], by simp [callsOf], by simp, fun _ => trivial⟩
  | cons e es ih =>
    obtain ⟨u, hstep, hrun⟩ := run_cons_eq_some.mp hrun
    obtain ⟨fs, h⟩ := ih hrun
    cases e with
    | message message =>
      have hstep' := hstep
      simp only [NatsRouter.step, Option.ite_none_right_eq_some, Option.some.injEq,
        List.isEmpty_iff] at hstep'
      obtain ⟨hnil, rfl⟩ := hstep'
      refine ⟨fs, h.run, ?_, fun c hc x hx => ?_,
        fun tu htu => List.mem_cons_of_mem _ (h.tcp tu htu),
        fun halong => h.room (halong _ hstep).2⟩
      · rw [h.errands, hnil]
        rfl
      · obtain ⟨e', he', hx'⟩ := h.reads c hc x hx
        exact ⟨e', List.mem_cons_of_mem _ he', hx'⟩
    | errand now =>
      have hstep' := hstep
      simp only [NatsRouter.step] at hstep'
      split at hstep'
      · cases hstep'
      · next e rest herrands =>
        obtain ⟨d, hd, rfl⟩ := Option.map_eq_some_iff.mp hstep'
        refine ⟨.call (e.call now) :: fs,
          h.cons hstep hd rfl rfl ?_ ?_ (by simp) (fun _ => trivial)⟩
        · rw [herrands]
          simp [callsOf, RouteDeliveryEvent.call?, errandOf_call]
        · rintro c hc x hx
          rw [show c = e.call now by simpa [callsOf, RouteDeliveryEvent.call?] using hc] at hx
          obtain ⟨verb, uri, endpoint⟩ := e
          cases verb with
          | register => exact hx
          | unregister => cases hx
    | prune suspended fresh now order =>
      obtain ⟨d, hd, rfl⟩ := Option.map_eq_some_iff.mp hstep
      refine ⟨.call (.prune suspended fresh now order) :: fs,
        h.cons hstep hd rfl rfl ?_ ?_ (by simp) (fun _ => trivial)⟩
      · simp [callsOf, RouteDeliveryEvent.call?, errandOf]
      · rintro c hc x hx
        rwa [show c = .prune suspended fresh now
          order by simpa [callsOf, RouteDeliveryEvent.call?] using hc] at hx
    | send =>
      obtain ⟨d, hd, rfl⟩ := Option.map_eq_some_iff.mp hstep
      exact ⟨.send :: fs, h.cons hstep hd rfl rfl rfl
        (by simp [callsOf, RouteDeliveryEvent.call?]) (by simp)
        (fun _ => trivial)⟩
    | tcp tu =>
      obtain rfl := Option.some.inj hstep
      exact ⟨.tcp tu :: fs, h.cons hstep rfl rfl rfl rfl
        (by simp [callsOf, RouteDeliveryEvent.call?]) (by simp)
        (fun _ => trivial)⟩
    | turn o =>
      obtain ⟨d, hd, rfl⟩ := Option.map_eq_some_iff.mp hstep
      exact ⟨.turn o :: fs, h.cons hstep hd rfl rfl rfl
        (by simp [callsOf, RouteDeliveryEvent.call?]) (by simp)
        (fun hroom => hroom)⟩

-- ---------------------------------------------------------------------------
-- The pools
-- ---------------------------------------------------------------------------

theorem endpoint_eq (c : Call) : c.endpoint = (errandOf c).map Errand.endpoint := by
  cases c <;> rfl

theorem uri_eq (c : Call) : c.uri = (errandOf c).map Errand.uri := by
  cases c <;> rfl

theorem place_eq (lower : Lower) (c : Call) :
    c.place lower = (errandOf c).map (Errand.place lower) := by
  cases c <;> rfl

theorem filterMap_place (cs : List Call) :
    cs.filterMap (Call.place lower) = (cs.filterMap errandOf).map (Errand.place lower) := by
  rw [List.map_filterMap]
  exact List.filterMap_congr fun c _ => place_eq lower c

section
variable {r : F5Router} {s : NatsRouter} {es : List NatsEvent} {fs : List RouteDeliveryEvent}

theorem Image.mem_errands (h : Image codec lower unmarshal sub s t es fs) (hc : c ∈ callsOf fs)
    (he : e ∈ errandOf c) :
    e ∈ s.errands ++ errandsOf unmarshal sub s.made es := by
  rw [← h.errands]
  exact List.mem_append_left _ (List.mem_filterMap.mpr ⟨c, hc, he⟩)

theorem Image.accepted (h : Image codec lower unmarshal sub (.start r threshold) s es fs)
    (hc : c ∈ callsOf fs) (he : e ∈ errandOf c) :
      ∃ msg i, Accepted unmarshal sub es e.verb msg ∧ e.uri ∈ msg.uris ∧
      e.endpoint = msg.makeEndpoint i := by
  obtain ⟨msg, i, haccepted, huri, hendpoint, -⟩ := mem_errandsOf (h.mem_errands hc he)
  exact ⟨msg, i, haccepted, huri, hendpoint⟩

theorem Image.endpoints (h : Image codec lower unmarshal sub (.start r threshold) s es fs)
    (hc : c ∈ callsOf fs) (he : e ∈ c.endpoint) :
    ∃ verb msg i, Accepted unmarshal sub es verb msg ∧ e = msg.makeEndpoint i := by
  rw [endpoint_eq] at he
  obtain ⟨errand, herrand, rfl⟩ := Option.map_eq_some_iff.mp he
  obtain ⟨msg, i, haccepted, -, hendpoint⟩ := h.accepted hc herrand
  exact ⟨_, msg, i, haccepted, hendpoint⟩

theorem Image.uris (h : Image codec lower unmarshal sub (.start r threshold) s es fs)
    (hc : c ∈ callsOf fs) (hu : u ∈ c.uri) :
    ∃ verb msg, Accepted unmarshal sub es verb msg ∧ u ∈ msg.uris := by
  rw [uri_eq] at hu
  obtain ⟨errand, herrand, rfl⟩ := Option.map_eq_some_iff.mp hu
  obtain ⟨msg, i, haccepted, huri, -⟩ := h.accepted hc herrand
  exact ⟨_, msg, haccepted, huri⟩

theorem Image.orderly (h : Image codec lower unmarshal sub (.start r threshold) s es fs)
    (hproper : Proper unmarshal sub lower config es) : Orderly lower config fs := by
  refine ⟨⟨?_, ?_, ?_, ?_⟩, ?_, ?_, ?_, ?_⟩
  · intro c hc e he
    obtain ⟨verb, msg, i, haccepted, rfl⟩ := h.endpoints hc he
    exact hproper.ids verb msg haccepted
  · intro c hc u hu
    obtain ⟨verb, msg, haccepted, hmem⟩ := h.uris hc hu
    exact hproper.slashes verb msg haccepted u hmem
  · intro c hc u hu
    obtain ⟨verb, msg, haccepted, hmem⟩ := h.uris hc hu
    exact hproper.named verb msg haccepted u hmem
  · intro c hc u hu c' hc' u' hu'
    obtain ⟨verb, msg, haccepted, hmem⟩ := h.uris hc hu
    obtain ⟨verb', msg', haccepted', hmem'⟩ := h.uris hc' hu'
    exact hproper.apart verb msg haccepted u hmem verb' msg' haccepted' u' hmem'
  · intro c hc u hu
    obtain ⟨verb, msg, haccepted, hmem⟩ := h.uris hc hu
    exact hproper.routable verb msg haccepted u hmem
  · intro c hc e he
    obtain ⟨verb, msg, i, haccepted, rfl⟩ := h.endpoints hc he
    exact hproper.hosts verb msg haccepted
  · have hnodup := errandsOf_nodup hproper.keys 0
    have heq := h.errands
    simp only [NatsRouter.start, List.nil_append] at heq
    rw [← heq, List.map_append] at hnodup
    rw [filterMap_place]
    exact hnodup.of_append_left
  · intro tu htu
    obtain ⟨hregular, hnames⟩ := hproper.tcp tu (h.tcp tu htu)
    refine ⟨hregular, fun c hc u hu => ?_⟩
    obtain ⟨verb, msg, haccepted, hmem⟩ := h.uris hc hu
    exact hnames verb msg haccepted u hmem

theorem member_iff {d : RouteDelivery} (hmirrored : d.Mirrored keys) (href : d.registry.Refines T)
    (hk : k ∈ keys) (hname : makeObjectName (toPath k) = some name) (m : Member) :
    (∃ pool, d.controller.router.poolResources.lookup name = some pool ∧ m ∈ pool.members) ↔
      m.session = "user-enabled".toList ∧ T.entries k (memberAddr m) ≠ none := by
  have hpools := hmirrored.pools k hk name hname
  cases hp : d.registry.byURI.poolAt k with
  | none =>
    rw [hp] at hpools
    have hnone : d.controller.router.poolResources.lookup name = none := by
      cases hq : d.controller.router.poolResources.lookup name with
      | none => rfl
      | some q =>
        rw [hq] at hpools
        exact hpools.elim
    refine iff_of_false ?_ fun hm => hm.2 (href.poolAt_eq_none.mp hp _)
    rintro ⟨pool, hpool, -⟩
    rw [hnone] at hpool
    cases hpool
  | some p =>
    rw [hp] at hpools
    cases hq : d.controller.router.poolResources.lookup name with
    | none =>
      rw [hq] at hpools
      exact hpools.elim
    | some q =>
      rw [hq] at hpools
      rw [← href.mem_addresses hp, ← hpools.2 m]
      constructor
      · rintro ⟨pool, hpool, hm⟩
        cases hpool
        exact hm
      · exact fun hm => ⟨q, rfl, hm⟩

theorem foldl_threshold (cs : List Call) (T : RouteTable) :
    (cs.foldl (RouteTable.call lower) T).threshold = T.threshold := by
  induction cs generalizing T with
  | nil => rfl
  | cons c cs ih => exact (ih _).trans (call_threshold c)

theorem Image.holds {T : RouteTable} (h : Image codec lower unmarshal sub s t post fs)
    (hs : s.errands = RegistryMessage.errands .register n msg) (ht : t.errands = [])
    (hu : u ∈ msg.uris) (hkeys : (msg.uris.map fun u => segments (u.routeKey lower)).Nodup)
    (hquiet : ∀ verb msg', Accepted unmarshal sub post verb msg' →
      ¬ msg'.About lower (segments (u.routeKey lower)) (msg.host ++ ':' :: itoa msg.port.toNat))
    (hclock : ∀ e ∈ post, ∀ x, e.Reads x → time ≤ x ∧
      x ≤ time + patience T.threshold (msg.makeEndpoint n)) :
    Holds ((callsOf fs).foldl (RouteTable.call lower) T) (segments (u.routeKey lower))
      (msg.host ++ ':' :: itoa msg.port.toNat) (msg.makeEndpoint n) time := by
  obtain ⟨us, us', huris⟩ := List.append_of_mem hu
  have hreads : ∀ c ∈ callsOf fs, ∀ x, CallReads x c →
      time ≤ x ∧ x ≤ time + patience T.threshold (msg.makeEndpoint n) := by
    intro c hc x hx
    obtain ⟨e, he, hx'⟩ := h.reads c hc x hx
    exact hclock e he x hx'
  have herrands := h.errands
  rw [ht, List.append_nil, hs, RegistryMessage.errands, huris, List.map_append, List.map_cons,
    List.append_assoc, List.cons_append] at herrands
  obtain ⟨cs₁, rest, hsplit, -, hrest⟩ := List.filterMap_eq_append_iff.mp herrands
  obtain ⟨cs₂, c, cs₃, rfl, -, hc, hcs₃⟩ := List.filterMap_eq_cons_iff.mp hrest
  -- the registration, and what comes behind it
  obtain ⟨now, rfl⟩ : ∃ now, c = .register u (msg.makeEndpoint n) now := by
    cases c with
    | register uri endpoint now =>
      cases hc
      exact ⟨now, rfl⟩
    | unregister => cases hc
    | prune => cases hc
  have hbehind : ∀ d ∈ cs₃, ∀ f ∈ errandOf d, ¬ f.About lower (segments (u.routeKey lower))
      (msg.host ++ ':' :: itoa msg.port.toNat) := by
    intro d hd f hf habout
    have hmem : f ∈ cs₃.filterMap errandOf := List.mem_filterMap.mpr ⟨d, hd, hf⟩
    rw [hcs₃] at hmem
    rcases List.mem_append.mp hmem with hown | hlater
    · obtain ⟨u', hu', rfl⟩ := List.mem_map.mp hown
      rw [huris, List.map_append, List.map_cons] at hkeys
      have hne := (List.nodup_cons.mp (List.nodup_append'.mp hkeys).2.1).1
      exact hne (List.mem_map.mpr ⟨u', hu', habout.1⟩)
    · obtain ⟨msg', i, haccepted, huri, hendpoint, -⟩ := mem_errandsOf hlater
      refine hquiet f.verb msg' haccepted ⟨?_, f.uri, huri, habout.1⟩
      have haddr := habout.2
      rw [hendpoint] at haddr
      exact haddr
  have hmem : ∀ d ∈ Call.register u (msg.makeEndpoint n) now :: cs₃, d ∈ callsOf fs := by
    intro d hd
    rw [hsplit]
    exact List.mem_append_right _ (List.mem_append_right _ hd)
  rw [hsplit, List.foldl_append, List.foldl_append, List.foldl_cons]
  refine Holds.calls (holds_register rfl (hreads _ (hmem _ List.mem_cons_self) now rfl).1)
    cs₃ hbehind ?_
  rw [call_threshold, foldl_threshold, foldl_threshold]
  exact fun d hd => hreads d (hmem d (List.mem_cons_of_mem _ hd))

theorem Accepted.of_suffix (h : Accepted unmarshal sub post verb msg) (pre : List NatsEvent) :
    Accepted unmarshal sub (pre ++ post) verb msg := by
  obtain ⟨message, hmem, haccepts⟩ := h
  exact ⟨message, List.mem_append_right _ hmem, haccepts⟩

theorem Proper.toPath (h : Proper unmarshal sub lower c es)
    (haccepted : Accepted unmarshal sub es verb msg) (hu : u ∈ msg.uris) :
    toPath (segments (u.routeKey lower)) = u.routeKey lower := by
  obtain ⟨hfront, hback⟩ := h.slashes verb msg haccepted u hu
  exact toPath_segments hfront hback

/-- When all errands are done, each URI of an accepted message has been called
with. -/
theorem Image.mem_keysOf (h : Image codec lower unmarshal sub (.start r threshold) s es fs)
    (hdone : s.errands = []) (haccepted : Accepted unmarshal sub es verb msg) (hu : u ∈ msg.uris) :
    segments (u.routeKey lower) ∈ keysOf lower (callsOf fs) := by
  obtain ⟨i, hi⟩ := haccepted.mem_errandsOf hu 0
  have herrands := h.errands
  rw [hdone, List.append_nil, NatsRouter.start, List.nil_append] at herrands
  rw [← herrands] at hi
  obtain ⟨c, hc, hce⟩ := List.mem_filterMap.mp hi
  exact ⟨c, hc, u, by rw [uri_eq, hce]; rfl, rfl⟩

theorem Image.ids_behind (h : Image codec lower unmarshal sub s t post fs)
    (hs : s.errands = sub.receive unmarshal n message)
    (hproper : Proper unmarshal sub lower c (pre ++ .message message :: post)) :
    ∀ c ∈ callsOf fs, ∀ e ∈ c.endpoint, ¬ IsAddress e.privateInstanceId := by
  intro c hc e he
  rw [endpoint_eq] at he
  obtain ⟨errand, herrand, rfl⟩ := Option.map_eq_some_iff.mp he
  have hmem := h.mem_errands hc herrand
  rw [hs] at hmem
  rcases List.mem_append.mp hmem with hown | hlater
  · obtain ⟨msg, haccepts, -, hendpoint⟩ := mem_receive hown
    rw [hendpoint]
    exact hproper.ids _ msg ⟨message, by simp, haccepts⟩
  · obtain ⟨msg, i, haccepted, -, hendpoint, -⟩ := mem_errandsOf hlater
    rw [hendpoint]
    exact hproper.ids _ msg ((haccepted.cons _).of_suffix pre)

theorem registration_holds
    (hproper : Proper unmarshal sub lower c (pre ++ .message message :: post))
    (hrun : Lib.run (NatsRouter.step codec lower unmarshal sub) (.start r threshold)
      (pre ++ .message message :: post) = some s)
    (hdone : s.errands = []) (haccepts : sub.Accepts unmarshal message .register msg)
    (hu : u ∈ msg.uris)
    (hquiet : ∀ verb msg', Accepted unmarshal sub post verb msg' →
      ¬ msg'.About lower (segments (u.routeKey lower)) (msg.host ++ ':' :: itoa msg.port.toNat))
    (hclock : ∀ e ∈ post, ∀ x, e.Reads x → time ≤ x ∧
      x ≤ time + patience threshold (msg.makeEndpoint 0)) :
    ∃ T n, s.delivery.registry.Refines T ∧
      Holds T (segments (u.routeKey lower)) (msg.host ++ ':' :: itoa msg.port.toNat)
        (msg.makeEndpoint n) time := by
  obtain ⟨s₁, hrun₁, hrun⟩ := run_append_eq_some.mp hrun
  obtain ⟨s₂, hstep, hrun₂⟩ := run_cons_eq_some.mp hrun
  simp only [NatsRouter.step, Option.ite_none_right_eq_some, Option.some.injEq] at hstep
  obtain ⟨-, rfl⟩ := hstep
  obtain ⟨fs₁, himage₁⟩ := exists_image hrun₁
  obtain ⟨fs₂, himage₂⟩ := exists_image hrun₂
  have hids₁ : ∀ c ∈ callsOf fs₁, ∀ e ∈ c.endpoint, ¬ IsAddress e.privateInstanceId := by
    intro c hc e he
    obtain ⟨verb, msg', i, ⟨message', hmem, haccepts'⟩, rfl⟩ := himage₁.endpoints hc he
    exact hproper.ids verb msg' ⟨message', List.mem_append_left _ hmem, haccepts'⟩
  have href₁ :=
    RouteDelivery.refines_calls (newRouteRegistry_refines threshold true) hids₁ himage₁.run
  have href₂ := RouteDelivery.refines_calls href₁ (himage₂.ids_behind rfl hproper) himage₂.run
  refine ⟨_, s₁.made, href₂, ?_⟩
  have hkeys := hproper.keys .register msg ⟨message, by simp, haccepts⟩
  refine himage₂.holds (haccepts.receive s₁.made) hdone hu hkeys hquiet ?_
  rw [foldl_threshold]
  exact hclock

/-- A live entry of the table goes back to a registration without an
unregistration behind it. -/
theorem Image.registered (h : Image codec lower unmarshal sub (.start r threshold) s es fs)
    (hdone : s.errands = [])
    (hentry : ((callsOf fs).foldl (RouteTable.call lower) (.empty threshold)).entries k a ≠ none) :
    ∃ pre message post msg, es = pre ++ .message message :: post ∧
      sub.Accepts unmarshal message .register msg ∧
      msg.About lower k a ∧ ∀ msg', Accepted unmarshal sub post .unregister msg' →
        ¬ msg'.About lower k a := by
  have htags : ∀ c ∈ callsOf fs, ∀ e ∈ c.endpoint, e.modificationTag.guid = [] := by
    intro c hc e he
    obtain ⟨verb, msg, i, -, rfl⟩ := h.endpoints hc he
    rfl
  obtain ⟨before, e, after, heq, hverb, habout, hafter⟩ :=
    last_errand_register (callsOf fs) htags hentry
  have herrands := h.errands
  rw [hdone, List.append_nil, heq, NatsRouter.start, List.nil_append] at herrands
  obtain ⟨pre, message, post, msg, i, rfl, haccepts, huri, hendpoint, hlater⟩ :=
    errandsOf_split herrands.symm
  rw [hverb] at haccepts
  have haddr := habout.2
  rw [hendpoint] at haddr
  refine ⟨pre, message, post, msg, rfl, haccepts, ⟨haddr, e.uri, huri, habout.1⟩,
    fun msg' haccepted habout' => ?_⟩
  obtain ⟨haddr', u, hu, hkey⟩ := habout'
  obtain ⟨j, hj⟩ := haccepted.mem_errandsOf hu (i + 1)
  exact hafter _ (hlater _ hj) rfl ⟨hkey, haddr'⟩

/-- When all is done, the pools list the addresses that the messages say. -/
theorem pools_follow_messages (hboot : boot codec config plans dg = some r)
    (hproper : Proper unmarshal sub lower r.c es)
    (hroom : Along (NatsRouter.step codec lower unmarshal sub) NatsRouter.Room
      (.start r threshold) es)
    (hrun : Lib.run (NatsRouter.step codec lower unmarshal sub) (.start r threshold) es = some s)
    (hidle : s.delivery.controller.queue.Idle) (hpend : s.delivery.pending = [])
    (hdone : s.errands = []) :
    s.Follows unmarshal sub lower threshold es := by
  obtain ⟨fs, himage⟩ := exists_image hrun
  have horderly := himage.orderly hproper
  obtain ⟨tcp, routes, seen, g, hset, hsound⟩ := horderly.sound hboot (himage.room hroom) himage.run
  have hmirrored := hsound.mirrored hset hidle hpend
  constructor
  · rintro pre message post msg u name rfl haccepts hu hname hquiet ⟨time, hclock⟩
    have haccepted : Accepted unmarshal sub (pre ++ .message message :: post) .register msg :=
      ⟨message, by simp, haccepts⟩
    obtain ⟨T, n, href, x, -, hentry⟩ :=
      registration_holds hproper hrun hdone haccepts hu hquiet hclock
    refine (member_iff hmirrored href (himage.mem_keysOf hdone haccepted hu) ?_ _).mpr ⟨rfl, ?_⟩
    · rw [hproper.toPath haccepted hu]
      exact hname
    · rw [show memberAddr _ = msg.host ++ ':' :: itoa msg.port.toNat from rfl, hentry]
      simp
  · intro verb msg u name pool m haccepted hu hname hpool hm
    have href := RouteDelivery.refines_calls
      (newRouteRegistry_refines threshold true) horderly.spelled.ids himage.run
    have hpath := congrArg makeObjectName (hproper.toPath haccepted hu)
    have hmember :=
      member_iff hmirrored href (himage.mem_keysOf hdone haccepted hu) (hpath.trans hname) m
    exact himage.registered hdone (hmember.mp ⟨pool, hpool, hm⟩).2

end

end

namespace Sample

def payload (host uris : Str) : Str :=
  "\x7b\"host\":\"".toList ++ host ++ "\",\"port\":80,\"uris\":[".toList ++ uris ++ "]\x7d".toList

def first : NatsMsg :=
  ⟨"router.register".toList, payload "10.0.0.1".toList "\"*.a\",\"*.b\"".toList⟩

def second : NatsMsg := ⟨"router.register".toList, payload "10.0.0.2".toList "\"*.a\"".toList⟩

def third : NatsMsg := ⟨"router.unregister".toList, payload "10.0.0.1".toList "\"*.a\"".toList⟩

def events : List NatsEvent :=
  [.message first, .errand 0, .send, .errand 0, .send, .turn .stored, .message second,
    .errand 1, .send, .message third, .errand 2, .send] ++ List.replicate 17 (.turn .stored)

theorem first_decoded : RegistryMessage.unmarshal first.data =
    .ok { host := "10.0.0.1".toList, port := 80, uris := ["*.a".toList, "*.b".toList] } := by
  decide +kernel

theorem second_decoded : RegistryMessage.unmarshal second.data =
    .ok { host := "10.0.0.2".toList, port := 80, uris := ["*.a".toList] } := by
  decide +kernel

theorem third_decoded : RegistryMessage.unmarshal third.data =
    .ok { host := "10.0.0.1".toList, port := 80, uris := ["*.a".toList] } := by
  decide +kernel

structure Plain (msg : RegistryMessage) : Prop where
  id : msg.privateInstanceID = []
  host : msg.host ≠ []
  uris : msg.uris = ["*.a".toList] ∨ msg.uris = ["*.a".toList, "*.b".toList]

theorem plain_of_accepted (h : Accepted RegistryMessage.unmarshal ⟨[]⟩ events verb msg) :
    Plain msg := by
  obtain ⟨message, hmem, haccepts⟩ := h
  have hdecoded := haccepts.decoded
  have hcases : message = first ∨ message = second ∨ message = third := by simpa [events] using hmem
  rcases hcases with rfl | rfl | rfl
  · rw [first_decoded] at hdecoded
    cases hdecoded
    exact ⟨rfl, by decide, .inr rfl⟩
  · rw [second_decoded] at hdecoded
    cases hdecoded
    exact ⟨rfl, by decide, .inl rfl⟩
  · rw [third_decoded] at hdecoded
    cases hdecoded
    exact ⟨rfl, by decide, .inl rfl⟩

theorem Plain.uri (h : Plain msg) (hu : u ∈ msg.uris) : u = "*.a".toList ∨ u = "*.b".toList := by
  rcases h.uris with huris | huris
  · rw [huris] at hu
    exact .inl (List.mem_singleton.mp hu)
  · rw [huris] at hu
    simpa using hu

theorem proper (c : Config) : Proper RegistryMessage.unmarshal ⟨[]⟩ Lower.asciiOnly c events := by
  constructor
  · intro verb msg h hid
    rw [(plain_of_accepted h).id] at hid
    exact absurd hid.colon_mem (by decide)
  · intro verb msg h
    exact (plain_of_accepted h).host
  · intro verb msg h
    rcases (plain_of_accepted h).uris with huris | huris <;> rw [huris] <;> decide
  · intro verb msg h u hu
    rcases (plain_of_accepted h).uri hu with rfl | rfl <;> decide
  · intro verb msg h u hu
    rcases (plain_of_accepted h).uri hu with rfl | rfl <;> decide
  · intro verb msg h u hu
    rcases (plain_of_accepted h).uri hu with rfl | rfl
    · exact ⟨by decide, _, rfl, by decide⟩
    · exact ⟨by decide, _, rfl, by decide⟩
  · intro verb msg h u hu verb' msg' h' u' hu'
    rcases (plain_of_accepted h).uri hu with rfl | rfl <;>
      rcases (plain_of_accepted h').uri hu' with rfl | rfl <;>
      decide
  · simp [events]

end Sample

theorem pools_follow_sample :
    ∃ r ∈ boot jsonCodec BigipCtlr.Sample.config ∅ none,
      ∃ s ∈ run (NatsRouter.step jsonCodec Lower.asciiOnly RegistryMessage.unmarshal ⟨[]⟩)
        (.start r 10) Sample.events,
        s.Follows RegistryMessage.unmarshal ⟨[]⟩ Lower.asciiOnly 10 Sample.events := by
  have hrun : ∃ r ∈ boot jsonCodec BigipCtlr.Sample.config ∅ none,
      Along (NatsRouter.step jsonCodec Lower.asciiOnly RegistryMessage.unmarshal ⟨[]⟩)
        NatsRouter.Room (.start r 10)
        Sample.events ∧
      ∃ s ∈ run (NatsRouter.step jsonCodec Lower.asciiOnly RegistryMessage.unmarshal ⟨[]⟩)
        (.start r 10) Sample.events,
        s.delivery.controller.queue.Idle ∧ s.delivery.pending = [] ∧ s.errands.isEmpty = true := by
    decide +kernel
  obtain ⟨r, hboot, hroom, s, hrun, hidle, hpend, hdone⟩ := hrun
  exact ⟨r, hboot, s, hrun, pools_follow_messages hboot (Sample.proper r.c) hroom hrun hidle hpend
    (List.isEmpty_iff.mp hdone)⟩

end BigipCtlr.Mbus
