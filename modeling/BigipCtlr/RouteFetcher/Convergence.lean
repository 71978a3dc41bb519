import BigipCtlr.RouteFetcher.RouteFetcher
import BigipCtlr.RouteFetcher.Sync

/-!
# The fetcher follows the routing API

The fetcher subscribes before it fetches, so that no change falls between the
list and the events. While a stream lasts, and no two fetches overlap, whatever
else comes in between: when all events are handled the registry has the routes
that the API has, and the routing table its backends. What was there before the
stream was opened can be left over.
-/

namespace BigipCtlr

open Go Lib Registry

-- ---------------------------------------------------------------------------
-- What is assumed of a run
-- ---------------------------------------------------------------------------

def FetcherEvent.change? : FetcherEvent α → Option (Change α)
  | .change c _ => some c
  | _ => none

def noted (seen : List α) : Change α → List α
  | .upsert v => v :: seen
  | .delete _ => seen

def Names (m : Tagging α κ τ) (seen : List α) : Change α → Prop
  | .upsert _ => True
  | .delete v => ∀ w ∈ seen, m.place w = m.place v → m.drops (m.tag w) (m.tag v) = true

def OrderlyFrom (m : Tagging α κ τ) : List α → List (Change α) → Prop
  | _, [] => True
  | seen, c :: cs => Names m seen c ∧ OrderlyFrom m (noted seen c) cs

instance [DecidableEq κ] (m : Tagging α κ τ) (seen : List α) : ∀ c, Decidable (Names m seen c)
  | .upsert _ => inferInstanceAs (Decidable True)
  | .delete v => inferInstanceAs (Decidable
      (∀ w ∈ seen, m.place w = m.place v → m.drops (m.tag w) (m.tag v) = true))

instance decidableOrderlyFrom [DecidableEq κ] (m : Tagging α κ τ) :
    ∀ seen cs, Decidable (OrderlyFrom m seen cs)
  | _, [] => inferInstanceAs (Decidable True)
  | seen, c :: cs =>
    have := decidableOrderlyFrom m (noted seen c) cs
    inferInstanceAs (Decidable (Names m seen c ∧ OrderlyFrom m (noted seen c) cs))

/-- The routes that the API has after a change are what the change says: no new
one but the upserted, and one for each place that had one but the deleted. -/
def Agrees (m : Tagging α κ τ) (routes : List α) : Change α → List α → Prop
  | .upsert v, routes' => v ∈ routes' ∧ (∀ w ∈ routes', w = v ∨ w ∈ routes) ∧
      ∀ w ∈ routes, ∃ w' ∈ routes', m.place w' = m.place w
  | .delete v, routes' => (∀ w ∈ routes', w ∈ routes ∧ m.place w ≠ m.place v) ∧
      ∀ w ∈ routes, m.place w ≠ m.place v → ∃ w' ∈ routes', m.place w' = m.place w

instance [DecidableEq α] [DecidableEq κ] (m : Tagging α κ τ) (routes : List α) :
    ∀ c routes', Decidable (Agrees m routes c routes')
  | .upsert v, routes' =>
    inferInstanceAs (Decidable (v ∈ routes' ∧ (∀ w ∈ routes', w = v ∨ w ∈ routes) ∧
      ∀ w ∈ routes, ∃ w' ∈ routes', m.place w' = m.place w))
  | .delete v, routes' =>
    inferInstanceAs (Decidable ((∀ w ∈ routes', w ∈ routes ∧ m.place w ≠ m.place v) ∧
      ∀ w ∈ routes, m.place w ≠ m.place v → ∃ w' ∈ routes', m.place w' = m.place w))

def RouteFetcher.Announced (m : Tagging α κ τ) (s : RouteFetcher σ α) : FetcherEvent α → Prop
  | .change c routes => Agrees m s.routes c routes
  | _ => True

instance [DecidableEq α] [DecidableEq κ] (m : Tagging α κ τ) (s : RouteFetcher σ α) :
    ∀ e, Decidable (s.Announced m e)
  | .change c routes => inferInstanceAs (Decidable (Agrees m s.routes c routes))
  | .token _ | .check | .subscribe _ | .list _ _ | .refresh | .store | .next
    _ | .push | .resume | .wake | .tick _ _
  | .sync | .handle | .signal => inferInstanceAs (Decidable True)

def EventCycle.isListed : EventCycle α → Bool
  | .listed _ => true
  | _ => false

def Loop.isSelect : Loop α → Bool
  | .select => true
  | _ => false

/-- No two fetches overlap, no event is handled while the other goroutine
fetches, and a stream is opened when the events of the last one are handled and
no fetch is under way. -/
def RouteFetcher.Undisturbed (s : RouteFetcher σ α) : FetcherEvent α → Prop
  | .subscribe none => s.loop.isSelect = true ∧ s.eventChannel = []
  | .list _ _ => s.loop.isSelect = true
  | .tick _ _ | .handle => s.cycle.isListed = false
  | _ => True

instance [DecidableEq α] (s : RouteFetcher σ α) : ∀ e, Decidable (s.Undisturbed e)
  | .subscribe none => inferInstanceAs (Decidable (s.loop.isSelect = true ∧ s.eventChannel = []))
  | .list _ _ => inferInstanceAs (Decidable (s.loop.isSelect = true))
  | .tick _ _ | .handle => inferInstanceAs (Decidable (s.cycle.isListed = false))
  | .subscribe (some _) | .change _ _ | .token _ | .check | .refresh | .store | .next
    _ | .push | .resume | .wake
  | .sync | .signal => inferInstanceAs (Decidable True)

def EventCycle.hand : EventCycle α → List (Change α)
  | .received event => [event]
  | _ => []

def RouteFetcher.transit (s : RouteFetcher σ α) : List (Change α) := s.eventChannel ++ s.cycle.hand

structure Fed (rc : RouteClient σ α) (m : Tagging α κ τ) (ok : α → Prop) (client : σ)
    (routes : List α) (es : List (FetcherEvent α)) (s : RouteFetcher σ α)
    (source : EventSource σ α) : Prop where
  run : run (RouteFetcher.step rc) (.start client routes) es = some s
  undisturbed : Along (RouteFetcher.step rc) (fun s e => s.Undisturbed e ∧ s.Announced m e)
    (.start client routes) es
  orderly : OrderlyFrom m routes (es.filterMap FetcherEvent.change?)
  regular : (∀ v ∈ routes, ok v) ∧ ∀ c ∈ es.filterMap FetcherEvent.change?, ok c.entry
  stream : s.stream = some source
  refreshed : source.refreshed = true
  handled : s.transit ++ source.unread = []

-- ---------------------------------------------------------------------------
-- Clients that are stores
-- ---------------------------------------------------------------------------

/-- A client whose calls are those of a store with tags. -/
structure RouteClient.Stores [DecidableEq κ] (rc : RouteClient σ α) (m : Tagging α κ τ)
    (same : α → α → Bool) (ok : α → Prop) (Keeps : σ → (κ → Option τ) → Prop) : Prop where
  failed : ∀ f first second err, fetchWithTokenRefresh first second = .error err →
    rc.call f (.fetchRoutes first second) = some f
  fetched : ∀ f S first second routes, Keeps f S → fetchWithTokenRefresh first second = .ok routes →
    (∀ v ∈ routes, ok v) → ∃ f' last, rc.call f (.fetchRoutes first second) = some f' ∧
      Keeps f' (m.sync same last routes S)
  handled : ∀ f S c, Keeps f S → ok c.entry →
    ∃ f', rc.call f (.handleEvent (some c.event)) = some f' ∧ Keeps f' (m.apply S c)

theorem HTTPFetcher.handleEvent_event (lower : Lower) (clock : Nat → Int) (f : HTTPFetcher)
    (c : Change Models.Route) :
    f.handleEvent lower clock c.event = match c with
      | .upsert v => f.register lower clock v
      | .delete v => f.unregister lower v := by
  have hne : "Upsert".toList ≠ "Delete".toList := by decide
  cases c with
  | upsert v => exact (if_neg hne).trans (if_pos rfl)
  | delete v => exact if_pos rfl

theorem TCPFetcher.handleEvent_event (clock : Nat → Int × Int) (f : TCPFetcher)
    (c : Change Models.TcpRouteMapping) :
    f.handleEvent clock c.event = match c with
      | .upsert v => f.upsert clock v
      | .delete v => f.delete clock v := by
  have hne : "Delete".toList ≠ "Upsert".toList := by decide
  cases c with
  | upsert v => exact if_pos rfl
  | delete v => exact (if_neg hne).trans (if_pos rfl)

theorem httpClient_stores (lower : Lower) (clock : Nat → Int) (listener : Bool) :
    (httpClient lower clock).Stores (httpTagging lower) routeEquals
      (Models.Route.Regular lower listener)
      (HTTPFetcher.Keeps lower listener) where
  failed f first second err h := by
    simp only [httpClient, HTTPFetcher.step, h]
  fetched f S first second routes hf h hok := by
    obtain ⟨f', hf', -, hkeeps⟩ := HTTPFetcher.Keeps.refreshEndpoints hf hok clock
    refine ⟨f', f.endpoints, ?_, hkeeps⟩
    simp only [httpClient, HTTPFetcher.step, h, hf']
  handled f S c hf hok := by
    simp only [httpClient, HTTPFetcher.step, HTTPFetcher.handleEvent_event]
    cases c with
    | upsert v =>
      obtain ⟨f', hf', -, hkeeps⟩ := HTTPFetcher.Keeps.register hf hok clock
      exact ⟨f', hf', hkeeps⟩
    | delete v =>
      obtain ⟨f', hf', -, hkeeps⟩ := HTTPFetcher.Keeps.unregister hf hok
      exact ⟨f', hf', hkeeps⟩

theorem tcpClient_stores (clock : Nat → Int × Int) :
    (tcpClient clock).Stores tcpTagging routeEqualsTCP (fun _ => True)
      (fun f S => f.routingTable.1.tags = S) where
  failed f first second err h := by
    simp only [tcpClient, TCPFetcher.step, h]
  fetched f S first second routes hf h _ := by
    refine ⟨f.refreshTCPEndpoints clock routes, f.endpoints, ?_, ?_⟩
    · simp only [tcpClient, TCPFetcher.step, h]
    · rw [← hf]
      exact tags_refreshTCPEndpoints f clock routes
  handled f S c hf _ := by
    simp only [tcpClient, TCPFetcher.step, TCPFetcher.handleEvent_event]
    cases c with
    | upsert v => exact ⟨_, rfl, hf ▸ tags_upsert f clock v⟩
    | delete v => exact ⟨_, rfl, hf ▸ tags_delete f clock v⟩

-- ---------------------------------------------------------------------------
-- The invariant
-- ---------------------------------------------------------------------------

section
variable {m : Tagging α κ τ} {same : α → α → Bool} {ok : α → Prop}
  {Keeps : σ → (κ → Option τ) → Prop}
  {rc : RouteClient σ α} {s : RouteFetcher σ α} {seen : List α}

def Serves (m : Tagging α κ τ) (routes : List α) (k : κ) : Prop := ∃ v ∈ routes, m.place v = k

def tagsOf (m : Tagging α κ τ) (seen : List α) : Set (κ × τ) :=
  {x | ∃ v ∈ seen, (m.place v, m.tag v) = x}

def Stale (Keeps : σ → (κ → Option τ) → Prop) (f : σ) (k : κ) : Prop :=
  ∃ S, Keeps f S ∧ (S k).isSome = true

def FetcherCall.listed : FetcherCall α → Option (List α)
  | .fetchRoutes first second => (fetchWithTokenRefresh first second).toOption
  | .handleEvent _ => none

def EventCycle.calls : EventCycle α → List (FetcherCall α)
  | .listed call => [call]
  | _ => []

def Loop.calls : Loop α → List (FetcherCall α)
  | .listed call => [call]
  | _ => []

def RouteFetcher.underWay (s : RouteFetcher σ α) : List (FetcherCall α) :=
  s.cycle.calls ++ s.loop.calls

/-- The store follows the API while there is a stream, and its tags are known
in any case. -/
def RouteFetcher.Tracks (m : Tagging α κ τ) (Keeps : σ → (κ → Option τ) → Prop)
    (s : RouteFetcher σ α) (seen : List α) (S : κ → Option τ) : Prop :=
  match s.stream with
  | none => ∀ k t, S k = some t → (k, t) ∈ tagsOf m seen
  | some source => m.Follows (Serves m s.routes) (tagsOf m seen) (Stale Keeps source.opened)
      (source.refreshed = true) (s.transit ++ source.unread) S

/-- `seen` has all routes that the API has had. -/
structure RouteFetcher.Sound (m : Tagging α κ τ) (ok : α → Prop) (Keeps : σ → (κ → Option τ) → Prop)
    (s : RouteFetcher σ α) (seen : List α) : Prop where
  store : ∃ S, Keeps s.client S ∧ s.Tracks m Keeps seen S
  routes : ∀ v ∈ s.routes, v ∈ seen
  regular : ∀ v ∈ seen, ok v
  known : ∀ c ∈ s.transit ++ (s.stream.elim [] EventSource.unread), ok c.entry ∧
    ∀ v, c = .upsert v → v ∈ seen
  lists : ∀ call ∈ s.underWay, ∃ first second, call = .fetchRoutes first second ∧
    ∀ routes ∈ call.listed, (∀ v ∈ routes, v ∈ seen) ∧
      ∀ source ∈ s.stream, m.Lists (Serves m s.routes) (tagsOf m seen)
        (s.transit ++ source.unread) routes

theorem tagsOf_cons (v : α) (seen : List α) :
    tagsOf m (v :: seen) = insert (m.place v, m.tag v) (tagsOf m seen) := by
  ext x
  simp only [tagsOf, Set.mem_ofPred_eq, List.exists_mem_cons_iff, Set.mem_insert_iff]
  exact or_congr_left eq_comm

theorem mem_tagsOf (h : v ∈ seen) : (m.place v, m.tag v) ∈ tagsOf m seen := ⟨v, h, rfl⟩

theorem mem_noted (h : v ∈ seen) (c : Change α) : v ∈ noted seen c := by
  cases c with
  | upsert w => exact List.mem_cons_of_mem _ h
  | delete w => exact h

theorem tagsOf_noted (seen : List α) (c : Change α) :
    tagsOf m (noted seen c) = m.recorded (tagsOf m seen) c := by
  cases c with
  | upsert v => exact tagsOf_cons v seen
  | delete v => rfl

theorem Names.ordered (h : Names m seen c) : m.Ordered (tagsOf m seen) c := by
  cases c with
  | upsert v => trivial
  | delete v =>
    rintro t ⟨w, hw, hpair⟩
    obtain ⟨hplace, rfl⟩ := Prod.mk.inj hpair
    exact h w hw hplace

theorem RouteFetcher.Tracks.tagged {S : κ → Option τ} (h : s.Tracks m Keeps seen S) (k : κ) (t : τ)
    (ht : S k = some t) :
    (k, t) ∈ tagsOf m seen := by
  rw [RouteFetcher.Tracks] at h
  split at h
  · exact h k t ht
  · exact h.tagged k t ht

theorem Agrees.serves (h : Agrees m routes c routes') :
    Serves m routes' = m.changed (Serves m routes) c := by
  funext k
  apply propext
  cases c with
  | upsert v =>
    obtain ⟨hv, hnew, hold⟩ := h
    constructor
    · rintro ⟨w, hw, rfl⟩
      rcases hnew w hw with rfl | hw
      · exact .inl rfl
      · exact .inr ⟨w, hw, rfl⟩
    · rintro (rfl | ⟨w, hw, rfl⟩)
      · exact ⟨v, hv, rfl⟩
      · exact hold w hw
  | delete v =>
    obtain ⟨hnew, hold⟩ := h
    constructor
    · rintro ⟨w, hw, rfl⟩
      exact ⟨(hnew w hw).2, w, (hnew w hw).1, rfl⟩
    · rintro ⟨hk, w, hw, rfl⟩
      exact hold w hw hk

theorem Agrees.mem_noted (h : Agrees m routes c routes') (hroutes : ∀ v ∈ routes, v ∈ seen)
    (hv : v ∈ routes') :
    v ∈ noted seen c := by
  cases c with
  | upsert w =>
    rcases h.2.1 v hv with rfl | hv
    · exact List.mem_cons_self
    · exact List.mem_cons_of_mem _ (hroutes v hv)
  | delete w => exact hroutes v (h.1 v hv).1

-- ---------------------------------------------------------------------------
-- One step
-- ---------------------------------------------------------------------------

theorem RouteFetcher.Sound.of_eq (h : s.Sound m ok Keeps seen) {t : RouteFetcher σ α}
    (hclient : t.client = s.client) (hroutes : t.routes = s.routes) (hstream : t.stream = s.stream)
    (htransit : t.transit = s.transit) (hway : ∀ call ∈ t.underWay, call ∈ s.underWay) :
    t.Sound m ok Keeps seen := by
  obtain ⟨hstore, hr, hregular, hknown, hlists⟩ := h
  refine ⟨?_, ?_, hregular, ?_, fun call hcall => ?_⟩
  · simpa only [RouteFetcher.Tracks, hclient, hroutes, hstream, htransit] using hstore
  · rwa [hroutes]
  · rwa [htransit, hstream]
  · rw [hroutes, hstream, htransit]
    exact hlists call (hway call hcall)

theorem RouteFetcher.Sound.close (h : s.Sound m ok Keeps seen) {t : RouteFetcher σ α}
    (hclient : t.client = s.client) (hroutes : t.routes = s.routes) (hstream : t.stream = none)
    (htransit : t.transit = s.transit) (hway : ∀ call ∈ t.underWay, call ∈ s.underWay) :
    t.Sound m ok Keeps seen := by
  obtain ⟨S, hS, htracks⟩ := h.store
  refine ⟨⟨S, ?_, ?_⟩, ?_, h.regular, fun c hc => ?_, fun call hcall => ?_⟩
  · rwa [hclient]
  · rw [RouteFetcher.Tracks, hstream]
    exact htracks.tagged
  · rw [hroutes]
    exact h.routes
  · rw [hstream, htransit, Option.elim_none, List.append_nil] at hc
    exact h.known c (List.mem_append_left _ hc)
  · obtain ⟨first, second, rfl, hlisted⟩ := h.lists call (hway call hcall)
    refine ⟨first, second, rfl, fun routes hr => ⟨(hlisted routes hr).1, ?_⟩⟩
    rw [hstream]
    simp

theorem RouteFetcher.Sound.change {next : List α} (h : s.Sound m ok Keeps seen)
    (hagrees : Agrees m s.routes c next) (hc : Names m seen c) (hok : ok c.entry) :
    RouteFetcher.Sound m ok Keeps
      { s with
        routes := next
        stream := s.stream.map fun source => { source with unread := source.unread ++ [c] } }
      (noted seen c) := by
  obtain ⟨hstore, hroutes, hregular, hknown, hlists⟩ := h
  have hserves := hagrees.serves
  refine ⟨?_, fun v hv => hagrees.mem_noted hroutes hv, fun v hv => ?_, fun d hd => ?_,
    fun call hcall => ?_⟩
  · obtain ⟨S, hS, htracks⟩ := hstore
    refine ⟨S, hS, ?_⟩
    simp only [RouteFetcher.Tracks, tagsOf_noted, hserves] at htracks ⊢
    cases hstream : s.stream with
    | none =>
      rw [hstream] at htracks
      exact fun k t ht => m.subset_recorded _ c (htracks k t ht)
    | some source =>
      rw [hstream] at htracks
      simp only [Option.map_some, RouteFetcher.transit, ← List.append_assoc]
      exact htracks.change hc.ordered
  · cases c with
    | upsert w =>
      rcases List.mem_cons.mp hv with rfl | hv
      · exact hok
      · exact hregular v hv
    | delete w => exact hregular v hv
  · have hold : d ∈ s.transit ++ s.stream.elim [] EventSource.unread ∨ d = c := by
      cases hstream : s.stream with
      | none =>
        rw [hstream] at hd
        exact .inl hd
      | some source =>
        rw [hstream] at hd
        simp only [Option.map_some, Option.elim_some, ← List.append_assoc] at hd
        rcases List.mem_append.mp hd with hd | hd
        · exact .inl hd
        · exact .inr (List.mem_singleton.mp hd)
    rcases hold with hd | rfl
    · exact ⟨(hknown d hd).1, fun v hv => mem_noted ((hknown d hd).2 v hv) c⟩
    · refine ⟨hok, ?_⟩
      rintro v rfl
      exact List.mem_cons_self
  · obtain ⟨first, second, rfl, hlisted⟩ := hlists call hcall
    refine ⟨first, second, rfl, fun routes hr =>
      ⟨fun v hv => mem_noted ((hlisted routes hr).1 v hv) c, ?_⟩⟩
    intro source hsource
    obtain ⟨source, hs, rfl⟩ := Option.map_eq_some_iff.mp hsource
    rw [hserves, tagsOf_noted]
    have hl := ((hlisted routes hr).2 source hs).change c
    rwa [List.append_assoc] at hl

theorem mem_tagsOf_of_known {c : Change α} (h : ∀ v, c = .upsert v → v ∈ seen) (v : α)
    (hv : c = .upsert v) :
    (m.place v, m.tag v) ∈ tagsOf m seen := mem_tagsOf (h v hv)

variable [DecidableEq κ]

theorem RouteFetcher.Sound.finish (h : s.Sound m ok Keeps seen) (hrc : rc.Stores m same ok Keeps)
    (hcall : call ∈ s.underWay) (hstep : s.finish rc call = some t) :
    t.Sound m ok Keeps seen ∧ t.cycle = s.cycle ∧ t.loop = s.loop ∧
      t.eventChannel = s.eventChannel := by
  obtain ⟨S, hS, htracks⟩ := h.store
  obtain ⟨first, second, rfl, hlisted⟩ := h.lists call hcall
  simp only [RouteFetcher.finish] at hstep
  cases hfetch : fetchWithTokenRefresh first second with
  | error err =>
    rw [hrc.failed s.client first second err hfetch, hfetch] at hstep
    cases hstep
    exact ⟨h, rfl, rfl, rfl⟩
  | ok routes =>
    obtain ⟨hseen, hlists⟩ := hlisted routes (by rw [FetcherCall.listed, hfetch]; rfl)
    obtain ⟨f', last, hf', hkeeps⟩ :=
      hrc.fetched s.client S first second routes hS hfetch fun v hv => h.regular v (hseen v hv)
    rw [hf', hfetch] at hstep
    cases hstep
    refine ⟨⟨⟨_, hkeeps, ?_⟩, h.routes, h.regular, fun c hc => h.known c ?_, fun call hcall => ?_⟩,
      rfl, rfl, rfl⟩
    · simp only [RouteFetcher.Tracks] at htracks ⊢
      cases hstream : s.stream with
      | none =>
        rw [hstream] at htracks
        exact Tagging.sync_tagged htracks (fun v hv => mem_tagsOf (hseen v hv)) last
      | some source =>
        rw [hstream] at htracks
        exact htracks.sync (hlists source hstream) last
    · cases hstream : s.stream with
      | none =>
        rw [hstream] at hc
        exact hc
      | some source =>
        rw [hstream] at hc
        exact hc
    · obtain ⟨first, second, rfl, hlisted⟩ := h.lists call hcall
      refine ⟨first, second, rfl, fun routes hr =>
        ⟨(hlisted routes hr).1, fun source hsource => ?_⟩⟩
      obtain ⟨source, hs, rfl⟩ := Option.map_eq_some_iff.mp hsource
      exact (hlisted routes hr).2 source hs

theorem RouteFetcher.Sound.handle (h : s.Sound m ok Keeps seen) (hrc : rc.Stores m same ok Keeps)
    (hidle : s.underWay = []) (hchannel : s.eventChannel = c :: rest)
    (hcall : rc.call s.client (.handleEvent (some c.event)) = some f) :
    RouteFetcher.Sound m ok Keeps { s with client := f, eventChannel := rest } seen := by
  obtain ⟨S, hS, htracks⟩ := h.store
  have htransit : s.transit = c :: (rest ++ s.cycle.hand) := by
    rw [RouteFetcher.transit, hchannel, List.cons_append]
  have hknown := h.known
  rw [htransit, List.cons_append] at hknown
  obtain ⟨hokc, hupsert⟩ := hknown c List.mem_cons_self
  obtain ⟨f', hf', hkeeps⟩ := hrc.handled s.client S c hS hokc
  rw [hcall] at hf'
  cases hf'
  have hnone : ∀ call, call ∉ s.underWay := by simp [hidle]
  refine ⟨⟨_, hkeeps, ?_⟩, h.routes, h.regular, fun d hd => hknown d (List.mem_cons_of_mem _ hd),
    fun call hcall => absurd hcall (hnone call)⟩
  simp only [RouteFetcher.Tracks] at htracks ⊢
  cases hstream : s.stream with
  | none =>
    rw [hstream] at htracks
    exact Tagging.apply_tagged htracks (mem_tagsOf_of_known hupsert)
  | some source =>
    rw [hstream, htransit] at htracks
    exact htracks.handle (mem_tagsOf_of_known hupsert)

omit [DecidableEq κ] in
theorem RouteFetcher.Sound.fetchRoutes (h : s.Sound m ok Keeps seen) (first second : Answer) :
    ∀ routes ∈ (s.fetchRoutes first second).listed, (∀ v ∈ routes, v ∈ seen) ∧
      ∀ pending, m.Lists (Serves m s.routes) (tagsOf m seen) pending routes := by
  intro routes hr
  obtain rfl : s.routes = routes := by
    simp only [RouteFetcher.fetchRoutes, FetcherCall.listed] at hr
    cases first with
    | tokenError err => cases hr
    | error err =>
      simp only [Answer.attempt, fetchWithTokenRefresh] at hr
      split at hr
      · cases second with
        | tokenError err => cases hr
        | error err => cases hr
        | ok =>
          cases hr
          rfl
      · cases hr
    | ok =>
      cases hr
      rfl
  exact ⟨h.routes, fun pending => ⟨fun k _ => Iff.rfl, fun v hv => mem_tagsOf (h.routes v hv)⟩⟩

omit [DecidableEq κ] in
theorem RouteFetcher.Sound.list (h : s.Sound m ok Keeps seen) {t : RouteFetcher σ α}
    (hclient : t.client = s.client) (hroutes : t.routes = s.routes) (hstream : t.stream = s.stream)
    (htransit : t.transit = s.transit) (first second : Answer)
    (hway : t.underWay = [s.fetchRoutes first second]) : t.Sound m ok Keeps seen := by
  have hlisted := h.fetchRoutes first second
  obtain ⟨hstore, hr, hregular, hknown, -⟩ := h
  refine ⟨?_, ?_, hregular, ?_, fun call hcall => ?_⟩
  · simpa only [RouteFetcher.Tracks, hclient, hroutes, hstream, htransit] using hstore
  · rwa [hroutes]
  · rwa [htransit, hstream]
  · rw [hway, List.mem_singleton] at hcall
    subst hcall
    refine ⟨_, _, rfl, fun routes hr => ⟨(hlisted routes hr).1, fun source _ => ?_⟩⟩
    rw [hroutes]
    exact (hlisted routes hr).2 _

omit [DecidableEq κ] in
theorem RouteFetcher.Sound.subscribe (h : s.Sound m ok Keeps seen) {t : RouteFetcher σ α}
    (hclient : t.client = s.client) (hroutes : t.routes = s.routes)
    (hstream : t.stream = some ⟨[], s.client, false⟩) (htransit : t.transit = [])
    (hway : t.underWay = []) : t.Sound m ok Keeps seen := by
  obtain ⟨S, hS, htracks⟩ := h.store
  refine ⟨⟨S, ?_, ?_⟩, ?_, h.regular, ?_, ?_⟩
  · rwa [hclient]
  · rw [RouteFetcher.Tracks, hstream, htransit]
    have hnil : m.Follows (Serves m t.routes) (tagsOf m seen) _ False [] S :=
      Tagging.follows_nil htracks.tagged
    exact ⟨hnil.announces, hnil.tagged, fun hr => (Bool.noConfusion hr),
      fun k _ hk => .inr ⟨S, hS, hk⟩⟩
  · rw [hroutes]
    exact h.routes
  · rw [hstream, htransit]
    simp
  · rw [hway]
    simp

omit [DecidableEq κ] in
theorem RouteFetcher.Sound.move (h : s.Sound m ok Keeps seen) {t : RouteFetcher σ α}
    (hclient : t.client = s.client) (hroutes : t.routes = s.routes) (hstream : t.stream = s.stream)
    (hchannel : t.eventChannel = s.eventChannel) (hloop : t.loop = s.loop)
    (hhand : t.cycle.hand = s.cycle.hand) (hcalls : t.cycle.calls = []) :
    t.Sound m ok Keeps seen := by
  refine h.of_eq hclient hroutes hstream ?_ fun call hcall => ?_
  · rw [RouteFetcher.transit, RouteFetcher.transit, hchannel, hhand]
  · rw [RouteFetcher.underWay, hcalls, hloop, List.nil_append] at hcall
    exact List.mem_append_right _ hcall

omit [DecidableEq κ] in
theorem Loop.calls_eq_nil {loop : Loop α} (h : loop.isSelect = true) : loop.calls = [] := by
  cases loop with
  | select => rfl
  | listed call => cases h
  | returned => rfl

omit [DecidableEq κ] in
theorem EventCycle.calls_eq_nil {cycle : EventCycle α} (h : cycle.isListed = false) :
    cycle.calls = [] := by
  cases cycle with
  | listed call => cases h
  | _ => rfl

omit [DecidableEq κ] in
theorem RouteFetcher.mem_underWay (s : RouteFetcher σ α) (call : FetcherCall α)
    (h : call ∈ s.cycle.calls ++ []) :
    call ∈ s.underWay := by
  rw [List.append_nil] at h
  exact List.mem_append_left _ h

theorem RouteFetcher.Sound.step (h : s.Sound m ok Keeps seen) (hrc : rc.Stores m same ok Keeps)
    (hquiet : s.Undisturbed e) (hannounced : s.Announced m e)
    (hnames : ∀ c ∈ e.change?, Names m seen c ∧ ok c.entry) (hstep : s.step rc e = some t) :
    t.Sound m ok Keeps (e.change?.elim seen (noted seen)) := by
  cases e with
  | change c routes =>
    cases hstep
    exact h.change hannounced (hnames c rfl).1 (hnames c rfl).2
  | token b =>
    simp only [RouteFetcher.step] at hstep
    split at hstep
    · next hcycle =>
      cases b with
      | false =>
        cases hstep
        exact h
      | true =>
        cases hstep
        exact h.move rfl rfl rfl rfl rfl (by rw [hcycle]; rfl) rfl
    · cases hstep
  | check =>
    simp only [RouteFetcher.step] at hstep
    split at hstep
    · next hcycle =>
      cases hstep
      refine h.move rfl rfl rfl rfl rfl ?_ ?_
      · rw [hcycle]
        split <;> rfl
      · split <;> rfl
    · cases hstep
  | subscribe err =>
    simp only [RouteFetcher.step] at hstep
    split at hstep
    · next hcycle =>
      split at hstep
      · cases err with
        | none =>
          cases hstep
          obtain ⟨hselect, hchannel⟩ := hquiet
          refine h.subscribe rfl rfl rfl ?_ ?_
          · rw [RouteFetcher.transit, hchannel]
            rfl
          · rw [RouteFetcher.underWay, Loop.calls_eq_nil hselect]
            rfl
        | some err =>
          cases hstep
          exact h.move rfl rfl rfl rfl rfl (by rw [hcycle]; rfl) rfl
      · cases hstep
        exact h.move rfl rfl rfl rfl rfl (by rw [hcycle]; rfl) rfl
    · cases hstep
  | list first second =>
    simp only [RouteFetcher.step] at hstep
    split at hstep
    · next hcycle =>
      cases hstep
      refine h.list rfl rfl rfl ?_ first second ?_
      · rw [RouteFetcher.transit, RouteFetcher.transit, hcycle]
        rfl
      · rw [RouteFetcher.underWay, Loop.calls_eq_nil hquiet]
        rfl
    · cases hstep
  | refresh =>
    simp only [RouteFetcher.step] at hstep
    split at hstep
    · next call hcycle =>
      obtain ⟨u, hu, rfl⟩ := Option.map_eq_some_iff.mp hstep
      have hcall : call ∈ s.underWay := by
        rw [RouteFetcher.underWay, hcycle]
        exact List.mem_cons_self
      obtain ⟨hsound, hc, -⟩ := h.finish hrc hcall hu
      exact hsound.move rfl rfl rfl rfl rfl (by rw [hc, hcycle]; rfl) rfl
    · cases hstep
  | store =>
    simp only [RouteFetcher.step] at hstep
    split at hstep
    · next hcycle =>
      cases hstep
      exact h.move rfl rfl rfl rfl rfl (by rw [hcycle]; rfl) rfl
    · cases hstep
  | next err =>
    cases err with
    | some err =>
      simp only [RouteFetcher.step] at hstep
      split at hstep
      · next hcycle =>
        cases hstep
        refine h.close rfl rfl rfl ?_ fun call hcall => List.mem_append_right _ hcall
        rw [RouteFetcher.transit, RouteFetcher.transit, hcycle]
        rfl
      · cases hstep
    | none =>
      simp only [RouteFetcher.step] at hstep
      split at hstep
      · next source hcycle hstream =>
        split at hstep
        · cases hstep
        · next event unread hunread =>
          cases hstep
          -- the event goes from the stream to the hand
          have htransit : s.transit ++ source.unread = s.eventChannel ++ [event] ++ unread := by
            rw [RouteFetcher.transit, hcycle, hunread]
            simp [EventCycle.hand]
          obtain ⟨hstore, hroutes, hregular, hknown, hlists⟩ := h
          refine ⟨?_, hroutes, hregular, ?_, fun call hcall => ?_⟩
          · simp only [RouteFetcher.Tracks, hstream, htransit] at hstore
            exact hstore
          · rw [hstream, Option.elim_some, htransit] at hknown
            exact hknown
          · obtain ⟨first, second, rfl, hlisted⟩ := hlists call (List.mem_append_right _ hcall)
            refine ⟨first, second, rfl, fun routes hr => ⟨(hlisted routes hr).1, ?_⟩⟩
            rintro source' ⟨⟩
            have hl := (hlisted routes hr).2 source hstream
            rw [htransit] at hl
            exact hl
      · cases hstep
  | push =>
    simp only [RouteFetcher.step] at hstep
    split at hstep
    · next event hcycle =>
      split at hstep
      · cases hstep
        refine h.of_eq rfl rfl rfl ?_ fun call hcall => List.mem_append_right _ hcall
        rw [RouteFetcher.transit, RouteFetcher.transit, hcycle]
        exact List.append_nil _
      · cases hstep
    · cases hstep
  | resume =>
    simp only [RouteFetcher.step] at hstep
    split at hstep
    · next hcycle =>
      cases hstep
      refine h.move rfl rfl rfl rfl rfl ?_ ?_
      · rw [hcycle]
        split <;> rfl
      · split <;> rfl
    · cases hstep
  | wake =>
    simp only [RouteFetcher.step] at hstep
    split at hstep
    · next hcycle =>
      cases hstep
      exact h.move rfl rfl rfl rfl rfl (by rw [hcycle]; rfl) rfl
    · cases hstep
  | tick first second =>
    simp only [RouteFetcher.step] at hstep
    split at hstep
    · cases hstep
      refine h.list rfl rfl rfl rfl first second ?_
      rw [RouteFetcher.underWay, EventCycle.calls_eq_nil hquiet]
      rfl
    · cases hstep
  | sync =>
    simp only [RouteFetcher.step] at hstep
    split at hstep
    · next call hloop =>
      obtain ⟨u, hu, rfl⟩ := Option.map_eq_some_iff.mp hstep
      have hcall : call ∈ s.underWay := by
        rw [RouteFetcher.underWay, hloop]
        exact List.mem_append_right _ List.mem_cons_self
      exact (h.finish hrc hcall hu).1.of_eq rfl rfl rfl rfl u.mem_underWay
    · cases hstep
  | handle =>
    simp only [RouteFetcher.step] at hstep
    split at hstep
    · next event rest hloop hchannel =>
      obtain ⟨f, hf, rfl⟩ := Option.map_eq_some_iff.mp hstep
      refine h.handle hrc ?_ hchannel hf
      rw [RouteFetcher.underWay, EventCycle.calls_eq_nil hquiet, hloop]
      rfl
    · cases hstep
  | signal =>
    simp only [RouteFetcher.step] at hstep
    split at hstep
    · next hloop =>
      cases hstep
      by_cases hstored : s.eventSource = some s.subscriptions
      · exact h.close rfl rfl (if_pos hstored) rfl s.mem_underWay
      · exact h.of_eq rfl rfl (if_neg hstored) rfl s.mem_underWay
    · cases hstep

-- ---------------------------------------------------------------------------
-- Runs
-- ---------------------------------------------------------------------------

theorem RouteFetcher.Sound.run (h : s.Sound m ok Keeps seen) (hrc : rc.Stores m same ok Keeps)
    (hquiet : Along (RouteFetcher.step rc) (fun s e => s.Undisturbed e ∧ s.Announced m e) s es)
    (horderly : OrderlyFrom m seen (es.filterMap FetcherEvent.change?))
    (hregular : ∀ c ∈ es.filterMap FetcherEvent.change?, ok c.entry)
    (hrun : Lib.run (RouteFetcher.step rc) s es = some t) : ∃ seen, t.Sound m ok Keeps seen := by
  induction es generalizing s seen with
  | nil =>
    cases hrun
    exact ⟨seen, h⟩
  | cons e es ih =>
    obtain ⟨u, hu, hrun⟩ := run_cons_eq_some.mp hrun
    obtain ⟨hC, hquiet⟩ := hquiet u hu
    cases hchange : e.change? with
    | none =>
      rw [List.filterMap_cons_none hchange] at horderly hregular
      have hsound := h.step hrc hC.1 hC.2 (by simp [hchange]) hu
      rw [hchange] at hsound
      exact ih hsound hquiet horderly hregular hrun
    | some c =>
      rw [List.filterMap_cons_some hchange] at horderly hregular
      have hsound := h.step hrc hC.1 hC.2 (by
        rw [hchange]
        rintro d ⟨⟩
        exact ⟨horderly.1, hregular c List.mem_cons_self⟩) hu
      rw [hchange] at hsound
      exact ih hsound hquiet horderly.2 (fun d hd => hregular d (List.mem_cons_of_mem _ hd)) hrun

/-- When all events of a stream are handled the client has what the API has,
and perhaps some of what it had when the stream was opened. -/
theorem Fed.settled (h : Fed rc m ok client routes es s source) (hrc : rc.Stores m same ok Keeps)
    (hclient : Keeps client fun _ => none) :
      ∃ S, Keeps s.client S ∧ ∀ k, (Serves m s.routes k → (S k).isSome = true) ∧
      ((S k).isSome = true → Serves m s.routes k ∨ Stale Keeps source.opened k) := by
  have hstart : (RouteFetcher.start client routes).Sound m ok Keeps routes := by
    refine ⟨⟨_, hclient, ?_⟩, fun v hv => hv, h.regular.1, ?_, ?_⟩
    · simp [RouteFetcher.Tracks, RouteFetcher.start]
    · simp [RouteFetcher.start, RouteFetcher.transit, EventCycle.hand]
    · simp [RouteFetcher.start, RouteFetcher.underWay, EventCycle.calls, Loop.calls]
  obtain ⟨seen, hsound⟩ := hstart.run hrc h.undisturbed h.orderly h.regular.2 h.run
  obtain ⟨S, hS, htracks⟩ := hsound.store
  rw [RouteFetcher.Tracks, h.stream] at htracks
  simp only [h.handled] at htracks
  exact ⟨S, hS, htracks.settled h.refreshed⟩

end

-- ---------------------------------------------------------------------------
-- The registry and the routing table
-- ---------------------------------------------------------------------------

/-- All routes of the API are registered, and of others only some that were
registered before. -/
def HTTPFetcher.Follows (lower : Lower) (f before : HTTPFetcher)
    (routes : List Models.Route) : Prop :=
  ∀ uri ip port,
    ((∃ v ∈ routes, v.At lower uri ip port) →
      (f.routeRegistry.1.registered lower uri ip port).isSome = true) ∧
    ((f.routeRegistry.1.registered lower uri ip port).isSome = true →
      (∃ v ∈ routes, v.At lower uri ip port) ∨
        (before.routeRegistry.1.registered lower uri ip port).isSome = true)

def TCPFetcher.Follows (f before : TCPFetcher) (routes : List Models.TcpRouteMapping) : Prop :=
  ∀ port bk,
    ((∃ v ∈ routes, v.triple = (port, bk)) → f.routingTable.1.backendExists port bk = true) ∧
    (f.routingTable.1.backendExists port bk = true →
      (∃ v ∈ routes, v.triple = (port, bk)) ∨ before.routingTable.1.backendExists port bk = true)

theorem backendExists_eq_isSome (table : RoutingTable) (port : UInt16) (bk : BackendServerKey) :
    table.backendExists port bk = (table.tags (port, bk)).isSome := by
  rw [RoutingTable.tags, Option.isSome_map]
  exact has_eq_isSome table (port, bk)

theorem Fed.tcp (h : Fed (tcpClient times) tcpTagging (fun _ => True)
    (newTCPFetcher (newRoutingTable c listener)) mappings es s source) :
    s.client.Follows source.opened s.routes := by
  obtain ⟨S, rfl, hsettled⟩ := h.settled (tcpClient_stores times) rfl
  intro port bk
  obtain ⟨hhas, hbounded⟩ := hsettled (port, bk)
  rw [backendExists_eq_isSome, backendExists_eq_isSome]
  refine ⟨hhas, fun hk => (hbounded hk).imp_right ?_⟩
  rintro ⟨S', rfl, hk'⟩
  exact hk'

namespace Sample

def session (rest : List α) (v : α) : List (FetcherEvent α) :=
  [.token true, .check, .subscribe none, .change (.upsert v) (v :: rest), .list .ok .ok,
    .refresh, .store, .change (.delete v) rest, .next none, .push, .handle, .tick .ok .ok,
    .next none, .sync, .push, .handle]

end Sample

end BigipCtlr
