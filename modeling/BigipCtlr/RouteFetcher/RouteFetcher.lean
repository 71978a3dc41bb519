import BigipCtlr.Lib.Feed
import BigipCtlr.RouteFetcher.Fetcher

/-!
# The route fetcher

`RouteFetcher`: the loop of `Run`, and the goroutine of `startEventCycle`, which
subscribes to the events of the routing API and passes them to the loop through
a channel. An event of a run is what one of the two does next, or a change that
the API tells of, with the routes that it has from then on. A step that is not
possible, or panics, is `none`.
-/

namespace BigipCtlr

open Go Lib

/-- `RouteClient`, with `FetchRoutes` and `HandleEvent` as calls. -/
structure RouteClient (σ α : Type) where
  clientProtocol : Str
  call : σ → FetcherCall α → Option σ

def httpClient (lower : Lower) (clock : Nat → Int) : RouteClient HTTPFetcher Models.Route :=
  ⟨"http".toList, HTTPFetcher.step lower clock⟩

def tcpClient (clock : Nat → Int × Int) : RouteClient TCPFetcher Models.TcpRouteMapping :=
  ⟨"tcp".toList, fun f c => some (f.step clock c)⟩

-- ---------------------------------------------------------------------------
-- The routing API
-- ---------------------------------------------------------------------------

def Lib.Change.event : Change α → ApiEvent α
  | .upsert v => ⟨v, "Upsert".toList⟩
  | .delete v => ⟨v, "Delete".toList⟩

inductive Answer
  | tokenError (err : Str)
  | error (err : Str)
  | ok

def Answer.attempt (routes : List α) : Answer → Attempt α
  | .tokenError err => .tokenError err
  | .error err => .error err
  | .ok => .routes routes

-- ---------------------------------------------------------------------------
-- The two goroutines
-- ---------------------------------------------------------------------------

/-- Where the goroutine of `startEventCycle` is. A call that is under way has
read the routes of the API already. -/
inductive EventCycle (α : Type)
  | fetchToken
  | tokenFetched
  | subscribe
  | subscribed
  | listed (call : FetcherCall α)
  | refreshed
  | next
  | received (event : Change α)
  | failed (err : Str)
  | sleeping
  | returned

inductive Loop (α : Type)
  | select
  | listed (call : FetcherCall α)
  | returned

/-- A stream of events that is open: what the API has sent on it and is not read
yet. Of its past, the client when it was opened, and whether routes have been
refreshed that were read since then. -/
structure EventSource (σ α : Type) where
  unread : List (Change α)
  opened : σ
  refreshed : Bool

/-- The fetcher with its client, and the API. `subscriptions` counts the event
sources: the last one is that of the stream, and `eventSource` is the one that
is stored. -/
structure RouteFetcher (σ α : Type) where
  client : σ
  stopEventSource : Bool
  eventSource : Option Nat
  eventChannel : List (Change α)
  forceUpdate : Bool
  cycle : EventCycle α
  loop : Loop α
  routes : List α
  stream : Option (EventSource σ α)
  subscriptions : Nat

/-- `NewRouteFetcher`, and `Run` until it is ready. -/
def RouteFetcher.start (client : σ) (routes : List α) : RouteFetcher σ α where
  client := client
  stopEventSource := false
  eventSource := none
  eventChannel := []
  forceUpdate := false
  cycle := .fetchToken
  loop := .select
  routes := routes
  stream := none
  subscriptions := 0

inductive FetcherEvent (α : Type)
  | change (c : Change α) (routes : List α)
  | token (ok : Bool)
  | check
  | subscribe (err : Option Str)
  | list (first second : Answer)
  | refresh
  | store
  | next (err : Option Str)
  | push
  | resume
  | wake
  | tick (first second : Answer)
  | sync
  | handle
  | signal

namespace RouteFetcher

/-- `FetchRoutes` is under way, with the routes that the API has now. -/
def fetchRoutes (s : RouteFetcher σ α) (first second : Answer) : FetcherCall α :=
  .fetchRoutes (first.attempt s.routes) (second.attempt s.routes)

def finish (rc : RouteClient σ α) (s : RouteFetcher σ α) (call : FetcherCall α) :
    Option (RouteFetcher σ α) :=
  (rc.call s.client call).map fun client =>
    match call with
    | .fetchRoutes first second =>
      match fetchWithTokenRefresh first second with
      | .ok _ => { s with client := client,
                          stream := s.stream.map fun source => { source with refreshed := true } }
      | .error _ => { s with client := client }
    | .handleEvent _ => { s with client := client }

def step (rc : RouteClient σ α) (s : RouteFetcher σ α) : FetcherEvent α → Option (RouteFetcher σ α)
  | .change c routes =>
    some { s with
      routes := routes
      stream := s.stream.map fun source => { source with unread := source.unread ++ [c] } }
  | .token ok =>
    match s.cycle with
    -- without a token the next one is asked for at once
    | .fetchToken => some (if ok then { s with cycle := .tokenFetched } else s)
    | _ => none
  | .check =>
    match s.cycle with
    | .tokenFetched => some { s with cycle := if s.stopEventSource then .returned else .subscribe }
    | _ => none
  | .subscribe err =>
    match s.cycle with
    | .subscribe =>
      if rc.clientProtocol = "http".toList ∨ rc.clientProtocol = "tcp".toList then
        match err with
        | none =>
          some { s with
            cycle := .subscribed
            stream := some ⟨[], s.client, false⟩
            subscriptions := s.subscriptions + 1 }
        | some err => some { s with cycle := .failed err }
      else some { s with cycle := .failed "Unknown protocol".toList }
    | _ => none
  | .list first second =>
    match s.cycle with
    | .subscribed => some { s with cycle := .listed (s.fetchRoutes first second) }
    | _ => none
  | .refresh =>
    match s.cycle with
    | .listed call => (s.finish rc call).map fun s => { s with cycle := .refreshed }
    | _ => none
  | .store =>
    match s.cycle with
    | .refreshed => some { s with eventSource := some s.subscriptions, cycle := .next }
    | _ => none
  | .next (some err) =>
    match s.cycle with
    | .next => some { s with stream := none, cycle := .failed err }
    | _ => none
  | .next none =>
    match s.cycle, s.stream with
    | .next, some source =>
      match source.unread with
      | [] => none
      | event :: unread =>
        some { s with stream := some { source with unread := unread }, cycle := .received event }
    | _, _ => none
  | .push =>
    match s.cycle with
    | .received event =>
      if s.eventChannel.length < 1024 then
        some { s with eventChannel := s.eventChannel ++ [event], cycle := .next }
      else none
    | _ => none
  | .resume =>
    match s.cycle with
    | .failed err =>
      some { s with
        forceUpdate := err = unauthorized
        cycle := if s.stopEventSource then .returned else .sleeping }
    | _ => none
  | .wake =>
    match s.cycle with
    | .sleeping => some { s with cycle := .fetchToken }
    | _ => none
  | .tick first second =>
    match s.loop with
    | .select => some { s with loop := .listed (s.fetchRoutes first second) }
    | _ => none
  | .sync =>
    match s.loop with
    | .listed call => (s.finish rc call).map fun s => { s with loop := .select }
    | _ => none
  | .handle =>
    match s.loop, s.eventChannel with
    | .select, event :: rest =>
      (rc.call s.client (.handleEvent (some event.event))).map fun client =>
        { s with client := client, eventChannel := rest }
    | _, _ => none
  | .signal =>
    match s.loop with
    | .select =>
      some { s with
        stopEventSource := true
        stream := if s.eventSource = some s.subscriptions then none else s.stream
        loop := .returned }
    | _ => none

end RouteFetcher

end BigipCtlr
