import BigipCtlr.F5Router.UpdateLaws
import BigipCtlr.Registry.Table
import Mathlib.Data.Finset.Insert

/-!
# The updates mirror the registry

Replaying the updates that went to the listener, by object name and address,
gives the pools of the trie. An update is named after the route key when it
comes from a call and after the path of the trie node when it comes from
pruning; both are the same text for keys without slashes at their ends.
-/

namespace BigipCtlr.Registry

open Go Lib Route

abbrev Listing := Str → Finset Str

def Listing.apply (S : Listing) (u : UpdateHTTP) : Listing :=
  match u.op, u.endpoint with
  | .add, some e => Function.update S u.name (insert e.canonicalAddr (S u.name))
  | .remove, some e => Function.update S u.name ((S u.name).erase e.canonicalAddr)
  | _, _ => S

def Listing.replay (us : List UpdateHTTP) : Listing := us.foldl Listing.apply fun _ => ∅

def Sent.place (s : Sent) : Option (List Str × Str) :=
  s.update.endpoint.map fun e => (s.node, e.canonicalAddr)

/-- The last update before about the same endpoint is an Add with the same
URI and name. -/
def Paired (before : List Sent) (s : Sent) : Prop :=
  ∃ pre add post, before = pre ++ add :: post ∧ add.update.op = .add ∧ add.place = s.place ∧
    add.update.uri = s.update.uri ∧ add.update.name = s.update.name ∧ ∀ w ∈ post, w.place ≠ s.place

structure Mirrors (r : RouteRegistry) (sent : List Sent) : Prop where
  paired : ∀ before s after, sent = before ++ s :: after → s.update.op = .remove → Paired before s
  routes : ∀ node p, r.byURI.poolAt node = some p →
    ∃ name, makeObjectName (toPath node) = some name ∧
    ∀ a, a ∈ Listing.replay (sent.map Sent.update) name ↔ a ∈ p.addresses
  others : ∀ name, (∀ node p, r.byURI.poolAt node = some p →
    makeObjectName (toPath node) ≠ some name) →
    Listing.replay (sent.map Sent.update) name = ∅

/-- The calls under which it holds: route keys without a slash at either end
that give a name, different names for different keys, and no private id that
reads as an address. -/
structure Spelled (lower : Lower) (calls : List Call) : Prop where
  ids : ∀ c ∈ calls, ∀ e ∈ c.endpoint, ¬ IsAddress e.privateInstanceId
  slashes : ∀ c ∈ calls, ∀ u ∈ c.uri, ¬ "/".toList <+: u.routeKey lower ∧
    ¬ "/".toList <:+ u.routeKey lower
  named : ∀ c ∈ calls, ∀ u ∈ c.uri, (makeObjectName (u.routeKey lower)).isSome = true
  apart : ∀ c ∈ calls, ∀ u ∈ c.uri, ∀ c' ∈ calls, ∀ u' ∈ c'.uri,
    makeObjectName (u.routeKey lower) = makeObjectName (u'.routeKey lower) →
      u.routeKey lower = u'.routeKey lower

theorem string_of_not_slash {key : Uri} (h : ¬ "/".toList <:+ key) : key.string = key :=
  trimSuffix_of_not h

theorem toPath_segments {key : Uri} (hpre : ¬ "/".toList <+: key) (hsuf : ¬ "/".toList <:+ key) :
    toPath (segments key) = key := by
  rw [segments, string_of_not_slash hsuf, trimPrefix_of_not hpre, toPath, split,
    List.intercalate_splitOn]

-- ---------------------------------------------------------------------------
-- One update
-- ---------------------------------------------------------------------------

structure Request.Proper (keys : Set (List Str)) (q : Request) : Prop where
  key : q.node ∈ keys
  path : q.uri = toPath q.node

structure Named (keys : Set (List Str)) : Prop where
  name : ∀ k ∈ keys, ∃ name, makeObjectName (toPath k) = some name ∧
    makeObjectName (Uri.string (toPath k)) = some name
  apart : ∀ k ∈ keys, ∀ k' ∈ keys, makeObjectName (toPath k) = makeObjectName (toPath k') → k = k'

/-- The endpoints that the updates leave: each was introduced by an Add that
nothing followed, and the replay lists it under the name of its key. -/
structure Tracked (keys : Set (List Str)) (live : Set (List Str × Str))
    (sent : List Sent) : Prop where
  keyed : ∀ x ∈ live, x.1 ∈ keys
  added : ∀ x ∈ live, ∃ pre add post, sent = pre ++ add :: post ∧ add.update.op = .add ∧
    add.place = some x ∧
    add.update.uri = toPath x.1 ∧ ∀ w ∈ post, w.place ≠ some x
  paired : ∀ before s after, sent = before ++ s :: after → s.update.op = .remove → Paired before s
  replay : ∀ name a, a ∈ Listing.replay (sent.map Sent.update) name ↔
    ∃ k, (k, a) ∈ live ∧ makeObjectName (toPath k) = some name

theorem tracked_nil (keys : Set (List Str)) : Tracked keys ∅ [] where
  keyed := by simp
  added := by simp
  paired := by simp
  replay := by simp [Listing.replay]

theorem replay_concat (sent : List Sent) (s : Sent) :
    Listing.replay ((sent ++ [s]).map Sent.update) =
      (Listing.replay (sent.map Sent.update)).apply s.update := by
  rw [Listing.replay, List.map_append, List.foldl_append]
  rfl

theorem concat_eq_append_cons {sent before after : List α}
    (h : sent ++ [s] = before ++ t :: after) :
    (sent = before ∧ s = t) ∨ ∃ after', sent = before ++ t :: after' := by
  obtain rfl | ⟨after', x, rfl⟩ := after.eq_nil_or_concat
  · have := List.append_inj' h rfl
    exact .inl ⟨this.1, by simpa using this.2⟩
  · rw [List.concat_eq_append, ← List.cons_append, ← List.append_assoc] at h
    exact .inr ⟨after', (List.append_inj' h rfl).1⟩

def RouteTable.live (T : RouteTable) : Set (List Str × Str) := {x | T.entries x.1 x.2 ≠ none}

theorem live_resume (T : RouteTable) (fresh : Int) : (T.resume fresh).live = T.live := by
  ext x
  simp only [RouteTable.live, RouteTable.resume, Set.mem_ofPred_eq]
  split
  · simp
  · rfl

section
variable {keys : Set (List Str)} {live : Set (List Str × Str)} {sent : List Sent}

theorem Tracked.added_concat (h : Tracked keys live sent) (hx : x ∈ live) (hs : s.place ≠ some x) :
    ∃ pre add post, sent ++ [s] = pre ++ add :: post ∧ add.update.op = .add ∧ add.place = some x ∧
      add.update.uri = toPath x.1 ∧ ∀ w ∈ post, w.place ≠ some x := by
  obtain ⟨pre, add, post, rfl, hop, hplace, huri, hpost⟩ := h.added x hx
  refine ⟨pre, add, post ++ [s], by simp, hop, hplace, huri, fun w hw => ?_⟩
  rcases List.mem_append.mp hw with hw | hw
  · exact hpost w hw
  · rwa [List.mem_singleton.mp hw]

theorem Tracked.add (h : Tracked keys live sent) (hn : Named keys) {s : Sent}
    (hop : s.update.op = .add) (hk : s.node ∈ keys) (huri : s.update.uri = toPath s.node)
    (he : s.update.endpoint = some e) :
    Tracked keys (insert (s.node, e.canonicalAddr) live) (sent ++ [s]) := by
  obtain ⟨name, hname, hstring⟩ := hn.name _ hk
  have hsname : s.update.name = name := by
    have := s.update.named
    rw [huri, hstring] at this
    exact (Option.some.inj this).symm
  constructor
  · rintro x (rfl | hx)
    · exact hk
    · exact h.keyed x hx
  · intro x hx
    by_cases hxs : x = (s.node, e.canonicalAddr)
    · subst hxs
      exact ⟨sent, s, [], rfl, hop, by simp [Sent.place, he], huri, by simp⟩
    · exact h.added_concat (hx.resolve_left hxs) (by simpa [Sent.place, he] using Ne.symm hxs)
  · intro before t after hsplit htop
    rcases concat_eq_append_cons hsplit with ⟨-, rfl⟩ | ⟨after', h'⟩
    · rw [hop] at htop
      cases htop
    · exact h.paired before t after' h' htop
  · intro m a
    rw [replay_concat, Listing.apply, hop, he]
    simp only [Function.update_apply, hsname, Set.mem_insert_iff, Prod.mk.injEq]
    split
    · next hm =>
      subst hm
      rw [Finset.mem_insert, h.replay]
      constructor
      · rintro (rfl | ⟨k, hkl, hkn⟩)
        · exact ⟨s.node, .inl ⟨rfl, rfl⟩, hname⟩
        · exact ⟨k, .inr hkl, hkn⟩
      · rintro ⟨k, ⟨rfl, rfl⟩ | hkl, hkn⟩
        · exact .inl rfl
        · exact .inr ⟨k, hkl, hkn⟩
    · next hm =>
      rw [h.replay]
      constructor
      · rintro ⟨k, hkl, hkn⟩
        exact ⟨k, .inr hkl, hkn⟩
      · rintro ⟨k, ⟨rfl, rfl⟩ | hkl, hkn⟩
        · exact absurd (Option.some.inj (hkn.symm.trans hname)) hm
        · exact ⟨k, hkl, hkn⟩

theorem Tracked.remove (h : Tracked keys live sent) (hn : Named keys) {s : Sent}
    (hop : s.update.op = .remove) (huri : s.update.uri = toPath s.node)
    (he : s.update.endpoint = some e) (hlive : (s.node, e.canonicalAddr) ∈ live) :
    Tracked keys (live \ {(s.node, e.canonicalAddr)}) (sent ++ [s]) := by
  have hk := h.keyed _ hlive
  obtain ⟨name, hname, hstring⟩ := hn.name _ hk
  have hnamed : ∀ {u : UpdateHTTP}, u.uri = toPath s.node → u.name = name := by
    intro u hu
    have := u.named
    rw [hu, hstring] at this
    exact (Option.some.inj this).symm
  have hplace : s.place = some (s.node, e.canonicalAddr) := by simp [Sent.place, he]
  constructor
  · exact fun x hx => h.keyed x hx.1
  · rintro x ⟨hx, hxs⟩
    refine h.added_concat hx ?_
    rw [hplace]
    exact fun heq => hxs (Option.some.inj heq).symm
  · intro before t after hsplit htop
    rcases concat_eq_append_cons hsplit with ⟨rfl, rfl⟩ | ⟨after', h'⟩
    · obtain ⟨pre, add, post, rfl, haop, haplace, hauri, hpost⟩ := h.added _ hlive
      rw [← hplace] at haplace hpost
      exact ⟨pre, add, post, rfl, haop, haplace, hauri.trans huri.symm,
        (hnamed hauri).trans (hnamed huri).symm, hpost⟩
    · exact h.paired before t after' h' htop
  · intro m a
    rw [replay_concat, Listing.apply, hop, he]
    simp only [Function.update_apply, hnamed huri, Set.mem_sdiff,
      Set.mem_singleton_iff, Prod.mk.injEq]
    split
    · next hm =>
      subst hm
      rw [Finset.mem_erase, h.replay]
      constructor
      · rintro ⟨hne, k, hkl, hkn⟩
        exact ⟨k, ⟨hkl, fun hka => hne hka.2⟩, hkn⟩
      · rintro ⟨k, ⟨hkl, hka⟩, hkn⟩
        refine ⟨fun hae => hka ⟨?_, hae⟩, k, hkl, hkn⟩
        exact hn.apart k (h.keyed _ hkl) _ hk (hkn.trans hname.symm)
    · next hm =>
      rw [h.replay]
      constructor
      · rintro ⟨k, hkl, hkn⟩
        refine ⟨k, ⟨hkl, ?_⟩, hkn⟩
        rintro ⟨rfl, -⟩
        exact hm (Option.some.inj (hkn.symm.trans hname))
      · rintro ⟨k, ⟨hkl, -⟩, hkn⟩
        exact ⟨k, hkl, hkn⟩

-- ---------------------------------------------------------------------------
-- The requests of a call
-- ---------------------------------------------------------------------------

theorem Request.Proper.sends {q : Request} (hq : q.Proper keys) (hn : Named keys)
    (hop : q.op = .add ∨ q.op = .remove) {r : RouteRegistry} (hl : r.listener = true) :
    ∃ s : Sent, r.sendAll [q] = some [s] ∧ s.node = q.node ∧ s.update.op = q.op ∧
      s.update.uri = toPath q.node ∧
      s.update.endpoint = some q.endpoint := by
  obtain ⟨name, -, hstring⟩ := hn.name _ hq.key
  rw [← hq.path] at hstring
  obtain ⟨u, hu, huop, huuri, -, hue, -⟩ := newUpdate_spec q.op (some q.endpoint) [] hstring
  refine ⟨⟨q.node, u⟩, ?_, rfl, huop, huuri.trans hq.path, hue hop⟩
  rw [sendAll_single]
  simp [RouteRegistry.updateIf, hl, updateRouter, hu]

theorem Tracked.removeAll (h : Tracked keys live sent) (hn : Named keys) {r : RouteRegistry}
    (hl : r.listener = true) (reqs : List Request)
    (hproper : ∀ q ∈ reqs, q.Proper keys ∧ q.op = .remove)
    (hnd : (reqs.map fun q => (q.node, q.endpoint.canonicalAddr)).Nodup)
    (hlive : ∀ q ∈ reqs, (q.node, q.endpoint.canonicalAddr) ∈ live) :
    ∃ new, r.sendAll reqs = some new ∧
      Tracked keys (live \ {x | x ∈ reqs.map fun q => (q.node, q.endpoint.canonicalAddr)})
        (sent ++ new) := by
  induction reqs generalizing live sent with
  | nil => exact ⟨[], rfl, by simpa using h⟩
  | cons q reqs ih =>
    obtain ⟨hfirst, hnd⟩ := List.nodup_cons.mp hnd
    obtain ⟨hq, hop⟩ := hproper q List.mem_cons_self
    obtain ⟨s, hs, hnode, hsop, huri, he⟩ := hq.sends hn (.inr hop) hl
    have h₁ := h.remove hn (hsop.trans hop) (by rw [huri, hnode]) he
      (by rw [hnode]; exact hlive q List.mem_cons_self)
    rw [hnode] at h₁
    obtain ⟨new, hnew, h₂⟩ := ih h₁ (fun x hx => hproper x (List.mem_cons_of_mem _ hx)) hnd (by
      intro x hx
      refine ⟨hlive x (List.mem_cons_of_mem _ hx), fun heq => hfirst ?_⟩
      exact List.mem_map.mpr ⟨x, hx, Set.mem_singleton_iff.mp heq⟩)
    refine ⟨s :: new, ?_, ?_⟩
    · rw [← List.singleton_append, sendAll_append, hs, hnew]
      rfl
    · have hset : (live \ {(q.node, q.endpoint.canonicalAddr)}) \
          {x | x ∈ reqs.map fun q => (q.node, q.endpoint.canonicalAddr)} =
          live \ {x | x ∈ (q :: reqs).map fun q => (q.node, q.endpoint.canonicalAddr)} := by
        ext x
        simp only [Set.mem_sdiff, Set.mem_singleton_iff, Set.mem_ofPred_eq, List.map_cons,
          List.mem_cons, not_or, and_assoc]
      rw [← hset]
      simpa using h₂

theorem live_register (T : RouteTable) (lower : Lower) (uri : Uri)
    (endpoint : Endpoint) (now : Int) :
    (T.call lower (.register uri endpoint now)).live =
      insert (segments (uri.routeKey lower), endpoint.canonicalAddr) T.live := by
  ext ⟨k, a⟩
  simp only [RouteTable.live, RouteTable.call, RouteTable.register, Set.mem_ofPred_eq,
    Set.mem_insert_iff, Prod.mk.injEq]
  split
  · next hka => simp [hka]
  · next hka => simp [hka]

theorem live_unregister (T : RouteTable) (lower : Lower) (uri : Uri) (endpoint : Endpoint) :
    (T.call lower (.unregister uri endpoint)).live =
      if RouteTable.removes endpoint
        (T.entries (segments (uri.routeKey lower)) endpoint.canonicalAddr) then
        T.live \ {(segments (uri.routeKey lower), endpoint.canonicalAddr)} else T.live := by
  split
  · next hrem =>
    ext ⟨k, a⟩
    simp only [RouteTable.live, RouteTable.call, RouteTable.unregister, Set.mem_ofPred_eq,
      Set.mem_sdiff, Set.mem_singleton_iff, Prod.mk.injEq]
    by_cases hka : k = segments (uri.routeKey lower) ∧ a = endpoint.canonicalAddr
    · obtain ⟨rfl, rfl⟩ := hka
      simp [hrem]
    · rw [if_neg fun hx => hka ⟨hx.1, hx.2.1⟩]
      simp [hka]
  · next hrem =>
    ext ⟨k, a⟩
    simp only [RouteTable.live, RouteTable.call, RouteTable.unregister, Set.mem_ofPred_eq]
    rw [if_neg]
    rintro ⟨rfl, rfl, hx⟩
    exact hrem hx

theorem live_prune {T : RouteTable} {r : RouteRegistry} (href : r.Refines T) {reqs : List Request}
    (hasks : T.Asks lower reqs (.prune suspended fresh now order)) :
    (T.call lower (.prune suspended fresh now order)).live =
      T.live \ {x | x ∈ reqs.map fun q => (q.node, q.endpoint.canonicalAddr)} := by
  obtain ⟨-, hmem⟩ := hasks
  cases suspended with
  | true =>
    have hnil : reqs = [] := List.eq_nil_iff_forall_not_mem.mpr fun q hq => by
      simpa using (hmem q).mp hq
    simp [hnil, RouteTable.call, RouteTable.live]
  | false =>
    rw [← live_resume T fresh]
    ext ⟨k, a⟩
    have hcanon := fun e => (href.resume fresh).canonicalAddr (k := k) (a := a) (e := e)
    simp only [RouteTable.live, RouteTable.call, RouteTable.expire, Set.mem_ofPred_eq,
      Set.mem_sdiff, if_true, Bool.false_eq_true, if_false, T.resume_threshold, List.mem_map,
      Prod.mk.injEq]
    cases he : (T.resume fresh).entries k a with
    | none => simp
    | some e =>
      rw [Option.filter_some]
      cases hst : e.stale T.threshold (now k) with
      | true =>
        refine iff_of_false (by simp) fun hx =>
          hx.2 ⟨⟨k, .remove, toPath k, e.endpoint⟩, ?_, rfl, hcanon e he⟩
        refine (hmem _).mpr ⟨rfl, rfl, rfl, e, ?_, rfl, hst⟩
        rw [hcanon e he]
        exact he
      | false =>
        refine iff_of_true (by simp) ⟨by simp, ?_⟩
        rintro ⟨q, hq, rfl, rfl⟩
        obtain ⟨-, -, -, f, hf, -, hfst⟩ := (hmem q).mp hq
        rw [he] at hf
        cases hf
        rw [hst] at hfst
        cases hfst

/-- What a call asks for takes the endpoints of the table to those after it. -/
theorem Tracked.call {T : RouteTable} (h : Tracked keys T.live sent) (hn : Named keys)
    {r : RouteRegistry} (href : r.Refines T) (hl : r.listener = true) {reqs : List Request}
    (hasks : T.Asks lower reqs c) (hkey : ∀ u ∈ Call.uri c, segments (u.routeKey lower) ∈ keys ∧
      toPath (segments (u.routeKey lower)) = u.routeKey lower) :
    ∃ new, r.sendAll reqs = some new ∧ Tracked keys (T.call lower c).live (sent ++ new) := by
  cases c with
  | register uri endpoint now =>
    obtain ⟨hk, hpath⟩ := hkey uri rfl
    simp only [RouteTable.Asks] at hasks
    rw [live_register]
    split at hasks
    · subst hasks
      obtain ⟨s, hs, hnode, hsop, huri, he⟩ := Request.Proper.sends
        (show Request.Proper keys ⟨segments (uri.routeKey lower), .add, uri.routeKey lower,
          endpoint⟩ from ⟨hk, hpath.symm⟩) hn (.inl rfl) hl
      refine ⟨[s], hs, ?_⟩
      have h₁ := h.add hn hsop (by rw [hnode]; exact hk) (by rw [huri, hnode]) he
      rwa [hnode] at h₁
    · next hsome =>
      subst hasks
      have hin : (segments (uri.routeKey lower), endpoint.canonicalAddr) ∈ T.live := hsome
      refine ⟨[], rfl, ?_⟩
      rw [Set.insert_eq_of_mem hin, List.append_nil]
      exact h
  | unregister uri endpoint =>
    obtain ⟨hk, hpath⟩ := hkey uri rfl
    simp only [RouteTable.Asks] at hasks
    rw [live_unregister]
    split at hasks
    · next hrem =>
      subst hasks
      have hin : (segments (uri.routeKey lower), endpoint.canonicalAddr) ∈ T.live := by
        intro hnone
        rw [hnone] at hrem
        cases hrem
      obtain ⟨s, hs, hnode, hsop, huri, he⟩ := Request.Proper.sends
        (show Request.Proper keys ⟨segments (uri.routeKey lower), .remove, uri.routeKey lower,
          endpoint⟩ from ⟨hk, hpath.symm⟩) hn (.inr rfl) hl
      refine ⟨[s], hs, ?_⟩
      have h₁ := h.remove hn hsop (by rw [huri, hnode]) he (by rw [hnode]; exact hin)
      rw [hnode] at h₁
      rwa [if_pos hrem]
    · next hrem =>
      subst hasks
      refine ⟨[], rfl, ?_⟩
      rwa [if_neg hrem, List.append_nil]
  | prune suspended fresh now order =>
    rw [live_prune href hasks]
    obtain ⟨hnd, hmem⟩ := hasks
    have hin : ∀ q ∈ reqs, (q.node, q.endpoint.canonicalAddr) ∈ T.live := by
      intro q hq
      obtain ⟨-, -, -, e, he, -⟩ := (hmem q).mp hq
      rw [← live_resume T fresh]
      simp [RouteTable.live, he]
    have hremoves : ∀ q ∈ reqs, q.Proper keys ∧ q.op = .remove := by
      intro q hq
      obtain ⟨-, hop, huri, -⟩ := (hmem q).mp hq
      exact ⟨⟨h.keyed _ (hin q hq), huri⟩, hop⟩
    exact h.removeAll hn hl reqs hremoves hnd hin

-- ---------------------------------------------------------------------------
-- Runs
-- ---------------------------------------------------------------------------

def keysOf (lower : Lower) (calls : List Call) : Set (List Str) :=
  {k | ∃ c ∈ calls, ∃ u ∈ c.uri, k = segments (u.routeKey lower)}

theorem Spelled.path (h : Spelled lower calls) (hc : c ∈ calls) (hu : u ∈ Call.uri c) :
    toPath (segments (u.routeKey lower)) = u.routeKey lower :=
  toPath_segments (h.slashes c hc u hu).1 (h.slashes c hc u hu).2

theorem Spelled.named_keys (h : Spelled lower calls) : Named (keysOf lower calls) where
  name := by
    rintro k ⟨c, hc, u, hu, rfl⟩
    obtain ⟨name, hname⟩ := Option.isSome_iff_exists.mp (h.named c hc u hu)
    rw [h.path hc hu, string_of_not_slash (h.slashes c hc u hu).2]
    exact ⟨name, hname, hname⟩
  apart := by
    rintro k ⟨c, hc, u, hu, rfl⟩ k' ⟨c', hc', u', hu', rfl⟩ heq
    rw [h.path hc hu, h.path hc' hu'] at heq
    exact congrArg segments (h.apart c hc u hu c' hc' u' hu' heq)

theorem run_tracked {calls : List Call} (hn : Named keys)
    (hids : ∀ c ∈ calls, ∀ e ∈ c.endpoint, ¬ IsAddress e.privateInstanceId)
    (hkeys : ∀ c ∈ calls, ∀ u ∈ c.uri, segments (u.routeKey lower) ∈ keys ∧
      toPath (segments (u.routeKey lower)) = u.routeKey lower)
    {r : RouteRegistry} (href : r.Refines T) (hl : r.listener = true)
    (h : Tracked keys T.live sent) :
    ∃ r' sent', run (RouteRegistry.step lower) (r, sent) calls = some (r', sent') ∧
      r'.Refines (calls.foldl (RouteTable.call lower) T) ∧
      Tracked keys (calls.foldl (RouteTable.call lower) T).live sent' := by
  induction calls generalizing r T sent with
  | nil => exact ⟨r, sent, rfl, href, h⟩
  | cons c calls ih =>
    obtain ⟨r₁, reqs, hcall, hl₁, href₁, hasks⟩ := href.step lower (hids c List.mem_cons_self) sent
    obtain ⟨new, hnew, h₁⟩ := h.call hn href hl hasks (hkeys c List.mem_cons_self)
    obtain ⟨r', sent', hrun, href', h'⟩ := ih (fun c hc => hids c (List.mem_cons_of_mem _ hc))
      (fun c hc => hkeys c (List.mem_cons_of_mem _ hc)) href₁ (hl₁.trans hl) h₁
    refine ⟨r', sent', ?_, href', h'⟩
    rw [run_cons, hcall, hnew, Option.map_some, Option.bind_some]
    exact hrun

/-- In every run of well-spelled calls the updates mirror the registry. -/
theorem updates_mirror_registry (lower : Lower) (threshold : Int64) (calls : List Call)
    (h : Spelled lower calls) :
    ∃ r sent, run (RouteRegistry.step lower) (newRouteRegistry threshold true, []) calls =
      some (r, sent) ∧
      Mirrors r sent := by
  have hlive : (RouteTable.empty threshold).live = ∅ := by simp [RouteTable.live, RouteTable.empty]
  obtain ⟨r, sent, hrun, href, htracked⟩ := run_tracked h.named_keys h.ids
    (fun c hc u hu => ⟨⟨c, hc, u, hu, rfl⟩, h.path hc hu⟩)
      (newRouteRegistry_refines threshold true) rfl
    (show Tracked _ _ [] by rw [hlive]; exact tracked_nil _)
  refine ⟨r, sent, hrun, htracked.paired, fun node p hp => ?_, fun name hno => ?_⟩
  · have hrow : ∀ a, a ∈ p.addresses ↔
        (node, a) ∈ RouteTable.live (calls.foldl (RouteTable.call lower) (.empty threshold)) :=
      href.mem_addresses hp
    have hpool : r.byURI.poolAt node ≠ none := by simp [hp]
    obtain ⟨a₀, ha₀⟩ := not_forall.mp (mt href.poolAt_eq_none.mpr hpool)
    have hkey := htracked.keyed (node, a₀) ha₀
    obtain ⟨name, hname, -⟩ := h.named_keys.name _ hkey
    refine ⟨name, hname, fun a => ?_⟩
    rw [htracked.replay, hrow]
    constructor
    · rintro ⟨k, hk, hkn⟩
      rwa [← h.named_keys.apart k (htracked.keyed _ hk) node hkey (hkn.trans hname.symm)]
    · exact fun ha => ⟨node, ha, hname⟩
  · refine Finset.eq_empty_of_forall_notMem fun a ha => ?_
    obtain ⟨k, hk, hkn⟩ := (htracked.replay name a).mp ha
    cases hp : r.byURI.poolAt k with
    | none => exact hk (href.poolAt_eq_none.mp hp a)
    | some p => exact hno k p hp hkn

end

theorem updates_mirror_registry_sample :
    ∃ r sent, run (RouteRegistry.step Lower.asciiOnly) (newRouteRegistry 10 true, [])
      [.register "*.a".toList (Sample.backend 1) 0, .prune false 0 (fun _ => 11) Order.stored] =
        some (r, sent) ∧
      Mirrors r sent := by
  refine updates_mirror_registry Lower.asciiOnly 10 _ ⟨?_, ?_, ?_, ?_⟩
  · simp only [List.forall_mem_cons, Call.endpoint, Option.mem_def, Option.some.injEq, forall_eq']
    exact ⟨Sample.not_isAddress 1, by simp⟩
  all_goals
    simp only [List.forall_mem_cons, Call.uri, Option.mem_def, Option.some.injEq, forall_eq']
    exact ⟨by decide, by simp⟩

/-- A leading slash is part of the name when the endpoint comes, but not when
it is pruned: the listing keeps it for ever. -/
theorem updates_leak :
    ∃ s ∈ run (RouteRegistry.step Lower.asciiOnly) (newRouteRegistry 10 true, [])
      [.register "/*.a".toList (Sample.backend 1) 0, .prune false 0 (fun _ => 11) Order.stored],
      s.2.map (fun t => (t.update.op, t.update.name, t.update.uri)) =
        [(.add, "cf-/_.a".toList, "/*.a".toList), (.remove, "cf-a".toList, "*.a".toList)] ∧
      Listing.replay (s.2.map Sent.update) "cf-/_.a".toList = {"10.0.0.1:1".toList} ∧
      ¬ Mirrors s.1 s.2 := by
  have hrun : ∃ s ∈ run (RouteRegistry.step Lower.asciiOnly) (newRouteRegistry 10 true, [])
      [.register "/*.a".toList (Sample.backend 1) 0, .prune false 0 (fun _ => 11) Order.stored],
      s.1.byURI.nodesWithPool = [] ∧ s.2.map (fun t => (t.update.op, t.update.name, t.update.uri)) =
        [(.add, "cf-/_.a".toList, "/*.a".toList), (.remove, "cf-a".toList, "*.a".toList)] ∧
      Listing.replay (s.2.map Sent.update) "cf-/_.a".toList = {"10.0.0.1:1".toList} := by
    decide +kernel
  obtain ⟨s, hs, hnone, hsent, hreplay⟩ := hrun
  refine ⟨s, hs, hsent, hreplay, fun hmirrors => ?_⟩
  have hempty := hmirrors.others "cf-/_.a".toList fun node p hp => by
    have hnode := Trie.mem_nodesWithPool.mpr ⟨p, hp⟩
    rw [hnone] at hnode
    cases hnode
  rw [hreplay] at hempty
  exact absurd hempty (Finset.singleton_ne_empty _)

end BigipCtlr.Registry
