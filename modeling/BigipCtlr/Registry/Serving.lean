import BigipCtlr.F5Router.Forwarding
import BigipCtlr.Registry.Delivery
import BigipCtlr.Registry.Export
import BigipCtlr.Registry.Matching

/-!
# From a request to its endpoints

What the configuration that was written last has for a request, against what
`Lookup` of the registry finds for its URL: whenever nothing is on its way, and no
wildcard is needed, it is a pool with the endpoints of the one that is found.
-/

namespace BigipCtlr

open Go Lib

-- ---------------------------------------------------------------------------
-- What is written
-- ---------------------------------------------------------------------------

/-- What the worker has written is current when it waits, unless it has done
nothing yet. -/
def Controller.Drained (r₀ : F5Router) (k : Controller) : Prop :=
  ∃ processed, Drain.Sound ⟨k, [], processed⟩ ∧
    (processed = 0 → k.phase = .waiting → k.router = r₀ ∧ k.written = none)

section
variable {r₀ : F5Router} {k k' : Controller}

theorem Controller.Drained.start (r : F5Router) : (Controller.start r).Drained r :=
  ⟨0, ⟨WorkQueue.sound_empty, fun _ h => absurd rfl h⟩, fun _ _ => ⟨rfl, rfl⟩⟩

theorem Controller.Drained.updateRoute (h : k.Drained r₀) (codec : Codec) (item : Item) :
    (k.updateRoute item).Drained r₀ := by
  obtain ⟨processed, hsound, hfirst⟩ := h
  have hstep : Drain.step codec ⟨k, [], processed⟩ (.update item) =
      some ⟨k.updateRoute item, [], processed⟩ := rfl
  exact ⟨processed, hsound.step hstep, hfirst⟩

theorem Controller.turn_waiting_again (h : k.turn codec o = some k') (hk : k'.phase = .waiting) :
    ∃ item, k.phase = .finished item := by
  obtain ⟨r, q, phase, w⟩ := k
  cases phase with
  | waiting =>
    obtain ⟨⟨item, q⟩, -, rfl⟩ := Option.map_eq_some_iff.mp h
    cases hk
  | got item =>
    obtain ⟨r, -, rfl⟩ := Option.map_eq_some_iff.mp h
    cases hk
  | handled item =>
    cases h
    dsimp only at hk
    split at hk <;> cases hk
  | draining item =>
    obtain ⟨r, -, h⟩ := Option.bind_eq_some_iff.mp h
    obtain ⟨sections, -, h⟩ := Option.bind_eq_some_iff.mp h
    cases h
    cases hk
  | rendered item sections =>
    cases h
    cases hk
  | finished item => exact ⟨item, rfl⟩

theorem Controller.Drained.turn (h : k.Drained r₀) (hturn : k.turn codec o = some k') :
    k'.Drained r₀ := by
  obtain ⟨processed, hsound, -⟩ := h
  obtain ⟨n, hn, hstep⟩ : ∃ n, ((∃ item, k.phase = .finished item) → n ≠ 0) ∧
      Drain.step codec ⟨k, [], processed⟩ (.turn o) = some ⟨k', [], n⟩ := by
    simp only [Drain.step, hturn, Option.map_some]
    refine ⟨_, ?_, rfl⟩
    rintro ⟨item, hitem⟩
    rw [hitem]
    exact Nat.succ_ne_zero _
  refine ⟨n, hsound.step hstep, fun hzero hwaits => ?_⟩
  exact absurd hzero (hn (Controller.turn_waiting_again hturn hwaits))

theorem Controller.Drained.cases (h : k.Drained r₀) (hidle : k.queue.Idle) :
    (k.router = r₀ ∧ k.written = none) ∨ ∃ sections, k.written = some sections ∧
      k.router.Current sections := by
  obtain ⟨processed, hsound, hfirst⟩ := h
  rcases Nat.eq_zero_or_pos processed with hzero | hpos
  · have hitem := hsound.queue.cur_eq_none hidle
    cases hp : k.phase with
    | waiting => exact .inl (hfirst hzero hp)
    | got | handled | draining | rendered | finished =>
      dsimp only at hitem
      rw [hp] at hitem
      cases hitem
  · exact .inr (hsound.current hidle rfl hpos).2

theorem F5Router.Wired.turn {uris : Set Uri} (h : k.router.Wired uris)
    (hitem : ∀ item, k.phase = .got item → item.Wires uris) (hturn : k.turn codec o = some k') :
    k'.router.Wired uris := by
  obtain ⟨r, q, phase, w⟩ := k
  cases phase with
  | waiting =>
    obtain ⟨⟨item, q⟩, -, rfl⟩ := Option.map_eq_some_iff.mp hturn
    exact h
  | got item =>
    obtain ⟨r', hr', rfl⟩ := Option.map_eq_some_iff.mp hturn
    exact h.handle (hitem item rfl) hr'
  | handled item =>
    cases hturn
    exact h
  | draining item =>
    obtain ⟨r', hr', hturn⟩ := Option.bind_eq_some_iff.mp hturn
    obtain ⟨sections, -, hturn⟩ := Option.bind_eq_some_iff.mp hturn
    cases hturn
    exact h.firstSync hr'
  | rendered item sections =>
    cases hturn
    exact h
  | finished item =>
    cases hturn
    exact h

end

theorem boot_pools {c : Config} (h : boot codec c plans dg = some r) : r.poolResources = ∅ := by
  obtain ⟨r₀, used, records, hf, -, -, rfl⟩ := boot_state h
  exact hf.pools

namespace Registry

open Route

-- ---------------------------------------------------------------------------
-- The run
-- ---------------------------------------------------------------------------

def urisOf (keys : Set (List Str)) : Set Uri := {u | ∃ k ∈ keys, u = toPath k}

structure RouteDelivery.Wired (keys : Set (List Str)) (r₀ : F5Router)
    (s : RouteDelivery) : Prop where
  router : s.controller.router.Wired (urisOf keys)
  drained : s.controller.Drained r₀

section
variable {keys : Set (List Str)} {tcp : UpdateTCP → Prop} {routes : List Event} {r r₀ : F5Router}
  {s t : RouteDelivery}

theorem Setting.wires (h : Setting c keys tcp routes) (hitem : Belongs keys tcp item) :
    item.Wires (urisOf keys) := by
  cases item with
  | http ru =>
    obtain ⟨⟨k, hk, hu⟩, -, ep, hep, -⟩ := hitem
    have hr := h.routable k hk
    rw [← hu] at hr
    exact ⟨⟨k, hk, hu⟩, hr.rule hep⟩
  | tcp tu =>
    rintro u ⟨k, hk, rfl⟩ hname
    obtain ⟨name, hpath, hstring⟩ := h.named.name k hk
    rw [hstring] at hname
    exact h.apart tu hitem k hk (hpath.trans hname)

theorem RouteDelivery.Wired.step (h : s.Wired keys r₀) (hset : Setting c keys tcp routes)
    (hs : s.Sound codec c keys tcp routes seen g) (hstep : s.step codec lower e = some t) :
    t.Wired keys r₀ := by
  cases e with
  | call call =>
    simp only [RouteDelivery.step, Option.ite_none_right_eq_some, Option.map_eq_some_iff,
      Prod.exists] at hstep
    obtain ⟨-, r', new, -, rfl⟩ := hstep
    exact ⟨h.router, h.drained⟩
  | send =>
    rw [RouteDelivery.step] at hstep
    split at hstep
    · cases hstep
    · cases hstep
      exact ⟨h.router, h.drained.updateRoute codec _⟩
  | tcp tu =>
    cases hstep
    exact ⟨h.router, h.drained.updateRoute codec _⟩
  | turn o =>
    obtain ⟨k, hk, rfl⟩ := Option.map_eq_some_iff.mp hstep
    exact ⟨h.router.turn (fun item hitem => hset.wires (hs.belongs hitem)) hk, h.drained.turn hk⟩

-- ---------------------------------------------------------------------------
-- Exact URIs
-- ---------------------------------------------------------------------------

def nodeOf (x : ExactURI) : List Str := x.host :: x.segments

theorem slash_notMem_nodeOf (x : ExactURI) : ∀ s ∈ nodeOf x, '/' ∉ s := by
  intro s hs hslash
  rcases List.mem_cons.mp hs with rfl | hs
  · exact absurd (x.host_plain _ hslash) (by decide)
  · exact absurd ((x.segment_plain s hs).2 _ hslash) (by decide)

theorem toPath_nodeOf (x : ExactURI) : toPath (nodeOf x) = x.uri := by
  rw [nodeOf, ExactURI.uri, ExactURI.path]
  cases hss : x.segments with
  | nil => simp [toPath_singleton]
  | cons s ss =>
    rw [toPath_cons (by simp), flatMap_slash]
    rfl

theorem segments_exact (x : ExactURI) : segments x.uri = nodeOf x := by
  have hpre : ¬ "/".toList <+: x.uri := by
    obtain ⟨c, cs, hhost⟩ := List.exists_cons_of_ne_nil x.host_ne
    intro h
    rw [ExactURI.uri, hhost, List.cons_append] at h
    have hc := x.host_plain c (by simp [hhost])
    rw [← (List.cons_prefix_cons.mp h).1] at hc
    exact absurd hc (by decide)
  rw [segments, x.string_uri, trimPrefix_of_not hpre, ← toPath_nodeOf x]
  exact List.splitOn_intercalate '/' (slash_notMem_nodeOf x) (by simp [nodeOf])

theorem Spelled.string_path {calls : List Call} (h : Spelled lower calls)
    (hk : k ∈ keysOf lower calls) :
    Uri.string (toPath k) = toPath k := by
  obtain ⟨c, hc, u, hu, rfl⟩ := hk
  rw [h.path hc hu]
  exact string_of_not_slash (h.slashes c hc u hu).2

theorem eq_nodeOf {calls : List Call} (hk : k ∈ keysOf lower calls)
    (hx : ExactURI.uri x = toPath k) : k = nodeOf x := by
  obtain ⟨c, -, u, -, rfl⟩ := hk
  exact toPath_injective (fun s hs => notMem_of_mem_split hs) (slash_notMem_nodeOf x)
    (split_ne_nil _ _) (by simp [nodeOf])
    (hx.symm.trans (toPath_nodeOf x).symm)

theorem exists_exact (q : ExactURI) (hk : k <+: nodeOf q) (hne : k ≠ []) :
    ∃ x : ExactURI, k = nodeOf x ∧ x.host = q.host ∧ x.segments <+: q.segments := by
  obtain ⟨host, ss, rfl⟩ := List.exists_cons_of_ne_nil hne
  obtain ⟨rfl, hss⟩ := List.cons_prefix_cons.mp hk
  exact ⟨⟨q.host, ss, q.host_ne, q.host_plain, fun s hs => q.segment_plain s (hss.subset hs)⟩,
    rfl, rfl, hss⟩

-- ---------------------------------------------------------------------------
-- The routes of a request
-- ---------------------------------------------------------------------------

/-- The exact rules of the router are those of the routes of the registry. -/
theorem RouteDelivery.Mirrored.mem_rules (h : s.Mirrored (keysOf lower calls))
    (hnamed : Named (keysOf lower calls))
    (hw : s.controller.router.Wired (urisOf (keysOf lower calls))) (x : ExactURI) :
    x.uri ∈ s.controller.router.r ↔ s.registry.byURI.poolAt (nodeOf x) ≠ none := by
  have hrule : s.controller.router.rule x.uri = s.controller.router.r.lookup x.uri := by
    rw [F5Router.rule, if_neg]
    rw [x.string_uri]
    exact x.star_notMem
  constructor
  · intro hx
    obtain ⟨y, hy⟩ := GoMap.mem_iff.mp hx
    obtain ⟨k, hk, hpath⟩ := (hw.rules.exact _ _ hy).2.1
    obtain ⟨name, hname, -⟩ := hnamed.name k hk
    have hobjects := (h.objects k hk name hname).2
    rw [← hpath, hrule, hy, eq_nodeOf hk hpath] at hobjects
    exact Option.isSome_iff_ne_none.mp hobjects.symm
  · intro hpool
    obtain ⟨p, hp⟩ := Option.ne_none_iff_exists'.mp hpool
    have hk := h.routes _ p hp
    obtain ⟨name, hname, -⟩ := hnamed.name _ hk
    have hobjects := (h.objects _ hk name hname).2
    rw [toPath_nodeOf, hrule, hp] at hobjects
    exact AList.lookup_isSome.mp hobjects

structure HasEndpointsOf (pool : Route.Pool) (p : BigipCtlr.Pool) : Prop where
  nodup : p.members.Nodup
  members : ∀ m, m ∈ p.members ↔ m.session = "user-enabled".toList ∧ memberAddr m ∈ pool.addresses

/-- A route that is found is the longest of the exact ones above the request, and
has its pool. -/
theorem RouteDelivery.Mirrored.routes_found (h : s.Mirrored (keysOf lower calls))
    (hnamed : Named (keysOf lower calls))
    (hw : s.controller.router.Wired (urisOf (keysOf lower calls)))
    (hplain : ∀ u ∈ s.controller.router.r, ∃ x : ExactURI, x.uri = u)
    (hvip : s.controller.router.c.Listens vip) (hsec : s.controller.router.Current sections)
    (q : ExactURI) (hfound : s.registry.byURI.matchUri q.uri = some pool) :
    ∃ res v p, sections.resources.lookup s.controller.router.c.partition = some res ∧
      res.Listens s.controller.router.c.partition vip ∧
      res.Routes s.controller.router.c.partition ⟨q.host, q.segments⟩ v p ∧
      HasEndpointsOf pool p := by
  obtain ⟨o, hsec⟩ := hsec
  obtain ⟨k, hdeep, hpool⟩ := (matchUri_answers _ _ pool).mp hfound
  have hk := h.routes k pool hpool
  obtain ⟨name, hname, -⟩ := hnamed.name k hk
  have honWay := hdeep.onWay
  rw [segments_exact] at honWay
  obtain ⟨x, rfl, hhost, hsegs⟩ :=
    exists_exact q honWay (Trie.ne_nil_of_mem (Trie.mem_of_poolAt hpool))
  have hpools := h.pools _ hk name hname
  have hvirtual := (h.objects _ hk name hname).1
  rw [hpool] at hpools hvirtual
  obtain ⟨v, hv⟩ := Option.isSome_iff_exists.mp hvirtual
  cases hp : s.controller.router.poolResources.lookup name with
  | none => simp [hp] at hpools
  | some p =>
    rw [hp] at hpools
    rw [toPath_nodeOf] at hname
    have hlongest : ∀ y : ExactURI, y.uri ∈ s.controller.router.r → y.host = q.host →
        y.segments <+: q.segments →
        y.segments.length ≤ x.segments.length := by
      intro y hy hyhost hysegs
      have hypool := (h.mem_rules hnamed hw y).mp hy
      by_contra hlong
      refine hypool (hdeep.longest (nodeOf y) ?_ (by simp only [nodeOf, List.length_cons]; omega))
      rw [segments_exact, nodeOf, nodeOf, hyhost]
      exact List.cons_prefix_cons.mpr ⟨rfl, hysegs⟩
    have hrule := (h.mem_rules hnamed hw x).mpr (by simp [hpool])
    obtain ⟨res, hres, hlistens, hroutes⟩ := 
      hw.routes_longest (q := ⟨q.host, q.segments⟩) hvip hsec hplain hrule hhost hsegs
        hlongest hname hv hp
    exact ⟨res, v, p, hres, hlistens, hroutes, hpools.1, hpools.2⟩

theorem RouteDelivery.Mirrored.routes_none (h : s.Mirrored (keysOf lower calls))
    (hnamed : Named (keysOf lower calls))
    (hw : s.controller.router.Wired (urisOf (keysOf lower calls)))
    (hplain : ∀ u ∈ s.controller.router.r, ∃ x : ExactURI, x.uri = u)
    (hvip : s.controller.router.c.Listens vip) (hsec : s.controller.router.Current sections)
    (q : ExactURI) (hnone : s.registry.byURI.matchUri q.uri = none)
    (hstar : ∀ k ∈ keysOf lower calls, '*' ∉ toPath k) :
    ∃ res, sections.resources.lookup s.controller.router.c.partition = some res ∧
      res.Listens s.controller.router.c.partition vip ∧
      ∀ policy ∈ res.policies, policy.select ⟨q.host, q.segments⟩ = none := by
  obtain ⟨o, hsec⟩ := hsec
  refine hw.unrouted hvip hsec hplain (fun z hz hhost hsegs => ?_) fun u => ?_
  · refine (h.mem_rules hnamed hw z).mp hz (matchUri_eq_none_iff.mp hnone _ ?_)
    rw [segments_exact, nodeOf, nodeOf, hhost]
    exact List.cons_prefix_cons.mpr ⟨rfl, hsegs⟩
  · refine Option.eq_none_iff_forall_ne_some.mpr fun x hx => ?_
    obtain ⟨hmem, ⟨k, hk, rfl⟩, -⟩ := hw.rules.wildcard u x hx
    exact hstar k hk ((trimSuffix_isPrefix _ _).subset hmem)

end

-- ---------------------------------------------------------------------------
-- The system
-- ---------------------------------------------------------------------------

/-- Whenever nothing is on its way, the configuration written last has for a request
the endpoints of the pool that `Lookup` finds for its URL without a wildcard; and if
no route has a wildcard, no rule holds for a request for which nothing is found. -/
theorem requests_follow_lookup {r : F5Router} (hboot : boot codec config plans dg = some r)
    (hmode : r.c.routingMode ≠ .tcp) (horderly : Orderly lower r.c es)
    (hexact : ∀ k ∈ keysOf lower (callsOf es), '*' ∉ toPath k → ∃ x : ExactURI, x.uri = toPath k)
    (hroom : Along (RouteDelivery.step codec lower) RouteDelivery.Room (.start r threshold) es)
    (hrun : Lib.run (RouteDelivery.step codec lower) (.start r threshold) es = some s)
    (hidle : s.controller.queue.Idle) (hpend : s.pending = [])
    (hvip : r.c.Listens vip) (q : ExactURI) (hq : q.uri.routeKey lower = q.uri) :
    (∀ pool, s.registry.lookupRoute lower q.uri = some (q.uri, pool) →
      ∃ sections res v p, s.controller.written = some sections ∧
        sections.resources.lookup r.c.partition = some res ∧
        res.Listens r.c.partition vip ∧ res.Routes r.c.partition ⟨q.host, q.segments⟩ v p ∧
        HasEndpointsOf pool p) ∧
    ((∀ k ∈ keysOf lower (callsOf es), '*' ∉ toPath k) → s.registry.lookup lower q.uri = none →
      ∀ sections, s.controller.written = some sections →
        ∃ res, sections.resources.lookup r.c.partition = some res ∧ res.Listens r.c.partition vip ∧
          ∀ policy ∈ res.policies, policy.select ⟨q.host, q.segments⟩ = none) := by
  obtain ⟨tcp, routes, seen, g, hset, hsound, hwired⟩ := horderly.sound_and
    (I := RouteDelivery.Wired (keysOf lower (callsOf es)) r) hboot hroom hrun
      ⟨.boot hboot hmode, .start r⟩
    fun tcp routes hset s t e seen g hs hI hstep => hI.step hset hs hstep
  have hmirrored := hsound.mirrored hset hidle hpend
  have hconfig : s.controller.router.c = r.c := hsound.refined.config
  have hlooks := lookupRoute_looks lower s.registry q.uri
  rw [hq] at hlooks
  have hplain : ∀ u ∈ s.controller.router.r, ∃ x : ExactURI, x.uri = u := by
    intro u hu
    obtain ⟨x, hx⟩ := GoMap.mem_iff.mp hu
    obtain ⟨hstar, ⟨k, hk, rfl⟩, -⟩ := hwired.router.rules.exact u x hx
    rw [horderly.spelled.string_path hk] at hstar
    exact hexact k hk hstar
  rw [← hconfig] at hvip ⊢
  refine ⟨fun pool hfound => ?_, fun hstar hnone sections hwritten => ?_⟩
  · rw [hfound] at hlooks
    obtain ⟨-, hmatch⟩ := hlooks.found_tries
    rcases hwired.drained.cases hidle with ⟨hfirst, -⟩ | ⟨sections, hwritten, hcurrent⟩
    · -- the router of the start has no pool yet
      obtain ⟨k, -, hpool⟩ := (matchUri_answers _ _ pool).mp hmatch
      have hk := hmirrored.routes k pool hpool
      obtain ⟨name, hname, -⟩ := hset.named.name k hk
      have hpools := hmirrored.pools k hk name hname
      rw [hpool, hfirst, boot_pools hboot, AList.lookup_empty] at hpools
      exact hpools.elim
    · obtain ⟨res, v, p, hroutes⟩ :=
        hmirrored.routes_found hset.named hwired.router hplain hvip hcurrent q hmatch
      exact ⟨sections, res, v, p, hwritten, hroutes⟩
  · rw [RouteRegistry.lookup, Option.map_eq_none_iff] at hnone
    rw [hnone] at hlooks
    have hcurrent : s.controller.router.Current sections := by
      rcases hwired.drained.cases hidle with ⟨-, hnil⟩ | ⟨sections', hwritten', hcurrent⟩
      · rw [hnil] at hwritten
        cases hwritten
      · rw [hwritten] at hwritten'
        cases hwritten'
        exact hcurrent
    exact hmirrored.routes_none hset.named hwired.router hplain hvip hcurrent q
      (hlooks.none_tries .refl) hstar

namespace Sample

/-- A route, and one below it. -/
def nested : List RouteDeliveryEvent :=
  [.call (.register "a.b".toList (backend 1) 0), .send,
    .call (.register "a.b/c".toList (backend 2) 0), .send] ++ List.replicate 10 (.turn .stored)

theorem callsOf_nested :
    callsOf nested =
      [.register "a.b".toList (backend 1) 0, .register "a.b/c".toList (backend 2) 0] := by
  simp [callsOf, nested, RouteDeliveryEvent.call?, List.filterMap_cons]

theorem orderly_nested (c : Config) : Orderly .asciiOnly c nested :=
  orderly_of_calls c callsOf_nested (by simp [nested]) (by decide) (by decide +kernel)
    (by decide +kernel) (by decide)

theorem nested_exact :
    ∀ k ∈ keysOf .asciiOnly (callsOf nested), '*' ∉ toPath k →
      ∃ x : ExactURI, x.uri = toPath k := by
  rintro k ⟨c, hc, u, hu, rfl⟩ -
  rw [callsOf_nested] at hc
  simp only [List.mem_cons, List.not_mem_nil, or_false] at hc
  rcases hc with rfl | rfl
  · cases hu
    exact ⟨BigipCtlr.Sample.exactURI [] (by decide), by decide⟩
  · cases hu
    exact ⟨BigipCtlr.Sample.exactURI ["c".toList] (by decide), by decide⟩

end Sample

theorem requests_follow_lookup_sample :
    ∃ r ∈ boot jsonCodec BigipCtlr.Sample.config ∅ none,
      ∃ s ∈ run (RouteDelivery.step jsonCodec .asciiOnly) (.start r 10) Sample.nested,
        ∃ pool,
          s.registry.lookupRoute .asciiOnly "a.b/c/d".toList = some ("a.b/c/d".toList, pool) ∧
          pool.addresses = ["10.0.0.1:2".toList] ∧
          ∃ sections res v p, s.controller.written = some sections ∧
            sections.resources.lookup r.c.partition = some res ∧
            res.Listens r.c.partition httpRouterName ∧
            res.Routes r.c.partition ⟨"a.b".toList, ["c".toList, "d".toList]⟩ v p ∧
            HasEndpointsOf pool p := by
  have hrun : ∃ r ∈ boot jsonCodec BigipCtlr.Sample.config ∅ none, r.c.routingMode ≠ .tcp ∧
      Along (RouteDelivery.step jsonCodec .asciiOnly) RouteDelivery.Room
        (.start r 10) Sample.nested ∧
      ∃ s ∈ run (RouteDelivery.step jsonCodec .asciiOnly) (.start r 10) Sample.nested,
        (∃ x ∈ s.registry.lookupRoute .asciiOnly "a.b/c/d".toList, x.1 = "a.b/c/d".toList ∧
          x.2.addresses = ["10.0.0.1:2".toList]) ∧
        s.controller.queue.Idle ∧ s.pending = [] := by
    decide +kernel
  obtain ⟨r, hboot, hmode, hroom, s, hrun, ⟨⟨u, pool⟩, hfound, rfl, haddr⟩, hidle, hpend⟩ := hrun
  exact ⟨r, hboot, s, hrun, pool, hfound, haddr,
    (requests_follow_lookup hboot hmode (Sample.orderly_nested r.c) Sample.nested_exact hroom hrun
      hidle hpend (.inl rfl)
      (BigipCtlr.Sample.exactURI ["c".toList, "d".toList] (by decide)) (by decide)).1 pool hfound⟩

end Registry

end BigipCtlr
