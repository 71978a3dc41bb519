import BigipCtlr.F5Router.References
import BigipCtlr.F5Router.Routing
import BigipCtlr.F5Router.Drain

/-!
# Where a request goes

The way of a request through the objects of a configuration: the virtual servers
of the first tier have the policy of the routes and the iRule `forward-to-vip`,
the first rule of the policy that holds names the virtual server of a route, and
that one has the pool of the route. For routes without a wildcard it is the pool
of the longest one.
-/

namespace BigipCtlr

open Go Lib

-- ---------------------------------------------------------------------------
-- The objects of a configuration
-- ---------------------------------------------------------------------------

def Resources.Listens (partition : Str) (res : Resources) (vip : Str) : Prop :=
  ∃ v ∈ res.virtuals, v.virtualServerName = vip ∧ ⟨cfRoutingPolicyName, partition⟩ ∈ v.policies ∧
    v.iRules = [bigipPath partition httpForwardingiRuleName] ∧
    ⟨httpForwardingiRuleName, forwardToVIPiRule⟩ ∈ res.iRules

/-- The first rule that holds names a virtual server, of which there is one, and
that has a pool, of which there is one. -/
structure Resources.Routes (partition : Str) (res : Resources) (q : Request) (v : Virtual)
    (p : Pool) : Prop where
  rule : ∃ policy rule, res.policies = [policy] ∧ policy.name = cfRoutingPolicyName ∧
    policy.select q = some rule ∧ rule.actions = [routeAction v.virtualServerName]
  virtual : ∀ w, w ∈ res.virtuals ∧ w.virtualServerName = v.virtualServerName ↔ w = v
  pool : ∀ p', p' ∈ res.pools ∧ bigipPath partition p'.name = v.poolName ↔ p' = p

def Config.Listens (c : Config) (vip : Str) : Prop :=
  vip = httpRouterName ∨ (vip = httpsRouterName ∧ c.bigIP.sslProfiles ≠ [])

-- ---------------------------------------------------------------------------
-- The rules of exact URIs
-- ---------------------------------------------------------------------------

section
variable {rules : GoMap Uri (Option Rule)} {rls : List Rule} {q : Request}

theorem Made.exact_of_holds (hr : Made rules) (hplain : ∀ u ∈ rules, ∃ x : ExactURI, x.uri = u)
    (hrls : sortRules o rules k = some rls) (hrule : rule ∈ rls) (hq : rule.holds q = true) :
    ∃ z : ExactURI, z.uri ∈ rules ∧ z.host = q.host ∧ z.segments <+: q.segments ∧
      rule.fullURI = z.uri := by
  obtain ⟨u, v, hv, hrv⟩ := (sortRules_ranked hrls).mem rule hrule
  have hu : u ∈ rules := GoMap.mem_iff.mpr ⟨_, hv⟩
  obtain ⟨z, rfl⟩ := hplain u hu
  obtain ⟨ru, rule', hru, hrule', hsome⟩ := hr _ _ hv
  cases hsome
  have hfull := hr.fullURI hv
  rw [z.string_uri] at hfull
  rw [hrv] at hq ⊢
  obtain ⟨hhost, hsegs⟩ := (z.holds_iff hru hrule').mp hq
  exact ⟨z, hu, hhost.symm, hsegs, hfull⟩

theorem Made.find?_longest (hr : Made rules) (hplain : ∀ u ∈ rules, ∃ x : ExactURI, x.uri = u)
    (hrls : sortRules o rules k = some rls) {x : ExactURI} (hx : x.uri ∈ rules)
    (hhost : x.host = q.host) (hsegs : x.segments <+: q.segments)
    (hlongest : ∀ y : ExactURI, y.uri ∈ rules → y.host = q.host → y.segments <+: q.segments →
      y.segments.length ≤ x.segments.length) :
    ∃ ru rule, UpdateHTTP.uri ru = x.uri ∧ rls.find? (·.holds q) = some rule ∧
      rule.actions = [routeAction ru.name] := by
  have hranked := sortRules_ranked hrls
  have hkey : ∀ u v, rules.lookup u = some (some v) → v.fullURI = u := by
    intro u v hv
    obtain ⟨z, rfl⟩ := hplain u (GoMap.mem_iff.mpr ⟨_, hv⟩)
    rw [hr.fullURI hv, z.string_uri]
  obtain ⟨y, hy⟩ := GoMap.mem_iff.mp hx
  obtain ⟨ru, rule, hru, hrule, rfl⟩ := hr _ _ hy
  obtain ⟨i, hi⟩ := hranked.all _ _ hy
  refine ⟨ru, { rule with ordinal := i }, hru, ?_, (makeRouteRule_ok hrule).2⟩
  rw [find?_eq_some_iff_above hranked.sorted (sortRules_nodup hrls hkey)]
  refine ⟨hi, (x.holds_iff hru hrule).mpr ⟨hhost.symm, hsegs⟩, fun b hb hbq => ?_⟩
  obtain ⟨z, hz, hzhost, hzsegs, hfull⟩ := hr.exact_of_holds hplain hrls hb hbq
  have hlen := hlongest z hz hzhost hzsegs
  simp only [Rule.Above, hfull, hkey _ _ hy]
  exact ExactURI.le_of_segments (hzhost.trans hhost.symm)
    (List.prefix_of_prefix_length_le hzsegs hsegs hlen)

theorem Made.find?_eq_none (hr : Made rules) (hplain : ∀ u ∈ rules, ∃ x : ExactURI, x.uri = u)
    (hrls : sortRules o rules k = some rls)
    (hnone : ∀ z : ExactURI, z.uri ∈ rules → z.host = q.host → ¬ z.segments <+: q.segments) :
    rls.find? (·.holds q) = none := by
  refine List.find?_eq_none.mpr fun rule hrule hq => ?_
  obtain ⟨z, hz, hhost, hsegs, -⟩ := hr.exact_of_holds hplain hrls hrule hq
  exact hnone z hz hhost hsegs

end

-- ---------------------------------------------------------------------------
-- The objects on the way
-- ---------------------------------------------------------------------------

/-- The objects that a request passes are wired up: the virtual servers of the first
tier to the policy and the iRule, those of the routes to their pools. -/
structure F5Router.Wired (routes : Set Uri) (r : F5Router) : Prop where
  named : r.Named
  listens : ∀ vip, r.c.Listens vip → ∃ v, r.virtualResources.lookup vip = some v ∧
    v.iRules = [bigipPath r.c.partition httpForwardingiRuleName] ∧
    ⟨cfRoutingPolicyName, r.c.partition⟩ ∈ v.policies
  tier2 : ∀ u ∈ routes, ∀ name, makeObjectName (Uri.string u) = some name → ∀ v,
    r.virtualResources.lookup name = some v → Tier2Virtual r.c name v
  rules : r.Rules fun u x => u ∈ routes ∧ MadeFor u x
  iRule : r.ruleResources.lookup httpForwardingiRuleName =
    some ⟨httpForwardingiRuleName, forwardToVIPiRule⟩

def Item.Wires (routes : Set Uri) : Item → Prop
  | .http ru => ru.uri ∈ routes ∧ ∃ rule, makeRouteRule ru = some (.ok rule)
  | .tcp tu => ∀ u ∈ routes, makeObjectName (Uri.string u) ≠ some tu.name

section
variable {routes : Set Uri} {r r' : F5Router} {sections : Sections} {q : Request}

theorem Config.Listens.tier1 (h : Config.Listens c vip) : tier1 vip := h.imp id And.left

theorem Item.name_not_tier1 (item : Item) : ¬ tier1 item.name := by
  cases item with
  | http ru => exact not_tier1 ru.name_starts
  | tcp tu => exact not_tier1 tu.name_starts

theorem F5Router.Wired.handle (h : r.Wired routes) (hitem : item.Wires routes)
    (hstep : r.handle codec item = some r') :
    r'.Wired routes := by
  obtain ⟨x, ht, hroute⟩ := handle_step h.named hstep
  have hother : ∀ n, n ≠ item.name → r'.virtualResources.lookup n = r.virtualResources.lookup n :=
    fun n hn => congrArg RouteState.virtual (ht.other n hn)
  refine ⟨handle_named h.named hstep, fun vip hvip => ?_, fun u hu name hname v hv => ?_, ?_, ?_⟩
  · have hne : vip ≠ item.name := by
      rintro rfl
      exact item.name_not_tier1 hvip.tier1
    rw [ht.c] at hvip ⊢
    rw [hother vip hne]
    exact h.listens vip hvip
  · rw [ht.c]
    by_cases hn : name = item.name
    · cases item with
      | tcp tu =>
        rw [hn] at hname
        exact absurd hname (hitem u hu)
      | http ru =>
        obtain rfl : name = ru.name := hn
        have hown : r'.virtualResources.lookup ru.name = x.virtual :=
          congrArg RouteState.virtual ht.own
        exact hroute.tier2Virtual (fun w hw => h.tier2 u hu ru.name hname w hw) v
          (hown.symm.trans hv)
    · rw [hother name hn] at hv
      exact h.tier2 u hu name hname v hv
  · refine handle_rules h.named h.rules ?_ hstep
    rintro ru res rfl - - hres
    obtain ⟨hu, rule, hrule⟩ := hitem
    rw [hres] at hrule
    cases hrule
    exact ⟨hu, ru, rule, rfl, hres, rfl⟩
  · rw [ht.ruleResources]
    exact h.iRule

theorem F5Router.Wired.firstSync (h : r.Wired routes) (hsync : r.firstSync codec o = some r') :
    r'.Wired routes := by
  obtain ⟨dg, t, done, rfl⟩ := firstSync_spec hsync
  exact ⟨⟨h.named.pool, h.named.virtual⟩, h.listens, h.tier2,
    h.rules.mono ⟨rfl, rfl⟩ fun _ _ => id, h.iRule⟩

-- ---------------------------------------------------------------------------
-- The start
-- ---------------------------------------------------------------------------

theorem tier1Virtual_wired (h : tier1Virtual c n port prfls = .ok v) :
    v.iRules = [bigipPath c.partition httpForwardingiRuleName] ∧
      ⟨cfRoutingPolicyName, c.partition⟩ ∈ v.policies := by
  simp only [tier1Virtual, joinBigipPath_ok (show httpForwardingiRuleName ≠ [] by decide)] at h
  obtain ⟨path, hpath, h⟩ := bind_ok h
  cases hpath
  obtain ⟨dest, -, h⟩ := bind_ok h
  cases h
  exact ⟨rfl, List.mem_append_right _ (List.mem_singleton.mpr rfl)⟩

theorem createHTTPVirtuals_listens (h : r.createHTTPVirtuals = .ok r') :
    r'.c = r.c ∧ ∀ vip, r.c.Listens vip → ∃ v, r'.virtualResources.lookup vip = some v ∧
      v.iRules = [bigipPath r.c.partition httpForwardingiRuleName] ∧
      ⟨cfRoutingPolicyName, r.c.partition⟩ ∈ v.policies := by
  simp only [F5Router.createHTTPVirtuals] at h
  obtain ⟨http, hhttp, h⟩ := bind_ok h
  have hne : httpRouterName ≠ httpsRouterName := by decide
  split at h
  · obtain ⟨https, hhttps, h⟩ := bind_ok h
    cases h
    refine ⟨rfl, ?_⟩
    rintro vip (rfl | ⟨rfl, -⟩)
    · exact ⟨http, by rw [AList.lookup_insert_ne hne, AList.lookup_insert],
        tier1Virtual_wired hhttp⟩
    · exact ⟨https, AList.lookup_insert _, tier1Virtual_wired hhttps⟩
  · next hssl =>
    cases h
    refine ⟨rfl, ?_⟩
    rintro vip (rfl | ⟨rfl, hprofiles⟩)
    · exact ⟨http, AList.lookup_insert _, tier1Virtual_wired hhttp⟩
    · exact absurd (List.length_eq_zero_iff.mp (not_not.mp hssl)) hprofiles

theorem newF5Router_wired {c : Config} (h : newF5Router c = .ok r)
    (hmode : r.c.routingMode ≠ .tcp) :
    (∀ vip, r.c.Listens vip → ∃ v, r.virtualResources.lookup vip = some v ∧
      v.iRules = [bigipPath r.c.partition httpForwardingiRuleName] ∧
      ⟨cfRoutingPolicyName, r.c.partition⟩ ∈ v.policies) ∧
      r.ruleResources.lookup httpForwardingiRuleName =
        some ⟨httpForwardingiRuleName, forwardToVIPiRule⟩ := by
  simp only [newF5Router] at h
  obtain ⟨⟨c', ip, net⟩, hc, h⟩ := bind_ok h
  simp only at h
  split at h
  · obtain ⟨r₁, hr₁, h⟩ := bind_ok h
    obtain ⟨hconfig, hlistens⟩ := createHTTPVirtuals_listens hr₁
    cases h
    rw [hconfig]
    exact ⟨hlistens, AList.lookup_insert _⟩
  · next htcp =>
    cases h
    exact absurd hmode htcp

theorem start_objects (h : r.start codec dg = some r') :
    r'.c = r.c ∧ r'.virtualResources = r.virtualResources ∧ r'.ruleResources = r.ruleResources := by
  cases dg with
  | none =>
    cases h
    exact ⟨rfl, rfl, rfl⟩
  | some dg =>
    obtain ⟨⟨used, records⟩, -, h⟩ := Option.bind_eq_some_iff.mp h
    cases h
    exact ⟨rfl, rfl, rfl⟩

theorem F5Router.Wired.boot {c : Config} (h : boot codec c plans dg = some r)
    (hmode : r.c.routingMode ≠ .tcp) :
    r.Wired routes := by
  have hrefined : Refined codec r.c [] r fun _ => ∅ := .boot h
  have hwired : (∀ vip, r.c.Listens vip → ∃ v, r.virtualResources.lookup vip = some v ∧
      v.iRules = [bigipPath r.c.partition httpForwardingiRuleName] ∧
      ⟨cfRoutingPolicyName, r.c.partition⟩ ∈ v.policies) ∧
      r.ruleResources.lookup httpForwardingiRuleName =
        some ⟨httpForwardingiRuleName, forwardToVIPiRule⟩ := by
    simp only [BigipCtlr.boot] at h
    split at h
    · cases h
    · next r₀ hr₀ =>
      obtain ⟨hc, hv, hi⟩ := start_objects h
      have hwired := newF5Router_wired hr₀ (hc ▸ hmode)
      rw [hc, hv, hi]
      exact hwired
  obtain ⟨r₀, used, records, hf, -, -, rfl⟩ := boot_state h
  refine ⟨hrefined.named, hwired.1, fun u _ name hname v hv => ?_, ⟨?_, ?_⟩, hwired.2⟩
  · -- the virtual servers at the start are those of the first tier
    exact absurd (hf.virtual name v hv).tier1 (not_tier1 (makeObjectName_starts hname))
  · simp [hf.rules.1]
  · simp [hf.rules.2]

-- ---------------------------------------------------------------------------
-- The way of a request
-- ---------------------------------------------------------------------------

theorem bigipPath_injective (h : bigipPath partition m = bigipPath partition n) : m = n := by
  simp only [bigipPath] at h
  split at h
  · exact h
  · simpa using h

theorem mem_createVirtuals (h : r.Named) :
    v ∈ r.createVirtuals o ∧ v.virtualServerName = n ↔ r.virtualResources.lookup n = some v := by
  rw [F5Router.createVirtuals, GoMap.mem_range_values]
  constructor
  · rintro ⟨⟨k, hk⟩, hn⟩
    rwa [← h.virtual k v hk, hn] at hk
  · exact fun hv => ⟨⟨n, hv⟩, h.virtual n v hv⟩

theorem mem_createPools (h : r.Named) :
    p ∈ r.createPools o ∧ p.name = n ↔ r.poolResources.lookup n = some p := by
  rw [F5Router.createPools, GoMap.mem_range_values]
  constructor
  · rintro ⟨⟨k, hk⟩, hn⟩
    rwa [← (h.pool k p hk).1, hn] at hk
  · exact fun hp => ⟨⟨n, hp⟩, (h.pool n p hp).1⟩

theorem F5Router.sections_resources (h : r.sections o = some sections) :
    ∃ res policies, sections.resources.lookup r.c.partition = some res ∧
      r.createPolicies o = some policies ∧
      res.policies = policies ∧ res.virtuals = r.createVirtuals o ∧ res.pools = r.createPools o ∧
      res.iRules = r.createiRules o := by
  obtain ⟨resources, hres, rfl⟩ := Option.map_eq_some_iff.mp h
  obtain ⟨policies, hpol, hres⟩ := Option.bind_eq_some_iff.mp hres
  cases hres
  exact ⟨_, policies, AList.lookup_insert _, hpol, rfl, rfl, rfl, rfl⟩

theorem F5Router.Wired.made (h : r.Wired routes) : Made r.r ∧ Made r.wildcards :=
  ⟨fun u x hx => (h.rules.exact u x hx).2.2, fun u x hx => (h.rules.wildcard u x hx).2.2⟩

theorem F5Router.Wired.policies_eq (h : r.Wired routes)
    (hpol : r.createPolicies o = some policies) :
    ∃ rls w, sortRules o r.r 0 = some rls ∧ sortRules o r.wildcards r.r.size = some w ∧
      ((∃ policy, policies = [policy] ∧ policy.name = cfRoutingPolicyName ∧
        policy.rules = rls ++ w) ∨
        (policies = [] ∧ rls ++ w = [])) := by
  obtain ⟨hmade, hwild⟩ := h.made
  obtain ⟨policy, rls, w, hpolicy, hrules, hrls, hw⟩ := hmade.policy hwild o cfRoutingPolicyName
  refine ⟨rls, w, hrls, hw, ?_⟩
  rw [F5Router.createPolicies] at hpol
  split at hpol
  · rw [hpolicy, Option.map_some, Option.some.injEq] at hpol
    have hname : policy.name = cfRoutingPolicyName := by
      simp only [makeRoutePolicy, hrls, hw] at hpolicy
      cases hpolicy
      rfl
    exact .inl ⟨policy, hpol.symm, hname, hrules⟩
  · next hsize =>
    cases hpol
    have hempty : r.wildcards.size = 0 ∧ r.r.size = 0 := by omega
    refine .inr ⟨rfl, List.append_eq_nil_iff.mpr ⟨List.length_eq_zero_iff.mp ?_,
      List.length_eq_zero_iff.mp ?_⟩⟩
    · rw [(sortRules_ranked hrls).length, hempty.2]
    · rw [(sortRules_ranked hw).length, hempty.1]

theorem F5Router.Wired.resources_listens (h : r.Wired routes) (hvip : r.c.Listens vip)
    {res : Resources} (hvirtuals : res.virtuals = r.createVirtuals o)
    (hrules : res.iRules = r.createiRules o) :
    res.Listens r.c.partition vip := by
  obtain ⟨v, hv, hirules, hmem⟩ := h.listens vip hvip
  obtain ⟨hcreated, hname⟩ := (mem_createVirtuals h.named).mpr hv
  refine ⟨v, hvirtuals ▸ hcreated, hname, hmem, hirules, ?_⟩
  rw [hrules]
  exact GoMap.mem_range_values.mpr ⟨_, h.iRule⟩

theorem F5Router.Wired.routes_longest (h : r.Wired routes) (hvip : r.c.Listens vip)
    (hsec : r.sections o = some sections) {x : ExactURI}
    (hplain : ∀ u ∈ r.r, ∃ x : ExactURI, x.uri = u) (hx : x.uri ∈ r.r) (hhost : x.host = q.host)
    (hsegs : x.segments <+: q.segments)
    (hlongest : ∀ y : ExactURI, y.uri ∈ r.r → y.host = q.host → y.segments <+: q.segments →
      y.segments.length ≤ x.segments.length)
    (hname : makeObjectName x.uri = some name) (hv : r.virtualResources.lookup name = some v)
    (hp : r.poolResources.lookup name = some p) :
    ∃ res, sections.resources.lookup r.c.partition = some res ∧ res.Listens r.c.partition vip ∧
      res.Routes r.c.partition q v p := by
  obtain ⟨res, policies, hlook, hpol, hpolicies, hvirtuals, hpools, hrules⟩ :=
    F5Router.sections_resources hsec
  refine ⟨res, hlook, h.resources_listens hvip hvirtuals hrules, ?_⟩
  obtain ⟨rls, w, hrls, -, hcases⟩ := h.policies_eq hpol
  obtain ⟨ru, rule, hru, hfind, hactions⟩ :=
    h.made.1.find?_longest hplain hrls hx hhost hsegs hlongest
  have hrname : ru.name = name := by
    have hnamed := ru.named
    rw [hru, x.string_uri, hname] at hnamed
    exact (Option.some.inj hnamed).symm
  have hfirst : (rls ++ w).find? (·.holds q) = some rule := by
    rw [List.find?_append, hfind, Option.some_or]
  have hvname := h.named.virtual _ _ hv
  refine ⟨?_, fun v' => ?_, fun p' => ?_⟩
  · obtain ⟨policy, rfl, hpname, hprules⟩ | ⟨-, hnil⟩ := hcases
    · refine ⟨policy, rule, hpolicies, hpname, ?_, ?_⟩
      · rw [Policy.select, hprules, hfirst]
      · rw [hactions, hrname, hvname]
    · rw [hnil] at hfirst
      cases hfirst
  · rw [hvirtuals, hvname, mem_createVirtuals h.named, hv, Option.some.injEq]
    exact eq_comm
  · have hu : x.uri ∈ routes := by
      obtain ⟨y, hy⟩ := GoMap.mem_iff.mp hx
      exact (h.rules.exact _ _ hy).2.1
    have hpool := (h.tier2 x.uri hu name (by rw [x.string_uri]; exact hname) v hv).poolName
    rw [joinBigipPath_ok (hrname ▸ ru.name_ne_nil), Except.ok.injEq] at hpool
    have hpath : bigipPath r.c.partition p'.name = v.poolName ↔ p'.name = name := by
      rw [← hpool]
      exact ⟨bigipPath_injective, congrArg _⟩
    rw [hpath, hpools, mem_createPools h.named, hp, Option.some.injEq]
    exact eq_comm

theorem F5Router.Wired.unrouted (h : r.Wired routes) (hvip : r.c.Listens vip)
    (hsec : r.sections o = some sections) (hplain : ∀ u ∈ r.r, ∃ x : ExactURI, x.uri = u)
    (hnone : ∀ z : ExactURI, z.uri ∈ r.r → z.host = q.host → ¬ z.segments <+: q.segments)
    (hwild : ∀ u, r.wildcards.lookup u = none) :
    ∃ res, sections.resources.lookup r.c.partition = some res ∧ res.Listens r.c.partition vip ∧
      ∀ policy ∈ res.policies, policy.select q = none := by
  obtain ⟨res, policies, hlook, hpol, hpolicies, hvirtuals, -, hrules⟩ :=
    F5Router.sections_resources hsec
  refine ⟨res, hlook, h.resources_listens hvip hvirtuals hrules, fun policy hmem => ?_⟩
  obtain ⟨rls, w, hrls, hw, hcases⟩ := h.policies_eq hpol
  have hwnil : w = [] := by
    rw [← List.length_eq_zero_iff, (sortRules_ranked hw).length]
    exact GoMap.size_eq_zero.mpr hwild
  rw [hpolicies] at hmem
  obtain ⟨policy', rfl, -, hprules⟩ | ⟨rfl, -⟩ := hcases
  · rw [List.mem_singleton] at hmem
    rw [hmem, Policy.select, hprules, hwnil, List.append_nil,
      h.made.1.find?_eq_none hplain hrls hnone]
  · cases hmem

end

end BigipCtlr
