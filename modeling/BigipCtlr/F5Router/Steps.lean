import BigipCtlr.F5Router.RouteState

/-!
# Steps of a route

All that handling an item can do to the route it names, as one relation.
What every step of it keeps for a route, the router keeps for all routes.
-/

namespace BigipCtlr

open Go Lib

def Item.name : Item → Str
  | .http ru => ru.name
  | .tcp ru => ru.name

def Item.op : Item → Operation
  | .http ru => ru.op
  | .tcp ru => ru.op

/-- What an item can make of the route it names. -/
inductive RouteStep (c : Config) (plans : GoMap Str Plan) : Item → RouteState → RouteState → Prop
  | idle : RouteStep c plans item x x
  | add (dest : Str) (hop : ru.op = .add) (hep : ru.endpoint = some ep) (haddr : ep.address ≠ [])
    (hrs : rs = x.resources (defaultResources c ru.name
      (makeDescription ru.uri.string ep.applicationId) [] ep.address ep.port)) :
      RouteStep c plans (.http ru) x (x.add rs { rs.virtual with destination := dest })
  | remove (hop : ru.op = .remove) (hpool : x.pool = some p) (hsub : ms ⊆ p.members) :
      RouteStep c plans (.http ru) x (x.shrink p ms)
  | bind (hop : ru.op = .bind) : RouteStep c plans (.http ru) x (x.bind c (plans.lookup ru.planID))
  | unbindUnmapped (hop : ru.op = .unbind)
      (hun : ∀ p v, x.pool = some p → x.virtual = some v → False) :
      RouteStep c plans (.http ru) x { x with unmapped := none }
  | unbindFailed (hop : ru.op = .unbind) (hpool : x.pool = some p) (hsub : ms ⊆ p.members)
      (hfirst : first ∈ p.members) (hbad : first.address = [] ∨ p.description = []) :
      RouteStep c plans (.http ru) x
        { x with
          pool := if ms = [] then none else some { p with members := ms }
          virtual := none
          monitors := none }
  | unbind (hop : ru.op = .unbind) (hpool : x.pool = some p) (hvirtual : x.virtual = some v)
      (hms : removeMember List.head? p.members = some ms) (hfirst : first ∈ p.members) :
      RouteStep c plans (.http ru) x (x.unbindMapped p ms
        (defaultResources c ru.name p.description v.destination first.address first.port))
  | tcpAdd (hrs : tu.createResources c = .ok rs) :
      RouteStep c plans (.tcp tu) x (x.add rs rs.virtual)
  | tcpRemove (hpool : x.pool = some p) (hsub : ms ⊆ p.members) :
      RouteStep c plans (.tcp tu) x
        (if ms = [] then { x with pool := none, virtual := none }
        else { x with pool := some { p with members := ms } })

theorem Turns.refl (r : F5Router) (n : Str) : r.Turns n (r.route n) r :=
  ⟨⟨rfl, rfl, rfl, rfl, rfl⟩, rfl, fun _ _ => rfl⟩

/-- Handling an item is a step of the route it names. -/
theorem handle_step {r : F5Router} (hN : r.Named) (h : r.handle codec item = some r') :
    ∃ x, r.Turns item.name x r' ∧ RouteStep r.c r.plansMap item (r.route item.name) x := by
  cases item with
  | http ru =>
    simp only [F5Router.handle] at h
    simp only [Item.name]
    split at h
    · next hop =>
      obtain ⟨rfl, -⟩ | ⟨rs, -, hcreate, ⟨err, hassign⟩ | ⟨r₁, vs, rule, hassign, -, rfl⟩⟩ :=
        processRouteAdd_cases h
      · exact ⟨_, Turns.refl _ _, .idle⟩
      · obtain ⟨⟨t, dg, rfl⟩, -⟩ := assignVSPort_frame hassign
        exact ⟨_, ⟨⟨rfl, rfl, rfl, rfl, rfl⟩, rfl, fun _ _ => rfl⟩, .idle⟩
      · obtain ⟨ep, hep, haddr, hrs⟩ := createResources_ok hcreate
        obtain ⟨dest, hdest⟩ := (assignVSPort_frame hassign).2 vs rfl
        refine ⟨_, added_turns _ hcreate hassign, ?_⟩
        rw [hdest, addedResources_eq, hrs]
        exact .add dest hop hep haddr rfl
    · next hop =>
      obtain ⟨rfl, -⟩ | ⟨ep, p, ms, -, -, -, hp, hms, ⟨hnil, rfl⟩ | ⟨rfl, rfl⟩⟩ :=
        processRouteRemove_cases h
      · exact ⟨_, Turns.refl _ _, .idle⟩
      · exact ⟨_, shrunk_turns hnil, .remove hop hp (removeMember_subset hms)⟩
      · exact ⟨_, removed_turns r codec ru p, .remove hop hp (removeMember_subset hms)⟩
    · next hop => exact ⟨_, (processRouteBind_spec hN h).1, .bind hop⟩
    · next hop =>
      obtain ⟨-, ⟨hun, ht⟩ | ⟨p, v, ms, first, hp, hv, hms, hfirst, ht⟩⟩ :=
        processRouteUnbind_spec hN hop h
      · exact ⟨_, ht, .unbindUnmapped hop hun⟩
      · have hmem : first ∈ p.members := List.mem_of_mem_head? hfirst
        refine ⟨_, ht, ?_⟩
        split
        · next hbad => exact .unbindFailed hop hp (removeMember_subset hms) hmem hbad
        · exact .unbind hop hp hv hms hmem
  | tcp tu =>
    simp only [F5Router.handle] at h
    simp only [Item.name]
    split at h
    · cases h
      obtain ⟨hsame, -⟩ | ⟨rs, hrs, ht, -⟩ := processTCPRouteAdd_cases r tu
      · rw [hsame]
        exact ⟨_, Turns.refl _ _, .idle⟩
      · exact ⟨_, ht, .tcpAdd hrs⟩
    · obtain ⟨rfl, -⟩ | ⟨p, ms, hp, hms, ht, -⟩ := processTCPRouteRemove_cases h
      · exact ⟨_, Turns.refl _ _, .idle⟩
      · exact ⟨_, ht, .tcpRemove hp (removeMember_subset hms)⟩
    all_goals
      cases h
      exact ⟨_, Turns.refl _ _, .idle⟩

/-- What handling an item does beside its route. Most items leave the rules and
the address books alone. An Add can assign an address and then makes a rule; a
Remove of the last endpoint drops the rule and frees the address. -/
theorem handle_cases {r : F5Router} (hN : r.Named) (h : r.handle codec item = some r') :
    (r.SameRules r' ∧ r.SameBooks r') ∨
      (∃ ru vs r₁ res, item = .http ru ∧ ru.op = .add ∧ r.assignVSPort codec vs = some (r₁, res) ∧
        r₁.SameBooks r' ∧
        (r.SameRules r' ∨ ∃ rule, r.Accepts codec ru ∧ makeRouteRule ru = some rule ∧
          (r.changeRules ru.uri fun rules => rules.insert ru.uri rule.toOption).SameRules r')) ∨
      ∃ ru r₁, item = .http ru ∧ ru.op = .remove ∧ r' = r₁.reap codec ru.name ∧ r.SameBooks r₁ ∧
        (r.removeRule ru).SameRules r' := by
  have hidle : r' = r → r.SameRules r' ∧ r.SameBooks r' := by
    rintro rfl
    exact ⟨⟨rfl, rfl⟩, ⟨rfl, rfl⟩⟩
  cases item with
  | http ru =>
    simp only [F5Router.handle] at h
    split at h
    · next hop =>
      obtain ⟨hsame, -⟩ | ⟨rs, hverify, hcreate, ⟨err, hassign⟩ |
        ⟨r₁, vs, rule, hassign, hrule, rfl⟩⟩ :=
        processRouteAdd_cases h
      · exact .inl (hidle hsame)
      · obtain ⟨⟨t, dg, rfl⟩, -⟩ := assignVSPort_frame hassign
        exact .inr (.inl ⟨ru, _, _, _, rfl, hop, hassign, ⟨rfl, rfl⟩, .inl ⟨rfl, rfl⟩⟩)
      · have haccepts : r.Accepts codec ru := ⟨hverify, rs, r₁, vs, hcreate, hassign⟩
        refine .inr (.inl ⟨ru, _, r₁, _, rfl, hop, hassign, ⟨rfl, rfl⟩,
          .inr ⟨rule, haccepts, hrule, ?_⟩⟩)
        obtain ⟨⟨t, dg, rfl⟩, -⟩ := assignVSPort_frame hassign
        exact ⟨rfl, rfl⟩
    · next hop =>
      obtain ⟨hsame, -⟩ | ⟨ep, p, ms, -, -, -, -, -, ⟨-, rfl⟩ | ⟨-, rfl⟩⟩ :=
        processRouteRemove_cases h
      · exact .inl (hidle hsame)
      · exact .inl ⟨⟨rfl, rfl⟩, ⟨rfl, rfl⟩⟩
      · refine .inr (.inr ⟨ru, _, rfl, hop, rfl, ⟨rfl, rfl⟩, ?_⟩)
        obtain ⟨t, dg, hreap⟩ := reap_frame codec (((({ r with
          poolResources := r.poolResources.erase ru.name }).removeMonitors
            ru.name).removeRule ru).removeVirtual ru.name) ru.name
        rw [hreap]
        exact ⟨rfl, rfl⟩
    · exact .inl (processRouteBind_spec hN h).2
    · next hop => exact .inl (processRouteUnbind_spec hN hop h).1
  | tcp tu =>
    simp only [F5Router.handle] at h
    split at h
    · cases h
      obtain ⟨hsame, -⟩ | ⟨rs, -, -, hsame⟩ := processTCPRouteAdd_cases r tu
      · exact .inl (hidle hsame)
      · exact .inl hsame
    · obtain ⟨hsame, -⟩ | ⟨p, ms, -, -, -, hsame⟩ := processTCPRouteRemove_cases h
      · exact .inl (hidle hsame)
      · exact .inl hsame
    all_goals
      cases h
      exact .inl (hidle rfl)
theorem F5Router.Turns.forall_route {r r' : F5Router} {Q : Str → RouteState → Prop}
    (h : r.Turns n x r') (hr : ∀ m, Q m (r.route m)) (hx : Q n x) (m : Str) : Q m (r'.route m) := by
  by_cases hm : m = n
  · rw [hm, h.own]
    exact hx
  · rw [h.other m hm]
    exact hr m

-- ---------------------------------------------------------------------------
-- Names
-- ---------------------------------------------------------------------------

structure RouteState.Named (n : Str) (x : RouteState) : Prop where
  pool : ∀ p, x.pool = some p → p.name = n ∧ p.members ≠ []
  virtual : ∀ v, x.virtual = some v → v.virtualServerName = n

theorem named_iff (r : F5Router) : r.Named ↔ ∀ n, (r.route n).Named n :=
  ⟨fun h n => ⟨h.pool n, h.virtual n⟩, fun h => ⟨fun n => (h n).pool, fun n => (h n).virtual⟩⟩

theorem joinPool_name (hold : ∀ p ∈ old, p.name = n) (h : pool.name = n) :
    (joinPool old pool).name = n := by
  cases old with
  | none => exact h
  | some p =>
    simp only [joinPool]
    split <;> exact hold p rfl

theorem joinPool_ne_nil (hold : ∀ p ∈ old, p.members ≠ []) (h : pool.members ≠ []) :
    (joinPool old pool).members ≠ [] := by
  cases old with
  | none => exact h
  | some p =>
    simp only [joinPool]
    split
    · exact hold p rfl
    · exact List.append_ne_nil_of_left_ne_nil (hold p rfl) _

theorem RouteState.Named.add {x : RouteState} (hx : x.Named n) (hp : rs.pool.name = n)
    (hm : rs.pool.members ≠ []) (hv : vs.virtualServerName = n) : (x.add rs vs).Named n := by
  constructor
  · rintro p ⟨⟩
    exact ⟨joinPool_name (fun p hp => (hx.pool p hp).1) hp,
      joinPool_ne_nil (fun p hp => (hx.pool p hp).2) hm⟩
  · rintro v ⟨⟩
    cases h : x.virtual with
    | none => exact hv
    | some v => exact hx.virtual v h

theorem RouteState.Named.withMembers {x : RouteState} (hx : x.Named n) (hp : x.pool = some p)
    {q : Pool} (hq : (if ms = [] then none else some { p with members := ms }) = some q) :
    q.name = n ∧ q.members ≠ [] := by
  split at hq
  · cases hq
  · next hms =>
    cases hq
    exact ⟨(hx.pool p hp).1, hms⟩

theorem RouteStep.named (hx : x.Named item.name) (h : RouteStep c plans item x x') :
    x'.Named item.name := by
  cases h with
  | idle => exact hx
  | add dest hop hep haddr hrs =>
    obtain ⟨hp, hm, -, hv, -, -⟩ := resources_fixed x (defaultResources c _ _ [] _ _)
    subst hrs
    refine hx.add (hp.trans rfl) ?_ (hv.trans rfl)
    rw [hm]
    exact List.cons_ne_nil _ _
  | remove hop hpool hsub =>
    simp only [RouteState.shrink]
    split
    · exact ⟨by simp, by simp⟩
    · next hms =>
      refine ⟨?_, hx.virtual⟩
      rintro q ⟨⟩
      exact ⟨(hx.pool _ hpool).1, hms⟩
  | bind hop =>
    simp only [RouteState.bind]
    split
    · exact hx
    · next p v _ hp hv =>
      refine ⟨?_, ?_⟩
      · rintro q ⟨⟩
        exact hx.pool p hp
      · rintro w ⟨⟩
        exact hx.virtual v hv
    · exact ⟨hx.pool, hx.virtual⟩
  | unbindUnmapped hop hun => exact ⟨hx.pool, hx.virtual⟩
  | unbindFailed hop hpool hsub hfirst hbad => exact ⟨fun q hq => hx.withMembers hpool hq, by simp⟩
  | unbind hop hpool hvirtual hms hfirst =>
    refine ⟨?_, ?_⟩
    · rintro q ⟨⟩
      refine ⟨joinPool_name (fun q hq => (hx.withMembers hpool hq).1) rfl,
        joinPool_ne_nil (fun q hq => (hx.withMembers hpool hq).2) (hx.pool _ hpool).2⟩
    · rintro w ⟨⟩
      rfl
  | tcpAdd hrs =>
    obtain ⟨hv, hp, hm, -⟩ := UpdateTCP.createResources_ok hrs
    exact hx.add hp (by simp [hm]) hv
  | tcpRemove hpool hsub =>
    split
    · exact ⟨by simp, by simp⟩
    · next hms =>
      refine ⟨?_, hx.virtual⟩
      rintro q ⟨⟩
      exact ⟨(hx.pool _ hpool).1, hms⟩

theorem handle_named {r : F5Router} (hN : r.Named) (h : r.handle codec item = some r') :
    r'.Named := by
  obtain ⟨x, ht, hstep⟩ := handle_step hN h
  have hr := (named_iff r).mp hN
  exact (named_iff r').mpr (ht.forall_route hr (hstep.named (hr _)))

end BigipCtlr
