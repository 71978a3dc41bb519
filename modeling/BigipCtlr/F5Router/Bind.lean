import BigipCtlr.F5Router.Unbind

/-!
# Binding a mapped route

`processRouteBind` takes the pool out with `removePool`, changes it in place
and puts its members back. The pool is deleted and inserted anew, or it stays
in the map and `addPool` finds its first member there: with any number of
members the settings of the plan are all that changes.
-/

namespace BigipCtlr

open Go Lib

-- ---------------------------------------------------------------------------
-- Removing the head of a slice from itself returns
-- ---------------------------------------------------------------------------

/-- A slice that still has members, none of them the zero member, and zeros
behind them. -/
structure MemberSlice.Cleared (n : Nat) (s : MemberSlice) : Prop where
  length : s.array.length = n
  pos : 1 ≤ s.len
  le : s.len ≤ n
  members : ∀ i, i < s.len → s.array[i]? ≠ some Member.zero
  rest : ∀ i, s.len ≤ i → i < n → s.array[i]? = some Member.zero

namespace MemberSlice.Cleared

variable {s : MemberSlice}

theorem head (h : s.Cleared n) : ∃ m, s.members.head? = some m ∧ m ≠ Member.zero := by
  have hpos := h.pos
  have hlt : 0 < s.array.length := by
    rw [h.length]
    exact Nat.lt_of_lt_of_le hpos h.le
  refine ⟨s.array[0], ?_, fun hz => h.members 0 hpos ?_⟩
  · rw [MemberSlice.members, List.head?_take, if_neg (by omega), List.head?_eq_getElem?,
      List.getElem?_eq_getElem hlt]
  · rw [List.getElem?_eq_getElem hlt, hz]

theorem round (h : s.Cleared n) (hi : i < n) (hfirst : i = 0 → 2 ≤ s.len) :
    ∃ s', removeRound List.head? s i = some s' ∧ s'.Cleared n := by
  obtain ⟨m, hm, hne⟩ := h.head
  have hlen := h.length
  have hlt : i < s.array.length := by omega
  simp only [removeRound, List.getElem?_eq_getElem hlt, hm, bind, Option.bind_some]
  by_cases he : s.array[i] = m
  swap
  · exact ⟨s, if_neg he, h⟩
  have hin : i < s.len := by
    by_contra hout
    have hz := h.rest i (by omega) hi
    rw [List.getElem?_eq_getElem hlt, Option.some.injEq, he] at hz
    exact hne hz
  have hle := h.le
  have hlast : s.len - 1 < s.array.length := by omega
  rw [if_pos he, if_pos hin, List.getElem?_eq_getElem hlast]
  refine ⟨_, rfl, ⟨by simp [hlen], ?_, ?_, fun j hj => ?_, fun j hj hjn => ?_⟩⟩
  · simp only
    omega
  · simp only
    omega
  · simp only at hj
    rw [List.getElem?_set_ne (by omega), List.getElem?_set]
    split
    · have := h.members (s.len - 1) (by omega)
      rwa [List.getElem?_eq_getElem hlast] at this
    · exact h.members j (by omega)
  · simp only at hj
    by_cases hjl : j = s.len - 1
    · rw [hjl, List.getElem?_set_self (by simpa using hlast)]
    · rw [List.getElem?_set_ne (fun hh => hjl hh.symm), List.getElem?_set_ne (by omega)]
      exact h.rest j (by omega) hjn

end MemberSlice.Cleared

theorem removeMember_head_returns {ms : List Member} (hzero : Member.zero ∉ ms) :
    ∃ ms', removeMember List.head? ms = some ms' := by
  match ms with
  | [] => exact ⟨[], rfl⟩
  | [m] => exact ⟨[], removeMember_head_single m⟩
  | a :: b :: rest =>
    have hstart : MemberSlice.Cleared (rest.length + 2) ⟨a :: b :: rest, rest.length + 2⟩ := by
      refine ⟨rfl, by simp, Nat.le_refl _, fun i hi hz => ?_,
        fun i hi hn => absurd hn (by simpa using hi)⟩
      exact hzero (List.mem_of_getElem? hz)
    obtain ⟨s₁, h₁, hs₁⟩ := hstart.round (i := 0) (by omega) (fun _ => by simp)
    have hlater : ∀ s, ∀ i ∈ (List.range (rest.length + 1)).map Nat.succ,
        s.Cleared (rest.length + 2) →
        ∃ s', removeRound List.head? s i = some s' ∧ s'.Cleared (rest.length + 2) := by
      intro s i hi hs
      obtain ⟨j, hj, rfl⟩ := List.mem_map.mp hi
      exact hs.round (by simpa using hj) (by simp)
    obtain ⟨s, hs, -⟩ := run_returns hlater hs₁
    refine ⟨s.members, removeMember_eq_some.mpr ⟨s, ?_, rfl⟩⟩
    rw [List.length_cons, List.range_succ_eq_map]
    exact run_cons_eq_some.mpr ⟨s₁, h₁, hs⟩

-- ---------------------------------------------------------------------------
-- Members of every run
-- ---------------------------------------------------------------------------

def Pool.Enabled (p : Pool) : Prop := ∀ m ∈ p.members, m.session = "user-enabled".toList

theorem Pool.Enabled.zero_notMem {p : Pool} (h : p.Enabled) : Member.zero ∉ p.members := fun hz =>
  absurd (h _ hz) (by decide)

theorem joinPool_enabled (hold : ∀ p ∈ old, p.Enabled) (h : pool.Enabled) :
    (joinPool old pool).Enabled := by
  cases old with
  | none => exact h
  | some p =>
    simp only [joinPool]
    split
    · exact hold p rfl
    · exact fun m hm => (List.mem_append.mp hm).elim (hold p rfl m) (h m)

theorem RouteStep.enabled (hx : ∀ p ∈ x.pool, p.Enabled)
    (htcp : ∀ tu, item = .tcp tu → tu.member.session = "user-enabled".toList)
    (h : RouteStep c plans item x x') : ∀ p ∈ x'.pool, p.Enabled := by
  cases h with
  | idle => exact hx
  | add dest hop hep haddr hrs =>
    subst hrs
    rintro p ⟨⟩
    refine joinPool_enabled hx fun m hm => ?_
    rw [(resources_fixed x _).2.1] at hm
    rw [List.mem_singleton.mp hm]
  | remove hop hpool hsub =>
    simp only [RouteState.shrink]
    split
    · rintro p ⟨⟩
    · rintro p ⟨⟩
      exact fun m hm => hx _ hpool m (hsub hm)
  | bind hop =>
    simp only [RouteState.bind]
    split
    · exact hx
    · next q _ _ hq _ =>
      rintro p ⟨⟩
      exact hx q hq
    · exact hx
  | unbindUnmapped hop hun => exact hx
  | unbindFailed hop hpool hsub hfirst hbad =>
    intro p hp
    simp only at hp
    split at hp
    · cases hp
    · cases hp
      exact fun m hm => hx _ hpool m (hsub hm)
  | unbind hop hpool hvirtual hms hfirst =>
    rintro _ ⟨⟩
    refine joinPool_enabled (fun q hq => ?_) fun m hm => hx _ hpool m hm
    split at hq
    · cases hq
    · cases hq
      exact fun m hm => hx _ hpool m (removeMember_subset hms hm)
  | tcpAdd hrs =>
    obtain ⟨-, -, hm, -⟩ := UpdateTCP.createResources_ok hrs
    rintro p ⟨⟩
    refine joinPool_enabled hx fun m hmem => ?_
    rw [hm] at hmem
    rw [List.mem_singleton.mp hmem]
    exact htcp _ rfl
  | tcpRemove hpool hsub =>
    split
    · rintro p ⟨⟩
    · rintro p ⟨⟩
      exact fun m hm => hx _ hpool m (hsub hm)

def Event.Enabled (e : Event) : Prop :=
  ∀ tu, e.item = .tcp tu → tu.member.session = "user-enabled".toList

theorem run_enabled {es : List Event} (hboot : boot codec c plans dg = some r₀)
    (hes : ∀ e ∈ es, e.Enabled) (hrun : run (F5Router.step codec) r₀ es = some r) :
    r.Named ∧ ∀ n, ∀ p ∈ (r.route n).pool, p.Enabled := by
  refine run_handled (P := fun r => ∀ n, ∀ p ∈ (r.route n).pool, p.Enabled) hboot
    (fun _ _ _ _ hs => hs) ?_ ?_ hrun
  · intro s t e he hnamed hs hstep
    obtain ⟨x, ht, hroute⟩ := handle_step hnamed hstep
    exact ht.forall_route (Q := fun _ x => ∀ p ∈ x.pool, p.Enabled) hs
      (hroute.enabled (hs _) (hes e he))
  · obtain ⟨r', used, records, hf, -, -, rfl⟩ := boot_state hboot
    simp [F5Router.route, hf.pools]

-- ---------------------------------------------------------------------------
-- What a Bind does
-- ---------------------------------------------------------------------------

section
variable {r : F5Router} {ru : UpdateHTTP} {p : Pool} {v : Virtual}

theorem processRouteBind_returns (hname : p.name = ru.name) (hp : (r.route ru.name).pool = some p)
    (hv : (r.route ru.name).virtual = some v) (henabled : p.Enabled) :
    ∃ r', r.processRouteBind ru = some r' := by
  have hlook : r.poolResources.lookup ru.name = some p := hp
  have hvlook : r.virtualResources.lookup ru.name = some v := hv
  obtain ⟨ms, hms⟩ := removeMember_head_returns henabled.zero_notMem
  obtain ⟨gone, r₁, hrem⟩ := removePool_own_returns hname hlook hms
  simp only [F5Router.processRouteBind, hlook, hvlook, hrem, bind, Option.bind_some]
  exact ⟨_, rfl⟩

def Pool.withPlan (p : Pool) (c : Config) (plan : Plan) : Pool :=
  let planResources := createPlanResources c plan
  { p with
    balance := if planResources.pool.balance ≠ [] then planResources.pool.balance else p.balance
    monitorNames := if planResources.pool.monitorNames ≠ [] then planResources.pool.monitorNames
      else p.monitorNames }

def Virtual.withPlan (v : Virtual) (c : Config) (plan : Plan) : Virtual :=
  let planResources := createPlanResources c plan
  { v with
    profiles := if planResources.virtual.profiles ≠ [] then planResources.virtual.profiles
      else v.profiles
    policies := if planResources.virtual.policies ≠ [] then planResources.virtual.policies
      else v.policies }

theorem Pool.withPlan_withPlan (p : Pool) (c : Config) (plan : Plan) :
    (p.withPlan c plan).withPlan c plan = p.withPlan c plan := by
  simp only [Pool.withPlan]
  split_ifs <;> rfl

theorem Virtual.withPlan_withPlan (v : Virtual) (c : Config) (plan : Plan) :
    (v.withPlan c plan).withPlan c plan = v.withPlan c plan := by
  simp only [Virtual.withPlan]
  split_ifs <;> rfl

theorem bindMapped_eq (x : RouteState) (c : Config) (plan : Plan) (p : Pool) (v : Virtual) :
    x.bindMapped c plan p v = { x with
      pool := some (p.withPlan c plan)
      virtual := some (v.withPlan c plan)
      monitors := if (createPlanResources c plan).monitors ≠
        [] then some (createPlanResources c plan).monitors
        else if plan.pool.healthMonitors ≠ [] then none else x.monitors } := rfl

theorem bindMapped_bindMapped (x : RouteState) (c : Config) (plan : Plan) (p : Pool) (v : Virtual) :
    (x.bindMapped c plan p v).bindMapped c plan (p.withPlan c plan) (v.withPlan c plan) =
      x.bindMapped c plan p v := by
  simp only [bindMapped_eq, Pool.withPlan_withPlan, Virtual.withPlan_withPlan]
  split_ifs <;> rfl

/-- A Bind sets what its plan yields on the pool and the virtual server of its
route and the monitors of that pool. Nothing else changes, and once is enough. -/
structure F5Router.BindsPlan (codec : Codec) (r : F5Router) (ru : UpdateHTTP) (plan : Plan)
    (p : Pool) (v : Virtual) (r' : F5Router) : Prop where
  turns : ∃ monitors, r.Turns ru.name { r.route ru.name with
    pool := some (p.withPlan r.c plan)
    virtual := some (v.withPlan r.c plan)
    monitors := monitors } r'
  rules : r.SameRules r'
  books : r.SameBooks r'
  again : ∃ r'', r'.handle codec (.http ru) = some r'' ∧ r'.Turns ru.name (r'.route ru.name) r'' ∧
    r'.SameRules r'' ∧ r'.SameBooks r''

theorem handle_bind (codec : Codec) (hN : r.Named) (hop : ru.op = .bind)
    (hp : (r.route ru.name).pool = some p) (hv : (r.route ru.name).virtual = some v)
    (henabled : p.Enabled) (hplan : r.plansMap.lookup ru.planID = some plan) :
    ∃ r', r.handle codec (.http ru) = some r' ∧
      r.Turns ru.name ((r.route ru.name).bindMapped r.c plan p v) r' ∧ r.SameRules r' ∧
      r.SameBooks r' := by
  obtain ⟨r', hr'⟩ := processRouteBind_returns (hN.pool _ _ hp).1 hp hv henabled
  obtain ⟨ht, hsame⟩ := processRouteBind_spec hN hr'
  rw [hplan, bind_of_mapped hp hv] at ht
  exact ⟨r', by simpa only [F5Router.handle, hop] using hr', ht, hsame⟩

end

/-- In every state of a run, a Bind of a mapped route to a plan of the plan
map. -/
theorem bind_sets_plan_only {es : List Event} (hboot : boot codec c plans dg = some r₀)
    (hes : ∀ e ∈ es, e.Enabled) (hrun : run (F5Router.step codec) r₀ es = some r)
    (hop : ru.op = .bind) (hplan : r.plansMap.lookup ru.planID = some plan)
    (hp : (r.route ru.name).pool = some p) (hv : (r.route ru.name).virtual = some v) :
    ∃ r', r.handle codec (.http ru) = some r' ∧ r.BindsPlan codec ru plan p v r' := by
  obtain ⟨hN, henabled⟩ := run_enabled hboot hes hrun
  obtain ⟨r', hr', ht, hrules, hbooks⟩ := handle_bind codec hN hop hp hv (henabled _ p hp) hplan
  refine ⟨r', hr', ⟨_, ht⟩, hrules, hbooks, ?_⟩
  have hp' : (r'.route ru.name).pool = some (p.withPlan r.c plan) := by
    rw [ht.own]
    rfl
  have hv' : (r'.route ru.name).virtual = some (v.withPlan r.c plan) := by
    rw [ht.own]
    rfl
  obtain ⟨r'', hr'', ht', hsame⟩ :=
    handle_bind codec (handle_named hN hr') hop hp' hv' (henabled _ p hp)
    (by rw [ht.plansMap, hplan])
  rw [ht.c, ht.own, bindMapped_bindMapped, ← ht.own] at ht'
  exact ⟨r'', hr'', ht', hsame⟩

namespace Sample

def bound : UpdateHTTP :=
  ⟨.bind, "*.a".toList, none, "cf-a".toList, "ratio".toList, 0, named_a, brokered_none⟩

end Sample

theorem bind_sets_plan_only_sample :
    ∃ r₀ ∈ boot jsonCodec Sample.config Sample.plans none, ∃ r ∈ run (F5Router.step jsonCodec) r₀
        [Sample.event Sample.addA 0, Sample.event Sample.addA2 0],
      ∃ p ∈ (r.route "cf-a".toList).pool, ∃ v ∈ (r.route "cf-a".toList).virtual,
        ∃ plan ∈ r.plansMap.lookup "ratio".toList, p.members.length = 2 ∧
          ∃ r', r.handle jsonCodec (.http Sample.bound) = some r' ∧
            r.BindsPlan jsonCodec Sample.bound plan p v r' := by
  have hrun : ∃ r₀ ∈ boot jsonCodec Sample.config Sample.plans none,
        ∃ r ∈ run (F5Router.step jsonCodec) r₀
        [Sample.event Sample.addA 0, Sample.event Sample.addA2 0],
      ∃ p ∈ (r.route "cf-a".toList).pool, ∃ v ∈ (r.route "cf-a".toList).virtual,
        ∃ plan ∈ r.plansMap.lookup "ratio".toList, p.members.length = 2 := by
    decide +kernel
  obtain ⟨r₀, hboot, r, hrun, p, hp, v, hv, plan, hplan, htwo⟩ := hrun
  refine ⟨r₀, hboot, r, hrun, p, hp, v, hv, plan, hplan, htwo,
    bind_sets_plan_only hboot ?_ hrun rfl hplan hp hv⟩
  simp [Event.Enabled, Sample.event, Sample.addA, Sample.addA2, Sample.update]

end BigipCtlr
