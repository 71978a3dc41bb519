import BigipCtlr.F5Router.Start

/-!
# The shape of the state

Names, pools and virtual servers fit together in every state of a run, and an
HTTP route has both a pool and a virtual server or neither.
-/

namespace BigipCtlr

open Go Lib

/-- The pool of an HTTP route, which an Unbind can take back to the defaults. -/
structure Pool.Restorable (p : Pool) : Prop where
  description : p.description ≠ []
  address : ∀ m ∈ p.members, m.address ≠ []

theorem Pool.Restorable.first {p : Pool} (h : p.Restorable) (hfirst : p.members.head? = some m) :
    ¬ (m.address = [] ∨ p.description = []) := by
  rintro (ha | hd)
  · exact h.address m (List.mem_of_mem_head? hfirst) ha
  · exact h.description hd

/-- An HTTP route has both a pool and a virtual server, or neither, and
monitors only with them. -/
structure RouteState.Whole (x : RouteState) : Prop where
  paired : x.pool.isSome = x.virtual.isSome
  monitors : x.pool = none → x.monitors = none
  restorable : ∀ p, x.pool = some p → p.Restorable

section
variable (H : Str → Prop)

/-- The items of a run: those for HTTP routes have names in `H`, those for TCP
routes do not. -/
def Item.Sorted : Item → Prop
  | .http ru => H ru.name
  | .tcp ru => ¬ H ru.name

structure F5Router.Shaped (r : F5Router) : Prop where
  named : r.Named
  whole : ∀ n, H n → (r.route n).Whole

end

theorem joinPool_restorable (hold : ∀ p ∈ old, p.Restorable) (h : pool.Restorable) :
    (joinPool old pool).Restorable := by
  cases old with
  | none => exact h
  | some p =>
    simp only [joinPool]
    split
    · exact hold p rfl
    · refine ⟨(hold p rfl).description, fun m hm => ?_⟩
      exact (List.mem_append.mp hm).elim ((hold p rfl).address m) (h.address m)

theorem Pool.Restorable.subset {p : Pool} (h : p.Restorable) (hsub : ms ⊆ p.members) :
    Pool.Restorable { p with members := ms } :=
  ⟨h.description, fun m hm => h.address m (hsub hm)⟩

theorem defaultResources_restorable (hd : description ≠ []) (ha : address ≠ []) :
    (defaultResources c n description destination address port).pool.Restorable := by
  refine ⟨hd, fun m hm => ?_⟩
  rw [List.mem_singleton.mp hm]
  exact ha

theorem RouteStep.whole (hx : x.Whole) (hs : item.Sorted H) (hH : H item.name)
    (h : RouteStep c plans item x x') : x'.Whole := by
  have hold : ∀ p ∈ x.pool, p.Restorable := hx.restorable
  cases h with
  | idle => exact hx
  | add dest hop hep haddr hrs =>
    subst hrs
    obtain ⟨-, hm, hd, -⟩ := resources_fixed x (defaultResources c _ _ [] _ _)
    refine ⟨rfl, by rintro ⟨⟩, ?_⟩
    rintro p ⟨⟩
    refine joinPool_restorable hold ⟨?_, ?_⟩
    · rw [hd]
      exact makeDescription_ne_nil _ _
    · rw [hm]
      exact (defaultResources_restorable (makeDescription_ne_nil _ _) haddr).address
  | remove hop hpool hsub =>
    simp only [RouteState.shrink]
    split
    · exact ⟨rfl, fun _ => rfl, by simp⟩
    · refine ⟨?_, by simp, ?_⟩
      · rw [← hx.paired, hpool]
        rfl
      · rintro p ⟨⟩
        exact (hold _ hpool).subset hsub
  | bind hop =>
    simp only [RouteState.bind]
    split
    · exact hx
    · next hq _ =>
      refine ⟨rfl, by rintro ⟨⟩, ?_⟩
      rintro p ⟨⟩
      exact ⟨(hold _ hq).description, (hold _ hq).address⟩
    · exact ⟨hx.paired, hx.monitors, hx.restorable⟩
  | unbindUnmapped hop hun => exact ⟨hx.paired, hx.monitors, hx.restorable⟩
  | unbindFailed hop hpool hsub hfirst hbad =>
    obtain ha | hd := hbad
    · exact absurd ha ((hold _ hpool).address _ hfirst)
    · exact absurd hd (hold _ hpool).description
  | unbind hop hpool hvirtual hms hfirst =>
    refine ⟨rfl, by rintro ⟨⟩, ?_⟩
    rintro p ⟨⟩
    refine joinPool_restorable (fun q hq => ?_) ⟨(hold _ hpool).description, (hold _ hpool).address⟩
    split at hq
    · cases hq
    · cases hq
      exact (hold _ hpool).subset (removeMember_subset hms)
  | tcpAdd hrs => exact absurd hH hs
  | tcpRemove hpool hsub => exact absurd hH hs

theorem RouteState.Whole.virtual_eq_none {x : RouteState} (hw : x.Whole) (hp : x.pool = none) :
    x.virtual = none := by
  have := hw.paired
  rw [hp] at this
  simpa using this

theorem RouteState.Whole.virtual_eq_some {x : RouteState} (hw : x.Whole) (hp : x.pool = some p) :
    ∃ v, x.virtual = some v := by
  have := hw.paired
  rw [hp] at this
  exact Option.isSome_iff_exists.mp this.symm

theorem F5Router.Shaped.processRouteUnbind_cases {r r' : F5Router} (h : r.Shaped H) (hn : H ru.name)
    (hop : ru.op = .unbind) (hstep : r.processRouteUnbind ru = some r') :
    ((r.route ru.name).pool = none ∧ r.Turns ru.name { r.route ru.name with unmapped := none } r') ∨
      ∃ p v ms, ∃ first : Member, (r.route ru.name).pool = some p ∧
        (r.route ru.name).virtual = some v ∧
        removeMember List.head? p.members = some ms ∧
        r.Turns ru.name
          ((r.route ru.name).unbindMapped p ms
            (defaultResources r.c ru.name p.description v.destination first.address first.port))
          r' := by
  have hw := h.whole _ hn
  obtain ⟨-, ⟨hun, ht⟩ | ⟨p, v, ms, first, hp, hv, hms, hfirst, ht⟩⟩ :=
    processRouteUnbind_spec h.named hop hstep
  · refine .inl ⟨?_, ht⟩
    by_contra hp
    obtain ⟨p, hp⟩ := Option.ne_none_iff_exists'.mp hp
    obtain ⟨v, hv⟩ := hw.virtual_eq_some hp
    exact hun p v hp hv
  · rw [if_neg ((hw.restorable p hp).first hfirst)] at ht
    exact .inr ⟨p, v, ms, first, hp, hv, hms, ht⟩

-- ---------------------------------------------------------------------------
-- Runs
-- ---------------------------------------------------------------------------

theorem firstSync_cases {r : F5Router} (h : r.firstSync codec o = some r') :
    (r.firstSyncDone = true ∧ r' = r) ∨
      (r.firstSyncDone = false ∧ ∃ r₁, r.truncateInternalDataGroup codec o = some r₁ ∧
        r' = { r₁ with firstSyncDone := true }) := by
  simp only [F5Router.firstSync] at h
  split at h
  · next hdone =>
    cases h
    exact .inl ⟨hdone, rfl⟩
  · next hdone =>
    obtain ⟨r₁, htrunc, rfl⟩ := Option.map_eq_some_iff.mp h
    exact .inr ⟨Bool.eq_false_iff.mpr hdone, r₁, htrunc, rfl⟩

theorem firstSync_spec {r : F5Router} (h : r.firstSync codec o = some r') :
    ∃ (dg : GoMap Str InternalDataGroupRecord) (t : Tier2VSInfo) (done : Bool),
      r' = { r with internalDataGroup := dg, tier2VSInfo := t, firstSyncDone := done } := by
  obtain ⟨-, rfl⟩ | ⟨-, r₁, htrunc, rfl⟩ := firstSync_cases h
  · exact ⟨_, _, _, rfl⟩
  · obtain ⟨⟨dg, used⟩, -, htrunc⟩ := Option.bind_eq_some_iff.mp htrunc
    cases htrunc
    exact ⟨_, _, _, rfl⟩

theorem step_cases {r : F5Router} (h : r.step codec e = some r') :
    ∃ r₁, r.handle codec e.item = some r₁ ∧
      (r' = r₁ ∨ e.length = 0 ∧ r₁.firstSync codec e.order = some r') := by
  obtain ⟨⟨r', out⟩, hp, rfl⟩ := Option.map_eq_some_iff.mp h
  obtain ⟨r₁, hr₁, hp⟩ := Option.bind_eq_some_iff.mp hp
  refine ⟨r₁, hr₁, ?_⟩
  split at hp
  · next hlen =>
    obtain ⟨r₂, hr₂, hp⟩ := Option.bind_eq_some_iff.mp hp
    obtain ⟨s, -, hp⟩ := Option.bind_eq_some_iff.mp hp
    cases hp
    exact .inr ⟨hlen, hr₂⟩
  · cases hp
    exact .inl rfl

theorem step_spec {r : F5Router} (h : r.step codec e = some r') :
    ∃ (r₁ : F5Router) (dg : GoMap Str InternalDataGroupRecord) (t : Tier2VSInfo) (done : Bool),
      r.handle codec e.item = some r₁ ∧
      r' = { r₁ with internalDataGroup := dg, tier2VSInfo := t, firstSyncDone := done } := by
  obtain ⟨r₁, hr₁, rfl | ⟨-, hsync⟩⟩ := step_cases h
  · exact ⟨_, _, _, _, hr₁, rfl⟩
  · obtain ⟨dg, t, done, rfl⟩ := firstSync_spec hsync
    exact ⟨r₁, dg, t, done, hr₁, rfl⟩

theorem boot_named (h : boot codec c plans dg = some r) : r.Named := by
  obtain ⟨r₀, used, records, hf, -, -, rfl⟩ := boot_state h
  exact ⟨by simp [hf.pools], fun n v hv => (hf.virtual n v hv).name⟩

/-- What holds at the start and is kept by every update holds all along, if it
does not depend on what the first drain changes. -/
theorem run_handled {P : F5Router → Prop} (hboot : boot codec c plans dg = some r₀)
    (hframe : ∀ (s : F5Router) dg t done, P s →
      P { s with internalDataGroup := dg, tier2VSInfo := t, firstSyncDone := done })
    (hhandle : ∀ s t, ∀ e ∈ es, s.Named → P s → s.handle codec e.item = some t → P t)
    (hstart : P r₀) (hrun : run (F5Router.step codec) r₀ es = some r) : r.Named ∧ P r := by
  refine run_invariant_mem (I := fun r : F5Router => r.Named ∧ P r) ?_
    ⟨boot_named hboot, hstart⟩ hrun
  rintro s t e he ⟨hn, hs⟩ hstep
  obtain ⟨r₁, dg, t, done, hr₁, rfl⟩ := step_spec hstep
  have hn₁ := handle_named hn hr₁
  exact ⟨⟨hn₁.pool, hn₁.virtual⟩, hframe r₁ dg t done (hhandle s r₁ e he hn hs hr₁)⟩

theorem F5Router.Shaped.handle {r r' : F5Router} (h : r.Shaped H) (hs : item.Sorted H)
    (hstep : r.handle codec item = some r') :
    r'.Shaped H := by
  obtain ⟨x, ht, hroute⟩ := handle_step h.named hstep
  refine ⟨handle_named h.named hstep, ?_⟩
  exact ht.forall_route (Q := fun n x => H n → x.Whole) h.whole fun hn =>
    hroute.whole (h.whole _ hn) hs hn

theorem F5Router.Shaped.step {r r' : F5Router} (h : r.Shaped H) (hs : e.item.Sorted H)
    (hstep : r.step codec e = some r') :
    r'.Shaped H := by
  obtain ⟨r₁, dg, t, done, hr₁, rfl⟩ := step_spec hstep
  have h₁ := h.handle hs hr₁
  exact ⟨⟨h₁.named.pool, h₁.named.virtual⟩, h₁.whole⟩

theorem F5Router.Shaped.boot {c : Config} {r : F5Router}
    (h : BigipCtlr.boot codec c plans dg = some r) (htier1 : ∀ n, H n → ¬ tier1 n) :
    r.Shaped H := by
  have hnamed := boot_named h
  obtain ⟨r₀, used, records, hf, -, -, rfl⟩ := boot_state h
  have hroute : ∀ n, (r₀.route n).pool = none := by simp [F5Router.route, hf.pools]
  refine ⟨hnamed, fun n hn => ?_⟩
  have hv : (r₀.route n).virtual = none :=
    Option.eq_none_iff_forall_ne_some.mpr fun v hv => htier1 n hn (hf.virtual n v hv).tier1
  refine ⟨?_, fun _ => ?_, fun p hp => ?_⟩
  · exact (congrArg Option.isSome (hroute n)).trans (congrArg Option.isSome hv).symm
  · simp [F5Router.route, hf.monitors]
  · cases (hroute n).symm.trans hp

def Item.isHTTP : Item → Bool
  | .http _ => true
  | .tcp _ => false

theorem Item.sorted_of_isHTTP {item : Item} (h : item.isHTTP = true) : item.Sorted (¬ tier1 ·) := by
  cases item with
  | http ru => exact not_tier1 ru.name_starts
  | tcp tu => cases h

end BigipCtlr
