import BigipCtlr.F5Router.Rejection
import BigipCtlr.F5Router.Restart
import BigipCtlr.F5Router.Search

/-!
# Destinations and the tier-2 range

A destination is made from an address of the books. These come from the
cursor, which stays in the range and above port 10000, and from the data group
found at the start, whose ports are only bounded from above.
-/

namespace BigipCtlr

open Go Lib

-- ---------------------------------------------------------------------------
-- Where a destination comes from
-- ---------------------------------------------------------------------------

theorem RouteStep.destination {ru : UpdateHTTP} (h : RouteStep c plans (.http ru) x x')
    (hop : ru.op ≠ .add) (hv : x'.virtual = some v) :
    ∃ w, x.virtual = some w ∧ w.destination = v.destination := by
  cases h with
  | idle => exact ⟨v, hv, rfl⟩
  | add dest hadd => exact absurd hadd hop
  | remove _ hpool _ =>
    simp only [RouteState.shrink] at hv
    split at hv
    · cases hv
    · exact ⟨v, hv, rfl⟩
  | bind =>
    have hdest := @bind_destination c (plans.lookup ru.planID) x
    rw [hv, Option.map_some, eq_comm, Option.map_eq_some_iff] at hdest
    exact hdest
  | unbindUnmapped => exact ⟨v, hv, rfl⟩
  | unbindFailed => cases hv
  | unbind _ _ hvirtual =>
    cases hv
    exact ⟨_, hvirtual, rfl⟩

theorem map_destination_ok {vs : Virtual} {res : Except Str Str}
    (h : res.map (fun dest => { vs with destination := dest }) = .ok vs') :
    res = .ok vs'.destination := by
  cases res with
  | error err => cases h
  | ok dest =>
    cases h
    rfl

/-- `assignVSPort` gives the destination of the virtual server that exists, or
that of the record, which it may have just written. -/
theorem assignVSPort_ok {r : F5Router} (hl : Ledger codec r.tier2VSInfo r.internalDataGroup)
    (hassign : r.assignVSPort codec vs = some (r₁, .ok vs')) :
    (∃ v, r.virtualResources.lookup vs.virtualServerName = some v) ∨
      ∃ va, recordAddress codec r₁.internalDataGroup vs.virtualServerName = some va ∧
        verifyDestAddress va r.c.partition = .ok vs'.destination := by
  obtain ⟨v, hv, -⟩ | ⟨-, ⟨record, hdg, rfl, ⟨err, -, hres⟩ | ⟨va, hdec, hres⟩⟩ |
    ⟨-, ⟨t, va, hget, rfl, hres⟩ | ⟨t, err, -, -, hres⟩⟩⟩ := assignVSPort_cases hassign
  · exact .inl ⟨v, hv⟩
  · cases hres
  · exact .inr ⟨va, recordAddress_eq_some.mpr ⟨record, hdg, hdec⟩, map_destination_ok hres.symm⟩
  · obtain ⟨va', hva', hvalid⟩ := (hl.getAvailableVirtualAddress hget).2 _ rfl
    cases hva'
    refine .inr ⟨va, ?_, map_destination_ok hres.symm⟩
    rw [recordAddress_insert hvalid, if_pos rfl]
  · cases hres

theorem handle_destination {r : F5Router} (hN : r.Named)
    (hl : Ledger codec r.tier2VSInfo r.internalDataGroup) (hstep : r.handle codec item = some r')
    (hhttp : ∀ tu, item = .tcp tu → tu.name ≠ n) (hv : (r'.route n).virtual = some v) :
    (∃ w, (r.route n).virtual = some w ∧ w.destination = v.destination) ∨
      ∃ va, recordAddress codec r'.internalDataGroup n = some va ∧
        verifyDestAddress va r.c.partition = .ok v.destination := by
  obtain ⟨x, ht, hx⟩ := handle_step hN hstep
  by_cases hn : n = item.name
  swap
  · rw [ht.other n hn] at hv
    exact .inl ⟨v, hv, rfl⟩
  cases item with
  | tcp tu => exact absurd hn.symm (hhttp tu rfl)
  | http ru =>
    obtain rfl : n = ru.name := hn
    by_cases hop : ru.op = .add
    swap
    · rw [show r'.route ru.name = x from ht.own] at hv
      exact .inl (hx.destination hop hv)
    clear hx
    simp only [F5Router.handle, hop] at hstep
    obtain ⟨rfl, -⟩ | ⟨rs, -, hcreate, ⟨err, hassign⟩ | ⟨r₁, vs, rule, hassign, -, rfl⟩⟩ :=
      processRouteAdd_cases hstep
    · exact .inl ⟨v, hv, rfl⟩
    · obtain ⟨⟨t, dg, rfl⟩, -⟩ := assignVSPort_frame hassign
      exact .inl ⟨v, hv, rfl⟩
    · have hname : (r.addedResources ru rs).virtual.virtualServerName = ru.name := by
        obtain ⟨ep, -, -, hrs⟩ := createResources_ok hcreate
        rw [addedResources_eq, (resources_fixed _ _).2.2.2.1, hrs]
        rfl
      rw [(added_turns _ hcreate hassign).own] at hv
      simp only [RouteState.add, Option.some.injEq] at hv
      have hrecord := assignVSPort_ok hl hassign
      rw [hname] at hrecord
      cases hold : (r.route ru.name).virtual with
      | some w =>
        rw [hold, Option.getD_some] at hv
        exact .inl ⟨w, rfl, by rw [hv]⟩
      | none =>
        rw [hold, Option.getD_none] at hv
        subst hv
        obtain ⟨w, hw⟩ | hrecord := hrecord
        · rw [show r.virtualResources.lookup ru.name = none from hold] at hw
          cases hw
        · exact .inr hrecord

-- ---------------------------------------------------------------------------
-- Good addresses
-- ---------------------------------------------------------------------------

/-- All addresses on the books are good, and so are those the virtual servers
with names of `H` have. -/
structure F5Router.Kept (codec : Codec) (good : VirtualAddress → Prop) (H : Str → Prop)
    (r : F5Router) : Prop where
  named : r.Named
  ledger : Ledger codec r.tier2VSInfo r.internalDataGroup
  books : (r.allocator codec).All good Position.address (Position.next r.tier2VSInfo.ipNet)
  virtual : ∀ n v, H n → (r.route n).virtual = some v →
    ∃ va, good va ∧ verifyDestAddress va r.c.partition = .ok v.destination

namespace F5Router.Kept

variable {r r' : F5Router}

theorem handle (h : r.Kept codec good H) (hitem : ∀ tu, item = .tcp tu → ¬ H tu.name)
    (hstep : r.handle codec item = some r') : r'.Kept codec good H := by
  obtain ⟨hnet, hst⟩ := handle_allots h.named h.ledger hstep
  have hbooks : (r'.allocator codec).All good Position.address
      (Position.next r'.tier2VSInfo.ipNet) := by
    rw [hnet]
    exact h.books.step hst
  refine ⟨handle_named h.named hstep, handle_ledger h.named h.ledger hstep, hbooks,
    fun n v hn hv => ?_⟩
  obtain ⟨x, ht, -⟩ := handle_step h.named hstep
  rw [ht.c]
  obtain ⟨w, hw, hdest⟩ | ⟨va, hva, hdest⟩ :=
    handle_destination h.named h.ledger hstep (fun tu ht hname => hitem tu ht (hname ▸ hn)) hv
  · rw [← hdest]
    exact h.virtual n w hn hw
  · exact ⟨va, hbooks.owner n va hva, hdest⟩

theorem firstSync (h : r.Kept codec good H) (hsync : r.firstSync codec o = some r') :
    r'.Kept codec good H := by
  have hl := firstSync_ledger h.ledger hsync
  obtain ⟨-, rfl⟩ | ⟨-, r₁, htrunc, rfl⟩ := firstSync_cases hsync
  · exact h
  · obtain ⟨dg, used, drop, hspec, hdg, hused, -, -, hdrop⟩ :=
      truncateInternalDataGroup_spec h.ledger o
    rw [hspec] at htrunc
    cases htrunc
    have howner : ∀ n va, recordAddress codec dg n = some va → good va := by
      intro n va hn
      refine h.books.owner n va ?_
      obtain ⟨record, hrec, hdec⟩ := recordAddress_eq_some.mp hn
      rw [hdg] at hrec
      split at hrec
      · exact recordAddress_eq_some.mpr ⟨record, hrec, hdec⟩
      · cases hrec
    refine ⟨⟨h.named.pool, h.named.virtual⟩, hl,
      ⟨fun va hva => ?_, fun va hva => ?_, howner, h.books.ahead⟩, h.virtual⟩
    · obtain ⟨n, hn⟩ := (hused va).mp hva
      exact howner n va hn
    · obtain ⟨x, hx, rfl⟩ := List.mem_filterMap.mp hva
      rcases List.mem_append.mp hx with hx | hx
      · exact h.books.free va (List.mem_filterMap.mpr ⟨_, hx, rfl⟩)
      · obtain ⟨w, hw, he⟩ := List.mem_map.mp hx
        cases he
        exact h.books.used va ((hdrop va).mp hw).1

theorem step (h : r.Kept codec good H) (hitem : ∀ tu, e.item = .tcp tu → ¬ H tu.name)
    (hstep : r.step codec e = some r') : r'.Kept codec good H := by
  obtain ⟨r₁, hr₁, rfl | ⟨-, hsync⟩⟩ := step_cases hstep
  · exact h.handle hitem hr₁
  · exact (h.handle hitem hr₁).firstSync hsync

end F5Router.Kept

-- ---------------------------------------------------------------------------
-- The range
-- ---------------------------------------------------------------------------

def VirtualAddress.Proper (ipNet : IPNet) (va : VirtualAddress) : Prop :=
  va.Inside ipNet ∧ 1 ≤ va.port

theorem Position.In.proper {p : Position} (h : p.In net) : p.address.Proper net := by
  have hlo := h.port.1
  have hhi := h.port.2
  refine ⟨⟨p.1, parseIP_toString h.length, h.contains, Int32.le_iff_toInt_le.mpr ?_⟩,
    Int32.le_iff_toInt_le.mpr ?_⟩
  · exact hhi
  · exact (by decide : (1 : Int32).toInt ≤ 10000).trans hlo

/-- The configured range with its first address, and a data group without
ports below 1 in it. -/
structure InRange (codec : Codec) (t : Tier2VSInfo) (dg : Option InternalDataGroup) : Prop where
  first : t.ipNet.contains t.holderIP = true
  ports : ∀ g ∈ dg, ∀ record ∈ g.records, ∀ va, codec.decode record.data = .address va →
    va.Inside t.ipNet → 1 ≤ va.port

theorem boot_kept (hboot : boot codec c plans dg = some r)
    (hrange : InRange codec r.tier2VSInfo dg) :
    r.Kept codec (VirtualAddress.Proper r.tier2VSInfo.ipNet) (¬ tier1 ·) := by
  obtain ⟨hN, hl⟩ := boot_ledger hboot
  obtain ⟨r₀, hf, -, hstart⟩ := boot_spec hboot
  obtain ⟨used, records, hcached, -, hr⟩ :=
    start_spec (H := fun _ => True) hf (fun _ _ _ _ => trivial) hstart
  have hused : ∀ va : VirtualAddress, va.string ∈ r.tier2VSInfo.usedPorts →
      va.Proper r.tier2VSInfo.ipNet := by
    intro va hva
    obtain ⟨g, hg, record, hrec, hdec, hin⟩ := ((start_records hf hstart).1 va).mp hva
    exact ⟨hin, hrange.ports g hg record hrec va hdec hin⟩
  subst hr
  have hcursor : r₀.tier2VSInfo.position.In r₀.tier2VSInfo.ipNet :=
    ⟨hf.holder,
      hrange.first, by rw [Tier2VSInfo.position, hf.port]; exact (by decide : InPorts 10000)⟩
  refine ⟨hN, hl, ⟨hused, ?_, fun n va hn => hused va (hcached.marked n va hn), ?_⟩,
    fun n v hn hv => ?_⟩
  · simp [F5Router.allocator, hf.reaped]
  · rintro _ ⟨q, hq, rfl⟩
    exact (hcursor.reaches hq).proper
  · exact absurd (hf.virtual n v hv).tier1 hn

/-- In every run after a start with a data group in range, the virtual servers
of HTTP routes have destinations in the range. -/
theorem destinations_in_range {es : List Event} (hboot : boot codec c plans dg = some r₀)
    (hrange : InRange codec r₀.tier2VSInfo dg) (hrun : run (F5Router.step codec) r₀ es = some r)
    (hn : tier2 es n) (hv : r.virtualResources.lookup n = some v) :
    ∃ va ip, verifyDestAddress va r.c.partition = .ok v.destination ∧
      parseIP va.bindAddr = some ip ∧
      r₀.tier2VSInfo.ipNet.contains ip = true ∧ 1 ≤ va.port ∧ va.port ≤ 65535 := by
  have h₀ := boot_kept hboot hrange
  have hsub : r₀.Kept codec (VirtualAddress.Proper r₀.tier2VSInfo.ipNet) (tier2 es) :=
    ⟨h₀.named, h₀.ledger, h₀.books, fun n v hn => h₀.virtual n v hn.1⟩
  have h : r.Kept codec (VirtualAddress.Proper r₀.tier2VSInfo.ipNet) (tier2 es) := by
    refine run_invariant_mem (fun s t e he hI hstep =>
      hI.step (fun tu htu hname => ?_) hstep) hsub hrun
    exact hname.2 (List.mem_filterMap.mpr ⟨e, he, by rw [htu]⟩)
  obtain ⟨va, ⟨⟨ip, hip, hnet, hhi⟩, hlo⟩, hdest⟩ := h.virtual n v hn hv
  exact ⟨va, ip, hdest, hip, hnet, hlo, hhi⟩

theorem destinations_in_range_sample :
    ∃ r₀ ∈ boot jsonCodec Sample.config ∅ (some Sample.cached),
      ∃ r ∈ run (F5Router.step jsonCodec) r₀
      [Sample.event Sample.addA 0], ∃ v ∈ r.virtualResources.lookup "cf-a".toList,
      ∃ va ip, verifyDestAddress va r.c.partition = .ok v.destination ∧
        parseIP va.bindAddr = some ip ∧
        r₀.tier2VSInfo.ipNet.contains ip = true ∧ 1 ≤ va.port ∧ va.port ≤ 65535 := by
  have hrun : ∃ r₀ ∈ boot jsonCodec Sample.config ∅ (some Sample.cached),
      r₀.tier2VSInfo.ipNet.contains r₀.tier2VSInfo.holderIP = true ∧
        ∃ r ∈ run (F5Router.step jsonCodec) r₀ [Sample.event Sample.addA 0],
          (r.virtualResources.lookup "cf-a".toList).isSome = true := by
    decide +kernel
  obtain ⟨r₀, hboot, hfirst, r, hrun, hv⟩ := hrun
  obtain ⟨v, hv⟩ := Option.isSome_iff_exists.mp hv
  refine ⟨r₀, hboot, r, hrun, v, hv, destinations_in_range hboot ⟨hfirst, ?_⟩ hrun (by decide) hv⟩
  simp [Sample.cached, Sample.decode_record]

/-- A record with port 0 is kept, and its route is given that port. -/
theorem destination_port_zero :
    ∃ r₀ ∈ boot jsonCodec Sample.config ∅
      (some { Sample.cached with records := [Sample.record "a".toList 0] }),
      ∃ r ∈ run (F5Router.step jsonCodec) r₀ [Sample.event Sample.addA 0],
        ∃ v ∈ r.virtualResources.lookup "cf-a".toList, v.destination = "/cf/172.0.0.0:0".toList ∧
          ∀ va, verifyDestAddress va r.c.partition = .ok v.destination → ¬ 1 ≤ va.port := by
  have hrun : ∃ r₀ ∈ boot jsonCodec Sample.config ∅
        (some { Sample.cached with records := [Sample.record "a".toList 0] }),
      ∃ r ∈ run (F5Router.step jsonCodec) r₀ [Sample.event Sample.addA 0],
        ∃ v ∈ r.virtualResources.lookup "cf-a".toList, v.destination = "/cf/172.0.0.0:0".toList ∧
          verifyDestAddress ⟨"172.0.0.0".toList, 0⟩ r.c.partition = .ok v.destination := by
    decide +kernel
  obtain ⟨r₀, hboot, r, hrun, v, hv, hdest, hzero⟩ := hrun
  refine ⟨r₀, hboot, r, hrun, v, hv, hdest, fun va hva => ?_⟩
  rw [verifyDestAddress_injective hva hzero]
  decide

end BigipCtlr
