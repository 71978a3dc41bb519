import BigipCtlr.F5Router.Destinations
import BigipCtlr.F5Router.Members

/-!
# Tier-2 addresses after a restart

The records that `processCachedDataGroup` takes from the BIG-IP. Until the
first drain routes only come, and each that has a record gets the address in
it; no other route gets that address.
-/

namespace BigipCtlr

open Go Lib

-- ---------------------------------------------------------------------------
-- The data group that is found
-- ---------------------------------------------------------------------------

/-- A data group as a run writes it: one record for a name, which holds an
address of the range that is in no other record. -/
structure Restorable (codec : Codec) (ipNet : IPNet)
    (records : List InternalDataGroupRecord) : Prop where
  names : (records.map InternalDataGroupRecord.name).Nodup
  inside : ∀ record ∈ records, ∃ va, codec.decode record.data = .address va ∧ va.Inside ipNet
  distinct : records.Pairwise fun a b => ∀ va, codec.decode a.data = .address va →
    codec.decode b.data ≠ .address va

theorem cacheRecord_inside (hdec : codec.decode record.data = .address va) (hva : va.Inside ipNet)
    (hfresh : va.string ∉ kept.1) :
    cacheRecord codec ipNet kept record =
      some (kept.1.insert va.string va, kept.2.insert record.name record) := by
  obtain ⟨ip, hip, hnet, hport⟩ := hva
  simp only [cacheRecord, InternalDataGroupRecord.tier2VirtualAddress, hdec, hip]
  exact if_pos ⟨hnet, hport, hfresh⟩

theorem Restorable.cached (h : Restorable codec ipNet records)
    {kept : GoMap Str VirtualAddress × GoMap Str InternalDataGroupRecord}
    (hfresh : ∀ record ∈ records, ∀ va, codec.decode record.data = .address va → va.string ∉ kept.1)
    (hfold : run (cacheRecord codec ipNet) kept records = some kept') :
    (∀ record ∈ records, kept'.2.lookup record.name = some record) ∧
      ∀ n, n ∉ records.map InternalDataGroupRecord.name → kept'.2.lookup n = kept.2.lookup n := by
  induction records generalizing kept with
  | nil =>
    cases hfold
    exact ⟨by simp, fun _ _ => rfl⟩
  | cons record records ih =>
    obtain ⟨hname, hnames⟩ := List.nodup_cons.mp h.names
    obtain ⟨hother, hdistinct⟩ := List.pairwise_cons.mp h.distinct
    obtain ⟨va, hdec, hva⟩ := h.inside record List.mem_cons_self
    have hnew := hfresh record List.mem_cons_self va hdec
    obtain ⟨kept₁, hfirst, hfold⟩ := run_cons_eq_some.mp hfold
    rw [cacheRecord_inside hdec hva hnew] at hfirst
    cases hfirst
    have hrest : Restorable codec ipNet records :=
      ⟨hnames, fun r hr => h.inside r (List.mem_cons_of_mem _ hr), hdistinct⟩
    have hnext : ∀ r ∈ records, ∀ w, codec.decode r.data = .address w →
        w.string ∉ kept.1.insert va.string va := by
      intro r hr w hw hmem
      rcases (AList.mem_insert _).mp hmem with heq | hmem
      · exact hother r hr va hdec (VirtualAddress.string_injective heq ▸ hw)
      · exact hfresh r (List.mem_cons_of_mem _ hr) w hw hmem
    obtain ⟨hall, hkeep⟩ := ih hrest hnext hfold
    refine ⟨fun r hr => ?_, fun n hn => ?_⟩
    · rcases List.mem_cons.mp hr with rfl | hr
      · rw [hkeep _ hname, AList.lookup_insert]
      · exact hall r hr
    · rw [List.map_cons, List.mem_cons, not_or] at hn
      rw [hkeep n hn.2, AList.lookup_insert_ne hn.1]

theorem boot_cached (hboot : boot codec c plans (some dg) = some r)
    (h : Restorable codec r.tier2VSInfo.ipNet dg.records) :
    (∀ record ∈ dg.records, r.internalDataGroup.lookup record.name = some record) ∧
      ∀ n, n ∉ dg.records.map InternalDataGroupRecord.name →
        r.internalDataGroup.lookup n = none := by
  obtain ⟨r₀, hf, -, hstart⟩ := boot_spec hboot
  obtain ⟨⟨used, records⟩, hfold, hr⟩ := Option.bind_eq_some_iff.mp hstart
  cases hr
  rw [hf.used] at hfold
  exact h.cached (by simp) hfold

-- ---------------------------------------------------------------------------
-- Routes that come
-- ---------------------------------------------------------------------------

def F5Router.KeepsRecords (r r' : F5Router) : Prop :=
  ∀ n record, r.internalDataGroup.lookup n = some record →
    r'.internalDataGroup.lookup n = some record

theorem assignVSPort_keepsRecords {r : F5Router}
    (hassign : r.assignVSPort codec vs = some (r₁, res)) :
    r.KeepsRecords r₁ := by
  obtain ⟨v, -, rfl, -⟩ | ⟨-, ⟨record, -, rfl, -⟩ |
    ⟨hdg, ⟨t, va, -, rfl, -⟩ | ⟨t, err, -, rfl, -⟩⟩⟩ :=
    assignVSPort_cases hassign
  · exact fun _ _ => id
  · exact fun _ _ => id
  · intro n record hn
    have hne : n ≠ vs.virtualServerName := by
      rintro rfl
      rw [hdg] at hn
      cases hn
    exact (AList.lookup_insert_ne hne).trans hn
  · exact fun _ _ => id

theorem handle_add_keepsRecords {r : F5Router} (hop : item.op = .add)
    (hstep : r.handle codec item = some r') :
    r.KeepsRecords r' := by
  cases item with
  | http ru =>
    simp only [F5Router.handle, show ru.op = .add from hop] at hstep
    obtain ⟨rfl, -⟩ | ⟨rs, -, -, ⟨err, hassign⟩ | ⟨r₁, vs, rule, hassign, -, rfl⟩⟩ :=
      processRouteAdd_cases hstep
    · exact fun _ _ => id
    · exact assignVSPort_keepsRecords hassign
    · have hkeeps := assignVSPort_keepsRecords hassign
      exact hkeeps
  | tcp tu =>
    simp only [F5Router.handle, show tu.op = .add from hop] at hstep
    cases hstep
    obtain ⟨hsame, -⟩ | ⟨rs, -, -, -, hbooks⟩ := processTCPRouteAdd_cases r tu
    · rw [hsame]
      exact fun _ _ => id
    · rw [F5Router.KeepsRecords, hbooks.internalDataGroup]
      exact fun _ _ => id

def UpdateHTTP.Proper (ru : UpdateHTTP) : Prop :=
  verifyRouteURI ru = .ok () ∧ ∃ ep, ru.endpoint = some ep ∧ ep.address ≠ []

theorem processRouteAdd_recorded {r : F5Router}
    (hl : Ledger codec r.tier2VSInfo r.internalDataGroup) (hproper : ru.Proper)
    (hrec : ru.name ∈ r.internalDataGroup) (hstep : r.processRouteAdd codec ru = some r') :
    (r'.route ru.name).virtual ≠ none := by
  obtain ⟨hverify, ep, hep, haddr⟩ := hproper
  obtain ⟨-, hno⟩ | ⟨rs, -, hcreate, ⟨err, hassign⟩ | ⟨r₁, vs, rule, hassign, -, rfl⟩⟩ :=
    processRouteAdd_cases hstep
  · obtain hno | hno := hno
    · exact absurd hverify hno
    · exact absurd (createResources_of_endpoint hep haddr) (hno _)
  · obtain ⟨ep', -, -, hrs⟩ := createResources_ok hcreate
    have hvs : (r.addedResources ru rs).virtual.virtualServerName = ru.name := by
      rw [addedResources_eq, (resources_fixed _ _).2.2.2.1, hrs]
      rfl
    obtain ⟨r₁, vs, hok⟩ := assignVSPort_isOk hl _ fun hnot => absurd (hvs ▸ hrec) hnot
    rw [hok] at hassign
    cases hassign
  · rw [(added_turns _ hcreate hassign).own]
    simp [RouteState.add]

theorem handle_add_virtual {r : F5Router} (hN : r.Named) (hs : item.Sorted H) (hn : H n)
    (hop : item.op = .add) (hstep : r.handle codec item = some r')
    (hv : (r.route n).virtual ≠ none) : (r'.route n).virtual ≠ none := by
  obtain ⟨x, ht, hroute⟩ := handle_step hN hstep
  by_cases hname : n = item.name
  · subst hname
    rw [ht.own]
    cases hroute with
    | idle => exact hv
    | add => simp [RouteState.add]
    | remove hop' | bind hop' | unbindUnmapped hop' | unbindFailed hop' | unbind hop' =>
      cases hop'.symm.trans hop
    | tcpAdd | tcpRemove => exact absurd hn hs
  · rw [ht.other n hname]
    exact hv

-- ---------------------------------------------------------------------------
-- Until the first drain
-- ---------------------------------------------------------------------------

def Event.Comes (e : Event) : Prop := e.item.op = .add ∧ e.length ≠ 0

theorem run_comes {es : List Event} (hs : ∀ e ∈ es, e.item.Sorted H) (hcomes : ∀ e ∈ es, e.Comes)
    (h : Allotted codec H False r) (hrun : run (F5Router.step codec) r es = some r') :
    Allotted codec H False r' ∧ r.KeepsRecords r' ∧
      (∀ n, H n → (r.route n).virtual ≠ none → (r'.route n).virtual ≠ none) ∧
      ∀ e ∈ es, ∀ ru, e.item = .http ru → ru.Proper → ru.name ∈ r.internalDataGroup →
        (r'.route ru.name).virtual ≠ none := by
  induction es generalizing r with
  | nil =>
    cases hrun
    exact ⟨h, fun _ _ => id, fun _ _ => id, by simp⟩
  | cons e es ih =>
    obtain ⟨r₁, hstep, hrun⟩ := run_cons_eq_some.mp hrun
    have hse := hs e List.mem_cons_self
    obtain ⟨hop, hlen⟩ := hcomes e List.mem_cons_self
    have hhandle : r.handle codec e.item = some r₁ := by
      obtain ⟨⟨r₂, out⟩, hp, rfl⟩ := Option.map_eq_some_iff.mp hstep
      obtain ⟨r₃, hr₃, hp⟩ := Option.bind_eq_some_iff.mp hp
      rw [if_neg hlen] at hp
      cases hp
      exact hr₃
    have h₁ := h.handle hse hhandle
    obtain ⟨h', hkeeps, hvirtual, hgiven⟩ := ih (fun f hf => hs f (List.mem_cons_of_mem _ hf))
      (fun f hf => hcomes f (List.mem_cons_of_mem _ hf)) h₁ hrun
    have hkeeps₁ := handle_add_keepsRecords hop hhandle
    refine ⟨h', fun n record hn => hkeeps n record (hkeeps₁ n record hn), fun n hn hv => ?_,
      fun f hf ru hi hproper hrec => ?_⟩
    · exact hvirtual n hn (handle_add_virtual h.matched.shaped.named hse hn hop hhandle hv)
    · rcases List.mem_cons.mp hf with rfl | hf
      · rw [hi] at hhandle hse hop
        refine hvirtual _ hse (processRouteAdd_recorded h.matched.booked.ledger hproper hrec ?_)
        simpa [F5Router.handle, show ru.op = .add from hop] using hhandle
      · obtain ⟨record, hrecord⟩ := GoMap.mem_iff.mp hrec
        exact hgiven f hf ru hi hproper (GoMap.mem_iff.mpr ⟨record, hkeeps₁ _ _ hrecord⟩)

/-- What a restart owes to the routes of a data group: those that are back have
the address in their record, and no other route has that address or that of a
further one. -/
structure F5Router.Restored (codec : Codec) (es : List Event)
    (records : List InternalDataGroupRecord) (r : F5Router) : Prop where
  given : ∀ record ∈ records, ∀ e ∈ es, ∀ ru, e.item = .http ru →
    ru.name = record.name → ru.Proper →
    ∃ v, r.virtualResources.lookup record.name = some v
  returned : ∀ record ∈ records, ∀ v, r.virtualResources.lookup record.name = some v →
    ∃ va, codec.decode record.data = .address va ∧
      verifyDestAddress va r.c.partition = .ok v.destination
  others : ∀ n v, tier2 es n → r.virtualResources.lookup n = some v →
    n ∉ records.map InternalDataGroupRecord.name → ∀ record ∈ records, ∀ va,
      codec.decode record.data = .address va →
        verifyDestAddress va r.c.partition ≠ .ok v.destination
  apart : ∀ m n v w, tier2 es m → tier2 es n → r.virtualResources.lookup m = some v →
    r.virtualResources.lookup n = some w → v.destination = w.destination → m = n
  kept : ∀ record ∈ records, r.internalDataGroup.lookup record.name = some record
  truncated : ∀ o, ∃ r', r.truncateInternalDataGroup codec o = some r' ∧
    ∀ n, r'.internalDataGroup.lookup n =
      if n ∈ r.virtualResources then r.internalDataGroup.lookup n else none

/-- Whatever routes come in whatever order after a restart, until the first
drain the routes of the data group get their addresses back. -/
theorem restart_restores (hboot : boot codec c plans (some dg) = some r₀)
    (hdg : Restorable codec r₀.tier2VSInfo.ipNet dg.records)
    (hcached : ∀ record ∈ dg.records, (∃ uri, makeObjectName uri = some record.name) ∧
      record.name ∉ tcpNames es)
    (hnames : ∀ n ∈ httpNames es, n ∉ tcpNames es) (hcomes : ∀ e ∈ es, e.Comes)
    (hrun : run (F5Router.step codec) r₀ es = some r) : r.Restored codec es dg.records := by
  have htier2 : ∀ record ∈ dg.records, tier2 es record.name := by
    intro record hrec
    obtain ⟨⟨uri, huri⟩, htcp⟩ := hcached record hrec
    exact ⟨not_tier1 (makeObjectName_starts huri), htcp⟩
  have h₀ : Allotted codec (tier2 es) False r₀ := by
    refine .boot hboot (fun n hn => hn.1) (fun g hg record hrec => ?_) nofun
    cases hg
    exact htier2 record hrec
  obtain ⟨h, hkeeps, -, hgiven⟩ := run_comes (sorted_tier2 hnames) hcomes h₀ hrun
  obtain ⟨hall, -⟩ := boot_cached hboot hdg
  have hkept : ∀ record ∈ dg.records, r.internalDataGroup.lookup record.name = some record :=
    fun record hrec => hkeeps _ _ (hall record hrec)
  have howner : ∀ record ∈ dg.records, ∀ va, codec.decode record.data = .address va →
      recordAddress codec r.internalDataGroup record.name = some va :=
    fun record hrec va hdec => recordAddress_eq_some.mpr ⟨record, hkept record hrec, hdec⟩
  refine ⟨fun record hrec e he ru hi hname hproper => ?_, fun record hrec v hv => ?_,
    fun n v hn hv hnot record hrec va hdec hdest => ?_, fun m n v w hm hn hv hw hdest => ?_,
    hkept, fun o => ?_⟩
  · have hmem : ru.name ∈ r₀.internalDataGroup :=
      GoMap.mem_iff.mpr ⟨record, hname ▸ hall record hrec⟩
    obtain ⟨v, hv⟩ := Option.ne_none_iff_exists'.mp (hgiven e he ru hi hproper hmem)
    exact ⟨v, hname ▸ hv⟩
  · obtain ⟨va, hva, hdest⟩ := h.matched.booked.virtual _ v (htier2 record hrec) hv
    obtain ⟨record', hrec', hdec⟩ := recordAddress_eq_some.mp hva
    rw [hkept record hrec] at hrec'
    cases hrec'
    exact ⟨va, hdec, hdest⟩
  · obtain ⟨wa, hwa, hdest'⟩ := h.matched.booked.virtual n v hn hv
    obtain rfl := verifyDestAddress_injective hdest hdest'
    have hsame := h.sound.owner_injective _ _ _ (howner record hrec va hdec) hwa
    exact hnot (List.mem_map.mpr ⟨record, hrec, hsame⟩)
  · obtain ⟨va, hva, hdest₁⟩ := h.matched.booked.virtual m v hm hv
    obtain ⟨wa, hwa, hdest₂⟩ := h.matched.booked.virtual n w hn hw
    rw [hdest] at hdest₁
    obtain rfl := verifyDestAddress_injective hdest₁ hdest₂
    exact h.sound.owner_injective _ _ _ hva hwa
  · obtain ⟨dg', used, drop, htrunc, hdg', -⟩ :=
      truncateInternalDataGroup_spec h.matched.booked.ledger o
    exact ⟨_, htrunc, hdg'⟩

theorem Sample.cached_restorable
    (hboot : boot jsonCodec Sample.config ∅ (some Sample.cached) = some r₀) :
    Restorable jsonCodec r₀.tier2VSInfo.ipNet Sample.cached.records := by
  have hnet : ∀ r ∈ boot jsonCodec Sample.config ∅ (some Sample.cached),
      ∃ ip ∈ parseIP "172.0.0.0".toList, r.tier2VSInfo.ipNet.contains ip = true := by
    decide +kernel
  obtain ⟨ip, hip, hcontains⟩ := hnet r₀ hboot
  refine ⟨by decide, ?_, ?_⟩
  · simp only [Sample.cached, List.forall_mem_cons, Sample.decode_record]
    exact ⟨⟨_, rfl, ip, hip, hcontains, by decide⟩,
      ⟨_, rfl, ip, hip, hcontains, by decide⟩, by simp⟩
  · simp [Sample.cached, Sample.decode_record]

theorem restart_restores_sample :
    ∃ r₀ ∈ boot jsonCodec Sample.config ∅ (some Sample.cached),
      ∃ r ∈ run (F5Router.step jsonCodec) r₀
      [Sample.event Sample.addC 1, Sample.event Sample.addA 1],
      r.Restored jsonCodec [Sample.event Sample.addC 1,
        Sample.event Sample.addA 1] Sample.cached.records := by
  have hsome : ∃ r₀ ∈ boot jsonCodec Sample.config ∅ (some Sample.cached),
      (run (F5Router.step jsonCodec) r₀ [Sample.event Sample.addC 1,
        Sample.event Sample.addA 1]).isSome = true := by
    decide +kernel
  obtain ⟨r₀, hboot, hsome⟩ := hsome
  obtain ⟨r, hrun⟩ := Option.isSome_iff_exists.mp hsome
  refine ⟨r₀, hboot, r, hrun,
    restart_restores hboot (Sample.cached_restorable hboot) ?_ (by decide) ?_ hrun⟩
  · simp only [Sample.cached, List.forall_mem_cons]
    exact ⟨⟨⟨"*.a".toList, by decide⟩, by decide⟩, ⟨⟨"*.b".toList, by decide⟩, by decide⟩, by simp⟩
  · simp only [List.forall_mem_cons]
    exact ⟨⟨rfl, by decide⟩, ⟨rfl, by decide⟩, by simp⟩

end BigipCtlr
