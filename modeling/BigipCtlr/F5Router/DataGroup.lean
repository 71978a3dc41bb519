import BigipCtlr.F5Router.Shape

/-!
# The data group and the tier-2 virtual servers

In every configuration that is written the records of the internal data group
and the virtual servers of HTTP routes correspond one to one, and a record
holds the address of its virtual server. Between writes a record may wait for
a virtual server until the first drain; never the other way round.
-/

namespace BigipCtlr

open Go Lib

section
variable (codec : Codec) (H : Str → Prop) (fresh : Prop)

/-- The books and the virtual servers agree. On a fresh start no record ever
waits for its virtual server, else none after the first drain. -/
structure Booked (r : F5Router) : Prop where
  ledger : Ledger codec r.tier2VSInfo r.internalDataGroup
  names : ∀ n, n ∈ r.internalDataGroup → H n
  virtual : ∀ n v, H n → (r.route n).virtual = some v →
    ∃ va, recordAddress codec r.internalDataGroup n = some va ∧
      verifyDestAddress va r.c.partition = .ok v.destination
  synced : fresh ∨ r.firstSyncDone = true → ∀ n, n ∈ r.internalDataGroup →
    (r.route n).virtual ≠ none

structure Matched (r : F5Router) : Prop where
  shaped : r.Shaped H
  booked : Booked codec H fresh r

end

-- ---------------------------------------------------------------------------
-- Handling an item
-- ---------------------------------------------------------------------------

theorem Booked.keep {r r' : F5Router} (h : Booked codec H fresh r) (hb : r.SameBooks r')
    (hc : r'.c = r.c) (hsync : r'.firstSyncDone = r.firstSyncDone)
    (hv : ∀ n, H n → (r'.route n).virtual.map Virtual.destination =
      (r.route n).virtual.map Virtual.destination) :
    Booked codec H fresh r' := by
  refine ⟨hb.ledger h.ledger, fun n hn => h.names n (hb.internalDataGroup ▸ hn),
    fun n v hn hr' => ?_, fun hs n hn hr' => ?_⟩
  · have hd := hv n hn
    rw [hr', Option.map_some, eq_comm, Option.map_eq_some_iff] at hd
    obtain ⟨w, hw, hdest⟩ := hd
    rw [hb.internalDataGroup, hc, ← hdest]
    exact h.virtual n w hn hw
  · rw [hb.internalDataGroup] at hn
    have hd := hv n (h.names n hn)
    rw [hr', Option.map_none, eq_comm, Option.map_eq_none_iff] at hd
    exact h.synced (hs.imp_right (hsync ▸ ·)) n hn hd

theorem Booked.turn {r r' : F5Router} (h : Booked codec H fresh r) (hb : r.SameBooks r')
    (ht : r.Turns n x r')
    (hv : H n → x.virtual.map Virtual.destination = (r.route n).virtual.map Virtual.destination) :
    Booked codec H fresh r' := by
  refine h.keep hb ht.c ht.firstSyncDone fun m hm => ?_
  by_cases hmn : m = n
  · subst hmn
    rw [ht.own]
    exact hv hm
  · rw [ht.other m hmn]

theorem bind_destination (x : RouteState) :
    (x.bind c plan).virtual.map Virtual.destination = x.virtual.map Virtual.destination := by
  simp only [RouteState.bind]
  split
  · rfl
  · next hv => rw [hv]; rfl
  · rfl

theorem assignVSPort_booked {r : F5Router} (h : Booked codec H fresh r)
    (hn : H vs.virtualServerName) (hassign : r.assignVSPort codec vs = some (r₁, res)) :
    Ledger codec r₁.tier2VSInfo r₁.internalDataGroup ∧
      (∀ m, m ≠ vs.virtualServerName →
        r₁.internalDataGroup.lookup m = r.internalDataGroup.lookup m) ∧
      ((∃ va dest, recordAddress codec r₁.internalDataGroup vs.virtualServerName = some va ∧
          verifyDestAddress va r.c.partition = .ok dest ∧
          res = .ok { vs with destination := dest } ∧
          ∀ v, (r.route vs.virtualServerName).virtual = some v → v.destination = dest) ∨
        (r₁.internalDataGroup = r.internalDataGroup ∧ ∃ err, res = .error err)) := by
  obtain ⟨v, hv, rfl, rfl⟩ | ⟨hv, ⟨record, hdg, rfl, hres⟩ | ⟨hdg, ⟨t, va, hget, rfl, rfl⟩ |
    ⟨t, err, hget, rfl, rfl⟩⟩⟩ := assignVSPort_cases hassign
  · obtain ⟨va, hva, hdest⟩ := h.virtual _ v hn hv
    refine ⟨h.ledger, fun _ _ => rfl, .inl ⟨va, v.destination, hva, hdest, rfl, fun w hw => ?_⟩⟩
    rw [show (r₁.route vs.virtualServerName).virtual = some v from hv] at hw
    cases hw
    rfl
  · obtain ⟨-, va, hdec, hvalid⟩ := h.ledger.record _ _ hdg
    obtain ⟨dest, hdest⟩ := verifyDestAddress_isOk hvalid r₁.c.partition
    refine ⟨h.ledger, fun _ _ => rfl,
      .inl ⟨va, dest, recordAddress_eq_some.mpr ⟨record, hdg, hdec⟩, hdest, ?_, ?_⟩⟩
    · obtain ⟨err, hdec', -⟩ | ⟨va', hdec', rfl⟩ := hres
      · rw [hdec] at hdec'
        cases hdec'
      · rw [hdec] at hdec'
        cases hdec'
        rw [hdest]
        rfl
    · intro w hw
      rw [show (r₁.route vs.virtualServerName).virtual = none from hv] at hw
      cases hw
  · obtain ⟨hl, hok⟩ := h.ledger.getAvailableVirtualAddress hget
    obtain ⟨va', hva', hvalid⟩ := hok _ rfl
    cases hva'
    obtain ⟨dest, hdest⟩ := verifyDestAddress_isOk hvalid r.c.partition
    refine ⟨hl.insertRecord hvalid, fun m hm => AList.lookup_insert_ne hm,
      .inl ⟨va, dest, ?_, hdest, ?_, ?_⟩⟩
    · rw [recordAddress_insert hvalid, if_pos rfl]
    · rw [hdest]
      rfl
    · intro w hw
      rw [show (r.route vs.virtualServerName).virtual = none from hv] at hw
      cases hw
  · exact ⟨(h.ledger.getAvailableVirtualAddress hget).1, fun _ _ => rfl, .inr ⟨rfl, err, rfl⟩⟩

theorem recordAddress_congr (h : dg.lookup n = dg'.lookup n) :
    recordAddress codec dg n = recordAddress codec dg' n := by
  simp only [recordAddress, h]

theorem Booked.add {r : F5Router} (h : Booked codec H fresh r) (hn : H ru.name)
    (hstep : r.processRouteAdd codec ru = some r') : Booked codec H fresh r' := by
  obtain ⟨rfl, -⟩ | ⟨rs, -, hcreate, ⟨err, hassign⟩ | ⟨r₁, vs, rule, hassign, -, rfl⟩⟩ :=
    processRouteAdd_cases hstep
  · exact h
  all_goals
    obtain ⟨ep, -, -, hrs⟩ := createResources_ok hcreate
    have hname : (r.addedResources ru rs).virtual.virtualServerName = ru.name :=
      (resources_fixed (r.route ru.name) rs).2.2.2.1.trans (by rw [hrs]; rfl)
    obtain ⟨hl, hother, hout⟩ := assignVSPort_booked h (hname ▸ hn) hassign
  · obtain ⟨va, dest, -, -, hres, -⟩ | ⟨hdg, -⟩ := hout
    · cases hres
    · obtain ⟨⟨t, dg, rfl⟩, -⟩ := assignVSPort_frame hassign
      simp only at hdg
      subst hdg
      exact ⟨hl, h.names, h.virtual, h.synced⟩
  · have ht := added_turns (fun rules => rules.insert ru.uri rule.toOption) hcreate hassign
    obtain ⟨va, dest, hva, hdest, hres, hold⟩ | ⟨-, err, hres⟩ := hout
    · cases hres
      rw [hname] at hva hother hold
      refine ⟨hl, fun m hm => ?_, fun m v hm hv => ?_, fun hs m hm hv => ?_⟩
      · by_cases hmn : m = ru.name
        · exact hmn ▸ hn
        · refine h.names m (AList.lookup_isSome.mp ?_)
          rw [← hother m hmn]
          exact AList.lookup_isSome.mpr hm
      · by_cases hmn : m = ru.name
        · subst hmn
          refine ⟨va, hva, ?_⟩
          rw [ht.c, hdest]
          rw [ht.own] at hv
          simp only [RouteState.add, Option.some.injEq] at hv
          subst hv
          cases hw : (r.route ru.name).virtual with
          | none => rfl
          | some w => rw [Option.getD_some, hold w hw]
        · rw [ht.other m hmn] at hv
          rw [ht.c]
          obtain ⟨va', hva', hd'⟩ := h.virtual m v hm hv
          exact ⟨va', (recordAddress_congr (hother m hmn)).trans hva', hd'⟩
      · by_cases hmn : m = ru.name
        · subst hmn
          rw [ht.own] at hv
          cases hv
        · rw [ht.other m hmn] at hv
          refine h.synced (hs.imp_right (ht.firstSyncDone ▸ ·)) m ?_ hv
          rw [← AList.lookup_isSome] at hm ⊢
          exact (hother m hmn) ▸ hm
    · cases hres

theorem Booked.remove {r : F5Router} (h : Booked codec H fresh r)
    (hstep : r.processRouteRemove codec ru = some r') : Booked codec H fresh r' := by
  obtain ⟨rfl, -⟩ | ⟨ep, p, ms, -, -, -, hp, hms, ⟨hnil, rfl⟩ | ⟨rfl, rfl⟩⟩ :=
    processRouteRemove_cases hstep
  · exact h
  · refine h.turn ⟨rfl, rfl⟩ (shrunk_turns hnil) fun _ => ?_
    simp [RouteState.shrink, hnil]
  · have ht := removed_turns r codec ru p
    have hl : Ledger codec
        (((({ r with poolResources := r.poolResources.erase ru.name }).removeMonitors
          ru.name).removeRule ru).removeVirtual ru.name).tier2VSInfo
        (((({ r with poolResources := r.poolResources.erase ru.name }).removeMonitors
          ru.name).removeRule ru).removeVirtual ru.name).internalDataGroup := h.ledger
    have hdg := (reap_spec hl ru.name).1
    refine ⟨hl.reap ru.name, fun m hm => ?_, fun m v hm hv => ?_, fun hs m hm hv => ?_⟩
    · rw [← AList.lookup_isSome, hdg] at hm
      split at hm
      · cases hm
      · exact h.names m (AList.lookup_isSome.mp hm)
    · by_cases hmn : m = ru.name
      · subst hmn
        rw [ht.own] at hv
        cases hv
      · rw [ht.other m hmn] at hv
        obtain ⟨va, hva, hd⟩ := h.virtual m v hm hv
        rw [ht.c]
        refine ⟨va, (recordAddress_congr ?_).trans hva, hd⟩
        rw [hdg, if_neg hmn]
        rfl
    · rw [← AList.lookup_isSome, hdg] at hm
      by_cases hmn : m = ru.name
      · rw [if_pos hmn] at hm
        cases hm
      · rw [if_neg hmn] at hm
        rw [ht.other m hmn] at hv
        exact h.synced (hs.imp_right (ht.firstSyncDone ▸ ·)) m (AList.lookup_isSome.mp hm) hv

theorem Matched.handle {r : F5Router} (h : Matched codec H fresh r) (hs : item.Sorted H)
    (hstep : r.handle codec item = some r') : Matched codec H fresh r' := by
  refine ⟨h.shaped.handle hs hstep, ?_⟩
  have hb := h.booked
  cases item with
  | http ru =>
    simp only [F5Router.handle] at hstep
    split at hstep
    · exact hb.add hs hstep
    · exact hb.remove hstep
    · obtain ⟨ht, -, hbooks⟩ := processRouteBind_spec h.shaped.named hstep
      exact hb.turn hbooks ht fun _ => bind_destination _
    · next hop =>
      have hbooks := (processRouteUnbind_spec h.shaped.named hop hstep).1.2
      obtain ⟨-, ht⟩ | ⟨p, v, ms, first, -, hv, -, ht⟩ :=
        h.shaped.processRouteUnbind_cases hs hop hstep
      · exact hb.turn hbooks ht fun _ => rfl
      · refine hb.turn hbooks ht fun _ => ?_
        rw [hv]
        rfl
  | tcp tu =>
    have hfar : ∀ r', r.SameBooks r' → ∀ x, r.Turns tu.name x r' → Booked codec H fresh r' :=
      fun r' hbooks x ht => hb.turn hbooks ht fun hn => absurd hn hs
    simp only [F5Router.handle] at hstep
    split at hstep
    · cases hstep
      obtain ⟨hsame, -⟩ | ⟨rs, -, ht, -, hbooks⟩ := processTCPRouteAdd_cases r tu
      · rw [hsame]
        exact hb
      · exact hfar _ hbooks _ ht
    · obtain ⟨rfl, -⟩ | ⟨p, ms, -, -, ht, -, hbooks⟩ := processTCPRouteRemove_cases hstep
      · exact hb
      · exact hfar _ hbooks _ ht
    all_goals
      cases hstep
      exact hb

theorem Matched.firstSync {r : F5Router} (h : Matched codec H fresh r)
    (hstep : r.firstSync codec o = some r') :
    Matched codec H fresh r' ∧ r'.firstSyncDone = true := by
  obtain ⟨hdone, rfl⟩ | ⟨-, r₁, htrunc, rfl⟩ := firstSync_cases hstep
  · exact ⟨h, hdone⟩
  · have hl := h.booked.ledger.truncate htrunc
    obtain ⟨dg, used, drop, hspec, hdg, -⟩ := truncateInternalDataGroup_spec h.booked.ledger o
    rw [hspec] at htrunc
    cases htrunc
    refine ⟨⟨⟨⟨h.shaped.named.pool, h.shaped.named.virtual⟩, h.shaped.whole⟩, hl, fun n hn => ?_,
      fun n v hn hv => ?_, fun _ n hn hv => ?_⟩, rfl⟩
    · rw [← AList.lookup_isSome, hdg] at hn
      split at hn
      · exact h.booked.names n (AList.lookup_isSome.mp hn)
      · cases hn
    · obtain ⟨va, hva, hd⟩ := h.booked.virtual n v hn hv
      refine ⟨va, (recordAddress_congr ?_).trans hva, hd⟩
      exact (hdg n).trans
        (if_pos (AList.lookup_isSome.mp
          (by rw [show r.virtualResources.lookup n = some v from hv]; rfl)))
    · rw [← AList.lookup_isSome, hdg] at hn
      split at hn
      · next hin =>
        rw [← AList.lookup_isSome, show r.virtualResources.lookup n = none from hv] at hin
        cases hin
      · cases hn

theorem Matched.process {r : F5Router} (h : Matched codec H fresh r) (hs : e.item.Sorted H)
    (hstep : r.process codec e = some (r', out)) :
    Matched codec H fresh r' ∧ (∀ s, out = some s →
      r'.firstSyncDone = true ∧ r'.sections e.order = some s) := by
  obtain ⟨r₁, hr₁, hstep⟩ := Option.bind_eq_some_iff.mp hstep
  have h₁ := h.handle hs hr₁
  split at hstep
  · obtain ⟨r₂, hr₂, hstep⟩ := Option.bind_eq_some_iff.mp hstep
    obtain ⟨s, hsec, hstep⟩ := Option.bind_eq_some_iff.mp hstep
    obtain ⟨h₂, hdone⟩ := h₁.firstSync hr₂
    cases hstep
    refine ⟨h₂, ?_⟩
    rintro _ ⟨⟩
    exact ⟨hdone, hsec⟩
  · cases hstep
    exact ⟨h₁, nofun⟩

theorem Matched.boot (h : boot codec c plans dg = some r) (htier1 : ∀ n, H n → ¬ tier1 n)
    (hH : ∀ g ∈ dg, ∀ record ∈ g.records, H record.name) (hfresh : fresh → dg = none) :
    Matched codec H fresh r := by
  refine ⟨.boot h htier1, ?_⟩
  obtain ⟨r₀, hf, -, hstart⟩ := boot_spec h
  obtain ⟨used, records, hcached, hnone, rfl⟩ := start_spec hf hH hstart
  refine ⟨hcached.ledger hf.holder hf.reaped, fun n hn => ?_, fun n v hn hv => ?_, ?_⟩
  · obtain ⟨record, hr⟩ := Option.isSome_iff_exists.mp (AList.lookup_isSome.mpr hn)
    exact (hcached.record n record hr).1
  · exact absurd (hf.virtual n v hv).tier1 (htier1 n hn)
  · rintro (hs | hs) n hn
    · simp [hnone (hfresh hs)] at hn
    · simp [hf.unsynced] at hs

theorem Matched.run {es : List Event} (h : Matched codec H fresh r) (hs : ∀ e ∈ es, e.item.Sorted H)
    (hrun : run (F5Router.step codec) r es = some r') : Matched codec H fresh r' := by
  refine run_invariant_mem (fun s t e he hI ht => ?_) h hrun
  obtain ⟨⟨t', out⟩, hp, rfl⟩ := Option.map_eq_some_iff.mp ht
  exact (hI.process (hs e he) hp).1

-- ---------------------------------------------------------------------------
-- The configurations written
-- ---------------------------------------------------------------------------

def tcpNames (es : List Event) : List Str :=
  es.filterMap fun e => match e.item with
    | .tcp tu => some tu.name
    | .http _ => none

def httpNames (es : List Event) : List Str :=
  es.filterMap fun e => match e.item with
    | .http ru => some ru.name
    | .tcp _ => none

/-- The virtual servers of HTTP routes, in a run: neither of the first tier
nor of a TCP route. -/
def tier2 (es : List Event) (n : Str) : Prop := ¬ tier1 n ∧ n ∉ tcpNames es

instance (es : List Event) : DecidablePred (tier2 es) :=
  fun _ => inferInstanceAs (Decidable (_ ∧ _))

theorem sorted_tier2 {es : List Event} (hnames : ∀ n ∈ httpNames es, n ∉ tcpNames es) :
    ∀ e ∈ es, e.item.Sorted (tier2 es) := by
  intro e he
  cases hi : e.item with
  | http ru =>
    refine ⟨not_tier1 ru.name_starts, hnames _ (List.mem_filterMap.mpr ⟨e, he, ?_⟩)⟩
    rw [hi]
  | tcp tu =>
    rintro ⟨-, hn⟩
    refine hn (List.mem_filterMap.mpr ⟨e, he, ?_⟩)
    rw [hi]

def Resources.tier2Virtuals (es : List Event) (res : Resources) : List Virtual :=
  res.virtuals.filter fun v => tier2 es v.virtualServerName

/-- The records of a data group and the virtual servers correspond by name,
and a record holds the address of its virtual server. -/
structure OneToOne (codec : Codec) (partition : Str) (group : InternalDataGroup)
    (virtuals : List Virtual) :
    Prop where
  nodup : (group.records.map InternalDataGroupRecord.name).Nodup
  perm : (group.records.map InternalDataGroupRecord.name).Perm
    (virtuals.map Virtual.virtualServerName)
  address : ∀ record ∈ group.records, ∀ v ∈ virtuals, v.virtualServerName = record.name →
    ∃ va, record.tier2VirtualAddress codec = .address va ∧
      verifyDestAddress va partition = .ok v.destination

theorem names_of_range {m : GoMap Str V} (name : V → Str)
    (h : ∀ n v, m.lookup n = some v → name v = n) (o : Order) :
    ((m.range o).map Prod.snd).map name = (m.range o).map Prod.fst := by
  rw [List.map_map]
  refine List.map_congr_left fun e he => ?_
  exact h e.1 e.2 (GoMap.mem_range.mp he)

theorem Matched.oneToOne {r : F5Router} (h : Matched codec (tier2 es) fresh r)
    (hdone : r.firstSyncDone = true) (o : Order) :
    OneToOne codec r.c.partition
      { newInternalDataGroup internalDataGroupName with
        records := (r.internalDataGroup.range o).map Prod.snd }
      ((r.createVirtuals o).filter fun v => tier2 es v.virtualServerName) := by
  have hrecords := names_of_range InternalDataGroupRecord.name
    (fun n record hn => (h.booked.ledger.record n record hn).1) o
  have hvirtuals := names_of_range Virtual.virtualServerName h.shaped.named.virtual o
  have hnodup :
      (((r.internalDataGroup.range o).map Prod.snd).map InternalDataGroupRecord.name).Nodup := by
    rw [hrecords]
    exact GoMap.range_keys_nodup o _
  have hnodup' : ((r.createVirtuals o).map Virtual.virtualServerName).Nodup := by
    rw [F5Router.createVirtuals, hvirtuals]
    exact GoMap.range_keys_nodup o _
  refine ⟨hnodup, ?_, fun record hrec v hv hname => ?_⟩
  · refine (List.perm_ext_iff_of_nodup hnodup (hnodup'.sublist (List.filter_sublist.map _))).mpr
      fun n => ?_
    simp only [hrecords, GoMap.mem_range_keys]
    constructor
    · intro hn
      obtain ⟨v, hv⟩ := Option.ne_none_iff_exists'.mp (h.booked.synced (.inr hdone) n hn)
      have hvn := h.shaped.named.virtual n v hv
      refine List.mem_map.mpr ⟨v, List.mem_filter.mpr ⟨GoMap.mem_range_values.mpr ⟨n, hv⟩, ?_⟩, hvn⟩
      rw [hvn]
      exact decide_eq_true (h.booked.names n hn)
    · intro hn
      obtain ⟨v, hv, rfl⟩ := List.mem_map.mp hn
      obtain ⟨hv, ht⟩ := List.mem_filter.mp hv
      obtain ⟨k, hk⟩ := GoMap.mem_range_values.mp hv
      obtain rfl := h.shaped.named.virtual k v hk
      obtain ⟨va, hva, -⟩ := h.booked.virtual _ v (of_decide_eq_true ht) hk
      obtain ⟨record, hrec, -⟩ := recordAddress_eq_some.mp hva
      exact AList.lookup_isSome.mp (by rw [hrec]; rfl)
  · obtain ⟨hv, ht⟩ := List.mem_filter.mp hv
    obtain ⟨k, hk⟩ := GoMap.mem_range_values.mp hv
    obtain rfl := h.shaped.named.virtual k v hk
    obtain ⟨k', hk'⟩ := GoMap.mem_range_values.mp hrec
    obtain rfl := (h.booked.ledger.record k' record hk').1
    obtain ⟨va, hva, hdest⟩ := h.booked.virtual _ v (of_decide_eq_true ht) hk
    obtain ⟨record', hrec', hdec⟩ := recordAddress_eq_some.mp hva
    rw [hname, hk'] at hrec'
    cases hrec'
    exact ⟨va, hdec, hdest⟩

theorem sections_group {r : F5Router} (h : r.sections o = some s) :
    ∃ res, s.resources.lookup r.c.partition = some res ∧ res.virtuals = r.createVirtuals o ∧
      (∃ group ∈ res.internalDataGroups, group.name = internalDataGroupName) ∧
      ∀ group ∈ res.internalDataGroups, group.name = internalDataGroupName →
        group = { newInternalDataGroup internalDataGroupName with
          records := (r.internalDataGroup.range o).map Prod.snd } := by
  obtain ⟨resources, hres, rfl⟩ := Option.map_eq_some_iff.mp h
  obtain ⟨policies, -, hres⟩ := Option.bind_eq_some_iff.mp hres
  cases hres
  refine ⟨_, AList.lookup_insert _, rfl, ?_, ?_⟩
  · refine ⟨_, List.mem_map.mpr ⟨(internalDataGroupName, r.internalDataGroup), ?_, rfl⟩, rfl⟩
    rw [GoMap.mem_range, AList.lookup_insert]
  · intro group hg hname
    obtain ⟨⟨name, records⟩, hmem, rfl⟩ := List.mem_map.mp hg
    obtain rfl : name = internalDataGroupName := hname
    rw [GoMap.mem_range, AList.lookup_insert] at hmem
    cases hmem
    rfl

/-- In every configuration that a run writes, whatever data group it found at
the start, the records and the virtual servers of HTTP routes correspond. -/
theorem dataGroup_oneToOne {es : List Event} {e : Event}
    (hboot : boot codec c plans dg = some r₀)
    (hcached : ∀ g ∈ dg, ∀ record ∈ g.records,
      (∃ uri, makeObjectName uri = some record.name) ∧ record.name ∉ tcpNames (es ++ [e]))
    (hnames : ∀ n ∈ httpNames (es ++ [e]), n ∉ tcpNames (es ++ [e]))
    (hrun : run (F5Router.step codec) r₀ es = some r)
    (hwrite : r.process codec e = some (r', some s)) :
    ∃ res, s.resources.lookup r'.c.partition = some res ∧
      (∃ group ∈ res.internalDataGroups, group.name = internalDataGroupName) ∧
      ∀ group ∈ res.internalDataGroups, group.name = internalDataGroupName →
        OneToOne codec r'.c.partition group (res.tier2Virtuals (es ++ [e])) := by
  have hsorted := sorted_tier2 hnames
  have h₀ : Matched codec (tier2 (es ++ [e])) False r₀ := by
    refine .boot hboot (fun n hn => hn.1) (fun g hg record hrec => ?_) nofun
    obtain ⟨⟨uri, huri⟩, hn⟩ := hcached g hg record hrec
    exact ⟨not_tier1 (makeObjectName_starts huri), hn⟩
  have h := h₀.run (fun f hf => hsorted f (List.mem_append_left _ hf)) hrun
  obtain ⟨h', hout⟩ := h.process (hsorted e (by simp)) hwrite
  obtain ⟨hdone, hsec⟩ := hout s rfl
  obtain ⟨res, hres, hv, hex, hall⟩ := sections_group hsec
  refine ⟨res, hres, hex, fun group hg hname => ?_⟩
  rw [hall group hg hname, Resources.tier2Virtuals, hv]
  exact h'.oneToOne hdone e.order

def Sample.cached : InternalDataGroup :=
  { newInternalDataGroup internalDataGroupName with
    records := [Sample.record "a".toList 10000, Sample.record "b".toList 10001] }

theorem dataGroup_oneToOne_restart :
    ∃ r₀ r r' s, boot jsonCodec Sample.config ∅ (some Sample.cached) = some r₀ ∧
      run (F5Router.step jsonCodec) r₀ [Sample.event Sample.addC 1] = some r ∧
      r.process jsonCodec (Sample.event Sample.addA 0) = some (r', some s) ∧
      ∃ res, s.resources.lookup r'.c.partition = some res ∧
        (∃ group ∈ res.internalDataGroups, group.name = internalDataGroupName) ∧
        ∀ group ∈ res.internalDataGroups, group.name = internalDataGroupName →
          OneToOne jsonCodec r'.c.partition group
            (res.tier2Virtuals ([Sample.event Sample.addC 1] ++ [Sample.event Sample.addA 0])) := by
  have hsome : (((boot jsonCodec Sample.config ∅ (some Sample.cached)).bind fun r₀ =>
      (run (F5Router.step jsonCodec) r₀ [Sample.event Sample.addC 1]).bind fun r =>
      r.process jsonCodec (Sample.event Sample.addA 0)).bind Prod.snd).isSome =
    true := by decide +kernel
  obtain ⟨s, hs⟩ := Option.isSome_iff_exists.mp hsome
  obtain ⟨⟨r', out⟩, hs, rfl : out = some s⟩ := Option.bind_eq_some_iff.mp hs
  obtain ⟨r₀, hboot, hs⟩ := Option.bind_eq_some_iff.mp hs
  obtain ⟨r, hrun, hwrite⟩ := Option.bind_eq_some_iff.mp hs
  refine ⟨r₀, r, r', s, hboot, hrun, hwrite, dataGroup_oneToOne hboot ?_ ?_ hrun hwrite⟩
  · rintro g ⟨⟩ record hrec
    obtain rfl | rfl : record = Sample.record "a".toList 10000 ∨
      record = Sample.record "b".toList 10001 := by
      simpa [Sample.cached] using hrec
    · exact ⟨⟨"*.a".toList, by decide⟩, by decide⟩
    · exact ⟨⟨"*.b".toList, by decide⟩, by decide⟩
  · decide

end BigipCtlr
