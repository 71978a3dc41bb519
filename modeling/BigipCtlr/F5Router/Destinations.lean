import BigipCtlr.F5Router.DataGroup

/-!
# Destinations of tier-2 virtual servers

The router's address books are an allocator: every item takes one step of it,
and the first drain is its synchronisation. The addresses stay apart as long
as that synchronisation is sound.
-/

namespace BigipCtlr

open Go Lib

/-- The abstract allocator of a router: names own the addresses in their
records, the reaped addresses are free. -/
def F5Router.allocator (codec : Codec) (r : F5Router) : Allocator Position VirtualAddress Str where
  position := r.tier2VSInfo.position
  used := { va | va.string ∈ r.tier2VSInfo.usedPorts }
  free := r.tier2VSInfo.reapedPorts.filterMap id
  owner := recordAddress codec r.internalDataGroup

abbrev F5Router.Sound (codec : Codec) (r : F5Router) : Prop :=
  (r.allocator codec).Sound Position.address (Position.next r.tier2VSInfo.ipNet)

structure F5Router.Allots (codec : Codec) (r r' : F5Router) : Prop where
  ipNet : r'.tier2VSInfo.ipNet = r.tier2VSInfo.ipNet
  step : (r.allocator codec).Step Position.address (Position.next r.tier2VSInfo.ipNet)
    (r'.allocator codec)

theorem F5Router.SameBooks.allocator {r r' : F5Router} (h : r.SameBooks r') :
    r'.allocator codec = r.allocator codec := by
  simp only [F5Router.allocator, h.internalDataGroup, h.tier2VSInfo]

theorem owner_insert (hva : va.Valid) :
    recordAddress codec (dg.insert n ⟨n, codec.encode va⟩) =
      Function.update (recordAddress codec dg) n (some va) := by
  funext m
  rw [recordAddress_insert hva, Function.update_apply]

theorem owner_erase (h : ∀ m, dg'.lookup m = if m = n then none else dg.lookup m) :
    recordAddress codec dg' = Function.update (recordAddress codec dg) n none := by
  funext m
  rw [Function.update_apply]
  simp only [recordAddress, h]
  by_cases hm : m = n
  · simp only [if_pos hm]
  · simp only [if_neg hm]

theorem used_insert (used : GoMap Str VirtualAddress) (va : VirtualAddress) :
    { w : VirtualAddress | w.string ∈ used.insert va.string va } =
      insert va { w : VirtualAddress | w.string ∈ used } := by
  ext w
  rw [Set.mem_insert_iff, Set.mem_ofPred_eq, Set.mem_ofPred_eq, AList.mem_insert]
  exact or_congr_left ⟨VirtualAddress.string_injective, congrArg _⟩

theorem assignVSPort_allots {r : F5Router} (h : Ledger codec r.tier2VSInfo r.internalDataGroup)
    (hassign : r.assignVSPort codec vs = some (r₁, res)) : r.Allots codec r₁ := by
  obtain ⟨v, -, rfl, -⟩ | ⟨-, ⟨record, -, rfl, -⟩ |
    ⟨hdg, ⟨t, va, hget, rfl, -⟩ | ⟨t, err, hget, rfl, -⟩⟩⟩ :=
    assignVSPort_cases hassign
  · exact ⟨rfl, .idle⟩
  · exact ⟨rfl, .idle⟩
  · have hnone : recordAddress codec r.internalDataGroup vs.virtualServerName = none := by
      simp [recordAddress, hdg]
    have hvalid : va.Valid := by
      obtain ⟨-, hok⟩ := h.getAvailableVirtualAddress hget
      obtain ⟨va', hva', hvalid⟩ := hok _ rfl
      cases hva'
      exact hvalid
    obtain ⟨x, rest, rest', hr, hperm, rfl, hres⟩ | ⟨q, hr, hq, hu, rfl, hres⟩ |
      ⟨q, -, -, -, hres⟩ :=
      Tier2VSInfo.getAvailableVirtualAddress_cases hget
    · cases hres
      refine ⟨rfl, ?_⟩
      have hfree : (r.allocator codec).free.Perm (va :: rest'.filterMap id) := by
        simp only [F5Router.allocator, hr]
        exact (hperm.symm.filterMap id).cons va
      simp only [F5Router.allocator, owner_insert hvalid]
      exact .reuse vs.virtualServerName hfree hnone
    · cases hres
      refine ⟨rfl, ?_⟩
      simp only [F5Router.allocator, owner_insert hvalid, used_insert]
      exact .fresh vs.virtualServerName hq hu hnone
    · cases hres
  · obtain ⟨x, rest, rest', -, -, -, hres⟩ | ⟨q, -, -, -, -, hres⟩ | ⟨q, -, hq, rfl, -⟩ :=
      Tier2VSInfo.getAvailableVirtualAddress_cases hget
    · cases hres
    · cases hres
    · exact ⟨rfl, .move hq⟩

theorem used_erase (h : Ledger codec t dg) (hn : "cf-".toList <+: n) :
    { va : VirtualAddress | va.string ∈ t.usedPorts.erase n } =
    { va | va.string ∈ t.usedPorts } := by
  ext va
  rw [Set.mem_ofPred_eq, Set.mem_ofPred_eq, AList.mem_erase, and_iff_right_iff_imp]
  intro hva he
  obtain ⟨w, hw⟩ := Option.isSome_iff_exists.mp (AList.lookup_isSome.mpr hva)
  obtain ⟨hs, hvalid⟩ := h.used _ _ hw
  exact name_ne_string hn hvalid (he.symm.trans hs)

theorem reap_allots {r : F5Router} (h : Ledger codec r.tier2VSInfo r.internalDataGroup)
    (hn : "cf-".toList <+: n) : r.Allots codec (r.reap codec n) := by
  obtain ⟨hdg, ht⟩ := reap_spec h n
  refine ⟨by rw [ht], ?_⟩
  simp only [F5Router.allocator, ht, used_erase h hn, owner_erase hdg]
  cases hva : recordAddress codec r.internalDataGroup n with
  | none =>
    have hsame : Function.update (recordAddress codec r.internalDataGroup) n none =
        recordAddress codec r.internalDataGroup := by rw [← hva, Function.update_eq_self]
    simp only [hsame, Option.map_none, Option.toList_none, List.append_nil]
    exact .idle
  | some va =>
    simp only [Option.map_some, Option.toList_some, List.filterMap_append]
    exact Allocator.Step.release (s := r.allocator codec) hva

theorem handle_allots {r : F5Router} (hN : r.Named)
    (hl : Ledger codec r.tier2VSInfo r.internalDataGroup) (hstep : r.handle codec item = some r') :
    r.Allots codec r' := by
  obtain ⟨-, hbooks⟩ | ⟨ru, vs, r₁, res, -, -, hassign, hbooks, -⟩ |
    ⟨ru, r₁, -, -, rfl, hbooks, -⟩ :=
    handle_cases hN hstep
  · exact ⟨by rw [hbooks.tier2VSInfo], hbooks.allocator ▸ .idle⟩
  · obtain ⟨hnet, hst⟩ := assignVSPort_allots hl hassign
    exact ⟨by rw [hbooks.tier2VSInfo, hnet], hbooks.allocator ▸ hst⟩
  · obtain ⟨hnet, hst⟩ := reap_allots (hbooks.ledger hl) ru.name_starts
    rw [hbooks.allocator, hbooks.tier2VSInfo] at hst
    exact ⟨by rw [hnet, hbooks.tier2VSInfo], hst⟩

-- ---------------------------------------------------------------------------
-- The first drain
-- ---------------------------------------------------------------------------

def F5Router.unclaimed (codec : Codec) (r : F5Router) : List VirtualAddress :=
  (r.tier2VSInfo.usedPorts.pairs.map Prod.snd).filter fun va =>
    r.virtualResources.keys.all fun n => recordAddress codec r.internalDataGroup n ≠ some va

theorem mem_unclaimed {r : F5Router} (h : Ledger codec r.tier2VSInfo r.internalDataGroup) :
    va ∈ r.unclaimed codec ↔ va.string ∈ r.tier2VSInfo.usedPorts ∧
      ∀ n ∈ r.virtualResources, recordAddress codec r.internalDataGroup n ≠ some va := by
  simp only [F5Router.unclaimed, List.mem_filter, List.all_eq_true, decide_eq_true_eq,
    ← AList.mem_keys]
  refine and_congr_left fun _ => ?_
  constructor
  · intro hva
    obtain ⟨⟨k, va⟩, he, rfl⟩ := List.mem_map.mp hva
    have hk := GoMap.mem_pairs.mp he
    have hs := (h.used k va hk).1
    subst hs
    exact AList.lookup_isSome.mp (by rw [hk]; rfl)
  · intro hva
    obtain ⟨w, hw⟩ := Option.isSome_iff_exists.mp (AList.lookup_isSome.mpr hva)
    obtain rfl := VirtualAddress.string_injective (h.used _ w hw).1
    exact List.mem_map.mpr ⟨(_, va), GoMap.mem_pairs.mpr hw, rfl⟩

/-- The synchronisation is sound when no address is free and the cursor has
passed every used address that is not claimed. -/
theorem truncate_sound {r r' : F5Router} (h : Ledger codec r.tier2VSInfo r.internalDataGroup)
    (hs : r.Sound codec) (hreaped : r.tier2VSInfo.reapedPorts = [])
    (hpassed : ∀ va ∈ r.unclaimed codec,
      ¬ Ahead Position.address (Position.next r.tier2VSInfo.ipNet) r.tier2VSInfo.position va)
    (htrunc : r.truncateInternalDataGroup codec o = some r') :
    r'.Sound codec ∧ (r'.allocator codec).Tight := by
  obtain ⟨dg, used, drop, hspec, hdg, hused, -, hnodup, hdrop⟩ := truncateInternalDataGroup_spec h o
  rw [hspec] at htrunc
  cases htrunc
  have hrec : ∀ n va, recordAddress codec dg n = some va ↔
      n ∈ r.virtualResources ∧ recordAddress codec r.internalDataGroup n = some va := by
    intro n va
    simp only [recordAddress_eq_some, hdg]
    by_cases hv : n ∈ r.virtualResources <;> simp [hv]
  have hempty : (r.allocator codec).free = [] := by simp [F5Router.allocator, hreaped]
  have hclaimed : ∀ va ∈ drop, va ∈ r.unclaimed codec := by
    intro va hva
    obtain ⟨hold, hnew⟩ := (hdrop va).mp hva
    exact (mem_unclaimed h).mpr ⟨hold, fun n hn hr =>
      hnew ((hused va).mpr ⟨n, (hrec n va).mpr ⟨hn, hr⟩⟩)⟩
  have hsync := hs.sync { va | va.string ∈ used } (recordAddress codec dg) drop
    hempty (fun n va hn => ((hrec n va).mp hn).2) hused hdrop hnodup fun va hva =>
      hpassed va (hclaimed va hva)
  have hfree : (r.tier2VSInfo.reapedPorts ++ drop.map some).filterMap id =
      (r.allocator codec).free ++ drop := by
    rw [hempty, hreaped, List.nil_append, List.nil_append, List.filterMap_map]
    exact List.filterMap_some
  refine ⟨?_, fun va hva => .inl ((hused va).mp hva)⟩
  rw [F5Router.Sound, F5Router.allocator, hfree]
  exact hsync

-- ---------------------------------------------------------------------------
-- Runs
-- ---------------------------------------------------------------------------

structure Allotted (codec : Codec) (H : Str → Prop) (fresh : Prop) (r : F5Router) : Prop where
  matched : Matched codec H fresh r
  sound : r.Sound codec
  tight : fresh → (r.allocator codec).Tight

/-- What the first drain must find: nothing reaped, and the cursor past what
it is going to reap. -/
def SoundSync (codec : Codec) (r : F5Router) (e : Event) : Prop :=
  e.length = 0 → r.firstSyncDone = false → ∀ r₁ ∈ r.handle codec e.item,
    r₁.tier2VSInfo.reapedPorts = [] ∧ ∀ va ∈ r₁.unclaimed codec,
      ¬ Ahead Position.address (Position.next r₁.tier2VSInfo.ipNet) r₁.tier2VSInfo.position va

theorem Allotted.handle {r : F5Router} (h : Allotted codec H fresh r) (hs : item.Sorted H)
    (hstep : r.handle codec item = some r') : Allotted codec H fresh r' := by
  obtain ⟨hnet, hst⟩ := handle_allots h.matched.shaped.named h.matched.booked.ledger hstep
  refine ⟨h.matched.handle hs hstep, ?_, fun hf => (h.tight hf).step hst⟩
  rw [F5Router.Sound, hnet]
  exact h.sound.step hst

theorem Allotted.step {r : F5Router} (h : Allotted codec H fresh r) (hs : e.item.Sorted H)
    (hsync : SoundSync codec r e) (hstep : r.step codec e = some r') :
    Allotted codec H fresh r' := by
  obtain ⟨r₁, hr₁, rfl | ⟨hlen, hfirst⟩⟩ := step_cases hstep
  · exact h.handle hs hr₁
  · have h₁ := h.handle hs hr₁
    have hm := (h₁.matched.firstSync hfirst).1
    obtain ⟨-, rfl⟩ | ⟨hdone, r₂, htrunc, rfl⟩ := firstSync_cases hfirst
    · exact h₁
    · obtain ⟨x, ht, -⟩ := handle_step h.matched.shaped.named hr₁
      obtain ⟨hreaped, hpassed⟩ := hsync hlen (ht.firstSyncDone.symm.trans hdone) r₁ hr₁
      obtain ⟨hsound, htight⟩ :=
        truncate_sound h₁.matched.booked.ledger h₁.sound hreaped hpassed htrunc
      exact ⟨hm, hsound, fun _ => htight⟩

theorem Allotted.boot (h : boot codec c plans dg = some r) (htier1 : ∀ n, H n → ¬ tier1 n)
    (hH : ∀ g ∈ dg, ∀ record ∈ g.records, H record.name) (hfresh : fresh → dg = none) :
    Allotted codec H fresh r := by
  have hm := Matched.boot h htier1 hH hfresh
  obtain ⟨r₀, hf, -, hstart⟩ := boot_spec h
  obtain ⟨used, records, hcached, hnone, rfl⟩ := start_spec hf hH hstart
  have hfree : r₀.tier2VSInfo.reapedPorts.filterMap id = [] := by rw [hf.reaped]; rfl
  refine ⟨hm, .of_empty hfree hcached.injective hcached.marked, fun hfr va hva => ?_⟩
  simp [F5Router.allocator, hnone (hfresh hfr)] at hva

def F5Router.DistinctDestinations (r : F5Router) : Prop :=
  ∀ m n v w, ¬ tier1 m → ¬ tier1 n → r.virtualResources.lookup m = some v →
    r.virtualResources.lookup n = some w → v.destination = w.destination → m = n

theorem Allotted.distinctDestinations {r : F5Router} (h : Allotted codec (¬ tier1 ·) fresh r) :
    r.DistinctDestinations := by
  intro m n v w hm hn hv hw hd
  obtain ⟨va, hva, hdest⟩ := h.matched.booked.virtual m v hm hv
  obtain ⟨wa, hwa, hdest'⟩ := h.matched.booked.virtual n w hn hw
  rw [hd] at hdest
  obtain rfl := verifyDestAddress_injective hdest hdest'
  exact h.sound.owner_injective m n va hva hwa

theorem Allotted.available_unowned {r : F5Router} (h : Allotted codec H fresh r)
    (hget : r.tier2VSInfo.getAvailableVirtualAddress = some (t, .ok (some va))) (n : Str) :
    recordAddress codec r.internalDataGroup n ≠ some va := by
  obtain ⟨x, rest, rest', hr, -, -, hres⟩ | ⟨q, -, hq, hu, -, hres⟩ | ⟨q, -, -, -, hres⟩ :=
    Tier2VSInfo.getAvailableVirtualAddress_cases hget
  · cases hres
    refine fun hn => h.sound.owner_not_free n va hn ?_
    exact List.mem_filterMap.mpr ⟨some va, hr ▸ List.mem_cons_self, rfl⟩
  · cases hres
    exact h.sound.fresh_not_owned hq hu n
  · cases hres

-- ---------------------------------------------------------------------------
-- Without a data group at the start
-- ---------------------------------------------------------------------------

def QuietSync (codec : Codec) (r : F5Router) (e : Event) : Prop :=
  e.length = 0 → r.firstSyncDone = false →
    ∀ r₁ ∈ r.handle codec e.item, r₁.tier2VSInfo.reapedPorts = []

instance (codec : Codec) (r : F5Router) (e : Event) : Decidable (QuietSync codec r e) :=
  inferInstanceAs (Decidable (_ → _ → _))

/-- On a fresh start every used address is owned or free, so that an empty
free list leaves none to reap. -/
theorem QuietSync.soundSync {r : F5Router} (h : QuietSync codec r e) (ha : Allotted codec H True r)
    (hs : e.item.Sorted H) : SoundSync codec r e := by
  intro hlen hf r₁ hr₁
  have h₁ := ha.handle hs hr₁
  have hreaped := h hlen hf r₁ hr₁
  refine ⟨hreaped, fun va hva => ?_⟩
  obtain ⟨hused, hun⟩ := (mem_unclaimed h₁.matched.booked.ledger).mp hva
  obtain ⟨n, hn⟩ | hfree := h₁.tight trivial va hused
  · obtain ⟨record, hr, -⟩ := recordAddress_eq_some.mp hn
    have hv := h₁.matched.booked.synced (.inl trivial) n (AList.lookup_isSome.mp (by rw [hr]; rfl))
    refine absurd hn (hun n (AList.lookup_isSome.mp ?_))
    exact Option.isSome_iff_ne_none.mpr hv
  · simp [F5Router.allocator, hreaped] at hfree

/-- The destinations in a run without a data group at the start, the first
drain of which finds nothing reaped. -/
theorem fresh_start_destinations (hboot : boot codec c plans none = some r₀)
    (hhttp : ∀ e ∈ es, e.item.isHTTP = true)
    (hquiet : Along (F5Router.step codec) (QuietSync codec) r₀ es)
    (hrun : run (F5Router.step codec) r₀ es = some r) : r.DistinctDestinations := by
  have h₀ : Allotted codec (¬ tier1 ·) True r₀ := .boot hboot (fun _ hn => hn) nofun fun _ => rfl
  have h : Allotted codec (¬ tier1 ·) True r := by
    refine run_invariant (fun s t e he hI hq ht => ?_) hquiet h₀ hrun
    have hs := Item.sorted_of_isHTTP (hhttp e he)
    exact hI.step hs (hq.soundSync hI hs) ht
  exact h.distinctDestinations

def Sample.replaced : List Event := [event addA 0, event removeA 0, event addB 0, event addC 0]

theorem fresh_start_destinations_reused :
    ∃ r₀ r, boot jsonCodec Sample.config ∅ none = some r₀ ∧
      run (F5Router.step jsonCodec) r₀ Sample.replaced = some r ∧
      (r.virtualResources.lookup "cf-b".toList).isSome = true ∧
      (r.virtualResources.lookup "cf-c".toList).isSome = true ∧ r.DistinctDestinations := by
  have hrun : ∃ r₀ ∈ boot jsonCodec Sample.config ∅ none,
      Along (F5Router.step jsonCodec) (QuietSync jsonCodec) r₀ Sample.replaced ∧
      ∃ r ∈ run (F5Router.step jsonCodec) r₀ Sample.replaced,
        (r.virtualResources.lookup "cf-b".toList).isSome = true ∧
        (r.virtualResources.lookup "cf-c".toList).isSome = true := by decide +kernel
  obtain ⟨r₀, hboot, hquiet, r, hrun, hb, hc⟩ := hrun
  exact ⟨r₀, r, hboot, hrun, hb, hc, fresh_start_destinations hboot (by decide) hquiet hrun⟩

/-- A route that goes before the first drain leaves its address twice in
`reapedPorts`, and two later routes take it. -/
theorem fresh_start_destinations_collide :
    ∃ r₀ r v w, boot jsonCodec Sample.config ∅ none = some r₀ ∧
      run (F5Router.step jsonCodec) r₀
        [Sample.event Sample.addA 1, Sample.event Sample.removeA 0, Sample.event Sample.addB 0,
          Sample.event Sample.addC 0] = some r ∧
      r.virtualResources.lookup "cf-b".toList = some v ∧
      r.virtualResources.lookup "cf-c".toList = some w ∧
      v.destination = w.destination := by
  have hsome : (((boot jsonCodec Sample.config ∅ none).bind fun r₀ =>
      run (F5Router.step jsonCodec) r₀ [Sample.event Sample.addA 1, Sample.event Sample.removeA 0,
        Sample.event Sample.addB 0, Sample.event Sample.addC 0]).bind fun r =>
      (r.virtualResources.lookup "cf-b".toList).bind fun v =>
      (r.virtualResources.lookup "cf-c".toList).bind fun w =>
      if v.destination = w.destination then some () else none).isSome = true := by decide +kernel
  obtain ⟨x, hx⟩ := Option.isSome_iff_exists.mp hsome
  obtain ⟨r, hx, hd⟩ := Option.bind_eq_some_iff.mp hx
  obtain ⟨r₀, hboot, hrun⟩ := Option.bind_eq_some_iff.mp hx
  obtain ⟨v, hv, hd⟩ := Option.bind_eq_some_iff.mp hd
  obtain ⟨w, hw, hd⟩ := Option.bind_eq_some_iff.mp hd
  split at hd
  · next he => exact ⟨r₀, r, v, w, hboot, hrun, hv, hw, he⟩
  · cases hd

-- ---------------------------------------------------------------------------
-- After a restart
-- ---------------------------------------------------------------------------

def LateRemove (r : F5Router) (e : Event) : Prop := e.item.op = .remove → r.firstSyncDone = true

/-- At the first drain the cursor has passed the used addresses of the cached
routes that have not come back. -/
def PassedSync (codec : Codec) (r : F5Router) (e : Event) : Prop :=
  e.length = 0 → r.firstSyncDone = false → ∀ r₁ ∈ r.handle codec e.item, ∀ va ∈ r₁.unclaimed codec,
    ¬ Ahead Position.address (Position.next r₁.tier2VSInfo.ipNet) r₁.tier2VSInfo.position va

def Unreaped (r : F5Router) : Prop := r.firstSyncDone = false → r.tier2VSInfo.reapedPorts = []

theorem assignVSPort_reaped {r : F5Router} (h : r.tier2VSInfo.reapedPorts = [])
    (hassign : r.assignVSPort codec vs = some (r₁, res)) : r₁.tier2VSInfo.reapedPorts = [] := by
  obtain ⟨v, -, rfl, -⟩ | ⟨-, ⟨record, -, rfl, -⟩ |
    ⟨-, ⟨t, va, hget, rfl, -⟩ | ⟨t, err, hget, rfl, -⟩⟩⟩ :=
    assignVSPort_cases hassign
  · exact h
  · exact h
  all_goals
    obtain ⟨x, rest, rest', hr, -⟩ | ⟨q, -, -, -, rfl, -⟩ | ⟨q, -, -, rfl, -⟩ :=
      Tier2VSInfo.getAvailableVirtualAddress_cases hget
    · rw [h] at hr
      cases hr
    · exact h
    · exact h

theorem handle_reaped {r : F5Router} (hn : r.Named) (h : r.tier2VSInfo.reapedPorts = [])
    (hop : item.op ≠ .remove) (hstep : r.handle codec item = some r') :
    r'.tier2VSInfo.reapedPorts = [] := by
  obtain ⟨-, hbooks⟩ | ⟨ru, vs, r₁, res, -, -, hassign, hbooks, -⟩ | ⟨ru, r₁, rfl, hremove, -⟩ :=
    handle_cases hn hstep
  · rw [hbooks.tier2VSInfo]
    exact h
  · rw [hbooks.tier2VSInfo]
    exact assignVSPort_reaped h hassign
  · exact absurd hremove hop

theorem step_unreaped {r : F5Router} (hn : r.Named) (h : Unreaped r) (hlate : LateRemove r e)
    (hstep : r.step codec e = some r') : Unreaped r' := by
  intro hf
  obtain ⟨r₁, hr₁, rfl | ⟨-, hfirst⟩⟩ := step_cases hstep
  · obtain ⟨x, ht, -⟩ := handle_step hn hr₁
    have hf₀ : r.firstSyncDone = false := ht.firstSyncDone.symm.trans hf
    refine handle_reaped hn (h hf₀) (fun hop => ?_) hr₁
    rw [hlate hop] at hf₀
    cases hf₀
  · obtain ⟨hdone, rfl⟩ | ⟨-, r₂, -, rfl⟩ := firstSync_cases hfirst
    · rw [hdone] at hf
      cases hf
    · cases hf

theorem boot_unreaped (h : boot codec c plans dg = some r) : Unreaped r := by
  obtain ⟨r₀, used, records, hf, -, -, rfl⟩ := boot_state h
  exact fun _ => hf.reaped

theorem PassedSync.soundSync {r : F5Router} (h : PassedSync codec r e) (hn : r.Named)
    (hu : Unreaped r) (hlate : LateRemove r e) : SoundSync codec r e := by
  intro hlen hf r₁ hr₁
  refine ⟨handle_reaped hn (hu hf) (fun hop => ?_) hr₁, h hlen hf r₁ hr₁⟩
  rw [hlate hop] at hf
  cases hf

/-- The destinations in a run after a restart whose first drain comes when the
cursor has passed the cached addresses that are not claimed again. -/
theorem restart_destinations (hboot : boot codec c plans dg = some r₀)
    (hcached : ∀ g ∈ dg, ∀ record ∈ g.records, ∃ uri, makeObjectName uri = some record.name)
    (hhttp : ∀ e ∈ es, e.item.isHTTP = true)
    (hlate : Along (F5Router.step codec) LateRemove r₀ es)
    (hpassed : Along (F5Router.step codec) (PassedSync codec) r₀ es)
    (hrun : run (F5Router.step codec) r₀ es = some r) :
    r.DistinctDestinations ∧
      ∀ t va, r.tier2VSInfo.getAvailableVirtualAddress = some (t, .ok (some va)) →
        ∀ n v, ¬ tier1 n → r.virtualResources.lookup n = some v →
          verifyDestAddress va r.c.partition ≠ .ok v.destination := by
  have h₀ : Allotted codec (¬ tier1 ·) False r₀ := by
    refine .boot hboot (fun _ hn => hn) (fun g hg record hrec => ?_) nofun
    obtain ⟨uri, huri⟩ := hcached g hg record hrec
    exact not_tier1 (makeObjectName_starts huri)
  have h : Allotted codec (¬ tier1 ·) False r ∧ Unreaped r := by
    refine run_invariant (I := fun r => Allotted codec (¬ tier1 ·) False r ∧ Unreaped r)
      (fun s t e he hI hC ht => ?_) (along_and hlate hpassed) ⟨h₀, boot_unreaped hboot⟩ hrun
    obtain ⟨ha, hu⟩ := hI
    have hn := ha.matched.shaped.named
    have hsync := hC.2.soundSync hn hu hC.1
    exact ⟨ha.step (Item.sorted_of_isHTTP (hhttp e he)) hsync ht, step_unreaped hn hu hC.1 ht⟩
  refine ⟨h.1.distinctDestinations, fun t va hget n v hn hv hdest => ?_⟩
  obtain ⟨wa, hwa, hdest'⟩ := h.1.matched.booked.virtual n v hn hv
  obtain rfl := verifyDestAddress_injective hdest hdest'
  exact h.1.available_unowned hget n hwa

theorem restart_destinations_returned :
    ∃ r₀ r, boot jsonCodec Sample.config ∅ (some Sample.cached) = some r₀ ∧
      run (F5Router.step jsonCodec) r₀
        [Sample.event Sample.addA 1, Sample.event Sample.addB 0, Sample.event Sample.addC 0] =
          some r ∧
      r.DistinctDestinations ∧
      ∀ t va, r.tier2VSInfo.getAvailableVirtualAddress = some (t, .ok (some va)) →
        ∀ n v, ¬ tier1 n → r.virtualResources.lookup n = some v →
          verifyDestAddress va r.c.partition ≠ .ok v.destination := by
  let es := [Sample.event Sample.addA 1, Sample.event Sample.addB 0, Sample.event Sample.addC 0]
  have hlate : ∀ e ∈ es, e.item.op ≠ .remove := by decide
  have hclaimed : ∃ r₀ ∈ boot jsonCodec Sample.config ∅ (some Sample.cached),
      (run (F5Router.step jsonCodec) r₀ es).isSome = true ∧
      Along (F5Router.step jsonCodec) (fun r e => e.length = 0 → r.firstSyncDone = false →
        ∀ r₁ ∈ r.handle jsonCodec e.item, r₁.unclaimed jsonCodec = []) r₀ es := by decide +kernel
  obtain ⟨r₀, hboot, hsome, hclaimed⟩ := hclaimed
  obtain ⟨r, hrun⟩ := Option.isSome_iff_exists.mp hsome
  refine ⟨r₀, r, hboot, hrun, restart_destinations hboot ?_ (by decide) ?_ ?_ hrun⟩
  · rintro g ⟨⟩ record hrec
    obtain rfl | rfl : record = Sample.record "a".toList 10000 ∨
      record = Sample.record "b".toList 10001 := by
      simpa [Sample.cached] using hrec
    · exact ⟨"*.a".toList, by decide⟩
    · exact ⟨"*.b".toList, by decide⟩
  · exact along_of_forall (fun e he _ hop => absurd hop (hlate e he)) r₀
  · refine along_mono (fun r e h hlen hf r₁ hr₁ va hva => ?_) hclaimed
    rw [h hlen hf r₁ hr₁] at hva
    cases hva

/-- A cached route does not come back: its address is reaped and handed out,
and then the cursor comes to it. -/
theorem restart_destinations_collide :
    ∃ r₀ r t va v, boot jsonCodec Sample.config ∅ (some Sample.cached) = some r₀ ∧
      run (F5Router.step jsonCodec) r₀ [Sample.event Sample.addA 0, Sample.event Sample.addC 0] =
        some r ∧
      r.tier2VSInfo.getAvailableVirtualAddress = some (t, .ok (some va)) ∧
      r.virtualResources.lookup "cf-c".toList = some v ∧
      verifyDestAddress va r.c.partition = .ok v.destination := by
  have hsome : ((boot jsonCodec Sample.config ∅ (some Sample.cached)).bind fun r₀ =>
      (run (F5Router.step jsonCodec) r₀ [Sample.event Sample.addA 0,
        Sample.event Sample.addC 0]).bind fun r =>
      r.tier2VSInfo.getAvailableVirtualAddress.bind fun x =>
      x.2.toOption.bind fun va => va.bind fun va =>
      (r.virtualResources.lookup "cf-c".toList).bind fun v =>
      if (verifyDestAddress va r.c.partition).toOption = some v.destination then some ()
        else none).isSome =
        true := by decide +kernel
  obtain ⟨u, hu⟩ := Option.isSome_iff_exists.mp hsome
  obtain ⟨r₀, hboot, hu⟩ := Option.bind_eq_some_iff.mp hu
  obtain ⟨r, hrun, hu⟩ := Option.bind_eq_some_iff.mp hu
  obtain ⟨⟨t, res⟩, hget, hu⟩ := Option.bind_eq_some_iff.mp hu
  obtain ⟨x, hx, hu⟩ := Option.bind_eq_some_iff.mp hu
  obtain ⟨va, rfl, hw⟩ := Option.bind_eq_some_iff.mp hu
  obtain ⟨v, hv, hw⟩ := Option.bind_eq_some_iff.mp hw
  split at hw
  · next hd =>
    obtain rfl : res = .ok (some va) := ok_of_toOption hx
    exact ⟨r₀, r, t, va, v, hboot, hrun, hget, hv, ok_of_toOption hd⟩
  · cases hw

end BigipCtlr
