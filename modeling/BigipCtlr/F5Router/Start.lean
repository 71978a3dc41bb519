import BigipCtlr.F5Router.Codec
import BigipCtlr.F5Router.Ledger

/-!
# The router at its start

What `NewF5Router` and the start of `Run` leave in the state, with and without
a data group on the BIG-IP.
-/

namespace BigipCtlr

open Go Lib

def tier1 (n : Str) : Prop := n = httpRouterName ∨ n = httpsRouterName

instance : DecidablePred tier1 := fun _ => inferInstanceAs (Decidable (_ ∨ _))

structure Tier1Virtual (c : Config) (n : Str) (v : Virtual) : Prop where
  tier1 : tier1 n
  name : v.virtualServerName = n
  poolName : v.poolName = []
  iRules : v.iRules = [bigipPath c.partition httpForwardingiRuleName]

structure F5Router.Fresh (r : F5Router) : Prop where
  external : (parseIP r.c.bigIP.externalAddr).isSome = true
  holder : r.tier2VSInfo.holderIP.length = 16
  port : r.tier2VSInfo.holderPort = 10000
  used : r.tier2VSInfo.usedPorts = ∅
  reaped : r.tier2VSInfo.reapedPorts = []
  rules : r.r = ∅ ∧ r.wildcards = ∅
  pools : r.poolResources = ∅
  monitors : r.monitorResources = ∅
  dataGroup : r.internalDataGroup = ∅
  unmapped : r.unmappedResourcesMap = ∅
  unsynced : r.firstSyncDone = false
  virtual : ∀ n v, r.virtualResources.lookup n = some v → Tier1Virtual r.c n v
  iRules : r.c.routingMode ≠ .tcp →
    httpForwardingiRuleName ∈ r.ruleResources ∧
      (r.c.sessionPersistence = true → jsessionidIRuleName ∈ r.ruleResources)
  iRuleNames : ∀ n rule, r.ruleResources.lookup n = some rule → rule.name = n

theorem validateTier2Range_length (h : validateTier2Range s = .ok (ip, net)) : ip.length = 16 := by
  simp only [validateTier2Range] at h
  split at h
  · cases h
  split at h
  · split at h
    · next i _ _ hcidr =>
      generalize (if i.to4.isSome then 32 else 128) = bits at h
      split at h
      · cases h
      · split at h
        · cases h
          exact parseCIDR_length hcidr
        · cases h
    · cases h
    · cases h
  · cases h

theorem validateConfig_ok (h : validateConfig c = .ok (c', ip, net)) :
    ip.length = 16 ∧ c'.routingMode = c.routingMode ∧ c'.sessionPersistence = c.sessionPersistence ∧
      (parseIP c'.bigIP.externalAddr).isSome = true := by
  simp only [validateConfig] at h
  split at h
  · cases h
  obtain ⟨dest, hdest, h⟩ := bind_ok h
  obtain ⟨⟨ip', net'⟩, hr, h⟩ := bind_ok h
  cases h
  exact ⟨validateTier2Range_length hr, rfl, rfl, verifyDestAddress_parses hdest⟩

theorem tier1Virtual_ok (hn : tier1 n) (h : tier1Virtual c n port prfls = .ok v) :
    Tier1Virtual c n v := by
  simp only [tier1Virtual, joinBigipPath_ok (show httpForwardingiRuleName ≠ [] by decide)] at h
  obtain ⟨path, hpath, h⟩ := bind_ok h
  cases hpath
  obtain ⟨dest, -, h⟩ := bind_ok h
  cases h
  exact ⟨hn, rfl, rfl, rfl⟩

theorem Tier1Virtual.insert (hw : Tier1Virtual c n w)
    (hm : ∀ n v, m.lookup n = some v → Tier1Virtual c n v) :
    ∀ k v, (AList.insert n w m).lookup k = some v → Tier1Virtual c k v := by
  intro k v hk
  rw [GoMap.lookup_insert_ite] at hk
  split at hk
  · next he =>
    cases hk
    exact he ▸ hw
  · exact hm k v hk

theorem createHTTPVirtuals_ok {r r' : F5Router} (h : r.createHTTPVirtuals = .ok r')
    (hv : r.virtualResources = ∅) :
    ∃ virtuals, (∀ n v, virtuals.lookup n = some v → Tier1Virtual r.c n v) ∧
      r' = { r with
        virtualResources := virtuals
        ruleResources := if r.c.sessionPersistence then
          initiRule r.ruleResources jsessionidIRuleName jsessionidIRule else r.ruleResources } := by
  simp only [F5Router.createHTTPVirtuals] at h
  obtain ⟨http, hhttp, h⟩ := bind_ok h
  have h₁ := (tier1Virtual_ok (.inl rfl) hhttp).insert (m := r.virtualResources) (by simp [hv])
  split at h
  · obtain ⟨https, hhttps, h⟩ := bind_ok h
    cases h
    exact ⟨_, (tier1Virtual_ok (.inr rfl) hhttps).insert h₁, rfl⟩
  · cases h
    exact ⟨_, h₁, rfl⟩

theorem initiRule_names (hm : ∀ n rule, m.lookup n = some rule → rule.name = n) :
    ∀ n rule, (initiRule m name code).lookup n = some rule → rule.name = n := by
  intro n rule hn
  simp only [initiRule, GoMap.lookup_insert_ite] at hn
  split at hn
  · next he =>
    cases hn
    exact he.symm
  · exact hm n rule hn

theorem newF5Router_fresh (h : newF5Router c = .ok r) : r.Fresh := by
  simp only [newF5Router] at h
  obtain ⟨⟨c', ip, net⟩, hc, h⟩ := bind_ok h
  obtain ⟨hlen, hmode, hsess, hext⟩ := validateConfig_ok hc
  simp only at h
  split at h
  · next hne =>
    obtain ⟨r₁, hr₁, h⟩ := bind_ok h
    obtain ⟨virtuals, hv, rfl⟩ := createHTTPVirtuals_ok hr₁ rfl
    cases h
    refine ⟨hext, hlen, rfl, rfl, rfl, ⟨rfl, rfl⟩, rfl, rfl, rfl, rfl, rfl, hv,
      fun _ => ⟨?_, fun hs => ?_⟩, ?_⟩
    · exact (AList.mem_insert _).mpr (.inl rfl)
    · refine (AList.mem_insert _).mpr (.inr ?_)
      rw [if_pos hs]
      exact (AList.mem_insert _).mpr (.inl rfl)
    · refine initiRule_names ?_
      split
      · exact initiRule_names (by simp)
      · simp
  · next hne =>
    cases h
    exact ⟨hext, hlen, rfl, rfl, rfl, ⟨rfl, rfl⟩, rfl, rfl, rfl, rfl, rfl, by simp,
      fun h => (hne h).elim, by simp⟩

-- ---------------------------------------------------------------------------
-- A data group on the BIG-IP
-- ---------------------------------------------------------------------------

def VirtualAddress.Inside (ipNet : IPNet) (va : VirtualAddress) : Prop :=
  ∃ ip, parseIP va.bindAddr = some ip ∧ ipNet.contains ip = true ∧ va.port ≤ 65535

theorem VirtualAddress.Inside.valid {va : VirtualAddress} (h : va.Inside net) : va.Valid := by
  obtain ⟨ip, hip, -⟩ := h
  rw [VirtualAddress.Valid, hip]
  rfl

theorem cacheRecord_cases (h : cacheRecord codec net kept record = some kept') :
    (kept' = kept ∧ ∀ va, codec.decode record.data = .address va → va.Inside net →
      va.string ∈ kept.1) ∨
      ∃ va, codec.decode record.data = .address va ∧ va.Inside net ∧ va.string ∉ kept.1 ∧
        kept' = (kept.1.insert va.string va, kept.2.insert record.name record) := by
  simp only [cacheRecord, InternalDataGroupRecord.tier2VirtualAddress] at h
  split at h
  · next hdec =>
    cases h
    refine .inl ⟨rfl, fun va hva => ?_⟩
    rw [hdec] at hva
    cases hva
  · cases h
  · next va hdec =>
    split at h
    · next hip =>
      cases h
      refine .inl ⟨rfl, fun w hw hin => ?_⟩
      rw [hdec] at hw
      cases hw
      obtain ⟨ip, hip', -⟩ := hin
      rw [hip] at hip'
      cases hip'
    · next ip hip =>
      split at h
      · next hc =>
        cases h
        exact .inr ⟨va, hdec, ⟨ip, hip, hc.1, hc.2.1⟩, hc.2.2, rfl⟩
      · next hc =>
        cases h
        refine .inl ⟨rfl, fun w hw hin => ?_⟩
        rw [hdec] at hw
        cases hw
        obtain ⟨ip', hip', hnet, hport⟩ := hin
        rw [hip] at hip'
        cases hip'
        by_contra hfresh
        exact hc ⟨hnet, hport, hfresh⟩

def InternalDataGroupRecord.Usable (codec : Codec) (net : IPNet) (record : InternalDataGroupRecord)
    (va : VirtualAddress) : Prop :=
  codec.decode record.data = .address va ∧ va.Inside net

/-- What `processCachedDataGroup` makes of the records: the addresses of those
that are usable are used, each with one of its records, and no others are kept. -/
theorem cacheRecords_spec {records : List InternalDataGroupRecord}
    (h : run (cacheRecord codec net) kept records = some kept') :
    (∀ va : VirtualAddress, va.string ∈ kept'.1 ↔
      va.string ∈ kept.1 ∨ ∃ record ∈ records, record.Usable codec net va) ∧
      (∀ va : VirtualAddress, va.string ∈ kept'.1 → va.string ∈ kept.1 ∨
        ∃ record ∈ records, record.Usable codec net va ∧ record.name ∈ kept'.2) ∧
      (∀ n ∈ kept.2, n ∈ kept'.2) ∧
      ∀ n record, kept'.2.lookup n = some record → kept.2.lookup n = some record ∨
        (record.name = n ∧ record ∈ records ∧ ∃ va, record.Usable codec net va) := by
  induction records generalizing kept with
  | nil =>
    cases h
    simp
  | cons record records ih =>
    obtain ⟨kept₁, hfirst, h⟩ := run_cons_eq_some.mp h
    obtain ⟨hused, hkept, hmono, hrec⟩ := ih h
    obtain ⟨rfl, hold⟩ | ⟨w, hdec, hin, hfresh, rfl⟩ := cacheRecord_cases hfirst
    · refine ⟨fun va => ?_, fun va hva => ?_, hmono, fun n rec' hn => ?_⟩
      · rw [hused, List.exists_mem_cons_iff]
        constructor
        · exact Or.imp_right .inr
        · rintro (hva | hva | hva)
          · exact .inl hva
          · exact .inl (hold va hva.1 hva.2)
          · exact .inr hva
      · refine (hkept va hva).imp_right ?_
        rintro ⟨rec', hmem, hrest⟩
        exact ⟨rec', List.mem_cons_of_mem _ hmem, hrest⟩
      · refine (hrec n rec' hn).imp_right ?_
        rintro ⟨hname, hmem, hrest⟩
        exact ⟨hname, List.mem_cons_of_mem _ hmem, hrest⟩
    · have hname : record.name ∈ kept'.2 := hmono _ ((AList.mem_insert _).mpr (.inl rfl))
      have hdecoded : ∀ va, record.Usable codec net va ↔ va = w := by
        intro va
        constructor
        · rintro ⟨hva, -⟩
          rw [hdec] at hva
          cases hva
          rfl
        · rintro rfl
          exact ⟨hdec, hin⟩
      refine ⟨fun va => ?_, fun va hva => ?_,
        fun n hn => hmono n ((AList.mem_insert _).mpr (.inr hn)), fun n rec' hn => ?_⟩
      · rw [hused, List.exists_mem_cons_iff, AList.mem_insert, hdecoded,
          or_comm (a := va.string = w.string), or_assoc]
        refine or_congr_right (or_congr_left ?_)
        exact ⟨VirtualAddress.string_injective, congrArg _⟩
      · obtain hva | ⟨rec', hmem, hrest⟩ := hkept va hva
        · obtain he | hva := (AList.mem_insert _).mp hva
          · obtain rfl := VirtualAddress.string_injective he
            exact .inr ⟨record, List.mem_cons_self, (hdecoded va).mpr rfl, hname⟩
          · exact .inl hva
        · exact .inr ⟨rec', List.mem_cons_of_mem _ hmem, hrest⟩
      · obtain hn | ⟨hname, hmem, hrest⟩ := hrec n rec' hn
        · rw [GoMap.lookup_insert_ite] at hn
          split at hn
          · next he =>
            cases hn
            exact .inr ⟨he.symm, List.mem_cons_self, w, hdec, hin⟩
          · exact .inl hn
        · exact .inr ⟨hname, List.mem_cons_of_mem _ hmem, hrest⟩

/-- The used addresses and the records taken from the BIG-IP agree: every
record has an address of its own, and that is used. -/
structure Cached (codec : Codec) (H : Str → Prop)
    (kept : GoMap Str VirtualAddress × GoMap Str InternalDataGroupRecord) : Prop where
  used : ∀ k va, kept.1.lookup k = some va → k = va.string ∧ va.Valid
  record : ∀ n record, kept.2.lookup n = some record → H n ∧ record.name = n ∧
    ∃ va, codec.decode record.data = .address va ∧ va.Valid
  marked : ∀ n va, recordAddress codec kept.2 n = some va → va.string ∈ kept.1
  injective : ∀ m n va, recordAddress codec kept.2 m = some va →
    recordAddress codec kept.2 n = some va → m = n

theorem Cached.step {record : InternalDataGroupRecord} (h : Cached codec H kept)
    (hH : H record.name) (hs : cacheRecord codec net kept record = some kept') :
    Cached codec H kept' := by
  obtain ⟨rfl, -⟩ | ⟨va, hdec, hin, hfresh, rfl⟩ := cacheRecord_cases hs
  · exact h
  have hva := hin.valid
  have hrec : ∀ n w, recordAddress codec (kept.2.insert record.name record) n = some w →
      (n = record.name ∧ w = va) ∨ (n ≠ record.name ∧ recordAddress codec kept.2 n = some w) := by
    intro n w hn
    obtain ⟨rec', hl, hd⟩ := recordAddress_eq_some.mp hn
    rw [GoMap.lookup_insert_ite] at hl
    split at hl
    · next he =>
      cases hl
      rw [hdec] at hd
      cases hd
      exact .inl ⟨he, rfl⟩
    · next he => exact .inr ⟨he, recordAddress_eq_some.mpr ⟨rec', hl, hd⟩⟩
  refine ⟨fun k w hk => ?_, fun n rec' hn => ?_, fun n w hn => ?_, fun m n w hm hn => ?_⟩
  · simp only [GoMap.lookup_insert_ite] at hk
    split at hk
    · next he =>
      cases hk
      exact ⟨he, hva⟩
    · exact h.used k w hk
  · simp only [GoMap.lookup_insert_ite] at hn
    split at hn
    · next he =>
      cases hn
      exact ⟨he ▸ hH, he.symm, va, hdec, hva⟩
    · exact h.record n rec' hn
  · refine (AList.mem_insert _).mpr ?_
    obtain ⟨-, rfl⟩ | ⟨-, hn⟩ := hrec n w hn
    · exact .inl rfl
    · exact .inr (h.marked n w hn)
  · obtain ⟨hm, hw⟩ | ⟨-, hm⟩ := hrec m w hm <;> obtain ⟨hn, hw'⟩ | ⟨-, hn⟩ := hrec n w hn
    · exact hm.trans hn.symm
    · exact absurd (h.marked n w hn) (hw ▸ hfresh)
    · exact absurd (h.marked m w hm) (hw' ▸ hfresh)
    · exact h.injective m n w hm hn

theorem start_spec {r : F5Router} (hf : r.Fresh)
    (hH : ∀ g ∈ dg, ∀ record ∈ g.records, H record.name) (h : r.start codec dg = some r') :
    ∃ used records, Cached codec H (used, records) ∧ (dg = none → used = ∅ ∧ records = ∅) ∧
      r' = { r with
        tier2VSInfo := { r.tier2VSInfo with usedPorts := used }
        internalDataGroup := records } := by
  have hempty : Cached codec H (∅, ∅) :=
    ⟨by simp, by simp, by simp [recordAddress], by simp [recordAddress]⟩
  cases dg with
  | none =>
    cases h
    exact ⟨_, _, hempty, fun _ => ⟨rfl, rfl⟩, by rw [← hf.used]⟩
  | some g =>
    obtain ⟨⟨used, records⟩, hfold, h⟩ := Option.bind_eq_some_iff.mp h
    cases h
    refine ⟨used, records, ?_, by simp, rfl⟩
    rw [hf.used] at hfold
    refine run_invariant_mem (I := Cached codec H) ?_ hempty hfold
    exact fun s t record hrec hs ht => hs.step (hH g rfl record hrec) ht

/-- What is kept at the start: the used addresses are those of usable records,
and each has a record. -/
theorem start_records {r : F5Router} (hf : r.Fresh) (h : r.start codec dg = some r') :
    (∀ va : VirtualAddress, va.string ∈ r'.tier2VSInfo.usedPorts ↔
        ∃ g ∈ dg, ∃ record ∈ g.records, record.Usable codec r'.tier2VSInfo.ipNet va) ∧
      (∀ va : VirtualAddress, va.string ∈ r'.tier2VSInfo.usedPorts → ∃ g ∈ dg, ∃ record ∈ g.records,
        record.Usable codec r'.tier2VSInfo.ipNet va ∧ record.name ∈ r'.internalDataGroup) ∧
      ∀ n record, r'.internalDataGroup.lookup n = some record →
        record.name = n ∧ ∃ g ∈ dg, record ∈ g.records ∧
          ∃ va, record.Usable codec r'.tier2VSInfo.ipNet va := by
  cases dg with
  | none =>
    cases h
    simp [hf.used]
  | some g =>
    obtain ⟨⟨used, records⟩, hfold, h⟩ := Option.bind_eq_some_iff.mp h
    cases h
    obtain ⟨hused, hkept, -, hrecord⟩ := cacheRecords_spec hfold
    simp only [hf.used, AList.notMem_empty, false_or, AList.lookup_empty, reduceCtorEq]
      at hused hkept hrecord
    simpa using ⟨hused, hkept, hrecord⟩

theorem cacheRecord_isSome_iff : (cacheRecord codec net kept record).isSome = true ↔
    codec.decode record.data ≠ .null := by
  simp only [cacheRecord, InternalDataGroupRecord.tier2VirtualAddress]
  cases codec.decode record.data with
  | error err => simp
  | null => simp
  | address va =>
    simp only
    split
    · simp
    · split <;> simp

theorem start_isSome_iff {r : F5Router} :
    (r.start codec dg).isSome = true ↔ ∀ g ∈ dg, ∀ record ∈ g.records,
      codec.decode record.data ≠ .null := by
  cases dg with
  | none => simp [F5Router.start]
  | some g =>
    have hfold : ∀ kept, (run (cacheRecord codec r.tier2VSInfo.ipNet) kept g.records).isSome =
        true ↔
        ∀ record ∈ g.records, codec.decode record.data ≠ .null := by
      induction g.records with
      | nil => simp
      | cons record records ih =>
        intro kept
        have hfirst := @cacheRecord_isSome_iff codec r.tier2VSInfo.ipNet kept record
        rw [run_cons, List.forall_mem_cons, ← hfirst]
        cases cacheRecord codec r.tier2VSInfo.ipNet kept record with
        | none => simp
        | some kept₁ => simp [ih kept₁]
    simp only [Option.mem_def, Option.some.injEq, forall_eq', ← hfold (r.tier2VSInfo.usedPorts, ∅)]
    rw [F5Router.start, F5Router.processCachedDataGroup, run]
    cases List.foldlM (cacheRecord codec r.tier2VSInfo.ipNet)
      (r.tier2VSInfo.usedPorts, ∅) g.records <;> rfl

theorem Cached.ledger (h : Cached codec H kept) {t : Tier2VSInfo} (hlen : t.holderIP.length = 16)
    (hreaped : t.reapedPorts = []) : Ledger codec { t with usedPorts := kept.1 } kept.2 :=
  ⟨hlen, by simp [hreaped], h.used, fun n record hn => (h.record n record hn).2⟩

theorem F5Router.Fresh.addPlans {r : F5Router} (h : r.Fresh) (plans : GoMap Str Plan) :
    (r.addPlans plans).Fresh := by
  obtain ⟨h1, h2, h3, h4, h5, h6, h7, h8, h9, h10, h11, h12, h13, h14⟩ := h
  exact ⟨h1, h2, h3, h4, h5, h6, h7, h8, h9, h10, h11, h12, h13, h14⟩

theorem boot_spec (h : boot codec c plans dg = some r) :
    ∃ r₀ : F5Router, r₀.Fresh ∧ r₀.plansMap = plans ∧ r₀.start codec dg = some r := by
  simp only [boot] at h
  split at h
  · cases h
  · next r₀ hr₀ =>
    exact ⟨r₀.addPlans plans, (newF5Router_fresh hr₀).addPlans plans, rfl, h⟩

/-- The state after the start: a fresh one, but for the addresses and records
taken from the BIG-IP. -/
theorem boot_state (h : boot codec c plans dg = some r) :
    ∃ (r₀ : F5Router) (used : GoMap Str VirtualAddress)
      (records : GoMap Str InternalDataGroupRecord),
      r₀.Fresh ∧ r₀.plansMap = plans ∧ Cached codec (fun _ => True) (used, records) ∧
      r = { r₀ with
        tier2VSInfo := { r₀.tier2VSInfo with usedPorts := used }
        internalDataGroup := records } := by
  obtain ⟨r₀, hf, hplans, hstart⟩ := boot_spec h
  obtain ⟨used, records, hcached, -, hr⟩ :=
    start_spec (H := fun _ => True) hf (fun _ _ _ _ => trivial) hstart
  exact ⟨r₀, used, records, hf, hplans, hcached, hr⟩

theorem not_tier1 (h : "cf-".toList <+: n) : ¬ tier1 n := by
  obtain ⟨rest, rfl⟩ := h
  have hc : ¬ some 'c' = some 'r' := by decide
  rintro (h | h)
  · exact hc (congrArg List.head? h)
  · exact hc (congrArg List.head? h)

-- ---------------------------------------------------------------------------
-- A controller to run
-- ---------------------------------------------------------------------------

namespace Sample

def config : Config :=
  { bigIP := {
      url := "bigip.example.com".toList
      user := "admin".toList
      pass := "admin".toList
      partitions := ["cf".toList]
      externalAddr := "127.0.0.1".toList } }

def brokerConfig : Config := { config with brokerMode := true }

def endpoint (port : UInt16) : Endpoint :=
  { ptr := port.toNat, applicationId := [], address := "10.0.0.1".toList, port := port }

def addUpdate (uri : Uri) (name : Str) (ep : Endpoint) (h : makeObjectName uri.string = some name) :
    UpdateHTTP :=
  ⟨.add, uri, some ep, name, [], 0, h, unbrokered_add⟩

def update (op : Operation) (domain : Str) (ep : Option Endpoint) (planID : Str)
    (h : op = .bind ∨ op = .unbind → ep = none)
    (hd : makeObjectName (Uri.string ("*.".toList ++ domain)) = some ("cf-".toList ++ domain)) :
    Item :=
  .http ⟨op, "*.".toList ++ domain, ep, "cf-".toList ++ domain, planID, 0, hd, h⟩

theorem named_a : makeObjectName (Uri.string ("*.".toList ++ "a".toList)) = some
    ("cf-".toList ++ "a".toList) := by
  decide

theorem named_b : makeObjectName (Uri.string ("*.".toList ++ "b".toList)) = some
    ("cf-".toList ++ "b".toList) := by
  decide

theorem named_c : makeObjectName (Uri.string ("*.".toList ++ "c".toList)) = some
    ("cf-".toList ++ "c".toList) := by
  decide

def addA : Item := update .add "a".toList (some (endpoint 1)) [] unbrokered_add named_a

def addA2 : Item := update .add "a".toList (some (endpoint 2)) [] unbrokered_add named_a

def addB : Item := update .add "b".toList (some (endpoint 1)) [] unbrokered_add named_b

def addC : Item := update .add "c".toList (some (endpoint 1)) [] unbrokered_add named_c

def removeA : Item := update .remove "a".toList (some (endpoint 1)) [] unbrokered_remove named_a

def bindA (planID : Str) : Item := update .bind "a".toList none planID brokered_none named_a

def unbindA : Item := update .unbind "a".toList none [] brokered_none named_a

def event (item : Item) (length : Nat) : Event := ⟨item, length, Order.stored⟩

def record (domain : Str) (port : Int32) : InternalDataGroupRecord :=
  ⟨"cf-".toList ++ domain, jsonCodec.encode ⟨"172.0.0.0".toList, port⟩⟩

theorem decode_record (domain : Str) (port : Int32) :
    jsonCodec.decode (record domain port).data = .address ⟨"172.0.0.0".toList, port⟩ := by
  refine jsonCodec.decode_encode _ ?_
  change (parseIP "172.0.0.0".toList).isSome = true
  decide

end Sample

example : (boot jsonCodec Sample.config ∅ none).isSome = true := by decide +kernel

end BigipCtlr
