import BigipCtlr.F5Router.Binding
import BigipCtlr.F5Router.Rules
import BigipCtlr.F5Router.Search

/-!
# Adds that fail

An Add that is refused before anything is installed leaves only the cursor of
the allocator moved: the record that `assignVSPort` writes before its last
check is never left behind, since every address on the books passes that
check. An Add whose rule cannot be made has installed everything else by then,
and stores a nil rule.
-/

namespace BigipCtlr

open Go Lib

-- ---------------------------------------------------------------------------
-- The books in every state
-- ---------------------------------------------------------------------------

theorem firstSync_ledger {r : F5Router} (h : Ledger codec r.tier2VSInfo r.internalDataGroup)
    (hsync : r.firstSync codec o = some r') : Ledger codec r'.tier2VSInfo r'.internalDataGroup := by
  obtain ⟨-, rfl⟩ | ⟨-, r₁, htrunc, rfl⟩ := firstSync_cases hsync
  · exact h
  · have h₁ := h.truncate htrunc
    exact h₁

theorem step_ledger {r : F5Router} (hn : r.Named)
    (h : Ledger codec r.tier2VSInfo r.internalDataGroup) (hstep : r.step codec e = some r') :
    r'.Named ∧ Ledger codec r'.tier2VSInfo r'.internalDataGroup := by
  obtain ⟨r₁, hr₁, hr'⟩ := step_cases hstep
  have hn₁ := handle_named hn hr₁
  have h₁ := handle_ledger hn h hr₁
  rcases hr' with rfl | ⟨-, hsync⟩
  · exact ⟨hn₁, h₁⟩
  · refine ⟨?_, firstSync_ledger h₁ hsync⟩
    obtain ⟨dg, t, done, rfl⟩ := firstSync_spec hsync
    exact ⟨hn₁.pool, hn₁.virtual⟩

theorem boot_ledger (hboot : boot codec c plans dg = some r) :
    r.Named ∧ Ledger codec r.tier2VSInfo r.internalDataGroup := by
  refine ⟨boot_named hboot, ?_⟩
  obtain ⟨r₀, used, records, hf, -, hcached, rfl⟩ := boot_state hboot
  exact hcached.ledger hf.holder hf.reaped

theorem run_ledger (hboot : boot codec c plans dg = some r₀)
    (hrun : run (F5Router.step codec) r₀ es = some r) :
    r.Named ∧ Ledger codec r.tier2VSInfo r.internalDataGroup := by
  refine run_invariant_mem (I := fun r => r.Named ∧
    Ledger codec r.tier2VSInfo r.internalDataGroup) ?_
    (boot_ledger hboot) hrun
  rintro s t e - ⟨hn, h⟩ hstep
  exact step_ledger hn h hstep

-- ---------------------------------------------------------------------------
-- Refused Adds
-- ---------------------------------------------------------------------------

/-- The early returns of `processRouteAdd`. -/
inductive F5Router.Refuses (codec : Codec) (r : F5Router) (ru : UpdateHTTP) : Prop
  | uri (err : Str) : verifyRouteURI ru = .error err → Refuses codec r ru
  | resources (err : Str) : verifyRouteURI ru = .ok () → ru.createResources r.c = .error err →
    Refuses codec r ru
  | address (rs : RouteResources) (r₁ : F5Router) (err : Str) : verifyRouteURI ru = .ok () →
    ru.createResources r.c = .ok rs →
    r.assignVSPort codec (r.addedResources ru rs).virtual = some (r₁, .error err) →
    Refuses codec r ru

/-- With the books in order `assignVSPort` fails in the search for an address
only. -/
theorem assignVSPort_error {r : F5Router} (h : Ledger codec r.tier2VSInfo r.internalDataGroup)
    (hassign : r.assignVSPort codec vs = some (r₁, .error err)) :
    ∃ p, r₁ = { r with tier2VSInfo := r.tier2VSInfo.moved p } := by
  have hplaced : ∀ va : VirtualAddress, va.Valid → (verifyDestAddress va r.c.partition).map
      (fun dest => { vs with destination := dest }) ≠ .error err := by
    intro va hva herr
    obtain ⟨dest, hdest⟩ := verifyDestAddress_isOk hva r.c.partition
    rw [hdest] at herr
    cases herr
  obtain ⟨v, -, -, hres⟩ | ⟨-, ⟨record, hrec, -, ⟨e, hdec, -⟩ | ⟨va, hdec, hres⟩⟩ |
    ⟨-, ⟨t, va, hget, -, hres⟩ | ⟨t, e, hget, rfl, -⟩⟩⟩ := assignVSPort_cases hassign
  · cases hres
  · obtain ⟨-, va, hva, -⟩ := h.record _ _ hrec
    rw [hdec] at hva
    cases hva
  · obtain ⟨-, va', hdec', hva⟩ := h.record _ _ hrec
    rw [hdec] at hdec'
    cases hdec'
    exact absurd hres.symm (hplaced va hva)
  · obtain ⟨va', hva', hvalid⟩ := (h.getAvailableVirtualAddress hget).2 _ rfl
    cases hva'
    exact absurd hres.symm (hplaced va hvalid)
  · obtain ⟨va, rest, rest', -, -, -, hres⟩ | ⟨q, -, -, -, -, hres⟩ | ⟨q, -, -, rfl, -⟩ :=
      Tier2VSInfo.getAvailableVirtualAddress_cases hget
    · cases hres
    · cases hres
    · exact ⟨q, rfl⟩

theorem assignVSPort_gives_up {r : F5Router}
    (hvirtual : r.virtualResources.lookup vs.virtualServerName = none)
    (hrecord : r.internalDataGroup.lookup vs.virtualServerName = none)
    (hget : r.tier2VSInfo.getAvailableVirtualAddress = some (t, .error err)) :
    r.assignVSPort codec vs = some ({ r with tier2VSInfo := t }, .error err) := by
  simp only [F5Router.assignVSPort, hvirtual, hrecord, hget]

theorem processRouteAdd_refused {r : F5Router} (h : Ledger codec r.tier2VSInfo r.internalDataGroup)
    (href : r.Refuses codec ru) :
    ∃ p, r.processRouteAdd codec ru = some { r with tier2VSInfo := r.tier2VSInfo.moved p } := by
  cases href with
  | uri err hverify =>
    exact ⟨r.tier2VSInfo.position, by
      simp [F5Router.processRouteAdd, hverify, Tier2VSInfo.moved_position]⟩
  | resources err hverify hcreate =>
    exact ⟨r.tier2VSInfo.position, by
      simp [F5Router.processRouteAdd, hverify, hcreate, Tier2VSInfo.moved_position]⟩
  | address rs r₁ err hverify hcreate hassign =>
    obtain ⟨p, rfl⟩ := assignVSPort_error h hassign
    exact ⟨p, by simp only [F5Router.processRouteAdd, hverify, hcreate, hassign]⟩

/-- In every state of a run a refused Add is atomic. -/
theorem refused_add_atomic (hboot : boot codec c plans dg = some r₀)
    (hrun : run (F5Router.step codec) r₀ es = some r) (hop : ru.op = .add)
    (href : r.Refuses codec ru) :
    ∃ p, r.handle codec (.http ru) = some { r with tier2VSInfo := r.tier2VSInfo.moved p } := by
  obtain ⟨p, hp⟩ := processRouteAdd_refused (run_ledger hboot hrun).2 href
  exact ⟨p, by simpa only [F5Router.handle, hop] using hp⟩

namespace Sample

def twoWildcards : UpdateHTTP := wild "*.*.x".toList "cf-*.x".toList (by decide)

def oneAddress : Config :=
  { config with bigIP := { config.bigIP with tier2IPRange := "172.0.0.0/32".toList } }

def firstPorts (n : Nat) : InternalDataGroup :=
  ⟨internalDataGroupName, (List.range n).map fun k : Nat =>
    record (itoa k) (Int32.ofInt (10000 + k))⟩

def oneMore : UpdateHTTP := wild "*.x".toList "cf-x".toList (by decide)

theorem firstPorts_usable (hport : InPorts port) (hn : 55536 ≤ n) :
    ∃ record ∈ (firstPorts n).records,
      record.Usable jsonCodec (subnet 255) ⟨"172.0.0.0".toList, port⟩ := by
  obtain ⟨hlo, hhi⟩ := hport
  have hmem : (port.toInt - 10000).toNat < n := by omega
  refine ⟨_, List.mem_map.mpr ⟨(port.toInt - 10000).toNat, List.mem_range.mpr hmem, rfl⟩, ?_⟩
  have hof : Int32.ofInt (10000 + ((port.toInt - 10000).toNat : Int)) = port := by
    rw [Int.toNat_of_nonneg (by omega), show 10000 + (port.toInt - 10000) = port.toInt by omega,
      Int32.ofInt_toInt]
  refine ⟨?_, ipv4 172 0 0 0, ?_, by decide, Int32.le_iff_toInt_le.mpr hhi⟩
  · rw [decode_record, hof]
  · change parseIP "172.0.0.0".toList = _
    decide

theorem firstPorts_exhaust (hn : 55536 ≤ n) :
    ∃ r ∈ boot jsonCodec oneAddress ∅ (some (firstPorts n)),
      (∃ t, r.tier2VSInfo.getAvailableVirtualAddress = some (t, .error outOfAddresses)) ∧
      r.virtualResources.lookup "cf-x".toList = none ∧
      r.internalDataGroup.lookup "cf-x".toList = none ∧
      ∃ rs, oneMore.createResources r.c = .ok rs := by
  have hnew : ∃ r₀ ∈ (newF5Router oneAddress).toOption, r₀.tier2VSInfo.ipNet = subnet 255 ∧
      r₀.tier2VSInfo.holderIP = ipv4 172 0 0 0 ∧ r₀.virtualResources.lookup "cf-x".toList = none ∧
      ∃ rs ∈ (oneMore.createResources r₀.c).toOption, True := by
    decide +kernel
  obtain ⟨r₀, hnew, hnet, hip, hvirtual, rs, hrs, -⟩ := hnew
  have hreturns : ((r₀.addPlans ∅).start jsonCodec (some (firstPorts n))).isSome = true := by
    refine start_isSome_iff.mpr fun g hg record hrec => ?_
    cases hg
    obtain ⟨k, -, rfl⟩ := List.mem_map.mp hrec
    rw [decode_record]
    exact Decoded.noConfusion
  obtain ⟨r, hstart⟩ := Option.isSome_iff_exists.mp hreturns
  have hboot : boot jsonCodec oneAddress ∅ (some (firstPorts n)) = some r := by
    simp only [boot, ok_of_toOption hnew]
    exact hstart
  have hfresh := (newF5Router_fresh (ok_of_toOption hnew)).addPlans ∅
  obtain ⟨hused, -, hrecord⟩ := start_records hfresh hstart
  obtain ⟨used, records, -, -, rfl⟩ :=
    start_spec (H := fun _ => True) hfresh (fun _ _ _ _ => trivial) hstart
  refine ⟨_, hboot, ?_, hvirtual, ?_, rs, ok_of_toOption hrs⟩
  · have hposition : r₀.tier2VSInfo.position = (ipv4 172 0 0 0, 10000) := Prod.ext hip hfresh.port
    refine Tier2VSInfo.gives_up_of_used ?_ hfresh.reaped fun q hq => (hused _).mpr ⟨_, rfl, ?_⟩
    · change Position.In r₀.tier2VSInfo.ipNet r₀.tier2VSInfo.position
      rw [hposition, hnet]
      exact ⟨rfl, by decide, by decide⟩
    · change Position.In r₀.tier2VSInfo.ipNet q at hq
      change ∃ record ∈ _, InternalDataGroupRecord.Usable jsonCodec r₀.tier2VSInfo.ipNet record _
      rw [hnet] at hq ⊢
      have haddress : q.address = ⟨"172.0.0.0".toList, q.2⟩ := by
        rw [Position.address, eq_of_contains_single hq.length hq.contains]
        exact congrArg (VirtualAddress.mk · q.2) (by decide)
      rw [haddress]
      exact firstPorts_usable hq.port hn
  · by_contra hsome
    obtain ⟨record, hlook⟩ := Option.ne_none_iff_exists'.mp hsome
    obtain ⟨hname, g, hg, hrec, -⟩ := hrecord _ record hlook
    cases hg
    obtain ⟨k, -, rfl⟩ := List.mem_map.mp hrec
    have hx : 'x' ∈ itoa (k : Int) := by
      rw [List.append_cancel_left (hname : "cf-".toList ++ itoa k = "cf-".toList ++ "x".toList)]
      decide
    exact absurd (isDecimal_of_mem_itoa hx) (by decide)

end Sample

theorem refused_add_atomic_sample :
    (∃ r₀ ∈ boot jsonCodec Sample.config ∅ none,
      ∃ r ∈ run (F5Router.step jsonCodec) r₀ [Sample.event Sample.addA 0],
      ∃ p, r.handle jsonCodec (.http Sample.twoWildcards) =
        some { r with tier2VSInfo := r.tier2VSInfo.moved p }) ∧
    ∃ r ∈ boot jsonCodec Sample.oneAddress ∅ (some (Sample.firstPorts 55536)),
      (∃ t, r.tier2VSInfo.getAvailableVirtualAddress = some (t, .error outOfAddresses)) ∧
      ∃ p, r.handle jsonCodec (.http Sample.oneMore) =
        some { r with tier2VSInfo := r.tier2VSInfo.moved p } := by
  constructor
  · have hrun : ∃ r₀ ∈ boot jsonCodec Sample.config ∅ none,
        (run (F5Router.step jsonCodec) r₀ [Sample.event Sample.addA 0]).isSome = true := by
      decide +kernel
    obtain ⟨r₀, hboot, hrun⟩ := hrun
    obtain ⟨r, hrun⟩ := Option.isSome_iff_exists.mp hrun
    exact ⟨r₀, hboot, r, hrun, refused_add_atomic hboot hrun rfl (.uri _ rfl)⟩
  · obtain ⟨r, hboot, ⟨t, hget⟩, hvirtual, hrecord, rs, hcreate⟩ :=
      Sample.firstPorts_exhaust (le_refl 55536)
    refine ⟨r, hboot, ⟨t, hget⟩, refused_add_atomic hboot run_nil rfl (.address rs
      { r with tier2VSInfo := t } outOfAddresses ?_ hcreate ?_)⟩
    · decide
    · have hname : (r.addedResources Sample.oneMore rs).virtual.virtualServerName =
          "cf-x".toList := by
        rw [addedResources_eq, (resources_fixed _ _).2.2.2.1]
        obtain ⟨ep, -, -, rfl⟩ := createResources_ok hcreate
        rfl
      exact assignVSPort_gives_up (hname ▸ hvirtual) (hname ▸ hrecord) hget

-- ---------------------------------------------------------------------------
-- Rules that cannot be made
-- ---------------------------------------------------------------------------

structure F5Router.SameObjects (r r' : F5Router) : Prop where
  pools : r'.poolResources = r.poolResources
  virtuals : r'.virtualResources = r.virtualResources
  rules : r.SameRules r'
  records : r'.internalDataGroup = r.internalDataGroup

/-- Whatever the item does, no nil rule is kept and the policy can be made; an
Add whose rule cannot be made does nothing. -/
structure Traceless (codec : Codec) (r : F5Router) (e : Event) : Prop where
  stored : ∀ r', r.handle codec e.item = some r' → ∀ u x, r'.r.lookup u = some x ∨
    r'.wildcards.lookup u = some x →
    x ≠ none
  policies : ∀ r', r.handle codec e.item = some r' → ∀ o, (r'.createPolicies o).isSome = true
  failed : ∀ r', r.handle codec e.item = some r' → ∀ ru err, e.item = .http ru → ru.op = .add →
    makeRouteRule ru = some (.error err) → r.SameObjects r'

def Parses (codec : Codec) (r : F5Router) (e : Event) : Prop :=
  ∀ ru, e.item = .http ru → ru.op = .add → r.Accepts codec ru → ru.url.isSome = true

theorem F5Router.Solid.stored {r : F5Router} (h : r.Solid) :
    ∀ u x, r.r.lookup u = some x ∨ r.wildcards.lookup u = some x → x ≠ none := by
  rintro u x (hx | hx)
  · exact (h.exact u x hx).2
  · exact (h.wildcard u x hx).2

theorem F5Router.Solid.createPolicies_isSome {r : F5Router} (h : r.Solid) (o : Order) :
    (r.createPolicies o).isSome = true := by
  obtain ⟨s, hs⟩ := Option.isSome_iff_exists.mp (h.sections_isSome o)
  obtain ⟨resources, hres, -⟩ := Option.map_eq_some_iff.mp hs
  obtain ⟨policies, hpol, -⟩ := Option.bind_eq_some_iff.mp hres
  rw [hpol]
  rfl

theorem refuses_of_not_accepts {r : F5Router} (h : r.processRouteAdd codec ru = some r')
    (hacc : ¬ r.Accepts codec ru) : r.Refuses codec ru := by
  cases hverify : verifyRouteURI ru with
  | error err => exact .uri err hverify
  | ok u =>
    cases hcreate : ru.createResources r.c with
    | error err => exact .resources err hverify hcreate
    | ok rs =>
      obtain ⟨-, hno⟩ | ⟨rs', -, hcreate', ⟨err, hassign⟩ | ⟨r₁, vs, rule, hassign, -, -⟩⟩ :=
        processRouteAdd_cases h
      · exact (hno.elim (fun hv => hv hverify) fun hc => hc rs hcreate).elim
      · exact .address rs' _ err hverify hcreate' hassign
      · exact (hacc ⟨hverify, rs', r₁, vs, hcreate', hassign⟩).elim

theorem handle_solid_of_parses {r : F5Router} (hn : r.Named) (h : r.Solid)
    (hparse : Parses codec r e) (hstep : r.handle codec e.item = some r') : r'.Solid := by
  refine handle_rules hn h ?_ hstep
  intro ru res hi hop hacc hrule
  cases res with
  | ok rule => exact Option.some_ne_none rule
  | error err =>
    have hurl := (makeRouteRule_error_iff ru).mp ⟨err, hrule⟩
    have hsome := hparse ru hi hop hacc
    rw [hurl] at hsome
    cases hsome

theorem traceless_of_parses {r : F5Router} (hn : r.Named)
    (hl : Ledger codec r.tier2VSInfo r.internalDataGroup) (h : r.Solid)
    (hparse : Parses codec r e) : Traceless codec r e := by
  refine ⟨fun r' hr' => ?_, fun r' hr' => ?_, fun r' hr' ru err hi hop hrule => ?_⟩
  · exact (handle_solid_of_parses hn h hparse hr').stored
  · exact (handle_solid_of_parses hn h hparse hr').createPolicies_isSome
  · have hacc : ¬ r.Accepts codec ru := by
      intro hacc
      have hsome := hparse ru hi hop hacc
      rw [(makeRouteRule_error_iff ru).mp ⟨err, hrule⟩] at hsome
      cases hsome
    simp only [hi, F5Router.handle, hop] at hr'
    obtain ⟨p, hp⟩ := processRouteAdd_refused hl (refuses_of_not_accepts hr' hacc)
    rw [hp] at hr'
    cases hr'
    exact ⟨rfl, rfl, ⟨rfl, rfl⟩, rfl⟩

theorem addRule_nil {r : F5Router} (hrule : makeRouteRule ru = some (.error err))
    (hadd : r.addRule ru = some r') :
    r'.r.lookup ru.uri = some none ∨ r'.wildcards.lookup ru.uri = some none := by
  rw [F5Router.addRule, hrule] at hadd
  cases hadd
  simp only [F5Router.changeRules]
  split
  · exact .inr (AList.lookup_insert _)
  · exact .inl (AList.lookup_insert _)

theorem parses_of_traceless {r : F5Router} (h : Traceless codec r e) : Parses codec r e := by
  intro ru hi hop hacc
  by_contra hnone
  obtain ⟨err, hrule⟩ := (makeRouteRule_error_iff ru).mpr (Option.not_isSome_iff_eq_none.mp hnone)
  obtain ⟨hverify, rs, r₁, vs, hcreate, hassign⟩ := hacc
  have hadd : ∃ r', r.processRouteAdd codec ru = some r' ∧
      ∃ r₂ : F5Router, r₂.addRule ru = some r' := by
    simp only [F5Router.processRouteAdd, hverify, hcreate, hassign, F5Router.addRule, hrule]
    exact ⟨_, rfl, _, rfl⟩
  obtain ⟨r', hr', r₂, hr₂⟩ := hadd
  have hstored := h.stored r' (by simpa only [hi, F5Router.handle, hop] using hr') ru.uri none
  exact hstored (addRule_nil hrule hr₂) rfl

theorem boot_solid (hboot : boot codec c plans dg = some r) : r.Solid := by
  obtain ⟨r₀, used, records, hf, -, -, rfl⟩ := boot_state hboot
  exact ⟨by simp [hf.rules.1], by simp [hf.rules.2]⟩

/-- Throughout a run no update leaves a trace of a rule that cannot be made if
and only if the URL of every Add that is carried out parses. -/
theorem traceless_iff (hboot : boot codec c plans dg = some r₀) (es : List Event) :
    Throughout (F5Router.step codec) (Traceless codec) r₀ es ↔
      Throughout (F5Router.step codec) (Parses codec) r₀ es := by
  obtain ⟨hn, hl⟩ := boot_ledger hboot
  refine throughout_iff (J := fun r => r.Named ∧
    Ledger codec r.tier2VSInfo r.internalDataGroup ∧ r.Solid)
    ?_ ?_ ⟨hn, hl, boot_solid hboot⟩ es
  · rintro r e ⟨hn, hl, hs⟩
    exact ⟨parses_of_traceless, traceless_of_parses hn hl hs⟩
  · rintro r r' e ⟨hn, hl, hs⟩ htr hstep
    obtain ⟨hn', hl'⟩ := step_ledger hn hl hstep
    obtain ⟨r₁, dg, t, done, hr₁, rfl⟩ := step_spec hstep
    exact ⟨hn', hl', (handle_solid_of_parses hn hs (parses_of_traceless htr) hr₁).same ⟨rfl, rfl⟩⟩

namespace Sample

/-- The host of the URL has an incomplete escape. -/
def malformed : UpdateHTTP := wild "*.%".toList "cf-%".toList (by decide)

def malformedTwice : UpdateHTTP := wild "*.*.%".toList "cf-*.%".toList (by decide)

end Sample

theorem traceless_iff_sample :
    Sample.malformedTwice.url = none ∧
    ∃ r₀ ∈ boot jsonCodec Sample.config ∅ none,
      Throughout (F5Router.step jsonCodec) (Traceless jsonCodec) r₀
        [Sample.event Sample.addA 1, Sample.event (.http Sample.malformedTwice) 0] := by
  have hboot : (boot jsonCodec Sample.config ∅ none).isSome = true := by decide +kernel
  obtain ⟨r₀, hboot⟩ := Option.isSome_iff_exists.mp hboot
  refine ⟨by decide +kernel, r₀, hboot,
    (traceless_iff hboot _).mpr ⟨?_, fun r _ => ⟨?_, fun _ _ => trivial⟩⟩⟩
  · rintro ru ⟨⟩ - -
    decide +kernel
  · rintro ru ⟨⟩ - ⟨hverify, -⟩
    cases hverify

/-- The Add of a URL that does not parse leaves its pool and virtual server with
a nil rule, and the next configuration cannot be written. -/
theorem nil_rule_stored :
    (∃ err, makeRouteRule Sample.malformed = some (.error err)) ∧
      ∃ r₀ ∈ boot jsonCodec Sample.config ∅ none,
        ∃ r ∈ r₀.handle jsonCodec (.http Sample.malformed),
        r.wildcards.lookup "*.%".toList = some none ∧
        (r.poolResources.lookup "cf-%".toList).isSome = true ∧
        (r.virtualResources.lookup "cf-%".toList).isSome = true ∧
        r.createPolicies Order.stored = none ∧
        ¬ Traceless jsonCodec r₀ (Sample.event (.http Sample.malformed) 0) := by
  have hrun : Sample.malformed.url = none ∧
      ∃ r₀ ∈ boot jsonCodec Sample.config ∅ none,
        ∃ r ∈ r₀.handle jsonCodec (.http Sample.malformed),
        r.wildcards.lookup "*.%".toList = some none ∧
        (r.poolResources.lookup "cf-%".toList).isSome = true ∧
        (r.virtualResources.lookup "cf-%".toList).isSome = true ∧
        r.createPolicies Order.stored = none := by
    decide +kernel
  obtain ⟨hurl, r₀, hboot, r, hr, hnil, hpool, hvirtual, hpolicies⟩ := hrun
  refine ⟨(makeRouteRule_error_iff _).mpr hurl, r₀, hboot, r, hr, hnil, hpool, hvirtual,
    hpolicies, fun h => ?_⟩
  exact h.stored r hr _ none (.inr hnil) rfl

end BigipCtlr
