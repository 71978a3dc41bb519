import BigipCtlr.F5Router.Steps
import BigipCtlr.F5Router.Tier2Laws

/-!
# The ledger of tier-2 addresses

The records of the internal data group and the lists of used and reaped
addresses, through every operation that touches them.
-/

namespace BigipCtlr

open Go Lib

/-- An address whose host is a textual IP, as all that are written are. -/
def VirtualAddress.Valid (va : VirtualAddress) : Prop := (parseIP va.bindAddr).isSome

def recordAddress (codec : Codec) (dg : GoMap Str InternalDataGroupRecord) (n : Str) :
    Option VirtualAddress :=
  match dg.lookup n with
  | some record =>
    match codec.decode record.data with
    | .address va => some va
    | _ => none
  | none => none

theorem recordAddress_eq_some :
    recordAddress codec dg n = some va ↔
      ∃ record, dg.lookup n = some record ∧ codec.decode record.data = .address va := by
  simp only [recordAddress]
  cases dg.lookup n with
  | none => simp
  | some record => cases h : codec.decode record.data <;> simp [h]

theorem recordAddress_insert (hva : va.Valid) (m : Str) :
    recordAddress codec (dg.insert n ⟨n, codec.encode va⟩) m =
      if m = n then some va else recordAddress codec dg m := by
  simp only [recordAddress]
  split_ifs with hm
  · rw [hm, AList.lookup_insert]
    simp only [codec.decode_encode va hva]
  · rw [AList.lookup_insert_ne hm]

/-- Every record is kept under its name, and every address on the books is
valid. -/
structure Ledger (codec : Codec) (t : Tier2VSInfo)
    (dg : GoMap Str InternalDataGroupRecord) : Prop where
  holder : t.holderIP.length = 16
  reaped : ∀ x ∈ t.reapedPorts, ∃ va, x = some va ∧ va.Valid
  used : ∀ k va, t.usedPorts.lookup k = some va → k = va.string ∧ va.Valid
  record : ∀ n record, dg.lookup n = some record → record.name = n ∧
    ∃ va, codec.decode record.data = .address va ∧ va.Valid

theorem Position.address_valid {p : Position} (h : p.1.length = 16) : p.address.Valid := by
  rw [VirtualAddress.Valid, Position.address, parseIP_toString h]
  rfl

namespace Ledger

theorem insertRecord (h : Ledger codec t dg) (hva : va.Valid) :
    Ledger codec t (dg.insert n ⟨n, codec.encode va⟩) := by
  refine ⟨h.holder, h.reaped, h.used, fun m record hm => ?_⟩
  rw [GoMap.lookup_insert_ite] at hm
  split at hm
  · next he =>
    cases hm
    exact ⟨he.symm, va, codec.decode_encode va hva, hva⟩
  · exact h.record m record hm

theorem recordAddress_isSome (h : Ledger codec t dg) (hn : n ∈ dg) :
    ∃ va, recordAddress codec dg n = some va ∧ va.Valid := by
  obtain ⟨record, hr⟩ := Option.isSome_iff_exists.mp (AList.lookup_isSome.mpr hn)
  obtain ⟨-, va, hdec, hva⟩ := h.record n record hr
  exact ⟨va, recordAddress_eq_some.mpr ⟨record, hr, hdec⟩, hva⟩

theorem recordAddress_valid (h : Ledger codec t dg) (hn : recordAddress codec dg n = some va) :
    va.Valid := by
  obtain ⟨record, hr, hdec⟩ := recordAddress_eq_some.mp hn
  obtain ⟨-, va', hdec', hva⟩ := h.record n record hr
  rw [hdec] at hdec'
  cases hdec'
  exact hva

theorem getAvailableVirtualAddress (h : Ledger codec t dg)
    (hget : t.getAvailableVirtualAddress = some (t', res)) :
    Ledger codec t' dg ∧ ∀ x, res = .ok x → ∃ va, x = some va ∧ va.Valid := by
  obtain ⟨va, rest, rest', hr, hperm, rfl, rfl⟩ | ⟨q, -, hq, -, rfl, rfl⟩ | ⟨q, -, hq, rfl, rfl⟩ :=
    Tier2VSInfo.getAvailableVirtualAddress_cases hget
  · refine ⟨⟨h.holder, fun x hx => ?_, h.used, h.record⟩, ?_⟩
    · exact h.reaped x (hr ▸ List.mem_cons_of_mem _ (hperm.mem_iff.mp hx))
    · rintro x ⟨⟩
      exact h.reaped _ (hr ▸ List.mem_cons_self)
  · have hlen : q.1.length = 16 := hq.length.trans h.holder
    refine ⟨⟨hlen, h.reaped, fun k va hk => ?_, h.record⟩, ?_⟩
    · simp only [GoMap.lookup_insert_ite] at hk
      split at hk
      · next he =>
        cases hk
        exact ⟨he, Position.address_valid hlen⟩
      · exact h.used k va hk
    · rintro x ⟨⟩
      exact ⟨_, rfl, Position.address_valid hlen⟩
  · exact ⟨⟨hq.length.trans h.holder, h.reaped, h.used, h.record⟩, nofun⟩

end Ledger

/-- What `reap` does to a ledger in order: the name's record goes and its
address is reaped. -/
theorem reap_spec {r : F5Router} (h : Ledger codec r.tier2VSInfo r.internalDataGroup) (n : Str) :
    (∀ m, (r.reap codec n).internalDataGroup.lookup m =
        if m = n then none else r.internalDataGroup.lookup m) ∧
      (r.reap codec n).tier2VSInfo = { r.tier2VSInfo with
        usedPorts := r.tier2VSInfo.usedPorts.erase n
        reapedPorts := r.tier2VSInfo.reapedPorts ++
          ((recordAddress codec r.internalDataGroup n).map some).toList } := by
  simp only [F5Router.reap, recordAddress, InternalDataGroupRecord.tier2VirtualAddress]
  cases hr : r.internalDataGroup.lookup n with
  | none =>
    refine ⟨fun m => ?_, by simp⟩
    by_cases hm : m = n
    · rw [if_pos hm, hm]
      exact hr
    · rw [if_neg hm]
  | some record =>
    obtain ⟨-, va, hdec, -⟩ := h.record n record hr
    exact ⟨fun m => GoMap.lookup_erase_ite _ _ _, by simp [hdec]⟩

theorem Ledger.reap {r : F5Router} (h : Ledger codec r.tier2VSInfo r.internalDataGroup) (n : Str) :
    Ledger codec (r.reap codec n).tier2VSInfo (r.reap codec n).internalDataGroup := by
  obtain ⟨hdg, ht⟩ := reap_spec h n
  rw [ht]
  refine ⟨h.holder, fun x hx => ?_, fun k va hk => ?_, fun m record hm => ?_⟩
  · rcases List.mem_append.mp hx with hx | hx
    · exact h.reaped x hx
    · obtain ⟨va, hva, rfl⟩ := Option.map_eq_some_iff.mp (Option.mem_toList.mp hx)
      exact ⟨va, rfl, h.recordAddress_valid hva⟩
  · simp only [GoMap.lookup_erase_ite] at hk
    split at hk
    · cases hk
    · exact h.used k va hk
  · rw [hdg] at hm
    split at hm
    · cases hm
    · exact h.record m record hm

-- ---------------------------------------------------------------------------
-- The first drain
-- ---------------------------------------------------------------------------

theorem keepRecord_eq (h : Ledger codec t dg)
    (kept : GoMap Str InternalDataGroupRecord × GoMap Str VirtualAddress) (n : Str) :
    keepRecord codec dg kept n = some
      (match dg.lookup n, recordAddress codec dg n with
      | some record, some va => (kept.1.insert n record, kept.2.insert va.string va)
      | _, _ => kept) := by
  simp only [keepRecord, recordAddress, InternalDataGroupRecord.tier2VirtualAddress]
  cases hr : dg.lookup n with
  | none => rfl
  | some record =>
    obtain ⟨-, va, hdec, -⟩ := h.record n record hr
    simp [hdec]

/-- The first loop of `truncateInternalDataGroup` keeps the records of the
names it visits and marks their addresses. -/
theorem keepRecords (h : Ledger codec t dg) (names : List Str)
    (kept : GoMap Str InternalDataGroupRecord × GoMap Str VirtualAddress) :
    ∃ kept', names.foldlM (keepRecord codec dg) kept = some kept' ∧
      (∀ n, kept'.1.lookup n = if n ∈ names ∧ n ∈ dg then dg.lookup n else kept.1.lookup n) ∧
      (∀ k va, kept'.2.lookup k = some va →
        (∃ n ∈ names, recordAddress codec dg n = some va ∧ k = va.string) ∨
          kept.2.lookup k = some va) ∧
      (∀ n ∈ names, ∀ va, recordAddress codec dg n = some va → va.string ∈ kept'.2) ∧
      ∀ k ∈ kept.2, k ∈ kept'.2 := by
  induction names generalizing kept with
  | nil => exact ⟨kept, rfl, by simp, fun k va hk => .inr hk, by simp, fun k hk => hk⟩
  | cons n names ih =>
    by_cases hn : n ∈ dg
    · obtain ⟨record, hr⟩ := Option.isSome_iff_exists.mp (AList.lookup_isSome.mpr hn)
      obtain ⟨va, hva, -⟩ := h.recordAddress_isSome hn
      have hstep : keepRecord codec dg kept n =
          some (kept.1.insert n record, kept.2.insert va.string va) := by
        rw [keepRecord_eq h, hr, hva]
      obtain ⟨kept', hfold, hdg, hused, hmark, hkeep⟩ :=
        ih (kept.1.insert n record, kept.2.insert va.string va)
      refine ⟨kept', ?_, fun m => ?_, fun k w hk => ?_, fun m hm w hw => ?_, fun k hk => ?_⟩
      · rw [List.foldlM_cons, hstep]
        exact hfold
      · rw [hdg, GoMap.lookup_insert_ite]
        by_cases hmn : m = n
        · subst hmn
          simp [hn, hr]
        · simp [hmn]
      · rcases hused k w hk with ⟨m, hm, hw, rfl⟩ | hk
        · exact .inl ⟨m, List.mem_cons_of_mem _ hm, hw, rfl⟩
        · simp only [GoMap.lookup_insert_ite] at hk
          split at hk
          · next he =>
            cases hk
            exact .inl ⟨n, List.mem_cons_self, hva, he⟩
          · exact .inr hk
      · rcases List.mem_cons.mp hm with rfl | hm
        · rw [hva] at hw
          cases hw
          exact hkeep _ (AList.mem_insert _ |>.mpr (.inl rfl))
        · exact hmark m hm w hw
      · exact hkeep k (AList.mem_insert _ |>.mpr (.inr hk))
    · have hnone : dg.lookup n = none := AList.lookup_eq_none.mpr hn
      have hstep : keepRecord codec dg kept n = some kept := by
        rw [keepRecord_eq h, hnone]
      obtain ⟨kept', hfold, hdg, hused, hmark, hkeep⟩ := ih kept
      refine ⟨kept', ?_, fun m => ?_, fun k w hk => ?_, fun m hm w hw => ?_, hkeep⟩
      · rw [List.foldlM_cons, hstep]
        exact hfold
      · rw [hdg]
        by_cases hmn : m = n
        · subst hmn
          simp [hn]
        · simp [hmn]
      · exact (hused k w hk).imp_left fun ⟨m, hm, hw⟩ => ⟨m, List.mem_cons_of_mem _ hm, hw⟩
      · rcases List.mem_cons.mp hm with rfl | hm
        · simp [recordAddress, hnone] at hw
        · exact hmark m hm w hw

theorem GoMap.mem_range_keys [DecidableEq K] {m : GoMap K V} {o : Order} {k : K} :
    k ∈ (m.range o).map Prod.fst ↔ k ∈ m := by
  rw [← AList.lookup_isSome, Option.isSome_iff_exists, List.mem_map]
  constructor
  · rintro ⟨⟨k', v⟩, h, rfl⟩
    exact ⟨v, GoMap.mem_range.mp h⟩
  · rintro ⟨v, h⟩
    exact ⟨(k, v), GoMap.mem_range.mpr h, rfl⟩

/-- The second loop reaps each used address that is not marked again, once. -/
theorem unusedPorts_spec (o : Order) (hused : ∀ k va, old.lookup k = some va → k = va.string) :
    (unusedPorts o old new).Nodup ∧
      ∀ va, va ∈ unusedPorts o old new ↔ va.string ∈ old ∧ va.string ∉ new := by
  constructor
  · have hkeys : (unusedPorts o old new).map VirtualAddress.string =
        ((old.range o).filter fun e => e.1 ∉ new).map Prod.fst := by
      rw [unusedPorts, List.map_map]
      refine List.map_congr_left fun e he => ?_
      exact (hused e.1 e.2 (GoMap.mem_range.mp (List.mem_of_mem_filter he))).symm
    refine List.Nodup.of_map VirtualAddress.string ?_
    rw [hkeys]
    exact (old.range_keys_nodup o).sublist ((List.filter_sublist).map _)
  · intro va
    simp only [unusedPorts, List.mem_map, List.mem_filter, decide_eq_true_eq]
    constructor
    · rintro ⟨⟨k, va⟩, ⟨he, hnew⟩, rfl⟩
      have hk := GoMap.mem_range.mp he
      obtain rfl : k = va.string := hused k va hk
      exact ⟨AList.lookup_isSome.mp (by rw [hk]; rfl), hnew⟩
    · rintro ⟨hold, hnew⟩
      obtain ⟨va', hva'⟩ := Option.isSome_iff_exists.mp (AList.lookup_isSome.mpr hold)
      obtain rfl := VirtualAddress.string_injective (hused _ _ hva')
      exact ⟨_, ⟨GoMap.mem_range.mpr hva', hnew⟩, rfl⟩

/-- What `truncateInternalDataGroup` does: the records of the virtual servers
that exist stay, their addresses are the used ones, the others are reaped. -/
theorem truncateInternalDataGroup_spec {r : F5Router}
    (h : Ledger codec r.tier2VSInfo r.internalDataGroup) (o : Order) :
    ∃ (dg : GoMap Str InternalDataGroupRecord) (used : GoMap Str VirtualAddress)
        (drop : List VirtualAddress),
      r.truncateInternalDataGroup codec o = some { r with
        internalDataGroup := dg
        tier2VSInfo := { r.tier2VSInfo with
          usedPorts := used
          reapedPorts := r.tier2VSInfo.reapedPorts ++ drop.map some } } ∧
      (∀ n, dg.lookup n = if n ∈ r.virtualResources then r.internalDataGroup.lookup n else none) ∧
      (∀ va, va.string ∈ used ↔ ∃ n, recordAddress codec dg n = some va) ∧
      (∀ k va, used.lookup k = some va → k = va.string) ∧
      drop.Nodup ∧
      ∀ va, va ∈ drop ↔ va.string ∈ r.tier2VSInfo.usedPorts ∧ va.string ∉ used := by
  obtain ⟨⟨dg, used⟩, hfold, hdg, hused, hmark, -⟩ :=
    keepRecords h ((r.virtualResources.range o).map Prod.fst) (∅, ∅)
  simp only [GoMap.mem_range_keys, AList.lookup_empty] at hdg hused hmark
  have hdg' : ∀ n, dg.lookup n = if n ∈ r.virtualResources then r.internalDataGroup.lookup n
      else none := by
    intro n
    rw [hdg]
    by_cases hv : n ∈ r.virtualResources <;> by_cases hn : n ∈ r.internalDataGroup <;>
      simp [hv, hn, AList.lookup_eq_none.mpr]
  have hrec : ∀ n va, recordAddress codec dg n = some va ↔
      n ∈ r.virtualResources ∧ recordAddress codec r.internalDataGroup n = some va := by
    intro n va
    simp only [recordAddress_eq_some, hdg']
    by_cases hv : n ∈ r.virtualResources <;> simp [hv]
  obtain ⟨hnodup, hdrop⟩ := @unusedPorts_spec r.tier2VSInfo.usedPorts used o fun k va hk =>
    (h.used k va hk).1
  refine ⟨dg, used, unusedPorts o r.tier2VSInfo.usedPorts used, ?_, hdg', ?_, ?_, hnodup, hdrop⟩
  · simp only [F5Router.truncateInternalDataGroup, hfold, bind, Option.bind_some]
  · intro va
    simp only [hrec]
    constructor
    · intro hin
      obtain ⟨va', hva'⟩ := Option.isSome_iff_exists.mp (AList.lookup_isSome.mpr hin)
      obtain ⟨n, hn, hw, hk⟩ | hk := hused _ _ hva'
      · exact ⟨n, hn, VirtualAddress.string_injective hk ▸ hw⟩
      · cases hk
    · rintro ⟨n, hn, hw⟩
      exact hmark n hn va hw
  · intro k va hk
    obtain ⟨n, -, -, hk⟩ | hk := hused k va hk
    · exact hk
    · cases hk

theorem Ledger.truncate {r r' : F5Router} (h : Ledger codec r.tier2VSInfo r.internalDataGroup)
    (hr : r.truncateInternalDataGroup codec o = some r') :
    Ledger codec r'.tier2VSInfo r'.internalDataGroup := by
  obtain ⟨dg, used, drop, htrunc, hdg, hused, hkey, -, hdrop⟩ := truncateInternalDataGroup_spec h o
  rw [htrunc] at hr
  cases hr
  have hrec : ∀ n record, dg.lookup n = some record →
      r.internalDataGroup.lookup n = some record := by
    intro n record hn
    rw [hdg] at hn
    split at hn
    · exact hn
    · cases hn
  refine ⟨h.holder, fun x hx => ?_, fun k va hk => ?_,
    fun n record hn => h.record n record (hrec n record hn)⟩
  · rcases List.mem_append.mp hx with hx | hx
    · exact h.reaped x hx
    · obtain ⟨va, hva, rfl⟩ := List.mem_map.mp hx
      obtain ⟨va', hva'⟩ :=
        Option.isSome_iff_exists.mp (AList.lookup_isSome.mpr ((hdrop va).mp hva).1)
      obtain ⟨hs, hv⟩ := h.used _ _ hva'
      exact ⟨va, rfl, VirtualAddress.string_injective hs ▸ hv⟩
  · obtain rfl := hkey k va hk
    refine ⟨rfl, ?_⟩
    obtain ⟨n, hn⟩ := (hused va).mp (AList.lookup_isSome.mp (by rw [hk]; rfl))
    obtain ⟨record, hn, hdec⟩ := recordAddress_eq_some.mp hn
    exact h.recordAddress_valid (recordAddress_eq_some.mpr ⟨record, hrec n record hn, hdec⟩)

-- ---------------------------------------------------------------------------
-- Handling an item
-- ---------------------------------------------------------------------------

theorem assignVSPort_ledger {r : F5Router} (h : Ledger codec r.tier2VSInfo r.internalDataGroup)
    (hassign : r.assignVSPort codec vs = some (r₁, res)) :
    Ledger codec r₁.tier2VSInfo r₁.internalDataGroup := by
  obtain ⟨v, -, rfl, -⟩ | ⟨-, ⟨record, -, rfl, -⟩ |
    ⟨-, ⟨t, va, hget, rfl, -⟩ | ⟨t, err, hget, rfl, -⟩⟩⟩ :=
    assignVSPort_cases hassign
  · exact h
  · exact h
  · obtain ⟨hl, hok⟩ := h.getAvailableVirtualAddress hget
    obtain ⟨va', hva', hvalid⟩ := hok _ rfl
    cases hva'
    exact hl.insertRecord hvalid
  · exact (h.getAvailableVirtualAddress hget).1

theorem F5Router.SameBooks.ledger {r r' : F5Router} (hb : r.SameBooks r')
    (h : Ledger codec r.tier2VSInfo r.internalDataGroup) :
    Ledger codec r'.tier2VSInfo r'.internalDataGroup := by
  rw [hb.tier2VSInfo, hb.internalDataGroup]
  exact h

theorem handle_ledger {r : F5Router} (hn : r.Named)
    (h : Ledger codec r.tier2VSInfo r.internalDataGroup) (hstep : r.handle codec item = some r') :
    Ledger codec r'.tier2VSInfo r'.internalDataGroup := by
  obtain ⟨-, hbooks⟩ | ⟨ru, vs, r₁, res, -, -, hassign, hbooks, -⟩ |
    ⟨ru, r₁, -, -, rfl, hbooks, -⟩ :=
    handle_cases hn hstep
  · exact hbooks.ledger h
  · exact hbooks.ledger (assignVSPort_ledger h hassign)
  · exact (hbooks.ledger h).reap ru.name

end BigipCtlr
