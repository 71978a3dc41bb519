import BigipCtlr.F5Router.Tier2
import BigipCtlr.Lib.Allocator

/-!
# Laws of tier-2 addresses

Destinations are injective in the address they render, and an address that is
handed out comes from `reapedPorts` or from a position the cursor reaches.
-/

namespace BigipCtlr

open Go Lib

-- ---------------------------------------------------------------------------
-- Destinations
-- ---------------------------------------------------------------------------

theorem splitN2_pair (h : splitN2 s d = [x, y]) : s = x ++ d :: y := by
  simp only [splitN2] at h
  split at h
  · cases h
  · next e after hd =>
    have he : e = d := by
      have := List.head?_dropWhile_not (· ≠ d) s
      rw [hd] at this
      simpa using this
    simp only [List.cons.injEq, and_true] at h
    obtain ⟨rfl, rfl⟩ := h
    have := List.takeWhile_append_dropWhile (p := (· ≠ d)) (l := s)
    rw [hd, he] at this
    exact this.symm

theorem splitIPWithRouteDomain_join (h : splitIPWithRouteDomain address = x) :
    x.1 ++ (if 0 < x.2.length then '%' :: x.2 else x.2) = address := by
  simp only [splitIPWithRouteDomain] at h
  split at h
  · next hs =>
    split at h
    · next hrd =>
      rw [← h, if_pos (List.length_pos_iff.mpr hrd.1), ← splitN2_pair hs]
    · simp [← h]
  · simp [← h]

theorem verifyDestAddress_parses (h : verifyDestAddress va p = .ok dest) :
    (parseIP va.bindAddr).isSome := by
  simp only [verifyDestAddress] at h
  split at h
  · next ha => rw [ha]; rfl
  · cases h

theorem verifyDestAddress_eq (h : parseIP va.bindAddr = some addr) (p : Str) :
    verifyDestAddress va p = .ok (('/' :: p ++ '/' :: va.bindAddr) ++
      (if addr.to4.isSome then ':' else '.') :: itoa va.port.toInt) := by
  simp only [verifyDestAddress, h]
  generalize hx : splitIPWithRouteDomain va.bindAddr = x
  rw [← splitIPWithRouteDomain_join hx]
  simp only [List.cons_append, List.append_assoc]

theorem verifyDestAddress_ok (h : verifyDestAddress va p = .ok dest) :
    ∃ sep, isDecimal sep = false ∧ dest = ('/' :: p ++ '/' :: va.bindAddr) ++ sep ::
      itoa va.port.toInt := by
  obtain ⟨addr, ha⟩ := Option.isSome_iff_exists.mp (verifyDestAddress_parses h)
  rw [verifyDestAddress_eq ha] at h
  cases h
  exact ⟨_, by split <;> rfl, rfl⟩

theorem verifyDestAddress_injective (h : verifyDestAddress va p = .ok dest)
    (h' : verifyDestAddress va' p = .ok dest) : va = va' := by
  obtain ⟨sep, hsep, rfl⟩ := verifyDestAddress_ok h
  obtain ⟨sep', hsep', he⟩ := verifyDestAddress_ok h'
  obtain ⟨haddr, -, hport⟩ := append_sep_itoa_inj hsep hsep' he
  cases va
  cases va'
  simp_all [Int32.toInt_inj]

theorem verifyDestAddress_isOk (h : (parseIP va.bindAddr).isSome) (p : Str) :
    ∃ dest, verifyDestAddress va p = .ok dest := by
  obtain ⟨addr, ha⟩ := Option.isSome_iff_exists.mp h
  exact ⟨_, verifyDestAddress_eq ha p⟩

theorem VirtualAddress.string_injective {va va' : VirtualAddress} (h : va.string = va'.string) :
    va = va' := by
  obtain ⟨haddr, -, hport⟩ := append_sep_itoa_inj (by rfl) (by rfl) h
  cases va
  cases va'
  simp_all [Int32.toInt_inj]

-- ---------------------------------------------------------------------------
-- The cursor
-- ---------------------------------------------------------------------------

abbrev Position := IP × Int32

def Position.address (p : Position) : VirtualAddress := ⟨IP.toString p.1, p.2⟩

/-- The position the loop looks at after `p`: the first port of a further
address is passed over. -/
def Position.next (ipNet : IPNet) (p : Position) : Option Position :=
  if p.2 = 65535 then
    if ipNet.contains (nextIP p.1) then some (nextIP p.1, 10001) else none
  else some (p.1, p.2 + 1)

abbrev Position.Reaches (ipNet : IPNet) : Position → Position → Prop :=
  Relation.ReflTransGen fun p q => p.next ipNet = some q

def Tier2VSInfo.position (t : Tier2VSInfo) : Position := (t.holderIP, t.holderPort)

def Tier2VSInfo.moved (t : Tier2VSInfo) (p : Position) : Tier2VSInfo :=
  { t with holderIP := p.1, holderPort := p.2 }

@[simp] theorem Tier2VSInfo.position_moved (t : Tier2VSInfo) : (t.moved p).position = p := rfl
@[simp] theorem Tier2VSInfo.usedPorts_moved (t : Tier2VSInfo) :
    (t.moved p).usedPorts = t.usedPorts := rfl
@[simp] theorem Tier2VSInfo.reapedPorts_moved (t : Tier2VSInfo) :
    (t.moved p).reapedPorts = t.reapedPorts := rfl
@[simp] theorem Tier2VSInfo.ipNet_moved (t : Tier2VSInfo) : (t.moved p).ipNet = t.ipNet := rfl
@[simp] theorem Tier2VSInfo.holderIP_moved (t : Tier2VSInfo) : (t.moved p).holderIP = p.1 := rfl
@[simp] theorem Tier2VSInfo.moved_moved (t : Tier2VSInfo) : (t.moved p).moved q = t.moved q := rfl
theorem Tier2VSInfo.moved_position (t : Tier2VSInfo) : t.moved t.position = t := rfl

theorem length_carry (bs : List UInt8) : (carry bs).length = bs.length := by
  induction bs with
  | nil => rfl
  | cons b bs ih =>
    simp only [carry]
    split <;> simp [ih]

theorem length_nextIP (ip : IP) : (nextIP ip).length = ip.length := by
  simp [nextIP, length_carry]

theorem Position.Reaches.length {p q : Position} (h : p.Reaches ipNet q) :
    q.1.length = p.1.length := by
  induction h with
  | refl => rfl
  | tail _ hstep ih =>
    rw [← ih]
    simp only [Position.next] at hstep
    split at hstep
    · split at hstep
      · cases hstep
        exact length_nextIP _
      · cases hstep
    · cases hstep
      rfl

theorem Tier2VSInfo.incrementHolderIP_eq (t : Tier2VSInfo) :
    t.incrementHolderIP = if t.ipNet.contains (nextIP t.holderIP) = true
      then .ok { t with holderIP := nextIP t.holderIP } else .error outOfAddresses := rfl

/-- One round of the loop, by the position it goes to. The round that changes
the address stands one port before the position looked at next. -/
theorem Tier2VSInfo.search_succ (fuel : Nat) (t : Tier2VSInfo) :
    t.search (fuel + 1) =
      if t.holderPort = 65535 then
        if t.ipNet.contains (nextIP t.holderIP) then
          (t.moved (nextIP t.holderIP, 10000)).search fuel
        else some (t, .error outOfAddresses)
      else
        let q : Position := (t.holderIP, t.holderPort + 1)
        if q.address.string ∈ t.usedPorts then (t.moved q).search fuel
        else some (t.moved q, .ok q.address) := by
  by_cases hport : t.holderPort = 65535
  · simp only [search, if_pos hport, incrementHolderIP_eq]
    by_cases hc : t.ipNet.contains (nextIP t.holderIP) = true
    · simp only [if_pos hc]
      rfl
    · simp only [if_neg hc]
  · simp only [search, if_neg hport]
    rfl

abbrev Tier2VSInfo.Walks (t : Tier2VSInfo) : Position → Position → Prop :=
  Lib.Walks Position.address (Position.next t.ipNet) { va | va.string ∈ t.usedPorts }

/-- Where the loop ends: at a position after the one it started from whose
address is not used, or at a last port with no address after it. -/
theorem Tier2VSInfo.search_spec {t : Tier2VSInfo} {n : Nat} (h : t.search n = some (t', res)) :
    ∃ q, t' = t.moved q ∧
      ((res = .ok q.address ∧ q.address.string ∉ t.usedPorts ∧
          ∃ p, t.position.next t.ipNet = some p ∧ t.Walks p q) ∨
        (res = .error outOfAddresses ∧ q.2 = 65535 ∧ q.next t.ipNet = none ∧
          (q = t.position ∨ ∃ p, t.position.next t.ipNet = some p ∧ t.Walks p q ∧
            q.address.string ∈ t.usedPorts))) := by
  induction n generalizing t with
  | zero => cases h
  | succ n ih =>
    rw [search_succ] at h
    split at h
    · next hport =>
      split at h
      · next hc =>
        -- the position after the turn is the one the next round goes to
        have hnext : t.position.next t.ipNet = some (nextIP t.holderIP, 10001) := by
          simp [Position.next, position, hport, hc]
        have hturn : (t.moved (nextIP t.holderIP, 10000)).position.next t.ipNet =
            some (nextIP t.holderIP, 10001) := by
          simp [Position.next]
        obtain ⟨q, rfl, hq⟩ := ih h
        refine ⟨q, rfl, ?_⟩
        simp only [usedPorts_moved, ipNet_moved, position_moved] at hq hturn
        rcases hq with ⟨hres, hu, p, hp, hr⟩ | ⟨hres, hlast, hend, hq⟩
        · rw [hturn] at hp
          exact .inl ⟨hres, hu, p, hnext.trans hp, hr⟩
        · refine .inr ⟨hres, hlast, hend, ?_⟩
          rcases hq with rfl | ⟨p, hp, hr⟩
          · exact absurd hlast (show ¬ (10000 : Int32) = 65535 by decide)
          · rw [hturn] at hp
            exact .inr ⟨p, hnext.trans hp, hr⟩
      · next hc =>
        simp only [Option.some.injEq, Prod.mk.injEq] at h
        obtain ⟨rfl, rfl⟩ := h
        have hend : t.position.next t.ipNet = none := by
          simp [Position.next, position, hport, hc]
        exact ⟨t.position, rfl, .inr ⟨rfl, hport, hend, .inl rfl⟩⟩
    · next hport =>
      have hnext : t.position.next t.ipNet = some (t.holderIP, t.holderPort + 1) := by
        simp [Position.next, position, hport]
      simp only at h
      split at h
      · next hused =>
        obtain ⟨q, rfl, hq⟩ := ih h
        refine ⟨q, rfl, ?_⟩
        simp only [usedPorts_moved, ipNet_moved, position_moved] at hq
        rcases hq with ⟨hres, hu, p, hp, hr⟩ | ⟨hres, hlast, hend, hq⟩
        · exact .inl ⟨hres, hu, _, hnext, hr.head ⟨hp, hused⟩⟩
        · refine .inr ⟨hres, hlast, hend, .inr ⟨_, hnext, ?_⟩⟩
          rcases hq with rfl | ⟨p, hp, hr, hq⟩
          · exact ⟨.refl, hused⟩
          · exact ⟨hr.head ⟨hp, hused⟩, hq⟩
      · next hu =>
        cases h
        exact ⟨_, rfl, .inl ⟨rfl, hu, _, hnext, .refl⟩⟩

theorem swapFirst_perm (rest : List α) : (swapFirst rest).Perm rest := by
  simp only [swapFirst]
  cases h : rest.getLast? with
  | none => simp_all
  | some last =>
    obtain ⟨init, rfl⟩ := List.getLast?_eq_some_iff.mp h
    simp only [List.dropLast_concat]
    exact List.perm_append_singleton last init |>.symm

theorem Tier2VSInfo.getAvailableVirtualAddress_walks {t : Tier2VSInfo}
    (h : t.getAvailableVirtualAddress = some (t', res)) :
    (∃ va rest rest', t.reapedPorts = va :: rest ∧ rest'.Perm rest ∧
        t' = { t with reapedPorts := rest' } ∧ res = .ok va) ∨
      (∃ q, t.reapedPorts = [] ∧ t.Walks t.position q ∧ q.address.string ∉ t.usedPorts ∧
        t' = { t.moved q with usedPorts := t.usedPorts.insert q.address.string q.address } ∧
        res = .ok (some q.address)) ∨
      (∃ q, t.reapedPorts = [] ∧ t.Walks t.position q ∧ q.address.string ∈ t.usedPorts ∧
        q.next t.ipNet = none ∧ t' = t.moved q ∧ res = .error outOfAddresses) := by
  simp only [getAvailableVirtualAddress] at h
  split at h
  · next va rest hr =>
    obtain ⟨rfl, rfl⟩ := Prod.mk.inj (Option.some.inj h)
    exact .inl ⟨va, rest, _, hr, swapFirst_perm rest, rfl, rfl⟩
  · next hr =>
    right
    split at h
    · cases h
    · next t₁ err hfound =>
      obtain ⟨rfl, rfl⟩ := Prod.mk.inj (Option.some.inj h)
      split at hfound
      · next hused =>
        obtain ⟨q, rfl, ⟨hres, -⟩ | ⟨hres, -, hend, hq⟩⟩ := search_spec hfound
        · cases hres
        · cases hres
          right
          rcases hq with rfl | ⟨p, hp, hwalk, hq⟩
          · exact ⟨t.position, hr, .refl, hused, hend, rfl, rfl⟩
          · exact ⟨q, hr, hwalk.head ⟨hp, hused⟩, hq, hend, rfl, rfl⟩
      · cases (Prod.mk.inj (Option.some.inj hfound)).2
    · next t₁ va hfound =>
      obtain ⟨rfl, rfl⟩ := Prod.mk.inj (Option.some.inj h)
      left
      split at hfound
      · next hused =>
        obtain ⟨q, rfl, ⟨hres, hu, p, hp, hwalk⟩ | ⟨hres, -⟩⟩ := search_spec hfound
        · cases hres
          exact ⟨q, hr, hwalk.head ⟨hp, hused⟩, hu, rfl, rfl⟩
        · cases hres
      · next hu =>
        obtain ⟨rfl, hva⟩ := Prod.mk.inj (Option.some.inj hfound)
        cases hva
        exact ⟨t.position, hr, .refl, hu, rfl, rfl⟩

theorem Tier2VSInfo.getAvailableVirtualAddress_cases {t : Tier2VSInfo}
    (h : t.getAvailableVirtualAddress = some (t', res)) :
    (∃ va rest rest', t.reapedPorts = va :: rest ∧ rest'.Perm rest ∧
        t' = { t with reapedPorts := rest' } ∧ res = .ok va) ∨
      (∃ q, t.reapedPorts = [] ∧ t.position.Reaches t.ipNet q ∧ q.address.string ∉ t.usedPorts ∧
        t' = { t.moved q with usedPorts := t.usedPorts.insert q.address.string q.address } ∧
        res = .ok (some q.address)) ∨
      (∃ q, t.reapedPorts = [] ∧ t.position.Reaches t.ipNet q ∧ t' = t.moved q ∧
        res = .error outOfAddresses) := by
  obtain hreap | ⟨q, hr, hwalk, hu, ht, hres⟩ | ⟨q, hr, hwalk, -, -, ht, hres⟩ :=
    getAvailableVirtualAddress_walks h
  · exact .inl hreap
  · exact .inr (.inl ⟨q, hr, hwalk.reaches, hu, ht, hres⟩)
  · exact .inr (.inr ⟨q, hr, hwalk.reaches, ht, hres⟩)

end BigipCtlr
