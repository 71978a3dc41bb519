import BigipCtlr.F5Router.Start
import Mathlib.Algebra.Ring.Nat
import Mathlib.Data.Finset.Card

/-!
# The search for a tier-2 address

The cursor counts up an address of 16 bytes, so its way through a network is
a finite one and the loop of `getAvailableVirtualAddress` ends. What it hands
out lies in the range. It passes over the first port of every address but the
one it starts at, and so it gives up with these still free.
-/

namespace BigipCtlr

open Go Lib

-- ---------------------------------------------------------------------------
-- Addresses as numbers
-- ---------------------------------------------------------------------------

def littleEndian : List UInt8 → Nat
  | [] => 0
  | b :: bs => b.toNat + 256 * littleEndian bs

theorem littleEndian_lt (bs : List UInt8) : littleEndian bs < 256 ^ bs.length := by
  induction bs with
  | nil => decide
  | cons b bs ih =>
    have hb := b.toNat_lt
    simp only [littleEndian, List.length_cons, Nat.pow_succ]
    omega

theorem littleEndian_injective (hlen : as.length = bs.length)
    (h : littleEndian as = littleEndian bs) : as = bs := by
  induction as generalizing bs with
  | nil => exact (List.length_eq_zero_iff.mp hlen.symm).symm
  | cons a as ih =>
    match bs with
    | [] => cases hlen
    | b :: bs =>
      have ha := a.toNat_lt
      have hb := b.toNat_lt
      simp only [littleEndian] at h
      rw [ih (Nat.succ.inj hlen) (by omega), UInt8.toNat_inj.mp (by omega : a.toNat = b.toNat)]

theorem littleEndian_carry (bs : List UInt8) :
    littleEndian (carry bs) = (littleEndian bs + 1) % 256 ^ bs.length := by
  induction bs with
  | nil => rfl
  | cons b bs ih =>
    have hb := b.toNat_lt
    have hlt := littleEndian_lt bs
    have hsucc : (b + 1).toNat = (b.toNat + 1) % 256 := by
      rw [UInt8.toNat_add]
      rfl
    simp only [carry, List.length_cons, Nat.pow_succ]
    split
    · next hpos =>
      have hne : (b + 1).toNat ≠ 0 := by
        have : 0 < (b + 1).toNat := hpos
        omega
      simp only [littleEndian, hsucc]
      rw [Nat.mod_eq_of_lt, Nat.mod_eq_of_lt] <;> omega
    · next hpos =>
      have hzero : (b + 1).toNat = 0 := by
        have : ¬ 0 < (b + 1).toNat := hpos
        omega
      have hmax : b.toNat = 255 := by omega
      simp only [littleEndian, hzero, ih, hmax]
      rw [show 255 + 256 * littleEndian bs + 1 = 256 * (littleEndian bs + 1) by omega,
        Nat.mul_comm (256 ^ _) 256, Nat.mul_mod_mul_left]
      omega

def ipValue (ip : IP) : Nat := littleEndian ip.reverse

theorem ipValue_lt (ip : IP) : ipValue ip < 256 ^ ip.length := by
  simpa [ipValue] using littleEndian_lt ip.reverse

theorem ipValue_injective (hlen : ip.length = ip'.length) (h : ipValue ip = ipValue ip') :
    ip = ip' :=
  List.reverse_injective (littleEndian_injective (by simpa using hlen) h)

theorem ipValue_nextIP (ip : IP) : ipValue (nextIP ip) = (ipValue ip + 1) % 256 ^ ip.length := by
  simp [ipValue, nextIP, littleEndian_carry]

theorem length_iterate_nextIP (k : Nat) (ip : IP) : (nextIP^[k] ip).length = ip.length := by
  induction k with
  | zero => rfl
  | succ k ih => rw [Function.iterate_succ_apply', length_nextIP, ih]

theorem ipValue_iterate (k : Nat) (ip : IP) :
    ipValue (nextIP^[k] ip) = (ipValue ip + k) % 256 ^ ip.length := by
  induction k with
  | zero => exact (Nat.mod_eq_of_lt (ipValue_lt ip)).symm
  | succ k ih =>
    rw [Function.iterate_succ_apply', ipValue_nextIP, length_iterate_nextIP, ih,
      Nat.mod_add_mod, Nat.add_assoc]

theorem exists_iterate_nextIP (hlen : ip.length = a.length) :
    ∃ k, 1 ≤ k ∧ k ≤ 256 ^ ip.length ∧ nextIP^[k] ip = a := by
  have hv := ipValue_lt ip
  have ha := ipValue_lt a
  rw [← hlen] at ha
  have hreach : ∀ k, (ipValue ip + k) % 256 ^ ip.length = ipValue a →
      nextIP^[k] ip = a := fun k hk =>
    ipValue_injective (by rw [length_iterate_nextIP, hlen]) (by rw [ipValue_iterate, hk])
  by_cases hlt : ipValue ip < ipValue a
  · refine ⟨ipValue a - ipValue ip, by omega, by omega, hreach _ ?_⟩
    rw [Nat.add_sub_cancel' (by omega), Nat.mod_eq_of_lt ha]
  · refine ⟨256 ^ ip.length - (ipValue ip - ipValue a), by omega, by omega, hreach _ ?_⟩
    rw [show ipValue ip + (256 ^ ip.length - (ipValue ip - ipValue a)) =
      ipValue a + 256 ^ ip.length by omega,
      Nat.add_mod_right, Nat.mod_eq_of_lt ha]

theorem contains_length {net : IPNet} (h : net.contains ip = true) :
    (ip.to4.getD ip).length = net.networkNumberAndMask.1.length := by
  simp only [IPNet.contains, Bool.and_eq_true, beq_iff_eq] at h
  exact h.1

/-- No network has all addresses: those of IPv4 are in none of IPv6. -/
theorem exists_leaves (net : IPNet) (hlen : ip.length = 16) :
    ∃ k, 1 ≤ k ∧ k ≤ 256 ^ 16 ∧ net.contains (nextIP^[k] ip) = false := by
  have hout : net.contains (ipv4 0 0 0 0) = false ∨ net.contains (List.replicate 16 0) = false := by
    by_contra hin
    simp only [not_or, Bool.not_eq_false] at hin
    have h4 := contains_length hin.1
    have h6 := contains_length hin.2
    rw [← h6] at h4
    exact absurd h4 (by decide)
  have hleaves : ∀ a : IP, a.length = 16 → net.contains a = false →
      ∃ k, 1 ≤ k ∧ k ≤ 256 ^ 16 ∧ net.contains (nextIP^[k] ip) = false := by
    intro a ha hnot
    obtain ⟨k, h1, hk, hka⟩ := exists_iterate_nextIP (hlen.trans ha.symm)
    exact ⟨k, h1, hlen ▸ hk, hka ▸ hnot⟩
  rcases hout with hout | hout
  · exact hleaves _ rfl hout
  · exact hleaves _ rfl hout

-- ---------------------------------------------------------------------------
-- The loop ends
-- ---------------------------------------------------------------------------

def InPorts (port : Int32) : Prop := 10000 ≤ port.toInt ∧ port.toInt ≤ 65535

instance : Decidable (InPorts port) := inferInstanceAs (Decidable (_ ∧ _))

theorem port_succ {p : Int32} (h : InPorts p) (hne : p ≠ 65535) : (p + 1).toInt = p.toInt + 1 := by
  have hlt : p.toInt ≠ 65535 := fun he => hne (Int32.toInt_inj.mp he)
  obtain ⟨h1, h2⟩ := h
  rw [Int32.toInt_add, show (1 : Int32).toInt = 1 from rfl]
  simp [Int.bmod]
  omega

theorem Tier2VSInfo.search_returns {t : Tier2VSInfo} (hport : InPorts t.holderPort) (hk : 1 ≤ k)
    (hleaves : t.ipNet.contains (nextIP^[k] t.holderIP) = false)
    (hfuel : (65535 - t.holderPort.toInt).toNat + (k - 1) * 55536 < n) :
    (t.search n).isSome = true := by
  induction n generalizing t k with
  | zero => omega
  | succ n ih =>
    rw [search_succ]
    split
    · next hlast =>
      split
      · next hc =>
        have hk1 : k ≠ 1 := by
          rintro rfl
          rw [Function.iterate_one, hc] at hleaves
          cases hleaves
        obtain ⟨j, rfl⟩ : ∃ j, k = j + 1 := ⟨k - 1, by omega⟩
        refine ih (t := t.moved (nextIP t.holderIP, 10000)) (k := j) (by decide : InPorts 10000)
          (by omega) ?_ ?_
        · exact hleaves
        · rw [hlast] at hfuel
          change (65535 - (10000 : Int32).toInt).toNat + (j - 1) * 55536 < n
          rw [show (10000 : Int32).toInt = 10000 from rfl]
          rw [show (65535 : Int32).toInt = 65535 from rfl] at hfuel
          omega
      · rfl
    · next hlast =>
      have hsucc := port_succ hport hlast
      have hne : t.holderPort.toInt ≠ 65535 := fun he => hlast (Int32.toInt_inj.mp he)
      obtain ⟨hlo, hhi⟩ := hport
      simp only
      split
      · refine ih (t := t.moved (t.holderIP, t.holderPort + 1)) (k := k) ?_ hk hleaves ?_
        · change 10000 ≤ (t.holderPort + 1).toInt ∧ (t.holderPort + 1).toInt ≤ 65535
          omega
        · change (65535 - (t.holderPort + 1).toInt).toNat + (k - 1) * 55536 < n
          omega
      · rfl

theorem Tier2VSInfo.getAvailableVirtualAddress_returns {t : Tier2VSInfo}
    (hlen : t.holderIP.length = 16) (hport : InPorts t.holderPort) :
    ∃ t' res, t.getAvailableVirtualAddress = some (t', res) := by
  obtain ⟨k, hk, hle, hleaves⟩ := exists_leaves t.ipNet hlen
  have hsearch : (t.search t.fuel).isSome = true := by
    refine search_returns hport hk hleaves ?_
    obtain ⟨hlo, hhi⟩ := hport
    have hfuel : t.fuel = 256 ^ 16 * 65536 + 1 := by rw [fuel, hlen, Nat.pow_eq]
    rw [hfuel]
    generalize 256 ^ 16 = m at hle ⊢
    omega
  obtain ⟨found, hfound⟩ := Option.isSome_iff_exists.mp hsearch
  simp only [getAvailableVirtualAddress, hfound]
  split
  · exact ⟨_, _, rfl⟩
  · split
    · next hnone =>
      split at hnone <;> cases hnone
    · exact ⟨_, _, rfl⟩
    · exact ⟨_, _, rfl⟩

theorem port_succ_inPorts {p : Int32} (h : InPorts p) (hne : p ≠ 65535) : InPorts (p + 1) := by
  have hlt : p.toInt ≠ 65535 := fun he => hne (Int32.toInt_inj.mp he)
  have hsucc := port_succ h hne
  obtain ⟨hlo, hhi⟩ := h
  exact ⟨by omega, by omega⟩

-- ---------------------------------------------------------------------------
-- The cursor stays in the range and goes up
-- ---------------------------------------------------------------------------

theorem Position.next_cases {p : Position} (h : p.next net = some q) :
    (p.2 = 65535 ∧ net.contains (nextIP p.1) = true ∧ q = (nextIP p.1, 10001)) ∨
      (p.2 ≠ 65535 ∧ q = (p.1, p.2 + 1)) := by
  simp only [Position.next] at h
  split at h
  · next hlast =>
    split at h
    · next hc =>
      cases h
      exact .inl ⟨hlast, hc, rfl⟩
    · cases h
  · next hlast =>
    cases h
    exact .inr ⟨hlast, rfl⟩

theorem Position.Reaches.inPorts {p q : Position} (h : p.Reaches net q) (hp : InPorts p.2) :
    InPorts q.2 := by
  induction h with
  | refl => exact hp
  | tail _ hstep ih =>
    obtain ⟨-, -, rfl⟩ | ⟨hlast, rfl⟩ := Position.next_cases hstep
    · exact (by decide : InPorts 10001)
    · exact port_succ_inPorts ih hlast

structure Position.In (net : IPNet) (p : Position) : Prop where
  length : p.1.length = 16
  contains : net.contains p.1 = true
  port : InPorts p.2

theorem Position.In.reaches {p : Position} (h : p.In net) (hq : p.Reaches net q) : q.In net := by
  refine ⟨hq.length.trans h.length, ?_, hq.inPorts h.port⟩
  induction hq with
  | refl => exact h.contains
  | tail _ hstep ih =>
    obtain ⟨-, hc, rfl⟩ | ⟨-, rfl⟩ := Position.next_cases hstep
    · exact hc
    · exact ih

theorem Tier2VSInfo.gives_up_of_used {t : Tier2VSInfo} (hin : t.position.In t.ipNet)
    (hreaped : t.reapedPorts = [])
    (hused : ∀ q : Position, q.In t.ipNet → q.address.string ∈ t.usedPorts) :
    ∃ t', t.getAvailableVirtualAddress = some (t', .error outOfAddresses) := by
  obtain ⟨t', res, hget⟩ := Tier2VSInfo.getAvailableVirtualAddress_returns hin.length hin.port
  obtain ⟨va, rest, rest', hcons, -⟩ | ⟨q, -, hreach, hfree, -⟩ | ⟨q, -, -, -, rfl⟩ :=
    Tier2VSInfo.getAvailableVirtualAddress_cases hget
  · rw [hreaped] at hcons
    cases hcons
  · exact absurd (hused q (hin.reaches hreach)) hfree
  · exact ⟨t', hget⟩

def Position.Le (p q : Position) : Prop :=
  ipValue p.1 < ipValue q.1 ∨ (p.1 = q.1 ∧ p.2.toInt ≤ q.2.toInt)

theorem Position.Le.trans {p q r : Position} (h : p.Le q) (h' : q.Le r) : p.Le r := by
  obtain h | ⟨he, h⟩ := h <;> obtain h' | ⟨he', h'⟩ := h'
  · exact .inl (h.trans h')
  · exact .inl (he' ▸ h)
  · exact .inl (he ▸ h')
  · exact .inr ⟨he.trans he', h.trans h'⟩

theorem eq_replicate_of_zipWith_and (h : List.zipWith (· &&& ·) (List.replicate n 255) m =
    List.zipWith (· &&& ·) (List.replicate n (0 : UInt8)) m) (hm : m.length = n) :
    m = List.replicate n 0 := by
  induction n generalizing m with
  | zero => exact List.length_eq_zero_iff.mp hm
  | succ n ih =>
    match m with
    | [] => cases hm
    | b :: m =>
      simp only [List.replicate_succ, List.zipWith_cons_cons, List.cons.injEq] at h ⊢
      refine ⟨?_, ih h.2 (Nat.succ.inj hm)⟩
      have hb : 255 &&& b = b := UInt8.toBitVec_inj.mp BitVec.allOnes_and
      rw [← hb, h.1, UInt8.zero_and]

/-- The network with the first and the last of all addresses has no mask. -/
theorem mask_eq_zero {net : IPNet} (hlast : net.contains (List.replicate 16 255) = true)
    (hfirst : net.contains (List.replicate 16 0) = true) : net.mask = List.replicate 16 0 := by
  have hlen := contains_length hfirst
  simp only [IPNet.contains, Bool.and_eq_true, beq_iff_eq] at hlast hfirst
  have hmask : net.networkNumberAndMask.2 = net.mask ∧ net.mask.length = 16 := by
    rw [show (IP.to4 (List.replicate 16 0)).getD (List.replicate 16 0) =
      List.replicate 16 0 by decide] at hlen
    simp only [IPNet.networkNumberAndMask] at hlen ⊢
    grind
  have hsame := hlast.2.symm.trans hfirst.2
  rw [hmask.1] at hsame
  exact eq_replicate_of_zipWith_and hsame hmask.2

theorem ipValue_nextIP_of_contains {net : IPNet} (hnet : net.mask ≠ List.replicate 16 0)
    (hlen : ip.length = 16) (h : net.contains ip = true) (h' : net.contains (nextIP ip) = true) :
    ipValue (nextIP ip) = ipValue ip + 1 := by
  rw [ipValue_nextIP, hlen]
  refine Nat.mod_eq_of_lt ?_
  have hlt := ipValue_lt ip
  rw [hlen] at hlt
  by_contra hwrap
  have hip : ip = List.replicate 16 255 := by
    refine ipValue_injective hlen ?_
    rw [show ipValue (List.replicate 16 255) = 256 ^ 16 - 1 by decide]
    omega
  rw [hip] at h h'
  rw [show nextIP (List.replicate 16 255) = List.replicate 16 0 by decide] at h'
  exact hnet (mask_eq_zero h h')

theorem Position.In.le_next {p : Position} (hnet : net.mask ≠ List.replicate 16 0) (h : p.In net)
    (hq : p.next net = some q) : p.Le q := by
  obtain ⟨-, hc, rfl⟩ | ⟨hlast, rfl⟩ := Position.next_cases hq
  · refine .inl ?_
    rw [ipValue_nextIP_of_contains hnet h.length h.contains hc]
    exact Nat.lt_succ_self _
  · refine .inr ⟨rfl, ?_⟩
    rw [port_succ h.port hlast]
    omega

theorem Position.In.le_reaches {p : Position} (hnet : net.mask ≠ List.replicate 16 0) (h : p.In net)
    (hq : p.Reaches net q) : p.Le q := by
  induction hq with
  | refl => exact .inr ⟨rfl, Int.le_refl _⟩
  | tail hreach hstep ih => exact ih.trans ((h.reaches hreach).le_next hnet hstep)

def Tier2VSInfo.initial (i : IP) (net : IPNet) : Tier2VSInfo := ⟨∅, [], 10000, i, net⟩

/-- The search ends. It hands out one address of the range that was not used,
or fails and leaves the books alone; the cursor stays in the range and does
not go back. -/
theorem search_sound {t : Tier2VSInfo} (hnet : t.ipNet.mask ≠ List.replicate 16 0)
    (hcursor : t.position.In t.ipNet) (hreaped : t.reapedPorts = []) :
    ∃ t' res, t.getAvailableVirtualAddress = some (t', res) ∧
      t.position.Le t'.position ∧ t'.position.In t.ipNet ∧ t'.ipNet = t.ipNet ∧
      t'.reapedPorts = [] ∧
      ((∃ va ip, res = .ok (some va) ∧ parseIP va.bindAddr = some ip ∧ t.ipNet.contains ip = true ∧
          InPorts va.port ∧ va.string ∉ t.usedPorts ∧
          t'.usedPorts = t.usedPorts.insert va.string va) ∨
        (res = .error outOfAddresses ∧ t'.usedPorts = t.usedPorts)) := by
  obtain ⟨t', res, hget⟩ :=
    Tier2VSInfo.getAvailableVirtualAddress_returns hcursor.length hcursor.port
  refine ⟨t', res, hget, ?_⟩
  obtain ⟨va, rest, rest', hr, -⟩ | ⟨q, -, hreach, hu, rfl, rfl⟩ | ⟨q, -, hreach, rfl, rfl⟩ :=
    Tier2VSInfo.getAvailableVirtualAddress_cases hget
  · rw [hreaped] at hr
    cases hr
  · have hq := hcursor.reaches hreach
    refine ⟨hcursor.le_reaches hnet hreach, hq, rfl, hreaped, .inl ⟨q.address, q.1, rfl, ?_⟩⟩
    exact ⟨parseIP_toString hq.length, hq.contains, hq.port, hu, rfl⟩
  · exact ⟨hcursor.le_reaches hnet hreach, hcursor.reaches hreach, rfl, hreaped, .inr ⟨rfl, rfl⟩⟩

def Sample.subnet (m : UInt8) : IPNet := ⟨[172, 0, 0, 0], [255, 255, 255, m]⟩

def Sample.lastPorts : Tier2VSInfo :=
  { usedPorts := (((∅ : GoMap Str VirtualAddress).insert
      "172.0.0.0:65534".toList ⟨"172.0.0.0".toList, 65534⟩).insert
      "172.0.0.0:65535".toList ⟨"172.0.0.0".toList, 65535⟩).insert
      "172.0.0.1:10001".toList ⟨"172.0.0.1".toList, 10001⟩
    reapedPorts := []
    holderPort := 65534
    holderIP := ipv4 172 0 0 0
    ipNet := Sample.subnet 0 }

theorem search_sound_rolls_over :
    ∃ t', Sample.lastPorts.getAvailableVirtualAddress =
        some (t', .ok (some ⟨"172.0.0.1".toList, 10002⟩)) ∧
      Sample.lastPorts.position.Le t'.position ∧ t'.position.In (Sample.subnet 0) ∧
      "172.0.0.1:10002".toList ∉ Sample.lastPorts.usedPorts ∧
      t'.usedPorts = Sample.lastPorts.usedPorts.insert "172.0.0.1:10002".toList
        ⟨"172.0.0.1".toList, 10002⟩ := by
  obtain ⟨t', res, hget, hle, hin, -, -, hres⟩ := search_sound (t := Sample.lastPorts)
    (by decide) ⟨by decide, by decide, (by decide : InPorts 65534)⟩ rfl
  have hfound : Sample.lastPorts.getAvailableVirtualAddress.map (·.2.toOption) =
      some (some (some ⟨"172.0.0.1".toList, 10002⟩)) := by decide +kernel
  rw [hget] at hfound
  obtain ⟨va, ip, rfl, -, -, -, hunused, hused⟩ | ⟨rfl, -⟩ := hres
  · cases hfound
    exact ⟨t', hget, hle, hin, hunused, hused⟩
  · cases hfound

-- ---------------------------------------------------------------------------
-- Giving up
-- ---------------------------------------------------------------------------

theorem Position.reaches_port {ip : IP} {a b : Int32} (ha : InPorts a) (hb : InPorts b)
    (h : a.toInt ≤ b.toInt) :
    Position.Reaches net (ip, a) (ip, b) := by
  obtain ⟨n, hn⟩ : ∃ n : Nat, b.toInt = a.toInt + n := ⟨(b.toInt - a.toInt).toNat, by omega⟩
  induction n generalizing a with
  | zero =>
    rw [Int32.toInt_inj.mp (by omega : a.toInt = b.toInt)]
  | succ n ih =>
    have hlast : a ≠ 65535 := by
      rintro rfl
      have hmax : (65535 : Int32).toInt = 65535 := rfl
      have := hb.2
      omega
    have hsucc := port_succ ha hlast
    have hnext : Position.next net (ip, a) = some (ip, a + 1) := by
      simp [Position.next, hlast]
    exact (ih (port_succ_inPorts ha hlast) (by omega) (by omega)).head hnext

theorem Position.exists_end (net : IPNet) (hlen : ip.length = 16) (hport : InPorts port) :
    ∃ q, Position.Reaches net (ip, port) q ∧ q.next net = none := by
  obtain ⟨k, hk, -, hleaves⟩ := exists_leaves net hlen
  clear hlen
  induction k generalizing ip port with
  | zero => omega
  | succ k ih =>
    have hlast : Position.Reaches net (ip, port) (ip, 65535) :=
      reaches_port hport (by decide) hport.2
    by_cases hc : net.contains (nextIP ip) = true
    · have hk : k ≠ 0 := by
        rintro rfl
        rw [Function.iterate_one, hc] at hleaves
        cases hleaves
      obtain ⟨q, hq, hend⟩ := @ih 10001 (nextIP ip) (by decide) (by omega) hleaves
      have hnext : Position.next net (ip, 65535) = some (nextIP ip, 10001) := by
        simp [Position.next, hc]
      exact ⟨q, (hlast.tail hnext).trans hq, hend⟩
    · exact ⟨(ip, 65535), hlast, by simp [Position.next, hc]⟩

def Tier2VSInfo.allocate (t : Tier2VSInfo) (_ : Unit) : Option Tier2VSInfo :=
  t.getAvailableVirtualAddress.map Prod.fst

/-- What calls alone can make of the books: nothing is reaped, the cursor has
left no address that is not used, and used is only what it has come to. -/
structure Tier2VSInfo.Walked (net : IPNet) (start : Position) (t : Tier2VSInfo) : Prop where
  ipNet : t.ipNet = net
  reaped : t.reapedPorts = []
  walk : t.Walks start t.position
  used : ∀ k ∈ t.usedPorts, ∃ p, start.Reaches net p ∧ k = p.address.string

namespace Tier2VSInfo.Walked

variable {t : Tier2VSInfo} {start p : Position}

theorem initial (i : IP) (net : IPNet) : (Tier2VSInfo.initial i net).Walked net (i, 10000) :=
  ⟨rfl, rfl, .refl, fun k hk => absurd hk (AList.notMem_empty k)⟩

theorem reaches (h : t.Walked net start) : start.Reaches net t.position :=
  h.ipNet ▸ h.walk.reaches

theorem step (h : t.Walked net start) (hstep : t.allocate u = some t') : t'.Walked net start := by
  obtain ⟨⟨_, res⟩, hget, rfl⟩ := Option.map_eq_some_iff.mp hstep
  obtain ⟨va, rest, rest', hr, -⟩ | ⟨q, -, hwalk, -, rfl, -⟩ | ⟨q, -, hwalk, -, -, rfl, -⟩ :=
    getAvailableVirtualAddress_walks hget
  · rw [h.reaped] at hr
    cases hr
  · have hq : t.Walks start q := h.walk.trans hwalk
    refine ⟨h.ipNet, h.reaped, hq.mono fun va hva => ?_, fun k hk => ?_⟩
    · exact (AList.mem_insert _).mpr (.inr hva)
    · obtain rfl | hk := (AList.mem_insert _).mp hk
      · exact ⟨q, h.ipNet ▸ hq.reaches, rfl⟩
      · exact h.used k hk
  · exact ⟨h.ipNet, h.reaped, h.walk.trans hwalk, h.used⟩

theorem run (h : t.Walked net start) (hrun : Lib.run allocate t us = some t') :
    t'.Walked net start :=
  run_invariant_mem (I := fun t => t.Walked net start)
    (fun _ _ _ _ hw hstep => hw.step hstep) h hrun

theorem exhausted (h : t.Walked net start)
    (hget : t.getAvailableVirtualAddress = some (t', .error err)) (hp : start.Reaches net p) :
    p.address.string ∈ t.usedPorts := by
  obtain ⟨va, rest, rest', -, -, -, hres⟩ | ⟨q, -, -, -, -, hres⟩ | ⟨q, -, hwalk, hq, hend, -⟩ :=
    getAvailableVirtualAddress_walks hget
  · cases hres
  · cases hres
  · have hwalks : t.Walks start q := h.walk.trans hwalk
    have hused : p.address ∈ { va | va.string ∈ t.usedPorts } :=
      hwalks.exhausts hend hq (h.ipNet ▸ hp)
    exact hused

theorem exists_exhausted (h : t.Walked net start) (hlen : start.1.length = 16)
    (hport : InPorts start.2) :
    ∃ us t₁ t₂, Lib.run allocate t us = some t₁ ∧
      t₁.getAvailableVirtualAddress = some (t₂, .error outOfAddresses) := by
  obtain ⟨last, hlast, hend⟩ := Position.exists_end net hlen hport
  obtain ⟨ps, hps⟩ := exists_positions hlast hend
  -- every call that hands out an address leaves fewer positions unused
  induction hn : (ps.toFinset.filter fun p => p.address.string ∉ t.usedPorts).card
    using Nat.strong_induction_on generalizing t with
  | _ n ih =>
    have hreach := h.reaches
    obtain ⟨t', res, hget⟩ :=
      t.getAvailableVirtualAddress_returns (hreach.length.trans hlen) (hreach.inPorts hport)
    have hstep : t.allocate () = some t' := by simp [allocate, hget]
    have hwalked := h.step hstep
    obtain ⟨va, rest, rest', hr, -⟩ | ⟨q, -, hwalk, hu, rfl, -⟩ | ⟨q, -, -, -, -, -, rfl⟩ :=
      getAvailableVirtualAddress_walks hget
    · rw [h.reaped] at hr
      cases hr
    · have hq : q ∈ ps := hps q (hreach.trans (h.ipNet ▸ hwalk.reaches))
      have hless : (ps.toFinset.filter fun p =>
          p.address.string ∉ t.usedPorts.insert q.address.string q.address).card < n := by
        rw [← hn]
        refine Finset.card_lt_card (Finset.ssubset_iff_of_subset ?_ |>.mpr ⟨q, ?_, ?_⟩)
        · intro p hp
          simp only [Finset.mem_filter, AList.mem_insert, not_or] at hp ⊢
          exact ⟨hp.1, hp.2.2⟩
        · simpa [hq] using hu
        · simp
      obtain ⟨us, t₁, t₂, hrun, herr⟩ := ih _ hless hwalked rfl
      exact ⟨() :: us, t₁, t₂, run_cons_eq_some.mpr ⟨_, hstep, hrun⟩, herr⟩
    · exact ⟨[], t, t', rfl, hget⟩

end Tier2VSInfo.Walked

/-- The cursor comes to the first port of no address but the one it starts at. -/
theorem Position.Reaches.first_port {p : Position} (h : Position.Reaches net (i, 10000) p)
    (hp : p.2 = 10000) :
    p = (i, 10000) := by
  obtain rfl | ⟨q, hq, hstep⟩ := h.cases_tail
  · rfl
  · have hport : InPorts q.2 := Position.Reaches.inPorts hq (by decide : InPorts 10000)
    obtain ⟨-, -, rfl⟩ | ⟨hlast, rfl⟩ := Position.next_cases hstep
    · exact absurd hp (by decide : ¬ (10001 : Int32) = 10000)
    · have hsucc := port_succ hport hlast
      have hlo := hport.1
      rw [show q.2 + 1 = 10000 from hp, show (10000 : Int32).toInt = 10000 from rfl] at hsucc
      omega

theorem exists_skipped (hlen : i.length = 16) (net : IPNet) :
    ∃ us t t', run Tier2VSInfo.allocate (.initial i net) us = some t ∧
      t.getAvailableVirtualAddress = some (t', .error outOfAddresses) ∧
      ∀ ip : IP, ip.length = 16 → ip ≠ i → (Position.address (ip, 10000)).string ∉ t.usedPorts := by
  have hwalked := Tier2VSInfo.Walked.initial i net
  obtain ⟨us, t, t', hrun, herr⟩ := hwalked.exists_exhausted hlen (by decide : InPorts 10000)
  refine ⟨us, t, t', hrun, herr, fun ip hip hne hused => ?_⟩
  obtain ⟨p, hp, he⟩ := (hwalked.run hrun).used _ hused
  have haddr := VirtualAddress.string_injective he
  simp only [Position.address, VirtualAddress.mk.injEq] at haddr
  have hfirst := hp.first_port haddr.2.symm
  rw [hfirst] at haddr
  exact hne (toString_injective hip hlen haddr.1)

def Tier2VSInfo.UsedUp (t : Tier2VSInfo) : Prop :=
  ∀ (ip : IP) (port : Int32), ip.length = 16 → t.ipNet.contains ip = true → InPorts port →
    (Position.address (ip, port)).string ∈ t.usedPorts

/-- The allocator gives up only when the range is used up, just for the ranges
of one address. -/
theorem gives_up_used_up_iff (hrange : validateTier2Range s = .ok (i, net)) :
    (∀ us t t', run Tier2VSInfo.allocate (.initial i net) us = some t →
        t.getAvailableVirtualAddress = some (t', .error outOfAddresses) → t.UsedUp) ↔
      ∀ ip : IP, ip.length = 16 → net.contains ip = true → ip = i := by
  have hlen := validateTier2Range_length hrange
  have hwalked := Tier2VSInfo.Walked.initial i net
  constructor
  · intro h ip hip hc
    obtain ⟨us, t, t', hrun, herr, hskip⟩ := exists_skipped hlen net
    by_contra hne
    refine hskip ip hip hne (h us t t' hrun herr ip 10000 hip ?_ (by decide))
    rw [(hwalked.run hrun).ipNet]
    exact hc
  · intro h us t t' hrun herr ip port hip hc hport
    have ht := hwalked.run hrun
    rw [ht.ipNet] at hc
    rw [h ip hip hc]
    exact ht.exhausted herr (Position.reaches_port (by decide) hport hport.1)

theorem zipWith_and_ones (h : xs.length = n) :
    List.zipWith (· &&& ·) xs (List.replicate n (255 : UInt8)) = xs := by
  induction n generalizing xs with
  | zero => simp [List.length_eq_zero_iff.mp h]
  | succ n ih =>
    match xs with
    | [] => cases h
    | b :: xs =>
      have hb : b &&& 255 = b := UInt8.toBitVec_inj.mp BitVec.and_allOnes
      simp only [List.replicate_succ, List.zipWith_cons_cons, hb, ih (Nat.succ.inj h)]

theorem eq_of_contains_single (hlen : ip.length = 16)
    (h : IPNet.contains ⟨[a, b, c, d], [255, 255, 255, 255]⟩ ip = true) : ip = ipv4 a b c d := by
  simp only [IPNet.contains, Bool.and_eq_true, beq_iff_eq] at h
  by_cases h4 : ip.take 12 = v4InV6Prefix
  · have hnet : IPNet.networkNumberAndMask ⟨[a, b, c, d], [255, 255, 255, 255]⟩ =
        ([a, b, c, d], List.replicate 4 255) := rfl
    rw [to4_eq_some hlen h4, Option.getD_some, hnet] at h
    have hones : List.zipWith (· &&& ·) [a, b, c, d] (List.replicate 4 255) = [a, b, c, d] :=
      zipWith_and_ones rfl
    simp only [hones, zipWith_and_ones (n := 4) h.1] at h
    rw [← List.take_append_drop 12 ip, h4, ← h.2, ipv4]
  · rw [to4_eq_none hlen h4, Option.getD_none, hlen] at h
    exact absurd h.1 (by decide : ¬ 16 = 4)

theorem gives_up_used_up_single :
    validateTier2Range "172.0.0.0/32".toList = .ok (ipv4 172 0 0 0, Sample.subnet 255) ∧
      ∀ us t t', run Tier2VSInfo.allocate (.initial (ipv4 172 0 0 0) (Sample.subnet 255)) us =
        some t →
        t.getAvailableVirtualAddress = some (t', .error outOfAddresses) → t.UsedUp := by
  have hrange : validateTier2Range "172.0.0.0/32".toList =
      .ok (ipv4 172 0 0 0, Sample.subnet 255) := by
    decide +kernel
  exact ⟨hrange, (gives_up_used_up_iff hrange).mpr fun ip hlen hc => eq_of_contains_single hlen hc⟩

/-- Of two addresses, the second one's first port is free when the allocator
gives up. -/
theorem gives_up_early :
    ∃ i net us t t', validateTier2Range "172.0.0.0/31".toList = .ok (i, net) ∧
      run Tier2VSInfo.allocate (.initial i net) us = some t ∧
      t.getAvailableVirtualAddress = some (t', .error outOfAddresses) ∧
      net.contains (ipv4 172 0 0 1) = true ∧
      (⟨"172.0.0.1".toList, 10000⟩ : VirtualAddress).string ∉ t.usedPorts := by
  obtain ⟨us, t, t', hrun, herr, hskip⟩ :=
    exists_skipped (i := ipv4 172 0 0 0) rfl (Sample.subnet 254)
  exact ⟨_, _, us, t, t', by decide +kernel, hrun, herr, by decide,
    hskip (ipv4 172 0 0 1) rfl (by decide)⟩

end BigipCtlr
