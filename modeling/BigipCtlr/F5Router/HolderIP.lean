import BigipCtlr.F5Router.Search
import Mathlib.Tactic.Ring

/-!
# Counting up the tier-2 range

`incrementHolderIP` adds one to the bytes of the cursor's address. The
addresses a CIDR mask leaves together are an interval of numbers, so from the
network address the calls go through the whole range, up to its last address.
A range of IPv6 with the IPv4-mapped block in it is no interval: `Contains`
takes the mapped addresses for IPv4.
-/

namespace BigipCtlr

open Go Lib

-- ---------------------------------------------------------------------------
-- Masks as numbers
-- ---------------------------------------------------------------------------

theorem littleEndian_append (xs ys : List UInt8) :
    littleEndian (xs ++ ys) = littleEndian xs + 256 ^ xs.length * littleEndian ys := by
  induction xs with
  | nil => simp [littleEndian]
  | cons x xs ih =>
    simp only [List.cons_append, littleEndian, ih, List.length_cons, Nat.pow_succ]
    ring

theorem ipValue_append (xs ys : IP) :
    ipValue (xs ++ ys) = 256 ^ ys.length * ipValue xs + ipValue ys := by
  simp only [ipValue, List.reverse_append, littleEndian_append, List.length_reverse]
  omega

theorem ipValue_cons (b : UInt8) (bs : IP) :
    ipValue (b :: bs) = 256 ^ bs.length * b.toNat + ipValue bs := by
  rw [← List.singleton_append, ipValue_append]
  rfl

def maskBytes (ones : Nat) : Nat → List UInt8
  | 0 => []
  | len + 1 =>
    (if 8 ≤ ones then 0xff else ~~~ (0xff >>> UInt8.ofNat ones)) :: maskBytes (ones - 8) len

theorem length_maskBytes (ones len : Nat) : (maskBytes ones len).length = len := by
  induction len generalizing ones with
  | zero => rfl
  | succ len ih => rw [maskBytes, List.length_cons, ih]

theorem range_map_maskBytes (ones len : Nat) :
    ((List.range len).map fun i =>
      if 8 * (i + 1) ≤ ones then (0xff : UInt8) else ~~~ (0xff >>> UInt8.ofNat (ones - 8 * i))) =
    maskBytes ones len := by
  induction len generalizing ones with
  | zero => rfl
  | succ len ih =>
    rw [List.range_succ_eq_map, List.map_cons, List.map_map, maskBytes, ← ih]
    refine congrArg₂ _ (by simp) (List.map_congr_left fun i _ => ?_)
    have hle : 8 * (i + 1 + 1) ≤ ones ↔ 8 * (i + 1) ≤ ones - 8 := by omega
    simp only [Function.comp, Nat.succ_eq_add_one, hle,
      show ones - 8 * (i + 1) = ones - 8 - 8 * i by omega]

theorem cidrMask_four (h : ones ≤ 32) : cidrMask ones 32 = maskBytes ones 4 := by
  rw [cidrMask, if_neg (by decide), if_neg (by omega)]
  exact range_map_maskBytes ones 4

theorem cidrMask_sixteen (h : ones ≤ 128) : cidrMask ones 128 = maskBytes ones 16 := by
  rw [cidrMask, if_neg (by decide), if_neg (by omega)]
  exact range_map_maskBytes ones 16

theorem mask_byte (b : UInt8) (h : ones < 8) :
    (b &&& ~~~ (0xff >>> UInt8.ofNat ones)).toNat = b.toNat / 2 ^ (8 - ones) * 2 ^ (8 - ones) := by
  have hall : ∀ (n : Fin 256) (k : Fin 8),
      (UInt8.ofNat n.val &&& ~~~ (0xff >>> UInt8.ofNat k.val)).toNat =
      n.val / 2 ^ (8 - k.val) * 2 ^ (8 - k.val) := by
    decide +kernel
  have := hall ⟨b.toNat, b.toNat_lt⟩ ⟨ones, h⟩
  rwa [UInt8.ofNat_toNat] at this

theorem ipValue_mask (hlen : ip.length = len) (h : ones ≤ 8 * len) :
    ipValue (ip.zipWith (· &&& ·) (maskBytes ones len)) =
      ipValue ip / 2 ^ (8 * len - ones) * 2 ^ (8 * len - ones) := by
  induction len generalizing ip ones with
  | zero =>
    rw [List.length_eq_zero_iff.mp hlen]
    simp [maskBytes, ipValue, littleEndian]
  | succ len ih =>
    obtain ⟨b, bs, rfl⟩ := List.exists_cons_of_length_pos (show 0 < ip.length by omega)
    have hbs : bs.length = len := Nat.succ.inj hlen
    have hpow : 256 ^ len = 2 ^ (8 * len) := by rw [Nat.pow_mul]
    have hrest : (bs.zipWith (· &&& ·) (maskBytes (ones - 8) len)).length = len := by
      simp [hbs, length_maskBytes]
    rw [maskBytes, List.zipWith_cons_cons, ipValue_cons, ipValue_cons, hrest, hbs,
      ih hbs (by omega), hpow]
    by_cases hones : 8 ≤ ones
    · -- the first byte is kept, and what is cleared divides its weight
      have hb : b &&& 255 = b := UInt8.toBitVec_inj.mp BitVec.and_allOnes
      have hsplit : 2 ^ (8 * len) = 2 ^ (8 * len - (ones - 8)) * 2 ^ (ones - 8) := by
        rw [← Nat.pow_add, Nat.sub_add_cancel (by omega)]
      rw [if_pos hones, hb, show 8 * (len + 1) - ones = 8 * len - (ones - 8) by omega, hsplit,
        Nat.mul_assoc, Nat.mul_add_div (Nat.two_pow_pos _), Nat.add_mul]
      ring
    · -- the other bytes are cleared
      have hlt := ipValue_lt bs
      rw [hbs, hpow] at hlt
      have hsplit : 2 ^ (8 * (len + 1) - ones) = 2 ^ (8 * len) * 2 ^ (8 - ones) := by
        rw [← Nat.pow_add, show 8 * (len + 1) - ones = 8 * len + (8 - ones) by omega]
      rw [if_neg hones, mask_byte b (by omega), show ones - 8 = 0 by omega, Nat.sub_zero,
        Nat.div_eq_of_lt hlt, hsplit, ← Nat.div_div_eq_div_mul, Nat.mul_add_div (Nat.two_pow_pos _),
        Nat.div_eq_of_lt hlt]
      simp only [Nat.add_zero, Nat.zero_mul]
      ring

theorem masked_eq_iff (hip : ip.length = len) (ha : a.length = len) (h : ones ≤ 8 * len)
    (hnet : ip.zipWith (· &&& ·) (maskBytes ones len) = ip) :
    ip = a.zipWith (· &&& ·) (maskBytes ones len) ↔
      ipValue ip ≤ ipValue a ∧ ipValue a < ipValue ip + 2 ^ (8 * len - ones) := by
  have hvalue := ipValue_mask hip h
  have hpos := Nat.two_pow_pos (8 * len - ones)
  rw [hnet] at hvalue
  have hval : ip = a.zipWith (· &&& ·) (maskBytes ones len) ↔
      ipValue ip = ipValue a / 2 ^ (8 * len - ones) * 2 ^ (8 * len - ones) := by
    rw [← ipValue_mask ha h]
    exact ⟨congrArg _, ipValue_injective (by simp [hip, ha, length_maskBytes])⟩
  rw [hval, hvalue]
  generalize 2 ^ (8 * len - ones) = p at hpos
  generalize ipValue ip / p = q
  generalize ipValue a = v
  constructor
  · intro hq
    rw [hq]
    have := Nat.div_add_mod' v p
    have := Nat.mod_lt v hpos
    omega
  · rintro ⟨hlo, hhi⟩
    have hdiv : v / p = q := by
      rw [Nat.div_eq_iff hpos]
      omega
    rw [hdiv]

-- ---------------------------------------------------------------------------
-- Accepted ranges
-- ---------------------------------------------------------------------------

theorem dtoi_all (h : dtoi s = some (n, [])) : atoi s = some (n : Int) := by
  simp only [dtoi] at h
  split at h
  · cases h
  · next hds =>
    simp only [Option.some.injEq, Prod.mk.injEq] at h
    obtain ⟨hn, hrest⟩ := h
    have hall := List.dropWhile_eq_nil_iff.mp hrest
    have htake : s.takeWhile Char.isDigit = s := by
      rw [← List.append_nil (s.takeWhile _), ← hrest, List.takeWhile_append_dropWhile]
    rw [htake] at hds hn
    obtain ⟨hne, -⟩ := not_or.mp hds
    have hdigits : s ≠ [] ∧ s.all Char.isDigit = true := ⟨hne, by simpa using hall⟩
    simp only [atoi]
    split
    · next ds => exact absurd (hall '-' List.mem_cons_self) (by decide)
    · next ds => exact absurd (hall '+' List.mem_cons_self) (by decide)
    · rw [if_pos hdigits, hn]
      rfl

/-- What `ParseCIDR` and the mask of `validateTier2Range` agree on. -/
structure Accepted (i : IP) (net : IPNet) (ones iplen : Nat) : Prop where
  ones_le : ones ≤ 8 * iplen
  net_eq : net = ⟨i.mask (cidrMask ones (8 * iplen)), cidrMask ones (8 * iplen)⟩
  iplen_eq : (iplen = 4 ∧ ∃ a b c d, i = ipv4 a b c d) ∨ iplen = 16
  length : i.length = 16
  network : i.equal (i.mask (cidrMask ones (if i.to4.isSome then 32 else 128))) = true

theorem parseIPv4_eq_ipv4 (h : parseIPv4 s = some ip) : ∃ a b c d, ip = ipv4 a b c d := by
  simp only [parseIPv4, bind, Option.bind_eq_some_iff] at h
  obtain ⟨⟨a, s₁⟩, -, ⟨b, s₂⟩, -, ⟨c, s₃⟩, -, ⟨d, s₄⟩, -, h⟩ := h
  split at h
  · cases h
    exact ⟨a, b, c, d, rfl⟩
  · cases h

theorem parseCIDR_ok (h : parseCIDR s = some (i, net)) :
    ∃ addr mask ones iplen, splitN2 s '/' = [addr, mask] ∧ dtoi mask = some (ones, []) ∧
      ones ≤ 8 * iplen ∧
      net = ⟨i.mask (cidrMask ones (8 * iplen)), cidrMask ones (8 * iplen)⟩ ∧
      ((iplen = 4 ∧ ∃ a b c d, i = ipv4 a b c d) ∨ iplen = 16) := by
  simp only [parseCIDR] at h
  split at h
  · next addr mask hsplit =>
    cases h4 : parseIPv4 addr with
    | some ip4 =>
      simp only [h4] at h
      split at h
      · next ones hip hmask =>
        cases hip
        split at h
        · cases h
        · next hle =>
          cases h
          exact ⟨addr, mask, ones, 4, hsplit, hmask, by omega, rfl,
            .inl ⟨rfl, parseIPv4_eq_ipv4 h4⟩⟩
      · cases h
    | none =>
      simp only [h4] at h
      split at h
      · next ones hip hmask =>
        split at h
        · cases h
        · next hle =>
          cases h
          exact ⟨addr, mask, ones, 16, hsplit, hmask, by omega, rfl, .inr rfl⟩
      · cases h
  · cases h

theorem splitN2_of_split (h : split s sep = [x, y]) : splitN2 s sep = [x, y] := by
  have hmem : sep ∈ s := by
    by_contra hnot
    rw [split_of_notMem hnot] at h
    cases h
  obtain ⟨a, b, rfl⟩ := List.append_of_mem hmem
  obtain ⟨ha, -, rfl, rfl⟩ := split_eq_pair.mp h
  exact splitN2_append ha _

theorem validateTier2Range_ok (h : validateTier2Range s = .ok (i, net)) :
    ∃ ones iplen, Accepted i net ones iplen := by
  have hlen := validateTier2Range_length h
  simp only [validateTier2Range] at h
  split at h
  · cases h
  split at h
  · next addr mask hsplit =>
    split at h
    · next o i' net' hatoi hcidr =>
      obtain ⟨_, _, ones, iplen, hN2, hdtoi, hle, hnet, hfamily⟩ := parseCIDR_ok hcidr
      rw [splitN2_of_split hsplit] at hN2
      cases hN2
      obtain rfl : (ones : Int) = o := Option.some.inj ((dtoi_all hdtoi).symm.trans hatoi)
      generalize hbits : (if i'.to4.isSome then 32 else 128) = bits at h
      split at h
      · cases h
      · split at h
        · next hequal =>
          cases h
          exact ⟨ones, iplen, hle, hnet, hfamily, hlen, hbits ▸ hequal⟩
        · cases h
    · cases h
    · cases h
  · cases h

def IncludesMapped (net : IPNet) : Prop := ∀ a b c d, (ipv4 a b c d).mask net.mask = net.ip

theorem mapped_value (hlen : ip.length = 16) :
    ip.take 12 = v4InV6Prefix ↔ ipValue ip / 2 ^ 32 = 0xffff := by
  have hvalue : ipValue ip = 256 ^ 4 * ipValue (ip.take 12) + ipValue (ip.drop 12) := by
    rw [← List.take_append_drop 12 ip, ipValue_append]
    simp [hlen]
  have hlow : ipValue (ip.drop 12) < 256 ^ 4 := by
    simpa [hlen] using ipValue_lt (ip.drop 12)
  have hprefix : ipValue v4InV6Prefix = 0xffff := by decide
  have hdiv : ipValue ip / 2 ^ 32 = ipValue (ip.take 12) := by omega
  rw [hdiv, ← hprefix]
  exact ⟨congrArg _, ipValue_injective (by simp [hlen, v4InV6Prefix])⟩

/-- The addresses of the range are `size` numbers from the network address on,
and they are not all that 16 bytes write. -/
structure Interval (i : IP) (net : IPNet) (size : Nat) : Prop where
  pos : 0 < size
  lt : size < 256 ^ 16
  fits : ipValue i + size ≤ 256 ^ 16
  contains : ∀ a : IP, a.length = 16 →
    (net.contains a = true ↔ ipValue i ≤ ipValue a ∧ ipValue a < ipValue i + size)

theorem masked_fits (hip : ip.length = len) (h : ones ≤ 8 * len)
    (hnet : ip.zipWith (· &&& ·) (maskBytes ones len) = ip) :
    ipValue ip + 2 ^ (8 * len - ones) ≤ 256 ^ len := by
  have hvalue := ipValue_mask hip h
  rw [hnet] at hvalue
  have hlt := ipValue_lt ip
  have hpow : 256 ^ len = 2 ^ ones * 2 ^ (8 * len - ones) := by
    rw [← Nat.pow_add, Nat.add_sub_cancel' h, Nat.pow_mul]
  rw [hip, hpow] at hlt
  rw [hpow, hvalue]
  rw [hvalue] at hlt
  have hq := Nat.lt_of_mul_lt_mul_right hlt
  calc ipValue ip / 2 ^ (8 * len - ones) * 2 ^ (8 * len - ones) + 2 ^ (8 * len - ones)
      = (ipValue ip / 2 ^ (8 * len - ones) + 1) * 2 ^ (8 * len - ones) := by
        rw [Nat.add_mul, Nat.one_mul]
    _ ≤ 2 ^ ones * 2 ^ (8 * len - ones) := Nat.mul_le_mul_right _ hq

theorem mask_sixteen {ip : IP} (hlen : ip.length = 16) :
    ip.mask (maskBytes ones 16) = ip.zipWith (· &&& ·) (maskBytes ones 16) := by
  simp [IP.mask, hlen, length_maskBytes]

namespace Accepted

variable {i : IP} {net : IPNet}

theorem v4_eq (h : Accepted (ipv4 a b c d) net ones 4) :
    net = ⟨[a, b, c, d], maskBytes ones 4⟩ ∧
      [a, b, c, d].zipWith (· &&& ·) (maskBytes ones 4) = [a, b, c, d] := by
  have hmask : (ipv4 a b c d).mask (cidrMask ones 32) =
      [a, b, c, d].zipWith (· &&& ·) (maskBytes ones 4) := by
    rw [cidrMask_four h.ones_le]
    simp [IP.mask, ipv4, v4InV6Prefix, length_maskBytes]
  have hself : [a, b, c, d].zipWith (· &&& ·) (maskBytes ones 4) = [a, b, c, d] := by
    have hequal := h.network
    have hlen : ([a, b, c, d].zipWith (· &&& ·) (maskBytes ones 4)).length = 4 := by
      simp [length_maskBytes]
    rw [show (ipv4 a b c d).to4.isSome = true from rfl, if_pos rfl, hmask, IP.equal, hlen] at hequal
    simp only [ipv4, v4InV6Prefix] at hequal
    exact (by simpa using hequal : [a, b, c, d] = _).symm
  refine ⟨?_, hself⟩
  have hnet := h.net_eq
  rw [show 8 * 4 = 32 from rfl, hmask, cidrMask_four h.ones_le, hself] at hnet
  exact hnet

theorem contains_v4 (h : Accepted (ipv4 a b c d) net ones 4) (x : IP) (hx : x.length = 16) :
    net.contains x = true ↔ x.take 12 = v4InV6Prefix ∧
      [a, b, c, d] = (x.drop 12).zipWith (· &&& ·) (maskBytes ones 4) := by
  obtain ⟨rfl, hself⟩ := h.v4_eq
  have hnet : IPNet.networkNumberAndMask ⟨[a, b, c, d], maskBytes ones 4⟩ =
      ([a, b, c, d], maskBytes ones 4) := by
    simp [IPNet.networkNumberAndMask, IP.to4, length_maskBytes]
  simp only [IPNet.contains, hnet, hself]
  by_cases h4 : x.take 12 = v4InV6Prefix
  · simp [to4_eq_some hx h4, h4, hx]
  · simp [to4_eq_none hx h4, h4, hx]

theorem interval_v4 (h : Accepted (ipv4 a b c d) net ones 4) :
    Interval (ipv4 a b c d) net (2 ^ (32 - ones)) := by
  obtain ⟨-, hself⟩ := h.v4_eq
  have hfits : ipValue [a, b, c, d] + 2 ^ (32 - ones) ≤ 256 ^ 4 := masked_fits rfl h.ones_le hself
  have hvalue : ipValue (ipv4 a b c d) = 256 ^ 4 * 0xffff + ipValue [a, b, c, d] :=
    ipValue_append _ _
  refine ⟨Nat.two_pow_pos _, by omega, by omega, fun x hx => ?_⟩
  have hdrop : (x.drop 12).length = 4 := by simp [hx]
  have hlow := ipValue_lt (x.drop 12)
  rw [hdrop] at hlow
  have hsum : ipValue x = 256 ^ 4 * ipValue (x.take 12) + ipValue (x.drop 12) := by
    rw [← hdrop, ← ipValue_append, List.take_append_drop]
  have hmasked : [a, b, c, d] = (x.drop 12).zipWith (· &&& ·) (maskBytes ones 4) ↔
      ipValue [a, b, c, d] ≤ ipValue (x.drop 12) ∧
        ipValue (x.drop 12) < ipValue [a, b, c, d] + 2 ^ (32 - ones) :=
    masked_eq_iff rfl hdrop h.ones_le hself
  rw [h.contains_v4 x hx, hmasked, hvalue]
  constructor
  · rintro ⟨h4, hlo, hhi⟩
    rw [hsum, h4, show ipValue v4InV6Prefix = 0xffff by decide]
    omega
  · rintro ⟨hlo, hhi⟩
    have hpre : x.take 12 = v4InV6Prefix := by
      rw [mapped_value hx]
      omega
    rw [hpre, show ipValue v4InV6Prefix = 0xffff by decide] at hsum
    exact ⟨hpre, by omega, by omega⟩

/-- IPv6 text for a mapped address is only accepted with the mask of a network
that has all of them. -/
theorem not_mapped (h : Accepted i net ones 16) (hnot : ¬ IncludesMapped net) :
    i.take 12 ≠ v4InV6Prefix := by
  intro h4
  have hnetwork := h.network
  rw [to4_eq_some h.length h4, Option.isSome_some, if_pos rfl] at hnetwork
  have hones : ones ≤ 32 := by
    by_contra hgt
    have hnil : cidrMask ones 32 = [] := by
      rw [cidrMask, if_neg (by decide), if_pos (by omega)]
    simp [hnil, IP.mask, IP.equal, h.length] at hnetwork
  refine hnot fun a b c d => ?_
  rw [h.net_eq, show 8 * 16 = 128 from rfl, cidrMask_sixteen (by omega), mask_sixteen rfl,
    mask_sixteen h.length]
  refine ipValue_injective (by simp [h.length, ipv4, v4InV6Prefix, length_maskBytes]) ?_
  -- both lose their low 96 bits, and there is nothing above
  have hzero : ∀ ip : IP, ip.length = 16 → ip.take 12 = v4InV6Prefix →
      ipValue (ip.zipWith (· &&& ·) (maskBytes ones 16)) = 0 := by
    intro ip hlen hpre
    have hvalue := (mapped_value hlen).mp hpre
    have hle : 2 ^ 96 ≤ 2 ^ (8 * 16 - ones) := Nat.pow_le_pow_right (by decide) (by omega)
    rw [ipValue_mask hlen (by omega), Nat.div_eq_of_lt (by omega), Nat.zero_mul]
  rw [hzero _ rfl rfl, hzero _ h.length h4]

theorem v6_eq (h : Accepted i net ones 16) (hnot : ¬ IncludesMapped net) :
    net = ⟨i, maskBytes ones 16⟩ ∧ i.zipWith (· &&& ·) (maskBytes ones 16) = i := by
  have hnetwork := h.network
  rw [to4_eq_none h.length (h.not_mapped hnot), if_neg (by decide), cidrMask_sixteen h.ones_le,
    mask_sixteen h.length, IP.equal, if_pos (by simp [h.length, length_maskBytes]),
    beq_iff_eq] at hnetwork
  refine ⟨?_, hnetwork.symm⟩
  have hnet := h.net_eq
  rw [show 8 * 16 = 128 from rfl, cidrMask_sixteen h.ones_le, mask_sixteen h.length, ← hnetwork]
    at hnet
  exact hnet

/-- No mapped address agrees with the network number: either all would, or the
network number would be one. -/
theorem mapped_apart {x : IP} (h : Accepted i net ones 16) (hnot : ¬ IncludesMapped net)
    (hx : x.length = 16) (h4 : x.take 12 = v4InV6Prefix) :
    i ≠ x.zipWith (· &&& ·) (maskBytes ones 16) := by
  intro hi
  have hvalue := (mapped_value hx).mp h4
  have hones := h.ones_le
  have hmasked := ipValue_mask hx h.ones_le
  by_cases hle : ones ≤ 96
  · have hpow : 2 ^ (8 * 16 - ones) = 2 ^ 32 * 2 ^ (96 - ones) := by
      rw [← Nat.pow_add, show 8 * 16 - ones = 32 + (96 - ones) by omega]
    refine hnot fun a b c d => ?_
    rw [(h.v6_eq hnot).1, mask_sixteen rfl]
    refine ipValue_injective (by simp [h.length, ipv4, v4InV6Prefix, length_maskBytes]) ?_
    have hlen : (ipv4 a b c d).length = 16 := rfl
    have hv : ipValue (ipv4 a b c d) / 2 ^ 32 = 0xffff := (mapped_value hlen).mp rfl
    rw [hi, hmasked, ipValue_mask hlen h.ones_le, hpow, ← Nat.div_div_eq_div_mul,
      ← Nat.div_div_eq_div_mul, hv, hvalue]
  · have hpow : 2 ^ 32 = 2 ^ (8 * 16 - ones) * 2 ^ (ones - 96) := by
      rw [← Nat.pow_add, show 32 = 8 * 16 - ones + (ones - 96) by omega]
    refine h.not_mapped hnot ((mapped_value h.length).mpr ?_)
    rw [hi, hmasked, hpow, ← Nat.div_div_eq_div_mul, Nat.mul_div_cancel _ (Nat.two_pow_pos _),
      Nat.div_div_eq_div_mul, ← hpow, hvalue]

theorem interval_v6 (h : Accepted i net ones 16) (hnot : ¬ IncludesMapped net) :
    Interval i net (2 ^ (128 - ones)) := by
  obtain ⟨hnet, hself⟩ := h.v6_eq hnot
  have hfits : ipValue i + 2 ^ (128 - ones) ≤ 256 ^ 16 := masked_fits h.length h.ones_le hself
  have hiff : ∀ x : IP, x.length = 16 → (i = x.zipWith (· &&& ·) (maskBytes ones 16) ↔
      ipValue i ≤ ipValue x ∧ ipValue x < ipValue i + 2 ^ (128 - ones)) :=
    fun x hx => masked_eq_iff h.length hx h.ones_le hself
  refine ⟨Nat.two_pow_pos _, ?_, hfits, fun x hx => ?_⟩
  · -- all numbers would have the mapped ones among them
    by_contra hall
    refine h.mapped_apart hnot (x := ipv4 0 0 0 0) rfl rfl ((hiff _ rfl).mpr ?_)
    have hv : ipValue (ipv4 0 0 0 0) = 2 ^ 32 * 0xffff := by decide
    rw [hv]
    omega
  · have hnn : net.networkNumberAndMask = (i, maskBytes ones 16) := by
      rw [hnet]
      simp [IPNet.networkNumberAndMask, to4_eq_none h.length (h.not_mapped hnot), h.length,
        length_maskBytes]
    rw [← hiff x hx, IPNet.contains, hnn]
    simp only [hself]
    by_cases h4 : x.take 12 = v4InV6Prefix
    · have hapart := h.mapped_apart hnot hx h4
      simp [to4_eq_some hx h4, hx, h.length, hapart]
    · simp [to4_eq_none hx h4, hx, h.length]

theorem interval (h : Accepted i net ones iplen)
    (hfamily : net.ip.length = 4 ∨ ¬ IncludesMapped net) :
    i.equal net.ip = true ∧ ∃ size, Interval i net size := by
  obtain ⟨rfl, a, b, c, d, rfl⟩ | rfl := h.iplen_eq
  · refine ⟨?_, _, h.interval_v4⟩
    rw [(h.v4_eq).1]
    simp [IP.equal, ipv4, v4InV6Prefix]
  · have hnot : ¬ IncludesMapped net := by
      refine hfamily.resolve_left fun h4 => ?_
      rw [h.net_eq, show 8 * 16 = 128 from rfl, cidrMask_sixteen h.ones_le,
        mask_sixteen h.length] at h4
      simp [h.length, length_maskBytes] at h4
    refine ⟨?_, _, h.interval_v6 hnot⟩
    rw [(h.v6_eq hnot).1]
    simp [IP.equal]

end Accepted

-- ---------------------------------------------------------------------------
-- The walk
-- ---------------------------------------------------------------------------

def Tier2VSInfo.advance (t : Tier2VSInfo) : Nat → Except Str Tier2VSInfo
  | 0 => .ok t
  | n + 1 => t.advance n >>= Tier2VSInfo.incrementHolderIP

theorem Tier2VSInfo.advance_succ {t t' : Tier2VSInfo} (h : t.advance n = .ok t') :
    t.advance (n + 1) = t'.incrementHolderIP := by
  rw [advance, h]
  rfl

namespace Interval

variable {i : IP} {net : IPNet} {t : Tier2VSInfo}

theorem contains_nextIP (h : Interval i net size) (hk : k < size) (hlen : ip.length = 16)
    (hip : ipValue ip = ipValue i + k) :
    (net.contains (nextIP ip) = true ↔ k + 1 < size) ∧
      (k + 1 < size → ipValue (nextIP ip) = ipValue i + (k + 1)) := by
  have hfits := h.fits
  have hlt := h.lt
  have hnext := ipValue_nextIP ip
  rw [hip, hlen] at hnext
  rw [h.contains _ ((length_nextIP ip).trans hlen), hnext]
  by_cases hwrap : ipValue i + k + 1 = 256 ^ 16
  · rw [hwrap, Nat.mod_self]
    omega
  · rw [Nat.mod_eq_of_lt (by omega)]
    omega

theorem advance (h : Interval i net size) (hi : i.length = 16) (hnet : t.ipNet = net)
    (hstart : t.holderIP = i) (hk : k < size) : ∃ ip :
      IP, t.advance k = .ok { t with holderIP := ip } ∧ ip.length = 16 ∧
      ipValue ip = ipValue i + k := by
  induction k with
  | zero =>
    refine ⟨i, ?_, hi, rfl⟩
    rw [Tier2VSInfo.advance, ← hstart]
  | succ k ih =>
    obtain ⟨ip, hadv, hlen, hvalue⟩ := ih (by omega)
    obtain ⟨hcontains, hnext⟩ := h.contains_nextIP (by omega) hlen hvalue
    refine ⟨nextIP ip, ?_, (length_nextIP ip).trans hlen, hnext hk⟩
    rw [Tier2VSInfo.advance_succ hadv, Tier2VSInfo.incrementHolderIP_eq, hnet,
      if_pos (hcontains.mpr hk)]

theorem advance_end (h : Interval i net size) (hi : i.length = 16) (hnet : t.ipNet = net)
    (hstart : t.holderIP = i) :
    t.advance size = .error outOfAddresses := by
  have hpos := h.pos
  obtain ⟨last, rfl⟩ : ∃ last, size = last + 1 := ⟨size - 1, by omega⟩
  obtain ⟨ip, hadv, hlen, hvalue⟩ := h.advance hi hnet hstart (Nat.lt_succ_self last)
  have hout := (h.contains_nextIP (Nat.lt_succ_self last) hlen hvalue).1
  rw [Tier2VSInfo.advance_succ hadv, Tier2VSInfo.incrementHolderIP_eq, hnet, if_neg]
  rw [hout]
  omega

end Interval

/-- `incrementHolderIP` is the successor modulo the width of the address, taken
when the network contains it. From the network address of an accepted range
that is of IPv4, or of IPv6 without the mapped block, the calls go up through
all addresses of the range, one by one, and fail at the last. -/
theorem incrementHolderIP_successor (t : Tier2VSInfo) :
    ((nextIP t.holderIP).length = t.holderIP.length ∧
      ipValue (nextIP t.holderIP) = (ipValue t.holderIP + 1) % 256 ^ t.holderIP.length) ∧
    (t.incrementHolderIP = if t.ipNet.contains (nextIP t.holderIP) = true
      then .ok { t with holderIP := nextIP t.holderIP } else .error outOfAddresses) ∧
    ∀ s i net, validateTier2Range s = .ok (i, net) → (net.ip.length = 4 ∨ ¬ IncludesMapped net) →
      t.holderIP = i → t.ipNet = net →
      i.equal net.ip = true ∧ ∃ last,
        (∀ k ≤ last, ∃ ip : IP, t.advance k = .ok { t with holderIP := ip } ∧ ip.length = 16 ∧
          ipValue ip = ipValue i + k) ∧
        t.advance (last + 1) = .error outOfAddresses ∧
        ∀ a : IP, a.length = 16 →
          (net.contains a = true ↔ ipValue i ≤ ipValue a ∧ ipValue a ≤ ipValue i + last) := by
  refine ⟨⟨length_nextIP _, ipValue_nextIP _⟩, t.incrementHolderIP_eq,
    fun s i net hrange hfamily hstart hnet => ?_⟩
  obtain ⟨ones, iplen, haccepted⟩ := validateTier2Range_ok hrange
  obtain ⟨hequal, size, hinterval⟩ := haccepted.interval hfamily
  have hi := haccepted.length
  have hpos := hinterval.pos
  refine ⟨hequal, size - 1, fun k hk => hinterval.advance hi hnet hstart (by omega),
    ?_, fun a ha => ?_⟩
  · rw [Nat.sub_add_cancel hpos]
    exact hinterval.advance_end hi hnet hstart
  · rw [hinterval.contains a ha]
    omega

theorem incrementHolderIP_successor_sample :
    validateTier2Range "172.0.0.0/24".toList = .ok (ipv4 172 0 0 0, Sample.subnet 0) ∧
      ∃ last, (Tier2VSInfo.initial (ipv4 172 0 0 0) (Sample.subnet 0)).advance (last + 1) =
        .error outOfAddresses ∧
        ∀ a : IP, a.length = 16 → ((Sample.subnet 0).contains a = true ↔
          ipValue (ipv4 172 0 0 0) ≤ ipValue a ∧ ipValue a ≤ ipValue (ipv4 172 0 0 0) + last) := by
  have hrange : validateTier2Range "172.0.0.0/24".toList =
      .ok (ipv4 172 0 0 0, Sample.subnet 0) := by decide +kernel
  obtain ⟨-, -, hwalk⟩ := incrementHolderIP_successor (.initial (ipv4 172 0 0 0) (Sample.subnet 0))
  obtain ⟨-, last, -, hend, hall⟩ := hwalk _ _ _ hrange (.inl rfl) rfl rfl
  exact ⟨hrange, last, hend, hall⟩

end BigipCtlr
