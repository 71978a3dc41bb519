import BigipCtlr.Go.Net
import Mathlib.Data.List.TakeWhile

/-!
# What `String` prints, `ParseIP` reads back

`parseIP_toString`: for every sixteen-byte address the text of the address
parses to the address itself. The IPv4 half reads four decimal octets; the
IPv6 half follows the field parser over the two sides of the ellipsis.
-/

namespace BigipCtlr.Go

-- ---------------------------------------------------------------------------
-- Numbers
-- ---------------------------------------------------------------------------

theorem dtoi_toDigits (hn : n < big) (hr : ∀ c ∈ rest.head?, c.isDigit = false) :
    dtoi (Nat.toDigits 10 n ++ rest) = some (n, rest) := by
  have hd : ∀ c ∈ Nat.toDigits 10 n, c.isDigit = true := fun c hc =>
    Nat.isDigit_of_mem_toDigits (by omega) (by omega) hc
  obtain ⟨ht, hw⟩ := takeWhile_append_stop hd hr
  simp only [dtoi, ht, hw, Nat.ofDigitChars_ten_toDigits]
  rw [if_neg]
  simp only [Nat.toDigits_ne_nil, false_or]
  omega

theorem hexVal_digitChar (h : n < 16) : hexVal (Nat.digitChar n) = some n := by
  have : ∀ n : Fin 16, hexVal (Nat.digitChar n) = some n.val := by decide
  exact this ⟨n, h⟩

theorem isHex_of_mem_toDigits (h : c ∈ Nat.toDigits 16 n) : isHex c = true := by
  induction n using Nat.strongRecOn with
  | _ n ih =>
    rw [Nat.toDigits_eq_if (by omega)] at h
    split at h
    · next hn =>
      rw [List.mem_singleton.mp h, isHex, hexVal_digitChar hn]
      rfl
    · next hn =>
      rcases List.mem_append.mp h with h | h
      · exact ih (n / 16) (by omega) h
      · rw [List.mem_singleton.mp h, isHex, hexVal_digitChar (by omega)]
        rfl

theorem ofHexChars_toDigits (n : Nat) : ofHexChars (Nat.toDigits 16 n) = n := by
  induction n using Nat.strongRecOn with
  | _ n ih =>
    rw [Nat.toDigits_eq_if (by omega)]
    split
    · next hn => simp [ofHexChars, hexVal_digitChar hn]
    · next hn =>
      have hd := ih (n / 16) (by omega)
      rw [ofHexChars] at hd ⊢
      rw [List.foldl_append, hd]
      simp only [List.foldl_cons, List.foldl_nil, hexVal_digitChar (show n % 16 < 16 by omega),
        Option.getD_some]
      omega

theorem xtoi_toDigits (hn : n < big) (hr : ∀ c ∈ rest.head?, isHex c = false) :
    xtoi (Nat.toDigits 16 n ++ rest) = some (n, rest) := by
  obtain ⟨ht, hw⟩ := takeWhile_append_stop (s := Nat.toDigits 16 n)
    (fun c hc => isHex_of_mem_toDigits hc) hr
  simp only [xtoi, ht, hw, ofHexChars_toDigits]
  rw [if_neg]
  simp only [Nat.toDigits_ne_nil, false_or]
  omega

-- ---------------------------------------------------------------------------
-- IPv4
-- ---------------------------------------------------------------------------

theorem parseOctet_toDigits (b : UInt8) (hr : ∀ c ∈ rest.head?, c.isDigit = false) :
    parseOctet (Nat.toDigits 10 b.toNat ++ rest) = some (b, rest) := by
  have hb := b.toNat_lt
  rw [parseOctet, dtoi_toDigits (by rw [big]; omega) hr]
  simp only [UInt8.ofNat_toNat]
  rw [if_neg (by omega)]

theorem parseIPv4_dotted (a b c d : UInt8) :
    parseIPv4 (dotted [a, b, c, d]) = some (ipv4 a b c d) := by
  have hdot : ∀ s : Str, ∀ x ∈ ('.' :: s).head?, Char.isDigit x = false := by
    rintro s x ⟨⟩
    rfl
  have hd := @parseOctet_toDigits [] d (by simp)
  rw [List.append_nil] at hd
  have hs : dotted [a, b, c, d] = Nat.toDigits 10 a.toNat ++ '.' :: (Nat.toDigits 10 b.toNat ++
      '.' :: (Nat.toDigits 10 c.toNat ++ '.' :: Nat.toDigits 10 d.toNat)) := by
    simp [dotted, List.intercalate]
  rw [hs, parseIPv4, parseOctet_toDigits a (hdot _)]
  simp only [Option.bind_eq_bind, Option.bind_some, parseDotOctet]
  rw [parseOctet_toDigits b (hdot _)]
  simp only [Option.bind_some]
  rw [parseOctet_toDigits c (hdot _)]
  simp only [Option.bind_some]
  rw [hd]
  simp

theorem dotted_find (a b c d : UInt8) :
    (dotted [a, b, c, d]).find? (fun x => x == '.' || x == ':') = some '.' := by
  have hs : dotted [a, b, c, d] = Nat.toDigits 10 a.toNat ++ '.' :: (Nat.toDigits 10 b.toNat ++
      '.' :: (Nat.toDigits 10 c.toNat ++ '.' :: Nat.toDigits 10 d.toNat)) := by
    simp [dotted, List.intercalate]
  have hn : (Nat.toDigits 10 a.toNat).find? (fun x => x == '.' || x == ':') = none := by
    rw [List.find?_eq_none]
    intro x hx
    have := Nat.isDigit_of_mem_toDigits (by omega) (by omega) hx
    rintro h
    simp only [Bool.or_eq_true, beq_iff_eq] at h
    rcases h with rfl | rfl <;> simp at this
  rw [hs, List.find?_append, hn]
  simp

-- ---------------------------------------------------------------------------
-- IPv6 fields
-- ---------------------------------------------------------------------------

def fieldsBytes (gs : List Nat) : List UInt8 := gs.flatMap fieldBytes

theorem fieldsBytes_fields (hl : ip.length = 2 * k) : fieldsBytes (fields ip) = ip := by
  induction k generalizing ip with
  | zero => simp [List.length_eq_zero_iff.mp hl, fields, fieldsBytes]
  | succ k ih =>
    match ip, hl with
    | hi :: lo :: rest, hl =>
      have hr : rest.length = 2 * k := by simpa [Nat.mul_succ] using hl
      have hb := lo.toNat_lt
      have h1 : (hi.toNat * 256 + lo.toNat) / 256 = hi.toNat := by omega
      have h2 : UInt8.ofNat (hi.toNat * 256 + lo.toNat) = lo := by
        apply UInt8.toNat.inj
        simp
      have ih := ih hr
      simp only [fieldsBytes] at ih
      simp [fields, fieldsBytes, fieldBytes, h1, h2, ih]

theorem length_fields (hl : ip.length = 2 * k) : (fields ip).length = k := by
  induction k generalizing ip with
  | zero => simp [List.length_eq_zero_iff.mp hl, fields]
  | succ k ih =>
    match ip, hl with
    | hi :: lo :: rest, hl =>
      have hr : rest.length = 2 * k := by simpa [Nat.mul_succ] using hl
      simp [fields, ih hr]

theorem fields_lt {ip : IP} (h : g ∈ fields ip) : g ≤ 0xFFFF := by
  induction ip using fields.induct with
  | case1 hi lo rest ih =>
    simp only [fields, List.mem_cons] at h
    have h1 := hi.toNat_lt
    have h2 := lo.toNat_lt
    rcases h with rfl | h
    · omega
    · exact ih h
  | case2 ip hne =>
    match ip, hne with
    | [], _ => simp [fields] at h
    | [_], _ => simp [fields] at h
    | hi :: lo :: rest, hne => exact absurd rfl (hne hi lo rest)

theorem fieldsBytes_nil : fieldsBytes [] = [] := rfl

theorem length_fieldsBytes (gs : List Nat) : (fieldsBytes gs).length = 2 * gs.length := by
  induction gs with
  | nil => rfl
  | cons g gs ih =>
    simp only [fieldsBytes, List.flatMap_cons, List.length_append] at ih ⊢
    rw [ih]
    simp [fieldBytes]
    omega

theorem colons_cons_cons (g h : Nat) (gs : List Nat) :
    colons (g :: h :: gs) = Nat.toDigits 16 g ++ ':' :: colons (h :: gs) := by
  simp [colons, List.intercalate]

theorem colons_singleton (g : Nat) : colons [g] = Nat.toDigits 16 g := by
  simp [colons, List.intercalate]

theorem colons_head (hg : gs ≠ []) : ∃ c rest, colons gs = c :: rest ∧ isHex c = true := by
  match gs, hg with
  | g :: gs, _ =>
    have hc : ∃ rest, colons (g :: gs) = Nat.toDigits 16 g ++ rest := by
      cases gs with
      | nil => exact ⟨[], by simp [colons_singleton]⟩
      | cons h gs => exact ⟨_, colons_cons_cons g h gs⟩
    obtain ⟨rest, hc⟩ := hc
    cases hd : Nat.toDigits 16 g with
    | nil => exact absurd hd Nat.toDigits_ne_nil
    | cons c ds =>
      refine ⟨c, ds ++ rest, by rw [hc, hd]; rfl, ?_⟩
      exact isHex_of_mem_toDigits (n := g) (by rw [hd]; exact List.mem_cons_self)

theorem colon_not_hex (s : Str) : ∀ c ∈ (':' :: s).head?, isHex c = false := by
  rintro c ⟨⟩
  decide

theorem parseFields_step (hg : g ≤ 0xFFFF) (hs : ∃ c rest, s = c :: rest ∧ isHex c = true) :
    parseFields (k + 1) acc e (Nat.toDigits 16 g ++ ':' :: s) =
      parseFields k (acc ++ fieldBytes g) e s := by
  obtain ⟨c, rest, rfl, hc⟩ := hs
  have hne : c ≠ ':' := by
    rintro rfl
    revert hc
    decide
  rw [parseFields, xtoi_toDigits (by rw [big]; omega) (colon_not_hex _)]
  simp only [Char.reduceEq, ↓reduceIte, ne_eq, not_true_eq_false, hne]
  rw [if_neg (by omega)]

theorem parseFields_last (hg : g ≤ 0xFFFF) :
    parseFields (k + 1) acc e (Nat.toDigits 16 g) = some (acc ++ fieldBytes g, e, []) := by
  have hx := @xtoi_toDigits g [] (by rw [big]; omega) (by simp)
  rw [List.append_nil] at hx
  rw [parseFields, hx]
  simp only
  rw [if_neg (by omega)]

theorem parseFields_colons (hgs : ∀ g ∈ gs, g ≤ 0xFFFF) (hne : gs ≠ []) (hk : gs.length ≤ k) :
    parseFields k acc e (colons gs) = some (acc ++ fieldsBytes gs, e, []) := by
  induction gs generalizing k acc with
  | nil => exact absurd rfl hne
  | cons g gs ih =>
    obtain ⟨k, rfl⟩ : ∃ k', k = k' + 1 := ⟨k - 1, by simp at hk; omega⟩
    have hg := hgs g List.mem_cons_self
    cases gs with
    | nil =>
      rw [colons_singleton, parseFields_last hg]
      simp [fieldsBytes]
    | cons h gs =>
      rw [colons_cons_cons, parseFields_step hg (colons_head (by simp)),
        ih (fun x hx => hgs x (List.mem_cons_of_mem _ hx)) (by simp) (by simpa using hk)]
      simp [fieldsBytes]

theorem parseFields_ellipsis (hgs : ∀ g ∈ gs, g ≤ 0xFFFF) (hne : gs ≠ []) (hk : gs.length ≤ k) :
    parseFields k acc none (colons gs ++ ':' :: ':' :: s) =
      if s = [] then some (acc ++ fieldsBytes gs, some (acc.length + 2 * gs.length), [])
      else parseFields (k - gs.length) (acc ++ fieldsBytes gs)
        (some (acc.length + 2 * gs.length)) s := by
  induction gs generalizing k acc with
  | nil => exact absurd rfl hne
  | cons g gs ih =>
    obtain ⟨k, rfl⟩ : ∃ k', k = k' + 1 := ⟨k - 1, by simp at hk; omega⟩
    have hg := hgs g List.mem_cons_self
    cases gs with
    | nil =>
      rw [colons_singleton, parseFields, xtoi_toDigits (by rw [big]; omega) (colon_not_hex _)]
      simp only [Char.reduceEq, ↓reduceIte, ne_eq, not_true_eq_false, List.length_singleton,
        Nat.add_sub_cancel]
      rw [if_neg (by omega)]
      simp [fieldsBytes]
    | cons h gs =>
      have hhead : ∃ c rest, colons (h :: gs) ++ ':' :: ':' :: s = c :: rest ∧ isHex c = true := by
        obtain ⟨c, rest, hc, hx⟩ := @colons_head (h :: gs) (by simp)
        exact ⟨c, rest ++ ':' :: ':' :: s, by rw [hc]; rfl, hx⟩
      rw [colons_cons_cons, List.append_assoc, List.cons_append, parseFields_step hg hhead,
        ih (fun x hx => hgs x (List.mem_cons_of_mem _ hx)) (by simp) (by simpa using hk)]
      have hlen : (acc ++ fieldBytes g).length + 2 * (h :: gs).length =
          acc.length + 2 * (g :: h :: gs).length := by
        simp [fieldBytes]
        omega
      have hbytes : acc ++ fieldBytes g ++ fieldsBytes (h :: gs) =
          acc ++ fieldsBytes (g :: h :: gs) := by
        simp [fieldsBytes]
      have hkk : k - (h :: gs).length = k + 1 - (g :: h :: gs).length := by simp
      rw [hlen, hbytes, hkk]

-- ---------------------------------------------------------------------------
-- IPv6 addresses
-- ---------------------------------------------------------------------------

def ZeroFields (gs : List Nat) (e : Nat × Nat) : Prop :=
  e.1 ≤ e.2 ∧ e.2 ≤ gs.length ∧ gs = gs.take e.1 ++ List.replicate (e.2 - e.1) 0 ++ gs.drop e.2

theorem zeroRun_zero (gs : List Nat) (i : Nat) :
    gs.drop i = List.replicate (zeroRun gs i) 0 ++ gs.drop (i + zeroRun gs i) := by
  have hs := List.takeWhile_append_dropWhile (p := (· == 0)) (l := gs.drop i)
  have hz : (gs.drop i).takeWhile (· == 0) = List.replicate (zeroRun gs i) 0 := by
    refine List.eq_replicate_of_mem fun x hx => ?_
    simpa using List.mem_takeWhile_imp hx
  have hd : (gs.drop i).dropWhile (· == 0) = gs.drop (i + zeroRun gs i) := by
    rw [← List.drop_drop]
    conv_rhs => rw [← hs, hz]
    simp
  rw [← hz, ← hd, hs]

theorem zeroRun_le (gs : List Nat) (i : Nat) (hi : i ≤ gs.length) :
    i + zeroRun gs i ≤ gs.length := by
  have h : zeroRun gs i ≤ (gs.drop i).length := (List.takeWhile_sublist _).length_le
  rw [List.length_drop] at h
  omega

theorem longestZeros_zero (he : ZeroFields gs e) :
    ZeroFields gs (longestZeros gs k i e) := by
  induction k generalizing i e with
  | zero => exact he
  | succ k ih =>
    simp only [longestZeros]
    split
    · next hrun =>
      apply ih
      have hi : i ≤ gs.length := by
        by_contra hi
        have : zeroRun gs i = 0 := by
          rw [zeroRun, List.drop_eq_nil_of_le (by omega)]
          rfl
        omega
      refine ⟨by simp, zeroRun_le gs i hi, ?_⟩
      have hz := zeroRun_zero gs i
      rw [Nat.add_sub_cancel_left, List.append_assoc, ← hz, List.take_append_drop]
    · exact ih he

theorem fieldsBytes_append (gs hs : List Nat) :
    fieldsBytes (gs ++ hs) = fieldsBytes gs ++ fieldsBytes hs := by
  simp [fieldsBytes]

theorem fieldsBytes_replicate_zero (n : Nat) :
    fieldsBytes (List.replicate n 0) = List.replicate (2 * n) 0 := by
  induction n with
  | zero => rfl
  | succ n ih =>
    rw [List.replicate_succ, Nat.mul_succ, List.replicate_succ, List.replicate_succ, ← ih]
    rfl

theorem parseIPv6_colons (hgs : ∀ g ∈ gs, g ≤ 0xFFFF) (hl : gs.length = 8) :
    parseIPv6 (colons gs) = some (fieldsBytes gs) := by
  have hne : gs ≠ [] := by
    rintro rfl
    simp at hl
  obtain ⟨c, rest, hc, hx⟩ := colons_head hne
  have hp : ¬ hasPrefix (colons gs) "::".toList = true := by
    rw [hc]
    intro h
    have : ':' = c := by
      simp [hasPrefix] at h
      exact h.1
    subst this
    revert hx
    decide
  have hb := length_fieldsBytes gs
  rw [parseIPv6, if_neg hp, parseFields_colons hgs hne (by omega)]
  simp [expandEllipsis, hb, hl]

theorem parseIPv6_ellipsis (hl : ∀ g ∈ left, g ≤ 0xFFFF) (hr : ∀ g ∈ right, g ≤ 0xFFFF)
    (hn : 0 < n) (hlen : left.length + n + right.length = 8) :
    parseIPv6 (colons left ++ ':' :: ':' :: colons right) =
      some (fieldsBytes left ++ List.replicate (2 * n) 0 ++ fieldsBytes right) := by
  have hbl := length_fieldsBytes left
  have hbr := length_fieldsBytes right
  have hnil : colons right = [] ↔ right = [] := by
    constructor
    · intro h
      by_contra hne
      obtain ⟨c, rest, hc, -⟩ := colons_head hne
      rw [hc] at h
      cases h
    · rintro rfl
      rfl
  cases left with
  | nil =>
    have h0 : colons [] = [] := rfl
    rw [h0, List.nil_append, parseIPv6, if_pos (by simp [hasPrefix])]
    simp only [List.drop_succ_cons, List.drop_zero]
    by_cases hright : right = []
    · subst hright
      have : n = 8 := by simpa using hlen
      subst this
      simp [h0, fieldsBytes]
    · rw [if_neg (by rwa [hnil]), parseFields_colons hr hright (by omega)]
      simp only [List.nil_append, Option.bind_some, expandEllipsis, ne_eq, not_true_eq_false,
        ↓reduceIte]
      rw [if_pos (by simp at hlen; omega)]
      have : 16 - (fieldsBytes right).length = 2 * n := by simp at hlen; omega
      simp [this, fieldsBytes_nil]
  | cons g gs =>
    have hp : ¬ hasPrefix (colons (g :: gs) ++ ':' :: ':' :: colons right) "::".toList = true := by
      obtain ⟨c, rest, hc, hx⟩ := @colons_head (g :: gs) (by simp)
      rw [hc]
      intro h
      have : ':' = c := by
        simp [hasPrefix] at h
        exact h.1
      subst this
      revert hx
      decide
    rw [parseIPv6, if_neg hp, parseFields_ellipsis hl (by simp) (by omega)]
    simp only [List.length_nil, Nat.zero_add, List.nil_append]
    by_cases hright : right = []
    · subst hright
      rw [if_pos (hnil.mpr rfl)]
      simp only [Option.bind_some, expandEllipsis, ne_eq, not_true_eq_false, ↓reduceIte]
      rw [List.length_nil, Nat.add_zero] at hlen
      rw [if_pos (by omega)]
      have : 16 - (fieldsBytes (g :: gs)).length = 2 * n := by omega
      rw [this, ← hbl]
      simp [fieldsBytes_nil]
    · rw [if_neg (by rwa [hnil]), parseFields_colons hr hright (by omega)]
      simp only [Option.bind_some, expandEllipsis, ne_eq, not_true_eq_false, ↓reduceIte,
        List.length_append]
      rw [if_pos (by omega)]
      have : 16 - ((fieldsBytes (g :: gs)).length + (fieldsBytes right).length) = 2 * n := by omega
      rw [this, ← hbl]
      simp

theorem parseIPv6_ipv6String (hgs : ∀ g ∈ gs, g ≤ 0xFFFF) (hl : gs.length = 8) :
    parseIPv6 (ipv6String gs) = some (fieldsBytes gs) := by
  have he : ZeroFields gs (longestZeros gs 8 0 (0, 0)) :=
    longestZeros_zero ⟨by simp, by simp, by simp⟩
  simp only [ipv6String]
  generalize longestZeros gs 8 0 (0, 0) = e at he
  obtain ⟨h1, h2, hz⟩ := he
  split
  · exact parseIPv6_colons hgs hl
  · next hrun =>
    rw [parseIPv6_ellipsis (n := e.2 - e.1) (fun g hg => hgs g (List.mem_of_mem_take hg))
      (fun g hg => hgs g (List.mem_of_mem_drop hg)) (by omega)
      (by rw [List.length_take, List.length_drop]; omega)]
    conv_rhs => rw [hz]
    rw [fieldsBytes_append, fieldsBytes_append, fieldsBytes_replicate_zero]

theorem colons_notDot (h : c ∈ colons gs) : c ≠ '.' := by
  have hdigit : ∀ g, c ∈ Nat.toDigits 16 g → c ≠ '.' := by
    rintro g hg rfl
    have := isHex_of_mem_toDigits hg
    revert this
    decide
  induction gs with
  | nil => simp [colons] at h
  | cons g gs ih =>
    cases gs with
    | nil => exact hdigit g (by rwa [colons_singleton] at h)
    | cons g' gs =>
      rw [colons_cons_cons, List.mem_append, List.mem_cons] at h
      rcases h with h | rfl | h
      · exact hdigit g h
      · decide
      · exact ih h

theorem ipv6String_notDot (h : c ∈ ipv6String gs) : c ≠ '.' := by
  simp only [ipv6String] at h
  split at h
  · exact colons_notDot h
  · simp only [List.mem_append, List.mem_cons] at h
    rcases h with h | rfl | rfl | h
    · exact colons_notDot h
    · decide
    · decide
    · exact colons_notDot h

theorem colon_mem_ipv6String (hl : gs.length = 8) : ':' ∈ ipv6String gs := by
  simp only [ipv6String]
  split
  · match gs, hl with
    | g :: h :: gs, _ => simp [colons_cons_cons]
  · simp

theorem ipv6String_find (hl : gs.length = 8) :
    (ipv6String gs).find? (fun x => x == '.' || x == ':') = some ':' := by
  cases hf : (ipv6String gs).find? fun x => x == '.' || x == ':' with
  | none =>
    have := List.find?_eq_none.mp hf ':' (colon_mem_ipv6String hl)
    simp at this
  | some c =>
    have hm := ipv6String_notDot (List.mem_of_find?_eq_some hf)
    have hc := List.find?_some hf
    simp only [Bool.or_eq_true, beq_iff_eq, hm, false_or] at hc
    rw [hc]

theorem to4_eq_none (hl : ip.length = 16) (h : ip.take 12 ≠ v4InV6Prefix) : IP.to4 ip = none := by
  simp [IP.to4, hl, h]

theorem to4_eq_some (hl : ip.length = 16) (h : ip.take 12 = v4InV6Prefix) :
    IP.to4 ip = some (ip.drop 12) := by
  simp [IP.to4, hl, h]

theorem parseIP_toString (hl : ip.length = 16) : parseIP (IP.toString ip) = some ip := by
  by_cases h4 : ip.take 12 = v4InV6Prefix
  · have hd : (ip.drop 12).length = 4 := by simp [hl]
    have hip : ip = v4InV6Prefix ++ ip.drop 12 := by rw [← h4, List.take_append_drop]
    simp only [IP.toString, hl, to4_eq_some hl h4]
    match hdr : ip.drop 12, hd with
    | [a, b, c, d], _ =>
      rw [if_neg (by omega), parseIP, dotted_find]
      simp only [↓reduceIte]
      rw [parseIPv4_dotted, hip, hdr, ipv4]
  · have hfl := length_fields (k := 8) hl
    simp only [IP.toString, hl, to4_eq_none hl h4]
    rw [if_neg (by omega), if_neg (by simp), parseIP, ipv6String_find hfl]
    simp only [Char.reduceEq, ↓reduceIte]
    rw [parseIPv6_ipv6String (fun g hg => fields_lt hg) hfl, fieldsBytes_fields (k := 8) hl]

theorem toString_injective (h1 : ip₁.length = 16) (h2 : ip₂.length = 16)
    (h : IP.toString ip₁ = IP.toString ip₂) : ip₁ = ip₂ := by
  have := parseIP_toString h1
  rw [h, parseIP_toString h2] at this
  exact (Option.some.inj this).symm

-- ---------------------------------------------------------------------------
-- What is parsed has sixteen bytes
-- ---------------------------------------------------------------------------

theorem parseIPv4_length (h : parseIPv4 s = some ip) : ip.length = 16 := by
  simp only [parseIPv4, bind, Option.bind_eq_some_iff] at h
  obtain ⟨⟨a, s₁⟩, -, ⟨b, s₂⟩, -, ⟨c, s₃⟩, -, ⟨d, s₄⟩, -, h⟩ := h
  split at h
  · cases h
    rfl
  · cases h

theorem parseFields_length (hacc : acc.length + 2 * k ≤ 16) (he : ∀ p ∈ e, p ≤ acc.length)
    (h : parseFields k acc e s = some (acc', e', s')) :
    acc'.length ≤ 16 ∧ ∀ p ∈ e', p ≤ acc'.length := by
  induction k generalizing acc e s with
  | zero =>
    simp only [parseFields, Option.some.injEq, Prod.mk.injEq] at h
    obtain ⟨rfl, rfl, -⟩ := h
    exact ⟨by omega, he⟩
  | succ k ih =>
    have hfield : ∀ n, (acc ++ fieldBytes n).length = acc.length + 2 := by simp [fieldBytes]
    have hkeep : ∀ n, ∀ p ∈ e, p ≤ (acc ++ fieldBytes n).length := by
      intro n p hp
      have := he p hp
      rw [hfield]
      omega
    simp only [parseFields] at h
    split at h
    · cases h
    · next n rest _ =>
      split at h
      · cases h
      split at h
      · cases h
        exact ⟨by rw [hfield]; omega, hkeep n⟩
      · split at h
        · split at h
          · cases h
          · next hlen =>
            split at h
            · cases h
            · next ip4 h4 =>
              cases h
              have := parseIPv4_length h4
              simp only [List.length_append, List.length_drop]
              refine ⟨by omega, fun p hp => ?_⟩
              have := he p hp
              omega
        · split at h
          · cases h
          split at h
          · cases h
          split at h
          · split at h
            · cases h
            split at h
            · cases h
              exact ⟨by rw [hfield]; omega, by simp [hfield]⟩
            · exact ih (by rw [hfield]; omega) (by simp [hfield]) h
          · exact ih (by rw [hfield]; omega) (hkeep n) h

theorem parseIPv6_length (h : parseIPv6 s = some ip) : ip.length = 16 := by
  have key : ∀ e s, (∀ p ∈ e, p ≤ 0) →
      (parseFields 8 [] e s).bind expandEllipsis = some ip → ip.length = 16 := by
    intro e s he h
    obtain ⟨⟨acc, e', s'⟩, hp, h⟩ := Option.bind_eq_some_iff.mp h
    obtain ⟨hle, hpos⟩ := parseFields_length (by simp) he hp
    simp only [expandEllipsis] at h
    split at h
    · cases h
    split at h
    · split at h
      · cases h
      · next p =>
        cases h
        have := hpos p rfl
        simp only [List.length_append, List.length_take, List.length_replicate, List.length_drop]
        omega
    · split at h
      · cases h
      · cases h
        omega
  simp only [parseIPv6] at h
  split at h
  · split at h
    · cases h
      rfl
    · exact key _ _ (by simp) h
  · exact key _ _ (by simp) h

theorem parseCIDR_length (h : parseCIDR s = some (ip, net)) : ip.length = 16 := by
  simp only [parseCIDR] at h
  split at h
  · next addr mask _ =>
    cases h4 : parseIPv4 addr with
    | some ip4 =>
      simp only [h4] at h
      split at h
      · next hip _ =>
        split at h
        · cases h
        · cases h
          cases hip
          exact parseIPv4_length h4
      · cases h
    | none =>
      simp only [h4] at h
      split at h
      · next hip _ =>
        split at h
        · cases h
        · cases h
          exact parseIPv6_length hip
      · cases h
  · cases h

-- ---------------------------------------------------------------------------
-- The bytes of an address text
-- ---------------------------------------------------------------------------

def isAddressChar (c : Char) : Bool := isHex c || c == '.' || c == ':'

theorem isHex_of_isDigit (h : c.isDigit = true) : isHex c = true := by
  simp only [Char.isDigit, Bool.and_eq_true, decide_eq_true_eq] at h
  have hc : '0' ≤ c ∧ c ≤ '9' := h
  simp [isHex, hexVal, hc]

theorem dtoi_chars (h : dtoi s = some (n, rest)) (hrest : rest.all isAddressChar = true) :
    s.all isAddressChar = true := by
  simp only [dtoi] at h
  split at h
  · cases h
  · cases h
    rw [← List.takeWhile_append_dropWhile (p := Char.isDigit) (l := s), List.all_append,
      hrest, Bool.and_true, List.all_eq_true]
    intro c hc
    simp [isAddressChar, isHex_of_isDigit (List.mem_takeWhile_imp hc)]

theorem parseOctet_chars (h : parseOctet s = some (n, rest))
    (hrest : rest.all isAddressChar = true) :
    s.all isAddressChar = true := by
  simp only [parseOctet] at h
  split at h
  · cases h
  · next hd =>
    split at h
    · cases h
    · cases h
      exact dtoi_chars hd hrest

theorem parseDotOctet_chars (h : parseDotOctet s = some (n, rest))
    (hrest : rest.all isAddressChar = true) :
    s.all isAddressChar = true := by
  simp only [parseDotOctet] at h
  split at h
  · rw [List.all_cons, parseOctet_chars h hrest]
    rfl
  · cases h

theorem parseIPv4_chars (h : parseIPv4 s = some ip) : s.all isAddressChar = true := by
  obtain ⟨⟨a, s₁⟩, h₁, h⟩ := Option.bind_eq_some_iff.mp h
  obtain ⟨⟨b, s₂⟩, h₂, h⟩ := Option.bind_eq_some_iff.mp h
  obtain ⟨⟨c, s₃⟩, h₃, h⟩ := Option.bind_eq_some_iff.mp h
  obtain ⟨⟨d, s₄⟩, h₄, h⟩ := Option.bind_eq_some_iff.mp h
  change (if s₄ = [] then some (ipv4 a b c d) else none) = some ip at h
  split at h
  · next hnil =>
    subst hnil
    exact parseOctet_chars h₁
      (parseDotOctet_chars h₂ (parseDotOctet_chars h₃ (parseDotOctet_chars h₄ rfl)))
  · cases h

theorem xtoi_chars (h : xtoi s = some (n, rest)) (hrest : rest.all isAddressChar = true) :
    s.all isAddressChar = true := by
  simp only [xtoi] at h
  split at h
  · cases h
  · cases h
    rw [← List.takeWhile_append_dropWhile (p := isHex) (l := s), List.all_append,
      hrest, Bool.and_true, List.all_eq_true]
    intro c hc
    simp [isAddressChar, List.mem_takeWhile_imp hc]

theorem parseFields_chars (h : parseFields k acc e s = some (acc', e', [])) :
    s.all isAddressChar = true := by
  induction k generalizing acc e s with
  | zero =>
    cases h
    rfl
  | succ k ih =>
    simp only [parseFields] at h
    split at h
    · cases h
    · next n rest hx =>
      split at h
      · cases h
      split at h
      · exact xtoi_chars hx rfl
      · split at h
        · split at h
          · cases h
          · split at h
            · cases h
            · next h4 => exact parseIPv4_chars h4
        · split at h
          · cases h
          · next hcolon =>
            have hcolon := Decidable.not_not.mp hcolon
            subst hcolon
            split at h
            · cases h
            · next d rest' =>
              refine xtoi_chars hx ?_
              split at h
              · next hd =>
                subst hd
                split at h
                · cases h
                split at h
                · next hnil =>
                  subst hnil
                  rfl
                · simpa [isAddressChar] using ih h
              · simpa [isAddressChar] using ih h

theorem parseIPv6_chars (h : parseIPv6 s = some ip) : s.all isAddressChar = true := by
  have key : ∀ e s, (parseFields 8 [] e s).bind expandEllipsis = some ip →
      s.all isAddressChar = true := by
    intro e s h
    obtain ⟨⟨acc, e', s'⟩, hp, h⟩ := Option.bind_eq_some_iff.mp h
    simp only [expandEllipsis] at h
    split at h
    · cases h
    · next hnil =>
      have hnil := Decidable.not_not.mp hnil
      subst hnil
      exact parseFields_chars hp
  simp only [parseIPv6] at h
  split at h
  · next hpre =>
    obtain ⟨t, rfl⟩ := hasPrefix_iff.mp hpre
    rw [List.all_append, Bool.and_eq_true]
    refine ⟨rfl, ?_⟩
    have hdrop : ("::".toList ++ t).drop 2 = t := rfl
    rw [hdrop] at h
    split at h
    · next hnil =>
      subst hnil
      rfl
    · exact key _ _ h
  · exact key _ _ h

theorem parseIP_chars (h : parseIP s = some ip) : ∀ c ∈ s, isAddressChar c = true := by
  simp only [parseIP] at h
  split at h
  · cases h
  · split at h
    · exact List.all_eq_true.mp (parseIPv4_chars h)
    · exact List.all_eq_true.mp (parseIPv6_chars h)

end BigipCtlr.Go
