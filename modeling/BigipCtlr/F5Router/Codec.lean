import BigipCtlr.F5Router.Tier2
import BigipCtlr.Go.Base64

/-!
# Record data

The JSON object that `Encode` writes for a virtual address, and reading it
back. Only texts that `Encode` writes, and `null`, are accepted.
-/

namespace BigipCtlr

open Go

def addressKey : Str := "\x7b\"bindAddr\":\"".toList

def portKey : Str := "\",\"port\":".toList

/-- What follows the bind address; a zero port is left out. -/
def marshalPort (port : Int32) : Str :=
  if port = 0 then "\"\x7d".toList else portKey ++ itoa port.toInt ++ "\x7d".toList

/-- `json.Marshal` of an address whose bind address needs no escapes. -/
def VirtualAddress.marshal (va : VirtualAddress) : Str :=
  addressKey ++ va.bindAddr ++ marshalPort va.port

def readInt : Str → Int
  | '-' :: ds => -(Nat.ofDigitChars 10 ds 0 : Int)
  | ds => Nat.ofDigitChars 10 ds 0

def unmarshal (text : Str) : Decoded :=
  let body := text.drop addressKey.length
  let port := (body.dropWhile (· ≠ '"')).drop portKey.length
  let va : VirtualAddress := ⟨body.takeWhile (· ≠ '"'), Int32.ofInt (readInt port.dropLast)⟩
  if text = "null".toList then .null
  else if va.marshal = text then .address va
  else .error "invalid character".toList

theorem readInt_itoa (i : Int) : readInt (itoa i) = i := by
  cases i with
  | ofNat n =>
    simp only [itoa]
    unfold readInt
    split
    · next ds hds => exact absurd (hds ▸ List.mem_cons_self) (minus_notMem_toDigits (n := n))
    · rw [Nat.ofDigitChars_ten_toDigits]
      rfl
  | negSucc n =>
    simp only [itoa, readInt, Nat.ofDigitChars_ten_toDigits]
    omega

theorem cut_marshal (port : Int32) (h : '"' ∉ addr) :
    (addr ++ marshalPort port).takeWhile (· ≠ '"') = addr ∧
      (addr ++ marshalPort port).dropWhile (· ≠ '"') = marshalPort port := by
  refine takeWhile_append_stop (fun c hc => decide_eq_true fun he => h (he ▸ hc)) ?_
  intro c hc
  have hq : (marshalPort port).head? = some '"' := by
    simp only [marshalPort]
    split <;> rfl
  rw [hq] at hc
  cases hc
  rfl

theorem readInt_marshalPort (port : Int32) :
    Int32.ofInt (readInt ((marshalPort port).drop portKey.length).dropLast) = port := by
  simp only [marshalPort]
  split
  · next h =>
    subst h
    decide
  · have hd : ((portKey ++ itoa port.toInt ++ "\x7d".toList).drop portKey.length).dropLast =
        itoa port.toInt := by
      rw [List.append_assoc, List.drop_left]
      exact List.dropLast_concat
    rw [hd, readInt_itoa, Int32.ofInt_toInt]

theorem unmarshal_marshal (h : '"' ∉ va.bindAddr) : unmarshal va.marshal = .address va := by
  have hbody : va.marshal.drop addressKey.length = va.bindAddr ++ marshalPort va.port := by
    rw [VirtualAddress.marshal, List.append_assoc, List.drop_left]
  obtain ⟨htake, hdrop⟩ := cut_marshal va.port h
  have hnull : va.marshal ≠ "null".toList := by
    intro h
    have := congrArg List.head? h
    revert this
    exact (by decide : ¬ some '\x7b' = some 'n')
  simp only [unmarshal, hbody, htake, hdrop, readInt_marshalPort]
  rw [if_neg hnull]
  exact if_pos trivial

theorem isAddressChar_range (h : isAddressChar c = true) : 46 ≤ c.toNat ∧ c.toNat ≤ 102 := by
  simp only [isAddressChar, Bool.or_eq_true, beq_iff_eq] at h
  obtain (h | rfl) | rfl := h
  · simp only [isHex, hexVal] at h
    split at h
    · next hc =>
      have h₁ : 48 ≤ c.toNat := hc.1
      have h₂ : c.toNat ≤ 57 := hc.2
      omega
    split at h
    · next hc =>
      have h₁ : 97 ≤ c.toNat := hc.1
      have h₂ : c.toNat ≤ 102 := hc.2
      omega
    split at h
    · next hc =>
      have h₁ : 65 ≤ c.toNat := hc.1
      have h₂ : c.toNat ≤ 70 := hc.2
      omega
    · cases h
  · decide
  · decide

/-- `Encode` and `ReturnTier2VirtualAddress`. -/
def jsonCodec : Codec where
  encode va := Base64.encode (utf8Encode va.marshal)
  decode data :=
    match Base64.decode data with
    | some b => unmarshal (utf8Decode b)
    | none => .error "illegal base64 data".toList
  decode_encode va h := by
    obtain ⟨ip, hip⟩ := Option.isSome_iff_exists.mp h
    have hchars := parseIP_chars hip
    have hquote : '"' ∉ va.bindAddr :=
      fun hq => absurd (isAddressChar_range (hchars _ hq)).1 (by decide)
    simp only [Base64.decode_encode _ utf8Encode_lt, utf8Decode_utf8Encode]
    exact unmarshal_marshal hquote

end BigipCtlr
