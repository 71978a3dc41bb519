import BigipCtlr.Go.Strings

/-!
# The bytes of a text

Go's strings are bytes, and here they are texts: what works on bytes encodes
its argument first. A byte is written as the character of its code, so that a
text of ASCII characters is its own encoding.
-/

namespace BigipCtlr.Go

def byteOf (b : UInt8) : Char := Char.ofNat b.toNat

def utf8Bytes (s : Str) : List UInt8 := s.flatMap String.utf8EncodeChar

def utf8Encode (s : Str) : Str := (utf8Bytes s).map byteOf

def isContinuation (b : Char) : Bool := 0x80 ≤ b.toNat && b.toNat < 0xC0

/-- `utf8.DecodeRune`: the character that bytes start with, and how many bytes
after the first it takes. Bytes that encode none are read as U+FFFD. -/
def decodeRune (a : Char) (rest : Str) : Char × Nat :=
  let invalid := (Char.ofNat 0xFFFD, 0)
  if a.toNat < 0x80 then (a, 0)
  else if a.toNat < 0xE0 then
    match rest with
    | b :: _ =>
      let v := (a.toNat - 0xC0) * 64 + (b.toNat - 0x80)
      if isContinuation b ∧ 0xC0 ≤ a.toNat ∧ 0x80 ≤ v then (Char.ofNat v, 1) else invalid
    | _ => invalid
  else if a.toNat < 0xF0 then
    match rest with
    | b :: c :: _ =>
      let v := (a.toNat - 0xE0) * 4096 + (b.toNat - 0x80) * 64 + (c.toNat - 0x80)
      if isContinuation b ∧ isContinuation c ∧ 0x800 ≤ v ∧ v.isValidChar then (Char.ofNat v, 2)
      else invalid
    | _ => invalid
  else
    match rest with
    | b :: c :: d :: _ =>
      let v := (a.toNat - 0xF0) * 262144 + (b.toNat - 0x80) * 4096 + (c.toNat - 0x80) * 64 +
        (d.toNat - 0x80)
      if isContinuation b ∧ isContinuation c ∧ isContinuation d ∧ 0x10000 ≤ v ∧ v.isValidChar then
        (Char.ofNat v, 3)
      else invalid
    | _ => invalid

def decodeFrom : Nat → Str → Str
  | _, [] => []
  | skip + 1, _ :: rest => decodeFrom skip rest
  | 0, a :: rest => (decodeRune a rest).1 :: decodeFrom (decodeRune a rest).2 rest

def utf8Decode (b : Str) : Str := decodeFrom 0 b

-- ---------------------------------------------------------------------------
-- Encoding
-- ---------------------------------------------------------------------------

theorem toNat_byteOf (b : UInt8) : (byteOf b).toNat = b.toNat := by
  have hvalid : b.toNat.isValidChar := .inl (Nat.lt_trans b.toNat_lt (by decide))
  rw [byteOf, Char.ofNat, dif_pos hvalid]
  rfl

theorem toNat_byteOf_ofNat (h : n < 256) : (byteOf (UInt8.ofNat n)).toNat = n := by
  rw [toNat_byteOf, UInt8.toNat_ofNat', Nat.mod_eq_of_lt h]

theorem utf8Encode_lt : ∀ c ∈ utf8Encode s, c.toNat < 256 := by
  intro c hc
  obtain ⟨b, -, rfl⟩ := List.mem_map.mp hc
  rw [toNat_byteOf]
  exact b.toNat_lt

theorem utf8Encode_append (s t : Str) : utf8Encode (s ++ t) = utf8Encode s ++ utf8Encode t := by
  simp [utf8Encode, utf8Bytes]

theorem utf8Encode_cons (c : Char) (s : Str) :
    utf8Encode (c :: s) = (String.utf8EncodeChar c).map byteOf ++ utf8Encode s := by
  simp [utf8Encode, utf8Bytes]

theorem encodeChar_ascii (h : c.toNat < 0x80) : (String.utf8EncodeChar c).map byteOf = [c] := by
  have hv : c.val.toNat ≤ 127 := Nat.le_of_lt_succ h
  rw [String.utf8EncodeChar, if_pos hv, List.map_singleton]
  refine congrArg (fun x => [x]) (Char.toNat_inj.mp ?_)
  exact toNat_byteOf_ofNat (Nat.lt_of_le_of_lt hv (by decide))

theorem utf8Encode_ascii (h : ∀ c ∈ s, c.toNat < 0x80) : utf8Encode s = s := by
  induction s with
  | nil => rfl
  | cons c s ih =>
    rw [utf8Encode_cons, encodeChar_ascii (h c List.mem_cons_self),
      ih fun x hx => h x (List.mem_cons_of_mem _ hx)]
    rfl

theorem encodeChar_other (h : 0x80 ≤ c.toNat) (hb : b ∈ (String.utf8EncodeChar c).map byteOf) :
    0x80 ≤ b.toNat := by
  have hv : ¬ c.val.toNat ≤ 127 := Nat.not_le_of_lt h
  obtain ⟨x, hx, rfl⟩ := List.mem_map.mp hb
  rw [toNat_byteOf]
  rw [String.utf8EncodeChar, if_neg hv] at hx
  split_ifs at hx
  all_goals
    simp only [List.mem_cons, List.not_mem_nil, or_false] at hx
    rcases hx with rfl | rfl | rfl | rfl <;> rw [UInt8.toNat_ofNat'] <;> omega

-- ---------------------------------------------------------------------------
-- Decoding
-- ---------------------------------------------------------------------------

theorem decodeFrom_eq (n : Nat) (s : Str) : decodeFrom n s = utf8Decode (s.drop n) := by
  induction n generalizing s with
  | zero => rfl
  | succ n ih =>
    cases s with
    | nil => rfl
    | cons a s => exact ih s

theorem utf8Decode_cons (a : Char) (s : Str) :
    utf8Decode (a :: s) = (decodeRune a s).1 :: utf8Decode (s.drop (decodeRune a s).2) := by
  rw [utf8Decode, decodeFrom, decodeFrom_eq]

theorem decodeRune_ascii (h : a.toNat < 0x80) (rest : Str) : decodeRune a rest = (a, 0) :=
  if_pos h

theorem decodeRune_encodeChar (c : Char) (s : Str) :
    ∃ a rest, (String.utf8EncodeChar c).map byteOf = a :: rest ∧
      decodeRune a (rest ++ s) = (c, rest.length) := by
  have hvalid : c.val.toNat.isValidChar := c.valid
  have hc : Char.ofNat c.val.toNat = c := Char.ofNat_toNat c
  by_cases h₁ : c.val.toNat ≤ 127
  · exact ⟨c, [], encodeChar_ascii (Nat.lt_succ_of_le h₁),
      decodeRune_ascii (Nat.lt_succ_of_le h₁) _⟩
  rw [String.utf8EncodeChar, if_neg h₁]
  -- from here on only the number of the character counts
  generalize c.val.toNat = v at hvalid hc h₁ ⊢
  have hlt : v < 0x110000 := by
    rcases hvalid with h | h <;> omega
  have hlast := toNat_byteOf_ofNat (show v % 64 + 128 < 256 by omega)
  have hmid := toNat_byteOf_ofNat (show v / 64 % 64 + 128 < 256 by omega)
  by_cases h₂ : v ≤ 2047
  · rw [if_pos h₂]
    refine ⟨_, _, rfl, ?_⟩
    have hfirst := toNat_byteOf_ofNat (show v / 64 % 32 + 192 < 256 by omega)
    have hv : (v / 64 % 32 + 192 - 192) * 64 + (v % 64 + 128 - 128) = v := by omega
    simp only [decodeRune, List.map_cons, List.map_nil, List.cons_append, List.nil_append,
      isContinuation, hfirst, hlast, hv, hc, List.length_cons, List.length_nil]
    rw [if_neg (by omega), if_pos (by omega), if_pos (by simp; omega)]
  by_cases h₃ : v ≤ 65535
  · rw [if_neg h₂, if_pos h₃]
    refine ⟨_, _, rfl, ?_⟩
    have hfirst := toNat_byteOf_ofNat (show v / 4096 % 16 + 224 < 256 by omega)
    have hv : (v / 4096 % 16 + 224 - 224) * 4096 + (v / 64 % 64 + 128 - 128) * 64 +
        (v % 64 + 128 - 128) = v := by omega
    simp only [decodeRune, List.map_cons, List.map_nil, List.cons_append, List.nil_append,
      isContinuation, hfirst, hmid, hlast, hv, hc, List.length_cons, List.length_nil]
    rw [if_neg (by omega), if_neg (by omega), if_pos (by omega), if_pos (by simp [hvalid]; omega)]
  · rw [if_neg h₂, if_neg h₃]
    refine ⟨_, _, rfl, ?_⟩
    have hfirst := toNat_byteOf_ofNat (show v / 262144 % 8 + 240 < 256 by omega)
    have hsecond := toNat_byteOf_ofNat (show v / 4096 % 64 + 128 < 256 by omega)
    have hv : (v / 262144 % 8 + 240 - 240) * 262144 + (v / 4096 % 64 + 128 - 128) * 4096 +
        (v / 64 % 64 + 128 - 128) * 64 + (v % 64 + 128 - 128) = v := by omega
    simp only [decodeRune, List.map_cons, List.map_nil, List.cons_append, List.nil_append,
      isContinuation, hfirst, hsecond, hmid, hlast, hv, hc, List.length_cons, List.length_nil]
    rw [if_neg (by omega), if_neg (by omega), if_neg (by omega), if_pos (by simp [hvalid]; omega)]

theorem utf8Decode_encodeChar (c : Char) (s : Str) :
    utf8Decode ((String.utf8EncodeChar c).map byteOf ++ s) = c :: utf8Decode s := by
  obtain ⟨a, rest, hbytes, hrune⟩ := decodeRune_encodeChar c s
  rw [hbytes, List.cons_append, utf8Decode_cons, hrune, List.drop_left]

theorem utf8Decode_utf8Encode (s : Str) : utf8Decode (utf8Encode s) = s := by
  induction s with
  | nil => rfl
  | cons c s ih => rw [utf8Encode_cons, utf8Decode_encodeChar, ih]

theorem ascii_initial_of_utf8Encode (hd : d.toNat < 0x80) (h : [d] <+: utf8Encode s) :
    [d] <+: s := by
  obtain ⟨t, ht⟩ := h
  have hs := utf8Decode_utf8Encode s
  rw [← ht, List.singleton_append, utf8Decode_cons, decodeRune_ascii hd] at hs
  exact ⟨_, hs⟩

end BigipCtlr.Go
