import BigipCtlr.Go.Utf8

/-!
# Base64

`base64.StdEncoding` on bytes, written as characters: three bytes become four
digits of six bits, the last group is padded. The line breaks that the decoder
skips are not read here.
-/

namespace BigipCtlr.Go.Base64

def digits : Str := "ABCDEFGHIJKLMNOPQRSTUVWXYZabcdefghijklmnopqrstuvwxyz0123456789+/".toList

def digit (n : Nat) : Char := digits.getD n 'A'

def value (c : Char) : Option Nat := digits.idxOf? c

def group (k : Nat) (a b c : Nat) : Str :=
  let n := a * 65536 + b * 256 + c
  ([n / 64 / 64 / 64, n / 64 / 64 % 64, n / 64 % 64, n % 64].take k).map digit

def bytes (k : Nat) (w x y z : Nat) : Str :=
  let n := w * 262144 + x * 4096 + y * 64 + z
  ([n / 256 / 256, n / 256 % 256, n % 256].take k).map Char.ofNat

def encode : Str → Str
  | [] => []
  | [a] => group 2 a.toNat 0 0 ++ ['=', '=']
  | [a, b] => group 3 a.toNat b.toNat 0 ++ ['=']
  | a :: b :: c :: rest => group 4 a.toNat b.toNat c.toNat ++ encode rest

def decode : Str → Option Str
  | [] => some []
  | w :: x :: y :: z :: rest => do
    let w ← value w
    let x ← value x
    if rest = [] ∧ y = '=' ∧ z = '=' then some (bytes 1 w x 0 0)
    else
      let y ← value y
      if rest = [] ∧ z = '=' then some (bytes 2 w x y 0)
      else
        let z ← value z
        let rest ← decode rest
        some (bytes 3 w x y z ++ rest)
  | _ => none

theorem value_digit : ∀ n < 64, value (digit n) = some n := by decide +kernel

theorem digit_ne_pad : ∀ n < 64, digit n ≠ '=' := by decide +kernel

theorem decode_one (hw : w < 64) (hx : x < 64) :
    decode [digit w, digit x, '=', '='] = some (bytes 1 w x 0 0) := by
  simp [decode, value_digit, hw, hx]

theorem decode_two (hw : w < 64) (hx : x < 64) (hy : y < 64) :
    decode [digit w, digit x, digit y, '='] = some (bytes 2 w x y 0) := by
  simp [decode, value_digit, digit_ne_pad, hw, hx, hy]

theorem decode_three (hw : w < 64) (hx : x < 64) (hy : y < 64) (hz : z < 64)
    (h : decode rest = some s) :
    decode (digit w :: digit x :: digit y :: digit z :: rest) = some (bytes 3 w x y z ++ s) := by
  simp [decode, value_digit, digit_ne_pad, hw, hx, hy, hz, h]

theorem join_digits (n : Nat) :
    n / 64 / 64 / 64 * 262144 + n / 64 / 64 % 64 * 4096 + n / 64 % 64 * 64 + n % 64 = n := by omega

theorem bytes_join (hb : b < 256) (hc : c < 256)
    (h : w * 262144 + x * 4096 + y * 64 + z = a * 65536 + b * 256 + c) :
    bytes k w x y z = ([a, b, c].take k).map Char.ofNat := by
  have h₁ : (a * 65536 + b * 256 + c) / 256 / 256 = a := by omega
  have h₂ : (a * 65536 + b * 256 + c) / 256 % 256 = b := by omega
  have h₃ : (a * 65536 + b * 256 + c) % 256 = c := by omega
  simp only [bytes, h, h₁, h₂, h₃]

theorem decode_encode (s : Str) (h : ∀ c ∈ s, c.toNat < 256) : decode (encode s) = some s := by
  induction s using encode.induct with
  | case1 => rfl
  | case2 a =>
    have ha : a.toNat < 256 := h a (by simp)
    refine (decode_one (by omega) (by omega)).trans ?_
    rw [bytes_join (a := a.toNat) (b := 0) (c := 0) (by omega) (by omega) (by omega)]
    simp
  | case3 a b =>
    have ha : a.toNat < 256 := h a (by simp)
    have hb : b.toNat < 256 := h b (by simp)
    refine (decode_two (by omega) (by omega) (by omega)).trans ?_
    rw [bytes_join (a := a.toNat) hb (c := 0) (by omega) (by omega)]
    simp
  | case4 a b c rest ih =>
    have ha : a.toNat < 256 := h a (by simp)
    have hb : b.toNat < 256 := h b (by simp)
    have hc : c.toNat < 256 := h c (by simp)
    have hrest := ih fun d hd => h d (by simp [hd])
    refine (decode_three (by omega) (by omega) (by omega) (by omega) hrest).trans ?_
    rw [bytes_join hb hc (join_digits _)]
    simp

end BigipCtlr.Go.Base64
