import BigipCtlr.Go.Utf8

/-!
# `crypto/sha256`

The hash of FIPS 180-4, which names the objects of a route.
-/

namespace BigipCtlr.Go.Sha256

def roundConstants : List UInt32 := [
  0x428a2f98, 0x71374491, 0xb5c0fbcf, 0xe9b5dba5, 0x3956c25b, 0x59f111f1, 0x923f82a4, 0xab1c5ed5,
  0xd807aa98, 0x12835b01, 0x243185be, 0x550c7dc3, 0x72be5d74, 0x80deb1fe, 0x9bdc06a7, 0xc19bf174,
  0xe49b69c1, 0xefbe4786, 0x0fc19dc6, 0x240ca1cc, 0x2de92c6f, 0x4a7484aa, 0x5cb0a9dc, 0x76f988da,
  0x983e5152, 0xa831c66d, 0xb00327c8, 0xbf597fc7, 0xc6e00bf3, 0xd5a79147, 0x06ca6351, 0x14292967,
  0x27b70a85, 0x2e1b2138, 0x4d2c6dfc, 0x53380d13, 0x650a7354, 0x766a0abb, 0x81c2c92e, 0x92722c85,
  0xa2bfe8a1, 0xa81a664b, 0xc24b8b70, 0xc76c51a3, 0xd192e819, 0xd6990624, 0xf40e3585, 0x106aa070,
  0x19a4c116, 0x1e376c08, 0x2748774c, 0x34b0bcb5, 0x391c0cb3, 0x4ed8aa4a, 0x5b9cca4f, 0x682e6ff3,
  0x748f82ee, 0x78a5636f, 0x84c87814, 0x8cc70208, 0x90befffa, 0xa4506ceb, 0xbef9a3f7, 0xc67178f2]

structure Digest where
  (a b c d e f g h : UInt32)

def Digest.init : Digest :=
  ⟨0x6a09e667, 0xbb67ae85, 0x3c6ef372, 0xa54ff53a, 0x510e527f, 0x9b05688c, 0x1f83d9ab, 0x5be0cd19⟩

def Digest.words (x : Digest) : List UInt32 := [x.a, x.b, x.c, x.d, x.e, x.f, x.g, x.h]

def Digest.add (x y : Digest) : Digest :=
  ⟨x.a + y.a, x.b + y.b, x.c + y.c, x.d + y.d, x.e + y.e, x.f + y.f, x.g + y.g, x.h + y.h⟩

def rotr (x : UInt32) (n : UInt32) : UInt32 := (x >>> n) ||| (x <<< (32 - n))

def bigEndian (width n : Nat) : List UInt8 :=
  (List.range width).map fun i => UInt8.ofNat (n >>> (8 * (width - 1 - i)))

/-- The message, a one bit, zeros, and the length in bits: whole blocks. -/
def pad (msg : List UInt8) : List UInt8 :=
  msg ++ 0x80 :: List.replicate ((119 - msg.length % 64) % 64) 0 ++ bigEndian 8 (8 * msg.length)

def word (bs : List UInt8) : UInt32 := bs.foldl (fun w b => w <<< 8 ||| b.toUInt32) 0

def chunks : Nat → Nat → List α → List (List α)
  | 0, _, _ => []
  | n + 1, k, l => l.take k :: chunks n k (l.drop k)

/-- The message schedule, newest word first. -/
def schedule : Nat → List UInt32 → List UInt32
  | 0, w => w
  | n + 1, w =>
    let s0 x := rotr x 7 ^^^ rotr x 18 ^^^ (x >>> 3)
    let s1 x := rotr x 17 ^^^ rotr x 19 ^^^ (x >>> 10)
    schedule n ((s1 (w.getD 1 0) + w.getD 6 0 + s0 (w.getD 14 0) + w.getD 15 0) :: w)

def round (x : Digest) (kw : UInt32 × UInt32) : Digest :=
  let s1 := rotr x.e 6 ^^^ rotr x.e 11 ^^^ rotr x.e 25
  let ch := (x.e &&& x.f) ^^^ (~~~ x.e &&& x.g)
  let t1 := x.h + s1 + ch + kw.1 + kw.2
  let s0 := rotr x.a 2 ^^^ rotr x.a 13 ^^^ rotr x.a 22
  let maj := (x.a &&& x.b) ^^^ (x.a &&& x.c) ^^^ (x.b &&& x.c)
  ⟨t1 + (s0 + maj), x.a, x.b, x.c, x.d + t1, x.e, x.f, x.g⟩

def compress (x : Digest) (block : List UInt8) : Digest :=
  let w := (schedule 48 ((chunks 16 4 block).map word).reverse).reverse
  x.add ((roundConstants.zip w).foldl round x)

def sum256 (s : Str) : List UInt8 :=
  let msg := pad (utf8Bytes s)
  let x := (chunks (msg.length / 64) 64 msg).foldl compress Digest.init
  x.words.flatMap fun w => bigEndian 4 w.toNat

end BigipCtlr.Go.Sha256
