import BigipCtlr.Go.Net
import BigipCtlr.Lib.List
import BigipCtlr.Lib.Run

/-!
# JSON

Reading a JSON text as `encoding/json` does, into a value that keeps the order
and the repetition of keys. Numbers stay text.
-/

namespace BigipCtlr.Go

inductive Json
  | null
  | bool (b : Bool)
  | number (text : Str)
  | string (s : Str)
  | array (elements : List Json)
  | object (members : List (Str × Json))

namespace Json

-- ---------------------------------------------------------------------------
-- Strings
-- ---------------------------------------------------------------------------

def hex4 (a b c d : Char) : Option Nat := do
  let a ← hexVal a
  let b ← hexVal b
  let c ← hexVal c
  let d ← hexVal d
  some (((a * 16 + b) * 16 + c) * 16 + d)

def escaped : Char → Option Nat
  | '"' => some 34
  | '\\' => some 92
  | '/' => some 47
  | 'b' => some 8
  | 'f' => some 12
  | 'n' => some 10
  | 'r' => some 13
  | 't' => some 9
  | _ => none

/-- The code points of a string up to its closing quote, surrogates as they
were escaped, and what follows it. -/
def codePoints : Str → Option (List Nat × Str)
  | [] => none
  | '"' :: rest => some ([], rest)
  | '\\' :: 'u' :: a :: b :: c :: d :: rest => do
    let n ← hex4 a b c d
    let (ns, rest) ← codePoints rest
    some (n :: ns, rest)
  | '\\' :: e :: rest => do
    let n ← escaped e
    let (ns, rest) ← codePoints rest
    some (n :: ns, rest)
  | c :: rest =>
    if c = '\\' ∨ c.toNat < 32 then none
    else do
      let (ns, rest) ← codePoints rest
      some (c.toNat :: ns, rest)

def isSurrogate (n : Nat) : Bool := 0xD800 ≤ n && n < 0xE000

def rune (n : Nat) : Char := if isSurrogate n then Char.ofNat 0xFFFD else Char.ofNat n

/-- Two surrogates that make a pair are one character, any other is replaced. -/
def runes : List Nat → Str
  | [] => []
  | [n] => [rune n]
  | hi :: lo :: rest =>
    if 0xD800 ≤ hi ∧ hi < 0xDC00 ∧ 0xDC00 ≤ lo ∧ lo < 0xE000 then
      Char.ofNat (0x10000 + (hi - 0xD800) * 0x400 + (lo - 0xDC00)) :: runes rest
    else rune hi :: runes (lo :: rest)

def readString (s : Str) : Option (Str × Str) :=
  (codePoints s).map fun (ns, rest) => (runes ns, rest)

-- ---------------------------------------------------------------------------
-- Numbers
-- ---------------------------------------------------------------------------

def readDigits (s : Str) : Option (Str × Str) :=
  let ds := s.takeWhile Char.isDigit
  if ds = [] then none else some (ds, s.dropWhile Char.isDigit)

def readInteger : Str → Option (Str × Str)
  | '0' :: rest => some (['0'], rest)
  | s => readDigits s

def readFraction : Str → Option (Str × Str)
  | '.' :: rest => (readDigits rest).map fun (ds, rest) => ('.' :: ds, rest)
  | s => some ([], s)

def readExponent : Str → Option (Str × Str)
  | e :: rest =>
    if e = 'e' ∨ e = 'E' then
      match rest with
      | sign :: rest' =>
        if sign = '+' ∨ sign = '-' then (readDigits rest').map fun (ds, rest) =>
          (e :: sign :: ds, rest)
        else (readDigits rest).map fun (ds, rest) => (e :: ds, rest)
      | [] => none
    else some ([], e :: rest)
  | [] => some ([], [])

def readNumber (s : Str) : Option (Str × Str) := do
  let (sign, s) := match s with
    | '-' :: rest => (['-'], rest)
    | s => ([], s)
  let (int, s) ← readInteger s
  let (frac, s) ← readFraction s
  let (exp, s) ← readExponent s
  some (sign ++ int ++ frac ++ exp, s)

-- ---------------------------------------------------------------------------
-- Values
-- ---------------------------------------------------------------------------

def isSpace (c : Char) : Bool := c == ' ' || c == '\t' || c == '\r' || c == '\n'

def skipSpace (s : Str) : Str := s.dropWhile isSpace

def readLiteral (s word : Str) (value : Json) : Option (Json × Str) :=
  if hasPrefix s word then some (value, s.drop word.length) else none

mutual
def readValue : Nat → Str → Option (Json × Str)
  | 0, _ => none
  | n + 1, s =>
    match skipSpace s with
    | '"' :: rest => (readString rest).map fun (s, rest) => (.string s, rest)
    | '[' :: rest =>
      match skipSpace rest with
      | ']' :: rest => some (.array [], rest)
      | rest => (readElements n rest).map fun (js, rest) => (.array js, rest)
    | '\x7b' :: rest =>
      match skipSpace rest with
      | '\x7d' :: rest => some (.object [], rest)
      | rest => (readMembers n rest).map fun (ms, rest) => (.object ms, rest)
    | 'n' :: rest => readLiteral ('n' :: rest) "null".toList .null
    | 't' :: rest => readLiteral ('t' :: rest) "true".toList (.bool true)
    | 'f' :: rest => readLiteral ('f' :: rest) "false".toList (.bool false)
    | s => (readNumber s).map fun (text, rest) => (.number text, rest)
def readElements : Nat → Str → Option (List Json × Str)
  | 0, _ => none
  | n + 1, s => do
    let (j, s) ← readValue n s
    match skipSpace s with
    | ']' :: rest => some ([j], rest)
    | ',' :: rest =>
      let (js, rest) ← readElements n rest
      some (j :: js, rest)
    | _ => none
def readMembers : Nat → Str → Option (List (Str × Json) × Str)
  | 0, _ => none
  | n + 1, s =>
    match skipSpace s with
    | '"' :: rest => do
      let (key, s) ← readString rest
      match skipSpace s with
      | ':' :: rest =>
        let (j, s) ← readValue n rest
        match skipSpace s with
        | '\x7d' :: rest => some ([(key, j)], rest)
        | ',' :: rest =>
          let (ms, rest) ← readMembers n rest
          some ((key, j) :: ms, rest)
        | _ => none
      | _ => none
    | _ => none
end

/-- The value of a whole text; no call nests deeper than the text is long
twice over. `none` is a syntax error. -/
def parse (s : Str) : Option Json :=
  match readValue (2 * s.length + 2) s with
  | some (j, rest) => if skipSpace rest = [] then some j else none
  | none => none

-- ---------------------------------------------------------------------------
-- Unmarshal
-- ---------------------------------------------------------------------------

/-- The letters that a key of an object and the name of a field may differ in:
by case, and as the long s and the Kelvin sign. -/
def foldKey (key : Str) : Str :=
  key.map fun c => if c.toNat = 0x17F then 's' else if c.toNat = 0x212A then 'k' else c.toLower

/-- A slice that is filled in: the first `len` elements of its array. -/
structure Slice (α : Type) where
  array : List α
  len : Nat
  deriving DecidableEq

def Slice.elements (s : Slice α) : List α := s.array.take s.len

/-- Elements are read over those in the array, also where a key is there twice. -/
def readSlice (read : Option α → Json → Except ε α) (badType : ε) (old : Slice α) :
    Json → Except ε (Slice α)
  | .null => .ok ⟨[], 0⟩
  | .array [] => .ok ⟨[], 0⟩
  | .array js => do
    let elements ← js.zipIdx.mapM fun (j, i) => read old.array[i]? j
    .ok ⟨elements ++ old.array.drop js.length, js.length⟩
  | _ => .error badType

theorem readSlice_elements {read : Option α → Json → Except ε α}
    (h : readSlice read badType old j = .ok s) :
    (j = .null ∧ s.elements = []) ∨
      ∃ js, j = .array js ∧ js.zipIdx.map (fun x => read old.array[x.2]? x.1) =
        s.elements.map .ok := by
  cases j with
  | null =>
    cases h
    exact .inl ⟨rfl, rfl⟩
  | array js =>
    refine .inr ⟨js, rfl, ?_⟩
    cases js with
    | nil =>
      cases h
      rfl
    | cons j js =>
      obtain ⟨elements, hread, h⟩ := Lib.bind_ok h
      cases h
      rw [Lib.mapM_eq_ok] at hread
      have hlen : (j :: js).length = elements.length := by simpa using congrArg List.length hread
      rw [Slice.elements, hlen, List.take_left]
      exact hread
  | _ => cases h

def integer : Str → Option Int
  | '-' :: ds => if ds.all Char.isDigit then some (-(Nat.ofDigitChars 10 ds 0 : Int)) else none
  | ds => if ds.all Char.isDigit then some (Nat.ofDigitChars 10 ds 0) else none

end Json

end BigipCtlr.Go
