import BigipCtlr.Go.Float64
import BigipCtlr.Go.Strings

/-!
# Reading numbers and durations

`strconv.ParseInt` in base ten and `time.ParseDuration`: a sign, then numbers
with a unit each, which are summed. A sum that does not fit 64 bits is an
error. Errors are their texts, with the string that was read.
-/

namespace BigipCtlr.Go

def readSign : Str → Bool × Str
  | '-' :: s => (true, s)
  | '+' :: s => (false, s)
  | s => (false, s)

theorem readSign_digit (h : c.isDigit = true) (s : Str) : readSign (c :: s) = (false, c :: s) := by
  have hminus : c ≠ '-' := by
    rintro rfl
    cases h
  have hplus : c ≠ '+' := by
    rintro rfl
    cases h
  simp [readSign, hminus, hplus]

theorem toDigits_eq_cons (n : Nat) :
    ∃ e ds, Nat.toDigits 10 n = e :: ds ∧ e.isDigit = true ∧
      ∀ c ∈ Nat.toDigits 10 n, c.isDigit = true := by
  have hdigits : ∀ c ∈ Nat.toDigits 10 n, c.isDigit = true := fun c hc =>
    Nat.isDigit_of_mem_toDigits (by omega) (by omega) hc
  obtain ⟨e, ds, hds⟩ := List.exists_cons_of_ne_nil (Nat.toDigits_ne_nil (n := n) (b := 10))
  exact ⟨e, ds, hds, hdigits e (hds ▸ List.mem_cons_self), hdigits⟩

-- ---------------------------------------------------------------------------
-- strconv.ParseInt
-- ---------------------------------------------------------------------------

def parseInt (s : Str) : Except Str Int64 :=
  let (neg, ds) := readSign s
  if ds = [] ∨ ds.all Char.isDigit = false then
    .error ("strconv.ParseInt: parsing \"".toList ++ s ++ "\": invalid syntax".toList)
  else
    let n := Nat.ofDigitChars 10 ds 0
    let cutoff := if neg then 2 ^ 63 + 1 else 2 ^ 63
    if cutoff ≤ n then
      .error ("strconv.ParseInt: parsing \"".toList ++ s ++ "\": value out of range".toList)
    else .ok (Int64.ofInt (if neg then -n else n))

theorem parseInt_toDigits (h : n < 2 ^ 63) :
    parseInt (Nat.toDigits 10 n) = .ok (Int64.ofInt n) := by
  obtain ⟨e, ds, hds, he, hdigits⟩ := toDigits_eq_cons n
  have hsign : readSign (Nat.toDigits 10 n) = (false, Nat.toDigits 10 n) := by
    rw [hds, readSign_digit he]
  have hsyntax : ¬ (Nat.toDigits 10 n = [] ∨ (Nat.toDigits 10 n).all Char.isDigit = false) := by
    rw [List.all_eq_true.mpr hdigits]
    simp
  have hrange : ¬ 2 ^ 63 ≤ n := by omega
  simp only [parseInt, hsign]
  rw [if_neg hsyntax, Nat.ofDigitChars_ten_toDigits]
  simp only [Bool.false_eq_true, if_false]
  rw [if_neg hrange]

-- ---------------------------------------------------------------------------
-- time.ParseDuration
-- ---------------------------------------------------------------------------

/-- The digits at the front as a number, after those of `x`, and the rest. A
number that does not fit is an error. -/
def leadingInt (x : Nat) : Str → Option (Nat × Str)
  | [] => some (x, [])
  | c :: s =>
    if c.isDigit then
      let x := 10 * x + (c.toNat - '0'.toNat)
      if 2 ^ 63 ≤ x then none else leadingInt x s
    else some (x, c :: s)

/-- The digits after the point, as a number and its scale; those that do not
fit are dropped. -/
def leadingFraction (x : Nat) (scale : ℚ) (overflow : Bool) : Str → Nat × ℚ × Str
  | [] => (x, scale, [])
  | c :: s =>
    if c.isDigit then
      let y := 10 * x + (c.toNat - '0'.toNat)
      if overflow || 2 ^ 63 ≤ y then leadingFraction x scale true s
      else leadingFraction y (float64 (scale * 10)) false s
    else (x, scale, c :: s)

/-- What stands between the number and its unit, if it is a fraction: its
digits, their scale, the rest, and whether there were any. -/
def readScaled : Str → Nat × ℚ × Str × Bool
  | '.' :: s =>
    let (f, scale, rest) := leadingFraction 0 1 false s
    (f, scale, rest, decide (s.length ≠ rest.length))
  | s => (0, 1, s, false)

def unitMap (u : Str) : Option Nat :=
  if u = "ns".toList then some 1
  else if u = "us".toList then some 1000
  else if u = "µs".toList then some 1000
  else if u = "μs".toList then some 1000
  else if u = "ms".toList then some 1000000
  else if u = "s".toList then some 1000000000
  else if u = "m".toList then some 60000000000
  else if u = "h".toList then some 3600000000000
  else none

def invalidDuration (orig : Str) : Str := "time: invalid duration ".toList ++ orig

def isUnitChar (c : Char) : Bool := !(c == '.' || c.isDigit)

/-- The loop over the numbers with their units, for at most `fuel` of them;
each takes a character at least. `d` is the sum so far. -/
def parseComponents (orig : Str) : Nat → Nat → Str → Except Str Nat
  | 0, d, _ => .ok d
  | fuel + 1, d, s =>
    if s = [] then .ok d
    else if s.head? ≠ some '.' ∧ (s.head?.all Char.isDigit) = false then
      .error (invalidDuration orig)
    else match leadingInt 0 s with
      | none => .error (invalidDuration orig)
      | some (v, s₁) =>
        let pre := s.length ≠ s₁.length
        let (f, scale, s₂, post) := readScaled s₁
        if ¬ pre ∧ post = false then .error (invalidDuration orig)
        else
          let u := s₂.takeWhile isUnitChar
          if u = [] then .error ("time: missing unit in duration ".toList ++ orig)
          else match unitMap u with
            | none => .error ("time: unknown unit ".toList ++ u ++ " in duration ".toList ++ orig)
            | some unit =>
              if (2 ^ 63 - 1) / unit < v then .error (invalidDuration orig)
              else
                let v :=
                  v * unit + (if 0 < f then (truncate (float64 (f * float64 (unit / scale)))).toNat
                    else 0)
                if 2 ^ 63 ≤ v then .error (invalidDuration orig)
                else if 2 ^ 63 ≤ d + v then .error (invalidDuration orig)
                else parseComponents orig fuel (d + v) (s₂.dropWhile isUnitChar)

def parseDuration (orig : Str) : Except Str Int64 :=
  let (neg, s) := readSign orig
  if s = "0".toList then .ok 0
  else if s = [] then .error (invalidDuration orig)
  else (parseComponents orig s.length 0 s).map fun d => Int64.ofInt (if neg then -d else d)

theorem le_ofDigitChars (ds : Str) (x : Nat) : x ≤ Nat.ofDigitChars 10 ds x := by
  induction ds generalizing x with
  | nil => exact Nat.le_refl x
  | cons c ds ih =>
    rw [Nat.ofDigitChars_cons]
    have := ih (10 * x + (c.toNat - '0'.toNat))
    omega

theorem leadingInt_append (hds : ∀ c ∈ ds, c.isDigit = true)
    (hlt : Nat.ofDigitChars 10 ds x < 2 ^ 63) (hr : ∀ c ∈ r.head?, c.isDigit = false) :
    leadingInt x (ds ++ r) = some (Nat.ofDigitChars 10 ds x, r) := by
  induction ds generalizing x with
  | nil =>
    match r with
    | [] => rfl
    | c :: r =>
      have hc : c.isDigit = false := hr c rfl
      simp [leadingInt, hc]
  | cons c ds ih =>
    rw [Nat.ofDigitChars_cons] at hlt ⊢
    have hle := le_ofDigitChars ds (10 * x + (c.toNat - '0'.toNat))
    rw [List.cons_append, leadingInt, if_pos (hds c List.mem_cons_self)]
    simp only
    rw [if_neg (by omega)]
    exact ih (fun e he => hds e (List.mem_cons_of_mem _ he)) hlt

theorem leadingInt_toDigits (h : n < 2 ^ 63) (hr : ∀ c ∈ r.head?, c.isDigit = false) :
    leadingInt 0 (Nat.toDigits 10 n ++ r) = some (n, r) := by
  obtain ⟨-, -, -, -, hdigits⟩ := toDigits_eq_cons n
  have :=
    @leadingInt_append (Nat.toDigits 10 n) 0 r hdigits (by rwa [Nat.ofDigitChars_ten_toDigits]) hr
  rwa [Nat.ofDigitChars_ten_toDigits] at this

theorem parseComponents_digits (hu : ∀ c ∈ u, isUnitChar c = true) (hne : u ≠ [])
    (hunit : unitMap u = some unit) (hpos : 0 < unit)
    (hrest : ∀ c ∈ rest.head?, isUnitChar c = false) (hfits : d + n * unit < 2 ^ 63) :
    parseComponents orig (fuel + 1) d (Nat.toDigits 10 n ++ (u ++ rest)) =
      parseComponents orig fuel (d + n * unit) rest := by
  have hle : n ≤ n * unit := Nat.le_mul_of_pos_right n hpos
  obtain ⟨c, v, rfl⟩ := List.exists_cons_of_ne_nil hne
  have hc := hu c List.mem_cons_self
  simp only [isUnitChar, Bool.not_eq_true', Bool.or_eq_false_iff, beq_eq_false_iff_ne] at hc
  obtain ⟨e, ds, hds, he, -⟩ := toDigits_eq_cons n
  have hint : leadingInt 0 (Nat.toDigits 10 n ++ (c :: v ++ rest)) = some (n, c :: v ++ rest) := by
    refine leadingInt_toDigits (by omega) ?_
    rintro x ⟨⟩
    exact hc.2
  have hscaled : readScaled (c :: v ++ rest) = (0, 1, c :: v ++ rest, false) := by
    simp [readScaled, hc.1]
  have hlen : (Nat.toDigits 10 n ++ (c :: v ++ rest)).length ≠ (c :: v ++ rest).length := by
    simp only [hds, List.length_append, List.length_cons]
    omega
  have hbound : ¬ (2 ^ 63 - 1) / unit < n := by
    rw [Nat.div_lt_iff_lt_mul hpos]
    omega
  obtain ⟨htake, hdrop⟩ := takeWhile_append_stop hu hrest
  rw [parseComponents, if_neg (by simp [hds]), if_neg (by simp [hds, he]), hint]
  simp only [hscaled, htake, hdrop, hunit]
  rw [if_neg (fun hnone => hnone.1 hlen), if_neg (List.cons_ne_nil c v), if_neg hbound,
    if_neg (Nat.lt_irrefl 0), Nat.add_zero, if_neg (by omega), if_neg (by omega)]

@[simp] theorem parseComponents_nil (orig : Str) (fuel d : Nat) :
    parseComponents orig fuel d [] = .ok d := by
  cases fuel <;> rfl

def hmsText (h m s : Nat) : Str :=
  Nat.toDigits 10 h ++
    ("h".toList ++ (Nat.toDigits 10 m ++ ("m".toList ++ (Nat.toDigits 10 s ++ ("s".toList ++ [])))))

theorem parseComponents_hms (hfits : (h * 3600 + m * 60 + s) * 1000000000 < 2 ^ 63)
    (orig : Str) (fuel : Nat) :
    parseComponents orig (fuel + 3) 0 (hmsText h m s) =
      .ok ((h * 3600 + m * 60 + s) * 1000000000) := by
  have hdigit : ∀ (n : Nat) (t : Str), ∀ c ∈ (Nat.toDigits 10 n ++ t).head?,
      isUnitChar c = false := by
    intro n t c hc
    obtain ⟨e, ds, hds, he, -⟩ := toDigits_eq_cons n
    rw [hds] at hc
    cases hc
    simp [isUnitChar, he]
  rw [hmsText, parseComponents_digits (u := "h".toList) (forall_mem_of_all (by decide)) (by decide)
      (by decide : unitMap _ = some 3600000000000) (by decide) (hdigit m _) (by omega),
    parseComponents_digits (u := "m".toList) (forall_mem_of_all (by decide)) (by decide)
      (by decide : unitMap _ = some 60000000000) (by decide) (hdigit s _) (by omega),
    parseComponents_digits (u := "s".toList) (forall_mem_of_all (by decide)) (by decide)
      (by decide : unitMap _ = some 1000000000) (by decide) (by simp) (by omega),
    parseComponents_nil]
  congr 1
  omega

theorem parseDuration_hms (hfits : (h * 3600 + m * 60 + s) * 1000000000 < 2 ^ 63) :
    parseDuration (hmsText h m s) =
      .ok (Int64.ofInt (((h * 3600 + m * 60 + s) * 1000000000 : Nat) : Int)) := by
  obtain ⟨e, ds, hds, he, -⟩ := toDigits_eq_cons h
  have hsign : readSign (hmsText h m s) = (false, hmsText h m s) := by
    rw [hmsText, hds, List.cons_append, readSign_digit he]
  have hlen : 3 ≤ (hmsText h m s).length := by
    obtain ⟨_, _, hm, -⟩ := toDigits_eq_cons m
    obtain ⟨_, _, hs, -⟩ := toDigits_eq_cons s
    simp only [hmsText, hds, hm, hs, List.length_append, List.length_cons, String.length_toList]
    omega
  obtain ⟨fuel, hfuel⟩ : ∃ fuel, (hmsText h m s).length = fuel + 3 :=
    ⟨(hmsText h m s).length - 3, by omega⟩
  have hzero : hmsText h m s ≠ "0".toList := by
    intro heq
    rw [heq] at hlen
    exact absurd hlen (by decide)
  have hnil : hmsText h m s ≠ [] := by
    intro heq
    rw [heq] at hlen
    exact absurd hlen (by decide)
  simp only [parseDuration, hsign]
  rw [if_neg hzero, if_neg hnil, hfuel, parseComponents_hms hfits]
  rfl

end BigipCtlr.Go
