import BigipCtlr.Go.Duration
import BigipCtlr.Go.ParseDuration
import Mathlib.Data.List.DropRight

/-!
# Durations in JSON

The `Duration` of package `schema` is written as days, hours, minutes and
seconds, and read back through `time.ParseDuration`, which has no days: they
are added to the hours first. Indexing past the end panics, which is `none`.
-/

namespace BigipCtlr

open Go

/-- `d.Seconds()`: the seconds and the part of one are added as float64. -/
def seconds (d : Int64) : ℚ :=
  let sec := d / 1000000000
  let nsec := d % 1000000000
  float64 (float64 sec.toInt + float64 (float64 nsec.toInt / 1000000000))

def formatDuration (d : Int64) : Str :=
  let t := Int64.ofInt (truncate (seconds d))
  let day := t / (60 * 60 * 24)
  let t := t % (60 * 60 * 24)
  let hour := t / (60 * 60)
  let t := t % (60 * 60)
  let min := t / 60
  let sec := t % 60
  itoa day.toInt ++ "d:".toList ++ itoa hour.toInt ++ "h:".toList ++
    itoa min.toInt ++ "m:".toList ++
    itoa sec.toInt ++ "s".toList

def marshalJSON (d : Int64) : Str := '"' :: formatDuration d ++ ['"']

def trim (s : Str) (c : Char) : Str := (s.dropWhile (· == c)).rdropWhile (· == c)

/-- `s[:len(s)-1]`. What is left of a character of several bytes is no text. -/
def dropLastByte (s : Str) : Option Str :=
  match s.getLast? with
  | none => none
  | some c => some (if c.toNat < 0x80 then s.dropLast else s.dropLast ++ [Char.ofNat 0xFFFD])

def unmarshalJSON (b : Str) : Option (Except Str Int64) := do
  match split (trim b '"') ':' with
  | [] => none
  | ds :: u =>
    match parseInt (← dropLastByte ds) with
    | .error err => some (.error err)
    | .ok di =>
      match u with
      | [] => none
      | hs :: u =>
        match parseInt (← dropLastByte hs) with
        | .error err => some (.error err)
        | .ok hi =>
          let hi := hi + di * 24
          some (parseDuration (itoa hi.toInt ++ "h".toList ++ u.flatten))

-- ---------------------------------------------------------------------------
-- Writing
-- ---------------------------------------------------------------------------

theorem seconds_whole {d : Int64} {t : Nat} (h : d.toInt = (t * 1000000000 : Nat)) :
    seconds d = (t : Int) := by
  have hlt := d.toInt_lt
  have hdiv : (d / 1000000000).toInt = (t : Int) := by
    rw [toInt_div_nat h (by decide : (1000000000 : Int64).toInt = (1000000000 : Nat)),
      Nat.mul_div_cancel _ (by decide)]
  have hmod : (d % 1000000000).toInt = ((0 : Nat) : Int) := by
    rw [toInt_mod_nat h (by decide : (1000000000 : Int64).toInt = (1000000000 : Nat)),
      Nat.mul_mod_left]
  have hexact : float64 ((t : Int) : ℚ) = (t : Int) := float64_intCast (by rw [abs_lt]; omega)
  have hzero : float64 0 = 0 := by simp [float64]
  simp only [seconds, hdiv, hmod]
  rw [hexact]
  simp only [Nat.cast_zero, Int.cast_zero, hzero, zero_div, add_zero]
  exact hexact

theorem formatDuration_whole {d : Int64} {t : Nat} (h : d.toInt = (t * 1000000000 : Nat)) :
    formatDuration d = Nat.toDigits 10 (t / 86400) ++ "d:".toList ++
      Nat.toDigits 10 (t % 86400 / 3600) ++ "h:".toList ++
      Nat.toDigits 10 (t % 86400 % 3600 / 60) ++ "m:".toList ++
      Nat.toDigits 10 (t % 86400 % 3600 % 60) ++ "s".toList := by
  have hlt := d.toInt_lt
  have ht : (Int64.ofInt (truncate (seconds d))).toInt = (t : Int) := by
    rw [seconds_whole h, truncate_intCast, toInt_ofInt_nat (by omega)]
  have hday : (60 * 60 * 24 : Int64).toInt = (86400 : Nat) := by decide
  have hhour : (60 * 60 : Int64).toInt = (3600 : Nat) := by decide
  have hmin : (60 : Int64).toInt = (60 : Nat) := by decide
  have ht₁ := toInt_mod_nat ht hday
  have ht₂ := toInt_mod_nat ht₁ hhour
  simp only [formatDuration, toInt_div_nat ht hday, toInt_div_nat ht₁ hhour, toInt_div_nat ht₂ hmin,
    toInt_mod_nat ht₂ hmin]
  rfl

-- ---------------------------------------------------------------------------
-- Reading back
-- ---------------------------------------------------------------------------

theorem trim_quotes (s : Str) (ha : a ≠ '"') (hb : b ≠ '"') :
    trim ('"' :: (a :: s ++ [b]) ++ ['"']) '"' = a :: s ++ [b] := by
  have hdrop : ('"' :: (a :: s ++ [b]) ++ ['"']).dropWhile (· == '"') =
      (a :: s ++ [b]) ++ ['"'] := by
    simp [ha]
  rw [trim, hdrop, List.rdropWhile_concat_pos _ _ _ (by decide),
    List.rdropWhile_concat_neg _ _ _ (by simpa using hb)]

theorem dropLastByte_concat (h : c.toNat < 0x80) (s : Str) : dropLastByte (s ++ [c]) = some s := by
  simp [dropLastByte, h]

theorem split_parts (day hour min sec : Nat) :
    split (Nat.toDigits 10 day ++ "d:".toList ++ Nat.toDigits 10 hour ++ "h:".toList ++
      Nat.toDigits 10 min ++ "m:".toList ++
      Nat.toDigits 10 sec ++ "s".toList) ':' =
      [Nat.toDigits 10 day ++ ['d'], Nat.toDigits 10 hour ++ ['h'], Nat.toDigits 10 min ++ ['m'],
        Nat.toDigits 10 sec ++ ['s']] := by
  have hcolon : ∀ (n : Nat) (u : Char), u ≠ ':' → ':' ∉ Nat.toDigits 10 n ++ [u] := by
    intro n u hu hmem
    rcases List.mem_append.mp hmem with hmem | hmem
    · exact absurd (Nat.isDigit_of_mem_toDigits (by omega) (by omega) hmem) (by decide)
    · exact hu (List.mem_singleton.mp hmem).symm
  have hjoin : Nat.toDigits 10 day ++ "d:".toList ++ Nat.toDigits 10 hour ++ "h:".toList ++
      Nat.toDigits 10 min ++
      "m:".toList ++ Nat.toDigits 10 sec ++ "s".toList = (Nat.toDigits 10 day ++ ['d']) ++ ':' ::
        ((Nat.toDigits 10 hour ++ ['h']) ++ ':' :: ((Nat.toDigits 10 min ++ ['m']) ++ ':' ::
          (Nat.toDigits 10 sec ++ ['s']))) := by
    simp
  rw [hjoin, split_cons_of_notMem (hcolon day 'd' (by decide)),
    split_cons_of_notMem (hcolon hour 'h' (by decide)),
    split_cons_of_notMem (hcolon min 'm' (by decide)), split_of_notMem (hcolon sec 's' (by decide))]

/-- A Duration of whole seconds that is not negative is read back as it was
written. -/
theorem unmarshalJSON_marshalJSON {d : Int64} (hpos : 0 ≤ d.toInt) (hwhole : 1000000000 ∣ d.toInt) :
    unmarshalJSON (marshalJSON d) = some (.ok d) := by
  obtain ⟨t, ht⟩ : ∃ t : Nat, d.toInt = (t * 1000000000 : Nat) := by
    obtain ⟨k, hk⟩ := hwhole
    exact ⟨k.toNat, by omega⟩
  have hlt := d.toInt_lt
  have htrim : trim (marshalJSON d) '"' = formatDuration d := by
    obtain ⟨e, ds, hds, he, -⟩ := toDigits_eq_cons (t / 86400)
    have hquote : e ≠ '"' := by
      rintro rfl
      cases he
    obtain ⟨rest, hrest⟩ : ∃ rest, formatDuration d = e :: rest ++ ['s'] := by
      rw [formatDuration_whole ht, hds]
      exact ⟨_, rfl⟩
    rw [marshalJSON, hrest, trim_quotes rest hquote (by decide)]
  generalize hday : t / 86400 = day
  generalize hhour : t % 86400 / 3600 = hour
  generalize hmin : t % 86400 % 3600 / 60 = min
  generalize hsec : t % 86400 % 3600 % 60 = sec
  have hsum : ((hour + day * 24) * 3600 + min * 60 + sec) * 1000000000 = t * 1000000000 := by omega
  have hhi : (Int64.ofInt hour + Int64.ofInt day * 24).toInt = ((hour + day * 24 : Nat) : Int) := by
    rw [Int64.toInt_add, Int64.toInt_mul, toInt_ofInt_nat (by omega), toInt_ofInt_nat (by omega),
      show (24 : Int64).toInt = 24 by decide, Int.add_bmod_bmod]
    exact bmod_eq_self_iff.mpr (by omega)
  rw [unmarshalJSON, htrim, formatDuration_whole ht, hday, hhour, hmin, hsec, split_parts]
  have htext : itoa ((hour + day * 24 : Nat) : Int) ++ "h".toList ++
      [Nat.toDigits 10 min ++ ['m'], Nat.toDigits 10 sec ++ ['s']].flatten =
        hmsText (hour + day * 24) min sec := by
    simp [hmsText, itoa]
  simp only [dropLastByte_concat (show 'd'.toNat < 0x80 by decide),
    dropLastByte_concat (show 'h'.toNat < 0x80 by decide),
    parseInt_toDigits (show day < 2 ^ 63 by omega), parseInt_toDigits (show hour < 2 ^ 63 by omega),
    Option.bind_eq_bind, Option.bind_some, hhi, htext]
  rw [parseDuration_hms (by omega), hsum, ← ht, Int64.ofInt_toInt]

theorem unmarshalJSON_marshalJSON_longest :
    (9223372036000000000 : Int64).toInt = 9223372036000000000 ∧
      unmarshalJSON (marshalJSON 9223372036000000000) = some (.ok 9223372036000000000) :=
  ⟨by decide, unmarshalJSON_marshalJSON (by decide) (by decide)⟩

end BigipCtlr
