import Mathlib.Data.Int.Log
import Mathlib.Data.Rat.Floor
import Mathlib.Tactic.Ring
import Mathlib.Tactic.FieldSimp

/-!
# Numbers of type float64

The result of a float64 operation is the exact one, rounded to 53 binary
digits. The bounds of the exponent are left out: the numbers computed with here
stay far from them.
-/

namespace BigipCtlr.Go

def roundHalfEven (x : ℚ) : ℤ :=
  let n := ⌊x⌋
  if x - n < 1 / 2 then n
  else if 1 / 2 < x - n then n + 1
  else if n % 2 = 0 then n else n + 1

def float64 (x : ℚ) : ℚ :=
  if x = 0 then 0
  else
    let ulp : ℚ := 2 ^ (Int.log 2 |x| - 52)
    roundHalfEven (x / ulp) * ulp

def truncate (x : ℚ) : ℤ := if 0 ≤ x then ⌊x⌋ else ⌈x⌉

theorem roundHalfEven_intCast (n : ℤ) : roundHalfEven n = n := by
  simp [roundHalfEven]

theorem truncate_intCast (n : ℤ) : truncate n = n := by
  simp [truncate]

theorem float64_intCast {n : ℤ} (h : |n| < 2 ^ 53) : float64 (n : ℚ) = n := by
  by_cases h0 : n = 0
  · simp [h0, float64]
  have hpos : (0 : ℚ) < |(n : ℚ)| := by simpa using h0
  have hlog : Int.log 2 |(n : ℚ)| < 53 := by
    refine (Int.lt_zpow_iff_log_lt (by decide) hpos).mp ?_
    exact_mod_cast h
  obtain ⟨k, hk⟩ : ∃ k : ℕ, Int.log 2 |(n : ℚ)| - 52 = -(k : ℤ) :=
    ⟨(52 - Int.log 2 |(n : ℚ)|).toNat, by omega⟩
  have hscaled : (n : ℚ) / 2 ^ (-(k : ℤ)) = ((n * 2 ^ k : ℤ) : ℚ) := by
    rw [zpow_neg, div_inv_eq_mul, zpow_natCast]
    push_cast
    rfl
  have hne : (n : ℚ) ≠ 0 := Int.cast_ne_zero.mpr h0
  simp only [float64, if_neg hne, hk, hscaled, roundHalfEven_intCast]
  rw [← hscaled, div_mul_cancel₀ _ (zpow_ne_zero _ two_ne_zero)]

end BigipCtlr.Go
