import Mathlib.Data.Int.GCD

/-!
# Durations

A `time.Duration` is a 64-bit number of nanoseconds. What is computed with it
wraps around where the exact result does not fit.
-/

namespace BigipCtlr.Go

/-- `t.Sub(u)`, which stays at the bounds of a Duration. -/
def timeSub (t u : Int) : Int64 :=
  if 2 ^ 63 ≤ t - u then Int64.maxValue
  else if t - u < -2 ^ 63 then Int64.minValue
  else Int64.ofInt (t - u)

theorem bmod_eq_self_iff {x : Int} : x.bmod (2 ^ 64) = x ↔ -2 ^ 63 ≤ x ∧ x < 2 ^ 63 := by
  rw [Int.bmod_def]
  omega

theorem toInt_neg_of_ne {d : Int64} (h : d ≠ Int64.minValue) : (-d).toInt = -d.toInt := by
  have hmin : d.toInt ≠ -2 ^ 63 := fun he => h (Int64.toInt_inj.mp he)
  have hlo := d.le_toInt
  have hhi := d.toInt_lt
  rw [Int64.toInt_neg, bmod_eq_self_iff]
  omega

theorem toInt_mul_eq_iff (d e : Int64) :
    (d * e).toInt = d.toInt * e.toInt ↔ -2 ^ 63 ≤ d.toInt * e.toInt ∧
      d.toInt * e.toInt < 2 ^ 63 := by
  rw [Int64.toInt_mul, bmod_eq_self_iff]

theorem toInt_ofInt_nat {n : Nat} (h : n < 2 ^ 63) : (Int64.ofInt n).toInt = n := by
  rw [Int64.toInt_ofInt, show Int64.size = 2 ^ 64 from rfl, bmod_eq_self_iff]
  omega

theorem toInt_div_nat {x y : Int64} (hx : x.toInt = (m : Nat)) (hy : y.toInt = (n : Nat)) :
    (x / y).toInt = ((m / n : Nat) : Int) := by
  have hlt := x.toInt_lt
  have hle : m / n ≤ m := Nat.div_le_self m n
  rw [Int64.toInt_div, hx, hy, Int.tdiv_eq_ediv_of_nonneg (by omega), ← Int.natCast_ediv,
    bmod_eq_self_iff]
  generalize m / n = q at hle ⊢
  omega

theorem toInt_mod_nat {x y : Int64} (hx : x.toInt = (m : Nat)) (hy : y.toInt = (n : Nat)) :
    (x % y).toInt = ((m % n : Nat) : Int) := by
  rw [Int64.toInt_mod, hx, hy, Int.tmod_eq_emod_of_nonneg (by omega), Int.natCast_emod]

/-- A number of seconds is exact as a Duration up to 292 years. -/
theorem toInt_seconds_eq_iff (k : Int64) :
    (k * 1000000000).toInt = k.toInt * 1000000000 ↔ -9223372036 ≤ k ∧ k ≤ 9223372036 := by
  have hsecond : (1000000000 : Int64).toInt = 1000000000 := by decide
  have hlo : (-9223372036 : Int64).toInt = -9223372036 := by decide
  have hhi : (9223372036 : Int64).toInt = 9223372036 := by decide
  have hmul := toInt_mul_eq_iff k 1000000000
  rw [hsecond] at hmul
  rw [hmul, Int64.le_iff_toInt_le, Int64.le_iff_toInt_le, hlo, hhi]
  omega

theorem toInt_neg_seconds (k : Int64) :
    (-k * 1000000000).toInt = (-(k.toInt * 1000000000)).bmod (2 ^ 64) := by
  have hsecond : (1000000000 : Int64).toInt = 1000000000 := by decide
  rw [Int64.toInt_mul, hsecond, Int64.toInt_neg, Int.bmod_mul_bmod, Int.neg_mul]

theorem neg_bmod_seconds_ne {d : Int} (hpos : 0 < d) (hlt : d < 2 ^ 63) :
    -(-(d * 1000000000)).bmod (2 ^ 64) ≠ d := by
  intro h
  have hdvd : (2 ^ 64 : Int) ∣ d * 999999999 := by
    refine ⟨-(-(d * 1000000000)).bdiv (2 ^ 64), ?_⟩
    rw [Int.bmod_eq_self_sub_mul_bdiv] at h
    rw [Int.mul_neg]
    change -(-(d * 1000000000) - 2 ^ 64 * (-(d * 1000000000)).bdiv (2 ^ 64)) = d at h
    generalize (2 ^ 64 : Int) * (-(d * 1000000000)).bdiv (2 ^ 64) = m at h ⊢
    omega
  have hle := Int.le_of_dvd hpos (Int.dvd_of_dvd_mul_left_of_gcd_one hdvd (by decide))
  exact absurd (Int.lt_of_le_of_lt hle hlt) (by decide)

theorem forall_lt_sub_iff {a b : Int} :
    (∀ updated now : Int, a < now - updated ↔ b < now - updated) ↔ a = b := by
  constructor
  · intro h
    have ha := h 0 a
    have hb := h 0 b
    omega
  · rintro rfl updated now
    exact Iff.rfl

end BigipCtlr.Go
