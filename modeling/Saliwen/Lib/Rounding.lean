import Mathlib.Data.Int.Log
import Mathlib.Data.Rat.Floor
import Mathlib.Tactic.Linarith
import Mathlib.Tactic.FieldSimp

/-!
# Binary floating-point values as rationals

A finite value of a binary format is a rational number, and the result of an operation
is the exact result rounded to nearest with ties to even. Only the precision and the
smallest exponent of a format matter here; overflow is left to the caller, which knows
whether its values can be that large.
-/

namespace Saliwen

/-- The nearest integer, ties to even. -/
def roundHalfEven (x : ℚ) : ℤ :=
  let rest := x - ⌊x⌋
  if rest < 1 / 2 then ⌊x⌋
  else if 1 / 2 < rest then ⌊x⌋ + 1
  else if ⌊x⌋ % 2 = 0 then ⌊x⌋ else ⌊x⌋ + 1

/-- An integer is its own nearest integer. -/
@[simp] theorem roundHalfEven_intCast (n : ℤ) : roundHalfEven n = n := by
  simp [roundHalfEven]

/-- A binary format: its precision in bits and the exponent of its smallest positive
value. Every format here represents the integers up to its precision. -/
structure FloatFormat where
  precision : ℕ
  minExponent : ℤ
  precision_pos : 0 < precision
  minExponent_nonpos : minExponent ≤ 0

/-- IEEE 754 single precision, the C `float`. -/
def binary32 : FloatFormat := ⟨24, -149, by decide, by decide⟩

/-- IEEE 754 double precision, the C `double`. -/
def binary64 : FloatFormat := ⟨53, -1074, by decide, by decide⟩

namespace FloatFormat

/-- The exponent of the last place of the values around a number. -/
def ulpExponent (f : FloatFormat) (x : ℚ) : ℤ :=
  max f.minExponent (Int.log 2 |x| + 1 - f.precision)

/-- The value of the format nearest to a rational number. -/
def round (f : FloatFormat) (x : ℚ) : ℚ :=
  roundHalfEven (x / 2 ^ f.ulpExponent x) * 2 ^ f.ulpExponent x

/-- Numbers below `2 ^ precision` have a last place of at most one. -/
theorem ulpExponent_nonpos {f : FloatFormat} {x : ℚ} (hx : |x| < 2 ^ f.precision) :
    f.ulpExponent x ≤ 0 := by
  have hlog : Int.log 2 |x| < f.precision := by
    by_cases hzero : x = 0
    · have hprec := f.precision_pos
      rw [hzero, abs_zero, Int.log_zero_right]
      omega
    · have hpow : (2 : ℚ) ^ Int.log 2 |x| ≤ |x| :=
        Int.zpow_log_le_self (by decide) (abs_pos.mpr hzero)
      have hlt : (2 : ℚ) ^ Int.log 2 |x| < 2 ^ (f.precision : ℤ) := by
        rw [zpow_natCast]
        linarith
      exact (zpow_lt_zpow_iff_right₀ (by norm_num : (1 : ℚ) < 2)).mp hlt
  have hmin := f.minExponent_nonpos
  unfold ulpExponent
  omega

/-- An integer below `2 ^ precision` in magnitude is a value of the format. -/
theorem round_intCast {f : FloatFormat} {n : ℤ} (hn : |n| < 2 ^ f.precision) :
    f.round n = n := by
  have hrat : |(n : ℚ)| < 2 ^ f.precision := by exact_mod_cast hn
  obtain ⟨k, hk⟩ := Int.eq_ofNat_of_zero_le (neg_nonneg.mpr (ulpExponent_nonpos hrat))
  have hscale : (2 : ℚ) ^ f.ulpExponent n = ((2 : ℚ) ^ k)⁻¹ := by
    have hneg : f.ulpExponent n = -(k : ℤ) := by omega
    rw [hneg, zpow_neg, zpow_natCast]
  have hint : (n : ℚ) / 2 ^ f.ulpExponent n = ((n * 2 ^ k : ℤ) : ℚ) := by
    rw [hscale, div_inv_eq_mul]
    push_cast
    rfl
  unfold round
  rw [hint, roundHalfEven_intCast, hscale]
  push_cast
  field_simp

end FloatFormat

end Saliwen
