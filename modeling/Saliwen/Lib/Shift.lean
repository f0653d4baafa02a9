import Mathlib.Data.Rat.Floor
import Mathlib.Tactic.Linarith
import Mathlib.Tactic.Ring
import Mathlib.Tactic.Positivity
import Mathlib.Tactic.FieldSimp

/-!
# Arithmetic right shifts

An arithmetic right shift divides by a power of two and rounds down, also for negative
values. The rules below compare shifts with exact quotients and put a product together
from the shifts of its two parts.
-/

namespace Saliwen

/-- A right shift is the exact quotient rounded down. -/
theorem shiftRight_eq_floor (x : ℤ) (n : ℕ) : x >>> n = ⌊(x : ℚ) / 2 ^ n⌋ := by
  have hfloor := Rat.floor_intCast_div_natCast x (2 ^ n)
  rw [Int.shiftRight_eq_div_pow, ← hfloor]
  push_cast
  rfl

/-- The fraction that a right shift discards. -/
theorem shiftRight_discards (x : ℤ) (n : ℕ) :
    0 ≤ (x : ℚ) / 2 ^ n - (x >>> n : ℤ) ∧ (x : ℚ) / 2 ^ n - (x >>> n : ℤ) < 1 := by
  rw [shiftRight_eq_floor]
  constructor
  · linarith [Int.floor_le ((x : ℚ) / 2 ^ n)]
  · linarith [Int.lt_floor_add_one ((x : ℚ) / 2 ^ n)]

/-- A shifted product is the product of the high part plus the shifted product of the low
part. -/
theorem shiftRight_mul_add_mod (x p : ℤ) (n : ℕ) :
    (x >>> n) * p + (x % 2 ^ n * p) >>> n = (x * p) >>> n := by
  simp only [Int.shiftRight_eq_div_pow]
  push_cast
  have hsplit : x * p = x % 2 ^ n * p + 2 ^ n * (x / 2 ^ n * p) := by
    have hx := Int.emod_add_mul_ediv x (2 ^ n)
    calc x * p = (x % 2 ^ n + 2 ^ n * (x / 2 ^ n)) * p := by rw [hx]
      _ = x % 2 ^ n * p + 2 ^ n * (x / 2 ^ n * p) := by ring
  rw [hsplit, Int.add_mul_ediv_left _ _ (by positivity), Int.add_comm]

/-- Shifting the negation of a shifted value rounds up once and down once: the result is the
shift of the negation or one more. -/
theorem neg_shiftRight_shiftRight (y : ℤ) (m n : ℕ) :
    (-(y >>> m)) >>> n = (-y) >>> (m + n) ∨ (-(y >>> m)) >>> n = (-y) >>> (m + n) + 1 := by
  obtain ⟨hlow1, hhigh1⟩ := shiftRight_discards y m
  obtain ⟨hlow2, hhigh2⟩ := shiftRight_discards (-(y >>> m)) n
  obtain ⟨hlow3, hhigh3⟩ := shiftRight_discards (-y) (m + n)
  generalize y >>> m = a at *
  generalize (-a) >>> n = b at *
  generalize (-y) >>> (m + n) = c at *
  push_cast at hlow2 hhigh2 hlow3 hhigh3
  -- The exact quotients differ by the first discarded fraction, divided by `2 ^ n`.
  have hquotients : -(y : ℚ) / 2 ^ (m + n) = -(a : ℚ) / 2 ^ n - (y / 2 ^ m - a) / 2 ^ n := by
    rw [pow_add]
    field_simp
    ring
  have hone : (1 : ℚ) ≤ 2 ^ n := one_le_pow₀ (by norm_num)
  have hnonneg : 0 ≤ ((y : ℚ) / 2 ^ m - a) / 2 ^ n := div_nonneg hlow1 (by positivity)
  have hle : ((y : ℚ) / 2 ^ m - a) / 2 ^ n < 1 := by
    rw [div_lt_one (by positivity)]
    linarith
  have hlower : (c : ℚ) < b + 1 := by linarith
  have hupper : (b : ℚ) < c + 2 := by linarith
  have hlower' : c < b + 1 := by exact_mod_cast hlower
  have hupper' : b < c + 2 := by exact_mod_cast hupper
  omega

end Saliwen
