import Saliwen.Fbm320.Calculate
import Saliwen.Lib.Shift

/-!
# The temperature polynomial of the FBM320

The compensated temperature is a cubic polynomial in `DT`, evaluated by products and right
shifts. Each shift discards a fraction, and the fractions discarded inside the quadratic and
the cubic term are multiplied by `DT` afterwards. This file bounds what they add up to.
-/

namespace Saliwen.Fbm320

/-- The polynomial that the temperature stage approximates, in hundredths of a degree. -/
def polynomial (k : Formula) (c : Locals) (dt : ℤ) : ℚ :=
  2500 - ((c.c1 + k.k1) * dt / 2 + (c.c2 - 256) * dt ^ 2 / 2 ^ 18 + c.c3 * dt ^ 3 / 2 ^ 36) / 2 ^ 15

/-- A discarded fraction, multiplied by `d`. -/
theorem abs_discarded_mul_le (x d : ℤ) (n : ℕ) :
    |((x : ℚ) / 2 ^ n - (x >>> n : ℤ)) * d| ≤ |(d : ℚ)| := by
  obtain ⟨hlow, hhigh⟩ := shiftRight_discards x n
  rw [abs_mul, abs_of_nonneg hlow]
  exact mul_le_of_le_one_left (abs_nonneg _) hhigh.le

/-- The quadratic term `((a * d >> 14) * d) >> 4`. -/
theorem quadratic_error (a d : ℤ) :
    -(|(d : ℚ)| / 16) ≤ a * d ^ 2 / 2 ^ 18 - (((((a * d) >>> (14 : ℕ)) * d) >>> (4 : ℕ) : ℤ) : ℚ) ∧
      a * d ^ 2 / 2 ^ 18 - (((((a * d) >>> (14 : ℕ)) * d) >>> (4 : ℕ) : ℤ) : ℚ) <
        1 + |(d : ℚ)| / 16 := by
  obtain ⟨hlow, hhigh⟩ := shiftRight_discards (((a * d) >>> (14 : ℕ)) * d) 4
  obtain ⟨hinner, hinner'⟩ := abs_le.mp (abs_discarded_mul_le (a * d) d 14)
  have hsplit : (a : ℚ) * d ^ 2 / 2 ^ 18 =
      (((a * d : ℤ) : ℚ) / 2 ^ 14 - ((a * d) >>> (14 : ℕ) : ℤ)) * d / 16 +
        ((((a * d) >>> (14 : ℕ)) * d : ℤ) : ℚ) / 2 ^ 4 := by
    push_cast
    ring
  rw [hsplit]
  constructor
  · linarith
  · linarith

/-- The cubic term `((a * d >> 18) * d >> 18) * d`. -/
theorem cubic_error (a d : ℤ) :
    |a * d ^ 3 / 2 ^ 36 - ((((((a * d) >>> (18 : ℕ)) * d) >>> (18 : ℕ)) * d : ℤ) : ℚ)| ≤
      |(d : ℚ)| * (1 + |(d : ℚ)| / 2 ^ 18) := by
  have houter := abs_discarded_mul_le (((a * d) >>> (18 : ℕ)) * d) d 18
  have hinner := abs_discarded_mul_le (a * d) d 18
  generalize hp : (a * d) >>> (18 : ℕ) = p at *
  generalize hq : (p * d) >>> (18 : ℕ) = q at *
  have hsplit : (a : ℚ) * d ^ 3 / 2 ^ 36 - ((q * d : ℤ) : ℚ) =
      (((a * d : ℤ) : ℚ) / 2 ^ 18 - p) * d * (d / 2 ^ 18) +
        (((p * d : ℤ) : ℚ) / 2 ^ 18 - q) * d := by
    push_cast
    ring
  rw [hsplit]
  calc |(((a * d : ℤ) : ℚ) / 2 ^ 18 - p) * d * (d / 2 ^ 18) + (((p * d : ℤ) : ℚ) / 2 ^ 18 - q) * d|
      ≤ |(((a * d : ℤ) : ℚ) / 2 ^ 18 - p) * d| * |(d : ℚ) / 2 ^ 18| +
          |(((p * d : ℤ) : ℚ) / 2 ^ 18 - q) * d| := by
        rw [← abs_mul]
        exact abs_add_le _ _
    _ ≤ |(d : ℚ)| * |(d : ℚ) / 2 ^ 18| + |(d : ℚ)| := by gcongr
    _ = |(d : ℚ)| * (1 + |(d : ℚ)| / 2 ^ 18) := by
        rw [abs_div, abs_of_pos (by positivity : (0 : ℚ) < 2 ^ 18)]
        ring

/-- For both formulas, all coefficients and all raw temperatures, the temperature stage over
the unbounded integers stays close to the polynomial in its `DT`. -/
theorem temperature_near_polynomial (k : Formula) (c : Locals) (ut : ℤ) :
    let t := temperature id k c ut
    t.dt = (ut - 8388608) >>> (4 : ℕ) + c.c0 <<< (4 : ℕ) ∧
      |(t.rt : ℚ) - polynomial k c t.dt| <
        1 + (2 + |(t.dt : ℚ)| / 16 + |(t.dt : ℚ)| * (1 + |(t.dt : ℚ)| / 2 ^ 18)) / 2 ^ 15 := by
  intro t
  refine ⟨rfl, ?_⟩
  have hx01 := shiftRight_discards ((c.c1 + k.k1) * t.dt) 1
  have hx02 := quadratic_error (c.c2 - 256) t.dt
  have hx03 := abs_le.mp (cubic_error c.c3 t.dt)
  have hrt := shiftRight_discards ((2500 : ℤ) <<< (15 : ℕ) - t.x01 - t.x02 - t.x03) 15
  change 0 ≤ _ - (t.x01 : ℚ) ∧ _ - (t.x01 : ℚ) < 1 at hx01
  change _ ≤ _ - (t.x02 : ℚ) ∧ _ - (t.x02 : ℚ) < _ at hx02
  change _ ≤ _ - (t.x03 : ℚ) ∧ _ - (t.x03 : ℚ) ≤ _ at hx03
  change 0 ≤ _ - (t.rt : ℚ) ∧ _ - (t.rt : ℚ) < 1 at hrt
  have hscale : (2500 : ℤ) <<< (15 : ℕ) = 81920000 := rfl
  rw [hscale] at hrt
  unfold polynomial
  push_cast at hx01 hx02 hx03 hrt ⊢
  obtain ⟨hx01, hx01'⟩ := hx01
  obtain ⟨hx02, hx02'⟩ := hx02
  obtain ⟨hx03, hx03'⟩ := hx03
  obtain ⟨hrt, hrt'⟩ := hrt
  rw [abs_lt]
  constructor
  · linarith
  · linarith

end Saliwen.Fbm320
