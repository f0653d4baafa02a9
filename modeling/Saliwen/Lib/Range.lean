import Saliwen.Lib.Word
import Saliwen.Lib.Shift
import Mathlib.Algebra.Order.Group.Abs
import Mathlib.Algebra.Order.Ring.Abs

/-!
# Ranges of machine integers

A value fits when 32-bit arithmetic stores it unchanged. Bounds on absolute values are
carried through sums, products and right shifts, and back from a product or a shift to its
operand.
-/

namespace Saliwen

/-- The value of a signed 32-bit integer. -/
def Fits32 (x : ℤ) : Prop := -2 ^ 31 ≤ x ∧ x < 2 ^ 31

instance : DecidablePred Fits32 := fun x => inferInstanceAs (Decidable (-2 ^ 31 ≤ x ∧ x < 2 ^ 31))

/-- A value that fits is stored as it is. -/
theorem Fits32.wrap32_eq {x : ℤ} (h : Fits32 x) : wrap32 x = x := wrap32_eq_self h.1 h.2

/-- A value that fits still fits after a shift to the right. -/
theorem Fits32.shiftRight {x : ℤ} (h : Fits32 x) (n : ℕ) : Fits32 (x >>> n) := by
  rcases le_total 0 x with hx | hx
  · have hlow := Int.le_shiftRight_of_nonneg (s := n) hx
    have hhigh := Int.shiftRight_le_of_nonneg (s := n) hx
    exact ⟨by omega, hhigh.trans_lt h.2⟩
  · have hlow := Int.le_shiftRight_of_nonpos (s := n) hx
    have hhigh := Int.shiftRight_le_of_nonpos (s := n) hx
    exact ⟨h.1.trans hlow, by omega⟩

/-- The value is at most `b` away from zero. -/
def Within (b x : ℤ) : Prop := |x| ≤ b

/-- A range around zero by its two bounds. -/
theorem within_iff {b x : ℤ} : Within b x ↔ -b ≤ x ∧ x ≤ b := abs_le

/-- A value that fits lies within `2 ^ 31`. -/
theorem Fits32.within {x : ℤ} (h : Fits32 x) : Within (2 ^ 31) x := within_iff.mpr ⟨h.1, h.2.le⟩

/-- A value within less than `2 ^ 31` fits. -/
theorem Within.fits32 {b x : ℤ} (h : Within b x) (hb : b < 2 ^ 31) : Fits32 x := by
  obtain ⟨hlow, hhigh⟩ := within_iff.mp h
  constructor
  · omega
  · omega

/-- A range may be enlarged. -/
theorem Within.mono {b b' x : ℤ} (h : Within b x) (hb : b ≤ b') : Within b' x := le_trans h hb

/-- A range from one bound, where the value is not negative. -/
theorem within_of_nonneg {b x : ℤ} (h : 0 ≤ x) (hb : x ≤ b) : Within b x := by
  rw [within_iff]
  omega

/-- A range from a strict bound, where the value is not negative. -/
theorem within_of_lt {b x : ℤ} (h : 0 ≤ x ∧ x < b) : Within (b - 1) x :=
  within_of_nonneg h.1 (by omega)

/-- The range of a sum. -/
theorem Within.add {a b x y : ℤ} (hx : Within a x) (hy : Within b y) : Within (a + b) (x + y) :=
  (abs_add_le x y).trans (add_le_add hx hy)

/-- The range of a difference. -/
theorem Within.sub {a b x y : ℤ} (hx : Within a x) (hy : Within b y) : Within (a + b) (x - y) :=
  (abs_sub x y).trans (add_le_add hx hy)

/-- The range of a product. -/
theorem Within.mul {a b x y : ℤ} (hx : Within a x) (hy : Within b y) : Within (a * b) (x * y) := by
  unfold Within
  rw [abs_mul]
  exact mul_le_mul hx hy (abs_nonneg y) (le_trans (abs_nonneg x) hx)

/-- A right shift divides the bound. -/
theorem Within.shiftRight {b x : ℤ} {n : ℕ} (h : Within (b * 2 ^ n) x) : Within b (x >>> n) := by
  obtain ⟨hlow, hhigh⟩ := within_iff.mp h
  rw [within_iff, Int.shiftRight_eq_div_pow]
  push_cast
  constructor
  · rw [Int.le_ediv_iff_mul_le (by positivity)]
    linarith
  · exact Int.ediv_le_of_le_mul (by positivity) hhigh

/-- A bound on a shifted value bounds the value. -/
theorem Within.of_shiftRight {b x : ℤ} {n : ℕ} (h : Within b (x >>> n)) :
    -((b + 1) * 2 ^ n) < x ∧ x < (b + 1) * 2 ^ n := by
  obtain ⟨hlow, hhigh⟩ := within_iff.mp h
  rw [Int.shiftRight_eq_div_pow] at hlow hhigh
  push_cast at hlow hhigh
  have hpow : (0 : ℤ) < 2 ^ n := by positivity
  have hlow' : -b * 2 ^ n ≤ x := (Int.le_ediv_iff_mul_le hpow).mp hlow
  constructor
  · linarith
  · exact (Int.ediv_lt_iff_lt_mul hpow).mp (by omega)

/-- A bound on a product bounds a factor if the other factor is not small. -/
theorem Within.of_mul {a b m x : ℤ} (hm : 0 < m) (ha : m ≤ a) (h : Within b (a * x)) :
    Within (b / m) x := by
  have hbound : m * |x| ≤ b := by
    calc m * |x| ≤ |a| * |x| :=
          mul_le_mul_of_nonneg_right (ha.trans (le_abs_self a)) (abs_nonneg x)
      _ = |a * x| := (abs_mul a x).symm
      _ ≤ b := h
  unfold Within
  rw [Int.le_ediv_iff_mul_le hm, mul_comm]
  exact hbound

/-- If the second product of a chain `((c * d) >>> n) * d` fits, so does the first: were the
first too large, `d` would have to be below `2 ^ n` to make up for it, and then the first is
not large. -/
theorem fits32_of_chain {b c d : ℤ} {n : ℕ} (hc : Within (2 ^ n) d → Within b c)
    (hb : b * 2 ^ n < 2 ^ 31) (hn : n ≤ 31) (h : Fits32 (((c * d) >>> n) * d)) :
    Fits32 (c * d) := by
  have hpow : (2 : ℤ) ^ (31 - n) * 2 ^ n = 2 ^ 31 := by
    rw [← pow_add, Nat.sub_add_cancel hn]
  by_cases hsmall : Within (2 ^ (31 - n) - 1) ((c * d) >>> n)
  · obtain ⟨hlow, hhigh⟩ := hsmall.of_shiftRight
    rw [sub_add_cancel, hpow] at hlow hhigh
    exact ⟨hlow.le, hhigh⟩
  · have hlarge : 2 ^ (31 - n) ≤ |(c * d) >>> n| := by
      unfold Within at hsmall
      omega
    have hproduct : (2 : ℤ) ^ (31 - n) * |d| ≤ 2 ^ (31 - n) * 2 ^ n := by
      calc (2 : ℤ) ^ (31 - n) * |d| ≤ |(c * d) >>> n| * |d| :=
            mul_le_mul_of_nonneg_right hlarge (abs_nonneg d)
        _ = |((c * d) >>> n) * d| := (abs_mul _ _).symm
        _ ≤ 2 ^ (31 - n) * 2 ^ n := by
            rw [hpow]
            exact h.within
    have hd : Within (2 ^ n) d := le_of_mul_le_mul_left hproduct (by positivity)
    exact ((hc hd).mul hd).fits32 hb

end Saliwen
