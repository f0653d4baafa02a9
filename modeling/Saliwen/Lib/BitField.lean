import Mathlib.Data.Nat.Bitwise

/-!
# Bit fields of natural numbers

Masking a contiguous field and joining a high part with a low part, as arithmetic on
quotients and remainders.
-/

namespace Saliwen

/-- Joining a shifted high part with the low `k` bits of another number. -/
theorem shiftLeft_or_and_mask (a b k : ℕ) :
    (a <<< k) ||| (b &&& (2 ^ k - 1)) = a * 2 ^ k + b % 2 ^ k := by
  rw [Nat.and_two_pow_sub_one_eq_mod,
    ← Nat.shiftLeft_add_eq_or_of_lt (Nat.mod_lt b (Nat.two_pow_pos k)), Nat.shiftLeft_eq]

/-- Masking the field of `k` bits that starts at bit `j`. -/
theorem and_shifted_mask (x j k : ℕ) :
    x &&& ((2 ^ k - 1) <<< j) = x / 2 ^ j % 2 ^ k * 2 ^ j := by
  rw [← Nat.shiftLeft_eq, ← Nat.and_two_pow_sub_one_eq_mod, ← Nat.shiftRight_eq_div_pow]
  apply Nat.eq_of_testBit_eq
  intro i
  simp only [Nat.testBit_and, Nat.testBit_shiftLeft, Nat.testBit_shiftRight]
  by_cases hi : j ≤ i
  · simp [hi]
  · simp [hi]

end Saliwen
