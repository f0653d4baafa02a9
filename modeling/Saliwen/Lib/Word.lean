import Mathlib.Data.Int.Order.Basic
import Mathlib.Tactic.NormNum

/-!
# Fixed-width signed arithmetic

A machine integer of `n` bits is the balanced residue of an unbounded one. Two's
complement wrap-around is applied after each operation; a value already in range is
unchanged.
-/

namespace Saliwen

/-- Two's complement value of an integer stored in `n` bits. -/
def wrap (n : ℕ) (x : ℤ) : ℤ := x.bmod (2 ^ n)

/-- A C `int` or `long` of the 32-bit target. -/
abbrev wrap32 : ℤ → ℤ := wrap 32

/-- A value in the signed range is stored unchanged. -/
theorem wrap32_eq_self {x : ℤ} (hlow : -2 ^ 31 ≤ x) (hhigh : x < 2 ^ 31) : wrap32 x = x := by
  unfold wrap32 wrap
  apply Int.bmod_eq_of_le
  · norm_num
    omega
  · norm_num
    omega

end Saliwen
