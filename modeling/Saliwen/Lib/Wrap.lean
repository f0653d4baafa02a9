import Mathlib.Data.Nat.Basic

/-!
# Counters that wrap around

Two values of a counter of `n` values are compared by their difference modulo `n`. While the
counts behind them are close to each other, the difference tells which of them is larger and by
how much.
-/

namespace Saliwen.Wrap

/-- The difference of two values of a counter with `n` values. -/
def sub (n a b : ℕ) : ℕ := (a + n - b) % n

/-- The count behind the first value is the larger one. -/
theorem sub_mod_of_le {n a b : ℕ} (hle : b ≤ a) (hnear : a < b + n) :
    sub n (a % n) (b % n) = a - b := by
  obtain ⟨d, rfl⟩ : ∃ d, a = b + d := ⟨a - b, by omega⟩
  have hd : d < n := by omega
  have hb := Nat.mod_lt b (show 0 < n by omega)
  unfold sub
  rw [Nat.add_mod, Nat.mod_eq_of_lt hd, Nat.add_sub_cancel_left]
  by_cases hwrap : b % n + d < n
  · rw [Nat.mod_eq_of_lt hwrap, show b % n + d + n - b % n = d + n by omega, Nat.add_mod_right,
      Nat.mod_eq_of_lt hd]
  · rw [Nat.mod_eq_sub_mod (show b % n + d ≥ n by omega),
      Nat.mod_eq_of_lt (show b % n + d - n < n by omega),
      show b % n + d - n + n - b % n = d by omega, Nat.mod_eq_of_lt hd]

/-- The count behind the first value is the smaller one. -/
theorem sub_mod_of_lt {n a b : ℕ} (hlt : a < b) (hnear : b < a + n) :
    sub n (a % n) (b % n) = n - (b - a) := by
  obtain ⟨d, rfl⟩ : ∃ d, b = a + d := ⟨b - a, by omega⟩
  have hd : d < n := by omega
  have ha := Nat.mod_lt a (show 0 < n by omega)
  unfold sub
  rw [Nat.add_mod a d, Nat.mod_eq_of_lt hd, Nat.add_sub_cancel_left]
  by_cases hwrap : a % n + d < n
  · rw [Nat.mod_eq_of_lt hwrap, show a % n + n - (a % n + d) = n - d by omega,
      Nat.mod_eq_of_lt (by omega)]
  · rw [Nat.mod_eq_sub_mod (show a % n + d ≥ n by omega),
      Nat.mod_eq_of_lt (show a % n + d - n < n by omega),
      show a % n + n - (a % n + d - n) = n - d + n by omega, Nat.add_mod_right,
      Nat.mod_eq_of_lt (by omega)]

end Saliwen.Wrap
