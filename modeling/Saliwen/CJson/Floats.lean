import Saliwen.CJson.NumberText

/-!
# Floats in a text

`compare_double` lets a number through that differs from the `double` in its last bits. A `float`
has far fewer of them: a `float` that is printed, read back and converted to `float` is the same
again.
-/

namespace Saliwen.CJson

/-- The number is the value of a finite `float`. -/
def IsFloat (x : ℚ) : Prop := Number.ofRat binary32 128 x = .finite x

/-- A `float` is not changed when it is rounded to a `float`. -/
theorem IsFloat.round {x : ℚ} (h : IsFloat x) : binary32.round x = x := by
  unfold IsFloat Number.ofRat at h
  split_ifs at h
  exact Number.finite.inj h

/-- A `float` that is not infinite lies below `2 ^ 128`. -/
theorem IsFloat.abs_lt_two_pow {x : ℚ} (h : IsFloat x) : |x| < 2 ^ 128 := by
  have hround := h.round
  unfold IsFloat Number.ofRat at h
  split_ifs at h with hlarge
  rw [hround] at hlarge
  exact not_le.mp hlarge

/-- A number that rounding keeps, and that is not too large, is a `float`. -/
theorem isFloat_of_round {x : ℚ} (h : binary32.round x = x) (hsmall : |x| < 2 ^ 128) :
    IsFloat x := by
  rw [IsFloat, Number.ofRat, h, if_neg (not_le.mpr hsmall)]

/-- Every `float` is a `double`. -/
theorem IsFloat.isDouble {x : ℚ} (h : IsFloat x) : IsDouble x := by
  have hround : binary64.round x = x :=
    FloatFormat.round_finer (by decide) (by decide) h.round
  have hsmall : |x| < 2 ^ 1024 :=
    h.abs_lt_two_pow.trans (pow_lt_pow_right₀ (by norm_num) (by norm_num))
  rw [IsDouble, Number.ofRat, hround, if_neg (not_le.mpr hsmall)]

/-- What `compare_double` says about a `float` and a `double`. -/
theorem abs_sub_le_of_compareDouble {x y : ℚ} (hx : IsFloat x) (hne : x ≠ 0)
    (hy : binary64.round y = y) (h : compareDouble (.finite y) (.finite x) = true) :
    |y - x| ≤ |x| * 2 ^ (-50 : ℤ) := by
  have hclose : binary64.round |y - x| ≤ binary64.round (max |y| |x| * 2 ^ (-52 : ℤ)) :=
    of_decide_eq_true h
  set m := max |y| |x|
  have hxm : |x| ≤ m := le_max_right _ _
  have hm : binary64.round m = m := by
    rcases max_choice |y| |x| with heq | heq
    · simp only [m, heq, FloatFormat.round_abs hy]
    · simp only [m, heq, FloatFormat.round_abs hx.isDouble.round]
  have hpos : 0 < m := (abs_pos.mpr hne).trans_le hxm
  have hulp : -1022 ≤ binary64.ulpExponent m := by
    have hsmallest : (2 : ℚ) ^ (-149 : ℤ) ≤ m := (binary32.zpow_le_abs hx.round hne).trans hxm
    have hlog : -149 ≤ Int.log 2 m :=
      (Int.zpow_le_iff_le_log (b := 2) (by norm_num) hpos).mp (by exact_mod_cast hsmallest)
    have hprecision : binary64.precision = 53 := rfl
    rw [FloatFormat.ulpExponent, abs_of_pos hpos]
    omega
  have hbound := FloatFormat.round_scale (k := -52) hm hpos.ne' (by
    have : binary64.minExponent = -1074 := rfl
    omega)
  have htwice := FloatFormat.round_scale (k := -51) hm hpos.ne' (by
    have : binary64.minExponent = -1074 := rfl
    omega)
  have hle : |y - x| ≤ m * 2 ^ (-51 : ℤ) := by
    by_contra hgt
    have hmono := FloatFormat.round_mono (f := binary64) (by positivity) (not_le.mp hgt).le
    rw [htwice] at hmono
    rw [hbound] at hclose
    have hhalf : m * 2 ^ (-51 : ℤ) = 2 * (m * 2 ^ (-52 : ℤ)) := by norm_num; ring
    have hsmall : 0 < m * 2 ^ (-52 : ℤ) := by positivity
    linarith
  have hsum : m ≤ |x| + |y - x| := by
    refine max_le ?_ (le_add_of_nonneg_right (abs_nonneg _))
    have htriangle := abs_sub_abs_le_abs_sub y x
    linarith
  have hunit : (2 : ℚ) ^ (-50 : ℤ) = 2 * 2 ^ (-51 : ℤ) := by norm_num
  have hsmall : (2 : ℚ) ^ (-51 : ℤ) ≤ 1 / 2 := by norm_num
  have hscaled := mul_le_mul_of_nonneg_right hsum (by positivity : (0 : ℚ) ≤ 2 ^ (-51 : ℤ))
  have hhalf := mul_le_mul_of_nonneg_left hsmall (abs_nonneg (y - x))
  rw [add_mul] at hscaled
  rw [hunit]
  generalize (2 : ℚ) ^ (-51 : ℤ) = unit at hle hscaled hhalf ⊢
  linarith

/-- A `float` is read back exactly. -/
theorem toFloat_of_readsNumber {x : ℚ} {x' : Number} (hx : IsFloat x) (h : ReadsNumber x x') :
    x'.toFloat = .finite x := by
  have hlarge : ¬ (2 : ℚ) ^ 128 ≤ |x| := not_le.mpr hx.abs_lt_two_pow
  rcases eq_or_ne x 0 with rfl | hne
  · rw [h.exact (by norm_num [Number.valueint])]
    exact hx
  have hsmall : |x| < 2 ^ 1023 :=
    hx.abs_lt_two_pow.trans (pow_lt_pow_right₀ (by norm_num) (by norm_num))
  obtain ⟨y, rfl, hy⟩ := h.finite hsmall
  have hnear := abs_sub_le_of_compareDouble hx hne hy.round h.close
  have hround : binary32.round y = x := by
    refine FloatFormat.round_of_near hx.round hne (hnear.trans_lt ?_)
    have hlog : |x| < 2 ^ (Int.log 2 |x| + 1) := Int.lt_zpow_succ_log_self (by norm_num) _
    calc |x| * 2 ^ (-50 : ℤ) < 2 ^ (Int.log 2 |x| + 1) * 2 ^ (-50 : ℤ) :=
          mul_lt_mul_of_pos_right hlog (by positivity)
      _ = 2 ^ (Int.log 2 |x| + 1 + -50) := (zpow_add₀ (by norm_num) _ _).symm
      _ ≤ 2 ^ (binary32.ulpExponent x - 2) := by
          refine zpow_le_zpow_right₀ (by norm_num) ?_
          have hprecision : binary32.precision = 24 := rfl
          unfold FloatFormat.ulpExponent
          omega
  rw [Number.toFloat, Number.ofRat, hround, if_neg hlarge]

end Saliwen.CJson
