import Saliwen.Lib.Rounding
import Mathlib.Tactic.Ring

/-!
# Rounding to nearest

The rounding of a binary format goes to a nearest value, and does not turn the order of numbers
around.
-/

namespace Saliwen

/-- The nearest integer is one of the two around a number. -/
theorem roundHalfEven_cases (x : ℚ) :
    (roundHalfEven x = ⌊x⌋ ∧ x - ⌊x⌋ ≤ 1 / 2) ∨
      (roundHalfEven x = ⌊x⌋ + 1 ∧ 1 / 2 ≤ x - ⌊x⌋) := by
  unfold roundHalfEven
  dsimp only
  split_ifs with hbelow habove
  · exact Or.inl ⟨rfl, hbelow.le⟩
  · exact Or.inr ⟨rfl, habove.le⟩
  · exact Or.inl ⟨rfl, not_lt.mp habove⟩
  · exact Or.inr ⟨rfl, not_lt.mp hbelow⟩

/-- No integer is nearer. -/
theorem abs_roundHalfEven_sub_le (x : ℚ) (n : ℤ) : |(roundHalfEven x : ℚ) - x| ≤ |(n : ℚ) - x| := by
  have hfloor := Int.floor_le x
  have hfloor' := Int.lt_floor_add_one x
  have hside : (n : ℚ) ≤ ⌊x⌋ ∨ (⌊x⌋ : ℚ) + 1 ≤ n := by
    rcases le_or_gt n ⌊x⌋ with hle | hgt
    · exact Or.inl (by exact_mod_cast hle)
    · exact Or.inr (by exact_mod_cast hgt)
  rcases roundHalfEven_cases x with ⟨heq, hrest⟩ | ⟨heq, hrest⟩
  · rw [heq, abs_of_nonpos (by linarith)]
    rcases hside with hn | hn
    · rw [abs_of_nonpos (by linarith)]
      linarith
    · rw [abs_of_nonneg (by linarith)]
      linarith
  · rw [heq]
    push_cast
    rw [abs_of_nonneg (by linarith)]
    rcases hside with hn | hn
    · rw [abs_of_nonpos (by linarith)]
      linarith
    · rw [abs_of_nonneg (by linarith)]
      linarith

/-- Rounding to an integer moves a number by at most a half. -/
theorem abs_roundHalfEven_sub_le_half (x : ℚ) : |(roundHalfEven x : ℚ) - x| ≤ 1 / 2 := by
  have hfloor := Int.floor_le x
  have hfloor' := Int.lt_floor_add_one x
  rcases roundHalfEven_cases x with ⟨heq, hrest⟩ | ⟨heq, hrest⟩
  · rw [heq, abs_of_nonpos (by linarith)]
    linarith
  · rw [heq]
    push_cast
    rw [abs_of_nonneg (by linarith)]
    linarith

/-- Rounding to an integer is monotone. -/
theorem roundHalfEven_mono {x y : ℚ} (h : x ≤ y) : roundHalfEven x ≤ roundHalfEven y := by
  rcases (Int.floor_mono h).eq_or_lt with hsame | hless
  · unfold roundHalfEven
    dsimp only
    rw [← hsame]
    split_ifs <;> first | omega | (exfalso; linarith)
  · have hx : roundHalfEven x ≤ ⌊x⌋ + 1 := by
      rcases roundHalfEven_cases x with ⟨heq, _⟩ | ⟨heq, _⟩ <;> omega
    have hy : ⌊y⌋ ≤ roundHalfEven y := by
      rcases roundHalfEven_cases y with ⟨heq, _⟩ | ⟨heq, _⟩ <;> omega
    omega

namespace FloatFormat

variable {f : FloatFormat} {x y : ℚ}

/-- Zero is not changed by rounding. -/
theorem round_zero (f : FloatFormat) : f.round 0 = 0 := by
  have hzero := round_intCast (f := f) (n := 0) (by simp)
  exact_mod_cast hzero

/-- The grid of a format is not degenerate. -/
theorem ulp_pos (f : FloatFormat) (x : ℚ) : (0 : ℚ) < 2 ^ f.ulpExponent x :=
  zpow_pos (by norm_num) _

/-- The distance of a rounded number in units of the last place. -/
theorem abs_round_sub (f : FloatFormat) (x : ℚ) : |f.round x - x| =
    |(roundHalfEven (x / 2 ^ f.ulpExponent x) : ℚ) - x / 2 ^ f.ulpExponent x| *
      2 ^ f.ulpExponent x := by
  have hulp := ulp_pos f x
  rw [← abs_of_pos hulp, ← abs_mul, abs_of_pos hulp, sub_mul, div_mul_cancel₀ _ hulp.ne']
  rfl

/-- A multiple of the last place is at least as far away as the rounded number. -/
theorem abs_round_sub_le_grid (f : FloatFormat) (x : ℚ) (n : ℤ) :
    |f.round x - x| ≤ |n * 2 ^ f.ulpExponent x - x| := by
  have hulp := ulp_pos f x
  have hgrid : |n * 2 ^ f.ulpExponent x - x| =
      |(n : ℚ) - x / 2 ^ f.ulpExponent x| * 2 ^ f.ulpExponent x := by
    rw [← abs_of_pos hulp, ← abs_mul, abs_of_pos hulp, sub_mul, div_mul_cancel₀ _ hulp.ne']
  rw [abs_round_sub, hgrid]
  exact mul_le_mul_of_nonneg_right (abs_roundHalfEven_sub_le _ n) hulp.le

/-- A power of two that is not below the last place is a multiple of it. -/
theorem exists_zpow_eq {e k : ℤ} (h : e ≤ k) : ∃ n : ℤ, (2 : ℚ) ^ k = n * 2 ^ e := by
  refine ⟨2 ^ (k - e).toNat, ?_⟩
  push_cast
  rw [← zpow_natCast, Int.toNat_of_nonneg (by omega), ← zpow_add₀ (by norm_num)]
  congr 1
  omega

/-- Larger numbers have no finer grid. -/
theorem ulpExponent_mono (hx : x ≠ 0) (h : |x| ≤ |y|) : f.ulpExponent x ≤ f.ulpExponent y := by
  have hlog : Int.log 2 |x| ≤ Int.log 2 |y| := Int.log_mono_right (abs_pos.mpr hx) h
  unfold ulpExponent
  omega

/-- A value whose last place is smaller lies below the power of two at the beginning of the
numbers with this last place. -/
theorem abs_lt_of_ulpExponent_lt (h : f.ulpExponent y < f.ulpExponent x) :
    |y| < 2 ^ Int.log 2 |x| ∧ f.ulpExponent x ≤ Int.log 2 |x| := by
  have hprecision := f.precision_pos
  have hlog : Int.log 2 |y| + 1 ≤ Int.log 2 |x| ∧ f.ulpExponent x ≤ Int.log 2 |x| := by
    unfold ulpExponent at h ⊢
    omega
  refine ⟨?_, hlog.2⟩
  calc |y| < 2 ^ (Int.log 2 |y| + 1) := Int.lt_zpow_succ_log_self (by norm_num) _
    _ ≤ 2 ^ Int.log 2 |x| := zpow_le_zpow_right₀ (by norm_num) hlog.1

/-- No value of the format is nearer than the rounded number. -/
theorem abs_round_sub_le (hy : f.round y = y) : |f.round x - x| ≤ |y - x| := by
  rcases eq_or_ne x 0 with rfl | hx
  · simp [round_zero]
  rcases le_or_gt (f.ulpExponent x) (f.ulpExponent y) with hle | hlt
  · obtain ⟨n, hn⟩ := exists_zpow_eq hle
    have hgrid : y = (roundHalfEven (y / 2 ^ f.ulpExponent y) * n : ℤ) * 2 ^ f.ulpExponent x := by
      conv_lhs => rw [← hy]
      unfold round
      rw [hn]
      push_cast
      ring
    rw [hgrid]
    exact abs_round_sub_le_grid f x _
  · -- The power of two between `y` and `x` is nearer than `y`.
    obtain ⟨hbelow, hexponent⟩ := abs_lt_of_ulpExponent_lt hlt
    obtain ⟨n, hn⟩ := exists_zpow_eq hexponent
    have hstart : (2 : ℚ) ^ Int.log 2 |x| ≤ |x| :=
      Int.zpow_log_le_self (by norm_num) (abs_pos.mpr hx)
    obtain ⟨hlow, hhigh⟩ := abs_lt.mp hbelow
    rcases lt_or_gt_of_ne hx with hneg | hpos
    · have hgrid := abs_round_sub_le_grid f x (-n)
      rw [Int.cast_neg, neg_mul, ← hn] at hgrid
      rw [abs_of_neg hneg] at hstart
      rw [abs_of_neg hneg] at hlow hgrid
      refine hgrid.trans ?_
      rw [abs_of_nonneg (by linarith), abs_of_nonneg (by linarith)]
      linarith
    · have hgrid := abs_round_sub_le_grid f x n
      rw [← hn] at hgrid
      rw [abs_of_pos hpos] at hstart
      rw [abs_of_pos hpos] at hhigh hgrid
      refine hgrid.trans ?_
      rw [abs_of_nonpos (by linarith), abs_of_nonpos (by linarith)]
      linarith

/-- Rounding does not leave the side of a multiple of the last place. -/
theorem round_le_grid {n : ℤ} (h : x ≤ n * 2 ^ f.ulpExponent x) :
    f.round x ≤ n * 2 ^ f.ulpExponent x := by
  have hulp := ulp_pos f x
  have hround := roundHalfEven_mono ((div_le_iff₀ hulp).mpr h)
  rw [roundHalfEven_intCast] at hround
  exact mul_le_mul_of_nonneg_right (by exact_mod_cast hround) hulp.le

/-- Rounding does not pass a point of the grid from above. -/
theorem grid_le_round {n : ℤ} (h : n * 2 ^ f.ulpExponent x ≤ x) :
    n * 2 ^ f.ulpExponent x ≤ f.round x := by
  have hulp := ulp_pos f x
  have hround := roundHalfEven_mono ((le_div_iff₀ hulp).mpr h)
  rw [roundHalfEven_intCast] at hround
  exact mul_le_mul_of_nonneg_right (by exact_mod_cast hround) hulp.le

/-- Rounding keeps the sign. -/
theorem round_nonneg (h : 0 ≤ x) : 0 ≤ f.round x := by
  have hgrid := grid_le_round (f := f) (n := 0) (by simpa using h)
  simpa using hgrid

/-- Rounding does not turn the order of numbers around. -/
theorem round_mono (hx : 0 ≤ x) (h : x ≤ y) : f.round x ≤ f.round y := by
  rcases hx.eq_or_lt with rfl | hpos
  · rw [round_zero]
    exact round_nonneg h
  have habs : |x| ≤ |y| := by rwa [abs_of_nonneg hx, abs_of_nonneg (hx.trans h)]
  rcases (ulpExponent_mono (f := f) hpos.ne' habs).eq_or_lt with hsame | hless
  · unfold round
    rw [hsame]
    have hround := roundHalfEven_mono (div_le_div_of_nonneg_right h (ulp_pos f y).le)
    exact mul_le_mul_of_nonneg_right (by exact_mod_cast hround) (ulp_pos f y).le
  · -- Both sides of the power of two where the larger last place begins.
    obtain ⟨hbelow, hexponent⟩ := abs_lt_of_ulpExponent_lt hless
    rw [abs_of_nonneg hx] at hbelow
    obtain ⟨n, hn⟩ := exists_zpow_eq hexponent
    obtain ⟨m, hm⟩ := exists_zpow_eq (hless.le.trans hexponent)
    have hstart : (2 : ℚ) ^ Int.log 2 |y| ≤ y := by
      have hlog : (2 : ℚ) ^ Int.log 2 |y| ≤ |y| :=
        Int.zpow_log_le_self (by norm_num) (abs_pos.mpr (hpos.trans_le h).ne')
      rwa [abs_of_nonneg (hx.trans h)] at hlog ⊢
    calc f.round x ≤ m * 2 ^ f.ulpExponent x := round_le_grid (hm ▸ hbelow.le)
      _ = n * 2 ^ f.ulpExponent y := by rw [← hm, ← hn]
      _ ≤ f.round y := grid_le_round (hn ▸ hstart)

/-- Values other than zero are not smaller than the smallest positive one. -/
theorem zpow_le_abs (f : FloatFormat) {x : ℚ} (h : f.round x = x) (hx : x ≠ 0) :
    2 ^ f.minExponent ≤ |x| := by
  have hulp := ulp_pos f x
  have hdigits : roundHalfEven (x / 2 ^ f.ulpExponent x) ≠ 0 := by
    intro hzero
    rw [round, hzero, Int.cast_zero, zero_mul] at h
    exact hx h.symm
  have hone : (1 : ℚ) ≤ |(roundHalfEven (x / 2 ^ f.ulpExponent x) : ℚ)| := by
    exact_mod_cast Int.one_le_abs hdigits
  calc (2 : ℚ) ^ f.minExponent ≤ 2 ^ f.ulpExponent x :=
        zpow_le_zpow_right₀ (by norm_num) (le_max_left _ _)
    _ ≤ |(roundHalfEven (x / 2 ^ f.ulpExponent x) : ℚ)| * 2 ^ f.ulpExponent x :=
        le_mul_of_one_le_left hulp.le hone
    _ = |x| := by rw [← abs_of_pos hulp, ← abs_mul, abs_of_pos hulp, ← round, h]

/-! ## Values of a format -/

/-- A multiple of its own last place is a value. -/
theorem round_of_grid {n : ℤ} (h : x = n * 2 ^ f.ulpExponent x) : f.round x = x := by
  have hquotient : x / 2 ^ f.ulpExponent x = n := by
    rw [div_eq_iff (ulp_pos f x).ne']
    exact h
  rw [round, hquotient, roundHalfEven_intCast, ← h]

/-- A multiple of a unit that is not below its own last place is a value. -/
theorem round_of_multiple {n : ℤ} {e : ℤ} (h : x = n * 2 ^ e) (he : f.ulpExponent x ≤ e) :
    f.round x = x := by
  obtain ⟨m, hm⟩ := exists_zpow_eq he
  have hgrid : x = (n * m : ℤ) * 2 ^ f.ulpExponent x := by
    conv_lhs => rw [h, hm]
    push_cast
    ring
  exact round_of_grid hgrid

/-- The logarithm of a power of two. -/
theorem abs_log_zpow (k : ℤ) : Int.log 2 |(2 : ℚ) ^ k| = k := by
  rw [abs_of_pos (zpow_pos (by norm_num) _)]
  exact_mod_cast Int.log_zpow (R := ℚ) (b := 2) (by norm_num) k

/-- A rounded number has at most as many digits as the format. -/
theorem abs_roundHalfEven_le (f : FloatFormat) (x : ℚ) :
    |roundHalfEven (x / 2 ^ f.ulpExponent x)| ≤ 2 ^ f.precision := by
  have hulp := ulp_pos f x
  have hlog : |x| < 2 ^ (Int.log 2 |x| + 1) := Int.lt_zpow_succ_log_self (by norm_num) _
  have hhigh : |x| ≤ 2 ^ f.precision * 2 ^ f.ulpExponent x := by
    rw [← zpow_natCast, ← zpow_add₀ (by norm_num)]
    refine hlog.le.trans (zpow_le_zpow_right₀ (by norm_num) ?_)
    unfold ulpExponent
    omega
  obtain ⟨hneg, hpos⟩ := abs_le.mp hhigh
  rw [← neg_mul] at hneg
  have hlow := roundHalfEven_mono ((le_div_iff₀ hulp).mpr hneg)
  have hhigh := roundHalfEven_mono ((div_le_iff₀ hulp).mpr hpos)
  rw [show (-2 ^ f.precision : ℚ) = ((-2 ^ f.precision : ℤ) : ℚ) by push_cast; rfl,
    roundHalfEven_intCast] at hlow
  rw [show (2 ^ f.precision : ℚ) = ((2 ^ f.precision : ℤ) : ℚ) by push_cast; rfl,
    roundHalfEven_intCast] at hhigh
  exact abs_le.mpr ⟨hlow, hhigh⟩

/-- Rounded numbers are values. -/
theorem round_round (f : FloatFormat) (x : ℚ) : f.round (f.round x) = f.round x := by
  rcases eq_or_ne (f.round x) 0 with hzero | hne
  · rw [hzero, round_zero]
  have hprecision := f.precision_pos
  have hdigits := abs_roundHalfEven_le f x
  have hmin : f.minExponent ≤ f.ulpExponent x := le_max_left _ _
  have hvalue : f.round x =
    roundHalfEven (x / 2 ^ f.ulpExponent x) * 2 ^ f.ulpExponent x := rfl
  generalize roundHalfEven (x / 2 ^ f.ulpExponent x) = n at hdigits hvalue
  generalize f.ulpExponent x = e at hmin hvalue
  have hunit : (0 : ℚ) < 2 ^ e := zpow_pos (by norm_num) _
  rcases hdigits.lt_or_eq with hless | hfull
  · refine round_of_multiple hvalue ?_
    have habs : |f.round x| < 2 ^ (e + f.precision) := by
      rw [hvalue, abs_mul, abs_of_pos hunit, zpow_add₀ (by norm_num), zpow_natCast, mul_comm]
      exact mul_lt_mul_of_pos_left (by exact_mod_cast hless) hunit
    have hlog := (Int.lt_zpow_iff_log_lt (b := 2) (by norm_num) (abs_pos.mpr hne)).mp
      (by exact_mod_cast habs)
    unfold ulpExponent
    omega
  · -- The digits have rounded up to a power of two.
    have habs : |f.round x| = |(2 : ℚ) ^ (e + f.precision)| := by
      have hcast : |(n : ℚ)| = 2 ^ f.precision := by exact_mod_cast hfull
      rw [hvalue, abs_mul, abs_of_pos hunit, hcast,
        abs_of_pos (zpow_pos (by norm_num) _), zpow_add₀ (by norm_num), zpow_natCast, mul_comm]
    have hulp : f.ulpExponent (f.round x) ≤ e + f.precision := by
      rw [ulpExponent, habs, abs_log_zpow]
      omega
    rcases abs_eq_abs.mp habs with heq | heq
    · exact round_of_multiple (n := 1) (by rw [heq]; simp) hulp
    · exact round_of_multiple (n := -1) (by rw [heq]; simp) hulp

/-- The values of a format are values of a finer one. -/
theorem round_finer {g : FloatFormat} (hprecision : g.precision ≤ f.precision)
    (hmin : f.minExponent ≤ g.minExponent) (h : g.round x = x) : f.round x = x := by
  refine round_of_multiple (n := roundHalfEven (x / 2 ^ g.ulpExponent x)) h.symm ?_
  unfold ulpExponent
  omega

/-- A number of the format is one without its sign. -/
theorem round_abs (h : f.round x = x) : f.round |x| = |x| := by
  rcases abs_cases x with ⟨habs, -⟩ | ⟨habs, -⟩
  · rw [habs, h]
  · have hulp : f.ulpExponent (-x) = f.ulpExponent x := by
      unfold ulpExponent
      rw [abs_neg]
    rw [habs]
    refine round_of_multiple (n := -roundHalfEven (x / 2 ^ f.ulpExponent x)) ?_ hulp.le
    rw [Int.cast_neg, neg_mul]
    exact congrArg Neg.neg h.symm

/-- A value times a power of two is a value, unless it becomes too small. -/
theorem round_scale {k : ℤ} (h : f.round x = x) (hne : x ≠ 0)
    (hmin : f.minExponent ≤ f.ulpExponent x + k) : f.round (x * 2 ^ k) = x * 2 ^ k := by
  have hscale : (0 : ℚ) < 2 ^ k := zpow_pos (by norm_num) _
  have hlog : Int.log 2 |x * 2 ^ k| < Int.log 2 |x| + 1 + k := by
    have hpos : 0 < |x * 2 ^ k| := abs_pos.mpr (mul_ne_zero hne hscale.ne')
    refine (Int.lt_zpow_iff_log_lt (by norm_num) hpos).mp ?_
    have hbound : |x| < 2 ^ (Int.log 2 |x| + 1) := Int.lt_zpow_succ_log_self (by norm_num) _
    rw [abs_mul, abs_of_pos hscale]
    push_cast
    rw [zpow_add₀ (by norm_num) _ k]
    exact mul_lt_mul_of_pos_right hbound hscale
  refine round_of_multiple (n := roundHalfEven (x / 2 ^ f.ulpExponent x))
    (e := f.ulpExponent x + k) ?_ ?_
  · conv_lhs => rw [← h, round]
    rw [zpow_add₀ (by norm_num), mul_assoc]
  · unfold ulpExponent at hmin ⊢
    omega

/-- Two different values are at least half of a last place apart. -/
theorem eq_of_abs_sub_lt (hx : f.round x = x) (hne : x ≠ 0) (hy : f.round y = y)
    (h : |y - x| < 2 ^ (f.ulpExponent x - 1)) : y = x := by
  have hunit : (0 : ℚ) < 2 ^ (f.ulpExponent x - 1) := zpow_pos (by norm_num) _
  rcases le_or_gt (f.ulpExponent x - 1) (f.ulpExponent y) with hle | hlt
  · -- Both are multiples of half the last place.
    obtain ⟨m, hm⟩ := exists_zpow_eq hle
    obtain ⟨n, hn⟩ := exists_zpow_eq (show f.ulpExponent x - 1 ≤ f.ulpExponent x by omega)
    obtain ⟨a, ha⟩ : ∃ a : ℤ, y = a * 2 ^ f.ulpExponent y := ⟨_, hy.symm⟩
    obtain ⟨b, hb⟩ : ∃ b : ℤ, x = b * 2 ^ f.ulpExponent x := ⟨_, hx.symm⟩
    rw [hm] at ha
    rw [hn] at hb
    have hdifference : y - x = (a * m - b * n : ℤ) * 2 ^ (f.ulpExponent x - 1) := by
      push_cast
      linarith
    rw [hdifference, abs_mul, abs_of_pos hunit] at h
    have hone := lt_of_mul_lt_mul_right (h.trans_eq (one_mul _).symm) hunit.le
    have hzero := Int.abs_lt_one_iff.mp (by exact_mod_cast hone)
    rw [hzero, Int.cast_zero, zero_mul] at hdifference
    exact sub_eq_zero.mp hdifference
  · -- The smaller one lies below half of the power of two where the other one begins.
    exfalso
    have hprecision := f.precision_pos
    have hlog : Int.log 2 |y| + 1 ≤ Int.log 2 |x| - 1 ∧ f.ulpExponent x ≤ Int.log 2 |x| := by
      unfold ulpExponent at hlt ⊢
      omega
    have hstart : (2 : ℚ) ^ Int.log 2 |x| ≤ |x| :=
      Int.zpow_log_le_self (by norm_num) (abs_pos.mpr hne)
    have hsmall : |y| < 2 ^ (Int.log 2 |x| - 1) :=
      (show |y| < 2 ^ (Int.log 2 |y| + 1) from Int.lt_zpow_succ_log_self (by norm_num) _).trans_le
        (zpow_le_zpow_right₀ (by norm_num) hlog.1)
    have hhalf : (2 : ℚ) ^ Int.log 2 |x| = 2 * 2 ^ (Int.log 2 |x| - 1) := by
      rw [zpow_sub_one₀ (by norm_num)]
      ring
    have hgap : (2 : ℚ) ^ (f.ulpExponent x - 1) ≤ 2 ^ (Int.log 2 |x| - 1) :=
      zpow_le_zpow_right₀ (by norm_num) (by omega)
    have hdistance := abs_sub_abs_le_abs_sub x y
    rw [abs_sub_comm] at hdistance
    linarith

/-- A number near to a value is rounded to it. -/
theorem round_of_near (hx : f.round x = x) (hne : x ≠ 0)
    (h : |y - x| < 2 ^ (f.ulpExponent x - 2)) : f.round y = x := by
  refine eq_of_abs_sub_lt hx hne (round_round f y) ?_
  have hnearest := abs_round_sub_le (x := y) hx
  have hsum := abs_sub_le (f.round y) y x
  have hhalf : (2 : ℚ) ^ (f.ulpExponent x - 1) = 2 * 2 ^ (f.ulpExponent x - 2) := by
    rw [show f.ulpExponent x - 1 = f.ulpExponent x - 2 + 1 by omega, zpow_add_one₀ (by norm_num)]
    ring
  rw [abs_sub_comm x y] at hnearest
  linarith

end FloatFormat

end Saliwen
