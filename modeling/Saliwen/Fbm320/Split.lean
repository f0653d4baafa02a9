import Saliwen.Fbm320.Values

/-!
# Split products of `Calculate()`

Two products of `Calculate()` are too wide for 32 bits. `X24` to `X26` multiply `X22 - X21`
with `C7` plus a constant, `PP2` to `PP4` multiply `X26` with `PP1`, each in a high part and a
masked low part. This file compares them with the wide products.
-/

namespace Saliwen.Fbm320

/-- The two parts of a split product make up the shifted wide product. -/
theorem split_mul (x p : ℤ) :
    (x >>> (11 : ℕ)) * p + (lowBits 11 x * p) >>> (11 : ℕ) = (x * p) >>> (11 : ℕ) :=
  shiftRight_mul_add_mod x p 11

/-- `PP2 + PP3` and `PP4` are the shifts of the wide product. -/
theorem scaled_eq_shiftRight (x26 pp1 : ℤ) :
    (scaled id x26 pp1).pp2 + (scaled id x26 pp1).pp3 = (x26 * pp1) >>> (11 : ℕ) ∧
      (scaled id x26 pp1).pp4 = (x26 * pp1) >>> (21 : ℕ) := by
  have hsum : (scaled id x26 pp1).pp2 + (scaled id x26 pp1).pp3 = (x26 * pp1) >>> (11 : ℕ) :=
    split_mul x26 pp1
  have hpp4 : (scaled id x26 pp1).pp4 =
      ((scaled id x26 pp1).pp2 + (scaled id x26 pp1).pp3) >>> (10 : ℕ) := rfl
  refine ⟨hsum, ?_⟩
  rw [hpp4, hsum, ← Int.shiftRight_add]

section Gain

variable {k : Formula} {c : Locals} {x21 x22 : ℤ}

/-- `X26` when `X22 >= X21`: the shift of the wide product. -/
theorem gain_x26_of_le (h : x21 ≤ x22) :
    (gain id k c x21 x22).x26 =
      c.c7 + k.k7 + ((x22 - x21) * (c.c7 + k.k7)) >>> (22 : ℕ) := by
  have hnot : ¬ x22 - x21 < 0 := by omega
  have hwide := split_mul (x22 - x21) (c.c7 + k.k7)
  have hshift := Int.shiftRight_add ((x22 - x21) * (c.c7 + k.k7)) 11 11
  simp only [gain, id_eq, ge_iff_le, if_pos h, if_neg hnot]
  rw [hwide, ← hshift]
  ring

/-- `X26` when `X22 < X21`: the product of the magnitude is shifted, negated and shifted
again, which gives the shift of the wide product or one more. -/
theorem gain_x26_of_lt (h : x22 < x21) :
    (gain id k c x21 x22).x26 =
        c.c7 + k.k7 + ((x22 - x21) * (c.c7 + k.k7)) >>> (22 : ℕ) ∨
      (gain id k c x21 x22).x26 =
        c.c7 + k.k7 + ((x22 - x21) * (c.c7 + k.k7)) >>> (22 : ℕ) + 1 := by
  have hnot : ¬ x21 ≤ x22 := by omega
  have hneg : x22 - x21 < 0 := by omega
  have hwide := split_mul (x21 - x22) (c.c7 + k.k7)
  have hproduct : -((x21 - x22) * (c.c7 + k.k7)) = (x22 - x21) * (c.c7 + k.k7) := by ring
  have hround := neg_shiftRight_shiftRight ((x21 - x22) * (c.c7 + k.k7)) 11 11
  rw [hproduct] at hround
  simp only [gain, id_eq, ge_iff_le, if_neg hnot, if_pos hneg]
  rw [zero_sub, sub_eq_add_neg, ← neg_add, hwide]
  rcases hround with hround | hround
  · left
    rw [hround]
    ring
  · right
    rw [hround]
    ring

/-- The ranges of what the gain stage reads: `C7` and its constant, and `X21` and `X22` as
right shifts of 32-bit values by 10 and by 12. -/
structure GainRange (k : Formula) (c : Locals) (x21 x22 : ℤ) : Prop where
  c7_nonneg : 0 ≤ c.c7
  c7_lt : c.c7 < 2 ^ 19
  k7_low : 166426 ≤ k.k7
  k7_high : k.k7 ≤ 285594
  x21 : Within (2 ^ 21) x21
  x22 : Within (2 ^ 19) x22

/-- The range of the factor of the gain. -/
theorem GainRange.factor (h : GainRange k c x21 x22) : Within 809881 (c.c7 + k.k7) := by
  obtain ⟨hlow, hhigh, hk, hk', -, -⟩ := h
  exact within_of_nonneg (by omega) (by omega)

/-- The range of the difference in the gain. -/
theorem GainRange.difference (h : GainRange k c x21 x22) : Within 2621440 (x22 - x21) :=
  (h.x22.sub h.x21).mono (by norm_num)

/-- `X26` is positive and has 21 bits. -/
theorem GainRange.x26_bounds (h : GainRange k c x21 x22) :
    0 < (gain id k c x21 x22).x26 ∧ (gain id k c x21 x22).x26 ≤ 1316058 := by
  obtain ⟨hlow, hhigh⟩ := within_iff.mp h.difference
  have hfactor := (within_iff.mp h.factor).2
  obtain ⟨hc, hc', hk, hk', -, -⟩ := h
  have hwide : (gain id k c x21 x22).x26 =
        c.c7 + k.k7 + ((x22 - x21) * (c.c7 + k.k7)) >>> (22 : ℕ) ∨
      (gain id k c x21 x22).x26 =
        c.c7 + k.k7 + ((x22 - x21) * (c.c7 + k.k7)) >>> (22 : ℕ) + 1 := by
    rcases le_or_gt x21 x22 with hle | hlt
    · exact Or.inl (gain_x26_of_le hle)
    · exact gain_x26_of_lt hlt
  have hproduct : -2621440 * (c.c7 + k.k7) ≤ (x22 - x21) * (c.c7 + k.k7) :=
    mul_le_mul_of_nonneg_right (by omega) (by omega)
  have hproduct' : (x22 - x21) * (c.c7 + k.k7) ≤ 2621440 * (c.c7 + k.k7) :=
    mul_le_mul_of_nonneg_right (by omega) (by omega)
  rw [Int.shiftRight_eq_div_pow] at hwide
  generalize (x22 - x21) * (c.c7 + k.k7) = product at *
  norm_num at hwide
  omega

/-- No value from `X23` to `X26` needs more than 32 bits. -/
theorem GainRange.fits32 (h : GainRange k c x21 x22) :
    ∀ v ∈ gainValues k c x21 x22, Fits32 v := by
  have hdifference := h.difference
  have hfactor := h.factor
  obtain ⟨hx26, hx26'⟩ := h.x26_bounds
  have hx23 : Within (1280 * 2 ^ 11) (gain id k c x21 x22).x23 := by
    obtain ⟨hlow, hhigh⟩ := within_iff.mp hdifference
    simp only [gain, id_eq]
    split
    · exact within_iff.mpr ⟨by omega, by omega⟩
    · exact within_iff.mpr ⟨by omega, by omega⟩
  have hhigh : Within 1280 ((gain id k c x21 x22).x23 >>> (11 : ℕ)) := hx23.shiftRight
  have hlow : Within 2047 (lowBits 11 (gain id k c x21 x22).x23) := by
    unfold lowBits
    exact within_of_nonneg (by omega) (by omega)
  have hx24 : Within (1280 * 809881) (gain id k c x21 x22).x24 := hhigh.mul hfactor
  have hpart : Within (2047 * 809881) (lowBits 11 (gain id k c x21 x22).x23 * (c.c7 + k.k7)) :=
    hlow.mul hfactor
  have hx25 : Within 809881 (gain id k c x21 x22).x25 :=
    (hpart.mono (by norm_num)).shiftRight
  have hc7 : Within 524287 c.c7 := within_of_nonneg h.c7_nonneg (by have := h.c7_lt; omega)
  have hneg : Within (0 + 1280 * 809881) (0 - (gain id k c x21 x22).x24) :=
    (within_of_nonneg le_rfl le_rfl).sub hx24
  have hsum : Within (1280 * 809881 + 809881) (if x22 - x21 < 0 then
      0 - (gain id k c x21 x22).x24 - (gain id k c x21 x22).x25
      else (gain id k c x21 x22).x24 + (gain id k c x21 x22).x25) := by
    split
    · exact (hneg.sub hx25).mono (by norm_num)
    · exact hx24.add hx25
  have hshifted := Within.shiftRight (b := 506572) (n := 11) (hsum.mono (by norm_num))
  have hlast := within_of_nonneg hx26.le hx26'
  simp only [gainValues, List.forall_mem_append, List.forall_mem_cons]
  refine ⟨⟨⟨hx23.fits32 (by norm_num), hhigh.fits32 (by norm_num), hfactor.fits32 (by norm_num),
    hx24.fits32 (by norm_num), hlow.fits32 (by norm_num), hpart.fits32 (by norm_num),
    hx25.fits32 (by norm_num), hdifference.fits32 (by norm_num), by simp⟩, ?_⟩,
    hsum.fits32 (by norm_num), hshifted.fits32 (by norm_num),
    (hshifted.add hc7).fits32 (by norm_num), hlast.fits32 (by norm_num), by simp⟩
  split
  · simpa using hneg.fits32 (by norm_num)
  · simp

end Gain

/-- The constant added to `C7` in either branch. -/
theorem formulaOf_k7 (formulaSelect : UInt8) :
    166426 ≤ (formulaOf formulaSelect).k7 ∧ (formulaOf formulaSelect).k7 ≤ 285594 := by
  unfold formulaOf
  split <;> decide

/-- The split products equal the wide ones. For every `C7` of 19 bits and all 32-bit values
behind `X21` and `X22`, the steps from `X23` to `X26` stay within 32 bits and their two tests
agree; `X26` is positive, and it is the wide product shifted by 22 bits when `X22 >= X21` and
that or one more otherwise. For all integers, `PP2 + PP3` and `PP4` are the wide product
shifted by 11 and by 21 bits. -/
theorem split_products_eq_wide (formulaSelect : UInt8) {c : Locals} (hc : 0 ≤ c.c7)
    (hc' : c.c7 < 2 ^ 19) {y z : ℤ} (hy : Fits32 y) (hz : Fits32 z) :
    let k := formulaOf formulaSelect
    let K := c.c7 + k.k7
    let x21 := y >>> (10 : ℕ)
    let x22 := z >>> (12 : ℕ)
    let x26 := (gain wrap32 k c x21 x22).x26
    ((∀ v ∈ gainValues k c x21 x22, Fits32 v) ∧
      gain wrap32 k c x21 x22 = gain id k c x21 x22) ∧
      (x22 ≥ x21 ↔ ¬ wrap32 (x22 - x21) < 0) ∧
      0 < x26 ∧
      (x22 ≥ x21 → x26 = K + ⌊(((x22 - x21) * K : ℤ) : ℚ) / 2 ^ 22⌋) ∧
      (x22 < x21 → x26 = K + ⌊(((x22 - x21) * K : ℤ) : ℚ) / 2 ^ 22⌋ ∨
        x26 = K + ⌊(((x22 - x21) * K : ℤ) : ℚ) / 2 ^ 22⌋ + 1) ∧
      ∀ x26 pp1 : ℤ,
        (scaled id x26 pp1).pp2 + (scaled id x26 pp1).pp3 = ⌊((x26 * pp1 : ℤ) : ℚ) / 2 ^ 11⌋ ∧
          (scaled id x26 pp1).pp4 = ⌊((x26 * pp1 : ℤ) : ℚ) / 2 ^ 21⌋ := by
  intro k K x21 x22 x26
  obtain ⟨hk, hk'⟩ := formulaOf_k7 formulaSelect
  have hrange : GainRange k c x21 x22 :=
    ⟨hc, hc', hk, hk', (hy.within.mono (by norm_num)).shiftRight,
      (hz.within.mono (by norm_num)).shiftRight⟩
  have hfits := hrange.fits32
  have hsame : gain wrap32 k c x21 x22 = gain id k c x21 x22 :=
    gain_eq_of_stored fun v hv => (hfits v hv).wrap32_eq
  have hx26 : x26 = (gain id k c x21 x22).x26 := congrArg Gain.x26 hsame
  have hdifference : wrap32 (x22 - x21) = x22 - x21 :=
    (hrange.difference.fits32 (by norm_num)).wrap32_eq
  simp only [← shiftRight_eq_floor]
  refine ⟨⟨hfits, hsame⟩, ?_, ?_, ?_, ?_, scaled_eq_shiftRight⟩
  · rw [hdifference]
    omega
  · rw [hx26]
    exact hrange.x26_bounds.1
  · intro hge
    rw [hx26, gain_x26_of_le hge]
  · intro hlt
    rw [hx26]
    exact gain_x26_of_lt hlt

/-- The largest `C7` with the largest `X21` and the smallest `X22`. -/
theorem split_products_eq_wide_extreme :
    let c : Locals := ⟨0, 0, 0, 0, 0, 0, 0, 2 ^ 19 - 1, 0, 0, 0, 0, 0⟩
    let x21 := (2 ^ 31 - 1 : ℤ) >>> (10 : ℕ)
    let x22 := (-2 ^ 31 : ℤ) >>> (12 : ℕ)
    Fits32 (2 ^ 31 - 1) ∧ Fits32 (-2 ^ 31) ∧ 0 < (gain wrap32 (formulaOf 1) c x21 x22).x26 := by
  intro c x21 x22
  have hy : Fits32 (2 ^ 31 - 1) := by decide
  have hz : Fits32 (-2 ^ 31) := by decide
  exact ⟨hy, hz, (split_products_eq_wide 1 (c := c) (by decide) (by decide) hy hz).2.2.1⟩

end Saliwen.Fbm320
