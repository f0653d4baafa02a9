import Saliwen.Fbm320.BusFailure
import Saliwen.Fbm320.Packing
import Saliwen.Fbm320.Split

/-!
# Overflow of the compensation arithmetic

`Calculate()` runs more than eighty operations on 32-bit integers. Most of them are safe for
every calibration image and all raw words. This file shows that twelve products and sums
decide about all others.
-/

namespace Saliwen.Fbm320

/-! ## Ranges of the inputs -/

/-- The ranges of the local coefficients of `Calculate()`, for both layouts. -/
structure Locals.Ranges (c : Locals) : Prop where
  c0 : 0 ≤ c.c0 ∧ c.c0 < 2 ^ 12
  c1 : 0 ≤ c.c1 ∧ c.c1 < 2 ^ 11
  c2 : 0 ≤ c.c2 ∧ c.c2 < 2 ^ 9
  c3 : 0 ≤ c.c3 ∧ c.c3 < 2 ^ 13
  c4 : 0 ≤ c.c4 ∧ c.c4 < 2 ^ 18
  c5 : 0 ≤ c.c5 ∧ c.c5 < 2 ^ 15
  c6 : 0 ≤ c.c6 ∧ c.c6 < 2 ^ 13
  c7 : 0 ≤ c.c7 ∧ c.c7 < 2 ^ 19
  c8 : 0 ≤ c.c8 ∧ c.c8 < 2 ^ 13
  c9 : 0 ≤ c.c9 ∧ c.c9 < 2 ^ 14
  c10 : 0 ≤ c.c10 ∧ c.c10 < 2 ^ 10
  c11 : 0 ≤ c.c11 ∧ c.c11 < 2 ^ 8
  c12 : 0 ≤ c.c12 ∧ c.c12 < 2 ^ 5

/-- A coefficient of at most 31 bits survives the assignment to an `int` or a `long`. -/
theorem wrap32_natCast_range {x n : ℕ} (hx : x < 2 ^ n) (hn : n ≤ 31) :
    0 ≤ wrap32 x ∧ wrap32 x < 2 ^ n := by
  have hle : (2 : ℕ) ^ n ≤ 2 ^ 31 := Nat.pow_le_pow_right (by decide) hn
  have hcast : (x : ℤ) < 2 ^ n := by exact_mod_cast hx
  rw [wrap32_eq_self (by omega) (by omega)]
  exact ⟨Int.natCast_nonneg x, hcast⟩

/-- The local coefficients of an image, unpacked in either layout. -/
theorem unpack_ranges (formulaSelect : UInt8) (image : Image) :
    (unpack formulaSelect image.words).toLocals.Ranges := by
  have hwidths : (unpack formulaSelect image.words).Widths 18 19 := by
    unfold unpack
    split
    · exact unpackFbm32002_widths image.words_lt
    · exact (unpackFbm320_widths image.words_lt).mono (by decide) (by decide)
  generalize unpack formulaSelect image.words = coeffs at *
  obtain ⟨h0, h1, h2, h3, h4, h5, h6, h7, h8, h9, h10, h11, h12⟩ := hwidths
  -- `C12` goes through a `signed char`.
  have hc12 : wrap 8 coeffs.c12 = coeffs.c12 := by
    apply Int.bmod_eq_of_le
    · norm_num
    · norm_num
      omega
  constructor
  case c12 =>
    simp only [Coeffs.toLocals]
    rw [hc12]
    omega
  all_goals
    simp only [Coeffs.toLocals]
    exact wrap32_natCast_range (by assumption) (by decide)

/-- The ranges of the constants of a branch. -/
structure Formula.Ranges (k : Formula) : Prop where
  k1 : 4418 ≤ k.k1 ∧ k.k1 ≤ 4459
  k5 : 0 ≤ k.k5 ∧ k.k5 ≤ 4443
  k4 : 0 ≤ k.k4 ∧ k.k4 ≤ 211288
  k8 : 7180 ≤ k.k8 ∧ k.k8 ≤ 7209
  k7 : 166426 ≤ k.k7 ∧ k.k7 ≤ 285594

/-- The constants of both formulas lie in their ranges. -/
theorem formulaOf_ranges (formulaSelect : UInt8) : (formulaOf formulaSelect).Ranges := by
  unfold formulaOf
  split
  · constructor <;> decide
  · constructor <;> decide

/-! ## Stages -/

section Stages

variable {k : Formula} {c : Locals}

/-- The range of a raw reading around its middle. -/
theorem raw_within {raw : ℤ} (hraw : 0 ≤ raw ∧ raw < 2 ^ 24) : Within (2 ^ 23) (raw - 8388608) :=
  within_iff.mpr ⟨by omega, by omega⟩

/-- The range of the offset of a raw temperature. -/
theorem c0_within (hc : c.Ranges) : Within 65520 (c.c0 <<< (4 : ℕ)) := by
  have hrange := hc.c0
  rw [Int.shiftLeft_eq]
  exact within_of_nonneg (by omega) (by omega)

/-- The range of the temperature difference. -/
theorem dt_within (hc : c.Ranges) {ut : ℤ} (hut : 0 ≤ ut ∧ ut < 2 ^ 24) :
    Within (524288 + 65520) (temperature id k c ut).dt :=
  ((raw_within hut).mono (by norm_num)).shiftRight.add (c0_within hc)

/-- The linear and the cubic term of the temperature have the sign of `DT`, so that the cubic
one is not larger than their sum. -/
theorem abs_x03_le (hk : k.Ranges) (hc : c.Ranges) (ut : ℤ) :
    |(temperature id k c ut).x03| ≤
      |(temperature id k c ut).x01 + (temperature id k c ut).x03| := by
  have hc1 : 0 ≤ c.c1 + k.k1 := by linarith [hc.c1.1, hk.k1.1]
  have hc3 := hc.c3.1
  simp only [temperature, id_eq]
  generalize (ut - 8388608) >>> (4 : ℕ) + c.c0 <<< (4 : ℕ) = dt
  rcases le_total 0 dt with hdt | hdt
  · have hx01 : 0 ≤ ((c.c1 + k.k1) * dt) >>> (1 : ℕ) :=
      Int.le_shiftRight_of_nonneg (mul_nonneg hc1 hdt)
    have hinner : 0 ≤ (c.c3 * dt) >>> (18 : ℕ) := Int.le_shiftRight_of_nonneg (mul_nonneg hc3 hdt)
    have hx03 : 0 ≤ ((((c.c3 * dt) >>> (18 : ℕ)) * dt) >>> (18 : ℕ)) * dt :=
      mul_nonneg (Int.le_shiftRight_of_nonneg (mul_nonneg hinner hdt)) hdt
    rw [abs_of_nonneg hx03, abs_of_nonneg (add_nonneg hx01 hx03)]
    linarith
  · have hx01 : ((c.c1 + k.k1) * dt) >>> (1 : ℕ) ≤ 0 :=
      Int.shiftRight_le_of_nonpos (mul_nonpos_of_nonneg_of_nonpos hc1 hdt)
    have hinner : (c.c3 * dt) >>> (18 : ℕ) ≤ 0 :=
      Int.shiftRight_le_of_nonpos (mul_nonpos_of_nonneg_of_nonpos hc3 hdt)
    have hx03 : ((((c.c3 * dt) >>> (18 : ℕ)) * dt) >>> (18 : ℕ)) * dt ≤ 0 :=
      mul_nonpos_of_nonneg_of_nonpos
        (Int.le_shiftRight_of_nonneg (mul_nonneg_of_nonpos_of_nonpos hinner hdt)) hdt
    rw [abs_of_nonpos hx03, abs_of_nonpos (add_nonpos hx01 hx03)]
    linarith

/-- The temperature stage is safe if its linear and its quadratic product fit and `DT2` is
small. -/
theorem temperature_fits32 (hk : k.Ranges) (hc : c.Ranges) {ut : ℤ} (hut : 0 ≤ ut ∧ ut < 2 ^ 24)
    (hx01 : Fits32 ((c.c1 + k.k1) * (temperature id k c ut).dt))
    (hx02 : Fits32 ((((c.c2 - 256) * (temperature id k c ut).dt) >>> (14 : ℕ)) *
      (temperature id k c ut).dt))
    (hdt2 : Within 299092 (temperature id k c ut).dt2) :
    ∀ v ∈ temperatureValues k c ut, Fits32 v := by
  have hdt := dt_within (k := k) hc hut
  have hx03le := abs_x03_le hk hc ut
  have hx01' : Within (2 ^ 30) (temperature id k c ut).x01 :=
    (hx01.within.mono (by norm_num)).shiftRight
  have hx02' : Within (2 ^ 27) (temperature id k c ut).x02 :=
    (hx02.within.mono (by norm_num)).shiftRight
  have hsum : Within (299093 * 2 ^ 12) ((temperature id k c ut).x01 +
      (temperature id k c ut).x02 + (temperature id k c ut).x03) := by
    obtain ⟨hlow, hhigh⟩ := Within.of_shiftRight (n := 12) hdt2
    exact within_iff.mpr ⟨hlow.le, hhigh.le⟩
  have hx03 : Within (299093 * 2 ^ 12 + 2 ^ 27) (temperature id k c ut).x03 := by
    have hrest := hsum.sub hx02'
    rw [add_right_comm, add_sub_cancel_right] at hrest
    exact hx03le.trans hrest
  have hc3 := within_of_lt hc.c3
  have hcubic : Fits32 (((c.c3 * (temperature id k c ut).dt) >>> (18 : ℕ)) *
      (temperature id k c ut).dt) :=
    fits32_of_chain (n := 18) (fun hsmall => (hc3.mul hsmall).shiftRight) (by norm_num) (by decide)
      (hx03.fits32 (by norm_num))
  have hlinear : Fits32 (c.c3 * (temperature id k c ut).dt) :=
    fits32_of_chain (n := 18) (fun _ => hc3) (by norm_num) (by decide) hcubic
  have hc1 : Within 6506 (c.c1 + k.k1) := by
    obtain ⟨hlow, hhigh⟩ := hc.c1
    obtain ⟨hlow', hhigh'⟩ := hk.k1
    exact within_of_nonneg (by omega) (by omega)
  have hc2 : Within 256 (c.c2 - 256) := by
    obtain ⟨hlow, hhigh⟩ := hc.c2
    exact within_iff.mpr ⟨by omega, by omega⟩
  have hproduct := (hc2.mul hdt).fits32 (by norm_num)
  have hscale : Within 81920000 ((2500 : ℤ) <<< (15 : ℕ)) :=
    within_of_nonneg (by decide) (by decide)
  have hrt1 := hscale.sub hx01'
  have hrt2 := hrt1.sub hx02'
  have hrt3 : Within (81920000 + 299093 * 2 ^ 12) ((2500 : ℤ) <<< (15 : ℕ) -
      (temperature id k c ut).x01 - (temperature id k c ut).x02 - (temperature id k c ut).x03) := by
    have hall := hscale.sub hsum
    rwa [← sub_sub, ← sub_sub] at hall
  have hrt := hrt3.fits32 (by norm_num)
  have hdt2' := hsum.fits32 (by norm_num)
  have hraw := (raw_within hut).fits32 (by norm_num)
  simp only [temperatureValues, List.forall_mem_cons]
  exact ⟨hraw, hraw.shiftRight 4, (c0_within hc).fits32 (by norm_num), hdt.fits32 (by norm_num),
    hc1.fits32 (by norm_num), hx01, hx01.shiftRight 1, hc2.fits32 (by norm_num), hproduct,
    hproduct.shiftRight 14, hx02, hx02.shiftRight 4, hlinear, hlinear.shiftRight 18, hcubic,
    hcubic.shiftRight 18, hx03.fits32 (by norm_num), hscale.fits32 (by norm_num),
    hrt1.fits32 (by norm_num), hrt2.fits32 (by norm_num), hrt, hrt.shiftRight 15,
    (hx01'.add hx02').fits32 (by norm_num), hdt2', hdt2'.shiftRight 12, by simp⟩

/-- The offset stage is safe if its two products and their sum fit. -/
theorem offset_fits32 (hk : k.Ranges) (hc : c.Ranges) {dt2 : ℤ}
    (hx11 : Fits32 ((c.c5 - k.k5) * dt2))
    (hx12 : Fits32 (((c.c6 * dt2) >>> (16 : ℕ)) * dt2))
    (hx13 : Fits32 ((c.c5 - k.k5) * dt2 +
      (((c.c6 * dt2) >>> (16 : ℕ)) * dt2) >>> (2 : ℕ))) :
    (∀ v ∈ offsetValues k c dt2, Fits32 v) ∧ Within (2 ^ 21 + 7574896) (offset id k c dt2) := by
  have hc6 := within_of_lt hc.c6
  have hlinear : Fits32 (c.c6 * dt2) :=
    fits32_of_chain (n := 16) (fun _ => hc6) (by norm_num) (by decide) hx12
  have hc5 : Within 32767 (c.c5 - k.k5) := by
    obtain ⟨hlow, hhigh⟩ := hc.c5
    obtain ⟨hlow', hhigh'⟩ := hk.k5
    exact within_iff.mpr ⟨by omega, by omega⟩
  have hc4 : 0 ≤ c.c4 + k.k4 ∧ c.c4 + k.k4 ≤ 473431 := by
    obtain ⟨hlow, hhigh⟩ := hc.c4
    obtain ⟨hlow', hhigh'⟩ := hk.k4
    omega
  have hshift : Within 7574896 ((c.c4 + k.k4) <<< (4 : ℕ)) := by
    rw [Int.shiftLeft_eq]
    exact within_of_nonneg (by omega) (by omega)
  have hoffset : Within (2 ^ 21 + 7574896) (offset id k c dt2) :=
    (hx13.within.mono (by norm_num)).shiftRight.add hshift
  refine ⟨?_, hoffset⟩
  simp only [offsetValues, List.forall_mem_cons]
  exact ⟨hc5.fits32 (by norm_num), hx11, hlinear, hlinear.shiftRight 16, hx12, hx12.shiftRight 2,
    hx13, hx13.shiftRight 10, (within_of_nonneg hc4.1 hc4.2).fits32 (by norm_num),
    hshift.fits32 (by norm_num), hoffset.fits32 (by norm_num), by simp⟩

/-- The slopes are safe if their outer products fit. -/
theorem slope_fits32 (hk : k.Ranges) (hc : c.Ranges) {dt2 : ℤ}
    (hx21 : Fits32 ((c.c8 + k.k8) * dt2)) (hx22 : Fits32 (((c.c9 * dt2) >>> (17 : ℕ)) * dt2)) :
    ∀ v ∈ slopeValues k c dt2, Fits32 v := by
  have hc9 := within_of_lt hc.c9
  have hlinear : Fits32 (c.c9 * dt2) :=
    fits32_of_chain (n := 17) (fun _ => hc9) (by norm_num) (by decide) hx22
  have hc8 : Within 15400 (c.c8 + k.k8) := by
    obtain ⟨hlow, hhigh⟩ := hc.c8
    obtain ⟨hlow', hhigh'⟩ := hk.k8
    exact within_of_nonneg (by omega) (by omega)
  simp only [slopeValues, List.forall_mem_cons]
  exact ⟨hc8.fits32 (by norm_num), hx21, hx21.shiftRight 10, hlinear, hlinear.shiftRight 17, hx22,
    hx22.shiftRight 12, by simp⟩

/-- Where two products fit, the operands of the gain lie in their ranges. -/
theorem gainRange_of_fits32 (hk : k.Ranges) (hc : c.Ranges) {dt2 : ℤ}
    (hx21 : Fits32 ((c.c8 + k.k8) * dt2)) (hx22 : Fits32 (((c.c9 * dt2) >>> (17 : ℕ)) * dt2)) :
    GainRange k c (slope k c dt2) (curvature c dt2) :=
  ⟨hc.c7.1, hc.c7.2, hk.k7.1, hk.k7.2, (hx21.within.mono (by norm_num)).shiftRight,
    (hx22.within.mono (by norm_num)).shiftRight⟩

/-- The scaling stage is safe if the product of the low part fits. -/
theorem scaled_fits32 {x26 pp1 : ℤ} (hx26 : Within 1316058 x26) (hpp1 : Within 2257582 pp1)
    (hpp3 : Fits32 (lowBits 11 x26 * pp1)) :
    (∀ v ∈ scaledValues x26 pp1, Fits32 v) ∧ Within 1418720 (scaled id x26 pp1).pp4 := by
  have hhigh : Within 643 (x26 >>> (11 : ℕ)) := (hx26.mono (by norm_num)).shiftRight
  have hlow : Within 2047 (lowBits 11 x26) := by
    unfold lowBits
    exact within_of_nonneg (by omega) (by omega)
  have hpp2 : Within (643 * 2257582) (scaled id x26 pp1).pp2 := hhigh.mul hpp1
  have hpp3' : Within (2 ^ 20) (scaled id x26 pp1).pp3 :=
    (hpp3.within.mono (by norm_num)).shiftRight
  have hsum := hpp2.add hpp3'
  have hpp4 : Within 1418720 (scaled id x26 pp1).pp4 := (hsum.mono (by norm_num)).shiftRight
  refine ⟨?_, hpp4⟩
  simp only [scaledValues, List.forall_mem_cons]
  exact ⟨hhigh.fits32 (by norm_num), hpp2.fits32 (by norm_num), hlow.fits32 (by norm_num), hpp3,
    hpp3'.fits32 (by norm_num), hsum.fits32 (by norm_num), hpp4.fits32 (by norm_num), by simp⟩

/-- `CF`, over the unbounded integers. -/
def exactCf (c : Locals) (dt2 : ℤ) : ℤ := (2097152 + c.c12 * dt2) >>> (3 : ℕ)

/-- The pressure stage is safe if its outer products and their sum fit. -/
theorem pressure_fits32 (hc : c.Ranges) {dt2 pp4 : ℤ} (hdt2 : Within 299092 dt2)
    (hpp4 : Within 1418720 pp4)
    (hx31 : Fits32 (((exactCf c dt2 * c.c10) >>> (17 : ℕ)) * pp4))
    (hx32 : Fits32 (((exactCf c dt2 * c.c11) >>> (15 : ℕ)) * pp4))
    (hx32' : Fits32 (((((exactCf c dt2 * c.c11) >>> (15 : ℕ)) * pp4) >>> (18 : ℕ)) * pp4))
    (hsum : Fits32 ((((exactCf c dt2 * c.c10) >>> (17 : ℕ)) * pp4) >>> (2 : ℕ) +
      ((((exactCf c dt2 * c.c11) >>> (15 : ℕ)) * pp4) >>> (18 : ℕ)) * pp4)) :
    ∀ v ∈ pressureValues c dt2 pp4, Fits32 v := by
  have hc12 := within_of_lt hc.c12
  have hc10 := within_of_lt hc.c10
  have hc11 := within_of_lt hc.c11
  have hproduct := hc12.mul hdt2
  have hcfp : Within (2097152 + 31 * 299092) (2097152 + c.c12 * dt2) :=
    ((within_of_nonneg (by norm_num) le_rfl).add hproduct).mono (by norm_num)
  have hcf : Within 1421126 (exactCf c dt2) := (hcfp.mono (by norm_num)).shiftRight
  have hx31p := (hcf.mul hc10).fits32 (by norm_num)
  have hx32p := (hcf.mul hc11).fits32 (by norm_num)
  have hlast : Within 65536 (((((exactCf c dt2 * c.c10) >>> (17 : ℕ)) * pp4) >>> (2 : ℕ) +
      ((((exactCf c dt2 * c.c11) >>> (15 : ℕ)) * pp4) >>> (18 : ℕ)) * pp4) >>> (15 : ℕ)) :=
    (hsum.within.mono (by norm_num)).shiftRight
  have hrp := hlast.add hpp4
  have hrp' : Within (65536 + 1418720 + 99880) (pressure id c dt2 pp4) :=
    hrp.add (within_of_nonneg (by norm_num) le_rfl)
  simp only [pressureValues, List.forall_mem_cons]
  exact ⟨hproduct.fits32 (by norm_num), hcfp.fits32 (by norm_num), hcf.fits32 (by norm_num),
    hx31p, hx31p.shiftRight 17, hx31, hx31.shiftRight 2, hx32p, hx32p.shiftRight 15, hx32,
    hx32.shiftRight 18, hx32', hsum, hsum.shiftRight 15, hrp.fits32 (by norm_num),
    hrp'.fits32 (by norm_num), by simp⟩

end Stages

/-! ## The critical products -/

/-- The twelve products and sums that can leave the 32-bit range by themselves, in terms of
`DT`, `DT2`, `X26`, `PP1` and `PP4`. -/
structure CriticalFit (k : Formula) (c : Locals) (dt dt2 x26 pp1 pp4 : ℤ) : Prop where
  x01 : Fits32 ((c.c1 + k.k1) * dt)
  x02 : Fits32 ((((c.c2 - 256) * dt) >>> (14 : ℕ)) * dt)
  x11 : Fits32 ((c.c5 - k.k5) * dt2)
  x12 : Fits32 (((c.c6 * dt2) >>> (16 : ℕ)) * dt2)
  x13 : Fits32 ((c.c5 - k.k5) * dt2 + (((c.c6 * dt2) >>> (16 : ℕ)) * dt2) >>> (2 : ℕ))
  x21 : Fits32 ((c.c8 + k.k8) * dt2)
  x22 : Fits32 (((c.c9 * dt2) >>> (17 : ℕ)) * dt2)
  pp3 : Fits32 (lowBits 11 x26 * pp1)
  x31 : Fits32 (((exactCf c dt2 * c.c10) >>> (17 : ℕ)) * pp4)
  x32_inner : Fits32 (((exactCf c dt2 * c.c11) >>> (15 : ℕ)) * pp4)
  x32 : Fits32 (((((exactCf c dt2 * c.c11) >>> (15 : ℕ)) * pp4) >>> (18 : ℕ)) * pp4)
  sum : Fits32 ((((exactCf c dt2 * c.c10) >>> (17 : ℕ)) * pp4) >>> (2 : ℕ) +
    ((((exactCf c dt2 * c.c11) >>> (15 : ℕ)) * pp4) >>> (18 : ℕ)) * pp4)

/-- `DT`, over the unbounded integers. -/
def exactDt (c : Locals) (ut : ℤ) : ℤ := (ut - 8388608) >>> (4 : ℕ) + c.c0 <<< (4 : ℕ)

/-- `DT2`, over the unbounded integers, as a function of `DT`. -/
def exactDt2 (k : Formula) (c : Locals) (dt : ℤ) : ℤ :=
  (((c.c1 + k.k1) * dt) >>> (1 : ℕ) +
    ((((c.c2 - 256) * dt) >>> (14 : ℕ)) * dt) >>> (4 : ℕ) +
    ((((c.c3 * dt) >>> (18 : ℕ)) * dt) >>> (18 : ℕ)) * dt) >>> (12 : ℕ)

/-- The critical products fit for the given coefficients and raw words, where `DT` to `PP4`
are the exact integers. -/
def InputsSafe (k : Formula) (c : Locals) (up ut : ℤ) : Prop :=
  CriticalFit k c (exactDt c ut) (exactDt2 k c (exactDt c ut))
    (exactGain k c (exactDt2 k c (exactDt c ut)))
    (exactPp1 k c up (exactDt2 k c (exactDt c ut)))
    ((exactGain k c (exactDt2 k c (exactDt c ut)) *
      exactPp1 k c up (exactDt2 k c (exactDt c ut))) >>> (21 : ℕ))

/-- The first value of the exact temperature calculation. -/
theorem temperature_dt (k : Formula) (c : Locals) (ut : ℤ) :
    (temperature id k c ut).dt = exactDt c ut := rfl

/-- The second value of the exact temperature calculation. -/
theorem temperature_dt2 (k : Formula) (c : Locals) (ut : ℤ) :
    (temperature id k c ut).dt2 = exactDt2 k c (exactDt c ut) := rfl

/-- `Calculate(UP, UT)` does not overflow: every intermediate value fits, and the stored
results are those of the unbounded integers. -/
def NoOverflow (s : Driver) (up ut : ℤ) : Prop :=
  (∀ v ∈ values (formulaOf s.formulaSelect) s.coeffs.toLocals up ut, Fits32 v) ∧
    ((calculate up ut s).rpI, (calculate up ut s).rtI) =
      compensate id (formulaOf s.formulaSelect) s.coeffs.toLocals up ut

/-- The calculation does not overflow when all its exact values fit. -/
theorem noOverflow_iff_fits32 {s : Driver} {up ut : ℤ} :
    NoOverflow s up ut ↔
      ∀ v ∈ values (formulaOf s.formulaSelect) s.coeffs.toLocals up ut, Fits32 v := by
  refine ⟨fun h => h.1, fun hfits => ⟨hfits, ?_⟩⟩
  obtain ⟨hrp, hrt⟩ := calculate_stores up ut s
  rw [hrp, hrt, Prod.mk.eta]
  exact compensate_eq_of_stored fun v hv => (hfits v hv).wrap32_eq

/-- All values fit exactly when the critical ones do. -/
theorem values_fit_iff {k : Formula} {c : Locals} (hk : k.Ranges) (hc : c.Ranges) {up ut : ℤ}
    (hup : 0 ≤ up ∧ up < 2 ^ 24) (hut : 0 ≤ ut ∧ ut < 2 ^ 24) :
    (∀ v ∈ values k c up ut, Fits32 v) ↔ InputsSafe k c up ut := by
  unfold InputsSafe
  rw [← (scaled_eq_shiftRight _ _).2, ← temperature_dt2, ← temperature_dt k]
  simp only [values, List.forall_mem_append]
  constructor
  · rintro ⟨⟨⟨⟨⟨⟨htemperature, hoffset⟩, hslope⟩, -⟩, -⟩, hscaled⟩, hpressure⟩
    simp only [temperatureValues, offsetValues, slopeValues, scaledValues, pressureValues,
      List.forall_mem_cons] at htemperature hoffset hslope hscaled hpressure
    obtain ⟨-, -, -, -, -, hx01, -, -, -, -, hx02, -⟩ := htemperature
    obtain ⟨-, hx11, -, -, hx12, -, hx13, -⟩ := hoffset
    obtain ⟨-, hx21, -, -, -, hx22, -⟩ := hslope
    obtain ⟨-, -, -, hpp3, -⟩ := hscaled
    obtain ⟨-, -, -, -, -, hx31, -, -, -, hx32, -, hx32', hsum, -⟩ := hpressure
    exact ⟨hx01, hx02, hx11, hx12, hx13, hx21, hx22, hpp3, hx31, hx32, hx32', hsum⟩
  · rintro ⟨hx01, hx02, hx11, hx12, hx13, hx21, hx22, hpp3, hx31, hx32, hx32', hsum⟩
    have hdt2 : Within 299092 (temperature id k c ut).dt2 :=
      (Within.of_mul (m := 7180) (by norm_num) (by linarith [hc.c8.1, hk.k8.1]) hx21.within).mono
        (by norm_num)
    have hgain := gainRange_of_fits32 hk hc hx21 hx22
    obtain ⟨hoffset, hoffset'⟩ := offset_fits32 hk hc hx11 hx12 hx13
    have hup' := raw_within hup
    have hpp1 := hup'.sub hoffset'
    have hpp1' : Within 2257582 (exactPp1 k c up (temperature id k c ut).dt2) :=
      (hpp1.mono (by norm_num)).shiftRight
    have hx26 := within_of_nonneg hgain.x26_bounds.1.le hgain.x26_bounds.2
    obtain ⟨hscaled, hpp4⟩ := scaled_fits32 hx26 hpp1' hpp3
    refine ⟨⟨⟨⟨⟨⟨temperature_fits32 hk hc hut hx01 hx02 hdt2, hoffset⟩,
      slope_fits32 hk hc hx21 hx22⟩, hgain.fits32⟩, ?_⟩, hscaled⟩,
      pressure_fits32 hc hdt2 hpp4 hx31 hx32 hx32' hsum⟩
    simp only [List.forall_mem_cons]
    exact ⟨hup'.fits32 (by norm_num), hpp1.fits32 (by norm_num), hpp1'.fits32 (by norm_num),
      by simp⟩

/-- For both branches, every calibration image unpacked in either layout and all 24-bit raw
words, `Calculate()` is free of overflow exactly when the twelve critical products fit. -/
theorem noOverflow_iff (s : Driver) (formulaSelect : UInt8) (image : Image)
    (up ut : Fin (2 ^ 24)) :
    NoOverflow { s with coeffs := unpack formulaSelect image.words } (up : ℕ) (ut : ℕ) ↔
      InputsSafe (formulaOf s.formulaSelect) (unpack formulaSelect image.words).toLocals
        (up : ℕ) (ut : ℕ) := by
  have hup : (0 : ℤ) ≤ (up : ℕ) ∧ ((up : ℕ) : ℤ) < 2 ^ 24 := ⟨by omega, by omega⟩
  have hut : (0 : ℤ) ≤ (ut : ℕ) ∧ ((ut : ℕ) : ℤ) < 2 ^ 24 := ⟨by omega, by omega⟩
  rw [noOverflow_iff_fits32]
  exact values_fit_iff (formulaOf_ranges s.formulaSelect) (unpack_ranges formulaSelect image)
    hup hut

/-- One of the values that fit. -/
theorem NoOverflow.x01 {s : Driver} {up ut : ℤ} (h : NoOverflow s up ut) :
    Fits32 ((s.coeffs.toLocals.c1 + (formulaOf s.formulaSelect).k1) *
      (temperature id (formulaOf s.formulaSelect) s.coeffs.toLocals ut).dt) := by
  apply h.1
  simp only [values, temperatureValues, List.cons_append, List.mem_cons, true_or, or_true]

/-- A sensor whose calibration bytes are all 0x80, after a failed temperature read left
zeros: `(C1 + 4459) * DT` is below the smallest 32-bit value. -/
theorem noOverflow_failed_read_fails :
    ¬ NoOverflow { Driver.boot with coeffs := unpack 1 (Image.words fun _ => 0x80) } 0 0 := by
  intro h
  have hx01 := h.x01
  revert hx01
  decide +kernel

end Saliwen.Fbm320
