import Saliwen.Lib.BitField

/-!
# Calibration coefficients of the FBM320

The calibration image is ten 16-bit words. `Coefficient()` unpacks thirteen bit fields
from them, in one of two layouts selected by `Formula_Select`: the FBM320-02 layout and
the FBM320 layout. Only `C4`, `C7` and `C12` differ between the two.
-/

namespace Saliwen.Fbm320

/-- The words `R[0]` to `R[9]` assembled by `Coefficient()`. -/
abbrev Words := Fin 10 → ℕ

/-- The stored coefficients `C0_I` to `C12_I`. -/
structure Coeffs where
  c0 : ℕ
  c1 : ℕ
  c2 : ℕ
  c3 : ℕ
  c4 : ℕ
  c5 : ℕ
  c6 : ℕ
  c7 : ℕ
  c8 : ℕ
  c9 : ℕ
  c10 : ℕ
  c11 : ℕ
  c12 : ℕ
  deriving DecidableEq, Repr

/-- The test on `Formula_Select` made by both `Coefficient()` and `Calculate()`: true
selects the FBM320-02 formulas, false the FBM320 ones. -/
def isFbm32002 (formulaSelect : UInt8) : Bool :=
  formulaSelect &&& 0xF0 == 0x10 || formulaSelect &&& 0x0F == 0x01

/-- A 16-bit word from its two bytes. -/
def assemble (hi lo : UInt8) : ℕ := (hi.toNat <<< 8) ||| lo.toNat

/-- The FBM320-02 layout of `Coefficient()`. -/
def unpackFbm32002 (R : Words) : Coeffs where
  c0 := R 0 >>> 4
  c1 := ((R 1 &&& 0xFF00) >>> 5) ||| (R 2 &&& 7)
  c2 := ((R 1 &&& 0xFF) <<< 1) ||| (R 4 &&& 1)
  c3 := R 2 >>> 3
  c4 := (R 3 <<< 2) ||| (R 0 &&& 3)
  c5 := R 4 >>> 1
  c6 := R 5 >>> 3
  c7 := (R 6 <<< 3) ||| (R 5 &&& 7)
  c8 := R 7 >>> 3
  c9 := R 8 >>> 2
  c10 := ((R 9 &&& 0xFF00) >>> 6) ||| (R 8 &&& 3)
  c11 := R 9 &&& 0xFF
  c12 := ((R 0 &&& 0x0C) <<< 1) ||| (R 7 &&& 7)

/-- The FBM320 layout of `Coefficient()`. -/
def unpackFbm320 (R : Words) : Coeffs where
  c0 := R 0 >>> 4
  c1 := ((R 1 &&& 0xFF00) >>> 5) ||| (R 2 &&& 7)
  c2 := ((R 1 &&& 0xFF) <<< 1) ||| (R 4 &&& 1)
  c3 := R 2 >>> 3
  c4 := (R 3 <<< 1) ||| (R 5 &&& 1)
  c5 := R 4 >>> 1
  c6 := R 5 >>> 3
  c7 := (R 6 <<< 2) ||| ((R 0 >>> 2) &&& 3)
  c8 := R 7 >>> 3
  c9 := R 8 >>> 2
  c10 := ((R 9 &&& 0xFF00) >>> 6) ||| (R 8 &&& 3)
  c11 := R 9 &&& 0xFF
  c12 := ((R 5 &&& 6) <<< 2) ||| (R 7 &&& 7)

/-- The coefficients `Coefficient()` unpacks under a value of `Formula_Select`. -/
def unpack (formulaSelect : UInt8) (R : Words) : Coeffs :=
  if isFbm32002 formulaSelect then unpackFbm32002 R else unpackFbm320 R

/-- The place of `C4` in the image of the FBM320-02. -/
theorem unpackFbm32002_c4 (R : Words) : (unpackFbm32002 R).c4 = R 3 * 4 + R 0 % 4 :=
  shiftLeft_or_and_mask (R 3) (R 0) 2

/-- The place of `C4` in the image of the FBM320. -/
theorem unpackFbm320_c4 (R : Words) : (unpackFbm320 R).c4 = R 3 * 2 + R 5 % 2 :=
  shiftLeft_or_and_mask (R 3) (R 5) 1

/-- The place of `C7` in the image of the FBM320-02. -/
theorem unpackFbm32002_c7 (R : Words) : (unpackFbm32002 R).c7 = R 6 * 8 + R 5 % 8 :=
  shiftLeft_or_and_mask (R 6) (R 5) 3

/-- The place of `C7` in the image of the FBM320. -/
theorem unpackFbm320_c7 (R : Words) : (unpackFbm320 R).c7 = R 6 * 4 + R 0 / 4 % 4 := by
  have hshift : R 0 >>> 2 = R 0 / 4 := Nat.shiftRight_eq_div_pow (R 0) 2
  simp only [unpackFbm320, hshift]
  exact shiftLeft_or_and_mask (R 6) (R 0 / 4) 2

/-- The place of `C12` in the image of the FBM320-02. -/
theorem unpackFbm32002_c12 (R : Words) :
    (unpackFbm32002 R).c12 = R 0 / 4 % 4 * 8 + R 7 % 8 := by
  have hfield : R 0 &&& 0x0C = R 0 / 4 % 4 * 4 := and_shifted_mask (R 0) 2 2
  have hmask : (R 0 &&& 0x0C) <<< 1 = (R 0 / 4 % 4) <<< 3 := by
    rw [hfield, Nat.shiftLeft_eq, Nat.shiftLeft_eq]
    omega
  simp only [unpackFbm32002, hmask]
  exact shiftLeft_or_and_mask (R 0 / 4 % 4) (R 7) 3

/-- The place of `C12` in the image of the FBM320. -/
theorem unpackFbm320_c12 (R : Words) :
    (unpackFbm320 R).c12 = R 5 / 2 % 4 * 8 + R 7 % 8 := by
  have hfield : R 5 &&& 6 = R 5 / 2 % 4 * 2 := and_shifted_mask (R 5) 1 2
  have hmask : (R 5 &&& 6) <<< 2 = (R 5 / 2 % 4) <<< 3 := by
    rw [hfield, Nat.shiftLeft_eq, Nat.shiftLeft_eq]
    omega
  simp only [unpackFbm320, hmask]
  exact shiftLeft_or_and_mask (R 5 / 2 % 4) (R 7) 3

/-- The two layouts of one image give the same coefficients only when the words and
bits they place differently are all zero. -/
theorem unpackFbm32002_eq_unpackFbm320_iff (R : Words) :
    unpackFbm32002 R = unpackFbm320 R ↔
      R 3 = 0 ∧ R 6 = 0 ∧ R 0 % 16 = 0 ∧ R 5 % 8 = 0 := by
  have hfields : unpackFbm32002 R = unpackFbm320 R ↔
      (unpackFbm32002 R).c4 = (unpackFbm320 R).c4 ∧
        (unpackFbm32002 R).c7 = (unpackFbm320 R).c7 ∧
        (unpackFbm32002 R).c12 = (unpackFbm320 R).c12 := by
    simp [unpackFbm32002, unpackFbm320]
  rw [hfields, unpackFbm32002_c4, unpackFbm320_c4, unpackFbm32002_c7, unpackFbm320_c7,
    unpackFbm32002_c12, unpackFbm320_c12]
  have h0 : R 0 / 4 / 4 = R 0 / 16 := Nat.div_div_eq_div_mul (R 0) 4 4
  have h5 : R 5 / 2 / 4 = R 5 / 8 := Nat.div_div_eq_div_mul (R 5) 2 4
  omega

end Saliwen.Fbm320
