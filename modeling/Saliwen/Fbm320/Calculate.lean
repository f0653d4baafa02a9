import Saliwen.Fbm320.Coefficient
import Saliwen.Lib.Word

/-!
# Compensation formulas of the FBM320

`Calculate()` evaluates two copies of one chain of integer formulas that differ in five
constants. Each stage takes the rounding of its arithmetic as a parameter: `wrap32` gives
the 32-bit arithmetic of the target, the identity gives the same expressions over the
unbounded integers. A right shift of a value in range stays in range and is not rounded.
-/

namespace Saliwen.Fbm320

/-- The constants in which the two branches of `Calculate()` differ. -/
structure Formula where
  /-- Added to `C1` in `X01`. -/
  k1 : ℤ
  /-- Subtracted from `C5` in `X11`; the FBM320 branch has no subtraction there. -/
  k5 : ℤ
  /-- Added to `C4` in `X13`. -/
  k4 : ℤ
  /-- Added to `C8` in `X21`. -/
  k8 : ℤ
  /-- Added to `C7` in `X24` to `X26`. -/
  k7 : ℤ
  deriving DecidableEq, Repr

/-- The branch of `Calculate()` for the FBM320-02. -/
def formulaFbm32002 : Formula := ⟨4459, 4443, 120586, 7180, 166426⟩

/-- The branch of `Calculate()` for the FBM320. -/
def formulaFbm320 : Formula := ⟨4418, 0, 211288, 7209, 285594⟩

/-- The coefficients as the local variables of `Calculate()`: `int` and `long` are 32
bits wide, `C12` is a `signed char`. -/
structure Locals where
  c0 : ℤ
  c1 : ℤ
  c2 : ℤ
  c3 : ℤ
  c4 : ℤ
  c5 : ℤ
  c6 : ℤ
  c7 : ℤ
  c8 : ℤ
  c9 : ℤ
  c10 : ℤ
  c11 : ℤ
  c12 : ℤ
  deriving DecidableEq, Repr

/-- The assignments of the stored coefficients to the local variables. -/
def Coeffs.toLocals (c : Coeffs) : Locals where
  c0 := wrap32 c.c0
  c1 := wrap32 c.c1
  c2 := wrap32 c.c2
  c3 := wrap32 c.c3
  c4 := wrap32 c.c4
  c5 := wrap32 c.c5
  c6 := wrap32 c.c6
  c7 := wrap32 c.c7
  c8 := wrap32 c.c8
  c9 := wrap32 c.c9
  c10 := wrap32 c.c10
  c11 := wrap32 c.c11
  c12 := wrap 8 c.c12

/-- The low `n` bits of a two's complement value, `x & (2^n - 1)`. -/
def lowBits (n : ℕ) (x : ℤ) : ℤ := x % 2 ^ n

section Stages

variable (w : ℤ → ℤ) (k : Formula) (c : Locals)

/-- The temperature stage of `Calculate()`. -/
structure Temperature where
  dt : ℤ
  x01 : ℤ
  x02 : ℤ
  x03 : ℤ
  rt : ℤ
  dt2 : ℤ

/-- `DT` to `DT2`, with the compensated temperature `RT`. -/
def temperature (ut : ℤ) : Temperature :=
  let dt := w ((w (ut - 8388608) >>> (4 : ℕ)) + w (c.c0 <<< (4 : ℕ)))
  let x01 := w (w (c.c1 + k.k1) * dt) >>> (1 : ℕ)
  let x02 := w ((w (w (c.c2 - 256) * dt) >>> (14 : ℕ)) * dt) >>> (4 : ℕ)
  let x03 := w ((w ((w (c.c3 * dt) >>> (18 : ℕ)) * dt) >>> (18 : ℕ)) * dt)
  let rt := w (w (w (w ((2500 : ℤ) <<< (15 : ℕ)) - x01) - x02) - x03) >>> (15 : ℕ)
  let dt2 := w (w (x01 + x02) + x03) >>> (12 : ℕ)
  ⟨dt, x01, x02, x03, rt, dt2⟩

/-- `X11` to `X13`: the pressure offset. -/
def offset (dt2 : ℤ) : ℤ :=
  let x11 := w (w (c.c5 - k.k5) * dt2)
  let x12 := w ((w (c.c6 * dt2) >>> (16 : ℕ)) * dt2) >>> (2 : ℕ)
  w ((w (x11 + x12) >>> (10 : ℕ)) + w (w (c.c4 + k.k4) <<< (4 : ℕ)))

/-- The gain stage of `Calculate()`. -/
structure Gain where
  x23 : ℤ
  x24 : ℤ
  x25 : ℤ
  x26 : ℤ

/-- `X23` to `X26`: the product of `X22 - X21` with `C7` plus its constant, split into a
high and a low part. -/
def gain (x21 x22 : ℤ) : Gain :=
  let x23 := if x22 ≥ x21 then w (x22 - x21) else w (x21 - x22)
  let x24 := w ((x23 >>> (11 : ℕ)) * w (c.c7 + k.k7))
  let x25 := w (lowBits 11 x23 * w (c.c7 + k.k7)) >>> (11 : ℕ)
  let x26 :=
    if w (x22 - x21) < 0 then
      w (w ((w (w (0 - x24) - x25) >>> (11 : ℕ)) + c.c7) + k.k7)
    else
      w (w ((w (x24 + x25) >>> (11 : ℕ)) + c.c7) + k.k7)
  ⟨x23, x24, x25, x26⟩

/-- The scaling stage of `Calculate()`. -/
structure Scaled where
  pp2 : ℤ
  pp3 : ℤ
  pp4 : ℤ

/-- `PP2` to `PP4`: the product of `X26` with `PP1`, again in two parts. -/
def scaled (x26 pp1 : ℤ) : Scaled :=
  let pp2 := w ((x26 >>> (11 : ℕ)) * pp1)
  let pp3 := w (lowBits 11 x26 * pp1) >>> (11 : ℕ)
  ⟨pp2, pp3, w (pp2 + pp3) >>> (10 : ℕ)⟩

/-- `CF`, `X31`, `X32` and the compensated pressure `RP`. -/
def pressure (dt2 pp4 : ℤ) : ℤ :=
  let cf := w (2097152 + w (c.c12 * dt2)) >>> (3 : ℕ)
  let x31 := w ((w (cf * c.c10) >>> (17 : ℕ)) * pp4) >>> (2 : ℕ)
  let x32 := w ((w ((w (cf * c.c11) >>> (15 : ℕ)) * pp4) >>> (18 : ℕ)) * pp4)
  w (w ((w (x31 + x32) >>> (15 : ℕ)) + pp4) + 99880)

/-- One branch of `Calculate()`: the values of `RP` and `RT` for the raw pressure `up`
and the raw temperature `ut`. -/
def compensate (up ut : ℤ) : ℤ × ℤ :=
  let t := temperature w k c ut
  let x13 := offset w k c t.dt2
  let x21 := w (w (c.c8 + k.k8) * t.dt2) >>> (10 : ℕ)
  let x22 := w ((w (c.c9 * t.dt2) >>> (17 : ℕ)) * t.dt2) >>> (12 : ℕ)
  let g := gain w k c x21 x22
  let pp1 := w (w (up - 8388608) - x13) >>> (3 : ℕ)
  (pressure w c t.dt2 (scaled w g.x26 pp1).pp4, t.rt)

end Stages

/-- The formulas `Calculate()` uses under a value of `Formula_Select`. -/
def formulaOf (formulaSelect : UInt8) : Formula :=
  if isFbm32002 formulaSelect then formulaFbm32002 else formulaFbm320

end Saliwen.Fbm320
