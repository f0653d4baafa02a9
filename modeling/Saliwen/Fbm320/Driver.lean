import Saliwen.Fbm320.Calculate
import Saliwen.Lib.Rounding

/-!
# The FBM320 driver

The driver talks to the sensor through `rt_i2c_transfer`. The bus and the sensor are the
environment: they decide for each transfer whether it succeeds and which bytes a read
delivers. A failed transfer reports a count other than the number of messages and leaves
the read buffer as it was.
-/

namespace Saliwen.Fbm320

/-- The sensor on its bus. Transfers are numbered in the order the driver makes them. -/
structure Device where
  /-- Contents of the identification and calibration registers. -/
  regs : UInt8 → UInt8
  /-- The bytes delivered by the data registers in a given transfer. -/
  raw : ℕ → ℕ → UInt8
  /-- Whether a transfer succeeds. -/
  ok : ℕ → Bool

/-- One execution of `Calculate()`: the value of `Formula_Select` and the stored
coefficients it found. -/
structure Calculation where
  formulaSelect : UInt8
  coeffs : Coeffs
  deriving DecidableEq, Repr

/-- The globals of `fbm320_drv.c`, the number of transfers made so far and the
executions of `Calculate()` so far. -/
structure Driver where
  formulaSelect : UInt8
  coeffs : Coeffs
  upI : ℤ
  utI : ℤ
  rpI : ℤ
  rtI : ℤ
  transfers : ℕ
  calculations : List Calculation
  deriving DecidableEq, Repr

/-- The globals as initialised by their declarations. -/
def Driver.boot : Driver where
  formulaSelect := 1
  coeffs := ⟨0, 0, 0, 0, 0, 0, 0, 0, 0, 0, 0, 0, 0⟩
  upI := 0
  utI := 0
  rpI := 0
  rtI := 0
  transfers := 0
  calculations := []

/-- The two results of `fbm320_read_data`, as `float` values. -/
structure Outputs where
  temperature : ℚ
  pressure : ℚ
  deriving DecidableEq, Repr

def fbm320IdAddr : UInt8 := 0x6B
def fbm320Id : UInt8 := 0x42
def fbm320Config : UInt8 := 0xF4
def fbm320Datam : UInt8 := 0xF6
def osr8192 : UInt8 := 0xF4
def temperatureCmd : UInt8 := 0x2E

/-- The byte a successful read of register `reg` delivers at offset `i`. The register
address advances with each byte; the data registers hold the latest conversion. -/
def Device.byte (dev : Device) (n : ℕ) (reg : UInt8) (i : ℕ) : UInt8 :=
  if reg = fbm320Datam then dev.raw n i else dev.regs (reg + UInt8.ofNat i)

/-- `rt_i2c_transfer` on `num` messages: the number of messages completed. -/
def Device.rtI2cTransfer (dev : Device) (n num : ℕ) : ℕ := if dev.ok n then num else 0

/-- `fbm320_write_reg`: `RT_EOK` (0) or `-RT_ERROR` (-1). The message holds the register
and the data; what the sensor does with it shows only in what it delivers later. -/
def fbm320WriteReg (dev : Device) (_reg : UInt8) (_data : List UInt8) (s : Driver) : ℤ × Driver :=
  let result := if dev.rtI2cTransfer s.transfers 1 = 1 then 0 else -1
  (result, { s with transfers := s.transfers + 1 })

/-- `fbm320_read_reg`: the result code and the caller's buffer afterwards. -/
def fbm320ReadReg (dev : Device) (reg : UInt8) (len : ℕ) (buf : List UInt8) (s : Driver) :
    ℤ × List UInt8 × Driver :=
  let s' := { s with transfers := s.transfers + 1 }
  if dev.rtI2cTransfer s.transfers 2 = 2 then
    (0, (List.range len).map (dev.byte s.transfers reg) ++ buf.drop len, s')
  else
    (-1, buf, s')

/-- `Coefficient()`: read the calibration registers and store the coefficients. -/
def coefficient (dev : Device) (s : Driver) : Driver :=
  let readData := List.replicate 25 0
  let (_, readData, s) := fbm320ReadReg dev 0xAA 18 readData s
  let low : Fin 10 → ℕ := fun i =>
    assemble (readData.getD (i.val * 2) 0) (readData.getD (i.val * 2 + 1) 0)
  let (_, readData, s) := fbm320ReadReg dev 0xA4 1 readData s
  let r9 := (readData.getD 0 0).toNat <<< 8
  let (_, readData, s) := fbm320ReadReg dev 0xF1 1 readData s
  let r9 := r9 ||| (readData.getD 0 0).toNat
  let R : Words := fun i => if i.val < 9 then low i else r9
  { s with coeffs := unpack s.formulaSelect R }

/-- `Calculate(UP, UT)`: store the compensated pressure and temperature. -/
def calculate (up ut : ℤ) (s : Driver) : Driver :=
  let (rp, rt) := compensate wrap32 (formulaOf s.formulaSelect) s.coeffs.toLocals up ut
  { s with
    rpI := rp
    rtI := rt
    calculations := s.calculations ++ [⟨s.formulaSelect, s.coeffs⟩] }

/-- The 24-bit word in the first three bytes of a buffer, as a `long`. -/
def word24 (buf : List UInt8) : ℤ :=
  ((buf.getD 0 0).toNat <<< 16 ||| (buf.getD 1 0).toNat <<< 8 ||| (buf.getD 2 0).toNat : ℕ)

/-- The results computed from `RT_I` and `RP_I`, in `float` arithmetic. -/
def Driver.outputs (s : Driver) : Outputs where
  temperature := binary32.round (binary32.round s.rtI * binary32.round 0.01)
  pressure := binary32.round s.rpI

/-- `fbm320_read_data(&temperature, &pressure)`: the result code as an `unsigned char`,
the two outputs and the driver afterwards. -/
def fbm320ReadData (dev : Device) (s : Driver) (out : Outputs) : UInt8 × Outputs × Driver :=
  let readData := List.replicate 10 0
  let (_, s) := fbm320WriteReg dev fbm320Config [temperatureCmd] s
  let (_, readData, s) := fbm320ReadReg dev fbm320Datam 3 readData s
  let s := { s with utI := word24 readData }
  let (_, s) := fbm320WriteReg dev fbm320Config [osr8192] s
  let (_, readData, s) := fbm320ReadReg dev fbm320Datam 3 readData s
  let s := { s with upI := word24 readData }
  if s.utI = -1 ∨ s.upI = -1 then
    (255, out, s)
  else
    let s := calculate s.upI s.utI s
    (0, s.outputs, s)

/-- The conversion `(int) x` of a `float`: truncation toward zero, with the saturation
of the target's conversion instruction. -/
def floatToInt (x : ℚ) : ℤ :=
  let t := if 0 ≤ x then ⌊x⌋ else ⌈x⌉
  max (-2 ^ 31) (min (2 ^ 31 - 1) t)

/-- `abs(((int) p) - 100000)` in 32-bit arithmetic. -/
def pressureDistance (p : ℚ) : ℤ := wrap32 |wrap32 (floatToInt p - 100000)|

/-- `fbm320_init()`: the result code and the driver afterwards. `found` tells whether
`rt_device_find` finds the bus. -/
def fbm320Init (found : Bool) (dev : Device) (s : Driver) : ℤ × Driver :=
  if !found then
    (-1, s)
  else
    let (_, id, s) := fbm320ReadReg dev fbm320IdAddr 1 [0] s
    if id.getD 0 0 ≠ fbm320Id then
      (1, s)
    else
      let s := coefficient dev s
      let (_, out1, s) := fbm320ReadData dev s ⟨0, 0⟩
      let s := { s with formulaSelect := 0 }
      let (_, out0, s) := fbm320ReadData dev s ⟨0, 0⟩
      let s :=
        if pressureDistance out1.pressure < pressureDistance out0.pressure then
          { s with formulaSelect := 1 }
        else s
      (0, s)

/-- The pressure a round of `kawaii_mqtt_demo` publishes, with its local variable
`pressure` before the round: zero when `fbm320_read_data` reports a failure. -/
def samplePressure (dev : Device) (s : Driver) (pressure : ℚ) : ℚ × Driver :=
  let (result, out, s) := fbm320ReadData dev s ⟨0, pressure⟩
  (if result ≠ 0 then 0 else out.pressure, s)

/-- The caller's buffer after the read made as transfer `n`. -/
def Device.fill (dev : Device) (n : ℕ) (reg : UInt8) (len : ℕ) (buf : List UInt8) : List UInt8 :=
  if dev.ok n then (List.range len).map (dev.byte n reg) ++ buf.drop len else buf

/-- A register write counts as one transfer. -/
theorem fbm320WriteReg_snd (dev : Device) (reg : UInt8) (data : List UInt8) (s : Driver) :
    (fbm320WriteReg dev reg data s).2 = { s with transfers := s.transfers + 1 } := rfl

/-- A read changes only the caller's buffer and the transfer count. -/
theorem fbm320ReadReg_snd (dev : Device) (reg : UInt8) (len : ℕ) (buf : List UInt8) (s : Driver) :
    (fbm320ReadReg dev reg len buf s).2 =
      (dev.fill s.transfers reg len buf, { s with transfers := s.transfers + 1 }) := by
  unfold fbm320ReadReg Device.rtI2cTransfer Device.fill
  by_cases hok : dev.ok s.transfers = true
  · simp [hok]
  · simp [hok]

/-- An assembled word is a natural number, never the error value the driver tests for. -/
theorem word24_ne_neg_one (buf : List UInt8) : word24 buf ≠ -1 := by
  have hnonneg : 0 ≤ word24 buf := Int.natCast_nonneg _
  omega

/-- The raw temperature word assembled by a call that starts at transfer `n`. -/
def Device.rawTemperature (dev : Device) (n : ℕ) : ℤ :=
  word24 (dev.fill (n + 1) fbm320Datam 3 (List.replicate 10 0))

/-- The raw pressure word assembled by a call that starts at transfer `n`. Its read
buffer still holds what the temperature read left there. -/
def Device.rawPressure (dev : Device) (n : ℕ) : ℤ :=
  word24 (dev.fill (n + 3) fbm320Datam 3 (dev.fill (n + 1) fbm320Datam 3 (List.replicate 10 0)))

/-- The driver after `fbm320_read_data`. -/
def Driver.sampled (dev : Device) (s : Driver) : Driver :=
  calculate (dev.rawPressure s.transfers) (dev.rawTemperature s.transfers)
    { s with
      utI := dev.rawTemperature s.transfers
      upI := dev.rawPressure s.transfers
      transfers := s.transfers + 4 }

/-- The assembled words are never negative, so the error branch of `fbm320_read_data`
is dead: the call always reports success and always overwrites both outputs. -/
theorem fbm320ReadData_eq (dev : Device) (s : Driver) (out : Outputs) :
    fbm320ReadData dev s out = (0, (s.sampled dev).outputs, s.sampled dev) := by
  unfold fbm320ReadData
  simp only [fbm320WriteReg_snd, fbm320ReadReg_snd]
  rw [if_neg (not_or.mpr ⟨word24_ne_neg_one _, word24_ne_neg_one _⟩)]
  rfl

/-- A measurement leaves the coefficients as they are. -/
theorem Driver.sampled_coeffs (dev : Device) (s : Driver) :
    (s.sampled dev).coeffs = s.coeffs := rfl

/-- A measurement leaves the choice of the formula as it is. -/
theorem Driver.sampled_formulaSelect (dev : Device) (s : Driver) :
    (s.sampled dev).formulaSelect = s.formulaSelect := rfl

/-- A measurement ends with one calculation, by the formula and the coefficients set. -/
theorem Driver.sampled_calculations (dev : Device) (s : Driver) :
    (s.sampled dev).calculations = s.calculations ++ [⟨s.formulaSelect, s.coeffs⟩] := rfl

/-! ## Initialisation, for every pattern of failures -/

/-- The words `Coefficient()` assembles when its first transfer is number `n`. All three reads
use one buffer, so a failed one leaves the bytes of an earlier read or zeros. -/
def Device.calibrationWords (dev : Device) (n : ℕ) : Words := fun i =>
  let buf := dev.fill n 0xAA 18 (List.replicate 25 0)
  let buf4 := dev.fill (n + 1) 0xA4 1 buf
  let buf1 := dev.fill (n + 2) 0xF1 1 buf4
  if i.val < 9 then assemble (buf.getD (i.val * 2) 0) (buf.getD (i.val * 2 + 1) 0)
  else assemble (buf4.getD 0 0) (buf1.getD 0 0)

/-- `Coefficient()` stores the coefficients of the assembled words under the current
`Formula_Select` and changes no other global. -/
theorem coefficient_eq (dev : Device) (s : Driver) :
    coefficient dev s =
      { s with
        transfers := s.transfers + 3
        coeffs := unpack s.formulaSelect (dev.calibrationWords s.transfers) } := by
  unfold coefficient
  simp only [fbm320ReadReg_snd]
  rfl

/-- The chip identification made as transfer `n` succeeds and delivers the expected byte. -/
def Device.Identified (dev : Device) (n : ℕ) : Prop :=
  dev.ok n = true ∧ dev.regs fbm320IdAddr = fbm320Id

instance (dev : Device) (n : ℕ) : Decidable (dev.Identified n) :=
  inferInstanceAs (Decidable (dev.ok n = true ∧ dev.regs fbm320IdAddr = fbm320Id))

/-- The decision of `fbm320_init` about `Formula_Select`: the formula whose trial pressure is
closer to 100000. -/
def chooseFormula (p1 p0 : ℚ) : UInt8 :=
  if pressureDistance p1 < pressureDistance p0 then 1 else 0

/-- One of two formulas is chosen. -/
theorem chooseFormula_cases (p1 p0 : ℚ) : chooseFormula p1 p0 = 0 ∨ chooseFormula p1 p0 = 1 := by
  unfold chooseFormula
  split
  · exact Or.inr rfl
  · exact Or.inl rfl

/-- The driver after `Coefficient()` inside `fbm320_init`. -/
def Driver.calibrated (dev : Device) (s : Driver) : Driver :=
  { s with
    transfers := s.transfers + 4
    coeffs := unpack s.formulaSelect (dev.calibrationWords (s.transfers + 1)) }

/-- The driver after the second trial measurement of `fbm320_init`. -/
def Driver.tried (dev : Device) (s : Driver) : Driver :=
  Driver.sampled dev { (s.calibrated dev).sampled dev with formulaSelect := 0 }

/-- The driver after a successful `fbm320_init`. -/
def Driver.initialised (dev : Device) (s : Driver) : Driver :=
  { s.tried dev with
    formulaSelect := chooseFormula ((s.calibrated dev).sampled dev).outputs.pressure
      (s.tried dev).outputs.pressure }

/-- The ID read has the expected answer when the sensor is identified. -/
theorem Device.fill_id (dev : Device) (n : ℕ) :
    (dev.fill n fbm320IdAddr 1 [0]).getD 0 0 = fbm320Id ↔ dev.Identified n := by
  unfold Device.fill Device.Identified
  by_cases hok : dev.ok n = true
  · rw [if_pos hok, and_iff_right hok]
    rfl
  · rw [if_neg hok]
    exact iff_of_false (by decide) fun h => hok h.1

/-- The comparison of the two trials chooses the formula. -/
theorem select_eq_chooseFormula (s : Driver) (hformula : s.formulaSelect = 0) (p1 p0 : ℚ) :
    (if pressureDistance p1 < pressureDistance p0 then { s with formulaSelect := 1 } else s) =
      { s with formulaSelect := chooseFormula p1 p0 } := by
  unfold chooseFormula
  split
  · rfl
  · rw [← hformula]

/-- The result and the driver afterwards, once the bus is found. -/
theorem fbm320Init_eq (dev : Device) (s : Driver) :
    fbm320Init true dev s =
      if dev.Identified s.transfers then (0, s.initialised dev)
      else (1, { s with transfers := s.transfers + 1 }) := by
  unfold fbm320Init
  simp only [Bool.not_true, Bool.false_eq_true, if_false, fbm320ReadReg_snd, ne_eq,
    dev.fill_id, ite_not, coefficient_eq, fbm320ReadData_eq]
  split
  · exact congrArg (Prod.mk 0) (select_eq_chooseFormula (s.tried dev) rfl _ _)
  · rfl

end Saliwen.Fbm320
