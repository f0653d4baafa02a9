import Saliwen.Fbm320.Driver

/-!
# Formula and coefficients of the FBM320

`Formula_Select` is read when the coefficients are unpacked and again at every
compensation. `fbm320_init` unpacks once, measures, clears `Formula_Select`, measures
again and may set it back, without unpacking a second time. This file determines the
calibration images for which every compensation nevertheless runs on the coefficients of
its own branch.
-/

namespace Saliwen.Fbm320

/-- The words of the calibration registers: `R[0..8]` from 0xAA to 0xBB, `R[9]` from
0xA4 and 0xF1. -/
def Device.imageWords (dev : Device) : Words := fun i =>
  if i.val < 9 then
    assemble (dev.regs (0xAA + UInt8.ofNat (i.val * 2)))
      (dev.regs (0xAA + UInt8.ofNat (i.val * 2 + 1)))
  else assemble (dev.regs 0xA4) (dev.regs 0xF1)

/-- Every execution of `Calculate()` so far found the coefficients that `Coefficient()`
unpacks from the calibration image under the branch taken. -/
def CoefficientsMatchFormula (dev : Device) (s : Driver) : Prop :=
  ∀ c ∈ s.calculations, c.coeffs = unpack c.formulaSelect dev.imageWords

/-- Any number of successive `fbm320_read_data` calls. -/
def readMany (dev : Device) : ℕ → Driver → Driver
  | 0, s => s
  | k + 1, s => readMany dev k (fbm320ReadData dev s ⟨0, 0⟩).2.2

private theorem fill_getD {dev : Device} {n : ℕ} {reg : UInt8} {len i : ℕ} {buf : List UInt8}
    (hok : dev.ok n = true) (hi : i < len) :
    (dev.fill n reg len buf).getD i 0 = dev.byte n reg i := by
  simp [Device.fill, hok, List.getD_eq_getElem?_getD, List.getElem?_append, hi]

/-- If the three reads succeed, the assembled words are those of the registers. -/
theorem calibrationWords_eq_imageWords {dev : Device} {n : ℕ} (hok0 : dev.ok n = true)
    (hok1 : dev.ok (n + 1) = true) (hok2 : dev.ok (n + 2) = true) :
    dev.calibrationWords n = dev.imageWords := by
  funext i
  unfold Device.calibrationWords Device.imageWords
  by_cases hi : i.val < 9
  · rw [if_pos hi, if_pos hi, fill_getD hok0 (by omega), fill_getD hok0 (by omega)]
    rfl
  · rw [if_neg hi, if_neg hi, fill_getD hok1 (by omega), fill_getD hok2 (by omega)]
    rfl

/-- The executions of `Calculate()` in repeated readings: each finds the coefficients
and the formula that were there before. -/
theorem readMany_calculations (dev : Device) (k : ℕ) (s : Driver) :
    (readMany dev k s).calculations =
      s.calculations ++ List.replicate k ⟨s.formulaSelect, s.coeffs⟩ := by
  induction k generalizing s with
  | zero => simp [readMany]
  | succ k ih =>
    rw [readMany, ih, fbm320ReadData_eq, List.replicate_succ]
    simp [Driver.sampled_coeffs, Driver.sampled_formulaSelect, Driver.sampled_calculations]

/-- A successful initialisation after power-on: the coefficients are unpacked under
formula 1, and the two trial measurements run under formulas 1 and 0 on them. -/
theorem fbm320Init_spec {found : Bool} {dev : Device} (hok : ∀ n, dev.ok n = true)
    (hinit : (fbm320Init found dev Driver.boot).1 = 0) :
    (fbm320Init found dev Driver.boot).2.coeffs = unpack 1 dev.imageWords ∧
      ((fbm320Init found dev Driver.boot).2.formulaSelect = 0 ∨
        (fbm320Init found dev Driver.boot).2.formulaSelect = 1) ∧
      (fbm320Init found dev Driver.boot).2.calculations =
        [⟨1, unpack 1 dev.imageWords⟩, ⟨0, unpack 1 dev.imageWords⟩] := by
  cases found with
  | false => simp [fbm320Init] at hinit
  | true =>
    rw [fbm320Init_eq] at hinit ⊢
    by_cases hid : dev.Identified Driver.boot.transfers
    · rw [if_pos hid]
      have hcoeffs : (Driver.boot.calibrated dev).coeffs = unpack 1 dev.imageWords :=
        congrArg (unpack 1) (calibrationWords_eq_imageWords (hok _) (hok _) (hok _))
      refine ⟨hcoeffs, chooseFormula_cases _ _, ?_⟩
      rw [← hcoeffs]
      rfl
    · rw [if_neg hid] at hinit
      cases hinit

/-- Over a successful initialisation and any number of readings, the stored coefficients
always belong to the branch `Calculate()` takes exactly when the calibration image has
zero in every place that the two layouts use differently. -/
theorem coefficientsMatchFormula_iff {found : Bool} {dev : Device} (hok : ∀ n, dev.ok n = true)
    (hinit : (fbm320Init found dev Driver.boot).1 = 0) (k : ℕ) :
    CoefficientsMatchFormula dev (readMany dev k (fbm320Init found dev Driver.boot).2) ↔
      dev.imageWords 3 = 0 ∧ dev.imageWords 6 = 0 ∧ dev.imageWords 0 % 16 = 0 ∧
        dev.imageWords 5 % 8 = 0 := by
  obtain ⟨hcoeffs, hformula, hcalcs⟩ := fbm320Init_spec hok hinit
  rw [← unpackFbm32002_eq_unpackFbm320_iff]
  have h1 : unpack 1 dev.imageWords = unpackFbm32002 dev.imageWords := rfl
  have h0 : unpack 0 dev.imageWords = unpackFbm320 dev.imageWords := rfl
  unfold CoefficientsMatchFormula
  rw [readMany_calculations, hcalcs, hcoeffs]
  constructor
  · intro h
    have htrial := h ⟨0, unpack 1 dev.imageWords⟩ (by simp)
    rwa [h1, h0] at htrial
  · intro hsame c hc
    have hunpack : c.coeffs = unpack 1 dev.imageWords ∧
        (c.formulaSelect = 0 ∨ c.formulaSelect = 1) := by
      rcases List.mem_append.mp hc with hc | hc
      · rcases List.mem_pair.mp hc with rfl | rfl
        · exact ⟨rfl, Or.inr rfl⟩
        · exact ⟨rfl, Or.inl rfl⟩
      · rw [List.eq_of_mem_replicate hc]
        exact ⟨rfl, hformula⟩
    obtain ⟨hc1, hc0 | hc0⟩ := hunpack
    · rw [hc1, hc0, h1, h0, hsame]
    · rw [hc1, hc0]

/-- A sensor with a working bus whose image is zero just where the two layouts differ. -/
def commonDevice : Device where
  regs a :=
    if a = fbm320IdAddr then fbm320Id
    else if a = 0xAB then 0xF0
    else if a = 0xB5 then 0xF8
    else if a = 0xB0 ∨ a = 0xB1 ∨ a = 0xB6 ∨ a = 0xB7 then 0
    else 0xFF
  raw _ _ := 0x5A
  ok _ := true

/-- On this image the driver agrees with itself. -/
theorem coefficientsMatchFormula_common :
    (fbm320Init true commonDevice Driver.boot).1 = 0 ∧
      CoefficientsMatchFormula commonDevice
        (readMany commonDevice 2 (fbm320Init true commonDevice Driver.boot).2) :=
  ⟨rfl, (coefficientsMatchFormula_iff (fun _ => rfl) rfl 2).mpr (by decide)⟩

/-- A sensor with a working bus whose calibration registers all hold the given byte. -/
def uniformDevice (b : UInt8) : Device where
  regs a := if a = fbm320IdAddr then fbm320Id else b
  raw _ _ := 0
  ok _ := true

/-- With every calibration byte equal to 1 the second trial measurement inside
`fbm320_init` already runs the FBM320 formulas on FBM320-02 coefficients. -/
theorem coefficientsMatchFormula_ones_fails :
    (fbm320Init true (uniformDevice 1) Driver.boot).1 = 0 ∧
      ¬ CoefficientsMatchFormula (uniformDevice 1)
        (fbm320Init true (uniformDevice 1) Driver.boot).2 := by
  refine ⟨rfl, fun h => ?_⟩
  obtain ⟨_, _, hcalcs⟩ := @fbm320Init_spec true (uniformDevice 1) (fun _ => rfl) rfl
  have htrial := h ⟨0, unpack 1 (uniformDevice 1).imageWords⟩ (by rw [hcalcs]; simp)
  revert htrial
  decide

end Saliwen.Fbm320
