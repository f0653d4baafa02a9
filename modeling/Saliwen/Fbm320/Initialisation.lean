import Saliwen.Fbm320.Agreement
import Saliwen.Fbm320.BusFailure

/-!
# Success reported by `fbm320_init`

One call makes up to twelve transfers: the chip identification, three calibration reads and
two trial measurements of four transfers each. All result codes are discarded, and only the
identification byte is compared with its expected value. This file determines the patterns of
failures under which a reported success rests on data actually read.
-/

namespace Saliwen.Fbm320

/-- All of the `count` transfers from transfer `n` on succeed. -/
def Device.TransfersOk (dev : Device) (n count : ℕ) : Prop := ∀ i < count, dev.ok (n + i) = true

/-- The pressure of a measurement that starts at transfer `n`, computed from the words
delivered by its own two reads. -/
def Device.deliveredPressure (dev : Device) (n : ℕ) (s : Driver) : ℚ :=
  (calculate (dev.deliveredWord (n + 3)) (dev.deliveredWord (n + 1)) s).outputs.pressure

/-- The driver `s'` left by a call that found the driver `s` is initialised from data read by
this call. -/
structure InitialisedFromReads (dev : Device) (s s' : Driver) : Prop where
  transfers : dev.TransfersOk s.transfers 12
  /-- The coefficients are unpacked from the calibration registers. -/
  coeffs : s'.coeffs = unpack s.formulaSelect dev.imageWords
  /-- The formula is decided from two pressures of delivered words. -/
  formulaSelect : s'.formulaSelect =
    chooseFormula
      (dev.deliveredPressure (s.transfers + 4)
        { s with coeffs := unpack s.formulaSelect dev.imageWords })
      (dev.deliveredPressure (s.transfers + 8)
        { s with formulaSelect := 0, coeffs := unpack s.formulaSelect dev.imageWords })

/-- `fbm320_init` reports success only for a driver initialised from data actually read. -/
def SuccessIsFromReads (found : Bool) (dev : Device) (s : Driver) : Prop :=
  (fbm320Init found dev s).1 = 0 → InitialisedFromReads dev s (fbm320Init found dev s).2

/-! ## Calls without failures -/

/-- After its three transfers succeed, the coefficients are those of the image. -/
theorem Driver.calibrated_coeffs {dev : Device} {s : Driver}
    (hok1 : dev.ok (s.transfers + 1) = true) (hok2 : dev.ok (s.transfers + 2) = true)
    (hok3 : dev.ok (s.transfers + 3) = true) :
    (s.calibrated dev).coeffs = unpack s.formulaSelect dev.imageWords := by
  unfold Driver.calibrated
  rw [calibrationWords_eq_imageWords hok1 hok2 hok3]

/-- A measurement whose transfers all succeed yields the pressure of the delivered words, under
the formula and the coefficients in force. -/
theorem sampled_pressure {dev : Device} {s t : Driver} (hok : dev.TransfersOk s.transfers 4)
    (hformula : s.formulaSelect = t.formulaSelect) (hcoeffs : s.coeffs = t.coeffs) :
    (s.sampled dev).outputs.pressure = dev.deliveredPressure s.transfers t := by
  have hfour : dev.FourTransfersOk s.transfers :=
    ⟨hok 0 (by decide), hok 1 (by decide), hok 2 (by decide), hok 3 (by decide)⟩
  unfold Device.deliveredPressure
  rw [sampled_outputs hfour, calculate_outputs hformula hcoeffs]

/-- Transfers that succeed are some of more transfers that succeed. -/
theorem Device.TransfersOk.shift {dev : Device} {n count : ℕ} (hok : dev.TransfersOk n count)
    (offset : ℕ) {count' : ℕ} (hle : offset + count' ≤ count) :
    dev.TransfersOk (n + offset) count' := by
  intro i hi
  rw [add_assoc]
  exact hok (offset + i) (by omega)

/-- If all twelve transfers succeed, the driver is initialised from data read. -/
theorem initialised_fromReads {dev : Device} {s : Driver} (hok : dev.TransfersOk s.transfers 12) :
    InitialisedFromReads dev s (s.initialised dev) := by
  have hcoeffs : (s.calibrated dev).coeffs = unpack s.formulaSelect dev.imageWords :=
    Driver.calibrated_coeffs (hok 1 (by decide)) (hok 2 (by decide)) (hok 3 (by decide))
  refine ⟨hok, hcoeffs, ?_⟩
  unfold Driver.initialised
  have h1 := sampled_pressure (s := s.calibrated dev)
    (t := { s with coeffs := unpack s.formulaSelect dev.imageWords })
    (hok.shift 4 (by decide)) rfl hcoeffs
  have h0 := sampled_pressure (s := { (s.calibrated dev).sampled dev with formulaSelect := 0 })
    (t := { s with formulaSelect := 0, coeffs := unpack s.formulaSelect dev.imageWords })
    (hok.shift 8 (by decide)) rfl hcoeffs
  exact congrArg₂ chooseFormula h1 h0

/-- For every prior driver, every register contents and every pattern of failures, a reported
success rests on data read exactly when the call ends before the calibration or none of the
eleven transfers after the identification fails. -/
theorem successIsFromReads_iff (found : Bool) (dev : Device) (s : Driver) :
    SuccessIsFromReads found dev s ↔
      found = false ∨ ¬ dev.Identified s.transfers ∨ dev.TransfersOk (s.transfers + 1) 11 := by
  unfold SuccessIsFromReads
  cases found with
  | false => simp [fbm320Init]
  | true =>
    rw [fbm320Init_eq]
    by_cases hid : dev.Identified s.transfers
    · rw [if_pos hid]
      simp only [hid, not_true_eq_false, Bool.true_eq_false, false_or, true_implies]
      constructor
      · intro h
        exact h.transfers.shift 1 (by decide)
      · intro hrest
        apply initialised_fromReads
        intro i hi
        cases i with
        | zero => exact hid.1
        | succ i =>
          rw [Nat.add_comm i 1, ← add_assoc]
          exact hrest i (by omega)
    · simp [hid]

/-- A sensor whose bus works for the chip identification only. -/
def identifiedOnlyDevice : Device where
  regs _ := fbm320Id
  raw _ _ := 0
  ok n := n == 0

/-- `fbm320_init` reports success although every calibration read and every measurement
failed. -/
theorem successIsFromReads_identifiedOnly_fails :
    ¬ SuccessIsFromReads true identifiedOnlyDevice Driver.boot := by
  intro h
  have hid : identifiedOnlyDevice.Identified Driver.boot.transfers := by decide
  have hreads := h (by rw [fbm320Init_eq, if_pos hid])
  exact absurd (hreads.transfers 1 (by decide)) (by decide)

end Saliwen.Fbm320
