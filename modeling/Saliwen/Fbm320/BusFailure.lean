import Saliwen.Fbm320.Driver

/-!
# Bus failures seen by `fbm320_read_data`

One call makes four transfers: configure temperature, read three bytes, configure
pressure, read three bytes. Their result codes are discarded, and the error test that
remains compares assembled words with a value they never take. This file compares the
call with the contract its callers rely on.
-/

namespace Saliwen.Fbm320

/-- All four transfers of a call that starts at transfer `n` succeed. -/
def Device.FourTransfersOk (dev : Device) (n : ℕ) : Prop :=
  dev.ok n = true ∧ dev.ok (n + 1) = true ∧ dev.ok (n + 2) = true ∧ dev.ok (n + 3) = true

/-- The 24-bit word the sensor delivers, or would deliver, in transfer `n`. -/
def Device.deliveredWord (dev : Device) (n : ℕ) : ℤ :=
  word24 [dev.raw n 0, dev.raw n 1, dev.raw n 2]

/-- The contract of one `fbm320_read_data` call: it returns 0 exactly when all four
transfers succeed; then its outputs are those of the words delivered by its own reads;
otherwise it reports an error, leaves the outputs alone, and the publishing loop that
passed its own variable sends pressure 0. -/
def ReportsBusFailures (dev : Device) (s : Driver) (out : Outputs) : Prop :=
  ((fbm320ReadData dev s out).1 = 0 ↔ dev.FourTransfersOk s.transfers) ∧
    (dev.FourTransfersOk s.transfers →
      (fbm320ReadData dev s out).2.1 =
        (calculate (dev.deliveredWord (s.transfers + 3)) (dev.deliveredWord (s.transfers + 1))
          s).outputs) ∧
    (¬ dev.FourTransfersOk s.transfers →
      (fbm320ReadData dev s out).1 ≠ 0 ∧ (fbm320ReadData dev s out).2.1 = out ∧
        (samplePressure dev s out.pressure).1 = 0)

/-- After a successful three-byte read the buffer begins with the delivered word,
whatever it held before. -/
theorem word24_fill {dev : Device} {n : ℕ} (hok : dev.ok n = true) (buf : List UInt8) :
    word24 (dev.fill n fbm320Datam 3 buf) = dev.deliveredWord n := by
  simp [Device.fill, hok, Device.deliveredWord, word24, List.range_succ, Device.byte]

/-- What `Calculate()` stores. -/
theorem calculate_stores (up ut : ℤ) (s : Driver) :
    let result := compensate wrap32 (formulaOf s.formulaSelect) s.coeffs.toLocals up ut
    (calculate up ut s).rpI = result.1 ∧ (calculate up ut s).rtI = result.2 := by
  unfold calculate
  generalize compensate wrap32 (formulaOf s.formulaSelect) s.coeffs.toLocals up ut = result
  exact ⟨rfl, rfl⟩

/-- The outputs of `Calculate()` depend on the formula and the coefficients only. -/
theorem calculate_outputs {s t : Driver} (hformula : s.formulaSelect = t.formulaSelect)
    (hcoeffs : s.coeffs = t.coeffs) (up ut : ℤ) :
    (calculate up ut s).outputs = (calculate up ut t).outputs := by
  obtain ⟨hrp, hrt⟩ := calculate_stores up ut s
  obtain ⟨hrp', hrt'⟩ := calculate_stores up ut t
  unfold Driver.outputs
  rw [hrp, hrt, hrp', hrt', hformula, hcoeffs]

/-- With four successful transfers the call compensates the delivered words. -/
theorem sampled_outputs {dev : Device} {s : Driver} (hok : dev.FourTransfersOk s.transfers) :
    (s.sampled dev).outputs =
      (calculate (dev.deliveredWord (s.transfers + 3)) (dev.deliveredWord (s.transfers + 1))
        s).outputs := by
  obtain ⟨_, hread1, _, hread2⟩ := hok
  unfold Driver.sampled Device.rawTemperature Device.rawPressure
  rw [word24_fill hread1, word24_fill hread2]
  apply calculate_outputs
  · rfl
  · rfl

/-- The call meets its contract exactly on the calls whose four transfers all succeed:
every pattern with a failure is reported as a success. -/
theorem reportsBusFailures_iff (dev : Device) (s : Driver) (out : Outputs) :
    ReportsBusFailures dev s out ↔ dev.FourTransfersOk s.transfers := by
  have hret : (fbm320ReadData dev s out).1 = 0 := by rw [fbm320ReadData_eq]
  constructor
  · intro h
    exact h.1.mp hret
  · intro hok
    refine ⟨iff_of_true hret hok, fun _ => ?_, fun hfail => absurd hok hfail⟩
    rw [fbm320ReadData_eq]
    exact sampled_outputs hok

/-- A sensor that answers no transfer. -/
def deadDevice : Device := ⟨fun _ => 0, fun _ _ => 0, fun _ => false⟩

/-- With a dead bus the call still returns 0. -/
theorem reportsBusFailures_dead_fails : ¬ ReportsBusFailures deadDevice Driver.boot ⟨0, 0⟩ := by
  intro h
  have hfail : ¬ deadDevice.FourTransfersOk Driver.boot.transfers := fun hok => by cases hok.1
  have hret : (fbm320ReadData deadDevice Driver.boot ⟨0, 0⟩).1 = 0 := by rw [fbm320ReadData_eq]
  exact (h.2.2 hfail).1 hret

end Saliwen.Fbm320
