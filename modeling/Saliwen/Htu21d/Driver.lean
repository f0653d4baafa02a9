import Saliwen.Lib.Rounding
import Saliwen.Lib.BitField
import Mathlib.Tactic.Ring

/-!
# The HTU21D driver

`read_temp` and `read_humi` write a measurement command, wait, read two bytes into a
zeroed buffer and convert them when the status bit is the expected one. The result codes
of both transfers are discarded, so the returned value depends only on what the read left
in the buffer. Conversions are written over a rounding function, so that one definition
gives the `float` the code computes and the value of the same expression in exact
arithmetic.
-/

namespace Saliwen.Htu21d

/-- The two measurements of the sensor. -/
inductive Kind where
  | temperature
  | humidity
  deriving DecidableEq, Repr

/-- The measurement commands `HTU21D_READ_TEMP` and `HTU21D_READ_HUMI`. -/
def Kind.command : Kind → UInt8
  | .temperature => 0xF3
  | .humidity => 0xF5

/-- The kind of measurement the sensor remembers after receiving a command. -/
def remember (sensor : Option Kind) (command : UInt8) : Option Kind :=
  if command = Kind.temperature.command then some .temperature
  else if command = Kind.humidity.command then some .humidity
  else sensor

/-- The two bytes of a measurement, most significant byte first. -/
structure Word where
  msb : UInt8
  lsb : UInt8
  deriving DecidableEq, Repr

/-- The status bit, bit 1 of the low byte, tells the kind of a word. -/
def Word.kind (w : Word) : Kind := if w.lsb &&& 0x02 = 0 then .temperature else .humidity

/-- `(temp[0] << 8 | temp[1]) & 0xfffc`: the word without its status bits. -/
def Word.signal (w : Word) : ℕ := (w.msb.toNat <<< 8 ||| w.lsb.toNat) &&& 0xfffc

/-- The caller's buffer `temp` after its read, which is `none` when the transfer failed.
A failed read leaves the initial zeros. -/
def bufferAfter (own : Option Word) : Word := own.getD ⟨0, 0⟩

/-- `read_temp()`, by the outcome of its own read transfer. -/
def readTemp (round : ℚ → ℚ) (own : Option Word) : ℚ :=
  let temp := bufferAfter own
  if temp.lsb &&& 0x02 = 0 then
    round (round (-46.85) + round (round (round 175.72 * temp.signal) / 65536))
  else -1

/-- `read_humi()`, by the outcome of its own read transfer. Every operand of the
conversion is an `int`, so the division discards the fraction. -/
def readHumi (round : ℚ → ℚ) (own : Option Word) : ℚ :=
  let temp := bufferAfter own
  if temp.lsb &&& 0x02 = 0x02 then
    round ((-6 + 125 * (temp.signal : ℤ) / 65536 : ℤ) : ℚ)
  else -1

/-- The temperature a word stands for. -/
def Word.temperature (w : Word) : ℚ := -46.85 + 175.72 * w.signal / 65536

/-- The relative humidity a word stands for. -/
def Word.humidity (w : Word) : ℚ := -6 + 125 * w.signal / 65536

/-- A signal has 16 bits. -/
theorem Word.signal_lt (w : Word) : w.signal < 65536 :=
  lt_of_le_of_lt Nat.and_le_right (by decide)

/-- A byte masked with `0x02` is either zero or the mask. -/
private theorem and_two_cases (b : UInt8) : b &&& 0x02 = 0 ∨ b &&& 0x02 = 0x02 := by
  obtain ⟨b⟩ := b
  revert b
  decide +kernel

/-- The test of `read_humi` recognises the humidity words. -/
theorem Word.kind_eq_humidity_iff (w : Word) : w.kind = .humidity ↔ w.lsb &&& 0x02 = 0x02 := by
  unfold Word.kind
  rcases and_two_cases w.lsb with h | h
  · simp [h]
  · simp [h]

/-- The test of `read_temp` recognises the temperature words. -/
theorem Word.kind_eq_temperature_iff (w : Word) : w.kind = .temperature ↔ w.lsb &&& 0x02 = 0 := by
  unfold Word.kind
  by_cases h : w.lsb &&& 0x02 = 0
  · simp [h]
  · simp [h]

/-- No temperature word stands for the error value. -/
theorem Word.temperature_ne_neg_one (w : Word) : w.temperature ≠ -1 := by
  intro h
  have hscaled : (17572 : ℚ) * w.signal = 4585 * 65536 := by
    unfold Word.temperature at h
    linarith
  have hnat : 17572 * w.signal = 4585 * 65536 := by exact_mod_cast hscaled
  omega

/-- What `read_temp` returns after a read that delivered a temperature word, in exact
arithmetic. -/
theorem readTemp_of_temperature {w : Word} (h : w.kind = .temperature) :
    readTemp id (some w) = w.temperature := by
  simp only [readTemp, bufferAfter, Option.getD_some, (Word.kind_eq_temperature_iff w).mp h,
    if_true, id, Word.temperature]

/-- The status bit of a humidity word makes `read_temp` return -1. -/
theorem readTemp_of_humidity {round : ℚ → ℚ} {w : Word} (h : w.kind = .humidity) :
    readTemp round (some w) = -1 := by
  have hbit : ¬ w.lsb &&& 0x02 = 0 := by
    rw [← Word.kind_eq_temperature_iff, h]
    decide
  simp only [readTemp, bufferAfter, Option.getD_some, hbit, if_false]

/-- The zeros of an unwritten buffer look like a temperature word. -/
theorem readTemp_none : readTemp id none = -46.85 := by
  norm_num [readTemp, bufferAfter, Word.signal]

/-- The status bit of a temperature word makes `read_humi` return -1. -/
theorem readHumi_of_temperature {round : ℚ → ℚ} {w : Word} (h : w.kind = .temperature) :
    readHumi round (some w) = -1 := by
  have hbit : ¬ w.lsb &&& 0x02 = 0x02 := by
    rw [← Word.kind_eq_humidity_iff, h]
    decide
  simp only [readHumi, bufferAfter, Option.getD_some, hbit, if_false]

/-- A failed first transfer leaves zeros in the buffer, which `read_humi` takes for an error. -/
theorem readHumi_none (round : ℚ → ℚ) : readHumi round none = -1 := by
  simp [readHumi, bufferAfter]

/-- What `read_humi` returns after a read that delivered a humidity word. The integer
result is exact in every format that represents small integers. -/
theorem readHumi_of_humidity {round : ℚ → ℚ} {w : Word} (h : w.kind = .humidity)
    (hround : ∀ n : ℤ, |n| < 2 ^ 24 → round n = n) :
    readHumi round (some w) = ((-6 + 125 * (w.signal : ℤ) / 65536 : ℤ) : ℚ) := by
  simp only [readHumi, bufferAfter, Option.getD_some, (Word.kind_eq_humidity_iff w).mp h, if_true]
  apply hround
  have hlt := w.signal_lt
  rw [abs_lt]
  omega

/-- The fraction that the integer division of `read_humi` discards. -/
theorem Word.humidity_sub_floor (w : Word) :
    w.humidity - ((-6 + 125 * (w.signal : ℤ) / 65536 : ℤ) : ℚ) =
      ((125 * w.signal % 65536 : ℕ) : ℚ) / 65536 := by
  have hmod : ((125 * w.signal % 65536 : ℕ) : ℤ) = 125 * (w.signal : ℤ) % 65536 := by omega
  have hdiv : 65536 * (125 * (w.signal : ℤ) / 65536) + ((125 * w.signal % 65536 : ℕ) : ℤ) =
      125 * w.signal := by
    rw [hmod]
    exact Int.mul_ediv_add_emod _ _
  have hrat := congrArg (Int.cast : ℤ → ℚ) hdiv
  simp only [Int.cast_add, Int.cast_mul, Int.cast_natCast, Int.cast_ofNat] at hrat
  unfold Word.humidity
  rw [Int.cast_add, Int.cast_neg, Int.cast_ofNat]
  linarith

end Saliwen.Htu21d
