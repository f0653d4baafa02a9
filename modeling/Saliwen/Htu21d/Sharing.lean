import Saliwen.Htu21d.Driver
import Saliwen.Lib.Run
import Mathlib.Logic.Function.Basic

/-!
# Two threads reading one HTU21D

The main loop calls `read_temp` and the MQTT thread calls `read_temp` and `read_humi` on
the same sensor. A call is a write transfer and a later read transfer, with no lock around
them, and both may fail. The sensor answers with a word of the kind of the last command it
received, whoever sent it.
-/

namespace Saliwen.Htu21d

/-- The threads that use the sensor. -/
inductive Reader where
  | mainLoop
  | mqttThread
  deriving DecidableEq, Repr

/-- The driver functions a thread calls: the main loop only `read_temp`. -/
def Reader.calls : Reader → Kind → Bool
  | .mainLoop, .temperature => true
  | .mainLoop, .humidity => false
  | .mqttThread, _ => true

/-- A completed call: the function, the outcome of its own read and what it returned. -/
structure Call where
  kind : Kind
  own : Option Word
  value : ℚ
  deriving DecidableEq, Repr

/-- The kind of the last command the sensor received, the call each thread is in between
its two transfers, and the completed calls. -/
structure Sharing where
  sensor : Option Kind
  pending : Reader → Option Kind
  completed : List Call

/-- One transfer. The outcome of a read is the word it delivers, or `none`. -/
inductive Transfer where
  | write (reader : Reader) (kind : Kind) (ok : Bool)
  | read (reader : Reader) (own : Option Word)
  deriving DecidableEq, Repr

/-- The outcomes of a read that the sensor allows: a failure, or a word of the kind of
the last command. -/
def Delivers (sensor : Option Kind) (own : Option Word) : Prop :=
  ∀ w, own = some w → sensor = some w.kind

instance (sensor : Option Kind) (own : Option Word) : Decidable (Delivers sensor own) :=
  decidable_of_iff (own.all fun w => sensor = some w.kind) (by
    cases own with
    | none => simp [Delivers]
    | some w => simp [Delivers])

/-- The function a call of the given kind runs, in exact arithmetic. -/
def readValue : Kind → Option Word → ℚ
  | .temperature => readTemp id
  | .humidity => readHumi id

/-- One transfer of a thread. A thread begins a call only when it is in none, and a read
completes the call the thread is in. -/
def transferStep (s : Sharing) : Transfer → Sharing
  | .write reader kind ok =>
    if s.pending reader = none ∧ reader.calls kind = true then
      { s with
        sensor := if ok then remember s.sensor kind.command else s.sensor
        pending := Function.update s.pending reader (some kind) }
    else s
  | .read reader own =>
    match s.pending reader with
    | none => s
    | some kind =>
      if Delivers s.sensor own then
        { s with
          pending := Function.update s.pending reader none
          completed := s.completed ++ [⟨kind, own, readValue kind own⟩] }
      else s

/-- No call made yet, over a sensor that may remember an earlier command. -/
def Sharing.start (sensor : Option Kind) : Sharing := ⟨sensor, fun _ => none, []⟩

/-- The quantity of the given kind that a word stands for. -/
def Word.measured (w : Word) : Kind → ℚ
  | .temperature => w.temperature
  | .humidity => w.humidity

/-- The law of one call: it returns something other than the error value exactly when its
own read delivered a word of its kind, and then what that word stands for. -/
def Call.Faithful (c : Call) : Prop :=
  (c.value ≠ -1 ↔ ∃ w, c.own = some w ∧ w.kind = c.kind) ∧
    ∀ w, c.own = some w → w.kind = c.kind → c.value = w.measured c.kind

/-- The read outcomes on which the driver functions keep the law: for `read_temp` every
read that succeeds, for `read_humi` every read that fails, delivers a temperature word, or
delivers a humidity word without fraction. -/
def KeepsLaw : Kind → Option Word → Prop
  | .temperature, own => own ≠ none
  | .humidity, own => ∀ w, own = some w → w.kind = .humidity → w.signal = 0

/-- The first half of the law alone: the error value is returned exactly when the call's
own read delivered no word of its kind. -/
def Call.ToldApart (c : Call) : Prop := c.value ≠ -1 ↔ ∃ w, c.own = some w ∧ w.kind = c.kind

/-- The read outcomes on which the driver functions keep the first half of the law: as for
the whole law, but with every humidity word whose truncated humidity is not -1. -/
def KeepsApart : Kind → Option Word → Prop
  | .temperature, own => own ≠ none
  | .humidity, own =>
    ∀ w, own = some w → w.kind = .humidity → w.signal < 2622 ∨ 3145 < w.signal

/-- `read_temp` keeps the law exactly when its read succeeds. -/
theorem readTemp_faithful_iff (own : Option Word) :
    (⟨.temperature, own, readValue .temperature own⟩ : Call).Faithful ↔ own ≠ none := by
  cases own with
  | none =>
    -- The unwritten buffer is converted as if it were a measurement.
    have hvalue : readValue .temperature none ≠ -1 := by
      rw [readValue, readTemp_none]
      norm_num
    simp [Call.Faithful, hvalue]
  | some w =>
    cases hkind : w.kind with
    | temperature =>
      have hvalue : readValue .temperature (some w) = w.temperature := readTemp_of_temperature hkind
      simp [Call.Faithful, hkind, hvalue, Word.measured, w.temperature_ne_neg_one]
    | humidity =>
      have hvalue : readValue .temperature (some w) = -1 := readTemp_of_humidity hkind
      simp [Call.Faithful, hkind, hvalue]

/-- The truncated humidity is the measured one only for the word without signal. -/
theorem readHumi_eq_measured_iff {w : Word} (hkind : w.kind = .humidity) :
    readValue .humidity (some w) = w.humidity ↔ w.signal = 0 := by
  have hvalue : readValue .humidity (some w) = ((-6 + 125 * (w.signal : ℤ) / 65536 : ℤ) : ℚ) :=
    readHumi_of_humidity hkind fun _ _ => rfl
  have hdiff := w.humidity_sub_floor
  rw [← hvalue] at hdiff
  have hlt := w.signal_lt
  constructor
  · intro heq
    rw [heq, sub_self] at hdiff
    have hzero : ((125 * w.signal % 65536 : ℕ) : ℚ) = 0 := by linarith
    have hmod : 125 * w.signal % 65536 = 0 := by exact_mod_cast hzero
    omega
  · intro hsignal
    rw [hsignal] at hdiff
    norm_num at hdiff
    linarith

/-- `read_humi` keeps the law exactly when its read fails, delivers a temperature word, or
delivers a humidity word without signal. -/
theorem readHumi_faithful_iff (own : Option Word) :
    (⟨.humidity, own, readValue .humidity own⟩ : Call).Faithful ↔ KeepsLaw .humidity own := by
  cases own with
  | none =>
    have hvalue : readValue .humidity none = -1 := readHumi_none id
    simp [Call.Faithful, hvalue, KeepsLaw]
  | some w =>
    cases hkind : w.kind with
    | temperature =>
      have hvalue : readValue .humidity (some w) = -1 := readHumi_of_temperature hkind
      simp [Call.Faithful, hkind, hvalue, KeepsLaw]
    | humidity =>
      have hexact := readHumi_eq_measured_iff hkind
      constructor
      · rintro ⟨-, hmeasured⟩ w' hw' -
        obtain rfl : w = w' := by simpa using hw'
        exact hexact.mp (hmeasured w rfl hkind)
      · intro hkeeps
        have hsignal := hkeeps w rfl hkind
        have hvalue := hexact.mpr hsignal
        have hne : readValue .humidity (some w) ≠ -1 := by
          rw [hvalue, Word.humidity, hsignal]
          norm_num
        refine ⟨iff_of_true hne ⟨w, rfl, hkind⟩, ?_⟩
        intro w' hw' _
        obtain rfl : w = w' := by simpa using hw'
        exact hvalue

/-- A call is faithful when its outcome keeps the law of its kind. -/
theorem faithful_iff (kind : Kind) (own : Option Word) :
    (⟨kind, own, readValue kind own⟩ : Call).Faithful ↔ KeepsLaw kind own := by
  cases kind with
  | temperature => exact readTemp_faithful_iff own
  | humidity => exact readHumi_faithful_iff own

/-- `read_temp` fails to keep the whole law only by breaking its first half. -/
theorem readTemp_toldApart_iff (own : Option Word) :
    (⟨.temperature, own, readValue .temperature own⟩ : Call).ToldApart ↔ own ≠ none := by
  constructor
  · rintro h rfl
    have hvalue : readValue .temperature none ≠ -1 := by
      rw [readValue, readTemp_none]
      norm_num
    obtain ⟨w, hw, -⟩ := h.mp hvalue
    cases hw
  · intro hown
    exact ((readTemp_faithful_iff own).mpr hown).1

/-- The truncated humidity is the error value for a range of words. -/
theorem readHumi_eq_error_iff {w : Word} (hkind : w.kind = .humidity) :
    readValue .humidity (some w) = -1 ↔ 2622 ≤ w.signal ∧ w.signal ≤ 3145 := by
  have hvalue : readValue .humidity (some w) = ((-6 + 125 * (w.signal : ℤ) / 65536 : ℤ) : ℚ) :=
    readHumi_of_humidity hkind fun _ _ => rfl
  have hint : ((-6 + 125 * (w.signal : ℤ) / 65536 : ℤ) : ℚ) = -1 ↔
      -6 + 125 * (w.signal : ℤ) / 65536 = -1 := by
    rw [← Int.cast_one, ← Int.cast_neg, Int.cast_inj]
  rw [hvalue, hint]
  omega

/-- `read_humi` keeps the first half of the law exactly on the words outside that range. -/
theorem readHumi_toldApart_iff (own : Option Word) :
    (⟨.humidity, own, readValue .humidity own⟩ : Call).ToldApart ↔ KeepsApart .humidity own := by
  cases own with
  | none =>
    have hvalue : readValue .humidity none = -1 := readHumi_none id
    simp [Call.ToldApart, hvalue, KeepsApart]
  | some w =>
    cases hkind : w.kind with
    | temperature =>
      have hvalue : readValue .humidity (some w) = -1 := readHumi_of_temperature hkind
      simp [Call.ToldApart, hkind, hvalue, KeepsApart]
    | humidity =>
      have herror := readHumi_eq_error_iff hkind
      simp only [Call.ToldApart, KeepsApart, ne_eq, herror, Option.some.injEq, exists_eq_left',
        forall_eq', hkind, forall_const, iff_true]
      omega

/-- A call tells failures apart when its outcome does so. -/
theorem toldApart_iff (kind : Kind) (own : Option Word) :
    (⟨kind, own, readValue kind own⟩ : Call).ToldApart ↔ KeepsApart kind own := by
  cases kind with
  | temperature => exact readTemp_toldApart_iff own
  | humidity => exact readHumi_toldApart_iff own

/-- The step completes a call of the given kind with the given read outcome. -/
def Completes (s : Sharing) (a : Transfer) (kind : Kind) (own : Option Word) : Prop :=
  ∃ reader, a = .read reader own ∧ s.pending reader = some kind ∧ Delivers s.sensor own

/-- A transfer either completes one call or adds none to the record. -/
theorem transferStep_completed (s : Sharing) (a : Transfer) :
    (∃ kind own, Completes s a kind own ∧
      (transferStep s a).completed = s.completed ++ [⟨kind, own, readValue kind own⟩]) ∨
      ((∀ kind own, ¬ Completes s a kind own) ∧ (transferStep s a).completed = s.completed) := by
  cases a with
  | write reader kind ok =>
    right
    constructor
    · rintro _ _ ⟨_, ha, -⟩
      cases ha
    · simp only [transferStep]
      split <;> rfl
  | read reader own =>
    cases hpending : s.pending reader with
    | none =>
      right
      refine ⟨?_, by simp only [transferStep, hpending]⟩
      rintro kind own ⟨reader', ha, hsome, -⟩
      cases ha
      simp [hpending] at hsome
    | some kind =>
      by_cases hdelivers : Delivers s.sensor own
      · left
        refine ⟨kind, own, ⟨reader, rfl, hpending, hdelivers⟩, ?_⟩
        simp only [transferStep, hpending, if_pos hdelivers]
      · right
        refine ⟨?_, by simp only [transferStep, hpending, if_neg hdelivers]⟩
        rintro kind own ⟨reader', ha, -, hd⟩
        cases ha
        exact hdelivers hd

/-- If a law of single calls is decided by the outcome of the call's own read, all completed
calls keep it exactly when each call completes with such an outcome. -/
theorem always_completed_iff {law : Call → Prop} {keeps : Kind → Option Word → Prop}
    (hlaw : ∀ kind own, law ⟨kind, own, readValue kind own⟩ ↔ keeps kind own)
    (sensor : Option Kind) (l : List Transfer) :
    Run.Always transferStep (fun s => ∀ c ∈ s.completed, law c) (Sharing.start sensor) l ↔
      Run.EachStep transferStep (fun s a => ∀ kind own, Completes s a kind own → keeps kind own)
        (Sharing.start sensor) l := by
  refine Run.always_iff_eachStep (I := fun s : Sharing => ∀ c ∈ s.completed, law c)
    (fun _ h => h) ?_ ?_ ?_ l
  · intro s a hs ha
    rcases transferStep_completed s a with ⟨kind, own, hcompletes, hnext⟩ | ⟨-, hnext⟩
    · rw [hnext]
      intro c hc
      rcases List.mem_append.mp hc with hc | hc
      · exact hs c hc
      · obtain rfl := List.mem_singleton.mp hc
        exact (hlaw kind own).mpr (ha kind own hcompletes)
    · rw [hnext]
      exact hs
  · intro s a _ ha hall
    rcases transferStep_completed s a with ⟨kind, own, -, hnext⟩ | ⟨hnone, -⟩
    · apply ha
      intro kind' own' hcompletes
      have hmem : (⟨kind, own, readValue kind own⟩ : Call) ∈ (transferStep s a).completed := by
        simp [hnext]
      have hkeeps := (hlaw kind own).mp (hall _ hmem)
      obtain ⟨reader, rfl, hpending, hdelivers⟩ := hcompletes
      simp only [transferStep, hpending, if_pos hdelivers] at hnext
      have hsame : (⟨kind', own', readValue kind' own'⟩ : Call) =
          ⟨kind, own, readValue kind own⟩ := by simpa using hnext
      simp only [Call.mk.injEq] at hsame
      rw [hsame.1, hsame.2.1]
      exact hkeeps
    · exact ha fun kind own hcompletes => absurd hcompletes (hnone kind own)
  · simp [Sharing.start]

/-- Over every interleaving of transfers, every failure pattern and every delivered word,
all completed calls keep the law exactly when each call completes with an outcome of its
own read on which its function keeps it, and the same for the first half of the law. -/
theorem readings_faithful_iff (sensor : Option Kind) (l : List Transfer) :
    (Run.Always transferStep (fun s => ∀ c ∈ s.completed, c.Faithful) (Sharing.start sensor) l ↔
      Run.EachStep transferStep (fun s a => ∀ kind own, Completes s a kind own → KeepsLaw kind own)
        (Sharing.start sensor) l) ∧
      (Run.Always transferStep (fun s => ∀ c ∈ s.completed, c.ToldApart) (Sharing.start sensor) l ↔
        Run.EachStep transferStep
          (fun s a => ∀ kind own, Completes s a kind own → KeepsApart kind own)
          (Sharing.start sensor) l) :=
  ⟨always_completed_iff faithful_iff sensor l, always_completed_iff toldApart_iff sensor l⟩

/-- A `read_temp` whose read fails returns the conversion of its zeroed buffer. -/
theorem readings_faithful_dead_read_fails :
    ¬ Run.Always transferStep (fun s => ∀ c ∈ s.completed, c.Faithful) (Sharing.start none)
      [.write .mainLoop .temperature true, .read .mainLoop none] := by
  intro h
  have hlast := h _ List.prefix_rfl ⟨.temperature, none, readValue .temperature none⟩
    (by decide +kernel)
  exact (readTemp_faithful_iff none).mp hlast rfl

end Saliwen.Htu21d
