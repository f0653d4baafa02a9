import Saliwen.CJson.Floats
import Saliwen.CJson.RoundTrip
import Saliwen.Publish.Measurements

/-!
# The text of a publication

`mqtt_date_pub_json` prints the numbers of a round with cJSON. Whoever parses the text finds the
lower 16 bits of a light reading under its name, since the reading is cast to `rt_uint16_t`, and
the three measurements under theirs up to the precision of a `double`: converted to `float`, they
are the numbers that the loop has read. This holds for every publication of every run.
-/

namespace Saliwen.Publish

open CJson

/-- The item that `mqtt_date_pub_json` builds. -/
def Message.upload (m : Message) : Json :=
  .object
    [(some (literal "group_name"), .string (literal "pub_crychic_Marisa")),
      (some (literal "sensor"), .object
        [(some (literal "light_intensity"), .number (.finite m.lightIntensity.toNat)),
          (some (literal "temperature"), .number (.finite m.temperature)),
          (some (literal "humidity"), .number (.finite m.humidity)),
          (some (literal "pressure"), .number (.finite m.pressure))])]

/-- The payload of the publication. -/
def Message.payload (m : Message) : Option Bytes := cJSONPrint true m.upload

/-- The number of a sensor in a parsed payload. -/
def sensorNumber (json : Json) (name : String) : Option Number :=
  numberOf ((json.getObjectItem "sensor").bind (·.getObjectItem name))

/-- The three measurements are `float`s. -/
structure Message.Floats (m : Message) : Prop where
  temperature : IsFloat m.temperature
  humidity : IsFloat m.humidity
  pressure : IsFloat m.pressure

/-- A number of 16 bits is a `double`. -/
theorem isDouble_natCast {n : ℕ} (h : n < 2 ^ 16) : IsDouble n := by
  have hround : binary64.round ((n : ℤ) : ℚ) = ((n : ℤ) : ℚ) := by
    refine FloatFormat.round_intCast ?_
    rw [Nat.abs_cast]
    exact_mod_cast h.trans (by norm_num [binary64])
  have hsmall : |((n : ℤ) : ℚ)| < 2 ^ 1024 := by
    rw [Int.cast_natCast, Nat.abs_cast]
    have hcast : (n : ℚ) < 2 ^ 16 := by exact_mod_cast h
    exact hcast.trans (pow_lt_pow_right₀ (by norm_num) (by norm_num))
  rw [Int.cast_natCast] at hround hsmall
  rw [IsDouble, Number.ofRat, hround, if_neg (not_le.mpr hsmall)]

/-- The item of a publication can be printed. -/
theorem printable_upload {m : Message} (h : m.Floats) : Printable nestingLimit m.upload := by
  have hlight := isDouble_natCast m.lightIntensity.toNat_lt
  simp [nestingLimit, Message.upload, Printable, PrintableAll, hlight, h.temperature.isDouble,
    h.humidity.isDouble, h.pressure.isDouble]

/-- A `uint16` is an `int`. -/
theorem valueint_natCast {n : ℕ} (h : n < 2 ^ 16) : (n : ℚ) = (Number.finite n).valueint := by
  have hcast : (n : ℚ) < 2 ^ 16 := by exact_mod_cast h
  have hhigh : ¬ (2 ^ 31 - 1 : ℚ) ≤ n := by linarith
  have hpos : (0 : ℚ) ≤ n := Nat.cast_nonneg n
  have hlow : ¬ (n : ℚ) ≤ -2 ^ 31 := by linarith
  simp only [Number.valueint, if_neg hhigh, if_neg hlow, if_pos hpos, Int.floor_natCast,
    Int.cast_natCast]

/-- What a payload says about the mail of its round and the measurements of the loop. -/
structure Message.Says (m : Message) (json : Json) : Prop where
  lightIntensity :
    sensorNumber json "light_intensity" = some (.finite (m.mail.light.toNat % 65536 : ℕ))
  temperature :
    (sensorNumber json "temperature").map Number.toFloat = some (.finite m.temperature)
  humidity : (sensorNumber json "humidity").map Number.toFloat = some (.finite m.humidity)
  pressure : (sensorNumber json "pressure").map Number.toFloat = some (.finite m.pressure)

/-- A text that reads as the item of a message says what it says. -/
theorem says_of_reads {m : Message} (h : m.Floats)
    (hlightIntensity : m.lightIntensity = m.mail.light.toUInt16) {json : Json}
    (hreads : Reads m.upload json) : m.Says json := by
  simp only [Message.upload, Reads, ReadsAll, readName, Option.getD_some] at hreads
  obtain ⟨child, rfl, -, -, rfl, rfl, -, -, rfl, ⟨sensors, rfl, -, -, rfl, ⟨light, rfl, hlight⟩,
    -, -, rfl, ⟨temperature, rfl, htemperature⟩, -, -, rfl, ⟨humidity, rfl, hhumidity⟩,
    -, -, rfl, ⟨pressure, rfl, hpressure⟩, rfl⟩, rfl⟩ := hreads
  have hlight' := hlight.exact (valueint_natCast m.lightIntensity.toNat_lt)
  have hcast : m.lightIntensity.toNat = m.mail.light.toNat % 65536 := by
    rw [hlightIntensity, UInt32.toNat_toUInt16]
  constructor
  · rw [hlight', ← hcast]
    rfl
  · rw [← toFloat_of_readsNumber h.temperature htemperature]
    rfl
  · rw [← toFloat_of_readsNumber h.humidity hhumidity]
    rfl
  · rw [← toFloat_of_readsNumber h.pressure hpressure]
    rfl

/-! ## Measurements are floats -/

/-- Rounding at most doubles a number. -/
theorem abs_round_le (x : ℚ) : |binary32.round x| ≤ 2 * |x| := by
  have hnearest := FloatFormat.abs_round_sub_le (FloatFormat.round_zero binary32) (x := x)
  rw [zero_sub, abs_neg] at hnearest
  have htriangle := abs_sub_abs_le_abs_sub (binary32.round x) x
  linarith

/-- A number that is not too large is a `float` once it is rounded. -/
theorem isFloat_round {x : ℚ} (h : |x| < 2 ^ 127) : IsFloat (binary32.round x) := by
  refine isFloat_of_round (FloatFormat.round_round _ _) ((abs_round_le x).trans_lt ?_)
  rw [pow_succ']
  linarith

/-- A small integer is a `float`. -/
theorem isFloat_intCast {n : ℤ} (h : |n| < 2 ^ 24) : IsFloat n := by
  have hsmall : |(n : ℚ)| < 2 ^ 24 := by exact_mod_cast h
  refine isFloat_of_round (FloatFormat.round_intCast h) (hsmall.trans ?_)
  exact pow_lt_pow_right₀ (by norm_num) (by norm_num)

/-- `read_temp` returns a `float`. -/
theorem isFloat_readTemp (own : Option Htu21d.Word) :
    IsFloat (Htu21d.readTemp binary32.round own) := by
  unfold Htu21d.readTemp
  dsimp only
  split_ifs
  · apply isFloat_round
    have hsignal : ((Htu21d.bufferAfter own).signal : ℚ) < 65536 := by
      exact_mod_cast (Htu21d.bufferAfter own).signal_lt
    generalize (Htu21d.bufferAfter own).signal = signal at hsignal
    have hoffset : |binary32.round (-46.85)| ≤ 100 :=
      (abs_round_le _).trans (by norm_num)
    have hfactor : |binary32.round 175.72| ≤ 400 := (abs_round_le _).trans (by norm_num)
    have hproduct : |binary32.round (binary32.round 175.72 * signal)| ≤ 2 * (400 * 65536) := by
      refine (abs_round_le _).trans ?_
      rw [abs_mul, Nat.abs_cast]
      have hmul := mul_le_mul hfactor hsignal.le (Nat.cast_nonneg signal) (by norm_num)
      linarith
    have hquotient : |binary32.round (binary32.round (binary32.round 175.72 * signal) / 65536)| ≤
        1600 := by
      refine (abs_round_le _).trans ?_
      rw [abs_div, abs_of_pos (by norm_num : (0 : ℚ) < 65536), ← mul_div_assoc,
        div_le_iff₀ (by norm_num)]
      linarith
    refine (abs_add_le _ _).trans_lt ((add_le_add hoffset hquotient).trans_lt ?_)
    norm_num
  · exact_mod_cast isFloat_intCast (n := -1) (by decide)

/-- `read_humi` returns a `float`. -/
theorem isFloat_readHumi (own : Option Htu21d.Word) :
    IsFloat (Htu21d.readHumi binary32.round own) := by
  unfold Htu21d.readHumi
  dsimp only
  split_ifs
  · apply isFloat_round
    have hsignal := (Htu21d.bufferAfter own).signal_lt
    have hbound : |(-6 + 125 * ((Htu21d.bufferAfter own).signal : ℤ) / 65536)| ≤ 200 := by
      rw [abs_le]
      omega
    have hcast : |((-6 + 125 * ((Htu21d.bufferAfter own).signal : ℤ) / 65536 : ℤ) : ℚ)| ≤ 200 := by
      exact_mod_cast hbound
    exact hcast.trans_lt (by norm_num)
  · exact_mod_cast isFloat_intCast (n := -1) (by decide)

/-- The pressure of a measurement is an `int32_t`. -/
theorem sampled_rpI (dev : Fbm320.Device) (fbm : Fbm320.Driver) :
    ∃ x, (fbm.sampled dev).rpI = wrap32 x := by
  simp only [Fbm320.Driver.sampled, Fbm320.calculate, Fbm320.compensate, Fbm320.pressure]
  exact ⟨_, rfl⟩

/-- The pressure of a round is a `float`. -/
theorem isFloat_samplePressure (dev : Fbm320.Device) (fbm : Fbm320.Driver) (pressure : ℚ) :
    IsFloat (Fbm320.samplePressure dev fbm pressure).1 := by
  obtain ⟨x, hx⟩ := sampled_rpI dev fbm
  have hpressure : (Fbm320.samplePressure dev fbm pressure).1 =
      binary32.round (wrap32 x : ℤ) := by
    simp [Fbm320.samplePressure, Fbm320.fbm320ReadData_eq, Fbm320.Driver.outputs, hx]
  rw [hpressure]
  apply isFloat_round
  have hbound : |wrap32 x| ≤ 2 ^ 31 := by
    have hlow := Int.le_bmod (x := x) (m := 2 ^ 32) (by norm_num)
    have hhigh := Int.bmod_lt (x := x) (m := 2 ^ 32) (by norm_num)
    unfold wrap32 wrap
    rw [abs_le]
    constructor <;> norm_num at * <;> omega
  have hcast : |((wrap32 x : ℤ) : ℚ)| ≤ 2 ^ 31 := by exact_mod_cast hbound
  exact hcast.trans_lt (pow_lt_pow_right₀ (by norm_num) (by norm_num))

/-! ## Every publication of a run -/

/-- The measurements of the loop and of its messages are `float`s, and the light of a message is
the one of its mail in 16 bits. -/
structure State.Floats (s : State) : Prop where
  temperature : IsFloat s.temperature
  humidity : IsFloat s.humidity
  pressure : IsFloat s.pressure
  published : ∀ m ∈ s.published, m.Floats ∧ m.lightIntensity = m.mail.light.toUInt16

/-- At the start the measurements are `float`s, and nothing is published. -/
theorem floats_boot (app : App) (fbm : Fbm320.Driver) : (State.boot app fbm).Floats := by
  have hzero : IsFloat 0 := by exact_mod_cast isFloat_intCast (n := 0) (by decide)
  exact ⟨hzero, hzero, hzero, by simp [State.boot]⟩

/-- Every step keeps the measurements `float`s. -/
theorem State.Floats.step {s : State} (h : s.Floats) (a : Label) : (step s a).Floats := by
  obtain ⟨htemperature, hhumidity, hpressure, hpublished⟩ := h
  cases a with
  | readTemp own =>
    simp only [Publish.step]
    split_ifs
    · exact ⟨isFloat_readTemp own, hhumidity, hpressure, hpublished⟩
    · exact ⟨htemperature, hhumidity, hpressure, hpublished⟩
  | readHumi own =>
    simp only [Publish.step]
    split_ifs
    · exact ⟨htemperature, isFloat_readHumi own, hpressure, hpublished⟩
    · exact ⟨htemperature, hhumidity, hpressure, hpublished⟩
  | readFbm dev =>
    simp only [Publish.step]
    split_ifs
    · exact ⟨htemperature, hhumidity, isFloat_samplePressure dev s.fbm s.pressure, hpublished⟩
    · exact ⟨htemperature, hhumidity, hpressure, hpublished⟩
  | publish =>
    simp only [Publish.step]
    split_ifs
    · refine ⟨htemperature, hhumidity, hpressure, fun m hm => ?_⟩
      rcases List.mem_append.mp hm with hm | hm
      · exact hpublished m hm
      · rw [List.mem_singleton.mp hm]
        exact ⟨⟨htemperature, hhumidity, hpressure⟩, rfl⟩
    · exact ⟨htemperature, hhumidity, hpressure, hpublished⟩
  | mbSend =>
    simp only [Publish.step, State.rtMbSend]
    split
    · exact ⟨htemperature, hhumidity, hpressure, hpublished⟩
    · split <;> exact ⟨htemperature, hhumidity, hpressure, hpublished⟩
  | mbRecv =>
    simp only [Publish.step]
    split_ifs
    · split <;> exact ⟨htemperature, hhumidity, hpressure, hpublished⟩
    · exact ⟨htemperature, hhumidity, hpressure, hpublished⟩
  | key1 => exact ⟨htemperature, hhumidity, hpressure, hpublished⟩
  | clapSpaceTimer cnt => exact ⟨htemperature, hhumidity, hpressure, hpublished⟩
  | _ =>
    simp only [Publish.step]
    split_ifs <;> exact ⟨htemperature, hhumidity, hpressure, hpublished⟩

/-- Posting adds no reading. -/
theorem mem_readings_mbSend {s : State} {r : Reading} (hr : r ∈ (step s .mbSend).readings) :
    r ∈ s.readings := by
  cases hlight : s.light with
  | none => simpa only [step, hlight] using hr
  | some mail =>
    cases hmailbox : s.mailbox with
    | none => simpa [State.readings, step, State.rtMbSend, hmailbox, hlight] using hr
    | some old =>
      have hold : r ∈ s.accepted := by
        simpa [State.readings, step, State.rtMbSend, hmailbox, hlight] using hr
      exact List.mem_append_left _ hold

/-- Every reading of the main loop has been sampled. -/
theorem sampleLight_of_mem_readings {app : App} {fbm : Fbm320.Driver} {l : List Label}
    {r : Reading} (hr : r ∈ (Run.after step (State.boot app fbm) l).readings) :
    .sampleLight r.light ∈ l := by
  induction l using List.reverseRecOn with
  | nil => simp [State.readings, State.boot] at hr
  | append_singleton l a ih =>
    rw [Run.after_snoc] at hr
    generalize Run.after step (State.boot app fbm) l = s at hr ih
    by_cases hsample : ∃ v, a = .sampleLight v
    · obtain ⟨v, rfl⟩ := hsample
      simp only [step] at hr
      split_ifs at hr with hlight
      · have hnew : r ∈ s.accepted ∨ r = ⟨s.sampled, v⟩ := by
          simpa [State.readings] using hr
        rcases hnew with hold | rfl
        · exact List.mem_append_left _ (ih (List.mem_append_left _ hold))
        · exact List.mem_append_right _ (List.mem_singleton_self _)
      · exact List.mem_append_left _ (ih hr)
    by_cases hsend : a = .mbSend
    · subst hsend
      exact List.mem_append_left _ (ih (mem_readings_mbSend hr))
    · rw [(step_readings s (fun v hv => hsample ⟨v, hv⟩) hsend).1] at hr
      exact List.mem_append_left _ (ih hr)

/-- In every run, the mail of every publication is a light reading that was sampled, and the
payload is a JSON text: whoever parses it finds the reading modulo 65536, and the three
measurements as `float`s as they are. -/
theorem published_says (app : App) (fbm : Fbm320.Driver) (l : List Label) :
    ∀ m ∈ (Run.after step (State.boot app fbm) l).published,
      .sampleLight m.mail.light ∈ l ∧
        ∃ text json, m.payload = some text ∧ cJSONParse text = some json ∧ m.Says json := by
  intro m hm
  have hinv := Run.inv_of_step (I := LoopInv) (fun s a h => h.step a) (LoopInv.boot app fbm) l
  have haccepted : m.mail ∈ (Run.after step (State.boot app fbm) l).accepted :=
    hinv.flow.delivered_sublist.subset (List.mem_map_of_mem hm)
  refine ⟨sampleLight_of_mem_readings (List.mem_append_left _ haccepted), ?_⟩
  have hfloats := Run.inv_of_step (I := State.Floats) (fun s a h => h.step a)
    (floats_boot app fbm) l
  obtain ⟨hmessage, hlight⟩ := hfloats.published m hm
  obtain ⟨text, json, hprint, hreads, hparses⟩ :=
    parsesTo_printValue true 0 m.upload nestingLimit 0 (printable_upload hmessage) (by omega)
  exact ⟨text, json, hprint, hparses.cJSONParse, says_of_reads hmessage hlight hreads⟩

/-- A round at 7000 lux, in which the other sensors do not answer. -/
def silentRound : List Label :=
  [.key1, .sampleLight 70000, .mbSend, .mbRecv, .testFlag, .clearFlag, .beginSampling,
    .readTemp none, .readHumi none, .readFbm ⟨fun _ => 0, fun _ _ => 0, fun _ => false⟩, .publish]

/-- A reading of 70000 is published as 4464. -/
theorem published_says_silentRound :
    ∃ m ∈ (Run.after step
        (State.boot (App.boot ⟨fun _ => .high, .low, ⟨.high, .low, false⟩⟩) Fbm320.Driver.boot)
        silentRound).published,
      m.mail.light.toNat % 65536 = 4464 ∧ .sampleLight m.mail.light ∈ silentRound ∧
        ∃ text json, m.payload = some text ∧ cJSONParse text = some json ∧ m.Says json := by
  have hlight : ∃ m ∈ (Run.after step
      (State.boot (App.boot ⟨fun _ => .high, .low, ⟨.high, .low, false⟩⟩) Fbm320.Driver.boot)
      silentRound).published, m.mail.light.toNat % 65536 = 4464 := by decide
  obtain ⟨m, hm, hlight⟩ := hlight
  exact ⟨m, hm, hlight, published_says _ _ _ m hm⟩

end Saliwen.Publish
