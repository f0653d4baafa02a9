import Saliwen.App
import Saliwen.Fbm320.Driver
import Saliwen.Htu21d.Driver
import Saliwen.Lib.Run

/-!
# The publishing loop

The main loop samples the light sensor and posts each reading to a one-slot mailbox
without waiting. The MQTT thread receives a reading, and when a publication was requested
reads the other sensors and publishes. Key presses and clap windows interrupt both. One
label is one step of one of them; a label whose thread stands elsewhere changes nothing.
-/

namespace Saliwen.Publish

/-- A light reading in tenths of a lux, numbered in the order of sampling. -/
structure Reading where
  id : ℕ
  light : UInt32
  deriving DecidableEq, Repr

/-- Program points of the loop in `kawaii_mqtt_demo`. -/
inductive Pc where
  | recv
  | test
  | clear
  | sample
  | readTemp
  | readHumi
  | readFbm
  | publish
  | sleep
  deriving DecidableEq, Repr

/-- The numbers of one message of `mqtt_date_pub_json`, with the mail and the humidity
word they come from. -/
structure Message where
  lightIntensity : UInt16
  temperature : ℚ
  humidity : ℚ
  pressure : ℚ
  mail : Reading
  humidityWord : Option Htu21d.Word
  deriving DecidableEq, Repr

/-- The globals, the mailbox, the two threads' local variables and what was published. -/
structure State where
  app : App
  /-- The main loop's `light`, between sampling it and posting it. -/
  light : Option Reading
  /-- How many light readings were sampled. -/
  sampled : ℕ
  /-- `test_mb`, a mailbox with one slot. -/
  mailbox : Option Reading
  pc : Pc
  receivedData : Reading
  temperature : ℚ
  humidity : ℚ
  pressure : ℚ
  /-- The outcome of the last read transfer of `read_humi`. -/
  humidityWord : Option Htu21d.Word
  fbm : Fbm320.Driver
  /-- The readings the mailbox accepted, in order. -/
  accepted : List Reading
  /-- The messages published, in order. -/
  published : List Message

/-- The loop about to wait for its first mail. The local variables are uninitialised in the
source; every value is written before it is used. -/
def State.boot (app : App) (fbm : Fbm320.Driver) : State where
  app := app
  light := none
  sampled := 0
  mailbox := none
  pc := .recv
  receivedData := ⟨0, 0⟩
  temperature := 0
  humidity := 0
  pressure := 0
  humidityWord := none
  fbm := fbm
  accepted := []
  published := []

/-- The steps of the interrupts, the main loop and the MQTT thread. -/
inductive Label where
  /-- `on_key1_clicked`. -/
  | key1
  /-- `on_clap_space_timer` with the given count. -/
  | clapSpaceTimer (cnt : ℤ)
  /-- The main loop reads the light sensor. -/
  | sampleLight (v : UInt32)
  /-- The main loop posts its reading with `rt_mb_send`. -/
  | mbSend
  /-- `rt_mb_recv` returns with a mail. -/
  | mbRecv
  /-- `rt_mb_recv` returns with an error. -/
  | mbRecvError
  /-- The test `flag_clap_send == 1`. -/
  | testFlag
  /-- `flag_clap_send = 0`. -/
  | clearFlag
  /-- The call of `read_temp` begins. -/
  | beginSampling
  /-- `read_temp` returns, by the outcome of its read transfer. -/
  | readTemp (own : Option Htu21d.Word)
  /-- `read_humi` returns, by the outcome of its read transfer. -/
  | readHumi (own : Option Htu21d.Word)
  /-- `fbm320_read_data` returns, by the sensor and bus it used. -/
  | readFbm (dev : Fbm320.Device)
  /-- The call of `mqtt_date_pub_json` begins. -/
  | publish
  /-- `mqtt_sleep_ms` returns. -/
  | wake

/-- The message of the current round: the mail is cast to `rt_uint16_t`. -/
def State.message (s : State) : Message where
  lightIntensity := s.receivedData.light.toUInt16
  temperature := s.temperature
  humidity := s.humidity
  pressure := s.pressure
  mail := s.receivedData
  humidityWord := s.humidityWord

/-- `rt_mb_send` on the one-slot mailbox: a full mailbox rejects the mail. -/
def State.rtMbSend (s : State) (mail : Reading) : State :=
  match s.mailbox with
  | none => { s with mailbox := some mail, accepted := s.accepted ++ [mail] }
  | some _ => s

/-- One step. -/
def step (s : State) : Label → State
  | .key1 => { s with app := onKey1Clicked s.app }
  | .clapSpaceTimer cnt => { s with app := onClapSpaceTimer { s.app with cnt := cnt } }
  | .sampleLight v =>
    if s.light = none then
      { s with light := some ⟨s.sampled, v⟩, sampled := s.sampled + 1 }
    else s
  | .mbSend =>
    match s.light with
    | none => s
    | some mail => { s.rtMbSend mail with light := none }
  | .mbRecv =>
    if s.pc = .recv then
      match s.mailbox with
      | none => s
      | some mail => { s with mailbox := none, receivedData := mail, pc := .test }
    else s
  | .mbRecvError => if s.pc = .recv then { s with pc := .sleep } else s
  | .testFlag =>
    if s.pc = .test then
      { s with pc := if s.app.flagClapSend = 1 then .clear else .sleep }
    else s
  | .clearFlag =>
    if s.pc = .clear then
      { s with app := { s.app with flagClapSend := 0 }, pc := .sample }
    else s
  | .beginSampling =>
    if s.pc = .sample then { s with pc := .readTemp } else s
  | .readTemp own =>
    if s.pc = .readTemp then
      { s with temperature := Htu21d.readTemp binary32.round own, pc := .readHumi }
    else s
  | .readHumi own =>
    if s.pc = .readHumi then
      { s with
        humidity := Htu21d.readHumi binary32.round own
        humidityWord := own
        pc := .readFbm }
    else s
  | .readFbm dev =>
    if s.pc = .readFbm then
      let (pressure, fbm) := Fbm320.samplePressure dev s.fbm s.pressure
      { s with pressure := pressure, fbm := fbm, pc := .publish }
    else s
  | .publish =>
    if s.pc = .publish then
      { s with published := s.published ++ [s.message], pc := .sleep }
    else s
  | .wake => if s.pc = .sleep then { s with pc := .recv } else s

end Saliwen.Publish
