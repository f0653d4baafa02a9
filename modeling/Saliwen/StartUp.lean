import Saliwen.Clap.Recogniser
import Saliwen.LedShadow

/-!
# Start-up

`main()` enables the interrupts of the sound sensor and the key before it creates the timers,
and starts the MQTT thread before it creates the mailbox. Interrupts and the thread are live
from then on, and no creation result stops the program. The kernel asserts that the handles it
is given are not `RT_NULL`. This file determines the runs in which no such assertion fails.
-/

namespace Saliwen.StartUp

open Clap (TimerId)

/-- Program points of `main()`: the two interrupts of `init_int`, the two timers of
`timer_init`, and the other calls up to the end of a round of the loop. -/
inductive Pc where
  | initIoPort
  | stepMotorInit
  | enableSound
  | enableKey
  | createClapSpaceTimer
  | createDebounceTimer
  | fbm320Init
  | htu21dInit
  | deviceFind
  | deviceOpen
  | fbm320ReadData
  | kaMqtt
  | stepMotorCtrl
  | mbCreate
  | deviceRead
  | mbSend
  | threshold
  | mdelay
  | returned
  deriving DecidableEq, Repr

/-- Program points of `kawaii_mqtt_demo`. -/
inductive DemoPc where
  /-- The thread is not created. -/
  | none
  /-- In front of the loop: delay, connection and subscription. -/
  | connect
  | mbRecv
  /-- Inside `rt_mb_recv`, until there is a mail. -/
  | waiting
  /-- The rest of a round. -/
  | round
  deriving DecidableEq, Repr

/-- The kernel functions that assert a handle. -/
inductive KernelCall where
  | timerStart (i : TimerId)
  | timerStop (i : TimerId)
  | mbSend
  | mbRecv
  deriving DecidableEq, Repr

/-- The globals of `main.c` during start-up. A handle is `none` while it is `RT_NULL`. -/
structure State where
  app : App
  /-- `clap_space_timer` and `debounce_timer`: whether the timer is active. -/
  timers : TimerId → Option Bool
  /-- `test_mb`: whether its only slot holds a mail. -/
  testMb : Option Bool
  /-- Whether the interrupt of `PC.0` is enabled. -/
  soundIrq : Bool
  /-- Whether the interrupt of `PB.12` is enabled. -/
  keyIrq : Bool
  pc : Pc
  demo : DemoPc
  /-- The kernel calls made on a handle that was `RT_NULL`. -/
  nullCalls : List KernelCall

/-- The globals as initialised by their declarations, with `main()` at its first call. -/
def State.boot (b : Board) : State where
  app := { App.boot b with board := b }
  timers _ := none
  testMb := none
  soundIrq := false
  keyIrq := false
  pc := .initIoPort
  demo := .none
  nullCalls := []

/-! ## Kernel calls -/

/-- A call on a timer handle that leaves the timer active or inactive. -/
def State.timerCall (s : State) (call : KernelCall) (i : TimerId) (active : Bool) : State :=
  match s.timers i with
  | none => { s with nullCalls := s.nullCalls ++ [call] }
  | some _ => { s with timers := Function.update s.timers i (some active) }

/-- `rt_timer_start`. -/
def State.rtTimerStart (s : State) (i : TimerId) : State := s.timerCall (.timerStart i) i true

/-- `rt_timer_stop`. -/
def State.rtTimerStop (s : State) (i : TimerId) : State := s.timerCall (.timerStop i) i false

/-- `rt_timer_create`, with its outcome. -/
def State.rtTimerCreate (s : State) (i : TimerId) (ok : Bool) : State :=
  { s with timers := Function.update s.timers i (if ok then some false else none) }

/-- `rt_mb_send`, which does not wait: a full mailbox stays as it is. -/
def State.rtMbSend (s : State) : State :=
  match s.testMb with
  | none => { s with nullCalls := s.nullCalls ++ [.mbSend] }
  | some _ => { s with testMb := some true }

/-- The beginning of `rt_mb_recv`, up to the point where it waits for a mail. -/
def State.rtMbRecv (s : State) : State :=
  match s.testMb with
  | none => { s with nullCalls := s.nullCalls ++ [.mbRecv] }
  | some _ => s

/-! ## Contexts -/

/-- The next statement of `main()`. `ok` is the outcome of a call that may fail; the results of
the sensor initialisations are only printed. -/
def State.main (s : State) (ok : Bool) : State :=
  match s.pc with
  | .initIoPort =>
    { s with app := { s.app with board := s.app.board.execAll initIoPort }, pc := .stepMotorInit }
  | .stepMotorInit =>
    let board := if ok then s.app.board.exec (.motor (.en .high)) else s.app.board
    { s with app := { s.app with board := board }, pc := .enableSound }
  | .enableSound => { s with soundIrq := true, pc := .enableKey }
  | .enableKey => { s with keyIrq := true, pc := .createClapSpaceTimer }
  | .createClapSpaceTimer =>
    { s.rtTimerCreate .clapSpaceTimer ok with pc := .createDebounceTimer }
  | .createDebounceTimer => { s.rtTimerCreate .debounceTimer ok with pc := .fbm320Init }
  | .fbm320Init => { s with pc := .htu21dInit }
  | .htu21dInit => { s with pc := .deviceFind }
  | .deviceFind => { s with pc := if ok then .deviceOpen else .returned }
  | .deviceOpen => { s with pc := .fbm320ReadData }
  | .fbm320ReadData => { s with pc := .kaMqtt }
  | .kaMqtt => { s with demo := if ok then .connect else .none, pc := .stepMotorCtrl }
  | .stepMotorCtrl =>
    let board := s.app.board.execAll ((drvStepMotorCtrl 1).map .motor)
    { s with app := { s.app with board := board }, pc := .mbCreate }
  | .mbCreate => { s with testMb := if ok then some false else none, pc := .deviceRead }
  | .deviceRead => { s with pc := .mbSend }
  | .mbSend => { s.rtMbSend with pc := .threshold }
  | .threshold => { s with pc := .mdelay }
  | .mdelay => { s with pc := .deviceRead }
  | .returned => s

/-- The next statement of `kawaii_mqtt_demo`. -/
def State.mqttDemo (s : State) : State :=
  match s.demo with
  | .none => s
  | .connect => { s with demo := .mbRecv }
  | .mbRecv => { s.rtMbRecv with demo := .waiting }
  | .waiting => if s.testMb = some true then { s with testMb := some false, demo := .round } else s
  | .round =>
    let flagClapSend := if s.app.flagClapSend = 1 then 0 else s.app.flagClapSend
    { s with app := { s.app with flagClapSend := flagClapSend }, demo := .mbRecv }

/-- `on_soundlevel`. -/
def onSoundlevel (s : State) : State :=
  let s := s.rtTimerStart .debounceTimer
  if s.app.flagSoundFirstPulse ≠ 0 then
    let s := { s with
      app := { s.app with cnt := wrap32 (s.app.cnt + 1), flagSoundFirstPulse := 0 } }
    if s.app.currState = .ledIdle then
      let s := { s with app := { s.app with currState := .ledClap } }
      s.rtTimerStart .clapSpaceTimer
    else
      (s.rtTimerStop .clapSpaceTimer).rtTimerStart .clapSpaceTimer
  else s

/-- The callback of a timer. -/
def timeout : TimerId → App → App
  | .clapSpaceTimer => onClapSpaceTimer
  | .debounceTimer => onDebounceTimer

/-- What happens next during start-up. -/
inductive Event where
  /-- `main()` executes its next statement; the argument is the outcome of a fallible call. -/
  | main (ok : Bool)
  /-- The MQTT thread executes its next statement. -/
  | mqttDemo
  /-- A falling edge on `PC.0`. -/
  | soundEdge
  /-- A falling edge on `PB.12`. -/
  | keyEdge
  /-- An active timer expires. -/
  | timeout (i : TimerId)
  deriving DecidableEq, Repr

/-- One event. An edge is handled at once if its interrupt is enabled, and lost otherwise. -/
def step (s : State) : Event → State
  | .main ok => s.main ok
  | .mqttDemo => s.mqttDemo
  | .soundEdge => if s.soundIrq then onSoundlevel s else s
  | .keyEdge => if s.keyIrq then { s with app := onKey1Clicked s.app } else s
  | .timeout i =>
    if s.timers i = some true then
      { s with app := timeout i s.app, timers := Function.update s.timers i (some false) }
    else s

/-! ## Calls on missing handles -/

/-- No kernel call was made on a handle that was `RT_NULL`. -/
def State.NoNullCalls (s : State) : Prop := s.nullCalls = []

/-- The statement that an event lets `main()` execute, with its outcome. -/
def State.statement (s : State) : Event → Option (Pc × Bool)
  | .main ok => some (s.pc, ok)
  | _ => none

/-- The statements that `main()` has executed in a run, with their outcomes, in order. -/
abbrev statements (b : Board) (l : List Event) : List (Pc × Bool) :=
  Run.trace step State.statement (.boot b) l

/-- The event comes after the creations it relies on, given the statements that `main()` has
executed before it: an edge of the sound sensor that arrives with its interrupt enabled after both
successful `rt_timer_create`, the `rt_mb_send` of the main loop and the `rt_mb_recv` of the MQTT
thread after the successful `rt_mb_create`. -/
def CreatedBefore (done : List (Pc × Bool)) (s : State) : Event → Prop
  | .main _ => s.pc = .mbSend → (.mbCreate, true) ∈ done
  | .mqttDemo => s.demo = .mbRecv → (.mbCreate, true) ∈ done
  | .soundEdge => (∃ ok, (.enableSound, ok) ∈ done) →
      (.createClapSpaceTimer, true) ∈ done ∧ (.createDebounceTimer, true) ∈ done
  | .keyEdge => True
  | .timeout _ => True

/-- Whoever runs next finds its handles: both timers for a handled edge of the sound sensor, the
mailbox for the send of the main loop and for the receive of the MQTT thread. -/
def HandlesReady (s : State) : Event → Prop
  | .main _ => s.pc = .mbSend → s.testMb.isSome = true
  | .mqttDemo => s.demo = .mbRecv → s.testMb.isSome = true
  | .soundEdge => s.soundIrq = true → ∀ i, (s.timers i).isSome = true
  | .keyEdge => True
  | .timeout _ => True

/-- The globals do not matter for null calls. -/
theorem noNullCalls_app (s : State) (app : App) :
    State.NoNullCalls { s with app := app } ↔ s.NoNullCalls := Iff.rfl

section Kernel

variable (s : State) (call : KernelCall) (i : TimerId) (active : Bool)

/-- A call with a timer is a null call when the timer was not created. -/
theorem timerCall_noNullCalls :
    (s.timerCall call i active).NoNullCalls ↔ s.NoNullCalls ∧ (s.timers i).isSome = true := by
  unfold State.timerCall State.NoNullCalls
  cases s.timers i <;> simp

/-- A call with a timer leaves the globals as they are. -/
@[simp] theorem timerCall_app : (s.timerCall call i active).app = s.app := by
  unfold State.timerCall
  split <;> rfl

/-- A call with a timer leaves the program point of `main` as it is. -/
@[simp] theorem timerCall_pc : (s.timerCall call i active).pc = s.pc := by
  unfold State.timerCall
  split <;> rfl

/-- A call with a timer leaves the mailbox as it is. -/
@[simp] theorem timerCall_testMb : (s.timerCall call i active).testMb = s.testMb := by
  unfold State.timerCall
  split <;> rfl

/-- A call with a timer leaves the interrupt as it is. -/
@[simp] theorem timerCall_soundIrq : (s.timerCall call i active).soundIrq = s.soundIrq := by
  unfold State.timerCall
  split <;> rfl

/-- Starting or stopping a timer neither creates nor deletes one. -/
@[simp] theorem timerCall_isSome (j : TimerId) :
    ((s.timerCall call i active).timers j).isSome = (s.timers j).isSome := by
  unfold State.timerCall
  split
  · rfl
  · rename_i hi
    by_cases hj : j = i
    · simp [hj, hi]
    · simp [hj]

/-- A call of `rt_mb_send` is a null call when the mailbox was not created. -/
theorem rtMbSend_noNullCalls :
    s.rtMbSend.NoNullCalls ↔ s.NoNullCalls ∧ s.testMb.isSome = true := by
  unfold State.rtMbSend State.NoNullCalls
  cases s.testMb <;> simp

/-- A call of `rt_mb_recv` is a null call when the mailbox was not created. -/
theorem rtMbRecv_noNullCalls :
    s.rtMbRecv.NoNullCalls ↔ s.NoNullCalls ∧ s.testMb.isSome = true := by
  unfold State.rtMbRecv State.NoNullCalls
  cases s.testMb <;> simp

end Kernel

/-! ## The sound handler -/

/-- The handler treats the globals as in the recogniser, where both timers exist. -/
theorem onSoundlevel_app (s : State) {t : Clap.State} (happ : t.app = s.app) :
    (onSoundlevel s).app = (Clap.onSoundlevel t).app := by
  unfold onSoundlevel Clap.onSoundlevel State.rtTimerStart State.rtTimerStop
  simp only [timerCall_app, Clap.State.rtTimerStart, Clap.State.rtTimerStop, happ]
  split
  · split
    · simp
    · simp
  · simp

/-- The handler uses the debounce timer at every edge and the window timer at a first pulse. -/
theorem onSoundlevel_noNullCalls (s : State) :
    (onSoundlevel s).NoNullCalls ↔
      s.NoNullCalls ∧ (s.timers .debounceTimer).isSome = true ∧
        (s.app.flagSoundFirstPulse ≠ 0 → (s.timers .clapSpaceTimer).isSome = true) := by
  unfold onSoundlevel State.rtTimerStart State.rtTimerStop
  simp only [timerCall_app]
  by_cases hpulse : s.app.flagSoundFirstPulse ≠ 0
  · rw [if_pos hpulse, imp_iff_right hpulse]
    split
    · rw [timerCall_noNullCalls, noNullCalls_app, timerCall_noNullCalls]
      simp only [timerCall_isSome, and_assoc]
    · rw [timerCall_noNullCalls, timerCall_noNullCalls, noNullCalls_app, timerCall_noNullCalls]
      simp only [timerCall_isSome, and_assoc, and_self]
  · rw [if_neg hpulse, timerCall_noNullCalls]
    simp only [hpulse, false_implies, and_true]

/-- An edge neither creates nor deletes a timer or the mailbox, and does not move `main()`. -/
theorem onSoundlevel_frame (s : State) :
    (∀ j, ((onSoundlevel s).timers j).isSome = (s.timers j).isSome) ∧
      (onSoundlevel s).pc = s.pc ∧ (onSoundlevel s).testMb = s.testMb ∧
      (onSoundlevel s).soundIrq = s.soundIrq := by
  unfold onSoundlevel State.rtTimerStart State.rtTimerStop
  dsimp only
  split
  · split
    · simp
    · simp
  · simp

/-! ## Order of the creations -/

/-- `main()` has not yet come to the creation of the window timer, or is about to make it. -/
def Pc.beforeTimers : Pc → Bool
  | .initIoPort | .stepMotorInit | .enableSound | .enableKey | .createClapSpaceTimer => true
  | _ => false

/-- The statement that creates a timer. -/
def createPc : TimerId → Pc
  | .clapSpaceTimer => .createClapSpaceTimer
  | .debounceTimer => .createDebounceTimer

/-- The invariant of the runs without calls on missing handles. A pulse that was not a first one
can only follow one that started the window timer. -/
structure Safe (s : State) : Prop where
  noNullCalls : s.NoNullCalls
  clapSpaceTimer : s.app.flagSoundFirstPulse = 0 → (s.timers .clapSpaceTimer).isSome = true
  beforeTimers : s.pc.beforeTimers = true → s.timers .clapSpaceTimer = none

section Steps

variable {s : State}

/-- The statements of `main` make a null call only at `rt_mb_send`. -/
theorem main_noNullCalls (ok : Bool) :
    (s.main ok).NoNullCalls ↔ s.NoNullCalls ∧ (s.pc = .mbSend → s.testMb.isSome = true) := by
  unfold State.main
  cases hpc : s.pc
  case mbSend => exact (rtMbSend_noNullCalls s).trans (by simp)
  all_goals simp [State.NoNullCalls, State.rtTimerCreate]

/-- The statements of `main` leave the debounce flag as it is. -/
theorem main_flagSoundFirstPulse (ok : Bool) :
    (s.main ok).app.flagSoundFirstPulse = s.app.flagSoundFirstPulse := by
  unfold State.main State.rtMbSend
  cases s.pc
  case mbSend => cases s.testMb <;> rfl
  all_goals rfl

/-- Only its creation gives or takes a timer. -/
theorem main_timers (ok : Bool) (i : TimerId) :
    (s.main ok).timers i =
      if s.pc = createPc i then (if ok then some false else none) else s.timers i := by
  unfold State.main State.rtMbSend
  cases s.pc
  case mbSend => cases s.testMb <;> cases i <;> rfl
  all_goals cases i <;> rfl

/-- Before the timers are created the statement before is so too. -/
theorem main_beforeTimers {ok : Bool} (h : (s.main ok).pc.beforeTimers = true) :
    s.pc.beforeTimers = true ∧ s.pc ≠ .createClapSpaceTimer := by
  unfold State.main at h
  cases hpc : s.pc
  case deviceFind => cases ok <;> simp [hpc, Pc.beforeTimers] at h
  all_goals simp_all [Pc.beforeTimers]

/-- A statement of `main` whose handle is ready is safe. -/
theorem Safe.main (h : Safe s) {ok : Bool} (hready : HandlesReady s (.main ok)) :
    Safe (s.main ok) := by
  refine ⟨(main_noNullCalls ok).mpr ⟨h.noNullCalls, hready⟩, fun hpulse => ?_, fun hbefore => ?_⟩
  · rw [main_flagSoundFirstPulse] at hpulse
    have hsome := h.clapSpaceTimer hpulse
    -- The window timer exists, so its creation lies behind.
    have hpc : s.pc ≠ .createClapSpaceTimer := by
      intro hpc
      rw [h.beforeTimers (by rw [hpc]; rfl)] at hsome
      cases hsome
    rwa [main_timers, if_neg (show s.pc ≠ createPc .clapSpaceTimer from hpc)]
  · obtain ⟨hbefore', hpc⟩ := main_beforeTimers hbefore
    rw [main_timers, if_neg (show s.pc ≠ createPc .clapSpaceTimer from hpc)]
    exact h.beforeTimers hbefore'

/-- The MQTT thread makes a null call only at `rt_mb_recv`. -/
theorem mqttDemo_noNullCalls :
    s.mqttDemo.NoNullCalls ↔ s.NoNullCalls ∧ (s.demo = .mbRecv → s.testMb.isSome = true) := by
  unfold State.mqttDemo
  cases s.demo
  case mbRecv => exact (rtMbRecv_noNullCalls s).trans (by simp)
  case waiting => by_cases hmail : s.testMb = some true <;> simp [State.NoNullCalls, hmail]
  all_goals simp [State.NoNullCalls]

/-- The MQTT thread touches neither the timers nor the pulse flag, and neither creates nor
deletes the mailbox. -/
theorem mqttDemo_frame :
    s.mqttDemo.app.flagSoundFirstPulse = s.app.flagSoundFirstPulse ∧
      s.mqttDemo.timers = s.timers ∧ s.mqttDemo.pc = s.pc ∧
      s.mqttDemo.testMb.isSome = s.testMb.isSome ∧ s.mqttDemo.soundIrq = s.soundIrq := by
  unfold State.mqttDemo
  cases s.demo
  case mbRecv =>
    unfold State.rtMbRecv
    cases hmb : s.testMb <;> simp [hmb]
  case waiting => by_cases hmail : s.testMb = some true <;> simp [hmail]
  all_goals exact ⟨rfl, rfl, rfl, rfl, rfl⟩

/-- A statement of the MQTT thread whose handle is ready is safe. -/
theorem Safe.mqttDemo (h : Safe s) (hready : HandlesReady s .mqttDemo) : Safe s.mqttDemo := by
  obtain ⟨hflag, htimers, hpc, -, -⟩ := mqttDemo_frame (s := s)
  refine ⟨mqttDemo_noNullCalls.mpr ⟨h.noNullCalls, hready⟩, ?_, ?_⟩
  · rw [hflag, htimers]
    exact h.clapSpaceTimer
  · rw [hpc, htimers]
    exact h.beforeTimers

/-- An edge is safe when both timers were created. -/
theorem Safe.onSoundlevel (h : Safe s) (hready : ∀ i, (s.timers i).isSome = true) :
    Safe (onSoundlevel s) := by
  obtain ⟨hsame, hpc, -, -⟩ := onSoundlevel_frame s
  refine ⟨?_, fun _ => ?_, fun hbefore => ?_⟩
  · exact (onSoundlevel_noNullCalls s).mpr ⟨h.noNullCalls, hready _, fun _ => hready _⟩
  · rw [hsame]
    exact hready _
  · rw [hpc] at hbefore
    have hsome := hready .clapSpaceTimer
    rw [h.beforeTimers hbefore] at hsome
    cases hsome

/-- The expiry of a timer is safe. -/
theorem Safe.timeout (h : Safe s) (i : TimerId) : Safe (step s (.timeout i)) := by
  simp only [step]
  split
  · rename_i hactive
    cases i with
    | clapSpaceTimer =>
      refine ⟨h.noNullCalls, fun _ => by simp, fun hbefore => ?_⟩
      rw [h.beforeTimers hbefore] at hactive
      cases hactive
    | debounceTimer =>
      refine ⟨h.noNullCalls, fun hpulse => ?_, h.beforeTimers⟩
      simp [StartUp.timeout, onDebounceTimer] at hpulse
  · exact h

/-- An event whose handles are ready keeps the invariant. -/
theorem Safe.step (h : Safe s) {e : Event} (hready : HandlesReady s e) : Safe (step s e) := by
  cases e with
  | main ok => exact h.main hready
  | mqttDemo => exact h.mqttDemo hready
  | soundEdge =>
    simp only [StartUp.step]
    split
    · rename_i hirq
      exact h.onSoundlevel (hready hirq)
    · exact h
  | keyEdge =>
    simp only [StartUp.step]
    split
    · exact ⟨h.noNullCalls, h.clapSpaceTimer, h.beforeTimers⟩
    · exact h
  | timeout i => exact h.timeout i

/-- Any other event makes a kernel call on a missing handle. -/
theorem Safe.nullCall (h : Safe s) {e : Event} (hready : ¬ HandlesReady s e) :
    ¬ (StartUp.step s e).NoNullCalls := by
  intro hnone
  apply hready
  cases e with
  | main ok => exact ((main_noNullCalls ok).mp hnone).2
  | mqttDemo => exact (mqttDemo_noNullCalls.mp hnone).2
  | soundEdge =>
    intro hirq i
    simp only [StartUp.step, if_pos hirq] at hnone
    obtain ⟨-, hdebounce, hclap⟩ := (onSoundlevel_noNullCalls s).mp hnone
    cases i with
    | debounceTimer => exact hdebounce
    | clapSpaceTimer =>
      by_cases hpulse : s.app.flagSoundFirstPulse = 0
      · exact h.clapSpaceTimer hpulse
      · exact hclap hpulse
  | keyEdge => trivial
  | timeout i => trivial

end Steps

/-! ## Handles and creations

`main()` comes to each creation once, so a handle is there exactly when its creation has been
executed with success. -/

/-- The place of a statement in `main()`; the loop is one place. -/
def Pc.place : Pc → ℕ
  | .initIoPort => 0
  | .stepMotorInit => 1
  | .enableSound => 2
  | .enableKey => 3
  | .createClapSpaceTimer => 4
  | .createDebounceTimer => 5
  | .fbm320Init => 6
  | .htu21dInit => 7
  | .deviceFind => 8
  | .deviceOpen => 9
  | .fbm320ReadData => 10
  | .kaMqtt => 11
  | .stepMotorCtrl => 12
  | .mbCreate => 13
  | .deviceRead | .mbSend | .threshold | .mdelay => 14
  | .returned => 15

/-- What the statements executed so far say about the handles and the interrupt. -/
structure Created (done : List (Pc × Bool)) (s : State) : Prop where
  soundIrq : s.soundIrq = true ↔ ∃ ok, (.enableSound, ok) ∈ done
  timers : ∀ i, (s.timers i).isSome = true ↔ (createPc i, true) ∈ done
  testMb : s.testMb.isSome = true ↔ (.mbCreate, true) ∈ done
  earlier : ∀ p ok, (p, ok) ∈ done → p.place < s.pc.place ∨ 14 ≤ p.place

section Creations

variable {done : List (Pc × Bool)} {s t : State}

/-- What leaves the handles, the interrupt and `main()` alone. -/
theorem Created.frame (h : Created done s) (hirq : t.soundIrq = s.soundIrq)
    (htimers : ∀ i, (t.timers i).isSome = (s.timers i).isSome)
    (hmb : t.testMb.isSome = s.testMb.isSome) (hpc : t.pc = s.pc) : Created done t := by
  refine ⟨?_, fun i => ?_, ?_, ?_⟩
  · rw [hirq]
    exact h.soundIrq
  · rw [htimers]
    exact h.timers i
  · rw [hmb]
    exact h.testMb
  · rw [hpc]
    exact h.earlier

/-- The interrupt is enabled by its own statement. -/
theorem main_soundIrq (ok : Bool) :
    (s.main ok).soundIrq = true ↔ s.pc = .enableSound ∨ s.soundIrq = true := by
  unfold State.main State.rtMbSend
  cases s.pc
  case mbSend => cases s.testMb <;> simp
  all_goals simp [State.rtTimerCreate]

/-- The mailbox is created by its own statement. -/
theorem main_testMb (ok : Bool) :
    (s.main ok).testMb.isSome = if s.pc = .mbCreate then ok else s.testMb.isSome := by
  unfold State.main State.rtMbSend
  cases s.pc
  case mbSend => cases s.testMb <;> simp
  case mbCreate => cases ok <;> rfl
  all_goals rfl

/-- `main()` goes forward until it is in its loop or has returned, and then stays there. -/
theorem main_place (ok : Bool) : s.pc.place < (s.main ok).pc.place ∨
    14 ≤ s.pc.place ∧ s.pc.place ≤ (s.main ok).pc.place := by
  unfold State.main State.rtMbSend
  cases hpc : s.pc
  case deviceFind => cases ok <;> simp [Pc.place]
  case mbSend => cases s.testMb <;> simp [Pc.place]
  all_goals simp [Pc.place, hpc]

/-- A statement in front of the loop has not been executed before. -/
theorem Created.fresh (h : Created done s) (hplace : s.pc.place < 14) (ok : Bool) :
    (s.pc, ok) ∉ done := by
  intro hmem
  rcases h.earlier _ _ hmem with hlt | hloop
  · omega
  · omega

/-- A creation by `main()`, or another statement. -/
theorem created_iff {p : Pc} {ok before : Bool} (hfresh : s.pc = p → (p, true) ∉ done)
    (hbefore : before = true ↔ (p, true) ∈ done) :
    (if s.pc = p then ok else before) = true ↔ (p, true) ∈ done ++ [(s.pc, ok)] := by
  by_cases hp : s.pc = p
  · simp [hp, hfresh hp]
  · simp [hp, hbefore, Ne.symm hp]

/-- A statement of `main` keeps the record of what was created. -/
theorem Created.main (h : Created done s) (ok : Bool) :
    Created (done ++ [(s.pc, ok)]) (s.main ok) := by
  refine ⟨?_, fun i => ?_, ?_, fun p ok' hmem => ?_⟩
  · rw [main_soundIrq, h.soundIrq]
    simp only [List.mem_append, List.mem_singleton, Prod.mk.injEq, exists_or]
    grind
  · rw [← created_iff (fun hpc => ?_) (h.timers i), main_timers]
    · split
      · cases ok <;> simp
      · rfl
    · rw [← hpc]
      refine h.fresh ?_ true
      rw [hpc]
      cases i <;> decide
  · rw [main_testMb]
    refine created_iff (fun hpc => ?_) h.testMb
    rw [← hpc]
    refine h.fresh ?_ true
    rw [hpc]
    decide
  · have hplace := main_place (s := s) ok
    rcases List.mem_append.mp hmem with hdone | hlast
    · have := h.earlier p ok' hdone
      omega
    · obtain ⟨rfl, rfl⟩ : p = s.pc ∧ ok' = ok := by simpa using hlast
      omega

/-- The statements executed keep saying what handles there are. -/
theorem Created.step (h : Created done s) (e : Event) :
    Created (done ++ (s.statement e).toList) (step s e) := by
  cases e with
  | main ok => exact h.main ok
  | mqttDemo =>
    obtain ⟨_, htimers, hpc, hmb, hirq⟩ := mqttDemo_frame (s := s)
    simp only [State.statement, Option.toList_none, List.append_nil]
    exact h.frame hirq (fun i => by rw [StartUp.step, htimers]) hmb hpc
  | soundEdge =>
    obtain ⟨htimers, hpc, hmb, hirq⟩ := onSoundlevel_frame s
    simp only [State.statement, Option.toList_none, List.append_nil, StartUp.step]
    split
    · exact h.frame hirq htimers (by rw [hmb]) hpc
    · exact h
  | keyEdge =>
    simp only [State.statement, Option.toList_none, List.append_nil, StartUp.step]
    split
    · exact h.frame rfl (fun _ => rfl) rfl rfl
    · exact h
  | timeout i =>
    simp only [State.statement, Option.toList_none, List.append_nil, StartUp.step]
    split
    · rename_i hactive
      refine h.frame rfl (fun j => ?_) rfl rfl
      by_cases hj : j = i
      · simp [hj, hactive]
      · simp [hj]
    · exact h

/-- The handles are ready exactly when the creations have been executed with success. -/
theorem Created.handlesReady_iff (h : Created done s) (e : Event) :
    HandlesReady s e ↔ CreatedBefore done s e := by
  cases e with
  | main ok => exact imp_congr_right fun _ => h.testMb
  | mqttDemo => exact imp_congr_right fun _ => h.testMb
  | soundEdge =>
    refine imp_congr h.soundIrq ⟨fun hall => ?_, fun hboth i => ?_⟩
    · exact ⟨(h.timers .clapSpaceTimer).mp (hall _), (h.timers .debounceTimer).mp (hall _)⟩
    · cases i with
      | clapSpaceTimer => exact (h.timers .clapSpaceTimer).mpr hboth.1
      | debounceTimer => exact (h.timers .debounceTimer).mpr hboth.2
  | keyEdge => exact Iff.rfl
  | timeout i => exact Iff.rfl

end Creations

/-- What was created in a run is told by the statements executed so far. -/
theorem created_after (b : Board) (l : List Event) :
    Created (statements b l) (Run.after step (.boot b) l) := by
  induction l using List.reverseRecOn with
  | nil =>
    refine ⟨by simp [State.boot], fun i => by simp [State.boot], by simp [State.boot], ?_⟩
    intro p ok hmem
    simp at hmem
  | append_singleton l e ih =>
    rw [Run.after_snoc, statements, Run.trace_snoc]
    exact ih.step e

/-- In every run of start-up, no handle is used while it is `RT_NULL` exactly when every event
comes after the creations it relies on: every edge of the sound sensor that arrives with its
interrupt enabled after both timers were created with success, every send of the main loop and
every receive of the MQTT thread after the mailbox was created with success. -/
theorem noNullCalls_iff (b : Board) (l : List Event) :
    Run.Always step State.NoNullCalls (.boot b) l ↔
      ∀ pre e, pre ++ [e] <+: l →
        CreatedBefore (statements b pre) (Run.after step (.boot b) pre) e := by
  have hsafe : Run.Always step State.NoNullCalls (.boot b) l ↔
      Run.EachStep step HandlesReady (.boot b) l := by
    refine Run.always_iff_eachStep (I := Safe) (fun _ h => h.noNullCalls)
      (fun _ _ h hready => h.step hready) (fun _ _ h hready => h.nullCall hready) ?_ l
    exact ⟨rfl, fun hpulse => absurd hpulse Nat.one_ne_zero, fun _ => rfl⟩
  rw [hsafe]
  exact forall₃_congr fun pre e _ => (created_after b pre).handlesReady_iff e

/-- An edge of the sound sensor between the two calls `init_int` and `timer_init` starts a timer
that does not exist. -/
theorem noNullCalls_early_edge_fails :
    ¬ Run.Always step State.NoNullCalls (.boot Board.reset)
      [.main true, .main true, .main true, .main true, .soundEdge] := by
  intro h
  have hlast := h _ List.prefix_rfl
  cases hlast

end Saliwen.StartUp
