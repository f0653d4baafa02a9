import Saliwen.App
import Saliwen.Lib.TimerQueue
import Saliwen.Clap.Groups

/-!
# The double-clap recogniser

Falling edges of the sound sensor run `on_soundlevel`, which drives two one-shot timers:
the debounce timer and the window timer of the current group of claps. The clock advances
tick by tick; expiries due at a tick are delivered before an edge at that tick.
-/

namespace Saliwen.Clap

/-- The two timers created by `timer_init`. -/
inductive TimerId where
  | clapSpaceTimer
  | debounceTimer
  deriving DecidableEq, Repr

/-- One run of `on_clap_space_timer`: its tick and the globals around it. -/
structure Fire where
  tick : ℕ
  pre : App
  post : App

/-- The globals that only `on_clap_space_timer` writes while the recogniser runs: the LED
status, the window flag, the publication request and the outputs of the board. -/
def outputs (a : App) : ℕ × ℕ × ℕ × Board :=
  (a.flagLedStatus, a.flagClapTimer, a.flagClapSend, a.board)

/-- The recorded expiries account for the outputs from the globals `a` to the globals `b`:
the first callback found the outputs of `a`, each later one those its predecessor left, and
`b` has those of the last one. -/
def Linked : App → List Fire → App → Prop
  | a, [], b => outputs a = outputs b
  | a, f :: fires, b => outputs a = outputs f.pre ∧ Linked f.post fires b

/-- The clock, the active timers, the globals and the window expiries so far. -/
structure State where
  now : ℕ
  timers : TimerQueue TimerId
  app : App
  fires : List Fire

/-- The state after `timer_init`: both timers created and neither started. -/
def State.timerInit (app : App) : State := ⟨0, .empty, app, []⟩

/-- The callback of a timer, with the record of window expiries. -/
def timeout (now : ℕ) : TimerId → App × List Fire → App × List Fire
  | .debounceTimer, (app, fires) => (onDebounceTimer app, fires)
  | .clapSpaceTimer, (app, fires) =>
    (onClapSpaceTimer app, fires ++ [⟨now, app, onClapSpaceTimer app⟩])

/-- The tick interrupt: the clock advances and due timers expire. -/
def State.tick (s : State) : State :=
  let now := s.now + 1
  let (timers, app, fires) := s.timers.check (timeout now) now (s.app, s.fires)
  ⟨now, timers, app, fires⟩

/-- The timeouts in ticks given to `rt_timer_create`. -/
def initTick : TimerId → ℕ
  | .clapSpaceTimer => 1000
  | .debounceTimer => 250

/-- `rt_timer_start` at the current tick. -/
def State.rtTimerStart (s : State) (i : TimerId) : State :=
  { s with timers := s.timers.start i (s.now + initTick i) }

/-- `rt_timer_stop`; stopping an inactive timer changes nothing. -/
def State.rtTimerStop (s : State) (i : TimerId) : State := { s with timers := s.timers.stop i }

/-- `on_soundlevel`, run by a falling edge of `PC.0`. -/
def onSoundlevel (s : State) : State :=
  let s := s.rtTimerStart .debounceTimer
  if s.app.flagSoundFirstPulse ≠ 0 then
    let s := { s with
      app := { s.app with cnt := wrap32 (s.app.cnt + 1), flagSoundFirstPulse := 0 } }
    if s.app.currState = .ledIdle then
      let s := { s with app := { s.app with currState := .ledClap } }
      s.rtTimerStart .clapSpaceTimer
    else
      (s.rtTimerStop .clapSpaceTimer).rtTimerStart .clapSpaceTimer
  else s

/-- Let `n` ticks pass. -/
def State.wait : ℕ → State → State
  | 0, s => s
  | n + 1, s => State.wait n s.tick

/-- Let the edges of a trace arrive at their ticks. -/
def State.play (s : State) : List ℕ → State
  | [] => s
  | e :: es => State.play (onSoundlevel (State.wait (e - s.now) s)) es

/-- The last of some ticks. -/
theorem State.wait_succ (n : ℕ) (s : State) : State.wait (n + 1) s = (State.wait n s).tick := by
  induction n generalizing s with
  | zero => rfl
  | succ n ih => rw [State.wait, ih s.tick, State.wait]

/-- A tick advances the clock by one. -/
@[simp] theorem State.tick_now (s : State) : s.tick.now = s.now + 1 := rfl

/-- Ticks advance the clock by their number. -/
@[simp] theorem State.wait_now (n : ℕ) (s : State) : (State.wait n s).now = s.now + n := by
  induction n with
  | zero => rfl
  | succ n ih => rw [State.wait_succ, State.tick_now, ih, Nat.add_assoc]

/-- An edge takes no time. -/
@[simp] theorem onSoundlevel_now (s : State) : (onSoundlevel s).now = s.now := by
  unfold onSoundlevel
  dsimp only
  split
  · split <;> rfl
  · rfl

end Saliwen.Clap
