import Saliwen.Board
import Saliwen.Lib.Word

/-!
# Globals of the application and its event handlers

The part of `main.c` that runs in interrupt context: the two timer callbacks and
the key handler, over the global variables they read and write. Handlers run to
completion, so each is a function on the globals.
-/

namespace Saliwen

/-- `enum LedStatus`. -/
inductive LedStatus where
  | ledIdle
  | ledClap
  deriving DecidableEq, Repr

/-- The globals of `main.c` shared by the clap recogniser, the key and the
publishing thread, with the outputs of the board. -/
structure App where
  currState : LedStatus
  /-- Claps counted in the open window, a C `int`. -/
  cnt : ℤ
  flagSoundFirstPulse : ℕ
  flagLedStatus : ℕ
  flagClapTimer : ℕ
  flagClapSend : ℕ
  board : Board
  deriving DecidableEq

/-- The globals as initialised by their declarations, over a board whose
`init_io_port` has run. -/
def App.boot (b : Board) : App where
  currState := .ledIdle
  cnt := 0
  flagSoundFirstPulse := 1
  flagLedStatus := 0x0
  flagClapTimer := 0
  flagClapSend := 0
  board := b.execAll initIoPort

/-- `on_debounce_timer`: the next edge is a first pulse again. -/
def onDebounceTimer (s : App) : App := { s with flagSoundFirstPulse := 1 }

/-- `on_clap_space_timer`: the window closes; two claps toggle the LEDs and ask
for a publication. -/
def onClapSpaceTimer (s : App) : App :=
  let s := { s with flagClapTimer := 1 }
  let s :=
    if s.cnt = 2 then
      let s := { s with currState := .ledIdle }
      let s :=
        if s.flagLedStatus ≠ 0 then
          { s with flagLedStatus := 0x0, board := s.board.execAll (controlLed 0xf) }
        else
          { s with flagLedStatus := 0xf, board := s.board.execAll (controlLed 0x0) }
      { s with flagClapSend := 1 }
    else
      { s with currState := .ledIdle }
  { s with cnt := 0 }

/-- `on_key1_clicked`. -/
def onKey1Clicked (s : App) : App := { s with flagClapSend := 1 }

/-- The globals after the window closes, field by field. -/
theorem onClapSpaceTimer_eq (s : App) :
    onClapSpaceTimer s =
      { currState := .ledIdle
        cnt := 0
        flagSoundFirstPulse := s.flagSoundFirstPulse
        flagLedStatus :=
          if s.cnt = 2 then (if s.flagLedStatus ≠ 0 then 0 else 0xf) else s.flagLedStatus
        flagClapTimer := 1
        flagClapSend := if s.cnt = 2 then 1 else s.flagClapSend
        board :=
          if s.cnt = 2 then
            s.board.execAll (controlLed (if s.flagLedStatus ≠ 0 then 0xf else 0x0))
          else s.board } := by
  unfold onClapSpaceTimer
  by_cases hcnt : s.cnt = 2
  · by_cases hled : s.flagLedStatus = 0
    · simp [hcnt, hled]
    · simp [hcnt, hled]
  · simp [hcnt]

/-- The end of a window clears the count of claps. -/
@[simp] theorem onClapSpaceTimer_cnt (s : App) : (onClapSpaceTimer s).cnt = 0 := rfl

/-- The end of a window brings the state back to idle. -/
@[simp] theorem onClapSpaceTimer_currState (s : App) :
    (onClapSpaceTimer s).currState = .ledIdle := by
  rw [onClapSpaceTimer_eq]

/-- The end of a window leaves the debounce flag to its own timer. -/
@[simp] theorem onClapSpaceTimer_flagSoundFirstPulse (s : App) :
    (onClapSpaceTimer s).flagSoundFirstPulse = s.flagSoundFirstPulse := by
  rw [onClapSpaceTimer_eq]

/-- Exactly two claps toggle the recorded LED status. -/
theorem onClapSpaceTimer_flagLedStatus (s : App) :
    (onClapSpaceTimer s).flagLedStatus =
      if s.cnt = 2 then (if s.flagLedStatus ≠ 0 then 0 else 0xf) else s.flagLedStatus := by
  rw [onClapSpaceTimer_eq]

/-- Exactly two claps request a publication. -/
theorem onClapSpaceTimer_flagClapSend (s : App) :
    (onClapSpaceTimer s).flagClapSend = if s.cnt = 2 then 1 else s.flagClapSend := by
  rw [onClapSpaceTimer_eq]

/-- `control_led` with all bits set lights every LED, with none set it darkens every LED. -/
theorem execAll_controlLed_leds (b : Board) (on : Prop) [Decidable on] :
    (b.execAll (controlLed (if on then 0xf else 0x0))).leds = fun _ =>
      if on then .low else .high := by
  funext i
  unfold controlLed
  rw [Board.execAll_writeLeds_leds]
  by_cases hon : on
  · simp only [hon, if_true]
    fin_cases i <;> decide
  · simp only [hon, if_false]
    fin_cases i <;> decide

/-- Exactly two claps rewrite the LED pins, to the level opposite to what the old
status calls for: dark (high) when the status was off, lit (low) when it was on. -/
theorem onClapSpaceTimer_leds (s : App) :
    (onClapSpaceTimer s).board.leds =
      if s.cnt = 2 then
        fun _ => if s.flagLedStatus ≠ 0 then .low else .high
      else s.board.leds := by
  rw [onClapSpaceTimer_eq]
  by_cases hcnt : s.cnt = 2
  · simp only [hcnt, if_true]
    exact execAll_controlLed_leds s.board (s.flagLedStatus ≠ 0)
  · simp only [hcnt, if_false]

end Saliwen
