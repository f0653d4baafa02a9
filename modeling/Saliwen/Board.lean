import Mathlib.Data.Fintype.Pi
import Mathlib.Tactic.FinCases

/-!
# Actuators of the board

Four LEDs on `PE.0` to `PE.3`, the fan on `PE.5` and the step motor (EN pin, DIR pin and
PWM channel). Every function of `led_control.c` and `drv_stepMotor.c` that drives them
is the list of its hardware operations in program order. Executing the list at once gives
the function as an atomic step; executing its elements one by one gives its interleavings.
-/

namespace Saliwen

/-- The two pin levels `PIN_LOW` and `PIN_HIGH`. -/
inductive Level where
  | low
  | high
  deriving DecidableEq, Repr

/-- One operation on the step motor: a write of its EN pin, a write of its DIR pin,
or `rt_pwm_enable` / `rt_pwm_disable` on its channel. -/
inductive MotorOp where
  | en (l : Level)
  | dir (l : Level)
  | pwm (on : Bool)
  deriving DecidableEq, Repr

/-- One operation on an actuator of the board. -/
inductive HwOp where
  | led (i : Fin 4) (l : Level)
  | fan (l : Level)
  | motor (op : MotorOp)
  deriving DecidableEq, Repr

/-- The outputs of the step motor. -/
structure Motor where
  /-- Level of `STEPMOTOR_EN_PIN_NUM`; the driver chip is enabled by a low level. -/
  en : Level
  /-- Level of `STEPMOTOR_DIR_PIN_NUM`. -/
  dir : Level
  /-- Whether the PWM channel is enabled. -/
  pwm : Bool
  deriving DecidableEq, Repr

/-- The outputs of the board. The LEDs are active low: a low pin is lit. -/
structure Board where
  /-- Levels of `LED1_PIN_NUM` to `LED4_PIN_NUM`. -/
  leds : Fin 4 → Level
  /-- Level of the fan pin. -/
  fan : Level
  /-- Outputs of the step motor. -/
  motor : Motor
  deriving DecidableEq

/-- Effect of one step-motor operation. -/
def Motor.exec (m : Motor) : MotorOp → Motor
  | .en l => { m with en := l }
  | .dir l => { m with dir := l }
  | .pwm on => { m with pwm := on }

/-- Effect of one hardware operation. -/
def Board.exec (b : Board) : HwOp → Board
  | .led i l => { b with leds := Function.update b.leds i l }
  | .fan l => { b with fan := l }
  | .motor op => { b with motor := b.motor.exec op }

/-- Effect of a list of hardware operations in order. -/
def Board.execAll (b : Board) (ops : List HwOp) : Board := ops.foldl Board.exec b

/-- `drv_stepMotor_ctrl(dir)`: 0 stops the motor, 1 turns it forward and every other
value turns it backward. -/
def drvStepMotorCtrl (dir : ℤ) : List MotorOp :=
  if dir = 0 then
    [.pwm false, .en .high]
  else
    [if dir = 1 then .dir .low else .dir .high, .en .low, .pwm true]

/-- The four LED writes shared by `init_io_port`, `control_led` and `turn`, with the
level written to each pin. -/
def writeLeds (level : Fin 4 → Level) : List HwOp :=
  [.led 0 (level 0), .led 1 (level 1), .led 2 (level 2), .led 3 (level 3)]

/-- `init_io_port()`: all four LED pins are driven high. -/
def initIoPort : List HwOp := writeLeds fun _ => .high

/-- `control_led(cmd)`: bit `i` of the command lights LED `i`, by a low level. -/
def controlLed (cmd : ℕ) : List HwOp :=
  writeLeds fun i => if cmd.testBit i then .low else .high

/-- `turn(a)`: switch the LEDs and the step motor together. -/
def turn (a : ℤ) : List HwOp :=
  if a = 1 then
    writeLeds (fun _ => .low) ++ (drvStepMotorCtrl 1).map .motor
  else
    writeLeds (fun _ => .high) ++ (drvStepMotorCtrl 0).map .motor

/-- `fan(a)`: a non-zero argument drives the fan pin high. -/
def fan (a : ℕ) : List HwOp := [.fan (if a ≠ 0 then .high else .low)]

/-- A write to an LED sets the level of this LED. -/
@[simp] theorem Board.exec_led_self (b : Board) (i : Fin 4) (l : Level) :
    (b.exec (.led i l)).leds i = l := Function.update_self ..

/-- A write to an LED leaves the others as they are. -/
@[simp] theorem Board.exec_led_of_ne (b : Board) {i j : Fin 4} (hne : j ≠ i) (l : Level) :
    (b.exec (.led i l)).leds j = b.leds j := Function.update_of_ne hne ..

/-- Writes in sequence are executed one list after the other. -/
theorem Board.execAll_append (b : Board) (xs ys : List HwOp) :
    b.execAll (xs ++ ys) = (b.execAll xs).execAll ys := List.foldl_append ..

/-- Writes to the motor leave the LEDs as they are. -/
@[simp] theorem Board.execAll_motor_leds (b : Board) (ops : List MotorOp) :
    (b.execAll (ops.map .motor)).leds = b.leds := by
  induction ops generalizing b with
  | nil => rfl
  | cons op ops ih => exact ih (b.exec (.motor op))

/-- The four LED writes set exactly the levels they were given. -/
@[simp] theorem Board.execAll_writeLeds_leds (b : Board) (level : Fin 4 → Level) :
    (b.execAll (writeLeds level)).leds = level := by
  funext i
  fin_cases i <;> rfl

/-- `turn` leaves all LEDs at one level, the lit one being low. -/
@[simp] theorem Board.execAll_turn_leds (b : Board) (a : ℤ) :
    (b.execAll (turn a)).leds = fun _ => if a = 1 then .low else .high := by
  unfold turn
  split <;> simp [Board.execAll_append, *]

end Saliwen
