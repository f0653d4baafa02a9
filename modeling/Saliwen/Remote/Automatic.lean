import Saliwen.Board
import Saliwen.Remote.Handler
import Saliwen.Lib.Run

/-!
# Automatic mode and remote commands

The main loop tests `flag_arr` once per round and then drives the fan, the LEDs and the step
motor from its sampled values and the shared thresholds. The MQTT client thread runs the
command handler and may preempt it anywhere. One label is one read of a shared variable or
one actuator write of one of them.
-/

namespace Saliwen.Remote

open CJson

/-- One write of the handler. -/
inductive HandlerOp where
  | flagArr (v : ℤ)
  | motor (op : MotorOp)
  | ltArr (v : ℤ)
  | tmpArr (v : Number)
  deriving DecidableEq, Repr

/-- An action of the handler as its single writes. -/
def Action.writes : Action → List HandlerOp
  | .flagArr v => [.flagArr v]
  | .stepMotorCtrl dir => (drvStepMotorCtrl dir).map .motor
  | .ltArr v => [.ltArr v]
  | .tmpArr v => [.tmpArr v]

/-- The writes of a handler run on a message in the read buffer. -/
def handlerWrites (buf : Bytes) : List HandlerOp := (subTopicHandle1 buf).flatMap Action.writes

/-- The message holds both `"msg":"stop"` and `"step":"stop"`. -/
def isStop (buf : Bytes) : Bool :=
  (cJSONParse (cString buf)).any fun json =>
    isStringEq (json.getObjectItem "msg") "stop" && isStringEq (json.getObjectItem "step") "stop"

/-- The message has `msg` or `step` equal to `"start"`. -/
def isStart (buf : Bytes) : Bool :=
  (cJSONParse (cString buf)).any fun json =>
    isStringEq (json.getObjectItem "msg") "start" ||
      isStringEq (json.getObjectItem "step") "start"

/-- Program points of the automatic-mode block, with the sampled values still needed. -/
inductive MainPc where
  /-- Between rounds. -/
  | idle
  /-- Before the test of `flag_arr`. -/
  | test (tmp : ℚ) (lt : ℤ)
  /-- Before the comparison with `tmp_arr`. -/
  | compareTmp (tmp : ℚ) (lt : ℤ)
  /-- In `fan(a)`. -/
  | fan (a : ℕ) (lt : ℤ)
  /-- Before the comparison with `lt_arr`. -/
  | compareLt (lt : ℤ)
  /-- In `turn(a)`, with the writes still to do. -/
  | turn (writes : List HwOp)

/-- The shared variables, the board, both threads, and whether a stop is in force: a stop
message was completely handled and no start message has come since. -/
structure State where
  flagArr : ℤ
  ltArr : ℤ
  tmpArr : Number
  board : Board
  main : MainPc
  /-- The writes the handler run in progress has still to do. -/
  pending : List HandlerOp
  /-- Whether the run in progress handles a stop message. -/
  stopping : Bool
  stopped : Bool

/-- Both threads between rounds and no message handled yet. -/
def State.start (flagArr ltArr : ℤ) (tmpArr : Number) (board : Board) : State where
  flagArr := flagArr
  ltArr := ltArr
  tmpArr := tmpArr
  board := board
  main := .idle
  pending := []
  stopping := false
  stopped := false

/-- The steps of the two threads. -/
inductive Label where
  /-- The main loop samples temperature and light and comes to the automatic-mode block. -/
  | sample (tmp : ℚ) (lt : ℤ)
  /-- The next read or write of the automatic-mode block. -/
  | main
  /-- The client thread begins to handle a message. -/
  | receive (buf : Bytes)
  /-- The next write of the handler. -/
  | handler

/-- The comparison `tmp >= tmp_arr`. -/
def reaches (tmp : ℚ) : Number → Bool
  | .finite x => x ≤ tmp
  | .infinite negative => negative

/-- The next read or write of the automatic-mode block. -/
def mainStep (s : State) : State :=
  match s.main with
  | .idle => s
  | .test tmp lt => { s with main := if s.flagArr = 1 then .compareTmp tmp lt else .idle }
  | .compareTmp tmp lt => { s with main := .fan (if reaches tmp s.tmpArr then 1 else 0) lt }
  | .fan a lt => { s with board := s.board.execAll (Saliwen.fan a), main := .compareLt lt }
  | .compareLt lt => { s with main := .turn (Saliwen.turn (if lt ≤ s.ltArr then 1 else 0)) }
  | .turn [] => { s with main := .idle }
  | .turn (op :: writes) => { s with board := s.board.exec op, main := .turn writes }

/-- Effect of one write of the handler. -/
def State.exec (s : State) : HandlerOp → State
  | .flagArr v => { s with flagArr := v }
  | .motor op => { s with board := s.board.exec (.motor op) }
  | .ltArr v => { s with ltArr := v }
  | .tmpArr v => { s with tmpArr := v }

/-- The next write of the handler; the last one completes the run. -/
def handlerStep (s : State) : State :=
  match s.pending with
  | [] => s
  | op :: rest =>
    { s.exec op with
      pending := rest
      stopping := if rest = [] then false else s.stopping
      stopped := if rest = [] then s.stopped || s.stopping else s.stopped }

/-- One step. The client thread handles one message at a time, and a start message ends the
force of earlier stops when its handling begins. -/
def step (s : State) : Label → State
  | .sample tmp lt =>
    match s.main with
    | .idle => { s with main := .test tmp lt }
    | _ => s
  | .main => mainStep s
  | .receive buf =>
    if s.pending = [] then
      { s with
        pending := handlerWrites buf
        stopping := isStop buf
        stopped := s.stopped && !isStart buf }
    else s
  | .handler => handlerStep s

end Saliwen.Remote
