import Saliwen.CJson.Parse

/-!
# The command handler

`sub_topic_handle1` parses the text at the payload pointer and executes up to three
commands: automatic mode on or off, step motor on or off, and new thresholds. The handler
is the list of its assignments and motor calls in program order; executing the list at once
gives the handler as an atomic step.
-/

namespace Saliwen.Remote

open CJson

/-- One assignment or motor call of the handler. -/
inductive Action where
  | flagArr (v : ℤ)
  | stepMotorCtrl (dir : ℤ)
  | ltArr (v : ℤ)
  | tmpArr (v : Number)
  deriving DecidableEq, Repr

/-- The body of the handler for a parsed message. -/
def handleJson (json : Json) : List Action :=
  let ltItem := json.getObjectItem "lt"
  let tmpItem := json.getObjectItem "tmp"
  let startOff := json.getObjectItem "msg"
  let step := json.getObjectItem "step"
  (if isStringEq startOff "start" then [.flagArr 1] else []) ++
    (if isStringEq startOff "stop" then [.flagArr 0] else []) ++
    (if isStringEq step "stop" then [.stepMotorCtrl 0] else []) ++
    (if isStringEq step "start" then [.stepMotorCtrl 1] else []) ++
    match numberOf ltItem, numberOf tmpItem with
    | some lt, some tmp => [.ltArr lt.valueint, .tmpArr tmp.toFloat]
    | _, _ => []

/-- `sub_topic_handle1` with the payload pointer at the beginning of `buf`. The payload
length is not used: `cJSON_Parse` reads up to the first NUL. -/
def subTopicHandle1 (buf : Bytes) : List Action :=
  match cJSONParse (cString buf) with
  | none => []
  | some json => handleJson json

/-- The variables the handler assigns, and the `drv_stepMotor_ctrl` calls made so far. -/
structure Control where
  flagArr : ℤ
  ltArr : ℤ
  tmpArr : Number
  stepCalls : List ℤ
  deriving DecidableEq, Repr

def Control.exec (s : Control) : Action → Control
  | .flagArr v => { s with flagArr := v }
  | .stepMotorCtrl dir => { s with stepCalls := s.stepCalls ++ [dir] }
  | .ltArr v => { s with ltArr := v }
  | .tmpArr v => { s with tmpArr := v }

/-- The handler as an atomic step on a message in the read buffer. -/
def Control.receive (s : Control) (buf : Bytes) : Control :=
  (subTopicHandle1 buf).foldl Control.exec s

/-- The message carries a command. -/
def HasCommand (json : Json) : Prop :=
  isStringEq (json.getObjectItem "msg") "start" = true ∨
    isStringEq (json.getObjectItem "msg") "stop" = true ∨
    isStringEq (json.getObjectItem "step") "start" = true ∨
    isStringEq (json.getObjectItem "step") "stop" = true ∨
    ((numberOf (json.getObjectItem "lt")).isSome = true ∧
      (numberOf (json.getObjectItem "tmp")).isSome = true)

/-- An item equal to `"stop"` is not equal to `"start"`. -/
theorem isStringEq_start_of_stop {item : Option Json} (h : isStringEq item "stop" = true) :
    isStringEq item "start" = false := by
  apply Bool.eq_false_iff.mpr
  intro hstart
  have hsame := isStringEq_unique hstart h
  revert hsame
  decide

/-- What the handler does for a message, command by command. -/
theorem mem_handleJson {json : Json} {a : Action} :
    a ∈ handleJson json ↔
      (a = .flagArr 1 ∧ isStringEq (json.getObjectItem "msg") "start" = true) ∨
      (a = .flagArr 0 ∧ isStringEq (json.getObjectItem "msg") "stop" = true) ∨
      (a = .stepMotorCtrl 0 ∧ isStringEq (json.getObjectItem "step") "stop" = true) ∨
      (a = .stepMotorCtrl 1 ∧ isStringEq (json.getObjectItem "step") "start" = true) ∨
      ∃ lt tmp, numberOf (json.getObjectItem "lt") = some lt ∧
        numberOf (json.getObjectItem "tmp") = some tmp ∧
        (a = .ltArr lt.valueint ∨ a = .tmpArr tmp.toFloat) := by
  have hite : ∀ (b : Bool) (x : Action), a ∈ (if b then [x] else []) ↔ a = x ∧ b = true := by
    intro b x
    cases b <;> simp
  simp only [handleJson, List.mem_append, hite, or_assoc]
  refine or_congr_right (or_congr_right (or_congr_right (or_congr_right ?_)))
  cases numberOf (json.getObjectItem "lt") with
  | none => simp
  | some lt =>
    cases numberOf (json.getObjectItem "tmp") with
    | none => simp
    | some tmp => simp

/-- A message without a command changes nothing. -/
theorem handleJson_eq_nil {json : Json} (h : ¬ HasCommand json) : handleJson json = [] := by
  apply List.eq_nil_iff_forall_not_mem.mpr
  intro a ha
  apply h
  rcases mem_handleJson.mp ha with ⟨-, hstart⟩ | ⟨-, hstop⟩ | ⟨-, hstop⟩ | ⟨-, hstart⟩ |
    ⟨lt, tmp, hlt, htmp, -⟩
  · exact Or.inl hstart
  · exact Or.inr (Or.inl hstop)
  · exact Or.inr (Or.inr (Or.inr (Or.inl hstop)))
  · exact Or.inr (Or.inr (Or.inl hstart))
  · refine Or.inr (Or.inr (Or.inr (Or.inr ?_)))
    rw [hlt, htmp]
    exact ⟨rfl, rfl⟩

/-- A number carries no command. -/
theorem not_hasCommand_number (x : Number) : ¬ HasCommand (.number x) := by
  simp [HasCommand, Json.getObjectItem, Json.child, isStringEq, numberOf]

end Saliwen.Remote
