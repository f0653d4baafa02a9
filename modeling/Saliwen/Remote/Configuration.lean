import Saliwen.Remote.Payload
import Saliwen.Lib.PartialUpdate

/-!
# Remote configuration

Any sequence of messages leaves the variables that its commands call for: the last automatic-mode
command, the last pair of thresholds, and the step-motor commands in order. What else a message
holds does not matter.
-/

namespace Saliwen.Remote

open CJson

/-! ## Commands of a message -/

/-- Truncation toward zero. -/
def truncate (x : ℚ) : ℤ := if 0 ≤ x then ⌊x⌋ else ⌈x⌉

/-- A number truncated toward zero and saturated to the range of an `int`. -/
def intOf : Number → ℤ
  | .finite x => max (-2 ^ 31) (min (2 ^ 31 - 1) (truncate x))
  | .infinite negative => if negative then -2 ^ 31 else 2 ^ 31 - 1

/-- 1 or 0 if the first member of that name is the string `"start"` or `"stop"`. -/
def switchOf (name : String) (json : Json) : Option ℤ :=
  if isStringEq (json.getObjectItem name) "start" then some 1
  else if isStringEq (json.getObjectItem name) "stop" then some 0
  else none

/-- The new thresholds if the first members `"lt"` and `"tmp"` are both numbers. -/
def thresholdsOf (json : Json) : Option (ℤ × Number) :=
  match numberOf (json.getObjectItem "lt"), numberOf (json.getObjectItem "tmp") with
  | some lt, some tmp => some (intOf lt, tmp.toFloat)
  | _, _ => none

/-- The item of a payload, read up to its first NUL. -/
def itemOf (buf : Bytes) : Option Json := cJSONParse (cString buf)

/-- The automatic-mode command of a payload. -/
def modeCommand (buf : Bytes) : Option ℤ := (itemOf buf).bind (switchOf "msg")

/-- The step-motor command of a payload. -/
def stepCommand (buf : Bytes) : Option ℤ := (itemOf buf).bind (switchOf "step")

/-- The threshold command of a payload. -/
def thresholdCommand (buf : Bytes) : Option (ℤ × Number) := (itemOf buf).bind thresholdsOf

/-- The three groups of variables, each under its own command. -/
def Control.configure (s : Control) (mode : Option ℤ) (thresholds : Option (ℤ × Number))
    (step : Option ℤ) : Control where
  flagArr := mode.getD s.flagArr
  ltArr := (thresholds.getD (s.ltArr, s.tmpArr)).1
  tmpArr := (thresholds.getD (s.ltArr, s.tmpArr)).2
  stepCalls := s.stepCalls ++ step.toList

/-- The variables after the payloads `bufs`, handled one after another from `s`, are the fold of
their commands. -/
structure IsFoldOfCommands (s : Control) (bufs : List Bytes) : Prop where
  flagArr : (Run.after Control.receive s bufs).flagArr =
    (bufs.filterMap modeCommand).getLastD s.flagArr
  thresholds :
    ((Run.after Control.receive s bufs).ltArr, (Run.after Control.receive s bufs).tmpArr) =
      (bufs.filterMap thresholdCommand).getLastD (s.ltArr, s.tmpArr)
  stepCalls : (Run.after Control.receive s bufs).stepCalls =
    s.stepCalls ++ bufs.filterMap stepCommand
  /-- A payload that does not parse changes nothing. -/
  unparsed : ∀ buf ∈ bufs, itemOf buf = none → ∀ t : Control, t.receive buf = t
  /-- Each group follows its own command, whatever the other two are. -/
  independent : ∀ buf ∈ bufs, ∀ t : Control,
    t.receive buf = t.configure (modeCommand buf) (thresholdCommand buf) (stepCommand buf)

/-! ## One message -/

/-- Truncation does not pass an integer below a positive number. -/
theorem le_truncate {x : ℚ} {n : ℤ} (hn : 0 ≤ n) (hx : (n : ℚ) ≤ x) : n ≤ truncate x := by
  have hnonneg : 0 ≤ x := le_trans (by exact_mod_cast hn) hx
  rw [truncate, if_pos hnonneg]
  exact Int.le_floor.mpr hx

/-- Truncation does not pass an integer above a negative number. -/
theorem truncate_le {x : ℚ} {n : ℤ} (hn : n < 0) (hx : x ≤ n) : truncate x ≤ n := by
  have hneg : ¬ 0 ≤ x := not_le.mpr (lt_of_le_of_lt hx (by exact_mod_cast hn))
  rw [truncate, if_neg hneg]
  exact Int.ceil_le.mpr hx

/-- Truncation stays below a positive bound. -/
theorem truncate_lt {x : ℚ} {n : ℤ} (hn : 0 < n) (hx : x < n) : truncate x < n := by
  unfold truncate
  split
  · exact Int.floor_lt.mpr hx
  · rename_i hneg
    have hceil : ⌈x⌉ ≤ 0 := Int.ceil_le.mpr (by push_cast; exact (not_le.mp hneg).le)
    omega

/-- Truncation stays above a negative bound. -/
theorem lt_truncate {x : ℚ} {n : ℤ} (hn : n < 0) (hx : (n : ℚ) < x) : n < truncate x := by
  unfold truncate
  split
  · rename_i hnonneg
    have hfloor : 0 ≤ ⌊x⌋ := Int.floor_nonneg.mpr hnonneg
    omega
  · exact Int.lt_ceil.mpr hx

/-- The saturation of `parse_number`. -/
theorem valueint_eq_intOf (x : Number) : x.valueint = intOf x := by
  cases x with
  | infinite negative => cases negative <;> rfl
  | finite x =>
    simp only [Number.valueint, intOf]
    by_cases hhigh : 2 ^ 31 - 1 ≤ x
    · have hle : 2 ^ 31 - 1 ≤ truncate x := le_truncate (by norm_num) (by exact_mod_cast hhigh)
      rw [if_pos hhigh, min_eq_left hle, max_eq_right (by norm_num)]
    by_cases hlow : x ≤ -2 ^ 31
    · have hle : truncate x ≤ -2 ^ 31 := truncate_le (by norm_num) (by exact_mod_cast hlow)
      rw [if_neg hhigh, if_pos hlow, min_eq_right (by omega), max_eq_left hle]
    · have hlt : truncate x < 2 ^ 31 - 1 :=
        truncate_lt (by norm_num) (by exact_mod_cast not_le.mp hhigh)
      have hgt : -2 ^ 31 < truncate x :=
        lt_truncate (by norm_num) (by exact_mod_cast not_le.mp hlow)
      rw [if_neg hhigh, if_neg hlow, min_eq_right hlt.le, max_eq_right hgt.le]
      rfl

/-- What a message does to the thresholds. -/
theorem exec_handleJson_thresholds (json : Json) (s : Control) :
    (((handleJson json).foldl Control.exec s).ltArr,
      ((handleJson json).foldl Control.exec s).tmpArr) =
        (thresholdsOf json).getD (s.ltArr, s.tmpArr) := by
  unfold handleJson thresholdsOf
  simp only [List.foldl_append, valueint_eq_intOf]
  cases numberOf (json.getObjectItem "lt") with
  | none => split_ifs <;> rfl
  | some lt =>
    cases numberOf (json.getObjectItem "tmp") with
    | none => split_ifs <;> rfl
    | some tmp => rfl

/-- The two tests for a string exclude each other, in either order. -/
theorem switchOf_eq (name : String) (json : Json) :
    switchOf name json =
      if isStringEq (json.getObjectItem name) "stop" then some 0
      else if isStringEq (json.getObjectItem name) "start" then some 1 else none := by
  unfold switchOf
  by_cases hstop : isStringEq (json.getObjectItem name) "stop" = true
  · simp [hstop, isStringEq_start_of_stop hstop]
  · simp [hstop]

/-- The effect of a parsed message. -/
theorem exec_handleJson (json : Json) (s : Control) :
    (handleJson json).foldl Control.exec s =
      s.configure (switchOf "msg" json) (thresholdsOf json) (switchOf "step" json) := by
  have hflag : ((handleJson json).foldl Control.exec s).flagArr =
      (switchOf "msg" json).getD s.flagArr := by
    rw [exec_handleJson_flagArr, switchOf_eq]
    split_ifs <;> rfl
  have hcalls : ((handleJson json).foldl Control.exec s).stepCalls =
      s.stepCalls ++ (switchOf "step" json).toList := by
    rw [exec_handleJson_stepCalls, switchOf_eq]
    by_cases hstop : isStringEq (json.getObjectItem "step") "stop" = true
    · simp [hstop, isStringEq_start_of_stop hstop]
    · by_cases hstart : isStringEq (json.getObjectItem "step") "start" = true
      · simp [hstop, hstart]
      · simp [hstop, hstart]
  unfold Control.configure
  rw [← hflag, ← hcalls, ← exec_handleJson_thresholds]

/-- The effect of a payload. -/
theorem receive_eq_configure (s : Control) (buf : Bytes) :
    s.receive buf =
      s.configure (modeCommand buf) (thresholdCommand buf) (stepCommand buf) := by
  unfold Control.receive subTopicHandle1 modeCommand thresholdCommand stepCommand itemOf
  cases cJSONParse (cString buf) with
  | none => simp [Control.configure]
  | some json => exact exec_handleJson json s

/-- A message that cannot be parsed changes nothing. -/
theorem receive_of_unparsed {buf : Bytes} (h : itemOf buf = none) (s : Control) :
    s.receive buf = s := by
  unfold itemOf at h
  unfold Control.receive subTopicHandle1
  rw [h]
  rfl

/-! ## Sequences of messages -/

/-- From every state, every finite sequence of payloads leaves the fold of its commands. -/
theorem isFoldOfCommands (s : Control) (bufs : List Bytes) : IsFoldOfCommands s bufs := by
  constructor
  case flagArr =>
    rw [← Run.after_assign]
    refine Run.after_part Control.flagArr (fun t buf => ?_) s bufs
    rw [receive_eq_configure]
    rfl
  case thresholds =>
    rw [← Run.after_assign]
    refine Run.after_part (fun t : Control => (t.ltArr, t.tmpArr)) (fun t buf => ?_) s bufs
    rw [receive_eq_configure]
    rfl
  case stepCalls =>
    rw [← Run.after_record]
    refine Run.after_part Control.stepCalls (fun t buf => ?_) s bufs
    rw [receive_eq_configure]
    rfl
  case unparsed =>
    intro buf _ hnone t
    exact receive_of_unparsed hnone t
  case independent =>
    intro buf _ t
    exact receive_eq_configure t buf

end Saliwen.Remote
