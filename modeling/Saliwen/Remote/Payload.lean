import Saliwen.Remote.Handler
import Saliwen.CJson.Continuation

/-!
# What the command handler reads

The handler gets a pointer into the MQTT read buffer and parses up to the first NUL, whatever
the length of the payload. Behind the payload lie the remains of earlier packets. This file
determines the payloads whose effect these remains cannot change.
-/

namespace Saliwen.Remote

open CJson

/-- The effect of a payload depends on nothing behind it: from every state, all contents of
the read buffer behind the payload that hold a NUL somewhere give the same variables and the
same motor calls. -/
def DependsOnPayloadOnly (p : Bytes) : Prop :=
  ∀ (s : Control) (r₁ r₂ : Bytes), 0 ∈ r₁ → 0 ∈ r₂ → s.receive (p ++ r₁) = s.receive (p ++ r₂)

/-- A text that the handler takes for a command. -/
def IsCommand (text : Bytes) : Prop :=
  0 ∉ text ∧ ∃ json, cJSONParse text = some json ∧ HasCommand json

/-- A truncated command: the beginning of a command, with no NUL in it and no complete value
by itself. -/
def TruncatedCommand (p : Bytes) : Prop :=
  0 ∉ p ∧ cJSONParse p = none ∧ ∃ text, IsCommand text ∧ p <+: text

/-- A C string contains no zero. -/
theorem cString_notMem (r : Bytes) : 0 ∉ cString r := by
  intro h
  have hall := List.all_takeWhile (p := fun c : UInt8 => c ≠ 0) (l := r)
  have hne := List.all_eq_true.mp hall 0 h
  simp at hne

/-- Behind a zero nothing matters. -/
theorem cString_append_of_mem {p : Bytes} (h : 0 ∈ p) (r : Bytes) :
    cString (p ++ r) = cString p := by
  have hne : (cString p).length ≠ p.length := by
    intro hlength
    have hall : cString p = p := (List.takeWhile_prefix _).eq_of_length hlength
    have hnot := cString_notMem p
    rw [hall] at hnot
    exact hnot h
  unfold cString at hne ⊢
  rw [List.takeWhile_append, if_neg hne]

/-- Without a zero the C string goes on. -/
theorem cString_append_of_notMem {p : Bytes} (h : 0 ∉ p) (r : Bytes) :
    cString (p ++ r) = p ++ cString r := by
  unfold cString
  rw [List.takeWhile_append_of_pos]
  intro c hc
  simp only [ne_eq, decide_not, Bool.not_eq_true', decide_eq_false_iff_not]
  rintro rfl
  exact h hc

/-- The text in front of a NUL. -/
theorem cString_append_zero {q : Bytes} (h : 0 ∉ q) : cString (q ++ [0]) = q := by
  rw [cString_append_of_notMem h]
  simp [cString]

/-- Behind a payload without NUL the parser reads some text without NUL. -/
theorem receive_eq {p : Bytes} (hp : 0 ∉ p) (s : Control) (r : Bytes) :
    s.receive (p ++ r) =
      match cJSONParse (p ++ cString r) with
      | none => s
      | some json => (handleJson json).foldl Control.exec s := by
  unfold Control.receive subTopicHandle1
  rw [cString_append_of_notMem hp]
  cases cJSONParse (p ++ cString r) <;> rfl

/-- `flag_arr` after a message. -/
theorem exec_handleJson_flagArr (json : Json) (s : Control) :
    ((handleJson json).foldl Control.exec s).flagArr =
      if isStringEq (json.getObjectItem "msg") "stop" then 0
      else if isStringEq (json.getObjectItem "msg") "start" then 1 else s.flagArr := by
  unfold handleJson
  simp only [List.foldl_append]
  split_ifs <;> split <;> rfl

/-- The motor calls after a message. -/
theorem exec_handleJson_stepCalls (json : Json) (s : Control) :
    ((handleJson json).foldl Control.exec s).stepCalls =
      s.stepCalls ++ (if isStringEq (json.getObjectItem "step") "stop" then [0] else []) ++
        (if isStringEq (json.getObjectItem "step") "start" then [1] else []) := by
  unfold handleJson
  simp only [List.foldl_append]
  split_ifs <;> split <;> simp [Control.exec]

/-- `lt_arr` after a message with both thresholds. -/
theorem exec_handleJson_ltArr {json : Json} {lt tmp : Number}
    (hlt : numberOf (json.getObjectItem "lt") = some lt)
    (htmp : numberOf (json.getObjectItem "tmp") = some tmp) (s : Control) :
    ((handleJson json).foldl Control.exec s).ltArr = lt.valueint := by
  unfold handleJson
  simp only [List.foldl_append, hlt, htmp]
  rfl

/-- A message with a command changes some state. -/
theorem exists_exec_ne {json : Json} (h : HasCommand json) :
    ∃ s : Control, (handleJson json).foldl Control.exec s ≠ s := by
  rcases h with hstart | hstop | hstart | hstop | ⟨hlt, htmp⟩
  · refine ⟨⟨2, 0, .finite 0, []⟩, fun hsame => ?_⟩
    have hflag := congrArg Control.flagArr hsame
    rw [exec_handleJson_flagArr] at hflag
    split_ifs at hflag <;> simp at hflag
  · refine ⟨⟨2, 0, .finite 0, []⟩, fun hsame => ?_⟩
    have hflag := congrArg Control.flagArr hsame
    rw [exec_handleJson_flagArr, if_pos hstop] at hflag
    simp at hflag
  · refine ⟨⟨0, 0, .finite 0, []⟩, fun hsame => ?_⟩
    have hcalls := congrArg Control.stepCalls hsame
    rw [exec_handleJson_stepCalls, if_pos hstart] at hcalls
    simp at hcalls
  · refine ⟨⟨0, 0, .finite 0, []⟩, fun hsame => ?_⟩
    have hcalls := congrArg Control.stepCalls hsame
    rw [exec_handleJson_stepCalls, if_pos hstop] at hcalls
    simp at hcalls
  · obtain ⟨lt, hlt⟩ := Option.isSome_iff_exists.mp hlt
    obtain ⟨tmp, htmp⟩ := Option.isSome_iff_exists.mp htmp
    refine ⟨⟨0, lt.valueint + 1, .finite 0, []⟩, fun hsame => ?_⟩
    have hnew := congrArg Control.ltArr hsame
    rw [exec_handleJson_ltArr hlt htmp] at hnew
    simp at hnew

/-- A payload without NUL that begins no command does nothing, whatever follows. -/
theorem receive_eq_self {p : Bytes} (hp : 0 ∉ p) (h : ∀ text, IsCommand text → ¬ p <+: text)
    (s : Control) (r : Bytes) : s.receive (p ++ r) = s := by
  rw [receive_eq hp]
  cases hjson : cJSONParse (p ++ cString r) with
  | none => rfl
  | some json =>
    have hnot : ¬ HasCommand json := by
      intro hcommand
      have htext : IsCommand (p ++ cString r) := by
        refine ⟨?_, json, hjson, hcommand⟩
        simp only [List.mem_append, not_or]
        exact ⟨hp, cString_notMem r⟩
      exact h _ htext (List.prefix_append p _)
    simp only [handleJson_eq_nil hnot, List.foldl_nil]

/-- A payload that is a number by itself begins no command. -/
theorem not_command_of_number {p : Bytes} {x : Number} (h : cJSONParse p = some (.number x)) :
    ∀ text, IsCommand text → ¬ p <+: text := by
  rintro text ⟨-, json, hjson, hcommand⟩ ⟨q, rfl⟩
  obtain ⟨y, rfl⟩ := cJSONParse_append_number h q hjson
  exact not_hasCommand_number y hcommand

/-- The effect of a payload depends on nothing behind it exactly when the payload is no
truncated command. -/
theorem dependsOnPayloadOnly_iff (p : Bytes) :
    DependsOnPayloadOnly p ↔ ¬ TruncatedCommand p := by
  constructor
  · rintro h ⟨hp, hparse, _, ⟨hzero, json, hjson, hcommand⟩, q, rfl⟩
    have hq : 0 ∉ q := fun hmem => hzero (List.mem_append_right p hmem)
    obtain ⟨s, hs⟩ := exists_exec_ne hcommand
    have hsame := h s [0] (q ++ [0]) (by simp) (by simp)
    rw [receive_eq hp, receive_eq hp, cString_append_zero hq] at hsame
    have hnil : cString [0] = [] := rfl
    rw [hnil, List.append_nil, hparse, hjson] at hsame
    exact hs hsame.symm
  · intro h s r₁ r₂ _ _
    by_cases hp : 0 ∈ p
    · unfold Control.receive subTopicHandle1
      rw [cString_append_of_mem hp, cString_append_of_mem hp]
    cases hparse : cJSONParse p with
    | none =>
      have hnone : ∀ text, IsCommand text → ¬ p <+: text :=
        fun text htext hprefix => h ⟨hp, hparse, text, htext, hprefix⟩
      rw [receive_eq_self hp hnone, receive_eq_self hp hnone]
    | some v =>
      by_cases hnumber : ∃ x, v = .number x
      · obtain ⟨x, rfl⟩ := hnumber
        have hnone := not_command_of_number hparse
        rw [receive_eq_self hp hnone, receive_eq_self hp hnone]
      · have hv : ∀ x, v ≠ .number x := fun x hx => hnumber ⟨x, hx⟩
        rw [receive_eq hp, receive_eq hp, cJSONParse_append hparse hv,
          cJSONParse_append hparse hv]

/-- The message `{"msg":"stop"` that lacks its closing brace. -/
def truncatedStop : Bytes := literal "\x7b\"msg\":\"stop\""

/-- Automatic mode on, with the initial thresholds. -/
def automaticOn : Control := ⟨1, 6000, .finite 30, []⟩

/-- The truncated stop takes effect or not, depending on the byte behind it. -/
theorem dependsOnPayloadOnly_truncated_fails : ¬ DependsOnPayloadOnly truncatedStop := by
  intro h
  have hsame := congrArg Control.flagArr
    (h automaticOn [0] [ascii '}', 0] (by decide) (by decide))
  have hunchanged : (automaticOn.receive (truncatedStop ++ [0])).flagArr = 1 := by
    decide +kernel
  have hstopped : (automaticOn.receive (truncatedStop ++ [ascii '}', 0])).flagArr = 0 := by
    decide +kernel
  rw [hunchanged, hstopped] at hsame
  cases hsame

end Saliwen.Remote
