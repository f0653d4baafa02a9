import Saliwen.Remote.Automatic

/-!
# What keeps a remote stop in force

A stop message clears `flag_arr` and stops the motor, and is meant to stay in force until
the next start message. The main loop tests `flag_arr` once and may still start the motor
afterwards. Without such late starts, everything a stop message wrote stays as written.
-/

namespace Saliwen.Remote

open CJson

/-- While a stop is in force, automatic mode is off and the motor is stopped. -/
def StopHolds (s : State) : Prop :=
  s.stopped = true → s.flagArr = 0 ∧ s.board.motor.en = .high ∧ s.board.motor.pwm = false

/-- The handler has made the given write of a stop message, and no start message has come
since: the stop is in force, or its run is in progress and the write is no longer pending. -/
def State.StopWritten (s : State) (w : HandlerOp) : Prop :=
  s.stopped = true ∨ (s.stopping = true ∧ w ∉ s.pending)

/-- The main loop does not make a starting write of `turn(1)` after a stop message's write to
the same output. -/
def NoLateStart (s : State) (a : Label) : Prop :=
  a = .main → ∀ writes,
    (s.main = .turn (.motor (.en .low) :: writes) → ¬ s.StopWritten (.motor (.en .high))) ∧
      (s.main = .turn (.motor (.pwm true) :: writes) → ¬ s.StopWritten (.motor (.pwm false)))

/-- The three writes of a stop message. -/
def stopWrites : List HandlerOp := [.flagArr 0, .motor (.pwm false), .motor (.en .high)]

/-- The output that an operation sets still has the value written. -/
def MotorOp.Holds (m : Motor) : MotorOp → Prop
  | .en l => m.en = l
  | .dir l => m.dir = l
  | .pwm on => m.pwm = on

/-- The variable or output that a write sets still has the value written. -/
def HandlerOp.Holds (s : State) : HandlerOp → Prop
  | .flagArr v => s.flagArr = v
  | .motor op => MotorOp.Holds s.board.motor op
  | .ltArr v => s.ltArr = v
  | .tmpArr v => s.tmpArr = v

/-- The write starts neither automatic mode nor the motor. -/
def HandlerOp.Harmless : HandlerOp → Prop
  | .flagArr v => v = 0
  | .motor (.en l) => l = .high
  | .motor (.pwm on) => on = false
  | _ => True

/-- What a write sets holds right after it. -/
theorem holds_exec_self (s : State) (w : HandlerOp) : w.Holds (s.exec w) := by
  cases w with
  | motor op => cases op <;> rfl
  | _ => rfl

/-- A harmless write keeps what a stop message wrote. -/
theorem holds_exec {s : State} {w op : HandlerOp} (hw : w ∈ stopWrites) (hop : op.Harmless)
    (h : w.Holds s) : w.Holds (s.exec op) := by
  simp only [stopWrites, List.mem_cons, List.not_mem_nil, or_false] at hw
  rcases hw with rfl | rfl | rfl
  · cases op with
    | flagArr v => exact hop
    | _ => exact h
  · cases op with
    | motor op =>
      cases op with
      | pwm on => exact hop
      | _ => exact h
    | _ => exact h
  · cases op with
    | motor op =>
      cases op with
      | en l => exact hop
      | _ => exact h
    | _ => exact h

/-- The writes of a message are those of its actions. -/
theorem mem_handlerWrites {buf : Bytes} {op : HandlerOp} :
    op ∈ handlerWrites buf ↔
      ∃ json, cJSONParse (cString buf) = some json ∧ ∃ a ∈ handleJson json, op ∈ a.writes := by
  unfold handlerWrites subTopicHandle1
  cases cJSONParse (cString buf) with
  | none => simp
  | some json => simp

/-- A message without a start makes only harmless writes. -/
theorem handlerWrites_harmless {buf : Bytes} (h : isStart buf = false) :
    ∀ op ∈ handlerWrites buf, op.Harmless := by
  intro op hop
  obtain ⟨json, hjson, a, ha, hop⟩ := mem_handlerWrites.mp hop
  simp only [isStart, hjson, Option.any_some, Bool.or_eq_false_iff] at h
  rcases mem_handleJson.mp ha with ⟨rfl, hstart⟩ | ⟨rfl, -⟩ | ⟨rfl, -⟩ | ⟨rfl, hstart⟩ |
    ⟨lt, tmp, -, -, rfl | rfl⟩
  · rw [h.1] at hstart
    cases hstart
  · obtain rfl : op = .flagArr 0 := by simpa [Action.writes] using hop
    rfl
  · have hcases : op = .motor (.pwm false) ∨ op = .motor (.en .high) := by
      simpa [Action.writes, drvStepMotorCtrl] using hop
    rcases hcases with rfl | rfl
    · rfl
    · rfl
  · rw [h.2] at hstart
    cases hstart
  · obtain rfl : op = .ltArr lt.valueint := by simpa [Action.writes] using hop
    trivial
  · obtain rfl : op = .tmpArr tmp.toFloat := by simpa [Action.writes] using hop
    trivial

/-- A stop message is no start message. -/
theorem isStart_of_isStop {buf : Bytes} (h : isStop buf = true) : isStart buf = false := by
  unfold isStop at h
  unfold isStart
  cases hjson : cJSONParse (cString buf) with
  | none => rfl
  | some json =>
    simp only [hjson, Option.any_some, Bool.and_eq_true] at h
    simp only [Option.any_some, Bool.or_eq_false_iff]
    exact ⟨isStringEq_start_of_stop h.1, isStringEq_start_of_stop h.2⟩

/-- The writes of a stop message: `flag_arr` first and once, then the motor. -/
theorem handlerWrites_of_isStop {buf : Bytes} (h : isStop buf = true) :
    ∃ tail, handlerWrites buf = .flagArr 0 :: tail ∧ .flagArr 0 ∉ tail ∧
      .motor (.pwm false) ∈ tail ∧ .motor (.en .high) ∈ tail := by
  unfold isStop at h
  unfold handlerWrites subTopicHandle1
  cases hjson : cJSONParse (cString buf) with
  | none => simp [hjson] at h
  | some json =>
    simp only [hjson, Option.any_some, Bool.and_eq_true] at h
    have hmsg := isStringEq_start_of_stop h.1
    have hstep := isStringEq_start_of_stop h.2
    simp only [handleJson, hmsg, hstep, h.1, h.2]
    cases numberOf (json.getObjectItem "lt") with
    | none => simp [Action.writes, drvStepMotorCtrl]
    | some lt =>
      cases numberOf (json.getObjectItem "tmp") with
      | none => simp [Action.writes, drvStepMotorCtrl]
      | some tmp => simp [Action.writes, drvStepMotorCtrl]

/-- A stop message makes all three stopping writes. -/
theorem mem_handlerWrites_of_isStop {buf : Bytes} (h : isStop buf = true) {w : HandlerOp}
    (hw : w ∈ stopWrites) : w ∈ handlerWrites buf := by
  obtain ⟨tail, hwrites, -, hpwm, hen⟩ := handlerWrites_of_isStop h
  rw [hwrites]
  simp only [stopWrites, List.mem_cons, List.not_mem_nil, or_false] at hw
  rcases hw with rfl | rfl | rfl
  · exact List.mem_cons_self
  · exact List.mem_cons_of_mem _ hpwm
  · exact List.mem_cons_of_mem _ hen

/-- What a stop message wrote still holds, and while it does the handler has nothing but
harmless writes to make. -/
structure Inv (s : State) : Prop where
  written : ∀ w ∈ stopWrites, s.StopWritten w → w.Holds s
  harmless : s.stopped = true ∨ s.stopping = true → ∀ op ∈ s.pending, op.Harmless

/-- The invariant says that the stop holds. -/
theorem Inv.stopHolds {s : State} (h : Inv s) : StopHolds s := by
  intro hstopped
  have hall : ∀ w ∈ stopWrites, w.Holds s := fun w hw => h.written w hw (Or.inl hstopped)
  exact ⟨hall (.flagArr 0) (by decide), hall (.motor (.en .high)) (by decide),
    hall (.motor (.pwm false)) (by decide)⟩

/-- A step of the main loop keeps the invariant if it keeps what a stop message wrote to the
motor. -/
theorem Inv.update {s : State} (h : Inv s) (main : MainPc) (board : Board)
    (hen : s.StopWritten (.motor (.en .high)) → s.board.motor.en = .high →
      board.motor.en = .high)
    (hpwm : s.StopWritten (.motor (.pwm false)) → s.board.motor.pwm = false →
      board.motor.pwm = false) : Inv { s with main := main, board := board } := by
  refine ⟨?_, h.harmless⟩
  intro w hw hwritten
  have hholds := h.written w hw hwritten
  simp only [stopWrites, List.mem_cons, List.not_mem_nil, or_false] at hw
  rcases hw with rfl | rfl | rfl
  · exact hholds
  · exact hpwm hwritten hholds
  · exact hen hwritten hholds

/-- A step of the main loop that does not touch the motor keeps the invariant. -/
theorem Inv.update_of_motor_eq {s : State} (h : Inv s) (main : MainPc) (board : Board)
    (hmotor : board.motor = s.board.motor) : Inv { s with main := main, board := board } := by
  apply h.update
  · intro _ hen
    rw [hmotor]
    exact hen
  · intro _ hpwm
    rw [hmotor]
    exact hpwm

/-- The main loop keeps the invariant as long as it makes no late start. -/
theorem Inv.mainStep {s : State} (h : Inv s) (hlate : NoLateStart s .main) :
    Inv (mainStep s) := by
  unfold Remote.mainStep
  split
  case h_1 => exact h
  case h_7 op writes hmain =>
    obtain ⟨hen, hpwm⟩ := hlate rfl writes
    cases op with
    | led i l => exact h.update_of_motor_eq _ _ rfl
    | fan l => exact h.update_of_motor_eq _ _ rfl
    | motor op =>
      cases op with
      | dir l => exact h.update _ _ (fun _ => id) (fun _ => id)
      | en l =>
        refine h.update _ _ (fun hwritten _ => ?_) (fun _ => id)
        cases l with
        | low => exact absurd hwritten (hen hmain)
        | high => rfl
      | pwm on =>
        refine h.update _ _ (fun _ => id) (fun hwritten _ => ?_)
        cases on with
        | true => exact absurd hwritten (hpwm hmain)
        | false => rfl
  -- Before the block, in its comparisons and in `fan` the motor is not touched.
  all_goals exact h.update_of_motor_eq _ _ rfl

/-- After a write of the handler, what counts as written is that write or was written
before. -/
theorem stopWritten_handlerStep {s : State} {op : HandlerOp} {rest : List HandlerOp}
    (hpending : s.pending = op :: rest) {w : HandlerOp}
    (h : (handlerStep s).StopWritten w) :
    (s.stopped = true ∨ s.stopping = true) ∧ (w = op ∨ s.StopWritten w) := by
  unfold State.StopWritten handlerStep at h
  rw [hpending] at h
  by_cases hrest : rest = []
  · simp only [hrest, if_true, Bool.or_eq_true, Bool.false_eq_true, false_and, or_false] at h
    refine ⟨h, ?_⟩
    by_cases hw : w = op
    · exact Or.inl hw
    · right
      rcases h with hstopped | hstopping
      · exact Or.inl hstopped
      · exact Or.inr ⟨hstopping, by simp [hpending, hrest, hw]⟩
  · simp only [hrest, if_false] at h
    rcases h with hstopped | ⟨hstopping, hnot⟩
    · exact ⟨Or.inl hstopped, Or.inr (Or.inl hstopped)⟩
    · refine ⟨Or.inr hstopping, ?_⟩
      by_cases hw : w = op
      · exact Or.inl hw
      · exact Or.inr (Or.inr ⟨hstopping, by simp [hpending, hnot, hw]⟩)

/-- The bookkeeping of the handler does not touch what its writes set. -/
theorem holds_handlerStep {s : State} {op : HandlerOp} {rest : List HandlerOp}
    (hpending : s.pending = op :: rest) {w : HandlerOp} (h : w.Holds (s.exec op)) :
    w.Holds (handlerStep s) := by
  unfold handlerStep
  rw [hpending]
  cases w <;> exact h

/-- Every write of the handler keeps the invariant. -/
theorem Inv.handlerStep {s : State} (h : Inv s) : Inv (handlerStep s) := by
  cases hpending : s.pending with
  | nil => simpa only [Remote.handlerStep, hpending] using h
  | cons op rest =>
    constructor
    · intro w hw hwritten
      obtain ⟨hforce, hold⟩ := stopWritten_handlerStep hpending hwritten
      apply holds_handlerStep hpending
      rcases hold with rfl | hold
      · exact holds_exec_self s w
      · exact holds_exec hw (h.harmless hforce op (by simp [hpending])) (h.written w hw hold)
    · intro hforce op' hop'
      have hmem : op' ∈ s.pending := by
        simp only [Remote.handlerStep, hpending] at hop'
        simp [hpending, hop']
      apply h.harmless ?_ op' hmem
      simp only [Remote.handlerStep, hpending] at hforce
      by_cases hrest : rest = []
      · simpa [hrest] using hforce
      · simpa [hrest] using hforce

/-- Beginning to handle a message keeps the invariant: a stop message has all its writes
before it, and a message that leaves a stop in force has only harmless ones. -/
theorem Inv.receive {s : State} (h : Inv s) (hidle : s.pending = []) (buf : Bytes) :
    Inv (step s (.receive buf)) := by
  simp only [step, hidle, if_true]
  constructor
  · intro w hw hwritten
    rcases hwritten with hstopped | ⟨hstopping, hnot⟩
    · have hstopped' : s.stopped = true := by
        simp only [Bool.and_eq_true] at hstopped
        exact hstopped.1
      have hholds := h.written w hw (Or.inl hstopped')
      cases w <;> exact hholds
    · exact absurd (mem_handlerWrites_of_isStop hstopping hw) hnot
  · rintro (hstopped | hstopping)
    · apply handlerWrites_harmless
      simp only [Bool.and_eq_true, Bool.not_eq_true'] at hstopped
      exact hstopped.2
    · exact handlerWrites_harmless (isStart_of_isStop hstopping)

/-- Every step without a late start keeps the invariant. -/
theorem Inv.step {s : State} {a : Label} (h : Inv s) (hlate : NoLateStart s a) :
    Inv (step s a) := by
  cases a with
  | sample tmp lt =>
    simp only [Remote.step]
    split
    · exact h.update_of_motor_eq _ _ rfl
    · exact h
  | main => exact h.mainStep hlate
  | receive buf =>
    by_cases hidle : s.pending = []
    · exact h.receive hidle buf
    · simpa only [Remote.step, if_neg hidle] using h
  | handler => exact h.handlerStep

/-- The invariant at the start. -/
theorem Inv.start (flagArr ltArr : ℤ) (tmpArr : Number) (board : Board) :
    Inv (State.start flagArr ltArr tmpArr board) := by
  constructor
  · rintro w _ (hstopped | ⟨hstopping, -⟩)
    · cases hstopped
    · cases hstopping
  · rintro (hstopped | hstopping)
    · cases hstopped
    · cases hstopping

/-- The handler makes no late starts. -/
theorem noLateStart_handler (s : State) : NoLateStart s .handler := by
  intro h
  cases h

end Saliwen.Remote
