import Saliwen.Remote.StopHolds

/-!
# Late starts undo a remote stop

A starting write of the main loop after a stop message's write to the same output is not
repaired by anyone before the message is completely handled. The interleavings without late
starts are therefore exactly those in which a remote stop is final.
-/

namespace Saliwen.Remote

open CJson

/-- What both threads have still to do, whatever happened before: the main loop the end of a
`turn` call, and a stop message's run either all of its writes or none to `flag_arr`. -/
structure Shape (s : State) : Prop where
  turning : ∀ writes, s.main = .turn writes → ∃ a, writes <:+ Saliwen.turn a
  stopping : s.stopping = true → s.pending ≠ [] ∧
    (.flagArr 0 ∉ s.pending ∨
      ∃ tail, s.pending = .flagArr 0 :: tail ∧ .flagArr 0 ∉ tail ∧
        .motor (.pwm false) ∈ tail ∧ .motor (.en .high) ∈ tail)

/-- The shape of the two threads at the start. -/
theorem Shape.start (flagArr ltArr : ℤ) (tmpArr : Number) (board : Board) :
    Shape (State.start flagArr ltArr tmpArr board) := by
  constructor
  · intro writes h
    cases h
  · intro h
    cases h

/-- The main loop enters `turn` at its first write and leaves it after the last. -/
theorem turning_mainStep {s : State}
    (h : ∀ writes, s.main = .turn writes → ∃ a, writes <:+ Saliwen.turn a) :
    ∀ writes, (mainStep s).main = .turn writes → ∃ a, writes <:+ Saliwen.turn a := by
  unfold mainStep
  intro writes hmain
  split at hmain
  · exact h writes hmain
  · dsimp only at hmain
    split at hmain <;> cases hmain
  · cases hmain
  · cases hmain
  · cases hmain
    exact ⟨_, List.suffix_rfl⟩
  · cases hmain
  · rename_i op ws hturn
    cases hmain
    obtain ⟨a, hsuffix⟩ := h _ hturn
    exact ⟨a, (List.suffix_cons op writes).trans hsuffix⟩

/-- A step of the main loop leaves the handler as it is. -/
theorem mainStep_handler (s : State) :
    (mainStep s).pending = s.pending ∧ (mainStep s).stopping = s.stopping ∧
      (mainStep s).stopped = s.stopped ∧ (mainStep s).flagArr = s.flagArr := by
  unfold mainStep
  split <;> exact ⟨rfl, rfl, rfl, rfl⟩

/-- Every step keeps the shape of the two threads. -/
theorem Shape.step {s : State} (h : Shape s) (a : Label) : Shape (step s a) := by
  cases a with
  | sample tmp lt =>
    simp only [Remote.step]
    split
    · refine ⟨?_, h.stopping⟩
      intro writes hmain
      cases hmain
    · exact h
  | main =>
    obtain ⟨hpending, hstopping, -, -⟩ := mainStep_handler s
    refine ⟨turning_mainStep h.turning, ?_⟩
    simp only [Remote.step]
    rw [hpending, hstopping]
    exact h.stopping
  | receive buf =>
    by_cases hidle : s.pending = []
    · simp only [Remote.step, hidle, if_true]
      refine ⟨h.turning, ?_⟩
      intro hstop
      obtain ⟨tail, hwrites, hrest⟩ := handlerWrites_of_isStop hstop
      dsimp only
      rw [hwrites]
      exact ⟨by simp, Or.inr ⟨tail, rfl, hrest⟩⟩
    · simpa only [Remote.step, if_neg hidle] using h
  | handler =>
    cases hpending : s.pending with
    | nil => simpa only [Remote.step, Remote.handlerStep, hpending] using h
    | cons op rest =>
      simp only [Remote.step, Remote.handlerStep, hpending]
      constructor
      · intro writes hmain
        apply h.turning writes
        cases op <;> exact hmain
      · intro hstopping
        have hrest : rest ≠ [] := by
          rintro rfl
          simp at hstopping
        have hold : s.stopping = true := by simpa [hrest] using hstopping
        refine ⟨hrest, Or.inl ?_⟩
        obtain ⟨-, hnot | ⟨tail, htail, hnot, -⟩⟩ := h.stopping hold
        · rw [hpending] at hnot
          exact fun hmem => hnot (List.mem_cons_of_mem op hmem)
        · rw [hpending] at htail
          cases htail
          exact hnot

/-- The main loop will not repeat the given write before its next test of `flag_arr`. -/
def MainPc.Spares (w : MotorOp) : MainPc → Prop
  | .idle | .test _ _ => True
  | .turn writes => .motor w ∉ writes
  | _ => False

/-- A stop message's write to the motor was undone, and nobody will repair it before the
message is completely handled. -/
structure Undone (s : State) (w : MotorOp) : Prop where
  stop : w = .en .high ∨ w = .pwm false
  undone : ¬ MotorOp.Holds s.board.motor w
  written : s.StopWritten (.motor w)
  flag : s.flagArr = 0
  main : s.main.Spares w
  pending : s.stopping = true → s.pending ≠ [] ∧ ∀ op ∈ s.pending, op.Harmless

/-- An undone write stays undone under every other operation. -/
theorem not_holds_exec {m : Motor} {w op : MotorOp} (hw : w = .en .high ∨ w = .pwm false)
    (hne : op ≠ w) (h : ¬ MotorOp.Holds m w) : ¬ MotorOp.Holds (m.exec op) w := by
  rcases hw with rfl | rfl
  · cases op with
    | en l =>
      intro hl
      have hhigh : l = .high := hl
      exact hne (by rw [hhigh])
    | _ => exact h
  · cases op with
    | pwm on =>
      intro hon
      have hoff : on = false := hon
      exact hne (by rw [hoff])
    | _ => exact h

/-- The motor after an operation of the main loop that is not the given one. -/
theorem not_holds_board_exec {b : Board} {w : MotorOp} {op : HwOp}
    (hw : w = .en .high ∨ w = .pwm false) (hne : op ≠ .motor w)
    (h : ¬ MotorOp.Holds b.motor w) : ¬ MotorOp.Holds (b.exec op).motor w := by
  cases op with
  | motor op => exact not_holds_exec hw (fun heq => hne (by rw [heq])) h
  | _ => exact h

/-- A stop that was undone does not hold. -/
theorem Undone.not_stopHolds {s : State} {w : MotorOp} (h : Undone s w)
    (hstopped : s.stopped = true) : ¬ StopHolds s := by
  intro hholds
  obtain ⟨-, hen, hpwm⟩ := hholds hstopped
  apply h.undone
  rcases h.stop with rfl | rfl
  · exact hen
  · exact hpwm

/-- The main loop does not repair an undone write. -/
theorem Undone.mainStep {s : State} {w : MotorOp} (h : Undone s w) : Undone (mainStep s) w := by
  obtain ⟨hstop, hundone, hwritten, hflag, hmain, hpending⟩ := h
  unfold Remote.mainStep
  split
  · exact ⟨hstop, hundone, hwritten, hflag, hmain, hpending⟩
  · refine ⟨hstop, hundone, hwritten, hflag, ?_, hpending⟩
    simp [hflag, MainPc.Spares]
  · rename_i hpc
    rw [hpc] at hmain
    cases hmain
  · rename_i hpc
    rw [hpc] at hmain
    cases hmain
  · rename_i hpc
    rw [hpc] at hmain
    cases hmain
  · exact ⟨hstop, hundone, hwritten, hflag, trivial, hpending⟩
  · rename_i op writes hpc
    rw [hpc] at hmain
    have hne : op ≠ .motor w := by
      rintro rfl
      exact hmain List.mem_cons_self
    exact ⟨hstop, not_holds_board_exec hstop hne hundone, hwritten, hflag,
      fun hmem => hmain (List.mem_cons_of_mem op hmem), hpending⟩

/-- Neither does the rest of the run that handles the stop message. -/
theorem Undone.handlerStep {s : State} {w : MotorOp} (h : Undone s w)
    (hforce : s.stopped = false) : Undone (handlerStep s) w := by
  obtain ⟨hstop, hundone, hwritten, hflag, hmain, hpending⟩ := h
  obtain ⟨hstopping, hnot⟩ : s.stopping = true ∧ .motor w ∉ s.pending := by
    rcases hwritten with hstopped | hwritten
    · rw [hforce] at hstopped
      cases hstopped
    · exact hwritten
  obtain ⟨hne, hharmless⟩ := hpending hstopping
  obtain ⟨op, rest, hcons⟩ := List.exists_cons_of_ne_nil hne
  rw [hcons] at hnot hharmless
  have hop : op ≠ .motor w := by
    rintro rfl
    exact hnot List.mem_cons_self
  have hundone' : ¬ MotorOp.Holds (s.exec op).board.motor w := by
    cases op with
    | motor op => exact not_holds_exec hstop (fun heq => hop (by rw [heq])) hundone
    | _ => exact hundone
  have hflag' : (s.exec op).flagArr = 0 := by
    cases op with
    | flagArr v => exact hharmless _ List.mem_cons_self
    | _ => exact hflag
  have hmain' : (s.exec op).main = s.main := by cases op <;> rfl
  unfold Remote.handlerStep
  rw [hcons]
  refine ⟨hstop, hundone', ?_, hflag', ?_, ?_⟩
  · by_cases hrest : rest = []
    · left
      simp [hrest, hstopping]
    · right
      simp only [hrest, if_false]
      exact ⟨hstopping, fun hmem => hnot (List.mem_cons_of_mem op hmem)⟩
  · dsimp only
    rw [hmain']
    exact hmain
  · intro hlast
    refine ⟨?_, fun op' hop' => hharmless op' (List.mem_cons_of_mem op hop')⟩
    rintro rfl
    simp at hlast

/-- Until the stop message is completely handled, no step repairs an undone write. -/
theorem Undone.step {s : State} {w : MotorOp} (h : Undone s w) (hforce : s.stopped = false)
    (a : Label) : Undone (step s a) w := by
  cases a with
  | sample tmp lt =>
    simp only [Remote.step]
    split
    · exact ⟨h.stop, h.undone, h.written, h.flag, trivial, h.pending⟩
    · exact h
  | main => exact h.mainStep
  | receive buf =>
    have hne : s.pending ≠ [] := by
      rcases h.written with hstopped | ⟨hstopping, -⟩
      · rw [hforce] at hstopped
        cases hstopped
      · exact (h.pending hstopping).1
    simpa only [Remote.step, if_neg hne] using h
  | handler => exact h.handlerStep hforce

/-- Completing the stop message exposes the undone write. -/
theorem Undone.exposed {s : State} {w : MotorOp} (h : Undone s w) :
    ∃ n, ¬ Run.Always Remote.step StopHolds s (List.replicate n .handler) := by
  generalize hlength : s.pending.length = k
  induction k generalizing s with
  | zero =>
    refine ⟨0, fun hall => ?_⟩
    have hstopped : s.stopped = true := by
      rcases h.written with hstopped | ⟨hstopping, -⟩
      · exact hstopped
      · exact absurd (List.length_eq_zero_iff.mp hlength) (h.pending hstopping).1
    exact h.not_stopHolds hstopped (Run.always_nil.mp hall)
  | succ k ih =>
    cases hforce : s.stopped with
    | true => exact ⟨0, fun hall => h.not_stopHolds hforce (Run.always_nil.mp hall)⟩
    | false =>
      have hnext : (Remote.handlerStep s).pending.length = k := by
        obtain ⟨op, rest, hcons⟩ := List.exists_cons_of_length_eq_add_one hlength
        rw [hcons, List.length_cons] at hlength
        simp only [Remote.handlerStep, hcons]
        omega
      obtain ⟨n, hn⟩ := ih (h.handlerStep hforce) hnext
      refine ⟨n + 1, fun hall => hn ?_⟩
      rw [List.replicate_succ] at hall
      exact (Run.always_cons.mp hall).2

/-- An undone write is exposed after every schedule, once the handler run then in progress is
completed. -/
theorem Undone.exposed_after {s : State} {w : MotorOp} (h : Undone s w) (l : List Label) :
    ∃ n, ¬ Run.Always Remote.step StopHolds s (l ++ List.replicate n .handler) := by
  induction l generalizing s with
  | nil => exact h.exposed
  | cons a l ih =>
    cases hforce : s.stopped with
    | true =>
      refine ⟨0, fun hall => h.not_stopHolds hforce ?_⟩
      exact (Run.always_cons.mp hall).1
    | false =>
      obtain ⟨n, hn⟩ := ih (h.step hforce a)
      exact ⟨n, fun hall => hn (Run.always_cons.mp hall).2⟩

/-- Behind a starting write of `turn(1)` there is no stopping write. -/
theorem turn_after_start {a : ℤ} {op : MotorOp} {writes : List HwOp}
    (hop : op = .en .low ∨ op = .pwm true) (h : .motor op :: writes <:+ Saliwen.turn a)
    {w : MotorOp} (hw : w = .en .high ∨ w = .pwm false) : .motor w ∉ writes := by
  unfold Saliwen.turn at h
  split at h
  · rcases hop with rfl | rfl
    · obtain rfl : writes = [.motor (.pwm true)] := by
        simpa [writeLeds, drvStepMotorCtrl, List.suffix_cons_iff] using h
      rcases hw with rfl | rfl <;> decide
    · obtain rfl : writes = [] := by
        simpa [writeLeds, drvStepMotorCtrl, List.suffix_cons_iff] using h
      simp
  · rcases hop with rfl | rfl
    · simp [writeLeds, drvStepMotorCtrl, List.suffix_cons_iff] at h
    · simp [writeLeds, drvStepMotorCtrl, List.suffix_cons_iff] at h

/-- A starting write after a stop message's write to the same output undoes it. -/
theorem undone_of_late_start {s : State} (hinv : Inv s) (hshape : Shape s) {op w : MotorOp}
    {writes : List HwOp} (hop : op = .en .low ∨ op = .pwm true)
    (hw : w = .en .high ∨ w = .pwm false) (hundoes : ∀ m : Motor, ¬ MotorOp.Holds (m.exec op) w)
    (hmain : s.main = .turn (.motor op :: writes)) (hwritten : s.StopWritten (.motor w)) :
    Undone (step s .main) w := by
  have hflag : s.StopWritten (.flagArr 0) := by
    rcases hwritten with hstopped | ⟨hstopping, hnot⟩
    · exact Or.inl hstopped
    · refine Or.inr ⟨hstopping, ?_⟩
      obtain ⟨-, hdone | ⟨tail, htail, -, hpwm, hen⟩⟩ := hshape.stopping hstopping
      · exact hdone
      · rw [htail] at hnot
        rcases hw with rfl | rfl
        · exact absurd (List.mem_cons_of_mem _ hen) hnot
        · exact absurd (List.mem_cons_of_mem _ hpwm) hnot
  obtain ⟨a, hsuffix⟩ := hshape.turning _ hmain
  simp only [Remote.step, Remote.mainStep, hmain]
  exact ⟨hw, hundoes _, hwritten, hinv.written (.flagArr 0) (by decide) hflag,
    turn_after_start hop hsuffix hw,
    fun hstopping => ⟨(hshape.stopping hstopping).1, hinv.harmless (Or.inr hstopping)⟩⟩

/-- From any state with the invariants, schedules that keep every stop in force, also while
the handler run in progress at their end is completed, contain no late start. -/
theorem eachStep_noLateStart {s : State} (hinv : Inv s) (hshape : Shape s) {l : List Label}
    (h : ∀ n, Run.Always step StopHolds s (l ++ List.replicate n .handler)) :
    Run.EachStep step NoLateStart s l := by
  induction l generalizing s with
  | nil => exact Run.eachStep_nil
  | cons a l ih =>
    have htail : ∀ n, Run.Always step StopHolds (step s a) (l ++ List.replicate n .handler) :=
      fun n => (Run.always_cons.mp (h n)).2
    have hlate : NoLateStart s a := by
      rintro rfl writes
      constructor
      · intro hmain hwritten
        obtain ⟨n, hn⟩ := (undone_of_late_start hinv hshape (Or.inl rfl) (Or.inl rfl)
          (fun _ hl => by cases hl) hmain hwritten).exposed_after l
        exact hn (htail n)
      · intro hmain hwritten
        obtain ⟨n, hn⟩ := (undone_of_late_start hinv hshape (Or.inr rfl) (Or.inr rfl)
          (fun _ hl => by cases hl) hmain hwritten).exposed_after l
        exact hn (htail n)
    exact Run.eachStep_cons.mpr ⟨hlate, ih (hinv.step hlate) (hshape.step a) htail⟩

/-- In every interleaving of the automatic-mode block with handler runs, a completely handled
stop stays in force until the next start message, also while the run in progress at the end
is completed, exactly when the main loop never makes a starting write after a stop message's
write to the same output. -/
theorem stop_final_iff (flagArr ltArr : ℤ) (tmpArr : Number) (board : Board) (l : List Label) :
    (∀ n, Run.Always step StopHolds (State.start flagArr ltArr tmpArr board)
      (l ++ List.replicate n .handler)) ↔
      Run.EachStep step NoLateStart (State.start flagArr ltArr tmpArr board) l := by
  constructor
  · exact eachStep_noLateStart (Inv.start flagArr ltArr tmpArr board)
      (Shape.start flagArr ltArr tmpArr board)
  · intro h n
    refine Run.always_of_eachStep (I := Inv) (fun _ hs => hs.stopHolds)
      (fun _ _ hs ha => hs.step ha) (Inv.start flagArr ltArr tmpArr board)
      (Run.eachStep_append h ?_)
    intro a ha t
    obtain rfl := List.eq_of_mem_replicate ha
    exact noLateStart_handler t

/-- The main loop passes its test in automatic mode and comes to `turn(1)`; a stop message
is handled completely; the main loop goes on to the EN write. -/
def lateStart : List Label :=
  [.sample 20 0, .main, .main, .main, .main,
    .receive (literal "\x7b\"msg\":\"stop\",\"step\":\"stop\"\x7d" ++ [0]),
    .handler, .handler, .handler, .main, .main, .main, .main, .main, .main]

/-- Automatic mode on with the initial thresholds, and the motor running. -/
def automaticStart : State :=
  State.start 1 6000 (.finite 30) ⟨fun _ => .high, .low, ⟨.low, .low, true⟩⟩

/-- The stop is in force and the motor driver is enabled. -/
theorem stop_final_late_start_fails : ¬ Run.Always step StopHolds automaticStart lateStart := by
  intro h
  have hlast := h lateStart List.prefix_rfl
  have hstopped : (Run.after step automaticStart lateStart).stopped = true := by decide +kernel
  have hen : (Run.after step automaticStart lateStart).board.motor.en = .low := by
    decide +kernel
  have hhigh := (hlast hstopped).2.1
  rw [hen] at hhigh
  cases hhigh

end Saliwen.Remote
