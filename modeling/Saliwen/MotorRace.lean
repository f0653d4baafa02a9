import Saliwen.Board
import Saliwen.Lib.Interleave

/-!
# Two contexts driving the step motor

The main thread reaches `drv_stepMotor_ctrl` at start-up and through `turn`, the MQTT
client thread through the command handler. Starting and stopping write the EN pin and
the PWM channel in opposite orders and without a lock, so calls may interleave between
any two hardware operations.
-/

namespace Saliwen

open Interleave

/-- The contexts that call `drv_stepMotor_ctrl`. -/
inductive Context where
  | mainThread
  | mqttThread
  deriving DecidableEq, Repr

/-- Running (EN low, PWM enabled) or stopped (EN high, PWM disabled). -/
def Motor.Consistent (m : Motor) : Prop :=
  (m.en = .low ∧ m.pwm = true) ∨ (m.en = .high ∧ m.pwm = false)

/-- Interleavings of `drv_stepMotor_ctrl` calls at the level of hardware operations. -/
abbrev motorStep : Sys Context MotorOp Motor → Label Context ℤ → Sys Context MotorOp Motor :=
  step Motor.exec drvStepMotorCtrl

/-- The begins, operations and ends of the `drv_stepMotor_ctrl` calls of a schedule. -/
abbrev motorEvents (m : Motor) (l : List (Label Context ℤ)) : List (Event Context ℤ) :=
  eventsOf Motor.exec drvStepMotorCtrl m l

/-- Two calls, of which one stops the motor and the other starts it, end directly one after the
other: nothing is executed and no call is begun between their last operations. -/
def OppositeEnds (es : List (Event Context ℤ)) : Prop :=
  ∃ pre c c' dir dir' post, es = pre ++ .ends c :: .ends c' :: post ∧
    lastArg pre c = some dir ∧ lastArg pre c' = some dir' ∧ ¬ (dir = 0 ↔ dir' = 0)

/-! ### Operations -/

/-- The last operation of `drv_stepMotor_ctrl(dir)`: the EN write of a stop, the PWM enable of
a start. -/
def lastOp (dir : ℤ) : MotorOp := if dir = 0 then .en .high else .pwm true

/-- The output that a call switched first still has the value it wrote when the call executes
its last operation: EN is low at the PWM enable of a start, PWM is disabled at the EN write of
a stop. -/
def Motor.Undisturbed (m : Motor) : MotorOp → Prop
  | .en _ => m.pwm = false
  | .dir _ => True
  | .pwm _ => m.en = .low

/-- Every call consists of at least two operations. -/
theorem two_le_length_drvStepMotorCtrl (dir : ℤ) : 2 ≤ (drvStepMotorCtrl dir).length := by
  unfold drvStepMotorCtrl
  split <;> simp

/-- A call that has one operation left is before its last one. -/
theorem eq_lastOp {dir : ℤ} {op : MotorOp} (h : [op] <:+ drvStepMotorCtrl dir) :
    op = lastOp dir := by
  by_cases hdir : dir = 0
  · rw [drvStepMotorCtrl, if_pos hdir] at h
    rw [lastOp, if_pos hdir]
    simpa [List.suffix_cons_iff] using h
  · rw [drvStepMotorCtrl, if_neg hdir] at h
    rw [lastOp, if_neg hdir]
    simpa [List.suffix_cons_iff] using h

/-- The operation before the last one switches the other output. -/
theorem undisturbed_exec_of_suffix {m : Motor} {dir : ℤ} {op op' : MotorOp}
    (h : [op, op'] <:+ drvStepMotorCtrl dir) : (m.exec op).Undisturbed op' := by
  unfold drvStepMotorCtrl at h
  split at h
  · have hops : op = .pwm false ∧ op' = .en .high := by simpa [List.suffix_cons_iff] using h
    rw [hops.1, hops.2]
    rfl
  · have hops : op = .en .low ∧ op' = .pwm true := by simpa [List.suffix_cons_iff] using h
    rw [hops.1, hops.2]
    rfl

/-- The last operation of a call switches away what an opposite call has written, and leaves
alone what a call of its own kind has written. -/
theorem undisturbed_exec_lastOp {m : Motor} {dir dir' : ℤ}
    (h : (dir = 0 ↔ dir' = 0) → m.Undisturbed (lastOp dir')) :
    (m.exec (lastOp dir)).Undisturbed (lastOp dir') ↔ (dir = 0 ↔ dir' = 0) := by
  by_cases hdir : dir = 0
  · by_cases hdir' : dir' = 0
    · have hsame : m.pwm = false := by simpa [lastOp, Motor.Undisturbed, hdir, hdir'] using h
      simp [lastOp, Motor.Undisturbed, Motor.exec, hdir, hdir', hsame]
    · simp [lastOp, Motor.Undisturbed, Motor.exec, hdir, hdir']
  · by_cases hdir' : dir' = 0
    · simp [lastOp, Motor.Undisturbed, Motor.exec, hdir, hdir']
    · have hsame : m.en = .low := by simpa [lastOp, Motor.Undisturbed, hdir, hdir'] using h
      simp [lastOp, Motor.Undisturbed, Motor.exec, hdir, hdir', hsame]

/-- The last operation of a call leaves consistent outputs exactly when the other output has
not been disturbed. -/
theorem Motor.consistent_exec_iff {m : Motor} {dir : ℤ} :
    (m.exec (lastOp dir)).Consistent ↔ m.Undisturbed (lastOp dir) := by
  by_cases hdir : dir = 0
  · simp [lastOp, Motor.Consistent, Motor.exec, Motor.Undisturbed, hdir]
  · simp [lastOp, Motor.Consistent, Motor.exec, Motor.Undisturbed, hdir]

/-! ### What the latest event says about the outputs -/

/-- The latest event tells whether a call before its last operation finds the output it switched
first as it left it. -/
def LatestTells (es : List (Event Context ℤ)) (s : Sys Context MotorOp Motor) : Prop :=
  match es.getLast? with
  | none => ∀ c, s.pending c = []
  | some (.begins c _) => 2 ≤ (s.pending c).length
  | some (.works c) => s.pending c ≠ [] ∧ ∀ op, s.pending c = [op] → s.shared.Undisturbed op
  | some (.ends c) => s.pending c = [] ∧ ∃ dir, lastArg es c = some dir ∧
      ∀ c' dir', s.pending c' = [lastOp dir'] →
        (s.shared.Undisturbed (lastOp dir') ↔ (dir = 0 ↔ dir' = 0))

/-- What is known of the outputs after the events `es`. -/
structure MotorInv (es : List (Event Context ℤ)) (s : Sys Context MotorOp Motor) : Prop where
  /-- Two calls of one kind, both before their last operation, have not disturbed each other. -/
  both : ∀ op, (∀ c, s.pending c = [op]) → s.shared.Undisturbed op
  latest : LatestTells es s

section Step

variable {es : List (Event Context ℤ)} {s : Sys Context MotorOp Motor}

/-- Beginning a call writes no output. -/
theorem MotorInv.begins (c : Context) (dir : ℤ) :
    MotorInv (es ++ [.begins c dir])
      { s with pending := Function.update s.pending c (drvStepMotorCtrl dir) } := by
  have hlength := two_le_length_drvStepMotorCtrl dir
  refine ⟨fun op hboth => ?_, ?_⟩
  · have hop : drvStepMotorCtrl dir = [op] := by simpa using hboth c
    rw [hop] at hlength
    simp at hlength
  · simpa [LatestTells] using hlength

/-- An operation that is not the last one of its call. -/
theorem MotorInv.works {c : Context} {dir : ℤ} {op : MotorOp} {rest : List MotorOp}
    (hpending : s.pending c = op :: rest) (hrest : rest ≠ [])
    (hsuffix : s.pending c <:+ drvStepMotorCtrl dir) :
    MotorInv (es ++ [.works c])
      { s with shared := s.shared.exec op, pending := Function.update s.pending c rest } := by
  have hnext : ∀ op', rest = [op'] → (s.shared.exec op).Undisturbed op' := by
    rintro op' rfl
    exact undisturbed_exec_of_suffix (hpending ▸ hsuffix)
  refine ⟨fun op' hboth => ?_, ?_⟩
  · exact hnext op' (by simpa using hboth c)
  · simpa [LatestTells, hrest] using hnext

/-- The last operation of a call. -/
theorem MotorInv.ends (h : MotorInv es s) {c : Context} {dir : ℤ}
    (hpending : s.pending c = [lastOp dir]) (harg : lastArg es c = some dir) {n : ℕ} :
    MotorInv (es ++ [.ends c])
      ⟨s.shared.exec (lastOp dir), Function.update s.pending c [], n⟩ := by
  refine ⟨fun op hboth => ?_, ?_⟩
  · have hclash := hboth c
    simp at hclash
  · simp only [LatestTells, List.getLast?_concat, Function.update_self, true_and]
    refine ⟨dir, by simpa [lastArg_snoc, Event.argOf] using harg, fun c' dir' hpending' => ?_⟩
    have hc : c' ≠ c := by
      rintro rfl
      simp at hpending'
    rw [Function.update_of_ne hc] at hpending'
    refine undisturbed_exec_lastOp fun hkind => h.both _ fun d => ?_
    have hop : lastOp dir = lastOp dir' := by simp only [lastOp, hkind]
    -- There are only the two contexts.
    have hd : d = c ∨ d = c' := by
      cases c <;> cases c' <;> cases d <;> simp at hc ⊢
    rcases hd with rfl | rfl
    · rw [hpending, hop]
    · exact hpending'

end Step

/-- The invariant holds after the events of every schedule. -/
theorem motorInv_after (m : Motor) (l : List (Label Context ℤ)) :
    MotorInv (motorEvents m l) (Run.after motorStep (start m) l) := by
  induction l using List.reverseRecOn with
  | nil =>
    refine ⟨fun op hboth => ?_, fun c => rfl⟩
    have hclash := hboth .mainThread
    simp [start] at hclash
  | append_singleton l a ih =>
    have hprogram := pending_suffix Motor.exec drvStepMotorCtrl m l
    rw [Run.after_snoc, motorEvents, eventsOf, Run.trace_snoc]
    unfold motorStep at ih ⊢
    rcases step_cases Motor.exec drvStepMotorCtrl
        (Run.after (step Motor.exec drvStepMotorCtrl) (start m) l) a with
      ⟨hevent, hstep⟩ | ⟨c, dir, _, hevent, hstep⟩ | ⟨c, op, rest, hpending, hrest, hevent, hstep⟩ |
        ⟨c, op, hpending, hevent, hstep⟩
    · rw [hevent, hstep, Option.toList_none, List.append_nil]
      exact ih
    · rw [hevent, hstep, Option.toList_some]
      exact MotorInv.begins c dir
    · rw [hevent, hstep, Option.toList_some]
      rcases hprogram c with hnone | ⟨dir, _, hsuffix⟩
      · simp [hpending] at hnone
      · exact MotorInv.works hpending hrest hsuffix
    · rw [hevent, hstep, Option.toList_some]
      rcases hprogram c with hnone | ⟨dir, harg, hsuffix⟩
      · simp [hpending] at hnone
      · obtain rfl := eq_lastOp (hpending ▸ hsuffix)
        exact ih.ends hpending harg

/-- A context with one operation left is before the last operation of its latest call. -/
theorem lastArg_of_pending {m : Motor} {l : List (Label Context ℤ)} {c : Context} {op : MotorOp}
    (hpending : (Run.after motorStep (start m) l).pending c = [op]) :
    ∃ dir, lastArg (motorEvents m l) c = some dir ∧ op = lastOp dir := by
  rcases pending_suffix Motor.exec drvStepMotorCtrl m l c with hnone | ⟨dir, harg, hsuffix⟩
  · rw [hpending] at hnone
    cases hnone
  · rw [hpending] at hsuffix
    exact ⟨dir, harg, eq_lastOp hsuffix⟩

/-- The call `c` is about to end directly after the end of an opposite call. -/
def EndsAfterOpposite (m : Motor) (l : List (Label Context ℤ)) (c : Context) : Prop :=
  ∃ pre c' dir' dir, motorEvents m l = pre ++ [.ends c'] ∧ lastArg pre c' = some dir' ∧
    lastArg pre c = some dir ∧ ¬ (dir' = 0 ↔ dir = 0)

/-- When a call ends as the only one in progress, the outputs are consistent unless the latest
event is the end of an opposite call. -/
theorem consistent_iff_of_closing {m : Motor} {l : List (Label Context ℤ)} {c : Context}
    {op : MotorOp} (hclosing : Closing (Run.after motorStep (start m) l) c op) :
    ((Run.after motorStep (start m) l).shared.exec op).Consistent ↔
      ¬ EndsAfterOpposite m l c := by
  obtain ⟨hpending, hothers⟩ := hclosing
  obtain ⟨dir, hdir, rfl⟩ := lastArg_of_pending hpending
  have hlatest := (motorInv_after m l).latest
  unfold LatestTells at hlatest
  rw [Motor.consistent_exec_iff]
  rcases List.eq_nil_or_concat' (motorEvents m l) with hnil | ⟨pre, e, hes⟩
  · rw [hnil] at hlatest
    have hclash := hlatest c
    rw [hpending] at hclash
    cases hclash
  rw [hes, List.getLast?_concat] at hlatest
  cases e with
  | begins c' dir' =>
    by_cases hc : c' = c
    · subst hc
      simp [hpending] at hlatest
    · simp [hothers c' hc] at hlatest
  | works c' =>
    by_cases hc : c' = c
    · subst hc
      refine iff_of_true (hlatest.2 _ hpending) ?_
      rintro ⟨pre', d, _, _, hes', _⟩
      simp [hes] at hes'
    · exact absurd (hothers c' hc) hlatest.1
  | ends c' =>
    obtain ⟨_, dir', harg, htells⟩ := hlatest
    rw [hes] at hdir
    simp only [lastArg_snoc, Event.argOf, Option.none_or] at harg hdir
    rw [htells c dir hpending]
    constructor
    · rintro hkind ⟨pre', d, d', d'', hes', hd', hd'', hopposite⟩
      obtain ⟨rfl, hd⟩ := List.append_inj' (hes.symm.trans hes') rfl
      obtain rfl : c' = d := by simpa using hd
      obtain rfl : dir' = d' := Option.some.inj (harg.symm.trans hd')
      obtain rfl : dir = d'' := Option.some.inj (hdir.symm.trans hd'')
      exact hopposite hkind
    · intro hnone
      by_contra hopposite
      exact hnone ⟨pre, c', dir', dir, hes, harg, hdir, hopposite⟩

/-- The events contain opposite ends exactly when a call ends as the only one in progress
directly after the end of an opposite call. -/
theorem oppositeEnds_iff (m : Motor) (l : List (Label Context ℤ)) :
    OppositeEnds (motorEvents m l) ↔
      ∃ l₁ c op, l₁ ++ [.exec c] <+: l ∧ Closing (Run.after motorStep (start m) l₁) c op ∧
        EndsAfterOpposite m l₁ c := by
  constructor
  · rintro ⟨pre, c', c, dir', dir, post, hes, hdir', hdir, hopposite⟩
    rw [List.append_cons] at hes
    obtain ⟨l₁, a, l₂, rfl, ha, hes₁, _⟩ := Run.trace_eq_append_cons hes
    obtain ⟨rfl, op, hpending⟩ := event_eq_ends_iff.mp ha
    have hidle : (Run.after motorStep (start m) l₁).pending c' = [] := by
      have hlatest := (motorInv_after m l₁).latest
      unfold LatestTells at hlatest
      rw [show motorEvents m l₁ = _ from hes₁, List.getLast?_concat] at hlatest
      exact hlatest.1
    refine ⟨l₁, c, op, ⟨l₂, by simp⟩, ⟨hpending, fun d hd => ?_⟩,
      pre, c', dir', dir, hes₁, hdir', hdir, hopposite⟩
    -- The other context is the one whose call has just ended.
    have hd' : d = c' := by
      have hne : c' ≠ c := by
        rintro rfl
        rw [show (Run.after (step Motor.exec drvStepMotorCtrl) (start m) l₁).pending c' = []
          from hidle] at hpending
        cases hpending
      cases c <;> cases c' <;> cases d <;> simp at hd hne ⊢
    rw [hd']
    exact hidle
  · rintro ⟨l₁, c, op, ⟨l₂, rfl⟩, ⟨hpending, _⟩, pre, c', dir', dir, hes, hdir', hdir, hopposite⟩
    have hends : event (Run.after motorStep (start m) l₁) (Label.exec c : Label Context ℤ) =
        some (.ends c) := event_eq_ends_iff.mpr ⟨rfl, op, hpending⟩
    have htrace : motorEvents m (l₁ ++ .exec c :: l₂) = _ := Run.trace_append_cons hends
    rw [show Run.trace _ _ _ l₁ = _ from hes, List.append_assoc] at htrace
    rw [List.append_assoc]
    exact ⟨pre, c', c, dir', dir, _, htrace, hdir', hdir, hopposite⟩

/-- In every interleaving of any number of calls, the outputs are consistent in every state
without a call in progress exactly when no call ends directly after the end of an opposite
one. -/
theorem motor_consistent_iff (m : Motor) (l : List (Label Context ℤ)) :
    Run.Always motorStep (HoldsWhenQuiet Motor.Consistent) (start m) l ↔
      ¬ OppositeEnds (motorEvents m l) := by
  rw [always_holdsWhenQuiet_iff, oppositeEnds_iff]
  constructor
  · rintro hall ⟨l₁, c, op, hprefix, hclosing, hopposite⟩
    exact (consistent_iff_of_closing hclosing).mp (hall l₁ _ hprefix c op rfl hclosing) hopposite
  · rintro hnone l₁ _ hprefix c op rfl hclosing
    refine (consistent_iff_of_closing hclosing).mpr fun hopposite => ?_
    exact hnone ⟨l₁, c, op, hprefix, hclosing, hopposite⟩

/-- A stop that runs between the EN write and the PWM enable of a start leaves the
motor with EN high and PWM enabled. -/
theorem motor_consistent_overlap_fails :
    ¬ Run.Always motorStep (HoldsWhenQuiet Motor.Consistent) (start ⟨.high, .low, false⟩)
      [.call .mainThread 1, .exec .mainThread, .exec .mainThread,
        .call .mqttThread 0, .exec .mqttThread, .exec .mqttThread, .exec .mainThread] := by
  intro h
  have hlast := h _ List.prefix_rfl
  have hquiet : Quiet (Run.after motorStep (start ⟨.high, .low, false⟩)
      [.call .mainThread 1, .exec .mainThread, .exec .mainThread,
        .call .mqttThread 0, .exec .mqttThread, .exec .mqttThread, .exec .mainThread]) := by
    intro c
    cases c <;> rfl
  have hconsistent := hlast hquiet (by decide)
  revert hconsistent
  unfold Motor.Consistent
  decide

end Saliwen
