import Saliwen.App
import Saliwen.Lib.Run

/-!
# The recorded LED status and the LED pins

`flag_led_status` decides what the next double clap does, and is meant to record
whether the LEDs are lit. Three paths write the pins: `init_io_port`, the clap window
and automatic mode. This file determines the orders of these paths in which the record
and the pins agree throughout.
-/

namespace Saliwen

/-- A write path of the LED bank after start-up, executed atomically. -/
inductive LedStep where
  /-- The clap window closes with the given count: `on_clap_space_timer`. -/
  | clapWindow (cnt : ℤ)
  /-- Automatic mode of the main loop calls `turn(1)` or `turn(0)`. -/
  | automatic (on : Bool)
  deriving DecidableEq, Repr

/-- One write path as a step on the globals. -/
def ledStep (s : App) : LedStep → App
  | .clapWindow cnt => onClapSpaceTimer { s with cnt := cnt }
  | .automatic on => { s with board := s.board.execAll (turn (if on then 1 else 0)) }

/-- The record is non-zero exactly when all LEDs are lit, and zero exactly when all
are dark. -/
def LedsAgree (s : App) : Prop :=
  (s.flagLedStatus ≠ 0 ↔ ∀ i, s.board.leds i = .low) ∧
    (s.flagLedStatus = 0 ↔ ∀ i, s.board.leds i = .high)

/-- A recognised double clap inverts the level of every LED pin. -/
def DoubleClapInverts (s : App) (a : LedStep) : Prop :=
  a = .clapWindow 2 → ∀ i, (ledStep s a).board.leds i ≠ s.board.leds i

/-- The intended law of a schedule of write paths after `init_io_port`: record and
pins agree in every state, and every double clap inverts what the LEDs show. -/
def LedsFollowStatus (b : Board) (l : List LedStep) : Prop :=
  Run.Always ledStep LedsAgree (App.boot b) l ∧
    Run.EachStep ledStep DoubleClapInverts (App.boot b) l

/-- The steps that respect the record: no double clap and no switching on by
automatic mode. -/
def LedStep.Harmless (a : LedStep) : Prop := a ≠ .clapWindow 2 ∧ a ≠ .automatic true

/-- Record off and all LEDs dark, the state left by start-up. -/
def LedsDark (s : App) : Prop := s.flagLedStatus = 0 ∧ ∀ i, s.board.leds i = .high

/-- At the start the LEDs are dark and the status says so. -/
theorem ledsDark_boot (b : Board) : LedsDark (App.boot b) := by
  refine ⟨rfl, fun i => ?_⟩
  simp [App.boot, initIoPort]

/-- Dark LEDs with a status of zero agree. -/
theorem LedsDark.agree {s : App} (h : LedsDark s) : LedsAgree s := by
  obtain ⟨hflag, hleds⟩ := h
  refine ⟨⟨fun hne => absurd hflag hne, fun hlow => ?_⟩, fun _ => hleds, fun _ => hflag⟩
  have hclash := hlow 0
  simp [hleds 0] at hclash

/-- A harmless step keeps record and LEDs off. -/
theorem LedsDark.step {s : App} {a : LedStep} (h : LedsDark s) (ha : a.Harmless) :
    LedsDark (ledStep s a) := by
  obtain ⟨hflag, hleds⟩ := h
  obtain ⟨hclap, hauto⟩ := ha
  cases a with
  | clapWindow cnt =>
    have hcnt : cnt ≠ 2 := fun heq => hclap (by rw [heq])
    constructor
    · simpa [ledStep, onClapSpaceTimer_flagLedStatus, hcnt] using hflag
    · simpa [ledStep, onClapSpaceTimer_leds, hcnt] using hleds
  | automatic on =>
    have hon : on = false := by simpa using hauto
    exact ⟨hflag, fun i => by simp [ledStep, hon]⟩

/-- From the dark state every other step breaks the agreement. A double clap records
"on" and drives the pins high, because `control_led` is called with the complement of
the recorded status; automatic mode lights the LEDs without recording it. -/
theorem LedsDark.not_agree_step {s : App} {a : LedStep} (h : LedsDark s)
    (ha : ¬ a.Harmless) : ¬ LedsAgree (ledStep s a) := by
  obtain ⟨hflag, hleds⟩ := h
  intro hagree
  have hbad : a = .clapWindow 2 ∨ a = .automatic true := by
    by_contra hnone
    exact ha (not_or.mp hnone)
  rcases hbad with rfl | rfl
  · have hlit := hagree.1.mp (by simp [ledStep, onClapSpaceTimer_flagLedStatus, hflag]) 0
    simp [ledStep, onClapSpaceTimer_leds, hflag] at hlit
  · have hdark := hagree.2.mp hflag 0
    simp [ledStep] at hdark

/-- Record and pins agree throughout a schedule, and every double clap inverts the
LEDs, exactly when the schedule has no double clap and automatic mode never switches on. -/
theorem ledsFollowStatus_iff (b : Board) (l : List LedStep) :
    LedsFollowStatus b l ↔ ∀ a ∈ l, a ≠ .clapWindow 2 ∧ a ≠ .automatic true := by
  have hagree : Run.Always ledStep LedsAgree (App.boot b) l ↔ ∀ a ∈ l, a.Harmless := by
    rw [Run.always_iff_eachStep (I := LedsDark) (C := fun _ a => a.Harmless)
      (fun _ h => h.agree) (fun _ _ h ha => h.step ha) (fun _ _ h ha => h.not_agree_step ha)
      (ledsDark_boot b), Run.eachStep_label_iff]
  constructor
  · intro h
    exact hagree.mp h.1
  · intro h
    refine ⟨hagree.mpr h, ?_⟩
    intro l₁ a hl hclap
    have hmem : a ∈ l := hl.subset (by simp)
    exact absurd hclap (h a hmem).1

/-- The board at power-on, all pins low. -/
def Board.reset : Board := ⟨fun _ => .low, .low, ⟨.low, .low, false⟩⟩

/-- The first double clap after start-up records "on" while all LEDs stay dark. -/
theorem ledsFollowStatus_double_clap_fails :
    ¬ LedsFollowStatus Board.reset [.clapWindow 2] := by
  intro h
  have hagree := h.1 [.clapWindow 2] List.prefix_rfl
  have hharm : ¬ (LedStep.clapWindow 2).Harmless := fun hh => hh.1 rfl
  exact (ledsDark_boot Board.reset).not_agree_step hharm hagree

end Saliwen
