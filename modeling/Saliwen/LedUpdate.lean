import Saliwen.LedShadow
import Mathlib.Tactic.IntervalCases

/-!
# Torn updates of the LED bank

`turn` writes the four LED pins one after another in the main thread, without masking
interrupts. `on_clap_space_timer` runs in the tick interrupt, at any point between two of these
writes, and rewrites all four pins at a double clap. This file determines the interleavings in
which the pins have one level whenever no update is in progress.
-/

namespace Saliwen

/-- The call `turn(1)` or `turn(0)`. -/
def turnOf (on : Bool) : List HwOp := turn (if on then 1 else 0)

/-- The level `turn` writes to every LED pin. -/
def turnLevel (on : Bool) : Level := if on then .low else .high

/-- The level to which `on_clap_space_timer` drives every LED pin at a double clap. -/
def App.clapLevel (s : App) : Level := if s.flagLedStatus ≠ 0 then .low else .high

/-- Whether an operation is the first LED write of a call. -/
def HwOp.isFirstLed : HwOp → Bool
  | .led i _ => i.val = 0
  | _ => false

/-- The globals, the operations of `turn` that the main thread still has to execute, and the
level driven by the latest double clap since the first LED write of that call. -/
structure LedUpdate where
  app : App
  pending : List HwOp
  clapped : Option Level

/-- What happens next to the LED bank. -/
inductive LedEvent where
  /-- The main thread calls `turn(1)` or `turn(0)`. -/
  | turn (on : Bool)
  /-- The main thread executes its next hardware operation. -/
  | exec
  /-- The clap window closes with the given count: `on_clap_space_timer`. -/
  | clapWindow (cnt : ℤ)
  deriving DecidableEq, Repr

/-- One event. The interrupt runs to completion, the main thread only from one hardware
operation to the next. -/
def ledUpdate (s : LedUpdate) : LedEvent → LedUpdate
  | .turn on => if s.pending = [] then { s with pending := turnOf on } else s
  | .exec =>
    match s.pending with
    | [] => s
    | op :: rest =>
      { app := { s.app with board := s.app.board.exec op }
        pending := rest
        clapped := if op.isFirstLed then none else s.clapped }
  | .clapWindow cnt =>
    { s with
      app := onClapSpaceTimer { s.app with cnt := cnt }
      clapped := if cnt = 2 then some s.app.clapLevel else s.clapped }

/-- The state after `init_io_port`. -/
def LedUpdate.start (b : Board) : LedUpdate := ⟨App.boot b, [], none⟩

/-- All four LED pins have the same level. -/
def Board.LedsUniform (b : Board) : Prop := ∀ i j, b.leds i = b.leds j

/-- The LED pins have one level unless an LED write of `turn` is outstanding. -/
def UniformWhenQuiet (s : LedUpdate) : Prop :=
  (∀ i level, HwOp.led i level ∉ s.pending) → s.app.board.LedsUniform

/-- When `turn` writes the last LED pin, the latest double clap since its first LED write, if
there was one, drove the pins to the level that `turn` writes. -/
def LastWriteAgrees (s : LedUpdate) (e : LedEvent) : Prop :=
  e = .exec → ∀ i level, s.pending.head? = some (.led i level) → i.val = 3 →
    ∀ l ∈ s.clapped, l = level

/-! ## Stages of a call -/

/-- The first four operations of `turn` are the LED writes. -/
theorem turnOf_drop_led (on : Bool) {k : ℕ} (hk : k < 4) :
    (turnOf on).drop k = .led ⟨k, hk⟩ (turnLevel on) :: (turnOf on).drop (k + 1) := by
  cases on with
  | false => interval_cases k <;> rfl
  | true => interval_cases k <;> rfl

/-- The other operations of `turn` are those of the step motor. -/
theorem turnOf_drop_motor (on : Bool) {k : ℕ} (hk : 4 ≤ k) {op : HwOp}
    (hop : op ∈ (turnOf on).drop k) : ∃ m, op = .motor m := by
  obtain ⟨j, rfl⟩ := Nat.exists_eq_add_of_le hk
  have hdrop : ∃ dir, (turnOf on).drop 4 = (drvStepMotorCtrl dir).map .motor := by
    cases on with
    | false => exact ⟨0, rfl⟩
    | true => exact ⟨1, rfl⟩
  obtain ⟨dir, hdrop⟩ := hdrop
  rw [← List.drop_drop, hdrop] at hop
  obtain ⟨m, -, rfl⟩ := List.mem_map.mp (List.mem_of_mem_drop hop)
  exact ⟨m, rfl⟩

/-- The main thread has executed `k` operations of its call. While LED writes are outstanding,
the first pin shows the latest double clap since it was written; if that is the level of the
call, the pins written so far have this level. -/
structure Stage (on : Bool) (k : ℕ) (s : LedUpdate) : Prop where
  pending : s.pending = (turnOf on).drop k
  uniform : 4 ≤ k → s.app.board.LedsUniform
  first : 1 ≤ k → k < 4 → s.app.board.leds 0 = s.clapped.getD (turnLevel on)
  written : k < 4 → s.clapped.getD (turnLevel on) = turnLevel on →
    ∀ i : Fin 4, i.val < k → s.app.board.leds i = turnLevel on

section Stages

variable {on : Bool} {k : ℕ} {s : LedUpdate}

/-- At every stage of an update the LEDs are alike when no write is left. -/
theorem Stage.uniformWhenQuiet (h : Stage on k s) : UniformWhenQuiet s := by
  intro hquiet
  by_cases hk : k < 4
  · have hmem : HwOp.led ⟨k, hk⟩ (turnLevel on) ∈ s.pending := by
      rw [h.pending, turnOf_drop_led on hk]
      exact List.mem_cons_self
    exact absurd hmem (hquiet _ _)
  · exact h.uniform (by omega)

/-- A call of `turn` begins a new update. -/
theorem Stage.turn (h : Stage on k s) (on' : Bool) :
    ∃ on k, Stage on k (ledUpdate s (.turn on')) := by
  by_cases hpending : s.pending = []
  · refine ⟨on', 0, ?_⟩
    simp only [ledUpdate, if_pos hpending]
    exact ⟨rfl, by omega, by omega, by omega⟩
  · refine ⟨on, k, ?_⟩
    simpa only [ledUpdate, if_neg hpending] using h

/-- The timer callback either leaves the pins alone or rewrites all of them. -/
theorem Stage.clapWindow (h : Stage on k s) (cnt : ℤ) :
    Stage on k (ledUpdate s (.clapWindow cnt)) := by
  obtain ⟨hpending, huniform, hfirst, hwritten⟩ := h
  by_cases hcnt : cnt = 2
  · have hleds : (ledUpdate s (.clapWindow cnt)).app.board.leds = fun _ => s.app.clapLevel := by
      simp only [ledUpdate, onClapSpaceTimer_leds, if_pos hcnt]
      rfl
    have hclapped : (ledUpdate s (.clapWindow cnt)).clapped = some s.app.clapLevel := by
      simp only [ledUpdate, if_pos hcnt]
    refine ⟨hpending, fun _ i j => ?_, fun _ _ => ?_, fun _ hlevel i _ => ?_⟩
    · rw [hleds]
    · rw [hleds, hclapped]
      rfl
    · rw [hleds]
      rwa [hclapped] at hlevel
  · have hleds : (ledUpdate s (.clapWindow cnt)).app.board.leds = s.app.board.leds := by
      simp only [ledUpdate, onClapSpaceTimer_leds, if_neg hcnt]
    have hclapped : (ledUpdate s (.clapWindow cnt)).clapped = s.clapped := by
      simp only [ledUpdate, if_neg hcnt]
    refine ⟨hpending, fun hk i j => ?_, ?_, ?_⟩
    · rw [hleds]
      exact huniform hk i j
    · rw [hleds, hclapped]
      exact hfirst
    · rw [hleds, hclapped]
      exact hwritten

/-- The state after an LED write of `turn`. -/
theorem Stage.exec_led (h : Stage on k s) (hk : k < 4) :
    ledUpdate s .exec =
      { app := { s.app with board := s.app.board.exec (.led ⟨k, hk⟩ (turnLevel on)) }
        pending := (turnOf on).drop (k + 1)
        clapped := if k = 0 then none else s.clapped } := by
  have hfirst : (HwOp.led ⟨k, hk⟩ (turnLevel on)).isFirstLed = decide (k = 0) := by
    rfl
  simp only [ledUpdate, h.pending, turnOf_drop_led on hk, hfirst, decide_eq_true_eq]

/-- If no double clap with another level came in between, the pins written so far have the level
of the call. -/
theorem Stage.exec_written (h : Stage on k s) (hk : k < 4)
    (hlevel : k = 0 ∨ s.clapped.getD (turnLevel on) = turnLevel on) (i : Fin 4)
    (hi : i.val < k + 1) : (ledUpdate s .exec).app.board.leds i = turnLevel on := by
  rw [h.exec_led hk]
  by_cases hlast : i = ⟨k, hk⟩
  · rw [hlast]
    exact Board.exec_led_self ..
  · have hlt : i.val < k := by
      have hne : i.val ≠ k := fun heq => hlast (Fin.ext heq)
      omega
    have hkept := h.written hk (hlevel.resolve_left (by omega)) i hlt
    exact (Board.exec_led_of_ne _ hlast _).trans hkept

/-- An LED write other than the last one. -/
theorem Stage.write (h : Stage on k s) (hk : k + 1 < 4) :
    Stage on (k + 1) (ledUpdate s .exec) := by
  have hexec := h.exec_led (by omega)
  refine ⟨by rw [hexec], by omega, fun _ _ => ?_, fun _ hlevel => h.exec_written (by omega) ?_⟩
  · rw [hexec]
    by_cases hzero : k = 0
    · subst hzero
      exact Board.exec_led_self ..
    · have hne : (0 : Fin 4) ≠ ⟨k, by omega⟩ := fun heq => hzero (Fin.ext_iff.mp heq).symm
      rw [if_neg hzero, ← h.first (by omega) (by omega)]
      exact Board.exec_led_of_ne _ hne _
  · rw [hexec] at hlevel
    by_cases hzero : k = 0
    · exact Or.inl hzero
    · right
      simpa only [if_neg hzero] using hlevel

/-- The last LED write completes a uniform bank if it agrees with the latest double clap. -/
theorem Stage.write_last (h : Stage on 3 s) (hagrees : LastWriteAgrees s .exec) :
    Stage on 4 (ledUpdate s .exec) := by
  have hlevel : s.clapped.getD (turnLevel on) = turnLevel on := by
    have hhead : s.pending.head? = some (.led 3 (turnLevel on)) := by
      rw [h.pending, turnOf_drop_led on (by decide)]
      rfl
    have hlast := hagrees rfl 3 (turnLevel on) hhead rfl
    cases hclapped : s.clapped with
    | none => rfl
    | some l => exact hlast l (by rw [hclapped]; rfl)
  have hleds := h.exec_written (by decide) (Or.inr hlevel)
  refine ⟨by rw [h.exec_led (by decide)], fun _ i j => ?_, by omega, by omega⟩
  rw [hleds i (by omega), hleds j (by omega)]

/-- The step-motor operations do not touch the LEDs. -/
theorem Stage.motor (h : Stage on k s) (hk : 4 ≤ k) : Stage on (k + 1) (ledUpdate s .exec) := by
  have htail : (turnOf on).drop (k + 1) = s.pending.tail := by
    rw [h.pending, List.tail_drop]
  have huniform := h.uniform hk
  refine ⟨?_, fun _ => ?_, by omega, by omega⟩
  · rw [htail]
    cases hpending : s.pending with
    | nil => simp [ledUpdate, hpending]
    | cons op rest => simp [ledUpdate, hpending]
  · cases hpending : s.pending with
    | nil => simpa only [ledUpdate, hpending] using huniform
    | cons op rest =>
      obtain ⟨m, rfl⟩ := turnOf_drop_motor on hk
        (by rw [← h.pending, hpending]; exact List.mem_cons_self)
      simp only [ledUpdate, hpending]
      exact huniform

/-- Every event that meets the condition leads to a stage again. -/
theorem Stage.step (h : Stage on k s) {e : LedEvent} (hagrees : LastWriteAgrees s e) :
    ∃ on k, Stage on k (ledUpdate s e) := by
  cases e with
  | turn on' => exact h.turn on'
  | clapWindow cnt => exact ⟨on, k, h.clapWindow cnt⟩
  | exec =>
    rcases lt_trichotomy k 3 with hk | rfl | hk
    · exact ⟨on, k + 1, h.write (by omega)⟩
    · exact ⟨on, 4, h.write_last hagrees⟩
    · exact ⟨on, k + 1, h.motor hk⟩

/-- The last LED write comes after three others. -/
theorem Stage.last_write (h : Stage on k s) {i : Fin 4} {level : Level}
    (hhead : s.pending.head? = some (.led i level)) (hi : i.val = 3) :
    k = 3 ∧ level = turnLevel on := by
  rw [h.pending] at hhead
  by_cases hk : k < 4
  · rw [turnOf_drop_led on hk] at hhead
    simp only [List.head?_cons, Option.some.injEq, HwOp.led.injEq] at hhead
    exact ⟨(congrArg Fin.val hhead.1).trans hi, hhead.2.symm⟩
  · obtain ⟨m, hm⟩ := turnOf_drop_motor on (by omega) (List.mem_of_mem_head? hhead)
    cases hm

/-- Behind the writes to the LEDs there are no further ones. -/
theorem quiet_turnOf (on : Bool) (i : Fin 4) (level : Level) :
    HwOp.led i level ∉ (turnOf on).drop 4 := by
  intro hmem
  obtain ⟨m, hm⟩ := turnOf_drop_motor on le_rfl hmem
  cases hm

/-- A last LED write that disagrees with the latest double clap leaves the first pin different
from the last. -/
theorem Stage.torn (h : Stage on k s) {e : LedEvent} (hdisagrees : ¬ LastWriteAgrees s e) :
    ¬ UniformWhenQuiet (ledUpdate s e) := by
  unfold LastWriteAgrees at hdisagrees
  push Not at hdisagrees
  obtain ⟨rfl, i, level, hhead, hi, l, hclapped, hne⟩ := hdisagrees
  obtain ⟨rfl, rfl⟩ := h.last_write hhead hi
  have hfirst : s.app.board.leds 0 = l := by
    rw [h.first (by decide) (by decide), hclapped]
    rfl
  rw [h.exec_led (by decide)]
  intro huniform
  refine hne ?_
  calc l = s.app.board.leds 0 := hfirst.symm
    _ = (s.app.board.exec (.led 3 (turnLevel on))).leds 0 :=
        (Board.exec_led_of_ne _ (by decide) _).symm
    _ = (s.app.board.exec (.led 3 (turnLevel on))).leds 3 := huniform (quiet_turnOf on) 0 3
    _ = turnLevel on := Board.exec_led_self ..

end Stages

/-- In every interleaving of the operations of `turn` with runs of `on_clap_space_timer`, the LED
pins have one level in all quiet states exactly when every last LED write agrees with the latest
double clap since the first. -/
theorem ledsUniform_iff (b : Board) (l : List LedEvent) :
    Run.Always ledUpdate UniformWhenQuiet (.start b) l ↔
      Run.EachStep ledUpdate LastWriteAgrees (.start b) l := by
  refine Run.always_iff_eachStep (I := fun s => ∃ on k, Stage on k s)
    (fun _ ⟨_, _, h⟩ => h.uniformWhenQuiet) (fun _ _ ⟨_, _, h⟩ hagrees => h.step hagrees)
    (fun _ _ ⟨_, _, h⟩ hdisagrees => h.torn hdisagrees) ?_ l
  refine ⟨false, 7, rfl, fun _ i j => ?_, by omega, by omega⟩
  simp [LedUpdate.start, App.boot, initIoPort]

/-- A double clap right after the first write of `turn(1)` drives all pins high; the other three
writes then leave the first LED dark and the others lit. -/
theorem ledsUniform_double_clap_fails :
    ¬ Run.Always ledUpdate UniformWhenQuiet (.start Board.reset)
      [.turn true, .exec, .clapWindow 2, .exec, .exec, .exec] := by
  intro h
  have hlast := h _ List.prefix_rfl
  have huniform := hlast (quiet_turnOf true) 0 3
  revert huniform
  decide

end Saliwen
