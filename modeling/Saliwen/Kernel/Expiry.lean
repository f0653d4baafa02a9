import Saliwen.Kernel.Timer
import Saliwen.Lib.Run

/-!
# When a timer expires

The check of a tick, one turn of its loop at a time, so that also a check that does not end can
be spoken of. The callbacks give any commands, and what is done to the timers is written down in
a history. The main result says when the callback of a timer runs, by the history alone: at the
tick that the time of the timer says, once the loop has taken as many turns as there are timers.
-/

namespace Saliwen.Kernel

variable {ι σ : Type*} [DecidableEq ι]

/-! ## The loop one turn at a time -/

/-- What is done to the timers: the tick counter is increased, `rt_timer_check` calls the
callback of a timer, a command is given, a timer leaves the list of the check, and the check
returns. -/
inductive Act (ι : Type*) where
  | tick
  | expire (i : ι)
  | command (c : Command ι)
  | leave
  | finish

/-- The timers after an act. -/
def Timers.act (k : Timers ι) : Act ι → Timers ι
  | .tick => { k with tick := (k.tick + 1) % 2 ^ 32 }
  | .expire i =>
    { k.timerRemove i with
      timer := if (k.timer i).periodic then k.timer else activate k.timer i false
      temporary := some i }
  | .command c => k.command c
  | .leave => { k with temporary := none }
  | .finish => k

/-- The condition of the loop of `rt_timer_check`: the first timer, if it is due. -/
def Timers.due (k : Timers ι) : Option ι :=
  match k.list with
  | [] => none
  | (timeout, i) :: _ => if Wrap.sub (2 ^ 32) k.tick timeout < halfTick then some i else none

/-- One turn of the loop, whose callback gives some commands. -/
def Timers.turn (k : Timers ι) (commands : List (Command ι)) : List (Act ι) :=
  match k.due with
  | none => [.finish]
  | some i =>
    let acts := .expire i :: commands.map .command
    let k := acts.foldl Timers.act k
    if k.temporary = none then acts
    else if (k.timer i).periodic ∧ (k.timer i).activated then
      acts ++ [.leave, .command (.start i)]
    else acts ++ [.leave]

/-- The timers, and whether their check runs. -/
structure Ticking (ι : Type*) where
  timers : Timers ι
  checking : Bool

/-- What comes next: a command from a thread, the tick interrupt, or a turn of its check. -/
inductive Label (ι : Type*) where
  | command (c : Command ι)
  | tick
  | turn (commands : List (Command ι))

/-- Interrupts are disabled while the check runs. -/
def Ticking.acts (s : Ticking ι) : Label ι → List (Act ι)
  | .command c => if s.checking then [] else [.command c]
  | .tick => if s.checking then [] else [.tick]
  | .turn commands => if s.checking then s.timers.turn commands else []

/-- Whether the check runs after an act. -/
def Act.checking (checking : Bool) : Act ι → Bool
  | .tick => true
  | .finish => false
  | .expire _ | .command _ | .leave => checking

/-- The acts of a label one after the other. -/
def Ticking.step (s : Ticking ι) (label : Label ι) : Ticking ι where
  timers := (s.acts label).foldl Timers.act s.timers
  checking := (s.acts label).foldl Act.checking s.checking

/-- All acts of a schedule. -/
def Ticking.history : Ticking ι → List (Label ι) → List (Act ι)
  | _, [] => []
  | s, label :: l => s.acts label ++ (s.step label).history l

/-- The history of a schedule goes on with that of its continuation. -/
theorem Ticking.history_append (s : Ticking ι) (l l' : List (Label ι)) :
    s.history (l ++ l') = s.history l ++ (Run.after Ticking.step s l).history l' := by
  induction l generalizing s with
  | nil => rfl
  | cons label l ih =>
    rw [List.cons_append, Ticking.history, Ticking.history, ih, Run.after_cons, List.append_assoc]

/-! ### The loop as a whole -/

omit [DecidableEq ι] in
/-- Commands and timers that leave their list do not end the check. -/
theorem foldl_checking_commands (commands : List (Command ι)) (checking : Bool) :
    (commands.map Act.command).foldl Act.checking checking = checking := by
  induction commands with
  | nil => rfl
  | cons cmd commands ih => exact ih

/-- A turn in which a callback runs does not end the check. -/
theorem Timers.turn_checking {k : Timers ι} {i : ι} (hdue : k.due = some i)
    (commands : List (Command ι)) (checking : Bool) :
    (k.turn commands).foldl Act.checking checking = checking := by
  have hcommands := foldl_checking_commands commands checking
  simp only [Timers.turn, hdue]
  split_ifs
  · exact hcommands
  · rw [List.foldl_append, List.foldl_cons]
    simp only [Act.checking, List.foldl_cons, List.foldl_nil]
    exact hcommands
  · rw [List.foldl_append, List.foldl_cons]
    simp only [Act.checking, List.foldl_cons, List.foldl_nil]
    exact hcommands

/-- The commands of a callback as acts. -/
theorem foldl_act_commands (k : Timers ι) (commands : List (Command ι)) :
    (commands.map Act.command).foldl Timers.act k = commands.foldl Timers.command k := by
  rw [List.foldl_map]
  rfl

/-- The timers after a turn in which a callback runs. -/
theorem Timers.foldl_turn {k : Timers ι} {i : ι} (hdue : k.due = some i)
    (commands : List (Command ι)) :
    (k.turn commands).foldl Timers.act k =
      let k := commands.foldl Timers.command (k.act (.expire i))
      if k.temporary = none then k
      else if (k.timer i).periodic ∧ (k.timer i).activated then
        { k with temporary := none }.rtTimerStart i
      else { k with temporary := none } := by
  have hcalled : (Act.expire i :: commands.map .command).foldl Timers.act k =
      commands.foldl Timers.command (k.act (.expire i)) := by
    rw [List.foldl_cons, foldl_act_commands]
  simp only [Timers.turn, hdue, hcalled]
  split_ifs
  · exact hcalled
  · rw [List.foldl_append, hcalled]
    rfl
  · rw [List.foldl_append, hcalled]
    rfl

/-- The loop of the check takes one turn after the other. -/
theorem Timers.checkLoop_turn (callback : ι → σ → σ × List (Command ι)) (fuel : ℕ)
    (k : Timers ι) (s : σ) :
    Timers.checkLoop callback (fuel + 1) k s =
      match k.due with
      | none => some (k, s)
      | some i => Timers.checkLoop callback fuel
          ((k.turn (callback i s).2).foldl Timers.act k) (callback i s).1 := by
  rw [Timers.checkLoop_succ]
  cases hlist : k.list with
  | nil => simp only [Timers.due, hlist]
  | cons e entries =>
    obtain ⟨timeout, i⟩ := e
    by_cases hnow : Wrap.sub (2 ^ 32) k.tick timeout < halfTick
    · have hdue : k.due = some i := by
        simp only [Timers.due, hlist, if_pos hnow]
      simp only [if_pos hnow, hdue]
      rw [Timers.foldl_turn hdue]
      rfl
    · simp only [Timers.due, hlist, if_neg hnow]

/-- A check that returns has taken some turns and ended. -/
theorem Timers.checkLoop_eq_turns {callback : ι → σ → σ × List (Command ι)} {fuel : ℕ} :
    ∀ {k k' : Timers ι} {s s' : σ}, Timers.checkLoop callback fuel k s = some (k', s') →
      ∃ turns : List (List (Command ι)),
        Run.after Ticking.step ⟨k, true⟩ (turns.map Label.turn) = ⟨k', false⟩ := by
  induction fuel with
  | zero =>
    intro k k' s s' h
    simp [Timers.checkLoop] at h
  | succ fuel ih =>
    intro k k' s s' h
    rw [Timers.checkLoop_turn] at h
    cases hdue : k.due with
    | none =>
      rw [hdue] at h
      obtain ⟨rfl, rfl⟩ := Prod.mk.inj (Option.some.inj h)
      refine ⟨[[]], ?_⟩
      simp only [List.map_cons, List.map_nil, Run.after_cons, Run.after_nil, Ticking.step,
        Ticking.acts, if_true, Timers.turn, hdue, List.foldl_cons, List.foldl_nil, Timers.act,
        Act.checking]
    | some i =>
      rw [hdue] at h
      obtain ⟨turns, hturns⟩ := ih h
      refine ⟨(callback i s).2 :: turns, ?_⟩
      rw [List.map_cons, Run.after_cons, ← hturns]
      have hchecking := Timers.turn_checking hdue (callback i s).2 true
      simp only [Ticking.step, Ticking.acts, if_true, hchecking]

/-- Every run of the kernel whose checks return is a run one turn at a time. -/
theorem Timers.run_eq_after {callback : ι → σ → σ × List (Command ι)} (l : List (Event ι)) :
    ∀ {k k' : Timers ι} {s s' : σ}, Timers.run callback l (k, s) = some (k', s') →
      ∃ l', Run.after Ticking.step ⟨k, false⟩ l' = ⟨k', false⟩ := by
  induction l with
  | nil =>
    intro k k' s s' h
    obtain ⟨rfl, rfl⟩ := Prod.mk.inj (Option.some.inj h)
    exact ⟨[], rfl⟩
  | cons event l ih =>
    intro k k' s s' h
    unfold Timers.run at h
    rw [List.foldlM_cons] at h
    obtain ⟨⟨k₁, s₁⟩, hstep, hrun⟩ := Option.bind_eq_some_iff.mp h
    obtain ⟨rest, hrest⟩ := ih hrun
    cases event with
    | command c =>
      obtain ⟨rfl, rfl⟩ := Prod.mk.inj (Option.some.inj hstep)
      exact ⟨.command c :: rest, hrest⟩
    | tick fuel =>
      obtain ⟨turns, hturns⟩ := Timers.checkLoop_eq_turns hstep
      refine ⟨.tick :: (turns.map Label.turn ++ rest), ?_⟩
      rw [Run.after_cons, Run.after_append, ← hrest]
      exact congrArg (Run.after Ticking.step · rest) hturns

/-! ## The same acts on the clock -/

/-- The clock after an act. -/
def Clock.act (c : Clock ι) : Act ι → Clock ι
  | .tick => { c with now := c.now + 1 }
  | .expire i => c.expire i
  | .command cmd => c.command cmd
  | .leave => { c with temporary := none }
  | .finish => c

/-- When an act is possible: ticks come outside of checks, a check calls the callback of the
first timer if it is due, and ends when nothing is due. -/
def Clock.Allows (c : Clock ι) (checking : Bool) : Act ι → Prop
  | .tick => checking = false
  | .expire i => ∃ t, c.queue.entries.head? = some (t, i) ∧ t ≤ c.now
  | .command _ => True
  | .leave => True
  | .finish => ∀ e ∈ c.queue.entries, c.now < e.1

/-- The acts are possible one after the other. -/
def Clock.Performs : Clock ι → Bool → List (Act ι) → Prop
  | _, _, [] => True
  | c, checking, a :: acts =>
    c.Allows checking a ∧ (c.act a).Performs (a.checking checking) acts

/-- Acts in sequence are possible when each part is. -/
theorem Clock.performs_append {c : Clock ι} {checking : Bool} {acts acts' : List (Act ι)} :
    c.Performs checking (acts ++ acts') ↔ c.Performs checking acts ∧
      (acts.foldl Clock.act c).Performs (acts.foldl Act.checking checking) acts' := by
  induction acts generalizing c checking with
  | nil => simp [Clock.Performs]
  | cons a acts ih => rw [List.cons_append, Clock.Performs, Clock.Performs, ih, and_assoc]; rfl

/-- An act that is neither a tick nor done by the loop itself. -/
def Act.Free : Act ι → Prop
  | .command _ | .leave => True
  | .tick | .expire _ | .finish => False

/-- Commands and timers that leave their list are always possible. -/
theorem Clock.performs_free {c : Clock ι} {checking : Bool} {acts : List (Act ι)}
    (hfree : ∀ a ∈ acts, a.Free) : c.Performs checking acts := by
  induction acts generalizing c checking with
  | nil => trivial
  | cons a acts ih =>
    refine ⟨?_, ih fun a' ha' => hfree a' (List.mem_cons_of_mem _ ha')⟩
    have ha := hfree a (by simp)
    cases a with
    | command cmd => trivial
    | leave => trivial
    | _ => exact ha.elim

/-- The acts of a turn in which a callback runs. -/
theorem Timers.turn_eq_cons {k : Timers ι} {i : ι} (hdue : k.due = some i)
    (commands : List (Command ι)) :
    ∃ acts, k.turn commands = .expire i :: acts ∧ ∀ a ∈ acts, a.Free := by
  have hcommands : ∀ a ∈ commands.map Act.command, a.Free := by
    intro a ha
    obtain ⟨cmd, -, rfl⟩ := List.mem_map.mp ha
    trivial
  simp only [Timers.turn, hdue]
  split_ifs
  · exact ⟨_, rfl, hcommands⟩
  · refine ⟨_, List.cons_append, ?_⟩
    intro a ha
    rcases List.mem_append.mp ha with ha | ha
    · exact hcommands a ha
    · simp only [List.mem_cons, List.not_mem_nil, or_false] at ha
      rcases ha with rfl | rfl <;> trivial
  · refine ⟨_, List.cons_append, ?_⟩
    intro a ha
    rcases List.mem_append.mp ha with ha | ha
    · exact hcommands a ha
    · obtain rfl := List.mem_singleton.mp ha
      trivial

/-- The loop of a check makes no tick. -/
theorem Timers.turn_ne_tick (k : Timers ι) (commands : List (Command ι)) :
    ∀ a ∈ k.turn commands, a ≠ .tick := by
  rintro a ha rfl
  cases hdue : k.due with
  | none => simp [Timers.turn, hdue] at ha
  | some i =>
    obtain ⟨acts, hacts, hfree⟩ := Timers.turn_eq_cons hdue commands
    rw [hacts] at ha
    rcases List.mem_cons.mp ha with hexpire | ha
    · simp at hexpire
    · exact hfree _ ha

variable {lo : ℕ} {k : Timers ι} {c : Clock ι} {s : Ticking ι}

/-- An act of a check takes no time. -/
theorem Sim.act (h : Sim lo k c) {a : Act ι} (htick : a ≠ .tick) : Sim lo (k.act a) (c.act a) := by
  cases a with
  | tick => exact absurd rfl htick
  | expire i => exact h.expire i
  | command cmd => exact h.command cmd
  | leave => exact h.setTemporary none
  | finish => exact h

/-- The acts of a check keep the kernel an image of the clock. -/
theorem Sim.acts (h : Sim lo k c) {acts : List (Act ι)} (htick : ∀ a ∈ acts, a ≠ .tick) :
    Sim lo (acts.foldl Timers.act k) (acts.foldl Clock.act c) := by
  induction acts generalizing k c with
  | nil => exact h
  | cons a acts ih =>
    exact ih (h.act (htick a (by simp))) fun a' ha' => htick a' (List.mem_cons_of_mem _ ha')

omit [DecidableEq ι] in
/-- The kernel finds a timer due when the first one of the clock is. -/
theorem Sim.due_eq_some (h : Sim lo k c) {i : ι} (hdue : k.due = some i) :
    ∃ t, c.queue.entries.head? = some (t, i) ∧ t ≤ c.now := by
  unfold Timers.due at hdue
  rw [h.list] at hdue
  cases hentries : c.queue.entries with
  | nil => simp [hentries] at hdue
  | cons e entries =>
    have hiff := h.due_iff (e := e) (by simp [hentries])
    simp only [hentries, List.map_cons, wrapped] at hdue hiff
    split_ifs at hdue with hnow
    obtain rfl := Option.some.inj hdue
    exact ⟨e.1, rfl, hiff.mp hnow⟩

omit [DecidableEq ι] in
/-- The kernel finds no timer due when all timeouts of the clock lie ahead. -/
theorem Sim.due_eq_none (h : Sim lo k c) (hdue : k.due = none) :
    ∀ e ∈ c.queue.entries, c.now < e.1 := by
  unfold Timers.due at hdue
  rw [h.list] at hdue
  cases hentries : c.queue.entries with
  | nil => simp
  | cons e entries =>
    have hiff := h.due_iff (e := e) (by simp [hentries])
    simp only [hentries, List.map_cons, wrapped] at hdue hiff
    split_ifs at hdue with hnow
    have hfirst : c.now < e.1 := not_le.mp (mt hiff.mpr hnow)
    have hsorted := c.queue.sorted
    rw [hentries] at hsorted
    intro e' he'
    rcases List.mem_cons.mp he' with rfl | he'
    · exact hfirst
    · exact hfirst.trans_le ((List.pairwise_cons.mp hsorted).1 e' he')

/-- The clock that the kernel follows; outside of a check all timeouts lie ahead. -/
def Ticking.Follows (s : Ticking ι) (c : Clock ι) : Prop :=
  ∃ lo, Sim lo s.timers c ∧ (s.checking = false → lo = c.now)

/-- What the kernel does is possible on the clock, and the kernel goes on to follow it. -/
theorem Ticking.Follows.step (h : s.Follows c) (label : Label ι) :
    c.Performs s.checking (s.acts label) ∧
      (s.step label).Follows ((s.acts label).foldl Clock.act c) := by
  obtain ⟨lo, hsim, hlo⟩ := h
  cases hchecking : s.checking with
  | false =>
    obtain rfl := hlo hchecking
    cases label with
    | command cmd =>
      simp only [Ticking.step, Ticking.acts, hchecking, Bool.false_eq_true, if_false]
      refine ⟨⟨trivial, trivial⟩, c.now, hsim.command cmd, fun _ => ?_⟩
      exact (c.command_now cmd).symm
    | tick =>
      simp only [Ticking.step, Ticking.acts, hchecking, Bool.false_eq_true, if_false]
      refine ⟨⟨rfl, trivial⟩, c.now, hsim.ticked, fun hends => ?_⟩
      simp [Act.checking] at hends
    | turn commands =>
      simp only [Ticking.step, Ticking.acts, hchecking, Bool.false_eq_true, if_false]
      exact ⟨trivial, c.now, hsim, fun _ => rfl⟩
  | true =>
    cases label with
    | command cmd =>
      simp only [Ticking.step, Ticking.acts, hchecking, if_true]
      exact ⟨trivial, lo, hsim, fun hends => by simp at hends⟩
    | tick =>
      simp only [Ticking.step, Ticking.acts, hchecking, if_true]
      exact ⟨trivial, lo, hsim, fun hends => by simp at hends⟩
    | turn commands =>
      simp only [Ticking.step, Ticking.acts, hchecking, if_true]
      cases hdue : s.timers.due with
      | none =>
        have hahead := hsim.due_eq_none hdue
        simp only [Timers.turn, hdue]
        exact ⟨⟨hahead, trivial⟩, c.now, hsim.ahead fun e he => (hahead e he).le, fun _ => rfl⟩
      | some i =>
        obtain ⟨acts, hacts, hfree⟩ := Timers.turn_eq_cons hdue commands
        refine ⟨?_, lo, hsim.acts (Timers.turn_ne_tick _ _), fun hends => ?_⟩
        · rw [hacts]
          exact ⟨hsim.due_eq_some hdue, Clock.performs_free hfree⟩
        · rw [Timers.turn_checking hdue] at hends
          simp at hends

/-- The acts of a schedule are possible on the clock. -/
theorem Ticking.Follows.after (h : s.Follows c) (l : List (Label ι)) :
    c.Performs s.checking (s.history l) ∧
      (Run.after Ticking.step s l).Follows ((s.history l).foldl Clock.act c) ∧
      (Run.after Ticking.step s l).checking =
        (s.history l).foldl Act.checking s.checking := by
  induction l generalizing s c with
  | nil => exact ⟨trivial, h, rfl⟩
  | cons label l ih =>
    obtain ⟨hperforms, hfollows⟩ := h.step label
    obtain ⟨hperforms', hfollows', hchecking⟩ := ih hfollows
    rw [Ticking.history, Clock.performs_append, List.foldl_append, List.foldl_append]
    exact ⟨⟨hperforms, hperforms'⟩, hfollows', hchecking⟩

omit [DecidableEq ι] in
/-- With no timer active the kernel follows the clock. -/
theorem follows_init {timer : ι → RtTimer} (hshort : ∀ i, (timer i).initTick < halfTick) :
    Ticking.Follows ⟨.init timer, false⟩ (Clock.init timer) :=
  ⟨0, (agree_init hshort ()).1, fun _ => rfl⟩

/-! ## Expiry at the right tick -/

/-- The commands that start or stop a timer. -/
def Command.Touches (i : ι) : Command ι → Prop
  | .start j | .stop j => j = i
  | .setTime _ _ _ | .setPeriodic _ _ => False

/-- The act starts or stops a timer. -/
def Act.Touches (i : ι) : Act ι → Prop
  | .command cmd => cmd.Touches i
  | .tick | .expire _ | .leave | .finish => False

/-- The act is a tick. -/
def Act.isTick : Act ι → Bool
  | .tick => true
  | .expire _ | .command _ | .leave | .finish => false

/-- Nobody starts or stops the timer before its callback has run. -/
def Untouched (i : ι) (acts : List (Act ι)) : Prop :=
  ∀ before a after, acts = before ++ a :: after → a.Touches i → .expire i ∈ before

/-- The time that a timer has been given last. -/
def lastTime (timer : ι → RtTimer) (i : ι) (acts : List (Act ι)) : ℕ :=
  acts.foldl (fun time a =>
    match a with
    | .command (.setTime j time' _) => if j = i then time' else time
    | _ => time) (timer i).initTick

/-- The timer waits for a tick that has not come, or whose check runs. -/
structure Clock.Awaits (c : Clock ι) (checking : Bool) (i : ι) (t : ℕ) : Prop where
  armed : c.queue.Armed i t
  due : c.now < t ∨ c.now = t ∧ checking = true

/-- The time of a timer is the one it has been given last. -/
theorem Clock.initTick_act (c : Clock ι) (a : Act ι) (i : ι) :
    ((c.act a).timer i).initTick = lastTime c.timer i [a] := by
  cases a with
  | tick => rfl
  | leave => rfl
  | finish => rfl
  | expire j =>
    simp only [Clock.act, Clock.expire, Clock.remove, lastTime, List.foldl_cons, List.foldl_nil]
    split_ifs
    · rfl
    · exact (activate_fixed c.timer j false i).1
  | command cmd =>
    cases cmd with
    | start j => exact (activate_fixed c.timer j true i).1
    | stop j =>
      simp only [Clock.act, Clock.command, lastTime, List.foldl_cons, List.foldl_nil]
      split_ifs
      · exact (activate_fixed c.timer j false i).1
      · rfl
    | setTime j time short =>
      simp only [Clock.act, Clock.command, lastTime, List.foldl_cons, List.foldl_nil]
      by_cases hj : j = i
      · subst hj
        simp
      · rw [Function.update_of_ne (Ne.symm hj), if_neg hj]
    | setPeriodic j periodic =>
      simp only [Clock.act, Clock.command, lastTime, List.foldl_cons, List.foldl_nil]
      by_cases hj : j = i
      · subst hj
        simp
      · rw [Function.update_of_ne (Ne.symm hj)]

/-- The time of a timer after some acts. -/
theorem Clock.initTick_acts (c : Clock ι) (acts : List (Act ι)) (i : ι) :
    ((acts.foldl Clock.act c).timer i).initTick = lastTime c.timer i acts := by
  induction acts generalizing c with
  | nil => rfl
  | cons a acts ih =>
    rw [List.foldl_cons, ih]
    unfold lastTime
    rw [Clock.initTick_act]
    rfl

/-- A command that neither starts nor stops the timer. -/
theorem Clock.armed_command {i : ι} {t : ℕ} {cmd : Command ι} (htouches : ¬ cmd.Touches i)
    (harmed : c.queue.Armed i t) : (c.command cmd).queue.Armed i t := by
  cases cmd with
  | start j => exact TimerQueue.armed_start.mpr (Or.inr ⟨harmed, Ne.symm htouches⟩)
  | stop j =>
    simp only [Clock.command]
    split_ifs
    · exact TimerQueue.armed_stop.mpr ⟨harmed, Ne.symm htouches⟩
    · exact harmed
  | setTime j time short => exact harmed
  | setPeriodic j periodic => exact harmed

/-- What the acts of others do to a timer that waits. -/
theorem Clock.Awaits.act {checking : Bool} {i : ι} {t : ℕ} (h : c.Awaits checking i t) {a : Act ι}
    (hallows : c.Allows checking a) (htouches : ¬ a.Touches i) (hother : a ≠ .expire i) :
    (c.act a).Awaits (a.checking checking) i t ∧
      (c.act a).now = c.now + [a].countP Act.isTick := by
  obtain ⟨harmed, hdue⟩ := h
  cases a with
  | tick =>
    have hlater : c.now < t := by
      rcases hdue with hlater | ⟨-, hchecking⟩
      · exact hlater
      · rw [show checking = false from hallows] at hchecking
        simp at hchecking
    refine ⟨⟨harmed, ?_⟩, rfl⟩
    rcases Nat.lt_or_ge (c.now + 1) t with hmore | hlast
    · exact Or.inl hmore
    · exact Or.inr ⟨le_antisymm hlater hlast, rfl⟩
  | expire j =>
    have hne : i ≠ j := by
      rintro rfl
      exact hother rfl
    exact ⟨⟨TimerQueue.armed_stop.mpr ⟨harmed, hne⟩, hdue⟩, rfl⟩
  | command cmd =>
    have hnow : (c.act (.command cmd)).now = c.now := c.command_now cmd
    exact ⟨⟨Clock.armed_command htouches harmed, hnow ▸ hdue⟩, hnow⟩
  | leave => exact ⟨⟨harmed, hdue⟩, rfl⟩
  | finish => exact ⟨⟨harmed, Or.inl (hallows _ harmed)⟩, rfl⟩

/-- The timer goes on to wait until its callback runs, and time passes with the ticks. -/
theorem Clock.Awaits.acts {checking : Bool} {i : ι} {t : ℕ} (h : c.Awaits checking i t)
    {acts : List (Act ι)} (hperforms : c.Performs checking acts)
    (htouches : ∀ a ∈ acts, ¬ a.Touches i) (hother : .expire i ∉ acts) :
    (acts.foldl Clock.act c).Awaits (acts.foldl Act.checking checking) i t ∧
      (acts.foldl Clock.act c).now = c.now + acts.countP Act.isTick := by
  induction acts generalizing c checking with
  | nil => exact ⟨h, rfl⟩
  | cons a acts ih =>
    obtain ⟨hallows, hperforms⟩ := hperforms
    obtain ⟨hne, hothers⟩ := not_or.mp (mt List.mem_cons.mpr hother)
    obtain ⟨hawaits, hnow⟩ := h.act hallows (htouches a (by simp)) (Ne.symm hne)
    obtain ⟨hlast, hnow'⟩ := ih hawaits hperforms
      (fun a' ha' => htouches a' (List.mem_cons_of_mem _ ha')) hothers
    refine ⟨hlast, ?_⟩
    rw [List.foldl_cons, hnow', hnow, add_assoc, ← List.countP_append, List.singleton_append]

omit [DecidableEq ι] in
/-- Before the callback has run there is no act that starts or stops the timer. -/
theorem Untouched.forall {i : ι} {acts rest : List (Act ι)} (h : Untouched i (acts ++ rest))
    (hother : .expire i ∉ acts) : ∀ a ∈ acts, ¬ a.Touches i := by
  intro a ha htouches
  obtain ⟨before, after, rfl⟩ := List.append_of_mem ha
  have hbefore := h before a (after ++ rest) (by simp) htouches
  exact hother (List.mem_append_left _ hbefore)

omit [DecidableEq ι] in
/-- A timer that is never started or stopped again is untouched. -/
theorem untouched_of_forall {i : ι} {acts : List (Act ι)} (h : ∀ a ∈ acts, ¬ a.Touches i) :
    Untouched i acts := by
  intro before a after hacts htouches
  exact absurd htouches (h a (by rw [hacts]; simp))

omit [DecidableEq ι] in
/-- Until its callback has run a timer stays untouched in what follows. -/
theorem Untouched.append {i : ι} {acts rest : List (Act ι)} (h : Untouched i (acts ++ rest))
    (hother : .expire i ∉ acts) : Untouched i rest := by
  rintro before a after rfl htouches
  have hbefore := h (acts ++ before) a after (by simp) htouches
  rcases List.mem_append.mp hbefore with hearly | hbefore
  · exact absurd hearly hother
  · exact hbefore

omit [DecidableEq ι] in
/-- A check that calls the callback of a timer that waits does it at the right tick. -/
theorem Clock.Awaits.expire {checking : Bool} {i : ι} {t : ℕ} (h : c.Awaits checking i t)
    (hallows : c.Allows checking (.expire i)) : c.now = t := by
  obtain ⟨t', hfirst, hnow⟩ := hallows
  have harmed : c.queue.Armed i t' := List.mem_of_head? hfirst
  rw [← h.armed.unique harmed] at hnow
  rcases h.due with hlater | ⟨heq, -⟩
  · omega
  · exact heq

/-! ### The callback runs -/

/-- Between two turns of the loop, a timer that is due does not fall back in the queue. -/
theorem Clock.place_act {i : ι} {t : ℕ} (harmed : c.queue.Armed i t) (hdue : t ≤ c.now) {a : Act ι}
    (hfree : a.Free) (htouches : ¬ a.Touches i) :
    (c.act a).queue.Armed i t ∧ (c.act a).now = c.now ∧
      TimerQueue.place i (c.act a).queue.entries ≤ TimerQueue.place i c.queue.entries := by
  cases a with
  | tick => exact hfree.elim
  | expire j => exact hfree.elim
  | finish => exact hfree.elim
  | leave => exact ⟨harmed, rfl, le_rfl⟩
  | command cmd =>
    refine ⟨Clock.armed_command htouches harmed, c.command_now cmd, ?_⟩
    cases cmd with
    | start j =>
      exact TimerQueue.place_start_le harmed (hdue.trans (Nat.le_add_right ..)) (Ne.symm htouches)
    | stop j =>
      simp only [Clock.act, Clock.command]
      split_ifs
      · exact TimerQueue.place_stop_le _ (Ne.symm htouches)
      · exact le_rfl
    | setTime j time short => exact le_rfl
    | setPeriodic j periodic => exact le_rfl

/-- Nor does it fall back in a whole turn. -/
theorem Clock.place_acts {i : ι} {t : ℕ} (harmed : c.queue.Armed i t) (hdue : t ≤ c.now)
    {acts : List (Act ι)} (hfree : ∀ a ∈ acts, a.Free) (htouches : ∀ a ∈ acts, ¬ a.Touches i) :
    (acts.foldl Clock.act c).queue.Armed i t ∧ (acts.foldl Clock.act c).now = c.now ∧
      TimerQueue.place i (acts.foldl Clock.act c).queue.entries ≤
        TimerQueue.place i c.queue.entries := by
  induction acts generalizing c with
  | nil => exact ⟨harmed, rfl, le_rfl⟩
  | cons a acts ih =>
    obtain ⟨harmed', hnow, hplace⟩ :=
      Clock.place_act harmed hdue (hfree a (by simp)) (htouches a (by simp))
    obtain ⟨hlast, hnow', hplace'⟩ := ih harmed' (hnow ▸ hdue)
      (fun a' ha' => hfree a' (List.mem_cons_of_mem _ ha'))
      (fun a' ha' => htouches a' (List.mem_cons_of_mem _ ha'))
    exact ⟨hlast, hnow'.trans hnow, hplace'.trans hplace⟩

omit [DecidableEq ι] in
/-- A kernel with a timer that is due finds one. -/
theorem Sim.due_ne_none (h : Sim lo k c) {i : ι} {t : ℕ} (harmed : c.queue.Armed i t)
    (hdue : t ≤ c.now) : k.due ≠ none := fun hnone =>
  absurd (h.due_eq_none hnone _ harmed) (not_lt.mpr hdue)

/-- One turn of a check: the callback of a timer that is due runs, or the timer moves up. -/
theorem Ticking.Follows.turn (h : s.Follows c) (hchecking : s.checking = true) {i : ι} {t : ℕ}
    (harmed : c.queue.Armed i t) (hdue : t ≤ c.now) (commands : List (Command ι))
    (htouches : ∀ a ∈ s.acts (.turn commands), ¬ a.Touches i)
    (hother : .expire i ∉ s.acts (.turn commands)) :
    ∃ c', (s.step (.turn commands)).Follows c' ∧ (s.step (.turn commands)).checking = true ∧
      c'.queue.Armed i t ∧ t ≤ c'.now ∧
      TimerQueue.place i c'.queue.entries < TimerQueue.place i c.queue.entries := by
  have hfollows := (h.step (.turn commands)).2
  obtain ⟨lo, hsim, -⟩ := h
  obtain ⟨j, hj⟩ := Option.ne_none_iff_exists'.mp (hsim.due_ne_none harmed hdue)
  obtain ⟨t', hfirst, -⟩ := hsim.due_eq_some hj
  obtain ⟨acts, hacts, hfree⟩ := Timers.turn_eq_cons hj commands
  have hturn : s.acts (.turn commands) = .expire j :: acts := by
    rw [Ticking.acts, if_pos hchecking, hacts]
  rw [hturn] at hother htouches hfollows
  obtain ⟨hne, hrest⟩ := not_or.mp (mt List.mem_cons.mpr hother)
  have hne : i ≠ j := by
    rintro rfl
    exact hne rfl
  obtain ⟨harmed', hnow, hplace⟩ := Clock.place_acts (c := c.expire j)
    (TimerQueue.armed_stop.mpr ⟨harmed, hne⟩) hdue hfree
    fun a ha => htouches a (List.mem_cons_of_mem _ ha)
  refine ⟨_, hfollows, ?_, harmed', hdue.trans_eq hnow.symm, ?_⟩
  · have hstays := Timers.turn_checking hj commands true
    simp only [Ticking.step, Ticking.acts, hchecking, if_true, hstays]
  · exact hplace.trans_lt (TimerQueue.place_stop_lt hfirst hne)

/-- The loop comes to every timer that is due. -/
theorem Ticking.Follows.expires (h : s.Follows c) (hchecking : s.checking = true) {i : ι} {t : ℕ}
    (harmed : c.queue.Armed i t) (hdue : t ≤ c.now) {turns : List (List (Command ι))}
    (huntouched : Untouched i (s.history (turns.map .turn)))
    (hturns : TimerQueue.place i c.queue.entries < turns.length) :
    .expire i ∈ s.history (turns.map .turn) := by
  induction turns generalizing s c with
  | nil => simp at hturns
  | cons commands turns ih =>
    rw [List.map_cons, Ticking.history] at huntouched ⊢
    by_cases hother : .expire i ∈ s.acts (.turn commands)
    · exact List.mem_append_left _ hother
    · obtain ⟨c', hfollows, hchecking', harmed', hdue', hplace⟩ :=
        h.turn hchecking harmed hdue commands (huntouched.forall hother) hother
      refine List.mem_append_right _ (ih hfollows hchecking' harmed' hdue'
        (huntouched.append hother) ?_)
      rw [List.length_cons] at hturns
      omega

/-- The turns of a check contain no tick. -/
theorem Ticking.countP_turns (s : Ticking ι) (turns : List (List (Command ι))) :
    (s.history (turns.map .turn)).countP Act.isTick = 0 := by
  induction turns generalizing s with
  | nil => rfl
  | cons commands turns ih =>
    rw [List.map_cons, Ticking.history, List.countP_append, ih, Nat.add_zero]
    rw [List.countP_eq_zero]
    intro a ha htick
    cases hchecking : s.checking with
    | false => simp [Ticking.acts, hchecking] at ha
    | true =>
      rw [Ticking.acts, if_pos hchecking] at ha
      cases a with
      | tick => exact Timers.turn_ne_tick _ _ _ ha rfl
      | _ => simp [Act.isTick] at htick

/-- A timer that has been started waits for the tick that its time says. -/
theorem Clock.awaits_started {timer : ι → RtTimer} {i : ι} {before acts : List (Act ι)}
    (hperforms : (Clock.init timer).Performs false (before ++ .command (.start i) :: acts))
    (htime : 0 < lastTime timer i before) (htouches : ∀ a ∈ acts, ¬ a.Touches i)
    (hother : .expire i ∉ acts) :
    ∃ t now, t = now + lastTime timer i before ∧
      ((before ++ .command (.start i) :: acts).foldl Clock.act (Clock.init timer)).Awaits
        ((before ++ .command (.start i) :: acts).foldl Act.checking false) i t ∧
      ((before ++ .command (.start i) :: acts).foldl Clock.act (Clock.init timer)).now =
        now + acts.countP Act.isTick := by
  obtain ⟨-, -, hperforms⟩ := Clock.performs_append.mp hperforms
  have hlast : ((before.foldl Clock.act (Clock.init timer)).timer i).initTick =
      lastTime timer i before := Clock.initTick_acts (Clock.init timer) before i
  rw [List.foldl_append, List.foldl_append, List.foldl_cons, List.foldl_cons]
  generalize before.foldl Clock.act (Clock.init timer) = c at hperforms hlast ⊢
  have hawaits : (c.start i).Awaits (before.foldl Act.checking false) i
      (c.now + lastTime timer i before) := by
    rw [← hlast]
    refine ⟨TimerQueue.armed_start.mpr (Or.inl ⟨rfl, rfl⟩), Or.inl ?_⟩
    rw [hlast]
    exact Nat.lt_add_of_pos_right htime
  obtain ⟨hstill, hnow⟩ := hawaits.acts hperforms htouches hother
  exact ⟨_, c.now, rfl, hstill, hnow⟩

section Started

variable {timer : ι → RtTimer} {i : ι} {before : List (Act ι)}

/-- The callback runs in the check of the tick that the time of the timer says. -/
theorem countP_of_expire {l : List (Label ι)} {mid rest : List (Act ι)}
    (hshort : ∀ i, (timer i).initTick < halfTick)
    (hstart : Ticking.history ⟨.init timer, false⟩ l =
      before ++ .command (.start i) :: (mid ++ .expire i :: rest))
    (huntouched : Untouched i (mid ++ .expire i :: rest)) (htime : 0 < lastTime timer i before)
    (hother : .expire i ∉ mid) : mid.countP Act.isTick = lastTime timer i before := by
  have hperforms := ((follows_init hshort).after l).1
  rw [hstart, ← List.cons_append, ← List.append_assoc] at hperforms
  obtain ⟨hmid, hallows, -⟩ := Clock.performs_append.mp hperforms
  obtain ⟨t, now, rfl, hawaits, hnow⟩ :=
    Clock.awaits_started hmid htime (huntouched.forall hother) hother
  have hdue := hawaits.expire hallows
  rw [hnow] at hdue
  exact Nat.add_left_cancel hdue

/-- When the time of the timer has passed, the loop of the check comes to it. -/
theorem expire_mem_turns {l : List (Label ι)} {mid : List (Act ι)}
    {turns : List (List (Command ι))} (hshort : ∀ i, (timer i).initTick < halfTick)
    (hstart : Ticking.history ⟨.init timer, false⟩ l = before ++ .command (.start i) :: mid)
    (hturns : (Run.after Ticking.step ⟨.init timer, false⟩ l).timers.list.length ≤ turns.length)
    (huntouched : Untouched i (mid ++
      Ticking.history (Run.after Ticking.step ⟨.init timer, false⟩ l) (turns.map .turn)))
    (htime : 0 < lastTime timer i before) (hother : .expire i ∉ mid)
    (hticks : lastTime timer i before ≤ mid.countP Act.isTick) :
    .expire i ∈
      Ticking.history (Run.after Ticking.step ⟨.init timer, false⟩ l) (turns.map .turn) := by
  obtain ⟨hperforms, hfollows, hchecking⟩ := (follows_init hshort).after l
  rw [hstart] at hperforms hfollows hchecking
  obtain ⟨t, now, rfl, hawaits, hnow⟩ :=
    Clock.awaits_started hperforms htime (huntouched.forall hother) hother
  have hdue : ¬ ((before ++ .command (.start i) :: mid).foldl Clock.act
      (Clock.init timer)).now < now + lastTime timer i before := by omega
  have hcheck := (hawaits.due.resolve_left hdue).2
  refine hfollows.expires (hchecking.trans hcheck) hawaits.armed (not_lt.mp hdue)
    (huntouched.append hother) ?_
  obtain ⟨lo, hsim, -⟩ := hfollows
  rw [hsim.list, List.length_map] at hturns
  exact (TimerQueue.place_lt_length hawaits.armed).trans_le hturns

end Started

/-- A timer of the kernel that is started, by a thread, by a callback or again by the check, and
that nobody starts or stops before its callback has run: the callback runs in the check of the
tick that the time of the timer says, and not before, and the loop of this check comes to it in
at most as many turns as there are active timers. -/
theorem rtTimerStart_expires_on_time {timer : ι → RtTimer}
    (hshort : ∀ i, (timer i).initTick < halfTick) {i : ι} {l : List (Label ι)}
    {before after : List (Act ι)}
    (hstart : Ticking.history ⟨.init timer, false⟩ l =
      before ++ .command (.start i) :: after)
    (huntouched : Untouched i after) (htime : 0 < lastTime timer i before) :
    (∀ mid rest, after = mid ++ .expire i :: rest → .expire i ∉ mid →
        mid.countP Act.isTick = lastTime timer i before) ∧
      ∀ l' (turns : List (List (Command ι))), l = l' ++ turns.map .turn →
        (Run.after Ticking.step ⟨.init timer, false⟩ l').timers.list.length ≤ turns.length →
        lastTime timer i before ≤ after.countP Act.isTick → .expire i ∈ after := by
  constructor
  · rintro mid rest rfl hother
    exact countP_of_expire hshort hstart huntouched htime hother
  · rintro l' turns rfl hturns hticks
    rw [Ticking.history_append] at hstart
    have hnone := Ticking.countP_turns
      (Run.after Ticking.step ⟨.init timer, false⟩ l') turns
    -- A timer started within these turns would have its time before the next tick.
    have hearly : ∀ acts, Ticking.history (Run.after Ticking.step ⟨.init timer, false⟩ l')
        (turns.map .turn) ≠ acts ++ .command (.start i) :: after := by
      intro acts hacts
      rw [hacts, List.countP_append, List.countP_cons] at hnone
      omega
    rcases List.append_eq_append_iff.mp hstart with ⟨acts, -, hacts⟩ | ⟨acts, hhistory, hacts⟩
    · exact absurd hacts (hearly acts)
    · cases acts with
      | nil => exact absurd hacts.symm (hearly [])
      | cons a mid =>
        rw [List.cons_append, List.cons.injEq] at hacts
        obtain ⟨rfl, rfl⟩ := hacts
        by_cases hother : .expire i ∈ mid
        · exact List.mem_append_left _ hother
        · rw [List.countP_append, hnone, Nat.add_zero] at hticks
          exact List.mem_append_right _
            (expire_mem_turns hshort hhistory hturns huntouched htime hother hticks)

/-- The callback of the periodic timer starts the other one at the second tick, and goes on. -/
def blinkLabels : List (Label Bool) :=
  [.command (.start false), .tick, .turn [], .tick, .turn [.start true], .turn [], .tick,
    .turn [], .tick, .turn [], .turn [], .tick]

/-- A timer of three ticks that the callback of another one starts. -/
theorem rtTimerStart_expires_on_time_blink :
    ∃ before after,
      Ticking.history ⟨.init blinkTimer, false⟩
          (blinkLabels ++ [[.stop false], []].map .turn) =
        before ++ .command (.start true) :: after ∧
      (∀ mid rest, after = mid ++ .expire true :: rest → .expire true ∉ mid →
        mid.countP Act.isTick = 3) ∧ .expire true ∈ after := by
  have hstart : Ticking.history ⟨.init blinkTimer, false⟩
      (blinkLabels ++ [[.stop false], []].map .turn) =
        [.command (.start false), .tick, .finish, .tick, .expire false] ++
          .command (.start true) ::
            [.leave, .command (.start false), .finish, .tick, .finish, .tick, .expire false,
              .leave, .command (.start false), .finish, .tick, .expire true,
              .command (.stop false), .leave, .finish] := rfl
  have huntouched : Untouched true [.leave, .command (.start false), .finish, .tick, .finish,
      .tick, .expire false, .leave, .command (.start false), .finish, .tick, .expire true,
      .command (.stop false), .leave, .finish] :=
    untouched_of_forall (by simp [Act.Touches, Command.Touches])
  obtain ⟨hright, hruns⟩ := rtTimerStart_expires_on_time blinkTimer_short hstart huntouched
    (by decide)
  exact ⟨_, _, hstart, hright, hruns blinkLabels _ rfl (by decide) (by decide)⟩

end Saliwen.Kernel
