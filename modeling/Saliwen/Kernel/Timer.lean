import Mathlib.Algebra.Group.Nat.Defs
import Saliwen.Lib.TimerQueue
import Saliwen.Lib.Wrap

/-!
# The timers of the kernel

`rt_timer_start`, `rt_timer_stop`, `rt_timer_control` and `rt_timer_check` of `timer.c`, for hard
timers. Ticks are counted in 32 bits, and the list of active timers is kept in order by
differences of ticks. Callbacks run inside of the check and can start and stop timers, also the
one they belong to. The main result is that this refines a clock that never wraps around, for
any number of ticks.
-/

namespace Saliwen.Kernel

variable {ι σ : Type*} [DecidableEq ι]

/-! ## The source -/

/-- The part of `struct rt_timer` that is not about its place in a list. -/
structure RtTimer where
  initTick : ℕ
  periodic : Bool
  activated : Bool
  deriving DecidableEq, Repr

/-- `RT_TICK_MAX / 2`. -/
def halfTick : ℕ := 2147483647

/-- What timers can be asked for; a time that `rt_timer_control` is given passes its assertion. -/
inductive Command (ι : Type*) where
  | start (i : ι)
  | stop (i : ι)
  | setTime (i : ι) (time : ℕ) (short : time < halfTick)
  | setPeriodic (i : ι) (periodic : Bool)

/-- `rt_tick`, the timers, `_timer_list` with the timeout ticks, and the timer on the list that
`rt_timer_check` keeps during a callback. -/
structure Timers (ι : Type*) where
  tick : ℕ
  timer : ι → RtTimer
  list : List (ℕ × ι)
  temporary : Option ι

/-- A change of the flag `RT_TIMER_FLAG_ACTIVATED`. -/
def activate (timer : ι → RtTimer) (i : ι) (activated : Bool) : ι → RtTimer :=
  Function.update timer i { timer i with activated }

/-- `_timer_remove`: the timer leaves whichever list it is on. -/
def Timers.timerRemove (k : Timers ι) (i : ι) : Timers ι :=
  { k with
    list := k.list.filter fun e => e.2 ≠ i
    temporary := if k.temporary = some i then none else k.temporary }

/-- The search and the insertion of `rt_timer_start`: the new timer comes behind those with the
same timeout. -/
def insertTimer (e : ℕ × ι) : List (ℕ × ι) → List (ℕ × ι)
  | [] => [e]
  | t :: list =>
    if Wrap.sub (2 ^ 32) t.1 e.1 = 0 then t :: insertTimer e list
    else if Wrap.sub (2 ^ 32) t.1 e.1 < halfTick then e :: t :: list
    else t :: insertTimer e list

/-- `rt_timer_start`. -/
def Timers.rtTimerStart (k : Timers ι) (i : ι) : Timers ι :=
  let k := k.timerRemove i
  { k with
    timer := activate k.timer i true
    list := insertTimer ((k.tick + (k.timer i).initTick) % 2 ^ 32, i) k.list }

/-- `rt_timer_stop`. -/
def Timers.rtTimerStop (k : Timers ι) (i : ι) : Timers ι :=
  if (k.timer i).activated then { k.timerRemove i with timer := activate k.timer i false } else k

/-- One command; the last two are cases of `rt_timer_control`. -/
def Timers.command (k : Timers ι) : Command ι → Timers ι
  | .start i => k.rtTimerStart i
  | .stop i => k.rtTimerStop i
  | .setTime i time _ =>
    { k with timer := Function.update k.timer i { k.timer i with initTick := time } }
  | .setPeriodic i periodic =>
    { k with timer := Function.update k.timer i { k.timer i with periodic } }

/-- The loop of `rt_timer_check`. A callback changes the state of its owner and gives commands. -/
def Timers.checkLoop (callback : ι → σ → σ × List (Command ι)) :
    ℕ → Timers ι → σ → Option (Timers ι × σ)
  | 0, _, _ => none
  | fuel + 1, k, s =>
    match k.list with
    | [] => some (k, s)
    | (timeout, i) :: _ =>
      if Wrap.sub (2 ^ 32) k.tick timeout < halfTick then
        let k := { k.timerRemove i with
          timer := if (k.timer i).periodic then k.timer else activate k.timer i false
          temporary := some i }
        let (s, commands) := callback i s
        let k := commands.foldl Timers.command k
        if k.temporary = none then Timers.checkLoop callback fuel k s
        else
          let k := { k with temporary := none }
          if (k.timer i).periodic ∧ (k.timer i).activated then
            Timers.checkLoop callback fuel (k.rtTimerStart i) s
          else Timers.checkLoop callback fuel k s
      else some (k, s)

/-- What happens to the timers: a command from a thread, or a tick, with the number of turns
that its check may take. -/
inductive Event (ι : Type*) where
  | command (c : Command ι)
  | tick (fuel : ℕ)

/-- One event; a tick is `rt_tick_increase` with its check. -/
def Timers.step (callback : ι → σ → σ × List (Command ι)) :
    Timers ι × σ → Event ι → Option (Timers ι × σ)
  | (k, s), .command c => some (k.command c, s)
  | (k, s), .tick fuel => Timers.checkLoop callback fuel { k with tick := (k.tick + 1) % 2 ^ 32 } s

/-- A sequence of events. -/
def Timers.run (callback : ι → σ → σ × List (Command ι)) (l : List (Event ι))
    (ks : Timers ι × σ) : Option (Timers ι × σ) :=
  l.foldlM (Timers.step callback) ks

/-! ## A clock that does not wrap around -/

/-- The same data, with a count of ticks and timeouts that grow for ever. -/
structure Clock (ι : Type*) where
  now : ℕ
  timer : ι → RtTimer
  queue : TimerQueue ι
  temporary : Option ι

/-- Start a timer at the end of its time. -/
def Clock.start (c : Clock ι) (i : ι) : Clock ι :=
  { c with
    timer := activate c.timer i true
    queue := c.queue.start i (c.now + (c.timer i).initTick)
    temporary := if c.temporary = some i then none else c.temporary }

/-- Take a timer from the queue. -/
def Clock.remove (c : Clock ι) (i : ι) : Clock ι :=
  { c with
    queue := c.queue.stop i
    temporary := if c.temporary = some i then none else c.temporary }

/-- One command. -/
def Clock.command (c : Clock ι) : Command ι → Clock ι
  | .start i => c.start i
  | .stop i =>
    if (c.timer i).activated then { c.remove i with timer := activate c.timer i false } else c
  | .setTime i time _ =>
    { c with timer := Function.update c.timer i { c.timer i with initTick := time } }
  | .setPeriodic i periodic =>
    { c with timer := Function.update c.timer i { c.timer i with periodic } }

/-- A timer that is due leaves the queue before its callback runs. -/
def Clock.expire (c : Clock ι) (i : ι) : Clock ι :=
  { c.remove i with
    timer := if (c.timer i).periodic then c.timer else activate c.timer i false
    temporary := some i }

/-- After the callback: a periodic timer that was not touched is started again. -/
def Clock.resume (c : Clock ι) (i : ι) : Clock ι :=
  if c.temporary = none then c
  else if (c.timer i).periodic ∧ (c.timer i).activated then { c with temporary := none }.start i
  else { c with temporary := none }

/-- One timer after the other as long as the first one is due. -/
def Clock.checkLoop (callback : ι → σ → σ × List (Command ι)) :
    ℕ → Clock ι → σ → Option (Clock ι × σ)
  | 0, _, _ => none
  | fuel + 1, c, s =>
    match c.queue.entries with
    | [] => some (c, s)
    | (timeout, i) :: _ =>
      if timeout ≤ c.now then
        let (s, commands) := callback i s
        Clock.checkLoop callback fuel ((commands.foldl Clock.command (c.expire i)).resume i) s
      else some (c, s)

/-- One event. -/
def Clock.step (callback : ι → σ → σ × List (Command ι)) :
    Clock ι × σ → Event ι → Option (Clock ι × σ)
  | (c, s), .command cmd => some (c.command cmd, s)
  | (c, s), .tick fuel => Clock.checkLoop callback fuel { c with now := c.now + 1 } s

/-- A sequence of events. -/
def Clock.run (callback : ι → σ → σ × List (Command ι)) (l : List (Event ι)) (cs : Clock ι × σ) :
    Option (Clock ι × σ) :=
  l.foldlM (Clock.step callback) cs

/-- A command takes no time. -/
theorem Clock.command_now (c : Clock ι) (cmd : Command ι) : (c.command cmd).now = c.now := by
  cases cmd with
  | stop i =>
    simp only [Clock.command]
    split_ifs <;> rfl
  | _ => rfl

/-! ## Refinement -/

/-- An entry of the queue as it stands in the list of the kernel. -/
def wrapped (e : ℕ × ι) : ℕ × ι := (e.1 % 2 ^ 32, e.2)

/-- The kernel is the image of the clock. All timeouts lie between `lo`, which is at most one
tick ago, and half a turn of the tick counter from now. -/
structure Sim (lo : ℕ) (k : Timers ι) (c : Clock ι) : Prop where
  tick : k.tick = c.now % 2 ^ 32
  timer : k.timer = c.timer
  list : k.list = c.queue.entries.map wrapped
  temporary : k.temporary = c.temporary
  span : lo ≤ c.now ∧ c.now ≤ lo + 1
  early : ∀ e ∈ c.queue.entries, lo ≤ e.1
  late : ∀ e ∈ c.queue.entries, e.1 < c.now + halfTick
  short : ∀ i, (c.timer i).initTick < halfTick

omit [DecidableEq ι] in
/-- The search of the kernel finds the place of the new timeout. -/
theorem insertTimer_wrapped {now t : ℕ} (i : ι) {entries : List (ℕ × ι)}
    (hearly : ∀ e ∈ entries, now ≤ e.1 + 1) (hlate : ∀ e ∈ entries, e.1 < now + halfTick)
    (ht : now ≤ t) (ht' : t < now + halfTick) :
    insertTimer (t % 2 ^ 32, i) (entries.map wrapped) =
      (entries.orderedInsert (fun a b => a.1 < b.1) (t, i)).map wrapped := by
  induction entries with
  | nil => rfl
  | cons e entries ih =>
    have hrest := ih (fun e' he' => hearly e' (List.mem_cons_of_mem _ he'))
      (fun e' he' => hlate e' (List.mem_cons_of_mem _ he'))
    have he := hearly e (by simp)
    have he' := hlate e (by simp)
    unfold halfTick at he' ht'
    rw [List.map_cons, insertTimer, List.orderedInsert]
    by_cases hlt : t < e.1
    · have hsub : Wrap.sub (2 ^ 32) (e.1 % 2 ^ 32) (t % 2 ^ 32) = e.1 - t :=
        Wrap.sub_mod_of_le (by omega) (by omega)
      have hsmall : e.1 - t < halfTick := by
        unfold halfTick
        omega
      simp only [wrapped, hsub]
      rw [if_neg (by omega), if_pos hsmall, if_pos hlt]
      rfl
    · rw [if_neg hlt, List.map_cons, ← hrest]
      rcases eq_or_lt_of_le (not_lt.mp hlt) with heq | hgt
      · have hsub : Wrap.sub (2 ^ 32) (e.1 % 2 ^ 32) (t % 2 ^ 32) = e.1 - t :=
          Wrap.sub_mod_of_le (by omega) (by omega)
        simp only [wrapped, hsub]
        rw [if_pos (by omega)]
      · have hsub : Wrap.sub (2 ^ 32) (e.1 % 2 ^ 32) (t % 2 ^ 32) = 2 ^ 32 - (t - e.1) :=
          Wrap.sub_mod_of_lt hgt (by omega)
        have hlarge : ¬ 2 ^ 32 - (t - e.1) < halfTick := by
          unfold halfTick
          omega
        simp only [wrapped, hsub]
        rw [if_neg (by omega), if_neg hlarge]

variable {lo : ℕ} {k : Timers ι} {c : Clock ι}

/-- A timer leaves its list. -/
theorem Sim.remove (h : Sim lo k c) (i : ι) : Sim lo (k.timerRemove i) (c.remove i) where
  tick := h.tick
  timer := h.timer
  list := by
    simp only [Timers.timerRemove, Clock.remove, TimerQueue.stop, h.list, List.filter_map]
    rfl
  temporary := by
    simp only [Timers.timerRemove, Clock.remove, h.temporary]
  span := h.span
  early e he := h.early e (List.mem_of_mem_filter he)
  late e he := h.late e (List.mem_of_mem_filter he)
  short := h.short

omit [DecidableEq ι] in
/-- The flags of the timers change, and their times stay short. -/
theorem Sim.setTimer (h : Sim lo k c) {timer : ι → RtTimer}
    (hshort : ∀ i, (timer i).initTick < halfTick) :
    Sim lo { k with timer := timer } { c with timer := timer } :=
  ⟨h.tick, rfl, h.list, h.temporary, h.span, h.early, h.late, hshort⟩

omit [DecidableEq ι] in
/-- The list of the check changes alike on both sides. -/
theorem Sim.setTemporary (h : Sim lo k c) (temporary : Option ι) :
    Sim lo { k with temporary := temporary } { c with temporary := temporary } :=
  ⟨h.tick, h.timer, h.list, rfl, h.span, h.early, h.late, h.short⟩

/-- The flag of a timer does not change its time. -/
theorem activate_short {timer : ι → RtTimer} (h : ∀ i, (timer i).initTick < halfTick) (i : ι)
    (activated : Bool) : ∀ j, (activate timer i activated j).initTick < halfTick := by
  intro j
  unfold activate
  by_cases hj : j = i
  · subst hj
    simpa using h j
  · rw [Function.update_of_ne hj]
    exact h j

/-- Starting a timer keeps the kernel an image of the clock. -/
theorem Sim.start (h : Sim lo k c) (i : ι) : Sim lo (k.rtTimerStart i) (c.start i) := by
  have hremove := h.remove i
  have htime := h.short i
  obtain ⟨hspan, hspan'⟩ := h.span
  have hinsert := insertTimer_wrapped i
    (fun e he => hspan'.trans (Nat.add_le_add_right (hremove.early e he) 1)) hremove.late
    (show c.now ≤ c.now + (c.timer i).initTick by omega) (Nat.add_lt_add_left htime _)
  have hmem : ∀ e ∈ (c.start i).queue.entries,
      e = (c.now + (c.timer i).initTick, i) ∨ e ∈ (c.remove i).queue.entries := by
    intro e he
    exact (List.mem_orderedInsert _).mp he
  refine ⟨h.tick, ?_, ?_, hremove.temporary, h.span, ?_, ?_, ?_⟩
  · simp only [Timers.rtTimerStart, Timers.timerRemove, Clock.start, h.timer]
  · have htick : ((k.timerRemove i).tick + ((k.timerRemove i).timer i).initTick) % 2 ^ 32 =
        (c.now + (c.timer i).initTick) % 2 ^ 32 := by
      rw [hremove.tick, hremove.timer]
      exact Nat.mod_add_mod ..
    simp only [Timers.rtTimerStart, htick, hremove.list]
    exact hinsert
  · intro e he
    rcases hmem e he with rfl | he
    · exact hspan.trans (Nat.le_add_right ..)
    · exact hremove.early e he
  · intro e he
    rcases hmem e he with rfl | he
    · exact Nat.add_lt_add_left htime _
    · exact hremove.late e he
  · exact activate_short h.short i true

/-- Every command keeps the kernel an image of the clock. -/
theorem Sim.command (h : Sim lo k c) (cmd : Command ι) :
    Sim lo (k.command cmd) (c.command cmd) := by
  cases cmd with
  | start i => exact h.start i
  | stop i =>
    simp only [Timers.command, Timers.rtTimerStop, Clock.command, h.timer]
    split_ifs
    · exact (h.remove i).setTimer (activate_short h.short i false)
    · exact h
  | setTime i time short =>
    simp only [Timers.command, Clock.command, h.timer]
    refine h.setTimer fun j => ?_
    by_cases hj : j = i
    · subst hj
      simpa using short
    · rw [Function.update_of_ne hj]
      exact h.short j
  | setPeriodic i periodic =>
    simp only [Timers.command, Clock.command, h.timer]
    refine h.setTimer fun j => ?_
    by_cases hj : j = i
    · subst hj
      simpa using h.short j
    · rw [Function.update_of_ne hj]
      exact h.short j

/-- The commands of a callback keep the kernel an image of the clock. -/
theorem Sim.commands (h : Sim lo k c) (commands : List (Command ι)) :
    Sim lo (commands.foldl Timers.command k) (commands.foldl Clock.command c) := by
  induction commands generalizing k c with
  | nil => exact h
  | cons cmd commands ih => exact ih (h.command cmd)

omit [DecidableEq ι] in
/-- The kernel and the clock agree on whether a timer is due. -/
theorem Sim.due_iff (h : Sim lo k c) {e : ℕ × ι} (he : e ∈ c.queue.entries) :
    Wrap.sub (2 ^ 32) k.tick (wrapped e).1 < halfTick ↔ e.1 ≤ c.now := by
  have hearly := h.early e he
  have hlate := h.late e he
  obtain ⟨hspan, hspan'⟩ := h.span
  rw [h.tick, wrapped]
  unfold halfTick at hlate ⊢
  by_cases hdue : e.1 ≤ c.now
  · rw [Wrap.sub_mod_of_le hdue (by omega)]
    omega
  · rw [Wrap.sub_mod_of_lt (by omega) (by omega)]
    omega

/-- A timer that is due, before its callback. -/
theorem Sim.expire (h : Sim lo k c) (i : ι) :
    Sim lo { k.timerRemove i with
      timer := if (k.timer i).periodic then k.timer else activate k.timer i false
      temporary := some i } (c.expire i) := by
  have hremove := (h.remove i).setTemporary (some i)
  rw [h.timer]
  refine hremove.setTimer ?_
  split_ifs
  · exact h.short
  · exact activate_short h.short i false

/-- The end of a turn of the loop. -/
theorem Sim.resume (h : Sim lo k c) (i : ι) :
    Sim lo (if k.temporary = none then k
      else if (k.timer i).periodic ∧ (k.timer i).activated then
        { k with temporary := none }.rtTimerStart i
      else { k with temporary := none }) (c.resume i) := by
  unfold Clock.resume
  have htemporary : c.temporary = none ↔ k.temporary = none := by rw [h.temporary]
  have hagain : ((c.timer i).periodic ∧ (c.timer i).activated) ↔
      ((k.timer i).periodic ∧ (k.timer i).activated) := by rw [h.timer]
  simp only [htemporary, hagain]
  split_ifs
  · exact h
  · exact (h.setTemporary none).start i
  · exact h.setTemporary none

/-- A turn of the kernel's loop, with the end of the turn put together. -/
theorem Timers.checkLoop_succ (callback : ι → σ → σ × List (Command ι)) (fuel : ℕ)
    (k : Timers ι) (s : σ) :
    Timers.checkLoop callback (fuel + 1) k s =
      match k.list with
      | [] => some (k, s)
      | (timeout, i) :: _ =>
        if Wrap.sub (2 ^ 32) k.tick timeout < halfTick then
          let k := (callback i s).2.foldl Timers.command { k.timerRemove i with
            timer := if (k.timer i).periodic then k.timer else activate k.timer i false
            temporary := some i }
          Timers.checkLoop callback fuel (if k.temporary = none then k
            else if (k.timer i).periodic ∧ (k.timer i).activated then
              { k with temporary := none }.rtTimerStart i
            else { k with temporary := none }) (callback i s).1
        else some (k, s) := by
  rw [Timers.checkLoop]
  split
  · rfl
  · simp only
    split_ifs <;> rfl

/-- What the results of the two loops have to do with each other: behind a check all timeouts
lie ahead. -/
def Agree (ks : Timers ι × σ) (cs : Clock ι × σ) : Prop := Sim cs.1.now ks.1 cs.1 ∧ ks.2 = cs.2

omit [DecidableEq ι] in
/-- The loop ends when no timer is due. -/
theorem Sim.ahead (h : Sim lo k c) (hahead : ∀ e ∈ c.queue.entries, c.now ≤ e.1) :
    Sim c.now k c :=
  ⟨h.tick, h.timer, h.list, h.temporary, ⟨le_rfl, Nat.le_add_right ..⟩, hahead, h.late, h.short⟩

/-- The loops of the check run alike, and end with all timeouts ahead. -/
theorem Sim.checkLoop (callback : ι → σ → σ × List (Command ι)) (fuel : ℕ) :
    ∀ {k : Timers ι} {c : Clock ι} (s : σ), Sim lo k c →
      Option.Rel Agree (Timers.checkLoop callback fuel k s)
        (Clock.checkLoop callback fuel c s) := by
  induction fuel with
  | zero =>
    intro k c s _
    exact .none
  | succ fuel ih =>
    intro k c s h
    rw [Timers.checkLoop_succ, Clock.checkLoop, h.list]
    cases hentries : c.queue.entries with
    | nil =>
      refine .some ⟨h.ahead ?_, rfl⟩
      simp [hentries]
    | cons e entries =>
      have hdue := h.due_iff (e := e) (by simp [hentries])
      simp only [List.map_cons, wrapped] at hdue ⊢
      by_cases hnow : e.1 ≤ c.now
      · rw [if_pos (hdue.mpr hnow), if_pos hnow]
        exact ih _ (((h.expire e.2).commands _).resume e.2)
      · rw [if_neg (mt hdue.mp hnow), if_neg hnow]
        refine .some ⟨h.ahead fun e' he' => ?_, rfl⟩
        have hsorted := c.queue.sorted
        rw [hentries] at hsorted he'
        rcases List.mem_cons.mp he' with rfl | he'
        · omega
        · have := (List.pairwise_cons.mp hsorted).1 e' he'
          omega

omit [DecidableEq ι] in
/-- A tick passes before the check. -/
theorem Sim.ticked (h : Sim c.now k c) :
    Sim c.now { k with tick := (k.tick + 1) % 2 ^ 32 } { c with now := c.now + 1 } := by
  refine ⟨?_, h.timer, h.list, h.temporary, ⟨Nat.le_add_right .., le_rfl⟩, h.early, ?_, h.short⟩
  · simp only [h.tick]
    exact Nat.mod_add_mod ..
  · intro e he
    exact (h.late e he).trans_le (by simp only; omega)

/-- One event. -/
theorem agree_step (callback : ι → σ → σ × List (Command ι)) {ks : Timers ι × σ}
    {cs : Clock ι × σ} (h : Agree ks cs) (event : Event ι) :
    Option.Rel Agree (Timers.step callback ks event) (Clock.step callback cs event) := by
  obtain ⟨k, s⟩ := ks
  obtain ⟨c, s'⟩ := cs
  obtain ⟨hsim, rfl⟩ : Sim c.now k c ∧ s = s' := h
  cases event with
  | command cmd =>
    refine .some ⟨?_, rfl⟩
    rw [c.command_now cmd]
    exact hsim.command cmd
  | tick fuel =>
    exact Sim.checkLoop callback fuel s hsim.ticked

/-- A list of timers none of which is active. -/
def Timers.init (timer : ι → RtTimer) : Timers ι := ⟨0, timer, [], none⟩

def Clock.init (timer : ι → RtTimer) : Clock ι := ⟨0, timer, TimerQueue.empty, none⟩

/-- The simulation over a sequence of events. -/
theorem agree_run (callback : ι → σ → σ × List (Command ι)) (l : List (Event ι)) :
    ∀ {ks : Timers ι × σ} {cs : Clock ι × σ}, Agree ks cs →
      Option.Rel Agree (Timers.run callback l ks) (Clock.run callback l cs) := by
  induction l with
  | nil =>
    intro ks cs h
    exact .some h
  | cons event l ih =>
    intro ks cs h
    have hstep := agree_step callback h event
    unfold Timers.run Clock.run
    rw [List.foldlM_cons, List.foldlM_cons]
    generalize Timers.step callback ks event = ks' at hstep ⊢
    generalize Clock.step callback cs event = cs' at hstep ⊢
    cases hstep with
    | none => exact .none
    | some hagree => exact ih hagree

omit [DecidableEq ι] in
/-- With no timer active the kernel agrees with the clock. -/
theorem agree_init {timer : ι → RtTimer} (hshort : ∀ i, (timer i).initTick < halfTick) (s : σ) :
    Agree (Timers.init timer, s) (Clock.init timer, s) :=
  ⟨⟨rfl, rfl, rfl, rfl, ⟨le_rfl, Nat.le_add_right ..⟩, by simp [Clock.init, TimerQueue.empty],
    by simp [Clock.init, TimerQueue.empty], hshort⟩, rfl⟩

/-- The kernel refines the clock, for every sequence of commands and ticks and every behaviour
of the callbacks, however often the tick counter wraps around: the callbacks run in the same
order and with the same effects, and the list of the kernel holds the timeouts of the clock. -/
theorem timers_refine_clock (callback : ι → σ → σ × List (Command ι)) {timer : ι → RtTimer}
    (hshort : ∀ i, (timer i).initTick < halfTick) (s : σ) (l : List (Event ι)) :
    Option.Rel Agree (Timers.run callback l (Timers.init timer, s))
      (Clock.run callback l (Clock.init timer, s)) :=
  agree_run callback l (agree_init hshort s)

/-- A periodic timer, and one that stops it after three ticks. -/
def blinkTimer (last : Bool) : RtTimer := if last then ⟨3, false, false⟩ else ⟨2, true, false⟩

/-- The callbacks of the two timers count how often the first one expires. -/
def blinkCallback (last : Bool) (s : ℕ) : ℕ × List (Command Bool) :=
  if last then (s, [.stop false]) else (s + 1, [])

/-- The times of the two timers are short enough. -/
theorem blinkTimer_short (last : Bool) : (blinkTimer last).initTick < halfTick := by
  cases last <;> decide

/-- A periodic timer of two ticks that the callback of another one stops. -/
theorem timers_refine_clock_blink :
    (Timers.run blinkCallback [.command (.start false), .command (.start true), .tick 1, .tick 2,
        .tick 2, .tick 1, .tick 1] (Timers.init blinkTimer, 0)).map (·.2) = some 1 ∧
      Option.Rel Agree
        (Timers.run blinkCallback [.command (.start false), .command (.start true), .tick 1,
          .tick 2, .tick 2, .tick 1, .tick 1] (Timers.init blinkTimer, 0))
        (Clock.run blinkCallback [.command (.start false), .command (.start true), .tick 1,
          .tick 2, .tick 2, .tick 1, .tick 1] (Clock.init blinkTimer, 0)) :=
  ⟨by decide, timers_refine_clock blinkCallback blinkTimer_short 0 _⟩

/-! ## One-shot timers -/

/-- It makes no difference whether a timer is stopped before it is started. -/
theorem rtTimerStart_rtTimerStop (k : Timers ι) (i : ι) :
    (k.rtTimerStop i).rtTimerStart i = k.rtTimerStart i := by
  unfold Timers.rtTimerStop
  split_ifs
  · simp only [Timers.rtTimerStart, Timers.timerRemove, activate, Function.update_idem,
      Function.update_self, List.filter_filter, Bool.and_self]
    by_cases htemporary : k.temporary = some i
    · simp [htemporary]
    · simp [htemporary]
  · rfl

/-- The flag of a timer changes neither its time nor whether it is periodic. -/
theorem activate_fixed (timer : ι → RtTimer) (i : ι) (activated : Bool) (j : ι) :
    (activate timer i activated j).initTick = (timer j).initTick ∧
      (activate timer i activated j).periodic = (timer j).periodic := by
  unfold activate
  by_cases hj : j = i
  · subst hj
    simp
  · rw [Function.update_of_ne hj]
    exact ⟨rfl, rfl⟩

/-- The first timer of a queue leaves it. -/
theorem stop_first {q : TimerQueue ι} {e : ℕ × ι} {entries : List (ℕ × ι)}
    (hentries : q.entries = e :: entries) : (q.stop e.2).entries = entries := by
  have hnodup := q.nodup
  rw [hentries, List.map_cons, List.nodup_cons] at hnodup
  have hothers : ∀ e' ∈ entries, e'.2 ≠ e.2 := fun e' he' heq =>
    hnodup.1 (heq ▸ List.mem_map_of_mem he')
  simp only [TimerQueue.stop, hentries, ne_eq, decide_not, List.filter_cons, decide_true,
    Bool.not_true, Bool.false_eq_true, if_false]
  exact List.filter_eq_self.mpr fun e' he' => by simp [hothers e' he']

/-- The turn of a one-shot timer whose callback gives no commands: the timer leaves the queue. -/
theorem resume_expire {i : ι} (honeshot : (c.timer i).periodic = false) :
    (c.expire i).resume i =
      { c with queue := c.queue.stop i, timer := activate c.timer i false, temporary := none } := by
  have hperiodic := (activate_fixed c.timer i false i).2
  simp [Clock.resume, Clock.expire, Clock.remove, honeshot, hperiodic]

/-- Where timers are one-shot and callbacks give no commands, a check is that of the queue. -/
theorem Clock.checkLoop_eq_check (callback : ι → σ → σ) (fuel : ℕ) :
    ∀ {c : Clock ι} (s : σ), (∀ i, (c.timer i).periodic = false) →
      c.queue.entries.length < fuel →
      ∃ c', Clock.checkLoop (fun i s => (callback i s, [])) fuel c s =
          some (c', (c.queue.check callback c.now s).2) ∧
        c'.now = c.now ∧ c'.queue.entries = (c.queue.check callback c.now s).1.entries ∧
        ∀ i, (c'.timer i).initTick = (c.timer i).initTick ∧
          (c'.timer i).periodic = (c.timer i).periodic := by
  induction fuel with
  | zero =>
    intro c s _ hfuel
    simp at hfuel
  | succ fuel ih =>
    intro c s honeshot hfuel
    rw [Clock.checkLoop]
    cases hentries : c.queue.entries with
    | nil =>
      refine ⟨c, ?_, rfl, ?_, fun i => ⟨rfl, rfl⟩⟩
      · simp [TimerQueue.check, TimerQueue.checkLoop, hentries]
      · simp [TimerQueue.check, TimerQueue.rest, hentries]
    | cons e entries =>
      by_cases hdue : e.1 ≤ c.now
      · have hstop := stop_first hentries
        have hnext := ih (c := { c with
          queue := c.queue.stop e.2, timer := activate c.timer e.2 false, temporary := none })
          (callback e.2 s) (fun i => (activate_fixed c.timer e.2 false i).2.trans (honeshot i))
          (by simpa [hstop, hentries] using hfuel)
        obtain ⟨c', hloop, hnow, hqueue, htimer⟩ := hnext
        refine ⟨c', ?_, hnow, ?_, fun i => ?_⟩
        · simp only [if_pos hdue, List.foldl_nil, resume_expire (honeshot e.2), hloop]
          simp [TimerQueue.check, TimerQueue.checkLoop, hstop, hentries, hdue]
        · rw [hqueue]
          simp [TimerQueue.check, TimerQueue.rest, hstop, hentries, hdue]
        · have hfixed := activate_fixed c.timer e.2 false i
          exact ⟨(htimer i).1.trans hfixed.1, (htimer i).2.trans hfixed.2⟩
      · refine ⟨c, ?_, rfl, ?_, fun i => ⟨rfl, rfl⟩⟩
        · simp [TimerQueue.check, TimerQueue.checkLoop, hentries, hdue]
        · simp [TimerQueue.check, TimerQueue.rest, hentries, hdue]

end Saliwen.Kernel
