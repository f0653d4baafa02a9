import Mathlib.Data.Fintype.Card
import Saliwen.Clap.Recogniser
import Saliwen.Kernel.Timer

/-!
# The recogniser on the timers of the kernel

The recogniser is run here on the timers as `timer.c` keeps them, with a tick counter of 32 bits.
Whatever the order of ticks and edges, and however long the board runs, its globals and its
window expiries are those of the recogniser on the queue of timers.
-/

namespace Saliwen.Clap

open Kernel

/-- The timers that `timer_init` creates. -/
def rtTimer (i : TimerId) : RtTimer := ⟨initTick i, false, false⟩

/-- The timers of the kernel, the globals and the window expiries so far. -/
structure KernelState where
  timers : Timers TimerId
  app : App
  fires : List Fire

/-- The state after `timer_init`. -/
def KernelState.timerInit (app : App) : KernelState := ⟨Timers.init rtTimer, app, []⟩

/-- The tick interrupt. There are two timers, so that the loop ends in its third turn. -/
def KernelState.tick (s : KernelState) : Option KernelState :=
  let tick := (s.timers.tick + 1) % 2 ^ 32
  (Timers.checkLoop (fun i p => (timeout tick i p, [])) 3 { s.timers with tick := tick }
    (s.app, s.fires)).map fun (timers, app, fires) => ⟨timers, app, fires⟩

/-- `on_soundlevel`. -/
def KernelState.onSoundlevel (s : KernelState) : KernelState :=
  let s := { s with timers := s.timers.rtTimerStart .debounceTimer }
  if s.app.flagSoundFirstPulse ≠ 0 then
    let s := { s with
      app := { s.app with cnt := wrap32 (s.app.cnt + 1), flagSoundFirstPulse := 0 } }
    if s.app.currState = .ledIdle then
      let s := { s with app := { s.app with currState := .ledClap } }
      { s with timers := s.timers.rtTimerStart .clapSpaceTimer }
    else
      let s := { s with timers := s.timers.rtTimerStop .clapSpaceTimer }
      { s with timers := s.timers.rtTimerStart .clapSpaceTimer }
  else s

/-- What the recogniser reacts to. -/
inductive Signal where
  | tick
  | edge
  deriving DecidableEq, Repr

def KernelState.react (s : KernelState) : Signal → Option KernelState
  | .tick => s.tick
  | .edge => some s.onSoundlevel

def State.react (s : State) : Signal → State
  | .tick => s.tick
  | .edge => Clap.onSoundlevel s

/-- A window expiry with its tick as the kernel counts it. -/
def Fire.wrapped (f : Fire) : Fire := { f with tick := f.tick % 2 ^ 32 }

/-! ## Simulation -/

/-- The queue of the recogniser is the queue of a clock that the kernel refines. -/
structure Refines (k : KernelState) (s : State) (c : Clock TimerId) : Prop where
  sim : Sim s.now k.timers c
  now : c.now = s.now
  queue : c.queue.entries = s.timers.entries
  timer : ∀ i, (c.timer i).initTick = initTick i ∧ (c.timer i).periodic = false
  app : k.app = s.app
  fires : k.fires = s.fires.map Fire.wrapped

/-- A queue is given by its entries. -/
theorem queue_ext {ι : Type*} {q r : TimerQueue ι} (h : q.entries = r.entries) : q = r := by
  cases q
  cases r
  subst h
  rfl

/-- No more than the two timers of the recogniser are in the queue. -/
theorem length_entries_lt (q : TimerQueue TimerId) : q.entries.length < 3 := by
  have hids : (q.entries.map Prod.snd).toFinset ⊆ {.clapSpaceTimer, .debounceTimer} := by
    intro i _
    cases i <;> simp
  have hcard := Finset.card_le_card hids
  rw [List.toFinset_card_of_nodup q.nodup, List.length_map] at hcard
  exact Nat.lt_succ_of_le (hcard.trans (Finset.card_le_two))

/-- The callbacks do the same with both counts of ticks. -/
theorem foldl_timeout (now : ℕ) (ids : List TimerId) (app : App) (fires : List Fire) :
    ids.foldl (fun p i => timeout (now % 2 ^ 32) i p) (app, fires.map Fire.wrapped) =
      Prod.map id (List.map Fire.wrapped)
        (ids.foldl (fun p i => timeout now i p) (app, fires)) := by
  induction ids generalizing app fires with
  | nil => rfl
  | cons i ids ih =>
    cases i with
    | debounceTimer => exact ih ..
    | clapSpaceTimer =>
      have hfires : fires.map Fire.wrapped ++ [Fire.mk (now % 2 ^ 32) app (onClapSpaceTimer app)] =
          (fires ++ [Fire.mk now app (onClapSpaceTimer app)]).map Fire.wrapped := by
        simp [Fire.wrapped]
      simp only [List.foldl_cons, timeout, hfires]
      exact ih ..

variable {k : KernelState} {s : State} {c : Clock TimerId}

/-- A tick of the kernel, whose check returns, is one of the ideal queue. -/
theorem Refines.tick (h : Refines k s c) : ∃ k' c', k.tick = some k' ∧ Refines k' s.tick c' := by
  obtain ⟨hsim, hnow, hentries, htimer, happ, hfires⟩ := h
  have hqueue : c.queue = s.timers := queue_ext hentries
  rw [← hnow] at hsim
  obtain ⟨c', hloop, hnow', hentries', htimer'⟩ := Clock.checkLoop_eq_check
    (timeout ((c.now + 1) % 2 ^ 32)) 3 (c := { c with now := c.now + 1 }) (k.app, k.fires)
    (fun i => (htimer i).2) (length_entries_lt c.queue)
  have hagree := hsim.ticked.checkLoop (fun i p => (timeout ((c.now + 1) % 2 ^ 32) i p, [])) 3
    (k.app, k.fires)
  have hstate : (TimerQueue.check (timeout ((c.now + 1) % 2 ^ 32)) (c.now + 1) c.queue
      (k.app, k.fires)).2 = (s.tick.app, s.tick.fires.map Fire.wrapped) := by
    rw [TimerQueue.check_snd, happ, hfires, foldl_timeout, ← TimerQueue.check_snd, hqueue, hnow]
    rfl
  have htick : (k.timers.tick + 1) % 2 ^ 32 = (c.now + 1) % 2 ^ 32 := hsim.ticked.tick
  rw [hloop, hstate, ← htick] at hagree
  generalize hresult : Timers.checkLoop
    (fun i p => (timeout ((k.timers.tick + 1) % 2 ^ 32) i p, []))
    3 { k.timers with tick := (k.timers.tick + 1) % 2 ^ 32 } (k.app, k.fires) = result at hagree
  cases hagree with
  | some hagree =>
    rename_i ks
    obtain ⟨hsim', hsame⟩ := hagree
    refine ⟨⟨ks.1, ks.2.1, ks.2.2⟩, c', ?_, ?_⟩
    · simp only [KernelState.tick, hresult, Option.map_some]
    · have hnow₁ : c'.now = s.tick.now := by rw [hnow', hnow, State.tick_now]
      have hsame' : ks.2 = (s.tick.app, s.tick.fires.map Fire.wrapped) := hsame
      refine ⟨hnow₁ ▸ hsim', hnow₁, ?_, fun i => ?_, by rw [hsame'], by rw [hsame']⟩
      · rw [hentries', hqueue, hnow]
        rfl
      · exact ⟨(htimer' i).1.trans (htimer i).1, (htimer' i).2.trans (htimer i).2⟩

/-- `rt_timer_start`. -/
theorem Refines.start (h : Refines k s c) (i : TimerId) :
    Refines { k with timers := k.timers.rtTimerStart i } (s.rtTimerStart i) (c.start i) where
  sim := h.sim.start i
  now := h.now
  queue := by
    have hqueue : c.queue = s.timers := queue_ext h.queue
    simp only [Clock.start, State.rtTimerStart, hqueue, h.now, (h.timer i).1]
  timer j := by
    have hfixed := activate_fixed c.timer i true j
    exact ⟨hfixed.1.trans (h.timer j).1, hfixed.2.trans (h.timer j).2⟩
  app := h.app
  fires := h.fires

/-- The globals change in the same way. -/
theorem Refines.setApp (h : Refines k s c) (app : App) :
    Refines { k with app := app } { s with app := app } c :=
  ⟨h.sim, h.now, h.queue, h.timer, rfl, h.fires⟩

/-- Starting a timer of the ideal queue stops it first. -/
theorem rtTimerStart_rtTimerStop (s : State) (i : TimerId) :
    (s.rtTimerStop i).rtTimerStart i = s.rtTimerStart i := by
  have hqueue : (s.timers.stop i).start i (s.now + initTick i) =
      s.timers.start i (s.now + initTick i) := by
    refine queue_ext ?_
    simp [TimerQueue.start, TimerQueue.stop]
  simp only [State.rtTimerStart, State.rtTimerStop, hqueue]

/-- `on_soundlevel`. -/
theorem Refines.onSoundlevel (h : Refines k s c) :
    ∃ c', Refines k.onSoundlevel (onSoundlevel s) c' := by
  have hdebounce := h.start .debounceTimer
  unfold KernelState.onSoundlevel Clap.onSoundlevel
  simp only [Kernel.rtTimerStart_rtTimerStop, rtTimerStart_rtTimerStop, h.app]
  have hpulse : (s.rtTimerStart .debounceTimer).app = s.app := rfl
  simp only [hpulse]
  split_ifs with hfirst hidle
  · exact ⟨_, (hdebounce.setApp _).start .clapSpaceTimer⟩
  · exact ⟨_, (hdebounce.setApp _).start .clapSpaceTimer⟩
  · exact ⟨_, hdebounce.setApp _⟩

/-- One signal. -/
theorem Refines.react (h : Refines k s c) (signal : Signal) :
    ∃ k' c', k.react signal = some k' ∧ Refines k' (s.react signal) c' := by
  cases signal with
  | tick => exact h.tick
  | edge =>
    obtain ⟨c', hrefines⟩ := h.onSoundlevel
    exact ⟨_, c', rfl, hrefines⟩

/-- The kernel and the ideal queue begin with no timer active. -/
theorem refines_timerInit (app : App) :
    Refines (.timerInit app) (.timerInit app) (Clock.init rtTimer) where
  sim := (agree_init (fun i => by cases i <;> decide) ()).1
  now := rfl
  queue := rfl
  timer i := ⟨rfl, rfl⟩
  app := rfl
  fires := rfl

/-- The simulation over a sequence of ticks and edges. -/
theorem refines_run (signals : List Signal) : ∀ {k : KernelState} {s : State}
    {c : Clock TimerId}, Refines k s c → ∃ k' c', signals.foldlM KernelState.react k = some k' ∧
      Refines k' (signals.foldl State.react s) c' := by
  induction signals with
  | nil =>
    intro k s c h
    exact ⟨k, c, rfl, h⟩
  | cons signal signals ih =>
    intro k s c h
    obtain ⟨k₁, c₁, hreact, hrefines⟩ := h.react signal
    obtain ⟨k', c', hrun, hrefines'⟩ := ih hrefines
    refine ⟨k', c', ?_, hrefines'⟩
    rw [List.foldlM_cons, hreact]
    exact hrun

/-- Whatever the order of ticks and edges, the recogniser on the timers of the kernel does what
it does on the queue of timers, also when the tick counter wraps around. The check of a tick
always ends within three turns. -/
theorem react_kernel (app : App) (signals : List Signal) :
    ∃ k, signals.foldlM KernelState.react (.timerInit app) = some k ∧
      k.app = (signals.foldl State.react (.timerInit app)).app ∧
      k.fires = (signals.foldl State.react (.timerInit app)).fires.map Fire.wrapped := by
  obtain ⟨k, c, hrun, hrefines⟩ := refines_run signals (refines_timerInit app)
  exact ⟨k, hrun, hrefines.app, hrefines.fires⟩

end Saliwen.Clap
