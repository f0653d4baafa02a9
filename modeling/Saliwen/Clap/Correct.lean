import Saliwen.Clap.Recogniser

/-!
# Correctness of the double-clap recogniser

The recogniser closes one window per group of claps, 1000 ticks after the group's last
clap, and acts exactly on the groups of two. The invariant ties the debounce timer to the
last edge and the window timer, the counter and the mode to the last group; ticks and
edges preserve it.
-/

namespace Saliwen.Clap

/-- The window expiry `f` closes the group `g` as intended. -/
def Closes (f : Fire) (g : List ℕ) : Prop :=
  (∃ c, g.getLast? = some c ∧ f.tick = c + 1000) ∧
    (g.length = 2 →
      (f.post.flagLedStatus ≠ 0 ↔ ¬ f.pre.flagLedStatus ≠ 0) ∧ f.post.flagClapSend = 1) ∧
    (g.length ≠ 2 →
      f.post.flagLedStatus = f.pre.flagLedStatus ∧ f.post.flagClapSend = f.pre.flagClapSend) ∧
    f.post.currState = .ledIdle ∧ f.post.cnt = 0

/-- The window of the group is over at tick `t`: 1000 ticks have passed since its last clap. -/
def overBy (t : ℕ) (g : List ℕ) : Bool := g.getLast?.any fun c => decide (c + 1000 ≤ t)

/-- The state `s`, reached from the globals `app` by a trace with the groups `gs`, has recognised
the groups whose windows are over: each was closed by one run of `on_clap_space_timer`, these
runs account for all that happened to the LED status, the request and the outputs of the board,
and while no window is open the recogniser is idle with its counter cleared. -/
structure Recognised (app : App) (gs : List (List ℕ)) (s : State) : Prop where
  closes : List.Forall₂ Closes s.fires (gs.filter (overBy s.now))
  linked : Linked app s.fires s.app
  idle : (∀ g ∈ gs, overBy s.now g = true) → s.app.currState = .ledIdle ∧ s.app.cnt = 0

/-- What the run records about the group `g`: the callback ran 1000 ticks after its last
clap, with its number of claps in the counter. -/
def Recorded (f : Fire) (g : List ℕ) : Prop :=
  f.post = onClapSpaceTimer f.pre ∧ f.pre.cnt = wrap32 g.length ∧
    ∃ c, g.getLast? = some c ∧ f.tick = c + 1000

/-- As long as the counter has not wrapped around, the callback closes the group as
intended. -/
theorem Recorded.closes {f : Fire} {g : List ℕ} (h : Recorded f g) (hg : g.length < 2 ^ 31) :
    Closes f g := by
  obtain ⟨hpost, hcnt, hlast⟩ := h
  have hlength : f.pre.cnt = g.length := by rw [hcnt, wrap32_eq_self (by omega) (by omega)]
  refine ⟨hlast, ?_, ?_, ?_, ?_⟩
  · intro htwo
    have hcnt2 : f.pre.cnt = 2 := by omega
    rw [hpost, onClapSpaceTimer_flagLedStatus, onClapSpaceTimer_flagClapSend, if_pos hcnt2,
      if_pos hcnt2]
    by_cases hled : f.pre.flagLedStatus = 0
    · simp [hled]
    · simp [hled]
  · intro htwo
    have hcnt2 : f.pre.cnt ≠ 2 := by omega
    rw [hpost, onClapSpaceTimer_flagLedStatus, onClapSpaceTimer_flagClapSend, if_neg hcnt2,
      if_neg hcnt2]
    exact ⟨rfl, rfl⟩
  · rw [hpost, onClapSpaceTimer_currState]
  · rw [hpost, onClapSpaceTimer_cnt]

/-- The debounce timer runs for the last edge and no further edge counts yet. -/
def Bouncing (es : List ℕ) (s : State) : Prop :=
  ∃ e, es.getLast? = some e ∧ s.now < e + 250 ∧ s.app.flagSoundFirstPulse = 0 ∧
    s.timers.Armed .debounceTimer (e + 250)

/-- The last edge is 250 ticks past and the next edge counts. -/
def Settled (es : List ℕ) (s : State) : Prop :=
  (∀ e ∈ es.getLast?, e + 250 ≤ s.now) ∧ s.app.flagSoundFirstPulse ≠ 0 ∧
    s.timers.Idle .debounceTimer

/-- The window of the last group is open and all earlier groups are recorded. -/
def WindowOpen (es : List ℕ) (s : State) : Prop :=
  ∃ done g c, groups es = done ++ [g] ∧ g.getLast? = some c ∧ s.now < c + 1000 ∧
    s.app.cnt = wrap32 g.length ∧ s.app.currState = .ledClap ∧
    s.timers.Armed .clapSpaceTimer (c + 1000) ∧ List.Forall₂ Recorded s.fires done

/-- No window is open and all groups are recorded. -/
def WindowClosed (es : List ℕ) (s : State) : Prop :=
  (∀ c ∈ (claps es).getLast?, c + 1000 ≤ s.now) ∧ s.app.cnt = 0 ∧
    s.app.currState = .ledIdle ∧ s.timers.Idle .clapSpaceTimer ∧
    List.Forall₂ Recorded s.fires (groups es)

/-- The invariant of the recogniser after the edges `es`. -/
def Tracks (es : List ℕ) (s : State) : Prop :=
  (Bouncing es s ∨ Settled es s) ∧ (WindowOpen es s ∨ WindowClosed es s)

/-! ### Ticks -/

private theorem timerId_nodup_cases {l : List TimerId} (h : l.Nodup) :
    l = [] ∨ l = [.debounceTimer] ∨ l = [.clapSpaceTimer] ∨
      l = [.debounceTimer, .clapSpaceTimer] ∨ l = [.clapSpaceTimer, .debounceTimer] := by
  rcases l with _ | ⟨a, _ | ⟨b, _ | ⟨c, l⟩⟩⟩
  · simp
  · cases a <;> simp
  · cases a <;> cases b <;> simp at h ⊢
  · cases a <;> cases b <;> cases c <;> simp at h

/-- The globals and expiries after the due callbacks. The two callbacks write disjoint
globals, so their order does not matter. -/
theorem timeouts_effect {due : List TimerId} (hdue : due.Nodup) (now : ℕ) (app : App)
    (fires : List Fire) :
    let r := due.foldl (fun s i => timeout now i s) (app, fires)
    (.debounceTimer ∈ due → r.1.flagSoundFirstPulse = 1) ∧
      (.debounceTimer ∉ due → r.1.flagSoundFirstPulse = app.flagSoundFirstPulse) ∧
      (.clapSpaceTimer ∈ due → r.1.cnt = 0 ∧ r.1.currState = .ledIdle ∧
        ∃ pre, pre.cnt = app.cnt ∧ outputs app = outputs pre ∧
          outputs (onClapSpaceTimer pre) = outputs r.1 ∧
          r.2 = fires ++ [⟨now, pre, onClapSpaceTimer pre⟩]) ∧
      (.clapSpaceTimer ∉ due →
        r.1.cnt = app.cnt ∧ r.1.currState = app.currState ∧ outputs app = outputs r.1 ∧
          r.2 = fires) := by
  rcases timerId_nodup_cases hdue with rfl | rfl | rfl | rfl | rfl
  · simp
  · simp [timeout, onDebounceTimer, outputs]
  · simp only [List.foldl_cons, List.foldl_nil, timeout]
    exact ⟨by simp, by simp, fun _ => ⟨by simp, by simp, app, rfl, rfl, rfl, rfl⟩, by simp⟩
  · simp only [List.foldl_cons, List.foldl_nil, timeout]
    exact ⟨by simp [onDebounceTimer], by simp,
      fun _ => ⟨by simp, by simp, onDebounceTimer app, rfl, rfl, rfl, rfl⟩, by simp⟩
  · simp only [List.foldl_cons, List.foldl_nil, timeout]
    refine ⟨by simp [onDebounceTimer], by simp,
      fun _ => ⟨rfl, ?_, app, rfl, rfl, rfl, rfl⟩, by simp⟩
    simp [onDebounceTimer]

/-- A tick expires the debounce timer exactly when it ends the 250 ticks after the
last edge. -/
theorem debounce_tick {es : List ℕ} {s : State} (h : Bouncing es s ∨ Settled es s) :
    Bouncing es s.tick ∨ Settled es s.tick := by
  obtain ⟨hdue1, hdue0, _, _⟩ :=
    timeouts_effect (s.timers.nodup_due (s.now + 1)) (s.now + 1) s.app s.fires
  rw [← TimerQueue.check_snd] at hdue1 hdue0
  rcases h with ⟨e, hlast, hnow, hflag, harmed⟩ | ⟨hpast, hflag, hidle⟩
  · by_cases hend : s.now + 1 < e + 250
    · left
      have hnotdue : TimerId.debounceTimer ∉ s.timers.due (s.now + 1) := by
        intro hmem
        obtain ⟨t, ht, hle⟩ := TimerQueue.mem_due.mp hmem
        have := ht.unique harmed
        omega
      refine ⟨e, hlast, hend, (hdue0 hnotdue).trans hflag, ?_⟩
      exact TimerQueue.armed_rest.mpr ⟨harmed, hend⟩
    · right
      have hmem : TimerId.debounceTimer ∈ s.timers.due (s.now + 1) :=
        TimerQueue.mem_due.mpr ⟨e + 250, harmed, by omega⟩
      refine ⟨?_, ?_, ?_⟩
      · intro e' he'
        obtain rfl : e = e' := Option.some.inj (hlast ▸ he')
        simp only [State.tick_now]
        omega
      · rw [show s.tick.app.flagSoundFirstPulse = 1 from hdue1 hmem]
        decide
      · intro t ht
        obtain ⟨ht, hlt⟩ := TimerQueue.armed_rest.mp ht
        have := ht.unique harmed
        omega
  · right
    have hnotdue : TimerId.debounceTimer ∉ s.timers.due (s.now + 1) := by
      intro hmem
      obtain ⟨t, ht, _⟩ := TimerQueue.mem_due.mp hmem
      exact hidle t ht
    refine ⟨?_, ?_, ?_⟩
    · intro e he
      have := hpast e he
      simp only [State.tick_now]
      omega
    · rw [show s.tick.app.flagSoundFirstPulse = _ from hdue0 hnotdue]
      exact hflag
    · intro t ht
      exact hidle t (TimerQueue.armed_rest.mp ht).1

/-- The last clap of the trace is the last clap of the last group. -/
theorem getLast?_claps {es : List ℕ} {done : List (List ℕ)} {g : List ℕ} {c : ℕ}
    (hgroups : groups es = done ++ [g]) (hlast : g.getLast? = some c) :
    (claps es).getLast? = some c := by
  have hflat : claps es = (groups es).flatten := (List.flatten_splitBy _ _).symm
  rw [hflat, hgroups, List.flatten_append, List.flatten_singleton, List.getLast?_append, hlast]
  rfl

/-- A tick closes the window exactly when it ends the 1000 ticks after the last clap,
and records the group then. -/
theorem window_tick {es : List ℕ} {s : State} (h : WindowOpen es s ∨ WindowClosed es s) :
    WindowOpen es s.tick ∨ WindowClosed es s.tick := by
  obtain ⟨_, _, hdue1, hdue0⟩ :=
    timeouts_effect (s.timers.nodup_due (s.now + 1)) (s.now + 1) s.app s.fires
  rw [← TimerQueue.check_snd] at hdue1 hdue0
  rcases h with ⟨done, g, c, hgroups, hlast, hnow, hcnt, hstate, harmed, hfires⟩ |
    ⟨hpast, hcnt, hstate, hidle, hfires⟩
  · by_cases hend : s.now + 1 < c + 1000
    · left
      have hnotdue : TimerId.clapSpaceTimer ∉ s.timers.due (s.now + 1) := by
        intro hmem
        obtain ⟨t, ht, hle⟩ := TimerQueue.mem_due.mp hmem
        have := ht.unique harmed
        omega
      obtain ⟨hcnt', hstate', -, hfires'⟩ := hdue0 hnotdue
      refine ⟨done, g, c, hgroups, hlast, hend, hcnt'.trans hcnt, hstate'.trans hstate,
        TimerQueue.armed_rest.mpr ⟨harmed, hend⟩, ?_⟩
      rw [show s.tick.fires = s.fires from hfires']
      exact hfires
    · right
      have hmem : TimerId.clapSpaceTimer ∈ s.timers.due (s.now + 1) :=
        TimerQueue.mem_due.mpr ⟨c + 1000, harmed, by omega⟩
      obtain ⟨hcnt', hstate', pre, hpre, -, -, hfires'⟩ := hdue1 hmem
      refine ⟨?_, hcnt', hstate', ?_, ?_⟩
      · intro c' hc'
        rw [getLast?_claps hgroups hlast] at hc'
        obtain rfl : c = c' := Option.some.inj hc'
        simp only [State.tick_now]
        omega
      · intro t ht
        obtain ⟨ht, hlt⟩ := TimerQueue.armed_rest.mp ht
        have := ht.unique harmed
        omega
      · rw [show s.tick.fires = _ from hfires', hgroups]
        refine List.rel_append hfires ?_
        refine List.Forall₂.cons ⟨rfl, hpre.trans hcnt, c, hlast, ?_⟩ List.Forall₂.nil
        simp only
        omega
  · right
    have hnotdue : TimerId.clapSpaceTimer ∉ s.timers.due (s.now + 1) := by
      intro hmem
      obtain ⟨t, ht, _⟩ := TimerQueue.mem_due.mp hmem
      exact hidle t ht
    obtain ⟨hcnt', hstate', -, hfires'⟩ := hdue0 hnotdue
    refine ⟨?_, hcnt'.trans hcnt, hstate'.trans hstate, ?_, ?_⟩
    · intro c hc
      have := hpast c hc
      simp only [State.tick_now]
      omega
    · intro t ht
      exact hidle t (TimerQueue.armed_rest.mp ht).1
    · rw [show s.tick.fires = s.fires from hfires']
      exact hfires

/-- The recogniser keeps track of the edges while time passes. -/
theorem Tracks.wait {es : List ℕ} {s : State} (h : Tracks es s) (n : ℕ) :
    Tracks es (State.wait n s) := by
  induction n with
  | zero => exact h
  | succ n ih =>
    rw [State.wait_succ]
    exact ⟨debounce_tick ih.1, window_tick ih.2⟩

/-! ### Edges -/

/-- An edge within the debounce time only restarts the debounce timer. -/
theorem onSoundlevel_ignored {s : State} (hflag : s.app.flagSoundFirstPulse = 0) :
    onSoundlevel s = s.rtTimerStart .debounceTimer := by
  simp [onSoundlevel, State.rtTimerStart, hflag]

/-- A counted edge restarts both timers, in either mode. -/
theorem onSoundlevel_counted {s : State} (hflag : s.app.flagSoundFirstPulse ≠ 0) :
    (onSoundlevel s).app =
        { s.app with
          cnt := wrap32 (s.app.cnt + 1)
          flagSoundFirstPulse := 0
          currState := .ledClap } ∧
      (onSoundlevel s).timers.Armed .debounceTimer (s.now + 250) ∧
      (onSoundlevel s).timers.Armed .clapSpaceTimer (s.now + 1000) ∧
      (onSoundlevel s).fires = s.fires := by
  cases hstate : s.app.currState with
  | ledIdle =>
    simp [onSoundlevel, State.rtTimerStart, hflag, hstate, TimerQueue.armed_start, initTick]
  | ledClap =>
    simp [onSoundlevel, State.rtTimerStart, State.rtTimerStop, hflag, hstate,
      TimerQueue.armed_start, TimerQueue.armed_stop, initTick]

/-- The window part of the invariant speaks of nothing that restarting the debounce
timer changes. -/
theorem window_rtTimerStart {es : List ℕ} {s : State}
    (h : WindowOpen es s ∨ WindowClosed es s) :
    WindowOpen es (s.rtTimerStart .debounceTimer) ∨
      WindowClosed es (s.rtTimerStart .debounceTimer) := by
  rcases h with ⟨done, g, c, hgroups, hlast, hnow, hcnt, hstate, harmed, hfires⟩ |
    ⟨hpast, hcnt, hstate, hidle, hfires⟩
  · left
    refine ⟨done, g, c, hgroups, hlast, hnow, hcnt, hstate, ?_, hfires⟩
    exact TimerQueue.armed_start.mpr (Or.inr ⟨harmed, by decide⟩)
  · right
    refine ⟨hpast, hcnt, hstate, ?_, hfires⟩
    intro t ht
    rcases TimerQueue.armed_start.mp ht with ⟨hne, _⟩ | ⟨ht, _⟩
    · cases hne
    · exact hidle t ht

/-- An edge at the current tick, after the edges `es`, keeps the invariant. The edge is
a clap exactly when the debounce time is over; a clap joins the open group or begins one. -/
theorem Tracks.onSoundlevel {es : List ℕ} {s : State} (h : Tracks es s) :
    Tracks (es ++ [s.now]) (onSoundlevel s) := by
  obtain ⟨hdebounce, hwindow⟩ := h
  rcases hdebounce with ⟨e, hlast, hnow, hflag, _⟩ | ⟨hpast, hflag, _⟩
  · have hclaps : claps (es ++ [s.now]) = claps es := claps_snoc_of_lt hlast hnow
    have hgroups : groups (es ++ [s.now]) = groups es := by rw [groups, hclaps, groups]
    rw [onSoundlevel_ignored hflag]
    refine ⟨Or.inl ⟨s.now, by simp, ?_, hflag, ?_⟩, ?_⟩
    · simp only [State.rtTimerStart]
      omega
    · exact TimerQueue.armed_start.mpr (Or.inl ⟨rfl, rfl⟩)
    · have hkeep := window_rtTimerStart hwindow
      unfold WindowOpen WindowClosed at hkeep ⊢
      rwa [hgroups, hclaps]
  · have hclaps : claps (es ++ [s.now]) = claps es ++ [s.now] := claps_snoc_of_le hpast
    obtain ⟨happ, hdarmed, hwarmed, hfires'⟩ := onSoundlevel_counted hflag
    refine ⟨Or.inl ⟨s.now, by simp, ?_, by rw [happ], hdarmed⟩, Or.inl ?_⟩
    · rw [onSoundlevel_now]
      omega
    rcases hwindow with ⟨done, g, c, hgroups, hlast, hnow, hcnt, _, _, hfires⟩ |
      ⟨hfar, hcnt, _, _, hfires⟩
    · refine ⟨done, g ++ [s.now], s.now, ?_, by simp, ?_, ?_, by rw [happ], hwarmed, ?_⟩
      · rw [groups, hclaps]
        exact splitBy_snoc_join hgroups hlast hnow
      · rw [onSoundlevel_now]
        omega
      · rw [happ, hcnt]
        simp only [wrap32, wrap, Int.bmod_add_bmod, List.length_append, List.length_singleton,
          Nat.cast_add, Nat.cast_one]
      · rwa [hfires']
    · refine ⟨groups es, [s.now], s.now, ?_, by simp, ?_, ?_, by rw [happ], hwarmed, ?_⟩
      · rw [groups, hclaps]
        exact splitBy_snoc_new hfar
      · rw [onSoundlevel_now]
        omega
      · rw [happ, hcnt]
        simp
      · rwa [hfires']

/-- The invariant holds after the edges of any increasing trace. -/
theorem Tracks.play {es : List ℕ} {s : State} (h : Tracks es s) {edges : List ℕ}
    (hfuture : ∀ e ∈ edges, s.now ≤ e) (hsorted : edges.Pairwise (· < ·)) :
    Tracks (es ++ edges) (s.play edges) := by
  induction edges generalizing es s with
  | nil => simpa [State.play] using h
  | cons e edges ih =>
    obtain ⟨hlt, hsorted⟩ := List.pairwise_cons.mp hsorted
    have hnow : (State.wait (e - s.now) s).now = e := by
      have := hfuture e (by simp)
      rw [State.wait_now]
      omega
    have hstep := (h.wait (e - s.now)).onSoundlevel
    rw [hnow] at hstep
    have hrest : ∀ e' ∈ edges, (Clap.onSoundlevel (State.wait (e - s.now) s)).now ≤ e' := by
      intro e' he'
      rw [onSoundlevel_now, hnow]
      exact (hlt e' he').le
    have hplay := ih hstep hrest hsorted
    simpa [State.play] using hplay

/-! ### The records and the globals

Ticks add a record exactly when they run `on_clap_space_timer`, and between two records
nothing writes the outputs. -/

/-- What leaves the outputs as they are adds nothing to account for. -/
theorem Linked.keep {a b c : App} {fires : List Fire} (h : Linked a fires b)
    (hkeep : outputs b = outputs c) : Linked a fires c := by
  induction fires generalizing a with
  | nil => exact h.trans hkeep
  | cons f fires ih => exact ⟨h.1, ih h.2⟩

/-- A further callback, which finds the outputs as they are and leaves those of `c`. -/
theorem Linked.snoc {a b c : App} {fires : List Fire} {f : Fire} (h : Linked a fires b)
    (hpre : outputs b = outputs f.pre) (hpost : outputs f.post = outputs c) :
    Linked a (fires ++ [f]) c := by
  induction fires generalizing a with
  | nil => exact ⟨h.trans hpre, hpost⟩
  | cons g fires ih => exact ⟨h.1, ih h.2⟩

/-- The records of the state `s`, reached from the globals `a`, are of the past and account for
the outputs. -/
structure Accounted (a : App) (s : State) : Prop where
  linked : Linked a s.fires s.app
  past : ∀ f ∈ s.fires, f.tick ≤ s.now

/-- A tick keeps the account: the record it may add is of this very tick. -/
theorem Accounted.tick {a : App} {s : State} (h : Accounted a s) : Accounted a s.tick := by
  obtain ⟨_, _, hdue1, hdue0⟩ :=
    timeouts_effect (s.timers.nodup_due (s.now + 1)) (s.now + 1) s.app s.fires
  rw [← TimerQueue.check_snd] at hdue1 hdue0
  have hpast : ∀ f ∈ s.fires, f.tick ≤ s.now + 1 := by
    intro f hf
    have := h.past f hf
    omega
  by_cases hmem : TimerId.clapSpaceTimer ∈ s.timers.due (s.now + 1)
  · obtain ⟨_, _, pre, _, hpre, hpost, hfires⟩ := hdue1 hmem
    have hfires' : s.tick.fires = s.fires ++ [⟨s.now + 1, pre, onClapSpaceTimer pre⟩] := hfires
    refine ⟨?_, ?_⟩
    · rw [hfires']
      exact h.linked.snoc hpre hpost
    · rw [hfires', State.tick_now]
      intro f hf
      rcases List.mem_append.mp hf with hf | hf
      · exact hpast f hf
      · rw [List.mem_singleton.mp hf]
  · obtain ⟨_, _, hkeep, hfires⟩ := hdue0 hmem
    have hfires' : s.tick.fires = s.fires := hfires
    refine ⟨?_, ?_⟩
    · rw [hfires']
      exact h.linked.keep hkeep
    · rw [hfires', State.tick_now]
      exact hpast

/-- Ticks keep the account. -/
theorem Accounted.wait {a : App} {s : State} (h : Accounted a s) (n : ℕ) :
    Accounted a (State.wait n s) := by
  induction n with
  | zero => exact h
  | succ n ih =>
    rw [State.wait_succ]
    exact ih.tick

/-- An edge runs no timer callback and writes no output. -/
theorem Accounted.onSoundlevel {a : App} {s : State} (h : Accounted a s) :
    Accounted a (onSoundlevel s) := by
  by_cases hflag : s.app.flagSoundFirstPulse = 0
  · rw [onSoundlevel_ignored hflag]
    exact ⟨h.linked, h.past⟩
  · obtain ⟨happ, _, _, hfires⟩ := onSoundlevel_counted hflag
    refine ⟨?_, ?_⟩
    · rw [hfires]
      refine h.linked.keep ?_
      rw [happ]
      rfl
    · rw [hfires, onSoundlevel_now]
      exact h.past

/-- Over any trace, the records account for the outputs. -/
theorem Accounted.play {a : App} {s : State} (h : Accounted a s) (edges : List ℕ) :
    Accounted a (s.play edges) := by
  induction edges generalizing s with
  | nil => exact h
  | cons e edges ih => exact ih (h.wait (e - s.now)).onSoundlevel

/-- The windows of the recorded groups are over. -/
theorem overBy_of_recorded {t : ℕ} {fires : List Fire} {gs : List (List ℕ)}
    (hrecorded : List.Forall₂ Recorded fires gs) (hpast : ∀ f ∈ fires, f.tick ≤ t) :
    ∀ g ∈ gs, overBy t g = true := by
  induction hrecorded with
  | nil => simp
  | @cons f g fires gs hfirst _ ih =>
    obtain ⟨hf, hrest⟩ := List.forall_mem_cons.mp hpast
    obtain ⟨_, _, c, hlast, htick⟩ := hfirst
    refine List.forall_mem_cons.mpr ⟨?_, ih hrest⟩
    simp only [overBy, hlast, Option.any_some, decide_eq_true_eq]
    omega

/-- The recorded groups are those whose windows are over. -/
theorem Tracks.recorded {a : App} {es : List ℕ} {s : State} (h : Tracks es s)
    (haccount : Accounted a s) :
    List.Forall₂ Recorded s.fires ((groups es).filter (overBy s.now)) := by
  rcases h.2 with ⟨done, g, c, hgroups, hlast, hnow, _, _, _, hrecorded⟩ |
    ⟨_, _, _, _, hrecorded⟩
  · have hdone : done.filter (overBy s.now) = done :=
      List.filter_eq_self.mpr (overBy_of_recorded hrecorded haccount.past)
    have hopen : overBy s.now g = false := by
      simp only [overBy, hlast, Option.any_some, decide_eq_false_iff_not]
      omega
    rw [hgroups, List.filter_append, hdone, List.filter_singleton, hopen]
    simpa using hrecorded
  · rw [List.filter_eq_self.mpr (overBy_of_recorded hrecorded haccount.past)]
    exact hrecorded

/-- While no window is open the recogniser is idle. -/
theorem Tracks.idle {es : List ℕ} {s : State} (h : Tracks es s)
    (hover : ∀ g ∈ groups es, overBy s.now g = true) :
    s.app.currState = .ledIdle ∧ s.app.cnt = 0 := by
  rcases h.2 with ⟨done, g, c, hgroups, hlast, hnow, _⟩ | ⟨_, hcnt, hstate, _⟩
  · have hg := hover g (by simp [hgroups])
    simp only [overBy, hlast, Option.any_some, decide_eq_true_eq] at hg
    omega
  · exact ⟨hstate, hcnt⟩

/-- The state after `timer_init` tracks the empty trace. -/
theorem tracks_timerInit {app : App} (hstate : app.currState = .ledIdle) (hcnt : app.cnt = 0)
    (hflag : app.flagSoundFirstPulse ≠ 0) : Tracks [] (State.timerInit app) :=
  ⟨Or.inr ⟨by simp, hflag, TimerQueue.idle_empty _⟩,
    Or.inr ⟨by simp [claps], hcnt, hstate, TimerQueue.idle_empty _, List.Forall₂.nil⟩⟩

/-- For every strictly increasing trace of edges and at every tick behind its last edge,
`on_clap_space_timer` has run exactly once for each group of claps whose last clap is 1000 ticks
past, exactly 1000 ticks after that clap; it inverts the LED status and requests a publication
exactly for the groups of two claps, and leaves the recogniser idle with its counter cleared. The
records say what happens to the globals themselves: from the initial ones to those of the tick,
nothing but the recorded callbacks writes the LED status, the request and the outputs of the
board. -/
theorem clap_recogniser_correct {app : App} (hstate : app.currState = .ledIdle)
    (hcnt : app.cnt = 0) (hflag : app.flagSoundFirstPulse ≠ 0) {edges : List ℕ}
    (hsorted : edges.Pairwise (· < ·)) (hshort : ∀ g ∈ groups edges, g.length < 2 ^ 31)
    (settle : ℕ) :
    Recognised app (groups edges) (State.wait settle ((State.timerInit app).play edges)) := by
  have htracks : Tracks edges ((State.timerInit app).play edges) := by
    have hplay := (tracks_timerInit hstate hcnt hflag).play (fun e _ => Nat.zero_le e) hsorted
    rwa [List.nil_append] at hplay
  have hboot : Accounted app (State.timerInit app) := ⟨rfl, by simp [State.timerInit]⟩
  have haccount := (hboot.play edges).wait settle
  have hrecorded := (htracks.wait settle).recorded haccount
  refine ⟨?_, haccount.linked, (htracks.wait settle).idle⟩
  refine List.forall₂_iff_get.mpr ⟨hrecorded.length_eq, ?_⟩
  intro i hi hj
  have hrec := (List.forall₂_iff_get.mp hrecorded).2 i hi hj
  exact hrec.closes (hshort _ (List.mem_of_mem_filter (List.get_mem ..)))

/-- Two claps 300 ticks apart with an echo after the first, then a lone clap: before the lone
clap and after its window. -/
theorem clap_recogniser_correct_three_claps :
    let app := App.boot ⟨fun _ => .low, .low, ⟨.low, .low, false⟩⟩
    groups [10, 60, 310, 2000] = [[10, 310], [2000]] ∧
      Recognised app [[10, 310]] (State.wait 1000 ((State.timerInit app).play [10, 60, 310])) ∧
      Recognised app [[10, 310], [2000]]
        (State.wait 1000 ((State.timerInit app).play [10, 60, 310, 2000])) := by
  intro app
  have hfirst : groups [10, 60, 310] = [[10, 310]] := by decide
  have hgroups : groups [10, 60, 310, 2000] = [[10, 310], [2000]] := by decide
  refine ⟨hgroups, ?_, ?_⟩
  · rw [← hfirst]
    exact clap_recogniser_correct rfl rfl (by decide) (by decide) (by rw [hfirst]; decide) 1000
  · rw [← hgroups]
    exact clap_recogniser_correct rfl rfl (by decide) (by decide) (by rw [hgroups]; decide) 1000

end Saliwen.Clap
