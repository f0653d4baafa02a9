import Mathlib.Data.List.Infix

/-!
# A one-bit request latch

Requesters raise a latch at any time. One worker tests it, clears it in a later step,
starts a piece of work, and finishes it. Requests that arrive while the latch is up
coalesce. The log records the events in order; the results say which requests a log
answers and which finished pieces of work it justifies.
-/

namespace Saliwen.Latch

/-- The visible events of a latch and its worker. -/
inductive Event where
  | request
  | clear
  | start
  | finish
  deriving DecidableEq, Repr

/-- Where the worker stands in its round. -/
inductive Phase where
  /-- Between rounds, or before the test of a round. -/
  | idle
  /-- After a successful test, before the clear. -/
  | tested
  /-- After the clear, before the work starts. -/
  | cleared
  /-- The work has started and not finished. -/
  | working
  deriving DecidableEq, Repr

/-- The latch, the worker and the events so far. -/
structure State where
  raised : Bool
  phase : Phase
  log : List Event

/-- One event of the system, or one silent step of the worker. -/
inductive Step : State → State → Prop where
  | request (s : State) : Step s ⟨true, s.phase, s.log ++ [.request]⟩
  | test (s : State) (hphase : s.phase = .idle) (hraised : s.raised = true) :
      Step s ⟨s.raised, .tested, s.log⟩
  | clear (s : State) (hphase : s.phase = .tested) :
      Step s ⟨false, .cleared, s.log ++ [.clear]⟩
  | start (s : State) (hphase : s.phase = .cleared) :
      Step s ⟨s.raised, .working, s.log ++ [.start]⟩
  | finish (s : State) (hphase : s.phase = .working) :
      Step s ⟨s.raised, .idle, s.log ++ [.finish]⟩

/-- Each finished piece of work has a clear of its own, after the previous finish. -/
def HasOwnClear (log : List Event) : Prop :=
  ∃ pre post, log = pre ++ .clear :: post ∧ .finish ∉ post

/-- A further finish is justified: there was a request, and one after the clear of every
round that has finished. -/
def Justified (log : List Event) : Prop :=
  .request ∈ log ∧
    ∀ pre mid post, log = pre ++ .clear :: mid ++ .finish :: post → .request ∈ mid ++ post

/-- No finish is invented: each has its own clear and was justified when it happened, and
there are no more of them than requests. -/
def NoneInvented (log : List Event) : Prop :=
  (∀ pre post, log = pre ++ .finish :: post → HasOwnClear pre ∧ Justified pre) ∧
    log.count .finish ≤ log.count .request

/-- No request is lost: each was followed by the start of a piece of work, or the latch is
still up, or the worker is on its way from a successful test to that start. -/
def NoneLost (s : State) : Prop :=
  ∀ pre post, s.log = pre ++ .request :: post →
    .start ∈ post ∨ s.raised = true ∨ s.phase = .tested ∨ s.phase = .cleared

/-- There was a request, and one after every clear. -/
def RequestedSinceClear (log : List Event) : Prop :=
  .request ∈ log ∧ ∀ pre post, log = pre ++ .clear :: post → .request ∈ post

/-- What the latch and the worker know about the log. -/
structure Inv (s : State) : Prop where
  raised : s.raised = true → RequestedSinceClear s.log
  tested : s.phase = .tested → s.raised = true
  round : s.phase = .cleared ∨ s.phase = .working → HasOwnClear s.log ∧ Justified s.log
  finishes : ∀ pre post, s.log = pre ++ .finish :: post → HasOwnClear pre ∧ Justified pre
  counted : s.log.count .finish + (if s.phase = .cleared ∨ s.phase = .working then 1 else 0) +
    (if s.raised = true then 1 else 0) ≤ s.log.count .request
  lost : NoneLost s

/-- Splitting an extended log at an event: the event is the new one, or the split is one
of the old log. -/
theorem snoc_eq_split {l pre post : List Event} {x y : Event} :
    l ++ [x] = pre ++ y :: post ↔
      (post = [] ∧ pre = l ∧ y = x) ∨ ∃ rest, post = rest ++ [x] ∧ l = pre ++ y :: rest := by
  constructor
  · intro h
    rcases List.eq_nil_or_concat post with rfl | ⟨rest, z, rfl⟩
    · left
      obtain ⟨hl, hx⟩ := List.append_inj' h rfl
      simp_all
    · right
      have hassoc : l ++ [x] = (pre ++ y :: rest) ++ [z] := by simpa using h
      obtain ⟨hl, hx⟩ := List.append_inj' hassoc rfl
      exact ⟨rest, by simp_all, hl⟩
  · rintro (⟨rfl, rfl, rfl⟩ | ⟨rest, rfl, rfl⟩)
    · rfl
    · simp

/-- A request has come since the last clear right after it. -/
theorem RequestedSinceClear.request (log : List Event) :
    RequestedSinceClear (log ++ [.request]) := by
  refine ⟨by simp, ?_⟩
  intro pre post h
  rcases snoc_eq_split.mp h with ⟨_, _, hclash⟩ | ⟨rest, rfl, _⟩
  · cases hclash
  · simp

/-- A request stays until the next clear. -/
theorem RequestedSinceClear.snoc {log : List Event} (h : RequestedSinceClear log) {x : Event}
    (hx : x ≠ .clear) : RequestedSinceClear (log ++ [x]) := by
  refine ⟨List.mem_append_left _ h.1, ?_⟩
  intro pre post hlog
  rcases snoc_eq_split.mp hlog with ⟨_, _, hclash⟩ | ⟨rest, rfl, hrest⟩
  · exact absurd hclash.symm hx
  · exact List.mem_append_left _ (h.2 pre rest hrest)

/-- A request after every clear justifies a further finish. -/
theorem RequestedSinceClear.justified {log : List Event} (h : RequestedSinceClear log) :
    Justified log := by
  refine ⟨h.1, ?_⟩
  intro pre mid post hlog
  have hmem := h.2 pre (mid ++ .finish :: post) (by simp [hlog])
  simpa using hmem

/-- What justified a round stays until it finishes. -/
theorem Justified.snoc {log : List Event} (h : Justified log) {x : Event}
    (hx : x ≠ .finish) : Justified (log ++ [x]) := by
  refine ⟨List.mem_append_left _ h.1, ?_⟩
  intro pre mid post hlog
  rcases snoc_eq_split.mp hlog with ⟨_, _, hclash⟩ | ⟨rest, rfl, hrest⟩
  · exact absurd hclash.symm hx
  · rw [← List.append_assoc]
    exact List.mem_append_left _ (h.2 pre mid rest hrest)

/-- A round has its own clear right after it. -/
theorem HasOwnClear.clear (log : List Event) : HasOwnClear (log ++ [.clear]) :=
  ⟨log, [], rfl, by simp⟩

/-- A round keeps its own clear until it finishes. -/
theorem HasOwnClear.snoc {log : List Event} (h : HasOwnClear log) {x : Event}
    (hx : x ≠ .finish) : HasOwnClear (log ++ [x]) := by
  obtain ⟨pre, post, rfl, hpost⟩ := h
  refine ⟨pre, post ++ [x], by simp, ?_⟩
  simp only [List.mem_append, List.mem_singleton, not_or]
  exact ⟨hpost, hx.symm⟩

/-- The earlier finishes of an extended log are those of the log. -/
theorem finishes_snoc {P : List Event → Prop} {log : List Event} {x : Event}
    (h : ∀ pre post, log = pre ++ .finish :: post → P pre) (hx : x = .finish → P log) :
    ∀ pre post, log ++ [x] = pre ++ .finish :: post → P pre := by
  intro pre post hlog
  rcases snoc_eq_split.mp hlog with ⟨_, rfl, hfinish⟩ | ⟨rest, _, hrest⟩
  · exact hx hfinish.symm
  · exact h pre rest hrest

/-- Requests of an extended log: the new event, or a request of the log with the new event
behind it. -/
theorem requests_snoc {P : List Event → Prop} {log : List Event} {x : Event}
    (hold : ∀ pre post, log = pre ++ .request :: post → P (post ++ [x]))
    (hnew : x = .request → P []) :
    ∀ pre post, log ++ [x] = pre ++ .request :: post → P post := by
  intro pre post hlog
  rcases snoc_eq_split.mp hlog with ⟨rfl, _, hrequest⟩ | ⟨rest, rfl, hrest⟩
  · exact hnew hrequest.symm
  · exact hold pre rest hrest

/-- A request raises the latch behind every clear. -/
theorem Inv.request {s : State} (h : Inv s) :
    Inv ⟨true, s.phase, s.log ++ [.request]⟩ := by
  have hcount := h.counted
  constructor
  · intro _
    exact RequestedSinceClear.request s.log
  · intro _
    rfl
  · intro hphase
    obtain ⟨hclear, hjust⟩ := h.round hphase
    exact ⟨hclear.snoc (by decide), hjust.snoc (by decide)⟩
  · exact finishes_snoc h.finishes (by intro hx; cases hx)
  · simp only [List.count_append, List.count_singleton]
    grind
  · intro pre post _
    exact Or.inr (Or.inl rfl)

/-- A successful test finds the latch up and leaves it so. -/
theorem Inv.test {s : State} (h : Inv s) (hphase : s.phase = .idle) (hraised : s.raised = true) :
    Inv ⟨s.raised, .tested, s.log⟩ := by
  have hcount := h.counted
  constructor
  · exact h.raised
  · intro _
    exact hraised
  · intro hclash
    simp at hclash
  · exact h.finishes
  · simp only [hphase] at hcount
    simpa using hcount
  · intro pre post _
    exact Or.inr (Or.inl hraised)

/-- A clear comes after a successful test, so the round it begins is justified. -/
theorem Inv.clear {s : State} (h : Inv s) (hphase : s.phase = .tested) :
    Inv ⟨false, .cleared, s.log ++ [.clear]⟩ := by
  have hcount := h.counted
  have hraised := h.tested hphase
  have hjust := (h.raised hraised).justified
  constructor
  · intro hclash
    cases hclash
  · intro hclash
    cases hclash
  · intro _
    exact ⟨HasOwnClear.clear s.log, hjust.snoc (by decide)⟩
  · exact finishes_snoc h.finishes (by intro hx; cases hx)
  · simp only [hphase, hraised] at hcount
    simpa [List.count_append] using hcount
  · intro pre post _
    exact Or.inr (Or.inr (Or.inr rfl))

/-- The start of the work answers every request made so far. -/
theorem Inv.start {s : State} (h : Inv s) (hphase : s.phase = .cleared) :
    Inv ⟨s.raised, .working, s.log ++ [.start]⟩ := by
  have hcount := h.counted
  obtain ⟨hclear, hjust⟩ := h.round (Or.inl hphase)
  constructor
  · intro hraised
    exact (h.raised hraised).snoc (by decide)
  · intro hclash
    cases hclash
  · intro _
    exact ⟨hclear.snoc (by decide), hjust.snoc (by decide)⟩
  · exact finishes_snoc h.finishes (by intro hx; cases hx)
  · simp only [hphase] at hcount
    simpa [List.count_append] using hcount
  · refine requests_snoc ?_ (by intro hx; cases hx)
    intro pre post _
    exact Or.inl (by simp)

/-- A finish ends a justified round; requests it does not answer keep the latch up. -/
theorem Inv.finish {s : State} (h : Inv s) (hphase : s.phase = .working) :
    Inv ⟨s.raised, .idle, s.log ++ [.finish]⟩ := by
  have hcount := h.counted
  have hround := h.round (Or.inr hphase)
  constructor
  · intro hraised
    exact (h.raised hraised).snoc (by decide)
  · intro hclash
    cases hclash
  · intro hclash
    simp at hclash
  · exact finishes_snoc h.finishes fun _ => hround
  · simp only [hphase] at hcount
    simp only [List.count_append, List.count_singleton]
    grind
  · refine requests_snoc ?_ (by intro hx; cases hx)
    intro pre post hlog
    rcases h.lost pre post hlog with hstart | hraised | hclash | hclash
    · exact Or.inl (List.mem_append_left _ hstart)
    · exact Or.inr (Or.inl hraised)
    · rw [hphase] at hclash
      cases hclash
    · rw [hphase] at hclash
      cases hclash

/-- Every step keeps the invariant. -/
theorem Inv.step {s t : State} (h : Inv s) (hstep : Step s t) : Inv t := by
  cases hstep with
  | request => exact h.request
  | test hphase hraised => exact h.test hphase hraised
  | clear hphase => exact h.clear hphase
  | start hphase => exact h.start hphase
  | finish hphase => exact h.finish hphase

/-- The latch is down, the worker idle and nothing has happened. -/
def State.boot : State := ⟨false, .idle, []⟩

/-- At the start nothing has been requested. -/
theorem Inv.boot : Inv State.boot := by
  constructor
  · intro hclash
    cases hclash
  · intro hclash
    cases hclash
  · intro hclash
    simp [State.boot] at hclash
  · intro pre post hlog
    simp [State.boot] at hlog
  · simp [State.boot]
  · intro pre post hlog
    simp [State.boot] at hlog

/-- The invariant bounds the finishes by the requests. -/
theorem Inv.noneInvented {s : State} (h : Inv s) : NoneInvented s.log := by
  refine ⟨h.finishes, ?_⟩
  have hcount := h.counted
  omega

end Saliwen.Latch
