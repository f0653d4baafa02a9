import Saliwen.Lib.Run
import Mathlib.Logic.Function.Basic

/-!
# Interleaved straight-line calls

Contexts share one state. A call loads the list of operations of its program into its
context; the scheduler then executes pending operations one at a time, in any order
between contexts and in program order within one. A property that calls are meant to
establish is observed in the quiet states, those in which no call is in progress.
-/

namespace Saliwen.Interleave

variable {κ γ ω σ : Type*} [DecidableEq κ]

/-- A shared state, the operations each context still has to execute, and the number
of calls completed so far. -/
structure Sys (κ ω σ : Type*) where
  shared : σ
  pending : κ → List ω
  finished : ℕ

/-- A scheduling decision: a context begins a call, or executes its next operation. -/
inductive Label (κ γ : Type*) where
  | call (c : κ) (arg : γ)
  | exec (c : κ)

variable (exec : σ → ω → σ) (program : γ → List ω)

/-- One scheduling decision. A context in the middle of a call cannot begin another,
and a context without pending operations has nothing to execute. -/
def step (s : Sys κ ω σ) : Label κ γ → Sys κ ω σ
  | .call c arg =>
    if s.pending c = [] then
      { s with pending := Function.update s.pending c (program arg) }
    else s
  | .exec c =>
    match s.pending c with
    | [] => s
    | op :: rest =>
      { shared := exec s.shared op
        pending := Function.update s.pending c rest
        finished := if rest = [] then s.finished + 1 else s.finished }

/-- The state before any call. -/
def start (x : σ) : Sys κ ω σ := ⟨x, fun _ => [], 0⟩

/-- No call is in progress. -/
def Quiet (s : Sys κ ω σ) : Prop := ∀ c, s.pending c = []

/-- Context `c` is the only one in a call, and `op` is the last operation of that call. -/
def Closing (s : Sys κ ω σ) (c : κ) (op : ω) : Prop :=
  s.pending c = [op] ∧ ∀ c', c' ≠ c → s.pending c' = []

/-- The property holds of the shared state whenever no call is in progress and at
least one has completed. -/
def HoldsWhenQuiet (P : σ → Prop) (s : Sys κ ω σ) : Prop :=
  Quiet s → 0 < s.finished → P s.shared

/-- What a scheduling decision does to the call of a context. -/
inductive Event (κ γ : Type*) where
  /-- The context begins a call. -/
  | begins (c : κ) (arg : γ)
  /-- The context executes an operation that is not the last one of its call. -/
  | works (c : κ)
  /-- The context executes the last operation of its call. -/
  | ends (c : κ)

/-- The event of a scheduling decision; one without effect has none. -/
def event (s : Sys κ ω σ) : Label κ γ → Option (Event κ γ)
  | .call c arg => if s.pending c = [] then some (.begins c arg) else none
  | .exec c =>
    match s.pending c with
    | [] => none
    | [_] => some (.ends c)
    | _ :: _ :: _ => some (.works c)

/-- The argument with which an event begins a call of the context `c`. -/
def Event.argOf (c : κ) : Event κ γ → Option γ
  | .begins c' arg => if c' = c then some arg else none
  | _ => none

/-- The argument of the latest call that the context `c` has begun. -/
def lastArg (es : List (Event κ γ)) (c : κ) : Option γ := (es.filterMap (Event.argOf c)).getLast?

/-- An event that does not begin a call of the context leaves its latest call as it is. -/
theorem lastArg_snoc {κ γ : Type*} [DecidableEq κ] (es : List (Event κ γ)) (e : Event κ γ) (c : κ) :
    lastArg (es ++ [e]) c = (e.argOf c).or (lastArg es c) := by
  unfold lastArg
  rw [List.filterMap_append, List.getLast?_append]
  cases hcall : e.argOf c with
  | none => simp [hcall]
  | some arg => simp [hcall]

omit [DecidableEq κ] in
/-- A call ends with the execution of its last operation. -/
theorem event_eq_ends_iff {s : Sys κ ω σ} {a : Label κ γ} {c : κ} :
    event s a = some (.ends c) ↔ a = .exec c ∧ ∃ op, s.pending c = [op] := by
  cases a with
  | call c' arg => simp [event]
  | exec c' =>
    constructor
    · intro h
      rcases hpending : s.pending c' with _ | ⟨op, _ | ⟨op', rest⟩⟩
      · simp [event, hpending] at h
      · obtain rfl : c' = c := by simpa [event, hpending] using h
        exact ⟨rfl, op, hpending⟩
      · simp [event, hpending] at h
    · rintro ⟨hc, op, hpending⟩
      obtain rfl : c' = c := by simpa using hc
      simp [event, hpending]

/-- Every scheduling decision is without effect, begins a call, or executes an operation of a
call, the last one or another one. -/
theorem step_cases (s : Sys κ ω σ) (a : Label κ γ) :
    (event s a = none ∧ step exec program s a = s) ∨
    (∃ c arg, s.pending c = [] ∧ event s a = some (.begins c arg) ∧
      step exec program s a =
        { s with pending := Function.update s.pending c (program arg) }) ∨
    (∃ c op rest, s.pending c = op :: rest ∧ rest ≠ [] ∧ event s a = some (.works c) ∧
      step exec program s a =
        { s with shared := exec s.shared op, pending := Function.update s.pending c rest }) ∨
    (∃ c op, s.pending c = [op] ∧ event s a = some (.ends c) ∧
      step exec program s a =
        ⟨exec s.shared op, Function.update s.pending c [], s.finished + 1⟩) := by
  cases a with
  | call c arg =>
    by_cases hidle : s.pending c = []
    · exact Or.inr (Or.inl ⟨c, arg, hidle, by simp [event, hidle], by simp [step, hidle]⟩)
    · exact Or.inl ⟨by simp [event, hidle], by simp [step, hidle]⟩
  | exec c =>
    rcases hpending : s.pending c with _ | ⟨op, _ | ⟨op', rest⟩⟩
    · exact Or.inl ⟨by simp [event, hpending], by simp [step, hpending]⟩
    · exact Or.inr (Or.inr (Or.inr
        ⟨c, op, hpending, by simp [event, hpending], by simp [step, hpending]⟩))
    · exact Or.inr (Or.inr (Or.inl ⟨c, op, op' :: rest, hpending, by simp,
        by simp [event, hpending], by simp [step, hpending]⟩))

/-- The events of a schedule from the state before any call. -/
abbrev eventsOf (x : σ) (l : List (Label κ γ)) : List (Event κ γ) :=
  Run.trace (step exec program) event (start x) l

/-- What a context still has to execute is the end of the program of its latest call. -/
theorem pending_suffix (x : σ) (l : List (Label κ γ)) (c : κ) :
    (Run.after (step exec program) (start x) l).pending c = [] ∨
      ∃ arg, lastArg (eventsOf exec program x l) c = some arg ∧
        (Run.after (step exec program) (start x) l).pending c <:+ program arg := by
  induction l using List.reverseRecOn with
  | nil => exact Or.inl rfl
  | append_singleton l a ih =>
    rw [Run.after_snoc, eventsOf, Run.trace_snoc]
    rcases step_cases exec program (Run.after (step exec program) (start x) l) a with
      ⟨hevent, hstep⟩ | ⟨c', arg', hidle, hevent, hstep⟩ |
        ⟨c', op, rest, hpending, _, hevent, hstep⟩ | ⟨c', op, hpending, hevent, hstep⟩
    · rwa [hevent, hstep, Option.toList_none, List.append_nil]
    · rw [hevent, hstep, Option.toList_some, lastArg_snoc]
      by_cases hc : c' = c
      · subst hc
        exact Or.inr ⟨arg', by simp [Event.argOf], by simp⟩
      · simpa [Event.argOf, hc, Function.update_of_ne (Ne.symm hc)] using ih
    · rw [hevent, hstep, Option.toList_some, lastArg_snoc]
      by_cases hc : c' = c
      · subst hc
        rcases ih with hnone | ⟨arg, harg, hsuffix⟩
        · simp [hpending] at hnone
        · rw [hpending] at hsuffix
          exact Or.inr ⟨arg, by simpa [Event.argOf] using harg,
            by simpa using (List.suffix_cons op rest).trans hsuffix⟩
      · simpa [Event.argOf, Function.update_of_ne (Ne.symm hc)] using ih
    · rw [hevent, hstep, Option.toList_some, lastArg_snoc]
      by_cases hc : c' = c
      · subst hc
        exact Or.inl (by simp)
      · simpa [Event.argOf, Function.update_of_ne (Ne.symm hc)] using ih

variable {exec program}

/-- Executing an operation leads to a quiet state exactly when it closes the only
call in progress. -/
theorem quiet_step_exec_iff {s : Sys κ ω σ} {c : κ} {op : ω} {rest : List ω}
    (hpending : s.pending c = op :: rest) :
    Quiet (step exec program s (.exec c)) ↔ Closing s c op := by
  have hnext : (step exec program s (.exec c)).pending = Function.update s.pending c rest := by
    simp only [step, hpending]
  unfold Quiet Closing
  rw [hnext, hpending]
  constructor
  · intro h
    have hrest : rest = [] := by simpa using h c
    refine ⟨by rw [hrest], fun c' hc' => ?_⟩
    simpa [Function.update_of_ne hc'] using h c'
  · rintro ⟨hrest, hothers⟩ c'
    by_cases hc : c' = c
    · subst hc
      simpa using hrest
    · simpa [Function.update_of_ne hc] using hothers c' hc

/-- A property holds in every quiet state of a schedule exactly when every operation
that closes the only call in progress establishes it. -/
theorem always_holdsWhenQuiet_iff (P : σ → Prop) (x : σ) (l : List (Label κ γ)) :
    Run.Always (step exec program) (HoldsWhenQuiet P) (start x) l ↔
      Run.EachStep (step exec program)
        (fun s a => ∀ c op, a = .exec c → Closing s c op → P (exec s.shared op)) (start x) l := by
  refine Run.always_iff_eachStep (I := HoldsWhenQuiet P) (fun _ h => h) ?_ ?_ ?_ l
  · intro s a hs ha
    cases a with
    | call c arg =>
      simp only [step]
      split
      · rename_i hidle
        intro hquiet hfinished
        -- The call just begun has an empty program, so the state was quiet before.
        have hprogram : program arg = [] := by simpa using hquiet c
        have hsame : Function.update s.pending c (program arg) = s.pending := by
          rw [hprogram, ← hidle, Function.update_eq_self]
        exact hs (fun c' => by simpa [hsame] using hquiet c') hfinished
      · exact hs
    | exec c =>
      cases hpending : s.pending c with
      | nil => simpa only [step, hpending] using hs
      | cons op rest =>
        intro hquiet _
        have hclosing := (quiet_step_exec_iff hpending).mp hquiet
        simpa only [step, hpending] using ha c op rfl hclosing
  · intro s a _ ha hP
    push Not at ha
    obtain ⟨c, op, rfl, hclosing, hnot⟩ := ha
    apply hnot
    have hpending : s.pending c = op :: [] := hclosing.1
    have hquiet : Quiet (step exec program s (.exec c)) :=
      (quiet_step_exec_iff hpending).mpr hclosing
    have hfinished : 0 < (step exec program s (.exec c)).finished := by
      simp only [step, hpending, if_true]
      omega
    simpa only [step, hpending] using hP hquiet hfinished
  · intro _ hfinished
    simp [start] at hfinished

end Saliwen.Interleave
