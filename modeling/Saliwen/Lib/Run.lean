import Mathlib.Data.List.Infix

/-!
# Schedules of a transition function

A system is a state type, a label type and a step function. A label whose guard
fails leaves the state as it is, so every list of labels is a schedule and the
reachable states are exactly the states after some schedule. The rules below
turn facts about one step into facts about all states and all steps of a schedule.
-/

namespace Saliwen.Run

variable {σ α : Type*} (step : σ → α → σ)

/-- The state after executing a schedule. -/
def after (s : σ) (l : List α) : σ := l.foldl step s

/-- A state predicate holds in every state visited by a schedule, including
the initial state and the final one. -/
def Always (P : σ → Prop) (s : σ) (l : List α) : Prop :=
  ∀ l₁, l₁ <+: l → P (after step s l₁)

/-- Every step of a schedule meets a condition on the state before the step
and on the label executed there. -/
def EachStep (C : σ → α → Prop) (s : σ) (l : List α) : Prop :=
  ∀ l₁ a, l₁ ++ [a] <+: l → C (after step s l₁) a

variable {step}

/-- An empty schedule leaves the state as it is. -/
@[simp] theorem after_nil (s : σ) : after step s [] = s := rfl

/-- The first step of a schedule comes first. -/
@[simp] theorem after_cons (s : σ) (a : α) (l : List α) :
    after step s (a :: l) = after step (step s a) l := rfl

/-- Two schedules in sequence. -/
theorem after_append (s : σ) (l₁ l₂ : List α) :
    after step s (l₁ ++ l₂) = after step (after step s l₁) l₂ := List.foldl_append ..

/-- The last step of a schedule comes last. -/
@[simp] theorem after_snoc (s : σ) (l : List α) (a : α) :
    after step s (l ++ [a]) = step (after step s l) a := by
  rw [after_append, after_cons, after_nil]

/-- Every state of an extended schedule is a state of the shorter schedule or
the new final state. -/
theorem always_snoc {P : σ → Prop} {s : σ} {l : List α} {a : α} :
    Always step P s (l ++ [a]) ↔ Always step P s l ∧ P (step (after step s l) a) := by
  constructor
  · intro h
    refine ⟨fun l₁ hl => h l₁ (hl.trans (List.prefix_append l [a])), ?_⟩
    simpa using h (l ++ [a]) List.prefix_rfl
  · rintro ⟨hall, hlast⟩ l₁ hl
    rcases List.prefix_concat_iff.mp hl with rfl | hl
    · simpa using hlast
    · exact hall l₁ hl

/-- Every step of an extended schedule is a step of the shorter schedule or
the new final step. -/
theorem eachStep_snoc {C : σ → α → Prop} {s : σ} {l : List α} {a : α} :
    EachStep step C s (l ++ [a]) ↔ EachStep step C s l ∧ C (after step s l) a := by
  constructor
  · intro h
    exact ⟨fun l₁ b hl => h l₁ b (hl.trans (List.prefix_append l [a])),
      h l a List.prefix_rfl⟩
  · rintro ⟨hall, hlast⟩ l₁ b hl
    rcases List.prefix_concat_iff.mp hl with heq | hl
    · obtain ⟨rfl, hb⟩ := List.append_inj' heq rfl
      obtain rfl : b = a := by simpa using hb
      exact hlast
    · exact hall l₁ b hl

/-- An empty schedule visits the initial state only. -/
theorem always_nil {P : σ → Prop} {s : σ} : Always step P s [] ↔ P s := by
  constructor
  · intro h
    exact h [] List.prefix_rfl
  · intro h l₁ hl
    rw [List.prefix_nil.mp hl]
    exact h

/-- An empty schedule has no steps. -/
theorem eachStep_nil {C : σ → α → Prop} {s : σ} : EachStep step C s [] := by
  intro l₁ a hl
  simp at hl

/-- The states of a schedule are its first state and those of the rest. -/
theorem always_cons {P : σ → Prop} {s : σ} {a : α} {l : List α} :
    Always step P s (a :: l) ↔ P s ∧ Always step P (step s a) l := by
  constructor
  · intro h
    refine ⟨h [] (List.nil_prefix), fun l₁ hl => ?_⟩
    exact h (a :: l₁) (List.cons_prefix_cons.mpr ⟨rfl, hl⟩)
  · rintro ⟨hfirst, hrest⟩ l₁ hl
    cases l₁ with
    | nil => exact hfirst
    | cons b l₁ =>
      obtain ⟨rfl, htail⟩ := List.cons_prefix_cons.mp hl
      exact hrest l₁ htail

/-- The steps of a schedule are its first step and those of the rest. -/
theorem eachStep_cons {C : σ → α → Prop} {s : σ} {a : α} {l : List α} :
    EachStep step C s (a :: l) ↔ C s a ∧ EachStep step C (step s a) l := by
  constructor
  · intro h
    refine ⟨h [] a (List.cons_prefix_cons.mpr ⟨rfl, List.nil_prefix⟩), fun l₁ b hl => ?_⟩
    exact h (a :: l₁) b (List.cons_prefix_cons.mpr ⟨rfl, hl⟩)
  · rintro ⟨hfirst, hrest⟩ l₁ b hl
    cases l₁ with
    | nil =>
      obtain ⟨rfl, -⟩ := List.cons_prefix_cons.mp hl
      exact hfirst
    | cons c l₁ =>
      obtain ⟨rfl, htail⟩ := List.cons_prefix_cons.mp hl
      exact hrest l₁ b htail

/-- Steps whose labels meet the condition in every state may be appended. -/
theorem eachStep_append {C : σ → α → Prop} {s : σ} {l l' : List α} (h : EachStep step C s l)
    (h' : ∀ a ∈ l', ∀ t, C t a) : EachStep step C s (l ++ l') := by
  induction l' using List.reverseRecOn with
  | nil => simpa using h
  | append_singleton l' a ih =>
    rw [← List.append_assoc, eachStep_snoc]
    exact ⟨ih fun b hb => h' b (List.mem_append_left _ hb), h' a (by simp) _⟩

/-- A condition on the labels alone is a condition on the members of the schedule. -/
theorem eachStep_label_iff {Q : α → Prop} {s : σ} {l : List α} :
    EachStep step (fun _ a => Q a) s l ↔ ∀ a ∈ l, Q a := by
  induction l using List.reverseRecOn with
  | nil => simp [eachStep_nil]
  | append_singleton l a ih =>
    rw [eachStep_snoc, ih]
    simp only [List.mem_append, List.mem_singleton]
    constructor
    · rintro ⟨hl, ha⟩ b (hb | rfl)
      · exact hl b hb
      · exact ha
    · intro h
      exact ⟨fun b hb => h b (Or.inl hb), h a (Or.inr rfl)⟩

/-- The invariant rule: what holds initially and is kept by every step meeting
the condition holds after every schedule whose steps all meet it. -/
theorem inv_after {I : σ → Prop} {C : σ → α → Prop}
    (hstep : ∀ s a, I s → C s a → I (step s a)) {s : σ} (h0 : I s) {l : List α}
    (hl : EachStep step C s l) : I (after step s l) := by
  induction l using List.reverseRecOn with
  | nil => exact h0
  | append_singleton l a ih =>
    obtain ⟨hl, ha⟩ := eachStep_snoc.mp hl
    rw [after_snoc]
    exact hstep _ _ (ih hl) ha

/-- The invariant rule for a property of every state visited. -/
theorem always_of_eachStep {I P : σ → Prop} {C : σ → α → Prop} (hP : ∀ s, I s → P s)
    (hstep : ∀ s a, I s → C s a → I (step s a)) {s : σ} (h0 : I s) {l : List α}
    (hl : EachStep step C s l) : Always step P s l := by
  intro l₁ hl₁
  apply hP
  exact inv_after hstep h0 fun l₂ a hl₂ => hl l₂ a (hl₂.trans hl₁)

/-- The unconditional invariant rule. -/
theorem inv_of_step {I : σ → Prop} (hstep : ∀ s a, I s → I (step s a)) {s : σ}
    (h0 : I s) (l : List α) : I (after step s l) := by
  induction l using List.reverseRecOn with
  | nil => exact h0
  | append_singleton l a ih =>
    rw [after_snoc]
    exact hstep _ _ ih

/-- The exactness rule. If the steps meeting a condition keep an invariant that
implies the property, and from the invariant every other step destroys the property,
then a schedule keeps the property throughout exactly when all its steps meet the
condition. -/
theorem always_iff_eachStep {I P : σ → Prop} {C : σ → α → Prop}
    (hP : ∀ s, I s → P s) (hgood : ∀ s a, I s → C s a → I (step s a))
    (hbad : ∀ s a, I s → ¬ C s a → ¬ P (step s a)) {s : σ} (h0 : I s) (l : List α) :
    Always step P s l ↔ EachStep step C s l := by
  induction l using List.reverseRecOn with
  | nil => exact iff_of_true (always_nil.mpr (hP s h0)) eachStep_nil
  | append_singleton l a ih =>
    rw [always_snoc, eachStep_snoc, ih]
    constructor
    · rintro ⟨hl, hlast⟩
      refine ⟨hl, ?_⟩
      by_contra hC
      exact hbad _ _ (inv_after hgood h0 hl) hC hlast
    · rintro ⟨hl, hC⟩
      exact ⟨hl, hP _ (hgood _ _ (inv_after hgood h0 hl) hC)⟩

/-! ### What an observer notes of a schedule -/

/-- The notes of an observer who notes down at most one thing at each step, by the state
before the step and the label executed there. -/
def trace {ε : Type*} (step : σ → α → σ) (note : σ → α → Option ε) : σ → List α → List ε
  | _, [] => []
  | s, a :: l => (note s a).toList ++ trace step note (step s a) l

variable {ε : Type*} {note : σ → α → Option ε}

/-- Nothing is noted of an empty schedule. -/
@[simp] theorem trace_nil (s : σ) : trace step note s [] = [] := rfl

/-- The notes of two schedules in sequence. -/
theorem trace_append (s : σ) (l₁ l₂ : List α) :
    trace step note s (l₁ ++ l₂) =
      trace step note s l₁ ++ trace step note (after step s l₁) l₂ := by
  induction l₁ generalizing s with
  | nil => rfl
  | cons a l₁ ih => rw [List.cons_append, trace, trace, ih, after_cons, List.append_assoc]

/-- The note of the last step comes last. -/
@[simp] theorem trace_snoc (s : σ) (l : List α) (a : α) :
    trace step note s (l ++ [a]) =
      trace step note s l ++ (note (after step s l) a).toList := by
  rw [trace_append, trace, trace_nil, List.append_nil]

/-- A step with a note splits the notes of the schedule. -/
theorem trace_append_cons {s : σ} {l₁ l₂ : List α} {a : α} {e : ε}
    (h : note (after step s l₁) a = some e) :
    trace step note s (l₁ ++ a :: l₂) =
      trace step note s l₁ ++ e :: trace step note (after step s (l₁ ++ [a])) l₂ := by
  rw [trace_append, trace, h, after_snoc, Option.toList_some, List.singleton_append]

/-- A note splits the schedule at the step it was taken. -/
theorem trace_eq_append_cons {s : σ} {l : List α} {pre post : List ε} {e : ε}
    (h : trace step note s l = pre ++ e :: post) :
    ∃ l₁ a l₂, l = l₁ ++ a :: l₂ ∧ note (after step s l₁) a = some e ∧
      trace step note s l₁ = pre ∧ trace step note (after step s (l₁ ++ [a])) l₂ = post := by
  induction l generalizing s pre with
  | nil => simp at h
  | cons b l ih =>
    rw [trace] at h
    cases hnote : note s b with
    | none =>
      rw [hnote, Option.toList_none, List.nil_append] at h
      obtain ⟨l₁, a, l₂, rfl, ha, hpre, hpost⟩ := ih h
      exact ⟨b :: l₁, a, l₂, rfl, ha, by rw [trace, hnote, hpre]; rfl, hpost⟩
    | some x =>
      rw [hnote, Option.toList_some, List.singleton_append] at h
      cases pre with
      | nil =>
        obtain ⟨rfl, hpost⟩ := List.cons.inj h
        exact ⟨[], b, l, rfl, hnote, rfl, hpost⟩
      | cons y pre =>
        obtain ⟨rfl, hrest⟩ := List.cons.inj h
        obtain ⟨l₁, a, l₂, rfl, ha, hpre, hpost⟩ := ih hrest
        exact ⟨b :: l₁, a, l₂, rfl, ha, by rw [trace, hnote, hpre]; rfl, hpost⟩

/-- What was noted was noted at some step. -/
theorem mem_trace {s : σ} {l : List α} {e : ε} :
    e ∈ trace step note s l ↔
      ∃ l₁ a l₂, l = l₁ ++ a :: l₂ ∧ note (after step s l₁) a = some e := by
  constructor
  · intro h
    obtain ⟨pre, post, hsplit⟩ := List.append_of_mem h
    obtain ⟨l₁, a, l₂, hl, ha, _⟩ := trace_eq_append_cons hsplit
    exact ⟨l₁, a, l₂, hl, ha⟩
  · rintro ⟨l₁, a, l₂, rfl, ha⟩
    rw [trace_append_cons ha]
    simp

end Saliwen.Run
