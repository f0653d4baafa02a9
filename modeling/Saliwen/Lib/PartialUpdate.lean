import Saliwen.Lib.Run
import Mathlib.Data.List.Basic

/-!
# Registers and logs under partial updates

A label may assign a value to a register or leave it alone, and may add an entry to a log or
not. After a schedule the register holds the last value assigned and the log has all entries in
order. A system whose parts are registers and logs is determined by these two rules.
-/

namespace Saliwen.Run

variable {σ τ α β : Type*}

/-- A register under labels that assign `f a`, where this is defined. -/
def assign (f : α → Option β) (value : β) (a : α) : β := (f a).getD value

/-- A log under labels that add `f a`, where this is defined. -/
def record (f : α → Option β) (log : List β) (a : α) : List β := log ++ (f a).toList

/-- A part of the state on which every step acts by itself evolves by itself. -/
theorem after_part {step : σ → α → σ} {stepPart : τ → α → τ} (part : σ → τ)
    (hpart : ∀ s a, part (step s a) = stepPart (part s) a) (s : σ) (l : List α) :
    part (after step s l) = after stepPart (part s) l :=
  (List.foldl_hom part fun s a => (hpart s a).symm).symm

/-- A register holds the last value assigned, or its first value if there is none. -/
theorem after_assign (f : α → Option β) (value : β) (l : List α) :
    after (assign f) value l = (l.filterMap f).getLastD value := by
  induction l using List.reverseRecOn with
  | nil => rfl
  | append_singleton l a ih =>
    rw [after_snoc, ih, assign, List.filterMap_append]
    cases hvalue : f a with
    | none => simp [hvalue]
    | some b => simp [hvalue]

/-- A log has the entries of all labels in order. -/
theorem after_record (f : α → Option β) (log : List β) (l : List α) :
    after (record f) log l = log ++ l.filterMap f := by
  rw [List.filterMap_eq_flatMap_toList]
  exact List.foldl_append_eq_append

end Saliwen.Run
