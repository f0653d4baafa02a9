import Mathlib.Data.List.Infix

/-!
# Taking each key once until it is released

A log of takes and releases of keys, and of resets that release every key. A key is held
after a log when it was taken and neither released nor reset since then. A log in which only
keys that are not held are taken has a release between any two takes of the same key.
-/

namespace Saliwen.Once

variable {κ : Type*}

/-- The events of a log. -/
inductive Event (κ : Type*) where
  | take (k : κ)
  | release (k : κ)
  | reset
  deriving DecidableEq, Repr

/-- The key was taken and not given back since. -/
def Held (k : κ) (log : List (Event κ)) : Prop :=
  ∃ pre post, log = pre ++ .take k :: post ∧ .release k ∉ post ∧ .reset ∉ post

/-- Only keys that are not held are taken. -/
def Gated (log : List (Event κ)) : Prop :=
  ∀ pre k post, log = pre ++ .take k :: post → ¬ Held k pre

/-- At the start nothing is held. -/
@[simp] theorem not_held_nil (k : κ) : ¬ Held k [] := by
  rintro ⟨pre, post, h, -⟩
  simp at h

/-- One more event. -/
theorem held_snoc {k : κ} {log : List (Event κ)} {e : Event κ} :
    Held k (log ++ [e]) ↔ e = .take k ∨ (e ≠ .release k ∧ e ≠ .reset ∧ Held k log) := by
  constructor
  · rintro ⟨pre, post, hlog, hrelease, hreset⟩
    rcases List.eq_nil_or_concat post with rfl | ⟨post, last, rfl⟩
    · obtain ⟨-, hlast⟩ := List.append_inj' hlog rfl
      exact Or.inl (by simpa using hlast)
    · right
      rw [List.concat_eq_append, ← List.cons_append, ← List.append_assoc] at hlog
      obtain ⟨hfront, hlast⟩ := List.append_inj' hlog rfl
      obtain rfl : e = last := by simpa using hlast
      simp only [List.concat_eq_append, List.mem_append, List.mem_singleton, not_or]
        at hrelease hreset
      exact ⟨fun h => hrelease.2 h.symm, fun h => hreset.2 h.symm, pre, post, hfront, hrelease.1,
        hreset.1⟩
  · rintro (rfl | ⟨hrelease, hreset, pre, post, rfl, hnotRelease, hnotReset⟩)
    · exact ⟨log, [], rfl, by simp, by simp⟩
    · refine ⟨pre, post ++ [e], by simp, ?_, ?_⟩
      · simp [hnotRelease, hrelease.symm]
      · simp [hnotReset, hreset.symm]

/-- The empty history is gated. -/
theorem gated_nil : Gated ([] : List (Event κ)) := by
  intro pre k post h
  simp at h

/-- A log stays gated when the next event takes no key that is held. -/
theorem Gated.snoc {log : List (Event κ)} {e : Event κ} (h : Gated log)
    (he : ∀ k, e = .take k → ¬ Held k log) : Gated (log ++ [e]) := by
  intro pre k post hlog
  rcases List.eq_nil_or_concat post with rfl | ⟨post, last, rfl⟩
  · obtain ⟨rfl, hlast⟩ := List.append_inj' hlog rfl
    exact he k (by simpa using hlast)
  · rw [List.concat_eq_append, ← List.cons_append, ← List.append_assoc] at hlog
    obtain ⟨hfront, -⟩ := List.append_inj' hlog rfl
    exact h pre k post hfront

/-- Between two takes of one key lies a release of it, or a reset. -/
theorem Gated.release_between {log pre mid post : List (Event κ)} {k : κ} (h : Gated log)
    (hlog : log = pre ++ .take k :: mid ++ .take k :: post) :
    .release k ∈ mid ∨ .reset ∈ mid := by
  by_contra hnone
  rw [not_or] at hnone
  exact h (pre ++ .take k :: mid) k post hlog ⟨pre, mid, rfl, hnone.1, hnone.2⟩

end Saliwen.Once
