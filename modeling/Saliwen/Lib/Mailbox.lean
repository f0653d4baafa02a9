import Mathlib.Data.List.Infix

/-!
# A one-slot mailbox between a producer and a consumer

The producer posts items into a single slot, and an item posted while the slot is full is
rejected. The consumer takes the item from the slot and either drops it or delivers it.
Whatever the order of these steps, the items delivered are an in-order subsequence of the
items accepted, each delivered at most once.
-/

namespace Saliwen.Mailbox

variable {α : Type*}

/-- The slot, the item in the consumer's hands, and the items accepted and delivered. -/
structure Flow (α : Type*) where
  accepted : List α
  slot : Option α
  hand : Option α
  delivered : List α

/-- One step of the producer or the consumer. -/
inductive Step : Flow α → Flow α → Prop where
  | post (f : Flow α) (item : α) (hslot : f.slot = none) :
      Step f ⟨f.accepted ++ [item], some item, f.hand, f.delivered⟩
  | take (f : Flow α) (hhand : f.hand = none) : Step f ⟨f.accepted, none, f.slot, f.delivered⟩
  | drop (f : Flow α) : Step f ⟨f.accepted, f.slot, none, f.delivered⟩
  | deliver (f : Flow α) : Step f ⟨f.accepted, f.slot, none, f.delivered ++ f.hand.toList⟩

/-- The accepted items are those the consumer is done with, the one it holds and the one in
the slot, in this order; the delivered items are among those it is done with. -/
def Inv (f : Flow α) : Prop :=
  ∃ settled, f.accepted = settled ++ f.hand.toList ++ f.slot.toList ∧ f.delivered.Sublist settled

/-- Every step keeps the items in order. -/
theorem Inv.step {f g : Flow α} (h : Inv f) (hstep : Step f g) : Inv g := by
  obtain ⟨settled, haccepted, hdelivered⟩ := h
  cases hstep with
  | post item hslot =>
    refine ⟨settled, ?_, hdelivered⟩
    rw [haccepted, hslot]
    simp
  | take hhand =>
    refine ⟨settled, ?_, hdelivered⟩
    rw [haccepted, hhand]
    simp
  | drop =>
    refine ⟨settled ++ f.hand.toList, ?_, ?_⟩
    · rw [haccepted]
      simp
    · exact hdelivered.trans (List.sublist_append_left _ _)
  | deliver =>
    refine ⟨settled ++ f.hand.toList, ?_, ?_⟩
    · rw [haccepted]
      simp
    · exact hdelivered.append (List.Sublist.refl _)

/-- What is delivered was accepted, in this order. -/
theorem Inv.delivered_sublist {f : Flow α} (h : Inv f) : f.delivered.Sublist f.accepted := by
  obtain ⟨settled, haccepted, hdelivered⟩ := h
  rw [haccepted, List.append_assoc]
  exact hdelivered.trans (List.sublist_append_left _ _)

end Saliwen.Mailbox
