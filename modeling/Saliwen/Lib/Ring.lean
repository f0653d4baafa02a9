import Mathlib.Data.List.Range
import Mathlib.Logic.Function.Basic

/-!
# A ring of slots

A queue in an array of `n` slots: the oldest item stands at the offset `out`, the others behind
it, and behind the last slot comes the first one.
-/

namespace Saliwen.Ring

variable {α : Type*} {n out count : ℕ} {slot : ℕ → α}

/-- The items, from the oldest one on. -/
def items (n : ℕ) (slot : ℕ → α) (out count : ℕ) : List α :=
  (List.range count).map fun i => slot ((out + i) % n)

/-- A ring holds as many items as it counts. -/
@[simp] theorem length_items : (items n slot out count).length = count := by
  simp [items]

/-- An empty ring holds no items. -/
@[simp] theorem items_zero : items n slot out 0 = [] := rfl

/-- Two offsets less than a turn apart are different slots. -/
theorem offset_ne {i j : ℕ} (hij : i < j) (hj : j < i + n) : i % n ≠ j % n := by
  intro heq
  have hzero := Nat.sub_mod_eq_zero_of_mod_eq heq.symm
  rw [Nat.mod_eq_of_lt (by omega)] at hzero
  omega

/-- Items in other slots are not touched. -/
theorem items_update {p : ℕ} (v : α) (h : ∀ i < count, (out + i) % n ≠ p) :
    items n (Function.update slot p v) out count = items n slot out count := by
  refine List.map_congr_left fun i hi => ?_
  exact Function.update_of_ne (h i (List.mem_range.mp hi)) v slot

/-- An item is put behind the others. -/
theorem items_push (v : α) (hcount : count < n) :
    items n (Function.update slot ((out + count) % n) v) out (count + 1) =
      items n slot out count ++ [v] := by
  have hold : items n (Function.update slot ((out + count) % n) v) out count =
      items n slot out count := items_update v fun i hi => offset_ne (by omega) (by omega)
  rw [items, List.range_succ, List.map_append, ← items, hold]
  simp

/-- The oldest item leaves. -/
theorem items_pop (hout : out < n) :
    items n slot out (count + 1) = slot out :: items n slot ((out + 1) % n) count := by
  have hshift : ∀ i, (out + (i + 1)) % n = ((out + 1) % n + i) % n := by
    intro i
    rw [Nat.mod_add_mod]
    congr 1
    omega
  simp only [items, List.range_succ_eq_map, List.map_cons, List.map_map, Nat.add_zero,
    Nat.mod_eq_of_lt hout]
  congr 1
  refine List.map_congr_left fun i _ => ?_
  exact congrArg slot (hshift i)

/-- An item is put before the others. -/
theorem items_unpop {p : ℕ} (v : α) (hp : p < n) (hcount : count < n) :
    items n (Function.update slot p v) p (count + 1) = v :: items n slot ((p + 1) % n) count := by
  rw [items_pop hp, Function.update_self, items_update]
  intro i hi
  have hne := offset_ne (n := n) (i := p) (j := p + 1 + i) (by omega) (by omega)
  rw [Nat.mod_add_mod]
  rw [Nat.mod_eq_of_lt hp] at hne
  exact hne.symm

end Saliwen.Ring
