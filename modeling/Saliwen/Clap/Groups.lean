import Mathlib.Data.List.SplitBy
import Mathlib.Tactic.Linarith

/-!
# Claps and groups of claps in a timed trace

The declarative side of the clap recogniser: which edges of the sound sensor are claps,
and how the claps fall into groups. Nothing here refers to timers or program variables.
-/

namespace Saliwen.Clap

/-- An edge this many ticks after its predecessor is a clap of its own. -/
def debounceTicks : ℕ := 250

/-- Claps closer than this many ticks belong to one group. -/
def windowTicks : ℕ := 1000

/-- The claps among further edges, given the edge before them. -/
def clapsFrom : ℕ → List ℕ → List ℕ
  | _, [] => []
  | prev, e :: es => if prev + debounceTicks ≤ e then e :: clapsFrom e es else clapsFrom e es

/-- The claps of a trace of edges: the first edge, and every edge at least 250 ticks
after the edge immediately before it. -/
def claps : List ℕ → List ℕ
  | [] => []
  | e :: es => e :: clapsFrom e es

/-- The maximal groups of claps in which consecutive claps are less than 1000 ticks apart. -/
def groups (es : List ℕ) : List (List ℕ) :=
  (claps es).splitBy fun a b => b < a + windowTicks

/-- Adding an edge adds it to the claps exactly when it comes late enough. -/
theorem clapsFrom_snoc (prev e : ℕ) (es : List ℕ) :
    clapsFrom prev (es ++ [e]) =
      clapsFrom prev es ++ if es.getLastD prev + debounceTicks ≤ e then [e] else [] := by
  induction es generalizing prev with
  | nil => simp [clapsFrom]
  | cons x es ih =>
    rw [List.cons_append, clapsFrom, clapsFrom, ih x, List.getLastD_cons]
    split <;> simp

/-- A further edge that follows its predecessor too closely is no clap. -/
theorem claps_snoc_of_lt {es : List ℕ} {last e : ℕ} (hlast : es.getLast? = some last)
    (hlt : e < last + debounceTicks) : claps (es ++ [e]) = claps es := by
  cases es with
  | nil => simp at hlast
  | cons x es =>
    have hgetD : es.getLastD x = last := by
      simpa [List.getLast?_cons, List.getLastD_eq_getLast?] using hlast
    rw [List.cons_append, claps, claps, clapsFrom_snoc, hgetD, if_neg (by omega),
      List.append_nil]

/-- A first edge, or one late enough after its predecessor, is a clap. -/
theorem claps_snoc_of_le {es : List ℕ} {e : ℕ}
    (hle : ∀ last ∈ es.getLast?, last + debounceTicks ≤ e) :
    claps (es ++ [e]) = claps es ++ [e] := by
  cases es with
  | nil => rfl
  | cons x es =>
    have hgetD : es.getLastD x + debounceTicks ≤ e :=
      hle _ (by simp [List.getLast?_cons, List.getLastD_eq_getLast?])
    rw [List.cons_append, claps, claps, clapsFrom_snoc, if_pos hgetD, List.cons_append]

/-- A clap far enough from the previous ones begins a group. -/
theorem splitBy_snoc_new {cs : List ℕ} {c : ℕ}
    (hfar : ∀ last ∈ cs.getLast?, last + windowTicks ≤ c) :
    (cs ++ [c]).splitBy (fun a b => b < a + windowTicks) =
      cs.splitBy (fun a b => b < a + windowTicks) ++ [[c]] := by
  rw [List.splitBy_append_cons]
  · rfl
  · intro last hlast
    have := hfar last hlast
    simpa using this

/-- A clap close enough to the previous one joins its group. -/
theorem splitBy_snoc_join {cs : List ℕ} {done : List (List ℕ)} {g : List ℕ} {last c : ℕ}
    (hgroups : cs.splitBy (fun a b => b < a + windowTicks) = done ++ [g])
    (hlast : g.getLast? = some last) (hnear : c < last + windowTicks) :
    (cs ++ [c]).splitBy (fun a b => b < a + windowTicks) = done ++ [g ++ [c]] := by
  obtain ⟨hflat, hnil, hchain, hsep⟩ := List.splitBy_eq_iff.mp hgroups
  refine List.splitBy_eq_iff.mpr ⟨?_, ?_, ?_, ?_⟩
  · rw [hflat]
    simp
  · simp only [List.mem_append, List.mem_singleton] at hnil ⊢
    rintro (hdone | hnew)
    · exact hnil (Or.inl hdone)
    · simp at hnew
  · intro m hm
    rcases List.mem_append.mp hm with hm | hm
    · exact hchain m (List.mem_append_left _ hm)
    · rw [List.mem_singleton.mp hm, List.isChain_append]
      refine ⟨hchain g (by simp), List.isChain_singleton _, ?_⟩
      intro x hx y hy
      obtain rfl : last = x := Option.some.inj (hlast ▸ hx)
      obtain rfl : c = y := by simpa using hy
      simpa using hnear
  · rw [List.isChain_append] at hsep ⊢
    refine ⟨hsep.1, List.isChain_singleton _, ?_⟩
    intro x hx y hy
    obtain rfl : g ++ [c] = y := by simpa using hy
    obtain ⟨hxne, hgne, hrel⟩ := hsep.2.2 x hx g (by simp)
    refine ⟨hxne, by simp, ?_⟩
    rw [List.head_append_of_ne_nil hgne]
    exact hrel

end Saliwen.Clap
