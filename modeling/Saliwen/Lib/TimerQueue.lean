import Mathlib.Data.List.Sort
import Mathlib.Data.List.Nodup

/-!
# A queue of one-shot timers

Active timers wait in the order of their timeouts, a timer started later behind those
with the same timeout. Starting a running timer restarts it. At each tick the timers that
are due leave the queue, become inactive and have their callbacks run in queue order.
-/

namespace Saliwen

variable {ι σ : Type*}

/-- The active timers with their timeout ticks, in expiry order and each at most once. -/
structure TimerQueue (ι : Type*) where
  entries : List (ℕ × ι)
  sorted : entries.Pairwise fun a b => a.1 ≤ b.1
  nodup : (entries.map Prod.snd).Nodup

namespace TimerQueue

/-- No timer is active. -/
def empty : TimerQueue ι := ⟨[], List.Pairwise.nil, List.nodup_nil⟩

private theorem pairwise_orderedInsert (e : ℕ × ι) {l : List (ℕ × ι)}
    (h : l.Pairwise fun a b => a.1 ≤ b.1) :
    (l.orderedInsert (fun a b => a.1 < b.1) e).Pairwise fun a b => a.1 ≤ b.1 := by
  induction l with
  | nil => simp
  | cons x l ih =>
    obtain ⟨hx, hl⟩ := List.pairwise_cons.mp h
    rw [List.orderedInsert]
    split
    · rename_i hlt
      refine List.pairwise_cons.mpr ⟨?_, h⟩
      intro y hy
      rcases List.mem_cons.mp hy with rfl | hy
      · omega
      · have := hx y hy
        omega
    · rename_i hle
      refine List.pairwise_cons.mpr ⟨?_, ih hl⟩
      intro y hy
      rcases (List.mem_orderedInsert _).mp hy with rfl | hy
      · omega
      · exact hx y hy

/-- Deactivate a timer. -/
def stop [DecidableEq ι] (q : TimerQueue ι) (i : ι) : TimerQueue ι where
  entries := q.entries.filter fun e => e.2 ≠ i
  sorted := q.sorted.filter _
  nodup := q.nodup.sublist (List.filter_sublist.map Prod.snd)

/-- Start a timer that expires at tick `t`, after stopping it if it is running. -/
def start [DecidableEq ι] (q : TimerQueue ι) (i : ι) (t : ℕ) : TimerQueue ι where
  entries := (q.stop i).entries.orderedInsert (fun a b => a.1 < b.1) (t, i)
  sorted := pairwise_orderedInsert (t, i) (q.stop i).sorted
  nodup := by
    have hperm := (List.perm_orderedInsert (fun a b : ℕ × ι => a.1 < b.1) (t, i)
      (q.stop i).entries).map Prod.snd
    rw [hperm.nodup_iff, List.map_cons, List.nodup_cons]
    refine ⟨?_, (q.stop i).nodup⟩
    simp [stop]

/-- The loop of the tick handler: run the callbacks of the timers that are due, and
return the timers left. -/
def checkLoop (callback : ι → σ → σ) (now : ℕ) : List (ℕ × ι) → σ → List (ℕ × ι) × σ
  | [], s => ([], s)
  | e :: q, s => if e.1 ≤ now then checkLoop callback now q (callback e.2 s) else (e :: q, s)

/-- The timers due at a tick, in expiry order. -/
def due (q : TimerQueue ι) (now : ℕ) : List ι :=
  (q.entries.takeWhile fun e => e.1 ≤ now).map Prod.snd

/-- The timers left after those due at a tick have expired. -/
def rest (q : TimerQueue ι) (now : ℕ) : TimerQueue ι where
  entries := q.entries.dropWhile fun e => e.1 ≤ now
  sorted := q.sorted.sublist (List.dropWhile_sublist _)
  nodup := q.nodup.sublist ((List.dropWhile_sublist _).map Prod.snd)

/-- The tick handler: the queue and the state after all due callbacks. -/
def check (callback : ι → σ → σ) (now : ℕ) (q : TimerQueue ι) (s : σ) : TimerQueue ι × σ :=
  (q.rest now, (checkLoop callback now q.entries s).2)

/-- The loop runs exactly the due callbacks and leaves exactly the other timers. -/
theorem checkLoop_eq (callback : ι → σ → σ) (now : ℕ) (l : List (ℕ × ι)) (s : σ) :
    checkLoop callback now l s =
      (l.dropWhile fun e => e.1 ≤ now,
        ((l.takeWhile fun e => e.1 ≤ now).map Prod.snd).foldl (fun s i => callback i s) s) := by
  induction l generalizing s with
  | nil => rfl
  | cons e l ih =>
    by_cases hdue : e.1 ≤ now
    · simp [checkLoop, hdue, ih]
    · simp [checkLoop, hdue]

/-- The state after a check is that after the callbacks of the due timers. -/
theorem check_snd (callback : ι → σ → σ) (now : ℕ) (q : TimerQueue ι) (s : σ) :
    (check callback now q s).2 = (q.due now).foldl (fun s i => callback i s) s := by
  simp [check, checkLoop_eq, due]

/-! ### Deadlines -/

/-- Timer `i` is active with timeout `t`. -/
def Armed (q : TimerQueue ι) (i : ι) (t : ℕ) : Prop := (t, i) ∈ q.entries

/-- Timer `i` is not active. -/
def Idle (q : TimerQueue ι) (i : ι) : Prop := ∀ t, ¬ q.Armed i t

/-- A timer has one timeout. -/
theorem Armed.unique {q : TimerQueue ι} {i : ι} {t u : ℕ} (ht : q.Armed i t)
    (hu : q.Armed i u) : t = u := by
  have h := List.inj_on_of_nodup_map q.nodup ht hu rfl
  exact congrArg Prod.fst h

/-- In an empty queue no timer is active. -/
theorem idle_empty (i : ι) : (empty : TimerQueue ι).Idle i := by
  intro t ht
  simp [Armed, empty] at ht

/-- Stopping a timer leaves the others active. -/
theorem armed_stop [DecidableEq ι] {q : TimerQueue ι} {i j : ι} {t : ℕ} :
    (q.stop i).Armed j t ↔ q.Armed j t ∧ j ≠ i := by
  simp [Armed, stop]

/-- Starting a timer sets its timeout and leaves the others active. -/
theorem armed_start [DecidableEq ι] {q : TimerQueue ι} {i j : ι} {t u : ℕ} :
    (q.start i t).Armed j u ↔ (j = i ∧ u = t) ∨ (q.Armed j u ∧ j ≠ i) := by
  unfold Armed start
  rw [List.mem_orderedInsert]
  have hstop := armed_stop (q := q) (i := i) (j := j) (t := u)
  unfold Armed at hstop
  rw [hstop, Prod.mk.injEq, and_comm (a := u = t)]

private theorem mem_takeWhile_iff {l : List (ℕ × ι)} (hl : l.Pairwise fun a b => a.1 ≤ b.1)
    {now : ℕ} {e : ℕ × ι} :
    e ∈ l.takeWhile (fun e => e.1 ≤ now) ↔ e ∈ l ∧ e.1 ≤ now := by
  induction l with
  | nil => simp
  | cons x l ih =>
    obtain ⟨hx, hl⟩ := List.pairwise_cons.mp hl
    by_cases hdue : x.1 ≤ now
    · simp only [List.takeWhile_cons, hdue, decide_true, if_true, List.mem_cons, ih hl]
      constructor
      · rintro (rfl | ⟨he, hle⟩)
        · exact ⟨Or.inl rfl, hdue⟩
        · exact ⟨Or.inr he, hle⟩
      · rintro ⟨rfl | he, hle⟩
        · exact Or.inl rfl
        · exact Or.inr ⟨he, hle⟩
    · simp only [List.takeWhile_cons, hdue, decide_false, Bool.false_eq_true, if_false,
        List.not_mem_nil, false_iff, not_and]
      intro he
      rcases List.mem_cons.mp he with rfl | he
      · exact hdue
      · have := hx e he
        omega

/-- The due timers are those whose timeout has been reached. -/
theorem mem_due {q : TimerQueue ι} {i : ι} {now : ℕ} :
    i ∈ q.due now ↔ ∃ t, q.Armed i t ∧ t ≤ now := by
  unfold due Armed
  rw [List.mem_map]
  constructor
  · rintro ⟨⟨t, j⟩, he, rfl⟩
    exact ⟨t, (mem_takeWhile_iff q.sorted).mp he⟩
  · rintro ⟨t, he⟩
    exact ⟨(t, i), (mem_takeWhile_iff q.sorted).mpr he, rfl⟩

/-- No timer expires twice in a check. -/
theorem nodup_due (q : TimerQueue ι) (now : ℕ) : (q.due now).Nodup :=
  q.nodup.sublist ((List.takeWhile_sublist _).map Prod.snd)

/-- The timers left are those whose timeout lies in the future. -/
theorem armed_rest {q : TimerQueue ι} {i : ι} {now t : ℕ} :
    (q.rest now).Armed i t ↔ q.Armed i t ∧ now < t := by
  have hsplit := List.takeWhile_append_dropWhile (p := fun e : ℕ × ι => decide (e.1 ≤ now))
    (l := q.entries)
  unfold Armed rest
  constructor
  · intro hmem
    have hq : (t, i) ∈ q.entries := (List.dropWhile_sublist _).subset hmem
    refine ⟨hq, ?_⟩
    by_contra hle
    have htake : (t, i) ∈ q.entries.takeWhile fun e => e.1 ≤ now :=
      (mem_takeWhile_iff q.sorted).mpr ⟨hq, by simpa using hle⟩
    -- The timer would stand in both halves of the queue.
    have hnodup := q.nodup
    rw [← hsplit, List.map_append, List.nodup_append] at hnodup
    exact hnodup.2.2 i (List.mem_map.mpr ⟨(t, i), htake, rfl⟩) i
      (List.mem_map.mpr ⟨(t, i), hmem, rfl⟩) rfl
  · rintro ⟨hq, hlt⟩
    rw [← hsplit] at hq
    rcases List.mem_append.mp hq with htake | hdrop
    · have := ((mem_takeWhile_iff q.sorted).mp htake).2
      omega
    · exact hdrop

/-! ### The place in the queue -/

variable [DecidableEq ι]

/-- How many timers are before a timer in a list. -/
def place (i : ι) (l : List (ℕ × ι)) : ℕ := (l.takeWhile fun e => e.2 ≠ i).length

/-- The first timer has no other before it, and every other has it before. -/
theorem place_cons (i : ι) (e : ℕ × ι) (l : List (ℕ × ι)) :
    place i (e :: l) = if e.2 = i then 0 else place i l + 1 := by
  unfold place
  by_cases he : e.2 = i
  · rw [if_pos he, List.takeWhile_cons_of_neg (by simpa using he), List.length_nil]
  · rw [if_neg he, List.takeWhile_cons_of_pos (by simpa using he), List.length_cons]

/-- An active timer has fewer timers before it than the queue is long. -/
theorem place_lt_length {q : TimerQueue ι} {i : ι} {t : ℕ} (h : q.Armed i t) :
    place i q.entries < q.entries.length := by
  unfold Armed at h
  generalize q.entries = l at h ⊢
  induction l with
  | nil => simp at h
  | cons e l ih =>
    rw [place_cons]
    split_ifs with he
    · simp
    · have hne : (t, i) ≠ e := fun heq => he (heq ▸ rfl)
      have := ih (List.mem_of_ne_of_mem hne h)
      simp only [List.length_cons]
      omega

/-- When a timer leaves the queue, the others do not fall back. -/
theorem place_stop_le (q : TimerQueue ι) {i j : ι} (hne : i ≠ j) :
    place i (q.stop j).entries ≤ place i q.entries := by
  simp only [stop]
  induction q.entries with
  | nil => exact le_rfl
  | cons e l ih =>
    rw [place_cons]
    by_cases hj : e.2 = j
    · rw [List.filter_cons_of_neg (by simp [hj]), if_neg (fun hi => hne (hi.symm.trans hj))]
      exact ih.trans (Nat.le_add_right ..)
    · rw [List.filter_cons_of_pos (by simp [hj]), place_cons]
      split_ifs
      · exact le_rfl
      · exact Nat.add_le_add_right ih 1

/-- When the first timer leaves the queue, the others move up. -/
theorem place_stop_lt {q : TimerQueue ι} {i j : ι} {t : ℕ} (hfirst : q.entries.head? = some (t, j))
    (hne : i ≠ j) : place i (q.stop j).entries < place i q.entries := by
  obtain ⟨l, hentries⟩ := List.head?_eq_some_iff.mp hfirst
  have hnodup := q.nodup
  rw [hentries, List.map_cons, List.nodup_cons] at hnodup
  have hothers : (q.stop j).entries = l := by
    simp only [stop, hentries]
    rw [List.filter_cons_of_neg (by simp), List.filter_eq_self]
    intro e he
    have hother : e.2 ≠ j := fun hj => hnodup.1 (List.mem_map.mpr ⟨e, he, hj⟩)
    simpa using hother
  rw [hothers, hentries, place_cons, if_neg (Ne.symm hne)]
  exact Nat.lt_succ_self _

/-- A timer that is not due earlier than another is put behind it. -/
theorem place_start_le {q : TimerQueue ι} {i j : ι} {t u : ℕ} (harmed : q.Armed i t) (hle : t ≤ u)
    (hne : i ≠ j) : place i (q.start j u).entries ≤ place i q.entries := by
  have hstop := place_stop_le q hne
  have hstill : (t, i) ∈ (q.stop j).entries := armed_stop.mpr ⟨harmed, hne⟩
  have hsorted := (q.stop j).sorted
  refine le_trans (le_of_eq ?_) hstop
  unfold start
  dsimp only
  generalize (q.stop j).entries = l at hstill hsorted
  induction l with
  | nil => simp at hstill
  | cons e l ih =>
    obtain ⟨hfirst, hrest⟩ := List.pairwise_cons.mp hsorted
    have hbehind : ¬ u < e.1 := by
      rcases List.mem_cons.mp hstill with rfl | hmem
      · exact not_lt.mpr hle
      · exact not_lt.mpr ((hfirst _ hmem).trans hle)
    rw [List.orderedInsert, if_neg hbehind, place_cons, place_cons]
    split_ifs with he
    · rfl
    · have hne : (t, i) ≠ e := fun heq => he (heq ▸ rfl)
      rw [ih (List.mem_of_ne_of_mem hne hstill) hrest]

end TimerQueue

end Saliwen
