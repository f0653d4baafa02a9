import Mathlib.Data.List.Sort
import Mathlib.Logic.Function.Basic

/-!
# Priority inheritance

Threads own resources, and wait for resources that others own. A smaller number is a higher
priority. When a thread begins to wait, the owner is raised to its priority, and when a thread
gives a resource back it returns to the priority it had when it got it. As long as no thread takes
a resource while it owns another one, every owner runs at least at the priority of everyone who
waits for it, and at its own priority again when it owns nothing.
-/

namespace Saliwen.Inheritance

variable {τ μ : Type*}

structure State (τ μ : Type*) where
  owner : μ → Option τ
  /-- The priority that the owner had when it got the resource. -/
  original : μ → ℕ
  waiting : μ → List τ
  priority : τ → ℕ

/-- A thread waits behind those of its priority. -/
def enqueue (priority : τ → ℕ) (thread : τ) (list : List τ) : List τ :=
  list.orderedInsert (fun t t' => priority t < priority t') thread

/-- The priorities when a thread begins to wait for an owner. -/
def inherit [DecidableEq τ] (priority : τ → ℕ) (thread owner : τ) : τ → ℕ :=
  Function.update priority owner (min (priority thread) (priority owner))

/-- The steps of threads that take a resource only while they own none. -/
inductive Step [DecidableEq τ] [DecidableEq μ] (s : State τ μ) : State τ μ → Prop where
  | acquire {thread : τ} {m : μ} (hfree : s.owner m = none)
      (hidle : ∀ m', s.owner m' ≠ some thread) (hruns : ∀ m', thread ∉ s.waiting m') :
      Step s
        { s with
          owner := Function.update s.owner m (some thread)
          original := Function.update s.original m (s.priority thread)
          waiting := Function.update s.waiting m [] }
  | wait {thread owner : τ} {m : μ} (howner : s.owner m = some owner)
      (hidle : ∀ m', s.owner m' ≠ some thread) (hruns : ∀ m', thread ∉ s.waiting m') :
      Step s
        { s with
          waiting := Function.update s.waiting m
            (enqueue (inherit s.priority thread owner) thread (s.waiting m))
          priority := inherit s.priority thread owner }
  | handOver {thread next : τ} {m : μ} {list : List τ} (howner : s.owner m = some thread)
      (hlist : s.waiting m = next :: list) :
      Step s
        { owner := Function.update s.owner m (some next)
          original := Function.update s.original m
            (Function.update s.priority thread (s.original m) next)
          waiting := Function.update s.waiting m list
          priority := Function.update s.priority thread (s.original m) }
  | free {thread : τ} {m : μ} (original : ℕ) (howner : s.owner m = some thread)
      (hlist : s.waiting m = []) :
      Step s
        { owner := Function.update s.owner m none
          original := Function.update s.original m original
          waiting := Function.update s.waiting m []
          priority := Function.update s.priority thread (s.original m) }
  | leave {thread : τ} {m : μ} {list : List τ} (hperm : (s.waiting m).Perm (thread :: list))
      (hsublist : list.Sublist (s.waiting m)) :
      Step s { s with waiting := Function.update s.waiting m list }

/-- Who waits, waits at one place and owns nothing. -/
structure Queued (owner : μ → Option τ) (waiting : μ → List τ) : Prop where
  nodup : ∀ m, (waiting m).Nodup
  apart : ∀ m m' thread, thread ∈ waiting m → thread ∈ waiting m' → m = m'
  waits : ∀ m m', ∀ thread ∈ waiting m, owner m' ≠ some thread

/-- Everyone runs at its own priority, but for owners that are raised to the priorities of those
who wait for them. -/
structure Inv (base : τ → ℕ) (s : State τ μ) : Prop where
  queued : Queued s.owner s.waiting
  single : ∀ m m' thread, s.owner m = some thread → s.owner m' = some thread → m = m'
  idle : ∀ thread, (∀ m, s.owner m ≠ some thread) → s.priority thread = base thread
  original : ∀ m thread, s.owner m = some thread → s.original m = base thread
  raised : ∀ m thread, s.owner m = some thread → s.priority thread ≤ base thread
  ahead : ∀ m thread, s.owner m = some thread →
    ∀ thread' ∈ s.waiting m, s.priority thread ≤ base thread'
  sorted : ∀ m, (s.waiting m).Pairwise fun thread thread' => base thread ≤ base thread'

/-! ## The lists of waiting threads -/

variable {owner : μ → Option τ} {waiting : μ → List τ} {m : μ} {thread : τ} {list : List τ}

/-- A thread that is queued joins the others. -/
theorem enqueue_perm (priority : τ → ℕ) (thread : τ) (list : List τ) :
    (enqueue priority thread list).Perm (thread :: list) :=
  List.perm_orderedInsert _ thread list

/-- Only the priorities of the threads in the list count. -/
theorem enqueue_congr {p q : τ → ℕ} (h : ∀ t ∈ thread :: list, p t = q t) :
    enqueue p thread list = enqueue q thread list := by
  unfold enqueue
  induction list with
  | nil => rfl
  | cons first list ih =>
    have hthread := h thread List.mem_cons_self
    have hfirst := h first (by simp)
    simp only [List.orderedInsert_cons, hthread, hfirst]
    rw [ih]
    intro t ht
    rcases List.mem_cons.mp ht with rfl | ht
    · exact hthread
    · exact h t (by simp [ht])

/-- A list in the order of priorities stays in this order. -/
theorem enqueue_sorted (p : τ → ℕ) (thread : τ) (h : list.Pairwise fun t t' => p t ≤ p t') :
    (enqueue p thread list).Pairwise fun t t' => p t ≤ p t' := by
  unfold enqueue
  induction list with
  | nil => simp
  | cons first list ih =>
    obtain ⟨hfirst, hlist⟩ := List.pairwise_cons.mp h
    rw [List.orderedInsert_cons]
    split_ifs with hlt
    · refine List.pairwise_cons.mpr ⟨fun t ht => ?_, h⟩
      rcases List.mem_cons.mp ht with rfl | ht
      · exact hlt.le
      · exact hlt.le.trans (hfirst t ht)
    · refine List.pairwise_cons.mpr ⟨fun t ht => ?_, ih hlist⟩
      rcases (List.mem_orderedInsert _).mp ht with rfl | ht
      · exact not_lt.mp hlt
      · exact hfirst t ht

variable [DecidableEq μ]

/-- A thread that leaves its list waits nowhere else. -/
theorem Queued.left (h : Queued owner waiting) (hperm : (waiting m).Perm (thread :: list))
    (m' : μ) : thread ∉ Function.update waiting m list m' := by
  have hnodup := hperm.nodup_iff.mp (h.nodup m)
  rw [Function.update_apply]
  split_ifs with hm
  · exact (List.nodup_cons.mp hnodup).1
  · intro hother
    exact hm (h.apart m' m thread hother (hperm.symm.subset List.mem_cons_self))

/-- A list that is shortened at one resource. -/
theorem update_sublist (h : list.Sublist (waiting m)) (m' : μ) :
    (Function.update waiting m list m').Sublist (waiting m') := by
  rw [Function.update_apply]
  split_ifs with hm
  · rw [hm]
    exact h
  · exact List.Sublist.refl _

/-- Threads leave one list. -/
theorem Queued.shorten (h : Queued owner waiting) (hsublist : list.Sublist (waiting m)) :
    Queued owner (Function.update waiting m list) := by
  have hshorter := update_sublist hsublist
  constructor
  · intro m'
    exact (h.nodup m').sublist (hshorter m')
  · intro m₁ m₂ t h₁ h₂
    exact h.apart m₁ m₂ t ((hshorter m₁).subset h₁) ((hshorter m₂).subset h₂)
  · intro m₁ m₂ t ht
    exact h.waits m₁ m₂ t ((hshorter m₁).subset ht)

/-- A resource goes to a thread that waits nowhere, or to none. -/
theorem Queued.give (h : Queued owner waiting) (m : μ) {next : Option τ}
    (hnext : ∀ m', ∀ t ∈ waiting m', next ≠ some t) :
    Queued (Function.update owner m next) waiting := by
  refine ⟨h.nodup, h.apart, fun m₁ m₂ t ht => ?_⟩
  rw [Function.update_apply]
  split_ifs
  · exact hnext m₁ t ht
  · exact h.waits m₁ m₂ t ht

/-- Who is in the lists when a thread has joined one. -/
theorem mem_update_of_perm (hperm : list.Perm (thread :: waiting m)) {m' : μ} {t : τ}
    (ht : t ∈ Function.update waiting m list m') : t ∈ waiting m' ∨ m' = m ∧ t = thread := by
  rw [Function.update_apply] at ht
  split_ifs at ht with hm
  · subst hm
    rcases List.mem_cons.mp (hperm.subset ht) with rfl | ht
    · exact .inr ⟨rfl, rfl⟩
    · exact .inl ht
  · exact .inl ht

/-- A thread that owns nothing joins a list. -/
theorem Queued.join (h : Queued owner waiting) (hidle : ∀ m', owner m' ≠ some thread)
    (hruns : ∀ m', thread ∉ waiting m') (hperm : list.Perm (thread :: waiting m)) :
    Queued owner (Function.update waiting m list) := by
  have hmem : ∀ m' t, t ∈ Function.update waiting m list m' →
      t ∈ waiting m' ∨ m' = m ∧ t = thread := fun _ _ ht => mem_update_of_perm hperm ht
  constructor
  · intro m'
    rw [Function.update_apply]
    split_ifs with hm
    · exact hperm.nodup_iff.mpr (List.nodup_cons.mpr ⟨hruns m, h.nodup m⟩)
    · exact h.nodup m'
  · intro m₁ m₂ t h₁ h₂
    rcases hmem m₁ t h₁ with hold | ⟨heq, ht⟩ <;> rcases hmem m₂ t h₂ with hold' | ⟨heq', ht'⟩
    · exact h.apart m₁ m₂ t hold hold'
    · exact absurd (ht' ▸ hold) (hruns m₁)
    · exact absurd (ht ▸ hold') (hruns m₂)
    · exact heq.trans heq'.symm
  · intro m₁ m₂ t ht
    rcases hmem m₁ t ht with hold | ⟨-, rfl⟩
    · exact h.waits m₁ m₂ t hold
    · exact hidle m₂

/-! ## Steps -/

variable {base : τ → ℕ} {s s' : State τ μ}

omit [DecidableEq μ] in
/-- Whoever waits runs at its own priority. -/
theorem Inv.priority_of_waiting (h : Inv base s) (hthread : thread ∈ s.waiting m) :
    s.priority thread = base thread :=
  h.idle thread fun m' => h.queued.waits m m' thread hthread

/-- A step at one resource, which may go to another owner: it is enough to look at the new owner
and at the threads that own nothing. -/
theorem Inv.change (h : Inv base s) {next : Option τ} {original : ℕ} {priority : τ → ℕ}
    (hqueued : Queued (Function.update s.owner m next) (Function.update s.waiting m list))
    (hsingle : ∀ t, next = some t → ∀ m', m' ≠ m → s.owner m' ≠ some t)
    (hothers : ∀ m', m' ≠ m → ∀ t, s.owner m' = some t → priority t = s.priority t)
    (hidle : ∀ t, (∀ m', m' ≠ m → s.owner m' ≠ some t) → next ≠ some t → priority t = base t)
    (hnext : ∀ t, next = some t → original = base t ∧ priority t ≤ base t ∧
      ∀ t' ∈ list, priority t ≤ base t')
    (hsorted : list.Pairwise fun t t' => base t ≤ base t') :
    Inv base ⟨Function.update s.owner m next, Function.update s.original m original,
      Function.update s.waiting m list, priority⟩ where
  queued := hqueued
  single m₁ m₂ t h₁ h₂ := by
    simp only [Function.update_apply] at h₁ h₂
    split_ifs at h₁ h₂ with hm₁ hm₂ hm₂
    · exact hm₁.trans hm₂.symm
    · exact absurd h₂ (hsingle t h₁ m₂ hm₂)
    · exact absurd h₁ (hsingle t h₂ m₁ hm₁)
    · exact h.single m₁ m₂ t h₁ h₂
  idle t ht := by
    refine hidle t (fun m' hm => ?_) ?_
    · simpa [hm] using ht m'
    · simpa using ht m
  original m' t ht := by
    simp only [Function.update_apply] at ht ⊢
    split_ifs at ht ⊢ with hm
    · exact (hnext t ht).1
    · exact h.original m' t ht
  raised m' t ht := by
    simp only [Function.update_apply] at ht
    split_ifs at ht with hm
    · exact (hnext t ht).2.1
    · exact (hothers m' hm t ht).trans_le (h.raised m' t ht)
  ahead m' t ht := by
    simp only [Function.update_apply] at ht ⊢
    split_ifs at ht ⊢ with hm
    · exact (hnext t ht).2.2
    · rw [hothers m' hm t ht]
      exact h.ahead m' t ht
  sorted m' := by
    simp only [Function.update_apply]
    split_ifs
    · exact hsorted
    · exact h.sorted m'

/-- A thread gets a resource that is free. -/
theorem Inv.acquire (h : Inv base s) (hfree : s.owner m = none)
    (hidle : ∀ m', s.owner m' ≠ some thread) (hruns : ∀ m', thread ∉ s.waiting m') :
    Inv base ⟨Function.update s.owner m (some thread),
      Function.update s.original m (s.priority thread), Function.update s.waiting m [],
      s.priority⟩ := by
  have hown := h.idle thread hidle
  have hqueued : Queued (Function.update s.owner m (some thread))
      (Function.update s.waiting m []) := by
    refine (h.queued.give m fun m' t ht heq => ?_).shorten (List.nil_sublist _)
    obtain rfl := Option.some.inj heq
    exact hruns m' ht
  refine h.change hqueued ?_ (fun _ _ _ _ => rfl) (fun t ht _ => ?_) ?_ List.Pairwise.nil
  · rintro t ⟨⟩ m' -
    exact hidle m'
  · refine h.idle t fun m' => ?_
    by_cases hm : m' = m
    · rw [hm, hfree]
      exact nofun
    · exact ht m' hm
  · rintro t ⟨⟩
    exact ⟨hown, hown.le, fun _ ht => absurd ht List.not_mem_nil⟩

/-- A thread gives up waiting. -/
theorem Inv.leave (h : Inv base s) (hsublist : list.Sublist (s.waiting m)) :
    Inv base { s with waiting := Function.update s.waiting m list } := by
  have hshorter := update_sublist hsublist
  refine ⟨h.queued.shorten hsublist, h.single, h.idle, h.original, h.raised, ?_, ?_⟩
  · intro m' t ht t' ht'
    exact h.ahead m' t ht t' ((hshorter m').subset ht')
  · intro m'
    exact (h.sorted m').sublist (hshorter m')

variable [DecidableEq τ]

omit [DecidableEq μ] in
/-- Only the owner inherits. -/
theorem inherit_of_ne {priority : τ → ℕ} {owner t : τ} (thread : τ) (h : t ≠ owner) :
    inherit priority thread owner t = priority t :=
  Function.update_of_ne h ..

/-- A thread begins to wait, and the owner is raised. -/
theorem Inv.wait (h : Inv base s) {owner : τ} (howner : s.owner m = some owner)
    (hidle : ∀ m', s.owner m' ≠ some thread) (hruns : ∀ m', thread ∉ s.waiting m') :
    Inv base ⟨s.owner, s.original, Function.update s.waiting m
      (enqueue (inherit s.priority thread owner) thread (s.waiting m)),
      inherit s.priority thread owner⟩ := by
  have hown := h.idle thread hidle
  have hne : thread ≠ owner := by
    rintro rfl
    exact hidle m howner
  have hlist : enqueue (inherit s.priority thread owner) thread (s.waiting m) =
      enqueue base thread (s.waiting m) := by
    refine enqueue_congr fun t ht => ?_
    rcases List.mem_cons.mp ht with rfl | ht
    · rw [inherit_of_ne _ hne, hown]
    · have htowner : t ≠ owner := by
        rintro rfl
        exact h.queued.waits m m t ht howner
      rw [inherit_of_ne _ htowner, h.priority_of_waiting ht]
  have hperm := enqueue_perm base thread (s.waiting m)
  have hqueued := h.queued.join hidle hruns hperm
  rw [← Function.update_eq_self m s.owner, howner] at hqueued
  rw [hlist]
  -- the owner stays, and so does the priority that it had
  rw [← Function.update_eq_self m s.owner, ← Function.update_eq_self m s.original, howner]
  refine h.change hqueued ?_ ?_ ?_ ?_ (enqueue_sorted base thread (h.sorted m))
  · rintro t ⟨⟩ m' hm howner'
    exact hm (h.single m' m _ howner' howner)
  · intro m' hm t ht
    refine inherit_of_ne _ ?_
    rintro rfl
    exact hm (h.single m' m _ ht howner)
  · intro t ht hne
    have htowner : t ≠ owner := by
      rintro rfl
      exact hne rfl
    rw [inherit_of_ne _ htowner]
    refine h.idle t fun m' => ?_
    by_cases hm : m' = m
    · rw [hm, howner]
      exact hne
    · exact ht m' hm
  · rintro t ⟨⟩
    have hmin : inherit s.priority thread owner owner =
        min (s.priority thread) (s.priority owner) := Function.update_self ..
    rw [hmin]
    refine ⟨h.original m owner howner, (min_le_right _ _).trans (h.raised m owner howner), ?_⟩
    intro t ht
    rcases List.mem_cons.mp (hperm.subset ht) with rfl | ht
    · exact (min_le_left _ _).trans hown.le
    · exact (min_le_right _ _).trans (h.ahead m owner howner t ht)

/-- Owners of other resources and idle threads when a thread gives one back. -/
theorem Inv.restored (h : Inv base s) (howner : s.owner m = some thread) :
    (∀ m', m' ≠ m → ∀ t, s.owner m' = some t →
      Function.update s.priority thread (s.original m) t = s.priority t) ∧
    ∀ t, (∀ m', m' ≠ m → s.owner m' ≠ some t) →
      Function.update s.priority thread (s.original m) t = base t := by
  constructor
  · intro m' hm t ht
    refine Function.update_of_ne ?_ ..
    rintro rfl
    exact hm (h.single m' m _ ht howner)
  · intro t ht
    rw [Function.update_apply]
    split_ifs with heq
    · rw [heq]
      exact h.original m thread howner
    · refine h.idle t fun m' => ?_
      by_cases hm : m' = m
      · rw [hm, howner]
        exact fun h => heq (Option.some.inj h).symm
      · exact ht m' hm

/-- The first of the waiting threads gets the resource. -/
theorem Inv.handOver (h : Inv base s) {next : τ} (howner : s.owner m = some thread)
    (hlist : s.waiting m = next :: list) :
    Inv base ⟨Function.update s.owner m (some next), Function.update s.original m
      (Function.update s.priority thread (s.original m) next), Function.update s.waiting m list,
      Function.update s.priority thread (s.original m)⟩ := by
  obtain ⟨hothers, hidle⟩ := h.restored howner
  have hmem : next ∈ s.waiting m := by simp [hlist]
  have hown := hidle next fun m' _ => h.queued.waits m m' next hmem
  have hsublist : list.Sublist (s.waiting m) := by simp [hlist]
  have hsorted := h.sorted m
  rw [hlist] at hsorted
  obtain ⟨hfirst, hsorted⟩ := List.pairwise_cons.mp hsorted
  have hqueued : Queued (Function.update s.owner m (some next))
      (Function.update s.waiting m list) := by
    refine (h.queued.shorten hsublist).give m fun m' t ht heq => ?_
    obtain rfl := Option.some.inj heq
    exact h.queued.left (hlist ▸ List.Perm.refl _) m' ht
  refine h.change hqueued ?_ hothers (fun t ht _ => hidle t ht) ?_ hsorted
  · rintro t ⟨⟩ m' -
    exact h.queued.waits m m' next hmem
  · rintro t ⟨⟩
    refine ⟨hown, hown.le, fun t ht => ?_⟩
    rw [hown]
    exact hfirst t ht

/-- The resource becomes free. -/
theorem Inv.free (h : Inv base s) (original : ℕ) (howner : s.owner m = some thread) :
    Inv base ⟨Function.update s.owner m none, Function.update s.original m original,
      Function.update s.waiting m [], Function.update s.priority thread (s.original m)⟩ := by
  obtain ⟨hothers, hidle⟩ := h.restored howner
  have hqueued : Queued (Function.update s.owner m none) (Function.update s.waiting m []) := by
    refine (h.queued.give m ?_).shorten (List.nil_sublist _)
    intro m' t ht
    exact nofun
  exact h.change hqueued nofun hothers (fun t ht _ => hidle t ht) nofun List.Pairwise.nil

/-- Every step keeps the priorities right. -/
theorem Inv.step (h : Inv base s) (hstep : Step s s') : Inv base s' := by
  cases hstep with
  | acquire hfree hidle hruns => exact h.acquire hfree hidle hruns
  | wait howner hidle hruns => exact h.wait howner hidle hruns
  | handOver howner hlist => exact h.handOver howner hlist
  | free original howner hlist => exact h.free original howner
  | leave hperm hsublist => exact h.leave hsublist

end Saliwen.Inheritance
