import Mathlib.Data.List.Count
import Saliwen.Kernel.Ipc
import Saliwen.Lib.Inheritance
import Saliwen.Lib.Run

/-!
# The mutexes of the kernel

`rt_mutex_take` and `rt_mutex_release` in `ipc.c`, with which the MQTT client guards its buffers
and its state. There are any number of mutexes and threads, and the results are about every order
of their calls: a mutex has one owner at a time, nobody waits for a mutex that is free, and an
owner inherits the priority of those who wait for it as long as no mutex is taken inside another.
-/

namespace Saliwen.Kernel

variable {τ μ : Type*} [DecidableEq τ] [DecidableEq μ]

/-! ## The source -/

/-- `RT_MUTEX_HOLD_MAX`. -/
def mutexHoldMax : ℕ := 255

/-- `RT_MUTEX_VALUE_MAX`. -/
def mutexValueMax : ℕ := 65535

/-- `struct rt_mutex`. -/
structure Mutex (τ : Type*) where
  value : ℕ
  originalPriority : ℕ
  hold : ℕ
  owner : Option τ
  suspendThread : List (Waiter τ Unit)
  deriving DecidableEq

/-- What the calls of the threads have got and given back. -/
inductive MutexEvent (τ μ : Type*) where
  | take (thread : τ) (m : μ)
  | release (thread : τ) (m : μ)
  deriving DecidableEq

/-- The mutexes, the priorities of the threads, and which threads wait for a mutex. -/
structure Mutexes (τ μ : Type*) where
  mutex : μ → Mutex τ
  currentPriority : τ → ℕ
  suspended : τ → Bool
  log : List (MutexEvent τ μ)

/-- `rt_mutex_create`. -/
def rtMutexCreate : Mutex τ := ⟨1, 0xFF, 0, none, []⟩

/-- All mutexes free. -/
def Mutexes.init (priority : τ → ℕ) : Mutexes τ μ :=
  ⟨fun _ => rtMutexCreate, priority, fun _ => false, []⟩

def Mutexes.setMutex (s : Mutexes τ μ) (m : μ) (mutex : Mutex τ) : Mutexes τ μ :=
  { s with mutex := Function.update s.mutex m mutex }

/-- `rt_thread_control` with `RT_THREAD_CTRL_CHANGE_PRIORITY`. -/
def Mutexes.changePriority (s : Mutexes τ μ) (thread : τ) (priority : ℕ) : Mutexes τ μ :=
  { s with currentPriority := Function.update s.currentPriority thread priority }

/-- `rt_mutex_take`, up to where the thread is suspended or returns. -/
def Mutexes.rtMutexTake (s : Mutexes τ μ) (thread : τ) (m : μ) (timeout : Timeout) :
    Mutexes τ μ :=
  let mutex := s.mutex m
  if mutex.owner = some thread then
    if mutex.hold < mutexHoldMax then
      { s.setMutex m { mutex with hold := mutex.hold + 1 } with log := s.log ++ [.take thread m] }
    else s
  else if mutex.value > 0 then
    let mutex := { mutex with
      value := mutex.value - 1
      owner := some thread
      originalPriority := s.currentPriority thread }
    if mutex.hold < mutexHoldMax then
      { s.setMutex m { mutex with hold := mutex.hold + 1 } with log := s.log ++ [.take thread m] }
    else s.setMutex m mutex
  else if timeout = .no then s
  else
    let s :=
      match mutex.owner with
      | some owner =>
        if s.currentPriority thread < s.currentPriority owner then
          s.changePriority owner (s.currentPriority thread)
        else s
      -- a mutex that is not available has an owner
      | none => s
    { s.setMutex m { mutex with
        suspendThread := ipcListSuspend (.prio s.currentPriority) ⟨thread, (), timeout = .ticks⟩
          mutex.suspendThread } with
      suspended := Function.update s.suspended thread true }

/-- The owner gets back its original priority. -/
def Mutexes.restorePriority (s : Mutexes τ μ) (thread : τ) (originalPriority : ℕ) :
    Mutexes τ μ :=
  if originalPriority ≠ s.currentPriority thread then s.changePriority thread originalPriority
  else s

/-- `rt_mutex_release`. A thread that was suspended goes on as the owner. -/
def Mutexes.rtMutexRelease (s : Mutexes τ μ) (thread : τ) (m : μ) : Mutexes τ μ :=
  let mutex := s.mutex m
  if mutex.owner ≠ some thread then s
  else
    let mutex := { mutex with hold := mutex.hold - 1 }
    let s := { s with log := s.log ++ [MutexEvent.release thread m] }
    if mutex.hold = 0 then
      let s := s.restorePriority thread mutex.originalPriority
      match mutex.suspendThread with
      | w :: list =>
        let mutex := { mutex with
          owner := some w.thread
          originalPriority := s.currentPriority w.thread }
        if mutex.hold < mutexHoldMax then
          { s.setMutex m { mutex with hold := mutex.hold + 1, suspendThread := list } with
            suspended := Function.update s.suspended w.thread false
            log := s.log ++ [MutexEvent.take w.thread m] }
        else s.setMutex m mutex
      | [] =>
        if mutex.value < mutexValueMax then
          s.setMutex m { mutex with
            value := mutex.value + 1
            owner := none
            originalPriority := 0xFF }
        else s.setMutex m mutex
    else s.setMutex m mutex

/-- The calls of the threads, and the timeouts of suspended ones. -/
inductive MutexAction (τ μ : Type*) where
  | take (thread : τ) (m : μ) (timeout : Timeout)
  | release (thread : τ) (m : μ)
  /-- `_thread_timeout`: the call returns with an error. -/
  | timeout (thread : τ) (m : μ)

/-- One step. A suspended thread makes no calls. -/
def Mutexes.step (s : Mutexes τ μ) : MutexAction τ μ → Mutexes τ μ
  | .take thread m timeout => if s.suspended thread then s else s.rtMutexTake thread m timeout
  | .release thread m => if s.suspended thread then s else s.rtMutexRelease thread m
  | .timeout thread m =>
    let mutex := s.mutex m
    if mutex.suspendThread.any fun w => w.thread = thread ∧ w.timed then
      { s.setMutex m { mutex with
          suspendThread := mutex.suspendThread.eraseP fun w => w.thread = thread ∧ w.timed } with
        suspended := Function.update s.suspended thread false }
    else s

/-! ### What the calls return -/

/-- What `rt_mutex_take` returns where it does not suspend its thread. -/
def Mutexes.takeReturn (s : Mutexes τ μ) (thread : τ) (m : μ) (timeout : Timeout) :
    Option RtErr :=
  if (s.mutex m).owner = some thread ∨ (s.mutex m).value > 0 then
    if (s.mutex m).hold < mutexHoldMax then some .eok else some .efull
  else if timeout = .no then some .etimeout
  else none

/-- What `rt_mutex_release` returns, with the thread that goes on as the owner: its
`rt_mutex_take` returns `RT_EOK`. -/
def Mutexes.releaseReturn (s : Mutexes τ μ) (thread : τ) (m : μ) : RtErr × Option τ :=
  let mutex := s.mutex m
  if mutex.owner ≠ some thread then (.error, none)
  else if mutex.hold - 1 = 0 then
    match mutex.suspendThread with
    | w :: _ => (.eok, some w.thread)
    | [] => (if mutex.value < mutexValueMax then .eok else .efull, none)
  else (.eok, none)

/-- What the calls that end with a step have got and given back, by their return values. -/
def Mutexes.returned (s : Mutexes τ μ) : MutexAction τ μ → List (MutexEvent τ μ)
  | .take thread m timeout =>
    if s.suspended thread = false ∧ s.takeReturn thread m timeout = some .eok then
      [.take thread m]
    else []
  | .release thread m =>
    if s.suspended thread = false ∧ (s.releaseReturn thread m).1 ≠ .error then
      .release thread m :: ((s.releaseReturn thread m).2.map (.take · m)).toList
    else []
  | .timeout _ _ => []

/-- A mutex is noted as taken when `rt_mutex_take` returns `RT_EOK`. -/
theorem log_rtMutexTake (s : Mutexes τ μ) (thread : τ) (m : μ) (timeout : Timeout) :
    (s.rtMutexTake thread m timeout).log =
      s.log ++ if s.takeReturn thread m timeout = some .eok then [.take thread m] else [] := by
  unfold Mutexes.rtMutexTake Mutexes.takeReturn
  by_cases howner : (s.mutex m).owner = some thread
  · by_cases hhold : (s.mutex m).hold < mutexHoldMax
    · simp [howner, hhold]
    · simp [howner, hhold]
  · by_cases hvalue : (s.mutex m).value > 0
    · by_cases hhold : (s.mutex m).hold < mutexHoldMax
      · simp [howner, hvalue, hhold]
      · simp [howner, hvalue, hhold, Mutexes.setMutex]
    · by_cases htimeout : timeout = .no
      · simp [howner, hvalue, htimeout]
      · simp only [howner, hvalue, htimeout, or_self, if_false, reduceCtorEq, List.append_nil]
        split
        · split_ifs <;> rfl
        · rfl

/-- A mutex is noted as released by its owner, and as taken by the thread that goes on. -/
theorem log_rtMutexRelease (s : Mutexes τ μ) (thread : τ) (m : μ) :
    (s.rtMutexRelease thread m).log = s.log ++
      if (s.releaseReturn thread m).1 ≠ .error then
        .release thread m :: ((s.releaseReturn thread m).2.map (.take · m)).toList
      else [] := by
  have hrestore : ∀ (s : Mutexes τ μ) priority,
      (s.restorePriority thread priority).log = s.log := by
    intro s priority
    unfold Mutexes.restorePriority Mutexes.changePriority
    split_ifs <;> rfl
  unfold Mutexes.rtMutexRelease Mutexes.releaseReturn
  by_cases howner : (s.mutex m).owner = some thread
  · by_cases hlast : (s.mutex m).hold - 1 = 0
    · cases hwaiting : (s.mutex m).suspendThread with
      | nil =>
        by_cases hvalue : (s.mutex m).value < mutexValueMax
        · simp [howner, hlast, hwaiting, hvalue, Mutexes.setMutex, hrestore]
        · simp [howner, hlast, hwaiting, hvalue, Mutexes.setMutex, hrestore]
      | cons w list =>
        -- a mutex that is not held any more can be held again
        have hroom : 0 < mutexHoldMax := by decide
        simp [howner, hlast, hwaiting, hroom, Mutexes.setMutex, hrestore]
    · simp [howner, hlast, Mutexes.setMutex]
  · simp [howner]

/-- The log is that of the calls that returned without `-RT_ERROR` and `-RT_ETIMEOUT`. -/
theorem log_step (s : Mutexes τ μ) (a : MutexAction τ μ) :
    (s.step a).log = s.log ++ s.returned a := by
  cases a with
  | take thread m timeout =>
    by_cases hsuspended : s.suspended thread = true
    · simp [Mutexes.step, Mutexes.returned, hsuspended]
    · simp only [Mutexes.step, Mutexes.returned, hsuspended, true_and]
      exact log_rtMutexTake s thread m timeout
  | release thread m =>
    by_cases hsuspended : s.suspended thread = true
    · simp [Mutexes.step, Mutexes.returned, hsuspended]
    · simp only [Mutexes.step, Mutexes.returned, hsuspended, true_and]
      exact log_rtMutexRelease s thread m
  | timeout thread m =>
    simp only [Mutexes.step, Mutexes.returned]
    split_ifs <;> simp [Mutexes.setMutex]

/-! ## What a step can do -/

/-- A mutex is free, with nobody waiting for it, or it is held. -/
structure Mutex.Ok (mutex : Mutex τ) : Prop where
  free : mutex.owner = none → mutex.value = 1 ∧ mutex.hold = 0 ∧ mutex.suspendThread = []
  held : mutex.owner ≠ none → mutex.value = 0 ∧ 0 < mutex.hold ∧ mutex.hold ≤ mutexHoldMax

/-- No mutex is taken by a thread that has another one. -/
def Mutexes.Flat (s : Mutexes τ μ) : MutexAction τ μ → Prop
  | .take thread m _ => ∀ m', (s.mutex m').owner = some thread → m' = m
  | _ => True

/-- The steps of the mutexes, without the branches that are never taken; `nested` holds if a
mutex may be taken by a thread that has another one. -/
inductive Mutexes.Step (s : Mutexes τ μ) (nested : Prop) : Mutexes τ μ → Prop where
  | same : Step s nested s
  | again {thread : τ} {m : μ} (howner : (s.mutex m).owner = some thread)
      (hhold : (s.mutex m).hold < mutexHoldMax) :
      Step s nested
        { s with
          mutex := Function.update s.mutex m
            { s.mutex m with hold := (s.mutex m).hold + 1 }
          log := s.log ++ [.take thread m] }
  | acquire {thread : τ} {m : μ} (hruns : s.suspended thread = false)
      (hfree : (s.mutex m).owner = none)
      (hnested : nested ∨ ∀ m', (s.mutex m').owner ≠ some thread) :
      Step s nested
        { s with
          mutex := Function.update s.mutex m
            ⟨0, s.currentPriority thread, 1, some thread, []⟩
          log := s.log ++ [.take thread m] }
  | wait {thread owner : τ} {m : μ} (timed : Bool) (hruns : s.suspended thread = false)
      (howner : (s.mutex m).owner = some owner) (hne : thread ≠ owner)
      (hnested : nested ∨ ∀ m', (s.mutex m').owner ≠ some thread) :
      Step s nested
        { s with
          mutex := Function.update s.mutex m
            { s.mutex m with
              suspendThread := ipcListSuspend
                (.prio (Inheritance.inherit s.currentPriority thread owner)) ⟨thread, (), timed⟩
                (s.mutex m).suspendThread }
          currentPriority := Inheritance.inherit s.currentPriority thread owner
          suspended := Function.update s.suspended thread true }
  | keep {thread : τ} {m : μ} (howner : (s.mutex m).owner = some thread)
      (hhold : 1 < (s.mutex m).hold) :
      Step s nested
        { s with
          mutex := Function.update s.mutex m
            { s.mutex m with hold := (s.mutex m).hold - 1 }
          log := s.log ++ [.release thread m] }
  | handOver {thread : τ} {m : μ} {w : Waiter τ Unit} {list : List (Waiter τ Unit)}
      (howner : (s.mutex m).owner = some thread) (hhold : (s.mutex m).hold = 1)
      (hlist : (s.mutex m).suspendThread = w :: list) :
      Step s nested
        { mutex := Function.update s.mutex m
            ⟨0, Function.update s.currentPriority thread (s.mutex m).originalPriority w.thread, 1,
              some w.thread, list⟩
          currentPriority :=
            Function.update s.currentPriority thread (s.mutex m).originalPriority
          suspended := Function.update s.suspended w.thread false
          log := s.log ++ [.release thread m, .take w.thread m] }
  | free {thread : τ} {m : μ} (howner : (s.mutex m).owner = some thread)
      (hhold : (s.mutex m).hold = 1) (hlist : (s.mutex m).suspendThread = []) :
      Step s nested
        { s with
          mutex := Function.update s.mutex m rtMutexCreate
          currentPriority :=
            Function.update s.currentPriority thread (s.mutex m).originalPriority
          log := s.log ++ [.release thread m] }
  | timeout {m : μ} {w : Waiter τ Unit} {list : List (Waiter τ Unit)}
      (hperm : (s.mutex m).suspendThread.Perm (w :: list))
      (hsublist : list.Sublist (s.mutex m).suspendThread) :
      Step s nested
        { s with
          mutex := Function.update s.mutex m { s.mutex m with suspendThread := list }
          suspended := Function.update s.suspended w.thread false }

variable {s s' : Mutexes τ μ} {nested : Prop}

omit [DecidableEq τ] in
/-- A mutex with an owner is held. -/
theorem Mutex.Ok.hold_of_owner {mutex : Mutex τ} (h : mutex.Ok) {thread : τ}
    (howner : mutex.owner = some thread) :
    mutex.value = 0 ∧ 0 < mutex.hold ∧ mutex.hold ≤ mutexHoldMax :=
  h.held (by simp [howner])

omit [DecidableEq μ] in
/-- An owner is raised to the priority of a thread that waits for it, never lowered. -/
theorem raise_eq (s : Mutexes τ μ) (thread owner : τ) :
    (if s.currentPriority thread < s.currentPriority owner then
      s.changePriority owner (s.currentPriority thread)
    else s) = { s with currentPriority := Inheritance.inherit s.currentPriority thread owner } := by
  unfold Inheritance.inherit Mutexes.changePriority
  split_ifs with hlt
  · rw [min_eq_left hlt.le]
  · rw [min_eq_right (not_lt.mp hlt), Function.update_eq_self]

omit [DecidableEq μ] in
/-- A priority that is the original one already need not be changed. -/
theorem restore_eq (s : Mutexes τ μ) (thread : τ) (priority : ℕ) :
    s.restorePriority thread priority = s.changePriority thread priority := by
  unfold Mutexes.restorePriority Mutexes.changePriority
  split_ifs with hne
  · rfl
  · rw [not_not.mp hne, Function.update_eq_self]

/-- A call of `rt_mutex_take`. -/
theorem step_rtMutexTake (hok : ∀ m, (s.mutex m).Ok) {thread : τ}
    (hruns : s.suspended thread = false) (m : μ) (timeout : Timeout) :
    s.Step (¬ s.Flat (.take thread m timeout)) (s.rtMutexTake thread m timeout) := by
  unfold Mutexes.rtMutexTake
  by_cases hself : (s.mutex m).owner = some thread
  · rw [if_pos hself]
    split_ifs with hhold
    · exact .again hself hhold
    · exact .same
  have hnested : ¬ s.Flat (.take thread m timeout) ∨ ∀ m', (s.mutex m').owner ≠ some thread := by
    by_cases hflat : s.Flat (.take thread m timeout)
    · refine .inr fun m' howner => hself ?_
      rw [← hflat m' howner, howner]
    · exact .inl hflat
  rw [if_neg hself]
  cases howner : (s.mutex m).owner with
  | none =>
    obtain ⟨hvalue, hhold, hlist⟩ := (hok m).free howner
    simp only [hvalue, hhold, hlist, Mutexes.setMutex]
    exact .acquire hruns howner hnested
  | some owner =>
    obtain ⟨hvalue, -, -⟩ := (hok m).hold_of_owner howner
    have hne : thread ≠ owner := by
      rintro rfl
      exact hself howner
    rw [if_neg (by omega)]
    split_ifs with hno
    · exact .same
    · simp only [raise_eq, Mutexes.setMutex]
      have hwait := Mutexes.Step.wait (timeout = .ticks) hruns howner hne hnested
      rw [← howner]
      exact hwait

/-- A call of `rt_mutex_release`. -/
theorem step_rtMutexRelease (hok : ∀ m, (s.mutex m).Ok) (thread : τ) (m : μ) :
    s.Step nested (s.rtMutexRelease thread m) := by
  unfold Mutexes.rtMutexRelease
  by_cases howner : (s.mutex m).owner = some thread
  · obtain ⟨hvalue, hpos, hmax⟩ := (hok m).hold_of_owner howner
    rw [if_neg (not_not.mpr howner)]
    by_cases hhold : (s.mutex m).hold = 1
    · simp only [hhold, Nat.sub_self, if_true, restore_eq]
      cases hlist : (s.mutex m).suspendThread with
      | nil =>
        have hfree : s.Step nested _ := .free howner hhold hlist
        simpa [hvalue, mutexValueMax, rtMutexCreate, Mutexes.setMutex, Mutexes.changePriority]
          using hfree
      | cons w list =>
        have hover : s.Step nested _ := .handOver howner hhold hlist
        simpa [hvalue, mutexHoldMax, Mutexes.setMutex, Mutexes.changePriority] using hover
    · simp only [if_neg (show (s.mutex m).hold - 1 ≠ 0 by omega), Mutexes.setMutex]
      exact .keep howner (by omega)
  · rw [if_pos howner]
    exact .same

omit [DecidableEq μ] in
/-- The call whose timeout is over leaves the list. -/
theorem exists_of_any {thread : τ} {list : List (Waiter τ Unit)}
    (h : list.any fun w => w.thread = thread ∧ w.timed) :
    ∃ w before after, w.thread = thread ∧ list = before ++ w :: after ∧
      list.eraseP (fun w => w.thread = thread ∧ w.timed) = before ++ after := by
  obtain ⟨w, hw, hfits⟩ := List.any_eq_true.mp h
  obtain ⟨w', before, after, -, hfits', hlist, herase⟩ := List.exists_of_eraseP
    (p := fun w : Waiter τ Unit => decide (w.thread = thread ∧ w.timed)) hw hfits
  exact ⟨w', before, after, (of_decide_eq_true hfits').1, hlist, herase⟩

/-- Every step is one of these. -/
theorem step_cases (hok : ∀ m, (s.mutex m).Ok) (a : MutexAction τ μ) :
    s.Step (¬ s.Flat a) (s.step a) := by
  cases a with
  | take thread m timeout =>
    simp only [Mutexes.step]
    split_ifs with hsuspended
    · exact .same
    · exact step_rtMutexTake hok (Bool.eq_false_of_not_eq_true hsuspended) m timeout
  | release thread m =>
    simp only [Mutexes.step]
    split_ifs
    · exact .same
    · exact step_rtMutexRelease hok thread m
  | timeout thread m =>
    simp only [Mutexes.step]
    split_ifs with hany
    · obtain ⟨w, before, after, hfits, hlist, herase⟩ := exists_of_any hany
      have hperm : (s.mutex m).suspendThread.Perm (w :: (before ++ after)) := by
        rw [hlist]
        exact List.perm_middle
      have hsublist : (before ++ after).Sublist (s.mutex m).suspendThread := by
        rw [← herase]
        exact List.eraseP_sublist
      rw [herase, ← hfits]
      exact .timeout hperm hsublist
    · exact .same

/-! ## One owner at a time -/

/-- Every mutex is free or held, and what a thread has taken and not released is what the mutex
counts for its owner, and nothing for the other threads. -/
structure Mutexes.Inv (s : Mutexes τ μ) : Prop where
  ok : ∀ m, (s.mutex m).Ok
  balance : ∀ m thread, s.log.count (.take thread m) =
    s.log.count (.release thread m) +
      if (s.mutex m).owner = some thread then (s.mutex m).hold else 0

/-- A step at one mutex. -/
theorem Mutexes.Inv.update (h : s.Inv) {m : μ} {mutex : Mutex τ} {events : List (MutexEvent τ μ)}
    (hmutex : s'.mutex = Function.update s.mutex m mutex) (hlog : s'.log = s.log ++ events)
    (hok : mutex.Ok)
    (hother : ∀ m', m' ≠ m → ∀ thread, .take thread m' ∉ events ∧ .release thread m' ∉ events)
    (hbalance : ∀ thread, (if (s.mutex m).owner = some thread then (s.mutex m).hold else 0) +
      events.count (.take thread m) = events.count (.release thread m) +
        if mutex.owner = some thread then mutex.hold else 0) : s'.Inv := by
  constructor
  · intro m'
    rw [hmutex, Function.update_apply]
    split_ifs
    · exact hok
    · exact h.ok m'
  · intro m' thread
    have hbefore := h.balance m' thread
    rw [hlog, hmutex, List.count_append, List.count_append]
    by_cases hm : m' = m
    · subst hm
      have hnow := hbalance thread
      rw [Function.update_self]
      omega
    · obtain ⟨htake, hrelease⟩ := hother m' hm thread
      rw [Function.update_of_ne hm, List.count_eq_zero.mpr htake, List.count_eq_zero.mpr hrelease]
      omega

/-- Every step keeps the balance of takes and releases. -/
theorem Mutexes.Inv.step (h : s.Inv) (hstep : s.Step nested s') : s'.Inv := by
  cases hstep with
  | same => exact h
  | @again thread m howner hhold =>
    refine h.update rfl rfl ⟨?_, ?_⟩ ?_ fun t => ?_
    · simp [howner]
    · intro _
      obtain ⟨hvalue, hpos, hmax⟩ := (h.ok m).hold_of_owner howner
      exact ⟨hvalue, Nat.succ_pos _, hhold⟩
    · intro m' hm t
      simp [hm]
    · by_cases ht : thread = t <;> simp [howner, ht]
  | @acquire thread m hruns hfree hnested =>
    refine h.update rfl rfl ⟨?_, ?_⟩ ?_ fun t => ?_
    · simp
    · simp [mutexHoldMax]
    · intro m' hm t
      simp [hm]
    · by_cases ht : thread = t <;> simp [hfree, ht]
  | @wait thread owner m timed hruns howner hne hnested =>
    refine h.update rfl (List.append_nil _).symm ⟨?_, ?_⟩ ?_ fun t => ?_
    · simp [howner]
    · exact (h.ok m).held
    · simp
    · simp
  | @keep thread m howner hhold =>
    refine h.update rfl rfl ⟨?_, ?_⟩ ?_ fun t => ?_
    · simp [howner]
    · intro _
      obtain ⟨hvalue, hpos, hmax⟩ := (h.ok m).hold_of_owner howner
      exact ⟨hvalue, Nat.sub_pos_of_lt hhold, (Nat.sub_le _ 1).trans hmax⟩
    · intro m' hm t
      simp [hm]
    · by_cases ht : thread = t
      · simp [howner, ht]
        omega
      · simp [howner, ht]
  | @handOver thread m w list howner hhold hlist =>
    refine h.update rfl rfl ⟨?_, ?_⟩ ?_ fun t => ?_
    · simp
    · simp [mutexHoldMax]
    · intro m' hm t
      simp [hm]
    · by_cases ht : thread = t <;> by_cases hw : w.thread = t <;> simp [howner, hhold, ht, hw]
  | @free thread m howner hhold hlist =>
    refine h.update rfl rfl ⟨?_, ?_⟩ ?_ fun t => ?_
    · simp [rtMutexCreate]
    · simp [rtMutexCreate]
    · intro m' hm t
      simp [hm]
    · by_cases ht : thread = t <;> simp [howner, hhold, ht, rtMutexCreate]
  | @timeout m w list hperm hsublist =>
    refine h.update rfl (List.append_nil _).symm ⟨?_, ?_⟩ ?_ fun t => ?_
    · intro hfree
      obtain ⟨hvalue, hhold, hempty⟩ := (h.ok m).free hfree
      rw [hempty] at hperm
      exact absurd hperm.symm (List.cons_ne_nil _ _ ·.eq_nil)
    · exact (h.ok m).held
    · simp
    · simp

/-- At the start all mutexes are free and nothing has been taken. -/
theorem inv_init (priority : τ → ℕ) : (Mutexes.init priority : Mutexes τ μ).Inv := by
  refine ⟨fun m => ⟨?_, ?_⟩, ?_⟩
  · simp [Mutexes.init, rtMutexCreate]
  · simp [Mutexes.init, rtMutexCreate]
  · simp [Mutexes.init, rtMutexCreate]

/-- The threads that wait for a mutex, in the order in which they get it. -/
def Mutex.waiting (mutex : Mutex τ) : List τ := mutex.suspendThread.map Waiter.thread

/-- The mutexes as resources of a protocol of priority inheritance. -/
def Mutexes.view (s : Mutexes τ μ) : Inheritance.State τ μ where
  owner := Mutex.owner ∘ s.mutex
  original := Mutex.originalPriority ∘ s.mutex
  waiting := Mutex.waiting ∘ s.mutex
  priority := s.currentPriority

omit [DecidableEq τ] in
/-- A thread is suspended in the order of priorities. -/
theorem map_thread_ipcListSuspend {β : Type*} (priority : τ → ℕ) (w : Waiter τ β)
    (list : List (Waiter τ β)) :
    (ipcListSuspend (.prio priority) w list).map Waiter.thread =
      Inheritance.enqueue priority w.thread (list.map Waiter.thread) := by
  unfold ipcListSuspend Inheritance.enqueue
  induction list with
  | nil => rfl
  | cons first list ih =>
    simp only [List.orderedInsert_cons, List.map_cons]
    split_ifs
    · rfl
    · exact congrArg (first.thread :: ·) ih

omit [DecidableEq τ] in
/-- The view of a step at one mutex. -/
theorem view_update (s : Mutexes τ μ) (m : μ) (mutex : Mutex τ) (priority : τ → ℕ)
    (suspended : τ → Bool) (log : List (MutexEvent τ μ)) :
    (⟨Function.update s.mutex m mutex, priority, suspended, log⟩ : Mutexes τ μ).view =
      ⟨Function.update s.view.owner m mutex.owner,
        Function.update s.view.original m mutex.originalPriority,
        Function.update s.view.waiting m mutex.waiting, priority⟩ := by
  simp only [Mutexes.view, Function.comp_update]

omit [DecidableEq τ] in
/-- An owner set to what it is. -/
theorem update_owner (s : Mutexes τ μ) (m : μ) :
    Function.update s.view.owner m (s.mutex m).owner = s.view.owner :=
  Function.update_eq_self m s.view.owner

omit [DecidableEq τ] in
/-- A priority set to what it is. -/
theorem update_original (s : Mutexes τ μ) (m : μ) :
    Function.update s.view.original m (s.mutex m).originalPriority = s.view.original :=
  Function.update_eq_self m s.view.original

omit [DecidableEq τ] in
/-- A count is not part of the view. -/
theorem view_count (s : Mutexes τ μ) (m : μ) (hold : ℕ) (log : List (MutexEvent τ μ)) :
    (⟨Function.update s.mutex m { s.mutex m with hold := hold }, s.currentPriority, s.suspended,
      log⟩ : Mutexes τ μ).view = s.view := by
  rw [view_update, update_owner, update_original]
  exact congrArg (Inheritance.State.mk _ _ · _) (Function.update_eq_self m s.view.waiting)

/-- The priorities are inherited, and who waits is suspended. -/
structure Mutexes.Inherits (base : τ → ℕ) (s : Mutexes τ μ) : Prop where
  view : Inheritance.Inv base s.view
  sleeps : ∀ m, ∀ thread ∈ s.view.waiting m, s.suspended thread = true

variable {base : τ → ℕ}

omit [DecidableEq τ] [DecidableEq μ] in
/-- A thread that makes a call waits nowhere. -/
theorem Mutexes.Inherits.runs (h : s.Inherits base) {thread : τ}
    (hruns : s.suspended thread = false) (m : μ) : thread ∉ s.view.waiting m := by
  intro hmem
  rw [h.sleeps m thread hmem] at hruns
  exact Bool.noConfusion hruns

/-- A thread leaves its list and goes on. -/
theorem Mutexes.Inherits.sleeps_leave (h : s.Inherits base) {m : μ} {w : Waiter τ Unit}
    {list : List (Waiter τ Unit)} (hperm : (s.mutex m).suspendThread.Perm (w :: list))
    (hsublist : list.Sublist (s.mutex m).suspendThread) (m' : μ) (thread : τ)
    (hthread : thread ∈ Function.update s.view.waiting m (list.map Waiter.thread) m') :
    Function.update s.suspended w.thread false thread = true := by
  have hleft := h.view.queued.left (hperm.map Waiter.thread) m'
  have hshorter : (list.map Waiter.thread).Sublist (s.view.waiting m) :=
    hsublist.map Waiter.thread
  rw [Function.update_of_ne]
  · exact h.sleeps m' thread ((Inheritance.update_sublist hshorter m').subset hthread)
  · rintro rfl
    exact hleft hthread

/-- The mutexes refine the protocol: a step changes nothing that the protocol knows of, or it is a
step of the protocol. -/
theorem Mutexes.Inherits.refines (h : s.Inherits base) (hstep : s.Step False s') :
    s'.view = s.view ∨ Inheritance.Step s.view s'.view := by
  cases hstep with
  | same => exact .inl rfl
  | @again thread m howner hhold => exact .inl (view_count s m _ _)
  | @acquire thread m hruns hfree hnested =>
    rw [view_update]
    exact .inr (.acquire hfree (hnested.resolve_left id) (h.runs hruns))
  | @wait thread owner m timed hruns howner hne hnested =>
    simp only [view_update, update_owner, update_original, Mutex.waiting,
      map_thread_ipcListSuspend]
    exact .inr (.wait howner (hnested.resolve_left id) (h.runs hruns))
  | @keep thread m howner hhold => exact .inl (view_count s m _ _)
  | @handOver thread m w list howner hhold hlist =>
    have hwaiting : s.view.waiting m = w.thread :: list.map Waiter.thread := by
      simp [Mutexes.view, Mutex.waiting, hlist]
    rw [view_update]
    exact .inr (.handOver howner hwaiting)
  | @free thread m howner hhold hlist =>
    have hwaiting : s.view.waiting m = [] := by
      simp [Mutexes.view, Mutex.waiting, hlist]
    rw [view_update]
    exact .inr (.free 0xFF howner hwaiting)
  | @timeout m w list hperm hsublist =>
    simp only [view_update, update_owner, update_original]
    exact .inr (.leave (hperm.map Waiter.thread) (hsublist.map Waiter.thread))

/-- Who waits stays suspended. -/
theorem Mutexes.Inherits.sleeps_step (h : s.Inherits base) (hstep : s.Step nested s') (m' : μ) :
    ∀ thread ∈ s'.view.waiting m', s'.suspended thread = true := by
  cases hstep with
  | same => exact h.sleeps m'
  | @again thread m howner hhold =>
    rw [view_count]
    exact h.sleeps m'
  | @keep thread m howner hhold =>
    rw [view_count]
    exact h.sleeps m'
  | @acquire thread m hruns hfree hnested =>
    rw [view_update]
    intro t ht
    exact h.sleeps m' t ((Inheritance.update_sublist (List.nil_sublist _) m').subset ht)
  | @free thread m howner hhold hlist =>
    rw [view_update]
    intro t ht
    exact h.sleeps m' t ((Inheritance.update_sublist (List.nil_sublist _) m').subset ht)
  | @wait thread owner m timed hruns howner hne hnested =>
    simp only [view_update, Mutex.waiting, map_thread_ipcListSuspend]
    intro t ht
    rw [Function.update_apply]
    split_ifs with hself
    · rfl
    · rcases Inheritance.mem_update_of_perm (Inheritance.enqueue_perm ..) ht with hold | ⟨-, heq⟩
      · exact h.sleeps m' t hold
      · exact absurd heq hself
  | @handOver thread m w list howner hhold hlist =>
    rw [view_update]
    exact h.sleeps_leave (hlist ▸ List.Perm.refl _) (hlist ▸ List.sublist_cons_self ..) m'
  | @timeout m w list hperm hsublist =>
    rw [view_update]
    exact h.sleeps_leave hperm hsublist m'

/-- Every step without nesting keeps the inheritance of priorities. -/
theorem Mutexes.Inherits.step (h : s.Inherits base) (hstep : s.Step False s') :
    s'.Inherits base := by
  refine ⟨?_, h.sleeps_step hstep⟩
  rcases h.refines hstep with hsame | hview
  · rw [hsame]
    exact h.view
  · exact h.view.step hview

omit [DecidableEq τ] [DecidableEq μ] in
/-- At the start every thread has its own priority. -/
theorem inherits_init (priority : τ → ℕ) :
    (Mutexes.init priority : Mutexes τ μ).Inherits priority := by
  refine ⟨⟨⟨?_, ?_, ?_⟩, ?_, ?_, ?_, ?_, ?_, ?_⟩, ?_⟩ <;>
    simp [Mutexes.init, Mutexes.view, rtMutexCreate, Mutex.waiting]

/-- In every run in which no mutex is taken inside another, a thread that has no mutex runs at its
own priority, and the owner of a mutex runs at least at its own one and at that of everyone who
waits for it. The mutex goes to the waiting threads in the order of their priorities. -/
theorem mutex_run_inherits {priority : τ → ℕ} {actions : List (MutexAction τ μ)}
    (hflat : Run.EachStep Mutexes.step Mutexes.Flat (Mutexes.init priority) actions) :
    let s := Run.after Mutexes.step (Mutexes.init priority) actions
    (∀ thread, (∀ m, (s.mutex m).owner ≠ some thread) →
      s.currentPriority thread = priority thread) ∧
    ∀ m, (∀ thread, (s.mutex m).owner = some thread →
        s.currentPriority thread ≤ priority thread ∧
        ∀ w ∈ (s.mutex m).suspendThread, s.currentPriority thread ≤ s.currentPriority w.thread) ∧
      (s.mutex m).suspendThread.Pairwise fun w w' =>
        s.currentPriority w.thread ≤ s.currentPriority w'.thread := by
  intro s
  obtain ⟨-, hview, -⟩ : s.Inv ∧ s.Inherits priority := by
    refine Run.inv_after (I := fun s => s.Inv ∧ s.Inherits priority) (fun s a h ha => ?_)
      ⟨inv_init priority, inherits_init priority⟩ hflat
    have hstep := step_cases h.1.ok a
    rw [eq_false (not_not.mpr ha)] at hstep
    exact ⟨h.1.step hstep, h.2.step hstep⟩
  -- whoever waits runs at its own priority
  have hwaits : ∀ m, ∀ w ∈ (s.mutex m).suspendThread,
      s.currentPriority w.thread = priority w.thread := by
    intro m w hw
    exact hview.priority_of_waiting (m := m) (List.mem_map_of_mem hw)
  refine ⟨hview.idle, fun m => ⟨fun thread howner => ⟨hview.raised m thread howner, ?_⟩, ?_⟩⟩
  · intro w hw
    rw [hwaits m w hw]
    exact hview.ahead m thread howner w.thread (List.mem_map_of_mem hw)
  · have hsorted := hview.sorted m
    refine (List.pairwise_map.mp hsorted).imp_of_mem fun {w w'} hw hw' hle => ?_
    rw [hwaits m w hw, hwaits m w' hw']
    exact hle

/-- The priorities of `main` and of the MQTT thread. -/
def demoPriority (main : Bool) : ℕ := if main then 10 else 17

/-- The MQTT thread has a mutex, and `main` comes to wait for it. -/
def contended : List (MutexAction Bool Bool) :=
  [.take false true .forever, .take true true .forever]

/-- The owner of a mutex gets the priority of the thread that waits for it. -/
theorem mutex_run_inherits_contended :
    Run.EachStep Mutexes.step Mutexes.Flat (Mutexes.init demoPriority) contended ∧
      ((Run.after Mutexes.step (Mutexes.init demoPriority) contended).mutex true).owner =
        some false ∧
      (Run.after Mutexes.step (Mutexes.init demoPriority) contended).currentPriority false ≤
        10 := by
  have hflat : Run.EachStep Mutexes.step Mutexes.Flat (Mutexes.init demoPriority) contended := by
    simp only [contended, Run.eachStep_cons, Mutexes.Flat]
    exact ⟨by decide, by decide, Run.eachStep_nil⟩
  have howner : ((Run.after Mutexes.step (Mutexes.init demoPriority) contended).mutex true).owner =
      some false := by decide
  have hwaits : ((Run.after Mutexes.step (Mutexes.init demoPriority) contended).mutex
      true).suspendThread = [⟨true, (), false⟩] := by decide
  obtain ⟨-, hheld⟩ := mutex_run_inherits hflat
  refine ⟨hflat, howner, ?_⟩
  have hahead := ((hheld true).1 false howner).2
  rw [hwaits] at hahead
  exact hahead _ List.mem_cons_self

-- A mutex that is given back inside another one takes the inherited priority with it.
example : (Run.after Mutexes.step (Mutexes.init demoPriority)
    [.take false true .forever, .take false false .forever, .take true true .forever,
      .release false false]).currentPriority false = 17 := by decide

end Saliwen.Kernel
