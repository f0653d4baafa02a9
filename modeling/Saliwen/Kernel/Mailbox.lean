import Mathlib.Algebra.Group.Nat.Defs
import Saliwen.Kernel.Ipc
import Saliwen.Lib.Ring
import Saliwen.Lib.Run

/-!
# The mailboxes of the kernel

`rt_mb_create`, `rt_mb_send_wait`, `rt_mb_urgent`, `rt_mb_recv` and the reset of `rt_mb_control`
in `ipc.c`. Each of them runs with interrupts disabled up to the point where the thread is
suspended or returns, and a thread that was resumed goes on later, when other calls may have come
in between. The results are about every order of these steps: the mailbox is a queue, and no
thread is left waiting for what the mailbox has.
-/

namespace Saliwen.Kernel

variable {τ α : Type*} [DecidableEq τ]

/-! ## The source -/

/-- `struct rt_mailbox` without its lists of threads. -/
structure Mailbox (α : Type*) where
  msgPool : ℕ → α
  size : ℕ
  entry : ℕ
  inOffset : ℕ
  outOffset : ℕ

/-- `RT_MB_ENTRY_MAX`. -/
def mbEntryMax : ℕ := 65535

/-- What went into a mailbox and what was taken from it. -/
inductive Mail (α : Type*) where
  | post (value : α)
  | urgent (value : α)
  | take (value : α)
  | reset

/-- A mailbox, its suspended threads, the threads that were resumed and have not run since, and
the mails so far. -/
structure Mailboxes (τ α : Type*) where
  mb : Mailbox α
  suspendThread : List (Waiter τ Unit)
  suspendSenderThread : List (Waiter τ α)
  resumedReceivers : List (Waiter τ Unit)
  resumedSenders : List (Waiter τ α)
  mails : List (Mail α)

/-- `rt_mb_create`: the size is kept in 16 bits. -/
def rtMbCreate (msgPool : ℕ → α) (size : ℕ) : Mailboxes τ α :=
  ⟨⟨msgPool, size % 2 ^ 16, 0, 0, 0⟩, [], [], [], [], []⟩

/-- `_ipc_list_resume` for a receiver, if one is suspended. -/
def Mailboxes.resumeReceiver (s : Mailboxes τ α) : Mailboxes τ α :=
  match s.suspendThread with
  | [] => s
  | w :: list => { s with suspendThread := list, resumedReceivers := s.resumedReceivers ++ [w] }

/-- `_ipc_list_resume` for a sender, if one is suspended. -/
def Mailboxes.resumeSender (s : Mailboxes τ α) : Mailboxes τ α :=
  match s.suspendSenderThread with
  | [] => s
  | w :: list => { s with suspendSenderThread := list, resumedSenders := s.resumedSenders ++ [w] }

/-- The end of `rt_mb_send_wait`, when there is room. -/
def Mailboxes.put (s : Mailboxes τ α) (value : α) : Mailboxes τ α :=
  let mb := { s.mb with
    msgPool := Function.update s.mb.msgPool s.mb.inOffset value
    inOffset := if s.mb.inOffset + 1 ≥ s.mb.size then 0 else s.mb.inOffset + 1 }
  if mb.entry < mbEntryMax then
    let mb := { mb with entry := mb.entry + 1 }
    { s with mb := mb, mails := s.mails ++ [Mail.post value] }.resumeReceiver
  else { s with mb := mb }

/-- The end of `rt_mb_recv`, when there is a mail. -/
def Mailboxes.get (s : Mailboxes τ α) : Mailboxes τ α :=
  let value := s.mb.msgPool s.mb.outOffset
  let mb := { s.mb with
    outOffset := if s.mb.outOffset + 1 ≥ s.mb.size then 0 else s.mb.outOffset + 1
    entry := s.mb.entry - 1 }
  { s with mb := mb, mails := s.mails ++ [Mail.take value] }.resumeSender

/-- `rt_mb_urgent`. -/
def Mailboxes.rtMbUrgent (s : Mailboxes τ α) (value : α) : Mailboxes τ α :=
  if s.mb.entry = s.mb.size then s
  else
    let outOffset := if s.mb.outOffset > 0 then s.mb.outOffset - 1 else s.mb.size - 1
    let mb := { s.mb with
      outOffset := outOffset
      msgPool := Function.update s.mb.msgPool outOffset value
      entry := s.mb.entry + 1 }
    { s with mb := mb, mails := s.mails ++ [Mail.urgent value] }.resumeReceiver

/-- The loop of `rt_mb_send_wait`, where it begins and where the thread goes on after it was
resumed; `waits` tells whether some of the timeout is left. -/
def Mailboxes.send (flag : Flag τ) (s : Mailboxes τ α) (w : Waiter τ α) (waits : Bool) :
    Mailboxes τ α :=
  if s.mb.entry = s.mb.size then
    if waits then
      { s with suspendSenderThread := ipcListSuspend flag w s.suspendSenderThread }
    else s
  else s.put w.value

/-- The loop of `rt_mb_recv`. -/
def Mailboxes.recv (flag : Flag τ) (s : Mailboxes τ α) (w : Waiter τ Unit) (waits : Bool) :
    Mailboxes τ α :=
  if s.mb.entry = 0 then
    if waits then { s with suspendThread := ipcListSuspend flag w s.suspendThread } else s
  else s.get

/-- The steps of the threads and of their timers. -/
inductive MailAction (τ α : Type*) where
  /-- A thread calls `rt_mb_send_wait`, or `rt_mb_send` with no timeout. -/
  | send (thread : τ) (value : α) (timeout : Timeout)
  | urgent (value : α)
  | recv (thread : τ) (timeout : Timeout)
  /-- A resumed thread runs again, with its timeout run out or not. -/
  | runSender (thread : τ) (expired : Bool)
  | runReceiver (thread : τ) (expired : Bool)
  /-- `_thread_timeout`: the call returns with an error. -/
  | timeoutSender (thread : τ)
  | timeoutReceiver (thread : τ)
  /-- `rt_mb_control` with `RT_IPC_CMD_RESET`: suspended calls return with an error. -/
  | reset

/-- One step. -/
def Mailboxes.step (flag : Flag τ) (s : Mailboxes τ α) : MailAction τ α → Mailboxes τ α
  | .send thread value timeout =>
    s.send flag ⟨thread, value, timeout = .ticks⟩ (timeout ≠ .no)
  | .urgent value => s.rtMbUrgent value
  | .recv thread timeout => s.recv flag ⟨thread, (), timeout = .ticks⟩ (timeout ≠ .no)
  | .runSender thread expired =>
    match s.resumedSenders.find? (·.thread = thread) with
    | none => s
    | some w =>
      { s with resumedSenders := s.resumedSenders.eraseP (·.thread = thread) }.send flag w
        (!(w.timed && expired))
  | .runReceiver thread expired =>
    match s.resumedReceivers.find? (·.thread = thread) with
    | none => s
    | some w =>
      { s with resumedReceivers := s.resumedReceivers.eraseP (·.thread = thread) }.recv flag w
        (!(w.timed && expired))
  | .timeoutSender thread =>
    { s with
      suspendSenderThread := s.suspendSenderThread.eraseP fun w => w.thread = thread ∧ w.timed }
  | .timeoutReceiver thread =>
    { s with suspendThread := s.suspendThread.eraseP fun w => w.thread = thread ∧ w.timed }
  | .reset =>
    { s with
      mb := { s.mb with entry := 0, inOffset := 0, outOffset := 0 }
      suspendThread := []
      suspendSenderThread := []
      mails := s.mails ++ [Mail.reset] }

/-! ### What the calls return -/

/-- What `rt_mb_send_wait` returns where it does not suspend its thread. -/
def Mailboxes.sendReturn (s : Mailboxes τ α) (waits : Bool) : Option RtErr :=
  if s.mb.entry = s.mb.size then if waits then none else some .efull
  else if s.mb.entry < mbEntryMax then some .eok else some .efull

/-- What `rt_mb_recv` returns where it does not suspend its thread, `RT_EOK` with the mail. -/
def Mailboxes.recvReturn (s : Mailboxes τ α) (waits : Bool) : Option (Except RtErr α) :=
  if s.mb.entry = 0 then if waits then none else some (.error .etimeout)
  else some (.ok (s.mb.msgPool s.mb.outOffset))

/-- What `rt_mb_urgent` returns. -/
def Mailboxes.urgentReturn (s : Mailboxes τ α) : RtErr :=
  if s.mb.entry = s.mb.size then .efull else .eok

/-- The mail of a call that sends, by its return value. -/
def sentMail (mail : Mail α) : Option RtErr → List (Mail α)
  | some .eok => [mail]
  | _ => []

/-- The mail of a call of `rt_mb_recv`, by its return value. -/
def receivedMail : Option (Except RtErr α) → List (Mail α)
  | some (.ok value) => [.take value]
  | _ => []

/-- What a step does to the mails, by the return value of the call that ends with it. -/
def Mailboxes.returned (s : Mailboxes τ α) : MailAction τ α → List (Mail α)
  | .send _ value timeout => sentMail (.post value) (s.sendReturn (timeout ≠ .no))
  | .urgent value => sentMail (.urgent value) (some s.urgentReturn)
  | .recv _ timeout => receivedMail (s.recvReturn (timeout ≠ .no))
  | .runSender thread expired =>
    match s.resumedSenders.find? (·.thread = thread) with
    | none => []
    | some w => sentMail (.post w.value) (s.sendReturn (!(w.timed && expired)))
  | .runReceiver thread expired =>
    match s.resumedReceivers.find? (·.thread = thread) with
    | none => []
    | some w => receivedMail (s.recvReturn (!(w.timed && expired)))
  | .timeoutSender _ | .timeoutReceiver _ => []
  | .reset => [.reset]

variable {s : Mailboxes τ α} {flag : Flag τ}

omit [DecidableEq τ] in
/-- Waking up a receiver moves no mail. -/
@[simp] theorem mails_resumeReceiver : s.resumeReceiver.mails = s.mails := by
  unfold Mailboxes.resumeReceiver
  split <;> rfl

omit [DecidableEq τ] in
/-- Waking up a sender moves no mail. -/
@[simp] theorem mails_resumeSender : s.resumeSender.mails = s.mails := by
  unfold Mailboxes.resumeSender
  split <;> rfl

omit [DecidableEq τ] in
/-- A mail that is put into the mailbox is noted unless the count has reached its limit. -/
theorem mails_put (value : α) :
    (s.put value).mails =
      s.mails ++ if s.mb.entry < mbEntryMax then [Mail.post value] else [] := by
  simp only [Mailboxes.put]
  by_cases hmax : s.mb.entry < mbEntryMax
  · rw [if_pos hmax, if_pos hmax, mails_resumeReceiver]
  · rw [if_neg hmax, if_neg hmax, List.append_nil]

omit [DecidableEq τ] in
/-- A mail is noted when `rt_mb_send_wait` returns `RT_EOK`. -/
theorem mails_send (w : Waiter τ α) (waits : Bool) :
    (s.send flag w waits).mails = s.mails ++ sentMail (.post w.value) (s.sendReturn waits) := by
  unfold Mailboxes.send Mailboxes.sendReturn
  by_cases hfull : s.mb.entry = s.mb.size
  · rw [if_pos hfull, if_pos hfull]
    split_ifs <;> simp [sentMail]
  · rw [if_neg hfull, if_neg hfull, mails_put]
    split_ifs <;> simp [sentMail]

omit [DecidableEq τ] in
/-- A mail is noted when `rt_mb_recv` returns it. -/
theorem mails_recv (w : Waiter τ Unit) (waits : Bool) :
    (s.recv flag w waits).mails = s.mails ++ receivedMail (s.recvReturn waits) := by
  unfold Mailboxes.recv Mailboxes.recvReturn Mailboxes.get
  split_ifs <;> simp [receivedMail]

/-- The mails are those of the calls that returned `RT_EOK`, and the resets. -/
theorem mails_step (a : MailAction τ α) :
    (s.step flag a).mails = s.mails ++ s.returned a := by
  cases a with
  | send thread value timeout => exact mails_send _ _
  | recv thread timeout => exact mails_recv _ _
  | urgent value =>
    simp only [Mailboxes.step, Mailboxes.rtMbUrgent, Mailboxes.returned, Mailboxes.urgentReturn]
    split_ifs <;> simp [sentMail]
  | runSender thread expired =>
    simp only [Mailboxes.step, Mailboxes.returned]
    cases s.resumedSenders.find? (·.thread = thread) with
    | none => simp
    | some w => exact mails_send _ _
  | runReceiver thread expired =>
    simp only [Mailboxes.step, Mailboxes.returned]
    cases s.resumedReceivers.find? (·.thread = thread) with
    | none => simp
    | some w => exact mails_recv _ _
  | timeoutSender thread => simp [Mailboxes.step, Mailboxes.returned]
  | timeoutReceiver thread => simp [Mailboxes.step, Mailboxes.returned]
  | reset => rfl

/-! ## The queue of mails -/

/-- The mails in a mailbox, from the oldest on. -/
def Mailbox.items (mb : Mailbox α) : List α :=
  Ring.items mb.size mb.msgPool mb.outOffset mb.entry

/-- What a queue holds after mails were put in and taken. -/
inductive Queue : List (Mail α) → List α → Prop where
  | nil : Queue [] []
  | post {mails : List (Mail α)} {items : List α} (value : α) (h : Queue mails items) :
      Queue (mails ++ [.post value]) (items ++ [value])
  | urgent {mails : List (Mail α)} {items : List α} (value : α) (h : Queue mails items) :
      Queue (mails ++ [.urgent value]) (value :: items)
  | take {mails : List (Mail α)} {items : List α} {value : α} (h : Queue mails (value :: items)) :
      Queue (mails ++ [.take value]) items
  | reset {mails : List (Mail α)} {items : List α} (h : Queue mails items) :
      Queue (mails ++ [.reset]) []

/-- The offsets and the number of mails fit to each other. -/
structure Mailbox.Ok (mb : Mailbox α) : Prop where
  size : mb.size ≤ mbEntryMax
  entry : mb.entry ≤ mb.size
  out : 0 < mb.size → mb.outOffset < mb.size
  input : 0 < mb.size → mb.inOffset = (mb.outOffset + mb.entry) % mb.size

/-- The mailbox is a queue, and when threads are suspended, then for every mail or every free
slot that they wait for another one was resumed already. -/
structure Mailboxes.Inv (s : Mailboxes τ α) : Prop where
  ok : s.mb.Ok
  queue : Queue s.mails s.mb.items
  receivers : s.suspendThread ≠ [] → s.mb.entry ≤ s.resumedReceivers.length
  senders : s.suspendSenderThread ≠ [] → s.mb.size ≤ s.mb.entry + s.resumedSenders.length

/-- The next offset, behind the last slot the first one. -/
theorem next_offset {offset size : ℕ} (h : offset < size) :
    (if offset + 1 ≥ size then 0 else offset + 1) = (offset + 1) % size := by
  split_ifs with hend
  · rw [show offset + 1 = size by omega, Nat.mod_self]
  · rw [Nat.mod_eq_of_lt (by omega)]

/-- The previous offset, before the first slot the last one. -/
theorem previous_offset {offset size : ℕ} (h : offset < size) :
    (if offset > 0 then offset - 1 else size - 1) < size ∧
      ((if offset > 0 then offset - 1 else size - 1) + 1) % size = offset := by
  split_ifs with hsome
  · rw [Nat.sub_add_cancel hsome]
    exact ⟨by omega, Nat.mod_eq_of_lt h⟩
  · rw [Nat.sub_add_cancel (by omega), Nat.mod_self]
    omega

omit [DecidableEq τ] in
/-- Waking up a receiver leaves the mailbox as it is. -/
@[simp] theorem mb_resumeReceiver : s.resumeReceiver.mb = s.mb := by
  unfold Mailboxes.resumeReceiver
  split <;> rfl

omit [DecidableEq τ] in
/-- Waking up a sender leaves the mailbox as it is. -/
@[simp] theorem mb_resumeSender : s.resumeSender.mb = s.mb := by
  unfold Mailboxes.resumeSender
  split <;> rfl

omit [DecidableEq τ] in
/-- The mail is put behind the others. -/
theorem items_put (hok : s.mb.Ok) (hroom : s.mb.entry ≠ s.mb.size) (value : α) :
    (s.put value).mb.items = s.mb.items ++ [value] := by
  obtain ⟨hsize, hentry, hout, hinput⟩ := hok
  have hpos : 0 < s.mb.size := by omega
  simp only [Mailboxes.put, if_pos (show s.mb.entry < mbEntryMax by omega), mb_resumeReceiver,
    Mailbox.items]
  rw [hinput hpos]
  exact Ring.items_push value (by omega)

omit [DecidableEq τ] in
/-- The oldest mail is taken. -/
theorem items_get (hok : s.mb.Ok) (hmail : s.mb.entry ≠ 0) :
    s.mb.items = s.mb.msgPool s.mb.outOffset :: s.get.mb.items := by
  obtain ⟨hsize, hentry, hout, hinput⟩ := hok
  have hlt := hout (by omega)
  obtain ⟨entry, hpred⟩ := Nat.exists_eq_succ_of_ne_zero hmail
  simp only [Mailboxes.get, mb_resumeSender, Mailbox.items, next_offset hlt]
  rw [hpred, Ring.items_pop hlt, Nat.succ_sub_one]

omit [DecidableEq τ] in
/-- A mail more, and a receiver more that was resumed. -/
theorem inv_resumeReceiver (hok : s.mb.Ok) (hqueue : Queue s.mails s.mb.items)
    (hreceivers : s.suspendThread ≠ [] → s.mb.entry ≤ s.resumedReceivers.length + 1)
    (hsenders : s.suspendSenderThread ≠ [] → s.mb.size ≤ s.mb.entry + s.resumedSenders.length) :
    s.resumeReceiver.Inv := by
  unfold Mailboxes.resumeReceiver
  split
  · rename_i hnone
    exact ⟨hok, hqueue, fun h => absurd hnone h, hsenders⟩
  · rename_i w list hlist
    refine ⟨hok, hqueue, fun _ => ?_, hsenders⟩
    simpa using hreceivers (by simp [hlist])

omit [DecidableEq τ] in
/-- A free slot more, and a sender more that was resumed. -/
theorem inv_resumeSender (hok : s.mb.Ok) (hqueue : Queue s.mails s.mb.items)
    (hreceivers : s.suspendThread ≠ [] → s.mb.entry ≤ s.resumedReceivers.length)
    (hsenders : s.suspendSenderThread ≠ [] →
      s.mb.size ≤ s.mb.entry + 1 + s.resumedSenders.length) : s.resumeSender.Inv := by
  unfold Mailboxes.resumeSender
  split
  · rename_i hnone
    exact ⟨hok, hqueue, hreceivers, fun h => absurd hnone h⟩
  · rename_i w list hlist
    refine ⟨hok, hqueue, hreceivers, fun _ => ?_⟩
    have hsize := hsenders (by simp [hlist])
    simp only [List.length_append, List.length_singleton]
    omega

omit [DecidableEq τ] in
/-- A mail is put in, also by a thread that has just been resumed for it. -/
theorem inv_put (value : α) (hroom : s.mb.entry ≠ s.mb.size) (hok : s.mb.Ok)
    (hqueue : Queue s.mails s.mb.items)
    (hreceivers : s.suspendThread ≠ [] → s.mb.entry ≤ s.resumedReceivers.length)
    (hsenders : s.suspendSenderThread ≠ [] →
      s.mb.size ≤ s.mb.entry + 1 + s.resumedSenders.length) : (s.put value).Inv := by
  have hitems := items_put hok hroom value
  obtain ⟨hsize, hentry, hout, hinput⟩ := hok
  have hpos : 0 < s.mb.size := by omega
  have hin : s.mb.inOffset < s.mb.size := by
    rw [hinput hpos]
    exact Nat.mod_lt _ hpos
  have hpost := hqueue.post value
  rw [← hitems] at hpost
  unfold Mailboxes.put at hpost ⊢
  simp only [next_offset hin, if_pos (show s.mb.entry < mbEntryMax by omega),
    mb_resumeReceiver] at hpost ⊢
  refine inv_resumeReceiver ⟨hsize, by simp only; omega, hout, fun _ => ?_⟩ hpost ?_ ?_
  · simp only
    rw [hinput hpos, Nat.mod_add_mod, Nat.add_assoc]
  · intro hne
    exact Nat.add_le_add_right (hreceivers hne) 1
  · exact hsenders

omit [DecidableEq τ] in
/-- The oldest mail is taken, also by a thread that has just been resumed for it. -/
theorem inv_get (hmail : s.mb.entry ≠ 0) (hok : s.mb.Ok) (hqueue : Queue s.mails s.mb.items)
    (hreceivers : s.suspendThread ≠ [] → s.mb.entry ≤ s.resumedReceivers.length + 1)
    (hsenders : s.suspendSenderThread ≠ [] → s.mb.size ≤ s.mb.entry + s.resumedSenders.length) :
    s.get.Inv := by
  rw [items_get hok hmail] at hqueue
  have htake := hqueue.take
  obtain ⟨hsize, hentry, hout, hinput⟩ := hok
  have hpos : 0 < s.mb.size := by omega
  unfold Mailboxes.get at htake ⊢
  simp only [next_offset (hout hpos), mb_resumeSender] at htake ⊢
  refine inv_resumeSender ⟨hsize, by simp only; omega, fun _ => Nat.mod_lt _ hpos, fun _ => ?_⟩
    htake ?_ ?_
  · simp only
    rw [hinput hpos, Nat.mod_add_mod]
    congr 1
    omega
  · intro hne
    have hle := hreceivers hne
    simp only
    omega
  · intro hne
    have hle := hsenders hne
    simp only
    omega

omit [DecidableEq τ] in
/-- A mail is put before the others. -/
theorem Mailboxes.Inv.rtMbUrgent (h : s.Inv) (value : α) : (s.rtMbUrgent value).Inv := by
  obtain ⟨⟨hsize, hentry, hout, hinput⟩, hqueue, hreceivers, hsenders⟩ := h
  by_cases hfull : s.mb.entry = s.mb.size
  · rw [Mailboxes.rtMbUrgent, if_pos hfull]
    exact ⟨⟨hsize, hentry, hout, hinput⟩, hqueue, hreceivers, hsenders⟩
  have hpos : 0 < s.mb.size := by omega
  obtain ⟨hplt, hback⟩ := previous_offset (hout hpos)
  rw [Mailboxes.rtMbUrgent, if_neg hfull]
  generalize (if s.mb.outOffset > 0 then s.mb.outOffset - 1 else s.mb.size - 1) = p at hplt hback ⊢
  refine inv_resumeReceiver ⟨hsize, by simp only; omega, fun _ => hplt, fun _ => ?_⟩ ?_ ?_ ?_
  · simp only
    rw [hinput hpos, ← hback, Nat.mod_add_mod]
    congr 1
    omega
  · have hitems : Ring.items s.mb.size (Function.update s.mb.msgPool p value) p (s.mb.entry + 1) =
        value :: s.mb.items := by
      rw [Ring.items_unpop value hplt (by omega), hback, Mailbox.items]
    have hurgent := hqueue.urgent value
    rw [← hitems] at hurgent
    exact hurgent
  · intro hne
    exact Nat.add_le_add_right (hreceivers hne) 1
  · intro hne
    have hle := hsenders hne
    simp only
    omega

/-! ## The steps of the threads -/

omit [DecidableEq τ] in
/-- A sender either puts its mail or waits at a full mailbox. -/
theorem inv_send (w : Waiter τ α) (waits : Bool) (hok : s.mb.Ok)
    (hqueue : Queue s.mails s.mb.items)
    (hreceivers : s.suspendThread ≠ [] → s.mb.entry ≤ s.resumedReceivers.length)
    (hsenders : s.suspendSenderThread ≠ [] →
      s.mb.size ≤ s.mb.entry + 1 + s.resumedSenders.length) : (s.send flag w waits).Inv := by
  unfold Mailboxes.send
  split_ifs with hfull hwaits
  · exact ⟨hok, hqueue, hreceivers, fun _ => by simp only; omega⟩
  · exact ⟨hok, hqueue, hreceivers, fun _ => by omega⟩
  · exact inv_put w.value hfull hok hqueue hreceivers hsenders

omit [DecidableEq τ] in
/-- A receiver either takes a mail or waits at an empty mailbox. -/
theorem inv_recv (w : Waiter τ Unit) (waits : Bool) (hok : s.mb.Ok)
    (hqueue : Queue s.mails s.mb.items)
    (hreceivers : s.suspendThread ≠ [] → s.mb.entry ≤ s.resumedReceivers.length + 1)
    (hsenders : s.suspendSenderThread ≠ [] → s.mb.size ≤ s.mb.entry + s.resumedSenders.length) :
    (s.recv flag w waits).Inv := by
  unfold Mailboxes.recv
  split_ifs with hempty hwaits
  · exact ⟨hok, hqueue, fun _ => by simp only; omega, hsenders⟩
  · exact ⟨hok, hqueue, fun _ => by omega, hsenders⟩
  · exact inv_get hempty hok hqueue hreceivers hsenders

/-- One thread less among those that were resumed. -/
theorem length_eraseP_find {β : Type*} {list : List (Waiter τ β)} {w : Waiter τ β} {thread : τ}
    (h : list.find? (·.thread = thread) = some w) :
    (list.eraseP (·.thread = thread)).length + 1 = list.length := by
  have hmem := List.mem_of_find?_eq_some h
  have hlen := List.length_eraseP_of_mem hmem (List.find?_some h)
  have hpos := List.length_pos_of_mem hmem
  omega

/-- Who is left was there before. -/
theorem ne_nil_of_eraseP {β : Type*} {list : List β} {p : β → Bool} (h : list.eraseP p ≠ []) :
    list ≠ [] := by
  rintro rfl
  exact h rfl

/-- Every step keeps the mailbox a queue and loses no wakeup. -/
theorem Mailboxes.Inv.step (h : s.Inv) (a : MailAction τ α) : (s.step flag a).Inv := by
  obtain ⟨hok, hqueue, hreceivers, hsenders⟩ := h
  cases a with
  | send thread value timeout =>
    exact inv_send _ _ hok hqueue hreceivers fun hne => by have := hsenders hne; omega
  | urgent value => exact Mailboxes.Inv.rtMbUrgent ⟨hok, hqueue, hreceivers, hsenders⟩ value
  | recv thread timeout =>
    exact inv_recv _ _ hok hqueue (fun hne => Nat.le_succ_of_le (hreceivers hne)) hsenders
  | runSender thread expired =>
    simp only [Mailboxes.step]
    split
    · exact ⟨hok, hqueue, hreceivers, hsenders⟩
    · rename_i w hfind
      have hlen := length_eraseP_find hfind
      refine inv_send _ _ hok hqueue hreceivers fun hne => ?_
      have hle := hsenders hne
      simp only
      omega
  | runReceiver thread expired =>
    simp only [Mailboxes.step]
    split
    · exact ⟨hok, hqueue, hreceivers, hsenders⟩
    · rename_i w hfind
      have hlen := length_eraseP_find hfind
      refine inv_recv _ _ hok hqueue (fun hne => ?_) hsenders
      have hle := hreceivers hne
      simp only
      omega
  | timeoutSender thread =>
    exact ⟨hok, hqueue, hreceivers, fun hne => hsenders (ne_nil_of_eraseP hne)⟩
  | timeoutReceiver thread =>
    exact ⟨hok, hqueue, fun hne => hreceivers (ne_nil_of_eraseP hne), hsenders⟩
  | reset =>
    refine ⟨⟨hok.size, Nat.zero_le _, fun hpos => hpos, fun _ => ?_⟩, hqueue.reset, ?_, ?_⟩
    · exact (Nat.zero_mod _).symm
    · exact fun hne => absurd rfl hne
    · exact fun hne => absurd rfl hne

omit [DecidableEq τ] in
/-- A new mailbox is empty, with no thread suspended. -/
theorem inv_rtMbCreate (msgPool : ℕ → α) (size : ℕ) :
    (rtMbCreate msgPool size : Mailboxes τ α).Inv := by
  have hsize : size % 2 ^ 16 ≤ mbEntryMax := Nat.le_of_lt_succ (Nat.mod_lt _ (by decide))
  refine ⟨⟨hsize, Nat.zero_le _, fun hpos => hpos, fun _ => ?_⟩, .nil, ?_, ?_⟩
  · exact (Nat.zero_mod _).symm
  · exact fun hne => absurd rfl hne
  · exact fun hne => absurd rfl hne

/-! ## Runs -/

omit [DecidableEq τ] in
/-- Putting a mail leaves the suspended senders as they are. -/
theorem suspendSenderThread_put (value : α) :
    (s.put value).suspendSenderThread = s.suspendSenderThread := by
  simp only [Mailboxes.put, Mailboxes.resumeReceiver]
  split
  · split <;> rfl
  · rfl

omit [DecidableEq τ] in
/-- Putting a mail leaves the number of slots as it is. -/
theorem size_put (value : α) : (s.put value).mb.size = s.mb.size := by
  simp only [Mailboxes.put]
  split <;> simp

omit [DecidableEq τ] in
/-- Sending leaves the number of slots as it is. -/
theorem size_send (w : Waiter τ α) (waits : Bool) :
    (s.send flag w waits).mb.size = s.mb.size := by
  unfold Mailboxes.send
  split_ifs <;> simp [size_put]

omit [DecidableEq τ] in
/-- Receiving leaves the number of slots as it is. -/
theorem size_recv (w : Waiter τ Unit) (waits : Bool) :
    (s.recv flag w waits).mb.size = s.mb.size := by
  unfold Mailboxes.recv Mailboxes.get
  split_ifs <;> simp

/-- No step changes the number of slots. -/
theorem size_step (a : MailAction τ α) : (s.step flag a).mb.size = s.mb.size := by
  cases a with
  | send => exact size_send _ _
  | recv => exact size_recv _ _
  | urgent =>
    simp only [Mailboxes.step, Mailboxes.rtMbUrgent]
    split_ifs <;> simp
  | runSender thread expired =>
    simp only [Mailboxes.step]
    split
    · rfl
    · exact size_send _ _
  | runReceiver thread expired =>
    simp only [Mailboxes.step]
    split
    · rfl
    · exact size_recv _ _
  | timeoutSender | timeoutReceiver | reset => rfl

/-- The states that the threads can bring a mailbox to. -/
theorem run_inv (flag : Flag τ) (msgPool : ℕ → α) (size : ℕ) (actions : List (MailAction τ α)) :
    (Run.after (Mailboxes.step flag) (rtMbCreate msgPool size) actions).Inv ∧
      (Run.after (Mailboxes.step flag) (rtMbCreate msgPool size) actions).mb.size =
        size % 2 ^ 16 := by
  refine Run.inv_of_step (I := fun s : Mailboxes τ α => s.Inv ∧ s.mb.size = size % 2 ^ 16)
    (fun s a h => ?_) ⟨inv_rtMbCreate msgPool size, rfl⟩ actions
  exact ⟨h.1.step a, (size_step a).trans h.2⟩

/-- In no run a wakeup is lost. While a receiver is suspended, every mail in the mailbox has a
receiver of its own that was resumed and has yet to run; while a sender is suspended, every free
slot has such a sender. -/
theorem mailbox_run_wakes (flag : Flag τ) (msgPool : ℕ → α) (size : ℕ)
    (actions : List (MailAction τ α)) :
    let s := Run.after (Mailboxes.step flag) (rtMbCreate msgPool size) actions
    (s.suspendThread ≠ [] → s.mb.entry ≤ s.resumedReceivers.length) ∧
      (s.suspendSenderThread ≠ [] →
        size % 2 ^ 16 - s.mb.entry ≤ s.resumedSenders.length) := by
  intro s
  obtain ⟨⟨-, -, hreceivers, hsenders⟩, hsize⟩ := run_inv flag msgPool size actions
  refine ⟨hreceivers, fun hne => ?_⟩
  have hle := hsenders hne
  rw [← hsize]
  exact Nat.sub_le_iff_le_add'.mpr hle

end Saliwen.Kernel
