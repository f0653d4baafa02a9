import Saliwen.Kernel.Mailbox
import Saliwen.Publish.Loop

/-!
# The publishing loop on the mailbox of the kernel

The loop is run here on the mailbox as `ipc.c` keeps it: the MQTT thread is suspended in
`rt_mb_recv` while there is no mail, a mail resumes it, and it runs again some time later. Every
run is one of the loop with a plain slot for a mailbox, and the MQTT thread never sleeps beside a
mail.
-/

namespace Saliwen.Publish

open Kernel

/-! ## The source -/

/-- The threads that use the mailbox. -/
inductive Thread where
  | main
  | kawaiiDemo
  deriving DecidableEq, Repr

/-- `RT_MAIN_THREAD_PRIORITY` and the priority that `ka_mqtt` gives. -/
def currentPriority : Thread → ℕ
  | .main => 10
  | .kawaiiDemo => 17

/-- The mailbox of the kernel and the rest of the loop, whose own slot is not used. -/
structure KernelState where
  testMb : Mailboxes Thread Reading
  loop : State

/-- `test_mb` has one slot. -/
def KernelState.boot (msgPool : ℕ → Reading) (app : App) (fbm : Fbm320.Driver) : KernelState :=
  ⟨rtMbCreate msgPool 1, State.boot app fbm⟩

/-- The steps that leave the mailbox alone. -/
def Label.Local : Label → Prop
  | .mbSend | .mbRecv | .mbRecvError => False
  | _ => True

inductive KernelLabel where
  | loop (l : Label) (h : l.Local)
  /-- The main loop calls `rt_mb_send`. -/
  | mbSend
  /-- The MQTT thread calls `rt_mb_recv` with `RT_WAITING_FOREVER`. -/
  | mbRecv
  /-- The MQTT thread goes on in `rt_mb_recv` after it was resumed. -/
  | resumed

/-- `rt_mb_send` in the main loop. -/
def KernelState.rtMbSend (k : KernelState) (mail : Reading) : KernelState where
  testMb := k.testMb.step (.prio currentPriority) (.send .main mail .no)
  loop := { k.loop with
    light := none
    accepted :=
      if k.testMb.mb.entry = k.testMb.mb.size then k.loop.accepted
      else k.loop.accepted ++ [mail] }

/-- A step of the MQTT thread in `rt_mb_recv`: it returns with the oldest mail, or it is suspended
when there is none. -/
def KernelState.rtMbRecv (k : KernelState) (a : MailAction Thread Reading) : KernelState where
  testMb := k.testMb.step (.prio currentPriority) a
  loop :=
    if k.testMb.mb.entry = 0 then k.loop
    else { k.loop with receivedData := k.testMb.mb.msgPool k.testMb.mb.outOffset, pc := .test }

/-- One step. -/
def kernelStep (k : KernelState) : KernelLabel → KernelState
  | .loop l _ => { k with loop := step k.loop l }
  | .mbSend =>
    match k.loop.light with
    | none => k
    | some mail => k.rtMbSend mail
  | .mbRecv =>
    if k.loop.pc = .recv ∧ k.testMb.suspendThread = [] ∧ k.testMb.resumedReceivers = [] then
      k.rtMbRecv (.recv .kawaiiDemo .forever)
    else k
  | .resumed =>
    if k.testMb.resumedReceivers = [] then k else k.rtMbRecv (.runReceiver .kawaiiDemo false)

/-! ## Simulation -/

/-- The loop with the oldest mail in its slot. -/
def KernelState.state (k : KernelState) : State :=
  { k.loop with mailbox := k.testMb.mb.items.head? }

/-- The MQTT thread as it waits. -/
def waiter : Waiter Thread Unit := ⟨.kawaiiDemo, (), false⟩

/-- Where the MQTT thread waits, if it waits. -/
inductive Waits (pc : Pc) : List (Waiter Thread Unit) → List (Waiter Thread Unit) → Prop where
  | no : Waits pc [] []
  | suspended (h : pc = .recv) : Waits pc [waiter] []
  | resumed (h : pc = .recv) : Waits pc [] [waiter]

/-- One slot, and only the MQTT thread ever waits. -/
structure KernelState.Inv (k : KernelState) : Prop where
  testMb : k.testMb.Inv
  size : k.testMb.mb.size = 1
  senders : k.testMb.suspendSenderThread = []
  waits : Waits k.loop.pc k.testMb.suspendThread k.testMb.resumedReceivers

variable {k : KernelState}

/-- Who waits does not change with a step that does not leave `rt_mb_recv`. -/
theorem Waits.pc_eq {pc pc' : Pc} {suspended resumed : List (Waiter Thread Unit)}
    (h : Waits pc suspended resumed) (hpc : pc = .recv → pc' = .recv) :
    Waits pc' suspended resumed := by
  cases h with
  | no => exact .no
  | suspended h => exact .suspended (hpc h)
  | resumed h => exact .resumed (hpc h)

/-- A step beside the mailbox does not read the slot. -/
theorem step_mailbox {l : Label} (h : l.Local) (s : State) (slot : Option Reading) :
    step { s with mailbox := slot } l = { step s l with mailbox := slot } := by
  cases l <;> simp only [step, Label.Local] at h ⊢ <;> first | rfl | (split_ifs <;> rfl)

/-- A step beside the mailbox does not take the MQTT thread out of `rt_mb_recv`. -/
theorem step_pc {l : Label} (h : l.Local) {s : State} (hpc : s.pc = .recv) :
    (step s l).pc = .recv := by
  cases l <;> simp only [step, Label.Local, hpc] at h ⊢ <;>
    first | exact hpc | (split_ifs <;> simp_all)

/-- The mailbox has one slot. -/
theorem KernelState.Inv.entry (h : k.Inv) : k.testMb.mb.entry = 0 ∨ k.testMb.mb.entry = 1 := by
  have hle := h.testMb.ok.entry
  rw [h.size] at hle
  omega

/-- An empty mailbox is an empty slot. -/
theorem mailbox_of_entry (h : k.testMb.mb.entry = 0) : k.state.mailbox = none := by
  simp [KernelState.state, Mailbox.items, h]

/-- A full mailbox holds the mail that is received next, and nothing else. -/
theorem items_of_entry (h : k.Inv) (hentry : k.testMb.mb.entry = 1) :
    k.testMb.mb.items = [k.testMb.mb.msgPool k.testMb.mb.outOffset] ∧
      k.testMb.get.mb.items = [] := by
  have hitems := items_get h.testMb.ok (by omega)
  have hlength : k.testMb.mb.items.length = 1 := by rw [Mailbox.items, Ring.length_items, hentry]
  rw [hitems, List.length_cons, Nat.add_eq_right, List.length_eq_zero_iff] at hlength
  rw [hlength] at hitems
  exact ⟨hitems, hlength⟩

/-- A thread that was resumed is still in `rt_mb_recv`. -/
theorem Waits.of_resumed {pc : Pc} {suspended resumed : List (Waiter Thread Unit)}
    (h : Waits pc suspended resumed) (hresumed : resumed ≠ []) :
    pc = .recv ∧ suspended = [] ∧ resumed = [waiter] := by
  cases h with
  | no | suspended => exact absurd rfl hresumed
  | resumed hpc => exact ⟨hpc, rfl, rfl⟩

/-- The MQTT thread does not wait in two lists. -/
theorem Waits.of_suspended {pc : Pc} {suspended resumed : List (Waiter Thread Unit)}
    (h : Waits pc suspended resumed) (hsuspended : suspended ≠ []) : resumed = [] := by
  cases h with
  | no | resumed => exact absurd rfl hsuspended
  | suspended => rfl

/-- A mail resumes the MQTT thread if it is suspended. -/
theorem Waits.put {pc : Pc} (h : Waits pc k.testMb.suspendThread k.testMb.resumedReceivers)
    (hentry : k.testMb.mb.entry < mbEntryMax) (mail : Reading) :
    Waits pc (k.testMb.put mail).suspendThread (k.testMb.put mail).resumedReceivers := by
  generalize hsuspended : k.testMb.suspendThread = suspended at h
  generalize hresumed : k.testMb.resumedReceivers = resumed at h
  simp only [Mailboxes.put, if_pos hentry, Mailboxes.resumeReceiver, hsuspended]
  cases h with
  | no => simpa only [hsuspended, hresumed] using Waits.no
  | suspended hpc => simpa only [hresumed, List.nil_append] using Waits.resumed hpc
  | resumed hpc => simpa only [hsuspended, hresumed] using Waits.resumed hpc

/-- `rt_mb_send` posts into the slot when it is free. -/
theorem rtMbSend_sim (h : k.Inv) (mail : Reading) :
    (k.rtMbSend mail).Inv ∧
      (k.rtMbSend mail).state = { k.state.rtMbSend mail with light := none } := by
  have hinv : (k.testMb.step (.prio currentPriority) (.send .main mail .no)).Inv :=
    h.testMb.step _
  rcases h.entry with hentry | hentry
  · have hroom : k.testMb.mb.entry ≠ k.testMb.mb.size := by
      rw [hentry, h.size]
      decide
    have hsend : k.testMb.step (.prio currentPriority) (.send .main mail .no) =
        k.testMb.put mail := by
      simp [Mailboxes.step, Mailboxes.send, hroom]
    have hitems : (k.testMb.put mail).mb.items = [mail] := by
      rw [items_put h.testMb.ok hroom, Mailbox.items, hentry, Ring.items_zero, List.nil_append]
    rw [hsend] at hinv
    have hstep : k.rtMbSend mail = ⟨k.testMb.put mail,
        { k.loop with light := none, accepted := k.loop.accepted ++ [mail] }⟩ := by
      simp only [KernelState.rtMbSend, hsend, if_neg hroom]
    rw [hstep]
    refine ⟨⟨hinv, (size_put mail).trans h.size, ?_, ?_⟩, ?_⟩
    · exact (suspendSenderThread_put mail).trans h.senders
    · exact h.waits.put (by rw [hentry]; decide) mail
    · simp only [State.rtMbSend, mailbox_of_entry hentry]
      simp [KernelState.state, hitems]
  · have hfull : k.testMb.mb.entry = k.testMb.mb.size := hentry.trans h.size.symm
    have hstep : k.rtMbSend mail = { k with loop := { k.loop with light := none } } := by
      simp [KernelState.rtMbSend, Mailboxes.step, Mailboxes.send, hfull]
    rw [hstep]
    refine ⟨⟨h.testMb, h.size, h.senders, h.waits⟩, ?_⟩
    simp [State.rtMbSend, KernelState.state, (items_of_entry h hentry).1]

/-- The mailbox with the MQTT thread running. -/
def KernelState.running (k : KernelState) : Mailboxes Thread Reading :=
  { k.testMb with suspendThread := [], resumedReceivers := [] }

/-- With nobody suspended or resumed the mailbox runs as it is. -/
theorem running_eq (hsuspended : k.testMb.suspendThread = [])
    (hresumed : k.testMb.resumedReceivers = []) : k.running = k.testMb := by
  unfold KernelState.running
  rw [Mailboxes.mk.injEq]
  exact ⟨rfl, hsuspended.symm, rfl, hresumed.symm, rfl, rfl⟩

/-- `rt_mb_recv` takes the mail from the slot, or waits when there is none. -/
theorem rtMbRecv_sim (h : k.Inv) (hpc : k.loop.pc = .recv) {a : MailAction Thread Reading}
    (ha : k.testMb.step (.prio currentPriority) a =
      k.running.recv (.prio currentPriority) waiter true) :
    (k.rtMbRecv a).Inv ∧ (k.rtMbRecv a).state = step k.state .mbRecv := by
  have hinv : (k.testMb.step (.prio currentPriority) a).Inv := h.testMb.step a
  have hsize : (k.testMb.step (.prio currentPriority) a).mb.size = 1 :=
    (size_step a).trans h.size
  rw [ha] at hinv hsize
  rcases h.entry with hentry | hentry
  · have hrecv : k.running.recv (.prio currentPriority) waiter true =
        { k.running with suspendThread := [waiter] } := by
      simp [Mailboxes.recv, KernelState.running, hentry, ipcListSuspend]
    have hstep : k.rtMbRecv a = ⟨{ k.running with suspendThread := [waiter] }, k.loop⟩ := by
      simp only [KernelState.rtMbRecv, ha, hrecv, hentry, if_true]
    rw [hrecv] at hinv hsize
    rw [hstep]
    refine ⟨⟨hinv, hsize, h.senders, .suspended hpc⟩, ?_⟩
    simp [step, KernelState.state, KernelState.running, hpc, Mailbox.items, hentry]
  · have hmail : k.testMb.mb.entry ≠ 0 := by omega
    have hrecv : k.running.recv (.prio currentPriority) waiter true = k.running.get :=
      if_neg hmail
    have hstep : k.rtMbRecv a = ⟨k.running.get, { k.loop with
        receivedData := k.testMb.mb.msgPool k.testMb.mb.outOffset, pc := .test }⟩ := by
      simp only [KernelState.rtMbRecv, ha, hrecv, if_neg hmail]
    have hlists : k.running.get.suspendSenderThread = [] ∧ k.running.get.suspendThread = [] ∧
        k.running.get.resumedReceivers = [] := by
      simp [Mailboxes.get, Mailboxes.resumeSender, KernelState.running, h.senders]
    have hget : k.running.get.mb = k.testMb.get.mb := by
      simp [Mailboxes.get, KernelState.running]
    obtain ⟨hitems, hempty⟩ := items_of_entry h hentry
    rw [hrecv] at hinv hsize
    rw [hstep]
    refine ⟨⟨hinv, hsize, hlists.1, ?_⟩, ?_⟩
    · rw [hlists.2.1, hlists.2.2]
      exact .no
    · simp [step, KernelState.state, hpc, hget, hitems, hempty]

/-- Every step of the kernel is a step of the loop, or none. -/
theorem kernelStep_sim (h : k.Inv) (a : KernelLabel) :
    (kernelStep k a).Inv ∧ ((kernelStep k a).state = k.state ∨
      ∃ l, l ≠ .mbRecvError ∧ (kernelStep k a).state = step k.state l) := by
  cases a with
  | loop l hl =>
    refine ⟨⟨h.testMb, h.size, h.senders, h.waits.pc_eq (step_pc hl)⟩, .inr ⟨l, ?_, ?_⟩⟩
    · rintro rfl
      exact hl
    · exact (step_mailbox hl k.loop _).symm
  | mbSend =>
    simp only [kernelStep]
    split
    · exact ⟨h, .inl rfl⟩
    · rename_i mail hlight
      obtain ⟨hinv, hstate⟩ := rtMbSend_sim h mail
      refine ⟨hinv, .inr ⟨.mbSend, nofun, ?_⟩⟩
      rw [hstate]
      simp [step, KernelState.state, hlight]
  | mbRecv =>
    simp only [kernelStep]
    split_ifs with hcall
    · obtain ⟨hpc, hsuspended, hresumed⟩ := hcall
      have hcall : k.testMb.step (.prio currentPriority) (.recv .kawaiiDemo .forever) =
          k.running.recv (.prio currentPriority) waiter true := by
        rw [running_eq hsuspended hresumed]
        rfl
      obtain ⟨hinv, hstate⟩ := rtMbRecv_sim h hpc hcall
      exact ⟨hinv, .inr ⟨.mbRecv, nofun, hstate⟩⟩
    · exact ⟨h, .inl rfl⟩
  | resumed =>
    simp only [kernelStep]
    split_ifs with hresumed
    · exact ⟨h, .inl rfl⟩
    · obtain ⟨hpc, hsuspended, hresumed⟩ := h.waits.of_resumed hresumed
      have hrun : k.testMb.step (.prio currentPriority) (.runReceiver .kawaiiDemo false) =
          k.running.recv (.prio currentPriority) waiter true := by
        simp [Mailboxes.step, KernelState.running, hsuspended, hresumed, waiter]
      obtain ⟨hinv, hstate⟩ := rtMbRecv_sim h hpc hrun
      exact ⟨hinv, .inr ⟨.mbRecv, nofun, hstate⟩⟩

/-- At the start the mailbox is empty and the thread has yet to call `rt_mb_recv`. -/
theorem inv_boot (msgPool : ℕ → Reading) (app : App) (fbm : Fbm320.Driver) :
    (KernelState.boot msgPool app fbm).Inv :=
  ⟨inv_rtMbCreate msgPool 1, rfl, rfl, .no⟩

/-- A run on the kernel keeps to a run of the loop. -/
theorem run_sim (msgPool : ℕ → Reading) (app : App) (fbm : Fbm320.Driver)
    (actions : List KernelLabel) :
    (Run.after kernelStep (KernelState.boot msgPool app fbm) actions).Inv ∧
      ∃ labels, Label.mbRecvError ∉ labels ∧
        (Run.after kernelStep (KernelState.boot msgPool app fbm) actions).state =
          Run.after step (State.boot app fbm) labels := by
  induction actions using List.reverseRecOn with
  | nil => exact ⟨inv_boot msgPool app fbm, [], List.not_mem_nil, rfl⟩
  | append_singleton actions a ih =>
    obtain ⟨hinv, labels, hlabels, hstate⟩ := ih
    rw [Run.after_snoc]
    obtain ⟨hinv, hsame | ⟨l, hl, hstep⟩⟩ := kernelStep_sim hinv a
    · exact ⟨hinv, labels, hlabels, hsame.trans hstate⟩
    · refine ⟨hinv, labels ++ [l], ?_, ?_⟩
      · simpa [hlabels] using hl.symm
      · rw [Run.after_snoc, hstep, hstate]

/-- The mailbox of the kernel serves the loop as its slot. Every run on the kernel ends where a
run of the loop ends, in which `rt_mb_recv` never fails, and while the MQTT thread is suspended
the slot is empty. -/
theorem loop_kernel (msgPool : ℕ → Reading) (app : App) (fbm : Fbm320.Driver)
    (actions : List KernelLabel) :
    let k := Run.after kernelStep (KernelState.boot msgPool app fbm) actions
    (∃ labels, Label.mbRecvError ∉ labels ∧
      k.state = Run.after step (State.boot app fbm) labels) ∧
      (k.testMb.suspendThread ≠ [] → k.state.mailbox = none) := by
  intro k
  obtain ⟨hinv, hlabels⟩ := run_sim msgPool app fbm actions
  refine ⟨hlabels, fun hne => mailbox_of_entry ?_⟩
  have hle := hinv.testMb.receivers hne
  rw [hinv.waits.of_suspended hne] at hle
  exact Nat.le_zero.mp hle

end Saliwen.Publish
