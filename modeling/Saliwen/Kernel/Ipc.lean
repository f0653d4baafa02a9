import Mathlib.Data.List.Sort

/-!
# Threads suspended on an object of the kernel

What the objects of `ipc.c` share: the lists of suspended threads, first come first served or in
the order of priorities.
-/

namespace Saliwen.Kernel

variable {τ β : Type*}

/-- `RT_IPC_FLAG_FIFO` and `RT_IPC_FLAG_PRIO`, with the priorities of the threads. -/
inductive Flag (τ : Type*) where
  | fifo
  | prio (currentPriority : τ → ℕ)

/-- A suspended call: its thread, the value to be sent, and whether its timeout is limited. -/
structure Waiter (τ β : Type*) where
  thread : τ
  value : β
  timed : Bool
  deriving DecidableEq, Repr

/-- `_ipc_list_suspend`. -/
def ipcListSuspend (flag : Flag τ) (w : Waiter τ β) (list : List (Waiter τ β)) :
    List (Waiter τ β) :=
  match flag with
  | .fifo => list ++ [w]
  | .prio currentPriority =>
    list.orderedInsert (fun w w' => currentPriority w.thread < currentPriority w'.thread) w

/-- The timeout of a call: zero, a number of ticks, or `RT_WAITING_FOREVER`. -/
inductive Timeout where
  | no
  | ticks
  | forever
  deriving DecidableEq, Repr

/-- The return values of `ipc.c`: `RT_EOK`, `-RT_ERROR`, `-RT_ETIMEOUT` and `-RT_EFULL`. -/
inductive RtErr where
  | eok
  | error
  | etimeout
  | efull
  deriving DecidableEq, Repr

end Saliwen.Kernel
