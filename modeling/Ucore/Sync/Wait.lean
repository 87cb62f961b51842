import Mathlib.Tactic.Common

/-!
# Wait queues

`wait.c`, for a queue on which processes wait with an interruptible
`wait_state`. `wakeup_queue` wakes all that wait, so a queue keeps no order
here. A killed process runs again while its `wait_t` is still on the queue.
-/

namespace Ucore.Sync

inductive Wait
  /-- On the queue, and the process is `PROC_SLEEPING`. -/
  | asleep
  /-- On the queue, and `kill` has made the process `PROC_RUNNABLE`. -/
  | killed
  /-- Off the queue, with the `wakeup_flags` of `wakeup_queue`. -/
  | woken
  deriving DecidableEq, Repr

namespace Wait

/-- `wakeup_wait` with `del` set, on a queue. -/
def wakeup : Wait → Wait
  | .asleep => .woken
  | .killed => .woken
  | .woken => .woken

def kill : Wait → Wait
  | .asleep => .killed
  | .killed => .killed
  | .woken => .woken

def Runnable (w : Wait) : Prop := w ≠ .asleep

instance : DecidablePred Runnable := fun w => inferInstanceAs (Decidable (w ≠ .asleep))

end Wait

end Ucore.Sync
