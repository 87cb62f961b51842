import Ucore.Lib.Safe
import Ucore.Schedule.Mlfq

/-!
# The scheduler

`sched.c`, with what `do_fork`, `do_sleep`, `do_exit` and `do_execve` do to a
process that the scheduler sees. One processor at a time is in the kernel. It
may put its current process to sleep and be interrupted before it calls
`schedule`, and it returns to user mode only with a runnable process.
-/

namespace Ucore.Schedule

open Ucore.Lib Function
open Sync (WaitState)

namespace Sched

def schedClassEnqueue (c p : Nat) (s : Sched) : Except Panic Sched :=
  if p ≠ s.idle c then s.mlfqEnqueue p else .ok s

def schedClassProcTick (c p : Nat) (s : Sched) : Except Panic Sched := do
  if p ≠ s.idle c then s.mlfqProcTick p
  else
    let x ← s.get p
    .ok (s.set p { x with needResched := true })

def wakeupProc (c p : Nat) (s : Sched) : Except Panic Sched := do
  let x ← s.get p
  if x.state = .zombie then .error .assertion
  else if x.state ≠ .runnable then
    let s := s.set p { x with state := .runnable, waitState := .none }
    if p ≠ s.current c then
      if s.cpus ≤ x.pid then s.schedClassEnqueue c p else .error .assertion
    else .ok s
  else .ok s

def busy (s : Sched) (x : Task) : Bool := x.mm.any fun m => (s.lapic m).isSome

def putBack (c : Nat) : List Nat → Sched → Except Panic Sched
  | [], s => .ok s
  | p :: head, s => s.schedClassEnqueue c p >>= putBack c head

/-- The loop of `schedule`: `head` are the processes put aside. -/
def pickLoop (c : Nat) : Nat → List Nat → Sched → Except Panic (Option Nat × Sched)
  | 0, _, _ => .error .hang
  | fuel + 1, head, s =>
    match s.mlfqPickNext with
    | none => (putBack c head s).map fun s => (none, s)
    | some p => do
      let s ← s.mlfqDequeue p
      let x ← s.get p
      if s.busy x then pickLoop c fuel (p :: head) s
      else (putBack c head s).map fun s => (some p, s)

def leaveMm (c : Nat) (x : Task) (s : Sched) : Except Panic Sched :=
  match x.mm with
  | some m => if s.lapic m = some c then .ok { s with lapic := update s.lapic m none } else .error .assertion
  | none => .ok s

def enterMm (c : Nat) (x : Task) (s : Sched) : Except Panic Sched :=
  match x.mm with
  | some m => if s.lapic m = none then .ok { s with lapic := update s.lapic m (some c) } else .error .assertion
  | none => .ok s

/-- `schedule` puts a runnable process back, if it is not an idle process. -/
def enqueueCurrent (c cur : Nat) (x : Task) (s : Sched) : Except Panic Sched :=
  if x.state = .runnable ∧ s.cpus ≤ x.pid then s.schedClassEnqueue c cur else .ok s

def procRun (c next : Nat) (s : Sched) : Sched := { s with current := update s.current c next }

def schedule (c : Nat) (s : Sched) : Except Panic Sched := do
  let cur := s.current c
  let x ← s.get cur
  let s ← (s.set cur { x with needResched := false }).leaveMm c x
  let s ← s.enqueueCurrent c cur x
  let r ← pickLoop c (s.waiting + 1) [] s
  let next := r.1.getD (r.2.idle c)
  let y ← r.2.get next
  let s ← r.2.enterMm c y
  .ok (s.procRun c next)

def wakeTimer (c : Nat) (s : Sched) (t : Timer) : Except Panic Sched := do
  let x ← s.get t.proc
  if x.waitState ≠ .none ∧ x.waitState.canInterrupt = false then .error .assertion else s.wakeupProc c t.proc

def tick (c : Nat) (s : Sched) : Except Panic Sched := do
  let r ← runTimerList s.timers
  let s ← r.1.foldlM (wakeTimer c) { s with timers := r.2 }
  s.schedClassProcTick c (s.current c)

/-- `do_fork` of the current process: a new process at the address `a`. -/
def fork (c a pid : Nat) (mm : Option Nat) (s : Sched) : Except Panic Sched := do
  let x ← s.get (s.current c)
  if x.waitState ≠ .none then .error .assertion
  else
    let half := x.timeSlice / 2
    let s := s.set (s.current c) { x with timeSlice := x.timeSlice - half }
    wakeupProc c a (s.set a ⟨.uninit, pid, .none, false, mm, none, half⟩)

/-- `do_fork` that finds no memory after it has divided the time slice. -/
def forkFail (c : Nat) (s : Sched) : Except Panic Sched := do
  let x ← s.get (s.current c)
  if x.waitState ≠ .none then .error .assertion
  else .ok (s.set (s.current c) { x with timeSlice := x.timeSlice - x.timeSlice / 2 })

/-- The current process goes to sleep: `wait_current_set`, `do_wait`, `do_sleep`. -/
def sleep (c : Nat) (w : WaitState) (s : Sched) : Except Panic Sched := do
  let x ← s.get (s.current c)
  .ok (s.set (s.current c) { x with state := .sleeping, waitState := w })

/-- `mm->lapic = -1` for the `mm` of a process that gives it up. -/
def releaseMm (x : Task) (s : Sched) : Sched :=
  match x.mm with
  | some m => { s with lapic := update s.lapic m none }
  | none => s

def exit (c : Nat) (s : Sched) : Except Panic Sched := do
  let x ← s.get (s.current c)
  .ok ((s.releaseMm x).set (s.current c) { x with state := .zombie, mm := none })

/-- `do_execve`: the process runs in a new `mm`. -/
def exec (c m : Nat) (s : Sched) : Except Panic Sched := do
  let x ← s.get (s.current c)
  let s := s.releaseMm x
  .ok ({ s with lapic := update s.lapic m (some c) }.set (s.current c) { x with mm := some m })

def reap (p : Nat) (s : Sched) : Sched := { s with task := update s.task p none }

end Sched

inductive SchedCall
  | wakeup (p : Nat)
  | schedule
  | tick
  | addTimer (t : Timer) (n : UInt32)
  | delTimer (i : Nat)
  | fork (a pid : Nat) (mm : Option Nat)
  | forkFail
  | sleep (w : WaitState)
  | exit
  | exec (m : Nat)
  | reap (p : Nat)
  deriving DecidableEq, Repr

inductive SchedEvent
  | enter (c : Nat)
  | leave
  | call (a : SchedCall)
  deriving DecidableEq, Repr

namespace Sched

def perform (c : Nat) (s : Sched) : SchedCall → Except Panic Sched
  | .wakeup p => s.wakeupProc c p
  | .schedule => s.schedule c
  | .tick => s.tick c
  | .addTimer t n => (Schedule.addTimer t n s.timers).map fun l => { s with timers := l }
  | .delTimer i => .ok { s with timers := Schedule.delTimer i s.timers }
  | .fork a pid mm => s.fork c a pid mm
  | .forkFail => s.forkFail c
  | .sleep w => s.sleep c w
  | .exit => s.exit c
  | .exec m => s.exec c m
  | .reap p => .ok (s.reap p)

def step (s : Sched) : SchedEvent → Except Panic Sched
  | .enter c => .ok { s with lock := some c }
  | .leave => .ok { s with lock := none }
  | .call a =>
    match s.lock with
    | some c => s.perform c a
    | none => .ok s

def stateOf (s : Sched) (p : Nat) : Option ProcState := (s.task p).map Task.state

/-- What a processor does when. It enters the kernel when it gets the lock and
leaves it with a runnable process. A new process gets memory that no other
process has. An idle process does not sleep or exit. `do_wait` frees only
zombies, and not itself. -/
def Allowed (s : Sched) : SchedEvent → Prop
  | .enter c => s.lock = none ∧ c < s.cpus
  | .leave => ∃ c, s.lock = some c ∧ s.stateOf (s.current c) = some .runnable
  | .call (.fork a _ _) => s.task a = none
  | .call (.sleep _) => ∀ c, s.lock = some c → s.current c ≠ s.idle c
  | .call .exit => ∀ c, s.lock = some c → s.current c ≠ s.idle c
  | .call (.reap p) => s.stateOf p = some .zombie ∧ ∀ c, s.lock = some c → s.current c ≠ p
  | .call _ => True

def boot (cpus : Nat) : Sched where
  cpus := cpus
  task p := if p < cpus then some ⟨.runnable, p, .none, true, none, none, 0⟩ else none
  queue _ := []
  procNum _ := 0
  current c := c
  idle c := c
  lapic _ := none
  timers := []
  lock := none

end Sched

end Ucore.Schedule
