import Ucore.Lib.Linked
import Ucore.Lib.Ring
import Ucore.Process.Pid
import Ucore.Schedule.Mlfq

/-!
# The process tree

`set_links`, `remove_links`, `do_fork`, `__do_exit`, `do_wait` and `do_kill` of
`proc.c`, on the fields of all `proc_struct`s. A runnable process may run at any
time, and a call runs up to its next `schedule`. The parts of `do_fork` and
`__do_exit` that may wait come before anything that the model shows. The one
exception is the test of `nr_process`: `do_fork` makes it at its start, before
`copy_sem` and `copy_mm`, which may sleep, and the model makes it together with
`set_links`. So only the model keeps to `MAX_PROCESS`; in the source several forks
may pass the test at once.

The model numbers the processes and records those that `do_wait` has freed; the
source has neither.
-/

namespace Ucore.Process

open Ucore.Lib Function
open Schedule (ProcState)
open Sync (WaitState)

/-- The processes by address. The idle processes have the addresses below
`lcpu_count` and `init` has the next one. -/
structure Procs where
  lcpuCount : Nat
  procList : List Nat
  counter : PidCounter
  state : Nat → ProcState
  pid : Nat → Nat
  parent : Nat → Option Nat
  cptr : Nat → Option Nat
  yptr : Nat → Option Nat
  optr : Nat → Option Nat
  waitState : Nat → WaitState
  exiting : Nat → Bool
  exitCode : Nat → Int
  /-- `next_thread`. The links of `thread_group` back are its inverse. -/
  nextThread : Equiv.Perm Nat
  waitPid : Nat → Option Nat
  serial : Nat → Nat
  born : Nat
  freed : List Nat

namespace Procs

def initproc (s : Procs) : Nat := s.lcpuCount

def nrProcess (s : Procs) : Nat := s.lcpuCount + s.procList.length

def rounds (s : Procs) : Nat := s.procList.length + 2

def findProc (s : Procs) (pid : Nat) : Option Nat :=
  if 0 < pid ∧ pid < maxPid then s.procList.find? fun q => s.pid q = pid else none

/-- `wakeup_proc` of a process other than the current one. -/
def wakeupProc (p : Nat) (s : Procs) : Except Panic Procs :=
  if s.state p = .zombie then .error .assertion
  else if s.state p ≠ .runnable then
    if s.lcpuCount ≤ s.pid p then
      .ok { s with state := update s.state p .runnable, waitState := update s.waitState p .none }
    else .error .assertion
  else .ok s

def pushChild (p q : Nat) (s : Procs) : Procs :=
  { s with
    yptr := updateAt (update s.yptr q none) (s.cptr p) (some q)
    optr := update s.optr q (s.cptr p)
    parent := update s.parent q (some p)
    cptr := update s.cptr p (some q) }

def setLinks (p q : Nat) (s : Procs) : Procs := { s.pushChild p q with procList := q :: s.procList }

def removeLinks (p q : Nat) (s : Procs) : Procs :=
  { s with
    procList := s.procList.erase q
    yptr := updateAt s.yptr (s.optr q) (s.yptr q)
    optr := updateAt s.optr (s.yptr q) (s.optr q)
    cptr := if s.yptr q = none then update s.cptr p (s.optr q) else s.cptr }

/-- `alloc_proc` at the address `a`, with a pid. -/
def allocProc (a : Nat) (c : PidCounter) (s : Procs) : Procs :=
  { s with
    counter := c
    state := update s.state a .uninit
    pid := update s.pid a c.lastPid
    cptr := update s.cptr a none
    waitState := update s.waitState a .none
    exiting := update s.exiting a false
    waitPid := update s.waitPid a none
    serial := update s.serial a s.born
    born := s.born + 1 }

def fork (p a : Nat) (thread : Bool) (s : Procs) : Except Panic Procs :=
  if maxProcess ≤ s.nrProcess then .ok s
  else if s.waitState p ≠ .none then .error .assertion
  else
    match getPid enoughWalks s.lcpuCount (s.procList.map s.pid) s.counter with
    | none => .error .hang
    | some c =>
      let s := (s.allocProc a c).setLinks p a
      let s := if thread then { s with nextThread := Ring.insertBefore s.nextThread p a } else s
      s.wakeupProc a

def wakeWaiter (q : Nat) (s : Procs) : Except Panic Procs :=
  if s.waitState q = .child then s.wakeupProc q else .ok s

def wakeRing : Nat → Nat → Nat → Procs → Except Panic Procs
  | 0, _, _, _ => .error .hang
  | n + 1, start, q, s => do
    let s ← s.wakeWaiter q
    if s.nextThread q = start then .ok s else wakeRing n start (s.nextThread q) s

def handOver (p heir q : Nat) (s : Procs) : Procs := { s with cptr := update s.cptr p (s.optr q) }.pushChild heir q

def adopt : Nat → Nat → Nat → Procs → Except Panic Procs
  | 0, _, _, _ => .error .hang
  | n + 1, p, heir, s =>
    match s.cptr p with
    | none => .ok s
    | some q => do
      let s := s.handOver p heir q
      if s.state q = .zombie then
        let s ← s.wakeWaiter heir
        adopt n p heir s
      else adopt n p heir s

def doExit (p : Nat) (s : Procs) : Except Panic Procs := do
  if p < s.lcpuCount ∨ p = s.initproc then .error .initExit
  else
    match s.parent p with
    | none => .error .dangling
    | some parent =>
      let s ← { s with state := update s.state p .zombie, waitPid := update s.waitPid p none }.wakeRing s.rounds parent parent
      let heir := if s.nextThread p = p then s.initproc else s.nextThread p
      ({ s with nextThread := Ring.unlink s.nextThread p } : Procs).adopt s.rounds p heir

def doExitThread (p : Nat) (code : Int) (s : Procs) : Except Panic Procs :=
  { s with exitCode := update s.exitCode p code }.doExit p

def killProc (q : Nat) (code : Int) (s : Procs) : Except Panic Procs :=
  if s.exiting q then .ok s
  else
    let s := { s with exiting := update s.exiting q true, exitCode := update s.exitCode q code }
    if (s.waitState q).canInterrupt then s.wakeupProc q else .ok s

def killRing (code : Int) : Nat → Nat → Nat → Procs → Except Panic Procs
  | 0, _, _, _ => .error .hang
  | n + 1, start, q, s =>
    if q = start then .ok s
    else do
      let s ← s.killProc q code
      killRing code n start (s.nextThread q) s

def doKill (pid : Nat) (code : Int) (s : Procs) : Except Panic Procs :=
  match s.findProc pid with
  | some q => s.killProc q code
  | none => .ok s

/-- The loop over the children of a thread: whether there is one, and the
first zombie. -/
def scanKids (s : Procs) : Nat → Option Nat → Bool → Except Panic (Bool × Option Nat)
  | 0, _, _ => .error .hang
  | _ + 1, none, haskid => .ok (haskid, none)
  | n + 1, some q, _ => if s.state q = .zombie then .ok (true, some q) else scanKids s n (s.optr q) true

def scanRing (s : Procs) (start : Nat) : Nat → Nat → Bool → Except Panic (Bool × Option Nat)
  | 0, _, _ => .error .hang
  | n + 1, q, haskid => do
    let r ← s.scanKids s.rounds (s.cptr q) haskid
    if r.2.isSome ∨ s.nextThread q = start then .ok r else scanRing s start n (s.nextThread q) r.1

def scanPid (s : Procs) (start z : Nat) : Nat → Nat → Except Panic (Bool × Option Nat)
  | 0, _ => .error .hang
  | n + 1, q =>
    if s.parent z = some q then .ok (true, if s.state z = .zombie then some z else none)
    else if s.nextThread q = start then .ok (false, none)
    else scanPid s start z n (s.nextThread q)

def scan (s : Procs) (p pid : Nat) : Except Panic (Bool × Option Nat) :=
  if pid ≠ 0 then
    match s.findProc pid with
    | some z => s.scanPid p z s.rounds p
    | none => .ok (false, none)
  else s.scanRing p s.rounds p false

def reap (z : Nat) (s : Procs) : Except Panic Procs :=
  if z < s.lcpuCount ∨ z = s.initproc then .error .initExit
  else
    match s.parent z with
    | none => .error .dangling
    | some parent => .ok { s.removeLinks parent z with freed := s.freed ++ [s.serial z] }

/-- `do_wait` from `repeat` on. -/
def doWait (p pid : Nat) (s : Procs) : Except Panic Procs := do
  let r ← s.scan p pid
  match r.2, r.1 with
  | some z, _ => ({ s with waitPid := update s.waitPid p none } : Procs).reap z
  | none, true =>
    .ok { s with
      state := update s.state p .sleeping, waitState := update s.waitState p .child, waitPid :=
        update s.waitPid p (some pid) }
  | none, false => .ok { s with waitPid := update s.waitPid p none }

/-- `do_wait` after `schedule` returned. -/
def resume (p pid : Nat) (s : Procs) : Except Panic Procs :=
  if s.exiting p then s.doExit p else s.doWait p pid

end Procs

inductive ProcEvent
  | fork (p a : Nat) (thread : Bool)
  | exit (p : Nat) (code : Int)
  | mayKilled (p : Nat)
  /-- `do_exit` up to `do_exit_thread`. -/
  | killGroup (p : Nat) (code : Int)
  | kill (p pid : Nat) (code : Int)
  | wait (p pid : Nat)
  | resume (p : Nat)
  | exec (p : Nat)
  | sleep (p : Nat) (w : WaitState)
  | wakeup (q : Nat)
  deriving DecidableEq, Repr

namespace Procs

def step (s : Procs) : ProcEvent → Except Panic Procs
  | .fork p a thread => s.fork p a thread
  | .exit p code => s.doExitThread p code
  | .mayKilled p => if s.exiting p then s.doExit p else .ok s
  | .killGroup p code => s.killRing code s.rounds p (s.nextThread p)
  | .kill _ pid code => s.doKill pid code
  | .wait p pid => s.doWait p pid
  | .resume p =>
    match s.waitPid p with
    | some pid => s.resume p pid
    | none => .ok s
  | .exec p => .ok { s with nextThread := Ring.unlink s.nextThread p }
  | .sleep p w => .ok { s with state := update s.state p .sleeping, waitState := update s.waitState p w }
  | .wakeup q => s.wakeupProc q

def Running (s : Procs) (p : Nat) : Prop := p ∈ s.procList ∧ s.state p = .runnable ∧ s.waitPid p = none

/-- What can happen when. A new process gets memory that no process has.
`init` makes no threads. -/
def Allowed (s : Procs) : ProcEvent → Prop
  | .fork p a thread => s.Running p ∧ a ∉ s.procList ∧ s.lcpuCount ≤ a ∧ (thread = true → p ≠ s.initproc)
  | .exit p _ => s.Running p
  | .mayKilled p => s.Running p
  | .killGroup p _ => s.Running p
  | .kill p _ _ => s.Running p
  | .wait p _ => s.Running p
  | .resume p => p ∈ s.procList ∧ s.state p = .runnable
  | .exec p => s.Running p
  | .sleep p w => s.Running p ∧ w ≠ .none ∧ w ≠ .child
  | .wakeup q => q ∈ s.procList ∧ s.state q = .sleeping

def boot (n : Nat) : Procs where
  lcpuCount := n
  procList := [n]
  counter := ⟨n, maxPid⟩
  state _ := .runnable
  pid p := p
  parent p := if p = n then some 0 else none
  cptr p := if p = 0 then some n else none
  yptr _ := none
  optr _ := none
  waitState _ := .none
  exiting _ := false
  exitCode _ := 0
  nextThread := 1
  waitPid _ := none
  serial _ := 0
  born := 1
  freed := []

def Reached (n : Nat) : Procs → Prop :=
  Reachable step Allowed fun s => 0 < n ∧ n < maxProcess ∧ s = boot n

end Procs

end Ucore.Process
