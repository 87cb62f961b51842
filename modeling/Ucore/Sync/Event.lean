import Ucore.Debug.Panic
import Ucore.Lib.Run
import Ucore.Sync.Queue

/-!
# Events

`event.c`: a send sleeps in the event queue of its target until the target takes
it. The value stays in the event box of the sender meanwhile. Calls are cut at
`schedule`; between two cuts the kernel is not preempted.

What `ipc_event_recv` does after `recv_event` with what it got is not shown.
-/

namespace Ucore.Sync

open Function Ucore.Lib

inductive Life
  | unused
  | alive
  | zombie
  deriving DecidableEq, Repr

inductive EventCall
  | send (target : Nat) (event : Int) (timed : Bool)
  | recv
  deriving DecidableEq, Repr

/-- What `ipc_event_send` returns: 0, `-E_INVAL`, `-E_TIMEOUT` or -1. -/
inductive SendResult
  | zero
  | inval
  | timeout
  | failed
  deriving DecidableEq, Repr

/-- A `recv_event` that returned 0: who called it and what it stored. The model
records which send it took. -/
structure Take where
  ticket : Nat
  receiver : Nat
  pid : Nat
  event : Int
  deriving DecidableEq, Repr

structure Return where
  ticket : Nat
  sender : Nat
  target : Nat
  event : Int
  result : SendResult
  deriving DecidableEq, Repr

structure Events where
  life : Nat → Life
  special : Nat → Bool
  event : Nat → Int
  queue : Nat → List Nat
  procs : Sleepers
  call : Nat → Option EventCall
  timer : Nat → Bool
  sends : Nat
  ticket : Nat → Nat
  taken : List Take
  returned : List Return

namespace Events

structure Initial (s : Events) : Prop where
  queue : ∀ p, s.queue p = []
  awake : ∀ p, s.procs.waitState p = .none
  call : ∀ p, s.call p = none
  taken : s.taken = []
  returned : s.returned = []

def wakeupProc (p : Nat) (s : Events) : Except Panic Events :=
  if s.life p = .zombie then .error .assertion else .ok { s with procs := s.procs.wakeupProc p }

/-- `wakeup_wait`, for the `wait_t` of `q`. -/
def wakeupWait (f : WaitState) (s : Events) (q : Nat) : Except Panic Events :=
  wakeupProc q { s with procs := { s.procs with wakeupFlags := update s.procs.wakeupFlags q f } }

/-- `wakeup_queue` with `del` set. -/
def wakeupQueue (f : WaitState) (p : Nat) (s : Events) : Except Panic Events :=
  (s.queue p).foldlM (wakeupWait f) { s with queue := update s.queue p [] }

def ipcCheckTimeout (timed late : Bool) : SendResult := if timed && late then .timeout else .failed

/-- `send_event` up to its `schedule`. -/
def sendEvent (p t : Nat) (event : Int) (timed : Bool) (s : Events) : Events :=
  { s with
    queue := update s.queue t (s.queue t ++ [p])
    procs := s.procs.waitCurrentSet p .eventSend
    call := update s.call p (some (.send t event timed))
    timer := update s.timer p timed }

def returns (p t : Nat) (event : Int) (result : SendResult) (s : Events) : Events :=
  { s with returned := ⟨s.ticket p, p, t, event, result⟩ :: s.returned }

def enter (p : Nat) (s : Events) : Events := { s with sends := s.sends + 1, ticket := update s.ticket p s.sends }

def wakeReceiver (t : Nat) (s : Events) : Except Panic Events :=
  if s.procs.waitState t = .eventRecv then s.wakeupProc t else .ok s

def ipcEventSend (p t : Nat) (event : Int) (timed : Bool) (s : Events) : Except Panic Events :=
  if s.life t ≠ .alive ∨ t = p ∨ s.special t = true then .ok ((s.enter p).returns p t event .inval)
  else do
    let s ← (s.enter p).wakeReceiver t
    .ok (({ s with event := update s.event p event } : Events).sendEvent p t event timed)

/-- `recv_event` after the test for an empty queue. -/
def takeFirst (p : Nat) (s : Events) : Except Panic Events :=
  match s.queue p with
  | [] => .ok s
  | q :: rest =>
    wakeupWait .eventSend
      { s with queue := update s.queue p rest, taken := ⟨s.ticket q, p, q, s.event q⟩ :: s.taken } q

def recvEvent (p : Nat) (timed : Bool) (s : Events) : Except Panic Events :=
  if s.queue p = [] then
    .ok { s with
      procs := { s.procs with waitState := update s.procs.waitState p .eventRecv }
      call := update s.call p (some .recv)
      timer := update s.timer p timed }
  else s.takeFirst p

def leave (p : Nat) (s : Events) : Events := { s with call := update s.call p none, timer := update s.timer p false }

def resume (p : Nat) (late : Bool) (s : Events) : Except Panic Events :=
  match s.call p with
  | none => .ok s
  | some .recv => (s.leave p).takeFirst p
  | some (.send t event timed) =>
    let s := { s.leave p with queue := update s.queue t ((s.queue t).erase p) }
    if s.procs.wakeupFlags p = .eventSend then .ok (s.returns p t event .zero)
    else if s.procs.wakeupFlags p = .interrupted then .ok (s.returns p t event (ipcCheckTimeout timed late))
    else .error .assertion

/-- `__do_exit` from where the process becomes a zombie. -/
def exit (p : Nat) (s : Events) : Except Panic Events :=
  wakeupQueue .interrupted p { s with life := update s.life p .zombie }

def fork (p : Nat) (s : Events) : Events := { s with life := update s.life p .alive, queue := update s.queue p [] }

end Events

inductive EventsEvent
  | send (p t : Nat) (event : Int) (timed : Bool)
  | recv (p : Nat) (timed : Bool)
  | resume (p : Nat) (late : Bool)
  | kill (p : Nat)
  | expire (p : Nat)
  | exit (p : Nat)
  | reap (p : Nat)
  | fork (p : Nat)
  deriving DecidableEq, Repr

namespace Events

def step (s : Events) : EventsEvent → Except Panic Events
  | .send p t event timed => s.ipcEventSend p t event timed
  | .recv p timed => s.recvEvent p timed
  | .resume p late => s.resume p late
  | .kill p => .ok { s with procs := s.procs.interrupt p }
  | .expire p => .ok { s with procs := s.procs.interrupt p, timer := update s.timer p false }
  | .exit p => s.exit p
  | .reap p => .ok { s with life := update s.life p .unused }
  | .fork p => .ok (s.fork p)

def Idle (s : Events) (p : Nat) : Prop := s.life p = .alive ∧ s.call p = none

def Allowed (s : Events) : EventsEvent → Prop
  | .send p _ _ _ | .recv p _ | .exit p => s.Idle p
  | .resume p _ => s.call p ≠ none ∧ s.procs.waitState p = .none
  | .kill p => s.life p = .alive
  | .expire p => s.timer p = true
  | .reap p => s.life p = .zombie
  | .fork p => s.life p = .unused

def Reached : Events → Prop := Reachable step Allowed Initial

end Events

end Ucore.Sync
