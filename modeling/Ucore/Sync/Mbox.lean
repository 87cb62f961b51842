import Ucore.Debug.Panic
import Ucore.Lib.Run
import Ucore.Lib.Safe
import Ucore.Sync.Queue

/-!
# Mailboxes

`mbox.c`, for one slot of `mbox_map`: a mailbox is opened there, used, freed, and
later opened again under the same id. A call is cut where it may sleep, in the
`schedule` of `send_msg` and `recv_msg` and at the lock of the address space in
`ipc_mbox_recv`. What a call does before it looks up the mailbox for the last
time is not shown.

The time a timer has left is not shown either. A process that sleeps twice in
one call adds its timer again, and `add_timer` asserts that some time is left.
-/

namespace Ucore.Sync

open Function Ucore.Lib

def maxMsgSlots : Nat := 0x1000

def maxMsgBytes : Nat := 0x10000

inductive MboxState
  | closed
  | opened
  | closing
  deriving DecidableEq, Repr

/-- `struct msg_msg` without its data. The model records to which mailbox the
message was sent. -/
structure Msg where
  pid : Nat
  bytes : Nat
  origin : Nat
  deriving DecidableEq, Repr

inductive MboxCall
  | send (msg : Msg)
  | recv (maxBytes : Nat)
  deriving DecidableEq, Repr

def MboxCall.isRecv : MboxCall → Bool
  | .send _ => false
  | .recv _ => true

inductive TimerState
  | none
  | set
  | expired
  deriving DecidableEq, Repr

structure Held where
  msg : Msg
  source : Nat
  deriving DecidableEq, Repr

structure Mbox where
  inuse : Nat
  state : MboxState
  maxSlots : Nat
  slots : Nat
  msgs : List Msg
  senders : List Nat
  receivers : List Nat
  procs : Sleepers
  inside : List Nat
  call : Nat → MboxCall
  timer : Nat → TimerState
  holding : Nat → Option Held
  opened : Nat
  sent : List Msg
  received : List Msg

namespace Mbox

def init : Mbox where
  inuse := 0
  state := .closed
  maxSlots := 0
  slots := 0
  msgs := []
  senders := []
  receivers := []
  procs := ⟨fun _ => .none, fun _ => .none⟩
  inside := []
  call _ := .recv 0
  timer _ := .none
  holding _ := none
  opened := 0
  sent := []
  received := []

/-- `new_mbox`, for a slot from the free list. -/
def newMbox (maxSlots : Nat) (s : Mbox) : Mbox :=
  { s with state := .opened, maxSlots := maxSlots, opened := s.opened + 1, sent := [], received := [] }

def mboxFree (s : Mbox) : Except Panic Mbox :=
  if s.state = .closing ∧ s.inuse = 0 ∧ s.msgs = [] ∧ s.senders = [] ∧ s.receivers = [] then
    .ok { s with state := .closed, maxSlots := 0, slots := 0 }
  else .error .assertion

def wakeReceiver (s : Mbox) : Mbox :=
  let r := s.procs.wakeupFirst .mboxRecv s.receivers
  { s with receivers := r.1, procs := r.2 }

def wakeSender (s : Mbox) : Mbox :=
  let r := s.procs.wakeupFirst .mboxSend s.senders
  { s with senders := r.1, procs := r.2 }

def addMsg (msg : Msg) (append : Bool) (s : Mbox) : Except Panic Mbox :=
  if s.state = .opened then
    .ok { s with slots := s.slots + 1, msgs := if append then s.msgs ++ [msg] else msg :: s.msgs }.wakeReceiver
  else .error .assertion

def pickMsg (maxBytes : Nat) (s : Mbox) : Except Panic (Option Msg × Mbox) :=
  if s.state = .opened ∧ 0 < s.slots then
    match s.msgs with
    | [] => .error .assertion
    | msg :: rest =>
      if maxBytes < msg.bytes then .ok (none, s)
      else .ok (some msg, { s with slots := s.slots - 1, msgs := rest }.wakeSender)
  else .error .assertion

/-- `wait_current_set` and `ipc_add_timer`. -/
def sleep (p : Nat) (w : WaitState) (late : Bool) (s : Mbox) : Except Panic Mbox :=
  if s.timer p ≠ .none ∧ late = true then .error .addTimer
  else .ok { s with procs := s.procs.waitCurrentSet p w, timer := if s.timer p = .none then s.timer else update s.timer p .set }

/-- The end of `send_msg` and `recv_msg`, with or without success. -/
def out (p : Nat) (success : Bool) (s : Mbox) : Except Panic Mbox :=
  let s := { s with inuse := s.inuse - 1, inside := s.inside.erase p }
  if s.state = .opened then .ok s
  else if success = true ∨ s.state ≠ .closing then .error .assertion
  else if s.inuse = 0 then s.mboxFree
  else .ok s

/-- `send_msg` from the condition of its loop on. -/
def sendLoop (p : Nat) (msg : Msg) (late : Bool) (s : Mbox) : Except Panic Mbox :=
  if s.maxSlots ≤ s.slots then
    if s.state = .opened then { s with senders := s.senders ++ [p] }.sleep p .mboxSend late else .error .assertion
  else if s.state = .opened then do
    let s ← s.addMsg msg true
    ({ s with sent := s.sent ++ [msg] } : Mbox).out p true
  else .error .assertion

/-- `recv_msg` from the condition of its loop on. -/
def recvLoop (p maxBytes : Nat) (late : Bool) (s : Mbox) : Except Panic Mbox :=
  if s.slots = 0 then
    if s.state = .opened then { s with receivers := s.receivers ++ [p] }.sleep p .mboxRecv late else .error .assertion
  else if s.state = .opened ∧ s.msgs ≠ [] then do
    let r ← s.pickMsg maxBytes
    match r.1 with
    | none => r.2.wakeReceiver.out p false
    | some msg =>
      ({ r.2 with holding := update r.2.holding p (some ⟨msg, r.2.opened⟩), received := r.2.received ++ [msg] } : Mbox).out p true
  else .error .assertion

def enter (p : Nat) (call : MboxCall) (timed : Bool) (s : Mbox) : Mbox :=
  { s with
    inuse := s.inuse + 1
    inside := p :: s.inside
    call := update s.call p call
    timer := update s.timer p (if timed then .set else .none) }

/-- `ipc_mbox_send` from the second `get_mbox` on. -/
def send (p bytes : Nat) (timed : Bool) (s : Mbox) : Except Panic Mbox :=
  if s.state = .opened then
    let msg := ⟨p, bytes, s.opened⟩
    (s.enter p (.send msg) timed).sendLoop p msg false
  else .ok s

/-- `ipc_mbox_recv` from the second `get_mbox` on. -/
def recv (p maxBytes : Nat) (timed : Bool) (s : Mbox) : Except Panic Mbox :=
  if s.state = .opened then (s.enter p (.recv maxBytes) timed).recvLoop p maxBytes false else .ok s

/-- `send_msg` or `recv_msg` after `schedule`. -/
def resume (p : Nat) (late : Bool) (s : Mbox) : Except Panic Mbox :=
  match s.call p with
  | .send msg =>
    let s := { s with senders := s.senders.erase p }
    if s.state ≠ .opened ∨ s.procs.wakeupFlags p ≠ .mboxSend then s.out p false else s.sendLoop p msg late
  | .recv maxBytes =>
    let s := { s with receivers := s.receivers.erase p }
    if s.state ≠ .opened ∨ s.procs.wakeupFlags p ≠ .mboxRecv then s.out p false else s.recvLoop p maxBytes late

def deliver (p : Nat) (s : Mbox) : Mbox := { s with holding := update s.holding p none }

/-- `ipc_mbox_recv` could not copy the message out, and puts it back if there is
a mailbox. -/
def putBack (p : Nat) (s : Mbox) : Except Panic Mbox :=
  match s.holding p with
  | some held =>
    let s := s.deliver p
    if s.state = .opened then s.addMsg held.msg false else .ok s
  | none => .ok s

def free (s : Mbox) : Except Panic Mbox :=
  if s.state = .opened then
    let procs := (s.procs.wakeupQueue .interrupted s.senders).wakeupQueue .interrupted s.receivers
    let s := { s with state := .closing, msgs := [], senders := [], receivers := [], procs := procs }
    if s.inuse = 0 then s.mboxFree else .ok s
  else .ok s

/-- `run_timer_list`, when the timer of `p` is due. -/
def expire (p : Nat) (s : Mbox) : Except Panic Mbox :=
  if s.procs.waitState p ≠ .none ∧ (s.procs.waitState p).canInterrupt = false then .error .assertion
  else .ok { s with procs := s.procs.interrupt p, timer := update s.timer p .expired }

inductive Event
  | newMbox (maxSlots : Nat)
  | send (p bytes : Nat) (timed : Bool)
  | recv (p maxBytes : Nat) (timed : Bool)
  | resume (p : Nat) (late : Bool)
  | deliver (p : Nat)
  | putBack (p : Nat)
  | free
  | kill (p : Nat)
  | expire (p : Nat)
  deriving DecidableEq, Repr

def step (s : Mbox) : Event → Except Panic Mbox
  | .newMbox maxSlots => .ok (s.newMbox maxSlots)
  | .send p bytes timed => s.send p bytes timed
  | .recv p maxBytes timed => s.recv p maxBytes timed
  | .resume p late => s.resume p late
  | .deliver p => .ok (s.deliver p)
  | .putBack p => s.putBack p
  | .free => s.free
  | .kill p => .ok { s with procs := s.procs.interrupt p }
  | .expire p => s.expire p

def Idle (s : Mbox) (p : Nat) : Prop := p ∉ s.inside ∧ s.holding p = none

/-- What can happen when. A timer that has expired has no time left, and one
that has not may have none if others expire with it. -/
def Allowed (s : Mbox) : Event → Prop
  | .newMbox maxSlots => s.state = .closed ∧ 0 < maxSlots ∧ maxSlots ≤ maxMsgSlots
  | .send p bytes _ => s.Idle p ∧ 0 < bytes ∧ bytes ≤ maxMsgBytes
  | .recv p maxBytes _ => s.Idle p ∧ 0 < maxBytes
  | .resume p late =>
    p ∈ s.inside ∧ s.procs.waitState p = .none ∧ (s.timer p = .expired → late = true) ∧
    (s.timer p = .none → late = false)
  | .deliver p | .putBack p => s.holding p ≠ none
  | .free | .kill _ => True
  | .expire p => s.timer p = .set ∧ p ∈ s.inside

instance (s : Mbox) (p : Nat) : Decidable (s.Idle p) := inferInstanceAs (Decidable (_ ∧ _))

instance (s : Mbox) (e : Event) : Decidable (s.Allowed e) := by
  unfold Allowed
  split <;> infer_instance

def Reached (guard : Mbox → Event → Prop) : Mbox → Prop := Reachable step (fun s e => s.Allowed e ∧ guard s e) (· = init)

def woken (s : Mbox) : Nat := s.inside.countP fun p => (s.call p).isRecv && decide (s.procs.wakeupFlags p = .mboxRecv)

end Mbox

end Ucore.Sync
