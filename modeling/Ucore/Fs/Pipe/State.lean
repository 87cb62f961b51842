import Ucore.Lib.RingBuffer
import Ucore.Lib.Run
import Ucore.Sync.Wait

/-!
# Pipes

`pipe_state.c`. The kernel is not preemptive, so a call runs until it has to
wait: for the semaphore, or in `pipe_state_wait` for bytes or for room. Calls
are numbered in the order in which they begin. Positions are counted without
bound; the 64 bits of an `off_t` last for more bytes than a pipe will see.

The records of the bytes stored and fetched and of the results are not in the
source.
-/

namespace Ucore.Fs.Pipe

open Ucore.Lib Ucore.Sync Function

/-- `PGSIZE - sizeof(struct pipe_state)`. -/
def pipeBufsize : Nat := 4096 - 96

inductive Request
  | read (n : Nat)
  | write (data : List UInt8) (ret : Nat)
  deriving DecidableEq, Repr

inductive Phase
  | locking
  | waiting (w : Wait)
  deriving DecidableEq, Repr

structure Call where
  request : Request
  phase : Phase
  deriving DecidableEq, Repr

inductive Result
  | read (n : Nat) (got : List UInt8) (interrupted : Bool)
  | write (call : Nat) (data : List UInt8) (ret : Nat)
  deriving DecidableEq, Repr

structure PipeState where
  rpos : Nat
  wpos : Nat
  buf : Nat → UInt8
  isclosed : Bool
  sem : Nat
  calls : Nat → Option Call
  begun : Nat
  stored : List (Nat × UInt8)
  fetched : List UInt8
  results : List Result

def Call.wakeup (c : Call) : Call :=
  match c.phase with
  | .waiting w => { c with phase := .waiting w.wakeup }
  | .locking => c

def Call.kill (c : Call) : Call :=
  match c.phase with
  | .waiting w => { c with phase := .waiting w.kill }
  | .locking => c

def Request.isRead : Request → Bool
  | .read _ => true
  | .write .. => false

namespace PipeState

def create : PipeState := ⟨0, 0, fun _ => 0, false, 1, fun _ => none, 0, [], [], []⟩

def isEmpty (s : PipeState) : Prop := s.rpos = s.wpos

def isFull (s : PipeState) : Prop := pipeBufsize ≤ s.wpos - s.rpos

instance : Decidable (isEmpty s) := inferInstanceAs (Decidable (_ = _))
instance : Decidable (isFull s) := inferInstanceAs (Decidable (_ ≤ _))

def lockState (s : PipeState) : PipeState := { s with sem := s.sem - 1 }

def unlockState (s : PipeState) : PipeState := { s with sem := s.sem + 1 }

def wakeupReader (s : PipeState) : PipeState :=
  { s with calls := fun k => (s.calls k).map fun c => if c.request.isRead then c.wakeup else c }

def wakeupWriter (s : PipeState) : PipeState :=
  { s with calls := fun k => (s.calls k).map fun c => if c.request.isRead then c else c.wakeup }

def block (k : Nat) (r : Request) (p : Phase) (s : PipeState) : PipeState :=
  { s with calls := update s.calls k (some ⟨r, p⟩) }

def finish (k : Nat) (r : Result) (s : PipeState) : PipeState :=
  { s with calls := update s.calls k none, results := s.results ++ [r] }

/-- The loop of `pipe_state_read`. -/
def fetch : Nat → PipeState → List UInt8 × PipeState
  | 0, s => ([], s)
  | n + 1, s =>
    if s.isEmpty then ([], s)
    else
      let b := s.buf (s.rpos % pipeBufsize)
      let r := fetch n { s with rpos := s.rpos + 1, fetched := s.fetched ++ [b] }
      (b :: r.1, r.2)

/-- The loop of `pipe_state_write` for a call, until all is stored or there is
no room: how much it stores. -/
def store (k : Nat) : List UInt8 → PipeState → Nat × PipeState
  | [], s => (0, s)
  | b :: data, s =>
    if s.isFull then (0, s)
    else
      let r := store k data { s with
        buf := update s.buf (s.wpos % pipeBufsize) b
        wpos := s.wpos + 1
        stored := s.stored ++ [(k, b)] }
      (r.1 + 1, r.2)

/-- `pipe_state_read` from `try_again`. -/
def pipeStateRead (k n : Nat) (s : PipeState) : PipeState :=
  if s.sem = 0 then s.block k (.read n) .locking
  else
    let s := s.lockState
    if s.isEmpty then
      if s.isclosed then s.unlockState.finish k (.read n [] false)
      else s.unlockState.block k (.read n) (.waiting .asleep)
    else
      let r := s.fetch n
      (if r.1 ≠ [] then r.2.wakeupWriter else r.2).unlockState.finish k (.read n r.1 false)

/-- `pipe_state_write` from `try_again`, with `ret` bytes stored. -/
def pipeStateWrite (k : Nat) (data : List UInt8) (ret : Nat) (s : PipeState) : PipeState :=
  if s.sem = 0 then s.block k (.write data ret) .locking
  else
    let s := s.lockState
    if s.isclosed then s.unlockState.finish k (.write k data ret)
    else
      let r := s.store k (data.drop ret)
      if ret + r.1 < data.length then
        r.2.wakeupReader.unlockState.block k (.write data (ret + r.1)) (.waiting .asleep)
      else
        (if r.1 ≠ 0 then r.2.wakeupReader else r.2).unlockState.finish k (.write k data (ret + r.1))

def attempt (k : Nat) (r : Request) (s : PipeState) : PipeState :=
  match r with
  | .read n => s.pipeStateRead k n
  | .write data ret => s.pipeStateWrite k data ret

def interrupt (k : Nat) (r : Request) (s : PipeState) : PipeState :=
  match r with
  | .read n => s.finish k (.read n [] true)
  | .write data ret => s.finish k (.write k data ret)

def pipeStateClose (s : PipeState) : PipeState := { s with isclosed := true }.wakeupReader.wakeupWriter

end PipeState

inductive PipeEvent
  | read (n : Nat)
  | write (data : List UInt8)
  | close
  | resume (k : Nat)
  | kill (k : Nat)
  deriving DecidableEq, Repr

namespace PipeState

def resume (k : Nat) (c : Call) (s : PipeState) : PipeState :=
  match c.phase with
  | .locking => s.attempt k c.request
  | .waiting .woken => s.attempt k c.request
  | .waiting .killed => s.interrupt k c.request
  | .waiting .asleep => s

def step (s : PipeState) : PipeEvent → Except Empty PipeState
  | .read n => .ok ({ s with begun := s.begun + 1 }.attempt s.begun (.read n))
  | .write data => .ok ({ s with begun := s.begun + 1 }.attempt s.begun (.write data 0))
  | .close => .ok s.pipeStateClose
  | .resume k => .ok <|
    match s.calls k with
    | some c => s.resume k c
    | none => s
  | .kill k => .ok { s with calls := update s.calls k ((s.calls k).map Call.kill) }

end PipeState

end Ucore.Fs.Pipe
