import Ucore.Debug.Panic
import Ucore.Lib.Run
import Ucore.Lib.Safe
import Ucore.Sync.Queue

/-!
# Semaphores

`sem.c`, for one semaphore. A call of `__down` that must wait is cut at its
`schedule`. The kernel uses a semaphore with `up` and `down` and never frees it,
or gives it to users through `ipc_sem_post`, `ipc_sem_wait` and `ipc_sem_free`.
-/

namespace Ucore.Sync

open Function Ucore.Lib

structure Sem where
  kind : WaitState
  value : Int
  valid : Bool
  waitQueue : List Nat
  procs : Sleepers
  inside : List Nat
  timer : Nat → Bool
  ups : Nat
  downs : Nat
  /-- Whether a timer or a kill has woken a process since it went to sleep. -/
  hit : Nat → Bool
  arrival : Nat → Nat
  clock : Nat

namespace Sem

def wrap (n : Int) : Int := (n + 2147483648) % 4294967296 - 2147483648

def init (kind : WaitState) (v : Int) : Sem where
  kind := kind
  value := v
  valid := true
  waitQueue := []
  procs := ⟨fun _ => .none, fun _ => .none⟩
  inside := []
  timer _ := false
  ups := 0
  downs := 0
  hit _ := false
  arrival _ := 0
  clock := 0

def up (s : Sem) : Except Panic Sem :=
  if s.valid = false then .error .assertion
  else
    match s.waitQueue with
    | [] => .ok { s with value := wrap (s.value + 1), ups := s.ups + 1 }
    | p :: rest =>
      if s.procs.waitState p ≠ s.kind then .error .assertion
      else .ok { s with waitQueue := rest, procs := s.procs.wakeupWait s.kind p, ups := s.ups + 1 }

/-- `__down` up to `schedule`. -/
def down (p : Nat) (timed : Bool) (s : Sem) : Except Panic Sem :=
  if s.valid = false then .error .assertion
  else if 0 < s.value then .ok { s with value := s.value - 1, downs := s.downs + 1 }
  else .ok { s with
    waitQueue := s.waitQueue ++ [p]
    procs := s.procs.waitCurrentSet p s.kind
    inside := p :: s.inside
    timer := update s.timer p timed
    hit := update s.hit p false
    arrival := update s.arrival p s.clock
    clock := s.clock + 1 }

/-- `__down` after `schedule`, and the assertions of `down` and `usem_down`. -/
def resume (p : Nat) (s : Sem) : Except Panic Sem :=
  let s := { s with timer := update s.timer p false, waitQueue := s.waitQueue.erase p, inside := s.inside.erase p }
  if s.procs.wakeupFlags p = s.kind then .ok { s with downs := s.downs + 1 }
  else if s.kind = .usem ∧ s.procs.wakeupFlags p = .interrupted then .ok s
  else .error .assertion

def tryDown (s : Sem) : Sem := if 0 < s.value then { s with value := s.value - 1, downs := s.downs + 1 } else s

def kill (p : Nat) (s : Sem) : Sem :=
  { s with procs := s.procs.interrupt p, hit := update s.hit p (s.hit p || (s.procs.waitState p).canInterrupt) }

/-- `run_timer_list`, when the timer of `p` is due. -/
def expire (p : Nat) (s : Sem) : Except Panic Sem :=
  if s.procs.waitState p ≠ .none ∧ (s.procs.waitState p).canInterrupt = false then .error .assertion
  else .ok { s.kill p with timer := update s.timer p false }

def free (s : Sem) : Sem :=
    { s with valid := false, waitQueue := [], procs := s.procs.wakeupQueue .interrupted s.waitQueue }

inductive Event
  | up
  | down (p : Nat) (timed : Bool)
  | tryDown
  | resume (p : Nat)
  | kill (p : Nat)
  | expire (p : Nat)
  | free
  deriving DecidableEq, Repr

def step (s : Sem) : Event → Except Panic Sem
  | .up => s.up
  | .down p timed => s.down p timed
  | .tryDown => .ok s.tryDown
  | .resume p => s.resume p
  | .kill p => .ok (s.kill p)
  | .expire p => s.expire p
  | .free => .ok s.free

/-- `semu_list_search` finds only valid semaphores. Only `usem_down` has a
timer. -/
def Allowed (s : Sem) : Event → Prop
  | .up => s.valid = true
  | .down p timed => s.valid = true ∧ p ∉ s.inside ∧ (timed = true → s.kind = .usem)
  | .tryDown | .kill _ => True
  | .resume p => p ∈ s.inside ∧ s.procs.waitState p = .none
  | .expire p => s.timer p = true
  | .free => s.valid = true ∧ s.kind = .usem

instance (s : Sem) (e : Event) : Decidable (s.Allowed e) := by
  unfold Allowed
  split <;> infer_instance

def Reached (kind : WaitState) (v : Int) : Sem → Prop :=
  Reachable step Allowed fun s => (kind = .ksem ∨ kind = .usem) ∧ (-2147483648 ≤ v ∧ v < 2147483648) ∧ s = init kind v

def granted (s : Sem) : Nat := s.inside.countP fun p => s.procs.wakeupFlags p = s.kind

end Sem

end Ucore.Sync
