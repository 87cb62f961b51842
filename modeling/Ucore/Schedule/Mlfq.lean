import Mathlib.Data.Fintype.Basic
import Ucore.Schedule.Timer
import Ucore.Sync.Queue

/-!
# The run queues

`sched_MLFQ.c` over `sched_RR.c`: four queues of runnable processes. A process
that has used up its time slice goes to the next queue, one that has not goes
to the first. Processes are known by the addresses of their `proc_struct`, and
the `run_link` of a process is empty when it is in no queue.
-/

namespace Ucore.Schedule

open Function
open Sync (WaitState)

inductive ProcState
  | uninit
  | sleeping
  | runnable
  | zombie
  deriving DecidableEq, Repr

structure Task where
  state : ProcState
  pid : Nat
  waitState : WaitState
  needResched : Bool
  mm : Option Nat
  rq : Option (Fin 4)
  timeSlice : Nat
  deriving DecidableEq, Repr

structure Sched where
  cpus : Nat
  task : Nat → Option Task
  queue : Fin 4 → List Nat
  procNum : Fin 4 → Nat
  /-- `current` and `idleproc` of each processor. -/
  current : Nat → Nat
  idle : Nat → Nat
  lapic : Nat → Option Nat
  timers : TimerList
  lock : Option Nat

namespace Sched

def maxTimeSlice (q : Fin 4) : Nat := 8 * (1 <<< q.val)

/-- `run_link` is not empty. -/
def Linked (s : Sched) (p : Nat) : Prop := ∃ q, p ∈ s.queue q

instance : Decidable (Linked s p) := inferInstanceAs (Decidable (∃ _, _))

def get (s : Sched) (p : Nat) : Except Panic Task :=
  match s.task p with
  | some x => .ok x
  | none => .error .dangling

def set (s : Sched) (p : Nat) (x : Task) : Sched := { s with task := update s.task p (some x) }

def fitSlice (q : Fin 4) (slice : Nat) : Nat :=
  if slice = 0 ∨ maxTimeSlice q < slice then maxTimeSlice q else slice

def link (q : Fin 4) (p : Nat) (x : Task) (s : Sched) : Sched :=
  { s with
    task := update s.task p (some { x with timeSlice := fitSlice q x.timeSlice, rq := some q })
    queue := update s.queue q (s.queue q ++ [p])
    procNum := update s.procNum q (s.procNum q + 1) }

def unlink (q : Fin 4) (p : Nat) (s : Sched) : Sched :=
  { s with
    queue := update s.queue q ((s.queue q).erase p)
    procNum := update s.procNum q (s.procNum q - 1) }

def rrEnqueue (q : Fin 4) (p : Nat) (s : Sched) : Except Panic Sched := do
  let x ← s.get p
  if s.Linked p then .error .runLink else .ok (s.link q p x)

def rrDequeue (q : Fin 4) (p : Nat) (s : Sched) : Except Panic Sched := do
  let x ← s.get p
  if s.Linked p ∧ x.rq = some q then .ok (s.unlink q p) else .error .runLink

def rrPickNext (q : Fin 4) (s : Sched) : Option Nat := (s.queue q).head?

def lower (q : Fin 4) : Fin 4 := if h : q.val + 1 < 4 then ⟨q.val + 1, h⟩ else q

def mlfqEnqueue (p : Nat) (s : Sched) : Except Panic Sched := do
  let x ← s.get p
  if s.Linked p then .error .runLink
  else
    match x.rq with
    | some q => if x.timeSlice = 0 then s.rrEnqueue (lower q) p else s.rrEnqueue 0 p
    | none => s.rrEnqueue 0 p

def mlfqDequeue (p : Nat) (s : Sched) : Except Panic Sched := do
  let x ← s.get p
  if s.Linked p then
    match x.rq with
    | some q => s.rrDequeue q p
    | none => .error .dangling
  else .error .runLink

def mlfqPickNext (s : Sched) : Option Nat := [0, 1, 2, 3].findSome? s.rrPickNext

def waiting (s : Sched) : Nat :=
  (s.queue 0).length + (s.queue 1).length + (s.queue 2).length + (s.queue 3).length

def mlfqProcTick (p : Nat) (s : Sched) : Except Panic Sched := do
  let x ← s.get p
  let slice := x.timeSlice - 1
  .ok (s.set p { x with timeSlice := slice, needResched := if slice = 0 then true else x.needResched })

variable {s s' : Sched} {p j : Nat} {q : Fin 4} {x : Task} {want : Nat → Prop}

structure Queued (want : Nat → Prop) (s : Sched) : Prop where
  nodup : ∀ q, (s.queue q).Nodup
  one : ∀ p q q', p ∈ s.queue q → p ∈ s.queue q' → q = q'
  mem : ∀ p, s.Linked p ↔ want p
  num : ∀ q, s.procNum q = (s.queue q).length
  slice : ∀ p q, p ∈ s.queue q → ∃ x, s.task p = some x ∧ x.rq = some q ∧ 0 < x.timeSlice ∧ x.timeSlice ≤ maxTimeSlice q

def view (x : Task) : ProcState × Nat × WaitState × Option Nat := (x.state, x.pid, x.waitState, x.mm)

structure Requeued (s s' : Sched) : Prop where
  cpus : s'.cpus = s.cpus
  task : ∀ j, (s'.task j).map view = (s.task j).map view
  current : s'.current = s.current
  idle : s'.idle = s.idle
  lapic : s'.lapic = s.lapic
  timers : s'.timers = s.timers
  lock : s'.lock = s.lock

lemma Requeued.refl : Requeued s s := ⟨rfl, fun _ => rfl, rfl, rfl, rfl, rfl, rfl⟩

lemma Requeued.trans (h : Requeued s s1) (h' : Requeued s1 s') : Requeued s s' :=
  ⟨h'.cpus.trans h.cpus, fun j => (h'.task j).trans (h.task j), h'.current.trans h.current, h'.idle.trans h.idle,
    h'.lapic.trans h.lapic, h'.timers.trans h.timers, h'.lock.trans h.lock⟩

lemma get_ok (h : s.task p = some x) : s.get p = .ok x := by rw [get, h]

lemma maxTimeSlice_pos : ∀ q, 0 < maxTimeSlice q := by decide

lemma fitSlice_pos : 0 < fitSlice q n := by
  have := maxTimeSlice_pos q
  unfold fitSlice
  split <;> omega

lemma fitSlice_le : fitSlice q n ≤ maxTimeSlice q := by
  unfold fitSlice
  split <;> omega

lemma mem_link : j ∈ (s.link q p x).queue q' ↔ j ∈ s.queue q' ∨ q' = q ∧ j = p := by
  by_cases hq : q' = q
  · simp [link, hq]
  · simp [link, hq]

section

variable (h : s.Queued want)
include h

lemma Queued.congr (hw : ∀ p, want p ↔ want' p) : s.Queued want' :=
  ⟨h.nodup, h.one, fun p => (h.mem p).trans (hw p), h.num, h.slice⟩

lemma Queued.link (hp : ¬ want p) : (s.link q p x).Queued fun j => want j ∨ j = p := by
  have hnot : ∀ q', p ∉ s.queue q' := fun q' hmem => hp ((h.mem p).mp ⟨q', hmem⟩)
  refine ⟨?_, ?_, ?_, ?_, ?_⟩
  · intro q'
    by_cases hq : q' = q
    · simp only [Sched.link, hq, update_self]
      rw [← List.concat_eq_append, List.nodup_concat]
      exact ⟨hnot q, h.nodup q⟩
    · simp only [Sched.link, update_of_ne hq]
      exact h.nodup q'
  · grind [mem_link, h.one]
  · intro j
    constructor
    · rintro ⟨q', hmem⟩
      rcases mem_link.mp hmem with hmem | ⟨-, rfl⟩
      · exact .inl ((h.mem j).mp ⟨q', hmem⟩)
      · exact .inr rfl
    · rintro (hj | rfl)
      · obtain ⟨q', hmem⟩ := (h.mem j).mpr hj
        exact ⟨q', mem_link.mpr (.inl hmem)⟩
      · exact ⟨q, mem_link.mpr (.inr ⟨rfl, rfl⟩)⟩
  · intro q'
    by_cases hq : q' = q
    · simp [Sched.link, hq, h.num]
    · simp [Sched.link, hq, h.num]
  · intro j q' hmem
    by_cases hj : j = p
    · subst hj
      obtain ⟨rfl, -⟩ := (mem_link.mp hmem).resolve_left (hnot q')
      exact ⟨_, update_self .., rfl, fitSlice_pos, fitSlice_le⟩
    · obtain ⟨y, hy⟩ := h.slice j q' ((mem_link.mp hmem).resolve_right fun h => hj h.2)
      exact ⟨y, (update_of_ne hj ..).trans hy.1, hy.2⟩

omit h in
lemma Requeued.link (hx : s.task p = some x) : Requeued s (s.link q p x) := by
  refine ⟨rfl, fun j => ?_, rfl, rfl, rfl, rfl, rfl⟩
  by_cases hj : j = p
  · subst hj
    simp [Sched.link, hx, view]
  · simp [Sched.link, hj]

lemma mem_unlink (hp : p ∈ s.queue q) : j ∈ (s.unlink q p).queue q' ↔ j ∈ s.queue q' ∧ j ≠ p := by
  by_cases hq : q' = q
  · subst hq
    simp only [unlink, update_self, (h.nodup q').mem_erase_iff]
    tauto
  · simp only [unlink, update_of_ne hq, iff_self_and]
    rintro hmem rfl
    exact hq (h.one j q' q hmem hp)

lemma Queued.unlink (hp : p ∈ s.queue q) : (s.unlink q p).Queued fun j => want j ∧ j ≠ p := by
  refine ⟨?_, ?_, ?_, ?_, ?_⟩
  · intro q'
    by_cases hq : q' = q
    · simp only [Sched.unlink, hq, update_self]
      exact (h.nodup q).erase p
    · simp only [Sched.unlink, update_of_ne hq]
      exact h.nodup q'
  · grind [mem_unlink, h.one]
  · intro j
    rw [← h.mem]
    constructor
    · rintro ⟨q', hmem⟩
      obtain ⟨hmem, hne⟩ := (mem_unlink h hp).mp hmem
      exact ⟨⟨q', hmem⟩, hne⟩
    · rintro ⟨⟨q', hmem⟩, hne⟩
      exact ⟨q', (mem_unlink h hp).mpr ⟨hmem, hne⟩⟩
  · intro q'
    by_cases hq : q' = q
    · simp [Sched.unlink, hq, h.num, List.length_erase_of_mem hp]
    · simp [Sched.unlink, hq, h.num]
  · exact fun j q' hmem => h.slice j q' ((mem_unlink h hp).mp hmem).1

omit h in
lemma Requeued.unlink : Requeued s (s.unlink q p) := ⟨rfl, fun _ => rfl, rfl, rfl, rfl, rfl, rfl⟩

lemma mlfqEnqueue_ok (hx : s.task p = some x) (hp : ¬ want p) :
    ∃ s', s.mlfqEnqueue p = .ok s' ∧ s'.Queued (fun j => want j ∨ j = p) ∧ Requeued s s' := by
  have hl : ¬ s.Linked p := fun hl => hp ((h.mem p).mp hl)
  have hrr : ∀ q, s.rrEnqueue q p = .ok (s.link q p x) := by
    intro q
    rw [rrEnqueue, get_ok hx]
    exact if_neg hl
  obtain ⟨q, hq⟩ : ∃ q, s.mlfqEnqueue p = s.rrEnqueue q p := by
    rw [mlfqEnqueue, get_ok hx]
    simp only [bind, Except.bind, if_neg hl]
    split
    · split
      · exact ⟨_, rfl⟩
      · exact ⟨_, rfl⟩
    · exact ⟨_, rfl⟩
  exact ⟨s.link q p x, hq.trans (hrr q), h.link hp, .link hx⟩

lemma mlfqDequeue_ok (hp : p ∈ s.queue q) : s.mlfqDequeue p = .ok (s.unlink q p) := by
  obtain ⟨x, hx, hrq, -⟩ := h.slice p q hp
  have hl : s.Linked p := ⟨q, hp⟩
  rw [mlfqDequeue, get_ok hx]
  simp only [bind, Except.bind, if_pos hl, hrq]
  rw [rrDequeue, get_ok hx]
  exact if_pos ⟨hl, hrq⟩

end

lemma mlfqPickNext_some (h : s.mlfqPickNext = some p) : ∃ q, p ∈ s.queue q := by
  obtain ⟨q, -, hq⟩ := List.exists_of_findSome?_eq_some h
  exact ⟨q, List.mem_of_mem_head? hq⟩

end Sched

end Ucore.Schedule
