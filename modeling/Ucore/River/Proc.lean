import Ucore.Lib.Circle
import Ucore.Lib.Run

/-!
# Processes of one CPU

`proc_schedule`, `proc_yield`, `proc_wait_try` and `proc_notify`, with the run queue
as the nodes link it. A step is one store of `proc_schedule`, `sched_attach` or
`sched_detach`; interrupts come between two steps wherever the flag is set.

`local_irq_save` keeps off the handlers of devices, not an interrupt from another
CPU. What is left of a call that has not returned is on the stack of its process,
and a switch exchanges stacks together with the flag.
-/

namespace Ucore.River

open Lib (Circle Reachable Walk)
open Function

inductive ProcStatus
  | uninit
  | runnableWeak
  | runnableStrong
  | wait
  | zombie
  deriving DecidableEq, Repr

def ProcStatus.runnable (x : ProcStatus) : Bool := x = .runnableWeak || x = .runnableStrong

def procTimeSliceDefault : Nat := 50

def idle : Nat := 0

/-- Where `proc_schedule` is between `local_irq_save` and `local_irq_restore`. -/
inductive SchedPc
  | test
  | attachNext
  | attachPrev
  | attachBack
  | attachForth
  | pick
  | detachBack (p : Nat)
  | detachForth (p : Nat)
  | slice (p : Nat)
  | setCurrent (p : Nat)
  | switch (old p : Nat)
  deriving DecidableEq, Repr

/-- A call that has not returned. `handlers` and `lower` are the rest of
`local_irq_restore`, or of the trap: `irq_process`, then `proc_schedule`, then the
level. They hold the flag that is restored at the end. -/
inductive Frame
  /-- Before `local_irq_save` of `proc_schedule`. -/
  | enter
  | sched (pc : SchedPc)
  | restore
  | handlers (flag : Bool)
  | lower (flag : Bool)
  deriving DecidableEq, Repr

/-- The node of a process is `some`, the head of the queue `none`. -/
structure Cpu where
  current : Nat
  stack : List Frame
  intr : Bool
  irqMask : Bool
  /-- `kern_ctx`; `none` starts at the entry of the process. -/
  kernCtx : Nat → Option (List Frame × Bool)
  status : Nat → ProcStatus
  timeSlice : Nat → Nat
  irqSaveLevel : Nat → Nat
  next : Option Nat → Option Nat
  prev : Option Nat → Option Nat

inductive CpuEvent
  | eprocOpen (p : Nat)
  | procWaitTry
  | procYield
  /-- `proc_notify` by the running process or by the handler of a device. -/
  | procNotify (p : Nat)
  /-- `T_IPI` or `T_IPI_DOS`, whose event belongs to `p`. -/
  | ipi (p : Nat)
  | irq
  | tick (n : Nat)
  | step
  deriving DecidableEq, Repr

namespace Cpu

def setLevel (s : Cpu) (f : Nat → Nat) : Cpu :=
  { s with irqSaveLevel := update s.irqSaveLevel s.current (f (s.irqSaveLevel s.current)) }

def setStatus (s : Cpu) (p : Nat) (x : ProcStatus) : Cpu := { s with status := update s.status p x }

def attachNext (s : Cpu) (p : Nat) : Cpu := { s with next := update s.next (some p) none }
def attachPrev (s : Cpu) (p : Nat) : Cpu := { s with prev := update s.prev (some p) (s.prev (s.next (some p))) }
def attachBack (s : Cpu) (p : Nat) : Cpu := { s with prev := update s.prev (s.next (some p)) (some p) }
def attachForth (s : Cpu) (p : Nat) : Cpu := { s with next := update s.next (s.prev (some p)) (some p) }

def schedAttach (s : Cpu) (p : Nat) : Cpu := (((s.attachNext p).attachPrev p).attachBack p).attachForth p

def detachBack (s : Cpu) (p : Nat) : Cpu := { s with prev := update s.prev (s.next (some p)) (s.prev (some p)) }
def detachForth (s : Cpu) (p : Nat) : Cpu := { s with next := update s.next (s.prev (some p)) (s.next (some p)) }

/-- `sched_pick`: the node behind the head, which is the head when nobody waits. -/
def schedPick (s : Cpu) : Option Nat := s.next none

/-- `eproc_open`, as far as the scheduler sees it. -/
def eprocOpen (s : Cpu) (p : Nat) : Cpu :=
  { s with
    kernCtx := update s.kernCtx p none
    irqSaveLevel := update s.irqSaveLevel p 0
    next := update s.next (some p) (some p)
    prev := update s.prev (some p) (some p)
    timeSlice := update s.timeSlice p procTimeSliceDefault
    status := update s.status p .wait }

/-- `proc_wait_try` up to its `proc_schedule`. -/
def procWaitTry (s : Cpu) : Cpu :=
  match s.status s.current with
  | .runnableWeak => { s.setStatus s.current .wait with stack := .enter :: s.stack }
  | .runnableStrong => s.setStatus s.current .runnableWeak
  | _ => s

def procYield (s : Cpu) : Cpu :=
  { s with timeSlice := update s.timeSlice s.current 0, stack := .enter :: s.stack }

def procNotify (s : Cpu) (p : Nat) : Cpu :=
  match s.status p with
  | .runnableWeak => s.setStatus p .runnableStrong
  | .wait => (s.setStatus p .runnableWeak).schedAttach p
  | _ => s

/-- `irq_process` at level 0. -/
def irqProcess (s : Cpu) : Cpu :=
  { s.setLevel (· + 1) with stack := .handlers s.intr :: s.stack, intr := true }

/-- `trap_dispatch` for a device. -/
def irq (s : Cpu) : Cpu :=
  if s.irqSaveLevel s.current = 0 then { s with irqMask := true }.irqProcess else { s with irqMask := true }

/-- `trap_dispatch` for another CPU, whose `event_activate` ends with a
`local_irq_restore` of its own. -/
def ipi (s : Cpu) (p : Nat) : Cpu :=
  let s := s.procNotify p
  if s.irqSaveLevel s.current = 0 ∧ s.irqMask = true then s.irqProcess else s

def tick (s : Cpu) (n : Nat) : Cpu :=
  { s with timeSlice := update s.timeSlice s.current (s.timeSlice s.current - n) }

def schedule (s : Cpu) (rest : List Frame) : SchedPc → Cpu
  | .test =>
    let runnable := (s.status s.current).runnable
    if s.timeSlice s.current = 0 ∨ runnable = false then
      if s.current ≠ idle ∧ runnable = true then { s with stack := .sched .attachNext :: rest }
      else { s with stack := .sched .pick :: rest }
    else { s with stack := .restore :: rest }
  | .attachNext => { s.attachNext s.current with stack := .sched .attachPrev :: rest }
  | .attachPrev => { s.attachPrev s.current with stack := .sched .attachBack :: rest }
  | .attachBack => { s.attachBack s.current with stack := .sched .attachForth :: rest }
  | .attachForth => { s.attachForth s.current with stack := .sched .pick :: rest }
  | .pick =>
    match s.schedPick with
    | some p => { s with stack := .sched (.detachBack p) :: rest }
    | none => { s with stack := .sched (.slice idle) :: rest }
  | .detachBack p => { s.detachBack p with stack := .sched (.detachForth p) :: rest }
  | .detachForth p => { s.detachForth p with stack := .sched (.slice p) :: rest }
  | .slice p =>
    let s := { s with timeSlice := update s.timeSlice p procTimeSliceDefault }
    if p ≠ s.current then { s with stack := .sched (.setCurrent p) :: rest } else { s with stack := .restore :: rest }
  | .setCurrent p => { s with current := p, stack := .sched (.switch s.current p) :: rest }
  | .switch old p =>
    let s' := { s with kernCtx := update s.kernCtx old (some (.restore :: rest, s.intr)) }
    match s.kernCtx p with
    | none => { s' with stack := [] }
    | some (stack, flag) => { s' with stack := stack, intr := flag }

def advance (s : Cpu) : Cpu :=
  match s.stack with
  | [] => s
  | .enter :: rest => { s.setLevel (· + 1) with stack := .sched .test :: rest }
  | .sched pc :: rest => s.schedule rest pc
  | .restore :: rest =>
    if s.irqSaveLevel s.current = 1 ∧ s.irqMask = true then { s with stack := .handlers s.intr :: rest, intr := true }
    else { s.setLevel (· - 1) with stack := rest }
  | .handlers flag :: rest =>
    if s.irqMask then { s with irqMask := false }
    else { s with intr := false, stack := .enter :: .lower flag :: rest }
  | .lower flag :: rest => { s.setLevel (· - 1) with intr := flag, stack := rest }

def inHandler : List Frame → Bool
  | .handlers _ :: _ => true
  | _ => false

def inSched : List Frame → Bool
  | .sched _ :: _ => true
  | _ => false

/-- A process calls what it likes between two calls. Nobody notifies the idle
process, and it does not wait. -/
def Allowed (s : Cpu) : CpuEvent → Prop
  | .eprocOpen p => s.stack = [] ∧ p ≠ idle ∧ s.status p = .uninit
  | .procWaitTry => s.stack = [] ∧ s.current ≠ idle
  | .procYield => s.stack = []
  | .procNotify p => p ≠ idle ∧ (s.stack = [] ∨ inHandler s.stack = true)
  | .ipi p => p ≠ idle ∧ s.intr = true
  | .irq => s.intr = true
  | .tick _ => inHandler s.stack = true
  | .step => True

instance (s e) : Decidable (Allowed s e) := by
  unfold Allowed
  split <;> infer_instance

def step (s : Cpu) : CpuEvent → Except Empty Cpu
  | .eprocOpen p => .ok (s.eprocOpen p)
  | .procWaitTry => .ok s.procWaitTry
  | .procYield => .ok s.procYield
  | .procNotify p => .ok (s.procNotify p)
  | .ipi p => .ok (s.ipi p)
  | .irq => .ok s.irq
  | .tick n => .ok (s.tick n)
  | .step => .ok s.advance

def start : Cpu where
  current := idle
  stack := []
  intr := true
  irqMask := false
  kernCtx := fun _ => none
  status := update (fun _ => .uninit) idle .runnableWeak
  timeSlice := fun _ => procTimeSliceDefault
  irqSaveLevel := fun _ => 0
  next := id
  prev := id

-- Who is in the queue

/-- The queue holds `q`. Outside `proc_schedule` the current process is not in it,
and everyone else who is not in it waits or has not been opened. -/
structure Sound (s : Cpu) (q : List Nat) : Prop where
  queue : Walk s.next none (q.map some) none
  nodup : q.Nodup
  current : inSched s.stack = false → s.current ∉ q
  waiting : inSched s.stack = false → ∀ p, p ≠ idle → p ≠ s.current → p ∉ q → s.status p = .wait ∨ s.status p = .uninit

/-- Nobody is notified during `proc_schedule`, and the current process not while
it goes to sleep; a device does not interrupt the switch to a process that has
not run yet, whose level is 0. -/
def Calm (s : Cpu) : CpuEvent → Prop
  | .procNotify p | .ipi p => inSched s.stack = false ∧ ¬ (p = s.current ∧ s.status p = .wait)
  | .irq => inSched s.stack = false ∨ s.irqSaveLevel s.current ≠ 0
  | _ => True

variable {s s' : Cpu} {e : CpuEvent} {q : List Nat} {p c : Nat} {nx pv : Option Nat → Option Nat} {st : Nat → ProcStatus}

section Queue

variable (next prev : Option Nat → Option Nat) (st : Nat → ProcStatus) (c : Nat) (q : List Nat)

structure Listed (x : List Nat) : Prop where
  nodup : q.Nodup
  queued : ∀ p ∈ q, p ≠ idle ∧ (st p).runnable = true
  others : ∀ p, p ≠ idle → p ∉ q → p ∉ x → st p = .wait ∨ st p = .uninit

def Yields : Prop := c ∈ q ∨ c = idle ∨ st c = .wait

structure Outside : Prop where
  circle : Circle next prev none (q.map some)
  listed : Listed st q [c]
  absent : c ∉ q
  alive : (st c).runnable = true ∨ c ≠ idle ∧ st c = .wait

structure Attaching : Prop where
  listed : Listed st q [c]
  absent : c ∉ q
  notIdle : c ≠ idle
  runnable : (st c).runnable = true

structure Picked (p : Nat) : Prop where
  circle : Circle next prev none (q.map some)
  listed : Listed st q [c, p]
  picked : p ∉ q
  ready : (st p).runnable = true
  yields : c = p ∨ Yields st c q

end Queue

def SchedOk (s : Cpu) (q : List Nat) : SchedPc → Prop
  | .test => Outside s.next s.prev s.status s.current q
  | .attachNext => Circle s.next s.prev none (q.map some) ∧ Attaching s.status s.current q
  | .attachPrev => Circle s.next s.prev none (q.map some) ∧ Attaching s.status s.current q ∧
    s.next (some s.current) = none
  | .attachBack =>
    Circle s.next s.prev none (q.map some) ∧ Attaching s.status s.current q ∧ s.next (some s.current) = none ∧
      s.prev (some s.current) = s.prev none
  | .attachForth =>
    Walk s.next none (q.map some) none ∧ Attaching s.status s.current q ∧ s.next (some s.current) = none ∧
      Walk s.prev none (q.map some ++ [some s.current]).reverse none
  | .pick => Circle s.next s.prev none (q.map some) ∧ Listed s.status q [s.current] ∧ Yields s.status s.current q
  | .detachBack p =>
    Circle s.next s.prev none (q.map some) ∧ Listed s.status q [s.current] ∧
    Yields s.status s.current q ∧ q.head? = some p
  | .detachForth p =>
    Walk s.next none (q.map some) none ∧ Listed s.status q [s.current] ∧ Yields s.status s.current q ∧
      q.head? = some p ∧ Walk s.prev none (q.tail.map some).reverse none ∧ s.prev (some p) = none
  | .slice p => Picked s.next s.prev s.status s.current q p
  | .setCurrent p => Picked s.next s.prev s.status s.current q p ∧ p ≠ s.current
  | .switch _ p => s.current = p ∧ Outside s.next s.prev s.status s.current q ∧ (s.status s.current).runnable = true

def FrameOk (s : Cpu) (q : List Nat) : List Frame → Prop
  | .sched pc :: _ => s.SchedOk q pc
  | .enter :: _ | .handlers _ :: _ => Outside s.next s.prev s.status s.current q
  -- a process that has come back from `proc_schedule` does not wait
  | _ => Outside s.next s.prev s.status s.current q ∧ (s.status s.current).runnable = true

def Plain (l : List Frame) : Prop := ∀ f ∈ l, ∀ pc, f ≠ .sched pc

structure Inv (s : Cpu) : Prop where
  idle : s.status idle = .runnableWeak
  stack : Plain s.stack.tail
  saved : ∀ p l flag, s.kernCtx p = some (l, flag) → ∃ rest, l = .restore :: rest ∧ Plain rest
  queue : ∃ q, s.FrameOk q s.stack

lemma Inv.of_start : start.Inv := by
  have hst : ∀ p, p ≠ River.idle → start.status p = .uninit := by
    intro p hp
    exact update_of_ne hp _ fun _ => ProcStatus.uninit
  refine ⟨rfl, by simp [Plain, start], by simp [start], [], ⟨.nil rfl rfl, ?_, ?_, .inl rfl⟩, rfl⟩
  · exact ⟨List.nodup_nil, by simp, fun p hp _ _ => .inr (hst p hp)⟩
  · exact List.not_mem_nil

-- The steps of `proc_schedule`

lemma not_mem_nodes (h : p ∉ q) : some p ∉ none :: q.map some := by
  simpa using h

lemma Attaching.fresh (h : Attaching st c q) : some c ∉ none :: q.map some := not_mem_nodes h.absent

lemma Attaching.attached (h : Attaching st c q) : Listed st (q ++ [c]) [c] ∧ Yields st c (q ++ [c]) := by
  refine ⟨⟨?_, ?_, ?_⟩, .inl (by simp)⟩
  · exact List.nodup_append'.mpr ⟨h.listed.nodup, List.nodup_singleton c, by simpa using h.absent⟩
  · grind [h.listed.queued, h.notIdle, h.runnable]
  · grind [h.listed.others]

lemma Listed.nodup_nodes (h : Listed st q x) : (none :: q.map some).Nodup := by
  rw [List.nodup_cons]
  exact ⟨by simp, h.nodup.map fun _ _ => Option.some.inj⟩

lemma Listed.picked (h : Listed st (p :: q) [c]) (hy : Yields st c (p :: q)) (hc : Circle nx pv none (q.map some)) :
    Picked nx pv st c q p := by
  have hp := h.queued p (.head _)
  obtain ⟨hnp, hnd⟩ := List.nodup_cons.mp h.nodup
  refine ⟨hc, ⟨hnd, fun p' hp' => h.queued p' (.tail p hp'), ?_⟩, hnp, hp.2, ?_⟩
  · grind [h.others]
  · obtain hy | hy := hy
    · exact (List.mem_cons.mp hy).imp id .inl
    · exact .inr (.inr hy)

lemma Listed.picked_idle (h : Listed st [] [c]) (hy : Yields st c []) (hi : st idle = .runnableWeak)
    (hc : Circle nx pv none []) : Picked nx pv st c [] idle := by
  refine ⟨hc, ⟨h.nodup, h.queued, ?_⟩, List.not_mem_nil, by simp [hi, ProcStatus.runnable], .inr hy⟩
  grind [h.others]

lemma Picked.outside (h : Picked nx pv st c q p) (hne : p ≠ c) : Outside nx pv st p q := by
  refine ⟨h.circle, ⟨h.listed.nodup, h.listed.queued, ?_⟩, h.picked, .inl h.ready⟩
  intro p' hi hq hx
  by_cases hc : p' = c
  · subst hc
    obtain heq | hy | hy | hy := h.yields
    · exact (hne heq.symm).elim
    · exact (hq hy).elim
    · exact (hi hy).elim
    · exact .inl hy
  · exact h.listed.others p' hi hq (by simpa [hc] using hx)

lemma Picked.same (h : Picked nx pv st c q c) : Outside nx pv st c q :=
  ⟨h.circle, ⟨h.listed.nodup, h.listed.queued, fun p hi hq hx => h.listed.others p hi hq (by simpa using hx)⟩,
    h.picked, .inl h.ready⟩

lemma schedule_ok (hidle : s.status idle = .runnableWeak) (h : s.SchedOk q pc) (hsw : ∀ old p, pc ≠ .switch old p) :
    ∃ q', (s.schedule rest pc).FrameOk q' (s.schedule rest pc).stack := by
  cases pc with
  | test =>
    rw [schedule]
    split
    next ht =>
      split
      next hrun => exact ⟨q, h.circle, h.listed, h.absent, hrun.1, hrun.2⟩
      next hrun =>
        refine ⟨q, h.circle, h.listed, ?_⟩
        obtain hr | ⟨-, hw⟩ := h.alive
        · exact .inr (.inl (by simpa [hr] using hrun))
        · exact .inr (.inr hw)
    next ht =>
      rw [not_or] at ht
      exact ⟨q, h, by simpa using ht.2⟩
  | attachNext =>
    obtain ⟨hc, ha⟩ := h
    refine ⟨q, ?_, ha, update_self ..⟩
    have := hc.update (x := none) (y := s.prev (some s.current)) ha.fresh
    rwa [Function.update_eq_self] at this
  | attachPrev =>
    obtain ⟨hc, ha, hn⟩ := h
    refine ⟨q, ?_, ha, hn, ?_⟩
    · have := hc.update (x := s.next (some s.current)) (y := s.prev (s.next (some s.current))) ha.fresh
      rwa [Function.update_eq_self] at this
    · change update s.prev (some s.current) (s.prev (s.next (some s.current))) (some s.current) =
        update s.prev (some s.current) (s.prev (s.next (some s.current))) none
      rw [update_self, update_of_ne (Option.some_ne_none _).symm, hn]
  | attachBack =>
    obtain ⟨hc, ha, hn, hp⟩ := h
    refine ⟨q, hc.forth, ha, hn, ?_⟩
    change Walk (update s.prev (s.next (some s.current)) (some s.current)) none _ none
    rw [hn]
    exact hc.attach_back ha.fresh hp
  | attachForth =>
    obtain ⟨hf, ha, hn, hb⟩ := h
    obtain ⟨hl, hy⟩ := ha.attached
    refine ⟨q ++ [s.current], ?_, hl, hy⟩
    have hnd := hl.nodup_nodes
    rw [List.map_append, List.map_singleton] at hnd ⊢
    exact Circle.attach_forth hf hb hnd hn
  | pick =>
    obtain ⟨hc, hl, hy⟩ := h
    have hpick := hc.forth.eq_head
    rw [schedule, schedPick, hpick]
    cases q with
    | nil => exact ⟨[], hl.picked_idle hy hidle hc⟩
    | cons p q => exact ⟨p :: q, hc, hl, hy, rfl⟩
  | detachBack p =>
    obtain ⟨hc, hl, hy, hp⟩ := h
    obtain ⟨q, rfl⟩ := List.head?_eq_some_iff.mp hp
    obtain ⟨hb, hpv⟩ := hc.detach_back
    exact ⟨p :: q, hc.forth, hl, hy, rfl, hb, hpv⟩
  | detachForth p =>
    obtain ⟨hf, hl, hy, hp, hb, hpv⟩ := h
    obtain ⟨q, rfl⟩ := List.head?_eq_some_iff.mp hp
    exact ⟨q, hl.picked hy (Circle.detach_forth hf hb hl.nodup_nodes hpv)⟩
  | slice p =>
    rw [schedule]
    dsimp only
    split
    next hne => exact ⟨q, h, hne⟩
    next heq =>
      obtain rfl : p = s.current := not_not.mp heq
      exact ⟨q, h.same, h.ready⟩
  | setCurrent p =>
    obtain ⟨h, hne⟩ := h
    exact ⟨q, rfl, h.outside hne, h.ready⟩
  | switch old p => exact (hsw old p rfl).elim

lemma schedule_frame (hsw : ∀ old p, pc ≠ .switch old p) :
    (s.schedule rest pc).kernCtx = s.kernCtx ∧ (s.schedule rest pc).status = s.status ∧
      (s.schedule rest pc).stack.tail = rest := by
  cases pc with
  | test => grind [schedule]
  | pick =>
    rw [schedule]
    split <;> exact ⟨rfl, rfl, rfl⟩
  | slice p =>
    rw [schedule]
    dsimp only
    split <;> exact ⟨rfl, rfl, rfl⟩
  | switch old p => exact (hsw old p rfl).elim
  | _ => exact ⟨rfl, rfl, rfl⟩

lemma Inv.switch (h : s.Inv) (hs : s.stack = .sched (.switch old p) :: rest) :
    (s.schedule rest (.switch old p)).Inv := by
  obtain ⟨q, hq⟩ := h.queue
  rw [hs] at hq
  obtain ⟨-, hout, hrun⟩ := hq
  have hrest : Plain rest := by
    have := h.stack
    rwa [hs] at this
  have hsaved : ∀ p' l flag, update s.kernCtx old (some (.restore :: rest, s.intr)) p' = some (l, flag) →
      ∃ rest, l = .restore :: rest ∧ Plain rest := by
    intro p' l flag hp
    rw [update_apply] at hp
    split at hp
    · cases hp
      exact ⟨rest, rfl, hrest⟩
    · exact h.saved p' l flag hp
  rw [schedule]
  dsimp only
  split
  next => exact ⟨h.idle, by simp [Plain], hsaved, q, hout, hrun⟩
  next l flag hp =>
    obtain ⟨rest', rfl, hplain⟩ := h.saved p l flag hp
    exact ⟨h.idle, hplain, hsaved, q, hout, hrun⟩

lemma Inv.schedule (h : s.Inv) (hs : s.stack = .sched pc :: rest) : (s.schedule rest pc).Inv := by
  by_cases hsw : ∃ old p, pc = .switch old p
  · obtain ⟨old, p, rfl⟩ := hsw
    exact h.switch hs
  have hsw : ∀ old p, pc ≠ .switch old p := fun old p heq => hsw ⟨old, p, heq⟩
  obtain ⟨q, hq⟩ := h.queue
  rw [hs] at hq
  obtain ⟨hctx, hst, htail⟩ : (s.schedule rest pc).kernCtx = s.kernCtx ∧ (s.schedule rest pc).status = s.status ∧
      (s.schedule rest pc).stack.tail = rest := schedule_frame hsw
  refine ⟨?_, ?_, ?_, schedule_ok h.idle hq hsw⟩
  · rw [hst]
    exact h.idle
  · rw [htail]
    have := h.stack
    rwa [hs] at this
  · rw [hctx]
    exact h.saved

lemma FrameOk.outside (h : s.FrameOk q l) (hs : inSched l = false) : Outside s.next s.prev s.status s.current q := by
  match l with
  | [] | .restore :: _ | .lower _ :: _ => exact h.1
  | .enter :: _ | .handlers _ :: _ => exact h
  | .sched _ :: _ => simp [inSched] at hs

def returned : List Frame → Bool
  | [] | .restore :: _ | .lower _ :: _ => true
  | _ => false

lemma FrameOk.of_outside (h : Outside s.next s.prev s.status s.current q) (hs : inSched l = false)
    (hr : returned l = true → (s.status s.current).runnable = true) : s.FrameOk q l := by
  match l with
  | [] | .restore :: _ | .lower _ :: _ => exact ⟨h, hr rfl⟩
  | .enter :: _ | .handlers _ :: _ => exact h
  | .sched _ :: _ => simp [inSched] at hs

lemma FrameOk.runnable (h : s.FrameOk q l) (hl : returned l = true) : (s.status s.current).runnable = true := by
  match l with
  | [] | .restore :: _ | .lower _ :: _ => exact h.2
  | .enter :: _ | .handlers _ :: _ | .sched _ :: _ => simp [returned] at hl

lemma Plain.inSched (h : Plain l) : inSched l = false := by
  match l with
  | [] | .restore :: _ | .lower _ :: _ | .enter :: _ | .handlers _ :: _ => rfl
  | .sched pc :: _ => exact (h _ (.head _) pc rfl).elim

lemma inSched_of_inHandler (h : inHandler l = true) : inSched l = false := by
  match l with
  | .handlers _ :: _ => rfl
  | [] | .restore :: _ | .lower _ :: _ | .enter :: _ | .sched _ :: _ => simp [inHandler] at h

lemma Plain.cons (h : Plain l) (hf : ∀ pc, f ≠ .sched pc) : Plain (f :: l) := by
  simpa [Plain] using ⟨hf, h⟩

lemma Plain.tail (h : Plain l) : Plain l.tail := fun f hf => h f (List.mem_of_mem_tail hf)

lemma Inv.advance (h : s.Inv) : s.advance.Inv := by
  obtain ⟨q, hq⟩ := h.queue
  have htail := h.stack
  rw [Cpu.advance]
  match hs : s.stack with
  | [] => exact h
  | .enter :: rest =>
    rw [hs] at hq htail
    exact ⟨h.idle, htail, h.saved, q, hq⟩
  | .sched pc :: rest => exact h.schedule hs
  | .restore :: rest =>
    rw [hs] at hq htail
    dsimp only
    split
    · exact ⟨h.idle, htail, h.saved, q, hq.1⟩
    · exact ⟨h.idle, htail.tail, h.saved, q, FrameOk.of_outside hq.1 htail.inSched fun _ => hq.2⟩
  | .handlers flag :: rest =>
    rw [hs] at hq htail
    dsimp only
    split
    · exact ⟨h.idle, hs ▸ htail, h.saved, q, hs ▸ hq⟩
    · exact ⟨h.idle, htail.cons (by simp), h.saved, q, hq⟩
  | .lower flag :: rest =>
    rw [hs] at hq htail
    exact ⟨h.idle, htail.tail, h.saved, q, FrameOk.of_outside hq.1 htail.inSched fun _ => hq.2⟩

-- The other steps

lemma Outside.restatus (h : Outside nx pv st c q) (hq : ∀ p ∈ q, (st' p).runnable = true)
    (ho : ∀ p, p ≠ c → p ∉ q → st' p = st p)
    (hc : (st' c).runnable = true ∨ c ≠ idle ∧ st' c = .wait) : Outside nx pv st' c q := by
  refine ⟨h.circle, ⟨h.listed.nodup, fun p hp => ⟨(h.listed.queued p hp).1, hq p hp⟩, ?_⟩, h.absent, hc⟩
  grind [h.listed.others]

lemma Outside.own (h : Outside nx pv st c q) (hx : x.runnable = true ∨ c ≠ idle ∧ x = .wait) :
    Outside nx pv (update st c x) c q := by
  refine h.restatus ?_ ?_ (by simpa using hx)
  · grind [h.absent, h.listed.queued]
  · exact fun p hp _ => update_of_ne hp ..

lemma Outside.strong (h : Outside nx pv st c q) (hi : p ≠ idle) (hp : st p = .runnableWeak) :
    Outside nx pv (update st p .runnableStrong) c q := by
  by_cases hc : p = c
  · subst hc
    exact h.own (.inl rfl)
  refine h.restatus ?_ ?_ ?_
  · grind [h.listed.queued, ProcStatus.runnable]
  · grind [h.listed.others]
  · rw [update_of_ne (Ne.symm hc)]
    exact h.alive

lemma attach_circle (h : Circle s.next s.prev none (q.map some)) (hp : p ∉ q) (hnd : q.Nodup) :
    Circle (s.schedAttach p).next (s.schedAttach p).prev none ((q ++ [p]).map some) := by
  have hfresh := not_mem_nodes hp
  have hne : (none : Option Nat) ≠ some p := (Option.some_ne_none p).symm
  have h1 : Circle (s.attachNext p).next ((s.attachNext p).attachPrev p).prev none (q.map some) := h.update hfresh
  have hn : (s.attachNext p).next (some p) = none := update_self ..
  have hpv : ((s.attachNext p).attachPrev p).prev (some p) = ((s.attachNext p).attachPrev p).prev none := by
    change update s.prev (some p) (s.prev ((s.attachNext p).next (some p))) (some p) =
      update s.prev (some p) (s.prev ((s.attachNext p).next (some p))) none
    rw [update_self, update_of_ne hne, hn]
  have hb : Walk (((s.attachNext p).attachPrev p).attachBack p).prev none (q.map some ++ [some p]).reverse none := by
    have := h1.attach_back hfresh hpv
    change Walk (update _ ((s.attachNext p).next (some p)) _) none _ none
    rwa [hn]
  rw [List.map_append, List.map_singleton]
  refine Circle.attach_forth h1.forth hb ?_ hn
  rw [← List.map_singleton, ← List.map_append, List.nodup_cons]
  refine ⟨by simp, List.Nodup.map (fun _ _ => Option.some.inj) ?_⟩
  exact List.nodup_append'.mpr ⟨hnd, List.nodup_singleton p, by simpa using hp⟩

lemma Outside.woken (h : Outside s.next s.prev s.status s.current q) (hi : p ≠ idle) (hp : s.status p = .wait)
    (hc : p ≠ s.current) :
    Outside (s.schedAttach p).next (s.schedAttach p).prev (update s.status p .runnableWeak) s.current (q ++ [p]) := by
  have hq : p ∉ q := by
    intro hq
    have := (h.listed.queued p hq).2
    simp [hp, ProcStatus.runnable] at this
  refine ⟨attach_circle h.circle hq h.listed.nodup, ⟨?_, ?_, ?_⟩, ?_, ?_⟩
  · exact List.nodup_append'.mpr ⟨h.listed.nodup, List.nodup_singleton p, by simpa using hq⟩
  · grind [ProcStatus.runnable, h.listed.queued]
  · grind [h.listed.others]
  · grind [h.absent]
  · rw [update_of_ne (Ne.symm hc)]
    exact h.alive

lemma schedAttach_setStatus : (s.setStatus p x).schedAttach p =
    { s.setStatus p x with next := (s.schedAttach p).next, prev := (s.schedAttach p).prev } := by
  simp only [schedAttach, attachNext, attachPrev, attachBack, attachForth, setStatus]

lemma procNotify_frame : (s.procNotify p).current = s.current ∧ (s.procNotify p).stack = s.stack ∧
    (s.procNotify p).kernCtx = s.kernCtx := by
  rw [procNotify, schedAttach_setStatus]
  split <;> exact ⟨rfl, rfl, rfl⟩

lemma procNotify_status_ne (h : p' ≠ p) : (s.procNotify p).status p' = s.status p' := by
  rw [procNotify]
  split <;> first | exact update_of_ne h .. | rfl

lemma procNotify_awake (hu : s.status p ≠ .uninit) :
    ¬ ((s.procNotify p).status p = .wait ∨ (s.procNotify p).status p = .uninit) := by
  rw [procNotify, schedAttach_setStatus]
  cases hs : s.status p <;> simp_all [setStatus]

lemma procNotify_runnable (h : (s.status p).runnable = true) : (s.procNotify p).status p = .runnableStrong := by
  rw [procNotify]
  cases hs : s.status p <;> simp_all [setStatus, ProcStatus.runnable]

lemma advance_status : s.advance.status = s.status := by
  rw [advance]
  match s.stack with
  | [] | .enter :: _ | .lower _ :: _ => rfl
  | .sched pc :: rest =>
    by_cases hsw : ∃ old p, pc = .switch old p
    · obtain ⟨old, p, rfl⟩ := hsw
      dsimp only [schedule]
      split <;> rfl
    · exact (schedule_frame fun old p heq => hsw ⟨old, p, heq⟩).2.1
  | .restore :: _ | .handlers _ :: _ =>
    dsimp only
    split <;> rfl

lemma irq_status : s.irq.status = s.status := by
  rw [irq]
  split <;> rfl

lemma SchedOk.walk (h : s.SchedOk q pc) : Walk s.next none (q.map some) none ∧ q.Nodup := by
  cases pc with
  | test => exact ⟨h.circle.forth, h.listed.nodup⟩
  | slice p => exact ⟨h.circle.forth, h.listed.nodup⟩
  | setCurrent p => exact ⟨h.1.circle.forth, h.1.listed.nodup⟩
  | switch old p => exact ⟨h.2.1.circle.forth, h.2.1.listed.nodup⟩
  | attachNext => exact ⟨h.1.forth, h.2.listed.nodup⟩
  | attachPrev | attachBack => exact ⟨h.1.forth, h.2.1.listed.nodup⟩
  | attachForth => exact ⟨h.1, h.2.1.listed.nodup⟩
  | pick | detachBack p => exact ⟨h.1.forth, h.2.1.nodup⟩
  | detachForth p => exact ⟨h.1, h.2.1.nodup⟩

section

variable (h : s.Inv)
include h

lemma Inv.procNotify (hi : p ≠ River.idle) (hs : inSched s.stack = false)
    (hcalm : ¬ (p = s.current ∧ s.status p = .wait)) : (s.procNotify p).Inv := by
  obtain ⟨q, hq⟩ := h.queue
  have hout := hq.outside hs
  have hidle : ∀ x, update s.status p x River.idle = .runnableWeak :=
    fun x => (update_of_ne (Ne.symm hi) ..).trans h.idle
  rw [Cpu.procNotify, schedAttach_setStatus]
  split
  next hp =>
    refine ⟨hidle _, h.stack, h.saved, q, FrameOk.of_outside (hout.strong hi hp) hs ?_⟩
    intro hl
    change (update s.status p .runnableStrong s.current).runnable = true
    rw [update_apply]
    split
    · rfl
    · exact hq.runnable hl
  next hp =>
    have hc : p ≠ s.current := fun heq => hcalm ⟨heq, hp⟩
    refine ⟨hidle _, h.stack, h.saved, q ++ [p], FrameOk.of_outside (hout.woken hi hp hc) hs ?_⟩
    intro hl
    change (update s.status p .runnableWeak s.current).runnable = true
    rw [update_of_ne (Ne.symm hc)]
    exact hq.runnable hl
  next => exact h

lemma Inv.irqProcess (hs : inSched s.stack = false) (hp : Plain s.stack) : s.irqProcess.Inv := by
  obtain ⟨q, hq⟩ := h.queue
  exact ⟨h.idle, hp, h.saved, q, hq.outside hs⟩

lemma Inv.plain (hs : inSched s.stack = false) : Plain s.stack := by
  have htail := h.stack
  match hl : s.stack with
  | [] => simp [Plain]
  | .restore :: _ | .lower _ :: _ | .enter :: _ | .handlers _ :: _ =>
    rw [hl] at htail
    exact htail.cons (by simp)
  | .sched _ :: _ => simp [hl, inSched] at hs

lemma Inv.irq (hcalm : inSched s.stack = false ∨ s.irqSaveLevel s.current ≠ 0) : s.irq.Inv := by
  rw [Cpu.irq]
  obtain ⟨q, hq⟩ := h.queue
  have hmask : Inv { s with irqMask := true } := ⟨h.idle, h.stack, h.saved, q, hq⟩
  split
  next hl =>
    have hs := hcalm.resolve_right (not_not.mpr hl)
    exact hmask.irqProcess hs (h.plain hs)
  next => exact hmask

lemma Inv.eprocOpen (hs : s.stack = []) (hi : p ≠ River.idle) (hp : s.status p = .uninit) : (s.eprocOpen p).Inv := by
  obtain ⟨q, hq⟩ := h.queue
  rw [hs] at hq
  obtain ⟨hout, hrun⟩ := hq
  have hc : s.current ≠ p := by
    rintro rfl
    simp [hp, ProcStatus.runnable] at hrun
  have hq : p ∉ q := by
    intro hq
    have := (hout.listed.queued p hq).2
    simp [hp, ProcStatus.runnable] at this
  refine ⟨(update_of_ne (Ne.symm hi) ..).trans h.idle, h.stack, ?_, q, ?_⟩
  · intro p' l flag hp'
    change update s.kernCtx p none p' = some (l, flag) at hp'
    grind [h.saved]
  have hst : ∀ p', p' ≠ p → update s.status p .wait p' = s.status p' := fun p' hne => update_of_ne hne ..
  refine FrameOk.of_outside ⟨hout.circle.update (not_mem_nodes hq), ⟨hout.listed.nodup, ?_, ?_⟩, hout.absent, ?_⟩ ?_ ?_
  · intro p' hp'
    change p' ≠ River.idle ∧ (update s.status p .wait p').runnable = true
    rw [hst p' fun heq => hq (heq ▸ hp')]
    exact hout.listed.queued p' hp'
  · intro p' hi' hp' hx
    change update s.status p .wait p' = .wait ∨ update s.status p .wait p' = .uninit
    rw [update_apply]
    split
    · exact .inl rfl
    · exact hout.listed.others p' hi' hp' hx
  · change (update s.status p .wait s.current).runnable = true ∨ _
    rw [hst _ hc]
    exact .inl hrun
  · simp [Cpu.eprocOpen, hs, inSched]
  · intro _
    change (update s.status p .wait s.current).runnable = true
    rwa [hst _ hc]

lemma Inv.procWaitTry (hs : s.stack = []) (hi : s.current ≠ River.idle) : s.procWaitTry.Inv := by
  obtain ⟨q, hq⟩ := h.queue
  have htail := h.stack
  rw [hs] at hq htail
  have hidle : ∀ x, update s.status s.current x River.idle = .runnableWeak := fun x =>
    (update_of_ne (Ne.symm hi) ..).trans h.idle
  rw [Cpu.procWaitTry]
  split
  next => exact ⟨hidle _, hs ▸ htail, h.saved, q, hq.1.own (.inr ⟨hi, rfl⟩)⟩
  next =>
    refine ⟨hidle _, h.stack, h.saved, q, FrameOk.of_outside (hq.1.own (.inl rfl)) ?_ ?_⟩
    · simp [setStatus, hs, inSched]
    · simp [setStatus, ProcStatus.runnable]
  next => exact h

lemma Inv.procYield (hs : s.stack = []) : s.procYield.Inv := by
  obtain ⟨q, hq⟩ := h.queue
  rw [hs] at hq
  exact ⟨h.idle, by simp [Cpu.procYield, hs, Plain], h.saved, q, hq.1⟩

lemma Inv.tick : (s.tick n).Inv := by
  obtain ⟨q, hq⟩ := h.queue
  exact ⟨h.idle, h.stack, h.saved, q, hq⟩

lemma Inv.ipi (hi : p ≠ River.idle) (hs : inSched s.stack = false)
    (hcalm : ¬ (p = s.current ∧ s.status p = .wait)) : (s.ipi p).Inv := by
  have hnotify := h.procNotify hi hs hcalm
  have hstack : (s.procNotify p).stack = s.stack := procNotify_frame.2.1
  rw [Cpu.ipi]
  split
  next => exact hnotify.irqProcess (by rw [hstack]; exact hs) (by rw [hstack]; exact h.plain hs)
  next => exact hnotify

lemma Inv.step (ha : Allowed s e) (hcalm : Calm s e) (hs : Cpu.step s e = .ok s') : s'.Inv := by
  cases e with
  | eprocOpen p => exact Except.ok.inj hs ▸ h.eprocOpen ha.1 ha.2.1 ha.2.2
  | procWaitTry => exact Except.ok.inj hs ▸ h.procWaitTry ha.1 ha.2
  | procYield => exact Except.ok.inj hs ▸ h.procYield ha
  | procNotify p => exact Except.ok.inj hs ▸ h.procNotify ha.1 hcalm.1 hcalm.2
  | ipi p => exact Except.ok.inj hs ▸ h.ipi ha.1 hcalm.1 hcalm.2
  | irq => exact Except.ok.inj hs ▸ h.irq hcalm
  | tick n => exact Except.ok.inj hs ▸ h.tick
  | step => exact Except.ok.inj hs ▸ h.advance

lemma Inv.sound : ∃ q, s.Sound q := by
  obtain ⟨q, hq⟩ := h.queue
  by_cases hs : inSched s.stack = true
  · refine ⟨q, ?_⟩
    match hl : s.stack with
    | .sched pc :: rest =>
      rw [hl] at hq
      obtain ⟨hw, hnd⟩ := SchedOk.walk hq
      exact ⟨hw, hnd, fun hf => absurd (hs.symm.trans hf) Bool.noConfusion,
        fun hf => absurd (hs.symm.trans hf) Bool.noConfusion⟩
    | [] | .restore :: _ | .lower _ :: _ | .enter :: _ | .handlers _ :: _ => simp [hl, inSched] at hs
  · have hout := hq.outside (by simpa using hs)
    refine ⟨q, hout.circle.forth, hout.listed.nodup, fun _ => hout.absent, ?_⟩
    grind [hout.listed.others]

end

/-- In a run whose interrupts are all calm the queue is sound throughout. -/
theorem queue_sound (hr : Reachable step (fun s e => Allowed s e ∧ Calm s e) (· = start) s) : ∃ q, s.Sound q := by
  refine Inv.sound (hr.invariant (P := Inv) ?_ fun _ _ _ h ha hs => h.step ha.1 ha.2 hs)
  rintro _ rfl
  exact .of_start

instance (s e) : Decidable (Calm s e) := by
  unfold Calm
  split <;> infer_instance

def yieldTo : List CpuEvent := [.eprocOpen 1, .procNotify 1, .procYield] ++ List.replicate 8 .step

theorem queue_sound_two : ∃ s, Reachable step (fun s e => Allowed s e ∧ Calm s e) (· = start) s ∧ s.current = 1 ∧
    s.next none = some 2 ∧ ∃ q, s.Sound q := by
  obtain ⟨s, hr, hs⟩ : ∃ s, Reachable step (fun s e => Allowed s e ∧ Calm s e) (· = start) s ∧
      s.current = 1 ∧ s.next none = some 2 :=
    Reachable.exists_of_run (yieldTo ++ [.eprocOpen 2, .irq, .procNotify 2]) rfl (by decide +kernel)
  exact ⟨s, hr, hs.1, hs.2, queue_sound hr⟩

/-- An interrupt between the two halves of `proc_wait_try`: when the process has
returned to its own code it is in the queue. -/
theorem current_queued : ∃ s, Reachable step Allowed (· = start) s ∧ s.stack = [] ∧ s.current = 1 ∧
    s.next none = some 1 ∧ ¬ ∃ q, s.Sound q := by
  obtain ⟨s, hr, hs⟩ : ∃ s, Reachable step Allowed (· = start) s ∧
      s.stack = [] ∧ s.current = 1 ∧ s.next none = some 1 :=
    Reachable.exists_of_run (yieldTo ++ [.procWaitTry, .ipi 1, .step, .step, .step]) rfl (by decide +kernel)
  obtain ⟨hstack, hcur, hnext⟩ := hs
  refine ⟨s, hr, hstack, hcur, hnext, ?_⟩
  rintro ⟨q, hq⟩
  have hhead := hq.queue.eq_head
  rw [hnext] at hhead
  cases q with
  | nil => simp at hhead
  | cons p q =>
    obtain rfl : 1 = p := by simpa using hhead
    exact hq.current (by rw [hstack]; rfl) (by rw [hcur]; exact .head _)

end Cpu

end Ucore.River
