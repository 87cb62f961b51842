import Ucore.River.Event
import Ucore.River.Proc

/-!
# Event processes

Processes that run `event_loop` on a pool of their own, with `proc_wait_try` for
`exhaust`: the scheduler and the event queues together. `event_activate` touches the
process of the event's pool, which has the number of the pool.

The sections of `event_activate` and `event_loop` are single steps here. Devices
activate events outside the sections.
-/

namespace Ucore.River

open Lib (Reachable)
open Function

structure EProcs where
  cpu : Cpu
  events : Events

inductive EProcEvent
  | eprocOpen (p : Nat)
  | procYield
  | irq
  | tick (n : Nat)
  | step
  | activate (e : Nat)
  | round
  | handle
  | back
  | procWaitTry
  deriving DecidableEq, Repr

def Loop.handling : Loop → Bool
  | .handler _ => true
  | _ => false

namespace EProcs

def place (s : EProcs) : Loop := s.events.loop s.cpu.current

def InCode (s : EProcs) : Prop := s.cpu.stack = [] ∧ (s.cpu.current = idle ∨ s.place.handling = true)

def InLoop (s : EProcs) : Prop := s.cpu.stack = [] ∧ s.cpu.current ≠ idle

instance (s : EProcs) : Decidable s.InCode := inferInstanceAs (Decidable (_ ∧ _))
instance (s : EProcs) : Decidable s.InLoop := inferInstanceAs (Decidable (_ ∧ _))

def Allowed (s : EProcs) : EProcEvent → Prop
  | .eprocOpen p => s.InCode ∧ p ≠ idle ∧ s.cpu.status p = .uninit
  | .procYield => s.InCode
  | .irq => s.cpu.intr = true ∧ (Cpu.inSched s.cpu.stack = false ∨ s.cpu.irqSaveLevel s.cpu.current ≠ 0)
  | .tick _ => Cpu.inHandler s.cpu.stack = true
  | .step => True
  | .activate e =>
    (s.InCode ∨ Cpu.inHandler s.cpu.stack = true) ∧ s.events.pool e ≠ idle ∧ s.cpu.status (s.events.pool e) ≠ .uninit
  | .round => s.InLoop ∧ s.place = .top
  | .handle => s.InLoop ∧ s.place.calling = true
  | .back => s.InLoop ∧ s.place.handling = true
  | .procWaitTry => s.InLoop ∧ s.place = .exhaust

instance (s e) : Decidable (Allowed s e) := by
  unfold Allowed
  split <;> infer_instance

def step (s : EProcs) : EProcEvent → Except EventFault EProcs
  | .eprocOpen p => .ok { s with cpu := s.cpu.eprocOpen p }
  | .procYield => .ok { s with cpu := s.cpu.procYield }
  | .irq => .ok { s with cpu := s.cpu.irq }
  | .tick n => .ok { s with cpu := s.cpu.tick n }
  | .step => .ok { s with cpu := s.cpu.advance }
  | .activate e => do
    let events ← Events.finish 8 (s.events.begin e)
    .ok ⟨s.cpu.procNotify (s.events.pool e), events⟩
  | .round => do
    let events ← Events.finish 9 (s.events.atHead s.cpu.current)
    .ok ⟨s.cpu, events⟩
  | .handle => .ok { s with events := s.events.handle s.cpu.current }
  | .back => .ok { s with events := s.events.setLoop s.cpu.current .top }
  | .procWaitTry => .ok ⟨s.cpu.procWaitTry, s.events.setLoop s.cpu.current .top⟩

def Start (s : EProcs) : Prop := s.cpu = Cpu.start ∧ s.events.Start

def Drained (s : EProcs) : Prop := ∀ p, p ≠ idle → s.cpu.status p = .wait → s.events.head p = none

def Calm (s : EProcs) : EProcEvent → Prop
  | .activate e => ¬ (s.events.pool e = s.cpu.current ∧ s.cpu.status s.cpu.current = .wait)
  | _ => True

variable {s s' : EProcs} {e p n : Nat}

lemma begin_elsewhere (hw : t.work = none) (h : Events.finish 8 (Events.begin t e) = .ok t') :
    t'.work = none ∧ t'.pool = t.pool ∧ t'.loop = t.loop ∧ ∀ p, p ≠ t.pool e → t'.head p = t.head p := by
  by_cases hs : t.status e = .wait
  · cases ht : t.tail (t.pool e) with
    | none =>
      rw [Events.begin_first hw hs ht] at h
      cases h
      exact ⟨hw, rfl, rfl, fun p hp => update_of_ne hp ..⟩
    | some x =>
      rw [Events.begin_last hw hs ht] at h
      cases h
      exact ⟨hw, rfl, rfl, fun _ _ => rfl⟩
  · rw [Events.begin_queued hw hs] at h
    cases h
    exact ⟨hw, rfl, rfl, fun _ _ => rfl⟩

lemma round_elsewhere (hw : t.work = none) (h : Events.finish 9 (Events.atHead t p) = .ok t') :
    t'.work = none ∧ t'.pool = t.pool ∧ (∀ p', p' ≠ p → t'.head p' = t.head p' ∧ t'.loop p' = t.loop p') ∧
      (t'.loop p = .exhaust → t'.head p = none) := by
  have hloop : ∀ x p', p' ≠ p → update t.loop p x p' = t.loop p' := fun x p' hp => update_of_ne hp ..
  have hself : ∀ e, update t.loop p (.call e) p ≠ .exhaust := fun e => by simp
  cases hh : t.head p with
  | none =>
    rw [Events.round_empty hw hh] at h
    cases h
    exact ⟨hw, rfl, fun p' hp => ⟨rfl, hloop _ p' hp⟩, fun _ => hh⟩
  | some e =>
    cases hs : t.status e with
    | wait =>
      rw [Events.round_stale hw hh hs] at h
      cases h
      exact ⟨hw, rfl, fun p' hp => ⟨rfl, hloop _ p' hp⟩, fun hl => (hself e hl).elim⟩
    | queue =>
      cases hn : t.next e with
      | none =>
        rw [Events.round_only hw hh hs hn] at h
        cases h
        exact ⟨hw, rfl, fun p' hp => ⟨update_of_ne hp .., hloop _ p' hp⟩, fun hl => (hself e hl).elim⟩
      | some x =>
        rw [Events.round_queue hw hh hs hn] at h
        cases h
        exact ⟨hw, rfl, fun p' hp => ⟨update_of_ne hp .., hloop _ p' hp⟩, fun hl => (hself e hl).elim⟩
    | queueStrong =>
      cases ht : t.tail p with
      | none =>
        rw [Events.round_fault hh hs ht] at h
        cases h
      | some x =>
        by_cases hx : x = e
        · rw [Events.round_again hw hh hs (hx ▸ ht)] at h
          cases h
          exact ⟨hw, rfl, fun p' hp => ⟨rfl, hloop _ p' hp⟩, fun hl => (hself e hl).elim⟩
        · rw [Events.round_rotate hw hh hs ht hx] at h
          cases h
          exact ⟨hw, rfl, fun p' hp => ⟨update_of_ne hp .., hloop _ p' hp⟩, fun hl => (hself e hl).elim⟩

structure Inv (s : EProcs) : Prop where
  cpu : s.cpu.Inv
  work : s.events.work = none
  drained : ∀ p, p ≠ idle → s.cpu.status p = .wait ∨ s.cpu.status p = .uninit → s.events.head p = none
  told : ∀ p, p ≠ idle → s.events.loop p = .exhaust →
    (s.cpu.status p).runnable = true ∧ (s.events.head p ≠ none → s.cpu.status p = .runnableStrong)

lemma Inv.of_start (h : s.Start) : s.Inv := by
  obtain ⟨hc, he⟩ := h
  refine ⟨hc ▸ .of_start, he.work, fun p _ _ => he.head p, fun p _ hl => ?_⟩
  simp [he.loop] at hl

section

variable (h : s.Inv)
include h

lemma Inv.sched (hc : c.Inv) (hst : c.status = s.cpu.status) : Inv { s with cpu := c } := by
  refine ⟨hc, h.work, ?_, ?_⟩
  · rw [hst]
    exact h.drained
  · rw [hst]
    exact h.told

lemma Inv.runnable (hs : s.cpu.stack = []) : (s.cpu.status s.cpu.current).runnable = true := by
  obtain ⟨q, hq⟩ := h.cpu.queue
  rw [hs] at hq
  exact hq.2

lemma Inv.activate (hu : s.cpu.status (s.events.pool e) ≠ .uninit)
    (hc : (s.cpu.procNotify (s.events.pool e)).Inv) (ht : Events.finish 8 (s.events.begin e) = .ok t) :
    Inv ⟨s.cpu.procNotify (s.events.pool e), t⟩ := by
  obtain ⟨hw, hpool, hloop, hhead⟩ := begin_elsewhere h.work ht
  have hst : ∀ p, p ≠ s.events.pool e → (s.cpu.procNotify (s.events.pool e)).status p = s.cpu.status p := fun p hp =>
    Cpu.procNotify_status_ne hp
  refine ⟨hc, hw, ?_, ?_⟩
  · intro p hp hs
    by_cases hpe : p = s.events.pool e
    · subst hpe
      exact (Cpu.procNotify_awake hu hs).elim
    rw [hst p hpe] at hs
    rw [hhead p hpe]
    exact h.drained p hp hs
  · intro p hp hl
    rw [hloop] at hl
    obtain ⟨hrun, htold⟩ := h.told p hp hl
    by_cases hpe : p = s.events.pool e
    · subst hpe
      have hstrong := Cpu.procNotify_runnable hrun
      exact ⟨by rw [hstrong]; rfl, fun _ => hstrong⟩
    · rw [hst p hpe, hhead p hpe]
      exact ⟨hrun, htold⟩

lemma Inv.round (hs : s.cpu.stack = [])
    (ht : Events.finish 9 (s.events.atHead s.cpu.current) = .ok t) : Inv ⟨s.cpu, t⟩ := by
  obtain ⟨hw, -, hother, hempty⟩ := round_elsewhere h.work ht
  have hrun := h.runnable hs
  refine ⟨h.cpu, hw, ?_, ?_⟩
  · intro p hp hst
    by_cases hpc : p = s.cpu.current
    · subst hpc
      change s.cpu.status s.cpu.current = _ ∨ s.cpu.status s.cpu.current = _ at hst
      obtain hst | hst := hst <;> simp [hst, ProcStatus.runnable] at hrun
    · rw [(hother p hpc).1]
      exact h.drained p hp hst
  · intro p hp hl
    by_cases hpc : p = s.cpu.current
    · grind
    · grind [h.told]

lemma Inv.setLoop (hx : x ≠ .exhaust)
    (ht : t = { s.events with loop := update s.events.loop s.cpu.current x, owed := t.owed }) : Inv ⟨s.cpu, t⟩ := by
  rw [ht]
  refine ⟨h.cpu, h.work, h.drained, ?_⟩
  intro p hp hl
  change update s.events.loop s.cpu.current x p = .exhaust at hl
  by_cases hpc : p = s.cpu.current
  · grind
  · rw [update_of_ne hpc] at hl
    exact h.told p hp hl

lemma Inv.own (hl : s.place ≠ .exhaust) (hc : c.Inv) (hst : c.status = update s.cpu.status s.cpu.current x)
    (hx : x = .wait ∨ x = .uninit → s.events.head s.cpu.current = none) : Inv { s with cpu := c } := by
  refine ⟨hc, h.work, ?_, ?_⟩
  · intro p hi hw
    change c.status p = _ ∨ c.status p = _ at hw
    rw [hst] at hw
    by_cases hpc : p = s.cpu.current
    · grind
    · grind [h.drained]
  · intro p hi hp
    have hpc : p ≠ s.cpu.current := by
      rintro rfl
      exact hl hp
    change (c.status p).runnable = true ∧ (_ → c.status p = _)
    rw [hst, update_of_ne hpc]
    exact h.told p hi hp

lemma Inv.procWaitTry (hs : s.InLoop) (hp : s.place = .exhaust) :
    Inv ⟨s.cpu.procWaitTry, s.events.setLoop s.cpu.current .top⟩ := by
  obtain ⟨hrun, htold⟩ := h.told s.cpu.current hs.2 hp
  have hloop : Inv ⟨s.cpu, s.events.setLoop s.cpu.current .top⟩ := h.setLoop (x := .top) (by decide) rfl
  have htop : place ⟨s.cpu, s.events.setLoop s.cpu.current .top⟩ ≠ .exhaust := by
    simp [place, Events.setLoop]
  have hcpu := h.cpu.procWaitTry hs.1 hs.2
  rw [Cpu.procWaitTry] at hcpu ⊢
  split at hcpu
  next hweak =>
    refine hloop.own htop hcpu rfl fun _ => ?_
    by_contra hne
    cases hweak.symm.trans (htold hne)
  next hstrong => exact hloop.own htop hcpu rfl (by simp)
  next => exact hloop

lemma Inv.eprocOpen (hs : s.cpu.stack = []) (hi : p ≠ idle) (hp : s.cpu.status p = .uninit) :
    Inv { s with cpu := s.cpu.eprocOpen p } := by
  have hst : ∀ p', p' ≠ p → update s.cpu.status p .wait p' = s.cpu.status p' := fun p' hne => update_of_ne hne ..
  refine ⟨h.cpu.eprocOpen hs hi hp, h.work, ?_, ?_⟩
  · intro p' hi' hw
    by_cases hpp : p' = p
    · subst hpp
      exact h.drained p' hi (.inr hp)
    · exact h.drained p' hi' (hst p' hpp ▸ hw)
  · intro p' hi' hl
    have htold := h.told p' hi' hl
    have hpp : p' ≠ p := by
      rintro rfl
      simp [hp, ProcStatus.runnable] at htold
    change (update s.cpu.status p .wait p').runnable = true ∧ (_ → update s.cpu.status p .wait p' = _)
    rwa [hst p' hpp]

lemma Inv.step (ha : Allowed s a) (hcalm : Calm s a) (hs : EProcs.step s a = .ok s') : s'.Inv := by
  cases a with
  | eprocOpen p => exact Except.ok.inj hs ▸ h.eprocOpen ha.1.1 ha.2.1 ha.2.2
  | procYield => exact Except.ok.inj hs ▸ h.sched (h.cpu.procYield ha.1) rfl
  | irq => exact Except.ok.inj hs ▸ h.sched (h.cpu.irq ha.2) Cpu.irq_status
  | tick n => exact Except.ok.inj hs ▸ h.sched h.cpu.tick rfl
  | step => exact Except.ok.inj hs ▸ h.sched h.cpu.advance Cpu.advance_status
  | activate e =>
    obtain ⟨hcode, hi, hu⟩ := ha
    have hout : Cpu.inSched s.cpu.stack = false := by
      obtain ⟨hs, -⟩ | hs := hcode
      · rw [hs]
        rfl
      · exact Cpu.inSched_of_inHandler hs
    rw [EProcs.step] at hs
    cases ht : Events.finish 8 (s.events.begin e) with
    | error _ =>
      rw [ht] at hs
      cases hs
    | ok t =>
      rw [ht] at hs
      cases hs
      refine h.activate hu (h.cpu.procNotify hi hout ?_) ht
      rintro ⟨hc, hw⟩
      exact hcalm ⟨hc, hc ▸ hw⟩
  | round =>
    rw [EProcs.step] at hs
    cases ht : Events.finish 9 (s.events.atHead s.cpu.current) with
    | error _ =>
      rw [ht] at hs
      cases hs
    | ok t =>
      rw [ht] at hs
      cases hs
      exact h.round ha.1.1 ht
  | handle =>
    cases hs
    rw [Events.handle]
    split
    next e he => exact h.setLoop (x := .handler e) Loop.noConfusion rfl
    next => exact h
  | back => exact Except.ok.inj hs ▸ h.setLoop (x := .top) (by decide) rfl
  | procWaitTry => exact Except.ok.inj hs ▸ h.procWaitTry ha.1 ha.2

end

/-- In a run where no event of the current process is activated while it goes to
sleep, a process that waits has nothing to do. -/
theorem waiting_drained (hr : Reachable step (fun s a => Allowed s a ∧ Calm s a) Start s) : s.Drained := by
  have h : s.Inv := hr.invariant (P := Inv) (fun _ => .of_start) fun _ _ _ h ha hs => h.step ha.1 ha.2 hs
  exact fun p hi hw => h.drained p hi (.inl hw)

instance (s a) : Decidable (Calm s a) := by
  unfold Calm
  split <;> infer_instance

def booted : EProcs := ⟨Cpu.start, { Events.opened with pool := fun _ => 1 }⟩

lemma booted_start : Start booted := ⟨rfl, fun _ => rfl, fun _ => rfl, fun _ => rfl, rfl, fun _ => rfl, fun _ => rfl⟩

def serve : List EProcEvent :=
  [.eprocOpen 1, .activate 0, .procYield] ++ List.replicate 8 .step ++ [.round, .handle, .back, .round]

theorem waiting_drained_one : ∃ s, Reachable step (fun s a => Allowed s a ∧ Calm s a) Start s ∧
    s.cpu.status 1 = .wait ∧ s.cpu.current = idle ∧ s.Drained := by
  obtain ⟨s, hr, hs⟩ : ∃ s, Reachable step (fun s a => Allowed s a ∧ Calm s a) Start s ∧
      s.cpu.status 1 = .wait ∧ s.cpu.current = idle :=
    Reachable.exists_of_run (serve ++ [.procWaitTry] ++ List.replicate 7 .step) booted_start (by decide +kernel)
  exact ⟨s, hr, hs.1, hs.2, waiting_drained hr⟩

/-- An activation between the two halves of `proc_wait_try` puts the running process
into the queue, where it finds itself. The next one makes it weak and not strong, and it
goes to sleep. -/
theorem sleeps_on_work : ∃ s, Reachable step Allowed Start s ∧ s.cpu.current = 1 ∧ s.cpu.status 1 = .wait ∧
    s.events.work = none ∧ s.events.head 1 = some 0 ∧ ¬ s.Drained := by
  obtain ⟨s, hr, hs⟩ : ∃ s, Reachable step Allowed Start s ∧
      s.cpu.current = 1 ∧ s.cpu.status 1 = .wait ∧ s.events.work = none ∧ s.events.head 1 = some 0 :=
    Reachable.exists_of_run
      (serve ++ [.procWaitTry, .irq, .activate 0] ++ List.replicate 9 .step ++ [.round, .handle, .back, .round] ++
        [.procWaitTry] ++ List.replicate 7 .step ++ [.round, .irq, .activate 0] ++ List.replicate 6 .step ++
        [.procWaitTry]) booted_start (by decide +kernel)
  obtain ⟨hc, hst, hw, hh⟩ := hs
  refine ⟨s, hr, hc, hst, hw, hh, fun h => ?_⟩
  cases hh.symm.trans (h 1 (by decide) hst)

end EProcs

end Ucore.River
