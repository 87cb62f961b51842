import Ucore.Schedule.SchedOk

/-!
# Runs of the scheduler

Every call that a processor makes in the kernel keeps the run-queue invariant, and no
call finds a `run_link` in a state it does not expect.
-/

namespace Ucore.Schedule

open Ucore.Lib Function

namespace Sched

variable {s s' : Sched} {c p a : Nat} {x y : Task}

lemma leaveMm_ok : Safe Elsewhere (s.leaveMm c x) fun s' => ∃ l, s' = { s with lapic := l } := by
  unfold leaveMm
  split
  · split
    · exact ⟨_, rfl⟩
    · exact ⟨nofun, nofun⟩
  · exact ⟨_, rfl⟩

lemma enterMm_ok : Safe Elsewhere (s.enterMm c x) fun s' => ∃ l, s' = { s with lapic := l } := by
  unfold enterMm
  split
  · split
    · exact ⟨_, rfl⟩
    · exact ⟨nofun, nofun⟩
  · exact ⟨_, rfl⟩

lemma runTimerList_ok : Safe Elsewhere (runTimerList l) fun _ => True := by
  unfold runTimerList
  split
  · trivial
  split
  · exact ⟨nofun, nofun⟩
  · trivial

lemma releaseMm_eq : ∃ l, s.releaseMm x = { s with lapic := l } := by
  unfold releaseMm
  split
  · exact ⟨_, rfl⟩
  · exact ⟨_, rfl⟩

lemma stateOf_eq : s.stateOf p = some st ↔ ∃ x, s.task p = some x ∧ x.state = st := by
  simp [stateOf]

section

variable (h : s.Held c)
include h

lemma Held.current : ∃ x, s.task (s.current c) = some x := h.inv.seats.current c h.lt

lemma Held.setCurrent (hx : s.task (s.current c) = some x) (hpid : y.pid = x.pid)
    (hidle : s.current c = s.idle c → y.state = .runnable) : (s.set (s.current c) y).Held c :=
  ⟨h.inv.setCurrent h.lock hx hpid hidle, h.lock⟩

lemma Held.idle_runnable (hx : s.task (s.current c) = some x) (heq : s.current c = s.idle c) : x.state = .runnable := by
  grind [h.inv.seats.idle, h.lt]

lemma schedule_ok : Safe Elsewhere (s.schedule c) fun s' => s'.Held c ∧ ∀ p, s.Linked p →
    s'.Linked p ∨ s'.current c = p := by
  obtain ⟨x, hx⟩ := h.current
  unfold schedule
  dsimp only
  rw [get_ok hx]
  have hstate := h.idle_runnable hx
  have hset := h.setCurrent (y := { x with needResched := false }) hx rfl hstate
  refine leaveMm_ok.bind ?_
  rintro _ ⟨l1, rfl⟩
  have h1 : Held c { s.set (s.current c) { x with needResched := false } with lapic := l1 } :=
    ⟨hset.inv.other, hset.lock⟩
  obtain ⟨s2, hs2, hq2, hr2⟩ := enqueueCurrent_ok (x := x) h1 set_self rfl rfl
  refine (Safe.of_exists (Q := (· = s2)) ⟨s2, hs2, rfl⟩).bind ?_
  rintro _ rfl
  have hseats2 := h1.inv.seats.requeued hr2
  have hlock2 := hr2.lock.trans h1.lock
  have hq2 := hq2.congr fun j => (hr2.free_iff (c := c)).symm
  have hc2 := hseats2.holder c hlock2
  obtain ⟨r, s3, hs3, hpick, hq3, hr3⟩ := pickLoop_ok (c := c) hq2 (Nat.lt_succ_self _) List.nodup_nil nofun
    fun p hp => (hp.resolve_right List.not_mem_nil).ne_idle hseats2 hc2
  refine (Safe.of_exists (Q := (· = (r, s3))) ⟨_, hs3, rfl⟩).bind ?_
  rintro _ rfl
  have hseats3 := hseats2.requeued hr3
  have hlock3 := hr3.lock.trans hlock2
  have hc3 := hseats3.holder c hlock3
  generalize hn : r.getD (s3.idle c) = next
  have hnext : s3.Free c next ∨ next = s3.idle c := by
    cases r with
    | none => exact .inr hn.symm
    | some p => exact .inl (hn ▸ hr3.free (hpick p rfl))
  have hq : s3.Queued fun j => s3.Free c j ∧ j ≠ next := by
    refine hq3.congr fun j => ?_
    simp only [List.not_mem_nil, or_false, hr3.free_iff]
    refine and_congr_right fun hfree => ?_
    cases r with
    | none => exact iff_of_true nofun (hn ▸ (hr3.free hfree).ne_idle hseats3 hc3)
    | some p => simp [← hn, eq_comm]
  have hrun := procRun_ok hseats3 hlock3 hq hnext
  obtain ⟨y, hy⟩ := hrun.current
  have hself : (s3.procRun c next).current c = next := Function.update_self ..
  rw [hself] at hy
  dsimp only
  rw [get_ok (s := s3) hy]
  refine enterMm_ok.bind ?_
  rintro _ ⟨l4, rfl⟩
  refine ⟨⟨hrun.inv.other, hrun.lock⟩, fun p hp => ?_⟩
  have hfree : s3.Free c p := hr3.free (hr2.free ((ready_iff_free h1.lt).mp ((h1.inv.queued.mem p).mp hp)).1)
  by_cases heq : p = next
  · exact .inr (hself.trans heq.symm)
  · exact .inl ((hq.mem p).mpr ⟨hfree, heq⟩)

lemma Held.other : { s with timers := t, lapic := l }.Held c := ⟨h.inv.other, h.lock⟩

lemma wakeTimer_ok : Safe Elsewhere (s.wakeTimer c t) (Held c) := by
  unfold wakeTimer get
  cases s.task t.proc with
  | none => exact ⟨nofun, nofun⟩
  | some x =>
    simp only [bind, Except.bind]
    split
    · exact ⟨nofun, nofun⟩
    · exact wakeupProc_ok h

lemma schedClassProcTick_ok : Safe Elsewhere (s.schedClassProcTick c (s.current c)) (Held c) := by
  obtain ⟨x, hx⟩ := h.current
  have hstate := h.idle_runnable hx
  unfold schedClassProcTick mlfqProcTick
  rw [get_ok hx]
  split
  · exact h.setCurrent hx rfl hstate
  · exact h.setCurrent hx rfl hstate

lemma tick_ok : Safe Elsewhere (s.tick c) (Held c) := by
  unfold tick
  refine runTimerList_ok.bind fun r _ => ?_
  have hloop : Safe Elsewhere (r.1.foldlM (wakeTimer c) { s with timers := r.2 }) (Held c) :=
    Safe.foldlM (I := fun _ => Held c) h.other fun t _ s hs => wakeTimer_ok hs
  exact hloop.bind fun s => schedClassProcTick_ok

lemma Held.add (ha : s.task a = none) (hpid : s.cpus ≤ y.pid) (hstate : y.state ≠ .runnable) : (s.set a y).Held c := by
  have hcur : ∀ c' < s.cpus, s.current c' ≠ a := by
    rintro c' hc' rfl
    obtain ⟨x, hx⟩ := h.inv.seats.current c' hc'
    exact nomatch ha.symm.trans hx
  have hidle : ∀ c' < s.cpus, s.idle c' ≠ a := by
    rintro c' hc' rfl
    obtain ⟨x, hx, -⟩ := h.inv.seats.idle c' hc'
    exact nomatch ha.symm.trans hx
  refine ⟨⟨h.inv.seats.set hcur hidle hpid, ?_⟩, h.lock⟩
  have hnot : ¬ s.Ready a := by
    rintro ⟨x, hx, -⟩
    exact nomatch ha.symm.trans hx
  have hnot' : ¬ (s.set a y).Ready a := by
    rintro ⟨x, hx, hrun, -⟩
    exact hstate (Option.some.inj (set_self.symm.trans hx) ▸ hrun)
  refine (h.inv.queued.copy (t := s.set a y) rfl rfl fun j hj => set_other ?_).congr fun j => ?_
  · rintro rfl
    exact hnot hj
  by_cases hj : j = a
  · subst hj
    exact iff_of_false hnot hnot'
  · simp only [Ready, set_other hj]
    exact Iff.rfl

lemma fork_ok (ha : s.task a = none) : Safe Elsewhere (s.fork c a pid mm) (Held c) := by
  obtain ⟨x, hx⟩ := h.current
  have hstate := h.idle_runnable hx
  have hne : a ≠ s.current c := by
    rintro rfl
    exact nomatch ha.symm.trans hx
  unfold fork
  rw [get_ok hx]
  simp only [bind, Except.bind]
  split
  · exact ⟨nofun, nofun⟩
  have h1 := h.setCurrent (y := { x with timeSlice := x.timeSlice - x.timeSlice / 2 }) hx rfl hstate
  by_cases hpid : s.cpus ≤ pid
  · exact wakeupProc_ok (h1.add ((set_other hne).trans ha) hpid (by simp))
  -- `wakeup_proc` asserts that the new process is not an idle process
  rw [wakeupProc, get_ok set_self]
  simp [bind, Except.bind, set, hne, hpid, Elsewhere]

lemma forkFail_ok : Safe Elsewhere (s.forkFail c) (Held c) := by
  obtain ⟨x, hx⟩ := h.current
  have hstate := h.idle_runnable hx
  unfold forkFail
  rw [get_ok hx]
  simp only [bind, Except.bind]
  split
  · exact ⟨nofun, nofun⟩
  · exact h.setCurrent hx rfl hstate

lemma sleep_ok (hne : s.current c ≠ s.idle c) : Safe Elsewhere (s.sleep c w) (Held c) := by
  obtain ⟨x, hx⟩ := h.current
  unfold sleep
  rw [get_ok hx]
  exact h.setCurrent hx rfl fun heq => absurd heq hne

lemma exit_ok (hne : s.current c ≠ s.idle c) : Safe Elsewhere (s.exit c) (Held c) := by
  obtain ⟨x, hx⟩ := h.current
  obtain ⟨l, hl⟩ := releaseMm_eq (s := s) (x := x)
  unfold exit
  rw [get_ok hx]
  simp only [bind, Except.bind, hl]
  exact (h.other (l := l)).setCurrent hx rfl fun heq => absurd heq hne

lemma exec_ok : Safe Elsewhere (s.exec c m) (Held c) := by
  obtain ⟨x, hx⟩ := h.current
  have hstate := h.idle_runnable hx
  obtain ⟨l, hl⟩ := releaseMm_eq (s := s) (x := x)
  unfold exec
  rw [get_ok hx]
  simp only [bind, Except.bind, hl]
  exact (h.other (l := update l m (some c))).setCurrent hx rfl hstate

lemma reap_ok (hz : s.stateOf p = some .zombie) (hne : s.current c ≠ p) : (s.reap p).Held c := by
  obtain ⟨x, hx, hzombie⟩ := stateOf_eq.mp hz
  have hrun : ∀ j y, s.task j = some y → y.state = .runnable → (s.reap p).task j = some y := by
    intro j y hy hstate
    refine (update_of_ne ?_ ..).trans hy
    rintro rfl
    rw [hx] at hy
    rw [← Option.some.inj hy, hzombie] at hstate
    cases hstate
  have hback : ∀ j y, (s.reap p).task j = some y → s.task j = some y := by
    intro j y hy
    by_cases hj : j = p
    · subst hj
      simp [reap] at hy
    · exact (update_of_ne hj ..).symm.trans hy
  have hothers : ∀ c' < s.cpus, s.lock ≠ some c' → ∃ y, (s.reap p).task (s.current c') = some y ∧
    y.state = .runnable := by
    intro c' hc' hl'
    obtain ⟨y, hy, hstate⟩ := h.inv.seats.others c' hc' hl'
    exact ⟨y, hrun _ y hy hstate, hstate⟩
  refine ⟨⟨⟨?_, ?_, ?_, h.inv.seats.single, h.inv.seats.own, hothers, h.inv.seats.holder⟩, ?_⟩, h.lock⟩
  · intro c' hc'
    obtain ⟨y, hy, hstate, hpid⟩ := h.inv.seats.idle c' hc'
    exact ⟨y, hrun _ y hy hstate, hstate, hpid⟩
  · exact fun j y hy => h.inv.seats.pid j y (hback j y hy)
  · intro c' hc'
    by_cases hl' : s.lock = some c'
    · obtain ⟨y, hy⟩ := h.inv.seats.current c' hc'
      obtain rfl : c = c' := Option.some.inj (h.lock.symm.trans hl')
      exact ⟨y, (update_of_ne hne ..).trans hy⟩
    · obtain ⟨y, hy, -⟩ := hothers c' hc' hl'
      exact ⟨y, hy⟩
  · refine (h.inv.queued.copy (t := s.reap p) rfl rfl ?_).congr fun j => ⟨?_, ?_⟩
    · rintro j ⟨y, hy, hstate, -⟩
      exact (hrun j y hy hstate).trans hy.symm
    · rintro ⟨y, hy, hstate, hpid, hcur⟩
      exact ⟨y, hrun j y hy hstate, hstate, hpid, hcur⟩
    · rintro ⟨y, hy, hstate, hpid, hcur⟩
      exact ⟨y, hback j y hy, hstate, hpid, hcur⟩

lemma perform_ok (ha : s.Allowed (.call e)) : Safe Elsewhere (s.perform c e) (Held c) := by
  cases e with
  | wakeup p => exact wakeupProc_ok h
  | schedule => exact (schedule_ok h).mono fun _ hs => hs.1
  | tick => exact tick_ok h
  | addTimer t n =>
    simp only [perform, Schedule.addTimer]
    split
    · exact ⟨nofun, nofun⟩
    split
    · exact ⟨nofun, nofun⟩
    · exact h.other
  | delTimer i => exact h.other
  | fork a pid mm => exact fork_ok h ha
  | forkFail => exact forkFail_ok h
  | sleep w => exact sleep_ok h (ha c h.lock)
  | exit => exact exit_ok h (ha c h.lock)
  | exec m => exact exec_ok h
  | reap p => exact reap_ok h ha.1 (ha.2 c h.lock)

end

lemma step_ok (h : s.Inv) (ha : s.Allowed e) : Safe Elsewhere (s.step e) Inv := by
  cases e with
  | enter c =>
    obtain ⟨hl, hc⟩ := ha
    refine ⟨⟨h.seats.idle, h.seats.pid, h.seats.current, h.seats.single, h.seats.own, ?_, ?_⟩, ?_⟩
    · exact fun c' hc' _ => h.seats.others c' hc' (by simp [hl])
    · rintro c' ⟨⟩
      exact hc
    · exact h.queued.copy rfl rfl fun _ _ => rfl
  | leave =>
    obtain ⟨c, hl, hrun⟩ := ha
    refine ⟨⟨h.seats.idle, h.seats.pid, h.seats.current, h.seats.single, h.seats.own, ?_, nofun⟩, ?_⟩
    · intro c' hc' _
      by_cases hcc : c' = c
      · exact hcc ▸ stateOf_eq.mp hrun
      · exact h.seats.others c' hc' fun h => hcc (Option.some.inj (h.symm.trans hl))
    · exact h.queued.copy rfl rfl fun _ _ => rfl
  | call e =>
    rw [step]
    cases hl : s.lock with
    | none => exact h
    | some c => exact (perform_ok ⟨h, hl⟩ ha).mono fun _ hs => hs.inv

lemma boot_inv : (boot n).Inv := by
  have htask : ∀ c < n, (boot n).task c = some ⟨.runnable, c, .none, true, none, none, 0⟩ := fun c hc => if_pos hc
  have hpid : ∀ p x, (boot n).task p = some x → x.pid = p ∧ p < n := by
    intro p x hx
    by_cases hp : p < n
    · grind
    · exact nomatch (if_neg hp : (boot n).task p = none).symm.trans hx
  refine ⟨⟨?_, ?_, ?_, ?_, ?_, ?_, nofun⟩, ⟨fun _ => List.nodup_nil, nofun, ?_, fun _ => rfl, nofun⟩⟩
  · exact fun c hc => ⟨_, htask c hc, rfl, rfl⟩
  · exact fun p x hx _ => (hpid p x hx).1.symm
  · exact fun c hc => ⟨_, htask c hc⟩
  · exact fun c _ c' _ h => h
  · exact fun c _ c' _ h => h
  · exact fun c hc _ => ⟨_, htask c hc, rfl⟩
  · intro p
    refine iff_of_false (by simp [Linked, boot]) ?_
    rintro ⟨x, hx, -, hle, -⟩
    obtain ⟨rfl, hlt⟩ := hpid p x hx
    exact absurd hlt (Nat.not_lt.mpr hle)

def Reached (cpus : Nat) : Sched → Prop := Reachable step Allowed (· = boot cpus)

lemma Reached.inv (h : Reached n s) : s.Inv :=
  Reachable.invariant (P := Inv) h (fun _ hs => hs ▸ boot_inv) fun _ _ _ hs ha hs' => (step_ok hs ha).of_eq hs'

/-- What the run queues are for: they hold, once, every process that could run
and that no processor runs, with a time slice that fits the queue. -/
structure RunQueues (s : Sched) : Prop where
  nodup : ∀ q, (s.queue q).Nodup
  one : ∀ p q q', p ∈ s.queue q → p ∈ s.queue q' → q = q'
  queued_iff : ∀ p x, s.task p = some x → (∀ c < s.cpus, s.idle c ≠ p) →
    (s.Linked p ↔ x.state = .runnable ∧ ∀ c < s.cpus, s.current c ≠ p)
  num : ∀ q, s.procNum q = (s.queue q).length
  slice : ∀ p q, p ∈ s.queue q → ∃ x, s.task p = some x ∧ 1 ≤ x.timeSlice ∧ x.timeSlice ≤ maxTimeSlice q

lemma Inv.runQueues (h : s.Inv) : s.RunQueues := by
  refine ⟨h.queued.nodup, h.queued.one, ?_, h.queued.num, ?_⟩
  · intro p x hx hidle
    rw [h.queued.mem]
    grind [h.seats.pid, Ready]
  · grind [h.queued.slice]

/-- The queues are as they should be, no call fails an assertion about `run_link`, and
`schedule` leaves every process it found in a queue there, except the one it runs. -/
theorem run_queues (h : Reached n s) :
    s.RunQueues ∧ (∀ e, s.Allowed e → s.step e ≠ .error .runLink ∧ s.step e ≠ .error .hang) ∧
    ∀ c s', s.lock = some c → s.schedule c = .ok s' → ∀ p, s.Linked p → s'.Linked p ∨ s'.current c = p := by
  refine ⟨h.inv.runQueues, ?_, ?_⟩
  · intro e ha
    have hs := step_ok h.inv ha
    constructor
    · intro he
      rw [he] at hs
      exact hs.1 rfl
    · intro he
      rw [he] at hs
      exact hs.2 rfl
  · exact fun c s' hl hs => ((schedule_ok ⟨h.inv, hl⟩).of_eq hs).2

theorem run_queues_fork : ∃ s, Reached 2 s ∧ s.queue 0 = [7] ∧ s.RunQueues := by
  have h0 : Reached 2 (boot 2) := .init rfl
  have henter : (boot 2).Allowed (.enter 0) := ⟨rfl, by decide⟩
  have h1 : Reached 2 { boot 2 with lock := some 0 } := h0.step henter rfl
  obtain ⟨s, hs, hq⟩ : ∃ s, step { boot 2 with lock := some 0 } (.call (.fork 7 2 none)) = .ok s ∧ s.queue 0 = [7] :=
    ⟨_, rfl, rfl⟩
  have hfork : Allowed { boot 2 with lock := some 0 } (.call (.fork 7 2 none)) := rfl
  have h2 : Reached 2 s := h1.step hfork hs
  exact ⟨s, h2, hq, (run_queues h2).1⟩

end Sched

end Ucore.Schedule
