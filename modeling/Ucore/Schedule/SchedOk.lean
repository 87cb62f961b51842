import Ucore.Schedule.Sched

/-!
# The run-queue invariant

A process is in a queue exactly when it could run and no processor runs it.
-/

namespace Ucore.Schedule

open Ucore.Lib Function

namespace Sched

variable {s s' s₁ : Sched} {c p j : Nat} {x y : Task} {want : Nat → Prop}

def Ready (s : Sched) (p : Nat) : Prop :=
  ∃ x, s.task p = some x ∧ x.state = .runnable ∧ s.cpus ≤ x.pid ∧ ∀ c < s.cpus, s.current c ≠ p

structure Seats (s : Sched) : Prop where
  idle : ∀ c < s.cpus, ∃ x, s.task (s.idle c) = some x ∧ x.state = .runnable ∧ x.pid = c
  pid : ∀ p x, s.task p = some x → x.pid < s.cpus → p = s.idle x.pid
  current : ∀ c < s.cpus, ∃ x, s.task (s.current c) = some x
  single : ∀ c < s.cpus, ∀ c' < s.cpus, s.current c = s.current c' → c = c'
  own : ∀ c < s.cpus, ∀ c' < s.cpus, s.current c = s.idle c' → c = c'
  others : ∀ c < s.cpus, s.lock ≠ some c → ∃ x, s.task (s.current c) = some x ∧ x.state = .runnable
  holder : ∀ c, s.lock = some c → c < s.cpus

structure Inv (s : Sched) : Prop where
  seats : s.Seats
  queued : s.Queued s.Ready

lemma view_inj (h : view x = view y) : x.state = y.state ∧ x.pid = y.pid ∧ x.waitState = y.waitState ∧ x.mm = y.mm := by
  simpa [view] using h

lemma Requeued.task_on (h : Requeued s s') (hx : s.task p = some x) : ∃ y, s'.task p = some y ∧ view y = view x := by
  have := h.task p
  rw [hx] at this
  simpa using this

lemma Requeued.task_back (h : Requeued s s') (hy : s'.task p = some y) : ∃ x, s.task p = some x ∧ view x = view y := by
  have := h.task p
  rw [hy] at this
  simpa using this.symm

lemma Requeued.ready_iff (h : Requeued s s') : s'.Ready p ↔ s.Ready p := by
  constructor
  · grind [view_inj, h.task_back, h.cpus, h.current, Ready]
  · grind [view_inj, h.task_on, h.cpus, h.current, Ready]

lemma Seats.requeued (h : s.Seats) (hr : Requeued s s') : s'.Seats := by
  constructor
  case idle => grind [view_inj, hr.cpus, h.idle, hr.task_on, hr.idle]
  case pid =>
    intro p y hy hlt
    obtain ⟨x, hx, hv⟩ := hr.task_back hy
    obtain ⟨-, h2, -⟩ := view_inj hv
    rw [hr.idle, ← h2]
    exact h.pid p x hx (by rw [h2, ← hr.cpus]; exact hlt)
  case current => grind [hr.cpus, h.current, hr.task_on, hr.current]
  case single =>
    rw [hr.cpus, hr.current]
    exact h.single
  case own =>
    rw [hr.cpus, hr.current, hr.idle]
    exact h.own
  case others => grind [view_inj, hr.cpus, hr.lock, h.others, hr.task_on, hr.current]
  case holder =>
    rw [hr.lock, hr.cpus]
    exact h.holder

lemma Queued.copy {t : Sched} (h : s.Queued want) (hq : t.queue = s.queue) (hn : t.procNum = s.procNum)
    (ht : ∀ p, want p → t.task p = s.task p) : t.Queued want := by
  refine ⟨by rw [hq]; exact h.nodup, by rw [hq]; exact h.one, ?_, by rw [hq, hn]; exact h.num, ?_⟩
  · intro p
    rw [← h.mem p, Linked, Linked, hq]
  · intro p q hp
    rw [hq] at hp
    rw [ht p ((h.mem p).mp ⟨q, hp⟩)]
    exact h.slice p q hp

lemma not_ready_current (hc : c < s.cpus) : ¬ s.Ready (s.current c) := fun ⟨_, _, _, _, hcur⟩ => hcur c hc rfl

lemma Inv.setCurrent (h : s.Inv) (hl : s.lock = some c) (hx : s.task (s.current c) = some x) (hpid : y.pid = x.pid)
    (hidle : s.current c = s.idle c → y.state = .runnable) : (s.set (s.current c) y).Inv := by
  have hc := h.seats.holder c hl
  have hself : (s.set (s.current c) y).task (s.current c) = some y := update_self ..
  have hother : ∀ p ≠ s.current c, (s.set (s.current c) y).task p = s.task p := fun p hp => update_of_ne hp ..
  refine ⟨⟨?_, ?_, ?_, h.seats.single, h.seats.own, ?_, h.seats.holder⟩, ?_⟩
  · intro c' hc'
    obtain ⟨z, hz, hstate, hpid'⟩ := h.seats.idle c' hc'
    by_cases hcur : s.idle c' = s.current c
    · have hcc := h.seats.own c hc c' hc' hcur.symm
      subst hcc
      rw [hcur, hx] at hz
      cases hz
      exact ⟨y, hcur ▸ hself, hidle hcur.symm, hpid.trans hpid'⟩
    · exact ⟨z, (hother _ hcur).trans hz, hstate, hpid'⟩
  · intro p z hz hlt
    by_cases hp : p = s.current c
    · subst hp
      obtain rfl := Option.some.inj (hself.symm.trans hz)
      have := h.seats.pid _ x hx (hpid ▸ hlt)
      rw [hpid]
      exact this
    · exact h.seats.pid p z ((hother p hp).symm.trans hz) hlt
  · intro c' hc'
    obtain ⟨z, hz⟩ := h.seats.current c' hc'
    by_cases hp : s.current c' = s.current c
    · exact ⟨y, hp ▸ hself⟩
    · exact ⟨z, (hother _ hp).trans hz⟩
  · intro c' hc' hl'
    obtain ⟨z, hz, hstate⟩ := h.seats.others c' hc' hl'
    refine ⟨z, (hother _ fun heq => hl' ?_).trans hz, hstate⟩
    rw [h.seats.single c' hc' c hc heq]
    exact hl
  · refine (h.queued.copy (t := s.set (s.current c) y) rfl rfl fun p hp => ?_).congr fun p => ?_
    · grind [not_ready_current]
    by_cases hp : p = s.current c
    · subst hp
      exact iff_of_false (not_ready_current hc) (not_ready_current (s := s.set _ y) hc)
    · simp only [Ready, hother p hp]
      exact Iff.rfl

lemma Inv.other (h : s.Inv) : { s with timers := t, lapic := l }.Inv :=
  ⟨⟨h.seats.idle, h.seats.pid, h.seats.current, h.seats.single, h.seats.own, h.seats.others, h.seats.holder⟩,
    h.queued.copy rfl rfl fun _ _ => rfl⟩

lemma Seats.ne_idle (h : s.Seats) (hx : s.task p = some x) (hpid : s.cpus ≤ x.pid) (hc : c < s.cpus) : s.idle c ≠ p := by
  grind [h.idle]

lemma set_self : (s.set p y).task p = some y := update_self ..

lemma set_other (hj : j ≠ p) : (s.set p y).task j = s.task j := update_of_ne hj ..

lemma Seats.set (h : s.Seats) (hcur : ∀ c < s.cpus, s.current c ≠ p) (hidle : ∀ c < s.cpus, s.idle c ≠ p)
    (hy : s.cpus ≤ y.pid) : (s.set p y).Seats := by
  constructor
  case idle =>
    intro c hc
    obtain ⟨x, hx, hx'⟩ := h.idle c hc
    exact ⟨x, (set_other (hidle c hc)).trans hx, hx'⟩
  case pid =>
    intro j z hz hlt
    by_cases hj : j = p
    · subst hj
      obtain rfl := Option.some.inj (set_self.symm.trans hz)
      exact absurd hlt (Nat.not_lt.mpr hy)
    · exact h.pid j z ((set_other hj).symm.trans hz) hlt
  case current =>
    intro c hc
    obtain ⟨x, hx⟩ := h.current c hc
    exact ⟨x, (set_other (hcur c hc)).trans hx⟩
  case single => exact h.single
  case own => exact h.own
  case others =>
    intro c hc hl
    obtain ⟨x, hx, hx'⟩ := h.others c hc hl
    exact ⟨x, (set_other (hcur c hc)).trans hx, hx'⟩
  case holder => exact h.holder

def Elsewhere (e : Panic) : Prop := e ≠ .runLink ∧ e ≠ .hang

structure Held (c : Nat) (s : Sched) : Prop where
  inv : s.Inv
  lock : s.lock = some c

lemma Held.lt (h : s.Held c) : c < s.cpus := h.inv.seats.holder c h.lock

lemma ready_set (hcur : ∀ c < s.cpus, s.current c ≠ p) (hstate : y.state = .runnable) (hpid : s.cpus ≤ y.pid) :
    (s.set p y).Ready j ↔ s.Ready j ∨ j = p := by
  by_cases hj : j = p
  · subst hj
    exact iff_of_true ⟨y, update_self .., hstate, hpid, hcur⟩ (.inr rfl)
  have : (s.set p y).task j = s.task j := update_of_ne hj ..
  simp only [Ready, this, hj, or_false]
  exact Iff.rfl

lemma wakeupProc_ok (h : s.Held c) : Safe Elsewhere (s.wakeupProc c p) (Held c) := by
  unfold wakeupProc get
  cases hx : s.task p with
  | none => exact ⟨nofun, nofun⟩
  | some x =>
    simp only [bind, Except.bind]
    split
    · exact ⟨nofun, nofun⟩
    split
    · rename_i hrun
      split
      · rename_i hne
        split
        · rename_i hpid
          have hpid : s.cpus ≤ x.pid := hpid
          have hcur : ∀ c' < s.cpus, s.current c' ≠ p := by
            intro c' hc' heq
            have hcc : s.lock ≠ some c' := by
              rw [h.lock]
              rintro ⟨⟩
              exact hne heq.symm
            obtain ⟨y, hy, hstate⟩ := h.inv.seats.others c' hc' hcc
            rw [heq, hx] at hy
            exact hrun (Option.some.inj hy ▸ hstate)
          have hidle : ∀ c' < s.cpus, s.idle c' ≠ p := fun c' => h.inv.seats.ne_idle hx hpid
          have hnot : ¬ s.Ready p := by
            rintro ⟨y, hy, hstate, -⟩
            rw [hx] at hy
            exact hrun (Option.some.inj hy ▸ hstate)
          generalize hy : ({ x with state := .runnable, waitState := .none } : Task) = y
          have hseats := h.inv.seats.set (y := y) hcur hidle (by rw [← hy]; exact hpid)
          have hq : (s.set p y).Queued s.Ready := by
            refine h.inv.queued.copy rfl rfl fun j hj => update_of_ne ?_ ..
            rintro rfl
            exact hnot hj
          obtain ⟨s', hs', hq', hr⟩ := mlfqEnqueue_ok hq (update_self ..) hnot
          have hne' : p ≠ (s.set p y).idle c := (hidle c h.lt).symm
          rw [schedClassEnqueue, if_pos hne', hs']
          refine ⟨⟨hseats.requeued hr, hq'.congr fun j => ?_⟩, hr.lock.trans h.lock⟩
          rw [hr.ready_iff, ready_set hcur (by rw [← hy]) (by rw [← hy]; exact hpid)]
        · exact ⟨nofun, nofun⟩
      · rename_i heq
        obtain rfl : p = s.current c := not_not.mp heq
        exact ⟨h.inv.setCurrent h.lock hx rfl fun _ => rfl, h.lock⟩
    · exact h

lemma putBack_ok (h : s.Queued want) (hnd : head.Nodup)
    (hhead : ∀ p ∈ head, ¬ want p ∧ p ≠ s.idle c ∧ ∃ x, s.task p = some x) :
    ∃ s', putBack c head s = .ok s' ∧ s'.Queued (fun j => want j ∨ j ∈ head) ∧ Requeued s s' := by
  induction head generalizing s want with
  | nil => exact ⟨s, rfl, h.congr (by simp), .refl⟩
  | cons p head ih =>
    obtain ⟨hp, hidle, x, hx⟩ := hhead p (.head _ ..)
    obtain ⟨hnot, hnd⟩ := List.nodup_cons.mp hnd
    obtain ⟨s₁, hs1, hq1, hr1⟩ := mlfqEnqueue_ok h hx hp
    have hhead1 : ∀ j ∈ head, ¬ (want j ∨ j = p) ∧ j ≠ s₁.idle c ∧ ∃ x, s₁.task j = some x := by
      intro j hj
      obtain ⟨hw, hi, y, hy⟩ := hhead j (.tail _ hj)
      obtain ⟨z, hz, -⟩ := hr1.task_on hy
      refine ⟨?_, hr1.idle ▸ hi, z, hz⟩
      rintro (hj' | rfl)
      · exact hw hj'
      · exact hnot hj
    obtain ⟨s', hs', hq', hr'⟩ := ih hq1 hnd hhead1
    refine ⟨s', ?_, hq'.congr fun j => ?_, hr1.trans hr'⟩
    · rw [putBack, schedClassEnqueue, if_pos hidle, hs1]
      exact hs'
    · rw [List.mem_cons, or_assoc]

lemma waiting_unlink (h : p ∈ s.queue q) : (s.unlink q p).waiting + 1 = s.waiting := by
  have hpos := List.length_pos_of_mem h
  obtain rfl | rfl | rfl | rfl := (by decide : ∀ q : Fin 4, q = 0 ∨ q = 1 ∨ q = 2 ∨ q = 3) q
  all_goals
    simp [waiting, unlink, update, List.length_erase_of_mem h]
    omega

/-- The loop ends. It picks a process from the queues or none, and all others
are in the queues then. -/
lemma pickLoop_ok (h : s.Queued want) (hfuel : s.waiting < fuel) (hnd : head.Nodup)
    (hhead : ∀ p ∈ head, ¬ want p ∧ ∃ x, s.task p = some x) (hidle : ∀ p, want p ∨ p ∈ head → p ≠ s.idle c) :
    ∃ r s', pickLoop c fuel head s = .ok (r, s') ∧ (∀ p, r = some p → want p) ∧
      s'.Queued (fun j => (want j ∨ j ∈ head) ∧ r ≠ some j) ∧ Requeued s s' := by
  induction fuel generalizing s want head with
  | zero => exact absurd hfuel (Nat.not_lt_zero _)
  | succ fuel ih =>
    cases hp : s.mlfqPickNext with
    | none =>
      obtain ⟨s', hs', hq', hr'⟩ :=
        putBack_ok (c := c) h hnd fun p hm => ⟨(hhead p hm).1, hidle p (.inr hm), (hhead p hm).2⟩
      refine ⟨none, s', by simp [pickLoop, hp, hs', Except.map], nofun, hq'.congr (by simp), hr'⟩
    | some p =>
      obtain ⟨q, hmem⟩ := mlfqPickNext_some hp
      have hwant := (h.mem p).mp ⟨q, hmem⟩
      obtain ⟨x, hx, -⟩ := h.slice p q hmem
      have hnotmem : p ∉ head := fun hm => (hhead p hm).1 hwant
      have hpick :
        pickLoop c (fuel + 1) head s = if (s.unlink q p).busy x then pickLoop c fuel (p :: head) (s.unlink q p)
          else (putBack c head (s.unlink q p)).map fun s => (some p, s) := by
        simp only [pickLoop, hp, mlfqDequeue_ok h hmem, bind, Except.bind]
        rw [get_ok (s := s.unlink q p) hx]
      rw [hpick]
      have hrest := h.unlink hmem
      split
      · have hhead' : ∀ j ∈ p :: head, ¬ (want j ∧ j ≠ p) ∧ ∃ x, (s.unlink q p).task j = some x := by
          intro j hj
          rcases List.mem_cons.mp hj with rfl | hj
          · exact ⟨fun h => h.2 rfl, x, hx⟩
          · exact ⟨fun h => (hhead j hj).1 h.1, (hhead j hj).2⟩
        have hall : ∀ j, (want j ∧ j ≠ p) ∨ j ∈ p :: head ↔ want j ∨ j ∈ head := by
          intro j
          by_cases hj : j = p
          · simp [hj, hwant]
          · simp [hj]
        obtain ⟨r, s', hs', hr, hq', hreq⟩ := ih hrest (by have := waiting_unlink hmem; omega)
          (List.nodup_cons.mpr ⟨hnotmem, hnd⟩) hhead' fun j hj => hidle j ((hall j).mp hj)
        refine ⟨r, s', hs', fun j hj => (hr j hj).1, hq'.congr fun j => ?_, Requeued.unlink.trans hreq⟩
        rw [hall]
      · obtain ⟨s', hs', hq', hr'⟩ := putBack_ok (c := c) hrest hnd fun j hm =>
          ⟨fun h => (hhead j hm).1 h.1, hidle j (.inr hm), (hhead j hm).2⟩
        refine ⟨some p,
          s', by rw [hs']; rfl, fun j hj => Option.some.inj hj ▸ hwant, hq'.congr fun j => ?_, Requeued.unlink.trans hr'⟩
        by_cases hj : j = p
        · simp [hj, hnotmem]
        · simp [hj, Ne.symm hj]

def Free (s : Sched) (c p : Nat) : Prop :=
  ∃ x, s.task p = some x ∧ x.state = .runnable ∧ s.cpus ≤ x.pid ∧ ∀ c' < s.cpus, c' ≠ c → s.current c' ≠ p

lemma ready_iff_free (hc : c < s.cpus) : s.Ready j ↔ s.Free c j ∧ j ≠ s.current c := by
  constructor
  · rintro ⟨x, hx, hstate, hpid, hcur⟩
    exact ⟨⟨x, hx, hstate, hpid, fun c' hc' _ => hcur c' hc'⟩, (hcur c hc).symm⟩
  · grind [Free, Ready]

lemma Requeued.free (h : Requeued s s') (hf : s.Free c j) : s'.Free c j := by
  grind [view_inj, h.task_on, h.cpus, h.current, Free]

lemma Requeued.symm_task (h : Requeued s s') : Requeued s' s :=
  ⟨h.cpus.symm, fun j => (h.task j).symm, h.current.symm, h.idle.symm, h.lapic.symm, h.timers.symm, h.lock.symm⟩

lemma Requeued.free_iff (h : Requeued s s') : s'.Free c j ↔ s.Free c j := ⟨h.symm_task.free, h.free⟩

lemma Free.ne_idle (hf : s.Free c p) (h : s.Seats) (hc : c' < s.cpus) : p ≠ s.idle c' := by
  obtain ⟨x, hx, -, hpid, -⟩ := hf
  exact (h.ne_idle hx hpid hc).symm

lemma enqueueCurrent_ok (h : s.Held c) (hy : s.task (s.current c) = some y)
    (hstate : y.state = x.state) (hpid : y.pid = x.pid) :
    ∃ s', s.enqueueCurrent c (s.current c) x = .ok s' ∧ s'.Queued (s.Free c) ∧ Requeued s s' := by
  have hready : ∀ j, s.Ready j ↔ s.Free c j ∧ j ≠ s.current c := fun j => ready_iff_free h.lt
  unfold enqueueCurrent
  split
  · rename_i hrun
    have hpid' : s.cpus ≤ y.pid := hpid ▸ hrun.2
    have hfree : s.Free c (s.current c) :=
      ⟨y, hy, hstate.trans hrun.1, hpid', fun c' hc' hne heq => hne (h.inv.seats.single c' hc' c h.lt heq)⟩
    obtain ⟨s', hs', hq, hr⟩ := mlfqEnqueue_ok h.inv.queued hy (not_ready_current h.lt)
    refine ⟨s', ?_, hq.congr fun j => ?_, hr⟩
    · rw [schedClassEnqueue, if_pos (hfree.ne_idle h.inv.seats h.lt)]
      exact hs'
    · by_cases hj : j = s.current c
      · exact iff_of_true (.inr hj) (hj ▸ hfree)
      · simp [hready, hj]
  · rename_i hrun
    refine ⟨s, rfl, h.inv.queued.congr fun j => (hready j).trans (and_iff_left_of_imp ?_), .refl⟩
    rintro ⟨z, hz, hzstate, hzpid, -⟩ rfl
    obtain rfl := Option.some.inj (hy.symm.trans hz)
    exact hrun ⟨hstate ▸ hzstate, hpid ▸ hzpid⟩

lemma procRun_ok (h : s.Seats) (hl : s.lock = some c) (hq : s.Queued fun j => s.Free c j ∧ j ≠ next)
    (hnext : s.Free c next ∨ next = s.idle c) : (s.procRun c next).Held c := by
  have hc := h.holder c hl
  have hself : (s.procRun c next).current c = next := update_self ..
  have hother : ∀ c' ≠ c, (s.procRun c next).current c' = s.current c' := fun c' hc' => update_of_ne hc' ..
  have htask : ∃ x, s.task next = some x ∧ x.state = .runnable := by
    rcases hnext with ⟨x, hx, hstate, -⟩ | rfl
    · exact ⟨x, hx, hstate⟩
    · grind [h.idle]
  have hcur : ∀ c' < s.cpus, c' ≠ c → s.current c' ≠ next := by
    intro c' hc' hne heq
    rcases hnext with ⟨_, -, -, -, hcur⟩ | rfl
    · exact hcur c' hc' hne heq
    · exact hne (h.own c' hc' c hc heq)
  have hidle : ∀ c' < s.cpus, c' ≠ c → s.idle c' ≠ next := by
    intro c' hc' hne heq
    rcases hnext with hf | rfl
    · exact hf.ne_idle h hc' heq.symm
    · grind [h.idle]
  refine ⟨⟨⟨h.idle, h.pid, ?_, ?_, ?_, ?_, h.holder⟩, ?_⟩, hl⟩
  · intro c' hc'
    by_cases hcc : c' = c
    · obtain ⟨x, hx, -⟩ := htask
      rw [hcc, hself]
      exact ⟨x, hx⟩
    · rw [hother c' hcc]
      exact h.current c' hc'
  · grind [h.single, procRun]
  · grind [h.own, procRun]
  · intro c' hc' hl'
    have hcc : c' ≠ c := fun heq => hl' (heq ▸ hl)
    rw [hother c' hcc]
    exact h.others c' hc' hl'
  · refine (hq.copy (t := s.procRun c next) rfl rfl fun _ _ => rfl).congr fun j => ?_
    rw [ready_iff_free (s := s.procRun c next) hc, hself]
    refine and_congr_left fun _ => ?_
    constructor
    · rintro ⟨x, hx, hstate, hpid, hcur⟩
      exact ⟨x, hx, hstate, hpid, fun c' hc' hne => (hother c' hne).symm ▸ hcur c' hc' hne⟩
    · rintro ⟨x, hx, hstate, hpid, hcur⟩
      exact ⟨x, hx, hstate, hpid, fun c' hc' hne => hother c' hne ▸ hcur c' hc' hne⟩

end Sched

end Ucore.Schedule
