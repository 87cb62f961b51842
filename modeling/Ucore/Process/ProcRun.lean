import Ucore.Process.ProcLinks

/-!
# Runs of the process tree

Every call of `proc.c` keeps the families, the groups and the waits in order.
-/

namespace Ucore.Process.Procs

open Ucore.Lib Function
open Sync (WaitState)
open Sync.WaitState (ne_none_of_child)
open List (forall_mem_cons mem_cons_of_mem mem_cons mem_singleton)

-- Fork

variable {s s' t : Procs} {kids : Nat → List Nat} {p q w z a n : Nat} {l : List Nat} {e : ProcEvent}

def forked (p a : Nat) (thread : Bool) (c : PidCounter) (s : Procs) : Procs :=
  { (s.allocProc a c).setLinks p a with
    nextThread := if thread then Ring.insertBefore s.nextThread p a else s.nextThread
    state := update s.state a .runnable }

lemma Good.not_waiting (h : s.Good) (hp : s.state p = .runnable) : s.waitState p = .none := by
  grind [h.waits.asleep]

lemma fork_safe {thread : Bool} (h : s.Good) (hp : s.state p = .runnable) :
    Safe (· = .assertion) (s.fork p a thread) fun s' => s' = s ∨ ∃ c, s' = s.forked p a thread c ∧
    Pids.Inv ⟨s.lcpuCount, c.lastPid :: s.procList.map s.pid, c⟩ ∧ s.lcpuCount ≤ c.lastPid := by
  unfold fork
  by_cases hnr : maxProcess ≤ s.nrProcess
  · rw [if_pos hnr]
    exact .inl rfl
  rw [if_neg hnr, if_neg (by simpa using h.not_waiting hp)]
  obtain ⟨c, hget, -, hinv⟩ := h.shape.pids.addPid (by simpa [Pids.nrProcess, nrProcess] using Nat.lt_of_not_le hnr)
  dsimp only at hget
  rw [hget]
  by_cases hpid : s.lcpuCount ≤ c.lastPid
  · refine Safe.of_exists ⟨s.forked p a thread c, ?_, .inr ⟨c, rfl, hinv, hpid⟩⟩
    cases thread
    all_goals simp [wakeupProc, allocProc, setLinks, pushChild, forked, hpid]
  · cases thread
    all_goals simp [wakeupProc, allocProc, setLinks, pushChild, hpid]

lemma Family.forked (h : s.Family kids) (ha : a ∉ s.procList) (hkids : kids a = []) (thread : Bool) (c : PidCounter) :
    (s.forked p a thread c).Family (update kids p (a :: kids p)) := by
  have halloc : (s.allocProc a c).Family kids := by
    refine ⟨h.linked, fun t => ?_, h.nodup, h.mem⟩
    by_cases ht : t = a
    · subst ht
      simp [allocProc, hkids]
    · simp [allocProc, ht, h.head]
  have hpush := halloc.push (p := p) (q := a) ha
  exact ⟨hpush.linked, hpush.head, hpush.nodup, hpush.mem⟩

section Forked

variable {thread : Bool} {c : PidCounter}

lemma Shape.alone (h : s.Shape) (ha : a ∉ s.procList) : s.nextThread a = a := by
  by_contra hne
  exact ha (h.ring a hne).1

lemma Shape.parent_ne (h : s.Shape) (ha : a ∉ s.procList) (hcpu : s.lcpuCount ≤ a) (hq : q ∈ s.procList)
    (hpar : s.parent q = some p) : p ≠ a := by
  obtain ⟨p', hp', hex, -⟩ := h.parents q hq
  obtain rfl : p = p' := Option.some.inj (hpar.symm.trans hp')
  grind

lemma Shape.forked (h : s.Shape) (hp : p ∈ s.procList) (hrun : s.state p = .runnable) (ha : a ∉ s.procList)
    (hcpu : s.lcpuCount ≤ a) (hthread : thread = true → p ≠ s.initproc)
    (hinv : Pids.Inv ⟨s.lcpuCount, c.lastPid :: s.procList.map s.pid, c⟩) (hpid : s.lcpuCount ≤ c.lastPid) :
    (s.forked p a thread c).Shape := by
  have hne : ∀ q ∈ s.procList, q ≠ a := fun q hq heq => ha (heq ▸ hq)
  have hstate : ∀ q, q ≠ a → (s.forked p a thread c).state q = s.state q := fun q hq => update_of_ne hq ..
  have hnew : (s.forked p a thread c).state a = .runnable := update_self ..
  have hlist : (s.forked p a thread c).procList = a :: s.procList := rfl
  have hparent : (s.forked p a thread c).parent = update s.parent a (some p) := rfl
  have hpids : (s.forked p a thread c).pid = update s.pid a c.lastPid := rfl
  have halone := h.alone ha
  refine ⟨List.nodup_cons.mpr ⟨ha, h.list⟩, ?_, ?_, ?_, ⟨?_, ?_, ?_⟩, ?_, ?_, ?_⟩
  · rw [hlist]
    exact forall_mem_cons.mpr ⟨hcpu, h.above⟩
  · rw [hlist, hparent]
    refine forall_mem_cons.mpr ⟨⟨p, ?_, .inr (mem_cons_of_mem a hp), ?_⟩, fun q hq => ?_⟩
    · rw [update_self]
    · rw [hstate p (hne p hp), hrun]
      decide
    · obtain ⟨p', hp', hex, hz⟩ := h.parents q hq
      refine ⟨p', ?_, hex.imp_right (mem_cons_of_mem a), ?_⟩
      · rwa [update_of_ne (hne q hq)]
      · rwa [hstate p' (h.parent_ne ha hcpu hq hp')]
  · intro q hq
    rw [hstate q (Nat.ne_of_lt (Nat.lt_of_lt_of_le hq hcpu))]
    exact h.idle q hq
  · exact mem_cons_of_mem a h.init.1
  · rw [show (s.forked p a thread c).initproc = s.initproc from rfl, hstate _ (hne _ h.init.1)]
    exact h.init.2.1
  · change (if thread then Ring.insertBefore s.nextThread p a else s.nextThread) s.initproc = s.initproc
    cases thread with
    | false => exact h.init.2.2
    | true => rw [if_pos rfl, Ring.insertBefore_of_ne halone (hne _ h.init.1), h.init.2.2, if_neg (hthread rfl).symm]
  · intro q hq
    have hcases : q = a ∨ q = p ∨ s.nextThread q ≠ q := by
      cases thread with
      | false => exact .inr (.inr hq)
      | true => exact Ring.moved_of_insertBefore halone hq
    rcases hcases with rfl | rfl | hmoved
    · exact ⟨.head _, by rw [hnew]; decide⟩
    · exact ⟨mem_cons_of_mem a hp, by rw [hstate q (hne q hp), hrun]; decide⟩
    · obtain ⟨hq, hz⟩ := h.ring q hmoved
      exact ⟨mem_cons_of_mem a hq, by rwa [hstate q (hne q hq)]⟩
  · rw [hlist, hpids, List.map_cons, update_self]
    rwa [List.map_congr_left fun q hq => update_of_ne (hne q hq) ..]
  · rw [hlist, hpids]
    refine forall_mem_cons.mpr ⟨?_, fun q hq => ?_⟩
    · rwa [update_self]
    · rw [update_of_ne (hne q hq)]
      exact h.cpu q hq

lemma sameCycle_forked (halone : s.nextThread a = a) (hw : w ≠ a) (hq : q ≠ a) :
    (s.forked p a thread c).nextThread.SameCycle w q ↔ s.nextThread.SameCycle w q := by
  cases thread with
  | false => exact Iff.rfl
  | true => exact Ring.sameCycle_insertBefore halone hw hq

lemma Waits.forked (h : s.Waits) (hshape : s.Shape) (ha : a ∉ s.procList) (hcpu : s.lcpuCount ≤ a) :
    (s.forked p a thread c).Waits := by
  have hwait : (s.forked p a thread c).waitState = update s.waitState a .none := rfl
  have hstate : (s.forked p a thread c).state = update s.state a .runnable := rfl
  have hpid : (s.forked p a thread c).waitPid = update s.waitPid a none := rfl
  have hother : ∀ q, (s.forked p a thread c).waitState q ≠ .none → q ≠ a ∧
    s.waitState q = (s.forked p a thread c).waitState q := by
    intro q hq
    have hqa : q ≠ a := by
      rintro rfl
      exact hq (update_self ..)
    exact ⟨hqa, by rw [hwait, update_of_ne hqa]⟩
  refine ⟨fun q hq => ?_, fun q hq => ?_, ?_⟩
  · obtain ⟨hqa, heq⟩ := hother q hq
    obtain ⟨hsleep, hmem⟩ := h.asleep q (heq ▸ hq)
    exact ⟨by rw [hstate, update_of_ne hqa, hsleep], mem_cons_of_mem a hmem⟩
  · obtain ⟨hqa, heq⟩ := hother q (ne_none_of_child hq)
    rw [hpid, update_of_ne hqa]
    exact h.inside q (heq.trans hq)
  · rintro w pid z hw hwpid ⟨hz, hzombie, hor, par, hpar, hcycle⟩
    obtain ⟨hwa, heq⟩ := hother w (ne_none_of_child hw)
    have hza : z ≠ a := by
      rintro rfl
      rw [hstate, update_self] at hzombie
      cases hzombie
    have hz : z ∈ s.procList := (mem_cons.mp hz).resolve_left hza
    have hpar : s.parent z = some par := by
      rw [← hpar]
      exact (update_of_ne hza ..).symm
    have hor : pid = 0 ∨ s.pid z = pid := by
      rw [← show (s.forked p a thread c).pid z = s.pid z from update_of_ne hza ..]
      exact hor
    rw [hstate, update_of_ne hza] at hzombie
    rw [hpid, update_of_ne hwa] at hwpid
    have hcycle := (sameCycle_forked (hshape.alone ha) hwa (hshape.parent_ne ha hcpu hz hpar)).mp hcycle
    exact h.heard w pid z (heq.trans hw) hwpid ⟨hz, hzombie, hor, par, hpar, hcycle⟩

lemma Log.forked (h : s.Log) (ha : a ∉ s.procList) : (s.forked p a thread c).Log := by
  have hne : ∀ q ∈ s.procList, q ≠ a := fun q hq heq => ha (heq ▸ hq)
  have hlist : (s.forked p a thread c).procList = a :: s.procList := rfl
  have hnew : (s.forked p a thread c).serial a = s.born := update_self ..
  have hold : ∀ q ∈ s.procList, (s.forked p a thread c).serial q = s.serial q := fun q hq => update_of_ne (hne q hq) ..
  have hborn : (s.forked p a thread c).born = s.born + 1 := rfl
  refine ⟨?_, ?_, h.once, fun k => ?_⟩
  · rw [hlist, hborn]
    refine forall_mem_cons.mpr ⟨?_, fun q hq => ?_⟩
    · rw [hnew]
      exact Nat.lt_succ_self _
    · rw [hold q hq]
      exact Nat.lt_succ_of_lt (h.lt q hq)
  · intro q hq r hr heq
    rcases mem_cons.mp hq with rfl | hq
    · rcases mem_cons.mp hr with rfl | hr
      · rfl
      · rw [hnew, hold r hr] at heq
        exact absurd (h.lt r hr) (heq ▸ Nat.lt_irrefl _)
    rcases mem_cons.mp hr with rfl | hr
    · rw [hnew, hold q hq] at heq
      exact absurd (h.lt q hq) (heq ▸ Nat.lt_irrefl _)
    · rw [hold q hq, hold r hr] at heq
      exact h.inj q hq r hr heq
  · change k ∈ s.freed ↔ k < s.born + 1 ∧ ∀ q ∈ a :: s.procList, _
    rw [h.freed, forall_mem_cons, hnew]
    grind

end Forked

lemma Good.fork {thread : Bool} (h : s.Good) (hp : p ∈ s.procList) (hrun : s.state p = .runnable) (ha : a ∉ s.procList)
    (hcpu : s.lcpuCount ≤ a) (hthread : thread = true → p ≠ s.initproc) :
    Safe (· = .assertion) (s.fork p a thread) fun s' => s'.Good ∧
    ∀ q ∈ s.procList, q ∈ s'.procList ∧ s'.serial q = s.serial q := by
  refine (fork_safe h hrun).mono ?_
  rintro s' (rfl | ⟨c, rfl, hinv, hpid⟩)
  · exact ⟨h, fun q hq => ⟨hq, rfl⟩⟩
  obtain ⟨kids, hfam⟩ := h.family
  have hkids : kids a = [] := by
    refine List.eq_nil_iff_forall_not_mem.mpr fun q hq => ?_
    obtain ⟨hlist, hpar⟩ := (hfam.mem a q).mp hq
    exact h.shape.parent_ne ha hcpu hlist hpar rfl
  refine ⟨⟨⟨_, hfam.forked ha hkids thread c⟩, h.shape.forked hp hrun ha hcpu hthread hinv hpid,
    h.waits.forked h.shape ha hcpu, h.log.forked ha⟩, fun q hq => ⟨mem_cons_of_mem a hq, ?_⟩⟩
  have hne : q ≠ a := fun heq => ha (heq ▸ hq)
  exact update_of_ne hne ..

lemma Shape.unlinked (h : s.Shape) (p : Nat) : ({ s with nextThread := Ring.unlink s.nextThread p } : Procs).Shape := by
  refine ⟨h.list, h.above, h.parents, h.idle, ⟨h.init.1, h.init.2.1, ?_⟩, fun q hq => ?_, h.pids, h.cpu⟩
  · by_contra hne
    exact (Ring.moved_of_unlink hne).2 h.init.2.2
  · exact h.ring q (Ring.moved_of_unlink hq).2

lemma Accepts.of_unlinked {pid : Nat} (h : ({ s with nextThread := Ring.unlink s.nextThread p } : Procs).Accepts w pid z)
    (hw : w ≠ p) : s.Accepts w pid z := by
  grind [Equiv.Perm.SameCycle.symm, Ring.unlink_self, Ring.eq_of_alone, Ring.sameCycle_unlink, Accepts]

lemma Good.exec (h : s.Good) (hrun : s.state p = .runnable) :
    ({ s with nextThread := Ring.unlink s.nextThread p } : Procs).Good := by
  obtain ⟨kids, hfam⟩ := h.family
  refine ⟨⟨kids, hfam.linked, hfam.head, hfam.nodup, hfam.mem⟩, h.shape.unlinked p, ⟨h.waits.asleep, h.waits.inside, ?_⟩,
    h.log.lt, h.log.inj, h.log.once, h.log.freed⟩
  intro w pid z hw hpid hacc
  have hwp : w ≠ p := by
    rintro rfl
    exact ne_none_of_child hw (h.not_waiting hrun)
  exact h.waits.heard w pid z hw hpid (hacc.of_unlinked hwp)

def slept (p : Nat) (ws : WaitState) (k : Option Nat) (s : Procs) : Procs :=
  { s with state := update s.state p .sleeping, waitState := update s.waitState p ws, waitPid := update s.waitPid p k }

lemma Good.slept {ws : WaitState} {k : Option Nat} (h : s.Good) (hp : p ∈ s.procList) (hrun : s.state p = .runnable)
    (hk : ws = .child → ∃ pid, k = some pid ∧ ∀ z, ¬ s.Accepts p pid z) : (s.slept p ws k).Good := by
  obtain ⟨kids, hfam⟩ := h.family
  have hshape := h.shape
  have hzombie : ∀ q, (s.slept p ws k).state q = .zombie → s.state q = .zombie := by
    intro q hq
    by_cases hqp : q = p
    · subst hqp
      rw [show (s.slept q ws k).state q = .sleeping from update_self ..] at hq
      cases hq
    · rwa [← show (s.slept p ws k).state q = s.state q from update_of_ne hqp ..]
  refine ⟨⟨kids, hfam.linked, hfam.head, hfam.nodup, hfam.mem⟩,
    ⟨hshape.list, hshape.above, ?_, ?_, ?_, ?_, hshape.pids, hshape.cpu⟩,
    ⟨?_, ?_, ?_⟩, h.log.lt, h.log.inj, h.log.once, h.log.freed⟩
  · intro q hq
    obtain ⟨par, hpar, hex, hz⟩ := hshape.parents q hq
    exact ⟨par, hpar, hex, mt (hzombie par) hz⟩
  · intro q hq
    have hqp : q ≠ p := by
      rintro rfl
      exact absurd (hshape.above q hp) (Nat.not_le.mpr hq)
    exact (update_of_ne hqp ..).trans (hshape.idle q hq)
  · exact ⟨hshape.init.1, mt (hzombie _) hshape.init.2.1, hshape.init.2.2⟩
  · exact fun q hq => ⟨(hshape.ring q hq).1, mt (hzombie q) (hshape.ring q hq).2⟩
  · intro q hq
    by_cases hqp : q = p
    · subst hqp
      exact ⟨update_self .., hp⟩
    have hw : s.waitState q ≠ .none := by
      rwa [← show (s.slept p ws k).waitState q = s.waitState q from update_of_ne hqp ..]
    exact ⟨(update_of_ne hqp ..).trans (h.waits.asleep q hw).1, (h.waits.asleep q hw).2⟩
  · intro q hq
    by_cases hqp : q = p
    · subst hqp
      obtain ⟨pid, hpid, -⟩ := hk ((update_self ..).symm.trans hq)
      exact ⟨pid, (update_self ..).trans hpid⟩
    · obtain ⟨pid, hpid⟩ := h.waits.inside q ((update_of_ne hqp ..).symm.trans hq)
      exact ⟨pid, (update_of_ne hqp ..).trans hpid⟩
  · rintro w pid z hw hpid ⟨hz, hstate, hacc⟩
    by_cases hwp : w = p
    · subst hwp
      obtain ⟨pid', hpid', hnone⟩ := hk ((update_self ..).symm.trans hw)
      obtain rfl : pid = pid' := by
        have hself : (s.slept w ws k).waitPid w = k := update_self ..
        exact Option.some.inj ((hpid.symm.trans hself).trans hpid')
      exact hnone z ⟨hz, hzombie z hstate, hacc⟩
    · exact h.waits.heard w pid z ((update_of_ne hwp ..).symm.trans hw) ((update_of_ne hwp ..).symm.trans hpid)
        ⟨hz, hzombie z hstate, hacc⟩

lemma Good.returned (h : s.Good) (hrun : s.state p = .runnable) (k : Option Nat) :
    ({ s with waitPid := update s.waitPid p k } : Procs).Good := by
  obtain ⟨kids, hfam⟩ := h.family
  have hne : ∀ q, s.waitState q = .child → q ≠ p := by
    rintro q hq rfl
    exact ne_none_of_child hq (h.not_waiting hrun)
  refine ⟨⟨kids, hfam.linked, hfam.head, hfam.nodup, hfam.mem⟩, ?_, ⟨h.waits.asleep, fun q hq => ?_, ?_⟩,
    h.log.lt, h.log.inj, h.log.once, h.log.freed⟩
  · exact ⟨h.shape.list, h.shape.above, h.shape.parents, h.shape.idle, h.shape.init, h.shape.ring,
      h.shape.pids, h.shape.cpu⟩
  · grind [h.waits.inside]
  · intro w pid z hw hpid hacc
    exact h.waits.heard w pid z hw ((update_of_ne (hne w hw) ..).symm.trans hpid) hacc

-- Exit

def heir (s : Procs) (p : Nat) : Nat := if s.nextThread p = p then s.initproc else s.nextThread p

structure Exited (p : Nat) (s s' : Procs) : Prop where
  notInit : p ≠ s.initproc
  links : ∃ kids, s'.Family kids
  eq : s' = { s'.relink s' with
    lcpuCount := s.lcpuCount, procList := s.procList, counter := s.counter, pid := s.pid, serial :=
      s.serial, born := s.born
    freed := s.freed, nextThread := Ring.unlink s.nextThread p, waitPid := update s.waitPid p none }
  zombie : ∀ q, s'.state q = .zombie ↔ q = p ∨ s.state q = .zombie
  runnable : ∀ q, q ≠ p → s.state q = .runnable → s'.state q = .runnable
  still : ∀ q, s'.waitState q ≠ .none → s.waitState q = s'.waitState q ∧ (q ≠ p → s'.state q = s.state q)
  parent : ∀ q ∈ s.procList, s'.parent q = if s.parent q = some p then some (s.heir p) else s.parent q
  told : ∀ par w, s.parent p = some par → s.nextThread.SameCycle par w → s'.waitState w ≠ .child
  heard : ∀ z ∈ s.procList, s.parent z = some p → (z = p ∨ s.state z = .zombie) → s'.waitState (s.heir p) ≠ .child

lemma Shape.heir_ok (h : s.Shape) (hp : p ≠ s.initproc) :
    s.heir p ≠ p ∧ s.heir p ∈ s.procList ∧ s.state (s.heir p) ≠ .zombie := by
  unfold heir
  by_cases halone : s.nextThread p = p
  · grind [h.init]
  · rw [if_neg halone]
    exact ⟨halone, h.ring _ fun hfix => halone (s.nextThread.injective hfix)⟩

lemma doExit_ok (h : s.Good) (hp : p ∈ s.procList) (hrun : s.state p = .runnable) :
    Safe (· = .initExit) (s.doExit p) (Exited p s) := by
  obtain ⟨kids, hfam⟩ := h.family
  unfold doExit
  by_cases hinit : p < s.lcpuCount ∨ p = s.initproc
  · rw [if_pos hinit]
    rfl
  rw [if_neg hinit]
  obtain ⟨par, hpar, -⟩ := h.shape.parents p hp
  rw [hpar]
  dsimp only
  -- the process is a zombie, and the group of its parent is woken
  set s1 : Procs := { s with state := update s.state p .zombie, waitPid := update s.waitPid p none } with hs1
  have hwake : s1.Wakeable := by
    intro q hq
    have hqp : q ≠ p := by
      rintro rfl
      exact hq (h.not_waiting hrun)
    exact ⟨(update_of_ne hqp ..).trans (h.wakeable q hq).1, (h.wakeable q hq).2⟩
  obtain ⟨t, ht, hr, htold⟩ := wakeRing_ok hwake h.shape rfl par
  have hrounds : t.rounds = s.rounds := by rw [hr.eq]; rfl
  have hheir : (if t.nextThread p = p then t.initproc else t.nextThread p) = s.heir p := by rw [hr.eq]; rfl
  have hfam1 : t.Family kids := Family.roused (s := s1) ⟨hfam.linked, hfam.head, hfam.nodup, hfam.mem⟩ hr
  have hwake' : t.Wakeable := hwake.roused hr
  -- it leaves its own group, and its children go to the heir
  set t1 : Procs := { t with nextThread := Ring.unlink t.nextThread p } with ht1
  have hsplice : t1.Splice p kids :=
    ⟨(hfam1.linked p).forward, fun q _ => hfam1.linked q, hfam1.head, hfam1.nodup, hfam1.mem⟩
  obtain ⟨hne, -, -⟩ := h.shape.heir_ok fun heq => hinit (.inr heq)
  obtain ⟨s', kids', hs', hfam', hr', hparent, hheard⟩ := adopt_ok hsplice hne hwake' (hfam.length_lt p)
  refine Safe.of_exists ⟨s', ?_, ?_⟩
  · rw [ht]
    change t1.adopt t.rounds p (if t.nextThread p = p then t.initproc else t.nextThread p) = _
    rw [hheir, hrounds, hs']
  have hstate1 : ∀ q, q ≠ p → s1.state q = s.state q := fun q hq => update_of_ne hq ..
  have hself1 : s1.state p = .zombie := update_self ..
  have hzombie1 : ∀ q, s1.state q = .zombie ↔ q = p ∨ s.state q = .zombie := by
    intro q
    by_cases hq : q = p
    · subst hq
      simp [hself1]
    · simp [hstate1 q hq, hq]
  refine ⟨fun heq => hinit (.inr heq), ⟨kids', hfam'⟩, ?_, fun q => ?_, fun q hq hqrun => ?_,
    fun q hq => ?_, fun q hq => ?_, fun par' w hpar' hcycle hw => ?_,
    fun z hz hzp hdead => ?_⟩
  · rw [hr'.eq, ht1, hr.eq]
    rfl
  · rw [hr'.zombie_iff]
    exact hr.zombie_iff.trans (hzombie1 q)
  · exact hr'.runnable (hr.runnable ((hstate1 q hq).trans hqrun))
  · obtain ⟨h1, h2⟩ := hr'.waitState hq
    obtain ⟨h3, h4⟩ := hr.waitState (p := q) (h2 ▸ hq)
    exact ⟨(h2.trans h4).symm, fun hqp => (h1.trans h3).trans (hstate1 q hqp)⟩
  · have htp : t1.parent = s.parent := by rw [ht1, hr.eq]
    rw [hparent, htp]
    simp only [hfam.mem, hq, true_and]
  · obtain rfl : par = par' := Option.some.inj (hpar.symm.trans hpar')
    exact htold w hcycle ((hr'.waitState (ne_none_of_child hw)).2 ▸ hw)
  · exact hheard z ((hfam.mem p z).mpr ⟨hz, hzp⟩) (hr.zombie_iff.mpr ((hzombie1 z).mpr hdead))

lemma Exited.shape (h : Exited p s s') (hs : s.Shape) (hp : p ∈ s.procList) : s'.Shape := by
  have hinit := h.notInit
  have hzombie := h.zombie
  have hrun := h.runnable
  have hparent := h.parent
  obtain ⟨hne, hheir, halive⟩ := hs.heir_ok hinit
  have hlives : ∀ q, q ≠ p → s.state q ≠ .zombie → s'.state q ≠ .zombie := fun q hq hz hz' => by
    exact ((hzombie q).mp hz').elim hq hz
  have hun := hs.unlinked p
  rw [h.eq]
  refine ⟨hs.list, hs.above, fun q hq => ?_, fun q hq => ?_, ⟨hs.init.1, ?_, hun.init.2.2⟩,
    fun q hq => ?_, hs.pids, hs.cpu⟩
  · change ∃ par, s'.parent q = some par ∧ (par < s.lcpuCount ∨ par ∈ s.procList) ∧ s'.state par ≠ .zombie
    rw [hparent q hq]
    by_cases hqp : s.parent q = some p
    · rw [if_pos hqp]
      exact ⟨_, rfl, .inr hheir, hlives _ hne halive⟩
    obtain ⟨par, hpar, hex, hz⟩ := hs.parents q hq
    rw [if_neg hqp]
    refine ⟨par, hpar, hex, hlives par ?_ hz⟩
    rintro rfl
    exact hqp hpar
  · refine hrun q ?_ (hs.idle q hq)
    rintro rfl
    exact absurd (hs.above q hp) (Nat.not_le.mpr hq)
  · exact hlives _ hinit.symm hs.init.2.1
  · obtain ⟨hq', hz⟩ := hun.ring q hq
    exact ⟨hq', hlives q (Ring.moved_of_unlink hq).1 hz⟩

lemma Exited.waits (h : Exited p s s') (hs : s.Good) (hrun : s.state p = .runnable) : s'.Waits := by
  have hne : ∀ q, s'.waitState q ≠ .none → q ≠ p := by
    rintro q hq rfl
    exact hq ((h.still q hq).1 ▸ hs.not_waiting hrun)
  have hlist : s'.procList = s.procList := by rw [h.eq]
  have hpid : s'.pid = s.pid := by rw [h.eq]
  have hnext : s'.nextThread = Ring.unlink s.nextThread p := by rw [h.eq]
  have hwaitPid : ∀ q, q ≠ p → s'.waitPid q = s.waitPid q := by
    intro q hq
    rw [h.eq]
    exact update_of_ne hq ..
  refine ⟨fun q hq => ?_, fun q hq => ?_, ?_⟩
  · obtain ⟨heq, hstate⟩ := h.still q hq
    grind [hs.waits.asleep]
  · have hq' := ne_none_of_child hq
    rw [hwaitPid q (hne q hq')]
    exact hs.waits.inside q ((h.still q hq').1.trans hq)
  · rintro w pid z hw hwpid ⟨hz, hzombie, hor, par, hpar, hcycle⟩
    have hw' := ne_none_of_child hw
    have hwp := hne w hw'
    have hwait : s.waitState w = .child := (h.still w hw').1.trans hw
    rw [hwaitPid w hwp] at hwpid
    rw [hlist] at hz
    rw [hpid] at hor
    rw [hnext] at hcycle
    rw [h.parent z hz] at hpar
    have hdead := (h.zombie z).mp hzombie
    -- A zombie that `w` accepts was one before or is `p`, of which the group of its parent hears.
    have hbefore : ∀ par, s.parent z = some par → ¬ s.nextThread.SameCycle w par := by
      intro par0 hpar0 hcycle0
      rcases hdead with rfl | hdead
      · exact h.told par0 w hpar0 hcycle0.symm hw
      · exact hs.waits.heard w pid z hwait hwpid ⟨hz, hdead, hor, par0, hpar0, hcycle0⟩
    by_cases hzp : s.parent z = some p
    · rw [if_pos hzp] at hpar
      cases hpar
      have hheir : w ≠ s.heir p := by
        rintro rfl
        exact h.heard z hz hzp hdead hw
      have hold := (Ring.sameCycle_unlink hwp (hs.shape.heir_ok h.notInit).1).mp hcycle
      by_cases halone : s.nextThread p = p
      · rw [heir, if_pos halone] at hold hheir
        exact hheir (Ring.eq_of_alone hs.shape.init.2.2 hold.symm)
      · rw [heir, if_neg halone] at hold
        exact hbefore p hzp (Equiv.Perm.sameCycle_apply_right.mp hold)
    · grind [Ring.sameCycle_unlink]

lemma Exited.log (h : Exited p s s') (hs : s.Log) : s'.Log := by
  rw [h.eq]
  exact ⟨hs.lt, hs.inj, hs.once, hs.freed⟩

lemma Good.doExit (h : s.Good) (hp : p ∈ s.procList) (hrun : s.state p = .runnable) :
    Safe (· = .initExit) (s.doExit p) fun s' => s'.Good ∧ Exited p s s' :=
  (doExit_ok h hp hrun).mono fun _ he => ⟨⟨he.links, he.shape h.shape hp, he.waits h hrun, he.log h.log⟩, he⟩

-- Wait

structure Freed (z : Nat) (s s' : Procs) : Prop where
  list : s'.procList = s.procList.erase z
  serial : s'.serial = s.serial
  freed : s'.freed = s.freed ++ [s.serial z]

lemma Shape.removed (h : s.Shape) (hz : s.state z = .zombie) :
    ({ s.removeLinks p z with freed := l } : Procs).Shape := by
  have hmem : ∀ q, s.state q ≠ .zombie → q ∈ s.procList → q ∈ s.procList.erase z := by
    intro q hq hmem
    refine (h.list.mem_erase_iff).mpr ⟨?_, hmem⟩
    rintro rfl
    exact hq hz
  have hold : ∀ q, q ∈ s.procList.erase z → q ∈ s.procList := fun q => List.mem_of_mem_erase
  refine ⟨h.list.erase z, fun q hq => h.above q (hold q hq), fun q hq => ?_, h.idle, ⟨?_, h.init.2⟩, fun q hq => ?_, ?_,
    fun q hq => h.cpu q (hold q hq)⟩
  · obtain ⟨par, hpar, hex, halive⟩ := h.parents q (hold q hq)
    exact ⟨par, hpar, hex.imp_right (hmem par halive), halive⟩
  · exact hmem _ h.init.2.1 h.init.1
  · exact ⟨hmem q (h.ring q hq).2 (h.ring q hq).1, (h.ring q hq).2⟩
  · exact h.pids.sublist (List.erase_sublist.map _)

lemma Waits.removed (h : s.Waits) (hz : s.state z = .zombie) :
    ({ s.removeLinks p z with freed := l } : Procs).Waits := by
  refine ⟨fun q hq => ?_, h.inside, ?_⟩
  · obtain ⟨hsleep, hmem⟩ := h.asleep q hq
    grind [removeLinks]
  · rintro w pid z' hw hpid ⟨hmem, hacc⟩
    exact h.heard w pid z' hw hpid ⟨List.mem_of_mem_erase hmem, hacc⟩

lemma Log.removed (h : s.Log) (hlist : s.procList.Nodup) (hz : z ∈ s.procList) :
    ({ s.removeLinks p z with freed := s.freed ++ [s.serial z] } : Procs).Log := by
  have hold : ∀ q, q ∈ s.procList.erase z → q ∈ s.procList := fun q => List.mem_of_mem_erase
  have hnot : s.serial z ∉ s.freed := fun hmem => ((h.freed _).mp hmem).2 z hz rfl
  refine ⟨fun q hq => h.lt q (hold q hq), fun q hq r hr => h.inj q (hold q hq) r (hold r hr), ?_, fun k => ?_⟩
  · exact List.nodup_append.mpr
      ⟨h.once, List.nodup_singleton _, fun a ha b hb heq => hnot (mem_singleton.mp hb ▸ heq ▸ ha)⟩
  change k ∈ s.freed ++ [s.serial z] ↔ k < s.born ∧ ∀ q ∈ s.procList.erase z, s.serial q ≠ k
  rw [List.mem_append, mem_singleton, h.freed]
  constructor
  · grind [h.lt, h.inj]
  · rintro ⟨hk, hall⟩
    by_cases hkz : k = s.serial z
    · exact .inr hkz
    · grind

lemma Good.reap (h : s.Good) (hz : z ∈ s.procList) (hzombie : s.state z = .zombie) :
    ∃ s', s.reap z = .ok s' ∧ s'.Good ∧ Freed z s s' := by
  obtain ⟨kids, hfam⟩ := h.family
  obtain ⟨par, hpar, -⟩ := h.shape.parents z hz
  have hguard : ¬ (z < s.lcpuCount ∨ z = s.initproc) := by
    rintro (hlt | rfl)
    · exact absurd (h.shape.above z hz) (Nat.not_le.mpr hlt)
    · exact h.shape.init.2.1 hzombie
  have hrem := hfam.remove h.shape.list ((hfam.mem par z).mpr ⟨hz, hpar⟩)
  refine ⟨{ s.removeLinks par z with freed := s.freed ++ [s.serial z] }, ?_,
    ⟨⟨_, hrem.linked, hrem.head, hrem.nodup, hrem.mem⟩, h.shape.removed hzombie, h.waits.removed hzombie,
      h.log.removed h.shape.list hz⟩, rfl, rfl, rfl⟩
  rw [Procs.reap, if_neg hguard, hpar]

lemma Good.doWait (h : s.Good) (hp : p ∈ s.procList) (hrun : s.state p = .runnable) (pid : Nat) :
    ∃ s', s.doWait p pid = .ok s' ∧ s'.Good ∧ ((∃ z, s.Accepts p pid z ∧ Freed z s s') ∨
        (∀ z, ¬ s.Accepts p pid z) ∧ s'.procList = s.procList ∧ s'.serial = s.serial ∧ s'.freed = s.freed) := by
  obtain ⟨kids, hfam⟩ := h.family
  obtain ⟨⟨haskid, found⟩, hscan, hsome, hnone⟩ := scan_ok hfam h.shape p pid
  unfold Procs.doWait
  rw [hscan]
  cases found with
  | some z =>
    have hacc := hsome z rfl
    obtain ⟨s', hs', hgood, hfreed⟩ := (h.returned hrun none).reap hacc.1 hacc.2.1
    exact ⟨s', hs', hgood, .inl ⟨z, hacc, hfreed.list, hfreed.serial, hfreed.freed⟩⟩
  | none =>
    cases haskid with
    | true =>
      have hgood : (s.slept p .child (some pid)).Good := h.slept hp hrun fun _ => ⟨pid, rfl, hnone rfl⟩
      exact ⟨_, rfl, hgood, .inr ⟨hnone rfl, rfl, rfl, rfl⟩⟩
    | false => exact ⟨_, rfl, h.returned hrun none, .inr ⟨hnone rfl, rfl, rfl, rfl⟩⟩

-- Runs

def Passage (s : Procs) (e : ProcEvent) (s' : Procs) : Prop :=
  ∀ q ∈ s.procList, q ∈ s'.procList ∧ s'.serial q = s.serial q ∨
    ∃ p pid, (e = .wait p pid ∨ e = .resume p ∧ s.waitPid p = some pid) ∧ s.Accepts p pid q ∧ Freed q s s'

lemma Passage.of_same (hlist : s'.procList = s.procList) (hserial : s'.serial = s.serial) : Passage s e s' :=
  fun _ hq => .inl ⟨hlist ▸ hq, by rw [hserial]⟩

lemma Passage.of_freed {pid : Nat}
    (he : e = .wait p pid ∨ e = .resume p ∧ s.waitPid p = some pid) (hz : s.Accepts p pid z) (hfreed : Freed z s s') :
    Passage s e s' := by
  intro q hq
  grind [hfreed.serial, hfreed.list]

def Stops (e : ProcEvent) (x : Panic) : Prop := x = .initExit ∨ x = .assertion ∧ ∃ p a thread, e = .fork p a thread

lemma Good.exits (h : s.Good) (hr : Roused s t) (hp : p ∈ s.procList) (hrun : s.state p = .runnable) :
    Safe (Stops e) (t.doExit p) fun s' => s'.Good ∧ Passage s e s' := by
  have hlist : t.procList = s.procList := by rw [hr.eq]
  have hserial : t.serial = s.serial := by rw [hr.eq]
  refine (((h.roused hr).doExit (hlist ▸ hp) (hr.runnable hrun)).mono_error fun _ => .inl).mono ?_
  rintro s' ⟨hgood, he⟩
  exact ⟨hgood, .of_same (by rw [he.eq, ← hlist]) (by rw [he.eq, ← hserial])⟩

lemma Good.waits_for {pid : Nat} (h : s.Good) (hp : p ∈ s.procList) (hrun : s.state p = .runnable)
    (he : e = .wait p pid ∨ e = .resume p ∧ s.waitPid p = some pid) :
    Safe (Stops e) (s.doWait p pid) fun s' => s'.Good ∧ Passage s e s' := by
  obtain ⟨s', hs', hgood, hcases⟩ := h.doWait hp hrun pid
  refine Safe.of_exists ⟨s', hs', hgood, ?_⟩
  rcases hcases with ⟨z, hz, hfreed⟩ | ⟨-, hlist, hserial, -⟩
  · exact .of_freed he hz hfreed
  · exact .of_same hlist hserial

lemma Good.rouses {x : Except Panic Procs} (h : s.Good) (hx : ∃ s', x = .ok s' ∧ Roused s s') :
    Safe (Stops e) x fun s' => s'.Good ∧ Passage s e s' := by
  obtain ⟨s', rfl, hr⟩ := hx
  exact ⟨h.roused hr, .of_same (by rw [hr.eq]) (by rw [hr.eq])⟩

lemma step_ok (h : s.Good) (ha : s.Allowed e) : Safe (Stops e) (s.step e) fun s' => s'.Good ∧ Passage s e s' := by
  cases e with
  | fork p a thread =>
    obtain ⟨⟨hp, hrun, -⟩, hnew, hcpu, hthread⟩ := ha
    refine ((h.fork hp hrun hnew hcpu hthread).mono_error fun x hx => .inr ⟨hx, p, a, thread, rfl⟩).mono ?_
    exact fun s' hs' => ⟨hs'.1, fun q hq => .inl (hs'.2 q hq)⟩
  | exit p code =>
    have hr : Roused s { s with exitCode := update s.exitCode p code } := ⟨rfl, fun _ => .inl ⟨rfl, rfl⟩⟩
    exact h.exits hr ha.1 ha.2.1
  | mayKilled p =>
    rw [step]
    split
    · exact h.exits .refl ha.1 ha.2.1
    · exact ⟨h, .of_same rfl rfl⟩
  | killGroup p code => exact h.rouses (killRing_ok h p code)
  | kill p pid code => exact h.rouses (doKill_ok h.wakeable pid code)
  | wait p pid => exact h.waits_for ha.1 ha.2.1 (.inl rfl)
  | resume p =>
    rw [step]
    cases hpid : s.waitPid p with
    | none => exact ⟨h, .of_same rfl rfl⟩
    | some pid =>
      dsimp only [resume]
      split
      · exact h.exits .refl ha.1 ha.2
      · exact h.waits_for ha.1 ha.2 (.inr ⟨rfl, hpid⟩)
  | exec p => exact ⟨h.exec ha.2.1, .of_same rfl rfl⟩
  | sleep p w =>
    obtain ⟨⟨hp, hrun, -⟩, hw⟩ := ha
    have hgood : (s.slept p w (s.waitPid p)).Good := h.slept hp hrun fun hchild => absurd hchild hw.2
    rw [slept, Function.update_eq_self] at hgood
    exact ⟨hgood, .of_same rfl rfl⟩
  | wakeup q =>
    obtain ⟨s', hs', hr, -⟩ := wakeupProc_ok ha.2 (h.shape.cpu q ha.1)
    exact h.rouses ⟨s', hs', hr⟩

lemma boot_good (h0 : 0 < n) (hn : n < maxProcess) : (boot n).Good := by
  have hmax : maxProcess ≤ maxPid := by decide
  refine ⟨⟨fun p => if p = 0 then [n] else [], ?_⟩, ?_, ?_, ?_⟩
  · refine ⟨fun p => ?_, fun p => ?_, fun p => ?_, fun p q => ?_⟩
    · by_cases hp : p = 0
      · simp [hp, Lib.Linked, boot]
      · simp [hp, Lib.Linked]
    · grind [boot]
    · by_cases hp : p = 0
      · simp [hp]
      · simp [hp]
    · grind [boot]
  · refine ⟨List.nodup_singleton n, ?_, ?_, fun _ _ => rfl, ⟨.head _, ?_, rfl⟩, fun p => absurd rfl, ?_, ?_⟩
    · simp [boot]
    · intro q hq
      obtain rfl : q = n := mem_singleton.mp hq
      exact ⟨0, if_pos rfl, .inl h0, by simp [boot]⟩
    · simp [boot]
    · refine ⟨h0, le_rfl, ?_, ?_, List.nodup_singleton _⟩
      · intro q hq hlt
        obtain rfl : q = n := mem_singleton.mp hq
        exact absurd hlt (Nat.not_succ_le_self _)
      · intro q hq
        obtain rfl : q = n := mem_singleton.mp hq
        exact ⟨h0, Nat.lt_of_lt_of_le hn hmax⟩
    · simp [boot]
  · exact ⟨fun p => absurd rfl, (fun p hp => by cases hp), (fun w pid z hw => by cases hw)⟩
  · refine ⟨fun q _ => Nat.one_pos, ?_, List.nodup_nil, fun k => ?_⟩
    · intro q hq r hr _
      rw [mem_singleton.mp hq, mem_singleton.mp hr]
    · simp [boot, eq_comm]

lemma Reached.good (h : Reached n s) : s.Good := by
  refine h.invariant (P := Good) ?_ ?_
  · rintro _ ⟨h0, hn, rfl⟩
    exact boot_good h0 hn
  · exact fun s e s' hgood ha hs => ((step_ok hgood ha).of_eq hs).1

/-- The links give every process a doubly linked list of its children, no parent is a
zombie, and every process that ever was is on the list or was freed, once. A step stops
only where `init` would exit or a fork gets the pid of an idle process. -/
theorem process_tree (h : Reached n s) : (∃ kids, s.Family kids) ∧
    (∀ q ∈ s.procList, ∃ p, s.parent q = some p ∧ (p < s.lcpuCount ∨ p ∈ s.procList) ∧ s.state p ≠ .zombie) ∧
    s.procList.Nodup ∧ s.Log ∧
    (∀ e, s.Allowed e → Safe (Stops e) (s.step e) (Passage s e)) ∧
    ∀ p pid z, s.Running p → s.Accepts p pid z → ∃ s' z', s.step (.wait p pid) = .ok s' ∧
    s.Accepts p pid z' ∧ Freed z' s s' := by
  have hgood := h.good
  refine ⟨hgood.family, hgood.shape.parents, hgood.shape.list, hgood.log, fun e ha => ?_, ?_⟩
  · exact (step_ok hgood ha).mono fun _ hs' => hs'.2
  · intro p pid z hp hz
    obtain ⟨s', hs', -, hcases⟩ := hgood.doWait hp.1 hp.2.1 pid
    rcases hcases with ⟨z', hz', hfreed⟩ | ⟨hnone, -⟩
    · exact ⟨s', z', hs', hz', hfreed⟩
    · exact absurd hz (hnone z)

instance : Decidable (Running s p) := inferInstanceAs (Decidable (_ ∧ _))

instance (s : Procs) (e : ProcEvent) : Decidable (s.Allowed e) := by
  unfold Allowed
  split <;> infer_instance

theorem process_tree_thread : ∃ s, Reached 2 s ∧ (s.procList = [4, 2] ∧ s.freed = [1]) ∧ ∃ kids, s.Family kids := by
  obtain ⟨s, hs, hfreed⟩ : ∃ s, Reached 2 s ∧ s.procList = [4, 2] ∧ s.freed = [1] :=
    Reachable.exists_of_run [.fork 2 3 false, .fork 3 4 true, .exit 3 0, .wait 2 0]
      ⟨by decide, by decide, rfl⟩ (by decide +kernel)
  exact ⟨s, hs, hfreed, (process_tree hs).1⟩

/-- A process that sleeps in `do_wait` has no zombie to free: none of those the
call would accept, whichever thread of the group is the parent. -/
theorem wait_not_lost (h : Reached n s) (hw : s.waitState w = .child) :
    s.state w = .sleeping ∧ w ∈ s.procList ∧ ∃ pid, s.waitPid w = some pid ∧ ∀ z, ¬ s.Accepts w pid z := by
  have hwaits := h.good.waits
  obtain ⟨pid, hpid⟩ := hwaits.inside w hw
  obtain ⟨hsleep, hmem⟩ := hwaits.asleep w (ne_none_of_child hw)
  exact ⟨hsleep, hmem, pid, hpid, fun z => hwaits.heard w pid z hw hpid⟩

theorem wait_not_lost_thread : ∃ s, Reached 2 s ∧ s.waitState 3 = .child ∧
    ∃ pid, s.waitPid 3 = some pid ∧ ∀ z, ¬ s.Accepts 3 pid z := by
  obtain ⟨s, hs, hw⟩ : ∃ s, Reached 2 s ∧ s.waitState 3 = .child :=
    Reachable.exists_of_run [.fork 2 3 false, .fork 3 4 true, .fork 4 5 false, .wait 3 0]
      ⟨by decide, by decide, rfl⟩ (by decide +kernel)
  exact ⟨s, hs, hw, (wait_not_lost hs (hw)).2.2⟩

end Ucore.Process.Procs
