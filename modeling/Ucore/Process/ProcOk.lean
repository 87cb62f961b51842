import Ucore.Lib.Safe
import Ucore.Process.Proc

/-!
# Families and thread groups

What the links between processes mean, and the loops of `proc.c` around the threads of a
group and along the children of a process.
-/

namespace Ucore.Process

open Ucore.Lib Function
open Function (minimalPeriod iterate_succ_apply')
open Sync (WaitState)

namespace Procs

variable {s s' t : Procs} {kids : Nat → List Nat} {p q w z : Nat}

/-- `kids p` are the children of `p` in the order of the links. -/
structure Family (s : Procs) (kids : Nat → List Nat) : Prop where
  linked : ∀ p, Lib.Linked s.optr s.yptr none (kids p)
  head : ∀ p, s.cptr p = (kids p).head?
  nodup : ∀ p, (kids p).Nodup
  mem : ∀ p q, q ∈ kids p ↔ q ∈ s.procList ∧ s.parent q = some p

structure Shape (s : Procs) : Prop where
  list : s.procList.Nodup
  above : ∀ p ∈ s.procList, s.lcpuCount ≤ p
  parents : ∀ q ∈ s.procList, ∃ p, s.parent q = some p ∧ (p < s.lcpuCount ∨ p ∈ s.procList) ∧ s.state p ≠ .zombie
  idle : ∀ p < s.lcpuCount, s.state p = .runnable
  init : s.initproc ∈ s.procList ∧ s.state s.initproc ≠ .zombie ∧ s.nextThread s.initproc = s.initproc
  ring : ∀ p, s.nextThread p ≠ p → p ∈ s.procList ∧ s.state p ≠ .zombie
  pids : Pids.Inv ⟨s.lcpuCount, s.procList.map s.pid, s.counter⟩
  cpu : ∀ p ∈ s.procList, s.lcpuCount ≤ s.pid p

def Accepts (s : Procs) (w pid z : Nat) : Prop :=
  z ∈ s.procList ∧ s.state z = .zombie ∧ (pid = 0 ∨ s.pid z = pid) ∧ ∃ p, s.parent z = some p ∧
    s.nextThread.SameCycle w p

structure Waits (s : Procs) : Prop where
  asleep : ∀ p, s.waitState p ≠ .none → s.state p = .sleeping ∧ p ∈ s.procList
  inside : ∀ p, s.waitState p = .child → ∃ pid, s.waitPid p = some pid
  heard : ∀ w pid z, s.waitState w = .child → s.waitPid w = some pid → ¬ s.Accepts w pid z

/-- Every process so far is on the list or was freed, once. -/
structure Log (s : Procs) : Prop where
  lt : ∀ q ∈ s.procList, s.serial q < s.born
  inj : ∀ q ∈ s.procList, ∀ r ∈ s.procList, s.serial q = s.serial r → q = r
  once : s.freed.Nodup
  freed : ∀ n, n ∈ s.freed ↔ n < s.born ∧ ∀ q ∈ s.procList, s.serial q ≠ n

structure Good (s : Procs) : Prop where
  family : ∃ kids, s.Family kids
  shape : s.Shape
  waits : s.Waits
  log : s.Log

structure Roused (s s' : Procs) : Prop where
  eq : s' = { s with state := s'.state, waitState := s'.waitState, exiting := s'.exiting, exitCode := s'.exitCode }
  each : ∀ p, s'.state p = s.state p ∧ s'.waitState p = s.waitState p ∨
    s.state p = .sleeping ∧ s'.state p = .runnable ∧ s'.waitState p = .none

lemma Roused.refl : Roused s s := ⟨rfl, fun _ => .inl ⟨rfl, rfl⟩⟩

lemma Roused.trans (h : Roused s t) (h' : Roused t s') : Roused s s' := by
  refine ⟨?_, fun p => ?_⟩
  · rw [h'.eq, h.eq]
  · grind [h'.each, h.each]

lemma Roused.zombie_iff (h : Roused s s') : s'.state p = .zombie ↔ s.state p = .zombie := by
  grind [h.each]

lemma Roused.waitState (h : Roused s s') (hw : s'.waitState p ≠ .none) :
    s'.state p = s.state p ∧ s'.waitState p = s.waitState p := by
  grind [h.each]

lemma Roused.runnable (h : Roused s s') (hr : s.state p = .runnable) : s'.state p = .runnable := by
  grind [h.each]

def Wakeable (s : Procs) : Prop := ∀ p, s.waitState p ≠ .none → s.state p = .sleeping ∧ s.lcpuCount ≤ s.pid p

lemma Wakeable.roused (h : s.Wakeable) (hr : Roused s s') : s'.Wakeable := by
  intro p hp
  obtain ⟨h1, h2⟩ := hr.waitState hp
  rw [h1, hr.eq]
  exact h p (h2 ▸ hp)

lemma wakeupProc_ok (hstate : s.state p = .sleeping) (hpid : s.lcpuCount ≤ s.pid p) :
    ∃ s', s.wakeupProc p = .ok s' ∧ Roused s s' ∧ s'.waitState p = .none := by
  have hs : s.wakeupProc p = .ok
    { s with state := update s.state p .runnable, waitState := update s.waitState p .none } := by
    simp [wakeupProc, hstate, hpid]
  refine ⟨_, hs, ⟨rfl, fun q => ?_⟩, Function.update_self ..⟩
  grind

lemma Family.roused (h : s.Family kids) (hr : Roused s s') : s'.Family kids := by
  rw [hr.eq]
  exact ⟨h.linked, h.head, h.nodup, h.mem⟩

lemma Shape.roused (h : s.Shape) (hr : Roused s s') : s'.Shape := by
  have hz : ∀ p, s.state p ≠ .zombie → s'.state p ≠ .zombie := fun p hp hz => hp (hr.zombie_iff.mp hz)
  have hrun : ∀ p, s.state p = .runnable → s'.state p = .runnable := fun p => hr.runnable
  rw [hr.eq]
  refine ⟨h.list, h.above, ?_, ?_, ⟨h.init.1, hz _ h.init.2.1, h.init.2.2⟩, ?_, h.pids, h.cpu⟩
  · intro q hq
    obtain ⟨p, hp, hex, hstate⟩ := h.parents q hq
    exact ⟨p, hp, hex, hz p hstate⟩
  · exact fun p hp => hrun p (h.idle p hp)
  · exact fun p hp => ⟨(h.ring p hp).1, hz p (h.ring p hp).2⟩

lemma Waits.roused (h : s.Waits) (hr : Roused s s') : s'.Waits := by
  have hzombie : ∀ z, s'.state z = .zombie → s.state z = .zombie := fun z => hr.zombie_iff.mp
  have hsame : ∀ p, s'.waitState p ≠ .none → s'.state p = s.state p ∧
    s'.waitState p = s.waitState p := fun p => hr.waitState
  rw [hr.eq]
  refine ⟨?_, ?_, ?_⟩
  · grind [h.asleep]
  · intro p hp
    exact h.inside p ((hsame p (WaitState.ne_none_of_child hp)).2 ▸ hp)
  · rintro w pid z hw hpid ⟨hz, hstate, hacc⟩
    exact h.heard w pid z ((hsame w (WaitState.ne_none_of_child hw)).2 ▸ hw) hpid ⟨hz, hzombie z hstate, hacc⟩

lemma Log.roused (h : s.Log) (hr : Roused s s') : s'.Log := by
  rw [hr.eq]
  exact ⟨h.lt, h.inj, h.once, h.freed⟩

lemma Good.roused (h : s.Good) (hr : Roused s s') : s'.Good := by
  obtain ⟨kids, hk⟩ := h.family
  exact ⟨⟨kids, hk.roused hr⟩, h.shape.roused hr, h.waits.roused hr, h.log.roused hr⟩

lemma Good.wakeable (h : s.Good) : s.Wakeable :=
    fun p hp => ⟨(h.waits.asleep p hp).1, h.shape.cpu p (h.waits.asleep p hp).2⟩

section Round

variable {n m start : Nat} {code : Int}

lemma wakeWaiter_ok (h : s.Wakeable) (q : Nat) :
    ∃ s', s.wakeWaiter q = .ok s' ∧ Roused s s' ∧ s'.waitState q ≠ .child := by
  unfold wakeWaiter
  by_cases hq : s.waitState q = .child
  · obtain ⟨hstate, hpid⟩ := h q (WaitState.ne_none_of_child hq)
    grind [wakeupProc_ok]
  · exact ⟨s, if_neg hq, .refl, hq⟩

lemma wakeRing_from (h : s.Wakeable) (hm : m < minimalPeriod s.nextThread start)
    (hn : minimalPeriod s.nextThread start ≤ m + n) :
    ∃ s', s.wakeRing n start (s.nextThread^[m] start) = .ok s' ∧ Roused s s' ∧
      ∀ j, m ≤ j → j < minimalPeriod s.nextThread start → s'.waitState (s.nextThread^[j] start) ≠ .child := by
  induction n generalizing s m with
  | zero => omega
  | succ n ih =>
    obtain ⟨t, ht, hrt, hchild⟩ := wakeWaiter_ok h (s.nextThread^[m] start)
    have hnext : t.nextThread = s.nextThread := by rw [hrt.eq]
    rw [wakeRing, ht]
    change ∃ s', (if t.nextThread _ = start then .ok t else t.wakeRing n start (t.nextThread _)) = _ ∧ _
    by_cases hlast : s.nextThread (s.nextThread^[m] start) = start
    · have hlen := (Ring.next_eq_start hm).mp hlast
      refine ⟨t, by rw [hnext, if_pos hlast], hrt, fun j hj hlt => ?_⟩
      rwa [show j = m by omega]
    have hlen := mt (Ring.next_eq_start hm).mpr hlast
    obtain ⟨s', hs', hr, hrest⟩ := ih (h.roused hrt) (by rw [hnext]; omega) (m := m + 1) (by rw [hnext]; omega)
    rw [hnext, iterate_succ_apply'] at hs'
    refine ⟨s', by rw [hnext, if_neg hlast, hs'], hrt.trans hr, fun j hj hlt => ?_⟩
    rcases Nat.eq_or_lt_of_le hj with rfl | hj
    · -- A process that was woken does not wait again.
      intro hw
      exact hchild ((hr.waitState (WaitState.ne_none_of_child hw)).2 ▸ hw)
    · rw [hnext] at hrest
      exact hrest j hj hlt

lemma Shape.period_lt (h : s.Shape) (p : Nat) : minimalPeriod s.nextThread p < s.rounds := by
  have hcard := Ring.minimalPeriod_le s.procList.toFinset (fun q hq => List.mem_toFinset.mpr (h.ring q hq).1) p
  have hlen := List.toFinset_card_le s.procList
  unfold rounds
  omega

lemma Shape.periodic (h : s.Shape) (p : Nat) : p ∈ Function.periodicPts s.nextThread :=
  Ring.periodic s.procList.toFinset (fun q hq => List.mem_toFinset.mpr (h.ring q hq).1) p

lemma Shape.period_pos (h : s.Shape) (p : Nat) : 0 < minimalPeriod s.nextThread p :=
  Function.minimalPeriod_pos_of_mem_periodicPts (h.periodic p)

lemma Shape.sameCycle_iff (h : s.Shape) :
    s.nextThread.SameCycle p q ↔ ∃ m < minimalPeriod s.nextThread p, s.nextThread^[m] p = q :=
  Ring.sameCycle_iff (h.periodic p)

lemma wakeRing_ok (h : s.Wakeable) (hshape : t.Shape) (hring : s.nextThread = t.nextThread) (p : Nat) :
    ∃ s', s.wakeRing t.rounds p p = .ok s' ∧ Roused s s' ∧ ∀ w, s.nextThread.SameCycle p w →
    s'.waitState w ≠ .child := by
  have hpos := hshape.period_pos p
  have hlt := hshape.period_lt p
  rw [← hring] at hpos hlt
  obtain ⟨s', hs', hr, hw⟩ := wakeRing_from h hpos (n := t.rounds) (by omega)
  refine ⟨s', hs', hr, fun w hcycle => ?_⟩
  grind [hshape.sameCycle_iff.mp]

lemma killProc_ok (h : s.Wakeable) (q : Nat) (code : Int) : ∃ s', s.killProc q code = .ok s' ∧ Roused s s' := by
  unfold killProc
  by_cases hexit : s.exiting q = true
  · exact ⟨s, if_pos hexit, .refl⟩
  rw [if_neg hexit]
  dsimp only
  set t : Procs := { s with exiting := update s.exiting q true, exitCode := update s.exitCode q code }
  have hst : Roused s t := ⟨rfl, fun _ => .inl ⟨rfl, rfl⟩⟩
  by_cases hw : (s.waitState q).canInterrupt = true
  · have hne : s.waitState q ≠ .none := by
      intro hnone
      rw [hnone] at hw
      cases hw
    obtain ⟨s', hs', hr, -⟩ := wakeupProc_ok (s := t) (h q hne).1 (h q hne).2
    exact ⟨s', by rw [if_pos hw, hs'], hst.trans hr⟩
  · exact ⟨t, if_neg hw, hst⟩

lemma killRing_from (h : s.Wakeable) (hm : m ≤ minimalPeriod s.nextThread start)
    (hn : minimalPeriod s.nextThread start < m + n) :
    ∃ s', s.killRing code n start (s.nextThread^[m] start) = .ok s' ∧ Roused s s' := by
  induction n generalizing s m with
  | zero => omega
  | succ n ih =>
    rw [killRing]
    by_cases hlast : s.nextThread^[m] start = start
    · exact ⟨s, if_pos hlast, .refl⟩
    obtain ⟨t, ht, hrt⟩ := killProc_ok h (s.nextThread^[m] start) code
    have hnext : t.nextThread = s.nextThread := by rw [hrt.eq]
    have hne : m ≠ minimalPeriod s.nextThread start := by
      rintro rfl
      exact hlast (Function.iterate_minimalPeriod ..)
    obtain ⟨s', hs', hr⟩ := ih (h.roused hrt) (m := m + 1) (by rw [hnext]; omega) (by rw [hnext]; omega)
    rw [hnext, iterate_succ_apply'] at hs'
    rw [if_neg hlast, ht]
    change ∃ s', t.killRing code n start (t.nextThread _) = _ ∧ _
    exact ⟨s', by rw [hnext, hs'], hrt.trans hr⟩

lemma killRing_ok (h : s.Good) (p : Nat) (code : Int) :
    ∃ s', s.killRing code s.rounds p (s.nextThread p) = .ok s' ∧ Roused s s' :=
  killRing_from h.wakeable (m := 1) (h.shape.period_pos p)
    (Nat.lt_of_lt_of_le (h.shape.period_lt p) (Nat.le_add_left _ _))

lemma doKill_ok (h : s.Wakeable) (pid : Nat) (code : Int) : ∃ s', s.doKill pid code = .ok s' ∧ Roused s s' := by
  unfold doKill
  cases s.findProc pid with
  | some q => exact killProc_ok h q code
  | none => exact ⟨s, rfl, .refl⟩

end Round

section Scan

variable {l : List Nat} {n m start pid : Nat} {b : Bool}

lemma Family.length_lt (h : s.Family kids) (p : Nat) : (kids p).length < s.rounds := by
  have hsub : kids p ⊆ s.procList := fun q hq => ((h.mem p q).mp hq).1
  have hlen := ((h.nodup p).subperm hsub).length_le
  unfold rounds
  omega

lemma scanKids_ok (h : Forward s.optr l) (hn : l.length < n) :
    s.scanKids n l.head? b = .ok (b || !l.isEmpty, l.find? fun q => s.state q = .zombie) := by
  induction n generalizing l b with
  | zero => omega
  | succ n ih =>
    cases l with
    | nil => simp [scanKids]
    | cons q l =>
      rw [List.head?_cons, scanKids]
      by_cases hq : s.state q = .zombie
      · simp [hq]
      · rw [if_neg hq, h.1, ih h.2 (Nat.lt_of_succ_lt_succ hn)]
        simp [hq]

lemma scanRing_from (h : s.Family kids) (hm : m < minimalPeriod s.nextThread start)
    (hn : minimalPeriod s.nextThread start ≤ m + n) :
    ∃ r, s.scanRing start n (s.nextThread^[m] start) b = .ok r ∧
      (∀ z, r.2 = some z → s.state z = .zombie ∧
      ∃ j < minimalPeriod s.nextThread start, z ∈ kids (s.nextThread^[j] start)) ∧
      (r.2 = none → ∀ j, m ≤ j → j < minimalPeriod s.nextThread start →
        ∀ z ∈ kids (s.nextThread^[j] start), s.state z ≠ .zombie) := by
  induction n generalizing m b with
  | zero => omega
  | succ n ih =>
    have hkids := scanKids_ok (h.linked (s.nextThread^[m] start)).forward (h.length_lt _) (b := b)
    rw [← h.head] at hkids
    rw [scanRing, hkids]
    generalize (b || !(kids (s.nextThread^[m] start)).isEmpty) = b'
    generalize hfind : (kids (s.nextThread^[m] start)).find? (fun q => s.state q = .zombie) = o
    change ∃ r, (if o.isSome ∨ _ = start then .ok (b', o) else s.scanRing start n (s.nextThread _) b') = _ ∧ _
    cases o with
    | some z =>
      refine ⟨_, if_pos (.inl rfl), ?_, (fun hnone => by cases hnone)⟩
      rintro z' ⟨⟩
      exact ⟨by simpa using List.find?_some hfind, m, hm, List.mem_of_find?_eq_some hfind⟩
    | none =>
      have hhere : ∀ z ∈ kids (s.nextThread^[m] start), s.state z ≠ .zombie := by
        simpa using List.find?_eq_none.mp hfind
      by_cases hlast : s.nextThread (s.nextThread^[m] start) = start
      · have hlen := (Ring.next_eq_start hm).mp hlast
        refine ⟨_, if_pos (.inr hlast), (fun z hz => by cases hz), fun _ j hj hlt => ?_⟩
        rwa [show j = m by omega]
      have hlen := mt (Ring.next_eq_start hm).mpr hlast
      obtain ⟨r, hr, hsome, hnone⟩ := ih (m := m + 1) (by omega) (by omega) (b := b')
      rw [iterate_succ_apply'] at hr
      refine ⟨r, by rw [if_neg (by simpa using hlast), hr], hsome, fun heq j hj hlt => ?_⟩
      rcases Nat.eq_or_lt_of_le hj with rfl | hj
      · exact hhere
      · exact hnone heq j hj hlt

lemma scanPid_from (hm : m < minimalPeriod s.nextThread start) (hn : minimalPeriod s.nextThread start ≤ m + n) :
    ∃ r, s.scanPid start z n (s.nextThread^[m] start) = .ok r ∧ (∀ z', r.2 = some z' → z' = z ∧ s.state z = .zombie ∧
        ∃ j < minimalPeriod s.nextThread start, s.parent z = some (s.nextThread^[j] start)) ∧
      (r.2 = none → s.state z = .zombie → ∀ j, m ≤ j → j < minimalPeriod s.nextThread start →
        s.parent z ≠ some (s.nextThread^[j] start)) := by
  induction n generalizing m with
  | zero => omega
  | succ n ih =>
    rw [scanPid]
    by_cases hpar : s.parent z = some (s.nextThread^[m] start)
    · rw [if_pos hpar]
      refine ⟨_, rfl, ?_, ?_⟩
      · intro z' hz'
        by_cases hz : s.state z = .zombie
        · simp only [if_pos hz, Option.some.injEq] at hz'
          exact ⟨hz'.symm, hz, m, hm, hpar⟩
        · simp [hz] at hz'
      · intro hnone hz
        simp [hz] at hnone
    rw [if_neg hpar]
    by_cases hlast : s.nextThread (s.nextThread^[m] start) = start
    · have hlen := (Ring.next_eq_start hm).mp hlast
      refine ⟨_, if_pos hlast, (fun z hz => by cases hz), fun _ _ j hj hlt => ?_⟩
      rwa [show j = m by omega]
    have hlen := mt (Ring.next_eq_start hm).mpr hlast
    obtain ⟨r, hr, hsome, hnone⟩ := ih (m := m + 1) (by omega) (by omega)
    rw [iterate_succ_apply'] at hr
    refine ⟨r, by rw [if_neg hlast, hr], hsome, fun heq hz j hj hlt => ?_⟩
    rcases Nat.eq_or_lt_of_le hj with rfl | hj
    · exact hpar
    · exact hnone heq hz j hj hlt

lemma Shape.findProc_iff (h : s.Shape) : s.findProc pid = some q ↔ q ∈ s.procList ∧ s.pid q = pid := by
  unfold findProc
  constructor
  · grind
  · rintro ⟨hq, rfl⟩
    rw [if_pos (h.pids.range _ (List.mem_map_of_mem hq))]
    cases hfind : s.procList.find? (fun r => s.pid r = s.pid q) with
    | none => simpa using List.find?_eq_none.mp hfind q hq
    | some r =>
      have hr : s.pid r = s.pid q := by simpa using List.find?_some hfind
      rw [List.inj_on_of_nodup_map h.pids.distinct (List.mem_of_find?_eq_some hfind) hq hr]

lemma scan_ok (h : s.Family kids) (hshape : s.Shape) (p pid : Nat) :
    ∃ r, s.scan p pid = .ok r ∧ (∀ z, r.2 = some z → s.Accepts p pid z) ∧ (r.2 = none → ∀ z, ¬ s.Accepts p pid z) := by
  have hpos := hshape.period_pos p
  have hlt := hshape.period_lt p
  unfold scan
  by_cases hpid : pid = 0
  · rw [if_neg (by simpa using hpid)]
    obtain ⟨r, hr, hsome, hnone⟩ := scanRing_from h hpos (n := s.rounds) (by omega) (b := false)
    refine ⟨r, hr, ?_, ?_⟩
    · grind [h.mem, hshape.sameCycle_iff.mpr, Accepts]
    · rintro heq z ⟨hlist, hstate, -, q, hpar, hcycle⟩
      obtain ⟨j, hj, rfl⟩ := hshape.sameCycle_iff.mp hcycle
      exact hnone heq j (Nat.zero_le j) hj z ((h.mem _ z).mpr ⟨hlist, hpar⟩) hstate
  rw [if_pos hpid]
  cases hfind : s.findProc pid with
  | none =>
    refine ⟨_, rfl, (fun z hz => by cases hz), ?_⟩
    rintro - z ⟨hlist, -, hor, -⟩
    rw [hshape.findProc_iff.mpr ⟨hlist, hor.resolve_left hpid⟩] at hfind
    cases hfind
  | some z0 =>
    obtain ⟨hlist, hz0⟩ := hshape.findProc_iff.mp hfind
    obtain ⟨r, hr, hsome, hnone⟩ := scanPid_from (z := z0) hpos (n := s.rounds) (by omega)
    refine ⟨r, hr, ?_, ?_⟩
    · intro z hz
      obtain ⟨rfl, hstate, j, hj, hpar⟩ := hsome z hz
      exact ⟨hlist, hstate, .inr hz0, _, hpar, hshape.sameCycle_iff.mpr ⟨j, hj, rfl⟩⟩
    · rintro heq z ⟨hmem, hstate, hor, q, hpar, hcycle⟩
      have hz := hshape.findProc_iff.mpr ⟨hmem, hor.resolve_left hpid⟩
      obtain rfl : z0 = z := Option.some.inj (hfind.symm.trans hz)
      obtain ⟨j, hj, rfl⟩ := hshape.sameCycle_iff.mp hcycle
      exact hnone heq hstate j (Nat.zero_le j) hj hpar

end Scan

end Procs

end Ucore.Process
