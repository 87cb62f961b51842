import Ucore.Debug.Panic
import Ucore.Lib.Deltas
import Ucore.Lib.Run

/-!
# Kernel timers

`timer_list` of `sched.c`. The field `expires` of a timer in the list counts
the calls of `run_timer_list` after the timer before it, in 32 bits. The model
has a clock, which counts those calls, and a record of the calls of
`wakeup_proc`; the source has neither.
-/

namespace Ucore.Schedule

open Ucore.Lib
open Deltas (due expire)
open Deltas (due_eq_none erase delay tick keys_expire due_tick)
open List (map_cons nodup_cons filter_eq_nil_iff mem_map map map_map filter_map)

structure Timer where
  id : Nat
  proc : Nat
  deriving DecidableEq, Repr

abbrev TimerList := List (Timer × Nat)

def Timer.at (i : Nat) (t : Timer) : Bool := t.id == i

def addTimer (t : Timer) (expires : UInt32) (l : TimerList) : Except Panic TimerList :=
  if expires.toNat = 0 then .error .assertion
  else if l.any fun e => e.1.id == t.id then .error .assertion
  else .ok (Deltas.insert t expires.toNat l)

/-- `next->expires += timer->expires`. -/
def addExpires (d : Nat) : TimerList → TimerList
  | [] => []
  | (t, e) :: l => (t, (e + d) % UInt32.size) :: l

def delTimer (i : Nat) : TimerList → TimerList
  | [] => []
  | (t, d) :: l =>
    if t.id == i then if d ≠ 0 then addExpires d l else l
    else (t, d) :: delTimer i l

/-- The loop of `run_timer_list` over the timers whose time has come: what it
wakes and what stays. -/
def expireTimers : TimerList → List Timer × TimerList := expire

def runTimerList : TimerList → Except Panic (List Timer × TimerList)
  | [] => .ok ([], [])
  | (t, e) :: l => if e = 0 then .error .assertion else .ok (expireTimers ((t, e - 1) :: l))

structure Timers where
  list : TimerList
  now : Nat
  woken : List (Nat × Timer)

inductive TimerCall
  | add (t : Timer) (expires : UInt32)
  | del (i : Nat)
  | run
  deriving DecidableEq, Repr

namespace Timers

def init : Timers := ⟨[], 0, []⟩

def step (s : Timers) : TimerCall → Except Panic Timers
  | .add t n => (addTimer t n s.list).map fun l => { s with list := l }
  | .del i => .ok { s with list := delTimer i s.list }
  | .run => (runTimerList s.list).map fun r => ⟨r.2, s.now + 1, s.woken ++ r.1.map fun t => (s.now + 1, t)⟩

def alarm (s : Timers) (i : Nat) : Option (Timer × Nat) :=
  (due (Timer.at i) s.list).map fun r => (r.1, s.now + r.2)

def wakes (s : Timers) (i : Nat) : List (Nat × Timer) := s.woken.filter fun w => w.2.at i

structure Inv (s : Timers) : Prop where
  ready : Deltas.Ready s.list
  distinct : (s.list.map fun e => e.1.id).Nodup
  bound : ∀ i r, due (Timer.at i) s.list = some r → r.2 < UInt32.size

end Timers

@[simp] lemma Timer.at_self (t : Timer) : t.at t.id = true := by simp [Timer.at]

lemma Timer.at_iff : Timer.at i t = true ↔ t.id = i := by simp [Timer.at]

lemma due_none_iff {l : TimerList} : due (Timer.at i) l = none ↔ i ∉ l.map fun e => e.1.id := by
  simp [due_eq_none, Timer.at]

lemma unique_of_distinct {l : TimerList} (h : (l.map fun e => e.1.id).Nodup) : Deltas.Unique (Timer.at i) l := by
  induction l with
  | nil => simp [Deltas.Unique]
  | cons e l ih =>
    rw [map_cons, nodup_cons] at h
    rw [Deltas.Unique, List.filter_cons]
    split
    · rename_i he
      obtain rfl : e.1.id = i := Timer.at_iff.mp he
      have hnone := due_eq_none.mp (due_none_iff.mpr h.1)
      rw [filter_eq_nil_iff.mpr fun x hx => by simp [hnone x hx]]
      simp
    · exact ih h.2

lemma addTimer_ok {l l' : TimerList} (h : addTimer t n l = .ok l') :
    0 < n.toNat ∧ due (Timer.at t.id) l = none ∧ l' = Deltas.insert t n.toNat l := by
  unfold addTimer at h
  grind [due_eq_none, Timer.at]

section

variable {l : TimerList}

lemma delTimer_eq (hb : ∀ i r, due (Timer.at i) l = some r → r.2 < UInt32.size)
    (hd : (l.map fun e => e.1.id).Nodup) : delTimer i l = erase (Timer.at i) l := by
  induction l with
  | nil => rfl
  | cons e l ih =>
    obtain ⟨t, d⟩ := e
    rw [map_cons, nodup_cons] at hd
    have hlater : ∀ j r, due (Timer.at j) l = some r → d + r.2 < UInt32.size := by
      intro j r hr
      refine hb j (r.1, d + r.2) ?_
      have hj : Timer.at j t = false := by
        by_contra hj
        rw [Bool.not_eq_false, Timer.at_iff] at hj
        subst hj
        rw [due_none_iff.mpr hd.1] at hr
        cases hr
      rw [Deltas.due_cons_neg hj, hr, Option.map_some]
    rw [delTimer, erase]
    cases hi : t.id == i with
    | false => simp [Timer.at, hi, ih (fun j r hr => Nat.lt_of_add_left_lt (hlater j r hr)) hd.2]
    | true =>
      have hi' : Timer.at i t = true := hi
      simp only [hi', ↓reduceIte]
      cases l with
      | nil => simp [addExpires, delay]
      | cons e l =>
        obtain ⟨u, m⟩ := e
        have hm := hlater u.id (u, m) (Deltas.due_cons_pos u.at_self)
        split
        · rw [addExpires, delay, Nat.mod_eq_of_lt (by omega)]
        rename_i h0
        obtain rfl : d = 0 := not_not.mp h0
        rfl

lemma runTimerList_ok (h : Deltas.Ready l) : runTimerList l = .ok (expire (tick l)) := by
  cases l with
  | nil => rfl
  | cons e l =>
    obtain ⟨t, e⟩ := e
    rw [runTimerList, if_neg (Nat.pos_iff_ne_zero.mp h)]
    rfl

lemma keys_insert_nodup (hd : (l.map fun e => e.1.id).Nodup)
    (ht : t.id ∉ l.map fun e => e.1.id) : ((Deltas.insert t n l).map fun e => e.1.id).Nodup := by
  induction l generalizing n with
  | nil => simp [Deltas.insert]
  | cons e l ih =>
    have hd' := nodup_cons.mp hd
    simp only [map_cons, List.mem_cons, not_or] at ht
    rw [Deltas.insert]
    split
    · simpa using ⟨⟨ht.1, by simpa using ht.2⟩, by simpa using hd'.1, hd'.2⟩
    rw [map_cons, nodup_cons]
    refine ⟨?_, ih hd'.2 ht.2⟩
    intro hmem
    obtain ⟨x, hx, hxe⟩ := mem_map.mp hmem
    rcases Deltas.mem_keys_insert.mp (List.mem_map_of_mem hx) with h | h
    · rw [h] at hxe
      exact ht.1 hxe
    · obtain ⟨y, hy, hyx⟩ := mem_map.mp h
      exact hd'.1 (mem_map.mpr ⟨y, hy, by rw [hyx]; exact hxe⟩)

lemma keys_delay : (delay n l).map (fun e => e.1.id) = l.map fun e => e.1.id := by
  cases l <;> rfl

lemma keys_erase : ((erase (Timer.at i) l).map fun e => e.1.id).Sublist (l.map fun e => e.1.id) := by
  induction l with
  | nil => exact .slnil
  | cons e l ih =>
    rw [erase]
    split
    · rw [keys_delay]
      exact List.sublist_cons_self ..
    · exact ih.cons_cons _

end

def TimerCall.about (i : Nat) : TimerCall → Prop
  | .add t _ => t.id = i
  | .del j => j = i
  | .run => False

def TimerCall.sets (i : Nat) : TimerCall → Prop
  | .add t _ => t.id = i
  | _ => False

lemma TimerCall.not_sets {c : TimerCall} (h : ¬ c.about i) : ¬ c.sets i := by
  cases c with
  | add t n => exact h
  | del j => exact id
  | run => exact id

lemma filter_at {l : List Timer} (hd : (l.map Timer.id).Nodup) (ht : t ∈ l) : l.filter (Timer.at t.id) = [t] := by
  induction l with
  | nil => cases ht
  | cons u l ih =>
    rw [map_cons, nodup_cons] at hd
    grind [filter_eq_nil_iff, Timer.at_iff]

lemma expire_distinct {l : TimerList} (hd : (l.map fun e => e.1.id).Nodup) :
    ((expire l).1.map Timer.id ++ (expire l).2.map fun e => e.1.id).Nodup := by
  have hkeys := congrArg (map Timer.id) (keys_expire (l := l))
  rw [map_map, List.map_append, map_map] at hkeys
  exact hkeys ▸ hd

lemma expire_cases {l : TimerList} (i : Nat) (hd : (l.map fun e => e.1.id).Nodup) :
    (due (Timer.at i) l = none ∧ due (Timer.at i) (expire l).2 = none ∧ (expire l).1.filter (Timer.at i) = []) ∨
    (∃ t, due (Timer.at i) l = some (t, 0) ∧ due (Timer.at i) (expire l).2 = none ∧
    (expire l).1.filter (Timer.at i) = [t]) ∨
    ∃ t n, due (Timer.at i) l = some (t, n + 1) ∧ due (Timer.at i) (expire l).2 = some (t, n + 1) ∧
      (expire l).1.filter (Timer.at i) = [] := by
  cases hl : due (Timer.at i) l with
  | none => grind [Deltas.due_expire_none, filter_eq_nil_iff]
  | some r =>
    obtain ⟨t, n⟩ := r
    rcases Deltas.due_expire hl with ⟨rfl, ht, hti⟩ | ⟨hn, hrest, hfired⟩
    · obtain rfl := Timer.at_iff.mp hti
      have hd' := List.nodup_append.mp (expire_distinct hd)
      refine .inr (.inl ⟨t, rfl, due_none_iff.mpr ?_, filter_at hd'.1 ht⟩)
      exact fun hmem => hd'.2.2 _ (List.mem_map_of_mem ht) _ hmem rfl
    · obtain ⟨n, rfl⟩ := Nat.exists_eq_succ_of_ne_zero (Nat.pos_iff_ne_zero.mp hn)
      exact .inr (.inr ⟨t, n, rfl, hrest, filter_eq_nil_iff.mpr fun y hy => by simp [hfired y hy]⟩)

namespace Timers

variable {s s' s₁ s₂ : Timers} {i j : Nat} {t : Timer} {n : UInt32} {c : TimerCall} {cs : List TimerCall}

lemma Inv.init : Inv init where
  ready := trivial
  distinct := List.nodup_nil
  bound := nofun

section

variable (h : s.Inv)
include h

lemma Inv.add (hs : s.step (.add t n) = .ok s') :
    s'.Inv ∧ s'.now = s.now ∧ s'.woken = s.woken ∧ s'.alarm t.id = some (t, s.now + n.toNat) ∧
      ∀ i ≠ t.id, s'.alarm i = s.alarm i := by
  rw [step] at hs
  cases hl : addTimer t n s.list with
  | error e => rw [hl] at hs; cases hs
  | ok l =>
    rw [hl] at hs
    cases hs
    obtain ⟨hn, hnone, rfl⟩ := addTimer_ok hl
    have hself : due (Timer.at t.id) (Deltas.insert t n.toNat s.list) = some (t, n.toNat) :=
      Deltas.due_insert_self t.at_self hnone
    have hother : ∀ i ≠ t.id, due (Timer.at i) (Deltas.insert t n.toNat s.list) = due (Timer.at i) s.list :=
      fun i hi => Deltas.due_insert_other (by simpa [Timer.at] using hi.symm)
    refine ⟨⟨Deltas.insert_ready h.ready hn, keys_insert_nodup h.distinct (due_none_iff.mp hnone), ?_⟩, rfl, rfl, ?_, ?_⟩
    · intro i r hr
      by_cases hi : i = t.id
      · subst hi
        obtain rfl := Option.some.inj (hself.symm.trans hr)
        exact n.toNat_lt
      · exact h.bound i r (by rwa [hother i hi] at hr)
    · rw [alarm, hself]
      rfl
    · intro i hi
      rw [alarm, hother i hi]
      rfl

lemma Inv.del (hs : s.step (.del i) = .ok s') :
    s'.Inv ∧ s'.now = s.now ∧ s'.woken = s.woken ∧ s'.alarm i = none ∧ ∀ j ≠ i, s'.alarm j = s.alarm j := by
  cases hs
  have hself : due (Timer.at i) (delTimer i s.list) = none := by
    rw [delTimer_eq h.bound h.distinct]
    exact Deltas.due_erase_self (unique_of_distinct h.distinct)
  have hother : ∀ j ≠ i, due (Timer.at j) (delTimer i s.list) = due (Timer.at j) s.list := by
    intro j hj
    rw [delTimer_eq h.bound h.distinct]
    refine Deltas.due_erase_other fun y hy => ?_
    rw [Timer.at_iff] at hy
    simpa [Timer.at, hy] using hj.symm
  refine ⟨⟨?_, ?_, ?_⟩, rfl, rfl, ?_, ?_⟩
  · simp only [delTimer_eq h.bound h.distinct]
    exact Deltas.erase_ready h.ready
  · simp only [delTimer_eq h.bound h.distinct]
    exact h.distinct.sublist keys_erase
  · intro j r hr
    by_cases hj : j = i
    · subst hj
      cases hself.symm.trans hr
    · exact h.bound j r (by rwa [hother j hj] at hr)
  · rw [alarm, hself]
    rfl
  · intro j hj
    rw [alarm, hother j hj]
    rfl

structure Ran (s s' : Timers) (i : Nat) : Prop where
  fires : ∀ t, s.alarm i = some (t, s.now + 1) → s'.alarm i = none ∧ s'.wakes i = s.wakes i ++ [(s.now + 1, t)]
  waits : (∀ t, s.alarm i ≠ some (t, s.now + 1)) → s'.alarm i = s.alarm i ∧ s'.wakes i = s.wakes i

lemma Inv.run : ∃ s', s.step .run = .ok s' ∧ s'.Inv ∧ s'.now = s.now + 1 ∧ ∀ i, Ran s s' i := by
  have hkeys : s.list.map (fun e => e.1.id) = (tick s.list).map fun e => e.1.id := by
    simpa [Function.comp_def] using congrArg (map Timer.id) (Deltas.keys_tick (l := s.list)).symm
  have hd : ((tick s.list).map fun e => e.1.id).Nodup := hkeys ▸ h.distinct
  have hd' := List.nodup_append.mp (expire_distinct hd)
  refine ⟨_, by rw [step, runTimerList_ok h.ready]; rfl, ⟨Deltas.expire_ready, hd'.2.1, ?_⟩, rfl, fun i => ?_⟩
  · intro i r hr
    have hdue := due_tick (p := Timer.at i) h.ready
    rcases expire_cases i hd with ⟨-, hrest, -⟩ | ⟨x, -, hrest, -⟩ | ⟨x, k, hl, hrest, -⟩
    · cases hrest.symm.trans hr
    · cases hrest.symm.trans hr
    · obtain rfl := Option.some.inj (hrest.symm.trans hr)
      rw [hl] at hdue
      exact Nat.lt_of_succ_lt (h.bound i _ hdue)
  · have hdue := due_tick (p := Timer.at i) h.ready
    rcases expire_cases i hd with ⟨hl, hrest, hfired⟩ | ⟨x, hl, hrest, hfired⟩ | ⟨x, k, hl, hrest, hfired⟩ <;>
      rw [hl] at hdue
    · constructor <;> intro t <;> simp [alarm, wakes, hdue, hrest, filter_map, Function.comp_def, hfired]
    · constructor <;> intro t
      · simp [alarm, wakes, hdue, hrest, filter_map, Function.comp_def, hfired]
      · exact absurd (by simp [alarm, hdue]) (t x)
    · constructor <;> intro t
      · simp [alarm, wakes, hdue, hrest, filter_map, Function.comp_def, hfired]
      · simp [alarm, wakes, hdue, hrest, filter_map, Function.comp_def, hfired]
        omega

lemma Inv.step (hs : s.step c = .ok s') : s'.Inv := by
  cases c with
  | add t n => exact (h.add hs).1
  | del i => exact (h.del hs).1
  | run => grind [h.run]

def Reached : Timers → Prop := Reachable step (fun _ _ => True) (· = init)

omit h in
lemma Reached.inv (h : Reached s) : s.Inv := h.invariant (fun _ hs => hs ▸ Inv.init) fun _ _ _ h _ hs => h.step hs

omit h in
lemma run_cons_ok (hr : run step s (c :: cs) = .ok s') : ∃ s₁, s.step c = .ok s₁ ∧ run step s₁ cs = .ok s' := by
  rw [run_cons] at hr
  cases hs : s.step c with
  | error e => rw [hs] at hr; cases hr
  | ok s₁ => exact ⟨s₁, rfl, by rwa [hs] at hr⟩

lemma Inv.step_other (hrun : c ≠ .run) (hc : ¬ c.about i) (hs : s.step c = .ok s') :
    s'.now = s.now ∧ s'.alarm i = s.alarm i ∧ s'.wakes i = s.wakes i := by
  cases c with
  | add t n =>
    obtain ⟨-, hnow, hwoken, -, halarm⟩ := h.add hs
    exact ⟨hnow, halarm i fun hi => hc hi.symm, by rw [wakes, hwoken]; rfl⟩
  | del j =>
    obtain ⟨-, hnow, hwoken, -, halarm⟩ := h.del hs
    exact ⟨hnow, halarm i fun hi => hc hi.symm, by rw [wakes, hwoken]; rfl⟩
  | run => exact absurd rfl hrun

lemma Inv.step_run (hs : s.step .run = .ok s') : s'.now = s.now + 1 ∧ Ran s s' i := by
  grind [h.run]

lemma run_quiet (ha : s.alarm i = none) (hcs : ∀ c ∈ cs, ¬ c.sets i)
    (hr : Lib.run Timers.step s cs = .ok s') : s'.wakes i = s.wakes i := by
  induction cs generalizing s with
  | nil => exact Except.ok.inj hr ▸ rfl
  | cons c cs ih =>
    obtain ⟨s₁, hs, hr⟩ := run_cons_ok hr
    have hstep : s₁.alarm i = none ∧ s₁.wakes i = s.wakes i := by
      cases c with
      | add t n =>
        obtain ⟨-, ha', hw'⟩ := h.step_other (i := i) (c := .add t n) nofun (hcs _ (.head _)) hs
        exact ⟨ha'.trans ha, hw'⟩
      | del j =>
        obtain ⟨-, -, hwoken, hself, hother⟩ := h.del hs
        grind [wakes]
      | run =>
        obtain ⟨ha', hw'⟩ := (h.step_run (i := i) hs).2.waits (by simp [ha])
        exact ⟨ha'.trans ha, hw'⟩
    rw [ih (h.step hs) hstep.1 (fun c hc => hcs c (List.mem_cons_of_mem _ hc)) hr, hstep.2]

lemma run_alarm (ha : s.alarm i = some (t, s.now + k)) (hk : 0 < k) (hcs : ∀ c ∈ cs, ¬ c.about i)
    (hr : Lib.run Timers.step s cs = .ok s') :
    s'.wakes i = s.wakes i ++ if k ≤ cs.count .run then [(s.now + k, t)] else [] := by
  induction cs generalizing s k with
  | nil =>
    cases hr
    rw [List.count_nil, if_neg (by omega), List.append_nil]
  | cons c cs ih =>
    obtain ⟨s₁, hs, hrun⟩ := run_cons_ok hr
    have hrest : ∀ c ∈ cs, ¬ c.about i := fun c hc => hcs c (.tail _ hc)
    by_cases hc : c = .run
    · subst hc
      obtain ⟨hnow, hran⟩ := h.step_run (i := i) hs
      rw [List.count_cons_self]
      by_cases hk1 : k = 1
      · subst hk1
        obtain ⟨ha', hw'⟩ := hran.fires t ha
        rw [run_quiet (h.step hs) ha' (fun c hc => TimerCall.not_sets (hrest c hc)) hrun, hw', if_pos (by omega)]
      obtain ⟨ha', hw'⟩ := hran.waits (by simp [ha]; omega)
      have hk' : s.now + k = s₁.now + (k - 1) := by omega
      rw [ih (h.step hs) (by rw [ha', ha, hk']) (by omega) hrest hrun, hw', hk']
      simp only [show k ≤ cs.count .run + 1 ↔ k - 1 ≤ cs.count .run by omega]
    · obtain ⟨hnow, ha', hw'⟩ := h.step_other (i := i) hc (hcs c (.head _)) hs
      rw [ih (h.step hs) (by rw [ha', ha, hnow]) hk hrest hrun, hw', hnow, List.count_cons_of_ne hc]

end

/-- A timer that is set for `n` wakes its process in the `n`-th call of `run_timer_list`
from then on and in no other, until it is set again or deleted. -/
theorem timers_on_time : (∀ s, Reached s → ∃ s', s.step .run = .ok s') ∧
    (∀ s t n s₁ cs s₂, Reached s → s.step (.add t n) = .ok s₁ → (∀ c ∈ cs, ¬ c.about t.id) →
    Lib.run Timers.step s₁ cs = .ok s₂ →
      s₂.wakes t.id = s.wakes t.id ++ if n.toNat ≤ cs.count .run then [(s.now + n.toNat, t)] else []) ∧
    ∀ s i s₁ cs s₂, Reached s → s.step (.del i) = .ok s₁ → (∀ c ∈ cs, ¬ c.sets i) →
      Lib.run Timers.step s₁ cs = .ok s₂ → s₂.wakes i = s.wakes i := by
  refine ⟨?_, ?_, ?_⟩
  · intro s hs
    grind [hs.inv.run]
  · intro s t n s₁ cs s₂ hs hadd hcs hr
    obtain ⟨hinv, hnow, hwoken, halarm, -⟩ := hs.inv.add hadd
    have hn : 0 < n.toNat := by
      rw [Timers.step] at hadd
      cases hl : addTimer t n s.list with
      | error e => rw [hl] at hadd; cases hadd
      | ok l => exact (addTimer_ok hl).1
    rw [run_alarm hinv (by rw [halarm, hnow]) hn hcs hr, hnow, wakes, hwoken]
    rfl
  · intro s i s₁ cs s₂ hs hdel hcs hr
    obtain ⟨hinv, -, hwoken, halarm, -⟩ := hs.inv.del hdel
    rw [run_quiet hinv halarm hcs hr, wakes, hwoken]
    rfl

/-- Timer 1 is set for the second call while timer 3 waits, which is then deleted. -/
theorem timers_on_time_second : ∃ s s₁ s₂, Reached s ∧ s.step (.add ⟨1, 7⟩ 2) = .ok s₁ ∧
    Lib.run Timers.step s₁ [.add ⟨2, 8⟩ 1, .run, .del 3, .run, .run] = .ok s₂ ∧
    s₂.wakes 1 = [(s.now + 2, ⟨1, 7⟩)] := by
  have hset : Reached ⟨[(⟨3, 9⟩, 5)], 0, []⟩ := .step (.init rfl) trivial (a := .add ⟨3, 9⟩ 5) rfl
  have hs : Reached ⟨[(⟨3, 9⟩, 4)], 1, []⟩ := .step hset trivial (a := .run) rfl
  have hother : ∀ c ∈ [TimerCall.add ⟨2, 8⟩ 1, .run, .del 3, .run, .run], ¬ c.about 1 := by simp [TimerCall.about]
  exact ⟨_, _, _, hs, rfl, rfl, timers_on_time.2.1 _ ⟨1, 7⟩ 2 _ _ _ hs rfl hother rfl⟩

end Timers

end Ucore.Schedule
