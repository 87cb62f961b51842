import Mathlib.Data.List.Nodup

/-!
# Ordered wait queues

`wait.c` and the ways a process comes out of `schedule`, for queues that are
served in order. A queue is the list of the processes whose `wait_t` is linked
in it. A process is `PROC_SLEEPING` as long as its `wait_state` is not zero.

A timer or a kill makes a process runnable and leaves its `wait_t` in the
queue until the process runs.
-/

namespace Ucore.Sync

open Function

/-- The values of `wait_state` and `wakeup_flags`; `none` is zero. -/
inductive WaitState
  | none
  | child
  | timer
  | kswapd
  | kbd
  | ksem
  | usem
  | eventSend
  | eventRecv
  | mboxSend
  | mboxRecv
  | pipe
  /-- `WT_INTERRUPTED` alone. -/
  | interrupted
  deriving DecidableEq, Repr

/-- The bit `WT_INTERRUPTED`. -/
def WaitState.canInterrupt : WaitState → Bool
  | .none | .kswapd | .ksem => false
  | _ => true

lemma WaitState.ne_none_of_child {w : WaitState} (h : w = .child) : w ≠ .none := by
  subst h
  decide

structure Sleepers where
  waitState : Nat → WaitState
  wakeupFlags : Nat → WaitState

namespace Sleepers

variable {s : Sleepers} {p q : Nat} {w f : WaitState} {l : List Nat}

def wakeupProc (p : Nat) (s : Sleepers) : Sleepers := { s with waitState := update s.waitState p .none }

def waitCurrentSet (p : Nat) (w : WaitState) (s : Sleepers) : Sleepers :=
  { s with waitState := update s.waitState p w, wakeupFlags := update s.wakeupFlags p .interrupted }

/-- `wakeup_wait` of a `wait_t` that leaves its queue. -/
def wakeupWait (f : WaitState) (s : Sleepers) (p : Nat) : Sleepers :=
  wakeupProc p { s with wakeupFlags := update s.wakeupFlags p f }

/-- `wakeup_first` with `del` set: what is left of the queue, and the processes. -/
def wakeupFirst (f : WaitState) (s : Sleepers) : List Nat → List Nat × Sleepers
  | [] => ([], s)
  | p :: l => (l, s.wakeupWait f p)

/-- `wakeup_queue` with `del` set, which leaves the queue empty. -/
def wakeupQueue (f : WaitState) (l : List Nat) (s : Sleepers) : Sleepers := l.foldl (wakeupWait f) s

/-- `__do_kill`, or the expiry of a timer. -/
def interrupt (p : Nat) (s : Sleepers) : Sleepers := if (s.waitState p).canInterrupt then s.wakeupProc p else s

@[simp] lemma wakeupProc_waitState : (s.wakeupProc p).waitState q = if q = p then .none else s.waitState q :=
  update_apply ..

@[simp] lemma wakeupProc_wakeupFlags : (s.wakeupProc p).wakeupFlags = s.wakeupFlags := rfl

@[simp] lemma waitCurrentSet_waitState : (s.waitCurrentSet p w).waitState q = if q = p then w else s.waitState q :=
  update_apply ..

@[simp] lemma waitCurrentSet_wakeupFlags :
    (s.waitCurrentSet p w).wakeupFlags q = if q = p then .interrupted else s.wakeupFlags q :=
  update_apply ..

@[simp] lemma wakeupWait_waitState : (s.wakeupWait f p).waitState q = if q = p then .none else s.waitState q :=
  update_apply ..

@[simp] lemma wakeupWait_wakeupFlags : (s.wakeupWait f p).wakeupFlags q = if q = p then f else s.wakeupFlags q :=
  update_apply ..

@[simp] lemma interrupt_wakeupFlags : (s.interrupt p).wakeupFlags = s.wakeupFlags := by
  unfold interrupt
  split
  all_goals rfl

lemma interrupt_waitState : (s.interrupt p).waitState q = if q = p ∧
    (s.waitState p).canInterrupt = true then .none else s.waitState q := by
  unfold interrupt
  by_cases hp : (s.waitState p).canInterrupt = true
  · simp [hp]
  · simp [hp]

lemma interrupt_cases : (s.interrupt p).waitState q = s.waitState q ∨ (s.interrupt p).waitState q = .none := by
  grind [interrupt_waitState]

lemma wakeupQueue_waitState : (s.wakeupQueue f l).waitState q = if q ∈ l then .none else s.waitState q := by
  induction l generalizing s with
  | nil => rfl
  | cons p l ih =>
    change (wakeupQueue f l (s.wakeupWait f p)).waitState q = _
    grind [wakeupWait_waitState]

lemma wakeupQueue_wakeupFlags : (s.wakeupQueue f l).wakeupFlags q = if q ∈ l then f else s.wakeupFlags q := by
  induction l generalizing s with
  | nil => rfl
  | cons p l ih =>
    change (wakeupQueue f l (s.wakeupWait f p)).wakeupFlags q = _
    grind [wakeupWait_wakeupFlags]

lemma wakeupFirst_subset : (s.wakeupFirst f l).1 ⊆ l := by
  cases l with
  | nil => exact List.Subset.refl _
  | cons q rest => exact List.subset_cons_self q rest

structure Queued (w : WaitState) (s : Sleepers) (l : List Nat) : Prop where
  nodup : l.Nodup
  waits : ∀ p ∈ l, s.waitState p = w ∨ s.waitState p = .none
  flags : ∀ p ∈ l, s.wakeupFlags p = .interrupted

lemma Queued.nil : Queued w s [] := by
  refine ⟨List.nodup_nil, ?_, ?_⟩
  all_goals
    intro p hp
    cases hp

section

variable (h : Queued w s l)
include h

lemma Queued.congr {t : Sleepers} (hw : ∀ p ∈ l, t.waitState p = s.waitState p ∨ t.waitState p = .none)
    (hf : ∀ p ∈ l, t.wakeupFlags p = s.wakeupFlags p) : Queued w t l := by
  refine ⟨h.nodup, fun p hp => ?_, fun p hp => (hf p hp).trans (h.flags p hp)⟩
  grind [h.waits]

lemma Queued.sublist {l' : List Nat} (hsub : l'.Sublist l) : Queued w s l' :=
  ⟨h.nodup.sublist hsub, fun p hp => h.waits p (hsub.subset hp), fun p hp => h.flags p (hsub.subset hp)⟩

lemma Queued.interrupt (p : Nat) : Queued w (s.interrupt p) l :=
  h.congr (fun _ _ => interrupt_cases) fun _ _ => by rw [interrupt_wakeupFlags]

lemma Queued.push (hp : p ∉ l) : Queued w (s.waitCurrentSet p w) (l ++ [p]) := by
  refine ⟨?_, fun q hq => ?_, fun q hq => ?_⟩
  · exact List.nodup_append.mpr ⟨h.nodup, List.nodup_singleton p,
      fun a ha b hb heq => hp (List.mem_singleton.mp hb ▸ heq ▸ ha)⟩
  · grind [waitCurrentSet_waitState, h.waits]
  · grind [waitCurrentSet_wakeupFlags, h.flags]

lemma Queued.waitCurrentSet {w' : WaitState} (hp : p ∉ l) : Queued w (s.waitCurrentSet p w') l := by
  have hne : ∀ q ∈ l, q ≠ p := fun q hq heq => hp (heq ▸ hq)
  exact h.congr (fun q hq => .inl (by simp [hne q hq])) fun q hq => by simp [hne q hq]

lemma Queued.wakeupWait (hp : p ∉ l) : Queued w (s.wakeupWait f p) l := by
  have hne : ∀ q ∈ l, q ≠ p := fun q hq heq => hp (heq ▸ hq)
  exact h.congr (fun q hq => .inl (by simp [hne q hq])) fun q hq => by simp [hne q hq]

omit h in
lemma Queued.pop (h : Queued w s (p :: l)) : Queued w (s.wakeupWait f p) l :=
  (h.sublist (List.sublist_cons_self p l)).wakeupWait (List.nodup_cons.mp h.nodup).1

lemma Queued.wakeupQueue {l' : List Nat} (hdisj : ∀ q ∈ l, q ∉ l') : Queued w (s.wakeupQueue f l') l :=
  h.congr (fun q hq => .inl (by rw [wakeupQueue_waitState, if_neg (hdisj q hq)]))
    fun q hq => by rw [wakeupQueue_wakeupFlags, if_neg (hdisj q hq)]

end

end Sleepers

end Ucore.Sync
