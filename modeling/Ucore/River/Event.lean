import Ucore.Lib.Linked
import Ucore.Lib.Run

/-!
# Event queues of one CPU

`event_activate` and `event_loop`. A step is one load or store of the section
between `local_irq_save` and `local_irq_restore`. There is one such section at a
time: the level keeps off the devices, and a process is not left in it. But `T_IPI`
and `T_IPI_DOS` call `event_activate` at any of its steps, and run it through, for
the gate keeps interrupts off.
-/

namespace Ucore.River

open Lib (Forward Reachable)
open Function

inductive EventStatus
  | wait
  | queue
  | queueStrong
  deriving DecidableEq, Repr

/-- Where a section is: `event_activate` from `touch` on, `event_loop` from
`lookHead` on. -/
inductive Work
  | touch (e : Nat)
  | look (e : Nat)
  | setQueue (e : Nat)
  | clearNext (e : Nat)
  | lookTail (e : Nat)
  | tailFirst (e : Nat)
  | headFirst (e : Nat)
  | linkLast (e : Nat)
  | tailLast (e : Nat)
  | setStrong (e : Nat)
  | leave
  | lookHead (p : Nat)
  | lookStatus (p e : Nat)
  | setWait (p e : Nat)
  | popHead (p e : Nat)
  | clearTail (p e : Nat)
  | setAgain (p e : Nat)
  | lookLast (p e : Nat)
  | rotateHead (p e : Nat)
  | rotateLink (p e : Nat)
  | rotateTail (p e : Nat)
  | rotateNext (p e : Nat)
  | taken (p : Nat) (e : Option Nat)
  deriving DecidableEq, Repr

inductive Loop
  | top
  | busy
  | call (e : Nat)
  | handler (e : Nat)
  | exhaust
  | stopped
  deriving DecidableEq, Repr

def Loop.running : Loop → Bool
  | .handler _ | .exhaust => true
  | _ => false

def Loop.calling : Loop → Bool
  | .call _ => true
  | _ => false

structure Events where
  pool : Nat → Nat
  status : Nat → EventStatus
  next : Nat → Option Nat
  head : Nat → Option Nat
  tail : Nat → Option Nat
  toStop : Nat → Bool
  work : Option Work
  loop : Nat → Loop
  /-- The event has been activated and its handler has not been called since. -/
  owed : Nat → Bool

inductive EventFault
  | nullPointer
  deriving DecidableEq, Repr

inductive LoopEvent
  | activate (e : Nat)
  | round (p : Nat)
  | step
  /-- `T_IPI` or `T_IPI_DOS`. -/
  | ipi (e : Nat)
  | handle (p : Nat)
  | back (p : Nat)
  | stop (p : Nat)
  deriving DecidableEq, Repr

namespace Events

def goto (s : Events) (w : Work) : Events := { s with work := some w }
@[simp] def setStatus (s : Events) (e : Nat) (x : EventStatus) : Events := { s with status := update s.status e x }
def setNext (s : Events) (e : Nat) (x : Option Nat) : Events := { s with next := update s.next e x }
def setHead (s : Events) (p : Nat) (x : Option Nat) : Events := { s with head := update s.head p x }
def setTail (s : Events) (p : Nat) (x : Option Nat) : Events := { s with tail := update s.tail p x }
def setLoop (s : Events) (p : Nat) (x : Loop) : Events := { s with loop := update s.loop p x }

/-- `event_activate` after `local_irq_save`. -/
def begin (s : Events) (e : Nat) : Events := { s with work := some (.touch e), owed := update s.owed e true }

/-- `event_loop` after `local_irq_save`. -/
def atHead (s : Events) (p : Nat) : Events := (s.setLoop p .busy).goto (.lookHead p)

def micro (s : Events) : Work → Except EventFault Events
  | .touch e => .ok (s.goto (.look e))
  | .look e =>
    match s.status e with
    | .wait => .ok (s.goto (.setQueue e))
    | .queue => .ok (s.goto (.setStrong e))
    | .queueStrong => .ok (s.goto .leave)
  | .setQueue e => .ok ((s.setStatus e .queue).goto (.clearNext e))
  | .clearNext e => .ok ((s.setNext e none).goto (.lookTail e))
  | .lookTail e =>
    match s.tail (s.pool e) with
    | none => .ok (s.goto (.tailFirst e))
    | some _ => .ok (s.goto (.linkLast e))
  | .tailFirst e => .ok ((s.setTail (s.pool e) (some e)).goto (.headFirst e))
  | .headFirst e => .ok ((s.setHead (s.pool e) (some e)).goto .leave)
  | .linkLast e =>
    match s.tail (s.pool e) with
    | none => .error .nullPointer
    | some t => .ok ((s.setNext t (some e)).goto (.tailLast e))
  | .tailLast e => .ok ((s.setTail (s.pool e) (some e)).goto .leave)
  | .setStrong e => .ok ((s.setStatus e .queueStrong).goto .leave)
  | .leave => .ok { s with work := none }
  | .lookHead p =>
    match s.head p with
    | none => .ok (s.goto (.taken p none))
    | some e => .ok (s.goto (.lookStatus p e))
  | .lookStatus p e =>
    match s.status e with
    | .wait => .ok (s.goto (.taken p (some e)))
    | .queue => .ok (s.goto (.setWait p e))
    | .queueStrong => .ok (s.goto (.setAgain p e))
  | .setWait p e => .ok ((s.setStatus e .wait).goto (.popHead p e))
  | .popHead p e =>
    match s.head p with
    | none => .error .nullPointer
    | some h =>
      match s.next h with
      | none => .ok ((s.setHead p none).goto (.clearTail p e))
      | some x => .ok ((s.setHead p (some x)).goto (.taken p (some e)))
  | .clearTail p e => .ok ((s.setTail p none).goto (.taken p (some e)))
  | .setAgain p e => .ok ((s.setStatus e .queue).goto (.lookLast p e))
  | .lookLast p e => if s.tail p = some e then .ok (s.goto (.taken p (some e))) else .ok (s.goto (.rotateHead p e))
  | .rotateHead p e =>
    match s.head p with
    | none => .error .nullPointer
    | some h => .ok ((s.setHead p (s.next h)).goto (.rotateLink p e))
  | .rotateLink p e =>
    match s.tail p with
    | none => .error .nullPointer
    | some t => .ok ((s.setNext t (some e)).goto (.rotateTail p e))
  | .rotateTail p e => .ok ((s.setTail p (some e)).goto (.rotateNext p e))
  | .rotateNext p e => .ok ((s.setNext e none).goto (.taken p (some e)))
  | .taken p (some e) => .ok { s.setLoop p (.call e) with work := none }
  | .taken p none => .ok { s.setLoop p (if s.toStop p then .stopped else .exhaust) with work := none }

def finish : Nat → Events → Except EventFault Events
  | 0, s => .ok s
  | n + 1, s =>
    match s.work with
    | none => .ok s
    | some w => s.micro w >>= finish n

/-- `event_activate` has no more than eight steps. -/
def ipi (s : Events) (e : Nat) : Except EventFault Events := do
  let s' ← finish 8 (s.begin e)
  .ok { s' with work := s.work }

def handle (s : Events) (p : Nat) : Events :=
  match s.loop p with
  | .call e => { s.setLoop p (.handler e) with owed := update s.owed e false }
  | _ => s

def Allowed (s : Events) : LoopEvent → Prop
  | .activate _ | .stop _ => s.work = none
  | .round p => s.work = none ∧ s.loop p = .top
  | .step | .ipi _ => True
  | .handle p => s.work = none ∧ (s.loop p).calling = true
  | .back p => s.work = none ∧ (s.loop p).running = true

instance (s a) : Decidable (Allowed s a) := by
  unfold Allowed
  split <;> infer_instance

def step (s : Events) : LoopEvent → Except EventFault Events
  | .activate e => .ok (s.begin e)
  | .round p => .ok (s.atHead p)
  | .step =>
    match s.work with
    | none => .ok s
    | some w => s.micro w
  | .ipi e => s.ipi e
  | .handle p => .ok (s.handle p)
  | .back p => .ok (s.setLoop p .top)
  | .stop p => .ok { s with toStop := update s.toStop p true }

structure Start (s : Events) : Prop where
  status : ∀ e, s.status e = .wait
  head : ∀ p, s.head p = none
  tail : ∀ p, s.tail p = none
  work : s.work = none
  loop : ∀ p, s.loop p = .top
  owed : ∀ e, s.owed e = false

structure Queue (s : Events) (p : Nat) (l : List Nat) : Prop where
  head : s.head p = l.head?
  tail : s.tail p = l.getLast?
  forward : Forward s.next l
  nodup : l.Nodup
  mem : ∀ e, e ∈ l ↔ s.pool e = p ∧ s.status e ≠ .wait

/-- Outside the sections the queues are right, and an event that has been
activated is in its queue unless its handler is the next thing to be called. -/
structure Sound (s : Events) : Prop where
  queue : ∀ p, ∃ l, s.Queue p l
  owed : ∀ e, s.owed e = true → s.status e ≠ .wait ∨ s.loop (s.pool e) = .call e

def Calm (s : Events) : LoopEvent → Prop
  | .ipi _ => s.work = none
  | _ => True

instance (s a) : Decidable (Calm s a) := by
  unfold Calm
  split <;> infer_instance

variable {s s' t : Events} {a : LoopEvent} {e x p n : Nat} {l : List Nat}

lemma Start.sound (h : s.Start) : s.Sound := by
  refine ⟨fun p => ⟨[], ?_, ?_, trivial, List.nodup_nil, ?_⟩, ?_⟩
  · exact h.head p
  · exact h.tail p
  · simp [h.status]
  · simp [h.owed]

lemma Queue.frame (h : s.Queue p l) (hhead : s'.head p = s.head p) (htail : s'.tail p = s.tail p)
    (hpool : s'.pool = s.pool) (hnext : ∀ x, s.pool x = p → s'.next x = s.next x)
    (hst : ∀ x, s.pool x = p → s'.status x = s.status x) : s'.Queue p l := by
  refine ⟨hhead.trans h.head, htail.trans h.tail, h.forward.congr ?_, h.nodup, ?_⟩
  · exact fun x hx => hnext x ((h.mem x).mp hx).1
  · grind [h.mem]

lemma Queue.append (h : s.Queue p l) (he : s.pool e = p) (hw : s.status e = .wait) (hhead : s'.head p = (l ++ [e]).head?)
    (htail : s'.tail p = some e) (hpool : s'.pool = s.pool) (hnext : Forward s'.next (l ++ [e]))
    (hst : s'.status = update s.status e .queue) : s'.Queue p (l ++ [e]) := by
  have hmem : e ∉ l := fun hmem => ((h.mem e).mp hmem).2 hw
  refine ⟨hhead, by simp [htail], hnext, ?_, ?_⟩
  · exact List.nodup_append'.mpr ⟨h.nodup, List.nodup_singleton e, by simpa using hmem⟩
  · intro x
    rw [List.mem_append, List.mem_singleton, h.mem, hpool, hst]
    grind

section

variable (hw : s.work = none)
include hw

lemma begin_queued (hs : s.status e ≠ .wait) :
    finish 8 (s.begin e) = .ok { s.setStatus e .queueStrong with owed := update s.owed e true } := by
  cases hst : s.status e with
  | wait => exact absurd hst hs
  | queue => simp [finish, begin, micro, goto, hst, hw, bind, Except.bind]
  | queueStrong =>
    have hsame : update s.status e .queueStrong = s.status := by rw [← hst, Function.update_eq_self]
    simp [finish, begin, micro, goto, hst, hw, bind, Except.bind, hsame]

lemma begin_first (hs : s.status e = .wait) (ht : s.tail (s.pool e) = none) : finish 8 (s.begin e) =
    .ok { (((s.setStatus e .queue).setNext e none).setTail (s.pool e) (some e)).setHead (s.pool e) (some e) with
      owed := update s.owed e true } := by
  simp [finish, begin, micro, goto, hs, ht, hw, bind, Except.bind, setNext, setTail, setHead]

lemma begin_last (hs : s.status e = .wait) (ht : s.tail (s.pool e) = some x) : finish 8 (s.begin e) =
    .ok { (((s.setStatus e .queue).setNext e none).setNext x (some e)).setTail (s.pool e) (some e) with
      owed := update s.owed e true } := by
  simp [finish, begin, micro, goto, hs, ht, hw, bind, Except.bind, setNext, setTail]

structure Elsewhere (s s' : Events) (p : Nat) : Prop where
  pool : s'.pool = s.pool
  head : ∀ p', p' ≠ p → s'.head p' = s.head p'
  tail : ∀ p', p' ≠ p → s'.tail p' = s.tail p'
  next : ∀ x, s.pool x ≠ p → s'.next x = s.next x
  status : ∀ x, s.pool x ≠ p → s'.status x = s.status x

omit hw in
lemma Sound.elsewhere (hs : s.Sound) (h : Elsewhere s s' p) (hq : ∃ l, s'.Queue p l) (p' : Nat) :
    ∃ l, s'.Queue p' l := by
  by_cases hp : p' = p
  · exact hp ▸ hq
  · obtain ⟨l, hl⟩ := hs.queue p'
    exact ⟨l, hl.frame (h.head p' hp) (h.tail p' hp) h.pool
      (fun x hx => h.next x (hx ▸ hp)) fun x hx => h.status x (hx ▸ hp)⟩

omit hw in
lemma owed_begin (h : s.Sound) (hst : ∀ x, x ≠ e → s'.status x = s.status x) (he : s'.status e ≠ .wait)
    (hloop : s'.loop = s.loop) (hpool : s'.pool = s.pool) (howed : s'.owed = update s.owed e true) (x : Nat)
    (hx : s'.owed x = true) : s'.status x ≠ .wait ∨ s'.loop (s'.pool x) = .call x := by
  by_cases hxe : x = e
  · exact .inl (hxe ▸ he)
  rw [howed, update_of_ne hxe] at hx
  rw [hst x hxe, hloop, hpool]
  exact h.owed x hx

omit hw in
lemma begin_finish (h : s.Sound) (hw : s.work = none) : ∃ t, finish 8 (s.begin e) = .ok t ∧ t.work = none ∧ t.Sound := by
  obtain ⟨l, hl⟩ := h.queue (s.pool e)
  by_cases hs : s.status e = .wait
  · have hne : ∀ x, s.pool x ≠ s.pool e → x ≠ e := fun x hx heq => hx (by rw [heq])
    have hmem : e ∉ l := fun hmem => ((hl.mem e).mp hmem).2 hs
    have hst : ∀ x, x ≠ e → update s.status e .queue x = s.status x := fun x hx => update_of_ne hx ..
    cases ht : s.tail (s.pool e) with
    | none =>
      obtain rfl : l = [] := by simpa [hl.tail] using ht
      refine ⟨_, begin_first hw hs ht, hw, ?_, ?_⟩
      · refine h.elsewhere (p := s.pool e) ⟨rfl, ?_, ?_, ?_, ?_⟩ ⟨[e], hl.append rfl hs ?_ ?_ rfl ?_ rfl⟩
        · exact fun p' hp => update_of_ne hp ..
        · exact fun p' hp => update_of_ne hp ..
        · exact fun x hx => update_of_ne (hne x hx) ..
        · exact fun x hx => hst x (hne x hx)
        · exact update_self ..
        · exact update_self ..
        · exact ⟨update_self .., trivial⟩
      · exact owed_begin h hst (by simp [setHead, setTail, setNext]) rfl rfl rfl
    | some x =>
      have hlast : l.getLast? = some x := hl.tail.symm.trans ht
      have hx := (hl.mem x).mp (List.mem_of_getLast? hlast)
      refine ⟨_, begin_last hw hs ht, hw, ?_, ?_⟩
      · refine h.elsewhere (p := s.pool e) ⟨rfl, ?_, ?_, ?_, ?_⟩ ⟨l ++ [e], hl.append rfl hs ?_ ?_ rfl ?_ rfl⟩
        · exact fun p' hp => rfl
        · exact fun p' hp => update_of_ne hp ..
        · intro y hy
          have hyx : y ≠ x := fun heq => hy (by rw [heq, hx.1])
          exact (update_of_ne hyx ..).trans (update_of_ne (hne y hy) ..)
        · exact fun y hy => hst y (hne y hy)
        · exact hl.head.trans (by cases l <;> first | rfl | simp at hlast)
        · exact update_self ..
        · have hf : Forward (update s.next e none) l := by
            refine hl.forward.congr fun y hy => update_of_ne ?_ ..
            rintro rfl
            exact hmem hy
          exact hf.snoc hl.nodup hmem (update_self ..) hlast
      · exact owed_begin h hst (by simp [setTail, setNext]) rfl rfl rfl
  · have hst : ∀ x, x ≠ e → update s.status e .queueStrong x = s.status x := fun x hx => update_of_ne hx ..
    refine ⟨_, begin_queued hw hs, hw, ?_, ?_⟩
    · refine h.elsewhere (p := s.pool e) ⟨rfl, fun _ _ => rfl, fun _ _ => rfl, fun _ _ => rfl, ?_⟩ ⟨l, ?_⟩
      · exact fun x hx => hst x fun heq => hx (by rw [heq])
      refine ⟨hl.head, hl.tail, hl.forward, hl.nodup, fun x => ?_⟩
      rw [hl.mem]
      by_cases hx : x = e
      · subst hx
        simp [hs]
      · exact and_congr_right fun _ => by rw [← hst x hx]; rfl
    · exact owed_begin h hst (by simp) rfl rfl rfl

lemma round_empty (hh : s.head p = none) :
    finish 9 (s.atHead p) = .ok (s.setLoop p (if s.toStop p then .stopped else .exhaust)) := by
  simp [finish, atHead, micro, goto, hh, hw, bind, Except.bind, setLoop]

section

variable (hh : s.head p = some e)
include hh

lemma round_only (hs : s.status e = .queue) (hn : s.next e = none) :
    finish 9 (s.atHead p) = .ok ((((s.setStatus e .wait).setHead p none).setTail p none).setLoop p (.call e)) := by
  simp [finish, atHead, micro, goto, hh, hw, hs, hn, bind, Except.bind, setLoop, setHead, setTail]

lemma round_queue (hs : s.status e = .queue) (hn : s.next e = some x) :
    finish 9 (s.atHead p) = .ok (((s.setStatus e .wait).setHead p (some x)).setLoop p (.call e)) := by
  simp [finish, atHead, micro, goto, hh, hw, hs, hn, bind, Except.bind, setLoop, setHead]

lemma round_again (hs : s.status e = .queueStrong)
    (ht : s.tail p = some e) : finish 9 (s.atHead p) = .ok ((s.setStatus e .queue).setLoop p (.call e)) := by
  simp [finish, atHead, micro, goto, hh, hw, hs, ht, bind, Except.bind, setLoop]

lemma round_rotate (hs : s.status e = .queueStrong) (ht : s.tail p = some x) (hx : x ≠ e) : finish 9 (s.atHead p) =
    .ok ((((((s.setStatus e .queue).setHead p (s.next e)).setNext x (some e)).setTail p
    (some e)).setNext e none).setLoop p
    (.call e)) := by
  simp [finish, atHead, micro, goto, hh, hw, hs, ht, hx, bind, Except.bind, setLoop, setHead, setTail, setNext]

lemma round_stale (hs : s.status e = .wait) : finish 9 (s.atHead p) = .ok (s.setLoop p (.call e)) := by
  simp [finish, atHead, micro, goto, hh, hw, hs, bind, Except.bind, setLoop]

end

end

lemma round_fault (hh : s.head p = some e) (hs : s.status e = .queueStrong) (ht : s.tail p = none) :
    finish 9 (s.atHead p) = .error .nullPointer := by
  simp [finish, atHead, micro, goto, hh, hs, ht, bind, Except.bind, setLoop, setHead]

lemma owed_round (h : s.Sound) (hp : s.loop p = .top) (he : s.pool e = p) (hst : ∀ x, x ≠ e → s'.status x = s.status x)
    (hloop : s'.loop = update s.loop p (.call e)) (hpool : s'.pool = s.pool) (howed : s'.owed = s.owed) (x : Nat)
    (hx : s'.owed x = true) : s'.status x ≠ .wait ∨ s'.loop (s'.pool x) = .call x := by
  rw [hloop, hpool]
  by_cases hxe : x = e
  · exact .inr (by rw [hxe, he, update_self])
  rw [howed] at hx
  rw [hst x hxe]
  refine (h.owed x hx).imp id fun hl => ?_
  have hxp : s.pool x ≠ p := by
    rintro rfl
    cases hp.symm.trans hl
  rwa [update_of_ne hxp]

lemma Queue.pop (h : s.Queue p (e :: l)) (hhead : s'.head p = l.head?) (htail : s'.tail p = l.getLast?)
    (hpool : s'.pool = s.pool) (hnext : s'.next = s.next)
    (hst : s'.status = update s.status e .wait) : s'.Queue p l := by
  obtain ⟨hmem, hnd⟩ := List.nodup_cons.mp h.nodup
  refine ⟨hhead, htail, hnext ▸ h.forward.2, hnd, fun x => ?_⟩
  rw [hpool, hst]
  by_cases hx : x = e
  · subst hx
    simp [hmem]
  · rw [update_of_ne hx, ← h.mem]
    simp [hx]

lemma Queue.rotate (h : s.Queue p (e :: l)) (hhead : s'.head p = (l ++ [e]).head?) (htail : s'.tail p = some e)
    (hpool : s'.pool = s.pool) (hnext : Forward s'.next (l ++ [e])) (hst : s'.status = update s.status e .queue) :
    s'.Queue p (l ++ [e]) := by
  obtain ⟨hmem, hnd⟩ := List.nodup_cons.mp h.nodup
  refine ⟨hhead, by simp [htail], hnext, ?_, fun x => ?_⟩
  · exact List.nodup_append'.mpr ⟨hnd, List.nodup_singleton e, by simpa using hmem⟩
  · have he := (h.mem e).mp (.head _)
    rw [hpool, hst, List.mem_append, List.mem_singleton]
    grind [h.mem]

lemma round_finish (h : s.Sound) (hw : s.work = none) (hp : s.loop p = .top) :
    ∃ t, finish 9 (s.atHead p) = .ok t ∧ t.work = none ∧ t.Sound := by
  obtain ⟨l, hl⟩ := h.queue p
  cases l with
  | nil =>
    refine ⟨_, round_empty hw hl.head, hw, ?_, ?_⟩
    · exact h.elsewhere (p := p) ⟨rfl, fun _ _ => rfl, fun _ _ => rfl, fun _ _ => rfl, fun _ _ => rfl⟩
        ⟨[], hl.head, hl.tail, hl.forward, hl.nodup, hl.mem⟩
    · intro x hx
      refine (h.owed x hx).imp id fun hc => ?_
      have hxp : s.pool x ≠ p := by
        rintro rfl
        cases hp.symm.trans hc
      exact (update_of_ne hxp ..).trans hc
  | cons e l =>
    obtain ⟨he, hst⟩ := (hl.mem e).mp (.head _)
    have hne : ∀ x, s.pool x ≠ p → x ≠ e := fun x hx heq => hx (heq ▸ he)
    cases hs : s.status e with
    | wait => exact absurd hs hst
    | queue =>
      -- the event leaves the queue
      have hst : ∀ x, x ≠ e → update s.status e .wait x = s.status x := fun x hx => update_of_ne hx ..
      cases l with
      | nil =>
        refine ⟨_, round_only hw hl.head hs hl.forward.1, hw, ?_, owed_round h hp he hst rfl rfl rfl⟩
        refine h.elsewhere (p := p) ⟨rfl, ?_, ?_, fun _ _ => rfl, ?_⟩ ⟨[], hl.pop ?_ ?_ rfl rfl rfl⟩
        · exact fun p' hp' => update_of_ne hp' ..
        · exact fun p' hp' => update_of_ne hp' ..
        · exact fun x hx => hst x (hne x hx)
        · exact update_self ..
        · exact update_self ..
      | cons y l =>
        refine ⟨_, round_queue hw hl.head hs hl.forward.1, hw, ?_, owed_round h hp he hst rfl rfl rfl⟩
        refine h.elsewhere (p := p) ⟨rfl, ?_, fun _ _ => rfl, fun _ _ => rfl, ?_⟩ ⟨y :: l, hl.pop ?_ ?_ rfl rfl rfl⟩
        · exact fun p' hp' => update_of_ne hp' ..
        · exact fun x hx => hst x (hne x hx)
        · exact update_self ..
        · exact hl.tail.trans List.getLast?_cons_cons
    | queueStrong =>
      -- the event goes to the end of the queue
      have hst : ∀ x, x ≠ e → update s.status e .queue x = s.status x := fun x hx => update_of_ne hx ..
      cases l with
      | nil =>
        refine ⟨_, round_again hw hl.head hs hl.tail, hw, ?_, owed_round h hp he hst rfl rfl rfl⟩
        refine h.elsewhere (p := p) ⟨rfl, fun _ _ => rfl, fun _ _ => rfl, fun _ _ => rfl, ?_⟩ ⟨[e], ?_⟩
        · exact fun x hx => hst x (hne x hx)
        · exact hl.rotate hl.head hl.tail rfl hl.forward rfl
      | cons y l =>
        obtain ⟨x, hlast⟩ : ∃ x, (y :: l).getLast? = some x := Option.isSome_iff_exists.mp (by simp)
        have hx := List.mem_of_getLast? hlast
        have hxp := ((hl.mem x).mp (.tail e hx)).1
        obtain ⟨hmem, hnd⟩ := List.nodup_cons.mp hl.nodup
        have hxe : x ≠ e := fun heq => hmem (heq ▸ hx)
        have htail : s.tail p = some x := hl.tail.trans (List.getLast?_cons_cons.trans hlast)
        refine ⟨_, round_rotate hw hl.head hs htail hxe, hw, ?_, owed_round h hp he hst rfl rfl rfl⟩
        refine h.elsewhere (p := p) ⟨rfl, ?_, ?_, ?_, ?_⟩ ⟨y :: l ++ [e], hl.rotate ?_ ?_ rfl ?_ rfl⟩
        · exact fun p' hp' => update_of_ne hp' ..
        · exact fun p' hp' => update_of_ne hp' ..
        · intro z hz
          have hzx : z ≠ x := fun heq => hz (heq ▸ hxp)
          exact (update_of_ne (hne z hz) ..).trans (update_of_ne hzx ..)
        · exact fun z hz => hst z (hne z hz)
        · exact (update_self ..).trans hl.forward.1
        · exact update_self ..
        · have hf : Forward (update s.next e none) (y :: l) := by
            refine hl.forward.2.congr fun z hz => update_of_ne ?_ ..
            rintro rfl
            exact hmem hz
          have := hf.snoc hnd hmem (update_self ..) hlast
          rwa [Function.update_comm (Ne.symm hxe)] at this

lemma finish_of_work (h : s.work = none) : finish n s = .ok s := by
  cases n with
  | zero => rfl
  | succ n => rw [finish, h]

def Inv (s : Events) : Prop := ∃ n t, finish n s = .ok t ∧ t.work = none ∧ t.Sound

lemma Inv.sound (h : s.Inv) (hw : s.work = none) : s.Sound := by
  obtain ⟨n, t, hn, -, ht⟩ := h
  rw [finish_of_work hw] at hn
  cases hn
  exact ht

lemma Sound.inv (h : s.Sound) (hw : s.work = none) : s.Inv := ⟨0, s, rfl, hw, h⟩

lemma Inv.micro (h : s.Inv) (hw : s.work = some w) (hs : s.micro w = .ok s') : s'.Inv := by
  obtain ⟨n, t, hn, htw, ht⟩ := h
  cases n with
  | zero =>
    cases hn
    cases hw.symm.trans htw
  | succ n =>
    rw [finish, hw] at hn
    dsimp only at hn
    rw [hs] at hn
    exact ⟨n, t, hn, htw, ht⟩

lemma Sound.memory (h : s.Sound)
    (hs : s' = { s with toStop := s'.toStop, work := s'.work, loop := s'.loop, owed := s'.owed }) (p : Nat) :
    ∃ l, s'.Queue p l := by
  obtain ⟨l, hl⟩ := h.queue p
  refine ⟨l, ?_⟩
  rw [hs]
  exact ⟨hl.head, hl.tail, hl.forward, hl.nodup, hl.mem⟩

lemma Sound.handle (h : s.Sound) (hp : s.loop p = .call e) : (s.handle p).Sound := by
  rw [Events.handle, hp]
  refine ⟨h.memory rfl, fun x hx => ?_⟩
  · change update s.owed e false x = true at hx
    have hxe : x ≠ e := by
      rintro rfl
      simp at hx
    rw [update_of_ne hxe] at hx
    refine (h.owed x hx).imp id fun hl => ?_
    have hxp : s.pool x ≠ p := by
      rintro rfl
      rw [hp] at hl
      exact hxe (Loop.call.inj hl).symm
    exact (update_of_ne hxp ..).trans hl

lemma Sound.setLoop (h : s.Sound) (hp : (s.loop p).calling = false) : (s.setLoop p place).Sound := by
  refine ⟨h.memory rfl, fun y hy => ?_⟩
  · refine (h.owed y hy).imp id fun hl => ?_
    have hyp : s.pool y ≠ p := by
      rintro rfl
      simp [hl, Loop.calling] at hp
    exact (update_of_ne hyp ..).trans hl

lemma Inv.step (h : s.Inv) (ha : Allowed s a) (hcalm : Calm s a) (hs : Events.step s a = .ok s') : s'.Inv := by
  cases a with
  | activate e =>
    cases hs
    obtain ⟨t, ht⟩ := begin_finish (e := e) (h.sound ha) ha
    exact ⟨8, t, ht⟩
  | round p =>
    cases hs
    obtain ⟨t, ht⟩ := round_finish (h.sound ha.1) ha.1 ha.2
    exact ⟨9, t, ht⟩
  | step => grind [step.eq_3, h.micro]
  | ipi e =>
    obtain ⟨t, ht, hw, hsound⟩ := begin_finish (e := e) (h.sound hcalm) hcalm
    rw [Events.step, Events.ipi, ht] at hs
    cases hs
    exact Sound.inv ⟨hsound.memory rfl, hsound.owed⟩ hcalm
  | handle p =>
    cases hs
    obtain ⟨hw, hc⟩ := ha
    cases hp : s.loop p with
    | call e =>
      refine ((h.sound hw).handle hp).inv ?_
      rw [Events.handle, hp]
      exact hw
    | _ => simp [hp, Loop.calling] at hc
  | back p =>
    cases hs
    obtain ⟨hw, hp⟩ := ha
    refine ((h.sound hw).setLoop ?_).inv hw
    cases hl : s.loop p with
    | call e => simp [hl, Loop.running] at hp
    | _ => rfl
  | stop p =>
    cases hs
    exact Sound.inv ⟨(h.sound ha).memory rfl, (h.sound ha).owed⟩ ha

/-- In a run without interrupts by other CPUs in a section, the queues are right
whenever no section is going on, and no activation is lost. -/
theorem events_sound (hr : Reachable step (fun s a => Allowed s a ∧ Calm s a) Start s)
    (hw : s.work = none) : s.Sound := by
  refine Inv.sound (hr.invariant (P := Inv) ?_ fun _ _ _ h ha hs => h.step ha.1 ha.2 hs) hw
  exact fun _ h => h.sound.inv h.work

def opened : Events where
  pool := fun _ => 0
  status := fun _ => .wait
  next := fun _ => none
  head := fun _ => none
  tail := fun _ => none
  toStop := fun _ => false
  work := none
  loop := fun _ => .top
  owed := fun _ => false

lemma opened_start : Start opened := ⟨fun _ => rfl, fun _ => rfl, fun _ => rfl, rfl, fun _ => rfl, fun _ => rfl⟩

theorem events_sound_two : ∃ s, Reachable step (fun s a => Allowed s a ∧ Calm s a) Start s ∧ s.work = none ∧
    s.loop 0 = .handler 0 ∧ s.head 0 = some 1 ∧ s.Sound := by
  obtain ⟨s, hr, hs⟩ : ∃ s, Reachable step (fun s a => Allowed s a ∧ Calm s a) Start s ∧
      s.work = none ∧ s.loop 0 = .handler 0 ∧ s.head 0 = some 1 :=
    Reachable.exists_of_run
      ([.activate 0] ++ List.replicate 8 .step ++ [.ipi 1, .ipi 0, .round 0] ++ List.replicate 9 .step ++ [.handle 0])
      opened_start (by decide +kernel)
  exact ⟨s, hr, hs.1, hs.2.1, hs.2.2, events_sound hr hs.1⟩

/-- `event_activate` of event 0 has seen an empty queue when another CPU has event 1
activated: its status stays, but no queue holds it. -/
theorem activation_lost : ∃ s, Reachable step Allowed Start s ∧ s.work = none ∧ s.loop 0 = .top ∧ s.owed 1 = true ∧
    s.status 1 = .queue ∧ s.head 0 = some 0 ∧ s.next 0 = none ∧ ¬ s.Sound := by
  obtain ⟨s, hr, hs⟩ : ∃ s, Reachable step Allowed Start s ∧
      s.work = none ∧ s.loop 0 = .top ∧ s.owed 1 = true ∧ s.status 1 = .queue ∧ s.head 0 = some 0 ∧
        s.next 0 = none ∧ s.pool 1 = 0 :=
    Reachable.exists_of_run
      ([.activate 0] ++ List.replicate 5 .step ++ [.ipi 1] ++ List.replicate 3 .step) opened_start (by decide +kernel)
  obtain ⟨hw, hloop, howed, hst, hhead, hnext, hpool⟩ := hs
  refine ⟨s, hr, hw, hloop, howed, hst, hhead, hnext, fun h => ?_⟩
  obtain ⟨l, hl⟩ := h.queue 0
  have hmem : 1 ∈ l := (hl.mem 1).mpr ⟨hpool, by simp [hst]⟩
  cases l with
  | nil => cases hmem
  | cons x l =>
    obtain rfl : 0 = x := by simpa [hhead] using hl.head
    cases l with
    | nil => simp at hmem
    | cons y l => cases hnext.symm.trans hl.forward.1

end Events

end Ucore.River
