import Mathlib.Data.List.Sublists
import Ucore.Lib.RingBuffer
import Ucore.Lib.Run
import Ucore.Sync.Wait

/-!
# The keyboard buffer

`dev_stdin.c`. A read sleeps in the middle of a request when there are no characters
left. It runs with interrupts off and under the kernel lock, so only its calls of
`schedule` let anything else happen. The record of what was typed, kept and handed out
is not in the source.
-/

namespace Ucore.Fs.Devs

open Ucore.Lib Ucore.Sync Function

def stdinBufsize : Nat := 4096

structure StdinRead where
  len : Nat
  got : List UInt8
  wait : Wait
  deriving DecidableEq, Repr

structure Stdin where
  buffer : Nat → UInt8
  rpos : Nat
  wpos : Nat
  reads : Nat → Option StdinRead
  typed : List UInt8
  kept : List UInt8
  handed : List UInt8
  returned : List (Nat × List UInt8)

namespace Stdin

def init : Stdin := ⟨fun _ => 0, 0, 0, fun _ => none, [], [], [], []⟩

@[simp] def wakeupReaders (s : Stdin) : Stdin :=
  { s with reads := fun p => (s.reads p).map fun r => { r with wait := r.wait.wakeup } }

def devStdinWrite (c : UInt8) (s : Stdin) : Stdin :=
  if c ≠ 0 then
    let room := s.wpos - s.rpos < stdinBufsize
    { s with
      buffer := update s.buffer (s.wpos % stdinBufsize) c
      wpos := if room then s.wpos + 1 else s.wpos
      typed := s.typed ++ [c]
      kept := if room then s.kept ++ [c] else s.kept }.wakeupReaders
  else s

/-- The loop of `dev_stdin_read` until it has `n` more characters or has to
sleep. -/
def takeChars : Nat → Stdin → List UInt8 × Stdin
  | 0, s => ([], s)
  | n + 1, s =>
    if s.rpos < s.wpos then
      let c := s.buffer (s.rpos % stdinBufsize)
      let r := takeChars n { s with rpos := s.rpos + 1, handed := s.handed ++ [c] }
      (c :: r.1, r.2)
    else ([], s)

/-- `dev_stdin_read` from its start, or from `try_again`. -/
def devStdinRead (p len : Nat) (got : List UInt8) (s : Stdin) : Stdin :=
  let r := takeChars (len - got.length) s
  if got.length + r.1.length < len then
    { r.2 with reads := update r.2.reads p (some ⟨len, got ++ r.1, .asleep⟩) }
  else
    { r.2 with reads := update r.2.reads p none, returned := r.2.returned ++ [(p, got ++ r.1)] }

def resume (p : Nat) (r : StdinRead) (s : Stdin) : Stdin :=
  match r.wait with
  | .woken => s.devStdinRead p r.len r.got
  | _ => { s with reads := update s.reads p none, returned := s.returned ++ [(p, r.got)] }

end Stdin

inductive StdinEvent
  | key (c : UInt8)
  | read (p len : Nat)
  | resume (p : Nat)
  | kill (p : Nat)
  deriving DecidableEq, Repr

namespace Stdin

def step (s : Stdin) : StdinEvent → Except Empty Stdin
  | .key c => .ok (s.devStdinWrite c)
  | .read p len => .ok (if s.reads p = none then s.devStdinRead p len [] else s)
  | .resume p => .ok <|
    match s.reads p with
    | some r => if r.wait.Runnable then s.resume p r else s
    | none => s
  | .kill p => .ok { s with reads := update s.reads p ((s.reads p).map fun r => { r with wait := r.wait.kill }) }

def unread (s : Stdin) : List UInt8 := window s.buffer stdinBufsize s.rpos s.wpos

/-- A character that arrives when the buffer is full is the one that is unread
longest. -/
def Keeps (s : Stdin) : StdinEvent → Prop
  | .key c => c = 0 ∨ s.wpos - s.rpos < stdinBufsize ∨ c = s.buffer (s.rpos % stdinBufsize)
  | _ => True

instance (s : Stdin) (e : StdinEvent) : Decidable (s.Keeps e) := by
  unfold Keeps
  split <;> infer_instance

def Bounded (s : Stdin) : Prop := s.rpos ≤ s.wpos ∧ s.wpos ≤ s.rpos + stdinBufsize

structure Ordered (s : Stdin) : Prop where
  bounded : s.Bounded
  fifo : s.handed ++ s.unread = s.kept
  sub : s.kept.Sublist s.typed

variable {s s' : Stdin} {e : StdinEvent}

lemma Bounded.takeChars (h : s.Bounded) : (takeChars n s).2.Bounded := by
  induction n generalizing s with
  | zero => exact h
  | succ n ih =>
    rw [Stdin.takeChars]
    split
    · rename_i hlt
      exact ih ⟨hlt, Nat.le_trans h.2 (by simp only; omega)⟩
    · exact h

lemma takeChars_ok : (takeChars n s).2.handed ++ (takeChars n s).2.unread = s.handed ++ s.unread ∧
    (takeChars n s).2.kept = s.kept ∧ (takeChars n s).2.typed = s.typed := by
  induction n generalizing s with
  | zero => exact ⟨rfl, rfl, rfl⟩
  | succ n ih =>
    rw [takeChars]
    split
    · rename_i hlt
      obtain ⟨hq, hk, ht⟩ := ih (s := { s with
        rpos := s.rpos + 1, handed := s.handed ++ [s.buffer (s.rpos % stdinBufsize)] })
      refine ⟨hq.trans ?_, hk, ht⟩
      rw [unread, unread, window_pop hlt, List.append_assoc]
      rfl
    · exact ⟨rfl, rfl, rfl⟩

lemma takeChars_eq : (takeChars n s).1 = s.unread.take n ∧ (takeChars n s).2.handed = s.handed ++ s.unread.take n := by
  induction n generalizing s with
  | zero => simp [takeChars]
  | succ n ih =>
    rw [takeChars]
    split
    · rename_i hlt
      obtain ⟨h1, h2⟩ := ih (s := { s with
        rpos := s.rpos + 1, handed := s.handed ++ [s.buffer (s.rpos % stdinBufsize)] })
      rw [unread, window_pop hlt, List.take_succ_cons]
      refine ⟨congrArg _ h1, h2.trans ?_⟩
      rw [List.append_assoc]
      rfl
    · rename_i hlt
      simp [unread, window_eq_nil (Nat.le_of_not_lt hlt)]

lemma Ordered.takeChars (h : s.Ordered) : (takeChars n s).2.Ordered := by
  obtain ⟨hq, hk, ht⟩ := takeChars_ok (n := n) (s := s)
  exact ⟨h.bounded.takeChars, by rw [hq, hk, h.fifo], by rw [hk, ht]; exact h.sub⟩

lemma Bounded.devStdinRead (h : s.Bounded) : (s.devStdinRead p len got).Bounded := by
  rw [Stdin.devStdinRead]
  split
  · exact h.takeChars
  · exact h.takeChars

lemma Ordered.devStdinRead (h : s.Ordered) : (s.devStdinRead p len got).Ordered := by
  have h' := h.takeChars (n := len - got.length)
  rw [Stdin.devStdinRead]
  split
  · exact ⟨h'.bounded, h'.fifo, h'.sub⟩
  · exact ⟨h'.bounded, h'.fifo, h'.sub⟩

lemma devStdinRead_handed : (s.devStdinRead p len []).handed = s.handed ++ s.unread.take len := by
  rw [devStdinRead]
  split
  · exact takeChars_eq.2
  · exact takeChars_eq.2

lemma devStdinRead_typed : (s.devStdinRead p len got).typed = s.typed := by
  rw [devStdinRead]
  split
  · exact takeChars_ok.2.2
  · exact takeChars_ok.2.2

lemma Bounded.resume (h : s.Bounded) : (s.resume p r).Bounded := by
  rw [Stdin.resume]
  split
  · exact h.devStdinRead
  · exact h

lemma Ordered.resume (h : s.Ordered) : (s.resume p r).Ordered := by
  rw [Stdin.resume]
  split
  · exact h.devStdinRead
  · exact ⟨h.bounded, h.fifo, h.sub⟩

lemma Bounded.devStdinWrite (h : s.Bounded) : (s.devStdinWrite c).Bounded := by
  rw [Stdin.devStdinWrite]
  split
  · obtain ⟨h1, h2⟩ := h
    by_cases hroom : s.wpos - s.rpos < stdinBufsize
    · simp only [Bounded, wakeupReaders, if_pos hroom]
      omega
    · simp only [Bounded, wakeupReaders, if_neg hroom]
      exact ⟨h1, h2⟩
  · exact h

lemma unread_room (h : s.Bounded) (hc : c ≠ 0) (hroom : s.wpos - s.rpos < stdinBufsize) :
    (s.devStdinWrite c).unread = s.unread ++ [c] := by
  simp only [devStdinWrite, hc, ne_eq, not_false_eq_true, ↓reduceIte, hroom, wakeupReaders, unread]
  exact window_push h.1 (by omega)

lemma unread_full (h : s.Bounded) (hc : c ≠ 0) (hfull : ¬ s.wpos - s.rpos < stdinBufsize) :
    (s.devStdinWrite c).unread = c :: window s.buffer stdinBufsize (s.rpos + 1) s.wpos := by
  have hw : s.wpos = s.rpos + stdinBufsize := by
    obtain ⟨h1, h2⟩ := h
    omega
  simp only [devStdinWrite, hc, ne_eq, not_false_eq_true, ↓reduceIte, hfull, wakeupReaders, unread]
  rw [hw]
  exact window_overwrite (by decide)

lemma unread_eq_cons (hfull : ¬ s.wpos - s.rpos < stdinBufsize) :
    s.unread = s.buffer (s.rpos % stdinBufsize) :: window s.buffer stdinBufsize (s.rpos + 1) s.wpos :=
  window_pop (by simp only [stdinBufsize] at hfull; omega)

def queueKey (s : Stdin) (c : UInt8) : List UInt8 :=
  if c ≠ 0 ∧ s.wpos - s.rpos < stdinBufsize then s.unread ++ [c] else s.unread

lemma devStdinWrite_unread_iff (h : s.Bounded) : (s.devStdinWrite c).unread = s.queueKey c ↔ s.Keeps (.key c) := by
  unfold queueKey Keeps
  by_cases hc : c = 0
  · simp [devStdinWrite, hc]
  by_cases hroom : s.wpos - s.rpos < stdinBufsize
  · simp [unread_room h hc hroom, hc, hroom]
  · rw [unread_full h hc hroom, unread_eq_cons hroom]
    simp [hc, hroom]

lemma Ordered.devStdinWrite (h : s.Ordered) (hk : s.Keeps (.key c)) : (s.devStdinWrite c).Ordered := by
  have hu := (devStdinWrite_unread_iff h.bounded).mpr hk
  refine ⟨h.bounded.devStdinWrite, ?_, ?_⟩
  · rw [hu, queueKey, Stdin.devStdinWrite]
    by_cases hc : c = 0
    · simp [hc, h.fifo]
    by_cases hroom : s.wpos - s.rpos < stdinBufsize
    · simp [hc, hroom, ← h.fifo]
    · simp [hc, hroom, h.fifo]
  · rw [Stdin.devStdinWrite]
    split
    · simp only [wakeupReaders]
      split
      · exact h.sub.append (List.Sublist.refl _)
      · exact h.sub.trans (List.sublist_append_left ..)
    · exact h.sub

lemma Bounded.step (h : s.Bounded) (hs : s.step e = .ok s') : s'.Bounded := by
  cases e with
  | key c => exact Except.ok.inj hs ▸ h.devStdinWrite
  | read p len =>
    cases hs
    split
    · exact h.devStdinRead
    · exact h
  | resume p =>
    cases hs
    grind [h.resume]
  | kill p => exact Except.ok.inj hs ▸ h

lemma Ordered.step (h : s.Ordered) (hk : s.Keeps e) (hs : s.step e = .ok s') : s'.Ordered := by
  cases e with
  | key c => exact Except.ok.inj hs ▸ h.devStdinWrite hk
  | read p len =>
    cases hs
    split
    · exact h.devStdinRead
    · exact h
  | resume p =>
    cases hs
    grind [h.resume]
  | kill p => exact Except.ok.inj hs ▸ ⟨h.bounded, h.fifo, h.sub⟩

def Reached : Stdin → Prop := Reachable step (fun _ _ => True) (· = init)

lemma Ordered.init : Ordered init := ⟨⟨le_rfl, Nat.zero_le _⟩, rfl, List.Sublist.refl _⟩

lemma Reached.bounded (h : Reached s) : s.Bounded :=
  h.invariant (fun _ hs => hs ▸ Ordered.init.bounded) fun _ _ _ h _ => h.step

lemma exists_filled (hn : n ≤ stdinBufsize) : ∃ s, Reached s ∧ s.rpos = 0 ∧ s.wpos = n ∧
    s.unread = List.replicate n 97 ∧ s.typed = List.replicate n 97 ∧ s.handed = [] ∧ s.reads 0 = none := by
  induction n with
  | zero => exact ⟨init, .init rfl, rfl, rfl, rfl, rfl, rfl, rfl⟩
  | succ n ih =>
    obtain ⟨s, hs, hr, hw, hu, ht, hh, hp⟩ := ih (Nat.le_of_succ_le hn)
    have hroom : s.wpos - s.rpos < stdinBufsize := by omega
    refine ⟨s.devStdinWrite 97, .step hs trivial (a := .key 97) rfl, ?_, ?_, ?_, ?_, ?_, ?_⟩
    · simp [devStdinWrite, hr]
    · grind [wakeupReaders, devStdinWrite]
    · rw [unread_room hs.bounded (by decide) hroom, hu, List.replicate_succ']
    · simp [devStdinWrite, ht, List.replicate_succ']
    · simp [devStdinWrite, hh]
    · simp [devStdinWrite, hp]

/-- In every run without a character that arrives at a full buffer and differs from the
oldest unread one, readers get the characters kept, in order. -/
theorem chars_in_order (s : Stdin) :
    (Reachable step Keeps (· = init) s → s.handed.Sublist s.typed ∧ s.handed ++ s.unread = s.kept) ∧
    ∀ c, Reached s → ((s.devStdinWrite c).unread = s.queueKey c ↔ s.Keeps (.key c)) := by
  refine ⟨fun hs => ?_, fun c hs => devStdinWrite_unread_iff hs.bounded⟩
  have h : s.Ordered := hs.invariant (fun _ hs => hs ▸ Ordered.init) fun _ _ _ h hk hs => h.step hk hs
  have hhanded : s.handed.Sublist s.kept := h.fifo ▸ List.sublist_append_left ..
  exact ⟨hhanded.trans h.sub, h.fifo⟩

/-- A reader that sleeps twice gets the first three characters. A key that arrives at 4096
unread characters and is the same as the oldest does no harm. -/
theorem chars_in_order_sleeps :
    (∃ s, Reachable step Keeps (· = init) s ∧ s.returned = [(1, [104, 105, 33])] ∧
    s.handed.Sublist s.typed ∧ s.handed ++ s.unread = s.kept) ∧
    ∃ s, Reached s ∧ s.wpos - s.rpos = stdinBufsize ∧ (s.devStdinWrite 97).unread = s.queueKey 97 := by
  constructor
  · have hrun : ∃ s, Reachable step Keeps (· = init) s ∧ s.returned = [(1, [104, 105, 33])] :=
    Reachable.exists_of_run
        [.key 104, .read 1 3, .key 105, .resume 1, .key 33, .key 63, .resume 1] rfl (by decide +kernel)
    obtain ⟨s, hs, hreturned⟩ := hrun
    exact ⟨s, hs, hreturned, (chars_in_order s).1 hs⟩
  · obtain ⟨s, hs, hr, hw, hu, -⟩ := exists_filled (Nat.le_refl stdinBufsize)
    have hfull : ¬ s.wpos - s.rpos < stdinBufsize := by omega
    have hold : 97 = s.buffer (s.rpos % stdinBufsize) := by
      rw [unread_eq_cons hfull] at hu
      exact (List.cons.inj (hu.trans (List.replicate_succ ..))).1.symm
    exact ⟨s, hs, by omega, ((chars_in_order s).2 97 hs).mpr (.inr (.inr hold))⟩

/-- A key typed when 4096 characters are unread replaces the oldest of them,
and is read before those typed earlier. -/
theorem key_overwrites : ∃ s, Reached s ∧ ¬ s.handed.Sublist s.typed := by
  obtain ⟨s, hs, hr, hw, hu, ht, hh, hp⟩ := exists_filled (Nat.le_refl stdinBufsize)
  have hfull : ¬ s.wpos - s.rpos < stdinBufsize := by omega
  have hs1 : Reached (s.devStdinWrite 122) := .step hs trivial (a := .key 122) rfl
  have hu1 : (s.devStdinWrite 122).unread = 122 :: List.replicate (stdinBufsize - 1) 97 := by
    rw [unread_eq_cons hfull] at hu
    rw [unread_full hs.bounded (by decide) hfull]
    exact congrArg (122 :: ·) (List.cons.inj (hu.trans (List.replicate_succ ..))).2
  refine ⟨(s.devStdinWrite 122).devStdinRead 0 2 [], .step hs1 trivial (a := .read 0 2) ?_, ?_⟩
  · simp [step, devStdinWrite, hp]
  have hhanded : ((s.devStdinWrite 122).devStdinRead 0 2 []).handed = [122, 97] := by
    rw [devStdinRead_handed, hu1]
    rw [show stdinBufsize - 1 = 4094 + 1 from rfl, List.replicate_succ]
    generalize List.replicate 4094 (97 : UInt8) = l
    simp [devStdinWrite, hh]
  have htyped : ((s.devStdinWrite 122).devStdinRead 0 2 []).typed = List.replicate stdinBufsize 97 ++ [122] := by
    rw [devStdinRead_typed]
    simp [devStdinWrite, ht]
  rw [hhanded, htyped, List.sublist_append_iff]
  rintro ⟨l1, l2, hl, h1, h2⟩
  -- 122 is the last character typed, so 97 cannot follow it
  cases l1 with
  | nil =>
    have := h2.length_le
    rw [← hl.trans (List.nil_append l2)] at this
    exact absurd this (by decide)
  | cons c l1 =>
    obtain rfl : 122 = c := (List.cons.inj hl).1
    have := List.eq_of_mem_replicate (h1.subset (.head _))
    exact absurd this (by decide)

end Stdin

end Ucore.Fs.Devs
