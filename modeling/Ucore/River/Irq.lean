import Mathlib.Algebra.Ring.Nat
import Ucore.Lib.Run

/-!
# Interrupts of devices

`trap_dispatch` notes an interrupt in `irq_mask` and `irq_accumulate`, and
`irq_process` calls the handlers of what has been noted, with interrupts enabled. It
runs at the end of a section, or in the trap if there is no section. Interrupts and
switches to other processes may come between any two steps.

`1 << irq_no` is an `int`, which is negative for 31, so that `irq_mask` gets all bits
from 31 on.
-/

namespace Ucore.River.Irq

open Lib (Reachable)
open Function

variable {H : Type} {S : Set Nat}

def irqCount : Nat := 32

inductive Frame
  | saved
  | draining
  | leaving
  | handler
  deriving DecidableEq, Repr

structure Cpu (H : Type) where
  irqMask : Nat
  irqAccumulate : Nat → Nat
  irqHandler : Nat → Option H
  current : Nat
  irqSaveLevel : Nat → Nat
  stack : Nat → List Frame
  arrived : Nat → Nat
  /-- Number, handler and count of each call, the last one first. -/
  calls : List (Nat × H × Nat)

inductive Event (H : Type)
  | trap (irqNo : Nat)
  | localIrqSave
  | next
  | trapIrqHandlerSet (irqNo : Nat) (h : Option H)
  | switch (p : Nat)

/-- `1 << irq_no` as a `uint64_t`. -/
def bit (irqNo : Nat) : Nat := if irqNo < 31 then 2 ^ irqNo else 2 ^ 64 - 2 ^ 31

def passed (calls : List (Nat × H × Nat)) (irqNo : Nat) : Nat :=
  ((calls.filter (·.1 = irqNo)).map (·.2.2)).sum

namespace Cpu

variable {s s' : Cpu H} {e : Event H}

def setCurrent (s : Cpu H) (level : Nat) (fs : List Frame) : Cpu H :=
  { s with irqSaveLevel := update s.irqSaveLevel s.current level, stack := update s.stack s.current fs }

/-- `trap_dispatch` for a device. -/
def trap (s : Cpu H) (irqNo : Nat) : Cpu H :=
  let s := { s with
    irqMask := s.irqMask ||| bit irqNo
    irqAccumulate := update s.irqAccumulate irqNo ((s.irqAccumulate irqNo + 1) % 2 ^ 64)
    arrived := update s.arrived irqNo (s.arrived irqNo + 1) }
  -- outside of sections the trap itself runs `irq_process`
  if s.irqSaveLevel s.current = 0 then s.setCurrent 1 (.draining :: s.stack s.current) else s

def localIrqSave (s : Cpu H) : Cpu H :=
  s.setCurrent ((s.irqSaveLevel s.current + 1) % 2 ^ 32) (.saved :: s.stack s.current)

def localIrqRestore (s : Cpu H) (fs : List Frame) : Cpu H :=
  if s.irqSaveLevel s.current = 1 ∧ s.irqMask ≠ 0 then s.setCurrent 1 (.draining :: fs)
  else s.setCurrent (s.irqSaveLevel s.current - 1) fs

/-- One round of the loop. The error is an index outside of `irq_handler`. -/
def irqProcess (s : Cpu H) (fs : List Frame) : Except Nat (Cpu H) :=
  if s.irqMask = 0 then .ok (s.setCurrent (s.irqSaveLevel s.current) (.leaving :: fs))
  else
    let irqNo := s.irqMask.log2
    let s' := { s with irqMask := s.irqMask ^^^ bit irqNo }
    if irqNo < irqCount then
      match s.irqHandler irqNo with
      | some h => .ok ({ s' with
          irqAccumulate := update s.irqAccumulate irqNo 0
          calls := (irqNo, h, s.irqAccumulate irqNo) :: s.calls
        }.setCurrent (s.irqSaveLevel s.current) (.handler :: .draining :: fs))
      | none => .ok s'
    else .error irqNo

def next (s : Cpu H) : Except Nat (Cpu H) :=
  match s.stack s.current with
  | [] => .ok s
  | .saved :: fs => .ok (s.localIrqRestore fs)
  | .draining :: fs => s.irqProcess fs
  | .leaving :: fs => .ok (s.setCurrent (s.irqSaveLevel s.current - 1) fs)
  | .handler :: fs => .ok (s.setCurrent (s.irqSaveLevel s.current) fs)

def trapIrqHandlerSet (s : Cpu H) (irqNo : Nat) (h : Option H) : Cpu H :=
  { s with
    irqHandler := update s.irqHandler irqNo h
    irqMask := if s.irqAccumulate irqNo ≠ 0 then s.irqMask ||| bit irqNo else s.irqMask }

def step (s : Cpu H) : Event H → Except Nat (Cpu H)
  | .trap irqNo => .ok (s.trap irqNo)
  | .localIrqSave => .ok s.localIrqSave
  | .next => s.next
  | .trapIrqHandlerSet irqNo h => .ok (s.trapIrqHandlerSet irqNo h)
  | .switch p => .ok { s with current := p }

def booted : Cpu H := ⟨0, fun _ => 0, fun _ => none, 0, fun _ => 0, fun _ => [], fun _ => 0, []⟩

def Careful (S : Set Nat) (s : Cpu H) : Event H → Prop
  | .trap irqNo => irqNo ∈ S ∧ irqNo < irqCount ∧ s.irqAccumulate irqNo + 1 < 2 ^ 64
  | .localIrqSave => s.irqSaveLevel s.current + 1 < 2 ^ 32
  | .trapIrqHandlerSet irqNo _ => irqNo < irqCount
  | _ => True

def Reached (S : Set Nat) : Cpu H → Prop := Reachable step (Careful S) (· = booted)

def Calls (s s' : Cpu H) : Prop :=
  s'.calls = s.calls ∨ ∃ i h, s.irqHandler i = some h ∧ s.irqAccumulate i ≠ 0 ∧
    s'.calls = (i, h, s.irqAccumulate i) :: s.calls

structure Accounted (s : Cpu H) : Prop where
  total : ∀ i h, s.irqHandler i = some h → passed s.calls i + s.irqAccumulate i = s.arrived i
  once : ∀ p, (s.stack p).count .handler ≤ 1
  called : ∀ e, ∃ s', s.step e = .ok s' ∧ Calls s s'

def Shape : Nat → List Frame → Prop
  | n, [] => n = 0
  | n, .saved :: fs => 0 < n ∧ Shape (n - 1) fs
  | n, .draining :: fs | n, .leaving :: fs => n = 1 ∧ fs = []
  | n, .handler :: fs => n = 1 ∧ fs = [.draining]

lemma Shape.once (h : Shape n fs) : fs.count .handler ≤ 1 := by
  induction fs generalizing n with
  | nil => decide
  | cons f fs ih =>
    cases f with
    | saved => simpa using ih h.2
    | _ => simp [h.2]

lemma Shape.eq_nil (h : Shape 0 fs) : fs = [] := by
  cases fs with
  | nil => rfl
  | cons f fs => cases f <;> cases h.1

structure Inv (s : Cpu H) : Prop where
  pending : ∀ i, s.irqMask.testBit i = true → s.irqAccumulate i ≠ 0
  noted : ∀ i, s.irqAccumulate i ≠ 0 → i < 31 ∧ ((s.irqHandler i).isSome → s.irqMask.testBit i = true)
  total : ∀ i, passed s.calls i + s.irqAccumulate i = s.arrived i
  shape : ∀ p, Shape (s.irqSaveLevel p) (s.stack p)

lemma testBit_bit (hi : i < 31) (j : Nat) : (bit i).testBit j = decide (i = j) := by
  rw [bit, if_pos hi, Nat.testBit_two_pow]

lemma passed_cons (calls : List (Nat × H × Nat)) (h : H) (i n j : Nat) :
    passed ((i, h, n) :: calls) j = (if i = j then n else 0) + passed calls j := by
  by_cases hij : i = j <;> simp [passed, hij]

section

variable (h : Inv s)
include h

lemma Inv.setCurrent (hs : Shape n fs) : Inv (s.setCurrent n fs) := by
  refine ⟨h.pending, h.noted, h.total, fun p => ?_⟩
  by_cases hp : p = s.current
  · simpa [Cpu.setCurrent, hp] using hs
  · simpa [Cpu.setCurrent, update_of_ne hp] using h.shape p

lemma Inv.trap (hi : i < 31) (hroom : s.irqAccumulate i + 1 < 2 ^ 64) : Inv (s.trap i) := by
  have hmid : Inv { s with
      irqMask := s.irqMask ||| bit i
      irqAccumulate := update s.irqAccumulate i ((s.irqAccumulate i + 1) % 2 ^ 64)
      arrived := update s.arrived i (s.arrived i + 1) } := by
    rw [Nat.mod_eq_of_lt hroom]
    refine ⟨fun j => ?_, fun j => ?_, fun j => ?_, h.shape⟩ <;> by_cases hj : j = i
    · simp [hj]
    · simpa [hj, Ne.symm hj, testBit_bit hi] using h.pending j
    · simp [hj, hi, testBit_bit hi]
    · simpa [hj, Ne.symm hj, testBit_bit hi] using h.noted j
    · have := h.total i
      simp [hj]
      omega
    · simpa [hj] using h.total j
  rw [Cpu.trap]
  dsimp only
  split_ifs with hl
  · -- at level 0 the process has begun nothing
    have hs := h.shape s.current
    rw [hl] at hs
    rw [hs.eq_nil]
    exact hmid.setCurrent ⟨rfl, rfl⟩
  · exact hmid

lemma Inv.trapIrqHandlerSet (x : Option H) : Inv (s.trapIrqHandlerSet i x) := by
  refine ⟨fun j hj => ?_, fun j hj => ⟨(h.noted j hj).1, fun hx => ?_⟩, h.total, h.shape⟩
  · by_cases hi : s.irqAccumulate i = 0
    · exact h.pending j (by simpa [Cpu.trapIrqHandlerSet, hi] using hj)
    by_cases hji : i = j
    · exact hji ▸ hi
    · exact h.pending j (by simpa [Cpu.trapIrqHandlerSet, hi, testBit_bit (h.noted i hi).1, hji] using hj)
  · by_cases hji : j = i
    · subst hji
      simp [Cpu.trapIrqHandlerSet, show s.irqAccumulate j ≠ 0 from hj, testBit_bit (h.noted j hj).1]
    · have := (h.noted j hj).2 (by simpa [Cpu.trapIrqHandlerSet, hji] using hx)
      by_cases hi : s.irqAccumulate i = 0 <;> simp [Cpu.trapIrqHandlerSet, hi, this]

lemma Inv.highest (hm : s.irqMask ≠ 0) : s.irqAccumulate s.irqMask.log2 ≠ 0 ∧ s.irqMask.log2 < 31 := by
  have hp := h.pending _ (Nat.testBit_log2 hm)
  exact ⟨hp, (h.noted _ hp).1⟩

lemma Inv.irqProcess (hfs : s.stack s.current = .draining :: fs) :
    ∃ s', s.irqProcess fs = .ok s' ∧ Inv s' ∧ Calls s s' := by
  have hshape := h.shape s.current
  rw [hfs] at hshape
  obtain ⟨hl, rfl⟩ := hshape
  rw [Cpu.irqProcess, hl]
  by_cases hm : s.irqMask = 0
  · exact ⟨_, if_pos hm, h.setCurrent ⟨rfl, rfl⟩, .inl rfl⟩
  obtain ⟨hp, hlt⟩ := h.highest hm
  generalize s.irqMask.log2 = i at hp hlt ⊢
  have hcount : i < irqCount := by simp only [irqCount]; omega
  rw [if_neg hm]
  dsimp only
  rw [if_pos hcount]
  have hbit j (hj : j ≠ i) : (s.irqMask ^^^ bit i).testBit j = s.irqMask.testBit j := by
    simp [testBit_bit hlt, Ne.symm hj]
  cases hx : s.irqHandler i with
  | none =>
    -- the bit goes, and the count waits for a handler to be set
    refine ⟨_, rfl, ⟨fun j hj => ?_, fun j hj => ⟨(h.noted j hj).1, fun hsome => ?_⟩, h.total, h.shape⟩, .inl rfl⟩
    · by_cases hji : j = i
      · exact hji ▸ hp
      · exact h.pending j ((hbit j hji).symm.trans hj)
    · have hji : j ≠ i := fun hji => by simp [hji, hx] at hsome
      exact (hbit j hji).trans ((h.noted j hj).2 hsome)
  | some x =>
    -- the count moves from `irq_accumulate` to the call
    refine ⟨_, rfl, Inv.setCurrent ?_ ⟨rfl, rfl⟩, .inr ⟨i, x, hx, hp, rfl⟩⟩
    refine ⟨fun j hj => ?_, fun j hj => ?_, fun j => ?_, h.shape⟩
    · have hset := (h.noted i hp).2 (by simp [hx])
      have hji : j ≠ i := fun hji => by simp [hji, testBit_bit hlt, hset] at hj
      simpa [hji] using h.pending j ((hbit j hji).symm.trans hj)
    · have hji : j ≠ i := fun hji => by simp [hji] at hj
      have hj' : s.irqAccumulate j ≠ 0 := by simpa [hji] using hj
      exact ⟨(h.noted j hj').1, fun hsome => (hbit j hji).trans ((h.noted j hj').2 hsome)⟩
    · have := h.total j
      rw [passed_cons]
      by_cases hji : j = i
      · subst hji
        simp
        omega
      · simpa [hji, Ne.symm hji] using this

lemma Inv.next : ∃ s', s.next = .ok s' ∧ Inv s' ∧ Calls s s' := by
  have hshape := h.shape s.current
  rw [Cpu.next]
  cases hfs : s.stack s.current with
  | nil => exact ⟨s, rfl, h, .inl rfl⟩
  | cons f fs =>
    rw [hfs] at hshape
    cases f with
    | saved =>
      refine ⟨_, rfl, ?_⟩
      rw [localIrqRestore]
      split_ifs with hl
      · -- the outermost section has nothing below it
        rw [hl.1] at hshape
        rw [hshape.2.eq_nil]
        exact ⟨h.setCurrent ⟨rfl, rfl⟩, .inl rfl⟩
      · exact ⟨h.setCurrent hshape.2, .inl rfl⟩
    | draining => exact h.irqProcess hfs
    | leaving =>
      obtain ⟨hl, rfl⟩ := hshape
      exact ⟨_, rfl, h.setCurrent (by rw [hl]; rfl), .inl rfl⟩
    | handler =>
      obtain ⟨hl, rfl⟩ := hshape
      exact ⟨_, rfl, h.setCurrent ⟨hl, rfl⟩, .inl rfl⟩

lemma Inv.accounted : Accounted s := by
  refine ⟨fun i _ _ => h.total i, fun p => (h.shape p).once, fun e => ?_⟩
  cases e with
  | next =>
    obtain ⟨s', hs', -, hcalls⟩ := h.next
    exact ⟨s', hs', hcalls⟩
  | trap i =>
    refine ⟨_, rfl, .inl ?_⟩
    rw [Cpu.trap]
    dsimp only
    split_ifs <;> rfl
  | _ => exact ⟨_, rfl, .inl rfl⟩

lemma Inv.step (hS : 31 ∉ S) (he : Careful S s e) (hs : s.step e = .ok s') : Inv s' := by
  cases e with
  | trap i =>
    obtain ⟨hi, hcount, hroom⟩ := he
    have hne : i ≠ 31 := fun hi' => hS (hi' ▸ hi)
    exact Except.ok.inj hs ▸ h.trap (by simp only [irqCount] at hcount; omega) hroom
  | localIrqSave =>
    refine Except.ok.inj hs ▸ h.setCurrent ?_
    rw [Nat.mod_eq_of_lt he]
    exact ⟨Nat.succ_pos _, h.shape _⟩
  | next =>
    obtain ⟨s1, hs1, hinv, -⟩ := h.next
    exact Except.ok.inj (hs1.symm.trans hs) ▸ hinv
  | trapIrqHandlerSet i x => exact Except.ok.inj hs ▸ h.trapIrqHandlerSet x
  | switch p => exact Except.ok.inj hs ▸ ⟨h.pending, h.noted, h.total, h.shape⟩

end

/-- Nothing is lost, and handlers do not nest, exactly when interrupt 31 cannot come. -/
theorem accounted_iff : (∀ s : Cpu H, Reached S s → s.Accounted) ↔ 31 ∉ S := by
  constructor
  · intro h h31
    have hcome : Careful S (booted : Cpu H) (.trap 31) := ⟨h31, by decide, by simp [booted]⟩
    have hbsr : Nat.log2 0xFFFFFFFF80000000 = 63 := by decide
    have hstop : ((booted : Cpu H).trap 31).step .next = .error 63 := by
      simp [Cpu.step, Cpu.next, Cpu.trap, Cpu.setCurrent, Cpu.irqProcess, booted, bit, irqCount, hbsr]
    obtain ⟨s', hs', -⟩ := (h _ (.step (.init rfl) hcome rfl)).called .next
    rw [hstop] at hs'
    cases hs'
  · intro hS s hr
    have hinv : Inv s := hr.invariant
      (fun s hs => hs ▸ ⟨by simp [booted], by simp [booted], by simp [booted, passed], fun _ => rfl⟩)
      fun s e s' h he hs => h.step hS he hs
    exact hinv.accounted

/-- The mask has bit 63 then, and `irq_handler` has 32 entries. -/
theorem handler_of_63 : ∃ s, Lib.run step (booted : Cpu Unit) [.trapIrqHandlerSet 31 (some ()), .trap 31] = .ok s ∧
    s.next = .error 63 :=
  ⟨_, rfl, rfl⟩

end Cpu

end Ucore.River.Irq
