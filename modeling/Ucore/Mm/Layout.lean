import Mathlib.Tactic.Common

/-!
# User address ranges

Addresses and sizes are 64-bit words; sums wrap, as `addr + len` does in the
code. `KERN_ACCESS` is left out: it is asked only for a kernel thread, which
has no `mm`.
-/

namespace Ucore

def pgSize : Nat := 4096
def userBase : Nat := 0x1000000
def userTop : Nat := 0x100000000000
def wordSize : Nat := 0x10000000000000000

def addWrap (a b : Nat) : Nat := (a + b) % wordSize

def roundDown (a : Nat) : Nat := a - a % pgSize

def roundUp (a : Nat) : Nat := roundDown (addWrap a (pgSize - 1))

def userAccess (start stop : Nat) : Bool :=
  decide (userBase ≤ start ∧ start < stop ∧ stop ≤ userTop)

lemma userAccess_iff : userAccess start stop = true ↔ userBase ≤ start ∧ start < stop ∧ stop ≤ userTop := by
  simp [userAccess]

@[simp] lemma roundDown_mod (a : Nat) : roundDown a % pgSize = 0 := by
  simp only [roundDown, pgSize]
  omega

@[simp] lemma roundUp_mod (a : Nat) : roundUp a % pgSize = 0 := roundDown_mod _

lemma roundDown_of_mod (h : a % pgSize = 0) : roundDown a = a := by simp [roundDown, h]

lemma roundUp_of_mod (h : a % pgSize = 0) (ha : a < wordSize) : roundUp a = a := by
  simp only [wordSize, pgSize] at h ha
  simp only [roundUp, roundDown, addWrap, wordSize, pgSize]
  omega

lemma lt_wordSize (h : a ≤ userTop) : a < wordSize := by
  simp only [userTop] at h
  simp only [wordSize]
  omega

lemma addWrap_sub (h : a ≤ b) (hb : b < wordSize) : addWrap a (b - a) = b := by
  rw [addWrap, Nat.add_sub_cancel' h, Nat.mod_eq_of_lt hb]

lemma roundUp_lt (a : Nat) : roundUp a + pgSize ≤ wordSize := by
  simp only [roundUp, roundDown, addWrap, wordSize, pgSize]
  omega

@[simp] lemma roundUp_roundUp (a : Nat) : roundUp (roundUp a) = roundUp a := by
  simp only [roundUp, roundDown, addWrap, wordSize, pgSize]
  omega

end Ucore
