import Mathlib.Data.Finset.Max
import Ucore.Fs.Sfs.BmapOk
import Ucore.Lib.Run

/-!
# The bitmap of `bitmap.c`

A set bit is a free index, and 32 of them are packed into a word. The bitmap
refines a finite set of indices. `kmalloc` does not fail.
-/

namespace Ucore.Fs

open Function
open Lib (Reachable)

structure Bitmap where
  nbits : Nat
  nwords : Nat
  map : Nat → BitVec 32

namespace Bitmap

variable {b b' : Bitmap} {S : Finset Nat} {nbits i j ix o : Nat}

/-- `map[ix] ^= 1 << offset`. -/
def toggle (b : Bitmap) (ix offset : Nat) : Bitmap :=
  { b with map := update b.map ix (b.map ix ^^^ .twoPow 32 offset) }

def bitmapCreate (nbits : Nat) : Except Panic Bitmap :=
  let nwords := (nbits + 31) % 2 ^ 32 / 32
  let ix := nwords - 1
  let overbits := nbits - ix * 32
  let b : Bitmap := ⟨nbits, nwords, fun k => if k < nwords then .allOnes 32 else 0⟩
  if nbits = 0 then .error .assertion
  else if nbits = nwords * 32 then .ok b
  else if nbits / 32 = ix ∧ 0 < overbits ∧ overbits < 32 then
    .ok ((List.range' overbits (32 - overbits)).foldl (toggle · ix) b)
  else .error .assertion

/-- `map[ix] & (1 << offset)`. -/
def test (b : Bitmap) (ix offset : Nat) : Bool := b.map ix &&& .twoPow 32 offset != 0

/-- The loop of `bitmap_alloc` over the next `n` words. -/
def allocFrom (b : Bitmap) : Nat → Nat → Except Panic (Option (Nat × Bitmap))
  | 0, _ => .ok none
  | n + 1, ix =>
    if b.map ix ≠ 0 then
      match firstSet (b.test ix) 32 0 with
      | some offset => .ok (some (ix * 32 + offset, b.toggle ix offset))
      | none => .error .assertion
    else b.allocFrom n (ix + 1)

def bitmapAlloc (b : Bitmap) : Except Panic (Option (Nat × Bitmap)) := b.allocFrom b.nwords 0

def bitmapTest (b : Bitmap) (index : Nat) : Except Panic Bool :=
  if index < b.nbits then .ok (b.test (index / 32) (index % 32)) else .error .assertion

def bitmapFree (b : Bitmap) (index : Nat) : Except Panic Bitmap :=
  if index < b.nbits ∧ b.test (index / 32) (index % 32) = false then
    .ok { b with map := update b.map (index / 32) (b.map (index / 32) ||| .twoPow 32 (index % 32)) }
  else .error .assertion

def has (b : Bitmap) (i : Nat) : Bool := (b.map (i / 32)).getLsbD (i % 32)

lemma test_eq (ho : o < 32) : b.test ix o = (b.map ix).getLsbD o := by
  cases h : (b.map ix).getLsbD o <;> simp [test, BitVec.and_twoPow, h]
  intro hz
  have hbit := congrArg (BitVec.getLsbD · o) hz
  simp [ho] at hbit

lemma has_eq (hi : i / 32 = ix) (ho : i % 32 = o) : b.has i = (b.map ix).getLsbD o := by rw [has, hi, ho]

lemma has_toggle (ho : o < 32) : (b.toggle ix o).has j = (b.has j ^^ decide (j / 32 = ix ∧ j % 32 = o)) := by
  by_cases hj : j / 32 = ix
  · subst hj
    simp [has, toggle, ho, eq_comm]
  · simp [has, toggle, hj]

lemma has_foldl (l : List Nat) (hl : ∀ o ∈ l, o < 32) (hnd : l.Nodup) :
    (l.foldl (toggle · ix) b).has j = (b.has j ^^ decide (j / 32 = ix ∧ j % 32 ∈ l)) := by
  induction l generalizing b with
  | nil => simp
  | cons o l ih =>
    obtain ⟨ho, hnd⟩ := List.nodup_cons.mp hnd
    rw [List.foldl_cons, ih (fun o' h => hl o' (List.mem_cons_of_mem _ h)) hnd, has_toggle (hl o (List.mem_cons_self ..))]
    by_cases hj : j % 32 = o <;> simp [hj, ho]

@[simp] lemma foldl_toggle (l : List Nat) : (l.foldl (toggle · ix) b).nbits = b.nbits ∧
    (l.foldl (toggle · ix) b).nwords = b.nwords := by
  induction l generalizing b with
  | nil => exact ⟨rfl, rfl⟩
  | cons o l ih => exact ih

lemma allocFrom_ok (n ix : Nat) : ∃ r, b.allocFrom n ix = .ok r ∧
    (r = none → ∀ j, ix * 32 ≤ j → j < (ix + n) * 32 → b.has j = false) ∧
    ∀ i b', r = some (i, b') → b' = b.toggle (i / 32) (i % 32) ∧ b.has i = true ∧
    ∀ j, ix * 32 ≤ j → j < i → b.has j = false := by
  induction n generalizing ix with
  | zero => exact ⟨none, rfl, fun _ j h h' => by omega, by simp⟩
  | succ n ih =>
    by_cases hz : b.map ix = 0
    · obtain ⟨r, hr, hnone, hsome⟩ := ih (ix + 1)
      have hword j (h : ix * 32 ≤ j) (h' : j < (ix + 1) * 32) : b.has j = false := by
        simp [has_eq (show j / 32 = ix by omega) rfl, hz]
      refine ⟨r, by simp [allocFrom, hz, hr], fun h j hj hj' => ?_, fun i b' h => ?_⟩
      · by_cases hw : j < (ix + 1) * 32
        · exact hword j hj hw
        · exact hnone h j (by omega) (by omega)
      obtain ⟨hb, hi, hmin⟩ := hsome i b' h
      refine ⟨hb, hi, fun j hj hj' => ?_⟩
      by_cases hw : j < (ix + 1) * 32
      · exact hword j hj hw
      · exact hmin j (by omega) hj'
    · simp only [allocFrom, ne_eq, hz, not_false_eq_true, if_true]
      cases hf : firstSet (b.test ix) 32 0 with
      | none =>
        -- a word with no bit set is zero
        refine absurd (BitVec.eq_of_getLsbD_eq fun o ho => ?_) hz
        simpa [test_eq ho] using firstSet_none hf (Nat.zero_le o) (by omega)
      | some o =>
        obtain ⟨hbit, -, ho, hmin⟩ := firstSet_some hf
        have hdiv : (ix * 32 + o) / 32 = ix := by omega
        have hmod : (ix * 32 + o) % 32 = o := by omega
        refine ⟨_, rfl, by simp, fun i b' h => ?_⟩
        obtain ⟨rfl, rfl⟩ := Prod.mk.inj (Option.some.inj h)
        rw [hdiv, hmod, has_eq hdiv hmod, ← test_eq (by omega)]
        refine ⟨rfl, hbit, fun j hj hj' => ?_⟩
        rw [has_eq (show j / 32 = ix by omega) rfl, ← test_eq (by omega)]
        exact hmin _ (Nat.zero_le _) (by omega)

structure Represents (b : Bitmap) (nbits : Nat) (S : Finset Nat) : Prop where
  size : b.nbits = nbits
  room : nbits ≤ b.nwords * 32
  mem : ∀ i, i ∈ S ↔ b.has i = true
  lt : ∀ i ∈ S, i < nbits

lemma bitmapCreate_ok (h0 : 0 < nbits) (hmax : nbits ≤ 2 ^ 31) :
    ∃ b, bitmapCreate nbits = .ok b ∧ b.Represents nbits (.range nbits) := by
  rw [bitmapCreate, Nat.mod_eq_of_lt (by omega), if_neg (by omega)]
  have hfull i : has ⟨nbits, (nbits + 31) / 32, fun k => if k < (nbits + 31) / 32 then .allOnes 32 else 0⟩ i =
      decide (i / 32 < (nbits + 31) / 32) := by
    by_cases hi : i / 32 < (nbits + 31) / 32
    · simp only [has, hi, if_true, BitVec.getLsbD_allOnes, Nat.mod_lt _ (show 32 > 0 by decide)]
    · simp [has, hi]
  split
  · refine ⟨_, rfl, rfl, by dsimp only; omega, fun i => ?_, fun i => Finset.mem_range.mp⟩
    rw [hfull, Finset.mem_range, decide_eq_true_eq]
    omega
  -- the bits of the last word from `nbits` on are taken out again
  rw [if_pos (by omega)]
  refine ⟨_, rfl, by simp, by simp; omega, fun i => ?_, fun i => Finset.mem_range.mp⟩
  rw [has_foldl _ (fun o ho => by rw [List.mem_range'_1] at ho; omega) (List.nodup_range' ..), hfull, Finset.mem_range]
  simp only [List.mem_range'_1, bne_iff_ne, ne_eq, decide_eq_decide]
  omega

lemma Represents.alloc_none (h : b.Represents nbits ∅) : b.bitmapAlloc = .ok none := by
  obtain ⟨r, hr, -, hsome⟩ := b.allocFrom_ok b.nwords 0
  cases r with
  | none => exact hr
  | some r => exact absurd ((h.mem _).mpr (hsome _ _ rfl).2.1) (Finset.notMem_empty _)

section

variable (h : b.Represents nbits S)
include h

lemma Represents.alloc_some (hne : S.Nonempty) :
    ∃ b', b.bitmapAlloc = .ok (some (S.min' hne, b')) ∧ b'.Represents nbits (S.erase (S.min' hne)) := by
  obtain ⟨r, hr, hnone, hsome⟩ := b.allocFrom_ok b.nwords 0
  have hleast := (h.mem _).mp (S.min'_mem hne)
  have hlt := h.lt _ (S.min'_mem hne)
  have hwords := h.room
  cases r with
  | none => simp [hnone rfl (S.min' hne) (by omega) (by omega)] at hleast
  | some r =>
    obtain ⟨hb, hi, hmin⟩ := hsome _ _ rfl
    -- the scan skips no element, so it meets the least one first
    have heq : r.1 = S.min' hne := by
      refine le_antisymm (Nat.not_lt.mp fun hgt => ?_) (S.min'_le _ ((h.mem _).mpr hi))
      simp [hmin _ (by omega) hgt] at hleast
    refine ⟨r.2, by rw [bitmapAlloc, hr, ← heq], by rw [hb]; exact h.size, by rw [hb]; exact h.room, fun j => ?_,
      fun j hj => h.lt j (Finset.mem_of_mem_erase hj)⟩
    rw [Finset.mem_erase, h.mem, hb, has_toggle (Nat.mod_lt _ (by decide)), ← heq]
    by_cases hj : j = r.1
    · simp [hj, hi]
    · simp [hj, show ¬ (j / 32 = r.1 / 32 ∧ j % 32 = r.1 % 32) by omega]

lemma Represents.test (hi : i < nbits) : b.bitmapTest i = .ok (decide (i ∈ S)) := by
  rw [bitmapTest, if_pos (h.size ▸ hi), test_eq (Nat.mod_lt _ (by decide)), ← has]
  simp [h.mem]

lemma Represents.free (hi : i < nbits) (hS : i ∉ S) :
    ∃ b', b.bitmapFree i = .ok b' ∧ b'.Represents nbits (insert i S) := by
  have hbit : b.test (i / 32) (i % 32) = false := by
    rw [test_eq (Nat.mod_lt _ (by decide)), ← has]
    simpa [h.mem] using hS
  refine ⟨_, if_pos ⟨h.size ▸ hi, hbit⟩, h.size, h.room, fun j => ?_, ?_⟩
  · rw [Finset.mem_insert, h.mem, has, has]
    by_cases hj : j / 32 = i / 32
    · simp [hj, Nat.mod_lt, show j = i ↔ j % 32 = i % 32 by omega, or_comm]
    · simp [hj, show j ≠ i by rintro rfl; exact hj rfl]
  · simpa [hi] using h.lt

lemma Represents.free_fails (hi : ¬ (i < nbits ∧ i ∉ S)) : b.bitmapFree i = .error .assertion := by
  refine if_neg fun hc => hi ⟨h.size ▸ hc.1, fun hS => ?_⟩
  have hbit := hc.2
  rw [test_eq (Nat.mod_lt _ (by decide)), ← has, (h.mem i).mp hS] at hbit
  cases hbit

end

inductive Op
  | alloc
  | free (index : Nat)
  deriving DecidableEq, Repr

def step (b : Bitmap) : Op → Except Panic Bitmap
  | .alloc => b.bitmapAlloc.map fun r => (r.map Prod.snd).getD b
  | .free index => b.bitmapFree index

lemma Represents.step_ok {a : Op} (h : ∃ S, b.Represents nbits S) (hs : b.step a = .ok b') :
    ∃ S, b'.Represents nbits S := by
  obtain ⟨S, h⟩ := h
  cases a with
  | alloc =>
    rcases S.eq_empty_or_nonempty with rfl | hne
    · rw [step, h.alloc_none] at hs
      exact ⟨∅, Except.ok.inj hs ▸ h⟩
    obtain ⟨c, hc, hrep⟩ := h.alloc_some hne
    rw [step, hc] at hs
    cases hs
    exact ⟨_, hrep⟩
  | free i =>
    by_cases hi : i < nbits ∧ i ∉ S
    · obtain ⟨c, hc, hrep⟩ := h.free hi.1 hi.2
      rw [step, hc] at hs
      exact ⟨_, Except.ok.inj hs ▸ hrep⟩
    · rw [step, h.free_fails hi] at hs
      cases hs

/-- Every bitmap of a run is a set of indices below `nbits`, and the functions
are its operations. -/
theorem bitmap_refines (h0 : 0 < nbits) (hmax : nbits ≤ 2 ^ 31) :
    (∃ b, bitmapCreate nbits = .ok b ∧ b.Represents nbits (.range nbits)) ∧
    ∀ b, Reachable step (fun _ _ => True) (bitmapCreate nbits = .ok ·) b → ∃ S, b.Represents nbits S ∧
    (S = ∅ → b.bitmapAlloc = .ok none) ∧
    (∀ hne : S.Nonempty, ∃ b', b.bitmapAlloc = .ok (some (S.min' hne, b')) ∧ b'.Represents nbits (S.erase (S.min' hne))) ∧
    (∀ i, i < nbits → i ∉ S → ∃ b', b.bitmapFree i = .ok b' ∧ b'.Represents nbits (insert i S)) ∧
    (∀ i, ¬ (i < nbits ∧ i ∉ S) → b.bitmapFree i = .error .assertion) ∧
    ∀ i < nbits, b.bitmapTest i = .ok (decide (i ∈ S)) := by
  obtain ⟨b0, hb0, h⟩ := bitmapCreate_ok h0 hmax
  refine ⟨⟨b0, hb0, h⟩, fun b hr => ?_⟩
  obtain ⟨S, hS⟩ : ∃ S, b.Represents nbits S := hr.invariant
    (fun b hb => ⟨_, Except.ok.inj (hb0.symm.trans hb) ▸ h⟩) fun _ _ _ h _ hs => Represents.step_ok h hs
  exact ⟨S, hS, fun he => (he ▸ hS).alloc_none, hS.alloc_some, fun _ => hS.free, fun _ => hS.free_fails, fun _ => hS.test⟩

theorem bitmap_refines_33 : ∃ b, bitmapCreate 33 = .ok b ∧ b.Represents 33 (.range 33) :=
  (bitmap_refines (by decide) (by decide)).1

end Bitmap

end Ucore.Fs
