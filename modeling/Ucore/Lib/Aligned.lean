import Mathlib.Tactic.Common

/-!
# Aligned blocks

The masks and exclusive ors by which an allocator finds the neighbour of a
block of `1 <<< k` units, as arithmetic on its number `m`.
-/

namespace Ucore.Lib

variable {m k x : Nat}

lemma shl_pos (k : Nat) : 0 < 1 <<< k := by
  rw [Nat.one_shiftLeft]
  exact Nat.two_pow_pos k

lemma shl_succ (k : Nat) : 1 <<< (k + 1) = 2 * 1 <<< k := by
  rw [Nat.one_shiftLeft, Nat.one_shiftLeft, Nat.pow_succ]
  omega

lemma shl_le (h : j ≤ k) : 1 <<< j ≤ 1 <<< k := by
  rw [Nat.one_shiftLeft, Nat.one_shiftLeft]
  exact Nat.pow_le_pow_right (by omega) h

lemma shl_dvd (h : j ≤ k) : 1 <<< j ∣ 1 <<< k := by
  rw [Nat.one_shiftLeft, Nat.one_shiftLeft]
  exact Nat.pow_dvd_pow 2 h

def twin (m : Nat) : Nat := if m % 2 = 0 then m + 1 else m - 1

lemma twin_div_two (m : Nat) : twin m / 2 = m / 2 := by
  simp only [twin]
  split <;> omega

lemma pair_iff (m s x : Nat) : (m / 2 * (2 * s) ≤ x ∧ x < m / 2 * (2 * s) + 2 * s) ↔
    (m * s ≤ x ∧ x < m * s + s) ∨ (twin m * s ≤ x ∧ x < twin m * s + s) := by
  have hc : m / 2 * (2 * s) = 2 * (m / 2 * s) := Nat.mul_left_comm ..
  rcases Nat.mod_two_eq_zero_or_one m with hm | hm
  · have h0 : m * s = 2 * (m / 2 * s) := by
      rw [← Nat.mul_assoc, show 2 * (m / 2) = m by omega]
    rw [twin, if_pos hm, Nat.add_mul, hc, h0]
    omega
  have h0 : m * s = 2 * (m / 2 * s) + s := by
    conv_lhs => rw [show m = 2 * (m / 2) + 1 by omega, Nat.add_mul, Nat.mul_assoc, Nat.one_mul]
  have h1 : (m - 1) * s = 2 * (m / 2 * s) := by
    rw [← Nat.mul_assoc, show 2 * (m / 2) = m - 1 by omega]
  rw [twin, if_neg (by omega), hc, h0, h1]
  omega

lemma xor_one_eq_twin (m : Nat) : m ^^^ 1 = twin m := by
  apply Nat.eq_of_testBit_eq
  intro i
  rw [Nat.testBit_xor]
  cases i with
  | zero => grind [twin]
  | succ i => simp [Nat.testBit_succ, twin_div_two]

lemma and_twin (m : Nat) : m &&& twin m = 2 * (m / 2) := by
  apply Nat.eq_of_testBit_eq
  intro i
  rw [Nat.testBit_and]
  cases i with
  | zero =>
    simp only [Nat.testBit_zero, twin]
    split <;> simp <;> omega
  | succ i => simp [Nat.testBit_succ, twin_div_two]

lemma mul_shl_xor (m k : Nat) : (m * 1 <<< k) ^^^ (1 <<< k) = twin m * 1 <<< k := by
  have hm : ∀ a : Nat, a * 1 <<< k = a <<< k := fun a => by rw [Nat.one_shiftLeft, Nat.shiftLeft_eq]
  rw [hm, hm, ← Nat.shiftLeft_xor_distrib, xor_one_eq_twin]

lemma mul_shl_and_twin (m k : Nat) : (m * 1 <<< k) &&& (twin m * 1 <<< k) = m / 2 * 1 <<< (k + 1) := by
  have hm : ∀ a : Nat, a * 1 <<< k = a <<< k := fun a => by rw [Nat.one_shiftLeft, Nat.shiftLeft_eq]
  rw [hm, hm, ← Nat.shiftLeft_and_distrib, and_twin, ← hm, shl_succ, Nat.mul_comm 2, Nat.mul_assoc]

lemma aligned_of_even {s : Nat} (h : x % s = 0) (hx : x / s % 2 = 0) : x % (2 * s) = 0 := by
  rw [Nat.mul_comm, Nat.mod_mul, h, hx, Nat.mul_zero]

lemma aligned_of_odd {s : Nat} (hs : 0 < s) (h : x % s = 0) (hx : x / s % 2 = 1) : (x + s) % (2 * s) = 0 := by
  refine aligned_of_even (by rw [Nat.add_mod_right, h]) ?_
  rw [Nat.add_div_right x hs]
  omega

lemma and_shl_sub_one (x k : Nat) : x &&& (1 <<< k - 1) = x % 1 <<< k := by
  rw [Nat.one_shiftLeft, Nat.and_two_pow_sub_one_eq_mod]

lemma and_shl_ne_zero (x k : Nat) : x &&& 1 <<< k ≠ 0 ↔ x / 1 <<< k % 2 = 1 := by
  have hbit : x.testBit k = decide (x / 1 <<< k % 2 = 1) := by
    rw [Nat.one_shiftLeft, Nat.testBit_eq_decide_div_mod_eq]
  constructor
  · intro hne
    by_contra hx
    rw [decide_eq_false hx] at hbit
    apply hne
    apply Nat.eq_of_testBit_eq
    intro i
    rw [Nat.one_shiftLeft, Nat.testBit_and, Nat.testBit_two_pow, Nat.zero_testBit]
    grind
  · intro hx hz
    rw [decide_eq_true hx] at hbit
    have := congrArg (Nat.testBit · k) hz
    simp [Nat.one_shiftLeft, hbit] at this

end Ucore.Lib
