import Mathlib.GroupTheory.Perm.Cycle.Basic

/-!
# Rings

Circular doubly linked lists. The forward links of all rings together are a
permutation, whose inverse are the backward links. Two elements are in the same
ring when they are in the same cycle.
-/

namespace Ucore.Lib.Ring

open Equiv (Perm swap)
open Function (minimalPeriod)

variable {α : Type} {σ : Perm α} {p x y z c : α} {n m : Nat}

lemma sameCycle_iff_pow : σ.SameCycle x y ↔ (∃ n : Nat, (σ ^ n) x = y) ∨ ∃ n : Nat, (σ ^ n) y = x := by
  constructor
  · rintro ⟨i, hi⟩
    obtain ⟨n, rfl | rfl⟩ := i.eq_nat_or_neg
    · exact .inl ⟨n, by simpa using hi⟩
    refine .inr ⟨n, ?_⟩
    rw [← hi, ← zpow_natCast, ← Equiv.Perm.mul_apply, ← zpow_add]
    simp
  · rintro (⟨n, hn⟩ | ⟨n, hn⟩)
    · exact ⟨n, by simpa using hn⟩
    · exact Equiv.Perm.SameCycle.symm ⟨n, by simpa using hn⟩

lemma eq_of_alone (hx : σ x = x) (h : σ.SameCycle x y) : y = x := by
  obtain ⟨i, hi⟩ := h
  rw [← hi]
  exact Equiv.Perm.zpow_apply_eq_self_of_apply_eq_self hx i

section Links

variable [DecidableEq α]

def unlink (σ : Perm α) (p : α) : Perm α := swap p (σ p) * σ

def insertBefore (σ : Perm α) (c z : α) : Perm α := swap z c * σ

lemma unlink_self : unlink σ p p = p := by
  simp [unlink]

lemma unlink_of_ne (hx : x ≠ p) : unlink σ p x = if σ x = p then σ p else σ x := by
  have hne : σ x ≠ σ p := fun h => hx (σ.injective h)
  grind [Perm.mul_apply, unlink]

lemma insertBefore_self (hz : σ z = z) : insertBefore σ c z z = c := by
  simp [insertBefore, hz]

lemma insertBefore_of_ne (hz : σ z = z) (hx : x ≠ z) : insertBefore σ c z x = if σ x = c then z else σ x := by
  have hne : σ x ≠ z := fun h => hx (σ.injective (h.trans hz.symm))
  grind [insertBefore, Perm.mul_apply]

lemma moved_of_unlink (h : unlink σ p x ≠ x) : x ≠ p ∧ σ x ≠ x := by
  grind [unlink_self, unlink_of_ne]

lemma moved_of_insertBefore (hz : σ z = z) (h : insertBefore σ c z x ≠ x) : x = z ∨ x = c ∨ σ x ≠ x := by
  grind [insertBefore_of_ne]

lemma unlink_insertBefore (hz : σ z = z) : unlink (insertBefore σ c z) z = σ := by
  rw [unlink, insertBefore_self hz, insertBefore, ← mul_assoc, Equiv.swap_mul_self, one_mul]

section

variable (hx : x ≠ p)
include hx

lemma sameCycle_unlink_apply : σ.SameCycle x (unlink σ p x) := by
  grind [Perm.sameCycle_apply_right, Perm.SameCycle.refl, unlink_of_ne]

lemma unlink_ne : unlink σ p x ≠ p := by
  intro h
  exact hx ((unlink σ p).injective (h.trans unlink_self.symm))

lemma pow_unlink (n : Nat) : (unlink σ p ^ n) x ≠ p ∧ σ.SameCycle x ((unlink σ p ^ n) x) := by
  induction n with
  | zero => exact ⟨hx, .refl σ x⟩
  | succ n ih =>
    rw [pow_succ', Equiv.Perm.mul_apply]
    exact ⟨unlink_ne ih.1, ih.2.trans (sameCycle_unlink_apply ih.1)⟩

lemma sameCycle_of_pow (hy : y ≠ p) (h : (σ ^ n) x = y) : (unlink σ p).SameCycle x y := by
  induction n using Nat.strong_induction_on generalizing x with
  | _ n ih =>
    cases n with
    | zero => exact h ▸ .refl _ x
    | succ n =>
      rw [pow_succ, Equiv.Perm.mul_apply] at h
      have hstep : (unlink σ p).SameCycle x (unlink σ p x) := Equiv.Perm.sameCycle_apply_right.mpr (.refl _ x)
      by_cases hp : σ x = p
      · rw [hp] at h
        cases n with
        | zero => exact absurd h.symm hy
        | succ n =>
          rw [pow_succ, Equiv.Perm.mul_apply] at h
          rw [unlink_of_ne hx, if_pos hp] at hstep
          have hne : σ p ≠ p := fun heq => hx (σ.injective (hp.trans heq.symm))
          exact hstep.trans (ih n (by omega) hne h)
      · rw [unlink_of_ne hx, if_neg hp] at hstep
        exact hstep.trans (ih n (Nat.lt_succ_self n) hp h)

lemma sameCycle_unlink (hy : y ≠ p) : (unlink σ p).SameCycle x y ↔ σ.SameCycle x y := by
  constructor
  · intro h
    rcases sameCycle_iff_pow.mp h with ⟨n, hn⟩ | ⟨n, hn⟩
    · exact hn ▸ (pow_unlink hx n).2
    · exact hn ▸ (pow_unlink hy n).2.symm
  · intro h
    rcases sameCycle_iff_pow.mp h with ⟨n, hn⟩ | ⟨n, hn⟩
    · exact sameCycle_of_pow hx hy hn
    · exact (sameCycle_of_pow hy hx hn).symm

end

lemma sameCycle_insertBefore (hz : σ z = z) (hx : x ≠ z) (hy : y ≠ z) :
    (insertBefore σ c z).SameCycle x y ↔ σ.SameCycle x y := by
  conv_rhs => rw [← unlink_insertBefore (c := c) hz]
  exact (sameCycle_unlink hx hy).symm

end Links

lemma moved_iterate (hx : σ x ≠ x) (n : Nat) : σ (σ^[n] x) ≠ σ^[n] x := by
  intro h
  refine hx (σ.injective.iterate n ?_)
  rw [← Function.iterate_succ_apply, Function.iterate_succ_apply' σ]
  exact h

lemma periodic (s : Finset α) (hs : ∀ y, σ y ≠ y → y ∈ s) (x : α) : x ∈ Function.periodicPts σ := by
  by_cases hx : σ x = x
  · exact ⟨1, Nat.one_pos, hx⟩
  have hmoved : ∀ n : Nat, σ^[n] x ∈ s := fun n => hs _ (moved_iterate hx n)
  obtain ⟨a, b, hlt, heq⟩ := s.finite_toSet.exists_lt_map_eq_of_forall_mem hmoved
  exact ⟨b - a, by omega, Function.iterate_cancel σ.injective heq.symm⟩

lemma minimalPeriod_le (s : Finset α) (hs : ∀ y, σ y ≠ y → y ∈ s) (x : α) : minimalPeriod σ x ≤ s.card + 1 := by
  by_cases hx : σ x = x
  · have : minimalPeriod σ x ≤ 1 := Function.IsPeriodicPt.minimalPeriod_le Nat.one_pos hx
    omega
  refine Nat.le_succ_of_le ?_
  rw [← Finset.card_range (minimalPeriod σ x)]
  refine Finset.card_le_card_of_injOn (fun n => σ^[n] x) ?_ ?_
  · exact fun n _ => hs _ (moved_iterate hx n)
  · simp [Function.iterate_injOn_Iio_minimalPeriod]

lemma next_eq_start (hm : m < minimalPeriod σ x) : σ (σ^[m] x) = x ↔ m + 1 = minimalPeriod σ x := by
  rw [← Function.iterate_succ_apply' σ]
  constructor
  · intro h
    have hle : minimalPeriod σ x ≤ m + 1 := Function.IsPeriodicPt.minimalPeriod_le (Nat.succ_pos m) h
    omega
  · grind [Function.iterate_minimalPeriod]

lemma sameCycle_iff (hx : x ∈ Function.periodicPts σ) : σ.SameCycle x y ↔ ∃ m < minimalPeriod σ x, σ^[m] x = y := by
  have hpos := Function.minimalPeriod_pos_of_mem_periodicPts hx
  constructor
  · intro h
    rcases sameCycle_iff_pow.mp h with ⟨n, hn⟩ | ⟨n, hn⟩
    · refine ⟨n % minimalPeriod σ x, Nat.mod_lt n hpos, ?_⟩
      rw [Function.iterate_mod_minimalPeriod_eq, ← hn, Equiv.Perm.iterate_eq_pow]
    -- the rest of the round after `n` steps from `y`
    let k := minimalPeriod σ x * n - n
    have hk : n + k = minimalPeriod σ x * n := Nat.add_sub_cancel' (Nat.le_mul_of_pos_left n hpos)
    have hround : σ^[n] (σ^[k] x) = x := by
      rw [← Function.iterate_add_apply, hk]
      exact (Function.isPeriodicPt_minimalPeriod σ x).mul_const n
    have hy : σ^[k] x = y := by
      refine σ.injective.iterate n (hround.trans ?_)
      rw [← hn, Equiv.Perm.iterate_eq_pow]
    refine ⟨k % minimalPeriod σ x, Nat.mod_lt k hpos, ?_⟩
    rw [Function.iterate_mod_minimalPeriod_eq, hy]
  · rintro ⟨m, -, rfl⟩
    exact sameCycle_iff_pow.mpr (.inl ⟨m, by rw [Equiv.Perm.iterate_eq_pow]⟩)

end Ucore.Lib.Ring
