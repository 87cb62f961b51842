import Mathlib.Algebra.BigOperators.Group.Finset.Piecewise
import Mathlib.Algebra.Order.BigOperators.Group.Finset

/-!
# Totals over a table

A table has infinitely many places, and all but finitely many of them weigh
nothing. `Total w n` says so and that the weights add up to `n`. What is
counted is a table under a weight, so the rules are about changing one place.
-/

namespace Ucore.Lib

variable {ι α : Type} {w w' : ι → Nat} {n m : Nat}

def Total (w : ι → Nat) (n : Nat) : Prop :=
  ∃ places : Finset ι, (∀ i, i ∉ places → w i = 0) ∧ ∑ i ∈ places, w i = n

lemma Total.of_zero (h : ∀ i, w i = 0) : Total w 0 := ⟨∅, fun i _ => h i, rfl⟩

lemma Total.enlarge [DecidableEq ι] (h : Total w n) (more : Finset ι) :
    ∃ places, more ⊆ places ∧ (∀ i, i ∉ places → w i = 0) ∧ ∑ i ∈ places, w i = n := by
  obtain ⟨places, hout, hsum⟩ := h
  refine ⟨places ∪ more, Finset.subset_union_right, fun i hi => ?_, ?_⟩
  · exact hout i fun hm => hi (Finset.mem_union_left _ hm)
  · rw [← hsum]
    exact (Finset.sum_subset Finset.subset_union_left fun i _ => hout i).symm

lemma Total.le (h : Total w n) (i : ι) : w i ≤ n := by
  obtain ⟨places, hout, rfl⟩ := h
  by_cases hi : i ∈ places
  · exact Finset.single_le_sum (fun _ _ => Nat.zero_le _) hi
  · simp [hout i hi]

lemma Total.eq_zero (h : Total w 0) (i : ι) : w i = 0 := Nat.le_zero.mp (h.le i)

lemma Total.exists_pos (h : Total w n) (hn : 0 < n) : ∃ i, 0 < w i := by
  obtain ⟨places, -, rfl⟩ := h
  by_contra hcon
  simp only [not_exists, Nat.not_lt, Nat.le_zero] at hcon
  simp [hcon] at hn

lemma Total.congr (h : Total w n) (hw : ∀ i, w' i = w i) : Total w' n := by
  obtain rfl : w' = w := funext hw
  exact h

variable [DecidableEq ι]

lemma Total.le_two (h : Total w n) {i j : ι} (hij : i ≠ j) : w i + w j ≤ n := by
  obtain ⟨places, hsub, -, rfl⟩ := h.enlarge {i, j}
  rw [← Finset.sum_pair hij]
  exact Finset.sum_le_sum_of_subset hsub

lemma Total.update {g : ι → α → Nat} {f : ι → α} (h : Total (fun i => g i (f i)) n) (i : ι) (x : α)
    (hm : m + g i (f i) = n + g i x) : Total (fun j => g j (Function.update f i x j)) m := by
  obtain ⟨places, hsub, hout, hsum⟩ := h.enlarge {i}
  have hi : i ∈ places := hsub (Finset.mem_singleton_self i)
  have hpoint : (fun j => g j (Function.update f i x j)) = Function.update (fun j => g j (f j)) i (g i x) := by
    funext j
    by_cases hji : j = i
    · subst hji
      simp
    · simp [hji]
  rw [hpoint]
  refine ⟨places, fun j hj => ?_, ?_⟩
  · grind
  · rw [Finset.sum_eq_add_sum_sdiff_singleton_of_mem hi] at hsum
    rw [Finset.sum_update_of_mem hi]
    omega

end Ucore.Lib
