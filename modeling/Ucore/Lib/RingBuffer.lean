import Mathlib.Data.List.Basic

/-!
# Ring buffers

A buffer of `size` slots between two positions that only grow. Position `k`
lies in the slot `k % size`. `window` is what has been put in and not yet
taken out.
-/

namespace Ucore.Lib

open Function

variable {α : Type} {buf : Nat → α} {size r w : Nat} {c : α}

def window (buf : Nat → α) (size r w : Nat) : List α := (List.range' r (w - r)).map fun k => buf (k % size)

@[simp] lemma window_self : window buf size r r = [] := by simp [window]

@[simp] lemma length_window : (window buf size r w).length = w - r := by simp [window]

lemma window_eq_nil (h : w ≤ r) : window buf size r w = [] := by
  simp [window, Nat.sub_eq_zero_of_le h]

lemma window_pop (h : r < w) : window buf size r w = buf (r % size) :: window buf size (r + 1) w := by
  obtain ⟨n, rfl⟩ := Nat.exists_eq_add_of_lt h
  simp only [window, show r + n + 1 - r = n + 1 by omega, show r + n + 1 - (r + 1) = n by omega]
  rw [List.range'_succ, List.map_cons]

lemma window_snoc (h : r ≤ w) : window buf size r (w + 1) = window buf size r w ++ [buf (w % size)] := by
  obtain ⟨n, rfl⟩ := Nat.exists_eq_add_of_le h
  simp only [window, show r + n + 1 - r = n + 1 by omega, Nat.add_sub_cancel_left]
  simp [List.range'_concat]

lemma window_drop (h : r ≤ w) (n : Nat) : window buf size (min (r + n) w) w = (window buf size r w).drop n := by
  induction n generalizing r with
  | zero => rw [Nat.add_zero, Nat.min_eq_left h, List.drop_zero]
  | succ n ih =>
    rcases Nat.lt_or_eq_of_le h with hlt | heq
    · rw [window_pop hlt, List.drop_succ_cons, ← ih hlt, Nat.succ_add, ← Nat.add_succ]
    · rw [← heq, Nat.min_eq_right (Nat.le_add_right ..), window_self, List.drop_nil]

lemma mod_ne_of_lt {k k' : Nat} (h : k < k') (hs : k' < k + size) : k % size ≠ k' % size := by
  intro heq
  have hdvd := Nat.dvd_of_mod_eq_zero (Nat.sub_mod_eq_zero_of_mod_eq heq.symm)
  exact absurd (Nat.le_of_dvd (by omega) hdvd) (by omega)

lemma window_update {k : Nat} (hk : w ≤ k) (hs : k < r + size) :
    window (update buf (k % size) c) size r w = window buf size r w := by
  refine List.map_congr_left fun i hi => ?_
  rw [List.mem_range'_1] at hi
  exact Function.update_of_ne (mod_ne_of_lt (by omega) (by omega)) _ _

lemma window_push (h : r ≤ w) (hs : w < r + size) :
    window (update buf (w % size) c) size r (w + 1) = window buf size r w ++ [c] := by
  rw [window_snoc h, window_update (Nat.le_refl w) hs, update_self]

lemma window_overwrite (hs : 0 < size) :
    window (update buf ((r + size) % size) c) size r (r + size) = c :: window buf size (r + 1) (r + size) := by
  rw [window_pop (by omega), window_update (by omega) (by omega), Nat.add_mod_right, update_self]

end Ucore.Lib
