import Mathlib.Data.List.Nodup
import Mathlib.Data.List.Perm.Subperm

/-!
# Chains through a table of successors

A free list kept in an array: `next` gives the successor of each place and
`stop` is no place. `Chain next stop start l` says that following `next` from
`start` visits `l`.
-/

namespace Ucore.Lib

variable {α : Type} {next next' : α → α} {stop start x : α} {l : List α}

def Chain (next : α → α) (stop : α) : α → List α → Prop
  | start, [] => start = stop
  | start, x :: l => start = x ∧ x ≠ stop ∧ Chain next stop (next x) l

@[simp] lemma chain_nil : Chain next stop start [] ↔ start = stop := Iff.rfl

lemma Chain.nil_iff (h : Chain next stop start l) : start = stop ↔ l = [] := by
  cases l with
  | nil => exact ⟨fun _ => rfl, fun _ => h⟩
  | cons x l => exact ⟨fun hs => absurd (h.1.symm.trans hs) h.2.1, nofun⟩

lemma Chain.congr (h : Chain next stop start l) (heq : ∀ x ∈ l, next' x = next x) : Chain next' stop start l := by
  induction l generalizing start with
  | nil => exact h
  | cons x l ih =>
    refine ⟨h.1, h.2.1, ?_⟩
    rw [heq x List.mem_cons_self]
    exact ih h.2.2 fun y hy => heq y (.tail _ hy)

lemma Chain.push [DecidableEq α] (h : Chain next stop start l) (hx : x ∉ l) (hs : x ≠ stop) :
    Chain (Function.update next x start) stop x (x :: l) := by
  refine ⟨rfl, hs, ?_⟩
  grind [h.congr]

lemma length_le_of_nodup {l : List Nat} {n : Nat} (hn : l.Nodup) (hl : ∀ x ∈ l, x < n) : l.length ≤ n := by
  have hsub : l ⊆ List.range n := fun x hx => List.mem_range.mpr (hl x hx)
  simpa using (hn.subperm hsub).length_le

lemma chain_range {next : Nat → Nat} {stop n : Nat} (hn : n ≤ stop) (k : Nat) (hk : k ≤ n)
    (hnext : ∀ i, i + 1 < n → next i = i + 1) (hlast : ∀ i, i + 1 = n → next i = stop) (hlt : k < n) :
    Chain next stop k (List.range' k (n - k)) := by
  obtain ⟨d, rfl⟩ := Nat.exists_eq_add_of_lt hlt
  clear hlt
  induction d generalizing k with
  | zero =>
    rw [show k + 0 + 1 - k = 1 by omega]
    exact ⟨rfl, by omega, hlast k (by omega)⟩
  | succ d ih =>
    rw [show k + (d + 1) + 1 - k = (d + 1) + 1 by omega, List.range'_succ]
    refine ⟨rfl, by omega, ?_⟩
    rw [hnext k (by omega)]
    have := ih (k + 1) (by omega) (by omega) (fun i hi => hnext i (by omega)) fun i hi => hlast i (by omega)
    rwa [show k + 1 + d + 1 - (k + 1) = d + 1 by omega] at this

end Ucore.Lib
