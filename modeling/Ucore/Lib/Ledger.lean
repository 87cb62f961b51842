import Mathlib.Logic.Function.Basic

/-!
# Who owns what

Numbered resources are in use or not, and every resource in use has exactly
one owner. `place` says what an owner has, with `0` for nothing.
-/

namespace Ucore.Lib

open Function

structure Ledger {ρ : Type} (place : ρ → Nat) (used : Nat → Bool) : Prop where
  used_of_place : ∀ r, place r ≠ 0 → used (place r) = true
  inj : ∀ r r', place r ≠ 0 → place r = place r' → r = r'
  owned : ∀ b, used b = true → b ≠ 0 ∧ ∃ r, place r = b

namespace Ledger

variable {ρ : Type} {place : ρ → Nat} {used : Nat → Bool} {r r' : ρ} {b : Nat}

lemma used_iff (h : Ledger place used) : used b = true ↔ b ≠ 0 ∧ ∃ r, place r = b := by
  refine ⟨h.owned b, ?_⟩
  rintro ⟨hb, r, rfl⟩
  exact h.used_of_place r hb

lemma ne_of_unused (h : Ledger place used) (hb : used b = false) (hr : place r ≠ 0) : place r ≠ b := by
  rintro rfl
  exact Bool.false_ne_true (hb.symm.trans (h.used_of_place r hr))

lemma ne_of_ne (h : Ledger place used) (hne : r ≠ r') (hr : place r ≠ 0) : place r ≠ place r' :=
  fun heq => hne (h.inj r r' hr heq)

variable [DecidableEq ρ]

lemma take (h : Ledger place used) (hr : place r = 0) (hb : used b = false) (hb0 : b ≠ 0) :
    Ledger (update place r b) (update used b true) where
  used_of_place := by
    intro q hq
    rcases eq_or_ne q r with rfl | hqr
    · simp
    rw [update_of_ne hqr] at hq ⊢
    rw [update_of_ne (h.ne_of_unused hb hq)]
    exact h.used_of_place q hq
  inj := by
    intro q q' hq heq
    rcases eq_or_ne q r with hqr | hqr <;> rcases eq_or_ne q' r with hqr' | hqr'
    · exact hqr.trans hqr'.symm
    · rw [hqr, update_self, update_of_ne hqr'] at heq
      exact absurd heq.symm (h.ne_of_unused hb (heq ▸ hb0))
    · rw [update_of_ne hqr] at hq heq
      rw [hqr', update_self] at heq
      exact absurd heq (h.ne_of_unused hb hq)
    · grind [h.inj]
  owned := by
    intro c hc
    rcases eq_or_ne c b with rfl | hcb
    · exact ⟨hb0, r, update_self ..⟩
    rw [update_of_ne hcb] at hc
    obtain ⟨hc0, q, rfl⟩ := h.owned c hc
    have hqr : q ≠ r := by
      rintro rfl
      exact hc0 hr
    exact ⟨hc0, q, update_of_ne hqr ..⟩

lemma give (h : Ledger place used) (hr : place r ≠ 0) : Ledger (update place r 0) (update used (place r) false) where
  used_of_place := by
    grind [h.ne_of_ne, h.used_of_place]
  inj := by
    grind [h.inj]
  owned := by
    intro c hc
    rcases eq_or_ne c (place r) with rfl | hcr
    · exact absurd hc (by simp)
    rw [update_of_ne hcr] at hc
    obtain ⟨hc0, q, rfl⟩ := h.owned c hc
    have hqr : q ≠ r := by
      rintro rfl
      exact hcr rfl
    exact ⟨hc0, q, update_of_ne hqr ..⟩

end Ledger

end Ucore.Lib
