import Mathlib.Data.Multiset.Bind

/-!
# What the threads hold

Threads hold tokens. When one thread takes a step, what the others hold stays
as it is.
-/

namespace Ucore.Lib

variable {α β : Type} {tok : α → List β} {l : List α} {a : α} {b : β} {i : Nat}

def holdings (tok : α → List β) (l : List α) : Multiset β := (l.flatMap tok : List β)

lemma mem_holdings : b ∈ holdings tok l ↔ ∃ a ∈ l, b ∈ tok a := by
  simp [holdings]

@[simp] lemma holdings_nil : holdings tok [] = 0 := rfl

@[simp] lemma holdings_cons : holdings tok (a :: l) = tok a + holdings tok l := by
  simp [holdings]

lemma holdings_perm {l' : List α} (h : l.Perm l') : holdings tok l = holdings tok l' :=
  Multiset.coe_eq_coe.mpr (h.flatMap_right tok)

lemma holdings_append {l' : List α} : holdings tok (l ++ l') = holdings tok l' + holdings tok l := by
  rw [holdings_perm List.perm_append_comm]
  simp [holdings]

lemma holdings_split (h : l[i]? = some a) : holdings tok l = tok a + holdings tok (l.eraseIdx i) := by
  obtain ⟨hi, rfl⟩ := List.getElem?_eq_some_iff.mp h
  rw [← holdings_cons]
  exact holdings_perm (List.getElem_cons_eraseIdx_perm hi).symm

lemma holdings_set (h : i < l.length) (a : α) : holdings tok (l.set i a) = tok a + holdings tok (l.eraseIdx i) := by
  rw [← holdings_cons]
  exact holdings_perm (List.set_perm_cons_eraseIdx h a)

end Ucore.Lib
