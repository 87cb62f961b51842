import Ucore.Lib.Total

/-!
# Counting in a table

A table has a place for every index, and a place may be empty. `Count t P n`
says that `n` places hold something with the property `P`.
-/

namespace Ucore.Lib

open Function

variable {ι α : Type} {t : ι → Option α} {P Q : ι → α → Bool} {n m : Nat} {p p' : ι} {e e' : α}

def weigh (P : ι → α → Bool) (p : ι) : Option α → Nat
  | some e => if P p e then 1 else 0
  | none => 0

def Count (t : ι → Option α) (P : ι → α → Bool) (n : Nat) : Prop := Total (fun p => weigh P p (t p)) n

namespace Count

lemma congr (h : Count t P n) (hPQ : ∀ p e, t p = some e → Q p e = P p e) : Count t Q n := by
  refine Total.congr h fun p => ?_
  cases ht : t p with
  | none => rfl
  | some e => simp only [weigh, hPQ p e ht]

lemma zero (h : ∀ p e, t p = some e → P p e = false) : Count t P 0 := by
  refine Total.of_zero fun p => ?_
  cases ht : t p with
  | none => rfl
  | some e => simp only [weigh, h p e ht]; rfl

lemma eq_false (h : Count t P 0) (ht : t p = some e) : P p e = false := by
  have := Total.eq_zero h p
  rw [ht] at this
  simpa [weigh] using this

lemma pos (h : Count t P n) (ht : t p = some e) (hP : P p e = true) : 0 < n := by
  have := Total.le h p
  grind [weigh]

lemma exists_of_pos (h : Count t P n) (hn : 0 < n) : ∃ p e, t p = some e ∧ P p e = true := by
  obtain ⟨p, hp⟩ := Total.exists_pos h hn
  cases ht : t p with
  | none => simp [ht, weigh] at hp
  | some e => grind [weigh]

lemma le_of_inj (h : Count t P n) (f : ι → Nat) (hinj : ∀ p p' e e', t p = some e → t p' = some e' → f p = f p' → p = p')
    (hlt : ∀ p e, t p = some e → f p < m) : n ≤ m := by
  classical
  obtain ⟨places, -, rfl⟩ := h
  have hweigh : ∀ p, weigh P p (t p) ≤ if (t p).isSome then 1 else 0 := by
    intro p
    cases ht : t p with
    | none => simp [weigh]
    | some e =>
      simp only [weigh, Option.isSome_some, ↓reduceIte]
      split <;> simp
  calc ∑ p ∈ places, weigh P p (t p) ≤ ∑ p ∈ places, if (t p).isSome then 1 else 0 := Finset.sum_le_sum fun p _ => hweigh p
    _ = (places.filter fun p => (t p).isSome).card := by rw [Finset.card_filter]
    _ ≤ (Finset.range m).card := by
      refine Finset.card_le_card_of_injOn f (fun p hp => ?_) fun p hp p' hp' heq => ?_
      · obtain ⟨e, he⟩ := Option.isSome_iff_exists.mp (Finset.mem_filter.mp hp).2
        simpa using hlt p e he
      · grind [Option.isSome_iff_exists]
    _ = m := Finset.card_range m

variable [DecidableEq ι]

lemma unique (h : Count t P 1) (ht : t p = some e) (hP : P p e = true) (ht' : t p' = some e')
    (hP' : P p' e' = true) : p = p' := by
  by_contra hne
  have := Total.le_two h hne
  grind [weigh]

lemma change {x : Option α} (h : Count t P n) (hm : m + weigh P p (t p) = n + weigh P p x) : Count (update t p x) P m :=
  Total.update h p x hm

lemma add (h : Count t P n) (hp : t p = none) : Count (update t p (some e)) P (n + if P p e then 1 else 0) :=
  h.change (by rw [hp]; rfl)

lemma remove (h : Count t P n) (hp : t p = some e) : Count (update t p none) P (n - if P p e then 1 else 0) := by
  refine h.change ?_
  have := Total.le h p
  rw [hp] at this ⊢
  simp only [weigh] at this ⊢
  omega

end Count

end Ucore.Lib
