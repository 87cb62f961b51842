import Mathlib.Data.List.Basic

/-!
# Lists of disjoint intervals in order

Items of any type carry a half-open interval `[lo x, hi x)`. A list is
`Ordered` when each interval ends before the next begins.
-/

namespace Ucore.Lib

variable {β γ : Type} {lo hi : β → Nat} {l l' front back : List β} {u v z : β} {a : Nat}

def Apart (lo hi : β → Nat) (u v : β) : Prop := hi u ≤ lo v ∨ hi v ≤ lo u

lemma Apart.symm (h : Apart lo hi u v) : Apart lo hi v u := Or.symm h

def Ordered (lo hi : β → Nat) (l : List β) : Prop := l.Pairwise fun u v => hi u ≤ lo v

lemma ordered_map (f : γ → β) {l : List γ} :
    Ordered lo hi (l.map f) ↔ Ordered (fun x => lo (f x)) (fun x => hi (f x)) l :=
  List.pairwise_map

lemma Ordered.apart (h : Ordered lo hi l) : l.Pairwise (Apart lo hi) := h.imp .inl

lemma Ordered.sublist (h : Ordered lo hi l) (hs : l'.Sublist l) : Ordered lo hi l' := List.Pairwise.sublist hs h

lemma nodup_of_apart (h : l.Pairwise (Apart lo hi)) (hne : ∀ u ∈ l, lo u < hi u) : l.Nodup := by
  induction l with
  | nil => exact .nil
  | cons u l ih =>
    rw [List.pairwise_cons] at h
    refine List.nodup_cons.mpr ⟨fun hu => ?_, ih h.2 fun v hv => hne v (by simp [hv])⟩
    have := hne u (by simp)
    rcases h.1 u hu with h' | h' <;> omega

lemma Ordered.insert (h : Ordered lo hi (front ++ back)) (hz : lo z < hi z)
    (hne : ∀ u ∈ front ++ back, lo u < hi u) (ha : ∀ u ∈ front ++ back, Apart lo hi z u)
    (hf : ∀ u ∈ front, lo u ≤ lo z) (hb : ∀ u ∈ back, lo z < lo u) :
    Ordered lo hi (front ++ z :: back) := by
  simp only [Ordered, List.pairwise_append, List.pairwise_cons, List.mem_cons] at h ⊢
  obtain ⟨hfront, hback, hcross⟩ := h
  refine ⟨hfront, ⟨fun u hu => ?_, hback⟩, ?_⟩
  · have := hne u (by simp [hu])
    have := hb u hu
    rcases ha u (by simp [hu]) with h' | h' <;> omega
  · rintro u hu v (rfl | hv)
    · have := hne u (by simp [hu])
      have := hf u hu
      rcases ha u (by simp [hu]) with h' | h' <;> omega
    · exact hcross u hu v hv

lemma Ordered.find_eq (h : Ordered lo hi l) (hu : u ∈ l) (hlo : lo u ≤ a) (hhi : a < hi u) :
    l.find? (fun v => decide (a < hi v)) = some u := by
  induction l with
  | nil => simp at hu
  | cons v l ih =>
    simp only [Ordered, List.pairwise_cons] at h
    rcases List.mem_cons.mp hu with rfl | hu'
    · simp [hhi]
    have hv := h.1 u hu'
    rw [List.find?_cons_of_neg (by simp; omega)]
    exact ih h.2 hu'

end Ucore.Lib
