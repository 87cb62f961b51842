import Mathlib.Data.List.Nodup

/-!
# Circular lists

Nodes with a forward and a backward link to a node. A list is the nodes that the links
of an anchor lead over before they come back to it.
-/

namespace Ucore.Lib

variable {α : Type} {f next prev : α → α} {a z q n x y : α} {l m : List α}

def Walk (f : α → α) : α → List α → α → Prop
  | a, [], z => f a = z
  | a, x :: l, z => f a = x ∧ Walk f x l z

lemma walk_append : Walk f a (l ++ x :: m) z ↔ Walk f a l x ∧ Walk f x m z := by
  induction l generalizing a with
  | nil => rfl
  | cons y l ih => rw [List.cons_append, Walk, Walk, ih, and_assoc]

lemma Walk.congr (h : Walk f a l z) (hf : ∀ y ∈ a :: l, g y = f y) : Walk g a l z := by
  induction l generalizing a with
  | nil => exact (hf a (.head _)).trans h
  | cons x l ih => exact ⟨(hf a (.head _)).trans h.1, ih h.2 fun y hy => hf y (.tail a hy)⟩

lemma Walk.eq_head (h : Walk f a l z) : f a = l.head?.getD z := by
  cases l with
  | nil => exact h
  | cons x l => exact h.1

section Update

variable [DecidableEq α]

lemma Walk.update (h : Walk f a l z) (hx : x ∉ a :: l) : Walk (Function.update f x y) a l z := by
  grind [h.congr]

lemma Walk.turn (h : Walk f a l z) (hnd : (a :: l).Nodup) :
    Walk (Function.update f ((a :: l).getLast (List.cons_ne_nil a l)) y) a l y := by
  induction l generalizing a with
  | nil => exact Function.update_self ..
  | cons x l ih =>
    have hlast : (a :: x :: l).getLast (List.cons_ne_nil a (x :: l)) = (x :: l).getLast (List.cons_ne_nil x l) :=
      List.getLast_cons (List.cons_ne_nil x l)
    have hne : a ≠ (x :: l).getLast (List.cons_ne_nil x l) := fun heq =>
      (List.nodup_cons.mp hnd).1 (heq ▸ List.getLast_mem _)
    rw [hlast]
    exact ⟨(Function.update_of_ne hne ..).trans h.1, ih h.2 (List.nodup_cons.mp hnd).2⟩

end Update

structure Circle (next prev : α → α) (q : α) (l : List α) : Prop where
  forth : Walk next q l q
  back : Walk prev q l.reverse q
  nodup : (q :: l).Nodup

namespace Circle

lemma nil (hn : next q = q) (hp : prev q = q) : Circle next prev q [] := ⟨hn, hp, by simp⟩

variable [DecidableEq α]

lemma update (h : Circle next prev q l) (hn : n ∉ q :: l) :
    Circle (Function.update next n x) (Function.update prev n y) q l :=
  ⟨h.forth.update hn, h.back.update (by simpa using hn), h.nodup⟩

lemma attach_back (h : Circle next prev q l) (hn : n ∉ q :: l) (hp : prev n = prev q) :
    Walk (Function.update prev q n) q (l ++ [n]).reverse q := by
  have hq : n ≠ q := fun heq => hn (heq ▸ List.mem_cons_self)
  rw [List.reverse_append, List.reverse_singleton, List.singleton_append]
  refine ⟨Function.update_self .., ?_⟩
  have hnq : q ∉ l := (List.nodup_cons.mp h.nodup).1
  have hback := h.back
  cases hl : l.reverse with
  | nil => grind [Walk]
  | cons y r => grind [Walk.update, Walk]

lemma attach_forth (h : Walk next q l q) (hback : Walk prev q (l ++ [n]).reverse q) (hnd : (q :: (l ++ [n])).Nodup)
    (hn : next n = q) : Circle (Function.update next (prev n) n) prev q (l ++ [n]) := by
  have hlast : prev n = (q :: l).getLast (List.cons_ne_nil q l) := by
    rw [List.reverse_append, List.reverse_singleton, List.singleton_append] at hback
    rw [hback.2.eq_head, List.head?_reverse]
    cases l with
    | nil => rfl
    | cons x l => simp [List.getLast?_eq_getLast_of_ne_nil]
  have hnd' : (q :: l).Nodup := hnd.sublist (by simp)
  have hmem : n ∉ q :: l := by
    rw [← List.cons_append] at hnd
    exact fun hn => (List.nodup_append'.mp hnd).2.2 hn (by simp)
  refine ⟨?_, hback, hnd⟩
  rw [walk_append, hlast]
  refine ⟨h.turn hnd', ?_⟩
  rw [Walk, Function.update_of_ne, hn]
  exact fun heq => hmem (heq ▸ List.getLast_mem _)

lemma detach_back (h : Circle next prev q (x :: l)) :
    Walk (Function.update prev (next x) (prev x)) q l.reverse q ∧ Function.update prev (next x) (prev x) x = q := by
  have hback := h.back
  rw [List.reverse_cons, walk_append] at hback
  obtain ⟨hback, hx⟩ := hback
  refine ⟨?_, ?_⟩
  case refine_2 =>
    rw [Function.update_apply]
    split <;> exact hx
  have hnext : next x = (q :: l.reverse).getLast (List.cons_ne_nil q l.reverse) := by
    rw [h.forth.2.eq_head]
    cases l with
    | nil => rfl
    | cons y l => simp
  have hnd : (q :: l.reverse).Nodup := by
    have := h.nodup
    simp only [List.nodup_cons, List.mem_cons, not_or, List.mem_reverse, List.nodup_reverse] at this ⊢
    exact ⟨this.1.2, this.2.2⟩
  rw [hnext, show prev x = q from hx]
  exact hback.turn hnd

lemma detach_forth (h : Walk next q (x :: l) q) (hback : Walk prev q l.reverse q) (hnd : (q :: x :: l).Nodup)
    (hx : prev x = q) : Circle (Function.update next (prev x) (next x)) prev q l := by
  refine ⟨?_, hback, hnd.sublist (by simp)⟩
  have hq : q ∉ l := fun hq => (List.nodup_cons.mp hnd).1 (.tail x hq)
  rw [hx]
  cases l with
  | nil => exact (Function.update_self ..).trans h.2
  | cons y l => exact ⟨(Function.update_self ..).trans h.2.1, h.2.2.update hq⟩

end Circle

end Ucore.Lib
