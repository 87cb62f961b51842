import Mathlib.Data.List.Nodup

/-!
# Doubly linked lists

Lists through two fields of their elements, that end in null pointers at both
ends. Other lists go through the same fields of other elements.
-/

namespace Ucore.Lib

open Function

variable {α : Type} {next prev next' prev' : α → Option α} {pre : Option α} {l : List α} {x y : α}

def Forward (next : α → Option α) : List α → Prop
  | [] => True
  | x :: l => next x = l.head? ∧ Forward next l

def Linked (next prev : α → Option α) : Option α → List α → Prop
  | _, [] => True
  | pre, x :: l => prev x = pre ∧ next x = l.head? ∧ Linked next prev (some x) l

lemma Forward.congr (h : Forward next l) (hn : ∀ x ∈ l, next' x = next x) : Forward next' l := by
  induction l with
  | nil => trivial
  | cons x l ih => exact ⟨(hn x (.head _)).trans h.1, ih h.2 fun y hy => hn y (.tail x hy)⟩

section

variable (h : Linked next prev pre l)
include h

lemma Linked.forward : Forward next l := by
  induction l generalizing pre with
  | nil => trivial
  | cons x l ih => exact ⟨h.2.1, ih h.2.2⟩

lemma Linked.congr (hn : ∀ x ∈ l, next' x = next x) (hp : ∀ x ∈ l, prev' x = prev x) : Linked next' prev' pre l := by
  induction l generalizing pre with
  | nil => trivial
  | cons x l ih =>
    exact ⟨(hp x (.head _)).trans h.1, (hn x (.head _)).trans h.2.1,
      ih h.2.2 (fun y hy => hn y (.tail x hy)) fun y hy => hp y (.tail x hy)⟩

lemma Linked.next_mem (hx : x ∈ l) (hy : next x = some y) : y ∈ l := by
  induction l generalizing pre with
  | nil => cases hx
  | cons z l ih =>
    refine .tail z ?_
    rcases List.mem_cons.mp hx with rfl | hx
    · exact List.mem_of_mem_head? (h.2.1.symm.trans hy)
    · exact ih h.2.2 hx

lemma Linked.prev_mem (hx : x ∈ l) : l.head? = some x ∨ ∃ y ∈ l, prev x = some y := by
  induction l generalizing pre with
  | nil => cases hx
  | cons z l ih =>
    rcases List.mem_cons.mp hx with rfl | hx
    · exact .inl rfl
    rcases ih h.2.2 hx with hhead | ⟨y, hy, hprev⟩
    · cases l with
      | nil => cases hx
      | cons w l =>
        obtain rfl : w = x := Option.some.inj hhead
        exact .inr ⟨z, .head _, h.2.2.1⟩
    · exact .inr ⟨y, .tail z hy, hprev⟩

lemma Linked.prev_head (hx : l.head? = some x) : prev x = pre := by
  cases l with
  | nil => cases hx
  | cons y l => exact Option.some.inj hx ▸ h.1

end

section Update

variable [DecidableEq α]

lemma Forward.snoc (h : Forward next l) (hnd : l.Nodup) (hx : x ∉ l) (hn : next x = none) (hy : l.getLast? = some y) :
    Forward (update next y (some x)) (l ++ [x]) := by
  induction l with
  | nil => cases hy
  | cons z l ih =>
    have hxz : x ≠ y := fun heq => hx (heq ▸ List.mem_of_getLast? hy)
    cases l with
    | nil =>
      obtain rfl : z = y := by simpa using hy
      exact ⟨update_self .., (update_of_ne hxz ..).trans hn, trivial⟩
    | cons w l =>
      rw [List.getLast?_cons_cons] at hy
      obtain ⟨hz, hnd⟩ := List.nodup_cons.mp hnd
      have hzy : z ≠ y := fun heq => hz (heq ▸ List.mem_of_getLast? hy)
      refine ⟨?_, ih h.2 hnd (fun hmem => hx (.tail z hmem)) hy⟩
      rw [update_of_ne hzy, h.1]
      rfl

def updateAt (f : α → Option α) (p : Option α) (v : Option α) : α → Option α :=
  match p with
  | some x => update f x v
  | none => f

lemma updateAt_of_ne (h : p ≠ some x) : updateAt next p v x = next x := by
  cases p with
  | none => rfl
  | some y => exact update_of_ne (fun heq => h (congrArg some heq.symm)) ..

lemma updateAt_some : updateAt next (some x) v x = v := update_self ..

section

variable (h : Linked next prev pre l)
include h

lemma Linked.front (hnd : l.Nodup) (v : Option α) : Linked next (updateAt prev l.head? v) v l := by
  cases l with
  | nil => trivial
  | cons x l =>
    have hx := (List.nodup_cons.mp hnd).1
    refine ⟨updateAt_some, h.2.1, h.2.2.congr (fun _ _ => rfl) fun y hy => updateAt_of_ne ?_⟩
    rintro ⟨⟩
    exact hx hy

lemma Linked.push (hnd : (x :: l).Nodup) :
    Linked (update next x l.head?) (updateAt (update prev x none) l.head? (some x)) none (x :: l) := by
  obtain ⟨hx, hnd⟩ := List.nodup_cons.mp hnd
  refine ⟨?_, update_self .., ?_⟩
  · rw [updateAt_of_ne, update_self]
    exact fun heq => hx (List.mem_of_mem_head? heq)
  · have hne : ∀ y ∈ l, y ≠ x := fun y hy heq => hx (heq ▸ hy)
    have hl : Linked (update next x l.head?) (update prev x none) pre l :=
      h.congr (fun y hy => update_of_ne (hne y hy) ..) fun y hy => update_of_ne (hne y hy) ..
    exact hl.front hnd (some x)

lemma Linked.remove (hnd : l.Nodup) (hpre : ∀ y, pre = some y → y ∉ l) (hx : x ∈ l) :
    Linked (updateAt next (prev x) (next x)) (updateAt prev (next x) (prev x)) pre (l.erase x) := by
  induction l generalizing pre with
  | nil => cases hx
  | cons z l ih =>
    obtain ⟨hz, hnd⟩ := List.nodup_cons.mp hnd
    by_cases hxz : z = x
    · subst hxz
      rw [List.erase_cons_head, h.1, h.2.1]
      have hl : Linked (updateAt next pre l.head?) prev (some z) l := by
        refine h.2.2.congr (fun y hy => updateAt_of_ne ?_) fun _ _ => rfl
        rintro rfl
        exact hpre y rfl (.tail z hy)
      exact hl.front hnd pre
    have hxl : x ∈ l := (List.mem_cons.mp hx).resolve_left (Ne.symm hxz)
    have hpz : ∀ y, some z = some y → y ∉ l := by
      rintro y ⟨⟩
      exact hz
    rw [List.erase_cons_tail (by simpa using hxz)]
    refine ⟨?_, ?_, ih h.2.2 hnd hpz hxl⟩
    · rw [updateAt_of_ne]
      · exact h.1
      · exact fun heq => hz (h.2.2.next_mem hxl heq)
    · cases l with
      | nil => cases hxl
      | cons w l =>
        by_cases hw : w = x
        · subst hw
          rw [h.2.2.1, updateAt_some, List.erase_cons_head]
          exact h.2.2.2.1
        rw [updateAt_of_ne, List.erase_cons_tail (by simpa using hw)]
        · exact h.2.1
        · intro heq
          rcases h.2.2.prev_mem hxl with hhead | ⟨y, hy, hprev⟩
          · exact hw (Option.some.inj hhead)
          · exact hz (Option.some.inj (hprev.symm.trans heq) ▸ hy)

end

lemma Linked.head_remove (h : Linked next prev none l) (hnd : l.Nodup) (hx : x ∈ l) :
    (l.erase x).head? = if prev x = none then next x else l.head? := by
  cases l with
  | nil => cases hx
  | cons z l =>
    by_cases hxz : z = x
    · subst hxz
      rw [List.erase_cons_head, if_pos h.1]
      exact h.2.1.symm
    rw [List.erase_cons_tail (by simpa using hxz), if_neg]
    · rfl
    · intro hnone
      rcases h.prev_mem hx with hhead | ⟨y, -, hy⟩
      · exact hxz (Option.some.inj hhead)
      · rw [hnone] at hy
        cases hy

end Update

end Ucore.Lib
