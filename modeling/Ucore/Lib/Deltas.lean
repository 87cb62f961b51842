import Mathlib.Data.List.Basic

/-!
# Lists of differences

A list of things that are due at some time, sorted by time, in which each
entry stores the time that passes after the entry before it. `due p l` looks
up an entry and adds up the differences on the way to it.
-/

namespace Ucore.Lib.Deltas

variable {α : Type} {p q : α → Bool} {x y : α} {l : List (α × Nat)} {n t : Nat}

def due (p : α → Bool) : List (α × Nat) → Option (α × Nat)
  | [] => none
  | (y, d) :: l => if p y then some (y, d) else (due p l).map fun r => (r.1, d + r.2)

def delay (d : Nat) : List (α × Nat) → List (α × Nat)
  | [] => []
  | (y, e) :: l => (y, e + d) :: l

def insert (x : α) : Nat → List (α × Nat) → List (α × Nat)
  | n, [] => [(x, n)]
  | n, (y, d) :: l => if n < d then (x, n) :: (y, d - n) :: l else (y, d) :: insert x (n - d) l

def erase (p : α → Bool) : List (α × Nat) → List (α × Nat)
  | [] => []
  | (y, d) :: l => if p y then delay d l else (y, d) :: erase p l

def tick : List (α × Nat) → List (α × Nat)
  | [] => []
  | (y, d) :: l => (y, d - 1) :: l

def expire : List (α × Nat) → List α × List (α × Nat)
  | [] => ([], [])
  | (y, d) :: l => if d = 0 then (y :: (expire l).1, (expire l).2) else ([], (y, d) :: l)

def Ready : List (α × Nat) → Prop
  | [] => True
  | (_, d) :: _ => 0 < d

@[simp] lemma due_nil : due p ([] : List (α × Nat)) = none := rfl

lemma due_cons_pos (h : p y = true) : due p ((y, n) :: l) = some (y, n) := by simp [due, h]

lemma due_cons_neg (h : p y = false) : due p ((y, n) :: l) = (due p l).map fun r => (r.1, n + r.2) := by
  simp [due, h]

lemma due_eq_none : due p l = none ↔ ∀ e ∈ l, p e.1 = false := by
  induction l with
  | nil => simp
  | cons e l ih =>
    obtain ⟨y, d⟩ := e
    cases hy : p y with
    | true => simp [due_cons_pos hy, hy]
    | false => simp [due_cons_neg hy, hy, ih]

lemma due_delay : due p (delay n l) = (due p l).map fun r => (r.1, n + r.2) := by
  cases l with
  | nil => rfl
  | cons e l =>
    obtain ⟨y, d⟩ := e
    cases hy : p y with
    | true => simp [delay, due_cons_pos hy, Nat.add_comm]
    | false => simp [delay, due_cons_neg hy, Function.comp_def, Nat.add_comm, Nat.add_left_comm]

lemma due_insert_self (hx : p x = true) (hl : due p l = none) : due p (insert x n l) = some (x, n) := by
  induction l generalizing n with
  | nil => exact due_cons_pos hx
  | cons e l ih =>
    obtain ⟨y, d⟩ := e
    rw [due_eq_none] at hl
    have hy : p y = false := hl (y, d) (.head _)
    rw [insert]
    split
    · exact due_cons_pos hx
    rw [due_cons_neg hy, ih (due_eq_none.mpr fun e he => hl e (List.mem_cons_of_mem _ he))]
    simp only [Option.map_some]
    rw [Nat.add_sub_cancel' (by omega)]

lemma due_insert_other (hx : p x = false) : due p (insert x n l) = due p l := by
  induction l generalizing n with
  | nil => rw [insert, due_cons_neg hx]; rfl
  | cons e l ih =>
    obtain ⟨y, d⟩ := e
    rw [insert]
    split
    · rename_i hlt
      rw [due_cons_neg hx]
      cases hy : p y with
      | true =>
        simp only [due_cons_pos hy, Option.map_some]
        rw [Nat.add_sub_cancel' (by omega)]
      | false =>
        simp only [due_cons_neg hy, Option.map_map, Function.comp_def, ← Nat.add_assoc]
        rw [Nat.add_sub_cancel' (by omega)]
    · simp only [due, ih]

lemma insert_ready (hl : Ready l) (hn : 0 < n) : Ready (insert x n l) := by
  cases l with
  | nil => exact hn
  | cons e l =>
    rw [insert]
    split
    · exact hn
    · exact hl

lemma mem_keys_insert : y ∈ (insert x n l).map Prod.fst ↔ y = x ∨ y ∈ l.map Prod.fst := by
  induction l generalizing n with
  | nil => simp [insert]
  | cons e l ih =>
    rw [insert]
    split
    · simp
    · simp only [List.map_cons, List.mem_cons, ih]
      tauto

def Unique (p : α → Bool) (l : List (α × Nat)) : Prop := (l.filter fun e => p e.1).length ≤ 1

lemma Unique.tail (h : Unique p ((y, n) :: l)) : Unique p l := by
  grind [Unique]

lemma Unique.due_tail (h : Unique p ((y, n) :: l)) (hy : p y = true) : due p l = none := by
  rw [Unique, List.filter_cons_of_pos (by simpa using hy), List.length_cons] at h
  grind [List.filter_eq_nil_iff, due_eq_none]

lemma due_erase_self (h : Unique p l) : due p (erase p l) = none := by
  induction l with
  | nil => rfl
  | cons e l ih =>
    obtain ⟨y, d⟩ := e
    rw [erase]
    cases hy : p y with
    | true => simp [due_delay, h.due_tail hy]
    | false => simp [due_cons_neg hy, ih h.tail]

lemma due_erase_other (h : ∀ y, p y = true → q y = false) : due q (erase p l) = due q l := by
  induction l with
  | nil => rfl
  | cons e l ih =>
    obtain ⟨y, d⟩ := e
    rw [erase]
    cases hy : p y with
    | true => simp [due_delay, due_cons_neg (h y hy)]
    | false => simp only [Bool.false_eq_true, ↓reduceIte, due, ih]

lemma delay_ready (hl : Ready l ∨ 0 < n) : Ready (delay n l) := by
  cases l with
  | nil => trivial
  | cons e l =>
    rcases hl with hl | hn
    · exact Nat.lt_add_right n hl
    · exact Nat.lt_add_left e.2 hn

lemma erase_ready (hl : Ready l) : Ready (erase p l) := by
  cases l with
  | nil => exact hl
  | cons e l =>
    rw [erase]
    split
    · exact delay_ready (.inr hl)
    · exact hl

lemma keys_tick : (tick l).map Prod.fst = l.map Prod.fst := by
  cases l <;> rfl

lemma due_tick (hl : Ready l) : due p l = (due p (tick l)).map fun r => (r.1, r.2 + 1) := by
  cases l with
  | nil => rfl
  | cons e l =>
    obtain ⟨y, d⟩ := e
    have hd : d - 1 + 1 = d := Nat.sub_add_cancel hl
    cases hy : p y with
    | true => simp [tick, due_cons_pos hy, hd]
    | false =>
      simp only [tick, due_cons_neg hy, Option.map_map, Function.comp_def]
      grind

lemma expire_ready : Ready (expire l).2 := by
  induction l with
  | nil => trivial
  | cons e l ih => grind [expire.eq_2, Ready]

lemma keys_expire : l.map Prod.fst = (expire l).1 ++ (expire l).2.map Prod.fst := by
  induction l with
  | nil => rfl
  | cons e l ih =>
    rw [expire]
    split
    · simp [ih]
    · rfl

lemma due_expire (h : due p l = some (x, t)) :
    t = 0 ∧ x ∈ (expire l).1 ∧ p x = true ∨ 0 < t ∧ due p (expire l).2 = some (x, t) ∧
    ∀ y ∈ (expire l).1, p y = false := by
  induction l generalizing t with
  | nil => cases h
  | cons e l ih =>
    obtain ⟨y, d⟩ := e
    rw [expire]
    split
    · rename_i hd
      subst hd
      cases hy : p y with
      | true =>
        rw [due_cons_pos hy] at h
        cases h
        exact .inl ⟨rfl, .head _, hy⟩
      | false =>
        have h' : due p l = some (x, t) := by simpa [due_cons_neg hy] using h
        rcases ih h' with ⟨ht, hx, hp⟩ | ⟨ht, hx, hp⟩
        · exact .inl ⟨ht, .tail _ hx, hp⟩
        · exact .inr ⟨ht, hx, List.forall_mem_cons.mpr ⟨hy, hp⟩⟩
    · rename_i hd
      refine .inr ⟨?_, h, nofun⟩
      cases hy : p y with
      | true =>
        rw [due_cons_pos hy] at h
        cases h
        exact Nat.pos_of_ne_zero hd
      | false =>
        rw [due_cons_neg hy, Option.map_eq_some_iff] at h
        grind

lemma due_expire_none (h : due p l = none) : (∀ y ∈ (expire l).1, p y = false) ∧ due p (expire l).2 = none := by
  have hkeys : ∀ y ∈ l.map Prod.fst, p y = false := by simpa [due_eq_none] using h
  rw [keys_expire] at hkeys
  grind [due_eq_none]

end Ucore.Lib.Deltas
