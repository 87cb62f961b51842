import Mathlib.Tactic.Common

/-!
# Computations that may stop

`Safe allowed x Q` is the rule of consequence for a computation in `Except`: it
returns something `Q` holds of, or it stops with an error that is `allowed`.
-/

namespace Ucore.Lib

variable {ε α β : Type} {allowed allowed' : ε → Prop} {x : Except ε α} {P Q : α → Prop}

def Safe (allowed : ε → Prop) (x : Except ε α) (Q : α → Prop) : Prop :=
  match x with
  | .ok a => Q a
  | .error e => allowed e

@[simp] lemma safe_ok {a : α} : Safe allowed (.ok a) Q ↔ Q a := Iff.rfl
@[simp] lemma safe_pure {a : α} : Safe allowed (pure a) Q ↔ Q a := Iff.rfl
@[simp] lemma safe_error {e : ε} : Safe allowed (.error e : Except ε α) Q ↔ allowed e := Iff.rfl

lemma Safe.bind {f : α → Except ε β} {Q : β → Prop} (h : Safe allowed x P)
    (hf : ∀ a, P a → Safe allowed (f a) Q) : Safe allowed (x >>= f) Q := by
  cases x with
  | ok a => exact hf a h
  | error e => exact h

lemma Safe.mono (h : Safe allowed x P) (hQ : ∀ a, P a → Q a) : Safe allowed x Q := by
  cases x with
  | ok a => exact hQ a h
  | error e => exact h

lemma Safe.mono_error (h : Safe allowed x Q) (he : ∀ e, allowed e → allowed' e) : Safe allowed' x Q := by
  cases x with
  | ok a => exact h
  | error e => exact he e h

lemma Safe.of_eq {a : α} (h : Safe allowed x Q) (hx : x = .ok a) : Q a := by
  subst hx
  exact h

lemma Safe.exists_ok (h : Safe (fun _ : ε => False) x Q) : ∃ a, x = .ok a ∧ Q a := by
  cases x with
  | ok a => exact ⟨a, rfl, h⟩
  | error e => exact h.elim

lemma Safe.of_exists (h : ∃ a, x = .ok a ∧ Q a) : Safe allowed x Q := by
  obtain ⟨a, rfl, ha⟩ := h
  exact ha

def stopsWith [DecidableEq ε] (x : Except ε α) (e : ε) : Bool :=
  match x with
  | .ok _ => false
  | .error e' => decide (e' = e)

lemma stopsWith_iff [DecidableEq ε] {e : ε} : stopsWith x e = true ↔ x = .error e := by
  cases x <;> simp [stopsWith]

instance decEqError [DecidableEq ε] (x : Except ε α) (e : ε) : Decidable (x = .error e) :=
    decidable_of_iff _ stopsWith_iff

def endsIn (x : Except ε α) (p : α → Bool) : Bool :=
  match x with
  | .ok a => p a
  | .error _ => false

lemma endsIn_iff {p : α → Bool} : endsIn x p = true ↔ ∃ a, x = .ok a ∧ p a = true := by
  cases x <;> simp [endsIn]

instance decExistsOk {P : α → Prop} [DecidablePred P] (x : Except ε α) : Decidable (∃ a, x = .ok a ∧ P a) :=
  decidable_of_iff (endsIn x fun a => decide (P a)) (by simp [endsIn_iff])

instance decEqOk [DecidableEq α] (x : Except ε α) (a : α) : Decidable (x = .ok a) :=
  decidable_of_iff (endsIn x fun b => decide (b = a)) (by simp [endsIn_iff])

instance decExistsSome {P : α → Prop} [DecidablePred P] (x : Option α) : Decidable (∃ a, x = some a ∧ P a) :=
  decidable_of_iff (x.any fun a => decide (P a)) (by simp [Option.any_eq_true])

/-- A loop over a list: the invariant speaks of the part still to come. -/
lemma Safe.foldlM {f : β → α → Except ε β} {I : List α → β → Prop} {l : List α} {b : β}
    (h : I l b) (hf : ∀ a rest b, I (a :: rest) b → Safe allowed (f b a) (I rest)) :
    Safe allowed (l.foldlM f b) (I []) := by
  induction l generalizing b with
  | nil => exact h
  | cons a rest ih => exact (hf a rest b h).bind fun b' => ih

end Ucore.Lib
