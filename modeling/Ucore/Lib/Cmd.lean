import Ucore.Lib.Safe

/-!
# Commands with a state

A command changes a state and returns a value or fails with an error code, as
a kernel function that returns an `int` does. What it changed before it failed
stays changed. It may also stop the run. `Sat` gives the pre- and
postconditions of a command, one postcondition for each way to return.
-/

namespace Ucore.Lib

def Cmd (σ ε π α : Type) : Type := σ → Except π (Except ε α × σ)

namespace Cmd

variable {σ ε π α β : Type} {f : α → Cmd σ ε π β}

protected def pure (a : α) : Cmd σ ε π α := fun s => .ok (.ok a, s)

protected def bind (x : Cmd σ ε π α) (f : α → Cmd σ ε π β) : Cmd σ ε π β := fun s =>
  match x s with
  | .ok (.ok a, s') => f a s'
  | .ok (.error e, s') => .ok (.error e, s')
  | .error p => .error p

instance : Monad (Cmd σ ε π) where
  pure := Cmd.pure
  bind := Cmd.bind

def get : Cmd σ ε π σ := fun s => .ok (.ok s, s)

def modify (f : σ → σ) : Cmd σ ε π Unit := fun s => .ok (.ok (), f s)

def fail (e : ε) : Cmd σ ε π α := fun s => .ok (.error e, s)

def stop (p : π) : Cmd σ ε π α := fun _ => .error p

def check (c : Prop) [Decidable c] (p : π) : Cmd σ ε π Unit := if c then Cmd.pure () else stop p

def when (c : Prop) [Decidable c] (x : Cmd σ ε π Unit) : Cmd σ ε π Unit := if c then x else Cmd.pure ()

def attempt (x : Cmd σ ε π α) : Cmd σ ε π (Except ε α) := fun s =>
  match x s with
  | .ok (r, s') => .ok (.ok r, s')
  | .error p => .error p

def ret (r : Except ε α) : Cmd σ ε π α := fun s => .ok (r, s)

def zoom {τ : Type} (part : σ → τ) (put : τ → σ → σ) (x : Cmd τ ε π α) : Cmd σ ε π α := fun s =>
  match x (part s) with
  | .ok (r, t) => .ok (r, put t s)
  | .error p => .error p

section Equations

variable {s : σ}

lemma bind_apply_congr {x : Cmd σ ε π α} {f g : α → Cmd σ ε π β} (h : ∀ a s', x s = .ok (.ok a, s') → f a s' = g a s') :
    (x >>= f) s = (x >>= g) s := by
  change Cmd.bind x f s = Cmd.bind x g s
  grind [Cmd.bind]

lemma bind_of_eq {x y : Cmd σ ε π α} (f : α → Cmd σ ε π β) (h : x s = y s) : (x >>= f) s = (y >>= f) s := by
  change Cmd.bind x f s = Cmd.bind y f s
  unfold Cmd.bind
  rw [h]

lemma bind_pure_apply (x : Cmd σ ε π α) : (x >>= pure) s = x s := by
  change Cmd.bind x Cmd.pure s = x s
  unfold Cmd.bind
  rcases x s with p | ⟨e | a, s'⟩ <;> rfl

end Equations

variable {allowed : π → Prop} {x : Cmd σ ε π α} {s : σ} {Q Q' : α → σ → Prop} {E E' : ε → σ → Prop}

def Sat (allowed : π → Prop) (x : Cmd σ ε π α) (s : σ) (Q : α → σ → Prop) (E : ε → σ → Prop) : Prop :=
  match x s with
  | .ok (.ok a, s') => Q a s'
  | .ok (.error e, s') => E e s'
  | .error p => allowed p

@[simp] lemma sat_pure {a : α} : Sat allowed (pure a : Cmd σ ε π α) s Q E ↔ Q a s := Iff.rfl
@[simp] lemma sat_get {Q : σ → σ → Prop} : Sat allowed (get : Cmd σ ε π σ) s Q E ↔ Q s s := Iff.rfl
@[simp] lemma sat_modify {f : σ → σ} {Q : Unit → σ → Prop} :
    Sat allowed (modify f : Cmd σ ε π Unit) s Q E ↔ Q () (f s) := Iff.rfl
@[simp] lemma sat_fail {e : ε} : Sat allowed (fail e : Cmd σ ε π α) s Q E ↔ E e s := Iff.rfl
@[simp] lemma sat_stop {p : π} : Sat allowed (stop p : Cmd σ ε π α) s Q E ↔ allowed p := Iff.rfl

@[simp] lemma sat_ret_ok {a : α} : Sat allowed (ret (.ok a) : Cmd σ ε π α) s Q E ↔ Q a s := Iff.rfl
@[simp] lemma sat_ret_error {e : ε} : Sat allowed (ret (.error e) : Cmd σ ε π α) s Q E ↔ E e s := Iff.rfl

@[simp] lemma sat_bind {Q : β → σ → Prop} :
    Sat allowed (x >>= f) s Q E ↔ Sat allowed x s (fun a s' => Sat allowed (f a) s' Q E) E := by
  change Sat allowed (Cmd.bind x f) s Q E ↔ _
  unfold Sat Cmd.bind
  rcases x s with p | ⟨e | a, s'⟩ <;> rfl

@[simp] lemma sat_attempt {Q : Except ε α → σ → Prop} :
    Sat allowed (attempt x) s Q E ↔ Sat allowed x s (fun a => Q (.ok a)) (fun e => Q (.error e)) := by
  unfold Sat attempt
  rcases x s with p | ⟨e | a, s'⟩ <;> rfl

@[simp] lemma sat_zoom {τ : Type} {part : σ → τ} {put : τ → σ → σ} {x : Cmd τ ε π α} :
    Sat allowed (zoom part put x) s Q E ↔
    Sat allowed x (part s) (fun a t => Q a (put t s)) (fun e t => E e (put t s)) := by
  unfold Sat zoom
  rcases x (part s) with p | ⟨e | a, t⟩ <;> rfl

lemma Sat.congr {y : Cmd σ ε π α} (h : Sat allowed x s Q E) (heq : y s = x s) : Sat allowed y s Q E := by
  unfold Sat at h ⊢
  rwa [heq]

lemma sat_check {c : Prop} [Decidable c] {p : π} {Q : Unit → σ → Prop} (h : c) :
    Sat allowed (check c p : Cmd σ ε π Unit) s Q E ↔ Q () s := by
  rw [check, if_pos h]
  rfl

section

variable {c : Prop} [Decidable c] {x : Cmd σ ε π Unit} {Q : Unit → σ → Prop}

lemma sat_when (h : c) :
    Sat allowed (when c x) s Q E ↔ Sat allowed x s Q E := by
  rw [when, if_pos h]

lemma sat_when_not (h : ¬ c) :
    Sat allowed (when c x) s Q E ↔ Q () s := by
  rw [when, if_neg h]
  rfl

end

lemma sat_when_congr {c c' : Prop} [Decidable c] [Decidable c'] {x : Cmd σ ε π Unit} {Q : Unit → σ → Prop}
    (h : c ↔ c') : Sat allowed (when c x) s Q E ↔ Sat allowed (when c' x) s Q E := by
  simp only [when, h]

lemma Sat.exists_ok (h : Sat (fun _ => False) x s Q E) :
    (∃ a s', x s = .ok (.ok a, s') ∧ Q a s') ∨ ∃ e s', x s = .ok (.error e, s') ∧ E e s' := by
  grind [Sat]

lemma Sat.eq_error {p : π} (h : Sat (· = p) x s (fun _ _ => False) (fun _ _ => False)) : x s = .error p := by
  grind [Sat]

section

variable (h : Sat allowed x s Q E)
include h

lemma Sat.mono (hQ : ∀ a s', Q a s' → Q' a s') (hE : ∀ e s', E e s' → E' e s') : Sat allowed x s Q' E' := by
  grind [Sat]

lemma Sat.bind {Q' : β → σ → Prop} (hQ : ∀ a s', Q a s' → Sat allowed (f a) s' Q' E')
    (hE : ∀ e s', E e s' → E' e s') : Sat allowed (x >>= f) s Q' E' := sat_bind.mpr (h.mono hQ hE)

lemma Sat.imp (hQ : ∀ a s', Q a s' → Q' a s') : Sat allowed x s Q' E := h.mono hQ fun _ _ => id

lemma Sat.and (h' : Sat allowed x s Q' E') :
    Sat allowed x s (fun a s' => Q a s' ∧ Q' a s') (fun e s' => E e s' ∧ E' e s') := by
  grind [Sat]

lemma Sat.of_ok {a : α} {s' : σ} (hx : x s = .ok (.ok a, s')) : Q a s' := by
  unfold Sat at h
  rwa [hx] at h

lemma Sat.of_error {e : ε} {s' : σ} (hx : x s = .ok (.error e, s')) : E e s' := by
  unfold Sat at h
  rwa [hx] at h

end

end Cmd

end Ucore.Lib
