import Mathlib.Tactic.Common

/-!
# Runs of a system

A system takes one action at a time and may stop with an error. `Reachable`
collects the states of all its runs, restricted to the actions a `guard`
allows. One step lemma gives a fact about every run.
-/

namespace Ucore.Lib

variable {σ ι ε : Type} {step : σ → ι → Except ε σ} {guard : σ → ι → Prop} {init P : σ → Prop}

inductive Reachable (step : σ → ι → Except ε σ) (guard : σ → ι → Prop) (init : σ → Prop) : σ → Prop
  | init : init s → Reachable step guard init s
  | step : Reachable step guard init s → guard s a → step s a = .ok s' → Reachable step guard init s'

/-- An invariant: it holds at first and every allowed step keeps it. -/
lemma Reachable.invariant (hr : Reachable step guard init s) (hinit : ∀ s, init s → P s)
    (hstep : ∀ s a s', P s → guard s a → step s a = .ok s' → P s') : P s := by
  induction hr with
  | init h => exact hinit _ h
  | step _ hg hs ih => exact hstep _ _ _ ih hg hs

lemma Reachable.mono {guard' : σ → ι → Prop} (hr : Reachable step guard init s)
    (h : ∀ s a, guard s a → guard' s a) : Reachable step guard' init s := by
  induction hr with
  | init hi => exact .init hi
  | step _ hg hs ih => exact .step ih (h _ _ hg) hs

def run (step : σ → ι → Except ε σ) (s : σ) (as : List ι) : Except ε σ := as.foldlM step s

@[simp] lemma run_nil (s : σ) : run step s [] = .ok s := rfl

lemma run_cons (s : σ) (a : ι) (as : List ι) : run step s (a :: as) = step s a >>= fun s' => run step s' as := rfl

lemma Reachable.run (h : Reachable step guard init s) (hg : ∀ a ∈ as, ∀ s, guard s a)
    (hs : run step s as = .ok s') : Reachable step guard init s' := by
  induction as generalizing s with
  | nil => exact Except.ok.inj hs ▸ h
  | cons a as ih =>
    rw [run_cons] at hs
    cases hs1 : step s a with
    | error e => simp [hs1, bind, Except.bind] at hs
    | ok s1 =>
      rw [hs1] at hs
      exact ih (.step h (hg a (.head _ ..) s) hs1) (fun b hb => hg b (.tail _ hb)) hs

def trace (step : σ → ι → Except ε σ) (guard : σ → ι → Prop) [∀ s a, Decidable (guard s a)] : σ → List ι → Option σ
  | s, [] => some s
  | s, a :: as =>
    if guard s a then
      match step s a with
      | .ok s' => trace step guard s' as
      | .error _ => none
    else none

lemma Reachable.of_trace [∀ s a, Decidable (guard s a)] (h : Reachable step guard init s)
    (hs : trace step guard s as = some s') : Reachable step guard init s' := by
  induction as generalizing s with
  | nil => exact Option.some.inj hs ▸ h
  | cons a as ih =>
    rw [trace] at hs
    split at hs
    · rename_i hg
      cases hs1 : step s a with
      | error e => simp [hs1] at hs
      | ok s1 =>
        rw [hs1] at hs
        exact ih (.step h hg hs1) hs
    · cases hs

lemma Reachable.exists_of_trace [∀ s a, Decidable (guard s a)] (as : List ι) (p : σ → Bool) (h : init s)
    (hs : (trace step guard s as).any p = true) : ∃ s', Reachable step guard init s' ∧ p s' = true := by
  cases ht : trace step guard s as with
  | none => simp [ht] at hs
  | some s' => exact ⟨s', (Reachable.init h).of_trace ht, by simpa [ht] using hs⟩

lemma Reachable.exists_of_run [∀ s a, Decidable (guard s a)] {P : σ → Prop} [DecidablePred P] (as : List ι)
    (h : init s) (hs : (trace step guard s as).any (fun s' => decide (P s')) = true) :
    ∃ s', Reachable step guard init s' ∧ P s' := by
  obtain ⟨s', hr, hp⟩ := exists_of_trace as (fun s' => decide (P s')) h hs
  exact ⟨s', hr, of_decide_eq_true hp⟩

lemma run_ok (h : P s) (hstep : ∀ s a, P s → ∃ s', step s a = .ok s' ∧ P s') (as : List ι) :
    ∃ s', run step s as = .ok s' ∧ P s' := by
  induction as generalizing s with
  | nil => exact ⟨s, rfl, h⟩
  | cons a as ih =>
    obtain ⟨s1, hs1, h1⟩ := hstep s a h
    obtain ⟨s', hs', h'⟩ := ih h1
    exact ⟨s', by rw [run_cons, hs1]; exact hs', h'⟩

end Ucore.Lib
