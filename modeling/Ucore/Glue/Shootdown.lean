import Ucore.Lib.Run

/-!
# TLB shootdown

`mp_tlb_invalidate`, `ipi` and the lock of `kern_enter`, for any number of CPUs
whose numbers are those of their local APICs. A step reads or writes one global
variable. A CPU comes to `ipi` by the interrupt, by the `int` in the loop of
`kern_enter`, or on its own account; the gate keeps interrupts off until it
returns, and so does `mp_tlb_invalidate`.

What the CPUs have executed, and the requests there were, are not in the source.
-/

namespace Ucore.Glue

open Lib (Reachable)
open Function

structure Request where
  pgdir : Nat
  la : Nat
  deriving DecidableEq, Repr

/-- Where a CPU is: `ipi` from the load of `mpti_pgdir` on, and
`mp_tlb_invalidate` from `mpti_end = 0` on. `retEarly` is its first `return`, while
CPUs are still being initialised. -/
inductive Place
  | out
  | loadPgdir
  | loadLa (pgdir : Nat)
  | invalidate (x : Request)
  | waitEnd
  | lower
  | clearEnd (x : Request)
  | setPgdir (x : Request)
  | setLa (x : Request)
  | raise (x : Request) (i : Nat)
  | own (x : Request)
  | setEnd (x : Request)
  | poll (x : Request) (i : Nat)
  | ret (x : Request)
  | retEarly (x : Request)
  deriving DecidableEq, Repr

structure Mp where
  lcpuCount : Nat
  initFinished : Nat
  lock : Option Nat
  ipiRaise : Nat → Bool
  mptiPgdir : Nat
  mptiLa : Nat
  mptiEnd : Bool
  place : Nat → Place
  since : Nat → List Request
  executed : List Request
  requested : List Request

inductive MpEvent
  | ready
  | acquire (c : Nat)
  | release (c : Nat)
  | call (c : Nat) (x : Request)
  | ipi (c : Nat)
  | step (c : Nat)
  deriving DecidableEq, Repr

namespace Mp

def goto (s : Mp) (c : Nat) (p : Place) : Mp := { s with place := update s.place c p }

def tlbInvalidate (s : Mp) (c : Nat) (x : Request) : Mp :=
  { s with since := update s.since c (x :: s.since c), executed := x :: s.executed }

/-- The start of `mp_tlb_invalidate`. -/
def call (s : Mp) (c : Nat) (x : Request) : Mp :=
  let s := { s with since := fun _ => [], requested := x :: s.requested }
  if s.initFinished < s.lcpuCount then (s.tlbInvalidate c x).goto c (.retEarly x)
  else s.goto c (.clearEnd x)

def ipi (s : Mp) (c : Nat) : Mp := if s.ipiRaise c then s.goto c .loadPgdir else s

def advance (s : Mp) (c : Nat) : Mp :=
  match s.place c with
  | .out => s
  | .loadPgdir => s.goto c (.loadLa s.mptiPgdir)
  | .loadLa pgdir => s.goto c (.invalidate ⟨pgdir, s.mptiLa⟩)
  | .invalidate x => (s.tlbInvalidate c x).goto c .waitEnd
  | .waitEnd => if s.mptiEnd then s.goto c .lower else s
  | .lower => { s with ipiRaise := update s.ipiRaise c false }.goto c .out
  | .clearEnd x => { s with mptiEnd := false }.goto c (.setPgdir x)
  | .setPgdir x => { s with mptiPgdir := x.pgdir }.goto c (.setLa x)
  | .setLa x => { s with mptiLa := x.la }.goto c (.raise x 0)
  | .raise x i =>
    if i = s.lcpuCount then s.goto c (.own x)
    else if i = c then s.goto c (.raise x (i + 1))
    else { s with ipiRaise := update s.ipiRaise i true }.goto c (.raise x (i + 1))
  | .own x => (s.tlbInvalidate c x).goto c (.setEnd x)
  | .setEnd x => { s with mptiEnd := true }.goto c (.poll x 0)
  | .poll x i =>
    if i = s.lcpuCount then s.goto c (.ret x)
    else if i ≠ c ∧ s.ipiRaise i then s
    else s.goto c (.poll x (i + 1))
  | .ret _ | .retEarly _ => s.goto c .out

/-- A CPU calls `mp_tlb_invalidate` with the lock. The first CPU may take the lock
before the others have been initialised, in a page fault of `check_swap`. -/
def Allowed (s : Mp) : MpEvent → Prop
  | .ready => s.initFinished < s.lcpuCount
  | .acquire c => c < s.lcpuCount ∧ s.place c = .out ∧ s.lock = none
  | .release c => s.place c = .out ∧ s.lock = some c
  | .call c _ => s.place c = .out ∧ s.lock = some c
  | .ipi c => c < s.lcpuCount ∧ s.place c = .out
  | .step _ => True

instance (s e) : Decidable (Allowed s e) := by
  unfold Allowed
  split <;> infer_instance

def step (s : Mp) : MpEvent → Except Empty Mp
  | .ready => .ok { s with initFinished := s.initFinished + 1 }
  | .acquire c => .ok { s with lock := some c }
  | .release _ => .ok { s with lock := none }
  | .call c x => .ok (s.call c x)
  | .ipi c => .ok (s.ipi c)
  | .step c => .ok (s.advance c)

structure Start (s : Mp) : Prop where
  init : s.initFinished ≤ s.lcpuCount
  lock : s.lock = none
  raise : ∀ c, s.ipiRaise c = false
  place : ∀ c, s.place c = .out
  executed : s.executed = []

variable {s s' : Mp} {e : MpEvent}

def asks : Place → Option Request
  | .clearEnd x | .setPgdir x | .setLa x | .raise x _ | .own x | .setEnd x | .poll x _ | .ret x | .retEarly x => some x
  | _ => none

def Flagged (c : Nat) : Place → Prop
  | .raise _ i => c < i
  | .own _ | .setEnd _ | .poll _ _ | .ret _ => True
  | _ => False

def Awaits (c : Nat) : Place → Prop
  | .raise _ i => c < i
  | .own _ | .setEnd _ => True
  | .poll _ i => i ≤ c
  | _ => False

def Posted (s : Mp) : Place → Prop
  | .setLa x => s.mptiPgdir = x.pgdir
  | .raise x i => (s.mptiPgdir = x.pgdir ∧ s.mptiLa = x.la) ∧ i ≤ s.lcpuCount
  | .own x | .setEnd x | .poll x _ => s.mptiPgdir = x.pgdir ∧ s.mptiLa = x.la
  | _ => True

def Answers (s : Mp) (c : Nat) : Place → Prop
  | .loadPgdir => s.ipiRaise c = true
  | .loadLa pgdir => s.ipiRaise c = true ∧ pgdir = s.mptiPgdir
  | .invalidate x => s.ipiRaise c = true ∧ x = ⟨s.mptiPgdir, s.mptiLa⟩
  | .waitEnd | .lower => s.ipiRaise c = true ∧ ⟨s.mptiPgdir, s.mptiLa⟩ ∈ s.since c
  | _ => True

structure Inv (s : Mp) : Prop where
  init : s.initFinished ≤ s.lcpuCount
  lock : ∀ c, s.lock = some c → c < s.lcpuCount
  holder : ∀ c x, asks (s.place c) = some x → s.lock = some c ∧ x ∈ s.requested
  raised : ∀ c, s.ipiRaise c = true → c < s.lcpuCount ∧ ∃ m, m ≠ c ∧ Awaits c (s.place m)
  posted : ∀ c, s.Posted (s.place c)
  answers : ∀ c, s.Answers c (s.place c)
  done : ∀ m x c, asks (s.place m) = some x → Flagged c (s.place m) → c ≠ m → c < s.lcpuCount →
    s.ipiRaise c = true ∨ x ∈ s.since c
  executed : ∀ x ∈ s.executed, x ∈ s.requested

lemma Inv.of_start (h : s.Start) : s.Inv := by
  have hp := h.place
  constructor
  case init => exact h.init
  case lock =>
    intro c hc
    simp [h.lock] at hc
  case holder =>
    intro c x hc
    simp [hp, asks] at hc
  case raised =>
    intro c hc
    simp [h.raise] at hc
  case posted =>
    intro c
    rw [hp]
    trivial
  case answers =>
    intro c
    rw [hp]
    trivial
  case done =>
    intro m x c hc
    simp [hp, asks] at hc
  case executed => simp [h.executed]

lemma asks_of_awaits (h : Awaits c p) : ∃ x, asks p = some x := by
  cases p <;> first | exact h.elim | exact ⟨_, rfl⟩

lemma mem_tlbInvalidate (h : x ∈ s.since c) : x ∈ (s.tlbInvalidate c' y).since c := by
  by_cases hc : c = c'
  · subst hc
    simp [tlbInvalidate, h]
  · simpa [tlbInvalidate, update_of_ne hc] using h

lemma tlbInvalidate_mem : x ∈ (s.tlbInvalidate c x).since c := by
  simp [tlbInvalidate]

lemma posted_of_asks (h : asks p = none) : s.Posted p := by
  cases p <;> trivial

lemma answers_of_asks (h : asks p = some x) : s.Answers c p := by
  cases p <;> trivial

lemma Answers.since (h : s.Answers c p) (hmem : s'.mptiPgdir = s.mptiPgdir ∧ s'.mptiLa = s.mptiLa)
    (hr : s.ipiRaise c = true → s'.ipiRaise c = true) (hsub : ∀ x ∈ s.since c, x ∈ s'.since c) : s'.Answers c p := by
  cases p with
  | loadPgdir => exact hr h
  | loadLa => exact ⟨hr h.1, by rw [hmem.1]; exact h.2⟩
  | invalidate => exact ⟨hr h.1, by rw [hmem.1, hmem.2]; exact h.2⟩
  | waitEnd => exact ⟨hr h.1, by rw [hmem.1, hmem.2]; exact hsub _ h.2⟩
  | lower => exact ⟨hr h.1, by rw [hmem.1, hmem.2]; exact hsub _ h.2⟩
  | _ => trivial

section

variable (h : s.Inv)
include h

lemma Inv.quiet (hm : s.lock = some m) (hnone : ∀ c, ¬ Awaits c (s.place m)) (c : Nat) : s.ipiRaise c = false := by
  by_contra hc
  obtain ⟨-, m', -, ha⟩ := h.raised c (by simpa using hc)
  obtain ⟨x, hx⟩ := asks_of_awaits ha
  obtain rfl : m = m' := Option.some.inj (hm.symm.trans (h.holder m' x hx).1)
  exact hnone c ha

lemma Inv.nobody (hq : ∀ c, s.ipiRaise c = false) (c : Nat) : s.place c = .out ∨ ∃ x, asks (s.place c) = some x := by
  have ha := h.answers c
  cases hp : s.place c <;> simp [hp, Answers, hq] at ha <;> simp [asks]

lemma Inv.posted_eq (ha : Awaits c (s.place m)) (hx : asks (s.place m) = some x) : x = ⟨s.mptiPgdir, s.mptiLa⟩ := by
  have hpost := h.posted m
  cases hp : s.place m <;> rw [hp] at ha hpost hx <;> first | exact ha.elim | skip
  case raise =>
    cases hx
    rw [hpost.1.1, hpost.1.2]
  all_goals
    cases hx
    rw [hpost.1, hpost.2]

lemma Inv.loaded (hp : s.place c = .invalidate x) : ∃ m, m ≠ c ∧ s.lock = some m ∧ asks (s.place m) = some x := by
  have hans := h.answers c
  rw [hp] at hans
  obtain ⟨hup, rfl⟩ := hans
  obtain ⟨-, m, hm, ha⟩ := h.raised c hup
  obtain ⟨y, hy⟩ := asks_of_awaits ha
  exact ⟨m, hm, (h.holder m y hy).1, h.posted_eq ha hy ▸ hy⟩

lemma Inv.respond (hold : ∀ c', ¬ Awaits c' (s.place c)) (hnew : asks p = none)
    (hsame : s' = { s with place := update s.place c p, since := s'.since, executed := s'.executed })
    (hsub : ∀ c' x, x ∈ s.since c' → x ∈ s'.since c') (hans : s'.Answers c p)
    (hexec : ∀ x ∈ s'.executed, x ∈ s.requested) : s'.Inv := by
  have hplace : ∀ c', c' ≠ c → s'.place c' = s.place c' := by
    intro c' hc
    rw [hsame]
    exact update_of_ne hc ..
  have hself : s'.place c = p := by
    rw [hsame]
    exact update_self ..
  have hasks : ∀ c' x, asks (s'.place c') = some x → c' ≠ c := by
    rintro c' x hx rfl
    simp [hself, hnew] at hx
  have hreq : s'.requested = s.requested := by rw [hsame]
  have hraise : s'.ipiRaise = s.ipiRaise := by rw [hsame]
  have hcount : s'.lcpuCount = s.lcpuCount := by rw [hsame]
  have hmem : s'.mptiPgdir = s.mptiPgdir ∧ s'.mptiLa = s.mptiLa := by
    rw [hsame]
    exact ⟨rfl, rfl⟩
  constructor
  case init =>
    rw [hsame]
    exact h.init
  case lock =>
    rw [hsame]
    exact h.lock
  case holder =>
    intro c' x hx
    rw [hplace c' (hasks c' x hx)] at hx
    rw [hreq, show s'.lock = s.lock by rw [hsame]]
    exact h.holder c' x hx
  case raised =>
    intro c' hc
    rw [hraise] at hc
    obtain ⟨hlt, m, hm, ha⟩ := h.raised c' hc
    grind
  case posted =>
    intro c'
    by_cases hc : c' = c
    · subst hc
      rw [hself]
      exact posted_of_asks hnew
    rw [hplace c' hc]
    have := h.posted c'
    rw [hsame]
    exact this
  case answers =>
    intro c'
    by_cases hc : c' = c
    · subst hc
      rwa [hself]
    · rw [hplace c' hc]
      exact (h.answers c').since hmem (by rw [hraise]; exact id) (hsub c')
  case done =>
    intro m x c' hx hf hne hlt
    have hm := hplace m (hasks m x hx)
    rw [hm] at hx hf
    rw [hraise]
    exact (h.done m x c' hx hf hne (hcount ▸ hlt)).imp id (hsub c' x)
  case executed =>
    rw [hreq]
    exact hexec

lemma Inv.ask (hold : asks (s.place m) = some x) (hnew : asks p = some x)
    (hsame : s' = { s with place := update s.place m p, mptiEnd := s'.mptiEnd, since := s'.since, executed := s'.executed })
    (hsub : ∀ c y, y ∈ s.since c → y ∈ s'.since c) (hexec : ∀ y ∈ s'.executed, y ∈ s.requested) (hpost : s.Posted p)
    (hawaits : ∀ c, Awaits c (s.place m) → s.ipiRaise c = true → m ≠ c → Awaits c p)
    (hdone : ∀ c, Flagged c p → c ≠ m → c < s.lcpuCount → s.ipiRaise c = true ∨ x ∈ s.since c) : s'.Inv := by
  have hplace : ∀ c, c ≠ m → s'.place c = s.place c := by
    intro c hc
    rw [hsame]
    exact update_of_ne hc ..
  have hself : s'.place m = p := by
    rw [hsame]
    exact update_self ..
  have hraise : s'.ipiRaise = s.ipiRaise := by rw [hsame]
  have hcount : s'.lcpuCount = s.lcpuCount := by rw [hsame]
  have hlock : s'.lock = s.lock := by rw [hsame]
  have hreq : s'.requested = s.requested := by rw [hsame]
  have hmem : s'.mptiPgdir = s.mptiPgdir ∧ s'.mptiLa = s.mptiLa := by
    rw [hsame]
    exact ⟨rfl, rfl⟩
  constructor
  case init =>
    rw [hsame]
    exact h.init
  case lock =>
    rw [hsame]
    exact h.lock
  case holder => grind [h.holder]
  case raised =>
    intro c hc
    rw [hraise] at hc
    obtain ⟨hlt, m', hm', ha⟩ := h.raised c hc
    refine ⟨hcount ▸ hlt, m', hm', ?_⟩
    by_cases hmm : m' = m
    · subst hmm
      rw [hself]
      exact hawaits c ha hc hm'
    · rwa [hplace m' hmm]
  case posted =>
    intro c
    by_cases hc : c = m
    · subst hc
      rw [hself, hsame]
      exact hpost
    rw [hplace c hc]
    have := h.posted c
    rw [hsame]
    exact this
  case answers =>
    intro c
    by_cases hc : c = m
    · subst hc
      rw [hself]
      exact answers_of_asks hnew
    · rw [hplace c hc]
      exact (h.answers c).since hmem (by rw [hraise]; exact id) (hsub c)
  case done =>
    intro m' y c hy hf hne hlt
    rw [hraise]
    by_cases hmm : m' = m
    · subst hmm
      rw [hself] at hy hf
      rw [hnew] at hy
      cases hy
      exact (hdone c hf hne (hcount ▸ hlt)).imp id (hsub c x)
    · rw [hplace m' hmm] at hy hf
      exact (h.done m' y c hy hf hne (hcount ▸ hlt)).imp id (hsub c y)
  case executed =>
    rw [hreq]
    exact hexec

lemma Inv.lower (hp : s.place c = .lower) : ({ s with ipiRaise := update s.ipiRaise c false }.goto c .out).Inv := by
  have hc := h.answers c
  simp only [hp, Answers] at hc
  obtain ⟨hup, hin⟩ := hc
  have hplace : ∀ c', c' ≠ c → update s.place c .out c' = s.place c' := fun c' hc => update_of_ne hc ..
  have hraise : ∀ c', c' ≠ c → update s.ipiRaise c false c' = s.ipiRaise c' := fun c' hc => update_of_ne hc ..
  have hasks : ∀ c' x, asks (update s.place c .out c') = some x → c' ≠ c := by
    rintro c' x hx rfl
    simp [asks] at hx
  constructor
  case init => exact h.init
  case lock => exact h.lock
  case holder =>
    intro c' x hx
    exact h.holder c' x (hplace c' (hasks c' x hx) ▸ hx)
  case raised =>
    intro c' hc'
    have hne : c' ≠ c := by
      rintro rfl
      simp [goto] at hc'
    obtain ⟨hlt, m, hm, ha⟩ := h.raised c' ((hraise c' hne).symm.trans hc')
    have hmc : m ≠ c := by
      rintro rfl
      simp [hp, Awaits] at ha
    refine ⟨hlt, m, hm, ?_⟩
    change Awaits c' (update s.place c .out m)
    rwa [hplace m hmc]
  case posted =>
    intro c'
    change s.Posted (update s.place c .out c')
    by_cases hcc : c' = c
    · subst hcc
      rw [update_self]
      trivial
    · rw [hplace c' hcc]
      exact h.posted c'
  case answers =>
    intro c'
    change Answers _ c' (update s.place c .out c')
    by_cases hcc : c' = c
    · subst hcc
      rw [update_self]
      trivial
    · rw [hplace c' hcc]
      exact (h.answers c').since ⟨rfl, rfl⟩ (hraise c' hcc).trans (fun _ hx => hx)
  case done =>
    intro m x c' hx hf hne hlt
    have hm := hplace m (hasks m x hx)
    change asks (update s.place c .out m) = some x at hx
    change Flagged c' (update s.place c .out m) at hf
    change update s.ipiRaise c false c' = true ∨ x ∈ s.since c'
    rw [hm] at hx hf
    by_cases hcc : c' = c
    · -- the flag that goes down was raised for this very request
      subst hcc
      obtain ⟨-, m', -, ha⟩ := h.raised c' hup
      obtain ⟨x', hx'⟩ := asks_of_awaits ha
      obtain rfl : m' = m := Option.some.inj ((h.holder m' x' hx').1.symm.trans (h.holder m x hx).1)
      exact .inr (h.posted_eq ha hx ▸ hin)
    · rw [hraise c' hcc]
      exact h.done m x c' hx hf hne hlt
  case executed => exact h.executed

lemma Inv.post (hold : asks (s.place m) = some x) (hnone : ∀ c, ¬ Awaits c (s.place m))
    (hnew : asks p = some x) (hflag : ∀ c, ¬ Flagged c p)
    (hpost : Posted { s with mptiPgdir := pgdir, mptiLa := la } p) :
    ({ s with mptiPgdir := pgdir, mptiLa := la }.goto m p).Inv := by
  have hl := (h.holder m x hold).1
  have hquiet := h.quiet hl hnone
  have hplace : ∀ c, c ≠ m → update s.place m p c = s.place c := fun c hc => update_of_ne hc ..
  have hself : update s.place m p m = p := update_self ..
  have hasks : ∀ c y, c ≠ m → asks (s.place c) ≠ some y := by
    intro c y hc hy
    exact hc (Option.some.inj ((h.holder c y hy).1.symm.trans hl))
  have hout : ∀ c, c ≠ m → s.place c = .out := by
    intro c hc
    obtain hp | ⟨y, hy⟩ := h.nobody hquiet c
    · exact hp
    · exact (hasks c y hc hy).elim
  constructor
  case init => exact h.init
  case lock => exact h.lock
  case holder =>
    intro c y hy
    change asks (update s.place m p c) = some y at hy
    by_cases hc : c = m
    · subst hc
      rw [hself, hnew] at hy
      cases hy
      exact h.holder c x hold
    · rw [hplace c hc] at hy
      exact (hasks c y hc hy).elim
  case raised =>
    intro c hc
    change s.ipiRaise c = true at hc
    simp [hquiet] at hc
  case posted =>
    intro c
    change Posted _ (update s.place m p c)
    by_cases hc : c = m
    · subst hc
      rw [hself]
      cases p <;> exact hpost
    · rw [hplace c hc, hout c hc]
      trivial
  case answers =>
    intro c
    change Answers _ c (update s.place m p c)
    by_cases hc : c = m
    · subst hc
      rw [hself]
      exact answers_of_asks hnew
    · rw [hplace c hc, hout c hc]
      trivial
  case done =>
    intro m' y c hy hf
    change asks (update s.place m p m') = some y at hy
    change Flagged c (update s.place m p m') at hf
    grind
  case executed => exact h.executed

lemma Inv.flag (hp : s.place m = .raise x i) (hi : i ≠ m) (hlt : i < s.lcpuCount) :
    ({ s with ipiRaise := update s.ipiRaise i true }.goto m (.raise x (i + 1))).Inv := by
  have hplace : ∀ c, c ≠ m → update s.place m (.raise x (i + 1)) c = s.place c := fun c hc => update_of_ne hc ..
  have hself : update s.place m (.raise x (i + 1)) m = .raise x (i + 1) := update_self ..
  have hup : ∀ c, s.ipiRaise c = true → update s.ipiRaise i true c = true := by
    intro c hc
    by_cases hci : c = i
    · rw [hci, update_self]
    · rwa [update_of_ne hci]
  have hx : asks (s.place m) = some x := by rw [hp, asks]
  constructor
  case init => exact h.init
  case lock => exact h.lock
  case holder =>
    intro c y hy
    change asks (update s.place m _ c) = some y at hy
    by_cases hc : c = m
    · subst hc
      rw [hself] at hy
      cases hy
      exact h.holder c x hx
    · rw [hplace c hc] at hy
      exact h.holder c y hy
  case raised =>
    intro c hc
    change update s.ipiRaise i true c = true at hc
    change c < s.lcpuCount ∧ ∃ m', m' ≠ c ∧ Awaits c (update s.place m _ m')
    by_cases hci : c = i
    · exact ⟨hci ▸ hlt, m, fun hm => hi (hci.symm.trans hm.symm), by rw [hself, hci]; exact Nat.lt_succ_self i⟩
    rw [update_of_ne hci] at hc
    obtain ⟨hlt, m', hm', ha⟩ := h.raised c hc
    refine ⟨hlt, m', hm', ?_⟩
    by_cases hm : m' = m
    · subst hm
      rw [hp] at ha
      rw [hself]
      exact Nat.lt_succ_of_lt ha
    · rwa [hplace m' hm]
  case posted =>
    intro c
    change s.Posted (update s.place m _ c)
    by_cases hc : c = m
    · subst hc
      have := h.posted c
      rw [hp] at this
      rw [hself]
      exact ⟨this.1, hlt⟩
    · rw [hplace c hc]
      exact h.posted c
  case answers =>
    intro c
    change Answers _ c (update s.place m _ c)
    by_cases hc : c = m
    · subst hc
      rw [hself]
      trivial
    · rw [hplace c hc]
      exact (h.answers c).since ⟨rfl, rfl⟩ (hup c) (fun _ hx => hx)
  case done =>
    intro m' y c hy hf hne hlt
    change asks (update s.place m _ m') = some y at hy
    change Flagged c (update s.place m _ m') at hf
    change update s.ipiRaise i true c = true ∨ y ∈ s.since c
    by_cases hm : m' = m
    · subst hm
      rw [hself] at hy hf
      cases hy
      obtain rfl | hci := Nat.lt_succ_iff_lt_or_eq.mp hf |>.symm
      · exact .inl (update_self ..)
      · exact (h.done m' x c hx (by rw [hp]; exact hci) hne hlt).imp (hup c) id
    · rw [hplace m' hm] at hy hf
      exact (h.done m' y c hy hf hne hlt).imp (hup c) id
  case executed => exact h.executed

section

variable (hp : s.place m = .out) (hl : s.lock = some m)
include hp hl

lemma Inv.idle (c : Nat) : s.place c = .out := by
  obtain hc | ⟨y, hy⟩ := h.nobody (h.quiet hl (by simp [hp, Awaits])) c
  · exact hc
  · obtain rfl : m = c := Option.some.inj (hl.symm.trans (h.holder c y hy).1)
    exact hp

/-- A call leaves its caller at the one place that asks. -/
lemma Inv.ask_first (hx : asks p = some x)
    (hpost : s'.Posted p) (hflag : ∀ c, ¬ Flagged c p) (hexec : ∀ y ∈ s'.executed, y ∈ x :: s.requested)
    (hsame : s' = { s with
      place := update s.place m p, since := s'.since, executed := s'.executed, requested := x :: s.requested }) :
    s'.Inv := by
  have hquiet := h.quiet hl (by simp [hp, Awaits])
  have hself : s'.place m = p := by
    rw [hsame]
    exact update_self ..
  have hplace : ∀ c, c ≠ m → s'.place c = .out := by
    intro c hc
    rw [hsame]
    exact (update_of_ne hc ..).trans (h.idle hp hl c)
  constructor
  case init =>
    rw [hsame]
    exact h.init
  case lock =>
    rw [hsame]
    exact h.lock
  case holder =>
    intro c y hy
    by_cases hc : c = m
    · subst hc
      rw [hself, hx] at hy
      cases hy
      rw [hsame]
      exact ⟨hl, .head _⟩
    · rw [hplace c hc] at hy
      cases hy
  case raised =>
    intro c hc
    rw [hsame] at hc
    simp [hquiet] at hc
  case posted =>
    intro c
    by_cases hc : c = m
    · subst hc
      rwa [hself]
    · rw [hplace c hc]
      trivial
  case answers =>
    intro c
    by_cases hc : c = m
    · subst hc
      rw [hself]
      exact answers_of_asks hx
    · rw [hplace c hc]
      trivial
  case done =>
    intro m' y c hy hf
    by_cases hm : m' = m
    · subst hm
      rw [hself] at hf
      exact absurd hf (hflag c)
    · rw [hplace m' hm] at hf
      exact hf.elim
  case executed =>
    rw [show s'.requested = x :: s.requested by rw [hsame]]
    exact hexec

lemma Inv.call : (s.call m x).Inv := by
  have hexec : ∀ y ∈ s.executed, y ∈ x :: s.requested := fun y hy => .tail _ (h.executed y hy)
  rw [Mp.call]
  split
  · exact h.ask_first (p := .retEarly x) hp hl rfl trivial (by simp [Flagged])
      (List.forall_mem_cons.mpr ⟨.head _, hexec⟩) rfl
  · exact h.ask_first (p := .clearEnd x) hp hl rfl trivial (by simp [Flagged]) hexec rfl

end

lemma Inv.advance (c : Nat) : (s.advance c).Inv := by
  have hans := h.answers c
  have hpost := h.posted c
  have hdone := h.done c
  have hholder := h.holder c
  rw [Mp.advance]
  cases hp : s.place c with
  | out => exact h
  | loadPgdir =>
    rw [hp] at hans
    exact h.respond (by simp [hp, Awaits]) rfl rfl (fun _ _ hx => hx) ⟨hans, rfl⟩ h.executed
  | loadLa pgdir =>
    rw [hp] at hans
    exact h.respond (by simp [hp, Awaits]) rfl rfl (fun _ _ hx => hx) ⟨hans.1, by rw [hans.2]; rfl⟩ h.executed
  | invalidate x =>
    rw [hp] at hans
    obtain ⟨m, -, -, hm⟩ := h.loaded hp
    have hreq : x ∈ s.requested := (h.holder m x hm).2
    obtain ⟨hup, rfl⟩ := hans
    refine h.respond (by simp [hp, Awaits]) rfl rfl ?_ ⟨hup, ?_⟩ ?_
    · exact fun c' y => mem_tlbInvalidate
    · exact tlbInvalidate_mem
    · exact List.forall_mem_cons.mpr ⟨hreq, h.executed⟩
  | waitEnd =>
    rw [hp] at hans
    dsimp only
    split
    · exact h.respond (by simp [hp, Awaits]) rfl rfl (fun _ _ hx => hx) hans h.executed
    · exact h
  | lower => exact h.lower hp
  | clearEnd x =>
    have hx : asks (s.place c) = some x := by rw [hp, asks]
    exact h.ask hx rfl rfl (fun _ _ hy => hy) h.executed trivial (by simp [hp, Awaits]) (by simp [Flagged])
  | setPgdir x =>
    have hx : asks (s.place c) = some x := by rw [hp, asks]
    exact h.post hx (by simp [hp, Awaits]) rfl (by simp [Flagged]) rfl
  | setLa x =>
    rw [hp] at hpost
    have hx : asks (s.place c) = some x := by rw [hp, asks]
    exact h.post hx (by simp [hp, Awaits]) rfl (by simp [Flagged]) ⟨⟨hpost, rfl⟩, Nat.zero_le _⟩
  | raise x i =>
    have hx : asks (s.place c) = some x := by rw [hp, asks]
    rw [hp] at hpost
    dsimp only
    -- the loop ends, passes over its own CPU, or raises a flag
    split
    next hi =>
      refine h.ask hx rfl rfl (fun _ _ hy => hy) h.executed hpost.1 (fun _ _ _ _ => trivial) ?_
      intro c' _ hne hlt
      exact hdone x c' hx (by rw [hp, hi]; exact hlt) hne hlt
    next hi =>
      have hlt : i < s.lcpuCount := Nat.lt_of_le_of_ne hpost.2 hi
      split
      next hic =>
        refine h.ask hx rfl rfl (fun _ _ hy => hy) h.executed ⟨hpost.1, hlt⟩ ?_ ?_
        · intro c' ha _ _
          rw [hp] at ha
          exact Nat.lt_succ_of_lt ha
        · intro c' hf hne hlt
          refine hdone x c' hx ?_ hne hlt
          rw [hp]
          exact Nat.lt_of_le_of_ne (Nat.le_of_lt_succ hf) (hic ▸ hne)
      next hic => exact h.flag hp hic hlt
  | own x =>
    have hx : asks (s.place c) = some x := by rw [hp, asks]
    rw [hp] at hpost
    refine h.ask hx rfl rfl (fun c' y => mem_tlbInvalidate) ?_ hpost (fun _ _ _ _ => trivial) ?_
    · exact List.forall_mem_cons.mpr ⟨(hholder x hx).2, h.executed⟩
    · intro c' _ hne hlt
      exact hdone x c' hx (by rw [hp]; trivial) hne hlt
  | setEnd x =>
    have hx : asks (s.place c) = some x := by rw [hp, asks]
    rw [hp] at hpost
    refine h.ask hx rfl rfl (fun _ _ hy => hy) h.executed hpost (fun c' _ _ _ => Nat.zero_le c') ?_
    intro c' _ hne hlt
    exact hdone x c' hx (by rw [hp]; trivial) hne hlt
  | poll x i =>
    have hx : asks (s.place c) = some x := by rw [hp, asks]
    rw [hp] at hpost
    have hd : ∀ c', c' ≠ c → c' < s.lcpuCount → s.ipiRaise c' = true ∨ x ∈ s.since c' := fun c' hne hlt =>
      hdone x c' hx (by rw [hp]; trivial) hne hlt
    dsimp only
    -- a flag that is still up is that of a CPU not yet passed
    split
    next hi =>
      refine h.ask hx rfl rfl (fun _ _ hy => hy) h.executed trivial ?_ (fun c' _ => hd c')
      intro c' ha hup _
      rw [hp] at ha
      exact (Nat.not_lt.mpr ha (hi ▸ (h.raised c' hup).1)).elim
    next hi =>
      split
      next => exact h
      next hr =>
        refine h.ask hx rfl rfl (fun _ _ hy => hy) h.executed hpost ?_ (fun c' _ => hd c')
        intro c' ha hup hne
        grind [Awaits]
  | ret x | retEarly x => exact h.respond (by simp [hp, Awaits]) rfl rfl (fun _ _ hx => hx) trivial h.executed

lemma Inv.relock (hnone : ∀ c, asks (s.place c) = none)
    (hlock : ∀ c, l = some c → c < s.lcpuCount) : Inv { s with lock := l } := by
  refine ⟨h.init, hlock, ?_, h.raised, ?_, ?_, h.done, h.executed⟩
  · intro c x hx
    cases (hnone c).symm.trans hx
  · exact fun c => posted_of_asks (hnone c)
  · exact fun c => (h.answers c).since ⟨rfl, rfl⟩ id (fun _ hx => hx)

lemma Inv.step (ha : Allowed s e) (hs : Mp.step s e = .ok s') : s'.Inv := by
  have hfree : s.lock = none → ∀ c, asks (s.place c) = none := by
    intro hl c
    rw [Option.eq_none_iff_forall_ne_some]
    intro x hx
    cases hl.symm.trans (h.holder c x hx).1
  cases e with
  | ready =>
    cases hs
    exact ⟨ha, h.lock, h.holder, h.raised, h.posted, h.answers, h.done, h.executed⟩
  | acquire c =>
    cases hs
    obtain ⟨hlt, -, hl⟩ := ha
    exact h.relock (hfree hl) fun c' hc => Option.some.inj hc ▸ hlt
  | release c =>
    cases hs
    obtain ⟨hp, hl⟩ := ha
    refine h.relock ?_ (by simp)
    intro c'
    rw [Option.eq_none_iff_forall_ne_some]
    intro x hx
    obtain rfl : c = c' := Option.some.inj (hl.symm.trans (h.holder c' x hx).1)
    simp [hp, asks] at hx
  | call c x =>
    cases hs
    exact h.call ha.1 ha.2
  | ipi c =>
    cases hs
    rw [ipi]
    split
    next hup => exact h.respond (by simp [ha.2, Awaits]) rfl rfl (fun _ _ hx => hx) hup h.executed
    next => exact h
  | step c =>
    cases hs
    exact h.advance c

end

/-- When `mp_tlb_invalidate` returns, every other CPU has executed its request
since it was called, if all were initialised then; and a CPU in `ipi` executes none
but the request that the holder of the lock is making. -/
theorem shootdown_complete (hr : Reachable step Allowed Start s) :
    (∀ c x, s.place c = .ret x → ∀ c' < s.lcpuCount, c' ≠ c → x ∈ s.since c') ∧
    (∀ c x, (s.call c x).place c = .retEarly x ↔ s.initFinished < s.lcpuCount) ∧
    (∀ c x, s.place c = .invalidate x → ∃ m, m ≠ c ∧ s.lock = some m ∧ asks (s.place m) = some x) ∧
    ∀ x ∈ s.executed, x ∈ s.requested := by
  have h : s.Inv := hr.invariant (P := Inv) (fun _ => Inv.of_start) (fun _ _ _ => Inv.step)
  refine ⟨?_, fun c x => ?_, fun c x hp => h.loaded hp, h.executed⟩
  rotate_left
  · by_cases hlt : s.initFinished < s.lcpuCount
    · simp [call, goto, hlt]
    · simp [call, goto, hlt]
  intro c x hp c' hlt hne
  have hx : asks (s.place c) = some x := by rw [hp, asks]
  have hdown := h.quiet (h.holder c x hx).1 (by simp [hp, Awaits]) c'
  obtain hup | hin := h.done c x c' hx (by rw [hp]; trivial) hne hlt
  · simp [hdown] at hup
  · exact hin

def started : Mp where
  lcpuCount := 2
  initFinished := 0
  lock := none
  ipiRaise := fun _ => false
  mptiPgdir := 0
  mptiLa := 0
  mptiEnd := false
  place := fun _ => .out
  since := fun _ => []
  executed := []
  requested := []

lemma started_ok : Start started := ⟨by decide, rfl, fun _ => rfl, fun _ => rfl, rfl⟩

theorem shootdown_complete_two : ∃ s, Reachable step Allowed Start s ∧ s.place 0 = .ret ⟨4, 8⟩ ∧ ⟨4, 8⟩ ∈ s.since 1 := by
  obtain ⟨s, hr, hs⟩ : ∃ s, Reachable step Allowed Start s ∧
      s.place 0 = .ret ⟨4, 8⟩ ∧ s.lcpuCount = 2 :=
    Reachable.exists_of_run ([.ready, .ready, .acquire 0, .call 0 ⟨4, 8⟩] ++ List.replicate 6 (.step 0) ++ [.ipi 1] ++
        List.replicate 3 (.step 1) ++ List.replicate 2 (.step 0) ++ List.replicate 2 (.step 1) ++
        List.replicate 3 (.step 0))
      started_ok (by decide +kernel)
  exact ⟨s, hr, hs.1, (shootdown_complete hr).1 0 ⟨4, 8⟩ hs.1 1 (by rw [hs.2]; decide) (by decide)⟩

/-- A call before the second CPU is initialised. -/
theorem shootdown_early : ∃ s, Reachable step Allowed Start s ∧ s.place 0 = .retEarly ⟨4, 8⟩ ∧ 1 < s.lcpuCount ∧
    ⟨4, 8⟩ ∉ s.since 1 :=
  Reachable.exists_of_run [.acquire 0, .call 0 ⟨4, 8⟩] started_ok (by decide +kernel)

end Mp

end Ucore.Glue
