import Ucore.Process.Kill

/-!
# `init_main`

What `init` does is fixed: it makes `kswapd` and the first user process, and
then waits for children until no user process is left. `kswapd` only works and
sleeps. All other processes may make any call.
-/

namespace Ucore.Process

open Ucore.Lib Function
open Option (some some_ne_none)

def ProcEvent.actor : ProcEvent → Option Nat
  | .fork p _ _ | .exit p _ | .mayKilled p | .killGroup p _ | .kill p _ _ | .wait p _ | .resume
    p | .exec p | .sleep p _ => some p
  | .wakeup _ => none

def ProcEvent.isSleep : ProcEvent → Bool
  | .sleep .. => true
  | _ => false

inductive InitPc
  | forkKswapd
  | forkUser
  | loop
  | waiting
  | quit
  deriving DecidableEq, Repr

structure System where
  procs : Procs
  pc : InitPc
  kswapd : Option Nat
  nrProcessStore : Nat

inductive SysEvent
  /-- `init` runs up to its next `schedule`. A process that it makes gets the
  address `a`. -/
  | init (a : Nat)
  | other (e : ProcEvent)
  deriving DecidableEq, Repr

namespace System

def init (m : System) : Nat := m.procs.initproc

/-- The next call of `init_main`. At its end `kernel_thread_entry` calls
`do_exit`. -/
def initEvent (m : System) (a : Nat) : ProcEvent :=
  match m.pc with
  | .forkKswapd | .forkUser => .fork m.init a false
  | .loop => .wait m.init 0
  | .waiting => .resume m.init
  | .quit => .exit m.init 0

/-- The state after `do_wait`, which sleeps, returns an error if there are no
children, or returns zero. -/
def afterWait (m : System) (s : Procs) : InitPc :=
  if s.state m.init = .sleeping then .waiting
  else if s.freed = m.procs.freed then .quit
  else if m.nrProcessStore = s.nrProcess then .quit
  else .loop

def initNext (m : System) (a : Nat) (s : Procs) : Except Panic System :=
  match m.pc with
  | .forkKswapd =>
    if s.born = m.procs.born then .error .assertion
    else .ok { procs := s, pc := .forkUser, kswapd := some a, nrProcessStore := s.nrProcess }
  | .forkUser => if s.born = m.procs.born then .error .assertion else .ok { m with procs := s, pc := .loop }
  | .loop | .waiting => .ok { m with procs := s, pc := m.afterWait s }
  | .quit => .ok { m with procs := s }

def step (m : System) : SysEvent → Except Panic System
  | .init a => do
    let s ← m.procs.step (m.initEvent a)
    m.initNext a s
  | .other e => do
    let s ← m.procs.step e
    .ok { m with procs := s }

def Allowed (m : System) : SysEvent → Prop
  | .init a => m.procs.Allowed (m.initEvent a)
  | .other e => m.procs.Allowed e ∧ e.actor ≠ some m.init ∧ (e.actor ≠ none → e.actor = m.kswapd → e.isSleep = true)

def Spares (m : System) : SysEvent → Prop
  | .other (.kill _ pid _) => m.procs.findProc pid ≠ some m.init
  | _ => True

def boot (n : Nat) : System := ⟨.boot n, .forkKswapd, none, 0⟩

def Reached (n : Nat) : System → Prop :=
  Reachable step (fun m e => m.Allowed e ∧ m.Spares e) fun m => 0 < n ∧ n < maxProcess ∧ m = boot n

def UserProcess (m : System) (q : Nat) : Prop := q ∈ m.procs.procList ∧ q ≠ m.init ∧ some q ≠ m.kswapd

end System

namespace Procs

variable {s s' t : Procs} {p q a n : Nat} {e : ProcEvent}

structure Kept (q : Nat) (s s' : Procs) : Prop where
  cpus : s'.lcpuCount = s.lcpuCount
  alive : s.state q ≠ .zombie → s'.state q ≠ .zombie
  parent : ∀ p, s.parent q = some p → s'.state p ≠ .zombie → s'.parent q = some p
  waitPid : s'.waitPid q = s.waitPid q

lemma Roused.kept (h : Roused s s') : Kept q s s' := by
  have halive : s.state q ≠ .zombie → s'.state q ≠ .zombie := fun hz hz' => hz (h.zombie_iff.mp hz')
  have hparent : s'.parent = s.parent := by rw [h.eq]
  refine ⟨?_, halive, fun p hp _ => by rw [hparent, hp], ?_⟩
  all_goals rw [h.eq]

lemma Good.doExit_kept (h : s.Good) (hr : Roused s t) (hp : p ∈ s.procList)
    (hrun : s.state p = .runnable) (hq : q ∈ s.procList)
    (hne : q ≠ p) : Safe (fun _ => True) (t.doExit p) (Kept q s) := by
  have hlist : t.procList = s.procList := by rw [hr.eq]
  have hparent : t.parent = s.parent := by rw [hr.eq]
  refine ((doExit_ok (h.roused hr) (hlist ▸ hp) (hr.runnable hrun)).mono_error fun _ _ => trivial).mono fun s' he => ?_
  refine ⟨?_, fun halive hz => ?_, fun r hpar hlives => ?_, ?_⟩
  · rw [he.eq, hr.eq]
  · grind [he.zombie, hr.zombie_iff.mp]
  · grind [he.parent, he.zombie]
  · rw [he.eq, hr.eq]
    exact update_of_ne hne ..

lemma doWait_kept {pid : Nat} (hne : q ≠ p) : Safe (fun _ => True) (s.doWait p pid) (Kept q s) := by
  refine doWait_frame.mono ?_
  rintro s' ⟨-, -, hparent, hcpu, -, hstate⟩
  exact ⟨hcpu, fun hz => (hstate q hne).1.symm ▸ hz, fun r hpar _ => by rw [hparent, hpar], (hstate q hne).2⟩

lemma Good.rouses_kept {x : Except Panic Procs} (hx : ∃ s', x = .ok s' ∧ Roused s s') :
    Safe (fun _ => True) x (Kept q s) := by
  obtain ⟨s', rfl, hr⟩ := hx
  exact hr.kept

lemma Good.fork_kept {thread : Bool} (h : s.Good) (hrun : s.state p = .runnable) (hne : q ≠ a) :
    Safe (· = .assertion) (s.fork p a thread) (Kept q s) := by
  refine (fork_safe h hrun).mono ?_
  rintro s' (rfl | ⟨c, rfl, -⟩)
  · exact Roused.refl.kept
  · have hstate : (s.forked p a thread c).state q = s.state q := update_of_ne hne ..
    have hparent : (s.forked p a thread c).parent q = s.parent q := update_of_ne hne ..
    exact ⟨rfl, fun hz => hstate ▸ hz, fun r hpar _ => hparent.trans hpar, update_of_ne hne ..⟩

lemma step_kept (h : s.Good) (ha : s.Allowed e) (hq : q ∈ s.procList) (hne : e.actor ≠ some q) :
    Safe (fun _ => True) (s.step e) (Kept q s) := by
  have hother : ∀ p, e.actor = some p → q ≠ p := by
    rintro p hp rfl
    exact hne hp
  cases e with
  | fork p a thread =>
    obtain ⟨⟨-, hrun, -⟩, hnew, -⟩ := ha
    have hqa : q ≠ a := fun heq => hnew (heq ▸ hq)
    exact (h.fork_kept hrun hqa).mono_error fun _ _ => trivial
  | exit p code =>
    have hr : Roused s { s with exitCode := update s.exitCode p code } := ⟨rfl, fun _ => .inl ⟨rfl, rfl⟩⟩
    exact h.doExit_kept hr ha.1 ha.2.1 hq (hother p rfl)
  | mayKilled p =>
    rw [step]
    split
    · exact h.doExit_kept .refl ha.1 ha.2.1 hq (hother p rfl)
    · exact Roused.refl.kept
  | killGroup p code => exact Good.rouses_kept (killRing_ok h p code)
  | kill p pid code => exact Good.rouses_kept (doKill_ok h.wakeable pid code)
  | wait p pid => exact doWait_kept (hother p rfl)
  | resume p =>
    rw [step]
    cases s.waitPid p with
    | none => exact Roused.refl.kept
    | some pid =>
      dsimp only [resume]
      split
      · exact h.doExit_kept .refl ha.1 ha.2 hq (hother p rfl)
      · exact doWait_kept (hother p rfl)
  | exec p => exact ⟨rfl, id, fun _ hpar _ => hpar, rfl⟩
  | sleep p w =>
    refine ⟨rfl, fun hz => ?_, fun _ hpar _ => hpar, rfl⟩
    change update s.state p .sleeping q ≠ .zombie
    rwa [update_of_ne (hother p rfl)]
  | wakeup r =>
    obtain ⟨s', hs', hr, -⟩ := wakeupProc_ok ha.2 (h.shape.cpu r ha.1)
    exact Good.rouses_kept ⟨s', hs', hr⟩

lemma step_spared (h : s.Good) (ha : s.Allowed e) (hq : q ∈ s.procList) (halone : s.nextThread q = q)
    (hspare : ∀ p pid code, e = .kill p pid code → s.findProc pid ≠ some q) :
    Safe (fun _ => True) (s.step e) fun s' => s'.exiting q = s.exiting q := by
  have hcalm : ∀ s', Calm s s' → s'.exiting q = s.exiting q := fun s' hc => by rw [hc.exiting]
  cases e with
  | fork p a thread =>
    obtain ⟨⟨-, hrun, -⟩, hnew, -⟩ := ha
    refine ((fork_safe h hrun).mono_error fun _ _ => trivial).mono ?_
    rintro s' (rfl | ⟨c, rfl, -⟩)
    · rfl
    · have hqa : q ≠ a := fun heq => hnew (heq ▸ hq)
      exact update_of_ne hqa ..
  | exit p code => exact doExit_calm.mono fun s' hc => by rw [hc.exiting]
  | mayKilled p =>
    rw [step]
    split
    · exact doExit_calm.mono hcalm
    · rfl
  | killGroup p code => exact killGroup_frame.mono fun s' hs' => (hs'.2.2 q halone).1
  | kill p pid code =>
    rw [step]
    cases hfind : s.findProc pid with
    | none =>
      unfold doKill
      rw [hfind]
      rfl
    | some r =>
      refine (doKill_told hfind).mono fun s' hc => ?_
      have hqr : q ≠ r := by
        rintro rfl
        exact hspare p pid code rfl hfind
      rw [hc.exiting, (told_other hqr).1]
  | wait p pid => exact doWait_frame.mono fun s' hs' => by rw [hs'.1]
  | resume p =>
    rw [step]
    cases s.waitPid p with
    | none => rfl
    | some pid =>
      dsimp only [resume]
      split
      · exact doExit_calm.mono hcalm
      · exact doWait_frame.mono fun s' hs' => by rw [hs'.1]
  | exec p => rfl
  | sleep p w => rfl
  | wakeup r => exact (wakeupProc_calm.mono_error fun _ _ => trivial).mono hcalm

lemma Allowed.actor_mem (ha : s.Allowed e) (hp : e.actor = some p) : p ∈ s.procList := by
  cases e with
  | fork => exact some.inj hp ▸ ha.1.1
  | resume => exact some.inj hp ▸ ha.1
  | sleep => exact some.inj hp ▸ ha.1.1
  | wakeup => cases hp
  | _ => exact some.inj hp ▸ ha.1

lemma step_asleep (h : s.Good) (ha : s.Allowed e) (he : e.actor ≠ none → e.isSleep = true) :
    Safe (fun _ => True) (s.step e) fun s' => s'.procList = s.procList := by
  cases e with
  | sleep p w => rfl
  | wakeup q =>
    obtain ⟨s', hs', hr, -⟩ := wakeupProc_ok ha.2 (h.shape.cpu q ha.1)
    exact Safe.of_exists ⟨s', hs', by rw [hr.eq]⟩
  | _ => cases he (some_ne_none _)

lemma step_stops (h : s.Good) (ha : s.Allowed e) (hx : s.step e = .error .initExit) : e.actor = some s.initproc := by
  have hexit : ∀ (p : Nat) (x : Procs), p ∈ s.procList → x.doExit p = .error .initExit → x.lcpuCount = s.lcpuCount →
      some p = some s.initproc := by
    intro p x hp hx hcpu
    by_contra hne
    have hguard : ¬ (p < x.lcpuCount ∨ p = x.initproc) := by
      rintro (hlt | rfl)
      · exact absurd (h.shape.above p hp) (Nat.not_le.mpr (hcpu ▸ hlt))
      · exact hne (congrArg some hcpu)
    have hsafe := doExit_stops hguard
    rw [hx] at hsafe
    exact hsafe rfl
  have hok : ∀ {x : Except Panic Procs} {Q : Procs → Prop}, (∃ s', x = .ok s' ∧ Q s') →
    x = .error .initExit → e.actor = some s.initproc := by
    rintro _ Q ⟨s', rfl, -⟩ heq
    cases heq
  cases e with
  | fork p a thread =>
    have hsafe : Safe (· = .assertion) (s.fork p a thread) _ := fork_safe h ha.1.2.1
    change s.fork p a thread = _ at hx
    rw [hx] at hsafe
    cases hsafe
  | exit p code => exact hexit p _ ha.1 hx rfl
  | mayKilled p =>
    rw [step] at hx
    split at hx
    · exact hexit p _ ha.1 hx rfl
    · cases hx
  | killGroup p code => exact hok (killRing_ok h p code) hx
  | kill p pid code => exact hok (doKill_ok h.wakeable pid code) hx
  | wait p pid => exact hok (h.doWait ha.1 ha.2.1 pid) hx
  | resume p =>
    rw [step] at hx
    cases hpid : s.waitPid p with
    | none =>
      rw [hpid] at hx
      cases hx
    | some pid =>
      rw [hpid] at hx
      dsimp only [resume] at hx
      split at hx
      · exact hexit p _ ha.1 hx rfl
      · exact hok (h.doWait ha.1 ha.2 pid) hx
  | exec p => cases hx
  | sleep p w => cases hx
  | wakeup q => exact hok (wakeupProc_ok ha.2 (h.shape.cpu q ha.1)) hx

lemma scanKids_haskid {o : Option Nat} {b : Bool} {r : Bool × Option Nat} (hs : s.scanKids n o b = .ok r)
    (hb : b = true ∨ o ≠ none) : r.1 = true := by
  induction n generalizing o b with
  | zero => cases hs
  | succ n ih =>
    cases o with
    | none =>
      cases hs
      exact hb.resolve_right fun hne => hne rfl
    | some q => grind [scanKids.eq_3]

lemma Good.doWait_parent (h : s.Good) (hrun : s.state p = .runnable) (halone : s.nextThread p = p)
    (hq : q ∈ s.procList) (hpar : s.parent q = some p) :
    ∃ s', s.doWait p 0 = .ok s' ∧
      (s'.state p = .sleeping ∧ s'.waitPid p = some 0 ∨ s'.state p = .runnable ∧ ∃ k, s'.freed = s.freed ++ [k]) := by
  obtain ⟨kids, hfam⟩ := h.family
  obtain ⟨⟨haskid, found⟩, hscan, hsome, -⟩ := scan_ok hfam h.shape p 0
  have hchild : s.cptr p ≠ none := by
    intro hnone
    have hmem := (hfam.mem p q).mpr ⟨hq, hpar⟩
    rw [hfam.head p, List.head?_eq_none_iff] at hnone
    rw [hnone] at hmem
    cases hmem
  have hhas : haskid = true := by
    change s.scanRing p (s.procList.length + 1 + 1) p false = _ at hscan
    rw [scanRing] at hscan
    cases hkids : s.scanKids s.rounds (s.cptr p) false with
    | error x =>
      rw [hkids] at hscan
      cases hscan
    | ok r =>
      rw [hkids] at hscan
      change (if r.2.isSome ∨ s.nextThread p = p then Except.ok r else _) = _ at hscan
      rw [if_pos (.inr halone)] at hscan
      cases hscan
      exact scanKids_haskid hkids (.inr hchild)
  subst hhas
  unfold Procs.doWait
  rw [hscan]
  cases found with
  | none => exact ⟨_, rfl, .inl ⟨update_self .., update_self ..⟩⟩
  | some z =>
    have hacc := hsome z rfl
    obtain ⟨s', hs', -, hfreed⟩ := (h.returned hrun none).reap hacc.1 hacc.2.1
    refine ⟨s', hs', .inr ⟨?_, _, hfreed.freed⟩⟩
    unfold Procs.reap at hs'
    split at hs'
    · cases hs'
    split at hs'
    · cases hs'
    · cases hs'
      exact hrun

end Procs

namespace System

variable {m m' : System} {s : Procs} {e : ProcEvent} {a k n : Nat}

structure Helper (s : Procs) (k : Nat) : Prop where
  mem : k ∈ s.procList
  ne : k ≠ s.initproc
  alive : s.state k ≠ .zombie
  parent : s.parent k = some s.initproc

structure Ok (m : System) : Prop where
  good : m.procs.Good
  spared : m.procs.exiting m.init = false
  start : m.pc = .forkKswapd → m.kswapd = none
  helper : m.pc ≠ .forkKswapd → m.nrProcessStore = m.procs.lcpuCount + 2 ∧ ∃ k, m.kswapd = some k ∧ Helper m.procs k
  waiting : m.pc = .waiting → m.procs.waitPid m.init = some 0
  empty : m.pc = .forkKswapd ∨ m.pc = .quit → ∀ q, ¬ m.UserProcess q

lemma Ok.init_mem (h : m.Ok) : m.init ∈ m.procs.procList := h.good.shape.init.1

lemma Helper.step (h : Helper s k) (hgood : s.Good) (ha : s.Allowed e) (hne : e.actor ≠ some k)
    (hs : s.step e = .ok s') :
    Helper s' k ∧ s'.lcpuCount = s.lcpuCount := by
  obtain ⟨hgood', hpass⟩ := (Procs.step_ok hgood ha).of_eq hs
  have hkept := (Procs.step_kept hgood ha h.mem hne).of_eq hs
  have hinit : s'.initproc = s.initproc := hkept.cpus
  refine ⟨⟨?_, hinit ▸ h.ne, hkept.alive h.alive, ?_⟩, hkept.cpus⟩
  · rcases hpass k h.mem with ⟨hmem, -⟩ | ⟨p, pid, -, hacc, -⟩
    · exact hmem
    · exact absurd hacc.2.1 h.alive
  · rw [hinit]
    exact hkept.parent _ h.parent (hinit ▸ hgood'.shape.init.2.1)

lemma sleeps_of_empty (ha : m.Allowed (.other e)) (hnone : ∀ q, ¬ m.UserProcess q) :
    e.actor ≠ none → e.isSleep = true := by
  obtain ⟨hproc, hinit, hkswapd⟩ := ha
  intro hact
  obtain ⟨p, hp⟩ := Option.ne_none_iff_exists'.mp hact
  refine hkswapd hact ?_
  by_contra hne
  rw [hp] at hne hinit
  exact hnone p ⟨hproc.actor_mem hp, fun heq => hinit (congrArg some heq), hne⟩

lemma Ok.other (h : m.Ok) (ha : m.Allowed (.other e)) (hsp : m.Spares (.other e)) (hs : m.procs.step e = .ok s) :
    ({ m with procs := s } : System).Ok := by
  obtain ⟨hgood, -⟩ := (Procs.step_ok h.good ha.1).of_eq hs
  have hkept := (Procs.step_kept h.good ha.1 h.init_mem ha.2.1).of_eq hs
  have hinit : s.initproc = m.procs.initproc := hkept.cpus
  have hspared : s.exiting m.init = m.procs.exiting m.init := by
    refine (Procs.step_spared h.good ha.1 h.init_mem h.good.shape.init.2.2 ?_).of_eq hs
    rintro p pid code rfl
    exact hsp
  refine ⟨hgood, ?_, h.start, fun hpc => ?_, fun hpc => ?_, fun hpc q hq => ?_⟩
  · change s.exiting s.initproc = false
    rw [hinit]
    exact hspared.trans h.spared
  · obtain ⟨hstore, k, hk, hhelper⟩ := h.helper hpc
    by_cases hact : e.actor = some k
    · -- `kswapd` goes to sleep.
      have hsleep := ha.2.2 (hact ▸ some_ne_none k) (hact.trans hk.symm)
      cases e with
      | sleep p w =>
        cases hs
        refine ⟨hstore, k, hk, hhelper.mem, hhelper.ne, ?_, hhelper.parent⟩
        change update m.procs.state p .sleeping k ≠ .zombie
        rw [some.inj hact, update_self]
        decide
      | _ => cases hsleep
    · obtain ⟨hhelper', hcpu⟩ := hhelper.step h.good ha.1 hact hs
      exact ⟨hcpu ▸ hstore, k, hk, hhelper'⟩
  · change s.waitPid s.initproc = some 0
    rw [hinit]
    exact hkept.waitPid.trans (h.waiting hpc)
  · have hnone := h.empty hpc
    have hlist := (Procs.step_asleep h.good ha.1 (sleeps_of_empty ha hnone)).of_eq hs
    exact hnone q ⟨hlist ▸ hq.1, fun heq => hq.2.1 (heq.trans hinit.symm), hq.2.2⟩

lemma eq_or_eq_of_length_two {l : List Nat} {x y q : Nat} (hl : l.length = 2) (hx : x ∈ l)
    (hy : y ∈ l) (hne : x ≠ y) (hq : q ∈ l) :
    q = x ∨ q = y := by
  grind [List.length_eq_two]

lemma Ok.waits (h : m.Ok) (hpc : m.pc = .loop ∨ m.pc = .waiting) (hrun : m.procs.state m.init = .runnable)
    (ha : m.procs.Allowed (m.initEvent a)) (hs : m.procs.step (m.initEvent a) = .ok s)
    (hwait : m.procs.doWait m.init 0 = .ok s) :
    ({ m with procs := s, pc := m.afterWait s } : System).Ok := by
  have hpc' : m.pc ≠ .forkKswapd := by
    rcases hpc with hpc | hpc
    all_goals rw [hpc]; decide
  have hactor : (m.initEvent a).actor = some m.init := by
    unfold initEvent
    rcases hpc with hpc | hpc
    all_goals rw [hpc]; rfl
  have hnokill : ∀ p pid code, m.initEvent a = .kill p pid code → m.procs.findProc pid ≠ some m.init := by
    intro p pid code heq
    unfold initEvent at heq
    rcases hpc with hpc | hpc
    all_goals rw [hpc] at heq; cases heq
  obtain ⟨hgood, -⟩ := (Procs.step_ok h.good ha).of_eq hs
  obtain ⟨hstore, k, hk, hhelper⟩ := h.helper hpc'
  have hne : (m.initEvent a).actor ≠ some k := by
    rw [hactor]
    exact fun heq => hhelper.ne (some.inj heq).symm
  obtain ⟨hhelper', hcpu⟩ := hhelper.step h.good ha hne hs
  have hinit : s.initproc = m.init := hcpu
  have hspared := (Procs.step_spared h.good ha h.init_mem h.good.shape.init.2.2 hnokill).of_eq hs
  obtain ⟨s', hs', hcases⟩ := h.good.doWait_parent hrun h.good.shape.init.2.2 hhelper.mem hhelper.parent
  obtain rfl : s' = s := Except.ok.inj (hs'.symm.trans hwait)
  have hafter : m.afterWait s' ≠ .forkKswapd ∧ (m.afterWait s' = .waiting → s'.waitPid m.init = some 0) ∧
      (m.afterWait s' = .quit → m.nrProcessStore = s'.nrProcess) := by
    unfold afterWait
    rcases hcases with ⟨hsleep, hwp⟩ | ⟨hstate, z, hfreed⟩
    · grind
    · rw [if_neg (by rw [hstate]; decide), if_neg (by rw [hfreed]; simp)]
      grind
  refine ⟨hgood, ?_, fun hpc => absurd hpc hafter.1, fun _ => ⟨hcpu ▸ hstore, k, hk, hhelper'⟩,
    fun hpc => ?_, fun hpc q hq => ?_⟩
  · change s'.exiting s'.initproc = false
    rw [hinit]
    exact hspared.trans h.spared
  · change s'.waitPid s'.initproc = some 0
    rw [hinit]
    exact hafter.2.1 hpc
  · have hnr := hafter.2.2 (hpc.resolve_left hafter.1)
    obtain ⟨hmem, hqi, hqk⟩ := hq
    have hlen : s'.procList.length = 2 := by
      rw [hstore, Procs.nrProcess, hcpu] at hnr
      exact (Nat.add_left_cancel hnr).symm
    rcases eq_or_eq_of_length_two hlen hhelper'.mem hgood.shape.init.1 hhelper'.ne hmem with rfl | heq
    · exact hqk hk.symm
    · exact hqi heq

lemma Ok.forks (h : m.Ok) (ha : m.procs.Allowed (.fork m.init a false))
    (hs : m.procs.step (.fork m.init a false) = .ok s)
    (hborn : s.born ≠ m.procs.born) :
    s.Good ∧ s.exiting s.initproc = false ∧ s.lcpuCount = m.procs.lcpuCount ∧
    s.procList = a :: m.procs.procList ∧ Helper s a := by
  have hgood := ((Procs.step_ok h.good ha).of_eq hs).1
  obtain ⟨⟨hinit, hrun, -⟩, hnew, -⟩ := ha
  have hna : m.init ≠ a := fun heq => hnew (heq ▸ hinit)
  have hfork := (Procs.fork_safe h.good hrun).of_eq hs
  rcases hfork with rfl | ⟨c, rfl, -⟩
  · exact absurd rfl hborn
  refine ⟨hgood, (update_of_ne hna ..).trans h.spared, rfl, rfl, ⟨.head _, hna.symm, ?_, update_self ..⟩⟩
  change update m.procs.state a .runnable a ≠ .zombie
  rw [update_self]
  decide

lemma Ok.alone (h : m.Ok) (hpc : m.pc = .forkKswapd) : m.procs.procList = [m.init] := by
  have hall : ∀ q ∈ m.procs.procList, q = m.init := by
    intro q hq
    by_contra hne
    refine h.empty (.inl hpc) q ⟨hq, hne, ?_⟩
    rw [h.start hpc]
    exact some_ne_none q
  have hlen := List.eq_replicate_of_mem hall
  have hone : m.procs.procList.length = 1 := by
    have hnodup := h.good.shape.list
    have hpos := List.length_pos_of_mem h.init_mem
    rw [hlen, List.nodup_replicate] at hnodup
    exact Nat.le_antisymm hnodup hpos
  rw [hlen, hone]
  rfl

lemma Ok.step {e : SysEvent} (h : m.Ok) (ha : m.Allowed e) (hsp : m.Spares e) (hs : m.step e = .ok m') : m'.Ok := by
  cases e with
  | other e =>
    change m.procs.step e >>= _ = _ at hs
    cases hs1 : m.procs.step e with
    | error x =>
      rw [hs1] at hs
      cases hs
    | ok s =>
      rw [hs1] at hs
      cases hs
      exact h.other ha hsp hs1
  | init a =>
    change m.procs.step (m.initEvent a) >>= m.initNext a = _ at hs
    cases hs1 : m.procs.step (m.initEvent a) with
    | error x =>
      rw [hs1] at hs
      cases hs
    | ok s =>
      rw [hs1] at hs
      change m.initNext a s = .ok m' at hs
      change m.procs.Allowed (m.initEvent a) at ha
      unfold initNext at hs
      cases hpc : m.pc with
      | forkKswapd =>
        have hevent : m.initEvent a = .fork m.init a false := by rw [initEvent, hpc]
        rw [hevent] at ha hs1
        rw [hpc] at hs
        dsimp only at hs
        split at hs
        · cases hs
        rename_i hborn
        cases hs
        obtain ⟨hgood, hspared, hcpu, hlist, hhelper⟩ := h.forks ha hs1 hborn
        refine ⟨hgood, hspared, (fun hq => by cases hq), fun _ => ⟨?_, a, rfl, hhelper⟩, (fun hq => by cases hq), ?_⟩
        · change s.nrProcess = s.lcpuCount + 2
          rw [Procs.nrProcess, hlist, h.alone hpc]
          rfl
        · rintro (hq | hq)
          all_goals cases hq
      | forkUser =>
        have hevent : m.initEvent a = .fork m.init a false := by rw [initEvent, hpc]
        rw [hevent] at ha hs1
        rw [hpc] at hs
        dsimp only at hs
        split at hs
        · cases hs
        rename_i hborn
        cases hs
        obtain ⟨hgood, hspared, hcpu, hlist, -⟩ := h.forks ha hs1 hborn
        obtain ⟨hstore, k, hk, hhelper⟩ := h.helper (by rw [hpc]; decide)
        have hne : (ProcEvent.fork m.init a false).actor ≠ some k := fun heq => hhelper.ne (some.inj heq).symm
        refine ⟨hgood, hspared, (fun hq => by cases hq), fun _ => ⟨hcpu ▸ hstore, k, hk, ?_⟩,
          (fun hq => by cases hq), ?_⟩
        · exact (hhelper.step h.good ha hne hs1).1
        · rintro (hq | hq)
          all_goals cases hq
      | loop =>
        have hevent : m.initEvent a = .wait m.init 0 := by rw [initEvent, hpc]
        have hwait : m.procs.doWait m.init 0 = .ok s := by
          rw [hevent] at hs1
          exact hs1
        have hrun : m.procs.state m.init = .runnable := by
          rw [hevent] at ha
          exact ha.2.1
        grind [h.waits]
      | waiting =>
        have hevent : m.initEvent a = .resume m.init := by rw [initEvent, hpc]
        have hwait : m.procs.doWait m.init 0 = .ok s := by
          rw [hevent, Procs.step, h.waiting hpc] at hs1
          change m.procs.resume m.init 0 = _ at hs1
          rwa [Procs.resume, h.spared, if_neg Bool.false_ne_true] at hs1
        have hrun : m.procs.state m.init = .runnable := by
          rw [hevent] at ha
          exact ha.2
        grind [h.waits]
      | quit =>
        have hevent : m.initEvent a = .exit m.init 0 := by rw [initEvent, hpc]
        rw [hevent] at hs1
        change Procs.doExit m.init _ = _ at hs1
        unfold Procs.doExit at hs1
        rw [if_pos (.inr rfl)] at hs1
        cases hs1

lemma boot_ok (h0 : 0 < n) (hn : n < maxProcess) : (boot n).Ok := by
  refine ⟨Procs.boot_good h0 hn, rfl, fun _ => rfl, absurd rfl, (fun hpc => by cases hpc), fun _ q hq => ?_⟩
  exact hq.2.1 (List.mem_singleton.mp hq.1)

lemma Reached.ok (h : Reached n m) : m.Ok := by
  refine h.invariant (P := Ok) ?_ ?_
  · rintro _ ⟨h0, hn, rfl⟩
    exact boot_ok h0 hn
  · exact fun m e m' hok hg => hok.step hg.1 hg.2

/-- As long as nobody kills `init`, it comes to `__do_exit` only when no user
process is left. -/
theorem init_survives (h : Reached n m) {e : SysEvent} (ha : m.Allowed e) (hsp : m.Spares e)
    (hx : m.step e = .error .initExit) :
    ∀ q, ¬ m.UserProcess q := by
  have hok := h.ok
  cases e with
  | other e =>
    -- Only a call of `init` itself stops there.
    have hstop : m.procs.step e = .error .initExit := by
      change m.procs.step e >>= _ = _ at hx
      cases hs : m.procs.step e with
      | ok s => rw [hs] at hx; cases hx
      | error x => rw [hs] at hx; exact congrArg _ (Except.error.inj hx)
    exact absurd (Procs.step_stops hok.good ha.1 hstop) ha.2.1
  | init a =>
    change m.procs.Allowed (m.initEvent a) at ha
    change m.procs.step (m.initEvent a) >>= m.initNext a = _ at hx
    by_contra huser
    have hstop : m.procs.step (m.initEvent a) ≠ .error .initExit := by
      unfold initEvent at ha ⊢
      intro hs
      cases hpc : m.pc with
      | quit => exact huser (hok.empty (.inr hpc))
      | waiting =>
        rw [hpc] at ha hs
        rw [Procs.step, hok.waiting hpc] at hs
        change m.procs.resume m.init 0 = _ at hs
        rw [Procs.resume, hok.spared, if_neg Bool.false_ne_true] at hs
        obtain ⟨s', hs', -⟩ := hok.good.doWait ha.1 ha.2 0
        rw [hs'] at hs
        cases hs
      | loop =>
        rw [hpc] at ha hs
        obtain ⟨s', hs', -⟩ := hok.good.doWait ha.1 ha.2.1 0
        cases hs'.symm.trans hs
      | _ =>
        rw [hpc] at ha hs
        have hsafe : Safe (· = .assertion) (m.procs.step (.fork m.init a false)) _ := Procs.fork_safe hok.good ha.1.2.1
        rw [hs] at hsafe
        cases hsafe
    cases hs : m.procs.step (m.initEvent a) with
    | error x =>
      rw [hs] at hx hstop
      exact hstop (congrArg _ (Except.error.inj hx))
    | ok s =>
      rw [hs] at hx
      change m.initNext a s = _ at hx
      grind [initNext]

instance (m : System) (e : SysEvent) : Decidable (m.Allowed e) := by
  unfold Allowed
  split <;> infer_instance

instance (m : System) (e : SysEvent) : Decidable (m.Spares e) := by
  unfold Spares
  split <;> infer_instance

theorem init_survives_alone :
    ∃ m, Reached 1 m ∧ (m.Allowed (.init 0) ∧ m.step (.init 0) = .error .initExit) ∧ ∀ q, ¬ m.UserProcess q := by
  obtain ⟨m, hm, hp⟩ : ∃ m, Reached 1 m ∧ m.Allowed (.init 0) ∧ m.step (.init 0) = .error .initExit :=
    Reachable.exists_of_run [.init 2, .init 3, .other (.exit 3 0), .init 0]
      ⟨by decide, by decide, rfl⟩ (by decide +kernel)
  obtain ⟨ha, hstop⟩ := hp
  have hx := hstop
  exact ⟨m, hm, ⟨ha, hx⟩, init_survives hm ha trivial hx⟩

/-- The first user process kills `init`, which waits for it. -/
theorem init_killed :
    ∃ m, Reachable step Allowed (· = boot 1) m ∧ m.UserProcess 3 ∧ m.Allowed (.init 0) ∧
    m.step (.init 0) = .error .initExit := by
  obtain ⟨m, hm, hp⟩ : ∃ m, Reachable step Allowed (· = boot 1) m ∧
      (3 ∈ m.procs.procList ∧ 3 ≠ m.init ∧ some 3 ≠ m.kswapd) ∧ m.Allowed (.init 0) ∧
        m.step (.init 0) = .error .initExit :=
    Reachable.exists_of_run [.init 2, .init 3, .init 0, .other (.kill 3 1 (-9))] rfl (by decide +kernel)
  obtain ⟨huser, ha, hstop⟩ := hp
  exact ⟨m, hm, huser, ha, hstop⟩

end System

end Ucore.Process
