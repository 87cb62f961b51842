import Ucore.Process.ProcRun

/-!
# Who is told to exit, and with which code

`exit_code` is written by a process that exits and by `__do_kill`, which looks at
`PF_EXITING` alone.
-/

namespace Ucore.Process.Procs

open Ucore.Lib Function

variable {s s' t : Procs} {p q z n : Nat} {code : Int} {e : ProcEvent}

structure Calm (s s' : Procs) : Prop where
  exiting : s'.exiting = s.exiting
  exitCode : s'.exitCode = s.exitCode
  dead : ∀ z, s.state z = .zombie → s'.state z = .zombie
  freed : s.freed ⊆ s'.freed

lemma Calm.refl : Calm s s := ⟨rfl, rfl, fun _ => id, List.Subset.refl _⟩

lemma Calm.trans (h : Calm s t) (h' : Calm t s') : Calm s s' :=
  ⟨h'.exiting.trans h.exiting, h'.exitCode.trans h.exitCode, fun z hz => h'.dead z (h.dead z hz),
    List.Subset.trans h.freed h'.freed⟩

lemma wakeupProc_calm : Safe (· ≠ .initExit) (s.wakeupProc p) (Calm s) := by
  unfold wakeupProc
  split
  · exact (by decide : Panic.assertion ≠ .initExit)
  rename_i halive
  split
  · split
    · refine ⟨rfl, rfl, fun z hz => ?_, List.Subset.refl _⟩
      grind
    · exact (by decide : Panic.assertion ≠ .initExit)
  · exact .refl

lemma wakeWaiter_calm : Safe (· ≠ .initExit) (s.wakeWaiter p) (Calm s) := by
  unfold wakeWaiter
  split
  · exact wakeupProc_calm
  · exact .refl

lemma wakeRing_calm {start : Nat} : Safe (· ≠ .initExit) (s.wakeRing n start q) (Calm s) := by
  induction n generalizing s q with
  | zero => exact (by decide : Panic.hang ≠ .initExit)
  | succ n ih =>
    refine wakeWaiter_calm.bind fun t ht => ?_
    split
    · exact ht
    · exact ih.mono fun _ => ht.trans

lemma adopt_calm {heir : Nat} : Safe (· ≠ .initExit) (s.adopt n p heir) (Calm s) := by
  induction n generalizing s with
  | zero => exact (by decide : Panic.hang ≠ .initExit)
  | succ n ih =>
    rw [adopt]
    cases s.cptr p with
    | none => exact .refl
    | some q =>
      have hover : Calm s (s.handOver p heir q) := ⟨rfl, rfl, fun _ => id, List.Subset.refl _⟩
      dsimp only
      split
      · exact wakeWaiter_calm.bind fun t ht => ih.mono fun _ h => hover.trans (ht.trans h)
      · exact ih.mono fun _ => hover.trans

lemma doExit_stops (hp : ¬ (p < s.lcpuCount ∨ p = s.initproc)) : Safe (· ≠ .initExit) (s.doExit p) (Calm s) := by
  unfold doExit
  rw [if_neg hp]
  cases s.parent p with
  | none => exact (by decide : Panic.dangling ≠ .initExit)
  | some par =>
    have hdead : Calm s { s with state := update s.state p .zombie, waitPid := update s.waitPid p none } := by
      refine ⟨rfl, rfl, fun z hz => ?_, List.Subset.refl _⟩
      by_cases hzp : z = p
      · subst hzp
        exact update_self ..
      · exact (update_of_ne hzp ..).trans hz
    refine wakeRing_calm.bind fun t ht => ?_
    refine adopt_calm.mono fun s' h => hdead.trans (ht.trans ?_)
    exact ⟨h.exiting, h.exitCode, h.dead, h.freed⟩

lemma doExit_calm : Safe (fun _ => True) (s.doExit p) (Calm s) := by
  by_cases hp : p < s.lcpuCount ∨ p = s.initproc
  · unfold doExit
    rw [if_pos hp]
    trivial
  · exact (doExit_stops hp).mono_error fun _ _ => trivial

lemma doWait_frame {pid : Nat} : Safe (fun _ => True) (s.doWait p pid) fun s' =>
    s'.exiting = s.exiting ∧ s'.exitCode = s.exitCode ∧ s'.parent = s.parent ∧ s'.lcpuCount = s.lcpuCount ∧
      s.freed ⊆ s'.freed ∧ ∀ q, q ≠ p → s'.state q = s.state q ∧ s'.waitPid q = s.waitPid q := by
  unfold doWait
  cases s.scan p pid with
  | error x => trivial
  | ok r =>
    obtain ⟨haskid, found⟩ := r
    cases found with
    | some z =>
      change Safe _ (({ s with waitPid := update s.waitPid p none } : Procs).reap z) _
      unfold reap
      split
      · trivial
      split
      · trivial
      · exact ⟨rfl, rfl, rfl, rfl, List.subset_append_left .., fun q hq => ⟨rfl, update_of_ne hq ..⟩⟩
    | none =>
      cases haskid with
      | true => exact ⟨rfl, rfl, rfl, rfl, List.Subset.refl _, fun q hq => ⟨update_of_ne hq .., update_of_ne hq ..⟩⟩
      | false => exact ⟨rfl, rfl, rfl, rfl, List.Subset.refl _, fun q hq => ⟨rfl, update_of_ne hq ..⟩⟩

lemma doWait_calm {pid : Nat} (hp : s.state p ≠ .zombie) : Safe (fun _ => True) (s.doWait p pid) (Calm s) := by
  refine doWait_frame.mono ?_
  rintro s' ⟨hexit, hcode, -, -, hfreed, hstate⟩
  refine ⟨hexit, hcode, fun z hz => ?_, hfreed⟩
  grind

def told (q : Nat) (code : Int) (s : Procs) : Procs :=
  if s.exiting q then s else { s with exiting := update s.exiting q true, exitCode := update s.exitCode q code }

lemma told_other (hz : z ≠ q) : (s.told q code).exiting z = s.exiting z ∧ (s.told q code).exitCode z = s.exitCode z := by
  unfold told
  split
  · exact ⟨rfl, rfl⟩
  · exact ⟨update_of_ne hz .., update_of_ne hz ..⟩

lemma told_exitCode : (s.told q code).exitCode q = if s.exiting q = true then s.exitCode q else code := by
  unfold told
  split
  · rfl
  · exact update_self ..

lemma told_frame :
    (s.told q code).state = s.state ∧ (s.told q code).nextThread = s.nextThread ∧ (s.told q code).freed = s.freed := by
  grind [told]

lemma killProc_told : Safe (fun _ => True) (s.killProc q code) fun s' => Calm (s.told q code) s' ∧
    s'.nextThread = s.nextThread := by
  unfold killProc
  by_cases hexit : s.exiting q = true
  · rw [if_pos hexit]
    have htold : s.told q code = s := if_pos hexit
    exact ⟨htold.symm ▸ .refl, rfl⟩
  rw [if_neg hexit]
  have htold :
    s.told q code = { s with exiting := update s.exiting q true, exitCode := update s.exitCode q code } := if_neg hexit
  grind [wakeupProc_calm, Calm.refl, wakeupProc, Safe]

lemma doKill_told {pid : Nat} (hfind : s.findProc pid = some q) :
    Safe (fun _ => True) (s.doKill pid code) (Calm (s.told q code)) := by
  unfold doKill
  rw [hfind]
  exact killProc_told.mono fun _ h => h.1

lemma killRing_frame {start : Nat} (hq : q = start ∨ s.nextThread q ≠ q) :
    Safe (fun _ => True) (s.killRing code n start q) fun s' =>
      (∀ z, s.state z = .zombie → s'.state z = .zombie) ∧ s.freed ⊆ s'.freed ∧
        ∀ r, s.nextThread r = r → s'.exiting r = s.exiting r ∧ s'.exitCode r = s.exitCode r := by
  induction n generalizing s q with
  | zero => trivial
  | succ n ih =>
    rw [killRing]
    split
    · exact ⟨fun _ => id, List.Subset.refl _, fun _ _ => ⟨rfl, rfl⟩⟩
    rename_i hstart
    have hmoved := hq.resolve_left hstart
    refine killProc_told.bind ?_
    rintro t ⟨hcalm, hnext⟩
    have hq' : t.nextThread q = start ∨ t.nextThread (t.nextThread q) ≠ t.nextThread q := by
      rw [hnext]
      exact .inr fun heq => hmoved (s.nextThread.injective heq)
    refine (ih hq').mono ?_
    rintro s' ⟨hdead, hfreed, hsame⟩
    have hfreed' : s.freed ⊆ t.freed := told_frame.2.2 ▸ hcalm.freed
    refine ⟨fun z hz => hdead z (hcalm.dead z (told_frame.1.symm ▸ hz)),
      List.Subset.trans hfreed' hfreed, fun r hr => ?_⟩
    have hrq : r ≠ q := by
      rintro rfl
      exact hmoved hr
    obtain ⟨h1, h2⟩ := hsame r (hnext ▸ hr)
    have hother : (s.told q code).exiting r = s.exiting r ∧ (s.told q code).exitCode r = s.exitCode r := told_other hrq
    grind [hcalm.exiting, hcalm.exitCode]

lemma killGroup_frame : Safe (fun _ => True) (s.killRing code n p (s.nextThread p)) fun s' =>
    (∀ z, s.state z = .zombie → s'.state z = .zombie) ∧ s.freed ⊆ s'.freed ∧
    ∀ r, s.nextThread r = r → s'.exiting r = s.exiting r ∧ s'.exitCode r = s.exitCode r := by
  refine killRing_frame ?_
  by_cases hp : s.nextThread p = p
  · exact .inl hp
  · exact .inr fun heq => hp (s.nextThread.injective heq)

def newCode (s : Procs) (z : Nat) : ProcEvent → Int
  | .kill _ pid code => if s.findProc pid = some z ∧ s.exiting z = false then code else s.exitCode z
  | _ => s.exitCode z

lemma step_dead (h : s.Good) (ha : s.Allowed e) : Safe (fun _ => True) (s.step e) fun s' =>
    s.freed ⊆ s'.freed ∧ ∀ z ∈ s.procList, s.state z = .zombie → s'.state z = .zombie ∧
    s'.exitCode z = s.newCode z e := by
  have hrunning : ∀ p z, s.state p = .runnable → s.state z = .zombie → z ≠ p := by
    rintro p _ hp hz rfl
    rw [hp] at hz
    cases hz
  have hcalm : ∀ s', Calm s s' →
      s.freed ⊆ s'.freed ∧ ∀ z ∈ s.procList, s.state z = .zombie → s'.state z = .zombie ∧ s'.exitCode z = s.exitCode z :=
    fun s' hc => ⟨hc.freed, fun z _ hz => ⟨hc.dead z hz, by rw [hc.exitCode]⟩⟩
  cases e with
  | fork p a thread =>
    obtain ⟨⟨-, hrun, -⟩, hnew, -⟩ := ha
    refine ((fork_safe h hrun).mono_error fun _ _ => trivial).mono ?_
    rintro s' (rfl | ⟨c, rfl, -⟩)
    · exact hcalm _ .refl
    · refine ⟨List.Subset.refl _, fun z hz hzombie => ?_⟩
      have hza : z ≠ a := fun heq => hnew (heq ▸ hz)
      exact ⟨(update_of_ne hza ..).trans hzombie, rfl⟩
  | exit p code =>
    refine doExit_calm.mono fun s' hc => ⟨hc.freed, fun z _ hz => ⟨hc.dead z hz, ?_⟩⟩
    rw [hc.exitCode]
    exact update_of_ne (hrunning p z ha.2.1 hz) ..
  | mayKilled p =>
    rw [step]
    split
    · exact doExit_calm.mono hcalm
    · exact hcalm s .refl
  | killGroup p code =>
    refine killGroup_frame.mono ?_
    rintro s' ⟨hdead, hfreed, hsame⟩
    refine ⟨hfreed, fun z hz hzombie => ?_⟩
    have halone : s.nextThread z = z := by
      by_contra hne
      exact (h.shape.ring z hne).2 hzombie
    exact ⟨hdead z hzombie, (hsame z halone).2⟩
  | kill p pid code =>
    rw [step]
    cases hfind : s.findProc pid with
    | none =>
      unfold doKill
      rw [hfind]
      exact ⟨List.Subset.refl _, fun z _ hz => ⟨hz, by simp [newCode, hfind]⟩⟩
    | some q =>
      refine (doKill_told hfind).mono fun s' hc => ⟨told_frame.2.2 ▸ hc.freed, fun z _ hz => ?_⟩
      refine ⟨hc.dead z (told_frame.1.symm ▸ hz), ?_⟩
      rw [hc.exitCode]
      by_cases hzq : z = q
      · subst hzq
        rw [told_exitCode]
        by_cases hexit : s.exiting z = true
        · simp [newCode, hexit]
        · simp [newCode, hexit, hfind]
      · rw [(told_other hzq).2]
        simp [newCode, hfind, Ne.symm hzq]
  | wait p pid =>
    refine (doWait_calm ?_).mono hcalm
    rw [ha.2.1]
    decide
  | resume p =>
    rw [step]
    cases s.waitPid p with
    | none => exact hcalm s .refl
    | some pid =>
      dsimp only [resume]
      split
      · exact doExit_calm.mono hcalm
      refine (doWait_calm ?_).mono hcalm
      rw [ha.2]
      decide
  | exec p => exact hcalm _ ⟨rfl, rfl, fun _ => id, List.Subset.refl _⟩
  | sleep p w =>
    refine ⟨List.Subset.refl _, fun z _ hz => ⟨?_, rfl⟩⟩
    exact (update_of_ne (hrunning p z ha.1.2.1 hz) ..).trans hz
  | wakeup q => exact (wakeupProc_calm.mono_error fun _ _ => trivial).mono hcalm

/-- No zombie that was not told to exit is named by a kill with a code other
than its own. -/
def Final (s : Procs) : ProcEvent → Prop
  | .kill _ pid code => ∀ z, s.findProc pid = some z → s.state z = .zombie → s.exiting z = false → code = s.exitCode z
  | _ => True

lemma Shape.final_iff (h : s.Shape) :
    s.Final e ↔ ∀ z ∈ s.procList, s.state z = .zombie → s.newCode z e = s.exitCode z := by
  constructor
  · intro hf z hz hzombie
    unfold newCode
    split
    · rename_i p pid code
      split
      · rename_i hc
        exact hf z hc.1 hzombie hc.2
      · rfl
    · rfl
  · intro hsame
    unfold Final
    split
    · grind [newCode, h.findProc_iff.mp]
    · trivial

def codeStore (s : Procs) (p pid : Nat) : Option Int :=
  match s.scan p pid with
  | .ok (_, some z) => some (s.exitCode z)
  | _ => none

def Corpse (z k : Nat) (code : Int) (s : Procs) : Prop :=
  k ∈ s.freed ∨ z ∈ s.procList ∧ s.serial z = k ∧ s.state z = .zombie ∧ s.exitCode z = code

lemma Corpse.step {k : Nat} (h : Corpse z k code s) (hgood : s.Good) (ha : s.Allowed e)
    (hf : s.Final e) (hs : s.step e = .ok s') :
    Corpse z k code s' := by
  obtain ⟨hfreed, hdead⟩ := (step_dead hgood ha).of_eq hs
  rcases h with hk | ⟨hz, hserial, hzombie, hcode⟩
  · exact .inl (hfreed hk)
  rcases ((step_ok hgood ha).of_eq hs).2 z hz with ⟨hz', hserial'⟩ | ⟨p, pid, -, -, hgone⟩
  · obtain ⟨hzombie', hcode'⟩ := hdead z hz hzombie
    rw [hgood.shape.final_iff.mp hf z hz hzombie] at hcode'
    exact .inr ⟨hz', hserial'.trans hserial, hzombie', hcode'.trans hcode⟩
  · refine .inl ?_
    grind [hgone.freed]

/-- A step leaves the exit codes of all zombies alone if and only if it is final, and
`do_wait` then stores the code a zombie had. -/
theorem exit_codes_final (h : Reached n s) : (∀ e s', s.Allowed e → s.step e = .ok s' →
    (s.Final e ↔ ∀ z ∈ s.procList, s.state z = .zombie → s'.exitCode z = s.exitCode z)) ∧
    ∀ z ∈ s.procList, s.state z = .zombie → ∀ t, Reachable step (fun s e => s.Allowed e ∧ s.Final e) (· = s) t →
    (s.serial z ∈ t.freed ∨ z ∈ t.procList ∧ t.serial z = s.serial z ∧ t.state z = .zombie ∧
    t.exitCode z = s.exitCode z) ∧
    ∀ p pid b, s.serial z ∉ t.freed → t.scan p pid = .ok (b, some z) → t.codeStore p pid = some (s.exitCode z) := by
  refine ⟨fun e s' ha hs => ?_, fun z hz hzombie t ht => ?_⟩
  · have hdead := ((step_dead h.good ha).of_eq hs).2
    rw [h.good.shape.final_iff]
    refine forall₃_congr fun z hz hzombie => ?_
    rw [(hdead z hz hzombie).2]
  have hrun : t.Good ∧ Corpse z (s.serial z) (s.exitCode z) t := by
    refine ht.invariant (P := fun t => t.Good ∧ Corpse z (s.serial z) (s.exitCode z) t) ?_ ?_
    · rintro _ rfl
      exact ⟨h.good, .inr ⟨hz, rfl, hzombie, rfl⟩⟩
    · rintro t e t' ⟨hgood, hcorpse⟩ ⟨ha, hf⟩ ht'
      exact ⟨((step_ok hgood ha).of_eq ht').1, hcorpse.step hgood ha hf ht'⟩
  refine ⟨hrun.2, fun p pid b hnot hscan => ?_⟩
  obtain ⟨-, -, -, hcode⟩ := hrun.2.resolve_left hnot
  rw [codeStore, hscan, ← hcode]

theorem exit_codes_final_child :
    ∃ s, Reached 1 s ∧ (3 ∈ s.procList ∧ s.state 3 = .zombie ∧ s.exitCode 3 = 7) ∧ s.codeStore 2 0 = some 7 := by
  obtain ⟨s, hs, hz, hnot, hscan⟩ : ∃ s, Reached 1 s ∧ (3 ∈ s.procList ∧ s.state 3 = .zombie ∧ s.exitCode 3 = 7) ∧
      s.serial 3 ∉ s.freed ∧ s.scan 2 0 = .ok (true, some 3) :=
    Reachable.exists_of_run [.fork 1 2 false, .fork 2 3 false, .exit 3 7] ⟨by decide, by decide, rfl⟩ (by decide +kernel)
  refine ⟨s, hs, hz, ?_⟩
  rw [← hz.2.2]
  exact ((exit_codes_final hs).2 3 hz.1 hz.2.1 s (.init rfl)).2 2 0 true hnot hscan

/-- Process 3 has exited with 7. Its parent kills it and then gets another
code from `do_wait`. -/
theorem zombie_killed :
    ∃ s, Reached 1 s ∧ (3 ∈ s.procList ∧ s.state 3 = .zombie ∧ s.exitCode 3 = 7) ∧ s.Allowed (.kill 2 3 (-9)) ∧
    ∃ s', s.step (.kill 2 3 (-9)) = .ok s' ∧ s'.exitCode 3 = -9 ∧ s'.codeStore 2 0 = some (-9) :=
  Reachable.exists_of_run [.fork 1 2 false, .fork 2 3 false, .exit 3 7] ⟨by decide, by decide, rfl⟩ (by decide +kernel)

end Ucore.Process.Procs
