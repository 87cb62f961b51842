import Ucore.Fs.Pipe.Stream

/-!
# Who sleeps at a pipe

Every call that stores bytes wakes the readers and every call that fetches some wakes
the writers, so nobody sleeps who could go on.
-/

namespace Ucore.Fs.Pipe.PipeState

open Ucore.Lib Function

variable {s s' : PipeState} {k j n : Nat} {data : List UInt8} {c : Call} {r : Request}

def Asleep (s : PipeState) (k : Nat) (r : Request) : Prop := s.calls k = some ⟨r, .waiting .asleep⟩

/-- What a call in `pipe_state_wait` waits for has not happened. -/
def Idle (s : PipeState) (r : Request) : Prop := s.isclosed = false ∧ if r.isRead then s.isEmpty else s.isFull

def Justified (s : PipeState) : Prop := ∀ k r, s.Asleep k r → s.Idle r

lemma wakeup_eq (h : c.wakeup = ⟨r, .waiting .asleep⟩) : False := by
  rcases c with ⟨_, _ | ⟨_ | _ | _⟩⟩ <;> simp [Call.wakeup, Sync.Wait.wakeup] at h

lemma asleep_wakeupReader (h : s.wakeupReader.Asleep k r) : r.isRead = false ∧ s.Asleep k r := by
  obtain ⟨c, hc, heq⟩ := Option.map_eq_some_iff.mp h
  split at heq
  · exact (wakeup_eq heq).elim
  · subst heq
    exact ⟨Bool.eq_false_iff.mpr ‹_›, hc⟩

lemma asleep_wakeupWriter (h : s.wakeupWriter.Asleep k r) : r.isRead = true ∧ s.Asleep k r := by
  obtain ⟨c, hc, heq⟩ := Option.map_eq_some_iff.mp h
  split at heq
  · subst heq
    exact ⟨‹_›, hc⟩
  · exact (wakeup_eq heq).elim

lemma Justified.finish (h : s.Justified) : (s.finish k x).Justified := by
  intro j r hj
  by_cases hjk : j = k <;> simp [Asleep, PipeState.finish, hjk] at hj
  exact h j r hj

lemma Justified.block (h : s.Justified) (hp : p = .waiting .asleep → s.Idle r) : (s.block k r p).Justified := by
  intro j r' hj
  by_cases hjk : j = k <;> simp [Asleep, PipeState.block, hjk] at hj
  · exact hj.1 ▸ hp hj.2
  · exact h j r' hj

lemma store_isFull (data : List UInt8) (h : (s.store k data).1 < data.length) : (s.store k data).2.isFull := by
  fun_induction store k data s with
  | case1 => simp at h
  | case2 => assumption
  | case3 b data s hfull r ih => exact ih (by simpa using h)

section

variable (h : s.Justified) (hle : s.rpos ≤ s.wpos) (hfree : s.sem = 1)
include h hle hfree

lemma Justified.pipeStateRead : (s.pipeStateRead k n).Justified := by
  rw [PipeState.pipeStateRead, if_neg (by rw [hfree]; decide)]
  dsimp only
  split
  next hempty =>
    rw [unlock_lock hfree]
    split
    · exact h.finish
    next hopen => exact h.block fun _ => ⟨Bool.eq_false_iff.mpr hopen, hempty⟩
  next hne =>
    cases n with
    | zero => exact Justified.finish h
    | succ n =>
      have hsome : s.unread.take (n + 1) ≠ [] := by
        rw [unread, window_pop (Nat.lt_of_le_of_ne hle hne), List.take_succ_cons]
        exact List.cons_ne_nil _ _
      rw [fetch_eq (s := s.lockState) hle]
      refine Justified.finish fun j r hj => ?_
      split at hj
      · -- the pipe was not empty, so no reader slept
        obtain ⟨hr, hj⟩ := asleep_wakeupWriter (s := { s with rpos := min (s.rpos + (n + 1)) s.wpos }) hj
        have hidle := (h j r hj).2
        rw [if_pos hr] at hidle
        exact absurd hidle hne
      next hnil => exact absurd hsome hnil

lemma Justified.pipeStateWrite (hroom : s.wpos ≤ s.rpos + pipeBufsize) : (s.pipeStateWrite k data ret).Justified := by
  rw [PipeState.pipeStateWrite, if_neg (by rw [hfree]; decide)]
  dsimp only
  split
  · exact Justified.finish h
  next hopen =>
    obtain ⟨m, buf, hm, hstore, -⟩ := store_eq (data.drop ret) (s := s.lockState) (k := k) hle hroom
    have hfull := store_isFull (s := s.lockState) (k := k) (data.drop ret)
    rw [hstore] at hfull ⊢
    -- a full pipe stays full
    have hwoken (t : PipeState) (hc : t.calls = s.wakeupReader.calls) (hclosed : t.isclosed = s.isclosed)
        (hr : t.rpos = s.rpos) (hw : t.wpos = s.wpos + m) : t.Justified := by
      intro j r hj
      obtain ⟨hread, hj⟩ := asleep_wakeupReader (s := s) (by rwa [Asleep, ← hc])
      obtain ⟨hopen, hidle⟩ := h j r hj
      rw [Idle, hclosed, hread]
      rw [hread] at hidle
      refine ⟨hopen, ?_⟩
      simp only [isFull, hr, hw, Bool.false_eq_true, if_false] at hidle ⊢
      omega
    simp only
    split
    next hlt =>
      refine Justified.block (hwoken _ rfl rfl rfl rfl) fun _ => ⟨Bool.eq_false_iff.mpr hopen, ?_⟩
      exact hfull (by rw [List.length_drop]; omega)
    next =>
      split
      · exact Justified.finish (hwoken _ rfl rfl rfl rfl)
      next hm0 =>
        obtain rfl : m = 0 := by simpa using hm0
        exact Justified.finish h

lemma Justified.attempt (hroom : s.wpos ≤ s.rpos + pipeBufsize) : (s.attempt k r).Justified := by
  cases r with
  | read n => exact h.pipeStateRead hle hfree
  | write data ret => exact h.pipeStateWrite hle hfree hroom

end

lemma Justified.step (h : s.Justified) (hinv : s.Inv) (hs : s.step e = .ok s') : s'.Justified := by
  have hattempt (t : PipeState) (k : Nat) (r : Request) (ht : t = { s with begun := t.begun }) :
    (t.attempt k r).Justified := by
    rw [ht]
    exact Justified.attempt h hinv.stream.le hinv.free hinv.stream.room
  cases e with
  | read n => exact Except.ok.inj hs ▸ hattempt _ _ _ rfl
  | write data => exact Except.ok.inj hs ▸ hattempt _ _ _ rfl
  | close =>
    obtain rfl := Except.ok.inj hs
    intro j r hj
    obtain ⟨hread, hj⟩ := asleep_wakeupWriter hj
    obtain ⟨hwrite, -⟩ := asleep_wakeupReader hj
    cases hread.symm.trans hwrite
  | resume k =>
    obtain rfl := Except.ok.inj hs
    split
    next c hc =>
      rw [resume]
      split
      · exact hattempt s k c.request rfl
      · exact hattempt s k c.request rfl
      · unfold interrupt
        split <;> exact h.finish
      · exact h
    · exact h
  | kill k =>
    obtain rfl := Except.ok.inj hs
    intro j r hj
    by_cases hjk : j = k
    · simp only [Asleep, hjk, update_self, Option.map_eq_some_iff] at hj
      obtain ⟨⟨_, _ | ⟨_ | _ | _⟩⟩, -, hkill⟩ := hj <;> simp [Call.kill, Sync.Wait.kill] at hkill
    · exact h j r (by simpa [Asleep, hjk] using hj)

/-- Nobody sleeps at a pipe who could go on: while a reader sleeps the pipe is open and
empty, and while a writer sleeps it is open and full. So never do both sleep. -/
theorem sleepers_wait (h : Reached s) :
    (∀ k r, s.Asleep k r → s.isclosed = false ∧ if r.isRead then s.rpos = s.wpos else s.wpos - s.rpos = pipeBufsize) ∧
    ∀ k r j r', s.Asleep k r → s.Asleep j r' → r.isRead = r'.isRead := by
  have hj : s.Justified := by
    refine (Reachable.invariant (P := fun s => s.Inv ∧ s.Justified) h ?_ ?_).2
    · rintro _ rfl
      exact ⟨Inv.create, nofun⟩
    · exact fun _ _ _ hs _ hstep => ⟨hs.1.step hstep, hs.2.step hs.1 hstep⟩
  have hroom := h.inv.stream.room
  simp only [Justified, Idle, isEmpty, isFull] at hj
  have hpos : 0 < pipeBufsize := by decide
  constructor
  · intro k r hk
    obtain ⟨hclosed, hidle⟩ := hj k r hk
    refine ⟨hclosed, ?_⟩
    split at hidle <;> simp_all
    omega
  · intro k r j r' hk hr
    have h1 := (hj k r hk).2
    have h2 := (hj j r' hr).2
    cases hb : r.isRead <;> cases hb' : r'.isRead <;> simp [hb, hb'] at h1 h2 ⊢ <;> omega

/-- A read of a new pipe sleeps. -/
theorem sleepers_wait_read : ∃ s, Reached s ∧ s.Asleep 0 (.read 1) ∧ s.isclosed = false ∧ s.rpos = s.wpos := by
  have hr : Reached ({ create with begun := 1 }.attempt 0 (.read 1)) := .step (.init rfl) trivial (a := .read 1) rfl
  exact ⟨_, hr, rfl, (sleepers_wait hr).1 0 (.read 1) rfl⟩

end Ucore.Fs.Pipe.PipeState
