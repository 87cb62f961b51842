import Mathlib.Order.Interval.Finset.Nat
import Ucore.Debug.Panic
import Ucore.Lib.Run

/-!
# Process numbers

`get_pid` of `proc.c` over the pids on `proc_list`. The numbers below
`lcpu_count` belong to the idle processes, which are not on the list.

`get_pid` walks the list until it knows an interval of free numbers, and
starts the walk again whenever its candidate leaves the interval.
-/

namespace Ucore.Process

open Ucore.Lib

def maxProcess : Nat := 4096
def maxPid : Nat := maxProcess * 2

structure PidCounter where
  lastPid : Nat
  nextSafe : Nat
  deriving DecidableEq, Repr

inductive Walk
  | done (c : PidCounter)
  | again (lastPid : Nat)
  deriving DecidableEq, Repr

def walkList : List Nat → Nat → Nat → Walk
  | [], last, safe => .done ⟨last, safe⟩
  | pid :: l, last, safe =>
    if pid = last then
      if safe ≤ last + 1 then .again (if maxPid ≤ last + 1 then 1 else last + 1)
      else walkList l (last + 1) safe
    else if last < pid ∧ pid < safe then walkList l last pid
    else walkList l last safe

def repeatWalk : Nat → List Nat → Nat → Option PidCounter
  | 0, _, _ => none
  | fuel + 1, l, last =>
    match walkList l last maxPid with
    | .done c => some c
    | .again last => repeatWalk fuel l last

def getPid (fuel lcpuCount : Nat) (l : List Nat) (c : PidCounter) : Option PidCounter :=
  if maxPid ≤ c.lastPid + 1 then repeatWalk fuel l lcpuCount
  else if c.nextSafe ≤ c.lastPid + 1 then repeatWalk fuel l (c.lastPid + 1)
  else some ⟨c.lastPid + 1, c.nextSafe⟩

def enoughWalks : Nat := 2 * maxPid

variable {l : List Nat} {last safe p q fuel lcpuCount : Nat} {c c' : PidCounter}

def Taken (l : List Nat) (a b : Nat) : Prop := ∀ q, a ≤ q → q < b → q ∈ l

def Gap (l : List Nat) (a b : Nat) : Prop := ∀ q ∈ l, a ≤ q → b ≤ q

lemma Taken.trans (h : Taken l a b) (h' : Taken l b d) : Taken l a d := by
  grind [Taken]

lemma Taken.single (h : a ∈ l) : Taken l a (a + 1) := by
  intro q ha hb
  obtain rfl : q = a := by omega
  exact h

lemma Taken.refl : Taken l a a := fun _ ha hb => absurd hb (Nat.not_lt.mpr ha)

def Walk.Ok (l : List Nat) (last : Nat) : Walk → Prop
  | .done c => last ≤ c.lastPid ∧ c.lastPid < c.nextSafe ∧ c.nextSafe ≤ maxPid ∧
      Taken l last c.lastPid ∧ Gap l c.lastPid c.nextSafe
  | .again p => ∃ q, last < q ∧ q ≤ maxPid ∧ Taken l last q ∧ p = if maxPid ≤ q then 1 else q

lemma Walk.Ok.skip {w : Walk} (h : w.Ok l (last + 1)) (hl : last ∈ l) : w.Ok l last := by
  cases w with
  | done c =>
    obtain ⟨h1, h2, h3, h4, h5⟩ := h
    exact ⟨Nat.le_of_succ_le h1, h2, h3, (Taken.single hl).trans h4, h5⟩
  | again p =>
    obtain ⟨q, h1, h2, h3, h4⟩ := h
    exact ⟨q, Nat.lt_of_succ_lt h1, h2, (Taken.single hl).trans h3, h4⟩

lemma walkList_ok {all : List Nat} (hl : ∀ q ∈ l, q ∈ all) (hgap : ∀ q ∈ all, q ∈ l ∨ (last ≤ q → safe ≤ q))
    (hlt : last < safe) (hsafe : safe ≤ maxPid) : (walkList l last safe).Ok all last := by
  induction l generalizing last safe with
  | nil => exact ⟨le_rfl, hlt, hsafe, .refl, fun q hq => (hgap q hq).resolve_left List.not_mem_nil⟩
  | cons pid l ih =>
    have hpid : pid ∈ all := hl pid (.head _)
    have hl' : ∀ q ∈ l, q ∈ all := fun q hq => hl q (.tail _ hq)
    rw [walkList]
    split
    · rename_i heq
      subst heq
      split
      · rename_i hle
        exact ⟨pid + 1, by omega, by omega, .single hpid, rfl⟩
      · grind [Walk.Ok.skip]
    · grind

def FreeFrom (l : List Nat) (start p : Nat) : Prop := start ≤ p ∧ p < maxPid ∧ p ∉ l ∧ Taken l start p

structure Fresh (l : List Nat) (c : PidCounter) : Prop where
  free : c.lastPid ∉ l
  lt : c.lastPid < c.nextSafe
  le : c.nextSafe ≤ maxPid
  gap : Gap l c.lastPid c.nextSafe

lemma FreeFrom.unique (h : FreeFrom l a p) (h' : FreeFrom l a q) : p = q := by
  obtain ⟨h1, -, hp, ht⟩ := h
  obtain ⟨h1', -, hq, ht'⟩ := h'
  rcases Nat.lt_trichotomy p q with hlt | heq | hlt
  · exact absurd (ht' p h1 hlt) hp
  · exact heq
  · exact absurd (ht q h1' hlt) hq

lemma FreeFrom.of_taken (h : FreeFrom l a p) (hab : a ≤ b) (ht : Taken l a b) : FreeFrom l b p := by
  obtain ⟨h1, h2, h3, h4⟩ := h
  have hb : b ≤ p := by
    by_contra hlt
    exact h3 (ht p h1 (Nat.lt_of_not_le hlt))
  exact ⟨hb, h2, h3, fun q hq => h4 q (Nat.le_trans hab hq)⟩

lemma Walk.Ok.fresh (h : (Walk.done c).Ok l last) : FreeFrom l last c.lastPid ∧ Fresh l c := by
  obtain ⟨h1, h2, h3, h4, h5⟩ := h
  have hfree : c.lastPid ∉ l := fun hmem => absurd (h5 _ hmem le_rfl) (Nat.not_le.mpr h2)
  exact ⟨⟨h1, Nat.lt_of_lt_of_le h2 h3, hfree, h4⟩, hfree, h2, h3, h5⟩

lemma walkList_all (h : last < maxPid) : (walkList l last maxPid).Ok l last :=
  walkList_ok (fun _ hq => hq) (fun _ hq => .inl hq) h le_rfl

lemma repeatWalk_again (hw : walkList l last maxPid = .again r)
    (h : ∃ c, c.lastPid = p ∧ Fresh l c ∧ ∀ fuel, n < fuel → repeatWalk fuel l r = some c) (hn : n < m) :
    ∃ c, c.lastPid = p ∧ Fresh l c ∧ ∀ fuel, m < fuel → repeatWalk fuel l last = some c := by
  obtain ⟨c, hc, hfresh, hfuel⟩ := h
  refine ⟨c, hc, hfresh, fun fuel hf => ?_⟩
  obtain ⟨fuel, rfl⟩ := Nat.exists_eq_add_of_lt hf
  rw [repeatWalk, hw]
  exact hfuel _ (by omega)

lemma repeatWalk_free (h : FreeFrom l last p) :
    ∃ c, c.lastPid = p ∧ Fresh l c ∧ ∀ fuel, p - last < fuel → repeatWalk fuel l last = some c := by
  induction hd : p - last using Nat.strong_induction_on generalizing last with
  | _ d ih =>
    have hok := walkList_all (l := l) (Nat.lt_of_le_of_lt h.1 h.2.1)
    cases hw : walkList l last maxPid with
    | done c =>
      rw [hw] at hok
      refine ⟨c, hok.fresh.1.unique h, hok.fresh.2, fun fuel hf => ?_⟩
      obtain ⟨fuel, rfl⟩ := Nat.exists_eq_add_of_lt hf
      rw [repeatWalk, hw]
    | again r =>
      rw [hw] at hok
      obtain ⟨q, hq, hqm, ht, hr⟩ := hok
      have hfree := h.of_taken (Nat.le_of_lt hq) ht
      have hqp : q < maxPid := Nat.lt_of_le_of_lt hfree.1 hfree.2.1
      rw [if_neg (Nat.not_le.mpr hqp)] at hr
      subst hr
      have hle := hfree.1
      exact repeatWalk_again hw (ih (p - r) (by omega) hfree rfl) (by omega)

lemma repeatWalk_wrap (hlast : last < maxPid) (ht : Taken l last maxPid) (h : FreeFrom l 1 p) :
    ∃ c, c.lastPid = p ∧ Fresh l c ∧ ∀ fuel, maxPid - last + p < fuel → repeatWalk fuel l last = some c := by
  induction hd : maxPid - last using Nat.strong_induction_on generalizing last with
  | _ d ih =>
    have hok := walkList_all (l := l) hlast
    cases hw : walkList l last maxPid with
    | done c =>
      rw [hw] at hok
      obtain ⟨⟨h1, h2, h3, -⟩, -⟩ := hok.fresh
      exact absurd (ht _ h1 h2) h3
    | again r =>
      rw [hw] at hok
      obtain ⟨q, hq, hqm, -, hr⟩ := hok
      by_cases hend : maxPid ≤ q
      · rw [if_pos hend] at hr
        subst hr
        exact repeatWalk_again hw (repeatWalk_free h) (by omega)
      rw [if_neg hend] at hr
      subst hr
      have hrest := ih (maxPid - r) (by omega) (Nat.lt_of_not_le hend) (fun q' hq' => ht q' (by omega)) rfl
      exact repeatWalk_again hw hrest (by omega)

def NextFree (l : List Nat) (start p : Nat) : Prop :=
  FreeFrom l start p ∨ Taken l start maxPid ∧ FreeFrom l 1 p

lemma repeatWalk_ok (hlast : last < maxPid) (h : NextFree l last p) :
    ∃ c, c.lastPid = p ∧ Fresh l c ∧ ∀ fuel, enoughWalks ≤ fuel → repeatWalk fuel l last = some c := by
  have henough : enoughWalks = maxPid + maxPid := rfl
  rcases h with h | ⟨ht, h⟩
  · have hp := h.2.1
    grind [repeatWalk_free]
  · have hp := h.2.1
    grind [repeatWalk_wrap]

lemma exists_freeFrom (h : ∃ q, a ≤ q ∧ q < maxPid ∧ q ∉ l) : ∃ p, FreeFrom l a p := by
  classical
  obtain ⟨h1, h2, h3⟩ := Nat.find_spec h
  refine ⟨Nat.find h, h1, h2, h3, fun q hq hlt => ?_⟩
  grind [Nat.find_min]

lemma exists_nextFree (hl : l.length + 1 < maxPid) (start : Nat) : ∃ p, NextFree l start p := by
  by_cases hfree : ∃ q, start ≤ q ∧ q < maxPid ∧ q ∉ l
  · obtain ⟨p, hp⟩ := exists_freeFrom hfree
    exact ⟨p, .inl hp⟩
  have ht : Taken l start maxPid := by
    intro q h1 h2
    by_contra hq
    exact hfree ⟨q, h1, h2, hq⟩
  obtain ⟨q, hq, hql⟩ : ∃ q ∈ Finset.Ico 1 maxPid, q ∉ l.toFinset := by
    refine Finset.exists_mem_notMem_of_card_lt_card (lt_of_le_of_lt l.toFinset_card_le ?_)
    rw [Nat.card_Ico]
    omega
  rw [Finset.mem_Ico] at hq
  obtain ⟨p, hp⟩ := exists_freeFrom (l := l) ⟨q, hq.1, hq.2, by simpa using hql⟩
  exact ⟨p, .inr ⟨ht, hp⟩⟩

def firstPid (lcpuCount lastPid : Nat) : Nat := if maxPid ≤ lastPid + 1 then lcpuCount else lastPid + 1

lemma getPid_ok (hl : l.length + 1 < maxPid) (hcpu : lcpuCount < maxPid)
    (hsafe : c.nextSafe ≤ maxPid) (hgap : Gap l (c.lastPid + 1) c.nextSafe) :
    ∃ c', NextFree l (firstPid lcpuCount c.lastPid) c'.lastPid ∧ Fresh l c' ∧
    ∀ fuel, enoughWalks ≤ fuel → getPid fuel lcpuCount l c = some c' := by
  unfold firstPid
  by_cases hwrap : maxPid ≤ c.lastPid + 1
  · grind [getPid, repeatWalk_ok, exists_nextFree]
  rw [if_neg hwrap]
  by_cases hwalk : c.nextSafe ≤ c.lastPid + 1
  · obtain ⟨p, hp⟩ := exists_nextFree hl (c.lastPid + 1)
    grind [getPid, repeatWalk_ok]
  have hlt := Nat.lt_of_not_le hwalk
  have hfree : c.lastPid + 1 ∉ l := fun hmem => hwalk (hgap _ hmem le_rfl)
  refine ⟨⟨c.lastPid + 1, c.nextSafe⟩, .inl ⟨le_rfl, Nat.lt_of_lt_of_le hlt hsafe, hfree, .refl⟩,
    ⟨hfree, hlt, hsafe, hgap⟩, fun fuel _ => ?_⟩
  rw [getPid, if_neg hwrap, if_neg hwalk]

structure Pids where
  lcpuCount : Nat
  listed : List Nat
  counter : PidCounter

inductive PidEvent
  | fork
  | remove (pid : Nat)
  deriving DecidableEq, Repr

namespace Pids

variable {s s' : Pids} {e : PidEvent} {aps : Nat}

def boot (aps : Nat) : Pids := ⟨aps + 1, [], ⟨maxPid, maxPid⟩⟩

def nrProcess (s : Pids) : Nat := s.lcpuCount + s.listed.length

/-- What `do_fork` and `remove_links` do to the list. A refused fork changes
nothing. -/
def step (s : Pids) : PidEvent → Except Panic Pids
  | .fork =>
    if maxProcess ≤ s.nrProcess then .ok s
    else
      match getPid enoughWalks s.lcpuCount s.listed s.counter with
      | some c => .ok { s with listed := c.lastPid :: s.listed, counter := c }
      | none => .error .hang
  | .remove pid => .ok { s with listed := s.listed.erase pid }

structure Inv (s : Pids) : Prop where
  cpu : 0 < s.lcpuCount
  le : s.counter.nextSafe ≤ maxPid
  gap : Gap s.listed (s.counter.lastPid + 1) s.counter.nextSafe
  range : ∀ pid ∈ s.listed, 0 < pid ∧ pid < maxPid
  distinct : s.listed.Nodup

lemma Inv.boot : (boot aps).Inv where
  cpu := Nat.succ_pos _
  le := le_rfl
  gap := nofun
  range := nofun
  distinct := List.nodup_nil

section

variable (h : s.Inv)
include h

lemma Inv.getPid (hnr : s.nrProcess < maxProcess) :
    ∃ c, NextFree s.listed (firstPid s.lcpuCount s.counter.lastPid) c.lastPid ∧ Fresh s.listed c ∧
    ∀ fuel, enoughWalks ≤ fuel → getPid fuel s.lcpuCount s.listed s.counter = some c := by
  have hmax : maxPid = maxProcess + maxProcess := rfl
  unfold nrProcess at hnr
  have := h.cpu
  exact getPid_ok (by omega) (by omega) h.le h.gap

lemma Inv.nextFree_pos (hp : NextFree s.listed (firstPid s.lcpuCount s.counter.lastPid) p) :
    0 < p ∧ p < maxPid ∧ p ∉ s.listed := by
  have hfirst : 0 < firstPid s.lcpuCount s.counter.lastPid := by
    unfold firstPid
    split
    · exact h.cpu
    · exact Nat.succ_pos _
  rcases hp with ⟨h1, h2, h3, -⟩ | ⟨-, h1, h2, h3, -⟩
  · exact ⟨Nat.lt_of_lt_of_le hfirst h1, h2, h3⟩
  · exact ⟨h1, h2, h3⟩

lemma Inv.addPid (hnr : s.nrProcess < maxProcess) :
    ∃ c, Process.getPid enoughWalks s.lcpuCount s.listed s.counter = some c ∧
    NextFree s.listed (firstPid s.lcpuCount s.counter.lastPid) c.lastPid ∧
    { s with listed := c.lastPid :: s.listed, counter := c : Pids }.Inv := by
  obtain ⟨c, hc, hfresh, hfuel⟩ := h.getPid hnr
  obtain ⟨h1, h2, h3⟩ := h.nextFree_pos hc
  refine ⟨c, hfuel _ le_rfl, hc, h.cpu, hfresh.le, ?_, ?_, List.nodup_cons.mpr ⟨h3, h.distinct⟩⟩
  · intro q hq hlt
    rcases List.mem_cons.mp hq with rfl | hq
    · exact absurd hlt (Nat.not_succ_le_self _)
    · exact hfresh.gap q hq (Nat.le_of_succ_le hlt)
  · intro pid hpid
    rcases List.mem_cons.mp hpid with rfl | hpid
    · exact ⟨h1, h2⟩
    · exact h.range pid hpid

lemma Inv.fork (hnr : s.nrProcess < maxProcess) :
    ∃ c, s.step .fork = .ok { s with listed := c.lastPid :: s.listed, counter := c } ∧
      NextFree s.listed (firstPid s.lcpuCount s.counter.lastPid) c.lastPid ∧
      { s with listed := c.lastPid :: s.listed, counter := c : Pids }.Inv := by
  obtain ⟨c, hget, hc, hinv⟩ := h.addPid hnr
  exact ⟨c, by rw [step, if_neg (Nat.not_le.mpr hnr), hget], hc, hinv⟩

lemma Inv.sublist (hsub : l.Sublist s.listed) : { s with listed := l : Pids }.Inv where
  cpu := h.cpu
  le := h.le
  gap q hq := h.gap q (hsub.subset hq)
  range q hq := h.range q (hsub.subset hq)
  distinct := h.distinct.sublist hsub

lemma Inv.remove (pid : Nat) : { s with listed := s.listed.erase pid : Pids }.Inv := h.sublist List.erase_sublist

lemma Inv.step (hs : s.step e = .ok s') : s'.Inv := by
  cases e with
  | fork =>
    by_cases hnr : s.nrProcess < maxProcess
    · obtain ⟨c, hc, -, hinv⟩ := h.fork hnr
      exact Except.ok.inj (hc.symm.trans hs) ▸ hinv
    · grind [Pids.step]
  | remove pid => exact Except.ok.inj hs ▸ h.remove pid

end

def Reached (aps : Nat) : Pids → Prop := Reachable step (fun _ _ => True) (· = boot aps)

lemma Reached.inv (h : Reached aps s) : s.Inv := h.invariant (fun _ hs => hs ▸ Inv.boot) fun _ _ _ h _ hs => h.step hs

/-- Some run ends with the list `l` and the last number `last`. -/
def Reaches (guard : Pids → PidEvent → Prop) (aps n : Nat) (l : List Nat) (last : Nat) : Prop :=
  ∃ safe, Reachable step guard (· = boot aps) ⟨n, l, last, safe⟩

section

variable {guard : Pids → PidEvent → Prop} {n : Nat}

lemma Reaches.fork (h : Reaches guard aps n l last) (hnr : n + l.length < maxProcess)
    (hp : FreeFrom l (firstPid n last) p) (hg : ∀ safe, guard ⟨n, l, last, safe⟩ .fork) :
    Reaches guard aps n (p :: l) p := by
  obtain ⟨safe, h⟩ := h
  have hr : Reached aps ⟨n, l, last, safe⟩ := h.mono fun _ _ _ => trivial
  obtain ⟨c, hc, hnext, -⟩ := hr.inv.fork hnr
  have heq : c.lastPid = p := by
    rcases hnext with hnext | ⟨ht, -⟩
    · exact hnext.unique hp
    · exact absurd (ht p hp.1 hp.2.1) hp.2.2.1
  refine ⟨c.nextSafe, ?_⟩
  rw [← heq]
  exact .step h (hg safe) hc

lemma Reaches.exit (h : Reaches guard aps n (p :: l) last)
    (hg : ∀ safe, guard ⟨n, p :: l, last, safe⟩ (.remove p)) : Reaches guard aps n l last := by
  obtain ⟨safe, h⟩ := h
  refine ⟨safe, .step h (hg safe) ?_⟩
  rw [step, List.erase_cons_head]

lemma Reaches.cycle (h : Reaches guard aps n l last) (hnr : n + l.length < maxProcess) (k : Nat)
    (hk : last + k < maxPid) (hfree : Gap l (last + 1) (last + k + 1)) (hg : ∀ s e, guard s e) :
    Reaches guard aps n l (last + k) := by
  induction k with
  | zero => exact h
  | succ k ih =>
    have h' := ih (by omega) fun q hq hle => Nat.le_of_succ_le (hfree q hq hle)
    have hfirst : firstPid n (last + k) = last + (k + 1) := if_neg (Nat.not_le.mpr hk)
    have hnot : last + (k + 1) ∉ l := fun hmem => Nat.not_succ_le_self _ (hfree _ hmem (by omega))
    have hp : FreeFrom l (last + (k + 1)) (last + (k + 1)) := ⟨le_rfl, hk, hnot, .refl⟩
    exact (h'.fork hnr (by rwa [hfirst]) fun _ => hg _ _).exit fun _ => hg _ _

end

/-- On two processors three processes stay while the numbers up to 8190 are used. -/
lemma reaches_end : Reaches (fun _ _ => True) 1 2 [4, 3, 2] 8190 := by
  have hboot : Reaches (fun _ _ => True) 1 2 [] maxPid := ⟨maxPid, .init rfl⟩
  have h2 := hboot.fork (p := 2) (by decide) ⟨by decide, by decide, by decide, .refl⟩ fun _ => trivial
  have h3 := h2.fork (p := 3) (by decide) ⟨by decide, by decide, by decide, .refl⟩ fun _ => trivial
  have h4 := h3.fork (p := 4) (by decide) ⟨by decide, by decide, by decide, .refl⟩ fun _ => trivial
  exact h4.cycle (by decide) 8186 (by decide) (by unfold Gap; decide) fun _ _ => trivial

/-- A fork that is not refused gets a number from 1 to `maxPid - 1` that is not on the
list, and nothing on the list lies inside the interval kept for later calls. -/
theorem pids_unique (h : Reached aps s) : (s.nrProcess < maxProcess → ∃ c, (∀ fuel, enoughWalks ≤ fuel →
    getPid fuel s.lcpuCount s.listed s.counter = some c) ∧
    1 ≤ c.lastPid ∧ c.lastPid < maxPid ∧ c.lastPid ∉ s.listed) ∧
    (∀ pid ∈ s.listed, ¬ (s.counter.lastPid < pid ∧ pid < s.counter.nextSafe)) ∧ s.listed.Nodup := by
  refine ⟨fun hnr => ?_, fun pid hpid hbetween => ?_, h.inv.distinct⟩
  · obtain ⟨c, hc, -, hfuel⟩ := h.inv.getPid hnr
    exact ⟨c, hfuel, h.inv.nextFree_pos hc⟩
  · exact absurd (h.inv.gap pid hpid hbetween.1) (Nat.not_le.mpr hbetween.2)

/-- A process gets 8191 and exits, and the next fork starts over behind the idle processes. -/
theorem pids_unique_wraps : ∃ s c, Reached 1 s ∧ s.listed = [4, 3, 2] ∧ s.counter.lastPid = 8191 ∧
    getPid enoughWalks s.lcpuCount s.listed s.counter = some c ∧ 1 ≤ c.lastPid ∧ c.lastPid < maxPid ∧
    c.lastPid ∉ s.listed := by
  have hlast := reaches_end.fork (p := 8191) (by decide) ⟨by decide, by decide, by decide, .refl⟩ fun _ => trivial
  obtain ⟨safe, hs⟩ := hlast.exit fun _ => trivial
  obtain ⟨c, hfuel, hpid⟩ := (pids_unique hs).1 (by simp only [nrProcess]; decide)
  exact ⟨_, c, hs, rfl, rfl, hfuel _ le_rfl, hpid⟩

def Roomy (s : Pids) : PidEvent → Prop
  | .fork => s.lcpuCount = 1 ∨ maxPid ≤ s.counter.lastPid + 1 ∨ ¬ Taken s.listed (s.counter.lastPid + 1) maxPid
  | .remove _ => True

structure Apart (s : Pids) : Prop where
  listed : ∀ pid ∈ s.listed, s.lcpuCount ≤ pid
  last : maxPid ≤ s.counter.lastPid + 1 ∨ s.lcpuCount ≤ s.counter.lastPid

lemma not_taken (hnr : s.nrProcess < maxProcess) : ¬ Taken s.listed s.lcpuCount maxPid := by
  intro ht
  have hsub : Finset.Ico s.lcpuCount maxPid ⊆ s.listed.toFinset := by
    intro q hq
    rw [Finset.mem_Ico] at hq
    exact List.mem_toFinset.mpr (ht q hq.1 hq.2)
  have hcard := (Finset.card_le_card hsub).trans s.listed.toFinset_card_le
  grind [maxPid, nrProcess, Nat.card_Ico]

lemma nextFree_above_iff (h : s.Inv) (ha : s.Apart) (hnr : s.nrProcess < maxProcess)
    (hp : NextFree s.listed (firstPid s.lcpuCount s.counter.lastPid) p) : s.lcpuCount ≤ p ↔ s.Roomy .fork := by
  unfold firstPid at hp
  by_cases hwrap : maxPid ≤ s.counter.lastPid + 1
  · rw [if_pos hwrap] at hp
    rcases hp with hp | ⟨ht, -⟩
    · exact ⟨fun _ => .inr (.inl hwrap), fun _ => hp.1⟩
    · exact absurd ht (not_taken hnr)
  rw [if_neg hwrap] at hp
  rcases hp with hp | ⟨ht, hp⟩
  · have hnot : ¬ Taken s.listed (s.counter.lastPid + 1) maxPid := fun ht => hp.2.2.1 (ht p hp.1 hp.2.1)
    refine ⟨fun _ => .inr (.inr hnot), fun _ => ?_⟩
    exact Nat.le_trans (ha.last.resolve_left hwrap) (Nat.le_of_succ_le hp.1)
  constructor
  · intro hle
    left
    -- 1 would be free and be taken, if it were not a number for processes
    by_contra hcpu
    have hcpu' := h.cpu
    have hmem : 1 ∈ s.listed := hp.2.2.2 1 le_rfl (by omega)
    have := ha.listed 1 hmem
    omega
  · rintro (hcpu | hw | hnot)
    · exact hcpu ▸ hp.1
    · exact absurd hw hwrap
    · exact absurd ht hnot

lemma Apart.step (h : s.Inv) (ha : s.Apart) (hr : s.Roomy e) (hs : s.step e = .ok s') : s'.Apart := by
  cases e with
  | fork =>
    by_cases hnr : s.nrProcess < maxProcess
    · obtain ⟨c, hc, hp, -⟩ := h.fork hnr
      obtain rfl := Except.ok.inj (hc.symm.trans hs)
      have hle := (nextFree_above_iff h ha hnr hp).mpr hr
      refine ⟨fun pid hpid => ?_, .inr hle⟩
      rcases List.mem_cons.mp hpid with rfl | hpid
      · exact hle
      · exact ha.listed pid hpid
    · grind [Pids.step]
  | remove pid =>
    cases hs
    exact ⟨fun q hq => ha.listed q (List.mem_of_mem_erase hq), ha.last⟩

/-- As long as `get_pid` has a number left behind its last one, or there is a single
processor, processes get no number of an idle process. -/
theorem pids_above_idle (h : Reachable step Roomy (· = boot aps) s) : (∀ pid ∈ s.listed, s.lcpuCount ≤ pid) ∧
    ∀ c, s.nrProcess < maxProcess → getPid enoughWalks s.lcpuCount s.listed s.counter = some c →
    (s.lcpuCount ≤ c.lastPid ↔ s.Roomy .fork) := by
  obtain ⟨hinv, ha⟩ : s.Inv ∧ s.Apart := by
    refine h.invariant (P := fun s => s.Inv ∧ s.Apart) ?_ ?_
    · rintro s rfl
      exact ⟨Inv.boot, nofun, .inl (Nat.le_succ _)⟩
    · grind [Inv.step, Apart.step]
  refine ⟨ha.listed, fun c hnr hc => ?_⟩
  obtain ⟨c', hp, -, hfuel⟩ := hinv.getPid hnr
  grind [nextFree_above_iff]

/-- Three forks and an exit on two processors, and the next fork. -/
theorem pids_above_idle_forks : ∃ s c, Reachable step Roomy (· = boot 1) s ∧ s.listed = [3, 2] ∧
    (∀ pid ∈ s.listed, s.lcpuCount ≤ pid) ∧ getPid enoughWalks s.lcpuCount s.listed s.counter = some c ∧
    s.Roomy .fork ∧ s.lcpuCount ≤ c.lastPid := by
  have hroom : ∀ {l : List Nat} {last safe : Nat}, 8191 ∉ l → last < 8191 → Roomy ⟨2, l, last, safe⟩ .fork :=
    fun hl hlast => .inr (.inr fun ht => hl (ht 8191 hlast (by decide)))
  have hboot : Reaches Roomy 1 2 [] maxPid := ⟨maxPid, .init rfl⟩
  have h2 := hboot.fork (p := 2) (by decide) ⟨by decide, by decide, by decide, .refl⟩
    fun _ => .inr (.inl (Nat.le_succ maxPid))
  have h3 := h2.fork (p := 3) (by decide) ⟨by decide, by decide, by decide, .refl⟩
    fun _ => hroom (by decide) (by decide)
  have h4 := h3.fork (p := 4) (by decide) ⟨by decide, by decide, by decide, .refl⟩
    fun _ => hroom (by decide) (by decide)
  obtain ⟨safe, hs⟩ := h4.exit fun _ => trivial
  have hnr : ({ lcpuCount := 2, listed := [3, 2], counter := ⟨4, safe⟩ } : Pids).nrProcess < maxProcess := by
    simp only [nrProcess]; decide
  have hr : Reached 1 _ := hs.mono fun _ _ _ => trivial
  obtain ⟨c, -, -, hfuel⟩ := hr.inv.getPid hnr
  obtain ⟨hlist, hiff⟩ := pids_above_idle hs
  have hfork : Roomy ⟨2, [3, 2], 4, safe⟩ .fork := hroom (by decide) (by decide)
  exact ⟨_, c, hs, rfl, hlist, hfuel _ le_rfl, hfork, (hiff c hnr (hfuel _ le_rfl)).mpr hfork⟩

/-- On two processors the pids 2 to 4 and 8191 are in use when the numbers in
between run out. The next process gets the number of an idle process. -/
theorem pid_of_idle : ∃ s c, Reached 1 s ∧ s.nrProcess < maxProcess ∧
    getPid enoughWalks s.lcpuCount s.listed s.counter = some c ∧ c.lastPid < s.lcpuCount := by
  have hlast := reaches_end.fork (p := 8191) (by decide) ⟨by decide, by decide, by decide, .refl⟩ fun _ => trivial
  -- the first time around it begins behind the numbers of the idle processes
  have h5 := (hlast.fork (p := 5) (by decide) ⟨by decide, by decide, by decide, fun q h1 h2 => by
    obtain rfl | rfl | rfl : q = 2 ∨ q = 3 ∨ q = 4 := by
      change 2 ≤ q at h1
      omega
    all_goals decide⟩ fun _ => trivial).exit fun _ => trivial
  obtain ⟨safe, hs⟩ : Reaches (fun _ _ => True) 1 2 [8191, 4, 3, 2] 8190 :=
    h5.cycle (by decide) 8185 (by decide) (by unfold Gap; decide) fun _ _ => trivial
  have hs : Reached 1 _ := hs
  obtain ⟨c, hp, -, hfuel⟩ := hs.inv.getPid (by simp only [nrProcess]; decide)
  refine ⟨_, c, hs, by simp only [nrProcess]; decide, hfuel _ le_rfl, ?_⟩
  rcases hp with hp | ⟨-, hp⟩
  · obtain ⟨h1, h2, h3, -⟩ := hp
    change 8191 ≤ c.lastPid at h1
    change c.lastPid < 8192 at h2
    obtain heq : c.lastPid = 8191 := by omega
    exact absurd (by simp [heq]) h3
  · by_contra hlt
    have hmem : 1 ∈ [8191, 4, 3, 2] := hp.2.2.2 1 le_rfl (Nat.le_of_not_lt hlt)
    exact absurd hmem (by decide)

end Pids

end Ucore.Process
