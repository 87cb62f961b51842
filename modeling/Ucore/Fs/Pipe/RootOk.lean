import Mathlib.Data.List.Count
import Ucore.Fs.Pipe.Root

/-!
# The list of named pipes

No two inodes on the list are the same end of the same pipe, so that the assertions of
`lookup_pipe_nolock` hold.
-/

namespace Ucore.Fs.Pipe

open Function
open Lib (Safe)
open Lib.Cmd

namespace PipeFs

variable {s s' : PipeFs} {allowed : Panic → Prop} {E : Errno → PipeFs → Prop} {o : Option Nat} {f g : Nat → Nat}
  {name path : List Char} {readonly excl : Bool} {l done : List Nat} {k st : Nat}

structure Ok (s : PipeFs) : Prop where
  nodup : s.pipeList.Nodup
  node : ∀ k ∈ s.pipeList, ∃ p, s.node k = some p ∧ 0 < p.refCount ∧ p.reclaimCount = 1
  one : ∀ k ∈ s.pipeList, ∀ j ∈ s.pipeList, ∀ p q, s.node k = some p → s.node j = some q →
    p.name = q.name → p.readonly = q.readonly → k = j
  states : ∀ st, s.stateRef st = s.pipeList.countP fun k => (s.node k).any fun p => decide (p.state = st)
  fresh : ∀ k ∈ s.pipeList, k < s.fresh ∧ ∀ p, s.node k = some p → p.state < s.fresh

def addRef (f : Nat → Nat) (s : PipeFs) : PipeFs :=
  { s with node := fun k => (s.node k).map fun p => { p with refCount := p.refCount + f k } }

def one (o : Option Nat) (k : Nat) : Nat := if o = some k then 1 else 0

lemma addRef_zero : s.addRef (fun _ => 0) = s := by
  cases s
  simp [addRef]

lemma addRef_node (h : s.node k = some p) : (s.addRef f).node k = some { p with refCount := p.refCount + f k } := by
  simp [addRef, h]

lemma sat_pin {Q : PipeInode → PipeFs → Prop} (h : s.node k = some p) : Sat allowed (pin k) s Q E ↔ Q p s := by
  rw [pin, sat_bind, sat_get, h]
  exact Iff.rfl

lemma exec_safe {x : PipeM α} (h : Sat (fun _ => False) x s (fun _ s' => s'.Ok) (fun _ s' => s'.Ok)) :
    Safe (fun _ => False) (s.exec x) Ok := by
  unfold exec
  unfold Sat at h
  rcases hx : x s with p | ⟨e | a, s'⟩ <;> rw [hx] at h <;> exact h

section

variable (h : s.Ok)
include h

lemma Ok.addRef (f : Nat → Nat) : (s.addRef f).Ok := by
  refine ⟨h.nodup, fun k hk => ?_, fun k hk j hj p q hp hq hname hro => ?_, fun st => ?_,
    fun k hk => ⟨(h.fresh k hk).1, ?_⟩⟩
  · obtain ⟨p, hp, href, hcount⟩ := h.node k hk
    exact ⟨_, addRef_node hp, Nat.add_pos_left href _, hcount⟩
  · obtain ⟨p', hp', -⟩ := h.node k hk
    obtain ⟨q', hq', -⟩ := h.node j hj
    rw [addRef_node hp'] at hp
    rw [addRef_node hq'] at hq
    cases hp
    cases hq
    exact h.one k hk j hj p' q' hp' hq' hname hro
  · rw [show (s.addRef f).stateRef st = s.stateRef st from rfl, h.states]
    refine List.countP_congr fun k hk => ?_
    grind [PipeFs.addRef]
  · intro p hp
    obtain ⟨p', hp', -⟩ := h.node k hk
    rw [addRef_node hp'] at hp
    cases hp
    exact (h.fresh k hk).2 p' hp'

lemma refDec_ok (hk : k ∈ s.pipeList) (f : Nat → Nat) :
    Sat allowed (refDec k) (s.addRef fun j => f j + one (some k) j) (fun _ s' => s' = s.addRef f) E := by
  obtain ⟨p, hp, href, -⟩ := h.node k hk
  have hself : one (some k) k = 1 := if_pos rfl
  rw [refDec, sat_bind, sat_pin (addRef_node hp), sat_bind, sat_check (by simp; omega), sat_bind, setPin, sat_modify,
    sat_when_not (by simp [hself]; omega)]
  simp only [addRef, PipeFs.mk.injEq, true_and, and_true]
  grind [one]

lemma refDecOf_ok (ho : ∀ k, o = some k → k ∈ s.pipeList) (f : Nat → Nat) :
    Sat allowed (refDecOf o) (s.addRef fun j => f j + one o j) (fun _ s' => s' = s.addRef f) E := by
  cases o with
  | some k => exact refDec_ok h (ho k rfl) f
  | none =>
    have hone : (fun j => f j + one none j) = f := by
      funext j
      simp [one]
    rw [hone]
    exact rfl

def IsEnd (s : PipeFs) (name : List Char) (readonly : Bool) (seen : List Nat) (o : Option Nat) : Prop :=
  ∀ k, o = some k ↔ k ∈ seen ∧ ∃ p, s.node k = some p ∧ p.name = name ∧ p.readonly = readonly

omit h in
lemma IsEnd.skip (h : s.IsEnd name readonly done o) (hp : s.node k = some p)
    (hne : ¬ (p.name = name ∧ p.readonly = readonly)) :
    s.IsEnd name readonly (done ++ [k]) o := by
  intro j
  rw [h j, List.mem_append, List.mem_singleton]
  refine ⟨fun ⟨hj, hend⟩ => ⟨.inl hj, hend⟩, ?_⟩
  rintro ⟨hj | rfl, hend⟩
  · exact ⟨hj, hend⟩
  · obtain ⟨q, hq, hmatch⟩ := hend
    cases hp.symm.trans hq
    exact absurd hmatch hne

omit h in
lemma IsEnd.found (h : s.IsEnd name readonly done o) (hok : s.Ok)
    (hlist : s.pipeList = done ++ k :: l) (hp : s.node k = some p)
    (hname : p.name = name) (hro : p.readonly = readonly) : o = none ∧ s.IsEnd name readonly (done ++ [k]) (some k) := by
  have hmem : ∀ j ∈ done, j ∈ s.pipeList := fun j hj => hlist ▸ List.mem_append_left _ hj
  have hk : k ∈ s.pipeList := hlist ▸ List.mem_append_right _ (.head _)
  have hnot : k ∉ done := by
    have hnd := hok.nodup
    rw [hlist] at hnd
    exact fun hin => (List.nodup_append.mp hnd).2.2 k hin k (.head _) rfl
  have hsame : ∀ j ∈ s.pipeList, (∃ q, s.node j = some q ∧ q.name = name ∧ q.readonly = readonly) → j = k := by
    rintro j hj ⟨q, hq, hqname, hqro⟩
    exact hok.one j hj k hk q p hq hp (hqname.trans hname.symm) (hqro.trans hro.symm)
  refine ⟨?_, fun j => ?_⟩
  · cases o with
    | none => rfl
    | some j =>
      obtain ⟨hj, hend⟩ := (h j).mp rfl
      exact absurd (hsame j (hmem j hj) hend ▸ hj) hnot
  · grind

omit h in
lemma sat_get_addRef {Q : Unit → PipeFs → Prop} (hp : s.node k = some p) (href : 0 < p.refCount) :
    Sat allowed (setPin k (some (PipeInode.get { p with refCount := p.refCount + g k }))) (s.addRef g) Q E ↔
      Q () (s.addRef fun j => g j + one (some k) j) := by
  rw [setPin, sat_modify]
  refine iff_of_eq (congrArg (Q ()) ?_)
  simp only [addRef, PipeFs.mk.injEq, true_and, and_true]
  funext j
  by_cases hj : j = k
  · subst hj
    have hself : one (some j) j = 1 := if_pos rfl
    have hne : p.refCount ≠ 0 := Nat.ne_of_gt href
    simp [hp, hself, PipeInode.get, hne, Nat.add_assoc]
  · grind [one]

def seeing (s : PipeFs) (r w : Option Nat) : PipeFs := s.addRef fun j => one r j + one w j

lemma lookupPipe_ok {r w : Option Nat} (hlist : s.pipeList = done ++ l) (hr : s.IsEnd name true done r)
    (hw : s.IsEnd name false done w) :
    Sat allowed (lookupPipe name l r w) (s.seeing r w)
      (fun e s' => s' = s.seeing e.1 e.2 ∧ s.IsEnd name true s.pipeList e.1 ∧ s.IsEnd name false s.pipeList e.2) E := by
  induction l generalizing done r w with
  | nil =>
    rw [List.append_nil] at hlist
    exact ⟨rfl, hlist ▸ hr, hlist ▸ hw⟩
  | cons k l ih =>
    have hk : k ∈ s.pipeList := hlist ▸ List.mem_append_right _ (.head _)
    have hrest : s.pipeList = (done ++ [k]) ++ l := by rw [List.append_assoc]; exact hlist
    obtain ⟨p, hp, href, -⟩ := h.node k hk
    rw [lookupPipe, sat_bind, seeing, sat_pin (addRef_node hp)]
    dsimp only
    by_cases hname : p.name = name
    · rw [if_neg (by simpa using hname)]
      by_cases hro : p.readonly = true
      · obtain ⟨rfl, hfound⟩ := hr.found h hlist hp hname hro
        rw [if_pos hro, sat_bind, sat_check rfl, sat_bind]
        refine (sat_get_addRef (g := fun j => one none j + one w j) hp href).mpr ?_
        have hstate : (s.addRef fun j => one none j + one w j + one (some k) j) = s.seeing (some k) w := by
          unfold seeing
          congr 1
          funext j
          simp [one, Nat.add_comm]
        rw [hstate]
        exact ih hrest hfound (hw.skip hp (by simp [hro]))
      · obtain ⟨rfl, hfound⟩ := hw.found h hlist hp hname (by simpa using hro)
        rw [if_neg hro, sat_bind, sat_check rfl, sat_bind]
        refine (sat_get_addRef (g := fun j => one r j + one none j) hp href).mpr ?_
        have hstate : (s.addRef fun j => one r j + one none j + one (some k) j) = s.seeing r (some k) := by
          unfold seeing
          congr 1
        rw [hstate]
        exact ih hrest (hr.skip hp (by simp [hro])) hfound
    · rw [if_pos hname]
      exact ih hrest (hr.skip hp fun hm => hname hm.1) (hw.skip hp fun hm => hname hm.1)

omit h in
lemma isEnd_nil : s.IsEnd name readonly [] none := by
  intro k
  simp

lemma pipeEnds_ok : Sat allowed (pipeEnds path) s (fun e s' => s' = s.seeing e.1 e.2 ∧
    s.IsEnd (path.drop 2) (decide (path.head? = some 'r')) s.pipeList e.1 ∧
    s.IsEnd (path.drop 2) (!decide (path.head? = some 'r')) s.pipeList e.2) E := by
  have hstart : s.seeing none none = s := by
    unfold seeing
    simp [one, addRef_zero]
  rw [pipeEnds, sat_bind, sat_get, sat_bind]
  have hloop : Sat allowed (lookupPipe (path.drop 2) s.pipeList none none) (s.seeing none none) _ E :=
    lookupPipe_ok h (List.nil_append _).symm isEnd_nil isEnd_nil
  rw [hstart] at hloop
  refine hloop.imp ?_
  grind [seeing, sat_pure]

omit h in
lemma IsEnd.mem (h : s.IsEnd name readonly s.pipeList o) : ∀ k, o = some k → k ∈ s.pipeList := fun k hk => ((h k).mp hk).1

lemma pipeRootLookup_ok (hpath : PipeName path) :
    Sat allowed (pipeRootLookup path) s (fun k s' => s' = s.addRef (one (some k)) ∧ k ∈ s.pipeList)
    (fun _ s' => s' = s) := by
  rw [pipeRootLookup, sat_bind, sat_check hpath, sat_bind]
  refine (pipeEnds_ok h).imp ?_
  rintro ⟨mine, other⟩ s' ⟨rfl, hmine, hother⟩
  rw [sat_bind]
  refine (refDecOf_ok h hother.mem (one mine)).imp ?_
  rintro - s' rfl
  cases mine with
  | some k => exact ⟨rfl, hmine.mem k rfl⟩
  | none => exact addRef_zero

structure Pending (s : PipeFs) (other : Option Nat) (st : Nat) (s' : PipeFs) : Prop where
  eq : s' = { s.addRef (one other) with stateRef := update s.stateRef st (s.stateRef st + 1), fresh := s'.fresh }
  le : s.fresh ≤ s'.fresh
  lt : st < s'.fresh

lemma Ok.stateRef_fresh : s.stateRef s.fresh = 0 := by
  rw [h.states, List.countP_eq_zero]
  intro k hk
  obtain ⟨p, hp, -⟩ := h.node k hk
  have hlt := (h.fresh k hk).2 p hp
  simpa [hp] using Nat.ne_of_lt hlt

lemma Ok.stateRef_pos (hk : k ∈ s.pipeList) (hp : s.node k = some p) : 0 < s.stateRef p.state := by
  grind [h.states]

lemma newState_ok {other : Option Nat} (ho : ∀ k, other = some k → k ∈ s.pipeList) :
    Sat allowed (newState other) (s.addRef (one other)) (fun st => Pending s other st) E := by
  cases other with
  | none =>
    rw [newState, sat_bind, sat_get, sat_bind, sat_modify, sat_pure]
    refine ⟨?_, Nat.le_succ _, Nat.lt_succ_self _⟩
    simp only [PipeFs.addRef, h.stateRef_fresh]
  | some k =>
    obtain ⟨p, hp, -⟩ := h.node k (ho k rfl)
    rw [newState, sat_bind, sat_pin (addRef_node hp), sat_bind, stateAcquire, sat_bind, sat_get, sat_bind]
    refine (sat_check (h.stateRef_pos (ho k rfl) hp)).mpr ?_
    exact ⟨rfl, Nat.le_refl _, (h.fresh k (ho k rfl)).2 p hp⟩

def withPipe (s : PipeFs) (name : List Char) (readonly : Bool) (st fresh : Nat) : PipeFs :=
  { s with
    node := update s.node fresh (some { name, readonly, state := st, reclaimCount := 1, refCount := 1 })
    pipeList := fresh :: s.pipeList
    stateRef := update s.stateRef st (s.stateRef st + 1)
    fresh := fresh + 1 }

lemma Ok.withPipe {fresh : Nat} (hnone : s.IsEnd name readonly s.pipeList none) (hle : s.fresh ≤ fresh)
    (hst : st < fresh) : (s.withPipe name readonly st fresh).Ok := by
  have hne : ∀ k ∈ s.pipeList, k ≠ fresh := fun k hk heq => absurd (h.fresh k hk).1 (by omega)
  have hold : ∀ k ∈ s.pipeList, (s.withPipe name readonly st fresh).node k = s.node k :=
    fun k hk => update_of_ne (hne k hk) ..
  have hnew : (s.withPipe name readonly st fresh).node fresh =
      some { name, readonly, state := st, reclaimCount := 1, refCount := 1 } := update_self ..
  refine ⟨List.nodup_cons.mpr ⟨fun hk => hne _ hk rfl, h.nodup⟩, ?_, ?_, fun st' => ?_, ?_⟩
  · refine List.forall_mem_cons.mpr ⟨⟨_, hnew, Nat.one_pos, rfl⟩, fun k hk => ?_⟩
    rw [hold k hk]
    exact h.node k hk
  · have hother : ∀ k ∈ s.pipeList, ∀ p, s.node k = some p → p.name = name → p.readonly ≠ readonly := by
      intro k hk p hp hname hro
      have := (hnone k).mpr ⟨hk, p, hp, hname, hro⟩
      cases this
    intro k hk j hj p q hp hq hname hro
    rcases List.mem_cons.mp hk with hk' | hk'
    · rcases List.mem_cons.mp hj with hj' | hj'
      · rw [hk', hj']
      · grind
    rcases List.mem_cons.mp hj with hj' | hj'
    · grind
    rw [hold k hk'] at hp
    rw [hold j hj'] at hq
    exact h.one k hk' j hj' p q hp hq hname hro
  · have hcount :
      s.pipeList.countP (fun k => ((s.withPipe name readonly st fresh).node k).any fun p => decide (p.state = st')) =
        s.stateRef st' := by
      rw [h.states]
      exact List.countP_congr fun k hk => by rw [hold k hk]
    change update s.stateRef st (s.stateRef st + 1) st' = (fresh :: s.pipeList).countP _
    grind
  · refine List.forall_mem_cons.mpr ⟨⟨Nat.lt_succ_self _, fun p hp => ?_⟩, fun k hk => ⟨?_, fun p hp => ?_⟩⟩
    · rw [hnew] at hp
      cases hp
      exact Nat.lt_succ_of_lt hst
    · exact Nat.lt_succ_of_lt (Nat.lt_of_lt_of_le (h.fresh k hk).1 hle)
    · rw [hold k hk] at hp
      exact Nat.lt_succ_of_lt (Nat.lt_of_lt_of_le ((h.fresh k hk).2 p hp) hle)

lemma newPipe_ok {other : Option Nat} (ho : ∀ k, other = some k → k ∈ s.pipeList) (hp : Pending s other st s') :
    Sat allowed (newPipe name readonly st) s'
    (fun k s'' => k = s'.fresh ∧ s'' = (s.withPipe name readonly st s'.fresh).addRef fun j => 0 + one other j) E := by
  have hzero : one other s'.fresh = 0 := by
    refine if_neg fun heq => ?_
    have hlt := (h.fresh _ (ho _ heq)).1
    have hle := hp.le
    omega
  rw [newPipe, sat_bind, sat_get, sat_bind, sat_modify, sat_pure]
  refine ⟨rfl, ?_⟩
  rw [hp.eq]
  simp only [withPipe, PipeFs.addRef, PipeFs.mk.injEq, and_true, true_and]
  funext j
  by_cases hj : j = s'.fresh
  · subst hj
    simp [hzero]
  · simp [update_of_ne hj]

lemma pipeRootCreate_ok (hpath : PipeName path) :
    Sat allowed (pipeRootCreate path excl) s (fun k s' => s'.Ok ∧ s'.rootRef = s.rootRef ∧ k ∈ s'.pipeList)
      (fun _ s' => s' = s) := by
  rw [pipeRootCreate, sat_bind, sat_check hpath, sat_bind]
  refine (pipeEnds_ok h).imp ?_
  rintro ⟨mine, other⟩ s' ⟨rfl, hmine, hother⟩
  cases mine with
  | some k =>
    have hk := hmine.mem k rfl
    dsimp only
    cases excl with
    | true =>
      rw [if_pos rfl, sat_bind]
      have hswap : s.seeing (some k) other = s.addRef fun j => one other j + one (some k) j := by
        unfold seeing
        congr 1
        funext j
        exact Nat.add_comm _ _
      rw [hswap]
      refine (refDec_ok h hk (one other)).imp ?_
      rintro - s' rfl
      rw [sat_bind]
      have hone : one other = fun j => 0 + one other j := by
        funext j
        exact (Nat.zero_add _).symm
      rw [hone]
      refine (refDecOf_ok h hother.mem fun _ => 0).imp ?_
      rintro - s' rfl
      exact addRef_zero
    | false =>
      rw [if_neg (by decide), sat_bind]
      refine (refDecOf_ok h hother.mem (one (some k))).imp ?_
      rintro - s' rfl
      exact ⟨h.addRef _, rfl, hk⟩
  | none =>
    dsimp only
    rw [sat_bind]
    have hsee : s.seeing none other = s.addRef (one other) := by
      unfold seeing
      congr 1
      funext j
      simp [one]
    rw [hsee]
    refine (newState_ok h hother.mem).imp ?_
    intro st s1 hpend
    rw [sat_bind]
    refine (newPipe_ok h hother.mem hpend).imp ?_
    rintro k s2 ⟨rfl, rfl⟩
    have hok := h.withPipe hmine hpend.le hpend.lt
    rw [sat_bind]
    refine (refDecOf_ok hok (fun k hk => .tail _ (hother.mem k hk)) fun _ => 0).imp ?_
    rintro - s3 rfl
    rw [addRef_zero]
    exact ⟨hok, rfl, .head _⟩

def withoutPipe (s : PipeFs) (k st : Nat) : PipeFs :=
  { s with
    pipeList := s.pipeList.erase k
    node := update s.node k none
    stateRef := update s.stateRef st (s.stateRef st - 1) }

lemma Ok.withoutPipe (hk : k ∈ s.pipeList) (hp : s.node k = some p) : (s.withoutPipe k p.state).Ok := by
  have hmem : ∀ j, j ∈ (s.withoutPipe k p.state).pipeList ↔ j ≠ k ∧ j ∈ s.pipeList := fun j => h.nodup.mem_erase_iff
  have hold : ∀ j, j ∈ (s.withoutPipe k p.state).pipeList → (s.withoutPipe k p.state).node j = s.node j :=
    fun j hj => update_of_ne ((hmem j).mp hj).1 ..
  refine ⟨h.nodup.erase k, fun j hj => ?_, fun i hi j hj p q hp hq => ?_, fun st => ?_, fun j hj => ⟨?_, fun q hq => ?_⟩⟩
  · rw [hold j hj]
    exact h.node j ((hmem j).mp hj).2
  · rw [hold i hi] at hp
    rw [hold j hj] at hq
    exact h.one i ((hmem i).mp hi).2 j ((hmem j).mp hj).2 p q hp hq
  · have hcount :
      (s.pipeList.erase k).countP (fun j => ((s.withoutPipe k p.state).node j).any fun q => decide (q.state = st)) =
        (s.pipeList.erase k).countP fun j => (s.node j).any fun q => decide (q.state = st) :=
      List.countP_congr fun j hj => by rw [hold j hj]
    change update s.stateRef p.state (s.stateRef p.state - 1) st = (s.pipeList.erase k).countP _
    rw [hcount, List.countP_erase, ← h.states]
    by_cases hst : st = p.state
    · subst hst
      simp [hp, hk]
    · simp [hst, hp, Ne.symm hst]
  · exact (h.fresh j ((hmem j).mp hj).2).1
  · rw [hold j hj] at hq
    exact (h.fresh j ((hmem j).mp hj).2).2 q hq

lemma Ok.setRef {n : Nat} (hp : s.node k = some p) (hn : 0 < n) :
    ({ s with node := update s.node k (some { p with refCount := n }) } : PipeFs).Ok := by
  have hsame : ∀ j q, update s.node k (some { p with refCount := n }) j = some q →
      ∃ q', s.node j = some q' ∧ q'.name = q.name ∧ q'.readonly = q.readonly ∧ q'.state = q.state := by
    intro j q hq
    by_cases hj : j = k
    · subst hj
      rw [update_self] at hq
      cases hq
      exact ⟨p, hp, rfl, rfl, rfl⟩
    · rw [update_of_ne hj] at hq
      exact ⟨q, hq, rfl, rfl, rfl⟩
  refine ⟨h.nodup, fun j hj => ?_, fun i hi j hj p1 p2 h1 h2 hname hro => ?_, fun st => ?_,
    fun j hj => ⟨(h.fresh j hj).1, ?_⟩⟩
  · by_cases hjk : j = k
    · subst hjk
      obtain ⟨p', hp', -, hcount⟩ := h.node j hj
      cases hp.symm.trans hp'
      exact ⟨_, update_self .., hn, hcount⟩
    · grind [h.node]
  · obtain ⟨q1, hq1, hn1, hr1, -⟩ := hsame i p1 h1
    obtain ⟨q2, hq2, hn2, hr2, -⟩ := hsame j p2 h2
    exact h.one i hi j hj q1 q2 hq1 hq2 (hn1.trans (hname.trans hn2.symm)) (hr1.trans (hro.trans hr2.symm))
  · change s.stateRef st = _
    grind [h.states]
  · intro q hq
    obtain ⟨q', hq', -, -, hst⟩ := hsame j q hq
    exact hst ▸ (h.fresh j hj).2 q' hq'

lemma release_ok (hk : k ∈ s.pipeList) : Sat allowed (refDec k) s (fun _ s' => s'.Ok) E := by
  obtain ⟨p, hp, href, hcount⟩ := h.node k hk
  rw [refDec, sat_bind, sat_pin hp, sat_bind, sat_check href, sat_bind, setPin, sat_modify]
  by_cases hlast : p.refCount - 1 = 0
  · have hnode : ({ s with node := update s.node k (some { p with refCount := p.refCount - 1 }) } : PipeFs).node k =
        some { p with refCount := p.refCount - 1 } := update_self ..
    have hpos := h.stateRef_pos hk hp
    rw [sat_when hlast, sat_bind, sat_attempt, reclaim, sat_bind, sat_pin hnode, sat_bind, sat_check (by simp [hcount]),
      if_neg (by simp [hcount, hlast]), sat_bind, sat_modify, sat_bind, stateRelease, sat_bind, sat_get, sat_bind]
    refine (sat_check hpos).mpr ?_
    have hok := h.withoutPipe hk hp
    simpa [setPin, withoutPipe] using hok
  · rw [sat_when_not hlast]
    exact h.setRef hp (by omega)

lemma step_ok {c : PipeCall} (ha : s.Allowed c) : Safe (fun _ => False) (s.step c) Ok := by
  cases c with
  | lookup path =>
    refine exec_safe ((pipeRootLookup_ok h ha).mono ?_ ?_)
    · rintro k s' ⟨rfl, -⟩
      exact h.addRef _
    · rintro e s' rfl
      exact h
  | create path excl =>
    refine exec_safe ((pipeRootCreate_ok h ha).mono (fun _ _ hs' => hs'.1) ?_)
    rintro e s' rfl
    exact h
  | dup k =>
    obtain ⟨p, hp, -⟩ := h.node k ha
    refine exec_safe ?_
    rw [sat_bind, sat_pin hp, setPin, sat_modify]
    exact h.setRef hp (Nat.succ_pos _)
  | release k => exact exec_safe (release_ok h ha)

end

lemma boot_ok : (boot n).Ok :=
  ⟨List.nodup_nil, (fun _ hk => by cases hk), (fun _ hk => by cases hk), (fun _ => rfl), (fun _ hk => by cases hk)⟩

lemma Reached.ok (h : Reached s) : s.Ok :=
  h.invariant (P := Ok) (fun _ ⟨_, hs⟩ => hs ▸ boot_ok) fun _ _ _ hok ha hs => (step_ok hok ha).of_eq hs

end PipeFs

end Ucore.Fs.Pipe
