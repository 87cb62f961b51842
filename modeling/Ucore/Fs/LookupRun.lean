import Ucore.Fs.Lookup
import Ucore.Fs.Pipe.RootOk
import Ucore.Fs.RunOk

/-!
# Which strings the lookups accept

On a well-formed system a lookup stops at an assertion for exactly those strings that
name the pipe file system and then something that is not the end of a pipe.
-/

namespace Ucore.Fs.Vfs

open Lib (Reachable)
open Lib.Cmd
open Multiset (mem_cons_self mem_cons_of_mem)

variable {v v' : Vfs} {held : Multiset Nat} {tree excl : Bool} {allowed : Panic → Prop} {cwd : Option Nat}
  {E : Errno → Vfs → Prop}
  {path rest : List Char} {i : Nat} {Q : α → Vfs → Prop} {x : VfsM α} {devname : Name}

inductive Origin
  | cwd
  | bootfs
  | root
  | device (devname : Name)
  deriving DecidableEq, Repr

def origin (path : List Char) : Origin × List Char :=
  match firstMark path with
  | none => (.cwd, path)
  | some (0, c) => (if c = '/' then .bootfs else .root, skipSlashes path.tail)
  | some (i + 1, c) => if c = ':' then (.device (path.take (i + 1)), skipSlashes (path.drop (i + 2))) else (.cwd, path)

def beginAt (cwd : Option Nat) : Origin → VfsM Inode
  | .cwd => vfsGetCurdir cwd
  | .bootfs => vfsGetBootfs
  | .root => do
    let node ← vfsGetCurdir cwd
    let root ← fsopGetRoot .sfs
    vopRefDec node
    pure root
  | .device devname => vfsGetRoot devname

lemma firstMark_some {c : Char} (h : firstMark path = some (i, c)) :
    (c = ':' ∨ c = '/') ∧ (i = 0 → path.head? = some c) := by
  induction path generalizing i with
  | nil => cases h
  | cons d path ih => grind [firstMark.eq_2, Option.map_eq_some_iff]

lemma sat_getDevice {Q : Inode × List Char → Vfs → Prop} : Sat allowed (getDevice cwd path) v Q E ↔
    Sat allowed (beginAt cwd (origin path).1) v (fun node v' => Q (node, (origin path).2) v') E := by
  unfold getDevice origin markAt
  cases hm : firstMark path with
  | none => simp [beginAt]
  | some m =>
    obtain ⟨i, c⟩ := m
    obtain ⟨hc, hhead⟩ := firstMark_some hm
    cases i with
    | zero =>
      specialize hhead rfl
      rcases hc with rfl | rfl
      · simp [hhead, beginAt, sat_check]
      · simp [hhead, beginAt]
    | succ i =>
      rcases hc with rfl | rfl
      · simp [beginAt]
      · simp [beginAt]

lemma relative_origin (h : (origin path).2 ≠ []) : Relative (origin path).2 := by
  unfold origin at h ⊢
  cases hm : firstMark path with
  | none =>
    rw [hm] at h
    refine ⟨h, fun hhead => ?_⟩
    grind [firstMark, List.head?_eq_some_iff]
  | some m =>
    obtain ⟨i, c⟩ := m
    rw [hm] at h
    cases i with
    | zero => exact relative_dropWhile _ h
    | succ i =>
      dsimp only at h ⊢
      grind [firstMark, List.head?_eq_some_iff, relative_dropWhile, Relative, skipSlashes]

structure Ready (held : Multiset Nat) (tree : Bool) (cwd : Option Nat) (v : Vfs) : Prop where
  good : Sfs.Good held tree v.sfs
  pipes : v.pipes.Ok
  bootfs : ∀ i, v.bootfs = some i → i = blknRoot
  cwd : ∀ i, cwd = some i → i ∈ held

/-- Every `open` of an inode holds a reference to it, and one more reference is not one
too many for `inode_check`. -/
def Countable (held : Multiset Nat) (v : Vfs) (node : Inode) : Prop :=
  match node with
  | .sfs i => v.openCount node ≤ held.count i ∧ held.count i + 1 < maxInodeCount
  | .pipeRoot => v.openCount node ≤ v.pipes.rootRef ∧ v.pipes.rootRef + 1 < maxInodeCount
  | .device devname => v.openCount node ≤ v.devRef devname ∧ v.devRef devname + 1 < maxInodeCount
  | .pipe _ => True

/-- The inode that `get_device` finds. -/
def startNode (v : Vfs) (cwd : Option Nat) : Origin → Option Inode
  | .cwd => cwd.map .sfs
  | .bootfs => v.bootfs.map .sfs
  | .root => some (.sfs blknRoot)
  | .device devname =>
    (v.vdevList.find? fun vdev => vdev.devname = devname).bind fun vdev =>
      match vdev.fs with
      | some .sfs => some (.sfs blknRoot)
      | some .pipe => some .pipeRoot
      | none => some (.device devname)

lemma sat_thenRefDec {node : Inode} : Sat allowed (thenRefDec node x) v Q E ↔
    Sat allowed x v (fun a v' => Sat allowed (vopRefDec node) v' (fun _ => Q a) E)
    (fun e v' => Sat allowed (vopRefDec node) v' (fun _ => E e) E) := by
  simp [thenRefDec]

lemma sat_onSfs {x : FsM α} : Sat allowed (onSfs x) v Q E ↔
    Sat allowed x v.sfs (fun a s => Q a { v with sfs := s }) (fun e s => E e { v with sfs := s }) := sat_zoom

lemma sat_onPipes {x : Pipe.PipeM α} : Sat allowed (onPipes x) v Q E ↔
    Sat allowed x v.pipes (fun a p => Q a { v with pipes := p }) (fun e p => E e { v with pipes := p }) := sat_zoom

lemma sat_inodeCheck {node : Inode} {n : Nat} {Q : Unit → Vfs → Prop}
    (href : ∀ Q : Nat → Vfs → Prop, Sat allowed (refCount node) v Q E ↔ Q n v)
    (hopen : v.openCount node ≤ n) (hn : n < maxInodeCount) : Sat allowed (inodeCheck node) v Q E ↔ Q () v := by
  rw [inodeCheck, sat_bind, href, sat_bind, sat_get, sat_bind, sat_check hopen]
  exact sat_check ⟨hn, Nat.lt_of_le_of_lt hopen hn⟩

lemma sat_refCount {Q : Nat → Vfs → Prop} (h : Sfs.Good held tree v.sfs) (hi : i ∈ held) :
    Sat allowed (refCount (.sfs i)) v Q E ↔ Q (held.count i) v := by
  obtain ⟨f, hf⟩ := h.ok.file_of_mem hi
  obtain ⟨x, hx, -, hcore⟩ := Sfs.node_of_ref hf (h.ok.refCount_ne_zero hi)
  have href : x.refCount = held.count i := by
    rw [← h.ok.refs, hcore]
    rfl
  rw [refCount, sat_bind, sat_onSfs, Sfs.sat_sin hx, sat_pure, href]

lemma sat_call {x : FsM α} {f : α → β} {Q : β → Vfs → Prop} (h : Sfs.Good held tree v.sfs)
    (hi : i ∈ held) (hopen : v.openCount (.sfs i) ≤ held.count i) (hc : held.count i < maxInodeCount) :
    Sat allowed (thenRefDec (.sfs i) (do inodeCheck (.sfs i); let a ← onSfs x; pure (f a))) v Q E ↔
    Sat allowed (Fs.thenRefDec i x) v.sfs (fun a s => Q (f a) { v with sfs := s })
        (fun e s => E e { v with sfs := s }) := by
  rw [sat_thenRefDec, Sfs.sat_thenRefDec, sat_bind, sat_inodeCheck (fun _ => sat_refCount h hi) hopen hc, sat_bind,
    sat_onSfs]
  simp only [sat_pure, vopRefDec, sat_onSfs]

def AtPipes (v : Vfs) : Origin → Prop
  | .device devname => ∃ vdev, v.vdevList.find? (fun vdev => vdev.devname = devname) = some vdev ∧ vdev.fs = some .pipe
  | _ => False

structure Moved (held : Multiset Nat) (tree : Bool) (v : Vfs) (i : Nat) (v' : Vfs) : Prop where
  good : Sfs.Good (i ::ₘ held) tree v'.sfs
  quiet : Sfs.Quiet v.sfs v'.sfs
  opens : v'.openCount = v.openCount

lemma Moved.countable (h : Moved held tree v i v') (hc : v.Countable held (.sfs i)) :
    v'.openCount (.sfs i) ≤ (i ::ₘ held).count i ∧ (i ::ₘ held).count i < maxInodeCount := by
  rw [h.opens, Multiset.count_cons_self]
  exact ⟨Nat.le_succ_of_le hc.1, hc.2⟩

def Begun (held : Multiset Nat) (tree : Bool) (cwd : Option Nat) (o : Origin) (v : Vfs)
    (node : Inode) (v' : Vfs) : Prop :=
  v.startNode cwd o = some node ∧
    match node with
    | .sfs i => i ∈ held ∧ Moved held tree v i v' ∧ (i = blknRoot ∨ o = .cwd ∧ cwd = some i)
    | .device devname => v' = v.addDevice devname (· + 1)
    | _ => False

lemma getSfsRoot_ok (h : Sfs.Good held tree v.sfs) :
    Sat allowed (fsopGetRoot .sfs) v
    (fun node v' => node = .sfs blknRoot ∧ Moved held tree v blknRoot v') (fun _ _ => False) := by
  obtain ⟨f, hf, hl⟩ := h.ok.root_live
  rw [fsopGetRoot, sat_bind, sat_onSfs]
  refine (Sfs.loadInode_good h hf hl).imp ?_
  rintro - s ⟨hgood, hq⟩
  exact ⟨rfl, hgood, hq, rfl⟩

lemma device_release :
    Sat allowed (vopRefDec (.device devname)) (v.addDevice devname (· + 1)) (fun _ _ => True) E := by
  simp [addDevice, refCount.eq_4, sat_check, vopRefDec.eq_4]

lemma sat_refDevice {Q : Nat → Vfs → Prop} :
    Sat allowed (refCount (.device devname)) (v.addDevice devname (· + 1)) Q E ↔
    Q (v.devRef devname + 1) (v.addDevice devname (· + 1)) := by
  rw [refCount, sat_bind, sat_get, sat_pure]
  simp [addDevice]

lemma device_fails {e : Errno} (hc : v.Countable held (.device devname)) :
    Sat allowed (thenRefDec (.device devname) (do inodeCheck (.device devname); fail e)) (v.addDevice devname (· + 1)) Q
    (fun _ _ => True) := by
  rw [sat_thenRefDec, sat_bind, sat_inodeCheck (fun _ => sat_refDevice) (Nat.le_succ_of_le hc.1) hc.2, sat_fail]
  exact device_release

lemma origin_cwd (h : (origin path).1 = .cwd) : (origin path).2 = path := by
  unfold origin at h ⊢
  grind

section

variable (h : Ready held tree cwd v)
include h

lemma vfsGetCurdir_ok :
    Sat allowed (vfsGetCurdir cwd) v
    (fun node v' => ∃ i, node = .sfs i ∧ cwd = some i ∧ i ∈ held ∧ Moved held tree v i v')
      (fun _ _ => True) := by
  cases cwd with
  | none => trivial
  | some i =>
    have hi := h.cwd i rfl
    rw [vfsGetCurdir, sat_bind, vopRefInc, sat_onSfs]
    refine (Sfs.refInc_good h.good hi).imp ?_
    rintro - s ⟨hgood, hq⟩
    exact ⟨i, rfl, rfl, hi, hgood, hq, rfl⟩

lemma beginAt_ok {o : Origin} (ho : ¬ v.AtPipes o) :
    Sat allowed (beginAt cwd o) v (Begun held tree cwd o v) (fun _ _ => True) := by
  have hroot := h.good.ok.root
  cases o with
  | cwd =>
    refine (vfsGetCurdir_ok h).imp ?_
    rintro node v' ⟨i, rfl, hi, hmem, hmoved⟩
    exact ⟨by rw [startNode, hi]; rfl, hmem, hmoved, .inr ⟨rfl, hi⟩⟩
  | bootfs =>
    have hready : Ready held tree v.bootfs v := ⟨h.good, h.pipes, h.bootfs, fun i hi => h.bootfs i hi ▸ hroot⟩
    rw [beginAt, vfsGetBootfs, sat_bind, sat_get]
    refine (vfsGetCurdir_ok hready).imp ?_
    rintro node v' ⟨i, rfl, hi, hmem, hmoved⟩
    exact ⟨by rw [startNode, hi]; rfl, hmem, hmoved, .inl (h.bootfs i hi)⟩
  | root =>
    rw [beginAt, sat_bind]
    refine (vfsGetCurdir_ok h).imp ?_
    rintro node v1 ⟨i, rfl, -, hi, h1⟩
    refine (getSfsRoot_ok h1.good).bind ?_ fun _ _ hE => hE.elim
    rintro node v2 ⟨rfl, h2⟩
    have hgood := h2.good
    rw [Multiset.cons_swap] at hgood
    rw [sat_bind, vopRefDec, sat_onSfs]
    refine (Sfs.release_good hgood (mem_cons_of_mem hroot) (.inl (mem_cons_of_mem hi))).imp ?_
    rintro - s ⟨h3, hq3⟩
    exact ⟨rfl, hroot, ⟨h3, h1.quiet.trans (h2.quiet.trans hq3), h2.opens.trans h1.opens⟩, .inl rfl⟩
  | device devname =>
    rw [beginAt, vfsGetRoot, sat_bind, sat_get]
    cases hfind : v.vdevList.find? fun vdev => vdev.devname = devname with
    | none => trivial
    | some vdev =>
      dsimp only
      cases hfs : vdev.fs with
      | none =>
        dsimp only
        split
        · trivial
        · exact ⟨by simp [startNode, hfind, hfs], rfl⟩
      | some type =>
        cases type with
        | pipe => exact absurd ⟨vdev, hfind, hfs⟩ ho
        | sfs =>
          refine (getSfsRoot_ok h.good).mono ?_ fun _ _ hE => hE.elim
          rintro node v' ⟨rfl, hmoved⟩
          exact ⟨by simp [startNode, hfind, hfs], hroot, hmoved, .inl rfl⟩

/-- A relative path that begins with `..` begins in a directory whose parent is
still there. -/
def SureFrom (v : Vfs) (cwd : Option Nat) (path : List Char) (names : List Name) : Prop :=
  (origin path).1 = .cwd → ∀ i, cwd = some i → v.sfs.vol.Sure i names

/-- The directory in which the last name of the path is looked for. -/
def Parent (v : Vfs) (cwd : Option Nat) (path : List Char) (d : Nat) : Prop :=
  ∃ i last, v.startNode cwd (origin path).1 = some (.sfs i) ∧
    v.sfs.vol.lookupParent i (split (origin path).2) = .ok (d, last)

def StartCountable (v : Vfs) (held : Multiset Nat) (cwd : Option Nat) (path : List Char) : Prop :=
  (origin path).2 ≠ [] → ∀ node, v.startNode cwd (origin path).1 = some node → v.Countable held node

omit h in
lemma Begun.sure {f : List Name → List Name} (h : Begun held tree cwd (origin path).1 v (.sfs i) v')
    (hgood : Sfs.Good held tree v.sfs) (hsure : v.SureFrom cwd path (f (split path))) :
    v'.sfs.vol.Sure i (f (split (origin path).2)) := by
  obtain ⟨-, -, hmoved, rfl | ⟨ho, hi⟩⟩ := h
  · exact hmoved.quiet.same.sure (hgood.ok.sure_of_live hgood.ok.root_live)
  · rw [origin_cwd ho]
    exact hmoved.quiet.same.sure (hsure ho i hi)

section

variable (hc : v.StartCountable held cwd path) (ho : ¬ v.AtPipes (origin path).1)
include hc ho

lemma vfsLookup_ok
    (hsure : v.SureFrom cwd path (split path)) :
    Sat allowed (vfsLookup cwd path) v (fun _ _ => True) (fun _ _ => True) := by
  rw [vfsLookup, sat_bind, sat_getDevice]
  refine (beginAt_ok h ho).mono ?_ fun _ _ _ => trivial
  intro node v1 hbegun
  dsimp only
  by_cases hrest : (origin path).2 = []
  · rw [if_neg (by simpa using hrest)]
    trivial
  rw [if_pos hrest]
  cases node with
  | sfs i =>
    have hs := hbegun.sure (f := id) h.good hsure
    obtain ⟨hstart, hi, hmoved, -⟩ := hbegun
    have hmem := mem_cons_self i held
    obtain ⟨hopen, hcount⟩ := hmoved.countable (hc hrest _ hstart)
    refine (sat_call hmoved.good hmem hopen hcount).mpr ?_
    rw [Sfs.sat_thenRefDec]
    refine ((Sfs.sfsLookup_good hmoved.good hmem hs).congr (sfsLookupChars_eq (relative_origin hrest))).mono ?_ ?_
    · rintro j s ⟨hgood, -⟩
      rw [Multiset.cons_swap] at hgood
      have hroot : blknRoot ∈ j ::ₘ held := mem_cons_of_mem h.good.ok.root
      exact (Sfs.release_good hgood hroot (.inl (mem_cons_of_mem hi))).imp (fun _ _ _ => trivial)
    · rintro e s ⟨hfails, -⟩
      exact (Sfs.release_good hfails.good h.good.ok.root (.inl hi)).imp (fun _ _ _ => trivial)
  | device devname =>
    obtain ⟨hstart, rfl⟩ := hbegun
    have hvop : vopLookup (.device devname) (origin path).2 = (do inodeCheck (.device devname); fail .noent) := by
      rw [vopLookup]
      simp only [if_pos hrest]
    rw [hvop]
    exact device_fails (hc hrest _ hstart)
  | pipeRoot => exact hbegun.2.elim
  | pipe k => exact hbegun.2.elim

lemma vfsLookupParent_ok
    (hsure : v.SureFrom cwd path (split path).dropLast) :
    Sat allowed (vfsLookupParent cwd path) v
      (fun r v' => ∃ d, r.1 = .sfs d ∧ v.Parent cwd path d ∧ Moved held tree v d v' ∧ v.sfs.vol.Secure held d ∧
        v'.sfs.vol.isDir d = true)
      (fun _ _ => True) := by
  rw [vfsLookupParent, sat_bind, sat_getDevice]
  refine (beginAt_ok h ho).mono ?_ fun _ _ _ => trivial
  intro node v1 hbegun
  dsimp only
  cases node with
  | sfs i =>
    have hs := hbegun.sure (f := List.dropLast) h.good hsure
    obtain ⟨hstart, hi, hmoved, -⟩ := hbegun
    have hmem := mem_cons_self i held
    by_cases hrest : (origin path).2 = []
    · rw [if_neg (by simpa using hrest), sat_thenRefDec, sat_fail, vopRefDec, sat_onSfs]
      exact (Sfs.release_good hmoved.good h.good.ok.root (.inl hi)).imp (fun _ _ _ => trivial)
    rw [if_pos hrest]
    obtain ⟨hopen, hcount⟩ := hmoved.countable (hc hrest _ hstart)
    refine (sat_call (f := fun r : Nat × Name => (Inode.sfs r.1, r.2)) hmoved.good hmem hopen hcount).mpr ?_
    obtain ⟨name, names, hnames⟩ := components_cons (Nat.succ_pos (origin path).2.length) (origin path).2
    rw [split, hnames] at hs
    rw [Sfs.sat_thenRefDec]
    refine ((Sfs.sfsLookupParent_good hmoved.good hmem hs).congr
      (sfsLookupParentChars_eq (relative_origin hrest) hnames)).mono ?_ ?_
    · rintro ⟨d, last⟩ s ⟨hgood, hq, hwalk, hsec, hdir⟩
      rw [Multiset.cons_swap] at hgood
      have hroot : blknRoot ∈ d ::ₘ held := mem_cons_of_mem h.good.ok.root
      refine (Sfs.release_good hgood hroot (.inl (mem_cons_of_mem hi))).imp ?_
      rintro - s' ⟨hgood', hq'⟩
      have hdir' : s'.vol.isDir d = true := by rw [(hq.trans hq').same.isDir, hdir]
      have hparent : v.Parent cwd path d := by
        refine ⟨i, last, hstart, ?_⟩
        rw [split, hnames]
        exact (hmoved.quiet.same.walkParent i name names).symm.trans hwalk
      exact ⟨d, rfl, hparent, ⟨hgood', hmoved.quiet.trans (hq.trans hq'), hmoved.opens⟩,
        hmoved.quiet.secure.mp (Sfs.secure_of_borrowed hi hsec), hdir'⟩
    · rintro e s ⟨hfails, -⟩
      exact (Sfs.release_good hfails.good h.good.ok.root (.inl hi)).imp (fun _ _ _ => trivial)
  | device devname =>
    obtain ⟨hstart, rfl⟩ := hbegun
    by_cases hrest : (origin path).2 = []
    · rw [if_neg (by simpa using hrest), sat_thenRefDec, sat_fail]
      exact device_release
    · rw [if_pos hrest]
      exact device_fails (hc hrest _ hstart)
  | pipeRoot => exact hbegun.2.elim
  | pipe k => exact hbegun.2.elim

lemma vfsOpenCreate_ok
    (hsure : v.SureFrom cwd path (split path).dropLast)
    (hparent : ∀ d, v.Parent cwd path d → v.Countable held (.sfs d)) :
    Sat allowed (vfsOpenCreate cwd path excl) v (fun _ _ => True) (fun _ _ => True) := by
  rw [vfsOpenCreate]
  refine (vfsLookupParent_ok h hc ho hsure).bind ?_ fun _ _ _ => trivial
  rintro ⟨node, name⟩ v1 ⟨d, rfl, hd, hmoved, hsec, hdir⟩
  have hmem := mem_cons_self d held
  obtain ⟨hopen, hcount⟩ := hmoved.countable (hparent d hd)
  refine (sat_call hmoved.good hmem hopen hcount).mpr ?_
  have hP : ∃ n, Vol.Only d name d n := ⟨name, rfl, rfl⟩
  have hroot : ∀ i, blknRoot ∈ i ::ₘ held := fun i => mem_cons_of_mem h.good.ok.root
  refine (Sfs.inDir_good (P := Vol.Only d name) (H := fun i => i ::ₘ held) hroot h.good (hmoved.quiet.secure.mpr hsec)
    hmoved.quiet hP ?_).mono (fun _ _ _ => trivial) fun _ _ _ => trivial
  refine (Sfs.sfsCreate_good hmoved.good hmem hdir).imp (fun i s' hn => ?_)
  rw [Multiset.cons_swap]
  exact hn.1

end

end

lemma sat_beginAt_pipes {o : Origin} {Q : Inode → Vfs → Prop} (ho : v.AtPipes o) :
    Sat allowed (beginAt cwd o) v Q E ↔ Q .pipeRoot (v.addPipeRoot (· + 1)) := by
  cases o with
  | device devname =>
    obtain ⟨vdev, hfind, hfs⟩ := ho
    rw [beginAt, vfsGetRoot, sat_bind, sat_get, hfind]
    dsimp only
    rw [hfs]
    exact Iff.rfl
  | cwd => exact ho.elim
  | bootfs => exact ho.elim
  | root => exact ho.elim

lemma sat_checkPipes {Q : Unit → Vfs → Prop} (hc : v.Countable held .pipeRoot) :
    Sat allowed (inodeCheck .pipeRoot) (v.addPipeRoot (· + 1)) Q E ↔ Q () (v.addPipeRoot (· + 1)) := by
  refine sat_inodeCheck (n := v.pipes.rootRef + 1) (fun Q => ?_) (Nat.le_succ_of_le hc.1) hc.2
  rw [refCount, sat_bind, sat_get, sat_pure]
  exact Iff.rfl

lemma sat_releasePipes {Q : Unit → Vfs → Prop} (hc : 0 < v.pipes.rootRef) :
    Sat allowed (vopRefDec .pipeRoot) v Q E ↔ Q () (v.addPipeRoot (· - 1)) := by
  rw [vopRefDec, sat_bind, refCount, sat_bind, sat_get, sat_pure, sat_bind, sat_check hc, sat_modify]

lemma pipes_ok (h : v.pipes.Ok) (n : Nat) : ({ v.pipes with rootRef := n } : Pipe.PipeFs).Ok :=
  ⟨h.nodup, h.node, h.one, h.states, h.fresh⟩

section

variable (hc : v.StartCountable held cwd path) (ho : v.AtPipes (origin path).1)
include hc ho

lemma pipeRoot_countable (hrest : (origin path).2 ≠ []) : v.Countable held .pipeRoot := by
  refine hc hrest _ ?_
  cases horigin : (origin path).1 with
  | device devname =>
    rw [horigin] at ho
    obtain ⟨vdev, hfind, hfs⟩ := ho
    simp [startNode, hfind, hfs]
  | _ =>
    rw [horigin] at ho
    exact ho.elim

lemma lookupPipe_returns (h : v.pipes.Ok)
    (hpath : (origin path).2 = [] ∨ Pipe.PipeName (origin path).2) :
    Sat allowed (vfsLookup cwd path) v (fun _ _ => True) (fun _ _ => True) := by
  rw [vfsLookup, sat_bind, sat_getDevice, sat_beginAt_pipes ho]
  dsimp only
  by_cases hrest : (origin path).2 = []
  · rw [if_neg (by simpa using hrest)]
    trivial
  have hname := hpath.resolve_left hrest
  rw [if_pos hrest, sat_thenRefDec, vopLookup, sat_bind,
    sat_checkPipes (pipeRoot_countable hc ho hrest), sat_bind, sat_onPipes]
  refine (Pipe.PipeFs.pipeRootLookup_ok (pipes_ok h _) hname).mono ?_ ?_
  · rintro k p ⟨rfl, -⟩
    rw [sat_pure]
    exact (sat_releasePipes (Nat.succ_pos _)).mpr trivial
  · simp [sat_releasePipes]

lemma lookupParentPipe_returns (hpath : (origin path).2 = [] ∨ Pipe.PipeName (origin path).2) :
    Sat allowed (vfsLookupParent cwd path) v
    (fun r v' => r.1 = .pipeRoot ∧ (origin path).2 ≠ [] ∧ Pipe.PipeName r.2 ∧ v' = v.addPipeRoot (· + 1))
    (fun _ _ => True) := by
  rw [vfsLookupParent, sat_bind, sat_getDevice, sat_beginAt_pipes ho]
  dsimp only
  by_cases hrest : (origin path).2 = []
  · rw [if_neg (by simpa using hrest), sat_thenRefDec, sat_fail]
    exact (sat_releasePipes (Nat.succ_pos _)).mpr trivial
  have hname := hpath.resolve_left hrest
  rw [if_pos hrest, sat_thenRefDec, vopLookupParent, sat_bind, sat_checkPipes
    (pipeRoot_countable hc ho hrest), sat_bind, sat_onPipes, Pipe.pipeRootLookupParent,
    sat_bind, sat_check hname, sat_bind, sat_modify, sat_pure, sat_pure]
  exact (sat_releasePipes (Nat.succ_pos _)).mpr ⟨rfl, hrest, hname, rfl⟩

lemma openCreatePipe_returns (h : v.pipes.Ok)
    (hpath : (origin path).2 = [] ∨ Pipe.PipeName (origin path).2) :
    Sat allowed (vfsOpenCreate cwd path excl) v (fun _ _ => True) (fun _ _ => True) := by
  rw [vfsOpenCreate]
  refine (lookupParentPipe_returns hc ho hpath).bind ?_ fun _ _ _ => trivial
  rintro ⟨node, name⟩ v' ⟨hnode, hrest, hname, rfl⟩
  dsimp only at hnode hname ⊢
  subst hnode
  rw [sat_thenRefDec, vopCreate, sat_bind, sat_checkPipes (pipeRoot_countable hc ho hrest), sat_bind, sat_onPipes]
  refine (Pipe.PipeFs.pipeRootCreate_ok (pipes_ok h _) hname).mono ?_ ?_
  · grind [sat_releasePipes, sat_pure]
  · simp [sat_releasePipes]

section

variable (hrest : (origin path).2 ≠ []) (hname : ¬ Pipe.PipeName (origin path).2)
include hrest hname

lemma lookupPipe_stops :
    Sat (fun _ => True) (vfsLookup cwd path) v (fun _ _ => False) (fun _ _ => False) := by
  rw [vfsLookup, sat_bind, sat_getDevice, sat_beginAt_pipes ho]
  dsimp only
  rw [if_pos hrest, sat_thenRefDec, vopLookup, sat_bind, sat_checkPipes
    (pipeRoot_countable hc ho hrest), sat_bind, sat_onPipes, Pipe.pipeRootLookup, sat_bind, check,
    if_neg hname]
  trivial

lemma lookupParentPipe_stops :
    Sat (fun _ => True) (vfsLookupParent cwd path) v (fun _ _ => False) (fun _ _ => False) := by
  rw [vfsLookupParent, sat_bind, sat_getDevice, sat_beginAt_pipes ho]
  dsimp only
  rw [if_pos hrest, sat_thenRefDec, vopLookupParent, sat_bind, sat_checkPipes
    (pipeRoot_countable hc ho hrest), sat_bind, sat_onPipes, Pipe.pipeRootLookupParent,
    sat_bind, check, if_neg hname]
  trivial

end

end

def Returns (x : VfsM α) (v : Vfs) : Prop := ∃ r, x v = .ok r

lemma returns_of_sat (h : Sat (fun _ => False) x v Q E) : Returns x v := by
  unfold Sat at h
  grind [Returns]

lemma not_returns (h : Sat (fun _ => True) x v (fun _ _ => False) (fun _ _ => False)) : ¬ Returns x v := by
  grind [Sat, Returns]

def NamesPipe (v : Vfs) (path : List Char) : Prop :=
  v.AtPipes (origin path).1 → (origin path).2 = [] ∨ Pipe.PipeName (origin path).2

lemma returns_iff (hgood : ¬ v.AtPipes (origin path).1 → Returns x v)
    (hpipe : v.AtPipes (origin path).1 → (origin path).2 = [] ∨ Pipe.PipeName (origin path).2 → Returns x v)
    (hstop : v.AtPipes (origin path).1 → (origin path).2 ≠ [] → ¬ Pipe.PipeName (origin path).2 → ¬ Returns x v) :
    Returns x v ↔ v.NamesPipe path := by
  constructor
  · grind [NamesPipe]
  · grind [NamesPipe]

def boot (blocks : Nat) : Vfs where
  sfs := .format blocks false
  pipes := .boot 1
  vdevList :=
    [⟨['p', 'i', 'p', 'e'], some .pipe, false⟩, ⟨['d', 'i', 's', 'k', '0'], some .sfs, true⟩,
      ⟨['s', 't', 'd', 'o', 'u', 't'], none, false⟩,
      ⟨['s', 't', 'd', 'i', 'n'], none, false⟩, ⟨['n', 'u', 'l', 'l'], none, false⟩]
  devRef := fun _ => 1
  openCount := fun _ => 0
  bootfs := some blknRoot

/-- In every reached state of the file system and of the pipes the three calls
return for exactly the strings that do not ask the pipes for anything but the
end of a pipe. -/
theorem lookups_return_iff {pinned : Bool} {w : World} (hw : w.Reached pinned tree) (hp : v.pipes.Reached)
    (hv : v.sfs = w.fs) (hboot : ∀ i, v.bootfs = some i → i = blknRoot) (hcwd : ∀ i, cwd = some i → i ∈ w.held)
    (path : List Char) (hc : v.StartCountable w.held cwd path) :
    (v.SureFrom cwd path (split path) → (Returns (vfsLookup cwd path) v ↔ v.NamesPipe path)) ∧
    (v.SureFrom cwd path (split path).dropLast → (Returns (vfsLookupParent cwd path) v ↔ v.NamesPipe path) ∧
    ((∀ d, v.Parent cwd path d → v.Countable w.held (.sfs d)) →
    ∀ excl, Returns (vfsOpenCreate cwd path excl) v ↔ v.NamesPipe path)) := by
  have hready : Ready w.held tree cwd v := ⟨hv ▸ hw.mounted.good, hp.ok, hboot, hcwd⟩
  refine ⟨fun hsure => ?_, fun hsure => ⟨?_, fun hparent excl => ?_⟩⟩
  · refine returns_iff (fun ho => ?_) (fun ho hpath => ?_) fun ho hrest hname => ?_
    · exact returns_of_sat (vfsLookup_ok hready hc ho hsure)
    · exact returns_of_sat (lookupPipe_returns hc ho hp.ok hpath)
    · exact not_returns (lookupPipe_stops hc ho hrest hname)
  · refine returns_iff (fun ho => ?_) (fun ho hpath => ?_) fun ho hrest hname => ?_
    · exact returns_of_sat (vfsLookupParent_ok hready hc ho hsure)
    · exact returns_of_sat (lookupParentPipe_returns hc ho hpath)
    · exact not_returns (lookupParentPipe_stops hc ho hrest hname)
  · refine returns_iff (fun ho => ?_) (fun ho hpath => ?_) fun ho hrest hname => ?_
    · exact returns_of_sat (vfsOpenCreate_ok hready hc ho hsure hparent)
    · exact returns_of_sat (openCreatePipe_returns hc ho hp.ok hpath)
    · refine not_returns ?_
      rw [vfsOpenCreate, sat_bind]
      exact (lookupParentPipe_stops hc ho hrest hname).imp (fun _ _ hE => hE.elim)

/-- The end of a pipe is created where there is none. -/
theorem lookups_return_pipe : (boot 100).AtPipes (origin ['p', 'i', 'p', 'e', ':', 'r', '_', 'x']).1 ∧
    Returns (vfsOpenCreate (some blknRoot) ['p', 'i', 'p', 'e', ':', 'r', '_', 'x'] true) (boot 100) := by
  have ho : (boot 100).AtPipes (origin ['p', 'i', 'p', 'e', ':', 'r', '_', 'x']).1 := ⟨_, rfl, rfl⟩
  have hn : (boot 100).NamesPipe ['p', 'i', 'p', 'e', ':', 'r', '_', 'x'] := fun _ => .inr (by decide)
  have hw : (World.boot 100 false).Reached false true := .init (World.boot_mounted (by decide))
  have hp : (boot 100).pipes.Reached := .init ⟨1, rfl⟩
  have hc : (boot 100).StartCountable (World.boot 100 false).held (some blknRoot)
    ['p', 'i', 'p', 'e', ':', 'r', '_', 'x'] := by
    rintro - node hnode
    obtain rfl : Inode.pipeRoot = node := Option.some.inj hnode
    exact ⟨by decide, by decide⟩
  have hcwd : ∀ i, some blknRoot = some i → i ∈ (World.boot 100 false).held := by
    rintro i ⟨⟩
    exact Multiset.mem_singleton_self _
  have hboot : ∀ i, (boot 100).bootfs = some i → i = blknRoot := fun i hi => (Option.some.inj hi).symm
  have h := lookups_return_iff hw hp rfl hboot hcwd _ hc
  refine ⟨ho, ((h.2 fun hcwd => ?_).2 ?_ true).mpr hn⟩
  · exact absurd hcwd (by decide)
  · rintro d ⟨i, last, hstart, -⟩
    cases hstart

/-- A path that names the pipes and then no end of a pipe. -/
theorem pipe_path_stops : vfsLookup (some blknRoot) ['p', 'i', 'p', 'e', ':', 'x'] (boot 100) = .error .assertion ∧
    vfsLookupParent (some blknRoot) ['p', 'i', 'p', 'e', ':', 'x'] (boot 100) = .error .assertion ∧
    vfsOpenCreate (some blknRoot) ['p', 'i', 'p', 'e', ':', 'x'] false (boot 100) = .error .assertion :=
  ⟨rfl, rfl, rfl⟩

def names (path : List Char) : List Name := (path.splitOn '/').filter (· ≠ [])

lemma names_dropWhile (path : List Char) : names (path.dropWhile (· = '/')) = names path := by
  induction path with
  | nil => rfl
  | cons c path ih =>
    by_cases hc : c = '/'
    · simpa [hc, names, List.splitOn_cons_eq_if_modifyHead] using ih
    · simp [hc]

lemma components_eq_names {n : Nat} (hpath : Relative path) (hn : path.length < n) : components n path = names path := by
  induction n generalizing path with
  | zero => omega
  | succ n ih =>
    have hsplit := List.takeWhile_append_dropWhile (p := (· ≠ '/')) (l := path)
    have hno : ∀ c ∈ path.takeWhile (· ≠ '/'), (c == '/') = false := fun c hc => by
      simpa using List.all_eq_true.mp List.all_takeWhile c hc
    have hname : path.takeWhile (· ≠ '/') ≠ [] := by
      obtain ⟨c, rest, rfl⟩ := List.exists_cons_of_ne_nil hpath.1
      have hc : c ≠ '/' := by simpa using hpath.2
      simp [hc]
    cases htail : path.dropWhile (· ≠ '/') with
    | nil =>
      rw [htail, List.append_nil] at hsplit
      rw [hsplit] at hno
      simp only [components, lookupSubpath, htail, List.dropWhile_nil, ↓reduceIte, hsplit]
      simp [names, List.splitOn_eq_singleton_of_beq_eq_false hno, hpath.1]
    | cons c t =>
      have hc := List.head?_dropWhile_not (· ≠ '/') path
      rw [htail] at hc
      obtain rfl : c = '/' := by simpa using hc
      rw [htail] at hsplit
      have hnames : names path = path.takeWhile (· ≠ '/') :: names t := by
        conv_lhs => rw [← hsplit]
        rw [names, List.splitOn_eq_splitOnP, List.splitOnP_append_cons_of_forall_mem hno _ (by simp), names,
          List.splitOn_eq_splitOnP, List.filter_cons_of_pos (by simpa using hname)]
      rw [hnames, ← names_dropWhile t]
      have hsub : lookupSubpath path = (path.takeWhile (· ≠ '/'),
          if t.dropWhile (· = '/') = [] then none else some (t.dropWhile (· = '/'))) := by
        simp only [lookupSubpath, htail]
        rfl
      by_cases hr : t.dropWhile (· = '/') = []
      · rw [components, hsub, if_pos hr, hr]
        rfl
      rw [if_neg hr] at hsub
      obtain ⟨hrel, hlen⟩ := lookupSubpath_some hsub hpath
      rw [components, hsub, ← ih hrel (by omega)]

lemma walk_eq_walkParent (v : Vol) (i : Nat) (name : Name) (rest : List Name) :
    v.walk i (name :: rest) = (v.walkParent i name rest).bind fun r => v.walk r.1 [r.2] := by
  induction rest generalizing i name with
  | nil =>
    rw [Vol.walkParent]
    split
    · rw [Vol.walk, if_pos ‹_›]
      rfl
    · rfl
  | cons next rest ih =>
    rw [Vol.walk, Vol.walkParent]
    split
    · rfl
    split
    · exact ih ..
    · cases v.step i name with
      | error e => rfl
      | ok j => exact ih ..

/-- The path `a/../a//./b/`. -/
def walked : List Char := ['a', '/', '.', '.', '/', 'a', '/', '/', '.', '/', 'b', '/']

/-- `sfs_lookup` walks along the components, and it is one step from what
`sfs_lookup_parent` returns. -/
theorem sfsLookup_walks {s : Sfs} (h : Sfs.Good held tree s) (hi : i ∈ held) (hlive : s.vol.Live i)
    (hpath : Relative path) :
    (∃ s', sfsLookupChars i path s = .ok (s.vol.walk i (names path), s')) ∧
    ∃ r s', sfsLookupParentChars i path s = .ok (r, s') ∧
    s.vol.walk i (names path) = r.bind fun p => s.vol.walk p.1 [p.2] := by
  obtain ⟨name, rest, hc⟩ := components_cons (by omega : 0 < path.length + 1) path
  rw [← components_eq_names hpath (Nat.lt_succ_self _), sfsLookupChars_eq hpath, sfsLookupParentChars_eq hpath hc,
    split, hc, walk_eq_walkParent]
  have h1 : Sat (fun _ => False) (sfsLookup i (name :: rest)) _ _ _ := Sfs.sfsLookup_good h hi (h.ok.sure_of_live hlive)
  have h2 : Sat (fun _ => False) (sfsLookupParent i name rest) _ _ _ :=
    Sfs.sfsLookupParent_good h hi (h.ok.sure_of_live hlive)
  rw [walk_eq_walkParent] at h1
  constructor
  · obtain ⟨j, s', hx, -, -, hw, -⟩ | ⟨e, s', hx, -, hw⟩ := h1.exists_ok <;> exact ⟨s', by rw [hx, hw]⟩
  · obtain ⟨r, s', hx, -, -, hw, -⟩ | ⟨e, s', hx, -, hw⟩ := h2.exists_ok <;> exact ⟨_, s', hx, by rw [hw]⟩

/-- A volume with `/a/b`, whose inode is 5. -/
lemma exists_walked : ∃ w : World, Sfs.Good w.held false w.fs ∧ blknRoot ∈ w.held ∧ w.fs.vol.Live blknRoot ∧
    w.fs.vol.walk blknRoot (names walked) = .ok 5 := by
  have hrun : ∃ w, Reachable World.step (fun w c => c.Fits w ∧ c.Checked w = true) (· = World.boot 100 false) w ∧
      w.fs.vol.walk blknRoot (names walked) = .ok 5 :=
    Reachable.exists_of_run [.mkdir blknRoot [['a']], .mkdir blknRoot [['a'], ['b']]] rfl (by decide +kernel)
  obtain ⟨w, hr, hwalk⟩ := hrun
  have hg := (World.checked_mounted (by decide) (by decide) hr).good
  exact ⟨w, hg, hg.ok.root, hg.ok.root_live, hwalk⟩

/-- From the root of a volume with `/a/b`. -/
theorem sfsLookup_walks_names : ∃ w : World, (∃ s', sfsLookupChars blknRoot walked w.fs = .ok (.ok 5, s')) ∧
    ∃ p s', sfsLookupParentChars blknRoot walked w.fs = .ok (.ok p, s') ∧ w.fs.vol.walk p.1 [p.2] = .ok 5 := by
  obtain ⟨w, hg, hroot, hlive, hwalk⟩ := exists_walked
  obtain ⟨⟨s', hs'⟩, r, s'', hs'', hr⟩ := sfsLookup_walks hg hroot hlive (by decide : Relative walked)
  rw [hwalk] at hs' hr
  cases r with
  | error e => cases hr
  | ok p => exact ⟨w, ⟨s', hs'⟩, p, s'', hs'', hr.symm⟩

end Ucore.Fs.Vfs
