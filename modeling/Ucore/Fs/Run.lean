import Ucore.Fs.Sfs.DataOk
import Ucore.Lib.Run

/-!
# Runs of the file system

What processes share with the file system are the inodes they refer to: working
directories, open files, and the root. A call stands for the work of a system call on
one file system; `open` is `create` or `lookup`, perhaps with `truncate`, and `close` is
`fsync` and `release`.
-/

namespace Ucore.Fs

open Lib (Reachable Safe)
open Lib.Cmd

structure World where
  fs : Sfs
  held : Multiset Nat

inductive Call
  | lookup (start : Nat) (path : List Name)
  | create (start : Nat) (path : List Name) (excl : Bool)
  | dup (i : Nat)
  | release (i : Nat)
  | mkdir (start : Nat) (path : List Name)
  | link (oldStart : Nat) (oldPath : List Name) (newStart : Nat) (newPath : List Name)
  | rename (oldStart : Nat) (oldPath : List Name) (newStart : Nat) (newPath : List Name)
  | unlink (start : Nat) (path : List Name)
  | chdir (cwd start : Nat) (path : List Name)
  | getcwd (cwd resid : Nat)
  | read (i offset len : Nat)
  | write (i : Nat) (buf : Nat → Nat) (offset len : Nat)
  | truncate (i len : Nat)
  | seek (i pos : Nat)
  | fsync (i : Nat)

namespace World

def exec (w : World) (x : FsM α) (held : α → Multiset Nat) : Except Panic (Option Errno × World) :=
  match x w.fs with
  | .error p => .error p
  | .ok (.ok a, fs) => .ok (none, ⟨fs, held a⟩)
  | .ok (.error e, fs) => .ok (some e, ⟨fs, w.held⟩)

def call (w : World) : Call → Except Panic (Option Errno × World)
  | .lookup start path => w.exec (vfsLookup start path) fun i => i ::ₘ w.held
  | .create start path excl => w.exec (vfsCreate start path excl) fun i => i ::ₘ w.held
  | .dup i => w.exec (refInc i) fun _ => i ::ₘ w.held
  | .release i => w.exec (refDec i) fun _ => w.held.erase i
  | .mkdir start path => w.exec (vfsMkdir start path) fun _ => w.held
  | .link oldStart oldPath newStart newPath => w.exec (vfsLink oldStart oldPath newStart newPath) fun _ => w.held
  | .rename oldStart oldPath newStart newPath => w.exec (vfsRename oldStart oldPath newStart newPath) fun _ => w.held
  | .unlink start path => w.exec (vfsUnlink start path) fun _ => w.held
  | .chdir cwd start path => w.exec (vfsChdir cwd start path) fun dir => dir ::ₘ w.held.erase cwd
  | .getcwd cwd resid => w.exec (vfsGetcwd cwd resid) fun _ => w.held
  | .read i offset len => w.exec (vopRead i (fun _ => 0) offset len >>= Io.result) fun _ => w.held
  | .write i buf offset len => w.exec (vopWrite i buf offset len >>= Io.result) fun _ => w.held
  | .truncate i len => w.exec (vopTruncate i len) fun _ => w.held
  | .seek i pos => w.exec (vopTryseek i pos) fun _ => w.held
  | .fsync i => w.exec (Fs.fsync i) fun _ => w.held

def step (w : World) (c : Call) : Except Panic World := (w.call c).map Prod.snd

def CanRelease (w : World) (i : Nat) : Prop := i ∈ w.held ∧ blknRoot ∈ w.held.erase i

instance : Decidable (CanRelease w i) := inferInstanceAs (Decidable (_ ∧ _))

end World

namespace Call

/-- A call uses inodes somebody refers to. A working directory is a directory. -/
def Fits (w : World) : Call → Prop
  | .lookup start _ | .create start _ _ | .mkdir start _ | .unlink start _ => start ∈ w.held
  | .link oldStart _ newStart _ | .rename oldStart _ newStart _ => oldStart ∈ w.held ∧ newStart ∈ w.held
  | .dup i | .read i _ _ | .write i _ _ _ | .truncate i _ | .seek i _ | .fsync i => i ∈ w.held
  | .release i => w.CanRelease i
  | .chdir cwd start _ => w.CanRelease cwd ∧ start ∈ w.held
  | .getcwd cwd _ => cwd ∈ w.held ∧ w.fs.vol.isDir cwd = true

def Linkable (w : World) : Call → Prop
  | .create _ _ _ | .mkdir _ _ | .link _ _ _ _ | .rename _ _ _ _ => w.fs.vol.Roomy
  | _ => True

def Sure (w : World) : Call → Prop
  | .lookup start path | .chdir _ start path => w.fs.vol.Sure start path
  | .create start path _ | .mkdir start path | .unlink start path => w.fs.vol.Sure start path.dropLast
  | .link oldStart oldPath newStart newPath => w.fs.vol.Sure oldStart oldPath ∧ w.fs.vol.Sure newStart newPath.dropLast
  | .rename oldStart oldPath newStart newPath =>
    w.fs.vol.Sure oldStart oldPath.dropLast ∧ w.fs.vol.Sure newStart newPath.dropLast
  | .getcwd cwd _ => w.fs.vol.ParentLive cwd
  | _ => True

def Ordered (w : World) : Call → Prop
  | .rename oldStart oldPath newStart newPath =>
    ∀ d n d' n', Sfs.EntryOf w.fs.vol oldStart oldPath d n → Sfs.EntryOf w.fs.vol newStart newPath d' n' → d ≠ d' →
      Sfs.NotBelow w.fs.vol d n d'
  | _ => True

/-- A write begins inside the file, and a file that grows finds enough free
blocks. -/
def Sized (w : World) : Call → Prop
  | .write i _ offset _ => w.fs.Inside i offset
  | .truncate i len | .seek i len => w.fs.Enough i len
  | _ => True

def Names (w : World) : Call → Nat → Name → Prop
  | .create start path _ | .mkdir start path | .unlink start path => Sfs.EntryOf w.fs.vol start path
  | .link _ _ newStart newPath => Sfs.EntryOf w.fs.vol newStart newPath
  | .rename oldStart oldPath newStart newPath => fun d n =>
    Sfs.EntryOf w.fs.vol oldStart oldPath d n ∨ Sfs.EntryOf w.fs.vol newStart newPath d n
  | _ => Sfs.Nothing

def onNames : Call → Bool
  | .create _ _ _ | .mkdir _ _ | .link _ _ _ _ | .rename _ _ _ _ | .unlink _ _ => true
  | _ => false

def onData : Call → Bool
  | .write _ _ _ _ | .truncate _ _ | .seek _ _ => true
  | _ => false

def isRename : Call → Bool
  | .rename _ _ _ _ => true
  | _ => false

def isRead : Call → Bool
  | .read _ _ _ => true
  | _ => false

instance : Decidable (Fits w c) := by
  cases c <;> unfold Fits <;> infer_instance

/-- The calls that keep a good state good. With `tree`, directories stay a
tree. -/
structure Careful (tree : Bool) (w : World) (c : Call) : Prop where
  fits : c.Fits w
  linkable : c.Linkable w
  sure : c.Sure w
  ordered : tree = true → c.Ordered w
  sized : w.fs.pinned = false → c.Sized w
  unread : w.fs.pinned = true → c.isRead = false

/-- How a call may stop: with a rename of a directory into itself there are
directories whose entries cannot be removed, and `getcwd` does not expect them. Nor does
it expect that the number of a removed parent is now that of a file. -/
structure Tolerates (allowed : Panic → Prop) (tree : Bool) (w : World) (c : Call) : Prop where
  hang : ∀ start path, c = .unlink start path → tree = true ∨ allowed .hang
  getcwd : ∀ cwd resid, c = .getcwd cwd resid → tree = true ∧ w.fs.vol.ParentDir cwd ∨ allowed .assertion
  pinned : w.fs.pinned = true → c.onData = true → allowed .assertion

structure Done (c : Call) (tree : Bool) (w : World) (r : Option Errno × World) : Prop where
  good : Sfs.Good r.2.held tree r.2.fs
  kept : Sfs.Kept w.fs r.2.fs
  frame : Vol.SameBut (c.Names w) w.fs.vol r.2.fs.vol
  atomic : c.onNames = true → r.1 ≠ none → r.2.fs.vol = w.fs.vol

end Call

namespace World

variable {w : World} {tree : Bool} {allowed : Panic → Prop} {c : Call}

section

variable {x : FsM α} {held : α → Multiset Nat}

lemma exec_ok {R : Option Errno × World → Prop}
    (h : Sat allowed x w.fs (fun a s => R (none, ⟨s, held a⟩)) (fun e s => R (some e, ⟨s, w.held⟩))) :
    Safe allowed (w.exec x held) R := by
  unfold exec
  unfold Sat at h
  rcases hx : x w.fs with p | ⟨e | a, s⟩ <;> rw [hx] at h <;> exact h

lemma exec_named
    (h : Sat allowed x w.fs (fun a => Sfs.Named (c.Names w) (held a) tree w.fs) (fun _ => Sfs.Unmoved w.held tree w.fs)) :
    Safe allowed (w.exec x held) (c.Done tree w) := by
  refine exec_ok (h.mono ?_ ?_)
  · exact fun a s hn => ⟨hn.good, hn.kept, hn.frame, fun _ => absurd rfl⟩
  · exact fun e s hu => ⟨hu.good, hu.kept, Vol.sameBut_of_slot (by rw [hu.vol]), fun _ _ => hu.vol⟩

lemma exec_nothing (hc : c.onNames = false)
    (h : Sat allowed x w.fs (fun a => Sfs.Named Sfs.Nothing (held a) tree w.fs)
    (fun _ => Sfs.Named Sfs.Nothing w.held tree w.fs)) :
    Safe allowed (w.exec x held) (c.Done tree w) := by
  have hframe : ∀ {v}, Vol.SameBut Sfs.Nothing w.fs.vol v → Vol.SameBut (c.Names w) w.fs.vol v := fun h d n _ => h d n id
  refine exec_ok (h.mono ?_ ?_)
  · exact fun a s hn => ⟨hn.good, hn.kept, hframe hn.frame, by simp [hc]⟩
  · exact fun e s hn => ⟨hn.good, hn.kept, hframe hn.frame, by simp [hc]⟩

end

lemma call_good (h : Sfs.Good w.held tree w.fs) (hc : c.Careful tree w) (ha : c.Tolerates allowed tree w) :
    Safe allowed (w.call c) (c.Done tree w) := by
  obtain ⟨hfits, hlink, hsure, hordered, hsized, hunread⟩ := hc
  cases c with
  | lookup start path =>
    refine exec_nothing rfl ((Sfs.vfsLookup_good h hfits hsure).mono ?_ fun e s hE => (hE.1.unmoved h).nothing)
    exact fun j s hj => hj.2.1.nothing hj.1
  | create start path excl => exact exec_named (Sfs.vfsCreate_good h hfits hsure)
  | dup i =>
    refine exec_nothing rfl ((Sfs.refInc_good h hfits).imp ?_)
    exact fun _ s hj => hj.2.nothing hj.1
  | release i =>
    have h' : Sfs.Good (i ::ₘ w.held.erase i) tree w.fs := by rwa [Multiset.cons_erase hfits.1]
    refine exec_nothing rfl ((Sfs.refDec_good h' hfits.2).imp ?_)
    exact fun _ s hj => ((Sfs.Quiet.refl _).nothing h').unref hj.1 hj.2.1 hj.2.2
  | mkdir start path => exact exec_named (Sfs.vfsMkdir_good h hlink hfits hsure)
  | link oldStart oldPath newStart newPath => exact exec_named (Sfs.vfsLink_good h hlink hfits.1 hfits.2 hsure.1 hsure.2)
  | rename oldStart oldPath newStart newPath =>
    exact exec_named (Sfs.vfsRename_good h hlink hfits.1 hfits.2 hsure.1 hsure.2 hordered)
  | unlink start path => exact exec_named (Sfs.vfsUnlink_good h (ha.hang start path rfl) hfits hsure)
  | chdir cwd start path =>
    have h' : Sfs.Good (cwd ::ₘ w.held.erase cwd) tree w.fs := by rwa [Multiset.cons_erase hfits.1.1]
    have hstart : start ∈ cwd ::ₘ w.held.erase cwd := by
      rw [Multiset.cons_erase hfits.1.1]
      exact hfits.2
    refine exec_nothing rfl ((Sfs.vfsChdir_good h' hfits.1.2 hstart hsure).mono (fun _ _ hn => hn) fun _ s hE => ?_)
    rw [Multiset.cons_erase hfits.1.1] at hE
    exact hE.nothing
  | getcwd cwd resid =>
    refine exec_nothing rfl ((Sfs.vfsGetcwd_good (ha.getcwd cwd resid rfl) h hfits.1 hfits.2 hsure).mono ?_ ?_)
    · exact fun _ _ hu => hu.nothing
    · exact fun _ _ hu => hu.nothing
  | read i offset len =>
    have hp : w.fs.pinned = false := by
      by_contra hp
      simpa [Call.isRead] using hunread (by simpa using hp)
    have hkept : Sfs.Named Sfs.Nothing w.held tree w.fs w.fs := (Sfs.Quiet.refl _).nothing h
    refine exec_nothing rfl (sat_bind.mpr ((Sfs.vopRead_good h hfits hp).mono ?_ ?_))
    · rintro io _ rfl
      exact io.sat_result hkept fun _ => hkept
    · rintro _ _ rfl
      exact hkept
  | write i buf offset len =>
    refine exec_nothing rfl (sat_bind.mpr ((Sfs.vopWrite_good h hfits (ha.pinned · rfl) hsized).mono ?_ ?_))
    · exact fun io _ hn => io.sat_result hn fun _ => hn
    · exact fun _ _ hu => hu.nothing
  | truncate i len =>
    exact exec_nothing rfl
      ((Sfs.vopTruncate_good h hfits (ha.pinned · rfl) hsized).mono (fun _ _ hn => hn) fun _ _ hn => hn.1)
  | seek i pos =>
    exact exec_nothing rfl
      ((Sfs.vopTryseek_good h hfits (ha.pinned · rfl) hsized).mono (fun _ _ hn => hn) fun _ _ hn => hn.1)
  | fsync i =>
    refine exec_nothing rfl ((Sfs.fsync_good h hfits).imp ?_)
    exact fun _ _ hu => hu.nothing

end World

end Ucore.Fs
