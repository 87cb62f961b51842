import Ucore.Fs.BlockRun

/-!
# Operations on names that fail

An operation that has run out of blocks undoes what it did.
-/

namespace Ucore.Fs

open Lib.Cmd

inductive NameOp
  | create (d : Nat) (name : Name) (excl : Bool)
  | mkdir (d : Nat) (name : Name)
  | link (d : Nat) (name : Name) (i : Nat)
  | rename (d : Nat) (name : Name) (newD : Nat) (newName : Name)
  | unlink (d : Nat) (name : Name)

namespace NameOp

def run : NameOp → FsM Unit
  | .create d name excl => do
    let _ ← sfsCreate d name excl
    pure ()
  | .mkdir d name => sfsMkdir d name
  | .link d name i => sfsLink d name i
  | .rename d name newD newName => sfsRename d name newD newName
  | .unlink d name => sfsUnlink d name

def Fits (held : Multiset Nat) (v : Vol) : NameOp → Prop
  | .create d _ _ | .mkdir d _ | .unlink d _ => d ∈ held ∧ v.isDir d = true
  | .link d _ i => (d ∈ held ∧ v.isDir d = true) ∧ i ∈ held
  | .rename d _ newD _ => (d ∈ held ∧ v.isDir d = true) ∧ newD ∈ held ∧ v.isDir newD = true

end NameOp

namespace Sfs

variable {s s' : Sfs} {held : Multiset Nat} {tree : Bool} {op : NameOp} {E : Errno → Sfs → Prop}

-- Steps after which nothing can fail any more: they return or stop.

lemma modifySin_returns : Sat (fun _ => True) (modifySin i g) s (fun _ _ => True) E := by
  rw [modifySin, sat_bind, sin, sat_bind, sat_get]
  cases s.node i <;> trivial

lemma refDec_returns : Sat (fun _ => True) (refDec i) s (fun _ _ => True) E := by
  rw [refDec, sat_bind, sin, sat_bind, sat_get]
  cases s.node i with
  | none => trivial
  | some x =>
    rw [sat_pure, sat_bind, check]
    split
    · refine sat_bind.mpr (modifySin_returns.imp ?_)
      rintro - s1 -
      unfold when
      split
      · rw [sat_bind, sat_attempt]
        unfold Sat
        rcases reclaim i s1 with p | ⟨e | a, s2⟩ <;> trivial
      · trivial
    · trivial

lemma rename_atomic (h : Good held tree s) (hd : d ∈ held) (hdir : s.vol.isDir d = true) (hd' : d' ∈ held)
    (hdir' : s.vol.isDir d' = true) :
    Sat (fun _ => True) (sfsRename d name d' newName) s (fun _ _ => True) fun _ => Unmoved held tree s := by
  refine sfsRename_sat h hd hd' (fun hr hlen hplain heq => ?_) fun hr' hlen hplain hne => ?_
  · exact (rename1Nolock_good (P := fun j _ => j = d) h hd hdir hr hlen hplain ⟨rfl, rfl⟩ fun _ _ hP => hP).imp
      (fun _ _ _ => trivial)
  refine rename2Nolock_sat h hd hdir hd' hdir' hr' hlen hplain fun i k k' hs hv hk' => ?_
  obtain ⟨g, hg, hl, -⟩ := h.ok.target hs
  refine withInode_sat h hg hl fun s1 h1 hkept hvol => ?_
  refine (renameMove_sat (Q := fun _ _ => True) h1 (Multiset.mem_cons_of_mem hd)
    (Multiset.mem_cons_self i held) (by rw [hvol]; exact hs)
    (Multiset.mem_cons_of_mem hd') (hvol ▸ hv.load) hne (by rw [hvol]; exact hk') fun s2 _ _ _ => ?_).imp
    (fun _ _ _ => refDec_returns)
  unfold when
  split
  · exact sat_bind.mpr (modifySin_returns.imp (fun _ _ _ => modifySin_returns))
  · trivial

lemma run_atomic (h : Good held tree s) (hop : op.Fits held s.vol) :
    Sat (fun _ => True) op.run s (fun _ _ => True) fun _ => Unmoved held tree s := by
  cases op with
  | create d name excl =>
    rw [NameOp.run, sat_bind]
    exact (sfsCreate_good h hop.1 hop.2).imp (fun _ _ _ => trivial)
  | mkdir d name => exact (sfsMkdir_good h hop.1 hop.2).imp (fun _ _ _ => trivial)
  | link d name i => exact (sfsLink_good h hop.1.1 hop.1.2 hop.2).imp (fun _ _ _ => trivial)
  | rename d name newD newName => exact rename_atomic h hop.1.1 hop.1.2 hop.2.1 hop.2.2
  | unlink d name => exact (sfsUnlink_good h (.inr trivial) hop.1 hop.2).imp (fun _ _ _ => trivial)

/-- An operation without a free block leaves entries, counts and parents as they
were, and the same inodes. -/
theorem noMem_atomic (h : Good held tree s) (hop : op.Fits held s.vol) (hs : op.run s = .ok (.error .noMem, s')) :
    s'.vol = s.vol ∧ s'.Accounted ∧ ∀ i, s'.place (.inode i) = s.place (.inode i) := by
  have hu := (run_atomic h hop).of_error hs
  refine ⟨hu.vol, hu.good.inv.accounted, fun i => ?_⟩
  have hfile := congrArg (fun v => (v.file i).isSome) hu.vol
  grind [place, vol]

/-- The one free block becomes the inode of `a`, and there is none for the entry: the
inode is given back. -/
theorem noMem_atomic_undo : ∃ s', NameOp.run (.mkdir blknRoot ['a']) (format 4 false) = .ok (.error .noMem, s') ∧
    s'.unusedBlocks = 1 ∧ s'.vol = (format 4 false).vol ∧ s'.Accounted ∧
    ∀ i, s'.place (.inode i) = (format 4 false).place (.inode i) := by
  obtain ⟨⟨_, s'⟩, hs, rfl, hone⟩ : ∃ p, NameOp.run (.mkdir blknRoot ['a']) (format 4 false) = .ok p ∧
      p.1 = .error .noMem ∧ p.2.unusedBlocks = 1 := by decide +kernel
  have hgood : Good {blknRoot} true (format 4 false) := format_good (by decide)
  have hdir : (format 4 false).vol.isDir blknRoot = true := by decide +kernel
  have hfits : (NameOp.mkdir blknRoot ['a']).Fits {blknRoot} (format 4 false).vol := ⟨Multiset.mem_singleton_self _, hdir⟩
  exact ⟨s', hs, hone, noMem_atomic hgood hfits hs⟩

end Sfs

end Ucore.Fs
