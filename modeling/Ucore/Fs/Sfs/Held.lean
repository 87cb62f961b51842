import Ucore.Fs.Sfs.Effects
import Ucore.Fs.Sfs.Io
import Ucore.Fs.Sfs.Reach

/-!
# References

`held` collects the references of processes to inodes: working directories, open files,
and what an operation holds on its way.
-/

namespace Ucore.Fs

open Function Lib.Cmd

def Snug (pinned : Bool) (size blocks : Nat) : Prop := pinned = false → blocks = blocksFor size

lemma snug_zero : Snug pinned 0 0 := fun _ => rfl

namespace Vol

variable {v w : Vol} {held : Multiset Nat} {pinned tree : Bool}

def Sized (pinned : Bool) (v : Vol) : Prop := ∀ i f, v.file i = some f → f.type ≠ .dir → Snug pinned f.size f.blocks

/-- The reference counts are those of the holders `held`, one of whom holds the root. -/
structure Ok (held : Multiset Nat) (pinned tree : Bool) (v : Vol) : Prop where
  wf : v.Wf none
  refs : ∀ i, (v.core i).refCount = held.count i
  bound : v.Bounded
  root : blknRoot ∈ held
  sized : v.Sized pinned
  rooted : tree = true → v.Rooted

lemma Ok.refCount_ne_zero (h : v.Ok held pinned tree) (hi : i ∈ held) : (v.core i).refCount ≠ 0 := by
  rw [h.refs]
  exact Multiset.count_ne_zero.mpr hi

lemma Ok.file_of_mem (h : v.Ok held pinned tree) (hi : i ∈ held) : ∃ f, v.file i = some f := by
  cases hf : v.file i with
  | some f => exact ⟨f, rfl⟩
  | none => exact absurd (by rw [h.wf.idle i hf]; rfl) (h.refCount_ne_zero hi)

structure Same (v w : Vol) : Prop where
  file : w.file = v.file
  removed : ∀ i, (w.core i).removed = (v.core i).removed

lemma Same.refl (v : Vol) : Same v v := ⟨rfl, fun _ => rfl⟩

lemma Same.trans (h : Same v w) (h' : Same w u) : Same v u :=
  ⟨h'.file.trans h.file, fun i => (h'.removed i).trans (h.removed i)⟩

lemma same_setCore (hr : c.removed = (v.core i).removed) : Same v (v.setCore i c) := ⟨rfl, (sameTree_setCore hr).removed⟩

lemma same_load : Same v (v.load i) := same_setCore rfl

lemma Same.slot (h : Same v w) : w.slot = v.slot := by
  funext p
  simp only [Vol.slot, h.file]

lemma Same.isDir (h : Same v w) : w.isDir = v.isDir := by
  funext i
  simp only [Vol.isDir, h.file]

lemma Ok.load (h : v.Ok held pinned tree) (hf : v.file i = some f) : (v.load i).Ok (i ::ₘ held) pinned tree where
  wf := h.wf.load hf
  refs j := by
    by_cases hj : j = i
    · subst hj
      simp [Vol.load, h.refs]
    · simp [Vol.load, setCore_core_ne _ hj, h.refs, Multiset.count_cons_of_ne hj]
  bound := h.bound
  root := Multiset.mem_cons_of_mem h.root
  sized := h.sized
  rooted ht := (h.rooted ht).same (sameTree_setCore rfl)

def Secure (v : Vol) (held : Multiset Nat) (i : Nat) : Prop := i ∈ held ∨ ∃ f, v.file i = some f ∧ f.nlinks ≠ 0

lemma Ok.unref (h : v.Ok (i ::ₘ held) pinned tree) (hroot : blknRoot ∈ held) : (v.unref i).Ok held pinned tree := by
  obtain ⟨f, hf⟩ := h.file_of_mem (Multiset.mem_cons_self i held)
  have href := h.refCount_ne_zero (Multiset.mem_cons_self i held)
  have hcount : (v.core i).refCount = held.count i + 1 := by rw [h.refs, Multiset.count_cons_self]
  refine ⟨h.wf.unref hf href, fun j => ?_, ?_, hroot, ?_, fun ht => (h.rooted ht).unref h.wf hf⟩
  · rw [Vol.unref]
    by_cases hj : j = i
    · grind [Core.idle, setCore_core_self]
    have hcj := h.refs j
    rw [Multiset.count_cons_of_ne hj] at hcj
    split <;> rw [setCore_core_ne _ hj] <;> exact hcj
  · intro j g hg
    rw [Vol.unref] at hg
    split at hg
    · by_cases hj : j = i
      · subst hj
        simp at hg
      · exact h.bound j g (by simpa [setFile_file_ne _ hj] using hg)
    · exact h.bound j g hg
  · intro j g hg
    rw [Vol.unref] at hg
    split at hg
    · by_cases hj : j = i
      · subst hj
        simp at hg
      · exact h.sized j g (by simpa [setFile_file_ne _ hj] using hg)
    · exact h.sized j g hg

lemma Ok.unref_same (h : v.Ok (i ::ₘ held) pinned tree) (hs : v.Secure held i) : Same v (v.unref i) := by
  rcases hs with hi | ⟨f, hf, hl⟩
  · have hcount : (v.core i).refCount ≠ 1 := by
      have := Multiset.count_pos.mpr hi
      rw [h.refs, Multiset.count_cons_self]
      omega
    rw [unref_more hcount]
    exact same_setCore rfl
  · rw [unref_linked hf hl]
    exact same_setCore rfl

lemma Ok.not_removed_of_links (h : v.Ok held pinned tree) (hf : v.file i = some f) (hl : f.nlinks ≠ 0) :
    (v.core i).removed = false := by
  by_contra hr
  obtain ⟨g, hg, -, hl', -⟩ := h.wf.removed i (by simpa using hr)
  cases hf.symm.trans hg
  exact hl hl'

lemma Ok.target (h : v.Ok held pinned tree) (hs : v.slot p = some (i, n)) :
    ∃ f, v.file i = some f ∧ f.nlinks ≠ 0 ∧ (v.core i).removed = false := by
  obtain ⟨-, f, hf⟩ := h.wf.target p i n hs
  have hr := h.wf.target_not_removed hs
  refine ⟨f, hf, ?_, hr⟩
  by_cases hdir : f.type = .dir
  · obtain ⟨m, -, hl⟩ := h.wf.dirLinks i f hf hdir hr
    omega
  · exact Nat.ne_of_gt (Lib.Count.pos (h.wf.fileRefs i f hf hdir) hs (by simp))

end Vol

namespace Sfs

variable {s s' s'' : Sfs} {held : Multiset Nat} {tree : Bool} {allowed : Panic → Prop} {E : Errno → Sfs → Prop}

/-- What every call keeps, for a disk and its tree together. -/
structure Good (held : Multiset Nat) (tree : Bool) (s : Sfs) : Prop where
  inv : s.Inv fun _ => s.pinned = true
  ok : s.vol.Ok held s.pinned tree

lemma Good.of (hinv : s'.Inv fun _ => s.pinned = true) (hkept : Kept s s') (hok : s'.vol.Ok held s.pinned tree) :
    Good held tree s' := by
  refine ⟨?_, ?_⟩ <;> rw [hkept.pinned]
  exacts [hinv, hok]

lemma pinned_or (s : Sfs) : s.pinned = true ∨ ∀ _ : Nat, ¬ s.pinned = true := by
  simp

structure Quiet (s s' : Sfs) : Prop where
  kept : Kept s s'
  same : Vol.Same s.vol s'.vol

lemma Quiet.refl (s : Sfs) : Quiet s s := ⟨.refl s, .refl _⟩

lemma Quiet.trans (h : Quiet s s') (h' : Quiet s' s'') : Quiet s s'' := ⟨h.kept.trans h'.kept, h.same.trans h'.same⟩

lemma refInc_good (h : Good held tree s) (hi : i ∈ held) :
    Sat allowed (refInc i) s (fun _ s' => Good (i ::ₘ held) tree s' ∧ Quiet s s') E := by
  obtain ⟨f, hf⟩ := h.ok.file_of_mem hi
  refine (refInc_ok h.inv (h.ok.refCount_ne_zero hi)).imp (fun _ s' hb => ?_)
  exact ⟨.of hb.inv hb.kept (hb.vol ▸ h.ok.load hf), hb.kept, hb.vol ▸ Vol.same_load⟩

lemma loadInode_good (h : Good held tree s) (hf : s.vol.file i = some f) (hl : f.nlinks ≠ 0) :
    Sat allowed (loadInode i) s (fun _ s' => Good (i ::ₘ held) tree s' ∧ Quiet s s') E := by
  refine (loadInode_ok h.inv hf hl).imp (fun _ s' hb => ?_)
  exact ⟨.of hb.inv hb.kept (hb.vol ▸ h.ok.load hf), hb.kept, hb.vol ▸ Vol.same_load⟩

lemma refDec_good (h : Good (i ::ₘ held) tree s) (hroot : blknRoot ∈ held) :
    Sat allowed (refDec i) s (fun _ s' => Good held tree s' ∧ Kept s s' ∧ s'.vol = s.vol.unref i) E := by
  have hi := Multiset.mem_cons_self i held
  obtain ⟨f, hf⟩ := h.ok.file_of_mem hi
  refine (unref_ok h.inv s.pinned_or hf (h.ok.refCount_ne_zero hi) (h.ok.not_removed_of_links hf)).imp
    (fun _ s' hb => ?_)
  exact ⟨.of hb.inv hb.kept (hb.vol ▸ h.ok.unref hroot), hb.kept, hb.vol⟩

lemma release_good (h : Good (i ::ₘ held) tree s) (hroot : blknRoot ∈ held) (hs : s.vol.Secure held i) :
    Sat allowed (refDec i) s (fun _ s' => Good held tree s' ∧ Quiet s s') E := by
  refine (refDec_good h hroot).imp (fun _ s' hb => ?_)
  exact ⟨hb.1, hb.2.1, hb.2.2 ▸ h.ok.unref_same hs⟩

end Sfs

end Ucore.Fs
