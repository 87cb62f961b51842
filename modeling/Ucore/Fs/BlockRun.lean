import Ucore.Fs.RunOk

/-!
# Blocks in every run

Inodes are only loaded from blocks that hold one, and every block in use has one owner.
-/

namespace Ucore.Fs

open Lib (Reachable Safe)

namespace World

variable {w : World} {pinned tree : Bool}

/-- `sfs_load_inode` is only asked for inodes with links. As long as no directory is
moved below itself, every call returns. -/
theorem loads_live (hr : Reached pinned tree w) : w.fs.staleLoad = false ∧ ∀ c, c.Careful tree w →
    (∀ r, w.call c = .ok r → r.2.fs.staleLoad = false) ∧ w.call c ≠ .error .badInode ∧
    (tree = true → (pinned = true → c.onData = false) →
    (∀ cwd resid, c = .getcwd cwd resid → w.fs.vol.ParentDir cwd) →
    ∃ r, w.call c = .ok r ∧ r.2.fs.staleLoad = false) := by
  have hm := hr.mounted
  have hfresh : ∀ c, c.Careful tree w → ∀ r, w.call c = .ok r → r.2.fs.staleLoad = false := by
    intro c hc r hcall
    exact (Done.of_call hm.good hc hcall).kept.staleLoad.trans hm.fresh
  refine ⟨hm.fresh, fun c hc => ⟨hfresh c hc, fun hcall => ?_, ?_⟩⟩
  · have hsafe : Safe (· ≠ Panic.badInode) (w.call c) (c.Done tree w) :=
      call_good hm.good hc ⟨fun _ _ _ => .inr (by simp), fun _ _ _ => .inr (by simp), fun _ _ => by simp⟩
    rw [hcall] at hsafe
    exact hsafe rfl
  · rintro rfl hdata hup
    have hsafe : Safe (fun _ => False) (w.call c) (c.Done true w) := by
      refine call_good hm.good hc ⟨fun _ _ _ => .inl rfl, fun cwd resid heq => .inl ⟨rfl, hup cwd resid heq⟩, ?_⟩
      intro hp hon
      simp [hdata (hm.pinned.symm.trans hp)] at hon
    obtain ⟨r, hcall, -⟩ := hsafe.exists_ok
    exact ⟨r, hcall, hfresh c hc r hcall⟩

/-- `/a/b` is removed while it is a working directory. Its `..` is still there. -/
theorem loads_live_removed : ∃ w, Reached false true w ∧ (w.fs.vol.core 5).removed = true ∧
    (∃ r, w.call (.lookup 5 [dotdot]) = .ok r ∧ r.2.fs.staleLoad = false) ∧
    ∃ r, w.call (.getcwd 5 100) = .ok r ∧ r.2.fs.staleLoad = false := by
  obtain ⟨w, hr, hrem, hfit, hfit', ⟨f, hf, hparent⟩, g, hg, htype, hl⟩ : ∃ w,
      Reachable step (fun w c => (c.Fits w ∧ c.Checked w = true) ∧ c.isRename = false) (· = boot 100 false) w ∧
        (w.fs.vol.core 5).removed = true ∧ Call.Fits w (.lookup 5 [dotdot]) ∧ Call.Fits w (.getcwd 5 100) ∧
        (∃ f, w.fs.vol.file 5 = some f ∧ f.parent = 3) ∧
        ∃ g, w.fs.vol.file 3 = some g ∧ g.type = .dir ∧ g.nlinks ≠ 0 :=
    Reachable.exists_of_run [.mkdir blknRoot [['a']], .mkdir blknRoot [['a'], ['b']], .dup blknRoot,
      .chdir blknRoot blknRoot [['a'], ['b']], .unlink blknRoot [['a'], ['b']]] rfl (by decide +kernel)
  have hw : Reached false true w := .init (mounted_of_checked (by decide) (by decide)
    (fun _ _ h => ⟨h.1, fun _ => Call.ordered_of_not_rename h.2⟩) hr)
  have hup : w.fs.vol.ParentLive 5 := by
    intro f' hf' _
    cases hf.symm.trans hf'
    exact ⟨g, hparent ▸ hg, hl⟩
  have hdir : w.fs.vol.ParentDir 5 := by
    intro f' hf' _
    cases hf.symm.trans hf'
    exact hparent ▸ Vol.isDir_iff.mpr ⟨g, hg, htype⟩
  have hc : Call.Careful true w (.lookup 5 [dotdot]) :=
    ⟨hfit, trivial, fun _ => hup, fun _ => trivial, fun _ => trivial, fun _ => rfl⟩
  have hc' : Call.Careful true w (.getcwd 5 100) :=
    ⟨hfit', trivial, hup, fun _ => trivial, fun _ => trivial, fun _ => rfl⟩
  obtain ⟨-, hlive⟩ := loads_live hw
  refine ⟨w, hw, hrem, (hlive _ hc).2.2 rfl (fun _ => rfl) (by simp), (hlive _ hc').2.2 rfl (fun _ => rfl) ?_⟩
  rintro cwd resid ⟨⟩
  exact hdir

/-- `/a/b` and `/a` are removed while `/a/b` is a working directory, whose `..`
is then a free block. -/
theorem parent_gone : ∃ w, Reachable step (fun w c => c.Fits w) (· = boot 100 false) w ∧
    Call.Fits w (.lookup 5 [dotdot]) ∧ w.call (.lookup 5 [dotdot]) = .error .badInode ∧
    Call.Fits w (.getcwd 5 100) ∧ w.call (.getcwd 5 100) = .error .badInode :=
  Reachable.exists_of_run [.mkdir blknRoot [['a']], .mkdir blknRoot [['a'], ['b']], .dup blknRoot,
      .chdir blknRoot blknRoot [['a'], ['b']], .unlink blknRoot [['a'], ['b']], .unlink blknRoot [['a']]] rfl
      (by decide +kernel)

end World

structure Sfs.Accounted (s : Sfs) : Prop where
  unused : s.unusedBlocks = s.freeBits
  free : ∀ b, s.freemap b = true → b < s.blocks ∧ ¬ Reserved s.blocks b
  owner : ∀ b, s.used b = true → ∃! r, s.place r = b
  used : ∀ r, s.place r ≠ 0 → s.used (s.place r) = true

lemma Sfs.Inv.accounted {s : Sfs} (h : s.Inv busy) : s.Accounted where
  unused := h.unused
  free := h.bits
  owner b hb := by
    obtain ⟨h0, r, hr⟩ := h.ledger.owned b hb
    exact ⟨r, hr, fun r' hr' => h.ledger.inj r' r (hr'.symm ▸ h0) (hr'.trans hr.symm)⟩
  used := h.ledger.used_of_place

lemma Sfs.Dropped.used_iff {s s' : Sfs} (h : Dropped s busy i s') (hinv : s.Inv busy) (hone : (s.vol.core i).refCount = 1)
    (hf : s.vol.file i = some f) (hl : f.nlinks = 0) :
    s'.used b = true ↔ s.used b = true ∧ ∀ q : Role, q.ino = i → s.place q ≠ b := by
  have hnone : s'.din i = none := by
    have hfile : s'.vol.file i = none := by rw [h.vol, Vol.unref_last hone hf hl]; simp
    simpa [Sfs.vol] using hfile
  have hgone : ∀ q : Role, q.ino = i → s'.place q = 0 :=
    Role.forall_ino (by simp [Sfs.place, hnone]) fun p => by simp [Sfs.place, hnone]
  grind [h.place, h.inv.ledger.used_iff, hinv.ledger.used_iff, hinv.ledger.inj]

namespace World

variable {w : World}

lemma release_frees (h : Sfs.Good w.held tree w.fs) (hf : w.fs.vol.file i = some f) (hl : f.nlinks = 0)
    (hi : w.held.count i = 1) (hr : w.call (.release i) = .ok r) (b : Nat) :
    r.2.fs.used b = true ↔ w.fs.used b = true ∧ ∀ q : Role, q.ino = i → w.fs.place q ≠ b := by
  have hone : (w.fs.vol.core i).refCount = 1 := (h.ok.refs i).trans hi
  have hsafe : Safe (fun _ => True) (w.call (.release i)) fun r =>
      r.2.fs.used b = true ↔ w.fs.used b = true ∧ ∀ q : Role, q.ino = i → w.fs.place q ≠ b := by
    refine exec_ok ((Sfs.unref_ok h.inv w.fs.pinned_or hf (by omega) (absurd hl)).imp ?_)
    exact fun _ s hd => hd.used_iff h.inv hone hf hl
  exact hsafe.of_eq hr

theorem blocks_accounted (hr : Reached true false w) :
    w.fs.Accounted ∧ ∀ i f r, w.fs.vol.file i = some f → f.nlinks = 0 → w.held.count i = 1 →
    w.call (.release i) = .ok r → ∀ b,
    r.2.fs.used b = true ↔ w.fs.used b = true ∧ ∀ q : Role, q.ino = i → w.fs.place q ≠ b := by
  have hm := hr.mounted
  exact ⟨hm.good.inv.accounted, fun i f r hf hl hi hcall => release_frees hm.good hf hl hi hcall⟩

theorem blocks_accounted_unlinked :
    ∃ w r, Reachable step (fun w c => c.Fits w ∧ c.Checked w = true) (· = boot 100 true) w ∧ w.fs.used 3 = true ∧
      w.call (.release 3) = .ok r ∧ ¬ r.2.fs.used 3 = true := by
  obtain ⟨w, hr, hused, hplace, hcount, ⟨r, hcall, -⟩, f, hf, hl⟩ : ∃ w,
      Reachable step (fun w c => c.Fits w ∧ c.Checked w = true) (· = boot 100 true) w ∧
        w.fs.used 3 = true ∧ w.fs.place (.inode 3) = 3 ∧ w.held.count 3 = 1 ∧
        (∃ r, w.call (.release 3) = .ok r ∧ True) ∧ ∃ f, w.fs.vol.file 3 = some f ∧ f.nlinks = 0 :=
    Reachable.exists_of_run [.create blknRoot [['f']] true, .unlink blknRoot [['f']]] rfl (by decide +kernel)
  have hm := checked_mounted (by decide) (by decide) hr
  have hfree := (blocks_accounted (.init hm)).2 3 f r hf hl hcount hcall 3
  exact ⟨w, r, hr, hused, hcall, fun hb => (hfree.mp hb).2 (.inode 3) rfl hplace⟩

/-- The parent of a removed directory is reused for the contents of a file that
reads as an inode. -/
theorem owned_twice : ∃ w, Reachable step (fun w c => c.Fits w) (· = boot 100 true) w ∧ w.fs.used 3 = true ∧
    w.fs.place (.inode 3) = 3 ∧ w.fs.place (.part 5 (.leaf 0)) = 3 :=
  Reachable.exists_of_run [.mkdir blknRoot [['a']], .create blknRoot [['f']] true, .mkdir blknRoot [['a'], ['b']],
      .dup blknRoot, .chdir blknRoot blknRoot [['a'], ['b']], .unlink blknRoot [['a'], ['b']], .unlink blknRoot [['a']],
      .write 5 (fun j => if j = 8 ∨ j = 10 then 1 else 0) 0 blkSize, .create 7
        [dotdot, ['x']] true] rfl (by decide +kernel)

end World

end Ucore.Fs
