import Ucore.Fs.RunOk

/-!
# Sizes and stored inodes in every run

A file has the blocks its size asks for and a clean inode is stored as it is, as long as
writes begin inside the file and a file that grows finds enough free blocks.
-/

namespace Ucore.Fs

open Function
open Lib (Reachable Safe)
open Lib.Cmd

namespace Sfs

variable {s s' : Sfs} {allowed : Panic → Prop} {busy : Nat → Prop}

section

variable (h : s.Inv busy)
  (hx : s.node i = some x)
  (hlo : ndirect < x.din.blocks)
  (hhi : x.din.blocks < ndirect + blkNentry)
include h hx hlo hhi

lemma indirect_ne_zero : x.din.indirect ≠ 0 := by
  have hlast := place_leaf_last h hx (k := ndirect + (x.din.blocks - ndirect - 1)) (by omega)
  rw [DiskInode.bmap_indirect (by omega)] at hlast
  exact fun hz => hlast (by rw [hz]; rfl)

lemma bmapLoad_indirect :
    Sat allowed (bmapLoad i x.din.blocks) s
    (fun _ s' => s'.node i = some { x with din := x.din.setBlocks (x.din.blocks + 1) } ∧ s'.disk i = s.disk i)
      (fun _ s' => s' = s ∧ s.freeBits = 0) := by
  have hk : x.din.blocks - ndirect < blkNentry := by omega
  have hne := indirect_ne_zero h hx hlo hhi
  have hused := used_indirect h hx hne
  have h0 : sub s.disk x.din.indirect (x.din.blocks - ndirect) = 0 := by
    rw [← DiskInode.bmap_indirect hk, show ndirect + (x.din.blocks - ndirect) = x.din.blocks by omega]
    exact bmap_leaf_blocks h hx
  have hi : s.used i = true := h.cached i x hx
  have hie : i ≠ x.din.indirect := by
    have hplace : s.place (.part i .indirect) = x.din.indirect := place_part (din_of_node hx)
    have hdiff : s.place (.part i .indirect) ≠ s.place (.inode i) := h.ledger.ne_of_ne (by simp) (by rwa [hplace])
    rw [hplace, place_inode (din_of_node hx)] at hdiff
    exact hdiff.symm
  rw [bmapLoad, sat_bind, sat_sin hx, sat_bind, sat_check (le_refl _), sat_bind, decide_eq_true rfl, bmapGet, sat_bind,
    sat_sin hx, sat_bind, bmapGetRange, if_neg (by omega), if_pos hk, bmapGetIndirect, bmapGetPtr, sat_bind]
  refine (bmapGetSub_fill h.accounts hk hused h0).mono ?_ ?_
  · rintro _ _ ⟨b, hfb, rfl, rfl⟩
    have hbi : i ≠ b := by
      rintro rfl
      simp [not_used_of_free hfb] at hi
    have hb : (s.fill x.din.indirect (x.din.blocks - ndirect) b).used b = true := by
      have hbits := h.bits b hfb
      simp [fill, used_take hbits.1 hbits.2]
    have hx' : (s.fill x.din.indirect (x.din.blocks - ndirect) b).node i = some x := hx
    dsimp only
    rw [sat_bind, sat_when_not (by simp), sat_pure, sat_bind, sat_checkInuse fun _ => hb, sat_pure, sat_bind,
      sat_blockInuse hb, sat_bind, sat_check rfl, sat_bind, sat_when rfl, sat_modifySin hx', sat_pure]
    refine ⟨Function.update_self .., ?_⟩
    simp [fill, update_of_ne hie, update_of_ne hbi]
  · rintro _ _ ⟨-, hz, rfl⟩
    exact ⟨rfl, hz⟩

end

structure Ahead (s : Sfs) (i : Nat) (x : Sin) (m : Nat) (s' : Sfs) : Prop where
  node : s'.node i = some { x with din := x.din.setBlocks (x.din.blocks + m) }
  disk : s'.disk i = s.disk i

lemma growLoop_ahead (h : s.Inv busy) (hx : s.node i = some x) (hlo : ndirect < x.din.blocks)
    (hhi : x.din.blocks + n ≤ ndirect + blkNentry) :
    Sat allowed (growLoop i n x.din.blocks) s (fun _ => Ahead s i x n)
      (fun _ s' => ∃ m, Ahead s i x m s' ∧ (m = 0 → s.freeBits = 0)) := by
  induction n generalizing s x busy with
  | zero => exact ⟨hx, rfl⟩
  | succ n ih =>
    rw [growLoop]
    refine ((bmapLoad_new h hx).and (bmapLoad_indirect h hx hlo (by omega))).bind ?_ ?_
    · rintro b s1 ⟨hext, hx1, hdisk1⟩
      refine (ih hext.inv hx1 (by simp only [DiskInode.setBlocks]; omega)
        (by simp only [DiskInode.setBlocks]; omega)).mono ?_ ?_
      · rintro - s2 ⟨hx2, hdisk2⟩
        refine ⟨hx2.trans ?_, hdisk2.trans hdisk1⟩
        simp only [DiskInode.setBlocks, show x.din.blocks + 1 + n = x.din.blocks + (n + 1) by omega]
      · rintro - s2 ⟨m, ⟨hx2, hdisk2⟩, -⟩
        refine ⟨m + 1, ⟨hx2.trans ?_, hdisk2.trans hdisk1⟩, by simp⟩
        simp only [DiskInode.setBlocks, show x.din.blocks + 1 + m = x.din.blocks + (m + 1) by omega]
    · rintro e _ ⟨-, rfl, hz⟩
      exact ⟨0, ⟨hx, rfl⟩, fun _ => hz⟩

lemma truncfile_ahead (h : s.Inv busy) (hx : s.node i = some x) (href : x.refCount ≠ 0) (hrem : x.removed = false)
    (htype : x.din.type ≠ .dir) (hsize : x.din.size ≠ len) (hlo : ndirect < x.din.blocks)
    (hbig : s.blocks < blocksFor len)
    (hhi : blocksFor len ≤ ndirect + blkNentry) :
    Sat allowed (truncfile i len) s (fun _ _ => False)
    (fun _ s' => ∃ m, Ahead s i x m s' ∧ (m = 0 → s.freeBits = 0)) := by
  have hlen : ¬ maxFileSize < len := by
    simp only [blocksFor, blkSize, ndirect, blkNentry] at hhi
    simp only [maxFileSize]
    omega
  have hlt : x.din.blocks < blocksFor len := lt_of_le_of_lt (h.blocks_le (din_of_node hx)) hbig
  have href' : (s.vol.core i).refCount ≠ 0 := by
    rw [core_of_node hx]
    exact href
  have hrem' : (s.vol.core i).removed = false := by
    rw [core_of_node hx]
    exact hrem
  rw [truncfile, if_neg hlen, sat_bind, sat_sin hx, sat_bind, sat_check htype, if_neg hsize, sat_bind, sat_trylock href',
    hrem', if_neg (by simp), if_pos hlt, sat_bind]
  refine ((growLoop_ok h (file_of_din (din_of_node hx)) href' rfl).and
    (growLoop_ahead h hx hlo (by omega))).mono ?_ fun _ _ hE => hE.2
  rintro - s1 ⟨⟨f1, h1⟩, hahead⟩
  have hle := h1.inv.blocks_le (din_of_node hahead.node)
  simp only [DiskInode.setBlocks, h1.kept.blocks] at hle
  omega

end Sfs

namespace World

variable {w : World}

lemma stored_thirteen : ∃ w, Reachable step (fun w c => c.Fits w ∧ c.Checked w = true) (· = boot 25 false) w ∧
    (3 ∈ w.held ∧ w.fs.blocks = 25 ∧ w.fs.unusedBlocks ≠ 0) ∧ ∃ x, w.fs.node 3 = some x ∧ x.dirty = false ∧
    x.removed = false ∧ x.refCount ≠ 0 ∧ x.din.nlinks = 1 ∧ x.din.type = .file ∧ x.din.size = 13 * blkSize ∧
    x.din.blocks = 13 :=
  Reachable.exists_of_run [.create blknRoot [['f']] true, .truncate 3 (13 * blkSize), .fsync 3] rfl (by decide +kernel)

/-- A clean inode with links is stored as it is. -/
theorem clean_stored (hr : Reached false false w) (hx : w.fs.node i = some x) (hclean : x.dirty = false)
    (hl : x.din.nlinks ≠ 0) : w.fs.disk i = .inode x.din :=
  hr.mounted.good.inv.synced i x hx (by simp [hr.mounted.pinned]) hclean hl

theorem clean_stored_thirteen :
    ∃ (w : World) (x : Sin), w.Mounted false false ∧ w.fs.node 3 = some x ∧ x.din.blocks = 13 ∧
    w.fs.disk 3 = .inode x.din := by
  obtain ⟨w, hr, -, x, hx, hclean, -, -, hl, -, -, hb⟩ := stored_thirteen
  have hm := checked_mounted (by decide) (by decide) hr
  exact ⟨w, x, hm, hx, hb, clean_stored (.init hm) hx hclean (by omega)⟩

/-- The file asks for 40 blocks, which the device does not have. -/
lemma grown_halfway : ∃ w x d, Reachable step (fun w c => c.Fits w) (· = boot 25 false) w ∧
    3 ∈ w.held ∧ w.fs.node 3 = some x ∧
    w.fs.disk 3 = .inode d ∧ x.dirty = false ∧ x.refCount ≠ 0 ∧ x.din.nlinks = 1 ∧ x.din.type = .file ∧
    x.din.size = 13 * blkSize ∧ d.blocks = 13 ∧ 13 < x.din.blocks := by
  obtain ⟨w, hr, ⟨hheld, hblocks, hunused⟩, x, hx, hclean, hrem, href, hl, htype, hsize, hb⟩ := stored_thirteen
  have hm := checked_mounted (by decide) (by decide) hr
  have hinv := hm.good.inv
  have hdisk : w.fs.disk 3 = .inode x.din := hinv.synced 3 x hx (by simp [hm.pinned]) hclean (by omega)
  have hsat : Sat (fun _ => False) (vopTruncate 3 (40 * blkSize)) w.fs (fun _ _ => False)
      (fun _ s' => ∃ m, Sfs.Ahead w.fs 3 x m s' ∧ (m = 0 → w.fs.freeBits = 0)) := by
    rw [vopTruncate, onFile, sat_bind, isDir, sat_bind, Sfs.sat_sin hx, sat_pure, if_neg (by simp [htype])]
    refine Sfs.truncfile_ahead hinv hx href hrem (by simp [htype]) ?_ ?_ ?_ ?_
    · rw [hsize]
      decide
    · rw [hb]
      decide
    · rw [hblocks]
      decide
    · decide
  obtain ⟨-, -, -, hfalse⟩ | ⟨e, s', hcall, m, hahead, hm0⟩ := hsat.exists_ok
  · exact hfalse.elim
  have hmpos : m ≠ 0 := fun h0 => hunused (hinv.unused.trans (hm0 h0))
  have hfits : Call.Fits w (.truncate 3 (40 * blkSize)) := hheld
  have hstep : w.step (.truncate 3 (40 * blkSize)) = .ok ⟨s', w.held⟩ := by
    simp only [step, call, exec, hcall]
    rfl
  refine ⟨_, _, x.din, (hr.mono fun _ _ => And.left).step hfits hstep, hheld, hahead.node,
    hahead.disk.trans hdisk, hclean,
    href, hl, htype, hsize, hb, ?_⟩
  simp only [DiskInode.setBlocks, hb]
  omega

/-- The inode in memory has more blocks than its copy, and it is clean. -/
theorem clean_not_stored :
    ∃ w x, Reachable step (fun w c => c.Fits w) (· = boot 25 false) w ∧ w.fs.node 3 = some x ∧ x.dirty = false ∧
    x.din.nlinks ≠ 0 ∧ w.fs.disk 3 ≠ .inode x.din := by
  obtain ⟨w, x, d, hr, -, hx, hdisk, hclean, -, hl, -, -, hd, hb⟩ := grown_halfway
  grind

/-- Every file has the blocks its size asks for, so that a truncation ends
without a failed assertion. -/
theorem sizes_agree (hr : Reached false false w) :
    (∀ i f, w.fs.vol.file i = some f → f.type ≠ .dir → f.blocks = blocksFor f.size) ∧
    ∀ i len, Call.Careful false w (.truncate i len) → ∃ r, w.call (.truncate i len) = .ok r := by
  have hm := hr.mounted
  refine ⟨fun i f hf htype => hm.good.ok.sized i f hf htype hm.pinned, fun i len hc => ?_⟩
  have hsafe : Safe (fun _ => False) (w.call (.truncate i len)) (Call.Done (.truncate i len) false w) :=
    call_good hm.good hc ⟨by simp, by simp, by simp [hm.pinned]⟩
  grind [hsafe.exists_ok]

theorem sizes_agree_thirteen :
    ∃ (w : World) (x : Sin), w.Mounted false false ∧ w.fs.node 3 = some x ∧ x.din.blocks = 13 ∧
    x.din.blocks = blocksFor x.din.size := by
  obtain ⟨w, hr, -, x, hx, -, -, -, -, htype, -, hb⟩ := stored_thirteen
  have hm := checked_mounted (by decide) (by decide) hr
  have hagree := (sizes_agree (.init hm)).1 3 _ (Sfs.file_of_din (Sfs.din_of_node hx))
  exact ⟨w, x, hm, hx, hb, hagree (by simp [Sfs.fileOf, htype])⟩

/-- After the growth that stopped, a truncation to the size the file has fails
the assertion. -/
theorem size_disagrees :
    ∃ w x, Reachable step (fun w c => c.Fits w) (· = boot 25 false) w ∧ w.fs.node 3 = some x ∧ x.din.type = .file ∧
    x.din.blocks ≠ blocksFor x.din.size ∧ Call.Fits w (.truncate 3 x.din.size) ∧
    w.call (.truncate 3 x.din.size) = .error .assertion := by
  obtain ⟨w, x, d, hr, hheld, hx, -, -, -, -, htype, hsize, -, hb⟩ := grown_halfway
  have hne : ¬ blocksFor x.din.size = x.din.blocks := by
    rw [hsize, show blocksFor (13 * blkSize) = 13 by decide]
    omega
  refine ⟨w, x, hr, hx, htype, fun h => hne h.symm, hheld, ?_⟩
  have hmax : ¬ maxFileSize < x.din.size := by
    rw [hsize]
    decide
  have hstop : vopTruncate 3 x.din.size w.fs = .error .assertion := by
    refine Sat.eq_error ?_
    rw [vopTruncate, onFile, sat_bind, isDir, sat_bind, Sfs.sat_sin hx, sat_pure, if_neg (by simp [htype]), truncfile,
      if_neg hmax, sat_bind, Sfs.sat_sin hx, sat_bind, sat_check (by simp [htype]), if_pos rfl,
        check, if_neg hne, sat_stop]
  simp only [call, exec, hstop]

end World

end Ucore.Fs
