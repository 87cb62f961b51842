import Ucore.Fs.RunOk
import Ucore.Fs.Sfs.MountOk

/-!
# Storing in every run

Calls may be followed by `sfs_sync`, on a device that cannot write every block.
-/

namespace Ucore.Fs

open Lib (Reachable Safe)
open Lib.Cmd

inductive StoreCall
  | call (c : Call)
  | sync (ok : Nat → Bool)

def StoreCall.Careful (w : World) : StoreCall → Prop
  | .call c => c.Careful false w
  | .sync _ => True

namespace World

variable {w w' : World} {s' : Sfs} {ok : Nat → Bool}

def storeStep (w : World) : StoreCall → Except Panic World
  | .call c => w.step c
  | .sync ok => (w.exec (sfsSync ok) fun _ => w.held).map Prod.snd

/-- `Stored`, unless `superDirty` says that it is not. -/
structure Stable (w : World) : Prop where
  mounted : w.Mounted false false
  room : firstBlock w.fs.blocks ≤ w.fs.blocks
  info : w.fs.info 7 < 16777216
  stored : w.fs.superDirty = false → w.fs.Stored

lemma Stable.call (h : w.Stable) (hc : c.Careful false w) (hs : w.step c = .ok w') : w'.Stable := by
  obtain ⟨e, hcall⟩ := step_eq_ok.mp hs
  have hk := (Done.of_call h.mounted.good hc hcall).kept
  refine ⟨h.mounted.step hc hs, ?_, ?_, .of_kept h.stored hk⟩
  · rw [hk.blocks]
    exact h.room
  · rw [hk.info]
    exact h.info

lemma Stable.synced (h : w.Stable) (hs : Sfs.Synced w.held false w.fs s') (hst : s'.superDirty = false → s'.Stored) :
    Stable ⟨s', w.held⟩ where
  mounted := ⟨hs.good, hs.pinned.trans h.mounted.pinned, hs.staleLoad.trans h.mounted.fresh⟩
  room := by
    rw [hs.blocks]
    exact h.room
  info := by
    rw [hs.info]
    exact h.info
  stored := hst

lemma Stable.sync (h : w.Stable) (hs : w.storeStep (.sync ok) = .ok w') : w'.Stable := by
  have hsafe : Safe (fun _ => False) (w.exec (sfsSync ok) fun _ => w.held) fun r => r.2.Stable := by
    refine exec_ok ((Sfs.sfsSync_ok h.mounted.good h.room h.stored).mono ?_ ?_)
    · exact fun _ s hs => h.synced hs.1 fun _ => hs.2.2.1
    · exact fun _ s hs => h.synced hs.1 fun hc => by simp [hs.2] at hc
  obtain ⟨r, hr, hst⟩ := hsafe.exists_ok
  obtain rfl : r.2 = w' := by simpa [storeStep, hr, Except.map] using hs
  exact hst

lemma stable_of_reachable (hr : Reachable storeStep (fun w c => c.Careful w) Stable w) : w.Stable := by
  refine hr.invariant (fun _ h => h) fun w c w' h hc hs => ?_
  cases c with
  | call c => exact h.call hc hs
  | sync ok => exact h.sync hs

/-- A device that has stored the inodes mounts as the same file system. -/
theorem sync_mounts (hr : Reachable storeStep (fun w c => c.Careful w) Stable w) (hdev : w.fs.blocks ≤ dBlocks)
    (hok : ∀ i, ok i = true ∨ w.fs.Settled i) (hs : sfsSync ok w.fs = .ok (.ok (), s')) :
    (∃ t, sfsDoMount dBlocks s'.disk = .ok (.ok t) ∧ Sfs.SameSuper s' t) ∧
    ∀ i x, s'.node i = some x → x.din.nlinks ≠ 0 → s'.disk i = .inode x.din := by
  have h := stable_of_reachable hr
  have hsat : Sat (fun _ => True) (sfsSync ok) w.fs _ _ := Sfs.sfsSync_ok h.mounted.good h.room h.stored
  obtain ⟨hsync, -, hst, hset⟩ := hsat.of_ok hs
  have hacc := hsync.good.inv.accounts
  have hne : s'.blocks ≠ 0 := by
    have := h.room
    rw [hsync.blocks]
    simp only [firstBlock, blknFreemap] at this
    omega
  have hinfo : s'.info 7 < 16777216 := by
    rw [hsync.info]
    exact h.info
  refine ⟨⟨_, hst.mount hacc hne (by rwa [hsync.blocks]), hst.ofDisk hacc hinfo⟩, fun i x hx hl => ?_⟩
  have hpin : ¬ s'.pinned = true := by simp [hsync.pinned, h.mounted.pinned]
  exact hsync.good.inv.synced i x hx hpin (hset i (hok i) x hx hl) hl

theorem sync_mounts_created : ∃ w s' t, (boot 100 false).step (.create blknRoot [['f']] true) = .ok w ∧
      sfsSync (fun _ => true) w.fs = .ok (.ok (), s') ∧ sfsDoMount 100 s'.disk = .ok (.ok t) ∧ Sfs.SameSuper s' t := by
  obtain ⟨w, hs, hdirty, ⟨_, s'⟩, hsync, rfl⟩ : ∃ w, (boot 100 false).step (.create blknRoot [['f']] true) = .ok w ∧
      w.fs.superDirty = true ∧ ∃ p, sfsSync (fun _ => true) w.fs = .ok p ∧ p.1 = .ok () := by decide +kernel
  have hm : (boot 100 false).Mounted false false := boot_mounted (by decide)
  have hc : Call.Careful false (boot 100 false) (.create blknRoot [['f']] true) :=
    Call.Checked.careful hm.good (by decide) rfl (by decide) (by simp)
  obtain ⟨e, hcall⟩ := step_eq_ok.mp hs
  have hk := (Done.of_call hm.good hc hcall).kept
  have hblocks : w.fs.blocks = 100 := hk.blocks
  have hstable : w.Stable := by
    refine ⟨hm.step hc hs, by rw [hblocks]; decide, ?_, fun hd => by simp [hdirty] at hd⟩
    rw [hk.info]
    decide
  obtain ⟨⟨t, ht, hsame⟩, -⟩ := sync_mounts (.init hstable) (Nat.le_of_eq hblocks) (fun _ => .inl rfl) hsync
  exact ⟨w, s', t, hs, hsync, ht, hsame⟩

/-- The device cannot write the inode of a new file, and `sfs_sync` returns 0. -/
theorem sync_loses_inode : ∃ w s' x, Reachable step (fun w c => c.Fits w) (· = boot 100 false) w ∧
    sfsSync (fun b => b != 3) w.fs = .ok (.ok (), s') ∧ s'.node 3 = some x ∧ x.din.nlinks ≠ 0 ∧
    s'.disk 3 ≠ .inode x.din := by
  obtain ⟨w, hr, ⟨_, s'⟩, hsync, rfl, x, hx, hl, hdisk⟩ : ∃ w,
      Reachable step (fun w c => c.Fits w) (· = boot 100 false) w ∧
        ∃ p, sfsSync (fun b => b != 3) w.fs = .ok p ∧ p.1 = .ok () ∧
          ∃ x, p.2.node 3 = some x ∧ x.din.nlinks ≠ 0 ∧ (p.2.disk 3).asInode = none :=
    Reachable.exists_of_run [.create blknRoot [['f']] true] rfl (by decide +kernel)
  exact ⟨w, s', x, hr, hsync, hx, hl, fun h => by simp [h, Content.asInode] at hdisk⟩

end World

end Ucore.Fs
