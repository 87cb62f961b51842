import Ucore.Fs.Sfs.DataOk
import Ucore.Fs.Sfs.Format
import Ucore.Fs.Sfs.Mount

/-!
# What is stored can be mounted

A device that holds the superblock and the free map of a file system mounts as that file
system.
-/

namespace Ucore.Fs

open Lib.Cmd

lemma bitmapTest_word (hword : word (b / wordBits) = bitmapWord bit (b / wordBits)) : bitmapTest word b = bit b := by
  have hlt : b % wordBits < 32 := Nat.mod_lt b (by decide)
  rw [bitmapTest, hword, bitmapWord, Nat.testBit_ofBits_lt _ _ hlt]
  exact congrArg bit (Nat.div_add_mod b wordBits)

lemma countFree_eq {bit : Nat → Bool} (hle : n ≤ nbits) (hbit : ∀ b, b < nbits → bitmapTest word b = bit b)
    (hpad : ∀ b, bit b = true → b < n) :
    countFree word nbits = ((Finset.range n).filter fun b => bit b = true).card := by
  have hfilter : (List.range nbits).filter (bitmapTest word) = (List.range nbits).filter bit :=
    List.filter_congr fun b hb => hbit b (List.mem_range.mp hb)
  have hsame : (Finset.range nbits).filter (fun b => bit b = true) = (Finset.range n).filter fun b => bit b = true := by
    ext b
    simp only [Finset.mem_filter, Finset.mem_range]
    exact ⟨fun h => ⟨hpad b h.2, h.2⟩, fun h => ⟨lt_of_lt_of_le h.1 hle, h.2⟩⟩
  rw [countFree, List.countP_eq_length_filter, hfilter, ← hsame]
  rw [← List.toFinset_card_of_nodup (List.nodup_range.filter _)]
  exact congrArg Finset.card (by ext b; simp)

namespace Sfs

variable {s s' : Sfs} {held : Multiset Nat} {tree : Bool} {allowed : Panic → Prop}

structure Stored (s : Sfs) : Prop where
  super : s.disk 0 = s.superBlock
  freemap : ∀ k, k < freemapBlocks s.blocks → s.disk (blknFreemap + k) = s.freemapBlock k

structure SameSuper (s t : Sfs) : Prop where
  blocks : t.blocks = s.blocks
  unused : t.unusedBlocks = s.unusedBlocks
  info : ∀ k, k < 8 → t.info k = s.info k
  freemap : t.freemap = s.freemap
  clean : t.superDirty = false

section

variable (h : s.Stored)
include h

lemma Stored.initFreemap (hk : k < freemapBlocks s.blocks * blkNentry) :
    initFreemap s.disk k = bitmapWord s.freemap k := by
  have hdiv : k / blkNentry < freemapBlocks s.blocks := Nat.div_lt_of_lt_mul (by rwa [Nat.mul_comm])
  rw [Fs.initFreemap, h.freemap _ hdiv]
  exact congrArg (bitmapWord s.freemap) (Nat.div_add_mod k blkNentry)

lemma Stored.bitmapTest (hb : b < freemapBits s.blocks) : bitmapTest (Fs.initFreemap s.disk) b = s.freemap b := by
  refine bitmapTest_word (h.initFreemap ?_)
  simp only [freemapBits, blkBits, wordBits, blkNentry] at *
  omega

lemma Stored.word : (s.disk 0).word k = s.superBlock.word k := by rw [h.super]

lemma Stored.mount (hacc : s.Accounts) (hblocks : s.blocks ≠ 0) (hdev : s.blocks ≤ dBlocks) :
    sfsDoMount dBlocks s.disk = .ok (.ok (.ofDisk s.disk)) := by
  have hcount : countFree (Fs.initFreemap s.disk) (freemapBits s.blocks) = s.unusedBlocks := by
    rw [hacc.unused, freeBits]
    exact countFree_eq le_freemapBits (fun b => h.bitmapTest) fun b hb => (hacc.bits b hb).1
  have h0 : (s.disk 0).word 0 = sfsMagic := h.word
  have h1 : (s.disk 0).word 1 = s.blocks := h.word
  have h2 : (s.disk 0).word 2 = s.unusedBlocks := h.word
  rw [sfsDoMount, h0, h1, h2, hcount, if_neg (by simp [hdev]), if_neg hblocks, if_neg (by simp)]

lemma Stored.ofDisk (hacc : s.Accounts) (hinfo : s.info 7 < 16777216) : SameSuper s (.ofDisk s.disk) where
  blocks := h.word
  unused := h.word
  info k hk := by
    have hword : (s.disk 0).word (3 + k) = s.info k := by
      rw [h.word, superBlock, superContent, Content.word, if_neg (by omega), if_neg (by omega),
        if_neg (by omega), if_pos (by omega), Nat.add_sub_cancel_left]
    grind [Sfs.ofDisk]
  freemap := by
    have h1 : (s.disk 0).word 1 = s.blocks := h.word
    funext b
    simp only [Sfs.ofDisk, h1]
    by_cases hb : b < freemapBits s.blocks
    · simp [h.bitmapTest hb, hb]
    have hle : s.blocks ≤ freemapBits s.blocks := le_freemapBits
    have hfree : s.freemap b = false := by
      by_contra hf
      have := (hacc.bits b (by simpa using hf)).1
      omega
    simp [hb, hfree]
  clean := rfl

end

structure Flushed (held : Multiset Nat) (tree : Bool) (s s' : Sfs) : Prop where
  unmoved : Unmoved held tree s s'
  freemap : s'.freemap = s.freemap
  unused : s'.unusedBlocks = s.unusedBlocks
  dirty : s'.superDirty = s.superDirty

lemma Flushed.refl (h : Good held tree s) : Flushed held tree s s := ⟨.refl h, rfl, rfl, rfl⟩

lemma Flushed.trans (h : Flushed held tree s s') (h' : Flushed held tree s' s'') : Flushed held tree s s'' where
  unmoved := ⟨h'.unmoved.good, h'.unmoved.vol.trans h.unmoved.vol, h.unmoved.kept.trans h'.unmoved.kept⟩
  freemap := h'.freemap.trans h.freemap
  unused := h'.unused.trans h.unused
  dirty := h'.dirty.trans h.dirty

/-- `sfs_fsync` has nothing to write for the inode `i`. -/
def Settled (s : Sfs) (i : Nat) : Prop := ∀ x, s.node i = some x → x.din.nlinks ≠ 0 → x.dirty = false

lemma fsyncOn_ok (h : Good held tree s) (hx : s.node i = some x) : Sat allowed (fsyncOn ok i) s
    (fun _ s' => Flushed held tree s s' ∧ (∀ j, j ≠ i → s'.node j = s.node j) ∧ s'.Settled i)
    (fun _ s' => s' = s ∧ ok i = false) := by
  rw [fsyncOn, sat_bind, sat_sin hx]
  by_cases hd : x.din.nlinks ≠ 0 ∧ x.dirty = true
  · have hlinks : (s.fileOf i x.din).nlinks ≠ 0 := hd.1
    have hrem : x.removed = false := by
      have := h.ok.not_removed_of_links (file_of_din (din_of_node hx)) hlinks
      rwa [core_of_node hx] at this
    have hu : (s.setNode i (some { x with dirty := false })).used i = true := h.inv.cached i x hx
    rw [sat_when hd, sat_bind, trylock, sat_bind, sat_sin hx, sat_when_not (by simp [hrem])]
    cases hok : ok i with
    | false => exact ⟨rfl, rfl⟩
    | true =>
      rw [if_pos rfl, sat_bind, sat_modifySin hx, sat_writeBlock hu]
      have hb := h.inv.store hx
      refine ⟨⟨⟨.of hb.inv hb.kept (hb.vol ▸ h.ok), hb.vol, hb.kept⟩, rfl, rfl, rfl⟩,
        fun j hj => Function.update_of_ne hj .., fun y hy _ => ?_⟩
      obtain rfl : { x with dirty := false } = y := Option.some.inj (setNode_self.symm.trans hy)
      rfl
  · rw [sat_when_not hd]
    refine ⟨.refl h, fun _ _ => rfl, fun y hy hl => ?_⟩
    obtain rfl : x = y := Option.some.inj (hx.symm.trans hy)
    simpa [hl] using hd

lemma Settled.of_node (h : s.Settled i) (hnode : s'.node i = s.node i) : s'.Settled i := by
  intro x hx
  exact h x (hnode ▸ hx)

/-- An inode that needs no write is not in danger from a write that fails. -/
lemma syncInodes_ok (h : Good held tree s) : Sat allowed (syncInodes ok n i) s
    (fun _ s' => Flushed held tree s s' ∧ (∀ j, j < i → s'.node j = s.node j) ∧
      ∀ j, i ≤ j → j < i + n → ok j = true ∨ s.Settled j → s'.Settled j) E := by
  induction n generalizing s i with
  | zero => exact ⟨.refl h, fun _ _ => rfl, fun j hj hj' => by omega⟩
  | succ n ih =>
    -- the rounds after this one leave the inode of this round alone
    have hnext : ∀ t, Flushed held tree s t → (∀ j, j ≠ i → t.node j = s.node j) →
        (ok i = true ∨ s.Settled i → t.Settled i) →
        Sat allowed (syncInodes ok n (i + 1)) t (fun _ s' => Flushed held tree s s' ∧
          (∀ j, j < i → s'.node j = s.node j) ∧
            ∀ j, i ≤ j → j < i + (n + 1) → ok j = true ∨ s.Settled j → s'.Settled j) E := by
      intro t ht hnode hset
      refine (ih ht.unmoved.good).imp ?_
      rintro - s' ⟨hf, hnode', hset'⟩
      refine ⟨ht.trans hf, fun j hj => (hnode' j (by omega)).trans (hnode j (by omega)), ?_⟩
      intro j hj hj' hok
      rcases Nat.eq_or_lt_of_le hj with rfl | hlt
      · exact (hset hok).of_node (hnode' i (by omega))
      · exact hset' j hlt (by omega) (hok.imp_right fun h => h.of_node (hnode j (by omega)))
    rw [syncInodes, sat_bind, sat_get, sat_bind]
    cases hx : s.node i with
    | none =>
      rw [sat_when_not (by simp)]
      exact hnext s (.refl h) (fun _ _ => rfl) fun _ x hx' => by simp [hx] at hx'
    | some x =>
      rw [sat_when (by simp), sat_bind, sat_attempt]
      refine (fsyncOn_ok h hx).mono ?_ ?_
      · rintro - t ⟨hf, hnode, hset⟩
        exact hnext t hf hnode fun _ => hset
      · rintro - t ⟨rfl, hbad⟩
        exact hnext t (.refl h) (fun _ _ => rfl) fun hok => by simpa [hbad] using hok

structure MetaOnly (s s' : Sfs) : Prop where
  blocks : s'.blocks = s.blocks
  unused : s'.unusedBlocks = s.unusedBlocks
  info : s'.info = s.info
  freemap : s'.freemap = s.freemap
  node : s'.node = s.node
  pinned : s'.pinned = s.pinned
  staleLoad : s'.staleLoad = s.staleLoad
  disk : ∀ b, ¬ Reserved s.blocks b → s'.disk b = s.disk b

namespace MetaOnly

lemma refl (s : Sfs) : MetaOnly s s := ⟨rfl, rfl, rfl, rfl, rfl, rfl, rfl, fun _ _ => rfl⟩

lemma trans (h : MetaOnly s s') (h' : MetaOnly s' s'') : MetaOnly s s'' where
  blocks := h'.blocks.trans h.blocks
  unused := h'.unused.trans h.unused
  info := h'.info.trans h.info
  freemap := h'.freemap.trans h.freemap
  node := h'.node.trans h.node
  pinned := h'.pinned.trans h.pinned
  staleLoad := h'.staleLoad.trans h.staleLoad
  disk b hb := (h'.disk b (by rwa [h.blocks])).trans (h.disk b hb)

lemma write (hb : Reserved s.blocks b) : MetaOnly s (s.write b c) :=
  ⟨rfl, rfl, rfl, rfl, rfl, rfl, rfl, fun d hd => Function.update_of_ne (show d ≠ b from fun hdb => hd (hdb ▸ hb)) ..⟩

lemma setSuperDirty : MetaOnly s (s.setSuperDirty d) := ⟨rfl, rfl, rfl, rfl, rfl, rfl, rfl, fun _ _ => rfl⟩

lemma good (hm : MetaOnly s s') (h : Good held tree s) : Good held tree s' ∧ s'.vol = s.vol := by
  obtain ⟨hinv, hvol⟩ := h.inv.scratch hm.blocks hm.freemap hm.unused hm.node fun b hb => hm.disk b (used_iff.mp hb).2.2
  refine ⟨⟨?_, ?_⟩, hvol⟩
  · rw [hm.pinned]
    exact hinv
  · rw [hm.pinned, hvol]
    exact h.ok

lemma superBlock (hm : MetaOnly s s') : s'.superBlock = s.superBlock := by
  rw [Sfs.superBlock, Sfs.superBlock, hm.blocks, hm.unused, hm.info]

lemma freemapBlock (hm : MetaOnly s s') : s'.freemapBlock = s.freemapBlock := by
  funext k
  rw [Sfs.freemapBlock, Sfs.freemapBlock, hm.freemap]

end MetaOnly

lemma syncFreemap_ok (hk : k + n = freemapBlocks s.blocks) (hroom : firstBlock s.blocks ≤ s.blocks) :
    Sat allowed (syncFreemap ok n k) s
      (fun _ s' => MetaOnly s s' ∧ s'.superDirty = s.superDirty ∧ (∀ b, b < blknFreemap + k → s'.disk b = s.disk b) ∧
        ∀ j, k ≤ j → j < k + n → s'.disk (blknFreemap + j) = s.freemapBlock j)
      fun _ => MetaOnly s := by
  induction n generalizing s k with
  | zero => exact ⟨.refl s, rfl, fun _ _ => rfl, fun j hj hj' => by omega⟩
  | succ n ih =>
    rw [syncFreemap, sat_bind, sat_get]
    split
    · have hin : blknFreemap + k ≠ 0 ∧ blknFreemap + k < s.blocks := by
        simp only [firstBlock, blknFreemap] at *
        omega
      have hres : Reserved s.blocks (blknFreemap + k) := .inr ⟨by omega, by omega⟩
      rw [sat_bind, writeBlock, sat_bind, sat_get, sat_bind, sat_check hin, sat_modify]
      have hw : MetaOnly s (s.write (blknFreemap + k) (s.freemapBlock k)) := .write hres
      refine (ih (s := s.write (blknFreemap + k) (s.freemapBlock k)) (k := k + 1)
        (by rw [hw.blocks]; omega) hroom).mono ?_
        fun _ _ => hw.trans
      rintro - s' ⟨hm, hdirty, hlow, hhigh⟩
      refine ⟨hw.trans hm, hdirty, fun b hb => ?_, fun j hj hj' => ?_⟩
      · exact (hlow b (by omega)).trans (Function.update_of_ne (by omega) ..)
      · rcases Nat.eq_or_lt_of_le hj with rfl | hlt
        · exact (hlow _ (by omega)).trans (Function.update_self ..)
        · exact (hhigh j hlt (by omega)).trans (congrFun hw.freemapBlock j)
    · exact .refl s

lemma syncMeta_ok (hroom : firstBlock s.blocks ≤ s.blocks) : Sat allowed (syncMeta ok (freemapBlocks s.blocks)) s
    (fun _ s' => MetaOnly s s' ∧ s'.superDirty = s.superDirty ∧ s'.Stored) fun _ => MetaOnly s := by
  have hpos : 0 < s.blocks := by
    simp only [firstBlock, blknFreemap] at hroom
    omega
  rw [syncMeta, sat_bind, syncSuper, sat_bind, sat_get, sat_bind, sat_check hpos]
  split
  · rw [sat_modify]
    have hw : MetaOnly s (s.write 0 s.superBlock) := .write (.inl rfl)
    refine (syncFreemap_ok (s := s.write 0 s.superBlock) (Nat.zero_add _) hroom).mono ?_ fun _ _ => hw.trans
    rintro - s' ⟨hm, hdirty, hlow, hhigh⟩
    refine ⟨hw.trans hm, hdirty, ⟨?_, fun k hk => ?_⟩⟩
    · rw [hm.superBlock, hw.superBlock]
      rw [hlow 0 (by simp [blknFreemap]), write_disk, Function.update_self]
    · rw [hm.freemapBlock]
      exact hhigh k (by omega) (by rw [hm.blocks] at hk; exact (Nat.zero_add _).symm ▸ hk)
  · exact .refl s

lemma Stored.of_kept (hstored : s.superDirty = false → s.Stored) (hk : Kept s s') (hclean : s'.superDirty = false) :
    s'.Stored := by
  obtain ⟨hc, hmap, hun⟩ := hk.clean hclean
  obtain ⟨hsuper, hfree⟩ := hstored hc
  refine ⟨?_, fun k hlt => ?_⟩
  · rw [hk.fixed 0 (.inl rfl), hsuper, superBlock, superBlock, hk.blocks, hk.info, hun]
  · rw [hk.blocks] at hlt
    rw [hk.fixed _ (.inr ⟨by omega, by omega⟩), hfree k hlt, freemapBlock, freemapBlock, hmap]

structure Synced (held : Multiset Nat) (tree : Bool) (s s' : Sfs) : Prop where
  good : Good held tree s'
  vol : s'.vol = s.vol
  blocks : s'.blocks = s.blocks
  unused : s'.unusedBlocks = s.unusedBlocks
  info : s'.info = s.info
  freemap : s'.freemap = s.freemap
  pinned : s'.pinned = s.pinned
  staleLoad : s'.staleLoad = s.staleLoad

lemma Flushed.synced (h : Flushed held tree s s') : Synced held tree s s' where
  good := h.unmoved.good
  vol := h.unmoved.vol
  blocks := h.unmoved.kept.blocks
  unused := h.unused
  info := h.unmoved.kept.info
  freemap := h.freemap
  pinned := h.unmoved.kept.pinned
  staleLoad := h.unmoved.kept.staleLoad

lemma Synced.of_meta (h : Synced held tree s s') (hm : MetaOnly s' s'') : Synced held tree s s'' where
  good := (hm.good h.good).1
  vol := (hm.good h.good).2.trans h.vol
  blocks := hm.blocks.trans h.blocks
  unused := hm.unused.trans h.unused
  info := hm.info.trans h.info
  freemap := hm.freemap.trans h.freemap
  pinned := hm.pinned.trans h.pinned
  staleLoad := hm.staleLoad.trans h.staleLoad

lemma sfsSync_ok (h : Good held tree s) (hroom : firstBlock s.blocks ≤ s.blocks)
    (hstored : s.superDirty = false → s.Stored) :
    Sat allowed (sfsSync ok) s
      (fun _ s' => Synced held tree s s' ∧ s'.superDirty = false ∧ s'.Stored ∧
        ∀ j, ok j = true ∨ s.Settled j → s'.Settled j)
      (fun _ s' => Synced held tree s s' ∧ s'.superDirty = true) := by
  rw [sfsSync, sat_bind, sat_get, sat_bind]
  refine (syncInodes_ok h).imp ?_
  rintro - s1 ⟨hf, -, hset⟩
  have hsettled : ∀ j, ok j = true ∨ s.Settled j → s1.Settled j := by
    intro j hok x hx
    have hlt := (used_iff.mp (hf.unmoved.good.inv.cached j x hx)).1
    rw [hf.unmoved.kept.blocks] at hlt
    exact hset j (Nat.zero_le j) (by omega) hok x hx
  cases hd : s.superDirty with
  | false =>
    rw [sat_when_not (by simp)]
    have hclean : s1.superDirty = false := hf.dirty.trans hd
    exact ⟨hf.synced, hclean, .of_kept hstored hf.unmoved.kept hclean, hsettled⟩
  | true =>
    rw [sat_when rfl, sat_bind, sat_modify, sat_bind, sat_attempt, ← hf.unmoved.kept.blocks]
    have hm : MetaOnly s1 (s1.setSuperDirty false) := .setSuperDirty
    refine (syncMeta_ok (s := s1.setSuperDirty false) (by rw [hm.blocks, hf.unmoved.kept.blocks]; exact hroom)).mono ?_ ?_
    · rintro - s2 ⟨hm2, hdirty, hst⟩
      refine ⟨hf.synced.of_meta (hm.trans hm2), hdirty, hst, fun j hok => ?_⟩
      exact (hsettled j hok).of_node (congrFun (hm.trans hm2).node j)
    · rintro e s2 hm2
      exact ⟨hf.synced.of_meta ((hm.trans hm2).trans .setSuperDirty), rfl⟩

end Sfs

end Ucore.Fs
