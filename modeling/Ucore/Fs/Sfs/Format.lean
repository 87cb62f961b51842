import Ucore.Fs.Sfs.Held

/-!
# An empty file system

What `sfs_do_mount` finds on an image that `mksfs` made of an empty directory, with the
root directory loaded.
-/

namespace Ucore.Fs

open Lib (Count Ledger)

def DiskInode.root : DiskInode := { DiskInode.new .dir with nlinks := 2, parent := blknRoot }

def firstBlock (blocks : Nat) : Nat := blknFreemap + freemapBlocks blocks

namespace Sfs

def format (blocks : Nat) (pinned : Bool) : Sfs where
  blocks := blocks
  unusedBlocks := blocks - firstBlock blocks
  info _ := 0
  superDirty := false
  freemap b := decide (firstBlock blocks ≤ b ∧ b < blocks)
  disk b := if b = blknRoot then .inode .root else .zero
  node i := if i = blknRoot then some (.init .root) else none
  pinned := pinned
  staleLoad := false

def FormatOk (blocks : Nat) : Prop := firstBlock blocks ≤ blocks ∧ blocks ≤ 1048576

instance (n : Nat) : Decidable (FormatOk n) := inferInstanceAs (Decidable (_ ∧ _))

variable {n : Nat} {pinned : Bool}

lemma format_node_root : (format n pinned).node blknRoot = some (.init .root) := rfl

lemma format_node_ne (h : i ≠ blknRoot) : (format n pinned).node i = none := if_neg h

lemma root_part {disk : Nat → Content} : DiskInode.root.part disk p = 0 := by
  have hsecond : ∀ q, DiskInode.root.second disk q = 0 := by
    intro q
    simp [DiskInode.second, DiskInode.root, DiskInode.new, sub]
  cases p with
  | leaf k =>
    simp only [DiskInode.part, DiskInode.bmap, hsecond]
    simp [DiskInode.root, DiskInode.new, sub]
  | indirect => rfl
  | double => rfl
  | second q => exact hsecond q

lemma format_core_root : (format n pinned).vol.core blknRoot = { removed := false, refCount := 1 } :=
  core_of_node format_node_root

lemma format_core_ne (h : i ≠ blknRoot) : (format n pinned).vol.core i = .idle := core_of_none (format_node_ne h)

section

variable (h : FormatOk n)
include h

lemma format_used : (format n pinned).used b = decide (b = blknRoot) := by
  have hlt := h.1
  have hfree : (format n pinned).freemap b = false ↔ ¬ (firstBlock n ≤ b ∧ b < n) := decide_eq_false_iff_not
  rw [Bool.eq_iff_iff, used_iff, hfree, decide_eq_true_eq]
  simp only [Reserved, format, firstBlock, blknFreemap, blknRoot] at hlt ⊢
  omega

lemma format_din : (format n pinned).din i = if i = blknRoot then some .root else none := by
  by_cases hi : i = blknRoot
  · subst hi
    exact din_of_node format_node_root
  · rw [if_neg hi, din_unused (format_node_ne hi)]
    simp [format_used h, hi]

lemma format_place : (format n pinned).place r = if r = .inode blknRoot then blknRoot else 0 := by
  cases r with
  | inode i => by_cases hi : i = blknRoot <;> simp [place, format_din h, hi]
  | part i p => by_cases hi : i = blknRoot <;> simp [place, format_din h, hi, root_part]

lemma format_file : (format n pinned).vol.file i =
    if i = blknRoot then some { File.new .dir with nlinks := 2, parent := blknRoot } else none := by
  by_cases hi : i = blknRoot
  · subst hi
    have hleaf : (format n pinned).leafAt blknRoot = fun _ => none := by
      funext k
      simp [leafAt, format_place h]
    rw [file_of_din (by rw [format_din h, if_pos rfl])]
    simp [fileOf, hleaf, DiskInode.root, DiskInode.new, File.new]
  · simp [vol, format_din h, hi]

lemma format_slot : (format n pinned).vol.slot p = none := by
  by_cases hp : p.1 = blknRoot <;> simp [Vol.slot, format_file h, hp, File.live, File.new]

lemma format_freeBits : (format n pinned).freeBits = n - firstBlock n := by
  have hset : ((Finset.range n).filter fun b => (format n pinned).freemap b = true) =
      Finset.range n \ Finset.range (firstBlock n) := by
    ext b
    simp only [format, Finset.mem_filter, Finset.mem_range, decide_eq_true_eq, Finset.mem_sdiff]
    omega
  have hle : Finset.range (firstBlock n) ⊆ Finset.range n := Finset.range_subset_range.mpr h.1
  rw [freeBits, show (format n pinned).blocks = n from rfl, hset, Finset.card_sdiff_of_subset hle]
  simp

lemma format_inv : (format n pinned).Inv busy where
  ledger := by
    refine ⟨fun r hr => ?_, fun r r' hr heq => ?_, fun b hb => ?_⟩
    · grind [format_used, format_place]
    · grind [format_place]
    · rw [format_used h] at hb
      have hb := of_decide_eq_true hb
      exact ⟨by rw [hb]; decide, .inode blknRoot, by rw [format_place h, if_pos rfl, hb]⟩
  bits b hb := by
    grind [Reserved, firstBlock, blknFreemap, format]
  unused := (format_freeBits h).symm
  small := h.2
  cached i x hx := by
    grind [format_used, format_node_ne]
  mapped i d hd k := by
    grind [format_din, DiskInode.new, DiskInode.root, format_place]
  synced i x hx _ _ _ := by
    by_cases hi : i = blknRoot
    · subst hi
      cases hx
      rfl
    · simp [format_node_ne hi] at hx
  counts i x hx := by
    by_cases hi : i = blknRoot
    · subst hi
      cases hx
      rfl
    · simp [format_node_ne hi] at hx
  typed i d hd := by
    by_cases hi : i = blknRoot
    · rw [format_din h, if_pos hi] at hd
      cases hd
      exact .inl rfl
    · simp [format_din h, hi] at hd

lemma format_only_root (hf : (format n pinned).vol.file i = some f) :
    i = blknRoot ∧ f = { File.new .dir with nlinks := 2, parent := blknRoot } := by
  grind [format_file]

lemma format_count : Count (format n pinned).vol.slot P 0 := Count.zero fun p e he => by
  simp [format_slot h] at he

lemma format_wf : (format n pinned).vol.Wf none where
  distinct := by simp [format_slot h]
  plain := by simp [format_slot h]
  target := by simp [format_slot h]
  parent := by simp [format_slot h]
  slots d f hf _ := by
    obtain ⟨rfl, rfl⟩ := format_only_root h hf
    exact format_count h
  fileRefs i f hf hdir := by
    obtain ⟨rfl, rfl⟩ := format_only_root h hf
    simp [File.new] at hdir
  dirRefs i f hf _ _ hne := absurd (format_only_root h hf).1 hne
  dirLinks i f hf _ _ := by
    obtain ⟨rfl, rfl⟩ := format_only_root h hf
    exact ⟨0, format_count h, rfl⟩
  removed i hr := by
    grind [Core.idle, format_core_root, format_core_ne]
  unlinked i f hf hl := by
    obtain ⟨rfl, rfl⟩ := format_only_root h hf
    simp at hl
  idle i hi := by
    refine format_core_ne ?_
    rintro rfl
    simp [format_file h] at hi
  coded d f k c hf _ hc := by
    obtain ⟨rfl, rfl⟩ := format_only_root h hf
    simp [File.new] at hc
  root := ⟨_, by rw [format_file h, if_pos rfl], rfl, rfl, rfl⟩
  rooted := by simp

lemma format_good : Good {blknRoot} tree (format n pinned) where
  inv := format_inv h
  ok := by
    refine ⟨format_wf h, fun i => ?_, ?_, Multiset.mem_singleton_self _, ?_, fun _ => ?_⟩
    · by_cases hi : i = blknRoot
      · simp [hi, format_core_root]
      · simp [format_core_ne hi, Core.idle, hi]
    · intro i f hf
      obtain ⟨rfl, rfl⟩ := format_only_root h hf
      simp
    · intro i f hf hdir
      obtain ⟨rfl, rfl⟩ := format_only_root h hf
      simp [File.new] at hdir
    · intro i hi hr
      obtain ⟨f, hf, -⟩ := Vol.isDir_iff.mp hi
      rw [(format_only_root h hf).1]
      exact .self

end

end Sfs

end Ucore.Fs
