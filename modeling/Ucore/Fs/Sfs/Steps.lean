import Ucore.Fs.Sfs.Vol

/-!
# Elementary steps

Every operation is made of a few changes of the state: a block becomes a part of an
inode or ceases to be one, the contents of a block or an attribute change, an inode
appears in memory or leaves it.
-/

namespace Ucore.Fs

open Function
open Lib (Ledger)
open Ucore.Fs.Part (doubleIndex)

def Role.isTable : Role → Bool
  | .inode _ => false
  | .part _ p => p.isTable

namespace Sfs

variable {s s' : Sfs} {busy : Nat → Prop}

lemma freeBits_take (hb : b < s.blocks) (hf : s.freemap b = true)
    (hblocks : s'.blocks = s.blocks) (hmap : s'.freemap = update s.freemap b false) :
    s'.freeBits = s.freeBits - 1 := by
  have heq : (Finset.range s'.blocks).filter (fun c => s'.freemap c = true) =
      ((Finset.range s.blocks).filter fun c => s.freemap c = true).erase b := by
    ext c
    simp only [hblocks, hmap, Finset.mem_filter, Finset.mem_range, Finset.mem_erase, update_apply]
    grind
  rw [freeBits, heq, Finset.card_erase_of_mem (by simp [hb, hf])]
  rfl

lemma freeBits_pos (hb : b < s.blocks) (hf : s.freemap b = true) : 0 < s.freeBits :=
  Finset.card_pos.mpr ⟨b, by simp [hb, hf]⟩

lemma freeBits_give (hb : b < s.blocks) (hf : s.freemap b = false)
    (hblocks : s'.blocks = s.blocks) (hmap : s'.freemap = update s.freemap b true) :
    s'.freeBits = s.freeBits + 1 := by
  have heq : (Finset.range s'.blocks).filter (fun c => s'.freemap c = true) =
      insert b ((Finset.range s.blocks).filter fun c => s.freemap c = true) := by
    ext c
    simp only [hblocks, hmap, Finset.mem_filter, Finset.mem_range, Finset.mem_insert, update_apply]
    grind
  grind [freeBits]

namespace Inv

section

variable (h : s.Inv busy)
include h

section

variable (hf : s.freemap b = true)
include hf

lemma node_free : s.node b = none := by
  cases hn : s.node b with
  | none => rfl
  | some x => exact absurd (h.cached b x hn) (by simp [not_used_of_free hf])

lemma din_free : s.din b = none := din_unused (h.node_free hf) (not_used_of_free hf)

lemma ne_zero_of_free : b ≠ 0 := by
  rintro rfl
  exact (h.bits 0 hf).2 (.inl rfl)

lemma place_ne_free (hr : s.place r ≠ 0) : s.place r ≠ b :=
  h.ledger.ne_of_unused (not_used_of_free hf) hr

end

lemma used_place (hr : s.place r ≠ 0) : s.used (s.place r) = true := h.ledger.used_of_place r hr

lemma not_reserved (he : s.place r = e) (he0 : e ≠ 0) : ¬ Reserved s.blocks e :=
  (used_iff.mp (he ▸ h.used_place (he ▸ he0))).2.2

lemma used_din (hd : s.din i = some d) : s.used i = true := by
  cases hn : s.node i with
  | some x => exact h.cached i x hn
  | none =>
    by_contra hu
    rw [din_unused hn (by simpa using hu)] at hd
    cases hd

lemma apart (hd : s.din i = some d) : d.Apart s.disk := by
  intro p p' h0 heq
  rw [← place_part hd, ← place_part hd] at heq
  rw [← place_part hd] at h0
  simpa using h.ledger.inj _ _ h0 heq

lemma asInode_part (h0 : s.place (.part i p) ≠ 0) :
    s.node (s.place (.part i p)) = none ∧ (s.disk (s.place (.part i p))).asInode = none := by
  have hu := h.used_place h0
  have hnone : s.din (s.place (.part i p)) = none := by
    cases hd : s.din (s.place (.part i p)) with
    | none => rfl
    | some d => exact absurd (h.ledger.inj _ _ h0 (place_inode hd).symm) (by simp)
  have hn : s.node (s.place (.part i p)) = none := by
    cases hn : s.node (s.place (.part i p)) with
    | none => rfl
    | some x => exact absurd (din_of_node hn) (by simp [hnone])
  exact ⟨hn, by rw [← hnone, din_of_disk hn hu]⟩

end

end Inv

structure SameAttrs (x x' : Sin) : Prop where
  removed : x'.removed = x.removed
  refCount : x'.refCount = x.refCount
  reclaimCount : x'.reclaimCount = x.reclaimCount
  type : x'.din.type = x.din.type
  nlinks : x'.din.nlinks = x.din.nlinks
  parent : x'.din.parent = x.din.parent
  size : x'.din.size = x.din.size

lemma SameAttrs.refl (x : Sin) : SameAttrs x x := ⟨rfl, rfl, rfl, rfl, rfl, rfl, rfl⟩

/-- What no operation on files and directories changes: the superblock and the
free map on the device, and those in memory unless they are marked dirty. -/
structure Kept (s s' : Sfs) : Prop where
  blocks : s'.blocks = s.blocks
  info : s'.info = s.info
  pinned : s'.pinned = s.pinned
  staleLoad : s'.staleLoad = s.staleLoad
  clean : s'.superDirty = false → s.superDirty = false ∧ s'.freemap = s.freemap ∧ s'.unusedBlocks = s.unusedBlocks
  fixed : ∀ b, Reserved s.blocks b → s'.disk b = s.disk b

namespace Kept

lemma refl (s : Sfs) : Kept s s := ⟨rfl, rfl, rfl, rfl, fun h => ⟨h, rfl, rfl⟩, fun _ _ => rfl⟩

lemma trans (h : Kept s s') (h' : Kept s' s'') : Kept s s'' where
  blocks := h'.blocks.trans h.blocks
  info := h'.info.trans h.info
  pinned := h'.pinned.trans h.pinned
  staleLoad := h'.staleLoad.trans h.staleLoad
  clean hclean := by
    obtain ⟨hc', hf', hu'⟩ := h'.clean hclean
    obtain ⟨hc, hf, hu⟩ := h.clean hc'
    exact ⟨hc, hf'.trans hf, hu'.trans hu⟩
  fixed b hb := (h'.fixed b (by rwa [h.blocks])).trans (h.fixed b hb)

lemma take (hb : ¬ Reserved s.blocks b) : Kept s (s.take b) where
  blocks := rfl
  info := rfl
  pinned := rfl
  staleLoad := rfl
  clean hclean := by simp [Sfs.take] at hclean
  fixed c hc := update_of_ne (show c ≠ b from fun hcb => hb (hcb ▸ hc)) ..

lemma give : Kept s (s.give b) where
  blocks := rfl
  info := rfl
  pinned := rfl
  staleLoad := rfl
  clean hclean := by simp [Sfs.give] at hclean
  fixed _ _ := rfl

lemma write (hb : ¬ Reserved s.blocks b) : Kept s (s.write b c) where
  blocks := rfl
  info := rfl
  pinned := rfl
  staleLoad := rfl
  clean hclean := ⟨hclean, rfl, rfl⟩
  fixed d hd := update_of_ne (show d ≠ b from fun hdb => hb (hdb ▸ hd)) ..

lemma setNode : Kept s (s.setNode i x) := ⟨rfl, rfl, rfl, rfl, fun h => ⟨h, rfl, rfl⟩, fun _ _ => rfl⟩

end Kept

structure Remap (s s' : Sfs) (i : Nat) (p : Part) (b : Nat) (x x' : Sin) : Prop where
  kept : Kept s s'
  place : s'.place = update s.place (.part i p) b
  din_of_ne : ∀ j, j ≠ i → s'.din j = s.din j
  node_of_ne : ∀ j, j ≠ i → s'.node j = s.node j
  before : s.node i = some x
  after : s'.node i = some x'
  attrs : SameAttrs x x'
  disk : ∀ r, r.isTable = false → s.place r ≠ 0 → r ≠ .part i p → s'.disk (s.place r) = s.disk (s.place r)

lemma fileOf_congr (h : s'.leafAt i = s.leafAt i) : s'.fileOf i = s.fileOf i := by
  funext d
  simp only [fileOf, h]

namespace Remap

section

variable (hr : Remap s s' i p b x x')
include hr

lemma leafAt (hne : j ≠ i ∨ p ≠ .leaf k) : s'.leafAt j k = s.leafAt j k := by
  have hrole : Role.part j (.leaf k) ≠ .part i p := by
    rcases hne with hne | hne
    · simp [hne]
    · exact fun heq => hne (Role.part.inj heq).2.symm
  have hplace : s'.place (.part j (.leaf k)) = s.place (.part j (.leaf k)) := by
    rw [hr.place, update_of_ne hrole]
  simp only [Sfs.leafAt, hplace]
  split
  · rfl
  · rw [hr.disk _ rfl ‹_› hrole]

omit hr in
lemma leafAt_self (hr : Remap s s' i (.leaf k) b x x') : s'.leafAt i k = if b = 0 then none else some (s'.disk b) := by
  simp only [Sfs.leafAt, hr.place, update_self]

lemma vol_eq {g : (Nat → Option Content) → Nat → Option Content} (hleaf : s'.leafAt i = g (s.leafAt i)) :
    s'.vol = s.vol.modFile i fun f => { f with leaf := g f.leaf, blocks := x'.din.blocks } := by
  have ha := hr.attrs
  have hd := din_of_node hr.before
  have hd' := din_of_node hr.after
  simp only [vol, Vol.modFile, Vol.mk.injEq]
  constructor
  · funext j
    by_cases hj : j = i
    · subst hj
      simp [hd, hd', fileOf, ha.type, ha.nlinks, ha.parent, ha.size, hleaf]
    · rw [update_of_ne hj, hr.din_of_ne j hj, fileOf_congr (funext fun k => hr.leafAt (.inl hj))]
  · grind [Sin.core, hr.before, hr.after, ha.removed, ha.refCount, hr.node_of_ne]

lemma vol_table (hp : p.isTable = true) (hb : x'.din.blocks = x.din.blocks) : s'.vol = s.vol := by
  have hleaf : s'.leafAt i = s.leafAt i := funext fun k => hr.leafAt (.inr (by rintro rfl; cases hp))
  rw [hr.vol_eq (g := id) hleaf, Vol.modFile]
  have hfile : s.vol.file i = some (s.fileOf i x.din) := by simp [vol, din_of_node hr.before]
  rw [hfile]
  simp only [hb, Option.map_some, id_eq]
  rw [show { s.fileOf i x.din with blocks := x.din.blocks } = s.fileOf i x.din from rfl, ← hfile, Function.update_eq_self]

lemma recount (x'' : Sin) (hattrs : SameAttrs x' x'') (hpart : ∀ disk, x''.din.part disk = x'.din.part disk) :
    Remap s (s'.setNode i (some x'')) i p b x x'' where
  kept := hr.kept.trans .setNode
  place := by
    rw [← hr.place]
    funext r
    cases r with
    | inode j => grind [Sfs.place, din_of_node, din_setNode_some, din_setNode_of_ne, hr.after]
    | part j q =>
      by_cases hj : j = i
      · subst hj
        rw [place_part din_setNode_some, place_part (din_of_node hr.after)]
        exact congrFun (hpart _) q
      · simp only [Sfs.place, din_setNode_of_ne hj]
        rfl
  din_of_ne j hj := (din_setNode_of_ne hj).trans (hr.din_of_ne j hj)
  node_of_ne j hj := (update_of_ne hj ..).trans (hr.node_of_ne j hj)
  before := hr.before
  after := update_self ..
  attrs := ⟨hattrs.removed.trans hr.attrs.removed, hattrs.refCount.trans hr.attrs.refCount,
    hattrs.reclaimCount.trans hr.attrs.reclaimCount, hattrs.type.trans hr.attrs.type,
    hattrs.nlinks.trans hr.attrs.nlinks, hattrs.parent.trans hr.attrs.parent, hattrs.size.trans hr.attrs.size⟩
  disk := hr.disk

end

end Remap

namespace Inv

lemma remap_of (hx : s.node i = some x) (hx' : s'.node i = some x')
    (hattrs : SameAttrs x x') (hdin : ∀ j, j ≠ i → s'.din j = s.din j)
    (hnode : ∀ j, j ≠ i → s'.node j = s.node j) (hkept : Kept s s')
    (hdisk : ∀ r, s.place r ≠ 0 → r ≠ .part i p → (∀ q, r = .part i q → q.isTable = false) →
    s'.disk (s.place r) = s.disk (s.place r))
    (hpart : x'.din.part s'.disk = update (x.din.part s.disk) p v) : Remap s s' i p v x x' where
  kept := hkept
  place := place_update (din_of_node hx) (din_of_node hx') hpart hdin fun j q hj hq h0 =>
    hdisk _ h0 (by simp [hj]) fun q' heq => absurd (Role.part.inj heq).1 hj
  din_of_ne := hdin
  node_of_ne := hnode
  before := hx
  after := hx'
  attrs := hattrs
  disk r hr h0 hne := hdisk r h0 hne fun q heq => by rw [heq] at hr; exact hr

section

variable (h : s.Inv busy)
include h

lemma remap {busy' : Nat → Prop} (hr : Remap s s' i p b x x')
    (hbusy : ∀ j, ¬ busy' j → ¬ busy j) (hdirty : ¬ busy' i → x'.dirty = true ∨ x' = x)
    (hledger : Ledger s'.place s'.used)
    (hbits : ∀ b, s'.freemap b = true → b < s'.blocks ∧ ¬ Reserved s'.blocks b)
    (hunused : s'.unusedBlocks = s'.freeBits) (hused : ∀ j, s.node j ≠ none → s'.used j = true)
    (hmapped : ∀ k, s'.place (.part i (.leaf k)) ≠ 0 ↔ k < x'.din.blocks) :
    s'.Inv busy' := by
  -- an inode in memory is the old one or `i`
  have hnode : ∀ j y', s'.node j = some y' →
      ∃ y, s.node j = some y ∧ SameAttrs y y' ∧ (¬ busy' j → y'.dirty = true ∨ y' = y) := by
    intro j y' hy'
    by_cases hj : j = i
    · subst hj
      obtain rfl : x' = y' := Option.some.inj (hr.after.symm.trans hy')
      exact ⟨x, hr.before, hr.attrs, hdirty⟩
    · exact ⟨y', (hr.node_of_ne j hj).symm.trans hy', .refl y', fun _ => .inr rfl⟩
  refine ⟨hledger, hbits, hunused, hr.kept.blocks ▸ h.small, ?_, ?_, ?_, ?_, ?_⟩
  · grind
  · intro j d hd k
    by_cases hj : j = i
    · subst hj
      rw [din_of_node hr.after] at hd
      cases hd
      exact hmapped k
    · rw [hr.place, update_of_ne (by simp [hj])]
      exact h.mapped j d ((hr.din_of_ne j hj).symm.trans hd) k
  · intro j y' hy' hb hd hl
    obtain ⟨y, hy, -, hs⟩ := hnode j y' hy'
    have hdin := din_of_node hy
    have hjz : j ≠ 0 := ne_zero_of_used (h.cached j y hy)
    have hkeep : s'.disk j = s.disk j := by
      have := hr.disk (.inode j) rfl (by rwa [place_inode hdin]) (by simp)
      rwa [place_inode hdin] at this
    rcases hs hb with hd' | rfl
    · exact absurd (hd.symm.trans hd') (by simp)
    · rw [hkeep]
      exact h.synced j y' hy (hbusy j hb) hd hl
  · intro j y' hy'
    obtain ⟨y, hy, hs, -⟩ := hnode j y' hy'
    rw [hs.reclaimCount, hs.refCount]
    exact h.counts j y hy
  · grind [din_of_node, hr.after, hr.attrs.type, h.typed, hr.before, hr.din_of_ne]

lemma grow_accounts (hr : Remap s s' i p b x x') (hf : s.freemap b = true)
    (h0 : s.place (.part i p) = 0) (hmap : s'.freemap = update s.freemap b false)
    (hun : s'.unusedBlocks = s.unusedBlocks - 1) :
    Ledger s'.place s'.used ∧ (∀ b, s'.freemap b = true → b < s'.blocks ∧ ¬ Reserved s'.blocks b) ∧
      s'.unusedBlocks = s'.freeBits ∧ ∀ j, s.node j ≠ none → s'.used j = true := by
  obtain ⟨hlt, hres⟩ := h.bits b hf
  have hused : s'.used = update s.used b true := by
    rw [← used_take hlt hres]
    funext c
    simp only [used, hmap, hr.kept.blocks, take]
    rfl
  refine ⟨?_, ?_, ?_, ?_⟩
  · rw [hr.place, hused]
    exact h.ledger.take h0 (not_used_of_free hf) (h.ne_zero_of_free hf)
  · intro c hc
    rw [hmap] at hc
    by_cases hcb : c = b
    · subst hcb
      simp at hc
    rw [update_of_ne hcb] at hc
    rw [hr.kept.blocks]
    exact h.bits c hc
  · rw [hun, h.unused, freeBits_take hlt hf hr.kept.blocks hmap]
  · intro j hj
    rw [hused]
    by_cases hjb : j = b
    · simp [hjb]
    rw [update_of_ne hjb]
    cases hx : s.node j with
    | none => exact absurd hx hj
    | some x => exact h.cached j x hx

lemma grow_table (hr : Remap s s' i p b x x') (hp : p.isTable = true)
    (hblocks : x'.din.blocks = x.din.blocks) (hdirty : x'.dirty = true ∨ x' = x) (hf : s.freemap b = true)
    (h0 : s.place (.part i p) = 0) (hmap : s'.freemap = update s.freemap b false)
    (hun : s'.unusedBlocks = s.unusedBlocks - 1) : s'.Inv busy ∧ s'.vol = s.vol := by
  obtain ⟨hledger, hbits, hunused, hused⟩ := h.grow_accounts hr hf h0 hmap hun
  refine ⟨h.remap hr (fun _ => id) (fun _ => hdirty) hledger hbits hunused hused ?_, hr.vol_table hp hblocks⟩
  intro k
  rw [hr.place, update_of_ne, hblocks]
  · exact h.mapped i _ (din_of_node hr.before) k
  · rintro heq
    obtain ⟨-, rfl⟩ := Role.part.inj heq
    cases hp

lemma grow_leaf (hr : Remap s s' i (.leaf x.din.blocks) b x x')
    (hblocks : x'.din.blocks = x.din.blocks + 1) (hf : s.freemap b = true)
    (hmap : s'.freemap = update s.freemap b false) (hun : s'.unusedBlocks = s.unusedBlocks - 1)
    (hzero : s'.disk b = .zero) :
    s'.Inv (fun j => busy j ∨ j = i) ∧ s'.vol = s.vol.modFile i (.put x.din.blocks .zero) := by
  have hb0 := h.ne_zero_of_free hf
  have hmapped := h.mapped i _ (din_of_node hr.before)
  have h0 : s.place (.part i (.leaf x.din.blocks)) = 0 := by
    by_contra hne
    exact absurd ((hmapped _).mp hne) (by omega)
  obtain ⟨hledger, hbits, hunused, hused⟩ := h.grow_accounts hr hf h0 hmap hun
  refine ⟨h.remap hr (fun _ hj hb => hj (.inl hb)) (fun hi => absurd (.inr rfl) hi) hledger hbits hunused hused ?_, ?_⟩
  · intro k
    rw [hr.place, hblocks, update_apply]
    by_cases hk : k = x.din.blocks
    · simp [hk, hb0]
    · rw [if_neg (by simpa using hk), hmapped k]
      omega
  · have hleaf : s'.leafAt i = update (s.leafAt i) x.din.blocks (some .zero) := by
      funext k
      by_cases hk : k = x.din.blocks
      · subst hk
        rw [hr.leafAt_self, if_neg hb0, hzero, update_self]
      · rw [hr.leafAt (.inr (by simpa using Ne.symm hk)), update_of_ne hk]
    rw [hr.vol_eq (g := fun l => update l x.din.blocks (some .zero)) hleaf, hblocks]
    simp [Vol.modFile, fileOf, File.put, din_of_node, vol, hr.before]

lemma part_take (hd : s.din i = some d) (hf : s.freemap b = true) : d.part (s.take b).disk = d.part s.disk := by
  refine DiskInode.part_congr fun p _ h0 => update_of_ne ?_ ..
  rw [← place_part hd] at h0 ⊢
  exact h.place_ne_free hf h0

lemma apart_take (hd : s.din i = some d) (hf : s.freemap b = true) : d.Apart (s.take b).disk := by
  unfold DiskInode.Apart
  rw [h.part_take hd hf]
  exact h.apart hd

lemma grow_pointer (hx : s.node i = some x) (hf : s.freemap b = true) (hattrs : SameAttrs x (x.touch g))
    (hpart : (g x.din).part (s.take b).disk = update (x.din.part (s.take b).disk) p b) :
    Remap s ((s.take b).setNode i (some (x.touch g))) i p b x (x.touch g) := by
  have hdin := din_take (h.node_free hf) (not_used_of_free hf)
  refine remap_of hx (update_self ..) hattrs ?_ ?_ ((Kept.take (h.bits b hf).2).trans .setNode) ?_ ?_
  · intro j hj
    rw [din_setNode_of_ne hj, hdin]
  · exact fun j hj => update_of_ne hj ..
  · exact fun r h0 _ _ => update_of_ne (h.place_ne_free hf h0) ..
  · rw [← h.part_take (din_of_node hx) hf]
    exact hpart

lemma grow_word (hx : s.node i = some x) (hf : s.freemap b = true)
    (hP : P.isTable = true) (he : s.place (.part i P) = e) (he0 : e ≠ 0)
    (hpart : x.din.part (update (s.take b).disk e (((s.take b).disk e).setWord k b)) = update
    (x.din.part (s.take b).disk) p b) :
    Remap s ((s.take b).write e (((s.take b).disk e).setWord k b)) i p b x x := by
  have hne : e ≠ b := he ▸ h.place_ne_free hf (he ▸ he0)
  have hdin : ((s.take b).write e (((s.take b).disk e).setWord k b)).din = s.din := by
    rw [din_write, din_take (h.node_free hf) (not_used_of_free hf)]
    refine .inr ⟨?_, rfl⟩
    rw [take_disk, update_of_ne hne, ← he]
    exact (h.asInode_part (he ▸ he0)).2
  refine remap_of hx hx (.refl x) (fun j _ => congrFun hdin j) (fun j _ => rfl)
    ((Kept.take (h.bits b hf).2).trans (.write (h.not_reserved he he0))) ?_ ?_
  · intro r h0 _ htab
    have hre : s.place r ≠ e := by
      rw [← he]
      refine h.ledger.ne_of_ne ?_ h0
      rintro rfl
      exact absurd (htab P rfl) (by simp [hP])
    rw [write_disk, update_of_ne hre, take_disk, update_of_ne (h.place_ne_free hf h0)]
  · rw [← h.part_take (din_of_node hx) hf]
    exact hpart

lemma sub_take (hf : s.freemap b = true) : sub (s.take b).disk b k = 0 := by
  simp [sub, h.ne_zero_of_free hf]

section

variable (hx : s.node i = some x) (hf : s.freemap b = true)
include hx hf

lemma remap_direct (hk : k < ndirect) :
    Remap s ((s.take b).setNode i (some (x.touch (.setDirect k b)))) i (.leaf k) b x (x.touch (.setDirect k b)) :=
  h.grow_pointer hx hf ⟨rfl, rfl, rfl, rfl, rfl, rfl, rfl⟩ (DiskInode.part_setDirect hk)

lemma remap_indirect (h0 : x.din.indirect = 0) :
    Remap s ((s.take b).setNode i (some (x.touch (.setIndirect b)))) i .indirect b x (x.touch (.setIndirect b)) :=
  h.grow_pointer hx hf ⟨rfl, rfl, rfl, rfl, rfl, rfl, rfl⟩
    (DiskInode.part_setIndirect (fun _ => by simp [sub, h0]) fun _ => h.sub_take hf)

lemma remap_dbIndirect (h0 : x.din.dbIndirect = 0) :
    Remap s ((s.take b).setNode i (some (x.touch (.setDbIndirect b)))) i .double b x (x.touch (.setDbIndirect b)) :=
  h.grow_pointer hx hf ⟨rfl, rfl, rfl, rfl, rfl, rfl, rfl⟩
    (DiskInode.part_setDbIndirect (fun _ => by simp [sub, h0]) fun _ => h.sub_take hf)

lemma remap_word_indirect (he : x.din.indirect ≠ 0) (hk : k < blkNentry) :
    Remap s ((s.take b).write x.din.indirect (((s.take b).disk x.din.indirect).setWord k b)) i
    (.leaf (ndirect + k)) b x x :=
  h.grow_word hx hf (P := .indirect) rfl (place_part (din_of_node hx)) he
    (DiskInode.part_setWord_indirect (h.apart_take (din_of_node hx) hf) he hk)

lemma remap_word_second
    (he : s.place (.part i (.second q)) = e) (he0 : e ≠ 0) (hk : k < blkNentry) :
    Remap s ((s.take b).write e (((s.take b).disk e).setWord k b)) i (.leaf (doubleIndex q k)) b x x := by
  have hsecond : x.din.second (s.take b).disk q = e := by
    have := congrFun (h.part_take (din_of_node hx) hf) (.second q)
    rw [place_part (din_of_node hx)] at he
    exact this.trans he
  refine h.grow_word hx hf (P := .second q) rfl he he0 ?_
  rw [← hsecond]
  exact DiskInode.part_setWord_second (h.apart_take (din_of_node hx) hf) (hsecond ▸ he0) hk

lemma remap_word_double
    (he : x.din.dbIndirect ≠ 0) (hk : k < blkNentry) (h0 : s.place (.part i (.second k)) = 0) :
    Remap s ((s.take b).write x.din.dbIndirect (((s.take b).disk x.din.dbIndirect).setWord k b)) i (.second k) b x x := by
  have hsecond : x.din.second (s.take b).disk k = 0 := by
    have := congrFun (h.part_take (din_of_node hx) hf) (.second k)
    rw [place_part (din_of_node hx)] at h0
    exact this.trans h0
  have hne : b ≠ x.din.dbIndirect := by
    have hplace : s.place (.part i .double) = x.din.dbIndirect := place_part (din_of_node hx)
    rw [← hplace] at he ⊢
    exact (h.place_ne_free hf he).symm
  refine h.grow_word hx hf (P := .double) rfl (place_part (din_of_node hx)) he ?_
  refine DiskInode.part_setWord_double (h.apart_take (din_of_node hx) hf) he hk ?_ hne fun _ => h.sub_take hf
  intro r
  rw [hsecond]
  simp [sub]

end

lemma scratch (hblocks : s'.blocks = s.blocks) (hmap : s'.freemap = s.freemap)
    (hun : s'.unusedBlocks = s.unusedBlocks) (hnode : s'.node = s.node)
    (hdisk : ∀ b, s.used b = true → s'.disk b = s.disk b) : s'.Inv busy ∧ s'.vol = s.vol := by
  have hused : s'.used = s.used := by
    funext b
    simp only [used, hblocks, hmap]
  have hdin : s'.din = s.din := by
    funext j
    simp only [din, hnode, hused]
    cases s.node j with
    | some x => rfl
    | none =>
      by_cases hu : s.used j = true
      · simp only [hu, hdisk j hu]
      · simp [hu]
  have hplace : s'.place = s.place := place_congr hdin fun i p _ h0 => hdisk _ (h.used_place h0)
  have hleaf : s'.leafAt = s.leafAt := by
    funext i k
    simp only [leafAt, hplace]
    split
    · rfl
    · rw [hdisk _ (h.used_place ‹_›)]
  refine ⟨⟨?_, ?_, ?_, ?_, ?_, ?_, ?_, ?_, ?_⟩, ?_⟩
  · rw [hplace, hused]
    exact h.ledger
  · rw [hmap, hblocks]
    exact h.bits
  · rw [hun, h.unused, freeBits, freeBits, hmap, hblocks]
  · exact hblocks ▸ h.small
  · rw [hnode, hused]
    exact h.cached
  · rw [hdin, hplace]
    exact h.mapped
  · intro i x hx hb hd hl
    rw [hnode] at hx
    rw [hdisk i (h.cached i x hx)]
    exact h.synced i x hx hb hd hl
  · rw [hnode]
    exact h.counts
  · rw [hdin]
    exact h.typed
  · simp only [vol, hdin, hnode]
    congr 1
    funext i
    rw [fileOf_congr (congrFun hleaf i)]

lemma take_give (hf : s.freemap e = true) : ((s.take e).give e).Inv busy ∧ ((s.take e).give e).vol = s.vol := by
  refine h.scratch rfl ?_ ?_ rfl ?_
  · funext c
    by_cases hc : c = e
    · simp [take, give, hc, hf]
    · simp [take, give, update_of_ne hc]
  · have := freeBits_pos (h.bits e hf).1 hf
    simp only [take, give, h.unused]
    omega
  · intro b hb
    refine update_of_ne ?_ ..
    rintro rfl
    simp [not_used_of_free hf] at hb

lemma write_leaf (hb : s.place (.part i (.leaf k)) = b) (hb0 : b ≠ 0) (hc : c.asInode = none) :
    (s.write b c).Inv busy ∧ (s.write b c).vol = s.vol.modFile i (.put k c) := by
  subst hb
  obtain ⟨hn, hold⟩ := h.asInode_part hb0
  have hdin : (s.write (s.place (.part i (.leaf k))) c).din = s.din := din_write (.inr ⟨hold, hc⟩)
  have hother : ∀ r, s.place r ≠ 0 → r ≠ .part i (.leaf k) →
      (s.write (s.place (.part i (.leaf k))) c).disk (s.place r) = s.disk (s.place r) := fun r h0 hr =>
    update_of_ne (h.ledger.ne_of_ne hr h0) ..
  have hplace : (s.write (s.place (.part i (.leaf k))) c).place = s.place :=
    place_congr hdin fun j p hp h0 => hother _ h0 (by rintro heq; obtain ⟨-, rfl⟩ := Role.part.inj heq; cases hp)
  have hleaf : ∀ j l, (s.write (s.place (.part i (.leaf k))) c).leafAt j l =
      if j = i ∧ l = k then some c else s.leafAt j l := by
    intro j l
    simp only [leafAt, hplace]
    by_cases heq : j = i ∧ l = k
    · obtain ⟨rfl, rfl⟩ := heq
      simp [hb0]
    rw [if_neg heq]
    split
    · rfl
    · rw [hother _ ‹_› (by simpa using heq)]
  refine ⟨⟨?_, h.bits, h.unused, h.small, h.cached, ?_, ?_, h.counts, ?_⟩, ?_⟩
  · rw [hplace]
    exact h.ledger
  · rw [hdin, hplace]
    exact h.mapped
  · intro j x hx hbusy hd hl
    have hji : j ≠ s.place (.part i (.leaf k)) := by
      rintro rfl
      exact absurd hx (by simp [hn])
    rw [write_disk, update_of_ne hji]
    exact h.synced j x hx hbusy hd hl
  · rw [hdin]
    exact h.typed
  · refine Vol.ext (fun j => ?_) fun _ => rfl
    by_cases hj : j = i
    · subst hj
      obtain ⟨d, hd⟩ : ∃ d, s.din j = some d := by
        cases hd : s.din j with
        | some d => exact ⟨d, rfl⟩
        | none => exact absurd (place_part_none hd) hb0
      have hlt := (h.mapped j d hd k).mp hb0
      rw [Vol.modFile_file_self, file_of_din hd, file_of_din (hdin ▸ hd)]
      simp only [Option.map_some, fileOf, File.put, Option.some.injEq, File.mk.injEq, true_and]
      grind
    · have hsame : (s.write (s.place (.part i (.leaf k))) c).leafAt j = s.leafAt j :=
        funext fun l => by rw [hleaf, if_neg (by simp [hj])]
      rw [Vol.modFile_file_ne _ hj]
      simp only [vol, hdin, fileOf_congr hsame]

lemma din_place_part (h0 : s.place (.part i p) ≠ 0) : s.din (s.place (.part i p)) = none := by
  obtain ⟨hn, hd⟩ := h.asInode_part h0
  rw [din_of_disk hn (h.used_place h0), hd]

lemma shrink_leaf (hr : Remap s s' i (.leaf n) 0 x x') (hblocks : x.din.blocks = n + 1)
    (hblocks' : x'.din.blocks = n) (hdirty : x'.dirty = true)
    (hmap : s'.freemap = update s.freemap (s.place (.part i (.leaf n))) true)
    (hun : s'.unusedBlocks = s.unusedBlocks + 1) :
    s'.Inv busy ∧ s'.vol = s.vol.modFile i (.cut n) := by
  have hmapped := h.mapped i _ (din_of_node hr.before)
  have h0 : s.place (.part i (.leaf n)) ≠ 0 := (hmapped n).mpr (by omega)
  obtain ⟨hlt, hf, hres⟩ := used_iff.mp (h.used_place h0)
  have hused : s'.used = update s.used (s.place (.part i (.leaf n))) false := by
    rw [← used_give]
    funext c
    simp only [used, hmap, hr.kept.blocks, give]
    rfl
  refine ⟨h.remap hr (fun _ => id) (fun _ => .inl hdirty) ?_ ?_ ?_ ?_ ?_, ?_⟩
  · rw [hr.place, hused]
    exact h.ledger.give h0
  · intro c hc
    rw [hmap, update_apply] at hc
    rw [hr.kept.blocks]
    by_cases hcb : c = s.place (.part i (.leaf n))
    · rw [hcb]
      exact ⟨hlt, hres⟩
    · rw [if_neg hcb] at hc
      exact h.bits c hc
  · rw [hun, h.unused, freeBits_give hlt hf hr.kept.blocks hmap]
  · intro j hj
    cases hx : s.node j with
    | none => exact absurd hx hj
    | some y =>
      have hne : j ≠ s.place (.part i (.leaf n)) := by
        rintro rfl
        exact hj (h.asInode_part h0).1
      rw [hused, update_of_ne hne]
      exact h.cached j y hx
  · intro k
    rw [hr.place, hblocks', update_apply]
    grind
  · have hleaf : s'.leafAt i = update (s.leafAt i) n none := by
      funext k
      by_cases hk : k = n
      · grind [hr.leafAt_self]
      · rw [hr.leafAt (.inr (by simpa using Ne.symm hk)), update_of_ne hk]
    rw [hr.vol_eq (g := fun l => update l n none) hleaf, hblocks']
    rfl

lemma remap_give_direct (hx : s.node i = some x) (hk : k < ndirect) (h0 : s.place (.part i (.leaf k)) = b) (hb : b ≠ 0) :
    Remap s ((s.give b).setNode i (some (x.touch (.setDirect k 0)))) i (.leaf k) 0 x (x.touch (.setDirect k 0)) := by
  subst h0
  refine remap_of hx (update_self ..) ⟨rfl, rfl, rfl, rfl, rfl, rfl, rfl⟩ ?_
    (fun j hj => update_of_ne hj ..) (Kept.give.trans .setNode) (fun _ _ _ _ => rfl) (DiskInode.part_setDirect hk)
  intro j hj
  rw [din_setNode_of_ne hj, din_give (h.din_place_part hb)]

lemma remap_give_word (hx : s.node i = some x) (hP : P.isTable = true)
    (he : s.place (.part i P) = e) (he0 : e ≠ 0) (hb : s.place (.part i p) = b) (hb0 : b ≠ 0)
    (hpart : x.din.part (update s.disk e ((s.disk e).setWord k 0)) = update (x.din.part s.disk) p 0) :
    Remap s ((s.write e ((s.disk e).setWord k 0)).give b) i p 0 x x := by
  have hwrite : (s.write e ((s.disk e).setWord k 0)).din = s.din :=
    din_write (.inr ⟨he ▸ (h.asInode_part (he ▸ he0)).2, rfl⟩)
  have hdin : ((s.write e ((s.disk e).setWord k 0)).give b).din = s.din := by
    rw [din_give, hwrite]
    rw [hwrite, ← hb]
    exact h.din_place_part (hb ▸ hb0)
  refine remap_of hx hx (.refl x) (fun j _ => congrFun hdin j) (fun j _ => rfl)
    ((Kept.write (h.not_reserved he he0)).trans .give) ?_ hpart
  intro r h0 _ htab
  have hre : s.place r ≠ e := by
    rw [← he]
    refine h.ledger.ne_of_ne ?_ h0
    rintro rfl
    exact absurd (htab P rfl) (by simp [hP])
  exact update_of_ne hre ..

end

end Inv

end Sfs

end Ucore.Fs
