import Ucore.Fs.Sfs.BmapOk
import Ucore.Fs.Sfs.Dir

/-!
# Inodes in memory

Attributes change, inodes are loaded and written back, and the last reference to an
inode without links frees its blocks.
-/

namespace Ucore.Fs

open Function
open Lib (Ledger)
open Lib.Cmd
open Ucore.Fs.Part (doubleIndex)
open DiskInode (part bmap second new part_congr)

namespace Sfs

variable {s s' s'' : Sfs} {busy busy' : Nat → Prop} {allowed : Panic → Prop} {E : Errno → Sfs → Prop}

lemma setNode_self : (s.setNode i x).node i = x := update_self ..

lemma setNode_setNode : (s.setNode i x).setNode i y = s.setNode i y := by simp [setNode]

lemma place_setNode (hd : s.din i = some d) (hpart : ∀ disk, x.din.part disk = d.part disk) :
    (s.setNode i (some x)).place = s.place := by
  funext r
  cases r with
  | inode j => grind [place, din_setNode_some, din_setNode_of_ne]
  | part j p =>
    by_cases hj : j = i
    · subst hj
      rw [place_part din_setNode_some, place_part hd]
      exact congrFun (hpart _) p
    · simp only [place, din_setNode_of_ne hj]
      rfl

lemma vol_setNode (hd : s.din i = some d) (hpart : ∀ disk, x.din.part disk = d.part disk) :
    (s.setNode i (some x)).vol = (s.vol.setFile i (some (s.fileOf i x.din))).setCore i x.core := by
  have hleaf : (s.setNode i (some x)).leafAt = s.leafAt := by
    funext j k
    simp only [leafAt, place_setNode hd hpart]
    rfl
  refine Vol.ext (fun j => ?_) fun j => ?_
  · by_cases hj : j = i
    · subst hj
      rw [file_of_din din_setNode_some, fileOf_congr (congrFun hleaf j)]
      simp
    · rw [Vol.setCore_file, Vol.setFile_file_ne _ hj]
      simp only [vol, din_setNode_of_ne hj, fileOf_congr (congrFun hleaf j)]
  · by_cases hj : j = i
    · subst hj
      simp [vol]
    · rw [Vol.setCore_core_ne _ hj]
      simp [vol, update_of_ne hj]

lemma live_iff : s.live i = true ↔ ∃ f, s.vol.file i = some f ∧ f.nlinks ≠ 0 := by
  cases hd : s.din i with
  | none => simp [live, hd, vol]
  | some d => simp [live, hd, vol, fileOf]

lemma sat_fsync_clean {Q : Unit → Sfs → Prop} (hx : s.node i = some x) (hd : x.din.nlinks = 0 ∨ x.dirty = false) :
    Sat allowed (fsync i) s Q E ↔ Q () s := by
  rw [fsync, sat_bind, sat_sin hx, sat_when_not]
  rcases hd with hd | hd <;> simp [hd]

lemma part_new {disk : Nat → Content} : (new type).part disk p = 0 := by
  cases p with
  | leaf k => simp only [part, bmap, second, new, sub, ↓reduceIte, ite_self]
  | indirect => rfl
  | double => rfl
  | second q => simp only [part, second, new, sub, ↓reduceIte, ite_self]

section

variable (h : s.Inv busy)
include h

lemma Inv.setNode (hd : s.din i = some d) (hpart : ∀ disk, x.din.part disk = d.part disk)
    (hblocks : x.din.blocks = d.blocks) (htype : x.din.type = d.type)
    (hcount : x.reclaimCount = if x.refCount = 0 then 0 else 1)
    (hbusy : ∀ j, j ≠ i → ¬ busy' j → ¬ busy j)
    (hsync : ¬ busy' i → x.dirty = false → x.din.nlinks ≠ 0 → s.disk i = .inode x.din) :
    (s.setNode i (some x)).Inv busy' := by
  have hplace := place_setNode hd hpart
  have hnode : ∀ {P : Nat → Sin → Prop}, P i x → (∀ j y, j ≠ i → s.node j = some y → P j y) →
      ∀ j y, (s.setNode i (some x)).node j = some y → P j y := by
    intro P hi hne j y hy
    by_cases hj : j = i
    · subst hj
      rw [setNode_node, update_self] at hy
      exact Option.some.inj hy ▸ hi
    · rw [setNode_node, update_of_ne hj] at hy
      exact hne j y hj hy
  have hdin : ∀ {P : Nat → DiskInode → Prop}, P i x.din → (∀ j e, j ≠ i → s.din j = some e → P j e) →
      ∀ j e, (s.setNode i (some x)).din j = some e → P j e := by
    intro P hi hne j e he
    by_cases hj : j = i
    · subst hj
      rw [din_setNode_some] at he
      exact Option.some.inj he ▸ hi
    · rw [din_setNode_of_ne hj] at he
      exact hne j e hj he
  refine ⟨?_, h.bits, h.unused, h.small, ?_, ?_, ?_, ?_, ?_⟩
  · rw [hplace]
    exact h.ledger
  · exact hnode (h.used_din hd) fun j y _ => h.cached j y
  · rw [hplace]
    exact hdin (fun k => by rw [hblocks]; exact h.mapped i d hd k) fun j e _ => h.mapped j e
  · exact hnode (P := fun j y => ¬ busy' j → y.dirty = false → y.din.nlinks ≠ 0 → s.disk j = .inode y.din) hsync
      fun j y hj hy hb => h.synced j y hy (hbusy j hj hb)
  · exact hnode hcount fun j y _ => h.counts j y
  · exact hdin (htype ▸ h.typed i d hd) fun j e _ => h.typed j e

structure Attr (g : DiskInode → DiskInode) (g' : File → File) : Prop where
  part : ∀ d disk, (g d).part disk = d.part disk
  blocks : ∀ d, (g d).blocks = d.blocks
  type : ∀ d, (g d).type = d.type
  file : ∀ (s : Sfs) i d, s.fileOf i (g d) = g' (s.fileOf i d)

omit h in
lemma attr_of (hpart : ∀ d, (g d).direct = d.direct ∧ (g d).indirect = d.indirect ∧ (g d).dbIndirect = d.dbIndirect)
    (hblocks : ∀ d, (g d).blocks = d.blocks) (htype : ∀ d, (g d).type = d.type)
    (hfile : ∀ (s : Sfs) i d, s.fileOf i (g d) = g' (s.fileOf i d)) : Attr g g' := by
  refine ⟨fun d disk => ?_, hblocks, htype, hfile⟩
  obtain ⟨h1, h2, h3⟩ := hpart d
  funext p
  cases p <;> simp only [part, bmap, second, h1, h2, h3]

omit h in
lemma attr_setSize : Attr (.setSize n) (.setSize n) :=
  attr_of (fun _ => ⟨rfl, rfl, rfl⟩) (fun _ => rfl) (fun _ => rfl) fun _ _ _ => rfl
omit h in
lemma attr_setParent : Attr (.setParent n) (.setParent n) :=
  attr_of (fun _ => ⟨rfl, rfl, rfl⟩) (fun _ => rfl) (fun _ => rfl) fun _ _ _ => rfl
omit h in
lemma attr_incLinks : Attr .incLinks .incLinks :=
  attr_of (fun _ => ⟨rfl, rfl, rfl⟩) (fun _ => rfl) (fun _ => rfl) fun _ _ _ => rfl
omit h in
lemma attr_decLinks : Attr .decLinks .decLinks :=
  attr_of (fun _ => ⟨rfl, rfl, rfl⟩) (fun _ => rfl) (fun _ => rfl) fun _ _ _ => rfl

lemma Inv.touch (hx : s.node i = some x) (hg : Attr g g') (hbusy : ∀ j, j ≠ i → ¬ busy' j → ¬ busy j) :
    (s.setNode i (some (x.touch g))).Inv busy' ∧ (s.setNode i (some (x.touch g))).vol = s.vol.modFile i g' := by
  have hd := din_of_node hx
  have hpart : ∀ disk, (x.touch g).din.part disk = x.din.part disk := hg.part x.din
  refine ⟨h.setNode hd hpart (hg.blocks _) (hg.type _) (h.counts i x hx) hbusy fun _ hc => by simp [Sin.touch] at hc, ?_⟩
  rw [vol_setNode hd hpart]
  refine Vol.ext (fun j => ?_) fun j => ?_
  · by_cases hj : j = i
    · subst hj
      simp [file_of_din hd, Sin.touch, hg.file]
    · simp [Vol.setFile_file_ne _ hj, Vol.modFile_file_ne _ hj]
  by_cases hj : j = i
  · subst hj
    rw [Vol.setCore_core_self, Vol.modFile_core, core_of_node hx]
    rfl
  · simp [Vol.setCore_core_ne _ hj]

lemma Inv.setMem (hd : s.din i = some x.din) (hcount : x.reclaimCount = if x.refCount = 0 then 0 else 1)
    (hsync : ¬ busy i → x.dirty = false → x.din.nlinks ≠ 0 → s.disk i = .inode x.din) :
    (s.setNode i (some x)).Inv busy ∧ (s.setNode i (some x)).vol = s.vol.setCore i x.core := by
  refine ⟨h.setNode hd (fun _ => rfl) rfl rfl hcount (fun _ _ => id) hsync, ?_⟩
  rw [vol_setNode hd fun _ => rfl]
  refine Vol.ext (fun j => ?_) fun j => rfl
  by_cases hj : j = i
  · subst hj
    simp [file_of_din hd]
  · simp [Vol.setFile_file_ne _ hj]

-- References

structure Becomes (s : Sfs) (busy : Nat → Prop) (v : Vol) (s' : Sfs) : Prop where
  inv : s'.Inv busy
  vol : s'.vol = v
  kept : Kept s s'
  freemap : s'.freemap = s.freemap

omit h in
lemma Becomes.of_setNode (h : (s.setNode i x).Inv busy ∧ (s.setNode i x).vol = v) :
    Becomes s busy v (s.setNode i x) := ⟨h.1, h.2, .setNode, rfl⟩

omit h in
lemma Becomes.spends (h : Becomes s busy v s') : Spends n s s' := .of_eq h.kept.blocks h.freemap

lemma loadInode_ok (hf : s.vol.file i = some f) (hl : f.nlinks ≠ 0) :
    Sat allowed (loadInode i) s (fun _ => Becomes s busy (s.vol.load i)) E := by
  have hstale : { s with staleLoad := s.staleLoad || !s.live i } = s := by simp [live_iff.mpr ⟨f, hf, hl⟩]
  obtain ⟨d, hd, rfl⟩ := din_of_file hf
  have hl' : d.nlinks ≠ 0 := hl
  rw [loadInode, sat_bind, sat_get, sat_bind, sat_modify, hstale]
  cases hx : s.node i with
  | some x =>
    have hcount : x.get.reclaimCount = if x.get.refCount = 0 then 0 else 1 := by
      have := h.counts i x hx
      simp only [Sin.get]
      split at this <;> simp [*]
    have hd' : s.din i = some x.din := din_of_node hx
    have hstep := h.setMem (x := x.get) hd' hcount (h.synced i x hx)
    rw [Vol.load, core_of_node hx]
    exact .of_setNode hstep
  | none =>
    have hu := h.used_din hd
    have hdisk : s.disk i = .inode d := by
      rw [din_of_disk hx hu] at hd
      cases hc : s.disk i with
      | inode e => rw [hc] at hd; exact congrArg _ (Option.some.inj hd)
      | data _ => rw [hc] at hd; cases hd
      | table _ => rw [hc] at hd; cases hd
      | entry _ _ => rw [hc] at hd; cases hd
    simp only
    rw [sat_bind, sat_blockInuse hu, sat_bind, sat_check rfl, sat_bind, sat_readBlock hu, hdisk, Content.toInode_inode,
      sat_bind, sat_check hl', createInode, sat_bind, sat_check (h.typed i d hd), sat_modify, Vol.load, core_of_none hx]
    refine .of_setNode ?_
    exact h.setMem (x := .init d) hd rfl fun _ _ _ => hdisk

lemma refInc_ok (href : (s.vol.core i).refCount ≠ 0) :
    Sat allowed (refInc i) s (fun _ => Becomes s busy (s.vol.load i)) E := by
  obtain ⟨x, hx, hc⟩ := node_of_core href
  rw [hc] at href
  have href' : x.refCount ≠ 0 := href
  have hd : s.din i = some x.din := din_of_node hx
  rw [refInc, sat_modifySin hx, Vol.load, hc]
  refine .of_setNode (h.setMem (x := { x with refCount := x.refCount + 1 }) hd ?_ ?_)
  · simpa [href'] using h.counts i x hx
  · exact h.synced i x hx

section

variable (hx : s.node i = some x)
include hx

lemma Inv.write_inode :
    (s.write i (.inode x.din)).Inv busy ∧ (s.write i (.inode x.din)).vol = s.vol := by
  have hdin : (s.write i (.inode x.din)).din = s.din := din_write (.inl (by simp [hx]))
  have hother : ∀ j p, s.place (.part j p) ≠ 0 →
      (s.write i (.inode x.din)).disk (s.place (.part j p)) = s.disk (s.place (.part j p)) := by
    intro j p h0
    have hne : s.place (.part j p) ≠ s.place (.inode i) := h.ledger.ne_of_ne (by simp) h0
    rw [place_inode (din_of_node hx)] at hne
    exact update_of_ne hne ..
  have hplace : (s.write i (.inode x.din)).place = s.place := place_congr hdin fun j p _ => hother j p
  constructor
  · refine ⟨hplace ▸ h.ledger, h.bits, h.unused, h.small, h.cached, ?_, ?_, h.counts, hdin ▸ h.typed⟩
    · rw [hplace, hdin]
      exact h.mapped
    · intro j y hy hb hd hl
      by_cases hj : j = i
      · subst hj
        cases hx.symm.trans hy
        exact update_self ..
      · exact (update_of_ne hj ..).trans (h.synced j y hy hb hd hl)
  · have hleaf : (s.write i (.inode x.din)).leafAt = s.leafAt := by
      funext j k
      simp only [leafAt, hplace]
      split
      · rfl
      · rw [hother j _ ‹_›]
    refine Vol.ext (fun j => ?_) fun j => rfl
    simp only [vol, hdin, fileOf_congr (congrFun hleaf j)]

lemma Inv.store :
    Becomes s busy s.vol ((s.setNode i (some { x with dirty := false })).write i (.inode x.din)) := by
  have hu : (s.setNode i (some { x with dirty := false })).used i = true := h.cached i x hx
  have hdin : (s.write i (.inode x.din)).din i = some x.din := din_of_node (x := x) hx
  obtain ⟨hinv, hvol⟩ := h.write_inode hx
  obtain ⟨hinv', hvol'⟩ := hinv.setMem (x := { x with dirty := false }) hdin (h.counts i x hx) fun _ _ _ => update_self ..
  refine ⟨hinv', hvol'.trans ?_, Kept.setNode.trans (.write (used_iff.mp hu).2.2), rfl⟩
  rw [hvol]
  exact s.vol.setCore_eq_self (c := x.core) (core_of_node hx)

lemma fsync_dirty (hrem : x.removed = false) (hl : x.din.nlinks ≠ 0) (hd : x.dirty = true) :
    Sat allowed (fsync i) s (fun _ s' => Becomes s busy s.vol s' ∧
    s'.node i = some { x with dirty := false } ∧ s'.disk i = .inode x.din) E := by
  have hu : (s.setNode i (some { x with dirty := false })).used i = true := h.cached i x hx
  rw [fsync, sat_bind, sat_sin hx, sat_when ⟨hl, hd⟩, sat_bind, trylock, sat_bind, sat_sin hx,
    sat_when_not (by simp [hrem]), sat_bind, sat_modifySin hx, sat_writeBlock hu]
  exact ⟨h.store hx, update_self .., update_self ..⟩

lemma fsync_ok (hrem : x.removed = false) (hl : x.din.nlinks ≠ 0) (hnb : ¬ busy i) :
    Sat allowed (fsync i) s (fun _ s' => Becomes s busy s.vol s' ∧
      s'.node i = some { x with dirty := false } ∧ s'.disk i = .inode x.din) E := by
  cases hd : x.dirty with
  | true => exact fsync_dirty h hx hrem hl hd
  | false =>
    rw [sat_fsync_clean hx (.inr hd)]
    refine ⟨⟨h, rfl, .refl s, rfl⟩, ?_, h.synced i x hx hnb hd hl⟩
    rw [hx, ← hd]

end

-- A new inode

lemma Inv.create (hf : s.freemap b = true) (htype : type = .dir ∨ type = .file) :
    ((s.take b).setNode b (some (.init (.new type)))).Inv busy ∧
      ((s.take b).setNode b (some (.init (.new type)))).vol = s.vol.create b (.new type) := by
  have hn := h.node_free hf
  have hu := not_used_of_free hf
  obtain ⟨hlt, hres⟩ := h.bits b hf
  have hself : ((s.take b).setNode b (some (.init (.new type)))).din b = some (.new type) := din_setNode_some
  have hdin : ∀ {j}, j ≠ b → ((s.take b).setNode b (some (.init (.new type)))).din j = s.din j := by
    intro j hj
    rw [din_setNode_of_ne hj, din_take hn hu]
  have hdisk : ∀ {c}, c ≠ b → ((s.take b).setNode b (some (.init (.new type)))).disk c = s.disk c :=
    fun hc => update_of_ne hc ..
  -- there was no table in the free block, so that nothing else has moved
  have hplace : ((s.take b).setNode b (some (.init (.new type)))).place = update s.place (.inode b) b := by
    funext r
    by_cases hr : r.ino = b
    · revert r
      refine Role.forall_ino ?_ fun p => ?_
      · rw [place_inode hself, update_self]
      · rw [place_part hself, part_new, update_of_ne (by simp), place_part_none (h.din_free hf)]
    have hne : r ≠ .inode b := by
      rintro rfl
      exact hr rfl
    rw [update_of_ne hne]
    cases r with
    | inode j => simp only [place, hdin (show j ≠ b from hr)]
    | part j p =>
      cases hd : s.din j with
      | none => rw [place_part_none hd, place_part_none ((hdin (show j ≠ b from hr)).trans hd)]
      | some d =>
        rw [place_part hd, place_part ((hdin (show j ≠ b from hr)).trans hd)]
        refine congrFun (part_congr fun q _ h0 => hdisk ?_) p
        rw [← place_part hd] at h0 ⊢
        exact h.place_ne_free hf h0
  have hused : ((s.take b).setNode b (some (.init (.new type)))).used = update s.used b true := used_take hlt hres
  have h0 : s.place (.inode b) = 0 := by simp [place, h.din_free hf]
  have hacc := h.accounts.take hf
  constructor
  · refine ⟨?_, hacc.bits, hacc.unused, h.small, ?_, ?_, ?_, ?_, ?_⟩
    · rw [hplace, hused]
      exact h.ledger.take h0 hu (h.ne_zero_of_free hf)
    · intro j y hy
      rw [hused]
      by_cases hj : j = b
      · simp [hj]
      rw [setNode_node, update_of_ne hj] at hy
      rw [update_of_ne hj]
      exact h.cached j y hy
    · intro j d hd k
      rw [hplace, update_of_ne (by simp)]
      by_cases hj : j = b
      · subst hj
        cases hself.symm.trans hd
        simp [place_part_none (h.din_free hf), new]
      · exact h.mapped j d (hdin hj ▸ hd) k
    · intro j y hy hb hdirty hl
      by_cases hj : j = b
      · subst hj
        cases setNode_self.symm.trans hy
        exact absurd rfl hl
      · rw [setNode_node, update_of_ne hj] at hy
        exact (hdisk hj).trans (h.synced j y hy hb hdirty hl)
    · intro j y hy
      by_cases hj : j = b
      · subst hj
        cases setNode_self.symm.trans hy
        rfl
      · rw [setNode_node, update_of_ne hj] at hy
        exact h.counts j y hy
    · intro j d hd
      by_cases hj : j = b
      · subst hj
        cases hself.symm.trans hd
        exact htype
      · exact h.typed j d (hdin hj ▸ hd)
  · have hleaf : ∀ {j}, j ≠ b → ((s.take b).setNode b (some (.init (.new type)))).leafAt j = s.leafAt j := by
      intro j hj
      funext k
      simp only [leafAt, hplace]
      rw [update_of_ne (by simp)]
      split
      · rfl
      · rw [hdisk (h.place_ne_free hf ‹_›)]
    refine Vol.ext (fun j => ?_) fun j => ?_
    · by_cases hj : j = b
      · subst hj
        rw [file_of_din hself]
        simp only [Vol.create, Vol.setCore_file, Vol.setFile_file_self, Option.some.injEq]
        have hnone : ((s.take j).setNode j (some (.init (.new type)))).leafAt j = fun _ => none := by
          funext k
          simp [leafAt, place_part hself, part_new]
        simp only [fileOf, hnone]
        rfl
      · simp only [vol, hdin hj, Vol.create, Vol.setCore_file, Vol.setFile_file_ne _ hj, fileOf_congr (hleaf hj)]
    · by_cases hj : j = b
      · subst hj
        rw [core_of_node setNode_self]
        simp only [Vol.create, Vol.setCore_core_self]
        rfl
      · simp only [Vol.create, Vol.setCore_core_ne _ hj]
        simp [vol, update_of_ne hj]

-- The last reference

lemma Inv.evict (hx : s.node i = some x) (hdisk : s.disk i = .inode x.din)
    (hidle : x.core = .idle) : (s.setNode i none).Inv busy ∧ (s.setNode i none).vol = s.vol := by
  have hu : (s.setNode i none).used i = true := h.cached i x hx
  have hdin : (s.setNode i none).din = s.din := by
    funext j
    by_cases hj : j = i
    · subst hj
      rw [din_of_disk (update_self ..) hu, din_of_node hx, setNode_disk, hdisk]
      rfl
    · exact din_setNode_of_ne hj
  have hplace : (s.setNode i none).place = s.place := place_congr hdin fun _ _ _ _ => rfl
  have hnode : ∀ j y, (s.setNode i none).node j = some y → s.node j = some y := by
    intro j y hy
    by_cases hj : j = i
    · subst hj
      simp at hy
    · rwa [setNode_node, update_of_ne hj] at hy
  constructor
  · exact ⟨hplace ▸ h.ledger, h.bits, h.unused, h.small, fun j y hy => h.cached j y (hnode j y hy),
      by rw [hdin, hplace]; exact h.mapped, fun j y hy => h.synced j y (hnode j y hy),
      fun j y hy => h.counts j y (hnode j y hy), hdin ▸ h.typed⟩
  have hleaf : (s.setNode i none).leafAt = s.leafAt := by
    funext j k
    simp only [leafAt, hplace]
    rfl
  refine Vol.ext (fun j => ?_) fun j => ?_
  · simp only [vol, hdin, fileOf_congr (congrFun hleaf j)]
  · by_cases hj : j = i
    · subst hj
      rw [core_of_none (update_self ..), core_of_node hx, hidle]
    · simp [vol, update_of_ne hj]

structure Emptied (s : Sfs) (busy : Nat → Prop) (i : Nat) (s' : Sfs) (x' : Sin) : Prop where
  inv : s'.Inv busy
  node : s'.node i = some x'
  blocks : x'.din.blocks = 0
  vol : s'.vol.setFile i none = s.vol.setFile i none
  kept : Kept s s'
  place : ∀ r, r.ino ≠ i → s'.place r = s.place r

lemma truncateAll_ok (hx : s.node i = some x) (hn : x.din.blocks = n) :
    Sat allowed (truncateAll i n) s (fun _ s' => ∃ x', Emptied s busy i s' x') E := by
  induction n generalizing s x with
  | zero => exact ⟨x, h, hx, hn, rfl, .refl s, fun _ _ => rfl⟩
  | succ n ih =>
    rw [truncateAll, sat_bind, sat_attempt]
    refine (bmapTruncate_ok h hx hn).imp ?_
    rintro - s1 ⟨hinv, hvol, hkept, ⟨x1, hx1, hblocks⟩, hplace⟩
    refine (ih hinv hx1 hblocks).imp ?_
    rintro - s2 ⟨x2, hemp⟩
    refine ⟨x2, hemp.inv, hemp.node, hemp.blocks, ?_, hkept.trans hemp.kept,
      fun r hr => (hemp.place r hr).trans (hplace r hr)⟩
    rw [hemp.vol, hvol]
    simp [Vol.setFile, Vol.modFile]

end

structure Dying (s : Sfs) (i : Nat) (gone : Role → Bool) (s' : Sfs) : Prop where
  ledger : Ledger (fun r => if gone r then 0 else s.place r) s'.used
  accounts : s'.Accounts
  node : s'.node = update s.node i none
  kept : Kept s s'
  own : ∀ r, gone r = true → r.ino = i
  disk : ∀ b, b ≠ s.place (.part i .double) → s'.disk b = s.disk b

namespace Dying

section

variable (h : Dying s i gone s')
include h

lemma used (hg : gone r = false) (h0 : s.place r ≠ 0) : s'.used (s.place r) = true := by
  have := h.ledger.used_of_place r
  simpa [hg, h0] using this

lemma free (hr : r.ino = i) (hg : gone r = false) (h0 : s.place r ≠ 0) :
    Dying s i (update gone r true) (s'.give (s.place r)) where
  ledger := by
    have hgive := h.ledger.give (r := r) (by simpa [hg] using h0)
    have hfun : (fun q => if update gone r true q = true then 0 else s.place q) =
        update (fun q => if gone q = true then 0 else s.place q) r 0 := by
      funext q
      by_cases hq : q = r
      · simp [hq]
      · simp [update_of_ne hq]
    rw [hfun, used_give]
    simpa [hg] using hgive
  accounts := h.accounts.give (h.used hg h0)
  node := h.node
  kept := h.kept.trans .give
  own q hq := by
    by_cases hqr : q = r
    · exact hqr ▸ hr
    · rw [update_of_ne hqr] at hq
      exact h.own q hq
  disk := h.disk

lemma write (he : s.place (.part i .double) = e) (hres : ¬ Reserved s'.blocks e) : Dying s i gone (s'.write e c) where
  ledger := h.ledger
  accounts := ⟨h.accounts.bits, h.accounts.unused⟩
  node := h.node
  kept := h.kept.trans (.write hres)
  own := h.own
  disk b hb := by
    rw [write_disk, update_of_ne (he ▸ hb)]
    exact h.disk b hb

lemma keeps (hr : r.ino ≠ i) : gone r = false := by
  cases hg : gone r with
  | false => rfl
  | true => exact absurd (h.own r hg) hr

lemma owner (hall : ∀ r, r.ino = i → gone r = true ∨ s.place r = 0)
    (hu : s'.used b = true) : ∃ r, r.ino ≠ i ∧ s.place r = b ∧ s.place r ≠ 0 := by
  obtain ⟨hb0, r, hr⟩ := h.ledger.owned b hu
  grind

section

variable (hinv : s.Inv busy)
include hinv

lemma disk_place (hr : r.ino ≠ i) (h0 : s.place r ≠ 0) : s'.disk (s.place r) = s.disk (s.place r) := by
  refine h.disk _ (hinv.ledger.ne_of_ne ?_ h0)
  rintro rfl
  exact hr rfl

lemma din_self (hx : s.node i = some x) (hall : ∀ r, r.ino = i → gone r = true ∨ s.place r = 0) : s'.din i = none := by
  have hn : s'.node i = none := by rw [h.node, update_self]
  cases hu : s'.used i with
  | false => exact din_unused hn hu
  | true =>
    obtain ⟨r, hri, hr, h0⟩ := h.owner hall hu
    have := hinv.ledger.inj r (.inode i) h0 (hr.trans (place_inode (din_of_node hx)).symm)
    exact absurd (congrArg Role.ino this) hri

lemma inode_kept (hj : j ≠ i) (hd : s.din j = some d) : s'.used j = true ∧ s'.disk j = s.disk j := by
  have hrole : (Role.inode j).ino ≠ i := hj
  have hp := place_inode hd
  have h0 : s.place (.inode j) ≠ 0 := by
    rw [hp]
    exact ne_zero_of_used (hinv.used_din hd)
  have hu := h.used (h.keeps hrole) h0
  grind [h.disk_place]

lemma din_other (hall : ∀ r, r.ino = i → gone r = true ∨ s.place r = 0) (hj : j ≠ i) : s'.din j = s.din j := by
  have hnode : s'.node j = s.node j := by rw [h.node, update_of_ne hj]
  cases hn : s.node j with
  | some x => rw [din_of_node hn, din_of_node (hnode.trans hn)]
  | none =>
    rw [hn] at hnode
    cases hd : s.din j with
    | some d =>
      obtain ⟨hu, hdisk⟩ := h.inode_kept hinv hj hd
      rw [din_of_disk hnode hu, hdisk, ← din_of_disk hn (hinv.used_din hd), hd]
    | none =>
      cases hu : s'.used j with
      | false => exact din_unused hnode hu
      | true =>
        obtain ⟨r, hri, rfl, h0⟩ := h.owner hall hu
        cases r with
        | inode k => grind [place]
        | part k p => rw [din_of_disk hnode hu, h.disk_place hinv hri h0, (hinv.asInode_part h0).2]

lemma place_other (hall : ∀ r, r.ino = i → gone r = true ∨ s.place r = 0) (hr : r.ino ≠ i) : s'.place r = s.place r := by
  cases r with
  | inode j =>
    have hdin : s'.din j = s.din j := h.din_other hinv hall hr
    simp only [place, hdin]
  | part j p =>
    have hdin : s'.din j = s.din j := h.din_other hinv hall hr
    cases hd : s.din j with
    | none => rw [place_part_none hd, place_part_none (hdin.trans hd)]
    | some d =>
      rw [place_part hd, place_part (hdin.trans hd)]
      refine congrFun (part_congr fun q _ h0 => ?_) p
      rw [← place_part hd] at h0 ⊢
      exact h.disk_place (r := .part j q) hinv hr h0

section

variable (hx : s.node i = some x) (hall : ∀ r, r.ino = i → gone r = true ∨ s.place r = 0)
include hx hall

lemma place_eq :
    s'.place = fun r => if gone r then 0 else s.place r := by
  funext r
  by_cases hr : r.ino = i
  · have h0 : s'.place r = 0 := by
      subst hr
      cases r with
      | inode j => simp [place, show s'.din j = none from h.din_self hinv hx hall]
      | part j p => exact place_part_none (h.din_self hinv hx hall)
    grind
  · rw [h.place_other hinv hall hr, if_neg (by simp [h.keeps hr])]

lemma dead :
    s'.Inv busy ∧ s'.vol = (s.vol.setFile i none).setCore i .idle := by
  have hplace := h.place_eq hinv hx hall
  have hnode : ∀ j y, s'.node j = some y → j ≠ i ∧ s.node j = some y := by
    intro j y hy
    rw [h.node] at hy
    by_cases hj : j = i
    · subst hj
      simp at hy
    · grind
  have hdin : ∀ j d, s'.din j = some d → j ≠ i ∧ s.din j = some d := by
    intro j d hd
    by_cases hj : j = i
    · subst hj
      rw [h.din_self hinv hx hall] at hd
      cases hd
    · exact ⟨hj, h.din_other hinv hall hj ▸ hd⟩
  constructor
  · refine ⟨hplace ▸ h.ledger, h.accounts.bits, h.accounts.unused, h.kept.blocks ▸ hinv.small, ?_, ?_, ?_, ?_, ?_⟩
    · intro j y hy
      obtain ⟨hj, hy⟩ := hnode j y hy
      exact (h.inode_kept hinv hj (din_of_node hy)).1
    · intro j d hd k
      obtain ⟨hj, hd⟩ := hdin j d hd
      rw [h.place_other (r := .part j (.leaf k)) hinv hall hj]
      exact hinv.mapped j d hd k
    · intro j y hy hb hdirty hl
      obtain ⟨hj, hy⟩ := hnode j y hy
      rw [(h.inode_kept hinv hj (din_of_node hy)).2]
      exact hinv.synced j y hy hb hdirty hl
    · exact fun j y hy => hinv.counts j y (hnode j y hy).2
    · exact fun j d hd => hinv.typed j d (hdin j d hd).2
  · refine Vol.ext (fun j => ?_) fun j => ?_
    · by_cases hj : j = i
      · subst hj
        simp [vol, h.din_self hinv hx hall]
      have hleaf : s'.leafAt j = s.leafAt j := by
        funext k
        have hrole : (Role.part j (.leaf k)).ino ≠ i := hj
        simp only [leafAt, h.place_other hinv hall hrole]
        split
        · rfl
        · rw [h.disk_place hinv hrole ‹_›]
      rw [Vol.setCore_file, Vol.setFile_file_ne _ hj]
      simp only [vol, h.din_other hinv hall hj, fileOf_congr hleaf]
    · by_cases hj : j = i
      · subst hj
        simp [vol, h.node]
      · rw [Vol.setCore_core_ne _ hj]
        simp [vol, h.node, update_of_ne hj]

end

end

end

end Dying

lemma freeTables_ok (hd : Dying s i gone s') (he : s.place (.part i .double) = e) (he0 : e ≠ 0)
    (hdouble : gone (.part i .double) = false)
    (hleft : ∀ q, blkNentry - n ≤ q → q < blkNentry →
      sub s'.disk e q = s.place (.part i (.second q)) ∧ gone (.part i (.second q)) = false)
    (hn : n ≤ blkNentry) :
    Sat allowed (freeTables e n) s' (fun _ s'' => ∃ gone', Dying s i gone' s'' ∧ gone' (.part i .double) = false ∧
        (∀ r, gone r = true → gone' r = true) ∧
        ∀ q, blkNentry - n ≤ q → q < blkNentry → gone' (.part i (.second q)) = true ∨
        s.place (.part i (.second q)) = 0) E := by
  induction n generalizing s' gone with
  | zero => exact ⟨gone, hd, hdouble, fun _ => id, fun q hq hq' => by omega⟩
  | succ n ih =>
    have hk : blkNentry - (n + 1) < blkNentry := by omega
    have hu : s'.used e = true := he ▸ hd.used hdouble (he ▸ he0)
    obtain ⟨hsub, hg⟩ := hleft _ (le_refl _) hk
    rw [freeTables, sat_bind, sat_attempt]
    -- what the later rounds leave, with the place of this round
    have hnext : ∀ {gone'' : Role → Bool} {t : Sfs}, Dying s i gone'' t →
        gone'' (.part i .double) = false → (∀ r, gone r = true → gone'' r = true) →
        (gone'' (.part i (.second (blkNentry - (n + 1)))) = true ∨
          s.place (.part i (.second (blkNentry - (n + 1)))) = 0) →
        (∀ q, blkNentry - n ≤ q → q < blkNentry →
          sub t.disk e q = s.place (.part i (.second q)) ∧ gone'' (.part i (.second q)) = false) →
        Sat allowed (freeTables e n) t (fun _ s'' => ∃ gone', Dying s i gone' s'' ∧ gone' (.part i .double) = false ∧
            (∀ r, gone r = true → gone' r = true) ∧
            ∀ q, blkNentry - (n + 1) ≤ q → q < blkNentry →
              gone' (.part i (.second q)) = true ∨ s.place (.part i (.second q)) = 0) E := by
      intro gone'' t hd' hdouble' hmono hthis hleft'
      refine (ih hd' hdouble' hleft' (by omega)).imp ?_
      rintro - s'' ⟨gone', hdy, hdb, hmono', hall⟩
      refine ⟨gone', hdy, hdb, fun r hr => hmono' r (hmono r hr), fun q hq hq' => ?_⟩
      rcases Nat.eq_or_lt_of_le hq with rfl | hlt
      · exact hthis.imp (hmono' _) id
      · exact hall q (by omega) hq'
    by_cases h0 : s.place (.part i (.second (blkNentry - (n + 1)))) = 0
    · rw [sat_bmapFreeSub_empty hu hk (hsub.trans h0)]
      exact hnext hd hdouble (fun _ => id) (.inr h0) fun q hq hq' => hleft q (by omega) hq'
    have hub := hd.used hg h0
    rw [sat_bmapFreeSub hu hk hsub h0 hub]
    have hd' := (hd.write (c := (s'.disk e).setWord (blkNentry - (n + 1)) 0) he (used_iff.mp hu).2.2).free
      (r := .part i (.second (blkNentry - (n + 1)))) rfl hg h0
    refine hnext hd' ?_ ?_ (.inl (update_self ..)) ?_
    · rwa [update_of_ne (by simp)]
    · intro r hr
      by_cases hr' : r = .part i (.second (blkNentry - (n + 1)))
      · rw [hr', update_self]
      · rwa [update_of_ne hr']
    · intro q hq hq'
      have hne : q ≠ blkNentry - (n + 1) := by omega
      rw [give_disk, write_disk, DiskInode.sub_setWord he0, if_neg hne, update_of_ne (by simpa using hne)]
      exact hleft q (by omega) hq'

lemma Dying.sat_free (hd : Dying s i gone s') (hr : r.ino = i) (hg : gone r = false) (hb : s.place r = b) :
    Sat allowed (when (b ≠ 0) (blockFree b)) s'
    (fun _ t => ∃ gone', Dying s i gone' t ∧ (gone' r = true ∨ s.place r = 0) ∧
    (∀ q, q ≠ r → gone' q = gone q) ∧ t.disk = s'.disk) E := by
  subst hb
  by_cases h0 : s.place r = 0
  · rw [sat_when_not (by simp [h0])]
    exact ⟨gone, hd, .inr h0, fun _ _ => rfl, rfl⟩
  · rw [sat_when h0, sat_blockFree (hd.used hg h0)]
    exact ⟨_, hd.free hr hg h0, .inl (update_self ..), fun q hq => update_of_ne hq .., rfl⟩

lemma place_second (hd : s.din i = some d) (hq : q < blkNentry) :
    s.place (.part i (.second q)) = sub s.disk d.dbIndirect q := by
  rw [place_part hd]
  exact if_pos hq

lemma place_second_none (hd : s.din i = some d) (hq : ¬ q < blkNentry) : s.place (.part i (.second q)) = 0 := by
  rw [place_part hd]
  exact if_neg hq

section

variable (h : s.Inv busy) (hx : s.node i = some x)
include h hx

lemma freeInode_ok (hblocks : x.din.blocks = 0) :
    Sat allowed (freeInode i x.din) (s.setNode i none)
      (fun _ s' => s'.Inv busy ∧ s'.vol = (s.vol.setFile i none).setCore i .idle ∧ Kept s s' ∧
        ∀ r, r.ino ≠ i → s'.place r = s.place r) E := by
  have hdin := din_of_node hx
  have hinode : s.place (.inode i) = i := place_inode hdin
  have hdouble : s.place (.part i .double) = x.din.dbIndirect := place_part hdin
  -- with the inode and all tables given back nothing of `i` is left
  have hend : ∀ {gone : Role → Bool} {t : Sfs}, Dying s i gone t → gone (.inode i) = true →
      (gone (.part i .indirect) = true ∨ s.place (.part i .indirect) = 0) →
      (gone (.part i .double) = true ∨ s.place (.part i .double) = 0) →
      (∀ q, q < blkNentry → gone (.part i (.second q)) = true ∨ s.place (.part i (.second q)) = 0) →
      t.Inv busy ∧ t.vol = (s.vol.setFile i none).setCore i .idle ∧ Kept s t ∧ ∀ r, r.ino ≠ i →
        t.place r = s.place r := by
    intro gone t hd h1 h2 h3 h4
    have hall : ∀ r, r.ino = i → gone r = true ∨ s.place r = 0 := by
      refine Role.forall_ino (.inl h1) fun p => ?_
      cases p with
      | leaf k =>
        by_contra hne
        exact absurd ((h.mapped i _ hdin k).mp (by tauto)) (by omega)
      | indirect => exact h2
      | double => exact h3
      | second q =>
        by_cases hq : q < blkNentry
        · exact h4 q hq
        · exact .inr (place_second_none hdin hq)
    obtain ⟨hinv, hvol⟩ := hd.dead h hx hall
    exact ⟨hinv, hvol, hd.kept, fun r => hd.place_other h hall⟩
  have hd0 : Dying s i (fun _ => false) (s.setNode i none) :=
    ⟨by simpa using h.ledger, ⟨h.bits, h.unused⟩, rfl, .setNode, by simp, fun _ _ => rfl⟩
  have hi0 : s.place (.inode i) ≠ 0 := by
    rw [hinode]
    exact ne_zero_of_used (h.cached i x hx)
  have hd1 := hd0.free (r := .inode i) rfl rfl hi0
  have hu := hd0.used (r := .inode i) rfl hi0
  rw [hinode] at hd1 hu
  rw [freeInode, sat_bind, sat_blockFree hu, sat_bind]
  refine (hd1.sat_free (r := .part i .indirect) rfl (by simp) (place_part hdin)).imp ?_
  rintro - t2 ⟨gone2, hd2, hind, hsame, hdisk⟩
  have hgone : ∀ p, p ≠ .indirect → gone2 (.part i p) = false := by
    intro p hp
    rw [hsame _ (by simpa using hp), update_of_ne (by simp)]
  have hi2 : gone2 (.inode i) = true := by rw [hsame _ (by simp), update_self]
  by_cases hdb : x.din.dbIndirect = 0
  · rw [sat_when_not (by simp [hdb])]
    refine hend hd2 hi2 hind (.inr (hdouble.trans hdb)) fun q hq => .inr ?_
    rw [place_second hdin hq, hdb]
    rfl
  have hd2' : t2.disk = s.disk := hdisk
  rw [sat_when hdb, sat_bind]
  refine (freeTables_ok hd2 hdouble hdb (hgone _ (by simp)) ?_ (le_refl _)).imp ?_
  · exact fun q _ hq => ⟨by rw [hd2', place_second hdin hq], hgone _ (by simp)⟩
  · rintro - t3 ⟨gone3, hd3, hdb3, hmono, hall⟩
    have hu3 := hd3.used hdb3 (hdouble ▸ hdb)
    have hd4 := hd3.free rfl hdb3 (hdouble ▸ hdb)
    rw [hdouble] at hu3 hd4
    rw [sat_blockFree hu3]
    have hkeep : ∀ r, r ≠ .part i .double → update gone3 (.part i .double) true r = gone3 r :=
      fun r hr => update_of_ne hr ..
    refine hend hd4 ?_ ?_ (.inl (update_self ..)) ?_
    · rw [hkeep _ (by simp)]
      exact hmono _ hi2
    · rw [hkeep _ (by simp)]
      exact hind.imp (hmono _) id
    · intro q hq
      rw [hkeep _ (by simp)]
      exact hall q (by omega) hq

lemma reclaimUnlinked_ok : Sat allowed (reclaimUnlinked i x.din.blocks) s
    (fun _ s' => s'.Inv busy ∧ s'.vol = (s.vol.setFile i none).setCore i .idle ∧ Kept s s' ∧
    ∀ r, r.ino ≠ i → s'.place r = s.place r) E := by
  rw [reclaimUnlinked, sat_bind]
  refine (truncateAll_ok h hx rfl).imp ?_
  rintro - s1 ⟨x1, hemp⟩
  rw [sat_bind, sat_sin hemp.node, sat_bind, sat_modify]
  refine (freeInode_ok hemp.inv hemp.node hemp.blocks).imp ?_
  grind [hemp.kept.trans, hemp.place, hemp.vol]

lemma reclaimLinked_ok (hidle : x.core = .idle)
    (hl : x.din.nlinks ≠ 0) (hnb : s.pinned = true ∨ ¬ busy i) :
    Sat allowed (reclaimLinked i) s (fun _ => Becomes s busy s.vol) fun _ => Becomes s busy s.vol := by
  rw [reclaimLinked, sat_bind, sat_get]
  by_cases hp : s.pinned = true
  · rw [if_pos hp]
    exact ⟨h, rfl, .refl s, rfl⟩
  rw [if_neg hp, sat_bind]
  refine (fsync_ok h hx (congrArg Core.removed hidle) hl (hnb.resolve_left hp)).imp ?_
  rintro - s1 ⟨hb, hx1, hdisk⟩
  obtain ⟨hinv, hvol⟩ := hb.inv.evict hx1 hdisk hidle
  exact ⟨hinv, by rw [hvol, hb.vol], hb.kept.trans .setNode, hb.freemap⟩

end

structure Dropped (s : Sfs) (busy : Nat → Prop) (i : Nat) (s' : Sfs) : Prop where
  inv : s'.Inv busy
  vol : s'.vol = s.vol.unref i
  kept : Kept s s'
  freemap : ∀ f, s.vol.file i = some f → f.nlinks ≠ 0 → s'.freemap = s.freemap
  place : (s.vol.core i).refCount = 1 → ∀ f, s.vol.file i = some f → f.nlinks = 0 →
    ∀ r, r.ino ≠ i → s'.place r = s.place r

lemma refDec_ok (h : s.Inv busy) (hx : s.node i = some x) (href : x.refCount ≠ 0) (hnb : s.pinned = true ∨ ¬ busy i)
    (hrem : x.din.nlinks ≠ 0 → x.removed = false) :
    Sat allowed (refDec i) s (fun _ => Dropped s busy i) E := by
  have hd : s.din i = some x.din := din_of_node hx
  have hfile := file_of_din hd
  have hcore := core_of_node hx
  have hcount : x.reclaimCount = 1 := by simpa [href] using h.counts i x hx
  rw [refDec, sat_bind, sat_sin hx, sat_bind, sat_check (by omega), sat_bind, sat_modifySin hx]
  by_cases h1 : x.refCount = 1
  · have hx1 : (s.setNode i (some { x with refCount := x.refCount - 1 })).node i =
        some { x with refCount := x.refCount - 1 } := setNode_self
    obtain ⟨hinv, hvol⟩ := h.setMem (x := { x with refCount := x.refCount - 1, reclaimCount := x.reclaimCount - 1 }) hd
      (by simp [hcount, h1]) (h.synced i x hx)
    have hx2 := setNode_self (s := s) (i := i)
      (x := some { x with refCount := x.refCount - 1, reclaimCount := x.reclaimCount - 1 })
    rw [sat_when (by simp [h1]), sat_bind, sat_attempt, reclaim, sat_bind, sat_sin hx1, sat_bind,
      sat_check (by simp [hcount]), sat_bind, sat_modifySin hx1, setNode_setNode, if_neg (by simp [hcount]), sat_bind,
      sat_check (by simp [h1])]
    by_cases hl : x.din.nlinks = 0
    · rw [if_pos hl]
      refine (reclaimUnlinked_ok hinv hx2).imp ?_
      rintro - s' ⟨hinv', hvol', hkept', hplace'⟩
      refine ⟨hinv', ?_, Kept.setNode.trans hkept', fun f hf hf0 => ?_, fun _ _ _ _ r hr => ?_⟩
      · rw [hvol', hvol, Vol.unref_last (by rw [hcore]; exact h1) hfile hl]
        simp [Vol.setFile, Vol.setCore]
      · rw [hfile] at hf
        cases hf
        exact absurd hl hf0
      · rw [hplace' r hr, place_setNode hd]
        exact fun _ => rfl
    · have hidle : { x with refCount := x.refCount - 1, reclaimCount := x.reclaimCount - 1 }.core = .idle := by
        simp [Sin.core, Core.idle, hrem hl, h1]
      have hunref := Vol.unref_linked hfile hl
      rw [hcore] at hunref
      rw [if_neg hl]
      refine (reclaimLinked_ok hinv hx2 hidle hl hnb).mono (fun _ s' hb => ?_) fun _ s' hb => ?_
      all_goals exact ⟨hb.inv, (hb.vol.trans hvol).trans hunref.symm,
        Kept.setNode.trans hb.kept, fun _ _ _ => hb.freemap, fun _ f hf hf0 => by
          cases hfile.symm.trans hf
          exact absurd hf0 hl⟩
  · rw [sat_when_not (by omega)]
    obtain ⟨hinv, hvol⟩ := h.setMem (x := { x with refCount := x.refCount - 1 }) hd
      (by simp [hcount]; omega) (h.synced i x hx)
    refine ⟨hinv, ?_, .setNode, fun _ _ _ => rfl, fun hone => absurd (by rwa [hcore] at hone) h1⟩
    rw [hvol, Vol.unref_more (by rw [hcore]; exact h1), hcore]
    rfl

end Sfs

end Ucore.Fs
