import Ucore.Fs.Sfs.Names
import Ucore.Fs.Sfs.NodeOk

/-!
# Directory operations

What the operations on directories do to a volume.
-/

namespace Ucore.Fs

open Function Lib.Cmd

def File.addEntry (k i : Nat) (n : Name) (f : File) : File := { f.put k (.ofEntry i n) with size := f.size + 1 }

def File.dropEntry (k : Nat) (f : File) : File := { f.put k (.ofEntry 0 []) with size := f.size - 1 }

def Vol.linkIn (v : Vol) (d k i : Nat) (n : Name) : Vol := (v.modFile d (.addEntry k i n)).modFile i .incLinks

def Vol.linkOut (v : Vol) (d k i : Nat) : Vol := (v.modFile d (.dropEntry k)).modFile i .decLinks

def Vol.mkdir (v : Vol) (d k i : Nat) (n : Name) : Vol :=
  (((((v.create i (.new .dir)).linkIn d k i n).modFile i (.setParent d)).modFile i .incLinks).modFile d .incLinks).unref i

lemma Vol.modFile_some (v : Vol) (h : ∃ f, v.file i = some f) : ∃ f, (v.modFile j g).file i = some f := by
  obtain ⟨f, hf⟩ := h
  by_cases hij : i = j
  · subst hij
    exact ⟨g f, by simp [hf]⟩
  · exact ⟨f, by rw [modFile_file_ne _ hij, hf]⟩

namespace Sfs

variable {s s' s'' : Sfs} {busy busy' : Nat → Prop} {allowed : Panic → Prop} {E : Errno → Sfs → Prop}

lemma node_of_ref (hf : s.vol.file i = some f) (href : (s.vol.core i).refCount ≠ 0) :
    ∃ x, s.node i = some x ∧ f = s.fileOf i x.din ∧ s.vol.core i = x.core := by
  grind [node_of_core, file_of_din, din_of_node]

lemma sat_isDir {Q : Bool → Sfs → Prop} (hf : s.vol.file i = some f) (href : (s.vol.core i).refCount ≠ 0) :
    Sat allowed (isDir i) s Q E ↔ Q (decide (f.type = .dir)) s := by
  obtain ⟨x, hx, rfl, -⟩ := node_of_ref hf href
  rw [isDir, sat_bind, sat_sin hx]
  rfl

lemma sat_trylock {Q : Unit → Sfs → Prop} (href : (s.vol.core i).refCount ≠ 0) :
    Sat allowed (trylock i) s Q E ↔ if (s.vol.core i).removed then E .noent s else Q () s := by
  obtain ⟨x, hx, hc⟩ := node_of_core href
  have hr : (s.vol.core i).removed = x.removed := congrArg Core.removed hc
  rw [trylock, sat_bind, sat_sin hx, hr]
  cases x.removed with
  | true => exact sat_when rfl
  | false => exact sat_when_not (by simp)

lemma touch_ok {F : Sin → Sin} (busy' : Nat → Prop) (h : s.Inv busy) (hf : s.vol.file i = some f)
    (href : (s.vol.core i).refCount ≠ 0) (hg : Attr g g')
    (hF : ∀ x, s.node i = some x → f = s.fileOf i x.din → F x = x.touch g)
    (hbusy : ∀ j, j ≠ i → ¬ busy' j → ¬ busy j) :
    Sat allowed (modifySin i F) s (fun _ => Becomes s busy' (s.vol.modFile i g')) E := by
  obtain ⟨x, hx, hfx, -⟩ := node_of_ref hf href
  rw [sat_modifySin hx, hF x hx hfx]
  exact .of_setNode (h.touch hx hg hbusy)

lemma sat_thenRefDec {x : FsM α} {Q : α → Sfs → Prop} : Sat allowed (thenRefDec i x) s Q E ↔
    Sat allowed x s (fun a s' => Sat allowed (refDec i) s' (fun _ => Q a) E)
    (fun e s' => Sat allowed (refDec i) s' (fun _ => E e) E) := by
  simp [thenRefDec]

section

variable (h : s.Inv busy)
include h

lemma Inv.dense (hf : s.vol.file i = some f) : f.Dense := by
  obtain ⟨d, hd, rfl⟩ := din_of_file hf
  intro k
  refine Iff.trans ?_ (h.mapped i d hd k)
  simp [fileOf, leafAt]

structure Changed (n : Nat) (s : Sfs) (busy : Nat → Prop) (v : Vol) (s' : Sfs) : Prop where
  inv : s'.Inv busy
  vol : s'.vol = v
  kept : Kept s s'
  spends : Spends n s s'

omit h in
lemma Becomes.changed (h : Becomes s busy v s') : Changed 0 s busy v s' := ⟨h.inv, h.vol, h.kept, h.spends⟩

omit h in
lemma Changed.trans (h : Changed n s busy v s') (h' : Changed m s' busy' w s'') : Changed (n + m) s busy' w s'' :=
  ⟨h'.inv, h'.vol, h.kept.trans h'.kept, h.spends.trans h'.spends⟩

lemma sat_direntRead {Q : Nat × Name → Sfs → Prop} (hf : s.vol.file d = some f)
    (href : (s.vol.core d).refCount ≠ 0) (hdir : f.type = .dir) (hc : f.leaf k = some c) :
    Sat allowed (direntRead d k) s Q E ↔ Q c.toEntry s := by
  have hk : k < f.blocks := (h.dense hf k).mp (by simp [hc])
  obtain ⟨x, hx, rfl, -⟩ := node_of_ref hf href
  have hleaf : s.leafAt d k = some c := hc
  rw [leafAt] at hleaf
  split at hleaf
  · cases hleaf
  have hu := h.used_place ‹_›
  rw [direntRead, sat_bind, sat_sin hx, sat_bind, sat_check ⟨hdir, hk⟩, sat_bind, sat_bmapLoad h hx hk, sat_bind,
    sat_blockInuse hu, sat_bind, sat_check rfl, sat_bind, sat_readBlock hu, Option.some.inj hleaf]
  rfl

section

variable {Q : Search → Sfs → Prop}
  (hf : s.vol.file d = some f)
  (href : (s.vol.core d).refCount ≠ 0)
  (hdir : f.type = .dir)
include hf href hdir

lemma sat_searchLoop (hn : slot + n = f.blocks) :
    Sat allowed (searchLoop d name n slot e) s Q E ↔ Q (File.searchFrom f.live name n slot e) s := by
  induction n generalizing slot e with
  | zero => rfl
  | succ n ih =>
    cases hc : f.leaf slot with
    | none => exact absurd hc ((h.dense hf slot).mpr (by omega))
    | some c =>
      have hlive : f.live slot = c.live := by simp [File.live, hdir, hc]
      rw [searchLoop, sat_bind, sat_direntRead h hf href hdir hc, File.searchFrom, hlive]
      by_cases h0 : c.toEntry.1 = 0
      · simp only [h0, ↓reduceIte, Content.live]
        exact ih (by omega)
      simp only [h0, ↓reduceIte, Content.live]
      by_cases hname : c.toEntry.2 = name
      · simp only [hname, ↓reduceIte]
        rfl
      · grind

lemma sat_direntSearch (hlen : name.length ≤ maxFnameLen) :
    Sat allowed (direntSearch d name) s Q E ↔ Q (f.search name) s := by
  obtain ⟨x, hx, hfx, -⟩ := node_of_ref hf href
  have hblocks : x.din.blocks = f.blocks := by rw [hfx]; rfl
  rw [direntSearch, sat_bind, sat_check hlen, sat_bind, sat_sin hx, hblocks, sat_searchLoop h hf href hdir (by omega)]
  rfl

end

lemma Inv.mono (hb : ∀ j, ¬ busy' j → ¬ busy j) : s.Inv busy' :=
  { h with synced := fun i x hx hnb => h.synced i x hx (hb i hnb) }

section

variable (hf : s.vol.file d = some f) (href : (s.vol.core d).refCount ≠ 0) (hdir : f.type = .dir)
include hf href hdir

lemma direntWrite_ok (hk : k ≤ f.blocks) (hname : ino = 0 ∨ name.length ≤ maxFnameLen) :
    Sat allowed (direntWrite d k ino name) s
    (fun _ s' => Changed 3 s (fun j => busy j ∨ j = d) (s.vol.modFile d (.put k (.ofEntry ino name))) s' ∧
    (k < f.blocks → s'.Inv busy ∧ s'.freemap = s.freemap))
    (fun e s' => k = f.blocks ∧ NoRoom 3 s busy e s') := by
  obtain ⟨x, hx, rfl, -⟩ := node_of_ref hf href
  have hc : (Content.ofEntry ino name).asInode = none := Content.asInode_ofEntry
  have hk' : k ≤ x.din.blocks := hk
  rw [direntWrite, sat_bind, sat_sin hx, sat_bind, sat_check ⟨hdir, hk⟩, sat_bind, sat_check hname, sat_bind]
  rcases Nat.eq_or_lt_of_le hk' with rfl | hlt
  · have hcost := tableCost_le x.din.blocks
    refine (bmapLoad_new h hx).mono ?_ fun e s' hE => ⟨rfl, hE.mono (by omega)⟩
    intro b s1 hext
    have hu : s1.used b = true := hext.place ▸ hext.inv.used_place (hext.place ▸ hext.ne_zero)
    rw [sat_bind, sat_blockInuse hu, sat_bind, sat_check rfl, sat_writeBlock hu]
    obtain ⟨hinv, hvol⟩ := hext.inv.write_leaf hext.place hext.ne_zero hc
    have hsp : Spends 3 s (s1.write b (.ofEntry ino name)) :=
      (hext.spends.le (m := 3) (by omega)).trans (m := 0) (.of_eq rfl rfl)
    refine ⟨⟨hinv, ?_, hext.kept.trans (.write (used_iff.mp hu).2.2), hsp⟩, fun hlt => ?_⟩
    · refine hvol.trans ?_
      rw [hext.vol, Vol.modFile_modFile]
      congr 1
      funext g
      exact File.put_put g
    · exact absurd hlt (lt_irrefl _)
  · have h0 := (h.mapped d _ (din_of_node hx) k).mpr hlt
    have hu := h.used_place h0
    rw [sat_bmapLoad h hx hlt, sat_bind, sat_blockInuse hu, sat_bind, sat_check rfl, sat_writeBlock hu]
    obtain ⟨hinv, hvol⟩ := h.write_leaf rfl h0 hc
    exact ⟨⟨hinv.mono fun j hj hb => hj (.inl hb),
      hvol, .write (used_iff.mp hu).2.2, .of_eq rfl rfl⟩, fun _ => ⟨hinv, rfl⟩⟩

lemma direntLink_ok (hk : k ≤ f.blocks) (hname : name.length ≤ maxFnameLen)
    (hg : s.vol.file i = some g) (hiref : (s.vol.core i).refCount ≠ 0) :
    Sat allowed (direntLink d k i name) s (fun _ => Changed 3 s busy (s.vol.linkIn d k i name))
    (fun e s' => k = f.blocks ∧ NoRoom 3 s busy e s') := by
  rw [direntLink, sat_bind]
  refine (direntWrite_ok h hf href hdir hk (.inr hname)).imp ?_
  rintro - s1 ⟨h1, -⟩
  have hf1 : s1.vol.file d = some (f.put k (.ofEntry i name)) := by
    rw [h1.vol, Vol.modFile_file_self, hf]
    rfl
  have hcore1 : s1.vol.core = s.vol.core := by rw [h1.vol]; rfl
  rw [sat_bind]
  refine (touch_ok (g := .setSize (f.size + 1)) busy h1.inv hf1 (hcore1 ▸ href) attr_setSize ?_ ?_).imp ?_
  · rintro x - hfx
    have hsize : x.din.size = f.size := (congrArg File.size hfx).symm
    simp only [hsize]
  · exact fun j hj hb hc => hc.elim hb hj
  rintro - s2 h2
  obtain ⟨g2, hg2⟩ : ∃ g2, s2.vol.file i = some g2 := by
    rw [h2.vol, h1.vol]
    exact Vol.modFile_some _ (Vol.modFile_some _ ⟨g, hg⟩)
  have hcore2 : s2.vol.core = s.vol.core := by rw [h2.vol]; exact hcore1
  refine (touch_ok busy h2.inv hg2 (hcore2 ▸ hiref) attr_incLinks (fun _ _ _ => rfl) fun _ _ hb => hb).imp ?_
  rintro - s3 h3
  have hvol : s3.vol = s.vol.linkIn d k i name := by
    rw [h3.vol, h2.vol, h1.vol, Vol.modFile_modFile]
    exact congrArg (Vol.modFile · i .incLinks) (Vol.modFile_congr s.vol hf rfl)
  exact { (h1.trans h2.changed).trans h3.changed with vol := hvol }

lemma direntUnlink_ok (hk : k < f.blocks) (hsize : f.size ≠ 0)
    (hg : s.vol.file i = some g) (hiref : (s.vol.core i).refCount ≠ 0) (hlinks : g.nlinks ≠ 0) :
    Sat allowed (direntUnlink d k i) s (fun _ => Becomes s busy (s.vol.linkOut d k i)) E := by
  rw [direntUnlink]
  refine (direntWrite_ok h hf href hdir (Nat.le_of_lt hk) (.inl rfl)).bind ?_ fun e s' hE => ?_
  rotate_left
  · exact absurd hE.1 (Nat.ne_of_lt hk)
  rintro - s1 ⟨h1, hold⟩
  obtain ⟨hinv1, hmap1⟩ := hold hk
  have hf1 : s1.vol.file d = some (f.put k (.ofEntry 0 [])) := by
    rw [h1.vol, Vol.modFile_file_self, hf]
    rfl
  obtain ⟨g1, hg1, hglinks⟩ : ∃ g1, s1.vol.file i = some g1 ∧ g1.nlinks = g.nlinks := by
    by_cases hid : i = d
    · subst hid
      cases hf.symm.trans hg
      exact ⟨_, hf1, rfl⟩
    · exact ⟨g, by rw [h1.vol, Vol.modFile_file_ne _ hid, hg], rfl⟩
  have hcore1 : s1.vol.core = s.vol.core := by rw [h1.vol]; rfl
  obtain ⟨x, hx, hfx, -⟩ := node_of_ref hf1 (hcore1 ▸ href)
  obtain ⟨y, hy, hgy, -⟩ := node_of_ref hg1 (hcore1 ▸ hiref)
  have hxsize : x.din.size = f.size := (congrArg File.size hfx).symm
  have hylinks : y.din.nlinks = g.nlinks := hglinks ▸ (congrArg File.nlinks hgy).symm
  rw [sat_bind, sat_sin hx, sat_bind, sat_sin hy, sat_bind, sat_check ⟨hxsize ▸ hsize, hylinks ▸ hlinks⟩, sat_bind]
  refine (touch_ok (g := .setSize (f.size - 1)) busy hinv1 hf1 (hcore1 ▸ href) attr_setSize ?_
    fun _ _ hb => hb).imp ?_
  · rintro x - hfx
    have hsize : x.din.size = f.size := (congrArg File.size hfx).symm
    simp only [hsize]
  rintro - s2 h2
  obtain ⟨g2, hg2⟩ : ∃ g2, s2.vol.file i = some g2 := by
    rw [h2.vol]
    exact Vol.modFile_some _ ⟨g1, hg1⟩
  have hcore2 : s2.vol.core = s.vol.core := by rw [h2.vol]; exact hcore1
  refine (touch_ok busy h2.inv hg2 (hcore2 ▸ hiref) attr_decLinks (fun _ _ _ => rfl) fun _ _ hb => hb).imp ?_
  rintro - s3 h3
  have hvol : s3.vol = s.vol.linkOut d k i := by
    rw [h3.vol, h2.vol, h1.vol, Vol.modFile_modFile]
    exact congrArg (Vol.modFile · i .decLinks) (Vol.modFile_congr s.vol hf rfl)
  exact ⟨h3.inv, hvol, (h1.kept.trans h2.kept).trans h3.kept, h3.freemap.trans (h2.freemap.trans hmap1)⟩

end

lemma nlinksInc_ok (hf : ∃ f, s.vol.file i = some f) (href : (s.vol.core i).refCount ≠ 0) :
    Sat allowed (nlinksInc i) s (fun _ => Becomes s busy (s.vol.modFile i .incLinks)) E := by
  obtain ⟨f, hf⟩ := hf
  exact touch_ok busy h hf href attr_incLinks (fun _ _ _ => rfl) fun _ _ hb => hb

lemma nlinksDec_ok (hf : s.vol.file i = some f) (href : (s.vol.core i).refCount ≠ 0) (hlinks : f.nlinks ≠ 0) :
    Sat allowed (nlinksDec i) s (fun _ => Becomes s busy (s.vol.modFile i .decLinks)) E := by
  obtain ⟨x, hx, hfx, -⟩ := node_of_ref hf href
  have hxl : x.din.nlinks ≠ 0 := by rwa [hfx] at hlinks
  rw [nlinksDec, sat_bind, sat_sin hx, sat_bind, sat_check hxl]
  exact touch_ok busy h hf href attr_decLinks (fun _ _ _ => rfl) fun _ _ hb => hb

lemma dirinfoSetParent_ok (hf : ∃ f, s.vol.file i = some f) (href : (s.vol.core i).refCount ≠ 0) :
    Sat allowed (dirinfoSetParent i parent) s
    (fun _ s' => Becomes s busy (s.vol.modFile i (.setParent parent)) s') E := by
  obtain ⟨f, hf⟩ := hf
  exact touch_ok busy h hf href attr_setParent (fun _ _ _ => rfl) fun _ _ hb => hb

structure Fresh (s : Sfs) (i : Nat) : Prop where
  alloc : s.bitmapAlloc = some i
  file : s.vol.file i = none
  core : s.vol.core i = .idle
  ne_zero : i ≠ 0

lemma direntCreateInode_ok (htype : type = .dir ∨ type = .file) : Sat allowed (direntCreateInode type) s
    (fun i s' => Fresh s i ∧ Changed 1 s busy (s.vol.create i (.new type)) s')
    fun e => NoRoom 1 s busy e := by
  rw [direntCreateInode]
  refine (blockAlloc_ok h.accounts).bind ?_ ?_
  · rintro b _ ⟨halloc, hf, rfl⟩
    have htype' : (DiskInode.new type).type = .dir ∨ (DiskInode.new type).type = .file := htype
    rw [sat_bind, createInode, sat_bind, sat_check htype', sat_modify, sat_pure]
    obtain ⟨hinv, hvol⟩ := h.create hf htype
    have hfresh : Fresh s b := ⟨halloc, by simp [vol, h.din_free hf], core_of_none (h.node_free hf), h.ne_zero_of_free hf⟩
    exact ⟨hfresh, hinv, hvol, (Kept.take (h.bits b hf).2).trans .setNode, .of_take (h.bits b hf).1 hf rfl rfl⟩
  · rintro e _ ⟨rfl, rfl, h0⟩
    exact ⟨rfl, by omega, .refl _, h, rfl⟩

lemma unref_ok (hb : s.pinned = true ∨ ∀ i, ¬ busy i) (hf : s.vol.file i = some f)
    (href : (s.vol.core i).refCount ≠ 0) (hrem : f.nlinks ≠ 0 → (s.vol.core i).removed = false) :
    Sat allowed (refDec i) s (fun _ => Dropped s busy i) E := by
  obtain ⟨x, hx, rfl, hc⟩ := node_of_ref hf href
  rw [hc] at href hrem
  exact refDec_ok h hx href (hb.imp id fun h => h i) hrem

structure Stays (n : Nat) (s : Sfs) (busy : Nat → Prop) (e : Errno) (s' : Sfs) : Prop where
  inv : s'.Inv busy
  vol : s'.vol = s.vol
  kept : Kept s s'
  room : e = .noMem → s.freeBits < n

lemma Stays.refl (he : e ≠ .noMem) : Stays n s busy e s := ⟨h, rfl, .refl s, fun h => absurd h he⟩

omit h in
lemma NoRoom.stays (h : NoRoom n s busy e s') : Stays n s busy e s' := ⟨h.inv, h.vol, h.kept, fun _ => h.room⟩

omit h in
lemma undoCreate_ok (hb : s.pinned = true ∨ ∀ i, ¬ busy i) (hfresh : Fresh s i)
    (hch : Changed 1 s busy (s.vol.create i (.new type)) s1) (hno : NoRoom 3 s1 busy e s2) :
    Sat allowed (refDec i) s2 (fun _ => Stays 4 s busy e) E := by
  have hvol : s2.vol = s.vol.create i (.new type) := hno.vol.trans hch.vol
  have hf : s2.vol.file i = some (.new type) := by
    rw [hvol]
    exact Vol.setFile_file_self _
  have hc : s2.vol.core i = { removed := false, refCount := 1 } := by
    rw [hvol]
    exact Vol.setCore_core_self _
  have hpin : s2.pinned = s.pinned := (hch.kept.trans hno.kept).pinned
  refine (unref_ok hno.inv (hpin ▸ hb) hf (by simp [hc]) (absurd rfl)).imp ?_
  rintro - s' hdrop
  refine ⟨hdrop.inv, ?_, (hch.kept.trans hno.kept).trans hdrop.kept, fun _ => ?_⟩
  · rw [hdrop.vol, Vol.unref_last (by rw [hc]) hf rfl, hvol]
    exact s.vol.create_delete hfresh.file hfresh.core
  · have := hno.room
    have := hch.spends.free
    omega

omit h in
lemma Changed.create (h1 : Changed n s busy (s.vol.create i g) s') (hfresh : Fresh s i) (hf : s.vol.file d = some f) :
    d ≠ i ∧ s'.vol.file d = some f ∧ s'.vol.core d = s.vol.core d ∧ s'.vol.file i = some g ∧
    s'.vol.core i = { removed := false, refCount := 1 } := by
  have hne : d ≠ i := fun heq => by simp [heq, hfresh.file] at hf
  rw [h1.vol]
  exact ⟨hne, (Vol.setFile_file_ne _ hne).trans hf, Vol.setCore_core_ne _ hne,
    Vol.setFile_file_self _, Vol.setCore_core_self _⟩

lemma mkdirNolock_ok (hb : s.pinned = true ∨ ∀ i, ¬ busy i) (hf : s.vol.file d = some f)
    (href : (s.vol.core d).refCount ≠ 0) (hdir : f.type = .dir) (hlen : name.length ≤ maxFnameLen) :
    Sat allowed (mkdirNolock d name) s
      (fun _ s' => ∃ k i, f.search name = .missing k ∧ Fresh s i ∧ Changed 4 s busy (s.vol.mkdir d k i name) s')
      (fun e s' => Stays 4 s busy e s' ∧ (e = .noMem ∨ ∃ i k, f.search name = .found i k)) := by
  rw [mkdirNolock, sat_bind, sat_direntSearch h hf href hdir hlen]
  cases hsearch : f.search name with
  | found i k => exact ⟨.refl h (by simp), .inr ⟨i, k, rfl⟩⟩
  | missing k =>
    obtain ⟨hk, -⟩ := File.search_missing (h.dense hf) hsearch
    dsimp only
    refine (direntCreateInode_ok h (.inl rfl)).bind ?_ fun e s' hE => ?_
    rotate_left
    · exact ⟨⟨hE.inv, hE.vol, hE.kept, fun _ => by have := hE.room; omega⟩, .inl hE.code⟩
    rintro i s1 ⟨hfresh, h1⟩
    obtain ⟨hne, hf1, hd1, hg1, hi1⟩ := h1.create hfresh hf
    rw [sat_bind, sat_attempt]
    refine (direntLink_ok h1.inv hf1 (hd1 ▸ href) hdir hk hlen hg1 (by simp [hi1])).mono ?_ ?_
    · rintro - s2 h2
      have hcore2 : s2.vol.core = s1.vol.core := by rw [h2.vol]; rfl
      have hi2 : ∃ g, s2.vol.file i = some g := h2.vol ▸ Vol.modFile_some _ (Vol.modFile_some _ ⟨_, hg1⟩)
      have hd2 : ∃ g, s2.vol.file d = some g := h2.vol ▸ Vol.modFile_some _ (Vol.modFile_some _ ⟨_, hf1⟩)
      dsimp only
      rw [sat_bind]
      refine (dirinfoSetParent_ok h2.inv hi2 (by simp [hcore2, hi1])).imp ?_
      rintro - s3 h3
      have hcore3 : s3.vol.core = s1.vol.core := by rw [h3.vol]; exact hcore2
      rw [sat_bind]
      refine (nlinksInc_ok h3.inv (h3.vol ▸ Vol.modFile_some _ hi2) (by simp [hcore3, hi1])).imp ?_
      rintro - s4 h4
      have hcore4 : s4.vol.core = s1.vol.core := by rw [h4.vol]; exact hcore3
      have hd4 : ∃ g, s4.vol.file d = some g := by
        rw [h4.vol, h3.vol]
        exact Vol.modFile_some _ (Vol.modFile_some _ hd2)
      rw [sat_bind]
      refine (nlinksInc_ok h4.inv hd4 (by rw [hcore4, hd1]; exact href)).imp ?_
      rintro - s5 h5
      have hcore5 : s5.vol.core = s1.vol.core := by rw [h5.vol]; exact hcore4
      have hvol5 : s5.vol = ((((s.vol.create i (.new .dir)).linkIn d k i name).modFile i (.setParent d)).modFile i
          .incLinks).modFile d .incLinks := by
        rw [h5.vol, h4.vol, h3.vol, h2.vol, h1.vol]
      have hf5 : s5.vol.file i = some { File.new .dir with nlinks := 2, parent := d } := by
        rw [hvol5, Vol.modFile_file_ne _ hne.symm, Vol.modFile_file_self, Vol.modFile_file_self, Vol.linkIn,
          Vol.modFile_file_self, Vol.modFile_file_ne _ hne.symm, Vol.create, Vol.setCore_file, Vol.setFile_file_self]
        rfl
      have hkept := (((h1.kept.trans h2.kept).trans h3.kept).trans h4.kept).trans h5.kept
      refine (unref_ok h5.inv (hkept.pinned ▸ hb) hf5 (by simp [hcore5, hi1]) (fun _ => by simp [hcore5, hi1])).mono ?_
        fun _ _ => id
      rintro - s6 h6
      refine ⟨k, i, rfl, hfresh, h6.inv, ?_, hkept.trans h6.kept, ?_⟩
      · rw [h6.vol, hvol5, Vol.mkdir]
      · have h02 := h1.spends.trans h2.spends
        refine ((h02.trans (m := 0) h3.spends).trans (m := 0) h4.spends).trans (m := 0)
          (h5.spends.trans (n := 0) (m := 0) ?_)
        exact .of_eq h6.kept.blocks (h6.freemap _ hf5 (by simp))
    · rintro e s2 ⟨-, hno⟩
      dsimp only
      obtain ⟨y, hy, hfy, hcy⟩ := node_of_ref (s := s2) (i := i) (f := .new .dir) (hno.vol ▸ hg1) (by simp [hno.vol, hi1])
      have hy1 : y.refCount = 1 := by
        have := congrArg Core.refCount hcy
        rw [hno.vol, hi1] at this
        exact this.symm
      have hy0 : y.din.nlinks = 0 := (congrArg File.nlinks hfy).symm
      rw [sat_bind, sat_sin hy, sat_bind, sat_check ⟨hy0, hy1⟩, sat_thenRefDec, sat_fail]
      exact (undoCreate_ok hb hfresh h1 hno).imp (fun _ _ hs => ⟨hs, .inl hno.code⟩)

def Targets (s : Sfs) (f : File) : Prop :=
  ∀ k i name, f.live k = some (i, name) → ∃ g, s.vol.file i = some g ∧ g.nlinks ≠ 0 ∧ (s.vol.core i).removed = false

lemma createNolock_ok (hb : s.pinned = true ∨ ∀ i, ¬ busy i) (hf : s.vol.file d = some f)
    (href : (s.vol.core d).refCount ≠ 0) (hdir : f.type = .dir) (hlen : name.length ≤ maxFnameLen)
    (htarget : s.Targets f) :
    Sat allowed (createNolock d name excl) s (fun i s' =>
        (∃ k, f.search name = .missing k ∧ Fresh s i ∧
        Changed 4 s busy ((s.vol.create i (.new .file)).linkIn d k i name) s') ∨
        ∃ k, f.live k = some (i, name) ∧ s.vol.isDir i = false ∧ Becomes s busy (s.vol.load i) s')
      fun e => Stays 4 s busy e := by
  rw [createNolock, sat_bind, sat_direntSearch h hf href hdir hlen]
  cases hsearch : f.search name with
  | found i k =>
    obtain ⟨-, hlive⟩ := File.search_found hsearch
    obtain ⟨g, hg, hl, hrem⟩ := htarget k i name hlive
    dsimp only
    cases excl with
    | true => exact .refl h (by simp)
    | false =>
      rw [if_neg (by simp), sat_bind]
      refine (loadInode_ok h hg hl).imp ?_
      rintro - s1 h1
      have hg1 : s1.vol.file i = some g := by rw [h1.vol]; exact hg
      have hi1 : (s1.vol.core i).refCount ≠ 0 := by simp [h1.vol, Vol.load]
      obtain ⟨x, hx, rfl, -⟩ := node_of_ref hg1 hi1
      rw [sat_bind, sat_sin hx]
      by_cases htype : x.din.type = .file
      · rw [if_pos htype]
        refine .inr ⟨k, hlive, ?_, h1⟩
        have hgtype : (s1.fileOf i x.din).type = .file := htype
        rw [Vol.isDir_of_file hg, hgtype]
        rfl
      rw [if_neg htype, sat_thenRefDec, sat_fail]
      have hrem1 : (s1.vol.core i).removed = false := by simp [h1.vol, Vol.load, hrem]
      refine (unref_ok h1.inv (h1.kept.pinned ▸ hb) hg1 hi1 fun _ => hrem1).imp ?_
      rintro - s2 h2
      refine ⟨h2.inv, ?_, h1.kept.trans h2.kept, by simp⟩
      rw [h2.vol, h1.vol, Vol.load_unref _ hg hl]
  | missing k =>
    obtain ⟨hk, -⟩ := File.search_missing (h.dense hf) hsearch
    dsimp only
    refine (direntCreateInode_ok h (.inr rfl)).bind ?_ fun e s' hE => ?_
    rotate_left
    · exact ⟨hE.inv, hE.vol, hE.kept, fun _ => by have := hE.room; omega⟩
    rintro i s1 ⟨hfresh, h1⟩
    obtain ⟨-, hf1, hd1, hg1, hi1⟩ := h1.create hfresh hf
    rw [sat_bind, sat_attempt]
    refine (direntLink_ok h1.inv hf1 (hd1 ▸ href) hdir hk hlen hg1 (by simp [hi1])).mono ?_ ?_
    · rintro - s2 h2
      refine .inl ⟨k, rfl, hfresh, ?_⟩
      grind [h1.trans, h1.vol]
    · rintro e s2 ⟨-, hno⟩
      rw [sat_thenRefDec, sat_fail]
      exact undoCreate_ok hb hfresh h1 hno

end

end Sfs

end Ucore.Fs
