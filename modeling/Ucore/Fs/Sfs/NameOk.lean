import Ucore.Fs.Sfs.LookupOk

/-!
# Operations on names

The operations of a directory on a good state.
-/

namespace Ucore.Fs

open Function Lib.Cmd
open Vol (isDir_iff slot_of_file sameBut_of_slot isDir_of_file isDir_of_slot detach_isDir
  detach_some modFile_some detachFile)

def Vol.Only (d : Nat) (n : Name) (d' : Nat) (n' : Name) : Prop := d' = d ∧ n' = n

namespace Sfs

variable {s s' s'' : Sfs} {held : Multiset Nat} {tree : Bool} {allowed : Panic → Prop} {P : Nat → Name → Prop} {v : Vol}
  {E : Errno → Sfs → Prop} {Q : Unit → Sfs → Prop}

structure Unmoved (held : Multiset Nat) (tree : Bool) (s s' : Sfs) : Prop where
  good : Good held tree s'
  vol : s'.vol = s.vol
  kept : Kept s s'

lemma begin_good {x : FsM α} {Q : α → Sfs → Prop} {e : Errno} (hd : d ∈ held) (h : Good held tree s) (hE : ∀ e, E e s)
    (hx : (s.vol.core d).removed = false → name ≠ dot ∧ name ≠ dotdot ∧ name.length ≤ maxFnameLen → Sat allowed x s Q E) :
    Sat allowed (if maxFnameLen < name.length then fail .tooBig
    else if name = dot ∨ name = dotdot then fail e
    else do
    trylock d
    x) s Q E := by
  split
  · exact hE _
  split
  · exact hE _
  rename_i hlen hname
  rw [not_or] at hname
  rw [sat_bind, sat_trylock (h.ok.refCount_ne_zero hd)]
  split
  · exact hE _
  · rename_i hr
    exact hx (by simpa using hr) ⟨hname.1, hname.2, by omega⟩

lemma Inv.ne_zero_of_file (h : s.Inv busy) (hf : s.vol.file i = some f) : i ≠ 0 := by
  obtain ⟨d, hd, -⟩ := din_of_file hf
  exact ne_zero_of_used (h.used_din hd)

lemma Good.ne_of_slot (h : Good held true s) (hs : s.vol.slot (d, k) = some (i, n)) : i ≠ d := by
  rintro rfl
  have hdir := isDir_of_slot hs
  have hroot := (h.ok.wf.target _ i n hs).1
  -- no chain of entries from the root ends in such a directory
  have hchain : ∀ j, s.vol.Below blknRoot j → j ≠ i := by
    intro j hj
    induction hj with
    | self => exact Ne.symm hroot
    | step _ he ih =>
      obtain ⟨-, k', m, hs'⟩ := he
      rintro rfl
      obtain ⟨f, hf, htype⟩ := isDir_iff.mp hdir
      have h1 := h.ok.wf.parent _ k _ n f hs hf htype
      grind [h.ok.wf.parent]
  exact hchain i (h.ok.rooted rfl i hdir (h.ok.wf.not_removed_of_slot hs)) rfl

lemma setRemoved_ok (h : s.Inv busy) (href : (s.vol.core i).refCount ≠ 0) :
    Sat allowed (modifySin i fun x => { x with removed := true }) s
      (fun _ => Becomes s busy (s.vol.setCore i { s.vol.core i with removed := true })) E := by
  obtain ⟨x, hx, hc⟩ := node_of_core href
  have hd : s.din i = some x.din := din_of_node hx
  rw [sat_modifySin hx, hc]
  exact .of_setNode (h.setMem (x := { x with removed := true }) hd (h.counts i x hx) (h.synced i x hx))

lemma rmdir_ok (h : s.Inv busy) (hs : s.vol.HasEntry d k i name true) (hne : i ≠ d)
    (hf : s.vol.file d = some f) (htype : f.type = .dir) (href : (s.vol.core d).refCount ≠ 0)
    (hg : s.vol.file i = some g) (hgtype : g.type = .dir) (hiref : (s.vol.core i).refCount ≠ 0) (hlinks : 2 ≤ g.nlinks) :
    Sat allowed (do
        direntUnlink d k i
        modifySin i fun x => { x with removed := true }
        nlinksDec i
        nlinksDec d) s
      (fun _ s' => Becomes s busy ((s.vol.detach d k i).retire i) s') E := by
  obtain ⟨-, hk, hsize⟩ := hs.leaf f hf
  have hflinks := hs.links d f hf
  simp only [hne, ↓reduceIte, and_self] at hflinks
  rw [sat_bind]
  refine (direntUnlink_ok h hf href htype hk hsize hg hiref (by omega)).imp ?_
  rintro - s1 h1
  have hcore1 : s1.vol.core = s.vol.core := by rw [h1.vol]; rfl
  have hg1 : s1.vol.file i = some g.decLinks := by
    rw [h1.vol, Vol.linkOut, Vol.modFile_file_self, Vol.modFile_file_ne _ hne, hg]
    rfl
  have hf1 : s1.vol.file d = some (f.dropEntry k) := by
    rw [h1.vol, Vol.linkOut, Vol.modFile_file_ne _ hne.symm, Vol.modFile_file_self, hf]
    rfl
  rw [sat_bind]
  refine (setRemoved_ok h1.inv (hcore1 ▸ hiref)).imp ?_
  rintro - s2 h2
  have hg2 : s2.vol.file i = some g.decLinks := by rw [h2.vol]; exact hg1
  have hi2 : (s2.vol.core i).refCount ≠ 0 := by
    rw [h2.vol, Vol.setCore_core_self, hcore1]
    exact hiref
  have hl2 : g.decLinks.nlinks ≠ 0 := by
    simp only [File.decLinks]
    omega
  rw [sat_bind]
  refine (nlinksDec_ok h2.inv hg2 hi2 hl2).imp ?_
  rintro - s3 h3
  have hf3 : s3.vol.file d = some (f.dropEntry k) := by
    rw [h3.vol, Vol.modFile_file_ne _ hne.symm, h2.vol]
    exact hf1
  have hd3 : (s3.vol.core d).refCount ≠ 0 := by
    rw [h3.vol, Vol.modFile_core, h2.vol, Vol.setCore_core_ne _ hne.symm, hcore1]
    exact href
  have hl3 : (f.dropEntry k).nlinks ≠ 0 := show f.nlinks ≠ 0 by omega
  refine (nlinksDec_ok h3.inv hf3 hd3 hl3).imp ?_
  rintro - s4 h4
  refine ⟨h4.inv, ?_, ((h1.kept.trans h2.kept).trans h3.kept).trans h4.kept, ?_⟩
  · rw [h4.vol, h3.vol, h2.vol, hcore1, h1.vol]
    exact Vol.retire_eq (isDir_iff.mpr ⟨g, hg, hgtype⟩) hne
  · rw [h4.freemap, h3.freemap, h2.freemap, h1.freemap]

lemma unlinkMove_ok {K : Bool → FsM Unit} (h : s.Inv busy)
    (hs : s.vol.HasEntry d k i name (s.vol.isDir i)) (hf : s.vol.file d = some f) (htype : f.type = .dir)
    (href : (s.vol.core d).refCount ≠ 0) (hg : s.vol.file i = some g) (hiref : (s.vol.core i).refCount ≠ 0)
    (hK : ∀ s', Becomes s busy (s.vol.detach d k i) s' → Sat allowed (K (s.vol.isDir i)) s' Q E) :
    Sat allowed (do
    direntUnlink d k i
    let dir ← isDir i
    when (dir = true) (nlinksDec d)
    K dir) s Q E := by
  obtain ⟨-, hk, hsize⟩ := hs.leaf f hf
  have hflinks := hs.links d f hf
  have hglinks := hs.links i g hg
  rw [if_pos rfl] at hglinks
  rw [sat_bind]
  refine (direntUnlink_ok h hf href htype hk hsize hg hiref (by omega)).imp ?_
  rintro - s1 h1
  have hcore1 : s1.vol.core = s.vol.core := by rw [h1.vol]; rfl
  have hmap := Vol.mapOf_linkOut (v := s.vol) (d := d) (k := k) (i := i)
  rw [← h1.vol] at hmap
  have hisDir : s1.vol.isDir = s.vol.isDir := Vol.isDir_eq hmap fun j f => by split <;> split <;> rfl
  have hg1 := hmap i
  rw [hg, Option.map_some] at hg1
  rw [sat_bind, sat_isDir hg1 (hcore1 ▸ hiref), ← isDir_of_file hg1, hisDir, sat_bind]
  cases hidir : s.vol.isDir i with
  | false =>
    rw [sat_when_not (by simp), ← hidir]
    refine hK s1 ⟨h1.inv, ?_, h1.kept, h1.freemap⟩
    rw [h1.vol, Vol.linkOut_eq_detach hidir (isDir_iff.mpr ⟨f, hf, htype⟩)]
  | true =>
    have hf1 := hmap d
    rw [hf, Option.map_some] at hf1
    rw [sat_when rfl, ← hidir]
    refine (nlinksDec_ok h1.inv hf1 (hcore1 ▸ href) ?_).imp ?_
    · grind [File.dropEntry, File.decLinks, File.put]
    rintro - s2 h2
    refine hK s2 ⟨h2.inv, ?_, h1.kept.trans h2.kept, h2.freemap.trans h1.freemap⟩
    rw [h2.vol, h1.vol, Vol.linkOutDir_eq_detach hidir]

section

variable (h : Good held tree s)
include h

lemma Unmoved.refl : Unmoved held tree s s := ⟨h, rfl, .refl s⟩

lemma Stays.unmoved (hs : Stays n s (fun _ => s.pinned = true) e s') :
    Unmoved held tree s s' := ⟨.of hs.inv hs.kept (hs.vol ▸ h.ok), hs.vol, hs.kept⟩

structure Named (P : Nat → Name → Prop) (held : Multiset Nat) (tree : Bool) (s s' : Sfs) : Prop where
  good : Good held tree s'
  kept : Kept s s'
  frame : Vol.SameBut P s.vol s'.vol
  live : ∀ d n, P d n → s'.vol.Live d

lemma Good.vacant (hf : s.vol.file d = some f) (hdir : f.type = .dir)
    (hr : (s.vol.core d).removed = false) (hsearch : f.search name = .missing k)
    (hplain : name ≠ dot ∧ name ≠ dotdot ∧ name.length ≤ maxFnameLen) : s.vol.Vacant d k name := by
  obtain ⟨-, hnone, hfresh⟩ := File.search_missing (h.inv.dense hf) hsearch
  refine ⟨isDir_iff.mpr ⟨f, hf, hdir⟩, hr, ?_, fun k' j => ?_, hplain⟩
  · rw [slot_of_file hf, hnone]
  · rw [slot_of_file hf]
    exact hfresh k' j

section

variable (hd : d ∈ held) (hdir : s.vol.isDir d = true)
include hd hdir

lemma sfsMkdir_good :
    Sat allowed (sfsMkdir d name) s (fun _ s' => s.vol.Roomy → Named (Vol.Only d name) held tree s s')
    fun _ => Unmoved held tree s := by
  refine begin_good hd h (fun _ => .refl h) fun hr hplain => ?_
  obtain ⟨f, hf, htype⟩ := isDir_iff.mp hdir
  refine (mkdirNolock_ok h.inv s.pinned_or hf (h.ok.refCount_ne_zero hd) htype hplain.2.2).mono ?_
    fun _ _ hE => hE.1.unmoved h
  rintro - s' ⟨k, i, hsearch, hfresh, hch⟩ hroom
  obtain ⟨hok, hframe, hlive⟩ := h.ok.mkdir (P := Vol.Only d name) hroom (h.vacant hf htype hr hsearch hplain) hfresh.file
    hfresh.ne_zero ⟨rfl, rfl⟩
  rw [← hch.vol] at hok hframe hlive
  refine ⟨.of hch.inv hch.kept hok, hch.kept, hframe, ?_⟩
  rintro _ _ ⟨rfl, rfl⟩
  exact hlive

lemma sfsCreate_good : Sat allowed (sfsCreate d name excl) s
    (fun i s' => Named (Vol.Only d name) (i ::ₘ held) tree s s' ∧ s'.vol.isDir i = false)
    fun _ => Unmoved held tree s := by
  refine begin_good hd h (fun _ => .refl h) fun hr hplain => ?_
  obtain ⟨f, hf, htype⟩ := isDir_iff.mp hdir
  refine (createNolock_ok h.inv s.pinned_or hf (h.ok.refCount_ne_zero hd) htype hplain.2.2 (h.targets hf)).mono ?_
    fun _ _ hE => hE.unmoved h
  rintro i s' (⟨k, hsearch, hfresh, hch⟩ | ⟨k, hlive, hidir, hb⟩)
  · obtain ⟨hok, hframe, hlive, hidir⟩ := h.ok.createLink (P := Vol.Only d name) (h.vacant hf htype hr hsearch hplain)
      hfresh.file hfresh.ne_zero ⟨rfl, rfl⟩
    rw [← hch.vol] at hok hframe hlive hidir
    refine ⟨⟨.of hch.inv hch.kept hok, hch.kept, hframe, ?_⟩, hidir⟩
    rintro _ _ ⟨rfl, rfl⟩
    exact hlive
  · have hs : s.vol.slot (d, k) = some (i, name) := by rw [slot_of_file hf, hlive]
    obtain ⟨-, g, hg⟩ := h.ok.wf.target _ i name hs
    refine ⟨⟨.of hb.inv hb.kept (hb.vol ▸ h.ok.load hg), hb.kept, ?_, ?_⟩, ?_⟩
    · exact hb.vol ▸ sameBut_of_slot Vol.same_load.slot
    · rintro _ _ ⟨rfl, rfl⟩
      obtain ⟨f, hf, hl⟩ := h.ok.live_of_dir hdir hr
      exact hb.vol ▸ ⟨f, hf, hl⟩
    · exact hb.vol ▸ hidir

lemma linkNolock_good
    (hr : (s.vol.core d).removed = false) (hplain : name ≠ dot ∧ name ≠ dotdot ∧ name.length ≤ maxFnameLen)
    (hi : i ∈ held) (hidir : s.vol.isDir i = false) :
    Sat allowed (linkNolock d i name) s (fun _ s' => s.vol.Roomy → Named (Vol.Only d name) held tree s s' ∧ s'.vol.Live i)
      fun _ => Unmoved held tree s := by
  obtain ⟨f, hf, htype⟩ := isDir_iff.mp hdir
  obtain ⟨g, hg⟩ := h.ok.file_of_mem hi
  have href := h.ok.refCount_ne_zero hd
  rw [linkNolock, sat_bind, sat_direntSearch h.inv hf href htype hplain.2.2]
  cases hsearch : f.search name with
  | found i k => exact .refl h
  | missing k =>
    have hv := h.vacant hf htype hr hsearch hplain
    have hi0 := h.inv.ne_zero_of_file hg
    obtain ⟨hk, -⟩ := File.search_missing (h.inv.dense hf) hsearch
    dsimp only
    refine (direntLink_ok h.inv hf href htype hk hplain.2.2 hg (h.ok.refCount_ne_zero hi)).mono ?_
      fun _ _ hE => hE.2.stays.unmoved h
    rintro - s' hch hroom
    obtain ⟨heq, hok⟩ := h.ok.link hv hg (hroom i g hg) hidir hi0
    have hvol : s'.vol = s.vol.attach d k i name := hch.vol.trans heq
    refine ⟨⟨.of hch.inv hch.kept (hvol ▸ hok), hch.kept, hvol ▸ Vol.attach_sameBut hv hi0 ⟨rfl, rfl⟩, ?_⟩, ?_⟩
    · rintro _ _ ⟨rfl, rfl⟩
      rw [hvol]
      exact hok.live_of_dir (by rw [Vol.attach_isDir]; exact hdir) hr
    · rw [hvol]
      exact ⟨_, Vol.attach_some hg, by simp [Vol.attachFile]⟩

lemma sfsLink_good (hi : i ∈ held) : Sat allowed (sfsLink d name i) s
    (fun _ s' => s.vol.Roomy → Named (Vol.Only d name) held tree s s' ∧ s'.vol.Live i)
    fun _ => Unmoved held tree s := by
  obtain ⟨g, hg⟩ := h.ok.file_of_mem hi
  rw [sfsLink]
  split
  · exact .refl h
  split
  · exact .refl h
  rename_i hlen hname
  rw [not_or] at hname
  rw [sat_bind, sat_isDir hg (h.ok.refCount_ne_zero hi), ← isDir_of_file hg]
  cases hidir : s.vol.isDir i with
  | true => exact .refl h
  | false =>
    rw [if_neg (by simp), sat_bind, sat_trylock (h.ok.refCount_ne_zero hd)]
    split
    · exact .refl h
    · rename_i hr
      exact linkNolock_good h hd hdir (by simpa using hr) ⟨hname.1, hname.2, by omega⟩ hi hidir

end

-- unlink

lemma unlinkEntry_good (htree : tree = true ∨ allowed .hang) (hd : d ∈ held) (hi : i ∈ held)
    (hs : s.vol.slot (d, k) = some (i, name)) :
    Sat allowed (unlinkEntry d k i) s (fun _ => Named (Vol.Only d name) held tree s)
      fun _ => Unmoved held tree s := by
  have hddir := isDir_of_slot hs
  obtain ⟨f, hf, htype⟩ := isDir_iff.mp hddir
  obtain ⟨g, hg⟩ := h.ok.file_of_mem hi
  have href := h.ok.refCount_ne_zero hd
  have hiref := h.ok.refCount_ne_zero hi
  have hentry := h.ok.hasEntry hf (h.inv.dense hf) hs
  obtain ⟨-, hk, hsize⟩ := hentry.leaf f hf
  obtain ⟨g', hg', hlinks, hr⟩ := h.ok.target hs
  cases hg.symm.trans hg'
  rw [unlinkEntry, sat_bind, sat_isDir hg hiref, ← isDir_of_file hg]
  cases hidir : s.vol.isDir i with
  | false =>
    rw [if_neg (by simp)]
    refine (direntUnlink_ok h.inv hf href htype hk hsize hg hiref hlinks).imp ?_
    rintro - s' hb
    have hvol : s'.vol = s.vol.detach d k i := hb.vol.trans (Vol.linkOut_eq_detach hidir hddir)
    have hok := h.ok.unlink hi hs hidir
    refine ⟨.of hb.inv hb.kept (hvol ▸ hok), hb.kept, hvol ▸ Vol.detach_sameBut hs ⟨rfl, rfl⟩, ?_⟩
    rintro _ _ ⟨rfl, rfl⟩
    rw [hvol]
    exact hok.live_of_dir (by rw [detach_isDir]; exact hddir) (h.ok.wf.not_removed_of_slot hs)
  | true =>
    have hgtype : g.type = .dir := of_decide_eq_true (isDir_of_file hg ▸ hidir)
    obtain ⟨x, hx, hgx, hcx⟩ := node_of_ref hg hiref
    have hxr : x.removed = false := by
      rw [hcx] at hr
      exact hr
    have hxsize : x.din.size = g.size := (congrArg File.size hgx).symm
    rw [if_pos rfl, sat_bind, sat_sin hx, hxr, if_neg (by simp), sat_bind, hxsize]
    by_cases hne : i = d
    · rcases htree with rfl | hhang
      · exact absurd hne (h.ne_of_slot hs)
      · rw [check, if_neg (by simp [hne])]
        exact hhang
    rw [sat_check hne]
    by_cases hempty : g.size = 0
    · rw [if_neg (by simp [hempty])]
      obtain ⟨m, -, hl⟩ := h.ok.wf.dirLinks i g hg hgtype hr
      have hl2 : 2 ≤ g.nlinks := by
        simp only [Vol.own] at hl
        simp at hl
        omega
      refine (rmdir_ok h.inv (hidir ▸ hentry) hne hf htype href hg hgtype hiref hl2).imp ?_
      rintro - s' hb
      have hok := h.ok.rmdir hi hs hg hgtype hempty
      rw [← hb.vol] at hok
      refine ⟨.of hb.inv hb.kept hok, hb.kept, ?_, ?_⟩
      · rw [hb.vol]
        exact (Vol.detach_sameBut hs ⟨rfl, rfl⟩).trans (sameBut_of_slot (Vol.retire_slot (detach_some hg)))
      · rintro _ _ ⟨rfl, rfl⟩
        refine hok.live_of_dir ?_ ?_
        · rw [hb.vol, Vol.retire_isDir_ne (Ne.symm hne), detach_isDir]
          exact hddir
        · rw [hb.vol, Vol.retire_core_ne (Ne.symm hne)]
          exact h.ok.wf.not_removed_of_slot hs
    · rw [if_pos hempty]
      exact .refl h

omit h in
lemma Named.unref (h : Named P (i ::ₘ held) tree s s') (hgood : Good held tree s'') (hkept : Kept s' s'')
    (hvol : s''.vol = s'.vol.unref i) : Named P held tree s s'' := by
  refine ⟨hgood, h.kept.trans hkept, h.frame.trans (hvol ▸ sameBut_of_slot h.good.ok.wf.unref_slot), ?_⟩
  intro d n hP
  rw [hvol]
  exact (h.live d n hP).unref

lemma withInode_sat {x : FsM Unit} (hg : s.vol.file i = some g) (hl : g.nlinks ≠ 0)
    (hx : ∀ s1, Good (i ::ₘ held) tree s1 → Kept s s1 → s1.vol = s.vol.load i →
    Sat allowed x s1 (fun a s2 => Sat allowed (refDec i) s2 (fun _ => Q a) (fun _ => Unmoved held tree s))
    (fun _ => Unmoved (i ::ₘ held) tree s1)) :
    Sat allowed (do loadInode i; thenRefDec i x) s Q fun _ => Unmoved held tree s := by
  rw [sat_bind]
  refine (loadInode_ok h.inv hg hl).imp ?_
  rintro - s1 h1
  have hgood1 : Good (i ::ₘ held) tree s1 := .of h1.inv h1.kept (h1.vol ▸ h.ok.load hg)
  rw [sat_thenRefDec]
  refine (hx s1 hgood1 h1.kept h1.vol).mono (fun _ _ hQ => hQ) ?_
  rintro _ s2 h2
  refine (refDec_good h2.good h.ok.root).imp ?_
  rintro - s3 ⟨h3, hkept, hvol⟩
  refine ⟨h3, ?_, (h1.kept.trans h2.kept).trans hkept⟩
  rw [hvol, h2.vol, h1.vol, Vol.load_unref _ hg hl]

lemma withInode_good {x : FsM Unit} (hg : s.vol.file i = some g) (hl : g.nlinks ≠ 0)
    (hx : ∀ s1, Good (i ::ₘ held) tree s1 → Kept s s1 → s1.vol = s.vol.load i →
    Sat allowed x s1 (fun _ => Named P (i ::ₘ held) tree s1) (fun _ => Unmoved (i ::ₘ held) tree s1)) :
    Sat allowed (do loadInode i; thenRefDec i x) s (fun _ => Named P held tree s)
    fun _ => Unmoved held tree s := by
  refine withInode_sat h hg hl fun s1 h1 hkept1 hvol1 => (hx s1 h1 hkept1 hvol1).imp ?_
  rintro - s2 h2
  refine (refDec_good h2.good h.ok.root).imp ?_
  rintro - s3 ⟨h3, hkept, hvol⟩
  have hn := h2.unref h3 hkept hvol
  refine ⟨h3, hkept1.trans hn.kept, .trans ?_ hn.frame, hn.live⟩
  exact hvol1 ▸ sameBut_of_slot Vol.same_load.slot

lemma sfsUnlink_good (htree : tree = true ∨ allowed .hang) (hd : d ∈ held) (hdir : s.vol.isDir d = true) :
    Sat allowed (sfsUnlink d name) s (fun _ => Named (Vol.Only d name) held tree s)
      fun _ => Unmoved held tree s := by
  refine begin_good hd h (fun _ => .refl h) fun hr hplain => ?_
  obtain ⟨f, hf, htype⟩ := isDir_iff.mp hdir
  rw [unlinkNolock, sat_bind, sat_direntSearch h.inv hf (h.ok.refCount_ne_zero hd) htype hplain.2.2]
  cases hsearch : f.search name with
  | missing k => exact .refl h
  | found i k =>
    obtain ⟨-, hlive⟩ := File.search_found hsearch
    have hs : s.vol.slot (d, k) = some (i, name) := by rw [slot_of_file hf, hlive]
    obtain ⟨g, hg, hl, -⟩ := h.ok.target hs
    refine withInode_good h hg hl fun s1 h1 hkept hvol => ?_
    refine unlinkEntry_good h1 htree (Multiset.mem_cons_of_mem hd) (Multiset.mem_cons_self i held) ?_
    rw [hvol]
    exact hs

-- rename

lemma rename1Nolock_good (hd : d ∈ held) (hdir : s.vol.isDir d = true)
    (hr : (s.vol.core d).removed = false) (hlen : name.length ≤ maxFnameLen)
    (hplain : newName ≠ dot ∧ newName ≠ dotdot ∧ newName.length ≤ maxFnameLen) (hP : P d name ∧ P d newName)
    (hPd : ∀ d' n, P d' n → d' = d) :
    Sat allowed (rename1Nolock d name newName) s (fun _ s' => s.vol.Roomy → Named P held tree s s')
      fun _ => Unmoved held tree s := by
  obtain ⟨f, hf, htype⟩ := isDir_iff.mp hdir
  have href := h.ok.refCount_ne_zero hd
  rw [rename1Nolock]
  split
  · refine fun _ => ⟨h, .refl s, sameBut_of_slot rfl, fun d' n hP' => ?_⟩
    rw [hPd d' n hP']
    exact h.ok.live_of_dir hdir hr
  rw [sat_bind, sat_direntSearch h.inv hf href htype hlen]
  cases hsearch : f.search name with
  | missing k => exact .refl h
  | found i k =>
    obtain ⟨hk, hlive⟩ := File.search_found hsearch
    have hs : s.vol.slot (d, k) = some (i, name) := by rw [slot_of_file hf, hlive]
    obtain ⟨g, hg, hl, -⟩ := h.ok.target hs
    dsimp only
    rw [sat_bind, sat_direntSearch h.inv hf href htype hplain.2.2]
    cases hsearch' : f.search newName with
    | found i' k' => exact .refl h
    | missing k' =>
      have hv := h.vacant hf htype hr hsearch' hplain
      dsimp only
      refine (direntWrite_ok h.inv hf href htype (Nat.le_of_lt hk) (.inr hplain.2.2)).mono ?_ fun e s' hE => ?_
      rotate_left
      · exact absurd hE.1 (Nat.ne_of_lt hk)
      rintro - s' ⟨hch, hold⟩ hroom
      obtain ⟨hok, hframe⟩ := h.ok.rename hroom hf (h.inv.dense hf) hs hv.fresh hplain hP
      rw [← hch.vol] at hok hframe
      refine ⟨.of (hold hk).1 hch.kept hok, hch.kept, hframe, fun d' n hP' => ?_⟩
      rw [hPd d' n hP', hch.vol]
      obtain ⟨f', hf', hl'⟩ := h.ok.live_of_dir hdir hr
      exact ⟨f'.put k (.ofEntry i newName), by rw [Vol.modFile_file_self, hf']; rfl, hl'⟩

omit h in
lemma linkMove_ok (h : s.Inv busy) (hvol : s.vol = v.linkIn d k i n)
    (hb : (v.attach d k i n).Bounded) (hd : v.isDir d = true) (hi : ∃ g, v.file i = some g)
    (href : (v.core d).refCount ≠ 0) (hiref : (v.core i).refCount ≠ 0) (hidir : v.isDir i = dir) :
    Sat allowed (when (dir = true) do
    nlinksInc d
    dirinfoSetParent i d) s
    (fun _ => Becomes s busy (v.attach d k i n)) E := by
  have hcore : s.vol.core = v.core := by rw [hvol]; rfl
  cases dir with
  | false =>
    rw [sat_when_not (by simp)]
    exact ⟨h, hvol.trans (Vol.linkIn_eq_attach hb hidir hd), .refl s, rfl⟩
  | true =>
    obtain ⟨f, hf, -⟩ := isDir_iff.mp hd
    have hd1 : ∃ f, s.vol.file d = some f := hvol ▸ modFile_some _ (modFile_some _ ⟨f, hf⟩)
    have hi1 : ∃ f, s.vol.file i = some f := hvol ▸ modFile_some _ (modFile_some _ hi)
    rw [sat_when rfl, sat_bind]
    refine (nlinksInc_ok h hd1 (hcore ▸ href)).imp ?_
    rintro - s1 h1
    refine (dirinfoSetParent_ok h1.inv (h1.vol ▸ modFile_some _ hi1) ?_).imp ?_
    · rw [h1.vol, Vol.modFile_core, hcore]
      exact hiref
    rintro - s2 h2
    refine ⟨h2.inv, ?_, h1.kept.trans h2.kept, h2.freemap.trans h1.freemap⟩
    rw [h2.vol, h1.vol, hvol, Vol.linkDir_eq_attach hb hidir]

omit h in
lemma relinkMove_ok (h : s.Inv busy) (hvol : s.vol = v.linkIn d k i n)
    (hb : (v.attach d k i n).Bounded) (hd : v.isDir d = true) (href : (v.core d).refCount ≠ 0)
    (hparent : v.isDir i = true → ∀ f, v.file i = some f → f.parent = d) (hidir : v.isDir i = dir) :
    Sat allowed (when (dir = true) (nlinksInc d)) s (fun _ => Becomes s busy (v.attach d k i n)) E := by
  have hcore : s.vol.core = v.core := by rw [hvol]; rfl
  cases dir with
  | false =>
    rw [sat_when_not (by simp)]
    exact ⟨h, hvol.trans (Vol.linkIn_eq_attach hb hidir hd), .refl s, rfl⟩
  | true =>
    obtain ⟨f, hf, -⟩ := isDir_iff.mp hd
    obtain ⟨g, hg, -⟩ := isDir_iff.mp hidir
    have hd1 : ∃ f, s.vol.file d = some f := hvol ▸ modFile_some _ (modFile_some _ ⟨f, hf⟩)
    rw [sat_when rfl]
    refine (nlinksInc_ok h hd1 (hcore ▸ href)).imp ?_
    rintro - s1 h1
    refine ⟨h1.inv, ?_, h1.kept, h1.freemap⟩
    rw [h1.vol, hvol, ← Vol.linkDir_eq_attach hb hidir]
    have hmap := (Vol.mapOf_linkIn (v := v) (d := d) (k := k) (i := i) (n := n)).modFile (i := d) (g := .incLinks) i
    rw [hg, Option.map_some] at hmap
    refine (Vol.modFile_eq_self _ hmap ?_).symm
    refine File.ext rfl rfl (.symm ?_) rfl rfl rfl
    have hp : g.parent = d := hparent hidir g hg
    by_cases hid : i = d
    · simp only [hid, ↓reduceIte]
      exact hp
    · simp only [hid, ↓reduceIte]
      exact hp

lemma renameMove_sat (hd : d ∈ held) (hi : i ∈ held)
    (hs : s.vol.slot (d, k) = some (i, name)) (hd' : d' ∈ held) (hv : s.vol.Vacant d' k' newName) (hne : d ≠ d')
    (hk' : ∀ f, s.vol.file d' = some f → k' ≤ f.blocks)
    (hQ : ∀ s1, s1.Inv (fun _ => s.pinned = true) → Kept s s1 → s1.vol = (s.vol.detach d k i).linkIn d' k' i newName →
      Sat allowed (when (s.vol.isDir i = true) do
        nlinksInc d'
        dirinfoSetParent i d') s1 Q (fun _ => Unmoved held tree s)) :
    Sat allowed (renameMove d k i name d' k' newName) s Q fun _ => Unmoved held tree s := by
  have hddir := isDir_of_slot hs
  obtain ⟨f, hf, htype⟩ := isDir_iff.mp hddir
  obtain ⟨f', hf', htype'⟩ := isDir_iff.mp hv.dir
  obtain ⟨g, hg⟩ := h.ok.file_of_mem hi
  have href := h.ok.refCount_ne_zero hd
  have href' := h.ok.refCount_ne_zero hd'
  have hiref := h.ok.refCount_ne_zero hi
  have hentry := h.ok.hasEntry hf (h.inv.dense hf) hs
  obtain ⟨-, hk, -⟩ := hentry.leaf f hf
  have hlen := (h.ok.wf.plain _ i name hs).2.2
  rw [renameMove]
  refine unlinkMove_ok h.inv hentry hf htype href hg hiref fun s1 h1 => ?_
  have hf1 : s1.vol.file d = some (s.vol.detachFile d k i d f) := by rw [h1.vol]; exact detach_some hf
  have hf1' : s1.vol.file d' = some (s.vol.detachFile d k i d' f') := by rw [h1.vol]; exact detach_some hf'
  have hg1 : s1.vol.file i = some (s.vol.detachFile d k i i g) := by rw [h1.vol]; exact detach_some hg
  have hcore1 : s1.vol.core = s.vol.core := by rw [h1.vol]; rfl
  have hidir1 : (s.vol.detach d k i).isDir i = s.vol.isDir i := by rw [detach_isDir]
  rw [sat_bind, sat_attempt]
  refine (direntLink_ok h1.inv hf1' (hcore1 ▸ href') htype' ?_ hv.plain.2.2 hg1 (hcore1 ▸ hiref)).mono ?_ ?_
  · simpa [detachFile, hne, Ne.symm hne] using hk' f' hf'
  · rintro - s2 h2
    exact hQ s2 h2.inv (h1.kept.trans h2.kept) (by rw [h2.vol, h1.vol])
  · -- no room for the new entry: the old one is written back to its slot
    rintro e s2 ⟨-, hno⟩
    dsimp only
    have hvol2 : s2.vol = s1.vol := hno.vol
    have hf2 : s2.vol.file d = some (s.vol.detachFile d k i d f) := by rw [hvol2]; exact hf1
    have hg2 : s2.vol.file i = some (s.vol.detachFile d k i i g) := by rw [hvol2]; exact hg1
    rw [sat_bind, sat_attempt]
    refine (direntLink_ok hno.inv hf2 (by rw [hvol2, hcore1]; exact href) htype ?_ hlen hg2
      (by rw [hvol2, hcore1]; exact hiref)).mono ?_ ?_
    · simp only [detachFile, ↓reduceIte]
      omega
    · rintro a s3 h3
      have hvol3 : s3.vol = (s.vol.detach d k i).linkIn d k i name := by rw [h3.vol, hvol2, h1.vol]
      have hback := hentry.relink (h.ok.parent_of_slot hs)
      have hbound : ((s.vol.detach d k i).attach d k i name).Bounded := hback.symm ▸ h.ok.bound
      have hparent : (s.vol.detach d k i).isDir i = true → ∀ f, (s.vol.detach d k i).file i = some f → f.parent = d := by
        intro hidir f2 hf2
        obtain ⟨f0, hf0, rfl⟩ := Vol.detach_back hf2
        exact h.ok.parent_of_slot hs (hidir1 ▸ hidir) f0 hf0
      have hddir1 : (s.vol.detach d k i).isDir d = true := by rw [detach_isDir]; exact hddir
      rw [sat_bind]
      refine (sat_when_congr (and_iff_right rfl)).mpr
        ((relinkMove_ok h3.inv hvol3 hbound hddir1 href hparent hidir1).imp ?_)
      rintro - s4 h4
      have hvol4 : s4.vol = s.vol := h4.vol.trans hback
      have hkept := ((h1.kept.trans hno.kept).trans h3.kept).trans h4.kept
      exact ⟨.of h4.inv hkept (hvol4 ▸ h.ok), hvol4, hkept⟩
    · rintro e' s3 ⟨hk2, -⟩
      simp only [detachFile, ↓reduceIte] at hk2
      omega

lemma renameMove_good (hroom : s.vol.Roomy) (hd : d ∈ held) (hi : i ∈ held)
    (hs : s.vol.slot (d, k) = some (i, name)) (hd' : d' ∈ held) (hv : s.vol.Vacant d' k' newName) (hne : d ≠ d')
    (hk' : ∀ f, s.vol.file d' = some f → k' ≤ f.blocks)
    (hbelow : tree = true → s.vol.isDir i = true → ¬ s.vol.Below i d') (hP : P d name ∧ P d' newName)
    (hPd : ∀ j n, P j n → j = d ∨ j = d') :
    Sat allowed (renameMove d k i name d' k' newName) s (fun _ => Named P held tree s)
    fun _ => Unmoved held tree s := by
  obtain ⟨hv', hok, hframe⟩ := h.ok.move hroom hi hs hv hne hbelow hP
  obtain ⟨g, hg⟩ := h.ok.file_of_mem hi
  have hidir1 : (s.vol.detach d k i).isDir i = s.vol.isDir i := by rw [detach_isDir]
  refine renameMove_sat h hd hi hs hd' hv hne hk' fun s2 hinv2 hkept2 hvol2 => ?_
  refine (linkMove_ok hinv2 hvol2 hok.bound hv'.dir ⟨_, detach_some hg⟩ (h.ok.refCount_ne_zero hd')
    (h.ok.refCount_ne_zero hi) hidir1).imp ?_
  rintro - s3 h3
  have hkept := hkept2.trans h3.kept
  rw [← h3.vol] at hok hframe
  refine ⟨.of h3.inv hkept hok, hkept, hframe, fun j n hPj => ?_⟩
  have hdir : s3.vol.isDir = s.vol.isDir := by rw [h3.vol, Vol.attach_isDir, detach_isDir]
  have hcore : s3.vol.core = s.vol.core := by rw [h3.vol]; rfl
  rcases hPd j n hPj with rfl | rfl
  · exact hok.live_of_dir (hdir ▸ isDir_of_slot hs) (hcore ▸ h.ok.wf.not_removed_of_slot hs)
  · exact hok.live_of_dir (hdir ▸ hv.dir) (hcore ▸ hv.present)

def Both (d : Nat) (name : Name) (d' : Nat) (newName : Name) (j : Nat) (n : Name) : Prop :=
  Vol.Only d name j n ∨ Vol.Only d' newName j n

def NotBelow (v : Vol) (d : Nat) (name : Name) (d' : Nat) : Prop :=
  ∀ i, v.Has d name i → v.isDir i = true → ¬ v.Below i d'

lemma rename2Nolock_sat (hd : d ∈ held) (hdir : s.vol.isDir d = true)
    (hd' : d' ∈ held) (hdir' : s.vol.isDir d' = true) (hr' : (s.vol.core d').removed = false)
    (hlen : name.length ≤ maxFnameLen) (hplain : newName ≠ dot ∧ newName ≠ dotdot ∧ newName.length ≤ maxFnameLen)
    (hQ : ∀ i k k', s.vol.slot (d, k) = some (i, name) → s.vol.Vacant d' k' newName →
      (∀ f, s.vol.file d' = some f → k' ≤ f.blocks) →
      Sat allowed (do loadInode i; thenRefDec i (renameMove d k i name d' k' newName)) s Q
        (fun _ => Unmoved held tree s)) :
    Sat allowed (rename2Nolock d name d' newName) s Q fun _ => Unmoved held tree s := by
  obtain ⟨f, hf, htype⟩ := isDir_iff.mp hdir
  obtain ⟨f', hf', htype'⟩ := isDir_iff.mp hdir'
  rw [rename2Nolock, sat_bind, sat_direntSearch h.inv hf (h.ok.refCount_ne_zero hd) htype hlen]
  cases hsearch : f.search name with
  | missing k => exact .refl h
  | found i k =>
    obtain ⟨-, hlive⟩ := File.search_found hsearch
    dsimp only
    rw [sat_bind, sat_direntSearch h.inv hf' (h.ok.refCount_ne_zero hd') htype' hplain.2.2]
    cases hsearch' : f'.search newName with
    | found i' k' => exact .refl h
    | missing k' =>
      obtain ⟨hk', -⟩ := File.search_missing (h.inv.dense hf') hsearch'
      refine hQ i k k' ?_ (h.vacant hf' htype' hr' hsearch' hplain) fun f1 hf1 => ?_
      · rw [slot_of_file hf, hlive]
      · cases hf'.symm.trans hf1
        exact hk'

lemma rename2Nolock_good (hroom : s.vol.Roomy) (hd : d ∈ held) (hdir : s.vol.isDir d = true)
    (hd' : d' ∈ held) (hdir' : s.vol.isDir d' = true) (hr' : (s.vol.core d').removed = false) (hne : d ≠ d')
    (hlen : name.length ≤ maxFnameLen) (hplain : newName ≠ dot ∧ newName ≠ dotdot ∧ newName.length ≤ maxFnameLen)
    (hbelow : tree = true → NotBelow s.vol d name d') :
    Sat allowed (rename2Nolock d name d' newName) s (fun _ => Named (Both d name d' newName) held tree s)
    fun _ => Unmoved held tree s := by
  refine rename2Nolock_sat h hd hdir hd' hdir' hr' hlen hplain fun i k k' hs hv hk' => ?_
  obtain ⟨g, hg, hl, -⟩ := h.ok.target hs
  refine withInode_good h hg hl fun s1 h1 hkept hvol => ?_
  refine renameMove_good h1 (hvol ▸ hroom) (Multiset.mem_cons_of_mem hd) (Multiset.mem_cons_self i held)
    (by rw [hvol]; exact hs) (Multiset.mem_cons_of_mem hd') (hvol ▸ hv.load) hne (by rw [hvol]; exact hk') ?_
    ⟨.inl ⟨rfl, rfl⟩, .inr ⟨rfl, rfl⟩⟩ ?_
  · rw [hvol]
    have hsame : Vol.SameTree s.vol (s.vol.load i) := Vol.sameTree_setCore rfl
    exact fun ht hidir hb => hbelow ht i ⟨k, hs⟩ hidir (hb.mono fun _ _ => (Vol.Edge.same hsame).mp)
  · rintro j n (⟨rfl, -⟩ | ⟨rfl, -⟩)
    exacts [.inl rfl, .inr rfl]

lemma sfsRename_sat (hd : d ∈ held) (hd' : d' ∈ held)
    (hQ : (s.vol.core d).removed = false → name.length ≤ maxFnameLen →
    newName ≠ dot ∧ newName ≠ dotdot ∧ newName.length ≤ maxFnameLen → d = d' →
    Sat allowed (rename1Nolock d name newName) s Q (fun _ => Unmoved held tree s))
    (hQ' : (s.vol.core d').removed = false → name.length ≤ maxFnameLen →
    newName ≠ dot ∧ newName ≠ dotdot ∧ newName.length ≤ maxFnameLen → d ≠ d' →
    Sat allowed (rename2Nolock d name d' newName) s Q (fun _ => Unmoved held tree s)) :
    Sat allowed (sfsRename d name d' newName) s Q fun _ => Unmoved held tree s := by
  rw [sfsRename]
  split
  · exact .refl h
  rename_i hlen
  split
  · exact .refl h
  split
  · exact .refl h
  rename_i hname'
  rw [not_or] at hname'
  rw [sat_bind, sat_trylock (h.ok.refCount_ne_zero hd)]
  split
  · exact .refl h
  rename_i hr
  by_cases hne : d = d'
  · rw [if_pos hne]
    exact hQ (by simpa using hr) (by omega) ⟨hname'.1, hname'.2, by omega⟩ hne
  rw [if_neg hne, sat_bind, sat_trylock (h.ok.refCount_ne_zero hd')]
  split
  · exact .refl h
  rename_i hr'
  exact hQ' (by simpa using hr') (by omega) ⟨hname'.1, hname'.2, by omega⟩ hne

lemma sfsRename_good (hroom : s.vol.Roomy) (hd : d ∈ held) (hdir : s.vol.isDir d = true)
    (hd' : d' ∈ held) (hdir' : s.vol.isDir d' = true)
    (hbelow : tree = true → d ≠ d' → NotBelow s.vol d name d') :
    Sat allowed (sfsRename d name d' newName) s (fun _ => Named (Both d name d' newName) held tree s)
    fun _ => Unmoved held tree s := by
  refine sfsRename_sat h hd hd' (fun hr hlen hplain heq => ?_) fun hr' hlen hplain hne => ?_
  · subst heq
    refine (rename1Nolock_good h hd hdir hr hlen hplain ⟨.inl ⟨rfl, rfl⟩, .inr ⟨rfl, rfl⟩⟩ ?_).imp
      (fun _ _ hn => hn hroom)
    rintro j n (⟨rfl, -⟩ | ⟨rfl, -⟩) <;> rfl
  · exact rename2Nolock_good h hroom hd hdir hd' hdir' hr' hne hlen hplain fun ht => hbelow ht hne

end

end Sfs

end Ucore.Fs
