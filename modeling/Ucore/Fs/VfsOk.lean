import Ucore.Fs.Sfs.NameOk

/-!
# Calls on paths

A call resolves its paths, does its work in the directories they lead to, and gives up
the references it took on the way.
-/

namespace Ucore.Fs

open Lib.Cmd
open Multiset (mem_cons_self mem_cons_of_mem)

namespace Sfs

variable {s s' s'' : Sfs} {held : Multiset Nat} {tree : Bool} {allowed : Panic → Prop} {P : Nat → Name → Prop} {v : Vol}
  {H : α → Multiset Nat}

lemma Unmoved.quiet (h : Unmoved held tree s s') : Quiet s s' := ⟨h.kept, h.vol ▸ .refl _⟩

lemma Quiet.named (hq : Quiet s s') (h : Named P held tree s' s'') : Named P held tree s s'' :=
  ⟨h.good, hq.kept.trans h.kept, .trans (Vol.sameBut_of_slot hq.same.slot) h.frame, h.live⟩

lemma Named.release (h : Named P (i ::ₘ held) tree s s') (hgood : Good held tree s'') (hq : Quiet s' s'') :
    Named P held tree s s'' := by
  refine ⟨hgood, h.kept.trans hq.kept, h.frame.trans (Vol.sameBut_of_slot hq.same.slot), fun d n hP => ?_⟩
  exact hq.same.live.mpr (h.live d n hP)

lemma Quiet.roomy (hq : Quiet s s') (h : s.vol.Roomy) : s'.vol.Roomy := by
  intro i f hf
  rw [hq.same.file] at hf
  exact h i f hf

lemma secure_cons (h : v.Secure held i) : v.Secure (j ::ₘ held) i := h.imp (fun hi => mem_cons_of_mem hi) id

lemma secure_of_cons (hi : v.Secure held i) (hj : v.Secure (i ::ₘ held) j) : v.Secure held j := by
  grind [Vol.Secure]

section

variable (h : Good held tree s)
include h

lemma Good.vol_eq (h' : Good held tree s') (hq : Quiet s s') : s'.vol = s.vol := by
  refine Vol.ext (fun i => by rw [hq.same.file]) fun i => ?_
  refine Core.ext (hq.same.removed i) ?_
  rw [h'.ok.refs, h.ok.refs]

lemma LookupFails.unmoved (hf : LookupFails held tree s e s') : Unmoved held tree s s' :=
  ⟨hf.good, h.vol_eq hf.good hf.quiet, hf.quiet.kept⟩

omit h in
lemma inDir_good {x : FsM α} (hroot : ∀ a, blknRoot ∈ H a) (h0 : Good held tree s)
    (hs : s1.vol.Secure held d) (hq : Quiet s s1) (hP : ∃ n, P d n)
    (hx : Sat allowed x s1 (fun a => Named P (d ::ₘ H a) tree s1) (fun _ => Unmoved (d ::ₘ held) tree s1)) :
    Sat allowed (thenRefDec d x) s1 (fun a => Named P (H a) tree s) fun _ => Unmoved held tree s := by
  rw [sat_thenRefDec]
  refine hx.mono ?_ ?_
  · intro a s2 h2
    obtain ⟨n, hn⟩ := hP
    refine (release_good h2.good (hroot a) (.inr (h2.live d n hn))).imp ?_
    grind [hq.named, h2.release]
  · intro e s2 h2
    refine (release_good h2.good h0.ok.root (h2.quiet.secure.mpr hs)).imp ?_
    rintro - s3 ⟨h3, hq3⟩
    have hq' := hq.trans (h2.quiet.trans hq3)
    exact ⟨h3, h0.vol_eq h3 hq', hq'.kept⟩

def EntryOf (v : Vol) (start : Nat) (path : List Name) (d : Nat) (n : Name) : Prop :=
  v.lookupParent start path = .ok (d, n)

omit h in
lemma entryOf_eq (h : v.lookupParent start path = .ok (d, n)) : EntryOf v start path = Vol.Only d n := by
  funext d' n'
  simp [EntryOf, h, Vol.Only, eq_comm]

omit h in
lemma atEntry_good {x : Nat → Name → FsM α} (hroot : ∀ a, blknRoot ∈ H a)
    (h : Good held tree s) (hstart : start ∈ held) (hsure : s.vol.Sure start path.dropLast)
    (hx : ∀ d name s1, Good (d ::ₘ held) tree s1 → Quiet s s1 → s1.vol.isDir d = true →
    Sat allowed (x d name) s1 (fun a => Named (Vol.Only d name) (d ::ₘ H a) tree s1)
    (fun _ => Unmoved (d ::ₘ held) tree s1)) :
    Sat allowed (vfsLookupParent start path >>= fun r => thenRefDec r.1 (x r.1 r.2)) s
    (fun a => Named (EntryOf s.vol start path) (H a) tree s) fun _ => Unmoved held tree s := by
  refine (vfsLookupParent_good h hstart hsure).bind ?_ fun e s' hE => hE.1.unmoved h
  rintro ⟨d, name⟩ s1 ⟨h1, hq1, hlookup, hs1, hdir⟩
  rw [entryOf_eq hlookup]
  exact inDir_good hroot h (hq1.secure.mpr hs1) hq1 ⟨name, rfl, rfl⟩
    (hx d name s1 h1 hq1 (by rw [hq1.same.isDir]; exact hdir))

lemma vfsMkdir_good (hroom : s.vol.Roomy) (hstart : start ∈ held) (hsure : s.vol.Sure start path.dropLast) :
    Sat allowed (vfsMkdir start path) s (fun _ => Named (EntryOf s.vol start path) held tree s)
    fun _ => Unmoved held tree s :=
  atEntry_good (x := sfsMkdir) (H := fun _ => held) (fun _ => h.ok.root) h hstart hsure fun d _ _ h1 hq1 hdir =>
    (sfsMkdir_good h1 (mem_cons_self d held) hdir).imp (fun _ _ hn => hn (hq1.roomy hroom))

lemma vfsUnlink_good (htree : tree = true ∨ allowed .hang) (hstart : start ∈ held)
    (hsure : s.vol.Sure start path.dropLast) :
    Sat allowed (vfsUnlink start path) s (fun _ => Named (EntryOf s.vol start path) held tree s)
    fun _ => Unmoved held tree s :=
  atEntry_good (x := sfsUnlink) (H := fun _ => held) (fun _ => h.ok.root) h hstart hsure fun d _ _ h1 _ hdir =>
    sfsUnlink_good h1 htree (mem_cons_self d held) hdir

lemma vfsCreate_good (hstart : start ∈ held) (hsure : s.vol.Sure start path.dropLast) :
    Sat allowed (vfsCreate start path excl) s (fun i => Named (EntryOf s.vol start path) (i ::ₘ held) tree s)
    fun _ => Unmoved held tree s := by
  refine atEntry_good (x := fun d name => sfsCreate d name excl) (H := fun i => i ::ₘ held)
    (fun _ => mem_cons_of_mem h.ok.root) h hstart hsure fun d name s1 h1 _ hdir => ?_
  refine (sfsCreate_good h1 (mem_cons_self d held) hdir).imp (fun i s' hn => ?_)
  rw [Multiset.cons_swap]
  exact hn.1

omit h in
lemma giveUp_good {Q : α → Sfs → Prop} (h0 : Good held tree s) (h : Good (i ::ₘ held) tree s1) (hq : Quiet s s1)
    (hs : s.vol.Secure held i) :
    Sat allowed (thenRefDec i (fail e) : FsM α) s1 Q fun _ => Unmoved held tree s := by
  rw [sat_thenRefDec, sat_fail]
  refine (release_good h h0.ok.root (hq.secure.mpr hs)).imp ?_
  rintro - s2 ⟨h2, hq2⟩
  exact ⟨h2, h0.vol_eq h2 (hq.trans hq2), (hq.trans hq2).kept⟩

lemma inDirs_good {x : FsM Unit} (hq : Quiet s s1) (hi : s.vol.Secure held i) (hj : s.vol.Secure (i ::ₘ held) j)
    (hx : Sat allowed x s1 (fun _ s' => Named P (j ::ₘ i ::ₘ held) tree s1 s' ∧ s'.vol.Live i ∧ s'.vol.Live j)
    (fun _ => Unmoved (j ::ₘ i ::ₘ held) tree s1)) :
    Sat allowed (thenRefDec j (thenRefDec i x)) s1 (fun _ => Named P held tree s) fun _ => Unmoved held tree s := by
  have hroot := h.ok.root
  rw [sat_thenRefDec, sat_thenRefDec]
  refine hx.mono ?_ ?_
  · rintro - s2 ⟨h2, hlive, hlive'⟩
    rw [Multiset.cons_swap] at h2
    refine (release_good h2.good (mem_cons_of_mem hroot) (.inr hlive)).imp ?_
    rintro - s3 ⟨h3, hq3⟩
    refine (release_good h3 hroot (.inr (hq3.same.live.mpr hlive'))).imp ?_
    rintro - s4 ⟨h4, hq4⟩
    exact hq.named ((h2.release h3 hq3).release h4 hq4)
  · intro e s2 h2
    have hq2 := hq.trans h2.quiet
    have hgood := h2.good
    rw [Multiset.cons_swap] at hgood
    refine (release_good hgood (mem_cons_of_mem hroot) (hq2.secure.mpr (secure_cons hi))).imp ?_
    rintro - s3 ⟨h3, hq3⟩
    have hq3 := hq2.trans hq3
    refine (release_good h3 hroot (hq3.secure.mpr (secure_of_cons hi hj))).imp ?_
    rintro - s4 ⟨h4, hq4⟩
    have hq4 := hq3.trans hq4
    exact ⟨h4, h.vol_eq h4 hq4, hq4.kept⟩

section

variable (hroom : s.vol.Roomy) (hold : oldStart ∈ held) (hnew : newStart ∈ held)
include hroom hold hnew

lemma vfsLink_good
    (hsure : s.vol.Sure oldStart oldPath) (hsure' : s.vol.Sure newStart newPath.dropLast) :
    Sat allowed (vfsLink oldStart oldPath newStart newPath) s
    (fun _ => Named (EntryOf s.vol newStart newPath) held tree s) fun _ => Unmoved held tree s := by
  rw [vfsLink]
  refine (vfsLookup_good h hold hsure).bind ?_ fun e s' hE => hE.1.unmoved h
  rintro old s1 ⟨h1, hq1, -, hs1⟩
  rw [sat_bind, sat_attempt]
  refine (vfsLookupParent_good h1 (mem_cons_of_mem hnew) (hq1.same.sure hsure')).mono ?_ ?_
  · rintro ⟨d, name⟩ s2 ⟨h2, hq2, hlookup, hs2, hdir⟩
    rw [hq1.same.lookupParent] at hlookup
    have hq := hq1.trans hq2
    have hdir2 : s2.vol.isDir d = true := by rw [hq2.same.isDir]; exact hdir
    rw [entryOf_eq hlookup]
    refine inDirs_good h hq hs1 (hq1.secure.mp hs2) ?_
    refine (sfsLink_good h2 (mem_cons_self d _) hdir2 (mem_cons_of_mem (mem_cons_self old held))).imp ?_
    rintro - s3 hn
    obtain ⟨h3, hlive⟩ := hn (hq.roomy hroom)
    exact ⟨h3, hlive, h3.live d name ⟨rfl, rfl⟩⟩
  · rintro e s2 ⟨hfails, -⟩
    exact giveUp_good h hfails.good (hq1.trans hfails.quiet) hs1

lemma vfsRename_good
    (hsure : s.vol.Sure oldStart oldPath.dropLast) (hsure' : s.vol.Sure newStart newPath.dropLast)
    (hbelow : tree = true → ∀ d n d' n', EntryOf s.vol oldStart oldPath d n → EntryOf s.vol newStart newPath d' n' →
    d ≠ d' → NotBelow s.vol d n d') :
    Sat allowed (vfsRename oldStart oldPath newStart newPath) s
    (fun _ => Named (fun d n => EntryOf s.vol oldStart oldPath d n ∨ EntryOf s.vol newStart newPath d n) held tree s)
    fun _ => Unmoved held tree s := by
  rw [vfsRename]
  refine (vfsLookupParent_good h hold hsure).bind ?_ fun e s' hE => hE.1.unmoved h
  rintro ⟨d, name⟩ s1 ⟨h1, hq1, hlookup, hs1, hdir⟩
  rw [sat_bind, sat_attempt]
  refine (vfsLookupParent_good h1 (mem_cons_of_mem hnew) (hq1.same.sure hsure')).mono ?_ ?_
  · rintro ⟨d', name'⟩ s2 ⟨h2, hq2, hlookup', hs2, hdir'⟩
    rw [hq1.same.lookupParent] at hlookup'
    have hq := hq1.trans hq2
    have hdir2 : s2.vol.isDir d = true := by rw [hq.same.isDir]; exact hdir
    have hdir2' : s2.vol.isDir d' = true := by rw [hq2.same.isDir]; exact hdir'
    rw [entryOf_eq hlookup, entryOf_eq hlookup']
    refine inDirs_good h hq hs1 (hq1.secure.mp hs2) ?_
    refine (sfsRename_good h2 (hq.roomy hroom) (mem_cons_of_mem (mem_cons_self d held)) hdir2
      (mem_cons_self d' _) hdir2' fun ht hne i hi hidir hb => ?_).imp ?_
    · refine hbelow ht d name d' name' hlookup hlookup' hne i ?_ (hq.same.isDir ▸ hidir) (hb.mono fun a b he => ?_)
      · rwa [Vol.Has, hq.same.slot] at hi
      · rwa [Vol.Edge, hq.same.slot, hq.same.isDir] at he
    · rintro - s3 h3
      exact ⟨h3, h3.live d name (.inl ⟨rfl, rfl⟩), h3.live d' name' (.inr ⟨rfl, rfl⟩)⟩
  · rintro e s2 ⟨hfails, -⟩
    exact giveUp_good h hfails.good (hq1.trans hfails.quiet) hs1

end

end

def Nothing (_ : Nat) (_ : Name) : Prop := False

lemma Quiet.nothing (h : Good held tree s') (hq : Quiet s s') : Named Nothing held tree s s' :=
  ⟨h, hq.kept, Vol.sameBut_of_slot hq.same.slot, fun _ _ h => h.elim⟩

lemma Unmoved.nothing (h : Unmoved held tree s s') : Named Nothing held tree s s' := h.quiet.nothing h.good

lemma vfsSetCurdir_good (h : Good (dir ::ₘ cwd ::ₘ held) tree s) (hroot : blknRoot ∈ held) :
    Sat allowed (vfsSetCurdir cwd dir) s (fun _ => Named Nothing (dir ::ₘ dir ::ₘ held) tree s)
    (fun _ s' => s' = s) := by
  rw [vfsSetCurdir]
  by_cases hne : cwd = dir
  · subst hne
    rw [sat_when_not (by simp)]
    exact (Quiet.refl s).nothing h
  have hd := mem_cons_self dir (cwd ::ₘ held)
  obtain ⟨f, hf⟩ := h.ok.file_of_mem hd
  rw [sat_when hne, sat_bind, sat_isDir hf (h.ok.refCount_ne_zero hd)]
  split
  · exact rfl
  rw [sat_bind]
  refine (refInc_good h hd).imp ?_
  rintro - s1 ⟨h1, hq1⟩
  rw [Multiset.cons_swap dir cwd held, Multiset.cons_swap dir cwd] at h1
  refine (refDec_good h1 (mem_cons_of_mem (mem_cons_of_mem hroot))).imp ?_
  rintro - s2 ⟨h2, hkept, hvol⟩
  exact (hq1.nothing h1).unref h2 hkept hvol

lemma vfsChdir_good (h : Good (cwd ::ₘ held) tree s) (hroot : blknRoot ∈ held) (hstart : start ∈ cwd ::ₘ held)
    (hsure : s.vol.Sure start path) :
    Sat allowed (vfsChdir cwd start path) s (fun dir => Named Nothing (dir ::ₘ held) tree s)
    fun _ => Unmoved (cwd ::ₘ held) tree s := by
  rw [vfsChdir]
  refine (vfsLookup_good h hstart hsure).bind ?_ fun e s' hE => hE.1.unmoved h
  rintro dir s1 ⟨h1, hq1, -, hs1⟩
  rw [sat_bind, sat_thenRefDec]
  refine (vfsSetCurdir_good h1 hroot).mono ?_ ?_
  · rintro - s2 h2
    refine (release_good h2.good (mem_cons_of_mem hroot) (.inl (mem_cons_self dir held))).imp ?_
    rintro - s3 ⟨h3, hq3⟩
    exact hq1.named (h2.release h3 hq3)
  · rintro e _ rfl
    refine (release_good h1 h.ok.root (hq1.secure.mpr hs1)).imp ?_
    rintro - s2 ⟨h2, hq2⟩
    exact ⟨h2, h.vol_eq h2 (hq1.trans hq2), (hq1.trans hq2).kept⟩

lemma findinoLoop_ok (h : s.Inv busy) (hf : s.vol.file d = some f) (href : (s.vol.core d).refCount ≠ 0)
    (hdir : f.type = .dir) (hn : slot + n = f.blocks) :
    Sat allowed (findinoLoop d ino n slot) s (fun _ s' => s' = s) (fun _ s' => s' = s) := by
  induction n generalizing slot with
  | zero => exact rfl
  | succ n ih =>
    cases hc : f.leaf slot with
    | none => exact absurd hc ((h.dense hf slot).mpr (by omega))
    | some c =>
      rw [findinoLoop, sat_bind, sat_direntRead h hf href hdir hc]
      dsimp only
      split
      · exact rfl
      · exact ih (by omega)

lemma findino_good (h : Good held tree s) (hd : d ∈ held) (hdir : s.vol.isDir d = true) :
    Sat allowed (do trylock d; direntFindino d ino) s (fun _ s' => s' = s) (fun _ s' => s' = s) := by
  obtain ⟨f, hf, htype⟩ := Vol.isDir_iff.mp hdir
  have href := h.ok.refCount_ne_zero hd
  obtain ⟨x, hx, hfx, -⟩ := node_of_ref hf href
  have hblocks : x.din.blocks = f.blocks := (congrArg File.blocks hfx).symm
  rw [sat_bind, sat_trylock href]
  split
  · exact rfl
  · rw [direntFindino, sat_bind, sat_sin hx, hblocks]
    exact findinoLoop_ok h.inv hf href htype (by omega)

/-- The buffer gets smaller in every round, so that the fuel is never used up. -/
lemma namefileLoop_good (hallowed : tree = true ∧ s.vol.ParentDir i ∨ allowed .assertion)
    (h : Good (i ::ₘ held) tree s) (hroot : blknRoot ∈ held)
    (hs : s.vol.Secure held i) (hdir : s.vol.isDir i = true) (hup : s.vol.ParentLive i) (hfuel : resid < fuel) :
    Sat allowed (namefileLoop fuel i resid names) s (fun _ s' => Good held tree s' ∧ Quiet s s')
      (fun _ s' => Good held tree s' ∧ Quiet s s') := by
  induction fuel generalizing i resid names s with
  | zero => omega
  | succ fuel ih =>
    rw [namefileLoop]
    split
    · rw [sat_bind]
      refine (release_good h hroot hs).imp ?_
      rintro - s' hgood
      exact hgood
    rename_i hi
    have hstep : lookupStep i dotdot = loadParent i := by rw [lookupStep, if_pos rfl]
    rw [sat_bind, ← hstep]
    refine (lookupMove_good h hroot hs hdir fun _ => hup).mono ?_ fun _ _ hE => ⟨hE.1.good, hE.1.quiet⟩
    rintro j s1 ⟨h1, hq1, hparent, hlive⟩
    have hlive1 : s1.vol.Live j := hq1.same.live.mpr hlive
    have hj := mem_cons_self j held
    obtain ⟨g, hg⟩ := h1.ok.file_of_mem hj
    obtain ⟨x, hx, hgx, -⟩ := node_of_ref hg (h1.ok.refCount_ne_zero hj)
    -- the loop may fail with the reference to `j`
    have hfail : ∀ e, Sat allowed (thenRefDec j (fail e) : FsM (List Name)) s1
        (fun _ s' => Good held tree s' ∧ Quiet s s') (fun _ s' => Good held tree s' ∧ Quiet s s') := by
      intro e
      rw [sat_thenRefDec, sat_fail]
      refine (release_good h1 hroot (.inr hlive1)).imp ?_
      rintro - s2 ⟨h2, hq2⟩
      exact ⟨h2, hq1.trans hq2⟩
    rw [sat_bind, sat_sin hx, sat_bind]
    by_cases hc : i ≠ j ∧ x.din.type = .dir
    · have hdir1 : s1.vol.isDir j = true := Vol.isDir_iff.mpr ⟨g, hg, by rw [hgx]; exact hc.2⟩
      rw [sat_check hc, sat_bind, sat_attempt]
      refine (findino_good h1 hj hdir1).mono ?_ ?_
      · rintro name _ rfl
        dsimp only
        split
        · exact hfail _
        have hallowed1 := hallowed.imp (And.imp_right fun _ => h1.ok.parentDir_of_live hlive1) id
        refine (ih hallowed1 h1 (.inr hlive1) hdir1 (h1.ok.parentLive_of_live hlive1) (by omega)).mono ?_ ?_
        · exact fun _ s' hgood => ⟨hgood.1, hq1.trans hgood.2⟩
        · exact fun _ s' hgood => ⟨hgood.1, hq1.trans hgood.2⟩
      · rintro e _ rfl
        exact hfail e
    · rcases hallowed with ⟨rfl, hup'⟩ | hallowed
      · obtain ⟨f, hf, htype⟩ := Vol.isDir_iff.mp hdir
        obtain rfl : f.parent = j := by simpa [Vol.step, hf] using hparent
        have hdir1 : s1.vol.isDir f.parent = true := by
          rw [hq1.same.isDir]
          exact hup' f hf htype
        rw [Vol.isDir_of_file hg, hgx] at hdir1
        refine absurd ⟨fun heq => ?_, of_decide_eq_true hdir1⟩ hc
        obtain ⟨f', hf', hl⟩ := hlive
        rw [← heq] at hf'
        exact h.ok.parent_ne hf htype (h.ok.not_removed_of_links hf' hl) hi heq.symm
      · rw [check, if_neg hc]
        exact hallowed

lemma vfsGetcwd_good (hallowed : tree = true ∧ s.vol.ParentDir cwd ∨ allowed .assertion)
    (h : Good held tree s) (hcwd : cwd ∈ held)
    (hdir : s.vol.isDir cwd = true) (hup : s.vol.ParentLive cwd) :
    Sat allowed (vfsGetcwd cwd resid) s (fun _ => Unmoved held tree s) fun _ => Unmoved held tree s := by
  have hunmoved : ∀ {s'}, Good held tree s' → Quiet s s' → Unmoved held tree s s' :=
    fun hg hq => ⟨hg, h.vol_eq hg hq, hq.kept⟩
  rw [vfsGetcwd]
  refine borrow_good (H := fun _ => held) h hcwd fun s1 h1 hq1 => ?_
  rw [sfsNamefile]
  split
  · exact ⟨h1, fun s2 h2 hq2 => hunmoved h2 (hq1.trans hq2)⟩
  have hi := mem_cons_self cwd held
  rw [sat_bind]
  refine (refInc_good h1 hi).imp ?_
  rintro - s2 ⟨h2, hq2⟩
  have hq := hq1.trans hq2
  have hup2 : s2.vol.ParentLive cwd := by
    intro f hf htype
    rw [hq.same.live]
    exact hup f (by rwa [hq.same.file] at hf) htype
  have hallowed2 := hallowed.imp (And.imp_right hq.same.parentDir) id
  refine (namefileLoop_good hallowed2 h2 h1.ok.root (.inl hi)
    (by rw [hq.same.isDir]; exact hdir) hup2 (by omega)).mono ?_ ?_
  · rintro names s3 ⟨h3, hq3⟩
    exact ⟨h3, hcwd, h.ok.root, fun s4 h4 hq4 => hunmoved h4 (hq.trans (hq3.trans hq4))⟩
  · rintro e s3 ⟨h3, hq3⟩
    exact ⟨h3, fun s4 h4 hq4 => hunmoved h4 (hq.trans (hq3.trans hq4))⟩

end Sfs

end Ucore.Fs
