import Ucore.Fs.Sfs.NameVol
import Ucore.Fs.Vfs

/-!
# Lookups

A path is resolved without a change of the volume. `walk` says what it leads
to. The only step that is not safe by itself is `..` from a directory that has
been removed, whose parent may be gone.
-/

namespace Ucore.Fs

open Lib.Cmd
open Multiset (mem_cons_self mem_cons_of_mem)

namespace Vol

variable {v w : Vol} {held : Multiset Nat} {pinned tree : Bool} {Q : α → Sfs → Prop}

def step (v : Vol) (d : Nat) (name : Name) : Except Errno Nat :=
  match v.file d with
  | none => .error .noent
  | some f =>
    if name = dotdot then .ok f.parent
    else if maxFnameLen < name.length then .error .tooBig
    else if (v.core d).removed then .error .noent
    else
      match f.search name with
      | .missing _ => .error .noent
      | .found i _ => .ok i

/-- The loop of `sfs_lookup`. -/
def walk (v : Vol) : Nat → List Name → Except Errno Nat
  | i, [] => .ok i
  | i, name :: rest =>
    if v.isDir i = false then .error .notdir
    else if name = dot then v.walk i rest
    else
      match v.step i name with
      | .ok j => v.walk j rest
      | .error e => .error e

/-- The loop of `sfs_lookup_parent`. -/
def walkParent (v : Vol) : Nat → Name → List Name → Except Errno (Nat × Name)
  | i, last, [] => if v.isDir i = false then .error .notdir else .ok (i, last)
  | i, name, next :: rest =>
    if v.isDir i = false then .error .notdir
    else if name = dot then v.walkParent i next rest
    else
      match v.step i name with
      | .ok j => v.walkParent j next rest
      | .error e => .error e

def lookupParent (v : Vol) (start : Nat) : List Name → Except Errno (Nat × Name)
  | [] => .error .inval
  | name :: rest => v.walkParent start name rest

def ParentLive (v : Vol) (i : Nat) : Prop := ∀ f, v.file i = some f → f.type = .dir → v.Live f.parent

def ParentDir (v : Vol) (i : Nat) : Prop :=
  ∀ f, v.file i = some f → f.type = .dir → v.isDir f.parent = true

def Sure (v : Vol) (i : Nat) : List Name → Prop
  | [] => True
  | name :: rest => if name = dot then v.Sure i rest else name = dotdot → v.ParentLive i

section

variable (h : Same v w)
include h

lemma Same.step : w.step i name = v.step i name := by
  simp only [Vol.step, h.file, h.removed]

lemma Same.walk (i : Nat) (path : List Name) : w.walk i path = v.walk i path := by
  induction path generalizing i with
  | nil => rfl
  | cons name rest ih => simp only [Vol.walk, h.isDir, h.step, ih]

lemma Same.walkParent (i : Nat) (name : Name) (path : List Name) :
    w.walkParent i name path = v.walkParent i name path := by
  induction path generalizing i name with
  | nil => simp only [Vol.walkParent, h.isDir]
  | cons next rest ih => simp only [Vol.walkParent, h.isDir, h.step, ih]

lemma Same.lookupParent (start : Nat) (path : List Name) : w.lookupParent start path = v.lookupParent start path := by
  cases path with
  | nil => rfl
  | cons name rest => exact h.walkParent start name rest

lemma Same.live : w.Live i ↔ v.Live i := by simp only [Live, h.file]

lemma Same.parentDir (hs : v.ParentDir i) : w.ParentDir i := by
  intro f hf htype
  rw [h.isDir]
  exact hs f (by rwa [h.file] at hf) htype

lemma Same.sure (hs : v.Sure i path) : w.Sure i path := by
  induction path with
  | nil => trivial
  | cons name rest ih => grind [ParentLive, Live, Sure, h.file]

end

section

variable (h : v.Ok held pinned tree)
include h

section

variable (hf : v.file i = some f) (hdir : f.type = .dir) (hr : (v.core i).removed = false)
include hf hdir hr

lemma Ok.entry
    (hroot : i ≠ blknRoot) : ∃ k n, v.slot (f.parent, k) = some (i, n) := by
  have hrefs := h.wf.dirRefs i f hf hdir hr hroot
  obtain ⟨⟨d, k⟩, ⟨j, n⟩, hs, hj⟩ := Lib.Count.exists_of_pos hrefs (by simp [own])
  obtain rfl : j = i := by simpa using hj
  exact ⟨k, n, by rwa [h.wf.parent d k j n f hs hf hdir]⟩

lemma Ok.parent_live : v.Live f.parent := by
  by_cases hroot : i = blknRoot
  · subst hroot
    obtain ⟨g, hg, -, hparent, -⟩ := h.wf.root
    cases hf.symm.trans hg
    obtain ⟨m, -, hl⟩ := h.wf.dirLinks _ f hf hdir hr
    exact ⟨f, hparent ▸ hf, by omega⟩
  obtain ⟨k, n, hs⟩ := h.entry hf hdir hr hroot
  obtain ⟨g, hg, hgdir⟩ := isDir_iff.mp (isDir_of_slot hs)
  obtain ⟨m, -, hl⟩ := h.wf.dirLinks _ g hg hgdir (h.wf.not_removed_of_slot hs)
  exact ⟨g, hg, by omega⟩

end

lemma Ok.parentLive_of_live (hl : v.Live i) : v.ParentLive i := by
  obtain ⟨f, hf, hlinks⟩ := hl
  intro f' hf' hdir
  cases hf.symm.trans hf'
  exact h.parent_live hf hdir (h.not_removed_of_links hf hlinks)

lemma Ok.parentDir_of_live (hl : v.Live i) : v.ParentDir i := by
  obtain ⟨f, hf, hlinks⟩ := hl
  intro f' hf' hdir
  cases hf.symm.trans hf'
  by_cases hroot : i = blknRoot
  · obtain ⟨g, hg, htype, hparent, -⟩ := h.wf.root
    subst hroot
    cases hf.symm.trans hg
    rw [hparent]
    exact isDir_iff.mpr ⟨f, hf, htype⟩
  · obtain ⟨k, n, hs⟩ := h.entry hf hdir (h.not_removed_of_links hf hlinks) hroot
    exact isDir_of_slot hs

omit h in
lemma Ok.parent_ne (h : v.Ok held pinned true) (hf : v.file i = some f) (hdir : f.type = .dir)
    (hr : (v.core i).removed = false) (hroot : i ≠ blknRoot) : f.parent ≠ i := by
  intro heq
  obtain ⟨k, n, hs⟩ := h.entry hf hdir hr hroot
  rw [heq] at hs
  -- the one entry for `i` would be in `i`, so that no path from the root leads there
  have hself : ∀ d, v.Edge d i → d = i := by
    rintro d ⟨-, k', n', hs'⟩
    have hrefs := h.wf.dirRefs i f hf hdir hr hroot
    cases hrefs.unique hs' (by simp) hs (by simp)
    rfl
  have hne : ∀ j, v.Below blknRoot j → j ≠ i := by
    intro j hj
    induction hj with
    | self => exact hroot.symm
    | step _ he ih =>
      rintro rfl
      exact ih (hself _ he)
  exact hne i (h.rooted rfl i (isDir_iff.mpr ⟨f, hf, hdir⟩) hr) rfl

lemma Ok.sure_of_live (hl : v.Live i) : v.Sure i path := by
  induction path with
  | nil => trivial
  | cons name rest ih => grind [Sure, h.parentLive_of_live]

end

end Vol

namespace Sfs

variable {s s' s'' : Sfs} {held : Multiset Nat} {tree : Bool} {allowed : Panic → Prop}

lemma Good.targets (h : Good held tree s) (hf : s.vol.file d = some f) : s.Targets f := fun k i name hk =>
  h.ok.target (p := (d, k)) (n := name) (by rw [Vol.slot_of_file hf, hk])

lemma lookupStep_good (h : Good held tree s) (hd : d ∈ held) (hdir : s.vol.isDir d = true)
    (hup : name = dotdot → s.vol.ParentLive d) :
    Sat allowed (lookupStep d name) s
      (fun j s' => Good (j ::ₘ held) tree s' ∧ Quiet s s' ∧ s.vol.step d name = .ok j ∧ s.vol.Live j)
      (fun e s' => Good held tree s' ∧ Quiet s s' ∧ s.vol.step d name = .error e ∧ e ≠ .noMem) := by
  obtain ⟨f, hf⟩ := h.ok.file_of_mem hd
  have href := h.ok.refCount_ne_zero hd
  have hfdir : f.type = .dir := of_decide_eq_true (Vol.isDir_of_file hf ▸ hdir)
  have hstep : s.vol.step d name = if name = dotdot then .ok f.parent
    else if maxFnameLen < name.length then .error .tooBig
    else if (s.vol.core d).removed then .error .noent
    else match f.search name with
      | .missing _ => .error .noent
      | .found i _ => .ok i := by simp only [Vol.step, hf]
  rw [lookupStep, hstep]
  split
  · rename_i hname
    obtain ⟨x, hx, hfx, -⟩ := node_of_ref hf href
    have hparent : x.din.parent = f.parent := (congrArg File.parent hfx).symm
    obtain ⟨g, hg, hl⟩ := hup hname f hf hfdir
    rw [loadParent, sat_bind, sat_sin hx, sat_bind, hparent]
    refine (loadInode_good h hg hl).imp ?_
    rintro - s' ⟨hgood, hq⟩
    exact ⟨hgood, hq, rfl, g, hg, hl⟩
  split
  · exact ⟨h, .refl s, rfl, by simp⟩
  rename_i hlen
  rw [sat_bind, sat_trylock href]
  split
  · exact ⟨h, .refl s, rfl, by simp⟩
  rw [sat_bind, sat_direntSearch h.inv hf href hfdir (by omega)]
  cases hsearch : f.search name with
  | missing k => exact ⟨h, .refl s, rfl, by simp⟩
  | found i k =>
    obtain ⟨-, hlive⟩ := File.search_found hsearch
    obtain ⟨g, hg, hl, -⟩ := h.targets hf k i name hlive
    dsimp only
    rw [sat_bind]
    refine (loadInode_good h hg hl).imp ?_
    rintro - s' ⟨hgood, hq⟩
    exact ⟨hgood, hq, rfl, g, hg, hl⟩

lemma Quiet.secure (hq : Quiet s s') : s'.vol.Secure held i ↔ s.vol.Secure held i := by
  rw [Vol.Secure, Vol.Secure, hq.same.file]

structure LookupFails (held : Multiset Nat) (tree : Bool) (s : Sfs) (e : Errno) (s' : Sfs) : Prop where
  good : Good held tree s'
  quiet : Quiet s s'
  code : e ≠ .noMem

lemma LookupFails.after (h : LookupFails held tree s' e s'') (hq : Quiet s s') : LookupFails held tree s e s'' :=
  ⟨h.good, hq.trans h.quiet, h.code⟩

section

variable (h : Good (i ::ₘ held) tree s)
include h

section

variable (hroot : blknRoot ∈ held)
include hroot

section

variable (hs : s.vol.Secure held i)
include hs

lemma directory_good {x : FsM α} (hx : s.vol.isDir i = true → Sat allowed x s Q E)
    (hE : ∀ s', s.vol.isDir i = false → LookupFails held tree s .notdir s' → E .notdir s') :
    Sat allowed (isDir i >>= fun dir => if dir = false then thenRefDec i (fail .notdir) else x) s Q E := by
  have hi := mem_cons_self i held
  obtain ⟨f, hf⟩ := h.ok.file_of_mem hi
  rw [sat_bind, sat_isDir hf (h.ok.refCount_ne_zero hi), ← Vol.isDir_of_file hf]
  cases hdir : s.vol.isDir i with
  | false =>
    rw [if_pos rfl, sat_thenRefDec, sat_fail]
    refine (release_good h hroot hs).imp ?_
    rintro - s' ⟨hgood, hq⟩
    exact hE s' hdir ⟨hgood, hq, by simp⟩
  | true => exact hx hdir

lemma lookupMove_good (hdir : s.vol.isDir i = true) (hup : name = dotdot → s.vol.ParentLive i) :
    Sat allowed (thenRefDec i (lookupStep i name)) s
    (fun j s' => Good (j ::ₘ held) tree s' ∧ Quiet s s' ∧ s.vol.step i name = .ok j ∧ s.vol.Live j)
    (fun e s' => LookupFails held tree s e s' ∧ s.vol.step i name = .error e) := by
  rw [sat_thenRefDec]
  refine (lookupStep_good h (mem_cons_self i held) hdir hup).mono ?_ ?_
  · rintro j s1 ⟨h1, hq1, hstep, hlive⟩
    rw [Multiset.cons_swap] at h1
    have hs1 : s1.vol.Secure (j ::ₘ held) i := (hq1.secure.mpr hs).imp mem_cons_of_mem id
    refine (release_good h1 (mem_cons_of_mem hroot) hs1).imp ?_
    grind [hq1.trans]
  · rintro e s1 ⟨h1, hq1, hstep, hcode⟩
    refine (release_good h1 hroot (hq1.secure.mpr hs)).imp ?_
    rintro - s2 ⟨h2, hq2⟩
    exact ⟨⟨h2, hq1.trans hq2, hcode⟩, hstep⟩

lemma lookupLoop_good (hsure : s.vol.Sure i path) : Sat allowed (lookupLoop i path) s
    (fun j s' => Good (j ::ₘ held) tree s' ∧ Quiet s s' ∧ s.vol.walk i path = .ok j ∧ s.vol.Secure held j)
    (fun e s' => LookupFails held tree s e s' ∧ s.vol.walk i path = .error e) := by
  induction path generalizing i s with
  | nil => exact ⟨h, .refl s, rfl, hs⟩
  | cons name rest ih =>
    rw [lookupLoop, Vol.walk]
    refine directory_good h hroot hs (fun hdir => ?_) fun s' hdir hfails => ⟨hfails, by simp [hdir]⟩
    simp only [hdir, Bool.true_eq_false, if_false]
    rw [Vol.Sure] at hsure
    split at hsure
    · rename_i hname
      simp only [if_pos hname]
      exact ih h hs hsure
    rename_i hname
    simp only [if_neg hname]
    refine (lookupMove_good h hroot hs hdir hsure).bind ?_ ?_
    · rintro j s1 ⟨h1, hq1, hstep, hlive⟩
      simp only [hstep]
      have hlive1 : s1.vol.Live j := hq1.same.live.mpr hlive
      refine (ih h1 (.inr hlive1) (h1.ok.sure_of_live hlive1)).mono ?_ ?_
      · grind [hq1.trans, hq1.same.walk, hq1.secure.mp]
      · grind [LookupFails.after, hq1.same.walk]
    · grind

lemma lookupParentLoop_good (hsure : s.vol.Sure i ((name :: path).dropLast)) :
    Sat allowed (lookupParentLoop i name path) s
      (fun r s' => Good (r.1 ::ₘ held) tree s' ∧ Quiet s s' ∧ s.vol.walkParent i name path = .ok r ∧
        s.vol.Secure held r.1 ∧ s.vol.isDir r.1 = true)
      (fun e s' => LookupFails held tree s e s' ∧ s.vol.walkParent i name path = .error e) := by
  induction path generalizing i s name with
  | nil =>
    rw [lookupParentLoop, Vol.walkParent]
    refine directory_good h hroot hs (fun hdir => ?_) fun s' hdir hfails => ⟨hfails, by simp [hdir]⟩
    exact ⟨h, .refl s, by simp [hdir], hs, hdir⟩
  | cons next rest ih =>
    rw [lookupParentLoop, Vol.walkParent]
    refine directory_good h hroot hs (fun hdir => ?_) fun s' hdir hfails => ⟨hfails, by simp [hdir]⟩
    simp only [hdir, Bool.true_eq_false, if_false]
    rw [List.dropLast_cons_cons, Vol.Sure] at hsure
    split at hsure
    · rename_i hname
      simp only [if_pos hname]
      exact ih h hs hsure
    rename_i hname
    simp only [if_neg hname]
    refine (lookupMove_good h hroot hs hdir hsure).bind ?_ ?_
    · rintro j s1 ⟨h1, hq1, hstep, hlive⟩
      simp only [hstep]
      have hlive1 : s1.vol.Live j := hq1.same.live.mpr hlive
      refine (ih h1 (.inr hlive1) (h1.ok.sure_of_live hlive1)).mono ?_ ?_
      · rintro r s2 ⟨h2, hq2, hwalk, hs2, hd2⟩
        exact ⟨h2, hq1.trans hq2, hq1.same.walkParent j next rest ▸ hwalk, hq1.secure.mp hs2, hq1.same.isDir ▸ hd2⟩
      · grind [LookupFails.after, hq1.same.walkParent]
    · grind

end

end

end

lemma secure_of_borrowed (hi : i ∈ held) (h : s.vol.Secure (i ::ₘ held) j) : s.vol.Secure held j := by
  refine h.imp (fun hj => ?_) id
  grind

section

variable (h : Good held tree s)
include h

lemma borrow_good {x : FsM α} {E : Errno → Sfs → Prop} {H : α → Multiset Nat} (hi : i ∈ held)
    (hx : ∀ s1, Good (i ::ₘ held) tree s1 → Quiet s s1 → Sat allowed x s1
    (fun a s' => Good (i ::ₘ H a) tree s' ∧ i ∈ H a ∧ blknRoot ∈ H a ∧ ∀ s'', Good (H a) tree s'' →
    Quiet s' s'' → Q a s'')
    (fun e s' => Good (i ::ₘ held) tree s' ∧ ∀ s'', Good held tree s'' → Quiet s' s'' → E e s'')) :
    Sat allowed (do refInc i; thenRefDec i x) s Q E := by
  rw [sat_bind]
  refine (refInc_good h hi).imp ?_
  rintro - s1 ⟨h1, hq1⟩
  rw [sat_thenRefDec]
  refine (hx s1 h1 hq1).mono ?_ ?_
  · rintro a s2 ⟨h2, hmem, hroot, hQ⟩
    refine (release_good h2 hroot (.inl hmem)).imp ?_
    grind
  · rintro e s2 ⟨h2, hE⟩
    refine (release_good h2 h.ok.root (.inl hi)).imp ?_
    grind

lemma sfsLookup_good (hi : i ∈ held) (hsure : s.vol.Sure i path) : Sat allowed (sfsLookup i path) s
    (fun j s' => Good (j ::ₘ held) tree s' ∧ Quiet s s' ∧ s.vol.walk i path = .ok j ∧ s.vol.Secure held j)
    (fun e s' => LookupFails held tree s e s' ∧ s.vol.walk i path = .error e) := by
  rw [sfsLookup, sat_bind]
  refine (refInc_good h hi).imp ?_
  rintro - s1 ⟨h1, hq1⟩
  refine (lookupLoop_good h1 h.ok.root (.inl hi) (hq1.same.sure hsure)).mono ?_ ?_
  · grind [hq1.trans, hq1.same.walk, hq1.secure.mp]
  · grind [LookupFails.after, hq1.same.walk]

lemma sfsLookupParent_good (hi : i ∈ held) (hsure : s.vol.Sure i ((name :: path).dropLast)) :
    Sat allowed (sfsLookupParent i name path) s
    (fun r s' => Good (r.1 ::ₘ held) tree s' ∧ Quiet s s' ∧ s.vol.walkParent i name path = .ok r ∧
    s.vol.Secure held r.1 ∧ s.vol.isDir r.1 = true)
    (fun e s' => LookupFails held tree s e s' ∧ s.vol.walkParent i name path = .error e) := by
  rw [sfsLookupParent, sat_bind]
  refine (refInc_good h hi).imp ?_
  rintro - s1 ⟨h1, hq1⟩
  refine (lookupParentLoop_good h1 h.ok.root (.inl hi) (hq1.same.sure hsure)).mono ?_ ?_
  · rintro r s2 ⟨h2, hq2, hwalk, hs2, hd2⟩
    exact ⟨h2, hq1.trans hq2, hq1.same.walkParent i name path ▸ hwalk, hq1.secure.mp hs2, hq1.same.isDir ▸ hd2⟩
  · grind [LookupFails.after, hq1.same.walkParent]

lemma vfsLookup_good (hi : start ∈ held) (hsure : s.vol.Sure start path) : Sat allowed (vfsLookup start path) s
    (fun j s' => Good (j ::ₘ held) tree s' ∧ Quiet s s' ∧ s.vol.walk start path = .ok j ∧ s.vol.Secure held j)
    (fun e s' => LookupFails held tree s e s' ∧ s.vol.walk start path = .error e) := by
  cases path with
  | nil =>
    rw [vfsLookup, sat_bind]
    refine (refInc_good h hi).imp ?_
    rintro - s1 ⟨h1, hq1⟩
    exact ⟨h1, hq1, rfl, .inl hi⟩
  | cons name rest =>
    rw [vfsLookup]
    refine borrow_good (H := fun j => j ::ₘ held) h hi fun s1 h1 hq1 => ?_
    refine (sfsLookup_good h1 (mem_cons_self start held) (hq1.same.sure hsure)).mono ?_ ?_
    · rintro j s2 ⟨h2, hq2, hwalk, hs2⟩
      grind [Multiset.cons_swap, secure_of_borrowed, h.ok.root, hq1.trans, hq2.trans, hq1.same.walk, hq1.secure.mp]
    · rintro e s2 ⟨hfails, hwalk⟩
      exact ⟨hfails.good, fun s3 h3 hq3 =>
        ⟨⟨h3, hq1.trans (hfails.quiet.trans hq3), hfails.code⟩, hq1.same.walk start _ ▸ hwalk⟩⟩

lemma vfsLookupParent_good (hi : start ∈ held) (hsure : s.vol.Sure start path.dropLast) :
    Sat allowed (vfsLookupParent start path) s
      (fun r s' => Good (r.1 ::ₘ held) tree s' ∧ Quiet s s' ∧ s.vol.lookupParent start path = .ok r ∧
        s.vol.Secure held r.1 ∧ s.vol.isDir r.1 = true)
      (fun e s' => LookupFails held tree s e s' ∧ s.vol.lookupParent start path = .error e) := by
  cases path with
  | nil =>
    rw [vfsLookupParent]
    refine borrow_good (H := fun r => r.1 ::ₘ held) h hi fun s1 h1 hq1 => ?_
    rw [sat_fail]
    exact ⟨h1, fun s2 h2 hq2 => ⟨⟨h2, hq1.trans hq2, by simp⟩, rfl⟩⟩
  | cons name rest =>
    rw [vfsLookupParent]
    refine borrow_good (H := fun r => r.1 ::ₘ held) h hi fun s1 h1 hq1 => ?_
    refine (sfsLookupParent_good h1 (mem_cons_self start held) (hq1.same.sure hsure)).mono ?_ ?_
    · rintro r s2 ⟨h2, hq2, hwalk, hs2, hd2⟩
      rw [Multiset.cons_swap] at h2
      exact ⟨h2, mem_cons_of_mem hi, mem_cons_of_mem h.ok.root, fun s3 h3 hq3 =>
        ⟨h3, hq1.trans (hq2.trans hq3), (hq1.same.walkParent start name rest).symm.trans hwalk,
          secure_of_borrowed hi (hq1.secure.mp hs2), hq1.same.isDir ▸ hd2⟩⟩
    · rintro e s2 ⟨hfails, hwalk⟩
      exact ⟨hfails.good, fun s3 h3 hq3 =>
        ⟨⟨h3, hq1.trans (hfails.quiet.trans hq3), hfails.code⟩, (hq1.same.walkParent start name rest).symm.trans hwalk⟩⟩

end

end Sfs

end Ucore.Fs
