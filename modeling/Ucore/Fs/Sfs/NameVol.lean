import Ucore.Fs.Sfs.Held

/-!
# Names in a volume

What `create`, `mkdir`, `link`, `rename` and `unlink` do to a volume that is well
formed: it stays well formed, and all entries but the named ones stay.
-/

namespace Ucore.Fs

open Function
open File (new live_new live)

namespace Vol

variable {v w u : Vol} {held : Multiset Nat} {pinned tree : Bool} {afloat : Option Nat} {P : Nat → Name → Prop}

def Has (v : Vol) (d : Nat) (n : Name) (i : Nat) : Prop := ∃ k, v.slot (d, k) = some (i, n)

def SameBut (P : Nat → Name → Prop) (v w : Vol) : Prop := ∀ d n, ¬ P d n → ∀ i, w.Has d n i ↔ v.Has d n i

lemma sameBut_of_slot (h : w.slot = v.slot) : SameBut P v w := fun d n _ i => by rw [Has, Has, h]

lemma SameBut.trans (h : SameBut P v w) (h' : SameBut P w u) : SameBut P v u :=
  fun d n hP i => (h' d n hP i).trans (h d n hP i)

lemma sameBut_update (h : w.slot = update v.slot (d, k) e) (hold : ∀ i n, v.slot (d, k) = some (i, n) → P d n)
    (hnew : ∀ i n, e = some (i, n) → P d n) : SameBut P v w := by
  intro d' n hP i
  have hiff : ∀ k', w.slot (d', k') = some (i, n) ↔ v.slot (d', k') = some (i, n) := by
    intro k'
    by_cases hp : (d', k') = (d, k)
    · cases hp
      rw [h, update_self]
      exact ⟨fun he => absurd (hnew i n he) hP, fun hs => absurd (hold i n hs) hP⟩
    · rw [h, update_of_ne hp]
  exact exists_congr hiff

def Roomy (v : Vol) : Prop := ∀ i f, v.file i = some f → f.nlinks < 65535

def Live (v : Vol) (i : Nat) : Prop := ∃ f, v.file i = some f ∧ f.nlinks ≠ 0

lemma Live.unref (h : v.Live d) : (v.unref i).Live d := by
  obtain ⟨f, hf, hl⟩ := h
  refine ⟨f, ?_, hl⟩
  rw [Vol.unref]
  split
  · rename_i hc
    have hdi : d ≠ i := by
      rintro rfl
      simp [hf, hl] at hc
    exact (setFile_file_ne _ hdi).trans hf
  · exact hf

lemma Wf.unref_slot (h : v.Wf afloat) : (v.unref i).slot = v.slot := by
  rw [Vol.unref]
  split
  · rename_i hc
    obtain ⟨-, hc⟩ := hc
    obtain ⟨f, hf, hl⟩ := Option.map_eq_some_iff.mp hc
    obtain ⟨-, hnone, -⟩ := h.slot_of_unlinked hf hl
    funext p
    obtain ⟨j, k⟩ := p
    by_cases hj : j = i
    · subst hj
      rw [hnone k]
      simp [slot]
    · simp [slot, setFile_file_ne _ hj]
  · rfl

lemma Sized.attach (h : v.Sized pinned) (hd : v.isDir d = true) : (v.attach d k i n).Sized pinned := by
  intro j f' hf' hdir'
  obtain ⟨f, hf, rfl⟩ := attach_back hf'
  have hdir : f.type ≠ .dir := hdir'
  have hjd : j ≠ d := by
    rintro rfl
    simp [isDir_of_file hf, hdir] at hd
  simpa [attachFile, hjd, Ne.symm hjd] using h j f hf hdir

lemma Sized.detach (h : v.Sized pinned) (hd : v.isDir d = true) : (v.detach d k i).Sized pinned := by
  intro j f' hf' hdir'
  obtain ⟨f, hf, rfl⟩ := detach_back hf'
  have hdir : f.type ≠ .dir := hdir'
  have hjd : j ≠ d := by
    rintro rfl
    simp [isDir_of_file hf, hdir] at hd
  simpa [detachFile, hjd, Ne.symm hjd] using h j f hf hdir

lemma Bounded.detach (h : v.Bounded) : (v.detach d k i).Bounded := by
  intro j f' hf'
  obtain ⟨f, hf, rfl⟩ := detach_back hf'
  have := h j f hf
  dsimp only [detachFile]
  omega

lemma Bounded.attach_file (h : v.Bounded) (hi : v.file i = some f) (hlt : f.nlinks < 65535)
    (hidir : v.isDir i = false) : (v.attach d k i n).Bounded := by
  intro j f' hf'
  obtain ⟨g, hg, rfl⟩ := attach_back hf'
  have := h j g hg
  grind [attachFile]

lemma create_forall {R : File → Prop} (h : ∀ j g, v.file j = some g → R g) (hf : R f) :
    ∀ j g, (v.create i f).file j = some g → R g := by
  grind [create_file_self, create_file_ne]

lemma detach_sameBut (hs : v.slot (d, k) = some (i, n)) (hP : P d n) : SameBut P v (v.detach d k i) := by
  refine sameBut_update (detach_slot (isDir_of_slot hs)) ?_ (by simp)
  rw [hs]
  rintro j m ⟨⟩
  exact hP

lemma retire_slot (hf : v.file i = some f) : (v.retire i).slot = v.slot := by
  funext p
  obtain ⟨j, k⟩ := p
  by_cases hj : j = i
  · subst hj
    rw [slot_of_file hf, slot_of_file (f := f.decLinks) (by simp [retire, hf])]
    exact congrFun (File.live_congr rfl rfl) k
  · simp [slot, retire, modFile_file_ne _ hj]

lemma retire_isDir_ne (h : d ≠ i) : (v.retire i).isDir d = v.isDir d := by
  simp [isDir, retire, modFile_file_ne _ h]

lemma retire_core_ne (h : d ≠ i) : (v.retire i).core d = v.core d := setCore_core_ne _ h

lemma slot_ne_zero (hs : v.slot p = some (i, n)) : i ≠ 0 := by
  obtain ⟨f, -, hlive⟩ := Option.bind_eq_some_iff.mp hs
  grind [live, Content.live, Option.bind_eq_some_iff]

section

variable (h : v.Ok held pinned tree)
include h

lemma Ok.live_of_dir (hd : v.isDir d = true) (hr : (v.core d).removed = false) :
    v.Live d := by
  obtain ⟨f, hf, hdir⟩ := isDir_iff.mp hd
  obtain ⟨m, -, hl⟩ := h.wf.dirLinks d f hf hdir hr
  exact ⟨f, hf, by omega⟩

lemma Ok.not_removed_of_file (hi : v.isDir i = false) : (v.core i).removed = false := by
  by_contra hr
  obtain ⟨f, hf, hdir, -⟩ := h.wf.removed i (by simpa using hr)
  simp [isDir_of_file hf, hdir] at hi

lemma Ok.root_isDir : v.isDir blknRoot = true := by
  grind [isDir_iff, h.wf.root]

structure Vacant (v : Vol) (d k : Nat) (n : Name) : Prop where
  dir : v.isDir d = true
  present : (v.core d).removed = false
  slot : v.slot (d, k) = none
  fresh : ∀ k' j, v.slot (d, k') ≠ some (j, n)
  plain : n ≠ dot ∧ n ≠ dotdot ∧ n.length ≤ maxFnameLen

omit h in
lemma Vacant.load (hv : v.Vacant d k n) : (v.load i).Vacant d k n := by
  refine ⟨hv.dir, ?_, hv.slot, hv.fresh, hv.plain⟩
  rw [same_load.removed]
  exact hv.present

lemma Ok.link (hv : v.Vacant d k n) (hi : v.file i = some f) (hlt : f.nlinks < 65535)
    (hidir : v.isDir i = false) (hi0 : i ≠ 0) :
    v.linkIn d k i n = v.attach d k i n ∧ (v.attach d k i n).Ok held pinned tree := by
  have hb := h.bound.attach_file (d := d) (k := k) (n := n) hi hlt hidir
  have hroot : i ≠ blknRoot := by
    rintro rfl
    simp [h.root_isDir] at hidir
  refine ⟨linkIn_eq_attach hb hidir hv.dir, ?_, h.refs, hb, h.root, h.sized.attach hv.dir, fun ht => ?_⟩
  · exact h.wf.attach hv.dir hv.present hi hroot hi0 (h.not_removed_of_file hidir) hv.slot hv.fresh hv.plain
      (by simp [hidir]) fun _ => rfl
  · exact (h.rooted ht).attach hv.dir hi0 hv.slot

omit h in
lemma attach_sameBut (hv : v.Vacant d k n) (hi0 : i ≠ 0) (hP : P d n) : SameBut P v (v.attach d k i n) := by
  refine sameBut_update (attach_slot hv.dir hi0) ?_ ?_
  · simp [hv.slot]
  · rintro j m ⟨⟩
    exact hP

lemma Ok.refs_create (hi : v.file i = none) (j : Nat) : ((v.create i f).core j).refCount = (i ::ₘ held).count j := by
  by_cases hj : j = i
  · subst hj
    have h0 := h.refs j
    rw [h.wf.idle j hi] at h0
    rw [create_core_self, Multiset.count_cons_self, ← h0]
    rfl
  · rw [create_core_ne hj, Multiset.count_cons_of_ne hj, h.refs]

omit h in
lemma Vacant.create (hv : v.Vacant d k n) (hi : v.file i = none) (hlive : ∀ k, f.live k = none) :
    (v.create i f).Vacant d k n := by
  have hdi : d ≠ i := by
    rintro rfl
    simpa [isDir, hi] using hv.dir
  refine ⟨?_, ?_, ?_, ?_, hv.plain⟩
  · simpa [isDir, create_file_ne hdi] using hv.dir
  · simpa [create_core_ne hdi] using hv.present
  · rw [create_slot hi hlive, hv.slot]
  · rw [create_slot hi hlive]
    exact hv.fresh

lemma Ok.create (hi : v.file i = none) : (v.create i (.new .file)).Ok (i ::ₘ held) pinned tree where
  wf := h.wf.create hi (fun _ => rfl) rfl (by simp [new]) fun _ => ⟨rfl, rfl⟩
  refs := h.refs_create hi
  bound := create_forall h.bound (by simp [new])
  root := Multiset.mem_cons_of_mem h.root
  sized := create_forall (R := fun g => g.type ≠ .dir → Snug pinned g.size g.blocks) h.sized fun _ => snug_zero
  rooted ht := (h.rooted ht).create h.wf hi (fun _ => rfl) (by simp [new])

lemma Ok.createLink (hv : v.Vacant d k n) (hi : v.file i = none) (hi0 : i ≠ 0) (hP : P d n) :
    ((v.create i (.new .file)).linkIn d k i n).Ok (i ::ₘ held) pinned tree ∧
    SameBut P v ((v.create i (.new .file)).linkIn d k i n) ∧
    ((v.create i (.new .file)).linkIn d k i n).Live d ∧ ((v.create i (.new .file)).linkIn d k i n).isDir i = false := by
  have hv' := hv.create (f := .new .file) hi fun _ => live_new
  have hidir : (v.create i (.new .file)).isDir i = false := by simp [isDir, create_file_self, new]
  obtain ⟨heq, hok⟩ := (h.create hi).link hv' create_file_self (by simp [new]) hidir hi0
  rw [heq]
  have hlive := hok.live_of_dir (by rw [attach_isDir]; exact hv'.dir) hv'.present
  refine ⟨hok, .trans ?_ (attach_sameBut hv' hi0 hP), hlive, by rw [attach_isDir]; exact hidir⟩
  exact sameBut_of_slot (create_slot hi fun _ => live_new)

lemma Ok.mkdir (hroom : v.Roomy) (hv : v.Vacant d k n) (hi : v.file i = none) (hi0 : i ≠ 0) (hP : P d n) :
    (v.mkdir d k i n).Ok held pinned tree ∧ SameBut P v (v.mkdir d k i n) ∧ (v.mkdir d k i n).Live d := by
  have hnew : ∀ k, ({ new .dir with nlinks := 1 } : File).live k = none := fun k => by simp [live, new]
  have hv' := hv.create (f := { new .dir with nlinks := 1 }) hi hnew
  have hdi : d ≠ i := by
    rintro rfl
    simpa [isDir, hi] using hv.dir
  have hidir : (v.create i { new .dir with nlinks := 1 }).isDir i = true := by
    simp [isDir, create_file_self, new]
  have hroot : i ≠ blknRoot := by
    rintro rfl
    obtain ⟨f, hf, -⟩ := h.wf.root
    simp [hi] at hf
  have hb : ((v.create i { new .dir with nlinks := 1 }).attach d k i n).Bounded := by
    intro j f' hf'
    obtain ⟨f, hf, rfl⟩ := attach_back hf'
    by_cases hj : j = i
    · subst hj
      rw [create_file_self] at hf
      cases hf
      simp [attachFile, new, hdi]
    rw [create_file_ne hj] at hf
    have hlt := hroom j f hf
    dsimp only [attachFile]
    rw [if_neg (Ne.symm hj)]
    split <;> omega
  have hwf : (v.create i { new .dir with nlinks := 1 }).Wf (some i) :=
    h.wf.create hi (fun _ => rfl) rfl (fun _ => ⟨rfl, rfl, rfl⟩) (absurd rfl)
  have hok : ((v.create i { new .dir with nlinks := 1 }).attach d k i n).Ok (i ::ₘ held) pinned tree := by
    refine ⟨?_, h.refs_create hi, hb, Multiset.mem_cons_of_mem h.root, ?_, fun ht => ?_⟩
    · exact hwf.attach hv'.dir hv'.present create_file_self hroot hi0 (by rw [create_core_self]) hv'.slot hv'.fresh
        hv'.plain (fun _ => ⟨rfl, rfl⟩) (by simp [hidir])
    · refine Sized.attach (create_forall (R := fun g => g.type ≠ .dir → Snug pinned g.size g.blocks) h.sized ?_) hv'.dir
      exact absurd rfl
    · exact (h.rooted ht).mkdir h.wf hi hi0 (fun _ => rfl) hv.dir hv.present hv.slot
  rw [mkdir_eq hb hi hv.dir]
  have hlive : ((v.create i { new .dir with nlinks := 1 }).attach d k i n).Live d :=
    hok.live_of_dir (by rw [attach_isDir]; exact hv'.dir) hv'.present
  refine ⟨hok.unref h.root, .trans (w := v.create i { new .dir with nlinks := 1 }) ?_ ?_, hlive.unref⟩
  · exact sameBut_of_slot (create_slot hi hnew)
  · exact (attach_sameBut hv' hi0 hP).trans (sameBut_of_slot hok.wf.unref_slot)

lemma Ok.unlink (hi : i ∈ held) (hs : v.slot (d, k) = some (i, n))
    (hidir : v.isDir i = false) : (v.detach d k i).Ok held pinned tree where
  wf := h.wf.detach hs (h.refCount_ne_zero hi) (by simp [hidir]) fun _ => rfl
  refs := h.refs
  bound := h.bound.detach
  root := h.root
  sized := h.sized.detach (isDir_of_slot hs)
  rooted ht := (h.rooted ht).detach (isDir_of_slot hs) hs hidir

lemma Ok.empty_of_size (hf : v.file i = some f) (hdir : f.type = .dir) (hsize : f.size = 0) : v.slot (i, k) = none := by
  cases hs : v.slot (i, k) with
  | none => rfl
  | some e =>
    have hslots := h.wf.slots i f hf hdir
    rw [hsize] at hslots
    simpa using Lib.Count.eq_false hslots hs

lemma Ok.rmdir (hi : i ∈ held) (hs : v.slot (d, k) = some (i, n))
    (hf : v.file i = some f) (hdir : f.type = .dir) (hsize : f.size = 0) :
    ((v.detach d k i).retire i).Ok held pinned tree := by
  have hidir : v.isDir i = true := isDir_iff.mpr ⟨f, hf, hdir⟩
  have href := h.refCount_ne_zero hi
  have hroot : i ≠ blknRoot := (h.wf.target _ i n hs).1
  have hempty : ∀ k, v.slot (i, k) = none := fun k => h.empty_of_size hf hdir hsize
  have hwf : (v.detach d k i).Wf (some i) := h.wf.detach hs href (fun _ => ⟨rfl, rfl⟩) (by simp [hidir])
  have hf' := detach_some (d := d) (k := k) (i := i) hf
  refine ⟨?_, fun j => ?_, fun j g hg => ?_, h.root, fun j g hg hne => ?_, fun ht => ?_⟩
  · refine hwf.retire hf' hdir ?_ href (h.wf.target_not_removed hs)
    simp [detachFile, hsize]
  · by_cases hj : j = i
    · subst hj
      simpa [Vol.retire] using h.refs j
    · simpa [Vol.retire, setCore_core_ne _ hj] using h.refs j
  · obtain ⟨g', hg', hlt⟩ : ∃ g', (v.detach d k i).file j = some g' ∧ g.nlinks ≤ g'.nlinks := by
      by_cases hj : j = i
      · subst hj
        rw [Vol.retire, setCore_file, modFile_file_self, hf', Option.map_some] at hg
        cases hg
        exact ⟨_, hf', by simp [File.decLinks]⟩
      · exact ⟨g, by rwa [Vol.retire, setCore_file, modFile_file_ne _ hj] at hg, le_refl _⟩
    exact lt_of_le_of_lt hlt (h.bound.detach j g' hg')
  · by_cases hj : j = i
    · subst hj
      rw [Vol.retire, setCore_file, modFile_file_self, hf', Option.map_some] at hg
      cases hg
      exact absurd hdir hne
    · refine h.sized.detach (k := k) (i := i) (isDir_of_slot hs) j g ?_ hne
      rwa [Vol.retire, setCore_file, modFile_file_ne _ hj] at hg
  · exact (h.rooted ht).retire hs hempty hroot

lemma Ok.parent_of_slot (hs : v.slot (d, k) = some (i, n)) (hi : v.isDir i = true)
    (f : File) (hf : v.file i = some f) : f.parent = d := by
  obtain ⟨g, hg, hdir⟩ := isDir_iff.mp hi
  cases hf.symm.trans hg
  exact h.wf.parent d k i n f hs hf hdir

lemma Ok.moved (hroom : v.Roomy) (hi : i ∈ held) (hs : v.slot (d, k) = some (i, n))
    (hv : (v.detach d k i).Vacant d' k' m) (hrooted : tree = true → ((v.detach d k i).attach d' k' i m).Rooted) :
    ((v.detach d k i).attach d' k' i m).Ok held pinned tree := by
  obtain ⟨hroot, f, hf⟩ := h.wf.target _ i n hs
  have href := h.refCount_ne_zero hi
  refine ⟨?_, h.refs, fun j g hg => ?_, h.root, (h.sized.detach (isDir_of_slot hs)).attach hv.dir, hrooted⟩
  · have hwf : (v.detach d k i).Wf (if v.isDir i then some i else none) :=
      h.wf.detach hs href (fun hdir => ⟨rfl, by simp [hdir]⟩) fun hfile => by simp [hfile]
    refine hwf.attach hv.dir hv.present (detach_some hf) hroot (slot_ne_zero hs) (h.wf.target_not_removed hs) hv.slot
      hv.fresh hv.plain (fun hdir => ?_) fun hfile => ?_
    · rw [detach_isDir] at hdir
      simp [hdir]
    · rw [detach_isDir] at hfile
      simp [hfile]
  · obtain ⟨g', hg', rfl⟩ := attach_back hg
    obtain ⟨g, hg0, rfl⟩ := detach_back hg'
    have hlt := hroom j g hg0
    dsimp only [attachFile, detachFile]
    split <;> split <;> split <;> omega

lemma Ok.hasEntry (hd : v.file d = some f) (hdense : f.Dense)
    (hs : v.slot (d, k) = some (i, n)) : v.HasEntry d k i n (v.isDir i) := h.wf.hasEntry hd hdense hs fun _ => rfl

lemma Ok.rename_held (hroom : v.Roomy) (hi : i ∈ held) (hd : v.file d = some f)
    (hdense : f.Dense) (hs : v.slot (d, k) = some (i, n)) (hfresh : ∀ k' j, v.slot (d, k') ≠ some (j, m))
    (hplain : m ≠ dot ∧ m ≠ dotdot ∧ m.length ≤ maxFnameLen) (hP : P d n ∧ P d m) :
    (v.modFile d (.put k (.ofEntry i m))).Ok held pinned tree ∧ SameBut P v (v.modFile d (.put k (.ofEntry i m))) := by
  have heq := (h.hasEntry hd hdense hs).reattach (m := m) (h.parent_of_slot hs)
  have hdir := isDir_of_slot hs
  have hdet := detach_slot (v := v) (k := k) (i := i) hdir
  have hv : (v.detach d k i).Vacant d k m := by
    refine ⟨by rw [detach_isDir]; exact hdir, h.wf.not_removed_of_slot hs, ?_, fun k' j hk' => ?_, hplain⟩
    · rw [hdet, update_self]
    by_cases hk : k' = k
    · rw [hk, hdet, update_self] at hk'
      cases hk'
    · rw [hdet, update_of_ne (by simp [hk])] at hk'
      exact hfresh k' j hk'
  have hslot : ((v.detach d k i).attach d k i m).slot = update v.slot (d, k) (some (i, m)) := by
    rw [attach_slot hv.dir (slot_ne_zero hs), hdet, Function.update_idem]
  rw [← heq]
  refine ⟨h.moved hroom hi hs hv fun ht => ?_, sameBut_update hslot ?_ ?_⟩
  · exact (h.rooted ht).rename hs (by rw [attach_isDir, detach_isDir]) hslot rfl
  · rw [hs]
    rintro j n' ⟨⟩
    exact hP.1
  · rintro j n' ⟨⟩
    exact hP.2

lemma Ok.rename (hroom : v.Roomy) (hd : v.file d = some f) (hdense : f.Dense)
    (hs : v.slot (d, k) = some (i, n)) (hfresh : ∀ k' j, v.slot (d, k') ≠ some (j, m))
    (hplain : m ≠ dot ∧ m ≠ dotdot ∧ m.length ≤ maxFnameLen) (hP : P d n ∧ P d m) :
    (v.modFile d (.put k (.ofEntry i m))).Ok held pinned tree ∧ SameBut P v (v.modFile d (.put k (.ofEntry i m))) := by
  obtain ⟨g, hg, hl, -⟩ := h.target hs
  obtain ⟨hok, hframe⟩ := (h.load hg).rename_held hroom (Multiset.mem_cons_self i held) hd hdense hs hfresh hplain hP
  -- the reference is only for the argument, the code takes none
  obtain ⟨g', hg', hl'⟩ : ∃ g', (v.modFile d (.put k (.ofEntry i m))).file i = some g' ∧ g'.nlinks ≠ 0 := by
    by_cases hid : i = d
    · subst hid
      exact ⟨g.put k (.ofEntry i m), by rw [modFile_file_self, hg]; rfl, hl⟩
    · exact ⟨g, by rw [modFile_file_ne _ hid, hg], hl⟩
  refine ⟨?_, hframe⟩
  rw [← load_unref _ hg' hl']
  exact hok.unref h.root

lemma Ok.move (hroom : v.Roomy) (hi : i ∈ held) (hs : v.slot (d, k) = some (i, n))
    (hv : v.Vacant d' k' m) (hne : d ≠ d') (hbelow : tree = true → v.isDir i = true → ¬ v.Below i d')
    (hP : P d n ∧ P d' m) :
    (v.detach d k i).Vacant d' k' m ∧ ((v.detach d k i).attach d' k' i m).Ok held pinned tree ∧
      SameBut P v ((v.detach d k i).attach d' k' i m) := by
  have hdet := detach_slot (v := v) (k := k) (i := i) (isDir_of_slot hs)
  have hi0 := slot_ne_zero hs
  have hother : ∀ k', (v.detach d k i).slot (d', k') = v.slot (d', k') := fun k' => by
    rw [hdet, update_of_ne (by simp [Ne.symm hne])]
  have hv' : (v.detach d k i).Vacant d' k' m := by
    refine ⟨by rw [detach_isDir]; exact hv.dir, hv.present, ?_, fun k2 j => ?_, hv.plain⟩
    · rw [hother, hv.slot]
    · rw [hother]
      exact hv.fresh k2 j
  refine ⟨hv', h.moved hroom hi hs hv' fun ht => ?_, ?_⟩
  · cases hidir : v.isDir i with
    | true => exact (h.rooted ht).move hs hi0 hidir hv.dir hv.present hv.slot (hbelow ht hidir)
    | false => exact ((h.rooted ht).detach (isDir_of_slot hs) hs hidir).attach hv'.dir hi0 hv'.slot
  · exact (detach_sameBut hs hP.1).trans (attach_sameBut hv' hi0 hP.2)

end

end Vol

end Ucore.Fs
