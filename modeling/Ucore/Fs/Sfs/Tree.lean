import Ucore.Fs.Sfs.Names

/-!
# Changes of the tree

An entry is made or removed together with the counts it belongs to, an inode appears, a
directory is retired.
-/

namespace Ucore.Fs

open Function
open Lib (Count weigh)

namespace Vol

variable {v w : Vol} {afloat afloat' : Option Nat} {G : Nat → File → File}

lemma Wf.refs_zero_of_afloat (h : v.Wf (some i)) (hi : v.isDir i = true) (hr : (v.core i).removed = false) :
    v.Refs i 0 := by
  obtain ⟨f, hf, hdir⟩ := isDir_iff.mp hi
  have hne : i ≠ blknRoot := fun heq => h.rooted (congrArg some heq)
  simpa [own] using h.dirRefs i f hf hdir hr hne

lemma Refs.not_target (h : v.Refs i 0) : v.slot p ≠ some (i, n) := by
  intro hs
  have := Count.eq_false h hs
  simp at this

lemma slot_eq_update (hd : v.isDir d = true) (hw : ∀ j, w.file j = (v.file j).map (G j))
    (htype : ∀ j f, (G j f).type = f.type)
    (hleaf : ∀ j f, (G j f).leaf = if j = d then update f.leaf k (some c) else f.leaf) :
    w.slot = update v.slot (d, k) c.live := by
  obtain ⟨f, hf, hdir⟩ := isDir_iff.mp hd
  funext p
  obtain ⟨d', k'⟩ := p
  by_cases hd' : d' = d
  · subst hd'
    by_cases hk' : k' = k
    · subst hk'
      simp [slot, hw, hf, File.live, htype, hleaf, hdir]
    · have hne : (d', k') ≠ (d', k) := by simp [hk']
      simp [slot, hw, hf, File.live, htype, hleaf, hdir, update_of_ne hk', update_of_ne hne]
  · have hne : (d', k') ≠ (d, k) := by simp [hd']
    rw [update_of_ne hne]
    cases hf' : v.file d' <;> simp [slot, hw, hf', File.live, htype, hleaf, hd']

lemma isDir_eq (hw : ∀ j, w.file j = (v.file j).map (G j))
    (htype : ∀ j f, (G j f).type = f.type) : w.isDir = v.isDir := by
  funext j
  cases hf : v.file j <;> simp [isDir, hw, hf, htype]

def attachFile (v : Vol) (d k i : Nat) (n : Name) (j : Nat) (f : File) : File :=
  { f with
    leaf := if j = d then update f.leaf k (some (.ofEntry i n)) else f.leaf
    blocks := if j = d then max f.blocks (k + 1) else f.blocks
    size := f.size + if d = j then 1 else 0
    nlinks := f.nlinks + (if i = j then 1 else 0) + if d = j ∧ v.isDir i = true then 1 else 0
    parent := if i = j ∧ v.isDir i = true then d else f.parent }

def attach (v : Vol) (d k i : Nat) (n : Name) : Vol :=
  { v with file := fun j => (v.file j).map (v.attachFile d k i n j) }

section Attach

variable {d k i : Nat} {n : Name}

@[simp] lemma attach_core : (v.attach d k i n).core = v.core := rfl

@[simp] lemma attach_isDir : (v.attach d k i n).isDir = v.isDir := isDir_eq (fun _ => rfl) fun _ _ => rfl

lemma attach_slot (hd : v.isDir d = true) (hi0 : i ≠ 0) :
    (v.attach d k i n).slot = update v.slot (d, k) (some (i, n)) := by
  rw [slot_eq_update (G := v.attachFile d k i n) hd (fun _ => rfl) (fun _ _ => rfl) fun _ _ => rfl,
    Content.live_ofEntry hi0]

lemma attach_some (h : v.file j = some f) : (v.attach d k i n).file j = some (v.attachFile d k i n j f) := by
  simp [attach, h]

lemma attach_back (h : (v.attach d k i n).file j = some f') : ∃ f, v.file j = some f ∧ f' = v.attachFile d k i n j f := by
  simpa [attach, eq_comm] using h

lemma own_attach (hdir : v.isDir i = true → afloat = some i ∧ afloat' = none)
    (hfile : v.isDir i = false → afloat' = afloat) (hj : v.isDir j = true) :
    own afloat' j = own afloat j + if i = j then 1 else 0 := by
  cases hi : v.isDir i with
  | true =>
    obtain ⟨rfl, rfl⟩ := hdir hi
    by_cases hij : i = j <;> simp [own, hij]
  | false =>
    have hne : i ≠ j := fun heq => by simp [heq, hj] at hi
    rw [hfile hi, if_neg hne]
    rfl

lemma Wf.attach (h : v.Wf afloat) (hd : v.isDir d = true) (hrem : (v.core d).removed = false)
    (hi : v.file i = some fi) (hiroot : i ≠ blknRoot) (hi0 : i ≠ 0) (hirem : (v.core i).removed = false)
    (hk : v.slot (d, k) = none) (hfresh : ∀ k' j, v.slot (d, k') ≠ some (j, n))
    (hplain : n ≠ dot ∧ n ≠ dotdot ∧ n.length ≤ maxFnameLen)
    (hdir : v.isDir i = true → afloat = some i ∧ afloat' = none)
    (hfile : v.isDir i = false → afloat' = afloat) : (v.attach d k i n).Wf afloat' := by
  have hslot : (v.attach d k i n).slot = update v.slot (d, k) (some (i, n)) := attach_slot hd hi0
  -- an entry is the new one or was there before
  have hold : ∀ {p j m}, (v.attach d k i n).slot p = some (j, m) →
      (p = (d, k) ∧ j = i ∧ m = n) ∨ (p ≠ (d, k) ∧ v.slot p = some (j, m)) := by
    intro p j m hp
    rw [hslot] at hp
    by_cases hpk : p = (d, k)
    · rw [hpk, update_self] at hp
      cases hp
      exact .inl ⟨hpk, rfl, rfl⟩
    · rw [update_of_ne hpk] at hp
      exact .inr ⟨hpk, hp⟩
  constructor
  case distinct =>
    intro d1 k1 k2 i1 i2 n1 h1 h2
    rcases hold h1 with ⟨hp1, -, he1⟩ | ⟨-, h1⟩ <;> rcases hold h2 with ⟨hp2, -, he2⟩ | ⟨-, h2⟩
    · exact (congrArg Prod.snd (hp1.trans hp2.symm))
    · cases hp1
      exact absurd (he1 ▸ h2) (hfresh _ _)
    · cases hp2
      exact absurd (he2 ▸ h1) (hfresh _ _)
    · exact h.distinct d1 k1 k2 i1 i2 n1 h1 h2
  case plain =>
    intro p j m hp
    rcases hold hp with ⟨-, -, rfl⟩ | ⟨-, hp⟩
    · exact hplain
    · exact h.plain p j m hp
  case target =>
    intro p j m hp
    rcases hold hp with ⟨-, rfl, -⟩ | ⟨-, hp⟩
    · exact ⟨hiroot, _, attach_some hi⟩
    · obtain ⟨hne, f, hf⟩ := h.target p j m hp
      exact ⟨hne, _, attach_some hf⟩
  case parent =>
    intro d1 k1 j m f' hp hf' hdir'
    obtain ⟨f, hf, rfl⟩ := attach_back hf'
    have hjdir : v.isDir j = true := isDir_iff.mpr ⟨f, hf, hdir'⟩
    rcases hold hp with ⟨hpk, rfl, -⟩ | ⟨-, hp⟩
    · simp only [attachFile, hjdir, and_self, ↓reduceIte]
      exact (congrArg Prod.fst hpk).symm
    -- a directory that is attached was afloat: no other entry leads to it
    have hne : i ≠ j := by
      rintro rfl
      obtain ⟨rfl, -⟩ := hdir hjdir
      exact (h.refs_zero_of_afloat hjdir hirem).not_target hp
    simp only [attachFile, hne, false_and, ↓reduceIte]
    exact h.parent d1 k1 j m f hp hf hdir'
  case slots =>
    intro j f' hf' hdir'
    obtain ⟨f, hf, rfl⟩ := attach_back hf'
    have := (h.slots j f hf hdir').add (e := (i, n)) hk
    rw [Slots, hslot]
    simpa [attachFile] using this
  case fileRefs =>
    intro j f' hf' hdir'
    obtain ⟨f, hf, rfl⟩ := attach_back hf'
    have hne : d ≠ j := by
      rintro rfl
      exact hdir' (of_decide_eq_true (isDir_of_file hf ▸ hd))
    have := (h.fileRefs j f hf hdir').add (e := (i, n)) hk
    rw [Refs, hslot]
    simpa [attachFile, hne] using this
  case dirRefs =>
    intro j f' hf' hdir' hr hroot
    obtain ⟨f, hf, rfl⟩ := attach_back hf'
    have := (h.dirRefs j f hf hdir' hr hroot).add (e := (i, n)) hk
    rw [Refs, hslot, own_attach hdir hfile (isDir_iff.mpr ⟨f, hf, hdir'⟩)]
    simpa using this
  case dirLinks =>
    intro j f' hf' hdir' hr
    obtain ⟨f, hf, rfl⟩ := attach_back hf'
    obtain ⟨m, hm, hl⟩ := h.dirLinks j f hf hdir' hr
    refine ⟨m + if d = j ∧ v.isDir i = true then 1 else 0, ?_, ?_⟩
    · have := Count.add (e := (i, n)) hm hk
      rw [Subdirs, hslot, attach_isDir]
      simpa using this
    · rw [own_attach hdir hfile (isDir_iff.mpr ⟨f, hf, hdir'⟩)]
      simp only [attachFile, hl]
      omega
  case removed =>
    intro j hr
    obtain ⟨f, hf, hdir', hl, hs, hrefs⟩ := h.removed j hr
    have hr' : (v.core j).removed = true := hr
    have hjd : d ≠ j := fun heq => by simp [← heq, hrem] at hr'
    have hji : i ≠ j := fun heq => by simp [← heq, hirem] at hr'
    refine ⟨_, attach_some hf, hdir', ?_, ?_, ?_⟩
    · simp [attachFile, hl, hjd, hji]
    · simp [attachFile, hs, hjd]
    · have := Count.add (e := (i, n)) hrefs hk
      rw [Refs, hslot]
      simpa [hji] using this
  case unlinked =>
    intro j f' hf' hl
    obtain ⟨f, hf, rfl⟩ := attach_back hf'
    simp only [attachFile] at hl
    exact h.unlinked j f hf (by omega)
  case idle =>
    intro j hj
    exact h.idle j (by simpa [Vol.attach] using hj)
  case coded =>
    intro j f' k' c hf' hdir' hc
    obtain ⟨f, hf, rfl⟩ := attach_back hf'
    simp only [attachFile] at hc
    split at hc
    · by_cases hk' : k' = k
      · rw [hk', update_self] at hc
        exact ⟨i, n, (Option.some.inj hc).symm⟩
      · rw [update_of_ne hk'] at hc
        exact h.coded j f k' c hf hdir' hc
    · exact h.coded j f k' c hf hdir' hc
  case root =>
    obtain ⟨f, hf, hdir', hparent, hr⟩ := h.root
    refine ⟨_, attach_some hf, hdir', ?_, hr⟩
    simp [attachFile, hiroot, hparent]
  case rooted =>
    cases hidir : v.isDir i with
    | true => simp [(hdir hidir).2]
    | false =>
      rw [hfile hidir]
      exact h.rooted

end Attach

def detachFile (v : Vol) (d k i j : Nat) (f : File) : File :=
  { f with
    leaf := if j = d then update f.leaf k (some (.ofEntry 0 [])) else f.leaf
    blocks := if j = d then max f.blocks (k + 1) else f.blocks
    size := f.size - if d = j then 1 else 0
    nlinks := f.nlinks - (if i = j then 1 else 0) - if d = j ∧ v.isDir i = true then 1 else 0 }

def detach (v : Vol) (d k i : Nat) : Vol := { v with file := fun j => (v.file j).map (v.detachFile d k i j) }

section Detach

variable {d k i : Nat} {n : Name}

@[simp] lemma detach_core : (v.detach d k i).core = v.core := rfl

@[simp] lemma detach_isDir : (v.detach d k i).isDir = v.isDir := isDir_eq (fun _ => rfl) fun _ _ => rfl

lemma detach_slot (hd : v.isDir d = true) : (v.detach d k i).slot = update v.slot (d, k) none := by
  rw [slot_eq_update (G := v.detachFile d k i) hd (fun _ => rfl) (fun _ _ => rfl) fun _ _ => rfl,
    Content.live_ofEntry_zero]

lemma detach_some (h : v.file j = some f) : (v.detach d k i).file j = some (v.detachFile d k i j f) := by
  simp [detach, h]

lemma detach_back (h : (v.detach d k i).file j = some f') : ∃ f, v.file j = some f ∧ f' = v.detachFile d k i j f := by
  simpa [detach, eq_comm] using h

lemma own_detach (hdir : v.isDir i = true → afloat = none ∧ afloat' = some i)
    (hfile : v.isDir i = false → afloat' = afloat) (hj : v.isDir j = true) :
    own afloat j = own afloat' j + if i = j then 1 else 0 :=
  own_attach (fun hi => (hdir hi).symm) (fun hi => (hfile hi).symm) hj

lemma isDir_of_slot (h : v.slot (d, k) = some e) : v.isDir d = true := by
  cases hf : v.file d with
  | none => simp [slot, hf] at h
  | some f =>
    rw [slot_of_file hf, File.live] at h
    grind [isDir_iff]

lemma Wf.not_removed_of_slot (h : v.Wf afloat) (hs : v.slot (d, k) = some e) : (v.core d).removed = false := by
  by_contra hr
  obtain ⟨f, hf, hdir, -, hsize, -⟩ := h.removed d (by simpa using hr)
  have hslots := h.slots d f hf hdir
  rw [hsize] at hslots
  have := Count.eq_false hslots hs
  simp at this

lemma Wf.target_not_removed (h : v.Wf afloat) (hs : v.slot p = some (i, n)) : (v.core i).removed = false := by
  by_contra hr
  obtain ⟨f, -, -, -, -, hrefs⟩ := h.removed i (by simpa using hr)
  exact hrefs.not_target hs

lemma Wf.detach (h : v.Wf afloat) (hs : v.slot (d, k) = some (i, n)) (href : (v.core i).refCount ≠ 0)
    (hdir : v.isDir i = true → afloat = none ∧ afloat' = some i)
    (hfile : v.isDir i = false → afloat' = afloat) : (v.detach d k i).Wf afloat' := by
  have hd := isDir_of_slot hs
  have hslot : (v.detach d k i).slot = update v.slot (d, k) none := detach_slot hd
  have hold : ∀ {p e}, (v.detach d k i).slot p = some e → p ≠ (d, k) ∧ v.slot p = some e := by
    intro p e hp
    rw [hslot] at hp
    by_cases hpk : p = (d, k)
    · rw [hpk, update_self] at hp
      cases hp
    · rw [update_of_ne hpk] at hp
      exact ⟨hpk, hp⟩
  -- with a subdirectory goes the link of its `..`
  have hlinks : ∀ j f, v.file j = some f → f.type = .dir → (v.core j).removed = false →
      ∃ m, (v.detach d k i).Subdirs j m ∧ (v.detachFile d k i j f).nlinks = m + 1 + own afloat' j := by
    intro j f hf hdir' hr
    obtain ⟨m, hm, hl⟩ := h.dirLinks j f hf hdir' hr
    have hown := own_detach hdir hfile (isDir_iff.mpr ⟨f, hf, hdir'⟩)
    have hpos : d = j ∧ v.isDir i = true → 0 < m := fun hc => Count.pos hm hs (by simp [hc.1, hc.2])
    refine ⟨m - if d = j ∧ v.isDir i = true then 1 else 0, ?_, ?_⟩
    · have := Count.remove hm hs
      rw [Subdirs, hslot, detach_isDir]
      simpa using this
    simp only [detachFile, hl, hown]
    by_cases hc : d = j ∧ v.isDir i = true
    · have := hpos hc
      rw [if_pos hc]
      omega
    · rw [if_neg hc]
      omega
  constructor
  case distinct =>
    intro d1 k1 k2 i1 i2 n1 h1 h2
    exact h.distinct d1 k1 k2 i1 i2 n1 (hold h1).2 (hold h2).2
  case plain => exact fun p j m hp => h.plain p j m (hold hp).2
  case target =>
    intro p j m hp
    obtain ⟨hne, f, hf⟩ := h.target p j m (hold hp).2
    exact ⟨hne, _, detach_some hf⟩
  case parent =>
    intro d1 k1 j m f' hp hf' hdir'
    obtain ⟨f, hf, rfl⟩ := detach_back hf'
    exact h.parent d1 k1 j m f (hold hp).2 hf hdir'
  case slots =>
    intro j f' hf' hdir'
    obtain ⟨f, hf, rfl⟩ := detach_back hf'
    have := Count.remove (h.slots j f hf hdir') hs
    rw [Slots, hslot]
    simpa [detachFile] using this
  case fileRefs =>
    intro j f' hf' hdir'
    obtain ⟨f, hf, rfl⟩ := detach_back hf'
    have hne : d ≠ j := by
      rintro rfl
      exact hdir' (of_decide_eq_true (isDir_of_file hf ▸ hd))
    have := Count.remove (h.fileRefs j f hf hdir') hs
    rw [Refs, hslot]
    simpa [detachFile, hne] using this
  case dirRefs =>
    intro j f' hf' hdir' hr hroot
    obtain ⟨f, hf, rfl⟩ := detach_back hf'
    have := Count.remove (h.dirRefs j f hf hdir' hr hroot) hs
    rw [own_detach hdir hfile (isDir_iff.mpr ⟨f, hf, hdir'⟩)] at this
    rw [Refs, hslot]
    simpa using this
  case dirLinks =>
    intro j f' hf' hdir' hr
    obtain ⟨f, hf, rfl⟩ := detach_back hf'
    exact hlinks j f hf hdir' hr
  case removed =>
    intro j hr
    obtain ⟨f, hf, hdir', hl, hs', hrefs⟩ := h.removed j hr
    refine ⟨_, detach_some hf, hdir', ?_, ?_, ?_⟩
    · simp [detachFile, hl]
    · simp [detachFile, hs']
    · have := Count.remove hrefs hs
      rw [Refs, hslot]
      simpa using this
  case unlinked =>
    intro j f' hf' hl
    obtain ⟨f, hf, rfl⟩ := detach_back hf'
    by_cases hj : i = j
    · exact hj ▸ href
    by_cases hdir' : f.type = .dir
    · cases hr : (v.core j).removed with
      | true =>
        obtain ⟨f2, hf2, -, hl2, -⟩ := h.removed j hr
        exact h.unlinked j f2 hf2 hl2
      | false =>
        obtain ⟨m, -, hm⟩ := hlinks j f hf hdir' hr
        omega
    have hne : d ≠ j := by
      rintro rfl
      exact hdir' (of_decide_eq_true (isDir_of_file hf ▸ hd))
    refine h.unlinked j f hf ?_
    simpa [detachFile, hj, hne] using hl
  case idle =>
    intro j hj
    exact h.idle j (by simpa [Vol.detach] using hj)
  case coded =>
    intro j f' k' c hf' hdir' hc
    obtain ⟨f, hf, rfl⟩ := detach_back hf'
    simp only [detachFile] at hc
    split at hc
    · by_cases hk' : k' = k
      · rw [hk', update_self] at hc
        exact ⟨0, [], (Option.some.inj hc).symm⟩
      · rw [update_of_ne hk'] at hc
        exact h.coded j f k' c hf hdir' hc
    · exact h.coded j f k' c hf hdir' hc
  case root =>
    obtain ⟨f, hf, hdir', hparent, hr⟩ := h.root
    exact ⟨_, detach_some hf, hdir', hparent, hr⟩
  case rooted =>
    cases hidir : v.isDir i with
    | true =>
      rw [(hdir hidir).2]
      simpa using (h.target _ _ _ hs).1
    | false =>
      rw [hfile hidir]
      exact h.rooted

end Detach

structure SameTree (v w : Vol) : Prop where
  forth : ∀ j f, v.file j = some f → ∃ f', w.file j = some f'
  back : ∀ j f', w.file j = some f' → ∃ f, v.file j = some f ∧ f'.type = f.type ∧ f'.nlinks = f.nlinks ∧
    (f.type = .dir → f'.parent = f.parent ∧ f'.size = f.size ∧ f'.leaf = f.leaf)
  removed : ∀ j, (w.core j).removed = (v.core j).removed

namespace SameTree

lemma isDir (h : SameTree v w) : w.isDir = v.isDir := by
  funext j
  cases hw : w.file j with
  | some f' =>
    obtain ⟨f, hf, htype, -⟩ := h.back j f' hw
    rw [isDir_of_file hw, isDir_of_file hf, htype]
  | none =>
    cases hv : v.file j with
    | none => simp [Vol.isDir, hw, hv]
    | some f => exact absurd (h.forth j f hv) (by simp [hw])

lemma slot (h : SameTree v w) : w.slot = v.slot := by
  funext p
  obtain ⟨d, k⟩ := p
  cases hw : w.file d with
  | some f' =>
    obtain ⟨f, hf, htype, -, hsame⟩ := h.back d f' hw
    rw [slot_of_file hw, slot_of_file hf]
    by_cases hdir : f.type = .dir
    · exact congrFun (File.live_congr htype (hsame hdir).2.2) k
    · simp [File.live, htype, hdir]
  | none =>
    cases hv : v.file d with
    | none => simp [Vol.slot, hw, hv]
    | some f => exact absurd (h.forth d f hv) (by simp [hw])

end SameTree

section

variable (h : v.Wf afloat)
include h

lemma Wf.same (hs : SameTree v w) (hunlinked : ∀ i f, w.file i = some f → f.nlinks = 0 → (w.core i).refCount ≠ 0)
    (hidle : ∀ i, w.file i = none → w.core i = .idle) : w.Wf afloat := by
  constructor
  case distinct =>
    rw [hs.slot]
    exact h.distinct
  case plain =>
    rw [hs.slot]
    exact h.plain
  case target =>
    intro p i n hp
    rw [hs.slot] at hp
    obtain ⟨hne, f, hf⟩ := h.target p i n hp
    exact ⟨hne, hs.forth i f hf⟩
  case parent =>
    intro d k i n f' hp hf' hdir
    rw [hs.slot] at hp
    grind [hs.back, h.parent]
  case slots =>
    intro d f' hf' hdir
    obtain ⟨f, hf, htype, -, hsame⟩ := hs.back d f' hf'
    rw [htype] at hdir
    rw [Slots, hs.slot, (hsame hdir).2.1]
    exact h.slots d f hf hdir
  case fileRefs =>
    intro i f' hf' hdir
    obtain ⟨f, hf, htype, hlinks, -⟩ := hs.back i f' hf'
    rw [Refs, hs.slot, hlinks]
    exact h.fileRefs i f hf (htype ▸ hdir)
  case dirRefs =>
    intro i f' hf' hdir hr
    obtain ⟨f, hf, htype, -⟩ := hs.back i f' hf'
    rw [Refs, hs.slot]
    exact h.dirRefs i f hf (htype ▸ hdir) (hs.removed i ▸ hr)
  case dirLinks =>
    intro i f' hf' hdir hr
    obtain ⟨f, hf, htype, hlinks, -⟩ := hs.back i f' hf'
    rw [hlinks]
    simp only [Subdirs, hs.slot, hs.isDir]
    exact h.dirLinks i f hf (htype ▸ hdir) (hs.removed i ▸ hr)
  case removed =>
    intro i hr
    obtain ⟨f, hf, hdir, hl, hsize, hrefs⟩ := h.removed i (hs.removed i ▸ hr)
    obtain ⟨f', hf'⟩ := hs.forth i f hf
    obtain ⟨f2, hf2, htype, hlinks, hsame⟩ := hs.back i f' hf'
    cases hf.symm.trans hf2
    refine ⟨f', hf', htype.trans hdir, hlinks.trans hl, (hsame hdir).2.1.trans hsize, ?_⟩
    rw [Refs, hs.slot]
    exact hrefs
  case unlinked => exact hunlinked
  case idle => exact hidle
  case coded =>
    intro d f' k c hf' hdir hc
    obtain ⟨f, hf, htype, -, hsame⟩ := hs.back d f' hf'
    rw [htype] at hdir
    exact h.coded d f k c hf hdir ((hsame hdir).2.2 ▸ hc)
  case root => grind [h.root, hs.forth, hs.back, hs.removed]
  case rooted => exact h.rooted

omit h in
lemma sameTree_setCore (hr : c.removed = (v.core i).removed) : SameTree v (v.setCore i c) := by
  refine ⟨fun _ f hf => ⟨f, hf⟩, fun _ f hf => ⟨f, hf, rfl, rfl, fun _ => ⟨rfl, rfl, rfl⟩⟩, fun j => ?_⟩
  grind [setCore_core_ne, setCore_core_self]

section

variable (hf : v.file i = some f)
include hf

lemma Wf.setCore (hr : c.removed = (v.core i).removed) (hc : f.nlinks = 0 → c.refCount ≠ 0) :
    (v.setCore i c).Wf afloat := by
  refine h.same (sameTree_setCore hr) ?_ ?_
  · intro j f' hf' hl
    by_cases hj : j = i
    · subst hj
      cases hf.symm.trans hf'
      rw [setCore_core_self]
      exact hc hl
    · rw [setCore_core_ne _ hj]
      exact h.unlinked j f' hf' hl
  · grind [setCore_core_ne, h.idle, Vol.setCore]

lemma Wf.load : (v.load i).Wf afloat := h.setCore hf rfl fun _ => Nat.succ_ne_zero _

lemma Wf.slot_of_unlinked (hl : f.nlinks = 0) : v.Refs i 0 ∧ (∀ k, v.slot (i, k) = none) ∧ i ≠ blknRoot := by
  by_cases hdir : f.type = .dir
  · have hr : (v.core i).removed = true := by
      by_contra hr
      obtain ⟨m, -, hm⟩ := h.dirLinks i f hf hdir (by simpa using hr)
      omega
    obtain ⟨f2, hf2, -, -, hsize, hrefs⟩ := h.removed i hr
    cases hf.symm.trans hf2
    refine ⟨hrefs, fun k => ?_, ?_⟩
    · cases hs : v.slot (i, k) with
      | none => rfl
      | some e => simp [h.not_removed_of_slot hs] at hr
    · grind [h.root]
  · have hrefs := h.fileRefs i f hf hdir
    rw [hl] at hrefs
    refine ⟨hrefs, fun k => ?_, ?_⟩
    · rw [slot_of_file hf]
      exact if_neg hdir
    · rintro rfl
      obtain ⟨f2, hf2, hdir2, -⟩ := h.root
      cases hf.symm.trans hf2
      exact hdir hdir2

lemma Wf.delete (hl : f.nlinks = 0) : ((v.setFile i none).setCore i .idle).Wf afloat := by
  obtain ⟨hrefs, hnone, hroot⟩ := h.slot_of_unlinked hf hl
  have hfile : ∀ {j}, j ≠ i → ((v.setFile i none).setCore i .idle).file j = v.file j := setFile_file_ne _
  have hcore : ∀ {j}, j ≠ i → ((v.setFile i none).setCore i .idle).core j = v.core j := setCore_core_ne _
  have hgone : ((v.setFile i none).setCore i .idle).file i = none := setFile_file_self _
  have hself : ((v.setFile i none).setCore i .idle).core i = .idle := setCore_core_self _
  have hslot : ((v.setFile i none).setCore i .idle).slot = v.slot := by
    funext p
    obtain ⟨d, k⟩ := p
    by_cases hd : d = i
    · subst hd
      rw [hnone k]
      simp [slot]
    · simp [slot, setFile_file_ne _ hd]
  have hback : ∀ {j f'}, ((v.setFile i none).setCore i .idle).file j = some f' → j ≠ i ∧ v.file j = some f' := by
    intro j f' hf'
    have hj : j ≠ i := by
      rintro rfl
      simp at hf'
    exact ⟨hj, hfile hj ▸ hf'⟩
  constructor
  case distinct =>
    rw [hslot]
    exact h.distinct
  case plain =>
    rw [hslot]
    exact h.plain
  case target =>
    intro p j n hp
    rw [hslot] at hp
    have hj : j ≠ i := by
      rintro rfl
      exact hrefs.not_target hp
    rw [hfile hj]
    exact h.target p j n hp
  case parent =>
    intro d k j n f' hp hf' hdir
    rw [hslot] at hp
    exact h.parent d k j n f' hp (hback hf').2 hdir
  case slots =>
    intro d f' hf' hdir
    rw [Slots, hslot]
    exact h.slots d f' (hback hf').2 hdir
  case fileRefs =>
    intro j f' hf' hdir
    rw [Refs, hslot]
    exact h.fileRefs j f' (hback hf').2 hdir
  case dirRefs =>
    intro j f' hf' hdir hr
    obtain ⟨hj, hf'⟩ := hback hf'
    rw [Refs, hslot]
    exact h.dirRefs j f' hf' hdir (hcore hj ▸ hr)
  case dirLinks =>
    intro j f' hf' hdir hr
    obtain ⟨hj, hf'⟩ := hback hf'
    obtain ⟨m, hm, hlinks⟩ := h.dirLinks j f' hf' hdir (hcore hj ▸ hr)
    refine ⟨m, ?_, hlinks⟩
    rw [Subdirs, hslot]
    refine Count.congr hm fun p e hp => ?_
    grind [isDir, hrefs.not_target]
  case removed =>
    intro j hr
    have hj : j ≠ i := by
      rintro rfl
      simp [Core.idle] at hr
    rw [hcore hj] at hr
    obtain ⟨f', hf', hrest⟩ := h.removed j hr
    refine ⟨f', (hfile hj).trans hf', ?_⟩
    rwa [Refs, hslot]
  case unlinked => grind [h.unlinked]
  case idle => grind [h.idle]
  case coded => exact fun d f' k c hf' => h.coded d f' k c (hback hf').2
  case root => grind [h.root]
  case rooted => exact h.rooted

lemma Wf.unref (href : (v.core i).refCount ≠ 0) : (v.unref i).Wf afloat := by
  by_cases hc : (v.core i).refCount = 1 ∧ f.nlinks = 0
  · rw [unref_last hc.1 hf hc.2]
    exact h.delete hf hc.2
  have hun : v.unref i = v.setCore i { v.core i with refCount := (v.core i).refCount - 1 } := by
    by_cases hl : f.nlinks = 0
    · exact unref_more fun h1 => hc ⟨h1, hl⟩
    · exact unref_linked hf hl
  rw [hun]
  exact h.setCore hf rfl fun hl => show (v.core i).refCount - 1 ≠ 0 by
    omega

end

end

section Create

variable {i : Nat} {f : File}

lemma create_file_self : (v.create i f).file i = some f := setFile_file_self _
lemma create_file_ne (h : j ≠ i) : (v.create i f).file j = v.file j := setFile_file_ne _ h
lemma create_core_self : (v.create i f).core i = { removed := false, refCount := 1 } := setCore_core_self _
lemma create_core_ne (h : j ≠ i) : (v.create i f).core j = v.core j := setCore_core_ne _ h

lemma create_slot (hi : v.file i = none) (hlive : ∀ k, f.live k = none) : (v.create i f).slot = v.slot := by
  grind [slot, create_file_self, create_file_ne]

lemma Wf.refs_of_none (h : v.Wf afloat) (hi : v.file i = none) : v.Refs i 0 := by
  grind [Count.zero, h.target, Refs]

lemma Wf.create (h : v.Wf afloat) (hi : v.file i = none) (hleaf : ∀ k, f.leaf k = none) (hsize : f.size = 0)
    (hdir : f.type = .dir → f.nlinks = 1 ∧ afloat = none ∧ afloat' = some i)
    (hfile : f.type ≠ .dir → f.nlinks = 0 ∧ afloat' = afloat) : (v.create i f).Wf afloat' := by
  have hslot : (v.create i f).slot = v.slot := create_slot hi fun k => by simp [File.live, hleaf]
  have hrefs := h.refs_of_none hi
  have hroot : i ≠ blknRoot := by
    rintro rfl
    obtain ⟨_, hf, -⟩ := h.root
    simp [hi] at hf
  have hself : ∀ {f'}, (v.create i f).file i = some f' → f' = f := fun hf' => by
    grind [create_file_self]
  have hafloat : ∀ {j}, j ≠ i → own afloat' j = own afloat j := by
    intro j hj
    by_cases hd : f.type = .dir
    · grind [own]
    · rw [(hfile hd).2]
  have hisDir : ∀ p e, v.slot p = some e → (v.create i f).isDir e.1 = v.isDir e.1 := by
    intro p e hp
    have hne : e.1 ≠ i := fun heq => hrefs.not_target (p := p) (n := e.2) (by rw [hp, ← heq])
    simp [isDir, create_file_ne hne]
  constructor
  case distinct =>
    rw [hslot]
    exact h.distinct
  case plain =>
    rw [hslot]
    exact h.plain
  case target =>
    intro p j n hp
    rw [hslot] at hp
    grind [create_file_ne, h.target]
  case parent =>
    intro d k j n f' hp hf' hd
    rw [hslot] at hp
    have hj : j ≠ i := by
      rintro rfl
      exact hrefs.not_target hp
    exact h.parent d k j n f' hp (create_file_ne hj ▸ hf') hd
  case slots =>
    intro d f' hf' hd
    rw [Slots, hslot]
    by_cases hj : d = i
    · grind [slot, Count.zero]
    · exact h.slots d f' (create_file_ne hj ▸ hf') hd
  case fileRefs =>
    intro j f' hf' hd
    rw [Refs, hslot]
    by_cases hj : j = i
    · subst hj
      cases hself hf'
      rw [(hfile hd).1]
      exact hrefs
    · exact h.fileRefs j f' (create_file_ne hj ▸ hf') hd
  case dirRefs =>
    intro j f' hf' hd hr hroot'
    rw [Refs, hslot]
    by_cases hj : j = i
    · subst hj
      cases hself hf'
      rw [(hdir hd).2.2, own, if_pos rfl]
      exact hrefs
    · rw [hafloat hj]
      exact h.dirRefs j f' (create_file_ne hj ▸ hf') hd (create_core_ne hj ▸ hr) hroot'
  case dirLinks =>
    intro j f' hf' hd hr
    by_cases hj : j = i
    · subst hj
      cases hself hf'
      refine ⟨0, ?_, ?_⟩
      · rw [Subdirs, hslot]
        refine Count.zero fun p e hp => ?_
        by_contra hP
        have heq : p.1 = j := by
          simp only [Bool.and_eq_true, beq_iff_eq, Bool.not_eq_false] at hP
          exact hP.1
        simp [slot, heq, hi] at hp
      · rw [(hdir hd).2.2, (hdir hd).1]
        simp [own]
    · obtain ⟨m, hm, hl⟩ := h.dirLinks j f' (create_file_ne hj ▸ hf') hd (create_core_ne hj ▸ hr)
      refine ⟨m, ?_, by rw [hafloat hj, hl]⟩
      rw [Subdirs, hslot]
      exact Count.congr hm fun p e hp => by rw [hisDir p e hp]
  case removed =>
    intro j hr
    have hj : j ≠ i := by
      rintro rfl
      simp [create_core_self] at hr
    obtain ⟨f', hf', hrest⟩ := h.removed j (create_core_ne hj ▸ hr)
    refine ⟨f', (create_file_ne hj).trans hf', ?_⟩
    rwa [Refs, hslot]
  case unlinked => grind [create_core_self, create_core_ne, create_file_ne, h.unlinked]
  case idle => grind [create_file_self, create_core_ne, create_file_ne, h.idle]
  case coded => grind [create_file_ne, h.coded]
  case root => simp [create_core_ne, create_file_ne, h.root, hroot.symm]
  case rooted =>
    by_cases hd : f.type = .dir
    · rw [(hdir hd).2.2]
      simpa using hroot
    · rw [(hfile hd).2]
      exact h.rooted

end Create

def retire (v : Vol) (i : Nat) : Vol := (v.modFile i .decLinks).setCore i { v.core i with removed := true }

lemma Wf.retire (h : v.Wf (some i)) (hf : v.file i = some f) (hdir : f.type = .dir) (hsize : f.size = 0)
    (href : (v.core i).refCount ≠ 0) (hr : (v.core i).removed = false) : (v.retire i).Wf none := by
  have hroot : i ≠ blknRoot := fun heq => h.rooted (congrArg some heq)
  have hrefs := h.refs_zero_of_afloat (isDir_iff.mpr ⟨f, hf, hdir⟩) hr
  have hslots := h.slots i f hf hdir
  rw [hsize] at hslots
  -- without entries only the link of `.` is left
  have hlinks : f.nlinks = 1 := by
    obtain ⟨m, hm, hl⟩ := h.dirLinks i f hf hdir hr
    have hm0 : m = 0 := by
      by_contra hne
      obtain ⟨p, e, hp, hP⟩ := Count.exists_of_pos hm (Nat.pos_of_ne_zero hne)
      have := Count.eq_false hslots hp
      simp_all
    simpa [own, hm0] using hl
  have hself : (v.retire i).file i = some f.decLinks := by simp [Vol.retire, hf]
  have hfile : ∀ {j}, j ≠ i → (v.retire i).file j = v.file j := modFile_file_ne _
  have hcself : (v.retire i).core i = { v.core i with removed := true } := setCore_core_self _
  have hcore : ∀ {j}, j ≠ i → (v.retire i).core j = v.core j := setCore_core_ne _
  have hslot : (v.retire i).slot = v.slot := by
    funext p
    obtain ⟨d, k⟩ := p
    by_cases hd : d = i
    · subst hd
      rw [slot_of_file hself, slot_of_file hf]
      rfl
    · simp [slot, hfile hd]
  have hisDir : (v.retire i).isDir = v.isDir := by
    funext j
    by_cases hj : j = i
    · subst hj
      rw [isDir_of_file hself, isDir_of_file hf]
      rfl
    · simp [isDir, hfile hj]
  have hown : ∀ {j}, j ≠ i → own none j = own (some i) j := by
    intro j hj
    simp [own, hj.symm]
  constructor
  case distinct =>
    rw [hslot]
    exact h.distinct
  case plain =>
    rw [hslot]
    exact h.plain
  case target =>
    intro p j n hp
    rw [hslot] at hp
    grind [h.target]
  case parent =>
    intro d k j n f' hp hf' hd
    rw [hslot] at hp
    grind [hrefs.not_target, h.parent]
  case slots =>
    intro d f' hf' hd
    rw [Slots, hslot]
    by_cases hj : d = i
    · subst hj
      cases hself.symm.trans hf'
      exact h.slots d f hf hdir
    · exact h.slots d f' (hfile hj ▸ hf') hd
  case fileRefs =>
    intro j f' hf' hd
    have hj : j ≠ i := by
      rintro rfl
      cases hself.symm.trans hf'
      exact hd hdir
    rw [Refs, hslot]
    exact h.fileRefs j f' (hfile hj ▸ hf') hd
  case dirRefs =>
    intro j f' hf' hd hr' hroot'
    have hj : j ≠ i := by
      rintro rfl
      simp [hcself] at hr'
    rw [Refs, hslot, hown hj]
    exact h.dirRefs j f' (hfile hj ▸ hf') hd (hcore hj ▸ hr') hroot'
  case dirLinks =>
    intro j f' hf' hd hr'
    have hj : j ≠ i := by
      rintro rfl
      simp [hcself] at hr'
    rw [hown hj]
    simp only [Subdirs, hslot, hisDir]
    exact h.dirLinks j f' (hfile hj ▸ hf') hd (hcore hj ▸ hr')
  case removed =>
    intro j hr'
    rw [Refs, hslot]
    by_cases hj : j = i
    · subst hj
      exact ⟨_, hself, hdir, by simp [File.decLinks, hlinks], hsize, hrefs⟩
    · obtain ⟨f', hf', hrest⟩ := h.removed j (hcore hj ▸ hr')
      exact ⟨f', (hfile hj).trans hf', hrest⟩
  case unlinked => grind [h.unlinked]
  case idle => grind [h.idle]
  case coded =>
    intro j f' k c hf' hd hc
    by_cases hj : j = i
    · subst hj
      cases hself.symm.trans hf'
      exact h.coded j f k c hf hdir hc
    · exact h.coded j f' k c (hfile hj ▸ hf') hd hc
  case root => grind [h.root]
  case rooted => exact by simp

end Vol

end Ucore.Fs
