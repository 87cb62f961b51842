import Ucore.Fs.Sfs.DirOk
import Ucore.Fs.Sfs.Tree

/-!
# Operations as changes of the tree

As long as no link count overflows, what an operation does to a volume is made of
`attach`, `detach`, `create` and `retire`.
-/

namespace Ucore.Fs

open Function

namespace Vol

variable {v w w' : Vol} {afloat : Option Nat} {G G' : Nat → File → File}

def MapOf (v w : Vol) (G : Nat → File → File) : Prop := ∀ j, w.file j = (v.file j).map (G j)

lemma MapOf.refl (v : Vol) : MapOf v v fun _ f => f := fun j => by simp

lemma MapOf.modFile (h : MapOf v w G) : MapOf v (w.modFile i g) fun j f => if j = i then g (G j f) else G j f := by
  intro j
  by_cases hj : j = i
  · subst hj
    rw [modFile_file_self, h, Option.map_map]
    simp [Function.comp_def]
  · rw [modFile_file_ne _ hj, h]
    simp [hj]

lemma MapOf.setCore (h : MapOf v w G) : MapOf v (w.setCore i c) G := h

lemma MapOf.eq (h : MapOf v w G) (h' : MapOf v w' G') (hG : ∀ j f, v.file j = some f → G j f = G' j f)
    (hc : w.core = w'.core) : w = w' := by
  refine Vol.ext (fun j => ?_) fun j => by rw [hc]
  rw [h, h']
  cases hf : v.file j with
  | none => rfl
  | some f => simp [hG j f hf]

lemma mapOf_attach : MapOf v (v.attach d k i n) (v.attachFile d k i n) := fun _ => rfl
lemma mapOf_detach : MapOf v (v.detach d k i) (v.detachFile d k i) := fun _ => rfl

lemma mapOf_linkIn : MapOf v (v.linkIn d k i n) fun j f =>
    if j = i then (if j = d then f.addEntry k i n else f).incLinks else if j = d then f.addEntry k i n else f :=
  (MapOf.refl v).modFile.modFile

lemma mapOf_linkOut : MapOf v (v.linkOut d k i) fun j f =>
    if j = i then (if j = d then f.dropEntry k else f).decLinks else if j = d then f.dropEntry k else f :=
  (MapOf.refl v).modFile.modFile

def Bounded (v : Vol) : Prop := ∀ i f, v.file i = some f → f.nlinks < 65536

lemma Bounded.attach_lt (h : (v.attach d k i n).Bounded) (hf : v.file j = some f) :
    f.nlinks + (if i = j then 1 else 0) + (if d = j ∧ v.isDir i = true then 1 else 0) < 65536 :=
  h j _ (attach_some hf)

lemma incLinks_eq {f : File} (h : f.nlinks + 1 < 65536) : f.incLinks = { f with nlinks := f.nlinks + 1 } := by
  rw [File.incLinks, Nat.mod_eq_of_lt h]

lemma linkIn_eq_attach (hb : (v.attach d k i n).Bounded) (hi : v.isDir i = false) (hd : v.isDir d = true) :
    v.linkIn d k i n = v.attach d k i n := by
  have hne : i ≠ d := fun heq => by simp [← heq, hi] at hd
  refine mapOf_linkIn.eq mapOf_attach (fun j f hf => ?_) rfl
  have hlt := hb.attach_lt hf
  by_cases hji : j = i
  · grind [incLinks_eq, attachFile]
  by_cases hjd : j = d
  · subst hjd
    simp [hji, Ne.symm hji, hi, attachFile, File.addEntry, File.put]
  · simp [hji, Ne.symm hji, hjd, Ne.symm hjd, attachFile]

lemma linkDir_eq_attach (hb : (v.attach d k i n).Bounded) (hi : v.isDir i = true) :
    ((v.linkIn d k i n).modFile d .incLinks).modFile i (.setParent d) = v.attach d k i n := by
  refine mapOf_linkIn.modFile.modFile.eq mapOf_attach (fun j f hf => ?_) rfl
  have hlt := hb.attach_lt hf
  by_cases hji : j = i
  · subst hji
    by_cases hjd : j = d
    · subst hjd
      simp only [↓reduceIte, hi, and_self] at hlt
      have h1 : (f.addEntry k j n).nlinks + 1 < 65536 := Nat.lt_of_succ_lt hlt
      have h2 : { f.addEntry k j n with nlinks := (f.addEntry k j n).nlinks + 1 }.nlinks + 1 < 65536 := hlt
      simp only [↓reduceIte, hi, and_self, attachFile, incLinks_eq h1, incLinks_eq h2]
      rfl
    · grind [File.setParent, incLinks_eq, attachFile]
  by_cases hjd : j = d
  · subst hjd
    simp only [Ne.symm hji, ↓reduceIte, hi, and_self, Nat.add_zero] at hlt
    have hlt' : (f.addEntry k i n).nlinks + 1 < 65536 := hlt
    simp only [hji, Ne.symm hji, ↓reduceIte, hi, and_self, attachFile, incLinks_eq hlt', false_and]
    rfl
  · simp [hji, Ne.symm hji, hjd, Ne.symm hjd, attachFile]

lemma mkdir_eq (hb : ((v.create i { File.new .dir with nlinks := 1 }).attach d k i n).Bounded)
    (hi : v.file i = none) (hd : v.isDir d = true) :
    v.mkdir d k i n = ((v.create i { File.new .dir with nlinks := 1 }).attach d k i n).unref i := by
  have hne : i ≠ d := by
    rintro rfl
    simp [isDir, hi] at hd
  have hiDir : (v.create i { File.new .dir with nlinks := 1 }).isDir i = true := by
    simp [isDir, create_file_self, File.new]
  rw [mkdir]
  congr 1
  refine Vol.ext (fun j => ?_) fun j => rfl
  rw [mapOf_linkIn.modFile.modFile.modFile j, mapOf_attach j]
  by_cases hji : j = i
  · subst hji
    simp only [create_file_self, Option.map_some, ↓reduceIte, hne, hiDir, hne.symm, attachFile, false_and]
    rfl
  rw [create_file_ne hji, create_file_ne hji]
  cases hf : v.file j with
  | none => rfl
  | some f =>
    have hlt := hb.attach_lt (j := j) (f := f) (by rw [create_file_ne hji, hf])
    by_cases hjd : j = d
    · subst hjd
      simp only [Ne.symm hji, ↓reduceIte, hiDir, and_self, Nat.add_zero] at hlt
      have hlt' : (f.addEntry k i n).nlinks + 1 < 65536 := hlt
      simp only [Option.map_some, hji, ↓reduceIte, incLinks_eq hlt', attachFile, hiDir, Ne.symm hji, and_self, false_and]
      rfl
    · simp [hji, Ne.symm hji, hjd, Ne.symm hjd, attachFile]

lemma linkOut_eq_detach (hi : v.isDir i = false) (hd : v.isDir d = true) : v.linkOut d k i = v.detach d k i := by
  have hne : i ≠ d := fun heq => by simp [← heq, hi] at hd
  refine mapOf_linkOut.eq mapOf_detach (fun j f hf => ?_) rfl
  by_cases hji : j = i
  · subst hji
    simp [hne, hne.symm, hi, detachFile, File.decLinks]
  by_cases hjd : j = d
  · subst hjd
    simp [hji, Ne.symm hji, hi, detachFile, File.dropEntry, File.put]
  · simp [hji, Ne.symm hji, hjd, Ne.symm hjd, detachFile]

lemma linkOutDir_eq_detach (hi : v.isDir i = true) : (v.linkOut d k i).modFile d .decLinks = v.detach d k i := by
  refine mapOf_linkOut.modFile.eq mapOf_detach (fun j f hf => ?_) rfl
  by_cases hji : j = i
  · subst hji
    by_cases hjd : j = d
    · subst hjd
      simp [hi, detachFile, File.decLinks, File.dropEntry, File.put]
    · simp [hjd, Ne.symm hjd, detachFile, File.decLinks]
  by_cases hjd : j = d
  · subst hjd
    simp [hji, Ne.symm hji, hi, detachFile, File.dropEntry, File.put, File.decLinks]
  · simp [hji, Ne.symm hji, hjd, Ne.symm hjd, detachFile]

lemma retire_eq (hi : v.isDir i = true) (hne : i ≠ d) :
    (((v.linkOut d k i).setCore i { v.core i with removed := true }).modFile i .decLinks).modFile d .decLinks =
      (v.detach d k i).retire i := by
  rw [← linkOutDir_eq_detach hi]
  refine mapOf_linkOut.setCore.modFile.modFile.eq mapOf_linkOut.modFile.modFile.setCore (fun j f hf => ?_) rfl
  grind

structure HasEntry (v : Vol) (d k i : Nat) (n : Name) (dir : Bool) : Prop where
  leaf : ∀ f, v.file d = some f → f.leaf k = some (.ofEntry i n) ∧ k < f.blocks ∧ f.size ≠ 0
  links : ∀ j f, v.file j = some f → (if i = j then 1 else 0) + (if d = j ∧ dir = true then 1 else 0) ≤ f.nlinks

lemma Wf.hasEntry (h : v.Wf afloat) (hd : v.file d = some f) (hdense : f.Dense) (hs : v.slot (d, k) = some (i, n))
    (hafloat : v.isDir i = true → afloat = none) : v.HasEntry d k i n (v.isDir i) where
  leaf f' hf' := by
    cases hd.symm.trans hf'
    have hdir : f.type = .dir := of_decide_eq_true (isDir_of_file hd ▸ isDir_of_slot hs)
    rw [slot_of_file hd, File.live, if_pos hdir] at hs
    cases hc : f.leaf k with
    | none => simp [hc] at hs
    | some c =>
      obtain ⟨j, m, rfl⟩ := h.coded d f k c hd hdir hc
      rw [hc, Option.bind_some] at hs
      refine ⟨?_, (hdense k).mp (by simp [hc]), ?_⟩
      · by_cases hj : j = 0
        · simp [hj] at hs
        rw [Content.live_ofEntry hj] at hs
        cases hs
        rfl
      · intro h0
        have hslots := h.slots d f hd hdir
        rw [h0] at hslots
        have hlive : v.slot (d, k) = some (i, n) := by
          rw [slot_of_file hd, File.live, if_pos hdir, hc, Option.bind_some, hs]
        simpa using Lib.Count.eq_false hslots hlive
  links j f' hf' := by
    have hrem := h.not_removed_of_slot hs
    have hirem := h.target_not_removed hs
    by_cases hdir : f'.type = .dir
    · have hjdir : v.isDir j = true := isDir_iff.mpr ⟨f', hf', hdir⟩
      cases hr : (v.core j).removed with
      | true =>
        have hij : i ≠ j := fun heq => by simp [← heq, hirem] at hr
        have hdj : d ≠ j := fun heq => by simp [← heq, hrem] at hr
        simp [hij, hdj]
      | false =>
        obtain ⟨m, hm, hl⟩ := h.dirLinks j f' hf' hdir hr
        have hpos : d = j ∧ v.isDir i = true → 0 < m := fun hc => Lib.Count.pos hm hs (by simp [hc.1, hc.2])
        have hown : i = j → own afloat j = 1 := by
          rintro rfl
          simp [own, hafloat hjdir]
        rw [hl]
        by_cases h1 : i = j <;> by_cases h2 : d = j ∧ v.isDir i = true
        · have := hown h1
          have := hpos h2
          rw [if_pos h1, if_pos h2]
          omega
        · rw [if_pos h1, if_neg h2]
          omega
        · rw [if_neg h1, if_pos h2]
          omega
        · rw [if_neg h1, if_neg h2]
          omega
    · have hdj : d ≠ j := by
        rintro rfl
        cases hd.symm.trans hf'
        exact hdir (of_decide_eq_true (isDir_of_file hd ▸ isDir_of_slot hs))
      have hrefs := h.fileRefs j f' hf' hdir
      rw [if_neg (show ¬ (d = j ∧ _) from fun hc => hdj hc.1)]
      by_cases hij : i = j
      · have := Lib.Count.pos hrefs hs (by simp [hij])
        rw [if_pos hij]
        omega
      · simp [hij]

section

variable (h : v.HasEntry d k i n (v.isDir i))
  (hparent : v.isDir i = true → ∀ f, v.file i = some f → f.parent = d)
include h hparent

lemma HasEntry.reattach :
    (v.detach d k i).attach d k i m = v.modFile d (.put k (.ofEntry i m)) := by
  have hmap : MapOf v ((v.detach d k i).attach d k i m) fun j f =>
      (v.detach d k i).attachFile d k i m j (v.detachFile d k i j f) := by
    intro j
    rw [mapOf_attach j, mapOf_detach j, Option.map_map]
    rfl
  refine hmap.eq (MapOf.refl v).modFile (fun j f hf => ?_) rfl
  have hlinks := h.links j f hf
  by_cases hjd : j = d
  · subst hjd
    obtain ⟨-, -, hsize⟩ := h.leaf f hf
    simp only [true_and] at hlinks
    simp only [attachFile, detachFile, detach_isDir, ↓reduceIte, File.put, true_and]
    refine File.ext rfl ?_ ?_ ?_ ?_ ?_
    · dsimp only
      omega
    · dsimp only
      split
      · rename_i hc
        exact (hparent hc.2 f (hc.1 ▸ hf)).symm
      · rfl
    · dsimp only
      omega
    · dsimp only
      omega
    · simp
  · simp only [attachFile, detachFile, detach_isDir, hjd, Ne.symm hjd, ↓reduceIte, false_and]
    refine File.ext rfl ?_ ?_ rfl rfl rfl
    · dsimp only
      omega
    dsimp only
    split
    · rename_i hc
      exact (hparent hc.2 f (hc.1 ▸ hf)).symm
    · rfl

lemma HasEntry.relink : (v.detach d k i).attach d k i n = v := by
  rw [h.reattach hparent]
  refine (MapOf.refl v).modFile.eq (MapOf.refl v) (fun j f hf => ?_) rfl
  by_cases hjd : j = d
  · subst hjd
    obtain ⟨hleaf, hk, -⟩ := h.leaf f hf
    simp only [↓reduceIte, File.put]
    refine File.ext rfl rfl rfl rfl ?_ ?_
    · dsimp only
      omega
    · dsimp only
      rw [← hleaf, Function.update_eq_self]
  · simp [hjd]

end

end Vol

end Ucore.Fs
