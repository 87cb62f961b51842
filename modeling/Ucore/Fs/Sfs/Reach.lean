import Ucore.Fs.Sfs.Tree

/-!
# Paths from the root

Every directory can be reached from the root as long as none is moved below itself.
-/

namespace Ucore.Fs

open Function
open Lib (Count)

namespace Vol

variable {v w : Vol} {afloat : Option Nat}

def Edge (v : Vol) (d j : Nat) : Prop := v.isDir j = true ∧ ∃ k n, v.slot (d, k) = some (j, n)

inductive Below (v : Vol) (i : Nat) : Nat → Prop
  | self : Below v i i
  | step : Below v i d → v.Edge d j → Below v i j

lemma Below.mono (h : v.Below i j) (hw : ∀ a b, v.Edge a b → w.Edge a b) : w.Below i j := by
  induction h with
  | self => exact .self
  | step _ he ih => exact .step ih (hw _ _ he)

def Rooted (v : Vol) : Prop := ∀ i, v.isDir i = true → (v.core i).removed = false → v.Below blknRoot i

section

variable (h : v.Rooted)
include h

lemma Rooted.mono (hw : ∀ a b, v.Edge a b → w.Edge a b) (hdir : ∀ i, w.isDir i = true → (w.core i).removed = false →
    v.isDir i = true ∧ (v.core i).removed = false ∨ w.Below blknRoot i) : w.Rooted := by
  intro i hi hr
  rcases hdir i hi hr with ⟨hi', hr'⟩ | h'
  · exact (h i hi' hr').mono hw
  · exact h'

omit h in
lemma edge_update (hslot : w.slot = update v.slot (d, k) e) (hisDir : w.isDir = v.isDir)
    (hk : ∀ j n, v.slot (d, k) = some (j, n) → v.isDir j = false) (he : v.Edge a b) : w.Edge a b := by
  obtain ⟨hb, k', n, hs⟩ := he
  refine ⟨hisDir ▸ hb, k', n, ?_⟩
  rw [hslot, update_of_ne]
  · exact hs
  · intro heq
    rw [heq] at hs
    simp [hk b n hs] at hb

lemma Rooted.attach (hd : v.isDir d = true) (hi0 : i ≠ 0) (hk : v.slot (d, k) = none) : (v.attach d k i n).Rooted :=
  h.mono (fun _ _ => edge_update (attach_slot hd hi0) attach_isDir (by simp [hk])) fun j hj hr =>
    .inl ⟨attach_isDir ▸ hj, hr⟩

lemma Rooted.detach (hd : v.isDir d = true) (hs : v.slot (d, k) = some (i, n))
    (hi : v.isDir i = false) : (v.detach d k i).Rooted :=
  h.mono (fun _ _ => edge_update (detach_slot hd) detach_isDir (by rw [hs]; rintro j m ⟨⟩; exact hi)) fun j hj hr =>
    .inl ⟨detach_isDir ▸ hj, hr⟩

omit h in
lemma Edge.same (hs : SameTree v w) : w.Edge a b ↔ v.Edge a b := by
  rw [Edge, Edge, hs.slot, hs.isDir]

lemma Rooted.same (hs : SameTree v w) : w.Rooted :=
  h.mono (fun _ _ => (Edge.same hs).mpr) fun j hj hr => .inl ⟨hs.isDir ▸ hj, hs.removed j ▸ hr⟩

lemma Rooted.delete (hwf : v.Wf afloat) (hf : v.file i = some f) (hl : f.nlinks = 0) :
    ((v.setFile i none).setCore i .idle).Rooted := by
  obtain ⟨hrefs, hnone, -⟩ := hwf.slot_of_unlinked hf hl
  have hne : ∀ {j}, ((v.setFile i none).setCore i .idle).isDir j = true → j ≠ i := by
    rintro j hj rfl
    simp [isDir] at hj
  refine h.mono (fun a b he => ?_) fun j hj hr => .inl ?_
  · obtain ⟨hb, k, n, hs⟩ := he
    have hbi : b ≠ i := by
      rintro rfl
      exact hrefs.not_target hs
    have hai : a ≠ i := by
      rintro rfl
      simp [hnone k] at hs
    refine ⟨?_, k, n, ?_⟩
    · simpa [isDir, setFile_file_ne _ hbi] using hb
    · simpa [slot, setFile_file_ne _ hai] using hs
  · have hji := hne hj
    refine ⟨?_, ?_⟩
    · simpa [isDir, setFile_file_ne _ hji] using hj
    · simpa [setCore_core_ne _ hji] using hr

lemma Rooted.unref (hwf : v.Wf afloat) (hf : v.file i = some f) : (v.unref i).Rooted := by
  unfold Vol.unref
  split
  · grind [h.delete]
  · exact h.same (sameTree_setCore rfl)

lemma Rooted.create (hwf : v.Wf afloat) (hi : v.file i = none) (hleaf : ∀ k, f.leaf k = none)
    (hf : f.type ≠ .dir) : (v.create i f).Rooted := by
  have hslot : (v.create i f).slot = v.slot := create_slot hi fun k => by simp [File.live, hleaf]
  refine h.mono (fun a b he => ?_) fun j hj hr => .inl ?_
  · obtain ⟨hb, k, n, hs⟩ := he
    have hbi : b ≠ i := by
      rintro rfl
      exact (hwf.refs_of_none hi).not_target hs
    refine ⟨?_, k, n, hslot ▸ hs⟩
    simpa [isDir, create_file_ne hbi] using hb
  · grind [create_file_self, create_core_ne, create_file_ne, isDir]

lemma Rooted.mkdir (hwf : v.Wf none) (hi : v.file i = none) (hi0 : i ≠ 0)
    (hleaf : ∀ k, f.leaf k = none) (hd : v.isDir d = true)
    (hrem : (v.core d).removed = false) (hk : v.slot (d, k) = none) : ((v.create i f).attach d k i n).Rooted := by
  have hslot : (v.create i f).slot = v.slot := create_slot hi fun k => by simp [File.live, hleaf]
  have hne : d ≠ i := by
    rintro rfl
    simp [isDir, hi] at hd
  have hd' : (v.create i f).isDir d = true := by simpa [isDir, create_file_ne hne] using hd
  have hedge : ∀ a b, v.Edge a b → ((v.create i f).attach d k i n).Edge a b := by
    intro a b he
    refine edge_update (attach_slot hd' hi0) attach_isDir (by simp [hslot, hk]) ?_
    obtain ⟨hb, k', m, hs⟩ := he
    have hbi : b ≠ i := by
      rintro rfl
      exact (hwf.refs_of_none hi).not_target hs
    exact ⟨by simpa [isDir, create_file_ne hbi] using hb, k', m, hslot ▸ hs⟩
  refine h.mono hedge fun j hj hr => ?_
  rw [attach_isDir] at hj
  by_cases hji : j = i
  · subst hji
    refine .inr (.step ((h d hd hrem).mono hedge) ⟨by rw [attach_isDir]; exact hj, k, n, ?_⟩)
    rw [attach_slot hd' hi0, update_self]
  · refine .inl ⟨?_, ?_⟩
    · simpa [isDir, create_file_ne hji] using hj
    · simpa [create_core_ne hji] using hr

section

variable (hs : v.slot (d, k) = some (i, n))
include hs

lemma Rooted.move (hi0 : i ≠ 0) (hi : v.isDir i = true)
    (hd' : v.isDir d' = true) (hrem' : (v.core d').removed = false) (hk' : v.slot (d', k') = none)
    (hbelow : ¬ v.Below i d') : ((v.detach d k i).attach d' k' i m).Rooted := by
  have hd := isDir_of_slot hs
  have hdet := detach_slot (v := v) (k := k) (i := i) hd
  have hatt : ((v.detach d k i).attach d' k' i m).slot = update (update v.slot (d, k) none) (d', k') (some (i, m)) := by
    rw [attach_slot (by rw [detach_isDir]; exact hd') hi0, hdet]
  have hisDir : ((v.detach d k i).attach d' k' i m).isDir = v.isDir := by rw [attach_isDir, detach_isDir]
  -- entries of other directories stay where they are
  have hedge : ∀ a b, b ≠ i → v.Edge a b → ((v.detach d k i).attach d' k' i m).Edge a b := by
    rintro a b hbi ⟨hb, k2, n2, hs2⟩
    refine ⟨hisDir ▸ hb, k2, n2, ?_⟩
    have h1 : (a, k2) ≠ (d', k') := fun heq => by simp [heq, hk'] at hs2
    have h2 : (a, k2) ≠ (d, k) := by
      intro heq
      rw [heq, hs] at hs2
      exact hbi (congrArg Prod.fst (Option.some.inj hs2)).symm
    rw [hatt, update_of_ne h1, update_of_ne h2, hs2]
  have hout : ∀ j, v.Below blknRoot j → ¬ v.Below i j → ((v.detach d k i).attach d' k' i m).Below blknRoot j := by
    intro j hj
    induction hj with
    | self => exact fun _ => .self
    | step _ he ih =>
      intro hnot
      refine .step (ih fun hb => hnot (.step hb he)) (hedge _ _ ?_ he)
      rintro rfl
      exact hnot .self
  have hself : ((v.detach d k i).attach d' k' i m).Below blknRoot i := by
    refine .step (hout d' (h d' hd' hrem') hbelow) ⟨hisDir ▸ hi, k', m, ?_⟩
    rw [hatt, update_self]
  have hin : ∀ j, v.Below i j → ((v.detach d k i).attach d' k' i m).Below blknRoot j := by
    intro j hj
    induction hj with
    | self => exact hself
    | @step _ b _ he ih =>
      by_cases hbi : b = i
      · exact hbi ▸ hself
      · exact .step ih (hedge _ _ hbi he)
  intro j hj hr
  rw [hisDir] at hj
  by_cases hb : v.Below i j
  · exact hin j hb
  · exact hout j (h j hj hr) hb

lemma Rooted.rename (hisDir : w.isDir = v.isDir)
    (hslot : w.slot = update v.slot (d, k) (some (i, m))) (hcore : w.core = v.core) : w.Rooted := by
  refine h.mono (fun a b he => ?_) fun j hj hr => .inl ⟨hisDir ▸ hj, hcore ▸ hr⟩
  obtain ⟨hb, k', n', hs'⟩ := he
  by_cases hk : (a, k') = (d, k)
  · rw [hk, hs] at hs'
    cases hs'
    cases hk
    exact ⟨hisDir ▸ hb, k, m, by rw [hslot, update_self]⟩
  · exact ⟨hisDir ▸ hb, k', n', by rw [hslot, update_of_ne hk, hs']⟩

lemma Rooted.retire (hempty : ∀ k, v.slot (i, k) = none) (hroot : i ≠ blknRoot) : ((v.detach d k i).retire i).Rooted := by
  have hd := isDir_of_slot hs
  have hfile : ∀ {j}, j ≠ i → ((v.detach d k i).retire i).file j = (v.detach d k i).file j := modFile_file_ne _
  have hisDir : ∀ {j}, j ≠ i → ((v.detach d k i).retire i).isDir j = v.isDir j := by
    intro j hj
    rw [← detach_isDir (v := v) (d := d) (k := k) (i := i)]
    simp only [isDir, hfile hj]
  have hedge : ∀ {a b}, b ≠ i → v.Edge a b → ((v.detach d k i).retire i).Edge a b := by
    rintro a b hbi ⟨hb, k', n', hs'⟩
    have hai : a ≠ i := by
      rintro rfl
      simp [hempty k'] at hs'
    have hne : (a, k') ≠ (d, k) := by
      intro heq
      rw [heq, hs] at hs'
      exact hbi (congrArg Prod.fst (Option.some.inj hs')).symm
    refine ⟨(hisDir hbi).trans hb, k', n', ?_⟩
    have hslot : ((v.detach d k i).retire i).slot (a, k') = (v.detach d k i).slot (a, k') := by
      simp only [slot, hfile hai]
    rw [hslot, detach_slot hd, update_of_ne hne, hs']
  have hall : ∀ j, v.Below blknRoot j → j ≠ i → ((v.detach d k i).retire i).Below blknRoot j := by
    intro j hj
    induction hj with
    | self => exact fun _ => .self
    | @step a b _ he ih =>
      intro hbi
      refine .step (ih ?_) (hedge hbi he)
      rintro rfl
      obtain ⟨-, k', n', hs'⟩ := he
      simp [hempty k'] at hs'
  intro j hj hr
  have hji : j ≠ i := by
    rintro rfl
    simp [Vol.retire] at hr
  refine hall j (h j (hisDir hji ▸ hj) ?_) hji
  simpa [Vol.retire, setCore_core_ne _ hji] using hr

end

end

end Vol

end Ucore.Fs
