import Ucore.Fs.RunOk

/-!
# Names and links in every run
-/

namespace Ucore.Fs

open Lib (Reachable)

lemma Vol.Wf.live_of_slot {v : Vol} (h : v.Wf none) (hs : v.slot p = some (i, n)) : v.Live i := by
  obtain ⟨-, f, hf⟩ := h.target p i n hs
  refine ⟨f, hf, fun hzero => ?_⟩
  by_cases hdir : f.type = .dir
  · obtain ⟨m, -, hm⟩ := h.dirLinks i f hf hdir (h.target_not_removed hs)
    omega
  · have hpos := (h.fileRefs i f hf hdir).pos hs (by simp)
    omega

namespace World

variable {w : World} {pinned tree : Bool}

lemma exists_made : ∃ w, Reached false false w ∧ w.fs.vol.slot (blknRoot, 0) = some (3, ['a']) := by
  obtain ⟨w, hr, hp⟩ : ∃ w, Reachable step (fun w c => c.Fits w ∧ c.Checked w = true) (· = boot 100 false) w ∧
      w.fs.vol.slot (blknRoot, 0) = some (3, ['a']) :=
    Reachable.exists_of_run [.mkdir blknRoot [['a']]] rfl (by decide +kernel)
  exact ⟨w, .init (checked_mounted (by decide) (by decide) hr), hp⟩

/-- The names in a directory differ, and a call on names changes only the entries it
names, or nothing when it fails. -/
theorem names_kept (hr : Reached pinned tree w) :
    (∀ d k k' i i' n, w.fs.vol.slot (d, k) = some (i, n) → w.fs.vol.slot (d, k') = some (i', n) → k = k') ∧
    (∀ p i n, w.fs.vol.slot p = some (i, n) → n ≠ dot ∧ n ≠ dotdot ∧ n.length ≤ maxFnameLen) ∧
    (∀ d f, w.fs.vol.file d = some f → f.type = .dir → w.fs.vol.Slots d f.size) ∧
    ∀ c r, c.Careful tree w → w.call c = .ok r → Vol.SameBut (c.Names w) w.fs.vol r.2.fs.vol ∧
    (c.onNames = true → r.1 ≠ none → r.2.fs.vol = w.fs.vol) := by
  have hgood := hr.mounted.good
  refine ⟨hgood.ok.wf.distinct, hgood.ok.wf.plain, hgood.ok.wf.slots, fun c r hc hcall => ?_⟩
  have hdone := Done.of_call hgood hc hcall
  exact ⟨hdone.frame, hdone.atomic⟩

theorem names_kept_mkdir : ∃ w : World, w.fs.vol.slot (blknRoot, 0) = some (3, ['a']) ∧
    ∀ k i, w.fs.vol.slot (blknRoot, k) = some (i, ['a']) → k = 0 := by
  obtain ⟨w, hr, hs⟩ := exists_made
  exact ⟨w, hs, fun k i hk => (names_kept hr).1 _ _ _ _ _ _ hk hs⟩

/-- A file has as many links as there are entries for it, a directory one for its
entry, one for `.` and one for each directory in it. The root has no entry, and what an
entry refers to is there. -/
theorem links_counted (hr : Reached pinned tree w) :
    (∀ i f, w.fs.vol.file i = some f → f.type ≠ .dir → w.fs.vol.Refs i f.nlinks) ∧
    (∀ i f, w.fs.vol.file i = some f → f.type = .dir → (w.fs.vol.core i).removed = false →
      (i ≠ blknRoot → w.fs.vol.Refs i 1) ∧ ∃ n, w.fs.vol.Subdirs i n ∧ f.nlinks = n + 2) ∧
    w.fs.vol.Refs blknRoot 0 ∧
    ∀ p i n, w.fs.vol.slot p = some (i, n) → w.fs.used i = true ∧ w.fs.vol.Live i := by
  have hgood := hr.mounted.good
  have hwf := hgood.ok.wf
  have hroot : w.fs.vol.Refs blknRoot 0 := Lib.Count.zero fun p e hs => by simpa using (hwf.target p e.1 e.2 hs).1
  refine ⟨hwf.fileRefs, fun i f hf hdir hrem => ⟨hwf.dirRefs i f hf hdir hrem, hwf.dirLinks i f hf hdir hrem⟩,
    hroot, ?_⟩
  intro p i n hs
  obtain ⟨f, hf, hl⟩ := hwf.live_of_slot hs
  refine ⟨?_, f, hf, hl⟩
  obtain ⟨d, hd, -⟩ := Sfs.din_of_file hf
  cases hx : w.fs.node i with
  | some x => exact hgood.inv.cached i x hx
  | none =>
    -- it is read from the device, where only blocks in use hold inodes
    by_contra hu
    rw [Sfs.din_unused hx (by simpa using hu)] at hd
    cases hd

theorem links_counted_mkdir : ∃ w : World, w.fs.vol.slot (blknRoot, 0) = some (3, ['a']) ∧ w.fs.used 3 = true ∧
    w.fs.vol.Refs blknRoot 0 := by
  obtain ⟨w, hr, hs⟩ := exists_made
  obtain ⟨-, -, hroot, hslot⟩ := links_counted hr
  exact ⟨w, hs, (hslot _ _ _ hs).1, hroot⟩

end World

end Ucore.Fs
