import Ucore.Fs.RunOk

/-!
# The tree of directories in every run

As long as no directory is moved below itself, the entries make a tree.
-/

namespace Ucore.Fs

open Lib (Reachable endsIn endsIn_iff)

namespace Vol

variable {v : Vol} {held : Multiset Nat} {pinned : Bool}

inductive Chain (v : Vol) : List (Nat × Nat) → Nat → Prop
  | root : Chain v [] blknRoot
  | step : Chain v path d → v.slot (d, k) = some (i, n) → Chain v ((d, k) :: path) i

lemma Below.chain (h : v.Below blknRoot i) : ∃ path, v.Chain path i := by
  induction h with
  | self => exact ⟨[], .root⟩
  | step _ he ih =>
    obtain ⟨path, hpath⟩ := ih
    obtain ⟨-, k, n, hs⟩ := he
    exact ⟨_, .step hpath hs⟩

lemma Chain.unique (hwf : v.Wf none) (h : v.Chain path i) (hdir : v.isDir i = true)
    (h' : v.Chain path' i) : path = path' := by
  induction h generalizing path' with
  | root =>
    cases h' with
    | root => rfl
    | step _ hs => exact absurd rfl (hwf.target _ _ _ hs).1
  | @step path d k i n _ hs ih =>
    cases h' with
    | root => exact absurd rfl (hwf.target _ _ _ hs).1
    | step h' hs' =>
      obtain ⟨f, hf, htype⟩ := isDir_iff.mp hdir
      have hrefs := hwf.dirRefs i f hf htype (hwf.target_not_removed hs) (hwf.target _ _ _ hs).1
      cases hrefs.unique hs (by simp) hs' (by simp)
      rw [ih (isDir_of_slot hs) h']

lemma Chain.not_self (hwf : v.Wf none) (hdir : v.isDir i = true)
    (hself : v.slot (i, k) = some (i, n)) : ¬ v.Chain path i := by
  intro h
  obtain ⟨f, hf, htype⟩ := isDir_iff.mp hdir
  have hroot := (hwf.target _ _ _ hself).1
  have hrefs := hwf.dirRefs i f hf htype (hwf.target_not_removed hself) hroot
  induction path with
  | nil =>
    cases h
    exact hroot rfl
  | cons p path ih =>
    cases h with
    | step h hs =>
      cases hrefs.unique hs (by simp) hself (by simp)
      exact ih h

/-- Every directory that has not been removed is reachable from the root by
exactly one chain of entries, and its parent is the directory with its entry. -/
structure Tree (v : Vol) : Prop where
  chain : ∀ i, v.isDir i = true → (v.core i).removed = false → ∃! path, v.Chain path i
  parent : ∀ d k i n f, v.slot (d, k) = some (i, n) → v.file i = some f → f.type = .dir → f.parent = d

lemma Ok.tree (h : v.Ok held pinned true) : v.Tree where
  chain i hi hr := by
    obtain ⟨path, hpath⟩ := (h.rooted rfl i hi hr).chain
    exact ⟨path, hpath, fun path' h' => h'.unique h.wf hi hpath⟩
  parent := h.wf.parent

end Vol

namespace World

/-- In every run without a rename of a directory below itself. -/
theorem reached_tree (hr : Reached pinned true w) : w.fs.vol.Tree := hr.mounted.good.ok.tree

theorem reached_tree_mkdir :
    ∃ w, (boot 100 false).step (.mkdir blknRoot [['a']]) = .ok w ∧ w.fs.vol.isDir 3 = true ∧ w.fs.vol.Tree := by
  have hm : (boot 100 false).Mounted false true := boot_mounted (by decide)
  have hc : Call.Careful true (boot 100 false) (.mkdir blknRoot [['a']]) :=
    Call.Checked.careful hm.good (by decide) rfl (by decide) fun _ => trivial
  obtain ⟨w, hs, hdir⟩ := endsIn_iff.mp (by decide +kernel :
    endsIn ((boot 100 false).step (.mkdir blknRoot [['a']])) (fun w => w.fs.vol.isDir 3) = true)
  exact ⟨w, hs, hdir, reached_tree (.step (.init hm) hc hs)⟩

/-- `rename("/a", "/a/b")`: the directory cannot be reached any more. -/
theorem rename_below_itself : ∃ w, Reachable step (fun w c => c.Fits w) (· = boot 100 false) w ∧
    w.fs.vol.isDir 3 = true ∧ (w.fs.vol.core 3).removed = false ∧ ¬ ∃ path, w.fs.vol.Chain path 3 := by
  have hrun : ∃ w, Reachable step (fun w c => c.Fits w ∧ c.Checked w = true) (· = boot 100 false) w ∧
      w.fs.vol.isDir 3 = true ∧ (w.fs.vol.core 3).removed = false ∧ w.fs.vol.slot (3, 0) = some (3, ['b']) :=
    Reachable.exists_of_run [.mkdir blknRoot [['a']], .rename blknRoot [['a']] blknRoot [['a'], ['b']]] rfl
      (by decide +kernel)
  obtain ⟨w, hr, hdir, hrem, hslot⟩ := hrun
  have hwf := (checked_mounted (by decide) (by decide) hr).good.ok.wf
  exact ⟨w, hr.mono fun _ _ => And.left, hdir, hrem, fun ⟨_, hpath⟩ => hpath.not_self hwf hdir hslot⟩

end World

end Ucore.Fs
