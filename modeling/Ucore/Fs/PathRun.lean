import Ucore.Fs.LookupRun
import Ucore.Fs.NamesRun

/-!
# Lookups keep their balance and compose
-/

namespace Ucore.Fs.Vfs

open Lib.Cmd

variable {s s1 : Sfs} {held : Multiset Nat} {tree : Bool} {path p q : List Char}

section

variable (h : Sfs.Good held tree s) (hi : i ∈ held) (hlive : s.vol.Live i)
include h hi hlive

lemma sfsLookupChars_cases (hp : Relative path) :
    (∃ j s', sfsLookupChars i path s = .ok (.ok j, s') ∧ Sfs.Good (j ::ₘ held) tree s' ∧ Sfs.Quiet s s' ∧
    s.vol.walk i (names path) = .ok j) ∨
    ∃ e s', sfsLookupChars i path s = .ok (.error e, s') ∧ Sfs.Good held tree s' ∧ Sfs.Quiet s s' ∧
    s.vol.walk i (names path) = .error e := by
  have hs : Sat (fun _ => False) (sfsLookup i (split path)) s _ _ := Sfs.sfsLookup_good h hi (h.ok.sure_of_live hlive)
  rw [sfsLookupChars_eq hp, ← components_eq_names hp (Nat.lt_succ_self _)]
  obtain ⟨j, s', hx, hg, hq, hw, -⟩ | ⟨e, s', hx, hf, hw⟩ := hs.exists_ok
  · exact .inl ⟨j, s', hx, hg, hq, hw⟩
  · exact .inr ⟨e, s', hx, hf.good, hf.quiet, hw⟩

/-- A lookup leaves one reference, to what it returns, and none when it fails. -/
theorem lookups_balanced (hp : Relative path) :
    (∃ r s', sfsLookupChars i path s = .ok (r, s') ∧ s'.vol.file = s.vol.file ∧
    ∀ x, (s'.vol.core x).refCount = (s.vol.core x).refCount + if r.toOption = some x then 1 else 0) ∧
    ∃ r s', sfsLookupParentChars i path s = .ok (r, s') ∧ s'.vol.file = s.vol.file ∧
    ∀ x, (s'.vol.core x).refCount = (s.vol.core x).refCount + if r.toOption.map Prod.fst = some x then 1 else 0 := by
  have hup {j : Nat} {s' : Sfs} (h' : Sfs.Good (j ::ₘ held) tree s') (x : Nat) :
      (s'.vol.core x).refCount = (s.vol.core x).refCount + if some j = some x then 1 else 0 := by
    rw [h.ok.refs, h'.ok.refs, Multiset.count_cons]
    simp [eq_comm]
  have hsame {s' : Sfs} (h' : Sfs.Good held tree s') (x : Nat) : (s'.vol.core x).refCount = (s.vol.core x).refCount := by
    rw [h.ok.refs, h'.ok.refs]
  obtain ⟨name, rest, hc⟩ := components_cons (Nat.succ_pos _) path
  have hs : Sat (fun _ => False) (sfsLookupParent i name rest) s _ _ :=
    Sfs.sfsLookupParent_good h hi (h.ok.sure_of_live hlive)
  constructor
  · obtain ⟨j, s', hx, hg, hq, -⟩ | ⟨e, s', hx, hg, hq, -⟩ := sfsLookupChars_cases h hi hlive hp
    · exact ⟨_, s', hx, hq.same.file, hup hg⟩
    · exact ⟨_, s', hx, hq.same.file, hsame hg⟩
  · rw [sfsLookupParentChars_eq hp hc]
    obtain ⟨r, s', hx, hg, hq, -⟩ | ⟨e, s', hx, hf, -⟩ := hs.exists_ok
    · exact ⟨_, s', hx, hq.same.file, hup hg⟩
    · exact ⟨_, s', hx, hf.quiet.same.file, hsame hf.good⟩

end

/-- The lookup of `/a/b` leaves a reference to `b`, and to nothing else. -/
theorem lookups_balanced_names : ∃ (w : World) (s' : Sfs), sfsLookupChars blknRoot walked w.fs = .ok (.ok 5, s') ∧
    ∀ x, (s'.vol.core x).refCount = (w.fs.vol.core x).refCount + if x = 5 then 1 else 0 := by
  obtain ⟨w, hg, hroot, hlive, hwalk⟩ := exists_walked
  obtain ⟨⟨r, s', hx, -, hrefs⟩, -⟩ := lookups_balanced hg hroot hlive (by decide : Relative walked)
  obtain ⟨j, t, ht, -, -, hw⟩ | ⟨e, t, ht, -, -, hw⟩ := sfsLookupChars_cases hg hroot hlive (by decide : Relative walked)
  · obtain ⟨rfl, rfl⟩ := Prod.mk.inj (Except.ok.inj (hx.symm.trans ht))
    obtain rfl := Except.ok.inj (hw.symm.trans hwalk)
    exact ⟨w, s', hx, by simpa [Except.toOption, eq_comm] using hrefs⟩
  · cases hw.symm.trans hwalk

lemma walk_append (v : Vol) (i : Nat) (l l' : List Name) : v.walk i (l ++ l') = v.walk i l >>= (v.walk · l') := by
  induction l generalizing i with
  | nil => rfl
  | cons name l ih =>
    rw [List.cons_append, Vol.walk, Vol.walk]
    split
    · rfl
    split
    · exact ih i
    · cases v.step i name with
      | error e => rfl
      | ok j => exact ih j

lemma names_append (p q : List Char) : names (p ++ '/' :: q) = names p ++ names q := by
  rw [names, List.splitOn_append_cons_self, List.filter_append]
  rfl

lemma walk_live {v : Vol} {pinned : Bool} (h : v.Ok held pinned tree) (hi : v.Live i)
    (hw : v.walk i l = .ok j) : v.Live j := by
  induction l generalizing i with
  | nil => exact Except.ok.inj hw ▸ hi
  | cons name l ih =>
    rw [Vol.walk] at hw
    split at hw
    · cases hw
    next hdir =>
      split at hw
      · exact ih hi hw
      split at hw
      next k hk =>
        refine ih ?_ hw
        -- `..` of a directory with links has links, and so has what an entry refers to
        obtain ⟨f, hf, htype⟩ := Vol.isDir_iff.mp (by simpa using hdir)
        rw [Vol.step, hf] at hk
        simp only at hk
        split_ifs at hk
        · exact Except.ok.inj hk ▸ h.parentLive_of_live hi f hf htype
        split at hk
        · cases hk
        next hs => exact Except.ok.inj hk ▸ h.wf.live_of_slot (Vol.slot_of_file hf ▸ (File.search_found hs).2)
      · cases hw

lemma sfsLookupChars_walk (h : Sfs.Good held tree s) (hi : i ∈ held) (hlive : s.vol.Live i) (hp : Relative path) :
    ∃ s', sfsLookupChars i path s = .ok (s.vol.walk i (names path), s') := by
  obtain ⟨j, s', hx, -, -, hw⟩ | ⟨e, s', hx, -, -, hw⟩ := sfsLookupChars_cases h hi hlive hp <;> exact ⟨s', hw ▸ hx⟩

/-- What is found under `p/q` is what is found under `q` from what is found under `p`. -/
theorem lookup_composes (h : Sfs.Good held tree s) (hi : i ∈ held) (hlive : s.vol.Live i)
    (hp : Relative p) (hq : Relative q) :
    (∃ j s1 r s2 s3, sfsLookupChars i p s = .ok (.ok j, s1) ∧ sfsLookupChars j q s1 = .ok (r, s2) ∧
    sfsLookupChars i (p ++ '/' :: q) s = .ok (r, s3)) ∨
    ∃ e s1 s3, sfsLookupChars i p s = .ok (.error e, s1) ∧ sfsLookupChars i (p ++ '/' :: q) s = .ok (.error e, s3) := by
  have hpq : Relative (p ++ '/' :: q) := by
    obtain ⟨c, p, rfl⟩ := List.exists_cons_of_ne_nil hp.1
    exact ⟨List.cons_ne_nil _ _, hp.2⟩
  obtain ⟨s3, h3⟩ := sfsLookupChars_walk h hi hlive hpq
  rw [names_append, walk_append] at h3
  obtain ⟨j, s1, h1, hg, hquiet, hw⟩ | ⟨e, s1, h1, -, -, hw⟩ := sfsLookupChars_cases h hi hlive hp <;> rw [hw] at h3
  · obtain ⟨s2, h2⟩ :=
      sfsLookupChars_walk hg (Multiset.mem_cons_self ..) (hquiet.same.live.mpr (walk_live h.ok hlive hw)) hq
    rw [hquiet.same.walk] at h2
    exact .inl ⟨j, s1, _, s2, s3, h1, h2, h3⟩
  · exact .inr ⟨e, s1, s3, h1, h3⟩

/-- `a/..` and then `a//./b/`. -/
theorem lookup_composes_names : ∃ (w : World) (j : Nat) (s1 s2 s3 : Sfs),
    sfsLookupChars blknRoot ['a', '/', '.', '.'] w.fs = .ok (.ok j, s1) ∧
    sfsLookupChars j ['a', '/', '/', '.', '/', 'b', '/'] s1 = .ok (.ok 5, s2) ∧
    sfsLookupChars blknRoot walked w.fs = .ok (.ok 5, s3) := by
  obtain ⟨w, hg, hroot, hlive, hwalk⟩ := exists_walked
  obtain ⟨s3, h3⟩ := sfsLookupChars_walk hg hroot hlive (by decide : Relative walked)
  rw [hwalk] at h3
  obtain ⟨j, s1, r, s2, s3', h1, h2, h3'⟩ | ⟨e, s1, s3', -, h3'⟩ := lookup_composes hg hroot hlive
    (by decide : Relative ['a', '/', '.', '.']) (by decide : Relative ['a', '/', '/', '.', '/', 'b', '/'])
  · obtain ⟨rfl, rfl⟩ := Prod.mk.inj (Except.ok.inj (h3.symm.trans h3'))
    exact ⟨w, j, s1, s2, s3, h1, h2, h3⟩
  · cases h3.symm.trans h3'

end Ucore.Fs.Vfs
