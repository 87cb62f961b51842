import Ucore.Fs.File

/-!
# Calls through descriptors

Every call through a descriptor keeps a good file system good, whatever the descriptor
was opened for.
-/

namespace Ucore.Fs

open Lib (Safe)
open Lib.Cmd
open Multiset (mem_cons_self cons_coe add_cons coe_add mem_add mem_coe cons_add mem_cons_of_mem)

namespace Vol

variable {v w u : Vol} {x : FsM α}

def Unaltered (v w : Vol) : Prop :=
  ∀ i, w.file i = v.file i ∨ (w.file i = none ∧ ∃ f, v.file i = some f ∧ f.nlinks = 0)

lemma Unaltered.refl (v : Vol) : v.Unaltered v := fun _ => .inl rfl

lemma Unaltered.of_eq (h : w.file = v.file) : v.Unaltered w := fun i => .inl (congrFun h i)

lemma Unaltered.trans (h : Unaltered v w) (h' : Unaltered w u) : Unaltered v u := by
  intro i
  rcases h' i with heq | ⟨hnone, f, hf, hl⟩
  · rcases h i with heq' | ⟨hnone, hf⟩
    · exact .inl (heq.trans heq')
    · exact .inr ⟨heq.trans hnone, hf⟩
  · rcases h i with heq' | ⟨hnone', -⟩
    · exact .inr ⟨hnone, f, heq' ▸ hf, hl⟩
    · simp [hnone'] at hf

lemma unref_unaltered (v : Vol) (i : Nat) : v.Unaltered (v.unref i) := by
  intro j
  rw [unref]
  split
  · next h =>
    obtain ⟨f, hf, hl⟩ := Option.map_eq_some_iff.mp h.2
    by_cases hj : j = i
    · subst hj
      exact .inr ⟨by simp, f, hf, hl⟩
    · exact .inl (v.setFile_file_ne hj)
  · exact .inl rfl

end Vol

def File.statSize (f : File) : Nat := if f.type = .dir then (f.size + 2) * dentrySize else f.size

namespace Sfs

variable {s : Sfs} {held : Multiset Nat} {tree : Bool} {allowed : Panic → Prop} {E : Errno → Sfs → Prop}
  {flags : OpenFlags}

lemma sat_sfsFstat {Q : Stat → Sfs → Prop} (hf : s.vol.file i = some f) (href : (s.vol.core i).refCount ≠ 0) :
    Sat allowed (sfsFstat i) s Q E ↔
    Q { type := f.type, nlinks := f.nlinks, blocks := f.blocks, size := f.statSize } s := by
  obtain ⟨x, hx, rfl, -⟩ := node_of_ref hf href
  rw [sfsFstat, sat_bind, sat_sin hx]
  rfl

lemma openDec_good (h : Good held tree s) (hi : i ∈ held) :
    Sat allowed (openDec i opens) s (fun _ => Unmoved held tree s) E := by
  rw [openDec]
  by_cases hc : opens = 0
  · rw [sat_when hc, sat_bind, sat_attempt]
    exact (fsync_good (E := fun _ _ => False) h hi).mono (fun _ _ hu => hu) fun _ _ hE => hE.elim
  · rw [sat_when_not hc]
    exact .refl h

lemma vfsClose_good (h : Good (i ::ₘ held) tree s) (hroot : blknRoot ∈ held) : Sat allowed (vfsClose i opens) s
    (fun _ s' => Good held tree s' ∧ Kept s s' ∧ s.vol.Unaltered s'.vol) E := by
  rw [vfsClose, sat_bind]
  refine (openDec_good h (mem_cons_self i held)).imp ?_
  rintro - s1 h1
  grind [Vol.unref_unaltered, refDec_good, h1.good, h1.kept.trans, h1.vol, Sat]

lemma openLookup_good (h : Good held tree s) (hstart : start ∈ held)
    (hcreat : flags.creat = true → s.vol.Roomy ∧ s.vol.Sure start path.dropLast)
    (hlookup : flags.creat = false → s.vol.Sure start path) :
    Sat allowed (openLookup start path flags) s
      (fun i s' => Good (i ::ₘ held) tree s' ∧ Kept s s') (fun _ s' => Good held tree s' ∧ Kept s s') := by
  rw [openLookup]
  cases hc : flags.creat with
  | true =>
    exact (vfsCreate_good h hstart (hcreat hc).2).mono (fun _ _ hn => ⟨hn.good, hn.kept⟩) fun _ _ hu => ⟨hu.good, hu.kept⟩
  | false =>
    refine (vfsLookup_good h hstart (hlookup hc)).mono ?_ ?_
    · exact fun _ _ hj => ⟨hj.1, hj.2.1.kept⟩
    · exact fun _ _ hE => ⟨hE.1.good, hE.1.quiet.kept⟩

lemma vfsOpen_good (h : Good held tree s) (hp : s.pinned = false) (hstart : start ∈ held)
    (hcreat : flags.creat = true → s.vol.Roomy ∧ s.vol.Sure start path.dropLast)
    (hlookup : flags.creat = false → s.vol.Sure start path) :
    Sat allowed (vfsOpen start path flags opens) s
    (fun i s' => Good (i ::ₘ held) tree s' ∧ Kept s s') (fun _ s' => Good held tree s' ∧ Kept s s') := by
  rw [vfsOpen]
  split
  · exact ⟨h, .refl s⟩
  rw [sat_bind]
  refine (openLookup_good h hstart hcreat hlookup).imp ?_
  rintro i s1 ⟨h1, hk1⟩
  have hi := mem_cons_self i held
  obtain ⟨f, hf⟩ := h1.ok.file_of_mem hi
  rw [sat_bind, sat_attempt, vopOpen, sat_bind, sat_isDir hf (h1.ok.refCount_ne_zero hi), Lib.Cmd.when]
  split
  · rw [sat_fail]
    dsimp only
    rw [sat_thenRefDec, sat_fail]
    exact (refDec_good h1 h.ok.root).imp (fun _ _ h2 => ⟨h2.1, hk1.trans h2.2.1⟩)
  change Sat allowed (if flags.trunc = true then _ else _) s1 _ _
  split
  · have hp1 : s1.pinned = false := hk1.pinned.trans hp
    have henough : s1.Enough i 0 := fun f _ => by simp [blocksFor, blkSize, growCost]
    rw [sat_bind, sat_attempt]
    refine (vopTruncate_good h1 hi (by simp [hp1]) fun _ => henough).mono ?_ ?_
    · exact fun _ s2 hn => ⟨hn.good, hk1.trans hn.kept⟩
    · rintro e s2 ⟨hn, -⟩
      dsimp only
      rw [sat_bind]
      refine (vfsClose_good hn.good h.ok.root).imp ?_
      exact fun _ s3 h3 => ⟨h3.1, (hk1.trans hn.kept).trans h3.2.1⟩
  · exact ⟨h1, hk1⟩

lemma tryseek_inside (hf : s.vol.file i = some f) (href : (s.vol.core i).refCount ≠ 0) (hle : pos ≤ f.size) :
    Sat allowed (tryseek i pos) s (fun _ s' => s' = s) (fun _ s' => s' = s) := by
  obtain ⟨x, hx, rfl, -⟩ := node_of_ref hf href
  have hnot : ¬ x.din.size < pos := Nat.not_lt.mpr hle
  rw [tryseek]
  split
  · rfl
  · rw [sat_bind, sat_sin hx, if_neg hnot]
    rfl

end Sfs

namespace Files

variable {s s' : Files} {tree : Bool} {allowed : Panic → Prop} {E : Errno → Files → Prop} {f : OpenFile}

@[simp] lemma held_setPos : (s.setPos pid fd pos).held = s.held := by
  have hmap : (s.setPos pid fd pos).opened.map (·.node) = s.opened.map (·.node) := by
    rw [setPos, List.map_map]
    exact List.map_congr_left fun f _ => by dsimp only [Function.comp]; split <;> rfl
  rw [held, held, nodes, nodes, hmap]
  rfl

@[simp] lemma held_add : (s.add f).held = f.node ::ₘ s.held := by
  simp only [held, nodes, add, List.map_cons, ← cons_coe, add_cons]

lemma held_drop (h : s.find pid fd = some f) : s.held = f.node ::ₘ (s.drop pid fd).held := by
  obtain ⟨hat, before, after, hs, hbefore⟩ := List.find?_eq_some_iff_append.mp h
  have hdrop : s.opened.eraseP (OpenFile.At pid fd) = before ++ after := by
    rw [hs, List.eraseP_append_right _ (fun g hg => by simpa using hbefore g hg), List.eraseP_cons_of_pos hat]
  have hopened : (s.nodes : Multiset Nat) = f.node ::ₘ (s.drop pid fd).nodes := by
    rw [nodes, nodes, drop, hdrop, hs]
    simp only [List.map_append, List.map_cons, ← coe_add, ← cons_coe, add_cons]
  rw [held, held, hopened, add_cons]
  rfl

lemma node_mem (h : s.find pid fd = some f) : f.node ∈ s.held := by
  rw [held_drop h]
  exact mem_cons_self ..

lemma sat_onFs {Q : α → Files → Prop} : Sat allowed (onFs x) s Q E ↔
    Sat allowed x s.fs (fun a fs => Q a { s with fs }) (fun e fs => E e { s with fs }) := by
  unfold Sat onFs
  rcases x s.fs with p | ⟨e | a, fs⟩ <;> rfl

lemma sat_fd2file {Q : OpenFile → Files → Prop} (hnone : s.find pid fd = none → E .inval s)
    (hsome : ∀ f, s.find pid fd = some f → Q f s) : Sat allowed (fd2file pid fd) s Q E := by
  rw [fd2file, sat_bind, sat_get]
  cases h : s.find pid fd with
  | none => exact hnone h
  | some f => exact hsome f h

lemma filemapAlloc_ok {Q : Nat → Files → Prop} (hQ : ∀ fd, Q fd s) (hE : ∀ e, E e s) :
    Sat allowed (filemapAlloc pid fd) s Q E := by
  cases fd with
  | none =>
    rw [filemapAlloc, sat_bind, sat_get]
    split
    · exact hE _
    · exact hQ _
  | some fd =>
    rw [filemapAlloc, sat_bind, sat_get]
    split
    · exact hE _
    split
    · exact hE _
    · exact hQ _

structure Mounted (tree : Bool) (s : Files) : Prop where
  good : Sfs.Good s.held tree s.fs
  root : blknRoot ∈ s.others
  unpinned : s.fs.pinned = false

section

variable (h : s.Mounted tree)
include h

lemma Mounted.refCount (hf : s.find pid fd = some f) : (s.fs.vol.core f.node).refCount ≠ 0 :=
  h.good.ok.refCount_ne_zero (node_mem hf)

lemma Mounted.setFs {fs' : Sfs} (hg : Sfs.Good s.held tree fs') (hk : Sfs.Kept s.fs fs') :
    Mounted tree { s with fs := fs' } :=
  ⟨hg, h.root, hk.pinned.trans h.unpinned⟩

lemma Mounted.setPos : (s.setPos pid fd pos).Mounted tree := ⟨by rw [held_setPos]; exact h.good, h.root, h.unpinned⟩

structure Left (tree : Bool) (harmless : Prop) (s s' : Files) : Prop where
  mounted : s'.Mounted tree
  unaltered : harmless → s.fs.vol.Unaltered s'.fs.vol

lemma Left.refl : Left tree p s s := ⟨h, fun _ => .refl _⟩

omit h in
lemma Left.setPos (h : Left tree p s s') : Left tree p s (s'.setPos pid fd pos) := ⟨h.mounted.setPos, h.unaltered⟩

lemma fileRead_ok : Sat allowed (fileRead pid fd len) s (fun _ => Left tree p s) fun _ => Left tree p s := by
  rw [fileRead, sat_bind]
  refine sat_fd2file (fun _ => .refl h) fun f hf => ?_
  split
  · exact .refl h
  rw [sat_bind, sat_onFs]
  refine (Sfs.vopRead_good h.good (node_mem hf) h.unpinned).mono ?_ ?_
  · rintro io _ rfl
    exact io.sat_result (Left.refl h).setPos fun _ => (Left.refl h).setPos
  · rintro e _ rfl
    exact .refl h

lemma fileWrite_ok (hpos : ∀ f, s.find pid fd = some f → f.writable = true → s.fs.Inside f.node f.pos)
    (hp : p → ∀ f, s.find pid fd = some f → f.writable = false) :
    Sat allowed (fileWrite pid fd buf len) s (fun _ => Left tree p s) fun _ => Left tree p s := by
  rw [fileWrite, sat_bind]
  refine sat_fd2file (fun _ => .refl h) fun f hf => ?_
  split
  · exact .refl h
  · next hw =>
    have hnot : ¬ p := fun hp' => hw (hp hp' f hf)
    rw [sat_bind, sat_onFs]
    refine (Sfs.vopWrite_good h.good (node_mem hf) (by simp [h.unpinned]) fun _ => ?_).mono ?_ ?_
    · exact hpos f hf (by simpa using hw)
    · intro io fs hn
      have hleft : Left tree p s (Files.setPos { s with fs } pid fd (f.pos + io.alen)) :=
        ⟨(h.setFs hn.good hn.kept).setPos, fun hp' => absurd hp' hnot⟩
      exact io.sat_result hleft fun _ => hleft
    · exact fun e fs hu => ⟨h.setFs hu.good hu.kept, fun hp' => absurd hp' hnot⟩

def seekTo (s : Files) (f : OpenFile) (pos : Int) : Whence → Option Int
  | .set => some pos
  | .cur => some (pos + f.pos)
  | .fromEnd => (s.fs.vol.file f.node).map fun g => pos + g.statSize
  | .other => none

lemma seekPos_ok {Q : Int → Files → Prop} (hf : s.find pid fd = some f)
    (hsome : ∀ n, s.seekTo f pos whence = some n → Q n s) (hnone : E .inval s) :
    Sat allowed (seekPos f pos whence) s Q E := by
  cases whence with
  | set | cur => exact hsome _ rfl
  | fromEnd =>
    obtain ⟨g, hg⟩ := h.good.ok.file_of_mem (node_mem hf)
    rw [seekPos, sat_bind, sat_onFs, Sfs.sat_sfsFstat hg (h.refCount hf)]
    exact hsome _ (by rw [seekTo, hg]; rfl)
  | other => exact hnone

def SeeksInside (s : Files) (pid fd : Nat) (pos : Int) (whence : Whence) : Prop :=
  ∀ f g n, s.find pid fd = some f → s.seekTo f pos whence = some n → s.fs.vol.file f.node = some g → n ≤ g.size

lemma fileSeek_ok
    (hroom : ¬ p → ∀ f n, s.find pid fd = some f → s.seekTo f pos whence = some (Int.ofNat n) → s.fs.Enough f.node n)
    (hp : p → s.SeeksInside pid fd pos whence) :
    Sat allowed (fileSeek pid fd pos whence) s (fun _ => Left tree p s) fun _ => Left tree p s := by
  rw [fileSeek, sat_bind]
  refine sat_fd2file (fun _ => .refl h) fun f hf => ?_
  rw [sat_bind]
  refine seekPos_ok h hf (fun n hn => ?_) (.refl h)
  have hi := node_mem hf
  obtain ⟨g, hg⟩ := h.good.ok.file_of_mem hi
  rw [sat_bind, sat_onFs]
  cases n with
  | negSucc n => exact Sfs.onFile_sat h.good hi (.refl h) fun _ => .refl h
  | ofNat n =>
    rw [vopSeek, sat_bind]
    by_cases hin : p
    · have hle : n ≤ g.size := Int.ofNat_le.mp (hp hin f g _ hf hn hg)
      refine (Sfs.onFile_sat h.good hi (.refl h) fun _ => ?_).mono (fun _ _ => Left.setPos) fun _ _ hl => hl
      refine (Sfs.tryseek_inside hg (h.refCount hf) hle).mono ?_ ?_
      · rintro _ _ rfl
        exact .refl h
      · rintro _ _ rfl
        exact .refl h
    · refine (Sfs.vopTryseek_good h.good hi (by simp [h.unpinned]) fun _ => hroom hin f n hf hn).mono ?_ ?_
      · exact fun _ fs hn => ⟨(h.setFs hn.good hn.kept).setPos, fun hp' => absurd hp' hin⟩
      · exact fun _ fs hn => ⟨h.setFs hn.1.good hn.1.kept, fun hp' => absurd hp' hin⟩

lemma fileClose_ok : Sat allowed (fileClose pid fd) s (fun _ => Left tree p s) fun _ => Left tree p s := by
  rw [fileClose, sat_bind]
  refine sat_fd2file (fun _ => .refl h) fun f hf => ?_
  rw [sat_bind, sat_modify, sat_bind, sat_get, sat_onFs]
  have hgood : Sfs.Good (f.node ::ₘ (s.drop pid fd).held) tree s.fs := by
    rw [← held_drop hf]
    exact h.good
  refine (Sfs.vfsClose_good hgood (mem_add.mpr (.inl h.root))).imp ?_
  exact fun _ fs hc => ⟨⟨hc.1, h.root, hc.2.1.pinned.trans h.unpinned⟩, fun _ => hc.2.2⟩

lemma fileFstat_ok : Sat allowed (fileFstat pid fd) s (fun _ => Left tree p s) fun _ => Left tree p s := by
  rw [fileFstat, sat_bind]
  refine sat_fd2file (fun _ => .refl h) fun f hf => ?_
  obtain ⟨g, hg⟩ := h.good.ok.file_of_mem (node_mem hf)
  rw [sat_onFs, Sfs.sat_sfsFstat hg (h.refCount hf)]
  exact .refl h

lemma fileFsync_ok : Sat allowed (fileFsync pid fd) s (fun _ => Left tree p s) fun _ => Left tree p s := by
  rw [fileFsync, sat_bind]
  refine sat_fd2file (fun _ => .refl h) fun f hf => ?_
  rw [sat_onFs]
  refine (Sfs.fsync_good h.good (node_mem hf)).imp ?_
  exact fun _ fs hu => ⟨h.setFs hu.good hu.kept, fun _ => .of_eq (by rw [hu.vol])⟩

lemma filemapDup_ok (hi : f.node ∈ s.held) : Sat allowed (filemapDup pid fd f) s
    (fun _ s' => Left tree p s s' ∧ s'.held = f.node ::ₘ s.held) E := by
  rw [filemapDup, sat_bind, sat_onFs]
  refine (Sfs.refInc_good h.good hi).imp ?_
  rintro _ fs ⟨hg, hq⟩
  have hheld : (Files.add { s with fs } { f with pid, fd }).held = f.node ::ₘ s.held := held_add
  refine ⟨⟨⟨?_, h.root, hq.kept.pinned.trans h.unpinned⟩, fun _ => .of_eq hq.same.file⟩, hheld⟩
  rw [hheld]
  exact hg

lemma fileDup_ok : Sat allowed (fileDup pid fd1 fd2) s (fun _ => Left tree p s) fun _ => Left tree p s := by
  rw [fileDup, sat_bind]
  refine sat_fd2file (fun _ => .refl h) fun f hf => ?_
  rw [sat_bind]
  refine filemapAlloc_ok (fun fd => ?_) fun _ => .refl h
  rw [sat_bind]
  exact (filemapDup_ok h (node_mem hf)).imp (fun _ _ hd => hd.1)

omit h in
lemma Left.trans (h : Left tree p s s') (h' : Left tree p s' s'') : Left tree p s s'' :=
  ⟨h'.mounted, fun hp => (h.unaltered hp).trans (h'.unaltered hp)⟩

lemma dupFiles_ok (hi : ∀ f ∈ files, f.node ∈ s.held) :
    Sat allowed (dupFiles child files) s (fun _ => Left tree p s) E := by
  induction files generalizing s with
  | nil => exact .refl h
  | cons f files ih =>
    rw [dupFiles, sat_bind]
    refine (filemapDup_ok (p := p) h (hi f (.head _ ..))).imp ?_
    rintro - s1 ⟨h1, hheld⟩
    refine (ih h1.mounted fun g hg => ?_).imp (fun _ _ => h1.trans)
    grind

lemma dupFs_ok : Sat allowed (dupFs child parent) s (fun _ => Left tree p s) E := by
  rw [dupFs, sat_bind, sat_get]
  refine dupFiles_ok h fun f hf => mem_add.mpr (.inr ?_)
  exact mem_coe.mpr (List.mem_map_of_mem (List.mem_of_mem_filter hf))

lemma fileOpen_ok (hstart : start ∈ s.others) (hp : ¬ p)
    (hcreat : flags.creat = true → s.fs.vol.Roomy ∧ s.fs.vol.Sure start path.dropLast)
    (hlookup : flags.creat = false → s.fs.vol.Sure start path) :
    Sat allowed (fileOpen pid start path flags) s (fun _ => Left tree p s) fun _ => Left tree p s := by
  have hheld : start ∈ s.held := mem_add.mpr (.inl hstart)
  rw [fileOpen]
  split
  · exact .refl h
  rw [sat_bind]
  refine filemapAlloc_ok (fun fd => ?_) fun _ => .refl h
  rw [sat_bind, sat_get, sat_bind, sat_onFs]
  refine (Sfs.vfsOpen_good h.good h.unpinned hheld hcreat hlookup).mono ?_ ?_
  · rintro i fs1 ⟨hg, hk⟩
    have hadd : ∀ pos, Left tree p s (Files.add { s with fs := fs1 }
        { pid, fd, node := i, pos, readable := flags.readable, writable := flags.writable }) := by
      refine fun pos => ⟨⟨?_, h.root, hk.pinned.trans h.unpinned⟩, fun hp' => absurd hp' hp⟩
      rw [held_add]
      exact hg
    have hi := mem_cons_self i s.held
    obtain ⟨g, hf⟩ := hg.ok.file_of_mem hi
    rw [sat_bind, openPos]
    split
    · rw [sat_bind, sat_onFs, Sfs.sat_sfsFstat hf (hg.ok.refCount_ne_zero hi)]
      exact hadd _
    · exact hadd _
  · exact fun _ fs hE => ⟨h.setFs hE.1 hE.2, fun hp' => absurd hp' hp⟩

end

end Files

namespace World

variable {fs : Sfs} {A B : Multiset Nat}

lemma exec_add {h h' : α → Multiset Nat} (hh : ∀ a, h' a = h a + B) :
    exec ⟨fs, A + B⟩ x h' = (exec ⟨fs, A⟩ x h).map fun r => (r.1, ⟨r.2.fs, r.2.held + B⟩) := by
  unfold exec
  rcases x fs with p | ⟨e | a, s⟩
  · rfl
  · rfl
  · simp [Except.map, hh]

lemma call_add (hc : c.Fits ⟨fs, A⟩) :
    call ⟨fs, A + B⟩ c = (call ⟨fs, A⟩ c).map fun r => (r.1, ⟨r.2.fs, r.2.held + B⟩) := by
  cases c with
  | lookup | create | dup => exact exec_add fun a => (cons_add _ _ _).symm
  | release i => exact exec_add fun _ => Multiset.erase_add_left_pos _ hc.1
  | chdir cwd start path =>
    refine exec_add fun a => ?_
    rw [cons_add, Multiset.erase_add_left_pos _ hc.1.1]
  | mkdir | link | rename | unlink | getcwd | read | write | truncate | seek | fsync => exact exec_add fun _ => rfl

lemma exec_held {w : World} {h : α → Multiset Nat} {P : Multiset Nat → Prop} (hw : P w.held) (hh : ∀ a, P (h a)) :
    Safe (fun _ => True) (w.exec x h) fun r => P r.2.held := by
  refine exec_ok ?_
  unfold Sat
  rcases x w.fs with p | ⟨e | a, s⟩
  exacts [trivial, hw, hh a]

lemma call_root {w : World} (hroot : blknRoot ∈ w.held) (hc : c.Fits w) :
    Safe (fun _ => True) (w.call c) fun r => blknRoot ∈ r.2.held := by
  cases c with
  | lookup | create | dup => exact exec_held hroot fun _ => mem_cons_of_mem hroot
  | release i => exact exec_held hroot fun _ => hc.2
  | chdir cwd start path => exact exec_held hroot fun _ => mem_cons_of_mem hc.1.2
  | mkdir | link | rename | unlink | getcwd | read | write | truncate | seek | fsync =>
    exact exec_held hroot fun _ => hroot

end World

namespace FileCall

def Fits (s : Files) : FileCall → Prop
  | .open _ start _ _ => start ∈ s.others
  | .fork child _ => s.opened.all (·.pid != child) = true
  | .path c => c.Fits ⟨s.fs, s.others⟩
  | _ => True

instance (s : Files) (c : FileCall) : Decidable (c.Fits s) := by
  unfold Fits
  split <;> infer_instance

/-- A write begins inside the file, a seek that makes it longer finds enough
free blocks, and paths are as `Call.Careful` asks for. -/
def Careful (tree : Bool) (s : Files) : FileCall → Prop
  | .open _ start names flags =>
    start ∈ s.others ∧ (flags.creat = true → s.fs.vol.Roomy ∧ s.fs.vol.Sure start names.dropLast) ∧
      (flags.creat = false → s.fs.vol.Sure start names)
  | .write pid fd _ _ => ∀ f, s.find pid fd = some f → f.writable = true → s.fs.Inside f.node f.pos
  | .seek pid fd pos whence =>
    ∀ f n, s.find pid fd = some f → s.seekTo f pos whence = some (Int.ofNat n) → s.fs.Enough f.node n
  | .path c => c.Fits ⟨s.fs, s.others⟩ ∧ c.Careful tree ⟨s.fs, s.held⟩
  | _ => True

def ReadOnly (s : Files) : FileCall → Prop
  | .close pid fd | .read pid fd _ | .write pid fd _ _ | .seek pid fd _ _ | .fstat pid fd | .fsync pid fd
  | .dup pid fd _ => ∀ f, s.find pid fd = some f → f.writable = false
  | .open _ _ _ _ | .fork _ _ | .path _ => False

def Inside (s : Files) : FileCall → Prop
  | .seek pid fd pos whence => s.SeeksInside pid fd pos whence
  | _ => True

def isPath : FileCall → Bool
  | .path _ => true
  | _ => false

end FileCall

namespace Files

variable {s : Files} {tree : Bool} {allowed : Panic → Prop} {c : FileCall}

lemma exec_ok {x : FileM α} {R : Files → Prop} (h : Sat allowed x s (fun _ => R) (fun _ => R)) :
    Safe allowed (s.exec x) fun r => R r.2 := by
  unfold exec
  unfold Sat at h
  rcases hx : x s with p | ⟨e | a, s'⟩ <;> rw [hx] at h <;> exact h

lemma path_ok {c : Call} (h : s.Mounted tree) (hfits : c.Fits ⟨s.fs, s.others⟩) (hc : c.Careful tree ⟨s.fs, s.held⟩) :
    Safe (fun _ => True) (s.call (.path c)) fun r => r.2.Mounted tree := by
  have hdone : Safe (fun _ => True) (World.call ⟨s.fs, s.held⟩ c) (c.Done tree ⟨s.fs, s.held⟩) :=
    World.call_good h.good hc ⟨fun _ _ _ => .inr trivial, fun _ _ _ => .inr trivial, fun _ _ => trivial⟩
  have hroot := World.call_root h.root hfits
  rw [held, World.call_add hfits] at hdone
  rw [call]
  cases hcall : World.call ⟨s.fs, s.others⟩ c with
  | error p => trivial
  | ok r =>
    rw [hcall] at hdone hroot
    exact ⟨hdone.good, hroot, hdone.kept.pinned.trans h.unpinned⟩

lemma call_ok (h : s.Mounted tree) (hc : ¬ (c.ReadOnly s ∧ c.Inside s) → c.Careful tree s) (hpath : c.isPath = false) :
    Safe (fun _ => False) (s.call c) fun r => Left tree (c.ReadOnly s ∧ c.Inside s) s r.2 := by
  cases c with
  | «open» pid start path flags =>
    obtain ⟨hstart, hcreat, hlookup⟩ := hc fun hp => hp.1
    exact exec_ok (fileOpen_ok h hstart (fun hp => hp.1) hcreat hlookup)
  | close pid fd => exact exec_ok (fileClose_ok h)
  | read pid fd len => exact exec_ok (fileRead_ok h)
  | write pid fd buf len =>
    refine exec_ok (fileWrite_ok h (fun f hf hw => ?_) fun hp => hp.1)
    exact hc (fun hp => by simp [hp.1 f hf] at hw) f hf hw
  | seek pid fd pos whence => exact exec_ok (fileSeek_ok h hc fun hp => hp.2)
  | fstat pid fd => exact exec_ok (fileFstat_ok h)
  | fsync pid fd => exact exec_ok (fileFsync_ok h)
  | dup pid fd1 fd2 => exact exec_ok (fileDup_ok h)
  | fork child parent => exact exec_ok (dupFs_ok h)
  | path c => simp [FileCall.isPath] at hpath

lemma Mounted.step (h : s.Mounted tree) (hc : c.Careful tree s) (hs : s.step c = .ok s') : s'.Mounted tree := by
  rw [Files.step] at hs
  cases hcall : s.call c with
  | error p => simp [hcall, Except.map] at hs
  | ok r =>
    rw [hcall] at hs
    obtain rfl : r.2 = s' := by simpa [Except.map] using hs
    cases hpath : c.isPath with
    | false => exact ((call_ok h (fun _ => hc) hpath).of_eq hcall).mounted
    | true =>
      cases c with
      | path c => exact (path_ok h hc.1 hc.2).of_eq hcall
      | «open» | close | read | write | seek | fstat | fsync | dup | fork => simp [FileCall.isPath] at hpath

end Files

end Ucore.Fs
