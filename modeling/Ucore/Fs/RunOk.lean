import Ucore.Fs.Run
import Ucore.Fs.Sfs.Format

/-!
# Reached states

A run starts from any well-formed file system.
-/

namespace Ucore.Fs

open Lib (Count Reachable Safe)

namespace World

variable {w w' : World} {pinned tree : Bool} {c : Call}

/-- Between two calls, with no inode loaded that was removed. -/
structure Mounted (pinned tree : Bool) (w : World) : Prop where
  good : Sfs.Good w.held tree w.fs
  pinned : w.fs.pinned = pinned
  fresh : w.fs.staleLoad = false

def boot (blocks : Nat) (pinned : Bool) : World := ⟨.format blocks pinned, {blknRoot}⟩

lemma boot_mounted (h : Sfs.FormatOk n) : (boot n pinned).Mounted pinned tree := ⟨Sfs.format_good h, rfl, rfl⟩

abbrev Reached (pinned tree : Bool) : World → Prop := Reachable step (Call.Careful tree) (Mounted pinned tree)

lemma step_eq_ok : w.step c = .ok w' ↔ ∃ e, w.call c = .ok (e, w') := by
  unfold step
  rcases w.call c with p | ⟨e, w1⟩ <;> simp [Except.map]

lemma Done.of_call (h : Sfs.Good w.held tree w.fs) (hc : c.Careful tree w) (hr : w.call c = .ok r) : c.Done tree w r := by
  have hsafe : Safe (fun _ => True) (w.call c) (c.Done tree w) :=
    call_good h hc ⟨fun _ _ _ => .inr trivial, fun _ _ _ => .inr trivial, fun _ _ => trivial⟩
  exact hsafe.of_eq hr

lemma Mounted.step (h : w.Mounted pinned tree) (hc : c.Careful tree w) (hs : w.step c = .ok w') :
    w'.Mounted pinned tree := by
  obtain ⟨e, hr⟩ := step_eq_ok.mp hs
  have hd := Done.of_call h.good hc hr
  exact ⟨hd.good, hd.kept.pinned.trans h.pinned, hd.kept.staleLoad.trans h.fresh⟩

lemma Reached.mounted (h : Reached pinned tree w) : w.Mounted pinned tree :=
  h.invariant (fun _ => id) fun _ _ _ => Mounted.step

end World

namespace Sfs

variable {s : Sfs} {held : Multiset Nat} {tree : Bool}

lemma place_of_slot (hs : s.vol.slot (d, k) = some e) : s.place (.part d (.leaf k)) ≠ 0 := by
  intro h0
  cases hd : s.din d with
  | none => simp [Vol.slot, vol, hd] at hs
  | some din =>
    rw [Vol.slot_of_file (file_of_din hd)] at hs
    simp [File.live, fileOf, leafAt, h0] at hs

lemma Inv.count_le (h : s.Inv busy) (hc : Count s.vol.slot P n) : n ≤ s.blocks := by
  refine hc.le_of_inj (fun p => s.place (.part p.1 (.leaf p.2))) ?_ ?_
  · rintro ⟨d, k⟩ ⟨d', k'⟩ e e' he - heq
    simpa using h.ledger.inj _ _ (place_of_slot he) heq
  · rintro ⟨d, k⟩ e he
    exact (used_iff.mp (h.ledger.used_of_place _ (place_of_slot he))).1

lemma Good.roomy (h : Good held tree s) (hsmall : s.blocks < 65533) : s.vol.Roomy := by
  intro i f hf
  by_cases hdir : f.type = .dir
  · cases hr : (s.vol.core i).removed with
    | true =>
      obtain ⟨g, hg, -, hl, -⟩ := h.ok.wf.removed i hr
      cases hf.symm.trans hg
      omega
    | false =>
      obtain ⟨m, hm, hl⟩ := h.ok.wf.dirLinks i f hf hdir hr
      have := h.inv.count_le hm
      simp only [Vol.own] at hl
      split at hl <;> omega
  · have := h.inv.count_le (h.ok.wf.fileRefs i f hf hdir)
    omega

end Sfs

lemma Vol.Ok.root_live {v : Vol} {held : Multiset Nat} {pinned tree : Bool} (h : v.Ok held pinned tree) :
    v.Live blknRoot := by
  obtain ⟨f, hf, hdir, -, hr⟩ := h.wf.root
  exact h.live_of_dir (Vol.isDir_iff.mpr ⟨f, hf, hdir⟩) hr

namespace Call

/-- A check that is enough on a small file system: paths are absolute, writes
begin inside the file, and there are enough free blocks. -/
def Checked (w : World) : Call → Bool
  | .lookup start _ | .create start _ _ | .mkdir start _ | .unlink start _ | .chdir _ start _ | .getcwd start _ =>
    start == blknRoot
  | .link oldStart _ newStart _ | .rename oldStart _ newStart _ => oldStart == blknRoot && newStart == blknRoot
  | .dup _ | .release _ | .fsync _ => true
  | .read _ _ _ => !w.fs.pinned
  | .write i _ offset _ => (w.fs.node i).any fun x => decide (offset ≤ x.din.size)
  | .truncate i len | .seek i len =>
    (w.fs.node i).any fun x => decide (Sfs.growCost x.din.blocks (blocksFor len - x.din.blocks) ≤ w.fs.unusedBlocks)

variable {w : World} {tree : Bool} {c : Call}

section

variable (h : Sfs.Good w.held tree w.fs)
include h

lemma Checked.sure (hc : c.Checked w = true) : c.Sure w := by
  have hroot : ∀ path, w.fs.vol.Sure blknRoot path := fun path => h.ok.sure_of_live h.ok.root_live
  cases c with
  | lookup start path | create start path | mkdir start path | unlink start path | chdir cwd start path =>
    simp only [Checked, beq_iff_eq] at hc
    subst hc
    exact hroot _
  | getcwd start resid =>
    simp only [Checked, beq_iff_eq] at hc
    subst hc
    exact h.ok.parentLive_of_live h.ok.root_live
  | link oldStart oldPath newStart newPath | rename oldStart oldPath newStart newPath =>
    simp only [Checked, Bool.and_eq_true, beq_iff_eq] at hc
    obtain ⟨rfl, rfl⟩ := hc
    exact ⟨hroot _, hroot _⟩
  | dup | release | fsync | read | write | truncate | seek => trivial

lemma Checked.sized (hc : c.Checked w = true) : c.Sized w := by
  have hfile : ∀ {i x f}, w.fs.node i = some x → w.fs.vol.file i = some f → f = w.fs.fileOf i x.din := by
    intro i x f hx hf
    exact Option.some.inj (hf.symm.trans (Sfs.file_of_din (Sfs.din_of_node hx)))
  cases c with
  | write i buf offset len =>
    obtain ⟨x, hx, hle⟩ := (Option.any_eq_true _ _).mp hc
    intro f hf
    rw [hfile hx hf]
    exact of_decide_eq_true hle
  | truncate i len | seek i len =>
    obtain ⟨x, hx, hle⟩ := (Option.any_eq_true _ _).mp hc
    intro f hf
    rw [hfile hx hf, ← h.inv.unused]
    exact of_decide_eq_true hle
  | _ => trivial

lemma Checked.careful (hsmall : w.fs.blocks < 65533)
    (hc : c.Checked w = true) (hfits : c.Fits w) (hord : tree = true → c.Ordered w) : c.Careful tree w where
  fits := hfits
  linkable := by
    have := h.roomy hsmall
    cases c <;> first | exact this | trivial
  sure := Checked.sure h hc
  ordered := hord
  sized _ := Checked.sized h hc
  unread hp := by
    cases c with
    | read => simp [Checked, hp] at hc
    | _ => rfl

end

end Call

lemma Call.ordered_of_not_rename {w : World} {c : Call} (h : c.isRename = false) : c.Ordered w := by
  cases c with
  | rename => cases h
  | _ => trivial

/-- A run of checked calls on a small new file system. -/
lemma World.mounted_of_checked {guard : World → Call → Prop} {n : Nat} {pinned tree : Bool} {w : World}
    (hn : Sfs.FormatOk n) (hsmall : n < 65533)
    (hguard : ∀ w c, guard w c → (c.Fits w ∧ c.Checked w = true) ∧ (tree = true → c.Ordered w))
    (hr : Reachable World.step guard (· = .boot n pinned) w) : w.Mounted pinned tree := by
  have hinv : w.Mounted pinned tree ∧ w.fs.blocks = n := by
    refine hr.invariant (P := fun w : World => w.Mounted pinned tree ∧ w.fs.blocks = n) ?_ ?_
    · rintro w rfl
      exact ⟨boot_mounted hn, rfl⟩
    · rintro w c w' ⟨hm, hblocks⟩ hg hs
      obtain ⟨⟨hfits, hc⟩, hord⟩ := hguard w c hg
      have hcareful := Call.Checked.careful hm.good (hblocks ▸ hsmall) hc hfits hord
      obtain ⟨e, hcall⟩ := step_eq_ok.mp hs
      exact ⟨hm.step hcareful hs, (Done.of_call hm.good hcareful hcall).kept.blocks.trans hblocks⟩
  exact hinv.1

lemma World.checked_mounted {n : Nat} {pinned : Bool} {w : World} (hn : Sfs.FormatOk n) (hsmall : n < 65533)
    (hr : Reachable World.step (fun w c => c.Fits w ∧ c.Checked w = true) (· = .boot n pinned) w) :
    w.Mounted pinned false :=
  mounted_of_checked hn hsmall (fun _ _ h => ⟨h, by simp⟩) hr

end Ucore.Fs
