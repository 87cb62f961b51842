import Ucore.Fs.Sfs.IoOk
import Ucore.Fs.VfsOk

/-!
# Operations on file contents

Transfers and truncation leave the tree of directories alone.
-/

namespace Ucore.Fs

open Lib.Cmd

lemma le_blocksFor : len ≤ blkSize * blocksFor len := by
  simp only [blocksFor, blkSize]
  omega

lemma blocksFor_mono (h : len ≤ len') : blocksFor len ≤ blocksFor len' := Nat.div_le_div_right (by omega)

lemma snug_write (hsnug : Snug false size blocks) (hpos : offset ≤ size) :
    Snug false (max size (offset + alen)) (if alen = 0 then blocks else max blocks (blocksFor (offset + alen))) := by
  intro _
  have hb := hsnug rfl
  grind [Nat.max_eq_left, blocksFor_mono]

namespace Vol

variable {v : Vol} {held : Multiset Nat} {pinned tree : Bool}

lemma sameTree_modFile (hf : v.file i = some f) (htype : f.type ≠ .dir) (ht : f'.type = f.type)
    (hl : f'.nlinks = f.nlinks) : SameTree v (v.modFile i fun _ => f') := by
  refine ⟨fun j g hg => modFile_some v ⟨g, hg⟩, fun j g hg => ?_, fun _ => rfl⟩
  grind [modFile_file_ne, modFile_file_self]

lemma Ok.modData (h : v.Ok held pinned tree) (hf : v.file i = some f) (htype : f.type ≠ .dir) (ht : f'.type = f.type)
    (hl : f'.nlinks = f.nlinks) (hsnug : Snug pinned f'.size f'.blocks) :
    (v.modFile i fun _ => f').Ok held pinned tree := by
  have hsame := sameTree_modFile hf htype ht hl
  have hfile : ∀ {R : Nat → File → Prop}, R i f' → (∀ j g, v.file j = some g → R j g) →
      ∀ j g, (v.modFile i fun _ => f').file j = some g → R j g := by
    intro R hi hR j g hg
    by_cases hj : j = i
    · subst hj
      rw [modFile_file_self, hf] at hg
      cases hg
      exact hi
    · exact hR j g (by rwa [modFile_file_ne _ hj] at hg)
  refine ⟨?_, h.refs, ?_, h.root, ?_, fun htree => (h.rooted htree).same hsame⟩
  · refine h.wf.same hsame ?_ fun j hj => ?_
    · exact hfile (R := fun j g => g.nlinks = 0 → (v.core j).refCount ≠ 0) (fun h0 => h.wf.unlinked i f hf (hl ▸ h0))
        h.wf.unlinked
    refine h.wf.idle j ?_
    by_cases hji : j = i
    · subst hji
      simp [hf] at hj
    · rwa [modFile_file_ne _ hji] at hj
  · exact hfile (R := fun _ g => g.nlinks < 65536) (hl ▸ h.bound i f hf) h.bound
  · exact hfile (R := fun _ g => g.type ≠ .dir → Snug pinned g.size g.blocks) (fun _ => hsnug) h.sized

end Vol

namespace Sfs

variable {s s' : Sfs} {held : Multiset Nat} {tree : Bool} {allowed : Panic → Prop}

section

variable (h : Good held tree s)
include h

lemma Good.modData (hinv : s'.Inv fun _ => s.pinned = true) (hkept : Kept s s')
    (hvol : s'.vol = s.vol.modFile i fun _ => f') (hf : s.vol.file i = some f) (htype : f.type ≠ .dir)
    (ht : f'.type = f.type) (hl : f'.nlinks = f.nlinks) (hsnug : Snug s.pinned f'.size f'.blocks) :
    Named Nothing held tree s s' := by
  refine ⟨.of hinv hkept (hvol ▸ h.ok.modData hf htype ht hl hsnug), hkept, ?_, fun _ _ hP => hP.elim⟩
  exact hvol ▸ Vol.sameBut_of_slot (Vol.sameTree_modFile hf htype ht hl).slot

def Inside (s : Sfs) (i offset : Nat) : Prop := ∀ f, s.vol.file i = some f → offset ≤ f.size

def Enough (s : Sfs) (i len : Nat) : Prop :=
  ∀ f, s.vol.file i = some f → growCost f.blocks (blocksFor len - f.blocks) ≤ s.freeBits

omit h in
lemma Good.type_ne (hf : s.vol.file i = some f) (hidir : s.vol.isDir i = false) : f.type ≠ .dir := by
  grind [Vol.isDir_of_file]

section

variable (hi : i ∈ held)
include hi

section

variable (hidir : s.vol.isDir i = false)
include hidir

lemma sfsIo_write_good (hpinned : s.pinned = true → allowed .assertion) (hinside : s.pinned = false → s.Inside i offset) :
    Sat allowed (sfsIo i buf offset len true) s (fun _ => Named Nothing held tree s)
      fun _ => Unmoved held tree s := by
  obtain ⟨f, hf⟩ := h.ok.file_of_mem hi
  have href := h.ok.refCount_ne_zero hi
  have htype := Good.type_ne hf hidir
  have hsnug := h.ok.sized i f hf htype
  have hnothing : Named Nothing held tree s s := (Quiet.refl s).nothing h
  rw [sfsIo, sat_bind, sat_trylock href, h.ok.not_removed_of_file hidir, if_neg (by simp)]
  by_cases hrange : offset < maxFileSize ∧ offset + len < offEnd
  rotate_left
  · obtain ⟨x, hx, hfx, -⟩ := node_of_ref hf href
    have htype' : x.din.type ≠ .dir := by rwa [hfx] at htype
    rw [ioNolock, sat_bind, sat_sin hx, sat_bind, sat_check htype', if_pos (by omega)]
    exact hnothing
  by_cases hlen : 0 < len
  rotate_left
  · obtain ⟨x, hx, hfx, -⟩ := node_of_ref hf href
    have htype' : x.din.type ≠ .dir := by rwa [hfx] at htype
    rw [ioNolock, sat_bind, sat_sin hx, sat_bind, sat_check htype', if_neg (by omega), if_pos (by omega)]
    exact hnothing
  have hk : offset / blkSize ≤ f.blocks ∨ allowed .assertion := by
    cases hp : s.pinned with
    | true => exact .inr (hpinned hp)
    | false =>
      have hle := hinside hp f hf
      have hb : f.size ≤ blkSize * f.blocks := by
        rw [hsnug hp]
        exact le_blocksFor
      simp only [blkSize] at *
      omega
  refine (ioNolock_write h.inv hf href htype hk hlen hrange).imp ?_
  rintro io s' ⟨⟨f', hw⟩, -⟩
  have hinv : s'.Inv fun _ => s.pinned = true := by
    refine hw.inv.mono fun j hj hb => ?_
    rcases hb with hb | ⟨rfl, hne, hle⟩
    · exact hj hb
    have hp : s.pinned = false := by simpa using hj
    refine hne ?_
    rw [hw.blocks, hsnug hp]
    split
    · rfl
    · exact Nat.max_eq_left (blocksFor_mono hle)
  refine h.modData hinv hw.kept hw.vol hf htype (by rw [hw.attrs]) (by rw [hw.attrs]) ?_
  cases hp : s.pinned with
  | true => exact fun hc => by simp at hc
  | false =>
    rw [hw.size, hw.blocks]
    exact snug_write (hp ▸ hsnug) (hinside hp f hf)

lemma sfsIo_read_good (hp : s.pinned = false) :
    Sat allowed (sfsIo i buf offset len false) s (fun _ s' => s' = s) (fun _ s' => s' = s) := by
  obtain ⟨f, hf⟩ := h.ok.file_of_mem hi
  have href := h.ok.refCount_ne_zero hi
  have htype := Good.type_ne hf hidir
  rw [sfsIo, sat_bind, sat_trylock href, h.ok.not_removed_of_file hidir, if_neg (by simp)]
  refine (ioNolock_read h.inv hf href htype ?_).imp (fun _ _ hr => hr.1)
  rw [h.ok.sized i f hf htype hp]
  exact le_blocksFor

lemma truncfile_good (hpinned : s.pinned = true → allowed .assertion) (hroom : s.pinned = false → s.Enough i len) :
    Sat allowed (truncfile i len) s (fun _ => Named Nothing held tree s)
      (fun _ s' => Named Nothing held tree s s' ∧ (s.pinned = false → s' = s)) := by
  obtain ⟨f, hf⟩ := h.ok.file_of_mem hi
  have htype := Good.type_ne hf hidir
  have hsnug := h.ok.sized i f hf htype
  have hnothing : Named Nothing held tree s s := (Quiet.refl s).nothing h
  have hsize : (f.size = len → f.blocks = blocksFor len) ∨ allowed .assertion := by
    cases hp : s.pinned with
    | true => exact .inr (hpinned hp)
    | false => exact .inl fun hl => hl ▸ hsnug hp
  refine (truncfile_ok h.inv hf (h.ok.refCount_ne_zero hi) htype (h.ok.not_removed_of_file hidir) hsize).mono ?_ ?_
  · rintro - s' (⟨-, rfl⟩ | ⟨f', hr⟩)
    · exact hnothing
    · refine h.modData hr.inv hr.kept hr.vol hf htype (by rw [hr.attrs]) (by rw [hr.attrs]) fun _ => ?_
      rw [hr.blocks, show f'.size = len by rw [hr.attrs]]
  · rintro e s' (⟨-, -, rfl⟩ | ⟨-, -, hfree, m, f', hg⟩)
    · exact ⟨hnothing, fun _ => rfl⟩
    have hp : s.pinned = true := by
      by_contra hp
      exact absurd (hroom (by simpa using hp) f hf) (by omega)
    refine ⟨h.modData (hg.inv.mono fun _ hj _ => hj hp) hg.kept hg.vol hf htype (by rw [hg.attrs])
      (by rw [hg.attrs]) ?_, ?_⟩
    · exact fun hc => by simp [hp] at hc
    · exact fun hc => by simp [hp] at hc

lemma tryseek_good (hpinned : s.pinned = true → allowed .assertion) (hroom : s.pinned = false → s.Enough i pos) :
    Sat allowed (tryseek i pos) s (fun _ => Named Nothing held tree s)
    (fun _ s' => Named Nothing held tree s s' ∧ (s.pinned = false → s' = s)) := by
  have hnothing : Named Nothing held tree s s := (Quiet.refl s).nothing h
  obtain ⟨f, hf⟩ := h.ok.file_of_mem hi
  obtain ⟨x, hx, -⟩ := node_of_ref hf (h.ok.refCount_ne_zero hi)
  rw [tryseek]
  split
  · exact ⟨hnothing, fun _ => rfl⟩
  rw [sat_bind, sat_sin hx]
  split
  · exact truncfile_good h hi hidir hpinned hroom
  · exact hnothing

end

lemma fsync_good {E : Errno → Sfs → Prop} : Sat allowed (fsync i) s (fun _ => Unmoved held tree s) E := by
  obtain ⟨f, hf⟩ := h.ok.file_of_mem hi
  obtain ⟨x, hx, hfx, hc⟩ := node_of_ref hf (h.ok.refCount_ne_zero hi)
  by_cases hd : x.din.nlinks = 0 ∨ x.dirty = false
  · rw [sat_fsync_clean hx hd]
    exact .refl h
  rw [not_or] at hd
  have hlinks : f.nlinks ≠ 0 := by rw [hfx]; exact hd.1
  have hrem : x.removed = false := by
    have := h.ok.not_removed_of_links hf hlinks
    rwa [hc] at this
  refine (fsync_dirty h.inv hx hrem hd.1 (by simpa using hd.2)).imp ?_
  rintro - s' ⟨hb, -⟩
  exact ⟨.of hb.inv hb.kept (hb.vol ▸ h.ok), hb.vol, hb.kept⟩

end

end

-- Operations that directories do not have.

variable {Q : α → Sfs → Prop} {E : Errno → Sfs → Prop} {x : FsM α}

section

variable (h : Good held tree s)
include h

section

variable (hi : i ∈ held)
include hi

lemma onFile_sat (hE : E .isdir s) (hx : s.vol.isDir i = false → Sat allowed x s Q E) :
    Sat allowed (onFile i x) s Q E := by
  obtain ⟨f, hf⟩ := h.ok.file_of_mem hi
  rw [onFile, sat_bind, sat_isDir hf (h.ok.refCount_ne_zero hi), ← Vol.isDir_of_file hf]
  cases hdir : s.vol.isDir i with
  | true => exact hE
  | false => exact hx hdir

lemma vopRead_good (hp : s.pinned = false) :
    Sat allowed (vopRead i buf offset len) s (fun _ s' => s' = s) (fun _ s' => s' = s) :=
  onFile_sat h hi rfl fun hidir => sfsIo_read_good h hi hidir hp

section

variable (hpinned : s.pinned = true → allowed .assertion)
include hpinned

lemma vopWrite_good (hinside : s.pinned = false → s.Inside i offset) :
    Sat allowed (vopWrite i buf offset len) s (fun _ => Named Nothing held tree s) fun _ => Unmoved held tree s :=
  onFile_sat h hi (.refl h) fun hidir => sfsIo_write_good h hi hidir hpinned hinside

lemma vopTruncate_good (hroom : s.pinned = false → s.Enough i len) :
    Sat allowed (vopTruncate i len) s (fun _ => Named Nothing held tree s)
    (fun _ s' => Named Nothing held tree s s' ∧ (s.pinned = false → s' = s)) :=
  onFile_sat h hi ⟨(Quiet.refl s).nothing h, fun _ => rfl⟩ fun hidir => truncfile_good h hi hidir hpinned hroom

lemma vopTryseek_good (hroom : s.pinned = false → s.Enough i pos) :
    Sat allowed (vopTryseek i pos) s (fun _ => Named Nothing held tree s)
    (fun _ s' => Named Nothing held tree s s' ∧ (s.pinned = false → s' = s)) :=
  onFile_sat h hi ⟨(Quiet.refl s).nothing h, fun _ => rfl⟩ fun hidir => tryseek_good h hi hidir hpinned hroom

end

end

end

end Sfs

end Ucore.Fs
