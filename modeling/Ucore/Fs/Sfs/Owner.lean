import Ucore.Fs.Sfs.Inode
import Ucore.Lib.Ledger

/-!
# The owner of a block

A block in use holds an inode, a part of the contents of one, or one of its tables.
-/

namespace Ucore.Fs

open Function
open Lib (Ledger)

def sub (disk : Nat → Content) (ent k : Nat) : Nat := if ent = 0 then 0 else (disk ent).word k

inductive Part
  | leaf (k : Nat)
  | indirect
  | double
  | second (q : Nat)
  deriving DecidableEq

inductive Role
  | inode (i : Nat)
  | part (i : Nat) (p : Part)
  deriving DecidableEq

def Role.ino : Role → Nat
  | .inode i => i
  | .part i _ => i

lemma Role.forall_ino {P : Role → Prop} (hi : P (.inode i)) (hp : ∀ p, P (.part i p)) : ∀ r : Role, r.ino = i → P r := by
  rintro (j | ⟨j, p⟩) rfl
  · exact hi
  · exact hp p

namespace Part

def isTable : Part → Bool
  | .leaf _ => false
  | _ => true

def doubleIndex (q r : Nat) : Nat := ndirect + blkNentry + blkNentry * q + r

end Part

open Ucore.Fs.Part (doubleIndex)

lemma doubleIndex_div (hr : r < blkNentry) : (doubleIndex q r - ndirect - blkNentry) / blkNentry = q := by
  simp only [doubleIndex, ndirect, blkNentry] at *
  omega

lemma doubleIndex_mod (hr : r < blkNentry) : (doubleIndex q r - ndirect - blkNentry) % blkNentry = r := by
  simp only [doubleIndex, ndirect, blkNentry] at *
  omega

lemma doubleIndex_eq (hk : ¬ k < ndirect) (hk' : ¬ k - ndirect < blkNentry) :
    doubleIndex ((k - ndirect - blkNentry) / blkNentry) ((k - ndirect - blkNentry) % blkNentry) = k := by
  simp only [doubleIndex, ndirect, blkNentry] at *
  omega

lemma mod_lt_blkNentry : n % blkNentry < blkNentry := Nat.mod_lt _ (by decide)

namespace DiskInode

variable {disk disk' : Nat → Content} {d : DiskInode}

def second (disk : Nat → Content) (d : DiskInode) (q : Nat) : Nat :=
  if q < blkNentry then sub disk d.dbIndirect q else 0

def bmap (disk : Nat → Content) (d : DiskInode) (k : Nat) : Nat :=
  if k < ndirect then d.direct k
  else if k - ndirect < blkNentry then sub disk d.indirect (k - ndirect)
  else sub disk (d.second disk ((k - ndirect - blkNentry) / blkNentry)) ((k - ndirect - blkNentry) % blkNentry)

def part (disk : Nat → Content) (d : DiskInode) : Part → Nat
  | .leaf k => d.bmap disk k
  | .indirect => d.indirect
  | .double => d.dbIndirect
  | .second q => d.second disk q

lemma bmap_direct (hk : k < ndirect) : d.bmap disk k = d.direct k := by rw [bmap, if_pos hk]

lemma bmap_indirect (hk : k < blkNentry) : d.bmap disk (ndirect + k) = sub disk d.indirect k := by
  grind [bmap]

lemma bmap_double (hr : r < blkNentry) : d.bmap disk (doubleIndex q r) = sub disk (d.second disk q) r := by
  have h1 : ¬ doubleIndex q r < ndirect := by simp only [doubleIndex]; omega
  have h2 : ¬ doubleIndex q r - ndirect < blkNentry := by simp only [doubleIndex]; omega
  rw [bmap, if_neg h1, if_neg h2, doubleIndex_div hr, doubleIndex_mod hr]

lemma index_cases {P : Nat → Prop} (hd : ∀ k, k < ndirect → P k) (hi : ∀ k, k < blkNentry → P (ndirect + k))
    (hdd : ∀ q r, r < blkNentry → P (doubleIndex q r)) (k : Nat) : P k := by
  by_cases h1 : k < ndirect
  · exact hd k h1
  by_cases h2 : k - ndirect < blkNentry
  · grind
  · have := hdd ((k - ndirect - blkNentry) / blkNentry) _ (mod_lt_blkNentry (n := k - ndirect - blkNentry))
    rwa [doubleIndex_eq h1 h2] at this

lemma part_setBlocks : (d.setBlocks n).part disk = d.part disk := by
  funext p
  cases p <;> rfl

lemma part_congr (h : ∀ p, p.isTable = true → d.part disk p ≠ 0 →
    disk' (d.part disk p) = disk (d.part disk p)) : d.part disk' = d.part disk := by
  have hsub : ∀ p k, p.isTable = true → sub disk' (d.part disk p) k = sub disk (d.part disk p) k := by
    intro p k hp
    by_cases h0 : d.part disk p = 0
    · simp [sub, h0]
    · simp only [sub, if_neg h0, h p hp h0]
  have hsecond : ∀ q, d.second disk' q = d.second disk q := by
    intro q
    by_cases hq : q < blkNentry
    · simp only [second, if_pos hq]
      exact hsub .double q rfl
    · simp only [second, if_neg hq]
  funext p
  cases p with
  | leaf k =>
    induction k using index_cases with
    | hd k hk => simp only [part, bmap_direct hk]
    | hi k hk => simpa only [part, bmap_indirect hk] using hsub .indirect k rfl
    | hdd q r hr => simpa only [part, bmap_double hr, hsecond] using hsub (.second q) r rfl
  | indirect => rfl
  | double => rfl
  | second q => exact hsecond q

lemma part_setDirect (hk : k < ndirect) : (d.setDirect k v).part disk = update (d.part disk) (.leaf k) v := by
  funext p
  cases p with
  | leaf j =>
    induction j using index_cases with
    | hd j hj =>
      simp only [part, bmap_direct hj, setDirect]
      grind [bmap_direct, part]
    | hi j hj => grind [part, bmap_indirect, setDirect]
    | hdd q r hr => grind [part, second, bmap_double, doubleIndex, setDirect]
  | indirect => rw [update_of_ne (by simp)]; rfl
  | double => rw [update_of_ne (by simp)]; rfl
  | second q => rw [update_of_ne (by simp)]; rfl

lemma part_setIndirect (hold : ∀ k, sub disk d.indirect k = 0) (hnew : ∀ k, sub disk v k = 0) :
    (d.setIndirect v).part disk = update (d.part disk) .indirect v := by
  funext p
  cases p with
  | leaf j =>
    rw [update_of_ne (by simp)]
    induction j using index_cases with
    | hd j hj => simp only [part, bmap_direct hj, setIndirect]
    | hi j hj => simp only [part, bmap_indirect hj, setIndirect, hold, hnew]
    | hdd q r hr => simp only [part, bmap_double hr, setIndirect, second]
  | indirect => rw [update_self]; rfl
  | double => rw [update_of_ne (by simp)]; rfl
  | second q => rw [update_of_ne (by simp)]; rfl

lemma part_setDbIndirect (hold : ∀ k, sub disk d.dbIndirect k = 0) (hnew : ∀ k, sub disk v k = 0) :
    (d.setDbIndirect v).part disk = update (d.part disk) .double v := by
  have hsecond : ∀ q, (d.setDbIndirect v).second disk q = d.second disk q := by
    intro q
    simp only [second, setDbIndirect, hold, hnew]
  funext p
  cases p with
  | leaf j =>
    rw [update_of_ne (by simp)]
    induction j using index_cases with
    | hd j hj => simp only [part, bmap_direct hj, setDbIndirect]
    | hi j hj => simp only [part, bmap_indirect hj, setDbIndirect]
    | hdd q r hr => simp only [part, bmap_double hr, hsecond]
  | indirect => rw [update_of_ne (by simp)]; rfl
  | double => rw [update_self]; rfl
  | second q => rw [update_of_ne (by simp)]; exact hsecond q

def Apart (disk : Nat → Content) (d : DiskInode) : Prop :=
  ∀ p p', d.part disk p ≠ 0 → d.part disk p = d.part disk p' → p = p'

lemma sub_write_of_ne (h : ent ≠ e) : sub (update disk e c) ent k = sub disk ent k := by
  simp only [sub, update_of_ne h]

lemma sub_setWord (he : e ≠ 0) : sub (update disk e ((disk e).setWord k v)) e j = if j = k then v else sub disk e j := by
  simp only [sub, if_neg he, update_self, Content.word_setWord, Function.update_apply]

section

variable (ha : d.Apart disk)
include ha

lemma sub_other_table (hne : p' ≠ p) :
    sub (update disk (d.part disk p) c) (d.part disk p') k = sub disk (d.part disk p') k := by
  by_cases h0 : d.part disk p' = 0
  · simp [sub, h0]
  · exact sub_write_of_ne fun heq => hne (ha p' p h0 heq)

lemma part_setWord_indirect (he : d.indirect ≠ 0) (hk : k < blkNentry) :
    d.part (update disk d.indirect ((disk d.indirect).setWord k v)) = update (d.part disk) (.leaf (ndirect + k)) v := by
  have hother : ∀ p' j c, p' ≠ .indirect → sub (update disk d.indirect c) (d.part disk p') j =
      sub disk (d.part disk p') j := fun p' j c hne => sub_other_table ha (p := .indirect) hne
  have hsecond : ∀ q c, d.second (update disk d.indirect c) q = d.second disk q := by
    intro q c
    simp only [second]
    split
    · exact hother .double q c (by simp)
    · rfl
  funext p
  cases p with
  | leaf j =>
    induction j using index_cases with
    | hd j hj => grind [part, bmap_direct]
    | hi j hj => grind [part, sub_setWord, bmap_indirect]
    | hdd q r hr =>
      rw [update_of_ne (by simp only [ne_eq, Part.leaf.injEq, doubleIndex]; omega)]
      simp only [part, bmap_double hr, hsecond]
      exact hother (.second q) r _ (by simp)
  | indirect => rw [update_of_ne (by simp)]; rfl
  | double => rw [update_of_ne (by simp)]; rfl
  | second q => rw [update_of_ne (by simp)]; exact hsecond q _

lemma part_setWord_second (he : d.second disk q ≠ 0) (hk : k < blkNentry) :
    d.part (update disk (d.second disk q) ((disk (d.second disk q)).setWord k v)) =
      update (d.part disk) (.leaf (doubleIndex q k)) v := by
  have hother : ∀ p' j c, p' ≠ .second q → sub (update disk (d.second disk q) c) (d.part disk p') j =
      sub disk (d.part disk p') j := fun p' j c hne => sub_other_table ha (p := .second q) hne
  have hsecond : ∀ q' c, d.second (update disk (d.second disk q) c) q' = d.second disk q' := by
    intro q' c
    simp only [second] at hother ⊢
    split
    · exact hother .double q' c (by simp)
    · rfl
  funext p
  cases p with
  | leaf j =>
    induction j using index_cases with
    | hd j hj =>
      rw [update_of_ne (by simp only [ne_eq, Part.leaf.injEq, doubleIndex]; omega)]
      simp only [part, bmap_direct hj]
    | hi j hj =>
      rw [update_of_ne (by simp only [ne_eq, Part.leaf.injEq, doubleIndex]; omega)]
      simp only [part, bmap_indirect hj]
      exact hother .indirect j _ (by simp)
    | hdd q' r hr =>
      simp only [part, bmap_double hr, hsecond]
      by_cases hq : q' = q
      · subst hq
        rw [sub_setWord he]
        grind [bmap_double, doubleIndex, part]
      have hne : doubleIndex q' r ≠ doubleIndex q k := fun heq => hq (by
        rw [← doubleIndex_div (q := q') hr, heq, doubleIndex_div hk])
      rw [update_of_ne (by simpa using hne)]
      exact (hother (.second q') r _ (by simpa using hq)).trans (bmap_double hr).symm
  | indirect => rw [update_of_ne (by simp)]; rfl
  | double => rw [update_of_ne (by simp)]; rfl
  | second q' => rw [update_of_ne (by simp)]; exact hsecond q' _

lemma part_setWord_double (he : d.dbIndirect ≠ 0) (hk : k < blkNentry)
    (hold : ∀ r, sub disk (d.second disk k) r = 0) (hv : v ≠ d.dbIndirect) (hnew : ∀ r, sub disk v r = 0) :
    d.part (update disk d.dbIndirect ((disk d.dbIndirect).setWord k v)) = update (d.part disk) (.second k) v := by
  have hother : ∀ p' j c, p' ≠ .double → sub (update disk d.dbIndirect c) (d.part disk p') j =
      sub disk (d.part disk p') j := fun p' j c hne => sub_other_table ha (p := .double) hne
  have hsecond : ∀ q, d.second (update disk d.dbIndirect ((disk d.dbIndirect).setWord k v)) q =
      if q = k then v else d.second disk q := by
    intro q
    simp only [second, sub_setWord he]
    by_cases hq : q < blkNentry
    · simp only [if_pos hq]
    · rw [if_neg hq, if_neg (by omega), if_neg hq]
  funext p
  cases p with
  | leaf j =>
    rw [update_of_ne (by simp)]
    induction j using index_cases with
    | hd j hj => simp only [part, bmap_direct hj]
    | hi j hj =>
      simp only [part, bmap_indirect hj]
      exact hother .indirect j _ (by simp)
    | hdd q r hr =>
      simp only [part, bmap_double hr, hsecond]
      by_cases hq : q = k
      · grind [sub_write_of_ne]
      · rw [if_neg hq]
        exact hother (.second q) r _ (by simp)
  | indirect => rw [update_of_ne (by simp)]; rfl
  | double => rw [update_of_ne (by simp)]; rfl
  | second q => grind [part]

end

end DiskInode

namespace Sfs

variable {s s' : Sfs}

def place (s : Sfs) : Role → Nat
  | .inode i => if (s.din i).isSome then i else 0
  | .part i p =>
    match s.din i with
    | some d => d.part s.disk p
    | none => 0

lemma place_inode (h : s.din i = some d) : s.place (.inode i) = i := by simp [place, h]

lemma place_part (h : s.din i = some d) : s.place (.part i p) = d.part s.disk p := by simp [place, h]

lemma place_part_none (h : s.din i = none) : s.place (.part i p) = 0 := by simp [place, h]

lemma din_of_node (h : s.node i = some x) : s.din i = some x.din := by simp [din, h]

lemma din_of_disk (h : s.node i = none) (hu : s.used i = true) : s.din i = (s.disk i).asInode := by
  simp [din, h, hu]

lemma din_unused (h : s.node i = none) (hu : s.used i = false) : s.din i = none := by simp [din, h, hu]

lemma used_iff : s.used b = true ↔ b < s.blocks ∧ s.freemap b = false ∧ ¬ Reserved s.blocks b := by
  simp [used, and_assoc]

lemma ne_zero_of_used (h : s.used b = true) : b ≠ 0 := by
  rintro rfl
  exact (used_iff.mp h).2.2 (.inl rfl)

lemma not_used_of_free (h : s.freemap b = true) : s.used b = false := by simp [used, h]

lemma place_congr (hdin : s'.din = s.din) (hdisk : ∀ i p, p.isTable = true → s.place (.part i p) ≠ 0 →
    s'.disk (s.place (.part i p)) = s.disk (s.place (.part i p))) : s'.place = s.place := by
  funext r
  cases r with
  | inode i => simp only [place, hdin]
  | part i p =>
    cases hd : s.din i with
    | none => simp only [place, hdin, hd]
    | some d =>
      rw [place_part hd, place_part (hdin ▸ hd)]
      refine congrFun (DiskInode.part_congr fun p' hp' h0 => ?_) p
      have := hdisk i p' hp'
      rw [place_part hd] at this
      exact this h0

lemma place_update (hi : s.din i = some d) (hi' : s'.din i = some d')
    (hpart : d'.part s'.disk = update (d.part s.disk) p v)
    (hdin : ∀ j, j ≠ i → s'.din j = s.din j)
    (hdisk : ∀ j q, j ≠ i → q.isTable = true → s.place (.part j q) ≠ 0 →
      s'.disk (s.place (.part j q)) = s.disk (s.place (.part j q))) :
    s'.place = update s.place (.part i p) v := by
  funext r
  cases r with
  | inode j => grind [place]
  | part j q =>
    by_cases hj : j = i
    · subst hj
      rw [place_part hi', hpart]
      grind [place_part]
    rw [update_of_ne (by simp [hj])]
    cases hd : s.din j with
    | none => rw [place_part_none hd, place_part_none ((hdin j hj).trans hd)]
    | some e =>
      rw [place_part hd, place_part ((hdin j hj).trans hd)]
      refine congrFun (DiskInode.part_congr fun q' hq' h0 => ?_) q
      have := hdisk j q' hj hq'
      rw [place_part hd] at this
      exact this h0

@[simp] lemma take_node : (s.take b).node = s.node := rfl
@[simp] lemma take_blocks : (s.take b).blocks = s.blocks := rfl
@[simp] lemma take_disk : (s.take b).disk = update s.disk b .zero := rfl
@[simp] lemma give_node : (s.give b).node = s.node := rfl
@[simp] lemma give_blocks : (s.give b).blocks = s.blocks := rfl
@[simp] lemma give_disk : (s.give b).disk = s.disk := rfl
@[simp] lemma write_node : (s.write b c).node = s.node := rfl
@[simp] lemma write_blocks : (s.write b c).blocks = s.blocks := rfl
@[simp] lemma write_disk : (s.write b c).disk = update s.disk b c := rfl
@[simp] lemma write_used : (s.write b c).used = s.used := rfl
@[simp] lemma setNode_node : (s.setNode i x).node = update s.node i x := rfl
@[simp] lemma setNode_blocks : (s.setNode i x).blocks = s.blocks := rfl
@[simp] lemma setNode_disk : (s.setNode i x).disk = s.disk := rfl
@[simp] lemma setNode_used : (s.setNode i x).used = s.used := rfl

lemma used_take (hb : b < s.blocks) (hr : ¬ Reserved s.blocks b) : (s.take b).used = update s.used b true := by
  funext c
  by_cases hc : c = b
  · subst hc
    simp [used, take, hb, hr]
  · simp only [used, take, update_of_ne hc]
    rfl

lemma used_give : (s.give b).used = update s.used b false := by
  funext c
  by_cases hc : c = b
  · subst hc
    simp [used, give]
  · simp only [used, give, update_of_ne hc]
    rfl

lemma din_take (hn : s.node b = none) (hu : s.used b = false) : (s.take b).din = s.din := by
  funext j
  by_cases hj : j = b
  · subst hj
    rw [din_unused hn hu]
    simp [din, hn]
  have hused : (s.take b).used j = s.used j := by
    simp only [used, take, update_of_ne hj]
    rfl
  simp only [din, take_node, take_disk, hused, update_of_ne hj]

lemma din_give (h : s.din b = none) : (s.give b).din = s.din := by
  funext j
  by_cases hj : j = b
  · subst hj
    rw [h]
    cases hn : s.node j with
    | none => exact din_unused hn (by simp [used_give])
    | some x => exact absurd (din_of_node hn) (by simp [h])
  · simp only [din, give_node, give_disk, used_give, update_of_ne hj]

lemma din_write (h : s.node b ≠ none ∨ (s.disk b).asInode = none ∧ c.asInode = none) : (s.write b c).din = s.din := by
  funext j
  by_cases hj : j = b
  · subst hj
    simp only [din, write_node, write_disk, write_used, update_self]
    rcases h with h | ⟨h, h'⟩
    · cases hn : s.node j with
      | none => exact absurd hn h
      | some x => rfl
    · rw [h, h']
  · simp only [din, write_node, write_disk, write_used, update_of_ne hj]

lemma din_setNode_of_ne (h : j ≠ i) : (s.setNode i x).din j = s.din j := by
  simp only [din, setNode_node, setNode_disk, setNode_used, update_of_ne h]
  rfl

lemma din_setNode_some : (s.setNode i (some x)).din i = some x.din := by simp [din]

end Sfs

end Ucore.Fs
