import Ucore.Fs.Sfs.Steps

/-!
# The block map keeps its accounts

Specifications of the block allocator and of the functions that read, extend and cut a
block map.
-/

namespace Ucore.Fs

open Function
open Lib (Ledger)
open Lib.Cmd
open Ucore.Fs.Part (doubleIndex)
open DiskInode (part bmap_direct bmap_indirect indirect second bmap part_setBlocks setBlocks)

lemma firstSet_some (h : firstSet bit n b = some c) :
    bit c = true ∧ b ≤ c ∧ c < b + n ∧ ∀ j, b ≤ j → j < c → bit j = false := by
  induction n generalizing b with
  | zero => cases h
  | succ n ih =>
    rw [firstSet] at h
    split at h
    · cases h
      exact ⟨‹_›, le_refl _, by omega, fun j hj hj' => by omega⟩
    · grind [Nat.eq_or_lt_of_le]

lemma firstSet_none (h : firstSet bit n b = none) (hj : b ≤ j) (hj' : j < b + n) : bit j = false := by
  induction n generalizing b with
  | zero => omega
  | succ n ih => grind [firstSet]

lemma le_freemapBits : n ≤ freemapBits n := by
  simp only [freemapBits, freemapBlocks, blkBits]
  omega

namespace Sfs

variable {s s' s'' : Sfs} {busy : Nat → Prop} {allowed : Panic → Prop}

structure Accounts (s : Sfs) : Prop where
  bits : ∀ b, s.freemap b = true → b < s.blocks ∧ ¬ Reserved s.blocks b
  unused : s.unusedBlocks = s.freeBits

lemma Inv.accounts (h : s.Inv busy) : s.Accounts := ⟨h.bits, h.unused⟩

lemma Accounts.take (h : s.Accounts) (hf : s.freemap b = true) : (s.take b).Accounts where
  bits c hc := by
    by_cases hcb : c = b
    · subst hcb
      simp [Sfs.take] at hc
    · simp only [Sfs.take, update_of_ne hcb] at hc
      exact h.bits c hc
  unused := by
    have hfree : (s.take b).freeBits = s.freeBits - 1 := freeBits_take (h.bits b hf).1 hf rfl rfl
    rw [hfree, ← h.unused]
    rfl

lemma Accounts.give (h : s.Accounts) (hu : s.used b = true) : (s.give b).Accounts where
  bits c hc := by
    by_cases hcb : c = b
    · subst hcb
      obtain ⟨hlt, -, hres⟩ := used_iff.mp hu
      exact ⟨hlt, hres⟩
    · simp only [Sfs.give, update_of_ne hcb] at hc
      exact h.bits c hc
  unused := by
    obtain ⟨hlt, hf, -⟩ := used_iff.mp hu
    have hfree : (s.give b).freeBits = s.freeBits + 1 := freeBits_give hlt hf rfl rfl
    rw [hfree, ← h.unused]
    rfl

structure Spends (n : Nat) (s s' : Sfs) : Prop where
  free : s.freeBits ≤ s'.freeBits + n
  mono : ∀ b, s'.freemap b = true → s.freemap b = true

lemma Spends.refl (s : Sfs) : Spends n s s := ⟨by omega, fun _ => id⟩

lemma Spends.of_eq (hblocks : s'.blocks = s.blocks) (hmap : s'.freemap = s.freemap) : Spends n s s' where
  free := by
    rw [freeBits, freeBits, hmap, hblocks]
    omega
  mono b hb := by rwa [hmap] at hb

lemma Spends.trans (h : Spends n s s') (h' : Spends m s' s'') : Spends (n + m) s s'' :=
  ⟨by have := h.free; have := h'.free; omega, fun b hb => h.mono b (h'.mono b hb)⟩

lemma Spends.le (h : Spends n s s') (hm : n ≤ m) : Spends m s s' := ⟨by have := h.free; omega, h.mono⟩

lemma Spends.of_take (hb : b < s.blocks) (hf : s.freemap b = true) (hblocks : s'.blocks = s.blocks)
    (hmap : s'.freemap = update s.freemap b false) : Spends 1 s s' where
  free := by
    rw [freeBits_take hb hf hblocks hmap]
    omega
  mono c hc := by
    by_cases hcb : c = b
    · exact hcb ▸ hf
    · rwa [hmap, update_of_ne hcb] at hc

lemma blockAlloc_ok (h : s.Accounts) : Sat allowed blockAlloc s
    (fun b s' => s.bitmapAlloc = some b ∧ s.freemap b = true ∧ s' = s.take b)
    (fun e s' => e = .noMem ∧ s' = s ∧ s.freeBits = 0) := by
  simp only [blockAlloc, sat_bind, sat_get]
  split
  · next hnone =>
    rw [sat_fail]
    refine ⟨rfl, rfl, Finset.card_eq_zero.mpr (Finset.filter_eq_empty_iff.mpr fun b hb => ?_)⟩
    have := firstSet_none hnone (Nat.zero_le b) (by have := le_freemapBits (n := s.blocks); simp at hb; omega)
    simp [this]
  · next b hsome =>
    obtain ⟨hf, -⟩ := firstSet_some hsome
    obtain ⟨hlt, hres⟩ := h.bits b hf
    have hpos : 0 < s.unusedBlocks := h.unused ▸ freeBits_pos hlt hf
    have hb0 : b ≠ 0 := by
      rintro rfl
      exact hres (.inl rfl)
    rw [sat_bind, sat_check hpos, sat_bind, sat_check ⟨hb0, hlt⟩, sat_bind, sat_modify, sat_pure]
    exact ⟨hsome, hf, rfl⟩

variable {Q : α → Sfs → Prop} {E : Errno → Sfs → Prop} {Q : Unit → Sfs → Prop}

section

variable (h : s.used b = true)
include h

lemma sat_blockInuse {Q : Bool → Sfs → Prop} : Sat allowed (blockInuse b) s Q E ↔ Q true s := by
  obtain ⟨hlt, hf, -⟩ := used_iff.mp h
  rw [blockInuse, sat_bind, sat_get, sat_bind, sat_check ⟨ne_zero_of_used h, hlt⟩, sat_pure, hf]
  rfl

lemma sat_blockFree : Sat allowed (blockFree b) s Q E ↔ Q () (s.give b) := by
  rw [blockFree, sat_bind, sat_blockInuse h, sat_bind, sat_check rfl, sat_modify]

lemma sat_readBlock {Q : Content → Sfs → Prop} : Sat allowed (readBlock b) s Q E ↔ Q (s.disk b) s := by
  obtain ⟨hlt, -⟩ := used_iff.mp h
  rw [readBlock, sat_bind, sat_get, sat_bind, sat_check ⟨ne_zero_of_used h, hlt⟩, sat_pure]

lemma sat_writeBlock : Sat allowed (writeBlock b c) s Q E ↔ Q () (s.write b c) := by
  obtain ⟨hlt, -⟩ := used_iff.mp h
  rw [writeBlock, sat_bind, sat_get, sat_bind, sat_check ⟨ne_zero_of_used h, hlt⟩, sat_modify]

end

lemma sat_sin {Q : Sin → Sfs → Prop} (h : s.node i = some x) : Sat allowed (sin i) s Q E ↔ Q x s := by
  simp [sin, h]

lemma sat_modifySin (h : s.node i = some x) :
    Sat allowed (modifySin i f) s Q E ↔ Q () (s.setNode i (some (f x))) := by
  rw [modifySin, sat_bind, sat_sin h, sat_modify]

-- Tables

def fill (s : Sfs) (e k b : Nat) : Sfs := (s.take b).write e (((s.take b).disk e).setWord k b)

lemma used_take_of_used (h : s.used e = true) (hf : s.freemap b = true) : (s.take b).used e = true := by
  obtain ⟨hlt, hfe, hres⟩ := used_iff.mp h
  have hne : e ≠ b := by
    rintro rfl
    simp [hfe] at hf
  exact used_iff.mpr ⟨hlt, by simp [Sfs.take, update_of_ne hne, hfe], hres⟩

lemma bmapFillSub_ok (h : s.Accounts) (he : s.used e = true) : Sat allowed (bmapFillSub old e k) s
    (fun r s' => ∃ b, s.freemap b = true ∧ r = (e, b) ∧ s' = s.fill e k b)
    (fun err s' => err = .noMem ∧ s.freeBits = 0 ∧ s' = if e ≠ old then s.give e else s) := by
  rw [bmapFillSub, sat_bind, sat_attempt]
  refine (blockAlloc_ok h).mono ?_ ?_
  · rintro b _ ⟨-, hf, rfl⟩
    have hused := used_take_of_used he hf
    rw [sat_bind, sat_readBlock hused, sat_bind, sat_writeBlock hused, sat_pure]
    exact ⟨b, hf, rfl, rfl⟩
  · rintro err _ ⟨rfl, rfl, h0⟩
    rw [sat_bind]
    by_cases hne : e ≠ old
    · rw [sat_when hne, sat_blockFree he]
      exact ⟨rfl, h0, by rw [if_pos hne]⟩
    · rw [sat_when_not hne]
      exact ⟨rfl, h0, by rw [if_neg hne]⟩

lemma sat_bmapGetSub {Q : Nat × Nat → Sfs → Prop} (hk : k < blkNentry) (he : e ≠ 0 → s.used e = true)
    (h : sub s.disk e k ≠ 0 ∨ create = false) :
    Sat allowed (bmapGetSub e k create) s Q E ↔ Q (e, sub s.disk e k) s := by
  rw [bmapGetSub, sat_bind, sat_check hk]
  by_cases h0 : e = 0
  · subst h0
    simp [sub, h.resolve_left]
  · simp only [sub, if_neg h0] at h ⊢
    rw [if_pos h0, sat_bind, sat_readBlock (he h0), if_pos h, sat_pure]

lemma bmapGetSub_fill (h : s.Accounts) (hk : k < blkNentry) (he : s.used e = true) (h0 : sub s.disk e k = 0) :
    Sat allowed (bmapGetSub e k true) s (fun r s' => ∃ b, s.freemap b = true ∧ r = (e, b) ∧ s' = s.fill e k b)
    (fun err s' => err = .noMem ∧ s.freeBits = 0 ∧ s' = s) := by
  have he0 : e ≠ 0 := ne_zero_of_used he
  rw [sub, if_neg he0] at h0
  rw [bmapGetSub, sat_bind, sat_check hk, if_pos he0, sat_bind, sat_readBlock he, if_neg (by simp [h0])]
  refine (bmapFillSub_ok h he).mono (fun _ _ => id) ?_
  simp

lemma bmapGetSub_new (h : s.Accounts) (hk : k < blkNentry) : Sat allowed (bmapGetSub 0 k true) s
    (fun r s' => ∃ e b, s.freemap e = true ∧ (s.take e).freemap b = true ∧ r = (e, b) ∧ s' = (s.take e).fill e k b)
    (fun err s' => err = .noMem ∧ s.freeBits ≤ 1 ∧ (s' = s ∨ ∃ e, s.freemap e = true ∧ s' = (s.take e).give e)) := by
  rw [bmapGetSub, sat_bind, sat_check hk, if_neg (by simp), if_neg (by simp)]
  refine (blockAlloc_ok h).bind ?_ ?_
  · rintro e _ ⟨-, hf, rfl⟩
    obtain ⟨hlt, hres⟩ := h.bits e hf
    have hused : (s.take e).used e = true := by simp [used_take hlt hres]
    refine (bmapFillSub_ok (h.take hf) hused).mono ?_ ?_
    · grind
    · rintro err _ ⟨rfl, hz, rfl⟩
      have hfree : (s.take e).freeBits = s.freeBits - 1 := freeBits_take hlt hf rfl rfl
      refine ⟨rfl, by omega, .inr ⟨e, hf, ?_⟩⟩
      rw [if_pos (ne_zero_of_used hused)]
  · grind

-- Extending a block map

structure NoRoom (n : Nat) (s : Sfs) (busy : Nat → Prop) (e : Errno) (s' : Sfs) : Prop where
  code : e = .noMem
  room : s.freeBits < n
  kept : Kept s s'
  inv : s'.Inv busy
  vol : s'.vol = s.vol

lemma NoRoom.mono (h : NoRoom n s busy e s') (hn : n ≤ m) : NoRoom m s busy e s' :=
  { h with room := lt_of_lt_of_le h.room hn }

structure NewPart (s : Sfs) (busy : Nat → Prop) (i : Nat) (p : Part) (n b : Nat) (s' : Sfs)
    (s₀ : Sfs) (x₀ x' : Sin) : Prop where
  inv : s₀.Inv busy
  vol : s₀.vol = s.vol
  kept : Kept s s₀
  spends : Spends n s s₀
  free : s₀.freemap b = true
  empty : s₀.place (.part i p) = 0
  remap : Remap s₀ s' i p b x₀ x'
  blocks : x'.din.blocks = x₀.din.blocks
  dirty : x'.dirty = true ∨ x' = x₀
  freemap : s'.freemap = update s₀.freemap b false
  unused : s'.unusedBlocks = s₀.unusedBlocks - 1
  zero : s'.disk b = .zero

section

variable (h : s.Inv busy)
include h

lemma Inv.blocks_le (hd : s.din i = some d) : d.blocks ≤ s.blocks := by
  have hcard := Finset.card_le_card_of_injOn (s := Finset.range d.blocks) (t := Finset.range s.blocks)
    (fun k => s.place (.part i (.leaf k))) ?_ ?_
  · simpa using hcard
  · intro k hk
    have h0 := (h.mapped i d hd k).mpr (by simpa using hk)
    simpa using (used_iff.mp (h.used_place h0)).1
  · intro k hk k' _ heq
    have h0 := (h.mapped i d hd k).mpr (by simpa using hk)
    simpa using h.ledger.inj _ _ h0 heq

def tableCost (k : Nat) : Nat :=
  if k < ndirect then 0
  else if k < ndirect + blkNentry then if k = ndirect then 1 else 0
  else (if k = ndirect + blkNentry then 1 else 0) + if (k - ndirect - blkNentry) % blkNentry = 0 then 1 else 0

omit h in
lemma tableCost_le (k : Nat) : tableCost k ≤ 2 := by
  unfold tableCost
  split
  · omega
  · split <;> split <;> (try split) <;> omega

omit h in
lemma bmapGetPtr_new (ptr : DiskInode → Nat) (set : Nat → DiskInode → DiskInode)
    (h : s.Inv busy) (hx : s.node i = some x) (hk : k < blkNentry) (hP : P.isTable = true)
    (hptr : ∀ disk d, part disk d P = ptr d) (hset : ∀ e d, ptr (set e d) = e)
    (hblocks : ∀ e d, (set e d).blocks = d.blocks) (h0 : sub s.disk (ptr x.din) k = 0)
    (hnew : ∀ e, s.freemap e = true → ptr x.din = 0 →
    Remap s ((s.take e).setNode i (some (x.touch (set e)))) i P e x (x.touch (set e)))
    (hchild : ∀ (s0 : Sfs) x0, s0.node i = some x0 → s0.place (.part i p) = sub s0.disk (ptr x0.din) k)
    (hword : ∀ s0 x0 b, s0.Inv busy → s0.node i = some x0 → s0.freemap b = true → ptr x0.din ≠ 0 →
    sub s0.disk (ptr x0.din) k = 0 → Remap s0 (s0.fill (ptr x0.din) k b) i p b x0 x0) :
    Sat allowed (bmapGetPtr i (ptr x.din) set k true) s
    (fun b s' => ∃ s0 x0, NewPart s busy i p (if ptr x.din = 0 then 1 else 0) b s' s0 x0 x0 ∧
    x0.din.blocks = x.din.blocks)
    (fun e s' => NoRoom ((if ptr x.din = 0 then 1 else 0) + 1) s busy e s') := by
  have hplace : s.place (.part i P) = ptr x.din := by rw [place_part (din_of_node hx), hptr]
  rw [bmapGetPtr, sat_bind]
  by_cases hp0 : ptr x.din = 0
  · rw [hp0, if_pos rfl]
    refine (bmapGetSub_new h.accounts hk).mono ?_ ?_
    · rintro _ _ ⟨e, b, hfe, hfb, rfl, rfl⟩
      have hr := hnew e hfe hp0
      have he0 : e ≠ 0 := h.ne_zero_of_free hfe
      obtain ⟨hinv, hvol⟩ := h.grow_table hr hP (hblocks ..) (.inl rfl) hfe (hplace.trans hp0) rfl rfl
      have hz : sub ((s.take e).setNode i (some (x.touch (set e)))).disk e k = 0 := h.sub_take hfe
      have hw := hword _ _ b hinv (update_self ..) hfb
        (by simpa only [Sin.touch, hset] using he0) (by simpa only [Sin.touch, hset] using hz)
      have hempty := hchild _ _ hr.after
      simp only [Sin.touch, hset] at hw hempty
      have hbe : b ≠ e := by
        rintro rfl
        simp [take] at hfb
      dsimp only
      have hx' : ((s.take e).fill e k b).node i = some x := hx
      rw [sat_bind, sat_when he0, sat_bind, sat_check rfl, sat_modifySin hx', sat_pure]
      refine ⟨_, _, ⟨hinv, hvol, hr.kept, .of_take (h.bits e hfe).1 hfe rfl rfl, hfb, hempty.trans hz, hw, rfl, .inr rfl,
        rfl, rfl, ?_⟩, hblocks ..⟩
      simp [fill, update_of_ne hbe]
    · rintro err s' ⟨rfl, hroom, hs'⟩
      rcases hs' with rfl | ⟨e, hfe, rfl⟩
      · exact ⟨rfl, by omega, .refl _, h, rfl⟩
      · obtain ⟨hinv, hvol⟩ := h.take_give hfe
        exact ⟨rfl, by omega, (Kept.take (h.bits e hfe).2).trans .give, hinv, hvol⟩
  · have hused : s.used (ptr x.din) = true := hplace ▸ h.used_place (hplace ▸ hp0)
    rw [if_neg hp0]
    refine (bmapGetSub_fill h.accounts hk hused h0).mono ?_ ?_
    · rintro _ _ ⟨b, hfb, rfl, rfl⟩
      have hbe : b ≠ ptr x.din := by
        rintro rfl
        simp [not_used_of_free hfb] at hused
      dsimp only
      rw [sat_bind, sat_when_not (by simp), sat_pure]
      refine ⟨s, x, ⟨h, rfl, .refl s, .refl s, hfb, (hchild s x hx).trans h0, hword s x b h hx hfb hp0 h0, rfl,
        .inr rfl, rfl, rfl, ?_⟩, rfl⟩
      simp [fill, update_of_ne hbe]
    · rintro err _ ⟨rfl, hz, rfl⟩
      exact ⟨rfl, by omega, .refl _, h, rfl⟩

omit h in
lemma NewPart.used (h : NewPart s busy i p n b s' s0 x0 x') : s'.used b = true := by
  simp [used_iff, h.inv.bits, h.free, h.remap.kept.blocks, h.freemap]

omit h in
lemma NewPart.mono (h : NewPart s busy i p n b s' s0 x0 x') (hn : n ≤ m) : NewPart s busy i p m b s' s0 x0 x' :=
  { h with spends := h.spends.le hn }

omit h in
lemma NewPart.table (h : NewPart s busy i p n b s' s0 x0 x') (hp : p.isTable = true) :
    s'.Inv busy ∧ s'.vol = s.vol ∧ Kept s s' ∧ Spends (n + 1) s s' := by
  obtain ⟨hinv, hvol⟩ := h.inv.grow_table h.remap hp h.blocks h.dirty h.free h.empty h.freemap h.unused
  exact ⟨hinv, hvol.trans h.vol, h.kept.trans h.remap.kept,
    h.spends.trans (.of_take (h.inv.bits b h.free).1 h.free h.remap.kept.blocks h.freemap)⟩

omit h in
lemma sat_bmapGetPtr {set : Nat → DiskInode → DiskInode} {Q : Nat → Sfs → Prop} (hk : k < blkNentry)
    (hp : ptr ≠ 0 → s.used ptr = true) (h : sub s.disk ptr k ≠ 0 ∨ create = false) :
    Sat allowed (bmapGetPtr i ptr set k create) s Q E ↔ Q (sub s.disk ptr k) s := by
  rw [bmapGetPtr, sat_bind, sat_bmapGetSub hk hp h]
  dsimp only
  rw [sat_bind, sat_when_not (by simp), sat_pure]

section

variable (hx : s.node i = some x)
include hx

lemma used_ptr (hp : x.din.part s.disk p ≠ 0) : s.used (x.din.part s.disk p) = true := by
  rw [← place_part (din_of_node hx)] at hp ⊢
  exact h.used_place hp

lemma used_indirect (hp : x.din.indirect ≠ 0) : s.used x.din.indirect = true := used_ptr h hx (p := .indirect) hp

lemma used_dbIndirect (hp : x.din.dbIndirect ≠ 0) : s.used x.din.dbIndirect = true := used_ptr h hx (p := .double) hp

lemma place_leaf_blocks : s.place (.part i (.leaf x.din.blocks)) = 0 := by
  by_contra hne
  exact absurd ((h.mapped i _ (din_of_node hx) _).mp hne) (by omega)

lemma bmap_leaf_blocks : x.din.bmap s.disk x.din.blocks = 0 := by
  have := place_leaf_blocks h hx
  rwa [place_part (din_of_node hx)] at this

lemma place_leaf_last (hk : x.din.blocks = k + 1) : x.din.bmap s.disk k ≠ 0 := by
  have := (h.mapped i _ (din_of_node hx) k).mpr (by omega)
  rwa [place_part (din_of_node hx)] at this

abbrev NewLeaf (s : Sfs) (busy : Nat → Prop) (i n b : Nat) (s' : Sfs) : Prop :=
  ∃ s₀ x₀ x', NewPart s busy i (.leaf n) (tableCost n) b s' s₀ x₀ x' ∧ x₀.din.blocks = n

lemma bmapGetDirect_new (hk : x.din.blocks < ndirect) : Sat allowed (bmapGetDirect i x.din x.din.blocks true) s
    (NewLeaf s busy i x.din.blocks) (NoRoom (tableCost x.din.blocks + 1) s busy) := by
  have hcost : tableCost x.din.blocks = 0 := if_pos hk
  rw [hcost]
  have h0 : x.din.direct x.din.blocks = 0 := by rw [← bmap_direct hk, bmap_leaf_blocks h hx]
  rw [bmapGetDirect, if_pos ⟨h0, rfl⟩]
  refine (blockAlloc_ok h.accounts).bind ?_ ?_
  · rintro b _ ⟨-, hf, rfl⟩
    have hx' : (s.take b).node i = some x := hx
    rw [sat_bind, sat_modifySin hx', sat_pure]
    exact ⟨s, x, _, ⟨h, rfl, .refl s, .refl s, hf, place_leaf_blocks h hx, h.remap_direct hx hf hk, rfl, .inl rfl,
      rfl, rfl, update_self ..⟩, rfl⟩
  · rintro e _ ⟨rfl, rfl, hz⟩
    exact ⟨rfl, by omega, .refl _, h, rfl⟩

lemma bmapGetIndirect_new (hk : ndirect + k = x.din.blocks) (hk' : k < blkNentry) :
    Sat allowed (bmapGetIndirect i x.din k true) s
    (NewLeaf s busy i x.din.blocks) (NoRoom (tableCost x.din.blocks + 1) s busy) := by
  have hcost : (if x.din.indirect = 0 then 1 else 0) ≤ tableCost x.din.blocks := by
    have h1 : ¬ x.din.blocks < ndirect := by omega
    have h2 : x.din.blocks < ndirect + blkNentry := by omega
    rw [tableCost, if_neg h1, if_pos h2]
    cases k with
    | zero => split <;> simp [← hk]
    | succ k =>
      have hlast := place_leaf_last h hx (k := ndirect + k) (by omega)
      rw [bmap_indirect (by omega)] at hlast
      have hne : x.din.indirect ≠ 0 := fun hz => hlast (by rw [hz]; rfl)
      simp [hne]
  have h0 : sub s.disk x.din.indirect k = 0 := by
    rw [← bmap_indirect hk', hk]
    exact bmap_leaf_blocks h hx
  refine (bmapGetPtr_new indirect .setIndirect (p := .leaf x.din.blocks) h hx hk' (P := .indirect) rfl
    (fun _ _ => rfl) (fun _ _ => rfl) (fun _ _ => rfl) h0 (fun e => h.remap_indirect hx) ?_ ?_).mono ?_
    fun _ _ hE => hE.mono (by omega)
  · intro s0 x0 hx0
    rw [place_part (din_of_node hx0), ← hk]
    exact bmap_indirect hk'
  · intro s0 x0 b h₀ hx0 hf hz _
    rw [← hk]
    exact h₀.remap_word_indirect hx0 hf hz hk'
  · rintro b s' ⟨s0, x0, hnew, hb⟩
    exact ⟨s0, x0, x0, hnew.mono hcost, hb⟩

lemma bmapGetTable_ok (hq : q < blkNentry) : Sat allowed (bmapGetPtr i x.din.dbIndirect .setDbIndirect q true) s
    (fun e s' => s'.Inv busy ∧ s'.vol = s.vol ∧ Kept s s' ∧
    Spends ((if x.din.dbIndirect = 0 then 1 else 0) + if sub s.disk x.din.dbIndirect q = 0 then 1 else 0) s s' ∧
    (∃ x', s'.node i = some x' ∧ x'.din.blocks = x.din.blocks) ∧
    s'.place (.part i (.second q)) = e ∧ e ≠ 0)
    (fun e s' =>
    NoRoom ((if x.din.dbIndirect = 0 then 1 else 0) + (if sub s.disk x.din.dbIndirect q = 0 then 1 else 0) + 1)
    s busy e s') := by
  have hsecond : ∀ {s : Sfs} {x : Sin}, s.node i = some x →
    s.place (.part i (.second q)) = sub s.disk x.din.dbIndirect q := by
    intro s x hx
    rw [place_part (din_of_node hx)]
    simp only [part, second, if_pos hq]
  by_cases h0 : sub s.disk x.din.dbIndirect q = 0
  · refine (bmapGetPtr_new DiskInode.dbIndirect .setDbIndirect (p := .second q) h hx hq (P := .double) rfl
      (fun _ _ => rfl) (fun _ _ => rfl) (fun _ _ => rfl) h0 (fun e => h.remap_dbIndirect hx)
      (fun _ _ => hsecond) ?_).mono ?_ fun _ _ hE => hE.mono (by omega)
    · intro s0 x0 b h₀ hx0 hf hz hsub
      exact h₀.remap_word_double hx0 hf hz hq ((hsecond hx0).trans hsub)
    · rintro e s' ⟨s0, x0, hnew, hb⟩
      obtain ⟨hinv, hvol, hkept, hsp⟩ := hnew.table rfl
      rw [if_pos h0]
      refine ⟨hinv, hvol, hkept, hsp, ⟨x0, hnew.remap.after, hb⟩, ?_, hnew.inv.ne_zero_of_free hnew.free⟩
      rw [hnew.remap.place, update_self]
  · rw [sat_bmapGetPtr hq (used_dbIndirect h hx) (.inl h0)]
    exact ⟨h, rfl, .refl _, .refl _, ⟨x, hx, rfl⟩, hsecond hx, h0⟩

lemma double_cost (hk : ndirect + blkNentry + k = x.din.blocks) :
    (if x.din.dbIndirect = 0 then 1 else 0) + (if sub s.disk x.din.dbIndirect (k / blkNentry) = 0 then 1 else 0) ≤
      tableCost x.din.blocks := by
  have h1 : ¬ x.din.blocks < ndirect := by omega
  have h2 : ¬ x.din.blocks < ndirect + blkNentry := by omega
  have hk' : x.din.blocks - ndirect - blkNentry = k := by omega
  rw [tableCost, if_neg h1, if_neg h2, hk']
  cases k with
  | zero =>
    rw [if_pos (show x.din.blocks = ndirect + blkNentry by omega), Nat.zero_mod, if_pos rfl]
    split <;> split <;> omega
  | succ k =>
    have hlast := place_leaf_last h hx (k := ndirect + blkNentry + k) (by omega)
    have h1' : ¬ ndirect + blkNentry + k < ndirect := by omega
    have h2' : ¬ ndirect + blkNentry + k - ndirect < blkNentry := by omega
    have h3 : ndirect + blkNentry + k - ndirect - blkNentry = k := by omega
    rw [bmap, if_neg h1', if_neg h2', h3] at hlast
    have hsecond : sub s.disk x.din.dbIndirect (k / blkNentry) ≠ 0 := by
      intro hz
      refine hlast ?_
      rw [second, hz, ite_self]
      rfl
    have hdouble : x.din.dbIndirect ≠ 0 := fun hz => hsecond (by rw [hz]; rfl)
    rw [if_neg hdouble, if_neg (show x.din.blocks ≠ ndirect + blkNentry by omega)]
    by_cases hmod : (k + 1) % blkNentry = 0
    · rw [if_pos hmod]
      split <;> omega
    have hdiv : (k + 1) / blkNentry = k / blkNentry := by
      rw [Nat.succ_div, if_neg (fun hdvd => hmod (Nat.mod_eq_zero_of_dvd hdvd)), Nat.add_zero]
    rw [hdiv, if_neg hsecond]
    omega

lemma bmapGetDouble_new (hk : ndirect + blkNentry + k = x.din.blocks) : Sat allowed (bmapGetDouble i x.din k true) s
    (NewLeaf s busy i x.din.blocks) (NoRoom (tableCost x.din.blocks + 1) s busy) := by
  have hq : k / blkNentry < blkNentry := by
    have := h.blocks_le (din_of_node hx)
    have := h.small
    simp only [ndirect, blkNentry] at *
    omega
  have hindex : doubleIndex (k / blkNentry) (k % blkNentry) = x.din.blocks := by
    rw [← hk, doubleIndex]
    have := Nat.div_add_mod k blkNentry
    omega
  have hcost := double_cost h hx hk
  rw [bmapGetDouble]
  refine (bmapGetTable_ok h hx hq).bind ?_ fun _ _ hE => hE.mono (by omega)
  rintro e s0 ⟨h0, hvol, hkept, hsp, ⟨x0, hx0, hb⟩, hplace, he0⟩
  have hused : s0.used e = true := hplace ▸ h0.used_place (hplace ▸ he0)
  have hempty : s0.place (.part i (.leaf x.din.blocks)) = 0 := hb ▸ place_leaf_blocks h0 hx0
  have hsub : sub s0.disk e (k % blkNentry) = 0 := by
    rw [place_part (din_of_node hx0)] at hplace hempty
    rw [← hindex] at hempty
    rw [← hplace]
    exact (DiskInode.bmap_double mod_lt_blkNentry).symm.trans hempty
  rw [if_pos he0]
  refine (bmapGetSub_fill h0.accounts mod_lt_blkNentry hused hsub).bind ?_ ?_
  · rintro _ _ ⟨b, hf, rfl, rfl⟩
    have hbe : b ≠ e := by
      rintro rfl
      simp [not_used_of_free hf] at hused
    have hr := h0.remap_word_second hx0 hf hplace he0 (k := k % blkNentry) mod_lt_blkNentry
    rw [hindex] at hr
    refine ⟨s0, x0, x0, ⟨h0, hvol, hkept, hsp.le hcost, hf, hempty, hr, rfl, .inr rfl, rfl, rfl, ?_⟩, hb⟩
    simp [fill, update_of_ne hbe]
  · rintro err _ ⟨rfl, hz, rfl⟩
    have := hsp.free
    exact ⟨rfl, by omega, hkept, h0, hvol⟩

end

omit h in
lemma sat_checkInuse (h : b ≠ 0 → s.used b = true) :
    Sat allowed (when (b ≠ 0) do let inuse ← blockInuse b; check (inuse = true) Panic.assertion) s Q E ↔ Q () s := by
  by_cases hb : b ≠ 0
  · rw [sat_when hb, sat_bind, sat_blockInuse (h hb), sat_check rfl]
  · rw [sat_when_not hb]

section

variable (hx : s.node i = some x)
include hx

lemma bmapGet_new : Sat allowed (bmapGet i x.din.blocks true) s
    (NewLeaf s busy i x.din.blocks) (NoRoom (tableCost x.din.blocks + 1) s busy) := by
  have hrange : Sat allowed (bmapGetRange i x.din x.din.blocks true) s
      (NewLeaf s busy i x.din.blocks) (NoRoom (tableCost x.din.blocks + 1) s busy) := by
    unfold bmapGetRange
    by_cases h1 : x.din.blocks < ndirect
    · rw [if_pos h1]
      exact bmapGetDirect_new h hx h1
    by_cases h2 : x.din.blocks - ndirect < blkNentry
    · rw [if_neg h1, if_pos h2]
      exact bmapGetIndirect_new h hx (by omega) h2
    · rw [if_neg h1, if_neg h2]
      exact bmapGetDouble_new h hx (by omega)
  rw [bmapGet, sat_bind, sat_sin hx, sat_bind]
  refine hrange.imp ?_
  grind [sat_checkInuse, sat_pure, sat_bind, NewPart.used]

lemma leaf_mapped (hk : k < x.din.blocks) :
    (k - ndirect - blkNentry) / blkNentry < blkNentry ∧ s.place (.part i (.leaf k)) = x.din.bmap s.disk k ∧
    s.place (.part i (.leaf k)) ≠ 0 := by
  refine ⟨?_, place_part (din_of_node hx), (h.mapped i _ (din_of_node hx) k).mpr hk⟩
  have := h.blocks_le (din_of_node hx)
  have := h.small
  simp only [ndirect, blkNentry] at *
  omega

lemma sat_bmapGet {Q : Nat → Sfs → Prop} (hk : k < x.din.blocks) :
    Sat allowed (bmapGet i k false) s Q E ↔ Q (s.place (.part i (.leaf k))) s := by
  obtain ⟨hq, hplace, h0⟩ := leaf_mapped h hx hk
  have hrange : ∀ Q : Nat → Sfs → Prop, Sat allowed (bmapGetRange i x.din k false) s Q E ↔
    Q (s.place (.part i (.leaf k))) s := by
    intro Q
    rw [hplace] at h0 ⊢
    unfold bmapGetRange bmap
    by_cases h1 : k < ndirect
    · rw [if_pos h1, if_pos h1, bmapGetDirect, if_neg (by simp), sat_pure]
    by_cases h2 : k - ndirect < blkNentry
    · rw [if_neg h1, if_pos h2, if_neg h1, if_pos h2, bmapGetIndirect, sat_bmapGetPtr h2 (used_indirect h hx) (.inr rfl)]
    have hsecond : x.din.part s.disk (.second ((k - ndirect - blkNentry) / blkNentry)) =
        sub s.disk x.din.dbIndirect ((k - ndirect - blkNentry) / blkNentry) := by
      simp only [part, second, if_pos hq]
    have htable : sub s.disk x.din.dbIndirect ((k - ndirect - blkNentry) / blkNentry) ≠ 0 := by
      intro hz
      rw [bmap, if_neg h1, if_neg h2] at h0
      rw [← hsecond, part] at hz
      simp [sub, hz] at h0
    rw [if_neg h1, if_neg h2, if_neg h1, if_neg h2, bmapGetDouble, sat_bind,
      sat_bmapGetPtr hq (used_dbIndirect h hx) (.inr rfl), if_pos htable, sat_bind,
      sat_bmapGetSub mod_lt_blkNentry (fun hp => hsecond ▸ used_ptr h hx (hsecond ▸ hp)) (.inr rfl), sat_pure,
      ← hsecond]
    rfl
  rw [bmapGet, sat_bind, sat_sin hx, sat_bind, hrange, sat_bind, sat_checkInuse fun _ => h.used_place h0, sat_pure]

lemma sat_bmapLoad {Q : Nat → Sfs → Prop} (hk : k < x.din.blocks) :
    Sat allowed (bmapLoad i k) s Q E ↔ Q (s.place (.part i (.leaf k))) s := by
  have h0 := (h.mapped i _ (din_of_node hx) k).mpr hk
  have hcreate : decide (k = x.din.blocks) = false := by simp; omega
  rw [bmapLoad, sat_bind, sat_sin hx, sat_bind, sat_check (by omega), hcreate, sat_bind, sat_bmapGet h hx hk, sat_bind,
    sat_blockInuse (h.used_place h0), sat_bind, sat_check rfl, sat_bind, sat_when_not (by omega), sat_pure]

structure Extended (s : Sfs) (busy : Nat → Prop) (i k b : Nat) (s' : Sfs) : Prop where
  inv : s'.Inv fun j => busy j ∨ j = i
  vol : s'.vol = s.vol.modFile i (.put k .zero)
  kept : Kept s s'
  spends : Spends (tableCost k + 1) s s'
  place : s'.place (.part i (.leaf k)) = b
  ne_zero : b ≠ 0

lemma bmapLoad_new : Sat allowed (bmapLoad i x.din.blocks) s
    (Extended s busy i x.din.blocks) (NoRoom (tableCost x.din.blocks + 1) s busy) := by
  rw [bmapLoad, sat_bind, sat_sin hx, sat_bind, sat_check (le_refl _), sat_bind, decide_eq_true rfl]
  refine (bmapGet_new h hx).imp ?_
  rintro b s' ⟨s0, x0, x', hnew, hb⟩
  rw [sat_bind, sat_blockInuse hnew.used, sat_bind, sat_check rfl, sat_bind, sat_when rfl,
    sat_modifySin hnew.remap.after, sat_pure]
  have hr := hnew.remap.recount { x' with din := x'.din.setBlocks (x'.din.blocks + 1) }
    ⟨rfl, rfl, rfl, rfl, rfl, rfl, rfl⟩ fun _ => part_setBlocks
  rw [← hb] at hr
  obtain ⟨hinv, hvol⟩ :=
    hnew.inv.grow_leaf hr (by simp [setBlocks, hnew.blocks]) hnew.free hnew.freemap hnew.unused hnew.zero
  rw [hb] at hvol hr
  refine ⟨hinv, hvol.trans (by rw [hnew.vol]), hnew.kept.trans hr.kept, ?_, ?_, hnew.inv.ne_zero_of_free hnew.free⟩
  · exact hnew.spends.trans (.of_take (hnew.inv.bits b hnew.free).1 hnew.free hr.kept.blocks hnew.freemap)
  · rw [hr.place, update_self]

end

-- Cutting a block map

omit h in
lemma sat_bmapFreeSub (he : s.used e = true) (hk : k < blkNentry)
    (h0 : sub s.disk e k = b) (hb0 : b ≠ 0) (hb : s.used b = true) :
    Sat allowed (bmapFreeSub e k) s Q E ↔ Q () ((s.write e ((s.disk e).setWord k 0)).give b) := by
  rw [sub, if_neg (ne_zero_of_used he)] at h0
  subst h0
  have hb' : (s.write e ((s.disk e).setWord k 0)).used ((s.disk e).word k) = true := hb
  rw [bmapFreeSub, sat_bind, sat_blockInuse he, sat_bind, sat_check ⟨rfl, hk⟩, sat_bind, sat_readBlock he,
    sat_when hb0, sat_bind, sat_writeBlock he, sat_blockFree hb']

omit h in
lemma sat_bmapFreeSub_empty (he : s.used e = true) (hk : k < blkNentry)
    (h0 : sub s.disk e k = 0) : Sat allowed (bmapFreeSub e k) s Q E ↔ Q () s := by
  rw [sub, if_neg (ne_zero_of_used he)] at h0
  rw [bmapFreeSub, sat_bind, sat_blockInuse he, sat_bind, sat_check ⟨rfl, hk⟩, sat_bind, sat_readBlock he,
    sat_when_not (by simpa using h0)]

structure LostLeaf (s : Sfs) (i n : Nat) (x : Sin) (s' : Sfs) (x' : Sin) : Prop where
  remap : Remap s s' i (.leaf n) 0 x x'
  blocks : x'.din.blocks = x.din.blocks
  freemap : s'.freemap = update s.freemap (s.place (.part i (.leaf n))) true
  unused : s'.unusedBlocks = s.unusedBlocks + 1

lemma bmapFree_ok (hx : s.node i = some x) (hn : n < x.din.blocks) :
    Sat allowed (bmapFree i n) s (fun _ s' => ∃ x', LostLeaf s i n x s' x') E := by
  obtain ⟨hq, hplace, h0⟩ := leaf_mapped h hx hn
  have hused := h.used_place h0
  rw [bmapFree, sat_bind, sat_sin hx]
  by_cases h1 : n < ndirect
  · have hd : x.din.direct n = s.place (.part i (.leaf n)) := by rw [hplace, bmap_direct h1]
    have hx' : (s.give (s.place (.part i (.leaf n)))).node i = some x := hx
    rw [if_pos h1, hd, sat_when h0, sat_bind, sat_blockFree hused, sat_modifySin hx']
    exact ⟨_, h.remap_give_direct hx h1 rfl h0, rfl, rfl, rfl⟩
  by_cases h2 : n - ndirect < blkNentry
  · have hsub : sub s.disk x.din.indirect (n - ndirect) = s.place (.part i (.leaf n)) := by
      rw [hplace, bmap, if_neg h1, if_pos h2]
    have hp0 : x.din.indirect ≠ 0 := fun hz => h0 (by rw [← hsub, hz]; rfl)
    rw [if_neg h1, if_pos h2, sat_when hp0, sat_bmapFreeSub (used_indirect h hx hp0) h2 hsub h0 hused]
    refine ⟨x, h.remap_give_word hx (P := .indirect) rfl (place_part (din_of_node hx)) hp0 rfl h0 ?_, rfl, rfl, rfl⟩
    have := DiskInode.part_setWord_indirect (v := 0) (h.apart (din_of_node hx)) hp0 h2
    rwa [show ndirect + (n - ndirect) = n by omega] at this
  have hsecond : x.din.part s.disk (.second ((n - ndirect - blkNentry) / blkNentry)) =
      sub s.disk x.din.dbIndirect ((n - ndirect - blkNentry) / blkNentry) := by
    simp only [part, second, if_pos hq]
  have hsub : sub s.disk (sub s.disk x.din.dbIndirect ((n - ndirect - blkNentry) / blkNentry))
      ((n - ndirect - blkNentry) % blkNentry) = s.place (.part i (.leaf n)) := by
    rw [hplace, bmap, if_neg h1, if_neg h2, ← hsecond]
    rfl
  have ht0 : sub s.disk x.din.dbIndirect ((n - ndirect - blkNentry) / blkNentry) ≠ 0 :=
    fun hz => h0 (by rw [← hsub, hz]; rfl)
  have hp0 : x.din.dbIndirect ≠ 0 := fun hz => ht0 (by rw [hz]; rfl)
  have htused : s.used (sub s.disk x.din.dbIndirect ((n - ndirect - blkNentry) / blkNentry)) = true :=
    hsecond ▸ used_ptr h hx (hsecond ▸ ht0)
  rw [if_neg h1, if_neg h2, sat_when hp0, sat_bind, sat_bmapGetSub hq (used_dbIndirect h hx) (.inr rfl),
    sat_when ht0, sat_bmapFreeSub htused mod_lt_blkNentry hsub h0 hused]
  refine ⟨x, h.remap_give_word hx (P := .second ((n - ndirect - blkNentry) / blkNentry)) rfl
    ((place_part (din_of_node hx)).trans hsecond) ht0 rfl h0 ?_, rfl, rfl, rfl⟩
  have := DiskInode.part_setWord_second (v := 0) (k := (n - ndirect - blkNentry) % blkNentry)
    (h.apart (din_of_node hx)) (hsecond ▸ ht0) mod_lt_blkNentry
  rwa [doubleIndex_eq h1 h2, ← part, hsecond] at this

lemma bmapTruncate_ok (hx : s.node i = some x) (hn : x.din.blocks = n + 1) : Sat allowed (bmapTruncate i) s
    (fun _ s' => s'.Inv busy ∧ s'.vol = s.vol.modFile i (.cut n) ∧ Kept s s' ∧
    (∃ x', s'.node i = some x' ∧ x'.din.blocks = n) ∧ ∀ r, r.ino ≠ i → s'.place r = s.place r) E := by
  rw [bmapTruncate, sat_bind, sat_sin hx, sat_bind, sat_check (by omega), sat_bind]
  refine (bmapFree_ok h hx (by omega)).imp ?_
  rintro _ s' ⟨x', hlost⟩
  rw [sat_modifySin hlost.remap.after]
  have hr := hlost.remap.recount (x'.touch (.setBlocks (x'.din.blocks - 1)))
    ⟨rfl, rfl, rfl, rfl, rfl, rfl, rfl⟩ fun _ => part_setBlocks
  rw [show x.din.blocks - 1 = n by omega] at hr hlost
  have hblocks : (x'.touch (.setBlocks (x'.din.blocks - 1))).din.blocks = n := by
    simp [Sin.touch, setBlocks, hlost.blocks, hn]
  obtain ⟨hinv, hvol⟩ := h.shrink_leaf hr hn hblocks rfl hlost.freemap hlost.unused
  refine ⟨hinv, hvol, hr.kept, ⟨_, hr.after, hblocks⟩, fun r hne => ?_⟩
  rw [hr.place, update_of_ne]
  rintro rfl
  exact hne rfl

end

end Sfs

end Ucore.Fs
