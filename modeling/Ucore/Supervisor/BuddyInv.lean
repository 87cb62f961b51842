import Ucore.Lib.Aligned
import Ucore.Lib.Chain
import Ucore.Supervisor.Buddy

/-!
# The free lists hold disjoint aligned blocks

`held` are the pages that are out of the lists: those of callers, and in the
middle of an operation those it has taken out and not yet put back. Every
operation is a sequence of two steps, a block taken from its list and a block
of held pages put into one.
-/

namespace Ucore.Supervisor

open Lib Function

lemma blockSize_pos (k : Nat) : 0 < blockSize k := shl_pos k

lemma blockSize_succ (k : Nat) : blockSize (k + 1) = 2 * blockSize k := shl_succ k

lemma blockSize_le {j k : Nat} (h : j ≤ k) : blockSize j ≤ blockSize k := shl_le h

def Blk (p k q : Nat) : Prop := p ≤ q ∧ q < p + blockSize k

lemma blk_head (p k : Nat) : Blk p k p := ⟨Nat.le_refl p, by have := blockSize_pos k; omega⟩

lemma inBlock_iff {base n p : Nat} : inBlock base n p = true ↔ base ≤ p ∧ p < base + n := by
  simp [inBlock]

namespace Buddy

variable {s s' : Buddy} {held held' : Nat → Prop} {p q b k j n base : Nat}

lemma allPages_iff {ok : Nat → Bool} : allPages base n ok = true ↔ ∀ q, base ≤ q → q < base + n → ok q = true := by
  simp only [allPages, List.all_eq_true, List.mem_range]
  constructor
  · intro h q hle hlt
    have := h (q - base) (by omega)
    rwa [Nat.add_sub_cancel' hle] at this
  · intro h i hi
    exact h (base + i) (by omega) (by omega)

def buddyOf (s : Buddy) (p k : Nat) : Nat :=
  s.idx2page (s.zoneNum p) (s.page2idx p ^^^ blockSize k)

structure Inv (s : Buddy) (held : Nat → Prop) : Prop where
  order : ∀ k p, p ∈ s.freeList k → k ≤ maxOrder
  nodup : ∀ k, (s.freeList k).Nodup
  aligned : ∀ k p, p ∈ s.freeList k → s.page2idx p % blockSize k = 0
  inZone : ∀ k p, p ∈ s.freeList k → ∀ q, Blk p k q → s.pageReserved q = false ∧ s.zoneNum q = s.zoneNum p ∧ ¬ held q
  disjoint : ∀ k p j b q, p ∈ s.freeList k → b ∈ s.freeList j → Blk p k q → Blk b j q → p = b ∧ k = j
  cover : ∀ q, s.pageReserved q = false → held q ∨ ∃ k p, p ∈ s.freeList k ∧ Blk p k q
  flag : ∀ p k, p ∈ s.freeList k ↔ s.pageProperty p = true ∧ s.property p = k
  taken : ∀ q, held q → s.pageReserved q = false
  merged : ∀ k p, p ∈ s.freeList k → k < maxOrder →
    ¬ (s.buddyOf p k ∈ s.freeList k ∧ s.zoneNum (s.buddyOf p k) = s.zoneNum p)
  count : ∀ k, s.nrFree k = (s.freeList k).length
  zones : ∀ q, s.pageReserved q = false → q < s.npage ∧ s.zoneNum q < s.zoneCount ∧ s.memBase (s.zoneNum q) ≤ q
  npage : s.npage ≤ 0xFFFF0000

structure SameZones (s s' : Buddy) : Prop where
  reserved : s'.pageReserved = s.pageReserved
  zoneNum : s'.zoneNum = s.zoneNum
  memBase : s'.memBase = s.memBase
  npage : s'.npage = s.npage
  zoneCount : s'.zoneCount = s.zoneCount

lemma SameZones.refl (s : Buddy) : SameZones s s := ⟨rfl, rfl, rfl, rfl, rfl⟩

lemma SameZones.trans {s'' : Buddy} (h : SameZones s s') (h' : SameZones s' s'') : SameZones s s'' :=
  ⟨h'.reserved.trans h.reserved, h'.zoneNum.trans h.zoneNum, h'.memBase.trans h.memBase,
    h'.npage.trans h.npage, h'.zoneCount.trans h.zoneCount⟩

@[simp] lemma page2idx_unlink (s : Buddy) (p k q : Nat) : (s.unlinkFree p k).page2idx q = s.page2idx q := rfl

section

variable (h : s.Inv held)
include h

lemma Inv.free_not_held (hp : p ∈ s.freeList k) : ¬ held p := (h.inZone k p hp p (blk_head p k)).2.2

lemma Inv.page_eq (hq : s.pageReserved q = false) : s.idx2page (s.zoneNum q) (s.page2idx q) = q := by
  have := (h.zones q hq).2.2
  simp only [idx2page, page2idx]
  omega

lemma Inv.not_property (hq : held q) : s.pageProperty q = false := by
  by_contra hp
  exact h.free_not_held ((h.flag q (s.property q)).mpr ⟨by simpa using hp, rfl⟩) hq

lemma Inv.congr (hh : ∀ q, held' q ↔ held q) : s.Inv held' := by
  obtain rfl : held' = held := funext fun q => propext (hh q)
  exact h

lemma Inv.take (hp : p ∈ s.freeList k) : ((s.unlinkFree p k).clearPageProperty p).Inv fun q => held q ∨ Blk p k q := by
  have hmem : ∀ j b, b ∈ ((s.unlinkFree p k).clearPageProperty p).freeList j ↔ b ∈ s.freeList j ∧ ¬ (j = k ∧ b = p) := by
    intro j b
    by_cases hj : j = k
    · subst hj
      simp [(h.nodup j).mem_erase_iff, and_comm]
    · simp [hj]
  constructor
  case order => exact fun j b hb => h.order j b ((hmem j b).mp hb).1
  case nodup =>
    intro j
    by_cases hj : j = k
    · subst hj
      simpa using (h.nodup j).erase p
    · simpa [hj] using h.nodup j
  case aligned => exact fun j b hb => h.aligned j b ((hmem j b).mp hb).1
  case inZone =>
    intro j b hb q hq
    obtain ⟨hb, hne⟩ := (hmem j b).mp hb
    obtain ⟨hr, hz, hh⟩ := h.inZone j b hb q hq
    grind [h.disjoint, clearPageProperty, unlinkFree]
  case disjoint =>
    intro j b i c q hb hc
    exact h.disjoint j b i c q ((hmem j b).mp hb).1 ((hmem i c).mp hc).1
  case cover =>
    intro q hq
    rcases h.cover q hq with hq' | ⟨j, b, hb, hq'⟩
    · exact .inl (.inl hq')
    · grind
  case flag =>
    intro b j
    rw [hmem, h.flag b j]
    have hpk := (h.flag p k).mp hp
    by_cases hb : b = p
    · subst hb
      simp only [clearPageProperty, unlinkFree, update_self, Bool.false_eq_true, false_and,
        iff_false, and_true, not_and, not_not]
      rintro ⟨_, hj⟩
      exact hj.symm.trans hpk.2
    · simp [hb]
  case taken =>
    intro q hq
    rcases hq with hq | hq
    · exact h.taken q hq
    · exact (h.inZone k p hp q hq).1
  case merged =>
    intro j b hb hj hbud
    exact h.merged j b ((hmem j b).mp hb).1 hj ⟨((hmem j _).mp hbud.1).1, hbud.2⟩
  case count =>
    intro j
    by_cases hj : j = k
    · subst hj
      have hlen := List.length_erase_of_mem hp
      have hpos := List.length_pos_of_mem hp
      have hle : (s.freeList j).length ≤ s.npage := length_le_of_nodup (h.nodup j) fun x hx =>
        (h.zones x (h.inZone j x hx x (blk_head x j)).1).1
      have hnp := h.npage
      simp only [clearPageProperty, unlinkFree, update_self, h.count j, hlen, uint]
      omega
    · simpa [hj] using h.count j
  case zones => exact h.zones
  case npage => exact h.npage

lemma buddyOf_comm (hp : s.pageReserved p = false) (hq : s.pageReserved q = false)
    (hz : s.zoneNum p = s.zoneNum q) (hpq : s.buddyOf p k = q) : s.buddyOf q k = p := by
  have hbp := (h.zones p hp).2.2
  have hbq := (h.zones q hq).2.2
  have hidx : s.page2idx q = s.page2idx p ^^^ blockSize k := by
    rw [buddyOf, idx2page] at hpq
    rw [page2idx, ← hz]
    omega
  rw [buddyOf, hidx, Nat.xor_assoc, Nat.xor_self, Nat.xor_zero, ← hz, h.page_eq hp]

lemma Inv.give (hk : k ≤ maxOrder) (hheld : ∀ q, Blk p k q → held q ∧ s.zoneNum q = s.zoneNum p)
    (hal : s.page2idx p % blockSize k = 0)
    (hbuddy : k < maxOrder → ¬ (s.buddyOf p k ∈ s.freeList k ∧ s.zoneNum (s.buddyOf p k) = s.zoneNum p)) :
    (s.addFree p k).Inv fun q => held q ∧ ¬ Blk p k q := by
  have hp := (hheld p (blk_head p k)).1
  have hpr := h.taken p hp
  have hnot : ∀ j, p ∉ s.freeList j := fun j hj => h.free_not_held hj hp
  have hmem : ∀ j b, b ∈ (s.addFree p k).freeList j ↔ b ∈ s.freeList j ∨ (j = k ∧ b = p) := by
    intro j b
    by_cases hj : j = k
    · subst hj
      simp [addFree, or_comm]
    · simp [addFree, hj]
  -- a block in a list has no page in common with the new one
  have hapart : ∀ j b q, b ∈ s.freeList j → Blk b j q → ¬ Blk p k q := fun j b q hb hq hq' =>
    (h.inZone j b hb q hq).2.2 (hheld q hq').1
  constructor
  case order =>
    intro j b hb
    rcases (hmem j b).mp hb with hb | ⟨rfl, _⟩
    · exact h.order j b hb
    · exact hk
  case nodup =>
    intro j
    by_cases hj : j = k
    · subst hj
      simpa [addFree] using ⟨hnot j, h.nodup j⟩
    · simpa [addFree, hj] using h.nodup j
  case aligned =>
    intro j b hb
    rcases (hmem j b).mp hb with hb | ⟨rfl, rfl⟩
    · exact h.aligned j b hb
    · exact hal
  case inZone =>
    intro j b hb q hq
    rcases (hmem j b).mp hb with hb | ⟨rfl, rfl⟩
    · obtain ⟨hr, hz, hh⟩ := h.inZone j b hb q hq
      exact ⟨hr, hz, fun hq' => hh hq'.1⟩
    · exact ⟨h.taken q (hheld q hq).1, (hheld q hq).2, fun hq' => hq'.2 hq⟩
  case disjoint =>
    intro j b i c q hb hc hq hq'
    rcases (hmem j b).mp hb with hb1 | ⟨rfl, rfl⟩ <;> rcases (hmem i c).mp hc with hc1 | ⟨rfl, rfl⟩
    · exact h.disjoint j b i c q hb1 hc1 hq hq'
    · exact absurd hq' (hapart j b q hb1 hq)
    · exact absurd hq (hapart i c q hc1 hq')
    · exact ⟨rfl, rfl⟩
  case cover =>
    intro q hq
    by_cases hq' : Blk p k q
    · exact .inr ⟨k, p, (hmem k p).mpr (.inr ⟨rfl, rfl⟩), hq'⟩
    rcases h.cover q hq with hh | ⟨j, b, hb, hb'⟩
    · exact .inl ⟨hh, hq'⟩
    · exact .inr ⟨j, b, (hmem j b).mpr (.inl hb), hb'⟩
  case flag =>
    intro b j
    rw [hmem]
    by_cases hb : b = p
    · subst hb
      simp [addFree, hnot, eq_comm]
    · rw [h.flag b j]
      simp [addFree, hb]
  case taken => exact fun q hq => h.taken q hq.1
  case merged =>
    intro j b hb hj hbud
    -- the new block may be the buddy of an old one, or the other way round
    obtain ⟨hbud, hz⟩ := hbud
    change s.zoneNum (s.buddyOf b j) = s.zoneNum b at hz
    rcases (hmem j b).mp hb with hb1 | ⟨rfl, rfl⟩ <;> rcases (hmem j _).mp hbud with hc | ⟨hjk, hc⟩
    · exact h.merged j b hb1 hj ⟨hc, hz⟩
    · subst hjk
      change s.buddyOf b j = p at hc
      have hbr := (h.inZone j b hb1 b (blk_head b j)).1
      have hcomm := buddyOf_comm h hbr hpr (by rw [← hz, hc]) hc
      grind
    · exact hbuddy hj ⟨hc, hz⟩
    · change s.buddyOf b j = b at hc
      have hidx : s.page2idx b ^^^ blockSize j = s.page2idx b := by
        have := (h.zones b hpr).2.2
        rw [buddyOf, idx2page] at hc
        rw [page2idx] at hc ⊢
        omega
      have := congrArg (s.page2idx b ^^^ ·) hidx
      simp only [← Nat.xor_assoc, Nat.xor_self, Nat.zero_xor] at this
      exact Nat.ne_of_gt (blockSize_pos j) this
  case count =>
    intro j
    by_cases hj : j = k
    · subst hj
      have hle : (p :: s.freeList j).length ≤ s.npage := by
        refine length_le_of_nodup (List.nodup_cons.mpr ⟨hnot j, h.nodup j⟩) fun x hx => ?_
        rcases List.mem_cons.mp hx with rfl | hx
        · exact (h.zones x hpr).1
        · exact (h.zones x (h.inZone j x hx x (blk_head x j)).1).1
      have hnp := h.npage
      simp only [List.length_cons] at hle
      simp only [addFree, update_self, h.count j, List.length_cons, uint]
      omega
    · simpa [addFree, hj] using h.count j
  case zones => exact h.zones
  case npage => exact h.npage

end

end Buddy

end Ucore.Supervisor
