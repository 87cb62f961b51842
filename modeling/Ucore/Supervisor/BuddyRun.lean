import Mathlib.Algebra.Order.BigOperators.Group.Finset
import Mathlib.Order.Interval.Finset.Nat
import Ucore.Lib.Run
import Ucore.Supervisor.BuddyOps

/-!
# Runs of the buddy allocator
-/

namespace Ucore.Supervisor

open Lib
open Finset (card_biUnion disjoint_left mem_Ico range mem_range mem_filter)

namespace Buddy

variable {s s' : Buddy} {held : Nat → Prop} {p q k n base : Nat}

def freePages (s : Buddy) (k : Nat) : Finset Nat :=
  (s.freeList k).toFinset.biUnion fun p => Finset.Ico p (p + blockSize k)

lemma mem_freePages : q ∈ s.freePages k ↔ ∃ p ∈ s.freeList k, Blk p k q := by
  simp [freePages, Blk]

lemma Inv.card_freePages (h : s.Inv held) (k : Nat) : (s.freePages k).card = (s.freeList k).length * blockSize k := by
  rw [freePages, card_biUnion]
  · simp [List.toFinset_card_of_nodup (h.nodup k)]
  · intro p hp b hb hne
    refine disjoint_left.mpr fun q hq hq' => ?_
    rw [mem_Ico] at hq hq'
    exact hne (h.disjoint k p k b q (List.mem_toFinset.mp hp) (List.mem_toFinset.mp hb) hq hq').1

lemma Inv.disjoint_freePages (h : s.Inv held) {j : Nat} (hne : k ≠ j) : Disjoint (s.freePages k) (s.freePages j) := by
  grind [mem_freePages, disjoint_left, h.disjoint]

lemma Inv.biUnion_freePages (h : s.Inv held) [DecidablePred held] : (range (maxOrder + 1)).biUnion s.freePages =
    (range s.npage).filter fun q => s.pageReserved q = false ∧ ¬ held q := by
  ext q
  simp only [Finset.mem_biUnion, mem_range, mem_filter, mem_freePages]
  constructor
  · rintro ⟨k, -, p, hp, hq⟩
    obtain ⟨hr, -, hh⟩ := h.inZone k p hp q hq
    exact ⟨(h.zones q hr).1, hr, hh⟩
  · rintro ⟨-, hr, hh⟩
    obtain ⟨k, p, hp, hq⟩ := (h.cover q hr).resolve_left hh
    exact ⟨k, Nat.lt_succ_of_le (h.order k p hp), p, hp, hq⟩

lemma foldl_range_eq_sum {f g : Nat → Nat} (h : ∀ k, k < n → f k = g k) :
    (List.range n).foldl (fun t k => t + f k) 0 = ∑ k ∈ range n, g k := by
  induction n with
  | zero => rfl
  | succ n ih =>
    rw [List.range_succ, List.foldl_append, Finset.sum_range_succ, ih fun k hk => h k (by omega), ← h n (by omega)]
    rfl

lemma Inv.buddyNrFreePages_eq (h : s.Inv held) [DecidablePred held] : s.buddyNrFreePages =
    ((range s.npage).filter fun q => s.pageReserved q = false ∧ ¬ held q).card := by
  have hterm : ∀ k, k < maxOrder + 1 → uint (s.nrFree k * blockSize k) = (s.freePages k).card := by
    intro k hk
    have hsub : s.freePages k ⊆ (range (maxOrder + 1)).biUnion s.freePages :=
      Finset.subset_biUnion_of_mem s.freePages (mem_range.mpr hk)
    have hle := Finset.card_le_card (hsub.trans (h.biUnion_freePages.subset.trans (Finset.filter_subset _ _)))
    have hnp := h.npage
    rw [Finset.card_range] at hle
    rw [h.count k, ← h.card_freePages k, uint, Nat.mod_eq_of_lt (by omega)]
  rw [← h.biUnion_freePages, card_biUnion fun k _ j _ => h.disjoint_freePages, buddyNrFreePages]
  exact foldl_range_eq_sum hterm

lemma Allocated.nrFreePages (ha : s.Allocated held p n s') (h : s.Inv held) :
    s'.buddyNrFreePages + n = s.buddyNrFreePages := by
  classical
  rw [h.buddyNrFreePages_eq, ha.inv.buddyNrFreePages_eq, ha.same.npage, ha.same.reserved]
  have hunion : ((range s.npage).filter fun q => s.pageReserved q = false ∧ ¬ held q) =
      ((range s.npage).filter fun q => s.pageReserved q = false ∧
        ¬ (held q ∨ (p ≤ q ∧ q < p + n))) ∪ Finset.Ico p (p + n) := by
    ext q
    simp only [Finset.mem_union, mem_filter, mem_range, mem_Ico, not_or]
    constructor
    · grind
    · rintro (⟨hlt, hres, hheld, -⟩ | ⟨hle, hlt⟩)
      · exact ⟨hlt, hres, hheld⟩
      · obtain ⟨hres, -, hheld⟩ := ha.free q hle hlt
        exact ⟨(h.zones q hres).1, hres, hheld⟩
  rw [hunion, Finset.card_union_of_disjoint, Nat.card_Ico, Nat.add_sub_cancel_left]
  refine disjoint_left.mpr fun q hq hq' => ?_
  exact (mem_filter.mp hq).2.2 (.inr (mem_Ico.mp hq'))

lemma Inv.hasBlock_one (h : s.Inv held) : s.HasBlock 1 ↔ 0 < s.buddyNrFreePages := by
  classical
  rw [h.buddyNrFreePages_eq, Finset.card_pos]
  constructor
  · rintro ⟨k, -, j, -, hne⟩
    obtain ⟨p, hp⟩ := List.exists_mem_of_ne_nil _ hne
    obtain ⟨hres, -, hheld⟩ := h.inZone j p hp p (blk_head p j)
    exact ⟨p, mem_filter.mpr ⟨mem_range.mpr (h.zones p hres).1, hres, hheld⟩⟩
  · rintro ⟨q, hq⟩
    obtain ⟨-, hres, hheld⟩ := mem_filter.mp hq
    obtain ⟨j, p, hp, -⟩ := (h.cover q hres).resolve_left hheld
    exact ⟨0, rfl, j, Nat.zero_le j, List.ne_nil_of_mem hp⟩

lemma freeUp_giant (fuel : Nat) {zone m : Nat} (h : s.Inv held) (hr : s.Range held zone base n)
    (hfuel : fuel + k = maxOrder + 2) (hk : k ≤ maxOrder + 1) (hal : (base - s.memBase zone) % blockSize k = 0)
    (hle : base - s.memBase zone ≤ m * blockSize (maxOrder + 1))
    (hend : (m + 1) * blockSize (maxOrder + 1) ≤ base - s.memBase zone + n) :
    freeUp fuel s base n k = .error .assertion := by
  induction fuel generalizing s held base n k with
  | zero => omega
  | succ fuel ih =>
    have hpos := blockSize_pos k
    have hsize := blockSize_le hk
    have hbase := hr.memBase
    have hn : blockSize k ≤ n := by
      rw [Nat.add_mul] at hend
      omega
    rw [freeUp, if_pos hn]
    by_cases hk' : k ≤ maxOrder
    case neg => rw [if_neg hk']
    have hidx : s.page2idx base = base - s.memBase zone := by
      rw [page2idx, (hr.held base le_rfl (by omega)).2]
    rw [if_pos hk', hidx]
    by_cases hbit : (base - s.memBase zone) &&& blockSize k ≠ 0
    · have hodd := (and_shl_ne_zero _ _).mp hbit
      change (base - s.memBase zone) / blockSize k % 2 = 1 at hodd
      obtain ⟨s1, hs1, hinv1, hr1, hsame1⟩ := hr.freeFirst h hk' hn hal
      have hsum : base + blockSize k - s1.memBase zone = base - s.memBase zone + blockSize k := by
        rw [hsame1.memBase]
        omega
      have hal1 := aligned_of_odd hpos hal hodd
      -- both ends are multiples of the next block size
      have hnext : base - s.memBase zone + blockSize k ≤ m * blockSize (maxOrder + 1) := by
        obtain ⟨c, hc⟩ := Nat.dvd_of_mod_eq_zero hal1
        obtain ⟨d, hd⟩ : 2 * blockSize k ∣ m * blockSize (maxOrder + 1) :=
          Nat.dvd_trans (by rw [← blockSize_succ]; exact shl_dvd (by omega)) (Nat.dvd_mul_left _ m)
        rw [hd] at hle ⊢
        rw [hc]
        have hcd : 2 * blockSize k * c < 2 * blockSize k * (d + 1) := by
          rw [Nat.mul_add, Nat.mul_one]
          omega
        exact Nat.mul_le_mul_left _ (Nat.le_of_lt_succ (Nat.lt_of_mul_lt_mul_left hcd))
      rw [if_pos hbit, hs1]
      refine ih (k := k + 1) hinv1 hr1 (by omega) (by omega) ?_ (by rwa [hsum]) (by rw [hsum]; omega)
      rw [hsum, blockSize_succ]
      exact hal1
    · have heven : ¬ (base - s.memBase zone) / blockSize k % 2 = 1 := fun hodd => hbit ((and_shl_ne_zero _ _).mpr hodd)
      rw [if_neg hbit]
      refine ih (k := k + 1) h hr (by omega) (by omega) ?_ hle hend
      rw [blockSize_succ]
      exact aligned_of_even hal (by omega)

lemma buddyFreePages_giant {zone : Nat} (h : s.Inv held) (hr : s.Range held zone base n)
    (hgiant : ¬ NoGiant (base - s.memBase zone) n) : s.buddyFreePages base n = .error .assertion := by
  obtain ⟨m, hle, hend⟩ : ∃ m, base - s.memBase zone ≤ m * blockSize (maxOrder + 1) ∧
      (m + 1) * blockSize (maxOrder + 1) ≤ base - s.memBase zone + n := by
    simpa [NoGiant] using hgiant
  have hbig : 2 ≤ n := by
    have : 2 ≤ blockSize (maxOrder + 1) := by decide
    rw [Nat.add_mul] at hend
    omega
  rw [buddyFreePages, if_neg (by omega), if_neg (by omega),
    freeUp_giant (maxOrder + 2) h hr rfl (Nat.zero_le _) (by rw [show blockSize 0 = 1 from rfl, Nat.mod_one]) hle hend]
  rfl

end Buddy

structure Machine where
  buddy : Buddy
  held : Nat → Bool

inductive Call where
  | initMemmap (base n : Nat)
  | allocPages (n : Nat)
  | freePages (base n : Nat)

namespace Machine

open Buddy

def boot (npage : Nat) : Machine := ⟨buddyInit npage, fun _ => false⟩

def step (m : Machine) : Call → Except Panic Machine
  | .initMemmap base n => do return { m with buddy := ← m.buddy.buddyInitMemmap base n }
  | .allocPages n => do
    match ← m.buddy.buddyAllocPages n with
    | (none, s) => return { m with buddy := s }
    | (some page, s) => return ⟨s, fun q => m.held q || inBlock page n q⟩
  | .freePages base n => do
    return ⟨← m.buddy.buddyFreePages base n, fun q => m.held q && !inBlock base n q⟩

/-- What callers promise: a zone is made of pages that exist and are in no zone,
an allocation asks for at most 65536 pages, and freed pages are allocated pages
of one zone. -/
def Proper (m : Machine) : Call → Prop
  | .initMemmap base n => 0 < n ∧ m.buddy.zoneCount < maxZoneNum ∧ base + n ≤ m.buddy.npage ∧
    ∀ q, base ≤ q → q < base + n → m.buddy.pageReserved q = true
  | .allocPages n => 0 < n ∧ n ≤ 65536
  | .freePages base n => 0 < n ∧ ∀ q, base ≤ q → q < base + n → m.held q = true ∧
    m.buddy.zoneNum q = m.buddy.zoneNum base

def Giantless (m : Machine) : Call → Prop
  | .freePages base n => NoGiant (m.buddy.page2idx base) n
  | _ => True

/-- `page_init` never has more pages than fit below the kernel's own window. -/
def Boot (m : Machine) : Prop := ∃ npage ≤ 0xFFFF0000, m = boot npage

def Inv (m : Machine) : Prop := m.buddy.Inv (m.held · = true)

variable {m m' : Machine} {c : Call}

lemma Boot.inv (h : Boot m) : m.Inv := by
  obtain ⟨npage, hle, rfl⟩ := h
  constructor <;> simp [boot, buddyInit, hle]

lemma Inv.range {base n : Nat} (h : m.Inv) (hp : m.Proper (.freePages base n)) :
    m.buddy.Range (m.held · = true) (m.buddy.zoneNum base) base n :=
  ⟨hp.2, (h.zones base (h.taken base (hp.2 base le_rfl (Nat.lt_add_of_pos_right hp.1)).1)).2.2⟩

lemma step_ok (h : m.Inv) (hp : m.Proper c) (hg : m.Giantless c) : ∃ m', m.step c = .ok m' ∧ m'.Inv := by
  cases c with
  | initMemmap base n =>
    obtain ⟨s', hs', hinv, -⟩ := buddyInitMemmap_ok h hp.1 hp.2.1 hp.2.2.1 hp.2.2.2
    exact ⟨{ m with buddy := s' }, by rw [step, hs']; rfl, hinv⟩
  | allocPages n =>
    rcases buddyAllocPages_ok h hp.1 hp.2 with ⟨hnone, -⟩ | ⟨-, p, s', hs', ha⟩
    · exact ⟨m, by rw [step, hnone]; rfl, h⟩
    · refine ⟨⟨s', fun q => m.held q || inBlock p n q⟩, by rw [step, hs']; rfl, ha.inv.congr fun q => ?_⟩
      simp [inBlock]
  | freePages base n =>
    obtain ⟨s', hs', hinv, -⟩ := buddyFreePages_ok h (h.range hp) hp.1 hg
    refine ⟨⟨s', fun q => m.held q && !inBlock base n q⟩, by rw [step, hs']; rfl, hinv.congr fun q => ?_⟩
    rw [← inBlock_iff, Bool.and_eq_true, Bool.not_eq_true', Bool.not_eq_true]

lemma step_giant (h : m.Inv) (hp : m.Proper c) (hg : ¬ m.Giantless c) : m.step c = .error .assertion := by
  cases c with
  | initMemmap | allocPages => exact absurd trivial hg
  | freePages base n =>
    rw [step, buddyFreePages_giant h (h.range hp) hg]
    rfl

def Careful : Machine → Prop := Reachable step (fun m c => m.Proper c ∧ m.Giantless c) Boot

lemma Careful.inv (h : Careful m) : m.Inv :=
  h.invariant (fun _ => Boot.inv) fun _ _ _ hm hc hs => by
    grind [step_ok]

/-- In runs that free no giant block the lists are as they should be, the count
is right, and of the next calls just those that free a giant block fail. -/
theorem careful_consistent (h : Careful m) : m.buddy.Inv (m.held · = true) ∧ m.buddy.buddyNrFreePages =
    ((range m.buddy.npage).filter fun q => m.buddy.pageReserved q = false ∧ ¬ m.held q = true).card ∧
    ∀ c, m.Proper c → ((∃ m', m.step c = .ok m') ↔ m.Giantless c) := by
  refine ⟨h.inv, h.inv.buddyNrFreePages_eq, fun c hp => ⟨fun hs => ?_, fun hg => ?_⟩⟩
  · grind [step_giant, h.inv]
  · grind [step_ok, h.inv]

-- A zone of two blocks of the largest order, both allocated.

def halvesZone : Buddy := (((buddyInit 131072).openZone 0 131072).addFree 0 16).addFree 65536 16

def halvesTaken : Buddy :=
  (((halvesZone.unlinkFree 65536 16).clearPageProperty 65536).unlinkFree 0 16).clearPageProperty 0

lemma initOrder_done {s : Buddy} {k p n : Nat} (fuel : Nat) (hn : n < blockSize k) :
    initOrder k fuel s p n = (s, p, n) := by
  cases fuel with
  | zero => rfl
  | succ fuel => rw [initOrder, if_neg (by omega)]

lemma initOrder_halves (s : Buddy) (fuel : Nat) :
    initOrder 16 (fuel + 2) s 0 131072 = ((s.addFree 0 16).addFree 65536 16, 131072, 0) := by
  rw [initOrder, if_pos (by decide), initOrder, if_pos (by decide), initOrder_done fuel (by decide)]
  rfl

lemma init_halves : (boot 131072).step (.initMemmap 0 131072) = .ok ⟨halvesZone, fun _ => false⟩ := by
  have hall : allPages 0 131072 (buddyInit 131072).pageReserved = true := allPages_iff.mpr fun _ _ _ => rfl
  have hblocks : ∀ s : Buddy, s.initBlocks 0 131072 maxOrder = (s.addFree 0 16).addFree 65536 16 := by
    intro s
    rw [maxOrder, initBlocks, initOrder_halves s 131070]
    rfl
  rw [step, buddyInitMemmap, boot, if_pos ⟨by decide, by decide, hall⟩, hblocks]
  rfl

lemma alloc_upper (held : Nat → Bool) : step ⟨halvesZone, held⟩ (.allocPages 65536) =
    .ok ⟨(halvesZone.unlinkFree 65536 16).clearPageProperty 65536, fun q => held q || inBlock 65536 65536 q⟩ := rfl

lemma alloc_lower (held : Nat → Bool) :
    step ⟨(halvesZone.unlinkFree 65536 16).clearPageProperty 65536, held⟩ (.allocPages 65536) =
    .ok ⟨halvesTaken, fun q => held q || inBlock 0 65536 q⟩ := rfl

def halves : Machine := ⟨halvesTaken, fun q => (false || inBlock 65536 65536 q) || inBlock 0 65536 q⟩

lemma halves_careful : Careful halves := by
  have hzone : (boot 131072).Proper (.initMemmap 0 131072) :=
    ⟨by decide, by decide, Nat.le_refl 131072, fun _ _ _ => rfl⟩
  have halloc : ∀ m : Machine, m.Proper (.allocPages 65536) := fun _ => ⟨by decide, Nat.le_refl 65536⟩
  have hboot : Careful (boot 131072) := .init ⟨131072, by decide, rfl⟩
  have hinit : Careful ⟨halvesZone, fun _ => false⟩ := Reachable.step hboot ⟨hzone, trivial⟩ init_halves
  have hupper := Reachable.step hinit ⟨halloc _, trivial⟩ (alloc_upper _)
  exact Reachable.step hupper ⟨halloc _, trivial⟩ (alloc_lower _)

lemma halves_proper : halves.Proper (.freePages 0 131072) := by
  have hzone : ∀ q, q < 131072 → halves.buddy.zoneNum q = 0 :=
    fun q hq => if_pos (inBlock_iff.mpr ⟨Nat.zero_le q, by omega⟩)
  refine ⟨by decide, fun q _ hq => ⟨?_, by rw [hzone q (by omega), hzone 0 (by decide)]⟩⟩
  simp only [halves, Bool.or_eq_true, inBlock_iff]
  omega

/-- Freeing the two halves at once stops the kernel. -/
theorem free_halves_fails : ∃ m, Reachable step Proper Boot m ∧ m.Proper (.freePages 0 131072) ∧
    m.step (.freePages 0 131072) = .error .assertion := by
  refine ⟨halves, halves_careful.mono fun _ _ => And.left, halves_proper, ?_⟩
  refine step_giant halves_careful.inv halves_proper fun hg => ?_
  exact absurd (hg 0 (by decide)) (by decide)

theorem careful_consistent_halves :
    halves.Proper (.freePages 0 65536) ∧ ∃ m, halves.step (.freePages 0 65536) = .ok m := by
  have hp : halves.Proper (.freePages 0 65536) :=
    ⟨by decide, fun q hle hq => ⟨(halves_proper.2 q hle (by omega)).1, (halves_proper.2 q hle (by omega)).2⟩⟩
  refine ⟨hp, ((careful_consistent halves_careful).2.2 _ hp).mpr fun m _ => ?_⟩
  have hidx : halves.buddy.page2idx 0 = 0 := rfl
  have hsize : blockSize (maxOrder + 1) = 131072 := rfl
  rw [hidx, hsize]
  omega

end Machine

end Ucore.Supervisor
