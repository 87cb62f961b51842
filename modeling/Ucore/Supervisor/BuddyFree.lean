import Ucore.Supervisor.BuddyRun

/-!
# The free pages determine the free lists

Buddies are merged as soon as both are free. So a block is in its list exactly when
its pages are free and no larger block of free pages holds it.
-/

namespace Ucore.Supervisor

open Lib

namespace Buddy

variable {s s' : Buddy} {held : Nat → Prop} {p q b j k n x : Nat}

/-- An aligned block of free pages in one zone. -/
structure FreeRun (s : Buddy) (held : Nat → Prop) (p k : Nat) : Prop where
  aligned : s.page2idx p % blockSize k = 0
  free : ∀ q, Blk p k q → s.pageReserved q = false ∧ s.zoneNum q = s.zoneNum p ∧ ¬ held q

lemma blockSize_dvd (h : j ≤ k) (hx : x % blockSize k = 0) : blockSize j ∣ x :=
    (shl_dvd h).trans (Nat.dvd_of_mod_eq_zero hx)

lemma FreeRun.first (h : s.FreeRun held p k) (hj : j ≤ k) : s.FreeRun held p j where
  aligned := Nat.mod_eq_zero_of_dvd (blockSize_dvd hj h.aligned)
  free q hq := h.free q ⟨hq.1, hq.2.trans_le (Nat.add_le_add_left (blockSize_le hj) p)⟩

section

variable (h : s.Inv held)
include h

lemma Inv.freeRun (hp : p ∈ s.freeList k) : s.FreeRun held p k := ⟨h.aligned k p hp, h.inZone k p hp⟩

lemma Inv.idx_add (hp : s.pageReserved p = false) : s.page2idx p + s.memBase (s.zoneNum p) = p :=
  Nat.sub_add_cancel (h.zones p hp).2.2

lemma Inv.nested (hb : b ∈ s.freeList j) (hr : s.FreeRun held p k) (hk : k ≤ j) (hx : Blk p k x) (hbx : Blk b j x) :
    b ≤ p ∧ p + blockSize k ≤ b + blockSize j := by
  have hbidx := h.idx_add (h.inZone j b hb b (blk_head b j)).1
  have hpidx := h.idx_add (hr.free p (blk_head p k)).1
  rw [← (hr.free x hx).2.1, (h.inZone j b hb x hbx).2.1] at hpidx
  have hbdvd := blockSize_dvd hk (h.aligned j b hb)
  have hpdvd := Nat.dvd_of_mod_eq_zero hr.aligned
  obtain ⟨hlo, hhi⟩ := hx
  obtain ⟨hblo, hbhi⟩ := hbx
  -- aligned blocks that meet are nested
  have hle : s.page2idx b ≤ s.page2idx p := Nat.le_of_lt_add_of_dvd (by omega) hbdvd hpdvd
  have hge : s.page2idx p + blockSize k ≤ s.page2idx b + blockSize j :=
    Nat.le_of_lt_add_of_dvd (by omega) (Nat.dvd_add hpdvd (Nat.dvd_refl _)) (Nat.dvd_add hbdvd (shl_dvd hk))
  omega

lemma Inv.eq_of_meet (hb : b ∈ s.freeList k) (hr : s.FreeRun held p k) (hx : Blk p k x) (hbx : Blk b k x) : b = p := by
  have hn := h.nested hb hr (Nat.le_refl k) hx hbx
  omega

lemma Inv.buddyOf_even (hr : s.FreeRun held p (k + 1)) : s.buddyOf p k = p + blockSize k := by
  obtain ⟨m, hm⟩ := Nat.dvd_of_mod_eq_zero hr.aligned
  have htwo : s.page2idx p = 2 * m * 1 <<< k := by rw [hm, blockSize, shl_succ, Nat.mul_right_comm]
  have heven : twin (2 * m) = 2 * m + 1 := by simp [twin]
  have hpage := h.page_eq (hr.free p (blk_head p _)).1
  rw [idx2page] at hpage
  rw [buddyOf, blockSize, idx2page, htwo, mul_shl_xor, heven, Nat.add_mul, Nat.one_mul, ← htwo]
  omega

lemma Inv.contained (hk : k ≤ maxOrder) (hr : s.FreeRun held p k) : ∃ j b, k ≤ j ∧ b ∈ s.freeList j ∧ Blk b j p := by
  induction k generalizing p with
  | zero =>
    obtain ⟨hres, -, hheld⟩ := hr.free p (blk_head p 0)
    obtain hq | ⟨j, b, hb, hp⟩ := h.cover p hres
    · exact absurd hq hheld
    · exact ⟨j, b, Nat.zero_le j, hb, hp⟩
  | succ k ih =>
    -- both halves lie in free blocks, and these are not the halves themselves, which would
    -- have been merged
    have hsize := blockSize_succ k
    have hpos := blockSize_pos k
    have hmid : Blk p (k + 1) (p + blockSize k) := ⟨by omega, by omega⟩
    have hlower := hr.first (Nat.le_succ k)
    obtain ⟨-, hzone, -⟩ := hr.free _ hmid
    have hupper : s.FreeRun held (p + blockSize k) k := by
      refine ⟨?_, fun q hq => ?_⟩
      · have hidx := h.idx_add (hr.free _ hmid).1
        have hpidx := h.idx_add (hr.free p (blk_head p _)).1
        rw [hzone] at hidx
        rw [show s.page2idx (p + blockSize k) = s.page2idx p + blockSize k by omega, Nat.add_mod_right]
        exact hlower.aligned
      · rw [hzone]
        exact hr.free q ⟨by have := hq.1; omega, by have := hq.2; omega⟩
    obtain ⟨j, b, hj, hb, hp⟩ := ih (by omega) hlower
    obtain ⟨j', b', hj', hb', hp'⟩ := ih (by omega) hupper
    obtain hlt | rfl := Nat.lt_or_eq_of_le hj
    · exact ⟨j, b, hlt, hb, hp⟩
    obtain hlt | rfl := Nat.lt_or_eq_of_le hj'
    · have hn := h.nested hb' hr hlt hmid hp'
      exact ⟨j', b', hlt, hb', hn.1, by omega⟩
    obtain rfl := h.eq_of_meet hb hlower (blk_head p k) hp
    obtain rfl := h.eq_of_meet hb' hupper (blk_head _ k) hp'
    exact absurd ⟨(h.buddyOf_even hr).symm ▸ hb', by rw [h.buddyOf_even hr, hzone]⟩ (h.merged k _ hb (by omega))

lemma Inv.mem_freeList_iff : p ∈ s.freeList k ↔
    s.FreeRun held p k ∧ k ≤ maxOrder ∧ ∀ j b, k < j → j ≤ maxOrder → s.FreeRun held b j → ¬ Blk b j p := by
  constructor
  · refine fun hp => ⟨h.freeRun hp, h.order k p hp, fun j b hlt hj hr hbp => ?_⟩
    obtain ⟨j', b', hj', hb', hb⟩ := h.contained hj hr
    have hn := h.nested hb' hr hj' (blk_head b j) hb
    obtain ⟨-, heq⟩ := h.disjoint k p j' b' p hp hb' (blk_head p k) ⟨hn.1.trans hbp.1, hbp.2.trans_le hn.2⟩
    omega
  · rintro ⟨hr, hk, hlast⟩
    obtain ⟨j, b, hj, hb, hbp⟩ := h.contained hk hr
    obtain hlt | rfl := Nat.lt_or_eq_of_le hj
    · exact absurd hbp (hlast j b hlt (h.order j b hb) (h.freeRun hb))
    · exact h.eq_of_meet hb hr (blk_head p k) hbp ▸ hb

lemma Inv.hasBlock_iff (hk : k ≤ maxOrder) : (∃ j, k ≤ j ∧ s.freeList j ≠ []) ↔ ∃ p, s.FreeRun held p k := by
  constructor
  · rintro ⟨j, hj, hne⟩
    obtain ⟨b, hb⟩ := List.exists_mem_of_ne_nil _ hne
    exact ⟨b, (h.freeRun hb).first hj⟩
  · rintro ⟨p, hr⟩
    obtain ⟨j, b, hj, hb, -⟩ := h.contained hk hr
    exact ⟨j, hj, List.ne_nil_of_mem hb⟩

end

lemma SameZones.symm (h : SameZones s s') : SameZones s' s :=
  ⟨h.reserved.symm, h.zoneNum.symm, h.memBase.symm, h.npage.symm, h.zoneCount.symm⟩

lemma SameZones.freeRun (h : SameZones s s') (hr : s.FreeRun held p k) : s'.FreeRun held p k := by
  obtain ⟨hal, hfree⟩ := hr
  refine ⟨?_, ?_⟩
  · rwa [page2idx, h.zoneNum, h.memBase]
  · rwa [h.zoneNum, h.reserved]

/-- The zones and the free pages say which blocks are free. -/
lemma Inv.sameFree (h : s.Inv held) (h' : s'.Inv held) (hz : SameZones s s') : p ∈ s'.freeList k ↔ p ∈ s.freeList k := by
  have hrun (b j : Nat) : s'.FreeRun held b j ↔ s.FreeRun held b j := ⟨hz.symm.freeRun, hz.freeRun⟩
  simp only [h.mem_freeList_iff, h'.mem_freeList_iff, hrun]

lemma getorder_least (h : getorder n = .ok k) : k ≤ maxOrder ∧ n ≤ blockSize k ∧ ∀ j < k, blockSize j < n := by
  rw [getorder] at h
  split at h
  · cases h
    next hf =>
      obtain ⟨hn, hmem, hlt⟩ := List.find?_range_eq_some.mp hf
      simp at hn hmem hlt
      exact ⟨by omega, hn, hlt⟩
  · cases h

end Buddy

namespace Machine

open Buddy

variable {m : Machine} {n p : Nat} {s : Buddy}

/-- An allocation fails only when no aligned run of free pages is long enough, and
takes just the pages it hands out. -/
theorem allocPages_complete (h : Careful m) (hn : 0 < n) (hmax : n ≤ 65536) :
    ∃ k, n ≤ blockSize k ∧ (∀ j < k, blockSize j < n) ∧
    (m.buddy.buddyAllocPages n = .ok (none, m.buddy) ∧ (∀ p, ¬ m.buddy.FreeRun (m.held · = true) p k) ∨
    (∃ p, m.buddy.FreeRun (m.held · = true) p k) ∧
    ∃ p s, m.buddy.buddyAllocPages n = .ok (some p, s) ∧ m.buddy.Allocated (m.held · = true) p n s) := by
  obtain ⟨k, hk, -, -⟩ := getorder_ok hmax
  obtain ⟨hmaxk, hle, hleast⟩ := getorder_least hk
  have hblock : m.buddy.HasBlock n ↔ ∃ p, m.buddy.FreeRun (m.held · = true) p k := by
    rw [← h.inv.hasBlock_iff hmaxk, HasBlock, hk]
    constructor
    · rintro ⟨_, hj, hb⟩
      exact Except.ok.inj hj ▸ hb
    · exact fun hb => ⟨k, rfl, hb⟩
  refine ⟨k, hle, hleast, ?_⟩
  obtain ⟨hnone, hno⟩ | ⟨hyes, hsome⟩ := buddyAllocPages_ok h.inv hn hmax
  · exact .inl ⟨hnone, fun p hp => hno (hblock.mpr ⟨p, hp⟩)⟩
  · exact .inr ⟨hblock.mp hyes, hsome⟩

lemma halvesZone_careful : Careful ⟨halvesZone, fun _ => false⟩ := by
  have hzone : (boot 131072).Proper (.initMemmap 0 131072) :=
    ⟨by decide, by decide, Nat.le_refl 131072, fun _ _ _ => rfl⟩
  exact Reachable.step (.init ⟨131072, by decide, rfl⟩) ⟨hzone, trivial⟩ init_halves

theorem allocPages_complete_halves : ∃ p s, halvesZone.buddyAllocPages 65536 = .ok (some p, s) ∧
    halvesZone.Allocated (fun _ => false = true) p 65536 s := by
  obtain ⟨k, -, -, ⟨hnone, -⟩ | ⟨-, hsome⟩⟩ :=
    allocPages_complete halvesZone_careful (n := 65536) (by decide) (by decide)
  · nomatch (show Except.ok (some 65536, _) = Except.ok (none, _) from hnone)
  · exact hsome

/-- Freeing what was allocated restores the free blocks of every order. -/
theorem freePages_restores (h : Careful m) (hn : 0 < n) (hmax : n ≤ 65536)
    (ha : m.buddy.buddyAllocPages n = .ok (some p, s)) :
    ∃ s', s.buddyFreePages p n = .ok s' ∧ ∀ k b, b ∈ s'.freeList k ↔ b ∈ m.buddy.freeList k := by
  obtain ⟨hnone, -⟩ | ⟨-, p', s', hsome, halloc⟩ := buddyAllocPages_ok h.inv hn hmax
  · cases ha.symm.trans hnone
  cases ha.symm.trans hsome
  have hrange : s.Range (fun q => m.held q = true ∨ p ≤ q ∧ q < p + n) (m.buddy.zoneNum p) p n := by
    refine ⟨fun q hle hlt => ⟨.inr ⟨hle, hlt⟩, ?_⟩, ?_⟩
    · rw [halloc.same.zoneNum]
      exact (halloc.free q hle hlt).2.1
    · rw [halloc.same.memBase]
      exact (h.inv.zones p (halloc.free p (Nat.le_refl p) (by omega)).1).2.2
  -- a range of at most 65536 pages holds no block of 131072
  have hgiant : NoGiant (p - s.memBase (m.buddy.zoneNum p)) n := by
    intro i hi
    rw [show blockSize (maxOrder + 1) = 131072 from rfl] at *
    omega
  obtain ⟨s', hs', hinv, hsame⟩ := buddyFreePages_ok halloc.inv hrange hn hgiant
  -- the same pages are free as before, so the same blocks are
  refine ⟨s', hs', fun k b => h.inv.sameFree (hinv.congr fun q => ?_) (halloc.same.trans hsame)⟩
  have hfree := halloc.free q
  constructor
  · exact fun hq => ⟨.inl hq, fun ⟨hle, hlt⟩ => (hfree hle hlt).2.2 hq⟩
  · exact fun ⟨hq, hout⟩ => hq.resolve_right hout

/-- Both blocks of the largest order are free again. -/
theorem freePages_restores_halves : ∃ s s', halvesZone.buddyAllocPages 65536 = .ok (some 65536, s) ∧
    s.buddyFreePages 65536 65536 = .ok s' ∧ 0 ∈ s'.freeList 16 ∧ 65536 ∈ s'.freeList 16 := by
  obtain ⟨s', hs', hmem⟩ := freePages_restores halvesZone_careful (n := 65536) (by decide) (by decide) rfl
  exact ⟨_, s', rfl, hs', (hmem 16 0).mpr (by decide), (hmem 16 65536).mpr (by decide)⟩

end Machine

end Ucore.Supervisor
