import Ucore.Supervisor.BuddyInv

/-!
# The operations keep the free lists

Freeing a range moves its pages from `held` into the lists, allocating moves pages out
of them.
-/

namespace Ucore.Supervisor.Buddy

open Lib
open Nat (dvd_of_mod_eq_zero)

variable {s s' : Buddy} {held : Nat → Prop} {p q b k j n idx base zone : Nat}

lemma Inv.pageIsBuddy_iff (h : s.Inv held) : s.pageIsBuddy b k zone = true ↔ b ∈ s.freeList k ∧ s.zoneNum b = zone := by
  simp only [pageIsBuddy, Bool.and_eq_true, decide_eq_true_eq, Bool.not_eq_true']
  constructor
  · grind [h.flag]
  · rintro ⟨hb, hz⟩
    have hr := (h.inZone k b hb b (blk_head b k)).1
    obtain ⟨hp, ho⟩ := (h.flag b k).mp hb
    exact ⟨⟨(h.zones b hr).1, hz⟩, ⟨hr, hp⟩, ho⟩

lemma blk_pair (s : Buddy) (zone : Nat) (h : idx % blockSize k = 0) (q : Nat) :
    Blk (s.idx2page zone (idx &&& (idx ^^^ blockSize k))) (k + 1) q ↔
    Blk (s.idx2page zone idx) k q ∨ Blk (s.idx2page zone (idx ^^^ blockSize k)) k q := by
  obtain ⟨m, rfl⟩ : ∃ m, idx = m * blockSize k := ⟨idx / blockSize k, by
    rw [Nat.div_mul_cancel (dvd_of_mod_eq_zero h)]⟩
  have hpair := pair_iff m (blockSize k) (q - s.memBase zone)
  have hand : m * blockSize k &&& (m * blockSize k ^^^ blockSize k) = m / 2 * blockSize (k + 1) := by
    simp only [blockSize]
    rw [mul_shl_xor, mul_shl_and_twin]
  have hxor : m * blockSize k ^^^ blockSize k = twin m * blockSize k := mul_shl_xor m k
  rw [hand, hxor]
  simp only [Blk, idx2page, blockSize_succ] at hpair ⊢
  have := blockSize_pos k
  omega

lemma and_aligned (h : idx % blockSize k = 0) : (idx &&& (idx ^^^ blockSize k)) % blockSize (k + 1) = 0 := by
  obtain ⟨m, rfl⟩ : ∃ m, idx = m * blockSize k := ⟨idx / blockSize k, by
    rw [Nat.div_mul_cancel (dvd_of_mod_eq_zero h)]⟩
  simp [mul_shl_xor, blockSize, mul_shl_and_twin]

lemma merge_ok (rounds : Nat) (h : s.Inv held) (hr : rounds + k = maxOrder)
    (hheld : ∀ q, Blk (s.idx2page zone idx) k q → held q ∧ s.zoneNum q = zone) (hal : idx % blockSize k = 0)
    (hm : merge zone rounds s idx k = (s', b, j)) :
    (s'.addFree (s'.idx2page zone b) j).Inv (fun q => held q ∧ ¬ Blk (s.idx2page zone idx) k q) ∧ SameZones s s' := by
  induction rounds generalizing s held idx k with
  | zero =>
    obtain ⟨rfl, rfl, rfl⟩ : s = s' ∧ idx = b ∧ k = j := by simpa [merge] using hm
    have hz := (hheld _ (blk_head _ k)).2
    refine ⟨h.give (by omega) (fun q hq => ⟨(hheld q hq).1, by rw [(hheld q hq).2, hz]⟩) ?_ (fun hlt => ?_), .refl s⟩
    · rwa [page2idx, hz, idx2page, Nat.add_sub_cancel_left]
    · omega
  | succ rounds ih =>
    have hz := (hheld _ (blk_head _ k)).2
    have hidx : s.page2idx (s.idx2page zone idx) = idx := by
      rw [page2idx, hz, idx2page, Nat.add_sub_cancel_left]
    rw [merge] at hm
    split at hm
    next hbud =>
      obtain ⟨hb, hbz⟩ := h.pageIsBuddy_iff.mp hbud
      -- the buddy's pages join the held ones, and the pair is a held block
      have htake := h.take hb
      have hpair := blk_pair s zone hal
      have hboth : ∀ q, Blk (s.idx2page zone (idx &&& (idx ^^^ blockSize k))) (k + 1) q →
          (held q ∨ Blk (s.idx2page zone (idx ^^^ blockSize k)) k q) ∧ s.zoneNum q = zone := by
        intro q hq
        rcases (hpair q).mp hq with hq | hq
        · exact ⟨.inl (hheld q hq).1, (hheld q hq).2⟩
        · exact ⟨.inr hq, by rw [(h.inZone k _ hb q hq).2.1, hbz]⟩
      obtain ⟨hinv, hsame⟩ := ih htake (by omega) hboth (and_aligned hal) hm
      refine ⟨hinv.congr fun q => ?_, ⟨hsame.reserved, hsame.zoneNum, hsame.memBase, hsame.npage, hsame.zoneCount⟩⟩
      change _ ↔ _ ∧ ¬ Blk (s.idx2page zone (idx &&& (idx ^^^ blockSize k))) (k + 1) q
      have hbq := h.inZone k _ hb q
      rw [hpair q]
      tauto
    next hbud =>
      obtain ⟨rfl, rfl, rfl⟩ : s = s' ∧ idx = b ∧ k = j := by simpa using hm
      refine ⟨h.give (by omega) (fun q hq => ⟨(hheld q hq).1, by rw [(hheld q hq).2, hz]⟩) (by rwa [hidx])
        (fun _ hb => ?_), .refl s⟩
      rw [buddyOf, hidx, hz] at hb
      exact hbud (h.pageIsBuddy_iff.mpr hb)

lemma Inv.clearFlags_eq (h : s.Inv held) (hheld : ∀ q, base ≤ q → q < base + n → held q) : s.clearFlags base n = s := by
  have hf : ∀ f : Nat → Bool, (∀ q, base ≤ q → q < base + n → f q = false) →
      (fun q => if inBlock base n q then false else f q) = f := by
    intro f hf
    funext q
    split
    next hq => grind [inBlock_iff]
    next => rfl
  rw [clearFlags, hf _ fun q hle hlt => h.taken q (hheld q hle hlt),
    hf _ fun q hle hlt => h.not_property (hheld q hle hlt)]

lemma buddyFreePagesSub_ok (h : s.Inv held) (hk : k ≤ maxOrder)
    (hheld : ∀ q, Blk p k q → held q ∧ s.zoneNum q = s.zoneNum p) (hal : s.page2idx p % blockSize k = 0) :
    ∃ s', s.buddyFreePagesSub p k = .ok s' ∧ s'.Inv (fun q => held q ∧ ¬ Blk p k q) ∧ SameZones s s' := by
  have hp := h.page_eq (h.taken p (hheld p (blk_head p k)).1)
  have hall : allPages p (blockSize k) (fun q => !s.pageReserved q && !s.pageProperty q) = true := by
    refine allPages_iff.mpr fun q hle hlt => ?_
    have hq := (hheld q ⟨hle, hlt⟩).1
    simp [h.taken q hq, h.not_property hq]
  have hclear := h.clearFlags_eq fun q hle hlt => (hheld q ⟨hle, hlt⟩).1
  obtain ⟨s', b, j, hm⟩ : ∃ s' b j, merge (s.zoneNum p) (maxOrder - k) s (s.page2idx p) k = (s', b, j) := ⟨_, _, _, rfl⟩
  have hmerge := merge_ok _ h (by omega) (by rwa [hp]) hal hm
  rw [hp] at hmerge
  refine ⟨s'.addFree (s'.idx2page (s.zoneNum p) b) j, ?_, hmerge.1, ?_⟩
  · have hmask : s.page2idx p &&& (blockSize k - 1) = 0 := by rw [← hal]; exact and_shl_sub_one ..
    simp only [buddyFreePagesSub, hmask, hall, hclear, hm, and_self, if_true]
  · exact ⟨hmerge.2.reserved, hmerge.2.zoneNum, hmerge.2.memBase, hmerge.2.npage, hmerge.2.zoneCount⟩

structure Range (s : Buddy) (held : Nat → Prop) (zone base n : Nat) : Prop where
  held : ∀ q, base ≤ q → q < base + n → held q ∧ s.zoneNum q = zone
  memBase : s.memBase zone ≤ base

def NoGiant (idx n : Nat) : Prop :=
  ∀ m, idx ≤ m * blockSize (maxOrder + 1) → idx + n < (m + 1) * blockSize (maxOrder + 1)

lemma NoGiant.drop (h : NoGiant idx n) (hj : j ≤ n) : NoGiant (idx + j) (n - j) := by
  intro m hm
  have := h m (by omega)
  omega

lemma minus_append {e : Nat} (hb : base ≤ b) (he : b ≤ e) (q : Nat) :
    (held q ∧ ¬ (base ≤ q ∧ q < e)) ↔ (held q ∧ ¬ (base ≤ q ∧ q < b)) ∧ ¬ (b ≤ q ∧ q < e) := by
  grind

lemma minus_nil (held : Nat → Prop) (base q : Nat) : (held q ∧ ¬ (base ≤ q ∧ q < base)) ↔ held q :=
  ⟨And.left, fun hq => ⟨hq, by omega⟩⟩

lemma Range.freeFirst (hr : s.Range held zone base n) (h : s.Inv held) (hk : k ≤ maxOrder)
    (hn : blockSize k ≤ n) (hal : (base - s.memBase zone) % blockSize k = 0) :
    ∃ s', s.buddyFreePagesSub base k = .ok s' ∧ s'.Inv (fun q => held q ∧ ¬ Blk base k q) ∧
    s'.Range (fun q => held q ∧ ¬ Blk base k q) zone (base + blockSize k) (n - blockSize k) ∧
    SameZones s s' := by
  have hpos := blockSize_pos k
  have hz := (hr.held base Nat.le.refl (by omega)).2
  obtain ⟨s', hs', hinv, hsame⟩ := buddyFreePagesSub_ok (p := base) h hk
    (fun q hq => by rw [hz]; exact hr.held q hq.1 (by have := hq.2; omega)) (by rwa [page2idx, hz])
  refine ⟨s', hs', hinv, ⟨fun q hle hlt => ?_, ?_⟩, hsame⟩
  · obtain ⟨hq, hqz⟩ := hr.held q (by omega) (by omega)
    exact ⟨⟨hq, fun hb => by have := hb.2; omega⟩, by rw [hsame.zoneNum, hqz]⟩
  · have := hr.memBase
    rw [hsame.memBase]
    omega

lemma freeUp_ok (fuel : Nat) (h : s.Inv held) (hr : s.Range held zone base n)
    (hfuel : fuel + k = maxOrder + 2) (hk : k ≤ maxOrder + 1) (hal : (base - s.memBase zone) % blockSize k = 0)
    (hgiant : NoGiant (base - s.memBase zone) n) :
    ∃ s' b m j, freeUp fuel s base n k = .ok (s', b, m, j) ∧ j ≤ maxOrder + 1 ∧ m < blockSize j ∧
      (b - s.memBase zone) % blockSize j = 0 ∧ base ≤ b ∧ b + m = base + n ∧
      s'.Inv (fun q => held q ∧ ¬ (base ≤ q ∧ q < b)) ∧
      s'.Range (fun q => held q ∧ ¬ (base ≤ q ∧ q < b)) zone b m ∧ SameZones s s' := by
  induction fuel generalizing s held base n k with
  | zero => omega
  | succ fuel ih =>
    rw [freeUp]
    by_cases hn : blockSize k ≤ n
    case neg =>
      rw [if_neg hn]
      refine ⟨s, base, n, k, rfl, hk, by omega, hal, Nat.le.refl, rfl, h.congr (minus_nil held base),
        ⟨fun q hle hlt => ?_, hr.memBase⟩, .refl s⟩
      exact ⟨(minus_nil held base q).mpr (hr.held q hle hlt).1, (hr.held q hle hlt).2⟩
    -- at order 17 the range would start with a giant block
    have hk' : k ≤ maxOrder := by
      by_contra hk'
      obtain rfl : k = maxOrder + 1 := by omega
      have hdvd := Nat.div_mul_cancel (dvd_of_mod_eq_zero hal)
      have := hgiant ((base - s.memBase zone) / blockSize (maxOrder + 1)) (by omega)
      rw [Nat.add_mul, hdvd] at this
      omega
    have hpos := blockSize_pos k
    have hz := (hr.held base Nat.le.refl (by omega)).2
    have hbase := hr.memBase
    have hdiv := Nat.div_mul_cancel (dvd_of_mod_eq_zero hal)
    have hidx : s.page2idx base = base - s.memBase zone := by rw [page2idx, hz]
    rw [if_pos hn, if_pos hk', hidx]
    by_cases hbit : (base - s.memBase zone) &&& blockSize k ≠ 0
    · have hodd := (and_shl_ne_zero _ _).mp hbit
      change (base - s.memBase zone) / blockSize k % 2 = 1 at hodd
      obtain ⟨s1, hs1, hinv1, hr1, hsame1⟩ := hr.freeFirst h hk' hn hal
      have hsum : base + blockSize k - s.memBase zone = base - s.memBase zone + blockSize k := by omega
      have hal1 : (base + blockSize k - s1.memBase zone) % blockSize (k + 1) = 0 := by
        rw [hsame1.memBase, hsum, blockSize_succ]
        exact aligned_of_odd hpos hal hodd
      have hgiant1 : NoGiant (base + blockSize k - s1.memBase zone) (n - blockSize k) := by
        rw [hsame1.memBase, hsum]
        exact hgiant.drop hn
      obtain ⟨s', b, m, j, hup, hj, hm, halb, hle, hbm, hinv, hr', hsame⟩ :=
        ih (k := k + 1) hinv1 hr1 (by omega) (by omega) hal1 hgiant1
      have hheld : ∀ q, (held q ∧ ¬ (base ≤ q ∧ q < b)) ↔
          (held q ∧ ¬ Blk base k q) ∧ ¬ (base + blockSize k ≤ q ∧ q < b) := minus_append (by omega) (by omega)
      rw [if_pos hbit, hs1]
      refine ⟨s', b, m, j, hup, hj, hm, by rwa [hsame1.memBase] at halb, by omega, by omega,
        hinv.congr hheld, ⟨fun q hle hlt => ?_, hr'.memBase⟩, hsame1.trans hsame⟩
      obtain ⟨hq, hqz⟩ := hr'.held q hle hlt
      exact ⟨(hheld q).mpr hq, hqz⟩
    · have heven : ¬ (base - s.memBase zone) / blockSize k % 2 = 1 := fun hodd => hbit ((and_shl_ne_zero _ _).mpr hodd)
      rw [if_neg hbit]
      refine ih h hr (by omega) (by omega) ?_ hgiant
      rw [blockSize_succ]
      exact aligned_of_even hal (by omega)

lemma freeDown_ok (fuel : Nat) (h : s.Inv held) (hr : s.Range held zone base n) (hfuel : n + k < fuel)
    (hk : k ≤ maxOrder + 1) (hk' : n < blockSize k ∨ k ≤ maxOrder) (hn : n < 2 * blockSize k)
    (hal : (base - s.memBase zone) % blockSize k = 0) :
    ∃ s', freeDown fuel s base n k = .ok s' ∧
    s'.Inv (fun q => held q ∧ ¬ (base ≤ q ∧ q < base + n)) ∧ SameZones s s' := by
  induction fuel generalizing s held base n k with
  | zero => omega
  | succ fuel ih =>
    rw [freeDown]
    by_cases hz : n = 0
    · subst hz
      exact ⟨s, if_pos rfl, h.congr (minus_nil held base), .refl s⟩
    rw [if_neg hz]
    by_cases hlt : n < blockSize k
    · rw [if_pos hlt]
      cases k with
      | zero => exact absurd hlt (by simp [blockSize]; omega)
      | succ k =>
        rw [blockSize_succ] at hlt hal
        refine ih h hr (by omega) (by omega) (.inr (by omega)) hlt ?_
        exact Nat.mod_eq_zero_of_dvd (Nat.dvd_trans (Nat.dvd_mul_left ..) (dvd_of_mod_eq_zero hal))
    have hpos := blockSize_pos k
    have hbase := hr.memBase
    obtain ⟨s1, hs1, hinv1, hr1, hsame1⟩ := hr.freeFirst h (hk'.resolve_left hlt) (by omega) hal
    have hsum : base + blockSize k - s.memBase zone = base - s.memBase zone + blockSize k := by omega
    obtain ⟨s', hs', hinv, hsame⟩ := ih hinv1 hr1 (by omega) hk (.inl (by omega)) (by omega) (by
      rw [hsame1.memBase, hsum, Nat.add_mod_right, hal])
    rw [if_neg hlt, hs1]
    refine ⟨s', hs', hinv.congr ?_, hsame1.trans hsame⟩
    rw [show base + blockSize k + (n - blockSize k) = base + n by omega]
    exact minus_append (by omega) (by omega)

lemma buddyFreePages_ok (h : s.Inv held) (hr : s.Range held zone base n) (hn : 0 < n)
    (hgiant : NoGiant (base - s.memBase zone) n) :
    ∃ s', s.buddyFreePages base n = .ok s' ∧
    s'.Inv (fun q => held q ∧ ¬ (base ≤ q ∧ q < base + n)) ∧ SameZones s s' := by
  have hone : blockSize 0 = 1 := rfl
  have hal : (base - s.memBase zone) % blockSize 0 = 0 := by rw [hone, Nat.mod_one]
  rw [buddyFreePages, if_neg (by omega)]
  by_cases h1 : n = 1
  · subst h1
    obtain ⟨s', hs', hinv, -, hsame⟩ := hr.freeFirst h (Nat.zero_le _) Nat.le.refl hal
    rw [if_pos rfl]
    exact ⟨s', hs', hinv, hsame⟩
  obtain ⟨s1, b, m, j, hup, hj, hm, halb, hle, hbm, hinv1, hr1, hsame1⟩ :=
    freeUp_ok (maxOrder + 2) h hr rfl (Nat.zero_le _) hal hgiant
  obtain ⟨s', hs', hinv, hsame⟩ := freeDown_ok (m + j + 1) hinv1 hr1 (by omega) hj (.inl hm) (by omega)
    (by rwa [hsame1.memBase])
  rw [if_neg h1, hup]
  rw [hbm] at hinv
  exact ⟨s', hs', hinv.congr (minus_append hle (by omega)), hsame1.trans hsame⟩

lemma clearPageProperty_addFree (h : b ≠ p) :
    (s.addFree b k).clearPageProperty p = (s.clearPageProperty p).addFree b k := by
  simp [addFree, Function.update_comm h]

lemma clearPageProperty_split (d : Nat) : (split p k d s).clearPageProperty p = split p k d (s.clearPageProperty p) := by
  induction d generalizing s with
  | zero => rfl
  | succ d ih =>
    have := blockSize_pos (k + d)
    rw [split, split, ih, clearPageProperty_addFree (by omega)]

lemma split_ok (d : Nat) (h : s.Inv held) (hk : k + d ≤ maxOrder)
    (hheld : ∀ q, Blk p (k + d) q → held q ∧ s.zoneNum q = s.zoneNum p)
    (hal : s.page2idx p % blockSize (k + d) = 0) :
    (split p k d s).Inv (fun q => held q ∧ (Blk p (k + d) q → Blk p k q)) ∧ SameZones s (split p k d s) := by
  induction d generalizing s held with
  | zero => exact ⟨h.congr fun q => ⟨And.left, fun hq => ⟨hq, id⟩⟩, .refl s⟩
  | succ d ih =>
    have hpos := blockSize_pos (k + d)
    rw [← Nat.add_assoc] at hk hheld hal
    simp only [Blk, blockSize_succ] at hheld
    rw [blockSize_succ] at hal
    have hp := (hheld p (by omega)).1
    have hbase := (h.zones p (h.taken p hp)).2.2
    obtain ⟨-, hpz⟩ := hheld (p + blockSize (k + d)) (by omega)
    have hidx : s.page2idx (p + blockSize (k + d)) = s.page2idx p + blockSize (k + d) := by
      rw [page2idx, page2idx, hpz]
      omega
    obtain ⟨m, hm⟩ := dvd_of_mod_eq_zero hal
    -- the upper half has the held lower half as its buddy
    have hxor : s.page2idx (p + blockSize (k + d)) ^^^ blockSize (k + d) = s.page2idx p := by
      have hm' : s.page2idx p = 2 * m * blockSize (k + d) := by rw [hm, Nat.mul_right_comm]
      rw [hidx, hm', ← Nat.succ_mul]
      have := mul_shl_xor (2 * m).succ (k + d)
      rw [blockSize, this, twin, if_neg (by omega), Nat.succ_sub_one]
    have hgive := h.give (p := p + blockSize (k + d)) (k := k + d) (by omega)
      (fun q hq => by rw [hpz]; exact hheld q (by simp only [Blk] at hq; omega))
      (by rw [hidx, Nat.add_mod_right]; rw [hm, Nat.mul_comm 2, Nat.mul_assoc, Nat.mul_mod_right])
      (fun _ hb => by
        rw [buddyOf, hxor, hpz, h.page_eq (h.taken p hp)] at hb
        exact h.free_not_held hb.1 hp)
    obtain ⟨hinv, hsame⟩ := ih hgive (by omega) (fun q hq => by
        simp only [Blk] at hq
        refine ⟨⟨(hheld q (by omega)).1, ?_⟩, (hheld q (by omega)).2⟩
        simp only [Blk]
        omega)
      (by change s.page2idx p % _ = 0; rw [hm, Nat.mul_comm 2, Nat.mul_assoc, Nat.mul_mod_right])
    refine ⟨hinv.congr fun q => ?_, ⟨hsame.reserved, hsame.zoneNum, hsame.memBase, hsame.npage, hsame.zoneCount⟩⟩
    rw [← Nat.add_assoc]
    have := blockSize_le (Nat.le_add_right k d)
    simp only [Blk, blockSize_succ]
    grind

structure Allocated (s : Buddy) (held : Nat → Prop) (p n : Nat) (s' : Buddy) : Prop where
  inv : s'.Inv fun q => held q ∨ (p ≤ q ∧ q < p + n)
  free : ∀ q, p ≤ q → q < p + n → s.pageReserved q = false ∧ s.zoneNum q = s.zoneNum p ∧ ¬ held q
  same : SameZones s s'

lemma buddyAllocPagesSub_ok (h : s.Inv held) (hk : k ≤ maxOrder) :
    (s.buddyAllocPagesSub k = .ok (none, s) ∧ ∀ j, k ≤ j → s.freeList j = []) ∨
    ∃ p s', s.buddyAllocPagesSub k = .ok (some p, s') ∧ s.Allocated held p (blockSize k) s' ∧
      s.page2idx p % blockSize k = 0 ∧ ∃ j, k ≤ j ∧ s.freeList j ≠ [] := by
  rw [buddyAllocPagesSub, if_pos hk]
  split
  next hnone =>
    refine .inl ⟨rfl, fun j hj => ?_⟩
    by_contra hne
    have hle : j ≤ maxOrder := by
      obtain ⟨p, hp⟩ := List.exists_mem_of_ne_nil _ hne
      exact h.order j p hp
    rw [List.find?_eq_none] at hnone
    refine hnone j ?_ (by simpa using hne)
    rw [List.mem_drop_iff_getElem]
    exact ⟨j - k, by simp; omega, by simp; omega⟩
  next cur hcur =>
    have hmem := List.mem_of_find?_eq_some hcur
    have hle : k ≤ cur := by
      obtain ⟨i, hi, rfl⟩ := List.mem_drop_iff_getElem.mp hmem
      simp
    have hne : s.freeList cur ≠ [] := by simpa using List.find?_some hcur
    cases hl : s.freeList cur with
    | nil => exact absurd hl hne
    | cons p rest =>
      have hp : p ∈ s.freeList cur := by rw [hl]; exact .head _
      have hcurk : k + (cur - k) = cur := by omega
      have hz := h.inZone cur p hp
      have hsub := blockSize_le hle
      obtain ⟨hinv, hsame⟩ := split_ok (k := k) (p := p) (cur - k) (h.take hp) (by rw [hcurk]; exact h.order cur p hp)
        (by rw [hcurk]; exact fun q hq => ⟨.inr hq, (hz q hq).2.1⟩) (by rw [hcurk]; exact h.aligned cur p hp)
      refine .inr ⟨p, _, rfl, ⟨?_, fun q hle hlt => hz q ⟨hle, by omega⟩, ?_⟩, ?_, cur, hle, hne⟩
      · rw [clearPageProperty_split]
        refine hinv.congr fun q => ?_
        have := (hz q)
        rw [hcurk]
        simp only [Blk] at this ⊢
        grind
      · rw [clearPageProperty_split]
        exact ⟨hsame.reserved, hsame.zoneNum, hsame.memBase, hsame.npage, hsame.zoneCount⟩
      · exact Nat.mod_eq_zero_of_dvd (Nat.dvd_trans (shl_dvd hle) (dvd_of_mod_eq_zero (h.aligned cur p hp)))

lemma getorder_ok (hn : n ≤ blockSize maxOrder) : ∃ k, getorder n = .ok k ∧ k ≤ maxOrder ∧ n ≤ blockSize k := by
  rw [getorder]
  grind

def HasBlock (s : Buddy) (n : Nat) : Prop := ∃ k, getorder n = .ok k ∧ ∃ j, k ≤ j ∧ s.freeList j ≠ []

lemma buddyAllocPages_ok (h : s.Inv held) (hn : 0 < n) (hmax : n ≤ blockSize maxOrder) :
    s.buddyAllocPages n = .ok (none, s) ∧ ¬ s.HasBlock n ∨
    s.HasBlock n ∧ ∃ p s', s.buddyAllocPages n = .ok (some p, s') ∧ s.Allocated held p n s' := by
  obtain ⟨k, hk, hkmax, hnk⟩ := getorder_ok hmax
  rw [buddyAllocPages, if_neg (by omega), hk]
  rcases buddyAllocPagesSub_ok h hkmax with ⟨hnone, hnil⟩ | ⟨p, s1, hsome, ha, -, hblock⟩
  · refine .inl ⟨by simp [bind, Except.bind, hnone, pure, Except.pure], ?_⟩
    grind [HasBlock]
  refine .inr ⟨⟨k, hk, hblock⟩, p, ?_⟩
  simp only [bind, Except.bind, hsome]
  have hle := blockSize_le hkmax
  have hp := ha.free p Nat.le.refl (by omega)
  by_cases heq : n = blockSize k
  · subst heq
    exact ⟨s1, by simp [pure, Except.pure], ha⟩
  -- the tail of the block goes back
  have hr : s1.Range (fun q => held q ∨ (p ≤ q ∧ q < p + blockSize k)) (s.zoneNum p) (p + n) (blockSize k - n) := by
    refine ⟨fun q hle hlt => ⟨.inr (by omega), ?_⟩, ?_⟩
    · rw [ha.same.zoneNum]
      exact (ha.free q (by omega) (by omega)).2.1
    · have := (h.zones p hp.1).2.2
      rw [ha.same.memBase]
      omega
  obtain ⟨s', hs', hinv, hsame⟩ := buddyFreePages_ok ha.inv hr (by omega) (by
    intro m hm
    rw [Nat.add_mul, Nat.one_mul, blockSize_succ maxOrder] at *
    omega)
  rw [if_pos heq, hs']
  refine ⟨s', rfl, hinv.congr fun q => ?_, fun q hle hlt => ha.free q hle (by omega), ha.same.trans hsame⟩
  have := ha.free q
  grind

lemma openZone_ok (h : s.Inv held) (hn : base + n ≤ s.npage)
    (hres : ∀ q, base ≤ q → q < base + n → s.pageReserved q = true) :
    (s.openZone base n).Inv fun q => held q ∨ (base ≤ q ∧ q < base + n) := by
  have hout : ∀ q, s.pageReserved q = false → inBlock base n q = false := fun q hq => by
    grind [inBlock_iff]
  have hfree : ∀ {k p}, p ∈ s.freeList k → s.pageReserved p = false :=
    fun {k p} hp => (h.inZone k p hp p (blk_head p k)).1
  have hzone : ∀ q, s.pageReserved q = false → (s.openZone base n).zoneNum q = s.zoneNum q := fun q hq => by
    simp [openZone, hout q hq]
  have hmem : ∀ q, s.pageReserved q = false →
      (s.openZone base n).memBase (s.zoneNum q) = s.memBase (s.zoneNum q) := fun q hq => by
    have := (h.zones q hq).2.1
    simp only [openZone]
    rw [Function.update_of_ne (by omega)]
  have hidx : ∀ q, s.pageReserved q = false → (s.openZone base n).page2idx q = s.page2idx q := fun q hq => by
    rw [page2idx, page2idx, hzone q hq, hmem q hq]
  constructor
  case order => exact h.order
  case nodup => exact h.nodup
  case aligned =>
    intro k p hp
    rw [hidx p (hfree hp)]
    exact h.aligned k p hp
  case inZone =>
    intro k p hp q hq
    obtain ⟨hr, hz, hh⟩ := h.inZone k p hp q hq
    refine ⟨?_, by rw [hzone q hr, hzone p (hfree hp), hz], ?_⟩
    · simp [openZone, clearFlags, hr]
    · grind
  case disjoint => exact h.disjoint
  case cover =>
    intro q hq
    by_cases hin : inBlock base n q = true
    · exact .inl (.inr (inBlock_iff.mp hin))
    have hq' : s.pageReserved q = false := by simpa [openZone, clearFlags, hin] using hq
    rcases h.cover q hq' with hh | hb
    · exact .inl (.inl hh)
    · exact .inr hb
  case flag =>
    intro p k
    change p ∈ s.freeList k ↔ _
    by_cases hin : inBlock base n p = true
    · have : p ∉ s.freeList k := fun hp => by
        have := hout p (hfree hp)
        rw [hin] at this
        cases this
      simp [openZone, clearFlags, hin, this]
    · rw [h.flag p k]
      simp [openZone, clearFlags, hin]
  case taken =>
    intro q hq
    rcases hq with hq | hq
    · simp [openZone, clearFlags, h.taken q hq]
    · simp [openZone, clearFlags, inBlock_iff.mpr hq]
  case merged =>
    intro k p hp hk hbud
    have hp' := hfree hp
    have hbudp : (s.openZone base n).buddyOf p k = s.buddyOf p k := by
      rw [buddyOf, buddyOf, hidx p hp', hzone p hp', idx2page, hmem p hp', idx2page]
    obtain ⟨hb, hz⟩ := hbud
    rw [hbudp] at hb hz
    change s.buddyOf p k ∈ s.freeList k at hb
    rw [hzone _ (hfree hb), hzone p hp'] at hz
    exact h.merged k p hp hk ⟨hb, hz⟩
  case count => exact h.count
  case zones =>
    intro q hq
    by_cases hin : inBlock base n q = true
    · obtain ⟨hle, hlt⟩ := inBlock_iff.mp hin
      have hzq : (s.openZone base n).zoneNum q = s.zoneCount := by simp [openZone, hin]
      rw [hzq]
      refine ⟨?_, ?_, ?_⟩
      · change q < s.npage
        omega
      · exact Nat.lt_succ_self _
      · simp [openZone, hle]
    · have hq' : s.pageReserved q = false := by simpa [openZone, clearFlags, hin] using hq
      obtain ⟨h1, h2, h3⟩ := h.zones q hq'
      rw [hzone q hq', hmem q hq']
      exact ⟨h1, Nat.lt_succ_of_lt h2, h3⟩
  case npage => exact h.npage

structure Rest (s : Buddy) (held : Nat → Prop) (zone p n : Nat) : Prop extends s.Range held zone p n where
  last : ∀ q, s.pageReserved q = false → s.zoneNum q = zone → q < p + n

lemma Rest.addFirst (hr : s.Rest held zone p n) (h : s.Inv held) (hk : k ≤ maxOrder) (hn : blockSize k ≤ n)
    (hal : (p - s.memBase zone) % blockSize k = 0)
    (hal' : k < maxOrder → (p - s.memBase zone) % blockSize (k + 1) = 0) :
    (s.addFree p k).Inv (fun q => held q ∧ ¬ Blk p k q) ∧
    (s.addFree p k).Rest (fun q => held q ∧ ¬ Blk p k q) zone (p + blockSize k) (n - blockSize k) := by
  have hpos := blockSize_pos k
  have hbase := hr.memBase
  have hz := (hr.held p Nat.le.refl (by omega)).2
  have hidx : s.page2idx p = p - s.memBase zone := by rw [page2idx, hz]
  refine ⟨h.give hk (fun q hq => ?_) (by rwa [hidx]) (fun hlt hbud => ?_),
    ⟨⟨fun q hle hlt => ?_, ?_⟩, fun q hq hqz => ?_⟩⟩
  · obtain ⟨hle, hlt⟩ := hq
    rw [hz]
    exact hr.held q hle (by omega)
  · -- the buddy is the next block, which is held or beyond the zone
    obtain ⟨m, hm⟩ := dvd_of_mod_eq_zero (hal' hlt)
    have hxor : s.page2idx p ^^^ blockSize k = s.page2idx p + blockSize k := by
      rw [hidx, hm, blockSize_succ, Nat.mul_right_comm, ← Nat.succ_mul]
      have := mul_shl_xor (2 * m) k
      rw [blockSize, this, twin, if_pos (by omega)]
    have hbp : s.buddyOf p k = p + blockSize k := by
      rw [buddyOf, hxor, hidx, hz, idx2page]
      omega
    obtain ⟨hb, hbz⟩ := hbud
    rw [hbp] at hb hbz
    have hbr := (h.inZone k _ hb _ (blk_head _ k)).1
    have hend := hr.last _ hbr (by rw [hbz, hz])
    exact h.free_not_held hb (hr.held _ (by omega) hend).1
  · obtain ⟨hq, hqz⟩ := hr.held q (by omega) (by omega)
    exact ⟨⟨hq, fun hb => by have := hb.2; omega⟩, hqz⟩
  · change s.memBase zone ≤ _
    omega
  · have := hr.last q hq hqz
    omega

lemma initOrder_ok (fuel : Nat) (h : s.Inv held) (hr : s.Rest held zone p n) (hk : k ≤ maxOrder) (hfuel : n ≤ fuel)
    (hal : (p - s.memBase zone) % blockSize k = 0)
    (hone : k < maxOrder → n < blockSize k ∨ n < blockSize (k + 1) ∧ (p - s.memBase zone) % blockSize (k + 1) = 0) :
    ∃ s' p' n', initOrder k fuel s p n = (s', p', n') ∧ n' < blockSize k ∧ p ≤ p' ∧ p' + n' = p + n ∧
      (p' - s.memBase zone) % blockSize k = 0 ∧ s'.Inv (fun q => held q ∧ ¬ (p ≤ q ∧ q < p')) ∧
      s'.Rest (fun q => held q ∧ ¬ (p ≤ q ∧ q < p')) zone p' n' ∧ SameZones s s' := by
  induction fuel generalizing s held p n with
  | zero =>
    have := blockSize_pos k
    have hheld := funext fun q => propext (minus_nil held p q)
    refine ⟨s, p, n, rfl, by omega, Nat.le.refl, rfl, hal, ?_, ?_, .refl s⟩ <;> rwa [hheld]
  | succ fuel ih =>
    have hpos := blockSize_pos k
    have hbase := hr.memBase
    rw [initOrder]
    by_cases hn : blockSize k ≤ n
    · have hsum : p + blockSize k - s.memBase zone = p - s.memBase zone + blockSize k := by omega
      obtain ⟨hinv1, hr1⟩ := hr.addFirst h hk hn hal fun hlt => ((hone hlt).resolve_left (by omega)).2
      obtain ⟨s', p', n', hi, hn', hle, hsum', hal', hinv, hr', hsame⟩ := ih hinv1 hr1 (by omega)
        (by change (_ - s.memBase zone) % _ = 0; rw [hsum, Nat.add_mod_right, hal])
        (fun hlt => by
          have := ((hone hlt).resolve_left (by omega)).1
          rw [blockSize_succ] at this
          exact .inl (by omega))
      have hheld : (fun q => (held q ∧ ¬ Blk p k q) ∧ ¬ (p + blockSize k ≤ q ∧ q < p')) = fun q =>
        held q ∧ ¬ (p ≤ q ∧ q < p') :=
        funext fun q => propext (minus_append (by omega) (by omega) q).symm
      rw [hheld] at hinv hr'
      rw [if_pos hn]
      exact ⟨s', p', n', hi, hn', by omega, by omega, hal', hinv, hr',
        ⟨hsame.reserved, hsame.zoneNum, hsame.memBase, hsame.npage, hsame.zoneCount⟩⟩
    · have hheld := funext fun q => propext (minus_nil held p q)
      rw [if_neg hn]
      refine ⟨s, p, n, rfl, by omega, Nat.le.refl, rfl, hal, ?_, ?_, .refl s⟩ <;> rwa [hheld]

lemma initBlocks_ok (h : s.Inv held) (hr : s.Rest held zone p n) (hk : k ≤ maxOrder)
    (hal : (p - s.memBase zone) % blockSize k = 0)
    (hone : k < maxOrder → n < blockSize (k + 1) ∧ (p - s.memBase zone) % blockSize (k + 1) = 0) :
    (s.initBlocks p n k).Inv (fun q => held q ∧ ¬ (p ≤ q ∧ q < p + n)) ∧ SameZones s (s.initBlocks p n k) := by
  obtain ⟨s', p', n', hi, hn', hle, hsum, hal', hinv, hr', hsame⟩ :=
    initOrder_ok n h hr hk Nat.le.refl hal fun hlt => .inr (hone hlt)
  induction k generalizing s held p n s' p' n' with
  | zero =>
    have hsize : blockSize 0 = 1 := rfl
    obtain rfl : p' = p + n := by omega
    rw [initBlocks, hi]
    exact ⟨hinv, hsame⟩
  | succ k ih =>
    rw [initBlocks, hi]
    simp only
    by_cases hz : n' = 0
    · obtain rfl : p' = p + n := by omega
      rw [if_pos hz]
      exact ⟨hinv, hsame⟩
    rw [if_neg hz]
    rw [← hsame.memBase] at hal'
    have hal'' : (p' - s'.memBase zone) % blockSize k = 0 :=
      Nat.mod_eq_zero_of_dvd (Nat.dvd_trans (shl_dvd (Nat.le_succ k)) (dvd_of_mod_eq_zero hal'))
    obtain ⟨s2, p2, n2, hi2, hn2, hle2, hsum2, hal2, hinv2, hr2, hsame2⟩ :=
      initOrder_ok n' hinv hr' (by omega) Nat.le.refl hal'' fun _ => .inr ⟨hn', hal'⟩
    obtain ⟨hres, hsame'⟩ :=
      ih hinv hr' (by omega) hal'' (fun _ => ⟨hn', hal'⟩) s2 p2 n2 hi2 hn2 hle2 hsum2 hal2 hinv2 hr2 hsame2
    rw [hsum] at hres
    exact ⟨hres.congr (minus_append hle (by omega)), hsame.trans hsame'⟩

lemma buddyInitMemmap_ok (h : s.Inv held) (hn : 0 < n) (hz : s.zoneCount < maxZoneNum) (hend : base + n ≤ s.npage)
    (hres : ∀ q, base ≤ q → q < base + n → s.pageReserved q = true) :
    ∃ s', s.buddyInitMemmap base n = .ok s' ∧ s'.Inv held ∧
    ∀ q, s'.pageReserved q = (s.pageReserved q && !inBlock base n q) := by
  have hopen := openZone_ok h hend hres
  have hzq : ∀ q, base ≤ q → q < base + n → (s.openZone base n).zoneNum q = s.zoneCount := fun q hle hlt => by
    simp [openZone, inBlock_iff.mpr ⟨hle, hlt⟩]
  have hmem : (s.openZone base n).memBase s.zoneCount = base := by simp [openZone]
  have hr : (s.openZone base n).Rest (fun q => held q ∨ (base ≤ q ∧ q < base + n)) s.zoneCount base n := by
    refine ⟨⟨fun q hle hlt => ⟨.inr ⟨hle, hlt⟩, hzq q hle hlt⟩, Nat.le_of_eq hmem⟩, fun q hq hqz => ?_⟩
    by_contra hlt
    have hin : inBlock base n q = false := by simp [inBlock]; omega
    have hq' : s.pageReserved q = false := by simpa [openZone, clearFlags, hin] using hq
    have := (h.zones q hq').2.1
    simp only [openZone, hin, Bool.false_eq_true, if_false] at hqz
    omega
  obtain ⟨hinv, hsame⟩ := initBlocks_ok hopen hr Nat.le.refl (by rw [hmem, Nat.sub_self, Nat.zero_mod])
    fun hlt => absurd hlt (Nat.lt_irrefl _)
  grind [buddyInitMemmap, openZone, clearFlags, allPages_iff, hinv.congr, h.taken, hsame.reserved]

end Ucore.Supervisor.Buddy
