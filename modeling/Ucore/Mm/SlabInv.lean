import Ucore.Lib.Chain
import Ucore.Mm.Slab

/-!
# Slabs own their pages and chain their free objects

`fr` gives the free chain of each slab and `extra` the pages that
`kmem_cache_grow` has and no slab owns yet. An object is an index outside the
chain of its slab. Some objects are the `slab_t` of another slab; the others
are loose.
-/

namespace Ucore.Mm

open Lib Function

lemma inPages_iff {page n q : Nat} : inPages page n q = true ↔ page ≤ q ∧ q < page + n := by
  simp [inPages]

@[mk_iff] structure CacheOk (cache : Nat → KmemCache) (c : KmemCache) : Prop where
  num_pos : 0 < c.num
  num_le : c.num ≤ bufctlEnd
  objsize_pos : 0 < c.objsize
  fits : c.offset + c.num * c.objsize ≤ pgSize * 1 <<< c.pageOrder
  onSlab : c.offSlab = false → sizeofSlab + c.num * sizeofBufctl ≤ c.offset
  offSlab : c.offSlab = true → c.slabCachep < slabCacheNum ∧ (cache c.slabCachep).offSlab = false ∧
    sizeofSlab + c.num * sizeofBufctl ≤ (cache c.slabCachep).objsize

namespace SlabAlloc

variable {s s' : SlabAlloc} {fr : Nat → List Nat} {extra : Nat → Prop} {i j k a b c q x page n : Nat}
  {l : List Nat} {F N : Nat → List Nat}

def slabs (s : SlabAlloc) (i : Nat) : List Nat := s.slabsFull i ++ s.slabsNotfull i

def base (s : SlabAlloc) (a : Nat) : Nat := kva2page ((s.slab a).sMem - (s.slab a).offset)

def objAt (s : SlabAlloc) (i a j : Nat) : Nat := (s.slab a).sMem + j * (s.cache i).objsize

structure Object (s : SlabAlloc) (fr : Nat → List Nat) (i a j : Nat) : Prop where
  slab : a ∈ s.slabs i
  lt : j < (s.cache i).num
  taken : j ∉ fr a

def Mgmt (s : SlabAlloc) (x : Nat) : Prop := ∃ i, x ∈ s.slabs i ∧ (s.cache i).offSlab = true

def Loose (s : SlabAlloc) (fr : Nat → List Nat) (x : Nat) : Prop :=
  (∃ i a j, s.Object fr i a j ∧ x = s.objAt i a j) ∧ ¬ s.Mgmt x

structure SlabOk (s : SlabAlloc) (fr : Nat → List Nat) (i a : Nat) : Prop where
  offset : (s.slab a).offset = (s.cache i).offset
  sMem : (s.slab a).sMem = page2kva (s.base a) + (s.cache i).offset
  owns : ∀ q, inPages (s.base a) (s.order i) q = true →
    s.used q = true ∧ s.pageSlab q = true ∧ s.pageCache q = i ∧ s.pageSlabp q = a
  onSlab : (s.cache i).offSlab = false → a = page2kva (s.base a)
  chain : Chain (s.slab a).bufctl bufctlEnd (s.slab a).free (fr a)
  nodup : (fr a).Nodup
  lt : ∀ j ∈ fr a, j < (s.cache i).num
  count : (fr a).length + (s.slab a).inuse = (s.cache i).num

structure Inv (s : SlabAlloc) (fr : Nat → List Nat) (extra : Nat → Prop) : Prop where
  configured : ∀ i, i < slabCacheNum → CacheOk s.cache (s.cache i)
  index : ∀ i a, a ∈ s.slabs i → i < slabCacheNum
  slabOk : ∀ i a, a ∈ s.slabs i → s.SlabOk fr i a
  nodupFull : ∀ i, (s.slabsFull i).Nodup
  nodupNotfull : ∀ i, (s.slabsNotfull i).Nodup
  full : ∀ i a, a ∈ s.slabsFull i → (s.slab a).inuse = (s.cache i).num
  notfull : ∀ i a, a ∈ s.slabsNotfull i → (s.slab a).inuse < (s.cache i).num
  used : ∀ q, s.used q = true → extra q ∨ ∃ i a, a ∈ s.slabs i ∧ inPages (s.base a) (s.order i) q = true
  apart : ∀ q, extra q → s.used q = true ∧ ∀ i a, a ∈ s.slabs i → inPages (s.base a) (s.order i) q = false
  mgmt : ∀ i a, a ∈ s.slabs i → (s.cache i).offSlab = true →
    ∃ b j, s.Object fr (s.cache i).slabCachep b j ∧ a = s.objAt (s.cache i).slabCachep b j

section

variable (h : s.Inv fr extra)
include h

lemma Inv.cacheOk (ha : a ∈ s.slabs i) : CacheOk s.cache (s.cache i) := h.configured i (h.index i a ha)

omit h in
lemma order_pos (s : SlabAlloc) (i : Nat) : 0 < s.order i := by
  rw [order, Nat.one_shiftLeft]
  exact Nat.two_pow_pos _

lemma Inv.objAt_bounds (ha : a ∈ s.slabs i) (hj : j < (s.cache i).num) :
    page2kva (s.base a) + (s.cache i).offset ≤ s.objAt i a j ∧
    s.objAt i a j + (s.cache i).objsize ≤ page2kva (s.base a + s.order i) := by
  have hfits := (h.cacheOk ha).fits
  have hmul : (j + 1) * (s.cache i).objsize ≤ (s.cache i).num * (s.cache i).objsize := Nat.mul_le_mul_right _ hj
  have hord : page2kva (s.base a + s.order i) = page2kva (s.base a) + pgSize * 1 <<< (s.cache i).pageOrder := by
    rw [page2kva, page2kva, order, Nat.add_mul, Nat.mul_comm pgSize]
  rw [Nat.add_mul, Nat.one_mul] at hmul
  rw [objAt, (h.slabOk i a ha).sMem, hord]
  omega

omit h in
lemma kva2page_iff : page ≤ kva2page x ∧ kva2page x < page + n ↔ page2kva page ≤ x ∧ x < page2kva (page + n) := by
  simp only [kva2page, page2kva, pgSize]
  omega

section

variable (ha : a ∈ s.slabs i)
include ha

lemma Inv.objAt_page (hj : j < (s.cache i).num) : inPages (s.base a) (s.order i) (kva2page (s.objAt i a j)) = true := by
  have hb := h.objAt_bounds ha hj
  have hpos := (h.cacheOk ha).objsize_pos
  rw [inPages_iff, kva2page_iff]
  omega

lemma Inv.resolve (hj : j < (s.cache i).num) :
    s.pageSlab (kva2page (s.objAt i a j)) = true ∧ s.pageCache (kva2page (s.objAt i a j)) = i ∧
    s.pageSlabp (kva2page (s.objAt i a j)) = a ∧
    (s.objAt i a j - (s.slab a).sMem) / (s.cache i).objsize = j := by
  obtain ⟨-, hp, hc, hs⟩ := (h.slabOk i a ha).owns _ (h.objAt_page ha hj)
  refine ⟨hp, hc, hs, ?_⟩
  rw [objAt, Nat.add_sub_cancel_left, Nat.mul_div_cancel _ (h.cacheOk ha).objsize_pos]

lemma Inv.objAt_inj (hj : j < (s.cache i).num) (hb : b ∈ s.slabs k)
    (hc : c < (s.cache k).num) (heq : s.objAt i a j = s.objAt k b c) : i = k ∧ a = b ∧ j = c := by
  obtain ⟨-, h1, h2, h3⟩ := h.resolve ha hj
  obtain ⟨-, h1', h2', h3'⟩ := h.resolve hb hc
  rw [heq] at h1 h2 h3
  obtain rfl : i = k := h1.symm.trans h1'
  obtain rfl : a = b := h2.symm.trans h2'
  exact ⟨rfl, rfl, h3.symm.trans h3'⟩

lemma Inv.same_slab (hb : b ∈ s.slabs k)
    (hq : inPages (s.base a) (s.order i) q = true) (hq' : inPages (s.base b) (s.order k) q = true) :
    i = k ∧ a = b := by
  obtain ⟨-, -, hc, hs⟩ := (h.slabOk i a ha).owns q hq
  obtain ⟨-, -, hc', hs'⟩ := (h.slabOk k b hb).owns q hq'
  exact ⟨hc.symm.trans hc', hs.symm.trans hs'⟩

end

omit h in
lemma inPages_base (s : SlabAlloc) (i a : Nat) : inPages (s.base a) (s.order i) (s.base a) = true := by
  have := s.order_pos i
  rw [inPages_iff]
  omega

lemma Inv.cache_unique (ha : a ∈ s.slabs i) (hb : a ∈ s.slabs k) : i = k :=
  (h.same_slab ha hb (s.inPages_base i a) (s.inPages_base k a)).1

structure SamePages (s s' : SlabAlloc) : Prop where
  cache : s'.cache = s.cache
  pageSlab : s'.pageSlab = s.pageSlab
  pageCache : s'.pageCache = s.pageCache
  pageSlabp : s'.pageSlabp = s.pageSlabp
  used : s'.used = s.used

omit h in
lemma SamePages.order (h : SamePages s s') (i : Nat) : s'.order i = s.order i := by
  rw [SlabAlloc.order, SlabAlloc.order, h.cache]

structure Retouch (s : SlabAlloc) (a : Nat) (s' : SlabAlloc) : Prop extends SamePages s s' where
  others : ∀ b, b ≠ a → s'.slab b = s.slab b
  sMem : (s'.slab a).sMem = (s.slab a).sMem
  offset : (s'.slab a).offset = (s.slab a).offset
  slabs : ∀ i b, b ∈ s'.slabs i ↔ b ∈ s.slabs i

omit h in
lemma Retouch.base (h : Retouch s a s') (b : Nat) : s'.base b = s.base b := by
  grind [SlabAlloc.base, h.sMem, h.offset, h.others]

omit h in
lemma Retouch.objAt (h : Retouch s a s') (i b j : Nat) : s'.objAt i b j = s.objAt i b j := by
  grind [SlabAlloc.objAt, h.sMem, h.cache, h.others]

omit h in
lemma Retouch.mgmt_iff (h : Retouch s a s') (x : Nat) : s'.Mgmt x ↔ s.Mgmt x := by
  simp only [Mgmt, h.slabs, h.cache]

omit h in
lemma Retouch.object_iff (h : Retouch s a s') (k b j : Nat) : s'.Object (update fr a l) k b j ↔
    b ∈ s.slabs k ∧ j < (s.cache k).num ∧ (if b = a then j ∉ l else j ∉ fr b) := by
  have hfr : j ∉ update fr a l b ↔ (if b = a then j ∉ l else j ∉ fr b) := by
    by_cases hb : b = a
    · simp [hb]
    · simp [hb]
  rw [← hfr, ← h.cache, ← h.slabs]
  exact ⟨fun ⟨h1, h2, h3⟩ => ⟨h1, h2, h3⟩, fun ⟨h1, h2, h3⟩ => ⟨h1, h2, h3⟩⟩

lemma Inv.retouch (ha : a ∈ s.slabs i) (hr : Retouch s a s')
    (hchain : Chain (s'.slab a).bufctl bufctlEnd (s'.slab a).free l) (hnodup : l.Nodup)
    (hlt : ∀ j ∈ l, j < (s.cache i).num) (hcount : l.length + (s'.slab a).inuse = (s.cache i).num)
    (hnodupFull : ∀ k, (s'.slabsFull k).Nodup) (hnodupNotfull : ∀ k, (s'.slabsNotfull k).Nodup)
    (hfull : ∀ k b, b ∈ s'.slabsFull k → (s'.slab b).inuse = (s.cache k).num)
    (hnotfull : ∀ k b, b ∈ s'.slabsNotfull k → (s'.slab b).inuse < (s.cache k).num)
    (hfreed : ∀ j, j ∈ l → j ∉ fr a → ¬ s.Mgmt (s.objAt i a j)) : s'.Inv (update fr a l) extra := by
  constructor
  case configured =>
    rw [hr.cache]
    exact h.configured
  case index => exact fun k b hb => h.index k b ((hr.slabs k b).mp hb)
  case slabOk =>
    intro k b hb
    rw [hr.slabs] at hb
    have hok := h.slabOk k b hb
    have hbase := hr.base b
    by_cases hba : b = a
    · subst hba
      obtain rfl := h.cache_unique ha hb
      constructor
      case offset => rw [hr.offset, hr.cache, hok.offset]
      case sMem => rw [hr.sMem, hr.cache, hbase, hok.sMem]
      case owns =>
        rw [hbase, hr.order, hr.used, hr.pageSlab, hr.pageCache, hr.pageSlabp]
        exact hok.owns
      case onSlab =>
        rw [hr.cache, hbase]
        exact hok.onSlab
      case chain => rwa [update_self]
      case nodup => rwa [update_self]
      case lt => rwa [update_self, hr.cache]
      case count => rwa [update_self, hr.cache]
    · have hsb := hr.others b hba
      constructor
      case offset => rw [hsb, hr.cache, hok.offset]
      case sMem => rw [hsb, hr.cache, hbase, hok.sMem]
      case owns =>
        rw [hbase, hr.order, hr.used, hr.pageSlab, hr.pageCache, hr.pageSlabp]
        exact hok.owns
      case onSlab =>
        rw [hr.cache, hbase]
        exact hok.onSlab
      case chain =>
        rw [update_of_ne hba, hsb]
        exact hok.chain
      case nodup =>
        rw [update_of_ne hba]
        exact hok.nodup
      case lt =>
        rw [update_of_ne hba, hr.cache]
        exact hok.lt
      case count =>
        rw [update_of_ne hba, hsb, hr.cache]
        exact hok.count
  case nodupFull => exact hnodupFull
  case nodupNotfull => exact hnodupNotfull
  case full => exact fun k b hb => by rw [hr.cache]; exact hfull k b hb
  case notfull => exact fun k b hb => by rw [hr.cache]; exact hnotfull k b hb
  case used => simpa only [hr.used, hr.slabs, hr.base, hr.order] using h.used
  case apart => simpa only [hr.used, hr.slabs, hr.base, hr.order] using h.apart
  case mgmt =>
    intro k b hb hoff
    -- the object that is the `slab_t` of `b` has not been freed
    rw [hr.slabs] at hb
    rw [hr.cache] at hoff ⊢
    obtain ⟨c, j, ho, hobj⟩ := h.mgmt k b hb hoff
    refine ⟨c, j, (hr.object_iff _ c j).mpr ⟨ho.slab, ho.lt, ?_⟩, by rw [hr.objAt, hobj]⟩
    split
    next hca =>
      subst hca
      intro hjl
      obtain rfl := h.cache_unique ha ho.slab
      exact hfreed j hjl ho.taken ⟨k, hobj ▸ hb, hoff⟩
    next => exact ho.taken

omit h in
lemma mem_slabs : a ∈ s.slabs i ↔ a ∈ s.slabsFull i ∨ a ∈ s.slabsNotfull i := List.mem_append

lemma Inv.not_both (hn : a ∈ s.slabsNotfull i) : a ∉ s.slabsFull i := fun hf => by
  have := h.full i a hf
  have := h.notfull i a hn
  omega

lemma Inv.mem_unlinkFull : b ∈ (s.unlinkSlab i a).slabsFull k ↔ b ∈ s.slabsFull k ∧ ¬ (k = i ∧ b = a) := by
  by_cases hk : k = i
  · subst hk
    simp [(h.nodupFull k).mem_erase_iff, and_comm]
  · simp [hk]

lemma Inv.mem_unlinkNotfull : b ∈ (s.unlinkSlab i a).slabsNotfull k ↔ b ∈ s.slabsNotfull k ∧ ¬ (k = i ∧ b = a) := by
  by_cases hk : k = i
  · subst hk
    simp [(h.nodupNotfull k).mem_erase_iff, and_comm]
  · simp [hk]

lemma Inv.nodup_unlinkFull (k : Nat) : ((s.unlinkSlab i a).slabsFull k).Nodup := by
  by_cases hk : k = i
  · subst hk
    simpa using (h.nodupFull k).erase a
  · simpa [hk] using h.nodupFull k

lemma Inv.nodup_unlinkNotfull (k : Nat) : ((s.unlinkSlab i a).slabsNotfull k).Nodup := by
  by_cases hk : k = i
  · subst hk
    simpa using (h.nodupNotfull k).erase a
  · simpa [hk] using h.nodupNotfull k

omit h in
lemma mem_addFull : b ∈ (s.addFull i a).slabsFull k ↔ b ∈ s.slabsFull k ∨ (k = i ∧ b = a) := by
  by_cases hk : k = i
  · subst hk
    simp [addFull, or_comm]
  · simp [addFull, hk]

omit h in
lemma mem_addNotfull : b ∈ (s.addNotfull i a).slabsNotfull k ↔ b ∈ s.slabsNotfull k ∨ (k = i ∧ b = a) := by
  by_cases hk : k = i
  · subst hk
    simp [addNotfull, or_comm]
  · simp [addNotfull, hk]

omit h in
lemma nodup_addFull (h : ∀ k, (s.slabsFull k).Nodup) (ha : a ∉ s.slabsFull i) (k : Nat) :
    ((s.addFull i a).slabsFull k).Nodup := by
  by_cases hk : k = i
  · subst hk
    simpa [addFull] using ⟨ha, h k⟩
  · simpa [addFull, hk] using h k

omit h in
lemma nodup_addNotfull (h : ∀ k, (s.slabsNotfull k).Nodup) (ha : a ∉ s.slabsNotfull i) (k : Nat) :
    ((s.addNotfull i a).slabsNotfull k).Nodup := by
  by_cases hk : k = i
  · subst hk
    simpa [addNotfull] using ⟨ha, h k⟩
  · simpa [addNotfull, hk] using h k

lemma Inv.mem_unlink : b ∈ (s.unlinkSlab i a).slabs k ↔ b ∈ s.slabs k ∧ ¬ (k = i ∧ b = a) := by
  rw [mem_slabs, mem_slabs, h.mem_unlinkFull, h.mem_unlinkNotfull]
  tauto

lemma Inv.mem_moveFull (ha : a ∈ s.slabs i) : b ∈ ((s.unlinkSlab i a).addFull i a).slabs k ↔ b ∈ s.slabs k := by
  have hun := h.mem_unlink (a := a) (i := i) (b := b) (k := k)
  rw [mem_slabs] at hun ⊢
  rw [mem_addFull]
  by_cases hk : k = i ∧ b = a
  · obtain ⟨rfl, rfl⟩ := hk
    simp [ha]
  · exact (or_congr_left (or_iff_left hk)).trans (hun.trans (and_iff_left hk))

lemma Inv.mem_moveNotfull (ha : a ∈ s.slabs i) : b ∈ ((s.unlinkSlab i a).addNotfull i a).slabs k ↔ b ∈ s.slabs k := by
  have hun := h.mem_unlink (a := a) (i := i) (b := b) (k := k)
  rw [mem_slabs] at hun ⊢
  rw [mem_addNotfull]
  by_cases hk : k = i ∧ b = a
  · obtain ⟨rfl, rfl⟩ := hk
    simp [ha]
  · exact (or_congr_right (or_iff_left hk)).trans (hun.trans (and_iff_left hk))

omit h in
lemma retouch_record {r : Slab} (hs : r.sMem = (s.slab a).sMem)
    (ho : r.offset = (s.slab a).offset) (hm : ∀ k b, b ∈ F k ++ N k ↔ b ∈ s.slabs k) :
    Retouch s a { s with slab := update s.slab a r, slabsFull := F, slabsNotfull := N } where
  cache := rfl
  pageSlab := rfl
  pageCache := rfl
  pageSlabp := rfl
  used := rfl
  others _ hb := update_of_ne hb ..
  sMem := by simp [hs]
  offset := by simp [ho]
  slabs := hm

lemma Inv.record {r : Slab} (ha : a ∈ s.slabs i)
    (hr : Retouch s a { s with slab := update s.slab a r, slabsFull := F, slabsNotfull := N })
    (hchain : Chain r.bufctl bufctlEnd r.free l) (hnodup : l.Nodup) (hlt : ∀ j ∈ l, j < (s.cache i).num)
    (hcount : l.length + r.inuse = (s.cache i).num) (hF : ∀ k, (F k).Nodup) (hN : ∀ k, (N k).Nodup)
    (hfull : ∀ k b, b ∈ F k → if b = a then r.inuse = (s.cache i).num else b ∈ s.slabsFull k)
    (hnotfull : ∀ k b, b ∈ N k → if b = a then r.inuse < (s.cache i).num else b ∈ s.slabsNotfull k)
    (hfreed : ∀ j, j ∈ l → j ∉ fr a → ¬ s.Mgmt (s.objAt i a j)) :
    { s with slab := update s.slab a r, slabsFull := F, slabsNotfull := N }.Inv (update fr a l) extra := by
  have hself : update s.slab a r a = r := update_self ..
  refine h.retouch ha hr ?_ hnodup hlt ?_ hF hN (fun k b hb => ?_) (fun k b hb => ?_) hfreed
  · change Chain (update s.slab a r a).bufctl _ (update s.slab a r a).free l
    rwa [hself]
  · change l.length + (update s.slab a r a).inuse = _
    rwa [hself]
  · have hk := hfull k b hb
    change (update s.slab a r b).inuse = _
    by_cases hba : b = a
    · subst hba
      obtain rfl := h.cache_unique ha ((hr.slabs k b).mp (mem_slabs.mpr (.inl hb)))
      rwa [hself, if_pos rfl] at *
    · rw [if_neg hba] at hk
      rw [update_of_ne hba]
      exact h.full k b hk
  · have hk := hnotfull k b hb
    change (update s.slab a r b).inuse < _
    by_cases hba : b = a
    · subst hba
      obtain rfl := h.cache_unique ha ((hr.slabs k b).mp (mem_slabs.mpr (.inr hb)))
      rwa [hself, if_pos rfl] at *
    · rw [if_neg hba] at hk
      rw [update_of_ne hba]
      exact h.notfull k b hk

@[simps] def pop (r : Slab) (x : Nat) : Slab := { r with inuse := r.inuse + 1, free := r.bufctl x }

structure AllocOne (s : SlabAlloc) (fr : Nat → List Nat) (extra : Nat → Prop) (a x : Nat) (l : List Nat)
    (s' : SlabAlloc) : Prop extends Retouch s a s' where
  free : fr a = x :: l
  inv : s'.Inv (update fr a l) extra
  inuse : (s'.slab a).inuse = (s.slab a).inuse + 1

lemma kmemCacheAllocOne_ok (ha : a ∈ s.slabsNotfull i) :
    ∃ x l s', s.kmemCacheAllocOne i a = (s.objAt i a x, s') ∧ AllocOne s fr extra a x l s' := by
  have has : a ∈ s.slabs i := mem_slabs.mpr (.inr ha)
  have hok := h.slabOk i a has
  have hnum := h.notfull i a ha
  cases hfr : fr a with
  | nil => grind [hok.count]
  | cons x l =>
    have hchain := hok.chain
    have hcount := hok.count
    have hnodup := hok.nodup
    have hlt := hok.lt
    rw [hfr] at hchain hcount hnodup hlt
    obtain ⟨hx, hend, hchain⟩ := hchain
    rw [List.length_cons] at hcount
    have hnodup' := (List.nodup_cons.mp hnodup).2
    have hlt' : ∀ j ∈ l, j < (s.cache i).num := fun j hj => hlt j (.tail x hj)
    have hfreed : ∀ j, j ∈ l → j ∉ fr a → ¬ s.Mgmt (s.objAt i a j) := fun j hj hjf =>
      absurd (hfr ▸ List.mem_cons_of_mem x hj) hjf
    rw [kmemCacheAllocOne, hx]
    by_cases hlast : (s.slab a).bufctl x = bufctlEnd
    · -- the slab becomes full
      obtain rfl : l = [] := hchain.nil_iff.mp hlast
      rw [List.length_nil] at hcount
      have hr := retouch_record (s := s) (a := a) (r := pop (s.slab a) x) rfl rfl fun k b =>
        h.mem_moveFull (b := b) (k := k) has
      have hinv := h.record has hr hchain hnodup' hlt' (by rw [pop_inuse, List.length_nil]; omega)
        (nodup_addFull h.nodup_unlinkFull fun hm => (h.mem_unlinkFull.mp hm).2 ⟨rfl, rfl⟩) h.nodup_unlinkNotfull
        (fun k b hb => ?_) (fun k b hb => ?_) hfreed
      · rw [if_pos hlast]
        exact ⟨x, [], _, rfl, hr, hfr, hinv, by simp [addFull, setSlab]⟩
      · split
        · rw [pop_inuse]
          omega
        next hba => exact (h.mem_unlinkFull.mp ((mem_addFull.mp hb).resolve_right fun hh => hba hh.2)).1
      · obtain ⟨hb1, hne⟩ := h.mem_unlinkNotfull.mp hb
        have hba : b ≠ a := by
          rintro rfl
          exact hne ⟨h.cache_unique (mem_slabs.mpr (.inr hb1)) has, rfl⟩
        rwa [if_neg hba]
    · have hr := retouch_record (s := s) (a := a) (r := pop (s.slab a) x) rfl rfl fun k b => Iff.rfl
      have hlen : l ≠ [] := fun hl => hlast (hchain.nil_iff.mpr hl)
      have hpos := List.length_pos_iff.mpr hlen
      have hinv := h.record has hr hchain hnodup' hlt' (by rw [pop_inuse]; omega) h.nodupFull h.nodupNotfull
        (fun k b hb => ?_) (fun k b hb => ?_) hfreed
      · rw [if_neg hlast]
        exact ⟨x, l, _, rfl, hr, hfr, hinv, by simp [setSlab]⟩
      · have hba : b ≠ a := by
          rintro rfl
          obtain rfl := h.cache_unique (mem_slabs.mpr (.inl hb)) has
          exact h.not_both ha hb
        rwa [if_neg hba]
      · split
        · rw [pop_inuse]
          omega
        · exact hb

@[simps] def push (r : Slab) (j : Nat) : Slab :=
  { r with bufctl := update r.bufctl j r.free, free := j, inuse := r.inuse - 1 }

section

variable (ho : s.Object fr i a j)
include ho

lemma Object.nodup_cons : (j :: fr a).Nodup := List.nodup_cons.mpr ⟨ho.taken, (h.slabOk i a ho.slab).nodup⟩

lemma Object.lt_cons : ∀ x ∈ j :: fr a, x < (s.cache i).num := by
  intro x hx
  rcases List.mem_cons.mp hx with rfl | hx
  · exact ho.lt
  · exact (h.slabOk i a ho.slab).lt x hx

lemma Object.inuse_pos : 0 < (s.slab a).inuse := by
  have hlen := length_le_of_nodup (ho.nodup_cons h) (ho.lt_cons h)
  have hcount := (h.slabOk i a ho.slab).count
  rw [List.length_cons] at hlen
  omega

lemma Object.unique (hone : (s.slab a).inuse = 1) (ho' : s.Object fr i a k) : k = j := by
  by_contra hne
  have hnodup : (k :: j :: fr a).Nodup :=
    List.nodup_cons.mpr ⟨fun hk => (List.mem_cons.mp hk).elim hne ho'.taken, ho.nodup_cons h⟩
  have hlt : ∀ x ∈ k :: j :: fr a, x < (s.cache i).num := fun x hx => by
    rcases List.mem_cons.mp hx with rfl | hx
    · exact ho'.lt
    · exact ho.lt_cons h x hx
  have hlen := length_le_of_nodup hnodup hlt
  have hcount := (h.slabOk i a ho.slab).count
  simp only [List.length_cons] at hlen
  omega

structure FreeOne (s : SlabAlloc) (fr : Nat → List Nat) (extra : Nat → Prop) (a j : Nat) (s' : SlabAlloc) : Prop
    extends Retouch s a s' where
  inv : s'.Inv (update fr a (j :: fr a)) extra
  inuse : (s'.slab a).inuse = (s.slab a).inuse - 1

lemma kmemCacheFreeOne_stays (hm : ¬ s.Mgmt (s.objAt i a j))
    (hmore : (s.slab a).inuse ≠ 1) (free : SlabAlloc → Nat → Nat → Except Panic SlabAlloc) :
    ∃ s', s.kmemCacheFreeOne free i a (s.objAt i a j) = .ok s' ∧ FreeOne s fr extra a j s' := by
  have hpos := ho.inuse_pos h
  have hok := h.slabOk i a ho.slab
  have hcount := hok.count
  have hres := (h.resolve ho.slab ho.lt).2.2.2
  have hchain := hok.chain.push ho.taken (Nat.ne_of_lt (Nat.lt_of_lt_of_le ho.lt (h.cacheOk ho.slab).num_le))
  have hcount' : (j :: fr a).length + (push (s.slab a) j).inuse = (s.cache i).num := by
    rw [List.length_cons, push_inuse]
    omega
  have hfreed : ∀ x, x ∈ j :: fr a → x ∉ fr a → ¬ s.Mgmt (s.objAt i a x) := fun x hx hxf => by
    grind
  simp only [kmemCacheFreeOne, hres]
  rw [if_neg (by omega)]
  by_cases hfull : (s.slab a).inuse - 1 = (s.cache i).num - 1
  · have hr := retouch_record (s := s) (a := a) (r := push (s.slab a) j) rfl rfl
      fun k b => h.mem_moveNotfull (b := b) (k := k) ho.slab
    have hinv := h.record ho.slab hr hchain (ho.nodup_cons h) (ho.lt_cons h) hcount' h.nodup_unlinkFull
      (nodup_addNotfull h.nodup_unlinkNotfull fun hm => (h.mem_unlinkNotfull.mp hm).2 ⟨rfl, rfl⟩)
      (fun k b hb => ?_) (fun k b hb => ?_) hfreed
    · exact ⟨_, if_pos hfull, hr, hinv, by simp [addNotfull, setSlab]⟩
    · obtain ⟨hb1, hne⟩ := h.mem_unlinkFull.mp hb
      have hba : b ≠ a := by
        rintro rfl
        exact hne ⟨h.cache_unique (mem_slabs.mpr (.inl hb1)) ho.slab, rfl⟩
      rwa [if_neg hba]
    · grind [mem_addNotfull, h.mem_unlinkNotfull.mp]
  · have hr := retouch_record (s := s) (a := a) (r := push (s.slab a) j) rfl rfl fun k b => Iff.rfl
    have hnot : a ∈ s.slabsNotfull i := (mem_slabs.mp ho.slab).resolve_left fun hf => by
      have := h.full i a hf
      omega
    have hinv := h.record ho.slab hr hchain (ho.nodup_cons h) (ho.lt_cons h) hcount' h.nodupFull h.nodupNotfull
      (fun k b hb => ?_) (fun k b hb => ?_) hfreed
    · exact ⟨_, if_neg hfull, hr, hinv, by simp [setSlab]⟩
    · have hba : b ≠ a := by
        rintro rfl
        obtain rfl := h.cache_unique (mem_slabs.mpr (.inl hb)) ho.slab
        exact h.not_both hnot hb
      rwa [if_neg hba]
    · split
      · rw [push_inuse]
        omega
      · exact hb

end

end

end SlabAlloc

end Ucore.Mm
