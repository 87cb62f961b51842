import Ucore.Mm.SlabInv

/-!
# Slabs come and go

`kmem_cache_grow` makes a slab of fresh pages, `kmem_slab_destroy` takes one away that
has no objects left.
-/

namespace Ucore.Mm.SlabAlloc

open Lib Function

variable {s s' : SlabAlloc} {fr fr' : Nat → List Nat} {extra : Nat → Prop} {i j k a b c q x z page n fuel : Nat}

def Busy (s : SlabAlloc) : Prop := ∀ i a, a ∈ s.slabs i → 0 < (s.slab a).inuse

structure Dropped (s : SlabAlloc) (i a : Nat) (s' : SlabAlloc) : Prop where
  cache : s'.cache = s.cache
  pageSlab : ∀ q, inPages (s.base a) (s.order i) q = false → s'.pageSlab q = s.pageSlab q
  pageCache : s'.pageCache = s.pageCache
  pageSlabp : s'.pageSlabp = s.pageSlabp
  used : ∀ q, s'.used q = if inPages (s.base a) (s.order i) q then false else s.used q
  others : ∀ b, b ≠ a → s'.slab b = s.slab b
  full : s'.slabsFull = (s.unlinkSlab i a).slabsFull
  notfull : s'.slabsNotfull = (s.unlinkSlab i a).slabsNotfull

lemma Dropped.order (h : Dropped s i a s') (k : Nat) : s'.order k = s.order k := by
  rw [SlabAlloc.order, SlabAlloc.order, h.cache]

lemma Dropped.base (h : Dropped s i a s') (hb : b ≠ a) : s'.base b = s.base b := by
  rw [SlabAlloc.base, SlabAlloc.base, h.others b hb]

lemma Dropped.objAt (h : Dropped s i a s') (hb : b ≠ a) : s'.objAt k b j = s.objAt k b j := by
  rw [SlabAlloc.objAt, SlabAlloc.objAt, h.others b hb, h.cache]

section

variable (hd : Dropped s i a s') (h : s.Inv fr extra) (ha : a ∈ s.slabs i)
include hd h ha

lemma Dropped.mem_slabs :
    b ∈ s'.slabs k ↔ b ∈ s.slabs k ∧ b ≠ a := by
  have : s'.slabs k = (s.unlinkSlab i a).slabs k := by rw [slabs, slabs, hd.full, hd.notfull]
  grind [h.mem_unlink, h.cache_unique]

lemma Dropped.object_iff :
    s'.Object fr k b j ↔ s.Object fr k b j ∧ b ≠ a := by
  constructor
  · rintro ⟨hb, hj, hfr⟩
    obtain ⟨hb, hne⟩ := (hd.mem_slabs h ha).mp hb
    exact ⟨⟨hb, hd.cache ▸ hj, hfr⟩, hne⟩
  · rintro ⟨⟨hb, hj, hfr⟩, hne⟩
    exact ⟨(hd.mem_slabs h ha).mpr ⟨hb, hne⟩, hd.cache ▸ hj, hfr⟩

end

lemma Inv.drop (h : s.Inv fr extra) (ha : a ∈ s.slabs i) (hd : Dropped s i a s')
    (hno : ∀ j, s.Object fr i a j → ¬ s.Mgmt (s.objAt i a j)) : s'.Inv fr extra := by
  have hmem : ∀ k b, b ∈ s'.slabs k ↔ b ∈ s.slabs k ∧ b ≠ a := fun k b => hd.mem_slabs h ha
  have hout : ∀ k b, b ∈ s.slabs k → b ≠ a → ∀ q, inPages (s.base b) (s.order k) q = true →
      inPages (s.base a) (s.order i) q = false := fun k b hb hne q hq => by
    by_contra hq'
    exact hne (h.same_slab hb ha hq (by simpa using hq')).2
  constructor
  case configured =>
    rw [hd.cache]
    exact h.configured
  case index => exact fun k b hb => h.index k b ((hmem k b).mp hb).1
  case slabOk =>
    intro k b hb
    obtain ⟨hb, hne⟩ := (hmem k b).mp hb
    have hok := h.slabOk k b hb
    have hsb := hd.others b hne
    have hbase := hd.base hne
    constructor
    case offset => rw [hsb, hd.cache, hok.offset]
    case sMem => rw [hsb, hd.cache, hbase, hok.sMem]
    case owns =>
      rw [hbase, hd.order, hd.pageCache, hd.pageSlabp]
      intro q hq
      have hq' := hout k b hb hne q hq
      rw [hd.used, hd.pageSlab q hq', hq']
      exact hok.owns q hq
    case onSlab =>
      rw [hd.cache, hbase]
      exact hok.onSlab
    case chain =>
      rw [hsb]
      exact hok.chain
    case nodup => exact hok.nodup
    case lt =>
      rw [hd.cache]
      exact hok.lt
    case count =>
      rw [hsb, hd.cache]
      exact hok.count
  case nodupFull => exact fun k => by rw [hd.full]; exact h.nodup_unlinkFull k
  case nodupNotfull => exact fun k => by rw [hd.notfull]; exact h.nodup_unlinkNotfull k
  case full =>
    intro k b hb
    have hne := ((hmem k b).mp (SlabAlloc.mem_slabs.mpr (.inl hb))).2
    rw [hd.others b hne, hd.cache]
    rw [hd.full, h.mem_unlinkFull] at hb
    exact h.full k b hb.1
  case notfull =>
    intro k b hb
    have hne := ((hmem k b).mp (SlabAlloc.mem_slabs.mpr (.inr hb))).2
    rw [hd.others b hne, hd.cache]
    rw [hd.notfull, h.mem_unlinkNotfull] at hb
    exact h.notfull k b hb.1
  case used =>
    intro q hq
    rw [hd.used] at hq
    split at hq
    · cases hq
    next hin =>
      refine (h.used q hq).imp_right ?_
      rintro ⟨k, b, hb, hqb⟩
      have hne : b ≠ a := by
        rintro rfl
        obtain rfl := h.cache_unique hb ha
        exact hin hqb
      exact ⟨k, b, (hmem k b).mpr ⟨hb, hne⟩, by rwa [hd.base hne, hd.order]⟩
  case apart =>
    intro q hq
    obtain ⟨hu, hq⟩ := h.apart q hq
    refine ⟨by rw [hd.used, hq i a ha, hu]; rfl, fun k b hb => ?_⟩
    obtain ⟨hb, hne⟩ := (hmem k b).mp hb
    rw [hd.base hne, hd.order]
    exact hq k b hb
  case mgmt =>
    intro k b hb hoff
    obtain ⟨hb, hne⟩ := (hmem k b).mp hb
    rw [hd.cache] at hoff ⊢
    obtain ⟨c, j, ho, hobj⟩ := h.mgmt k b hb hoff
    have hc : c ≠ a := by
      rintro rfl
      have hci := h.cache_unique ho.slab ha
      rw [hci] at ho hobj
      exact hno j ho ⟨k, hobj ▸ hb, hoff⟩
    exact ⟨c, j, (hd.object_iff h ha).mpr ⟨ho, hc⟩, by rw [hd.objAt hc, hobj]⟩

lemma Inv.mgmt_ne (h : s.Inv fr extra) (ha : a ∈ s.slabs i) (hoff : (s.cache i).offSlab = true)
    (hb : b ∈ s.slabs (s.cache i).slabCachep) : b ≠ a := by
  rintro rfl
  have hon := ((h.cacheOk ha).offSlab hoff).2.1
  rw [← h.cache_unique ha hb, hoff] at hon
  cases hon

lemma Dropped.loose_iff (hd : Dropped s i a s') (h : s.Inv fr extra) (ho : s.Object fr i a j)
    (hone : (s.slab a).inuse = 1) :
    s'.Loose fr z ↔ (s.Loose fr z ∧ z ≠ s.objAt i a j) ∨ ((s.cache i).offSlab = true ∧ z = a) := by
  have hmgmt : s'.Mgmt z ↔ s.Mgmt z ∧ z ≠ a := by
    simp only [Mgmt, hd.mem_slabs h ho.slab, hd.cache]
    constructor
    · grind
    · grind
  constructor
  · rintro ⟨⟨k, b, c, ho', rfl⟩, hm⟩
    obtain ⟨ho', hne⟩ := (hd.object_iff h ho.slab).mp ho'
    rw [hd.objAt hne] at hm hmgmt ⊢
    by_cases hza : s.objAt k b c = a
    · by_cases hoff : (s.cache i).offSlab = true
      · exact .inr ⟨hoff, hza⟩
      -- the `slab_t` of a slab is no object of another
      have hpage := h.objAt_page ho'.slab ho'.lt
      have hon := (h.slabOk i a ho.slab).onSlab (by simpa using hoff)
      have hbase : kva2page a = s.base a := by
        conv_lhs => rw [hon]
        exact Nat.mul_div_cancel _ (by decide)
      rw [hza, hbase] at hpage
      exact absurd (h.same_slab ho'.slab ho.slab hpage (s.inPages_base i a)).2 hne
    · refine .inl ⟨⟨⟨k, b, c, ho', rfl⟩, fun hm' => hm (hmgmt.mpr ⟨hm', hza⟩)⟩, fun heq => ?_⟩
      exact hne (h.objAt_inj ho'.slab ho'.lt ho.slab ho.lt heq).2.1
  · rintro (⟨⟨⟨k, b, c, ho', rfl⟩, hm⟩, hne⟩ | ⟨hoff, rfl⟩)
    · have hba : b ≠ a := by
        rintro rfl
        have hk := h.cache_unique ho'.slab ho.slab
        rw [hk] at ho' hne
        exact hne (by rw [ho.unique h hone ho'])
      exact ⟨⟨k, b, c, (hd.object_iff h ho.slab).mpr ⟨ho', hba⟩, (hd.objAt hba).symm⟩, fun hm' => hm (hmgmt.mp hm').1⟩
    · obtain ⟨b, c, ho', hobj⟩ := h.mgmt i z ho.slab hoff
      have hba := h.mgmt_ne ho.slab hoff ho'.slab
      exact ⟨⟨_, b, c, (hd.object_iff h ho.slab).mpr ⟨ho', hba⟩, by rw [hd.objAt hba, ← hobj]⟩,
        fun hm => (hmgmt.mp hm).2 rfl⟩

lemma FreeOne.loose_iff (hf : FreeOne s fr extra a j s') (h : s.Inv fr extra) (ho : s.Object fr i a j) :
    s'.Loose (update fr a (j :: fr a)) z ↔ s.Loose fr z ∧ z ≠ s.objAt i a j := by
  simp only [Loose, hf.mgmt_iff, hf.object_iff, hf.objAt]
  constructor
  · rintro ⟨⟨k, b, c, ⟨hb, hc, hfr⟩, rfl⟩, hm⟩
    by_cases hba : b = a
    · subst hba
      rw [if_pos rfl, List.mem_cons, not_or] at hfr
      refine ⟨⟨⟨k, b, c, ⟨hb, hc, hfr.2⟩, rfl⟩, hm⟩, fun heq => ?_⟩
      exact hfr.1 (h.objAt_inj hb hc ho.slab ho.lt heq).2.2
    · rw [if_neg hba] at hfr
      refine ⟨⟨⟨k, b, c, ⟨hb, hc, hfr⟩, rfl⟩, hm⟩, fun heq => ?_⟩
      exact hba (h.objAt_inj hb hc ho.slab ho.lt heq).2.1
  · rintro ⟨⟨⟨k, b, c, ⟨hb, hc, hfr⟩, rfl⟩, hm⟩, hne⟩
    grind [h.cache_unique, ho.slab]

-- `kmem_cache_free`

structure Freed (s : SlabAlloc) (fr : Nat → List Nat) (extra : Nat → Prop) (x : Nat) (s' : SlabAlloc)
    (fr' : Nat → List Nat) : Prop where
  inv : s'.Inv fr' extra
  busy : s'.Busy
  loose : ∀ z, s'.Loose fr' z ↔ s.Loose fr z ∧ z ≠ x
  cache : s'.cache = s.cache
  pageCache : s'.pageCache = s.pageCache
  slabs : ∀ k b, b ∈ s'.slabs k → b ∈ s.slabs k
  used : ∀ q, s'.used q = true → s.used q = true

def Gone (s : SlabAlloc) (i a : Nat) (s' : SlabAlloc) : Prop :=
  a ∉ s'.slabs i ∧ ∀ q, inPages (s.base a) (s.order i) q = true → s'.used q = false

lemma kmemSlabDestroy_ok (h : s.Inv fr extra) (ha : a ∈ s.slabs i) (r : Slab) (hs : r.sMem = (s.slab a).sMem)
    (ho : r.offset = (s.slab a).offset) (free : SlabAlloc → Nat → Nat → Except Panic SlabAlloc) :
    ∃ s', Dropped s i a s' ∧ ((s.setSlab a r).unlinkSlab i a).kmemSlabDestroy free i a =
    if (s.cache i).offSlab then free s' (s.cache i).slabCachep a else .ok s' := by
  have hpage : kva2page ((((s.setSlab a r).unlinkSlab i a).slab a).sMem -
      (((s.setSlab a r).unlinkSlab i a).slab a).offset) = s.base a := by
    simp [setSlab, hs, ho, base]
  have hall : ((List.range (s.order i)).all fun j => s.pageSlab (s.base a + j)) = true := by
    rw [List.all_eq_true]
    intro j hj
    refine ((h.slabOk i a ha).owns _ (inPages_iff.mpr ?_)).2.1
    have := List.mem_range.mp hj
    omega
  simp only [kmemSlabDestroy, hpage]
  refine ⟨_, ?_, if_pos hall⟩
  refine ⟨rfl, fun q hq => ?_, rfl, rfl, fun q => ?_, fun b hb => ?_, rfl, rfl⟩
  · exact if_neg (Bool.eq_false_iff.mp hq)
  · rfl
  · exact update_of_ne hb ..

lemma Dropped.busy (hd : Dropped s i a s') (h : s.Inv fr extra) (ha : a ∈ s.slabs i) (hb : s.Busy) : s'.Busy := by
  grind [hd.mem_slabs, hd.others, Busy]

lemma FreeOne.freed (hf : FreeOne s fr extra a j s') (h : s.Inv fr extra) (hb : s.Busy) (ho : s.Object fr i a j)
    (hmore : (s.slab a).inuse ≠ 1) : Freed s fr extra (s.objAt i a j) s' (update fr a (j :: fr a)) := by
  refine ⟨hf.inv, fun k b hbk => ?_, fun z => hf.loose_iff h ho, hf.cache, hf.pageCache,
    fun k b => (hf.slabs k b).mp, fun q hq => hf.used ▸ hq⟩
  have hpos := hb k b ((hf.slabs k b).mp hbk)
  by_cases hba : b = a
  · subst hba
    rw [hf.inuse]
    omega
  · rwa [hf.others b hba]

section

variable (h : s.Inv fr extra) (hb : s.Busy) (ho : s.Object fr i a j) (hm : ¬ s.Mgmt (s.objAt i a j))
include h hb ho hm

lemma kmemCacheFree_step
    (hrec : (s.cache i).offSlab = true → ∀ s1 b c, s1.cache = s.cache → s1.Inv fr extra → s1.Busy →
    s1.Object fr (s.cache i).slabCachep b c → ¬ s1.Mgmt (s1.objAt (s.cache i).slabCachep b c) →
    ∃ s' fr', kmemCacheFree fuel s1 (s.cache i).slabCachep (s1.objAt (s.cache i).slabCachep b c) = .ok s' ∧
    Freed s1 fr extra (s1.objAt (s.cache i).slabCachep b c) s' fr') :
    ∃ s' fr', kmemCacheFree (fuel + 1) s i (s.objAt i a j) = .ok s' ∧ Freed s fr extra (s.objAt i a j) s' fr' ∧
    ((s.slab a).inuse = 1 → Gone s i a s') := by
  obtain ⟨hslab, -, hslabp, hidx⟩ := h.resolve ho.slab ho.lt
  simp only [kmemCacheFree]
  rw [if_pos hslab, hslabp]
  by_cases hone : (s.slab a).inuse = 1
  case neg =>
    obtain ⟨s', hs', hf⟩ := kmemCacheFreeOne_stays h ho hm hone (kmemCacheFree fuel)
    exact ⟨s', _, hs', hf.freed h hb ho hone, fun h1 => absurd h1 hone⟩
  obtain ⟨s1, hd, hs1⟩ := kmemSlabDestroy_ok h ho.slab (push (s.slab a) j) rfl rfl (kmemCacheFree fuel)
  have hone' : s.kmemCacheFreeOne (kmemCacheFree fuel) i a (s.objAt i a j) =
      if (s.cache i).offSlab then kmemCacheFree fuel s1 (s.cache i).slabCachep a else .ok s1 := by
    simp only [kmemCacheFreeOne, hidx]
    rw [if_pos (by omega)]
    exact hs1
  have hinv := h.drop ho.slab hd fun c hc => by rwa [ho.unique h hone hc]
  have hbusy := hd.busy h ho.slab hb
  have hloose := fun z => hd.loose_iff (z := z) h ho hone
  have hsub : ∀ k b, b ∈ s1.slabs k → b ∈ s.slabs k := fun k b hbk => ((hd.mem_slabs h ho.slab).mp hbk).1
  have hused : ∀ q, s1.used q = true → s.used q = true := fun q hq => by
    rw [hd.used] at hq
    split at hq
    · cases hq
    · exact hq
  have hgone : Gone s i a s1 :=
    ⟨fun ha => ((hd.mem_slabs h ho.slab).mp ha).2 rfl, fun q hq => by rw [hd.used, if_pos hq]⟩
  rw [hone']
  by_cases hoff : (s.cache i).offSlab = true
  · obtain ⟨b, c, hob, hobj⟩ := h.mgmt i a ho.slab hoff
    have hba := h.mgmt_ne ho.slab hoff hob.slab
    rw [← hd.objAt hba] at hobj
    have hm1 := ((hloose a).mpr (.inr ⟨hoff, rfl⟩)).2
    rw [hobj] at hm1
    obtain ⟨s', fr', hs', hf⟩ := hrec hoff s1 b c hd.cache hinv hbusy ((hd.object_iff h ho.slab).mpr ⟨hob, hba⟩) hm1
    rw [← hobj] at hs' hf
    rw [if_pos hoff]
    refine ⟨s', fr', hs', ⟨hf.inv, hf.busy, fun z => ?_, hf.cache.trans hd.cache, hf.pageCache.trans hd.pageCache,
      fun k b hbk => hsub k b (hf.slabs k b hbk), fun q hq => hused q (hf.used q hq)⟩, fun _ => ⟨?_, fun q hq => ?_⟩⟩
    · rw [hf.loose, hloose]
      constructor
      · rintro ⟨hz | hz, hne⟩
        · exact hz
        · exact absurd hz.2 hne
      · rintro ⟨hz, hne⟩
        refine ⟨.inl ⟨hz, hne⟩, ?_⟩
        rintro rfl
        exact hz.2 ⟨i, ho.slab, hoff⟩
    · exact fun ha => hgone.1 (hf.slabs i a ha)
    · by_contra hu
      have := hf.used q (by simpa using hu)
      rw [hgone.2 q hq] at this
      cases this
  · rw [if_neg hoff]
    refine ⟨s1, fr, rfl, ⟨hinv, hbusy, fun z => ?_, hd.cache, hd.pageCache, hsub, hused⟩, fun _ => hgone⟩
    rw [hloose, or_iff_left fun hz => hoff hz.1]

lemma kmemCacheFree_ok : ∃ s' fr', kmemCacheFree freeRounds s i (s.objAt i a j) = .ok s' ∧
    Freed s fr extra (s.objAt i a j) s' fr' ∧ ((s.slab a).inuse = 1 → Gone s i a s') := by
  refine kmemCacheFree_step h hb ho hm fun hoff s1 b c hc h1 hb1 ho1 hm1 => ?_
  have hon := ((h.cacheOk ho.slab).offSlab hoff).2.1
  obtain ⟨s', fr', hs', hf, -⟩ := kmemCacheFree_step h1 hb1 ho1 hm1 fun hoff1 => by
    rw [hc, hon] at hoff1
    cases hoff1
  exact ⟨s', fr', hs', hf⟩

end

-- A slab comes

structure Linked (s : SlabAlloc) (i page a : Nat) (s' : SlabAlloc) : Prop where
  cache : s'.cache = s.cache
  pageSlab : ∀ q, s'.pageSlab q = if inPages page (s.order i) q then true else s.pageSlab q
  pageCache : ∀ q, s'.pageCache q = if inPages page (s.order i) q then i else s.pageCache q
  pageSlabp : ∀ q, s'.pageSlabp q = if inPages page (s.order i) q then a else s.pageSlabp q
  used : s'.used = s.used
  others : ∀ b, b ≠ a → s'.slab b = s.slab b
  sMem : (s'.slab a).sMem = page2kva page + (s.cache i).offset
  offset : (s'.slab a).offset = (s.cache i).offset
  inuse : (s'.slab a).inuse = 0
  free : (s'.slab a).free = 0
  bufctl : ∀ j, j + 1 < (s.cache i).num → (s'.slab a).bufctl j = j + 1
  bufctlLast : ∀ j, j + 1 = (s.cache i).num → (s'.slab a).bufctl j = bufctlEnd
  full : s'.slabsFull = s.slabsFull
  notfull : s'.slabsNotfull = update s.slabsNotfull i (a :: s.slabsNotfull i)

section

variable (h : Linked s i page a s')
include h

lemma Linked.order (k : Nat) : s'.order k = s.order k := by
  rw [SlabAlloc.order, SlabAlloc.order, h.cache]

lemma Linked.base_new : s'.base a = page := by
  rw [SlabAlloc.base, h.sMem, h.offset, Nat.add_sub_cancel]
  exact Nat.mul_div_cancel _ (by decide)

lemma Linked.base (hb : b ≠ a) : s'.base b = s.base b := by
  rw [SlabAlloc.base, SlabAlloc.base, h.others b hb]

lemma Linked.objAt (hb : b ≠ a) : s'.objAt k b j = s.objAt k b j := by
  rw [SlabAlloc.objAt, SlabAlloc.objAt, h.others b hb, h.cache]

lemma Linked.mem_slabs : b ∈ s'.slabs k ↔ b ∈ s.slabs k ∨ (k = i ∧ b = a) := by
  have hn : b ∈ s'.slabsNotfull k ↔ b ∈ s.slabsNotfull k ∨ (k = i ∧ b = a) := by
    rw [h.notfull]
    exact mem_addNotfull
  rw [SlabAlloc.mem_slabs, SlabAlloc.mem_slabs, hn, h.full, or_assoc]

end

lemma Linked.object_iff (hl : Linked s i page a s') (hfresh : ∀ k, a ∉ s.slabs k) :
    s'.Object (update fr a (List.range (s.cache i).num)) k b j ↔ s.Object fr k b j := by
  constructor
  · rintro ⟨hb, hj, hfr⟩
    rw [hl.cache] at hj
    rcases hl.mem_slabs.mp hb with hb | ⟨rfl, rfl⟩
    · have hba : b ≠ a := fun hba => hfresh k (hba ▸ hb)
      rw [update_of_ne hba] at hfr
      exact ⟨hb, hj, hfr⟩
    · grind
  · rintro ⟨hb, hj, hfr⟩
    have hba : b ≠ a := fun hba => hfresh k (hba ▸ hb)
    exact ⟨hl.mem_slabs.mpr (.inl hb), by rwa [hl.cache], by rwa [update_of_ne hba]⟩

lemma Inv.link (h : s.Inv fr extra) (hi : i < slabCacheNum) (hpages : ∀ q, inPages page (s.order i) q = true → extra q)
    (hfresh : ∀ k, a ∉ s.slabs k) (hon : (s.cache i).offSlab = false → a = page2kva page)
    (hoff : (s.cache i).offSlab = true → ∃ b j, s.Object fr (s.cache i).slabCachep b j ∧
    a = s.objAt (s.cache i).slabCachep b j) (hl : Linked s i page a s') :
    s'.Inv (update fr a (List.range (s.cache i).num)) fun q => extra q ∧ inPages page (s.order i) q = false := by
  have hne : ∀ {k b}, b ∈ s.slabs k → b ≠ a := fun hb hba => hfresh _ (hba ▸ hb)
  have hout : ∀ {k b q}, b ∈ s.slabs k → inPages (s.base b) (s.order k) q = true →
      inPages page (s.order i) q = false := fun {k b q} hb hq => by
    by_contra hq'
    have := (h.apart q (hpages q (by simpa using hq'))).2 k b hb
    rw [hq] at this
    cases this
  have hnum := (h.configured i hi).num_pos
  constructor
  case configured =>
    rw [hl.cache]
    exact h.configured
  case index =>
    intro k b hb
    rcases hl.mem_slabs.mp hb with hb | ⟨rfl, -⟩
    · exact h.index k b hb
    · exact hi
  case slabOk =>
    intro k b hb
    rcases hl.mem_slabs.mp hb with hb | ⟨rfl, rfl⟩
    · have hok := h.slabOk k b hb
      have hsb := hl.others b (hne hb)
      have hbase := hl.base (hne hb)
      have hfr : update fr a (List.range (s.cache i).num) b = fr b := update_of_ne (hne hb) ..
      constructor
      case offset => rw [hsb, hl.cache, hok.offset]
      case sMem => rw [hsb, hl.cache, hbase, hok.sMem]
      case owns =>
        intro q hq
        rw [hbase, hl.order] at hq
        rw [hl.used, hl.pageSlab, hl.pageCache, hl.pageSlabp, hout hb hq]
        exact hok.owns q hq
      case onSlab =>
        rw [hl.cache, hbase]
        exact hok.onSlab
      case chain =>
        rw [hsb, hfr]
        exact hok.chain
      case nodup =>
        rw [hfr]
        exact hok.nodup
      case lt =>
        rw [hfr, hl.cache]
        exact hok.lt
      case count =>
        rw [hfr, hsb, hl.cache]
        exact hok.count
    · have hfr : update fr b (List.range (s.cache k).num) b = List.range (s.cache k).num := Function.update_self ..
      constructor
      case offset => rw [hl.offset, hl.cache]
      case sMem => rw [hl.sMem, hl.cache, hl.base_new]
      case owns =>
        intro q hq
        rw [hl.base_new, hl.order] at hq
        rw [hl.used, hl.pageSlab, hl.pageCache, hl.pageSlabp, hq]
        exact ⟨(h.apart q (hpages q hq)).1, rfl, rfl, rfl⟩
      case onSlab =>
        rw [hl.cache, hl.base_new]
        exact hon
      case chain =>
        rw [hfr, hl.free]
        have := chain_range (h.configured k hi).num_le 0 (Nat.zero_le _) hl.bufctl hl.bufctlLast hnum
        rwa [Nat.sub_zero, ← List.range_eq_range'] at this
      case nodup =>
        rw [hfr]
        exact List.nodup_range
      case lt => simp [hl.cache]
      case count => rw [hfr, hl.inuse, hl.cache, List.length_range, Nat.add_zero]
  case nodupFull => exact fun k => by rw [hl.full]; exact h.nodupFull k
  case nodupNotfull =>
    intro k
    rw [hl.notfull]
    exact nodup_addNotfull h.nodupNotfull (fun hm => hfresh i (SlabAlloc.mem_slabs.mpr (.inr hm))) k
  case full =>
    intro k b hb
    rw [hl.full] at hb
    rw [hl.others b (hne (SlabAlloc.mem_slabs.mpr (.inl hb))), hl.cache]
    exact h.full k b hb
  case notfull =>
    intro k b hb
    rw [hl.notfull] at hb
    rcases mem_addNotfull.mp hb with hb | ⟨rfl, rfl⟩
    · rw [hl.others b (hne (SlabAlloc.mem_slabs.mpr (.inr hb))), hl.cache]
      exact h.notfull k b hb
    · rwa [hl.inuse, hl.cache]
  case used =>
    intro q hq
    rw [hl.used] at hq
    by_cases hin : inPages page (s.order i) q = true
    · exact .inr ⟨i, a, hl.mem_slabs.mpr (.inr ⟨rfl, rfl⟩), by rwa [hl.base_new, hl.order]⟩
    refine (h.used q hq).imp (fun hq => ⟨hq, by simpa using hin⟩) ?_
    rintro ⟨k, b, hb, hqb⟩
    exact ⟨k, b, hl.mem_slabs.mpr (.inl hb), by rwa [hl.base (hne hb), hl.order]⟩
  case apart =>
    intro q hq
    obtain ⟨hq, hin⟩ := hq
    refine ⟨by rw [hl.used]; exact (h.apart q hq).1, fun k b hb => ?_⟩
    rcases hl.mem_slabs.mp hb with hb | ⟨rfl, rfl⟩
    · rw [hl.base (hne hb), hl.order]
      exact (h.apart q hq).2 k b hb
    · rwa [hl.base_new, hl.order]
  case mgmt =>
    intro k b hb hboff
    have hget : ∃ c j, s.Object fr (s.cache k).slabCachep c j ∧ b = s.objAt (s.cache k).slabCachep c j := by
      rw [hl.cache] at hboff
      rcases hl.mem_slabs.mp hb with hb | ⟨rfl, rfl⟩
      · exact h.mgmt k b hb hboff
      · exact hoff hboff
    obtain ⟨c, j, ho, hobj⟩ := hget
    rw [hl.cache]
    exact ⟨c, j, (hl.object_iff hfresh).mpr ho, by rw [hl.objAt (hne ho.slab), hobj]⟩

lemma Linked.loose_iff (hl : Linked s i page a s') (hfresh : ∀ k, a ∉ s.slabs k) :
    s'.Loose (update fr a (List.range (s.cache i).num)) z ↔ s.Loose fr z ∧ ¬ ((s.cache i).offSlab = true ∧ z = a) := by
  have hmgmt : s'.Mgmt z ↔ s.Mgmt z ∨ ((s.cache i).offSlab = true ∧ z = a) := by
    simp only [Mgmt, hl.mem_slabs, hl.cache]
    constructor
    · grind
    · grind
  have hobj : (∃ k b j, s'.Object (update fr a (List.range (s.cache i).num)) k b j ∧ z = s'.objAt k b j) ↔
      ∃ k b j, s.Object fr k b j ∧ z = s.objAt k b j := by
    simp only [hl.object_iff hfresh]
    refine exists_congr fun k => exists_congr fun b => exists_congr fun j => and_congr_right fun ho => ?_
    rw [hl.objAt fun hba => hfresh k (hba ▸ ho.slab)]
  rw [Loose, Loose, hobj, hmgmt, not_or, and_assoc]

-- `kmem_cache_alloc`

def PagerOk (pick : Pager) : Prop :=
  ∀ used n page, pick used n = some page → ∀ q, inPages page n q = true → used q = false

structure Alloced (s : SlabAlloc) (fr : Nat → List Nat) (extra : Nat → Prop) (i : Nat) (r : Option Nat)
    (s' : SlabAlloc) (fr' : Nat → List Nat) : Prop where
  inv : s'.Inv fr' extra
  busy : s'.Busy
  cache : s'.cache = s.cache
  loose : ∀ z, s'.Loose fr' z ↔ s.Loose fr z ∨ r = some z
  home : ∀ x, r = some x → ¬ s.Loose fr x ∧ ∃ a j, s'.Object fr' i a j ∧ x = s'.objAt i a j
  pageCache : ∀ z, s.Loose fr z → s'.pageCache (kva2page z) = s.pageCache (kva2page z)

lemma Mgmt.object (hm : s.Mgmt x) (h : s.Inv fr extra) : ∃ i a j, s.Object fr i a j ∧ x = s.objAt i a j := by
  obtain ⟨i, hx, hoff⟩ := hm
  obtain ⟨b, j, ho, hobj⟩ := h.mgmt i x hx hoff
  exact ⟨_, b, j, ho, hobj⟩

lemma AllocOne.alloced {l : List Nat} (ha : AllocOne s fr extra a x l s') (h : s.Inv fr extra) (hs : a ∈ s.slabs i)
    (hbusy : ∀ k b, b ∈ s.slabs k → b ≠ a → 0 < (s.slab b).inuse) :
    Alloced s fr extra i (some (s.objAt i a x)) s' (update fr a l) := by
  have hfree : x ∈ fr a := ha.free ▸ List.mem_cons_self
  have hlt := (h.slabOk i a hs).lt x hfree
  have hxl : x ∉ l := (List.nodup_cons.mp (ha.free ▸ (h.slabOk i a hs).nodup)).1
  -- the new object was no object
  have hnew : ¬ ∃ k b c, s.Object fr k b c ∧ s.objAt i a x = s.objAt k b c := by
    rintro ⟨k, b, c, ho, heq⟩
    obtain ⟨-, rfl, rfl⟩ := h.objAt_inj hs hlt ho.slab ho.lt heq
    exact ho.taken hfree
  have hobj : s'.Object (update fr a l) i a x := (ha.object_iff i a x).mpr ⟨hs, hlt, by rwa [if_pos rfl]⟩
  refine ⟨ha.inv, fun k b hb => ?_, ha.cache, fun z => ?_, fun y hy => ?_, fun z _ => by rw [ha.pageCache]⟩
  · grind [ha.inuse, ha.others, ha.slabs]
  · simp only [Loose, ha.mgmt_iff, ha.object_iff, ha.objAt, Option.some.injEq]
    constructor
    · rintro ⟨⟨k, b, c, ⟨hb, hc, hfr⟩, rfl⟩, hm⟩
      by_cases hba : b = a
      · subst hba
        obtain rfl := h.cache_unique hb hs
        rw [if_pos rfl] at hfr
        by_cases hcx : c = x
        · exact .inr (by rw [hcx])
        · refine .inl ⟨⟨k, b, c, ⟨hb, hc, fun hcf => ?_⟩, rfl⟩, hm⟩
          grind [ha.free]
      · rw [if_neg hba] at hfr
        exact .inl ⟨⟨k, b, c, ⟨hb, hc, hfr⟩, rfl⟩, hm⟩
    · rintro (⟨⟨k, b, c, ho, rfl⟩, hm⟩ | rfl)
      · grind [ho.slab, ho.lt, ho.taken, ha.free]
      · exact ⟨⟨i, a, x, ⟨hs, hlt, by rwa [if_pos rfl]⟩, rfl⟩, fun hm => hnew (hm.object h)⟩
  · cases hy
    exact ⟨fun hl => hnew hl.1, a, x, hobj, (ha.objAt i a x).symm⟩

lemma kmemCacheAlloc_notfull {rest : List Nat} (pick : Pager) (fuel : Nat) (h : s.Inv fr extra)
    (hl : s.slabsNotfull i = a :: rest)
    (hbusy : ∀ k b, b ∈ s.slabs k → b ≠ a → 0 < (s.slab b).inuse) :
    ∃ r s' fr', kmemCacheAlloc pick (fuel + 1) s i = .ok (r, s') ∧ Alloced s fr extra i r s' fr' := by
  have ha : a ∈ s.slabsNotfull i := by
    rw [hl]
    exact .head _
  obtain ⟨x, l, s', hs', hone⟩ := kmemCacheAllocOne_ok h ha
  refine ⟨_, s', _, ?_, hone.alloced h (SlabAlloc.mem_slabs.mpr (.inr ha)) hbusy⟩
  simp only [kmemCacheAlloc, hl, hs']

lemma object_setUsed {v : Bool} : (s.setUsed page n v).Object fr i a j ↔ s.Object fr i a j :=
  ⟨fun ⟨h1, h2, h3⟩ => ⟨h1, h2, h3⟩, fun ⟨h1, h2, h3⟩ => ⟨h1, h2, h3⟩⟩

lemma loose_setUsed {v : Bool} : (s.setUsed page n v).Loose fr z ↔ s.Loose fr z := by
  simp only [Loose, object_setUsed]
  exact Iff.rfl

lemma Inv.mgmt_setUsed {v : Bool} (h : s.Inv fr extra) (i a : Nat) (ha : a ∈ s.slabs i)
    (hoff : (s.cache i).offSlab = true) : ∃ b j, (s.setUsed page n v).Object fr (s.cache i).slabCachep b j ∧
    a = s.objAt (s.cache i).slabCachep b j := by
  obtain ⟨b, j, ho, hobj⟩ := h.mgmt i a ha hoff
  exact ⟨b, j, object_setUsed.mpr ho, hobj⟩

lemma Inv.takePages (h : s.Inv fr extra) (hfree : ∀ q, inPages page n q = true → s.used q = false) :
    (s.setUsed page n true).Inv fr fun q => extra q ∨ inPages page n q = true := by
  have hused : ∀ q, s.used q = true → (s.setUsed page n true).used q = true := fun q hq => by
    simp only [setUsed, hq, ite_self]
  refine ⟨h.configured, h.index, fun k b hb => ?_, h.nodupFull, h.nodupNotfull, h.full, h.notfull, fun q hq => ?_,
    fun q hq => ?_, h.mgmt_setUsed⟩
  · have hok := h.slabOk k b hb
    refine ⟨hok.offset, hok.sMem, fun q hq => ?_, hok.onSlab, hok.chain, hok.nodup, hok.lt, hok.count⟩
    obtain ⟨hu, hrest⟩ := hok.owns q hq
    exact ⟨hused q hu, hrest⟩
  · by_cases hin : inPages page n q = true
    · exact .inl (.inr hin)
    · have hq' : s.used q = true := by simpa [setUsed, hin] using hq
      exact (h.used q hq').imp_left .inl
  · rcases hq with hq | hq
    · exact ⟨hused q (h.apart q hq).1, (h.apart q hq).2⟩
    refine ⟨by simp [setUsed, hq], fun k b hb => ?_⟩
    by_contra hin
    have hu := ((h.slabOk k b hb).owns q (Bool.not_eq_false _ ▸ hin)).1
    rw [hfree q hq] at hu
    cases hu

lemma Inv.givePages (h : s.Inv fr fun q => extra q ∨ inPages page n q = true)
    (hdis : ∀ q, extra q → inPages page n q = false) : (s.freePages page n).Inv fr extra := by
  have hout : ∀ k b, b ∈ s.slabs k → ∀ q, inPages (s.base b) (s.order k) q = true → inPages page n q = false :=
    fun k b hb q hq => by
      by_contra hin
      have := (h.apart q (.inr (by simpa using hin))).2 k b hb
      rw [hq] at this
      cases this
  refine ⟨h.configured, h.index, fun k b hb => ?_, h.nodupFull, h.nodupNotfull, h.full, h.notfull, fun q hq => ?_,
    fun q hq => ?_, h.mgmt_setUsed⟩
  · have hok := h.slabOk k b hb
    refine ⟨hok.offset, hok.sMem, fun q hq => ?_, hok.onSlab, hok.chain, hok.nodup, hok.lt, hok.count⟩
    obtain ⟨hu, hrest⟩ := hok.owns q hq
    exact ⟨by simp [freePages, setUsed, hout k b hb q hq, hu], hrest⟩
  · by_cases hin : inPages page n q = true
    · simp [freePages, setUsed, hin] at hq
    · have hq' : s.used q = true := by simpa [freePages, setUsed, hin] using hq
      exact (h.used q hq').imp_left fun he => he.resolve_right hin
  · obtain ⟨hu, hq'⟩ := h.apart q (.inl hq)
    exact ⟨by simp [freePages, setUsed, hdis q hq, hu], hq'⟩

lemma Inv.fresh_onSlab (h : s.Inv fr extra) (hp : extra page) (k : Nat) : page2kva page ∉ s.slabs k := by
  intro ha
  have hpage : kva2page (page2kva page) = page := Nat.mul_div_cancel _ (by decide)
  by_cases hoff : (s.cache k).offSlab = true
  · obtain ⟨b, j, ho, hobj⟩ := h.mgmt k _ ha hoff
    have hin := h.objAt_page ho.slab ho.lt
    rw [← hobj, hpage, (h.apart page hp).2 _ b ho.slab] at hin
    cases hin
  have hon := (h.slabOk k _ ha).onSlab (by simpa using hoff)
  have hbase : page = s.base (page2kva page) := by
    have := congrArg kva2page hon
    rwa [hpage, kva2page, page2kva, Nat.mul_div_cancel _ (by decide)] at this
  have hin := s.inPages_base k (page2kva page)
  rw [← hbase] at hin
  have := (h.apart page hp).2 k _ ha
  rw [← hbase, hin] at this
  cases this

lemma Inv.fresh_offSlab (h : s.Inv fr extra) (ho : s.Object fr i b j) (hon : (s.cache i).offSlab = false)
    (hm : ¬ s.Mgmt (s.objAt i b j)) (k : Nat) : s.objAt i b j ∉ s.slabs k := by
  intro ha
  have hoff : (s.cache k).offSlab = false := by
    by_contra hoff
    exact hm ⟨k, ha, by simpa using hoff⟩
  have hat := (h.slabOk k _ ha).onSlab hoff
  have hpage : kva2page (s.objAt i b j) = s.base (s.objAt i b j) := by
    have := congrArg kva2page hat
    rwa [kva2page, kva2page, page2kva, Nat.mul_div_cancel _ (by decide)] at this
  have hin := h.objAt_page ho.slab ho.lt
  rw [hpage] at hin
  obtain ⟨rfl, hb⟩ := h.same_slab ho.slab ha hin (s.inPages_base k _)
  have hlow := (h.objAt_bounds ho.slab ho.lt).1
  have hpos := (h.cacheOk ho.slab).onSlab hon
  rw [← hb] at hat
  simp only [sizeofSlab] at hpos
  omega

def openSlab (s : SlabAlloc) (i page a : Nat) : SlabAlloc :=
  let offset := (s.cache i).offset
  s.setSlab a { s.slab a with inuse := 0, offset, sMem := page2kva page + offset }

lemma openSlab_linked (s : SlabAlloc) (i page a : Nat) (hnum : 0 < (s.cache i).num) :
    Linked s i page a ((s.openSlab i page a).linkSlab i page a) where
  cache := rfl
  pageSlab _ := rfl
  pageCache _ := rfl
  pageSlabp _ := rfl
  used := rfl
  others b hb := by simp [openSlab, linkSlab, addNotfull, setSlab, hb]
  sMem := by simp [openSlab, linkSlab, addNotfull, setSlab]
  offset := by simp [openSlab, linkSlab, addNotfull, setSlab]
  inuse := by simp [openSlab, linkSlab, addNotfull, setSlab]
  free := by simp [openSlab, linkSlab, addNotfull, setSlab]
  bufctl j hj := by
    have h1 : j ≠ (s.cache i).num - 1 := by omega
    have h2 : j < (s.cache i).num := by omega
    simp [openSlab, linkSlab, addNotfull, setSlab, h1, h2]
  bufctlLast j hj := by
    have h1 : j = (s.cache i).num - 1 := by omega
    simp [openSlab, linkSlab, addNotfull, setSlab, h1]
  full := rfl
  notfull := rfl

structure Grown (s : SlabAlloc) (fr : Nat → List Nat) (extra : Nat → Prop) (i a : Nat) (s' : SlabAlloc)
    (fr' : Nat → List Nat) : Prop where
  inv : s'.Inv fr' extra
  head : ∃ rest, s'.slabsNotfull i = a :: rest
  busy : ∀ k b, b ∈ s'.slabs k → b ≠ a → 0 < (s'.slab b).inuse
  cache : s'.cache = s.cache
  loose : ∀ z, s'.Loose fr' z ↔ s.Loose fr z
  pageCache : ∀ z, s.Loose fr z → s'.pageCache (kva2page z) = s.pageCache (kva2page z)

lemma Linked.grown (hl : Linked s i page a s') (h : s.Inv fr fun q => extra q ∨ inPages page (s.order i) q = true)
    (hb : s.Busy) (hi : i < slabCacheNum) (hdis : ∀ q, extra q → inPages page (s.order i) q = false)
    (hfresh : ∀ k, a ∉ s.slabs k) (hon : (s.cache i).offSlab = false → a = page2kva page)
    (hoff : (s.cache i).offSlab = true → ∃ b j, s.Object fr (s.cache i).slabCachep b j ∧
    a = s.objAt (s.cache i).slabCachep b j) :
    s'.Inv (update fr a (List.range (s.cache i).num)) extra ∧ (∃ rest, s'.slabsNotfull i = a :: rest) ∧
    (∀ k b, b ∈ s'.slabs k → b ≠ a → 0 < (s'.slab b).inuse) ∧
    ∀ z, s.Loose fr z → s'.pageCache (kva2page z) = s.pageCache (kva2page z) := by
  have hinv := h.link hi (fun q hq => .inr hq) hfresh hon hoff hl
  have hextra :
    (fun q => (extra q ∨ inPages page (s.order i) q = true) ∧ inPages page (s.order i) q = false) = extra := by
    funext q
    refine propext ⟨fun ⟨he, hin⟩ => he.resolve_right (by simp [hin]), fun he => ⟨.inl he, hdis q he⟩⟩
  rw [hextra] at hinv
  refine ⟨hinv, ⟨s.slabsNotfull i, by simp [hl.notfull]⟩, fun k b hbk hne => ?_, fun z hz => ?_⟩
  · rw [hl.others b hne]
    exact hb k b ((hl.mem_slabs.mp hbk).resolve_right fun hh => hne hh.2)
  obtain ⟨⟨k, b, j, ho, rfl⟩, -⟩ := hz
  rw [hl.pageCache, if_neg]
  intro hin
  have := (h.apart _ (.inr hin)).2 k b ho.slab
  rw [h.objAt_page ho.slab ho.lt] at this
  cases this

def AllocOk (s : SlabAlloc) (fr : Nat → List Nat) (c : Nat)
    (alloc : SlabAlloc → Nat → Except Panic (Option Nat × SlabAlloc)) : Prop :=
  ∀ s₁ extra₁, s₁.cache = s.cache → s₁.Inv fr extra₁ → s₁.Busy →
    ∃ r s₂ fr₂, alloc s₁ c = .ok (r, s₂) ∧ Alloced s₁ fr extra₁ c r s₂ fr₂

section

variable {alloc : SlabAlloc → Nat → Except Panic (Option Nat × SlabAlloc)}

lemma kmemCacheSlabmgmt_onSlab
    (hon : (s.cache i).offSlab = false) : s.kmemCacheSlabmgmt alloc i page =
    .ok (some (page2kva page), s.openSlab i page (page2kva page)) := by
  simp only [kmemCacheSlabmgmt, hon]
  rfl

lemma kmemCacheSlabmgmt_none
    (page : Nat) (hoff : (s.cache i).offSlab = true) (hr : alloc s (s.cache i).slabCachep = .ok (none, s')) :
    s.kmemCacheSlabmgmt alloc i page = .ok (none, s') := by
  simp only [kmemCacheSlabmgmt, hoff, if_true, hr, bind, Except.bind]
  rfl

lemma kmemCacheSlabmgmt_some
    (page : Nat) (hoff : (s.cache i).offSlab = true) (hr : alloc s (s.cache i).slabCachep = .ok (some a, s')) :
    s.kmemCacheSlabmgmt alloc i page = .ok (some a, s'.openSlab i page a) := by
  simp only [kmemCacheSlabmgmt, hoff, if_true, hr, bind, Except.bind]
  rfl

end

section Grow

variable {pick : Pager} {alloc : SlabAlloc → Nat → Except Panic (Option Nat × SlabAlloc)}

lemma grow_onSlab (alloc : SlabAlloc → Nat → Except Panic (Option Nat × SlabAlloc))
    (h : s.Inv fr fun q => extra q ∨ inPages page (s.order i) q = true) (hb : s.Busy)
    (hi : i < slabCacheNum) (hdis : ∀ q, extra q → inPages page (s.order i) q = false)
    (hon : (s.cache i).offSlab = false) :
    ∃ a s' fr', s.kmemCacheSlabmgmt alloc i page = .ok (some a, s') ∧
    Grown s fr extra i a (s'.linkSlab i page a) fr' := by
  have hpin : inPages page (s.order i) page = true := by
    have := s.order_pos i
    rw [inPages_iff]
    omega
  have hfresh := h.fresh_onSlab (.inr hpin)
  have hl := s.openSlab_linked i page (page2kva page) (h.configured i hi).num_pos
  obtain ⟨hinv, hhead, hbusy, hpc⟩ := hl.grown h hb hi hdis hfresh (fun _ => rfl) fun hoff => by
    rw [hon] at hoff
    cases hoff
  refine ⟨_, _, _, kmemCacheSlabmgmt_onSlab hon, hinv, hhead, hbusy, rfl, fun z => ?_, hpc⟩
  grind [hl.loose_iff]

lemma grow_offSlab (h : s.Inv fr fun q => extra q ∨ inPages page (s.order i) q = true) (hb : s.Busy)
    (hi : i < slabCacheNum) (hdis : ∀ q, extra q → inPages page (s.order i) q = false)
    (hoff : (s.cache i).offSlab = true) (halloc : AllocOk s fr (s.cache i).slabCachep alloc) :
    (∃ s' fr', s.kmemCacheSlabmgmt alloc i page = .ok (none, s') ∧
      Alloced s fr (fun q => extra q ∨ inPages page (s.order i) q = true) i none s' fr') ∨
    ∃ a s' fr', s.kmemCacheSlabmgmt alloc i page = .ok (some a, s') ∧
    Grown s fr extra i a (s'.linkSlab i page a) fr' := by
  obtain ⟨r, s2, fr2, hr, ha⟩ := halloc s _ rfl h hb
  have hord : s2.order i = s.order i := by rw [order, order, ha.cache]
  have hcache := ha.cache
  cases r with
  | none =>
    exact .inl ⟨s2, fr2, kmemCacheSlabmgmt_none page hoff hr, ha.inv, ha.busy, ha.cache, ha.loose,
      fun x hx => absurd hx (Option.some_ne_none x).symm, ha.pageCache⟩
  | some a =>
    obtain ⟨hnew, b, j, ho, hobj⟩ := ha.home a rfl
    have hon := ((h.configured i hi).offSlab hoff).2.1
    have hloose := (ha.loose a).mpr (.inr rfl)
    have hfresh : ∀ k, a ∉ s2.slabs k := by
      rw [hobj]
      exact ha.inv.fresh_offSlab ho (by rw [hcache, hon]) (hobj ▸ hloose.2)
    have hl := s2.openSlab_linked i page a (by rw [hcache]; exact (h.configured i hi).num_pos)
    obtain ⟨hinv, hhead, hbusy, hpc⟩ := hl.grown (by rw [hord]; exact ha.inv) ha.busy hi (by rwa [hord]) hfresh
      (fun hon' => by rw [hcache, hoff] at hon'; cases hon') fun _ => by rw [hcache]; exact ⟨b, j, ho, hobj⟩
    refine .inr ⟨a, _, _, kmemCacheSlabmgmt_some page hoff hr, hinv, hhead, hbusy, hcache, fun z => ?_, fun z hz => ?_⟩
    · grind [hl.loose_iff, ha.loose]
    · exact (hpc z ((ha.loose z).mpr (.inl hz))).trans (ha.pageCache z hz)

lemma kmemCacheGrow_ok (hpick : PagerOk pick) (h : s.Inv fr extra) (hb : s.Busy) (hi : i < slabCacheNum)
    (halloc : (s.cache i).offSlab = true → AllocOk s fr (s.cache i).slabCachep alloc) :
    (∃ s' fr', s.kmemCacheGrow pick alloc i = .ok (false, s') ∧ Alloced s fr extra i none s' fr') ∨
    ∃ a s' fr', s.kmemCacheGrow pick alloc i = .ok (true, s') ∧ Grown s fr extra i a s' fr' := by
  rw [kmemCacheGrow]
  split
  next => exact .inl ⟨s, fr, rfl, h, hb, rfl, fun z => by simp, nofun, fun _ _ => rfl⟩
  next page hpage =>
    have hfree := hpick _ _ _ hpage
    have hdis : ∀ q, extra q → inPages page (s.order i) q = false := fun q hq => by
      by_contra hin
      have := hfree q (by simpa using hin)
      rw [(h.apart q hq).1] at this
      cases this
    have htake := h.takePages hfree
    have hgrown : ∀ {a s' fr'}, Grown (s.setUsed page (s.order i) true) fr extra i a s' fr' →
        Grown s fr extra i a s' fr' := fun hg =>
      ⟨hg.inv, hg.head, hg.busy, hg.cache, fun z => by rw [hg.loose, loose_setUsed],
        fun z hz => hg.pageCache z (loose_setUsed.mpr hz)⟩
    by_cases hoff : (s.cache i).offSlab = true
    · rcases grow_offSlab htake hb hi hdis hoff (halloc hoff) with ⟨s', fr', hs', ha⟩ | ⟨a, s', fr', hs', hg⟩
      · have hord : s'.order i = s.order i := by rw [order, order, ha.cache]; rfl
        refine .inl ⟨s'.freePages page (s'.order i), fr', by rw [hs']; rfl, ?_, ha.busy, ha.cache, fun z => ?_, nofun,
          fun z hz => ha.pageCache z (loose_setUsed.mpr hz)⟩
        · rw [hord]
          exact ha.inv.givePages hdis
        · rw [freePages, loose_setUsed, ha.loose, loose_setUsed]
      · exact .inr ⟨a, _, fr', by rw [hs']; rfl, hgrown hg⟩
    · obtain ⟨a, s', fr', hs', hg⟩ := grow_onSlab alloc htake hb hi hdis (Bool.not_eq_true _ ▸ hoff)
      exact .inr ⟨a, _, fr', by rw [hs']; rfl, hgrown hg⟩

end Grow

lemma Grown.alloced (hg : Grown s fr extra i a s' fr') {r : Option Nat} {s'' : SlabAlloc} {fr'' : Nat → List Nat}
    (ha : Alloced s' fr' extra i r s'' fr'') : Alloced s fr extra i r s'' fr'' := by
  refine ⟨ha.inv, ha.busy, ha.cache.trans hg.cache, fun z => by rw [ha.loose, hg.loose], fun x hx => ?_, fun z hz => ?_⟩
  · obtain ⟨hnew, hobj⟩ := ha.home x hx
    exact ⟨fun hz => hnew ((hg.loose x).mpr hz), hobj⟩
  · rw [ha.pageCache z ((hg.loose z).mpr hz), hg.pageCache z hz]

section

variable {pick : Pager}
  (hpick : PagerOk pick)
  (h : s.Inv fr extra)
  (hb : s.Busy)
  (hi : i < slabCacheNum)
include hpick h hb hi

lemma kmemCacheAlloc_step
    (halloc : (s.cache i).offSlab = true → AllocOk s fr (s.cache i).slabCachep (kmemCacheAlloc pick (fuel + 1))) :
    ∃ r s' fr', kmemCacheAlloc pick (fuel + 2) s i = .ok (r, s') ∧ Alloced s fr extra i r s' fr' := by
  cases hl : s.slabsNotfull i with
  | cons a rest => exact kmemCacheAlloc_notfull pick _ h hl fun k b hbk _ => hb k b hbk
  | nil =>
    simp only [kmemCacheAlloc, hl]
    rcases kmemCacheGrow_ok hpick h hb hi halloc with ⟨s', fr', hs', ha⟩ | ⟨a, s1, fr1, hs1, hg⟩
    · have hs'' := hs'
      simp only [kmemCacheAlloc] at hs''
      rw [hs'']
      exact ⟨none, s', fr', rfl, ha⟩
    obtain ⟨rest, hhead⟩ := hg.head
    obtain ⟨r, s', fr', hs', ha⟩ := kmemCacheAlloc_notfull pick fuel hg.inv hhead hg.busy
    have hs2 := hs1
    simp only [kmemCacheAlloc] at hs2 hs'
    rw [hs2]
    exact ⟨r, s', fr', hs', hg.alloced ha⟩

lemma kmemCacheAlloc_ok :
    ∃ r s' fr', kmemCacheAlloc pick allocRounds s i = .ok (r, s') ∧ Alloced s fr extra i r s' fr' := by
  refine kmemCacheAlloc_step hpick h hb hi fun hoff s1 extra1 hc h1 hb1 => ?_
  obtain ⟨hcp, hon, -⟩ := (h.configured i hi).offSlab hoff
  refine kmemCacheAlloc_step hpick h1 hb1 hcp fun hoff1 => ?_
  rw [hc, hon] at hoff1
  cases hoff1

end

end Ucore.Mm.SlabAlloc
