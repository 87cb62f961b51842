import Ucore.Lib.Run
import Ucore.Lib.Safe
import Ucore.Mm.SlabOps

/-!
# Runs of the slab allocator

The objects that callers have are the loose ones.
-/

namespace Ucore.Mm

open Lib Function

def slabCaches : List KmemCache :=
  [⟨32, 101, 864, false, 0, 0⟩, ⟨64, 56, 496, false, 0, 0⟩, ⟨128, 29, 288, false, 0, 0⟩, ⟨256, 15, 176, false, 0, 0⟩,
    ⟨512, 8, 0, true, 0, 2⟩, ⟨1024, 4, 0, true, 0, 2⟩, ⟨2048, 2, 0, true, 0, 1⟩, ⟨4096, 1, 0, true, 0, 1⟩,
    ⟨8192, 1, 0, true, 1, 1⟩, ⟨16384, 1, 0, true, 2, 1⟩, ⟨32768, 1, 0, true, 3, 1⟩, ⟨65536, 1, 0, true, 4, 1⟩,
    ⟨131072, 1, 0, true, 5, 1⟩]

lemma slabInit_eq : slabInit = .ok slabCaches := by decide +kernel

lemma slabCaches_ok : ∀ i, i < slabCacheNum →
    CacheOk (SlabAlloc.init slabCaches).cache ((SlabAlloc.init slabCaches).cache i) := by
  simp only [cacheOk_iff]
  decide +kernel

lemma mem_sizeOrders {order : Nat} : order ∈ (List.range (maxSizeOrder + 1)).drop minSizeOrder ↔
    minSizeOrder ≤ order ∧ order ≤ maxSizeOrder := by
  rw [show (List.range (maxSizeOrder + 1)).drop minSizeOrder = List.range' 5 13 from rfl, List.mem_range'_1]
  simp only [minSizeOrder, maxSizeOrder]
  omega

lemma getSizeOrder_ok {n : Nat} (hn : n ≤ 131072) :
    ∃ order, getSizeOrder n = .ok order ∧ order - minSizeOrder < slabCacheNum ∧ n ≤ 1 <<< order ∧
    minSizeOrder ≤ order := by
  rw [getSizeOrder]
  split
  next order ho => grind [mem_sizeOrders, slabCacheNum]
  next hnone =>
    rw [List.find?_eq_none] at hnone
    exact absurd (decide_eq_true hn) (hnone maxSizeOrder (mem_sizeOrders.mpr ⟨by decide, Nat.le_refl _⟩))

lemma getSizeOrder_error {n : Nat} (hn : 131072 < n) : getSizeOrder n = .error .assertion := by
  have hnone :
    (((List.range (maxSizeOrder + 1)).drop minSizeOrder).find? fun order => decide (n ≤ 1 <<< order)) = none := by
    rw [List.find?_eq_none]
    intro order ho
    have hle : 1 <<< order ≤ 1 <<< maxSizeOrder := by
      rw [Nat.one_shiftLeft, Nat.one_shiftLeft]
      exact Nat.pow_le_pow_right (by decide) (mem_sizeOrders.mp ho).2
    have hmax : 1 <<< maxSizeOrder = 131072 := rfl
    simp only [decide_eq_true_eq]
    omega
  rw [getSizeOrder, hnone]

lemma objsize_order {order : Nat} (hlo : minSizeOrder ≤ order) (hhi : order - minSizeOrder < slabCacheNum) :
    ((SlabAlloc.init slabCaches).cache (order - minSizeOrder)).objsize = 1 <<< order := by
  obtain ⟨d, rfl⟩ := Nat.exists_eq_add_of_le hlo
  rw [Nat.add_sub_cancel_left] at hhi ⊢
  have hall : ∀ d < slabCacheNum, ((SlabAlloc.init slabCaches).cache d).objsize = 1 <<< (minSizeOrder + d) := by
    decide +kernel
  exact hall d hhi

structure Heap where
  slabs : SlabAlloc
  live : Nat → Option Nat

inductive HeapCall where
  | cacheAlloc (pick : Pager) (i : Nat)
  | kmalloc (pick : Pager) (size : Nat)
  | kfree (objp : Nat)

namespace Heap

open SlabAlloc

def boot (caches : List KmemCache) : Heap := ⟨.init caches, fun _ => none⟩

def got (h : Heap) (size : Nat) : Option Nat × SlabAlloc → Heap
  | (none, s) => ⟨s, h.live⟩
  | (some x, s) => ⟨s, update h.live x (some size)⟩

def step (h : Heap) : HeapCall → Except Panic Heap
  | .cacheAlloc pick i => h.got (h.slabs.cache i).objsize <$> h.slabs.kmemCacheAlloc pick allocRounds i
  | .kmalloc pick size => h.got size <$> h.slabs.kmalloc pick size
  | .kfree objp => (fun s => ⟨s, update h.live objp none⟩) <$> h.slabs.kfree objp

/-- Callers free what they have; `alloc_pages` gives pages nobody has. -/
def Proper (h : Heap) : HeapCall → Prop
  | .cacheAlloc pick i => PagerOk pick ∧ i < slabCacheNum
  | .kmalloc pick _ => PagerOk pick
  | .kfree objp => h.live objp ≠ none

def Boot (h : Heap) : Prop := ∃ caches, slabInit = .ok caches ∧ h = boot caches

structure Inv (h : Heap) (fr : Nat → List Nat) : Prop where
  slabs : h.slabs.Inv fr fun _ => False
  busy : h.slabs.Busy
  cache : h.slabs.cache = (SlabAlloc.init slabCaches).cache
  loose : ∀ x, h.slabs.Loose fr x ↔ h.live x ≠ none
  size : ∀ x n, h.live x = some n → n ≤ (h.slabs.cache (h.slabs.pageCache (kva2page x))).objsize

variable {h h' : Heap} {fr : Nat → List Nat} {c : HeapCall}

lemma Boot.inv (hb : Boot h) : h.Inv fun _ => [] := by
  obtain ⟨caches, hc, rfl⟩ := hb
  obtain rfl : slabCaches = caches := by
    rw [slabInit_eq] at hc
    exact Except.ok.inj hc
  have hno : ∀ i a, a ∉ (boot slabCaches).slabs.slabs i := fun _ _ => List.not_mem_nil
  refine ⟨⟨slabCaches_ok, fun i a ha => absurd ha (hno i a), fun i a ha => absurd ha (hno i a),
    fun _ => List.nodup_nil, fun _ => List.nodup_nil, nofun, nofun, nofun, nofun, fun i a ha => absurd ha (hno i a)⟩,
    fun i a ha => absurd ha (hno i a), rfl, fun x => ⟨?_, absurd rfl⟩, nofun⟩
  rintro ⟨⟨i, a, j, ho, -⟩, -⟩
  exact absurd ho.slab (hno i a)

lemma Inv.got {i size : Nat} {r : Option Nat} {s' : SlabAlloc} {fr' : Nat → List Nat} (hi : h.Inv fr)
    (ha : Alloced h.slabs fr (fun _ => False) i r s' fr') (hsize : size ≤ (h.slabs.cache i).objsize) :
    (h.got size (r, s')).Inv fr' := by
  cases r with
  | none =>
    refine ⟨ha.inv, ha.busy, ha.cache.trans hi.cache, fun x => ?_, fun x n hx => ?_⟩
    · exact ((ha.loose x).trans (or_iff_left nofun)).trans (hi.loose x)
    · change n ≤ (s'.cache (s'.pageCache (kva2page x))).objsize
      have hl := (hi.loose x).mpr (by rw [show h.live x = some n from hx]; nofun)
      rw [ha.pageCache x hl, ha.cache]
      exact hi.size x n hx
  | some y =>
    obtain ⟨-, a, j, ho, hobj⟩ := ha.home y rfl
    have hpage : s'.pageCache (kva2page y) = i := by
      rw [hobj]
      exact (ha.inv.resolve ho.slab ho.lt).2.1
    refine ⟨ha.inv, ha.busy, ha.cache.trans hi.cache, fun x => ?_, fun x n hx => ?_⟩
    · change s'.Loose fr' x ↔ update h.live y (some size) x ≠ none
      grind [ha.loose, hi.loose]
    change update h.live y (some size) x = some n at hx
    change n ≤ (s'.cache (s'.pageCache (kva2page x))).objsize
    by_cases hxy : x = y
    · grind [ha.cache]
    rw [update_of_ne hxy] at hx
    have hl := (hi.loose x).mpr (by rw [hx]; nofun)
    rw [ha.pageCache x hl, ha.cache]
    exact hi.size x n hx

lemma Inv.home {x n : Nat} (hi : h.Inv fr) (hx : h.live x = some n) :
    ∃ i a j, h.slabs.Object fr i a j ∧ x = h.slabs.objAt i a j ∧ n ≤ (h.slabs.cache i).objsize := by
  obtain ⟨⟨i, a, j, ho, hobj⟩, -⟩ := (hi.loose x).mpr (by rw [hx]; nofun)
  refine ⟨i, a, j, ho, hobj, ?_⟩
  have := hi.size x n hx
  rwa [hobj, (hi.slabs.resolve ho.slab ho.lt).2.1] at this

lemma kfree_ok {x n : Nat} (hi : h.Inv fr) (hx : h.live x = some n) :
    ∃ s' fr', h.slabs.kfree x = .ok s' ∧ Heap.Inv ⟨s', update h.live x none⟩ fr' ∧
    ∀ i a j, h.slabs.Object fr i a j → x = h.slabs.objAt i a j → (h.slabs.slab a).inuse = 1 → Gone h.slabs i a s' := by
  obtain ⟨⟨i, a, j, ho, hobj⟩, hm⟩ := (hi.loose x).mpr (by rw [hx]; nofun)
  rw [hobj] at hm
  obtain ⟨s', fr', hs', hf, hgone⟩ := kmemCacheFree_ok hi.slabs hi.busy ho hm
  have hres := hi.slabs.resolve ho.slab ho.lt
  refine ⟨s', fr', ?_, ⟨hf.inv, hf.busy, hf.cache.trans hi.cache, fun z => ?_, fun z m hz => ?_⟩, ?_⟩
  · rw [kfree, hobj, hres.2.1]
    exact hs'
  · change _ ↔ update h.live x none z ≠ none
    grind [hf.loose, hi.loose]
  · change update h.live x none z = some m at hz
    change m ≤ (s'.cache (s'.pageCache (kva2page z))).objsize
    have hzx : z ≠ x := by
      rintro rfl
      simp at hz
    rw [update_of_ne hzx] at hz
    rw [hf.cache, hf.pageCache]
    exact hi.size z m hz
  · intro i' a' j' ho' hobj' hone
    obtain ⟨rfl, rfl, -⟩ := hi.slabs.objAt_inj ho'.slab ho'.lt ho.slab ho.lt (hobj'.symm.trans hobj)
    exact hgone hone

lemma kmalloc_ok {pick : Pager} {size : Nat} (hi : h.Inv fr) (hpick : PagerOk pick) (hpos : 0 < size)
    (hmax : size ≤ 131072) : ∃ r s' fr', h.slabs.kmalloc pick size = .ok (r, s') ∧ (h.got size (r, s')).Inv fr' := by
  obtain ⟨order, ho, hlt, hle, hlo⟩ := getSizeOrder_ok hmax
  obtain ⟨r, s', fr', hs', ha⟩ := kmemCacheAlloc_ok hpick hi.slabs hi.busy hlt
  refine ⟨r, s', fr', ?_, hi.got ha ?_⟩
  · rw [kmalloc, if_neg (by omega), ho]
    exact hs'
  · rw [hi.cache, objsize_order hlo hlt]
    exact hle

lemma kmalloc_size {pick : Pager} {size : Nat} {s : SlabAlloc} {r : Option Nat × SlabAlloc}
    (hs : s.kmalloc pick size = .ok r) : 0 < size ∧ size ≤ 131072 := by
  rw [kmalloc] at hs
  by_cases hz : size = 0
  · rw [if_pos hz] at hs
    cases hs
  refine ⟨by omega, ?_⟩
  by_contra hmax
  rw [if_neg hz, getSizeOrder_error (by omega)] at hs
  cases hs

lemma step_inv (hi : h.Inv fr) (hp : h.Proper c) (hs : h.step c = .ok h') : ∃ fr', h'.Inv fr' := by
  cases c with
  | cacheAlloc pick i =>
    obtain ⟨r, s', fr', hs', ha⟩ := kmemCacheAlloc_ok hp.1 hi.slabs hi.busy hp.2
    rw [step, hs'] at hs
    obtain rfl := Except.ok.inj hs
    exact ⟨fr', hi.got ha (Nat.le_refl _)⟩
  | kmalloc pick size =>
    cases hk : h.slabs.kmalloc pick size with
    | error e =>
      rw [step, hk] at hs
      cases hs
    | ok r =>
      obtain ⟨hpos, hmax⟩ := kmalloc_size hk
      obtain ⟨r', s', fr', hs', hinv⟩ := kmalloc_ok hi hp hpos hmax
      rw [step, hs'] at hs
      obtain rfl := Except.ok.inj hs
      exact ⟨fr', hinv⟩
  | kfree objp =>
    obtain ⟨n, hn⟩ := Option.ne_none_iff_exists'.mp hp
    obtain ⟨s', fr', hs', hinv, -⟩ := kfree_ok hi hn
    rw [step, hs'] at hs
    obtain rfl := Except.ok.inj hs
    exact ⟨fr', hinv⟩

def Reached : Heap → Prop := Reachable step Proper Boot

lemma Reached.inv (hr : Reached h) : ∃ fr, h.Inv fr :=
  hr.invariant (P := fun h => ∃ fr, h.Inv fr) (fun _ hb => ⟨_, hb.inv⟩) fun _ _ _ ⟨_, hi⟩ hp hs => step_inv hi hp hs

def Within (s : SlabAlloc) (i a j x : Nat) : Prop :=
  s.objAt i a j ≤ x ∧ x < s.objAt i a j + (s.cache i).objsize

def Control (s : SlabAlloc) (i a x : Nat) : Prop :=
  a ≤ x ∧ x < a + (sizeofSlab + (s.cache i).num * sizeofBufctl)

/-- Objects, slabs and lists agree; `fr a` is the free chain of `a`. -/
structure Consistent (h : Heap) (fr : Nat → List Nat) : Prop where
  /-- Every object that a caller has is an allocated object of a slab, large enough and within its pages. -/
  home : ∀ x n, h.live x = some n → ∃ i a j, h.slabs.Object fr i a j ∧ x = h.slabs.objAt i a j ∧
    n ≤ (h.slabs.cache i).objsize ∧ page2kva (h.slabs.base a) ≤ x ∧
    x + n ≤ page2kva (h.slabs.base a + h.slabs.order i)
  owner : ∀ i a j, h.slabs.Object fr i a j → (h.live (h.slabs.objAt i a j) ≠ none ↔ ¬ h.slabs.Mgmt (h.slabs.objAt i a j))
  disjoint : ∀ i a j k b c x, h.slabs.Object fr i a j → h.slabs.Object fr k b c →
    Within h.slabs i a j x → Within h.slabs k b c x → i = k ∧ a = b ∧ j = c
  /-- The control part of a slab is no part of an object that a caller has. -/
  control : ∀ i a x n y, a ∈ h.slabs.slabs i → Control h.slabs i a y → h.live x = some n → ¬ (x ≤ y ∧ y < x + n)
  chain : ∀ i a, a ∈ h.slabs.slabs i →
    Chain (h.slabs.slab a).bufctl bufctlEnd (h.slabs.slab a).free (fr a) ∧ (fr a).Nodup ∧
    (∀ j ∈ fr a, j < (h.slabs.cache i).num) ∧ (fr a).length = (h.slabs.cache i).num - (h.slabs.slab a).inuse
  inuse : ∀ i a, a ∈ h.slabs.slabs i → 0 < (h.slabs.slab a).inuse ∧ (h.slabs.slab a).inuse ≤ (h.slabs.cache i).num
  full : ∀ i a, a ∈ h.slabs.slabs i → (a ∈ h.slabs.slabsFull i ↔ (h.slabs.slab a).inuse = (h.slabs.cache i).num) ∧
    (a ∈ h.slabs.slabsNotfull i ↔ (h.slabs.slab a).inuse ≠ (h.slabs.cache i).num)
  /-- `kfree` finds the slab and the index again. -/
  resolve : ∀ i a j, h.slabs.Object fr i a j →
    h.slabs.pageCache (kva2page (h.slabs.objAt i a j)) = i ∧ h.slabs.pageSlabp (kva2page (h.slabs.objAt i a j)) = a ∧
    (h.slabs.objAt i a j - (h.slabs.slab a).sMem) / (h.slabs.cache i).objsize = j
  pages : ∀ q, h.slabs.used q = true ↔ ∃ i a, a ∈ h.slabs.slabs i ∧ inPages (h.slabs.base a) (h.slabs.order i) q = true

section

variable {s : SlabAlloc} {extra : Nat → Prop} {i a j k b c x : Nat}

section

variable (hs : s.Inv fr extra) (ha : a ∈ s.slabs i)
include hs ha

lemma within_page (hj : j < (s.cache i).num) (hx : Within s i a j x) :
    inPages (s.base a) (s.order i) (kva2page x) = true := by
  obtain ⟨hlo, hhi⟩ := hx
  have hb := hs.objAt_bounds ha hj
  rw [inPages_iff, kva2page_iff]
  omega

lemma within_unique (hj : j < (s.cache i).num) (hb : b ∈ s.slabs k)
    (hc : c < (s.cache k).num) (hx : Within s i a j x) (hx' : Within s k b c x) : i = k ∧ a = b ∧ j = c := by
  obtain ⟨rfl, rfl⟩ := hs.same_slab ha hb (within_page hs ha hj hx) (within_page hs hb hc hx')
  refine ⟨rfl, rfl, ?_⟩
  -- the index is the quotient by the object size
  have hidx : ∀ m, Within s i a m x → (x - (s.slab a).sMem) / (s.cache i).objsize = m := fun m hm => by
    obtain ⟨hlo, hhi⟩ := hm
    simp only [objAt] at hlo hhi
    refine Nat.div_eq_of_lt_le (by omega) ?_
    rw [Nat.add_mul]
    omega
  rw [← hidx j hx, hidx c hx']

lemma control_apart (hx : Control s i a x) (ho : s.Object fr k b c)
    (hm : ¬ s.Mgmt (s.objAt k b c)) : ¬ Within s k b c x := by
  intro hw
  obtain ⟨hlo, hhi⟩ := hx
  have hok := hs.cacheOk ha
  by_cases hoff : (s.cache i).offSlab = true
  · obtain ⟨d, j, hd, hobj⟩ := hs.mgmt i a ha hoff
    have hfit := (hok.offSlab hoff).2.2
    have hw' : Within s (s.cache i).slabCachep d j x := by
      rw [Within, ← hobj]
      omega
    obtain ⟨rfl, rfl, rfl⟩ := within_unique hs ho.slab ho.lt hd.slab hd.lt hw hw'
    exact hm (hobj ▸ ⟨i, ha, hoff⟩)
  have hoff' : (s.cache i).offSlab = false := by simpa using hoff
  have hfit := hok.onSlab hoff'
  have hat := (hs.slabOk i a ha).onSlab hoff'
  have hsmem := (hs.slabOk i a ha).sMem
  have hend := hs.objAt_bounds ha hok.num_pos
  have hpage : inPages (s.base a) (s.order i) (kva2page x) = true := by
    rw [inPages_iff, kva2page_iff]
    omega
  obtain ⟨rfl, rfl⟩ := hs.same_slab ha ho.slab hpage (within_page hs ho.slab ho.lt hw)
  have hstart := (hs.objAt_bounds ho.slab ho.lt).1
  have := hw.1
  omega

end

end

lemma Inv.consistent (hi : h.Inv fr) : Consistent h fr := by
  refine ⟨fun x n hx => ?_, fun i a j ho => ?_, fun i a j k b c x ho ho' => ?_, fun i a x n y ha hy hx hxy => ?_,
    fun i a ha => ?_, fun i a ha => ?_, fun i a ha => ?_, fun i a j ho => ?_, fun q => ?_⟩
  · obtain ⟨i, a, j, ho, hobj, hn⟩ := hi.home hx
    have hb := hi.slabs.objAt_bounds ho.slab ho.lt
    grind
  · rw [← hi.loose]
    exact ⟨And.right, fun hm => ⟨⟨i, a, j, ho, rfl⟩, hm⟩⟩
  · exact within_unique hi.slabs ho.slab ho.lt ho'.slab ho'.lt
  · obtain ⟨k, b, c, ho, hobj, hn⟩ := hi.home hx
    have hm := ((hi.loose x).mpr (by rw [hx]; nofun)).2
    rw [hobj] at hm hxy
    exact control_apart hi.slabs ha hy ho hm ⟨hxy.1, by omega⟩
  · have hok := hi.slabs.slabOk i a ha
    have := hok.count
    exact ⟨hok.chain, hok.nodup, hok.lt, by omega⟩
  · have := (hi.slabs.slabOk i a ha).count
    exact ⟨hi.busy i a ha, by omega⟩
  · have hor := SlabAlloc.mem_slabs.mp ha
    have hfull := hi.slabs.full i a
    have hnot := fun hm => Nat.ne_of_lt (hi.slabs.notfull i a hm)
    grind
  · exact (hi.slabs.resolve ho.slab ho.lt).2
  · exact ⟨fun hq => (hi.slabs.used q hq).resolve_left id, fun ⟨i, a, ha, hq⟩ => ((hi.slabs.slabOk i a ha).owns q hq).1⟩

/-- In every run the slabs are consistent, `kmalloc` of a size that some cache
has and `kfree` of an object return, and a slab goes with its last object. -/
theorem reached_consistent (hr : Reached h) : ∃ fr, Consistent h fr ∧
    (∀ pick size, PagerOk pick → 0 < size → size ≤ 131072 → ∃ h', h.step (.kmalloc pick size) = .ok h') ∧
    ∀ x, h.live x ≠ none → ∃ h', h.step (.kfree x) = .ok h' ∧
    ∀ i a j, h.slabs.Object fr i a j → x = h.slabs.objAt i a j → (h.slabs.slab a).inuse = 1 →
    Gone h.slabs i a h'.slabs := by
  obtain ⟨fr, hi⟩ := hr.inv
  refine ⟨fr, hi.consistent, fun pick size hpick hpos hmax => ?_, fun x hx => ?_⟩
  · obtain ⟨r, s', fr', hs', -⟩ := kmalloc_ok hi hpick hpos hmax
    exact ⟨_, by rw [step, hs']; rfl⟩
  · obtain ⟨n, hn⟩ := Option.ne_none_iff_exists'.mp hx
    obtain ⟨s', fr', hs', -, hgone⟩ := kfree_ok hi hn
    exact ⟨⟨s', update h.live x none⟩, by rw [step, hs']; rfl, hgone⟩

def twoPages : Pager := fun used n =>
  if n ≠ 1 then none else if used 0 = false then some 0 else if used 1 = false then some 1 else none

lemma twoPages_ok : PagerOk twoPages := by
  intro used n page hp q hq
  grind [inPages_iff, twoPages]

theorem reached_consistent_object : ∃ h, Reached h ∧ h.live 0 = some 600 ∧ ∃ fr, Consistent h fr := by
  obtain ⟨h, hs, hlive⟩ : ∃ h, (boot slabCaches).step (.kmalloc twoPages 600) = .ok h ∧ h.live 0 = some 600 := by
    decide +kernel
  have hp : (boot slabCaches).Proper (.kmalloc twoPages 600) := twoPages_ok
  have hr : Reached h := .step (.init ⟨slabCaches, slabInit_eq, rfl⟩) hp hs
  obtain ⟨fr, hc, -⟩ := reached_consistent hr
  exact ⟨h, hr, hlive, fr, hc⟩

/-- No page is lost: when no object is live, every page has gone back. -/
theorem pages_returned (hr : Reached h) (hnone : ∀ x, h.live x = none) (q : Nat) : h.slabs.used q = false := by
  obtain ⟨fr, hi⟩ := hr.inv
  have hc := hi.consistent
  -- an object that is not live is the `slab_t` of another slab
  have hmgmt : ∀ i a, a ∈ h.slabs.slabs i → ∃ j, h.slabs.Object fr i a j ∧ h.slabs.Mgmt (h.slabs.objAt i a j) := by
    intro i a ha
    obtain ⟨j, hj, hfree⟩ : ∃ j < (h.slabs.cache i).num, j ∉ fr a := by
      by_contra hall
      simp only [not_exists, not_and, not_not] at hall
      have hlen := (List.nodup_range.subperm fun j hj => hall j (List.mem_range.mp hj)).length_le
      obtain ⟨-, -, -, hcount⟩ := hc.chain i a ha
      have hpos := hc.inuse i a ha
      rw [List.length_range] at hlen
      omega
    have ho : h.slabs.Object fr i a j := ⟨ha, hj, hfree⟩
    exact ⟨j, ho, by_contra fun hm => (hc.owner i a j ho).mpr hm (hnone _)⟩
  by_contra hq
  obtain ⟨i, a, ha, -⟩ := (hc.pages q).mp (by simpa using hq)
  obtain ⟨j, -, i', ha', hoff'⟩ := hmgmt i a ha
  -- so that slab has such an object too, but `slab_t`s come from caches that keep theirs on the slab
  obtain ⟨j', ho', i'', ha'', hoff''⟩ := hmgmt i' _ ha'
  obtain ⟨b, k, ho, heq⟩ := hi.slabs.mgmt i'' _ ha'' hoff''
  have hcache := (hc.resolve _ _ _ ho).1
  rw [← heq, (hc.resolve _ _ _ ho').1] at hcache
  obtain ⟨-, hon, -⟩ := (hi.slabs.cacheOk ha'').offSlab hoff''
  rw [← hcache, hoff'] at hon
  cases hon

/-- Its only object freed, the heap holds neither its page nor that of the `slab_t`. -/
theorem pages_returned_kfree : ∃ h h', (boot slabCaches).step (.kmalloc twoPages 600) = .ok h ∧
    h.step (.kfree 0) = .ok h' ∧ h'.slabs.used 0 = false ∧ h'.slabs.used 1 = false := by
  obtain ⟨⟨_, s⟩, hs, rfl⟩ :
    ∃ p, (boot slabCaches).slabs.kmalloc twoPages 600 = .ok p ∧ p.1 = some 0 := by decide +kernel
  have hstep : (boot slabCaches).step (.kmalloc twoPages 600) = .ok ⟨s, update (fun _ => none) 0 (some 600)⟩ := by
    rw [step, hs]
    rfl
  have hp : (boot slabCaches).Proper (.kmalloc twoPages 600) := twoPages_ok
  have hr : Reached _ := .step (.init ⟨slabCaches, slabInit_eq, rfl⟩) hp hstep
  obtain ⟨fr, hi⟩ := hr.inv
  obtain ⟨s', -, hfree, -⟩ := kfree_ok (x := 0) (n := 600) hi rfl
  have hstep' : Heap.step ⟨s, update (fun _ => none) 0 (some 600)⟩ (.kfree 0) =
      .ok ⟨s', update (update (fun _ => none) 0 (some 600)) 0 none⟩ := by
    rw [step, hfree]
    rfl
  have hused := pages_returned (.step hr (show Proper _ (.kfree 0) from nofun) hstep') fun x => by simp
  exact ⟨_, _, hstep, hstep', hused 0, hused 1⟩

end Heap

end Ucore.Mm
