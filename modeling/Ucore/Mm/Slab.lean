import Ucore.Debug.Panic
import Ucore.Mm.Layout

/-!
# The slab allocator: `mm/slab.c`

A cache is known by its index in `slab_cache`, a page by its number, a slab by
the address of its `slab_t`. Addresses are those of the direct map without its
constant offset. The two links of a page hold its cache and its slab.
-/

namespace Ucore.Mm

open Function

def bufctlEnd : Nat := 0xFFFFFFFF
def slabLimit : Nat := 0xFFFFFFFE
def minSizeOrder : Nat := 5
def maxSizeOrder : Nat := 17
def slabCacheNum : Nat := maxSizeOrder - minSizeOrder + 1
def kmallocMaxOrder : Nat := 10

def sizeofSlab : Nat := 48
def sizeofBufctl : Nat := 8

def page2kva (page : Nat) : Nat := page * pgSize

def kva2page (kva : Nat) : Nat := kva / pgSize

structure KmemCache where
  objsize : Nat
  num : Nat
  offset : Nat
  offSlab : Bool
  pageOrder : Nat
  slabCachep : Nat
  deriving DecidableEq, Repr

def roundUpTo (a n : Nat) : Nat := (a + n - 1) / n * n

def slabMgmtSize (num align : Nat) : Nat := roundUpTo (sizeofSlab + num * sizeofBufctl) align

def shrinkToFit (slabSize objsize align : Nat) : Nat → Nat
  | 0 => 0
  | num + 1 =>
    if slabSize < slabMgmtSize (num + 1) align + (num + 1) * objsize then shrinkToFit slabSize objsize align num
    else num + 1

def cacheEstimate (order objsize align : Nat) (offSlab : Bool) : Nat × Nat :=
  let slabSize := pgSize <<< order
  if offSlab then
    let num := min (slabSize / objsize) slabLimit
    (slabSize - num * objsize, num)
  else
    let num := min (shrinkToFit slabSize objsize align ((slabSize - sizeofSlab) / (objsize + sizeofBufctl))) slabLimit
    (slabSize - num * objsize - slabMgmtSize num align, num)

/-- Order, number of objects and left-over bytes of the first order that wastes
at most an eighth. -/
def calculateSlabOrder (objsize align : Nat) (offSlab : Bool) : List Nat → Except Panic (Nat × Nat × Nat)
  | [] => .error .assertion
  | order :: orders =>
    let (remainder, num) := cacheEstimate order objsize align offSlab
    if num ≠ 0 ∧ offSlab = true ∧ (objsize - sizeofSlab) / sizeofBufctl < num then .error .assertion
    else if num ≠ 0 ∧ remainder * 8 ≤ pgSize <<< order then .ok (order, num, remainder)
    else calculateSlabOrder objsize align offSlab orders

def getSizeOrder (n : Nat) : Except Panic Nat :=
  match ((List.range (maxSizeOrder + 1)).drop minSizeOrder).find? fun order => decide (n ≤ 1 <<< order) with
  | some order => .ok order
  | none => .error .assertion

def initKmemCache (objsize align : Nat) : Except Panic KmemCache := do
  let objsize := roundUpTo objsize align
  let offSlab := decide (pgSize / 8 ≤ objsize)
  let (pageOrder, num, leftOver) ← calculateSlabOrder objsize align offSlab (List.range (kmallocMaxOrder + 1))
  if num = 0 then throw .assertion
  let mgmtSize := slabMgmtSize num align
  if offSlab = true ∧ leftOver < mgmtSize then
    let order ← getSizeOrder mgmtSize
    return { objsize, num, offset := 0, offSlab := true, pageOrder, slabCachep := order - minSizeOrder }
  else
    return { objsize, num, offset := mgmtSize, offSlab := false, pageOrder, slabCachep := 0 }

def slabInit : Except Panic (List KmemCache) :=
  (List.range slabCacheNum).mapM fun i => initKmemCache (1 <<< (i + minSizeOrder)) 16

structure Slab where
  sMem : Nat
  inuse : Nat
  offset : Nat
  free : Nat
  bufctl : Nat → Nat

structure SlabAlloc where
  cache : Nat → KmemCache
  slabsFull : Nat → List Nat
  slabsNotfull : Nat → List Nat
  slab : Nat → Slab
  pageSlab : Nat → Bool
  pageCache : Nat → Nat
  pageSlabp : Nat → Nat
  used : Nat → Bool

abbrev Pager := (Nat → Bool) → Nat → Option Nat

def inPages (page n q : Nat) : Bool := decide (page ≤ q ∧ q < page + n)

namespace SlabAlloc

def init (caches : List KmemCache) : SlabAlloc where
  cache i := caches.getD i ⟨0, 0, 0, false, 0, 0⟩
  slabsFull _ := []
  slabsNotfull _ := []
  slab _ := ⟨0, 0, 0, 0, fun _ => 0⟩
  pageSlab _ := false
  pageCache _ := 0
  pageSlabp _ := 0
  used _ := false

def order (s : SlabAlloc) (i : Nat) : Nat := 1 <<< (s.cache i).pageOrder

def setUsed (s : SlabAlloc) (page n : Nat) (b : Bool) : SlabAlloc :=
  { s with used := fun q => if inPages page n q then b else s.used q }

def freePages (s : SlabAlloc) (page n : Nat) : SlabAlloc := s.setUsed page n false

def setSlab (s : SlabAlloc) (slabp : Nat) (b : Slab) : SlabAlloc := { s with slab := update s.slab slabp b }

@[simp] def unlinkSlab (s : SlabAlloc) (i slabp : Nat) : SlabAlloc :=
  { s with
    slabsFull := update s.slabsFull i ((s.slabsFull i).erase slabp)
    slabsNotfull := update s.slabsNotfull i ((s.slabsNotfull i).erase slabp) }

def addFull (s : SlabAlloc) (i slabp : Nat) : SlabAlloc :=
  { s with slabsFull := update s.slabsFull i (slabp :: s.slabsFull i) }

def addNotfull (s : SlabAlloc) (i slabp : Nat) : SlabAlloc :=
  { s with slabsNotfull := update s.slabsNotfull i (slabp :: s.slabsNotfull i) }

def kmemCacheAllocOne (s : SlabAlloc) (i slabp : Nat) : Nat × SlabAlloc :=
  let b := s.slab slabp
  let objp := b.sMem + b.free * (s.cache i).objsize
  let next := b.bufctl b.free
  let s := s.setSlab slabp { b with inuse := b.inuse + 1, free := next }
  if next = bufctlEnd then (objp, (s.unlinkSlab i slabp).addFull i slabp) else (objp, s)

/-- `kmem_cache_slabmgmt` with the recursive call as a parameter. -/
def kmemCacheSlabmgmt (alloc : SlabAlloc → Nat → Except Panic (Option Nat × SlabAlloc)) (s : SlabAlloc)
    (i page : Nat) : Except Panic (Option Nat × SlabAlloc) := do
  let (slabp, s) ← if (s.cache i).offSlab then alloc s (s.cache i).slabCachep else pure (some (page2kva page), s)
  match slabp with
  | none => return (none, s)
  | some slabp =>
    let offset := (s.cache i).offset
    return (some slabp, s.setSlab slabp { s.slab slabp with inuse := 0, offset, sMem := page2kva page + offset })

/-- The rest of `kmem_cache_grow`: the links of the pages, the chain and the list. -/
def linkSlab (s : SlabAlloc) (i page slabp : Nat) : SlabAlloc :=
  let inSlab := inPages page (s.order i)
  let num := (s.cache i).num
  let b := s.slab slabp
  let bufctl := fun j => if j = num - 1 then bufctlEnd else if j < num then j + 1 else b.bufctl j
  let s := { s with
    pageCache := fun q => if inSlab q then i else s.pageCache q
    pageSlabp := fun q => if inSlab q then slabp else s.pageSlabp q
    pageSlab := fun q => if inSlab q then true else s.pageSlab q }
  (s.setSlab slabp { b with bufctl, free := 0 }).addNotfull i slabp

def kmemCacheGrow (pick : Pager) (alloc : SlabAlloc → Nat → Except Panic (Option Nat × SlabAlloc)) (s : SlabAlloc)
    (i : Nat) : Except Panic (Bool × SlabAlloc) :=
  match pick s.used (s.order i) with
  | none => .ok (false, s)
  | some page => do
    match ← (s.setUsed page (s.order i) true).kmemCacheSlabmgmt alloc i page with
    | (none, s) => return (false, s.freePages page (s.order i))
    | (some slabp, s) => return (true, s.linkSlab i page slabp)

def kmemCacheAlloc (pick : Pager) : Nat → SlabAlloc → Nat → Except Panic (Option Nat × SlabAlloc)
  | 0, _, _ => .error .hang
  | fuel + 1, s, i =>
    match s.slabsNotfull i with
    | slabp :: _ =>
      let (objp, s) := s.kmemCacheAllocOne i slabp
      .ok (some objp, s)
    | [] => do
      match ← s.kmemCacheGrow pick (kmemCacheAlloc pick fuel) i with
      | (true, s) => kmemCacheAlloc pick fuel s i
      | (false, s) => return (none, s)

def allocRounds : Nat := 3

def kmalloc (pick : Pager) (s : SlabAlloc) (size : Nat) : Except Panic (Option Nat × SlabAlloc) := do
  if size = 0 then throw .assertion
  let order ← getSizeOrder size
  s.kmemCacheAlloc pick allocRounds (order - minSizeOrder)

/-- `kmem_slab_destroy` with the recursive call as a parameter. -/
def kmemSlabDestroy (free : SlabAlloc → Nat → Nat → Except Panic SlabAlloc) (s : SlabAlloc) (i slabp : Nat) :
    Except Panic SlabAlloc :=
  let page := kva2page ((s.slab slabp).sMem - (s.slab slabp).offset)
  if (List.range (s.order i)).all fun j => s.pageSlab (page + j) then
    let s := { s with pageSlab := fun q => if inPages page (s.order i) q then false else s.pageSlab q }
    let s := s.freePages page (s.order i)
    if (s.cache i).offSlab then free s (s.cache i).slabCachep slabp else .ok s
  else .error .assertion

def kmemCacheFreeOne (free : SlabAlloc → Nat → Nat → Except Panic SlabAlloc) (s : SlabAlloc) (i slabp objp : Nat) :
    Except Panic SlabAlloc :=
  let b := s.slab slabp
  let objnr := (objp - b.sMem) / (s.cache i).objsize
  let s := s.setSlab slabp { b with bufctl := update b.bufctl objnr b.free, free := objnr, inuse := b.inuse - 1 }
  if b.inuse - 1 = 0 then (s.unlinkSlab i slabp).kmemSlabDestroy free i slabp
  else if b.inuse - 1 = (s.cache i).num - 1 then .ok ((s.unlinkSlab i slabp).addNotfull i slabp)
  else .ok s

def kmemCacheFree : Nat → SlabAlloc → Nat → Nat → Except Panic SlabAlloc
  | 0, _, _, _ => .error .hang
  | fuel + 1, s, i, objp =>
    let page := kva2page objp
    if s.pageSlab page then s.kmemCacheFreeOne (kmemCacheFree fuel) i (s.pageSlabp page) objp
    else .error .badFree

def freeRounds : Nat := 2

def kfree (s : SlabAlloc) (objp : Nat) : Except Panic SlabAlloc :=
  s.kmemCacheFree freeRounds (s.pageCache (kva2page objp)) objp

end SlabAlloc

end Ucore.Mm
