import Ucore.Debug.Panic
import Ucore.Libs.RbTree
import Ucore.Mm.Layout

/-!
# Address spaces: the area list of `mm/vmm.c`

A `vma_struct` is known by its address, here a number. `vma` holds the
structures, `mmapList` the order of the links, and the red-black tree links
the same structures by their addresses. What the functions do to page tables
and shared-memory objects is returned as a list of `Effect`s, in order.

`ok` decides which allocations succeed: the `n`-th call of `kmalloc` for this
address space asks `ok n`, and the structure it returns is number `n`.
-/

namespace Ucore.Mm

open Libs (RbTree RbPtr)
open Libs.RbTree

structure VmFlags where
  read : Bool := false
  write : Bool := false
  exec : Bool := false
  stack : Bool := false
  share : Bool := false
  deriving DecidableEq, Repr

structure Vma where
  vmStart : Nat
  vmEnd : Nat
  vmFlags : VmFlags
  shmem : Option Nat := none
  shmemOff : Nat := 0
  deriving DecidableEq, Repr

structure MmStruct where
  vma : Nat → Vma
  mmapList : List Nat
  mmapTree : Option (RbTree Nat)
  mmapCache : Option Nat
  /-- An `int` in the source. Each area takes a `vma_struct` of kernel memory, and `2 ^ 31`
  of them take 128 GiB at least. -/
  mapCount : Nat
  brkStart : Nat
  brk : Nat
  fresh : Nat

inductive Effect where
  | unmapRange (start stop : Nat)
  | destroy (v : Vma)
  deriving DecidableEq, Repr

def MmStruct.setVma (mm : MmStruct) (id : Nat) (v : Vma) : MmStruct :=
  { mm with vma := fun i => if i = id then v else mm.vma i }

def MmStruct.areas (mm : MmStruct) : List Vma := mm.mmapList.map mm.vma

def mmCreate : MmStruct where
  vma _ := ⟨0, 0, {}, none, 0⟩
  mmapList := []
  mmapTree := none
  mmapCache := none
  mapCount := 0
  brkStart := 0
  brk := 0
  fresh := 0

def kmalloc (ok : Nat → Bool) (mm : MmStruct) : Option Nat × MmStruct :=
  (if ok mm.fresh then some mm.fresh else none, { mm with fresh := mm.fresh + 1 })

def vmaCreate (ok : Nat → Bool) (mm : MmStruct) (vmStart vmEnd : Nat) (vmFlags : VmFlags) : Option Nat × MmStruct :=
  match kmalloc ok mm with
  | (some id, mm) => (some id, mm.setVma id { vmStart, vmEnd, vmFlags })
  | (none, mm) => (none, mm)

/-- The loop of `find_vma_rb`, with the best area so far. -/
def findVmaRb (mm : MmStruct) (t : RbTree Nat) (addr : Nat) : Nat → RbPtr Nat → Option Nat → Except Panic (Option Nat)
  | 0, _, _ => .error .hang
  | fuel + 1, .node id, vma =>
    let tmp := mm.vma id
    if tmp.vmEnd > addr then
      if tmp.vmStart ≤ addr then .ok (some id)
      else findVmaRb mm t addr fuel (t.child (.node id) .left) (some id)
    else findVmaRb mm t addr fuel (t.child (.node id) .right) vma
  | _ + 1, _, vma => .ok vma

def findVmaList (mm : MmStruct) (addr : Nat) : List Nat → Option Nat
  | [] => none
  | id :: rest => if addr < (mm.vma id).vmEnd then some id else findVmaList mm addr rest

def cacheHit (mm : MmStruct) (addr : Nat) : Option Nat :=
  mm.mmapCache.filter fun id => decide ((mm.vma id).vmStart ≤ addr ∧ (mm.vma id).vmEnd > addr)

/-- `find_vma` up to the point where it has its answer. -/
def lookVma (mm : MmStruct) (addr : Nat) : Except Panic (Option Nat) :=
  match cacheHit mm addr with
  | some id => .ok (some id)
  | none => match mm.mmapTree with
    | some t => findVmaRb mm t addr (mm.mapCount + 1) (t.child .root .left) none
    | none => .ok (findVmaList mm addr mm.mmapList)

def findVma (mm : MmStruct) (addr : Nat) : Except Panic (Option Nat × MmStruct) := do
  match ← lookVma mm addr with
  | some id => pure (some id, { mm with mmapCache := some id })
  | none => pure (none, mm)

def findVmaIntersection (mm : MmStruct) (start stop : Nat) : Except Panic (Option Nat × MmStruct) := do
  let (vma, mm) ← findVma mm start
  pure (vma.filter fun id => !decide (stop ≤ (mm.vma id).vmStart), mm)

def vmaCompare (mm : MmStruct) (a b : Nat) : Int :=
  if (mm.vma a).vmStart < (mm.vma b).vmStart then -1
  else if (mm.vma a).vmStart > (mm.vma b).vmStart then 1 else 0

def checkVmaOverlap (prev next : Vma) : Except Panic Unit :=
  if prev.vmStart < prev.vmEnd ∧ prev.vmEnd ≤ next.vmStart ∧ next.vmStart < next.vmEnd then .ok ()
  else .error .overlap

def insertVmaRb (mm : MmStruct) (t : RbTree Nat) (id : Nat) : Except Panic (RbTree Nat) :=
  match rbInsert (vmaCompare mm) (mm.mapCount + 1) t id with
  | some t => .ok t
  | none => .error .rbTree

/-- `rb_node_prev` of a node just inserted. -/
def vmaPrevRb (mm : MmStruct) (t : RbTree Nat) (id : Nat) : Except Panic (Option Nat) :=
  match rbNodePrev (mm.mapCount + 2) t (.node id) with
  | some (.node prev) => .ok (some prev)
  | some _ => .ok none
  | none => .error .rbTree

def vmaPrevList (mm : MmStruct) (start : Nat) : Option Nat → List Nat → Option Nat
  | prev, [] => prev
  | prev, le :: rest => if (mm.vma le).vmStart > start then prev else vmaPrevList mm start (some le) rest

def splitAfter (prev : Option Nat) (l : List Nat) : List Nat × List Nat :=
  match prev with
  | none => ([], l)
  | some p => (l.takeWhile (· ≠ p) ++ [p], (l.dropWhile (· ≠ p)).tail)

def rbMinMapCount : Nat := 32

def buildTree (ok : Nat → Bool) (mm : MmStruct) : Except Panic MmStruct :=
  match mm.mmapTree with
  | some _ => .ok mm
  | none =>
    if rbMinMapCount ≤ mm.mapCount then
      match kmalloc ok mm with
      | (none, mm) => .ok mm
      | (some _, mm) => do
        let t ← mm.mmapList.foldlM (insertVmaRb mm) rbTreeCreate
        .ok { mm with mmapTree := some t }
    else .ok mm

/-- The first half of `insert_vma_struct`: the tree, if there is one, with the
area in it, and the area to link after. -/
def insertTree (mm : MmStruct) (id : Nat) : Except Panic (Option (RbTree Nat) × Option Nat) :=
  match mm.mmapTree with
  | some t => do
    let t ← insertVmaRb mm t id
    let prev ← vmaPrevRb mm t id
    .ok (some t, prev)
  | none => .ok (none, vmaPrevList mm (mm.vma id).vmStart none mm.mmapList)

def insertVmaStruct (ok : Nat → Bool) (mm : MmStruct) (id : Nat) : Except Panic MmStruct := do
  let vma := mm.vma id
  if vma.vmStart < vma.vmEnd then
    let (mmapTree, prev) ← insertTree mm id
    let (front, back) := splitAfter prev mm.mmapList
    (prev.map fun p => checkVmaOverlap (mm.vma p) vma).getD (.ok ())
    (back.head?.map fun n => checkVmaOverlap vma (mm.vma n)).getD (.ok ())
    buildTree ok { mm with
      mmapTree, mmapList := front ++ id :: back, mapCount := mm.mapCount + 1 }
  else .error .overlap

def deleteTree (mm : MmStruct) (id : Nat) : Except Panic (Option (RbTree Nat)) :=
  match mm.mmapTree with
  | some t => match rbDelete (mm.mapCount + 1) t (.node id) with
    | some t => .ok (some t)
    | none => .error .rbTree
  | none => .ok none

def removeVmaStruct (mm : MmStruct) (id : Nat) : Except Panic MmStruct := do
  let mmapTree ← deleteTree mm id
  pure { mm with
    mmapTree
    mmapList := mm.mmapList.erase id
    mmapCache := if mm.mmapCache = some id then none else mm.mmapCache
    mapCount := mm.mapCount - 1 }

def mmMap (ok : Nat → Bool) (mm : MmStruct) (addr len : Nat) (vmFlags : VmFlags) :
    Except Panic (Except Errno Nat × MmStruct) := do
  let start := roundDown addr
  let stop := roundUp (addWrap addr len)
  if !userAccess start stop then return (.error .inval, mm)
  let (vma, mm) ← findVmaIntersection mm start stop
  if vma.isSome then return (.error .inval, mm)
  match vmaCreate ok mm start stop { vmFlags with share := false } with
  | (none, mm) => return (.error .noMem, mm)
  | (some id, mm) => return (.ok id, ← insertVmaStruct ok mm id)

/-- `shmem` is the object and its length. The reference that it takes and, on
failure, drops again is in `Ucore.Process.Share`. -/
def mmMapShmem (ok : Nat → Bool) (mm : MmStruct) (addr : Nat) (vmFlags : VmFlags) (shmem len : Nat) :
    Except Panic (Except Errno Unit × MmStruct) := do
  if addr % pgSize ≠ 0 then return (.error .inval, mm)
  match ← mmMap ok mm addr len vmFlags with
  | (.error e, mm) => return (.error e, mm)
  | (.ok id, mm) =>
    let vma := mm.vma id
    return (.ok (), mm.setVma id { vma with
      shmem := some shmem, shmemOff := 0, vmFlags := { vma.vmFlags with share := true } })

def Vma.resize (vma : Vma) (start stop : Nat) : Vma :=
  { vma with
    vmStart := start, vmEnd := stop
    shmemOff := if vma.vmFlags.share then vma.shmemOff + (start - vma.vmStart) else vma.shmemOff }

def vmaResize (mm : MmStruct) (id start stop : Nat) : Except Panic MmStruct :=
  let vma := mm.vma id
  if start % pgSize = 0 ∧ stop % pgSize = 0 ∧ vma.vmStart ≤ start ∧ start < stop ∧ stop ≤ vma.vmEnd then
    .ok (mm.setVma id (vma.resize start stop))
  else .error .assertion

/-- The first loop of `mm_unmap`, along the list from the area found: areas
that start below `stop` are unlinked and pushed on `freeList`. -/
def unlinkRange (stop : Nat) : List Nat → MmStruct → List Nat → Except Panic (MmStruct × List Nat)
  | [], mm, freeList => .ok (mm, freeList)
  | id :: rest, mm, freeList =>
    if (mm.vma id).vmStart < stop then do
      let mm ← removeVmaStruct mm id
      unlinkRange stop rest mm (id :: freeList)
    else .ok (mm, freeList)

def relinkVma (ok : Nat → Bool) (start stop : Nat) (mm : MmStruct) (id : Nat) : Except Panic (MmStruct × List Effect) :=
  let vma := mm.vma id
  if vma.vmStart < start then do
    let mm ← vmaResize mm id vma.vmStart start
    let mm ← insertVmaStruct ok mm id
    .ok (mm, [.unmapRange start vma.vmEnd])
  else if stop < vma.vmEnd then do
    let mm ← vmaResize mm id stop vma.vmEnd
    let mm ← insertVmaStruct ok mm id
    .ok (mm, [.unmapRange vma.vmStart stop])
  else .ok (mm, [.destroy vma, .unmapRange vma.vmStart vma.vmEnd])

def relinkRange (ok : Nat → Bool) (start stop : Nat) : List Nat → MmStruct → Except Panic (MmStruct × List Effect)
  | [], mm => .ok (mm, [])
  | id :: rest, mm => do
    let (mm, effects) ← relinkVma ok start stop mm id
    let (mm, more) ← relinkRange ok start stop rest mm
    .ok (mm, effects ++ more)

/-- `mm_unmap` from the first area that meets the range on. -/
def unmapFrom (ok : Nat → Bool) (start stop : Nat) (mm : MmStruct) (id : Nat) :
    Except Panic (Except Errno Unit × MmStruct × List Effect) :=
  let vma := mm.vma id
  if vma.vmStart < start ∧ stop < vma.vmEnd then
    match vmaCreate ok mm vma.vmStart start vma.vmFlags with
    | (none, mm) => .ok (.error .noMem, mm, [])
    | (some nvma, mm) => do
      let mm ← vmaResize mm id stop vma.vmEnd
      let mm ← insertVmaStruct ok mm nvma
      .ok (.ok (), mm, [.unmapRange start stop])
  else do
    let (mm, freeList) ← unlinkRange stop (mm.mmapList.dropWhile (· ≠ id)) mm []
    let (mm, effects) ← relinkRange ok start stop freeList mm
    .ok (.ok (), mm, effects)

def mmUnmap (ok : Nat → Bool) (mm : MmStruct) (addr len : Nat) :
    Except Panic (Except Errno Unit × MmStruct × List Effect) := do
  let start := roundDown addr
  let stop := roundUp (addWrap addr len)
  if !userAccess start stop then return (.error .inval, mm, [])
  match ← findVmaIntersection mm start stop with
  | (none, mm) => return (.ok (), mm, [])
  | (some id, mm) => unmapFrom ok start stop mm id

def mmBrk (ok : Nat → Bool) (mm : MmStruct) (addr len : Nat) :
    Except Panic (Except Errno Unit × MmStruct × List Effect) := do
  let start := roundDown addr
  let stop := roundUp (addWrap addr len)
  if !userAccess start stop then return (.error .inval, mm, [])
  match ← mmUnmap ok mm start (stop - start) with
  | (.error e, mm, effects) => return (.error e, mm, effects)
  | (.ok (), mm, effects) =>
    let vmFlags : VmFlags := { read := true, write := true }
    let (vma, mm) ← findVma mm (start - 1)
    match vma.filter fun id => decide ((mm.vma id).vmEnd = start ∧ (mm.vma id).vmFlags = vmFlags) with
    | some id => return (.ok (), mm.setVma id { mm.vma id with vmEnd := stop }, effects)
    | none => match vmaCreate ok mm start stop vmFlags with
      | (none, mm) => return (.error .noMem, mm, effects)
      | (some id, mm) => return (.ok (), ← insertVmaStruct ok mm id, effects)

/-- One round of `dup_mmap` up to the call of `copy_range`; `dst` and `src`
are the source's `to` and `from`. -/
def dupVma (ok : Nat → Bool) (dst : MmStruct) (vma : Vma) : Except Panic (Except Errno Unit × MmStruct) :=
  match vmaCreate ok dst vma.vmStart vma.vmEnd vma.vmFlags with
  | (none, dst) => .ok (.error .noMem, dst)
  | (some nvma, dst) => do
    let dst := if vma.vmFlags.share then
        dst.setVma nvma { dst.vma nvma with shmem := vma.shmem, shmemOff := vma.shmemOff }
      else dst
    .ok (.ok (), ← insertVmaStruct ok dst nvma)

/-- The loop of `dup_mmap` over the areas of `src`, last one first. `copied`
says for which of them `copy_range` succeeds. -/
def dupLoop (ok : Nat → Bool) (copied : Vma → Bool) : List Vma → MmStruct → Except Panic (Except Errno Unit × MmStruct)
  | [], dst => .ok (.ok (), dst)
  | vma :: rest, dst => do
    match ← dupVma ok dst vma with
    | (.error e, dst) => return (.error e, dst)
    | (.ok (), dst) => if copied vma then dupLoop ok copied rest dst else return (.error .noMem, dst)

def dupMmap (ok : Nat → Bool) (copied : Vma → Bool) (dst src : MmStruct) : Except Panic (Except Errno Unit × MmStruct) :=
  dupLoop ok copied src.areas.reverse dst

/-- The loop of `get_unmapped_area` over the areas, last one first. -/
def unmappedLoop (len : Nat) : List Vma → Nat → Nat
  | [], start => if userBase ≤ start then start else 0
  | vma :: rest, start =>
    if vma.vmEnd ≤ start then start
    else if addWrap start len > vma.vmStart then
      if vma.vmStart ≤ len then 0 else unmappedLoop len rest (vma.vmStart - len)
    else unmappedLoop len rest start

def getUnmappedArea (mm : MmStruct) (len : Nat) : Nat :=
  if len = 0 ∨ userTop < len then 0 else unmappedLoop len mm.areas.reverse (userTop - len)

end Ucore.Mm
