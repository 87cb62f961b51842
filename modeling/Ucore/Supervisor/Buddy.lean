import Ucore.Debug.Panic

/-!
# The buddy allocator of the supervisor: `mm/buddy_pmm.c`

A page is known by its index in the array `pages`. The fields of `struct Page`
that the allocator uses are maps over all pages.
-/

namespace Ucore.Supervisor

open Function

def maxOrder : Nat := 16
def maxZoneNum : Nat := 10

def blockSize (order : Nat) : Nat := 1 <<< order

/-- Arithmetic of `unsigned int`. -/
def uint (n : Nat) : Nat := n % 0x100000000

def inBlock (base n p : Nat) : Bool := decide (base ≤ p ∧ p < base + n)

structure Buddy where
  pageReserved : Nat → Bool
  pageProperty : Nat → Bool
  property : Nat → Nat
  zoneNum : Nat → Nat
  npage : Nat
  memBase : Nat → Nat
  zoneCount : Nat
  freeList : Nat → List Nat
  nrFree : Nat → Nat

namespace Buddy

/-- `buddy_init`, after `page_init` has reserved every page. -/
def buddyInit (npage : Nat) : Buddy where
  pageReserved _ := true
  pageProperty _ := false
  property _ := 0
  zoneNum _ := 0
  npage
  memBase _ := 0
  zoneCount := 0
  freeList _ := []
  nrFree _ := 0

def addFree (s : Buddy) (p order : Nat) : Buddy :=
  { s with
    property := update s.property p order
    pageProperty := update s.pageProperty p true
    nrFree := update s.nrFree order (uint (s.nrFree order + 1))
    freeList := update s.freeList order (p :: s.freeList order) }

@[simp] def unlinkFree (s : Buddy) (p order : Nat) : Buddy :=
  { s with
    nrFree := update s.nrFree order (uint (s.nrFree order + 0xFFFFFFFF))
    freeList := update s.freeList order ((s.freeList order).erase p) }

@[simp] def clearPageProperty (s : Buddy) (p : Nat) : Buddy :=
  { s with pageProperty := update s.pageProperty p false }

def clearFlags (s : Buddy) (base n : Nat) : Buddy :=
  { s with
    pageReserved := fun p => if inBlock base n p then false else s.pageReserved p
    pageProperty := fun p => if inBlock base n p then false else s.pageProperty p }

def allPages (base n : Nat) (ok : Nat → Bool) : Bool := (List.range n).all fun i => ok (base + i)

/-- The inner loop of `buddy_init_memmap`, for one order. -/
def initOrder (order : Nat) : Nat → Buddy → Nat → Nat → Buddy × Nat × Nat
  | 0, s, p, n => (s, p, n)
  | fuel + 1, s, p, n =>
    if blockSize order ≤ n then
      initOrder order fuel (s.addFree p order) (p + blockSize order) (n - blockSize order)
    else (s, p, n)

def initBlocks (s : Buddy) (p n : Nat) : Nat → Buddy
  | 0 => (initOrder 0 n s p n).1
  | order + 1 =>
    let (s, p, n) := initOrder (order + 1) n s p n
    if n = 0 then s else initBlocks s p n order

def openZone (s : Buddy) (base n : Nat) : Buddy :=
  { s.clearFlags base n with
    property := fun p => if inBlock base n p then 0 else s.property p
    zoneNum := fun p => if inBlock base n p then s.zoneCount else s.zoneNum p
    memBase := update s.memBase s.zoneCount base
    zoneCount := s.zoneCount + 1 }

def buddyInitMemmap (s : Buddy) (base n : Nat) : Except Panic Buddy :=
  if 0 < n ∧ s.zoneCount < maxZoneNum ∧ allPages base n s.pageReserved then
    .ok ((s.openZone base n).initBlocks base n maxOrder)
  else .error .assertion

def page2idx (s : Buddy) (p : Nat) : Nat := p - s.memBase (s.zoneNum p)

def idx2page (s : Buddy) (zone idx : Nat) : Nat := s.memBase zone + idx

def pageIsBuddy (s : Buddy) (p order zone : Nat) : Bool :=
  decide (p < s.npage) && decide (s.zoneNum p = zone) &&
    (!s.pageReserved p && s.pageProperty p && decide (s.property p = order))

/-- The loop of `buddy_free_pages_sub`; it ends after `MAX_ORDER - order` rounds
at the latest. -/
def merge (zone : Nat) : Nat → Buddy → Nat → Nat → Buddy × Nat × Nat
  | 0, s, idx, order => (s, idx, order)
  | rounds + 1, s, idx, order =>
    let buddyIdx := idx ^^^ blockSize order
    let buddy := s.idx2page zone buddyIdx
    if s.pageIsBuddy buddy order zone then
      merge zone rounds ((s.unlinkFree buddy order).clearPageProperty buddy) (idx &&& buddyIdx) (order + 1)
    else (s, idx, order)

def buddyFreePagesSub (s : Buddy) (base order : Nat) : Except Panic Buddy :=
  let idx := s.page2idx base
  if idx &&& (blockSize order - 1) = 0 ∧
    allPages base (blockSize order) (fun p => !s.pageReserved p && !s.pageProperty p) then
    let zone := s.zoneNum base
    let (s, idx, order) := merge zone (maxOrder - order) (s.clearFlags base (blockSize order)) idx order
    .ok (s.addFree (s.idx2page zone idx) order)
  else .error .assertion

/-- The first loop of `buddy_free_pages`: what is left of the range, and `order`. -/
def freeUp : Nat → Buddy → Nat → Nat → Nat → Except Panic (Buddy × Nat × Nat × Nat)
  | 0, _, _, _, _ => .error .hang
  | fuel + 1, s, base, n, order =>
    if blockSize order ≤ n then
      if order ≤ maxOrder then
        if s.page2idx base &&& blockSize order ≠ 0 then do
          let s ← s.buddyFreePagesSub base order
          freeUp fuel s (base + blockSize order) (n - blockSize order) (order + 1)
        else freeUp fuel s base n (order + 1)
      else .error .assertion
    else .ok (s, base, n, order)

def freeDown : Nat → Buddy → Nat → Nat → Nat → Except Panic Buddy
  | 0, _, _, _, _ => .error .hang
  | fuel + 1, s, base, n, order =>
    if n = 0 then .ok s
    else if n < blockSize order then freeDown fuel s base n (order - 1)
    else do
      let s ← s.buddyFreePagesSub base order
      freeDown fuel s (base + blockSize order) (n - blockSize order) order

def buddyFreePages (s : Buddy) (base n : Nat) : Except Panic Buddy :=
  if n = 0 then .error .assertion
  else if n = 1 then s.buddyFreePagesSub base 0
  else do
    let (s, base, n, order) ← freeUp (maxOrder + 2) s base n 0
    freeDown (n + order + 1) s base n order

def getorder (n : Nat) : Except Panic Nat :=
  match (List.range (maxOrder + 1)).find? fun order => decide (n ≤ blockSize order) with
  | some order => .ok order
  | none => .error .assertion

def split (page order : Nat) : Nat → Buddy → Buddy
  | 0, s => s
  | d + 1, s => split page order d (s.addFree (page + blockSize (order + d)) (order + d))

def buddyAllocPagesSub (s : Buddy) (order : Nat) : Except Panic (Option Nat × Buddy) :=
  if order ≤ maxOrder then
    match ((List.range (maxOrder + 1)).drop order).find? fun cur => decide (s.freeList cur ≠ []) with
    | none => .ok (none, s)
    | some cur => match s.freeList cur with
      | [] => .ok (none, s)
      | page :: _ => .ok (some page, (split page order (cur - order) (s.unlinkFree page cur)).clearPageProperty page)
  else .error .assertion

def buddyAllocPages (s : Buddy) (n : Nat) : Except Panic (Option Nat × Buddy) :=
  if n = 0 then .error .assertion
  else do
    let order ← getorder n
    match ← s.buddyAllocPagesSub order with
    | (none, s) => return (none, s)
    | (some page, s) =>
      if n ≠ blockSize order then
        return (some page, ← s.buddyFreePages (page + n) (blockSize order - n))
      else return (some page, s)

def buddyNrFreePages (s : Buddy) : Nat :=
  (List.range (maxOrder + 1)).foldl (fun ret order => ret + uint (s.nrFree order * blockSize order)) 0

end Buddy

end Ucore.Supervisor
