import Ucore.Supervisor.BuddyRun

/-!
# Page frames in the ucore kernel: `glue-ucore/pmm.c`

The ucore kernel asks the supervisor for page frames and describes each of them with a
`struct Page` of its own. A frame is known by its index in the array `pages` of the
supervisor. Requests cross the border as physical addresses. For a request that it
cannot satisfy, the supervisor makes an address out of a null pointer.
-/

namespace Ucore.Glue

open Function Ucore.Lib Ucore.Supervisor

def pgSize : Nat := 4096

def reservedDriverOsSize : Nat := 0x10000000

def word (n : Nat) : Nat := n % 0x10000000000000000

/-- `sizeof(struct Page)` of the supervisor. -/
def sizeofSvPage : Nat := 40

def structsPerPage : Nat := pgSize / 64

structure PageRef where
  frame : Nat
  place : Nat
  deriving DecidableEq, Repr

/-- Who has a frame: the supervisor for itself, ucore for its page structures, or
one of the calls of `alloc_pages`. -/
inductive Owner
  | supervisor
  | pageStructs
  | call (k : Nat)
  deriving DecidableEq, Repr

structure Pmm where
  pages : Nat
  buddy : Buddy
  kpagePrivate : Nat → Option PageRef
  pa : PageRef → Nat
  ref : PageRef → Int
  flags : PageRef → Nat
  pageStructFreeList : Nat → List PageRef
  usedPages : Nat
  owner : Nat → Option Owner
  calls : Nat

namespace Pmm

/-- `page - pages`. There is no test for a null pointer. -/
def page2gidx (s : Pmm) : Option Nat → Nat
  | some g => g
  | none => word (0x10000000000000000 - s.pages) / sizeofSvPage

def page2pa (s : Pmm) (page : Option Nat) : Nat := word ((s.page2gidx page + reservedDriverOsSize / pgSize) * pgSize)

def pa2page (s : Pmm) (pa : Nat) : Except Panic Nat :=
  let i := word (pa + (0x10000000000000000 - reservedDriverOsSize)) / pgSize
  if s.buddy.npage ≤ i then .error .badPa else .ok i

/-- `kalloc_pages`. The frames that were found have a new owner. -/
def kallocPages (who : Owner) (n : Nat) (s : Pmm) : Except Panic (Nat × Pmm) :=
  match s.buddy.buddyAllocPages n with
  | .error e => .error e
  | .ok (none, buddy) => .ok (s.page2pa none, { s with buddy := buddy })
  | .ok (some g, buddy) =>
    .ok (s.page2pa (some g), { s with buddy := buddy, owner := fun q => if inBlock g n q then some who else s.owner q })

def kfreePages (pa n : Nat) (s : Pmm) : Except Panic Pmm := do
  let g ← s.pa2page pa
  let buddy ← s.buddy.buddyFreePages g n
  .ok { s with buddy := buddy, owner := fun q => if inBlock g n q then none else s.owner q }

def kpagePrivateSet (pa : Nat) (r : PageRef) (s : Pmm) : Except Panic Pmm := do
  let g ← s.pa2page pa
  .ok { s with kpagePrivate := update s.kpagePrivate g (some r) }

def kpagePrivateGet (pa : Nat) (s : Pmm) : Except Panic (Option PageRef) := do
  let g ← s.pa2page pa
  .ok (s.kpagePrivate g)

/-- The end of `page_struct_alloc`. -/
def fillStruct (c pa : Nat) (r : PageRef) (rest : List PageRef) (s : Pmm) : Pmm :=
  { s with
    pageStructFreeList := update s.pageStructFreeList c rest
    pa := update s.pa r pa
    ref := update s.ref r 0
    flags := update s.flags r 0 }

def newStructs (frame : Nat) : List PageRef := (List.range (structsPerPage - 1)).reverse.map fun i => ⟨frame, i⟩

/-- `page_struct_alloc`, on the processor `c`. Physical memory is mapped up to the
last page. -/
def pageStructAlloc (c pa : Nat) (s : Pmm) : Except Panic (PageRef × Pmm) :=
  match s.pageStructFreeList c with
  | r :: rest => .ok (r, s.fillStruct c pa r rest)
  | [] => do
    let (frame, s) ← s.kallocPages .pageStructs 1
    if frame < reservedDriverOsSize + s.buddy.npage * pgSize then
      .ok (⟨frame, structsPerPage - 1⟩, s.fillStruct c pa ⟨frame, structsPerPage - 1⟩ (newStructs frame))
    else .error .kernelFault

def describe (c pa : Nat) (s : Pmm) : Except Panic (PageRef × Pmm) := do
  let (r, s) ← s.pageStructAlloc c pa
  let s ← s.kpagePrivateSet pa r
  .ok (r, s)

/-- The loop of `alloc_pages` over the frames from `i` on. -/
def describeRest (c base : Nat) : Nat → Nat → Pmm → Except Panic Pmm
  | _, 0, s => .ok s
  | i, m + 1, s => do
    let (_, s) ← s.describe c (word (base + i * pgSize))
    describeRest c base (i + 1) m s

def allocPages (c npages : Nat) (s : Pmm) : Except Panic (PageRef × Pmm) := do
  let (base, s) ← s.kallocPages (.call s.calls) npages
  let (result, s) ← s.describe c base
  let s ← describeRest c base 1 (npages - 1) s
  .ok (result, { s with usedPages := word (s.usedPages + npages), calls := s.calls + 1 })

/-- `page_struct_free`, of what the supervisor has for an address. -/
def pageStructFree (c pa : Nat) (s : Pmm) : Except Panic Pmm := do
  match ← s.kpagePrivateGet pa with
  | none => .error .kernelFault
  | some r => .ok { s with pageStructFreeList := update s.pageStructFreeList c (r :: s.pageStructFreeList c) }

/-- The loop of `free_pages` over the frames from `i` on. -/
def forgetRest (c base : Nat) : Nat → Nat → Pmm → Except Panic Pmm
  | _, 0, s => .ok s
  | i, m + 1, s => do
    let s ← s.pageStructFree c (word (base + i * pgSize))
    forgetRest c base (i + 1) m s

def freePages (c : Nat) (page : PageRef) (npages : Nat) (s : Pmm) : Except Panic Pmm := do
  let basepa := s.pa page
  let s ← forgetRest c basepa 0 npages s
  let s ← s.kfreePages basepa npages
  .ok { s with usedPages := word (s.usedPages + (0x10000000000000000 - word npages)) }

inductive Event
  | alloc (c npages : Nat)
  | free (c : Nat) (page : PageRef) (npages : Nat)
  deriving DecidableEq, Repr

def step (s : Pmm) : Event → Except Panic Pmm
  | .alloc c npages => do
    let (_, s) ← s.allocPages c npages
    .ok s
  | .free c page npages => s.freePages c page npages

def Allowed (s : Pmm) : Event → Prop
  | .alloc _ _ => True
  | .free _ page npages => 0 < npages ∧ ∃ g, s.kpagePrivate g = some page ∧
    ∀ q, g ≤ q → q < g + npages → (∃ k, s.owner q = some (.call k)) ∧ s.buddy.zoneNum q = s.buddy.zoneNum g

/-- The ucore kernel starts: the supervisor has some frames, and the array `pages`
lies in its window. -/
structure Initial (s : Pmm) : Prop where
  buddy : ∃ m : Machine, m.Careful ∧ s.buddy = m.buddy ∧ ∀ q, s.owner q = if m.held q then some .supervisor else none
  window : 0xFFFF800000000000 ≤ s.pages ∧ s.pages < 0xFFFF900000000000
  lists : ∀ c, s.pageStructFreeList c = []

def Reached (guard : Pmm → Event → Prop) : Pmm → Prop := Reachable step (fun s e => s.Allowed e ∧ guard s e) Initial

end Pmm

end Ucore.Glue
