import Ucore.Fs.Sfs.Disk

/-!
# Block maps and inodes in memory: `sfs_inode.c`

An inode in memory is known by its number. `sin` follows a pointer to it.
-/

namespace Ucore.Fs

open Function
open Lib (Cmd)
open Lib.Cmd

/-- The end of `sfs_bmap_get_sub_nolock`: a block for an empty place of the
table `ent`, which is new if it is not `old`. -/
def bmapFillSub (old ent index : Nat) : FsM (Nat × Nat) := do
  match ← attempt blockAlloc with
  | .error e =>
    when (ent ≠ old) (blockFree ent)
    fail e
  | .ok ino =>
    let c ← readBlock ent
    writeBlock ent (c.setWord index ino)
    pure (ent, ino)

def bmapGetSub (ent index : Nat) (create : Bool) : FsM (Nat × Nat) := do
  check (index < blkNentry) .assertion
  if ent ≠ 0 then
    let c ← readBlock ent
    if c.word index ≠ 0 ∨ create = false then pure (ent, c.word index)
    else bmapFillSub ent ent index
  else if create = false then pure (0, 0)
  else
    let new ← blockAlloc
    bmapFillSub ent new index

def DiskInode.setDirect (index ino : Nat) (din : DiskInode) : DiskInode :=
  { din with direct := update din.direct index ino }

def DiskInode.setIndirect (ent : Nat) (din : DiskInode) : DiskInode := { din with indirect := ent }

def DiskInode.setDbIndirect (ent : Nat) (din : DiskInode) : DiskInode := { din with dbIndirect := ent }

def DiskInode.setBlocks (n : Nat) (din : DiskInode) : DiskInode := { din with blocks := n }

def bmapGetDirect (i : Nat) (din : DiskInode) (index : Nat) (create : Bool) : FsM Nat := do
  if din.direct index = 0 ∧ create = true then
    let ino ← blockAlloc
    modifySin i (·.touch (.setDirect index ino))
    pure ino
  else pure (din.direct index)

def bmapGetPtr (i ptr : Nat) (set : Nat → DiskInode → DiskInode) (index : Nat) (create : Bool) : FsM Nat := do
  let (ent, ino) ← bmapGetSub ptr index create
  when (ent ≠ ptr) do
    check (ptr = 0) .assertion
    modifySin i (·.touch (set ent))
  pure ino

def bmapGetIndirect (i : Nat) (din : DiskInode) (index : Nat) (create : Bool) : FsM Nat :=
  bmapGetPtr i din.indirect .setIndirect index create

def bmapGetDouble (i : Nat) (din : DiskInode) (index : Nat) (create : Bool) : FsM Nat := do
  let table ← bmapGetPtr i din.dbIndirect .setDbIndirect (index / blkNentry) create
  if table ≠ 0 then
    let (_, ino) ← bmapGetSub table (index % blkNentry) create
    pure ino
  else pure 0

def bmapGetRange (i : Nat) (din : DiskInode) (index : Nat) (create : Bool) : FsM Nat :=
  if index < ndirect then bmapGetDirect i din index create
  else if index - ndirect < blkNentry then bmapGetIndirect i din (index - ndirect) create
  else bmapGetDouble i din (index - ndirect - blkNentry) create

def bmapGet (i index : Nat) (create : Bool) : FsM Nat := do
  let x ← sin i
  let ino ← bmapGetRange i x.din index create
  when (ino ≠ 0) do
    let inuse ← blockInuse ino
    check (inuse = true) .assertion
  pure ino

def bmapFreeSub (ent index : Nat) : FsM Unit := do
  let inuse ← blockInuse ent
  check (inuse = true ∧ index < blkNentry) .assertion
  let c ← readBlock ent
  when (c.word index ≠ 0) do
    writeBlock ent (c.setWord index 0)
    blockFree (c.word index)

def bmapFree (i index : Nat) : FsM Unit := do
  let x ← sin i
  if index < ndirect then
    when (x.din.direct index ≠ 0) do
      blockFree (x.din.direct index)
      modifySin i (·.touch (.setDirect index 0))
  else if index - ndirect < blkNentry then
    when (x.din.indirect ≠ 0) (bmapFreeSub x.din.indirect (index - ndirect))
  else
    when (x.din.dbIndirect ≠ 0) do
      let (_, table) ← bmapGetSub x.din.dbIndirect ((index - ndirect - blkNentry) / blkNentry) false
      when (table ≠ 0) (bmapFreeSub table ((index - ndirect - blkNentry) % blkNentry))

def bmapLoad (i index : Nat) : FsM Nat := do
  let x ← sin i
  check (index ≤ x.din.blocks) .assertion
  let ino ← bmapGet i index (decide (index = x.din.blocks))
  let inuse ← blockInuse ino
  check (inuse = true) .assertion
  when (index = x.din.blocks) (modifySin i fun x => { x with din := x.din.setBlocks (x.din.blocks + 1) })
  pure ino

def bmapTruncate (i : Nat) : FsM Unit := do
  let x ← sin i
  check (x.din.blocks ≠ 0) .assertion
  bmapFree i (x.din.blocks - 1)
  modifySin i fun x => x.touch (.setBlocks (x.din.blocks - 1))

/-- `trylock_sin` and `unlock_sin`: nobody else holds the lock. -/
def trylock (i : Nat) : FsM Unit := do
  let x ← sin i
  when (x.removed = true) (fail .noent)

def Sin.init (din : DiskInode) : Sin := { din, removed := false, dirty := false, reclaimCount := 1, refCount := 1 }

def createInode (din : DiskInode) (ino : Nat) : FsM Unit := do
  check (din.type = .dir ∨ din.type = .file) .badInode
  modify (·.setNode ino (some (.init din)))

/-- `vop_ref_inc` in `lookup_sfs_nolock`. -/
def Sin.get (x : Sin) : Sin :=
  { x with refCount := x.refCount + 1, reclaimCount := if x.refCount = 0 then x.reclaimCount + 1 else x.reclaimCount }

def loadInode (ino : Nat) : FsM Unit := do
  let s ← get
  modify fun s => { s with staleLoad := s.staleLoad || !s.live ino }
  match s.node ino with
  | some x => modify (·.setNode ino (some x.get))
  | none =>
    let inuse ← blockInuse ino
    check (inuse = true) .badInode
    let c ← readBlock ino
    check (c.toInode.nlinks ≠ 0) .badInode
    createInode c.toInode ino

def refInc (i : Nat) : FsM Unit := modifySin i fun x => { x with refCount := x.refCount + 1 }

def fsync (i : Nat) : FsM Unit := do
  let x ← sin i
  when (x.din.nlinks ≠ 0 ∧ x.dirty = true) do
    trylock i
    modifySin i fun x => { x with dirty := false }
    writeBlock i (.inode x.din)

/-- The first loop of `sfs_reclaim`. -/
def truncateAll (i : Nat) : Nat → FsM Unit
  | 0 => pure ()
  | n + 1 => do
    let _ ← attempt (bmapTruncate i)
    truncateAll i n

/-- The second loop of `sfs_reclaim`, with `n` places to go. -/
def freeTables (ent : Nat) : Nat → FsM Unit
  | 0 => pure ()
  | n + 1 => do
    let _ ← attempt (bmapFreeSub ent (blkNentry - (n + 1)))
    freeTables ent n

def freeInode (i : Nat) (din : DiskInode) : FsM Unit := do
  blockFree i
  when (din.indirect ≠ 0) (blockFree din.indirect)
  when (din.dbIndirect ≠ 0) do
    freeTables din.dbIndirect blkNentry
    blockFree din.dbIndirect

/-- `sfs_reclaim` of an inode without links. -/
def reclaimUnlinked (i blocks : Nat) : FsM Unit := do
  truncateAll i blocks
  let x ← sin i
  modify (·.setNode i none)
  freeInode i x.din

/-- `sfs_reclaim` of an inode with links. -/
def reclaimLinked (i : Nat) : FsM Unit := do
  let s ← get
  if s.pinned then fail .busy
  else
    fsync i
    modify (·.setNode i none)

def reclaim (i : Nat) : FsM Unit := do
  let x ← sin i
  check (0 < x.reclaimCount) .assertion
  modifySin i fun x => { x with reclaimCount := x.reclaimCount - 1 }
  if x.reclaimCount - 1 ≠ 0 then fail .busy
  else
    check (x.refCount = 0) .assertion
    if x.din.nlinks = 0 then reclaimUnlinked i x.din.blocks else reclaimLinked i

def refDec (i : Nat) : FsM Unit := do
  let x ← sin i
  check (0 < x.refCount) .assertion
  modifySin i fun x => { x with refCount := x.refCount - 1 }
  when (x.refCount - 1 = 0) do
    let _ ← attempt (reclaim i)

def thenRefDec (i : Nat) (x : FsM α) : FsM α := do
  let r ← attempt x
  refDec i
  ret r

end Ucore.Fs
