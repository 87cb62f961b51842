import Mathlib.Data.Nat.Bitwise
import Ucore.Fs.Sfs.Inode

/-!
# Mounting and storing: `sfs_fs.c`, `sfs_io.c`

The superblock and the free map are stored together, when something in them has
changed. `ok` says which blocks the device can write during a call.
-/

namespace Ucore.Fs

open Lib (Cmd)
open Lib.Cmd

def sfsMagic : Nat := 0x2f8dbe2a

def wordBits : Nat := 32

def bitmapWord (bit : Nat → Bool) (k : Nat) : Nat := Nat.ofBits fun o : Fin 32 => bit (wordBits * k + o)

def bitmapTest (word : Nat → Nat) (b : Nat) : Bool := (word (b / wordBits)).testBit (b % wordBits)

def superContent (blocks unusedBlocks : Nat) (info : Nat → Nat) : Content :=
  .table fun k =>
    if k = 0 then sfsMagic
    else if k = 1 then blocks
    else if k = 2 then unusedBlocks
    else if k < 11 then info (k - 3)
    else 0

namespace Sfs

def superBlock (s : Sfs) : Content := superContent s.blocks s.unusedBlocks s.info

def freemapBlock (s : Sfs) (k : Nat) : Content := .table fun j => bitmapWord s.freemap (blkNentry * k + j)

def setSuperDirty (s : Sfs) (dirty : Bool) : Sfs := { s with superDirty := dirty }

end Sfs

/-- `sfs_fsync`. After a write that failed the inode is as dirty as before. -/
def fsyncOn (ok : Nat → Bool) (i : Nat) : FsM Unit := do
  let x ← sin i
  when (x.din.nlinks ≠ 0 ∧ x.dirty = true) do
    trylock i
    if ok i then do
      modifySin i fun x => { x with dirty := false }
      writeBlock i (.inode x.din)
    else fail .inval

/-- The loop over `inode_list`, from the number `i`. What `vop_fsync` returns is
not looked at. -/
def syncInodes (ok : Nat → Bool) : Nat → Nat → FsM Unit
  | 0, _ => pure ()
  | n + 1, i => do
    let s ← get
    when ((s.node i).isSome = true) do
      let _ ← attempt (fsyncOn ok i)
      pure ()
    syncInodes ok n (i + 1)

def syncSuper (ok : Nat → Bool) : FsM Unit := do
  let s ← get
  check (0 < s.blocks) .assertion
  if ok 0 then modify (·.write 0 s.superBlock) else fail .inval

/-- The loop of `sfs_wblock` over the free map, from its block `k`. -/
def syncFreemap (ok : Nat → Bool) : Nat → Nat → FsM Unit
  | 0, _ => pure ()
  | n + 1, k => do
    let s ← get
    if ok (blknFreemap + k) then do
      writeBlock (blknFreemap + k) (s.freemapBlock k)
      syncFreemap ok n (k + 1)
    else fail .inval

def syncMeta (ok : Nat → Bool) (nblks : Nat) : FsM Unit := do
  syncSuper ok
  syncFreemap ok nblks 0

def sfsSync (ok : Nat → Bool) : FsM Unit := do
  let s ← get
  syncInodes ok s.blocks 0
  when (s.superDirty = true) do
    modify (·.setSuperDirty false)
    match ← attempt (syncMeta ok (freemapBlocks s.blocks)) with
    | .ok _ => pure ()
    | .error e => do
      modify (·.setSuperDirty true)
      fail e

/-- `sfs_init_freemap`: the words that are read from the device. -/
def initFreemap (disk : Nat → Content) (k : Nat) : Nat := (disk (blknFreemap + k / blkNentry)).word (k % blkNentry)

def countFree (word : Nat → Nat) (nbits : Nat) : Nat := (List.range nbits).countP (bitmapTest word)

/-- The file system that is mounted from a device. The last byte of `info` is
set to zero. -/
def Sfs.ofDisk (disk : Nat → Content) : Sfs where
  blocks := (disk 0).word 1
  unusedBlocks := (disk 0).word 2
  info k := if k = 7 then (disk 0).word 10 % 16777216 else (disk 0).word (3 + k)
  superDirty := false
  freemap b := decide (b < freemapBits ((disk 0).word 1)) && bitmapTest (initFreemap disk) b
  disk := disk
  node _ := none
  pinned := false
  staleLoad := false

/-- `sfs_do_mount` on a device of `dBlocks` blocks. -/
def sfsDoMount (dBlocks : Nat) (disk : Nat → Content) : Except Panic (Except Errno Sfs) :=
  let blocks := (disk 0).word 1
  if (disk 0).word 0 ≠ sfsMagic ∨ dBlocks < blocks then .ok (.error .inval)
  else if blocks = 0 then .error .assertion
  else if countFree (initFreemap disk) (freemapBits blocks) ≠ (disk 0).word 2 then .error .assertion
  else .ok (.ok (.ofDisk disk))

end Ucore.Fs
