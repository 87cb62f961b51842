import Ucore.Debug.Panic
import Ucore.Lib.Cmd

/-!
# Blocks of a simple file system: `sfs.h`, `sfs_io.c`, `bitmap.c`

The device holds blocks. What a block holds is kept in the form it was written
in, and `word`, `toInode` and `toEntry` read it in any other form. The device
does not fail and `kmalloc` does not either.
-/

namespace Ucore.Fs

open Function
open Lib (Cmd)
open Lib.Cmd

abbrev Name := List Char

def blkSize : Nat := 4096
def ndirect : Nat := 12
def maxFnameLen : Nat := 255
def maxFileSize : Nat := 134217728
def blknRoot : Nat := 1
def blknFreemap : Nat := 2
def blkBits : Nat := 32768
def blkNentry : Nat := 1024

inductive FileType
  | inval
  | file
  | dir
  | link
  deriving DecidableEq, Repr

def FileType.ofCode : Nat → FileType
  | 1 => .file
  | 2 => .dir
  | 3 => .link
  | _ => .inval

def FileType.code : FileType → Nat
  | .inval => 0
  | .file => 1
  | .dir => 2
  | .link => 3

structure DiskInode where
  /-- `fileinfo.size`, which is `dirinfo.slots` in a directory. -/
  size : Nat
  parent : Nat
  type : FileType
  nlinks : Nat
  blocks : Nat
  direct : Nat → Nat
  indirect : Nat
  dbIndirect : Nat

def DiskInode.setSize (n : Nat) (din : DiskInode) : DiskInode := { din with size := n }

def DiskInode.setParent (parent : Nat) (din : DiskInode) : DiskInode := { din with parent := parent }

/-- The link count has 16 bits. -/
def DiskInode.incLinks (din : DiskInode) : DiskInode := { din with nlinks := (din.nlinks + 1) % 65536 }

def DiskInode.decLinks (din : DiskInode) : DiskInode := { din with nlinks := din.nlinks - 1 }

inductive Content
  | data (byte : Nat → Nat)
  | table (word : Nat → Nat)
  | entry (ino : Nat) (name : Name)
  | inode (din : DiskInode)

namespace Content

def zero : Content := .data fun _ => 0

def pack (byte : Nat → Nat) (k : Nat) : Nat :=
  byte (4 * k) + 256 * byte (4 * k + 1) + 65536 * byte (4 * k + 2) + 16777216 * byte (4 * k + 3)

def word : Content → Nat → Nat
  | .data byte, k => pack byte k
  | .table word, k => word k
  | .entry ino name, k => if k = 0 then ino else pack (fun j => ((name.map Char.toNat).getD j 0) % 256) (k - 1)
  | .inode din, k =>
    if k = 0 then din.size
    else if k = 1 then din.parent
    else if k = 2 then din.type.code + 65536 * din.nlinks
    else if k = 3 then din.blocks
    else if k < 16 then din.direct (k - 4)
    else if k = 16 then din.indirect
    else if k = 17 then din.dbIndirect
    else 0

def byte : Content → Nat → Nat
  | .data byte, j => byte j
  | c, j => c.word (j / 4) / Nat.pow 256 (j % 4) % 256

def setWord (c : Content) (k value : Nat) : Content := .table (update c.word k value)

def asInode : Content → Option DiskInode
  | .inode din => some din
  | _ => none

def toInode : Content → DiskInode
  | .inode din => din
  | c =>
    { size := c.word 0, parent := c.word 1
      type := .ofCode (c.word 2 % 65536), nlinks := c.word 2 / 65536
      blocks := c.word 3, direct := fun k => c.word (4 + k), indirect := c.word 16, dbIndirect := c.word 17 }

def toEntry : Content → Nat × Name
  | .entry ino name => (ino, name)
  | c => (c.word 0, (((List.range maxFnameLen).map fun j => c.byte (4 + j)).takeWhile (· ≠ 0)).map Char.ofNat)

@[simp] lemma word_zero : zero.word k = 0 := rfl
@[simp] lemma word_setWord : (setWord c k value).word = update c.word k value := rfl
@[simp] lemma asInode_setWord : (setWord c k value).asInode = none := rfl
@[simp] lemma asInode_zero : zero.asInode = none := rfl
@[simp] lemma toEntry_entry : (entry ino name).toEntry = (ino, name) := rfl
@[simp] lemma toInode_inode : (inode din).toInode = din := rfl

@[simp] lemma toEntry_zero_fst : zero.toEntry.1 = 0 := rfl

end Content

/-- `struct sfs_inode` with the reference count of the `struct inode` around it. -/
structure Sin where
  din : DiskInode
  removed : Bool
  dirty : Bool
  reclaimCount : Nat
  refCount : Nat

structure Sfs where
  blocks : Nat
  unusedBlocks : Nat
  /-- `super.info`, as eight words. -/
  info : Nat → Nat
  superDirty : Bool
  freemap : Nat → Bool
  disk : Nat → Content
  node : Nat → Option Sin
  /-- An assumption on the run, not a field of the source: an inode that still
  has links stays in memory. -/
  pinned : Bool
  /-- Whether `sfs_load_inode` was ever asked for a number that is not the
  number of an inode with links. The source keeps no such record. -/
  staleLoad : Bool

abbrev FsM := Cmd Sfs Errno Panic

def firstSet (bit : Nat → Bool) : Nat → Nat → Option Nat
  | 0, _ => none
  | n + 1, b => if bit b then some b else firstSet bit n (b + 1)

def freemapBlocks (blocks : Nat) : Nat := (blocks + blkBits - 1) / blkBits

def freemapBits (blocks : Nat) : Nat := freemapBlocks blocks * blkBits

def Reserved (blocks b : Nat) : Prop := b = 0 ∨ (blknFreemap ≤ b ∧ b < blknFreemap + freemapBlocks blocks)

instance : Decidable (Reserved blocks b) := inferInstanceAs (Decidable (_ ∨ _))

namespace Sfs

def bitmapAlloc (s : Sfs) : Option Nat := firstSet s.freemap (freemapBits s.blocks) 0

def used (s : Sfs) (b : Nat) : Bool :=
  decide (b < s.blocks) && !s.freemap b && !decide (Reserved s.blocks b)

def din (s : Sfs) (i : Nat) : Option DiskInode :=
  match s.node i with
  | some sin => some sin.din
  | none => if s.used i then (s.disk i).asInode else none

def live (s : Sfs) (i : Nat) : Bool :=
  match s.din i with
  | some din => decide (din.nlinks ≠ 0)
  | none => false

def take (s : Sfs) (b : Nat) : Sfs :=
  { s with freemap := update s.freemap b false, unusedBlocks := s.unusedBlocks - 1, superDirty := true
           disk := update s.disk b .zero }

def give (s : Sfs) (b : Nat) : Sfs :=
  { s with freemap := update s.freemap b true, unusedBlocks := s.unusedBlocks + 1, superDirty := true }

def write (s : Sfs) (b : Nat) (c : Content) : Sfs := { s with disk := update s.disk b c }

def setNode (s : Sfs) (i : Nat) (sin : Option Sin) : Sfs := { s with node := update s.node i sin }

end Sfs

def readBlock (b : Nat) : FsM Content := do
  let s ← get
  check (b ≠ 0 ∧ b < s.blocks) .assertion
  pure (s.disk b)

def writeBlock (b : Nat) (c : Content) : FsM Unit := do
  let s ← get
  check (b ≠ 0 ∧ b < s.blocks) .assertion
  modify (·.write b c)

def blockInuse (b : Nat) : FsM Bool := do
  let s ← get
  check (b ≠ 0 ∧ b < s.blocks) .assertion
  pure (!s.freemap b)

def blockAlloc : FsM Nat := do
  let s ← get
  match s.bitmapAlloc with
  | none => fail .noMem
  | some b =>
    check (0 < s.unusedBlocks) .assertion
    check (b ≠ 0 ∧ b < s.blocks) .assertion
    modify (·.take b)
    pure b

def blockFree (b : Nat) : FsM Unit := do
  let inuse ← blockInuse b
  check (inuse = true) .assertion
  modify (·.give b)

def sin (i : Nat) : FsM Sin := do
  let s ← get
  match s.node i with
  | some sin => pure sin
  | none => stop .dangling

def modifySin (i : Nat) (f : Sin → Sin) : FsM Unit := do
  let x ← sin i
  modify (·.setNode i (some (f x)))

def Sin.touch (x : Sin) (f : DiskInode → DiskInode) : Sin := { x with din := f x.din, dirty := true }

end Ucore.Fs
