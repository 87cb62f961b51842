import Ucore.Fs.Sfs.Inode

/-!
# File contents: `sfs_inode.c`, `sfs_io.c`

A transfer is split at the borders of blocks. It may stop before its end, so
that the bytes moved so far are a result next to the error.
-/

namespace Ucore.Fs

open Lib (Cmd)
open Lib.Cmd

def rblock (b : Nat) : FsM (Nat → Nat) := do
  let c ← readBlock b
  pure c.byte

def wblock (b : Nat) (bytes : Nat → Nat) : FsM Unit := writeBlock b (.data bytes)

def rbuf (b len offset : Nat) : FsM (Nat → Nat) := do
  check (offset < blkSize ∧ offset + len ≤ blkSize) .assertion
  let c ← readBlock b
  pure fun j => c.byte (offset + j)

def Content.patch (c : Content) (bytes : Nat → Nat) (len offset : Nat) : Content :=
  .data fun j => if offset ≤ j ∧ j < offset + len then bytes (j - offset) else c.byte j

def wbuf (b : Nat) (bytes : Nat → Nat) (len offset : Nat) : FsM Unit := do
  check (offset < blkSize ∧ offset + len ≤ blkSize) .assertion
  let c ← readBlock b
  writeBlock b (c.patch bytes len offset)

/-- A transfer on its way: the bytes moved, the buffer of the caller, and the
error that stopped it. -/
structure Io where
  alen : Nat
  buf : Nat → Nat
  err : Option Errno

/-- The return code. What has been copied counts also when there is an error. -/
def Io.result (io : Io) : Cmd σ Errno Panic Io :=
  match io.err with
  | some e => fail e
  | none => pure io

lemma Io.sat_result {io : Io} {allowed : Panic → Prop} {Q : Io → σ → Prop} {E : Errno → σ → Prop} (hQ : Q io s)
    (hE : ∀ e, E e s) : Sat allowed io.result s Q E := by
  unfold Io.result
  split
  · exact hE _
  · exact hQ

def Io.fetch (io : Io) (bytes : Nat → Nat) (size : Nat) : Io :=
  { io with alen := io.alen + size
            buf := fun j => if io.alen ≤ j ∧ j < io.alen + size then bytes (j - io.alen) else io.buf j }

def Io.rest (io : Io) (j : Nat) : Nat := io.buf (io.alen + j)

def bufOp (write : Bool) (io : Io) (size b blkoff : Nat) : FsM Io := do
  if write then
    wbuf b io.rest size blkoff
    pure { io with alen := io.alen + size }
  else
    let bytes ← rbuf b size blkoff
    pure (io.fetch bytes size)

def blockOp (write : Bool) (io : Io) (b : Nat) : FsM Io := do
  if write then
    wblock b io.rest
    pure { io with alen := io.alen + blkSize }
  else
    let bytes ← rblock b
    pure (io.fetch bytes blkSize)

def ioAt (i blkno : Nat) (io : Io) (op : Nat → FsM Io) : FsM Io := do
  match ← attempt (bmapLoad i blkno) with
  | .error e => pure { io with err := some e }
  | .ok b => op b

def ioLoop (i : Nat) (write : Bool) : Nat → Nat → Io → FsM Io
  | 0, _, io => pure io
  | nblks + 1, blkno, io => do
    let io ← ioAt i blkno io (blockOp write io)
    if io.err.isSome then pure io else ioLoop i write nblks (blkno + 1) io

def ioTail (i : Nat) (write : Bool) (nblks blkno size : Nat) (io : Io) : FsM Io := do
  let io ← ioLoop i write nblks blkno io
  if io.err.isSome ∨ size = 0 then pure io
  else ioAt i (blkno + nblks) io fun b => bufOp write io size b 0

def ioBody (i : Nat) (write : Bool) (offset endpos : Nat) (buf : Nat → Nat) : FsM Io := do
  let blkno := offset / blkSize
  let nblks := endpos / blkSize - blkno
  let blkoff := offset % blkSize
  let io : Io := { alen := 0, buf, err := none }
  if blkoff = 0 then ioTail i write nblks blkno (endpos % blkSize) io
  else
    let size := if nblks ≠ 0 then blkSize - blkoff else endpos - offset
    let io ← ioAt i blkno io fun b => bufOp write io size b blkoff
    if io.err.isSome ∨ nblks = 0 then pure io
    else ioTail i write (nblks - 1) (blkno + 1) (endpos % blkSize) io

def offEnd : Nat := 9223372036854775808

/-- `sfs_io_nolock`. The offset is not negative; an end that does not fit into
an `off_t` is negative. -/
def ioNolock (i : Nat) (buf : Nat → Nat) (offset len : Nat) (write : Bool) : FsM Io := do
  let x ← sin i
  check (x.din.type ≠ .dir) .assertion
  if maxFileSize ≤ offset ∨ offEnd ≤ offset + len then pure { alen := 0, buf, err := some .inval }
  else if len = 0 then pure { alen := 0, buf, err := none }
  else if write = false ∧ x.din.size ≤ offset then pure { alen := 0, buf, err := none }
  else
    let endpos := min (offset + len) maxFileSize
    let io ← ioBody i write offset (if write then endpos else min endpos x.din.size) buf
    let x ← sin i
    when (x.din.size < offset + io.alen) (modifySin i (·.touch (.setSize (offset + io.alen))))
    pure io

def sfsIo (i : Nat) (buf : Nat → Nat) (offset len : Nat) (write : Bool) : FsM Io := do
  trylock i
  ioNolock i buf offset len write

/-- The first loop of `sfs_truncfile`: `n` blocks from `blkno`. -/
def growLoop (i : Nat) : Nat → Nat → FsM Unit
  | 0, _ => pure ()
  | n + 1, blkno => do
    let _ ← bmapLoad i blkno
    growLoop i n (blkno + 1)

/-- The second loop of `sfs_truncfile`. -/
def shrinkLoop (i : Nat) : Nat → FsM Unit
  | 0 => pure ()
  | n + 1 => do
    bmapTruncate i
    shrinkLoop i n

def blocksFor (len : Nat) : Nat := (len + blkSize - 1) / blkSize

def truncfile (i len : Nat) : FsM Unit := do
  if maxFileSize < len then fail .inval
  else
    let x ← sin i
    check (x.din.type ≠ .dir) .assertion
    let tblks := blocksFor len
    if x.din.size = len then check (tblks = x.din.blocks) .assertion
    else
      trylock i
      let nblks := x.din.blocks
      if nblks < tblks then growLoop i (tblks - nblks) nblks
      else shrinkLoop i (nblks - tblks)
      let y ← sin i
      check (y.din.blocks = tblks) .assertion
      modifySin i (·.touch (.setSize len))

def tryseek (i pos : Nat) : FsM Unit := do
  if maxFileSize ≤ pos then fail .inval
  else
    let x ← sin i
    if x.din.size < pos then truncfile i pos else pure ()

end Ucore.Fs
