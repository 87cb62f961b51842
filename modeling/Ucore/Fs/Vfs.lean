import Ucore.Fs.Sfs.Dir
import Ucore.Fs.Sfs.Io

/-!
# Operations on paths: `vfsfile.c`, `vfslookup.c`, `vfspath.c`

One simple file system is mounted and it is the boot file system. A path comes
as the inode it starts from, which is the root or a working directory, and its
components.
-/

namespace Ucore.Fs

open Lib (Cmd)
open Lib.Cmd

def onFile (i : Nat) (x : FsM α) : FsM α := do
  let dir ← isDir i
  if dir then fail .isdir else x

def vopRead (i : Nat) (buf : Nat → Nat) (offset len : Nat) : FsM Io := onFile i (sfsIo i buf offset len false)
def vopWrite (i : Nat) (buf : Nat → Nat) (offset len : Nat) : FsM Io := onFile i (sfsIo i buf offset len true)
def vopTruncate (i len : Nat) : FsM Unit := onFile i (truncfile i len)
def vopTryseek (i pos : Nat) : FsM Unit := onFile i (tryseek i pos)

def vfsLookup (start : Nat) : List Name → FsM Nat
  | [] => do
    refInc start
    pure start
  | name :: rest => do
    refInc start
    thenRefDec start (sfsLookup start (name :: rest))

def vfsLookupParent (start : Nat) : List Name → FsM (Nat × Name)
  | [] => do
    refInc start
    thenRefDec start (fail .inval)
  | name :: rest => do
    refInc start
    thenRefDec start (sfsLookupParent start name rest)

/-- `vfs_open` with `O_CREAT`. -/
def vfsCreate (start : Nat) (path : List Name) (excl : Bool) : FsM Nat := do
  let (d, name) ← vfsLookupParent start path
  thenRefDec d (sfsCreate d name excl)

def vfsMkdir (start : Nat) (path : List Name) : FsM Unit := do
  let (d, name) ← vfsLookupParent start path
  thenRefDec d (sfsMkdir d name)

def vfsUnlink (start : Nat) (path : List Name) : FsM Unit := do
  let (d, name) ← vfsLookupParent start path
  thenRefDec d (sfsUnlink d name)

def vfsRename (oldStart : Nat) (oldPath : List Name) (newStart : Nat) (newPath : List Name) : FsM Unit := do
  let (oldD, oldName) ← vfsLookupParent oldStart oldPath
  match ← attempt (vfsLookupParent newStart newPath) with
  | .error e => thenRefDec oldD (fail e)
  | .ok (newD, newName) => thenRefDec newD (thenRefDec oldD (sfsRename oldD oldName newD newName))

def vfsLink (oldStart : Nat) (oldPath : List Name) (newStart : Nat) (newPath : List Name) : FsM Unit := do
  let old ← vfsLookup oldStart oldPath
  match ← attempt (vfsLookupParent newStart newPath) with
  | .error e => thenRefDec old (fail e)
  | .ok (newD, newName) => thenRefDec newD (thenRefDec old (sfsLink newD newName old))

/-- `vfs_set_curdir`: the working directory was `cwd`. -/
def vfsSetCurdir (cwd dir : Nat) : FsM Unit := do
  when (cwd ≠ dir) do
    let isdir ← isDir dir
    if isdir = false then fail .notdir
    else
      refInc dir
      refDec cwd

def vfsChdir (cwd start : Nat) (path : List Name) : FsM Nat := do
  let dir ← vfsLookup start path
  thenRefDec dir (vfsSetCurdir cwd dir)
  pure dir

/-- The loop of `sfs_namefile`, at most `fuel` rounds: `resid` bytes of the
buffer are left, `names` are in it. -/
def namefileLoop : Nat → Nat → Nat → List Name → FsM (List Name)
  | 0, _, _, _ => stop .hang
  | fuel + 1, i, resid, names =>
    if i = blknRoot then do
      refDec i
      pure names
    else do
      let parent ← thenRefDec i (loadParent i)
      let x ← sin parent
      check (i ≠ parent ∧ x.din.type = .dir) .assertion
      match ← attempt (do trylock parent; direntFindino parent i) with
      | .error e => thenRefDec parent (fail e)
      | .ok name =>
        if resid < name.length + 1 then thenRefDec parent (fail .noMem)
        else namefileLoop fuel parent (resid - (name.length + 1)) (name :: names)

/-- `sfs_namefile` into a buffer of `resid` bytes. Every round of the loop
takes at least one of them. -/
def sfsNamefile (i resid : Nat) : FsM (List Name) := do
  if resid ≤ 2 then fail .noMem
  else
    refInc i
    namefileLoop resid i (resid - 2) []

def vfsGetcwd (cwd resid : Nat) : FsM (List Name) := do
  refInc cwd
  thenRefDec cwd (sfsNamefile cwd resid)

end Ucore.Fs
