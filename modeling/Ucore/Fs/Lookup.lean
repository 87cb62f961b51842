import Ucore.Fs.Pipe.Root
import Ucore.Fs.Sfs.Path
import Ucore.Fs.Vfs

/-!
# Path names: `vfslookup.c` and `vfsdev.c`

A string may begin with the name of a device and a colon. What follows goes to
the file system on the device. A working directory is always an inode of the
simple file system, of which one is mounted: no other file system has
directories. The calls of the table of a file system come after `inode_check`.

A lookup opens nothing, so that open counts stay as they are. Within the simple file
system `vop_reclaim` is called for inodes whose last reference the lookup itself drops;
that `inode_check` is left out there.
-/

namespace Ucore.Fs

open Function
open Lib (Cmd)
open Lib.Cmd

inductive FsType
  | sfs
  | pipe
  deriving DecidableEq, Repr

structure Vdev where
  devname : Name
  fs : Option FsType
  mountable : Bool
  deriving DecidableEq, Repr

inductive Inode
  | sfs (i : Nat)
  | pipeRoot
  | pipe (k : Nat)
  | device (devname : Name)
  deriving DecidableEq, Repr

structure Vfs where
  sfs : Sfs
  pipes : Pipe.PipeFs
  vdevList : List Vdev
  devRef : Name → Nat
  /-- The `open_count` of every inode. -/
  openCount : Inode → Nat
  bootfs : Option Nat

abbrev VfsM := Cmd Vfs Errno Panic

def maxInodeCount : Nat := 0x10000

namespace Vfs

def onSfs (x : FsM α) : VfsM α := zoom Vfs.sfs (fun s v => { v with sfs := s }) x

def onPipes (x : Pipe.PipeM α) : VfsM α := zoom Vfs.pipes (fun p v => { v with pipes := p }) x

def addPipeRoot (f : Nat → Nat) (v : Vfs) : Vfs := { v with pipes := { v.pipes with rootRef := f v.pipes.rootRef } }

def addDevice (devname : Name) (f : Nat → Nat) (v : Vfs) : Vfs :=
  { v with devRef := update v.devRef devname (f (v.devRef devname)) }

def refCount : Inode → VfsM Nat
  | .sfs i => do
    let x ← onSfs (sin i)
    pure x.refCount
  | .pipeRoot => do
    let v ← get
    pure v.pipes.rootRef
  | .pipe k => do
    let p ← onPipes (Pipe.pin k)
    pure p.refCount
  | .device devname => do
    let v ← get
    pure (v.devRef devname)

def inodeCheck (node : Inode) : VfsM Unit := do
  let n ← refCount node
  let v ← get
  check (v.openCount node ≤ n) .assertion
  check (n < maxInodeCount ∧ v.openCount node < maxInodeCount) .assertion

def vopRefInc : Inode → VfsM Unit
  | .sfs i => onSfs (refInc i)
  | .pipeRoot => modify (addPipeRoot (· + 1))
  | .pipe k => onPipes do
    let p ← Pipe.pin k
    Pipe.setPin k (some { p with refCount := p.refCount + 1 })
  | .device devname => modify (addDevice devname (· + 1))

def vopRefDec : Inode → VfsM Unit
  | .sfs i => onSfs (refDec i)
  | .pipeRoot => do
    let n ← refCount .pipeRoot
    check (0 < n) .assertion
    modify (addPipeRoot (· - 1))
  | .pipe k => onPipes (Pipe.refDec k)
  | .device devname => do
    let n ← refCount (.device devname)
    check (0 < n) .assertion
    modify (addDevice devname (· - 1))

def thenRefDec (node : Inode) (x : VfsM α) : VfsM α := do
  let r ← attempt x
  vopRefDec node
  ret r

def fsopGetRoot : FsType → VfsM Inode
  | .sfs => do
    onSfs (loadInode blknRoot)
    pure (.sfs blknRoot)
  | .pipe => do
    vopRefInc .pipeRoot
    pure .pipeRoot

def vfsGetRoot (devname : Name) : VfsM Inode := do
  let v ← get
  match v.vdevList.find? fun vdev => vdev.devname = devname with
  | none => fail .noDev
  | some vdev =>
    match vdev.fs with
    | some type => fsopGetRoot type
    | none =>
      if vdev.mountable then fail .naDev
      else do
        vopRefInc (.device devname)
        pure (.device devname)

def vfsGetCurdir : Option Nat → VfsM Inode
  | some i => do
    vopRefInc (.sfs i)
    pure (.sfs i)
  | none => fail .noent

def vfsGetBootfs : VfsM Inode := do
  let v ← get
  vfsGetCurdir v.bootfs

def firstMark : List Char → Option (Nat × Char)
  | [] => none
  | c :: rest => if c = ':' ∨ c = '/' then some (0, c) else (firstMark rest).map fun m => (m.1 + 1, m.2)

def markAt (c : Char) (path : List Char) : Option Nat := (firstMark path).bind fun m => if m.2 = c then some m.1 else none

def skipSlashes (path : List Char) : List Char := path.dropWhile (· = '/')

def getDevice (cwd : Option Nat) (path : List Char) : VfsM (Inode × List Char) := do
  if markAt ':' path = none ∧ markAt '/' path ≠ some 0 then
    let node ← vfsGetCurdir cwd
    pure (node, path)
  else
    match markAt ':' path with
    | some (i + 1) =>
      let node ← vfsGetRoot (path.take (i + 1))
      pure (node, skipSlashes (path.drop (i + 2)))
    | _ =>
      if path.head? = some '/' then
        let node ← vfsGetBootfs
        pure (node, skipSlashes path.tail)
      else
        check (path.head? = some ':') .assertion
        let node ← vfsGetCurdir cwd
        -- The working directory is in a simple file system.
        let root ← fsopGetRoot .sfs
        vopRefDec node
        pure (root, skipSlashes path.tail)

def vopLookup (node : Inode) (path : List Char) : VfsM Inode := do
  inodeCheck node
  match node with
  | .sfs i =>
    let j ← onSfs (sfsLookupChars i path)
    pure (.sfs j)
  | .pipeRoot =>
    let k ← onPipes (Pipe.pipeRootLookup path)
    pure (.pipe k)
  | .pipe _ => fail .notdir
  | .device devname =>
    if path ≠ [] then fail .noent
    else
      vopRefInc (.device devname)
      pure (.device devname)

def vopLookupParent (node : Inode) (path : List Char) : VfsM (Inode × Name) := do
  inodeCheck node
  match node with
  | .sfs i =>
    let r ← onSfs (sfsLookupParentChars i path)
    pure (.sfs r.1, r.2)
  | .pipeRoot =>
    let name ← onPipes (Pipe.pipeRootLookupParent path)
    pure (.pipeRoot, name)
  | .pipe _ | .device _ => fail .notdir

def vopCreate (node : Inode) (name : Name) (excl : Bool) : VfsM Inode := do
  inodeCheck node
  match node with
  | .sfs d =>
    let i ← onSfs (sfsCreate d name excl)
    pure (.sfs i)
  | .pipeRoot =>
    let k ← onPipes (Pipe.pipeRootCreate name excl)
    pure (.pipe k)
  | .pipe _ | .device _ => fail .notdir

def vfsLookup (cwd : Option Nat) (path : List Char) : VfsM Inode := do
  let r ← getDevice cwd path
  if r.2 ≠ [] then thenRefDec r.1 (vopLookup r.1 r.2) else pure r.1

def vfsLookupParent (cwd : Option Nat) (path : List Char) : VfsM (Inode × Name) := do
  let r ← getDevice cwd path
  thenRefDec r.1 (if r.2 ≠ [] then vopLookupParent r.1 r.2 else fail .inval)

/-- `vfs_open` with `O_CREAT`, up to `vop_create`. -/
def vfsOpenCreate (cwd : Option Nat) (path : List Char) (excl : Bool) : VfsM Inode := do
  let r ← vfsLookupParent cwd path
  thenRefDec r.1 (vopCreate r.1 r.2 excl)

end Vfs

end Ucore.Fs
