import Ucore.Fs.Run

/-!
# Descriptors: `file.c`, `fs.c`

An entry of the table of a process keeps its position and what it was opened for, and
holds a reference to its inode. Processes take turns between calls, so that an entry is
never closed while it is in use.
-/

namespace Ucore.Fs

open Lib (Cmd)
open Lib.Cmd

inductive AccMode
  | rdonly
  | wronly
  | rdwr
  | other
  deriving DecidableEq, Repr

structure OpenFlags where
  acc : AccMode
  creat : Bool := false
  excl : Bool := false
  trunc : Bool := false
  append : Bool := false

def OpenFlags.readable (flags : OpenFlags) : Bool := flags.acc = .rdonly ∨ flags.acc = .rdwr
def OpenFlags.writable (flags : OpenFlags) : Bool := flags.acc = .wronly ∨ flags.acc = .rdwr

structure Stat where
  type : FileType
  nlinks : Nat
  blocks : Nat
  size : Nat

def dentrySize : Nat := 256

def sfsFstat (i : Nat) : FsM Stat := do
  let x ← sin i
  pure { type := x.din.type, nlinks := x.din.nlinks, blocks := x.din.blocks
         size := if x.din.type = .dir then (x.din.size + 2) * dentrySize else x.din.size }

def vopOpen (i : Nat) (flags : OpenFlags) : FsM Unit := do
  let dir ← isDir i
  when (dir = true ∧ (flags.acc ≠ .rdonly ∨ flags.append = true)) (fail .isdir)

/-- `vop_open_dec`, where `opens` more descriptors have the inode open: the
last one stores it. -/
def openDec (i opens : Nat) : FsM Unit :=
  when (opens = 0) do
    let _ ← attempt (fsync i)
    pure ()

def vfsClose (i opens : Nat) : FsM Unit := do
  openDec i opens
  refDec i

def openLookup (start : Nat) (path : List Name) (flags : OpenFlags) : FsM Nat :=
  if flags.creat then vfsCreate start path flags.excl else vfsLookup start path

/-- `vfs_open`, where `opens` descriptors have an inode open already. -/
def vfsOpen (start : Nat) (path : List Name) (flags : OpenFlags) (opens : Nat → Nat) : FsM Nat := do
  if flags.acc = .other ∨ (flags.trunc = true ∧ flags.writable = false) then fail .inval
  else
    let i ← openLookup start path flags
    match ← attempt (vopOpen i flags) with
    | .error e => thenRefDec i (fail e)
    | .ok _ =>
      if flags.trunc then
        match ← attempt (vopTruncate i 0) with
        | .error e => do
          vfsClose i (opens i)
          fail e
        | .ok _ => pure i
      else pure i

def fsStructNentry : Nat := 203

/-- `struct file` in the state `FD_OPENED`, in the table of the process `pid`. -/
structure OpenFile where
  pid : Nat
  fd : Nat
  node : Nat
  pos : Nat
  readable : Bool
  writable : Bool

def OpenFile.At (pid fd : Nat) (f : OpenFile) : Bool := f.pid == pid && f.fd == fd

/-- A file system, the references to it of working directories and the mount,
and the open files of all processes. -/
structure Files where
  fs : Sfs
  others : Multiset Nat
  opened : List OpenFile

abbrev FileM := Cmd Files Errno Panic

namespace Files

def nodes (s : Files) : Multiset Nat := (s.opened.map (·.node) : List Nat)

def held (s : Files) : Multiset Nat := s.others + s.nodes

def find (s : Files) (pid fd : Nat) : Option OpenFile := s.opened.find? (OpenFile.At pid fd)

def openCount (s : Files) (i : Nat) : Nat := s.opened.countP (·.node == i)

def setPos (s : Files) (pid fd pos : Nat) : Files :=
  { s with opened := s.opened.map fun f => if f.At pid fd then { f with pos } else f }

def drop (s : Files) (pid fd : Nat) : Files := { s with opened := s.opened.eraseP (OpenFile.At pid fd) }

def add (s : Files) (f : OpenFile) : Files := { s with opened := f :: s.opened }

end Files

def onFs (x : FsM α) : FileM α := fun s =>
  match x s.fs with
  | .ok (r, fs) => .ok (r, { s with fs })
  | .error p => .error p

def fd2file (pid fd : Nat) : FileM OpenFile := do
  let s ← get
  match s.find pid fd with
  | none => fail .inval
  | some f => pure f

/-- `filemap_alloc`; `NO_FD` is `none`. -/
def filemapAlloc (pid : Nat) : Option Nat → FileM Nat
  | none => do
    let s ← get
    match (List.range fsStructNentry).find? fun fd => (s.find pid fd).isNone with
    | none => fail .maxOpen
    | some fd => pure fd
  | some fd => do
    let s ← get
    if fsStructNentry ≤ fd then fail .inval
    else if (s.find pid fd).isSome then fail .busy
    else pure fd

def filemapDup (pid fd : Nat) (f : OpenFile) : FileM Unit := do
  onFs (refInc f.node)
  modify (·.add { f with pid, fd })

def openPos (i : Nat) (flags : OpenFlags) : FileM Nat :=
  if flags.append then do
    let stat ← onFs (sfsFstat i)
    pure stat.size
  else pure 0

def fileOpen (pid start : Nat) (path : List Name) (flags : OpenFlags) : FileM Nat := do
  if flags.acc = .other then fail .inval
  else
    let fd ← filemapAlloc pid none
    let s ← get
    let i ← onFs (vfsOpen start path flags s.openCount)
    let pos ← openPos i flags
    modify (·.add { pid, fd, node := i, pos, readable := flags.readable, writable := flags.writable })
    pure fd

def fileClose (pid fd : Nat) : FileM Unit := do
  let f ← fd2file pid fd
  modify (·.drop pid fd)
  let s ← get
  onFs (vfsClose f.node (s.openCount f.node))

def fileRead (pid fd len : Nat) : FileM Io := do
  let f ← fd2file pid fd
  if f.readable = false then fail .inval
  else
    let io ← onFs (vopRead f.node (fun _ => 0) f.pos len)
    modify (·.setPos pid fd (f.pos + io.alen))
    io.result

def fileWrite (pid fd : Nat) (buf : Nat → Nat) (len : Nat) : FileM Io := do
  let f ← fd2file pid fd
  if f.writable = false then fail .inval
  else
    let io ← onFs (vopWrite f.node buf f.pos len)
    modify (·.setPos pid fd (f.pos + io.alen))
    io.result

inductive Whence
  | set
  | cur
  | fromEnd
  | other
  deriving DecidableEq, Repr

def seekPos (f : OpenFile) (pos : Int) : Whence → FileM Int
  | .set => pure pos
  | .cur => pure (pos + f.pos)
  | .fromEnd => do
    let stat ← onFs (sfsFstat f.node)
    pure (pos + stat.size)
  | .other => fail .inval

/-- `vop_tryseek` for an `off_t`. -/
def vopSeek (i : Nat) : Int → FsM Nat
  | .ofNat pos => do
    vopTryseek i pos
    pure pos
  | .negSucc _ => onFile i (fail .inval)

def fileSeek (pid fd : Nat) (pos : Int) (whence : Whence) : FileM Unit := do
  let f ← fd2file pid fd
  let target ← seekPos f pos whence
  let pos ← onFs (vopSeek f.node target)
  modify (·.setPos pid fd pos)

def fileFstat (pid fd : Nat) : FileM Stat := do
  let f ← fd2file pid fd
  onFs (sfsFstat f.node)

def fileFsync (pid fd : Nat) : FileM Unit := do
  let f ← fd2file pid fd
  onFs (fsync f.node)

def fileDup (pid fd1 : Nat) (fd2 : Option Nat) : FileM Nat := do
  let f ← fd2file pid fd1
  let fd ← filemapAlloc pid fd2
  filemapDup pid fd f
  pure fd

/-- The loop of `dup_fs`. -/
def dupFiles (child : Nat) : List OpenFile → FileM Unit
  | [] => pure ()
  | f :: rest => do
    filemapDup child f.fd f
    dupFiles child rest

def dupFs (child parent : Nat) : FileM Unit := do
  let s ← get
  dupFiles child (s.opened.filter (·.pid == parent))

inductive FileCall
  | open (pid start : Nat) (path : List Name) (flags : OpenFlags)
  | close (pid fd : Nat)
  | read (pid fd len : Nat)
  | write (pid fd : Nat) (buf : Nat → Nat) (len : Nat)
  | seek (pid fd : Nat) (pos : Int) (whence : Whence)
  | fstat (pid fd : Nat)
  | fsync (pid fd : Nat)
  | dup (pid fd1 : Nat) (fd2 : Option Nat)
  | fork (child parent : Nat)
  | path (c : Call)

namespace Files

def exec (s : Files) (x : FileM α) : Except Panic (Option Errno × Files) :=
  match x s with
  | .error p => .error p
  | .ok (.ok _, s') => .ok (none, s')
  | .ok (.error e, s') => .ok (some e, s')

def call (s : Files) : FileCall → Except Panic (Option Errno × Files)
  | .open pid start path flags => s.exec (fileOpen pid start path flags)
  | .close pid fd => s.exec (fileClose pid fd)
  | .read pid fd len => s.exec (fileRead pid fd len)
  | .write pid fd buf len => s.exec (fileWrite pid fd buf len)
  | .seek pid fd pos whence => s.exec (fileSeek pid fd pos whence)
  | .fstat pid fd => s.exec (fileFstat pid fd)
  | .fsync pid fd => s.exec (fileFsync pid fd)
  | .dup pid fd1 fd2 => s.exec (fileDup pid fd1 fd2)
  | .fork child parent => s.exec (dupFs child parent)
  | .path c => (World.call ⟨s.fs, s.others⟩ c).map fun r => (r.1, { s with fs := r.2.fs, others := r.2.held })

def step (s : Files) (c : FileCall) : Except Panic Files := (s.call c).map Prod.snd

end Files

end Ucore.Fs
