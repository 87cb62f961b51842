import Ucore.Fs.Sfs.Inode

/-!
# Directories: `sfs_inode.c`

A directory keeps one entry in each of its blocks. An entry whose inode number
is zero is empty. The operations are those of `sfs_node_dirops`; each is
followed by what runs without the lock of the directory in the source.
-/

namespace Ucore.Fs

open Function
open Lib (Cmd)
open Lib.Cmd

def dot : Name := ['.']
def dotdot : Name := ['.', '.']

def direntRead (d slot : Nat) : FsM (Nat × Name) := do
  let x ← sin d
  check (x.din.type = .dir ∧ slot < x.din.blocks) .assertion
  let ino ← bmapLoad d slot
  let inuse ← blockInuse ino
  check (inuse = true) .assertion
  let c ← readBlock ino
  pure c.toEntry

def direntWrite (d slot ino : Nat) (name : Name) : FsM Unit := do
  let x ← sin d
  check (x.din.type = .dir ∧ slot ≤ x.din.blocks) .assertion
  check (ino = 0 ∨ name.length ≤ maxFnameLen) .assertion
  let b ← bmapLoad d slot
  let inuse ← blockInuse b
  check (inuse = true) .assertion
  writeBlock b (if ino = 0 then .entry 0 [] else .entry ino name)

def direntLink (d slot lnk : Nat) (name : Name) : FsM Unit := do
  direntWrite d slot lnk name
  modifySin d fun x => x.touch (.setSize (x.din.size + 1))
  modifySin lnk (·.touch .incLinks)

def direntUnlink (d slot lnk : Nat) : FsM Unit := do
  direntWrite d slot 0 []
  let x ← sin d
  let y ← sin lnk
  check (x.din.size ≠ 0 ∧ y.din.nlinks ≠ 0) .assertion
  modifySin d fun x => x.touch (.setSize (x.din.size - 1))
  modifySin lnk (·.touch .decLinks)

inductive Search
  | found (ino slot : Nat)
  | missing (emptySlot : Nat)
  deriving DecidableEq, Repr

def searchLoop (d : Nat) (name : Name) : Nat → Nat → Nat → FsM Search
  | 0, _, emptySlot => pure (.missing emptySlot)
  | n + 1, slot, emptySlot => do
    let (ino, entryName) ← direntRead d slot
    if ino = 0 then searchLoop d name n (slot + 1) slot
    else if entryName = name then pure (.found ino slot)
    else searchLoop d name n (slot + 1) emptySlot

def direntSearch (d : Nat) (name : Name) : FsM Search := do
  check (name.length ≤ maxFnameLen) .assertion
  let x ← sin d
  searchLoop d name x.din.blocks 0 x.din.blocks

def findinoLoop (d ino : Nat) : Nat → Nat → FsM Name
  | 0, _ => fail .noent
  | n + 1, slot => do
    let (entryIno, entryName) ← direntRead d slot
    if entryIno = ino then pure entryName else findinoLoop d ino n (slot + 1)

def direntFindino (d ino : Nat) : FsM Name := do
  let x ← sin d
  findinoLoop d ino x.din.blocks 0

def DiskInode.new (type : FileType) : DiskInode :=
  { size := 0, parent := 0, type, nlinks := 0, blocks := 0, direct := fun _ => 0, indirect := 0, dbIndirect := 0 }

def direntCreateInode (type : FileType) : FsM Nat := do
  let ino ← blockAlloc
  createInode (.new type) ino
  pure ino

def nlinksInc (i : Nat) : FsM Unit := modifySin i (·.touch .incLinks)

def nlinksDec (i : Nat) : FsM Unit := do
  let x ← sin i
  check (x.din.nlinks ≠ 0) .assertion
  modifySin i (·.touch .decLinks)

def dirinfoSetParent (i parent : Nat) : FsM Unit := modifySin i (·.touch (.setParent parent))

def isDir (i : Nat) : FsM Bool := do
  let x ← sin i
  pure (decide (x.din.type = .dir))

def mkdirNolock (d : Nat) (name : Name) : FsM Unit := do
  match ← direntSearch d name with
  | .found _ _ => fail .exist
  | .missing slot =>
    let lnk ← direntCreateInode .dir
    match ← attempt (direntLink d slot lnk name) with
    | .error e =>
      let y ← sin lnk
      check (y.din.nlinks = 0 ∧ y.refCount = 1) .assertion
      thenRefDec lnk (fail e)
    | .ok () =>
      dirinfoSetParent lnk d
      nlinksInc lnk
      nlinksInc d
      refDec lnk

def sfsMkdir (d : Nat) (name : Name) : FsM Unit := do
  if maxFnameLen < name.length then fail .tooBig
  else if name = dot ∨ name = dotdot then fail .exist
  else
    trylock d
    mkdirNolock d name

def linkNolock (d lnk : Nat) (name : Name) : FsM Unit := do
  match ← direntSearch d name with
  | .found _ _ => fail .exist
  | .missing slot => direntLink d slot lnk name

def sfsLink (d : Nat) (name : Name) (lnk : Nat) : FsM Unit := do
  if maxFnameLen < name.length then fail .tooBig
  else if name = dot ∨ name = dotdot then fail .exist
  else
    let dir ← isDir lnk
    if dir then fail .isdir
    else
      trylock d
      linkNolock d lnk name

def rename1Nolock (d : Nat) (name newName : Name) : FsM Unit := do
  if name = newName then pure ()
  else
    match ← direntSearch d name with
    | .missing _ => fail .noent
    | .found ino slot =>
      match ← direntSearch d newName with
      | .found _ _ => fail .exist
      | .missing _ => direntWrite d slot ino newName

def renameMove (d slot1 lnk : Nat) (name : Name) (newD slot2 : Nat) (newName : Name) : FsM Unit := do
  direntUnlink d slot1 lnk
  let dir ← isDir lnk
  when (dir = true) (nlinksDec d)
  match ← attempt (direntLink newD slot2 lnk newName) with
  | .error e =>
    let back ← attempt (direntLink d slot1 lnk name)
    when (back.isOk = true ∧ dir = true) (nlinksInc d)
    fail e
  | .ok () =>
    when (dir = true) do
      nlinksInc newD
      dirinfoSetParent lnk newD

def rename2Nolock (d : Nat) (name : Name) (newD : Nat) (newName : Name) : FsM Unit := do
  match ← direntSearch d name with
  | .missing _ => fail .noent
  | .found ino slot1 =>
    match ← direntSearch newD newName with
    | .found _ _ => fail .exist
    | .missing slot2 =>
      loadInode ino
      thenRefDec ino (renameMove d slot1 ino name newD slot2 newName)

def sfsRename (d : Nat) (name : Name) (newD : Nat) (newName : Name) : FsM Unit := do
  if maxFnameLen < name.length ∨ maxFnameLen < newName.length then fail .tooBig
  else if name = dot ∨ name = dotdot then fail .inval
  else if newName = dot ∨ newName = dotdot then fail .exist
  else
    trylock d
    if d = newD then rename1Nolock d name newName
    else
      trylock newD
      rename2Nolock d name newD newName

def createNolock (d : Nat) (name : Name) (excl : Bool) : FsM Nat := do
  match ← direntSearch d name with
  | .found ino _ =>
    if excl then fail .exist
    else
      loadInode ino
      let x ← sin ino
      if x.din.type = .file then pure ino
      else thenRefDec ino (fail .exist)
  | .missing slot =>
    let lnk ← direntCreateInode .file
    match ← attempt (direntLink d slot lnk name) with
    | .error e => thenRefDec lnk (fail e)
    | .ok () => pure lnk

def sfsCreate (d : Nat) (name : Name) (excl : Bool) : FsM Nat := do
  if maxFnameLen < name.length then fail .tooBig
  else if name = dot ∨ name = dotdot then fail .exist
  else
    trylock d
    createNolock d name excl

/-- The entry of a directory goes only if the directory is empty. The lock of
`d` is held, so that an entry of `d` for `d` itself cannot be removed. -/
def unlinkEntry (d slot lnk : Nat) : FsM Unit := do
  let dir ← isDir lnk
  if dir then
    let y ← sin lnk
    if y.removed then fail .noent
    else
      check (lnk ≠ d) .hang
      if y.din.size ≠ 0 then fail .notempty
      else
        direntUnlink d slot lnk
        modifySin lnk fun x => { x with removed := true }
        nlinksDec lnk
        nlinksDec d
  else direntUnlink d slot lnk

def unlinkNolock (d : Nat) (name : Name) : FsM Unit := do
  match ← direntSearch d name with
  | .missing _ => fail .noent
  | .found ino slot =>
    loadInode ino
    thenRefDec ino (unlinkEntry d slot ino)

def sfsUnlink (d : Nat) (name : Name) : FsM Unit := do
  if maxFnameLen < name.length then fail .tooBig
  else if name = dot ∨ name = dotdot then fail .isdir
  else
    trylock d
    unlinkNolock d name

def loadParent (i : Nat) : FsM Nat := do
  let x ← sin i
  loadInode x.din.parent
  pure x.din.parent

def lookupStep (d : Nat) (name : Name) : FsM Nat := do
  if name = dotdot then loadParent d
  else if maxFnameLen < name.length then fail .tooBig
  else
    trylock d
    match ← direntSearch d name with
    | .missing _ => fail .noent
    | .found ino _ =>
      loadInode ino
      pure ino

/-- The loop of `sfs_lookup`: `i` carries a reference that moves along. -/
def lookupLoop : Nat → List Name → FsM Nat
  | i, [] => pure i
  | i, name :: rest => do
    let dir ← isDir i
    if dir = false then thenRefDec i (fail .notdir)
    else if name = dot then lookupLoop i rest
    else
      let sub ← thenRefDec i (lookupStep i name)
      lookupLoop sub rest

/-- `sfs_lookup` of the components of a path. -/
def sfsLookup (i : Nat) (path : List Name) : FsM Nat := do
  refInc i
  lookupLoop i path

/-- The loop of `sfs_lookup_parent`, which stops at the last component. -/
def lookupParentLoop : Nat → Name → List Name → FsM (Nat × Name)
  | i, last, [] => do
    let dir ← isDir i
    if dir = false then thenRefDec i (fail .notdir)
    else pure (i, last)
  | i, name, next :: rest => do
    let dir ← isDir i
    if dir = false then thenRefDec i (fail .notdir)
    else if name = dot then lookupParentLoop i next rest
    else
      let sub ← thenRefDec i (lookupStep i name)
      lookupParentLoop sub next rest

/-- `sfs_lookup_parent` of `name` and the components after it. -/
def sfsLookupParent (i : Nat) (name : Name) (rest : List Name) : FsM (Nat × Name) := do
  refInc i
  lookupParentLoop i name rest

end Ucore.Fs
