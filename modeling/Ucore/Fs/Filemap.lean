import Ucore.Fs.File

/-!
# File tables that threads share

`file.c` and `fs.c`, where a call may wait inside the file system. Between two
waits a thread is alone in the kernel. What it waits for may end in any way,
which an `Answer` says. The model numbers the opens and records what
`filemap_free` closes; the source has neither.
-/

namespace Ucore.Fs.Filemap

open Lib Function

inductive Status
  | none
  | init
  | opened
  | closed
  deriving DecidableEq, Repr

structure File where
  status : Status
  readable : Bool
  writable : Bool
  pos : Int
  node : Option Nat
  openCount : Nat
  era : Nat
  deriving DecidableEq, Repr

structure FsStruct where
  filemap : Nat → File
  fsCount : Nat

structure Tables where
  fs : Nat → Option FsStruct
  opens : List Nat
  /-- What was passed to `vfs_close` for an entry: the open and the inode. -/
  closes : List (Nat × Nat)

inductive Work
  | io
  | seekEnd (pos : Int)
  | tryseek (pos : Int)
  | other
  deriving DecidableEq, Repr

inductive Call
  /-- In `vfs_open`. -/
  | open (fd : Nat) (flags : OpenFlags)
  /-- In `vop_fstat` of `file_open`. -/
  | append (fd node : Nat) (flags : OpenFlags)
  /-- In `vfs_close` of `file_open`. -/
  | undo (fd node : Nat)
  | pipe (fd₀ fd₁ : Nat)
  /-- In an operation of the inode `node` that the open `era` gave. -/
  | use (fd era node : Nat) (work : Work)
  /-- In `vfs_close` of `filemap_free`. -/
  | close (fd : Nat)
  | closeall (fd : Nat)
  | destroy (table fd : Nat)
  /-- In `do_fork`, with the table of the child. -/
  | fork (table : Nat)

structure Thread where
  fs : Option Nat
  call : Option Call

structure Answer where
  ok : Bool
  node : Nat
  node' : Nat
  num : Nat

namespace Tables

def entry (s : Tables) (k fd : Nat) : Option File := (s.fs k).map fun x => x.filemap fd

def getFile (s : Tables) (k fd : Nat) : Except Panic File :=
  match s.entry k fd with
  | some f => .ok f
  | none => .error .dangling

def setFile (s : Tables) (k fd : Nat) (f : File) : Tables :=
  { s with fs := update s.fs k ((s.fs k).map fun x => { x with filemap := update x.filemap fd f }) }

def getFilemap (s : Tables) (k : Nat) : Except Panic FsStruct :=
  match s.fs k with
  | some x => if 0 < x.fsCount then .ok x else .error .assertion
  | none => .error .dangling

/-- The end of `filemap_alloc`. -/
def allocFound (k fd : Nat) (f : File) (s : Tables) : Except Panic Tables :=
  if f.openCount = 0 then .ok (s.setFile k fd { f with status := .init, node := none }) else .error .assertion

/-- `filemap_alloc`; `NO_FD` is `none`, and a negative number is like one that
is too large. -/
def filemapAlloc (k : Nat) (fd : Option Nat) (s : Tables) : Except Panic (Except Errno (Nat × Tables)) := do
  let x ← s.getFilemap k
  match fd with
  | none =>
    match (List.range fsStructNentry).find? fun fd => (x.filemap fd).status = .none with
    | none => .ok (.error .maxOpen)
    | some fd => (s.allocFound k fd (x.filemap fd)).map fun s => .ok (fd, s)
  | some fd =>
    if fsStructNentry ≤ fd then .ok (.error .inval)
    else if (x.filemap fd).status = .none then (s.allocFound k fd (x.filemap fd)).map fun s => .ok (fd, s)
    else .ok (.error .busy)

/-- `filemap_free`: whether the thread waits in `vfs_close` now. -/
def filemapFree (k fd : Nat) (s : Tables) : Except Panic (Tables × Bool) := do
  let f ← s.getFile k fd
  if (f.status = .init ∨ f.status = .closed) ∧ f.openCount = 0 then
    if f.status = .closed then
      match f.node with
      | some n => .ok ({ s with closes := s.closes ++ [(f.era, n)] }, true)
      | none => .error .dangling
    else .ok (s.setFile k fd { f with status := .none }, false)
  else .error .assertion

/-- The end of `filemap_free`, when `vfs_close` has returned. -/
def freed (k fd : Nat) (s : Tables) : Except Panic Tables := do
  let f ← s.getFile k fd
  .ok (s.setFile k fd { f with status := .none })

def filemapAcquire (k fd : Nat) (s : Tables) : Except Panic Tables := do
  let f ← s.getFile k fd
  if f.status = .opened then .ok (s.setFile k fd { f with openCount := f.openCount + 1 }) else .error .assertion

def filemapRelease (k fd : Nat) (s : Tables) : Except Panic (Tables × Bool) := do
  let f ← s.getFile k fd
  if (f.status = .opened ∨ f.status = .closed) ∧ 0 < f.openCount then
    let s := s.setFile k fd { f with openCount := f.openCount - 1 }
    if f.openCount - 1 = 0 then s.filemapFree k fd else .ok (s, false)
  else .error .assertion

def filemapOpen (k fd : Nat) (s : Tables) : Except Panic Tables := do
  let f ← s.getFile k fd
  match f.status, f.node with
  | .init, some n =>
    .ok { s.setFile k fd { f with status := .opened, openCount := f.openCount + 1, era := s.opens.length } with
      opens := s.opens ++ [n] }
  | _, _ => .error .assertion

def filemapClose (k fd : Nat) (s : Tables) : Except Panic (Tables × Bool) := do
  let f ← s.getFile k fd
  if f.status = .opened ∧ 0 < f.openCount then
    let s := s.setFile k fd { f with status := .closed, openCount := f.openCount - 1 }
    if f.openCount - 1 = 0 then s.filemapFree k fd else .ok (s, false)
  else .error .assertion

def fill (k fd node : Nat) (pos : Int) (readable writable : Bool) (s : Tables) : Except Panic Tables := do
  let f ← s.getFile k fd
  (s.setFile k fd { f with node := some node, pos, readable, writable }).filemapOpen k fd

def filemapDup (k' fd' k fd : Nat) (s : Tables) : Except Panic Tables := do
  let t ← s.getFile k' fd'
  let f ← s.getFile k fd
  if t.status = .init ∧ f.status = .opened then
    (s.setFile k' fd' { t with pos := f.pos, readable := f.readable, writable := f.writable, node := f.node }).filemapOpen k' fd'
  else .error .assertion

def fd2file (k fd : Nat) (s : Tables) : Except Panic (Except Errno File) := do
  let x ← s.getFilemap k
  if fd < fsStructNentry ∧ (x.filemap fd).status = .opened then .ok (.ok (x.filemap fd)) else .ok (.error .inval)

def filemapInit : Nat → File := fun _ => ⟨.none, false, false, 0, none, 0, 0⟩

/-- The loop of `fs_closeall` over `n` entries: the entry in whose `vfs_close`
the thread waits. -/
def closeFrom (k : Nat) : Nat → Nat → Tables → Except Panic (Tables × Option Nat)
  | 0, _, s => .ok (s, none)
  | n + 1, fd, s => do
    let f ← s.getFile k fd
    if f.status = .opened then
      let r ← s.filemapClose k fd
      if r.2 then .ok (r.1, some fd) else closeFrom k n (fd + 1) r.1
    else closeFrom k n (fd + 1) s

/-- The loop of `fs_destroy` and the `kfree` after it. -/
def destroyFrom (k : Nat) : Nat → Nat → Tables → Except Panic (Tables × Option Nat)
  | 0, _, s => .ok ({ s with fs := update s.fs k none }, none)
  | n + 1, fd, s => do
    let f ← s.getFile k fd
    if f.status = .opened then
      let r ← s.filemapClose k fd
      if r.2 then .ok (r.1, some fd)
      else
        let f ← r.1.getFile k fd
        if f.status = .none then destroyFrom k n (fd + 1) r.1 else .error .assertion
    else if f.status = .none then destroyFrom k n (fd + 1) s
    else .error .assertion

/-- `put_fs` with `fs_destroy`. -/
def putFs (k : Nat) (s : Tables) : Except Panic (Tables × Option Nat) :=
  match s.fs k with
  | none => .error .dangling
  | some x =>
    let s := { s with fs := update s.fs k (some { x with fsCount := x.fsCount - 1 }) }
    if x.fsCount = 1 then destroyFrom k fsStructNentry 0 s else .ok (s, none)

/-- The loop of `dup_fs` over `n` entries. -/
def dupFrom (k' k : Nat) : Nat → Nat → Tables → Except Panic Tables
  | 0, _, s => .ok s
  | n + 1, fd, s => do
    let f ← s.getFile k fd
    if f.status = .opened then
      let t ← s.getFile k' fd
      let s ← (s.setFile k' fd { t with status := .init }).filemapDup k' fd k fd
      dupFrom k' k n (fd + 1) s
    else dupFrom k' k n (fd + 1) s

def fsCountInc (k : Nat) (s : Tables) : Except Panic Tables :=
  match s.fs k with
  | none => .error .dangling
  | some x => .ok { s with fs := update s.fs k (some { x with fsCount := x.fsCount + 1 }) }

/-- `copy_fs`, with a new table at the address `a` unless it is shared. -/
def copyFs (k : Nat) (share : Bool) (a : Nat) (s : Tables) : Except Panic (Nat × Tables) := do
  if share then
    let s ← s.fsCountInc k
    .ok (k, s)
  else
    let _ ← s.getFilemap k
    let s ← { s with fs := update s.fs a (some ⟨filemapInit, 0⟩) }.dupFrom a k fsStructNentry 0
    let s ← s.fsCountInc a
    .ok (a, s)

end Tables

inductive Request
  | open (flags : OpenFlags)
  | mkfifo (flags : OpenFlags)
  | pipe
  | close (fd : Nat)
  | read (fd : Nat)
  | write (fd : Nat)
  | seek (fd : Nat) (pos : Int) (whence : Whence)
  | fstat (fd : Nat)
  | fsync (fd : Nat)
  | getdirentry (fd : Nat)
  | dup (fd : Nat) (fd₂ : Option Nat)
  | closeall
  | fork (share : Bool) (a : Nat)
  | exit

structure Turn where
  tables : Tables
  thread : Thread
  born : List Thread

namespace Tables

def ret (k : Nat) (s : Tables) : Except Panic Turn := .ok ⟨s, ⟨some k, none⟩, []⟩

def wait (k : Nat) (c : Call) (s : Tables) : Except Panic Turn := .ok ⟨s, ⟨some k, some c⟩, []⟩

def waitIf (k : Nat) (c : Call) (r : Tables × Bool) : Except Panic Turn :=
  if r.2 then r.1.wait k c else r.1.ret k

/-- `file_open` and `file_mkfifo` up to `vfs_open`. -/
def startOpen (k : Nat) (flags : OpenFlags) (s : Tables) : Except Panic Turn := do
  match ← s.filemapAlloc k none with
  | .error _ => s.ret k
  | .ok (fd, s) => s.wait k (.open fd flags)

def startPipe (k : Nat) (s : Tables) : Except Panic Turn := do
  match ← s.filemapAlloc k none with
  | .error _ => s.ret k
  | .ok (fd₀, s) =>
    match ← s.filemapAlloc k none with
    | .error _ => do
      let r ← s.filemapFree k fd₀
      waitIf k (.close fd₀) r
    | .ok (fd₁, s) => s.wait k (.pipe fd₀ fd₁)

def startUse (k fd : Nat) (may : File → Bool) (work : File → Work) (s : Tables) : Except Panic Turn := do
  match ← s.fd2file k fd with
  | .error _ => s.ret k
  | .ok f =>
    if may f then
      let s ← s.filemapAcquire k fd
      match f.node with
      | some n => s.wait k (.use fd f.era n (work f))
      | none => .error .dangling
    else s.ret k

def startNoSeek (k fd : Nat) (s : Tables) : Except Panic Turn := do
  match ← s.fd2file k fd with
  | .error _ => s.ret k
  | .ok _ =>
    let s ← s.filemapAcquire k fd
    let r ← s.filemapRelease k fd
    waitIf k (.close fd) r

def start (k : Nat) (s : Tables) : Request → Except Panic Turn
  | .open flags => if flags.acc = .other then s.ret k else s.startOpen k flags
  | .mkfifo flags => if flags.acc = .rdonly ∨ flags.acc = .wronly then s.startOpen k { acc := flags.acc } else s.ret k
  | .pipe => s.startPipe k
  | .close fd => do
    match ← s.fd2file k fd with
    | .error _ => s.ret k
    | .ok _ =>
      let r ← s.filemapClose k fd
      waitIf k (.close fd) r
  | .read fd => s.startUse k fd (fun f => f.readable) fun _ => .io
  | .write fd => s.startUse k fd (fun f => f.writable) fun _ => .io
  | .seek fd pos .set => s.startUse k fd (fun _ => true) fun _ => .tryseek pos
  | .seek fd pos .cur => s.startUse k fd (fun _ => true) fun f => .tryseek (pos + f.pos)
  | .seek fd pos .fromEnd => s.startUse k fd (fun _ => true) fun _ => .seekEnd pos
  | .seek fd _ .other => s.startNoSeek k fd
  | .fstat fd => s.startUse k fd (fun _ => true) fun _ => .other
  | .fsync fd => s.startUse k fd (fun _ => true) fun _ => .other
  | .getdirentry fd => s.startUse k fd (fun _ => true) fun _ => .other
  | .dup fd fd₂ => do
    match ← s.fd2file k fd with
    | .error _ => s.ret k
    | .ok _ =>
      match ← s.filemapAlloc k fd₂ with
      | .error _ => s.ret k
      | .ok (fd', s) =>
        let s ← s.filemapDup k fd' k fd
        s.ret k
  | .closeall => do
    let _ ← s.getFilemap k
    let r ← s.closeFrom k (fsStructNentry - 2) 2
    .ok ⟨r.1, ⟨some k, r.2.map .closeall⟩, []⟩
  | .fork share a => do
    let r ← s.copyFs k share a
    r.2.wait k (.fork r.1)
  | .exit => do
    let r ← s.putFs k
    .ok ⟨r.1, ⟨none, r.2.map (.destroy k)⟩, []⟩

def finishUse (k fd : Nat) (s : Tables) : Except Panic Turn := do
  let r ← s.filemapRelease k fd
  waitIf k (.close fd) r

def setPos (k fd : Nat) (pos : File → Int) (s : Tables) : Except Panic Tables := do
  let f ← s.getFile k fd
  .ok (s.setFile k fd { f with pos := pos f })

def resume (k : Nat) (s : Tables) (a : Answer) : Call → Except Panic Turn
  | .open fd flags =>
    if a.ok then
      if flags.append then s.wait k (.append fd a.node flags)
      else do
        let s ← s.fill k fd a.node 0 flags.readable flags.writable
        s.ret k
    else do
      let r ← s.filemapFree k fd
      waitIf k (.close fd) r
  | .append fd node flags =>
    if a.ok then do
      let s ← s.fill k fd node a.num flags.readable flags.writable
      s.ret k
    else s.wait k (.undo fd node)
  | .undo fd _ => do
    let r ← s.filemapFree k fd
    waitIf k (.close fd) r
  | .pipe fd₀ fd₁ =>
    if a.ok then do
      let s ← s.fill k fd₀ a.node 0 true false
      let s ← s.fill k fd₁ a.node' 0 false true
      s.ret k
    else do
      let r ← s.filemapFree k fd₀
      let r ← r.1.filemapFree k fd₁
      waitIf k (.close fd₁) r
  | .use fd _ _ .io => do
    let s ← s.setPos k fd fun f => if f.status = .opened then f.pos + a.num else f.pos
    s.finishUse k fd
  | .use fd era _ (.seekEnd pos) =>
    if a.ok then do
      -- the inode is read from the entry again
      let f ← s.getFile k fd
      match f.node with
      | some n => s.wait k (.use fd era n (.tryseek (pos + a.num)))
      | none => .error .dangling
    else s.finishUse k fd
  | .use fd _ _ (.tryseek pos) =>
    if a.ok then do
      let s ← s.setPos k fd fun _ => pos
      s.finishUse k fd
    else s.finishUse k fd
  | .use fd _ _ .other => s.finishUse k fd
  | .close fd => do
    let s ← s.freed k fd
    s.ret k
  | .closeall fd => do
    let s ← s.freed k fd
    let r ← s.closeFrom k (fsStructNentry - (fd + 1)) (fd + 1)
    .ok ⟨r.1, ⟨some k, r.2.map .closeall⟩, []⟩
  | .destroy table fd => do
    let s ← s.freed table fd
    let r ← s.destroyFrom table (fsStructNentry - (fd + 1)) (fd + 1)
    .ok ⟨r.1, ⟨some k, r.2.map (.destroy table)⟩, []⟩
  | .fork table =>
    if a.ok then .ok ⟨s, ⟨some k, none⟩, [⟨some table, none⟩]⟩
    else do
      let r ← s.putFs table
      .ok ⟨r.1, ⟨some k, r.2.map (.destroy table)⟩, []⟩

def resumeExit (table fd : Nat) (s : Tables) : Except Panic Turn := do
  let s ← s.freed table fd
  let r ← s.destroyFrom table (fsStructNentry - (fd + 1)) (fd + 1)
  .ok ⟨r.1, ⟨none, r.2.map (.destroy table)⟩, []⟩

end Tables

structure Sys where
  tables : Tables
  threads : List Thread

def Thread.uses (k fd : Nat) : Thread → Bool
  | ⟨some k', some (.use fd' _ _ _)⟩ => k' == k && fd' == fd
  | _ => false

def Thread.closes (k fd : Nat) : Thread → Bool
  | ⟨some k', some (.close fd')⟩ => k' == k && fd' == fd
  | ⟨some k', some (.closeall fd')⟩ => k' == k && fd' == fd
  | ⟨_, some (.destroy k' fd')⟩ => k' == k && fd' == fd
  | _ => false

inductive Event
  | start (t : Nat) (r : Request)
  | finish (t : Nat) (a : Answer)

def Event.thread : Event → Nat
  | .start t _ => t
  | .finish t _ => t

namespace Sys

def turn (s : Sys) (th : Thread) : Event → Except Panic Turn
  | .start _ r =>
    match th with
    | ⟨some k, none⟩ => s.tables.start k r
    | _ => .ok ⟨s.tables, th, []⟩
  | .finish _ a =>
    match th with
    | ⟨some k, some c⟩ => s.tables.resume k a c
    | ⟨none, some (.destroy table fd)⟩ => s.tables.resumeExit table fd
    | _ => .ok ⟨s.tables, th, []⟩

def step (s : Sys) (e : Event) : Except Panic Sys := do
  match s.threads[e.thread]? with
  | some th =>
    let r ← s.turn th e
    .ok ⟨r.tables, s.threads.set (e.thread) r.thread ++ r.born⟩
  | none => .ok s

def inFlight (s : Sys) (k fd : Nat) : Nat := s.threads.countP (Thread.uses k fd)

def closers (s : Sys) (k fd : Nat) : Nat := s.threads.countP (Thread.closes k fd)

def Allowed (s : Sys) : Event → Prop
  | .start _ (.fork false a) => s.tables.fs a = none
  | _ => True

def boot (n : Nat) : Sys where
  tables := ⟨fun k => if k < n then some ⟨Tables.filemapInit, 1⟩ else none, [], []⟩
  threads := (List.range n).map fun k => ⟨some k, none⟩

def Reached (n : Nat) : Sys → Prop := Reachable step Allowed (· = boot n)

end Sys

end Ucore.Fs.Filemap
