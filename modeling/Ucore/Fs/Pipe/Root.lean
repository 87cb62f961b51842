import Mathlib.Data.List.Basic
import Ucore.Debug.Panic
import Ucore.Lib.Cmd
import Ucore.Lib.Run

/-!
# Named pipes: `pipe_root.c` and the inodes of `pipe_inode.c`

The root of the pipe file system has two names for a pipe, `r_` and `w_` before
its own name. A call holds the semaphore of the file system where it works on
the list, so that calls do not mix.
-/

namespace Ucore.Fs.Pipe

open Function
open Lib (Cmd Reachable)
open Lib.Cmd

structure PipeInode where
  name : List Char
  readonly : Bool
  state : Nat
  reclaimCount : Nat
  refCount : Nat
  deriving DecidableEq, Repr

structure PipeFs where
  pipeList : List Nat
  node : Nat → Option PipeInode
  stateRef : Nat → Nat
  rootRef : Nat
  fresh : Nat

abbrev PipeM := Cmd PipeFs Errno Panic

def pin (k : Nat) : PipeM PipeInode := do
  let s ← get
  match s.node k with
  | some p => pure p
  | none => stop .dangling

def setPin (k : Nat) (p : Option PipeInode) : PipeM Unit := modify fun s => { s with node := update s.node k p }

/-- `vop_ref_inc` in `lookup_pipe_nolock`. -/
def PipeInode.get (p : PipeInode) : PipeInode :=
  { p with refCount := p.refCount + 1, reclaimCount := if p.refCount = 0 then p.reclaimCount + 1 else p.reclaimCount }

/-- The loop of `lookup_pipe_nolock`: the ends of a pipe found so far. -/
def lookupPipe (name : List Char) : List Nat → Option Nat → Option Nat → PipeM (Option Nat × Option Nat)
  | [], rnode, wnode => pure (rnode, wnode)
  | k :: rest, rnode, wnode => do
    let p ← pin k
    if p.name ≠ name then lookupPipe name rest rnode wnode
    else if p.readonly then do
      check (rnode = none) .assertion
      setPin k (some p.get)
      lookupPipe name rest (some k) wnode
    else do
      check (wnode = none) .assertion
      setPin k (some p.get)
      lookupPipe name rest rnode (some k)

def stateAcquire (st : Nat) : PipeM Unit := do
  let s ← get
  check (0 < s.stateRef st) .assertion
  modify fun s => { s with stateRef := update s.stateRef st (s.stateRef st + 1) }

def stateRelease (st : Nat) : PipeM Unit := do
  let s ← get
  check (0 < s.stateRef st) .assertion
  modify fun s => { s with stateRef := update s.stateRef st (s.stateRef st - 1) }

/-- `pipe_inode_reclaim` of a named pipe. -/
def reclaim (k : Nat) : PipeM Unit := do
  let p ← pin k
  check (0 < p.reclaimCount) .assertion
  if p.reclaimCount - 1 ≠ 0 ∨ p.refCount ≠ 0 then do
    setPin k (some { p with reclaimCount := p.reclaimCount - 1 })
    fail .busy
  else do
    modify fun s => { s with pipeList := s.pipeList.erase k }
    stateRelease p.state
    setPin k none

def refDec (k : Nat) : PipeM Unit := do
  let p ← pin k
  check (0 < p.refCount) .assertion
  setPin k (some { p with refCount := p.refCount - 1 })
  when (p.refCount - 1 = 0) do
    let _ ← attempt (reclaim k)

def refDecOf : Option Nat → PipeM Unit
  | some k => refDec k
  | none => pure ()

def PipeName (path : List Char) : Prop := (path.head? = some 'r' ∨ path.head? = some 'w') ∧ path.tail.head? = some '_'

instance (path : List Char) : Decidable (PipeName path) := inferInstanceAs (Decidable (_ ∧ _))

def pipeEnds (path : List Char) : PipeM (Option Nat × Option Nat) := do
  let s ← get
  let r ← lookupPipe (path.drop 2) s.pipeList none none
  pure (if path.head? = some 'r' then r else (r.2, r.1))

def pipeRootLookup (path : List Char) : PipeM Nat := do
  check (PipeName path) .assertion
  let r ← pipeEnds path
  refDecOf r.2
  match r.1 with
  | some k => pure k
  | none => fail .noent

def newState : Option Nat → PipeM Nat
  | some k => do
    let p ← pin k
    stateAcquire p.state
    pure p.state
  | none => do
    let s ← get
    modify fun s => { s with stateRef := update s.stateRef s.fresh 1, fresh := s.fresh + 1 }
    pure s.fresh

/-- `pipe_create_inode`, and the new inode on the list. -/
def newPipe (name : List Char) (readonly : Bool) (st : Nat) : PipeM Nat := do
  let s ← get
  modify fun s =>
    { s with
      node := update s.node s.fresh (some { name, readonly, state := st, reclaimCount := 1, refCount := 1 })
      pipeList := s.fresh :: s.pipeList
      fresh := s.fresh + 1 }
  pure s.fresh

def pipeRootCreate (name : List Char) (excl : Bool) : PipeM Nat := do
  check (PipeName name) .assertion
  let r ← pipeEnds name
  match r.1 with
  | some k =>
    if excl then do
      refDec k
      refDecOf r.2
      fail .exist
    else do
      refDecOf r.2
      pure k
  | none => do
    let st ← newState r.2
    let k ← newPipe (name.drop 2) (decide (name.head? = some 'r')) st
    refDecOf r.2
    pure k

/-- `pipe_root_lookup_parent`, which returns the root and the whole string. -/
def pipeRootLookupParent (path : List Char) : PipeM (List Char) := do
  check (PipeName path) .assertion
  modify fun s => { s with rootRef := s.rootRef + 1 }
  pure path

inductive PipeCall
  | lookup (path : List Char)
  | create (path : List Char) (excl : Bool)
  | dup (k : Nat)
  | release (k : Nat)
  deriving DecidableEq, Repr

namespace PipeFs

def exec (s : PipeFs) (x : PipeM α) : Except Panic PipeFs := (x s).map Prod.snd

def step (s : PipeFs) : PipeCall → Except Panic PipeFs
  | .lookup path => s.exec (pipeRootLookup path)
  | .create path excl => s.exec (pipeRootCreate path excl)
  | .dup k => s.exec do
    let p ← pin k
    setPin k (some { p with refCount := p.refCount + 1 })
  | .release k => s.exec (refDec k)

def Allowed (s : PipeFs) : PipeCall → Prop
  | .lookup path | .create path _ => PipeName path
  | .dup k | .release k => k ∈ s.pipeList

def boot (rootRef : Nat) : PipeFs where
  pipeList := []
  node _ := none
  stateRef _ := 0
  rootRef := rootRef
  fresh := 0

/-- The calls on pipes do not touch the references to the root, of which there may be any
number. -/
def Reached : PipeFs → Prop := Reachable step Allowed fun s => ∃ n, s = boot n

end PipeFs

end Ucore.Fs.Pipe
