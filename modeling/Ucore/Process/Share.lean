import Ucore.Lib.Run
import Ucore.Lib.Safe
import Ucore.Lib.Total
import Ucore.Process.Brk

/-!
# Shared memory: the areas of several processes and the objects they show

The calls of `process/proc.c` that take and drop references to the objects of
`mm/shmem.c`, over all address spaces at once. Page tables and the entries of
an object are left out; `copied` says for which areas `copy_range` succeeds.
-/

namespace Ucore.Process

open Mm Lib

structure ShmemStruct where
  len : Nat
  /-- An `int` in the source. References are held by areas, which are fewer than `2 ^ 31`. -/
  ref : Int
  deriving DecidableEq, Repr

structure Sys where
  mms : Nat → Option MmStruct
  shmem : Nat → Option ShmemStruct
  fresh : Nat

def Sys.setMm (s : Sys) (i : Nat) (mm : Option MmStruct) : Sys :=
  { s with mms := Function.update s.mms i mm }

@[simp] def Sys.setShmem (s : Sys) (o : Nat) (shmem : Option ShmemStruct) : Sys :=
  { s with shmem := Function.update s.shmem o shmem }

def deref : Option Nat → Except Panic Nat
  | none => .error .nullShmem
  | some o => .ok o

/-- `atomic_add_return` on the count of an object. -/
def Sys.refAdd (s : Sys) (o : Nat) (d : Int) : Except Panic (Int × Sys) :=
  match s.shmem o with
  | none => .error .nullShmem
  | some obj => .ok (obj.ref + d, s.setShmem o (some { obj with ref := obj.ref + d }))

def Sys.shmemRefInc (s : Sys) (o : Nat) : Except Panic (Int × Sys) := s.refAdd o 1

def Sys.shmemRefDec (s : Sys) (o : Nat) : Except Panic (Int × Sys) := s.refAdd o (-1)

def Sys.shmemCreate (s : Sys) (len : Nat) : Nat × Sys :=
  (s.fresh, { s.setShmem s.fresh (some ⟨len, 0⟩) with fresh := s.fresh + 1 })

def Sys.shmemDestroy (s : Sys) (o : Nat) : Sys := s.setShmem o none

def vmaDestroy (s : Sys) (vma : Vma) : Except Panic Sys :=
  if vma.vmFlags.share then do
    let shmem ← deref vma.shmem
    let (ref, s) ← s.shmemRefDec shmem
    return if ref = 0 then s.shmemDestroy shmem else s
  else .ok s

def runEffect (s : Sys) : Effect → Except Panic Sys
  | .unmapRange _ _ => .ok s
  | .destroy vma => vmaDestroy s vma

def Sys.munmap (ok : Nat → Bool) (s : Sys) (i addr len : Nat) : Except Panic Sys :=
  match s.mms i with
  | none => .ok s
  | some mm => do
    let (_, mm, effects) ← mmUnmap ok mm addr len
    effects.foldlM runEffect (s.setMm i (some mm))

def Sys.mmap (ok : Nat → Bool) (s : Sys) (i addr len : Nat) (vmFlags : VmFlags) : Except Panic Sys :=
  match s.mms i with
  | none => .ok s
  | some mm => do
    let (_, mm) ← mmMap ok mm addr len vmFlags
    return s.setMm i (some mm)

/-- `mm_map_shmem` with the reference it takes and, on failure, drops. -/
def Sys.mapShmem (ok : Nat → Bool) (s : Sys) (mm : MmStruct) (addr : Nat) (vmFlags : VmFlags)
    (shmem len : Nat) : Except Panic (Except Errno Unit × MmStruct × Sys) :=
  if addr % pgSize ≠ 0 then .ok (.error .inval, mm, s)
  else do
    let (_, s) ← s.shmemRefInc shmem
    match ← mmMapShmem ok mm addr vmFlags shmem len with
    | (.error e, mm) => do
      let (_, s) ← s.shmemRefDec shmem
      return (.error e, mm, s)
    | (.ok (), mm) => return (.ok (), mm, s)

/-- `do_shmem` from `shmem_create` on. -/
def Sys.attach (ok : Nat → Bool) (s : Sys) (i : Nat) (mm : MmStruct) (addr len : Nat)
    (vmFlags : VmFlags) : Except Panic Sys := do
  let (shmem, s) := s.shmemCreate len
  match ← s.mapShmem ok mm addr vmFlags shmem len with
  | (.ok (), mm, s) => return s.setMm i (some mm)
  | (.error _, mm, s) => match s.shmem shmem with
    | some ⟨_, 0⟩ => return (s.shmemDestroy shmem).setMm i (some mm)
    | _ => .error .assertion

/-- `do_shmem`; `created` says whether `shmem_create` succeeds. -/
def Sys.doShmem (ok : Nat → Bool) (created : Bool) (s : Sys) (i addrStore addr len : Nat)
    (write stack : Bool) : Except Panic Sys :=
  match s.mms i with
  | none => .ok s
  | some mm =>
    if addrStore = 0 ∨ len = 0 then .ok s
    else do
      match ← userMemCheck mm addrStore sizeofWord true with
      | (false, mm) => return s.setMm i (some mm)
      | (true, mm) => match mmapRange mm addr len, created with
        | some (addr, len), true => s.attach ok i mm addr len (mmapFlags write stack)
        | _, _ => return s.setMm i (some mm)

def Sys.dupArea (ok : Nat → Bool) (s : Sys) (dst : MmStruct) (vma : Vma) :
    Except Panic (Except Errno Unit × MmStruct × Sys) := do
  match ← dupVma ok dst vma with
  | (.error e, dst) => return (.error e, dst, s)
  | (.ok (), dst) =>
    if vma.vmFlags.share then do
      let (_, s) ← s.shmemRefInc (← deref vma.shmem)
      return (.ok (), dst, s)
    else return (.ok (), dst, s)

def Sys.dupAreas (ok : Nat → Bool) (copied : Vma → Bool) :
    List Vma → MmStruct → Sys → Except Panic (Except Errno Unit × MmStruct × Sys)
  | [], dst, s => .ok (.ok (), dst, s)
  | vma :: rest, dst, s => do
    match ← s.dupArea ok dst vma with
    | (.error e, dst, s) => return (.error e, dst, s)
    | (.ok (), dst, s) => if copied vma then Sys.dupAreas ok copied rest dst s else return (.error .noMem, dst, s)

def Sys.mmDestroy (s : Sys) (mm : MmStruct) : Except Panic Sys := mm.areas.foldlM vmaDestroy s

/-- `copy_mm` without `CLONE_VM`, from `i` into the free place `j`. -/
def Sys.copyMm (ok : Nat → Bool) (copied : Vma → Bool) (s : Sys) (i j : Nat) : Except Panic Sys :=
  match s.mms i, s.mms j with
  | some oldmm, none => do
    match ← Sys.dupAreas ok copied oldmm.areas.reverse mmCreate s with
    | (.ok (), mm, s) => return s.setMm j (some { mm with brkStart := oldmm.brkStart, brk := oldmm.brk })
    | (.error _, mm, s) => s.mmDestroy mm
  | _, _ => .ok s

def Sys.exitMm (s : Sys) (i : Nat) : Except Panic Sys :=
  match s.mms i with
  | none => .ok s
  | some mm => (s.setMm i none).mmDestroy mm

inductive ShareOp where
  | create (i : Nat)
  | mmap (i addr len : Nat) (vmFlags : VmFlags)
  | shmem (created : Bool) (i addrStore addr len : Nat) (write stack : Bool)
  | munmap (i addr len : Nat)
  | fork (copied : Vma → Bool) (i j : Nat)
  | exit (i : Nat)

def Sys.step (ok : Nat → Bool) (s : Sys) : ShareOp → Except Panic Sys
  | .create i => .ok (if (s.mms i).isNone then s.setMm i (some mmCreate) else s)
  | .mmap i addr len f => s.mmap ok i addr len f
  | .shmem created i addrStore addr len write stack => s.doShmem ok created i addrStore addr len write stack
  | .munmap i addr len => s.munmap ok i addr len
  | .fork copied i j => s.copyMm ok copied i j
  | .exit i => s.exitMm i

end Ucore.Process
