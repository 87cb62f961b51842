import Ucore.Lib.Run
import Ucore.Mm.VmmOps

/-!
# Every sequence of operations on address spaces

The system is a set of address spaces, each at a number; an operation works on one of
them, and a fork copies one into a new one.
-/

namespace Ucore.Mm

open Lib
open Libs.RbTree (Holds)

abbrev Spaces := Nat → Option MmStruct

inductive AreaOp where
  | mmCreate (i : Nat)
  | mmMap (i addr len : Nat) (vmFlags : VmFlags)
  | mmMapShmem (i addr : Nat) (vmFlags : VmFlags) (shmem len : Nat)
  | mmUnmap (i addr len : Nat)
  | mmBrk (i addr len : Nat)
  /-- `copy_mm`: the address space at `j` is created and filled from `i`. -/
  | dupMmap (i j : Nat) (copied : Vma → Bool)
  | findVma (i addr : Nat)

def Spaces.set (s : Spaces) (i : Nat) (mm : MmStruct) : Spaces :=
  fun j => if j = i then some mm else s j

def Spaces.on (s : Spaces) (i : Nat) (op : MmStruct → Except Panic MmStruct) : Except Panic Spaces :=
  match s i with
  | none => .ok s
  | some mm => do return s.set i (← op mm)

def areaStep (ok : Nat → Bool) (s : Spaces) : AreaOp → Except Panic Spaces
  | .mmCreate i => .ok (s.set i Mm.mmCreate)
  | .mmMap i addr len f => s.on i fun mm => do return (← Mm.mmMap ok mm addr len f).2
  | .mmMapShmem i addr f shmem len => s.on i fun mm => do
    return (← Mm.mmMapShmem ok mm addr f shmem len).2
  | .mmUnmap i addr len => s.on i fun mm => do return (← Mm.mmUnmap ok mm addr len).2.1
  | .mmBrk i addr len => s.on i fun mm => do return (← Mm.mmBrk ok mm addr len).2.1
  | .dupMmap i j copied => match s i with
    | none => .ok s
    | some mm => do return s.set j (← Mm.dupMmap ok copied Mm.mmCreate mm).2
  | .findVma i addr => s.on i fun mm => do return (← Mm.findVma mm addr).2

def Spaces.Inv (s : Spaces) : Prop := ∀ i mm, s i = some mm → Mm.Inv mm

variable {s : Spaces} {mm : MmStruct} {i : Nat}

lemma Spaces.Inv.set (h : s.Inv) (hm : Mm.Inv mm) : (s.set i mm).Inv := by
  grind [Spaces.set, Inv]

lemma Spaces.on_ok {op : MmStruct → Except Panic MmStruct} (h : s.Inv)
    (hop : ∀ mm, Mm.Inv mm → ∃ mm', op mm = .ok mm' ∧ Mm.Inv mm') :
    ∃ s', s.on i op = .ok s' ∧ s'.Inv := by
  rw [Spaces.on]
  cases hi : s i with
  | none => exact ⟨s, rfl, h⟩
  | some mm =>
    obtain ⟨mm', hmm', hinv⟩ := hop mm (h i mm hi)
    exact ⟨s.set i mm', by simp [hmm', bind, Except.bind, pure, Except.pure], h.set hinv⟩

lemma dupMmap_inv {src : MmStruct} (h : Mm.Inv src) (ok : Nat → Bool) (copied : Vma → Bool) :
    ∃ r mm', dupMmap ok copied mmCreate src = .ok (r, mm') ∧ Mm.Inv mm' := by
  obtain ⟨r, mm', done, rest, hloop, hinv, -⟩ :=
    dupLoop_ok (l := src.areas.reverse) mmCreate_inv ok copied (by simpa using h.ok)
    (List.pairwise_reverse.mpr (h.ordered.apart.imp Lib.Apart.symm))
    (by simp [MmStruct.space, MmStruct.areas, mmCreate])
  exact ⟨r, mm', hloop, hinv⟩

lemma areaStep_ok (ok : Nat → Bool) (op : AreaOp) (h : s.Inv) : ∃ s', areaStep ok s op = .ok s' ∧ s'.Inv := by
  cases op with
  | mmCreate i => exact ⟨_, rfl, h.set mmCreate_inv⟩
  | mmMap i addr len f =>
    refine Spaces.on_ok h fun mm hm => ?_
    obtain ⟨r, mm', hmm', hinv, -⟩ := mmMap_ok hm ok addr len f
    exact ⟨mm', by simp [hmm', bind, Except.bind, pure, Except.pure], hinv⟩
  | mmMapShmem i addr f shmem len =>
    refine Spaces.on_ok h fun mm hm => ?_
    obtain ⟨r, mm', hmm', hinv, -⟩ := mmMapShmem_ok hm ok addr f shmem len
    exact ⟨mm', by simp [hmm', bind, Except.bind, pure, Except.pure], hinv⟩
  | mmUnmap i addr len =>
    refine Spaces.on_ok h fun mm hm => ?_
    obtain ⟨r, mm', eff, hmm', hinv, -⟩ := mmUnmap_ok hm ok addr len
    exact ⟨mm', by simp [hmm', bind, Except.bind, pure, Except.pure], hinv⟩
  | mmBrk i addr len =>
    refine Spaces.on_ok h fun mm hm => ?_
    obtain ⟨r, mm', eff, hmm', hinv, -⟩ := mmBrk_ok hm ok addr len
    exact ⟨mm', by simp [hmm', bind, Except.bind, pure, Except.pure], hinv⟩
  | dupMmap i j copied =>
    simp only [areaStep]
    cases hi : s i with
    | none => exact ⟨s, rfl, h⟩
    | some mm =>
      obtain ⟨r, mm', hdup, hinv⟩ := dupMmap_inv (h i mm hi) ok copied
      exact ⟨s.set j mm', by simp [hdup, bind, Except.bind, pure, Except.pure], h.set hinv⟩
  | findVma i addr =>
    refine Spaces.on_ok h fun mm hm => ?_
    obtain ⟨c, hfind, hinv⟩ := findVma_ok hm addr
    exact ⟨_, by simp only [hfind, bind, Except.bind]; rfl, hinv⟩

/-- Any sequence of operations runs without a failed assertion, whichever allocations
fail, and leaves areas that are in order, apart and counted. -/
theorem areas_wellFormed (ops : List ((Nat → Bool) × AreaOp)) :
    ∃ s, run (fun s op => areaStep op.1 s op.2) (fun _ => none) ops = .ok s ∧ ∀ i mm, s i = some mm →
    mm.areas.Pairwise (fun u v => u.vmStart < v.vmStart) ∧
    mm.areas.Pairwise (fun u v => u.vmEnd ≤ v.vmStart) ∧
    (∀ v ∈ mm.areas, v.vmStart < v.vmEnd ∧ v.vmStart % pgSize = 0 ∧ v.vmEnd % pgSize = 0 ∧
    userBase ≤ v.vmStart ∧ v.vmEnd ≤ userTop) ∧
    mm.mapCount = mm.mmapList.length ∧
    (∀ t, mm.mmapTree = some t → ∃ tree, Holds t tree ∧ tree.toList = mm.mmapList) ∧
    ∀ id, mm.mmapCache = some id → id ∈ mm.mmapList := by
  have hinit : Spaces.Inv fun _ => none := by simp [Spaces.Inv]
  obtain ⟨s, hs, hinv⟩ := run_ok hinit (fun s op h => areaStep_ok op.1 op.2 h) ops
  refine ⟨s, hs, fun i mm hi => ?_⟩
  have h := hinv i mm hi
  refine ⟨?_, h.ordered, fun v hv => ?_, h.count, h.tree, h.cache⟩
  · exact List.pairwise_map.mpr h.increasing
  · have hok := h.ok v hv
    exact ⟨hok.lt, hok.start, hok.stop, hok.base, hok.top⟩

end Ucore.Mm
