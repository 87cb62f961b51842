import Mathlib.Data.Finset.Card
import Ucore.Fs.Sfs.Owner

/-!
# Volumes

What a file system is for: files with a few attributes and a sequence of
blocks each, some of them in use by somebody. Where the blocks lie is gone.
`Inv` is what makes the view of a state as a volume possible.
-/

namespace Ucore.Fs

open Function
open Lib (Ledger)

@[ext]
structure File where
  type : FileType
  nlinks : Nat
  parent : Nat
  size : Nat
  blocks : Nat
  leaf : Nat → Option Content

@[ext] structure Core where
  removed : Bool
  refCount : Nat

def Core.idle : Core := { removed := false, refCount := 0 }

structure Vol where
  file : Nat → Option File
  core : Nat → Core

namespace File

def put (k : Nat) (c : Content) (f : File) : File :=
  { f with leaf := update f.leaf k (some c), blocks := max f.blocks (k + 1) }

def cut (n : Nat) (f : File) : File := { f with leaf := update f.leaf n none, blocks := n }

def setSize (n : Nat) (f : File) : File := { f with size := n }
def setParent (i : Nat) (f : File) : File := { f with parent := i }
def incLinks (f : File) : File := { f with nlinks := (f.nlinks + 1) % 65536 }
def decLinks (f : File) : File := { f with nlinks := f.nlinks - 1 }

@[simp] lemma put_put (f : File) : put k c' (put k c f) = put k c' f := by
  simp [put]

def new (type : FileType) : File :=
  { type, nlinks := 0, parent := 0, size := 0, blocks := 0, leaf := fun _ => none }

end File

namespace Vol

def modFile (v : Vol) (i : Nat) (g : File → File) : Vol :=
  { v with file := update v.file i ((v.file i).map g) }

def setFile (v : Vol) (i : Nat) (f : Option File) : Vol := { v with file := update v.file i f }

def setCore (v : Vol) (i : Nat) (c : Core) : Vol := { v with core := update v.core i c }

lemma ext {v w : Vol} (hf : ∀ i, v.file i = w.file i) (hc : ∀ i, v.core i = w.core i) : v = w := by
  cases v
  cases w
  simp only [mk.injEq]
  exact ⟨funext hf, funext hc⟩

@[simp] lemma modFile_core (v : Vol) : (v.modFile i g).core = v.core := rfl
@[simp] lemma setFile_core (v : Vol) : (v.setFile i f).core = v.core := rfl
@[simp] lemma setCore_file (v : Vol) : (v.setCore i c).file = v.file := rfl
@[simp] lemma modFile_file_self (v : Vol) : (v.modFile i g).file i = (v.file i).map g := update_self ..
@[simp] lemma setFile_file_self (v : Vol) : (v.setFile i f).file i = f := update_self ..
@[simp] lemma setCore_core_self (v : Vol) : (v.setCore i c).core i = c := update_self ..

lemma modFile_file_ne (v : Vol) (h : j ≠ i) : (v.modFile i g).file j = v.file j := update_of_ne h ..
lemma setFile_file_ne (v : Vol) (h : j ≠ i) : (v.setFile i f).file j = v.file j := update_of_ne h ..
lemma setCore_core_ne (v : Vol) (h : j ≠ i) : (v.setCore i c).core j = v.core j := update_of_ne h ..

lemma modFile_modFile (v : Vol) : (v.modFile i g).modFile i g' = v.modFile i (g' ∘ g) := by
  simp [modFile, Option.map_map]

lemma modFile_congr (v : Vol) (h : v.file i = some f) (hg : g f = g' f) : v.modFile i g = v.modFile i g' := by
  simp [modFile, h, hg]

lemma modFile_eq_self (v : Vol) (h : v.file i = some f) (hg : g f = f) : v.modFile i g = v := by
  have hfile : update v.file i (some (g f)) = v.file := by rw [hg, ← h, Function.update_eq_self]
  rw [modFile, h, Option.map_some, hfile]

lemma setCore_eq_self (v : Vol) (h : v.core i = c) : v.setCore i c = v := by
  rw [setCore, ← h, Function.update_eq_self]

def create (v : Vol) (i : Nat) (f : File) : Vol :=
  (v.setFile i (some f)).setCore i { removed := false, refCount := 1 }

lemma create_delete (v : Vol) (hf : v.file i = none) (hc : v.core i = .idle) :
    ((v.create i f).setFile i none).setCore i .idle = v := by
  have hfile : update v.file i none = v.file := by rw [← hf, Function.update_eq_self]
  have hcore : update v.core i .idle = v.core := by rw [← hc, Function.update_eq_self]
  simp [create, setFile, setCore, hfile, hcore]

def load (v : Vol) (i : Nat) : Vol := v.setCore i { v.core i with refCount := (v.core i).refCount + 1 }

def unref (v : Vol) (i : Nat) : Vol :=
  if (v.core i).refCount = 1 ∧ (v.file i).map File.nlinks = some 0 then (v.setFile i none).setCore i .idle
  else v.setCore i { v.core i with refCount := (v.core i).refCount - 1 }

lemma unref_last {v : Vol} (h : (v.core i).refCount = 1) (hf : v.file i = some f) (hl : f.nlinks = 0) :
    v.unref i = (v.setFile i none).setCore i .idle := by
  rw [unref, if_pos ⟨h, by simp [hf, hl]⟩]

lemma unref_linked {v : Vol} (hf : v.file i = some f) (hl : f.nlinks ≠ 0) :
    v.unref i = v.setCore i { v.core i with refCount := (v.core i).refCount - 1 } := by
  rw [unref, if_neg (by simp [hf, hl])]

lemma unref_more {v : Vol} (h : (v.core i).refCount ≠ 1) :
    v.unref i = v.setCore i { v.core i with refCount := (v.core i).refCount - 1 } := by
  rw [unref, if_neg (by simp [h])]

lemma load_unref (v : Vol) (hf : v.file i = some f) (hl : f.nlinks ≠ 0) : (v.load i).unref i = v := by
  rw [unref_linked (show (v.load i).file i = some f from hf) hl]
  simp [load, setCore]

end Vol

def Sin.core (x : Sin) : Core := { removed := x.removed, refCount := x.refCount }

namespace Sfs

def leafAt (s : Sfs) (i k : Nat) : Option Content :=
  if s.place (.part i (.leaf k)) = 0 then none else some (s.disk (s.place (.part i (.leaf k))))

def fileOf (s : Sfs) (i : Nat) (d : DiskInode) : File :=
  { type := d.type, nlinks := d.nlinks, parent := d.parent, size := d.size, blocks := d.blocks, leaf := s.leafAt i }

def vol (s : Sfs) : Vol where
  file i := (s.din i).map (s.fileOf i)
  core i := (s.node i).elim .idle Sin.core

lemma file_of_din {s : Sfs} (h : s.din i = some d) : s.vol.file i = some (s.fileOf i d) := by simp [vol, h]

lemma core_of_node {s : Sfs} (h : s.node i = some x) : s.vol.core i = x.core := by simp [vol, h]

lemma core_of_none {s : Sfs} (h : s.node i = none) : s.vol.core i = .idle := by simp [vol, h]

lemma node_of_core {s : Sfs} (h : (s.vol.core i).refCount ≠ 0) : ∃ x, s.node i = some x ∧ s.vol.core i = x.core := by
  cases hx : s.node i with
  | some x => exact ⟨x, rfl, core_of_node hx⟩
  | none => exact absurd (by rw [core_of_none hx]; rfl) h

lemma din_of_file {s : Sfs} (h : s.vol.file i = some f) : ∃ d, s.din i = some d ∧ s.fileOf i d = f := by
  simpa [vol] using h

def freeBits (s : Sfs) : Nat := ((Finset.range s.blocks).filter fun b => s.freemap b = true).card

/-- `busy` inodes may differ from their copy on the device without being dirty. -/
structure Inv (s : Sfs) (busy : Nat → Prop) : Prop where
  ledger : Ledger s.place s.used
  bits : ∀ b, s.freemap b = true → b < s.blocks ∧ ¬ Reserved s.blocks b
  unused : s.unusedBlocks = s.freeBits
  small : s.blocks ≤ 1048576
  cached : ∀ i x, s.node i = some x → s.used i = true
  mapped : ∀ i d, s.din i = some d → ∀ k, s.place (.part i (.leaf k)) ≠ 0 ↔ k < d.blocks
  synced : ∀ i x, s.node i = some x → ¬ busy i → x.dirty = false → x.din.nlinks ≠ 0 → s.disk i = .inode x.din
  counts : ∀ i x, s.node i = some x → x.reclaimCount = if x.refCount = 0 then 0 else 1
  typed : ∀ i d, s.din i = some d → d.type = .dir ∨ d.type = .file

end Sfs

end Ucore.Fs
