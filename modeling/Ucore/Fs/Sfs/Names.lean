import Ucore.Fs.Sfs.Dir
import Ucore.Fs.Sfs.Vol
import Ucore.Lib.Count

/-!
# Names

The entries of a directory as a table, and what a volume must satisfy to be a tree of
directories: the names in a directory differ, and every count in an inode is the number
of entries it stands for.
-/

namespace Ucore.Fs

open Function
open Lib (Count)

def Content.live (c : Content) : Option (Nat × Name) := if c.toEntry.1 = 0 then none else some c.toEntry

def Content.ofEntry (ino : Nat) (name : Name) : Content := if ino = 0 then .entry 0 [] else .entry ino name

@[simp] lemma Content.live_ofEntry (h : ino ≠ 0) : (ofEntry ino name).live = some (ino, name) := by
  simp [ofEntry, live, h]

@[simp] lemma Content.live_ofEntry_zero : (ofEntry 0 name).live = none := rfl

@[simp] lemma Content.asInode_ofEntry : (ofEntry ino name).asInode = none := by
  unfold ofEntry
  split <;> rfl

namespace File

variable {f f' : File} {t : Nat → Option (Nat × Name)}

def live (f : File) (k : Nat) : Option (Nat × Name) := if f.type = .dir then (f.leaf k).bind Content.live else none

/-- `sfs_dirent_search_nolock`, as a function of the entries. -/
def searchFrom (t : Nat → Option (Nat × Name)) (name : Name) : Nat → Nat → Nat → Search
  | 0, _, emptySlot => .missing emptySlot
  | n + 1, slot, emptySlot =>
    match t slot with
    | none => searchFrom t name n (slot + 1) slot
    | some (ino, entryName) => if entryName = name then .found ino slot else searchFrom t name n (slot + 1) emptySlot

def search (f : File) (name : Name) : Search := searchFrom f.live name f.blocks 0 f.blocks

lemma searchFrom_found (h : searchFrom t name n slot e = .found i k) : k < slot + n ∧ t k = some (i, name) := by
  induction n generalizing slot e with
  | zero => cases h
  | succ n ih => grind [searchFrom.eq_2]

lemma searchFrom_missing (h : searchFrom t name n slot e = .missing k) :
    (k = e ∨ k < slot + n ∧ t k = none) ∧ ∀ j i, slot ≤ j → j < slot + n → t j ≠ some (i, name) := by
  induction n generalizing slot e with
  | zero =>
    cases h
    exact ⟨.inl rfl, fun j i hj hj' => by omega⟩
  | succ n ih =>
    rw [searchFrom] at h
    cases hl : t slot with
    | none =>
      rw [hl] at h
      obtain ⟨hk, hnone⟩ := ih h
      grind
    | some entry =>
      rw [hl] at h
      dsimp only at h
      split at h
      · cases h
      obtain ⟨hk, hnone⟩ := ih h
      refine ⟨hk.imp id fun hk => ⟨by omega, hk.2⟩, fun j i hj hj' => ?_⟩
      grind

lemma search_found (h : f.search name = .found i k) : k < f.blocks ∧ f.live k = some (i, name) := by
  obtain ⟨hlt, hk⟩ := searchFrom_found h
  exact ⟨by omega, hk⟩

def Dense (f : File) : Prop := ∀ k, f.leaf k ≠ none ↔ k < f.blocks

lemma Dense.live_none (h : f.Dense) (hk : f.blocks ≤ k) : f.live k = none := by
  have hleaf : f.leaf k = none := by
    by_contra hne
    exact absurd ((h k).mp hne) (by omega)
  simp [live, hleaf]

lemma search_missing (hf : f.Dense) (h : f.search name = .missing k) :
    k ≤ f.blocks ∧ f.live k = none ∧ ∀ j i, f.live j ≠ some (i, name) := by
  obtain ⟨hk, hnone⟩ := searchFrom_missing h
  refine ⟨by omega, ?_, fun j i hj => ?_⟩
  · grind [hf.live_none]
  · by_cases hlt : j < f.blocks
    · exact hnone j i (by omega) (by omega) hj
    · rw [hf.live_none (by omega)] at hj
      cases hj

lemma live_congr (htype : f'.type = f.type) (hleaf : f'.leaf = f.leaf) : f'.live = f.live := by
  funext k
  simp [live, htype, hleaf]

@[simp] lemma live_new : (new y).live k = none := by
  unfold live
  split <;> rfl

end File

namespace Vol

variable {v : Vol}

def slot (v : Vol) (p : Nat × Nat) : Option (Nat × Name) := (v.file p.1).bind fun f => f.live p.2

def isDir (v : Vol) (i : Nat) : Bool := (v.file i).any fun f => decide (f.type = .dir)

def Refs (v : Vol) (i n : Nat) : Prop := Count v.slot (fun _ e => e.1 == i) n

def Slots (v : Vol) (d n : Nat) : Prop := Count v.slot (fun p _ => p.1 == d) n

def Subdirs (v : Vol) (d n : Nat) : Prop := Count v.slot (fun p e => p.1 == d && v.isDir e.1) n

lemma slot_of_file (h : v.file d = some f) : v.slot (d, k) = f.live k := by simp [slot, h]

lemma isDir_of_file (h : v.file i = some f) : v.isDir i = decide (f.type = .dir) := by simp [isDir, h]

lemma isDir_iff : v.isDir i = true ↔ ∃ f, v.file i = some f ∧ f.type = .dir := by
  simp [isDir, Option.any_eq_true]

def own (afloat : Option Nat) (i : Nat) : Nat := if afloat = some i then 0 else 1

/-- The volume is a tree of directories, or a graph of them that a `rename` has
made. One directory may be `afloat` in the middle of an operation: it has no
entry. -/
structure Wf (v : Vol) (afloat : Option Nat) : Prop where
  distinct : ∀ d k k' i i' n, v.slot (d, k) = some (i, n) → v.slot (d, k') = some (i', n) → k = k'
  plain : ∀ p i n, v.slot p = some (i, n) → n ≠ dot ∧ n ≠ dotdot ∧ n.length ≤ maxFnameLen
  target : ∀ p i n, v.slot p = some (i, n) → i ≠ blknRoot ∧ ∃ f, v.file i = some f
  parent : ∀ d k i n f, v.slot (d, k) = some (i, n) → v.file i = some f → f.type = .dir → f.parent = d
  slots : ∀ d f, v.file d = some f → f.type = .dir → v.Slots d f.size
  fileRefs : ∀ i f, v.file i = some f → f.type ≠ .dir → v.Refs i f.nlinks
  dirRefs : ∀ i f, v.file i = some f → f.type = .dir → (v.core i).removed = false → i ≠ blknRoot → v.Refs i (own afloat i)
  dirLinks : ∀ i f, v.file i = some f → f.type = .dir → (v.core i).removed = false →
    ∃ n, v.Subdirs i n ∧ f.nlinks = n + 1 + own afloat i
  removed : ∀ i, (v.core i).removed = true → ∃ f, v.file i = some f ∧ f.type = .dir ∧
    f.nlinks = 0 ∧ f.size = 0 ∧ v.Refs i 0
  unlinked : ∀ i f, v.file i = some f → f.nlinks = 0 → (v.core i).refCount ≠ 0
  idle : ∀ i, v.file i = none → v.core i = .idle
  coded : ∀ d f k c, v.file d = some f → f.type = .dir → f.leaf k = some c → ∃ i n, c = .ofEntry i n
  root : ∃ f, v.file blknRoot = some f ∧ f.type = .dir ∧ f.parent = blknRoot ∧ (v.core blknRoot).removed = false
  rooted : afloat ≠ some blknRoot

end Vol

end Ucore.Fs
