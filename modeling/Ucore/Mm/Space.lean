import Mathlib.Data.Multiset.Bind
import Ucore.Mm.VmmInv

/-!
# Address spaces in the abstract

What an `mm_struct` stands for is the collection of its areas; the order of the links is
no part of it.
-/

namespace Ucore.Mm

open Lib

def MmStruct.space (mm : MmStruct) : Multiset Vma := mm.areas

def Vma.Covers (v : Vma) (a : Nat) : Prop := v.vmStart ≤ a ∧ a < v.vmEnd

instance (v : Vma) (a : Nat) : Decidable (v.Covers a) := by unfold Vma.Covers; infer_instance

variable {mm : MmStruct} {v u : Vma} {a s e : Nat} {id : Nat}

lemma mem_space : v ∈ mm.space ↔ v ∈ mm.areas := Iff.rfl

lemma Inv.unique (h : Inv mm) (hu : u ∈ mm.space) (hv : v ∈ mm.space) (hua : u.Covers a) (hva : v.Covers a) : u = v := by
  have hfu := h.ordered.find_eq hu hua.1 hua.2
  rw [h.ordered.find_eq hv hva.1 hva.2] at hfu
  exact (Option.some.inj hfu).symm

def areaAt (mm : MmStruct) (a : Nat) : Option Vma :=
  ((firstAfter mm a).map mm.vma).filter fun v => decide (v.vmStart ≤ a)

lemma areaAt_eq_some (h : Inv mm) : areaAt mm a = some v ↔ v ∈ mm.space ∧ v.Covers a := by
  constructor
  · intro hv
    simp only [areaAt, Option.filter_eq_some_iff, Option.map_eq_some_iff, decide_eq_true_eq] at hv
    obtain ⟨⟨id, hid, rfl⟩, hlo⟩ := hv
    obtain ⟨hmem, hhi⟩ := firstAfter_mem hid
    exact ⟨List.mem_map_of_mem hmem, hlo, hhi⟩
  · rintro ⟨hv, hlo, hhi⟩
    obtain ⟨id, hid, rfl⟩ := List.mem_map.mp (mem_space.mp hv)
    have hf : firstAfter mm a = some id := h.ordered_ids.find_eq hid hlo hhi
    simp [areaAt, hf, hlo]

def Vma.hits (s e : Nat) (v : Vma) : Bool := decide (v.vmStart < e ∧ s < v.vmEnd)

/-- What is left of an area once `[s, e)` is unmapped. A range strictly
inside leaves a lower part that is a new structure, without the object of the
area it was split from. -/
def Vma.cut (s e : Nat) (v : Vma) : List Vma :=
  if v.hits s e then
    if v.vmStart < s ∧ e < v.vmEnd then
      [{ vmStart := v.vmStart, vmEnd := s, vmFlags := v.vmFlags }, v.resize e v.vmEnd]
    else if v.vmStart < s then [v.resize v.vmStart s]
    else if e < v.vmEnd then [v.resize e v.vmEnd]
    else []
  else [v]

def Vma.unmapEffects (s e : Nat) (v : Vma) : List Effect :=
  if v.vmStart < s ∧ e < v.vmEnd then [.unmapRange s e]
  else if v.vmStart < s then [.unmapRange s v.vmEnd]
  else if e < v.vmEnd then [.unmapRange v.vmStart e]
  else [.destroy v, .unmapRange v.vmStart v.vmEnd]

@[simp] lemma Vma.resize_start (v : Vma) : (v.resize s e).vmStart = s := rfl
@[simp] lemma Vma.resize_end (v : Vma) : (v.resize s e).vmEnd = e := rfl
@[simp] lemma Vma.resize_flags (v : Vma) : (v.resize s e).vmFlags = v.vmFlags := rfl
@[simp] lemma Vma.resize_shmem (v : Vma) : (v.resize s e).shmem = v.shmem := rfl

lemma Vma.hits_iff : v.hits s e = true ↔ v.vmStart < e ∧ s < v.vmEnd := by simp [Vma.hits]

lemma Vma.cut_of_not_hits (h : v.hits s e = false) : v.cut s e = [v] := by simp [Vma.cut, h]

lemma Vma.mem_cut_iff : u ∈ v.cut s e ↔ v.hits s e = false ∧ u = v ∨ v.hits s e = true ∧ v.vmStart < s ∧ e < v.vmEnd ∧
    u = { vmStart := v.vmStart, vmEnd := s, vmFlags := v.vmFlags } ∨
    v.hits s e = true ∧ v.vmStart < s ∧ v.vmEnd ≤ e ∧ u = v.resize v.vmStart s ∨
    v.hits s e = true ∧ e < v.vmEnd ∧ u = v.resize e v.vmEnd := by
  unfold Vma.cut
  cases hh : v.hits s e
  · simp
  · rcases Nat.lt_or_ge v.vmStart s with h1 | h1 <;> rcases Nat.lt_or_ge e v.vmEnd with h2 | h2 <;>
      simp [h1, h2, Nat.not_lt.mpr, Nat.not_le.mpr]

lemma Vma.mem_cut (h : u ∈ v.cut s e) : v.vmStart ≤ u.vmStart ∧ u.vmEnd ≤ v.vmEnd ∧
    (u.vmEnd ≤ s ∨ e ≤ u.vmStart) ∧ u.vmFlags = v.vmFlags := by
  rw [Vma.mem_cut_iff] at h
  cases hh : v.hits s e <;> simp only [hh, reduceCtorEq, false_and, true_and, false_or, or_false] at h
  · subst h
    have : ¬ (u.vmStart < e ∧ s < u.vmEnd) := by simp [← Vma.hits_iff, hh]
    exact ⟨le_rfl, le_rfl, by omega, rfl⟩
  · rw [Vma.hits_iff] at hh
    rcases h with ⟨h1, h2, rfl⟩ | ⟨h1, h2, rfl⟩ | ⟨h1, rfl⟩ <;> simp <;> omega

lemma Vma.cut_covers : (∃ u ∈ v.cut s e, u.Covers a) ↔ v.Covers a ∧ ¬ (s ≤ a ∧ a < e) := by
  constructor
  · rintro ⟨u, hu, hlo, hhi⟩
    have := Vma.mem_cut hu
    exact ⟨⟨by omega, by omega⟩, by omega⟩
  · rintro ⟨⟨hlo, hhi⟩, hout⟩
    simp only [Vma.mem_cut_iff]
    by_cases hh : v.hits s e = true
    · have := Vma.hits_iff.mp hh
      by_cases has : a < s
      · by_cases h2 : e < v.vmEnd
        · exact ⟨_, .inr (.inl ⟨hh, by omega, h2, rfl⟩), hlo, has⟩
        · exact ⟨_, .inr (.inr (.inl ⟨hh, by omega, by omega, rfl⟩)), hlo, has⟩
      · exact ⟨_, .inr (.inr (.inr ⟨hh, by omega, rfl⟩)), by simp; omega, hhi⟩
    · exact ⟨v, .inl ⟨by simpa using hh, rfl⟩, hlo, hhi⟩

end Ucore.Mm
