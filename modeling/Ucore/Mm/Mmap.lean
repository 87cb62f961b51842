import Ucore.Mm.UserMem

/-!
# Looking areas up, finding room for one, and taking a range away

What `find_vma`, `get_unmapped_area` and `mm_unmap` do, in terms of the addresses that
the areas cover.
-/

namespace Ucore.Mm

open Lib

variable {mm mm' : MmStruct} {v u : Vma} {a s e start len addr : Nat} {id : Nat}

/-- `id` is the area with the lowest start among those that end after `addr`. -/
structure LowestAfter (mm : MmStruct) (addr id : Nat) : Prop where
  mem : id ∈ mm.mmapList
  after : addr < (mm.vma id).vmEnd
  lowest : ∀ j ∈ mm.mmapList, addr < (mm.vma j).vmEnd → (mm.vma id).vmStart ≤ (mm.vma j).vmStart

lemma lowestAfter_of_firstAfter (h : Inv mm) (hf : firstAfter mm addr = some id) :
    LowestAfter mm addr id := by
  obtain ⟨hafter, l, r, hl, hbefore⟩ := List.find?_eq_some_iff_append.mp hf
  refine ⟨by simp [hl], by simpa using hafter, fun j hj hja => ?_⟩
  have hinc := h.increasing
  rw [hl] at hj hinc
  rcases List.mem_append.mp hj with hj | hj
  · -- an earlier one would have been taken
    simpa [hja] using hbefore j hj
  rcases List.mem_cons.mp hj with rfl | hj
  · exact le_rfl
  · exact Nat.le_of_lt ((List.pairwise_cons.mp (List.pairwise_append.mp hinc).2.1).1 j hj)

/-- `find_vma` returns the lowest area after the address, whatever the cache
holds and whether or not there is a tree. -/
theorem findVma_lowest (h : Inv mm) (addr : Nat) : ∃ r, (∀ mm', Inv mm' → mm'.mmapList = mm.mmapList → mm'.vma = mm.vma →
        ∃ c, findVma mm' addr = .ok (r, { mm' with mmapCache := c })) ∧
      match r with
      | none => ∀ j ∈ mm.mmapList, (mm.vma j).vmEnd ≤ addr
      | some id => LowestAfter mm addr id := by
  refine ⟨firstAfter mm addr, fun mm' h' hl hv => ?_, ?_⟩
  · obtain ⟨c, hfind, -⟩ := findVma_ok h' addr
    have hsame : firstAfter mm' addr = firstAfter mm addr := by rw [firstAfter, firstAfter, hl, hv]
    exact ⟨c, hsame ▸ hfind⟩
  · cases hf : firstAfter mm addr with
    | none => simpa [firstAfter] using hf
    | some id => exact lowestAfter_of_firstAfter h hf

/-- Three areas with a gap after each; the address is in the first gap. -/
theorem findVma_lowest_gap : LowestAfter (pagesFrom 0x3000 3) 0x1001008 1 ∧
    ∀ v ∈ (pagesFrom 0x3000 3).space, ¬ v.Covers 0x1001008 := by
  obtain ⟨r, hfind, hr⟩ := findVma_lowest (pagesFrom_inv 0x3000 3) 0x1001008
  obtain ⟨c, hc⟩ := hfind _ (pagesFrom_inv 0x3000 3) rfl rfl
  obtain ⟨rfl, -⟩ := Prod.mk.inj (Except.ok.inj hc)
  exact ⟨hr, by decide +kernel⟩

def Fits (mm : MmStruct) (len s : Nat) : Prop :=
  userBase ≤ s ∧ s + len ≤ userTop ∧ ∀ v ∈ mm.space, v.hits s (s + len) = false

def HighestOrZero (P : Nat → Prop) (r : Nat) : Prop :=
  (r = 0 ∧ ∀ s, ¬ P s) ∨ (P r ∧ ∀ s, P s → s ≤ r)

lemma HighestOrZero.congr {P Q : Nat → Prop} {r : Nat} (hPQ : ∀ s, P s ↔ Q s)
    (h : HighestOrZero P r) : HighestOrZero Q r := by
  simpa only [HighestOrZero, hPQ] using h

lemma unmappedLoop_ok {l : List Vma} (hok : ∀ v ∈ l, v.Ok)
    (hord : l.Pairwise fun v u => u.vmEnd ≤ v.vmStart) (htop : start + len ≤ userTop) :
    HighestOrZero (fun s => userBase ≤ s ∧ s ≤ start ∧ ∀ v ∈ l, v.hits s (s + len) = false)
    (unmappedLoop len l start) := by
  induction l generalizing start with
  | nil =>
    rw [unmappedLoop]
    by_cases hs : userBase ≤ start
    · rw [if_pos hs]
      exact .inr ⟨⟨hs, le_rfl, by simp⟩, fun s h => h.2.1⟩
    · rw [if_neg hs]
      exact .inl ⟨rfl, fun s h => hs (Nat.le_trans h.1 h.2.1)⟩
  | cons v l ih =>
    simp only [List.mem_cons, forall_eq_or_imp, List.pairwise_cons] at hok hord
    have hlt := hok.1.lt
    have hbase := hok.1.base
    rw [unmappedLoop, addWrap, Nat.mod_eq_of_lt (lt_wordSize htop)]
    by_cases h1 : v.vmEnd ≤ start
    · -- above this area, and so above all that remain
      rw [if_pos h1]
      refine .inr ⟨⟨by omega, le_rfl, fun u hu => ?_⟩, fun s h => h.2.1⟩
      rcases List.mem_cons.mp hu with rfl | hu
      · exact not_hits_of_le (.inl h1)
      · have := hord.1 u hu
        exact not_hits_of_le (.inl (by omega))
    rw [if_neg h1]
    have hmiss (s : Nat) (hs : s ≤ start) : v.hits s (s + len) = false ↔ s + len ≤ v.vmStart := by
      rw [← Bool.not_eq_true, Vma.hits_iff]
      omega
    by_cases h2 : start + len > v.vmStart
    · rw [if_pos h2]
      by_cases h3 : v.vmStart ≤ len
      · rw [if_pos h3]
        refine .inl ⟨rfl, fun s h => ?_⟩
        have hle := (hmiss s h.2.1).mp (h.2.2 v (.head _))
        have hpos : 0 < userBase := by decide
        omega
      rw [if_neg h3]
      refine (ih hok.2 hord.2 (by omega)).congr fun s => ?_
      simp only [List.mem_cons, forall_eq_or_imp]
      constructor
      · rintro ⟨hb, hs, hrest⟩
        exact ⟨hb, by omega, (hmiss s (by omega)).mpr (by omega), hrest⟩
      · rintro ⟨hb, hs, hv, hrest⟩
        have := (hmiss s hs).mp hv
        exact ⟨hb, by omega, hrest⟩
    · rw [if_neg h2]
      refine (ih hok.2 hord.2 htop).congr fun s => ?_
      simp only [List.mem_cons, forall_eq_or_imp]
      constructor
      · rintro ⟨hb, hs, hrest⟩
        exact ⟨hb, hs, (hmiss s hs).mpr (by omega), hrest⟩
      · rintro ⟨hb, hs, -, hrest⟩
        exact ⟨hb, hs, hrest⟩

lemma getUnmappedArea_ok (h : Inv mm) (hlen : 0 < len) : HighestOrZero (Fits mm len) (getUnmappedArea mm len) := by
  rw [getUnmappedArea]
  by_cases htop : userTop < len
  · rw [if_pos (.inr htop)]
    exact .inl ⟨rfl, fun s h => by have := h.2.1; omega⟩
  rw [if_neg (by omega)]
  refine (unmappedLoop_ok (fun v hv => h.ok v (List.mem_reverse.mp hv))
    (List.pairwise_reverse.mpr h.ordered) (by omega)).congr fun s => ?_
  simp only [Fits, List.mem_reverse, mem_space]
  exact ⟨fun h => ⟨h.1, by omega, h.2.2⟩, fun h => ⟨h.1, by omega, h.2.2⟩⟩

/-- `get_unmapped_area` returns the highest place where the length fits, and
zero exactly when there is none. -/
theorem getUnmappedArea_highest (h : Inv mm) (hlen : 0 < len) : (getUnmappedArea mm len = 0 ↔ ¬ ∃ s, Fits mm len s) ∧
    (getUnmappedArea mm len ≠ 0 → Fits mm len (getUnmappedArea mm len) ∧ ∀ s, Fits mm len s →
    s ≤ getUnmappedArea mm len) := by
  rcases getUnmappedArea_ok h hlen with ⟨hz, hnone⟩ | ⟨hfit, hmax⟩
  · exact ⟨iff_of_true hz (not_exists.mpr hnone), fun hn => absurd hz hn⟩
  have hpos : getUnmappedArea mm len ≠ 0 := fun hz => by
    have := hfit.1
    rw [hz] at this
    exact absurd this (by decide)
  exact ⟨iff_of_false hpos fun hno => hno ⟨_, hfit⟩, fun _ => ⟨hfit, hmax⟩⟩

theorem getUnmappedArea_page : Fits onePage 0x1000 (userTop - 0x1000) :=
  ((getUnmappedArea_highest onePage_inv (by decide)).2 (by decide)).1

def Effect.unmapped : Effect → Option (Nat × Nat)
  | .unmapRange s e => some (s, e)
  | _ => none

def Vma.clip (s e : Nat) (v : Vma) : Nat × Nat := (max v.vmStart s, min v.vmEnd e)

lemma Vma.unmapped_unmapEffects (v : Vma) : (v.unmapEffects s e).filterMap Effect.unmapped = [v.clip s e] := by
  unfold Vma.unmapEffects Vma.clip
  rcases Nat.lt_or_ge v.vmStart s with h1 | h1 <;> rcases Nat.lt_or_ge e v.vmEnd with h2 | h2 <;>
    simp [List.filterMap_cons, Effect.unmapped, Nat.not_lt.mpr, Nat.le_of_lt, h1, h2]

lemma Unmapped.calls {eff : List Effect} (h : Unmapped mm mm' s e eff) :
    eff.filterMap Effect.unmapped = (mm.areas.filter (Vma.hits s e)).reverse.map (Vma.clip s e) := by
  rw [h.effects, List.filterMap_flatMap, List.map_eq_flatMap]
  exact List.flatMap_congr fun v _ => v.unmapped_unmapEffects

lemma Unmapped.covers {eff : List Effect} (h : Unmapped mm mm' s e eff) :
    (∃ u ∈ mm'.space, u.Covers a) ↔ (∃ v ∈ mm.space, v.Covers a) ∧ ¬ (s ≤ a ∧ a < e) := by
  simp only [h.space, Multiset.mem_coe, List.mem_flatMap, mem_space]
  constructor
  · rintro ⟨u, ⟨v, hv, hu⟩, hua⟩
    have hcut := Vma.cut_covers.mp ⟨u, hu, hua⟩
    exact ⟨⟨v, hv, hcut.1⟩, hcut.2⟩
  · rintro ⟨⟨v, hv, hva⟩, hout⟩
    obtain ⟨u, hu, hua⟩ := Vma.cut_covers.mpr ⟨hva, hout⟩
    exact ⟨u, ⟨v, hv, hu⟩, hua⟩

/-- A successful `mm_unmap` takes away exactly the page-rounded range, and calls
`unmap_range` on disjoint ranges that make up what was covered of it. -/
theorem mmUnmap_exact (h : Inv mm) (ok : Nat → Bool) (addr len : Nat) (hwrap : addr + len < wordSize)
    {eff : List Effect} (hun : mmUnmap ok mm addr len = .ok (.ok (), mm', eff)) :
    let s := roundDown addr
    let e := roundUp (addr + len)
    let calls := eff.filterMap Effect.unmapped
    (∀ a, (∃ u ∈ mm'.space, u.Covers a) ↔ (∃ v ∈ mm.space, v.Covers a) ∧ ¬ (s ≤ a ∧ a < e)) ∧
      (∀ a, ∀ v ∈ mm.space, v.Covers a → ¬ (s ≤ a ∧ a < e) → ∃ u ∈ mm'.space, u.Covers a ∧ u.vmFlags = v.vmFlags) ∧
      calls.Pairwise (fun p q => p.2 ≤ q.1 ∨ q.2 ≤ p.1) ∧
      ∀ a, (∃ p ∈ calls, p.1 ≤ a ∧ a < p.2) ↔ (∃ v ∈ mm.space, v.Covers a) ∧ s ≤ a ∧ a < e := by
  obtain ⟨r, mm'', eff', hun', -, -, hr⟩ := mmUnmap_ok h ok addr len
  rw [hun] at hun'
  obtain ⟨rfl, rfl, rfl⟩ : r = .ok () ∧ mm'' = mm' ∧ eff' = eff := by simpa [eq_comm] using hun'
  obtain ⟨hua, -, hdone⟩ := hr
  rw [addWrap, Nat.mod_eq_of_lt hwrap] at hua hdone
  refine ⟨fun a => hdone.covers, fun a v hv hva hout => ?_, ?_, fun a => ?_⟩
  · obtain ⟨u, hu, hcov⟩ := Vma.cut_covers.mpr ⟨hva, hout⟩
    refine ⟨u, ?_, hcov, (Vma.mem_cut hu).2.2.2⟩
    rw [hdone.space]
    exact List.mem_flatMap.mpr ⟨v, hv, hu⟩
  · rw [hdone.calls, List.pairwise_map, List.pairwise_reverse]
    refine (List.Pairwise.filter _ h.ordered).imp fun hvu => .inr ?_
    simp only [Vma.clip]
    omega
  · rw [hdone.calls]
    simp only [List.mem_map, List.mem_reverse, List.mem_filter, Vma.hits_iff, mem_space, Vma.Covers]
    constructor
    · rintro ⟨p, ⟨v, ⟨hv, hh⟩, rfl⟩, hp1, hp2⟩
      simp only [Vma.clip] at hp1 hp2
      exact ⟨⟨v, hv, by omega, by omega⟩, by omega, by omega⟩
    · rintro ⟨⟨v, hv, hva⟩, hs, he⟩
      refine ⟨_, ⟨v, ⟨hv, by omega, by omega⟩, rfl⟩, ?_, ?_⟩ <;> simp only [Vma.clip] <;> omega

theorem mmUnmap_page : ∃ mm' eff, mmUnmap (fun _ => true) onePage 0x1000000 0x1000 = .ok (.ok (), mm', eff) ∧
    ¬ ∃ u ∈ mm'.space, u.Covers 0x1000008 := by
  refine ⟨_, _, rfl, fun hcov => ?_⟩
  have := (mmUnmap_exact onePage_inv (fun _ => true) 0x1000000 0x1000 (by decide) rfl).1 0x1000008
  exact (this.mp hcov).2 (by decide)

/-- Unmapping what was mapped cannot fail, whatever memory there is, and restores the
areas. -/
theorem mmMap_mmUnmap {ok : Nat → Bool} {f : VmFlags} (h : Inv mm) (ok' : Nat → Bool)
    (hmap : mmMap ok mm addr len f = .ok (.ok id, mm')) :
    ∃ mm'' eff, mmUnmap ok' mm' addr len = .ok (.ok (), mm'', eff) ∧ Inv mm'' ∧ mm''.space = mm.space := by
  obtain ⟨r, mm1, hr, h', -, hnew⟩ := mmMap_ok h ok addr len f
  cases hmap.symm.trans hr
  obtain ⟨hua, hap, hsp, -, -⟩ := hnew
  have hlt := (userAccess_iff.mp hua).2.1
  simp only at hlt
  obtain ⟨r, mm'', eff, hun, hinv, -, hout⟩ := mmUnmap_ok h' ok' addr len
  cases r with
  | error e =>
    -- the new area is the range itself, and every other area lies outside
    obtain ⟨-, u, hu, hlo, hhi⟩ := hout.1 hua
    rw [hsp, Multiset.mem_cons] at hu
    obtain rfl | hu := hu
    · exact absurd hlo (Nat.lt_irrefl _)
    have hu' := hap u hu
    simp only [Vma.Apart, Lib.Apart] at hu'
    omega
  | ok =>
    obtain ⟨-, -, hcut⟩ := hout
    refine ⟨mm'', eff, hun, hinv, hcut.space.trans ?_⟩
    have hperm := (Multiset.coe_eq_coe.mp hsp).flatMap_right (Vma.cut (roundDown addr) (roundUp (addWrap addr len)))
    have hgone : Vma.cut (roundDown addr) (roundUp (addWrap addr len))
        ⟨roundDown addr, roundUp (addWrap addr len), { f with share := false }, none, 0⟩ = [] := by
      simp [Vma.cut, Vma.hits, hlt]
    rw [Multiset.coe_eq_coe.mpr hperm, List.flatMap_cons, hgone, List.nil_append, flatMap_cut fun u hu => ?_]
    · rfl
    · exact not_hits_of_le (hap u hu).symm

theorem mmMap_mmUnmap_page : ∃ id mm', mmMap (fun _ => true) onePage 0x2000000 0x1000 {} = .ok (.ok id, mm') ∧
    ∃ mm'' eff, mmUnmap (fun _ => false) mm' 0x2000000 0x1000 = .ok (.ok (), mm'', eff) ∧
    mm''.space = onePage.space := by
  obtain ⟨mm'', eff, hun, -, hsp⟩ := mmMap_mmUnmap onePage_inv (fun _ => false)
    (show mmMap (fun _ => true) onePage 0x2000000 0x1000 {} = .ok (.ok _, _) from rfl)
  exact ⟨_, _, rfl, mm'', eff, hun, hsp⟩

/-- `fork` gives the child the areas of its parent, or fails. -/
theorem dupMmap_copies {src : MmStruct} (h : Inv src) (ok : Nat → Bool) (copied : Vma → Bool) :
    ∃ r mm', dupMmap ok copied mmCreate src = .ok (r, mm') ∧ Inv mm' ∧ mm'.space ≤ src.space.map Vma.dup ∧
    (r = .ok () → mm'.space = src.space.map Vma.dup) := by
  obtain ⟨r, mm', done, rest, hloop, hinv, -, hl, hsp, hr⟩ := dupLoop_ok (l := src.areas.reverse) mmCreate_inv ok
    copied (by simpa using h.ok) (List.pairwise_reverse.mpr (h.ordered.apart.imp fun h => Lib.Apart.symm h))
    (by simp [MmStruct.space, MmStruct.areas, mmCreate])
  have hall : src.space.map Vma.dup = (done.map Vma.dup : List Vma) + (rest.map Vma.dup : List Vma) := by
    rw [Multiset.coe_add, ← List.map_append, ← hl, MmStruct.space, Multiset.map_coe, Multiset.coe_eq_coe]
    exact ((List.reverse_perm _).map _).symm
  have hnew : mm'.space = (done.map Vma.dup : List Vma) := hsp.trans (add_zero _)
  refine ⟨r, mm', hloop, hinv, ?_, fun hok => ?_⟩
  · rw [hnew, hall]
    exact Multiset.le_add_right _ _
  · rw [hnew, hall, hr hok]
    exact (add_zero _).symm

theorem dupMmap_page : ∃ mm', dupMmap (fun _ => true) (fun _ => true) mmCreate onePage = .ok (.ok (), mm') ∧
    mm'.space = onePage.space.map Vma.dup := by
  obtain ⟨r, mm', hdup, -, -, hall⟩ := dupMmap_copies onePage_inv (fun _ => true) (fun _ => true)
  obtain rfl : r = .ok () := congrArg Prod.fst (Except.ok.inj (hdup.symm.trans rfl))
  exact ⟨mm', hdup, hall rfl⟩

end Ucore.Mm
