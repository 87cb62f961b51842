import Mathlib.Data.List.TakeWhile
import Ucore.Lib.Intervals
import Ucore.Libs.RbWalk
import Ucore.Mm.Vmm

/-!
# The structure of an address space

`Inv` is what holds of an `mm_struct` between operations.
-/

namespace Ucore.Mm

open Lib
open Libs (RbTree RbPtr)
open Libs.RbTree

structure Vma.Ok (v : Vma) : Prop where
  lt : v.vmStart < v.vmEnd
  start : v.vmStart % pgSize = 0
  stop : v.vmEnd % pgSize = 0
  base : userBase ≤ v.vmStart
  top : v.vmEnd ≤ userTop

abbrev Vma.Apart : Vma → Vma → Prop := Lib.Apart Vma.vmStart Vma.vmEnd

structure Inv (mm : MmStruct) : Prop where
  ok : ∀ v ∈ mm.areas, v.Ok
  ordered : Ordered Vma.vmStart Vma.vmEnd mm.areas
  count : mm.mapCount = mm.mmapList.length
  tree : ∀ t, mm.mmapTree = some t → ∃ s, Holds t s ∧ s.toList = mm.mmapList
  cache : ∀ id, mm.mmapCache = some id → id ∈ mm.mmapList
  fresh : ∀ id ∈ mm.mmapList, id < mm.fresh

variable {mm mm' : MmStruct} {id : Nat} {s : ColTree Nat} {t : RbTree Nat}

lemma mmCreate_inv : Inv mmCreate where
  ok := by simp [mmCreate, MmStruct.areas]
  ordered := List.Pairwise.nil
  count := rfl
  tree := by simp [mmCreate]
  cache := by simp [mmCreate]
  fresh := by simp [mmCreate]

lemma Inv.setBrk (h : Inv mm) (brk : Nat) : Inv { mm with brk } := ⟨h.ok, h.ordered, h.count, h.tree, h.cache, h.fresh⟩

lemma Inv.ok_id (h : Inv mm) (hid : id ∈ mm.mmapList) : (mm.vma id).Ok := h.ok _ (List.mem_map_of_mem hid)

lemma Inv.ordered_ids (h : Inv mm) : Ordered (fun i => (mm.vma i).vmStart) (fun i => (mm.vma i).vmEnd) mm.mmapList :=
  (ordered_map _).mp h.ordered

lemma Inv.nodup (h : Inv mm) : mm.mmapList.Nodup := nodup_of_apart h.ordered_ids.apart fun _ hu => (h.ok_id hu).lt

def firstAfter (mm : MmStruct) (addr : Nat) : Option Nat :=
  mm.mmapList.find? fun id => decide (addr < (mm.vma id).vmEnd)

lemma findVmaList_eq (mm : MmStruct) (addr : Nat) (l : List Nat) :
    findVmaList mm addr l = l.find? fun id => decide (addr < (mm.vma id).vmEnd) := by
  induction l with
  | nil => rfl
  | cons id rest ih => by_cases h : addr < (mm.vma id).vmEnd <;> simp [findVmaList, h, ih]

/-- The descent of `find_vma_rb` below a node, by induction on the subtree. -/
lemma findVmaRb_eq {addr fuel : Nat} {p : Path Nat} {vma : Option Nat}
    (hrep : RepAt t p s) (hlt : ∀ i ∈ s.toList, (mm.vma i).vmStart < (mm.vma i).vmEnd)
    (ho : Ordered (fun i => (mm.vma i).vmStart) (fun i => (mm.vma i).vmEnd) s.toList)
    (hfuel : s.toList.length < fuel) :
    findVmaRb mm t addr fuel (ptr s) vma = .ok
    ((s.toList.find? fun id => decide (addr < (mm.vma id).vmEnd)).or vma) := by
  induction fuel generalizing p s vma with
  | zero => omega
  | succ fuel ih =>
  cases s with
  | leaf => simp [findVmaRb, ColTree.toList]
  | node c l id r =>
    have hl := RepAt.down (d := .left) hrep
    have hr := RepAt.down (d := .right) hrep
    have hchl : t.child (.node id) .left = ptr l := hl.here
    have hchr : t.child (.node id) .right = ptr r := hr.here
    simp only [ColTree.toList, List.length_append, List.length_cons] at hfuel
    simp only [ColTree.toList, List.mem_append, List.mem_cons] at hlt
    simp only [ColTree.toList, Ordered, List.pairwise_append, List.pairwise_cons, List.mem_cons] at ho
    obtain ⟨hol, ⟨-, hor⟩, hcross⟩ := ho
    -- the areas to the left end before this one starts
    have hnone (h : (mm.vma id).vmStart ≤ addr) :
      l.toList.find? (fun id => decide (addr < (mm.vma id).vmEnd)) = none := by
      simp only [List.find?_eq_none, decide_eq_true_eq, Nat.not_lt]
      exact fun u hu => Nat.le_trans (hcross u hu id (.inl rfl)) h
    simp only [findVmaRb, ptr_node, hchl, hchr, gt_iff_lt, ColTree.toList, List.find?_append]
    by_cases hend : addr < (mm.vma id).vmEnd
    · by_cases hstart : (mm.vma id).vmStart ≤ addr
      · simp [hend, hstart, hnone hstart]
      · rw [if_pos hend, if_neg hstart, ih hl (fun i hi => hlt i (.inl hi)) hol (by omega)]
        simp [hend]
    · have := hlt id (.inr (.inl rfl))
      rw [if_neg hend, ih hr (fun i hi => hlt i (.inr (.inr hi))) hor (by omega)]
      simp [hend, hnone (by omega)]

lemma Inv.setCache (h : Inv mm) {c : Option Nat} (hc : ∀ id, c = some id → id ∈ mm.mmapList) :
    Inv { mm with mmapCache := c } :=
  ⟨h.ok, h.ordered, h.count, h.tree, hc, h.fresh⟩

lemma findVma_ok (h : Inv mm) (addr : Nat) :
    ∃ c, findVma mm addr = .ok (firstAfter mm addr, { mm with mmapCache := c }) ∧
      Inv { mm with mmapCache := c } := by
  have hfound : lookVma mm addr = .ok (firstAfter mm addr) := by
    rw [lookVma]
    cases hc : cacheHit mm addr with
    | some id => grind [Option.filter_eq_some_iff, firstAfter, cacheHit, h.ordered_ids.find_eq, h.cache]
    | none =>
      cases ht : mm.mmapTree with
      | none => simp [findVmaList_eq, firstAfter]
      | some t =>
        obtain ⟨s, hs, hl⟩ := h.tree t ht
        simp only [hs.rep.root]
        rw [findVmaRb_eq hs.rep (by rw [hl]; exact fun i hi => (h.ok_id hi).lt)
          (by rw [hl]; exact h.ordered_ids) (by rw [hl, h.count]; omega)]
        simp [hl, firstAfter]
  simp only [findVma, hfound]
  cases hf : firstAfter mm addr with
  | none => exact ⟨mm.mmapCache, rfl, h⟩
  | some id =>
    refine ⟨some id, rfl, h.setCache ?_⟩
    rintro _ ⟨⟩
    exact List.mem_of_find?_eq_some hf

lemma firstAfter_mem {addr : Nat} (h : firstAfter mm addr = some id) : id ∈ mm.mmapList ∧ addr < (mm.vma id).vmEnd :=
  ⟨List.mem_of_find?_eq_some h, by simpa using List.find?_some h⟩

lemma vmaCompare_pos {a b : Nat} : vmaCompare mm a b > 0 ↔ (mm.vma b).vmStart < (mm.vma a).vmStart := by
  unfold vmaCompare
  split
  · omega
  · split <;> omega

structure Splits (mm : MmStruct) (z : Nat) (l front back : List Nat) : Prop where
  eq : l = front ++ back
  front : ∀ u ∈ front, (mm.vma u).vmStart ≤ (mm.vma z).vmStart
  back : ∀ u ∈ back, (mm.vma z).vmStart < (mm.vma u).vmStart

def Increasing (mm : MmStruct) (l : List Nat) : Prop :=
  l.Pairwise fun u v => (mm.vma u).vmStart < (mm.vma v).vmStart

lemma Inv.increasing (h : Inv mm) : Increasing mm mm.mmapList :=
  List.Pairwise.imp_of_mem (fun hu _ h' => Nat.lt_of_lt_of_le (h.ok_id hu).lt h') h.ordered_ids

lemma insertVmaRb_ok (ht : Holds t s) (hid : id ∉ s.toList)
    (hinc : Increasing mm s.toList) (hfuel : s.toList.length ≤ mm.mapCount) :
    ∃ t' s' front back, insertVmaRb mm t id = .ok t' ∧ Holds t' s' ∧
    Splits mm id s.toList front back ∧ s'.toList = front ++ id :: back := by
  have hmono : Monotone (vmaCompare mm) id s.toList := hinc.imp fun h => by simp only [vmaCompare_pos]; omega
  obtain ⟨t', s', front, back, hins, ht', hl, hl', hfront, hback⟩ :=
    rbInsert_rep ht hid hmono (show _ < mm.mapCount + 1 by omega)
  simp only [vmaCompare_pos, Nat.not_lt] at hfront hback
  exact ⟨t', s', front, back, by simp [insertVmaRb, hins], ht', ⟨hl, hfront, hback⟩, hl'⟩

lemma foldl_insertVmaRb_ok {l : List Nat} (ht : Holds t s)
    (hinc : Increasing mm (s.toList ++ l)) (hfuel : (s.toList ++ l).length ≤ mm.mapCount) :
    ∃ t' s', l.foldlM (insertVmaRb mm) t = .ok t' ∧ Holds t' s' ∧ s'.toList = s.toList ++ l := by
  induction l generalizing t s with
  | nil => exact ⟨t, s, rfl, ht, by simp⟩
  | cons z l ih =>
    have hbefore : ∀ u ∈ s.toList, (mm.vma u).vmStart < (mm.vma z).vmStart := fun u hu =>
      (List.pairwise_append.mp hinc).2.2 u hu z (by simp)
    have hz : z ∉ s.toList := fun hz => Nat.lt_irrefl _ (hbefore z hz)
    simp only [List.length_append, List.length_cons] at hfuel
    obtain ⟨t1, s1, front, back, hins, ht1, hsp, hl1⟩ := insertVmaRb_ok ht hz
      (List.pairwise_append.mp hinc).1 (show _ ≤ mm.mapCount by omega)
    have hback : back = [] := by
      refine List.eq_nil_iff_forall_not_mem.mpr fun u hu => ?_
      have := hsp.back u hu
      have := hbefore u (by simp [hsp.eq, hu])
      omega
    have hl1' : s1.toList = s.toList ++ [z] := by simp [hl1, hsp.eq, hback]
    obtain ⟨t', s', hfold, ht', hl'⟩ := ih ht1 (by simpa [hl1'] using hinc)
      (by simp only [hl1', List.length_append, List.length_cons, List.length_nil]; omega)
    refine ⟨t', s', ?_, ht', by simp [hl', hl1']⟩
    simp [hins, hfold, bind, Except.bind]

structure SameAreas (mm mm' : MmStruct) : Prop where
  vma : mm'.vma = mm.vma
  brkStart : mm'.brkStart = mm.brkStart
  brk : mm'.brk = mm.brk
  fresh : mm.fresh ≤ mm'.fresh

lemma buildTree_ok (h : Inv mm) (ok : Nat → Bool) :
    ∃ mm', buildTree ok mm = .ok mm' ∧ Inv mm' ∧ mm'.mmapList = mm.mmapList ∧
    mm'.mmapCache = mm.mmapCache ∧ SameAreas mm mm' := by
  have hsame : ∃ mm', Except.ok mm = Except.ok (ε := Panic) mm' ∧ Inv mm' ∧
      mm'.mmapList = mm.mmapList ∧ mm'.mmapCache = mm.mmapCache ∧ SameAreas mm mm' :=
    ⟨mm, rfl, h, rfl, rfl, rfl, rfl, rfl, le_rfl⟩
  rw [buildTree]
  cases ht : mm.mmapTree with
  | some t => exact hsame
  | none =>
    by_cases hc : rbMinMapCount ≤ mm.mapCount
    · simp only [hc, ↓reduceIte, kmalloc]
      have hfresh : ∀ id ∈ mm.mmapList, id < mm.fresh + 1 := fun id hid => Nat.lt_succ_of_lt (h.fresh id hid)
      by_cases hok : ok mm.fresh
      · obtain ⟨t', s', hfold, ht', hl'⟩ := foldl_insertVmaRb_ok rbTreeCreate_holds
          (show Increasing { mm with fresh := mm.fresh + 1 } ([] ++ mm.mmapList) from h.increasing)
          (by simp [ColTree.toList, h.count])
        simp only [hok, ↓reduceIte, hfold, bind, Except.bind]
        refine ⟨_, rfl, ⟨h.ok, h.ordered, h.count, ?_, h.cache, hfresh⟩, rfl, rfl,
          rfl, rfl, rfl, by simp⟩
        grind [ColTree.toList]
      · simp only [hok]
        exact ⟨_, rfl, ⟨h.ok, h.ordered, h.count, by simp [ht], h.cache, hfresh⟩, rfl, rfl,
          rfl, rfl, rfl, by simp⟩
    · simp only [hc, ↓reduceIte]
      exact hsame

lemma vmaPrevList_eq (mm : MmStruct) (start : Nat) (prev : Option Nat) (l : List Nat) : vmaPrevList mm start prev l =
    ((l.takeWhile fun i => decide ((mm.vma i).vmStart ≤ start)).getLast?).or prev := by
  induction l generalizing prev with
  | nil => simp [vmaPrevList]
  | cons le rest ih =>
    by_cases h : (mm.vma le).vmStart ≤ start
    · rw [vmaPrevList, if_neg (by omega), ih, List.takeWhile_cons_of_pos (by simpa using h)]
      simp [List.getLast?_cons]
    · rw [vmaPrevList, if_pos (by omega), List.takeWhile_cons_of_neg (by simpa using h)]
      simp

lemma Increasing.splits {l : List Nat} (h : Increasing mm l) (z : Nat) :
    Splits mm z l (l.takeWhile fun i => decide ((mm.vma i).vmStart ≤ (mm.vma z).vmStart))
      (l.dropWhile fun i => decide ((mm.vma i).vmStart ≤ (mm.vma z).vmStart)) := by
  refine ⟨List.takeWhile_append_dropWhile.symm, fun u hu => by simpa using List.mem_takeWhile_imp hu, ?_⟩
  induction l with
  | nil => simp
  | cons v l ih =>
    rw [Increasing, List.pairwise_cons] at h
    by_cases hv : (mm.vma v).vmStart ≤ (mm.vma z).vmStart
    · rw [List.dropWhile_cons_of_pos (by simpa using hv)]
      exact ih h.2
    · rw [List.dropWhile_cons_of_neg (by simpa using hv)]
      grind

lemma insertTree_ok (h : Inv mm) (hid : id ∉ mm.mmapList) :
    ∃ tree front back, insertTree mm id = .ok (tree, front.getLast?) ∧
    Splits mm id mm.mmapList front back ∧
    ∀ t, tree = some t → ∃ s, Holds t s ∧ s.toList = front ++ id :: back := by
  rw [insertTree]
  cases ht : mm.mmapTree with
  | none =>
    refine ⟨none, _, _, ?_, h.increasing.splits id, by simp⟩
    simp [vmaPrevList_eq]
  | some t =>
    obtain ⟨s, hs, hl⟩ := h.tree t ht
    obtain ⟨t', s', front, back, hins, hs', hsp, hl'⟩ := insertVmaRb_ok hs
      (show id ∉ s.toList by rwa [hl]) (show Increasing mm s.toList by rw [hl]; exact h.increasing)
      (by simp [hl, h.count])
    rw [hl] at hsp
    have hprev := rbNodePrev_rep hs' hl' (show _ < mm.mapCount + 2 by
      grind [h.count, hsp.eq])
    refine ⟨some t', front, back, ?_, hsp, ?_⟩
    · simp only [hins, bind, Except.bind, vmaPrevRb, hprev]
      cases front.getLast? <;> rfl
    · rintro _ ⟨⟩
      exact ⟨s', hs', hl'⟩

lemma splitAfter_getLast {front back : List Nat} (hnd : (front ++ back).Nodup) :
    splitAfter front.getLast? (front ++ back) = (front, back) := by
  rcases List.eq_nil_or_concat front with rfl | ⟨init, p, rfl⟩
  · rfl
  have hp : p ∉ init := by
    simp only [List.concat_eq_append, List.append_assoc, List.nodup_append'] at hnd
    exact fun h => hnd.2.2 h (by simp)
  have hne : ∀ x ∈ init, (decide (x ≠ p)) = true := fun x hx => by
    simpa using ne_of_mem_of_not_mem hx hp
  simp only [List.concat_eq_append, List.getLast?_append, List.getLast?_singleton, Option.some_or,
    splitAfter, List.append_assoc, List.cons_append, List.nil_append]
  rw [List.takeWhile_append_of_pos hne, List.dropWhile_append_of_pos hne]
  simp

/-- `insert_vma_struct` links an area that keeps apart from the others; none
of its assertions fails. -/
lemma insertVmaStruct_ok (h : Inv mm) (ok : Nat → Bool) (hid : id ∉ mm.mmapList)
    (hfresh : id < mm.fresh) (hok : (mm.vma id).Ok) (hap : ∀ u ∈ mm.areas, (mm.vma id).Apart u) :
    ∃ mm', insertVmaStruct ok mm id = .ok mm' ∧ Inv mm' ∧ mm'.mmapList.Perm (id :: mm.mmapList) ∧ SameAreas mm mm' := by
  obtain ⟨tree, front, back, hins, hsp, htree⟩ := insertTree_ok h hid
  have hap' : ∀ u ∈ front ++ back, Lib.Apart (fun i => (mm.vma i).vmStart)
    (fun i => (mm.vma i).vmEnd) id u := fun u hu =>
    hap _ (List.mem_map_of_mem (hsp.eq ▸ hu))
  have hlt : ∀ u ∈ front ++ back, (mm.vma u).vmStart < (mm.vma u).vmEnd := fun u hu => (h.ok_id (hsp.eq ▸ hu)).lt
  have hord : Ordered (fun i => (mm.vma i).vmStart) (fun i => (mm.vma i).vmEnd) (front ++ id :: back) :=
    Ordered.insert (hsp.eq ▸ h.ordered_ids) hok.lt hlt hap' hsp.front hsp.back
  have hinv : Inv { mm with mmapTree := tree, mmapList := front ++ id :: back, mapCount := mm.mapCount + 1 } := by
    have hmem : ∀ u ∈ front ++ id :: back, u = id ∨ u ∈ mm.mmapList := by
      intro u hu
      simp only [List.mem_append, List.mem_cons] at hu
      rw [hsp.eq, List.mem_append]
      tauto
    refine ⟨?_, (ordered_map _).mpr hord, ?_, htree, ?_, ?_⟩
    · grind [MmStruct.areas, h.ok_id]
    · simp only [h.count, hsp.eq, List.length_append, List.length_cons]
      omega
    · grind [h.cache, hsp.eq]
    · intro u hu
      rcases hmem u hu with rfl | hu
      · exact hfresh
      · exact h.fresh u hu
  obtain ⟨mm', hbuild, hinv', hlist, -, hsame⟩ := buildTree_ok hinv ok
  refine ⟨mm', ?_, hinv', ?_, hsame.vma, hsame.brkStart, hsame.brk, hsame.fresh⟩
  · -- the neighbours of the new place
    have hprev : (front.getLast?.map fun p => checkVmaOverlap (mm.vma p) (mm.vma id)).getD (.ok ()) = .ok () := by
      cases hp : front.getLast? with
      | none => rfl
      | some p =>
        have hpf : p ∈ front := List.mem_of_getLast? hp
        have := (List.pairwise_append.mp hord).2.2 p hpf id (by simp)
        have := hlt p (by simp [hpf])
        simp [checkVmaOverlap, hok.lt, *]
    have hnext : (back.head?.map fun n => checkVmaOverlap (mm.vma id) (mm.vma n)).getD (.ok ()) = .ok () := by
      cases hn : back.head? with
      | none => rfl
      | some n =>
        have hnb : n ∈ back := List.mem_of_head? hn
        have := (List.pairwise_cons.mp (List.pairwise_append.mp hord).2.1).1 n hnb
        have := hlt n (by simp [hnb])
        simp [checkVmaOverlap, hok.lt, *]
    have hnd : (front ++ back).Nodup := hsp.eq ▸ h.nodup
    have hsplit : splitAfter front.getLast? mm.mmapList = (front, back) := by
      rw [hsp.eq]
      exact splitAfter_getLast hnd
    simp [insertVmaStruct, hok.lt, hins, hsplit, hprev, hnext, hbuild, bind, Except.bind]
  · rw [hlist, hsp.eq]
    exact List.perm_middle

lemma removeVmaStruct_ok (h : Inv mm) (hid : id ∈ mm.mmapList) :
    ∃ mm', removeVmaStruct mm id = .ok mm' ∧ Inv mm' ∧ mm'.mmapList = mm.mmapList.erase id ∧ SameAreas mm mm' := by
  obtain ⟨tree, hdel, htree⟩ : ∃ tree, deleteTree mm id = .ok tree ∧
      ∀ t, tree = some t → ∃ s, Holds t s ∧ s.toList = mm.mmapList.erase id := by
    rw [deleteTree]
    cases ht : mm.mmapTree with
    | none => exact ⟨none, rfl, by simp⟩
    | some t =>
      obtain ⟨s, hs, hl⟩ := h.tree t ht
      obtain ⟨t', s', hdel, hs', hl'⟩ := rbDelete_rep (z := id) hs
        (by rwa [hl]) (show _ < mm.mapCount + 1 by rw [hl, h.count]; omega)
      refine ⟨some t', by simp [hdel], ?_⟩
      rintro _ ⟨⟩
      exact ⟨s', hs', by rw [hl', hl]⟩
  have hsub : ∀ u ∈ mm.mmapList.erase id, u ∈ mm.mmapList := fun u => List.mem_of_mem_erase
  rw [removeVmaStruct, hdel]
  refine ⟨_, rfl, ⟨?_, ?_, ?_, htree, ?_, ?_⟩, rfl, rfl, rfl, rfl, le_rfl⟩
  · grind [MmStruct.areas, h.ok_id]
  · exact (ordered_map _).mpr (h.ordered_ids.sublist List.erase_sublist)
  · simp [h.count, List.length_erase_of_mem hid]
  · intro c hc
    by_cases hci : mm.mmapCache = some id
    · simp [hci] at hc
    · grind [h.cache]
  · exact fun u hu => h.fresh u (hsub u hu)

@[simp] lemma setVma_same (mm : MmStruct) (id : Nat) (v : Vma) : (mm.setVma id v).vma id = v := by
  simp [MmStruct.setVma]

lemma setVma_ne {i : Nat} (mm : MmStruct) (v : Vma) (h : i ≠ id) : (mm.setVma id v).vma i = mm.vma i := by
  simp [MmStruct.setVma, h]

lemma areas_setVma_of_notMem (v : Vma) (hid : id ∉ mm.mmapList) : (mm.setVma id v).areas = mm.areas :=
  List.map_congr_left fun i hi => setVma_ne mm v fun (he : i = id) => hid (he ▸ hi)

lemma Inv.setVma_of_notMem (h : Inv mm) (v : Vma) (hid : id ∉ mm.mmapList) : Inv (mm.setVma id v) := by
  have ha := areas_setVma_of_notMem v hid
  exact ⟨ha ▸ h.ok, ha ▸ h.ordered, h.count, h.tree, h.cache, h.fresh⟩

lemma Inv.setVma_of_mem {v : Vma} {l r : List Nat} (h : Inv mm) (hl : mm.mmapList = l ++ id :: r)
    (hv : v.Ok) (hbefore : ∀ u ∈ l, (mm.vma u).vmEnd ≤ v.vmStart)
    (hafter : ∀ u ∈ r, v.vmEnd ≤ (mm.vma u).vmStart) : Inv (mm.setVma id v) := by
  have hnd := h.nodup
  rw [hl] at hnd
  obtain ⟨hlnd, hrnd, hdis⟩ := List.nodup_append'.mp hnd
  have hne : ∀ u ∈ l ++ r, u ≠ id := by
    intro u hu
    rcases List.mem_append.mp hu with hu | hu
    · exact fun he => hdis hu (by simp [he])
    · exact fun he => (List.nodup_cons.mp hrnd).1 (he ▸ hu)
  have hold := h.ordered_ids
  simp only [hl, Ordered, List.pairwise_append, List.pairwise_cons, List.mem_cons] at hold
  refine ⟨?_, (ordered_map _).mpr ?_, h.count, h.tree, h.cache, h.fresh⟩
  · simp only [MmStruct.areas, List.mem_map]
    rintro _ ⟨u, hu, rfl⟩
    by_cases he : u = id
    · subst he
      simpa using hv
    · rw [setVma_ne mm v he]
      exact h.ok_id hu
  · change Ordered _ _ mm.mmapList
    simp only [hl, Ordered, List.pairwise_append, List.pairwise_cons, List.mem_cons]
    refine ⟨hold.1.imp_of_mem fun ha hb h' => ?_, ⟨fun u hu => ?_, hold.2.1.2.imp_of_mem fun ha hb h' => ?_⟩, ?_⟩
    · rwa [setVma_ne mm v (hne _ (by simp [ha])), setVma_ne mm v (hne _ (by simp [hb]))]
    · rw [setVma_same, setVma_ne mm v (hne u (by simp [hu]))]
      exact hafter u hu
    · rwa [setVma_ne mm v (hne _ (by simp [ha])), setVma_ne mm v (hne _ (by simp [hb]))]
    · rintro u hu w (rfl | hw)
      · rw [setVma_same, setVma_ne mm v (hne u (by simp [hu]))]
        exact hbefore u hu
      · rw [setVma_ne mm v (hne u (by simp [hu])), setVma_ne mm v (hne w (by simp [hw]))]
        exact hold.2.2 u hu w (.inr hw)

end Ucore.Mm
