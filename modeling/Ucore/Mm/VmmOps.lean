import Ucore.Mm.Space

/-!
# What the operations on areas do

Each operation ends without a failed assertion, keeps `Inv`, and changes the collection
of areas as stated here, in terms of the abstract space.
-/

namespace Ucore.Mm

open Lib
open Multiset (coe_eq_coe ofList cons_inj_right mem_add mem_coe coe_add cons_coe mem_cons)
open MmStruct (space areas)

variable {mm mm' : MmStruct} {v u : Vma} {a s e id : Nat} {ok : Nat → Bool} {eff : List Effect}

structure SameBrk (mm mm' : MmStruct) : Prop where
  brkStart : mm'.brkStart = mm.brkStart
  brk : mm'.brk = mm.brk

lemma SameBrk.refl (mm : MmStruct) : SameBrk mm mm := ⟨rfl, rfl⟩

lemma SameBrk.trans (h : SameBrk mm mm') (h' : SameBrk mm' mm'') : SameBrk mm mm'' :=
  ⟨h'.brkStart.trans h.brkStart, h'.brk.trans h.brk⟩

lemma SameAreas.sameBrk (h : SameAreas mm mm') : SameBrk mm mm' := ⟨h.brkStart, h.brk⟩

lemma vmaCreate_isSome (ok : Nat → Bool) (mm : MmStruct) (s e : Nat) (f : VmFlags) :
    (vmaCreate ok mm s e f).1.isSome = ok mm.fresh := by
  rw [vmaCreate, kmalloc]
  cases ok mm.fresh <;> rfl

lemma apart_of_not_hits (hu : u.hits v.vmStart v.vmEnd = false) : v.Apart u := by
  have : ¬ (u.vmStart < v.vmEnd ∧ v.vmStart < u.vmEnd) := by simp [← Vma.hits_iff, hu]
  simp only [Vma.Apart, Lib.Apart]
  omega

lemma range_ok (hs : s % pgSize = 0) (he : e % pgSize = 0) (hua : userAccess s e = true)
    (hv : v.vmStart = s ∧ v.vmEnd = e) : v.Ok := by
  rw [userAccess_iff] at hua
  obtain ⟨rfl, rfl⟩ := hv
  exact ⟨hua.2.1, hs, he, hua.1, hua.2.2⟩

lemma unlinkRange_ok {l pre : List Nat} (free : List Nat) (h : Inv mm) (hl : mm.mmapList = pre ++ l) (e : Nat) :
    ∃ mm' taken rest, unlinkRange e l mm free = .ok (mm', taken.reverse ++ free) ∧
    l = taken ++ rest ∧ Inv mm' ∧ mm'.mmapList = pre ++ rest ∧ SameAreas mm mm' ∧
    (∀ i ∈ taken, (mm.vma i).vmStart < e) ∧ ∀ i ∈ rest, e ≤ (mm.vma i).vmStart := by
  induction l generalizing mm free with
  | nil => exact ⟨mm, [], [], rfl, rfl, h, hl, ⟨rfl, rfl, rfl, le_rfl⟩, by simp, by simp⟩
  | cons id l ih =>
    rw [unlinkRange]
    by_cases hlt : (mm.vma id).vmStart < e
    · obtain ⟨mm1, hrem, hinv, hlist, hsame⟩ := removeVmaStruct_ok h (show id ∈ mm.mmapList by simp [hl])
      have hpre : id ∉ pre := by
        have := h.nodup
        rw [hl] at this
        exact fun hm => (List.nodup_append'.mp this).2.2 hm (by simp)
      have hl1 : mm1.mmapList = pre ++ l := by
        rw [hlist, hl, List.erase_append_right _ hpre, List.erase_cons_head]
      obtain ⟨mm', taken, rest, hun, hlr, hinv', hlist', hsame', ht, hr⟩ := ih (id :: free) hinv hl1
      rw [hsame.vma] at ht hr
      refine ⟨mm', id :: taken, rest, ?_, by simp [hlr], hinv', hlist', ?_, by simpa [hlt] using ht, hr⟩
      · simp [hlt, hrem, hun, bind, Except.bind]
      · exact ⟨hsame'.vma.trans hsame.vma, hsame'.brkStart.trans hsame.brkStart,
          hsame'.brk.trans hsame.brk, Nat.le_trans hsame.fresh hsame'.fresh⟩
    · rw [if_neg hlt]
      refine ⟨mm, [], id :: l, rfl, rfl, h, hl, ⟨rfl, rfl, rfl, le_rfl⟩, by simp, ?_⟩
      -- the rest starts later still
      grind [Increasing, List.pairwise_cons, h.increasing]

lemma flatMap_cut {l : List Vma} (h : ∀ v ∈ l, v.hits s e = false) : l.flatMap (Vma.cut s e) = l := by
  induction l with
  | nil => rfl
  | cons v l ih =>
    simp only [List.mem_cons, forall_eq_or_imp] at h
    rw [List.flatMap_cons, Vma.cut_of_not_hits h.1, ih h.2]
    rfl

lemma not_hits_of_le (h : u.vmEnd ≤ s ∨ e ≤ u.vmStart) : u.hits s e = false := by
  rw [← Bool.not_eq_true, Vma.hits_iff]
  omega

section

variable (h : Inv mm)
include h

lemma insertVmaStruct_space (ok : Nat → Bool) (hid : id ∉ mm.mmapList)
    (hfresh : id < mm.fresh) (hok : (mm.vma id).Ok) (hap : ∀ u ∈ mm.space, (mm.vma id).Apart u) :
    ∃ mm', insertVmaStruct ok mm id = .ok mm' ∧ Inv mm' ∧ mm'.space = mm.vma id ::ₘ mm.space ∧
    mm'.mmapList.Perm (id :: mm.mmapList) ∧ SameAreas mm mm' := by
  obtain ⟨mm', hins, hinv, hperm, hsame⟩ := insertVmaStruct_ok h ok hid hfresh hok hap
  refine ⟨mm', hins, hinv, ?_, hperm, hsame⟩
  have hmap := coe_eq_coe.mpr (hperm.map mm.vma)
  simpa [space, areas, hsame.vma] using hmap

structure Created (mm mm' : MmStruct) (id : Nat) (v : Vma) : Prop where
  inv : Inv mm'
  space : mm'.space = mm.space
  list : mm'.mmapList = mm.mmapList
  vma : mm'.vma id = v
  other : ∀ i ∈ mm.mmapList, mm'.vma i = mm.vma i
  notMem : id ∉ mm.mmapList
  fresh : id < mm'.fresh
  brk : SameBrk mm mm'

lemma vmaCreate_ok (ok : Nat → Bool) (s e : Nat) (f : VmFlags) :
    (∃ mm', vmaCreate ok mm s e f = (none, mm') ∧ Inv mm' ∧ mm'.space = mm.space ∧ SameBrk mm mm') ∨
    ∃ id mm', vmaCreate ok mm s e f = (some id, mm') ∧ Created mm mm' id ⟨s, e, f, none, 0⟩ := by
  have hfresh : Inv { mm with fresh := mm.fresh + 1 } :=
    ⟨h.ok, h.ordered, h.count, h.tree, h.cache, fun id hid => Nat.lt_succ_of_lt (h.fresh id hid)⟩
  have hid : mm.fresh ∉ mm.mmapList := fun hm => Nat.lt_irrefl _ (h.fresh _ hm)
  rw [vmaCreate, kmalloc]
  by_cases hok : ok mm.fresh
  · refine .inr ⟨mm.fresh, _, by simp only [hok, ↓reduceIte]; rfl, ?_⟩
    refine ⟨hfresh.setVma_of_notMem _ hid, ?_, rfl, setVma_same .., fun i hi => ?_, hid, Nat.lt_succ_self _, rfl, rfl⟩
    · exact congrArg ofList (areas_setVma_of_notMem _ hid)
    · exact setVma_ne _ _ (ne_of_mem_of_not_mem hi hid)
  · exact .inl ⟨_, by simp only [hok]; rfl, hfresh, rfl, rfl, rfl⟩

omit h in
lemma insertCreated_ok (hc : Created mm mm' id v) (ok : Nat → Bool) (hv : v.Ok) (hap : ∀ u ∈ mm.space, v.Apart u) :
    ∃ mm'', insertVmaStruct ok mm' id = .ok mm'' ∧ Inv mm'' ∧ mm''.space = v ::ₘ mm.space ∧
    id ∈ mm''.mmapList ∧ mm''.vma id = v ∧ SameBrk mm mm'' := by
  obtain ⟨mm'', hins, hinv, hsp, hperm, hsame⟩ := insertVmaStruct_space hc.inv ok
    (by rw [hc.list]; exact hc.notMem) hc.fresh (hc.vma ▸ hv) (by rw [hc.vma, hc.space]; exact hap)
  grind [hc.vma, hc.space, hc.brk.trans, hsame.sameBrk, hsame.vma]

def firstIn (mm : MmStruct) (s e : Nat) : Option Nat :=
  (firstAfter mm s).filter fun id => !decide (e ≤ (mm.vma id).vmStart)

lemma findVmaIntersection_ok (s e : Nat) :
    ∃ c, findVmaIntersection mm s e = .ok (firstIn mm s e, { mm with mmapCache := c }) ∧
      Inv { mm with mmapCache := c } := by
  obtain ⟨c, hfind, hinv⟩ := findVma_ok h s
  exact ⟨c, by simp [findVmaIntersection, hfind, firstIn, bind, Except.bind, pure, Except.pure], hinv⟩

omit h in
lemma firstIn_eq_some (hf : firstIn mm s e = some id) : (mm.vma id).hits s e = true ∧
    ∃ l r, mm.mmapList = l ++ id :: r ∧ ∀ u ∈ l, (mm.vma u).vmEnd ≤ s := by
  simp only [firstIn, Option.filter_eq_some_iff] at hf
  obtain ⟨hf, hlt⟩ := hf
  obtain ⟨hend, l, r, hl, hbefore⟩ := List.find?_eq_some_iff_append.mp hf
  grind [Vma.hits_iff]

lemma firstIn_eq_none (hf : firstIn mm s e = none) (hu : u ∈ mm.space) : u.hits s e = false := by
  obtain ⟨i, hi, rfl⟩ := List.mem_map.mp (mem_space.mp hu)
  by_contra hh
  rw [Bool.not_eq_false, Vma.hits_iff] at hh
  cases hfa : firstAfter mm s with
  | none =>
    have := List.find?_eq_none.mp hfa i hi
    simp at this
    omega
  | some id =>
    obtain ⟨hid, -⟩ := firstAfter_mem hfa
    simp only [firstIn, hfa, Option.filter_eq_none_iff, Option.some.injEq, Bool.not_eq_true,
      Bool.not_eq_false', decide_eq_true_eq, forall_eq'] at hf
    -- `i` comes at or after the area found
    obtain ⟨-, l, r, hl, hbefore⟩ := List.find?_eq_some_iff_append.mp hfa
    grind [List.pairwise_cons, Ordered, Vma.Ok.lt, h.ordered_ids, h.ok_id]

-- mm_map, mm_map_shmem

lemma mmMap_ok (ok : Nat → Bool) (addr len : Nat) (f : VmFlags) :
    ∃ r mm', mmMap ok mm addr len f = .ok (r, mm') ∧ Inv mm' ∧ SameBrk mm mm' ∧
      match r with
      | .error _ => mm'.space = mm.space
      | .ok id =>
        let v : Vma := ⟨roundDown addr, roundUp (addWrap addr len), { f with share := false }, none, 0⟩
        userAccess v.vmStart v.vmEnd = true ∧ (∀ u ∈ mm.space, v.Apart u) ∧
          mm'.space = v ::ₘ mm.space ∧ id ∈ mm'.mmapList ∧ mm'.vma id = v := by
  simp only [mmMap]
  cases hua : userAccess (roundDown addr) (roundUp (addWrap addr len)) with
  | false => exact ⟨.error .inval, mm, rfl, h, .refl mm, rfl⟩
  | true =>
  obtain ⟨c, hfind, hinv⟩ := findVmaIntersection_ok h (roundDown addr) (roundUp (addWrap addr len))
  simp only [Bool.not_true, Bool.false_eq_true, ↓reduceIte, hfind, bind, Except.bind]
  cases hf : firstIn mm (roundDown addr) (roundUp (addWrap addr len)) with
  | some id => exact ⟨.error .inval, _, rfl, hinv, ⟨rfl, rfl⟩, rfl⟩
  | none =>
  simp only [Option.isSome_none, Bool.false_eq_true, ↓reduceIte]
  obtain ⟨mm', hcr, hinv', hsp, hbrk⟩ | ⟨id, mm', hcr, hcreated⟩ := vmaCreate_ok hinv ok
    (roundDown addr) (roundUp (addWrap addr len)) { f with share := false }
  · rw [hcr]
    exact ⟨.error .noMem, mm', rfl, hinv', ⟨hbrk.brkStart, hbrk.brk⟩, hsp⟩
  rw [hcr]
  have hap : ∀ u ∈ mm.space, Vma.Apart ⟨roundDown addr, roundUp (addWrap addr len),
      { f with share := false }, none, 0⟩ u := fun u hu =>
    apart_of_not_hits (firstIn_eq_none h hf hu)
  obtain ⟨mm'', hins, hinv'', hsp, hmem, hvma, hbrk⟩ := insertCreated_ok hcreated ok
    (range_ok (by simp) (by simp) hua ⟨rfl, rfl⟩) hap
  exact ⟨.ok id,
    mm'', by simp [hins, pure, Except.pure], hinv'', ⟨hbrk.brkStart, hbrk.brk⟩, trivial, hap, hsp, hmem, hvma⟩

lemma space_setVma {l r : List Nat} (hl : mm.mmapList = l ++ id :: r) (v : Vma) :
    (mm.setVma id v).space = v ::ₘ ((l ++ r).map mm.vma : List Vma) ∧
    mm.space = mm.vma id ::ₘ ((l ++ r).map mm.vma : List Vma) := by
  have hnd := h.nodup
  rw [hl, List.nodup_middle, List.nodup_cons] at hnd
  have hmap (w : Nat → Vma) : ((l ++ id :: r).map w : Multiset Vma) = w id ::ₘ ((l ++ r).map w : List Vma) :=
    coe_eq_coe.mpr (List.perm_middle.map w)
  refine ⟨?_, by rw [space, areas, hl, hmap]⟩
  change ((mm.mmapList.map (mm.setVma id v).vma : List Vma) : Multiset Vma) = _
  have hother : (l ++ r).map (mm.setVma id v).vma = (l ++ r).map mm.vma :=
    List.map_congr_left fun i hi => setVma_ne mm v (ne_of_mem_of_not_mem hi hnd.1)
  rw [hl, hmap, setVma_same, hother]

lemma resize_ok (hid : id ∈ mm.mmapList) (hv : v.Ok) (hlo : (mm.vma id).vmStart ≤ v.vmStart)
    (hhi : v.vmEnd ≤ (mm.vma id).vmEnd) :
    Inv (mm.setVma id v) ∧ ∃ rest, mm.space = mm.vma id ::ₘ rest ∧ (mm.setVma id v).space = v ::ₘ rest := by
  obtain ⟨l, r, hl⟩ := List.append_of_mem hid
  have hord := h.ordered_ids
  simp only [hl, Ordered, List.pairwise_append, List.pairwise_cons] at hord
  refine ⟨h.setVma_of_mem hl hv (fun u hu => ?_) fun u hu => ?_, _, (space_setVma h hl v).2, (space_setVma h hl v).1⟩
  · exact Nat.le_trans (hord.2.2 u hu id (by simp)) hlo
  · exact Nat.le_trans hhi (hord.2.1.1 u hu)

lemma mmMapShmem_ok (ok : Nat → Bool) (addr : Nat) (f : VmFlags) (shmem len : Nat) :
    ∃ r mm', mmMapShmem ok mm addr f shmem len = .ok (r, mm') ∧ Inv mm' ∧ SameBrk mm mm' ∧
      match r with
      | .error _ => mm'.space = mm.space
      | .ok () =>
        let v : Vma := ⟨addr, roundUp (addWrap addr len), { f with share := true }, some shmem, 0⟩
        userAccess v.vmStart v.vmEnd = true ∧ (∀ u ∈ mm.space, v.Apart u) ∧ mm'.space = v ::ₘ mm.space := by
  rw [mmMapShmem]
  by_cases hmod : addr % pgSize = 0
  · obtain ⟨r, mm', hmap, hinv, hbrk, hr⟩ := mmMap_ok h ok addr len f
    simp only [hmod, ne_eq, not_true_eq_false, ↓reduceIte, hmap, bind, Except.bind]
    cases r with
    | error err => exact ⟨.error err, mm', rfl, hinv, hbrk, hr⟩
    | ok id =>
      obtain ⟨hua, hap, hsp, hid, hvma⟩ := hr
      have hv : (mm'.vma id).Ok := hinv.ok_id hid
      obtain ⟨hinv', rest, hrest, hrest'⟩ := resize_ok (v := { mm'.vma id with
        shmem := some shmem, shmemOff := 0, vmFlags := { (mm'.vma id).vmFlags with share := true } })
        hinv hid ⟨hv.lt, hv.start, hv.stop, hv.base, hv.top⟩ le_rfl le_rfl
      obtain rfl : rest = mm.space := by
        rw [hsp, hvma] at hrest
        exact (cons_inj_right _).mp hrest.symm
      rw [roundDown_of_mod hmod] at *
      refine ⟨.ok (), _, rfl, hinv', ⟨hbrk.brkStart, hbrk.brk⟩, hua, hap, ?_⟩
      rw [hrest', hvma]
  · simp only [hmod, ne_eq, not_false_eq_true, ↓reduceIte]
    exact ⟨.error .inval, mm, rfl, h, .refl mm, rfl⟩

-- mm_unmap

lemma relinkVma_ok (ok : Nat → Bool) (hid : id ∉ mm.mmapList) (hfresh : id < mm.fresh)
    (hs : s % pgSize = 0) (he : e % pgSize = 0) (hv : (mm.vma id).Ok)
    (hh : (mm.vma id).hits s e = true) (hns : ¬ ((mm.vma id).vmStart < s ∧ e < (mm.vma id).vmEnd))
    (hap : ∀ u ∈ mm.space, (mm.vma id).Apart u) :
    ∃ mm', relinkVma ok s e mm id = .ok (mm', (mm.vma id).unmapEffects s e) ∧ Inv mm' ∧
    mm'.space = ((mm.vma id).cut s e : List Vma) + mm.space ∧
    (∀ i ∈ mm'.mmapList, i = id ∨ i ∈ mm.mmapList) ∧ (∀ i, i ≠ id → mm'.vma i = mm.vma i) ∧
    SameBrk mm mm' ∧ mm.fresh ≤ mm'.fresh := by
  have hlt := hv.lt
  -- resizing to the piece that sticks out, and linking it again
  have hpiece (a b : Nat) (ha : a % pgSize = 0) (hb : b % pgSize = 0) (hab : a < b)
      (hlo : (mm.vma id).vmStart ≤ a) (hhi : b ≤ (mm.vma id).vmEnd) :
      ∃ mm1 mm', vmaResize mm id a b = .ok mm1 ∧ insertVmaStruct ok mm1 id = .ok mm' ∧ Inv mm' ∧
        mm'.space = (mm.vma id).resize a b ::ₘ mm.space ∧
        (∀ i ∈ mm'.mmapList, i = id ∨ i ∈ mm.mmapList) ∧ (∀ i, i ≠ id → mm'.vma i = mm.vma i) ∧
        SameBrk mm mm' ∧ mm.fresh ≤ mm'.fresh := by
    have hsp := congrArg ofList (areas_setVma_of_notMem ((mm.vma id).resize a b) hid)
    obtain ⟨mm', hins, hinv, hspace, hperm, hsame⟩ := insertVmaStruct_space
      (h.setVma_of_notMem ((mm.vma id).resize a b) hid) ok hid hfresh
      (by
        rw [setVma_same]
        exact ⟨hab, ha, hb, Nat.le_trans hv.base hlo, Nat.le_trans hhi hv.top⟩)
      (by
        rw [setVma_same, space, hsp]
        intro u hu
        have := hap u hu
        simp only [Vma.Apart, Lib.Apart, Vma.resize_start, Vma.resize_end] at this ⊢
        omega)
    refine ⟨_, mm', by simp [vmaResize, ha, hb, hlo, hab, hhi], hins, hinv, ?_, ?_, ?_,
      ⟨hsame.brkStart, hsame.brk⟩, hsame.fresh⟩
    · rw [hspace, setVma_same, space, hsp]
      rfl
    · intro i hi
      exact List.mem_cons.mp (hperm.mem_iff.mp hi)
    · intro i hi
      rw [hsame.vma, setVma_ne _ _ hi]
  rw [Vma.hits_iff] at hh
  rw [relinkVma]
  by_cases h1 : (mm.vma id).vmStart < s
  · obtain ⟨mm1, mm', hres, hins, hinv, hspace, hrest⟩ := hpiece (mm.vma id).vmStart s hv.start hs h1 le_rfl (by omega)
    have h2 : ¬ e < (mm.vma id).vmEnd := fun h2 => hns ⟨h1, h2⟩
    refine ⟨mm', ?_, hinv, ?_, hrest⟩
    · simp [h1, h2, hres, hins, Vma.unmapEffects, bind, Except.bind]
    · simp [hspace, Vma.cut, Vma.hits_iff.mpr hh, h1, h2]
  by_cases h2 : e < (mm.vma id).vmEnd
  · obtain ⟨mm1, mm', hres, hins, hinv, hspace, hrest⟩ := hpiece e (mm.vma id).vmEnd he hv.stop h2 (by omega) le_rfl
    refine ⟨mm', ?_, hinv, ?_, hrest⟩
    · simp [h1, h2, hres, hins, Vma.unmapEffects, bind, Except.bind]
    · simp [hspace, Vma.cut, Vma.hits_iff.mpr hh, h1, h2]
  · refine ⟨mm, by simp [h1, h2, Vma.unmapEffects], h, ?_, fun i hi => .inr hi, fun _ _ => rfl,
      .refl mm, le_rfl⟩
    simp [Vma.cut, Vma.hits_iff.mpr hh, h1, h2]

omit h in
lemma relinkRange_ok (free : List Nat) (h : Inv mm) (ok : Nat → Bool) (hs : s % pgSize = 0)
    (he : e % pgSize = 0) (hnd : free.Nodup) (hfree : ∀ i ∈ free, i ∉ mm.mmapList ∧ i < mm.fresh)
    (hv : ∀ i ∈ free, (mm.vma i).Ok ∧ (mm.vma i).hits s e = true ∧ ¬ ((mm.vma i).vmStart < s ∧ e < (mm.vma i).vmEnd))
    (hap : free.Pairwise fun i j => (mm.vma i).Apart (mm.vma j))
    (hout : ∀ i ∈ free, ∀ u ∈ mm.space, (mm.vma i).Apart u) :
    ∃ mm', relinkRange ok s e free mm = .ok (mm', free.flatMap fun i => (mm.vma i).unmapEffects s e) ∧ Inv mm' ∧
    mm'.space = (free.flatMap fun i => (mm.vma i).cut s e : List Vma) + mm.space ∧
    SameBrk mm mm' := by
  induction free generalizing mm with
  | nil => exact ⟨mm, rfl, h, by simp, .refl mm⟩
  | cons id free ih =>
    simp only [List.mem_cons, forall_eq_or_imp, List.nodup_cons, List.pairwise_cons] at hnd hfree hv hap hout
    obtain ⟨mm1, hre, hinv1, hsp1, hlist1, hvma1, hbrk1, hfresh1⟩ := relinkVma_ok h ok hfree.1.1
      hfree.1.2 hs he hv.1.1 hv.1.2.1 hv.1.2.2 hout.1
    have hne : ∀ i ∈ free, mm1.vma i = mm.vma i := fun i hi => hvma1 i (ne_of_mem_of_not_mem hi hnd.1)
    obtain ⟨mm', hres, hinv', hsp', hbrk'⟩ := ih hinv1 hnd.2
      (fun i hi => ⟨fun hm => (hlist1 i hm).elim (ne_of_mem_of_not_mem hi hnd.1) (hfree.2 i hi).1,
        Nat.lt_of_lt_of_le (hfree.2 i hi).2 hfresh1⟩)
      (fun i hi => by rw [hne i hi]; exact hv.2 i hi)
      (hap.2.imp_of_mem fun hi hj h' => by rwa [hne _ hi, hne _ hj])
      (by
        intro i hi u hu
        rw [hne i hi]
        rw [hsp1, mem_add, mem_coe] at hu
        rcases hu with hu | hu
        · have := hap.1 i hi
          have := Vma.mem_cut hu
          simp only [Vma.Apart, Lib.Apart] at *
          omega
        · exact hout.2 i hi u hu)
    have hcut : (free.flatMap fun i => (mm1.vma i).cut s e) = free.flatMap fun i => (mm.vma i).cut s e :=
      List.flatMap_congr fun i hi => by rw [hne i hi]
    have heff : (free.flatMap fun i => (mm1.vma i).unmapEffects s e) = free.flatMap fun i =>
      (mm.vma i).unmapEffects s e :=
      List.flatMap_congr fun i hi => by rw [hne i hi]
    refine ⟨mm', ?_, hinv', ?_, hbrk1.trans hbrk'⟩
    · simp [relinkRange, hre, hres, heff, bind, Except.bind]
    · rw [hsp', hsp1, hcut, List.flatMap_cons, ← coe_add, add_left_comm, add_assoc]

lemma Inv.apart_rest {rest : Multiset Vma} (hsp : mm.space = v ::ₘ rest) (hu : u ∈ rest) :
    v.Apart u := by
  obtain ⟨l, hl⟩ := Quotient.exists_rep rest
  have hpair : (v :: l).Pairwise Vma.Apart := by
    have hperm : (v :: l).Perm mm.areas := by
      rw [← coe_eq_coe, ← cons_coe]
      change v ::ₘ ⟦l⟧ = _
      rw [hl]
      exact hsp.symm
    exact (hperm.pairwise_iff Lib.Apart.symm).mpr h.ordered.apart
  exact (List.pairwise_cons.mp hpair).1 u (by rw [← hl] at hu; exact hu)

lemma splitVma_ok (ok : Nat → Bool) (hid : id ∈ mm.mmapList) (hvid : mm.vma id = v)
    (hs : s % pgSize = 0) (he : e % pgSize = 0) (hse : s < e) (h1 : v.vmStart < s) (h2 : e < v.vmEnd) :
    (∃ mm', vmaCreate ok mm v.vmStart s v.vmFlags = (none, mm') ∧ Inv mm' ∧ mm'.space = mm.space ∧ SameBrk mm mm') ∨
    ∃ nvma mm1 mm2 mm' rest, vmaCreate ok mm v.vmStart s v.vmFlags = (some nvma, mm1) ∧
    vmaResize mm1 id e v.vmEnd = .ok mm2 ∧ insertVmaStruct ok mm2 nvma = .ok mm' ∧ Inv mm' ∧
    mm.space = v ::ₘ rest ∧ mm'.space = (v.cut s e : List Vma) + rest ∧ SameBrk mm mm' := by
  obtain ⟨mm', hcr, hinv, hsp, hbrk⟩ | ⟨nvma, mm1, hcr, hc⟩ := vmaCreate_ok h ok v.vmStart s v.vmFlags
  · exact .inl ⟨mm', hcr, hinv, hsp, hbrk⟩
  refine .inr ⟨nvma, mm1, ?_⟩
  have hv : v.Ok := hvid ▸ h.ok_id hid
  have hv1 : mm1.vma id = v := (hc.other id hid).trans hvid
  have hne : nvma ≠ id := fun he => hc.notMem (he ▸ hid)
  have hhit : v.hits s e = true := Vma.hits_iff.mpr ⟨by omega, by omega⟩
  obtain ⟨hinv2, rest, hrest, hsp2⟩ := resize_ok (v := v.resize e v.vmEnd) hc.inv
    (hc.list ▸ hid) ⟨h2, he, hv.stop, Nat.le_trans hv.base (by simp; omega), hv.top⟩
    (by rw [hv1]; simp; omega) (by rw [hv1]; simp)
  rw [hv1, hc.space] at hrest
  have hnv : (mm1.setVma id (v.resize e v.vmEnd)).vma nvma = ⟨v.vmStart, s, v.vmFlags, none, 0⟩ := by
    rw [setVma_ne _ _ hne, hc.vma]
  obtain ⟨mm', hins, hinv', hsp', -, hsame⟩ := insertVmaStruct_space hinv2 ok
    (by change nvma ∉ mm1.mmapList; rw [hc.list]; exact hc.notMem) hc.fresh
    (by
      rw [hnv]
      exact ⟨h1, hv.start, hs, hv.base, Nat.le_trans (by simp; omega) hv.top⟩)
    (by
      rw [hnv, hsp2]
      intro u hu
      simp only [Vma.Apart, Lib.Apart]
      rcases mem_cons.mp hu with rfl | hu
      · simp only [Vma.resize_start]
        omega
      have := h.apart_rest hrest hu
      simp only [Vma.Apart, Lib.Apart] at this
      omega)
  refine ⟨_, mm', rest, hcr, ?_, hins, hinv', hrest, ?_, ?_⟩
  · rw [vmaResize, hv1, if_pos ⟨he, hv.stop, by omega, h2, le_rfl⟩]
  · rw [hsp', hnv, hsp2]
    simp [Vma.cut, hhit, h1, h2, ← cons_coe]
  · exact ⟨hsame.brkStart.trans hc.brk.brkStart, hsame.brk.trans hc.brk.brk⟩

def SplitFails (ok : Nat → Bool) (mm : MmStruct) (s e : Nat) : Prop :=
  ok mm.fresh = false ∧ ∃ v ∈ mm.space, v.vmStart < s ∧ e < v.vmEnd

structure Unmapped (mm mm' : MmStruct) (s e : Nat) (eff : List Effect) : Prop where
  space : mm'.space = (mm.areas.flatMap (Vma.cut s e) : List Vma)
  effects : eff = (mm.areas.filter (Vma.hits s e)).reverse.flatMap (Vma.unmapEffects s e)

omit h in
lemma Unmapped.setBrk {s e : Nat} (h : Unmapped mm mm' s e eff) (brk : Nat) :
    Unmapped mm { mm' with brk } s e eff := ⟨h.space, h.effects⟩

omit h in
lemma Unmapped.of_middle {l m r : List Nat} (hl : mm.mmapList = l ++ m ++ r)
    (hlow : ∀ i ∈ l, (mm.vma i).vmEnd ≤ s) (hmid : ∀ i ∈ m, (mm.vma i).hits s e = true)
    (hhigh : ∀ i ∈ r, e ≤ (mm.vma i).vmStart)
    (hsp : mm'.space = (m.reverse.flatMap fun i => (mm.vma i).cut s e : List Vma) + ((l ++ r).map mm.vma : List Vma))
    (heff : eff = m.reverse.flatMap fun i => (mm.vma i).unmapEffects s e) : Unmapped mm mm' s e eff := by
  have hlow' : ∀ v ∈ l.map mm.vma, v.hits s e = false := by
    simp only [List.mem_map]
    rintro _ ⟨i, hi, rfl⟩
    exact not_hits_of_le (.inl (hlow i hi))
  have hhigh' : ∀ v ∈ r.map mm.vma, v.hits s e = false := by
    simp only [List.mem_map]
    rintro _ ⟨i, hi, rfl⟩
    exact not_hits_of_le (.inr (hhigh i hi))
  have hmid' : ∀ v ∈ m.map mm.vma, v.hits s e = true := by
    simpa [List.mem_map] using hmid
  constructor
  · rw [hsp, areas, hl]
    simp only [List.map_append, List.flatMap_append, flatMap_cut hlow', flatMap_cut hhigh', List.flatMap_map, ← coe_add]
    rw [add_comm, add_assoc, add_assoc, add_comm ((r.map mm.vma : List Vma) : Multiset Vma)]
    congr 2
    exact coe_eq_coe.mpr ((List.reverse_perm m).flatMap_right _)
  · rw [heff, areas, hl]
    simp only [List.map_append, List.filter_append, List.filter_eq_nil_iff.mpr fun v hv => by
      simpa using hlow' v hv, List.filter_eq_nil_iff.mpr fun v hv => by simpa using hhigh' v hv,
      List.filter_eq_self.mpr hmid', List.nil_append, List.append_nil, ← List.map_reverse,
      List.flatMap_map]

lemma unmapFrom_ok {l r : List Nat} (ok : Nat → Bool) (hs : s % pgSize = 0)
    (he : e % pgSize = 0) (hse : s < e) (hl : mm.mmapList = l ++ id :: r)
    (hbefore : ∀ u ∈ l, (mm.vma u).vmEnd ≤ s) (hhit : (mm.vma id).hits s e = true) :
    ∃ res mm' eff, unmapFrom ok s e mm id = .ok (res, mm', eff) ∧ Inv mm' ∧ SameBrk mm mm' ∧
      match res with
      | .error _ => SplitFails ok mm s e ∧ mm'.space = mm.space ∧ eff = []
      | .ok () => ¬ SplitFails ok mm s e ∧ Unmapped mm mm' s e eff := by
  have hid : id ∈ mm.mmapList := by simp [hl]
  have hmem : mm.vma id ∈ mm.space := List.mem_map_of_mem hid
  have hord := h.ordered_ids
  simp only [hl, Ordered, List.pairwise_append, List.pairwise_cons] at hord
  rw [unmapFrom]
  by_cases hsplit : (mm.vma id).vmStart < s ∧ e < (mm.vma id).vmEnd
  · rw [if_pos hsplit]
    obtain ⟨mm', hcr, hinv, hsp, hbrk⟩ | ⟨nvma, mm1, mm2, mm', rest, hcr, hres, hins, hinv, hrest, hsp,
      hbrk⟩ := splitVma_ok h ok hid rfl hs he hse hsplit.1 hsplit.2
    all_goals
      have hok := vmaCreate_isSome ok mm (mm.vma id).vmStart s (mm.vma id).vmFlags
      rw [hcr] at hok
    · simp only [hcr]
      exact ⟨.error .noMem, mm', [], rfl, hinv, hbrk, ⟨hok.symm, _, hmem, hsplit⟩, hsp, rfl⟩
    simp only [hcr, hres, hins, bind, Except.bind]
    refine ⟨.ok (), mm', _, rfl, hinv, hbrk, fun hf => by simp [hf.1] at hok,
      .of_middle (m := [id]) (by simpa using hl) hbefore (by simpa using hhit) (fun u hu => ?_) ?_ ?_⟩
    · have := hord.2.1.1 u hu
      omega
    · rw [(space_setVma h hl (mm.vma id)).2, cons_inj_right] at hrest
      rw [hsp, ← hrest]
      simp
    · simp [Vma.unmapEffects, hsplit]
  · rw [if_neg hsplit]
    have hnd := h.nodup
    have hdrop : mm.mmapList.dropWhile (fun i => decide (i ≠ id)) = id :: r := by
      have hne : ∀ i ∈ l, decide (i ≠ id) = true := fun i hi => by
        have : id ∉ l := fun hm => by
          rw [hl] at hnd
          exact (List.nodup_append'.mp hnd).2.2 hm (by simp)
        simpa using ne_of_mem_of_not_mem hi this
      rw [hl, List.dropWhile_append_of_pos hne, List.dropWhile_cons_of_neg (by simp)]
    obtain ⟨mm1, taken, rest, hun, hlr, hinv1, hlist1, hsame, htake, hrest⟩ := unlinkRange_ok [] h hl e
    have hall : mm.mmapList = l ++ taken ++ rest := by rw [hl, hlr, List.append_assoc]
    have hsp1 : mm1.space = ((l ++ rest).map mm.vma : List Vma) := by
      rw [space, areas, hlist1, hsame.vma]
    rw [List.append_nil] at hun
    -- the areas taken out meet the range, and stick out on one side at most
    have hmid : ∀ i ∈ taken, (mm.vma i).hits s e = true ∧ ¬ ((mm.vma i).vmStart < s ∧ e < (mm.vma i).vmEnd) := by
      intro i hi
      have hlt := htake i hi
      have hok := (h.ok_id (show i ∈ mm.mmapList by simp [hall, hi])).lt
      have hhit' := Vma.hits_iff.mp hhit
      have hi' : i ∈ id :: r := by simp [hlr, hi]
      rcases List.mem_cons.mp hi' with rfl | hir
      · exact ⟨hhit, hsplit⟩
      · have := hord.2.1.1 i hir
        exact ⟨Vma.hits_iff.mpr ⟨hlt, by omega⟩, by omega⟩
    have hapall : (l ++ taken ++ rest).Pairwise fun i j => (mm.vma i).Apart (mm.vma j) := by
      rw [← hall]
      exact h.ordered_ids.apart
    have hndall : (l ++ taken ++ rest).Nodup := hall ▸ hnd
    simp only [List.nodup_append', List.pairwise_append, List.mem_append] at hndall hapall
    obtain ⟨mm', hre, hinv', hsp', hbrk'⟩ :=
      relinkRange_ok taken.reverse hinv1 ok hs he (by simpa using hndall.1.2.1) (by
        intro i hi
        rw [List.mem_reverse] at hi
        refine ⟨fun hm => ?_, Nat.lt_of_lt_of_le (h.fresh i (by simp [hall, hi])) hsame.fresh⟩
        rw [hlist1, List.mem_append] at hm
        rcases hm with hm | hm
        · exact hndall.1.2.2 hm hi
        · exact hndall.2.2 (by simp [hi]) hm)
      (by
        intro i hi
        rw [List.mem_reverse] at hi
        rw [hsame.vma]
        exact ⟨h.ok_id (by simp [hall, hi]), hmid i hi⟩)
      (by
        rw [hsame.vma, List.pairwise_reverse]
        exact hapall.1.2.1.imp Lib.Apart.symm)
      (by
        intro i hi u hu
        rw [List.mem_reverse] at hi
        rw [hsp1, mem_coe] at hu
        obtain ⟨j, hj, rfl⟩ := List.mem_map.mp hu
        rw [hsame.vma]
        rcases List.mem_append.mp hj with hj | hj
        · exact Lib.Apart.symm (hapall.1.2.2 j hj i hi)
        · exact hapall.2.2 i (.inr hi) j hj)
    -- an area around the whole range would be the first that meets it
    have hnosplit : ¬ SplitFails ok mm s e := by
      rintro ⟨-, v, hv, h1, h2⟩
      have hhit' := Vma.hits_iff.mp hhit
      have hok := (h.ok _ hmem).lt
      have := h.unique (a := max s (mm.vma id).vmStart) hv hmem ⟨by omega, by omega⟩ ⟨by omega, by omega⟩
      exact hsplit (this ▸ ⟨h1, h2⟩)
    simp only [hdrop, hun, hre, bind, Except.bind]
    refine ⟨.ok (), mm', _, rfl, hinv', hsame.sameBrk.trans hbrk', hnosplit, .of_middle hall hbefore
      (fun i hi => (hmid i hi).1) hrest ?_ ?_⟩
    · rw [hsp', hsp1, hsame.vma]
    · rw [hsame.vma]

lemma mmUnmap_ok (ok : Nat → Bool) (addr len : Nat) :
    ∃ r mm' eff, mmUnmap ok mm addr len = .ok (r, mm', eff) ∧ Inv mm' ∧ SameBrk mm mm' ∧
      match r with
      | .error _ =>
        (userAccess (roundDown addr) (roundUp (addWrap addr len)) = true →
          SplitFails ok mm (roundDown addr) (roundUp (addWrap addr len))) ∧
        mm'.space = mm.space ∧ eff = []
      | .ok () =>
        userAccess (roundDown addr) (roundUp (addWrap addr len)) = true ∧
          ¬ SplitFails ok mm (roundDown addr) (roundUp (addWrap addr len)) ∧
          Unmapped mm mm' (roundDown addr) (roundUp (addWrap addr len)) eff := by
  have hs : roundDown addr % pgSize = 0 := by simp
  have he : roundUp (addWrap addr len) % pgSize = 0 := by simp
  simp only [mmUnmap]
  generalize roundDown addr = s at *
  generalize roundUp (addWrap addr len) = e at *
  cases hua : userAccess s e with
  | false => exact ⟨.error .inval, mm, [], rfl, h, .refl mm, by simp, rfl, rfl⟩
  | true =>
  have hse := (userAccess_iff.mp hua).2.1
  obtain ⟨c, hfind, hinv⟩ := findVmaIntersection_ok h s e
  simp only [Bool.not_true, Bool.false_eq_true, ↓reduceIte, hfind, bind, Except.bind]
  cases hf : firstIn mm s e with
  | none =>
    have hnone : ∀ v ∈ mm.areas, v.hits s e = false := fun v => firstIn_eq_none h hf
    refine ⟨.ok (), _, _, rfl, hinv, ⟨rfl, rfl⟩, trivial, ?_, ?_, ?_⟩
    · rintro ⟨-, v, hv, h1, h2⟩
      have hhit : v.hits s e = true := Vma.hits_iff.mpr ⟨by omega, by omega⟩
      simp [hnone v hv] at hhit
    · rw [flatMap_cut hnone]
      rfl
    · rw [List.filter_eq_nil_iff.mpr (by simpa using hnone)]
      rfl
  | some id =>
    obtain ⟨hhit, l, r, hl, hbefore⟩ := firstIn_eq_some hf
    obtain ⟨res, mm', eff, hun, hinv', hbrk, hres⟩ := unmapFrom_ok hinv ok hs he hse hl hbefore hhit
    refine ⟨res, mm', eff, hun, hinv', ⟨hbrk.brkStart, hbrk.brk⟩, ?_⟩
    cases res with
    | error err => exact ⟨fun _ => hres.1, hres.2⟩
    | ok u => exact ⟨trivial, hres.1, hres.2.space, hres.2.effects⟩

-- mm_brk

omit h in
lemma Unmapped.outside (h : Unmapped mm mm' s e eff) (hu : u ∈ mm'.space) : u.vmEnd ≤ s ∨ e ≤ u.vmStart := by
  rw [h.space, mem_coe, List.mem_flatMap] at hu
  obtain ⟨v, -, hu⟩ := hu
  exact (Vma.mem_cut hu).2.2.1

lemma extend_ok (hid : id ∈ mm.mmapList) (hlt : (mm.vma id).vmEnd ≤ e) (he : e % pgSize = 0) (htop : e ≤ userTop)
    (hout : ∀ u ∈ mm.space, u.vmEnd ≤ (mm.vma id).vmEnd ∨ e ≤ u.vmStart) :
    Inv (mm.setVma id { mm.vma id with vmEnd := e }) ∧ ∃ rest, mm.space = mm.vma id ::ₘ rest ∧
        (mm.setVma id { mm.vma id with vmEnd := e }).space = { mm.vma id with vmEnd := e } ::ₘ rest := by
  obtain ⟨l, r, hl⟩ := List.append_of_mem hid
  have hv := h.ok_id hid
  have hord := h.ordered_ids
  simp only [hl, Ordered, List.pairwise_append, List.pairwise_cons] at hord
  refine ⟨h.setVma_of_mem hl ⟨Nat.lt_of_lt_of_le hv.lt hlt, hv.start, he, hv.base, htop⟩
    (fun u hu => hord.2.2 u hu id (by simp)) (fun u hu => ?_), _,
    (space_setVma h hl { mm.vma id with vmEnd := e }).2, (space_setVma h hl _).1⟩
  have hur : u ∈ mm.mmapList := by simp [hl, hu]
  have := hord.2.1.1 u hu
  have := (h.ok_id hur).lt
  rcases hout (mm.vma u) (List.mem_map_of_mem hur) with h' | h'
  · omega
  · exact h'

def rwFlags : VmFlags := { read := true, write := true }

lemma mmBrk_ok (ok : Nat → Bool) (addr len : Nat) :
    ∃ r mm' eff, mmBrk ok mm addr len = .ok (r, mm', eff) ∧ Inv mm' ∧ SameBrk mm mm' ∧
      ((eff = [] ∧ mm'.space = mm.space ∧ r ≠ .ok ()) ∨
        ∃ mm1, Inv mm1 ∧ Unmapped mm mm1 (roundDown addr) (roundUp (addWrap addr len)) eff ∧
          userAccess (roundDown addr) (roundUp (addWrap addr len)) = true ∧
          match r with
          | .error _ => mm'.space = mm1.space
          | .ok () =>
            mm'.space = ⟨roundDown addr, roundUp (addWrap addr len), rwFlags, none, 0⟩ ::ₘ mm1.space ∨
            ∃ v rest, mm1.space = v ::ₘ rest ∧ v.vmEnd = roundDown addr ∧ v.vmFlags = rwFlags ∧
              mm'.space = { v with vmEnd := roundUp (addWrap addr len) } ::ₘ rest) := by
  have hs : roundDown addr % pgSize = 0 := by simp
  have he : roundUp (addWrap addr len) % pgSize = 0 := by simp
  simp only [mmBrk]
  generalize roundDown addr = s at *
  generalize roundUp (addWrap addr len) = e at *
  cases hua : userAccess s e with
  | false => exact ⟨.error .inval, mm, [], rfl, h, .refl mm, .inl ⟨rfl, rfl, by simp⟩⟩
  | true =>
  obtain ⟨hbase, hse, htop⟩ := userAccess_iff.mp hua
  have hs' : roundDown s = s := roundDown_of_mod hs
  have he' : roundUp (addWrap s (e - s)) = e := by
    rw [addWrap_sub (Nat.le_of_lt hse) (lt_wordSize htop), roundUp_of_mod he (lt_wordSize htop)]
  obtain ⟨r1, mm1, eff, hun, hinv1, hbrk1, hr1⟩ := mmUnmap_ok h ok s (e - s)
  rw [hs', he'] at hr1
  simp only [Bool.not_true, Bool.false_eq_true, ↓reduceIte, hun, bind, Except.bind]
  cases r1 with
  | error err =>
    obtain ⟨-, hsp, rfl⟩ := hr1
    exact ⟨.error err, mm1, [], rfl, hinv1, hbrk1, .inl ⟨rfl, hsp, by simp⟩⟩
  | ok _ =>
  obtain ⟨-, -, hunm⟩ := hr1
  obtain ⟨c, hfind, hinv2⟩ := findVma_ok hinv1 (s - 1)
  simp only [hfind]
  cases hf : (firstAfter mm1 (s - 1)).filter fun id => decide ((mm1.vma id).vmEnd = s ∧
      (mm1.vma id).vmFlags = { read := true, write := true }) with
  | some id =>
    simp only [Option.filter_eq_some_iff, decide_eq_true_eq] at hf
    obtain ⟨hfa, hend, hflags⟩ := hf
    obtain ⟨hid, -⟩ := firstAfter_mem hfa
    obtain ⟨hinv', rest, hrest, hsp'⟩ := extend_ok hinv2 hid (e := e) (by simp [hend]; omega) he htop
      (fun u hu => by rw [hend]; exact hunm.outside hu)
    exact ⟨.ok (), _, eff, rfl, hinv', ⟨hbrk1.brkStart, hbrk1.brk⟩, .inr ⟨mm1, hinv1, hunm, trivial,
      .inr ⟨_, rest, hrest, hend, hflags, hsp'⟩⟩⟩
  | none =>
    obtain ⟨mm', hcr, hinv', hsp, hbrk⟩ | ⟨id, mm', hcr, hcreated⟩ := vmaCreate_ok hinv2 ok s e rwFlags
    · simp only [rwFlags] at hcr
      simp only [hcr]
      exact ⟨.error .noMem, mm', eff, rfl, hinv', ⟨hbrk.brkStart.trans hbrk1.brkStart, hbrk.brk.trans hbrk1.brk⟩,
        .inr ⟨mm1, hinv1, hunm, trivial, hsp⟩⟩
    obtain ⟨mm'', hins, hinv'', hsp, -, -, hbrk⟩ := insertCreated_ok hcreated ok (range_ok hs he hua ⟨rfl, rfl⟩)
      (fun u hu => apart_of_not_hits (not_hits_of_le (hunm.outside hu)))
    simp only [rwFlags] at hcr
    simp only [hcr, hins]
    exact ⟨.ok (), mm'', eff, rfl, hinv'', ⟨hbrk.brkStart.trans hbrk1.brkStart, hbrk.brk.trans hbrk1.brk⟩,
      .inr ⟨mm1, hinv1, hunm, trivial, .inl hsp⟩⟩

end

-- dup_mmap

def Vma.dup (v : Vma) : Vma := if v.vmFlags.share then v else { v with shmem := none, shmemOff := 0 }

@[simp] lemma Vma.dup_start (v : Vma) : v.dup.vmStart = v.vmStart := by unfold Vma.dup; split <;> rfl
@[simp] lemma Vma.dup_end (v : Vma) : v.dup.vmEnd = v.vmEnd := by unfold Vma.dup; split <;> rfl
@[simp] lemma Vma.dup_flags (v : Vma) : v.dup.vmFlags = v.vmFlags := by unfold Vma.dup; split <;> rfl

lemma dupVma_ok (h : Inv mm) (ok : Nat → Bool) (hv : v.Ok) (hap : ∀ u ∈ mm.space, v.Apart u) :
    ∃ r mm', dupVma ok mm v = .ok (r, mm') ∧ Inv mm' ∧ SameBrk mm mm' ∧
      match r with
      | .error _ => mm'.space = mm.space
      | .ok () => mm'.space = v.dup ::ₘ mm.space := by
  rw [dupVma]
  obtain ⟨mm', hcr, hinv, hsp, hbrk⟩ | ⟨id, mm1, hcr, hc⟩ := vmaCreate_ok h ok v.vmStart v.vmEnd v.vmFlags
  · simp only [hcr]
    exact ⟨.error .noMem, mm', rfl, hinv, hbrk, hsp⟩
  simp only [hcr]
  have hc2 : Created mm (if v.vmFlags.share then
      mm1.setVma id { mm1.vma id with shmem := v.shmem, shmemOff := v.shmemOff } else mm1) id v.dup := by
    unfold Vma.dup
    split
    · have hid : id ∉ mm1.mmapList := by rw [hc.list]; exact hc.notMem
      refine ⟨hc.inv.setVma_of_notMem _ hid, ?_, hc.list, ?_, fun i hi => ?_, hc.notMem, hc.fresh,
        ⟨hc.brk.brkStart, hc.brk.brk⟩⟩
      · exact (congrArg ofList (areas_setVma_of_notMem _ hid)).trans hc.space
      · rw [setVma_same, hc.vma]
      · grind [setVma_ne, hc.notMem, hc.other]
    · exact hc
  obtain ⟨mm', hins, hinv, hsp, -, -, hbrk⟩ := insertCreated_ok hc2 ok
    ⟨by simpa using hv.lt, by simpa using hv.start, by simpa using hv.stop, by simpa using hv.base, by simpa using hv.top⟩
    (by simpa [Vma.Apart, Lib.Apart] using hap)
  exact ⟨.ok (), mm', by simp [hins, bind, Except.bind], hinv, hbrk, hsp⟩

lemma dupLoop_ok {l : List Vma} (h : Inv mm) (ok : Nat → Bool) (copied : Vma → Bool)
    (hv : ∀ v ∈ l, v.Ok) (hap : l.Pairwise Vma.Apart) (hout : ∀ v ∈ l, ∀ u ∈ mm.space, v.Apart u) :
    ∃ r mm' done rest, dupLoop ok copied l mm = .ok (r, mm') ∧ Inv mm' ∧ SameBrk mm mm' ∧
      l = done ++ rest ∧ mm'.space = (done.map Vma.dup : List Vma) + mm.space ∧
      (r = .ok () → rest = []) := by
  induction l generalizing mm with
  | nil => exact ⟨.ok (), mm, [], [], rfl, h, .refl mm, rfl, by simp, by simp⟩
  | cons v l ih =>
    simp only [List.mem_cons, forall_eq_or_imp, List.pairwise_cons] at hv hap hout
    obtain ⟨r1, mm1, hdup, hinv1, hbrk1, hr1⟩ := dupVma_ok h ok hv.1 hout.1
    simp only [dupLoop, hdup, bind, Except.bind]
    cases r1 with
    | error err => exact ⟨.error err, mm1, [], v :: l, rfl, hinv1, hbrk1, rfl, by simpa using hr1, by simp⟩
    | ok _ =>
      simp only at hr1
      cases hcopy : copied v with
      | false => exact ⟨.error .noMem, mm1, [v], l, rfl, hinv1, hbrk1, rfl, by simpa using hr1, by simp⟩
      | true =>
        obtain ⟨r, mm', done, rest, hloop, hinv', hbrk', hl, hsp', hok⟩ := ih hinv1 hv.2 hap.2 (by
            intro w hw u hu
            rw [hr1] at hu
            rcases mem_cons.mp hu with rfl | hu
            · have := Lib.Apart.symm (hap.1 w hw)
              simpa [Vma.Apart, Lib.Apart] using this
            · exact hout.2 w hw u hu)
        refine ⟨r, mm', v :: done, rest, hloop, hinv', hbrk1.trans hbrk', by simp [hl], ?_, hok⟩
        rw [hsp', hr1, List.map_cons, ← cons_coe, Multiset.add_cons, Multiset.cons_add]

end Ucore.Mm
