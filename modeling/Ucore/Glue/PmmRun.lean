import Ucore.Glue.Pmm
import Ucore.Lib.Safe

/-!
# Who has which frame

A frame that a call of `alloc_pages` got is described by a structure of its own, and the
structures lie in frames that nobody else has.
-/

namespace Ucore.Glue

open Function Ucore.Lib Ucore.Supervisor

@[irreducible] def paOf (g : Nat) : Nat := (g + 0x10000) * 4096

lemma paOf_inj {g q : Nat} (h : paOf g = paOf q) : g = q := by
  unfold paOf at h
  omega

namespace Pmm

variable {s s' : Pmm} {c d g i k m n q : Nat} {r : PageRef} {who : Owner} {pend : Nat → Prop}
  {buddy : Buddy}

lemma page2pa_some (hg : g < 0xFFFF0000) : s.page2pa (some g) = paOf g := by
  rw [page2pa, page2gidx, word, reservedDriverOsSize, pgSize, paOf]
  omega

lemma word_paOf (hg : g + i < 0xFFFF0000) : word (paOf g + i * pgSize) = paOf (g + i) := by
  rw [word, pgSize, paOf, paOf]
  omega

lemma pa2page_paOf (hnpage : s.buddy.npage ≤ 0xFFFF0000) (hg : g < s.buddy.npage) : s.pa2page (paOf g) = .ok g := by
  have hidx : word (paOf g + (0x10000000000000000 - reservedDriverOsSize)) / pgSize = g := by
    rw [word, pgSize, reservedDriverOsSize, paOf]
    omega
  rw [pa2page, hidx]
  exact if_neg (Nat.not_le.mpr hg)

section

variable (hwindow : 0xFFFF800000000000 ≤ s.pages ∧ s.pages < 0xFFFF900000000000)
include hwindow

lemma page2pa_none :
    ∃ x, 0x100000000 ≤ x ∧ s.page2pa none = paOf x ∧
    word (paOf x + (0x10000000000000000 - reservedDriverOsSize)) / pgSize = x := by
  refine ⟨word (0x10000000000000000 - s.pages) / sizeofSvPage, ?_, ?_, ?_⟩
  · rw [word, sizeofSvPage]
    omega
  · rw [page2pa, page2gidx, word, word, reservedDriverOsSize, pgSize, sizeofSvPage, paOf]
    omega
  · rw [word, word, reservedDriverOsSize, pgSize, sizeofSvPage, paOf]
    omega

lemma pa2page_none (hnpage : s'.buddy.npage ≤ 0xFFFF0000) : s'.pa2page (s.page2pa none) = .error .badPa := by
  grind [pa2page, page2pa_none]

end

-- Invariant

def Struct (s : Pmm) (r : PageRef) : Prop :=
    ∃ g, s.owner g = some .pageStructs ∧ r.frame = paOf g ∧ r.place < structsPerPage

def Described (s : Pmm) (q : Nat) : Prop :=
  ∃ r, s.kpagePrivate q = some r ∧ s.pa r = paOf q ∧ s.Struct r ∧ ∀ c, r ∉ s.pageStructFreeList c

structure Ok (pend : Nat → Prop) (s : Pmm) : Prop where
  inv : s.buddy.Inv (s.owner · ≠ none)
  window : 0xFFFF800000000000 ≤ s.pages ∧ s.pages < 0xFFFF900000000000
  described : ∀ q k, s.owner q = some (.call k) → pend q ∨ s.Described q
  structs : ∀ c, ∀ r ∈ s.pageStructFreeList c, s.Struct r
  nodup : ∀ c, (s.pageStructFreeList c).Nodup
  disjoint : ∀ c d r, r ∈ s.pageStructFreeList c → r ∈ s.pageStructFreeList d → c = d

def capacity (s : Pmm) (c : Nat) : Nat := (s.pageStructFreeList c).length + structsPerPage * s.buddy.buddyNrFreePages

structure Grown (s s' : Pmm) : Prop where
  pages : s'.pages = s.pages
  calls : s'.calls = s.calls
  zones : Buddy.SameZones s.buddy s'.buddy
  owner : ∀ q, s'.owner q = s.owner q ∨ s.owner q = none ∧ s'.owner q = some .pageStructs

lemma Grown.refl (s : Pmm) : Grown s s := ⟨rfl, rfl, .refl _, fun _ => .inl rfl⟩

lemma Grown.owned (h : Grown s s') (hq : s.owner q = some who) : s'.owner q = some who := by
  grind [h.owner]

lemma Grown.call (h : Grown s s') (hq : s'.owner q = some (.call k)) : s.owner q = some (.call k) := by
  grind [h.owner]

lemma Grown.trans {s'' : Pmm} (h : Grown s s') (h' : Grown s' s'') : Grown s s'' := by
  refine ⟨h'.pages.trans h.pages, h'.calls.trans h.calls, h.zones.trans h'.zones, fun q => ?_⟩
  grind [h'.owner, h.owner]

lemma Ok.imp {pend' : Nat → Prop} (h : Ok pend s) (hp : ∀ q, pend q → pend' q) : Ok pend' s :=
  ⟨h.inv, h.window, fun q k hq => (h.described q k hq).imp_left (hp q), h.structs, h.nodup, h.disjoint⟩

lemma Ok.npage (h : Ok pend s) : s.buddy.npage ≤ 0xFFFF0000 := h.inv.npage

lemma Ok.lt_npage (h : Ok pend s) (hq : s.owner q = some who) : q < s.buddy.npage := by
  refine (h.inv.zones q (h.inv.taken q ?_)).1
  rw [hq]
  exact Option.some_ne_none _

lemma Ok.lt_max (h : Ok pend s) (hq : s.owner q = some who) : q < 0xFFFF0000 :=
    Nat.lt_of_lt_of_le (h.lt_npage hq) h.npage

-- Asking the supervisor

def granted (who : Owner) (g n : Nat) (buddy : Buddy) (s : Pmm) : Pmm :=
  { s with buddy := buddy, owner := fun q => if inBlock g n q then some who else s.owner q }

lemma granted_owner : (s.granted who g n buddy).owner q = if g ≤ q ∧ q < g + n then some who else s.owner q := by
  change (if inBlock g n q then some who else s.owner q) = _
  simp only [inBlock, decide_eq_true_eq]

structure Found (g n : Nat) (buddy : Buddy) (s : Pmm) : Prop where
  free : ∀ q, g ≤ q → q < g + n → s.owner q = none ∧ s.buddy.pageReserved q = false ∧
    s.buddy.zoneNum q = s.buddy.zoneNum g
  zones : Buddy.SameZones s.buddy buddy
  left : buddy.buddyNrFreePages + n = s.buddy.buddyNrFreePages
  inv : ∀ who, (s.granted who g n buddy).buddy.Inv ((s.granted who g n buddy).owner · ≠ none)
  lt : g + n ≤ 0xFFFF0000

lemma kallocPages_found (h : s.buddy.Inv (s.owner · ≠ none)) (hn : 0 < n) (hblock : s.buddy.HasBlock n) (who : Owner) :
    ∃ g buddy, s.kallocPages who n = .ok (paOf g, s.granted who g n buddy) ∧ Found g n buddy s := by
  have hmax : n ≤ blockSize maxOrder := by
    obtain ⟨k, hk, -⟩ := hblock
    rw [Buddy.getorder] at hk
    split at hk
    · rename_i k' hfind
      have hle := List.mem_range.mp (List.mem_of_find?_eq_some hfind)
      exact Nat.le_trans (by simpa using List.find?_some hfind) (blockSize_le (Nat.le_of_lt_succ hle))
    · cases hk
  rcases Buddy.buddyAllocPages_ok h hn hmax with ⟨-, hno⟩ | ⟨-, g, buddy, hb, ha⟩
  · exact absurd hblock hno
  have hlt : g + n ≤ 0xFFFF0000 := by
    have hlast := (ha.free (g + n - 1) (by omega) (by omega)).1
    have hlt := (h.zones (g + n - 1) hlast).1
    have hnpage := h.npage
    omega
  refine ⟨g, buddy, ?_, fun q hle hlt => ?_, ha.same, ha.nrFreePages h, fun who => ?_, hlt⟩
  · have hpa : s.page2pa (some g) = paOf g := page2pa_some (by omega)
    rw [kallocPages, hb, ← hpa]
    rfl
  · grind [ha.free]
  · refine ha.inv.congr fun q => ?_
    rw [granted_owner]
    by_cases hq : g ≤ q ∧ q < g + n
    · simp [hq]
    · simp [hq]

lemma kallocPages_none (h : s.buddy.Inv (s.owner · ≠ none)) (hno : ¬ (0 < n ∧ s.buddy.HasBlock n)) (who : Owner) :
    s.kallocPages who n = .ok (s.page2pa none, s) ∨ ∃ e, s.kallocPages who n = .error e := by
  rw [kallocPages]
  by_cases hn : 0 < n
  · by_cases hmax : n ≤ blockSize maxOrder
    · rcases Buddy.buddyAllocPages_ok h hn hmax with ⟨hb, -⟩ | ⟨hblock, -⟩
      · rw [hb]
        exact .inl rfl
      · exact absurd ⟨hn, hblock⟩ hno
    have herr : s.buddy.buddyAllocPages n = .error .assertion := by
      have horder : Buddy.getorder n = .error .assertion := by
        rw [Buddy.getorder, List.find?_eq_none.mpr]
        intro k hk
        have hle := blockSize_le (Nat.le_of_lt_succ (List.mem_range.mp hk))
        simp only [decide_eq_true_eq]
        omega
      rw [Buddy.buddyAllocPages, if_neg (by omega), horder]
      rfl
    rw [herr]
    exact .inr ⟨_, rfl⟩
  · have herr : s.buddy.buddyAllocPages n = .error .assertion := if_pos (by omega)
    rw [herr]
    exact .inr ⟨_, rfl⟩

lemma Grown.struct (h : Grown s s') (hr : s.Struct r) : s'.Struct r := by
  obtain ⟨g, hg, hframe⟩ := hr
  exact ⟨g, h.owned hg, hframe⟩

lemma Found.grown (h : Found g n buddy s) : Grown s (s.granted .pageStructs g n buddy) := by
  refine ⟨rfl, rfl, h.zones, fun q => ?_⟩
  grind [granted_owner, h.free]

def allStructs (frame : Nat) : List PageRef := (List.range structsPerPage).reverse.map fun i => ⟨frame, i⟩

lemma allStructs_eq (frame : Nat) : allStructs frame = ⟨frame, structsPerPage - 1⟩ :: newStructs frame := rfl

lemma mem_allStructs {frame : Nat} (h : r ∈ allStructs frame) : r.frame = frame ∧ r.place < structsPerPage := by
  obtain ⟨i, hi, rfl⟩ := List.mem_map.mp h
  exact ⟨rfl, List.mem_range.mp (List.mem_reverse.mp hi)⟩

def refilled (c g : Nat) (buddy : Buddy) (s : Pmm) : Pmm :=
  { s.granted .pageStructs g 1 buddy with pageStructFreeList := update s.pageStructFreeList c (allStructs (paOf g)) }

lemma Ok.refilled (h : Ok pend s) (hf : Found g 1 buddy s) : Ok pend (s.refilled c g buddy) := by
  have hgrown := hf.grown
  have hmono : ∀ r, s.Struct r → (s.refilled c g buddy).Struct r := fun r => hgrown.struct
  have hself : (s.refilled c g buddy).pageStructFreeList c = allStructs (paOf g) := update_self ..
  have hother :
    ∀ d, d ≠ c → (s.refilled c g buddy).pageStructFreeList d = s.pageStructFreeList d := fun d hd => update_of_ne hd ..
  -- The frame was free, and no structure lies in it.
  have hnew : ∀ r, s.Struct r → r ∉ allStructs (paOf g) := by
    rintro r ⟨g', hg', hframe, -⟩ hmem
    have hgg : g' = g := paOf_inj (hframe.symm.trans (mem_allStructs hmem).1)
    rw [hgg, (hf.free g (Nat.le_refl g) (Nat.lt_succ_self g)).1] at hg'
    cases hg'
  refine ⟨hf.inv _, h.window, fun q k hq => ?_, fun d r hr => ?_, fun d => ?_, fun d b r hd hb => ?_⟩
  · refine (h.described q k (hgrown.call hq)).imp_right ?_
    rintro ⟨r, hr, hpa, hstruct, hout⟩
    refine ⟨r, hr, hpa, hmono r hstruct, fun d => ?_⟩
    grind
  · by_cases hd : d = c
    · rw [hd, hself] at hr
      have howner : (s.granted .pageStructs g 1 buddy).owner g = some .pageStructs := by
        rw [granted_owner, if_pos ⟨Nat.le_refl g, Nat.lt_succ_self g⟩]
      exact ⟨g, howner, mem_allStructs hr⟩
    · rw [hother d hd] at hr
      exact hmono r (h.structs d r hr)
  · by_cases hd : d = c
    · rw [hd, hself]
      exact (List.nodup_reverse.mpr List.nodup_range).map fun i j hij => (PageRef.mk.inj hij).2
    · rw [hother d hd]
      exact h.nodup d
  · grind [h.structs, h.disjoint]

structure Filled (c pa : Nat) (r : PageRef) (s s' : Pmm) : Prop where
  grown : Grown s s'
  capacity : s'.capacity c + 1 = s.capacity c
  pa : s'.pa r = pa
  struct : s'.Struct r
  out : ∀ d, r ∉ s'.pageStructFreeList d
  kept : s'.kpagePrivate = s.kpagePrivate

lemma Ok.fillStruct {rest : List PageRef} (h : Ok pend s) (pa : Nat) (hq : s.pageStructFreeList c = r :: rest) :
    Ok pend (s.fillStruct c pa r rest) ∧ Filled c pa r s (s.fillStruct c pa r rest) := by
  have hmem : r ∈ s.pageStructFreeList c := hq ▸ List.mem_cons_self
  have hnodup : (r :: rest).Nodup := hq ▸ h.nodup c
  have hself : (s.fillStruct c pa r rest).pageStructFreeList c = rest := update_self ..
  have hother :
    ∀ d, d ≠ c → (s.fillStruct c pa r rest).pageStructFreeList d = s.pageStructFreeList d := fun d hd => update_of_ne hd ..
  have hsub : ∀ d x, x ∈ (s.fillStruct c pa r rest).pageStructFreeList d → x ∈ s.pageStructFreeList d := by
    intro d x hx
    by_cases hd : d = c
    · grind
    · rwa [hother d hd] at hx
  refine ⟨⟨h.inv, h.window, fun q k hk => (h.described q k hk).imp_right ?_,
    fun d x hx => h.structs d x (hsub d x hx), fun d => ?_,
    fun d b x hd hb => h.disjoint d b x (hsub d x hd) (hsub b x hb)⟩, ⟨⟨rfl, rfl, .refl _, fun _ => .inl rfl⟩, ?_,
      update_self .., h.structs c r hmem, fun d hd => ?_, rfl⟩⟩
  · rintro ⟨x, hx, hpa, hstruct, hout⟩
    have hne : x ≠ r := fun heq => hout c (heq ▸ hmem)
    exact ⟨x, hx, (update_of_ne hne ..).trans hpa, hstruct, fun d hd => hout d (hsub d x hd)⟩
  · by_cases hd : d = c
    · rw [hd, hself]
      exact (List.nodup_cons.mp hnodup).2
    · rw [hother d hd]
      exact h.nodup d
  · unfold Pmm.capacity
    rw [hself, hq, List.length_cons]
    change rest.length + structsPerPage * s.buddy.buddyNrFreePages + 1 = _
    omega
  · grind [h.disjoint]

section

variable {frame : Nat}
  (pa : Nat)
  (hq : s.pageStructFreeList c = [])
  (hk : s.kallocPages .pageStructs 1 = .ok (frame, s'))
include pa hq hk

lemma pageStructAlloc_nil
    (hmapped : frame < reservedDriverOsSize + s'.buddy.npage * pgSize) :
    s.pageStructAlloc c pa =
    .ok (⟨frame, structsPerPage - 1⟩, s'.fillStruct c pa ⟨frame, structsPerPage - 1⟩ (newStructs frame)) := by
  rw [pageStructAlloc, hq]
  dsimp only
  rw [hk]
  exact if_pos hmapped

lemma pageStructAlloc_unmapped (hmapped : ¬ frame < reservedDriverOsSize + s'.buddy.npage * pgSize) :
    s.pageStructAlloc c pa = .error .kernelFault := by
  rw [pageStructAlloc, hq]
  dsimp only
  rw [hk]
  exact if_neg hmapped

end

lemma fillStruct_refilled {pa : Nat} {rest : List PageRef} :
    (s.granted .pageStructs g 1 buddy).fillStruct c pa r rest = (s.refilled c g buddy).fillStruct c pa r rest := by
  unfold Pmm.fillStruct Pmm.refilled
  dsimp only
  rw [Function.update_idem]
  rfl

lemma capacity_refilled (hf : Found g 1 buddy s) (hq : s.pageStructFreeList c = []) :
    (s.refilled c g buddy).capacity c = s.capacity c := by
  have hlen : ((s.refilled c g buddy).pageStructFreeList c).length = structsPerPage := by
    rw [show (s.refilled c g buddy).pageStructFreeList c = allStructs (paOf g) from update_self ..]
    simp [allStructs]
  rw [Pmm.capacity, Pmm.capacity, hlen, hq, List.length_nil, ← hf.left, Nat.mul_add, Nat.mul_one]
  exact (Nat.add_comm ..).trans (Nat.zero_add _).symm

lemma Found.mapped (hf : Found g 1 buddy s) : paOf g < reservedDriverOsSize + buddy.npage * pgSize := by
  have hinv := hf.inv .pageStructs
  have howned : (s.granted .pageStructs g 1 buddy).owner g ≠ none := by
    rw [granted_owner, if_pos ⟨Nat.le_refl g, Nat.lt_succ_self g⟩]
    exact Option.some_ne_none _
  have hlt : g < buddy.npage := (hinv.zones g (hinv.taken g howned)).1
  unfold paOf
  rw [reservedDriverOsSize, pgSize]
  omega

section

variable (h : Ok pend s)
include h

lemma pageStructAlloc_ok (hcap : 0 < s.capacity c) (pa : Nat) :
    ∃ r s', s.pageStructAlloc c pa = .ok (r, s') ∧ Ok pend s' ∧ Filled c pa r s s' := by
  cases hq : s.pageStructFreeList c with
  | cons r rest =>
    refine ⟨r, _, ?_, h.fillStruct pa hq⟩
    rw [pageStructAlloc, hq]
  | nil =>
    have hfree : 0 < s.buddy.buddyNrFreePages := by
      rw [Pmm.capacity, hq, List.length_nil, Nat.zero_add] at hcap
      exact Nat.pos_of_mul_pos_left hcap
    obtain ⟨g, buddy, hk, hf⟩ := kallocPages_found h.inv Nat.one_pos (h.inv.hasBlock_one.mpr hfree) .pageStructs
    have hcons : (s.refilled c g buddy).pageStructFreeList c = ⟨paOf g, structsPerPage - 1⟩ :: newStructs (paOf g) := by
      rw [← allStructs_eq]
      exact update_self ..
    have hnew := pageStructAlloc_nil pa hq hk hf.mapped
    rw [fillStruct_refilled] at hnew
    obtain ⟨hok, hfill⟩ := (h.refilled hf).fillStruct pa hcons
    have hgrown : Grown s (s.refilled c g buddy) := ⟨rfl, rfl, hf.zones, hf.grown.owner⟩
    have hcapacity := hfill.capacity
    rw [capacity_refilled hf hq] at hcapacity
    exact ⟨_, _, hnew, hok, hgrown.trans hfill.grown, hcapacity, hfill.pa, hfill.struct, hfill.out, hfill.kept⟩

lemma pageStructAlloc_fails (hcap : s.capacity c = 0) (pa : Nat) : ∃ e, s.pageStructAlloc c pa = .error e := by
  rw [Pmm.capacity, Nat.add_eq_zero_iff] at hcap
  have hfree : s.buddy.buddyNrFreePages = 0 := (Nat.mul_eq_zero.mp hcap.2).resolve_left (by decide)
  have hno : ¬ (0 < 1 ∧ s.buddy.HasBlock 1) := by
    rintro ⟨-, hblock⟩
    have hpos := h.inv.hasBlock_one.mp hblock
    rw [hfree] at hpos
    exact Nat.lt_irrefl 0 hpos
  have hnil := List.eq_nil_of_length_eq_zero hcap.1
  rcases kallocPages_none h.inv hno .pageStructs with hk | ⟨e, hk⟩
  · refine ⟨_, pageStructAlloc_unmapped pa hnil hk ?_⟩
    obtain ⟨x, hx, hpa, -⟩ := page2pa_none h.window
    have hnpage := h.npage
    rw [hpa]
    unfold paOf
    rw [reservedDriverOsSize, pgSize]
    omega
  refine ⟨e, ?_⟩
  rw [pageStructAlloc, hnil]
  dsimp only
  rw [hk]
  rfl

-- One frame after the other

lemma describe_ok (hcap : 0 < s.capacity c) (hq : s.owner q = some (.call k)) :
    ∃ r s', s.describe c (paOf q) = .ok (r, s') ∧ Ok (fun x => pend x ∧ x ≠ q) s' ∧ Grown s s' ∧
    s'.capacity c + 1 = s.capacity c ∧
    s'.kpagePrivate = update s.kpagePrivate q (some r) := by
  obtain ⟨r, t, ht, hok, hfill⟩ := pageStructAlloc_ok h hcap (paOf q)
  have hpage : t.pa2page (paOf q) = .ok q := pa2page_paOf hok.npage (hok.lt_npage (hfill.grown.owned hq))
  have hset : t.kpagePrivateSet (paOf q) r = .ok { t with kpagePrivate := update t.kpagePrivate q (some r) } := by
    rw [kpagePrivateSet, hpage]
    rfl
  refine ⟨r, { t with kpagePrivate := update t.kpagePrivate q (some r) }, ?_,
    ⟨hok.inv, hok.window, fun x j hx => ?_, hok.structs, hok.nodup, hok.disjoint⟩,
    ⟨hfill.grown.pages, hfill.grown.calls, hfill.grown.zones, hfill.grown.owner⟩, hfill.capacity, ?_⟩
  · rw [describe, ht]
    change (t.kpagePrivateSet (paOf q) r >>= fun s => .ok (r, s)) = _
    rw [hset]
    rfl
  · by_cases hxq : x = q
    · subst hxq
      exact .inr ⟨r, update_self .., hfill.pa, hfill.struct, hfill.out⟩
    rcases hok.described x j hx with hpend | ⟨y, hy, hrest⟩
    · exact .inl ⟨hpend, hxq⟩
    · exact .inr ⟨y, (update_of_ne hxq ..).trans hy, hrest⟩
  · rw [hfill.kept]

lemma describe_fails (hcap : s.capacity c = 0) (pa : Nat) : ∃ e, s.describe c pa = .error e := by
  obtain ⟨e, he⟩ := pageStructAlloc_fails h hcap pa
  refine ⟨e, ?_⟩
  rw [describe, he]
  rfl

lemma describe_none : ∃ e, s.describe c (s.page2pa none) = .error e := by
  by_cases hcap : s.capacity c = 0
  · exact describe_fails h hcap _
  obtain ⟨r, t, ht, hok, -⟩ := pageStructAlloc_ok h (Nat.pos_of_ne_zero hcap) (s.page2pa none)
  refine ⟨.badPa, ?_⟩
  rw [describe, ht]
  change (t.kpagePrivateSet (s.page2pa none) r >>= fun s => .ok (r, s)) = _
  rw [kpagePrivateSet, pa2page_none h.window hok.npage]
  rfl

end

structure Waiting (g n k i : Nat) (s : Pmm) : Prop where
  ok : Ok (fun x => g + i ≤ x ∧ x < g + n) s
  owned : ∀ x, g ≤ x → x < g + n → s.owner x = some (.call k)

lemma Waiting.describe (h : Waiting g n k i s) (hcap : 0 < s.capacity c) (hi : i < n) :
    ∃ r s', s.describe c (word (paOf g + i * pgSize)) = .ok (r, s') ∧ Waiting g n k (i + 1) s' ∧ Grown s s' ∧
    s'.capacity c + 1 = s.capacity c ∧ s'.kpagePrivate = update s.kpagePrivate (g + i) (some r) := by
  have hq := h.owned (g + i) (Nat.le_add_right g i) (Nat.add_lt_add_left hi g)
  rw [word_paOf (h.ok.lt_max hq)]
  obtain ⟨r, s', hs, hok, hgrown, hcapacity, hset⟩ := describe_ok h.ok hcap hq
  refine ⟨r, s', hs, ⟨hok.imp fun x hx => ?_, fun x hle hlt => hgrown.owned (h.owned x hle hlt)⟩,
    hgrown, hcapacity, hset⟩
  obtain ⟨⟨hle, hlt⟩, hne⟩ := hx
  omega

lemma describeRest_ok (h : Waiting g n k i s) (hn : i + m = n) (hcap : m ≤ s.capacity c) :
    ∃ s', describeRest c (paOf g) i m s = .ok s' ∧ Waiting g n k n s' ∧ Grown s s' ∧
    ∀ x, x < g + i → s'.kpagePrivate x = s.kpagePrivate x := by
  induction m generalizing i s with
  | zero =>
    rw [Nat.add_zero] at hn
    exact ⟨s, rfl, hn ▸ h, .refl s, fun _ _ => rfl⟩
  | succ m ih =>
    obtain ⟨r, t, ht, hwait, hgrown, hcapacity, hset⟩ := h.describe (Nat.lt_of_lt_of_le (Nat.succ_pos m) hcap) (by omega)
    obtain ⟨s', hs', hwait', hgrown', hkept⟩ := ih hwait (by omega) (by omega)
    refine ⟨s', ?_, hwait', hgrown.trans hgrown', fun x hx => ?_⟩
    · rw [describeRest, ht]
      exact hs'
    · rw [hkept x (by omega), hset, update_of_ne (by omega)]

lemma describeRest_fails (h : Waiting g n k i s) (hn : i + m = n) (hcap : s.capacity c < m) :
    ∃ e, describeRest c (paOf g) i m s = .error e := by
  induction m generalizing i s with
  | zero => exact absurd hcap (Nat.not_lt_zero _)
  | succ m ih =>
    by_cases hzero : s.capacity c = 0
    · obtain ⟨e, he⟩ := describe_fails h.ok hzero (word (paOf g + i * pgSize))
      refine ⟨e, ?_⟩
      rw [describeRest, he]
      rfl
    obtain ⟨r, t, ht, hwait, -, hcapacity, -⟩ := h.describe (Nat.pos_of_ne_zero hzero) (by omega)
    obtain ⟨e, he⟩ := ih hwait (by omega) (by omega)
    refine ⟨e, ?_⟩
    rw [describeRest, ht]
    exact he

-- Allocating

def FreeFrame (s : Pmm) (q : Nat) : Prop := ∃ k p, p ∈ s.buddy.freeList k ∧ Blk p k q

/-- `alloc_pages` has given frames away: they were free, they have structures, the
first of which is the one that is returned, and this call alone has them. -/
def Handed (n : Nat) (page : PageRef) (s s' : Pmm) : Prop :=
  ∃ g, s'.kpagePrivate g = some page ∧ (∀ q, g ≤ q → q < g + n → s.FreeFrame q ∧ ¬ s'.FreeFrame q ∧ s'.Described q) ∧
    (∀ q, s'.owner q = some (.call s.calls) ↔ g ≤ q ∧ q < g + n) ∧
    ∀ q who, s.owner q = some who → s'.owner q = some who

def Room (s : Pmm) (c n : Nat) : Prop :=
  0 < n ∧ s.buddy.HasBlock n ∧ n ≤ (s.pageStructFreeList c).length + structsPerPage * (s.buddy.buddyNrFreePages - n)

lemma Ok.freeFrame_iff (h : Ok pend s) : s.FreeFrame q ↔ s.buddy.pageReserved q = false ∧ s.owner q = none := by
  constructor
  · rintro ⟨k, p, hp, hq⟩
    obtain ⟨hres, -, hfree⟩ := h.inv.inZone k p hp q hq
    exact ⟨hres, not_not.mp hfree⟩
  · rintro ⟨hres, hnone⟩
    exact (h.inv.cover q hres).resolve_left fun hne => hne hnone

structure Good (s : Pmm) : Prop where
  ok : Ok (fun _ => False) s
  fresh : ∀ q k, s.owner q = some (.call k) → k < s.calls

lemma Good.granted (h : s.Good) (hf : Found g n buddy s) :
    Waiting g n s.calls 0 (s.granted (.call s.calls) g n buddy) := by
  have hold : ∀ q who, s.owner q = some who → (s.granted (.call s.calls) g n buddy).owner q = some who := by
    intro q who hq
    rw [granted_owner, if_neg, hq]
    rintro ⟨hle, hlt⟩
    rw [(hf.free q hle hlt).1] at hq
    cases hq
  have hstruct : ∀ r, s.Struct r → (s.granted (.call s.calls) g n buddy).Struct r := by
    rintro r ⟨x, hx, hframe⟩
    exact ⟨x, hold x _ hx, hframe⟩
  refine ⟨⟨hf.inv _, h.ok.window, fun q k hq => ?_, fun d r hr => hstruct r (h.ok.structs d r hr),
    h.ok.nodup, h.ok.disjoint⟩, fun x hle hlt => ?_⟩
  · by_cases hblock : g ≤ q ∧ q < g + n
    · exact .inl hblock
    rw [granted_owner, if_neg hblock] at hq
    obtain ⟨r, hr, hpa, hs, hout⟩ := (h.ok.described q k hq).resolve_left id
    exact .inr ⟨r, hr, hpa, hstruct r hs, hout⟩
  · rw [granted_owner, if_pos ⟨hle, hlt⟩]

lemma allocPages_eq {base : Nat} {t u : Pmm} (hk : s.kallocPages (.call s.calls) n = .ok (base, t))
    (hd : t.describe c base = .ok (r, u))
    (hrest : describeRest c base 1 (n - 1) u = .ok s') :
    s.allocPages c n = .ok (r, { s' with usedPages := word (s'.usedPages + n), calls := s'.calls + 1 }) := by
  rw [allocPages, hk]
  change (t.describe c base >>= fun x => describeRest c base 1 (n - 1) x.2 >>= fun v =>
    .ok (x.1, { v with usedPages := word (v.usedPages + n), calls := v.calls + 1 })) = _
  rw [hd]
  change (describeRest c base 1 (n - 1) u >>= fun v =>
    .ok (r, { v with usedPages := word (v.usedPages + n), calls := v.calls + 1 })) = _
  rw [hrest]
  rfl

lemma allocPages_error {base : Nat} {t : Pmm} (hk : s.kallocPages (.call s.calls) n = .ok (base, t))
    (hd : (∃ e, t.describe c base = .error e) ∨ ∃ u, t.describe c base = .ok (r, u) ∧
    ∃ e, describeRest c base 1 (n - 1) u = .error e) :
    ∃ e, s.allocPages c n = .error e := by
  rw [allocPages, hk]
  change ∃ e, (t.describe c base >>= fun x => describeRest c base 1 (n - 1) x.2 >>= fun v =>
    .ok (x.1, { v with usedPages := word (v.usedPages + n), calls := v.calls + 1 })) = .error e
  rcases hd with ⟨e, he⟩ | ⟨u, hu, e, he⟩
  · refine ⟨e, ?_⟩
    rw [he]
    rfl
  refine ⟨e, ?_⟩
  rw [hu]
  change (describeRest c base 1 (n - 1) u >>= fun v =>
    .ok (r, { v with usedPages := word (v.usedPages + n), calls := v.calls + 1 })) = _
  rw [he]
  rfl

lemma capacity_granted (who : Owner) (hf : Found g n buddy s) :
    (s.granted who g n buddy).capacity c = (s.pageStructFreeList c).length + structsPerPage *
    (s.buddy.buddyNrFreePages - n) := by
  rw [← hf.left, Nat.add_sub_cancel]
  rfl

lemma allocPages_ok (h : s.Good) (hroom : s.Room c n) :
    ∃ r s', s.allocPages c n = .ok (r, s') ∧ s'.Good ∧ s.Handed n r s' := by
  obtain ⟨hn, hblock, hcap⟩ := hroom
  obtain ⟨g, buddy, hk, hf⟩ := kallocPages_found h.ok.inv hn hblock (.call s.calls)
  have hwait := h.granted hf
  rw [← capacity_granted (.call s.calls) hf] at hcap
  obtain ⟨r, t, ht, hwait1, hgrown1, hcapacity, hset⟩ := hwait.describe (Nat.lt_of_lt_of_le hn hcap) hn
  rw [word_paOf (by have := hf.lt; omega), Nat.add_zero] at ht
  have hrest : n - 1 ≤ t.capacity c := by omega
  obtain ⟨s', hs', hwait', hgrown', hkept⟩ := describeRest_ok hwait1 (by omega) hrest
  have hgrown := hgrown1.trans hgrown'
  have hempty : Ok (fun _ => False) s' := hwait'.ok.imp fun q hq => by omega
  have hcalls : s'.calls = s.calls := hgrown.calls
  have hcall : ∀ q k, s'.owner q = some (.call k) → g ≤ q ∧ q < g + n ∧ k = s.calls ∨ s.owner q = some (.call k) := by
    intro q k hq
    have hold := hgrown.call hq
    rw [granted_owner] at hold
    split at hold
    · grind
    · exact .inr hold
  refine ⟨r, _, allocPages_eq hk ht hs',
    ⟨⟨hempty.inv, hempty.window, hempty.described, hempty.structs, hempty.nodup, hempty.disjoint⟩,
    fun q k hq => ?_⟩, g, ?_, fun q hle hlt => ?_,
      fun q => ⟨fun hq => ?_, fun hq => hwait'.owned q hq.1 hq.2⟩, fun q w hq => ?_⟩
  · change k < s'.calls + 1
    rw [hcalls]
    rcases hcall q k hq with ⟨-, -, rfl⟩ | hold
    · exact Nat.lt_succ_self _
    · exact Nat.lt_succ_of_lt (h.fresh q k hold)
  · change s'.kpagePrivate g = some r
    rw [hkept g (Nat.lt_succ_self g), hset]
    exact update_self ..
  · have howner := hwait'.owned q hle hlt
    obtain ⟨hnone, hres, -⟩ := hf.free q hle hlt
    refine ⟨h.ok.freeFrame_iff.mpr ⟨hres, hnone⟩, fun hfree => ?_, (hempty.described q _ howner).resolve_left id⟩
    have hnone' := (hempty.freeFrame_iff.mp hfree).2
    rw [howner] at hnone'
    cases hnone'
  · rcases hcall q _ hq with ⟨hle, hlt, -⟩ | hold
    · exact ⟨hle, hlt⟩
    · exact absurd (h.fresh q _ hold) (Nat.lt_irrefl _)
  · refine hgrown.owned ?_
    rw [granted_owner, if_neg, hq]
    rintro ⟨hle, hlt⟩
    rw [(hf.free q hle hlt).1] at hq
    cases hq

lemma allocPages_fails (h : s.Good) (hroom : ¬ s.Room c n) : ∃ e, s.allocPages c n = .error e := by
  by_cases hblock : 0 < n ∧ s.buddy.HasBlock n
  · obtain ⟨g, buddy, hk, hf⟩ := kallocPages_found h.ok.inv hblock.1 hblock.2 (.call s.calls)
    have hwait := h.granted hf
    have hcap : (s.granted (.call s.calls) g n buddy).capacity c < n := by
      rw [capacity_granted _ hf]
      by_contra hle
      exact hroom ⟨hblock.1, hblock.2, Nat.not_lt.mp hle⟩
    by_cases hzero : (s.granted (.call s.calls) g n buddy).capacity c = 0
    · exact allocPages_error (r := ⟨0, 0⟩) hk (.inl (describe_fails hwait.ok hzero _))
    obtain ⟨r, t, ht, hwait1, -, hcapacity, -⟩ := hwait.describe (Nat.pos_of_ne_zero hzero) hblock.1
    rw [word_paOf (by have := hf.lt; omega), Nat.add_zero] at ht
    exact allocPages_error hk (.inr ⟨t, ht, describeRest_fails hwait1 (by omega) (by omega)⟩)
  · rcases kallocPages_none h.ok.inv hblock (.call s.calls) with hk | ⟨e, hk⟩
    · exact allocPages_error (r := ⟨0, 0⟩) hk (.inl (describe_none h.ok))
    · refine ⟨e, ?_⟩
      rw [allocPages, hk]
      rfl

-- Freeing

lemma mem_push {l : Nat → List PageRef} {x : PageRef} (h : x ∈ update l c (r :: l c) d) : d = c ∧ x = r ∨ x ∈ l d := by
  grind

lemma pageStructFree_ok (h : Ok pend s) (hq : s.owner q = some (.call k)) (hpend : ¬ pend q) :
    ∃ l, s.pageStructFree c (paOf q) = .ok { s with pageStructFreeList := l } ∧
      Ok (fun x => pend x ∨ x = q) { s with pageStructFreeList := l } := by
  obtain ⟨r, hr, hpa, hstruct, hout⟩ := (h.described q k hq).resolve_left hpend
  have hget : s.kpagePrivateGet (paOf q) = .ok (some r) := by
    rw [kpagePrivateGet, pa2page_paOf h.npage (h.lt_npage hq), ← hr]
    rfl
  refine ⟨update s.pageStructFreeList c (r :: s.pageStructFreeList c), ?_, h.inv, h.window,
    fun x j hx => ?_, fun d x hx => ?_, fun d => ?_,
    fun d b x hd hb => ?_⟩
  · rw [pageStructFree, hget]
    rfl
  · by_cases hxq : x = q
    · exact .inl (.inr hxq)
    rcases h.described x j hx with hp | ⟨y, hy, hypa, hys, hyout⟩
    · exact .inl (.inl hp)
    refine .inr ⟨y, hy, hypa, hys, fun d hd => ?_⟩
    rcases mem_push hd with ⟨-, rfl⟩ | hold
    · exact hxq (paOf_inj (hypa.symm.trans hpa))
    · exact hyout d hold
  · rcases mem_push hx with ⟨-, rfl⟩ | hold
    · exact hstruct
    · exact h.structs d x hold
  · change (update s.pageStructFreeList c (r :: s.pageStructFreeList c) d).Nodup
    grind [h.nodup]
  · grind [h.disjoint]

lemma forgetRest_ok (h : Ok (fun x => g ≤ x ∧ x < g + i) s)
    (howned : ∀ x, g ≤ x → x < g + n → ∃ k, s.owner x = some (.call k))
    (hn : i + m = n) :
    ∃ l, forgetRest c (paOf g) i m s = .ok { s with pageStructFreeList := l } ∧
      Ok (fun x => g ≤ x ∧ x < g + n) { s with pageStructFreeList := l } := by
  induction m generalizing i s with
  | zero =>
    rw [Nat.add_zero] at hn
    exact ⟨s.pageStructFreeList, rfl, hn ▸ h⟩
  | succ m ih =>
    obtain ⟨k, hk⟩ := howned (g + i) (Nat.le_add_right g i) (by omega)
    obtain ⟨l, hl, hok⟩ := pageStructFree_ok (c := c) h hk fun hlt => Nat.lt_irrefl _ hlt.2
    have hnext : Ok (fun x => g ≤ x ∧ x < g + (i + 1)) { s with pageStructFreeList := l } := hok.imp fun x hx => by omega
    obtain ⟨l', hl', hok'⟩ := ih hnext howned (by omega)
    refine ⟨l', ?_, hok'⟩
    rw [forgetRest, word_paOf (h.lt_max hk), hl]
    exact hl'

lemma kfreePages_ok (h : Ok (fun x => g ≤ x ∧ x < g + n) s) (hn : 0 < n)
    (howned : ∀ x, g ≤ x → x < g + n → (∃ k, s.owner x = some (.call k)) ∧ s.buddy.zoneNum x = s.buddy.zoneNum g)
    (hs : s.kfreePages (paOf g) n = .ok s') : Ok (fun _ => False) s' ∧ s'.calls = s.calls ∧
    ∀ q k, s'.owner q = some (.call k) → s.owner q = some (.call k) := by
  obtain ⟨k, hk⟩ := (howned g (Nat.le_refl g) (Nat.lt_add_of_pos_right hn)).1
  rw [kfreePages, pa2page_paOf h.npage (h.lt_npage hk)] at hs
  change (s.buddy.buddyFreePages g n >>= fun buddy =>
    .ok { s with buddy := buddy, owner := fun q => if inBlock g n q then none else s.owner q }) = .ok s' at hs
  have hrange : s.buddy.Range (s.owner · ≠ none) (s.buddy.zoneNum g) g n := by
    refine ⟨fun x hle hlt => ?_, ?_⟩
    · obtain ⟨⟨j, hj⟩, hzone⟩ := howned x hle hlt
      refine ⟨?_, hzone⟩
      rw [hj]
      exact Option.some_ne_none _
    · refine (h.inv.zones g (h.inv.taken g ?_)).2.2
      rw [hk]
      exact Option.some_ne_none _
  -- A giant block would have stopped the kernel.
  by_cases hgiant : Buddy.NoGiant (g - s.buddy.memBase (s.buddy.zoneNum g)) n
  case neg =>
    rw [Buddy.buddyFreePages_giant h.inv hrange hgiant] at hs
    cases hs
  obtain ⟨buddy, hb, hinv, -⟩ := Buddy.buddyFreePages_ok h.inv hrange hn hgiant
  rw [hb] at hs
  have hs' := Except.ok.inj hs
  subst hs'
  have howner : ∀ q, (if inBlock g n q then none else s.owner q) = if g ≤ q ∧
    q < g + n then none else s.owner q := fun q => by
    simp only [inBlock, decide_eq_true_eq]
  have hcall : ∀ q k, (if inBlock g n q then none else s.owner q) = some (.call k) →
    ¬ (g ≤ q ∧ q < g + n) ∧ s.owner q = some (.call k) := by
    intro q k hq
    rw [howner] at hq
    split at hq
    · cases hq
    · rename_i hnot
      exact ⟨hnot, hq⟩
  have hstruct :
    ∀ r, s.Struct r → Struct { s with buddy := buddy, owner := fun q => if inBlock g n q then none else s.owner q } r := by
    rintro r ⟨x, hx, hframe⟩
    refine ⟨x, ?_, hframe⟩
    change (if inBlock g n x then none else s.owner x) = _
    rw [howner, if_neg, hx]
    rintro ⟨hle, hlt⟩
    obtain ⟨⟨j, hj⟩, -⟩ := howned x hle hlt
    rw [hx] at hj
    cases hj
  refine ⟨⟨hinv.congr fun q => ?_, h.window, fun q k hq => ?_,
    fun d r hr => hstruct r (h.structs d r hr), h.nodup, h.disjoint⟩, rfl,
    fun q k hq => (hcall q k hq).2⟩
  · change (if inBlock g n q then none else s.owner q) ≠ none ↔ _
    rw [howner]
    by_cases hin : g ≤ q ∧ q < g + n
    · simp [hin]
    · simp [hin]
  · obtain ⟨hnot, hold⟩ := hcall q k hq
    obtain ⟨r, hr, hpa, hsr, hout⟩ := (h.described q k hold).resolve_left hnot
    exact .inr ⟨r, hr, hpa, hstruct r hsr, hout⟩

lemma freePages_ok {page : PageRef} (h : s.Good) (ha : s.Allowed (.free c page n))
    (hs : s.freePages c page n = .ok s') : s'.Good := by
  obtain ⟨hn, g, hpage, howned⟩ := ha
  obtain ⟨k, hk⟩ := (howned g (Nat.le_refl g) (Nat.lt_add_of_pos_right hn)).1
  obtain ⟨r, hr, hpa, -⟩ := (h.ok.described g k hk).resolve_left id
  obtain rfl : page = r := Option.some.inj (hpage.symm.trans hr)
  have hstart : Ok (fun x => g ≤ x ∧ x < g + 0) s := h.ok.imp fun _ hq => hq.elim
  obtain ⟨l, hl, hok⟩ := forgetRest_ok (c := c) hstart (fun x hle hlt => (howned x hle hlt).1) (Nat.zero_add n)
  rw [freePages, hpa, hl] at hs
  change (kfreePages (paOf g) n { s with pageStructFreeList := l } >>= fun t =>
    .ok { t with usedPages := word (t.usedPages + (0x10000000000000000 - word n)) }) = .ok s' at hs
  cases ht : kfreePages (paOf g) n { s with pageStructFreeList := l } with
  | error e =>
    rw [ht] at hs
    cases hs
  | ok t =>
    rw [ht] at hs
    have hs' := Except.ok.inj hs
    subst hs'
    obtain ⟨htok, hcalls, hcall⟩ := kfreePages_ok hok hn howned ht
    refine ⟨⟨htok.inv, htok.window, htok.described, htok.structs, htok.nodup, htok.disjoint⟩, fun q k hq => ?_⟩
    change k < t.calls
    rw [hcalls]
    exact h.fresh q k (hcall q k hq)

-- Runs

lemma Initial.good (h : s.Initial) : s.Good := by
  obtain ⟨m, hm, hbuddy, howner⟩ := h.buddy
  have hcall : ∀ q k, s.owner q ≠ some (.call k) := by
    intro q k hq
    rw [howner] at hq
    split at hq
    all_goals cases hq
  refine ⟨⟨?_, h.window, fun q k hq => absurd hq (hcall q k), fun c r hr => ?_, fun c => ?_,
    fun c d r hr => ?_⟩, fun q k hq => absurd hq (hcall q k)⟩
  · rw [hbuddy]
    refine hm.inv.congr fun q => ?_
    rw [howner]
    cases m.held q with
    | true => simp
    | false => simp
  · rw [h.lists c] at hr
    cases hr
  · rw [h.lists c]
    exact List.nodup_nil
  · rw [h.lists c] at hr
    cases hr

lemma step_good {e : Event} (h : s.Good) (ha : s.Allowed e) (hs : s.step e = .ok s') : s'.Good := by
  cases e with
  | alloc c n =>
    by_cases hroom : s.Room c n
    · obtain ⟨r, t, ht, hgood, -⟩ := allocPages_ok h hroom
      rw [step, ht] at hs
      exact Except.ok.inj hs ▸ hgood
    · obtain ⟨e, he⟩ := allocPages_fails h hroom
      rw [step, he] at hs
      cases hs
  | free c page n => exact freePages_ok h ha hs

lemma Reached.good {guard : Pmm → Event → Prop} (h : Reached guard s) : s.Good :=
  h.invariant (P := Good) (fun _ => Initial.good) fun _ _ _ hgood ha => step_good hgood ha.1

/-- Each frame that a call of `alloc_pages` has is not free and has a structure of its
own. A call returns with frames exactly if there is room for it. -/
theorem frames_handed_iff (h : Reached (fun _ _ => True) s) :
    (∀ q k, s.owner q = some (.call k) → ¬ s.FreeFrame q ∧ s.Described q) ∧
    ∀ c n, (∃ page s', s.allocPages c n = .ok (page, s') ∧ s.Handed n page s') ↔ s.Room c n := by
  have hgood := h.good
  refine ⟨fun q k hq => ⟨fun hfree => ?_, (hgood.ok.described q k hq).resolve_left id⟩, fun c n => ⟨?_, fun hroom => ?_⟩⟩
  · have hnone := (hgood.ok.freeFrame_iff.mp hfree).2
    rw [hq] at hnone
    cases hnone
  · grind [allocPages_fails]
  · grind [allocPages_ok]

-- A machine with two free frames.

def smallZone : Buddy := ((Buddy.buddyInit 2).openZone 0 2).addFree 0 1

lemma smallZone_careful : Machine.Careful ⟨smallZone, fun _ => false⟩ := by
  have hzone : (Machine.boot 2).Proper (.initMemmap 0 2) := ⟨by decide, by decide, Nat.le_refl 2, fun _ _ _ => rfl⟩
  have hstep : (Machine.boot 2).step (.initMemmap 0 2) = .ok ⟨smallZone, fun _ => false⟩ := rfl
  have hboot : Machine.Careful (Machine.boot 2) := .init ⟨2, by decide, rfl⟩
  exact Reachable.step hboot ⟨hzone, trivial⟩ hstep

def small : Pmm where
  pages := 0xFFFF800010400000
  buddy := smallZone
  kpagePrivate _ := none
  pa _ := 0
  ref _ := 0
  flags _ := 0
  pageStructFreeList _ := []
  usedPages := 0
  owner _ := none
  calls := 0

lemma small_initial : small.Initial :=
    ⟨⟨⟨smallZone, fun _ => false⟩, smallZone_careful, rfl, fun _ => rfl⟩, by decide, fun _ => rfl⟩

theorem frames_handed_small : ∃ page s', small.allocPages 0 1 = .ok (page, s') ∧ small.Handed 1 page s' := by
  refine ((frames_handed_iff (.init small_initial)).2 0 1).mpr ⟨Nat.one_pos, ⟨0, rfl, 1, Nat.zero_le 1, ?_⟩, ?_⟩
  · exact List.cons_ne_nil _ _
  · decide

/-- When one frame is taken and another one used for structures, the next request
stops the kernel. -/
theorem out_of_frames_stops : ∃ s, Reached (fun _ _ => True) s ∧ s.allocPages 0 1 = .error .badPa := by
  obtain ⟨s, hrun, hstop⟩ :
    ∃ s, run step small [.alloc 0 1] = .ok s ∧ s.allocPages 0 1 = .error .badPa := by decide +kernel
  refine ⟨s, Reachable.run (.init small_initial) (fun a ha t => ?_) hrun, hstop⟩
  rw [List.mem_singleton.mp ha]
  exact ⟨trivial, trivial⟩

end Pmm

end Ucore.Glue
