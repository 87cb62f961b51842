import Ucore.Process.ShareInv

/-!
# Every sequence of calls on shared memory

What each call does to the areas and their objects, and from it what holds in every run.
-/

namespace Ucore.Process

open Mm Lib

variable {s s' : Sys} {mm mm' : MmStruct} {v u : Vma} {i j o a b : Nat} {pending : Multiset Vma}
  {strict : Prop}

inductive Touched (s s' : Sys) (i : Nat) (R : MmStruct → MmStruct → Prop) : Prop
  | absent (hi : s.mms i = none) (h : s'.mms = s.mms)
  | done {mm mm' : MmStruct} (hi : s.mms i = some mm) (hinv : Mm.Inv mm')
      (h : s'.mms = Function.update s.mms i (some mm')) (hr : R mm mm')

def destroyed : Effect → Option Vma
  | .unmapRange _ _ => none
  | .destroy v => some v

@[simp] lemma destroyed_destroy (l : List Effect) :
    (Effect.destroy v :: l).filterMap destroyed = v :: l.filterMap destroyed := rfl

lemma runEffects_ok {eff : List Effect} (h : s.Inv strict (eff.filterMap destroyed + pending)) :
    Safe (OnlyNull strict) (eff.foldlM runEffect s) fun s' => s'.Inv strict pending ∧ s'.mms = s.mms := by
  refine (Safe.foldlM (I := fun rest s' => s'.Inv strict (rest.filterMap destroyed + pending) ∧
    s'.mms = s.mms) ⟨h, rfl⟩ fun e rest s1 hs1 => ?_).mono fun s' hs' => ⟨by simpa using hs'.1, hs'.2⟩
  cases e with
  | unmapRange start stop => exact hs1
  | destroy u =>
    have hu : s1.Inv strict (u ::ₘ (rest.filterMap destroyed + pending)) := by
      have := hs1.1
      rwa [destroyed_destroy, ← Multiset.cons_coe, Multiset.cons_add] at this
    exact (vmaDestroy_ok hu).mono fun s' hs' => ⟨hs'.1, hs'.2.trans hs1.2⟩

lemma Linked.cut (hv : Linked strict s v) (hu : u ∈ v.cut a b)
    (hwhole : strict → v.vmFlags.share = true → ¬ (v.vmStart < a ∧ b < v.vmEnd)) :
    Linked strict s u := by
  have hpiece {lo hi : Nat} (h1 : v.vmStart ≤ lo) (h2 : lo ≤ hi) (h3 : hi ≤ v.vmEnd) :
    Linked strict s (v.resize lo hi) := by
    refine ⟨fun o ho => ?_, hv.shared⟩
    obtain ⟨hshare, obj, hobj, hlen⟩ := hv.obj o ho
    refine ⟨hshare, obj, hobj, ?_⟩
    simp only [Vma.resize, hshare, ↓reduceIte]
    omega
  rcases Vma.mem_cut_iff.mp hu with ⟨-, rfl⟩ | ⟨-, h1, h2, rfl⟩ | ⟨hh, h1, h2, rfl⟩ | ⟨hh, h1, rfl⟩
  · exact hv
  · refine ⟨fun o ho => by simp at ho, fun hs hshare => ?_⟩
    exact absurd ⟨h1, h2⟩ (hwhole hs hshare)
  · have := Vma.hits_iff.mp hh
    exact hpiece le_rfl (by omega) (by omega)
  · have := Vma.hits_iff.mp hh
    exact hpiece (by omega) (by omega) le_rfl

def goneIn (a b : Nat) (v : Vma) : List Vma :=
  if v.hits a b then (v.unmapEffects a b).filterMap destroyed else []

lemma mem_goneIn (h : u ∈ goneIn a b v) : u = v := by
  unfold goneIn Vma.unmapEffects at h
  split at h
  · repeat' split at h
    all_goals simp [destroyed] at h
    exact h
  · simp at h

lemma shows_cut (o a b : Nat) (v : Vma) :
    shows o (v.cut a b : List Vma) + shows o (goneIn a b v) = shows o ([v] : List Vma) := by
  unfold goneIn
  cases hh : v.hits a b with
  | false => simp [Vma.cut, hh]
  | true =>
    unfold Vma.cut Vma.unmapEffects
    rcases Nat.lt_or_ge v.vmStart a with h1 | h1 <;> rcases Nat.lt_or_ge b v.vmEnd with h2 | h2 <;>
      simp [hh, h1, h2, Nat.not_lt.mpr, shows_coe_cons, shows_singleton] <;> rfl

lemma shows_flatMap_cut (o a b : Nat) (l : List Vma) :
    shows o (l.flatMap (Vma.cut a b) : List Vma) + shows o (l.flatMap (goneIn a b) : List Vma) =
      shows o l := by
  induction l with
  | nil => rfl
  | cons v l ih =>
    have hv := shows_cut o a b v
    have hl : shows o (v :: l : List Vma) = shows o ([v] : List Vma) + shows o l := by
      rw [← shows_add]
      rfl
    simp only [List.flatMap_cons, ← Multiset.coe_add, shows_add]
    omega

lemma gone_effects (a b : Nat) (l : List Vma) :
    ((((l.filter (Vma.hits a b)).reverse.flatMap (Vma.unmapEffects a b)).filterMap destroyed : List Vma) :
      Multiset Vma) = (l.flatMap (goneIn a b) : List Vma) := by
  refine Multiset.coe_eq_coe.mpr ((((List.reverse_perm _).flatMap_right _).filterMap _).trans ?_)
  refine List.Perm.of_eq ?_
  induction l with
  | nil => rfl
  | cons v l ih => grind [goneIn]

def Whole (ok : Nat → Bool) (mm : MmStruct) (a b : Nat) : Prop :=
  userAccess a b = true → ok mm.fresh = true → ∀ v ∈ mm.space, v.vmFlags.share = true → ¬ (v.vmStart < a ∧ b < v.vmEnd)

def Cleared (strict : Prop) (a b : Nat) (mm mm' : MmStruct) : Prop :=
  mm'.space = mm.space ∨ (∃ eff, Unmapped mm mm' a b eff) ∧
    (strict → ∀ v ∈ mm.space, v.vmFlags.share = true → ¬ (v.vmStart < a ∧ b < v.vmEnd))

lemma munmap_ok (ok : Nat → Bool) (addr len : Nat) (h : s.Inv strict 0) (hwhole : strict → ∀ mm, s.mms i = some mm →
      Whole ok mm (roundDown addr) (roundUp (addWrap addr len))) :
    Safe (OnlyNull strict) (s.munmap ok i addr len) fun s' => s'.Inv strict 0 ∧
      Touched s s' i (Cleared strict (roundDown addr) (roundUp (addWrap addr len))) := by
  rw [Sys.munmap]
  cases hi : s.mms i with
  | none => exact ⟨h, .absent hi rfl⟩
  | some mm =>
  obtain ⟨r, mm', eff, hun, hinv, -, hr⟩ := mmUnmap_ok (h.mm i mm hi) ok addr len
  simp only [hun, bind, Except.bind]
  cases r with
  | error err =>
    obtain ⟨-, hsp, rfl⟩ := hr
    exact ⟨h.setMm_same hi hinv hsp, .done hi hinv rfl (.inl hsp)⟩
  | ok _ =>
    obtain ⟨hua, hsplit, hunm⟩ := hr
    have hlinked := h.linked i
    rw [hi, areasOf_some] at hlinked
    have hpend : ((eff.filterMap destroyed : List Vma) : Multiset Vma) =
        (mm.areas.flatMap (goneIn (roundDown addr) (roundUp (addWrap addr len))) : List Vma) := by
      rw [hunm.effects, gone_effects]
    have hinside : strict → ∀ v ∈ mm.space, v.vmFlags.share = true →
        ¬ (v.vmStart < roundDown addr ∧ roundUp (addWrap addr len) < v.vmEnd) := by
      intro hs v hv hshare hin
      refine hwhole hs mm hi hua ?_ v hv hshare hin
      cases hok : ok mm.fresh with
      | true => rfl
      | false => exact absurd ⟨hok, v, hv, hin⟩ hsplit
    have hset : (s.setMm i (some mm')).Inv strict ((eff.filterMap destroyed : List Vma) + 0) := by
      rw [add_zero]
      refine h.setMm _ (by rintro _ ⟨⟩; exact hinv) (fun u hu => ?_) (fun u hu => ?_) fun o => ?_
      · rw [areasOf_some, hunm.space, Multiset.mem_coe, List.mem_flatMap] at hu
        obtain ⟨v, hv, hu⟩ := hu
        exact (hlinked v hv).cut hu fun hs => hinside hs v hv
      · rw [hpend, Multiset.mem_coe, List.mem_flatMap] at hu
        obtain ⟨v, hv, hu⟩ := hu
        exact mem_goneIn hu ▸ hlinked v hv
      · rw [hpend, areasOf_some, hunm.space, hi, shows_flatMap_cut, shows_zero]
        rfl
    exact (runEffects_ok hset).mono fun s' hs' => ⟨hs'.1, .done hi hinv hs'.2 (.inr ⟨⟨eff, hunm⟩, hinside⟩)⟩

def Mapped (mm mm' : MmStruct) : Prop :=
  mm'.space = mm.space ∨ ∃ v, (∀ u ∈ mm.space, v.Apart u) ∧ mm'.space = v ::ₘ mm.space

lemma mmap_ok (ok : Nat → Bool) (addr len : Nat) (f : VmFlags) (h : s.Inv strict 0) :
    ∃ s', s.mmap ok i addr len f = .ok s' ∧ s'.Inv strict 0 ∧ Touched s s' i Mapped := by
  rw [Sys.mmap]
  cases hi : s.mms i with
  | none => exact ⟨s, rfl, h, .absent hi rfl⟩
  | some mm =>
  obtain ⟨r, mm', hmap, hinv, -, hr⟩ := mmMap_ok (h.mm i mm hi) ok addr len f
  refine ⟨_, by simp only [hmap, bind, Except.bind]; rfl, ?_⟩
  cases r with
  | error err => exact ⟨h.setMm_same hi hinv hr, .done hi hinv rfl (.inl hr)⟩
  | ok id =>
    obtain ⟨-, hap, hsp, -⟩ := hr
    have hlinked := h.linked i
    rw [hi, areasOf_some] at hlinked
    refine ⟨h.setMm _ (by rintro _ ⟨⟩; exact hinv) ?_ h.held fun o => ?_, .done hi hinv rfl (.inr ⟨_, hap, hsp⟩)⟩
    · rw [areasOf_some, hsp]
      exact Multiset.forall_mem_cons.mpr ⟨⟨by simp, by simp⟩, hlinked⟩
    · rw [areasOf_some, hsp, hi, shows_cons]
      simp

lemma roundUp_sub_le {addr len : Nat} (ha : addr % pgSize = 0) (hl : len % pgSize = 0) :
    roundUp (addWrap addr len) - addr ≤ len := by
  have hw : addWrap addr len < wordSize := Nat.mod_lt _ (by decide)
  have hle : addWrap addr len ≤ addr + len := Nat.mod_le ..
  have hmod : addWrap addr len % pgSize = 0 := by
    simp only [addWrap, wordSize, pgSize] at *
    omega
  rw [roundUp_of_mod hmod hw]
  omega

lemma mmapRange_len {addr len addr' len' : Nat} (h : mmapRange mm addr len = some (addr', len')) :
    len' % pgSize = 0 := by
  have h1 : roundUp (addWrap addr len) % pgSize = 0 := by simp
  have h2 : roundDown addr % pgSize = 0 := by simp
  have hmod : (roundUp (addWrap addr len) + (wordSize - roundDown addr)) % wordSize % pgSize = 0 := by
    generalize roundUp (addWrap addr len) = x at *
    generalize roundDown addr = y at *
    simp only [wordSize, pgSize] at *
    omega
  simp only [mmapRange] at h
  split at h
  · split at h
    · cases h
    · cases h
      exact hmod
  · cases h
    exact hmod

lemma Sys.Inv.create {len : Nat} (h : s.Inv strict 0) (hv : v.shmem = some s.fresh)
    (hshare : v.vmFlags.share = true) (hlen : v.shmemOff + (v.vmEnd - v.vmStart) ≤ len) :
    ({ s.setShmem s.fresh (some ⟨len, 1⟩) with fresh := s.fresh + 1 } : Sys).Inv strict {v} := by
  have hnone : s.shmem s.fresh = none := h.fresh _ le_rfl
  have hobjs : SameObjs s { s.setShmem s.fresh (some ⟨len, 1⟩) with fresh := s.fresh + 1 } := by
    intro o obj ho
    have hne : o ≠ s.fresh := by
      rintro rfl
      rw [hnone] at ho
      cases ho
    exact ⟨obj, by simpa [hne] using ho, rfl⟩
  refine ⟨h.mm, fun i u hu => (h.linked i u hu).mono hobjs, ?_, ?_, ?_⟩
  · intro u hu
    rw [Multiset.mem_singleton.mp hu]
    refine ⟨fun o ho => ?_, fun _ _ => by simp [hv]⟩
    obtain rfl : s.fresh = o := Option.some.inj (hv.symm.trans ho)
    exact ⟨hshare, ⟨len, 1⟩, by simp, hlen⟩
  · intro o obj ho
    by_cases hof : o = s.fresh
    · subst hof
      obtain rfl : (⟨len, 1⟩ : ShmemStruct) = obj := by simpa using ho
      refine ⟨0, Total.of_zero fun i => ?_, by simp [shows_singleton, hv], by simp [shows_singleton, hv]⟩
      refine Multiset.countP_eq_zero.mpr fun u hu hus => ?_
      obtain ⟨-, obj, hobj, -⟩ := (h.linked i u hu).obj _ hus
      rw [hnone] at hobj
      cases hobj
    · have hz : shows o {v} = 0 := by
        rw [shows_singleton, if_neg (by rw [hv]; simpa using Ne.symm hof)]
      rw [hz]
      exact h.count o obj (by simpa [hof] using ho)
  · intro o ho
    have hne : o ≠ s.fresh := by
      simp only at ho
      omega
    simpa [hne] using h.fresh o (by simp only at ho; omega)

lemma attach_ok {len : Nat} {mm0 : MmStruct} (addr : Nat) (f : VmFlags) (ok : Nat → Bool)
    (h : s.Inv strict 0) (hi : s.mms i = some mm0) (hmm : Mm.Inv mm) (hsp : mm.space = mm0.space)
    (hlen : len % pgSize = 0) :
    ∃ s', s.attach ok i mm addr len f = .ok s' ∧ s'.Inv strict 0 ∧ Touched s s' i Mapped := by
  have hnone : s.shmem s.fresh = none := h.fresh _ le_rfl
  have hlinked := h.linked i
  rw [hi, areasOf_some, ← hsp] at hlinked
  -- without the area, the object comes and goes
  have hback : ∀ mm', Mm.Inv mm' → mm'.space = mm.space → ∀ obj obj',
      ((((({ s.setShmem s.fresh obj with fresh := s.fresh + 1 } : Sys).setShmem s.fresh obj').setShmem
        s.fresh none)).setMm i (some mm')).Inv strict 0 := by
    intro mm' hinv' hsp' obj obj'
    have hs : ({ s with fresh := s.fresh + 1 } : Sys).Inv strict 0 :=
      ⟨h.mm, fun i v hv => ⟨(h.linked i v hv).obj, (h.linked i v hv).shared⟩, by simp, h.count,
        fun o ho => h.fresh o (Nat.le_of_succ_le ho)⟩
    have := hs.setMm_same (i := i) hi hinv' (hsp'.trans hsp)
    convert this using 1
    simp only [Sys.setMm, Sys.setShmem, Function.update_idem, Sys.mk.injEq, true_and, and_true]
    exact Function.update_eq_self_iff.mpr hnone.symm
  by_cases hmod : addr % pgSize = 0
  · obtain ⟨r, mm', hmap, hinv', -, hr⟩ := mmMapShmem_ok hmm ok addr f s.fresh len
    cases r with
    | error err =>
      refine ⟨_, ?_, hback mm' hinv' hr (some ⟨len, 0⟩) (some ⟨len, 0⟩), .done hi hinv' rfl (.inl (hr.trans hsp))⟩
      simp [Sys.attach, Sys.shmemCreate, Sys.mapShmem, hmod, Sys.shmemRefInc, Sys.shmemRefDec,
        Sys.refAdd, hmap, bind, Except.bind, pure, Except.pure, Sys.shmemDestroy]
    | ok _ =>
      obtain ⟨hua, hap, hsp'⟩ := hr
      have hfit := roundUp_sub_le hmod hlen
      have hcreate := h.create (v := ⟨addr, roundUp (addWrap addr len), { f with share := true },
        some s.fresh, 0⟩) rfl rfl (by simpa using hfit)
      have hset := hcreate.setMm (i := i) (some mm') (by rintro _ ⟨⟩; exact hinv') (by
          rw [areasOf_some, hsp']
          refine Multiset.forall_mem_cons.mpr ⟨hcreate.held _ (Multiset.mem_singleton_self _), ?_⟩
          have := hcreate.linked i
          change ∀ v ∈ areasOf (s.mms i), _ at this
          rwa [hi, areasOf_some, ← hsp] at this)
        (show ∀ v ∈ (0 : Multiset Vma), _ by simp)
        (by
          intro o
          change _ = shows o (areasOf (s.mms i)) + _
          rw [areasOf_some, hsp', hi, areasOf_some, ← hsp, shows_cons, shows_singleton]
          simp)
      refine ⟨_, ?_, hset, .done hi hinv' rfl (.inr ⟨_, by rwa [← hsp], by rwa [← hsp]⟩)⟩
      simp [Sys.attach, Sys.shmemCreate, Sys.mapShmem, hmod, Sys.shmemRefInc, Sys.refAdd, hmap,
        bind, Except.bind, pure, Except.pure]
  · refine ⟨_, ?_, hback mm hmm rfl (some ⟨len, 0⟩) (some ⟨len, 0⟩), .done hi hmm rfl (.inl hsp)⟩
    simp [Sys.attach, Sys.shmemCreate, Sys.mapShmem, hmod, bind, Except.bind, pure, Except.pure, Sys.shmemDestroy]

lemma doShmem_ok (ok : Nat → Bool) (created : Bool) (addrStore addr len : Nat) (write stack : Bool)
    (h : s.Inv strict 0) :
    ∃ s', s.doShmem ok created i addrStore addr len write stack = .ok s' ∧ s'.Inv strict 0 ∧ Touched s s' i Mapped := by
  rw [Sys.doShmem]
  cases hi : s.mms i with
  | none => exact ⟨s, rfl, h, .absent hi rfl⟩
  | some mm =>
  have hinv := h.mm i mm hi
  by_cases h0 : addrStore = 0 ∨ len = 0
  · refine ⟨s, by simp only [h0, ↓reduceIte], h, .done hi hinv ?_ (.inl rfl)⟩
    rw [← hi, Function.update_eq_self]
  obtain ⟨b, c, hcheck, hinv', -⟩ := userMemCheck_ok hinv addrStore sizeofWord true
  have hsame : (s.setMm i (some { mm with mmapCache := c })).Inv strict 0 ∧
      Touched s (s.setMm i (some { mm with mmapCache := c })) i Mapped :=
    ⟨h.setMm_same hi hinv' rfl, .done hi hinv' rfl (.inl rfl)⟩
  simp only [h0, ↓reduceIte, hcheck, bind, Except.bind]
  cases b with
  | false => exact ⟨_, rfl, hsame⟩
  | true =>
    cases hr : mmapRange { mm with mmapCache := c } addr len with
    | none => exact ⟨_, by simp only [hr]; rfl, hsame⟩
    | some range =>
      cases created with
      | false => exact ⟨_, by simp only [hr]; rfl, hsame⟩
      | true =>
        obtain ⟨s', hs', hatt⟩ := attach_ok range.1 (mmapFlags write stack) ok h hi hinv' rfl (mmapRange_len hr)
        exact ⟨s', by simp only [hr]; exact hs', hatt⟩

lemma Linked.dup_shmem (h : Linked strict s v) : v.dup.shmem = v.shmem := by
  unfold Vma.dup
  cases hshare : v.vmFlags.share with
  | true => rfl
  | false =>
    cases ho : v.shmem with
    | none => rfl
    | some o => simpa [hshare] using (h.obj o ho).1

lemma Linked.dup (h : Linked strict s v) : Linked strict s v.dup := by
  refine ⟨fun o ho => ?_, fun hs hshare => by rw [h.dup_shmem]; exact h.shared hs (by simpa using hshare)⟩
  rw [h.dup_shmem] at ho
  have hobj := h.obj o ho
  simpa [Vma.dup, hobj.1] using hobj.2

lemma dupArea_ok {dst : MmStruct} (ok : Nat → Bool) (h : s.Inv strict dst.space) (hdst : Mm.Inv dst)
    (hv : Linked strict s v) (hok : v.Ok) (hap : ∀ u ∈ dst.space, v.Apart u) :
    Safe (OnlyNull strict) (s.dupArea ok dst v) fun r => Mm.Inv r.2.1 ∧ r.2.2.Inv strict r.2.1.space ∧
      r.2.2.mms = s.mms ∧ SameObjs s r.2.2 ∧
      match r.1 with
      | .error _ => r.2.1.space = dst.space
      | .ok () => r.2.1.space = v.dup ::ₘ dst.space := by
  have hrefl : SameObjs s s := fun o obj ho => ⟨obj, ho, rfl⟩
  obtain ⟨r, dst', hdup, hinv, -, hr⟩ := dupVma_ok hdst ok hok hap
  simp only [Sys.dupArea, hdup, bind, Except.bind]
  cases r with
  | error err => exact ⟨hinv, by rw [hr]; exact h, rfl, hrefl, hr⟩
  | ok _ =>
    cases hshare : v.vmFlags.share with
    | false =>
      refine ⟨hinv, ?_, rfl, hrefl, hr⟩
      rw [hr]
      refine h.hold hv.dup ?_
      simp [Vma.dup, hshare]
    | true =>
      cases ho : v.shmem with
      | none => exact ⟨fun hs => hv.shared hs hshare ho, rfl⟩
      | some o =>
        obtain ⟨ref, s', hinc, hs', hmms, hobjs⟩ := h.refInc hv.dup (hv.dup_shmem.trans ho)
        simp only [↓reduceIte, deref, hinc]
        exact ⟨hinv, by rw [hr]; exact hs', hmms, hobjs, hr⟩

lemma dupAreas_ok {l : List Vma} {dst : MmStruct} (ok : Nat → Bool) (copied : Vma → Bool)
    (h : s.Inv strict dst.space) (hdst : Mm.Inv dst) (hl : ∀ v ∈ l, Linked strict s v)
    (hok : ∀ v ∈ l, v.Ok) (hap : l.Pairwise Vma.Apart) (hout : ∀ v ∈ l, ∀ u ∈ dst.space, v.Apart u) :
    Safe (OnlyNull strict) (Sys.dupAreas ok copied l dst s) fun r => Mm.Inv r.2.1 ∧
      r.2.2.Inv strict r.2.1.space ∧ r.2.2.mms = s.mms ∧
      ∀ u ∈ r.2.1.space, u ∈ dst.space ∨ ∃ v ∈ l, u = v.dup := by
  induction l generalizing s dst with
  | nil => exact ⟨hdst, h, rfl, fun u hu => .inl hu⟩
  | cons v l ih =>
    simp only [List.mem_cons, forall_eq_or_imp, List.pairwise_cons] at hl hok hap hout
    refine (dupArea_ok ok h hdst hl.1 hok.1 hout.1).bind ?_
    rintro ⟨r, dst1, s1⟩ ⟨hdst1, hs1, hmms1, hobjs1, hr⟩
    simp only at hdst1 hs1 hmms1 hobjs1 hr
    cases r with
    | error err => exact ⟨hdst1, hs1, hmms1, fun u hu => .inl (by rwa [← hr])⟩
    | ok _ =>
      simp only at hr ⊢
      have hmem : ∀ u ∈ dst1.space, u ∈ dst.space ∨ u = v.dup := fun u hu => by
        rw [hr, Multiset.mem_cons] at hu
        exact hu.symm
      split
      · refine (ih hs1 hdst1 (fun w hw => (hl.2 w hw).mono hobjs1) hok.2 hap.2 ?_).mono ?_
        · intro w hw u hu
          rcases hmem u hu with hu | rfl
          · exact hout.2 w hw u hu
          · simpa [Vma.Apart, Lib.Apart] using Lib.Apart.symm (hap.1 w hw)
        · grind
      · refine ⟨hdst1, hs1, hmms1, fun u hu => ?_⟩
        grind

lemma mmDestroy_ok (h : s.Inv strict mm.space) :
    Safe (OnlyNull strict) (s.mmDestroy mm) fun s' => s'.Inv strict 0 ∧ s'.mms = s.mms :=
  destroyAll_ok (by rwa [add_zero])

lemma exitMm_ok (h : s.Inv strict 0) : Safe (OnlyNull strict) (s.exitMm i) fun s' => s'.Inv strict 0 ∧
    s'.mms = Function.update s.mms i none := by
  rw [Sys.exitMm]
  cases hi : s.mms i with
  | none => exact ⟨h, by rw [← hi, Function.update_eq_self]⟩
  | some mm =>
    have hlinked := h.linked i
    rw [hi, areasOf_some] at hlinked
    refine mmDestroy_ok (h.setMm none (by simp) (by simp) hlinked fun o => ?_)
    simp [hi]

lemma copyMm_ok (ok : Nat → Bool) (copied : Vma → Bool) (h : s.Inv strict 0) :
    Safe (OnlyNull strict) (s.copyMm ok copied i j) fun s' => s'.Inv strict 0 ∧
      (s'.mms = s.mms ∨ ∃ mm mm', s.mms i = some mm ∧ s.mms j = none ∧ Mm.Inv mm' ∧
        s'.mms = Function.update s.mms j (some mm') ∧ ∀ u ∈ mm'.space, ∃ v ∈ mm.space, u = v.dup) := by
  rw [Sys.copyMm]
  cases hi : s.mms i with
  | none => exact ⟨h, .inl rfl⟩
  | some mm =>
  cases hj : s.mms j with
  | some mm' => exact ⟨h, .inl rfl⟩
  | none =>
    have hlinked := h.linked i
    rw [hi, areasOf_some] at hlinked
    have hinv := h.mm i mm hi
    have hempty : mmCreate.space = 0 := rfl
    refine (dupAreas_ok ok copied (l := mm.areas.reverse) (show s.Inv strict mmCreate.space by rw [hempty]; exact h)
      mmCreate_inv (fun v hv => hlinked v (List.mem_reverse.mp hv))
      (fun v hv => hinv.ok v (List.mem_reverse.mp hv))
      (List.pairwise_reverse.mpr (hinv.ordered.apart.imp Lib.Apart.symm))
      (by simp [hempty])).bind ?_
    rintro ⟨r, child, s1⟩ ⟨hchild, hs1, hmms, hdup⟩
    simp only at hchild hs1 hmms hdup
    have hdup' : ∀ u ∈ child.space, ∃ v ∈ mm.space, u = v.dup := fun u hu => by
      rcases hdup u hu with hu | ⟨v, hv, rfl⟩
      · simp [hempty] at hu
      · exact ⟨v, List.mem_reverse.mp hv, rfl⟩
    cases r with
    | error err => exact (mmDestroy_ok hs1).mono fun s' hs' => ⟨hs'.1, .inl (hs'.2.trans hmms)⟩
    | ok _ =>
      have hchild' : Mm.Inv { child with brkStart := mm.brkStart, brk := mm.brk } :=
        ⟨hchild.ok, hchild.ordered, hchild.count, hchild.tree, hchild.cache, hchild.fresh⟩
      refine ⟨hs1.setMm _ (by rintro _ ⟨⟩; exact hchild') hs1.held (by simp) fun o => ?_,
        .inr ⟨mm, _, rfl, rfl, hchild', by rw [Sys.setMm, hmms], hdup'⟩⟩
      rw [hmms, hj]
      simp only [areasOf_some, areasOf_none, shows_zero, Nat.add_zero, Nat.zero_add]
      rfl

def homeOf (v : Vma) (a : Nat) : Option (Nat × Nat) :=
  v.shmem.map fun o => (o, v.shmemOff + (a - v.vmStart))

def SameHomes (mm mm' : MmStruct) : Prop :=
  ∀ a, ∀ v ∈ mm.space, ∀ u ∈ mm'.space, v.Covers a → u.Covers a → homeOf u a = homeOf v a

lemma SameHomes.refl (h : Mm.Inv mm) : SameHomes mm mm := by
  intro a v hv u hu hva hua
  rw [h.unique hu hv hua hva]

lemma Mapped.sameHomes (h : Mm.Inv mm) (hm : Mapped mm mm') : SameHomes mm mm' := by
  intro a v hv u hu hva hua
  rcases hm with hsp | ⟨w, hap, hsp⟩
  · rw [hsp] at hu
    rw [h.unique hu hv hua hva]
  rw [hsp, Multiset.mem_cons] at hu
  rcases hu with rfl | hu
  · have := hap v hv
    simp only [Vma.Apart, Lib.Apart, Vma.Covers] at *
    omega
  · rw [h.unique hu hv hua hva]

lemma homeOf_resize (hv : Linked strict s v) {lo hi : Nat} (hlo : v.vmStart ≤ lo) (ha : lo ≤ a) :
    homeOf (v.resize lo hi) a = homeOf v a := by
  unfold homeOf
  rw [Vma.resize_shmem]
  cases ho : v.shmem with
  | none => rfl
  | some o =>
    have hoff : v.shmemOff + (lo - v.vmStart) + (a - lo) = v.shmemOff + (a - v.vmStart) := by omega
    simp [Vma.resize, (hv.obj o ho).1, hoff]

lemma Unmapped.sameHomes {eff : List Effect} (h : Mm.Inv mm) (hun : Unmapped mm mm' a b eff)
    (hl : ∀ v ∈ mm.space, Linked strict s v)
    (hin : ∀ v ∈ mm.space, v.vmFlags.share = true → ¬ (v.vmStart < a ∧ b < v.vmEnd)) :
    SameHomes mm mm' := by
  intro x v hv u hu hvx hux
  rw [hun.space, Multiset.mem_coe, List.mem_flatMap] at hu
  obtain ⟨w, hw, hu⟩ := hu
  have hwx : w.Covers x := (Vma.cut_covers.mp ⟨u, hu, hux⟩).1
  obtain rfl := h.unique hw hv hwx hvx
  rcases Vma.mem_cut_iff.mp hu with ⟨-, rfl⟩ | ⟨-, h1, h2, rfl⟩ | ⟨-, h1, h2, rfl⟩ | ⟨hh, h1, rfl⟩
  · rfl
  · -- a private area may be split
    cases ho : w.shmem with
    | none => simp [homeOf, ho]
    | some o => exact absurd ⟨h1, h2⟩ (hin w hw ((hl w hw).obj o ho).1)
  · exact homeOf_resize (hl w hw) le_rfl hwx.1
  · have := (Vma.hits_iff.mp hh).1
    exact homeOf_resize (hl w hw) (by omega) (by simpa using hux.1)

lemma homeOf_dup (hv : Linked strict s v) : homeOf v.dup a = homeOf v a := by
  unfold homeOf
  rw [hv.dup_shmem]
  cases ho : v.shmem with
  | none => rfl
  | some o => simp [Vma.dup, (hv.obj o ho).1]

/-- In every address space the addresses that stay mapped show what they
showed. -/
def Kept (s s' : Sys) : Prop :=
  ∀ i mm mm', s.mms i = some mm → s'.mms i = some mm' → SameHomes mm mm'

lemma Kept.of_update {new : Option MmStruct} (h : s.Inv strict pending) (hs' : s'.mms = Function.update s.mms i new)
    (hi : ∀ mm mm', s.mms i = some mm → new = some mm' → SameHomes mm mm') : Kept s s' := by
  intro j mm mm' hj hj'
  rw [hs'] at hj'
  grind [SameHomes.refl, h.mm]

lemma Kept.of_eq (h : s.Inv strict pending) (hs' : s'.mms = s.mms) : Kept s s' := by
  grind [SameHomes.refl, h.mm, Kept]

lemma Touched.kept {R : MmStruct → MmStruct → Prop} (h : s.Inv strict pending) (ht : Touched s s' i R)
    (hR : ∀ mm mm', s.mms i = some mm → R mm mm' → SameHomes mm mm') : Kept s s' := by
  cases ht with
  | absent hi hs' => exact .of_eq h hs'
  | done hi hinv hs' hr => grind [Kept.of_update]

def Splitless (ok : Nat → Bool) (s : Sys) : ShareOp → Prop
  | .munmap i addr len => ∀ mm, s.mms i = some mm → Whole ok mm (roundDown addr) (roundUp (addWrap addr len))
  | _ => True

def ForkKept (s s' : Sys) : ShareOp → Prop
  | .fork _ i j => ∀ mm mm', s.mms i = some mm → s.mms j = none → s'.mms j = some mm' → SameHomes mm mm'
  | _ => True

lemma Sys.step_ok (ok : Nat → Bool) (op : ShareOp) (h : s.Inv strict 0) (hg : strict → Splitless ok s op) :
    Safe (OnlyNull strict) (s.step ok op) fun s' => s'.Inv strict 0 ∧ (strict → Kept s s' ∧ ForkKept s s' op) := by
  cases op with
  | create i =>
    simp only [Sys.step, safe_ok]
    split
    · case isTrue hnone =>
      rw [Option.isNone_iff_eq_none] at hnone
      refine ⟨h.setMm _ (by rintro _ ⟨⟩; exact mmCreate_inv) (by simp [MmStruct.space, MmStruct.areas, mmCreate])
        h.held fun o => ?_, fun _ => ⟨.of_update h rfl (by simp [hnone]), trivial⟩⟩
      rw [hnone]
      rfl
    · exact ⟨h, fun _ => ⟨.of_eq h rfl, trivial⟩⟩
  | mmap i addr len f =>
    obtain ⟨s', hs', hinv, ht⟩ := mmap_ok (i := i) ok addr len f h
    exact Safe.of_exists ⟨s', hs', hinv, fun _ => ⟨ht.kept h fun mm mm' hi hm => hm.sameHomes (h.mm i mm hi), trivial⟩⟩
  | shmem created i addrStore addr len write stack =>
    obtain ⟨s', hs', hinv, ht⟩ := doShmem_ok (i := i) ok created addrStore addr len write stack h
    exact Safe.of_exists ⟨s', hs', hinv, fun _ => ⟨ht.kept h fun mm mm' hi hm => hm.sameHomes (h.mm i mm hi), trivial⟩⟩
  | munmap i addr len =>
    refine (munmap_ok ok addr len h hg).mono fun s' hs' => ⟨hs'.1, fun hstrict => ⟨?_, trivial⟩⟩
    refine hs'.2.kept h fun mm mm' hi hc => ?_
    have hinv := h.mm i mm hi
    rcases hc with hsp | ⟨⟨eff, hun⟩, hin⟩
    · exact Mapped.sameHomes hinv (.inl hsp)
    have hlinked := h.linked i
    rw [hi] at hlinked
    exact Unmapped.sameHomes hinv hun hlinked (hin hstrict)
  | fork copied i j =>
    refine (copyMm_ok ok copied h).mono fun s' hs' => ⟨hs'.1, fun _ => ?_⟩
    rcases hs'.2 with heq | ⟨mm, mm', hi, hj, hinv, hs'', hdup⟩
    · refine ⟨.of_eq h heq, fun mm mm' hi hj hj' => ?_⟩
      rw [heq, hj] at hj'
      cases hj'
    refine ⟨.of_update h hs'' (by simp [hj]), fun _ _ h1 _ h2 => ?_⟩
    rw [hi] at h1
    rw [hs'', Function.update_self] at h2
    cases h1
    cases h2
    have hlinked := h.linked i
    rw [hi] at hlinked
    intro a v hv u hu hva hua
    obtain ⟨w, hw, rfl⟩ := hdup u hu
    have hwa : w.Covers a := by simpa [Vma.Covers] using hua
    rw [homeOf_dup (hlinked w hw), (h.mm i mm hi).unique hw hv hwa hva]
  | exit i => exact (exitMm_ok h).mono fun s' hs' => ⟨hs'.1, fun _ => ⟨.of_update h hs'.2 (by simp), trivial⟩⟩

def Sys.init : Sys where
  mms _ := none
  shmem _ := none
  fresh := 0

lemma Sys.init_inv (strict : Prop) : Sys.init.Inv strict 0 where
  mm := by simp [Sys.init]
  linked := by simp [Sys.init]
  held := by simp
  count := by simp [Sys.init]
  fresh := by simp [Sys.init]

def Sys.call (s : Sys) (c : (Nat → Bool) × ShareOp) : Except Panic Sys := s.step c.1 c.2

def SplitlessRun : Sys → Prop :=
  Reachable Sys.call (fun s c => Splitless c.1 s c.2) fun s => s = Sys.init

/-- In every run in which no `mm_unmap` splits a shared area each object counts its
areas, and the next call ends without a panic and keeps what the addresses show. -/
theorem shares_consistent (h : SplitlessRun s) :
    (∀ i, ∀ v ∈ areasOf (s.mms i), v.vmFlags.share = true → ∃ o obj, v.shmem = some o ∧ s.shmem o = some obj) ∧
    (∀ o obj, s.shmem o = some obj → ∃ k : Nat, obj.ref = k ∧ Total (fun i => shows o (areasOf (s.mms i))) k) ∧
    (∀ o, (s.shmem o).isSome ↔ ∃ i, 0 < shows o (areasOf (s.mms i))) ∧
    ∀ ok op, Splitless ok s op → ∃ s', s.step ok op = .ok s' ∧ Kept s s' ∧ ForkKept s s' op := by
  have hinv : s.Inv True 0 := h.invariant (fun s hs => hs ▸ Sys.init_inv True)
    fun s c s' hs hg hs' => ((Sys.step_ok c.1 c.2 hs fun _ => hg).of_eq hs').1
  refine ⟨fun i v hv hshare => ?_, fun o obj ho => ?_, fun o => ⟨fun ho => ?_, ?_⟩, fun ok op hg => ?_⟩
  · have hl := hinv.linked i v hv
    obtain ⟨o, ho⟩ := Option.ne_none_iff_exists'.mp (hl.shared trivial hshare)
    obtain ⟨-, obj, hobj, -⟩ := hl.obj o ho
    exact ⟨o, obj, ho, hobj⟩
  · obtain ⟨k, htot, href, -⟩ := hinv.count o obj ho
    exact ⟨k, by simpa using href, htot⟩
  · obtain ⟨obj, hobj⟩ := Option.isSome_iff_exists.mp ho
    obtain ⟨k, htot, -, hpos⟩ := hinv.count o obj hobj
    exact htot.exists_pos (by simpa using hpos)
  · rintro ⟨i, hi⟩
    obtain ⟨v, hv, ho⟩ := Multiset.countP_pos.mp hi
    obtain ⟨-, obj, hobj, -⟩ := (hinv.linked i v hv).obj o ho
    simp [hobj]
  · obtain ⟨s', hs', -, hkept⟩ := (Safe.mono_error (Sys.step_ok ok op hinv fun _ => hg)
      fun e he => (he.1 trivial : (fun _ => False) e)).exists_ok
    exact ⟨s', hs', hkept trivial⟩

def shareOps : List ((Nat → Bool) × ShareOp) :=
  [(fun _ => true, .create 0), (fun _ => true, .mmap 0 0x1000000 0x1000 rwFlags),
   (fun _ => true, .shmem true 0 0x1000000 0x2000000 0x3000 true false)]

lemma shareOps_splitless (h : run Sys.call Sys.init shareOps = .ok s) : SplitlessRun s :=
  Reachable.run (.init rfl) (by simp [shareOps, Splitless]) h

/-- Unmapping the middle page leaves a shared area without an object. -/
theorem split_losesObject :
    ∃ s, run Sys.call Sys.init (shareOps ++ [(fun _ => true, .munmap 0 0x2001000 0x1000)]) = .ok s ∧
    ∃ v ∈ areasOf (s.mms 0), v.vmFlags.share = true ∧ v.shmem = none := by
  refine ⟨_, rfl, ⟨0x2000000, 0x2001000, { mmapFlags true false with share := true }, none, 0⟩, ?_, rfl, rfl⟩
  decide

theorem shares_consistent_trimmed : ∃ s s', run Sys.call Sys.init shareOps = .ok s ∧
    s.call (fun _ => true, .munmap 0 0x2002000 0x1000) = .ok s' ∧
    ∀ ok op, Splitless ok s' op → ∃ s'', s'.step ok op = .ok s'' ∧ Kept s' s'' ∧ ForkKept s' s'' op := by
  refine ⟨_, _, rfl, rfl, (shares_consistent (.step (a := (fun _ => true, .munmap 0 0x2002000 0x1000))
    (shareOps_splitless rfl) ?_ rfl)).2.2.2⟩
  rintro mm ⟨⟩ - -
  decide

end Ucore.Process
