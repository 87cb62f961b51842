import Ucore.Process.Share

/-!
# Every object is counted

The count of an object is the number of areas that show it, over all address spaces, and
an object is there as long as there is such an area.
-/

namespace Ucore.Process

open Mm Lib

variable {s s' : Sys} {mm mm' : MmStruct} {v u : Vma} {i j o : Nat} {pending pending' : Multiset Vma}
  {strict : Prop}

def shows (o : Nat) (areas : Multiset Vma) : Nat := areas.countP fun v => v.shmem = some o

@[simp] lemma shows_zero (o : Nat) : shows o 0 = 0 := rfl

@[simp] lemma shows_add (o : Nat) (a b : Multiset Vma) : shows o (a + b) = shows o a + shows o b :=
  Multiset.countP_add ..

lemma shows_cons (o : Nat) (v : Vma) (a : Multiset Vma) :
    shows o (v ::ₘ a) = shows o a + if v.shmem = some o then 1 else 0 :=
  Multiset.countP_cons ..

lemma shows_coe_cons (o : Nat) (v : Vma) (l : List Vma) :
    shows o (v :: l : List Vma) = shows o l + if v.shmem = some o then 1 else 0 :=
  shows_cons o v l

lemma shows_singleton (o : Nat) (v : Vma) : shows o {v} = if v.shmem = some o then 1 else 0 := by
  rw [← Multiset.cons_zero, shows_cons, shows_zero, Nat.zero_add]

lemma shows_eq_zero {a : Multiset Vma} (h : shows o a = 0) (hv : v ∈ a) : v.shmem ≠ some o :=
  Multiset.countP_eq_zero.mp h v hv

def areasOf : Option MmStruct → Multiset Vma
  | none => 0
  | some mm => mm.space

@[simp] lemma areasOf_none : areasOf none = 0 := rfl
@[simp] lemma areasOf_some (mm : MmStruct) : areasOf (some mm) = mm.space := rfl

structure Linked (strict : Prop) (s : Sys) (v : Vma) : Prop where
  obj : ∀ o, v.shmem = some o → v.vmFlags.share = true ∧
    ∃ obj, s.shmem o = some obj ∧ v.shmemOff + (v.vmEnd - v.vmStart) ≤ obj.len
  shared : strict → v.vmFlags.share = true → v.shmem ≠ none

structure Sys.Inv (strict : Prop) (pending : Multiset Vma) (s : Sys) : Prop where
  mm : ∀ i mm, s.mms i = some mm → Mm.Inv mm
  linked : ∀ i, ∀ v ∈ areasOf (s.mms i), Linked strict s v
  held : ∀ v ∈ pending, Linked strict s v
  count : ∀ o obj, s.shmem o = some obj → ∃ k, Total (fun i => shows o (areasOf (s.mms i))) k ∧
    obj.ref = (k + shows o pending : Nat) ∧ 0 < k + shows o pending
  fresh : ∀ o, s.fresh ≤ o → s.shmem o = none

def OnlyNull (strict : Prop) (e : Panic) : Prop := ¬ strict ∧ e = .nullShmem

lemma Sys.Inv.setMm (new : Option MmStruct) (h : s.Inv strict pending)
    (hinv : ∀ mm, new = some mm → Mm.Inv mm) (hlink : ∀ v ∈ areasOf new, Linked strict s v)
    (hheld : ∀ v ∈ pending', Linked strict s v)
    (hcount : ∀ o, shows o (areasOf new) + shows o pending' =
    shows o (areasOf (s.mms i)) + shows o pending) :
    (s.setMm i new).Inv strict pending' where
  mm j mm hj := by
    by_cases hji : j = i
    · subst hji
      exact hinv mm (by simpa [Sys.setMm] using hj)
    · exact h.mm j mm (by simpa [Sys.setMm, hji] using hj)
  linked j v hv := by
    by_cases hji : j = i
    · subst hji
      have hv' : v ∈ areasOf new := by simpa [Sys.setMm] using hv
      exact ⟨(hlink v hv').obj, (hlink v hv').shared⟩
    · have hl := h.linked j v (by simpa [Sys.setMm, hji] using hv)
      exact ⟨hl.obj, hl.shared⟩
  held v hv := ⟨(hheld v hv).obj, (hheld v hv).shared⟩
  count o obj hobj := by
    obtain ⟨k, htot, href, hpos⟩ := h.count o obj hobj
    have hle := htot.le i
    have hc := hcount o
    refine ⟨k + shows o (areasOf new) - shows o (areasOf (s.mms i)), ?_, ?_, ?_⟩
    · exact htot.update (g := fun _ x => shows o (areasOf x)) i new (by omega)
    · rw [href]
      congr 1
      omega
    · omega
  fresh := h.fresh

section

variable (h : s.Inv strict pending)
include h

lemma Sys.Inv.setMm_same (hi : s.mms i = some mm) (hinv : Mm.Inv mm')
    (hsp : mm'.space = mm.space) : (s.setMm i (some mm')).Inv strict pending := by
  grind [areasOf_some, h.setMm, h.held, h.linked]

def SameObjs (s s' : Sys) : Prop :=
  ∀ o obj, s.shmem o = some obj → ∃ obj', s'.shmem o = some obj' ∧ obj'.len = obj.len

omit h in
lemma Linked.mono (h : Linked strict s v) (hs : SameObjs s s') : Linked strict s' v := by
  refine ⟨fun o ho => ?_, h.shared⟩
  obtain ⟨hshare, obj, hobj, hlen⟩ := h.obj o ho
  obtain ⟨obj', hobj', heq⟩ := hs o obj hobj
  exact ⟨hshare, obj', hobj', by rwa [heq]⟩

omit h in
lemma sameObjs_setRef {obj : ShmemStruct} (hobj : s.shmem o = some obj) (ref : Int) :
    SameObjs s (s.setShmem o (some { obj with ref })) := by
  intro o' obj' ho'
  by_cases hoo : o' = o
  · subst hoo
    rw [hobj] at ho'
    cases ho'
    exact ⟨{ obj with ref }, by simp, rfl⟩
  · exact ⟨obj', by simpa [hoo] using ho', rfl⟩

lemma Sys.Inv.setRef {obj : ShmemStruct} {ref : Int} (hobj : s.shmem o = some obj)
    (hheld : ∀ v ∈ pending', Linked strict s v)
    (hsame : ∀ o', o' ≠ o → shows o' pending' = shows o' pending)
    (href : ref - obj.ref = (shows o pending' : Int) - shows o pending) (hpos : 0 < ref) :
    (s.setShmem o (some { obj with ref })).Inv strict pending' := by
  have hobjs := sameObjs_setRef hobj ref
  refine ⟨h.mm, fun i v hv => (h.linked i v hv).mono hobjs, fun v hv => (hheld v hv).mono hobjs, ?_, ?_⟩
  · intro o' obj' ho'
    by_cases hoo : o' = o
    · subst hoo
      obtain ⟨k, htot, hk, -⟩ := h.count o' obj hobj
      obtain rfl : { obj with ref } = obj' := by simpa using ho'
      refine ⟨k, htot, ?_, ?_⟩
      · push_cast at hk ⊢
        omega
      · push_cast at hk
        omega
    · obtain ⟨k, htot, hk, hp⟩ := h.count o' obj' (by simpa [hoo] using ho')
      exact ⟨k, htot, by rwa [hsame o' hoo], by rwa [hsame o' hoo]⟩
  · intro o' ho'
    have hne : o' ≠ o := by
      rintro rfl
      rw [h.fresh o' ho'] at hobj
      cases hobj
    simpa [hne] using h.fresh o' ho'

lemma Sys.Inv.refInc (hv : Linked strict s v) (ho : v.shmem = some o) :
    ∃ ref s', s.shmemRefInc o = .ok (ref, s') ∧ s'.Inv strict (v ::ₘ pending) ∧ s'.mms = s.mms ∧ SameObjs s s' := by
  obtain ⟨-, obj, hobj, -⟩ := hv.obj o ho
  obtain ⟨k, -, hk, hpos⟩ := h.count o obj hobj
  refine ⟨obj.ref + 1, s.setShmem o (some { obj with ref := obj.ref + 1 }),
    by simp only [Sys.shmemRefInc, Sys.refAdd, hobj], ?_, rfl, sameObjs_setRef hobj _⟩
  refine h.setRef hobj (Multiset.forall_mem_cons.mpr ⟨hv, h.held⟩) (fun o' ho' => ?_) ?_ (by omega)
  · rw [shows_cons, if_neg (by rw [ho]; simpa using ho'.symm), Nat.add_zero]
  · rw [shows_cons, if_pos ho]
    push_cast
    omega

lemma Sys.Inv.hold (hv : Linked strict s v) (hn : v.shmem = none) : s.Inv strict (v ::ₘ pending) := by
  refine ⟨h.mm, h.linked, Multiset.forall_mem_cons.mpr ⟨hv, h.held⟩, fun o obj ho => ?_, h.fresh⟩
  simpa [shows_cons, hn] using h.count o obj ho

end

lemma Sys.Inv.destroy (h : s.Inv strict (v ::ₘ pending)) (ho : v.shmem = some o)
    {obj : ShmemStruct} (hobj : s.shmem o = some obj) (href : obj.ref = 1) {x : Option ShmemStruct} :
    ((s.setShmem o x).setShmem o none).Inv strict pending := by
  obtain ⟨k, htot, hk, -⟩ := h.count o obj hobj
  rw [shows_cons, if_pos ho] at hk
  obtain ⟨rfl, hnone⟩ : k = 0 ∧ shows o pending = 0 := by
    push_cast at hk
    omega
  have hkeep {u : Vma} (hu : Linked strict s u) (huo : u.shmem ≠ some o) :
      Linked strict ((s.setShmem o x).setShmem o none) u := by
    refine ⟨fun o' ho' => ?_, hu.shared⟩
    have hne : o' ≠ o := by
      rintro rfl
      exact huo ho'
    obtain ⟨hshare, obj', hobj', hlen⟩ := hu.obj o' ho'
    exact ⟨hshare, obj', by simpa [hne] using hobj', hlen⟩
  refine ⟨h.mm, fun i u hu => ?_, fun u hu => ?_, fun o' obj' ho' => ?_, fun o' ho' => ?_⟩
  · exact hkeep (h.linked i u hu) (shows_eq_zero (htot.eq_zero i) hu)
  · exact hkeep (h.held u (Multiset.mem_cons_of_mem hu)) (shows_eq_zero hnone hu)
  · have hne : o' ≠ o := by
      rintro rfl
      simp at ho'
    obtain ⟨k, htot', hk', hp'⟩ := h.count o' obj' (by simpa [hne] using ho')
    rw [shows_cons, if_neg (by rw [ho]; simpa using hne.symm)] at hk' hp'
    exact ⟨k, htot', hk', hp'⟩
  · by_cases hne : o' = o
    · simp [hne]
    · simpa [hne] using h.fresh o' ho'

lemma vmaDestroy_ok (h : s.Inv strict (v ::ₘ pending)) :
    Safe (OnlyNull strict) (vmaDestroy s v) fun s' => s'.Inv strict pending ∧ s'.mms = s.mms := by
  have hv := h.held v (Multiset.mem_cons_self ..)
  rw [vmaDestroy]
  cases hshare : v.vmFlags.share with
  | false =>
    have hnone (o) : v.shmem ≠ some o := fun ho => by simpa [hshare] using (hv.obj o ho).1
    refine ⟨⟨h.mm, h.linked, fun u hu => h.held u (Multiset.mem_cons_of_mem hu), fun o obj ho => ?_, h.fresh⟩, rfl⟩
    simpa [shows_cons, hnone o] using h.count o obj ho
  | true =>
  cases ho : v.shmem with
  | none => exact ⟨fun hs => hv.shared hs hshare ho, rfl⟩
  | some o =>
    obtain ⟨-, obj, hobj, -⟩ := hv.obj o ho
    obtain ⟨k, -, hk, hpos⟩ := h.count o obj hobj
    simp only [↓reduceIte, deref, Sys.shmemRefDec, Sys.refAdd, hobj, bind, Except.bind, safe_pure]
    by_cases href : obj.ref + -1 = 0
    · rw [if_pos href]
      exact ⟨h.destroy ho hobj (by omega), rfl⟩
    · grind [shows_cons, h.setRef, h.held, Sys.setShmem]

lemma destroyAll_ok {l : List Vma} (h : s.Inv strict (l + pending)) :
    Safe (OnlyNull strict) (l.foldlM vmaDestroy s) fun s' => s'.Inv strict pending ∧ s'.mms = s.mms := by
  refine (Safe.foldlM (I := fun rest s' => s'.Inv strict (rest + pending) ∧ s'.mms = s.mms)
    ⟨h, rfl⟩ fun u rest s1 hs1 => ?_).mono fun s' hs' => ⟨by simpa using hs'.1, hs'.2⟩
  have hu : s1.Inv strict (u ::ₘ (rest + pending)) := by
    have := hs1.1
    rwa [← Multiset.cons_coe, Multiset.cons_add] at this
  exact (vmaDestroy_ok hu).mono fun s' hs' => ⟨hs'.1, hs'.2.trans hs1.2⟩

end Ucore.Process
