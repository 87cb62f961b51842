import Ucore.Process.ProcOk

/-!
# Changing the links

A new process, the children of a process that exits, and a process that is freed.
-/

namespace Ucore.Process.Procs

open Ucore.Lib Function
open Sync (WaitState)

variable {s s' t : Procs} {kids : Nat → List Nat} {p q z heir : Nat} {l : List Nat}

lemma Family.eq_of_mem (h : s.Family kids) {t t' : Nat} (hq : q ∈ kids t) (hq' : q ∈ kids t') : t = t' :=
  Option.some.inj (((h.mem t q).mp hq).2.symm.trans ((h.mem t' q).mp hq').2)

lemma pushChild_linked (h : Lib.Linked s.optr s.yptr none l) (hq : q ∉ l) (hc : ∀ y, s.cptr p = some y → y ∉ l) :
    Lib.Linked (s.pushChild p q).optr (s.pushChild p q).yptr none l := by
  have hne : ∀ y ∈ l, y ≠ q := fun y hy heq => hq (heq ▸ hy)
  refine h.congr (fun y hy => update_of_ne (hne y hy) ..) fun y hy => ?_
  exact (updateAt_of_ne fun heq => hc y heq hy).trans (update_of_ne (hne y hy) ..)

lemma Family.push (h : s.Family kids) (hq : q ∉ s.procList) : (s.setLinks p q).Family (update kids p (q :: kids p)) := by
  have hnot : ∀ t, q ∉ kids t := fun t ht => hq ((h.mem t q).mp ht).1
  refine ⟨fun t => ?_, fun t => ?_, fun t => ?_, fun t y => ?_⟩
  · by_cases ht : t = p
    · subst ht
      have hpush := (h.linked t).push (List.nodup_cons.mpr ⟨hnot t, h.nodup t⟩)
      rw [← h.head] at hpush
      rwa [update_self]
    · rw [update_of_ne ht]
      refine pushChild_linked (h.linked t) (hnot t) fun y hy hyt => ht ?_
      exact h.eq_of_mem hyt (List.mem_of_mem_head? (h.head p ▸ hy))
  · by_cases ht : t = p
    · subst ht
      simp [setLinks, pushChild]
    · simp [setLinks, pushChild, ht, h.head]
  · grind [h.nodup]
  · have hmem : y ∈ (s.setLinks p q).procList ↔ y = q ∨ y ∈ s.procList := List.mem_cons
    have hpar : (s.setLinks p q).parent = update s.parent q (some p) := rfl
    rw [hmem, hpar]
    grind [h.mem]

structure Splice (s : Procs) (p : Nat) (kids : Nat → List Nat) : Prop where
  rest : Forward s.optr (kids p)
  linked : ∀ t, t ≠ p → Lib.Linked s.optr s.yptr none (kids t)
  head : ∀ t, s.cptr t = (kids t).head?
  nodup : ∀ t, (kids t).Nodup
  mem : ∀ t q, q ∈ kids t ↔ q ∈ s.procList ∧ s.parent q = some t

lemma hearOf_ok (h : s.Wakeable) (n p heir q : Nat) :
    ∃ t, (if s.state q = .zombie then s.wakeWaiter heir >>= adopt n p heir else s.adopt n p heir) = t.adopt n p heir ∧
    Roused s t ∧ (s.state q = .zombie → t.waitState heir ≠ .child) := by
  by_cases hq : s.state q = .zombie
  · obtain ⟨t, ht, hr, hne⟩ := wakeWaiter_ok h heir
    refine ⟨t, ?_, hr, fun _ => hne⟩
    rw [if_pos hq, ht]
    rfl
  · exact ⟨s, if_neg hq, .refl, fun hz => absurd hz hq⟩

section

variable (h : s.Splice p kids)
include h

lemma Splice.family (hp : kids p = []) : s.Family kids := by
  refine ⟨fun t => ?_, h.head, h.nodup, h.mem⟩
  by_cases ht : t = p
  · rw [ht, hp]
    trivial
  · exact h.linked t ht

lemma Splice.eq_of_mem {t t' : Nat} (hq : q ∈ kids t) (hq' : q ∈ kids t') : t = t' :=
  Option.some.inj (((h.mem t q).mp hq).2.symm.trans ((h.mem t' q).mp hq').2)

def kidsAfter (p heir : Nat) (kids : Nat → List Nat) (q : Nat) (l : List Nat) : Nat → List Nat :=
  update (update kids heir (q :: kids heir)) p l

lemma Splice.handOver (hp : heir ≠ p) (hkids : kids p = q :: l) :
    (s.handOver p heir q).Splice p (kidsAfter p heir kids q l) := by
  have hqp : q ∈ kids p := hkids ▸ List.mem_cons_self
  have hnot : ∀ t, t ≠ p → q ∉ kids t := fun t ht hq => ht (h.eq_of_mem hq hqp)
  have hnd : (q :: l).Nodup := hkids ▸ h.nodup p
  have hrest : s.optr q = l.head? ∧ Forward s.optr l := by simpa [hkids, Forward] using h.rest
  obtain ⟨hlist, hpar⟩ := (h.mem p q).mp hqp
  have hheir : ∀ t, t ≠ p → t ≠ heir → kidsAfter p heir kids q l t = kids t := by
    intro t ht hth
    rw [kidsAfter, update_of_ne ht, update_of_ne hth]
  have hself : kidsAfter p heir kids q l p = l := update_self ..
  have hhead : kidsAfter p heir kids q l heir = q :: kids heir := by
    rw [kidsAfter, update_of_ne hp, update_self]
  have hcptr : update s.cptr p (s.optr q) heir = (kids heir).head? := (update_of_ne hp ..).trans (h.head heir)
  refine ⟨?_, fun t ht => ?_, fun t => ?_, fun t => ?_, fun t y => ?_⟩
  · rw [hself]
    refine hrest.2.congr fun y hy => update_of_ne ?_ ..
    rintro rfl
    exact (List.nodup_cons.mp hnd).1 hy
  · by_cases hth : t = heir
    · subst hth
      have hpush := (h.linked t ht).push (List.nodup_cons.mpr ⟨hnot t ht, h.nodup t⟩)
      rw [← hcptr] at hpush
      rwa [hhead]
    · rw [hheir t ht hth]
      refine pushChild_linked (h.linked t ht) (hnot t ht) fun y hy hyt => hth ?_
      exact h.eq_of_mem hyt (List.mem_of_mem_head? (hcptr ▸ hy))
  · have hnew : (s.handOver p heir q).cptr = update (update s.cptr p (s.optr q)) heir (some q) := rfl
    rw [hnew]
    grind [h.head]
  · grind [h.nodup]
  · have hnew : (s.handOver p heir q).parent = update s.parent q (some heir) := rfl
    have hmem : y ∈ (s.handOver p heir q).procList ↔ y ∈ s.procList := Iff.rfl
    rw [hnew, hmem]
    by_cases hy : y = q
    · grind
    · grind [h.mem]

lemma Splice.roused (hr : Roused s s') : s'.Splice p kids := by
  rw [hr.eq]
  exact ⟨h.rest, h.linked, h.head, h.nodup, h.mem⟩

def relink (s t : Procs) : Procs := { s with parent := t.parent, cptr := t.cptr, yptr := t.yptr, optr := t.optr }

omit h in
lemma Roused.relink (h : Roused s s') (t : Procs) : Roused (s.relink t) (s'.relink t) := by
  refine ⟨?_, h.each⟩
  rw [h.eq]
  rfl

lemma adopt_ok {n : Nat} (hp : heir ≠ p) (hw : s.Wakeable) (hn : (kids p).length < n) :
    ∃ s' kids', s.adopt n p heir = .ok s' ∧ s'.Family kids' ∧ Roused (s.relink s') s' ∧
      (∀ q, s'.parent q = if q ∈ kids p then some heir else s.parent q) ∧
      ∀ z ∈ kids p, s.state z = .zombie → s'.waitState heir ≠ .child := by
  induction n generalizing s kids with
  | zero => omega
  | succ n ih =>
    have hhead := h.head p
    rw [adopt]
    cases hkids : kids p with
    | nil =>
      rw [hkids, List.head?_nil] at hhead
      rw [hhead]
      refine ⟨s, kids, rfl, h.family hkids, .refl, fun q => ?_, fun z hz => ?_⟩
      · rw [if_neg List.not_mem_nil]
      · cases hz
    | cons q l =>
      rw [hkids, List.head?_cons] at hhead
      rw [hhead]
      have hwake : (s.handOver p heir q).Wakeable := hw
      obtain ⟨t, ht, hr, hheard⟩ := hearOf_ok hwake n p heir q
      have hafter : kidsAfter p heir kids q l p = l := update_self ..
      have hlen : l.length < n := by
        rw [hkids, List.length_cons] at hn
        omega
      obtain ⟨s', kids', hs', hfam, hrest, hpar, hz⟩ :=
        ih ((h.handOver hp hkids).roused hr) (hwake.roused hr) (by rwa [hafter])
      rw [hafter] at hpar hz
      refine ⟨s', kids', ht.trans hs', hfam, (hr.relink s').trans hrest, fun y => ?_, fun z hmem hzombie => ?_⟩
      · have hty : t.parent = update s.parent q (some heir) := by
          rw [hr.eq]
          rfl
        rw [hpar, hty]
        by_cases hy : y = q
        · subst hy
          simp
        · simp [hy]
      · rcases List.mem_cons.mp hmem with rfl | hmem
        · intro hwait
          exact hheard hzombie ((hrest.waitState (WaitState.ne_none_of_child hwait)).2 ▸ hwait)
        · exact hz z hmem (hr.zombie_iff.mpr hzombie)

end

lemma Family.remove (h : s.Family kids) (hlist : s.procList.Nodup) (hz : z ∈ kids p) :
    (s.removeLinks p z).Family (update kids p ((kids p).erase z)) := by
  have hlinked := h.linked p
  have hother : ∀ t, t ≠ p → ∀ y ∈ kids t, s.yptr z ≠ some y ∧ s.optr z ≠ some y := by
    intro t ht y hy
    constructor
    · grind [hlinked.prev_mem, hlinked.prev_head, h.eq_of_mem]
    · exact fun heq => ht (h.eq_of_mem hy (hlinked.next_mem hz heq))
  refine ⟨fun t => ?_, fun t => ?_, fun t => ?_, fun t y => ?_⟩
  · by_cases ht : t = p
    · subst ht
      rw [update_self]
      exact hlinked.remove (h.nodup t) (fun y hy => by cases hy) hz
    · rw [update_of_ne ht]
      exact (h.linked t).congr (fun y hy => updateAt_of_ne (hother t ht y hy).1) fun y hy =>
        updateAt_of_ne (hother t ht y hy).2
  · have hcptr : (s.removeLinks p z).cptr = if s.yptr z = none then update s.cptr p (s.optr z) else s.cptr := rfl
    rw [hcptr]
    by_cases ht : t = p
    · subst ht
      rw [update_self, hlinked.head_remove (h.nodup t) hz, ← h.head]
      by_cases hfirst : s.yptr z = none
      · simp [hfirst]
      · simp [hfirst]
    rw [update_of_ne ht, ← h.head]
    by_cases hfirst : s.yptr z = none
    · simp [hfirst, ht]
    · simp [hfirst]
  · grind [h.nodup]
  · have hmem : y ∈ (s.removeLinks p z).procList ↔ y ≠ z ∧ y ∈ s.procList := hlist.mem_erase_iff
    have hpar : (s.removeLinks p z).parent = s.parent := rfl
    rw [hmem, hpar, and_assoc, ← h.mem]
    grind [List.Nodup.mem_erase_iff, h.nodup, h.eq_of_mem]

end Ucore.Process.Procs
