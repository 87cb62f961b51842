import Ucore.Libs.RbRep

/-!
# Insertion into the red-black tree

`rbInsert_rep`: inserting a fresh node puts it at its place in the order and leaves the
tree balanced with a black root.
-/

namespace Ucore.Libs.RbTree

open Lib
open ColTree (toList paint_mk)

variable {α : Type} {t t' : RbTree α} {p : Path α} {s : ColTree α} {f g : Frame α} {d : Dir} {n : Nat}

structure Holds (t : RbTree α) (s : ColTree α) : Prop where
  rep : RepAt t [] s
  balanced : ∃ n, Balanced s n
  black : s.red = false

lemma ColTree.ne_leaf_of_red (h : s.red = true) : s ≠ .leaf := by
  rintro rfl
  simp [ColTree.red] at h

lemma ColTree.exists_mk_of_red (d : Dir) (h : s.red = true) : ∃ a near far, s = .mk d true a near far := by
  cases s with
  | leaf => simp [ColTree.red] at h
  | node c l a r =>
    simp only [ColTree.red] at h
    subst h
    obtain ⟨near, far, h⟩ := ColTree.exists_mk d true l a r
    exact ⟨a, near, far, h⟩

variable {compare : α → α → Int} {z : α} {fuel : Nat}

def Monotone (compare : α → α → Int) (z : α) (l : List α) : Prop :=
  l.Pairwise fun a b => compare a z > 0 → compare b z > 0

structure Place (compare : α → α → Int) (z : α) (p : Path α) : Prop where
  before : ∀ b ∈ p.before, ¬ compare b z > 0
  after : ∀ b ∈ p.after, compare b z > 0
  side : ∀ f ∈ p.head?, f.dir = if compare f.a z > 0 then .left else .right

lemma Place.step {c : Bool} {l r : ColTree α} {a : α}
    (h : Place compare z p) (hm : Monotone compare z (.node c l a r : ColTree α).toList) :
    Place compare z (if compare a z > 0 then ⟨.left, c, a, r⟩ :: p else ⟨.right, c, a, l⟩ :: p) := by
  simp only [Monotone, toList, List.pairwise_append, List.pairwise_cons, List.mem_cons] at hm
  obtain ⟨-, ⟨har, -⟩, hla⟩ := hm
  split
  · case isTrue hg =>
    refine ⟨by simpa [Path.before] using h.before, ?_, by simp [hg]⟩
    grind [h.after, Path.after]
  · case isFalse hg =>
    refine ⟨?_, by simpa [Path.after] using h.after, by simp [hg]⟩
    simp only [Path.before, List.mem_append, List.mem_singleton]
    rintro b (hb | hb | rfl)
    · exact h.before b hb
    · exact fun hbz => hg (hla b hb a (.inl rfl) hbz)
    · exact hg

variable [DecidableEq α]

lemma rbInsertSub_uncle (h : RepAt t (f :: g :: p) s) (hs : s ≠ .leaf) (hu : g.sib.red = true) :
    ∃ t', rbInsertSub g.dir t (ptr s) = some (t', .node g.a) ∧
    RepAt t' p (.mk g.dir true g.a (.mk f.dir false f.a s f.sib) (g.sib.paint false)) := by
  have hup := repAt_cons.mp h
  have hx := h.parent hs
  have hf := h.up
  simp only [top] at hf hx
  have h1 := setRed_rep (c := false) hup (by simp)
  simp only [ptr_mk, paint_mk] at h1
  have h2 := setRed_rep (c := false) (repAt_sib.mp h1) (by simp)
  have h2' := repAt_cons.mp (repAt_sib.mp h2)
  simp only [Dir.opp_opp] at h2'
  have h3 := setRed_rep (c := true) h2' (by simp)
  simp only [ptr_mk, paint_mk] at h3
  refine ⟨_, ?_, h3⟩
  simp [rbInsertSub, hx, hf, hup.sib, hup.sibRed, hu]

lemma rbInsertSub_outer (h : RepAt t (f :: g :: p) s) (hs : s ≠ .leaf) (hu : g.sib.red = false) (hd : f.dir = g.dir) :
    ∃ t', rbInsertSub g.dir t (ptr s) = some (t', ptr s) ∧
    RepAt t' p (.mk g.dir false f.a s (.mk g.dir true g.a f.sib g.sib)) := by
  have hup := repAt_cons.mp h
  have hx := h.parent hs
  have hf := h.up
  simp only [top] at hf hx
  have hhere : ptr s ≠ t.child (.node f.a) g.dir.opp := by
    rw [ne_eq, h.here_iff hs]
    simp [hd]
  have h1 := setRed_rep (c := false) hup (by simp)
  simp only [ptr_mk, paint_mk] at h1
  have h2 := setRed_rep (c := true) (repAt_cons.mp h1) (by simp)
  simp only [ptr_mk, paint_mk] at h2
  rw [hd] at h2
  obtain ⟨t', hrot, hrep, -⟩ := rbRotate_opp_rep h2
  refine ⟨t', ?_, hrep⟩
  simp [rbInsertSub, hx, hf, hup.sib, hup.sibRed, hu, hhere, hrot]

lemma rbInsertSub_inner {b : α} {B C : ColTree α}
    (h : RepAt t (f :: g :: p) (.mk g.dir true b B C)) (hu : g.sib.red = false)
    (hd : f.dir = g.dir.opp) :
    ∃ t', rbInsertSub g.dir t (.node b) = some (t', .node f.a) ∧
    RepAt t' p (.mk g.dir false b (.mk g.dir f.red f.a f.sib B) (.mk g.dir true g.a C g.sib)) := by
  have hs : ColTree.mk g.dir true b B C ≠ .leaf := by cases g.dir <;> simp [ColTree.mk]
  have hup := repAt_cons.mp h
  have hx := h.parent hs
  have hf := h.up
  have hhere := (h.here_iff hs (d := g.dir.opp)).mpr hd.symm
  simp only [ptr_mk] at hhere hx
  simp only [top] at hf hx
  have hmk := hup
  rw [hd, ColTree.mk_opp] at hmk
  obtain ⟨t1, hrot1, hrep1, -⟩ := rbRotate_rep hmk
  have hfoc := hrep1.down
  -- the second half of the round is the outer case on `t1`
  obtain ⟨t', hsub, hrep⟩ := rbInsertSub_outer hfoc (by simp) hu rfl
  refine ⟨t', ?_, hrep⟩
  rw [ptr_mk] at hsub
  rw [← hsub]
  have hx1 := hfoc.parent (by simp)
  have hf1 := hfoc.up
  have hup1 := repAt_cons.mp hfoc
  have hhere1 := hfoc.here_iff (by simp) (d := g.dir.opp)
  grind [ptr_mk, rbInsertSub, top, Dir.opp_ne, hup.sib, hup.sibRed, hup1.sib, hup1.sibRed]

lemma rbInsertFixup_succ (h : RepAt t (f :: g :: p) s) (hs : s ≠ .leaf) (hr : f.red = true) (fuel : Nat) :
    rbInsertFixup (fuel + 1) t (ptr s) = (rbInsertSub g.dir t (ptr s)).bind fun r => rbInsertFixup fuel r.1 r.2 := by
  have hx := h.parent hs
  have hf := h.up
  have hhere := (repAt_cons.mp h).here_iff (by simp) (d := .left)
  simp only [ptr_mk, top] at hx hf hhere
  have hd : (if .node f.a = t.child (.node g.a) .left then Dir.left else Dir.right) = g.dir := by
    simp only [hhere]
    cases g.dir <;> simp
  rw [rbInsertFixup]
  simp only [hx, hf, h.upRed, hr, ↓reduceIte, hd]
  rfl

lemma rbInsertFixup_done (h : RepAt t p s) (hs : s ≠ .leaf) (hp : ∀ f ∈ p.head?, f.red = false) (fuel : Nat) :
    rbInsertFixup (fuel + 1) t (ptr s) = some t := by
  rw [rbInsertFixup, h.parent hs]
  cases p with
  | nil => simp [top, h.rootRed]
  | cons f fs => simp [top, h.upRed, hp f (by simp)]

lemma rbInsertFixup_rep (h : RepAt t p s) (hs : s.red = true) (hf : Fits p n) (hb : Balanced s n)
    (hfuel : p.length < fuel) :
    ∃ t' s', rbInsertFixup fuel t (ptr s) = some t' ∧ RepAt t' [] s' ∧
    s'.toList = (p.plug s).toList ∧ ∃ m, Balanced s' m := by
  have hne := ColTree.ne_leaf_of_red hs
  induction fuel generalizing t p s n with
  | zero => omega
  | succ fuel ih =>
  -- without a red parent the loop stops here
  have hstop (hp : ∀ f ∈ p.head?, f.red = false) :
    ∃ t' s', rbInsertFixup (fuel + 1) t (ptr s) = some t' ∧ RepAt t' [] s' ∧
        s'.toList = (p.plug s).toList ∧ ∃ m, Balanced s' m := by
    obtain ⟨m, hm, -⟩ := hf.plug hb fun f hfp hr => by simp [hp f hfp] at hr
    exact ⟨t, p.plug s, rbInsertFixup_done h hne hp fuel, repAt_plug.mp h, rfl, m, hm⟩
  cases hf with
  | top => exact hstop (by simp)
  | black hr => exact hstop (by simpa using hr)
  | @red _ f g gs hr hsb hbl hg hrest =>
  obtain ⟨hgs, hfg⟩ : Balanced g.sib n ∧ Fits gs (n + 1) := by
    cases hrest with
    | red hr' => simp [hg] at hr'
    | black _ hs' h' => exact ⟨hs', h'⟩
  rw [rbInsertFixup_succ h hne hr]
  simp only [List.length_cons] at hfuel
  cases hu : g.sib.red with
  | true =>
    obtain ⟨t1, hsub, hrep⟩ := rbInsertSub_uncle h hne hu
    obtain ⟨b, B, C, hmk⟩ := ColTree.exists_mk_of_red g.dir hu
    have hbal : Balanced (.mk g.dir true g.a (.mk f.dir false f.a s f.sib) (g.sib.paint false)) (n + 1) := by
      rw [hmk, balanced_red] at hgs
      simp only [hmk, paint_mk, balanced_red, balanced_black, ColTree.red_mk, and_true]
      exact ⟨⟨n, rfl, hb, hsb⟩, n, rfl, hgs.1, hgs.2.1⟩
    obtain ⟨t', s', hfix, hrep', hlist, hm⟩ := ih hrep (by simp) hfg hbal (by omega) (by simp)
    rw [ptr_mk] at hfix
    refine ⟨t', s', by simp [hsub, hfix], hrep', hlist.trans ?_, hm⟩
    refine Path.plug_congr gs (ColTree.toList_mk_congr _ _ _ _ ?_ (by simp))
    exact ColTree.toList_mk_congr _ _ _ _ rfl rfl
  | false =>
    obtain ⟨fuel, rfl⟩ : ∃ k, fuel = k + 1 := ⟨fuel - 1, by omega⟩
    rcases Dir.eq_or_opp g.dir f.dir with hd | hd
    · obtain ⟨t1, hsub, hrep⟩ := rbInsertSub_outer h hne hu hd
      have hbal : Balanced (.mk g.dir false f.a s (.mk g.dir true g.a f.sib g.sib)) (n + 1) := by
        simp only [balanced_red, balanced_black]
        exact ⟨n, rfl, hb, hsb, hgs, hbl, hu⟩
      have hfoc := hrep.down
      obtain ⟨m, hm, -⟩ := hfg.plug hbal (by simp)
      refine ⟨t1, _, ?_, repAt_plug.mp hrep, Path.plug_congr gs ?_, m, hm⟩
      · rw [hsub]
        exact rbInsertFixup_done hfoc hne (by simp) fuel
      · simp only [hd]
        exact (ColTree.toList_rotate ..).symm
    · obtain ⟨b, B, C, rfl⟩ := ColTree.exists_mk_of_red g.dir hs
      obtain ⟨t1, hsub, hrep⟩ := rbInsertSub_inner h hu hd
      have hbal : Balanced (.mk g.dir false b (.mk g.dir true f.a f.sib B) (.mk g.dir true g.a C g.sib)) (n + 1) := by
        simp only [balanced_red, balanced_black] at hb ⊢
        exact ⟨n, rfl, ⟨hsb, hb.1, hbl, hb.2.2.1⟩, hb.2.1, hgs, hb.2.2.2, hu⟩
      rw [hr] at hrep
      have hfoc := hrep.down
      have hdone := rbInsertFixup_done hfoc (by simp) (by simp) fuel
      obtain ⟨m, hm, -⟩ := hfg.plug hbal (by simp)
      rw [ptr_mk] at hdone ⊢
      refine ⟨t1, _, by simp [hsub, hdone], repAt_plug.mp hrep, Path.plug_congr gs ?_, m, hm⟩
      simp only [hd, ColTree.mk_opp]
      cases g.dir <;> simp [ColTree.mk, toList]

lemma rbInsertPlace_rep (h : RepAt t p s) (hp : Place compare z p)
    (hm : Monotone compare z s.toList) (hfuel : s.toList.length < fuel) :
    ∃ p', rbInsertPlace compare t z fuel (top p) (ptr s) = some (top p') ∧ Place compare z p' ∧
    p'.plug .leaf = p.plug s := by
  induction fuel generalizing p s with
  | zero => omega
  | succ fuel ih =>
  cases s with
  | leaf => exact ⟨p, by simp [rbInsertPlace, ptr], hp, rfl⟩
  | node c l a r =>
    have hstep := hp.step hm
    simp only [toList, List.length_append, List.length_cons] at hfuel
    simp only [Monotone, toList, List.pairwise_append, List.pairwise_cons] at hm
    obtain ⟨hml, ⟨-, hmr⟩, -⟩ := hm
    simp only [rbInsertPlace, ptr, reduceCtorEq, ↓reduceIte, greater, decide_eq_true_eq]
    by_cases hg : compare a z > 0
    · simp only [hg, ↓reduceIte] at hstep ⊢
      have hl := RepAt.down (d := .left) h
      obtain ⟨p', hpl, hp', hplug⟩ := ih hl hstep hml (by omega)
      exact ⟨p', by rw [hl.here]; exact hpl, hp', hplug⟩
    simp only [hg, ↓reduceIte] at hstep ⊢
    have hr := RepAt.down (d := .right) h
    obtain ⟨p', hpl, hp', hplug⟩ := ih hr hstep hmr (by omega)
    exact ⟨p', by rw [hr.here]; exact hpl, hp', hplug⟩

lemma rbInsertBinary_rep (h : RepAt t [] s) (hz : z ∉ s.toList)
    (hm : Monotone compare z s.toList) (hfuel : s.toList.length < fuel) :
    ∃ t' p, rbInsertBinary compare fuel t z = some t' ∧ RepAt (t'.setRed (.node z) true) p (.node true .leaf z .leaf) ∧
      Place compare z p ∧ p.plug .leaf = s := by
  have h1 : RepAt ((t.setChild (.node z) .left .nil).setChild (.node z) .right .nil) [] s := by
    refine h.congr (by simp [setChild]) (by simp [setChild]) fun b hb => ?_
    have hne : b ≠ z := fun he => hz (by simpa [Path.elems, he] using hb)
    simp [setChild, hne]
  obtain ⟨p, hpl, hp, rfl⟩ := rbInsertPlace_rep h1 ⟨by simp [Path.before], by simp [Path.after], by simp⟩ hm hfuel
  have hzp : z ∉ p.elems := by
    rw [(p.perm_plug .leaf).mem_iff] at hz
    simpa [toList] using hz
  have hzt := top_ne_node hzp
  have hside : (if top p = .root ∨ greater compare (top p) z = true then Dir.left else .right) =
      side p := by
    cases p with
    | nil => simp [top, side]
    | cons f fs => simp [top, side, greater, hp.side f (by simp)]
  have h2 := repAt_plug.mpr h1
  generalize ht1 : (t.setChild (.node z) .left .nil).setChild (.node z) .right .nil = t1 at *
  have hz1 : ((t1.mem (.node z)).left = .nil) ∧ (t1.mem (.node z)).right = .nil := by
    subst ht1
    simp [setChild, RbNode.setChild]
  refine ⟨(t1.setParent (.node z) (top p)).setChild (top p) (side p) (.node z), p, ?_, ⟨?_, ?_, ?_, ?_⟩, hp, rfl⟩
  · grind [top, rbInsertBinary, h1.root]
  · simp [Rep, setRed, setChild, setParent, hzt.symm, RbNode.setRed, RbNode.setParent, hz1, ptr]
  · refine h2.path.refill (by simpa [toList] using h2.nodup) (fun b hb hbt => ?_) (fun ht => ?_) ?_
    · simp [setRed, setChild, setParent, hbt, ne_of_mem_of_not_mem hb hzp]
    · simp [setRed, setChild, setParent, Ne.symm ht]
    · simp [setRed, setChild, setParent, hzt, side, ptr]
  · refine h2.nil.congr ?_
    simp [setRed, setChild, setParent, (top_ne_nil p).symm]
  · simpa [toList, hzp] using h2.nodup

lemma rbInsert_rep (h : Holds t s) (hz : z ∉ s.toList) (hm : Monotone compare z s.toList)
    (hfuel : s.toList.length < fuel) :
    ∃ t' s' l r, rbInsert compare fuel t z = some t' ∧ Holds t' s' ∧ s.toList = l ++ r ∧
    s'.toList = l ++ z :: r ∧ (∀ b ∈ l, ¬ compare b z > 0) ∧ ∀ b ∈ r, compare b z > 0 := by
  obtain ⟨hrep, ⟨m, hbal⟩, hblack⟩ := h
  obtain ⟨t1, p, hbin, hrep1, hplace, rfl⟩ := rbInsertBinary_rep hrep hz hm hfuel
  obtain ⟨n, hfits, hleaf, -⟩ := fits_of_plug p hbal hblack
  cases hleaf
  have hlen := p.length_le_plug .leaf
  obtain ⟨t2, s2, hfix, hrep2, hlist, m2, hbal2⟩ := rbInsertFixup_rep hrep1 rfl hfits
    (.red .leaf .leaf rfl rfl) (show _ < fuel by simp only [toList] at *; omega)
  have hrep3 := setRed_rep (c := false) hrep2 (by simp)
  refine ⟨_, _, p.before, p.after, ?_, ⟨hrep3, hbal2.paint, by simp⟩, ?_, ?_, hplace.before, hplace.after⟩
  · have hnil := hrep3.nil.1
    grind [isRed, ptr, rbInsert, hrep3.rootRed, hrep2.root]
  · simp [Path.toList_plug, toList]
  · simp [hlist, Path.toList_plug, toList]

end Ucore.Libs.RbTree
