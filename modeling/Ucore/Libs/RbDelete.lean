import Ucore.Libs.RbInsert

/-!
# Deletion from the red-black tree

`rbDelete_rep`: deleting a node takes it out of the order and leaves the tree balanced
with a black root.
-/

namespace Ucore.Libs.RbTree

open Lib
open ColTree (toList paint_mk)
open Lib.Path (plug plug_congr elems plug_append toList_plug)

variable {α : Type} {t t' : RbTree α} {p fs : Path α} {s B C : ColTree α} {f : Frame α}
  {d : Dir} {n fuel : Nat} {w : α} {root0 : RbPtr α}

structure Hangs (t : RbTree α) (p : Path α) (s : ColTree α) : Prop extends RepAt t p s where
  here : t.parent (ptr s) = top p

lemma Hangs.of_parent (h : RepAt t' p s) (hs : s = .leaf → t'.parent .nil = top p) : Hangs t' p s := by
  refine ⟨h, ?_⟩
  grind [h.parent, ptr]

lemma exists_black_mk (d : Dir) (h : Balanced s (n + 1)) (hb : s.red = false) :
    ∃ w B C, s = .mk d false w B C ∧ Balanced B n ∧ Balanced C n := by
  cases s with
  | leaf => cases h
  | node c l a r =>
    obtain ⟨near, far, hmk⟩ := ColTree.exists_mk d c l a r
    grind [ColTree.red, balanced_black]

structure Short (s : ColTree α) (n : Nat) : Prop where
  red : s.red = true → Balanced (s.paint false) (n + 1)
  black : s.red = false → Balanced s n

lemma Short.up (hf : Fits (f :: fs) (n + 1)) (hr : s.red = f.red)
    (hb : Balanced (s.paint false) (n + 1)) : ∃ m, Fits fs (m + 1) ∧ Short s m := by
  cases hf with
  | red hf _ _ _ h => exact ⟨n, h, fun _ => hb, by simp [hr, hf]⟩
  | black hf _ h =>
    have hcol : s.red = false := hr.trans hf
    rw [← hcol, ColTree.paint_red] at hb
    exact ⟨n + 1, h, by simp [hcol], fun _ => hb⟩

lemma ptr_plug_cons (f : Frame α) (fs : Path α) (s s' : ColTree α) :
    ptr (plug (f :: fs) s) = .node f.a ∨ ptr (plug (f :: fs) s) = ptr (fs.plug s') := by
  cases fs with
  | nil => simp [plug]
  | cons g gs => exact .inr (ptr_plug_congr gs (by simp))

variable [DecidableEq α]

section

variable (h : Hangs t (f :: fs) s)
include h

lemma rbDeleteFixupRed_black (hw : f.sib.red = false) : rbDeleteFixupRed f.dir t (ptr s) = some (t, ptr f.sib) := by
  grind [rbDeleteFixupRed, top, h.here, h.sib, h.sibRed]

lemma rbDeleteFixupRed_red (hw : f.sib = .mk f.dir true w B C) :
    ∃ t', rbDeleteFixupRed f.dir t (ptr s) = some (t', ptr B) ∧
    Hangs t' (⟨f.dir, true, f.a, B⟩ :: ⟨f.dir, false, w, C⟩ :: fs) s := by
  have hx := h.here
  simp only [top] at hx
  have h1 := setRed_rep (c := false) (repAt_sib.mp h.toRepAt) (by simp [hw])
  have h2 := setRed_rep (c := true) (repAt_cons.mp (repAt_sib.mp h1)) (by simp)
  simp only [hw, ptr_mk, paint_mk, Dir.opp_opp] at h2
  obtain ⟨t', hrot, hrep, hnil⟩ := rbRotate_rep h2
  have hrep' := hrep.down.down
  have hhang : Hangs t' _ s := .of_parent hrep' fun hs => by
    subst hs
    have hpar : t'.parent .nil = t.parent .nil := by simp [parent, hnil, setRed]
    exact hpar.trans hx
  have hx' := hhang.here
  simp only [top] at hx'
  refine ⟨t', ?_, hhang⟩
  have hred := h.sibRed
  simp only [hw, ColTree.red_mk, ptr_mk] at hred
  have hsib := h.sib
  simp only [hw, ptr_mk] at hsib
  simp [rbDeleteFixupRed, hx, hsib, hred, hrot, hx', hrep'.sib]

lemma rbDeleteFixupNear_black {b : α} {B₁ B₂ : ColTree α}
    (hw : f.sib = .mk f.dir false w (.mk f.dir true b B₁ B₂) C) (hC : C.red = false) :
    ∃ t', rbDeleteFixupNear f.dir t (ptr s) (.node w) = some (t', .node b) ∧
    Hangs t' (⟨f.dir, f.red, f.a, .mk f.dir false b B₁ (.mk f.dir true w B₂ C)⟩ :: fs) s := by
  have hx := h.here
  simp only [top] at hx
  have hsib := repAt_sib.mp h.toRepAt
  rw [hw] at hsib
  have hnear := hsib.nearPtr
  have hfar := hsib.farPtr
  have hred := hsib.downFar.red
  have h1 := setRed_rep (c := false) hsib.down (by simp)
  have h2 := setRed_rep (c := true) (repAt_cons.mp h1) (by simp)
  simp only [ptr_mk, paint_mk] at h2 hnear
  obtain ⟨t', hrot, hrep, hnil⟩ := rbRotate_opp_rep h2
  have hrep' := hrep.across
  have hhang : Hangs t' _ s := .of_parent hrep' fun hs => by
    subst hs
    have hpar : t'.parent .nil = t.parent .nil := by simp [parent, hnil, setRed]
    exact hpar.trans hx
  grind [rbDeleteFixupNear, ptr_mk, top, hhang.here, hrep'.sib]

section

variable (hw : f.sib = .mk f.dir false w B C)
include hw

lemma rbDeleteFixupNear_red (hC : C.red = true) : rbDeleteFixupNear f.dir t (ptr s) (.node w) = some (t, .node w) := by
  have hsib := repAt_sib.mp h.toRepAt
  rw [hw] at hsib
  grind [rbDeleteFixupNear, hsib.farPtr, hsib.downFar.red]

lemma rbDeleteFixupFar_rep : ∃ t', rbDeleteFixupFar f.dir t (ptr s) (.node w) = some t' ∧
    RepAt t' fs (.mk f.dir f.red w (.mk f.dir false f.a s B) (C.paint false)) := by
  have hx := h.here
  simp only [top] at hx
  have hsib := repAt_sib.mp h.toRepAt
  rw [hw] at hsib
  have h1 := setRed_rep (c := f.red) hsib (by simp)
  simp only [ptr_mk, paint_mk] at h1
  have h2 := setRed_rep (c := false) (repAt_cons.mp h1.across) (by simp)
  simp only [ptr_mk, paint_mk] at h2
  have h3 := h2.downFar
  have hfar := h3.farPtr
  have h4 := setRed_rep (c := false) h3.downFar (by simp)
  have h5 := repAt_cons.mp (repAt_cons.mp h4.across).across
  obtain ⟨t', hrot, hrep, -⟩ := rbRotate_rep h5
  refine ⟨t', ?_, hrep⟩
  simp only [child_setRed] at hfar
  simp [rbDeleteFixupFar, hx, h.upRed, hfar, hrot]

lemma rbDeleteFixupRest_recolour (hB : B.red = false) (hC : C.red = false) :
    ∃ t', rbDeleteFixupRest f.dir t (ptr s) (.node w) = some (t', some (.node f.a)) ∧
    RepAt t' fs (.mk f.dir f.red f.a s (.mk f.dir true w B C)) := by
  have hx := h.here
  simp only [top] at hx
  have hsib := repAt_sib.mp h.toRepAt
  rw [hw] at hsib
  have h1 := setRed_rep (c := true) hsib (by simp)
  simp only [ptr_mk, paint_mk] at h1
  refine ⟨_, ?_, repAt_cons.mp h1.across⟩
  simp [rbDeleteFixupRest, hsib.nearPtr, hsib.farPtr, hsib.down.red, hsib.downFar.red, hB, hC, hx]

lemma rbDeleteFixupRest_rotate (hred : B.red = true ∨ C.red = true) (hs : Balanced s n)
    (hB : Balanced B n) (hC : Balanced C n) :
    ∃ t' w' N F, rbDeleteFixupRest f.dir t (ptr s) (.node w) = some (t', none) ∧
      RepAt t' fs (.mk f.dir f.red w' N F) ∧ ptr N = .node f.a ∧
      N.red = false ∧ F.red = false ∧ Balanced N (n + 1) ∧ Balanced F (n + 1) ∧
      (ColTree.mk f.dir f.red w' N F).toList = (ColTree.mk f.dir f.red f.a s f.sib).toList := by
  have hsib := repAt_sib.mp h.toRepAt
  rw [hw] at hsib
  have hif : (!t.isRed (t.child (.node w) f.dir) && !t.isRed (t.child (.node w) f.dir.opp)) =
      false := by
    rw [hsib.nearPtr, hsib.farPtr, hsib.down.red, hsib.downFar.red]
    rcases hred with hr | hr <;> simp [hr]
  cases hCr : C.red with
  | true =>
    obtain ⟨t', hfar, hrep⟩ := rbDeleteFixupFar_rep h hw
    obtain ⟨b, C₁, C₂, rfl⟩ := ColTree.exists_mk_of_red f.dir hCr
    rw [balanced_red] at hC
    refine ⟨t', w, _, _, ?_, hrep, by simp, by simp, by simp, ?_, ?_, ?_⟩
    · simp [rbDeleteFixupRest, hif, rbDeleteFixupNear_red h hw hCr, hfar]
    · exact (balanced_black _).mpr ⟨n, rfl, hs, hB⟩
    · rw [paint_mk]
      exact (balanced_black _).mpr ⟨n, rfl, hC.1, hC.2.1⟩
    · rw [hw, paint_mk]
      cases f.dir <;> simp [ColTree.mk, toList]
  | false =>
    obtain ⟨b, B₁, B₂, rfl⟩ := ColTree.exists_mk_of_red f.dir (hred.resolve_right (by simp [hCr]))
    rw [balanced_red] at hB
    obtain ⟨t1, hnear, hhang⟩ := rbDeleteFixupNear_black h hw hCr
    obtain ⟨t', hfar, hrep⟩ := rbDeleteFixupFar_rep hhang rfl
    refine ⟨t', b, _, _, ?_, hrep, by simp, by simp, by simp, ?_, ?_, ?_⟩
    · simp [rbDeleteFixupRest, hif, hnear, hfar]
    · exact (balanced_black _).mpr ⟨n, rfl, hs, hB.1⟩
    · rw [paint_mk]
      exact (balanced_black _).mpr ⟨n, rfl, hB.2.1, hC⟩
    · rw [hw, paint_mk]
      cases f.dir <;> simp [ColTree.mk, toList]

end

structure Fixed (t' : RbTree α) (p : Path α) (s s' : ColTree α) : Prop extends Holds t' s' where
  order : s'.toList = (p.plug s).toList

lemma rbDeleteFixupLoop_succ (hw : f.sib ≠ .leaf) (hr : s.red = false) (hne : ptr s ≠ root0) (fuel : Nat) :
    rbDeleteFixupLoop root0 (fuel + 1) t (ptr s) = (rbDeleteFixupSub f.dir t (ptr s)).bind fun r =>
    rbDeleteFixupLoop root0 fuel r.1 (r.2.getD root0) := by
  have hx := h.here
  have hhere := h.here_iff_of_sib hw (d := .left)
  simp only [top] at hx
  have hd : (if ptr s = t.child (.node f.a) .left then Dir.left else Dir.right) = f.dir := by
    simp only [hhere]
    cases f.dir <;> simp
  rw [rbDeleteFixupLoop]
  simp only [hx, h.red, hr, hne, ne_eq, not_false_eq_true, and_self, ↓reduceIte, hd]
  rfl

end

lemma rbDeleteFixupLoop_red (root0 : RbPtr α) (h : RepAt t p s) (hr : s.red = true) (fuel : Nat) :
    rbDeleteFixupLoop root0 (fuel + 1) t (ptr s) = some (t.setRed (ptr s) false) := by
  simp [rbDeleteFixupLoop, h.red, hr]

lemma rbDeleteFixupLoop_root (h : t.isRed root0 = false) (fuel : Nat) :
    rbDeleteFixupLoop root0 (fuel + 1) t root0 = some t := by
  simp [rbDeleteFixupLoop, setRed_same h]

lemma fixed_of_red (h : RepAt t p s) (hf : Fits p n) (hb : Balanced (s.paint false) n) :
    Fixed (t.setRed (ptr s) false) p s (p.plug (s.paint false)) := by
  have hrep := setRed_rep (c := false) h (by simp)
  obtain ⟨m, hm, hroot⟩ := hf.plug hb (by simp)
  refine ⟨⟨repAt_plug.mp hrep, ⟨m, hm⟩, ?_⟩, plug_congr p (by simp)⟩
  cases p with
  | nil => simp [plug]
  | cons f fs => exact hroot (by simp)

lemma fixed_of_rotate {w' : α} {N F : ColTree α}
    (h : RepAt t fs (.mk f.dir f.red w' N F)) (hf : Fits (f :: fs) n)
    (hN : Balanced N n) (hF : Balanced F n) (hNb : N.red = false) (hFb : F.red = false)
    (hroot : root0 = ptr N ∨ root0 = ptr (fs.plug (.mk f.dir f.red w' N F)))
    (hl : (ColTree.mk f.dir f.red w' N F).toList = (ColTree.mk f.dir f.red f.a s f.sib).toList)
    (fuel : Nat) :
    rbDeleteFixupLoop root0 (fuel + 1) t root0 = some t ∧ Fixed t (f :: fs) s (fs.plug (.mk f.dir f.red w' N F)) := by
  have hfit : Fits (⟨f.dir, f.red, w', F⟩ :: fs) n := hf.swap rfl hF hFb
  obtain ⟨m, hm, hblack⟩ := hfit.plug hN (by simp [hNb])
  have hrep := repAt_plug.mp h
  refine ⟨rbDeleteFixupLoop_root ?_ fuel, ⟨hrep, ⟨m, hm⟩, hblack (by simp)⟩, plug_congr fs hl⟩
  rcases hroot with rfl | rfl
  · rw [h.down.red, hNb]
  · rw [hrep.red]
    exact hblack (by simp)

lemma rbDeleteFixupRest_rep (h : Hangs t (f :: fs) s)
    (hf : Fits (f :: fs) (n + 1)) (hs : Balanced s n) (hw : f.sib.red = false)
    (hroot : ∀ s', root0 = .node f.a ∨ root0 = ptr (fs.plug s')) :
    ∃ t' next, rbDeleteFixupRest f.dir t (ptr s) (ptr f.sib) = some (t', next) ∧
    ((∃ s', next = some (.node f.a) ∧ ptr s' = .node f.a ∧ RepAt t' fs s' ∧ s'.red = f.red ∧
    s'.toList = (ColTree.mk f.dir f.red f.a s f.sib).toList ∧
    Balanced (s'.paint false) (n + 1)) ∨
    (next = none ∧ ∃ s', Fixed t' (f :: fs) s s' ∧ ∀ fuel, rbDeleteFixupLoop root0 (fuel + 1) t' root0 = some t')) := by
  have hsibb : Balanced f.sib (n + 1) := by cases hf <;> assumption
  obtain ⟨w, B, C, hmk, hB, hC⟩ := exists_black_mk f.dir hsibb hw
  rw [hmk, ptr_mk, ← hmk]
  by_cases hred : B.red = true ∨ C.red = true
  · obtain ⟨t', w', N, F, hrest, hrep, hN, hNb, hFb, hNn, hFn, hl⟩ := rbDeleteFixupRest_rotate h hmk hred hs hB hC
    have hend := fixed_of_rotate hrep hf hNn hFn hNb hFb (hN ▸ hroot _) hl
    exact ⟨t', none, hrest, .inr ⟨rfl, _, (hend 0).2, fun fuel => (hend fuel).1⟩⟩
  simp only [not_or, Bool.not_eq_true] at hred
  obtain ⟨t', hrest, hrep⟩ := rbDeleteFixupRest_recolour h hmk hred.1 hred.2
  refine ⟨t', _, hrest, .inl ⟨_, rfl, by simp, hrep, by simp, ?_, ?_⟩⟩
  · grind [ColTree.toList_mk_congr]
  · rw [paint_mk, balanced_black]
    exact ⟨n, rfl, hs, (balanced_red _).mpr ⟨hB, hC, hred.1, hred.2⟩⟩

lemma rbDeleteFixupLoop_rep (h : Hangs t p s) (hf : Fits p (n + 1))
    (hs : Short s n) (hroot : s.red = false → root0 = ptr (p.plug s)) (hfuel : p.length < fuel) :
    ∃ t' s', rbDeleteFixupLoop root0 fuel t (ptr s) = some t' ∧ Fixed t' p s s' := by
  induction fuel generalizing t p s n with
  | zero => omega
  | succ fuel ih =>
  cases hred : s.red with
  | true => exact ⟨_, _, rbDeleteFixupLoop_red _ h.toRepAt hred fuel, fixed_of_red h.toRepAt hf (hs.red hred)⟩
  | false =>
  have hb := hs.black hred
  obtain rfl := hroot hred
  cases p with
  | nil => exact ⟨t, s, rbDeleteFixupLoop_root (h.red.trans hred) fuel, ⟨h.toRepAt, ⟨n, hb⟩, hred⟩, rfl⟩
  | cons f fs =>
    have hsibb : Balanced f.sib (n + 1) := by cases hf <;> assumption
    have hsibn : f.sib ≠ .leaf := by
      rintro he
      rw [he] at hsibb
      cases hsibb
    simp only [List.length_cons] at hfuel
    rw [rbDeleteFixupLoop_succ h hsibn hred h.ne_top]
    cases hw : f.sib.red with
    | false =>
      obtain ⟨t', next, hrest, hnext⟩ := rbDeleteFixupRest_rep h hf hb hw (ptr_plug_cons f fs s)
      have hsub : rbDeleteFixupSub f.dir t (ptr s) = some (t', next) := by
        simp [rbDeleteFixupSub, rbDeleteFixupRed_black h hw, hrest]
      rw [hsub]
      rcases hnext with ⟨s', rfl, hptr, hrep, hcol, hl, hbal⟩ | ⟨rfl, s', hfix, hloop⟩
      · have hs' : s' ≠ .leaf := by
          rintro rfl
          simp [ptr] at hptr
        obtain ⟨m, hfits, hshort⟩ := Short.up hf hcol hbal
        obtain ⟨t2, s2, hloop, hfix⟩ := ih (.of_parent hrep (by simp [hs'])) hfits hshort
          (fun _ => ptr_plug_congr fs (by simp [hptr])) (by omega)
        rw [hptr] at hloop
        exact ⟨t2, s2, hloop, hfix.toHolds, hfix.order.trans (plug_congr fs hl)⟩
      · obtain ⟨fuel, rfl⟩ : ∃ k, fuel = k + 1 := ⟨fuel - 1, by omega⟩
        exact ⟨t', s', hloop fuel, hfix⟩
    | true =>
      -- the parent is black; after the rotation it is red, below the old sibling
      obtain ⟨w, B, C, hmk⟩ := ColTree.exists_mk_of_red f.dir hw
      obtain ⟨t1, hfixred, hhang⟩ := rbDeleteFixupRed_red h hmk
      obtain ⟨hfr, hfits⟩ : f.red = false ∧ Fits fs (n + 2) := by
        cases hf with
        | red _ _ hb => simp [hw] at hb
        | black hr _ h => exact ⟨hr, h⟩
      rw [hmk, balanced_red] at hsibb
      obtain ⟨hB, hC, hBb, hCb⟩ := hsibb
      have hg : Fits (⟨f.dir, false, w, C⟩ :: fs) (n + 1) := .black rfl hC hfits
      have hf' : Fits (⟨f.dir, true, f.a, B⟩ :: ⟨f.dir, false, w, C⟩ :: fs) (n + 1) := .red rfl hB hBb rfl hg
      have hl : (ColTree.mk f.dir false w (.mk f.dir true f.a s B) C).toList =
        (ColTree.mk f.dir f.red f.a s f.sib).toList := by
        rw [hmk]
        exact ColTree.toList_rotate ..
      obtain ⟨t', next, hrest, hnext⟩ := rbDeleteFixupRest_rep
        hhang hf' hb hBb fun (s' : ColTree α) => ptr_plug_cons f fs s (.mk f.dir false w s' C)
      have hsub : rbDeleteFixupSub f.dir t (ptr s) = some (t', next) := by
        simp [rbDeleteFixupSub, hfixred, hrest]
      rw [hsub]
      obtain ⟨fuel, rfl⟩ : ∃ k, fuel = k + 1 := ⟨fuel - 1, by omega⟩
      rcases hnext with ⟨s', rfl, hptr, hrep, hcol, hl', hbal⟩ | ⟨rfl, s', hfix, hloop⟩
      · have hstop := rbDeleteFixupLoop_red (ptr (plug (f :: fs) s)) hrep hcol fuel
        have hend := fixed_of_red hrep hg hbal
        rw [hptr] at hstop
        rw [hptr] at hend
        refine ⟨_, _, hstop, hend.toHolds, hend.order.trans ?_⟩
        exact (plug_congr _ hl').trans (plug_congr fs hl)
      · exact ⟨t', s', hloop fuel, hfix.toHolds, hfix.order.trans (plug_congr fs hl)⟩

section
variable {X l r : ColTree α} {y z : α} {c : Bool}

lemma rbUnlink_rep (h : RepAt t p (.node c l y r)) (hX : l = X ∧ r = .leaf ∨ l = .leaf ∧ r = X) :
    Hangs (rbUnlink t (.node y) (ptr X)) p X ∧ (rbUnlink t (.node y) (ptr X)).isRed (.node y) = c := by
  have hnd := h.nodup
  have hyp : y ∉ p.elems := h.not_mem_path (by simp [toList])
  have hXrep : Rep t (.node y) X := by
    rcases hX with ⟨rfl, -⟩ | ⟨-, rfl⟩
    · exact h.sub.2.1
    · exact h.sub.2.2
  obtain ⟨hyX, hXn, hXp⟩ : y ∉ X.toList ∧ X.toList.Nodup ∧ ∀ b ∈ X.toList, b ∉ p.elems := by
    have hsub : ∀ b ∈ X.toList, b ∈ (ColTree.node c l y r).toList := by
      rcases hX with ⟨rfl, -⟩ | ⟨-, rfl⟩ <;> simp +contextual [toList]
    have hnd' := (ColTree.nodup_mk .left l r (c := c) (a := y)).mp (List.nodup_append'.mp hnd).1
    grind
  have hXt := ptr_ne_top hXp
  have hyt := top_ne_node hyp
  have hyX' : ptr X ≠ .node y := ptr_ne_node hyX
  have hpar : t.parent (.node y) = top p := h.parent (by simp)
  have hchild (d : Dir) : .node y = t.child (top p) d ↔ d = side p := eq_comm.trans (child_top h.path hyp)
  have heq : rbUnlink t (.node y) (ptr X) = (t.setParent (ptr X) (top p)).setChild (top p) (side p) (ptr X) := by
    have hpar' : (t.setParent (ptr X) (top p)).parent (.node y) = top p := by
      simpa [parent, setParent, hyX'.symm] using hpar
    have hchild' : .node y = (t.setParent (ptr X) (top p)).child (top p) .left ↔ .left = side p := by
      rw [← hchild]
      simp [child, setParent, hXt.symm]
    simp only [rbUnlink, hpar, hpar', hchild']
    cases side p <;> simp
  rw [heq]
  refine ⟨⟨⟨?_, ?_, ?_, ?_⟩, ?_⟩, ?_⟩
  · refine hXrep.rehang hXn (fun b hb hbX => ?_) fun _ => ?_
    · have hbt := (top_ne_node (hXp b hb)).symm
      simp [setChild, setParent, hbX, hbt]
    · simp [setChild, setParent, hXt]
  · refine h.path.refill (List.nodup_append'.mp hnd).2.1 (fun b hb hbt => ?_) (fun ht => ?_) ?_
    · have hbX : .node b ≠ ptr X := (ptr_ne_node fun hb' => hXp b hb' hb).symm
      simp [setChild, setParent, hbt, hbX]
    · simp [setChild, setParent, ht.symm]
    · simp [setChild, setParent, hXt.symm, side]
  · grind [mem_update, NilOk, RbNode.setParent, setChild, top_ne_nil, setParent, h.nil]
  · grind
  · simp [parent, setChild, setParent, hXt]
  · simp [isRed, setChild, setParent, hyt.symm, hyX'.symm, h.sub.1]

lemma rbDescend_rep (d : Dir) (h : RepAt t p s) (hs : s ≠ .leaf) (hfuel : s.toList.length < fuel) :
    ∃ q c y far, s = plug q (.mk d c y .leaf far) ∧ (∀ f ∈ q, f.dir = d) ∧
    rbDescend d t fuel (ptr s) = some (.node y) := by
  induction fuel generalizing p s with
  | zero => omega
  | succ fuel ih =>
  cases s with
  | leaf => contradiction
  | node c l a r =>
    obtain ⟨near, far, hmk⟩ := ColTree.exists_mk d c l a r
    rw [hmk] at h hfuel ⊢
    have hlen : near.toList.length < (ColTree.mk d c a near far).toList.length := by
      cases d <;> (simp [ColTree.mk, toList]; try omega)
    by_cases hn : near = .leaf
    · subst hn
      exact ⟨[], c, a, far, rfl, by simp, by simp [rbDescend, h.nearPtr]⟩
    obtain ⟨q, c', y, far', rfl, hq, hdesc⟩ := ih h.down hn (by omega)
    refine ⟨q ++ [⟨d, c, a, far⟩], c', y, far', by simp [plug_append, plug], ?_, ?_⟩
    · simpa [or_imp, forall_and] using hq
    · simp [rbDescend, h.nearPtr, ptr_eq_nil, hn, hdesc]

lemma rbDelete_finish (h : Hangs t p X) (hX : l = X ∧ r = .leaf ∨ l = .leaf ∧ r = X)
    (hf : Fits p n) (hb : Balanced (.node c l y r) n) (hc : ∀ f ∈ p.head?, f.red = true → c = false)
    (hfuel : p.length < fuel) :
    ∃ t' s', (if !c then rbDeleteFixup fuel t (ptr X) else some t) = some t' ∧ Fixed t' p X s' := by
  cases c with
  | true =>
    obtain ⟨hXb, hXn⟩ : X.red = false ∧ Balanced X n := by
      cases hb with
      | red hl hr hlb hrb => grind
    obtain ⟨m, hm, hroot⟩ := hf.plug hXn (by simp [hXb])
    refine ⟨t, p.plug X, by simp, ⟨repAt_plug.mp h.toRepAt, ⟨m, hm⟩, ?_⟩, rfl⟩
    cases p with
    | nil => exact hXb
    | cons f fs => exact hroot (by simp)
  | false =>
    obtain ⟨m, rfl, hXn⟩ : ∃ m, n = m + 1 ∧ Balanced X m := by
      cases hb with
      | black hl hr => grind
    have hshort : Short X m := by
      refine ⟨fun hr => ?_, fun _ => hXn⟩
      obtain ⟨a, near, far, rfl⟩ := ColTree.exists_mk_of_red .left hr
      rw [balanced_red] at hXn
      rw [paint_mk]
      exact (balanced_black _).mpr ⟨m, rfl, hXn.1, hXn.2.1⟩
    have hroot := (repAt_plug.mp h.toRepAt).root
    simpa [rbDeleteFixup, hroot] using rbDeleteFixupLoop_rep h hf hshort (fun _ => rfl) hfuel

section

variable (h : RepAt t p (.node c l z r))
include h

lemma rbReplace_mem (hy : y ∉ (ColTree.node c l z r).toList ++ p.elems) (q : RbPtr α) :
    (rbReplace t (.node z) (.node y)).mem q =
    if q = .node y then ⟨c, top p, ptr l, ptr r⟩
    else if q = ptr l ∨ q = ptr r then (t.mem q).setParent (.node y)
    else if q = top p then (t.mem q).setChild (side p) (.node y)
    else t.mem q := by
  have hl := (RepAt.down (d := .left) h).ptr_ne_top
  have hr := (RepAt.down (d := .right) h).ptr_ne_top
  have hlt := ptr_ne_top fun b (hb : b ∈ l.toList) => h.not_mem_path (by simp [toList, hb])
  have hrt := ptr_ne_top fun b (hb : b ∈ r.toList) => h.not_mem_path (by simp [toList, hb])
  have hzt := top_ne_node (h.not_mem_path (a := z) (by simp [toList]))
  simp only [top] at hl hr
  simp only [toList, List.mem_append, List.mem_cons, not_or] at hy
  have hchild : .node z = t.child (top p) .left ↔ .left = side p :=
    eq_comm.trans (child_top h.path (h.not_mem_path (by simp [toList])))
  have hz := h.sub.1
  have hst : (if .left = side p then t.setChild (top p) .left (.node y)
      else t.setChild (top p) .right (.node y)) = t.setChild (top p) (side p) (.node y) := by
    cases side p <;> simp
  have hpar : t.parent (.node z) = top p := h.parent (by simp)
  simp only [rbReplace, hpar, hchild, hst]
  simp [setChild, setParent, child, RbNode.child, hz, hzt.symm, hl.symm, hr.symm, hlt, hrt]
  split_ifs <;> simp_all

lemma rbReplace_rep (hy : y ∉ (ColTree.node c l z r).toList ++ p.elems) :
    RepAt (rbReplace t (.node z) (.node y)) p (.node c l y r) := by
  have hmem := rbReplace_mem h hy
  simp only [toList, List.mem_append, List.mem_cons, not_or] at hy
  obtain ⟨⟨hyl, -, hyr⟩, hyp⟩ := hy
  have hnd := h.nodup
  rw [List.nodup_append'] at hnd
  obtain ⟨hln, hrn, hzl, hzr, hlr⟩ := (ColTree.nodup_mk .left l r (c := c) (a := z)).mp hnd.1
  have hout (b) (hb : b ∈ l.toList ∨ b ∈ r.toList) : .node b ≠ top p :=
    (top_ne_node (h.not_mem_path (by simp [toList]; tauto))).symm
  refine ⟨⟨by simp [hmem], ?_, ?_⟩, ?_, ?_, ?_⟩
  · refine h.sub.2.1.rehang hln (fun b hb hbl => ?_) fun _ => ?_
    · have hbr := (ptr_ne_node (hlr hb)).symm
      simp [hmem, ne_of_mem_of_not_mem hb hyl, hbl, hbr, hout b (.inl hb)]
    · simp [hmem, ptr_ne_node hyl]
  · refine h.sub.2.2.rehang hrn (fun b hb hbr => ?_) fun _ => ?_
    · have hbl := (ptr_ne_node fun hb' => hlr hb' hb).symm
      simp [hmem, ne_of_mem_of_not_mem hb hyr, hbl, hbr, hout b (.inr hb)]
    · simp [hmem, ptr_ne_node hyr]
  · have hkid (b) (hb : b ∈ p.elems) (s : ColTree α) (hs : ∀ b ∈ s.toList, b ∈ (ColTree.node c l z r).toList) :
        .node b ≠ ptr s := (ptr_ne_node fun hb' => h.not_mem_path (hs b hb') hb).symm
    have hl (b) (hb : b ∈ p.elems) := hkid b hb l fun _ hb' => by simp [toList, hb']
    have hr (b) (hb : b ∈ p.elems) := hkid b hb r fun _ hb' => by simp [toList, hb']
    refine h.path.refill hnd.2.1 (fun b hb hbt => ?_) (fun ht => ?_) ?_
    · simp [hmem, ne_of_mem_of_not_mem hb hyp, hl b hb, hr b hb, hbt]
    · simp [hmem, ht.symm]
    · have htl : top p ≠ ptr l ∧ top p ≠ ptr r := by
        cases p with
        | nil => simp [top]
        | cons f fs => exact ⟨hl _ (by simp [elems]), hr _ (by simp [elems])⟩
      simp [hmem, top_ne_node hyp, htl, side]
  · have hn := h.nil
    simp only [NilOk, hmem, reduceCtorEq, ↓reduceIte, (top_ne_nil p).symm] at hn ⊢
    split <;> exact hn
  · rw [List.nodup_append']
    refine ⟨(ColTree.nodup_mk .left l r).mpr ⟨hln, hrn, hyl, hyr, hlr⟩, hnd.2.1, ?_⟩
    rw [List.disjoint_left]
    grind [toList, h.not_mem_path]

lemma rbDelete_one (hone : l = .leaf ∨ r = .leaf)
    (hf : Fits p n) (hb : Balanced (.node c l z r) n) (hc : ∀ f ∈ p.head?, f.red = true → c = false)
    (hfuel : p.length < fuel) :
    ∃ t' s', rbDelete fuel t (.node z) = some t' ∧ Holds t' s' ∧
    s'.toList = p.before ++ (l.toList ++ r.toList) ++ p.after := by
  have hleft : t.child (.node z) .left = ptr l := RepAt.nearPtr (d := .left) h
  have hright : t.child (.node z) .right = ptr r := RepAt.nearPtr (d := .right) h
  obtain ⟨X, hXdef, hX⟩ : ∃ X, ptr X = (if ptr l ≠ .nil then ptr l else ptr r) ∧
    (l = X ∧ r = .leaf ∨ l = .leaf ∧ r = X) := by
    grind [ptr]
  obtain ⟨hhang, hcol⟩ := rbUnlink_rep h hX
  obtain ⟨t', s', hfin, hfix⟩ := rbDelete_finish hhang hX hf hb hc hfuel
  refine ⟨t', s', ?_, hfix.toHolds, hfix.order.trans ?_⟩
  · grind [rbDelete, ptr]
  · rcases hX with ⟨rfl, rfl⟩ | ⟨rfl, rfl⟩ <;> simp [toList_plug, toList]

lemma rbDelete_two (hl : l ≠ .leaf) (hr : r ≠ .leaf)
    (hbal : ∃ m, Balanced (p.plug (.node c l z r)) m) (hblack : (p.plug (.node c l z r)).red = false)
    (hfuel : (p.plug (.node c l z r)).toList.length < fuel) :
    ∃ t' s', rbDelete fuel t (.node z) = some t' ∧ Holds t' s' ∧
    s'.toList = p.before ++ (l.toList ++ r.toList) ++ p.after := by
  have hleft : t.child (.node z) .left = ptr l := RepAt.nearPtr (d := .left) h
  have hright : t.child (.node z) .right = ptr r := RepAt.nearPtr (d := .right) h
  have hlen : r.toList.length < fuel := by
    have := p.length_le_plug (.node c l z r)
    simp only [toList, List.length_append, List.length_cons] at this
    omega
  have hr' := RepAt.down (d := .right) h
  obtain ⟨q, cy, y, yr, hrq, hq, hdesc⟩ := rbDescend_rep .left hr' hr hlen
  have hsucc : rbTreeSuccessor fuel t (.node z) = some (.node y) := by
    simp [rbTreeSuccessor, hright, ptr_eq_nil, hr, hdesc]
  subst hrq
  have hy := repAt_append.mpr hr'
  have hyleft : t.child (.node y) .left = .nil := hy.nearPtr
  have hyright : t.child (.node y) .right = ptr yr := hy.farPtr
  -- `y` is not met elsewhere
  have hynd := hy.nodup
  have hyz : y ≠ z ∧ y ∉ (ColTree.node c l z (plug q yr)).toList ++ p.elems := by
    simp only [ColTree.mk, toList, List.nil_append, List.cons_append, List.nodup_cons,
      Path.elems_append, elems, List.mem_append, List.mem_cons, not_or] at hynd
    simp only [toList, List.mem_append, List.mem_cons, (q.perm_plug yr).mem_iff, not_or]
    tauto
  obtain ⟨hhang, hcol⟩ := rbUnlink_rep hy (X := yr) (.inr ⟨rfl, rfl⟩)
  have hup := repAt_cons.mp (repAt_append.mp hhang.toRepAt)
  have hrepl := rbReplace_rep hup hyz.2
  have hhang2 :
    Hangs (rbReplace (rbUnlink t (.node y) (ptr yr)) (.node z) (.node y)) (q ++ ⟨.right, c, y, l⟩ :: p) yr := by
    refine .of_parent (repAt_append.mpr (RepAt.down (d := .right) hrepl)) fun hyr => ?_
    have hhere := hhang.here
    have hlnil : ¬ .nil = ptr l := fun he => hl (ptr_eq_nil.mp he.symm)
    simp only [parent] at hhere ⊢
    rw [rbReplace_mem hup hyz.2]
    subst hyr
    cases q with
    | nil => simp [plug, top]
    | cons f fs =>
      obtain ⟨a, -, ha⟩ := ptr_plug_mem f fs .leaf
      have hfa : _ = RbPtr.node f.a := hhere
      change _ = RbPtr.node f.a
      simpa [hlnil, ha, (top_ne_nil p).symm] using hfa
  have hlen2 : (q ++ ⟨.right, c, y, l⟩ :: p).length < fuel := by
    have := (q ++ ⟨.right, c, z, l⟩ :: p).length_le_plug (.node cy .leaf y yr)
    rw [plug_append] at this
    simp only [List.length_append, List.length_cons] at this ⊢
    exact Nat.lt_of_le_of_lt (Nat.le_of_add_right_le this) hfuel
  obtain ⟨m, hbal⟩ := hbal
  obtain ⟨n, hf, hb, hc⟩ : ∃ n, Fits (q ++ ⟨.right, c, y, l⟩ :: p) n ∧ Balanced (.node cy .leaf y yr) n ∧
      ∀ f ∈ (q ++ ⟨.right, c, y, l⟩ :: p).head?, f.red = true → cy = false := by
    have hplug : plug (q ++ ⟨.right, c, z, l⟩ :: p) (.node cy .leaf y yr) =
        p.plug (.node c l z (plug q (.node cy .leaf y yr))) := by
      rw [plug_append]
      rfl
    obtain ⟨n, hf, hb, hc⟩ := fits_of_plug (q ++ ⟨.right, c, z, l⟩ :: p) (hplug ▸ hbal) (hplug ▸ hblack)
    refine ⟨n, hf.congr ?_, hb, ?_⟩
    · exact List.rel_append (List.forall₂_same.mpr fun f _ => ⟨rfl, rfl⟩)
        (.cons ⟨rfl, rfl⟩ (List.forall₂_same.mpr fun f _ => ⟨rfl, rfl⟩))
    · cases q <;> simpa [ColTree.red] using hc
  obtain ⟨t', s', hfin, hfix⟩ := rbDelete_finish hhang2 (.inr ⟨rfl, rfl⟩) hf hb hc hlen2
  refine ⟨t', s', ?_, hfix.toHolds, hfix.order.trans ?_⟩
  · simp only [rbDelete, hleft, hright, ptr_eq_nil, hl, hr, or_self, ↓reduceIte, hsucc,
      Option.bind_eq_bind, Option.bind_some, hyleft, hyright, hcol, ne_eq, not_true_eq_false]
    simpa [hyz.1] using hfin
  · simp [toList_plug, plug_append, plug, toList, ColTree.mk, Path.before_of_left hq]

end

lemma rbDelete_rep (h : Holds t s) (hz : z ∈ s.toList) (hfuel : s.toList.length < fuel) :
    ∃ t' s', rbDelete fuel t (.node z) = some t' ∧ Holds t' s' ∧ s'.toList = s.toList.erase z := by
  obtain ⟨hrep, ⟨m, hbal⟩, hblack⟩ := h
  obtain ⟨p, c, l, r, rfl⟩ := ColTree.exists_path_of_mem hz
  have hat := repAt_plug.mpr hrep
  have herase : (p.plug (.node c l z r)).toList.erase z = p.before ++ (l.toList ++ r.toList) ++ p.after := by
    have hnd : (p.plug (.node c l z r)).toList.Nodup := by simpa [elems] using hrep.nodup
    have hsplit : (p.plug (.node c l z r)).toList = (p.before ++ l.toList) ++ z :: (r.toList ++ p.after) := by
      simp [toList_plug, toList]
    rw [hsplit] at hnd ⊢
    have hzl : z ∉ p.before ++ l.toList := fun hm => (List.nodup_append'.mp hnd).2.2 hm (by simp)
    rw [List.erase_append_right _ hzl, List.erase_cons_head]
    simp
  rw [herase]
  by_cases hone : l = .leaf ∨ r = .leaf
  · obtain ⟨n, hf, hb, hc⟩ := fits_of_plug p hbal hblack
    have hlen := p.length_le_plug (.node c l z r)
    exact rbDelete_one hat hone hf hb (by simpa [ColTree.red] using hc) (by omega)
  · simp only [not_or] at hone
    exact rbDelete_two hat hone.1 hone.2 ⟨m, hbal⟩ hblack hfuel

end

end Ucore.Libs.RbTree
