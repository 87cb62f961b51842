import Ucore.Libs.RbTree

/-!
# What a red-black tree in memory represents

`Rep` and `RepPath` read the memory as a tree seen from one of its nodes: the subtree
there and the path above it, every parent pointer included.
-/

namespace Ucore.Libs.RbTree

open Lib
open ColTree (toList nodup_mk red mk_opp mem_toList_mk)
open Lib.Path (elems plug)

variable {α : Type} {fs : Path α} {f : Frame α}

def ptr : ColTree α → RbPtr α
  | .leaf => .nil
  | .node _ _ a _ => .node a

def top : Path α → RbPtr α
  | [] => .root
  | f :: _ => .node f.a

def cell (d : Dir) (red : Bool) (parent near far : RbPtr α) : RbNode α :=
  match d with
  | .left => ⟨red, parent, near, far⟩
  | .right => ⟨red, parent, far, near⟩

def Rep (t : RbTree α) (p : RbPtr α) : ColTree α → Prop
  | .leaf => True
  | .node red l a r => t.mem (.node a) = ⟨red, p, ptr l, ptr r⟩ ∧ Rep t (.node a) l ∧ Rep t (.node a) r

def RepPath (t : RbTree α) : Path α → RbPtr α → Prop
  | [], x => t.mem .root = ⟨false, .nil, x, .nil⟩
  | f :: fs, x =>
    t.mem (.node f.a) = cell f.dir f.red (top fs) x (ptr f.sib) ∧ Rep t (.node f.a) f.sib ∧ RepPath t fs (.node f.a)

def NilOk (t : RbTree α) : Prop :=
  (t.mem .nil).red = false ∧ (t.mem .nil).left = .nil ∧ (t.mem .nil).right = .nil

structure RepAt (t : RbTree α) (p : Path α) (s : ColTree α) : Prop where
  sub : Rep t (top p) s
  path : RepPath t p (ptr s)
  nil : NilOk t
  nodup : (s.toList ++ p.elems).Nodup

@[simp] lemma mem_update [DecidableEq α] (t : RbTree α) (p q : RbPtr α) (f : RbNode α → RbNode α) :
    (t.update p f).mem q = if q = p then f (t.mem p) else t.mem q := rfl

variable {t t' : RbTree α} {p : Path α} {s : ColTree α} {u v x x' near far : RbPtr α} {c c' : Bool} {a : α}

section

variable (d : Dir)
include d

@[simp] lemma child_cell : (cell d c u near far).child d = near := by
  cases d <;> rfl

@[simp] lemma child_cell_opp : (cell d c u near far).child d.opp = far := by
  cases d <;> rfl

@[simp] lemma cell_red : (cell d c u near far).red = c := by cases d <;> rfl

@[simp] lemma cell_parent : (cell d c u near far).parent = u := by
  cases d <;> rfl

@[simp] lemma setChild_cell : (cell d c u near far).setChild d x = cell d c u x far := by
  cases d <;> rfl

@[simp] lemma setChild_cell_opp : (cell d c u near far).setChild d.opp x = cell d c u near x := by
  cases d <;> rfl

@[simp] lemma setRed_cell : (cell d c u near far).setRed c' = cell d c' u near far := by
  cases d <;> rfl

@[simp] lemma setParent_cell : (cell d c u near far).setParent v = cell d c v near far := by
  cases d <;> rfl

end

section

variable (n : RbNode α)
include n

@[simp] lemma setRed_parent : (n.setRed c).parent = n.parent := rfl

@[simp] lemma setRed_child (d : Dir) : (n.setRed c).child d = n.child d := by
  cases d <;> rfl

@[simp] lemma setParent_child (d : Dir) : (n.setParent u).child d = n.child d := by
  cases d <;> rfl

@[simp] lemma setRed_red : (n.setRed c).red = c := rfl

@[simp] lemma setParent_parent : (n.setParent u).parent = u := rfl

@[simp] lemma setParent_setParent : (n.setParent u).setParent v = n.setParent v := rfl

@[simp] lemma setParent_red : (n.setParent u).red = n.red := rfl

@[simp] lemma setChild_parent (d : Dir) : (n.setChild d x).parent = n.parent := by
  cases d <;> rfl

@[simp] lemma setChild_red (d : Dir) : (n.setChild d x).red = n.red := by
  cases d <;> rfl

end

@[simp] lemma ptr_mk (d : Dir) (near far : ColTree α) : ptr (.mk d c a near far) = .node a := by
  cases d <;> rfl

@[simp] lemma ptr_leaf : ptr (.leaf : ColTree α) = .nil := rfl

@[simp] lemma ptr_node (l r : ColTree α) : ptr (.node c l a r) = .node a := rfl

@[simp] lemma ptr_ne_root (s : ColTree α) : ptr s ≠ .root := by cases s <;> simp [ptr]

@[simp] lemma root_ne_ptr (s : ColTree α) : .root ≠ ptr s := (ptr_ne_root s).symm

@[simp] lemma ptr_paint (s : ColTree α) : ptr (s.paint c) = ptr s := by cases s <;> rfl

lemma ptr_eq_nil {s : ColTree α} : ptr s = .nil ↔ s = .leaf := by cases s <;> simp [ptr]

lemma ptr_mem (h : ptr s = .node a) : a ∈ s.toList := by
  cases s with
  | leaf => simp [ptr] at h
  | node c l b r => grind [ptr, toList]

lemma ptr_ne_node {s : ColTree α} (h : a ∉ s.toList) : ptr s ≠ .node a := fun he => h (ptr_mem he)

lemma ptr_plug_congr {s' : ColTree α} (p : Path α) (h : ptr s = ptr s') : ptr (p.plug s) = ptr (p.plug s') := by
  induction p generalizing s s' with
  | nil => exact h
  | cons f fs ih => exact ih (by simp)

lemma top_ne_nil (p : Path α) : top p ≠ .nil := by cases p <;> simp [top]

lemma top_ne_node {p : Path α} (h : a ∉ p.elems) : top p ≠ .node a := by
  cases p with
  | nil => simp [top]
  | cons f fs => grind [top, elems]

@[simp] lemma rep_mk (d : Dir) (near far : ColTree α) : Rep t u (.mk d c a near far) ↔
    t.mem (.node a) = cell d c u (ptr near) (ptr far) ∧ Rep t (.node a) near ∧ Rep t (.node a) far := by
  cases d <;> simp [ColTree.mk, Rep, cell]; tauto

lemma Rep.congr (h : Rep t u s) (he : ∀ a ∈ s.toList, t'.mem (.node a) = t.mem (.node a)) : Rep t' u s := by
  induction s generalizing u with
  | leaf => trivial
  | node c l a r ihl ihr => grind [toList, Rep]

lemma Rep.move (h : Rep t u s) (hn : s.toList.Nodup)
    (he : ∀ a ∈ s.toList, .node a ≠ ptr s → t'.mem (.node a) = t.mem (.node a))
    (ht : s ≠ .leaf → t'.mem (ptr s) = ((t.mem (ptr s)).setParent v).setRed c) :
    Rep t' v (s.paint c) := by
  cases s with
  | leaf => trivial
  | node c' l a r =>
    obtain ⟨ha, hl, hr⟩ := h
    have hnd := (nodup_mk .left l r (c := c') (a := a)).mp hn
    have hroot := ht (by simp)
    rw [ptr, ha] at hroot
    refine ⟨hroot, hl.congr fun b hb => he b (by simp [toList, hb]) ?_,
      hr.congr fun b hb => he b (by simp [toList, hb]) ?_⟩
    · grind [ptr]
    · grind [ptr]

lemma Rep.red_eq (h : Rep t u s) (hnil : NilOk t) : t.isRed (ptr s) = s.red := by
  cases s with
  | leaf => exact hnil.1
  | node c l a r => simp [isRed, ptr, h.1, red]

lemma Rep.parent_eq (h : Rep t u s) (hs : s ≠ .leaf) : t.parent (ptr s) = u := by
  cases s with
  | leaf => contradiction
  | node c l a r => simp [parent, ptr, h.1]

lemma ColTree.paint_red (s : ColTree α) : s.paint s.red = s := by cases s <;> rfl

lemma Rep.rehang (h : Rep t u s) (hn : s.toList.Nodup)
    (he : ∀ a ∈ s.toList, .node a ≠ ptr s → t'.mem (.node a) = t.mem (.node a))
    (ht : s ≠ .leaf → t'.mem (ptr s) = (t.mem (ptr s)).setParent v) : Rep t' v s := by
  rw [← ColTree.paint_red s]
  refine h.move hn he fun hs => ?_
  rw [ht hs]
  cases s with
  | leaf => contradiction
  | node c l a r => simp [ptr, h.1, red, RbNode.setParent, RbNode.setRed]

lemma RepPath.congr (h : RepPath t p x) (hr : t'.mem .root = t.mem .root)
    (he : ∀ a ∈ p.elems, t'.mem (.node a) = t.mem (.node a)) : RepPath t' p x := by
  induction p generalizing x with
  | nil => exact hr.trans h
  | cons f fs ih => grind [Rep.congr, elems, RepPath]

lemma RepPath.refill (h : RepPath t p x) (hn : p.elems.Nodup)
    (he : ∀ a ∈ p.elems, .node a ≠ top p → t'.mem (.node a) = t.mem (.node a))
    (hr : top p ≠ .root → t'.mem .root = t.mem .root)
    (ht : t'.mem (top p) = (t.mem (top p)).setChild ((p.head?.map Frame.dir).getD .left) x') :
    RepPath t' p x' := by
  cases p with
  | nil =>
    simp only [RepPath] at h
    simp only [top, h, List.head?_nil, Option.map_none, Option.getD_none] at ht
    exact ht
  | cons f fs =>
    obtain ⟨hf, hs, hp⟩ := h
    simp only [elems, List.nodup_cons, List.mem_append, not_or] at hn
    simp only [top, hf, List.head?_cons, Option.map_some, Option.getD_some, setChild_cell] at ht
    have hne : ∀ b, b ∈ f.sib.toList ∨ b ∈ elems fs → t'.mem (.node b) = t.mem (.node b) := by
      intro b hb
      refine he b (by simp [elems, hb]) ?_
      simp only [top, ne_eq, RbPtr.node.injEq]
      rintro rfl
      exact hb.elim hn.1.1 hn.1.2
    exact ⟨ht, hs.congr fun b hb => hne b (.inl hb), hp.congr (hr (by simp [top])) fun b hb => hne b (.inr hb)⟩

lemma NilOk.congr (h : NilOk t) (he : t'.mem .nil = t.mem .nil) : NilOk t' := by
  unfold NilOk at *
  rwa [he]

lemma RepAt.congr (h : RepAt t p s) (hr : t'.mem .root = t.mem .root) (hn : t'.mem .nil = t.mem .nil)
    (he : ∀ a ∈ s.toList ++ p.elems, t'.mem (.node a) = t.mem (.node a)) : RepAt t' p s :=
  ⟨h.sub.congr fun b hb => he b (by simp [hb]), h.path.congr hr fun b hb => he b (by simp [hb]), h.nil.congr hn, h.nodup⟩

lemma repAt_cons : RepAt t (f :: fs) s ↔ RepAt t fs (.mk f.dir f.red f.a s f.sib) := by
  have hn : (s.toList ++ elems (f :: fs)).Nodup ↔ ((ColTree.mk f.dir f.red f.a s f.sib).toList ++ elems fs).Nodup := by
    rw [← Path.nodup_plug, ← Path.nodup_plug]
    rfl
  constructor
  · rintro ⟨hs, ⟨hf, hsib, hp⟩, hnil, hnd⟩
    exact ⟨(rep_mk ..).mpr ⟨hf, hs, hsib⟩, by simpa using hp, hnil, hn.mp hnd⟩
  · rintro ⟨hs, hp, hnil, hnd⟩
    obtain ⟨hf, hs, hsib⟩ := (rep_mk ..).mp hs
    exact ⟨hs, ⟨hf, hsib, by simpa using hp⟩, hnil, hn.mpr hnd⟩

lemma repAt_plug : RepAt t p s ↔ RepAt t [] (p.plug s) := by
  induction p generalizing s with
  | nil => rfl
  | cons f fs ih => rw [repAt_cons, ih]; rfl

lemma repAt_append {q : Path α} : RepAt t (q ++ p) s ↔ RepAt t p (q.plug s) := by
  rw [repAt_plug, Path.plug_append, ← repAt_plug]

def side (p : Path α) : Dir := (p.head?.map Frame.dir).getD .left

lemma repAt_sib : RepAt t (f :: fs) s ↔ RepAt t (⟨f.dir.opp, f.red, f.a, s⟩ :: fs) f.sib := by
  rw [repAt_cons, repAt_cons, mk_opp]

section
variable {f : Frame α} {fs : Path α} {d : Dir} {l r : ColTree α}

lemma RepAt.down (h : RepAt t p (.mk d c a l r)) : RepAt t (⟨d, c, a, r⟩ :: p) l := repAt_cons.mpr h

lemma RepAt.downFar (h : RepAt t p (.mk d c a l r)) : RepAt t (⟨d.opp, c, a, l⟩ :: p) r := repAt_sib.mp h.down

lemma RepAt.across (h : RepAt t (⟨d.opp, c, a, l⟩ :: p) r) : RepAt t (⟨d, c, a, r⟩ :: p) l := by
  simpa using repAt_sib.mp h

-- What the code reads at the focus and just above it.

lemma RepAt.red (h : RepAt t p s) : t.isRed (ptr s) = s.red := h.sub.red_eq h.nil

lemma RepAt.parent (h : RepAt t p s) (hs : s ≠ .leaf) : t.parent (ptr s) = top p := h.sub.parent_eq hs

lemma RepAt.nearPtr (h : RepAt t p (.mk d c a l r)) : t.child (.node a) d = ptr l := by
  simp [child, ((rep_mk ..).mp h.sub).1]

lemma RepAt.farPtr (h : RepAt t p (.mk d c a l r)) : t.child (.node a) d.opp = ptr r := by
  simp [child, ((rep_mk ..).mp h.sub).1]

lemma RepAt.root (h : RepAt t [] s) : t.child .root .left = ptr s := by
  grind [RepPath, RbNode.child, child, h.path]

lemma RepAt.rootRed (h : RepAt t p s) : t.isRed .root = false := by
  have := (repAt_plug.mp h).path
  simp only [RepPath] at this
  simp [isRed, this]

section

variable (h : RepAt t (f :: fs) s)
include h

lemma RepAt.here : t.child (.node f.a) f.dir = ptr s := by
  simp [child, h.path.1]

lemma RepAt.sib : t.child (.node f.a) f.dir.opp = ptr f.sib := by
  simp [child, h.path.1]

lemma RepAt.upRed : t.isRed (.node f.a) = f.red := by
  simp [isRed, h.path.1]

lemma RepAt.up : t.parent (.node f.a) = top fs := by
  simp [RbTree.parent, h.path.1]

lemma RepAt.sibRed : t.isRed (ptr f.sib) = f.sib.red := (repAt_sib.mp h).red

lemma RepAt.here_iff (hs : s ≠ .leaf) : ptr s = t.child (.node f.a) d ↔ d = f.dir := by
  rcases Dir.eq_or_opp f.dir d with rfl | rfl
  · simp [h.here]
  rw [h.sib]
  simp only [Dir.opp_ne, iff_false]
  intro he
  obtain ⟨c, l, b, r, rfl⟩ : ∃ c l b r, s = .node c l b r := by cases s <;> simp_all
  have hb : b ∈ f.sib.toList := ptr_mem he.symm
  have hnd := h.nodup
  simp only [elems, List.nodup_append', List.disjoint_left] at hnd
  have hbs : b ∈ (ColTree.node c l b r).toList := by simp [toList]
  exact hnd.2.2 hbs (by simp [hb])

lemma RepAt.here_iff_of_sib (hs : f.sib ≠ .leaf) : ptr s = t.child (.node f.a) d ↔ d = f.dir := by
  have hne := (repAt_sib.mp h).here_iff hs (d := f.dir)
  rw [h.here] at hne
  rcases Dir.eq_or_opp f.dir d with rfl | rfl
  · simp [h.here]
  · grind [h.sib]

end

end

lemma ptr_plug_mem (f : Frame α) (fs : Path α) (s : ColTree α) :
    ∃ a ∈ elems (f :: fs), ptr (plug (f :: fs) s) = .node a := by
  induction fs generalizing f s with
  | nil => exact ⟨f.a, by simp [elems], by simp [plug]⟩
  | cons g gs ih =>
    obtain ⟨a, ha, hp⟩ := ih g (.mk f.dir f.red f.a s f.sib)
    exact ⟨a, by simp [elems] at ha ⊢; tauto, hp⟩

lemma RepAt.ne_top (h : RepAt t (f :: fs) s) : ptr s ≠ ptr (plug (f :: fs) s) := by
  intro he
  obtain ⟨a, ha, hp⟩ := ptr_plug_mem f fs s
  have hnd := h.nodup
  simp only [List.nodup_append', List.disjoint_left] at hnd
  exact hnd.2.2 (ptr_mem (he.trans hp)) ha

lemma RepAt.not_mem_path {f : ColTree α} (h : RepAt t p f) (ha : a ∈ f.toList) : a ∉ p.elems := by
  grind [h.nodup]

lemma ptr_ne_top (hs : ∀ b ∈ s.toList, b ∉ p.elems) : ptr s ≠ top p := by
  cases s with
  | leaf => exact (top_ne_nil p).symm
  | node c l b r => exact (top_ne_node (hs b (by simp [toList]))).symm

lemma RepAt.ptr_ne_top (h : RepAt t p s) : ptr s ≠ top p := RbTree.ptr_ne_top fun _ => h.not_mem_path

variable {d : Dir} {A B C : ColTree α} {x y : α} {cx cy : Bool}

lemma child_top (h : RepPath t p (.node x)) (hx : x ∉ p.elems) : t.child (top p) d = .node x ↔ d = side p := by
  cases p with
  | nil =>
    simp only [RepPath] at h
    cases d <;> simp [child, top, h, RbNode.child, side]
  | cons f fs =>
    have hne : ptr f.sib ≠ .node x := ptr_ne_node (by simp_all [elems])
    rcases Dir.eq_or_opp f.dir d with rfl | rfl
    · simp [child, top, h.1, side]
    · simp [child, top, h.1, side, hne]

variable [DecidableEq α]

lemma rbRotate_mem {a b c q : RbPtr α} {e : Dir} (hnil : t.isRed .nil = false)
    (hx : t.mem (.node x) = cell d cx q a (.node y)) (hy : t.mem (.node y) = cell d cy (.node x) b c)
    (hxy : x ≠ y) (hqx : q ≠ .node x) (hqy : q ≠ .node y) (hqn : q ≠ .nil)
    (hbx : b ≠ .node x) (hby : b ≠ .node y) (hbq : b ≠ q)
    (hs : (t.mem q).child d = .node x ↔ d = e) :
    ∃ t', rbRotate d t (.node x) = some t' ∧ ∀ r, t'.mem r =
    if r = .node x then cell d cx (.node y) a b
    else if r = .node y then cell d cy q (.node x) c
    else if r = q then (t.mem q).setChild e (.node y)
    else if r = b ∧ r ≠ .nil then (t.mem b).setParent (.node x)
    else t.mem r := by
  simp only [isRed] at hnil
  -- two choices of the code: which child of `q` to redirect, and whether `b` is there
  have hs' : (.node x = (t.mem q).child d) = (d = e) := propext (eq_comm.trans hs)
  have hbn : (.nil = b) = (b = .nil) := propext eq_comm
  rcases Dir.eq_or_opp d e with rfl | rfl <;> by_cases hb : b = .nil
  all_goals
    simp [rbRotate, child, parent, setChild, setParent, isRed, hx, hy, hs', hxy, Ne.symm hxy,
      hqx, hqy, Ne.symm hqx, Ne.symm hqy, Ne.symm hqn, hnil, hb, hbn, hbx,
      Ne.symm hbx, Ne.symm hby, Ne.symm hbq]
    intro r
    split_ifs <;> simp_all

lemma rbRotate_rep (h : RepAt t p (.mk d cx x A (.mk d cy y B C))) : ∃ t', rbRotate d t (.node x) = some t' ∧
    RepAt t' p (.mk d cy y (.mk d cx x A B) C) ∧ t'.mem .nil = t.mem .nil := by
  obtain ⟨hs, hp, hnil, hnd⟩ := h
  simp only [rep_mk, ptr_mk] at hs hp
  obtain ⟨hx, hA, hy, hB, hC⟩ := hs
  simp only [List.nodup_append', nodup_mk, mem_toList_mk, not_or, List.disjoint_left] at hnd
  obtain ⟨⟨hAn, ⟨hBn, hCn, hyB, hyC, hBC⟩, hxA, ⟨hxy, hxB, hxC⟩, hAy⟩, hpn, hout⟩ := hnd
  have hxp : x ∉ p.elems := hout (by simp)
  have hyp : y ∉ p.elems := hout (by simp)
  have hne : ∀ b ∉ p.elems, .node b ≠ top p := fun b hb => (top_ne_node hb).symm
  have hBt : ptr B ≠ top p := by
    cases B with
    | leaf => exact (top_ne_nil p).symm
    | node c l b r => exact hne b (hout (by simp [toList]))
  obtain ⟨t', hrot, hm⟩ := rbRotate_mem (e := side p) hnil.1 hx hy hxy (top_ne_node hxp)
    (top_ne_node hyp) (top_ne_nil p) (ptr_ne_node hxB) (ptr_ne_node hyB) hBt (child_top hp hxp)
  refine ⟨t', hrot, ⟨?_, ?_, ?_, ?_⟩, ?_⟩
  · simp only [rep_mk, ptr_mk]
    refine ⟨by simp [hm, Ne.symm hxy], ⟨by simp [hm], ?_, ?_⟩, ?_⟩
    · refine hA.congr fun b hb => ?_
      obtain ⟨hby, hbB, -⟩ := hAy hb
      simp [hm, ne_of_mem_of_not_mem hb hxA, hby, hne b (hout (by simp [hb])), (ptr_ne_node hbB).symm]
    · refine hB.rehang hBn (fun b hb hbt => ?_) fun hB0 => ?_
      · simp [hm, ne_of_mem_of_not_mem hb hxB, ne_of_mem_of_not_mem hb hyB, hne b (hout (by simp [hb])), hbt]
      · have hB0' : ptr B ≠ .nil := mt ptr_eq_nil.mp hB0
        simp [hm, ptr_ne_node hxB, ptr_ne_node hyB, hBt, hB0']
    · refine hC.congr fun b hb => ?_
      have hbB : b ∉ B.toList := fun h => hBC h hb
      simp [hm, ne_of_mem_of_not_mem hb hxC, ne_of_mem_of_not_mem hb hyC,
        hne b (hout (by simp [hb])), (ptr_ne_node hbB).symm]
  · have hBp : ∀ b ∈ p.elems, ptr B ≠ .node b := fun b hb => ptr_ne_node fun h => hout (by simp [h]) hb
    refine hp.refill hpn (fun b hb hbt => ?_) (fun ht => ?_) ?_
    · simp [hm, ne_of_mem_of_not_mem hb hxp, ne_of_mem_of_not_mem hb hyp, hbt, (hBp b hb).symm]
    · simp [hm, Ne.symm ht]
    · simp [hm, top_ne_node hxp, top_ne_node hyp, side]
  · refine hnil.congr ?_
    simp [hm, (top_ne_nil p).symm]
  · simp only [List.nodup_append', nodup_mk, mem_toList_mk, not_or, List.disjoint_left]
    grind
  · simp [hm, (top_ne_nil p).symm]

lemma rbRotate_opp_rep (h : RepAt t p (.mk d cy y (.mk d cx x A B) C)) : ∃ t', rbRotate d.opp t (.node y) = some t' ∧
    RepAt t' p (.mk d cx x A (.mk d cy y B C)) ∧ t'.mem .nil = t.mem .nil := by
  rw [← mk_opp d B A, ← mk_opp d C] at h
  simpa only [mk_opp] using rbRotate_rep h

@[simp] lemma parent_setRed (q r : RbPtr α) : (t.setRed q c).parent r = t.parent r := by
  simp only [parent, setRed, mem_update]
  split <;> simp_all

@[simp] lemma child_setRed (q r : RbPtr α) (d : Dir) : (t.setRed q c).child r d = t.child r d := by
  simp only [child, setRed, mem_update]
  split <;> simp_all

lemma setRed_same {q : RbPtr α} (h : t.isRed q = c) : t.setRed q c = t := by
  refine RbTree.ext (funext fun r => ?_)
  simp only [setRed, mem_update]
  split
  · subst r c
    rfl
  · rfl

lemma setRed_rep (h : RepAt t p s) (hc : s = .leaf → c = false) : RepAt (t.setRed (ptr s) c) p (s.paint c) := by
  obtain ⟨hs, hp, hnil, hnd⟩ := h
  cases s with
  | leaf =>
    have hsame : t.setRed .nil c = t := setRed_same (by rw [hc rfl]; exact hnil.1)
    rw [ptr, hsame]
    exact ⟨trivial, hp, hnil, hnd⟩
  | node c' l a r =>
    have hnd' := hnd
    simp only [List.nodup_append', List.disjoint_left] at hnd'
    have hap : a ∉ p.elems := hnd'.2.2 (by simp [toList])
    refine ⟨hs.move hnd'.1 (fun b hb hne => ?_) fun _ => ?_, ?_, ?_, by simpa using hnd⟩
    · have hne : b ≠ a := by simpa using hne
      simp [setRed, hne]
    · simp only [setRed, mem_update, ↓reduceIte]
      rw [ptr, hs.1]
      rfl
    · refine (ptr_paint (c := c) (.node c' l a r)).symm ▸ hp.congr (by simp [setRed, ptr]) fun b hb => ?_
      simp [setRed, ptr, ne_of_mem_of_not_mem hb hap]
    · exact hnil.congr (by simp [setRed, ptr])

end Ucore.Libs.RbTree
