import Ucore.Libs.RbDelete

/-!
# Walking the red-black tree

The predecessor of a node is the element before it in the order, or `nil`, and the
successor is the element after it.
-/

namespace Ucore.Libs.RbTree

open Lib

variable {α : Type} {t : RbTree α} {p : Path α} {s : ColTree α} {z : α} {fuel : Nat}

lemma rbTreeCreate_holds : Holds (rbTreeCreate : RbTree α) .leaf :=
  ⟨⟨trivial, rfl, ⟨rfl, rfl, rfl⟩, by simp [ColTree.toList, Path.elems]⟩, ⟨0, .leaf⟩, rfl⟩

def ofOption : Option α → RbPtr α
  | none => .nil
  | some a => .node a

variable [DecidableEq α]

lemma rbClimbLeft_rep (h : RepAt t p s) (hs : s ≠ .leaf) (hfuel : p.length < fuel) :
    rbClimbLeft t fuel (ptr s) (top p) = some (ofOption p.before.getLast?) := by
  induction fuel generalizing p s with
  | zero => omega
  | succ fuel ih =>
  cases p with
  | nil => simp [rbClimbLeft, top, h.root, Path.before, ofOption]
  | cons f fs =>
    have hhere := h.here_iff hs (d := .left)
    simp only [top, List.length_cons] at hhere hfuel ⊢
    simp only [rbClimbLeft, hhere, h.up, reduceCtorEq, ↓reduceIte]
    cases hd : f.dir with
    | left =>
      have hup := ih (repAt_cons.mp h) (by simp) (by omega)
      simpa [hd, Path.before] using hup
    | right => simp [hd, Path.before, ofOption]

lemma rbClimbRight_rep (h : RepAt t p s) (hs : s ≠ .leaf) (hfuel : p.length < fuel) :
    (do let y ← rbClimbRight t fuel (ptr s) (top p); some (if y = .root then .nil else y)) =
      some (ofOption p.after.head?) := by
  induction fuel generalizing p s with
  | zero => omega
  | succ fuel ih =>
  cases p with
  | nil =>
    have hroot : t.mem .root = _ := h.path
    simp [rbClimbRight, top, child, hroot, RbNode.child, ptr_eq_nil, hs, Path.after, ofOption]
  | cons f fs =>
    have hhere := h.here_iff hs (d := .right)
    simp only [top, List.length_cons] at hhere hfuel ⊢
    simp only [rbClimbRight, hhere, h.up]
    cases hd : f.dir with
    | left => simp [Path.after, hd, ofOption]
    | right =>
      have hup := ih (repAt_cons.mp h) (by simp) (by omega)
      simpa [hd, Path.after] using hup

omit [DecidableEq α] in
lemma Holds.at_node {l r : List α} (h : Holds t s) (hl : s.toList = l ++ z :: r) :
    ∃ p c A B, RepAt t p (.node c A z B) ∧ l = p.before ++ A.toList ∧ r = B.toList ++ p.after ∧
    p.length + A.toList.length + B.toList.length < s.toList.length := by
  obtain ⟨p, c, A, B, rfl⟩ := ColTree.exists_path_of_mem (a := z) (s := s) (by simp [hl])
  have hlen := p.length_le_plug (.node c A z B)
  have hnd : (p.plug (.node c A z B)).toList.Nodup := by simpa [Path.elems] using h.rep.nodup
  have hsplit : (p.plug (.node c A z B)).toList = (p.before ++ A.toList) ++ z :: (B.toList ++ p.after) := by
    simp [Path.toList_plug, ColTree.toList]
  rw [hsplit] at hl hnd
  obtain ⟨-, hB, hdis⟩ := List.nodup_append'.mp hnd
  have hz : z ∉ p.before ++ A.toList := fun hm => hdis hm (by simp)
  obtain ⟨hbefore, -, hafter⟩ := (List.append_cons_inj_of_notMem hz (List.nodup_cons.mp hB).1).mp hl
  refine ⟨p, c, A, B, repAt_plug.mpr h.rep, hbefore.symm, hafter.symm, ?_⟩
  simp only [ColTree.toList, List.length_append, List.length_cons] at hlen
  omega

section

variable {l r : List α}
  (h : Holds t s)
  (hl : s.toList = l ++ z :: r)
  (hfuel : s.toList.length < fuel)
include h hl hfuel

lemma rbNodePrev_rep :
    rbNodePrev fuel t (.node z) = some (ofOption l.getLast?) := by
  obtain ⟨p, c, A, B, hat, rfl, -, hlen⟩ := h.at_node hl
  have hleft : t.child (.node z) .left = ptr A := RepAt.nearPtr (d := .left) hat
  rw [rbNodePrev, rbTreePredecessor, hleft]
  by_cases hA : A = .leaf
  · subst hA
    have hpar : t.parent (.node z) = top p := hat.parent (by simp)
    have hclimb := rbClimbLeft_rep hat (by simp) (show _ < fuel by omega)
    simpa [hpar, ColTree.toList] using hclimb
  · obtain ⟨q, c', y, far, rfl, hq, hdesc⟩ :=
      rbDescend_rep .right (RepAt.down (d := .left) hat) hA (show _ < fuel by omega)
    rw [if_pos (mt ptr_eq_nil.mp hA), hdesc]
    simp [Path.toList_plug, Path.after_of_right hq, ColTree.mk, ColTree.toList, ofOption]

lemma rbNodeNext_rep :
    rbNodeNext fuel t (.node z) = some (ofOption r.head?) := by
  obtain ⟨p, c, A, B, hat, -, rfl, hlen⟩ := h.at_node hl
  have hright : t.child (.node z) .right = ptr B := RepAt.farPtr (d := .left) hat
  rw [rbNodeNext, rbTreeSuccessor, hright]
  by_cases hB : B = .leaf
  · subst hB
    have hpar : t.parent (.node z) = top p := hat.parent (by simp)
    have hclimb := rbClimbRight_rep hat (by simp) (show _ < fuel by omega)
    simpa [hpar, ColTree.toList] using hclimb
  · obtain ⟨q, c', y, far, rfl, hq, hdesc⟩ :=
      rbDescend_rep .left (RepAt.downFar (d := .left) hat) hB (show _ < fuel by omega)
    rw [if_pos (mt ptr_eq_nil.mp hB), hdesc]
    simp [Path.toList_plug, Path.before_of_left hq, ColTree.mk, ColTree.toList, ofOption]

end

end Ucore.Libs.RbTree
