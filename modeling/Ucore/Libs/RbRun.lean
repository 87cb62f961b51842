import Mathlib.Data.Finset.Card
import Ucore.Libs.RbWalk

/-!
# Runs of the red-black tree

Any sequence of insertions of nodes that are not in the tree and deletions of nodes that
are leaves a search tree, balanced, of exactly the nodes that should be there.
-/

namespace Ucore.Libs.RbTree

open Lib

variable {α : Type} {t t' : RbTree α} {s : ColTree α} {compare : α → α → Int} {fuel : Nat} {z : α}
  {u : RbPtr α}

/-- `compare` decides a total preorder: `a` is below `b` when it is not
positive. -/
structure IsPreorder (compare : α → α → Int) : Prop where
  flip : ∀ a b, compare a b ≤ 0 ↔ 0 ≤ compare b a
  trans : ∀ a b c, compare a b ≤ 0 → compare b c ≤ 0 → compare a c ≤ 0

def Sorted (compare : α → α → Int) (l : List α) : Prop := l.Pairwise fun a b => compare a b ≤ 0

lemma Sorted.monotone (hc : IsPreorder compare) {l : List α} (h : Sorted compare l) (z : α) :
    Monotone compare z l := by
  refine List.Pairwise.imp ?_ h
  intro a b hab haz
  by_contra hbz
  have := hc.trans a b z hab (by omega)
  omega

def compareAt (compare : α → α → Int) : RbPtr α → RbPtr α → Int
  | .node a, .node b => compare a b
  | _, _ => 0

variable [DecidableEq α]

def checkNode (compare : α → α → Int) (t : RbTree α) (x : RbPtr α) : Bool :=
  let l := t.child x .left
  let r := t.child x .right
  (l = .nil || decide (compareAt compare x l ≥ 0) && decide (t.parent l = x)) &&
    (r = .nil || decide (compareAt compare x r ≤ 0) && decide (t.parent r = x)) &&
    (!t.isRed x || !t.isRed l && !t.isRed r)

/-- `check_tree`: the black height, if no assertion fails. -/
def checkTree (compare : α → α → Int) (t : RbTree α) : Nat → RbPtr α → Option Nat
  | 0, _ => none
  | fuel + 1, x =>
    if x = .nil then if t.isRed x then none else some 1
    else if checkNode compare t x then do
      let hbLeft ← checkTree compare t fuel (t.child x .left)
      let hbRight ← checkTree compare t fuel (t.child x .right)
      if hbLeft = hbRight then some (if t.isRed x then hbLeft else hbLeft + 1) else none
    else none

lemma Rep.checkNode_ok {c : Bool} {l r : ColTree α} {a : α} (hc : IsPreorder compare)
    (h : Rep t u (.node c l a r)) (hnil : NilOk t) (hs : Sorted compare (ColTree.node c l a r).toList)
    (hred : c = true → l.red = false ∧ r.red = false) : checkNode compare t (.node a) = true := by
  obtain ⟨hmem, hl, hr⟩ := h
  simp only [Sorted, ColTree.toList, List.pairwise_append, List.pairwise_cons, List.mem_cons] at hs
  obtain ⟨-, ⟨har, -⟩, hla⟩ := hs
  have hleft : t.child (.node a) .left = ptr l := by simp [RbTree.child, hmem, RbNode.child]
  have hright : t.child (.node a) .right = ptr r := by simp [RbTree.child, hmem, RbNode.child]
  have hcol : t.isRed (.node a) = c := by simp [RbTree.isRed, hmem]
  simp only [checkNode, hleft, hright, hcol, hl.red_eq hnil, hr.red_eq hnil, Bool.and_eq_true,
    Bool.or_eq_true, decide_eq_true_eq, Bool.not_eq_true']
  refine ⟨⟨?_, ?_⟩, ?_⟩
  · cases l with
    | leaf => exact .inl rfl
    | node c' l' b r' =>
      have hab : compare b a ≤ 0 := hla b (by simp [ColTree.toList]) a (.inl rfl)
      refine .inr ⟨(hc.flip b a).mp hab, ?_⟩
      simp [ptr, RbTree.parent, hl.1]
  · cases r with
    | leaf => exact .inl rfl
    | node c' l' b r' =>
      refine .inr ⟨har b (by simp [ColTree.toList]), ?_⟩
      simp [ptr, RbTree.parent, hr.1]
  · cases c with
    | false => exact .inl rfl
    | true => exact .inr (hred rfl)

lemma Rep.checkTree_node {c : Bool} {l r : ColTree α} {a : α} {hb : Nat}
    (h : Rep t u (.node c l a r)) (hnode : checkNode compare t (.node a) = true)
    (hl : checkTree compare t fuel (ptr l) = some hb) (hr : checkTree compare t fuel (ptr r) = some hb) :
    checkTree compare t (fuel + 1) (.node a) = some (if c then hb else hb + 1) := by
  have hleft : t.child (.node a) .left = ptr l := by simp [RbTree.child, h.1, RbNode.child]
  have hright : t.child (.node a) .right = ptr r := by simp [RbTree.child, h.1, RbNode.child]
  have hcol : t.isRed (.node a) = c := by simp [RbTree.isRed, h.1]
  simp [checkTree, hnode, hleft, hright, hl, hr, hcol]

lemma checkTree_rep {n : Nat} (hc : IsPreorder compare) (h : Rep t u s) (hnil : NilOk t)
    (hb : Balanced s n) (hs : Sorted compare s.toList) (hfuel : s.toList.length < fuel) :
    checkTree compare t fuel (ptr s) = some (n + 1) := by
  induction fuel generalizing u s n with
  | zero => omega
  | succ fuel ih =>
    cases s with
    | leaf =>
      cases hb
      simp [checkTree, ptr, isRed, hnil.1]
    | node c l a r =>
      simp only [ColTree.toList, List.length_append, List.length_cons] at hfuel
      have hsl : Sorted compare l.toList := (List.pairwise_append.mp hs).1
      have hsr : Sorted compare r.toList := (List.pairwise_cons.mp (List.pairwise_append.mp hs).2.1).2
      cases hb with
      | red hbl hbr hl hr =>
        have hnode := h.checkNode_ok hc hnil hs fun _ => ⟨hl, hr⟩
        exact h.checkTree_node hnode (ih h.2.1 hbl hsl (by omega)) (ih h.2.2 hbr hsr (by omega))
      | black hbl hbr =>
        have hnode := h.checkNode_ok hc hnil hs (by simp)
        exact h.checkTree_node hnode (ih h.2.1 hbl hsl (by omega)) (ih h.2.2 hbr hsr (by omega))

inductive RbOp (α : Type) where
  | insert (z : α)
  | delete (z : α)
  deriving DecidableEq, Repr

def step (compare : α → α → Int) (fuel : Nat) (t : RbTree α) : RbOp α → Option (RbTree α)
  | .insert z => rbInsert compare fuel t z
  | .delete z => rbDelete fuel t (.node z)

def RbOp.nodes (nodes : Finset α) : RbOp α → Finset α
  | .insert z => Insert.insert z nodes
  | .delete z => nodes.erase z

def Proper (nodes : Finset α) : List (RbOp α) → Prop
  | [] => True
  | .insert z :: rest => z ∉ nodes ∧ Proper (RbOp.nodes nodes (.insert z)) rest
  | .delete z :: rest => z ∈ nodes ∧ Proper (RbOp.nodes nodes (.delete z)) rest

/-- The tree `s` is in memory: its links agree both ways, the sentinels and
the root are black, it is balanced, and it is ordered. Its nodes are `nodes`. -/
structure SearchTree (compare : α → α → Int) (t : RbTree α) (nodes : Finset α) (s : ColTree α) : Prop where
  holds : Holds t s
  sorted : Sorted compare s.toList
  mem : ∀ a, a ∈ s.toList ↔ a ∈ nodes

def Created (t : RbTree α) : Prop :=
  t.mem .nil = ⟨false, .nil, .nil, .nil⟩ ∧ t.mem .root = ⟨false, .nil, .nil, .nil⟩

omit [DecidableEq α] in
lemma Created.searchTree (h : Created t) : SearchTree compare t ∅ .leaf where
  holds := ⟨⟨trivial, h.2, ⟨by simp [h.1], by simp [h.1], by simp [h.1]⟩,
    by simp [ColTree.toList, Path.elems]⟩, ⟨0, .leaf⟩, rfl⟩
  sorted := .nil
  mem := by simp [ColTree.toList]

variable {nodes : Finset α}

omit [DecidableEq α] in
lemma SearchTree.length_eq (h : SearchTree compare t nodes s) : s.toList.length = nodes.card := by
  classical
  have hnd : s.toList.Nodup := by simpa [Path.elems] using h.holds.rep.nodup
  have heq : s.toList.toFinset = nodes := by
    ext a
    simp [h.mem a]
  rw [← heq, List.toFinset_card_of_nodup hnd]

lemma insert_ok (hc : IsPreorder compare) (h : SearchTree compare t nodes s) (hz : z ∉ nodes)
    (hfuel : nodes.card < fuel) :
    ∃ t' s', rbInsert compare fuel t z = some t' ∧ SearchTree compare t' (insert z nodes) s' := by
  obtain ⟨t', s', l, r, hins, hholds, hs, hs', hl, hr⟩ :=
    rbInsert_rep h.holds (mt (h.mem z).mp hz) (h.sorted.monotone hc z) (h.length_eq ▸ hfuel)
  refine ⟨t', s', hins, hholds, ?_, fun a => ?_⟩
  · have hsorted := h.sorted
    simp only [Sorted, hs, hs', List.pairwise_append, List.pairwise_cons, List.mem_cons] at hsorted ⊢
    grind [hc.flip]
  · have hmem := h.mem a
    grind

lemma delete_ok (h : SearchTree compare t nodes s) (hz : z ∈ nodes) (hfuel : nodes.card < fuel) :
    ∃ t' s', rbDelete fuel t (.node z) = some t' ∧ SearchTree compare t' (nodes.erase z) s' := by
  obtain ⟨t', s', hdel, hholds, hs'⟩ := rbDelete_rep h.holds ((h.mem z).mpr hz) (h.length_eq ▸ hfuel)
  have hnd : s.toList.Nodup := by simpa [Path.elems] using h.holds.rep.nodup
  refine ⟨t', s', hdel, hholds, ?_, fun a => ?_⟩
  · grind [Sorted, h.sorted]
  · rw [hs', hnd.mem_erase_iff, h.mem a, Finset.mem_erase]

lemma ops_ok (hc : IsPreorder compare) (ops : List (RbOp α)) (h : SearchTree compare t nodes s)
    (hops : Proper nodes ops) (hfuel : nodes.card + ops.length < fuel) :
    ∃ t' s', ops.foldlM (step compare fuel) t = some t' ∧ SearchTree compare t' (ops.foldl RbOp.nodes nodes) s' := by
  induction ops generalizing t s nodes with
  | nil => exact ⟨t, s, rfl, h⟩
  | cons op rest ih =>
    simp only [List.length_cons] at hfuel
    cases op with
    | insert z =>
      obtain ⟨hz, hrest⟩ := hops
      obtain ⟨t1, s1, hstep, h1⟩ := insert_ok hc h hz (show _ < fuel by omega)
      have hcard : (insert z nodes).card ≤ nodes.card + 1 := Finset.card_insert_le z nodes
      obtain ⟨t2, s2, hrun, h2⟩ := ih h1 hrest (by omega)
      exact ⟨t2, s2, by simpa [step, hstep] using hrun, h2⟩
    | delete z =>
      obtain ⟨hz, hrest⟩ := hops
      obtain ⟨t1, s1, hstep, h1⟩ := delete_ok h hz (show _ < fuel by omega)
      have hcard : (nodes.erase z).card ≤ nodes.card := Finset.card_erase_le
      obtain ⟨t2, s2, hrun, h2⟩ := ih h1 hrest (by omega)
      exact ⟨t2, s2, by simpa [step, hstep] using hrun, h2⟩

lemma card_nodes_le (ops : List (RbOp α)) (nodes : Finset α) :
    (ops.foldl RbOp.nodes nodes).card ≤ nodes.card + ops.length := by
  induction ops generalizing nodes with
  | nil => exact le_rfl
  | cons op rest ih =>
    have hrest := ih (RbOp.nodes nodes op)
    have hop : (RbOp.nodes nodes op).card ≤ nodes.card + 1 := by
      cases op with
      | insert z => exact Finset.card_insert_le z nodes
      | delete z => exact Nat.le_succ_of_le Finset.card_erase_le
    simp only [List.foldl_cons, List.length_cons]
    omega

/-- No assertion fails, every loop ends, and the tree is what it should be. -/
theorem run_searchTree (hc : IsPreorder compare) (ht : Created t) (ops : List (RbOp α))
    (hops : Proper ∅ ops) (hfuel : ops.length < fuel) :
    ∃ t' s, ops.foldlM (step compare fuel) t = some t' ∧ SearchTree compare t' (ops.foldl RbOp.nodes ∅) s ∧
    ∃ hb, checkTree compare t' fuel (t'.child .root .left) = some hb := by
  obtain ⟨t', s, hrun, h⟩ := ops_ok hc ops ht.searchTree hops (show _ < fuel by simpa using hfuel)
  obtain ⟨n, hbal⟩ := h.holds.balanced
  refine ⟨t', s, hrun, h, n + 1, ?_⟩
  grind [card_nodes_le, checkTree_rep, h.holds.rep.root, h.length_eq, h.holds.rep.sub, h.holds.rep.nil, h.sorted]

theorem run_searchTree_three : ∃ t' s, [RbOp.insert 2, .insert 1, .insert 3, .delete 2, .insert 2].foldlM
    (step (fun a b : Nat => (a : Int) - b) 6) rbTreeCreate = some t' ∧
    SearchTree (fun a b : Nat => (a : Int) - b) t' {1, 2, 3} s ∧
    ∃ hb, checkTree (fun a b : Nat => (a : Int) - b) t' 6 (t'.child .root .left) = some hb :=
  have hc : IsPreorder fun a b : Nat => (a : Int) - b := ⟨by intros; omega, by intros; omega⟩
  have hnodes : [RbOp.insert 2, .insert 1, .insert 3, .delete 2, .insert 2].foldl RbOp.nodes ∅ =
      ({1, 2, 3} : Finset Nat) := by decide
  hnodes ▸ run_searchTree hc ⟨rfl, rfl⟩ _ (by simp [Proper, RbOp.nodes]) (by decide)

/-- The walk from a node to its neighbours is the in-order one. -/
theorem run_neighbours (hc : IsPreorder compare) (ht : Created t) (ops : List (RbOp α))
    (hops : Proper ∅ ops) (hfuel : ops.length < fuel) :
    ∃ t' s, ops.foldlM (step compare fuel) t = some t' ∧
    SearchTree compare t' (ops.foldl RbOp.nodes ∅) s ∧ ∀ l z r, s.toList = l ++ z :: r →
    rbNodePrev fuel t' (.node z) = some (ofOption l.getLast?) ∧
    rbNodeNext fuel t' (.node z) = some (ofOption r.head?) := by
  obtain ⟨t', s, hrun, h⟩ := ops_ok hc ops ht.searchTree hops (show _ < fuel by simpa using hfuel)
  have hlen : s.toList.length < fuel := by
    have hcard := card_nodes_le ops ∅
    rw [h.length_eq]
    simp only [Finset.card_empty] at hcard
    omega
  exact ⟨t', s, hrun, h, fun l z r hl => ⟨rbNodePrev_rep h.holds hl hlen, rbNodeNext_rep h.holds hl hlen⟩⟩

theorem run_neighbours_two :
    ∃ t' s, [RbOp.insert 1, .insert 2].foldlM (step (fun a b : Nat => (a : Int) - b) 3) rbTreeCreate = some t' ∧
    SearchTree (fun a b : Nat => (a : Int) - b) t' {1, 2} s ∧ ∀ l z r, s.toList = l ++ z :: r →
    rbNodePrev 3 t' (.node z) = some (ofOption l.getLast?) ∧
    rbNodeNext 3 t' (.node z) = some (ofOption r.head?) :=
  have hc : IsPreorder fun a b : Nat => (a : Int) - b := ⟨by intros; omega, by intros; omega⟩
  have hnodes : [RbOp.insert 1, .insert 2].foldl RbOp.nodes ∅ = ({1, 2} : Finset Nat) := by decide
  hnodes ▸ run_neighbours hc ⟨rfl, rfl⟩ _ (by simp [Proper, RbOp.nodes]) (by decide)

end Ucore.Libs.RbTree
