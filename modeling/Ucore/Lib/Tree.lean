import Mathlib.Data.List.Nodup

/-!
# Coloured binary trees and the paths into them

A tree seen from one of its nodes is a subtree and the path above it. The rules here say
what the path contributes: the in-order sequence on either side of the hole, and the
black height a subtree must have to fit.
-/

namespace Ucore.Lib

inductive Dir
  | left
  | right
  deriving DecidableEq, Repr

def Dir.opp : Dir → Dir
  | .left => .right
  | .right => .left

@[simp] lemma Dir.opp_opp (d : Dir) : d.opp.opp = d := by cases d <;> rfl

@[simp] lemma Dir.opp_ne (d : Dir) : d.opp ≠ d := by cases d <;> simp [Dir.opp]

@[simp] lemma Dir.ne_opp (d : Dir) : d ≠ d.opp := by cases d <;> simp [Dir.opp]

lemma Dir.eq_or_opp (d e : Dir) : e = d ∨ e = d.opp := by cases d <;> cases e <;> simp [Dir.opp]

inductive ColTree (α : Type) where
  | leaf
  | node (red : Bool) (l : ColTree α) (a : α) (r : ColTree α)
  deriving Repr

def ColTree.toList : ColTree α → List α
  | .leaf => []
  | .node _ l a r => l.toList ++ a :: r.toList

def ColTree.mk (d : Dir) (red : Bool) (a : α) (near far : ColTree α) : ColTree α :=
  match d with
  | .left => .node red near a far
  | .right => .node red far a near

def ColTree.red : ColTree α → Bool
  | .leaf => false
  | .node red .. => red

def ColTree.paint (red : Bool) : ColTree α → ColTree α
  | .leaf => .leaf
  | .node _ l a r => .node red l a r

@[simp] lemma ColTree.red_mk (d : Dir) (near far : ColTree α) : (ColTree.mk d c a near far).red = c := by
  cases d <;> rfl

@[simp] lemma ColTree.paint_mk (d : Dir) (near far : ColTree α) :
    (ColTree.mk d c a near far).paint c' = .mk d c' a near far := by
  cases d <;> rfl

@[simp] lemma ColTree.toList_paint (t : ColTree α) : (t.paint c).toList = t.toList := by
  cases t <;> rfl

@[simp] lemma ColTree.red_paint_false (t : ColTree α) : (t.paint false).red = false := by
  cases t <;> rfl

@[simp] lemma ColTree.mk_ne_leaf (d : Dir) (near far : ColTree α) : ColTree.mk d c a near far ≠ .leaf := by
  cases d <;> simp [ColTree.mk]

lemma ColTree.mk_opp (d : Dir) (near far : ColTree α) : ColTree.mk d.opp c a near far = .mk d c a far near := by
  cases d <;> rfl

lemma ColTree.exists_mk (d : Dir) (red : Bool) (l : ColTree α) (a : α) (r : ColTree α) :
    ∃ near far, ColTree.node red l a r = .mk d red a near far := by
  cases d
  · exact ⟨l, r, rfl⟩
  · exact ⟨r, l, rfl⟩

lemma ColTree.mem_toList_mk (d : Dir) (near far : ColTree α) :
    x ∈ (ColTree.mk d c a near far).toList ↔ x = a ∨ x ∈ near.toList ∨ x ∈ far.toList := by
  cases d <;> simp [ColTree.mk, ColTree.toList] <;> tauto

lemma ColTree.toList_mk_congr (d : Dir) (c c' : Bool) (a : α) (hn : near.toList = near'.toList)
    (hf : far.toList = far'.toList) :
    (ColTree.mk d c a near far).toList = (ColTree.mk d c' a near' far').toList := by
  cases d <;> simp [ColTree.mk, ColTree.toList, hn, hf]

lemma ColTree.toList_rotate (d : Dir) (c1 c2 c3 c4 : Bool) (x y : α) (A B C : ColTree α) :
    (ColTree.mk d c1 y (.mk d c2 x A B) C).toList = (ColTree.mk d c3 x A (.mk d c4 y B C)).toList := by
  cases d <;> simp [ColTree.mk, ColTree.toList]

lemma ColTree.nodup_mk (d : Dir) (near far : ColTree α) : (ColTree.mk d c a near far).toList.Nodup ↔
    near.toList.Nodup ∧ far.toList.Nodup ∧ a ∉ near.toList ∧ a ∉ far.toList ∧ near.toList.Disjoint far.toList := by
  cases d <;> simp [ColTree.mk, ColTree.toList, List.nodup_append', List.disjoint_cons_right,
    List.disjoint_comm] <;> tauto

/-- One step up: the hole is the child on side `dir` of a node `a`, whose
other child is `sib`. -/
structure Frame (α : Type) where
  dir : Dir
  red : Bool
  a : α
  sib : ColTree α

abbrev Path (α : Type) := List (Frame α)

def Path.plug : Path α → ColTree α → ColTree α
  | [], t => t
  | f :: fs, t => Path.plug fs (.mk f.dir f.red f.a t f.sib)

def Path.before : Path α → List α
  | [] => []
  | f :: fs => Path.before fs ++ (match f.dir with
    | .left => []
    | .right => f.sib.toList ++ [f.a])

def Path.after : Path α → List α
  | [] => []
  | f :: fs => (match f.dir with
    | .left => f.a :: f.sib.toList
    | .right => []) ++ Path.after fs

lemma Path.toList_plug (p : Path α) (t : ColTree α) : (p.plug t).toList = p.before ++ t.toList ++ p.after := by
  induction p generalizing t with
  | nil => simp [Path.plug, Path.before, Path.after]
  | cons f fs ih =>
    obtain ⟨d, red, a, sib⟩ := f
    cases d <;> simp [Path.plug, Path.before, Path.after, ih, ColTree.mk, ColTree.toList]

lemma Path.plug_append (q p : Path α) (t : ColTree α) : Path.plug (q ++ p) t = p.plug (q.plug t) := by
  induction q generalizing t with
  | nil => rfl
  | cons f fs ih => exact ih _

lemma ColTree.exists_path_of_mem {s : ColTree α} (h : a ∈ s.toList) :
    ∃ (p : Path α) (c : Bool) (l r : ColTree α), s = p.plug (.node c l a r) := by
  induction s with
  | leaf => simp [ColTree.toList] at h
  | node c l b r ihl ihr =>
    simp only [ColTree.toList, List.mem_append, List.mem_cons] at h
    rcases h with h | rfl | h
    · obtain ⟨p, c', l', r', rfl⟩ := ihl h
      exact ⟨p ++ [⟨.left, c, b, r⟩], c', l', r', by simp [Path.plug_append, Path.plug, ColTree.mk]⟩
    · exact ⟨[], c, l, r, rfl⟩
    · obtain ⟨p, c', l', r', rfl⟩ := ihr h
      exact ⟨p ++ [⟨.right, c, b, l⟩], c', l', r', by simp [Path.plug_append, Path.plug, ColTree.mk]⟩

lemma Path.before_of_left {p : Path α} (h : ∀ f ∈ p, f.dir = .left) : p.before = [] := by
  induction p with
  | nil => rfl
  | cons f fs ih => grind [before]

lemma Path.after_of_right {p : Path α} (h : ∀ f ∈ p, f.dir = .right) : p.after = [] := by
  induction p with
  | nil => rfl
  | cons f fs ih => grind [after]

lemma Path.plug_congr (p : Path α) (h : t.toList = t'.toList) : (p.plug t).toList = (p.plug t').toList := by
  simp [Path.toList_plug, h]

def Path.elems : Path α → List α
  | [] => []
  | f :: fs => f.a :: (f.sib.toList ++ Path.elems fs)

lemma Path.elems_append (q p : Path α) : Path.elems (q ++ p) = q.elems ++ p.elems := by
  induction q with
  | nil => rfl
  | cons f fs ih => simp [Path.elems, ih]

lemma Path.perm_elems (p : Path α) : (p.before ++ p.after).Perm p.elems := by
  induction p with
  | nil => simp [Path.before, Path.after, Path.elems]
  | cons f fs ih =>
    obtain ⟨d, red, a, sib⟩ := f
    have hmid := @List.perm_append_comm _ (Path.before fs) (a :: sib.toList)
    cases d
    · simp only [Path.before, Path.after, Path.elems, List.append_nil]
      calc (Path.before fs ++ (a :: sib.toList ++ Path.after fs)).Perm
            ((a :: sib.toList) ++ (Path.before fs ++ Path.after fs)) := by
              simpa [List.append_assoc] using hmid.append_right (Path.after fs)
        _ |>.Perm (a :: (sib.toList ++ Path.elems fs)) := by simpa using ih.append_left sib.toList
    simp only [Path.before, Path.after, Path.elems, List.nil_append]
    calc (Path.before fs ++ (sib.toList ++ [a]) ++ Path.after fs).Perm (Path.before fs ++ (a :: sib.toList) ++ Path.after fs) :=
            (List.Perm.append_left _ (by simp)).append_right _
      _ |>.Perm ((a :: sib.toList) ++ (Path.before fs ++ Path.after fs)) := by
            simpa [List.append_assoc] using hmid.append_right (Path.after fs)
      _ |>.Perm (a :: (sib.toList ++ Path.elems fs)) := by simpa using ih.append_left sib.toList

lemma Path.perm_plug (p : Path α) (t : ColTree α) : (p.plug t).toList.Perm (t.toList ++ p.elems) := by
  rw [Path.toList_plug]
  calc (p.before ++ t.toList ++ p.after).Perm (t.toList ++ p.before ++ p.after) := List.perm_append_comm.append_right _
    _ |>.Perm (t.toList ++ p.elems) := by
        simpa [List.append_assoc] using p.perm_elems.append_left t.toList

lemma Path.nodup_plug (p : Path α) (t : ColTree α) :
    (p.plug t).toList.Nodup ↔ (t.toList ++ p.elems).Nodup := (p.perm_plug t).nodup_iff

lemma Path.length_le_plug (p : Path α) (t : ColTree α) : p.length + t.toList.length ≤ (p.plug t).toList.length := by
  induction p generalizing t with
  | nil => simp [Path.plug]
  | cons f fs ih =>
    have h := ih (.mk f.dir f.red f.a t f.sib)
    have hmk : t.toList.length + 1 ≤ (ColTree.mk f.dir f.red f.a t f.sib).toList.length := by
      cases f.dir <;> simp [ColTree.mk, ColTree.toList]
    simp only [Path.plug, List.length_cons]
    omega

/-- No red node has a red child and every way down meets `n` black nodes. -/
inductive Balanced : ColTree α → Nat → Prop
  | leaf : Balanced .leaf 0
  | red : Balanced l n → Balanced r n → l.red = false → r.red = false → Balanced (.node true l a r) n
  | black : Balanced l n → Balanced r n → Balanced (.node false l a r) (n + 1)

inductive Fits : Path α → Nat → Prop
  | top : Fits [] n
  | red {f g : Frame α} {fs : Path α} (hr : f.red = true) (hs : Balanced f.sib n) 
      (hb : f.sib.red = false) (hg : g.red = false) (h : Fits (g :: fs) n) : Fits (f :: g :: fs) n
  | black {f : Frame α} {fs : Path α} (hr : f.red = false) (hs : Balanced f.sib n)
    (h : Fits fs (n + 1)) : Fits (f :: fs) n

lemma balanced_red (d : Dir) : Balanced (.mk d true a near far) n ↔
    Balanced near n ∧ Balanced far n ∧ near.red = false ∧ far.red = false := by
  constructor
  · intro h
    cases d <;> cases h <;> tauto
  · rintro ⟨hn, hf, hnb, hfb⟩
    cases d
    · exact .red hn hf hnb hfb
    · exact .red hf hn hfb hnb

lemma balanced_black (d : Dir) :
    Balanced (.mk d false a near far) n ↔ ∃ m, n = m + 1 ∧ Balanced near m ∧ Balanced far m := by
  constructor
  · intro h
    cases d <;> cases h <;> exact ⟨_, rfl, ‹_›, ‹_›⟩
  · rintro ⟨m, rfl, hn, hf⟩
    cases d
    · exact .black hn hf
    · exact .black hf hn

lemma Balanced.paint (h : Balanced t n) : ∃ m, Balanced (t.paint false) m := by
  cases h with
  | leaf => exact ⟨0, .leaf⟩
  | red hl hr => exact ⟨_, .black hl hr⟩
  | black hl hr => exact ⟨_, .black hl hr⟩

lemma Fits.plug (hf : Fits p n) (ht : Balanced t n) (hc : ∀ f ∈ p.head?, f.red = true → t.red = false) :
    ∃ m, Balanced (p.plug t) m ∧ (p ≠ [] → (p.plug t).red = false) := by
  induction hf generalizing t with
  | top => exact ⟨_, ht, by simp⟩
  | @red n f g fs hr hs hb hg h ih =>
    have htb : t.red = false := hc f (by simp) hr
    obtain ⟨m, hm, hroot⟩ := ih (t := .mk f.dir f.red f.a t f.sib)
      (by rw [hr]; exact (balanced_red f.dir).mpr ⟨ht, hs, htb, hb⟩) (by simp [hg])
    exact ⟨m, hm, fun _ => hroot (by simp)⟩
  | @black n f fs hr hs h ih =>
    obtain ⟨m, hm, hroot⟩ := ih (t := .mk f.dir f.red f.a t f.sib)
      (by rw [hr]; exact (balanced_black f.dir).mpr ⟨n, rfl, ht, hs⟩) (by simp [hr])
    refine ⟨m, hm, fun _ => ?_⟩
    cases fs with
    | nil => simp [Path.plug, hr]
    | cons g gs => exact hroot (by simp)

lemma Fits.swap {f f' : Frame α} (h : Fits (f :: fs) n) (hr : f'.red = f.red)
    (hs : Balanced f'.sib n) (hb : f'.sib.red = false) : Fits (f' :: fs) n := by
  cases h with
  | red hf _ _ hg h => exact .red (hr.trans hf) hs hb hg h
  | black hf _ h => exact .black (hr.trans hf) hs h

lemma Fits.congr {p p' : Path α} (h : Fits p n)
    (hp : List.Forall₂ (fun f f' => f'.red = f.red ∧ f'.sib = f.sib) p p') : Fits p' n := by
  induction h generalizing p' with
  | top =>
    cases hp
    exact .top
  | red hr hs hb hg _ ih =>
    cases hp with
    | cons hf hrest =>
      have hfits := ih hrest
      cases hrest with
      | cons hg' _ => exact .red (hf.1.trans hr) (hf.2 ▸ hs) (hf.2 ▸ hb) (hg'.1.trans hg) hfits
  | black hr hs _ ih =>
    cases hp with
    | cons hf hrest => exact .black (hf.1.trans hr) (hf.2 ▸ hs) (ih hrest)

lemma fits_of_plug (p : Path α) (h : Balanced (p.plug t) m) (hb : (p.plug t).red = false) :
    ∃ n, Fits p n ∧ Balanced t n ∧ ∀ f ∈ p.head?, f.red = true → t.red = false := by
  induction p generalizing t with
  | nil => exact ⟨m, .top, h, by simp⟩
  | cons f fs ih =>
    obtain ⟨n, hfs, hbal, hcol⟩ := ih h hb
    cases hr : f.red
    · rw [hr, balanced_black] at hbal
      obtain ⟨k, rfl, ht, hs⟩ := hbal
      exact ⟨k, .black hr hs hfs, ht, by simp [hr]⟩
    rw [hr, balanced_red] at hbal
    obtain ⟨ht, hs, htb, hsb⟩ := hbal
    refine ⟨n, ?_, ht, by simp [htb]⟩
    cases fs with
    | nil => simp [Path.plug, hr] at hb
    | cons g gs =>
      have hg : g.red = false := by
        cases hgr : g.red
        · rfl
        · simpa [hr] using hcol g (by simp) hgr
      exact .red hr hs hsb hg hfs

end Ucore.Lib
