import Mathlib.Data.Nat.Log
import Ucore.Mm.Mmap

/-!
# How long `find_vma` looks

The tree of the areas is balanced, so `find_vma_rb` looks at few of them.
-/

namespace Ucore.Lib

def ColTree.height : ColTree α → Nat
  | .leaf => 0
  | .node _ l _ r => max l.height r.height + 1

lemma Balanced.height_le {t : ColTree α} (h : Balanced t n) : t.height ≤ 2 * n + if t.red then 1 else 0 := by
  induction h with
  | leaf => exact Nat.le_refl 0
  | red _ _ hl hr ihl ihr =>
    rw [hl] at ihl
    rw [hr] at ihr
    simp only [ColTree.height, ColTree.red]
    grind
  | black _ _ ihl ihr =>
    simp only [ColTree.height, ColTree.red]
    grind

lemma Balanced.two_pow_le {t : ColTree α} (h : Balanced t n) : 2 ^ n ≤ t.toList.length + 1 := by
  induction h with
  | leaf => exact Nat.le_refl 1
  | red _ _ _ _ ihl ihr =>
    rw [ColTree.toList, List.length_append]
    omega
  | black _ _ ihl ihr =>
    rw [ColTree.toList, List.length_append, List.length_cons, Nat.pow_succ]
    omega

end Ucore.Lib

namespace Ucore.Mm

open Lib Libs Libs.RbTree

variable {mm : MmStruct} {t : RbTree Nat}

lemma findVmaRb_rounds {p : Path Nat} {s : ColTree Nat} (hrep : RepAt t p s) (h : s.height < m) (h' : s.height < n) :
    findVmaRb mm t addr m (ptr s) vma = findVmaRb mm t addr n (ptr s) vma := by
  induction m generalizing p s n vma with
  | zero => omega
  | succ m ih =>
    obtain ⟨n, rfl⟩ := Nat.exists_eq_add_one_of_ne_zero (Nat.ne_zero_of_lt h')
    cases s with
    | leaf => rfl
    | node c l id r =>
      have hl := RepAt.down (d := .left) hrep
      have hr := RepAt.down (d := .right) hrep
      have hchl : t.child (.node id) .left = ptr l := hl.here
      have hchr : t.child (.node id) .right = ptr r := hr.here
      simp only [ColTree.height] at h h'
      simp only [findVmaRb, ptr_node, hchl, hchr]
      rw [ih hl (n := n) (by omega) (by omega), ih hr (n := n) (by omega) (by omega)]

/-- The search in the tree of `n` areas ends within `2 * log2 (n + 1)` rounds, with the
answer of the search in the list. -/
theorem findVmaRb_log (h : Inv mm) (ht : mm.mmapTree = some t) (addr : Nat) :
    findVmaRb mm t addr (2 * Nat.log 2 (mm.mapCount + 1) + 1) (t.child .root .left) none =
    .ok (findVmaList mm addr mm.mmapList) := by
  obtain ⟨s, hs, hl⟩ := h.tree t ht
  obtain ⟨n, hbal⟩ := hs.balanced
  have hheight := hbal.height_le
  have hlog := Nat.le_log_of_pow_le Nat.one_lt_two hbal.two_pow_le
  rw [hs.black] at hheight
  rw [hl, ← h.count] at hlog
  have hrounds : s.height < 2 * Nat.log 2 (mm.mapCount + 1) + 1 := by
    simp only [Bool.false_eq_true, if_false] at hheight
    omega
  have hmany : s.height < s.height + s.toList.length + 1 := by omega
  rw [hs.rep.root, findVmaRb_rounds hs.rep hrounds hmany,
    findVmaRb_eq hs.rep (by rw [hl]; exact fun i hi => (h.ok_id hi).lt)
    (by rw [hl]; exact h.ordered_ids) (by omega), hl, findVmaList_eq, Option.or_none]

/-- With the 33rd area there is a tree, and eleven rounds are enough in it. The address is
in the gap after the first area. -/
theorem findVmaRb_log_gap : ∃ t, (pagesFrom 0x3000 33).mmapTree = some t ∧
    findVmaRb (pagesFrom 0x3000 33) t 0x1001008 11 (t.child .root .left) none = .ok (some 1) := by
  have htree : (pagesFrom 0x3000 33).mmapTree.isSome = true := by decide +kernel
  obtain ⟨t, ht⟩ := Option.isSome_iff_exists.mp htree
  have hrounds : 2 * Nat.log 2 ((pagesFrom 0x3000 33).mapCount + 1) + 1 = 11 := by decide +kernel
  have hlist : findVmaList (pagesFrom 0x3000 33) 0x1001008 (pagesFrom 0x3000 33).mmapList = some 1 := by decide +kernel
  have hfind := findVmaRb_log (pagesFrom_inv 0x3000 33) ht 0x1001008
  rw [hrounds, hlist] at hfind
  exact ⟨t, ht, hfind⟩

end Ucore.Mm
