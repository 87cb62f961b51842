import Mathlib.Algebra.BigOperators.Group.List.Lemmas
import Mathlib.Algebra.Group.Prod
import Mathlib.Algebra.Order.BigOperators.Group.List
import Mathlib.Algebra.Order.Group.Int
import Mathlib.Algebra.Order.Group.Nat
import Mathlib.Data.List.Sort
import Mathlib.Tactic.Abel

/-!
# The physical memory map of `mm/memmap.c`

`memmap_process` sorts the end points of the ranges and sweeps over them with
two nesting levels. The boundaries it leaves are those of the usable memory.
`memmap_test` searches them, but never looks beyond the last one.
-/

namespace Ucore.Supervisor.Memmap

structure Node where
  addr : Nat
  flag : Int
  deriving DecidableEq, Repr

structure Range where
  start : Nat
  stop : Nat
  type : Int

variable {nodes l : List Node} {ranges : List Range} {b : List Nat} {a start stop num : Nat}
  {last : Bool} {v : Int × Int}

def memmapAppend (nodes : List Node) (r : Range) : List Node := nodes ++ [⟨r.start, r.type⟩, ⟨r.stop, -r.type⟩]

def pick (x : Node) (best : Nat) : List Node → Option (Node × List Node)
  | [] => none
  | y :: l =>
    if y.addr < best then
      match pick x y.addr l with
      | some (m, r) => some (m, y :: r)
      | none => some (y, x :: l)
    else (pick x best l).map fun (m, r) => (m, y :: r)

def sort : Nat → List Node → List Node
  | n + 1, x :: l =>
    match pick x x.addr l with
    | some (m, r) => m :: sort n r
    | none => x :: sort n l
  | _, l => l

def effect (flag : Int) : Int × Int :=
  if flag = 1 then (1, 0)
  else if flag = -1 then (-1, 0)
  else if flag = 3 then (0, 1)
  else if flag = -3 then (0, -1)
  else if flag > 0 then (-1, 0)
  else (1, 0)

def isValid (level : Int × Int) : Bool :=
  if level.1 = 0 then decide (level.2 > 0) else decide (level.1 > 0)

/-- The loop of `memmap_process` over the sorted nodes. -/
def sweep (level : Int × Int) (v : Bool) : List Node → List Nat
  | [] => []
  | n :: l =>
    let level := level + effect n.flag
    -- all nodes at one address are one step
    if l.head?.map Node.addr = some n.addr then sweep level v l
    else if isValid level ≠ v then n.addr :: sweep level (isValid level) l
    else sweep level (isValid level) l

def memmapProcess (nodes : List Node) : List Nat := sweep (0, 0) false (sort nodes.length nodes)

def memmapEnumerate (b : List Nat) (num : Nat) : Option (Nat × Nat) :=
  if (num + 1) * 2 > b.length then none else some (b.getD (num * 2) 0, b.getD (num * 2 + 1) 0)

def binSearch (b : List Nat) (addr : Nat) : Nat → Nat → Nat → Nat
  | 0, l, _ => l
  | fuel + 1, l, r =>
    if l < r then
      let m := (l + r) / 2
      if b.getD m 0 > addr then binSearch b addr fuel l m else binSearch b addr fuel (m + 1) r
    else l

def memmapBinSearch (b : List Nat) (addr : Nat) : Nat := binSearch b addr b.length 0 (b.length - 1)

def memmapTest (b : List Nat) (start stop : Nat) : Bool :=
  let i := memmapBinSearch b start
  let j := memmapBinSearch b (stop - 1)
  i % 2 == 1 && i == j

lemma pick_ok (x : Node) (best : Nat) (l : List Node) :
    (pick x best l = none → ∀ y ∈ l, best ≤ y.addr) ∧ ∀ m r, pick x best l = some (m, r) →
      (m :: r).Perm (x :: l) ∧ m.addr < best ∧ ∀ y ∈ l, m.addr ≤ y.addr := by
  induction l generalizing best with
  | nil => simp [pick]
  | cons y l ih =>
    obtain ⟨hnone, hsome⟩ := ih (if y.addr < best then y.addr else best)
    rw [pick]
    split_ifs at hnone hsome ⊢ with hy
    · refine ⟨by split <;> simp, fun m r h => ?_⟩
      split at h
      next m' r' hp =>
        obtain ⟨rfl, rfl⟩ := Prod.mk.inj (Option.some.inj h)
        obtain ⟨hperm, hlt, hle⟩ := hsome _ _ hp
        exact ⟨(List.Perm.swap ..).trans ((hperm.cons y).trans (.swap ..)), hlt.trans hy, by simpa [hlt.le] using hle⟩
      next hp =>
        obtain ⟨rfl, rfl⟩ := Prod.mk.inj (Option.some.inj h)
        exact ⟨.swap .., hy, by simpa using hnone hp⟩
    refine ⟨fun h => ?_, fun m r h => ?_⟩
    · simpa [Nat.not_lt.mp hy] using hnone (Option.map_eq_none_iff.mp h)
    obtain ⟨⟨m', r'⟩, hp, heq⟩ := Option.map_eq_some_iff.mp h
    obtain ⟨rfl, rfl⟩ := Prod.mk.inj heq
    obtain ⟨hperm, hlt, hle⟩ := hsome _ _ hp
    exact ⟨(List.Perm.swap ..).trans ((hperm.cons y).trans (.swap ..)), hlt,
      by simpa [(hlt.trans_le (Nat.not_lt.mp hy)).le] using hle⟩

lemma sort_ok (n : Nat) (l : List Node) (hn : l.length ≤ n) :
    (sort n l).Perm l ∧ (sort n l).Pairwise fun x y => x.addr ≤ y.addr := by
  induction n generalizing l with
  | zero => simp [List.eq_nil_of_length_eq_zero (Nat.le_zero.mp hn), sort]
  | succ n ih =>
    cases l with
    | nil => simp [sort]
    | cons x l =>
      obtain ⟨hnone, hsome⟩ := pick_ok x x.addr l
      rw [sort]
      split
      next m r hp =>
        obtain ⟨hperm, hlt, hle⟩ := hsome _ _ hp
        have hlen := hperm.length_eq
        obtain ⟨hp', hs⟩ := ih r (by simp only [List.length_cons] at hlen hn; omega)
        refine ⟨(hp'.cons m).trans hperm, List.pairwise_cons.mpr ⟨fun y hy => ?_, hs⟩⟩
        have hmem : y ∈ x :: l := hperm.subset (.tail m (hp'.subset hy))
        rcases List.mem_cons.mp hmem with rfl | hy
        · exact hlt.le
        · exact hle y hy
      next hp =>
        obtain ⟨hp', hs⟩ := ih l (Nat.le_of_succ_le_succ hn)
        exact ⟨hp'.cons x, List.pairwise_cons.mpr ⟨fun y hy => hnone hp y (hp'.subset hy), hs⟩⟩

lemma mem_sweep (h : a ∈ sweep v last l) : ∃ n ∈ l, n.addr = a := by
  induction l generalizing v last with
  | nil => cases h
  | cons n l ih =>
    rw [sweep] at h
    split_ifs at h
    · simpa using .inr (ih h)
    · rcases List.mem_cons.mp h with rfl | h
      · simp
      · simpa using .inr (ih h)
    · simpa using .inr (ih h)

lemma lt_of_head (hs : (n :: l).Pairwise fun x y : Node => x.addr ≤ y.addr) (hn : l.head?.map Node.addr ≠ some n.addr)
    (hm : m ∈ l) : n.addr < m.addr := by
  obtain ⟨hle, hs⟩ := List.pairwise_cons.mp hs
  cases l with
  | nil => cases hm
  | cons k l =>
    have hk := hle k (.head _ ..)
    have hne : k.addr ≠ n.addr := by simpa using hn
    rcases List.mem_cons.mp hm with rfl | hm
    · omega
    · have := (List.pairwise_cons.mp hs).1 m hm
      omega

lemma sweep_sorted (hs : l.Pairwise fun x y => x.addr ≤ y.addr) : (sweep v last l).Pairwise (· < ·) := by
  induction l generalizing v last with
  | nil => exact .nil
  | cons n l ih =>
    have hs' := (List.pairwise_cons.mp hs).2
    rw [sweep]
    split_ifs with hn
    · exact ih hs'
    · refine List.pairwise_cons.mpr ⟨fun a ha => ?_, ih hs'⟩
      obtain ⟨m, hm, rfl⟩ := mem_sweep ha
      exact lt_of_head hs hn hm
    · exact ih hs'

def level (l : List Node) (a : Nat) : Int × Int := ((l.filter (·.addr ≤ a)).map fun n => effect n.flag).sum

lemma sweep_count (hs : l.Pairwise fun x y => x.addr ≤ y.addr) (ha : (∃ n ∈ l.head?, n.addr ≤ a) ∨ isValid v = last) :
    (sweep v last l).countP (· ≤ a) % 2 = 1 ↔ isValid (v + level l a) ≠ last := by
  induction l generalizing v last with
  | nil => simpa [sweep, level] using ha
  | cons n l ih =>
    have hs' := (List.pairwise_cons.mp hs).2
    by_cases hn : n.addr ≤ a
    · have hlevel : level (n :: l) a = effect n.flag + level l a := by simp [level, hn]
      rw [sweep, hlevel, ← add_assoc]
      split_ifs with hhead hv
      · obtain ⟨m, hm, hmn⟩ := Option.map_eq_some_iff.mp hhead
        exact ih hs' (.inl ⟨m, hm, hmn ▸ hn⟩)
      · have ih := ih hs' (.inr (rfl : isValid (v + effect n.flag) = _))
        -- one more boundary, and validity has changed once more
        have hflip (k : Nat) : (k + 1) % 2 = 1 ↔ ¬ k % 2 = 1 := by omega
        have hbool : ∀ x y z : Bool, y ≠ z → (¬ x ≠ y ↔ x ≠ z) := by decide
        rw [List.countP_cons_of_pos (by simpa using hn), hflip, ih]
        exact hbool _ _ _ hv
      · rw [ih hs' (.inr rfl), not_not.mp hv]
    · -- the sweep has not come to `a` yet
      have hall : ∀ m ∈ n :: l, ¬ m.addr ≤ a := by
        intro m hm
        rcases List.mem_cons.mp hm with rfl | hm
        · exact hn
        · have := (List.pairwise_cons.mp hs).1 m hm
          omega
      have hnone : (sweep v last (n :: l)).countP (· ≤ a) = 0 := by
        rw [List.countP_eq_zero]
        intro x hx
        obtain ⟨m, hm, rfl⟩ := mem_sweep hx
        simpa using hall m hm
      have hlevel : level (n :: l) a = 0 := by
        rw [level, List.filter_eq_nil_iff.mpr (by simpa using hall)]
        rfl
      have hv : isValid v = last := ha.resolve_left (by simpa using hn)
      simp [hnone, hlevel, hv]

lemma getD_le_iff (hb : b.Pairwise (· < ·)) (hi : i < b.length) : b.getD i 0 ≤ a ↔ i < b.countP (· ≤ a) := by
  induction b generalizing i with
  | nil => cases hi
  | cons x b ih =>
    obtain ⟨hx, hb⟩ := List.pairwise_cons.mp hb
    by_cases hxa : x ≤ a
    · rw [List.countP_cons_of_pos (by simpa using hxa)]
      cases i with
      | zero => simpa using hxa
      | succ i => simpa using ih hb (Nat.lt_of_succ_lt_succ hi)
    have hnone : (x :: b).countP (· ≤ a) = 0 := by
      rw [List.countP_eq_zero]
      rintro y hy
      rcases List.mem_cons.mp hy with rfl | hy
      · simpa using hxa
      have := hx y hy
      simp
      omega
    rw [hnone]
    cases i with
    | zero => simpa using hxa
    | succ i =>
      have hmem : b.getD i 0 ∈ b := by simp [List.getElem?_eq_getElem (Nat.lt_of_succ_lt_succ hi)]
      have := hx _ hmem
      rw [List.getD_cons_succ]
      omega

def InSegment (b : List Nat) (start stop : Nat) : Prop :=
  ∃ num s e, memmapEnumerate b num = some (s, e) ∧ s ≤ start ∧ stop ≤ e

lemma inSegment_iff (hb : b.Pairwise (· < ·)) (heven : b.length % 2 = 0) (h : start < stop) : InSegment b start stop ↔
    b.countP (· ≤ start) % 2 = 1 ∧ b.countP (· ≤ stop - 1) = b.countP (· ≤ start) := by
  have hmono : b.countP (· ≤ start) ≤ b.countP (· ≤ stop - 1) :=
    List.countP_mono_left fun x _ hx => by simp only [decide_eq_true_eq] at hx ⊢; omega
  have hlen := List.countP_le_length (p := (· ≤ start)) (l := b)
  constructor
  · rintro ⟨num, s, e, hnum, hs, he⟩
    rw [memmapEnumerate] at hnum
    split at hnum
    · cases hnum
    next hroom =>
      obtain ⟨rfl, rfl⟩ := Prod.mk.inj (Option.some.inj hnum)
      have h1 := (getD_le_iff hb (by omega)).mp hs
      have h2 := (getD_le_iff hb (i := num * 2 + 1) (a := stop - 1) (by omega)).not.mp (by omega)
      omega
  · rintro ⟨hodd, heq⟩
    obtain ⟨num, hnum⟩ : ∃ num, b.countP (· ≤ start) = num * 2 + 1 := ⟨b.countP (· ≤ start) / 2, by omega⟩
    refine ⟨num, _, _, if_neg (by omega), (getD_le_iff hb (by omega)).mpr (by omega), ?_⟩
    have := (getD_le_iff hb (i := num * 2 + 1) (a := stop - 1) (by omega)).not.mpr (by omega)
    omega

def cover (ranges : List Range) (a : Nat) (p : Int → Bool) : Nat :=
  ranges.countP fun r => decide (r.start ≤ a ∧ a < r.stop) && p r.type

/-- More free ranges than others, or as many and a reclaimable one. -/
def Usable (ranges : List Range) (a : Nat) : Prop :=
  let d : Int := cover ranges a (· = 1) - cover ranges a fun t => t ≠ 1 && t ≠ 3
  0 < d ∨ d = 0 ∧ 0 < cover ranges a (· = 3)

lemma level_perm (h : l.Perm nodes) : level l a = level nodes a := ((h.filter _).map _).sum_eq

lemma level_append (r : Range) : level (memmapAppend nodes r) a = level nodes a +
    ((if r.start ≤ a then effect r.type else 0) + if r.stop ≤ a then effect (-r.type) else 0) := by
  by_cases h1 : r.start ≤ a <;> by_cases h2 : r.stop ≤ a <;> simp [level, memmapAppend, h1, h2]

lemma effect_pos (h : 0 < t) : effect t = if t = 1 then (1, 0) else if t = 3 then (0, 1) else (-1, 0) := by
  rw [effect, if_neg (show t ≠ -1 by omega), if_neg (show t ≠ -3 by omega), if_pos h]

lemma effect_neg (h : 0 < t) : effect (-t) = -effect t := by
  rw [effect_pos h, effect]
  split_ifs <;> first | rfl | omega

lemma level_ranges (hr : ∀ r ∈ ranges, r.start < r.stop ∧ 0 < r.type) (nodes : List Node) :
    level (ranges.foldl memmapAppend nodes) a = level nodes a +
      ((cover ranges a (· = 1) : Int) - cover ranges a fun t => t ≠ 1 && t ≠ 3, (cover ranges a (· = 3) : Int)) := by
  induction ranges generalizing nodes with
  | nil => simp [cover]
  | cons r rs ih =>
    obtain ⟨hlt, hpos⟩ := hr r (.head _ ..)
    rw [List.foldl_cons, ih (fun r h => hr r (List.mem_cons_of_mem _ h)), level_append, effect_neg hpos, effect_pos hpos,
      add_assoc]
    congr 1
    simp only [cover, List.countP_cons]
    by_cases h1 : r.start ≤ a
    · by_cases h2 : r.stop ≤ a
      · simp [h1, h2, Nat.not_lt.mpr h2]
      by_cases ht : r.type = 1
      · simp [h1, h2, Nat.not_le.mp h2, ht, Prod.ext_iff]
        omega
      by_cases ht' : r.type = 3
      · simp [h1, h2, Nat.not_le.mp h2, ht', Prod.ext_iff]
        omega
      · simp [h1, h2, Nat.not_le.mp h2, ht, ht', Prod.ext_iff]
        omega
    · simp [h1, show ¬ r.stop ≤ a by omega]

lemma memmapProcess_ok (hr : ∀ r ∈ ranges, r.start < r.stop ∧ 0 < r.type)
    (hb : b = memmapProcess (ranges.foldl memmapAppend [])) :
    b.Pairwise (· < ·) ∧ b.length % 2 = 0 ∧ ∀ a, b.countP (· ≤ a) % 2 = 1 ↔ Usable ranges a := by
  obtain ⟨hperm, hs⟩ := sort_ok _ (ranges.foldl memmapAppend []) (Nat.le_refl _)
  have hcount a : b.countP (· ≤ a) % 2 = 1 ↔ Usable ranges a := by
    have hzero : isValid (0, 0) = false := rfl
    rw [hb, memmapProcess, sweep_count hs (.inr hzero), level_perm hperm, level_ranges hr]
    simp only [level, isValid, Usable, List.filter_nil, List.map_nil, List.sum_nil, zero_add, Prod.mk_zero_zero]
    generalize cover ranges a (fun t => t ≠ 1 && t ≠ 3) = others
    split_ifs <;> simp only [gt_iff_lt, ne_eq, decide_eq_false_iff_not, not_not] <;> omega
  refine ⟨hb ▸ sweep_sorted hs, ?_, hcount⟩
  -- nothing is usable above every range
  let top := b.sum + (ranges.map Range.stop).sum
  have hlen : b.countP (· ≤ top) = b.length := List.countP_eq_length.mpr fun x hx => by
    have := List.le_sum_of_mem hx
    simp [top]
    omega
  have hno p : cover ranges top p = 0 := List.countP_eq_zero.mpr fun r hr => by
    have := List.le_sum_of_mem (List.mem_map_of_mem (f := Range.stop) hr)
    simp [top]
    omega
  have hend := (hcount top).not.mpr (by simp [Usable, hno])
  omega

/-- The boundaries are those of the usable memory. -/
theorem memmap_exact (hr : ∀ r ∈ ranges, r.start < r.stop ∧ 0 < r.type)
    (hb : b = memmapProcess (ranges.foldl memmapAppend [])) :
    b.Pairwise (· < ·) ∧ b.length % 2 = 0 ∧ ∀ a, InSegment b a (a + 1) ↔ Usable ranges a := by
  obtain ⟨hsorted, heven, hcount⟩ := memmapProcess_ok hr hb
  refine ⟨hsorted, heven, fun a => ?_⟩
  rw [inSegment_iff hsorted heven (Nat.lt_succ_self a), Nat.succ_sub_one, and_iff_left rfl, hcount]

theorem memmap_exact_hole : ∃ b, b = memmapProcess ([⟨0, 9, 1⟩, ⟨2, 5, 2⟩].foldl memmapAppend []) ∧ b = [0, 2, 5, 9] ∧
    ∀ a, InSegment b a (a + 1) ↔ Usable [⟨0, 9, 1⟩, ⟨2, 5, 2⟩] a :=
  ⟨_, rfl, by decide, (memmap_exact (by decide) rfl).2.2⟩

lemma binSearch_ok (hb : b.Pairwise (· < ·)) (fuel l r : Nat) (hlr : l ≤ r) (hr : r < b.length) (hf : r < l + fuel)
    (hlow : l ≤ b.countP (· ≤ a)) (hhigh : r + 1 = b.length ∨ b.countP (· ≤ a) ≤ r) :
    binSearch b a fuel l r = min (b.countP (· ≤ a)) (b.length - 1) := by
  induction fuel generalizing l r with
  | zero => omega
  | succ fuel ih =>
    have hmid := getD_le_iff (a := a) hb (show (l + r) / 2 < b.length by omega)
    rw [binSearch]
    dsimp only
    split_ifs
    · exact ih _ _ (by omega) (by omega) (by omega) hlow (.inr (by omega))
    · exact ih _ _ (by omega) hr (by omega) (by omega) hhigh
    · omega

lemma memmapBinSearch_eq (hb : b.Pairwise (· < ·)) : memmapBinSearch b a = min (b.countP (· ≤ a)) (b.length - 1) := by
  cases b with
  | nil => rfl
  | cons x b => exact binSearch_ok hb _ _ _ (Nat.zero_le _) (by simp) (by simp) (Nat.zero_le _) (.inl (by simp))

/-- The test is right unless the range begins in the last segment or behind it
and ends behind it. -/
theorem memmapTest_iff (hr : ∀ r ∈ ranges, r.start < r.stop ∧ 0 < r.type)
    (hb : b = memmapProcess (ranges.foldl memmapAppend [])) (h : start < stop) :
    (memmapTest b start stop = true ↔ InSegment b start stop) ↔
    ¬ (b ≠ [] ∧ b.getD (b.length - 2) 0 ≤ start ∧ b.getD (b.length - 1) 0 < stop) := by
  obtain ⟨hsorted, heven, -⟩ := memmapProcess_ok hr hb
  have hmono : b.countP (· ≤ start) ≤ b.countP (· ≤ stop - 1) :=
    List.countP_mono_left fun x _ hx => by simp only [decide_eq_true_eq] at hx ⊢; omega
  have hlen := List.countP_le_length (p := (· ≤ stop - 1)) (l := b)
  rw [inSegment_iff hsorted heven h]
  -- both indices are counts, except behind the last boundary
  simp only [memmapTest, memmapBinSearch_eq hsorted, Bool.and_eq_true, beq_iff_eq, ne_eq, ← List.length_eq_zero_iff]
  by_cases hempty : b.length = 0
  · simp only [hempty, not_true, false_and, not_false_eq_true, iff_true]
    omega
  have h1 := getD_le_iff (a := start) hsorted (show b.length - 2 < b.length by omega)
  have h2 := getD_le_iff (a := stop - 1) hsorted (show b.length - 1 < b.length by omega)
  omega

theorem memmapTest_inside : ∃ b, b = memmapProcess ([⟨0, 9, 1⟩].foldl memmapAppend []) ∧
    (memmapTest b 2 5 = true ↔ InSegment b 2 5) :=
  ⟨_, rfl, (memmapTest_iff (by decide) rfl (by decide)).mpr (by decide)⟩

/-- Nothing is usable behind the only range. -/
theorem memmapTest_behind : ∃ b, b = memmapProcess ([⟨0, 9, 1⟩].foldl memmapAppend []) ∧
    memmapTest b 20 30 = true ∧ ¬ InSegment b 20 30 := by
  refine ⟨[0, 9], by decide, by decide, ?_⟩
  rw [inSegment_iff (by decide) (by decide) (by decide)]
  decide

end Ucore.Supervisor.Memmap
