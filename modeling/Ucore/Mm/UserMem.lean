import Ucore.Lib.Safe
import Ucore.Mm.VmmOps

/-!
# Checked accesses to user memory

`user_mem_check` decides before the copy, `do_pgfault` decides again for each page the
copy touches.
-/

namespace Ucore.Mm

open Lib

/-- The loop of `user_mem_check`, one area after the other. -/
def userMemLoop (write : Bool) (stop : Nat) : Nat → MmStruct → Nat → Except Panic (Bool × MmStruct)
  | 0, _, _ => .error .hang
  | fuel + 1, mm, start =>
    if start < stop then do
      match ← findVma mm start with
      | (none, mm) => return (false, mm)
      | (some id, mm) =>
        let vma := mm.vma id
        if start < vma.vmStart then return (false, mm)
        else if !(if write then vma.vmFlags.write else vma.vmFlags.read) then return (false, mm)
        else if write && vma.vmFlags.stack && decide (start < vma.vmStart + pgSize) then
          return (false, mm)
        else userMemLoop write stop fuel mm vma.vmEnd
    else .ok (true, mm)

def userMemCheck (mm : MmStruct) (addr len : Nat) (write : Bool) : Except Panic (Bool × MmStruct) :=
  if userAccess addr (addWrap addr len) then
    userMemLoop write (addWrap addr len) (mm.mapCount + 1) mm addr
  else .ok (false, mm)

/-- The tests of `do_pgfault` on the flags of the area: the first page of a
stack is a guard, and the `switch` over the error code. -/
def Vma.faultOk (v : Vma) (errorCode a : Nat) : Bool :=
  !(v.vmFlags.stack && decide (a < v.vmStart + pgSize)) &&
    match errorCode % 4 with
    | 0 => v.vmFlags.read || v.vmFlags.exec
    | 1 => false
    | _ => v.vmFlags.write

/-- The first half of `do_pgfault`: the area of the address, or `-E_INVAL`.
The rest of the handler fails with other errors only. -/
def pgfaultVma (mm : MmStruct) (errorCode addr : Nat) : Except Panic (Except Errno Nat × MmStruct) := do
  match ← findVma mm addr with
  | (none, mm) => return (.error .inval, mm)
  | (some id, mm) =>
    if (mm.vma id).vmStart > addr then return (.error .inval, mm)
    else if (mm.vma id).faultOk errorCode addr then return (.ok id, mm)
    else return (.error .inval, mm)

inductive Access
  | read
  | write
  deriving DecidableEq, Repr

/-- The error codes a fault of the kernel itself can carry: reads fault on
pages that are not present only, writes also on pages that are read-only. -/
def Access.errorCodes : Access → List Nat
  | .read => [0]
  | .write => [2, 3]

def Refused (mm : MmStruct) (errorCode a : Nat) : Prop :=
  ∃ mm', pgfaultVma mm errorCode a = .ok (.error .inval, mm')

def Permitted (mm : MmStruct) (acc : Access) (start stop : Nat) : Prop :=
  ∀ a, start ≤ a → a < stop → ∀ code ∈ acc.errorCodes, ¬ Refused mm code a

variable {mm mm' : MmStruct} {v : Vma} {a start stop addr len code : Nat} {write : Bool}

def faultVma (mm : MmStruct) (errorCode a : Nat) : Option Nat :=
  (firstAfter mm a).filter fun id => decide ((mm.vma id).vmStart ≤ a) && (mm.vma id).faultOk errorCode a

lemma pgfaultVma_ok (h : Inv mm) (code a : Nat) : ∃ c, Inv { mm with mmapCache := c } ∧ pgfaultVma mm code a =
      .ok ((faultVma mm code a).elim (.error .inval) .ok, { mm with mmapCache := c }) := by
  obtain ⟨c, hfind, hinv⟩ := findVma_ok h a
  refine ⟨c, hinv, ?_⟩
  simp only [pgfaultVma, hfind, bind, Except.bind, pure, Except.pure, faultVma]
  cases hf : firstAfter mm a with
  | none => rfl
  | some id =>
    by_cases h1 : (mm.vma id).vmStart > a <;> cases h2 : (mm.vma id).faultOk code a <;>
      simp [Option.filter_some, h1, h2, Nat.not_lt.mp, Nat.not_le.mpr]

lemma not_refused_iff (h : Inv mm) : ¬ Refused mm code a ↔ ∃ v ∈ mm.space, v.Covers a ∧ v.faultOk code a = true := by
  obtain ⟨c, -, heq⟩ := pgfaultVma_ok h code a
  have harea : (∃ v ∈ mm.space, v.Covers a ∧ v.faultOk code a = true) ↔ ∃ v, areaAt mm a = some v ∧
    v.faultOk code a = true := by
    simp only [areaAt_eq_some h, and_assoc]
  rw [harea]
  simp only [Refused, heq, Except.ok.injEq, Prod.mk.injEq, areaAt, faultVma]
  cases hf : firstAfter mm a with
  | none => simp
  | some id =>
    by_cases h1 : (mm.vma id).vmStart ≤ a <;> cases h2 : (mm.vma id).faultOk code a <;>
      simp [Option.filter_some, h1, h2]

structure Vma.CheckOk (v : Vma) (write : Bool) (a : Nat) : Prop where
  flag : (if write then v.vmFlags.write else v.vmFlags.read) = true
  guard : write = true → v.vmFlags.stack = true → v.vmStart + pgSize ≤ a

lemma firstAfter_of_covers (h : Inv mm) (hv : v ∈ mm.space) (ha : v.Covers a) :
    ∃ id, firstAfter mm a = some id ∧ mm.vma id = v := by
  have hat := (areaAt_eq_some h).mpr ⟨hv, ha⟩
  simp only [areaAt, Option.filter_eq_some_iff, Option.map_eq_some_iff] at hat
  exact hat.1

lemma userMemLoop_ok (fuel start : Nat) (h : Inv mm) (write : Bool) (stop : Nat)
    (hfuel : (mm.areas.filter fun v => decide (start < v.vmEnd)).length < fuel) :
    ∃ b c, userMemLoop write stop fuel mm start = .ok (b, { mm with mmapCache := c }) ∧ Inv { mm with mmapCache := c } ∧
      (b = true ↔ ∀ a, start ≤ a → a < stop → ∃ v ∈ mm.space, v.Covers a ∧ v.CheckOk write a) := by
  induction fuel generalizing mm start with
  | zero => omega
  | succ fuel ih =>
  rw [userMemLoop]
  by_cases hlt : start < stop
  · obtain ⟨c, hfind, hinv⟩ := findVma_ok h start
    simp only [hlt, ↓reduceIte, hfind, bind, Except.bind, pure, Except.pure]
    -- each `return 0` is about the byte at `start` itself
    have hfirst (hall : ∀ a, start ≤ a → a < stop → ∃ v ∈ mm.space, v.Covers a ∧ v.CheckOk write a) :
        ∃ id, firstAfter mm start = some id ∧ (mm.vma id).Covers start ∧ (mm.vma id).CheckOk write start := by
      obtain ⟨v, hv, hcov, hok⟩ := hall start (Nat.le_refl _) hlt
      obtain ⟨id, hf, rfl⟩ := firstAfter_of_covers h hv hcov
      exact ⟨id, hf, hcov, hok⟩
    cases hf : firstAfter mm start with
    | none => exact ⟨false, c, rfl, hinv, by simpa [hf] using hfirst⟩
    | some id =>
      obtain ⟨hid, hend⟩ := firstAfter_mem hf
      have hmem : mm.vma id ∈ mm.areas := List.mem_map_of_mem hid
      simp only [hf, Option.some.injEq, exists_eq_left'] at hfirst
      by_cases h1 : start < (mm.vma id).vmStart
      · refine ⟨false, c, by simp [h1], hinv, by simp, fun hall => ?_⟩
        exact absurd (hfirst hall).1.1 (Nat.not_le.mpr h1)
      by_cases h2 : (if write then (mm.vma id).vmFlags.write else (mm.vma id).vmFlags.read) = true
      swap
      · exact ⟨false, c, by simp [h1, h2], hinv, by simp, fun hall => absurd (hfirst hall).2.flag h2⟩
      by_cases h3 : (write && (mm.vma id).vmFlags.stack &&
          decide (start < (mm.vma id).vmStart + pgSize)) = true
      · refine ⟨false, c, by simp only [h1, h2, h3, Bool.not_true, Bool.false_eq_true, ↓reduceIte],
          hinv, by simp, fun hall => ?_⟩
        simp only [Bool.and_eq_true, decide_eq_true_eq] at h3
        exact absurd ((hfirst hall).2.guard h3.1.1 h3.1.2) (Nat.not_le.mpr h3.2)
      -- on to the end of the area: one area less lies ahead
      have hfewer : (mm.areas.filter fun v => decide ((mm.vma id).vmEnd < v.vmEnd)).length < fuel := by
        have hsub : (mm.areas.filter fun v => decide ((mm.vma id).vmEnd < v.vmEnd)).length <
            (mm.areas.filter fun v => decide (start < v.vmEnd)).length := by
          have hff : mm.areas.filter (fun v => decide ((mm.vma id).vmEnd < v.vmEnd)) =
              (mm.areas.filter fun v => decide (start < v.vmEnd)).filter fun v =>
                decide ((mm.vma id).vmEnd < v.vmEnd) := by
            rw [List.filter_filter]
            refine List.filter_congr fun v _ => ?_
            by_cases hv : (mm.vma id).vmEnd < v.vmEnd
            · simp [hv, Nat.lt_trans hend hv]
            · simp [hv]
          rw [hff, List.length_filter_lt_length_iff_exists]
          exact ⟨mm.vma id, by simp [hmem, hend], by simp⟩
        omega
      obtain ⟨b, c', hloop, hinv', hb⟩ := ih (mm.vma id).vmEnd hinv hfewer
      refine ⟨b, c', by simp only [h1, h2, h3, Bool.not_true, Bool.false_eq_true, ↓reduceIte]; exact hloop,
        hinv', fun hbt a ha1 ha2 => ?_, fun hall => hb.mpr fun a ha => hall a (by omega)⟩
      by_cases ha : a < (mm.vma id).vmEnd
      · refine ⟨_, hmem, ⟨by omega, ha⟩, h2, fun hw hst => ?_⟩
        simp only [hw, hst, Bool.and_self, Bool.true_and, decide_eq_true_eq] at h3
        omega
      · exact hb.mp hbt a (by omega) ha2
  · exact ⟨true, mm.mmapCache, by rw [if_neg hlt], h, fun _ a h1 h2 => by omega, fun _ => rfl⟩

lemma userMemCheck_ok (h : Inv mm) (addr len : Nat) (write : Bool) :
    ∃ b c, userMemCheck mm addr len write = .ok (b, { mm with mmapCache := c }) ∧ Inv { mm with mmapCache := c } ∧
      (b = true ↔ userAccess addr (addWrap addr len) = true ∧ ∀ a, addr ≤ a → a < addWrap addr len →
        ∃ v ∈ mm.space, v.Covers a ∧ v.CheckOk write a) := by
  rw [userMemCheck]
  cases hua : userAccess addr (addWrap addr len) with
  | false => exact ⟨false, mm.mmapCache, rfl, h, by simp⟩
  | true =>
    obtain ⟨b, c, hloop, hinv, hb⟩ :=
      userMemLoop_ok (mm.mapCount + 1) addr h write (addWrap addr len) (Nat.lt_succ_of_le (by
        rw [h.count, ← List.length_map (f := mm.vma)]
        exact List.length_filter_le ..))
    exact ⟨b, c, hloop, hinv, by simpa using hb⟩

/-- In unbounded integers: the range does not wrap, lies in user space, and
each of its bytes is in an area that allows the access. -/
def Accepts (mm : MmStruct) (addr len : Nat) (write : Bool) : Prop :=
  userBase ≤ addr ∧ 0 < len ∧ addr + len ≤ userTop ∧
    ∀ a, addr ≤ a → a < addr + len → ∃ v ∈ mm.space, v.Covers a ∧ v.CheckOk write a

lemma userMemCheck_accepts (h : Inv mm) (write : Bool) (haddr : addr < wordSize) (hlen : len < wordSize) :
    ∃ b c, userMemCheck mm addr len write = .ok (b, { mm with mmapCache := c }) ∧
      Inv { mm with mmapCache := c } ∧ (b = true ↔ Accepts mm addr len write) := by
  obtain ⟨b, c, hcheck, hinv, hb⟩ := userMemCheck_ok h addr len write
  refine ⟨b, c, hcheck, hinv, hb.trans ?_⟩
  rw [userAccess_iff, Accepts]
  by_cases hwrap : addr + len < wordSize
  · rw [addWrap, Nat.mod_eq_of_lt hwrap]
    exact ⟨fun h => ⟨h.1.1, by omega, h.1.2.2, h.2⟩, fun h => ⟨⟨h.1, by omega, h.2.2.1⟩, h.2.2.2⟩⟩
  -- the wrapped end lies below the start
  have hlow : ¬ addr < addWrap addr len := by
    rw [addWrap, Nat.mod_eq_sub_mod (by omega), Nat.mod_eq_of_lt (by omega)]
    omega
  have hhigh : ¬ addr + len ≤ userTop := fun h => hwrap (lt_wordSize h)
  exact ⟨fun h => absurd h.1.2.1 hlow, fun h => absurd h.2.2.1 hhigh⟩

/-- `user_mem_check` decides whether a range may be accessed. -/
theorem userMemCheck_eq_true_iff (h : Inv mm) (addr len : Nat) (write : Bool)
    (haddr : addr < wordSize) (hlen : len < wordSize) :
    ∃ b mm', userMemCheck mm addr len write = .ok (b, mm') ∧ (b = true ↔ Accepts mm addr len write) := by
  obtain ⟨b, c, hcheck, -, hb⟩ := userMemCheck_accepts h write haddr hlen
  exact ⟨b, _, hcheck, hb⟩

def onePage : MmStruct :=
  match mmMap (fun _ => true) mmCreate 0x1000000 0x1000 rwFlags with
  | .ok (_, mm) => mm
  | .error _ => mmCreate

lemma onePage_inv : Inv onePage := by
  obtain ⟨r, mm, hmap, hinv, -⟩ := mmMap_ok mmCreate_inv (fun _ => true) 0x1000000 0x1000 rwFlags
  obtain ⟨rfl, rfl⟩ := Prod.mk.inj (Except.ok.inj hmap)
  exact hinv

/-- Areas of a page each, `step` bytes from one start to the next. -/
def pagesFrom (step : Nat) : Nat → MmStruct
  | 0 => mmCreate
  | n + 1 =>
    match mmMap (fun _ => true) (pagesFrom step n) (0x1000000 + step * n) 0x1000 rwFlags with
    | .ok (_, mm) => mm
    | .error _ => mmCreate

lemma pagesFrom_inv (step n : Nat) : Inv (pagesFrom step n) := by
  induction n with
  | zero => exact mmCreate_inv
  | succ n ih =>
    obtain ⟨r, mm, hmap, hinv, -⟩ := mmMap_ok ih (fun _ => true) (0x1000000 + step * n) 0x1000 rwFlags
    rwa [pagesFrom, hmap]

theorem userMemCheck_page : ∃ v ∈ onePage.space, v.Covers 0x1000003 ∧ v.vmFlags.write = true := by
  obtain ⟨b, mm', hcheck, hb⟩ := userMemCheck_eq_true_iff onePage_inv 0x1000000 8 true (by decide) (by decide)
  obtain ⟨rfl, -⟩ := Prod.mk.inj (Except.ok.inj hcheck)
  obtain ⟨v, hv, hcov, hok⟩ := (hb.mp rfl).2.2.2 0x1000003 (by decide) (by decide)
  exact ⟨v, hv, hcov, hok.flag⟩

def strnlen (mem : Nat → UInt8) (src : Nat) : Nat → Nat
  | 0 => 0
  | n + 1 => if mem src = 0 then 0 else strnlen mem (src + 1) n + 1

def bytesAt (mem : Nat → UInt8) (src n : Nat) : List UInt8 := (List.range n).map fun i => mem (src + i)

/-- What a call did: its result, the bytes it stored from `dst` on, and the
ranges of user memory, start and length, that it read. -/
structure StringCopy where
  ret : Bool
  dst : List UInt8
  reads : List (Nat × Nat)
  mm : MmStruct

/-- The loop of `copy_string`. `src + part` cannot wrap, since the piece was
accepted. -/
def copyStringLoop (mem : Nat → UInt8) : Nat → MmStruct → Nat → Nat → Nat → Except Panic StringCopy
  | 0, _, _, _, _ => .error .hang
  | fuel + 1, mm, src, maxn, part => do
    let part := if part > maxn then maxn else part
    match ← userMemCheck mm src part false with
    | (false, mm) => return ⟨false, [], [], mm⟩
    | (true, mm) =>
      let alen := strnlen mem src part
      if alen < part then return ⟨true, bytesAt mem src (alen + 1), [(src, alen + 1)], mm⟩
      else if part = maxn then return ⟨false, [], [(src, part)], mm⟩
      else
        let rest ← copyStringLoop mem fuel mm (src + part) (maxn - part) pgSize
        return { rest with dst := bytesAt mem src part ++ rest.dst, reads := (src, part) :: rest.reads }

def copyString (mem : Nat → UInt8) (mm : MmStruct) (src maxn : Nat) : Except Panic StringCopy :=
  copyStringLoop mem (maxn + 1) mm src maxn ((roundDown (addWrap src pgSize) + (wordSize - src)) % wordSize)

def FirstNul (mem : Nat → UInt8) (src n : Nat) : Prop := mem (src + n) = 0 ∧ ∀ i < n, mem (src + i) ≠ 0

def PieceOk (mm : MmStruct) (src maxn a : Nat) : Prop :=
  Accepts mm (max src (roundDown a)) (min (src + maxn) (roundDown a + pgSize) - max src (roundDown a)) false

def StringOk (mem : Nat → UInt8) (mm : MmStruct) (src maxn n : Nat) : Prop :=
  n < maxn ∧ FirstNul mem src n ∧ ∀ i ≤ n, PieceOk mm src maxn (src + i)

structure StringCopy.Ok (r : StringCopy) (mem : Nat → UInt8) (mm : MmStruct) (src maxn : Nat) : Prop where
  sound : r.ret = true → ∃ n, StringOk mem mm src maxn n ∧ r.dst = bytesAt mem src (n + 1)
  complete : (∃ n, StringOk mem mm src maxn n) → r.ret = true
  length : r.dst.length ≤ maxn
  reads : ∀ p ∈ r.reads, ∃ len, p.2 ≤ len ∧ Accepts mm p.1 len false

lemma strnlen_ok (mem : Nat → UInt8) (src n : Nat) :
    strnlen mem src n ≤ n ∧ (∀ i < strnlen mem src n, mem (src + i) ≠ 0) ∧
    (strnlen mem src n < n → mem (src + strnlen mem src n) = 0) := by
  induction n generalizing src with
  | zero => simp [strnlen]
  | succ n ih =>
    rw [strnlen]
    split
    · simp [*]
    obtain ⟨hle, hne, hz⟩ := ih (src + 1)
    refine ⟨by omega, fun i hi => ?_, fun hlt => ?_⟩
    · cases i with
      | zero => assumption
      | succ i => simpa only [Nat.add_assoc, Nat.add_comm 1] using hne i (by omega)
    · simpa only [Nat.add_assoc, Nat.add_comm 1] using hz (by omega)

lemma bytesAt_append (mem : Nat → UInt8) (src n m : Nat) :
    bytesAt mem src n ++ bytesAt mem (src + n) m = bytesAt mem src (n + m) := by
  simp [bytesAt, List.range_add, Nat.add_assoc]

lemma pieceOk_first {maxn p i : Nat} (hp : p = min (pgSize - a % pgSize) maxn) (hi : i < p) :
    PieceOk mm a maxn (a + i) ↔ Accepts mm a p false := by
  have hmax : max a (roundDown (a + i)) = a := by
    simp only [roundDown, pgSize] at *
    omega
  have hmin : min (a + maxn) (roundDown (a + i) + pgSize) - a = p := by
    simp only [roundDown, pgSize] at *
    omega
  rw [PieceOk, hmax, hmin]

lemma pieceOk_rest {maxn p i : Nat} (hp : p = pgSize - a % pgSize) (hm : p ≤ maxn) :
    PieceOk mm (a + p) (maxn - p) (a + p + i) ↔ PieceOk mm a maxn (a + (p + i)) := by
  have hlow : a + p ≤ roundDown (a + p + i) := by
    simp only [roundDown, pgSize] at *
    omega
  rw [PieceOk, PieceOk, ← Nat.add_assoc, max_eq_right hlow, max_eq_right (by omega),
    show a + p + (maxn - p) = a + maxn by omega]

lemma stringOk_rest {mem : Nat → UInt8} {src maxn p : Nat} (hp : p = pgSize - src % pgSize) (hle : p ≤ maxn)
    (hne : ∀ i < p, mem (src + i) ≠ 0) (hacc : Accepts mm src p false) (n : Nat) :
    StringOk mem mm (src + p) (maxn - p) n ↔ StringOk mem mm src maxn (p + n) := by
  refine and_congr (by omega) (and_congr ?_ ?_)
  · rw [FirstNul, FirstNul, Nat.add_assoc]
    refine and_congr_right fun _ => ⟨fun hall i hi => ?_, fun hall i hi => ?_⟩
    · by_cases hlt : i < p
      · exact hne i hlt
      · obtain ⟨j, rfl⟩ := Nat.exists_eq_add_of_le (Nat.not_lt.mp hlt)
        simpa only [Nat.add_assoc] using hall j (by omega)
    · simpa only [Nat.add_assoc] using hall (p + i) (by omega)
  · refine ⟨fun hall i hi => ?_, fun hall i hi => (pieceOk_rest hp (by omega)).mpr (hall _ (by omega))⟩
    by_cases hlt : i < p
    · exact (pieceOk_first (by omega) hlt).mpr hacc
    · obtain ⟨j, rfl⟩ := Nat.exists_eq_add_of_le (Nat.not_lt.mp hlt)
      exact (pieceOk_rest hp (by omega)).mp (hall j (by omega))

lemma copyStringLoop_ok (mem : Nat → UInt8) (fuel : Nat) {src maxn part : Nat} (h : Inv mm) (hm : 0 < maxn)
    (hfuel : maxn ≤ fuel) (hpart : part = pgSize - src % pgSize) (hsrc : src < wordSize) (hmax : maxn < wordSize) :
    ∃ r, copyStringLoop mem fuel mm src maxn part = .ok r ∧ r.Ok mem mm src maxn := by
  induction fuel generalizing mm src maxn part with
  | zero => omega
  | succ fuel ih =>
    obtain ⟨p, hp⟩ : ∃ p, p = min part maxn := ⟨_, rfl⟩
    have hclip : (if part > maxn then maxn else part) = p := by split <;> omega
    have hpos : 0 < p := by simp only [pgSize] at hpart; omega
    have hfirst {i : Nat} (hi : i < p) : PieceOk mm src maxn (src + i) ↔ _ := pieceOk_first (hpart ▸ hp) hi
    obtain ⟨b, c, hcheck, hinv, hb⟩ := userMemCheck_accepts h false hsrc (show p < wordSize by omega)
    simp only [copyStringLoop, hclip, hcheck, bind, Except.bind, pure, Except.pure]
    cases b with
    | false =>
      -- the refused piece is the one of the first byte
      have hno (n : Nat) : ¬ StringOk mem mm src maxn n := fun hs =>
        absurd (hb.mpr ((hfirst hpos).mp (hs.2.2 0 (Nat.zero_le n)))) (by simp)
      exact ⟨_, rfl, by simp, by simp [hno], by simp, by simp⟩
    | true =>
    have hacc := hb.mp rfl
    obtain ⟨hle, hne, hz⟩ := strnlen_ok mem src p
    dsimp only
    generalize strnlen mem src p = alen at *
    by_cases h1 : alen < p
    · have hok : StringOk mem mm src maxn alen := ⟨by omega, ⟨hz h1, hne⟩, fun i hi => (hfirst (by omega)).mpr hacc⟩
      rw [if_pos h1]
      exact ⟨_, rfl, fun _ => ⟨alen, hok, rfl⟩, fun _ => rfl, by simp [bytesAt]; omega, by simpa using ⟨p, h1, hacc⟩⟩
    obtain rfl : alen = p := by omega
    rw [if_neg h1]
    by_cases h2 : alen = maxn
    · have hno (n : Nat) : ¬ StringOk mem mm src maxn n := fun hs => hne n (h2 ▸ hs.1) hs.2.1.1
      rw [if_pos h2]
      exact ⟨_, rfl, by simp, by simp [hno], by simp, by simpa using ⟨_, Nat.le_refl _, hacc⟩⟩
    rw [if_neg h2]
    have hp' : alen = pgSize - src % pgSize := by omega
    have htop := lt_wordSize hacc.2.2.1
    obtain ⟨r, hr, hok⟩ := ih hinv (show 0 < maxn - alen by omega) (by omega)
      (show pgSize = pgSize - (src + alen) % pgSize by simp only [pgSize] at *; omega) htop (by omega)
    have hrest := stringOk_rest hp' (show alen ≤ maxn by omega) hne hacc
    have hlen := hok.length
    rw [hr]
    refine ⟨_, rfl, fun hret => ?_, ?_, ?_, ?_⟩
    · obtain ⟨n, hn, hdst⟩ := hok.sound hret
      exact ⟨_, (hrest n).mp hn, by rw [hdst, bytesAt_append, Nat.add_assoc]⟩
    · rintro ⟨n, hn⟩
      obtain ⟨m, rfl⟩ := Nat.exists_eq_add_of_le (Nat.not_lt.mp fun hlt => hne n hlt hn.2.1.1)
      exact hok.complete ⟨m, (hrest m).mpr hn⟩
    · simp only [List.length_append, bytesAt, List.length_map, List.length_range]
      omega
    · simp only [List.mem_cons, forall_eq_or_imp]
      exact ⟨⟨_, Nat.le_refl _, hacc⟩, hok.reads⟩

/-- `copy_string` ends; it succeeds exactly on a string that is checked up to
its NUL, and reads and writes nothing else. -/
theorem copyString_ok (mem : Nat → UInt8) {src maxn : Nat} (h : Inv mm) (hsrc : src < wordSize) (hm : 0 < maxn)
    (hmax : maxn < wordSize) : ∃ r, copyString mem mm src maxn = .ok r ∧ r.Ok mem mm src maxn := by
  refine copyStringLoop_ok mem (maxn + 1) h hm (Nat.le_succ _) ?_ hsrc hmax
  simp only [roundDown, addWrap, wordSize, pgSize] at *
  omega

/-- A string that ends in the third byte of the second page. -/
theorem copyString_crosses : ∃ r,
    copyString (fun a => if a = 0x1001002 then 0 else 65) (pagesFrom 0x1000 2) 0x1000ffe 8 = .ok r ∧
    r.dst = [65, 65, 65, 65, 0] ∧ r.reads = [(0x1000ffe, 2), (0x1001000, 3)] ∧
    StringOk (fun a => if a = 0x1001002 then 0 else 65) (pagesFrom 0x1000 2) 0x1000ffe 8 4 := by
  obtain ⟨r, hr, hok⟩ := copyString_ok (fun a => if a = 0x1001002 then 0 else 65) (pagesFrom_inv 0x1000 2)
    (show 0x1000ffe < wordSize by decide) (show 0 < 8 by decide) (by decide)
  obtain ⟨r', hr', hret, hdst, hreads⟩ : ∃ r,
      copyString (fun a => if a = 0x1001002 then 0 else 65) (pagesFrom 0x1000 2) 0x1000ffe 8 = .ok r ∧
        r.ret = true ∧ r.dst = [65, 65, 65, 65, 0] ∧ r.reads = [(0x1000ffe, 2), (0x1001000, 3)] := by decide +kernel
  obtain rfl := Except.ok.inj (hr'.symm.trans hr)
  obtain ⟨n, hn, hbytes⟩ := hok.sound hret
  obtain rfl : n = 4 := by simpa [hdst, bytesAt, eq_comm] using congrArg List.length hbytes
  exact ⟨r', hr', hdst, hreads, hn⟩

inductive Copy
  | fromUser (writable : Bool)
  | toUser
  | string
  deriving DecidableEq, Repr

def Copy.checksWrite : Copy → Bool
  | .fromUser writable => writable
  | .toUser => true
  | .string => false

def Copy.access : Copy → Access
  | .fromUser _ => .read
  | .toUser => .write
  | .string => .read

/-- What the check leaves open: it never looks at the guard page of a stack
before a read, and never at `VM_READ` and `VM_EXEC` if asked about writing. -/
def Copy.Safe (c : Copy) (mm : MmStruct) (start stop : Nat) : Prop :=
  match c.access, c.checksWrite with
  | .write, _ => True
  | .read, true => ∀ v ∈ mm.space, v.hits start stop = true → v.vmFlags.read = true ∨ v.vmFlags.exec = true
  | .read, false => ∀ v ∈ mm.space, v.vmFlags.stack = true → stop ≤ v.vmStart ∨ v.vmStart + pgSize ≤ start

lemma Vma.Ok.page (hv : v.Ok) : v.vmStart + pgSize ≤ v.vmEnd := by
  have h1 := hv.lt
  have h2 := hv.start
  have h3 := hv.stop
  simp only [pgSize] at *
  omega

structure Vma.Allows (v : Vma) (acc : Access) (a : Nat) : Prop where
  guard : v.vmFlags.stack = true → v.vmStart + pgSize ≤ a
  flag : match acc with
    | .read => v.vmFlags.read = true ∨ v.vmFlags.exec = true
    | .write => v.vmFlags.write = true

lemma allows_iff (acc : Access) : (∀ code ∈ acc.errorCodes, v.faultOk code a = true) ↔ v.Allows acc a := by
  have hguard : (v.vmFlags.stack = true → v.vmStart + pgSize ≤ a) ↔
    (v.vmFlags.stack = false ∨ v.vmStart + pgSize ≤ a) := by
    cases v.vmFlags.stack <;> simp
  constructor
  · intro h
    cases acc <;> simp [Access.errorCodes, Vma.faultOk] at h <;> exact ⟨hguard.mpr h.1, h.2⟩
  · rintro ⟨hg, hf⟩
    cases acc <;> simp [Access.errorCodes, Vma.faultOk, hguard.mp hg] <;> exact hf

lemma permitted_iff (h : Inv mm) (acc : Access) : Permitted mm acc start stop ↔ ∀ a, start ≤ a → a < stop →
    ∃ v ∈ mm.space, v.Covers a ∧ v.Allows acc a := by
  unfold Permitted
  refine forall_congr' fun a => forall_congr' fun _ => forall_congr' fun _ => ?_
  simp only [not_refused_iff h, ← allows_iff]
  constructor
  · intro hc
    obtain ⟨v, hv, hva, -⟩ := hc (acc.errorCodes.head (by cases acc <;> simp [Access.errorCodes])) (List.head_mem _)
    grind [h.unique]
  · grind

/-- A buffer the check accepted can be copied without a fault that
`do_pgfault` refuses, exactly when it avoids what the check leaves open. -/
theorem copy_notRefused_iff (h : Inv mm) (c : Copy) (addr len : Nat)
    (hacc : userMemCheck mm addr len c.checksWrite = .ok (true, mm')) :
    Permitted mm' c.access addr (addWrap addr len) ↔ c.Safe mm addr (addWrap addr len) := by
  obtain ⟨b, cache, hcheck, hinv, hb⟩ := userMemCheck_ok h addr len c.checksWrite
  rw [hcheck] at hacc
  obtain ⟨rfl, rfl⟩ : b = true ∧ _ = mm' := by simpa using hacc
  obtain ⟨hua, hcov⟩ := hb.mp rfl
  have hse := (userAccess_iff.mp hua).2.1
  have hpage : 0 < pgSize := by decide
  rw [permitted_iff hinv]
  change (∀ a, _ → _ → ∃ v ∈ mm.space, _) ↔ _
  simp only [Copy.Safe]
  cases hw : c.access with
  | write =>
    have hcw : c.checksWrite = true := by cases c <;> simp_all [Copy.access, Copy.checksWrite]
    simp only [iff_true]
    intro a h1 h2
    obtain ⟨v, hv, hva, hflag, hguard⟩ := hcov a h1 h2
    exact ⟨v, hv, hva, hguard hcw, by simpa [hcw] using hflag⟩
  | read =>
    cases hcw : c.checksWrite with
    | true =>
      simp only
      constructor
      · -- a common address of the area and the buffer
        intro hp v hv hhit
        rw [Vma.hits_iff] at hhit
        obtain ⟨w, hw, hwa, -, hflag⟩ := hp (max addr v.vmStart) (by omega) (by omega)
        have hlt := (h.ok v hv).lt
        rwa [h.unique hv hw ⟨by omega, by omega⟩ hwa]
      · intro hsafe a h1 h2
        obtain ⟨v, hv, hva, -, hguard⟩ := hcov a h1 h2
        exact ⟨v, hv, hva, hguard hcw, hsafe v hv (Vma.hits_iff.mpr ⟨by have := hva.1; omega,
          by have := hva.2; omega⟩)⟩
    | false =>
      simp only
      constructor
      · intro hp v hv hst
        by_contra hcon
        obtain ⟨w, hw, hwa, hguard, -⟩ := hp (max addr v.vmStart) (by omega) (by omega)
        have hend := (h.ok v hv).page
        rw [← h.unique hv hw ⟨by omega, by omega⟩ hwa] at hguard
        have := hguard hst
        omega
      · intro hsafe a h1 h2
        obtain ⟨v, hv, hva, hflag, -⟩ := hcov a h1 h2
        refine ⟨v, hv, hva, fun hst => ?_, .inl (by simpa [hcw] using hflag)⟩
        have := hva.1
        rcases hsafe v hv hst with h' | h' <;> omega

/-- The guard page of a stack passes the check for a read, and so does an area without
`VM_READ` and `VM_EXEC` for a read that is checked as a write. -/
theorem copy_refused : (∃ mm mm', mmMap (fun _ => true) mmCreate 0x1000000 0x2000
    { read := true, write := true, stack := true } = .ok (.ok 0, mm) ∧
      userMemCheck mm 0x1000000 8 (Copy.fromUser false).checksWrite = .ok (true, mm') ∧
      ¬ Permitted mm' (Copy.fromUser false).access 0x1000000 0x1000008) ∧
    ∃ mm mm', mmMap (fun _ => true) mmCreate 0x1000000 0x1000 { write := true } = .ok (.ok 0, mm) ∧
      userMemCheck mm 0x1000000 8 (Copy.fromUser true).checksWrite = .ok (true, mm') ∧
      ¬ Permitted mm' (Copy.fromUser true).access 0x1000000 0x1000008 := by
  refine ⟨⟨_, _, rfl, rfl, fun h => ?_⟩, _, _, rfl, rfl, fun h => ?_⟩
  · exact h 0x1000000 (by decide) (by decide) 0 (by simp [Copy.access, Access.errorCodes]) ⟨_, rfl⟩
  · exact h 0x1000000 (by decide) (by decide) 0 (by simp [Copy.access, Access.errorCodes]) ⟨_, rfl⟩

theorem copy_notRefused_toUser :
    ∃ mm mm', mmMap (fun _ => true) mmCreate 0x1000000 0x1000 { read := true, write := true } =
        .ok (.ok 0, mm) ∧ userMemCheck mm 0x1000000 8 Copy.toUser.checksWrite = .ok (true, mm') ∧
      (Permitted mm' Copy.toUser.access 0x1000000 (addWrap 0x1000000 8) ↔
        Copy.toUser.Safe mm 0x1000000 (addWrap 0x1000000 8)) := by
  exact ⟨onePage, _, rfl, rfl, copy_notRefused_iff onePage_inv .toUser 0x1000000 8 rfl⟩

end Ucore.Mm
