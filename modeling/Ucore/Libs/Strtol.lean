import Mathlib.Tactic.Ring
import Ucore.Libs.Printfmt

/-!
# Numbers read back

`strtol` of what `snprintf` has printed. Digits are related to their number by the sum
that `strtol` accumulates, so that `printnum` adds one digit behind it and `strtol` reads it from the front.
-/

namespace Ucore.Libs

variable {base num k n a : Nat} {w : Int} {ds : List Nat} {l : List Char} {mem : Nat → Char}

def digitOf (c : Char) : Option Nat :=
  if '0' ≤ c ∧ c ≤ '9' then some (c.toNat - 48)
  else if 'a' ≤ c ∧ c ≤ 'z' then some (c.toNat - 97 + 10)
  else if 'A' ≤ c ∧ c ≤ 'Z' then some (c.toNat - 65 + 10)
  else none

def strtolLoop (base : Nat) (val : BitVec 64) : List Char → BitVec 64 × List Char
  | [] => (val, [])
  | c :: s =>
    match digitOf c with
    | some dig => if dig ≥ base then (val, c :: s) else strtolLoop base (val * .ofNat 64 base + .ofNat 64 dig) s
    | none => (val, c :: s)

/-- `strtol` of a string; `endptr` is the string that is left. -/
def strtol (s : List Char) (base : Nat) : BitVec 64 × List Char :=
  let s := s.dropWhile fun c => c = ' ' ∨ c = '\t'
  let neg := s.head? = some '-'
  let s := if s.head? = some '+' ∨ neg then s.tail else s
  let (base, s) :=
    if (base = 0 ∨ base = 16) ∧ s.take 2 = ['0', 'x'] then (16, s.drop 2)
    else if base = 0 ∧ s.head? = some '0' then (8, s.tail)
    else if base = 0 then (10, s)
    else (base, s)
  let (val, s) := strtolLoop base 0 s
  (if neg then -val else val, s)

def cstring (mem : Nat → Char) (a : Nat) : Nat → List Char
  | 0 => []
  | n + 1 => if mem a = '\x00' then [] else mem a :: cstring mem (a + 1) n

lemma cstring_eq (hn : l.length < n) (htext : ∀ i < l.length, mem (a + i) = l.getD i ' ') (hne : '\x00' ∉ l)
    (hnul : mem (a + l.length) = '\x00') : cstring mem a n = l := by
  induction l generalizing a n with
  | nil =>
    cases n with
    | zero => rfl
    | succ n => exact if_pos hnul
  | cons c l ih =>
    cases n with
    | zero => cases hn
    | succ n =>
      have hc : mem a = c := htext 0 (Nat.succ_pos _)
      rw [List.mem_cons, not_or] at hne
      have hrest i : a + 1 + i = a + (i + 1) := by omega
      rw [cstring, hc, if_neg (Ne.symm hne.1), ih (Nat.lt_of_succ_lt_succ hn) _ hne.2 (hrest l.length ▸ hnul)]
      exact fun i hi => hrest i ▸ htext (i + 1) (Nat.succ_lt_succ hi)

structure Digits (base : Nat) (ds : List Nat) (num : Nat) : Prop where
  pos : ds ≠ []
  lt : ∀ d ∈ ds, d < base
  value : ds.foldl (fun v d => v * base + d) 0 = num

lemma printnum_push (hbase : 2 ≤ base) (hk : 0 < k) (hnum : num < base ^ k) (hw : (k : Int) - 2 ^ 31 ≤ w) (hw0 : w ≤ 0)
    (l : List Int) (padc : Char) : ∃ ds, Digits base ds num ∧ ds.length ≤ k ∧
      printnum push l num base w padc = l ++ (ds.map digit).map charInt := by
  induction k generalizing num w with
  | zero => cases hk
  | succ k ih =>
    have hint : int (w - 1) = w - 1 := Int.bmod_eq_of_le (by omega) (by omega)
    rw [printnum, hint]
    by_cases hn : base ≤ num
    · have hk : 0 < k := Nat.pos_of_ne_zero fun hk => by simp [hk] at hnum; omega
      have hdiv : num / base < base ^ k := Nat.div_lt_of_lt_mul (by rwa [← Nat.pow_succ'])
      obtain ⟨ds, hds, hlen, heq⟩ := ih hk hdiv (w := w - 1) (by omega) (by omega)
      refine ⟨ds ++ [num % base], ⟨by simp, fun d hd => ?_, ?_⟩, by simpa using hlen, ?_⟩
      · rcases List.mem_append.mp hd with hd | hd
        · exact hds.lt d hd
        · rw [List.mem_singleton.mp hd]
          exact Nat.mod_lt _ (by omega)
      · rw [List.foldl_append, hds.value]
        exact Nat.div_add_mod' ..
      · rw [if_pos ⟨hn, hbase⟩, heq, push]
        simp
    · refine ⟨[num], ⟨by simp, by simpa using hn, by simp⟩, hk, ?_⟩
      rw [if_neg (by omega), Int.toNat_of_nonpos (by omega), pad, Nat.mod_eq_of_lt (by omega)]
      rfl

lemma digitOf_digit : ∀ d < 16, digitOf (digit d) = some d := by decide

lemma strtolLoop_digits (hbase : base ≤ 16) (hds : ∀ d ∈ ds, d < base) (n : Nat) :
    strtolLoop base (.ofNat 64 n) (ds.map digit) = (.ofNat 64 (ds.foldl (fun v d => v * base + d) n), []) := by
  induction ds generalizing n with
  | nil => rfl
  | cons d ds ih =>
    obtain ⟨hd, hds⟩ := List.forall_mem_cons.mp hds
    rw [List.map_cons, strtolLoop, digitOf_digit d (by omega)]
    dsimp only
    rw [if_neg (by omega), ← BitVec.ofNat_mul, ← BitVec.ofNat_add, ih hds, List.foldl_cons]

lemma strtol_digits (h : Digits base ds num) (hb : base ≠ 0) (hbase : base ≤ 16) :
    strtol (ds.map digit) base = (.ofNat 64 num, []) ∧ strtol ('-' :: ds.map digit) base = (-.ofNat 64 num, []) := by
  have hloop := strtolLoop_digits hbase h.lt 0
  rw [h.value] at hloop
  have hplain d (hd : d ∈ ds) : digit d ∉ [' ', '\t', '+', '-', 'x'] :=
    (by decide : ∀ d < 16, digit d ∉ [' ', '\t', '+', '-', 'x']) d ((h.lt d hd).trans_le hbase)
  obtain ⟨d, ds, rfl⟩ := List.exists_cons_of_ne_nil h.pos
  have hd := hplain d (.head _ ..)
  have hx : (ds.map digit).take 1 ≠ ['x'] := by
    cases ds with
    | nil => simp
    | cons e ds =>
      have he := hplain e (by simp)
      simp only [List.mem_cons, not_or] at he
      simp [he]
  simp only [List.mem_cons, not_or, List.map_cons] at hd hloop ⊢
  constructor <;> simp [strtol, hd, hx, hb, hloop]

def Prints (v : BitVec 64) (base : Nat) (s : Option (List Int)) : Prop :=
  ∃ txt : List Char, s = some (txt.map charInt) ∧ txt.length ≤ 22 ∧ (∀ c ∈ txt, c = '-' ∨ ∃ d < 16, c = digit d) ∧
    strtol txt base = (v, [])

lemma prints_unsigned (v : BitVec 64) (hb : 2 ≤ base) (hbase : base ≤ 16) (hv : 2 ^ 64 ≤ base ^ 22) :
    Prints v base (some (printnum push [] v.toNat base (-1) ' ')) := by
  obtain ⟨ds, hds, hlen, heq⟩ := printnum_push hb (k := 22) (by decide) (v.isLt.trans_le hv) (w := -1) (by decide)
    (by decide) [] ' '
  refine ⟨ds.map digit, by rw [heq, List.nil_append], by simpa using hlen, fun c hc => ?_, ?_⟩
  · obtain ⟨d, hd, rfl⟩ := List.mem_map.mp hc
    exact .inr ⟨d, (hds.lt d hd).trans_le hbase, rfl⟩
  · rw [(strtol_digits hds (by omega) hbase).1, BitVec.ofNat_toNat, BitVec.setWidth_eq]

lemma prints_signed (v : BitVec 64) : Prints v 10
    (some (printnum push (if v.toInt < 0 then [charInt '-'] else []) v.toInt.natAbs 10 (-1) ' ')) := by
  have hlo := BitVec.le_toInt v
  have hhi := BitVec.toInt_lt (x := v)
  have hnum : v.toInt.natAbs < 10 ^ 19 := by omega
  obtain ⟨ds, hds, hlen, heq⟩ := printnum_push (by decide) (by decide) hnum (w := -1) (by decide) (by decide)
    (if v.toInt < 0 then [charInt '-'] else []) ' '
  have hdigit c (hc : c ∈ ds.map digit) : ∃ d < 16, c = digit d := by
    obtain ⟨d, hd, rfl⟩ := List.mem_map.mp hc
    exact ⟨d, (hds.lt d hd).trans_le (by decide), rfl⟩
  obtain ⟨hpos, hneg⟩ := strtol_digits hds (by decide) (by decide)
  rw [heq]
  by_cases hv : v.toInt < 0
  · refine ⟨'-' :: ds.map digit, by simp [hv], by simp; omega, fun c hc => ?_, ?_⟩
    · exact (List.mem_cons.mp hc).imp_right (hdigit c)
    · rw [hneg, ← BitVec.ofInt_natCast, ← BitVec.ofInt_neg,
        show -(v.toInt.natAbs : Int) = v.toInt by omega, BitVec.ofInt_toInt]
  · refine ⟨ds.map digit, by simp [hv], by simp; omega, fun c hc => .inr (hdigit c hc), ?_⟩
    rw [hpos, ← BitVec.ofInt_natCast, show (v.toInt.natAbs : Int) = v.toInt by omega, BitVec.ofInt_toInt]

lemma vprintfmt_long (v : BitVec 64) (hp : p ∈ [('d', 10), ('x', 16), ('o', 8)]) :
    Prints v p.2 (vprintfmt push [] [⟨v, none⟩] ['%', 'l', p.1]) := by
  have hconvert c (hc : c ∈ ['d', 'x', 'o']) : vprintfmt push [] [⟨v, none⟩] ['%', 'l', c] =
      convert (format (fun _ _ _ => none) push) push [] { lflag := 1 } ⟨v, none⟩ c := by
    simp only [List.mem_cons, List.not_mem_nil, or_false] at hc
    rcases hc with rfl | rfl | rfl <;>
      simp [vprintfmt, format_escape, escape, reswitch, Char.isDigit, Option.bind_map, format]
  simp only [List.mem_cons, List.not_mem_nil, or_false] at hp
  rcases hp with rfl | rfl | rfl <;> rw [hconvert _ (by decide)]
  · exact prints_signed v
  · exact prints_unsigned v (by decide) (by decide) (by decide)
  · exact prints_unsigned v (by decide) (by decide) (by decide)

/-- If the text fits, which takes at most 23 bytes, `strtol` yields the number and stops at the NUL. -/
theorem strtol_snprintf (mem : Nat → Char) (v : BitVec 64) (hp : p ∈ [('d', 10), ('x', 16), ('o', 8)])
    (hstr : str ≠ 0) (hsize : 1 ≤ size) (hroom : str + size ≤ 2 ^ 64) :
    ∃ (n : Nat) (mem' : _), vsnprintf mem str size ['%', 'l', p.1] [⟨v, none⟩] = some (↑n, mem') ∧ n ≤ 22 ∧
    (n < size → strtol (cstring mem' str size) p.2 = (v, [])) := by
  obtain ⟨txt, hout, hlen, hchars, hread⟩ := vprintfmt_long v hp
  obtain ⟨mem', heq, hstored⟩ := vsnprintf_ok mem hstr hsize hroom hout
  rw [List.length_map] at heq
  refine ⟨txt.length, mem', heq.trans (by rw [(int_eq_iff _).mpr (by omega)]), hlen, fun hfit => ?_⟩
  have hback : ∀ c ∈ txt, toChar (charInt c) = c ∧ c ≠ '\x00' := by
    intro c hc
    rcases hchars c hc with rfl | ⟨d, hd, rfl⟩
    · decide
    · exact (by decide : ∀ d < 16, toChar (charInt (digit d)) = digit d ∧ digit d ≠ '\x00') d hd
  have hmin : min (txt.map charInt).length (size - 1) = txt.length := by
    rw [List.length_map]
    omega
  obtain ⟨htext, hnul, -⟩ := hstored
  rw [hmin] at htext hnul
  rw [cstring_eq hfit (fun i hi => ?_) (fun h0 => (hback _ h0).2 rfl) hnul, hread]
  rw [htext i hi]
  simpa [hi] using (hback _ (List.getElem_mem hi)).1

theorem strtol_snprintf_least : ∃ (n : Nat) (mem' : _),
    vsnprintf (fun _ => 'z') 64 32 ['%', 'l', 'd'] [⟨.intMin 64, none⟩] = some (↑n, mem') ∧
    strtol (cstring mem' 64 32) 10 = (.intMin 64, []) := by
  obtain ⟨n, mem', h, hn, hread⟩ := strtol_snprintf (fun _ => 'z') (p := ('d', 10)) (.intMin 64) (by decide)
    (show 64 ≠ 0 by decide) (show 1 ≤ 32 by decide) (by decide)
  exact ⟨n, mem', h, hread (by omega)⟩

end Ucore.Libs
