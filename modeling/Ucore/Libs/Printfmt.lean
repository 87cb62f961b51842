import Mathlib.Algebra.Ring.Int.Defs
import Mathlib.Algebra.Ring.Nat
import Mathlib.Data.List.TakeWhile

/-!
# Formatted output

`vprintfmt` hands its characters to a callback, one at a time. It does not see what
the callback does with them, so that one lemma moves the whole of it from one callback to
another: `vsnprintf` stores what a list would have collected, as far as there is room.
-/

namespace Ucore.Libs

open Function

variable {σ τ : Type}

def int (n : Int) : Int := n.bmod (2 ^ 32)

structure VaArg where
  word : BitVec 64
  text : Option (List Char) := none

abbrev Putch (σ : Type) := σ → Int → σ

abbrev Printer (σ : Type) := σ → List VaArg → List Char → Option σ

def VaArg.int (a : VaArg) : Int := (a.word.setWidth 32).toInt

def charInt (c : Char) : Int := (c.toNat : Int).bmod 256

def maxError : Int := 24

def errorString : List String :=
  ["unspecified error", "bad process", "invalid parameter", "out of memory", "out of processes", "segmentation fault",
    "swap disk read/write fault", "invalid elf file", "process is killed", "panic failure", "timeout",
    "argument is too big", "no such device", "device not available", "device/file is busy", "no such file or directory",
    "is a directory", "not a directory", "cross device link", "unimplemented feature", "illegal seek",
    "too many files are open", "file or directory already exists", "directory is not empty"]

def pad (putch : Putch σ) (c : Char) : Nat → σ → σ
  | 0, s => s
  | n + 1, s => pad putch c n (putch s (charInt c))

def digit (d : Nat) : Char := "0123456789abcdef".toList.getD d ' '

def printnum (putch : Putch σ) (s : σ) (num base : Nat) (width : Int) (padc : Char) : σ :=
  putch (if base ≤ num ∧ 2 ≤ base then printnum putch s (num / base) base (int (width - 1)) padc
      else pad putch padc (int (width - 1)).toNat s)
    (charInt (digit (num % base)))
termination_by num
decreasing_by exact Nat.div_lt_self (by omega) (by omega)

structure Flags where
  padc : Char := ' '
  width : Int := -1
  precision : Int := -1
  lflag : Nat := 0
  altflag : Bool := false

def Flags.process (f : Flags) (precision : Int) : Flags :=
  if f.width < 0 then { f with width := precision, precision := -1 } else { f with precision := precision }

def reswitch (f : Flags) (ap : List VaArg) : List Char → Option (Flags × List VaArg × List Char)
  | [] => some (f, ap, [])
  | ch :: fmt =>
    if ch = '-' ∨ ch = '0' then reswitch { f with padc := ch } ap fmt
    else if ch.isDigit then
      let precision := (ch :: fmt.takeWhile Char.isDigit).foldl (fun n c => int (n * 10 + c.toNat - 48)) 0
      reswitch (f.process precision) ap (fmt.dropWhile Char.isDigit)
    else if ch = '*' then
      match ap with
      | [] => none
      | a :: ap => reswitch (f.process a.int) ap fmt
    else if ch = '.' then reswitch { f with width := if f.width < 0 then 0 else f.width } ap fmt
    else if ch = '#' then reswitch { f with altflag := true } ap fmt
    else if ch = 'l' then reswitch { f with lflag := (f.lflag + 1) % 2 ^ 32 } ap fmt
    else some (f, ap, ch :: fmt)
termination_by fmt => fmt.length
decreasing_by
  all_goals simp only [List.length_cons]
  all_goals first | omega | exact Nat.lt_succ_of_le (List.length_dropWhile_le ..)

def putString (putch : Putch σ) (s : σ) (f : Flags) (p : List Char) : σ :=
  let shown := if f.precision < 0 then p else p.take f.precision.toNat
  let strnlen := min p.length (f.precision % 2 ^ 64).toNat
  let (s, width) :=
    if f.width > 0 ∧ f.padc ≠ '-' then
      let width := int (f.width - strnlen)
      (pad putch f.padc width.toNat s, min width 0)
    else (s, f.width)
  let s := shown.foldl (fun s c =>
    putch s (if f.altflag ∧ (charInt c < charInt ' ' ∨ charInt c > charInt '~') then charInt '?' else charInt c)) s
  pad putch ' ' (int (width - shown.length)).toNat s

/-- The cases with an argument; `printfmt` is for the messages of `%e`. -/
def convert (printfmt : Printer σ) (putch : Putch σ) (s : σ) (f : Flags) (a : VaArg) : Char → Option σ
  | 'c' => some (putch s a.int)
  | 'e' =>
    let err := if a.int < 0 then int (-a.int) else a.int
    if err < 0 then none -- `-err` has wrapped, and there is no such element of `error_string`
    else if err > maxError ∨ err = 0 then printfmt s [⟨.ofInt 64 err, none⟩] "error %d".toList
    else printfmt s [⟨1, some (errorString.getD (err.toNat - 1) "").toList⟩] "%s".toList
  | 's' => (if a.word = 0 then some "(null)".toList else a.text).map (putString putch s f)
  | 'd' =>
    let num := if f.lflag = 0 then a.int else a.word.toInt
    let s := if num < 0 then putch s (charInt '-') else s
    some (printnum putch s num.natAbs 10 f.width f.padc)
  | 'p' => some (printnum putch (putch (putch s (charInt '0')) (charInt 'x')) a.word.toNat 16 f.width f.padc)
  | ch =>
    let num := if f.lflag = 0 then (a.word.setWidth 32).toNat else a.word.toNat
    let base := if ch = 'u' then 10 else if ch = 'o' then 8 else 16
    some (printnum putch s num base f.width f.padc)

def escape (printfmt : Printer σ) (putch : Putch σ) (s : σ) (ap : List VaArg)
    (fmt : List Char) : Option (σ × List VaArg × List Char) :=
  match reswitch {} ap fmt with
  | none => none
  | some (f, ap, rest) =>
    match rest.head? with
    | some '%' => some (putch s (charInt '%'), ap, rest.tail)
    | ch =>
      if ch.any (· ∈ "cesdupox".toList) then
        match ap with
        | [] => none
        | a :: ap => (convert printfmt putch s f a (ch.getD ' ')).map fun s => (s, ap, rest.tail)
      else some (putch s (charInt '%'), ap, fmt) -- it is read again, as text

lemma reswitch_length (h : reswitch f ap fmt = some (f', ap', rest)) : rest.length ≤ fmt.length := by
  fun_induction reswitch f ap fmt <;> grind [List.length_dropWhile_le]

lemma escape_length {printfmt : Printer σ} {putch : Putch σ}
    (h : escape printfmt putch s ap fmt = some (s', ap', fmt')) : fmt'.length ≤ fmt.length := by
  rw [escape] at h
  split at h
  · cases h
  next hr =>
    have hlen := reswitch_length hr
    split at h
    · cases h
      exact (List.tail_sublist _).length_le.trans hlen
    split_ifs at h
    · split at h
      · cases h
      · obtain ⟨s1, -, h1⟩ := Option.map_eq_some_iff.mp h
        cases h1
        exact (List.tail_sublist _).length_le.trans hlen
    · cases h
      exact Nat.le_refl _

def format (printfmt : Printer σ) (putch : Putch σ) (s : σ) (ap : List VaArg) : List Char → Option σ
  | [] => some s
  | ch :: fmt =>
    if ch ≠ '%' then format printfmt putch (putch s ch.toNat) ap fmt
    else
      match _ : escape printfmt putch s ap fmt with
      | none => none
      | some (s, ap, fmt') => format printfmt putch s ap fmt'
termination_by fmt => fmt.length
decreasing_by
  · simp
  · exact Nat.lt_succ_of_le (escape_length (by assumption))

lemma format_escape {printfmt : Printer σ} {putch : Putch σ} (hch : ¬ ch ≠ '%') :
    format printfmt putch s ap (ch :: fmt) =
    (escape printfmt putch s ap fmt).bind fun (s, ap, fmt) => format printfmt putch s ap fmt := by
  rw [format, if_neg hch]
  split <;> simp [*]

/-- The formats of `%e` have no `%e`. -/
def vprintfmt (putch : Putch σ) : Printer σ := format (format (fun _ _ _ => none) putch) putch

section

variable {p : Putch σ} {q : Putch τ} {h : σ → τ} (hh : ∀ s c, h (p s c) = q (h s) c)
include hh

lemma pad_map (c : Char) (n : Nat) (s : σ) : pad q c n (h s) = h (pad p c n s) := by
  induction n generalizing s with
  | zero => rfl
  | succ n ih => rw [pad, pad, ← hh, ih]

lemma printnum_map (s : σ) (num base : Nat) (width : Int) (padc : Char) :
    printnum q (h s) num base width padc = h (printnum p s num base width padc) := by
  induction num using Nat.strong_induction_on generalizing width with
  | h num ih =>
    rw [printnum.eq_def q, printnum.eq_def p, hh]
    split_ifs with hn
    · rw [ih _ (Nat.div_lt_self (by omega) (by omega))]
    · rw [pad_map hh]

lemma putString_map (s : σ) (f : Flags) (l : List Char) : putString q (h s) f l = h (putString p s f l) := by
  have hfold (l : List Char) (g : Char → Int) (s : σ) :
      l.foldl (fun s c => q s (g c)) (h s) = h (l.foldl (fun s c => p s (g c)) s) := by
    induction l generalizing s with
    | nil => rfl
    | cons c l ih => rw [List.foldl_cons, List.foldl_cons, ← hh, ih]
  simp only [putString]
  split_ifs <;> simp only [pad_map hh, hfold]

variable {P : Printer σ} {Q : Printer τ} (hP : ∀ s ap fmt, Q (h s) ap fmt = (P s ap fmt).map h)
include hP

lemma convert_map (s : σ) (f : Flags) (a : VaArg) (ch : Char) :
    convert Q q (h s) f a ch = (convert P p s f a ch).map h := by
  unfold convert
  split
  · simp [hh]
  · simp only [hP]
    split_ifs <;> rfl
  · rw [Option.map_map]
    exact congrArg (Option.map · _) (funext (putString_map hh s f))
  · simp only [← printnum_map hh, ← hh, apply_ite h, Option.map_some]
  · simp only [← printnum_map hh, ← hh, Option.map_some]
  · simp only [← printnum_map hh, Option.map_some]

lemma escape_map (s : σ) (ap : List VaArg) (fmt : List Char) :
    escape Q q (h s) ap fmt = (escape P p s ap fmt).map fun (s, r) => (h s, r) := by
  unfold escape
  split
  · rfl
  split
  · simp [hh]
  split_ifs
  · split
    · rfl
    · simp [convert_map hh hP, Function.comp_def]
  · simp [hh]

lemma format_map (s : σ) (ap : List VaArg) (fmt : List Char) :
    format Q q (h s) ap fmt = (format P p s ap fmt).map h := by
  fun_induction format P p s ap fmt with
  | case1 s ap => rw [format, Option.map_some]
  | case2 s ap ch fmt hch ih => rw [format, if_pos hch, ← hh, ih]
  | case3 s ap ch fmt hch he =>
    rw [format_escape hch, escape_map hh hP, he, Option.map_none, Option.bind_none, Option.map_none]
  | case4 s ap ch fmt hch s1 ap1 fmt1 he ih =>
    rw [format_escape hch, escape_map hh hP, he, Option.map_some, Option.bind_some]
    exact ih

omit hP in
lemma vprintfmt_map (s : σ) (ap : List VaArg) (fmt : List Char) :
    vprintfmt q (h s) ap fmt = (vprintfmt p s ap fmt).map h :=
  format_map hh (format_map hh fun _ _ _ => rfl) s ap fmt

end

def push (l : List Int) (ch : Int) : List Int := l ++ [ch]

lemma vprintfmt_text (h : ∀ c ∈ fmt, c ≠ '%') (ap : List VaArg) (l : List Int) :
    vprintfmt push l ap fmt = some (l ++ fmt.map fun c => (c.toNat : Int)) := by
  induction fmt generalizing l with
  | nil => rw [vprintfmt, format, List.map_nil, List.append_nil]
  | cons c fmt ih =>
    obtain ⟨hc, hfmt⟩ := List.forall_mem_cons.mp h
    rw [vprintfmt, format, if_pos hc]
    exact (ih hfmt (push l c.toNat)).trans (by simp [push])

def toChar (ch : Int) : Char := .ofNat (ch % 256).toNat

structure SprintBuf where
  mem : Nat → Char
  buf : Nat
  ebuf : Nat
  cnt : Int

def sprintputch (b : SprintBuf) (ch : Int) : SprintBuf :=
  let b := { b with cnt := int (b.cnt + 1) }
  if b.buf < b.ebuf then { b with mem := update b.mem b.buf (toChar ch), buf := b.buf + 1 } else b

/-- `E_INVAL` is 3. -/
def vsnprintf (mem : Nat → Char) (str size : Nat) (fmt : List Char) (ap : List VaArg) : Option (Int × (Nat → Char)) :=
  let ebuf := (str + size - 1) % 2 ^ 64
  if str = 0 ∨ str > ebuf then some (-3, mem)
  else (vprintfmt sprintputch ⟨mem, str, ebuf, 0⟩ ap fmt).map fun b => (b.cnt, update b.mem b.buf '\x00')

/-- The characters that fit and a NUL are stored at `str`, and nothing else changes. -/
structure Stored (mem mem' : Nat → Char) (str size : Nat) (out : List Int) : Prop where
  text : ∀ i < min out.length (size - 1), mem' (str + i) = toChar (out.getD i 0)
  nul : mem' (str + min out.length (size - 1)) = '\x00'
  outside : ∀ a, a < str ∨ str + min out.length (size - 1) < a → mem' a = mem a

lemma int_int_add (a b : Int) : int (int a + b) = int (a + b) := Int.bmod_add_bmod ..

/-- By induction on the output: `buf` moves on while there is room, `cnt` always. -/
lemma foldl_sprintputch (out : List Int) (mem : Nat → Char) (buf ebuf : Nat) (c : Int) :
    ∃ mem', out.foldl sprintputch ⟨mem, buf, ebuf, int c⟩ =
        ⟨mem', buf + min out.length (ebuf - buf), ebuf, int (c + out.length)⟩ ∧
      (∀ i < min out.length (ebuf - buf), mem' (buf + i) = toChar (out.getD i 0)) ∧
      ∀ a, a < buf ∨ buf + min out.length (ebuf - buf) ≤ a → mem' a = mem a := by
  induction out generalizing mem buf c with
  | nil => exact ⟨mem, by simp, by simp, fun _ _ => rfl⟩
  | cons ch out ih =>
    rw [List.foldl_cons, sprintputch, List.length_cons]
    dsimp only
    have hcnt : c + 1 + out.length = c + (out.length + 1 : Nat) := by omega
    rw [int_int_add, ← hcnt]
    split_ifs with hroom
    · obtain ⟨mem', heq, htext, hout⟩ := ih (update mem buf (toChar ch)) (buf + 1) (c + 1)
      have hmin : min (out.length + 1) (ebuf - buf) = min out.length (ebuf - (buf + 1)) + 1 := by omega
      rw [hmin, ← Nat.add_assoc, Nat.add_right_comm]
      refine ⟨mem', heq, fun i hi => ?_, fun a ha => ?_⟩
      · cases i with
        | zero =>
          rw [Nat.add_zero, hout buf (by omega), update_self]
          rfl
        | succ i =>
          rw [← Nat.add_assoc, Nat.add_right_comm, htext i (by omega)]
          rfl
      · rw [hout a (by omega), update_of_ne (by omega)]
    · obtain ⟨mem', heq, htext, hout⟩ := ih mem buf (c + 1)
      have hzero : ebuf - buf = 0 := by omega
      rw [hzero, Nat.min_zero] at heq hout ⊢
      exact ⟨mem', heq, fun i hi => absurd hi (Nat.not_lt_zero i), hout⟩

lemma vsnprintf_ok (mem : Nat → Char) (hstr : str ≠ 0) (hsize : 1 ≤ size) (hroom : str + size ≤ 2 ^ 64)
    (hout : vprintfmt push [] ap fmt = some out) :
    ∃ mem', vsnprintf mem str size fmt ap = some (int out.length, mem') ∧ Stored mem mem' str size out := by
  have hmod : (str + size - 1) % 2 ^ 64 = str + size - 1 := Nat.mod_eq_of_lt (by omega)
  obtain ⟨mem', heq, htext, hsame⟩ := foldl_sprintputch out mem str (str + size - 1) 0
  have hmap := vprintfmt_map (p := push) (q := sprintputch) (h := List.foldl sprintputch ⟨mem, str, str + size - 1, 0⟩)
    (fun s c => List.foldl_append ..) [] ap fmt
  rw [hout, Option.map_some, List.foldl_nil] at hmap
  rw [show str + size - 1 - str = size - 1 by omega] at heq htext hsame
  rw [Int.zero_add, show int 0 = 0 by decide] at heq
  refine ⟨update mem' (str + min out.length (size - 1)) '\x00', ?_, fun i hi => ?_, update_self .., fun a ha => ?_⟩
  · rw [vsnprintf, hmod, if_neg (by omega), hmap, heq, Option.map_some]
  · rw [update_of_ne (by omega), htext i hi]
  · rw [update_of_ne (by omega), hsame a (by omega)]

lemma int_eq_iff (n : Nat) : int n = n ↔ n < 2 ^ 31 := by
  rw [int, Int.bmod_def]
  split_ifs <;> omega

/-- The buffer is always right, but the count is an `int`. -/
theorem vsnprintf_iff (mem : Nat → Char) (hstr : str ≠ 0) (hsize : 1 ≤ size) (hroom : str + size ≤ 2 ^ 64)
    (hout : vprintfmt push [] ap fmt = some out) :
    (∃ r mem', vsnprintf mem str size fmt ap = some (r, mem') ∧ Stored mem mem' str size out ∧ r = out.length) ↔
    out.length < 2 ^ 31 := by
  obtain ⟨mem', heq, hstored⟩ := vsnprintf_ok mem hstr hsize hroom hout
  rw [← int_eq_iff]
  constructor
  · rintro ⟨r, mem1, h, -, hr⟩
    obtain ⟨hint, -⟩ := Prod.mk.inj (Option.some.inj (heq.symm.trans h))
    exact hint.trans hr
  · exact fun h => ⟨_, mem', heq, hstored, h⟩

theorem vsnprintf_hi : ∃ mem', vsnprintf (fun _ => 'z') 64 2 ['h', 'i'] [] = some (2, mem') ∧ mem' 64 = 'h' ∧
    mem' 65 = '\x00' ∧ mem' 66 = 'z' := by
  have htext := vprintfmt_text (show ∀ c ∈ ['h', 'i'], c ≠ '%' by simp) [] []
  obtain ⟨r, mem', h, hs, rfl⟩ :=
    (vsnprintf_iff (fun _ => 'z') (show 64 ≠ 0 by decide) (show 1 ≤ 2 by decide) (by decide)
    htext).mpr (by decide)
  exact ⟨mem', h, hs.text 0 (by decide), hs.nul, hs.outside 66 (by decide)⟩

/-- A text of 2^31 characters has the length -2^31. -/
theorem vsnprintf_giant : ∃ fmt out, vprintfmt push [] [] fmt = some out ∧ out.length = 2 ^ 31 ∧
    ∃ mem', vsnprintf (fun _ => 'z') 64 2 fmt [] = some (-2 ^ 31, mem') := by
  have hplain : ∀ c ∈ List.replicate (2 ^ 31) 'a', c ≠ '%' := fun c hc => List.eq_of_mem_replicate hc ▸ by decide
  have htext := vprintfmt_text hplain [] []
  have hlen : (([] : List Int) ++ (List.replicate (2 ^ 31) 'a').map fun c => (c.toNat : Int)).length = 2 ^ 31 := by
    rw [List.nil_append, List.length_map, List.length_replicate]
  obtain ⟨mem', h, -⟩ := vsnprintf_ok (fun _ => 'z') (show 64 ≠ 0 by decide) (show 1 ≤ 2 by decide) (by decide) htext
  rw [hlen] at h
  exact ⟨_, _, htext, hlen, mem', h⟩

end Ucore.Libs
