import Ucore.Fs.RunOk

/-!
# The contents of a file over a run

To its readers and writers a file is an array of bytes.
-/

namespace Ucore.Fs

open Lib (Reachable trace)
open Lib.Cmd

namespace Sfs

variable {s s' : Sfs} {f f' : File} {allowed : Panic → Prop} {E : Errno → Sfs → Prop}

/-- A regular file in use, as it is after any number of transfers. -/
structure Open (i : Nat) (f : File) (s : Sfs) : Prop where
  inv : s.Inv fun _ => True
  file : s.vol.file i = some f
  type : f.type ≠ .dir
  ref : (s.vol.core i).refCount ≠ 0
  present : (s.vol.core i).removed = false
  reach : f.size ≤ blkSize * f.blocks
  small : f.size ≤ maxFileSize

lemma Good.opened {held : Multiset Nat} {tree : Bool} (h : Good held tree s) (hi : i ∈ held)
    (hf : s.vol.file i = some f) (htype : f.type ≠ .dir) (hp : s.pinned = false) (hsmall : f.size ≤ maxFileSize) :
    Open i f s where
  inv := h.inv.mono fun _ hj _ => hj trivial
  file := hf
  type := htype
  ref := h.ok.refCount_ne_zero hi
  present := h.ok.not_removed_of_file (by rw [Vol.isDir_of_file hf]; exact decide_eq_false htype)
  reach := by
    rw [h.ok.sized i f hf htype hp]
    exact le_blocksFor
  small := hsmall

section

variable (h : Open i f s)
include h

lemma Open.changed (hinv : s'.Inv fun _ => True) (hvol : s'.vol = s.vol.modFile i fun _ => f')
    (htype : f'.type = f.type) (hreach : f'.size ≤ blkSize * f'.blocks) (hsmall : f'.size ≤ maxFileSize) :
    Open i f' s' where
  inv := hinv
  file := by
    rw [hvol, Vol.modFile_file_self, h.file]
    rfl
  type := htype ▸ h.type
  ref := by
    rw [hvol]
    exact h.ref
  present := by
    rw [hvol]
    exact h.present
  reach := hreach
  small := hsmall

lemma Open.byte_missing (hp : f.blocks ≤ p / blkSize) : f.byte p = 0 := by
  have hnone : f.leaf (p / blkSize) = none := by
    by_contra hne
    exact absurd ((h.inv.dense h.file _).mp hne) (by omega)
  simp [File.byte, hnone]

def Refused (offset len : Nat) : Prop := maxFileSize ≤ offset ∨ offEnd ≤ offset + len

instance : Decidable (Refused offset len) := inferInstanceAs (Decidable (_ ∨ _))

structure Placed (i : Nat) (buf : Nat → Nat) (offset n : Nat) (f : File) (s s' : Sfs) (f' : File) : Prop where
  opened : Open i f' s'
  others : ∀ j, j ≠ i → s'.vol.file j = s.vol.file j
  size : f'.size = if n = 0 then f.size else max f.size (offset + n)
  bytes : ∀ p, f'.byte p = if offset ≤ p ∧ p < offset + n then buf (p - offset) else f.byte p

lemma Placed.nothing : Placed i buf offset 0 f s s f := ⟨h, fun _ _ => rfl, rfl, fun p => by rw [if_neg (by omega)]⟩

/-- The results of a write. With the device full a part of it may be done; a
write that is behind the end and gets nothing leaves a size without blocks. -/
structure WriteOk (i : Nat) (buf : Nat → Nat) (offset len : Nat) (f : File) (s : Sfs) (io : Io) (s' : Sfs) : Prop where
  refused : Refused offset len → io.alen = 0 ∧ io.err = some .inval
  moved : ¬ Refused offset len → io.err = none ∧ io.alen = min (offset + len) maxFileSize - offset ∨
    io.err = some .noMem ∧ io.alen < min (offset + len) maxFileSize - offset
  stored : offset ≤ f.size ∨ io.err = none → ∃ f', Placed i buf offset io.alen f s s' f'

lemma ioNolock_writeOk (hk : offset / blkSize ≤ f.blocks ∨ allowed .assertion) :
    Sat allowed (ioNolock i buf offset len true) s (WriteOk i buf offset len f s) E := by
  obtain ⟨x, hx, hfx, -⟩ := node_of_ref h.file h.ref
  have htype : x.din.type ≠ .dir := by
    have := h.type
    rwa [hfx] at this
  by_cases hr : maxFileSize ≤ offset ∨ offEnd ≤ offset + len
  · rw [ioNolock, sat_bind, sat_sin hx, sat_bind, sat_check htype, if_pos hr]
    exact ⟨fun _ => ⟨rfl, rfl⟩, absurd hr, fun _ => ⟨f, .nothing h⟩⟩
  have hrange : offset < maxFileSize ∧ offset + len < offEnd := by omega
  rcases Nat.eq_zero_or_pos len with rfl | hlen
  · rw [ioNolock, sat_bind, sat_sin hx, sat_bind, sat_check htype, if_neg hr, if_pos rfl]
    exact ⟨fun hr' => absurd hr' hr, fun _ => .inl ⟨rfl, by dsimp only; omega⟩, fun _ => ⟨f, .nothing h⟩⟩
  refine (ioNolock_write h.inv h.file h.ref h.type hk hlen hrange).imp ?_
  rintro io s' ⟨⟨f', hw⟩, hmoved⟩
  refine ⟨fun hr' => absurd hr' hr, fun _ => hmoved, fun hok => ?_⟩
  have hinside : io.alen = 0 → offset ≤ f.size := by
    intro h0
    rcases hok with hle | hnone
    · exact hle
    rw [hnone] at hmoved
    simp at hmoved
    omega
  refine ⟨f', ?_, fun j hj => ?_, ?_, hw.bytes⟩
  · refine h.changed (hw.inv.mono fun _ hj _ => hj trivial) hw.vol (by rw [hw.attrs]) ?_ ?_
    · have hreach := h.reach
      rw [hw.size, hw.blocks]
      split
      · have := hinside ‹_›
        omega
      have : offset + io.alen ≤ blkSize * blocksFor (offset + io.alen) := le_blocksFor
      have := Nat.mul_le_mul_left blkSize (Nat.le_max_left f.blocks (blocksFor (offset + io.alen)))
      have := Nat.mul_le_mul_left blkSize (Nat.le_max_right f.blocks (blocksFor (offset + io.alen)))
      omega
    · have := h.small
      rw [hw.size]
      omega
  · rw [hw.vol, Vol.modFile_file_ne _ hj]
  · rw [hw.size]
    split
    · have := hinside ‹_›
      omega
    · rfl

structure ReadOk (buf : Nat → Nat) (offset len : Nat) (f : File) (io : Io) : Prop where
  refused : Refused offset len → io.alen = 0 ∧ io.err = some .inval
  moved : ¬ Refused offset len → io.err = none ∧ io.alen = min (offset + len) f.size - offset
  bytes : ∀ j, io.buf j = if j < io.alen then f.byte (offset + j) else buf j

lemma ioNolock_readOk :
    Sat allowed (ioNolock i buf offset len false) s (fun io s' => s' = s ∧ ReadOk buf offset len f io) E := by
  refine (ioNolock_read h.inv h.file h.ref h.type h.reach).imp ?_
  rintro io s' ⟨rfl, hio⟩
  refine ⟨rfl, ?_⟩
  by_cases hr : maxFileSize ≤ offset ∨ offEnd ≤ offset + len
  · rw [if_pos hr] at hio
    subst hio
    exact ⟨fun _ => ⟨rfl, rfl⟩, absurd hr, fun j => by simp⟩
  rw [if_neg hr] at hio
  have := h.small
  refine ⟨fun hr' => absurd hr' hr, fun _ => ⟨hio.2.err, by omega⟩, fun j => ?_⟩
  split
  · exact hio.2.moved j ‹_›
  · exact hio.2.rest j (by omega)

structure Trimmed (i len : Nat) (f : File) (s' : Sfs) (f' : File) : Prop where
  opened : Open i f' s'
  size : f'.size = len
  bytes : ∀ p, f'.byte p = if p < blkSize * blocksFor len then f.byte p else 0

lemma truncfile_trimmed :
    Sat (fun _ => True) (truncfile i len) s (fun _ s' => f.size = len ∧ s' = s ∨ ∃ f', Trimmed i len f s' f')
    fun _ _ => True := by
  by_cases hmax : maxFileSize < len
  · rw [truncfile, if_pos hmax]
    trivial
  refine (truncfile_ok h.inv h.file h.ref h.type h.present (.inr trivial)).mono ?_ fun _ _ _ => trivial
  rintro - s' (hsame | ⟨f', hr⟩)
  · exact .inl hsame
  have hsize : f'.size = len := by rw [hr.attrs]
  have hopen : Open i f' s' := by
    refine h.changed hr.inv hr.vol (by rw [hr.attrs]) ?_ (by omega)
    rw [hsize, hr.blocks]
    exact le_blocksFor
  refine .inr ⟨f', hopen, hsize, fun p => ?_⟩
  have hblk : p < blkSize * blocksFor len ↔ p / blkSize < f'.blocks := by
    rw [hr.blocks, Nat.div_lt_iff_lt_mul (by decide), Nat.mul_comm]
  split
  · exact hr.bytes p (hblk.mp ‹_›)
  · exact hopen.byte_missing (by omega)

lemma tryseek_trimmed : Sat (fun _ => True) (tryseek i pos) s
    (fun _ s' => s' = s ∨ f.size < pos ∧ ∃ f', Trimmed i pos f s' f') fun _ _ => True := by
  obtain ⟨x, hx, hfx, -⟩ := node_of_ref h.file h.ref
  have hsize : x.din.size = f.size := by rw [hfx]; rfl
  rw [tryseek]
  split
  · trivial
  rw [sat_bind, sat_sin hx]
  split
  · grind [truncfile_trimmed, Sat]
  · exact .inl rfl

end

end Sfs

lemma World.new_file (p : Sfs → Bool) (hp : (trace World.step (fun w c => c.Fits w ∧ c.Checked w = true) (.boot 25 false)
    [.create blknRoot [['f']] true]).any (fun w =>
    (decide (3 ∈ w.held) && (w.fs.node 3).any fun x => decide (x.din.type = .file ∧ x.din.size = 0 ∧ x.din.blocks = 0)) &&
    p w.fs) = true) :
    ∃ s f, Sfs.Open 3 f s ∧ f.size = 0 ∧ f.blocks = 0 ∧ p s = true := by
  obtain ⟨w, hr, hw⟩ : ∃ w, Reachable World.step (fun w c => c.Fits w ∧ c.Checked w = true) (· = .boot 25 false) w ∧ _ :=
    Reachable.exists_of_trace _ _ rfl hp
  simp only [Bool.and_eq_true, decide_eq_true_eq, Option.any_eq_true] at hw
  obtain ⟨⟨hheld, x, hx, htype, hsize, hblocks⟩, hp⟩ := hw
  have hm := World.checked_mounted (by decide) (by decide) hr
  have hf := Sfs.file_of_din (Sfs.din_of_node hx)
  refine ⟨w.fs, _, hm.good.opened hheld hf ?_ hm.pinned ?_, hsize, hblocks, hp⟩
  · simp [Sfs.fileOf, htype]
  · simp [Sfs.fileOf, hsize]

structure Contents where
  size : Nat
  byte : Nat → Nat

def Contents.write (c : Contents) (buf : Nat → Nat) (offset n : Nat) : Contents where
  size := max c.size (offset + n)
  byte p := if offset ≤ p ∧ p < offset + n then buf (p - offset) else c.byte p

def Sfs.Shows (i : Nat) (c : Contents) (s : Sfs) : Prop :=
  ∃ f, Sfs.Open i f s ∧ f.size = c.size ∧ ∀ p, p < c.size → f.byte p = c.byte p

inductive Transfer
  | read (buf : Nat → Nat) (offset len : Nat)
  | write (buf : Nat → Nat) (offset len : Nat)

structure Replica where
  fs : Sfs
  array : Contents

namespace Replica

variable {r r' : Replica} {a : Transfer}

def step (i : Nat) (r : Replica) : Transfer → Except Panic Replica
  | .read buf offset len =>
    match ioNolock i buf offset len false r.fs with
    | .error p => .error p
    | .ok (_, fs) => .ok { r with fs }
  | .write buf offset len =>
    match ioNolock i buf offset len true r.fs with
    | .error p => .error p
    | .ok (.ok io, fs) => .ok ⟨fs, r.array.write buf offset io.alen⟩
    | .ok (.error _, fs) => .ok { r with fs }

def Start (i : Nat) (r : Replica) : Prop := r.fs.Shows i r.array

def Inside (r : Replica) : Transfer → Prop
  | .read _ _ _ => True
  | .write _ offset _ => offset ≤ r.array.size

instance (r a) : Decidable (Inside r a) := by
  unfold Inside
  split <;> infer_instance

structure Reads (c : Contents) (buf : Nat → Nat) (offset len : Nat) (io : Io) : Prop where
  refused : Sfs.Refused offset len → io.alen = 0 ∧ io.err = some .inval
  moved : ¬ Sfs.Refused offset len → io.err = none ∧ io.alen = min (offset + len) c.size - offset
  bytes : ∀ j, io.buf j = if j < io.alen then c.byte (offset + j) else buf j

structure Writes (i : Nat) (c : Contents) (buf : Nat → Nat) (offset len : Nat) (s : Sfs) (io : Io) (s' : Sfs) : Prop where
  refused : Sfs.Refused offset len → io.alen = 0 ∧ io.err = some .inval
  moved : ¬ Sfs.Refused offset len → io.err = none ∧ io.alen = min (offset + len) maxFileSize - offset ∨
    io.err = some .noMem ∧ io.alen < min (offset + len) maxFileSize - offset
  array : s'.Shows i (c.write buf offset io.alen)
  others : ∀ j, j ≠ i → s'.vol.file j = s.vol.file j

lemma reads (h : Start i r) (buf : Nat → Nat) (offset len : Nat) :
    ∃ io, ioNolock i buf offset len false r.fs = .ok (.ok io, r.fs) ∧ Reads r.array buf offset len io := by
  obtain ⟨f, hopen, hsize, hbyte⟩ := h
  have hsat : Sat (fun _ => False) (ioNolock i buf offset len false) r.fs
      (fun io s' => s' = r.fs ∧ Sfs.ReadOk buf offset len f io) fun _ _ => False := Sfs.ioNolock_readOk hopen
  obtain ⟨io, s', heq, hs, hio⟩ | ⟨_, _, _, hfalse⟩ := hsat.exists_ok
  · subst hs
    refine ⟨io, heq, hio.refused, hsize ▸ hio.moved, fun j => ?_⟩
    grind [Sfs.Refused, hio.bytes, hio.refused, hio.moved]
  · exact hfalse.elim

lemma writes (h : Start i r) (buf : Nat → Nat) (offset len : Nat) (hoff : offset ≤ r.array.size) :
    ∃ io s', ioNolock i buf offset len true r.fs = .ok (.ok io, s') ∧ Writes i r.array buf offset len r.fs io s' := by
  obtain ⟨f, hopen, hsize, hbyte⟩ := h
  have hk : offset / blkSize ≤ f.blocks := by
    have := hopen.reach
    simp only [blkSize] at *
    omega
  have hsat : Sat (fun _ => False) (ioNolock i buf offset len true) r.fs (Sfs.WriteOk i buf offset len f r.fs)
      fun _ _ => False := Sfs.ioNolock_writeOk hopen (.inl hk)
  obtain ⟨io, s', heq, hw⟩ | ⟨_, _, _, hfalse⟩ := hsat.exists_ok
  · obtain ⟨f', hs⟩ := hw.stored (.inl (hsize ▸ hoff))
    have hsize' : f'.size = (r.array.write buf offset io.alen).size := by
      simp only [hs.size, Contents.write]
      split <;> omega
    refine ⟨io, s', heq, hw.refused, hw.moved, ⟨f', hs.opened, hsize', fun p hp => ?_⟩, hs.others⟩
    grind [Contents.write, hs.bytes]
  · exact hfalse.elim

lemma Start.step (h : Start i r) (hin : r.Inside a) (hs : r.step i a = .ok r') : Start i r' := by
  cases a with
  | read buf offset len =>
    obtain ⟨io, heq, -⟩ := reads h buf offset len
    simp only [Replica.step, heq] at hs
    cases hs
    exact h
  | write buf offset len =>
    obtain ⟨io, s', heq, hw⟩ := writes h buf offset len hin
    simp only [Replica.step, heq] at hs
    cases hs
    exact hw.array

/-- After any transfers the next one behaves as on the array. -/
theorem file_is_array (hr : Reachable (step i) Inside (Start i) r) :
    (∀ buf offset len, ∃ io, ioNolock i buf offset len false r.fs = .ok (.ok io, r.fs) ∧
    Reads r.array buf offset len io) ∧
    ∀ buf offset len, offset ≤ r.array.size → ∃ io s', ioNolock i buf offset len true r.fs = .ok (.ok io, s') ∧
    Writes i r.array buf offset len r.fs io s' := by
  have h : Start i r := hr.invariant (fun _ => id) fun _ _ _ => Start.step
  exact ⟨reads h, writes h⟩

theorem file_is_array_three : ∃ r, Reachable (step 3) Inside (Start 3) r ∧ r.array.size = 3 ∧
    ∃ io, ioNolock 3 (fun _ => 0) 1 5 false r.fs = .ok (.ok io, r.fs) ∧ Reads r.array (fun _ => 0) 1 5 io := by
  obtain ⟨s, f, hopen, hsize, -, hp⟩ := World.new_file (fun s =>
    (trace (step 3) Inside ⟨s, 0, fun _ => 0⟩ [.write (fun j => j + 5) 0 3]).any fun r :
      Replica => decide (r.array.size = 3))
    (by decide +kernel)
  have hstart : Start 3 ⟨s, 0, fun _ => 0⟩ := ⟨f, hopen, hsize, fun p hp => absurd hp (Nat.not_lt_zero p)⟩
  obtain ⟨r, hr, hthree⟩ := Reachable.exists_of_run _ hstart hp
  exact ⟨r, hr, hthree, (file_is_array hr).1 _ 1 5⟩

end Replica

inductive Edit
  | write (buf : Nat → Nat) (offset len : Nat)
  | truncate (len : Nat)
  | seek (pos : Nat)

def Edit.exec (i : Nat) : Edit → FsM Nat
  | .write buf offset len => do
    let io ← sfsIo i buf offset len true
    match io.err with
    | some e => fail e
    | none => pure io.alen
  | .truncate len => do
    truncfile i len
    pure 0
  | .seek pos => do
    tryseek i pos
    pure 0

def Edit.covers (n p : Nat) : Edit → Bool
  | .write _ offset _ => decide (offset ≤ p ∧ p < offset + n)
  | _ => false

/-- A file system, and the bytes of the file of interest that a growth added
and that nobody has written since. -/
structure Growth where
  fs : Sfs
  added : Nat → Bool

inductive Stop
  | failed (e : Errno)
  | panic (p : Panic)

namespace Growth

def size (i : Nat) (s : Sfs) : Nat := ((s.vol.file i).map File.size).getD 0

def step (i : Nat) (g : Growth) (op : Edit) : Except Stop Growth :=
  match op.exec i g.fs with
  | .error p => .error (.panic p)
  | .ok (.error e, _) => .error (.failed e)
  | .ok (.ok n, fs) => .ok
      { fs
        added := fun p => !op.covers n p && decide (p < size i fs) && (decide (size i g.fs ≤ p) || g.added p) }

def Start (i : Nat) (g : Growth) : Prop :=
  (∃ f, Sfs.Open i f g.fs ∧ ∀ p, f.size ≤ p → f.byte p = 0) ∧ ∀ p, g.added p = false

def Whole (i : Nat) (g : Growth) : Edit → Prop
  | .truncate len => size i g.fs ≤ len ∨ len % blkSize = 0
  | _ => True

instance (g op) : Decidable (Whole i g op) := by
  unfold Whole
  split <;> infer_instance

variable {s s' : Sfs} {f f' : File} {g g' : Growth} {op : Edit}

lemma size_eq (h : Sfs.Open i f s) : size i s = f.size := by simp [size, h.file]

structure Edited (op : Edit) (n : Nat) (f f' : File) : Prop where
  bytes : ∀ p, op.covers n p = false → f'.byte p = f.byte p ∨ f'.byte p = 0
  kept : ∀ p, max f.size f'.size ≤ p → op.covers n p = false
  cut : ∀ p, f'.size ≤ p → p < f.size → f'.size % blkSize = 0 → f'.byte p = 0
  grow : (∀ len, op ≠ .truncate len) → f.size ≤ f'.size
  trim : ∀ len, op = .truncate len → f'.size = len

lemma Edited.refl (hn : ∀ p, op.covers n p = false)
    (htrim : ∀ len, op = .truncate len → f.size = len) : Edited op n f f where
  bytes _ _ := .inl rfl
  kept p _ := hn p
  cut _ _ _ _ := by omega
  grow _ := le_rfl
  trim := htrim

lemma edited_trimmed (h : Sfs.Trimmed i len f s' f') (hn : ∀ p, op.covers n p = false)
    (hgrow : (∀ len, op ≠ .truncate len) → f.size ≤ len)
    (htrim : ∀ n, op = .truncate n → n = len) : Edited op n f f' where
  bytes p _ := by
    rw [h.bytes]
    split
    · exact .inl rfl
    · exact .inr rfl
  kept p _ := hn p
  cut p hp _ hmod := by
    rw [h.bytes, if_neg]
    rw [h.size] at hp hmod
    simp only [blocksFor, blkSize] at *
    omega
  grow hop := h.size ▸ hgrow hop
  trim m hop := by rw [h.size, htrim m hop]

lemma exec_edited (h : Sfs.Open i f s) :
    Sat (fun _ => True) (op.exec i) s (fun n s' => ∃ f', Sfs.Open i f' s' ∧ Edited op n f f') fun _ _ => True := by
  cases op with
  | write buf offset len =>
    simp only [Edit.exec]
    rw [sfsIo, sat_bind, sat_bind, Sfs.sat_trylock h.ref, h.present, if_neg (by simp)]
    refine (Sfs.ioNolock_writeOk h (.inr trivial)).imp ?_
    intro io s' hw
    cases he : io.err with
    | some e => trivial
    | none =>
      obtain ⟨f', hs⟩ := hw.stored (.inr he)
      refine ⟨f', hs.opened, fun p hp => .inl ?_, fun p hp => ?_, fun p hp hlt => ?_, fun _ => ?_, fun _ hop => ?_⟩
      · grind [Edit.covers, hs.bytes]
      · grind [Edit.covers, hs.size]
      · have := hs.size
        split at this <;> omega
      · have := hs.size
        split at this <;> omega
      · cases hop
  | truncate len =>
    simp only [Edit.exec]
    refine (Sfs.truncfile_trimmed h).bind ?_ fun _ _ _ => trivial
    rintro - s' (⟨hsize, rfl⟩ | ⟨f', ht⟩)
    · refine ⟨f, h, .refl (fun _ => rfl) fun _ hop => ?_⟩
      cases hop
      exact hsize
    · refine ⟨f', ht.opened, edited_trimmed ht (fun _ => rfl) (fun hop => absurd rfl (hop len)) fun _ hop => ?_⟩
      cases hop
      rfl
  | seek pos =>
    simp only [Edit.exec]
    refine (Sfs.tryseek_trimmed h).bind ?_ fun _ _ _ => trivial
    rintro - s' (rfl | ⟨hlt, f', ht⟩)
    · exact ⟨f, h, .refl (fun _ => rfl) (by simp)⟩
    · exact ⟨f', ht.opened, edited_trimmed ht (fun _ => rfl) (fun _ => Nat.le_of_lt hlt) (by simp)⟩

structure Zeros (i : Nat) (g : Growth) (f : File) : Prop where
  opened : Sfs.Open i f g.fs
  behind : ∀ p, f.size ≤ p → f.byte p = 0
  added : ∀ p, g.added p = true → p < f.size ∧ f.byte p = 0

lemma Zeros.step (h : Zeros i g f) (hw : Whole i g op) (hs : g.step i op = .ok g') : ∃ f', Zeros i g' f' := by
  have hsat : Sat (fun _ => True) (op.exec i) g.fs
    (fun n s' => ∃ f', Sfs.Open i f' s' ∧ Edited op n f f') fun _ _ => True :=
    exec_edited h.opened
  unfold Sat at hsat
  unfold Growth.step at hs
  rcases hexec : op.exec i g.fs with p | ⟨e | n, s'⟩ <;> rw [hexec] at hs hsat
  · cases hs
  · cases hs
  obtain ⟨f', hopen, he⟩ := hsat
  cases hs
  refine ⟨f', hopen, fun p hp => ?_, fun p hp => ?_⟩
  · rcases Nat.lt_or_ge p f.size with hlt | hge
    · -- the file was cut
      refine he.cut p hp hlt ?_
      cases op with
      | truncate len =>
        have hlen := he.trim len rfl
        rcases hw with hle | hmod
        · rw [size_eq h.opened] at hle
          omega
        · rwa [hlen]
      | write | seek =>
        have := he.grow (by simp)
        omega
    · rcases he.bytes p (he.kept p (by omega)) with heq | h0
      · rw [heq]
        exact h.behind p hge
      · exact h0
  · simp only [Bool.and_eq_true, Bool.not_eq_true', decide_eq_true_eq, Bool.or_eq_true,
      size_eq hopen, size_eq h.opened] at hp
    obtain ⟨⟨hcov, hlt⟩, hor⟩ := hp
    refine ⟨hlt, ?_⟩
    rcases he.bytes p hcov with heq | h0
    · rw [heq]
      rcases hor with hge | hadded
      · exact h.behind p hge
      · exact (h.added p hadded).2
    · exact h0

lemma Start.zeros (h : Start i g) : ∃ f, Zeros i g f := by
  obtain ⟨⟨f, hopen, hclean⟩, hnone⟩ := h
  exact ⟨f, hopen, hclean, fun p hp => absurd hp (by simp [hnone])⟩

/-- In a run that cuts files between blocks only, what a growth adds reads as
zero until it is written. -/
theorem added_read_zero (hr : Reachable (step i) (Whole i) (Start i) g) (hp : g.added p = true) (buf : Nat → Nat)
    (hlo : offset ≤ p) (hhi : p < offset + len) (hlen : offset + len < offEnd) :
    ∃ io, sfsIo i buf offset len false g.fs = .ok (.ok io, g.fs) ∧ p - offset < io.alen ∧ io.buf (p - offset) = 0 := by
  obtain ⟨f, h⟩ : ∃ f, Zeros i g f := by
    refine hr.invariant (P := fun g => ∃ f, Zeros i g f) (fun _ => Start.zeros) ?_
    rintro g op g' ⟨f, h⟩ hw hs
    exact h.step hw hs
  obtain ⟨hlt, h0⟩ := h.added p hp
  have hsmall := h.opened.small
  have hsat : Sat (fun _ => False) (sfsIo i buf offset len false) g.fs
      (fun io s' => s' = g.fs ∧ Sfs.ReadOk buf offset len f io) fun _ _ => False := by
    rw [sfsIo, sat_bind, Sfs.sat_trylock h.opened.ref, h.opened.present, if_neg (by simp)]
    exact Sfs.ioNolock_readOk h.opened
  obtain ⟨io, s', heq, rfl, hio⟩ | ⟨_, _, _, hfalse⟩ := hsat.exists_ok
  · have hnot : ¬ Sfs.Refused offset len := by
      rw [Sfs.Refused]
      omega
    have halen := (hio.moved hnot).2
    have hin : p - offset < io.alen := by omega
    refine ⟨io, heq, hin, ?_⟩
    rw [hio.bytes, if_pos hin, Nat.add_sub_cancel' hlo, h0]
  · exact hfalse.elim

lemma start_of_new (h : Sfs.Open i f s) (hblocks : f.blocks = 0) : Start i ⟨s, fun _ => false⟩ :=
  ⟨⟨f, h, fun _ _ => h.byte_missing (by rw [hblocks]; exact Nat.zero_le _)⟩, fun _ => rfl⟩

/-- A block is cut after its first byte, and the file grows to 100 bytes. -/
theorem added_read_stale : ∃ g, Reachable (step 3) (fun _ _ => True) (Start 3) g ∧ g.added 50 = true ∧
    ∃ io s', sfsIo 3 (fun _ => 0) 50 1 false g.fs = .ok (.ok io, s') ∧ io.alen = 1 ∧ io.buf 0 = 7 := by
  obtain ⟨s, f, hopen, -, hblocks, hp⟩ := World.new_file (fun s =>
    (trace (step 3) (fun _ _ => True) ⟨s, fun _ => false⟩ [.write (fun _ => 7) 0 4096, .truncate 1, .truncate 100]).any
      fun g : Growth => decide (g.added 50 = true ∧ ∃ p, sfsIo 3 (fun _ => 0) 50 1 false g.fs = .ok p ∧
        ∃ io, p.1 = .ok io ∧ io.alen = 1 ∧ io.buf 0 = 7)) (by decide +kernel)
  obtain ⟨g, hr, hadded, ⟨_, s'⟩, hread, io, rfl, hvalues⟩ := Reachable.exists_of_run _ (start_of_new hopen hblocks) hp
  exact ⟨g, hr, hadded, io, s', hread, hvalues⟩

theorem added_read_zero_hundred : ∃ g, Reachable (step 3) (Whole 3) (Start 3) g ∧ g.added 50 = true ∧
    ∃ io, sfsIo 3 (fun _ => 1) 50 1 false g.fs = .ok (.ok io, g.fs) ∧ 50 - 50 < io.alen ∧ io.buf (50 - 50) = 0 := by
  obtain ⟨s, f, hopen, -, hblocks, hp⟩ := World.new_file (fun s =>
    (trace (step 3) (Whole 3) ⟨s, fun _ => false⟩ [.write (fun _ => 7) 0 4096, .truncate 0, .truncate 100]).any
      fun g : Growth => g.added 50) (by decide +kernel)
  obtain ⟨g, hr, hg⟩ := Reachable.exists_of_trace _ _ (start_of_new hopen hblocks) hp
  exact ⟨g, hr, hg, added_read_zero hr hg _ (by decide) (by decide) (by decide)⟩

end Growth

end Ucore.Fs
