import Ucore.Fs.Sfs.DirOk
import Ucore.Fs.Sfs.Io

/-!
# Transfers

A file is a sequence of bytes, of which a transfer reads or replaces a part.
-/

namespace Ucore.Fs

open Function Lib.Cmd

namespace File

variable {f : File} {c : Content} {Q : Io → Sfs → Prop} {op : Nat → FsM Io}

def byte (f : File) (p : Nat) : Nat := ((f.leaf (p / blkSize)).map fun c => c.byte (p % blkSize)).getD 0

lemma byte_leaf (h : f.leaf (p / blkSize) = some c) : f.byte p = c.byte (p % blkSize) := by simp [byte, h]

lemma byte_add (h : f.leaf k = some c) (hj : j < blkSize) : f.byte (blkSize * k + j) = c.byte j := by
  have hdiv : (blkSize * k + j) / blkSize = k := by rw [Nat.mul_add_div (by decide), Nat.div_eq_of_lt hj, Nat.add_zero]
  have hmod : (blkSize * k + j) % blkSize = j := by rw [Nat.mul_add_mod, Nat.mod_eq_of_lt hj]
  rw [byte_leaf (by rw [hdiv]; exact h), hmod]

def leafOr (f : File) (k : Nat) : Content := (f.leaf k).getD .zero

lemma byte_put : (f.put k c).byte p = if p / blkSize = k then c.byte (p % blkSize) else f.byte p := by
  by_cases hp : p / blkSize = k
  · simp [byte, put, hp]
  · simp [byte, put, hp]

lemma byte_leafOr (hp : p / blkSize = k) : (leafOr f k).byte (p % blkSize) = f.byte p := by
  subst hp
  cases hc : f.leaf (p / blkSize) with
  | none =>
    simp only [leafOr, byte, hc]
    rfl
  | some c => simp [leafOr, byte, hc]

end File

-- Reading

structure Io.Fetched (io : Io) (f : File) (offset : Nat) (buf₀ : Nat → Nat) : Prop where
  err : io.err = none
  moved : ∀ j, j < io.alen → io.buf j = f.byte (offset + j)
  rest : ∀ j, io.alen ≤ j → io.buf j = buf₀ j

lemma Io.Fetched.init : Io.Fetched { alen := 0, buf := buf0, err := none } f offset buf0 :=
  ⟨rfl, fun _ hj => absurd hj (Nat.not_lt_zero _), fun _ _ => rfl⟩

lemma Io.Fetched.fetch (h : Io.Fetched io f offset buf0) (hb : ∀ j, j < n → bytes j = f.byte (offset + io.alen + j)) :
    (io.fetch bytes n).Fetched f offset buf0 where
  err := h.err
  moved j hj := by
    have hj' : j < io.alen + n := hj
    by_cases hlt : j < io.alen
    · simpa [Io.fetch, show ¬ io.alen ≤ j by omega] using h.moved j hlt
    have := hb (j - io.alen) (by omega)
    rw [show offset + io.alen + (j - io.alen) = offset + j by omega] at this
    simpa [Io.fetch, show io.alen ≤ j by omega, hj'] using this
  rest j hj := by
    have hj' : io.alen + n ≤ j := hj
    simpa [Io.fetch, show ¬ j < io.alen + n by omega] using h.rest j (by omega)

namespace Sfs

variable {s s' : Sfs} {busy : Nat → Prop} {allowed : Panic → Prop} {E : Errno → Sfs → Prop}
  {G : Content → Content}

section

variable (h : s.Inv busy)
include h

section

variable (hx : s.node i = some x)
include hx

lemma sat_ioAt (hk : k < x.din.blocks) :
    Sat allowed (ioAt i k io op) s Q E ↔ Sat allowed (op (s.place (.part i (.leaf k)))) s Q E := by
  rw [ioAt, sat_bind, sat_attempt, sat_bmapLoad h hx hk]

lemma leaf_disk (hk : k < x.din.blocks) : s.used (s.place (.part i (.leaf k))) = true ∧
    (s.fileOf i x.din).leaf k = some (s.disk (s.place (.part i (.leaf k)))) := by
  have h0 := (h.mapped i _ (din_of_node hx) k).mpr hk
  exact ⟨h.used_place h0, if_neg h0⟩

lemma sat_ioAt_buf (hk : k < x.din.blocks) (hoff : blkoff < blkSize ∧ blkoff + size ≤ blkSize) :
    Sat allowed (ioAt i k io fun b => bufOp false io size b blkoff) s Q E ↔
    Q (io.fetch (fun j => (s.disk (s.place (.part i (.leaf k)))).byte (blkoff + j)) size) s := by
  rw [sat_ioAt h hx hk, bufOp, if_neg (by simp), sat_bind, rbuf, sat_bind, sat_check hoff, sat_bind,
    sat_readBlock (leaf_disk h hx hk).1, sat_pure, sat_pure]

lemma sat_ioAt_block (hk : k < x.din.blocks) : Sat allowed (ioAt i k io (blockOp false io)) s Q E ↔
    Q (io.fetch (s.disk (s.place (.part i (.leaf k)))).byte blkSize) s := by
  rw [sat_ioAt h hx hk, blockOp, if_neg (by simp), sat_bind, rblock, sat_bind,
    sat_readBlock (leaf_disk h hx hk).1, sat_pure, sat_pure]

lemma ioLoop_read (hio : io.Fetched (s.fileOf i x.din) offset buf)
    (hpos : offset + io.alen = blkSize * k) (hk : k + n ≤ x.din.blocks) :
    Sat allowed (ioLoop i false n k io) s
      (fun io' s' => s' = s ∧ io'.alen = io.alen + blkSize * n ∧ io'.Fetched (s.fileOf i x.din) offset buf) E := by
  induction n generalizing k io with
  | zero => exact ⟨rfl, rfl, hio⟩
  | succ n ih =>
    obtain ⟨-, hleaf⟩ := leaf_disk h hx (k := k) (by omega)
    rw [ioLoop, sat_bind, sat_ioAt_block h hx (by omega)]
    have hbytes : ∀ j, j < blkSize →
        (s.disk (s.place (.part i (.leaf k)))).byte j = (s.fileOf i x.din).byte (offset + io.alen + j) := by
      intro j hj
      rw [hpos, File.byte_add hleaf hj]
    have hio' := hio.fetch hbytes
    grind [Io.fetch, hio'.err]

lemma ioAt_read (hio : io.Fetched (s.fileOf i x.din) offset buf)
    (hpos : offset + io.alen = blkSize * k + blkoff) (hk : k < x.din.blocks)
    (hoff : blkoff < blkSize ∧ blkoff + size ≤ blkSize) :
    Sat allowed (ioAt i k io fun b => bufOp false io size b blkoff) s
    (fun io' s' => s' = s ∧ io'.alen = io.alen + size ∧ io'.Fetched (s.fileOf i x.din) offset buf) E := by
  obtain ⟨-, hleaf⟩ := leaf_disk h hx hk
  rw [sat_ioAt_buf h hx hk hoff]
  refine ⟨rfl, rfl, hio.fetch fun j hj => ?_⟩
  rw [hpos, Nat.add_assoc, File.byte_add hleaf (by omega)]

lemma ioTail_read (hio : io.Fetched (s.fileOf i x.din) offset buf)
    (hpos : offset + io.alen = blkSize * k) (hsize : size < blkSize)
    (hk : blkSize * (k + n) + size ≤ blkSize * x.din.blocks) :
    Sat allowed (ioTail i false n k size io) s
    (fun io' s' => s' = s ∧ io'.alen = io.alen + blkSize * n + size ∧ io'.Fetched (s.fileOf i x.din) offset buf) E := by
  have hkn : k + n ≤ x.din.blocks := by
    simp only [blkSize] at hk
    omega
  rw [ioTail, sat_bind]
  refine (ioLoop_read h hx hio hpos hkn).imp ?_
  rintro io1 s1 ⟨rfl, halen, hio1⟩
  split
  · rename_i hc
    obtain rfl : size = 0 := hc.resolve_left (by simp [hio1.err])
    exact ⟨rfl, halen, hio1⟩
  rename_i hc
  rw [not_or] at hc
  refine (ioAt_read h hx hio1 ?_ ?_ ⟨by decide, by omega⟩).imp ?_
  · rw [halen, Nat.mul_add]
    omega
  · simp only [blkSize] at hk
    omega
  · grind

lemma ioBody_read (hlt : offset < endpos) (hend : endpos ≤ blkSize * x.din.blocks) :
    Sat allowed (ioBody i false offset endpos buf) s
    (fun io s' => s' = s ∧ io.alen = endpos - offset ∧ io.Fetched (s.fileOf i x.din) offset buf) E := by
  have hio : Io.Fetched { alen := 0, buf := buf, err := none } (s.fileOf i x.din) offset buf := .init
  simp only [ioBody]
  split
  · rename_i hoff
    refine (ioTail_read h hx hio ?_ (Nat.mod_lt _ (by decide)) ?_).imp ?_
    · simp only [blkSize] at hoff ⊢
      omega
    · simp only [blkSize] at hoff hend ⊢
      omega
    · rintro io1 s1 ⟨rfl, halen, hio1⟩
      refine ⟨rfl, ?_, hio1⟩
      simp only [blkSize] at hoff halen ⊢
      omega
  · rename_i hoff
    rw [sat_bind]
    refine (ioAt_read h hx hio ?_ ?_ ?_).imp ?_
    · simp only [blkSize]
      omega
    · simp only [blkSize] at hend ⊢
      omega
    · refine ⟨Nat.mod_lt _ (by decide), ?_⟩
      by_cases hn : endpos / blkSize - offset / blkSize = 0
      · rw [if_neg (by simpa using hn)]
        simp only [blkSize] at *
        omega
      · rw [if_pos hn]
        simp only [blkSize] at *
        omega
    · rintro io1 s1 ⟨rfl, halen, hio1⟩
      split
      · rename_i hc
        have hc := hc.resolve_left (by simp [hio1.err])
        refine ⟨rfl, ?_, hio1⟩
        simp only [hc, ne_eq, not_true_eq_false, if_false] at halen
        omega
      rename_i hc
      rw [not_or] at hc
      simp only [hc.2, ne_eq, not_false_eq_true, if_true] at halen
      refine (ioTail_read h hx hio1 ?_ (Nat.mod_lt _ (by decide)) ?_).imp ?_
      · simp only [blkSize] at *
        omega
      · simp only [blkSize] at *
        omega
      · rintro io2 s2 ⟨rfl, halen2, hio2⟩
        refine ⟨rfl, ?_, hio2⟩
        simp only [blkSize] at *
        omega

end

section

variable (hf : s.vol.file i = some f)
include hf

lemma ioNolock_read (href : (s.vol.core i).refCount ≠ 0) (htype : f.type ≠ .dir) (hsize : f.size ≤ blkSize * f.blocks) :
    Sat allowed (ioNolock i buf offset len false) s (fun io s' => s' = s ∧
    if maxFileSize ≤ offset ∨ offEnd ≤ offset + len then io = { alen := 0, buf := buf, err := some .inval }
        else io.alen = min (min (offset + len) maxFileSize) f.size - offset ∧ io.Fetched f offset buf) E := by
  obtain ⟨x, hx, rfl, -⟩ := node_of_ref hf href
  have hsize' : x.din.size ≤ blkSize * x.din.blocks := hsize
  have htype' : x.din.type ≠ .dir := htype
  have hinit : Io.Fetched { alen := 0, buf := buf, err := none } (s.fileOf i x.din) offset buf := .init
  rw [ioNolock, sat_bind, sat_sin hx, sat_bind, sat_check htype']
  by_cases hrange : maxFileSize ≤ offset ∨ offEnd ≤ offset + len
  · rw [if_pos hrange]
    exact ⟨rfl, by rw [if_pos hrange]⟩
  rw [if_neg hrange]
  simp only [if_neg hrange]
  have hfile : (s.fileOf i x.din).size = x.din.size := rfl
  rw [not_or] at hrange
  split
  · refine ⟨rfl, ?_, hinit⟩
    dsimp only
    omega
  split
  · refine ⟨rfl, ?_, hinit⟩
    dsimp only
    omega
  rename_i hlen hoff
  have hoff' : offset < x.din.size := by simpa using hoff
  simp only [Bool.false_eq_true, if_false]
  rw [sat_bind]
  refine (ioBody_read h hx (by omega) (by omega)).imp ?_
  rintro io s' ⟨rfl, halen, hio⟩
  rw [sat_bind, sat_sin hx, sat_bind, sat_when_not (by omega)]
  exact ⟨rfl, halen, hio⟩

-- Writing

lemma ioAt_put
    (href : (s.vol.core i).refCount ≠ 0) (hk : k ≤ f.blocks ∨ allowed .assertion)
    (hop : ∀ (b : Nat) (s1 : Sfs) (Q : Io → Sfs → Prop), s1.used b = true →
    (Sat allowed (op b) s1 Q E ↔ Q io' (s1.write b (G (s1.disk b)))))
    (hG : ∀ c, (G c).asInode = none) :
    Sat allowed (ioAt i k io op) s (fun r s' => k ≤ f.blocks ∧ Kept s s' ∧
    (r = io' ∧ s'.Inv (fun j => busy j ∨ (j = i ∧ k = f.blocks)) ∧ s'.vol = s.vol.modFile i (.put k (G (f.leafOr k))) ∨
    k = f.blocks ∧ r = { io with err := some .noMem } ∧ s'.Inv busy ∧ s'.vol = s.vol)) E := by
  obtain ⟨x, hx, rfl, -⟩ := node_of_ref hf href
  rw [ioAt, sat_bind, sat_attempt]
  rcases Nat.lt_trichotomy k x.din.blocks with hlt | heq | hgt
  · obtain ⟨hu, hleaf⟩ := leaf_disk h hx hlt
    have h0 := ne_zero_of_used hu
    rw [sat_bmapLoad h hx hlt, hop _ s _ hu]
    obtain ⟨hinv, hvol⟩ := h.write_leaf rfl h0 (hG (s.disk (s.place (.part i (.leaf k)))))
    refine ⟨Nat.le_of_lt hlt, .write (used_iff.mp hu).2.2, .inl ⟨rfl, hinv.mono fun j hj hb => hj (.inl hb), ?_⟩⟩
    rw [hvol, File.leafOr, hleaf]
    rfl
  · -- the next block is new, and zero
    subst heq
    refine (bmapLoad_new h hx).mono ?_ ?_
    · intro b s1 hext
      have hu : s1.used b = true := hext.place ▸ hext.inv.used_place (hext.place ▸ hext.ne_zero)
      have hzero : s1.disk b = .zero := by
        have hleaf : s1.leafAt i x.din.blocks = some .zero := by
          have hfile := congrArg (fun v => (v.file i).bind fun f => f.leaf x.din.blocks) hext.vol
          simp only [Vol.modFile_file_self, hf, Option.map_some, Option.bind_some, File.put,
            Function.update_self] at hfile
          obtain ⟨g, hg, hleaf⟩ := Option.bind_eq_some_iff.mp hfile
          obtain ⟨d, hd, rfl⟩ := din_of_file hg
          exact hleaf
        rw [leafAt, hext.place, if_neg hext.ne_zero] at hleaf
        exact Option.some.inj hleaf
      have hnone : (s.fileOf i x.din).leaf x.din.blocks = none := by
        rw [← Option.not_isSome_iff_eq_none, Option.isSome_iff_ne_none]
        exact fun hne => absurd ((h.dense hf _).mp hne) (lt_irrefl _)
      dsimp only
      rw [hop b s1 _ hu, hzero]
      obtain ⟨hinv, hvol⟩ := hext.inv.write_leaf hext.place hext.ne_zero (hG .zero)
      refine ⟨le_refl _, hext.kept.trans (.write (used_iff.mp hu).2.2), .inl ⟨rfl, hinv.mono fun j hj hb => hj ?_, ?_⟩⟩
      · exact hb.imp id fun hji => ⟨hji, rfl⟩
      · rw [hvol, hext.vol, Vol.modFile_modFile, File.leafOr, hnone]
        congr 1
        funext g
        exact File.put_put g
    · rintro e s1 hno
      exact ⟨le_refl _, hno.kept, .inr ⟨rfl, by rw [hno.code], hno.inv, hno.vol⟩⟩
  · -- further on the assertion fails
    have hallowed := hk.resolve_left (Nat.not_le.mpr hgt)
    rw [bmapLoad, sat_bind, sat_sin hx, sat_bind, check, if_neg (Nat.not_le.mpr hgt)]
    exact hallowed

structure Wrote (s₀ : Sfs) (busy : Nat → Prop) (i offset : Nat) (buf : Nat → Nat) (f : File) (io : Io) (s : Sfs)
    (f' : File) : Prop where
  kept : Kept s₀ s
  inv : s.Inv fun j => busy j ∨ (j = i ∧ f'.blocks ≠ f.blocks)
  vol : s.vol = s₀.vol.modFile i fun _ => f'
  attrs : f' = { f with leaf := f'.leaf, blocks := f'.blocks }
  bytes : ∀ p, f'.byte p = if offset ≤ p ∧ p < offset + io.alen then buf (p - offset) else f.byte p
  blocks : f'.blocks = if io.alen = 0 then f.blocks else max f.blocks (blocksFor (offset + io.alen))
  source : io.buf = buf

lemma Wrote.init : Wrote s busy i offset buf f { alen := 0, buf := buf, err := none } s f where
  kept := .refl s
  inv := h.mono fun j hj hb => hj (.inl hb)
  vol := (s.vol.modFile_eq_self hf rfl).symm
  attrs := rfl
  bytes p := by
    rw [if_neg]
    simp only [Nat.add_zero]
    omega
  blocks := rfl
  source := rfl

end

end

section

variable (h : Wrote s0 busy i offset buf f io s f')
include h

section

variable (hf : s0.vol.file i = some f)
include hf

lemma Wrote.file : s.vol.file i = some f' := by
  rw [h.vol, Vol.modFile_file_self, hf]
  rfl

omit hf in
lemma Wrote.step (hkept : Kept s s')
    (hinv : s'.Inv fun j => (busy j ∨ (j = i ∧ f'.blocks ≠ f.blocks)) ∨ (j = i ∧ k = f'.blocks))
    (hvol : s'.vol = s.vol.modFile i (.put k c)) (hk : k ≤ f'.blocks)
    (hpos : offset + io.alen = blkSize * k + blkoff) (hsize : 0 < size) (hoff : blkoff + size ≤ blkSize)
    (hc : ∀ p, p / blkSize = k → c.byte (p % blkSize) =
    if blkoff ≤ p % blkSize ∧ p % blkSize < blkoff + size then io.rest (p % blkSize - blkoff) else f'.byte p) :
    Wrote s0 busy i offset buf f { io with alen := io.alen + size } s' (f'.put k c) := by
  have hfor : blocksFor (offset + (io.alen + size)) = k + 1 := by
    rw [← Nat.add_assoc, hpos, blocksFor]
    simp only [blkSize] at *
    omega
  have hle : f'.blocks = f.blocks ∨ f'.blocks = max f.blocks k ∨ f'.blocks = max f.blocks (k + 1) := by
    have hb := h.blocks
    split at hb
    · exact .inl hb
    have : blocksFor (offset + io.alen) = k ∨ blocksFor (offset + io.alen) = k + 1 := by
      rw [hpos, blocksFor]
      simp only [blkSize] at *
      omega
    grind
  have hblocks : (f'.put k c).blocks = max f.blocks (k + 1) := by
    simp only [File.put]
    omega
  refine ⟨h.kept.trans hkept, ?_, ?_, ?_, ?_, ?_, h.source⟩
  · grind
  · rw [hvol, h.vol, Vol.modFile_modFile]
    rfl
  · have := h.attrs
    rw [this]
    rfl
  · intro p
    have hp := Nat.div_add_mod p blkSize
    have hmod := Nat.mod_lt p (show 0 < blkSize by decide)
    have hold := h.bytes p
    rw [File.byte_put]
    dsimp only
    by_cases hpk : p / blkSize = k
    · rw [if_pos hpk, hc p hpk]
      rw [hpk] at hp
      by_cases hin : blkoff ≤ p % blkSize ∧ p % blkSize < blkoff + size
      · rw [if_pos hin, if_pos (by omega), Io.rest, h.source]
        congr 1
        omega
      rw [if_neg hin, hold]
      by_cases hbefore : offset ≤ p ∧ p < offset + io.alen
      · rw [if_pos hbefore, if_pos (by omega)]
      · rw [if_neg hbefore, if_neg (by omega)]
    · have hout : ¬ (offset + io.alen ≤ p ∧ p < offset + (io.alen + size)) := by
        rintro ⟨h1, h2⟩
        refine hpk ?_
        simp only [blkSize] at *
        omega
      rw [if_neg hpk, hold]
      by_cases hbefore : offset ≤ p ∧ p < offset + io.alen
      · rw [if_pos hbefore, if_pos (by omega)]
      · rw [if_neg hbefore, if_neg (by omega)]
  · rw [hblocks, if_neg (show ¬ io.alen + size = 0 by omega)]
    dsimp only
    rw [hfor]

def Stepped (s₀ : Sfs) (busy : Nat → Prop) (i offset : Nat) (buf : Nat → Nat) (f : File) (io : Io) (k size : Nat)
    (r : Io) (s' : Sfs) : Prop :=
  ∃ f', Wrote s₀ busy i offset buf f r s' f' ∧
    (r = { io with alen := io.alen + size } ∧ k < f'.blocks ∨ r = { io with err := some .noMem })

section

variable (href : (s0.vol.core i).refCount ≠ 0)
include href

lemma ioAt_write (hk : k ≤ f'.blocks ∨ allowed .assertion)
    (hpos : offset + io.alen = blkSize * k + blkoff) (hsize : 0 < size) (hoff : blkoff + size ≤ blkSize)
    (hop : ∀ (b : Nat) (s1 : Sfs) (Q : Io → Sfs → Prop), s1.used b = true →
    (Sat allowed (op b) s1 Q E ↔ Q { io with alen := io.alen + size } (s1.write b (G (s1.disk b)))))
    (hG : ∀ c, (G c).asInode = none)
    (hbytes : ∀ c j, j < blkSize → (G c).byte j = if blkoff ≤ j ∧
      j < blkoff + size then io.rest (j - blkoff) else c.byte j) :
    Sat allowed (ioAt i k io op) s (Stepped s0 busy i offset buf f io k size) E := by
  have hcore : s.vol.core = s0.vol.core := by rw [h.vol]; rfl
  refine (ioAt_put h.inv (h.file hf) (hcore ▸ href) hk hop hG).imp ?_
  rintro r s' ⟨hk, hkept, ⟨rfl, hinv, hvol⟩ | ⟨-, rfl, hinv, hvol⟩⟩
  · refine ⟨f'.put k (G (f'.leafOr k)), ?_, .inl ⟨rfl, ?_⟩⟩
    · refine h.step hkept hinv hvol hk hpos hsize hoff fun p hp => ?_
      rw [hbytes _ _ (Nat.mod_lt _ (by decide)), File.byte_leafOr hp]
    · simp only [File.put]
      omega
  · exact ⟨f', { h with kept := h.kept.trans hkept, inv := hinv, vol := hvol.trans h.vol }, .inr rfl⟩

lemma ioAt_bufWrite (hk : k ≤ f'.blocks ∨ allowed .assertion)
    (hpos : offset + io.alen = blkSize * k + blkoff) (hsize : 0 < size) (hoff : blkoff + size ≤ blkSize) :
    Sat allowed (ioAt i k io fun b => bufOp true io size b blkoff) s (Stepped s0 busy i offset buf f io k size) E := by
  refine ioAt_write (G := fun c => c.patch io.rest size blkoff) h hf href hk hpos hsize hoff ?_
    (fun _ => rfl) fun _ _ _ => rfl
  intro b s1 Q hu
  rw [bufOp, if_pos rfl, sat_bind, wbuf, sat_bind, sat_check ⟨by omega, hoff⟩, sat_bind, sat_readBlock hu,
    sat_writeBlock hu, sat_pure]

lemma ioAt_blockWrite (hk : k ≤ f'.blocks ∨ allowed .assertion) (hpos : offset + io.alen = blkSize * k) :
    Sat allowed (ioAt i k io (blockOp true io)) s (Stepped s0 busy i offset buf f io k blkSize) E := by
  have hpos0 : offset + io.alen = blkSize * k + 0 := hpos
  refine ioAt_write (G := fun _ => .data io.rest) h hf href hk hpos0 (by decide) (by simp) ?_ (fun _ => rfl) ?_
  · intro b s1 Q hu
    rw [blockOp, if_pos rfl, sat_bind, wblock, sat_writeBlock hu, sat_pure]
  · intro c j hj
    rw [if_pos (by omega)]
    rfl

def Moved (s₀ : Sfs) (busy : Nat → Prop) (i offset : Nat) (buf : Nat → Nat) (f : File) (io : Io) (k n : Nat)
    (allowed : Panic → Prop) (r : Io) (s' : Sfs) : Prop :=
  ∃ f', Wrote s₀ busy i offset buf f r s' f' ∧
    (r.err = none ∧ r.alen = io.alen + n ∧ (k ≤ f'.blocks ∨ allowed .assertion) ∨
      r.err = some .noMem ∧ r.alen < io.alen + n)

section

variable (hk : k ≤ f'.blocks ∨ allowed .assertion)
  (herr : io.err = none)
  (hpos : offset + io.alen = blkSize * k)
include hk herr hpos

lemma ioLoop_write :
    Sat allowed (ioLoop i true n k io) s (Moved s0 busy i offset buf f io (k + n) (blkSize * n) allowed) E := by
  induction n generalizing k io s f' with
  | zero => exact ⟨f', h, .inl ⟨herr, rfl, hk⟩⟩
  | succ n ih =>
    rw [ioLoop, sat_bind]
    refine (ioAt_blockWrite h hf href hk hpos).imp ?_
    rintro r s1 ⟨f1, h1, ⟨rfl, hk1⟩ | rfl⟩
    · dsimp only
      rw [if_neg (by simp [herr])]
      refine (ih h1 (.inl hk1) herr ?_).imp ?_
      · simp only [Nat.mul_succ]
        omega
      · rintro r s2 ⟨f2, h2, ho⟩
        refine ⟨f2, h2, ?_⟩
        dsimp only at ho
        rw [show k + 1 + n = k + (n + 1) by omega] at ho
        rw [Nat.mul_succ]
        refine ho.imp (fun h => ⟨h.1, by omega, h.2.2⟩) fun h => ⟨h.1, by omega⟩
    · rw [if_pos (by simp)]
      refine ⟨f1, h1, .inr ⟨rfl, ?_⟩⟩
      simp only [blkSize, Nat.mul_succ]
      omega

lemma ioTail_write (hsize : size < blkSize) :
    Sat allowed (ioTail i true n k size io) s (Moved s0 busy i offset buf f io 0 (blkSize * n + size) allowed) E := by
  rw [ioTail, sat_bind]
  refine (ioLoop_write h hf href hk herr hpos).imp ?_
  rintro r s1 ⟨f1, h1, ⟨herr1, halen1, hk1⟩ | ⟨herr1, halen1⟩⟩
  · split
    · rename_i hc
      obtain rfl : size = 0 := hc.resolve_left (by simp [herr1])
      exact ⟨f1, h1, .inl ⟨herr1, halen1, .inl (Nat.zero_le _)⟩⟩
    rename_i hc
    rw [not_or] at hc
    refine (ioAt_bufWrite h1 hf href hk1 ?_ (Nat.pos_of_ne_zero hc.2) (by omega)).imp ?_
    · rw [halen1, Nat.mul_add]
      omega
    · grind [Stepped, Moved]
  · rw [if_pos (by simp [herr1])]
    exact ⟨f1, h1, .inr ⟨herr1, by omega⟩⟩

end

end

end

end

section

variable (h : s.Inv busy)
include h

section

variable (hf : s.vol.file i = some f)
include hf

lemma ioBody_write (href : (s.vol.core i).refCount ≠ 0)
    (hk : offset / blkSize ≤ f.blocks ∨ allowed .assertion) (hlt : offset < endpos) :
    Sat allowed (ioBody i true offset endpos buf) s
    (Moved s busy i offset buf f { alen := 0, buf := buf, err := none } 0 (endpos - offset) allowed) E := by
  have hinit : Wrote s busy i offset buf f { alen := 0, buf := buf, err := none } s f := Wrote.init h hf
  simp only [ioBody]
  split
  · -- from the start of a block
    rename_i hoff
    refine (ioTail_write hinit hf href hk rfl ?_ (Nat.mod_lt _ (by decide))).imp ?_
    · simp only [blkSize] at *
      omega
    · intro r s1 ho
      have hn : blkSize * (endpos / blkSize - offset / blkSize) + endpos % blkSize = endpos - offset := by
        simp only [blkSize] at *
        omega
      rwa [hn] at ho
  · rename_i hoff
    rw [sat_bind]
    by_cases hn : endpos / blkSize - offset / blkSize = 0
    · -- within one block
      simp only [hn, ne_eq, not_true_eq_false, if_false, or_true, if_true]
      refine (ioAt_bufWrite hinit hf href hk ?_ (by omega) ?_).imp ?_
      · simp only [blkSize]
        omega
      · simp only [blkSize] at *
        omega
      · rintro r s1 ⟨f1, h1, ⟨rfl, hk1⟩ | rfl⟩
        · exact ⟨f1, h1, .inl ⟨rfl, rfl, .inl (Nat.zero_le _)⟩⟩
        · exact ⟨f1, h1, .inr ⟨rfl, by dsimp only; omega⟩⟩
    · -- the rest of one block, then whole ones
      simp only [hn, ne_eq, not_false_eq_true, if_true, or_false]
      refine (ioAt_bufWrite hinit hf href hk ?_ ?_ ?_).imp ?_
      · simp only [blkSize]
        omega
      · simp only [blkSize] at *
        omega
      · simp only [blkSize] at *
        omega
      · rintro r s1 ⟨f1, h1, ⟨rfl, hk1⟩ | rfl⟩
        · rw [if_neg (by simp)]
          refine (ioTail_write h1 hf href (.inl hk1) rfl ?_ (Nat.mod_lt _ (by decide))).imp ?_
          · simp only [blkSize] at *
            omega
          · rintro r s2 ⟨f2, h2, ho⟩
            refine ⟨f2, h2, ?_⟩
            dsimp only at ho ⊢
            have hsum : blkSize - offset % blkSize +
                (blkSize * (endpos / blkSize - offset / blkSize - 1) + endpos % blkSize) = endpos - offset := by
              simp only [blkSize] at *
              omega
            rwa [Nat.zero_add, ← hsum, ← Nat.zero_add (blkSize - offset % blkSize)]
        · rw [if_pos (by simp)]
          exact ⟨f1, h1, .inr ⟨rfl, by dsimp only; omega⟩⟩

structure Written (s : Sfs) (busy : Nat → Prop) (i : Nat) (buf : Nat → Nat) (offset : Nat) (f : File) (io : Io)
    (s' : Sfs) (f' : File) : Prop where
  kept : Kept s s'
  inv : s'.Inv fun j => busy j ∨ (j = i ∧ f'.blocks ≠ f.blocks ∧ offset + io.alen ≤ f.size)
  vol : s'.vol = s.vol.modFile i fun _ => f'
  attrs : f' = { f with leaf := f'.leaf, blocks := f'.blocks, size := f'.size }
  bytes : ∀ p, f'.byte p = if offset ≤ p ∧ p < offset + io.alen then buf (p - offset) else f.byte p
  blocks : f'.blocks = if io.alen = 0 then f.blocks else max f.blocks (blocksFor (offset + io.alen))
  size : f'.size = max f.size (offset + io.alen)

lemma ioNolock_write (href : (s.vol.core i).refCount ≠ 0)
    (htype : f.type ≠ .dir) (hk : offset / blkSize ≤ f.blocks ∨ allowed .assertion) (hlen : 0 < len)
    (hrange : offset < maxFileSize ∧ offset + len < offEnd) :
    Sat allowed (ioNolock i buf offset len true) s (fun io s' => (∃ f', Written s busy i buf offset f io s' f') ∧
    (io.err = none ∧ io.alen = min (offset + len) maxFileSize - offset ∨
    io.err = some .noMem ∧ io.alen < min (offset + len) maxFileSize - offset)) E := by
  obtain ⟨x, hx, hfx, -⟩ := node_of_ref hf href
  have htype' : x.din.type ≠ .dir := by rwa [hfx] at htype
  rw [ioNolock, sat_bind, sat_sin hx, sat_bind, sat_check htype', if_neg (by omega), if_neg (by omega),
    if_neg (by simp)]
  simp only [if_true]
  rw [sat_bind]
  refine (ioBody_write h hf href hk (by omega)).imp ?_
  rintro io s1 ⟨f1, h₁, ho⟩
  have hf1 := h₁.file hf
  have hcore1 : s1.vol.core = s.vol.core := by rw [h₁.vol]; rfl
  obtain ⟨y, hy, hfy, -⟩ := node_of_ref hf1 (hcore1 ▸ href)
  have hsize : y.din.size = f.size := by
    have h1 : f1.size = f.size := by rw [h₁.attrs]
    rw [← h1, hfy]
    rfl
  have hmoved : io.err = none ∧ io.alen = min (offset + len) maxFileSize - offset ∨
      io.err = some .noMem ∧ io.alen < min (offset + len) maxFileSize - offset := by
    dsimp only at ho
    rw [Nat.zero_add] at ho
    exact ho.imp (fun h => ⟨h.1, h.2.1⟩) id
  rw [sat_bind, sat_sin hy, sat_bind]
  by_cases hgrow : y.din.size < offset + io.alen
  · rw [sat_when hgrow]
    refine (touch_ok (g := .setSize (offset + io.alen)) busy h₁.inv hf1 (hcore1 ▸ href) attr_setSize (fun _ _ _ => rfl)
      ?_).imp ?_
    · grind
    rintro - s2 h2
    refine ⟨⟨{ f1 with size := offset + io.alen }, ?_⟩, hmoved⟩
    refine ⟨h₁.kept.trans h2.kept, h2.inv.mono fun j hj hb => hj (.inl hb), ?_, ?_, h₁.bytes, h₁.blocks, ?_⟩
    · rw [h2.vol, h₁.vol, Vol.modFile_modFile]
      rfl
    · have := h₁.attrs
      rw [this]
    · dsimp only
      omega
  · rw [sat_when_not hgrow]
    refine ⟨⟨f1, h₁.kept, h₁.inv.mono fun j hj hb => hj ?_, h₁.vol, ?_, h₁.bytes, h₁.blocks, ?_⟩, hmoved⟩
    · exact hb.imp id fun hb => ⟨hb.1, hb.2, by omega⟩
    · have := h₁.attrs
      rw [this]
    · have : f1.size = f.size := by rw [h₁.attrs]
      omega

-- Truncation

def growCost (k : Nat) : Nat → Nat
  | 0 => 0
  | n + 1 => tableCost k + 1 + growCost (k + 1) n

structure Grown (s : Sfs) (busy : Nat → Prop) (i : Nat) (f : File) (m : Nat) (s' : Sfs) (f' : File) : Prop where
  kept : Kept s s'
  inv : s'.Inv fun j => busy j ∨ (j = i ∧ m ≠ 0)
  vol : s'.vol = s.vol.modFile i fun _ => f'
  attrs : f' = { f with leaf := f'.leaf, blocks := f'.blocks }
  blocks : f'.blocks = f.blocks + m
  bytes : ∀ p, f'.byte p = f.byte p

lemma Grown.refl : Grown s busy i f 0 s f :=
  ⟨.refl s, h.mono fun _ hj hb => hj (.inl hb), (s.vol.modFile_eq_self hf rfl).symm, rfl, rfl, fun _ => rfl⟩

lemma growLoop_ok (href : (s.vol.core i).refCount ≠ 0) (hk : f.blocks = k) :
    Sat allowed (growLoop i n k) s (fun _ s' => ∃ f', Grown s busy i f n s' f')
      (fun e s' => e = .noMem ∧ s.freeBits < growCost k n ∧ ∃ m f', Grown s busy i f m s' f') := by
  induction n generalizing k s f busy with
  | zero => exact ⟨f, .refl h hf⟩
  | succ n ih =>
    obtain ⟨x, hx, hfx, -⟩ := node_of_ref hf href
    obtain rfl : x.din.blocks = k := by rw [← hk, hfx]; rfl
    have hdense := h.dense hf
    rw [growLoop]
    refine (bmapLoad_new h hx).bind ?_ ?_
    · intro b s1 hext
      have hf1 : s1.vol.file i = some (f.put x.din.blocks .zero) := by
        rw [hext.vol, Vol.modFile_file_self, hf]
        rfl
      have hcore1 : s1.vol.core = s.vol.core := by rw [hext.vol]; rfl
      have hblocks : (f.put x.din.blocks .zero).blocks = f.blocks + 1 := by
        simp only [File.put]
        omega
      -- one more block, then the rest
      have hstep : ∀ {m s2 f2}, Grown s1 (fun j => busy j ∨ j = i) i (f.put x.din.blocks .zero) m s2 f2 →
          Grown s busy i f (m + 1) s2 f2 := by
        intro m s2 f2 h2
        refine ⟨hext.kept.trans h2.kept, h2.inv.mono fun j hj hb => hj ?_, ?_, ?_, ?_, fun p => ?_⟩
        · grind
        · rw [h2.vol, hext.vol, Vol.modFile_modFile]
          rfl
        · have := h2.attrs
          rw [this]
          rfl
        · rw [h2.blocks, hblocks]
          omega
        · rw [h2.bytes, File.byte_put]
          split
          · rename_i hp
            have hnone : f.leaf (p / blkSize) = none := by
              by_contra hne
              have := (hdense _).mp hne
              omega
            simp only [File.byte, hnone]
            rfl
          · rfl
      refine (ih hext.inv hf1 (hcore1 ▸ href) (by rw [hblocks, hk])).mono ?_ ?_
      · rintro - s2 ⟨f2, h2⟩
        exact ⟨f2, hstep h2⟩
      · rintro e s2 ⟨rfl, hfree, m, f2, h2⟩
        have := hext.spends.free
        exact ⟨rfl, by rw [growCost]; omega, m + 1, f2, hstep h2⟩
    · intro e s1 hno
      have := hno.room
      refine ⟨hno.code, by rw [growCost]; omega, 0, f, hno.kept, ?_, ?_, rfl, rfl, fun _ => rfl⟩
      · exact hno.inv.mono fun _ hj hb => hj (.inl hb)
      · rw [hno.vol, s.vol.modFile_eq_self hf rfl]

structure Cut (s : Sfs) (busy : Nat → Prop) (i : Nat) (f : File) (n : Nat) (s' : Sfs) (f' : File) : Prop where
  kept : Kept s s'
  inv : s'.Inv busy
  vol : s'.vol = s.vol.modFile i fun _ => f'
  attrs : f' = { f with leaf := f'.leaf, blocks := f'.blocks }
  blocks : f'.blocks = f.blocks - n
  bytes : ∀ p, p / blkSize < f'.blocks → f'.byte p = f.byte p

lemma shrinkLoop_ok (href : (s.vol.core i).refCount ≠ 0) (hn : n ≤ f.blocks) :
    Sat allowed (shrinkLoop i n) s (fun _ s' => ∃ f', Cut s busy i f n s' f') E := by
  induction n generalizing s f with
  | zero => exact ⟨f, .refl s, h, (s.vol.modFile_eq_self hf rfl).symm, rfl, rfl, fun _ _ => rfl⟩
  | succ n ih =>
    obtain ⟨x, hx, hfx, -⟩ := node_of_ref hf href
    have hb : x.din.blocks = f.blocks - 1 + 1 := by
      have : x.din.blocks = f.blocks := by rw [hfx]; rfl
      omega
    rw [shrinkLoop, sat_bind]
    refine (bmapTruncate_ok h hx hb).imp ?_
    rintro - s1 ⟨hinv, hvol, hkept, -, -⟩
    have hf1 : s1.vol.file i = some (f.cut (f.blocks - 1)) := by
      rw [hvol, Vol.modFile_file_self, hf]
      rfl
    have hcore1 : s1.vol.core = s.vol.core := by rw [hvol]; rfl
    have hblocks : (f.cut (f.blocks - 1)).blocks = f.blocks - 1 := rfl
    refine (ih hinv hf1 (hcore1 ▸ href) (by omega)).imp ?_
    rintro - s2 ⟨f2, h2⟩
    refine ⟨f2, hkept.trans h2.kept, h2.inv, ?_, ?_, ?_, fun p hp => ?_⟩
    · rw [h2.vol, hvol, Vol.modFile_modFile]
      rfl
    · have := h2.attrs
      rw [this]
      rfl
    · rw [h2.blocks, hblocks]
      omega
    · rw [h2.bytes p hp]
      have hlt := h2.blocks
      have hne : p / blkSize ≠ f.blocks - 1 := by omega
      simp only [File.byte, File.cut, Function.update_of_ne hne]

end

structure Resized (s : Sfs) (busy : Nat → Prop) (i : Nat) (f : File) (len : Nat) (s' : Sfs) (f' : File) : Prop where
  kept : Kept s s'
  inv : s'.Inv busy
  vol : s'.vol = s.vol.modFile i fun _ => f'
  attrs : f' = { f with leaf := f'.leaf, blocks := f'.blocks, size := len }
  blocks : f'.blocks = blocksFor len
  bytes : ∀ p, p / blkSize < f'.blocks → f'.byte p = f.byte p

omit h in
lemma setSize_ok (h : s1.Inv fun j => busy j ∨ j = i) (hkept : Kept s s1)
    (hvol : s1.vol = s.vol.modFile i fun _ => f1) (hf : s.vol.file i = some f) (href : (s.vol.core i).refCount ≠ 0)
    (hattrs : f1 = { f with leaf := f1.leaf, blocks := f1.blocks }) (hblocks : f1.blocks = blocksFor len)
    (hbytes : ∀ p, p / blkSize < f1.blocks → f1.byte p = f.byte p) :
    Sat allowed (do
        let y ← sin i
        check (y.din.blocks = blocksFor len) .assertion
        modifySin i (·.touch (.setSize len))) s1
      (fun _ s' => ∃ f', Resized s busy i f len s' f') E := by
  have hf1 : s1.vol.file i = some f1 := by
    rw [hvol, Vol.modFile_file_self, hf]
    rfl
  have hcore1 : s1.vol.core = s.vol.core := by rw [hvol]; rfl
  obtain ⟨y, hy, hfy, -⟩ := node_of_ref hf1 (hcore1 ▸ href)
  have hy : s1.node i = some y := hy
  have hb : y.din.blocks = blocksFor len := by rw [← hblocks, hfy]; rfl
  rw [sat_bind, sat_sin hy, sat_bind, sat_check hb]
  refine (touch_ok (g := .setSize len) busy h hf1 (hcore1 ▸ href) attr_setSize (fun _ _ _ => rfl)
    fun j hj hnb hc => hc.elim hnb hj).imp ?_
  rintro - s2 h2
  refine ⟨{ f1 with size := len }, hkept.trans h2.kept, h2.inv, ?_, ?_, hblocks, hbytes⟩
  · rw [h2.vol, hvol, Vol.modFile_modFile]
    rfl
  · rw [hattrs]

lemma truncfile_ok (hf : s.vol.file i = some f) (href : (s.vol.core i).refCount ≠ 0)
    (htype : f.type ≠ .dir) (hr : (s.vol.core i).removed = false)
    (hsize : (f.size = len → f.blocks = blocksFor len) ∨ allowed .assertion) :
    Sat allowed (truncfile i len) s (fun _ s' => (f.size = len ∧ s' = s) ∨ ∃ f', Resized s busy i f len s' f')
    (fun e s' => (e = .inval ∧ maxFileSize < len ∧ s' = s) ∨
    (e = .noMem ∧ f.blocks < blocksFor len ∧ s.freeBits < growCost f.blocks (blocksFor len - f.blocks) ∧
    ∃ m f', Grown s busy i f m s' f')) := by
  obtain ⟨x, hx, hfx, -⟩ := node_of_ref hf href
  have htype' : x.din.type ≠ .dir := by rwa [hfx] at htype
  have hxsize : x.din.size = f.size := by rw [hfx]; rfl
  have hxblocks : x.din.blocks = f.blocks := by rw [hfx]; rfl
  rw [truncfile]
  split
  · exact .inl ⟨rfl, ‹_›, rfl⟩
  rw [sat_bind, sat_sin hx, sat_bind, sat_check htype']
  simp only [hxsize, hxblocks]
  split
  · rename_i hlen
    by_cases hb : blocksFor len = x.din.blocks
    · rw [sat_check hb]
      exact .inl ⟨hlen, rfl⟩
    have hallowed := hsize.resolve_left fun hs => hb (by rw [hxblocks, hs hlen])
    rw [check, if_neg hb]
    exact hallowed
  rename_i hlen
  rw [sat_bind, sat_trylock href, hr, if_neg (by simp)]
  split
  · rename_i hlt
    refine (growLoop_ok h hf href rfl).bind ?_ ?_
    · rintro - s1 ⟨f1, h1⟩
      have hinv : s1.Inv fun j => busy j ∨ j = i := h1.inv.mono fun j hj hb => hj (hb.imp id And.left)
      refine (setSize_ok hinv h1.kept h1.vol hf href h1.attrs ?_ fun p _ => h1.bytes p).imp ?_
      · rw [h1.blocks]
        omega
      · exact fun _ s' hr => .inr hr
    · grind
  · rename_i hlt
    rw [sat_bind]
    refine (shrinkLoop_ok h hf href (by omega)).imp ?_
    rintro - s1 ⟨f1, h1⟩
    have hinv : s1.Inv fun j => busy j ∨ j = i := h1.inv.mono fun j hj hb => hj (.inl hb)
    refine (setSize_ok hinv h1.kept h1.vol hf href h1.attrs ?_ h1.bytes).imp ?_
    · rw [h1.blocks]
      omega
    · exact fun _ s' hr => .inr hr

end

end Sfs

end Ucore.Fs
