import Ucore.Fs.FileOk
import Ucore.Fs.RunOk

/-!
# Runs through descriptors

Positions are kept per descriptor and are not looked at when a file becomes shorter.
-/

namespace Ucore.Fs

open Lib (Reachable Safe endsIn endsIn_iff)
open Lib.Cmd

namespace Sfs

variable {s : Sfs} {Q : Io → Sfs → Prop} {E : Errno → Sfs → Prop}

lemma ioAt_beyond (hx : s.node i = some x) (hk : x.din.blocks < blkno) :
    Sat (· = .assertion) (ioAt i blkno io op) s Q E := by
  rw [ioAt, sat_bind, sat_attempt, bmapLoad, sat_bind, sat_sin hx, sat_bind, check, if_neg (by omega)]
  rfl

lemma ioTail_beyond (hx : s.node i = some x) (hk : x.din.blocks < blkno) (hsize : nblks = 0 → size ≠ 0)
    (herr : io.err = none) : Sat (· = .assertion) (ioTail i dir nblks blkno size io) s Q E := by
  rw [ioTail, sat_bind]
  cases nblks with
  | zero =>
    rw [ioLoop, sat_pure, if_neg (by simp [herr, hsize rfl])]
    exact ioAt_beyond hx hk
  | succ n =>
    rw [ioLoop, sat_bind]
    exact ioAt_beyond hx hk

lemma ioBody_beyond (hx : s.node i = some x) (hk : x.din.blocks < offset / blkSize) (hlt : offset < endpos) :
    Sat (· = .assertion) (ioBody i dir offset endpos buf) s Q E := by
  rw [ioBody]
  dsimp only
  split
  · refine ioTail_beyond hx hk (fun hn => ?_) rfl
    simp only [blkSize] at *
    omega
  · rw [sat_bind]
    exact ioAt_beyond hx hk

lemma sfsIo_beyond (hf : s.vol.file i = some f) (href : (s.vol.core i).refCount ≠ 0)
    (hrem : (s.vol.core i).removed = false)
    (htype : f.type ≠ .dir) (hk : f.blocks < offset / blkSize) (hlen : 0 < len)
    (hrange : offset < maxFileSize ∧ offset + len < offEnd) :
    Sat (· = .assertion) (sfsIo i buf offset len true) s Q E := by
  obtain ⟨x, hx, rfl, -⟩ := node_of_ref hf href
  have htype' : x.din.type ≠ .dir := htype
  rw [sfsIo, sat_bind, sat_trylock href, hrem, if_neg (by simp), ioNolock, sat_bind, sat_sin hx, sat_bind,
    sat_check htype', if_neg (by omega), if_neg (by omega), if_neg (by simp)]
  simp only [if_true]
  rw [sat_bind]
  exact ioBody_beyond hx hk (by omega)

lemma sfsIo_returns (h : Good held tree s) (hf : s.vol.file i = some f) (href : (s.vol.core i).refCount ≠ 0)
    (hrem : (s.vol.core i).removed = false) (htype : f.type ≠ .dir) (hk : offset / blkSize ≤ f.blocks) (hlen : 0 < len)
    (hrange : offset < maxFileSize ∧ offset + len < offEnd) :
    Sat (fun _ => False) (sfsIo i buf offset len true) s (fun _ _ => True) E := by
  rw [sfsIo, sat_bind, sat_trylock href, hrem, if_neg (by simp)]
  exact (ioNolock_write (E := E) h.inv hf href htype (.inl hk) hlen hrange).imp (fun _ _ _ => trivial)

end Sfs

namespace Files

variable {s t : Files} {tree : Bool} {f : OpenFile} {g : File} {allowed : Panic → Prop}

lemma fileWrite_sat {R : Files → Prop} (hf : s.find pid fd = some f) (hw : f.writable = true)
    (hsat : Sat allowed (vopWrite f.node buf f.pos len) s.fs
    (fun io fs => R (Files.setPos { s with fs } pid fd (f.pos + io.alen))) (fun _ fs => R { s with fs })) :
    Safe allowed (s.call (.write pid fd buf len)) fun r => R r.2 := by
  refine exec_ok ?_
  rw [fileWrite, sat_bind]
  refine sat_fd2file (fun hnone => by simp [hf] at hnone) fun f' hf' => ?_
  obtain rfl : f = f' := Option.some.inj (hf.symm.trans hf')
  rw [if_neg (by simp [hw]), sat_bind, sat_onFs]
  exact hsat.mono (fun io _ hR => io.sat_result hR fun _ => hR) fun _ _ hR => hR

/-- A write stops exactly when it begins beyond the blocks of the file and the
one it could append. -/
lemma write_stops_iff (h : s.Mounted tree) (hf : s.find pid fd = some f) (hw : f.writable = true)
    (hg : s.fs.vol.file f.node = some g) (htype : g.type ≠ .dir) (hlen : 0 < len)
    (hrange : f.pos < maxFileSize ∧ f.pos + len < offEnd) :
    s.call (.write pid fd buf len) = .error .assertion ↔ g.blocks < f.pos / blkSize := by
  have hi := node_mem hf
  have href := h.refCount hf
  have hdir : s.fs.vol.isDir f.node = false := by rw [Vol.isDir_of_file hg, decide_eq_false htype]
  have hrem := h.good.ok.not_removed_of_file hdir
  constructor
  · intro hcall
    by_contra hk
    have hsafe : Safe (fun _ => False) (s.call (.write pid fd buf len)) fun _ => True := by
      refine fileWrite_sat (R := fun _ => True) hf hw (Sfs.onFile_sat h.good hi trivial fun _ => ?_)
      exact Sfs.sfsIo_returns h.good hg href hrem htype (by omega) hlen hrange
    rw [hcall] at hsafe
    exact hsafe
  · intro hk
    have hsafe : Safe (· = .assertion) (s.call (.write pid fd buf len)) fun _ => False := by
      refine fileWrite_sat (R := fun _ => False) hf hw ?_
      rw [vopWrite, onFile, sat_bind, Sfs.sat_isDir hg href, if_neg (by simp [htype])]
      exact Sfs.sfsIo_beyond hg href hrem htype hk hlen hrange
    cases hcall : s.call (.write pid fd buf len) with
    | error p =>
      rw [hcall] at hsafe
      exact congrArg Except.error hsafe
    | ok r =>
      rw [hcall] at hsafe
      exact hsafe.elim

def boot (n : Nat) : Files := ⟨Sfs.format n false, {blknRoot}, []⟩

lemma boot_mounted (hn : Sfs.FormatOk n) : (boot n).Mounted tree where
  good := Sfs.format_good hn
  root := Multiset.mem_singleton_self _
  unpinned := rfl

abbrev Reached (tree : Bool) : Files → Prop := Reachable step (FileCall.Careful tree) (Mounted tree)

lemma Reached.mounted (hr : Reached tree s) : s.Mounted tree :=
    hr.invariant (fun _ h => h) fun _ _ _ h hc hs => h.step hc hs

/-- No call through a descriptor fails an assertion, and a write from anywhere
else does so only from beyond the blocks. -/
theorem writes_in_map (hr : Reached false s) : (∀ c, c.Careful false s → c.isPath = false → ∃ r, s.call c = .ok r) ∧
    ∀ pid fd f g buf len, s.find pid fd = some f → f.writable = true → s.fs.vol.file f.node = some g →
    g.type ≠ .dir → 0 < len → f.pos < maxFileSize ∧ f.pos + len < offEnd →
    (s.call (.write pid fd buf len) = .error .assertion ↔ g.blocks < f.pos / blkSize) := by
  have hm := hr.mounted
  refine ⟨fun c hc hpath => ?_, fun pid fd f g buf len hf hw hg htype hlen hrange => ?_⟩
  · obtain ⟨r, hcall, -⟩ := (call_ok hm (fun _ => hc) hpath).exists_ok
    exact ⟨r, hcall⟩
  · exact write_stops_iff hm hf hw hg htype hlen hrange

lemma open_careful (h : s.Mounted tree) (hroom : flags.creat = true → s.fs.vol.Roomy) :
    FileCall.Careful tree s (.open pid blknRoot path flags) :=
  have hsure : ∀ {names}, s.fs.vol.Sure blknRoot names := h.good.ok.sure_of_live h.good.ok.root_live
  ⟨h.root, fun hc => ⟨hroom hc, hsure⟩, fun _ => hsure⟩

/-- A new file is open and nothing has been read or written. -/
lemma created_mounted (hs : (boot 100).step (.open 1 blknRoot path flags) = .ok s) : s.Mounted false :=
  have hm : (boot 100).Mounted false := boot_mounted (by decide)
  hm.step (open_careful hm fun _ => hm.good.roomy (by decide)) hs

lemma start_careful (h : (s.find pid fd).all (·.pos == 0) = true) : FileCall.Careful tree s (.write pid fd buf len) := by
  intro f hf _ g _
  have hpos : f.pos = 0 := by simpa [hf] using h
  omega

theorem writes_in_map_first : ∃ s r, (boot 100).step (.open 1 blknRoot [['f']] { acc := .rdwr, creat := true }) = .ok s ∧
      s.call (.write 1 0 (fun _ => 7) 5000) = .ok r := by
  obtain ⟨s, hs, hpos⟩ := endsIn_iff.mp (by decide +kernel :
    endsIn ((boot 100).step (.open 1 blknRoot [['f']] { acc := .rdwr, creat := true }))
      (fun s => (s.find 1 0).all (·.pos == 0)) = true)
  obtain ⟨r, hr⟩ := (writes_in_map (.init (created_mounted hs))).1 _ (start_careful hpos) rfl
  exact ⟨s, r, hs, hr⟩

/-- One process writes two blocks, another truncates the file, and the first
goes on from where it was. -/
theorem write_beyond_blocks : ∃ s, Reachable step (fun s c => c.Fits s) (· = boot 100) s ∧
    s.call (.write 1 0 (fun _ => 7) 1) = .error .assertion :=
  Reachable.exists_of_run [.open 1 blknRoot [['f']] { acc := .rdwr, creat := true },
    .write 1 0 (fun _ => 7) (2 * blkSize), .open 2 blknRoot [['f']] { acc := .wronly, trunc := true }] rfl
    (by decide +kernel)

/-- Calls through read-only descriptors that do not seek beyond the end alter
no file. -/
theorem readers_unaltered (h : s.Mounted tree)
    (hr : Reachable step (fun t c => c.ReadOnly t ∧ c.Inside t) (· = s) t) : s.fs.vol.Unaltered t.fs.vol := by
  have hinv : t.Mounted tree ∧ s.fs.vol.Unaltered t.fs.vol := by
    refine hr.invariant (P := fun t => t.Mounted tree ∧ s.fs.vol.Unaltered t.fs.vol) ?_ ?_
    · rintro _ rfl
      exact ⟨h, .refl _⟩
    · rintro t c t' ⟨hm, hun⟩ hc hs
      have hpath : c.isPath = false := by
        cases c with
        | path c => exact hc.1.elim
        | «open» | close | read | write | seek | fstat | fsync | dup | fork => rfl
      obtain ⟨r, hcall, hleft⟩ := (call_ok hm (fun hn => absurd hc hn) hpath).exists_ok
      obtain rfl : r.2 = t' := by simpa [step, hcall, Except.map] using hs
      exact ⟨hleft.mounted, hun.trans (hleft.unaltered hc)⟩
  exact hinv.2

/-- A process has written five bytes, and another one reads them. -/
theorem readers_unaltered_read : ∃ s t : Files, s.Mounted false ∧ (s.fs.vol.file 3).map (·.size) = some 5 ∧
    s.step (.read 2 0 5) = .ok t ∧ (t.find 2 0).map (·.pos) = some 5 ∧ s.fs.vol.Unaltered t.fs.vol := by
  obtain ⟨s1, h1, hpos, s2, h2, s, h3, hsize, hmode, t, ht, hend⟩ :
      ∃ s1, (boot 100).step (.open 1 blknRoot [['f']] { acc := .rdwr, creat := true }) = .ok s1 ∧
        (s1.find 1 0).all (·.pos == 0) = true ∧ ∃ s2, s1.step (.write 1 0 (fun _ => 7) 5) = .ok s2 ∧
        ∃ s, s2.step (.open 2 blknRoot [['f']] { acc := .rdonly }) = .ok s ∧
          (s.fs.vol.file 3).map (·.size) = some 5 ∧ (s.find 2 0).all (!·.writable) = true ∧
        ∃ t, s.step (.read 2 0 5) = .ok t ∧ (t.find 2 0).map (·.pos) = some 5 := by decide +kernel
  have hm2 := (created_mounted h1).step (start_careful hpos) h2
  have hm : s.Mounted false := hm2.step (open_careful hm2 fun hc => by cases hc) h3
  have hro : FileCall.ReadOnly s (.read 2 0 5) := fun f hf => by simpa [hf] using hmode
  exact ⟨s, t, hm, hsize, ht, hend, readers_unaltered hm (.step (.init rfl) ⟨hro, trivial⟩ ht)⟩

/-- A seek through a read-only descriptor makes the file longer. -/
theorem reader_extends : ∃ s t, Reachable step (fun s c => c.Fits s) (· = boot 100) s ∧
    (s.find 1 0).map (fun f => (f.readable, f.writable)) = some (true, false) ∧
    s.step (.seek 1 0 4096 .set) = .ok t ∧
    (s.fs.vol.file 3).map (fun g => (g.size, g.blocks)) = some (0, 0) ∧
    (t.fs.vol.file 3).map (fun g => (g.size, g.blocks)) = some (4096, 1) := by
  obtain ⟨s, hr, hmode, hbefore, t, ht, hafter⟩ : ∃ s, Reachable step (fun s c => c.Fits s) (· = boot 100) s ∧
      (s.find 1 0).map (fun f => (f.readable, f.writable)) = some (true, false) ∧
      (s.fs.vol.file 3).map (fun g => (g.size, g.blocks)) = some (0, 0) ∧
      ∃ t, s.step (.seek 1 0 4096 .set) = .ok t ∧ (t.fs.vol.file 3).map (fun g => (g.size, g.blocks)) = some (4096, 1) :=
    Reachable.exists_of_run [.open 1 blknRoot [['f']] { acc := .wronly, creat := true }, .close 1 0,
      .open 1 blknRoot [['f']] { acc := .rdonly }] rfl (by decide +kernel)
  exact ⟨s, t, hr, hmode, ht, hbefore, hafter⟩

end Files

end Ucore.Fs
