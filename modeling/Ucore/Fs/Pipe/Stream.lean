import Ucore.Fs.Pipe.State

/-!
# Pipes are byte streams

The bytes stored and not yet fetched are those in the buffer, and each call that writes
has stored the first bytes of its data.
-/

namespace Ucore.Fs.Pipe

open Ucore.Lib Ucore.Sync Function

def Result.got : Result → List UInt8
  | .read _ got _ => got
  | .write .. => []

def bytesOf (k : Nat) (stored : List (Nat × UInt8)) : List UInt8 := (stored.filter fun e => e.1 == k).map Prod.snd

namespace PipeState

variable {s s' : PipeState} {k : Nat} {data : List UInt8}

def unread (s : PipeState) : List UInt8 := window s.buf pipeBufsize s.rpos s.wpos

def request (s : PipeState) (k : Nat) : Option Request := (s.calls k).map Call.request

structure Stream (s : PipeState) : Prop where
  le : s.rpos ≤ s.wpos
  room : s.wpos ≤ s.rpos + pipeBufsize
  fifo : s.fetched ++ s.unread = s.stored.map Prod.snd
  got : s.results.flatMap Result.got = s.fetched
  drained : ∀ n, .read n [] false ∈ s.results → n = 0 ∨ s.isclosed = true ∧ s.rpos = s.wpos

structure Accounts (busy : Option Nat) (s : PipeState) : Prop where
  begun : ∀ e ∈ s.stored, e.1 < s.begun
  calls : ∀ k r, s.request k = some r → k < s.begun
  writing : ∀ k data ret, busy ≠ some k → s.request k = some (.write data ret) →
    ret ≤ data.length ∧ bytesOf k s.stored = data.take ret
  written : ∀ k data ret, .write k data ret ∈ s.results →
    ret ≤ data.length ∧ bytesOf k s.stored = data.take ret ∧ s.request k = none ∧ k < s.begun

structure Inv (s : PipeState) : Prop where
  stream : s.Stream
  accounts : s.Accounts none
  free : s.sem = 1

structure Pending (s : PipeState) (k : Nat) (r : Request) : Prop where
  begun : k < s.begun
  unfinished : ∀ data ret, .write k data ret ∉ s.results
  writing : ∀ data ret, r = .write data ret → ret ≤ data.length ∧ bytesOf k s.stored = data.take ret

@[simp] lemma request_wakeup (c : Call) : c.wakeup.request = c.request := by
  unfold Call.wakeup
  split <;> rfl

@[simp] lemma request_kill (c : Call) : c.kill.request = c.request := by
  unfold Call.kill
  split <;> rfl

lemma request_wakeupReader : s.wakeupReader.request k = s.request k := by
  simp only [request, wakeupReader, Option.map_map, Function.comp_def]
  refine congrArg (Option.map · (s.calls k)) (funext fun c => ?_)
  split <;> simp

lemma request_wakeupWriter : s.wakeupWriter.request k = s.request k := by
  simp only [request, wakeupWriter, Option.map_map, Function.comp_def]
  refine congrArg (Option.map · (s.calls k)) (funext fun c => ?_)
  split <;> simp

lemma request_block : (s.block k r p).request j = if j = k then some r else s.request j := by
  by_cases hj : j = k
  · simp [request, block, hj]
  · simp [request, block, hj]

lemma request_finish : (s.finish k r).request j = if j = k then none else s.request j := by
  by_cases hj : j = k
  · simp [request, finish, hj]
  · simp [request, finish, hj]

lemma Accounts.congr (h : s.Accounts busy) (hreq : ∀ k, s'.request k = s.request k) (hs : s'.stored = s.stored)
    (hb : s'.begun = s.begun) (hr : s'.results = s.results) : s'.Accounts busy := by
  refine ⟨by rw [hs, hb]; exact h.begun, ?_, ?_, ?_⟩
  · intro k r hk
    rw [hb]
    exact h.calls k r ((hreq k).symm.trans hk)
  · intro k data ret hb hk
    rw [hs]
    exact h.writing k data ret hb ((hreq k).symm.trans hk)
  · intro k data ret hk
    rw [hr] at hk
    rw [hs, hb, hreq]
    exact h.written k data ret hk

lemma Accounts.wakeupReader (h : s.Accounts busy) : s.wakeupReader.Accounts busy :=
  h.congr (fun _ => request_wakeupReader) rfl rfl rfl

lemma Accounts.wakeupWriter (h : s.Accounts busy) : s.wakeupWriter.Accounts busy :=
  h.congr (fun _ => request_wakeupWriter) rfl rfl rfl

lemma Accounts.begin (h : s.Accounts none) : s.Accounts (some k) :=
  ⟨h.begun, h.calls, fun j data ret _ => h.writing j data ret nofun, h.written⟩

lemma Accounts.block (h : s.Accounts (some k)) (hk : s.Pending k r) : (s.block k r p).Accounts none := by
  refine ⟨h.begun, ?_, ?_, ?_⟩
  · intro j r' hj
    rw [request_block] at hj
    split at hj
    · rename_i heq
      exact heq ▸ hk.begun
    · exact h.calls j r' hj
  · intro j data ret _ hj
    rw [request_block] at hj
    split at hj
    · rename_i heq
      subst heq
      exact hk.writing data ret (Option.some.inj hj)
    · rename_i hne
      exact h.writing j data ret (fun heq => hne (Option.some.inj heq).symm) hj
  · intro j data ret hj
    obtain ⟨h1, h2, h3, h4⟩ := h.written j data ret hj
    grind [request_block, hk.unfinished, PipeState.block]

lemma Accounts.finish (h : s.Accounts (some k)) (hk : s.Pending k r)
    (hres : ∀ j data ret, res = .write j data ret → j = k ∧ r = .write data ret) : (s.finish k res).Accounts none := by
  have hreq : ∀ j r, (s.finish k res).request j = some r → k ≠ j ∧ s.request j = some r := by
    intro j r hj
    rw [request_finish] at hj
    split at hj
    · cases hj
    · rename_i hne
      exact ⟨fun heq => hne heq.symm, hj⟩
  refine ⟨h.begun, fun j r hj => h.calls j r (hreq j r hj).2,
    fun j data ret _ hj => h.writing j data ret (by simpa using (hreq j _ hj).1) (hreq j _ hj).2, ?_⟩
  intro j data ret hj
  rw [request_finish]
  rcases List.mem_append.mp hj with hj | hj
  · obtain ⟨h1, h2, h3, h4⟩ := h.written j data ret hj
    refine ⟨h1, h2, ?_, h4⟩
    split
    · rfl
    · exact h3
  · obtain ⟨rfl, hr⟩ := hres j data ret (List.mem_singleton.mp hj).symm
    obtain ⟨h1, h2⟩ := hk.writing data ret hr
    exact ⟨h1, h2, if_pos rfl, hk.begun⟩

lemma Stream.finish (h : s.Stream) (hgot : res.got = [])
    (hres : ∀ n, res = .read n [] false → n = 0 ∨ s.isclosed = true ∧ s.rpos = s.wpos) : (s.finish k res).Stream := by
  refine ⟨h.le, h.room, h.fifo, ?_, ?_⟩
  · simp [PipeState.finish, hgot, h.got]
  · grind [h.drained, PipeState.finish]

lemma fetch_eq (hle : s.rpos ≤ s.wpos) : s.fetch n = (s.unread.take n,
    { s with rpos := min (s.rpos + n) s.wpos, fetched := s.fetched ++ s.unread.take n }) := by
  induction n generalizing s with
  | zero => simp [fetch, Nat.min_eq_left hle]
  | succ n ih =>
    rw [fetch]
    split
    · rename_i hempty
      have hempty' : s.rpos = s.wpos := hempty
      have hmin : min (s.rpos + (n + 1)) s.wpos = s.rpos := by omega
      have hu : s.unread = [] := window_eq_nil (Nat.le_of_eq hempty'.symm)
      rw [hu, List.take_nil, List.append_nil, hmin]
    rename_i hne
    have hlt : s.rpos < s.wpos := Nat.lt_of_le_of_ne hle hne
    have hu : s.unread = s.buf (s.rpos % pipeBufsize) :: window s.buf pipeBufsize (s.rpos + 1) s.wpos := window_pop hlt
    simp only [ih (s := { s with rpos := s.rpos + 1, fetched := s.fetched ++ [s.buf (s.rpos % pipeBufsize)] }) hlt, hu,
      List.take_succ_cons, List.append_assoc]
    simp only [unread, List.singleton_append, Prod.mk.injEq, true_and]
    rw [Nat.add_right_comm, Nat.add_assoc]

lemma Stream.fetch {cs : Nat → Option Call} {m : Nat} (h : s.Stream) (hne : s.rpos ≠ s.wpos) : ({ s with
    rpos := min (s.rpos + n) s.wpos, fetched := s.fetched ++ s.unread.take n
    calls := cs, sem := m }.finish k (.read n (s.unread.take n) false)).Stream := by
  have hle := h.le
  have hroom := h.room
  refine ⟨?_, ?_, ?_, ?_, ?_⟩
  · exact Nat.min_le_right ..
  · show s.wpos ≤ min (s.rpos + n) s.wpos + pipeBufsize
    omega
  · have hdrop : window s.buf pipeBufsize (min (s.rpos + n) s.wpos) s.wpos = s.unread.drop n := window_drop hle n
    show s.fetched ++ s.unread.take n ++ window s.buf pipeBufsize (min (s.rpos + n) s.wpos) s.wpos = _
    rw [hdrop, List.append_assoc, List.take_append_drop]
    exact h.fifo
  · simp [PipeState.finish, Result.got, h.got]
  · intro m hm
    show m = 0 ∨ s.isclosed = true ∧ min (s.rpos + n) s.wpos = s.wpos
    rcases List.mem_append.mp hm with hm | hm
    · grind [h.drained]
    · grind [unread, List.length_nil, length_window]

lemma store_eq (data : List UInt8) (hle : s.rpos ≤ s.wpos)
    (hroom : s.wpos ≤ s.rpos + pipeBufsize) : ∃ m buf, m ≤ data.length ∧
    s.store k data = (m, { s with
      buf := buf, wpos := s.wpos + m, stored := s.stored ++ (data.take m).map fun b => (k, b) }) ∧
    s.wpos + m ≤ s.rpos + pipeBufsize ∧
    window buf pipeBufsize s.rpos (s.wpos + m) = s.unread ++ data.take m := by
  induction data generalizing s with
  | nil => exact ⟨0, s.buf, Nat.le_refl _, by simp [store], hroom, by simp [unread]⟩
  | cons b data ih =>
    rw [store]
    split
    · exact ⟨0, s.buf, Nat.zero_le _, by simp, hroom, by simp [unread]⟩
    rename_i hfull
    have hlt : s.wpos < s.rpos + pipeBufsize := by
      unfold isFull at hfull
      omega
    obtain ⟨m, buf, hm, hstore, hw, hwin⟩ := ih (s := { s with
      buf := update s.buf (s.wpos % pipeBufsize) b, wpos := s.wpos + 1
      stored := s.stored ++ [(k, b)] }) (Nat.le_succ_of_le hle) hlt
    refine ⟨m + 1, buf, Nat.succ_le_succ hm, ?_, ?_, ?_⟩
    · rw [hstore, List.take_succ_cons, List.map_cons]
      simp [Nat.add_comm 1 m, Nat.add_assoc]
    · rw [Nat.add_comm m 1, ← Nat.add_assoc]
      exact hw
    · rw [Nat.add_comm m 1, ← Nat.add_assoc]
      refine hwin.trans ?_
      show window (update s.buf (s.wpos % pipeBufsize) b) pipeBufsize s.rpos (s.wpos + 1) ++ data.take m = _
      rw [window_push hle hlt, Nat.add_comm 1 m, List.take_succ_cons, List.append_assoc]
      rfl

lemma bytesOf_append : bytesOf k (l ++ l') = bytesOf k l ++ bytesOf k l' := by simp [bytesOf]

lemma bytesOf_self : bytesOf k (data.map fun b => (k, b)) = data := by
  simp [bytesOf, List.filter_map, Function.comp_def]

lemma bytesOf_other (h : j ≠ k) : bytesOf j (data.map fun b => (k, b)) = [] := by
  simp [bytesOf, List.filter_map, Function.comp_def, h.symm]

lemma Accounts.store (buf : Nat → UInt8) {w n m ret : Nat} (h : s.Accounts (some k))
    (hk : s.Pending k (.write data ret)) (hm : m ≤ (data.drop ret).length) :
    let s' := { s with
      buf := buf, wpos := w, sem := n, stored := s.stored ++ ((data.drop ret).take m).map fun b => (k, b) }
    s'.Accounts (some k) ∧ s'.Pending k (.write data (ret + m)) := by
  intro s'
  have hother : ∀ j ≠ k, bytesOf j s'.stored = bytesOf j s.stored := by
    intro j hj
    rw [bytesOf_append, bytesOf_other hj, List.append_nil]
  obtain ⟨hret, hbytes⟩ := hk.writing data ret rfl
  refine ⟨⟨?_, h.calls, ?_, ?_⟩, hk.begun, hk.unfinished, ?_⟩
  · intro e he
    rcases List.mem_append.mp he with he | he
    · exact h.begun e he
    · obtain ⟨b, -, rfl⟩ := List.mem_map.mp he
      exact hk.begun
  · intro j d r hb hj
    rw [hother j fun heq => hb (congrArg some heq.symm)]
    exact h.writing j d r hb hj
  · intro j d r hj
    rw [hother j fun heq => hk.unfinished d r (heq ▸ hj)]
    exact h.written j d r hj
  · rintro d r ⟨⟩
    rw [List.length_drop] at hm
    refine ⟨by omega, ?_⟩
    rw [bytesOf_append, bytesOf_self, hbytes, ← List.take_add]

lemma Stream.store {buf : Nat → UInt8} {n m : Nat} (h : s.Stream) (hopen : s.isclosed = false)
    (hw : s.wpos + m ≤ s.rpos + pipeBufsize)
    (hwin : window buf pipeBufsize s.rpos (s.wpos + m) = s.unread ++ data.take m) :
    { s with
      buf := buf, wpos := s.wpos + m, sem := n, stored := s.stored ++ (data.take m).map fun b => (k, b) }.Stream := by
  refine ⟨Nat.le_trans h.le (Nat.le_add_right ..), hw, ?_, h.got, ?_⟩
  · show s.fetched ++ window buf pipeBufsize s.rpos (s.wpos + m) = _
    rw [hwin, ← List.append_assoc, h.fifo]
    simp [Function.comp_def]
  · grind [h.drained]

lemma Pending.congr (h : s.Pending k r) (hb : s'.begun = s.begun) (hs : s'.stored = s.stored)
    (hr : s'.results = s.results) : s'.Pending k r :=
  ⟨hb ▸ h.begun, by rw [hr]; exact h.unfinished, by rw [hs]; exact h.writing⟩

lemma unlock_lock (h : s.sem = 1) : s.lockState.unlockState = s := by
  have hsem : s.sem - 1 + 1 = s.sem := by rw [h]
  show { s with sem := s.sem - 1 + 1 } = s
  rw [hsem]

section

variable (h : s.Inv)
include h

lemma Inv.block (hk : s.Pending k r) : (s.block k r p).Inv :=
  ⟨⟨h.stream.le, h.stream.room, h.stream.fifo, h.stream.got, h.stream.drained⟩, h.accounts.begin.block hk, h.free⟩

lemma Inv.pipeStateRead (hk : s.Pending k (.read n)) : (s.pipeStateRead k n).Inv := by
  have hstream := h.stream
  rw [PipeState.pipeStateRead, if_neg (by rw [h.free]; decide)]
  dsimp only
  split
  · rename_i hempty
    rw [unlock_lock h.free]
    split
    · rename_i hclosed
      refine ⟨hstream.finish rfl fun m hm => .inr ⟨hclosed, hempty⟩, h.accounts.begin.finish hk nofun, h.free⟩
    · exact h.block hk
  rename_i hempty
  rw [fetch_eq (s := s.lockState) hstream.le]
  refine ⟨?_, ?_, ?_⟩
  · split
    · exact hstream.fetch hempty
    · exact hstream.fetch hempty
  · split
    · refine Accounts.finish (r := .read n) (h.accounts.begin.congr (fun j => ?_) rfl rfl rfl)
        (hk.congr rfl rfl rfl) nofun
      exact request_wakeupWriter
    · exact Accounts.finish (r := .read n) (h.accounts.begin.congr (fun _ => rfl) rfl rfl rfl)
        (hk.congr rfl rfl rfl) nofun
  · split
    · show s.sem - 1 + 1 = 1
      rw [h.free]
    · show s.sem - 1 + 1 = 1
      rw [h.free]

lemma Inv.pipeStateWrite (hk : s.Pending k (.write data ret)) : (s.pipeStateWrite k data ret).Inv := by
  have hstream := h.stream
  have hfree : s.sem - 1 + 1 = 1 := by rw [h.free]
  rw [PipeState.pipeStateWrite, if_neg (by rw [h.free]; decide)]
  dsimp only
  split
  · rw [unlock_lock h.free]
    refine ⟨hstream.finish rfl nofun, h.accounts.begin.finish hk ?_, h.free⟩
    rintro j d r ⟨⟩
    exact ⟨rfl, rfl⟩
  rename_i hopen
  obtain ⟨m, buf, hm, hstore, hw, hwin⟩ := store_eq (data.drop ret) (s := s.lockState) (k := k) hstream.le hstream.room
  rw [hstore]
  have hs := hstream.store (k := k) (n := s.sem - 1 + 1) (Bool.eq_false_iff.mpr hopen) hw hwin
  obtain ⟨ha, hp⟩ := h.accounts.begin.store buf (w := s.wpos + m) (n := s.sem - 1 + 1) hk hm
  simp only
  split
  · refine ⟨⟨hs.le, hs.room, hs.fifo, hs.got, hs.drained⟩, ?_, hfree⟩
    refine Accounts.block (ha.congr (fun j => ?_) rfl rfl rfl) (hp.congr rfl rfl rfl)
    exact request_wakeupReader
  have hres : ∀ j d r, Result.write k data (ret + m) = .write j d r → j = k ∧
    Request.write data (ret + m) = .write d r := by
    rintro j d r ⟨⟩
    exact ⟨rfl, rfl⟩
  split
  · refine ⟨Stream.finish ⟨hs.le, hs.room, hs.fifo, hs.got, hs.drained⟩ rfl nofun, ?_, hfree⟩
    refine Accounts.finish (ha.congr (fun j => ?_) rfl rfl rfl) (hp.congr rfl rfl rfl) hres
    exact request_wakeupReader
  · refine ⟨Stream.finish ⟨hs.le, hs.room, hs.fifo, hs.got, hs.drained⟩ rfl nofun, ?_, hfree⟩
    exact Accounts.finish (ha.congr (fun _ => rfl) rfl rfl rfl) (hp.congr rfl rfl rfl) hres

lemma Inv.attempt (hk : s.Pending k r) : (s.attempt k r).Inv := by
  cases r with
  | read n => exact h.pipeStateRead hk
  | write data ret => exact h.pipeStateWrite hk

lemma Inv.interrupt (hk : s.Pending k r) : (s.interrupt k r).Inv := by
  cases r with
  | read n => exact ⟨h.stream.finish rfl nofun, h.accounts.begin.finish hk nofun, h.free⟩
  | write data ret =>
    refine ⟨h.stream.finish rfl nofun, h.accounts.begin.finish hk ?_, h.free⟩
    rintro j d r ⟨⟩
    exact ⟨rfl, rfl⟩

lemma Inv.pending (hc : s.calls k = some c) : s.Pending k c.request := by
  have hreq : s.request k = some c.request := by rw [request, hc]; rfl
  refine ⟨h.accounts.calls k _ hreq, ?_, ?_⟩
  · intro data ret hmem
    obtain ⟨-, -, hnone, -⟩ := h.accounts.written k data ret hmem
    rw [hreq] at hnone
    cases hnone
  · intro data ret hr
    exact h.accounts.writing k data ret nofun (hr ▸ hreq)

lemma Inv.resume (hc : s.calls k = some c) : (s.resume k c).Inv := by
  have hk := h.pending hc
  grind [PipeState.resume, h.attempt, h.interrupt]

lemma Inv.begin (hr : ∀ data ret, r = .write data ret → ret = 0) :
    ({ s with begun := s.begun + 1 }.attempt s.begun r).Inv := by
  have hnew : { s with begun := s.begun + 1 }.Inv := by
    refine ⟨⟨h.stream.le, h.stream.room, h.stream.fifo, h.stream.got, h.stream.drained⟩, ⟨?_, ?_, ?_, ?_⟩, h.free⟩
    · exact fun e he => Nat.lt_succ_of_lt (h.accounts.begun e he)
    · exact fun k r hk => Nat.lt_succ_of_lt (h.accounts.calls k r hk)
    · exact h.accounts.writing
    · intro k data ret hk
      obtain ⟨h1, h2, h3, h4⟩ := h.accounts.written k data ret hk
      exact ⟨h1, h2, h3, Nat.lt_succ_of_lt h4⟩
  refine hnew.attempt ⟨Nat.lt_succ_self _, ?_, ?_⟩
  · intro data ret hmem
    exact absurd (h.accounts.written _ data ret hmem).2.2.2 (Nat.lt_irrefl _)
  · intro data ret heq
    obtain rfl := hr data ret heq
    refine ⟨Nat.zero_le _, ?_⟩
    rw [List.take_zero, bytesOf, List.map_eq_nil_iff, List.filter_eq_nil_iff]
    intro e he
    simpa using Nat.ne_of_lt (h.accounts.begun e he)

lemma Inv.pipeStateClose : s.pipeStateClose.Inv := by
  refine ⟨⟨h.stream.le, h.stream.room, h.stream.fifo, h.stream.got, ?_⟩, ?_, h.free⟩
  · intro n hn
    exact (h.stream.drained n hn).imp_right fun hd => ⟨rfl, hd.2⟩
  · have hclosed : Accounts none { s with isclosed := true } := h.accounts.congr (fun _ => rfl) rfl rfl rfl
    exact hclosed.wakeupReader.wakeupWriter

lemma Inv.step (hs : s.step e = .ok s') : s'.Inv := by
  cases e with
  | read n => exact Except.ok.inj hs ▸ h.begin nofun
  | write data => exact Except.ok.inj hs ▸ h.begin fun _ _ heq => (Request.write.inj heq).2.symm
  | close => exact Except.ok.inj hs ▸ h.pipeStateClose
  | resume k =>
    obtain rfl := Except.ok.inj hs
    split
    · exact h.resume ‹_›
    · exact h
  | kill k =>
    obtain rfl := Except.ok.inj hs
    refine ⟨⟨h.stream.le, h.stream.room, h.stream.fifo, h.stream.got, h.stream.drained⟩, ?_, h.free⟩
    refine h.accounts.congr (fun j => ?_) rfl rfl rfl
    by_cases hj : j = k
    · simp [hj, request, Function.comp_def]
    · simp [hj, request]

end

def Reached : PipeState → Prop := Reachable PipeState.step (fun _ _ => True) (· = create)

lemma Inv.create : create.Inv where
  stream := ⟨Nat.le_refl _, Nat.zero_le _, rfl, rfl, nofun⟩
  accounts := ⟨nofun, nofun, nofun, nofun⟩
  free := rfl

lemma Reached.inv (h : Reached s) : s.Inv := h.invariant (fun _ hs => hs ▸ Inv.create) fun _ _ _ h _ hs => h.step hs

/-- A pipe is a stream of bytes: what reads have returned and what is in the buffer make
up what writes have stored. A read that was not interrupted returns nothing only for `n
= 0`, or when a closed pipe has been read to its end. -/
theorem pipe_fifo (h : Reached s) : s.results.flatMap Result.got ++ s.unread = s.stored.map Prod.snd ∧
    (∀ k data ret, .write k data ret ∈ s.results → ret ≤ data.length ∧ bytesOf k s.stored = data.take ret) ∧
    (s.rpos ≤ s.wpos ∧ s.wpos - s.rpos ≤ pipeBufsize) ∧
    ∀ n, .read n [] false ∈ s.results → n = 0 ∨ s.isclosed = true ∧ s.rpos = s.wpos := by
  have hinv := h.inv
  refine ⟨?_, ?_, ⟨hinv.stream.le, Nat.sub_le_iff_le_add'.mpr hinv.stream.room⟩, hinv.stream.drained⟩
  · rw [hinv.stream.got]
    exact hinv.stream.fifo
  · intro k data ret hmem
    obtain ⟨h1, h2, -⟩ := hinv.accounts.written k data ret hmem
    exact ⟨h1, h2⟩

theorem pipe_fifo_two : bytesOf 0 ({ create with begun := 1 }.attempt 0 (.write [7, 8] 0)).stored = [7, 8] :=
  ((pipe_fifo (.step (.init rfl) trivial (a := .write [7, 8]) rfl)).2.1 0 [7, 8] 2 (by decide)).2

end PipeState

end Ucore.Fs.Pipe
