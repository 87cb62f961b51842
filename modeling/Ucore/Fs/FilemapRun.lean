import Ucore.Fs.FilemapTables
import Ucore.Lib.Holdings

/-!
# Runs of threads that share file tables

Whatever the threads do and however their waits interleave, no assertion of `file.c` and
`fs.c` fails, and each open is closed once, by the thread that uses it last.
-/

namespace Ucore.Fs.Filemap

open Lib
open Multiset (mem_cons_self mem_cons_of_mem)
open Function
open Token (member owner closes opens uses user)

variable {M R : Multiset Token} {k : Nat}

def Call.tokens (k : Nat) : Call → List Token
  | .open fd _ => [.opening k fd]
  | .append fd _ _ => [.opening k fd]
  | .undo fd _ => [.opening k fd]
  | .pipe fd₀ fd₁ => [.opening k fd₀, .opening k fd₁]
  | .use fd era node _ => [.user k fd era node]
  | .close fd => [.closing k fd]
  | .closeall fd => [.closing k fd]
  | .destroy table fd => [.closing table fd, .owner table fd]
  | .fork table => [.member table]

@[simp] def Thread.tokens : Thread → List Token
  | ⟨some k, none⟩ => [.member k]
  | ⟨some k, some c⟩ => .member k :: c.tokens k
  | ⟨none, some (.destroy table fd)⟩ => [.closing table fd, .owner table fd]
  | ⟨none, _⟩ => []

def Home (M : Multiset Token) : Prop :=
  ∀ k fd, ∀ a ∈ M, Token.About k fd a → member k ∈ M ∨ ∃ i, owner k i ∈ M

lemma home_tokens (th : Thread) {k fd : Nat} {a : Token} (ha : a ∈ th.tokens) (hab : Token.About k fd a) :
    member k ∈ th.tokens ∨ ∃ i, owner k i ∈ th.tokens := by
  rcases th with ⟨_ | j, _ | c⟩
  · cases ha
  · cases c with
    | destroy table i => grind [closes, Token.About, Thread.tokens, opens, uses]
    | _ => cases ha
  · obtain rfl := List.mem_singleton.mp ha
    simp [Token.About] at hab
  · cases c <;> simp [Call.tokens] at ha ⊢ <;>
      rcases ha with rfl | rfl | rfl <;> simp_all [Token.About, opens, uses, closes]

lemma home_holdings (l : List Thread) : Home (holdings Thread.tokens l) := by
  grind [mem_holdings, home_tokens, Home]

lemma Home.quiet (h : Home M) (hm : member k ∉ M) (ho : ∀ i, owner k i ∉ M) : Tables.Quiet k M := by
  intro fd a ha hab
  rcases h k fd a ha hab with hk | ⟨i, hi⟩
  · exact hm hk
  · exact ho i hi

lemma Home.cons (h : Home M) : Home (.member k ::ₘ M) := by
  intro j fd a ha hab
  have ha : a ∈ M := by
    refine (Multiset.mem_cons.mp ha).resolve_left ?_
    rintro rfl
    simp [Token.About] at hab
  rcases h j fd a ha hab with hk | ⟨i, hi⟩
  · exact .inl (mem_cons_of_mem hk)
  · exact .inr ⟨i, mem_cons_of_mem hi⟩

def Fine (R : Multiset Token) (x : Except Panic Turn) : Prop :=
  ∃ r, x = .ok r ∧ r.tables.Good (r.thread.tokens + (holdings Thread.tokens r.born + R))

namespace Tables

variable {s s' : Tables} {M R : Multiset Token} {k k' fd fd' e n : Nat} {f u : File} {x : FsStruct}

lemma one_add {a : Token} : (([a] : List Token) : Multiset Token) + M = a ::ₘ M := by
  rw [Multiset.coe_singleton, Multiset.singleton_add]

lemma two_add {a b : Token} : (([a, b] : List Token) : Multiset Token) + M = a ::ₘ b ::ₘ M := by
  rw [← Multiset.cons_coe, Multiset.cons_add, one_add]

lemma fine_wait (h : s.Good (c.tokens k + .member k ::ₘ R)) : Fine R (s.wait k c) := by
  refine ⟨_, rfl, ?_⟩
  rw [Multiset.add_cons] at h
  simpa [← Multiset.cons_coe] using h

lemma fine_exit (h : s.Good (destroyingAt k R r)) : Fine R (.ok ⟨s, ⟨none, r.map (.destroy k)⟩, []⟩) := by
  refine ⟨_, rfl, ?_⟩
  cases r with
  | none => simpa [destroyingAt] using h
  | some fd => simpa [destroyingAt, ← Multiset.cons_coe] using h

lemma fd2file_ok (fd : Nat) (h : s.Inv M) (hm : member k ∈ M) :
    ∃ r, s.fd2file k fd = .ok r ∧ ∀ f, r = .ok f → s.entry k fd = some f ∧ f.status = .opened := by
  obtain ⟨x, hget, hx⟩ := getFilemap_ok h hm
  rw [fd2file, hget]
  simp only [bind, Except.bind]
  split
  · grind [entry]
  · refine ⟨_, rfl, fun f hf => ?_⟩
    cases hf

section

variable (h : s.Good (.member k ::ₘ R))
include h

lemma fine_ret : Fine R (s.ret k) := ⟨_, rfl, by simpa using h⟩

omit h in
lemma fine_waitIf (h : s.Good (closingIf b k fd (.member k ::ₘ R))) : Fine R (waitIf k (.close fd) (s, b)) := by
  cases b with
  | true => exact fine_wait (by rw [Call.tokens, one_add]; exact h)
  | false => exact fine_ret h

omit h in
lemma fine_closeall (h : s.Good (closingAt k (.member k ::ₘ R) r)) : Fine R (.ok ⟨s, ⟨some k, r.map .closeall⟩, []⟩) := by
  cases r with
  | none => exact fine_ret h
  | some fd => exact fine_wait (c := .closeall fd) (by rw [Call.tokens, one_add]; exact h)

omit h in
lemma fine_destroy (h : s.Good (destroyingAt k' (.member k ::ₘ R) r)) :
    Fine R (.ok ⟨s, ⟨some k, r.map (.destroy k')⟩, []⟩) := by
  cases r with
  | none => exact fine_ret h
  | some fd => exact fine_wait (c := .destroy k' fd) (by rw [Call.tokens, two_add]; exact h)

omit h in
lemma fine_free (h : s.Good (.opening k fd ::ₘ .member k ::ₘ R)) :
    Fine R (s.filemapFree k fd >>= fun r => waitIf k (.close fd) r) := by
  obtain ⟨s', hs', hgood⟩ := filemapFree_ok h
  rw [hs']
  exact fine_ret hgood

omit h in
lemma fine_fill (h : s.Good (.opening k fd ::ₘ .member k ::ₘ R)) :
    Fine R (s.fill k fd node pos r w >>= fun s => s.ret k) := by
  obtain ⟨s', hs', hgood⟩ := fill_ok h node pos r w
  rw [hs']
  exact fine_ret hgood

omit h in
lemma finishUse_ok (h : s.Good (.user k fd e n ::ₘ .member k ::ₘ R)) : Fine R (s.finishUse k fd) := by
  obtain ⟨s', b, hs', hgood⟩ := filemapRelease_ok h
  rw [finishUse, hs']
  exact fine_waitIf hgood

lemma startOpen_ok : Fine R (s.startOpen k flags) := by
  obtain ⟨r, hr, hgood⟩ := filemapAlloc_ok h (mem_cons_self ..) none
  rw [startOpen, hr]
  cases r with
  | error e => exact fine_ret h
  | ok p => exact fine_wait (by rw [Call.tokens, one_add]; exact (hgood p.1 p.2 rfl).1)

lemma startPipe_ok : Fine R (s.startPipe k) := by
  obtain ⟨r, hr, hgood⟩ := filemapAlloc_ok h (mem_cons_self ..) none
  rw [startPipe, hr]
  cases r with
  | error e => exact fine_ret h
  | ok p =>
    obtain ⟨fd0, s1⟩ := p
    obtain ⟨h1, -⟩ := hgood fd0 s1 rfl
    obtain ⟨r, hr, hgood⟩ := filemapAlloc_ok h1 (mem_cons_of_mem (mem_cons_self ..)) none
    simp only [bind, Except.bind, hr]
    cases r with
    | error e => exact fine_free h1
    | ok p =>
      obtain ⟨fd1, s2⟩ := p
      refine fine_wait ?_
      rw [Call.tokens, two_add, Multiset.cons_swap]
      exact (hgood fd1 s2 rfl).1

lemma startUse_ok : Fine R (s.startUse k fd may work) := by
  obtain ⟨r, hr, hfile⟩ := fd2file_ok fd h.inv (mem_cons_self ..)
  rw [startUse, hr]
  cases r with
  | error e => exact fine_ret h
  | ok f =>
    obtain ⟨hf, hopened⟩ := hfile f rfl
    simp only [bind, Except.bind]
    split
    · obtain ⟨n, s', hn, hs', hgood⟩ := filemapAcquire_ok h hf hopened
      rw [hs']
      simp only [hn]
      exact fine_wait (by rw [Call.tokens, one_add]; exact hgood)
    · exact fine_ret h

lemma startNoSeek_ok : Fine R (s.startNoSeek k fd) := by
  obtain ⟨r, hr, hfile⟩ := fd2file_ok fd h.inv (mem_cons_self ..)
  rw [startNoSeek, hr]
  cases r with
  | error e => exact fine_ret h
  | ok f =>
    obtain ⟨hf, hopened⟩ := hfile f rfl
    obtain ⟨n, s', -, hs', hgood⟩ := filemapAcquire_ok h hf hopened
    simp only [bind, Except.bind, hs']
    exact finishUse_ok hgood

lemma start_ok (hhome : Home R) (ha : ∀ a, r = .fork false a → s.fs a = none) : Fine R (s.start k r) := by
  have hm : member k ∈ member k ::ₘ R := mem_cons_self ..
  cases r with
  | «open» flags => grind [startOpen_ok, fine_ret, start]
  | mkfifo flags =>
    rw [start]
    split
    · exact startOpen_ok h
    · exact fine_ret h
  | pipe => exact startPipe_ok h
  | close fd =>
    obtain ⟨r, hr, hfile⟩ := fd2file_ok fd h.inv hm
    rw [start, hr]
    cases r with
    | error e => exact fine_ret h
    | ok f =>
      obtain ⟨s', b, hs', hgood, -⟩ := filemapClose_ok h (hfile f rfl).1 (hfile f rfl).2
      simp only [bind, Except.bind, hs']
      exact fine_waitIf hgood
  | read fd => exact startUse_ok h
  | write fd => exact startUse_ok h
  | seek fd pos whence =>
    cases whence with
    | set => exact startUse_ok h
    | cur => exact startUse_ok h
    | fromEnd => exact startUse_ok h
    | other => exact startNoSeek_ok h
  | fstat fd => exact startUse_ok h
  | fsync fd => exact startUse_ok h
  | getdirentry fd => exact startUse_ok h
  | dup fd fd2 =>
    obtain ⟨r, hr, hfile⟩ := fd2file_ok fd h.inv hm
    rw [start, hr]
    cases r with
    | error e => exact fine_ret h
    | ok f =>
      obtain ⟨hf, hopened⟩ := hfile f rfl
      obtain ⟨r, hr, hgood⟩ := filemapAlloc_ok h hm fd2
      simp only [bind, Except.bind, hr]
      cases r with
      | error e => exact fine_ret h
      | ok p =>
        obtain ⟨fd', s1⟩ := p
        obtain ⟨h1, hkeep⟩ := hgood fd' s1 rfl
        obtain ⟨s2, hs2, h2, -⟩ := filemapDup_ok h1 (hkeep k fd f hf (by simp [hopened])) hopened
        simp only [hs2]
        exact fine_ret h2
  | closeall =>
    obtain ⟨x, hget, -⟩ := getFilemap_ok h.inv hm
    obtain ⟨s', r, hs', hgood⟩ := closeFrom_ok (n := fsStructNentry - 2) 2 h hm
    rw [start, hget]
    simp only [bind, Except.bind, hs']
    exact fine_closeall hgood
  | fork share a =>
    obtain ⟨k', s', hs', hgood⟩ := copyFs_ok share a h hm fun hshare => ha a (hshare ▸ rfl)
    rw [start, hs']
    exact fine_wait (by rw [Call.tokens, one_add]; exact hgood)
  | exit =>
    obtain ⟨s', r, hs', hgood⟩ := putFs_ok h hhome.quiet
    rw [start, hs']
    exact fine_exit hgood

end

lemma Good.setPos (h : s.Good M) (pos : Int) (hf : s.entry k fd = some f) :
    (s.setFile k fd { f with pos := pos }).Good M := by
  have hgood : s.Inv (([] : List Token) + M) := by simpa using h.inv
  have hput := hgood.put (B := []) (u := { f with pos := pos }) hf (by simp) (by simp)
    (by simpa [Entry] using h.inv.entry k fd f hf) (h.inv.bound k fd f hf)
    (fun e n hmem => h.inv.seen k fd e n f (by simpa using hmem) hf) fun i hi hlt => h.inv.owned k i hi fd hlt f hf
  exact ⟨by simpa using hput, h.log.put hf Iff.rfl rfl fun hhas => ⟨hhas, rfl⟩⟩

lemma setPos_ok (h : s.Good (.user k fd e n ::ₘ M)) (pos : File → Int) :
    ∃ s', s.setPos k fd pos = .ok s' ∧ s'.Good (.user k fd e n ::ₘ M) := by
  obtain ⟨f, hf, -⟩ := h.inv.of_user
  refine ⟨_, ?_, h.setPos (pos f) hf⟩
  rw [Tables.setPos, getFile_ok hf]
  rfl

lemma resume_ok (h : s.Good (c.tokens k + .member k ::ₘ R)) (hhome : Home R) : Fine R (s.resume k a c) := by
  cases c with
  | «open» fd flags =>
    rw [Call.tokens, one_add] at h
    rw [resume]
    split
    · split
      · exact fine_wait (by rw [Call.tokens, one_add]; exact h)
      · exact fine_fill h
    · exact fine_free h
  | append fd node flags =>
    rw [Call.tokens, one_add] at h
    rw [resume]
    split
    · exact fine_fill h
    · exact fine_wait (by rw [Call.tokens, one_add]; exact h)
  | undo fd node =>
    rw [Call.tokens, one_add] at h
    exact fine_free h
  | pipe fd0 fd1 =>
    rw [Call.tokens, two_add] at h
    rw [resume]
    split
    · obtain ⟨s1, hs1, h1⟩ := fill_ok h a.node 0 true false
      rw [hs1]
      exact fine_fill h1
    · obtain ⟨s1, hs1, h1⟩ := filemapFree_ok h
      rw [hs1]
      exact fine_free h1
  | use fd era node work =>
    rw [Call.tokens, one_add] at h
    cases work with
    | io =>
      obtain ⟨s1, hs1, h1⟩ := setPos_ok h fun f => if f.status = .opened then f.pos + a.num else f.pos
      rw [resume, hs1]
      exact finishUse_ok h1
    | seekEnd pos =>
      rw [resume]
      split
      · obtain ⟨f, hf, -, -, hnode, -⟩ := h.inv.of_user
        rw [getFile_ok hf]
        simp only [bind, Except.bind, hnode]
        exact fine_wait (by rw [Call.tokens, one_add]; exact h)
      · exact finishUse_ok h
    | tryseek pos =>
      rw [resume]
      split
      · obtain ⟨s1, hs1, h1⟩ := setPos_ok h fun _ => pos
        rw [hs1]
        exact finishUse_ok h1
      · exact finishUse_ok h
    | other => exact finishUse_ok h
  | close fd =>
    rw [Call.tokens, one_add] at h
    obtain ⟨f, -, hs1, h1⟩ := freed_ok h
    rw [resume, hs1]
    exact fine_ret h1
  | closeall fd =>
    rw [Call.tokens, one_add] at h
    obtain ⟨f, -, hs1, h1⟩ := freed_ok h
    obtain ⟨s2, r, hs2, h2⟩ := closeFrom_ok (n := fsStructNentry - (fd + 1)) (fd + 1) h1 (mem_cons_self ..)
    rw [resume, hs1]
    simp only [bind, Except.bind, hs2]
    exact fine_closeall h2
  | destroy table fd =>
    rw [Call.tokens, two_add] at h
    obtain ⟨s1, s2, r, hs1, hs2, h2⟩ := resumeDestroy_ok h hhome.cons.quiet
    rw [resume, hs1]
    simp only [bind, Except.bind, hs2]
    exact fine_destroy h2
  | fork table =>
    rw [Call.tokens, one_add] at h
    rw [resume]
    split
    · refine ⟨_, rfl, ?_⟩
      simpa [Multiset.cons_swap] using h
    obtain ⟨s1, r, hs1, h1⟩ := putFs_ok h hhome.cons.quiet
    rw [hs1]
    exact fine_destroy h1

lemma resumeExit_ok (h : s.Good (.closing k fd ::ₘ .owner k fd ::ₘ R)) (hhome : Home R) : Fine R (s.resumeExit k fd) := by
  obtain ⟨s1, s2, r, hs1, hs2, h2⟩ := resumeDestroy_ok h hhome.quiet
  rw [resumeExit, hs1]
  simp only [bind, Except.bind, hs2]
  exact fine_exit h2

end Tables

namespace Sys

variable {s s' : Sys}

def Good (s : Sys) : Prop := s.tables.Good (holdings Thread.tokens s.threads)

lemma turn_ok (h : s.tables.Good (th.tokens + R)) (hhome : Home R) (ha : s.Allowed e) : Fine R (s.turn th e) := by
  have hsame : Fine R (.ok ⟨s.tables, th, []⟩) := ⟨_, rfl, by simpa using h⟩
  rcases th with ⟨_ | k, _ | c⟩
  · cases e <;> exact hsame
  · cases e with
    | start t r => exact hsame
    | finish t a =>
      cases c with
      | destroy table fd => exact Tables.resumeExit_ok (by simpa [← Multiset.cons_coe] using h) hhome
      | _ => exact hsame
  · cases e with
    | start t r =>
      refine Tables.start_ok (by simpa using h) hhome ?_
      rintro a rfl
      exact ha
    | finish t a => exact hsame
  · cases e with
    | start t r => exact hsame
    | finish t a =>
      refine Tables.resume_ok ?_ hhome
      rw [Multiset.add_cons]
      simpa [← Multiset.cons_coe] using h

lemma step_ok (h : s.Good) (ha : s.Allowed e) : ∃ s', s.step e = .ok s' ∧ s'.Good := by
  unfold step
  cases hth : s.threads[e.thread]? with
  | none => exact ⟨s, rfl, h⟩
  | some th =>
    rw [Good, holdings_split hth] at h
    obtain ⟨r, hr, hgood⟩ := turn_ok h (home_holdings _) ha
    simp only [hr, bind, Except.bind]
    refine ⟨_, rfl, ?_⟩
    rw [Good, holdings_append, holdings_set (List.getElem?_eq_some_iff.mp hth).1, ← Multiset.add_assoc,
      Multiset.add_comm (holdings _ _), Multiset.add_assoc]
    exact hgood

lemma boot_good (n : Nat) : (boot n).Good := by
  induction n with
  | zero =>
    refine ⟨⟨?_, ?_, ?_, ?_, ?_, ?_, ?_⟩, ⟨?_, ?_, List.nodup_nil, nofun, nofun⟩⟩ <;>
      simp [boot, Tables.entry, tally]
  | succ n ih =>
    have hnew := Tables.newTable_ok (k := n) ih (if_neg (Nat.lt_irrefl n))
    obtain ⟨t, ht, hgood⟩ := Tables.fsCountInc_new hnew
    have heq : t = (boot (n + 1)).tables := by
      simp only [Tables.fsCountInc, Function.update_self, Except.ok.injEq] at ht
      rw [← ht]
      simp only [boot, Tables.mk.injEq, and_true]
      funext j
      by_cases hj : j = n
      · simp [hj]
      · grind
    have hthreads : (boot (n + 1)).threads = (boot n).threads ++ [⟨some n, none⟩] := by
      simp [boot, List.range_succ]
    rw [Good, ← heq, hthreads, holdings_append]
    simpa using hgood

lemma Reached.good (h : Reached n s) : s.Good := by
  refine Reachable.invariant (P := Good) h (fun _ hs => hs ▸ boot_good n) fun s e s' hs ha hs' => ?_
  grind [step_ok]

lemma tally_holdings {p : Token → Bool} {q : Thread → Bool}
    (h : ∀ th : Thread, th.tokens.countP p = if q th = true then 1 else 0) (l : List Thread) :
    tally p (holdings Thread.tokens l) = l.countP q := by
  induction l with
  | nil => rfl
  | cons th l ih =>
    have hth : tally p (th.tokens : Multiset Token) = th.tokens.countP p := by
      simp [tally, Multiset.coe_countP]
    rw [holdings_cons, Tables.tally_add, ih, hth, h, List.countP_cons, Nat.add_comm]

lemma uses_tokens (k fd : Nat) (th : Thread) : th.tokens.countP (uses k fd) = if th.uses k fd = true then 1 else 0 := by
  rcases th with ⟨_ | k', _ | c⟩
  · rfl
  · cases c <;> rfl
  · rfl
  · cases c <;> simp [Call.tokens, Thread.uses, List.countP_cons]

lemma closes_tokens (k fd : Nat) (th : Thread) :
    th.tokens.countP (closes k fd) = if th.closes k fd = true then 1 else 0 := by
  rcases th with ⟨_ | k', _ | c⟩
  · rfl
  · cases c <;> simp [Thread.closes, List.countP_cons]
  · rfl
  · cases c <;> simp [Call.tokens, Thread.closes, List.countP_cons]

/-- What holds of the tables between two turns. The opens are numbered. -/
structure Protocol (s : Sys) : Prop where
  /-- `open_count` counts the operations, and one for the descriptor. -/
  count : ∀ k fd f, s.tables.entry k fd = some f → f.openCount = (if f.status = .opened then 1 else 0) + s.inFlight k fd
  once : (s.tables.closes.map Prod.fst).Nodup
  node : ∀ p ∈ s.tables.closes, s.tables.opens[p.1]? = some p.2
  /-- An open is closed exactly when the count of its entry is zero. -/
  zero : ∀ e < s.tables.opens.length, e ∈ s.tables.closes.map Prod.fst ↔
    ∀ k fd f, s.tables.entry k fd = some f → f.era = e → f.openCount = 0
  /-- An entry is free only when `vfs_close` has returned. -/
  closing : ∀ k fd f, s.tables.entry k fd = some f → s.closers k fd = if f.status = .closed ∧
    f.openCount = 0 then 1 else 0
  free : ∀ k fd f, s.tables.entry k fd = some f → f.status = .none ∨ f.status = .init → f.openCount = 0
  /-- An operation sees the inode of the open it began with. -/
  seen : ∀ k fd era node work, ⟨some k, some (.use fd era node work)⟩ ∈ s.threads → ∃ f, s.tables.entry k fd = some f ∧
    f.HasNode ∧ f.era = era ∧ f.node = some node ∧ s.tables.opens[era]? = some node

lemma Good.protocol (h : s.Good) : s.Protocol := by
  have hentry : ∀ k fd f, s.tables.entry k fd = some f →
      Entry f (s.inFlight k fd) (tally (opens k fd) (holdings Thread.tokens s.threads)) (s.closers k fd) := by
    intro k fd f hf
    have he := h.inv.entry k fd f hf
    rwa [tally_holdings (uses_tokens k fd), tally_holdings (closes_tokens k fd)] at he
  refine ⟨?_, h.log.once, h.log.logged, ?_, ?_, ?_, ?_⟩
  · intro k fd f hf
    have he := hentry k fd f hf
    cases hst : f.status <;> simp only [Entry, hst] at he <;> simp <;> omega
  · grind [h.log.live]
  · intro k fd f hf
    have he := hentry k fd f hf
    cases hst : f.status <;> simp only [Entry, hst] at he <;> simp [he]
  · grind [Entry]
  · intro k fd era node work hth
    have hmem : user k fd era node ∈ holdings Thread.tokens s.threads := mem_holdings.mpr ⟨_, hth, by simp [Call.tokens]⟩
    grind [Multiset.exists_cons_of_mem, Tables.Inv.of_user, h.inv, h.log.stamped]

/-- For any number of processors, whatever threads do and however their waits
end and interleave, the protocol holds and no assertion fails. -/
theorem file_tables (h : Reached n s) : s.Protocol ∧ ∀ e, s.Allowed e → ∃ s', s.step e = .ok s' := by
  grind [step_ok, h.good.protocol, h.good]

instance (s : Sys) (e : Event) : Decidable (s.Allowed e) := by
  unfold Allowed
  split <;> infer_instance

/-- Two threads share a table, and one closes a file that the other one is reading. The
count that the read holds keeps the open from being closed. -/
theorem file_tables_shared : ∃ s f s', Reached 1 s ∧ s.tables.entry 0 0 = some f ∧ f.status = .closed ∧ f.openCount = 1 ∧
    s.tables.closes = [] ∧ s.step (.finish 1 ⟨true, 0, 0, 8⟩) = .ok s' ∧ s'.Protocol := by
  obtain ⟨s, hs, ⟨f, hf, hclosed⟩, hread, hnone⟩ : ∃ s, Reached 1 s ∧
      (∃ f, s.tables.entry 0 0 = some f ∧ f.status = .closed) ∧ s.inFlight 0 0 = 1 ∧ s.tables.closes = [] :=
    Reachable.exists_of_run [.start 0 (.open { acc := .rdonly }), .finish 0 ⟨true, 5, 0, 0⟩, .start 0 (.fork true 1),
      .finish 0 ⟨true, 0, 0, 0⟩, .start 1 (.read 0), .start 0 (.close 0)] rfl (by decide +kernel)
  obtain ⟨hprotocol, hnext⟩ := file_tables hs
  have hallowed : s.Allowed (.finish 1 ⟨true, 0, 0, 8⟩) := trivial
  obtain ⟨s', hs'⟩ := hnext _ hallowed
  have hcount := hprotocol.count 0 0 f hf
  rw [hclosed, hread] at hcount
  exact ⟨s, f, s', hs, hf, hclosed, hcount, hnone, hs', (file_tables (hs.step hallowed hs')).1⟩

end Sys

end Ucore.Fs.Filemap
