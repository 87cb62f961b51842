import Ucore.Fs.Filemap

/-!
# The protocol of file tables

A thread inside a call holds tokens: for its table, for an entry it fills, uses or
closes, and for a table that no thread has.
-/

namespace Ucore.Fs.Filemap

open Lib Function
open Multiset (mem_coe mem_add mem_cons_self coe_singleton singleton_add mem_cons mem_cons_of_mem coe_nil)
open Option (some)

inductive Token
  | member (k : Nat)
  | owner (k i : Nat)
  | opening (k fd : Nat)
  | user (k fd era node : Nat)
  | closing (k fd : Nat)
  deriving DecidableEq

namespace Token

@[simp] def isMember (k : Nat) : Token → Bool
  | member k' => k' == k
  | _ => false

@[simp] def owns (k : Nat) : Token → Bool
  | owner k' _ => k' == k
  | _ => false

@[simp] def opens (k fd : Nat) : Token → Bool
  | opening k' fd' => k' == k && fd' == fd
  | _ => false

@[simp] def uses (k fd : Nat) : Token → Bool
  | user k' fd' _ _ => k' == k && fd' == fd
  | _ => false

@[simp] def closes (k fd : Nat) : Token → Bool
  | closing k' fd' => k' == k && fd' == fd
  | _ => false

def About (k fd : Nat) (a : Token) : Prop := a.opens k fd = true ∨ a.uses k fd = true ∨ a.closes k fd = true

end Token

open Token (About uses)

def tally (p : Token → Bool) (M : Multiset Token) : Nat := M.countP fun a => p a = true

def Entry (f : File) (users openers closers : Nat) : Prop :=
  match f.status with
  | .none => f.openCount = 0 ∧ users = 0 ∧ openers = 0 ∧ closers = 0
  | .init => f.openCount = 0 ∧ users = 0 ∧ openers = 1 ∧ closers = 0
  | .opened => f.openCount = users + 1 ∧ openers = 0 ∧ closers = 0
  | .closed => f.openCount = users ∧ openers = 0 ∧ closers = if users = 0 then 1 else 0

def File.HasNode (f : File) : Prop := f.status = .opened ∨ f.status = .closed

namespace Tables

variable {s s' : Tables} {M R : Multiset Token} {A B : List Token} {k k' fd fd' e n : Nat} {f u : File} {x : FsStruct}

structure Inv (s : Tables) (M : Multiset Token) : Prop where
  entry : ∀ k fd f, s.entry k fd = some f →
    Entry f (tally (uses k fd) M) (tally (Token.opens k fd) M) (tally (Token.closes k fd) M)
  bound : ∀ k fd f, s.entry k fd = some f → fsStructNentry ≤ fd → f.status = .none
  placed : ∀ k fd, ∀ a ∈ M, a.About k fd → ∃ f, s.entry k fd = some f
  seen : ∀ k fd e n f, Token.user k fd e n ∈ M → s.entry k fd = some f → f.era = e ∧ f.node = some n
  refs : ∀ k x, s.fs k = some x → tally (Token.isMember k) M = x.fsCount ∧
    tally (Token.owns k) M = if x.fsCount = 0 then 1 else 0
  gone : ∀ k, s.fs k = none → tally (Token.isMember k) M = 0 ∧ tally (Token.owns k) M = 0
  owned : ∀ k i, Token.owner k i ∈ M → ∀ fd < i, ∀ f, s.entry k fd = some f → f.status = .none

structure Log (s : Tables) : Prop where
  stamped : ∀ k fd f, s.entry k fd = some f → f.HasNode → ∃ n, f.node = some n ∧ s.opens[f.era]? = some n
  apart : ∀ k fd f k' fd' u, s.entry k fd = some f → s.entry k' fd' = some u → 0 < f.openCount → 0 < u.openCount →
    f.era = u.era → k = k' ∧ fd = fd'
  once : (s.closes.map Prod.fst).Nodup
  logged : ∀ p ∈ s.closes, s.opens[p.1]? = some p.2
  live : ∀ e < s.opens.length, e ∉ s.closes.map Prod.fst ↔ ∃ k fd f, s.entry k fd = some f ∧ f.era = e ∧ 0 < f.openCount

structure Good (s : Tables) (M : Multiset Token) : Prop where
  inv : s.Inv M
  log : s.Log

@[simp] lemma tally_cons : tally p (a ::ₘ M) = tally p M + if p a = true then 1 else 0 := Multiset.countP_cons ..

@[simp] lemma tally_add : tally p (M + R) = tally p M + tally p R := Multiset.countP_add ..

lemma tally_pos (ha : a ∈ M) (hp : p a = true) : 0 < tally p M := Multiset.countP_pos.mpr ⟨a, ha, hp⟩

lemma tally_eq_zero (h : ∀ a ∈ M, p a = false) : tally p M = 0 := by
  refine Multiset.countP_eq_zero.mpr fun a ha => ?_
  rw [h a ha]
  exact Bool.false_ne_true

-- One entry changes

lemma getFile_ok (h : s.entry k fd = some f) : s.getFile k fd = .ok f := by rw [getFile, h]

lemma entry_set_self (h : s.entry k fd = some f) : (s.setFile k fd u).entry k fd = some u := by
  obtain ⟨x, hx, -⟩ := Option.map_eq_some_iff.mp h
  simp [entry, setFile, hx]

lemma entry_set_other (h : ¬ (k' = k ∧ fd' = fd)) : (s.setFile k fd u).entry k' fd' = s.entry k' fd' := by
  by_cases hk : k' = k
  · subst hk
    have hfd : fd' ≠ fd := fun hfd => h ⟨rfl, hfd⟩
    simp [entry, setFile, Function.comp_def, hfd]
  · simp [entry, setFile, hk]

lemma fs_set (hx : (s.setFile k fd f).fs k' = some x) : ∃ y, s.fs k' = some y ∧ y.fsCount = x.fsCount := by
  by_cases hk : k' = k
  · subst hk
    simp only [setFile, Function.update_self, Option.map_eq_some_iff] at hx
    obtain ⟨y, hy, rfl⟩ := hx
    exact ⟨y, hy, rfl⟩
  · simp only [setFile, Function.update_of_ne hk] at hx
    exact ⟨x, hx, rfl⟩

lemma fs_set_none : (s.setFile k fd f).fs k' = none ↔ s.fs k' = none := by
  by_cases hk : k' = k
  · subst hk
    simp [setFile]
  · simp [setFile, hk]

lemma tally_about {p : Token → Bool} (hp : ∀ a, p a = true → ¬ About k fd a) (hA : ∀ a ∈ A, About k fd a) :
    tally p (A : Multiset Token) = 0 := by
  refine tally_eq_zero fun a ha => ?_
  exact Bool.eq_false_iff.mpr fun h => hp a h (hA a (mem_coe.mp ha))

lemma about_unique (h : About k fd a) (h' : About k' fd' a) : k' = k ∧ fd' = fd := by
  cases a with
  | member | owner => simp [About] at h
  | opening | user | closing =>
    simp [About] at h h'
    omega

lemma not_about_member (h : Token.isMember j a = true) : ¬ About k fd a := by
  cases a with
  | member => simp [About]
  | owner | opening | user | closing => cases h

lemma not_about_owns (h : Token.owns j a = true) : ¬ About k fd a := by
  cases a with
  | owner => simp [About]
  | member | opening | user | closing => cases h

lemma Inv.put (h : s.Inv (A + R)) (hf : s.entry k fd = some f) (hA : ∀ a ∈ A, About k fd a) (hB : ∀ a ∈ B, About k fd a)
    (hentry : Entry u (tally (uses k fd) (B + R)) (tally (Token.opens k fd) (B + R)) (tally (Token.closes k fd) (B + R)))
    (hbound : fsStructNentry ≤ fd → u.status = .none)
    (hseen : ∀ e n, Token.user k fd e n ∈ B + R → u.era = e ∧ u.node = some n)
    (howned : ∀ i, Token.owner k i ∈ R → fd < i → u.status = .none) : (s.setFile k fd u).Inv (B + R) := by
  have hsame : ∀ p : Token → Bool, (∀ a, p a = true → ¬ About k fd a) → tally p (B + R) = tally p (A + R) := by
    intro p hp
    rw [tally_add, tally_add, tally_about hp hA, tally_about hp hB]
  have hmem : ∀ a, ¬ About k fd a → a ∈ B + R → a ∈ A + R := by
    intro a hab ha
    rcases mem_add.mp ha with ha | ha
    · exact absurd (hB a (mem_coe.mp ha)) hab
    · exact mem_add.mpr (.inr ha)
  constructor
  case entry =>
    intro k' fd' g hg
    by_cases heq : k' = k ∧ fd' = fd
    · obtain ⟨rfl, rfl⟩ := heq
      obtain rfl := some.inj ((entry_set_self hf).symm.trans hg)
      exact hentry
    rw [entry_set_other heq] at hg
    have hnot : ∀ a, About k' fd' a → ¬ About k fd a := fun a ha hab => heq (about_unique hab ha)
    rw [hsame _ fun a ha => hnot a (.inr (.inl ha)), hsame _ fun a ha => hnot a (.inl ha),
      hsame _ fun a ha => hnot a (.inr (.inr ha))]
    exact h.entry k' fd' g hg
  case bound => grind [entry_set_other, entry_set_self, h.bound]
  case placed =>
    intro k' fd' a ha hab
    by_cases heq : k' = k ∧ fd' = fd
    · obtain ⟨rfl, rfl⟩ := heq
      exact ⟨u, entry_set_self hf⟩
    · rw [entry_set_other heq]
      exact h.placed k' fd' a (hmem a (fun hab' => heq (about_unique hab' hab)) ha) hab
  case seen =>
    intro k' fd' e n g ha hg
    by_cases heq : k' = k ∧ fd' = fd
    · obtain ⟨rfl, rfl⟩ := heq
      obtain rfl := some.inj ((entry_set_self hf).symm.trans hg)
      exact hseen e n ha
    · have hab : About k' fd' (.user k' fd' e n) := .inr (.inl (by simp))
      exact h.seen k' fd' e n g (hmem _ (fun hab' => heq (about_unique hab' hab)) ha)
        ((entry_set_other heq).symm.trans hg)
  case refs =>
    intro k' x hx
    obtain ⟨y, hy, hcount⟩ := fs_set hx
    rw [hsame _ fun _ => not_about_member, hsame _ fun _ => not_about_owns, ← hcount]
    exact h.refs k' y hy
  case gone =>
    intro k' hk'
    rw [hsame _ fun _ => not_about_member, hsame _ fun _ => not_about_owns]
    exact h.gone k' (fs_set_none.mp hk')
  case owned =>
    intro k' i hi fd' hlt g hg
    have howner : ¬ About k fd (.owner k' i) := not_about_owns (j := k') (by simp)
    have hi' : Token.owner k' i ∈ A + R := hmem _ howner hi
    by_cases heq : k' = k ∧ fd' = fd
    · obtain ⟨rfl, rfl⟩ := heq
      obtain rfl := some.inj ((entry_set_self hf).symm.trans hg)
      refine howned i ((mem_add.mp hi).resolve_left fun ha => ?_) hlt
      exact howner (hB _ (mem_coe.mp ha))
    · exact h.owned k' i hi' fd' hlt g ((entry_set_other heq).symm.trans hg)

lemma Log.put (h : s.Log) (hf : s.entry k fd = some f) (hcount : 0 < u.openCount ↔ 0 < f.openCount) (hera : u.era = f.era)
    (hnode : u.HasNode → f.HasNode ∧ u.node = f.node) : (s.setFile k fd u).Log := by
  have hback : ∀ k' fd' g', (s.setFile k fd u).entry k' fd' = some g' →
      ∃ g, s.entry k' fd' = some g ∧ (0 < g'.openCount ↔ 0 < g.openCount) ∧ g'.era = g.era ∧
        (g'.HasNode → g.HasNode ∧ g'.node = g.node) := by
    intro k' fd' g' hg
    by_cases heq : k' = k ∧ fd' = fd
    · grind [entry_set_self]
    · exact ⟨g', (entry_set_other heq).symm.trans hg, Iff.rfl, rfl, fun h => ⟨h, rfl⟩⟩
  have hon : ∀ k' fd' g, s.entry k' fd' = some g →
      ∃ g', (s.setFile k fd u).entry k' fd' = some g' ∧ (0 < g'.openCount ↔ 0 < g.openCount) ∧ g'.era = g.era := by
    intro k' fd' g hg
    by_cases heq : k' = k ∧ fd' = fd
    · obtain ⟨rfl, rfl⟩ := heq
      obtain rfl := some.inj (hf.symm.trans hg)
      exact ⟨u, entry_set_self hf, hcount, hera⟩
    · exact ⟨g, (entry_set_other heq).trans hg, Iff.rfl, rfl⟩
  refine ⟨?_, ?_, h.once, h.logged, ?_⟩
  · intro k' fd' g' hg hnode'
    obtain ⟨g, hg0, -, he, hn⟩ := hback k' fd' g' hg
    obtain ⟨hnode0, hsame⟩ := hn hnode'
    obtain ⟨n, hn, hopen⟩ := h.stamped k' fd' g hg0 hnode0
    exact ⟨n, hsame.trans hn, he ▸ hopen⟩
  · intro k1 fd1 g1 k2 fd2 g2 hg1 hg2 hpos1 hpos2 heq
    obtain ⟨g1', hg1', hc1, he1, -⟩ := hback k1 fd1 g1 hg1
    obtain ⟨g2', hg2', hc2, he2, -⟩ := hback k2 fd2 g2 hg2
    exact h.apart k1 fd1 g1' k2 fd2 g2' hg1' hg2' (hc1.mp hpos1) (hc2.mp hpos2) (he1 ▸ he2 ▸ heq)
  · intro e he
    refine (h.live e he).trans ⟨?_, ?_⟩
    · grind
    · rintro ⟨k', fd', g', hg', hge, hpos⟩
      obtain ⟨g, hg, hc, he', -⟩ := hback k' fd' g' hg'
      exact ⟨k', fd', g, hg, he'.symm.trans hge, hc.mp hpos⟩

lemma entry_set_cases (hf : s.entry k fd = some f) (hg : (s.setFile k fd u).entry k' fd' = some g) :
    (k' = k ∧ fd' = fd ∧ g = u) ∨ ¬ (k' = k ∧ fd' = fd) ∧ s.entry k' fd' = some g := by
  by_cases heq : k' = k ∧ fd' = fd
  · obtain ⟨rfl, rfl⟩ := heq
    exact .inl ⟨rfl, rfl, some.inj (hg.symm.trans (entry_set_self hf))⟩
  · exact .inr ⟨heq, (entry_set_other heq).symm.trans hg⟩

lemma Log.era_lt (h : s.Log) (hf : s.entry k fd = some f) (hnode : f.HasNode) : f.era < s.opens.length := by
  grind [h.stamped]

lemma Log.opened (h : s.Log) (hheld : ∀ k fd f, s.entry k fd = some f → 0 < f.openCount → f.HasNode)
    (hf : s.entry k fd = some f) (hzero : f.openCount = 0) (hera : u.era = s.opens.length)
    (hnode : u.node = some n) (hone : u.openCount = 1) : Log { s.setFile k fd u with opens := s.opens ++ [n] } := by
  have hself : (s.setFile k fd u).entry k fd = some u := entry_set_self hf
  have hlast : (s.opens ++ [n])[s.opens.length]? = some n := by simp
  have hold : ∀ {e m : Nat}, s.opens[e]? = some m → (s.opens ++ [n])[e]? = some m := by
    intro e m he
    rw [List.getElem?_append_left (List.getElem?_eq_some_iff.mp he).1]
    exact he
  -- the entries in use have older numbers
  have hne : ∀ k' fd' g, s.entry k' fd' = some g → 0 < g.openCount → g.era ≠ u.era := by
    intro k' fd' g hg hpos
    rw [hera]
    exact Nat.ne_of_lt (h.era_lt hg (hheld k' fd' g hg hpos))
  refine ⟨?_, ?_, h.once, fun p hp => hold (h.logged p hp), ?_⟩
  · intro k' fd' g hg hn
    rcases entry_set_cases hf hg with ⟨-, -, rfl⟩ | ⟨-, hg⟩
    · exact ⟨n, hnode, hera ▸ hlast⟩
    · obtain ⟨m, hm, hopen⟩ := h.stamped k' fd' g hg hn
      exact ⟨m, hm, hold hopen⟩
  · intro k1 fd1 g1 k2 fd2 g2 hg1 hg2 hpos1 hpos2 heq
    rcases entry_set_cases hf hg1 with ⟨rfl, rfl, rfl⟩ | ⟨-, hold1⟩
    · rcases entry_set_cases hf hg2 with ⟨rfl, rfl, -⟩ | ⟨-, hold2⟩
      · exact ⟨rfl, rfl⟩
      · exact absurd heq.symm (hne k2 fd2 g2 hold2 hpos2)
    · rcases entry_set_cases hf hg2 with ⟨-, -, rfl⟩ | ⟨-, hold2⟩
      · exact absurd heq (hne k1 fd1 g1 hold1 hpos1)
      · exact h.apart k1 fd1 g1 k2 fd2 g2 hold1 hold2 hpos1 hpos2 heq
  · intro e he
    simp only [List.length_append, List.length_singleton] at he
    rcases Nat.lt_succ_iff_lt_or_eq.mp he with hlt | rfl
    · refine (h.live e hlt).trans ⟨?_, ?_⟩
      · rintro ⟨k', fd', g, hg, rfl, hpos⟩
        refine ⟨k', fd', g, (entry_set_other ?_).trans hg, rfl, hpos⟩
        rintro ⟨rfl, rfl⟩
        obtain rfl := some.inj (hf.symm.trans hg)
        omega
      · rintro ⟨k', fd', g, hg, rfl, hpos⟩
        rcases entry_set_cases hf hg with ⟨rfl, rfl, rfl⟩ | ⟨-, hg⟩
        · omega
        · exact ⟨k', fd', g, hg, rfl, hpos⟩
    · refine iff_of_true ?_ ⟨k, fd, u, hself, hera, by omega⟩
      rintro hmem
      obtain ⟨p, hp, heq⟩ := List.mem_map.mp hmem
      have := (List.getElem?_eq_some_iff.mp (h.logged p hp)).1
      omega

lemma Log.closed (h : s.Log) (hf : s.entry k fd = some f) (hpos : 0 < f.openCount) (hhas : f.HasNode)
    (hnode : f.node = some n) (hera : u.era = f.era) (hnode' : u.node = f.node) (hzero : u.openCount = 0) :
    Log { s.setFile k fd u with closes := s.closes ++ [(f.era, n)] } := by
  have hlt := h.era_lt hf hhas
  have hnew : f.era ∉ s.closes.map Prod.fst := (h.live f.era hlt).mpr ⟨k, fd, f, hf, rfl, hpos⟩
  refine ⟨?_, ?_, ?_, ?_, ?_⟩
  · intro k' fd' g hg hn
    rcases entry_set_cases hf hg with ⟨-, -, rfl⟩ | ⟨-, hg⟩
    · rw [hera, hnode']
      exact h.stamped k fd f hf hhas
    · exact h.stamped k' fd' g hg hn
  · intro k1 fd1 g1 k2 fd2 g2 hg1 hg2 hpos1 hpos2 heq
    rcases entry_set_cases hf hg1 with ⟨-, -, rfl⟩ | ⟨-, hg1⟩
    · omega
    rcases entry_set_cases hf hg2 with ⟨-, -, rfl⟩ | ⟨-, hg2⟩
    · omega
    · exact h.apart k1 fd1 g1 k2 fd2 g2 hg1 hg2 hpos1 hpos2 heq
  · rw [List.map_append, List.map_singleton, List.nodup_append]
    refine ⟨h.once, List.nodup_singleton _, ?_⟩
    intro a ha b hb heq
    obtain rfl := List.mem_singleton.mp hb
    exact hnew ((show a = f.era from heq) ▸ ha)
  · intro p hp
    grind [h.logged, h.stamped, setFile]
  · intro e he
    simp only [List.map_append, List.map_singleton, List.mem_append, List.mem_singleton, not_or]
    constructor
    · rintro ⟨hmem, hne⟩
      obtain ⟨k', fd', g, hg, rfl, hpos'⟩ := (h.live e he).mp hmem
      refine ⟨k', fd', g, (entry_set_other ?_).trans hg, rfl, hpos'⟩
      rintro ⟨rfl, rfl⟩
      exact hne (congrArg File.era (some.inj (hg.symm.trans hf)))
    · rintro ⟨k', fd', g, hg, rfl, hpos'⟩
      rcases entry_set_cases hf hg with ⟨-, -, rfl⟩ | ⟨hneq, hg⟩
      · omega
      · refine ⟨(h.live g.era he).mpr ⟨k', fd', g, hg, rfl, hpos'⟩, fun heq => hneq ?_⟩
        exact h.apart k' fd' g k fd f hg hf hpos' hpos heq

lemma Inv.congr {t : Tables} (h : s.Inv M) (hfs : t.fs = s.fs) : t.Inv M := by
  have hentry : ∀ k fd, t.entry k fd = s.entry k fd := fun k fd => by rw [Tables.entry, Tables.entry, hfs]
  constructor
  case entry => simpa only [hentry] using h.entry
  case bound => simpa only [hentry] using h.bound
  case placed => simpa only [hentry] using h.placed
  case seen => simpa only [hentry] using h.seen
  case refs => exact by rw [hfs]; exact h.refs
  case gone => exact by rw [hfs]; exact h.gone
  case owned => simpa only [hentry] using h.owned

lemma Inv.of_opening (h : s.Inv (.opening k fd ::ₘ M)) : ∃ f, s.entry k fd = some f ∧ f.status = .init ∧ f.openCount = 0 ∧
    tally (uses k fd) M = 0 ∧ tally (Token.opens k fd) M = 0 ∧ tally (Token.closes k fd) M = 0 := by
  obtain ⟨f, hf⟩ := h.placed k fd (.opening k fd) (mem_cons_self ..) (.inl (by simp))
  have he := h.entry k fd f hf
  refine ⟨f, hf, ?_⟩
  cases hst : f.status <;> simp [Entry, hst] at he
  exact ⟨rfl, he.1, he.2.1, he.2.2.1, he.2.2.2⟩

lemma Inv.of_user (h : s.Inv (.user k fd e n ::ₘ M)) :
    ∃ f, s.entry k fd = some f ∧ f.HasNode ∧ f.era = e ∧ f.node = some n ∧
    Entry f (tally (uses k fd) M + 1) (tally (Token.opens k fd) M) (tally (Token.closes k fd) M) := by
  obtain ⟨f, hf⟩ := h.placed k fd (.user k fd e n) (mem_cons_self ..) (.inr (.inl (by simp)))
  obtain ⟨hera, hnode⟩ := h.seen k fd e n f (mem_cons_self ..) hf
  have he := h.entry k fd f hf
  simp at he
  refine ⟨f, hf, ?_, hera, hnode, he⟩
  cases hst : f.status <;> simp [Entry, hst] at he
  · exact .inl hst
  · exact .inr hst

lemma Inv.of_closing (h : s.Inv (.closing k fd ::ₘ M)) :
    ∃ f, s.entry k fd = some f ∧ f.status = .closed ∧ f.openCount = 0 ∧
    tally (uses k fd) M = 0 ∧ tally (Token.opens k fd) M = 0 ∧ tally (Token.closes k fd) M = 0 := by
  obtain ⟨f, hf⟩ := h.placed k fd (.closing k fd) (mem_cons_self ..) (.inr (.inr (by simp)))
  have he := h.entry k fd f hf
  refine ⟨f, hf, ?_⟩
  cases hst : f.status <;> simp [Entry, hst] at he
  grind

section

variable (h : s.Inv M) (hf : s.entry k fd = some f)
include h hf

lemma Inv.held (hpos : 0 < f.openCount) : f.HasNode := by
  have he := h.entry k fd f hf
  cases hst : f.status <;> simp [Entry, hst] at he
  · omega
  · omega
  · exact .inl hst
  · exact .inr hst

lemma Inv.not_below (hne : f.status ≠ .none) (hi : Token.owner k i ∈ M) :
    ¬ fd < i := fun hlt => hne (h.owned k i hi fd hlt f hf)

lemma Inv.lt_bound (hne : f.status ≠ .none) : ¬ fsStructNentry ≤ fd :=
  fun hle => hne (h.bound k fd f hf hle)

end

lemma Inv.no_users (h : tally (uses k fd) M = 0) : Token.user k fd e n ∉ M := fun hmem =>
  absurd (tally_pos hmem (by simp : uses k fd (.user k fd e n) = true)) (by omega)

-- Single entries

lemma take_ok (h : s.Good M) (hf : s.entry k fd = some f) (hnone : f.status = .none) (hlt : fd < fsStructNentry)
    (hown : ∀ i, Token.owner k i ∈ M → i ≤ fd) (hinit : u.status = .init) (hcount : u.openCount = f.openCount)
    (hera : u.era = f.era) : (s.setFile k fd u).Good (.opening k fd ::ₘ M) := by
  have he := h.inv.entry k fd f hf
  simp only [Entry, hnone] at he
  obtain ⟨hzero, hu, ho, hc⟩ := he
  refine ⟨?_, h.log.put hf (by rw [hcount]) hera ?_⟩
  · have hput := Inv.put (A := []) (B := [.opening k fd]) (R := M) (u := u) (by simpa using h.inv) hf (by simp)
      (by simp [About]) ?_ (fun hle => absurd hlt (Nat.not_lt.mpr hle)) ?_ ?_
    · simpa using hput
    · simp [Entry, hinit, hcount, hzero, hu, ho, hc]
    · intro e n hmem
      simp only [coe_singleton, singleton_add, mem_cons, reduceCtorEq, false_or] at hmem
      exact absurd hmem (Inv.no_users hu)
    · exact fun i hi hfd => absurd hfd (Nat.not_lt.mpr (hown i hi))
  · rintro (h | h)
    · exact nomatch hinit.symm.trans h
    · exact nomatch hinit.symm.trans h

section

variable (h : s.Inv M) (hm : Token.member k ∈ M)
include h hm

lemma Inv.table : ∃ x, s.fs k = some x ∧ 0 < x.fsCount := by
  have hpos : 0 < tally (Token.isMember k) M := tally_pos hm (by simp)
  cases hx : s.fs k with
  | none => exact absurd (h.gone k hx).1 (Nat.ne_of_gt hpos)
  | some x => exact ⟨x, rfl, (h.refs k x hx).1 ▸ hpos⟩

lemma Inv.no_owner : Token.owner k i ∉ M := by
  intro hi
  obtain ⟨x, hx, hpos⟩ := h.table hm
  have := tally_pos hi (by simp : Token.owns k (.owner k i) = true)
  rw [(h.refs k x hx).2, if_neg (Nat.ne_of_gt hpos)] at this
  exact absurd this (Nat.lt_irrefl 0)

lemma getFilemap_ok : ∃ x, s.getFilemap k = .ok x ∧ s.fs k = some x := by
  grind [getFilemap, h.table]

end

def Keeps (s s' : Tables) : Prop := ∀ k fd f, s.entry k fd = some f → f.status ≠ .none → s'.entry k fd = some f

lemma filemapAlloc_ok (h : s.Good M) (hm : Token.member k ∈ M) (fd : Option Nat) :
    ∃ r, s.filemapAlloc k fd = .ok r ∧ ∀ fd' s', r = .ok (fd', s') → s'.Good (.opening k fd' ::ₘ M) ∧ s.Keeps s' := by
  obtain ⟨x, hget, hx⟩ := getFilemap_ok h.inv hm
  have hfound : ∀ fd, fd < fsStructNentry → (x.filemap fd).status = .none →
      ∃ s', s.allocFound k fd (x.filemap fd) = .ok s' ∧ s'.Good (.opening k fd ::ₘ M) ∧ s.Keeps s' := by
    intro fd hlt hnone
    have hf : s.entry k fd = some (x.filemap fd) := by rw [entry, hx]; rfl
    have he := h.inv.entry k fd _ hf
    simp only [Entry, hnone] at he
    refine ⟨_, if_pos he.1, take_ok h hf hnone hlt (fun i hi => absurd hi (h.inv.no_owner hm)) rfl rfl rfl, ?_⟩
    intro k' fd' g hg hne
    refine (entry_set_other ?_).trans hg
    rintro ⟨rfl, rfl⟩
    exact hne (some.inj (hf.symm.trans hg) ▸ hnone)
  have hok : ∀ fd, fd < fsStructNentry → (x.filemap fd).status = .none →
      ∃ r, ((s.allocFound k fd (x.filemap fd)).map fun s => (Except.ok (fd, s) : Except Errno (Nat × Tables))) = .ok r ∧
        ∀ fd' s', r = .ok (fd', s') → s'.Good (.opening k fd' ::ₘ M) ∧ s.Keeps s' := by
    intro fd hlt hnone
    obtain ⟨s', hs', hgood⟩ := hfound fd hlt hnone
    refine ⟨.ok (fd, s'), by rw [hs']; rfl, ?_⟩
    rintro fd' t ⟨⟩
    exact hgood
  unfold filemapAlloc
  rw [hget]
  simp only [bind, Except.bind]
  split
  · split
    · exact ⟨_, rfl, nofun⟩
    · grind
  rename_i fd
  split
  · exact ⟨_, rfl, nofun⟩
  split
  · rename_i hle hnone
    exact hok fd (Nat.lt_of_not_le hle) hnone
  · exact ⟨_, rfl, nofun⟩

lemma Good.clear (h : s.Good (a ::ₘ M)) (ha : About k fd a) (hf : s.entry k fd = some f) (hzero : f.openCount = 0)
    (hu : tally (uses k fd) M = 0) (ho : tally (Token.opens k fd) M = 0) (hc : tally (Token.closes k fd) M = 0) :
    (s.setFile k fd { f with status := .none }).Good M := by
  constructor
  · have hput := Inv.put (A := [a]) (B := []) (R := M) (u := { f with status := .none })
      (by simpa using h.inv) hf (by simpa using ha) (by simp) ?_ (fun _ => rfl) ?_ fun _ _ _ => rfl
    · simpa using hput
    · simp [Entry, hzero, hu, ho, hc]
    · intro e n hmem
      exact absurd (by simpa using hmem) (Inv.no_users hu)
  · refine h.log.put hf Iff.rfl rfl ?_
    rintro (h | h) <;> cases h

lemma filemapFree_ok (h : s.Good (.opening k fd ::ₘ M)) : ∃ s', s.filemapFree k fd = .ok (s', false) ∧ s'.Good M := by
  obtain ⟨f, hf, hinit, hzero, hu, ho, hc⟩ := h.inv.of_opening
  refine ⟨s.setFile k fd { f with status := .none }, ?_, h.clear (by simp [About]) hf hzero hu ho hc⟩
  rw [filemapFree, getFile_ok hf]
  simp [bind, Except.bind, hinit, hzero]

lemma freed_ok (h : s.Good (.closing k fd ::ₘ M)) :
    ∃ f, s.entry k fd = some f ∧ s.freed k fd = .ok (s.setFile k fd { f with status := .none }) ∧
      (s.setFile k fd { f with status := .none }).Good M := by
  obtain ⟨f, hf, hclosed, hzero, hu, ho, hc⟩ := h.inv.of_closing
  refine ⟨f, hf, ?_, h.clear (by simp [About]) hf hzero hu ho hc⟩
  rw [freed, getFile_ok hf]
  rfl

lemma filemapAcquire_ok (h : s.Good M) (hf : s.entry k fd = some f) (hopened : f.status = .opened) :
    ∃ n s', f.node = some n ∧ s.filemapAcquire k fd = .ok s' ∧ s'.Good (.user k fd f.era n ::ₘ M) := by
  obtain ⟨n, hnode, -⟩ := h.log.stamped k fd f hf (.inl hopened)
  have hne : f.status ≠ .none := by simp [hopened]
  have he := h.inv.entry k fd f hf
  simp only [Entry, hopened] at he
  obtain ⟨hcount, ho, hc⟩ := he
  refine ⟨n, s.setFile k fd { f with openCount := f.openCount + 1 }, hnode, ?_, ?_, ?_⟩
  · rw [filemapAcquire, getFile_ok hf]
    exact if_pos hopened
  · have hput := Inv.put (A := []) (B := [.user k fd f.era n]) (R := M) (u := { f with openCount := f.openCount + 1 })
      (by simpa using h.inv) hf (by simp) (by simp [About]) ?_
      (fun hle => absurd hle (h.inv.lt_bound hf hne)) ?_ fun i hi hlt => absurd hlt (h.inv.not_below hf hne hi)
    · simpa using hput
    · simp [Entry, hopened, hcount, ho, hc]
    · intro e m hmem
      simp only [coe_singleton, singleton_add, mem_cons] at hmem
      grind [h.inv.seen]
  · exact h.log.put hf (iff_of_true (Nat.succ_pos _) (by omega)) rfl fun _ => ⟨.inl hopened, rfl⟩

def closingIf (b : Bool) (k fd : Nat) (M : Multiset Token) : Multiset Token :=
  if b then .closing k fd ::ₘ M else M

lemma last_ok (h : s.Good (A + M)) (hf : s.entry k fd = some f) (hA : ∀ a ∈ A, About k fd a) (hhas : f.HasNode)
    (hpos : 0 < f.openCount) (hu : tally (uses k fd) M = 0) (ho : tally (Token.opens k fd) M = 0)
    (hc : tally (Token.closes k fd) M = 0) :
    ∃ s', (s.setFile k fd { f with status := .closed, openCount := 0 }).filemapFree k fd = .ok (s', true) ∧
      s'.Good (.closing k fd ::ₘ M) := by
  obtain ⟨n, hnode, -⟩ := h.log.stamped k fd f hf hhas
  have hne : f.status ≠ .none := by rcases hhas with h | h <;> simp [h]
  generalize hf' : { f with status := .closed, openCount := 0 } = u
  have hself : (s.setFile k fd u).entry k fd = some u := entry_set_self hf
  refine ⟨{ s.setFile k fd u with closes := s.closes ++ [(f.era, n)] }, ?_, ?_, ?_⟩
  · rw [filemapFree, getFile_ok hself, ← hf']
    simp [bind, Except.bind, hnode, setFile]
  · have hput := Inv.put (A := A) (B := [.closing k fd]) (R := M) (u := u) h.inv hf hA
      (by simp [About]) ?_ (fun hle => absurd hle (h.inv.lt_bound hf hne)) ?_
      fun i hi hlt => absurd hlt (h.inv.not_below hf hne (mem_add.mpr (.inr hi)))
    · have hinv : (s.setFile k fd u).Inv (.closing k fd ::ₘ M) := by simpa using hput
      exact hinv.congr rfl
    · simp [← hf', Entry, hu, ho, hc]
    · intro e m hmem
      simp only [coe_singleton, singleton_add, mem_cons, reduceCtorEq, false_or] at hmem
      exact absurd hmem (Inv.no_users hu)
  · exact h.log.closed hf hpos hhas hnode (by rw [← hf']) (by rw [← hf']) (by rw [← hf'])

lemma filemapRelease_ok (h : s.Good (.user k fd e n ::ₘ M)) :
    ∃ s' b, s.filemapRelease k fd = .ok (s', b) ∧ s'.Good (closingIf b k fd M) := by
  obtain ⟨f, hf, hhas, hera, hnode, he⟩ := h.inv.of_user
  have hne : f.status ≠ .none := by rcases hhas with h | h <;> simp [h]
  have hpos : 0 < f.openCount := by
    rcases hhas with h | h <;> simp only [Entry, h] at he <;> omega
  have hstart : s.filemapRelease k fd = if f.openCount - 1 = 0
      then (s.setFile k fd { f with openCount := f.openCount - 1 }).filemapFree k fd
      else .ok (s.setFile k fd { f with openCount := f.openCount - 1 }, false) := by
    rw [filemapRelease, getFile_ok hf]
    exact if_pos ⟨hhas, hpos⟩
  by_cases hlast : f.openCount - 1 = 0
  · have hclosed : f.status = .closed := by
      refine hhas.resolve_left fun hopened => ?_
      simp only [Entry, hopened] at he
      omega
    simp only [Entry, hclosed] at he
    have hgood : s.Good (([.user k fd e n] : List Token) + M) := by simpa using h
    obtain ⟨s', hs', hgood'⟩ := last_ok hgood hf (by simp [About]) hhas hpos (by omega) he.2.1 (by simpa using he.2.2)
    refine ⟨s', true, ?_, hgood'⟩
    rw [hstart, if_pos hlast, hlast, ← hs']
    simp only [hclosed]
  · refine ⟨_, false, hstart.trans (if_neg hlast), ?_, ?_⟩
    · have hput := Inv.put (A := [.user k fd e n]) (B := []) (R := M) (u := { f with openCount := f.openCount - 1 })
        (by simpa using h.inv) hf (by simp [About]) (by simp) ?_
        (fun hle => absurd hle (h.inv.lt_bound hf hne)) ?_
        fun i hi hlt => absurd hlt (h.inv.not_below hf hne (mem_cons_of_mem hi))
      · simpa [closingIf] using hput
      · rcases hhas with hst | hst <;> simp only [Entry, hst] at he ⊢
        · exact ⟨by simp; omega, by simpa using he.2⟩
        refine ⟨by simp; omega, by simpa using he.2.1, ?_⟩
        rw [if_neg]
        · simpa using he.2.2
        · simp
          omega
      · intro e' m hmem
        exact h.inv.seen k fd e' m f (mem_cons_of_mem (by simpa using hmem)) hf
    · exact h.log.put hf (iff_of_true (by simp only; omega) hpos) rfl fun _ => ⟨hhas, rfl⟩

lemma filemapClose_ok (h : s.Good M) (hf : s.entry k fd = some f) (hopened : f.status = .opened) :
    ∃ s' b, s.filemapClose k fd = .ok (s', b) ∧ s'.Good (closingIf b k fd M) ∧ (f.openCount = 1 → b = true) := by
  have hhas : f.HasNode := .inl hopened
  have hne : f.status ≠ .none := by simp [hopened]
  have he := h.inv.entry k fd f hf
  simp only [Entry, hopened] at he
  obtain ⟨hcount, ho, hc⟩ := he
  have hpos : 0 < f.openCount := by omega
  have hstart : s.filemapClose k fd = if f.openCount - 1 = 0
      then (s.setFile k fd { f with status := .closed, openCount := f.openCount - 1 }).filemapFree k fd
      else .ok (s.setFile k fd { f with status := .closed, openCount := f.openCount - 1 }, false) := by
    rw [filemapClose, getFile_ok hf]
    exact if_pos ⟨hopened, hpos⟩
  by_cases hlast : f.openCount - 1 = 0
  · have hgood : s.Good (([] : List Token) + M) := by simpa using h
    obtain ⟨s', hs', hgood'⟩ := last_ok hgood hf (by simp) hhas hpos (by omega) ho hc
    refine ⟨s', true, ?_, hgood', fun _ => rfl⟩
    rw [hstart, if_pos hlast, hlast, hs']
  refine ⟨_, false, hstart.trans (if_neg hlast), ⟨?_, ?_⟩, fun hone => absurd hlast (by simp [hone])⟩
  · have hput := Inv.put (A := []) (B := []) (R := M) (u := { f with status := .closed, openCount := f.openCount - 1 })
      (by simpa using h.inv) hf (by simp) (by simp) ?_ (fun hle => absurd hle (h.inv.lt_bound hf hne)) ?_
      fun i hi hlt => absurd hlt (h.inv.not_below hf hne hi)
    · simpa [closingIf] using hput
    · simp only [Entry, coe_nil, zero_add]
      refine ⟨by omega, ho, ?_⟩
      rw [if_neg (by omega)]
      exact hc
    · intro e m hmem
      exact h.inv.seen k fd e m f (by simpa using hmem) hf
  · exact h.log.put hf (iff_of_true (by simp only; omega) hpos) rfl fun _ => ⟨hhas, rfl⟩

lemma filemapOpen_ok (h : s.Good (.opening k fd ::ₘ M)) (hinit : u.status = .init) (hzero : u.openCount = 0)
    (hnode : u.node = some n) :
    ∃ s', (s.setFile k fd u).filemapOpen k fd = .ok s' ∧ s'.Good M ∧
    ∀ k' fd', ¬ (k' = k ∧ fd' = fd) → s'.entry k' fd' = s.entry k' fd' := by
  obtain ⟨f, hf, hst, hcount, hu, ho, hc⟩ := h.inv.of_opening
  have hne : f.status ≠ .none := by simp [hst]
  have hself : (s.setFile k fd u).entry k fd = some u := entry_set_self hf
  generalize hg : { u with status := .opened, openCount := u.openCount + 1, era := s.opens.length } = g
  have htwice : (s.setFile k fd u).setFile k fd g = s.setFile k fd g := by
    simp [setFile, Function.comp_def]
  have hs : (s.setFile k fd u).filemapOpen k fd = .ok { s.setFile k fd g with opens := s.opens ++ [n] } := by
    have hlen : (s.setFile k fd u).opens = s.opens := rfl
    rw [filemapOpen, getFile_ok hself]
    simp only [bind, Except.bind, hinit, hnode, hlen]
    rw [← htwice, ← hg, hnode]
  refine ⟨_, hs, ⟨?_, ?_⟩, ?_⟩
  · have hput := Inv.put (A := [.opening k fd]) (B := []) (R := M) (u := g) (by simpa using h.inv) hf
      (by simp [About]) (by simp) ?_ (fun hle => absurd hle (h.inv.lt_bound hf hne)) ?_
      fun i hi hlt => absurd hlt (h.inv.not_below hf hne (mem_cons_of_mem hi))
    · have hinv : (s.setFile k fd g).Inv M := by simpa using hput
      exact hinv.congr rfl
    · simp [← hg, Entry, hzero, hu, ho, hc]
    · intro e m hmem
      exact absurd (by simpa using hmem) (Inv.no_users hu)
  · exact h.log.opened (fun _ _ _ => h.inv.held) hf hcount (by rw [← hg])
      (by rw [← hg]; exact hnode) (by rw [← hg, hzero])
  · exact fun k' fd' => entry_set_other

lemma fill_ok (h : s.Good (.opening k fd ::ₘ M)) (node : Nat) (pos : Int) (r w : Bool) :
    ∃ s', s.fill k fd node pos r w = .ok s' ∧ s'.Good M := by
  obtain ⟨f, hf, hinit, hzero, -⟩ := h.inv.of_opening
  obtain ⟨s', hs', hgood, -⟩ :=
    filemapOpen_ok (u := { f with node := some node, pos := pos, readable := r, writable := w })
    h hinit hzero rfl
  refine ⟨s', ?_, hgood⟩
  rw [fill, getFile_ok hf]
  exact hs'

lemma filemapDup_ok (h : s.Good (.opening k' fd' ::ₘ M)) (hf : s.entry k fd = some f) (hopened : f.status = .opened) :
    ∃ s', s.filemapDup k' fd' k fd = .ok s' ∧ s'.Good M ∧ ∀ j fd1, ¬ (j = k' ∧ fd1 = fd') →
    s'.entry j fd1 = s.entry j fd1 := by
  obtain ⟨t, ht, hinit, hzero, -⟩ := h.inv.of_opening
  obtain ⟨n, hnode, -⟩ := h.log.stamped k fd f hf (.inl hopened)
  obtain ⟨s', hs', hrest⟩ := filemapOpen_ok
    (u := { t with pos := f.pos, readable := f.readable, writable := f.writable, node := f.node }) h hinit hzero hnode
  refine ⟨s', ?_, hrest⟩
  rw [filemapDup, getFile_ok ht, getFile_ok hf]
  simp only [bind, Except.bind]
  rw [if_pos ⟨hinit, hopened⟩]
  exact hs'

end Tables

end Ucore.Fs.Filemap
