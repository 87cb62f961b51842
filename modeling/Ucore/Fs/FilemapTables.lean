import Ucore.Fs.FilemapOk

/-!
# Whole file tables

Tables are made, shared, copied and freed.
-/

namespace Ucore.Fs.Filemap

open Lib
open Multiset (mem_cons_self mem_cons_of_mem)
open Token (owns isMember)
open Function

namespace Tables

variable {s s' : Tables} {M R : Multiset Token} {k k' fd fd' e n : Nat} {f u : File} {x : FsStruct}

def NoRef (k : Nat) (a : Token) : Prop := isMember k a = false ∧ owns k a = false

lemma noRef_about (h : Token.About j fd a) : NoRef k a := by
  cases a with
  | member | owner => simp [Token.About] at h
  | opening | user | closing => exact ⟨rfl, rfl⟩

lemma noRef_member (hj : j ≠ k) (h : isMember j a = true) : NoRef k a := by
  cases a with
  | member i => exact ⟨by simp_all [isMember], rfl⟩
  | owner | opening | user | closing => cases h

lemma noRef_owns (hj : j ≠ k) (h : owns j a = true) : NoRef k a := by
  cases a with
  | owner i => exact ⟨rfl, by simp_all [owns]⟩
  | member | opening | user | closing => cases h

lemma Good.recount (h : s.Good M) (hx : s.fs k = some x)
    (hall : ∀ p : Token → Bool, (∀ a, p a = true → NoRef k a) → tally p R = tally p M)
    (hmem : ∀ a ∈ R, NoRef k a → a ∈ M)
    (hown : ∀ i, Token.owner k i ∈ R → i = 0) (hcount : tally (isMember k) R = c)
    (howner : tally (owns k) R = if c = 0 then 1 else 0) :
    Good { s with fs := update s.fs k (some { x with fsCount := c }) } R := by
  have hentry :
    ∀ k' fd, Tables.entry { s with fs := update s.fs k (some { x with fsCount := c }) } k' fd = s.entry k' fd := by
    intro k' fd
    by_cases hk : k' = k
    · subst hk
      simp [Tables.entry, hx]
    · simp [Tables.entry, hk]
  refine ⟨⟨?_, ?_, ?_, ?_, ?_, ?_, ?_⟩, ⟨?_, ?_, h.log.once, h.log.logged, ?_⟩⟩
  · intro j fd f hf
    rw [hall _ fun a ha => noRef_about (.inr (.inl ha)), hall _ fun a ha => noRef_about (.inl ha),
      hall _ fun a ha => noRef_about (.inr (.inr ha))]
    exact h.inv.entry j fd f ((hentry j fd).symm.trans hf)
  · exact fun j fd f hf => h.inv.bound j fd f ((hentry j fd).symm.trans hf)
  · intro j fd a ha hab
    rw [hentry]
    exact h.inv.placed j fd a (hmem a ha (noRef_about hab)) hab
  · intro j fd e n f ha hf
    exact h.inv.seen j fd e n f (hmem _ ha ⟨rfl, rfl⟩) ((hentry j fd).symm.trans hf)
  · intro j y hy
    by_cases hj : j = k
    · grind
    · rw [hall _ fun a => noRef_member hj, hall _ fun a => noRef_owns hj]
      exact h.inv.refs j y ((update_of_ne hj ..).symm.trans hy)
  · intro j hnone
    have hj : j ≠ k := by
      rintro rfl
      simp at hnone
    rw [hall _ fun a => noRef_member hj, hall _ fun a => noRef_owns hj]
    exact h.inv.gone j ((update_of_ne hj ..).symm.trans hnone)
  · intro j i hi fd hlt f hf
    by_cases hj : j = k
    · grind
    · exact h.inv.owned j i (hmem _ hi ⟨rfl, by simp [hj]⟩) fd hlt f ((hentry j fd).symm.trans hf)
  · exact fun j fd f hf => h.log.stamped j fd f ((hentry j fd).symm.trans hf)
  · grind [h.log.apart]
  · simpa only [hentry] using h.log.live

lemma tally_ref {p : Token → Bool} (hp : ∀ a, p a = true → NoRef k a) (hb : ¬ NoRef k b) :
    tally p (b ::ₘ M) = tally p M := by
  rw [tally_cons, if_neg fun h => hb (hp b h), Nat.add_zero]

lemma ref_member : ¬ NoRef k (.member k) := fun h => by simpa using h.1

lemma ref_owner : ¬ NoRef k (.owner k i) := fun h => by simpa using h.2

lemma mem_of_ref (hb : ¬ NoRef k b) (ha : a ∈ b ::ₘ M) (h : NoRef k a) : a ∈ M := by
  grind

lemma fsCountInc_ok (h : s.Good M) (hm : Token.member k ∈ M) :
    ∃ s', s.fsCountInc k = .ok s' ∧ s'.Good (.member k ::ₘ M) := by
  obtain ⟨x, hx, hpos⟩ := h.inv.table hm
  obtain ⟨hcount, hown⟩ := h.inv.refs k x hx
  refine ⟨_, by rw [fsCountInc, hx], h.recount hx (fun p hp => tally_ref hp ref_member) (fun a => mem_of_ref ref_member) ?_ ?_ ?_⟩
  · grind [h.inv.no_owner]
  · simp [hcount]
  · simp [hown, Nat.ne_of_gt hpos]

lemma fsCountInc_new (h : s.Good (.owner k 0 ::ₘ M)) : ∃ s', s.fsCountInc k = .ok s' ∧ s'.Good (.member k ::ₘ M) := by
  have hpos : tally (owns k) (.owner k 0 ::ₘ M) = tally (owns k) M + 1 := by simp
  cases hx : s.fs k with
  | none =>
    have := (h.inv.gone k hx).2
    omega
  | some x =>
    obtain ⟨hcount, hown⟩ := h.inv.refs k x hx
    have hzero : x.fsCount = 0 := by
      by_contra hne
      rw [if_neg hne] at hown
      omega
    rw [if_pos hzero] at hown
    have hall : ∀ p : Token → Bool, (∀ a, p a = true → NoRef k a) →
      tally p (.member k ::ₘ M) = tally p (.owner k 0 ::ₘ M) := by
      intro p hp
      rw [tally_ref hp ref_member, tally_ref hp ref_owner]
    refine ⟨_, by rw [fsCountInc, hx], h.recount hx hall ?_ ?_ ?_ ?_⟩
    · exact fun a ha hn => mem_cons_of_mem (mem_of_ref ref_member ha hn)
    · intro i hi
      have := tally_pos (by simpa using hi : Token.owner k i ∈ M) (by simp : owns k (.owner k i) = true)
      omega
    · simp at hcount ⊢
      omega
    · simp
      omega

lemma putCount_ok (h : s.Good (.member k ::ₘ M)) : ∃ x, s.fs k = some x ∧
    Good { s with fs := update s.fs k (some { x with fsCount := x.fsCount - 1 }) }
      (if x.fsCount = 1 then .owner k 0 ::ₘ M else M) := by
  obtain ⟨x, hx, hpos⟩ := h.inv.table (mem_cons_self ..)
  obtain ⟨hcount, hown⟩ := h.inv.refs k x hx
  have hno : ∀ i, Token.owner k i ∉ M := fun i hi => h.inv.no_owner (mem_cons_self ..) (mem_cons_of_mem hi)
  simp only [tally_cons, isMember, owns, beq_self_eq_true, if_true, Bool.false_eq_true, if_false,
    Nat.add_zero, if_neg (Nat.ne_of_gt hpos)] at hcount hown
  refine ⟨x, hx, ?_⟩
  split
  · rename_i hone
    have hall : ∀ p : Token → Bool, (∀ a, p a = true → NoRef k a) →
      tally p (.owner k 0 ::ₘ M) = tally p (.member k ::ₘ M) := by
      intro p hp
      rw [tally_ref hp ref_member, tally_ref hp ref_owner]
    refine h.recount hx hall (fun a ha hn => mem_cons_of_mem (mem_of_ref ref_owner ha hn)) ?_ ?_ ?_
    · grind
    · simp
      omega
    · simp [hown, hone]
  rename_i hne
  refine h.recount hx (fun p hp => (tally_ref hp ref_member).symm) (fun a ha _ => mem_cons_of_mem ha) ?_ ?_ ?_
  · exact fun i hi => absurd hi (hno i)
  · omega
  · rw [hown, if_neg (by omega)]

lemma entry_update_other (hk : k' ≠ k) : Tables.entry { s with fs := update s.fs k y } k' fd = s.entry k' fd := by
  simp [Tables.entry, hk]

lemma Inv.about_fs (h : s.Inv M) (ha : a ∈ M) (hab : Token.About k fd a) : s.fs k ≠ none := by
  grind [Tables.entry, h.placed]

lemma newTable_ok (h : s.Good M) (hnone : s.fs k = none) :
    Good { s with fs := update s.fs k (some ⟨filemapInit, 0⟩) } (.owner k 0 ::ₘ M) := by
  generalize hs' : { s with fs := update s.fs k (some ⟨filemapInit, 0⟩) } = s'
  have hnew : ∀ fd, s'.entry k fd = some ⟨.none, false, false, 0, none, 0, 0⟩ := by
    intro fd
    simp [← hs', Tables.entry, filemapInit]
  have hold : ∀ k' fd, k' ≠ k → s'.entry k' fd = s.entry k' fd := fun k' fd hk => by
    rw [← hs']
    exact entry_update_other hk
  have hfs : ∀ k', k' ≠ k → s'.fs k' = s.fs k' := fun k' hk => by rw [← hs']; exact update_of_ne hk ..
  have habout : ∀ fd, ∀ a ∈ M, ¬ Token.About k fd a := fun fd a ha hab => h.inv.about_fs ha hab hnone
  have hback : ∀ k' fd f, s'.entry k' fd = some f → 0 < f.openCount ∨ f.HasNode → s.entry k' fd = some f := by
    intro k' fd f hf hlive
    by_cases hk : k' = k
    · subst hk
      obtain rfl := Option.some.inj ((hnew fd).symm.trans hf)
      rcases hlive with hlive | hlive | hlive <;> cases hlive
    · exact (hold k' fd hk).symm.trans hf
  refine ⟨⟨?_, ?_, ?_, ?_, ?_, ?_, ?_⟩, ⟨?_, ?_, by rw [← hs']; exact h.log.once, by rw [← hs']; exact h.log.logged, ?_⟩⟩
  · intro k' fd f hf
    by_cases hk : k' = k
    · subst hk
      obtain rfl := Option.some.inj ((hnew fd).symm.trans hf)
      have hzero : ∀ p : Token → Bool, (∀ a, p a = true → Token.About k' fd a) → tally p M = 0 := fun p hp =>
        tally_eq_zero fun a ha => Bool.eq_false_iff.mpr fun hpa => habout fd a ha (hp a hpa)
      simp [Entry, hzero _ fun a ha => .inr (.inl ha), hzero _ fun a ha => .inl ha, hzero _ fun a ha => .inr (.inr ha)]
    · simpa using h.inv.entry k' fd f ((hold k' fd hk).symm.trans hf)
  · grind [h.inv.bound]
  · grind [noRef_about, ref_owner, h.inv.placed]
  · intro k' fd e n f ha hf
    have hin : Token.user k' fd e n ∈ M := by simpa using ha
    have hk : k' ≠ k := by
      rintro rfl
      exact habout fd _ hin (.inr (.inl (by simp)))
    exact h.inv.seen k' fd e n f hin ((hold k' fd hk).symm.trans hf)
  · intro k' x hx
    by_cases hk : k' = k
    · subst hk
      obtain rfl : (⟨filemapInit, 0⟩ : FsStruct) = x := by simpa [← hs'] using hx
      simp [h.inv.gone k' hnone]
    · simpa [Ne.symm hk] using h.inv.refs k' x ((hfs k' hk).symm.trans hx)
  · intro k' hx
    have hk : k' ≠ k := by
      rintro rfl
      simp [← hs'] at hx
    simpa [Ne.symm hk] using h.inv.gone k' ((hfs k' hk).symm.trans hx)
  · grind [h.inv.owned]
  · intro k' fd f hf hhas
    rw [← hs']
    exact h.log.stamped k' fd f (hback k' fd f hf (.inr hhas)) hhas
  · grind [h.log.apart]
  · grind [entry, h.log.live]

lemma dropTable_ok (h : s.Good (.owner k i ::ₘ M)) (hnone : ∀ fd f, s.entry k fd = some f → f.status = .none) :
    Good { s with fs := update s.fs k none } M := by
  have hgone : ∀ fd, Tables.entry { s with fs := update s.fs k none } k fd = none := fun fd => by simp [Tables.entry]
  have hback : ∀ {k' fd f}, Tables.entry { s with fs := update s.fs k none } k' fd = some f →
    k' ≠ k ∧ s.entry k' fd = some f := by
    intro k' fd f hf
    have hk : k' ≠ k := by
      rintro rfl
      rw [hgone fd] at hf
      cases hf
    exact ⟨hk, (entry_update_other hk).symm.trans hf⟩
  have hkept : ∀ a ∈ M, a ∈ Token.owner k i ::ₘ M := fun a => mem_cons_of_mem
  have hzero : ∀ fd, ∀ a ∈ M, ¬ Token.About k fd a := by
    intro fd a ha hab
    obtain ⟨f, hf⟩ := h.inv.placed k fd a (hkept a ha) hab
    have he := h.inv.entry k fd f hf
    simp only [Entry, hnone fd f hf] at he
    rcases hab with hab | hab | hab
    · exact absurd (tally_pos (hkept a ha) hab) (by omega)
    · exact absurd (tally_pos (hkept a ha) hab) (by omega)
    · exact absurd (tally_pos (hkept a ha) hab) (by omega)
  have hrefs : tally (isMember k) M = 0 ∧ tally (owns k) M = 0 := by
    have hone : tally (owns k) (.owner k i ::ₘ M) = tally (owns k) M + 1 := by simp
    cases hx : s.fs k with
    | none =>
      have := (h.inv.gone k hx).2
      omega
    | some x =>
      obtain ⟨hcount, hown⟩ := h.inv.refs k x hx
      by_cases hc : x.fsCount = 0
      · rw [if_pos hc] at hown
        simp at hcount
        omega
      · rw [if_neg hc] at hown
        omega
  refine ⟨⟨?_, ?_, ?_, ?_, ?_, ?_, ?_⟩, ⟨?_, ?_, h.log.once, h.log.logged, ?_⟩⟩
  · intro k' fd f hf
    simpa using h.inv.entry k' fd f (hback hf).2
  · exact fun k' fd f hf => h.inv.bound k' fd f (hback hf).2
  · grind [entry_update_other, h.inv.placed]
  · exact fun k' fd e n f ha hf => h.inv.seen k' fd e n f (hkept _ ha) (hback hf).2
  · intro k' x hx
    have hk : k' ≠ k := by
      rintro rfl
      simp at hx
    simpa [Ne.symm hk] using h.inv.refs k' x ((update_of_ne hk ..).symm.trans hx)
  · intro k' hx
    by_cases hk : k' = k
    · exact hk ▸ hrefs
    · simpa [Ne.symm hk] using h.inv.gone k' ((update_of_ne hk ..).symm.trans hx)
  · exact fun k' j hj fd hlt f hf => h.inv.owned k' j (hkept _ hj) fd hlt f (hback hf).2
  · exact fun k' fd f hf => h.log.stamped k' fd f (hback hf).2
  · exact fun k1 fd1 f1 k2 fd2 f2 h1 h2 => h.log.apart k1 fd1 f1 k2 fd2 f2 (hback h1).2 (hback h2).2
  · intro e he
    refine (h.log.live e he).trans ⟨?_, ?_⟩
    · rintro ⟨k', fd, f, hf, hera, hpos⟩
      refine ⟨k', fd, f, (entry_update_other ?_).trans hf, hera, hpos⟩
      rintro rfl
      have hent := h.inv.entry k' fd f hf
      simp only [Entry, hnone fd f hf] at hent
      omega
    · rintro ⟨k', fd, f, hf, hera, hpos⟩
      exact ⟨k', fd, f, (hback hf).2, hera, hpos⟩

def closingAt (k : Nat) (M : Multiset Token) : Option Nat → Multiset Token
  | none => M
  | some fd => .closing k fd ::ₘ M

def destroyingAt (k : Nat) (M : Multiset Token) : Option Nat → Multiset Token
  | none => M
  | some fd => .closing k fd ::ₘ .owner k fd ::ₘ M

lemma Inv.entry_of_member (h : s.Inv M) (hm : Token.member k ∈ M) (fd : Nat) : ∃ f, s.entry k fd = some f := by
  obtain ⟨x, hx, -⟩ := h.table hm
  exact ⟨x.filemap fd, by rw [Tables.entry, hx]; rfl⟩

lemma closeFrom_ok (fd : Nat) (h : s.Good M) (hm : Token.member k ∈ M) :
    ∃ s' r, s.closeFrom k n fd = .ok (s', r) ∧ s'.Good (closingAt k M r) := by
  induction n generalizing s fd with
  | zero => exact ⟨s, none, rfl, h⟩
  | succ n ih =>
    obtain ⟨f, hf⟩ := h.inv.entry_of_member hm fd
    rw [closeFrom, getFile_ok hf]
    simp only [bind, Except.bind]
    split
    · rename_i hopened
      obtain ⟨s', b, hs', hgood, -⟩ := filemapClose_ok h hf hopened
      rw [hs']
      cases b with
      | true => exact ⟨s', some fd, rfl, hgood⟩
      | false => exact ih (fd + 1) hgood
    · exact ih (fd + 1) h

lemma Inv.owner_table (h : s.Inv (.owner k i ::ₘ M)) : ∃ x, s.fs k = some x ∧ x.fsCount = 0 ∧
    tally (isMember k) M = 0 ∧ tally (owns k) M = 0 := by
  have hone : tally (owns k) (.owner k i ::ₘ M) = tally (owns k) M + 1 := by simp
  cases hx : s.fs k with
  | none =>
    have := (h.gone k hx).2
    omega
  | some x =>
    obtain ⟨hcount, hown⟩ := h.refs k x hx
    by_cases hc : x.fsCount = 0
    · rw [if_pos hc] at hown
      simp at hcount
      exact ⟨x, rfl, hc, by omega, by omega⟩
    · rw [if_neg hc] at hown
      omega

lemma Good.advance (h : s.Good (.owner k fd ::ₘ M)) (hnone : ∀ f, s.entry k fd = some f → f.status = .none) :
    s.Good (.owner k (fd + 1) ::ₘ M) := by
  obtain ⟨-, -, -, -, hno⟩ := h.inv.owner_table
  have htally : ∀ p : Token → Bool, (∀ i j, p (.owner k i) = p (.owner k j)) →
      tally p (.owner k (fd + 1) ::ₘ M) = tally p (.owner k fd ::ₘ M) := by
    intro p hp
    rw [tally_cons, tally_cons, hp (fd + 1) fd]
  have hmem : ∀ a, (∀ i, a ≠ .owner k i) → a ∈ Token.owner k (fd + 1) ::ₘ M → a ∈ Token.owner k fd ::ₘ M := by
    intro a hne ha
    exact mem_cons_of_mem ((Multiset.mem_cons.mp ha).resolve_left (hne _))
  refine ⟨⟨?_, h.inv.bound, ?_, ?_, ?_, ?_, ?_⟩, h.log⟩
  · intro k' fd' f hf
    rw [htally _ fun _ _ => rfl, htally _ fun _ _ => rfl, htally _ fun _ _ => rfl]
    exact h.inv.entry k' fd' f hf
  · grind [noRef_about, ref_owner, h.inv.placed]
  · exact fun k' fd' e n f ha hf => h.inv.seen k' fd' e n f (hmem _ nofun ha) hf
  · intro k' x hx
    rw [htally _ fun _ _ => rfl, htally _ fun _ _ => rfl]
    exact h.inv.refs k' x hx
  · intro k' hx
    rw [htally _ fun _ _ => rfl, htally _ fun _ _ => rfl]
    exact h.inv.gone k' hx
  · intro k' j hj fd' hlt f hf
    rcases Multiset.mem_cons.mp hj with heq | hj
    · obtain ⟨rfl, rfl⟩ := Token.owner.inj heq
      rcases Nat.lt_succ_iff_lt_or_eq.mp hlt with hlt | rfl
      · exact h.inv.owned k' fd (mem_cons_self ..) fd' hlt f hf
      · exact hnone f hf
    · exact h.inv.owned k' j (mem_cons_of_mem hj) fd' hlt f hf

def Quiet (k : Nat) (M : Multiset Token) : Prop := ∀ fd, ∀ a ∈ M, ¬ Token.About k fd a

lemma Quiet.tally (h : Quiet k M) {p : Token → Bool} (hp : ∀ a, p a = true → Token.About k fd a) :
    Filemap.tally p M = 0 :=
  tally_eq_zero fun a ha => Bool.eq_false_iff.mpr fun hpa => h fd a ha (hp a hpa)

lemma destroyFrom_ok (h : s.Good (.owner k fd ::ₘ M)) (hq : Quiet k M) (hn : fd + n = fsStructNentry) :
    ∃ s' r, s.destroyFrom k n fd = .ok (s', r) ∧ s'.Good (destroyingAt k M r) := by
  induction n generalizing s fd with
  | zero =>
    refine ⟨_, none, rfl, dropTable_ok h fun j f hf => ?_⟩
    by_cases hj : j < fd
    · exact h.inv.owned k fd (mem_cons_self ..) j hj f hf
    · exact h.inv.bound k j f hf (by omega)
  | succ n ih =>
    obtain ⟨x, hx, -⟩ := h.inv.owner_table
    have hf : s.entry k fd = some (x.filemap fd) := by rw [Tables.entry, hx]; rfl
    generalize x.filemap fd = f at hf
    have he := h.inv.entry k fd f hf
    simp only [tally_cons, Token.uses, Token.opens, Token.closes, Bool.false_eq_true, if_false, Nat.add_zero] at he
    rw [hq.tally fun a ha => .inr (.inl ha), hq.tally fun a ha => .inl ha, hq.tally fun a ha => .inr (.inr ha)] at he
    rw [destroyFrom, getFile_ok hf]
    simp only [bind, Except.bind]
    cases hst : f.status with
    | none =>
      rw [if_neg (by simp), if_pos rfl]
      refine ih (h.advance fun u hf' => ?_) (by omega)
      exact Option.some.inj (hf.symm.trans hf') ▸ hst
    | opened =>
      simp only [Entry, hst] at he
      obtain ⟨s', b, hs', hgood, hb⟩ := filemapClose_ok h hf hst
      obtain rfl := hb he.1
      rw [if_pos rfl, hs']
      exact ⟨s', some fd, rfl, hgood⟩
    | init => simp [Entry, hst] at he
    | closed => simp [Entry, hst] at he

lemma putFs_ok (h : s.Good (.member k ::ₘ M)) (hq : Token.member k ∉ M → (∀ i, Token.owner k i ∉ M) → Quiet k M) :
    ∃ s' r, s.putFs k = .ok (s', r) ∧ s'.Good (destroyingAt k M r) := by
  obtain ⟨x, hx, hgood⟩ := putCount_ok h
  rw [putFs, hx]
  dsimp only
  split
  · rename_i hone
    rw [if_pos hone] at hgood
    obtain ⟨-, -, -, hmem, hown⟩ := hgood.inv.owner_table
    refine destroyFrom_ok hgood (hq ?_ ?_) (by decide)
    · exact fun hm => absurd (tally_pos hm (by simp : isMember k (.member k) = true)) (by omega)
    · exact fun i hi => absurd (tally_pos hi (by simp : owns k (.owner k i) = true)) (by omega)
  · rename_i hone
    rw [if_neg hone] at hgood
    exact ⟨_, none, rfl, hgood⟩

lemma dupFrom_ok (fd : Nat) (h : s.Good (.owner k' 0 ::ₘ M)) (hm : Token.member k ∈ M) (hne : k' ≠ k)
    (hfree : ∀ j, fd ≤ j → ∀ f, s.entry k' j = some f → f.status = .none) (hn : fd + n = fsStructNentry) :
    ∃ s', s.dupFrom k' k n fd = .ok s' ∧ s'.Good (.owner k' 0 ::ₘ M) := by
  induction n generalizing s fd with
  | zero => exact ⟨s, rfl, h⟩
  | succ n ih =>
    obtain ⟨f, hf⟩ := h.inv.entry_of_member (mem_cons_of_mem hm) fd
    rw [dupFrom, getFile_ok hf]
    simp only [bind, Except.bind]
    split
    · rename_i hopened
      obtain ⟨x, hx, -, -, hown⟩ := h.inv.owner_table
      have ht : s.entry k' fd = some (x.filemap fd) := by rw [Tables.entry, hx]; rfl
      generalize x.filemap fd = t at ht
      have hzero : ∀ i, Token.owner k' i ∈ Token.owner k' 0 ::ₘ M → i ≤ fd := by
        intro i hi
        rcases Multiset.mem_cons.mp hi with heq | hi
        · exact (Token.owner.inj heq).2 ▸ Nat.zero_le fd
        · exact absurd (tally_pos hi (by simp : owns k' (.owner k' i) = true)) (by omega)
      have hlt : fd < fsStructNentry := by omega
      have h1 := take_ok (u := { t with status := .init }) h ht (hfree fd (Nat.le_refl fd) t ht) hlt hzero rfl rfl rfl
      have hf1 : (s.setFile k' fd { t with status := .init }).entry k fd = some f :=
        (entry_set_other fun heq => hne heq.1.symm).trans hf
      obtain ⟨s2, hs2, h2, hother⟩ := filemapDup_ok h1 hf1 hopened
      rw [getFile_ok ht]
      simp only [hs2]
      refine ih (fd + 1) h2 ?_ (by omega)
      grind [entry_set_other]
    · exact ih (fd + 1) h (fun j hj => hfree j (by omega)) (by omega)

lemma copyFs_ok (share : Bool) (a : Nat) (h : s.Good M) (hm : Token.member k ∈ M) (ha : share = false → s.fs a = none) :
    ∃ k' s', s.copyFs k share a = .ok (k', s') ∧ s'.Good (.member k' ::ₘ M) := by
  cases share with
  | true =>
    obtain ⟨s', hs', hgood⟩ := fsCountInc_ok h hm
    exact ⟨k, s', by rw [copyFs, if_pos rfl, hs']; rfl, hgood⟩
  | false =>
    obtain ⟨x, hget, hx⟩ := getFilemap_ok h.inv hm
    have hne : a ≠ k := by
      rintro rfl
      exact nomatch (ha rfl).symm.trans hx
    have h1 := newTable_ok h (ha rfl)
    obtain ⟨s2, hs2, h2⟩ := dupFrom_ok (n := fsStructNentry) 0 h1 hm hne
      (fun j _ f hf => by simp [Tables.entry, filemapInit] at hf; rw [← hf]) (Nat.zero_add _)
    obtain ⟨s3, hs3, h3⟩ := fsCountInc_new h2
    refine ⟨a, s3, ?_, h3⟩
    rw [copyFs, if_neg (by simp), hget]
    simp only [bind, Except.bind, hs2, hs3]

lemma resumeDestroy_ok (h : s.Good (.closing k fd ::ₘ .owner k fd ::ₘ M))
    (hq : Token.member k ∉ M → (∀ i, Token.owner k i ∉ M) → Quiet k M) :
    ∃ s1 s' r, s.freed k fd = .ok s1 ∧ s1.destroyFrom k (fsStructNentry - (fd + 1)) (fd + 1) = .ok (s', r) ∧
    s'.Good (destroyingAt k M r) := by
  obtain ⟨f, hf, hclosed, -⟩ := h.inv.of_closing
  have hlt := h.inv.lt_bound hf (by simp [hclosed])
  obtain ⟨g, hg, hs1, h1⟩ := freed_ok h
  have hnone : ∀ u, (s.setFile k fd { g with status := .none }).entry k fd = some u → u.status = .none := by
    intro u hf'
    rw [entry_set_self hg] at hf'
    exact Option.some.inj hf' ▸ rfl
  obtain ⟨-, -, -, hmem, hown⟩ := h1.inv.owner_table
  have hquiet : Quiet k M := by
    refine hq ?_ ?_
    · exact fun hm => absurd (tally_pos hm (by simp : isMember k (.member k) = true)) (by omega)
    · exact fun i hi => absurd (tally_pos hi (by simp : owns k (.owner k i) = true)) (by omega)
  obtain ⟨s', r, hs', h'⟩ := destroyFrom_ok (n := fsStructNentry - (fd + 1)) (h1.advance hnone) hquiet (by omega)
  exact ⟨_, s', r, hs1, hs', h'⟩

end Tables

end Ucore.Fs.Filemap
