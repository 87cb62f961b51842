import Mathlib.Data.List.Range
import Ucore.Sync.Mbox

/-!
# The ids of mailboxes

`mbox_map`, `new_mbox`, `get_mbox` and `mbox_free` of `mbox.c`. Mailboxes are made
a page at a time and are never given back. The number of pages is rounded up,
so that the last one has mailboxes with ids that `get_mbox` refuses.
-/

namespace Ucore.Sync

open Function Ucore.Lib

def maxMboxNum : Nat := 8192

def sizeofMbox : Nat := 72

def mboxPPage : Nat := 4096 / sizeofMbox

def maxMboxPages : Nat := (maxMboxNum + mboxPPage - 1) / mboxPPage

structure MboxMap where
  present : Nat → Bool
  id : Nat × Nat → Nat
  state : Nat × Nat → MboxState
  freeMboxList : List (Nat × Nat)

namespace MboxMap

def getMbox (id : Nat) (s : MboxMap) : Option (Nat × Nat) :=
  if id < maxMboxNum ∧ s.present (id / mboxPPage) = true ∧ s.state (id / mboxPPage, id % mboxPPage) = .opened then
    some (id / mboxPPage, id % mboxPPage)
  else none

/-- `mbox_free`, for a mailbox in which nobody sleeps. -/
def mboxFree (a : Nat × Nat) (s : MboxMap) : MboxMap :=
  { s with state := update s.state a .closed, freeMboxList := s.freeMboxList ++ [a] }

/-- The loop of `new_mbox` over a new page. -/
def newPage (i : Nat) (s : MboxMap) : MboxMap where
  present := update s.present i true
  id a := if a.1 = i then i * mboxPPage + a.2 else s.id a
  state a := if a.1 = i then .closed else s.state a
  freeMboxList := s.freeMboxList ++ (List.range mboxPPage).map fun j => (i, j)

def missingPage (s : MboxMap) : Option Nat := (List.range maxMboxPages).find? fun i => !s.present i

def takeFirst (s : MboxMap) : Option (Nat × Nat) × MboxMap :=
  match s.freeMboxList with
  | [] => (none, s)
  | a :: rest => (some a, { s with freeMboxList := rest, state := update s.state a .opened })

def newMbox (page : Bool) (s : MboxMap) : Option (Nat × Nat) × MboxMap :=
  if s.freeMboxList = [] then
    match s.missingPage with
    | none => (none, s)
    | some i => if page then (s.newPage i).takeFirst else (none, s)
  else s.takeFirst

def ipcMboxInit (page : Bool) (s : MboxMap) : Option Nat × MboxMap :=
  let r := s.newMbox page
  (r.1.map r.2.id, r.2)

/-- `ipc_mbox_free`. The flag says that somebody sleeps in the mailbox. -/
def ipcMboxFree (id : Nat) (busy : Bool) (s : MboxMap) : MboxMap :=
  match s.getMbox id with
  | none => s
  | some a => if busy then { s with state := update s.state a .closing } else s.mboxFree a

inductive Event
  | init (page : Bool)
  | free (id : Nat) (busy : Bool)
  | last (a : Nat × Nat)
  deriving DecidableEq, Repr

def step (s : MboxMap) : Event → Except Panic MboxMap
  | .init page => .ok (s.ipcMboxInit page).2
  | .free id busy => .ok (s.ipcMboxFree id busy)
  | .last a => .ok (s.mboxFree a)

def Allowed (s : MboxMap) : Event → Prop
  | .last a => s.state a = .closing
  | _ => True

def boot : MboxMap := ⟨fun _ => false, fun _ => 0, fun _ => .closed, []⟩

def Reached (guard : MboxMap → Event → Prop) : MboxMap → Prop :=
    Reachable step (fun s e => s.Allowed e ∧ guard s e) (· = boot)

variable {s s' : MboxMap} {a b : Nat × Nat} {i k n : Nat} {page : Bool} {e : Event} {guard : MboxMap → Event → Prop}

def Slot (s : MboxMap) (a : Nat × Nat) : Prop := s.present a.1 = true ∧ a.2 < mboxPPage

structure Ok (s : MboxMap) : Prop where
  ids : ∀ a, s.Slot a → s.id a = a.1 * mboxPPage + a.2
  live : ∀ a, s.state a ≠ .closed → s.Slot a
  free : ∀ a ∈ s.freeMboxList, s.Slot a ∧ s.state a = .closed
  nodup : s.freeMboxList.Nodup

lemma mboxPPage_pos : 0 < mboxPPage := by decide

lemma Ok.div_mod (h : s.Ok) (ha : s.Slot a) : s.id a / mboxPPage = a.1 ∧ s.id a % mboxPPage = a.2 := by
  rw [h.ids a ha, Nat.mul_comm]
  exact ⟨by rw [Nat.mul_add_div mboxPPage_pos, Nat.div_eq_of_lt ha.2, Nat.add_zero], by rw [Nat.mul_add_mod, Nat.mod_eq_of_lt ha.2]⟩

lemma Ok.id_inj (h : s.Ok) (ha : s.Slot a) (hb : s.Slot b) (heq : s.id a = s.id b) : a = b := by
  grind [h.div_mod]

lemma Ok.getMbox_iff (h : s.Ok) (hopen : s.state a = .opened) : s.getMbox (s.id a) = some a ↔ s.id a < maxMboxNum := by
  have ha : s.Slot a := h.live a (by rw [hopen]; decide)
  obtain ⟨hdiv, hmod⟩ := h.div_mod ha
  unfold getMbox
  rw [hdiv, hmod]
  constructor
  · grind
  · exact fun hlt => if_pos ⟨hlt, ha.1, hopen⟩

lemma getMbox_some {id : Nat} (h : s.getMbox id = some a) : s.state a = .opened := by
  unfold getMbox at h
  split at h
  · rename_i hc
    exact Option.some.inj h ▸ hc.2.2
  · cases h

lemma Ok.newPage (h : s.Ok) (hnil : s.freeMboxList = []) : (s.newPage i).Ok := by
  have hother : ∀ a, (s.newPage i).Slot a → a.1 ≠ i → s.Slot a :=
    fun a ha hne => ⟨(update_of_ne hne ..).symm.trans ha.1, ha.2⟩
  have hpresent : (s.newPage i).present i = true := update_self ..
  refine ⟨fun a ha => ?_, fun a hne => ?_, fun a ha => ?_, ?_⟩
  · change (if a.1 = i then i * mboxPPage + a.2 else s.id a) = _
    grind [h.ids]
  · change (if a.1 = i then MboxState.closed else s.state a) ≠ .closed at hne
    split at hne
    · exact absurd rfl hne
    rename_i hai
    obtain ⟨h1, h2⟩ := h.live a hne
    exact ⟨(update_of_ne hai ..).trans h1, h2⟩
  · change a ∈ s.freeMboxList ++ (List.range mboxPPage).map (fun j => (i, j)) at ha
    rw [hnil, List.nil_append] at ha
    obtain ⟨j, hj, rfl⟩ := List.mem_map.mp ha
    exact ⟨⟨hpresent, List.mem_range.mp hj⟩, if_pos rfl⟩
  · change (s.freeMboxList ++ (List.range mboxPPage).map fun j => (i, j)).Nodup
    rw [hnil, List.nil_append]
    exact List.nodup_range.map fun j k hjk => (Prod.mk.inj hjk).2

lemma takeFirst_cases (s : MboxMap) : s.takeFirst = (none, s) ∧ s.freeMboxList = [] ∨
    ∃ a rest, s.freeMboxList = a :: rest ∧
    s.takeFirst = (some a, { s with freeMboxList := rest, state := update s.state a .opened }) := by
  grind [takeFirst]

/-- The id of the mailbox at the head of the free list. If that is empty and a
page can be had, it is the first id of the first page that is missing. -/
def nextId (s : MboxMap) (page : Bool) : Option Nat :=
  match s.freeMboxList with
  | a :: _ => some (s.id a)
  | [] => if page then s.missingPage.map (· * mboxPPage) else none

lemma newMbox_cases (s : MboxMap) (page : Bool) : s.newMbox page = (none, s) ∧ s.nextId page = none ∨
    s.freeMboxList ≠ [] ∧ s.newMbox page = s.takeFirst ∨
    ∃ i, page = true ∧ s.freeMboxList = [] ∧ s.missingPage = some i ∧ s.newMbox page = (s.newPage i).takeFirst := by
  unfold newMbox nextId
  by_cases hnil : s.freeMboxList = []
  · grind
  · rw [if_neg hnil]
    exact .inr (.inl ⟨hnil, rfl⟩)

lemma missingPage_some (h : s.missingPage = some i) : s.present i = false := by
  simpa using List.find?_some h

structure Opens (a : Nat × Nat) (s s' : MboxMap) : Prop where
  ok : s'.Ok
  was : s.state a = .closed
  slot : s'.Slot a
  state : s'.state a = .opened
  others : ∀ b, s.Slot b → b ≠ a → s'.state b = s.state b ∧ s'.id b = s.id b
  opened : ∀ b, s'.state b = .opened → b = a ∨ s.state b = .opened

lemma Ok.takeFirst (h : s.Ok) {rest : List (Nat × Nat)} (hq : s.freeMboxList = a :: rest) :
    Opens a s { s with freeMboxList := rest, state := update s.state a .opened } := by
  have hmem : a ∈ s.freeMboxList := hq ▸ List.mem_cons_self
  obtain ⟨hslot, hclosed⟩ := h.free a hmem
  have hnodup : (a :: rest).Nodup := hq ▸ h.nodup
  have hne : ∀ b, b ≠ a → update s.state a .opened b = s.state b := fun b hb => update_of_ne hb ..
  refine ⟨⟨h.ids, fun b hb => ?_, fun b hb => ?_, (List.nodup_cons.mp hnodup).2⟩, hclosed, hslot, update_self ..,
    fun b _ hb => ⟨hne b hb, rfl⟩, fun b hb => ?_⟩
  · by_cases hba : b = a
    · exact hba ▸ hslot
    change update s.state a .opened b ≠ .closed at hb
    rw [hne b hba] at hb
    exact h.live b hb
  · have hba : b ≠ a := fun heq => (List.nodup_cons.mp hnodup).1 (heq ▸ hb)
    obtain ⟨hslot', hclosed'⟩ := h.free b (hq ▸ List.mem_cons_of_mem a hb)
    exact ⟨hslot', (hne b hba).trans hclosed'⟩
  · grind

lemma Ok.opens (h : s.Ok) (hnew : s.newMbox page = (some a, s')) : Opens a s s' := by
  rcases newMbox_cases s page with ⟨hnone, -⟩ | ⟨hne, htake⟩ | ⟨i, -, hnil, hmiss, htake⟩
  · rw [hnone] at hnew
    cases hnew
  · grind [takeFirst_cases, h.takeFirst]
  · rcases takeFirst_cases (s.newPage i) with ⟨heq, -⟩ | ⟨b, rest, hq, heq⟩
    · rw [htake, heq] at hnew
      cases hnew
    rw [htake, heq] at hnew
    cases hnew
    have hopens := (h.newPage hnil).takeFirst hq
    -- The new page has no mailbox that was there before.
    have hfresh : ∀ b, s.Slot b → b.1 ≠ i := by
      rintro b ⟨hb, -⟩ rfl
      rw [missingPage_some hmiss] at hb
      cases hb
    have hsame : ∀ b, b.1 ≠ i → (s.newPage i).state b = s.state b ∧ (s.newPage i).id b = s.id b :=
      fun b hb => ⟨if_neg hb, if_neg hb⟩
    refine ⟨hopens.ok, ?_, hopens.slot, hopens.state, fun b hb hba => ?_, fun b hb => ?_⟩
    · grind [h.live, hopens.was]
    · grind
    · rcases hopens.opened b hb with hba | hopen
      · exact .inl hba
      refine .inr ?_
      have hbi : b.1 ≠ i := by
        intro hbi
        rw [show (s.newPage i).state b = .closed from if_pos hbi] at hopen
        cases hopen
      exact (hsame b hbi).1.symm.trans hopen

lemma newMbox_none (hnew : s.newMbox page = (none, s')) : s' = s := by
  rcases newMbox_cases s page with ⟨hnone, -⟩ | ⟨hne, htake⟩ | ⟨i, -, -, -, htake⟩
  · rw [hnone] at hnew
    exact (Prod.mk.inj hnew).2.symm
  · grind [takeFirst_cases]
  · rcases takeFirst_cases (s.newPage i) with ⟨-, hnil⟩ | ⟨b, rest, -, heq⟩
    · have hlen : ((s.newPage i).freeMboxList).length = s.freeMboxList.length + mboxPPage := by simp [newPage]
      grind [mboxPPage_pos]
    · rw [htake, heq] at hnew
      cases hnew

lemma Ok.mboxFree (h : s.Ok) (hlive : s.state a ≠ .closed) : (s.mboxFree a).Ok := by
  have hslot := h.live a hlive
  have hne : ∀ b, b ≠ a → update s.state a .closed b = s.state b := fun b hb => update_of_ne hb ..
  have hnot : a ∉ s.freeMboxList := fun hmem => hlive (h.free a hmem).2
  refine ⟨h.ids, fun b hb => ?_, fun b hb => ?_, ?_⟩
  · by_cases hba : b = a
    · exact hba ▸ hslot
    · exact h.live b fun hc => hb ((hne b hba).trans hc)
  · rcases List.mem_append.mp hb with hmem | hmem
    · have hba : b ≠ a := fun heq => hnot (heq ▸ hmem)
      exact ⟨(h.free b hmem).1, (hne b hba).trans (h.free b hmem).2⟩
    · rw [List.mem_singleton.mp hmem]
      exact ⟨hslot, update_self ..⟩
  · exact List.nodup_append.mpr ⟨h.nodup, List.nodup_singleton a,
      fun x hx y hy heq => hnot (List.mem_singleton.mp hy ▸ heq ▸ hx)⟩

lemma Ok.closing (h : s.Ok) (hlive : s.state a ≠ .closed) :
    ({ s with state := update s.state a .closing } : MboxMap).Ok := by
  have hne : ∀ b, b ≠ a → update s.state a .closing b = s.state b := fun b hb => update_of_ne hb ..
  refine ⟨h.ids, fun b hb => ?_, fun b hb => ?_, h.nodup⟩
  · by_cases hba : b = a
    · exact hba ▸ h.live a hlive
    · exact h.live b fun hc => hb ((hne b hba).trans hc)
  · have hba : b ≠ a := fun heq => hlive (heq ▸ (h.free b hb).2)
    exact ⟨(h.free b hb).1, (hne b hba).trans (h.free b hb).2⟩

lemma Ok.freed (h : s.Ok) (id : Nat) (busy : Bool) : (s.ipcMboxFree id busy).Ok ∧ (s.ipcMboxFree id busy).id = s.id ∧
    ∀ b, (s.ipcMboxFree id busy).state b = .opened → s.state b = .opened := by
  unfold ipcMboxFree
  cases hget : s.getMbox id with
  | none => exact ⟨h, rfl, fun _ hb => hb⟩
  | some a =>
    have hlive : s.state a ≠ .closed := by
      rw [getMbox_some hget]
      decide
    have hother : ∀ st : MboxState, st ≠ .opened → ∀ b, update s.state a st b = .opened → s.state b = .opened := by
      intro st hst b hb
      have hba : b ≠ a := by
        rintro rfl
        rw [update_self] at hb
        exact hst hb
      rwa [update_of_ne hba] at hb
    cases busy with
    | true => exact ⟨h.closing hlive, rfl, hother .closing (by decide)⟩
    | false => exact ⟨h.mboxFree hlive, rfl, hother .closed (by decide)⟩

lemma newMbox_nextId (hnew : s.newMbox page = (some a, s')) : s.nextId page = some (s'.id a) := by
  rcases newMbox_cases s page with ⟨hnone, -⟩ | ⟨hne, htake⟩ | ⟨i, rfl, hnil, hmiss, htake⟩
  · rw [hnone] at hnew
    cases hnew
  · grind [nextId, takeFirst_cases]
  · -- The list of a new page begins with its first mailbox.
    have hq : (s.newPage i).freeMboxList = (i, 0) :: (List.range' 1 (mboxPPage - 1)).map fun j => (i, j) := by
      change s.freeMboxList ++ _ = _
      rw [hnil, List.nil_append, List.range_eq_range']
      rfl
    rcases takeFirst_cases (s.newPage i) with ⟨-, hnil'⟩ | ⟨b, rest, hq', heq⟩
    · rw [hq] at hnil'
      cases hnil'
    rw [htake, heq] at hnew
    cases hnew
    obtain ⟨rfl, -⟩ := List.cons.inj (hq.symm.trans hq')
    have hid : (s.newPage i).id (i, 0) = i * mboxPPage := if_pos rfl
    rw [nextId, hnil, hmiss]
    exact congrArg some hid.symm

def Works (s : MboxMap) : Event → Prop
  | .init page => ∀ id, s.nextId page = some id → id < maxMboxNum
  | _ => True

def Findable (s : MboxMap) : Prop := ∀ a, s.state a = .opened → s.getMbox (s.id a) = some a

lemma step_ok (h : s.Ok) (ha : s.Allowed e) (hs : s.step e = .ok s') : s'.Ok := by
  cases e with
  | init page =>
    cases hs
    cases hnew : s.newMbox page with
    | mk o t =>
      change (s.newMbox page).2.Ok
      rw [hnew]
      cases o with
      | none => exact newMbox_none hnew ▸ h
      | some a => exact (h.opens hnew).ok
  | free id busy =>
    cases hs
    exact (h.freed id busy).1
  | last a =>
    cases hs
    refine h.mboxFree ?_
    rw [show s.state a = .closing from ha]
    decide

lemma step_findable (h : s.Ok) (hfind : s.Findable) (ha : s.Allowed e) (hg : s.Works e)
    (hs : s.step e = .ok s') : s'.Findable := by
  have hrange : ∀ b, s.state b = .opened → s.id b < maxMboxNum := fun b hb => (h.getMbox_iff hb).mp (hfind b hb)
  cases e with
  | init page =>
    cases hs
    cases hnew : s.newMbox page with
    | mk o t =>
      change (s.newMbox page).2.Findable
      rw [hnew]
      cases o with
      | none => exact newMbox_none hnew ▸ hfind
      | some a =>
        have hopens := h.opens hnew
        intro b hb
        rw [hopens.ok.getMbox_iff hb]
        by_cases hba : b = a
        · subst hba
          exact hg _ (newMbox_nextId hnew)
        · grind [hopens.opened, h.live, hopens.others]
  | free id busy =>
    cases hs
    grind [Ok.getMbox_iff, h.freed, Findable]
  | last a =>
    cases hs
    intro b hb
    have hba : b ≠ a := by
      rintro rfl
      rw [show (s.mboxFree b).state b = .closed from update_self ..] at hb
      cases hb
    have hlive : s.state a ≠ .closed := by
      rw [show s.state a = .closing from ha]
      decide
    rw [(h.mboxFree hlive).getMbox_iff hb]
    exact hrange b ((update_of_ne hba ..).symm.trans hb)

lemma boot_ok : boot.Ok := by
  refine ⟨?_, fun a => absurd rfl, ?_, List.nodup_nil⟩
  · rintro a ⟨ha, -⟩
    cases ha
  · intro a ha
    cases ha

lemma Reached.ok (h : Reached guard s) : s.Ok := by
  refine h.invariant (P := Ok) ?_ fun s e s' hok hg => step_ok hok hg.1
  rintro _ rfl
  exact boot_ok

/-- As long as only mailboxes with ids in range are taken, every open mailbox is found
by its id, and a new id is not that of an open one. -/
theorem ids_work_iff (h : Reached Works s) :
    s.Findable ∧ (∀ a b, s.state a = .opened → s.state b = .opened → s.id a = s.id b → a = b) ∧
    ∀ page id s', s.ipcMboxInit page = (some id, s') → (∀ b, s.state b = .opened → s.id b ≠ id) ∧
      ∃ a, s.state a = .closed ∧ s'.state a = .opened ∧ s'.id a = id ∧
      (s'.getMbox id = some a ↔ s.Works (.init page)) := by
  have hok := h.ok
  have hslot : ∀ a, s.state a = .opened → s.Slot a := fun a ha => hok.live a (by rw [ha]; decide)
  have hfind : s.Ok ∧ s.Findable := by
    refine h.invariant (P := fun s => s.Ok ∧ s.Findable) ?_ ?_
    · rintro _ rfl
      exact ⟨boot_ok, (fun a ha => by cases ha)⟩
    · grind [step_ok, step_findable]
  refine ⟨hfind.2, fun a b ha hb heq => hok.id_inj (hslot a ha) (hslot b hb) heq, fun page id s' hinit => ?_⟩
  cases hnew : s.newMbox page with
  | mk o t =>
    have hinit' : (o.map t.id, t) = (some id, s') := by
      rw [← hinit, ipcMboxInit, hnew]
    cases o with
    | none => cases hinit'
    | some a =>
      cases hinit'
      have hopens := hok.opens hnew
      have hnext := newMbox_nextId hnew
      refine ⟨fun b hb heq => ?_, a, hopens.was, hopens.state, rfl, ?_⟩
      · have hba : b ≠ a := by
          rintro rfl
          rw [hopens.was] at hb
          cases hb
        obtain ⟨hstate, hid⟩ := hopens.others b (hslot b hb) hba
        have hslot' : s'.Slot b := hopens.ok.live b (by rw [hstate, hb]; decide)
        exact hba (hopens.ok.id_inj hslot' hopens.slot (hid.trans heq))
      · rw [hopens.ok.getMbox_iff hopens.state]
        refine ⟨fun hlt id hid => ?_, fun hg => hg _ hnext⟩
        rw [hnext] at hid
        exact Option.some.inj hid ▸ hlt

theorem ids_work_first : ∃ s' a, boot.ipcMboxInit true = (some 0, s') ∧ s'.state a = .opened ∧
    s'.getMbox 0 = some a := by
  have hw : boot.Works (.init true) := by
    intro id hid
    rw [show boot.nextId true = some 0 by decide] at hid
    cases hid
    decide
  obtain ⟨-, a, -, hopen, -, hget⟩ := (ids_work_iff (s := boot) (.init rfl)).2.2 true 0 _ rfl
  exact ⟨_, a, rfl, hopen, hget.mpr hw⟩

def slotOf (n : Nat) : Nat × Nat := (n / mboxPPage, n % mboxPPage)

def pagesFor (n : Nat) : Nat := (n + (mboxPPage - 1)) / mboxPPage

structure Taken (n : Nat) (s : MboxMap) : Prop where
  present : ∀ i, s.present i = decide (i < pagesFor n)
  free : s.freeMboxList = (List.range' n (pagesFor n * mboxPPage - n)).map slotOf

lemma missingPage_eq (hpresent : ∀ i, s.present i = decide (i < n)) (hn : n < maxMboxPages) :
    s.missingPage = some n := by
  grind [List.find?_range_eq_some, missingPage]

lemma newPage_free (i : Nat) (hnil : s.freeMboxList = []) :
    (s.newPage i).freeMboxList = (List.range' (i * mboxPPage) mboxPPage).map slotOf := by
  change s.freeMboxList ++ _ = _
  rw [hnil, List.nil_append, List.range'_eq_map_range, List.map_map]
  refine List.map_congr_left fun j hj => ?_
  have hlt := List.mem_range.mp hj
  rw [Function.comp_apply, slotOf, Nat.mul_comm, Nat.mul_add_div mboxPPage_pos, Nat.div_eq_of_lt hlt, Nat.mul_add_mod,
    Nat.mod_eq_of_lt hlt, Nat.add_zero]

lemma mboxPPage_eq : mboxPPage = 56 := by decide

lemma maxMboxPages_eq : maxMboxPages = 147 := by decide

lemma takeFirst_eq {rest : List (Nat × Nat)} (hq : s.freeMboxList = a :: rest) :
    s.takeFirst = (some a, { s with freeMboxList := rest, state := update s.state a .opened }) := by
  rw [takeFirst, hq]

lemma Taken.next (h : Taken n s) (hn : n < maxMboxPages * mboxPPage) :
    ∃ s', s.newMbox true = (some (slotOf n), s') ∧ Taken (n + 1) s' := by
  have hlist : ∀ m k, k = m + 1 → (List.range' n k).map slotOf = slotOf n :: (List.range' (n + 1) m).map slotOf := by
    rintro m _ rfl
    rfl
  have hpages : ∀ m, pagesFor m = (m + 55) / 56 := fun m => by rw [pagesFor, mboxPPage_eq]
  rw [maxMboxPages_eq, mboxPPage_eq] at hn
  by_cases hzero : n % 56 = 0
  · -- The free list is empty, and a new page is made.
    have hnil : s.freeMboxList = [] := by
      rw [h.free, hpages, mboxPPage_eq, show (n + 55) / 56 * 56 - n = 0 by omega]
      rfl
    have hmiss : s.missingPage = some (n / 56) := by
      refine missingPage_eq (fun i => ?_) ?_
      · rw [h.present, hpages, show (n + 55) / 56 = n / 56 by omega]
      · rw [maxMboxPages_eq]
        omega
    have hq := newPage_free (n / 56) hnil
    rw [mboxPPage_eq, show n / 56 * 56 = n by omega, hlist 55 56 rfl] at hq
    have hnew : s.newMbox true = (s.newPage (n / 56)).takeFirst := by
      rw [newMbox, if_pos hnil, hmiss]
      rfl
    refine ⟨_, hnew.trans (takeFirst_eq hq), fun i => ?_, ?_⟩
    · change update s.present (n / 56) true i = _
      rw [hpages, show (n + 1 + 55) / 56 = n / 56 + 1 by omega]
      by_cases hi : i = n / 56
      · subst hi
        simp
      · rw [update_of_ne hi, h.present, hpages, show (n + 55) / 56 = n / 56 by omega]
        exact decide_eq_decide.mpr (by omega)
    · rw [hpages, mboxPPage_eq, show (n + 1 + 55) / 56 * 56 - (n + 1) = 55 by omega]
  · have hq := h.free
    rw [hpages, mboxPPage_eq, hlist ((n + 55) / 56 * 56 - (n + 1)) _ (by omega)] at hq
    have hnew : s.newMbox true = s.takeFirst := by
      rw [newMbox, if_neg]
      rw [hq]
      exact List.cons_ne_nil _ _
    refine ⟨_, hnew.trans (takeFirst_eq hq), fun i => ?_, ?_⟩
    · change s.present i = _
      rw [h.present, hpages, hpages, show (n + 1 + 55) / 56 = (n + 55) / 56 by omega]
    · rw [hpages, mboxPPage_eq, show (n + 1 + 55) / 56 = (n + 55) / 56 by omega]

lemma exists_taken (n : Nat) (hn : n ≤ maxMboxPages * mboxPPage) : ∃ s, Reached (fun _ _ => True) s ∧ Taken n s := by
  induction n with
  | zero =>
    refine ⟨boot, .init rfl, fun i => ?_, rfl⟩
    rw [show pagesFor 0 = 0 by decide]
    rfl
  | succ n ih =>
    obtain ⟨s, hs, htaken⟩ := ih (Nat.le_of_succ_le hn)
    obtain ⟨s', hnew, htaken'⟩ := htaken.next hn
    have hstep : s.step (.init true) = .ok s' := by
      change Except.ok (s.newMbox true).2 = _
      rw [hnew]
    have hallowed : s.Allowed (.init true) := trivial
    exact ⟨s', .step hs ⟨hallowed, trivial⟩ hstep, htaken'⟩

/-- When 8192 mailboxes are open, the next one gets an id that is not found. -/
theorem id_out_of_range :
    ∃ s, Reached (fun _ _ => True) s ∧ ∃ s', s.ipcMboxInit true = (some 8192, s') ∧ s'.getMbox 8192 = none := by
  obtain ⟨s, hs, htaken⟩ := exists_taken 8192 (by decide)
  obtain ⟨s', hnew, -⟩ := htaken.next (by decide)
  have hopens := hs.ok.opens hnew
  have hid : s'.id (slotOf 8192) = 8192 := hopens.ok.ids _ hopens.slot
  refine ⟨s, hs, s', ?_, ?_⟩
  · grind [ipcMboxInit]
  · rw [getMbox, if_neg]
    exact fun hc => absurd hc.1 (by decide)

end MboxMap

end Ucore.Sync
