import Ucore.Lib.Run

/-!
# Packets between processors

`proc/ipe.c`. In the receive buffer of its target `do_ipe` runs the handler of a packet
and sends it back to where it came from. The event process of a CPU runs one `do_ipe` at
a time. Sends by the owner of a packet go on beside it, and in each of them every
attempt at a slot is a step of its own. The log of what happened to the packets is not
in the source.
-/

namespace Ucore.River

open Lib (Reachable trace)
open Function

def rbufCount : Nat := 8192
def ipeRetry : Nat := 10

/-- What happens to a packet: it is in a slot of CPU `c`, its handler runs on
`c`, its back handler starts on `c`. -/
inductive Note
  | sent (c : Nat)
  | handled (c : Nat)
  | back (c : Nat)
  deriving DecidableEq, Repr

/-- Where `do_ipe` is: before it reads slot `i`, before it looks into the packet
it read, before the handler, before the answer, in the loop of
`ipe_packet_send` after `k` failures, before the slot is cleared. -/
inductive IpeScan
  | idle
  | look (i : Nat)
  | found (i p : Nat)
  | handle (i p : Nat)
  | ack (i p : Nat)
  | attempt (i p k : Nat)
  | clear (i : Nat)
  deriving DecidableEq, Repr

inductive Care
  | none
  | handling
  | answering
  | leaving
  deriving DecidableEq, Repr

def IpeScan.care (i p : Nat) : IpeScan → Care
  | .handle j q => if j = i ∧ q = p then .handling else .none
  | .ack j q | .attempt j q _ => if j = i ∧ q = p then .answering else .none
  | .clear j => if j = i then .leaving else .none
  | _ => .none

structure Ipe where
  recv : Nat → Nat → Option Nat
  origin : Nat → Nat
  processed : Nat → Bool
  scan : Nat → IpeScan
  sends : Nat → Option (Nat × Nat)
  notes : Nat → List Note

inductive IpeEvent
  | send (p c : Nat)
  | attempt (p idx : Nat)
  | begin (c : Nat)
  /-- `idx` is the slot the next attempt tries. -/
  | scan (c idx : Nat)
  deriving DecidableEq, Repr

namespace Ipe

def init (origin : Nat → Nat) : Ipe :=
  ⟨fun _ _ => none, origin, fun _ => false, fun _ => .idle, fun _ => none, fun _ => []⟩

def setRecv (s : Ipe) (c i : Nat) (x : Option Nat) : Ipe := { s with recv := update s.recv c (update (s.recv c) i x) }

def note (s : Ipe) (p : Nat) (n : Note) : Ipe := { s with notes := update s.notes p (n :: s.notes p) }

def setScan (s : Ipe) (c : Nat) (x : IpeScan) : Ipe := { s with scan := update s.scan c x }

lemma setScan_scan (s : Ipe) (c : Nat) (x : IpeScan) : (s.setScan c x).scan c = x := update_self ..

def attempt (s : Ipe) (p idx : Nat) : Ipe :=
  match s.sends p with
  | none => s
  | some (c, k) =>
    if s.recv c idx = none then { s.setRecv c idx (some p) with sends := update s.sends p none }.note p (.sent c)
    else { s with sends := update s.sends p (if k + 1 = ipeRetry then none else some (c, k + 1)) }

def scanStep (s : Ipe) (c idx : Nat) : Ipe :=
  match s.scan c with
  | .idle => s
  | .look i =>
    if i = rbufCount then s.setScan c .idle
    else match s.recv c i with
      | none => s.setScan c (.look (i + 1))
      | some p => s.setScan c (.found i p)
  | .found i p =>
    if s.origin p = c then (s.note p (.back c)).setScan c (.clear i)
    else if s.processed p then s.setScan c (.ack i p)
    else { s with processed := update s.processed p true }.setScan c (.handle i p)
  | .handle i p => (s.note p (.handled c)).setScan c (.ack i p)
  | .ack i p => { s with processed := update s.processed p false }.setScan c (.attempt i p 0)
  | .attempt i p k =>
    if s.recv (s.origin p) idx = none then (s.setRecv (s.origin p) idx (some p)).setScan c (.clear i)
    else if k + 1 = ipeRetry then s.setScan c (.look (i + 1))
    else s.setScan c (.attempt i p (k + 1))
  | .clear i => (s.setRecv c i none).setScan c (.look (i + 1))

def phase (s : Ipe) (p : Nat) : Option Note := (s.notes p).head?

def Returned (s : Ipe) (p : Nat) : Prop :=
  match s.phase p with
  | none | some (.back _) => True
  | some (.sent _) | some (.handled _) => False

instance : Decidable (Returned s p) := by
  unfold Returned
  split <;> infer_instance

/-- The owner of a packet sends it to another CPU, and not before the back
handler of the last time. -/
def Allowed (s : Ipe) : IpeEvent → Prop
  | .send p c => s.sends p = none ∧ c ≠ s.origin p ∧ s.Returned p
  | .attempt p idx => s.sends p ≠ none ∧ idx < rbufCount
  | .begin c => s.scan c = .idle
  | .scan _ idx => idx < rbufCount

instance (s e) : Decidable (Allowed s e) := by
  unfold Allowed
  split <;> infer_instance

def step (s : Ipe) : IpeEvent → Except Empty Ipe
  | .send p c => .ok { s with processed := update s.processed p false, sends := update s.sends p (some (c, 0)) }
  | .attempt p idx => .ok (s.attempt p idx)
  | .begin c => .ok (s.setScan c (.look 0))
  | .scan c idx => .ok (s.scanStep c idx)

/-- Each time a packet is sent, its handler runs at most once, on the target,
and then its back handler at most once, at the origin. -/
def Orderly (origin : Nat) : List Note → Prop
  | [] => True
  | .sent c :: ns => c ≠ origin ∧ (ns = [] ∨ ∃ b, ns.head? = some (.back b)) ∧ Orderly origin ns
  | .handled c :: ns => ns.head? = some (.sent c) ∧ Orderly origin ns
  | .back c :: ns => c = origin ∧ (∃ t, ns.head? = some (.handled t)) ∧ Orderly origin ns

def LastFits (s : Ipe) (idx : Nat) : IpeScan → Prop
  | .attempt _ p k => k + 1 = ipeRetry → s.recv (s.origin p) idx = none
  | _ => True

instance : ∀ x, Decidable (LastFits s idx x)
  | .attempt _ _ _ => inferInstanceAs (Decidable (_ → _))
  | .idle | .look _ | .found _ _ | .handle _ _ | .ack _ _ | .clear _ => isTrue trivial

def Acked (s : Ipe) : IpeEvent → Prop
  | .scan c idx => s.LastFits idx (s.scan c)
  | _ => True

instance (s e) : Decidable (Acked s e) := by
  unfold Acked
  split <;> infer_instance

-- Where packets are

variable {s s' : Ipe} {e : IpeEvent}

def Live (s : Ipe) (c i p : Nat) : Prop := s.recv c i = some p ∧ (s.scan c).care i p ≠ .leaving

structure AtRest (s : Ipe) (p : Nat) : Prop where
  live : ∀ c i, ¬ s.Live c i p
  phase : s.phase p = none ∨ ∃ c, s.phase p = some (.back c)
  sends : ∀ c k, s.sends p = some (c, k) → c ≠ s.origin p ∧ s.processed p = false

def Stage (s : Ipe) (c i p : Nat) : Prop :=
  if c = s.origin p then ∃ t, s.phase p = some (.handled t)
  else match (s.scan c).care i p with
    | .none => s.phase p = some (.sent c) ∧ s.processed p = false
    | .handling => s.phase p = some (.sent c)
    | .answering => s.phase p = some (.handled c)
    | .leaving => False

structure OnWay (s : Ipe) (p c i : Nat) : Prop where
  bound : i < rbufCount
  live : ∀ c' i', s.Live c' i' p ↔ c' = c ∧ i' = i
  sends : s.sends p = none
  stage : s.Stage c i p

def CpuOk (s : Ipe) (c : Nat) : Prop :=
  match s.scan c with
  | .idle => True
  | .look i => i ≤ rbufCount
  | .found i p => s.recv c i = some p ∧ i < rbufCount
  | .handle i p | .ack i p | .attempt i p _ => s.recv c i = some p ∧ i < rbufCount ∧ c ≠ s.origin p
  | .clear i => s.recv c i ≠ none ∧ i < rbufCount

structure Inv (s : Ipe) : Prop where
  orderly : ∀ p, Orderly (s.origin p) (s.notes p)
  packets : ∀ p, s.AtRest p ∨ ∃ c i, s.OnWay p c i
  cpus : ∀ c, s.CpuOk c

structure Same (s s' : Ipe) (p : Nat) : Prop where
  origin : s'.origin p = s.origin p
  notes : s'.notes p = s.notes p
  processed : s'.processed p = s.processed p
  sends : s'.sends p = s.sends p
  live : ∀ c i, s'.Live c i p ↔ s.Live c i p
  care : ∀ c i, s.Live c i p → (s'.scan c).care i p = (s.scan c).care i p

lemma Same.packet (h : Same s s' p) (hp : s.AtRest p ∨ ∃ c i, s.OnWay p c i) : s'.AtRest p ∨ ∃ c i, s'.OnWay p c i := by
  obtain ⟨h1, h2, h3, h4, h5, h6⟩ := h
  rcases hp with ⟨hl, hph, hs⟩ | ⟨c, i, hb, hl, hs, hst⟩
  · refine .inl ⟨fun c i hc => hl c i ((h5 c i).mp hc), ?_, ?_⟩
    · simpa [phase, h2] using hph
    · simpa [h4, h1, h3] using hs
  · have hlive : s.Live c i p := (hl c i).mpr ⟨rfl, rfl⟩
    refine .inr ⟨c, i, hb, fun c' i' => (h5 c' i').trans (hl c' i'), h4.trans hs, ?_⟩
    simpa only [Stage, phase, h1, h2, h3, h6 c i hlive] using hst

lemma Inv.init : (init f).Inv := by
  refine ⟨fun p => trivial, fun p => .inl ⟨?_, .inl rfl, ?_⟩, fun c => trivial⟩
  · rintro c i ⟨hc, -⟩
    simp [Ipe.init] at hc
  · intro c k hc
    simp [Ipe.init] at hc

lemma live_iff (hrecv : ∀ c i, s'.recv c i = some p ↔ s.recv c i = some p)
    (hcare : ∀ c i, s.recv c i = some p → (s'.scan c).care i p = (s.scan c).care i p) (c i : Nat) :
    s'.Live c i p ↔ s.Live c i p := by
  grind [Live]

def About (i : Nat) (x : IpeScan) : Prop := ∀ j q, j ≠ i → x.care j q = .none

lemma about_look : About i (.look j) := fun _ _ _ => rfl
lemma about_idle : About i .idle := fun _ _ _ => rfl
lemma about_found : About i (.found i p) := fun _ _ _ => rfl
lemma about_handle : About i (.handle i p) := fun _ _ hj => if_neg fun hc => hj hc.1.symm
lemma about_ack : About i (.ack i p) := fun _ _ hj => if_neg fun hc => hj hc.1.symm
lemma about_attempt : About i (.attempt i p k) := fun _ _ hj => if_neg fun hc => hj hc.1.symm
lemma about_clear : About i (.clear i) := fun _ _ hj => if_neg fun hc => hj hc.symm

section

variable (hx : About i (s.scan c)) (hy : About i y) (hq : s.recv c i ≠ some p)
include hx hy hq

lemma care_update (c' j : Nat)
    (hr : s.recv c' j = some p) : (update s.scan c y c').care j p = (s.scan c').care j p := by
  by_cases hc : c' = c
  · subst hc
    have hj : j ≠ i := by
      rintro rfl
      exact hq hr
    rw [update_self, hy j p hj, hx j p hj]
  · rw [update_of_ne hc]

lemma Same.scan : Same s (s.setScan c y) p where
  origin := rfl
  notes := rfl
  processed := rfl
  sends := rfl
  live := live_iff (fun _ _ => Iff.rfl) (care_update hx hy hq)
  care c' j hl := care_update hx hy hq c' j hl.1

end

lemma Same.trans {s1 s2 s3 : Ipe} (h : Same s1 s2 p) (h' : Same s2 s3 p) : Same s1 s3 p where
  origin := h'.origin.trans h.origin
  notes := h'.notes.trans h.notes
  processed := h'.processed.trans h.processed
  sends := h'.sends.trans h.sends
  live c i := (h'.live c i).trans (h.live c i)
  care c i hl := (h'.care c i ((h.live c i).mpr hl)).trans (h.care c i hl)

lemma Same.note (hpq : q ≠ p) : Same s (s.note p n) q :=
  ⟨rfl, update_of_ne hpq .., rfl, rfl, fun _ _ => Iff.rfl, fun _ _ _ => rfl⟩

lemma Same.processed' (hpq : q ≠ p) : Same s { s with processed := update s.processed p b } q :=
  ⟨rfl, rfl, update_of_ne hpq .., rfl, fun _ _ => Iff.rfl, fun _ _ _ => rfl⟩

lemma Same.sends' (hpq : q ≠ p) : Same s { s with sends := update s.sends p x } q :=
  ⟨rfl, rfl, rfl, update_of_ne hpq .., fun _ _ => Iff.rfl, fun _ _ _ => rfl⟩

lemma recv_setRecv : (s.setRecv c i x).recv c' i' = if c' = c ∧ i' = i then x else s.recv c' i' := by
  simp only [setRecv, Function.update_apply]
  grind

lemma Same.setRecv (hr : s.recv c i = none) (hpq : q ≠ p) : Same s (s.setRecv c i (some p)) q := by
  have hrecv : ∀ c' i', (s.setRecv c i (some p)).recv c' i' = some q ↔ s.recv c' i' = some q := by
    intro c' i'
    rw [recv_setRecv]
    split
    · rename_i h
      simp [h.1, h.2, hr, Ne.symm hpq]
    · exact Iff.rfl
  exact ⟨rfl, rfl, rfl, rfl, live_iff hrecv fun _ _ _ => rfl, fun _ _ _ => rfl⟩

lemma CpuOk.frame (h : s.CpuOk c) (hs : s'.scan c = s.scan c) (ho : s'.origin = s.origin)
    (hr : ∀ i, s.recv c i ≠ none → s'.recv c i = s.recv c i) : s'.CpuOk c := by
  unfold CpuOk at *
  rw [hs]
  cases hsc : s.scan c with
  | idle => trivial
  | look i =>
    simp only [hsc] at h
    exact h
  | found i p =>
    simp only [hsc] at h ⊢
    rwa [hr i (by simp [h.1])]
  | handle i p | ack i p | attempt i p k =>
    simp only [hsc] at h ⊢
    rwa [hr i (by simp [h.1]), ho]
  | clear i =>
    simp only [hsc] at h ⊢
    rwa [hr i h.1]

lemma live_setScan (hx : About i (s.scan c)) (hy : About i y) (hold : (s.scan c).care i p ≠ .leaving)
    (hnew : y.care i p ≠ .leaving) (c' j : Nat) : (s.setScan c y).Live c' j p ↔ s.Live c' j p := by
  simp only [Live, setScan]
  refine and_congr_right fun _ => ?_
  by_cases hc : c' = c
  · subst hc
    rw [update_self]
    by_cases hj : j = i
    · subst hj
      exact ⟨fun _ => hold, fun _ => hnew⟩
    · rw [hy j p hj, hx j p hj]
  · rw [update_of_ne hc]

lemma live_leave (hx : About i (s.scan c)) (c' j : Nat) :
    (s.setScan c (.clear i)).Live c' j p ↔ s.Live c' j p ∧ ¬ (c' = c ∧ j = i) := by
  simp only [Live, setScan, and_assoc]
  refine and_congr_right fun _ => ?_
  by_cases hc : c' = c
  · subst hc
    rw [update_self]
    by_cases hj : j = i
    · subst hj
      simp [IpeScan.care]
    · simp [about_clear j p hj, hx j p hj, hj]
  · rw [update_of_ne hc]
    simp [hc]

lemma phase_note : (s.note p n).phase p = some n := by simp [phase, note]

lemma stage_fresh (ho : c ≠ s.origin p) (hcare : (s.scan c).care i p = .none) (hp : s.phase p = some (.sent c))
    (hproc : s.processed p = false) : s.Stage c i p := by
  rw [Stage, if_neg ho, hcare]
  exact ⟨hp, hproc⟩

lemma stage_answering (ho : c ≠ s.origin p) (hcare : (s.scan c).care i p = .answering)
    (hp : s.phase p = some (.handled c)) : s.Stage c i p := by
  rw [Stage, if_neg ho, hcare]
  exact hp

lemma CpuOk.care_free (h : s.CpuOk c) (hr : s.recv c i = none) : (s.scan c).care i p = .none := by
  unfold CpuOk at h
  cases hs : s.scan c with
  | idle | look | found => rfl
  | handle j q | ack j q | attempt j q k =>
    simp only [hs] at h
    refine if_neg ?_
    rintro ⟨rfl, rfl⟩
    simp [hr] at h
  | clear j => grind [IpeScan.care]

lemma live_setRecv (hr : s.recv c i = none) (hcpu : s.CpuOk c) (c' i' : Nat) :
    (s.setRecv c i (some p)).Live c' i' p ↔ s.Live c' i' p ∨ c' = c ∧ i' = i := by
  have hcare : (s.scan c).care i p ≠ .leaving := by simp [hcpu.care_free hr]
  simp only [Live, recv_setRecv]
  by_cases hci : c' = c ∧ i' = i
  · obtain ⟨rfl, rfl⟩ := hci
    simp only [and_self, if_true, true_and, or_true, iff_true]
    exact hcare
  · simp only [hci, if_false, or_false]
    exact Iff.rfl

lemma Stage.not_returned (h : s.Stage c i p) : ¬ s.Returned p := by
  unfold Stage at h
  grind [Returned]

section

variable (h : s.Inv)
include h

lemma Inv.onWay (hr : s.recv c i = some p) (hcare : (s.scan c).care i p ≠ .leaving) : s.OnWay p c i := by
  rcases h.packets p with hp | ⟨c', i', hp⟩
  · exact absurd ⟨hr, hcare⟩ (hp.live c i)
  · obtain ⟨rfl, rfl⟩ := (hp.live c i).mp ⟨hr, hcare⟩
    exact hp

lemma Inv.scanned (hx : About i (s.scan c)) (hy : About i y) (hr : s.recv c i = some p)
    (hsame : ∀ q, q ≠ p → Same (s.setScan c y) s' q) (hscan : s'.scan = update s.scan c y) (ho : s'.origin = s.origin)
    (hrecv : ∀ c' j, s.recv c' j ≠ none → s'.recv c' j = s.recv c' j) (hcpu : s'.CpuOk c)
    (hord : Orderly (s.origin p) (s'.notes p)) (hp : s'.AtRest p ∨ ∃ c i, s'.OnWay p c i) : s'.Inv := by
  refine ⟨fun q => ?_, fun q => ?_, fun c' => ?_⟩
  · by_cases hq : q = p
    · subst hq
      rw [ho]
      exact hord
    · rw [ho, (hsame q hq).notes]
      exact h.orderly q
  · by_cases hq : q = p
    · subst hq
      exact hp
    refine Same.packet (Same.trans (Same.scan hx hy ?_) (hsame q hq)) (h.packets q)
    rw [hr]
    exact fun hc => hq (Option.some.inj hc).symm
  · by_cases hc : c' = c
    · subst hc
      exact hcpu
    · refine (h.cpus c').frame ?_ ho (hrecv c')
      rw [hscan, update_of_ne hc]

lemma Inv.scan_found (hs : s.scan c = .found i p) : (s.scanStep c idx).Inv := by
  obtain ⟨hr, hi⟩ : s.recv c i = some p ∧ i < rbufCount := by simpa [CpuOk, hs] using h.cpus c
  have hway : s.OnWay p c i := h.onWay hr (by simp [hs, IpeScan.care])
  have hx : About i (s.scan c) := hs ▸ about_found
  have hold : (s.scan c).care i p ≠ .leaving := by simp [hs, IpeScan.care]
  have hstage := hway.stage
  unfold Stage at hstage
  simp only [scanStep, hs]
  split
  · -- the packet has come back
    rename_i ho
    rw [if_pos ho.symm] at hstage
    refine h.scanned hx about_clear hr (fun q hq => ?_) rfl rfl (fun _ _ _ => rfl) ?_ ?_ (.inl ⟨?_, .inr ⟨c, ?_⟩, ?_⟩)
    · exact Same.note hq
    · simp [CpuOk, setScan, note, hr, hi]
    · simp only [setScan, note, update_self]
      exact ⟨ho.symm, hstage, h.orderly p⟩
    · intro c' j hl
      have := (live_leave hx c' j).mp hl
      exact this.2 ((hway.live c' j).mp this.1)
    · exact phase_note
    · simp [setScan, note, hway.sends]
  · rename_i ho
    rw [if_neg (Ne.symm ho)] at hstage
    simp only [hs, IpeScan.care] at hstage
    rw [if_neg (by simp [hstage.2])]
    have hnew : (IpeScan.handle i p).care i p = .handling := if_pos ⟨rfl, rfl⟩
    refine h.scanned hx about_handle hr (fun q hq => ?_) rfl rfl (fun _ _ _ => rfl) ?_ (h.orderly p)
      (.inr ⟨c, i, hi, fun c' j => ?_, hway.sends, ?_⟩)
    · exact Same.processed' hq
    · simp [CpuOk, setScan, hr, hi, Ne.symm ho]
    · exact (live_setScan hx about_handle hold (by simp [hnew]) c' j).trans (hway.live c' j)
    · simp only [Stage, setScan, update_self, hnew]
      rw [if_neg (Ne.symm ho)]
      exact hstage.1

lemma Inv.scan_handle (hs : s.scan c = .handle i p) : (s.scanStep c idx).Inv := by
  obtain ⟨hr, hi, ho⟩ : s.recv c i = some p ∧ i < rbufCount ∧ c ≠ s.origin p := by simpa [CpuOk, hs] using h.cpus c
  have hold : (s.scan c).care i p = .handling := by rw [hs]; exact if_pos ⟨rfl, rfl⟩
  have hway : s.OnWay p c i := h.onWay hr (by simp [hold])
  have hx : About i (s.scan c) := hs ▸ about_handle
  have hstage : s.phase p = some (.sent c) := by
    have := hway.stage
    rwa [Stage, if_neg ho, hold] at this
  have hnew : (IpeScan.ack i p).care i p = .answering := if_pos ⟨rfl, rfl⟩
  simp only [scanStep, hs]
  refine h.scanned hx about_ack hr (fun q hq => ?_) rfl rfl (fun _ _ _ => rfl) ?_ ?_
    (.inr ⟨c, i, hi, fun c' j => ?_, hway.sends, ?_⟩)
  · exact Same.note hq
  · simp [CpuOk, setScan, note, hr, hi, ho]
  · simp only [setScan, note, update_self]
    exact ⟨hstage, h.orderly p⟩
  · exact (live_setScan hx about_ack (by simp [hold]) (by simp [hnew]) c' j).trans (hway.live c' j)
  · exact stage_answering ho (by rw [setScan_scan, hnew]) phase_note

lemma Inv.scan_ack (hs : s.scan c = .ack i p) : (s.scanStep c idx).Inv := by
  obtain ⟨hr, hi, ho⟩ : s.recv c i = some p ∧ i < rbufCount ∧ c ≠ s.origin p := by simpa [CpuOk, hs] using h.cpus c
  have hold : (s.scan c).care i p = .answering := by rw [hs]; exact if_pos ⟨rfl, rfl⟩
  have hway : s.OnWay p c i := h.onWay hr (by simp [hold])
  have hx : About i (s.scan c) := hs ▸ about_ack
  have hstage : s.phase p = some (.handled c) := by
    have := hway.stage
    rwa [Stage, if_neg ho, hold] at this
  have hnew : (IpeScan.attempt i p 0).care i p = .answering := if_pos ⟨rfl, rfl⟩
  simp only [scanStep, hs]
  refine h.scanned hx about_attempt hr (fun q hq => ?_) rfl rfl (fun _ _ _ => rfl) ?_ (h.orderly p)
    (.inr ⟨c, i, hi, fun c' j => ?_, hway.sends, ?_⟩)
  · exact Same.processed' hq
  · simp [CpuOk, setScan, hr, hi, ho]
  · exact (live_setScan hx about_attempt (by simp [hold]) (by simp [hnew]) c' j).trans (hway.live c' j)
  · exact stage_answering ho (by rw [setScan_scan, hnew]) hstage

lemma Inv.scan_attempt (hs : s.scan c = .attempt i p k) (hidx : idx < rbufCount)
    (hok : k + 1 = ipeRetry → s.recv (s.origin p) idx = none) : (s.scanStep c idx).Inv := by
  obtain ⟨hr, hi, ho⟩ : s.recv c i = some p ∧ i < rbufCount ∧ c ≠ s.origin p := by simpa [CpuOk, hs] using h.cpus c
  have hold : (s.scan c).care i p = .answering := by rw [hs]; exact if_pos ⟨rfl, rfl⟩
  have hway : s.OnWay p c i := h.onWay hr (by simp [hold])
  have hx : About i (s.scan c) := hs ▸ about_attempt
  have hstage : s.phase p = some (.handled c) := by
    have := hway.stage
    rwa [Stage, if_neg ho, hold] at this
  simp only [scanStep, hs]
  split
  · -- the answer is in a slot at home
    rename_i hfree
    have hrecv : ∀ c' j, s.recv c' j ≠ none → (s.setRecv (s.origin p) idx (some p)).recv c' j = s.recv c' j := by
      intro c' j hne
      rw [recv_setRecv, if_neg]
      rintro ⟨rfl, rfl⟩
      exact hne hfree
    refine h.scanned hx about_clear hr (fun q hq => ?_) rfl rfl hrecv ?_ (h.orderly p)
      (.inr ⟨s.origin p, idx, hidx, fun c' j => ?_, hway.sends, ?_⟩)
    · exact Same.setRecv (s := s.setScan c (.clear i)) hfree hq
    · simp only [CpuOk, setScan, update_self]
      exact ⟨by rw [hrecv c i (by simp [hr]), hr]; simp, hi⟩
    · refine (live_leave (s := s.setRecv (s.origin p) idx (some p)) hx c' j).trans ?_
      grind [live_setRecv, h.cpus, hway.live]
    · simp only [Stage]
      rw [if_pos (by rfl)]
      exact ⟨c, hstage⟩
  · rename_i hfull
    rw [if_neg fun hk => hfull (hok hk)]
    have hnew : (IpeScan.attempt i p (k + 1)).care i p = .answering := if_pos ⟨rfl, rfl⟩
    refine h.scanned hx about_attempt hr (fun q hq => ?_) rfl rfl (fun _ _ _ => rfl) ?_ (h.orderly p)
      (.inr ⟨c, i, hi, fun c' j => ?_, hway.sends, ?_⟩)
    · exact ⟨rfl, rfl, rfl, rfl, fun _ _ => Iff.rfl, fun _ _ _ => rfl⟩
    · simp [CpuOk, setScan, hr, hi, ho]
    · exact (live_setScan hx about_attempt (by simp [hold]) (by simp [hnew]) c' j).trans (hway.live c' j)
    · exact stage_answering ho (by rw [setScan_scan, hnew]) hstage

lemma Inv.scan_clear (hs : s.scan c = .clear i) : (s.scanStep c idx).Inv := by
  obtain ⟨hne, hi⟩ : s.recv c i ≠ none ∧ i < rbufCount := by simpa [CpuOk, hs] using h.cpus c
  simp only [scanStep, hs]
  refine ⟨h.orderly, fun p => Same.packet ?_ (h.packets p), fun c' => ?_⟩
  · -- the slot did not count before and is empty now
    have hlive : ∀ c' j, ((s.setRecv c i none).setScan c (.look (i + 1))).Live c' j p ↔ s.Live c' j p := by
      intro c' j
      simp only [Live, setScan, recv_setRecv]
      by_cases hc : c' = c ∧ j = i
      · obtain ⟨rfl, rfl⟩ := hc
        simp [hs, IpeScan.care]
      simp only [hc, if_false]
      refine and_congr_right fun _ => ?_
      by_cases hc' : c' = c
      · grind [IpeScan.care]
      · rw [update_of_ne hc']
        exact Iff.rfl
    refine ⟨rfl, rfl, rfl, rfl, hlive, fun c' j hl => ?_⟩
    by_cases hc' : c' = c
    · subst hc'
      have hj : j ≠ i := by
        rintro rfl
        exact hl.2 (by simp [hs, IpeScan.care])
      rw [setScan_scan, hs, about_clear j p hj]
      rfl
    · simp only [setScan, setRecv, update_of_ne hc']
  · by_cases hc' : c' = c
    · subst hc'
      simp only [CpuOk, setScan_scan]
      omega
    · refine (h.cpus c').frame (update_of_ne hc' ..) rfl fun j _ => ?_
      simp only [setScan, recv_setRecv]
      rw [if_neg fun hc => hc' hc.1]

lemma Inv.passed (hx : ∀ i, About i (s.scan c)) (hy : ∀ i, About i y)
    (hcpu : (s.setScan c y).CpuOk c) : (s.setScan c y).Inv := by
  refine ⟨h.orderly, fun p => Same.packet (s := s) ⟨rfl, rfl, rfl, rfl, ?_, ?_⟩ (h.packets p), fun c' => ?_⟩
  · refine live_iff (fun _ _ => Iff.rfl) fun c' j _ => ?_
    by_cases hc : c' = c
    · subst hc
      rw [setScan_scan, hy (j + 1) j p (by omega), hx (j + 1) j p (by omega)]
    · simp only [setScan, update_of_ne hc]
  · intro c' j _
    by_cases hc : c' = c
    · subst hc
      rw [setScan_scan, hy (j + 1) j p (by omega), hx (j + 1) j p (by omega)]
    · simp only [setScan, update_of_ne hc]
  · by_cases hc : c' = c
    · exact hc ▸ hcpu
    · exact (h.cpus c').frame (update_of_ne hc ..) rfl fun _ _ => rfl

lemma Inv.scan_look (hs : s.scan c = .look i) : (s.scanStep c idx).Inv := by
  have hi : i ≤ rbufCount := by simpa [CpuOk, hs] using h.cpus c
  have hx : ∀ j, About j (s.scan c) := fun _ => hs ▸ about_look
  simp only [scanStep, hs]
  split
  · exact h.passed hx (fun _ => about_idle) (by simp [CpuOk, setScan_scan])
  rename_i hne
  split
  · exact h.passed hx (fun _ => about_look) (by simp only [CpuOk, setScan_scan]; omega)
  rename_i p hr
  refine h.passed hx (fun _ _ _ _ => rfl) ?_
  simp only [CpuOk, setScan_scan]
  exact ⟨hr, by omega⟩

lemma Inv.scanStep (hidx : idx < rbufCount) (hack : s.Acked (.scan c idx)) : (s.scanStep c idx).Inv := by
  cases hs : s.scan c with
  | idle =>
    rw [Ipe.scanStep, hs]
    exact h
  | look i => exact h.scan_look hs
  | found i p => exact h.scan_found hs
  | handle i p => exact h.scan_handle hs
  | ack i p => exact h.scan_ack hs
  | attempt i p k =>
    rw [Acked, hs] at hack
    exact h.scan_attempt hs hidx hack
  | clear i => exact h.scan_clear hs

lemma Inv.atRest (hr : s.Returned p) : s.AtRest p := by
  rcases h.packets p with hp | ⟨c, i, hp⟩
  · exact hp
  · exact absurd hr hp.stage.not_returned

lemma Inv.send (ha : s.Allowed (.send p c)) :
    Inv { s with processed := update s.processed p false, sends := update s.sends p (some (c, 0)) } := by
  obtain ⟨-, hc, hret⟩ := ha
  refine ⟨h.orderly, fun q => ?_, fun c' => (h.cpus c').frame rfl rfl fun _ _ => rfl⟩
  by_cases hq : q = p
  · subst hq
    refine .inl ⟨(h.atRest hret).live, (h.atRest hret).phase, fun c' k hs => ?_⟩
    grind
  · exact Same.packet (Same.trans (Same.processed' hq) (Same.sends' hq)) (h.packets q)

lemma Inv.attempt (hidx : idx < rbufCount) : (s.attempt p idx).Inv := by
  unfold Ipe.attempt
  split
  · exact h
  rename_i c k hs
  have hrest : s.AtRest p := by
    rcases h.packets p with hp | ⟨c', i', hp⟩
    · exact hp
    · have := hp.sends
      simp [hs] at this
  obtain ⟨hc, hproc⟩ := hrest.sends c k hs
  split
  · -- the packet is on its way
    rename_i hfree
    have hlive := live_setRecv (p := p) hfree (h.cpus c)
    refine ⟨fun q => ?_, fun q => ?_, fun c' => (h.cpus c').frame rfl rfl fun j hj => ?_⟩
    · by_cases hq : q = p
      · subst hq
        simp only [note, update_self]
        refine ⟨hc, ?_, h.orderly q⟩
        rcases hrest.phase with hn | hb
        · exact .inl (List.head?_eq_none_iff.mp hn)
        · exact .inr hb
      · simp only [note, setRecv, update_of_ne hq]
        exact h.orderly q
    · by_cases hq : q = p
      · subst hq
        refine .inr ⟨c, idx, hidx, fun c' j => (hlive c' j).trans ?_, update_self .., ?_⟩
        · exact ⟨fun hl => hl.resolve_left (hrest.live c' j), .inr⟩
        · have hcare : (s.scan c).care idx q = .none := (h.cpus c).care_free hfree
          exact stage_fresh hc hcare phase_note hproc
      · exact Same.packet (Same.trans (Same.setRecv hfree hq) (Same.trans (Same.sends' hq) (Same.note hq))) (h.packets q)
    · simp only [note, recv_setRecv]
      grind
  · refine ⟨h.orderly, fun q => ?_, fun c' => (h.cpus c').frame rfl rfl fun _ _ => rfl⟩
    by_cases hq : q = p
    · subst hq
      refine .inl ⟨hrest.live, hrest.phase, fun c' k' hs' => ?_⟩
      grind
    · exact Same.packet (Same.sends' hq) (h.packets q)

lemma Inv.step (ha : s.Allowed e) (hack : s.Acked e) (hs : s.step e = .ok s') : s'.Inv := by
  cases e with
  | send p c => exact Except.ok.inj hs ▸ h.send ha
  | attempt p idx => exact Except.ok.inj hs ▸ h.attempt ha.2
  | begin c =>
    have hidle : s.scan c = .idle := ha
    refine Except.ok.inj hs ▸ h.passed (fun _ => hidle ▸ about_idle) (fun _ => about_look) ?_
    simp [CpuOk, setScan_scan]
  | scan c idx => exact Except.ok.inj hs ▸ h.scanStep ha hack

end

-- Runs

/-- Each packet is handled once and comes back once for each time it is sent,
and it lies in a receive buffer meanwhile, in every run in which no
acknowledgement fails. -/
theorem packets_once (hr : Reachable step (fun s e => s.Allowed e ∧ s.Acked e) (fun s => ∃ f, s = init f) s) (p : Nat) :
    Orderly (s.origin p) (s.notes p) ∧ (¬ s.Returned p → ∃ c i, i < rbufCount ∧ s.recv c i = some p) := by
  have h : s.Inv := by
    refine hr.invariant (P := Inv) ?_ fun _ _ _ h hg hs => h.step hg.1 hg.2 hs
    rintro s ⟨f, rfl⟩
    exact .init
  refine ⟨h.orderly p, fun hn => ?_⟩
  rcases h.packets p with hp | ⟨c, i, hp⟩
  · grind [Returned, hp.phase]
  · exact ⟨c, i, hp.bound, ((hp.live c i).mpr ⟨rfl, rfl⟩).1⟩

theorem packets_once_back : ∃ s, Reachable step (fun s e => s.Allowed e ∧ s.Acked e) (fun s => ∃ f, s = init f) s ∧
    s.notes 0 = [.handled 1, .sent 1] ∧ Orderly (s.origin 0) (s.notes 0) ∧
    (¬ s.Returned 0 → ∃ c i, i < rbufCount ∧ s.recv c i = some 0) := by
  obtain ⟨s, hr, hs⟩ : ∃ s, Reachable step (fun s e => s.Allowed e ∧ s.Acked e) (fun s => ∃ f, s = init f) s ∧
      s.notes 0 = [.handled 1, .sent 1] :=
    Reachable.exists_of_run [.send 0 1, .attempt 0 0, .begin 1, .scan 1 0, .scan 1 0, .scan 1 0, .scan 1 0, .scan 1 5]
      ⟨fun _ => 0, rfl⟩ (by decide +kernel)
  exact ⟨s, hr, hs, packets_once hr 0⟩

lemma Reached.look (hr : Reachable step Allowed (fun s => ∃ f, s = init f) s) (hs : s.scan c = .look i)
    (hfree : ∀ j, i ≤ j → j < i + n → s.recv c j = none) (hn : i + n ≤ rbufCount) :
    Reachable step Allowed (fun s => ∃ f, s = init f) (s.setScan c (.look (i + n))) := by
  induction n with
  | zero => rwa [setScan, Nat.add_zero, ← hs, Function.update_eq_self]
  | succ n ih =>
    have hprev := ih (fun j hj hlt => hfree j hj (by omega)) (by omega)
    have hallowed : Allowed (s.setScan c (.look (i + n))) (.scan c 0) := show 0 < rbufCount by decide
    refine hprev.step hallowed ?_
    have hne : i + n ≠ rbufCount := by omega
    have hslot : (s.setScan c (.look (i + n))).recv c (i + n) = none := hfree (i + n) (by omega) (by omega)
    simp only [step, scanStep, setScan_scan, hne, if_false, hslot]
    simp [setScan, Nat.add_assoc]

/-- A slot of CPU 0 is in use by a packet from CPU 1, and the answer of CPU 1 to
a packet of CPU 0 tries this slot ten times. -/
lemma answer_fails : ∃ s, Reachable step Allowed (fun s => ∃ f, s = init f) s ∧ s.scan 1 = .look 1 ∧
    s.recv 1 = update (fun _ => none) 0 (some 0) ∧ s.origin 0 = 0 ∧ s.processed 0 = false ∧
    s.notes 0 = [.handled 1, .sent 1] :=
  ⟨_, (Reachable.init ⟨fun p => p, rfl⟩).of_trace
    (show trace step Allowed (init fun p => p) ([.send 1 0, .attempt 1 0, .send 0 1, .attempt 0 0, .begin 1] ++
      List.replicate 14 (.scan 1 0)) = some _ from rfl), rfl, rfl, rfl, rfl, rfl⟩

lemma Reached.scan (hr : Reachable step Allowed (fun s => ∃ f, s = init f) s) (hs : s.scanStep c 0 = s') :
    Reachable step Allowed (fun s => ∃ f, s = init f) s' := by
  have hallowed : Allowed s (.scan c 0) := show 0 < rbufCount by decide
  exact hr.step hallowed (congrArg Except.ok hs)

lemma setScan_setScan : (s.setScan c x).setScan c y = s.setScan c y := by simp [setScan]

/-- After that the handler runs again. -/
theorem handled_twice : ∃ s, Reachable step Allowed (fun s => ∃ f, s = init f) s ∧ s.origin 0 = 0 ∧
    s.notes 0 = [.handled 1, .handled 1, .sent 1] := by
  obtain ⟨s, hr, hs, hrecv, ho, hp, hn⟩ := answer_fails
  have hfree : ∀ j, 1 ≤ j → j < 1 + 8191 → s.recv 1 j = none := by
    intro j hj _
    rw [hrecv, update_of_ne (by omega)]
  have hend := Reached.look hr hs hfree (by decide)
  -- the next scan finds the packet with `processed` reset
  have hidle : Reachable step Allowed (fun s => ∃ f, s = init f) (s.setScan 1 .idle) :=
    Reached.scan (c := 1) hend (by simp [scanStep, setScan_scan, rbufCount, setScan_setScan])
  have hallowed : Allowed (s.setScan 1 .idle) (.begin 1) := setScan_scan ..
  have hlook : Reachable step Allowed (fun s => ∃ f, s = init f) (s.setScan 1 (.look 0)) :=
    hidle.step hallowed (congrArg Except.ok setScan_setScan)
  have hfound : Reachable step Allowed (fun s => ∃ f, s = init f) (s.setScan 1 (.found 0 0)) := by
    have hslot : (s.setScan 1 (.look 0)).recv 1 0 = some 0 := by
      rw [show (s.setScan 1 (.look 0)).recv = s.recv from rfl, hrecv, update_self]
    exact Reached.scan (c := 1) hlook (by simp [scanStep, setScan_scan, rbufCount, hslot, setScan_setScan])
  have hhandle := Reached.scan hfound (c := 1) rfl
  have hagain := Reached.scan hhandle (c := 1) rfl
  refine ⟨_, hagain, ?_, ?_⟩ <;>
    simp [scanStep, setScan, note, ho, hp, hn]

end Ipe

end Ucore.River
