import Mathlib.Data.List.Count
import Ucore.Sync.Mbox

/-!
# Who sleeps at a mailbox

The invariant of a mailbox between two steps, and what each part of a call does to it.
-/

namespace Ucore.Sync.Mbox

open Function Ucore.Lib

variable {s s' : Mbox} {p q maxBytes : Nat} {msg : Msg} {late timed success append : Bool}

structure Base (s : Mbox) : Prop where
  nodup : s.inside.Nodup
  inuse : s.inuse = s.inside.length
  senders : Sleepers.Queued .mboxSend s.procs s.senders
  receivers : Sleepers.Queued .mboxRecv s.procs s.receivers
  sender_call : ∀ p ∈ s.senders, p ∈ s.inside ∧ (s.call p).isRecv = false
  receiver_call : ∀ p ∈ s.receivers, p ∈ s.inside ∧ (s.call p).isRecv = true
  runs : ∀ p, p ∉ s.senders → p ∉ s.receivers → s.procs.waitState p = .none
  origin : ∀ p ∈ s.inside, ∀ msg, s.call p = .send msg → msg.origin = s.opened
  slots : s.state = .opened → s.slots = s.msgs.length
  quiet : s.state ≠ .opened → s.msgs = [] ∧ s.senders = [] ∧ s.receivers = []

structure Ok (s : Mbox) : Prop where
  base : s.Base
  closing : s.state = .closing → s.inside ≠ []
  closed : s.state = .closed → s.inside = [] ∧ s.slots = 0
  wakeups : s.receivers ≠ [] → s.slots ≤ s.woken

structure Active (p : Nat) (s : Mbox) : Prop where
  inside : p ∈ s.inside
  notSender : p ∉ s.senders
  notReceiver : p ∉ s.receivers

def counts (s : Mbox) (p : Nat) : Bool := (s.call p).isRecv && decide (s.procs.wakeupFlags p = .mboxRecv)

lemma woken_eq : s.woken = s.inside.countP s.counts := rfl

lemma sleep_safe {w : WaitState} :
    Safe (· = .addTimer) (s.sleep p w late) fun s' =>
    s' = { s with procs := s.procs.waitCurrentSet p w, timer := s'.timer } := by
  unfold sleep
  split
  · rfl
  · rfl

lemma Active.mono (hp : Active p s) (hin : s'.inside = s.inside) (hs : s'.senders ⊆ s.senders)
    (hr : s'.receivers ⊆ s.receivers) :
    Active p s' :=
  ⟨hin ▸ hp.inside, fun hmem => hp.notSender (hs hmem), fun hmem => hp.notReceiver (hr hmem)⟩

section

variable (h : s.Base)
include h

lemma Base.apart (hs : q ∈ s.senders) : q ∉ s.receivers := by
  intro hr
  have hrecv := (h.receiver_call q hr).2
  rw [(h.sender_call q hs).2] at hrecv
  cases hrecv

lemma Base.wakeReceiver : s.wakeReceiver.Base := by
  unfold Mbox.wakeReceiver
  cases hq : s.receivers with
  | nil =>
    have heq : ({ s with receivers := [], procs := s.procs } : Mbox) = s := by rw [← hq]
    exact heq.symm ▸ h
  | cons q rest =>
    have hqueued : Sleepers.Queued .mboxRecv s.procs (q :: rest) := hq ▸ h.receivers
    have hcall : ∀ r ∈ q :: rest, r ∈ s.inside ∧ (s.call r).isRecv = true := hq ▸ h.receiver_call
    have hsenders : q ∉ s.senders := fun hmem => h.apart hmem (hq ▸ List.mem_cons_self)
    refine ⟨h.nodup, h.inuse, h.senders.wakeupWait hsenders, hqueued.pop, h.sender_call,
      fun r hr => hcall r (.tail q hr), fun r hs hr => ?_, h.origin, h.slots, fun hstate => ?_⟩
    · change (s.procs.wakeupWait .mboxRecv q).waitState r = .none
      by_cases hrq : r = q
      · simp [hrq]
      · have hr' : r ∉ s.receivers := hq ▸ fun hmem => (List.mem_cons.mp hmem).elim hrq hr
        simpa [hrq] using h.runs r hs hr'
    · grind [h.quiet]

lemma Base.woken_wakeReceiver : s.receivers ≠ [] → s.wakeReceiver.woken = s.woken + 1 := by
  intro hne
  obtain ⟨q, rest, hq⟩ := List.exists_cons_of_ne_nil hne
  obtain ⟨hin, hrecv⟩ := h.receiver_call q (hq ▸ List.mem_cons_self)
  have hflag := h.receivers.flags q (hq ▸ List.mem_cons_self)
  have hprocs : s.wakeReceiver = { s with receivers := rest, procs := s.procs.wakeupWait .mboxRecv q } := by
    unfold Mbox.wakeReceiver
    rw [hq]
    rfl
  have hnew : s.wakeReceiver.counts q = true := by
    rw [hprocs]
    simp [counts, hrecv]
  have hold : ¬ s.counts q = true := by simp [counts, hflag]
  have hperm := List.perm_cons_erase hin
  have hcongr : (s.inside.erase q).countP s.wakeReceiver.counts = (s.inside.erase q).countP s.counts := by
    refine List.countP_congr fun r hr => ?_
    have hrq : r ≠ q := fun heq => h.nodup.not_mem_erase (heq ▸ hr)
    rw [hprocs]
    simp [counts, hrq]
  have hinside : s.wakeReceiver.inside = s.inside := by rw [hprocs]
  rw [woken_eq, woken_eq, hinside, hperm.countP_eq, hperm.countP_eq, List.countP_cons_of_pos hnew,
    List.countP_cons_of_neg hold, hcongr]

lemma Base.wakeSender : s.wakeSender.Base := by
  unfold Mbox.wakeSender
  cases hq : s.senders with
  | nil =>
    have heq : ({ s with senders := [], procs := s.procs } : Mbox) = s := by rw [← hq]
    exact heq.symm ▸ h
  | cons q rest =>
    have hqueued : Sleepers.Queued .mboxSend s.procs (q :: rest) := hq ▸ h.senders
    have hcall : ∀ r ∈ q :: rest, r ∈ s.inside ∧ (s.call r).isRecv = false := hq ▸ h.sender_call
    have hreceivers : q ∉ s.receivers := h.apart (hq ▸ List.mem_cons_self)
    refine ⟨h.nodup, h.inuse, hqueued.pop, h.receivers.wakeupWait hreceivers, fun r hr => hcall r (.tail q hr),
      h.receiver_call, fun r hs hr => ?_, h.origin, h.slots, fun hstate => ?_⟩
    · change (s.procs.wakeupWait .mboxSend q).waitState r = .none
      by_cases hrq : r = q
      · simp [hrq]
      · have hs' : r ∉ s.senders := hq ▸ fun hmem => (List.mem_cons.mp hmem).elim hrq hs
        simpa [hrq] using h.runs r hs' hr
    · grind [h.quiet]

lemma Base.woken_wakeSender : s.wakeSender.woken = s.woken := by
  unfold Mbox.wakeSender
  cases hq : s.senders with
  | nil => rfl
  | cons q rest =>
    have hsend := (h.sender_call q (hq ▸ List.mem_cons_self)).2
    refine List.countP_congr fun r _ => ?_
    change ((s.call r).isRecv && decide
      ((s.procs.wakeupWait .mboxSend q).wakeupFlags r = .mboxRecv)) = true ↔ s.counts r = true
    by_cases hrq : r = q
    · simp [hrq, counts, hsend]
    · simp [hrq, counts]

omit h in
lemma wakeReceiver_subset : s.wakeReceiver.receivers ⊆ s.receivers := Sleepers.wakeupFirst_subset

omit h in
lemma wakeSender_subset : s.wakeSender.senders ⊆ s.senders := Sleepers.wakeupFirst_subset

lemma Base.sleepSend (hp : Active p s) (hcall : (s.call p).isRecv = false)
    (hopen : s.state = .opened) (t : Nat → TimerState) :
    ({ s with senders := s.senders ++ [p], procs := s.procs.waitCurrentSet p .mboxSend, timer := t } : Mbox).Base := by
  refine ⟨h.nodup, h.inuse, h.senders.push hp.notSender, h.receivers.waitCurrentSet hp.notReceiver,
    fun q hq => ?_, h.receiver_call,
    fun q hs hr => ?_, h.origin, h.slots, absurd hopen⟩
  · grind [h.sender_call, hp.inside]
  have hqp : q ≠ p := by
    rintro rfl
    exact hs (List.mem_append_right _ (.head _))
  have hold := h.runs q (fun hmem => hs (List.mem_append_left _ hmem)) hr
  simpa [hqp] using hold

lemma Base.sleepRecv (hp : Active p s) (hcall : (s.call p).isRecv = true)
    (hopen : s.state = .opened) (t : Nat → TimerState) :
    ({ s with receivers := s.receivers ++ [p], procs := s.procs.waitCurrentSet p .mboxRecv, timer := t } : Mbox).Base := by
  refine ⟨h.nodup, h.inuse, h.senders.waitCurrentSet hp.notSender, h.receivers.push hp.notReceiver,
    h.sender_call, fun q hq => ?_,
    fun q hs hr => ?_, h.origin, h.slots, absurd hopen⟩
  · grind [h.receiver_call, hp.inside]
  have hqp : q ≠ p := by
    rintro rfl
    exact hr (List.mem_append_right _ (.head _))
  have hold := h.runs q hs fun hmem => hr (List.mem_append_left _ hmem)
  simpa [hqp] using hold

structure Data where
  state : MboxState
  maxSlots : Nat
  slots : Nat
  msgs : List Msg
  holding : Nat → Option Held
  opened : Nat
  sent : List Msg
  received : List Msg

def data (s : Mbox) : Data := ⟨s.state, s.maxSlots, s.slots, s.msgs, s.holding, s.opened, s.sent, s.received⟩

omit h in
@[simp] lemma data_wakeReceiver : s.wakeReceiver.data = s.data := rfl
omit h in
@[simp] lemma data_wakeSender : s.wakeSender.data = s.data := rfl

lemma Base.enter (call : MboxCall) (timed : Bool) (hidle : p ∉ s.inside)
    (horigin : ∀ msg, call = .send msg → msg.origin = s.opened) :
    (s.enter p call timed).Base ∧ Active p (s.enter p call timed) := by
  have hsend : p ∉ s.senders := fun hmem => hidle (h.sender_call p hmem).1
  have hrecv : p ∉ s.receivers := fun hmem => hidle (h.receiver_call p hmem).1
  have hcall : ∀ q ∈ s.inside, (s.enter p call timed).call q = s.call q := by
    intro q hq
    have hqp : q ≠ p := fun heq => hidle (heq ▸ hq)
    exact update_of_ne hqp ..
  refine ⟨⟨List.nodup_cons.mpr ⟨hidle, h.nodup⟩, congrArg (· + 1) h.inuse, h.senders, h.receivers,
    fun q hq => ?_, fun q hq => ?_, h.runs,
    fun q hq msg hmsg => ?_, h.slots, h.quiet⟩, .head _, hsend, hrecv⟩
  · obtain ⟨hin, hkind⟩ := h.sender_call q hq
    exact ⟨.tail p hin, by rw [hcall q hin, hkind]⟩
  · obtain ⟨hin, hkind⟩ := h.receiver_call q hq
    exact ⟨.tail p hin, by rw [hcall q hin, hkind]⟩
  · rcases List.mem_cons.mp hq with rfl | hin
    · have hself : (s.enter q call timed).call q = call := Function.update_self ..
      exact horigin msg (hself ▸ hmsg)
    · exact h.origin q hin msg (hcall q hin ▸ hmsg)

omit h in
lemma woken_enter {call : MboxCall} (hidle : p ∉ s.inside) : s.woken ≤ (s.enter p call timed).woken := by
  have hcongr : s.inside.countP s.counts = s.inside.countP (s.enter p call timed).counts := by
    refine List.countP_congr fun q hq => ?_
    have hqp : q ≠ p := fun heq => hidle (heq ▸ hq)
    have hsame : (s.enter p call timed).counts q = s.counts q := by
      change ((update s.call p call q).isRecv && _) = _
      rw [update_of_ne hqp]
      rfl
    rw [hsame]
  rw [woken_eq, woken_eq, hcongr]
  exact (List.sublist_cons_self p s.inside).countP_le

lemma Base.dequeue (hin : p ∈ s.inside) (hrun : s.procs.waitState p = .none) :
    ({ s with senders := s.senders.erase p, receivers := s.receivers.erase p } : Mbox).Base ∧
      Active p { s with senders := s.senders.erase p, receivers := s.receivers.erase p } := by
  refine ⟨⟨h.nodup, h.inuse, h.senders.sublist List.erase_sublist, h.receivers.sublist List.erase_sublist,
    fun q hq => h.sender_call q (List.mem_of_mem_erase hq),
      fun q hq => h.receiver_call q (List.mem_of_mem_erase hq), fun q hs hr => ?_,
    h.origin, h.slots, fun hstate => ?_⟩, hin, h.senders.nodup.not_mem_erase, h.receivers.nodup.not_mem_erase⟩
  · grind [h.runs]
  · grind [h.quiet]

def left (p : Nat) (s : Mbox) : Mbox := { s with inuse := s.inuse - 1, inside := s.inside.erase p }

lemma Base.left (hp : Active p s) : (s.left p).Base := by
  have hne : ∀ q, q ≠ p → q ∈ s.inside → q ∈ s.inside.erase p := fun q hqp hq => (List.mem_erase_of_ne hqp).mpr hq
  refine ⟨h.nodup.erase p, ?_, h.senders, h.receivers, fun q hq => ?_, fun q hq => ?_, h.runs,
    fun q hq msg hmsg => h.origin q (List.mem_of_mem_erase hq) msg hmsg, h.slots, h.quiet⟩
  · change s.inuse - 1 = (s.inside.erase p).length
    rw [h.inuse, List.length_erase_of_mem hp.inside]
  · obtain ⟨hin, hkind⟩ := h.sender_call q hq
    exact ⟨hne q (fun heq => hp.notSender (heq ▸ hq)) hin, hkind⟩
  · obtain ⟨hin, hkind⟩ := h.receiver_call q hq
    exact ⟨hne q (fun heq => hp.notReceiver (heq ▸ hq)) hin, hkind⟩

omit h in
lemma woken_left (hin : p ∈ s.inside) : s.woken = (s.left p).woken + if s.counts p = true then 1 else 0 := by
  rw [woken_eq, woken_eq, (List.perm_cons_erase hin).countP_eq, List.countP_cons]
  rfl

omit h in
lemma out_ok (success : Bool) (h : s.Base) (hp : Active p s) (hstate : s.state ≠ .closed)
    (hs : success = true → s.state = .opened)
    (hwake : s.receivers ≠ [] → s.slots + (if s.counts p = true then 1 else 0) ≤ s.woken) :
    ∃ s', s.out p success = .ok s' ∧ s'.Ok ∧
    (s'.data = s.data ∨ s.state = .closing ∧ s'.data = { s.data with state := .closed, maxSlots := 0, slots := 0 }) := by
  have hbase := h.left hp
  have hwoken := woken_left hp.inside
  have hwakeups : (s.left p).receivers ≠ [] → (s.left p).slots ≤ (s.left p).woken := by
    intro hne
    have hle := hwake hne
    rw [hwoken] at hle
    exact Nat.le_of_add_le_add_right hle
  have hout : s.out p success = if s.state = .opened then .ok (s.left p)
      else if success = true ∨ s.state ≠ .closing then .error .assertion
      else if (s.left p).inuse = 0 then (s.left p).mboxFree else .ok (s.left p) := rfl
  rw [hout]
  by_cases hopen : s.state = .opened
  · rw [if_pos hopen]
    refine ⟨_, rfl, ⟨hbase, fun hc => ?_, fun hc => ?_, hwakeups⟩, .inl rfl⟩
    all_goals
      rw [show (s.left p).state = s.state from rfl, hopen] at hc
      cases hc
  have hclosing : s.state = .closing := by
    cases hc : s.state with
    | opened => exact absurd hc hopen
    | closed => exact absurd hc hstate
    | closing => rfl
  have hassert : ¬ (success = true ∨ s.state ≠ .closing) := by
    rintro (hsucc | hne)
    · exact hopen (hs hsucc)
    · exact hne hclosing
  rw [if_neg hopen, if_neg hassert]
  obtain ⟨hmsgs, hsend, hrecv⟩ := hbase.quiet hopen
  by_cases hlast : (s.left p).inuse = 0
  · have hnil : (s.left p).inside = [] := List.length_eq_zero_iff.mp (hbase.inuse.symm.trans hlast)
    rw [if_pos hlast, mboxFree, if_pos ⟨hclosing, hlast, hmsgs, hsend, hrecv⟩]
    refine ⟨_, rfl, ⟨?_, (fun hc => by cases hc), fun _ => ⟨hnil, rfl⟩, absurd hrecv⟩, .inr ⟨hclosing, rfl⟩⟩
    exact ⟨hbase.nodup, hbase.inuse, hbase.senders, hbase.receivers, hbase.sender_call,
      hbase.receiver_call, hbase.runs, hbase.origin,
      (fun hc => by cases hc), fun _ => ⟨hmsgs, hsend, hrecv⟩⟩
  rw [if_neg hlast]
  refine ⟨_, rfl, ⟨hbase, fun _ hnil => hlast ?_, fun hc => ?_, hwakeups⟩, .inl rfl⟩
  · rw [hbase.inuse, hnil]
    rfl
  · rw [show (s.left p).state = s.state from rfl, hclosing] at hc
    cases hc

lemma Base.addMsg (msg : Msg) (append : Bool) (hopen : s.state = .opened)
    (hwake : s.receivers ≠ [] → s.slots ≤ s.woken) :
    ∃ s', s.addMsg msg append = .ok s' ∧ s'.Base ∧ (s'.receivers ≠ [] → s'.slots ≤ s'.woken) ∧
      s'.data = { s.data with slots := s.slots + 1, msgs := if append then s.msgs ++ [msg] else msg :: s.msgs } ∧
      s'.inside = s.inside ∧ s'.call = s.call ∧ s'.senders = s.senders ∧ s'.receivers ⊆ s.receivers := by
  set t : Mbox := { s with slots := s.slots + 1, msgs := if append then s.msgs ++ [msg] else msg :: s.msgs } with ht
  have hbase : t.Base := by
    refine ⟨h.nodup, h.inuse, h.senders, h.receivers, h.sender_call, h.receiver_call, h.runs, h.origin, fun _ => ?_,
      (absurd hopen)⟩
    rw [ht]
    dsimp only
    rw [h.slots hopen]
    cases append with
    | true => simp
    | false => simp
  have hsub : t.wakeReceiver.receivers ⊆ s.receivers := wakeReceiver_subset (s := t)
  refine ⟨t.wakeReceiver, if_pos hopen, hbase.wakeReceiver, fun hne => ?_, rfl, rfl, rfl, rfl, hsub⟩
  have hne' : s.receivers ≠ [] := fun hnil => hne (List.eq_nil_of_subset_nil (hnil ▸ hsub))
  rw [hbase.woken_wakeReceiver hne']
  exact Nat.succ_le_succ (hwake hne')

def Sends (msg : Msg) (d d' : Data) : Prop :=
  d' = d ∨ d.slots < d.maxSlots ∧ d' = { d with slots := d.slots + 1, msgs := d.msgs ++ [msg], sent := d.sent ++ [msg] }

lemma sendLoop_ok (hp : Active p s) (hcall : s.call p = .send msg) (hopen : s.state = .opened)
    (hwake : s.receivers ≠ [] → s.slots ≤ s.woken) :
    Safe (· = .addTimer) (s.sendLoop p msg late) fun s' => s'.Ok ∧ Sends msg s.data s'.data := by
  have hsend : (s.call p).isRecv = false := by rw [hcall]; rfl
  unfold sendLoop
  by_cases hfull : s.maxSlots ≤ s.slots
  · rw [if_pos hfull, if_pos hopen]
    refine sleep_safe.mono fun s' hs' => ?_
    rw [hs']
    refine ⟨⟨h.sleepSend hp hsend hopen _, fun hc => ?_, fun hc => ?_, fun hne => ?_⟩, .inl rfl⟩
    · rw [show s.state = .closing from hc] at hopen
      cases hopen
    · rw [show s.state = .closed from hc] at hopen
      cases hopen
    · refine Nat.le_trans (hwake hne) (Nat.le_of_eq (List.countP_congr fun q _ => ?_))
      change s.counts q = true ↔
        ((s.call q).isRecv && decide ((s.procs.waitCurrentSet p .mboxSend).wakeupFlags q = .mboxRecv)) = true
      by_cases hqp : q = p
      · simp [hqp, counts, hsend]
      · simp [hqp, counts]
  · rw [if_neg hfull, if_pos hopen]
    obtain ⟨t, ht, hbase, hwake', hdata, hin, htcall, hsenders, hreceivers⟩ := h.addMsg msg true hopen hwake
    have hact : Active p t := hp.mono hin (hsenders ▸ List.Subset.refl _) hreceivers
    have hstate : t.state = .opened := (congrArg Data.state hdata).trans hopen
    set u : Mbox := { t with sent := t.sent ++ [msg] }
    have hubase : u.Base :=
      ⟨hbase.nodup, hbase.inuse, hbase.senders, hbase.receivers, hbase.sender_call, hbase.receiver_call, hbase.runs,
      hbase.origin, hbase.slots, hbase.quiet⟩
    have huwake : u.receivers ≠ [] → u.slots + (if u.counts p = true then 1 else 0) ≤ u.woken := by
      intro hne
      have hcounts : ¬ u.counts p = true := by
        change ¬ ((t.call p).isRecv && _) = true
        rw [htcall, hsend]
        exact Bool.false_ne_true
      rw [if_neg hcounts]
      exact hwake' hne
    obtain ⟨s', hs', hok, hmoves⟩ := out_ok true hubase ⟨hact.inside, hact.notSender, hact.notReceiver⟩
      (by rw [show u.state = t.state from rfl, hstate]; decide) (fun _ => hstate) huwake
    refine Safe.of_exists ⟨s', ?_, hok, ?_⟩
    · rw [ht]
      exact hs'
    rcases hmoves with hsame | ⟨hclosing, -⟩
    · refine .inr ⟨Nat.lt_of_not_le hfull, ?_⟩
      have hudata : u.data = { t.data with sent := t.data.sent ++ [msg] } := rfl
      rw [hsame, hudata, hdata]
      rfl
    · rw [show u.state = t.state from rfl, hstate] at hclosing
      cases hclosing

def Receives (p : Nat) (d d' : Data) : Prop :=
  d' = d ∨ ∃ msg rest, d.msgs = msg :: rest ∧ 0 < d.slots ∧ d' = { d with
      slots := d.slots - 1, msgs := rest, received := d.received ++ [msg], holding :=
        update d.holding p (some ⟨msg, d.opened⟩) }

/-- A receiver that finds a message too big for it passes the wakeup on. -/
lemma tooBig_ok (hp : Active p s) (hopen : s.state = .opened) (hwake : s.receivers ≠ [] → s.slots ≤ s.woken) :
    ∃ s', s.wakeReceiver.out p false = .ok s' ∧ s'.Ok ∧ s'.data = s.data := by
  have hact : Active p s.wakeReceiver := hp.mono rfl (List.Subset.refl _) wakeReceiver_subset
  have hstate : s.wakeReceiver.state = .opened := hopen
  have hwake' : s.wakeReceiver.receivers ≠ [] →
      s.wakeReceiver.slots + (if s.wakeReceiver.counts p = true then 1 else 0) ≤ s.wakeReceiver.woken := by
    intro hne
    have hne' : s.receivers ≠ [] := fun hnil => hne (List.eq_nil_of_subset_nil (hnil ▸ wakeReceiver_subset))
    rw [h.woken_wakeReceiver hne']
    refine Nat.add_le_add (hwake hne') ?_
    split
    · exact Nat.le_refl 1
    · exact Nat.zero_le 1
  obtain ⟨s', hs', hok, hmoves⟩ := out_ok _ h.wakeReceiver hact (by rw [hstate]; decide) (fun _ => hstate) hwake'
  refine ⟨s', hs', hok, ?_⟩
  rcases hmoves with hsame | ⟨hclosing, -⟩
  · exact hsame
  · rw [hstate] at hclosing
    cases hclosing

lemma picked_ok {rest : List Msg} (hp : Active p s) (hopen : s.state = .opened) (hmsgs : s.msgs = msg :: rest)
    (hwake : s.receivers ≠ [] → s.slots ≤ s.woken) :
    ∃ s', ({ ({ s with slots := s.slots - 1, msgs := rest } : Mbox).wakeSender with
        holding := update s.holding p (some ⟨msg, s.opened⟩), received :=
          s.received ++ [msg] } : Mbox).out p true = .ok s' ∧ s'.Ok ∧
      s'.data = { s.data with
        slots := s.slots - 1, msgs := rest, received := s.received ++ [msg], holding :=
          update s.holding p (some ⟨msg, s.opened⟩) } := by
  have hslots : s.slots = rest.length + 1 := by rw [h.slots hopen, hmsgs]; rfl
  set t : Mbox := { s with slots := s.slots - 1, msgs := rest }
  have hbase : t.Base := by
    refine ⟨h.nodup, h.inuse, h.senders, h.receivers, h.sender_call, h.receiver_call, h.runs, h.origin, fun _ => ?_,
      (absurd hopen)⟩
    change s.slots - 1 = rest.length
    rw [hslots]
    rfl
  have hwoken : t.wakeSender.woken = s.woken := hbase.woken_wakeSender
  have hbase' := hbase.wakeSender
  set u : Mbox :=
    { t.wakeSender with holding := update s.holding p (some ⟨msg, s.opened⟩), received := s.received ++ [msg] }
  have hubase : u.Base :=
    ⟨hbase'.nodup, hbase'.inuse, hbase'.senders, hbase'.receivers, hbase'.sender_call, hbase'.receiver_call,
    hbase'.runs, hbase'.origin, hbase'.slots, hbase'.quiet⟩
  have hact : Active p u := hp.mono rfl wakeSender_subset (List.Subset.refl _)
  have hstate : u.state = .opened := hopen
  have huwake : u.receivers ≠ [] → u.slots + (if u.counts p = true then 1 else 0) ≤ u.woken := by
    intro hne
    have hle := hwake hne
    change s.slots - 1 + _ ≤ t.wakeSender.woken
    rw [hwoken]
    refine Nat.le_trans (Nat.add_le_add_left (k := s.slots - 1) (m := 1) ?_) (Nat.le_trans (Nat.le_of_eq ?_) hle)
    · split
      · exact Nat.le_refl 1
      · exact Nat.zero_le 1
    · rw [hslots]
      rfl
  obtain ⟨s', hs', hok, hmoves⟩ := out_ok true hubase hact (by rw [hstate]; decide) (fun _ => hstate) huwake
  refine ⟨s', hs', hok, ?_⟩
  rcases hmoves with hsame | ⟨hclosing, -⟩
  · exact hsame
  · rw [hstate] at hclosing
    cases hclosing

lemma recvLoop_ok (hp : Active p s) (hcall : (s.call p).isRecv = true) (hopen : s.state = .opened)
    (hwake : s.receivers ≠ [] → s.slots ≤ s.woken) :
    Safe (· = .addTimer) (s.recvLoop p maxBytes late) fun s' => s'.Ok ∧ Receives p s.data s'.data := by
  unfold recvLoop
  by_cases hempty : s.slots = 0
  · rw [if_pos hempty, if_pos hopen]
    refine sleep_safe.mono fun s' hs' => ?_
    rw [hs']
    refine ⟨⟨h.sleepRecv hp hcall hopen _, fun hc => ?_, fun hc => ?_, fun _ => ?_⟩, .inl rfl⟩
    · rw [show s.state = .closing from hc] at hopen
      cases hopen
    · rw [show s.state = .closed from hc] at hopen
      cases hopen
    · change s.slots ≤ _
      rw [hempty]
      exact Nat.zero_le _
  · rw [if_neg hempty]
    cases hmsgs : s.msgs with
    | nil => grind [h.slots]
    | cons msg rest =>
      rw [if_pos ⟨hopen, List.cons_ne_nil msg rest⟩, pickMsg, if_pos ⟨hopen, Nat.pos_of_ne_zero hempty⟩, hmsgs]
      dsimp only
      split
      · obtain ⟨s', hs', hok, hdata⟩ := tooBig_ok h hp hopen hwake
        exact Safe.of_exists ⟨s', hs', hok, .inl hdata⟩
      · obtain ⟨s', hs', hok, hdata⟩ := picked_ok h hp hopen hmsgs hwake
        exact Safe.of_exists ⟨s', hs', hok, .inr ⟨msg, rest, hmsgs, Nat.pos_of_ne_zero hempty, hdata⟩⟩

end

end Ucore.Sync.Mbox
