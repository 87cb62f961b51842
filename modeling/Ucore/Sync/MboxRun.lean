import Ucore.Sync.MboxOk

/-!
# Runs of a mailbox

Each step keeps the invariant and moves the messages in one of a few ways.
-/

namespace Ucore.Sync.Mbox

open Function Ucore.Lib

inductive Moves (e : Event) (d : Data) : Data → Prop
  | stay : Moves e d d
  | newMbox : e = .newMbox n → d.state = .closed →
    Moves e d { d with state := .opened, maxSlots := n, opened := d.opened + 1, sent := [], received := [] }
  | send : d.state = .opened → d.slots < d.maxSlots → msg.origin = d.opened →
    Moves e d { d with slots := d.slots + 1, msgs := d.msgs ++ [msg], sent := d.sent ++ [msg] }
  | recv : d.state = .opened → d.msgs = msg :: rest → 0 < d.slots → Moves e d { d with
      slots := d.slots - 1, msgs := rest, received := d.received ++ [msg], holding :=
        update d.holding p (some ⟨msg, d.opened⟩) }
  | deliver : Moves e d { d with holding := update d.holding p none }
  | putBack : e = .putBack p → d.holding p = some held → d.state = .opened →
    Moves e d { d with slots := d.slots + 1, msgs := held.msg :: d.msgs, holding := update d.holding p none }
  | close : d.state = .opened → Moves e d { d with state := .closing, msgs := [] }
  | closed : d.state = .closing → Moves e d { d with state := .closed, maxSlots := 0, slots := 0 }
  | free : d.state = .opened → Moves e d { d with state := .closed, maxSlots := 0, slots := 0, msgs := [] }

variable {s s' : Mbox} {p q maxBytes : Nat} {msg : Msg} {late timed : Bool} {e : Event} {d d' : Data}
 {guard : Mbox → Event → Prop}

def Next (e : Event) (s s' : Mbox) : Prop := s'.Ok ∧ Moves e s.data s'.data

lemma Sends.moves (h : Sends msg d d') (hopen : d.state = .opened) (horigin : msg.origin = d.opened) : Moves e d d' := by
  rcases h with rfl | ⟨hroom, rfl⟩
  · exact .stay
  · exact .send hopen hroom horigin

lemma Receives.moves (h : Receives p d d') (hopen : d.state = .opened) : Moves e d d' := by
  rcases h with rfl | ⟨msg, rest, hmsgs, hpos, rfl⟩
  · exact .stay
  · exact .recv hopen hmsgs hpos

lemma interrupted_ok (h : s.Base) (hp : Active p s) (hstate : s.state ≠ .closed)
    (hcounts : s.state = .opened → s.counts p = false)
    (hwake : s.receivers ≠ [] → s.slots ≤ s.woken) : Safe (· = .addTimer) (s.out p false) (Next e s) := by
  obtain ⟨s', hs', hok, hmoves⟩ := out_ok false h hp hstate (fun hc => by cases hc) fun hne => by
    have hopen : s.state = .opened := by
      by_contra hnot
      exact hne (h.quiet hnot).2.2
    grind
  refine Safe.of_exists ⟨s', hs', hok, ?_⟩
  rcases hmoves with hsame | ⟨hclosing, hclosed⟩
  · exact hsame ▸ .stay
  · exact hclosed ▸ .closed hclosing

section

variable (h : s.Ok)
include h

lemma Ok.newMbox {n : Nat} (hc : s.state = .closed) : Next (.newMbox n) s (s.newMbox n) := by
  obtain ⟨hin, hslots⟩ := h.closed hc
  have hnot : s.state ≠ .opened := by rw [hc]; decide
  obtain ⟨hmsgs, hsend, hrecv⟩ := h.base.quiet hnot
  have hb := h.base
  refine ⟨⟨⟨hb.nodup, hb.inuse, hb.senders, hb.receivers, hb.sender_call, hb.receiver_call,
    hb.runs, fun q hq => ?_, fun _ => ?_,
    (absurd rfl)⟩, (fun hst => by cases hst), (fun hst => by cases hst), absurd hrecv⟩, .newMbox rfl hc⟩
  · change q ∈ s.inside at hq
    rw [hin] at hq
    cases hq
  · change s.slots = s.msgs.length
    rw [hslots, hmsgs]
    rfl

lemma send_ok {bytes : Nat} (hidle : p ∉ s.inside) : Safe (· = .addTimer) (s.send p bytes timed) (Next e s) := by
  unfold Mbox.send
  split
  · rename_i hopen
    dsimp only
    set msg : Msg := ⟨p, bytes, s.opened⟩
    obtain ⟨hbase, hact⟩ := h.base.enter (.send msg) timed hidle fun m hm => by
      rw [← MboxCall.send.inj hm]
    have hcall : (s.enter p (.send msg) timed).call p = .send msg := update_self ..
    refine (sendLoop_ok hbase hact hcall hopen fun hne => Nat.le_trans (h.wakeups hne) (woken_enter hidle)).mono ?_
    rintro s' ⟨hok, hsends⟩
    exact ⟨hok, hsends.moves hopen rfl⟩
  · exact ⟨h, .stay⟩

lemma recv_ok (hidle : p ∉ s.inside) : Safe (· = .addTimer) (s.recv p maxBytes timed) (Next e s) := by
  unfold Mbox.recv
  split
  · rename_i hopen
    obtain ⟨hbase, hact⟩ := h.base.enter (.recv maxBytes) timed hidle (fun m hm => by cases hm)
    have hcall : ((s.enter p (.recv maxBytes) timed).call p).isRecv = true := by
      rw [show (s.enter p (.recv maxBytes) timed).call p = .recv maxBytes from update_self ..]
      rfl
    refine (recvLoop_ok hbase hact hcall hopen fun hne => Nat.le_trans (h.wakeups hne) (woken_enter hidle)).mono ?_
    rintro s' ⟨hok, hreceives⟩
    exact ⟨hok, hreceives.moves hopen⟩
  · exact ⟨h, .stay⟩

lemma resume_ok (hin : p ∈ s.inside) (hrun : s.procs.waitState p = .none) :
    Safe (· = .addTimer) (s.resume p late) (Next e s) := by
  have hstate : s.state ≠ .closed := by
    intro hc
    rw [(h.closed hc).1] at hin
    cases hin
  obtain ⟨hbase, hact⟩ := h.base.dequeue hin hrun
  unfold Mbox.resume
  cases hcall : s.call p with
  | send msg =>
    dsimp only
    -- A sender is in no queue of receivers.
    have hsame : s.receivers.erase p = s.receivers := by
      refine List.erase_of_not_mem fun hmem => ?_
      have hkind := (h.base.receiver_call p hmem).2
      rw [hcall] at hkind
      cases hkind
    rw [hsame] at hbase hact
    have hwake : s.receivers ≠ [] → s.slots ≤ s.woken := h.wakeups
    split
    · refine interrupted_ok hbase hact hstate (fun _ => ?_) hwake
      change ((s.call p).isRecv && _) = false
      rw [hcall]
      rfl
    rename_i hgo
    have hopen : s.state = .opened := by
      by_contra hnot
      exact hgo (.inl hnot)
    refine (sendLoop_ok hbase hact hcall hopen hwake).mono ?_
    rintro s' ⟨hok, hsends⟩
    exact ⟨hok, hsends.moves hopen (h.base.origin p hin msg hcall)⟩
  | recv maxBytes =>
    dsimp only
    have hsame : s.senders.erase p = s.senders := by
      refine List.erase_of_not_mem fun hmem => ?_
      have hkind := (h.base.sender_call p hmem).2
      rw [hcall] at hkind
      cases hkind
    rw [hsame] at hbase hact
    have hwake : s.receivers.erase p ≠ [] → s.slots ≤ s.woken := by
      refine fun hne => h.wakeups fun hnil => hne ?_
      rw [hnil]
      rfl
    split
    · rename_i hstop
      refine interrupted_ok hbase hact hstate (fun hopen => ?_) hwake
      have hflag := hstop.resolve_left fun hne => hne hopen
      change ((s.call p).isRecv && decide (s.procs.wakeupFlags p = .mboxRecv)) = false
      simp [hflag]
    rename_i hgo
    have hopen : s.state = .opened := by
      by_contra hnot
      exact hgo (.inl hnot)
    have hrecv : (s.call p).isRecv = true := by
      rw [hcall]
      rfl
    refine (recvLoop_ok hbase hact hrecv hopen hwake).mono ?_
    rintro s' ⟨hok, hreceives⟩
    exact ⟨hok, hreceives.moves hopen⟩

lemma Ok.deliver (p : Nat) : Next e s (s.deliver p) := by
  have hb := h.base
  exact ⟨⟨⟨hb.nodup, hb.inuse, hb.senders, hb.receivers, hb.sender_call, hb.receiver_call, hb.runs,
    hb.origin, hb.slots, hb.quiet⟩,
    h.closing, h.closed, h.wakeups⟩, .deliver⟩

lemma putBack_ok : Safe (· = .addTimer) (s.putBack p) (Next (.putBack p) s) := by
  have hd := (h.deliver (e := .putBack p) p).1
  unfold Mbox.putBack
  cases hheld : s.holding p with
  | none => exact ⟨h, .stay⟩
  | some held =>
    dsimp only
    split
    · rename_i hopen
      obtain ⟨s', hs', hbase, hwake, hdata, hin, -⟩ := hd.base.addMsg held.msg false hopen hd.wakeups
      have hstate : s'.state = .opened := (congrArg Data.state hdata).trans hopen
      refine Safe.of_exists ⟨s', hs', ⟨hbase, fun hc => ?_, fun hc => ?_, hwake⟩, ?_⟩
      · rw [hstate] at hc
        cases hc
      · rw [hstate] at hc
        cases hc
      · rw [hdata]
        exact .putBack rfl hheld hopen
    · exact h.deliver p

lemma free_ok : Safe (· = .addTimer) s.free fun s' => Next e s s' ∧
    (s.state = .opened → ∀ q, s'.procs.waitState q = .none) := by
  unfold Mbox.free
  split
  · rename_i hopen
    dsimp only
    have hb := h.base
    have hruns :
      ∀ q, ((s.procs.wakeupQueue .interrupted s.senders).wakeupQueue .interrupted s.receivers).waitState q = .none := by
      intro q
      rw [Sleepers.wakeupQueue_waitState]
      split
      · rfl
      · grind [Sleepers.wakeupQueue_waitState, hb.runs]
    have hbase : ({ s with
        state := .closing, msgs := [], senders := [], receivers := []
        procs := (s.procs.wakeupQueue .interrupted s.senders).wakeupQueue .interrupted s.receivers } : Mbox).Base :=
      ⟨hb.nodup, hb.inuse, .nil, .nil, (fun q hq => by cases hq), (fun q hq => by cases hq),
        fun q _ _ => hruns q, hb.origin,
        (fun hc => by cases hc), fun _ => ⟨rfl, rfl, rfl⟩⟩
    by_cases hlast : s.inuse = 0
    · have hnil : s.inside = [] := List.length_eq_zero_iff.mp (hb.inuse.symm.trans hlast)
      rw [if_pos hlast, mboxFree, if_pos ⟨rfl, hlast, rfl, rfl, rfl⟩]
      refine ⟨⟨⟨⟨hbase.nodup, hbase.inuse, hbase.senders, hbase.receivers, hbase.sender_call,
        hbase.receiver_call, hbase.runs,
        hbase.origin, (fun hc => by cases hc), fun _ => ⟨rfl, rfl, rfl⟩⟩, (fun hc => by cases hc), fun _ => ⟨hnil, rfl⟩,
        (absurd rfl)⟩, .free hopen⟩, fun _ => hruns⟩
    rw [if_neg hlast]
    refine ⟨⟨⟨hbase, fun _ hnil => hlast ?_, (fun hc => by cases hc), absurd rfl⟩, .close hopen⟩, fun _ => hruns⟩
    rw [hb.inuse, show s.inside = [] from hnil]
    rfl
  · rename_i hnot
    exact ⟨⟨h, .stay⟩, fun hopen => absurd hopen hnot⟩

lemma Ok.interrupt (p : Nat) (t : Nat → TimerState) : Next e s { s with procs := s.procs.interrupt p, timer := t } := by
  have hb := h.base
  have hwoken : ({ s with procs := s.procs.interrupt p, timer := t } : Mbox).woken = s.woken := by
    unfold Mbox.woken
    simp only [Sleepers.interrupt_wakeupFlags]
  refine ⟨⟨⟨hb.nodup, hb.inuse, hb.senders.interrupt p, hb.receivers.interrupt p, hb.sender_call,
    hb.receiver_call, fun q hs hr => ?_,
    hb.origin, hb.slots, hb.quiet⟩, h.closing, h.closed, fun hne => hwoken.symm ▸ h.wakeups hne⟩, .stay⟩
  rcases Sleepers.interrupt_cases (s := s.procs) (p := p) (q := q) with heq | heq
  · exact heq.trans (hb.runs q hs hr)
  · exact heq

lemma expire_ok : Safe (· = .addTimer) (s.expire p) (Next e s) := by
  unfold Mbox.expire
  rw [if_neg]
  · exact h.interrupt p _
  · rintro ⟨hne, hnot⟩
    by_cases hs : p ∈ s.senders
    · rw [(h.base.senders.waits p hs).resolve_right hne] at hnot
      cases hnot
    by_cases hr : p ∈ s.receivers
    · rw [(h.base.receivers.waits p hr).resolve_right hne] at hnot
      cases hnot
    · exact hne (h.base.runs p hs hr)

lemma step_ok (ha : s.Allowed e) : Safe (· = .addTimer) (s.step e) (Next e s) := by
  cases e with
  | newMbox n => exact h.newMbox ha.1
  | send p bytes timed => exact send_ok h ha.1.1
  | recv p maxBytes timed => exact recv_ok h ha.1.1
  | resume p late => exact resume_ok h ha.1 ha.2.1
  | deliver p => exact h.deliver p
  | putBack p => exact putBack_ok h
  | free => exact (free_ok h).mono fun _ hs' => hs'.1
  | kill p => exact h.interrupt p s.timer
  | expire p => exact expire_ok h

end

lemma init_ok : init.Ok := by
  refine ⟨⟨List.nodup_nil, rfl, .nil, .nil, ?_, ?_, fun _ _ _ => rfl, ?_, (fun hc => by cases hc),
    fun _ => ⟨rfl, rfl, rfl⟩⟩,
    (fun hc => by cases hc), fun _ => ⟨rfl, rfl⟩, absurd rfl⟩
  all_goals
    intro p hp
    cases hp

lemma Reached.invariant {P : Data → Prop} (h : Reached guard s) (hinit : P init.data)
    (hstep : ∀ s e d', s.Ok → P s.data → guard s e → Moves e s.data d' → P d') : s.Ok ∧ P s.data := by
  refine Reachable.invariant (P := fun s => s.Ok ∧ P s.data) h ?_ ?_
  · rintro _ rfl
    exact ⟨init_ok, hinit⟩
  · rintro s e s' ⟨hok, hP⟩ ⟨ha, hg⟩ hs
    obtain ⟨hok', hmoves⟩ := (step_ok hok ha).of_eq hs
    exact ⟨hok', hstep s e s'.data hok hP hg hmoves⟩

lemma Ok.closed_empty (h : s.Ok) (hc : s.data.state = .closed) : s.data.slots = 0 ∧ s.data.msgs = [] := by
  have hnot : s.state ≠ .opened := by
    rw [show s.state = .closed from hc]
    decide
  exact ⟨(h.closed hc).2, (h.base.quiet hnot).1⟩

def Delivers (_ : Mbox) : Event → Prop
  | .putBack _ => False
  | _ => True

instance (s : Mbox) (e : Event) : Decidable (s.Delivers e) := by
  induction e using Event.casesOn <;> unfold Delivers <;> infer_instance

structure InOrder (d : Data) : Prop where
  slots : d.slots ≤ d.maxSlots
  sent : d.state = .opened → d.sent = d.received ++ d.msgs
  received : d.received <+: d.sent

lemma InOrder.moves (h : InOrder s.data) (hok : s.Ok) (hg : s.Delivers e) (hm : Moves e s.data d') : InOrder d' := by
  cases hm with
  | stay => exact h
  | newMbox he hc =>
    obtain ⟨hslots, hmsgs⟩ := hok.closed_empty hc
    refine ⟨?_, fun _ => ?_, List.prefix_refl _⟩
    · rw [hslots]
      exact Nat.zero_le _
    · rw [hmsgs]
      rfl
  | send hopen hroom _ =>
    refine ⟨hroom, fun _ => ?_, h.received.trans (List.prefix_append ..)⟩
    rw [h.sent hopen, List.append_assoc]
  | recv hopen hmsgs hpos =>
    have hsent := h.sent hopen
    rw [hmsgs, List.append_cons] at hsent
    refine ⟨Nat.le_trans (Nat.sub_le ..) h.slots, fun _ => hsent, ?_⟩
    rw [hsent]
    exact List.prefix_append ..
  | deliver => exact ⟨h.slots, h.sent, h.received⟩
  | putBack he =>
    subst he
    exact hg.elim
  | close => exact ⟨h.slots, (fun hc => by cases hc), h.received⟩
  | closed => exact ⟨Nat.le_refl 0, (fun hc => by cases hc), h.received⟩
  | free => exact ⟨Nat.le_refl 0, (fun hc => by cases hc), h.received⟩

/-- The counter is the length of the list, and messages come out in the order they went
in. If a receiver is asleep, there are at least as many woken receivers as messages. -/
theorem mailbox_protocol (h : Reached Delivers s) :
    (s.state = .opened → s.slots = s.msgs.length ∧ s.slots ≤ s.maxSlots ∧ s.sent = s.received ++ s.msgs) ∧
    s.received <+: s.sent ∧
    (0 < s.slots → (∃ p ∈ s.receivers, s.procs.waitState p = .mboxRecv) → s.slots ≤ s.woken) ∧
    (s.state = .opened → ∃ s', s.step .free = .ok s' ∧ ∀ p, s'.procs.waitState p = .none) ∧
    ∀ e, s.Allowed e → s.step e ≠ .error .assertion := by
  obtain ⟨hok, horder⟩ := h.invariant (P := InOrder) ⟨Nat.le_refl 0, (fun hc => by cases hc), List.prefix_refl _⟩
    fun s e d' hok hord hg hm => hord.moves hok hg hm
  refine ⟨fun hopen => ⟨hok.base.slots hopen, horder.slots, horder.sent hopen⟩, horder.received,
    ?_, fun hopen => ?_, fun e ha hs => ?_⟩
  · rintro - ⟨p, hp, -⟩
    exact hok.wakeups (List.ne_nil_of_mem hp)
  · have hfree := free_ok (e := .free) hok
    have hopened : s.step .free = s.free := rfl
    cases hs : s.free with
    | ok s' => exact ⟨s', hopened.trans hs, (hfree.of_eq hs).2 hopen⟩
    | error x =>
      -- Only a timer that is added again can stop a step.
      grind [mboxFree, free]
  · have hsafe := step_ok hok ha
    rw [hs] at hsafe
    cases hsafe

theorem mailbox_protocol_woken :
    ∃ s, Reached Delivers s ∧ (s.state = .opened ∧ s.slots = 2 ∧ s.receivers = [3]) ∧ s.sent = s.received ++ s.msgs := by
  obtain ⟨s, hs, hp⟩ : ∃ s, Reached Delivers s ∧ s.state = .opened ∧ s.slots = 2 ∧ s.receivers = [3] :=
    Reachable.exists_of_run
      [.newMbox 4, .recv 1 8 false, .recv 2 8 true, .recv 3 8 false, .expire 2, .send 4 1
        false, .send 5 2 false] rfl (by decide +kernel)
  exact ⟨s, hs, hp, ((mailbox_protocol hs).1 hp.1).2.2⟩

def Fits (s : Mbox) : Event → Prop
  | .putBack _ => s.state = .opened → s.slots < s.maxSlots
  | _ => True

instance (s : Mbox) (e : Event) : Decidable (s.Fits e) := by
  induction e using Event.casesOn <;> unfold Fits <;> infer_instance

lemma slots_moves (h : s.data.slots ≤ s.data.maxSlots) (hok : s.Ok) (hg : s.Fits e)
    (hm : Moves e s.data d') : d'.slots ≤ d'.maxSlots := by
  cases hm with
  | stay => exact h
  | newMbox he hc =>
    change s.data.slots ≤ _
    rw [(hok.closed_empty hc).1]
    exact Nat.zero_le _
  | send _ hroom _ => exact hroom
  | recv => exact Nat.le_trans (Nat.sub_le ..) h
  | deliver => exact h
  | putBack he hheld hopen =>
    subst he
    exact hg hopen
  | close => exact h
  | closed => exact Nat.le_refl 0
  | free => exact Nat.le_refl 0

lemma putBack_data {held : Held} (h : s.Ok) (hheld : s.holding p = some held)
    (hopen : s.state = .opened) (hs : s.putBack p = .ok s') :
    s'.data = { s.data with slots := s.slots + 1, msgs := held.msg :: s.msgs, holding := update s.holding p none } := by
  have hd := (h.deliver (e := .putBack p) p).1
  obtain ⟨t, ht, -, -, hdata, -⟩ := hd.base.addMsg held.msg false hopen hd.wakeups
  have hback : s.putBack p = (s.deliver p).addMsg held.msg false := by
    unfold Mbox.putBack
    rw [hheld]
    exact if_pos hopen
  rw [hback, ht] at hs
  cases hs
  exact hdata

/-- The counter stays within the limit exactly as long as messages are put back only
where there is room. -/
theorem capacity_iff (h : Reached Fits s) :
    s.slots ≤ s.maxSlots ∧ ∀ e s', s.Allowed e → s.step e = .ok s' → (s'.slots ≤ s'.maxSlots ↔ s.Fits e) := by
  obtain ⟨hok, hslots⟩ :=
    h.invariant (P := fun d => d.slots ≤ d.maxSlots) (Nat.le_refl 0) fun s e d' hok hs hg hm => slots_moves hs hok hg hm
  refine ⟨hslots, fun e s' ha hs => ⟨fun hle => ?_, fun hg => ?_⟩⟩
  · cases e with
    | putBack p =>
      intro hopen
      obtain ⟨held, hheld⟩ := Option.ne_none_iff_exists'.mp ha
      have hdata := putBack_data hok hheld hopen hs
      have hnew : s'.slots = s.slots + 1 := congrArg Data.slots hdata
      have hmax : s'.maxSlots = s.maxSlots := congrArg Data.maxSlots hdata
      rw [hnew, hmax] at hle
      exact hle
    | _ => trivial
  · exact slots_moves hslots hok hg ((step_ok hok ha).of_eq hs).2

theorem capacity_empty : ∃ s, Reached Fits s ∧ (s.slots = 0 ∧ s.Allowed (.putBack 2) ∧ s.Fits (.putBack 2)) ∧
    ∀ s', s.step (.putBack 2) = .ok s' → s'.slots ≤ s'.maxSlots := by
  obtain ⟨s, hs, hp⟩ : ∃ s, Reached Fits s ∧ s.slots = 0 ∧ s.Allowed (.putBack 2) ∧ s.Fits (.putBack 2) :=
    Reachable.exists_of_run [.newMbox 1, .send 1 1 false, .recv 2 8 false] rfl (by decide +kernel)
  exact ⟨s, hs, hp, fun s' hs' => ((capacity_iff hs).2 _ s' hp.2.1 hs').mpr hp.2.2⟩

/-- The sender that a receive has woken takes the slot before the receive puts
its message back. -/
theorem mailbox_overfull : ∃ s, Reached (fun _ _ => True) s ∧ s.state = .opened ∧ s.maxSlots = 1 ∧ s.slots = 2 :=
  Reachable.exists_of_run
      [.newMbox 1, .send 1 1 false, .send 2 1 false, .recv 3 8 false, .resume 2 false, .putBack 3]
        rfl (by decide +kernel)

def Returns (s : Mbox) : Event → Prop
  | .putBack p => s.state = .opened → ∀ held, s.holding p = some held → held.source = s.opened
  | _ => True

lemma returns_iff :
    (s.state = .opened → (s.holding p).all (fun held => decide (held.source = s.opened)) = true) ↔
    s.Returns (.putBack p) := by
  simp [Returns, Option.all_eq_true]

instance (s : Mbox) : (e : Event) → Decidable (s.Returns e)
  | .putBack _ => decidable_of_iff _ returns_iff
  | .newMbox _ | .send .. | .recv .. | .resume .. | .deliver _ | .free | .kill _ | .expire _ =>
    inferInstanceAs (Decidable True)

structure Home (d : Data) : Prop where
  msgs : ∀ msg ∈ d.msgs, msg.origin = d.opened
  held : ∀ p held, d.holding p = some held → held.msg.origin = held.source

lemma held_update {f : Nat → Option Held} {o : Option Held} {P : Held → Prop} (h : ∀ q held, f q = some held → P held)
    (ho : ∀ held, o = some held → P held) : ∀ q held, update f p o q = some held → P held := by
  intro q held hheld
  grind

lemma Home.moves (h : Home s.data) (hok : s.Ok) (hg : s.Returns e) (hm : Moves e s.data d') : Home d' := by
  cases hm with
  | stay => exact h
  | newMbox he hc =>
    refine ⟨fun msg hmem => ?_, h.held⟩
    change msg ∈ s.data.msgs at hmem
    rw [(hok.closed_empty hc).2] at hmem
    cases hmem
  | send hopen hroom horigin =>
    refine ⟨fun m hmem => ?_, h.held⟩
    grind [h.msgs]
  | @recv msg rest p hopen hmsgs hpos =>
    refine ⟨fun m hmem => h.msgs m (hmsgs ▸ List.mem_cons_of_mem _ hmem), held_update h.held ?_⟩
    grind [h.msgs]
  | deliver => exact ⟨h.msgs, held_update h.held (fun held hheld => by cases hheld)⟩
  | @putBack p held he hheld hopen =>
    subst he
    refine ⟨fun m hmem => ?_, held_update h.held (fun held hheld => by cases hheld)⟩
    rcases List.mem_cons.mp hmem with rfl | hold
    · exact (h.held p held hheld).trans (hg hopen held hheld)
    · exact h.msgs m hold
  | close => exact ⟨(fun m hmem => by cases hmem), h.held⟩
  | closed => exact ⟨h.msgs, h.held⟩
  | free => exact ⟨(fun m hmem => by cases hmem), h.held⟩

/-- As long as messages are put back only into the mailbox they came from, every mailbox
holds and delivers only what was sent to it. -/
theorem messages_stay_iff (h : Reached Returns s) :
    (∀ msg ∈ s.msgs, msg.origin = s.opened) ∧ (∀ p held, s.holding p = some held → held.msg.origin = held.source) ∧
    ∀ e s', s.Allowed e → s.step e = .ok s' → ((∀ msg ∈ s'.msgs, msg.origin = s'.opened) ↔ s.Returns e) := by
  have hinit : Home init.data := by
    refine ⟨?_, ?_⟩
    · intro m hm
      cases hm
    · intro p held hheld
      cases hheld
  obtain ⟨hok, hhome⟩ := h.invariant (P := Home) hinit fun s e d' hok hh hg hm => hh.moves hok hg hm
  refine ⟨hhome.msgs, hhome.held, fun e s' ha hs => ⟨fun hall => ?_, fun hg => ?_⟩⟩
  · cases e with
    | putBack p =>
      intro hopen held hheld
      have hdata := putBack_data hok hheld hopen hs
      have hmsgs : s'.msgs = held.msg :: s.msgs := congrArg Data.msgs hdata
      have hopened : s'.opened = s.opened := congrArg Data.opened hdata
      have horigin := hall held.msg (hmsgs ▸ List.mem_cons_self)
      rw [hopened] at horigin
      exact (hhome.held p held hheld).symm.trans horigin
    | _ => trivial
  · exact (hhome.moves hok hg ((step_ok hok ha).of_eq hs).2).msgs

theorem messages_stay_same : ∃ s, Reached Returns s ∧ (s.opened = 1 ∧ s.Allowed (.putBack 2) ∧ s.Returns (.putBack 2)) ∧
    ∀ s', s.step (.putBack 2) = .ok s' → ∀ msg ∈ s'.msgs, msg.origin = s'.opened := by
  obtain ⟨s, hs, hp⟩ : ∃ s, Reached Returns s ∧ s.opened = 1 ∧ s.Allowed (.putBack 2) ∧ s.Returns (.putBack 2) :=
    Reachable.exists_of_run [.newMbox 1, .send 1 1 false, .recv 2 8 false] rfl (by decide +kernel)
  exact ⟨s, hs, hp, fun s' hs' => ((messages_stay_iff hs).2.2 _ s' hp.2.1 hs').mpr hp.2.2⟩

/-- The mailbox is freed and its id is used again while a receive that took a
message out waits for the lock of its address space. -/
theorem message_strays : ∃ s, Reached (fun _ _ => True) s ∧ s.state = .opened ∧ s.opened = 2 ∧ s.msgs = [⟨1, 1, 1⟩] :=
  Reachable.exists_of_run
    [.newMbox 1, .send 1 1 false, .recv 2 8 false, .free, .newMbox 1, .putBack 2] rfl (by decide +kernel)

end Ucore.Sync.Mbox
