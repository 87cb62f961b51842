import Ucore.Lib.Safe
import Ucore.Sync.Event

/-!
# The rendezvous of sends and receives

Who sleeps where is one invariant, and what was taken is another. The second
follows the wakeup flags: a sender whose flags are `WT_EVENT_SEND` was taken
once, with its pid and its value, and any other sender was not taken.
-/

namespace Ucore.Sync.Events

open Function Ucore.Lib

variable {s s' : Events} {p q t : Nat} {event : Int} {timed late : Bool} {f : WaitState} {e : EventsEvent}

structure Waits (s : Events) : Prop where
  queued : ∀ t, Sleepers.Queued .eventSend s.procs (s.queue t)
  inside : ∀ t, ∀ q ∈ s.queue t, ∃ event timed, s.call q = some (.send t event timed)
  sender : ∀ q t event timed, s.call q = some (.send t event timed) → q ∉ s.queue t →
    s.procs.waitState q = .none ∧ (s.procs.wakeupFlags q = .eventSend ∨ s.procs.wakeupFlags q = .interrupted)
  receiver : ∀ q, s.call q = some .recv → s.procs.waitState q = .eventRecv ∧ s.queue q = [] ∨ s.procs.waitState q = .none
  idle : ∀ q, s.call q = none → s.procs.waitState q = .none
  alive : ∀ q, s.call q ≠ none → s.life q = .alive
  dead : ∀ q, s.life q ≠ .alive → s.queue q = []

def Sends (s : Events) (q t : Nat) (event : Int) : Prop := ∃ timed, s.call q = some (.send t event timed)

def takes (n : Nat) (s : Events) : List Take := s.taken.filter (·.ticket = n)

structure History (s : Events) : Prop where
  fresh : ∀ q t event, s.Sends q t event → s.ticket q < s.sends ∧ s.event q = event ∧
    ∀ r ∈ s.returned, r.ticket ≠ s.ticket q
  inj : ∀ p q t u a b, s.Sends p t a → s.Sends q u b → s.ticket p = s.ticket q → p = q
  flight : ∀ q t event, s.Sends q t event →
    s.takes (s.ticket q) = if s.procs.wakeupFlags q = .eventSend then [⟨s.ticket q, t, q, event⟩] else []
  bound : ∀ k ∈ s.taken, k.ticket < s.sends
  done : ∀ r ∈ s.returned, r.ticket < s.sends ∧
    s.takes r.ticket = if r.result = .zero then [⟨r.ticket, r.target, r.sender, r.event⟩] else []
  distinct : (s.returned.map (·.ticket)).Nodup

lemma wakeupWait_eq (hq : s.life q ≠ .zombie) : s.wakeupWait f q = .ok { s with procs := s.procs.wakeupWait f q } :=
  if_neg hq

lemma wakeupQueue_eq (hlife : ∀ q ∈ s.queue p, s.life q ≠ .zombie) :
    s.wakeupQueue f p = .ok { s with queue := update s.queue p [], procs := s.procs.wakeupQueue f (s.queue p) } := by
  unfold wakeupQueue
  generalize s.queue p = l at hlife
  generalize hs : ({ s with queue := update s.queue p [] } : Events) = u
  have hu : ∀ q ∈ l, u.life q ≠ .zombie := by
    subst hs
    exact hlife
  suffices h : l.foldlM (wakeupWait f) u = .ok { u with procs := u.procs.wakeupQueue f l } by
    subst hs
    exact h
  clear hs hlife
  induction l generalizing u with
  | nil => rfl
  | cons q l ih =>
    rw [List.foldlM_cons, wakeupWait_eq (hu q List.mem_cons_self)]
    exact ih _ fun x hx => hu x (.tail q hx)

section

variable (h : s.Waits)
include h

lemma Waits.frame (hsame : s'.queue = s.queue ∧ s'.procs = s.procs ∧ s'.call = s.call ∧
    s'.life = s.life) : s'.Waits := by
  obtain ⟨hqueue, hprocs, hcall, hlife⟩ := hsame
  constructor
  all_goals simp only [hqueue, hprocs, hcall, hlife]
  exacts [h.queued, h.inside, h.sender, h.receiver, h.idle, h.alive, h.dead]

lemma Waits.not_mem (hcall : ∀ t event timed, s.call p ≠ some (.send t event timed)) (t : Nat) : p ∉ s.queue t := by
  grind [h.inside]

lemma Waits.not_mem_idle (hcall : s.call p = none) (t : Nat) : p ∉ s.queue t := by
  grind [h.not_mem]

lemma Waits.target (hmem : q ∈ s.queue p) (hcall : s.call q = some (.send t event timed)) : t = p := by
  grind [h.inside]

lemma Waits.disjoint (hp : q ∈ s.queue p) (ht : q ∈ s.queue t) : t = p := by
  grind [h.inside]

lemma Waits.queue_alive (hmem : q ∈ s.queue t) : s.life q = .alive := by
  obtain ⟨event, timed, hcall⟩ := h.inside t q hmem
  refine h.alive q ?_
  rw [hcall]
  exact Option.some_ne_none _

lemma Waits.receives (hw : s.procs.waitState p = .eventRecv) : s.call p = some .recv ∧ s.queue p = [] := by
  cases hcall : s.call p with
  | none =>
    rw [h.idle p hcall] at hw
    cases hw
  | some c =>
    cases c with
    | recv => grind [h.receiver]
    | send t event timed =>
      by_cases hmem : p ∈ s.queue t
      · rcases (h.queued t).waits p hmem with hsend | hnone
        · rw [hsend] at hw
          cases hw
        · rw [hnone] at hw
          cases hw
      · grind [h.sender]

def roused (t : Nat) (s : Events) : Sleepers :=
    if s.procs.waitState t = .eventRecv then s.procs.wakeupProc t else s.procs

omit h in
lemma wakeReceiver_eq (ht : s.life t = .alive) : s.wakeReceiver t = .ok { s with procs := s.roused t } := by
  unfold wakeReceiver roused wakeupProc
  split
  · rw [if_neg (by rw [ht]; decide)]
  · rfl

def sent (p t : Nat) (event : Int) (timed : Bool) (s : Events) : Events :=
  ({ s.enter p with procs := s.roused t, event := update s.event p event } : Events).sendEvent p t event timed

omit h in
lemma ipcEventSend_cases (s : Events) (p t : Nat) (event : Int) (timed : Bool) :
    s.ipcEventSend p t event timed = .ok ((s.enter p).returns p t event .inval) ∨
    s.life t = .alive ∧ t ≠ p ∧ s.ipcEventSend p t event timed = .ok (s.sent p t event timed) := by
  unfold ipcEventSend
  split
  · exact .inl rfl
  rename_i hc
  have ht : s.life t = .alive := by
    by_contra hne
    exact hc (.inl hne)
  refine .inr ⟨ht, fun heq => hc (.inr (.inl heq)), ?_⟩
  rw [show (s.enter p).wakeReceiver t = .ok { s.enter p with procs := s.roused t } from wakeReceiver_eq ht]
  rfl

def took (p q : Nat) (rest : List Nat) (s : Events) : Events :=
  { s with
    queue := update s.queue p rest
    taken := ⟨s.ticket q, p, q, s.event q⟩ :: s.taken
    procs := s.procs.wakeupWait .eventSend q }

lemma takeFirst_cases :
    s.queue p = [] ∧ s.takeFirst p = .ok s ∨ ∃ q rest, s.queue p = q :: rest ∧
    s.takeFirst p = .ok (s.took p q rest) := by
  unfold takeFirst
  split
  · rename_i hq
    exact .inl ⟨hq, rfl⟩
  rename_i q rest hq
  refine .inr ⟨q, rest, hq, wakeupWait_eq ?_⟩
  have hmem : q ∈ s.queue p := hq ▸ List.mem_cons_self
  have hlife := h.queue_alive hmem
  change s.life q ≠ .zombie
  rw [hlife]
  decide

-- Who sleeps where, step by step

omit h in
lemma roused_waitState (s : Events) (t q : Nat) :
    (s.roused t).waitState q = if q = t ∧ s.procs.waitState t = .eventRecv then .none else s.procs.waitState q := by
  unfold roused
  by_cases ht : s.procs.waitState t = .eventRecv
  · simp [ht]
  · simp [ht]

omit h in
lemma roused_wakeupFlags (s : Events) (t : Nat) : (s.roused t).wakeupFlags = s.procs.wakeupFlags := by
  unfold roused
  split
  all_goals rfl

lemma Waits.awaken {procs : Sleepers} (hw : ∀ q, procs.waitState q = s.procs.waitState q ∨ procs.waitState q = .none)
    (hf : procs.wakeupFlags = s.procs.wakeupFlags) : ({ s with procs := procs } : Events).Waits := by
  have hnone : ∀ q, s.procs.waitState q = .none → procs.waitState q = .none := by
    intro q hq
    rcases hw q with heq | hnone
    · exact heq.trans hq
    · exact hnone
  refine ⟨fun t => (h.queued t).congr (fun q _ => hw q) fun q _ => by rw [hf], h.inside, ?_, ?_, ?_, h.alive, h.dead⟩
  · grind [h.sender]
  · grind [h.receiver]
  · exact fun q hcall => hnone q (h.idle q hcall)

lemma Waits.roused (t : Nat) : ({ s with procs := s.roused t } : Events).Waits := by
  grind [roused_wakeupFlags, roused_waitState, h.awaken]

lemma Waits.sendEvent (hp : s.Idle p) (ht : s.life t = .alive) (hawake : s.procs.waitState t ≠ .eventRecv) :
    (s.sendEvent p t event timed).Waits := by
  have hout := h.not_mem_idle hp.2
  have hcall : ∀ q, q ≠ p → (s.sendEvent p t event timed).call q = s.call q := fun q hq => update_of_ne hq ..
  have hself : (s.sendEvent p t event timed).call p = some (.send t event timed) := update_self ..
  have hwait : ∀ q, q ≠ p → (s.sendEvent p t event timed).procs.waitState q = s.procs.waitState q :=
    fun q hq => by simp [Events.sendEvent, hq]
  have hflags : ∀ q, q ≠ p → (s.sendEvent p t event timed).procs.wakeupFlags q = s.procs.wakeupFlags q :=
    fun q hq => by simp [Events.sendEvent, hq]
  have hqueue : ∀ u, u ≠ t → (s.sendEvent p t event timed).queue u = s.queue u := fun u hu => update_of_ne hu ..
  have htarget : (s.sendEvent p t event timed).queue t = s.queue t ++ [p] := update_self ..
  have hsub : ∀ u, s.queue u ⊆ (s.sendEvent p t event timed).queue u := by
    intro u q hq
    by_cases hu : u = t
    · grind
    · rwa [hqueue u hu]
  constructor
  case queued => grind [Sleepers.Queued.waitCurrentSet, Sleepers.Queued.push, h.queued, Events.sendEvent]
  case inside => grind [h.inside]
  case sender => grind [h.sender]
  case receiver => grind [h.receiver]
  case idle => grind [h.idle]
  case alive =>
    intro q hq
    by_cases hne : q = p
    · exact hne ▸ hp.1
    · rw [hcall q hne] at hq
      exact h.alive q hq
  case dead => grind [h.dead, Events.sendEvent]

lemma Waits.sent (hp : s.Idle p) (ht : s.life t = .alive) : (s.sent p t event timed).Waits := by
  have hw : ({ s.enter p with procs := s.roused t, event := update s.event p event } : Events).Waits :=
    (h.roused t).frame ⟨rfl, rfl, rfl, rfl⟩
  refine hw.sendEvent hp ht ?_
  change (s.roused t).waitState t ≠ .eventRecv
  grind [roused_waitState]

lemma Waits.took {rest : List Nat} (hq : s.queue p = q :: rest) : (s.took p q rest).Waits := by
  have hmem : q ∈ s.queue p := hq ▸ List.mem_cons_self
  have hp : Sleepers.Queued .eventSend s.procs (q :: rest) := hq ▸ h.queued p
  obtain ⟨a, b, hcall⟩ := h.inside p q hmem
  have hself : (s.took p q rest).queue p = rest := update_self ..
  have hqueue : ∀ u, u ≠ p → (s.took p q rest).queue u = s.queue u := fun u hu => update_of_ne hu ..
  have hsub : ∀ u, (s.took p q rest).queue u ⊆ s.queue u := by
    intro u x hx
    by_cases hu : u = p
    · grind
    · rwa [hqueue u hu] at hx
  have hwait : ∀ x, x ≠ q → (s.took p q rest).procs.waitState x = s.procs.waitState x :=
    fun x hx => by simp [Events.took, hx]
  have hflags : ∀ x, x ≠ q → (s.took p q rest).procs.wakeupFlags x = s.procs.wakeupFlags x :=
    fun x hx => by simp [Events.took, hx]
  constructor
  case queued => grind [Sleepers.Queued.wakeupWait, hp.pop, h.queued, h.disjoint, Events.took]
  case inside => exact fun u x hx => h.inside u x (hsub u hx)
  case sender =>
    intro x u c d hx hnot
    by_cases hxq : x = q
    · subst hxq
      exact ⟨by simp [Events.took], .inl (by simp [Events.took])⟩
    · grind [h.sender, Events.took]
  case receiver =>
    intro x hx
    have hxq : x ≠ q := by
      rintro rfl
      rw [show s.call x = some .recv from hx] at hcall
      cases hcall
    rw [hwait x hxq]
    refine (h.receiver x hx).imp_left fun ⟨hrecv, hnil⟩ => ⟨hrecv, List.eq_nil_of_subset_nil ?_⟩
    rw [← hnil]
    exact hsub x
  case idle =>
    intro x hx
    have hxq : x ≠ q := by
      rintro rfl
      rw [show s.call x = none from hx] at hcall
      cases hcall
    rw [hwait x hxq]
    exact h.idle x hx
  case alive => exact h.alive
  case dead =>
    intro u hu
    refine List.eq_nil_of_subset_nil ?_
    rw [← h.dead u hu]
    exact hsub u

def asleep (p : Nat) (timed : Bool) (s : Events) : Events :=
  { s with
    procs := { s.procs with waitState := update s.procs.waitState p .eventRecv }
    call := update s.call p (some .recv)
    timer := update s.timer p timed }

lemma Waits.asleep (hp : s.Idle p) (hnil : s.queue p = []) : (s.asleep p timed).Waits := by
  have hout := h.not_mem_idle hp.2
  have hself : (s.asleep p timed).call p = some .recv := update_self ..
  have hcall : ∀ q, q ≠ p → (s.asleep p timed).call q = s.call q := fun q hq => update_of_ne hq ..
  have hwait : ∀ q, q ≠ p → (s.asleep p timed).procs.waitState q = s.procs.waitState q := fun q hq => update_of_ne hq ..
  constructor
  case queued =>
    intro u
    exact (h.queued u).congr (fun q hq => .inl (hwait q fun heq => hout u (heq ▸ hq))) fun _ _ => rfl
  case inside =>
    intro u q hq
    have hne : q ≠ p := fun heq => hout u (heq ▸ hq)
    rw [hcall q hne]
    exact h.inside u q hq
  case sender => grind [h.sender, Events.asleep]
  case receiver =>
    intro q hq
    by_cases hne : q = p
    · subst hne
      exact .inl ⟨update_self .., hnil⟩
    rw [hcall q hne] at hq
    rw [hwait q hne]
    exact h.receiver q hq
  case idle => grind [h.idle]
  case alive =>
    intro q hq
    by_cases hne : q = p
    · exact hne ▸ hp.1
    · rw [hcall q hne] at hq
      exact h.alive q hq
  case dead => exact h.dead

lemma Waits.leave (hw : s.procs.waitState p = .none) :
    ({ s.leave p with queue := fun t => (s.queue t).erase p } : Events).Waits := by
  have hself : (s.leave p).call p = none := update_self ..
  have hcall : ∀ q, q ≠ p → (s.leave p).call q = s.call q := fun q hq => update_of_ne hq ..
  have hne : ∀ q c, (s.leave p).call q = some c → q ≠ p := by
    rintro q c hq rfl
    rw [hself] at hq
    cases hq
  constructor
  case queued => exact fun u => (h.queued u).sublist List.erase_sublist
  case inside =>
    intro u q hq
    obtain ⟨hqp, hold⟩ := (h.queued u).nodup.mem_erase_iff.mp hq
    change ∃ event timed, (s.leave p).call q = _
    rw [hcall q hqp]
    exact h.inside u q hold
  case sender =>
    intro q u a b hq hmem
    have hqp := hne q _ hq
    exact h.sender q u a b ((hcall q hqp).symm.trans hq) fun hold =>
      hmem ((h.queued u).nodup.mem_erase_iff.mpr ⟨hqp, hold⟩)
  case receiver =>
    intro q hq
    refine (h.receiver q ((hcall q (hne q _ hq)).symm.trans hq)).imp_left fun ⟨hrecv, hnil⟩ => ⟨hrecv, ?_⟩
    change (s.queue q).erase p = []
    rw [hnil]
    rfl
  case idle =>
    intro q hq
    by_cases hqp : q = p
    · exact hqp ▸ hw
    · exact h.idle q ((hcall q hqp).symm.trans hq)
  case alive =>
    intro q hq
    obtain ⟨c, hc⟩ := Option.ne_none_iff_exists'.mp hq
    refine h.alive q ?_
    rw [← hcall q (hne q c hc)]
    exact hq
  case dead =>
    intro u hu
    change (s.queue u).erase p = []
    rw [h.dead u hu]
    rfl

lemma Waits.erase_eq (hcall : s.call p = some (.send t event timed)) :
    update s.queue t ((s.queue t).erase p) = fun u => (s.queue u).erase p := by
  grind [List.erase_of_not_mem, h.target]

lemma Waits.erase_recv (hcall : s.call p = some .recv) : s.queue = fun u => (s.queue u).erase p := by
  grind [List.erase_of_not_mem, h.not_mem]

lemma Waits.interrupt (p : Nat) : ({ s with procs := s.procs.interrupt p } : Events).Waits :=
  h.awaken (fun _ => Sleepers.interrupt_cases) Sleepers.interrupt_wakeupFlags

def exited (p : Nat) (s : Events) : Events :=
  { s with
    life := update s.life p .zombie
    queue := update s.queue p []
    procs := s.procs.wakeupQueue .interrupted (s.queue p) }

lemma exit_eq (hp : s.Idle p) : s.exit p = .ok (s.exited p) := by
  refine wakeupQueue_eq fun q hq => ?_
  have hne : q ≠ p := fun heq => h.not_mem_idle hp.2 p (heq ▸ hq)
  change update s.life p .zombie q ≠ .zombie
  rw [update_of_ne hne, h.queue_alive hq]
  decide

lemma Waits.exited (hp : s.Idle p) : (s.exited p).Waits := by
  have hself : (s.exited p).queue p = [] := update_self ..
  have hqueue : ∀ u, u ≠ p → (s.exited p).queue u = s.queue u := fun u hu => update_of_ne hu ..
  have hsub : ∀ u, (s.exited p).queue u ⊆ s.queue u := by
    intro u q hq
    by_cases hu : u = p
    · rw [hu, hself] at hq
      cases hq
    · rwa [hqueue u hu] at hq
  have hnil : ∀ u, s.queue u = [] → (s.exited p).queue u = [] := fun u hu => List.eq_nil_of_subset_nil (hu ▸ hsub u)
  have hwait : ∀ q, q ∉ s.queue p → (s.exited p).procs.waitState q = s.procs.waitState q := fun q hq => by
    simp [Events.exited, Sleepers.wakeupQueue_waitState, hq]
  have hnone : ∀ q, s.procs.waitState q = .none → (s.exited p).procs.waitState q = .none := fun q hq => by
    simp [Events.exited, Sleepers.wakeupQueue_waitState, hq]
  constructor
  case queued => grind [Sleepers.Queued.nil, Sleepers.Queued.wakeupQueue, h.queued, h.disjoint, Events.exited]
  case inside => exact fun u q hq => h.inside u q (hsub u hq)
  case sender =>
    intro q u a b hq hnot
    by_cases hqp : q ∈ s.queue p
    · grind [Sleepers.wakeupQueue_wakeupFlags, Events.exited, Sleepers.wakeupQueue_waitState]
    have hflags : (s.exited p).procs.wakeupFlags q = s.procs.wakeupFlags q := by
      simp [Events.exited, Sleepers.wakeupQueue_wakeupFlags, hqp]
    grind [h.sender, Events.exited]
  case receiver =>
    intro q hq
    rcases h.receiver q hq with ⟨hrecv, hempty⟩ | hwaits
    · have hqp : q ∉ s.queue p := by
        refine h.not_mem (fun t event timed hsend => ?_) p
        rw [show s.call q = some .recv from hq] at hsend
        cases hsend
      exact .inl ⟨(hwait q hqp).trans hrecv, hnil q hempty⟩
    · exact .inr (hnone q hwaits)
  case idle => exact fun q hq => hnone q (h.idle q hq)
  case alive =>
    intro q hq
    have hqp : q ≠ p := by
      rintro rfl
      exact hq hp.2
    exact (update_of_ne hqp ..).trans (h.alive q hq)
  case dead =>
    intro u hu
    by_cases hup : u = p
    · rw [hup, hself]
    · refine hnil u (h.dead u ?_)
      rwa [show (s.exited p).life u = s.life u from update_of_ne hup ..] at hu

lemma Waits.reap (hp : s.life p = .zombie) : ({ s with life := update s.life p .unused } : Events).Waits := by
  have hne : ∀ q, s.life q = .alive → q ≠ p := by
    rintro q hq rfl
    rw [hp] at hq
    cases hq
  refine ⟨h.queued, h.inside, h.sender, h.receiver, h.idle, fun q hq => ?_, fun u hu => h.dead u fun halive => hu ?_⟩
  · grind [h.alive]
  · exact (update_of_ne (hne u halive) ..).trans halive

lemma Waits.fork (hp : s.life p = .unused) : (s.fork p).Waits := by
  have hsame : update s.queue p [] = s.queue := by
    rw [Function.update_eq_self_iff]
    exact (h.dead p (by rw [hp]; decide)).symm
  unfold Events.fork
  rw [hsame]
  refine ⟨h.queued, h.inside, h.sender, h.receiver, h.idle, fun q hq => ?_, fun u hu => h.dead u fun halive => hu ?_⟩
  · grind [h.alive]
  · grind

end

-- What was taken, step by step

section

variable (h : s.History)
include h

lemma History.frame (hsends : ∀ q t event, s'.Sends q t event → s.Sends q t event)
    (hflags : ∀ q t event, s'.Sends q t event → s'.procs.wakeupFlags q = s.procs.wakeupFlags q)
    (hsame : s'.event = s.event ∧ s'.ticket = s.ticket ∧ s'.sends = s.sends ∧ s'.taken = s.taken ∧
    s'.returned = s.returned) :
    s'.History := by
  obtain ⟨hevent, hticket, hcount, htaken, hreturned⟩ := hsame
  have htakes : ∀ n, s'.takes n = s.takes n := fun n => by rw [takes, takes, htaken]
  constructor
  case fresh =>
    intro q t event hq
    rw [hticket, hcount, hevent, hreturned]
    exact h.fresh q t event (hsends q t event hq)
  case inj => grind [h.inj]
  case flight =>
    intro q t event hq
    rw [htakes, hticket, hflags q t event hq]
    exact h.flight q t event (hsends q t event hq)
  case bound =>
    rw [htaken, hcount]
    exact h.bound
  case done =>
    intro r hr
    rw [hcount, htakes]
    exact h.done r (hreturned ▸ hr)
  case distinct =>
    rw [hreturned]
    exact h.distinct

lemma History.takes_next : s.takes s.sends = [] := by
  refine List.filter_eq_nil_iff.mpr fun k hk => ?_
  rw [decide_eq_true_eq]
  exact Nat.ne_of_lt (h.bound k hk)

omit h in
lemma sends_of_ne {c : Option EventCall} {a : Int} {u : Nat} (hne : q ≠ p)
    (hcall : s'.call = update s.call p c) (h : s'.Sends q u a) :
    s.Sends q u a := by
  obtain ⟨b, hb⟩ := h
  rw [hcall, update_of_ne hne] at hb
  exact ⟨b, hb⟩

omit h in
lemma Sends.enter_ticket (h : s.Sends q t event) (hp : s.call p = none) : (s.enter p).ticket q = s.ticket q := by
  refine update_of_ne ?_ ..
  rintro rfl
  obtain ⟨timed, hq⟩ := h
  rw [hp] at hq
  cases hq

section

variable (hp : s.call p = none)
include hp

lemma History.enter_ne (hq : s.Sends q t event) : (s.enter p).ticket q ≠ s.sends := by
  rw [hq.enter_ticket hp]
  exact Nat.ne_of_lt (h.fresh q t event hq).1

lemma History.enter : (s.enter p).History := by
  have hticket : ∀ q t event, s.Sends q t event → (s.enter p).ticket q = s.ticket q :=
    fun q t event hq => hq.enter_ticket hp
  constructor
  case fresh =>
    intro q t event hq
    rw [hticket q t event hq]
    obtain ⟨hlt, hevent, hout⟩ := h.fresh q t event hq
    exact ⟨Nat.lt_succ_of_lt hlt, hevent, hout⟩
  case inj =>
    intro q x t u a b hq hx heq
    rw [hticket q t a hq, hticket x u b hx] at heq
    exact h.inj q x t u a b hq hx heq
  case flight =>
    intro q t event hq
    rw [hticket q t event hq]
    exact h.flight q t event hq
  case bound =>
    intro k hk
    exact Nat.lt_succ_of_lt (h.bound k hk)
  case done =>
    intro r hr
    exact ⟨Nat.lt_succ_of_lt (h.done r hr).1, (h.done r hr).2⟩
  case distinct => exact h.distinct

lemma History.refused : ((s.enter p).returns p t event .inval).History := by
  have he := h.enter hp
  have hself : (s.enter p).ticket p = s.sends := update_self ..
  refine ⟨fun q t event hq => ?_, he.inj, he.flight, he.bound, fun r hr => ?_, ?_⟩
  · obtain ⟨hlt, hevent, hout⟩ := he.fresh q t event hq
    refine ⟨hlt, hevent, fun r hr => ?_⟩
    rcases List.mem_cons.mp hr with rfl | hold
    · change (s.enter p).ticket p ≠ (s.enter p).ticket q
      rw [hself]
      exact (h.enter_ne hp hq).symm
    · exact hout r hold
  · rcases List.mem_cons.mp hr with rfl | hold
    · change (s.enter p).ticket p < s.sends + 1 ∧ s.takes ((s.enter p).ticket p) = []
      grind [h.takes_next]
    · exact he.done r hold
  · change ((s.enter p).ticket p :: s.returned.map (·.ticket)).Nodup
    rw [hself]
    refine List.nodup_cons.mpr ⟨fun hmem => ?_, h.distinct⟩
    obtain ⟨r, hr, heq⟩ := List.mem_map.mp hmem
    exact Nat.ne_of_lt (h.done r hr).1 heq

lemma History.sent : (s.sent p t event timed).History := by
  have he := h.enter hp
  have hself : (s.sent p t event timed).ticket p = s.sends := update_self ..
  have hold : ∀ q u a, q ≠ p → (s.sent p t event timed).Sends q u a → s.Sends q u a :=
    fun q u a hne => sends_of_ne hne rfl
  have hnew : ∀ u a, (s.sent p t event timed).Sends p u a → u = t ∧ a = event := by
    rintro u a ⟨b, hb⟩
    rw [show (s.sent p t event timed).call p = some (.send t event timed) from update_self ..] at hb
    cases hb
    exact ⟨rfl, rfl⟩
  refine ⟨fun q u a hq => ?_, fun q x u v a b hq hx heq => ?_, fun q u a hq => ?_, he.bound, he.done, he.distinct⟩
  · by_cases hne : q = p
    · subst hne
      obtain ⟨rfl, rfl⟩ := hnew u a hq
      rw [hself]
      exact ⟨Nat.lt_succ_self _, update_self .., fun r hr => Nat.ne_of_lt (h.done r hr).1⟩
    · obtain ⟨hlt, hevent, hout⟩ := he.fresh q u a (hold q u a hne hq)
      exact ⟨hlt, (update_of_ne hne ..).trans hevent, hout⟩
  · by_cases hqp : q = p
    · by_cases hxp : x = p
      · rw [hqp, hxp]
      · rw [hqp, hself] at heq
        exact absurd heq.symm (h.enter_ne hp (hold x v b hxp hx))
    by_cases hxp : x = p
    · rw [hxp, hself] at heq
      exact absurd heq (h.enter_ne hp (hold q u a hqp hq))
    · exact he.inj q x u v a b (hold q u a hqp hq) (hold x v b hxp hx) heq
  · by_cases hne : q = p
    · subst hne
      rw [hself, if_neg]
      · exact h.takes_next
      · change (Sleepers.waitCurrentSet q .eventSend (s.roused t)).wakeupFlags q ≠ .eventSend
        simp
    have hflags : (s.sent p t event timed).procs.wakeupFlags q = s.procs.wakeupFlags q := by
      change (Sleepers.waitCurrentSet p .eventSend (s.roused t)).wakeupFlags q = _
      rw [Sleepers.waitCurrentSet_wakeupFlags, if_neg hne, roused_wakeupFlags]
    rw [hflags]
    exact he.flight q u a (hold q u a hne hq)

end

lemma History.took {rest : List Nat} (hw : s.Waits) (hq : s.queue p = q :: rest) : (s.took p q rest).History := by
  have hmem : q ∈ s.queue p := hq ▸ List.mem_cons_self
  obtain ⟨event, timed, hcall⟩ := hw.inside p q hmem
  obtain ⟨hlt, hevent, hout⟩ := h.fresh q p event ⟨timed, hcall⟩
  have hnone : s.takes (s.ticket q) = [] := by
    rw [h.flight q p event ⟨timed, hcall⟩, (hw.queued p).flags q hmem]
    rfl
  have hthis : (s.took p q rest).takes (s.ticket q) = [⟨s.ticket q, p, q, event⟩] := by
    have hhead : (s.took p q rest).takes (s.ticket q) = ⟨s.ticket q, p, q, s.event q⟩ :: s.takes (s.ticket q) := by
      simp [takes, Events.took]
    rw [hhead, hnone, hevent]
  have hother : ∀ n, s.ticket q ≠ n → (s.took p q rest).takes n = s.takes n :=
    fun n hn => List.filter_cons_of_neg (by simpa using hn)
  refine ⟨h.fresh, h.inj, fun x t a hx => ?_, fun k hk => ?_, fun r hr => ⟨(h.done r hr).1, ?_⟩, h.distinct⟩
  · by_cases hxq : x = q
    · subst hxq
      obtain ⟨b, hb⟩ := hx
      rw [show s.call x = some (.send t a b) from hb] at hcall
      cases hcall
      rw [if_pos (by simp [Events.took])]
      exact hthis
    · have hflags : (s.took p q rest).procs.wakeupFlags x = s.procs.wakeupFlags x := by simp [Events.took, hxq]
      rw [hflags]
      refine (hother _ fun heq => ?_).trans (h.flight x t a hx)
      exact hxq (h.inj q x p t event a ⟨timed, hcall⟩ hx heq).symm
  · rcases List.mem_cons.mp hk with rfl | hold
    · exact hlt
    · exact h.bound k hold
  · rw [hother _ (hout r hr).symm]
    exact (h.done r hr).2

lemma History.ended {result : SendResult} {queue : Nat → List Nat} (hcall : s.call p = some (.send t event timed))
    (hresult : s.procs.wakeupFlags p = .eventSend ↔ result = .zero) :
    (({ s.leave p with queue := queue } : Events).returns p t event result).History := by
  have hself : s.Sends p t event := ⟨timed, hcall⟩
  have hne : ∀ q u a, (s.leave p).Sends q u a → q ≠ p := by
    rintro q u a ⟨b, hb⟩ rfl
    rw [show (s.leave q).call q = none from update_self ..] at hb
    cases hb
  have hold : ∀ q u a, (s.leave p).Sends q u a → s.Sends q u a := fun q u a hq => sends_of_ne (hne q u a hq) rfl hq
  obtain ⟨hlt, -, hout⟩ := h.fresh p t event hself
  refine ⟨fun q u a hq => ?_, fun q x u v a b hq hx => h.inj q x u v a b (hold q u a hq) (hold x v b hx),
    fun q u a hq => h.flight q u a (hold q u a hq), h.bound, fun r hr => ?_, ?_⟩
  · obtain ⟨hlt', hevent, hout'⟩ := h.fresh q u a (hold q u a hq)
    refine ⟨hlt', hevent, fun r hr => ?_⟩
    rcases List.mem_cons.mp hr with rfl | hr
    · exact fun heq => hne q u a hq (h.inj p q t u event a hself (hold q u a hq) heq).symm
    · exact hout' r hr
  · rcases List.mem_cons.mp hr with rfl | hr
    · refine ⟨hlt, (h.flight p t event hself).trans ?_⟩
      simp only [hresult]
      rfl
    · exact h.done r hr
  · refine List.nodup_cons.mpr ⟨fun hmem => ?_, h.distinct⟩
    obtain ⟨r, hr, heq⟩ := List.mem_map.mp hmem
    exact hout r hr heq

end

-- Runs

structure Ok (s : Events) : Prop where
  waits : s.Waits
  history : s.History

section

variable (h : s.Ok)
include h

lemma Ok.send (hp : s.Idle p) : ∃ s', s.ipcEventSend p t event timed = .ok s' ∧ s'.Ok := by
  rcases ipcEventSend_cases s p t event timed with heq | ⟨ht, -, heq⟩
  · exact ⟨_, heq, h.waits.frame ⟨rfl, rfl, rfl, rfl⟩, h.history.refused hp.2⟩
  · exact ⟨_, heq, h.waits.sent hp ht, h.history.sent hp.2⟩

lemma Ok.takeFirst : ∃ s', s.takeFirst p = .ok s' ∧ s'.Ok := by
  rcases takeFirst_cases h.waits with ⟨-, heq⟩ | ⟨q, rest, hq, heq⟩
  · exact ⟨s, heq, h⟩
  · exact ⟨_, heq, h.waits.took hq, h.history.took h.waits hq⟩

lemma Ok.recv (hp : s.Idle p) : ∃ s', s.recvEvent p timed = .ok s' ∧ s'.Ok := by
  by_cases hnil : s.queue p = []
  · refine ⟨s.asleep p timed, if_pos hnil, h.waits.asleep hp hnil, ?_⟩
    have hsends : ∀ q t event, (s.asleep p timed).Sends q t event → s.Sends q t event := by
      intro q t event hq
      refine sends_of_ne ?_ rfl hq
      rintro rfl
      obtain ⟨b, hb⟩ := hq
      rw [show (s.asleep q timed).call q = some .recv from update_self ..] at hb
      cases hb
    exact h.history.frame hsends (fun _ _ _ _ => rfl) ⟨rfl, rfl, rfl, rfl, rfl⟩
  · rw [recvEvent, if_neg hnil]
    exact h.takeFirst

lemma Ok.resume (hcall : s.call p ≠ none) (hwait : s.procs.waitState p = .none) :
    ∃ s', s.resume p late = .ok s' ∧ s'.Ok := by
  unfold Events.resume
  have hleave := h.waits.leave hwait
  cases hc : s.call p with
  | none => exact absurd hc hcall
  | some c =>
    cases c with
    | recv =>
      rw [← h.waits.erase_recv hc] at hleave
      have hsends : ∀ q t event, (s.leave p).Sends q t event → s.Sends q t event := by
        intro q t event hq
        refine sends_of_ne ?_ rfl hq
        rintro rfl
        obtain ⟨b, hb⟩ := hq
        rw [show (s.leave q).call q = none from update_self ..] at hb
        cases hb
      exact Ok.takeFirst ⟨hleave, h.history.frame hsends (fun _ _ _ _ => rfl) ⟨rfl, rfl, rfl, rfl, rfl⟩⟩
    | send t event timed =>
      rw [← h.waits.erase_eq hc] at hleave
      have hok : ∀ result, (s.procs.wakeupFlags p = .eventSend ↔ result = .zero) →
          (({ s.leave p with queue := update s.queue t ((s.queue t).erase p) } : Events).returns p t event result).Ok :=
        fun result hresult => ⟨hleave.frame ⟨rfl, rfl, rfl, rfl⟩, h.history.ended hc hresult⟩
      have hflags : s.procs.wakeupFlags p = .eventSend ∨ s.procs.wakeupFlags p = .interrupted := by
        by_cases hmem : p ∈ s.queue t
        · exact .inr ((h.waits.queued t).flags p hmem)
        · exact (h.waits.sender p t event timed hc hmem).2
      rcases hflags with hsent | hint
      · exact ⟨_, if_pos hsent, hok .zero (by simp [hsent])⟩
      have hfail : ipcCheckTimeout timed late ≠ .zero := by
        unfold ipcCheckTimeout
        split
        all_goals decide
      refine ⟨_, (if_neg ?_).trans (if_pos hint), hok _ (by simp [hint, hfail])⟩
      change s.procs.wakeupFlags p ≠ .eventSend
      rw [hint]
      decide

lemma Ok.interrupt (p : Nat) : ({ s with procs := s.procs.interrupt p } : Events).Ok :=
  ⟨h.waits.interrupt p,
    h.history.frame (fun _ _ _ hq => hq) (fun q _ _ _ => congrFun Sleepers.interrupt_wakeupFlags q)
      ⟨rfl, rfl, rfl, rfl, rfl⟩⟩

lemma Ok.exit (hp : s.Idle p) : ∃ s', s.exit p = .ok s' ∧ s'.Ok := by
  refine ⟨_, exit_eq h.waits hp, h.waits.exited hp, ?_⟩
  refine h.history.frame (fun _ _ _ hq => hq) (fun q _ _ _ => ?_) ⟨rfl, rfl, rfl, rfl, rfl⟩
  change (Sleepers.wakeupQueue .interrupted (s.queue p) s.procs).wakeupFlags q = _
  rw [Sleepers.wakeupQueue_wakeupFlags]
  split
  · rename_i hq
    exact ((h.waits.queued p).flags q hq).symm
  · rfl

lemma Ok.step (ha : s.Allowed e) : ∃ s', s.step e = .ok s' ∧ s'.Ok := by
  have hsame : ∀ q t event, s.Sends q t event → s.Sends q t event := fun _ _ _ hq => hq
  cases e with
  | send p t event timed => exact h.send ha
  | recv p timed => exact h.recv ha
  | resume p late => exact h.resume ha.1 ha.2
  | kill p => exact ⟨_, rfl, h.interrupt p⟩
  | expire p =>
    have hi := h.interrupt p
    exact ⟨_, rfl, hi.waits.frame ⟨rfl, rfl, rfl, rfl⟩,
      hi.history.frame hsame (fun _ _ _ _ => rfl) ⟨rfl, rfl, rfl, rfl, rfl⟩⟩
  | exit p => exact h.exit ha
  | reap p => exact ⟨_, rfl, h.waits.reap ha, h.history.frame hsame (fun _ _ _ _ => rfl) ⟨rfl, rfl, rfl, rfl, rfl⟩⟩
  | fork p => exact ⟨_, rfl, h.waits.fork ha, h.history.frame hsame (fun _ _ _ _ => rfl) ⟨rfl, rfl, rfl, rfl, rfl⟩⟩

end

lemma Initial.ok (h : s.Initial) : s.Ok := by
  have hcall : ∀ q c, s.call q ≠ some c := fun q c hc => by
    rw [h.call q] at hc
    cases hc
  have hsends : ∀ q t event, ¬ s.Sends q t event := fun q t event ⟨timed, hq⟩ => hcall q _ hq
  refine ⟨⟨fun t => ?_, fun t q hq => ?_, fun q t event timed hq => absurd hq (hcall q _),
    fun q hq => absurd hq (hcall q _),
    fun q _ => h.awake q, fun q hq => absurd (h.call q) hq, fun q _ => h.queue q⟩,
    ⟨fun q t event hq => absurd hq (hsends q t event), fun p q t u a b hp => absurd hp (hsends p t a),
      fun q t event hq => absurd hq (hsends q t event), fun k hk => ?_, fun r hr => ?_, ?_⟩⟩
  · rw [h.queue t]
    exact Sleepers.Queued.nil
  · rw [h.queue t] at hq
    cases hq
  · rw [h.taken] at hk
    cases hk
  · rw [h.returned] at hr
    cases hr
  · rw [h.returned]
    exact List.nodup_nil

lemma Reached.ok (h : Reached s) : s.Ok := by
  refine h.invariant (P := Ok) (fun _ => Initial.ok) fun s e s' hok ha hs => ?_
  grind [hok.step]

/-- A send that returned 0 was taken by exactly one receive of its target, and any other
send that returned by none. No process waits for an event while its queue is not empty.
-/
theorem event_rendezvous (h : Reached s) : (s.returned.map (·.ticket)).Nodup ∧
    (∀ r ∈ s.returned, r.result = .zero →
    s.taken.filter (·.ticket = r.ticket) = [⟨r.ticket, r.target, r.sender, r.event⟩]) ∧
    (∀ r ∈ s.returned, r.result ≠ .zero → ∀ k ∈ s.taken, k.ticket ≠ r.ticket) ∧
    (∀ p, s.procs.waitState p = .eventRecv → s.queue p = []) ∧
    (∀ p, s.life p = .zombie → s.queue p = []) ∧
    ∀ e, s.Allowed e → ∃ s', s.step e = .ok s' := by
  have hok := h.ok
  refine ⟨hok.history.distinct, fun r hr hzero => ?_, fun r hr hfail k hk heq => ?_,
    fun p hp => (hok.waits.receives hp).2,
    fun p hp => hok.waits.dead p (by rw [hp]; decide), fun e ha => ?_⟩
  · exact (hok.history.done r hr).2.trans (if_pos hzero)
  · have hnone := (hok.history.done r hr).2
    rw [if_neg hfail] at hnone
    have hmem : k ∈ s.takes r.ticket := List.mem_filter.mpr ⟨hk, by simpa using heq⟩
    rw [hnone] at hmem
    cases hmem
  · grind [hok.step]

instance : Decidable (Idle s p) := inferInstanceAs (Decidable (_ ∧ _))

instance (s : Events) (e : EventsEvent) : Decidable (s.Allowed e) := by
  unfold Allowed
  split <;> infer_instance

def quiet : Events where
  life _ := .alive
  special _ := false
  event _ := 0
  queue _ := []
  procs := ⟨fun _ => .none, fun _ => .none⟩
  call _ := none
  timer _ := false
  sends := 0
  ticket _ := 0
  taken := []
  returned := []

lemma quiet_initial : quiet.Initial := ⟨fun _ => rfl, fun _ => rfl, fun _ => rfl, rfl, rfl⟩

/-- A receiver waits, two processes send to it, and the second one is killed. The
receiver runs and takes the first. The first sender had timed out meanwhile, and
its send succeeds. -/
theorem event_rendezvous_late :
    ∃ s, Reached s ∧
    (∃ r ∈ s.returned, r.result = .zero ∧ r.event = 7 ∧ s.taken.filter (·.ticket = r.ticket) = [⟨r.ticket, 2, 1, 7⟩]) ∧
    ∃ r ∈ s.returned, r.result = .failed ∧ ∀ k ∈ s.taken, k.ticket ≠ r.ticket := by
  obtain ⟨s, hs, hreturned⟩ : ∃ s, Reached s ∧ s.returned = [⟨0, 1, 2, 7, .zero⟩, ⟨1, 3, 2, 8, .failed⟩] :=
    Reachable.exists_of_run
      [.recv 2 false, .send 1 2 7 true, .send 3 2 8 false, .kill 3, .expire 1, .resume 2
        false, .resume 3 false, .resume 1 true]
      quiet_initial (by decide +kernel)
  have h1 : ⟨0, 1, 2, 7, .zero⟩ ∈ s.returned := hreturned ▸ List.mem_cons_self
  have h2 : ⟨1, 3, 2, 8, .failed⟩ ∈ s.returned := hreturned ▸ List.mem_cons_of_mem _ (.head _)
  obtain ⟨-, hzero, hfail, -⟩ := event_rendezvous hs
  exact ⟨s, hs, ⟨_, h1, rfl, rfl, hzero _ h1 rfl⟩, _, h2, rfl, hfail _ h2 (by decide)⟩

end Ucore.Sync.Events
