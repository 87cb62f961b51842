import Mathlib.Data.List.Count
import Ucore.Sync.Sem

/-!
# Tokens of a semaphore

Every token is in the counter, was taken by a down, or was handed to a process that
waits.
-/

namespace Ucore.Sync.Sem

open Function Ucore.Lib

variable {s s' : Sem} {v : Int} {p q : Nat} {kind : WaitState} {timed : Bool}

structure Waits (s : Sem) : Prop where
  kind : s.kind = .ksem ∨ s.kind = .usem
  queued : Sleepers.Queued s.kind s.procs s.waitQueue
  queue_inside : ∀ p ∈ s.waitQueue, p ∈ s.inside
  nodup : s.inside.Nodup
  woken : ∀ p ∈ s.inside, p ∉ s.waitQueue → s.procs.waitState p = .none ∧
    (s.procs.wakeupFlags p = s.kind ∨ s.procs.wakeupFlags p = .interrupted ∧ s.kind = .usem)
  outside : ∀ p, p ∉ s.inside → s.procs.waitState p = .none
  hit : ∀ p ∈ s.waitQueue, s.hit p = true ↔ s.procs.waitState p = .none
  kernel : s.kind = .ksem → ∀ p, s.hit p = false ∧ s.timer p = false

structure Tokens (v : Int) (s : Sem) : Prop where
  range : -2147483648 ≤ s.value ∧ s.value < 2147483648
  sum : ∃ k : Int, s.value = v + s.ups - s.downs - s.granted + 4294967296 * k
  exact : v + s.ups < 2147483648 → s.value = v + s.ups - s.downs - s.granted
  pos : 0 < s.value → s.waitQueue = []

structure Order (s : Sem) : Prop where
  sorted : s.waitQueue.Pairwise fun p q => s.arrival p < s.arrival q
  past : ∀ p ∈ s.waitQueue, s.arrival p < s.clock

structure Ok (v : Int) (s : Sem) : Prop where
  waits : s.Waits
  tokens : s.Tokens v
  order : s.Order

lemma Waits.kind_ne (h : s.Waits) : s.kind ≠ .none ∧ s.kind ≠ .interrupted := by
  grind [h.kind]

lemma Waits.asleep (h : s.Waits) (hp : s.procs.waitState p ≠ .none) :
    p ∈ s.waitQueue ∧ s.procs.waitState p = s.kind := by
  have hin : p ∈ s.inside := by
    by_contra hout
    exact hp (h.outside p hout)
  have hq : p ∈ s.waitQueue := by
    by_contra hnot
    exact hp (h.woken p hin hnot).1
  exact ⟨hq, (h.queued.waits p hq).resolve_right hp⟩

lemma up_cases (hs : s.up = .ok s') : s.waitQueue = [] ∧ s' = { s with value := wrap (s.value + 1), ups := s.ups + 1 } ∨
      ∃ p rest, s.waitQueue = p :: rest ∧ s.procs.waitState p = s.kind ∧
        s' = { s with waitQueue := rest, procs := s.procs.wakeupWait s.kind p, ups := s.ups + 1 } := by
  unfold Sem.up at hs
  grind

lemma Waits.handOver {rest : List Nat} (h : s.Waits) (hq : s.waitQueue = p :: rest) :
    ({ s with waitQueue := rest, procs := s.procs.wakeupWait s.kind p, ups := s.ups + 1 } : Sem).Waits := by
  have hqueued : Sleepers.Queued s.kind s.procs (p :: rest) := hq ▸ h.queued
  have hrest : ∀ q ∈ rest, q ∈ s.waitQueue := fun q hmem => hq ▸ List.mem_cons_of_mem p hmem
  have hne : ∀ q ∈ rest, q ≠ p := fun q hmem heq => (List.nodup_cons.mp hqueued.nodup).1 (heq ▸ hmem)
  refine ⟨h.kind, hqueued.pop, fun q hmem => h.queue_inside q (hrest q hmem), h.nodup,
    fun q hin hnot => ?_, fun q hout => ?_,
    fun q hmem => ?_, h.kernel⟩
  · by_cases hqp : q = p
    · subst hqp
      exact ⟨by simp, .inl (by simp)⟩
    have hold : q ∉ s.waitQueue := by
      rw [hq]
      exact fun hmem => (List.mem_cons.mp hmem).elim hqp hnot
    simpa [hqp] using h.woken q hin hold
  · have hqp : q ≠ p := by
      rintro rfl
      exact hout (h.queue_inside _ (hq ▸ List.mem_cons_self))
    simpa [hqp] using h.outside q hout
  · simpa [hne q hmem] using h.hit q (hrest q hmem)

lemma Waits.granted_handOver {rest : List Nat} (h : s.Waits) (hq : s.waitQueue = p :: rest) :
    granted { s with waitQueue := rest, procs := s.procs.wakeupWait s.kind p, ups := s.ups + 1 } = s.granted + 1 := by
  have hp : p ∈ s.waitQueue := hq ▸ List.mem_cons_self
  have hin := h.queue_inside p hp
  have hflag : s.procs.wakeupFlags p ≠ s.kind := by
    rw [h.queued.flags p hp]
    exact h.kind_ne.2.symm
  unfold granted
  dsimp only
  have hperm := List.perm_cons_erase hin
  rw [hperm.countP_eq, hperm.countP_eq, List.countP_cons_of_pos (by simp),
    List.countP_cons_of_neg (by simpa using hflag)]
  refine congrArg (· + 1) (List.countP_congr fun q hmem => ?_)
  have hqp : q ≠ p := fun heq => (h.nodup.not_mem_erase) (heq ▸ hmem)
  simp [hqp]

lemma Ok.up (h : Ok v s) (hs : s.up = .ok s') : Ok v s' := by
  obtain ⟨hw, ht, ho⟩ := h
  rcases up_cases hs with ⟨hq, rfl⟩ | ⟨p, rest, hq, -, rfl⟩
  · obtain ⟨⟨hlo, hhi⟩, ⟨k, hsum⟩, hexact, -⟩ := ht
    refine ⟨⟨hw.kind, hw.queued, hw.queue_inside, hw.nodup, hw.woken, hw.outside, hw.hit,
      hw.kernel⟩, ⟨?_, ?_, ?_, fun _ => hq⟩,
      ho.sorted, ho.past⟩
    · dsimp only [wrap]
      omega
    · refine ⟨k - (s.value + 1 + 2147483648) / 4294967296, ?_⟩
      dsimp only [wrap, granted] at hsum ⊢
      push_cast
      omega
    · grind [granted, wrap]
  · have hgranted := hw.granted_handOver hq
    have hnot : ¬ 0 < s.value := fun hpos => by
      rw [ht.pos hpos] at hq
      cases hq
    have hsub : rest.Sublist s.waitQueue := hq ▸ List.sublist_cons_self p rest
    obtain ⟨hrange, ⟨k, hsum⟩, hexact, -⟩ := ht
    refine ⟨hw.handOver hq, ⟨hrange, ⟨k, ?_⟩, fun hlt => ?_, fun hpos => absurd hpos hnot⟩, ho.sorted.sublist hsub,
      fun q hmem => ho.past q (hsub.subset hmem)⟩
    · rw [hgranted]
      push_cast
      omega
    · rw [hgranted]
      push_cast at hlt ⊢
      have hold := hexact (by omega)
      omega

lemma Ok.take (h : Ok v s) (hpos : 0 < s.value) : Ok v { s with value := s.value - 1, downs := s.downs + 1 } := by
  obtain ⟨hw, ⟨hrange, ⟨k, hsum⟩, hexact, hempty⟩, ho⟩ := h
  refine ⟨⟨hw.kind, hw.queued, hw.queue_inside, hw.nodup, hw.woken, hw.outside, hw.hit, hw.kernel⟩,
    ⟨?_, ⟨k, ?_⟩, fun hlt => ?_, fun _ => hempty hpos⟩, ho.sorted, ho.past⟩
  · dsimp only
    omega
  · dsimp only [granted] at hsum ⊢
    push_cast
    omega
  · have hold := hexact hlt
    dsimp only [granted] at hold ⊢
    push_cast
    omega

def slept (p : Nat) (timed : Bool) (s : Sem) : Sem :=
  { s with
    waitQueue := s.waitQueue ++ [p]
    procs := s.procs.waitCurrentSet p s.kind
    inside := p :: s.inside
    timer := update s.timer p timed
    hit := update s.hit p false
    arrival := update s.arrival p s.clock
    clock := s.clock + 1 }

lemma Waits.slept (h : s.Waits) (hp : p ∉ s.inside) (htimed : timed = true → s.kind = .usem) :
    (s.slept p timed).Waits := by
  have hpq : p ∉ s.waitQueue := fun hmem => hp (h.queue_inside p hmem)
  have hne : ∀ q ∈ s.inside, q ≠ p := fun q hq heq => hp (heq ▸ hq)
  have hold : ∀ q, q ≠ p → q ∈ s.waitQueue ++ [p] → q ∈ s.waitQueue := fun q hqp hq =>
    (List.mem_append.mp hq).resolve_right fun hmem => hqp (List.mem_singleton.mp hmem)
  refine ⟨h.kind, h.queued.push hpq, fun q hq => ?_, List.nodup_cons.mpr ⟨hp, h.nodup⟩,
    fun q hin hnot => ?_, fun q hout => ?_,
    fun q hq => ?_, fun hk q => ?_⟩
  · by_cases hqp : q = p
    · exact hqp ▸ List.mem_cons_self
    · exact .tail p (h.queue_inside q (hold q hqp hq))
  · have hqp : q ≠ p := by
      rintro rfl
      exact hnot (List.mem_append_right _ (.head _))
    have hin' : q ∈ s.inside := (List.mem_cons.mp hin).resolve_left hqp
    simpa [Sem.slept, hqp] using h.woken q hin' fun hmem => hnot (List.mem_append_left _ hmem)
  · have hqp : q ≠ p := by
      rintro rfl
      exact hout (.head _)
    simpa [Sem.slept, hqp] using h.outside q fun hmem => hout (.tail p hmem)
  · by_cases hqp : q = p
    · subst hqp
      simp [Sem.slept, h.kind_ne.1]
    · simpa [Sem.slept, hqp] using h.hit q (hold q hqp hq)
  · by_cases hqp : q = p
    · subst hqp
      have hfalse : timed = false := by
        by_contra htrue
        have husem := htimed (by simpa using htrue)
        rw [show s.kind = .ksem from hk] at husem
        cases husem
      simp [Sem.slept, hfalse]
    · simpa [Sem.slept, hqp] using h.kernel hk q

lemma Waits.granted_slept (h : s.Waits) (timed : Bool) (hp : p ∉ s.inside) : (s.slept p timed).granted = s.granted := by
  unfold granted
  change (p :: s.inside).countP (fun q => (s.procs.waitCurrentSet p s.kind).wakeupFlags q = s.kind) = _
  rw [List.countP_cons_of_neg (by simpa using h.kind_ne.2.symm)]
  refine List.countP_congr fun q hq => ?_
  have hqp : q ≠ p := fun heq => hp (heq ▸ hq)
  simp [hqp]

lemma Order.slept (h : s.Order) (hp : p ∉ s.waitQueue) : (s.slept p timed).Order := by
  have hne : ∀ q ∈ s.waitQueue, update s.arrival p s.clock q = s.arrival q := by
    intro q hq
    have hqp : q ≠ p := fun heq => hp (heq ▸ hq)
    exact update_of_ne hqp ..
  refine ⟨?_, fun q hq => ?_⟩
  · refine List.pairwise_append.mpr ⟨?_, List.pairwise_singleton .., fun a ha b hb => ?_⟩
    · refine h.sorted.imp_of_mem fun {a b} ha hb hlt => ?_
      change update s.arrival p s.clock a < update s.arrival p s.clock b
      rwa [hne a ha, hne b hb]
    · change update s.arrival p s.clock a < update s.arrival p s.clock b
      rw [List.mem_singleton.mp hb, update_self, hne a ha]
      exact h.past a ha
  · change update s.arrival p s.clock q < s.clock + 1
    rcases List.mem_append.mp hq with hmem | hmem
    · rw [hne q hmem]
      exact Nat.lt_succ_of_lt (h.past q hmem)
    · grind

lemma Ok.down (h : Ok v s) (hp : p ∉ s.inside) (htimed : timed = true → s.kind = .usem)
    (hs : s.down p timed = .ok s') : Ok v s' := by
  unfold Sem.down at hs
  split at hs
  · cases hs
  split at hs
  · rename_i hpos
    cases hs
    exact h.take hpos
  rename_i hpos
  cases hs
  obtain ⟨hw, ⟨hrange, ⟨k, hsum⟩, hexact, hempty⟩, ho⟩ := h
  have hgranted := hw.granted_slept timed hp
  refine ⟨hw.slept hp htimed, ⟨hrange, ⟨k, ?_⟩, fun hlt => ?_, fun hpos' => absurd hpos' hpos⟩,
    ho.slept fun hmem => hp (hw.queue_inside p hmem)⟩
  · exact hgranted.symm ▸ hsum
  · exact hgranted.symm ▸ hexact hlt

def left (p : Nat) (s : Sem) : Sem :=
  { s with timer := update s.timer p false, waitQueue := s.waitQueue.erase p, inside := s.inside.erase p }

lemma resume_cases (hs : s.resume p = .ok s') :
    s.procs.wakeupFlags p = s.kind ∧ s' = { s.left p with downs := s.downs + 1 } ∨
      (s.kind = .usem ∧ s.procs.wakeupFlags p = .interrupted) ∧ s' = s.left p := by
  unfold resume at hs
  grind [left]

lemma Waits.left (h : s.Waits) (hrun : s.procs.waitState p = .none) : (s.left p).Waits := by
  have hq : ∀ q, q ∈ s.waitQueue.erase p ↔ q ≠ p ∧ q ∈ s.waitQueue := fun q => h.queued.nodup.mem_erase_iff
  have hin : ∀ q, q ∈ s.inside.erase p ↔ q ≠ p ∧ q ∈ s.inside := fun q => h.nodup.mem_erase_iff
  refine ⟨h.kind, h.queued.sublist List.erase_sublist, fun q hmem => ?_, h.nodup.erase p,
    fun q hmem hnot => ?_, fun q hout => ?_,
    fun q hmem => h.hit q ((hq q).mp hmem).2, fun hk q => ⟨(h.kernel hk q).1, ?_⟩⟩
  · obtain ⟨hne, hmem⟩ := (hq q).mp hmem
    exact (hin q).mpr ⟨hne, h.queue_inside q hmem⟩
  · obtain ⟨hne, hmem⟩ := (hin q).mp hmem
    exact h.woken q hmem fun hmem' => hnot ((hq q).mpr ⟨hne, hmem'⟩)
  · by_cases hqp : q = p
    · exact hqp ▸ hrun
    · exact h.outside q fun hmem => hout ((hin q).mpr ⟨hqp, hmem⟩)
  · change update s.timer p false q = false
    by_cases hqp : q = p
    · rw [hqp, update_self]
    · rw [update_of_ne hqp]
      exact (h.kernel hk q).2

lemma granted_left (hp : p ∈ s.inside) :
    s.granted = (s.left p).granted + if s.procs.wakeupFlags p = s.kind then 1 else 0 := by
  unfold granted
  rw [(List.perm_cons_erase hp).countP_eq, List.countP_cons]
  simp only [decide_eq_true_eq]
  rfl

lemma Order.left (h : s.Order) : (s.left p).Order :=
  ⟨h.sorted.sublist List.erase_sublist, fun q hq => h.past q (List.mem_of_mem_erase hq)⟩

lemma Ok.resume (h : Ok v s) (hp : p ∈ s.inside) (hrun : s.procs.waitState p = .none)
    (hs : s.resume p = .ok s') : Ok v s' := by
  obtain ⟨hw, ⟨hrange, ⟨k, hsum⟩, hexact, hempty⟩, ho⟩ := h
  have hgranted := granted_left hp
  have hpos : 0 < s.value → s.waitQueue.erase p = [] := fun hpos => by rw [hempty hpos]; rfl
  have hw' := hw.left hrun
  rcases resume_cases hs with ⟨hflag, rfl⟩ | ⟨⟨hk, hflag⟩, rfl⟩
  · rw [if_pos hflag] at hgranted
    refine ⟨⟨hw'.kind, hw'.queued, hw'.queue_inside, hw'.nodup, hw'.woken, hw'.outside, hw'.hit, hw'.kernel⟩,
      ⟨hrange, ⟨k, ?_⟩, fun hlt => ?_, hpos⟩, ⟨ho.left.sorted, ho.left.past⟩⟩
    · change s.value = v + s.ups - (s.downs + 1 : Nat) - (s.left p).granted + 4294967296 * k
      omega
    · have hold := hexact hlt
      change s.value = v + s.ups - (s.downs + 1 : Nat) - (s.left p).granted
      omega
  rw [if_neg (by rw [hflag]; exact hw.kind_ne.2.symm)] at hgranted
  refine ⟨hw', ⟨hrange, ⟨k, ?_⟩, fun hlt => ?_, hpos⟩, ho.left⟩
  · change s.value = v + s.ups - s.downs - (s.left p).granted + 4294967296 * k
    omega
  · have hold := hexact hlt
    change s.value = v + s.ups - s.downs - (s.left p).granted
    omega

lemma Waits.canInterrupt (h : s.Waits) (p : Nat) :
    (s.procs.waitState p).canInterrupt = true ↔ s.kind = .usem ∧ s.procs.waitState p ≠ .none := by
  by_cases hnone : s.procs.waitState p = .none
  · simp [hnone, WaitState.canInterrupt]
  · rw [(h.asleep hnone).2]
    grind [WaitState.canInterrupt, h.kind]

lemma Waits.kill (h : s.Waits) (p : Nat) : (s.kill p).Waits := by
  have hnone : ∀ q, s.procs.waitState q = .none → (s.procs.interrupt p).waitState q = .none := by
    intro q hq
    rcases Sleepers.interrupt_cases (s := s.procs) (p := p) (q := q) with heq | heq
    · rw [heq, hq]
    · exact heq
  refine ⟨h.kind, h.queued.interrupt p, h.queue_inside, h.nodup, fun q hin hnot => ?_,
    fun q hout => hnone q (h.outside q hout),
    fun q hmem => ?_, fun hk q => ⟨?_, (h.kernel hk q).2⟩⟩
  · obtain ⟨hstate, hflag⟩ := h.woken q hin hnot
    refine ⟨hnone q hstate, ?_⟩
    change (s.procs.interrupt p).wakeupFlags q = s.kind ∨
      (s.procs.interrupt p).wakeupFlags q = .interrupted ∧ s.kind = .usem
    rwa [Sleepers.interrupt_wakeupFlags]
  · change update s.hit p (s.hit p || (s.procs.waitState p).canInterrupt) q = true ↔
      (s.procs.interrupt p).waitState q = .none
    rw [Sleepers.interrupt_waitState]
    by_cases hqp : q = p
    · subst hqp
      by_cases hc : (s.procs.waitState q).canInterrupt = true
      · simp [hc]
      · simp [hc, h.hit q hmem]
    · simp [hqp, h.hit q hmem]
  · change update s.hit p (s.hit p || (s.procs.waitState p).canInterrupt) q = false
    by_cases hqp : q = p
    · subst hqp
      have hc : ¬ (s.procs.waitState q).canInterrupt = true := by
        rw [h.canInterrupt q]
        rintro ⟨husem, -⟩
        rw [show s.kind = .ksem from hk] at husem
        cases husem
      simpa using ⟨(h.kernel hk q).1, by simpa using hc⟩
    · rw [update_of_ne hqp]
      exact (h.kernel hk q).1

lemma granted_kill : (s.kill p).granted = s.granted := by
  unfold granted Sem.kill
  simp

lemma Ok.kill (h : Ok v s) (p : Nat) : Ok v (s.kill p) :=
  ⟨h.waits.kill p, ⟨h.tokens.range, granted_kill.symm ▸ h.tokens.sum, granted_kill.symm ▸ h.tokens.exact, h.tokens.pos⟩,
    h.order.sorted, h.order.past⟩

lemma Ok.expire (h : Ok v s) (hs : s.expire p = .ok s') : Ok v s' := by
  unfold Sem.expire at hs
  split at hs
  · cases hs
  · cases hs
    have hk := h.kill p
    have hw := hk.waits
    refine ⟨⟨hw.kind, hw.queued, hw.queue_inside, hw.nodup, hw.woken, hw.outside, hw.hit,
      fun hkind q => ⟨(hw.kernel hkind q).1, ?_⟩⟩,
      ⟨hk.tokens.range, hk.tokens.sum, hk.tokens.exact, hk.tokens.pos⟩, hk.order.sorted, hk.order.past⟩
    change update s.timer p false q = false
    by_cases hqp : q = p
    · rw [hqp, update_self]
    · rw [update_of_ne hqp]
      exact (h.waits.kernel hkind q).2

lemma Ok.free (h : Ok v s) (hk : s.kind = .usem) : Ok v s.free := by
  have hw := h.waits
  have hflags : ∀ q, (s.procs.wakeupQueue .interrupted s.waitQueue).wakeupFlags q = s.procs.wakeupFlags q := by
    intro q
    rw [Sleepers.wakeupQueue_wakeupFlags]
    split
    · rename_i hmem
      exact (hw.queued.flags q hmem).symm
    · rfl
  have hgranted : s.free.granted = s.granted := by
    unfold granted Sem.free
    simp only [hflags]
  refine ⟨⟨hw.kind, .nil, (fun q hq => by cases hq), hw.nodup, fun q hin _ => ?_, fun q hout => ?_,
    (fun q hq => by cases hq), hw.kernel⟩,
    ⟨h.tokens.range, hgranted.symm ▸ h.tokens.sum, hgranted.symm ▸ h.tokens.exact, fun _ => rfl⟩,
      List.Pairwise.nil, (fun q hq => by cases hq)⟩
  · change (s.procs.wakeupQueue .interrupted s.waitQueue).waitState q = .none ∧ _
    rw [Sleepers.wakeupQueue_waitState]
    change _ ∧ ((s.procs.wakeupQueue .interrupted s.waitQueue).wakeupFlags q = s.kind ∨
      (s.procs.wakeupQueue .interrupted s.waitQueue).wakeupFlags q = .interrupted ∧ s.kind = .usem)
    rw [hflags]
    by_cases hmem : q ∈ s.waitQueue
    · grind [hw.queued.flags]
    · rw [if_neg hmem]
      exact hw.woken q hin hmem
  · change (s.procs.wakeupQueue .interrupted s.waitQueue).waitState q = .none
    rw [Sleepers.wakeupQueue_waitState]
    split
    · rfl
    · exact hw.outside q hout

lemma Ok.step {e : Event} (h : Ok v s) (ha : s.Allowed e) (hs : s.step e = .ok s') : Ok v s' := by
  cases e with
  | up => exact h.up hs
  | down p timed => exact h.down ha.2.1 ha.2.2 hs
  | tryDown =>
    cases hs
    grind [tryDown, h.take]
  | resume p => exact h.resume ha.1 ha.2 hs
  | kill p =>
    cases hs
    exact h.kill p
  | expire p => exact h.expire hs
  | free =>
    cases hs
    exact h.free ha.2

lemma init_ok (hkind : kind = .ksem ∨ kind = .usem) (hv : -2147483648 ≤ v ∧ v < 2147483648) : Ok v (init kind v) := by
  refine ⟨⟨hkind, .nil, (fun p hp => by cases hp), List.nodup_nil, (fun p hp => by cases hp),
    fun _ _ => rfl, (fun p hp => by cases hp),
    fun _ _ => ⟨rfl, rfl⟩⟩, ⟨hv, ⟨0, ?_⟩, fun _ => ?_, fun _ => rfl⟩, List.Pairwise.nil, (fun p hp => by cases hp)⟩
  all_goals simp [init, granted]

lemma Reached.ok (h : Reached kind v s) : Ok v s := by
  refine h.invariant (P := Ok v) ?_ fun s e s' hok => hok.step
  rintro _ ⟨hkind, hv, rfl⟩
  exact init_ok hkind hv

/-- The counter is the initial value plus the ups minus the downs that took a token. A
positive counter means an empty queue, and an up wakes the process that has waited
longest. -/
theorem tokens_conserved (h : Reached kind v s) : s.value = wrap (v + s.ups - (s.downs + s.granted)) ∧
    (v + s.ups < 2147483648 → s.value = v + s.ups - (s.downs + s.granted)) ∧
    (0 < s.value → s.waitQueue = []) ∧
    (s.waitQueue.Pairwise fun p q => s.arrival p < s.arrival q) ∧
    (∀ p rest s', s.waitQueue = p :: rest → s.up = .ok s' →
    s'.waitQueue = rest ∧ s'.procs.wakeupFlags p = s.kind ∧ s'.value = s.value ∧ s'.granted = s.granted + 1) ∧
    ∀ p s', s.Allowed (.resume p) → s.resume p = .ok s' → s'.value = s.value ∧ s'.ups = s.ups ∧
    (s.procs.wakeupFlags p = s.kind ∧ s'.downs = s.downs + 1 ∧ s.granted = s'.granted + 1 ∨
    s.procs.wakeupFlags p = .interrupted ∧ s'.downs = s.downs ∧ s'.granted = s.granted) := by
  have hok := h.ok
  obtain ⟨hw, ⟨⟨hlo, hhi⟩, ⟨k, hsum⟩, hexact, hempty⟩, ho⟩ := hok
  refine ⟨?_, fun hlt => ?_, hempty, ho.sorted, fun p rest s' hq hs => ?_, fun p s' ha hs => ?_⟩
  · unfold wrap
    omega
  · have hold := hexact hlt
    omega
  · rcases up_cases hs with ⟨hnil, -⟩ | ⟨p', rest', hq', -, rfl⟩
    · rw [hq] at hnil
      cases hnil
    · obtain ⟨rfl, rfl⟩ := List.cons.inj (hq.symm.trans hq')
      exact ⟨rfl, by simp, rfl, hw.granted_handOver hq⟩
  · have hgranted := granted_left ha.1
    rcases resume_cases hs with ⟨hflag, rfl⟩ | ⟨⟨hk, hflag⟩, rfl⟩
    · rw [if_pos hflag] at hgranted
      exact ⟨rfl, rfl, .inl ⟨hflag, rfl, hgranted⟩⟩
    · rw [if_neg (by rw [hflag]; exact hw.kind_ne.2.symm)] at hgranted
      exact ⟨rfl, rfl, .inr ⟨hflag, rfl, hgranted.symm⟩⟩

theorem tokens_conserved_waiters : ∃ s, Reached .usem 0 s ∧ (s.waitQueue = [2] ∧ s.granted = 1 ∧ s.ups = 1) ∧
    s.value = 0 + s.ups - (s.downs + s.granted) := by
  obtain ⟨s, hs, hq⟩ : ∃ s, Reached .usem 0 s ∧ s.waitQueue = [2] ∧ s.granted = 1 ∧ s.ups = 1 :=
    Reachable.exists_of_run [.down 1 false, .down 2 true, .up, .kill 1] ⟨.inr rfl, by decide, rfl⟩ (by decide +kernel)
  exact ⟨s, hs, hq, (tokens_conserved hs).2.1 (by rw [hq.2.2]; decide)⟩

/-- One up of a semaphore that holds the largest `int`. -/
theorem up_overflows : ∃ s, Reached .usem 2147483647 s ∧ s.ups = 1 ∧ s.value = -2147483648 ∧
    s.value ≠ 2147483647 + s.ups - (s.downs + s.granted) :=
  Reachable.exists_of_run [.up] ⟨.inr rfl, by decide, rfl⟩ (by decide +kernel)

def HeadAsleep (s : Sem) : Prop := ∀ p, s.waitQueue.head? = some p → s.hit p = false

/-- An up passes its assertion if and only if neither a timer nor a kill has woken the
process it wants to wake. -/
theorem up_asserts_iff (h : Reached kind v s) (ha : s.Allowed .up) :
    ((∃ s', s.step .up = .ok s') ↔ s.HeadAsleep) ∧ (s.kind = .ksem → s.HeadAsleep) := by
  have hw := h.ok.waits
  have hvalid : ¬ s.valid = false := by
    rw [show s.valid = true from ha]
    decide
  refine ⟨?_, fun hk p _ => (hw.kernel hk p).1⟩
  change (∃ s', s.up = .ok s') ↔ _
  unfold Sem.up HeadAsleep
  rw [if_neg hvalid]
  cases hq : s.waitQueue with
  | nil => simp
  | cons p rest =>
    have hp : p ∈ s.waitQueue := hq ▸ List.mem_cons_self
    have hhit := hw.hit p hp
    rcases hw.queued.waits p hp with hstate | hstate
    · have hfalse : s.hit p = false := by
        rw [Bool.eq_false_iff, Ne, hhit, hstate]
        exact hw.kind_ne.1
      simp [hstate, hfalse]
    · simp [hstate, hhit.mpr hstate, hw.kind_ne.1.symm]

theorem up_asserts_waiter : ∃ s, Reached .usem 0 s ∧ (s.waitQueue = [1] ∧ s.HeadAsleep) ∧ ∃ s', s.step .up = .ok s' := by
  obtain ⟨s, hs, hqueue, hhit, ha⟩ : ∃ s, Reached .usem 0 s ∧ s.waitQueue = [1] ∧ s.hit 1 = false ∧ s.Allowed .up :=
    Reachable.exists_of_run [.down 1 true] ⟨.inr rfl, by decide, rfl⟩ (by decide +kernel)
  have hhead : s.HeadAsleep := by
    intro p hp
    rw [hqueue] at hp
    exact Option.some.inj hp ▸ hhit
  exact ⟨s, hs, ⟨hqueue, hhead⟩, (up_asserts_iff hs ha).1.mpr hhead⟩

/-- The timer of a process expires, and before the process runs another one
calls `ipc_sem_post`. -/
theorem up_after_timeout : ∃ s, Reached .usem 0 s ∧ s.Allowed .up ∧ s.step .up = .error .assertion :=
  Reachable.exists_of_run [.down 1 true, .expire 1] ⟨.inr rfl, by decide, rfl⟩ (by decide +kernel)

end Ucore.Sync.Sem
