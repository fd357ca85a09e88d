import ComposableAsync.Concurrent.QueueHistory

/-!
# The consumer reaches the next item

While no producer is between its Exchange and the end of its `NotifyOne`, a
consumer with an item to take is never blocked, and each of its own steps brings
it nearer to `onItem`. The rank counts the steps that are left, through a retired
wait and the pumping of a spurious permit if need be.
-/
namespace ComposableAsync.Concurrent
open Foundations

/-- A bound on the steps to `onItem` once a link is there. -/
def Consumer.rank {T X : Type} : Consumer T X → ℕ
  | .onItem _ | .ended _ => 0
  | .handing _ => 1
  | .take => 2
  | .test | .retireLock .found => 3
  | .spin | .readInWait .found => 4
  | .setSpurious .found => 5
  | .retest => 6
  | .readEpoch => 7
  | .setInWait => 8
  | .waitOne => 9
  | .clearSpurious => 10
  | .readSpurious => 11
  | .waiting | .retireLock .stale => 12
  | .readInWait .stale => 13
  | .setSpurious .stale => 14
  | .compareEpoch => 15

/-- A bound on the steps left in `Enqueue`. -/
def Producer.rank {T : Type} : Producer T → ℕ
  | .enter _ => 7
  | .create _ => 6
  | .exchange _ _ => 5
  | .store _ _ _ => 4
  | .notify _ => 3
  | .lock _ => 2
  | .release _ => 1
  | .idle | .returned _ | .canceled _ | .raised _ _ => 0

/-- Outside `Enqueue`. -/
def Producer.AtRest {T : Type} : Producer T → Prop
  | .idle | .returned _ | .canceled _ | .raised _ _ => True
  | .enter _ | .create _ | .exchange _ _ | .store _ _ _ | .notify _ | .lock _ | .release _ => False

namespace Blocking
variable {P T X : Type} {s t : Blocking P T X}

/-- No producer is between its Exchange and the end of its `NotifyOne`. -/
structure Quiescent (s : Blocking P T X) : Prop where
  store : ∀ p item n prev, s.producers p ≠ .store item n prev
  notify : ∀ p item, s.producers p ≠ .notify item ∧ s.producers p ≠ .lock item ∧
    s.producers p ≠ .release item

theorem rank_consumeStep {yields : Bool} (hlink : s.list.tailNext.isSome = true)
    (hloop : s.consumer.Looping) (h : s.consumeStep yields = some t) :
    t.consumer.rank < s.consumer.rank := by
  obtain ⟨n, hn⟩ := Option.isSome_iff_exists.mp hlink
  cases hc : s.consumer with
  | handing _ | onItem _ | ended _ =>
      rw [hc] at hloop
      exact hloop.elim
  | spin | test | take | retest =>
      simp only [consumeStep, hc, hn, Option.isNone_some, Bool.false_and, Bool.false_eq_true,
        if_false, Option.isSome_some, if_true, Option.some.injEq] at h
      subst h
      simp [Consumer.rank]
  | clearSpurious | setInWait | readEpoch =>
      simp only [consumeStep, hc, Option.some.injEq] at h
      subst h
      simp [Consumer.rank]
  | readSpurious | compareEpoch =>
      simp only [consumeStep, hc, Option.some.injEq] at h
      subst h
      dsimp only
      split <;> simp [Consumer.rank]
  | setSpurious k | retireLock k =>
      simp only [consumeStep, hc, Option.some.injEq] at h
      subst h
      cases k <;> simp [Consumer.rank]
  | readInWait k =>
      simp only [consumeStep, hc, Option.some.injEq] at h
      subst h
      dsimp only
      cases k <;> split <;> simp [Consumer.rank]
  | waitOne =>
      simp only [consumeStep, hc, Option.map_eq_some_iff] at h
      obtain ⟨ec, -, rfl⟩ := h
      simp [Consumer.rank]
  | waiting =>
      simp only [consumeStep, hc] at h
      split at h
      · cases h
        simp [Consumer.rank]
      · split at h
        · cases h
          simp [Consumer.rank]
        · cases h

theorem produceStep_enabled (s : Blocking P T X) {pc : Producer T} (h : ¬ pc.AtRest) :
    ∃ pc' t, s.produceStep pc = some (pc', t) := by
  cases pc with
  | idle | returned _ | canceled _ | raised _ _ => exact (h trivial).elim
  | enter _ | create _ | exchange _ _ | store _ _ _ | notify _ | lock _ => exact ⟨_, _, rfl⟩
  | release _ =>
      simp only [produceStep]
      split <;> exact ⟨_, _, rfl⟩

theorem rank_produceStep {pc pc' : Producer T} (h : s.produceStep pc = some (pc', t)) :
    pc'.rank < pc.rank ∧ t.consumer = s.consumer := by
  cases pc with
  | idle | returned _ | canceled _ | raised _ _ => cases h
  | create _ | exchange _ _ | store _ _ _ =>
      cases h
      simp [Producer.rank]
  | enter _ | notify _ | lock _ =>
      simp only [produceStep, Option.some.injEq, Prod.mk.injEq] at h
      obtain ⟨rfl, rfl⟩ := h
      split <;> simp [Producer.rank]
  | release _ =>
      simp only [produceStep] at h
      split at h <;> cases h <;> simp [Producer.rank]

variable [Inhabited T] [DecidableEq P]

theorem tailNext_of_pending (hr : (machine : Machine (Blocking P T X) _).Reachable s)
    (hq : s.Quiescent) (hloop : s.consumer.Looping) (hp : s.pending ≠ []) :
    s.list.tailNext.isSome = true := by
  by_contra hnone
  have hwriters : ∀ p n prev, s.mpsc.writers p ≠ .exchanged n prev := by
    intro p n prev h
    obtain ⟨item, h⟩ := Producer.writer_eq_exchanged.mp h
    exact hq.store p item n prev h
  have hlink : s.mpsc.list.tailNext = none := Option.not_isSome_iff_eq_none.mp hnone
  have hall : s.delivered = s.exchanged :=
    ((mpsc_inv hr).all_delivered hwriters hloop.inHand hlink).1
  have heq := exchanged_eq hr
  rw [hloop.inHand, ← hall] at heq
  exact hp (by simpa using heq)

theorem permits_of_pending (hr : (machine : Machine (Blocking P T X) _).Reachable s)
    (hq : s.Quiescent) (hc : s.consumer = .waiting) (hp : s.pending ≠ []) :
    0 < s.events.permits := by
  apply Nat.pos_of_ne_zero
  intro hzero
  have hall : s.delivered = s.exchanged := (delivered_of_asleep hr hc hzero hq.store hq.notify).1
  have heq := exchanged_eq hr
  rw [hc, ← hall] at heq
  exact hp (by simpa [Consumer.inHand] using heq)

/-- A consumer with an item to take is not blocked. -/
theorem consumeStep_enabled (hr : (machine : Machine (Blocking P T X) _).Reachable s)
    (hq : s.Quiescent) (hloop : s.consumer.Looping) (hp : s.pending ≠ []) (yields : Bool) :
    (s.consumeStep yields).isSome = true := by
  cases hc : s.consumer with
  | handing _ | onItem _ | ended _ =>
      rw [hc] at hloop
      exact hloop.elim
  | spin | take =>
      simp only [consumeStep, hc]
      split <;> rfl
  | test | retest | readSpurious | clearSpurious | setInWait | readEpoch | setSpurious _
  | readInWait _ | retireLock _ | compareEpoch => simp only [consumeStep, hc, Option.isSome_some]
  | waitOne =>
      have hpermit : 0 < s.events.permits := by
        by_contra hempty
        obtain ⟨p, item, hrelease⟩ := releasing_of_pump hr hc (Nat.eq_zero_of_not_pos hempty)
        exact (hq.notify p item).2.2 hrelease
      simp only [consumeStep, hc, Option.isSome_map, EventCount.waitOne, if_pos hpermit,
        Option.isSome_some]
  | waiting =>
      have hpermit := permits_of_pending hr hq hc hp
      simp only [consumeStep, hc, EventCount.waitOne, if_pos hpermit, Option.isSome_some]

omit [Inhabited T] [DecidableEq P] in
theorem Quiescent.of_producers (hq : s.Quiescent) (h : t.producers = s.producers) :
    t.Quiescent := by
  refine ⟨?_, ?_⟩
  · rw [h]
    exact hq.store
  · rw [h]
    exact hq.notify

omit [Inhabited T] [DecidableEq P] in
/-- A step of a thread inside `Enqueue` or `OnElements`. -/
def IsServing : BlockingAct P T X → Prop
  | .produce _ | .consume _ | .itemReturns => True
  | .enqueue _ _ | .finish _ | .itemThrows _ | .completeAdding | .disposeSource
  | .disposeSemaphore => False

theorem leads_onItem {item : T} {rest : List T}
    (hr : (machine : Machine (Blocking P T X) _).Reachable s) (hq : s.Quiescent)
    (hloop : s.consumer.Looping) (hp : s.pending = item :: rest) :
    ∃ t, machine.Leads IsServing s t ∧ t.consumer = .onItem item ∧ t.pending = rest ∧
      t.producers = s.producers := by
  induction hrank : s.consumer.rank using Nat.strong_induction_on generalizing s with
  | h k ih =>
      subst hrank
      have hne : s.pending ≠ [] := by simp [hp]
      obtain ⟨u, hu⟩ := Option.isSome_iff_exists.mp (consumeStep_enabled hr hq hloop hne true)
      have hstep : machine.step s (.consume true) = some u := hu
      have hlead : machine.Leads IsServing s u := Machine.leads_single (a := .consume true) trivial hu
      have hru : machine.Reachable u := hr.next hstep
      have hprod : u.producers = s.producers := (consume_frame hu).2.2.1
      cases (consumer_move hr hstep).1 with
      | loop _ hloop' hpending _ =>
          have hlt := rank_consumeStep (tailNext_of_pending hr hq hloop hne) hloop hu
          obtain ⟨t, hlead', hc, hpt, hpr⟩ := ih _ hlt hru (hq.of_producers hprod) hloop'
            (hpending.trans hp) rfl
          exact ⟨t, hlead.trans hlead', hc, hpt, hpr.trans hprod⟩
      | take item' _ hc hpending _ =>
          rw [hp] at hpending
          obtain ⟨rfl, rfl⟩ := List.cons.inj hpending
          have hhand : machine.step u (.consume true) =
              some { u with consumer := .onItem item, delivered := u.delivered ++ [item] } := by
            simp only [machine, step, consumeStep, hc]
          refine ⟨_, hlead.trans (Machine.leads_single (a := .consume true) trivial hhand), rfl, ?_,
            hprod⟩
          cases (consumer_move hru hhand).1 with
          | hand _ _ _ hpending' _ => exact hpending'
          | loop hs => rw [hc] at hs; exact hs.elim
          | take _ hs | leave hs => cases hs.symm.trans hc
      | hand _ hs =>
          rw [hs] at hloop
          exact hloop.elim
      | leave hs hzero =>
          have hpermit := permits_of_pending hr hq hs hne
          exact absurd hzero hpermit.ne'

/-- A consumer at the head of its loop delivers everything pending. -/
theorem leads_drained (hr : (machine : Machine (Blocking P T X) _).Reachable s)
    (hq : s.Quiescent) (hloop : s.consumer.Looping) :
    ∃ t, machine.Leads IsServing s t ∧ t.consumer.Looping ∧ t.pending = [] ∧
      t.producers = s.producers := by
  induction hp : s.pending generalizing s with
  | nil => exact ⟨s, Machine.leads_refl, hloop, hp, rfl⟩
  | cons item rest ih =>
      obtain ⟨u, hlead, hc, hpu, hprod⟩ := leads_onItem hr hq hloop hp
      have hstep : machine.step u .itemReturns = some { u with consumer := .spin } := by
        simp only [machine, step, hc]
      have hru : machine.Reachable u := hlead.reachable hr
      have hpending : ({ u with consumer := .spin } : Blocking P T X).pending = rest := by
        rw [← hpu, pending, pending, hc]
        rfl
      have hqu : u.Quiescent := hq.of_producers hprod
      obtain ⟨t, hlead', hloop', hpt, hpr⟩ := ih (hru.next hstep) (hqu.of_producers rfl) trivial
        hpending
      have hreturn : machine.Leads IsServing u { u with consumer := .spin } :=
        Machine.leads_single (a := .itemReturns) trivial hstep
      exact ⟨t, (hlead.trans hreturn).trans hlead', hloop', hpt, hpr.trans hprod⟩

omit [Inhabited T] in
theorem producers_step {a : BlockingAct P T X} (h : s.step a = some t) :
    t.producers = s.producers ∨ ∃ p pc, t.producers = Function.update s.producers p pc := by
  cases a with
  | enqueue p item =>
      simp only [step] at h
      split at h <;> cases h
      exact .inr ⟨p, _, rfl⟩
  | produce p =>
      obtain ⟨pc, u, hu, rfl⟩ := produce_eq h
      exact .inr ⟨p, pc, rfl⟩
  | finish p =>
      simp only [step] at h
      split at h <;> cases h <;> exact .inr ⟨p, _, rfl⟩
  | consume yields => exact .inl (consume_frame h).2.2.1
  | itemReturns | itemThrows x | disposeSource | disposeSemaphore =>
      simp only [step] at h
      split at h <;> cases h
      exact .inl rfl
  | completeAdding =>
      cases h
      exact .inl rfl

theorem exists_producers (hr : (machine : Machine (Blocking P T X) _).Reachable s) :
    ∃ ps : List P, ∀ p ∉ ps, s.producers p = .idle := by
  refine hr.invariant (I := fun s => ∃ ps : List P, ∀ p ∉ ps, s.producers p = .idle)
    ⟨[], fun _ _ => rfl⟩ ?_
  rintro s a t _ ⟨ps, hps⟩ h
  rcases producers_step h with hp | ⟨p, pc, hp⟩
  · rw [hp]
    exact ⟨ps, hps⟩
  · refine ⟨p :: ps, fun q hq => ?_⟩
    rw [List.mem_cons, not_or] at hq
    rw [hp, Function.update_of_ne hq.1]
    exact hps q hq.2

/-- A producer inside `Enqueue` is never blocked, and its own steps end the call. -/
theorem leads_producer_atRest (p : P) (s : Blocking P T X) :
    ∃ t, machine.Leads (· = .produce p) s t ∧ (t.producers p).AtRest ∧
      t.consumer = s.consumer ∧ ∀ q, q ≠ p → t.producers q = s.producers q := by
  induction hrank : (s.producers p).rank using Nat.strong_induction_on generalizing s with
  | h k ih =>
      subst hrank
      by_cases hrest : (s.producers p).AtRest
      · exact ⟨s, Machine.leads_refl, hrest, rfl, fun _ _ => rfl⟩
      obtain ⟨pc, u, hu⟩ := produceStep_enabled s hrest
      have hstep : machine.step s (.produce p) =
          some { u with producers := Function.update s.producers p pc } := by
        simp only [machine, step, hu, Option.map_some]
      obtain ⟨hrank, hc⟩ := rank_produceStep hu
      have hself : (Function.update s.producers p pc p).rank < (s.producers p).rank := by
        rw [Function.update_self]
        exact hrank
      obtain ⟨t, hlead, hrest, hct, hpt⟩ := ih _ hself
        { u with producers := Function.update s.producers p pc } rfl
      have hfirst : machine.Leads (· = .produce p) s
          { u with producers := Function.update s.producers p pc } :=
        Machine.leads_single rfl hstep
      refine ⟨t, hfirst.trans hlead, hrest, hct.trans hc, fun q hq => ?_⟩
      rw [hpt q hq]
      exact Function.update_of_ne hq ..

theorem leads_atRest (hr : (machine : Machine (Blocking P T X) _).Reachable s) :
    ∃ t, machine.Leads IsServing s t ∧ (∀ p, (t.producers p).AtRest) ∧
      t.consumer = s.consumer := by
  obtain ⟨ps, hps⟩ := exists_producers hr
  have hrest : ∀ p, p ∉ ps → (s.producers p).AtRest := by
    intro p hp
    rw [hps p hp]
    trivial
  clear hps hr
  induction ps generalizing s with
  | nil => exact ⟨s, Machine.leads_refl, fun p => hrest p List.not_mem_nil, rfl⟩
  | cons p ps ih =>
      obtain ⟨u, hlead, hp, hc, hother⟩ := leads_producer_atRest p s
      have hrest' : ∀ q, q ∉ ps → (u.producers q).AtRest := by
        intro q hq
        by_cases hqp : q = p
        · exact hqp ▸ hp
        · rw [hother q hqp]
          exact hrest q (by simp [hqp, hq])
      obtain ⟨t, hlead', hall, hct⟩ := ih hrest'
      have hserving : machine.Leads IsServing s u := by
        apply hlead.mono
        rintro a rfl
        trivial
      exact ⟨t, hserving.trans hlead', hall, hct.trans hc⟩

omit [Inhabited T] [DecidableEq P] in
theorem quiescent_of_atRest (h : ∀ p, (s.producers p).AtRest) : s.Quiescent := by
  refine ⟨fun p item n prev hp => ?_, fun p item => ⟨fun hp => ?_, fun hp => ?_, fun hp => ?_⟩⟩ <;>
  · have hrest := h p
    rw [hp] at hrest
    exact hrest

/-- A consumer that has not left `OnElements` gets back to the head of its loop. -/
theorem leads_looping (hc : ∀ cause, s.consumer ≠ .ended cause) :
    ∃ t, machine.Leads IsServing s t ∧ t.consumer.Looping ∧ t.producers = s.producers := by
  have honItem : ∀ {u : Blocking P T X} {item}, u.consumer = .onItem item →
      machine.Leads IsServing u { u with consumer := .spin } := by
    intro u item hu
    apply Machine.leads_single (a := .itemReturns) trivial
    simp only [machine, step, hu]
  cases hs : s.consumer with
  | handing item =>
      have hhand : machine.step s (.consume true) =
          some { s with consumer := .onItem item, delivered := s.delivered ++ [item] } := by
        simp only [machine, step, consumeStep, hs]
      have hreturn := honItem
        (u := { s with consumer := .onItem item, delivered := s.delivered ++ [item] }) rfl
      exact ⟨_, (Machine.leads_single (a := .consume true) trivial hhand).trans hreturn,
        trivial, rfl⟩
  | onItem item => exact ⟨_, honItem hs, trivial, rfl⟩
  | ended cause => exact (hc cause hs).elim
  | _ =>
      refine ⟨s, Machine.leads_refl, ?_, rfl⟩
      rw [hs]
      trivial

/-- While the consumer has not left `OnElements`, the steps of the threads
inside the queue deliver everything that was exchanged. -/
theorem leads_delivered (hr : (machine : Machine (Blocking P T X) _).Reachable s)
    (hc : ∀ cause, s.consumer ≠ .ended cause) :
    ∃ t, machine.Leads IsServing s t ∧ (∀ p, (t.producers p).AtRest) ∧ t.consumer.Looping ∧
      t.delivered = t.exchanged := by
  obtain ⟨u, hu, hrest, hcu⟩ := leads_atRest hr
  obtain ⟨v, hv, hloop, hpv⟩ := leads_looping (s := u) (hcu ▸ hc)
  have hrv : machine.Reachable v := hv.reachable (hu.reachable hr)
  have hqv : v.Quiescent := (quiescent_of_atRest hrest).of_producers hpv
  obtain ⟨t, ht, hloop', hpt, hprod⟩ := leads_drained hrv hqv hloop
  refine ⟨t, (hu.trans hv).trans ht, ?_, hloop', ?_⟩
  · rw [hprod, hpv]
    exact hrest
  · have heq := exchanged_eq (ht.reachable hrv)
    rw [hpt, hloop'.inHand] at heq
    simpa using heq.symm

end Blocking
end ComposableAsync.Concurrent
