import ComposableAsync.Concurrent.BlockingMpscQueue
import ComposableAsync.Concurrent.Handshake

/-!
# The consumer never sleeps on a non-empty queue

The blocking queue is a client of the handshake: its consumer is the waiter, its
producers are notifiers once their link is stored. The account of the permits
says that a consumer blocked with no permit in sight is still in the wait set.
The Dekker part of the protocol then says that a link it has not seen belongs to
a producer that is still to look at `_InWait`.
-/
namespace ComposableAsync.Concurrent
open Foundations

def Consumer.waiter {T X : Type} : Consumer T X → Waiter
  | .spin | .test | .take | .readSpurious | .handing _ | .onItem _ => .idle
  | .clearSpurious => .clearSpurious
  | .waitOne => .waitOne
  | .setInWait => .setInWait
  | .readEpoch => .readEpoch
  | .retest => .prepared
  | .setSpurious _ => .setSpurious
  | .readInWait _ => .readInWait
  | .retireLock _ => .retireLock
  | .compareEpoch => .compareEpoch
  | .waiting => .waiting
  | .ended _ => .stopped

def Producer.notifier {T : Type} : Producer T → Notifier
  | .notify _ => .readInWait
  | .lock _ => .lock
  | .release _ => .release
  | .idle | .enter _ | .create _ | .exchange _ _ | .store _ _ _ | .returned _ | .canceled _
  | .raised _ _ => .idle

theorem Producer.notifier_eq_release {T : Type} {pc : Producer T} :
    pc.notifier = .release ↔ ∃ item, pc = .release item := by
  cases pc <;> simp [Producer.notifier]

theorem Producer.writer_eq_exchanged {T : Type} {pc : Producer T} {n prev : ℕ} :
    pc.writer = .exchanged n prev ↔ ∃ item, pc = .store item n prev := by
  cases pc <;> simp [Producer.writer]

namespace Blocking
variable {P T X : Type}

def handshake (s : Blocking P T X) : Handshake P :=
  ⟨s.events, s.consumer.waiter, fun p => (s.producers p).notifier⟩

variable [DecidableEq P] {s t : Blocking P T X}

theorem handshake_setProducer (u : Blocking P T X) (producers : P → Producer T) (p : P)
    (pc : Producer T) :
    ({ u with producers := Function.update producers p pc } : Blocking P T X).handshake =
      ⟨u.events, u.consumer.waiter,
        Function.update (fun q => (producers q).notifier) p pc.notifier⟩ := by
  simp only [handshake, Handshake.mk.injEq, true_and]
  exact Function.comp_update Producer.notifier producers p pc

theorem handshake_setProducer_same {p : P} {pc : Producer T} {u : Blocking P T X}
    (he : u.events = s.events) (hc : u.consumer = s.consumer)
    (h : pc.notifier = (s.producers p).notifier) :
    ({ u with producers := Function.update s.producers p pc } : Blocking P T X).handshake =
      s.handshake := by
  rw [handshake_setProducer, h, he, hc]
  simp only [handshake, Handshake.mk.injEq, true_and]
  exact Function.update_eq_self ..

theorem handshake_notify {p : P} {pc : Producer T} {u : Blocking P T X}
    (hc : u.consumer = s.consumer)
    (h : Handshake.notifyStep s.events (s.producers p).notifier = some (pc.notifier, u.events)) :
    s.handshake.step (.notify p) =
      some ({ u with producers := Function.update s.producers p pc } : Blocking P T X).handshake := by
  rw [handshake_setProducer, hc]
  have h' : Handshake.notifyStep s.handshake.events (s.handshake.notifiers p) =
      some (pc.notifier, u.events) := h
  rw [Handshake.step, h']
  rfl

theorem handshake_produce {p : P} (h : s.step (.produce p) = some t) :
    t.handshake = s.handshake ∨ ∃ b, s.handshake.step b = some t.handshake := by
  obtain ⟨pc, u, hu, rfl⟩ := produce_eq h
  cases hp : s.producers p with
  | idle | returned _ | canceled _ | raised _ _ => simp [produceStep, hp] at hu
  | enter item =>
      simp only [produceStep, hp, Option.some.injEq, Prod.mk.injEq] at hu
      obtain ⟨rfl, rfl⟩ := hu
      refine .inl (handshake_setProducer_same rfl rfl ?_)
      rw [hp]
      split <;> rfl
  | create item | exchange item n =>
      simp only [produceStep, hp, Option.some.injEq, Prod.mk.injEq] at hu
      obtain ⟨rfl, rfl⟩ := hu
      exact .inl (handshake_setProducer_same rfl rfl (by rw [hp]; rfl))
  | store item n prev =>
      simp only [produceStep, hp, Option.some.injEq, Prod.mk.injEq] at hu
      obtain ⟨rfl, rfl⟩ := hu
      have hn : s.handshake.notifiers p = .idle := by
        simp only [handshake, hp, Producer.notifier]
      refine .inr ⟨.call p, ?_⟩
      rw [handshake_setProducer, Handshake.step, if_pos hn]
      rfl
  | notify item | lock item =>
      simp only [produceStep, hp, Option.some.injEq, Prod.mk.injEq] at hu
      obtain ⟨rfl, rfl⟩ := hu
      refine .inr ⟨.notify p, handshake_notify rfl ?_⟩
      simp only [hp, Producer.notifier, Handshake.notifyStep, Option.some.injEq, Prod.mk.injEq,
        and_true]
      split <;> rfl
  | release item =>
      simp only [produceStep, hp] at hu
      split at hu <;>
      · rename_i he
        simp only [Option.some.injEq, Prod.mk.injEq] at hu
        obtain ⟨rfl, rfl⟩ := hu
        refine .inr ⟨.notify p, handshake_notify rfl ?_⟩
        simp only [hp, Producer.notifier, Handshake.notifyStep, he]

theorem handshake_wait (hp : t.producers = s.producers)
    (h : Handshake.waitStep s.events s.consumer.waiter = some (t.consumer.waiter, t.events)) :
    s.handshake.step .wait = some t.handshake := by
  have h' : Handshake.waitStep s.handshake.events s.handshake.waiter =
      some (t.consumer.waiter, t.events) := h
  rw [Handshake.step, h']
  simp only [handshake, hp, Option.map_some]

theorem handshake_consume {yields : Bool} (h : s.consumeStep yields = some t) :
    t.handshake = s.handshake ∨ ∃ b, s.handshake.step b = some t.handshake := by
  have hw : s.handshake.waiter = s.consumer.waiter := rfl
  cases hc : s.consumer with
  | onItem _ | ended _ => simp [consumeStep, hc] at h
  | spin =>
      simp only [consumeStep, hc] at h
      split at h <;>
      · cases h
        exact .inl (by simp [handshake, hc, Consumer.waiter])
  | test =>
      simp only [consumeStep, hc, Option.some.injEq] at h
      subst h
      left
      simp only [handshake, hc, Handshake.mk.injEq, true_and, and_true]
      split <;> rfl
  | take =>
      simp only [consumeStep, hc] at h
      split at h
      · cases h
        exact .inl (by simp [handshake, hc, Consumer.waiter])
      · cases h
        have hidle : s.handshake.waiter = .idle := by rw [hw, hc]; rfl
        refine .inr ⟨.stop, ?_⟩
        rw [Handshake.step, if_pos hidle]
        rfl
  | handing item =>
      simp only [consumeStep, hc, Option.some.injEq] at h
      subst h
      exact .inl (by simp [handshake, hc, Consumer.waiter])
  | retest =>
      simp only [consumeStep, hc, Option.some.injEq] at h
      subst h
      have hprepared : s.handshake.waiter = .prepared := by rw [hw, hc]; rfl
      cases s.list.tailNext with
      | some _ =>
          refine .inr ⟨.retire, ?_⟩
          rw [Handshake.step, if_pos hprepared]
          rfl
      | none =>
          refine .inr ⟨.compare, ?_⟩
          rw [Handshake.step, if_pos hprepared]
          rfl
  | clearSpurious | setInWait | readEpoch | setSpurious _ =>
      simp only [consumeStep, hc, Option.some.injEq] at h
      subst h
      exact .inr ⟨.wait, handshake_wait rfl (by rw [hc]; rfl)⟩
  | readSpurious | compareEpoch =>
      simp only [consumeStep, hc, Option.some.injEq] at h
      subst h
      refine .inr ⟨.wait, handshake_wait rfl ?_⟩
      simp only [hc, Consumer.waiter, Handshake.waitStep, Option.some.injEq, Prod.mk.injEq,
        and_true]
      split <;> rfl
  | readInWait k =>
      simp only [consumeStep, hc, Option.some.injEq] at h
      subst h
      refine .inr ⟨.wait, handshake_wait rfl ?_⟩
      simp only [hc, Consumer.waiter, Handshake.waitStep, Option.some.injEq, Prod.mk.injEq,
        and_true]
      cases k <;> split <;> rfl
  | retireLock k =>
      simp only [consumeStep, hc, Option.some.injEq] at h
      subst h
      refine .inr ⟨.wait, handshake_wait rfl ?_⟩
      rw [hc]
      cases k <;> rfl
  | waitOne =>
      simp only [consumeStep, hc, Option.map_eq_some_iff] at h
      obtain ⟨ec, he, rfl⟩ := h
      refine .inr ⟨.wait, handshake_wait rfl ?_⟩
      simp only [hc, Consumer.waiter, Handshake.waitStep, he, Option.map_some]
  | waiting =>
      simp only [consumeStep, hc] at h
      split at h
      · rename_i ec he
        cases h
        refine .inr ⟨.wait, handshake_wait rfl ?_⟩
        simp only [hc, Consumer.waiter, Handshake.waitStep, he, Option.map_some]
      · rename_i he
        split at h
        · cases h
          rw [hc] at hw
          have he' : s.handshake.events.waitOne = none := he
          refine .inr ⟨.cancel, ?_⟩
          rw [Handshake.step, if_pos ⟨hw, he'⟩]
          rfl
        · cases h

/-- The blocking queue refines the handshake of one waiter with its notifiers. -/
theorem refines_handshake [Inhabited T] :
    (machine : Machine (Blocking P T X) _).Refines Handshake.machine handshake where
  init := rfl
  step := by
    intro s a t h
    cases a with
    | enqueue p item =>
        simp only [machine, step] at h
        split at h
        · rename_i hp
          cases h
          exact .inl (handshake_setProducer_same rfl rfl (by rw [hp]; rfl))
        · cases h
    | produce p => exact handshake_produce h
    | finish p =>
        simp only [machine, step] at h
        split at h <;>
        · rename_i hp
          cases h
          try exact .inl (handshake_setProducer_same rfl rfl (by rw [hp]; rfl))
    | consume yields => exact handshake_consume h
    | itemReturns =>
        simp only [machine, step] at h
        split at h
        · rename_i hc
          cases h
          exact .inl (by simp [handshake, hc, Consumer.waiter])
        · cases h
    | itemThrows x =>
        simp only [machine, step] at h
        split at h
        · rename_i hc
          cases h
          exact .inr ⟨.stop, by simp [Handshake.machine, Handshake.step, handshake, hc,
            Consumer.waiter]⟩
        · cases h
    | completeAdding =>
        cases h
        exact .inl rfl
    | disposeSource =>
        simp only [machine, step] at h
        split at h
        · cases h
          exact .inl rfl
        · cases h
    | disposeSemaphore =>
        simp only [machine, step] at h
        split at h
        · rename_i hc
          cases h
          exact .inr ⟨.dispose, by simp [Handshake.machine, Handshake.step, handshake, hc,
            Consumer.waiter]⟩
        · cases h

theorem handshake_inv [Inhabited T] (hr : (machine : Machine (Blocking P T X) _).Reachable s) :
    s.handshake.Inv := Handshake.inv_reachable (refines_handshake.reachable hr)

/-- The `WaitOne` of `PrepareWait`, which no token ends, waits for a producer. -/
theorem releasing_of_pump [Inhabited T] (hr : (machine : Machine (Blocking P T X) _).Reachable s)
    (hc : s.consumer = .waitOne) (hempty : s.events.permits = 0) :
    ∃ p item, s.producers p = .release item := by
  have hwaiter : s.handshake.waiter = .waitOne := congrArg Consumer.waiter hc
  obtain ⟨hone, -⟩ | ⟨-, p, hrelease, -⟩ :=
    (handshake_inv hr).account.oneCredit_of_waitOne hwaiter
  · cases hempty.symm.trans hone
  · exact ⟨p, Producer.notifier_eq_release.mp hrelease⟩

end Blocking

/-- The consumer has seen a link and is about to follow it. -/
def Consumer.Found {T X : Type} : Consumer T X → Prop
  | .take | .setSpurious .found | .readInWait .found | .retireLock .found => True
  | _ => False

namespace Blocking
variable {P T X : Type} {s t : Blocking P T X}

/-- A link seen is still there. A link stored after the last look of a consumer
that is still in the wait set has its producer on the way to the lock. -/
structure Watch (s : Blocking P T X) : Prop where
  found : s.consumer.Found → s.list.tailNext.isSome = true
  seen : s.consumer = .compareEpoch ∨ s.consumer = .waiting → s.events.inWait = true →
    s.list.tailNext.isSome = true →
    ∃ p item, s.producers p = .notify item ∨ s.producers p = .lock item

theorem Watch.consume (hi : s.Watch) {yields : Bool} (h : s.consumeStep yields = some t) :
    t.Watch := by
  cases hc : s.consumer with
  | onItem _ | ended _ => simp [consumeStep, hc] at h
  | spin =>
      simp only [consumeStep, hc] at h
      split at h <;> cases h
      · exact hi
      · exact ⟨False.elim, by simp⟩
  | test =>
      simp only [consumeStep, hc, Option.some.injEq] at h
      subst h
      refine ⟨fun hf => ?_, fun hw => ?_⟩
      · by_contra hn
        simp [hn, Consumer.Found] at hf
      · split at hw <;> simp at hw
  | take =>
      simp only [consumeStep, hc] at h
      split at h <;> cases h <;> exact ⟨False.elim, by simp⟩
  | handing item | clearSpurious | setInWait | readEpoch =>
      simp only [consumeStep, hc, Option.some.injEq] at h
      subst h
      exact ⟨False.elim, by simp⟩
  | readSpurious =>
      simp only [consumeStep, hc, Option.some.injEq] at h
      subst h
      refine ⟨fun hf => ?_, fun hw => ?_⟩
      · split at hf <;> exact hf.elim
      · split at hw <;> simp at hw
  | retest =>
      simp only [consumeStep, hc, Option.some.injEq] at h
      subst h
      refine ⟨fun hf => ?_, fun hw _ hs => ?_⟩
      · by_contra hn
        simp [hn, Consumer.Found] at hf
      · simp [show s.list.tailNext.isSome = true from hs] at hw
  | setSpurious k =>
      simp only [consumeStep, hc, Option.some.injEq] at h
      subst h
      have hf := hi.found
      rw [hc] at hf
      refine ⟨fun hk => hf ?_, by simp⟩
      cases k <;> exact hk
  | readInWait k =>
      simp only [consumeStep, hc, Option.some.injEq] at h
      subst h
      have hf := hi.found
      rw [hc] at hf
      refine ⟨fun hk => hf ?_, fun hw => ?_⟩
      · cases k <;> split at hk <;> exact hk
      · cases k <;> split at hw <;> simp at hw
  | retireLock k =>
      simp only [consumeStep, hc, Option.some.injEq] at h
      subst h
      have hf := hi.found
      rw [hc] at hf
      refine ⟨fun hk => hf ?_, fun hw => ?_⟩
      · cases k <;> exact hk
      · cases k <;> simp at hw
  | compareEpoch =>
      simp only [consumeStep, hc, Option.some.injEq] at h
      subst h
      refine ⟨fun hk => ?_, fun _ => hi.seen (.inl hc)⟩
      split at hk <;> exact hk.elim
  | waitOne =>
      simp only [consumeStep, hc, Option.map_eq_some_iff] at h
      obtain ⟨ec, -, rfl⟩ := h
      exact ⟨False.elim, by simp⟩
  | waiting =>
      simp only [consumeStep, hc] at h
      split at h
      · cases h
        exact ⟨False.elim, by simp⟩
      · split at h
        · cases h
          exact ⟨False.elim, by simp⟩
        · cases h

theorem tailNext_produceStep (hi : s.mpsc.Inv) {p : P} {pc : Producer T} {u : Blocking P T X}
    (h : s.produceStep (s.producers p) = some (pc, u)) :
    u.consumer = s.consumer ∧ (u.list.tailNext = s.list.tailNext ∨
      u.list.tailNext.isSome = true ∧ ∃ item, pc = .notify item) := by
  cases hp : s.producers p with
  | idle | returned _ | canceled _ | raised _ _ => simp [produceStep, hp] at h
  | enter item | exchange item n | notify item | lock item =>
      simp only [produceStep, hp, Option.some.injEq, Prod.mk.injEq] at h
      obtain ⟨-, rfl⟩ := h
      exact ⟨rfl, .inl rfl⟩
  | create item =>
      simp only [produceStep, hp, Option.some.injEq, Prod.mk.injEq] at h
      obtain ⟨-, rfl⟩ := h
      have htail : s.list.tail < s.list.allocated := by
        obtain ⟨front, back, hs, -⟩ := hi.tail
        refine hi.bound _ ?_
        rw [hs]
        simp [mpsc]
      exact ⟨rfl, .inl (NodeList.link_create htail)⟩
  | store item n prev =>
      simp only [produceStep, hp, Option.some.injEq, Prod.mk.injEq] at h
      obtain ⟨rfl, rfl⟩ := h
      refine ⟨rfl, ?_⟩
      by_cases ht : s.list.tail = prev
      · refine .inr ⟨?_, item, rfl⟩
        rw [NodeList.tailNext_store, ht, Function.update_self]
        rfl
      · left
        rw [NodeList.tailNext_store, Function.update_of_ne ht]
        rfl
  | release item =>
      simp only [produceStep, hp] at h
      split at h <;>
      · simp only [Option.some.injEq, Prod.mk.injEq] at h
        obtain ⟨-, rfl⟩ := h
        exact ⟨rfl, .inl rfl⟩

/-- While the waiter stays in the wait set, a notifier that finds it there goes
on to the lock, and none has passed the lock. -/
theorem inWait_produceStep {p : P} {pc : Producer T} {u : Blocking P T X}
    (h : s.produceStep (s.producers p) = some (pc, u)) (hin : u.events.inWait = true) :
    s.events.inWait = true ∧ ∀ item,
      s.producers p = .notify item ∨ s.producers p = .lock item → pc = .lock item := by
  cases hp : s.producers p with
  | idle | returned _ | canceled _ | raised _ _ => simp [produceStep, hp] at h
  | enter item | create item | exchange item n | store item n prev =>
      simp only [produceStep, hp, Option.some.injEq, Prod.mk.injEq] at h
      obtain ⟨-, rfl⟩ := h
      exact ⟨hin, by simp⟩
  | notify item =>
      simp only [produceStep, hp, Option.some.injEq, Prod.mk.injEq] at h
      obtain ⟨rfl, rfl⟩ := h
      exact ⟨hin, by simp [hin]⟩
  | lock item =>
      simp only [produceStep, hp, Option.some.injEq, Prod.mk.injEq] at h
      obtain ⟨-, rfl⟩ := h
      simp only [EventCount.notifyLock] at hin
      split at hin
      · cases hin
      · rename_i hn
        exact (hn hin).elim
  | release item =>
      simp only [produceStep, hp] at h
      split at h
      · rename_i ec he
        simp only [Option.some.injEq, Prod.mk.injEq] at h
        obtain ⟨-, rfl⟩ := h
        refine ⟨?_, by simp⟩
        simp only [EventCount.release] at he
        split at he
        · cases he
        · split at he <;> cases he
          exact hin
      · simp only [Option.some.injEq, Prod.mk.injEq] at h
        obtain ⟨-, rfl⟩ := h
        exact ⟨hin, by simp⟩

variable [DecidableEq P]

theorem Watch.produce (hw : s.Watch) (hi : s.mpsc.Inv) {p : P}
    (h : s.step (.produce p) = some t) : t.Watch := by
  obtain ⟨pc, u, hu, rfl⟩ := produce_eq h
  obtain ⟨hc, hlink⟩ := tailNext_produceStep hi hu
  refine ⟨fun hf => ?_, fun hwait hin hs => ?_⟩
  · change u.consumer.Found at hf
    rw [hc] at hf
    rcases hlink with hlink | ⟨hlink, -⟩
    · exact hlink ▸ hw.found hf
    · exact hlink
  · change u.consumer = _ ∨ u.consumer = _ at hwait
    rw [hc] at hwait
    rcases hlink with hlink | ⟨-, item, rfl⟩
    · obtain ⟨hin', hlock⟩ := inWait_produceStep hu hin
      obtain ⟨q, item, hq⟩ := hw.seen hwait hin' (hlink ▸ hs)
      by_cases hqp : q = p
      · subst hqp
        exact ⟨q, item, .inr ((Function.update_self ..).trans (hlock item hq))⟩
      · refine ⟨q, item, ?_⟩
        simp only [Function.update_of_ne hqp]
        exact hq
    · exact ⟨p, item, .inl (Function.update_self ..)⟩

theorem Watch.setProducer (hw : s.Watch) {p : P} {pc : Producer T}
    (hp : ∀ item, s.producers p ≠ .notify item ∧ s.producers p ≠ .lock item) :
    ({ s with producers := Function.update s.producers p pc } : Blocking P T X).Watch := by
  refine ⟨hw.found, fun hwait hin hs => ?_⟩
  obtain ⟨q, item, hq⟩ := hw.seen hwait hin hs
  have hqp : q ≠ p := by
    rintro rfl
    exact hq.elim (hp item).1 (hp item).2
  refine ⟨q, item, ?_⟩
  simp only [Function.update_of_ne hqp]
  exact hq

theorem watch_reachable [Inhabited T] (hr : (machine : Machine (Blocking P T X) _).Reachable s) :
    s.Watch := by
  refine hr.invariant ⟨False.elim, by simp [machine, init]⟩ ?_
  intro s a t hr hw h
  cases a with
  | enqueue p item =>
      simp only [machine, step] at h
      split at h
      · rename_i hp
        cases h
        exact hw.setProducer (by simp [hp])
      · cases h
  | produce p => exact hw.produce (mpsc_inv hr) h
  | finish p =>
      simp only [machine, step] at h
      split at h <;>
      · rename_i hp
        cases h
        try exact hw.setProducer (by simp [hp])
  | consume yields => exact hw.consume h
  | itemReturns | itemThrows x =>
      simp only [machine, step] at h
      split at h
      · cases h
        exact ⟨False.elim, by simp⟩
      · cases h
  | completeAdding =>
      cases h
      exact ⟨hw.found, hw.seen⟩
  | disposeSource | disposeSemaphore =>
      simp only [machine, step] at h
      split at h
      · rename_i hc
        cases h
        exact ⟨hw.found, by simp [hc]⟩
      · cases h

/-- A blocked consumer that no permit and no notifier can wake has been handed
every item: the tail is the last node. Cancellation, earlier sleeps and the
wrapping of the epoch make no difference. -/
theorem delivered_of_asleep [Inhabited T]
    (hr : (machine : Machine (Blocking P T X) _).Reachable s) (hc : s.consumer = .waiting)
    (hpermits : s.events.permits = 0)
    (hstore : ∀ p item n prev, s.producers p ≠ .store item n prev)
    (hnotify : ∀ p item, s.producers p ≠ .notify item ∧ s.producers p ≠ .lock item ∧
      s.producers p ≠ .release item) :
    s.delivered = s.mpsc.exchanged ∧ s.list.tail = s.list.head := by
  have hmpsc := mpsc_inv hr
  have haccount := (handshake_inv hr).account
  simp only [Handshake.Account, handshake, hc, Consumer.waiter] at haccount
  -- nobody owes a permit, so the consumer is still in the wait set
  have hin : s.events.inWait = true := by
    rcases haccount.2 with ⟨hin, -⟩ | ⟨-, ⟨hp, -⟩ | ⟨-, p, hp, -⟩⟩
    · exact hin
    · exact absurd (hpermits.symm.trans hp) (by decide)
    · obtain ⟨item, hp⟩ := Producer.notifier_eq_release.mp hp
      exact ((hnotify p item).2.2 hp).elim
  -- so a link after the tail would have a producer on its way to the lock
  have hlink : s.list.tailNext = none := by
    by_contra hne
    obtain ⟨p, item, hp | hp⟩ := (watch_reachable hr).seen (.inr hc) hin
      (Option.isSome_iff_ne_none.mpr hne)
    · exact (hnotify p item).1 hp
    · exact (hnotify p item).2.1 hp
  have hwriters : ∀ p n prev, s.mpsc.writers p ≠ .exchanged n prev := by
    intro p n prev hp
    obtain ⟨item, hp⟩ := Producer.writer_eq_exchanged.mp hp
    exact hstore p item n prev hp
  exact hmpsc.all_delivered hwriters (by simp [mpsc, hc, Consumer.inHand]) hlink

/-- The consumer sleeps, is woken for one item, and sleeps again. -/
theorem delivered_of_asleep_again :
    ∃ s : Blocking Unit ℕ Unit, s.consumer = .waiting ∧ s.delivered = [7] ∧
      s.delivered = s.mpsc.exchanged ∧ s.list.tail = s.list.head := by
  obtain ⟨s, hr, hc, hp, hq, hd⟩ := Machine.exists_of_run (M := machine)
    (p := fun s : Blocking Unit ℕ Unit => s.consumer = .waiting ∧ s.events.permits = 0 ∧
      s.producers () = .returned 7 ∧ s.delivered = [7])
    (List.flatten [List.replicate 7 (.consume true), [.enqueue () 7],
      List.replicate 7 (.produce ()), List.replicate 10 (.consume true), [.itemReturns],
      List.replicate 7 (.consume true)])
    (by decide)
  exact ⟨s, hc, hd, delivered_of_asleep hr hc hp (by simp [hq]) (by simp [hq])⟩

end Blocking
end ComposableAsync.Concurrent
