import ComposableAsync.Concurrent.Fiber
import ComposableAsync.Concurrent.QueueProgress
import Mathlib.Data.Fintype.Basic

/-!
# Signalling while the queue is disposed

The fiber that has drained its queue disposes the semaphore. A producer that took the
consumer out of the wait set before that is still to release it; and a consumer that
was cancelled in `Wait` leaves `_InWait` set, so that a producer which passed its look
at the token will take it out afterwards. Both find the semaphore disposed.
-/
namespace ComposableAsync.Concurrent
open Foundations

/-- About to call `_Semaphore.Release`. -/
def Producer.Releasing {T : Type} : Producer T → Prop
  | .release _ => True
  | .idle | .enter _ | .create _ | .exchange _ _ | .store _ _ _ | .notify _ | .lock _
  | .returned _ | .canceled _ | .raised _ _ => False

/-- Past the look at the token and before the lock section of `NotifyOne`. -/
def Producer.Signalling {T : Type} : Producer T → Prop
  | .create _ | .exchange _ _ | .store _ _ _ | .notify _ | .lock _ => True
  | .idle | .enter _ | .release _ | .returned _ | .canceled _ | .raised _ _ => False

/-- `Enqueue` let an exception escape. -/
def Producer.Raised {T : Type} : Producer T → Prop
  | .raised _ _ => True
  | .idle | .enter _ | .create _ | .exchange _ _ | .store _ _ _ | .notify _ | .lock _
  | .release _ | .returned _ | .canceled _ => False

/-- `Enqueue` returned, with the `Task` of its item or a canceled one. -/
def Producer.Answered {T : Type} : Producer T → Prop
  | .returned _ | .canceled _ => True
  | .idle | .enter _ | .create _ | .exchange _ _ | .store _ _ _ | .notify _ | .lock _
  | .release _ | .raised _ _ => False

namespace Blocking
variable {P T X : Type}

/-- No producer will come to `Release`. -/
structure Unsignalled (s : Blocking P T X) : Prop where
  released : ∀ p, ¬ (s.producers p).Releasing
  watched : s.events.inWait = true → ∀ p, ¬ (s.producers p).Signalling

/-- The semaphore is disposed when nobody will release it any more. -/
def DisposesUnsignalled (s : Blocking P T X) : BlockingAct P T X → Prop
  | .disposeSemaphore => s.Unsignalled
  | .enqueue _ _ | .produce _ | .finish _ | .consume _ | .itemReturns | .itemThrows _
  | .completeAdding | .disposeSource => True

/-- A consumer that left the loop from the wait set was cancelled; a disposed
semaphore has nobody to release it. -/
structure Disposal (s : Blocking P T X) : Prop where
  raised : ∀ p, ¬ (s.producers p).Raised
  cancelled : ∀ cause, s.consumer = .ended cause → s.events.inWait = true → s.canceled = true
  released : s.events.semaphoreDisposed = true → ∀ p, ¬ (s.producers p).Releasing
  watched : s.events.semaphoreDisposed = true → s.events.inWait = true →
    ∀ p, ¬ (s.producers p).Signalling

variable {s t : Blocking P T X}

theorem consumeStep_disposed {yields : Bool} (h : s.consumeStep yields = some t) :
    t.events.semaphoreDisposed = s.events.semaphoreDisposed := by
  cases hc : s.consumer with
  | onItem _ | ended _ => simp [consumeStep, hc] at h
  | spin | take =>
      simp only [consumeStep, hc] at h
      split at h <;>
      · cases h
        rfl
  | test | readSpurious | retest | compareEpoch | clearSpurious | setInWait | readEpoch
  | setSpurious _ | readInWait _ | handing _ =>
      simp only [consumeStep, hc, Option.some.injEq] at h
      subst h
      rfl
  | retireLock k =>
      simp only [consumeStep, hc, Option.some.injEq] at h
      subst h
      simp only [EventCount.retireLock]
      split <;> rfl
  | waitOne =>
      simp only [consumeStep, hc, Option.map_eq_some_iff, EventCount.waitOne] at h
      obtain ⟨ec, he, rfl⟩ := h
      split at he <;> cases he
      rfl
  | waiting =>
      simp only [consumeStep, hc, EventCount.waitOne] at h
      split at h
      · rename_i he
        split at he <;> cases he
        cases h
        rfl
      · split at h <;> cases h
        rfl

variable [DecidableEq P]

theorem disposed_ended [Inhabited T] (hr : (machine : Machine (Blocking P T X) _).Reachable s)
    (hd : s.events.semaphoreDisposed = true) : ∃ cause, s.consumer = .ended cause := by
  have hstopped : s.consumer.waiter = .stopped := (handshake_inv hr).disposed hd
  cases hc : s.consumer with
  | ended cause => exact ⟨cause, rfl⟩
  | _ =>
      rw [hc] at hstopped
      cases hstopped

variable [Inhabited T]

theorem release_ok (hr : (machine : Machine (Blocking P T X) _).Reachable s) {p : P} {item : T}
    (hp : s.producers p = .release item) (hd : s.events.semaphoreDisposed = false) :
    s.events.release = .ok { s.events with permits := s.events.permits + 1 } := by
  have hnotifier : s.handshake.notifiers p = .release := by
    simp only [handshake, hp, Producer.notifier]
  exact (handshake_inv hr).account.release_ok hnotifier hd

omit [Inhabited T] in
theorem Disposal.producer_moves {p : P} {pc : Producer T} (hi : s.Disposal)
    (hproducers : t.producers = Function.update s.producers p pc)
    (hconsumer : t.consumer = s.consumer) (hcanceled : t.canceled = s.canceled)
    (hdisposed : t.events.semaphoreDisposed = s.events.semaphoreDisposed)
    (hwait : t.events.inWait = true → s.events.inWait = true) (hraised : ¬ pc.Raised)
    (hreleasing : s.events.semaphoreDisposed = true → ¬ pc.Releasing)
    (hsignalling : s.events.semaphoreDisposed = true → s.events.inWait = true →
      ¬ pc.Signalling) : t.Disposal where
  raised := by
    rw [hproducers, Function.forall_update_iff s.producers fun _ pc => ¬ pc.Raised]
    exact ⟨hraised, fun q _ => hi.raised q⟩
  cancelled := by
    intro cause hcause hin
    rw [hconsumer] at hcause
    rw [hcanceled]
    exact hi.cancelled cause hcause (hwait hin)
  released := by
    intro hd
    rw [hdisposed] at hd
    rw [hproducers, Function.forall_update_iff s.producers fun _ pc => ¬ pc.Releasing]
    exact ⟨hreleasing hd, fun q _ => hi.released hd q⟩
  watched := by
    intro hd hin
    rw [hdisposed] at hd
    rw [hproducers, Function.forall_update_iff s.producers fun _ pc => ¬ pc.Signalling]
    exact ⟨hsignalling hd (hwait hin), fun q _ => hi.watched hd (hwait hin) q⟩

theorem Disposal.produce (hr : (machine : Machine (Blocking P T X) _).Reachable s)
    (hi : s.Disposal) {p : P} (h : s.step (.produce p) = some t) : t.Disposal := by
  obtain ⟨pc, u, hu, rfl⟩ := produce_eq h
  -- With the semaphore disposed and the consumer in the wait set nobody signals.
  have hnobody (hp : (s.producers p).Signalling) (hd : s.events.semaphoreDisposed = true) :
      ¬ s.events.inWait = true := fun hin => hi.watched hd hin p hp
  cases hp : s.producers p with
  | idle | returned _ | canceled _ | raised _ _ => simp [produceStep, hp] at hu
  | enter item =>
      simp only [produceStep, hp, Option.some.injEq, Prod.mk.injEq] at hu
      obtain ⟨rfl, rfl⟩ := hu
      refine hi.producer_moves rfl rfl rfl rfl id ?_ (fun _ => ?_) fun hd hin => ?_
      · split <;> exact not_false
      · split <;> exact not_false
      · obtain ⟨cause, hcause⟩ := disposed_ended hr hd
        rw [if_pos (hi.cancelled cause hcause hin)]
        exact not_false
  | create item | exchange item n | store item n prev =>
      simp only [produceStep, hp, Option.some.injEq, Prod.mk.injEq] at hu
      obtain ⟨rfl, rfl⟩ := hu
      rw [hp] at hnobody
      exact hi.producer_moves rfl rfl rfl rfl id not_false (fun _ => not_false)
        fun hd hin => (hnobody trivial hd hin).elim
  | notify item =>
      simp only [produceStep, hp, Option.some.injEq, Prod.mk.injEq] at hu
      obtain ⟨rfl, rfl⟩ := hu
      rw [hp] at hnobody
      refine hi.producer_moves rfl rfl rfl rfl id ?_ (fun _ => ?_)
        fun hd hin => (hnobody trivial hd hin).elim
      · split <;> exact not_false
      · split <;> exact not_false
  | lock item =>
      simp only [produceStep, hp, Option.some.injEq, Prod.mk.injEq, EventCount.notifyLock] at hu
      obtain ⟨rfl, rfl⟩ := hu
      rw [hp] at hnobody
      by_cases hin : s.events.inWait = true
      · simp only [if_pos hin]
        exact hi.producer_moves rfl rfl rfl rfl (fun h => (Bool.false_ne_true h).elim) not_false
          (fun hd => (hnobody trivial hd hin).elim) fun _ _ => not_false
      · simp only [if_neg hin]
        exact hi.producer_moves rfl rfl rfl rfl id not_false (fun _ => not_false)
          fun _ _ => not_false
  | release item =>
      have hd : s.events.semaphoreDisposed = false := by
        rw [Bool.eq_false_iff]
        intro hd
        have hnone := hi.released hd p
        rw [hp] at hnone
        exact hnone trivial
      simp only [produceStep, hp, release_ok hr hp hd, Option.some.injEq, Prod.mk.injEq] at hu
      obtain ⟨rfl, rfl⟩ := hu
      exact hi.producer_moves rfl rfl rfl rfl id not_false (fun _ => not_false)
        fun _ _ => not_false

theorem Disposal.consume (hr : (machine : Machine (Blocking P T X) _).Reachable s)
    (hi : s.Disposal) {yields : Bool} (h : s.step (.consume yields) = some t) : t.Disposal := by
  obtain ⟨hmove, -⟩ := consumer_move hr h
  change s.consumeStep yields = some t at h
  obtain ⟨-, -, hproducers, hcanceled, -⟩ := consume_frame h
  have hlive : ¬ t.events.semaphoreDisposed = true := by
    rw [consumeStep_disposed h]
    intro hd
    obtain ⟨cause, hcause⟩ := disposed_ended hr hd
    simp [consumeStep, hcause] at h
  refine ⟨?_, fun cause hcause _ => ?_, fun hd => (hlive hd).elim, fun hd => (hlive hd).elim⟩
  · rw [hproducers]
    exact hi.raised
  · cases hmove with
    | loop _ hloop =>
        rw [hcause] at hloop
        exact hloop.elim
    | take item _ ht | hand item _ ht => cases hcause.symm.trans ht
    | leave _ _ hc =>
        rw [hcanceled]
        exact hc

theorem Disposal.step (hr : (machine : Machine (Blocking P T X) _).Reachable s)
    (hi : s.Disposal) {a : BlockingAct P T X} (ha : s.DisposesUnsignalled a)
    (h : s.step a = some t) : t.Disposal := by
  cases a with
  | produce p => exact hi.produce hr h
  | consume yields => exact hi.consume hr h
  | enqueue p item | finish p =>
      simp only [Blocking.step] at h
      split at h <;> cases h <;>
        exact hi.producer_moves rfl rfl rfl rfl id not_false (fun _ => not_false)
          fun _ _ => not_false
  | itemReturns | itemThrows x =>
      simp only [Blocking.step] at h
      split at h <;> cases h
      rename_i item hc
      have haccount := (handshake_inv hr).account
      simp only [Handshake.Account, handshake, hc, Consumer.waiter] at haccount
      have hlive : ¬ s.events.semaphoreDisposed = true := by
        intro hd
        obtain ⟨cause, hcause⟩ := disposed_ended hr hd
        cases hc.symm.trans hcause
      refine ⟨hi.raised, fun cause hcause hin => ?_, fun hd => (hlive hd).elim,
        fun hd => (hlive hd).elim⟩
      cases haccount.1.symm.trans hin
  | completeAdding =>
      cases h
      refine ⟨hi.raised, fun cause hcause hin => ?_, hi.released, hi.watched⟩
      rw [hi.cancelled cause hcause hin]
      rfl
  | disposeSource =>
      simp only [Blocking.step] at h
      split at h <;> cases h
      exact ⟨hi.raised, hi.cancelled, hi.released, hi.watched⟩
  | disposeSemaphore =>
      simp only [Blocking.step] at h
      split at h <;> cases h
      exact ⟨hi.raised, hi.cancelled, fun _ => ha.released, fun _ => ha.watched⟩

theorem disposal_reachable
    (hr : (machine : Machine (Blocking P T X) _).ReachableUnder DisposesUnsignalled s) :
    s.Disposal := by
  apply hr.invariant (I := Disposal)
  · refine ⟨fun _ => not_false, fun _ _ h => ?_, fun h => ?_, fun h => ?_⟩ <;> cases h
  · intro s a t hr hi ha h
    exact hi.step hr.reachable ha h

/-- `p` is on its way to a disposed semaphore. -/
def Doomed (s : Blocking P T X) (p : P) : Prop :=
  s.events.semaphoreDisposed = true ∧
    ((s.producers p).Releasing ∨ s.events.inWait = true ∧ (s.producers p).Signalling)

omit [Inhabited T] in
theorem Doomed.step {p : P} (hs : s.Doomed p) :
    ∃ t, s.step (.produce p) = some t ∧ (t.producers p).rank < (s.producers p).rank ∧
      ((t.producers p).Raised ∨ t.Doomed p) := by
  obtain ⟨hd, hp⟩ := hs
  have hrest : ¬ (s.producers p).AtRest := by
    cases hpc : s.producers p <;>
      simp [hpc, Producer.Releasing, Producer.Signalling, Producer.AtRest] at hp ⊢
  obtain ⟨pc, u, hu⟩ := produceStep_enabled s hrest
  refine ⟨{ u with producers := Function.update s.producers p pc }, ?_, ?_, ?_⟩
  · simp only [Blocking.step, hu, Option.map_some]
  · simp only [Function.update_self]
    exact (rank_produceStep hu).1
  · simp only [Doomed, Function.update_self]
    cases hpc : s.producers p <;> rw [hpc] at hu hp <;>
      grind [produceStep, EventCount.release, EventCount.notifyLock, Producer.Raised,
        Producer.Releasing, Producer.Signalling]

/-- The producer's own steps lead to the `Release` that throws. -/
theorem Doomed.raises {p : P} (hs : s.Doomed p) :
    ∃ t, machine.Leads (· = .produce p) s t ∧ (t.producers p).Raised := by
  induction hrank : (s.producers p).rank using Nat.strong_induction_on generalizing s with
  | h k ih =>
      subst hrank
      obtain ⟨u, hstep, hrank, hraised | hu⟩ := hs.step
      · exact ⟨u, Machine.leads_single rfl hstep, hraised⟩
      · obtain ⟨t, hlead, hraised⟩ := ih _ hrank hu rfl
        have hfirst : machine.Leads (· = .produce p) s u := Machine.leads_single rfl hstep
        exact ⟨t, hfirst.trans hlead, hraised⟩

/-- The condition is exact: once the semaphore was disposed with a signal under way, a
producer can raise. -/
theorem raises_of_signalled (hd : s.events.semaphoreDisposed = true) (hs : ¬ s.Unsignalled) :
    ∃ p t, machine.Leads (· = .produce p) s t ∧ (t.producers p).Raised := by
  have hdoomed : ∃ p, s.Doomed p := by
    by_contra hnone
    rw [not_exists] at hnone
    apply hs
    constructor
    · intro p hp
      exact hnone p ⟨hd, .inl hp⟩
    · intro hin p hp
      exact hnone p ⟨hd, .inr ⟨hin, hp⟩⟩
  obtain ⟨p, hp⟩ := hdoomed
  exact ⟨p, hp.raises⟩

omit [DecidableEq P] [Inhabited T] in
theorem produceStep_ne_idle {pc pc' : Producer T} (h : s.produceStep pc = some (pc', t)) :
    pc' ≠ .idle := by
  rintro rfl
  cases pc <;> grind [produceStep]

end Blocking

namespace Fiber
variable {P R E : Type} [DecidableEq P] [Inhabited R] {s t : Fiber P R E}

/-- The fiber disposes the semaphore of its queue when no producer will come to
`Release` any more: none stands before it, and if the consumer is still in the wait set
none is between its look at the token and its lock section. -/
def DisposesUnsignalled (s : Fiber P R E) : FiberAct P R E → Prop
  | .exit => s.phase = .disposeSemaphore → s.queue.Unsignalled
  | .enqueue _ _ | .resume _ _ | .produce _ | .finish _ | .consume _ | .doItem | .disposeAsync
  | .cancel _ | .callback _ => True

/-- The fiber disposes the semaphore in one step of its `Consume`. -/
theorem refinesUnder_queue :
    (machine : Machine (Fiber P R E) _).RefinesUnder Blocking.machine DisposesUnsignalled
      Blocking.DisposesUnsignalled Fiber.queue where
  init := rfl
  step := by
    intro s a t _ ha h
    rcases queue_act h with hsame | ⟨b, hb, hdispose⟩
    · exact .inl hsame
    · refine .inr ⟨b, ?_, hb⟩
      cases b with
      | disposeSemaphore =>
          obtain ⟨rfl, hphase⟩ := hdispose rfl
          exact ha hphase
      | enqueue | produce | finish | consume | itemReturns | itemThrows | completeAdding
      | disposeSource => trivial

theorem leads_produce {p : P} {q : Blocking P ℕ (Exn E)}
    (h : Blocking.machine.Leads (· = .produce p) s.queue q)
    (hp : s.queue.producers p ≠ .idle) :
    ∃ t, machine.Leads (· = .produce p) s t ∧ t.queue = q ∧ t.queue.producers p ≠ .idle := by
  apply h.lift (I := fun s : Fiber P R E => s.queue.producers p ≠ .idle) hp
  intro s b u _ hb hstep
  subst hb
  have hstep' : s.queue.step (.produce p) = some u := hstep
  obtain ⟨pc, v, hv, hu⟩ := Blocking.produce_eq hstep'
  have hpc : u.producers p ≠ .idle := by
    rw [hu]
    simp only [Function.update_self]
    exact Blocking.produceStep_ne_idle hv
  have hfollow : ∃ t, machine.step s (.produce p) = some t ∧ t.queue = u := by
    simp only [machine, step, hstep', Option.map_some]
    exact ⟨_, rfl, rfl⟩
  obtain ⟨t, ht, rfl⟩ := hfollow
  exact ⟨.produce p, t, rfl, ht, rfl, hpc⟩

/-- In every run in which the semaphore is disposed with no signal under way: no call of
`Enqueue` or `Dispatch` lets an exception escape from the queue, and every call that has
begun comes by its own steps to its return, with the `Task` of its item or a canceled
one. -/
theorem enqueue_answers (hr : (machine : Machine (Fiber P R E) _).ReachableUnder
      DisposesUnsignalled s) (p : P) :
    ¬ (s.queue.producers p).Raised ∧
      (s.queue.producers p ≠ .idle → ∃ t, machine.Leads (· = .produce p) s t ∧
        (t.queue.producers p).Answered) := by
  have hnever : ∀ {s : Fiber P R E}, machine.ReachableUnder DisposesUnsignalled s →
      ¬ (s.queue.producers p).Raised :=
    fun hr => (Blocking.disposal_reachable (refinesUnder_queue.reachable hr)).raised p
  refine ⟨hnever hr, fun hp => ?_⟩
  obtain ⟨q, hq, hrest, -⟩ := Blocking.leads_producer_atRest p s.queue
  obtain ⟨t, hlead, rfl, hbegun⟩ := leads_produce hq hp
  refine ⟨t, hlead, ?_⟩
  have hraised : ¬ (t.queue.producers p).Raised := by
    apply hnever
    apply hlead.reachableUnder _ hr
    rintro s a rfl
    trivial
  cases hpc : t.queue.producers p with
  | returned item | canceled item => trivial
  | idle => exact (hbegun hpc).elim
  | raised item e =>
      rw [hpc] at hraised
      exact (hraised trivial).elim
  | enter item | create item | exchange item n | store item n prev | notify item | lock item
  | release item =>
      rw [hpc] at hrest
      exact hrest.elim

instance {T : Type} : DecidablePred (Producer.Releasing : Producer T → Prop)
  | .release _ => isTrue trivial
  | .idle | .enter _ | .create _ | .exchange _ _ | .store _ _ _ | .notify _ | .lock _
  | .returned _ | .canceled _ | .raised _ _ => isFalse not_false

instance {T : Type} : DecidablePred (Producer.Signalling : Producer T → Prop)
  | .create _ | .exchange _ _ | .store _ _ _ | .notify _ | .lock _ => isTrue trivial
  | .idle | .enter _ | .release _ | .returned _ | .canceled _ | .raised _ _ => isFalse not_false

instance [Fintype P] {T X : Type} (s : Blocking P T X) : Decidable s.Unsignalled :=
  decidable_of_iff ((∀ p, ¬ (s.producers p).Releasing) ∧
      (s.events.inWait = true → ∀ p, ¬ (s.producers p).Signalling))
    ⟨fun h => ⟨h.1, h.2⟩, fun h => ⟨h.released, h.watched⟩⟩

instance [Fintype P] (s : Fiber P R E) (a : FiberAct P R E) : Decidable (s.DisposesUnsignalled a) :=
  match a with
  | .exit => inferInstanceAs (Decidable (s.phase = .disposeSemaphore → s.queue.Unsignalled))
  | .enqueue _ _ | .resume _ _ | .produce _ | .finish _ | .consume _ | .doItem | .disposeAsync
  | .cancel _ | .callback _ => isTrue trivial

/-- A call that begins while the fiber is disposed is answered with a canceled task. -/
theorem enqueue_answers_canceled :
    ∃ s t : Fiber Unit Unit Unit, s.phase = .finished ∧ s.queue.events.inWait = true ∧
      machine.Leads (· = .produce ()) s t ∧ (t.queue.producers ()).Answered := by
  obtain ⟨s, hr, hphase, hin, hp⟩ := machine.exists_of_guarded_run DisposesUnsignalled
    (p := fun s : Fiber Unit Unit Unit => s.phase = .finished ∧ s.queue.events.inWait = true ∧
      s.queue.producers () = .enter 2)
    (List.flatten [[.enqueue () (.workItem (.ok ()))], List.replicate 5 (.produce ()),
      [.finish ()], List.replicate 4 (.consume true), [.doItem], List.replicate 7 (.consume true),
      [.disposeAsync, .consume true, .exit, .exit, .exit,
        .enqueue () (.workItem (.ok ())), .exit, .exit]])
    (by decide) (by decide)
  obtain ⟨t, hlead, hanswered⟩ := (enqueue_answers hr ()).2 (by rw [hp]; simp)
  exact ⟨s, t, hphase, hin, hlead, hanswered⟩

/-- A producer passes its look at the token before `DisposeAsync`; the consumer is
cancelled in `Wait` and the queue is disposed before the producer signals. -/
theorem enqueue_raises :
    ¬ ∀ s : Fiber Unit Unit Unit, machine.Reachable s → ∀ p, ¬ (s.queue.producers p).Raised := by
  intro h
  obtain ⟨s, hr, hp⟩ := machine.exists_of_run
    (p := fun s : Fiber Unit Unit Unit => s.queue.producers () = .raised 1 .objectDisposed)
    (List.flatten [List.replicate 7 (.consume true), [.enqueue () (.workItem (.ok ())),
      .produce (), .disposeAsync, .consume true, .exit, .exit, .exit, .exit],
      List.replicate 6 (.produce ())])
    (by decide)
  apply h s hr ()
  rw [hp]
  trivial

end Fiber
end ComposableAsync.Concurrent
