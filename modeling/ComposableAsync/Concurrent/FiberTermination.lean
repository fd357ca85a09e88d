import ComposableAsync.Concurrent.FiberAtomic
import ComposableAsync.Concurrent.QueueProgress
import ComposableAsync.Foundations.Fairness
import Mathlib.Algebra.Order.BigOperators.Group.List
import Mathlib.Algebra.Order.Ring.Nat

/-!
# `DisposeAsync` completes

After `CompleteAdding` the work ahead of the fiber's thread is bounded: calls that begin
are refused, those past their check add one item each, and the thread gets through the
items, the permits left in the semaphore and the drain, whatever the other threads do.
The one place where it waits for another thread is the `WaitOne` of `PrepareWait`, for a
producer that has only its `Release` left.

So in every run that is fair to the fiber's thread and to each producer, `_EndFiber` is
completed, unless a dispatched delegate let an exception escape that `Consume` does not
catch.
-/
namespace ComposableAsync.Concurrent
open Foundations

/-- The threads that work in the queue. -/
inductive Worker (P : Type) where
  | fiber
  | producer (p : P)

/-- The steps of a thread; a spin of the consumer that does not yield is no progress. -/
def Worker.Takes {P R E : Type} : Worker P → FiberAct P R E → Prop
  | .fiber, .consume yields => yields = true
  | .fiber, .doItem | .fiber, .exit => True
  | .producer p, .produce q => q = p
  | _, _ => False

/-- The steps left in `Enqueue` past its check of the token. -/
def Producer.stepsLeft {T : Type} : Producer T → ℕ
  | .create _ => 6
  | .exchange _ _ => 5
  | .store _ _ _ => 4
  | .notify _ => 3
  | .lock _ => 2
  | .release _ => 1
  | .idle | .enter _ | .returned _ | .canceled _ | .raised _ _ => 0

theorem Producer.Move.stepsLeft {T : Type} {pc pc' : Producer T} {added : List T}
    (h : Producer.Move true pc pc' added) :
    added.length ≤ 1 ∧ (pc'.stepsLeft < pc.stepsLeft ∨
      ∃ item, pc = .enter item ∧ pc'.stepsLeft = 0) := by
  cases h with
  | refuse item _ => exact ⟨Nat.zero_le _, .inr ⟨item, rfl, rfl⟩⟩
  | pass _ hopen => cases hopen
  | exchange | create | store | unwatched | watched | late | post | release | raise =>
      simp [Producer.stepsLeft]

/-- A bound on the steps to the end of `Wait` while no link is there; `current` if the
epoch read last is the epoch. -/
def Consumer.idleRank {T X : Type} (current : Bool) : Consumer T X → ℕ
  | .handing _ | .onItem _ | .ended _ => 0
  | .waiting | .take => 1
  | .compareEpoch => if current then 2 else 12
  | .retest => if current then 3 else 13
  | .retireLock .found => 2
  | .readInWait .found => 3
  | .setSpurious .found | .readEpoch => 4
  | .setInWait => 5
  | .waitOne => 6
  | .clearSpurious => 7
  | .readSpurious => 8
  | .test | .retireLock .stale => 9
  | .spin | .readInWait .stale => 10
  | .setSpurious .stale => 11

namespace Blocking
variable {P T X : Type} {s t : Blocking P T X}

/-- A bound on the steps of the consumer to the next item or to the end of the loop. -/
def consumerRank (s : Blocking P T X) : ℕ :=
  match s.consumer with
  | .ended _ => 0
  | .handing _ => 1
  | .onItem _ => 16
  | c =>
      if s.list.tailNext.isSome then c.rank
      else c.idleRank (s.events.epochStarted == s.events.epoch)

/-- A bound on the steps of the consumer to the end of the loop under a cancelled token,
if no producer does anything more. -/
def workRank (s : Blocking P T X) : ℕ :=
  32 * (s.exchanged.length - s.delivered.length) + 9 * s.events.permits + s.consumerRank

/-- The consumer waits for the permit of a spurious signal. -/
def Pumping (s : Blocking P T X) : Prop := s.consumer = .waitOne ∧ s.events.permits = 0

/-- What a step leaves as it is that the rank does not count. -/
structure Still (s t : Blocking P T X) : Prop where
  consumer : t.consumer = s.consumer
  permits : t.events.permits = s.events.permits
  rank : t.workRank = s.workRank
  exchanged : t.exchanged = s.exchanged
  steps : ∀ p, (t.producers p).stepsLeft = (s.producers p).stepsLeft
  releases : ∀ p item, s.producers p = .release item → t.producers p = .release item

variable [DecidableEq P]

theorem Still.setProducer {p : P} {pc : Producer T} (hpc : pc.stepsLeft = 0)
    (hp : (s.producers p).stepsLeft = 0) :
    s.Still { s with producers := Function.update s.producers p pc } := by
  refine ⟨rfl, rfl, rfl, rfl, fun q => ?_, fun q item hq => ?_⟩
  · by_cases hqp : q = p
    · subst hqp
      simp only [Function.update_self, hpc, hp]
    · simp only [Function.update_of_ne hqp]
  · have hqp : q ≠ p := by
      rintro rfl
      rw [hq] at hp
      cases hp
    simp only [Function.update_of_ne hqp, hq]

end Blocking

def Phase.rank : Phase → ℕ
  | .onElements => 5
  | .getUnsafeQueue _ => 4
  | .disposeSource => 3
  | .disposeSemaphore => 2
  | .endFiber => 1
  | .finished | .unhandled => 0

namespace Fiber
variable {P R E : Type} [DecidableEq P] [Inhabited R] {s t : Fiber P R E}

/-- The thread of the fiber, unless it waits for a producer to release a permit. -/
def Helpful (s : Fiber P R E) : Worker P → Prop
  | .fiber => ¬ s.queue.Pumping
  | .producer p => s.queue.Pumping ∧ ∃ ref, s.queue.producers p = .release ref

/-- `Consume` has come to its end. -/
def Over (s : Fiber P R E) : Prop := s.phase = .finished ∨ s.phase = .unhandled

/-- A run after `CompleteAdding`; `ps` are the producers past their check. -/
structure Stopping (ps : List P) (s : Fiber P R E) : Prop where
  run : machine.Reachable s
  canceled : s.queue.canceled = true
  producers : ∀ p, p ∉ ps → (s.queue.producers p).stepsLeft = 0

theorem Stopping.step {ps : List P} (hi : s.Stopping ps) {a : FiberAct P R E}
    (h : s.step a = some t) : t.Stopping ps := by
  have he := step_effect hi.run h
  refine ⟨hi.run.next h, he.canceled hi.canceled, fun p hp => ?_⟩
  have hzero := hi.producers p hp
  cases he.producer p with
  | stays hstays => rw [hstays, hzero]
  | begins _ henter _ => rw [henter]; rfl
  | moves added _ hmove _ =>
      rw [hi.canceled] at hmove
      rcases hmove.stepsLeft.2 with hless | ⟨_, -, hdone⟩
      · omega
      · exact hdone
  | ends _ _ hidle => rw [hidle]; rfl

omit [DecidableEq P] [Inhabited R] in
/-- Under a cancelled token nothing but a missing permit stops the consumer. -/
theorem consumeStep_enabled (hcanceled : s.queue.canceled = true) (hpump : ¬ s.queue.Pumping)
    (hc : (∃ ref, s.queue.consumer = .handing ref) ∨ s.queue.consumer.Looping) :
    (s.queue.consumeStep true).isSome = true := by
  cases hs : s.queue.consumer with
  | onItem _ | ended _ =>
      rw [hs] at hc
      rcases hc with ⟨_, hc⟩ | hc
      · cases hc
      · exact hc.elim
  | spin | take =>
      simp only [Blocking.consumeStep, hs]
      split <;> rfl
  | handing _ | test | retest | readSpurious | clearSpurious | setInWait | readEpoch | setSpurious _
  | readInWait _ | retireLock _ | compareEpoch =>
      simp only [Blocking.consumeStep, hs, Option.isSome_some]
  | waitOne =>
      have hpermit : 0 < s.queue.events.permits := Nat.pos_of_ne_zero fun hzero => hpump ⟨hs, hzero⟩
      simp only [Blocking.consumeStep, hs, EventCount.waitOne, if_pos hpermit, Option.map_some,
        Option.isSome_some]
  | waiting =>
      simp only [Blocking.consumeStep, hs, hcanceled, if_true]
      split <;> rfl

theorem Stopping.enabled {ps : List P} (hi : s.Stopping ps) (hover : ¬ s.Over) {w : Worker P}
    (hw : s.Helpful w) : ∃ a t, w.Takes a ∧ machine.step s a = some t := by
  cases w with
  | producer p =>
      obtain ⟨-, ref, hp⟩ := hw
      refine Machine.enabled_of_isSome s.step (a := .produce p) rfl ?_
      have hrest : ¬ (s.queue.producers p).AtRest := by simp [hp, Producer.AtRest]
      obtain ⟨pc, u, hu⟩ := Blocking.produceStep_enabled s.queue hrest
      simp only [Fiber.step, Blocking.step, hu, Option.map_some, Option.isSome_some]
  | fiber =>
      have hexit : (s.exitStep).isSome = true → ∃ a t, Worker.fiber.Takes a ∧
          machine.step s a = some t :=
        Machine.enabled_of_isSome s.step (a := .exit) trivial
      have hconsume : (∃ ref, s.queue.consumer = .handing ref) ∨ s.queue.consumer.Looping →
          ∃ a t, Worker.fiber.Takes a ∧ machine.step s a = some t := by
        intro hc
        refine Machine.enabled_of_isSome s.step (a := .consume true) rfl ?_
        simp only [Fiber.step, Blocking.step, Option.isSome_map]
        exact consumeStep_enabled hi.canceled hw hc
      cases hphase : s.phase with
      | onElements =>
          cases hc : s.queue.consumer with
          | ended cause =>
              apply hexit
              simp only [exitStep, hphase, hc]
              cases cause with
              | canceled | nullReference => rfl
              | threw e => cases e <;> rfl
          | onItem ref =>
              refine Machine.enabled_of_isSome s.step (a := .doItem) trivial ?_
              simp only [Fiber.step, hc]
              split <;> simp only [Blocking.step, hc, Option.map_some, Option.isSome_some]
          | handing ref => exact hconsume (.inl ⟨ref, hc⟩)
          | _ =>
              refine hconsume (.inr ?_)
              rw [hc]
              trivial
      | getUnsafeQueue node =>
          apply hexit
          simp only [exitStep, hphase]
          split <;> rfl
      | disposeSource | disposeSemaphore =>
          obtain ⟨cause, hc⟩ := ended_of_phase hi.run (by simp [hphase])
          apply hexit
          simp only [exitStep, hphase, Blocking.step, hc, Option.map_some, Option.isSome_some]
      | endFiber =>
          apply hexit
          simp only [exitStep, hphase, Option.isSome_some]
      | finished => exact (hover (.inl hphase)).elim
      | unhandled => exact (hover (.inr hphase)).elim

/-- Why `OnElements` ended without `CompleteAdding`, and why `Consume` may not catch it. -/
structure Causes (s : Fiber P R E) : Prop where
  threw : ∀ e, s.queue.consumer = .ended (.threw e) →
    ∃ ref ∈ s.queue.delivered, (s.items ref).job.thrown = some e
  canceled : s.queue.consumer = .ended .canceled → s.queue.canceled = true
  nullReference : s.queue.consumer ≠ .ended .nullReference
  unhandled : s.phase = .unhandled → ∃ e, s.queue.consumer = .ended (.threw (.other e))

theorem causes_reachable (hr : (machine : Machine (Fiber P R E) _).Reachable s) : s.Causes := by
  refine hr.invariant ⟨(fun _ h => by cases h), (fun h => by cases h), (fun h => by cases h),
    fun h => by cases h⟩ ?_
  intro s a t hr hi h
  have he := step_effect hr h
  refine ⟨fun e hc => ?_, fun hc => he.canceled ?_, fun hc => ?_, fun hphase => ?_⟩
  · have hdelivered : s.queue.delivered <+: t.queue.delivered := by
      rcases he.delivered with hsame | ⟨ref, -, -, hmore⟩
      · exact hsame ▸ List.prefix_rfl
      · exact ⟨[ref], hmore.symm⟩
    have hkept : ∀ ref ∈ s.queue.delivered, (t.items ref).job = (s.items ref).job := by
      intro ref hm
      exact (he.later (lt_created hr (.inr (delivered_exchanged hr hm)))).job
    rcases he.ended hc with hold | ⟨-, -, -, -, hcause⟩ | ⟨-, ref, e', hs, hthrown, hcause⟩
    · obtain ⟨ref, hm, hthrown⟩ := hi.threw e hold
      exact ⟨ref, hdelivered.subset hm, by rw [hkept ref hm, hthrown]⟩
    · cases hcause
    · cases hcause
      have hm := Blocking.mem_of_onItem (queue_reachable hr) hs
      exact ⟨ref, hdelivered.subset hm, by rw [hkept ref hm, hthrown]⟩
  · rcases he.ended hc with hold | ⟨-, -, -, hcanceled, -⟩ | ⟨-, ref, e, -, -, hcause⟩
    · exact hi.canceled hold
    · exact hcanceled
    · cases hcause
  · rcases he.ended hc with hold | ⟨-, -, -, -, hcause⟩ | ⟨-, ref, e, -, -, hcause⟩
    · exact hi.nullReference hold
    · cases hcause
    · cases hcause
  · by_cases hs : s.phase = .unhandled
    · obtain ⟨e, hc⟩ := hi.unhandled hs
      have hlead : machine.Leads (fun _ => True) s t := Machine.leads_single trivial h
      exact ⟨e, (delivered_of_ended hr hc hlead).1⟩
    · cases he with
      | exit t hexit =>
          cases hexit with
          | unhandled _ hcause =>
              rcases hcause with ⟨e, hc⟩ | hc
              · exact ⟨e, hc⟩
              · exact (hi.nullReference hc).elim
          | drain | cancel | drained | disposeSource | disposeSemaphore | endFiber => cases hphase
      | _ => exact (hs hphase).elim

end Fiber
end ComposableAsync.Concurrent
