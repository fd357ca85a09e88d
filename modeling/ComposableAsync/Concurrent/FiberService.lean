import ComposableAsync.Concurrent.FiberShutdown
import ComposableAsync.Concurrent.QueueProgress

/-!
# What stops the fiber

`Do` of every work item but `DispatchItem` catches what its delegate throws, so
the consumer goes on to the next item. An exception out of `DispatchItem.Do`
ends `OnElements`, and `Consume` takes an `OperationCanceledException` for the
cancellation of the queue. As long as no dispatched delegate throws, the
consumer leaves the loop only after `CompleteAdding`, no `Enqueue` is refused
before, and whatever is queued can be executed to the last item.
-/
namespace ComposableAsync.Concurrent
open Foundations

namespace Fiber
variable {P R E : Type}

/-- No delegate submitted through `Dispatch` throws before `CompleteAdding`. -/
def DispatchesReturn (s : Fiber P R E) : FiberAct P R E → Prop
  | .doItem => ∀ ref ∈ s.queue.consumer.current, (s.items ref).job.thrown ≠ none →
      s.queue.canceled = true
  | _ => True

/-- A step of the consumer, or of a producer inside `Enqueue`. -/
def IsServing : FiberAct P R E → Prop
  | .produce _ | .consume _ | .doItem => True
  | .enqueue _ _ | .resume _ _ | .finish _ | .exit | .disposeAsync | .cancel _ | .callback _ =>
      False

/-- No work item in the queue is a dispatched delegate that throws. -/
def NoneThrows (s : Fiber P R E) : Prop :=
  ∀ ref, s.HoldsRef ref → (s.items ref).job.thrown = none

instance [DecidableEq E] (s : Fiber P R E) : DecidablePred s.DispatchesReturn
  | .doItem => inferInstanceAs (Decidable (∀ ref ∈ s.queue.consumer.current,
      (s.items ref).job.thrown ≠ none → s.queue.canceled = true))
  | .enqueue _ _ | .resume _ _ | .produce _ | .finish _ | .consume _ | .exit | .disposeAsync
  | .cancel _ | .callback _ => isTrue trivial

variable [DecidableEq P] [Inhabited R] {s t : Fiber P R E}

/-- The consumer left `OnElements`, or refused a call, only after `CompleteAdding`. -/
structure StopsWhenAsked (s : Fiber P R E) : Prop where
  consumer : ∀ cause, s.queue.consumer = .ended cause → s.queue.canceled = true
  producers : ∀ p ref, s.queue.producers p = .canceled ref → s.queue.canceled = true

theorem StopsWhenAsked.step (hi : s.StopsWhenAsked) {a : FiberAct P R E}
    (hg : s.DispatchesReturn a) (he : s.Effect a t) : t.StopsWhenAsked := by
  constructor
  · intro cause hc
    apply he.canceled
    rcases he.ended hc with hold | ⟨-, -, -, hcanceled, -⟩ | ⟨rfl, ref, e, hs, hthrown, -⟩
    · exact hi.consumer cause hold
    · exact hcanceled
    · apply hg ref
      · rw [hs]
        rfl
      · rw [hthrown]
        exact Option.some_ne_none e
  · intro p ref hp
    apply he.canceled
    rcases he.refused hp with hold | hcanceled
    · exact hi.producers p ref hold
    · exact hcanceled

theorem stopsWhenAsked_reachable (hr : machine.ReachableUnder DispatchesReturn s) :
    s.StopsWhenAsked := by
  refine hr.invariant ⟨(fun _ h => by cases h), fun _ _ h => by cases h⟩ ?_
  intro s a t hr hi hg h
  exact hi.step hg (step_effect hr.reachable h)

theorem Effect.holdsRef_keep {a : FiberAct P R E} (he : s.Effect a t) (ha : IsServing a)
    {ref : ℕ} (h : s.HoldsRef ref) : t.HoldsRef ref := by
  rcases h with ⟨p, hp⟩ | hm
  · refine .inl ⟨p, ?_⟩
    cases he.producer p with
    | stays hstays => rw [hstays, hp]
    | begins hidle _ _ =>
        rw [hidle] at hp
        cases hp
    | moves added _ hmove _ => rw [hmove.item.1, hp]
    | ends hfinish _ _ =>
        subst hfinish
        exact ha.elim
  · exact .inr (he.exchanged_prefix.subset hm)

theorem Effect.serving {a : FiberAct P R E} (he : s.Effect a t) (ha : IsServing a) :
    t.created = s.created ∧ t.queue.canceled = s.queue.canceled := by
  cases he with
  | produce p pc added q _ _ _ _ hcanceled | consume yields q _ _ _ hcanceled
  | doItem ref q _ _ _ _ _ _ hcanceled | throw ref e q _ _ _ _ _ _ hcanceled =>
      exact ⟨rfl, hcanceled⟩
  | enqueue | resume | finish | exit | disposeAsync | cancel | callback => exact ha.elim

/-- A state on the way from `start` in which no dispatched delegate is to throw. -/
structure Served (start s : Fiber P R E) : Prop where
  run : machine.ReachableUnder DispatchesReturn s
  canceled : s.queue.canceled = false
  returns : s.NoneThrows
  holds : ∀ ref, start.HoldsRef ref → s.HoldsRef ref

theorem Served.step {start : Fiber P R E} (hi : Served start s) {a : FiberAct P R E}
    (ha : IsServing a) (h : machine.step s a = some t) : Served start t := by
  have he := step_effect hi.run.reachable h
  obtain ⟨hcreated, hcanceled⟩ := he.serving ha
  have hguard : s.DispatchesReturn a := by
    cases he with
    | doItem ref q hc | throw ref e q hc =>
        intro r hr hthrown
        rw [hc] at hr
        cases hr
        exact (hthrown (hi.returns ref (holdsRef_of_onItem hi.run.reachable hc))).elim
    | _ => trivial
  constructor
  · exact hi.run.step hguard h
  · rw [hcanceled]
    exact hi.canceled
  · intro ref hm
    have hold : s.HoldsRef ref := by
      apply (he.holdsRef hm).resolve_right
      rintro ⟨-, hnew⟩
      omega
    have hjob := (he.later (lt_created hi.run.reachable hold)).job
    rw [hjob]
    exact hi.returns ref hold
  · intro ref hm
    exact he.holdsRef_keep ha (hi.holds ref hm)

/-- The consumer of the fiber follows the queue: an item returns when its `Do`
does. -/
theorem Served.follow {start : Fiber P R E} (hi : Served start s)
    {b : BlockingAct P ℕ (Exn E)} (hb : Blocking.IsServing b) {u : Blocking P ℕ (Exn E)}
    (h : Blocking.machine.step s.queue b = some u) :
    ∃ a t, IsServing a ∧ machine.step s a = some t ∧ t.queue = u ∧ Served start t := by
  have hq : s.queue.step b = some u := h
  have hfollow : ∃ a t, IsServing a ∧ machine.step s a = some t ∧ t.queue = u := by
    cases b with
    | produce p =>
        cases hstep : machine.step s (.produce p) with
        | none => simp [machine, Fiber.step, hq] at hstep
        | some t =>
            refine ⟨.produce p, t, trivial, hstep, ?_⟩
            simp only [machine, Fiber.step, hq, Option.map_some, Option.some.injEq] at hstep
            subst hstep
            rfl
    | consume yields =>
        refine ⟨.consume yields, { s with queue := u }, trivial, ?_, rfl⟩
        simp only [machine, Fiber.step, hq, Option.map_some]
    | itemReturns =>
        have hc : ∃ ref, s.queue.consumer = .onItem ref := by
          simp only [Blocking.step] at hq
          split at hq
          · rename_i ref hc
            exact ⟨ref, hc⟩
          · cases hq
        obtain ⟨ref, hc⟩ := hc
        have hdo := doItem_thrown s.requested s.items ref
        rw [hi.returns ref (holdsRef_of_onItem hi.run.reachable hc)] at hdo
        refine ⟨.doItem, { s with queue := u, items := (doItem s.requested s.items ref).1 },
          trivial, ?_, rfl⟩
        simp only [machine, Fiber.step, hc]
        split
        · rename_i items hitems
          simp only [hitems, hq, Option.map_some]
        · rename_i items e hitems
          cases hdo.symm.trans (congrArg Prod.snd hitems)
    | enqueue | finish | itemThrows | completeAdding | disposeSource | disposeSemaphore =>
        exact hb.elim
  obtain ⟨a, t, ha, hstep, ht⟩ := hfollow
  exact ⟨a, t, ha, hstep, ht, hi.step ha hstep⟩

/-- In every run in which no dispatched delegate throws before `CompleteAdding`,
the consumer has not left `OnElements` before, whatever the other delegates
throw; no `Enqueue` was refused; and unless a dispatched delegate in the queue
is going to throw, the threads inside the queue can go on to the state in which
every call of `Enqueue` has ended and every item has been executed. -/
theorem serves_of_dispatchesReturn (hr : machine.ReachableUnder DispatchesReturn s) :
    s.StopsWhenAsked ∧
      (s.queue.canceled = false → s.NoneThrows →
        ∃ t, machine.Leads IsServing s t ∧ (∀ p, (t.queue.producers p).AtRest) ∧
          t.queue.consumer.Looping ∧ ∀ ref, s.HoldsRef ref → ref ∈ t.queue.delivered) := by
  refine ⟨stopsWhenAsked_reachable hr, fun hcanceled hreturns => ?_⟩
  have hrunning : ∀ cause, s.queue.consumer ≠ .ended cause := by
    intro cause hc
    cases hcanceled.symm.trans ((stopsWhenAsked_reachable hr).consumer cause hc)
  obtain ⟨q, hlead, hrest, hloop, hall⟩ :=
    Blocking.leads_delivered (queue_reachable hr.reachable) hrunning
  have hserved : Served s s := ⟨hr, hcanceled, hreturns, fun _ h => h⟩
  obtain ⟨t, hlead', rfl, hi⟩ := hlead.lift (M := machine) (f := Fiber.queue) hserved
    fun hi hb h => hi.follow hb h
  refine ⟨t, hlead', hrest, hloop, fun ref href => ?_⟩
  rw [hall]
  -- a call that has ended was not refused, so its item was exchanged
  rcases hi.holds ref href with ⟨p, hp⟩ | hm
  · have hadded := (exchanged_reachable hi.run.reachable).added p ref
    have hrefused := (stopsWhenAsked_reachable hi.run).producers p
    have hrestp := hrest p
    cases hpc : t.queue.producers p with
    | canceled item => cases hi.canceled.symm.trans (hrefused item hpc)
    | idle =>
        rw [hpc] at hp
        cases hp
    | returned item | raised item e =>
        rw [hpc] at hp hadded
        exact hadded hp
    | enter | create | exchange | store | notify | lock | release =>
        rw [hpc] at hrestp
        exact hrestp.elim
  · exact hm

/-- An enqueued delegate throws an `OperationCanceledException`, and the item
behind it is served. -/
theorem serves_of_dispatchesReturn_failing :
    ∃ s t : Fiber Unit Unit Unit, (s.items 1).job.thrown = none ∧ s.queue.delivered = [1] ∧
      s.queue.pending = [2] ∧ machine.Leads IsServing s t ∧ 2 ∈ t.queue.delivered := by
  obtain ⟨s, hr, hc, hp, he, h1, h2, hd, hpending⟩ := Machine.exists_of_guarded_run (M := machine)
    (p := fun s : Fiber Unit Unit Unit => s.queue.canceled = false ∧
      s.queue.producers () = .returned 2 ∧ s.queue.exchanged = [1, 2] ∧
      (s.items 1).job.thrown = none ∧ (s.items 2).job.thrown = none ∧
      s.queue.delivered = [1] ∧ s.queue.pending = [2])
    DispatchesReturn
    (List.flatten [[.enqueue () (.workItem (.error (.operationCanceled none)))],
      List.replicate 5 (.produce ()), [.finish (), .enqueue () (.workItem (.ok ()))],
      List.replicate 5 (.produce ()), List.replicate 4 (.consume true), [.doItem]])
    (by decide) (by decide)
  have hreturns : s.NoneThrows := by
    rintro ref (⟨p, hitem⟩ | hm)
    · rw [hp] at hitem
      cases hitem
      exact h2
    · rw [he] at hm
      simp only [List.mem_cons, List.not_mem_nil, or_false] at hm
      rcases hm with rfl | rfl
      · exact h1
      · exact h2
  obtain ⟨t, hlead, -, -, hall⟩ := (serves_of_dispatchesReturn hr).2 hc hreturns
  have hholds : s.HoldsRef 2 := .inr (by simp [he])
  exact ⟨s, t, h1, hd, hpending, hlead, hall 2 hholds⟩

/-- A dispatched delegate throws an `OperationCanceledException`: the fiber
finishes without `CompleteAdding` and cancels the item behind. -/
theorem stopped_by_dispatch :
    ∃ s : Fiber Unit Unit Unit, machine.Reachable s ∧ s.queue.canceled = false ∧
      s.queue.consumer = .ended (.threw (.operationCanceled none)) ∧ s.phase = .finished ∧
      s.queue.delivered = [1] ∧ (s.items 2).source = .canceled :=
  Machine.exists_of_run (M := machine)
    (p := fun s : Fiber Unit Unit Unit => s.queue.canceled = false ∧
      s.queue.consumer = .ended (.threw (.operationCanceled none)) ∧ s.phase = .finished ∧
      s.queue.delivered = [1] ∧ (s.items 2).source = .canceled)
    (List.flatten [[.enqueue () (.dispatchItem (.error (.operationCanceled none)))],
      List.replicate 5 (.produce ()), [.finish (), .enqueue () (.workItem (.ok ()))],
      List.replicate 5 (.produce ()), List.replicate 4 (.consume true), [.doItem],
      List.replicate 6 .exit])
    (by decide)

/-- The condition is exact: `Do` makes the consumer leave if and only if it lets
an exception escape. -/
theorem ended_iff_thrown {ref : ℕ} (hc : s.queue.consumer = .onItem ref)
    (h : s.step .doItem = some t) :
    (∃ cause, t.queue.consumer = .ended cause) ↔ (s.items ref).job.thrown ≠ none := by
  rw [← doItem_thrown s.requested s.items ref]
  simp only [step, hc] at h
  split at h
  · rename_i items hdo
    simp only [Option.map_eq_some_iff, Blocking.step, hc] at h
    obtain ⟨q, hq, rfl⟩ := h
    cases hq
    simp [hdo]
  · rename_i items e hdo
    simp only [Option.map_eq_some_iff, Blocking.step, hc] at h
    obtain ⟨q, hq, rfl⟩ := h
    cases hq
    simp [hdo]

end Fiber
end ComposableAsync.Concurrent
