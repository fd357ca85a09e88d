import ComposableAsync.Concurrent.QueueShutdown
import ComposableAsync.Concurrent.ScheduledTasks

/-!
# The fiber as a queue of atomic operations

Where nobody is inside `Enqueue` when `CompleteAdding` is called, and the dispatched
delegates return, the fiber on its blocking queue does what the queue of atomic operations
does. `Enqueue` takes effect at its Exchange, the consumer takes an element at the advance of the
tail, and the drain finds nothing.
-/
namespace ComposableAsync.Concurrent
open Foundations

namespace QueueRun
variable {Q T : Type}

def machine (I : IMpScQueue Q T) : Machine (QueueRun Q T) (QueueAct T) where
  init := start I
  step s a := some (s.step I a)

/-- Every state the machine reaches is that of a sequence of operations. -/
theorem run_of_reachable {I : IMpScQueue Q T} {s : QueueRun Q T} (h : (machine I).Reachable s) :
    ∃ as, s = run I as := by
  apply h.invariant (I := fun s => ∃ as, s = run I as)
  · exact ⟨[], rfl⟩
  · rintro s a t - ⟨as, rfl⟩ hstep
    cases hstep
    exact ⟨as ++ [a], (run_concat I as a).symm⟩

end QueueRun

namespace Fiber
variable {P R E : Type}

/-- `CompleteAdding` is called with nobody inside `Enqueue` past its look at the token, and
no dispatched delegate throws. -/
def CompletesAlone (s : Fiber P R E) : FiberAct P R E → Prop
  | .disposeAsync => ∀ p, ¬ (s.queue.producers p).Underway
  | .doItem => ∀ ref ∈ s.queue.consumer.current, (s.items ref).job.thrown = none
  | .enqueue _ _ | .resume _ _ | .produce _ | .finish _ | .consume _ | .exit | .cancel _
  | .callback _ => True

/-- The stage of the atomic operations at which the fiber stands. -/
def stage (s : Fiber P R E) : Stage ℕ :=
  match s.phase with
  | .onElements =>
      match s.queue.consumer with
      | .handing ref | .onItem ref => .onItem ref
      | .ended _ => .getUnsafeQueue s.queue.pending 0
      | _ => .onElements
  | .getUnsafeQueue _ => .getUnsafeQueue s.queue.pending s.drained.length
  | .disposeSource | .disposeSemaphore | .endFiber | .finished | .unhandled => .finished

/-- The fiber as the atomic operations see it. -/
def atomic (s : Fiber P R E) : QueueRun (NodeQueue ℕ) ℕ where
  queue := { items := s.queue.pending, canceled := s.queue.canceled }
  stage := s.stage
  accepted := s.queue.exchanged
  executed := s.queue.delivered ++ s.queue.consumer.inHand.toList
  cancelled := s.drained

variable [DecidableEq P] [Inhabited R] {s t : Fiber P R E}

theorem Effect.completes {a : FiberAct P R E} (h : s.Effect a t)
    (hc : t.queue.canceled = true) :
    s.queue.canceled = true ∨ a = .disposeAsync ∧ t.queue.producers = s.queue.producers := by
  cases h with
  | enqueue p job q _ _ _ _ hcanceled | resume p target q _ _ _ _ hcanceled
  | finish p q _ _ _ hcanceled | produce p pc items q _ _ _ _ hcanceled
  | consume yields q _ _ _ hcanceled | doItem ref q _ _ _ _ _ _ hcanceled
  | throw ref e q _ _ _ _ _ _ hcanceled => exact .inl (hcanceled.symm.trans hc)
  | exit t hexit =>
      cases hexit with
      | drain | unhandled | cancel | drained | endFiber => exact .inl hc
      | disposeSource q _ _ _ hcanceled | disposeSemaphore q _ _ _ hcanceled =>
          exact .inl (hcanceled.symm.trans hc)
  | disposeAsync q _ hproducers => exact .inr ⟨rfl, hproducers⟩
  | cancel | callback => exact .inl hc

theorem not_underway_of_canceled
    (hr : (machine : Machine (Fiber P R E) _).ReachableUnder CompletesAlone s)
    (hc : s.queue.canceled = true) : ∀ p, ¬ (s.queue.producers p).Underway := by
  revert hc
  apply hr.invariant
    (I := fun s => s.queue.canceled = true → ∀ p, ¬ (s.queue.producers p).Underway)
  · intro hc
    cases hc
  · intro s a t hr hi ha h hc
    have he := step_effect hr.reachable h
    rcases he.completes hc with hold | ⟨rfl, hproducers⟩
    · exact (he.not_underway hold (hi hold)).1
    · rw [hproducers]
      exact ha

theorem leavesAlone_of_completesAlone
    (hr : (machine : Machine (Fiber P R E) _).ReachableUnder CompletesAlone s) :
    machine.ReachableUnder LeavesAlone s := by
  apply hr.invariant
  · exact .init
  · intro s a t hr hi ha h
    apply hi.step _ h
    cases a with
    | consume yields =>
        intro _ _ hcanceled
        exact not_underway_of_canceled hr hcanceled
    | doItem => exact ha
    | enqueue | resume | produce | finish | exit | disposeAsync | cancel | callback => trivial

theorem ended_of_phase (hr : (machine : Machine (Fiber P R E) _).Reachable s)
    (hphase : s.phase ≠ .onElements) : ∃ cause, s.queue.consumer = .ended cause := by
  revert hphase
  apply hr.invariant
    (I := fun s => s.phase ≠ .onElements → ∃ cause, s.queue.consumer = .ended cause)
  · intro hphase
    exact (hphase rfl).elim
  · intro s a t hr hi h hphase
    by_cases hs : s.phase = .onElements
    · cases step_effect hr h with
      | exit t hexit =>
          cases hexit with
          | drain _ hcause =>
              rcases hcause with hc | ⟨token, hc⟩
              · exact ⟨_, hc⟩
              · exact ⟨_, hc⟩
          | unhandled _ hcause =>
              rcases hcause with ⟨e, hc⟩ | hc
              · exact ⟨_, hc⟩
              · exact ⟨_, hc⟩
          | cancel _ _ hother | drained _ hother | disposeSource _ hother
          | disposeSemaphore _ hother | endFiber hother => cases hs.symm.trans hother
      | _ => exact (hphase hs).elim
    · obtain ⟨cause, hc⟩ := hi hs
      have hlead : machine.Leads (fun _ => True) s t := Machine.leads_single trivial h
      exact ⟨cause, (delivered_of_ended hr hc hlead).1⟩

section LeavesAlone
variable (hr : (machine : Machine (Fiber P R E) _).ReachableUnder LeavesAlone s)
include hr

theorem cause_canceled {cause : Ended (Exn E)} (hc : s.queue.consumer = .ended cause) :
    cause = .canceled := by
  revert cause
  apply hr.invariant (I := fun s => ∀ {cause}, s.queue.consumer = .ended cause → cause = .canceled)
  · intro cause hc
    cases hc
  · intro s a t hr hi ha h cause hc
    rcases (step_effect hr.reachable h).ended hc with hold | ⟨-, -, -, -, hcause⟩ |
      ⟨rfl, ref, e, hs, hthrown, -⟩
    · exact hi hold
    · exact hcause
    · have hnone : (s.items ref).job.thrown = none := by
        apply ha ref
        rw [hs]
        rfl
      cases hthrown.symm.trans hnone

theorem pending_of_ended {cause : Ended (Exn E)} (hc : s.queue.consumer = .ended cause) :
    s.queue.pending = [] := by
  rw [Blocking.pending, ← (leftAlone_of_ended hr hc).delivered]
  exact List.drop_eq_nil_of_le (Nat.le_add_right _ _)

theorem link_of_at {cause : Ended (Exn E)} (hc : s.queue.consumer = .ended cause) {node : ℕ}
    (hat : s.queue.mpsc.At node s.queue.delivered) : s.queue.list.link node = none := by
  cases hlink : s.queue.list.link node with
  | none => rfl
  | some next =>
      have hnext := hat.next (Blocking.mpsc_inv (queue_reachable hr.reachable)) hlink
      have hprefix : s.queue.delivered ++ [s.queue.mpsc.list.value next] <+: s.queue.exchanged :=
        hnext.isPrefix
      rw [← (leftAlone_of_ended hr hc).delivered] at hprefix
      have hlength := hprefix.length_le
      simp only [List.length_append, List.length_singleton] at hlength
      omega

end LeavesAlone

/-- The drain stands behind what was delivered and cancels nothing. -/
structure DrainsNothing (s : Fiber P R E) : Prop where
  cursor : ∀ node, s.phase = .getUnsafeQueue node → s.queue.mpsc.At node s.queue.delivered
  drained : s.drained = []

theorem drainsNothing_reachable
    (hr : (machine : Machine (Fiber P R E) _).ReachableUnder LeavesAlone s) :
    s.DrainsNothing := by
  apply hr.invariant
  · refine ⟨fun node hphase => ?_, rfl⟩
    cases hphase
  · intro s a t hr hi ha h
    have hkeep : ∀ node, s.phase = .getUnsafeQueue node →
        t.queue.mpsc.At node t.queue.delivered := by
      intro node hphase
      obtain ⟨cause, hc⟩ := ended_of_phase hr.reachable (by simp [hphase])
      have hlead : machine.Leads (fun _ => True) s t := Machine.leads_single trivial h
      rw [(delivered_of_ended hr.reachable hc hlead).2]
      exact at_step hr.reachable h (hi.cursor node hphase)
    cases step_effect hr.reachable h with
    | exit t hexit =>
        cases hexit with
        | drain hphase hcause =>
            have hhand : s.queue.consumer.inHand = none := by
              rcases hcause with hc | ⟨token, hc⟩ <;> rw [hc] <;> rfl
            have hat := at_tail hr.reachable hhand
            refine ⟨fun node hnode => ?_, hi.drained⟩
            cases hnode
            exact hat
        | cancel node next hphase hlink =>
            obtain ⟨cause, hc⟩ := ended_of_phase hr.reachable (by simp [hphase])
            cases (link_of_at hr hc (hi.cursor node hphase)).symm.trans hlink
        | unhandled | drained | disposeSource | disposeSemaphore | endFiber =>
            refine ⟨fun node hnode => ?_, hi.drained⟩
            cases hnode
    | _ => exact ⟨hkeep, hi.drained⟩

omit [DecidableEq P] [Inhabited R] in
theorem atomic_eq (hphase : t.phase = s.phase) (hdrained : t.drained = s.drained)
    (hquiet : s.queue.Quiet t.queue) (hcanceled : t.queue.canceled = s.queue.canceled) :
    t.atomic = s.atomic := by
  simp only [atomic, stage, hphase, hdrained, hquiet.pending, hquiet.consumer, hquiet.delivered,
    hquiet.exchanged, hcanceled]

omit [DecidableEq P] [Inhabited R] in
theorem stage_of_looping (hphase : s.phase = .onElements) (hc : s.queue.consumer.Looping) :
    s.stage = .onElements := by
  cases hs : s.queue.consumer with
  | handing _ | onItem _ | ended _ =>
      rw [hs] at hc
      exact hc.elim
  | _ => simp only [stage, hphase, hs]

theorem phase_of_running (hr : (machine : Machine (Fiber P R E) _).Reachable s)
    (hc : ∀ cause, s.queue.consumer ≠ .ended cause) : s.phase = .onElements := by
  by_contra hphase
  obtain ⟨cause, hended⟩ := ended_of_phase hr hphase
  exact hc cause hended

omit [DecidableEq P] [Inhabited R] in
/-- The atomic operations make the step, or stand still. -/
def Follows (s t : Fiber P R E) : Prop :=
  t.atomic = s.atomic ∨ ∃ b, s.atomic.step blockingMpscQueue b = t.atomic

theorem running_of_open (hr : (machine : Machine (Fiber P R E) _).ReachableUnder CompletesAlone s)
    (hopen : s.queue.canceled = false) : ∀ cause, s.queue.consumer ≠ .ended cause := by
  intro cause hc
  have hleft := leftAlone_of_ended (leavesAlone_of_completesAlone hr) hc
  cases hopen.symm.trans hleft.canceled

theorem follows_produce {p : P}
    (hr : (machine : Machine (Fiber P R E) _).ReachableUnder CompletesAlone s)
    (h : machine.step s (.produce p) = some t) : s.Follows t := by
  have hrt : machine.Reachable t := hr.reachable.next h
  have he : s.Effect (.produce p) t := step_effect hr.reachable h
  cases he with
  | produce p pc added q hmove hproducers hconsumer hdelivered hcanceled hexchanged =>
      generalize hp : s.queue.producers p = before at hmove
      cases hmove with
      | exchange ref n prev =>
          have hopen : s.queue.canceled = false := by
            rw [Bool.eq_false_iff]
            intro hc
            have hclear := not_underway_of_canceled hr hc p
            rw [hp] at hclear
            exact hclear (.inl trivial)
          have hrunning := running_of_open hr hopen
          have hphase := phase_of_running hr.reachable hrunning
          have hpending : q.pending = s.queue.pending ++ [ref] := by
            have hs := Blocking.exchanged_eq (queue_reachable hr.reachable)
            have ht : q.exchanged = q.delivered ++ q.consumer.inHand.toList ++ q.pending :=
              Blocking.exchanged_eq (queue_reachable hrt)
            rw [hexchanged, hdelivered, hconsumer, hs, List.append_assoc _ _ [ref]] at ht
            exact (List.append_cancel_left ht).symm
          right
          refine ⟨.enqueue ref, ?_⟩
          simp only [QueueRun.step, blockingMpscQueue, nodeQueue, atomic, stage, hopen,
            Bool.false_eq_true, if_false, hphase, hpending, hconsumer, hdelivered, hcanceled,
            hexchanged]
          cases hc : s.queue.consumer with
          | ended cause => exact (hrunning cause hc).elim
          | _ => rfl
      | refuse | pass | create | store | unwatched | watched | late | post | release | raise =>
          rw [List.append_nil] at hexchanged
          left
          apply atomic_eq
          · rfl
          · rfl
          · exact ⟨hconsumer, hdelivered, hexchanged⟩
          · exact hcanceled

theorem follows_consume {yields : Bool}
    (hr : (machine : Machine (Fiber P R E) _).ReachableUnder CompletesAlone s)
    (h : machine.step s (.consume yields) = some t) : s.Follows t := by
  have he : s.Effect (.consume yields) t := step_effect hr.reachable h
  cases he with
  | consume yields q hmove hexchanged hproducers hcanceled =>
      have hphase : (∀ cause, s.queue.consumer ≠ .ended cause) → s.phase = .onElements :=
        phase_of_running hr.reachable
      cases hmove with
      | loop hs ht hpending hdelivered =>
          have hrunning : ∀ cause, s.queue.consumer ≠ .ended cause := by
            intro cause hc
            rw [hc] at hs
            exact hs.elim
          left
          have hstage := stage_of_looping (hphase hrunning) hs
          have hstage' : Fiber.stage { s with queue := q } = .onElements :=
            stage_of_looping (hphase hrunning) ht
          simp only [atomic, hstage, hstage', hpending, hdelivered, hexchanged, hcanceled,
            hs.inHand, ht.inHand]
      | take item hs ht hpending hdelivered =>
          have hs' := hphase (by simp [hs])
          right
          refine ⟨.consume, ?_⟩
          simp only [QueueRun.step, QueueRun.consume, blockingMpscQueue, nodeQueue, atomic, stage,
            hs', hs, ht, hpending, BlockingMpscQueue.next, hdelivered, hexchanged, hcanceled,
            Consumer.inHand, Option.toList_none, Option.toList_some, List.append_nil]
      | hand item hs ht hpending hdelivered =>
          have hs' := hphase (by simp [hs])
          left
          simp only [atomic, stage, hs', hs, ht, hpending, hdelivered, hexchanged, hcanceled,
            Consumer.inHand, Option.toList_none, Option.toList_some, List.append_nil]
      | leave hs hpermits hc ht hpending hdelivered =>
          have hs' := hphase (by simp [hs])
          have hclear := not_underway_of_canceled hr hc
          have hempty : s.queue.pending = [] := by
            rw [Blocking.pending, ← (leftAlone_of_leaves hr.reachable hs hpermits hc hclear).delivered]
            exact List.drop_eq_nil_of_le (Nat.le_add_right _ _)
          right
          refine ⟨.consume, ?_⟩
          simp only [QueueRun.step, QueueRun.consume, blockingMpscQueue, nodeQueue, atomic, stage,
            hs', hs, ht, hpending, hempty, BlockingMpscQueue.next, hc, if_true, hdelivered,
            hexchanged, hcanceled, Consumer.inHand]

theorem follows_doItem (hr : (machine : Machine (Fiber P R E) _).Reachable s)
    (ha : s.CompletesAlone .doItem) (h : machine.step s .doItem = some t) : s.Follows t := by
  have he : s.Effect .doItem t := step_effect hr h
  cases he with
  | doItem ref q hc hdo hspin hdelivered hexchanged hproducers hcanceled =>
      have hphase := phase_of_running hr (by simp [hc])
      have hpending : q.pending = s.queue.pending := by
        rw [Blocking.pending, Blocking.pending, hexchanged, hdelivered, hspin, hc]
        rfl
      right
      refine ⟨.consume, ?_⟩
      simp only [QueueRun.step, QueueRun.consume, atomic, stage, hphase, hc, hspin, hpending,
        hdelivered, hexchanged, hcanceled, Consumer.inHand]
  | throw ref e q hc hdo =>
      have hnone : (s.items ref).job.thrown = none := by
        apply ha ref
        rw [hc]
        rfl
      rw [doItem_thrown, hnone] at hdo
      cases hdo

theorem follows_exit (hr : (machine : Machine (Fiber P R E) _).ReachableUnder LeavesAlone s)
    (h : machine.step s .exit = some t) : s.Follows t := by
  have he : s.Effect .exit t := step_effect hr.reachable h
  have hi := drainsNothing_reachable hr
  cases he with
  | exit t hexit =>
      cases hexit with
      | drain hphase hcause =>
          left
          rcases hcause with hc | ⟨token, hc⟩ <;>
            simp only [atomic, stage, hphase, hc, hi.drained, List.length_nil]
      | unhandled hphase hcause =>
          rcases hcause with ⟨e, hc⟩ | hc
          · cases cause_canceled hr hc
          · cases cause_canceled hr hc
      | cancel node next hphase hlink =>
          obtain ⟨cause, hc⟩ := ended_of_phase hr.reachable (by simp [hphase])
          cases (link_of_at hr hc (hi.cursor node hphase)).symm.trans hlink
      | drained node hphase hlink =>
          obtain ⟨cause, hc⟩ := ended_of_phase hr.reachable (by simp [hphase])
          have hempty := pending_of_ended hr hc
          right
          refine ⟨.consume, ?_⟩
          simp only [QueueRun.step, QueueRun.consume, blockingMpscQueue, nodeQueue, atomic, stage,
            hphase, hempty, List.getElem?_nil]
      | disposeSource q hphase hquiet hproducers hcanceled
      | disposeSemaphore q hphase hquiet hproducers hcanceled =>
          left
          simp only [atomic, stage, hphase, hquiet.pending, hquiet.consumer, hquiet.delivered,
            hquiet.exchanged, hcanceled]
      | endFiber hphase =>
          left
          simp only [atomic, stage, hphase]

theorem follows_disposeAsync (h : machine.step s .disposeAsync = some t) : s.Follows t := by
  cases h
  cases hc : (s.queue.canceled || !s.queue.sourceDisposed) with
  | false =>
      rw [Bool.or_eq_false_iff] at hc
      left
      apply atomic_eq
      · rfl
      · rfl
      · exact ⟨rfl, rfl, rfl⟩
      · simp [hc]
  | true =>
      right
      refine ⟨.completeAdding, ?_⟩
      simp only [atomic, QueueRun.step, blockingMpscQueue, nodeQueue]
      rfl

theorem follows_of_step (hr : (machine : Machine (Fiber P R E) _).ReachableUnder CompletesAlone s)
    {a : FiberAct P R E} (ha : s.CompletesAlone a) (h : machine.step s a = some t) :
    s.Follows t := by
  have he : s.Effect a t := step_effect hr.reachable h
  cases a with
  | produce p => exact follows_produce hr h
  | consume yields => exact follows_consume hr h
  | doItem => exact follows_doItem hr.reachable ha h
  | exit => exact follows_exit (leavesAlone_of_completesAlone hr) h
  | disposeAsync => exact follows_disposeAsync h
  | enqueue p job =>
      cases he with
      | enqueue _ _ q _ _ _ hquiet hcanceled => exact .inl (atomic_eq rfl rfl hquiet hcanceled)
  | resume p target =>
      cases he with
      | resume _ _ q _ _ _ hquiet hcanceled => exact .inl (atomic_eq rfl rfl hquiet hcanceled)
  | finish p =>
      cases he with
      | finish _ q _ _ hquiet hcanceled => exact .inl (atomic_eq rfl rfl hquiet hcanceled)
  | cancel token =>
      cases he with
      | cancel => exact .inl rfl
  | callback ref =>
      cases he with
      | callback => exact .inl rfl

/-- The fiber refines the blocking queue of atomic operations on the runs in which
`CompleteAdding` finds nobody under way and the dispatched delegates return. -/
theorem refines_atomic :
    (machine : Machine (Fiber P R E) _).RefinesUnder (QueueRun.machine blockingMpscQueue)
      CompletesAlone (fun _ _ => True) atomic where
  init := rfl
  step := by
    intro s a t hr ha h
    rcases follows_of_step hr ha h with hsame | ⟨b, hb⟩
    · exact .inl hsame
    · exact .inr ⟨b, trivial, congrArg some hb⟩

theorem exists_run (hr : (machine : Machine (Fiber P R E) _).ReachableUnder CompletesAlone s) :
    ∃ as, s.atomic = QueueRun.run blockingMpscQueue as :=
  QueueRun.run_of_reachable (refines_atomic.reachable hr)

/-- So the fiber that has finished has executed all it took and cancelled nothing. -/
theorem executed_of_finished
    (hr : (machine : Machine (Fiber P R E) _).ReachableUnder CompletesAlone s)
    (hphase : s.phase = .finished) : s.queue.delivered = s.queue.exchanged ∧ s.drained = [] := by
  obtain ⟨as, has⟩ := exists_run hr
  obtain ⟨cause, hc⟩ := ended_of_phase hr.reachable (by simp [hphase])
  have hstage : s.atomic.stage = .finished := by simp only [atomic, stage, hphase]
  have hi : s.atomic.Accounted := by
    rw [has]
    exact QueueRun.accounted_run QueueRun.blocking_takesFirst as
  have hempty : s.atomic.queue.items = [] := by
    rw [has] at hstage ⊢
    exact QueueRun.blocking_left_empty as (.inl hstage)
  obtain ⟨hall, hcancelled⟩ := hi.finished hstage
  rw [hempty] at hcancelled
  rw [hcancelled] at hall
  have hhand : s.queue.consumer.inHand = none := by
    rw [hc]
    rfl
  refine ⟨?_, hcancelled⟩
  simpa [atomic, hhand] using hall.symm

end Fiber
end ComposableAsync.Concurrent
