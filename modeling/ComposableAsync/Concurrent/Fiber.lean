import ComposableAsync.Concurrent.QueueHistory
import ComposableAsync.Concurrent.WorkItem

/-!
# The fiber

`MonoThreadedFiber` and `ThreadPoolFiber` on their default queue differ in the
thread that consumes, not in what it does: `Consume` of the one and
`ConsumeInContext` of the other run `OnElements`, catch an
`OperationCanceledException`, cancel what `GetUnsafeQueue` enumerates, dispose
the queue and complete `_EndFiber`. `Enqueue` and `PrivateEnqueue` are the same
method too, and so are the two `DisposeAsync`.

Every access of the queue stays a step of its own; a work item's `Do` is one
step of the consumer. `returned` and `drained` are history.
-/
namespace ComposableAsync.Concurrent
open Foundations

/-- Where the consumer is in `Consume`. `getUnsafeQueue node` is the drain about
to read the link of `node`; `unhandled` follows any exception but an
`OperationCanceledException`. -/
inductive Phase where
  | onElements
  | getUnsafeQueue (node : ℕ)
  | disposeSource
  | disposeSemaphore
  | endFiber
  | finished
  | unhandled
  deriving DecidableEq, Repr

/-- The node at which the drain stands. -/
def Phase.node : Phase → Option ℕ
  | .getUnsafeQueue node => some node
  | .onElements | .disposeSource | .disposeSemaphore | .endFiber | .finished | .unhandled => none

structure Fiber (P R E : Type) where
  queue : Blocking P ℕ (Exn E) := Blocking.init
  phase : Phase := .onElements
  items : ℕ → WorkItem R E := fun _ => ⟨.dispatchItem (.ok ()), .pending, none, 0, false⟩
  created : ℕ := 1
  requested : Token → Bool := fun _ => false
  returned : List ℕ := []
  drained : List ℕ := []

/-- `enqueue` is a call of any `Enqueue` overload or of `Dispatch`, `resume` the
end of the operation a delegate awaits, whose thread calls `Post`. An await that ends
on the fiber's own thread goes on in place, and one with `ConfigureAwait(false)`
elsewhere; neither is modelled. Cancelling a token marks it first and runs the
registered callbacks later. -/
inductive FiberAct (P R E : Type) where
  | enqueue (p : P) (job : Job R E)
  | resume (p : P) (target : ℕ)
  | produce (p : P)
  | finish (p : P)
  | consume (yields : Bool)
  | doItem
  | exit
  | disposeAsync
  | cancel (token : Token)
  | callback (ref : ℕ)

/-- Work items a caller can make; `Post` makes the others. -/
def Job.IsPublic {R E : Type} : Job R E → Bool
  | .post _ => false
  | .dispatchItem _ | .workItem _ | .cancellableWorkItem _ _ | .asyncWorkItem _ _
  | .asyncCancellableWorkItem _ _ _ => true

namespace Fiber
variable {P R E : Type} [DecidableEq P]

def setItem (s : Fiber P R E) (ref : ℕ) (w : WorkItem R E) : Fiber P R E :=
  { s with items := Function.update s.items ref w }

omit [DecidableEq P] in
@[simp] theorem setItem_self (s : Fiber P R E) (ref : ℕ) (w : WorkItem R E) :
    (s.setItem ref w).items ref = w := Function.update_self ..

omit [DecidableEq P] in
theorem setItem_of_ne (s : Fiber P R E) {ref r : ℕ} (h : r ≠ ref) (w : WorkItem R E) :
    (s.setItem ref w).items r = s.items r := Function.update_of_ne h ..

/-- `new` of a work item, and the call of `_TaskQueue.Enqueue` with it. -/
def submit (s : Fiber P R E) (p : P) (job : Job R E) : Option (Fiber P R E) :=
  (s.queue.step (.enqueue p s.created)).map fun q =>
    { s with
      queue := q
      items := Function.update s.items s.created (WorkItem.create s.requested job)
      created := s.created + 1 }

/-- The steps of `Consume` after `OnElements`. -/
def exitStep (s : Fiber P R E) : Option (Fiber P R E) :=
  match s.phase with
  | .onElements =>
      match s.queue.consumer with
      | .ended .canceled | .ended (.threw (.operationCanceled _)) =>
          some { s with phase := .getUnsafeQueue s.queue.list.tail }
      | .ended (.threw (.other _)) | .ended .nullReference => some { s with phase := .unhandled }
      | _ => none
  | .getUnsafeQueue node =>
      match s.queue.list.link node with
      | some next => some { s with
          phase := .getUnsafeQueue next
          items := Function.update s.items (s.queue.list.value next)
            (s.items (s.queue.list.value next)).cancel
          drained := s.drained ++ [s.queue.list.value next] }
      | none => some { s with phase := .disposeSource }
  | .disposeSource =>
      (s.queue.step .disposeSource).map fun q => { s with queue := q, phase := .disposeSemaphore }
  | .disposeSemaphore =>
      (s.queue.step .disposeSemaphore).map fun q => { s with queue := q, phase := .endFiber }
  | .endFiber => some { s with phase := .finished }
  | .finished | .unhandled => none

variable [Inhabited R]

def step (s : Fiber P R E) : FiberAct P R E → Option (Fiber P R E)
  | .enqueue p job => if job.IsPublic then s.submit p job else none
  | .resume p target =>
      if (s.items target).awaiting then
        (s.setItem target (s.items target).resume).submit p (.post target)
      else none
  | .produce p =>
      (s.queue.step (.produce p)).map fun q =>
        { s with
          queue := q
          returned := match q.producers p with
            | .returned ref => ref :: s.returned
            | _ => s.returned }
  | .finish p => (s.queue.step (.finish p)).map fun q => { s with queue := q }
  | .consume yields => (s.queue.step (.consume yields)).map fun q => { s with queue := q }
  | .doItem =>
      match s.queue.consumer with
      | .onItem ref =>
          match doItem s.requested s.items ref with
          | (items, none) => (s.queue.step .itemReturns).map fun q => { s with queue := q, items }
          | (items, some e) =>
              (s.queue.step (.itemThrows e)).map fun q => { s with queue := q, items }
      | _ => none
  | .exit => s.exitStep
  | .disposeAsync => (s.queue.step .completeAdding).map fun q => { s with queue := q }
  | .cancel token => some { s with requested := Function.update s.requested token true }
  | .callback ref =>
      match (s.items ref).registration with
      | some token =>
          if s.requested token then
            some (s.setItem ref { (s.items ref).cancel with registration := none })
          else none
      | none => none

def machine : Machine (Fiber P R E) (FiberAct P R E) := ⟨{}, step⟩

variable {s t : Fiber P R E}

omit [Inhabited R] in
theorem submit_eq {p : P} {job : Job R E} (h : s.submit p job = some t) :
    ∃ q, s.queue.step (.enqueue p s.created) = some q ∧ t =
      { s with
        queue := q
        items := Function.update s.items s.created (WorkItem.create s.requested job)
        created := s.created + 1 } := by
  simp only [submit, Option.map_eq_some_iff] at h
  obtain ⟨q, hq, rfl⟩ := h
  exact ⟨q, hq, rfl⟩

/-- A step of the fiber is a step of its queue, or leaves the queue alone; the semaphore
is disposed by `Consume`. -/
theorem queue_act {a : FiberAct P R E} (h : s.step a = some t) :
    t.queue = s.queue ∨ ∃ b, s.queue.step b = some t.queue ∧
      (b = .disposeSemaphore → a = .exit ∧ s.phase = .disposeSemaphore) := by
  cases a with
  | enqueue p job | resume p target =>
      simp only [step] at h
      split at h
      · obtain ⟨q, hq, rfl⟩ := submit_eq h
        exact .inr ⟨_, hq, by simp⟩
      · cases h
  | produce p | finish p | consume yields | disposeAsync =>
      simp only [step, Option.map_eq_some_iff] at h
      obtain ⟨q, hq, rfl⟩ := h
      exact .inr ⟨_, hq, by simp⟩
  | doItem =>
      simp only [step] at h
      split at h
      · split at h <;>
        · simp only [Option.map_eq_some_iff] at h
          obtain ⟨q, hq, rfl⟩ := h
          exact .inr ⟨_, hq, by simp⟩
      · cases h
  | exit =>
      simp only [step, exitStep] at h
      split at h
      · split at h <;> cases h <;> exact .inl rfl
      · split at h <;> cases h <;> exact .inl rfl
      · simp only [Option.map_eq_some_iff] at h
        obtain ⟨q, hq, rfl⟩ := h
        exact .inr ⟨_, hq, by simp⟩
      · rename_i hphase
        simp only [Option.map_eq_some_iff] at h
        obtain ⟨q, hq, rfl⟩ := h
        exact .inr ⟨_, hq, fun _ => ⟨rfl, hphase⟩⟩
      · cases h
        exact .inl rfl
      · cases h
      · cases h
  | cancel token =>
      cases h
      exact .inl rfl
  | callback ref =>
      simp only [step] at h
      split at h
      · split at h
        · cases h
          exact .inl rfl
        · cases h
      · cases h

theorem queue_step {a : FiberAct P R E} (h : s.step a = some t) :
    t.queue = s.queue ∨ ∃ b, s.queue.step b = some t.queue := by
  rcases queue_act h with hsame | ⟨b, hb, -⟩
  · exact .inl hsame
  · exact .inr ⟨b, hb⟩

theorem refines_queue :
    (machine : Machine (Fiber P R E) _).Refines Blocking.machine Fiber.queue where
  init := rfl
  step := queue_step

theorem queue_reachable (hr : (machine : Machine (Fiber P R E) _).Reachable s) :
    Blocking.machine.Reachable s.queue := refines_queue.reachable hr

end Fiber
end ComposableAsync.Concurrent
