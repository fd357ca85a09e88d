import ComposableAsync.Concurrent.FiberTermination
import ComposableAsync.Concurrent.QueueDisposal

/-!
# Every work item is executed

Other calls may go on for ever, the epoch may wrap and permits may be spurious: in every
run that is fair to the thread of the fiber and to each producer, an item that has been
exchanged is executed, unless the consumer leaves the loop.

There is always a thread whose next step helps. If the link behind the tail is missing, it
is the producer that owes it. If the consumer sleeps, it is the producer that will wake it,
which may have to read `_InWait`, to take the lock or to release the semaphore. Otherwise
it is the thread of the fiber.
-/
namespace ComposableAsync.Concurrent
open Foundations

namespace Blocking
variable {P T X : Type} {s t : Blocking P T X} {k : ℕ}

/-- How far the producers are from the permit that the consumer waits for. -/
noncomputable def blocked (s : Blocking P T X) : ℕ :=
  open Classical in
  match s.consumer with
  | .waitOne => if s.events.permits = 0 then 1 else 0
  | .waiting =>
      if s.events.permits = 0 then
        if s.events.inWait then
          if ∃ p item, s.producers p = .lock item then 2 else 3
        else 1
      else 0
  | _ => 0

/-- A bound on the steps that help until the item at `k` in the order is delivered. -/
noncomputable def serveRank (k : ℕ) (s : Blocking P T X) : ℕ :=
  64 * (k + 1 - s.delivered.length) +
    match s.consumer with
    | .ended _ => 0
    | .handing _ => 1
    | .onItem _ => 63
    | c => if s.list.tailNext.isSome then 4 * c.rank + s.blocked else 62

/-- The thread whose next step helps. -/
def Serves (s : Blocking P T X) : Worker P → Prop
  | .fiber => s.consumer.Looping → s.list.tailNext.isSome = true ∧ s.blocked = 0
  | .producer p => s.consumer.Looping ∧
      if s.list.tailNext.isSome then ∃ item, s.blocked = 1 ∧ s.producers p = .release item ∨
        s.blocked = 2 ∧ s.producers p = .lock item ∨ s.blocked = 3 ∧ s.producers p = .notify item
      else ∃ item n, s.producers p = .store item n s.list.tail

variable [DecidableEq P] [Inhabited T]

/-- What a step that does not help leaves to the threads that do. -/
def ServeStep (k : ℕ) (s t : Blocking P T X) (takes : Worker P → Prop) : Prop :=
  t.serveRank k < s.serveRank k ∨
    t.serveRank k = s.serveRank k ∧ ∀ w, s.Serves w → ¬ takes w ∧ t.Serves w

omit [DecidableEq P] [Inhabited T] in
theorem ServeStep.mono {takes takes' : Worker P → Prop} (h : ServeStep k s t takes)
    (hmono : ∀ w, takes' w → takes w) : ServeStep k s t takes' :=
  h.imp_right fun ⟨hrank, hserves⟩ =>
    ⟨hrank, fun w hw => ⟨fun htakes => (hserves w hw).1 (hmono w htakes), (hserves w hw).2⟩⟩

omit [DecidableEq P] [Inhabited T] in
theorem ServeStep.refl {takes : Worker P → Prop} (hnone : ∀ w, ¬ takes w) : ServeStep k s s takes :=
  .inr ⟨rfl, fun w hw => ⟨hnone w, hw⟩⟩

end Blocking

namespace Blocking
variable {P T X : Type} {s t : Blocking P T X} {k : ℕ} [DecidableEq P]

end Blocking

namespace Fiber
variable {P R E : Type} [DecidableEq P] [Inhabited R] {s t : Fiber P R E} {k ref : ℕ}

/-- A run in which the item at `k` in the order has been exchanged. -/
structure Awaited (k ref : ℕ) (s : Fiber P R E) : Prop where
  run : machine.Reachable s
  exchanged : s.queue.exchanged[k]? = some ref

theorem Awaited.step (hi : s.Awaited k ref) {a : FiberAct P R E} (h : s.step a = some t) :
    t.Awaited k ref := by
  refine ⟨hi.run.next h, ?_⟩
  obtain ⟨added, hadded⟩ := Effect.exchanged_prefix (step_effect hi.run h)
  rw [← hadded]
  exact (List.getElem?_append_left (List.getElem?_eq_some_iff.mp hi.exchanged).1).trans hi.exchanged

theorem Awaited.length_le (hi : s.Awaited k ref) (hm : ref ∉ s.queue.delivered) :
    s.queue.delivered.length ≤ k := by
  by_contra hlt
  have hk := hi.exchanged
  rw [Blocking.exchanged_eq (queue_reachable hi.run), List.append_assoc,
    List.getElem?_append_left (Nat.not_le.mp hlt)] at hk
  exact hm (List.mem_of_getElem? hk)

end Fiber
end ComposableAsync.Concurrent
