import ComposableAsync.Concurrent.BlockingMpscQueue

/-!
# The spinning queue, step by step

`SpinningMpscQueue.Enqueue` is the blocking one without `NotifyOne`: a producer
returns from its link store. The consumer never sleeps; it leaves
`SpinWait.SpinUntil` when it sees a link or a cancellation, and checks the token
once more before it moves the tail. `Dispose` does nothing, so the source is
never disposed and the owner has no step.
-/
namespace ComposableAsync.Concurrent
open Foundations

/-- The steps of `OnElements`; `spinNext` and `spinToken` are the two reads of
the condition it spins on. -/
inductive SpinConsumer (T X : Type) where
  | spinNext
  | spinToken
  | throwIfCancellationRequested
  | take
  | handing (item : T)
  | onItem (item : T)
  | ended (cause : Ended X)
  deriving DecidableEq, Repr

structure Spinning (P T X : Type) where
  list : NodeList T
  canceled : Bool := false
  producers : P → Producer T := fun _ => .idle
  consumer : SpinConsumer T X := .spinNext
  order : List ℕ := []
  delivered : List T := []

inductive SpinningAct (P T X : Type) where
  | enqueue (p : P) (item : T)
  | produce (p : P)
  | finish (p : P)
  | consume
  | itemReturns
  | itemThrows (exception : X)
  | completeAdding

def SpinConsumer.inHand {T X : Type} : SpinConsumer T X → Option T
  | .handing item => some item
  | _ => none

namespace Spinning
variable {P T X : Type}

def init [Inhabited T] : Spinning P T X := { list := .empty }

def produceStep (s : Spinning P T X) : Producer T → Option (Producer T × Spinning P T X)
  | .enter item => some (if s.canceled then .canceled item else .create item, s)
  | .create item => some (.exchange item s.list.allocated, { s with list := s.list.create item })
  | .exchange item n =>
      some (.store item n s.list.head,
        { s with list := s.list.exchange n, order := s.order ++ [n] })
  | .store item n prev => some (.returned item, { s with list := s.list.store prev n })
  | .idle | .notify _ | .lock _ | .release _ | .returned _ | .canceled _ | .raised _ _ => none

def consumeStep (s : Spinning P T X) : Option (Spinning P T X) :=
  match s.consumer with
  | .spinNext =>
      some { s with
        consumer := if s.list.tailNext.isSome then .throwIfCancellationRequested else .spinToken }
  | .spinToken =>
      some { s with
        consumer := if s.canceled then .throwIfCancellationRequested else .spinNext }
  | .throwIfCancellationRequested =>
      some { s with consumer := if s.canceled then .ended .canceled else .take }
  | .take =>
      match s.list.tailNext with
      | some n => some { s with
          list := s.list.advance n
          consumer := .handing (s.list.value n) }
      | none => some { s with consumer := .ended .nullReference }
  | .handing item => some { s with consumer := .onItem item, delivered := s.delivered ++ [item] }
  | .onItem _ | .ended _ => none

variable [DecidableEq P]

def step (s : Spinning P T X) : SpinningAct P T X → Option (Spinning P T X)
  | .enqueue p item =>
      match s.producers p with
      | .idle => some { s with producers := Function.update s.producers p (.enter item) }
      | _ => none
  | .produce p =>
      (s.produceStep (s.producers p)).map fun (pc, t) =>
        { t with producers := Function.update s.producers p pc }
  | .finish p =>
      match s.producers p with
      | .returned _ | .canceled _ =>
          some { s with producers := Function.update s.producers p .idle }
      | _ => none
  | .consume => s.consumeStep
  | .itemReturns =>
      match s.consumer with
      | .onItem _ => some { s with consumer := .spinNext }
      | _ => none
  | .itemThrows x =>
      match s.consumer with
      | .onItem _ => some { s with consumer := .ended (.threw x) }
      | _ => none
  | .completeAdding => some { s with canceled := true }

def machine [Inhabited T] : Machine (Spinning P T X) (SpinningAct P T X) := ⟨init, step⟩

omit [DecidableEq P] in
def mpsc (s : Spinning P T X) : Mpsc P T :=
  ⟨s.list, fun p => (s.producers p).writer, s.order, s.consumer.inHand, s.delivered⟩

variable {s t : Spinning P T X}

theorem mpsc_setProducer {p : P} {pc : Producer T} (h : pc.writer = (s.producers p).writer) :
    ({ s with producers := Function.update s.producers p pc } : Spinning P T X).mpsc = s.mpsc := by
  simp only [mpsc, Mpsc.mk.injEq, true_and, and_true]
  exact Producer.writer_update_same h

theorem mpsc_produce {p : P} (h : s.step (.produce p) = some t) :
    t.mpsc = s.mpsc ∨ ∃ b, s.mpsc.step b = some t.mpsc := by
  simp only [step, Option.map_eq_some_iff] at h
  obtain ⟨⟨pc, u⟩, hu, rfl⟩ := h
  cases hp : s.producers p with
  | idle | notify _ | lock _ | release _ | returned _ | canceled _ | raised _ _ =>
      simp [produceStep, hp] at hu
  | enter item =>
      simp only [produceStep, hp, Option.some.injEq, Prod.mk.injEq] at hu
      obtain ⟨rfl, rfl⟩ := hu
      refine .inl (mpsc_setProducer ?_)
      rw [hp]
      split <;> rfl
  | create item =>
      simp only [produceStep, hp, Option.some.injEq, Prod.mk.injEq] at hu
      obtain ⟨rfl, rfl⟩ := hu
      exact .inr ⟨.create p item, Mpsc.step_create hp⟩
  | exchange item n =>
      simp only [produceStep, hp, Option.some.injEq, Prod.mk.injEq] at hu
      obtain ⟨rfl, rfl⟩ := hu
      exact .inr ⟨.exchange p, Mpsc.step_exchange hp⟩
  | store item n prev =>
      simp only [produceStep, hp, Option.some.injEq, Prod.mk.injEq] at hu
      obtain ⟨rfl, rfl⟩ := hu
      exact .inr ⟨.store p, Mpsc.step_store hp rfl⟩

theorem mpsc_consume (h : s.consumeStep = some t) :
    t.mpsc = s.mpsc ∨ ∃ b, s.mpsc.step b = some t.mpsc := by
  have hh : s.mpsc.handing = s.consumer.inHand := rfl
  cases hc : s.consumer with
  | take =>
      simp only [consumeStep, hc] at h
      split at h
      · rename_i n hn
        cases h
        rw [hc] at hh
        have hn' : s.mpsc.list.tailNext = some n := hn
        exact .inr ⟨.advance, by simp only [Mpsc.step, hh, hn', SpinConsumer.inHand]; rfl⟩
      · cases h
        exact .inl (by simp [mpsc, hc, SpinConsumer.inHand])
  | handing item =>
      simp only [consumeStep, hc, Option.some.injEq] at h
      subst h
      rw [hc] at hh
      exact .inr ⟨.hand, by simp only [Mpsc.step, hh, SpinConsumer.inHand]; rfl⟩
  | onItem _ | ended _ => simp [consumeStep, hc] at h
  | spinNext | spinToken | throwIfCancellationRequested =>
      simp only [consumeStep, hc, Option.some.injEq] at h
      subst h
      left
      simp only [mpsc, hc, Mpsc.mk.injEq, true_and, and_true]
      split <;> rfl

/-- The spinning queue refines the list too. -/
theorem refines_mpsc [Inhabited T] :
    (machine : Machine (Spinning P T X) _).Refines Mpsc.machine mpsc where
  init := rfl
  step := by
    intro s a t h
    cases a with
    | enqueue p item =>
        simp only [machine, step] at h
        split at h
        · rename_i hp
          cases h
          exact .inl (mpsc_setProducer (by rw [hp]; rfl))
        · cases h
    | produce p => exact mpsc_produce h
    | finish p =>
        simp only [machine, step] at h
        split at h <;>
        · rename_i hp
          cases h
          try exact .inl (mpsc_setProducer (by rw [hp]; rfl))
    | consume => exact mpsc_consume h
    | itemReturns | itemThrows x =>
        simp only [machine, step] at h
        split at h
        · rename_i hc
          cases h
          exact .inl (by simp [mpsc, hc, SpinConsumer.inHand])
        · cases h
    | completeAdding =>
        cases h
        exact .inl rfl

theorem mpsc_inv [Inhabited T] (hr : (machine : Machine (Spinning P T X) _).Reachable s) :
    s.mpsc.Inv := Mpsc.inv_reachable (refines_mpsc.reachable hr)

end Spinning
end ComposableAsync.Concurrent
