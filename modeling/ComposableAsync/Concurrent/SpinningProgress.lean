import ComposableAsync.Concurrent.FiberTermination
import ComposableAsync.Concurrent.SpinningMpscQueue

/-!
# The spinning queue serves every item

`SpinningMpscQueue` has no signal to lose: its consumer only looks. In every run that is
fair to the thread of `OnElements` and to each producer, an item that has been exchanged is
handed over, unless the token is cancelled or `onItem` throws; and once the token is
cancelled the consumer leaves the loop, whatever the producers do.

While the consumer spins and the link behind the tail is missing, the producer that owes it
helps; otherwise it is the consumer.
-/
namespace ComposableAsync.Concurrent
open Foundations

/-- The steps of a thread; that `onItem` returns or throws is one of the consumer's. -/
def Worker.Spins {P T X : Type} : Worker P → SpinningAct P T X → Prop
  | .fiber, .consume | .fiber, .itemReturns | .fiber, .itemThrows _ => True
  | .producer p, .produce q => q = p
  | _, _ => False

/-- In `SpinWait.SpinUntil`. -/
def SpinConsumer.Spinning {T X : Type} : SpinConsumer T X → Prop
  | .spinNext | .spinToken => True
  | .throwIfCancellationRequested | .take | .handing _ | .onItem _ | .ended _ => False

theorem Producer.not_underway {T : Type} : ¬ (.idle : Producer T).Underway ∧
    (∀ item : T, ¬ (Producer.enter item).Underway) ∧
    ∀ item : T, ¬ (Producer.canceled item).Underway := by
  simp [Underway, Signalling, Releasing]

namespace Spinning
variable {P T X : Type} {s t : Spinning P T X} {k : ℕ}

/-- The items in the order of their Exchange steps. -/
def exchanged (s : Spinning P T X) : List T := s.mpsc.exchanged

/-- What a step of a producer, or one that begins or ends its call, does to the rest. -/
structure Writes (p : P) (s t : Spinning P T X) : Prop where
  canceled : t.canceled = s.canceled
  consumer : t.consumer = s.consumer
  delivered : t.delivered = s.delivered
  tail : t.list.tail = s.list.tail
  link : s.list.tailNext.isSome = true → t.list.tailNext.isSome = true
  other : ∀ q, q ≠ p → t.producers q = s.producers q
  underway : s.canceled = true → (t.producers p).Underway → (s.producers p).Underway
  exchanged : t.exchanged = s.exchanged ∨
    (s.producers p).Underway ∧ ∃ item, t.exchanged = s.exchanged ++ [item]
  stored : ∀ item n, s.producers p = .store item n s.list.tail → t.list.tailNext.isSome = true

/-- What a step can do. -/
inductive Effect (s : Spinning P T X) : SpinningAct P T X → Spinning P T X → Prop
  | write {a : SpinningAct P T X} {t : Spinning P T X} (p : P) :
      (∀ w : Worker P, w.Spins a → w = .producer p) → Writes p s t → Effect s a t
  | completeAdding : Effect s .completeAdding { s with canceled := true }
  | consume {t : Spinning P T X} : s.consumeStep = some t → Effect s .consume t
  | itemReturns (item : T) : s.consumer = .onItem item →
      Effect s .itemReturns { s with consumer := .spinNext }
  | itemThrows (item : T) (exception : X) : s.consumer = .onItem item →
      Effect s (.itemThrows exception) { s with consumer := .ended (.threw exception) }

theorem writes_setProducer {p : P} {pc : Producer T} [DecidableEq P]
    (hp : ∀ item n prev, s.producers p ≠ .store item n prev)
    (hpc : s.canceled = true → ¬ pc.Underway) :
    Writes p s { s with producers := Function.update s.producers p pc } where
  canceled := rfl
  consumer := rfl
  delivered := rfl
  tail := rfl
  link := id
  other _ hq := Function.update_of_ne hq ..
  underway hc h := by
    simp only [Function.update_self] at h
    exact (hpc hc h).elim
  exchanged := .inl rfl
  stored item n h := (hp item n _ h).elim

theorem writes_produce [DecidableEq P] (hi : s.mpsc.Inv) {p : P}
    (h : s.step (.produce p) = some t) : Writes p s t := by
  have hsame : t.order = s.order → t.exchanged = s.exchanged := by
    intro horder
    rcases mpsc_produce h with heq | ⟨b, hb⟩
    · exact congrArg Mpsc.exchanged heq
    · refine (List.IsPrefix.eq_of_length (hi.exchanged_stays hb) ?_).symm
      simp only [Mpsc.exchanged, List.length_map]
      exact congrArg List.length horder.symm
  simp only [step, Option.map_eq_some_iff] at h
  obtain ⟨⟨pc, u⟩, hu, rfl⟩ := h
  have hother : ∀ q, q ≠ p → Function.update u.producers p pc q = u.producers q :=
    fun q hq => Function.update_of_ne hq ..
  cases hp : s.producers p with
  | idle | notify _ | lock _ | release _ | returned _ | canceled _ | raised _ _ =>
      simp [produceStep, hp] at hu
  | enter item =>
      simp only [produceStep, hp, Option.some.injEq, Prod.mk.injEq] at hu
      obtain ⟨rfl, rfl⟩ := hu
      refine writes_setProducer (by simp [hp]) fun hc => ?_
      rw [if_pos hc]
      exact Producer.not_underway.2.2 item
  | create item =>
      simp only [produceStep, hp, Option.some.injEq, Prod.mk.injEq] at hu
      obtain ⟨-, rfl⟩ := hu
      have htail : s.list.tail < s.list.allocated := by
        obtain ⟨front, back, hs, -⟩ := hi.tail
        exact hi.bound _ (hs ▸ List.mem_append_right _ (List.mem_cons_self ..))
      have hlink : (s.list.create item).tailNext = s.list.tailNext := NodeList.link_create htail
      exact ⟨rfl, rfl, rfl, rfl, fun h => hlink ▸ h, hother, fun _ _ => hp ▸ .inl trivial,
        .inl (hsame rfl), by simp [hp]⟩
  | exchange item n =>
      simp only [produceStep, hp, Option.some.injEq, Prod.mk.injEq] at hu
      obtain ⟨-, rfl⟩ := hu
      exact ⟨rfl, rfl, rfl, rfl, id, hother, fun _ _ => hp ▸ .inl trivial,
        .inr ⟨hp ▸ .inl trivial, s.list.value n, List.map_append⟩, by simp [hp]⟩
  | store item n prev =>
      simp only [produceStep, hp, Option.some.injEq, Prod.mk.injEq] at hu
      obtain ⟨-, rfl⟩ := hu
      have hlink : (s.list.store prev n).tailNext =
          Function.update s.list.link prev (some n) s.list.tail := NodeList.tailNext_store
      refine ⟨rfl, rfl, rfl, rfl, fun h => ?_, hother, fun _ _ => hp ▸ .inl trivial,
        .inl (hsame rfl), fun item' m hstore => ?_⟩
      · by_cases ht : s.list.tail = prev
        · simp only [hlink, ht, Function.update_self, Option.isSome_some]
        · simp only [hlink, Function.update_of_ne ht]
          exact h
      · cases hp.symm.trans hstore
        simp only [hlink, Function.update_self, Option.isSome_some]

theorem step_effect [DecidableEq P] (hi : s.mpsc.Inv) {a : SpinningAct P T X}
    (h : s.step a = some t) : s.Effect a t := by
  cases a with
  | enqueue p item =>
      simp only [step] at h
      split at h <;> cases h
      rename_i hp
      exact .write p (fun w hw => by cases w <;> exact hw.elim)
        (writes_setProducer (by simp [hp]) fun _ => Producer.not_underway.2.1 item)
  | finish p =>
      simp only [step] at h
      split at h <;> cases h <;>
      · rename_i hp
        exact .write p (fun w hw => by cases w <;> exact hw.elim)
          (writes_setProducer (by simp [hp]) fun _ => Producer.not_underway.1)
  | produce p =>
      refine .write p (fun w hw => ?_) (writes_produce hi h)
      cases w with
      | fiber => exact hw.elim
      | producer q => exact congrArg Worker.producer (show p = q from hw).symm
  | consume => exact .consume h
  | itemReturns =>
      simp only [step] at h
      split at h <;> cases h
      rename_i item hc
      exact .itemReturns item hc
  | itemThrows x =>
      simp only [step] at h
      split at h <;> cases h
      rename_i item hc
      exact .itemThrows item x hc
  | completeAdding =>
      cases h
      exact .completeAdding

theorem consume_frame (h : s.consumeStep = some t) :
    t.canceled = s.canceled ∧ t.producers = s.producers := by
  cases hs : s.consumer with
  | onItem _ | ended _ => simp [consumeStep, hs] at h
  | spinNext | spinToken | throwIfCancellationRequested | handing _ =>
      simp only [consumeStep, hs, Option.some.injEq] at h
      subst h
      exact ⟨rfl, rfl⟩
  | take =>
      simp only [consumeStep, hs] at h
      split at h <;> cases h <;> exact ⟨rfl, rfl⟩

theorem consume_not_threw (h : s.consumeStep = some t) (e : X) :
    t.consumer ≠ .ended (.threw e) := by
  cases hs : s.consumer with
  | onItem _ | ended _ => simp [consumeStep, hs] at h
  | spinNext | spinToken | throwIfCancellationRequested =>
      simp only [consumeStep, hs, Option.some.injEq] at h
      subst h
      simp only
      split <;> simp
  | handing _ =>
      simp only [consumeStep, hs, Option.some.injEq] at h
      subst h
      simp
  | take =>
      simp only [consumeStep, hs] at h
      split at h <;> cases h <;> simp

/-- What the consumer has seen when it has left `SpinWait.SpinUntil`, and why it has left the
loop. -/
structure Sees (s : Spinning P T X) : Prop where
  spun : s.consumer = .throwIfCancellationRequested →
    s.canceled = true ∨ s.list.tailNext.isSome = true
  take : s.consumer = .take → s.list.tailNext.isSome = true
  ended : ∀ cause, s.consumer = .ended cause →
    cause = .canceled ∧ s.canceled = true ∨ ∃ exception, cause = .threw exception

theorem Sees.consume (hi : s.Sees) (h : s.consumeStep = some t) : t.Sees := by
  cases hs : s.consumer with
  | onItem _ | ended _ => simp [consumeStep, hs] at h
  | spinNext =>
      simp only [consumeStep, hs, Option.some.injEq] at h
      subst h
      cases hlink : s.list.tailNext <;> constructor <;> simp [hlink]
  | spinToken =>
      simp only [consumeStep, hs, Option.some.injEq] at h
      subst h
      constructor <;> cases s.canceled <;> simp
  | throwIfCancellationRequested =>
      simp only [consumeStep, hs, Option.some.injEq] at h
      subst h
      have hspun := hi.spun hs
      cases hcanceled : s.canceled with
      | true => constructor <;> simp
      | false =>
          rw [hcanceled] at hspun
          exact ⟨by simp, fun _ => hspun.resolve_left (by simp), by simp⟩
  | take =>
      have hlink := hi.take hs
      simp only [consumeStep, hs] at h
      split at h
      · cases h
        constructor <;> simp
      · rename_i hnone
        rw [hnone] at hlink
        cases hlink
  | handing item =>
      simp only [consumeStep, hs, Option.some.injEq] at h
      subst h
      constructor <;> simp

theorem Sees.step (hi : s.Sees) {a : SpinningAct P T X} (h : s.Effect a t) : t.Sees := by
  cases h with
  | write p _ hw =>
      refine ⟨fun hc => ?_, fun hc => hw.link (hi.take (hw.consumer ▸ hc)), fun cause hc => ?_⟩
      · rw [hw.canceled]
        exact (hi.spun (hw.consumer ▸ hc)).imp_right hw.link
      · rw [hw.canceled]
        exact hi.ended cause (hw.consumer ▸ hc)
  | completeAdding =>
      exact ⟨fun _ => .inl rfl, hi.take, fun cause hc => (hi.ended cause hc).imp_left fun h =>
        ⟨h.1, rfl⟩⟩
  | consume hstep => exact hi.consume hstep
  | itemReturns item hc => constructor <;> simp
  | itemThrows item x hc =>
      refine ⟨by simp, by simp, fun cause hcause => .inr ⟨x, ?_⟩⟩
      cases hcause
      rfl

variable [DecidableEq P] [Inhabited T]

theorem sees_reachable (hr : (machine : Machine (Spinning P T X) _).Reachable s) : s.Sees := by
  refine hr.invariant ?_ fun s _ _ hr hi h => hi.step (step_effect (mpsc_inv hr) h)
  constructor <;> simp [machine, init]

/-- A run in which the item at `k` in the order has been exchanged. -/
structure Awaited (k : ℕ) (item : T) (s : Spinning P T X) : Prop where
  run : machine.Reachable s
  exchanged : s.mpsc.exchanged[k]? = some item

end Spinning
end ComposableAsync.Concurrent
