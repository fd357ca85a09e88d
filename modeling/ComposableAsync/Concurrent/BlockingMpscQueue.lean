import ComposableAsync.Concurrent.MpscOrder
import ComposableAsync.Concurrent.SimplifiedEventCount

/-!
# The blocking queue, step by step

Any number of producers run `Enqueue`, one consumer runs `OnElements`, and
another thread may call `CompleteAdding`. A program counter names the access its
thread makes next. A value of `Producer` or `Consumer` is therefore a line of
`BlockingMpscQueue.cs` or of `SimplifiedEventCount.cs`.

`order` and `delivered` are history; no step reads them. The two steps of
`Dispose` are the owner's, after `OnElements` has ended. Cancelling a disposed
source throws and changes nothing.
-/
namespace ComposableAsync.Concurrent
open Foundations

/-- The steps of `Enqueue(item)` and of the `NotifyOne` it ends with. -/
inductive Producer (T : Type) where
  | idle
  | enter (item : T)
  | create (item : T)
  | exchange (item : T) (newItem : ℕ)
  | store (item : T) (newItem prev : ℕ)
  | notify (item : T)
  | lock (item : T)
  | release (item : T)
  | returned (item : T)
  | canceled (item : T)
  | raised (item : T) (error : EventCount.ReleaseError)
  deriving DecidableEq, Repr

/-- Where `RetireWait` was called: with an element found, or on a stale epoch. -/
inductive Retire where
  | found | stale
  deriving DecidableEq, Repr

/-- Why `OnElements` ended. -/
inductive Ended (X : Type) where
  | canceled
  | threw (exception : X)
  | nullReference
  deriving DecidableEq, Repr

/-- The steps of `OnElements`, `Next`, `PrepareWait`, `Wait` and `RetireWait`. -/
inductive Consumer (T X : Type) where
  | spin
  | test
  | take
  | readSpurious
  | clearSpurious
  | waitOne
  | setInWait
  | readEpoch
  | retest
  | setSpurious (k : Retire)
  | readInWait (k : Retire)
  | retireLock (k : Retire)
  | compareEpoch
  | waiting
  | handing (item : T)
  | onItem (item : T)
  | ended (cause : Ended X)
  deriving DecidableEq, Repr

structure Blocking (P T X : Type) where
  list : NodeList T
  events : EventCount := {}
  canceled : Bool := false
  sourceDisposed : Bool := false
  producers : P → Producer T := fun _ => .idle
  consumer : Consumer T X := .spin
  order : List ℕ := []
  delivered : List T := []

/-- A scheduler's choice. `yields` is what `spin.NextSpinWillYield` answers, if
it is read. -/
inductive BlockingAct (P T X : Type) where
  | enqueue (p : P) (item : T)
  | produce (p : P)
  | finish (p : P)
  | consume (yields : Bool)
  | itemReturns
  | itemThrows (exception : X)
  | completeAdding
  | disposeSource
  | disposeSemaphore

namespace Blocking
variable {P T X : Type}

def init [Inhabited T] : Blocking P T X := { list := .empty }

/-- The next access of a producer inside `Enqueue`. -/
def produceStep (s : Blocking P T X) : Producer T → Option (Producer T × Blocking P T X)
  | .idle | .returned _ | .canceled _ | .raised _ _ => none
  | .enter item => some (if s.canceled then .canceled item else .create item, s)
  | .create item => some (.exchange item s.list.allocated, { s with list := s.list.create item })
  | .exchange item n =>
      some (.store item n s.list.head,
        { s with list := s.list.exchange n, order := s.order ++ [n] })
  | .store item n prev => some (.notify item, { s with list := s.list.store prev n })
  | .notify item => some (if s.events.inWait then .lock item else .returned item, s)
  | .lock item =>
      some (if s.events.notifyLock.1 then .release item else .returned item,
        { s with events := s.events.notifyLock.2 })
  | .release item =>
      match s.events.release with
      | .ok ec => some (.returned item, { s with events := ec })
      | .error e => some (.raised item e, s)

/-- The next access of the consumer inside `Next`. -/
def consumeStep (s : Blocking P T X) (yields : Bool) : Option (Blocking P T X) :=
  match s.consumer with
  | .spin =>
      if s.list.tailNext.isNone && !yields then some s else some { s with consumer := .test }
  | .test =>
      some { s with consumer := if s.list.tailNext.isSome then .take else .readSpurious }
  | .take =>
      match s.list.tailNext with
      | some n => some { s with
          list := s.list.advance n
          consumer := .handing (s.list.value n) }
      | none => some { s with consumer := .ended .nullReference }
  | .readSpurious =>
      some { s with consumer := if s.events.spurious then .clearSpurious else .setInWait }
  | .clearSpurious =>
      some { s with events := { s.events with spurious := false }, consumer := .waitOne }
  | .waitOne =>
      s.events.waitOne.map fun ec => { s with events := ec, consumer := .setInWait }
  | .setInWait =>
      some { s with events := { s.events with inWait := true }, consumer := .readEpoch }
  | .readEpoch =>
      some { s with
        events := { s.events with epochStarted := s.events.epoch }
        consumer := .retest }
  | .retest =>
      some { s with
        consumer := if s.list.tailNext.isSome then .setSpurious .found else .compareEpoch }
  | .setSpurious k =>
      some { s with events := { s.events with spurious := true }, consumer := .readInWait k }
  | .readInWait k =>
      some { s with
        consumer := if s.events.inWait then .retireLock k
          else match k with
            | .found => .take
            | .stale => .readSpurious }
  | .retireLock k =>
      some { s with
        events := s.events.retireLock
        consumer := match k with
          | .found => .take
          | .stale => .readSpurious }
  | .compareEpoch =>
      some { s with
        consumer := if s.events.epochStarted = s.events.epoch then .waiting
          else .setSpurious .stale }
  | .waiting =>
      -- `WaitAny` answers the lower index, the semaphore, when both are signalled
      match s.events.waitOne with
      | some ec => some { s with events := ec, consumer := .readSpurious }
      | none => if s.canceled then some { s with consumer := .ended .canceled } else none
  | .handing item => some { s with consumer := .onItem item, delivered := s.delivered ++ [item] }
  | .onItem _ | .ended _ => none

variable [DecidableEq P]

def step (s : Blocking P T X) : BlockingAct P T X → Option (Blocking P T X)
  | .enqueue p item =>
      match s.producers p with
      | .idle => some { s with producers := Function.update s.producers p (.enter item) }
      | _ => none
  | .produce p =>
      (s.produceStep (s.producers p)).map fun (pc, t) =>
        { t with producers := Function.update s.producers p pc }
  | .finish p =>
      match s.producers p with
      | .returned _ | .canceled _ | .raised _ _ =>
          some { s with producers := Function.update s.producers p .idle }
      | _ => none
  | .consume yields => s.consumeStep yields
  | .itemReturns =>
      match s.consumer with
      | .onItem _ => some { s with consumer := .spin }
      | _ => none
  | .itemThrows x =>
      match s.consumer with
      | .onItem _ => some { s with consumer := .ended (.threw x) }
      | _ => none
  | .completeAdding => some { s with canceled := s.canceled || !s.sourceDisposed }
  | .disposeSource =>
      match s.consumer with
      | .ended _ => some { s with sourceDisposed := true }
      | _ => none
  | .disposeSemaphore =>
      match s.consumer with
      | .ended _ => some { s with events := { s.events with semaphoreDisposed := true } }
      | _ => none

def machine [Inhabited T] : Machine (Blocking P T X) (BlockingAct P T X) := ⟨init, step⟩

end Blocking

def Producer.writer {T : Type} : Producer T → Writer
  | .exchange _ n => .created n
  | .store _ n prev => .exchanged n prev
  | .idle | .enter _ | .create _ | .notify _ | .lock _ | .release _ | .returned _ | .canceled _
  | .raised _ _ => .idle

def Consumer.inHand {T X : Type} : Consumer T X → Option T
  | .handing item => some item
  | _ => none

-- The three accesses of the list in `Enqueue` are the writer's steps; the spinning queue
-- shares them.
section Writers
variable {P T : Type} [DecidableEq P] {producers : P → Producer T} {p : P} {item : T}
  {list : NodeList T} {order : List ℕ} {handing : Option T} {delivered : List T}

theorem Producer.writer_update (pc : Producer T) :
    (fun q => (Function.update producers p pc q).writer) =
      Function.update (fun q => (producers q).writer) p pc.writer :=
  Function.comp_update Producer.writer producers p pc

theorem Producer.writer_update_same {pc : Producer T} (h : pc.writer = (producers p).writer) :
    (fun q => (Function.update producers p pc q).writer) = fun q => (producers q).writer := by
  rw [Producer.writer_update, h]
  exact Function.update_eq_self ..

theorem Mpsc.step_create (hp : producers p = .create item) :
    (⟨list, fun q => (producers q).writer, order, handing, delivered⟩ : Mpsc P T).step
        (.create p item) =
      some ⟨list.create item,
        fun q => (Function.update producers p (.exchange item list.allocated) q).writer,
        order, handing, delivered⟩ := by
  rw [Producer.writer_update]
  simp only [Mpsc.step, hp, Producer.writer]

theorem Mpsc.step_exchange {n : ℕ} (hp : producers p = .exchange item n) :
    (⟨list, fun q => (producers q).writer, order, handing, delivered⟩ : Mpsc P T).step
        (.exchange p) =
      some ⟨list.exchange n,
        fun q => (Function.update producers p (.store item n list.head) q).writer,
        order ++ [n], handing, delivered⟩ := by
  rw [Producer.writer_update]
  simp only [Mpsc.step, hp, Producer.writer]

theorem Mpsc.step_store {n prev : ℕ} {pc : Producer T} (hp : producers p = .store item n prev)
    (hpc : pc.writer = .idle) :
    (⟨list, fun q => (producers q).writer, order, handing, delivered⟩ : Mpsc P T).step
        (.store p) =
      some ⟨list.store prev n, fun q => (Function.update producers p pc q).writer,
        order, handing, delivered⟩ := by
  rw [Producer.writer_update, hpc]
  simp only [Mpsc.step, hp, Producer.writer]

end Writers

namespace Blocking
variable {P T X : Type}

def mpsc (s : Blocking P T X) : Mpsc P T :=
  ⟨s.list, fun p => (s.producers p).writer, s.order, s.consumer.inHand, s.delivered⟩

variable [DecidableEq P] {s t : Blocking P T X}

theorem mpsc_setProducer {p : P} {pc : Producer T} (h : pc.writer = (s.producers p).writer) :
    ({ s with producers := Function.update s.producers p pc } : Blocking P T X).mpsc = s.mpsc := by
  simp only [mpsc, Mpsc.mk.injEq, true_and, and_true]
  exact Producer.writer_update_same h

theorem produce_eq {p : P} (h : s.step (.produce p) = some t) :
    ∃ pc u, s.produceStep (s.producers p) = some (pc, u) ∧
      t = { u with producers := Function.update s.producers p pc } := by
  simp only [step, Option.map_eq_some_iff] at h
  obtain ⟨⟨pc, u⟩, hu, rfl⟩ := h
  exact ⟨pc, u, hu, rfl⟩

theorem mpsc_produce {p : P} (h : s.step (.produce p) = some t) :
    t.mpsc = s.mpsc ∨ ∃ b, s.mpsc.step b = some t.mpsc := by
  obtain ⟨pc, u, hu, rfl⟩ := produce_eq h
  cases hp : s.producers p with
  | idle | returned _ | canceled _ | raised _ _ => simp [produceStep, hp] at hu
  | enter item | notify item | lock item =>
      simp only [produceStep, hp, Option.some.injEq, Prod.mk.injEq] at hu
      obtain ⟨rfl, rfl⟩ := hu
      refine .inl (mpsc_setProducer ?_)
      rw [hp]
      split <;> rfl
  | create item =>
      simp only [produceStep, hp, Option.some.injEq, Prod.mk.injEq] at hu
      obtain ⟨rfl, rfl⟩ := hu
      exact .inr ⟨.create p item, Mpsc.step_create hp⟩
  | exchange item n =>
      simp only [produceStep, hp, Option.some.injEq, Prod.mk.injEq] at hu
      obtain ⟨rfl, rfl⟩ := hu
      exact .inr ⟨.exchange p, Mpsc.step_exchange hp⟩
  | store item n prev =>
      simp only [produceStep, hp, Option.some.injEq, Prod.mk.injEq] at hu
      obtain ⟨rfl, rfl⟩ := hu
      exact .inr ⟨.store p, Mpsc.step_store hp rfl⟩
  | release item =>
      simp only [produceStep, hp] at hu
      split at hu <;>
      · simp only [Option.some.injEq, Prod.mk.injEq] at hu
        obtain ⟨rfl, rfl⟩ := hu
        exact .inl (mpsc_setProducer (by rw [hp]; rfl))

theorem mpsc_consume {yields : Bool} (h : s.consumeStep yields = some t) :
    t.mpsc = s.mpsc ∨ ∃ b, s.mpsc.step b = some t.mpsc := by
  have hh : s.mpsc.handing = s.consumer.inHand := rfl
  cases hc : s.consumer with
  | take =>
      simp only [consumeStep, hc] at h
      split at h
      · rename_i n hn
        cases h
        rw [hc] at hh
        have hn' : s.mpsc.list.tailNext = some n := hn
        exact .inr ⟨.advance, by simp only [Mpsc.step, hh, hn', Consumer.inHand]; rfl⟩
      · cases h
        exact .inl (by simp [mpsc, hc, Consumer.inHand])
  | handing item =>
      simp only [consumeStep, hc, Option.some.injEq] at h
      subst h
      rw [hc] at hh
      exact .inr ⟨.hand, by simp only [Mpsc.step, hh, Consumer.inHand]; rfl⟩
  | onItem _ | ended _ => simp [consumeStep, hc] at h
  | spin =>
      simp only [consumeStep, hc] at h
      split at h <;>
      · cases h
        exact .inl (by simp [mpsc, hc, Consumer.inHand])
  | test | readSpurious | retest | compareEpoch =>
      simp only [consumeStep, hc, Option.some.injEq] at h
      subst h
      left
      simp only [mpsc, hc, Mpsc.mk.injEq, true_and, and_true]
      split <;> rfl
  | clearSpurious | setInWait | readEpoch | setSpurious _ =>
      simp only [consumeStep, hc, Option.some.injEq] at h
      subst h
      exact .inl (by simp [mpsc, hc, Consumer.inHand])
  | waitOne =>
      simp only [consumeStep, hc, Option.map_eq_some_iff] at h
      obtain ⟨ec, -, rfl⟩ := h
      exact .inl (by simp [mpsc, hc, Consumer.inHand])
  | readInWait k | retireLock k =>
      simp only [consumeStep, hc, Option.some.injEq] at h
      subst h
      left
      simp only [mpsc, hc, Mpsc.mk.injEq, true_and, and_true]
      cases k <;> first | rfl | (split <;> rfl)
  | waiting =>
      simp only [consumeStep, hc] at h
      split at h
      · cases h
        exact .inl (by simp [mpsc, hc, Consumer.inHand])
      · split at h
        · cases h
          exact .inl (by simp [mpsc, hc, Consumer.inHand])
        · cases h

/-- The blocking queue refines the list: whatever it does to wait and to wake,
its accesses to the nodes are those of `Mpsc`. -/
theorem refines_mpsc [Inhabited T] :
    (machine : Machine (Blocking P T X) _).Refines Mpsc.machine mpsc where
  init := rfl
  step := by
    intro s a t h
    cases a with
    | enqueue p item =>
        simp only [machine, step] at h
        split at h
        · rename_i hp
          cases h
          exact .inl (mpsc_setProducer (by rw [hp]; rfl))
        · cases h
    | produce p => exact mpsc_produce h
    | finish p =>
        simp only [machine, step] at h
        split at h <;>
        · rename_i hp
          cases h
          try exact .inl (mpsc_setProducer (by rw [hp]; rfl))
    | consume yields => exact mpsc_consume h
    | itemReturns | itemThrows x =>
        simp only [machine, step] at h
        split at h
        · rename_i hc
          cases h
          exact .inl (by simp [mpsc, hc, Consumer.inHand])
        · cases h
    | completeAdding =>
        cases h
        exact .inl rfl
    | disposeSource | disposeSemaphore =>
        simp only [machine, step] at h
        split at h
        · cases h
          exact .inl rfl
        · cases h

theorem mpsc_inv [Inhabited T] (hr : (machine : Machine (Blocking P T X) _).Reachable s) :
    s.mpsc.Inv := Mpsc.inv_reachable (refines_mpsc.reachable hr)

end Blocking
end ComposableAsync.Concurrent
