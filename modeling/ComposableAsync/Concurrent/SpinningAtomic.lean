import ComposableAsync.Concurrent.FiberAtomic
import ComposableAsync.Concurrent.SpinningProgress

/-!
# The spinning queue as a queue of atomic operations

Where nobody is inside `Enqueue` when `CompleteAdding` is called and `onItem` returns, the
queue does step by step what the queue of atomic operations does. `Enqueue` takes effect at
its Exchange. The consumer takes its element where it looks at the token for the last time,
one step before it moves the tail: a cancellation in between comes too late for that element.
-/
namespace ComposableAsync.Concurrent
open Foundations

namespace Mpsc
variable {P T : Type} {s : Mpsc P T}

theorem Inv.exchanged_next (hi : s.Inv) (hh : s.handing = none) {n : ℕ}
    (hn : s.list.tailNext = some n) : s.exchanged[s.delivered.length]? = some (s.list.value n) := by
  obtain ⟨front, back, hs, hd⟩ := hi.tailNext hn
  rw [hh, Option.toList_none, List.append_nil] at hd
  have htail : s.order = (front ++ [s.list.tail]).tail ++ n :: back := by
    rw [← tail_append, ← hs, List.tail_cons]
  rw [exchanged, htail, List.map_append, ← hd, List.getElem?_append_right (Nat.le_refl _),
    Nat.sub_self]
  rfl

end Mpsc

namespace Spinning
variable {P T X : Type}

/-- `CompleteAdding` is called with nobody inside `Enqueue` past its look at the token, and
`onItem` returns. -/
def CompletesAlone (s : Spinning P T X) : SpinningAct P T X → Prop
  | .completeAdding => ∀ p, ¬ (s.producers p).Underway
  | .itemThrows _ => False
  | .enqueue _ _ | .produce _ | .finish _ | .consume | .itemReturns => True

/-- The first element that was not delivered. -/
def first (s : Spinning P T X) : Option T := s.exchanged[s.delivered.length]?

/-- The element that the atomic consumer has taken and not handed over. -/
def taken (s : Spinning P T X) : Option T :=
  match s.consumer with
  | .take | .handing _ => s.first
  | .spinNext | .spinToken | .throwIfCancellationRequested | .onItem _ | .ended _ => none

/-- What the atomic queue holds. -/
def pending (s : Spinning P T X) : List T :=
  s.exchanged.drop (s.delivered.length + s.taken.toList.length)

/-- The stage of the atomic operations at which the consumer stands. -/
def stage (s : Spinning P T X) : Stage T :=
  match s.consumer with
  | .take => s.first.elim .onElements .onItem
  | .handing item | .onItem item => .onItem item
  | .ended _ => .getUnsafeQueue s.pending 0
  | .spinNext | .spinToken | .throwIfCancellationRequested => .onElements

/-- The queue as the atomic operations see it. -/
def atomic (s : Spinning P T X) : QueueRun (NodeQueue T) T where
  queue := { items := s.pending, canceled := s.canceled }
  stage := s.stage
  accepted := s.exchanged
  executed := s.delivered ++ s.taken.toList

variable {s t : Spinning P T X}

theorem atomic_eq (hcanceled : t.canceled = s.canceled) (hc : t.consumer = s.consumer)
    (hd : t.delivered = s.delivered) (he : t.exchanged = s.exchanged) : t.atomic = s.atomic := by
  simp only [atomic, stage, pending, taken, first, hcanceled, hc, hd, he]

/-- Before the last look at the token nothing is taken. -/
theorem atomic_looking (hc : s.consumer = .spinNext ∨ s.consumer = .spinToken ∨
    s.consumer = .throwIfCancellationRequested) : s.atomic =
      { queue := { items := s.exchanged.drop s.delivered.length, canceled := s.canceled }
        stage := .onElements
        accepted := s.exchanged
        executed := s.delivered } := by
  rcases hc with hc | hc | hc <;>
    simp [atomic, stage, pending, taken, hc]

theorem atomic_taken {item : T} (hc : s.consumer = .take ∨ s.consumer = .handing item)
    (hfirst : s.first = some item) : s.atomic =
      { queue := { items := s.exchanged.drop (s.delivered.length + 1), canceled := s.canceled }
        stage := .onItem item
        accepted := s.exchanged
        executed := s.delivered ++ [item] } := by
  rcases hc with hc | hc <;>
    simp [atomic, stage, pending, taken, hc, hfirst]

theorem atomic_onItem {item : T} (hc : s.consumer = .onItem item) : s.atomic =
    { queue := { items := s.exchanged.drop s.delivered.length, canceled := s.canceled }
      stage := .onItem item
      accepted := s.exchanged
      executed := s.delivered } := by
  simp [atomic, stage, pending, taken, hc]

theorem atomic_ended {cause : Ended X} (hc : s.consumer = .ended cause) : s.atomic =
    { queue := { items := s.exchanged.drop s.delivered.length, canceled := s.canceled }
      stage := .getUnsafeQueue (s.exchanged.drop s.delivered.length) 0
      accepted := s.exchanged
      executed := s.delivered } := by
  simp [atomic, stage, pending, taken, hc]

theorem pending_cons {item : T} (h : s.first = some item) :
    s.exchanged.drop s.delivered.length = item :: s.exchanged.drop (s.delivered.length + 1) := by
  obtain ⟨hlt, hitem⟩ := List.getElem?_eq_some_iff.mp h
  rw [List.drop_eq_getElem_cons hlt, hitem]

theorem first_of_take (hi : s.mpsc.Inv) (hsees : s.Sees) (hc : s.consumer = .take) :
    ∃ n, s.list.tailNext = some n ∧ s.first = some (s.list.value n) := by
  obtain ⟨n, hn⟩ := Option.isSome_iff_exists.mp (hsees.take hc)
  have hhand : s.mpsc.handing = none := congrArg SpinConsumer.inHand hc
  exact ⟨n, hn, hi.exchanged_next hhand hn⟩

theorem first_of_handing (hi : s.mpsc.Inv) {item : T} (hc : s.consumer = .handing item) :
    s.first = some item := by
  obtain ⟨front, back, -, he⟩ := hi.taken_append
  have hhand : s.mpsc.handing = some item := congrArg SpinConsumer.inHand hc
  have hdelivered : s.mpsc.delivered = s.delivered := rfl
  rw [first, exchanged, he, hhand, hdelivered, List.append_assoc,
    List.getElem?_append_right (Nat.le_refl _), Nat.sub_self]
  rfl

variable [DecidableEq P] [Inhabited T]

theorem not_underway_of_canceled
    (hr : (machine : Machine (Spinning P T X) _).ReachableUnder CompletesAlone s)
    (hc : s.canceled = true) : ∀ p, ¬ (s.producers p).Underway := by
  revert hc
  apply hr.invariant (I := fun s => s.canceled = true → ∀ p, ¬ (s.producers p).Underway)
  · intro hc
    cases hc
  · intro s a t hr hi ha h hc q
    have he := step_effect (mpsc_inv hr.reachable) h
    cases he with
    | write p _ hw =>
        rw [hw.canceled] at hc
        intro hq
        by_cases hqp : q = p
        · rw [hqp] at hq
          exact hi hc p (hw.underway hc hq)
        · rw [hw.other q hqp] at hq
          exact hi hc q hq
    | completeAdding => exact ha q
    | consume hstep =>
        obtain ⟨hcanceled, hproducers⟩ := consume_frame hstep
        rw [hproducers]
        exact hi (hcanceled ▸ hc) q
    | itemReturns | itemThrows => exact hi hc q

theorem canceled_of_ended
    (hr : (machine : Machine (Spinning P T X) _).ReachableUnder CompletesAlone s)
    {cause : Ended X} (hc : s.consumer = .ended cause) : s.canceled = true := by
  have hthrew : ∀ e, s.consumer ≠ .ended (.threw e) := by
    refine hr.invariant (I := fun s => ∀ e, s.consumer ≠ .ended (.threw e)) ?_ ?_
    · intro e h
      cases h
    · intro s a t hr hi ha h e
      cases step_effect (mpsc_inv hr.reachable) h with
      | write p _ hw =>
          rw [hw.consumer]
          exact hi e
      | completeAdding => exact hi e
      | consume hstep => exact consume_not_threw hstep e
      | itemReturns item hc => simp
      | itemThrows item x hc => exact ha.elim
  rcases (sees_reachable hr.reachable).ended cause hc with ⟨-, hcanceled⟩ | ⟨e, rfl⟩
  · exact hcanceled
  · exact (hthrew e hc).elim

/-- The atomic operations make the step, or stand still. -/
def Follows (s t : Spinning P T X) : Prop :=
  t.atomic = s.atomic ∨ ∃ b, s.atomic.step spinningMpscQueue b = t.atomic

theorem follows_write
    (hr : (machine : Machine (Spinning P T X) _).ReachableUnder CompletesAlone s) {p : P}
    (h : Writes p s t) : s.Follows t := by
  rcases h.exchanged with hsame | ⟨hunderway, item, hadded⟩
  · exact .inl (atomic_eq h.canceled h.consumer h.delivered hsame)
  · have hi := mpsc_inv hr.reachable
    have hopen : s.canceled = false :=
      Bool.eq_false_iff.mpr fun hc => not_underway_of_canceled hr hc p hunderway
    have hle : s.delivered.length ≤ s.exchanged.length := hi.delivered_prefix.length_le
    have henqueue : ∀ {n : ℕ}, n ≤ s.exchanged.length →
        (s.exchanged ++ [item]).drop n = s.exchanged.drop n ++ [item] :=
      fun hn => List.drop_append_of_le_length hn
    -- an element that the consumer has taken stays the one at its place
    have htaken : ∀ {x : T}, s.first = some x →
        t.first = some x ∧ s.delivered.length + 1 ≤ s.exchanged.length := by
      intro x hx
      obtain ⟨hlt, -⟩ := List.getElem?_eq_some_iff.mp hx
      refine ⟨?_, hlt⟩
      rw [first, h.delivered, hadded, List.getElem?_append_left hlt]
      exact hx
    right
    refine ⟨.enqueue item, ?_⟩
    cases hc : s.consumer with
    | spinNext | spinToken | throwIfCancellationRequested =>
        rw [atomic_looking (by simp [hc]), atomic_looking (by simp [h.consumer, hc]), h.canceled,
          h.delivered, hadded, henqueue hle]
        simp [QueueRun.step, spinningMpscQueue, nodeQueue, hopen]
    | take =>
        obtain ⟨n, -, hfirst⟩ := first_of_take hi (sees_reachable hr.reachable) hc
        obtain ⟨hfirst', hlt⟩ := htaken hfirst
        rw [atomic_taken (.inl hc) hfirst, atomic_taken (.inl (h.consumer.trans hc)) hfirst',
          h.canceled, h.delivered, hadded, henqueue hlt]
        simp [QueueRun.step, spinningMpscQueue, nodeQueue, hopen]
    | handing x =>
        obtain ⟨hfirst', hlt⟩ := htaken (first_of_handing hi hc)
        rw [atomic_taken (.inr hc) (first_of_handing hi hc),
          atomic_taken (.inr (h.consumer.trans hc)) hfirst', h.canceled, h.delivered, hadded,
          henqueue hlt]
        simp [QueueRun.step, spinningMpscQueue, nodeQueue, hopen]
    | onItem x =>
        rw [atomic_onItem hc, atomic_onItem (h.consumer.trans hc), h.canceled, h.delivered, hadded,
          henqueue hle]
        simp [QueueRun.step, spinningMpscQueue, nodeQueue, hopen]
    | ended cause => cases hopen.symm.trans (canceled_of_ended hr hc)

omit [DecidableEq P] [Inhabited T] in
theorem exchanged_consumeStep (h : s.consumeStep = some t) : t.exchanged = s.exchanged := by
  cases hs : s.consumer with
  | onItem _ | ended _ => simp [consumeStep, hs] at h
  | spinNext | spinToken | throwIfCancellationRequested | handing _ =>
      simp only [consumeStep, hs, Option.some.injEq] at h
      rw [← h]
      rfl
  | take =>
      simp only [consumeStep, hs] at h
      split at h <;> cases h <;> rfl

/-- The last look at the token takes the element, or ends the loop. -/
theorem follows_consume
    (hr : (machine : Machine (Spinning P T X) _).ReachableUnder CompletesAlone s)
    (h : s.consumeStep = some t) : s.Follows t := by
  have hsees := sees_reachable hr.reachable
  have hi := mpsc_inv hr.reachable
  have hcanceled : t.canceled = s.canceled := (consume_frame h).1
  have hexchanged : t.exchanged = s.exchanged := exchanged_consumeStep h
  have hfirst_kept : t.delivered = s.delivered → t.first = s.first := by
    intro hdelivered
    rw [first, first, hexchanged, hdelivered]
  cases hs : s.consumer with
  | onItem _ | ended _ => simp [consumeStep, hs] at h
  | spinNext | spinToken =>
      simp only [consumeStep, hs, Option.some.injEq] at h
      have hlooking : t.consumer = .spinNext ∨ t.consumer = .spinToken ∨
          t.consumer = .throwIfCancellationRequested := by
        rw [← h]
        simp only
        split <;> simp
      have hdelivered : t.delivered = s.delivered := by rw [← h]
      left
      rw [atomic_looking hlooking, atomic_looking (by simp [hs]), hexchanged, hdelivered, hcanceled]
  | throwIfCancellationRequested =>
      simp only [consumeStep, hs, Option.some.injEq] at h
      have hdelivered : t.delivered = s.delivered := by rw [← h]
      right
      refine ⟨.consume, ?_⟩
      rw [atomic_looking (by simp [hs])]
      cases hc : s.canceled with
      | true =>
          have hended : t.consumer = .ended .canceled := by
            rw [← h]
            exact if_pos hc
          rw [atomic_ended hended, hexchanged, hdelivered, hcanceled, hc]
          rfl
      | false =>
          have htake : t.consumer = .take := by
            rw [← h]
            exact if_neg (by simp [hc])
          have hlink := (hsees.spun hs).resolve_left (by simp [hc])
          obtain ⟨n, hn⟩ := Option.isSome_iff_exists.mp hlink
          have hhand : s.mpsc.handing = none := congrArg SpinConsumer.inHand hs
          have hfirst : s.first = some (s.list.value n) := hi.exchanged_next hhand hn
          have hfirst' := (hfirst_kept hdelivered).trans hfirst
          rw [atomic_taken (.inl htake) hfirst', hexchanged, hdelivered, hcanceled, hc,
            pending_cons hfirst]
          rfl
  | take =>
      obtain ⟨n, hn, hfirst⟩ := first_of_take hi hsees hs
      simp only [consumeStep, hs, hn, Option.some.injEq] at h
      have hhanding : t.consumer = .handing (s.list.value n) := by rw [← h]
      have hdelivered : t.delivered = s.delivered := by rw [← h]
      have hfirst' := (hfirst_kept hdelivered).trans hfirst
      left
      rw [atomic_taken (.inl hs) hfirst, atomic_taken (.inr hhanding) hfirst', hexchanged,
        hdelivered, hcanceled]
  | handing item =>
      have hfirst := first_of_handing hi hs
      simp only [consumeStep, hs, Option.some.injEq] at h
      have honItem : t.consumer = .onItem item := by rw [← h]
      have hdelivered : t.delivered = s.delivered ++ [item] := by rw [← h]
      left
      rw [atomic_taken (.inr hs) hfirst, atomic_onItem honItem, hexchanged, hdelivered, hcanceled,
        List.length_append, List.length_singleton]

/-- The queue refines the queue of atomic operations on the runs in which `CompleteAdding`
finds nobody under way and `onItem` returns. -/
theorem refines_atomic :
    (machine : Machine (Spinning P T X) _).RefinesUnder (QueueRun.machine spinningMpscQueue)
      CompletesAlone (fun _ _ => True) atomic where
  init := rfl
  step := by
    intro s a t hr ha h
    have hfollows : s.Follows t := by
      cases step_effect (mpsc_inv hr.reachable) h with
      | write p _ hw => exact follows_write hr hw
      | completeAdding => exact .inr ⟨.completeAdding, rfl⟩
      | consume hstep => exact follows_consume hr hstep
      | itemReturns item hc =>
          refine .inr ⟨.consume, ?_⟩
          rw [atomic_onItem hc, atomic_looking (by simp)]
          rfl
      | itemThrows item x hc => exact ha.elim
    rcases hfollows with hsame | ⟨b, hb⟩
    · exact .inl hsame
    · exact .inr ⟨b, trivial, congrArg some hb⟩

/-- Every state of such a run is that of a sequence of atomic operations; and when the consumer
has left the loop, `GetUnsafeQueue` enumerates what was accepted and not handed over. -/
theorem runs_atomically
    (hr : (machine : Machine (Spinning P T X) _).ReachableUnder CompletesAlone s) :
    (∃ as, s.atomic = QueueRun.run spinningMpscQueue as) ∧
      ∀ cause, s.consumer = .ended cause →
        s.list.getUnsafeQueue = some s.pending ∧ s.exchanged = s.delivered ++ s.pending := by
  refine ⟨QueueRun.run_of_reachable (refines_atomic.reachable hr), fun cause hc => ?_⟩
  have hclear := not_underway_of_canceled hr (canceled_of_ended hr hc)
  have hhand : s.mpsc.handing = none := congrArg SpinConsumer.inHand hc
  have hwriters : ∀ p n prev, s.mpsc.writers p ≠ .exchanged n prev := by
    intro p n prev hp
    obtain ⟨item, hp⟩ := Producer.writer_eq_exchanged.mp hp
    exact hclear p (hp ▸ .inl trivial)
  obtain ⟨rest, hrest, hall⟩ := (mpsc_inv hr.reachable).getUnsafeQueue hwriters hhand
  have hpending : s.pending = rest := by
    have hexchanged : s.exchanged = s.delivered ++ rest := hall.symm
    simp only [pending, taken, hc, Option.toList_none, List.length_nil, Nat.add_zero, hexchanged,
      List.drop_left]
  rw [hpending]
  exact ⟨hrest, hall.symm⟩

instance [Fintype P] (s : Spinning P T X) (a : SpinningAct P T X) :
    Decidable (s.CompletesAlone a) :=
  match a with
  | .completeAdding => inferInstanceAs (Decidable (∀ p, ¬ (s.producers p).Underway))
  | .itemThrows _ => .isFalse id
  | .enqueue _ _ | .produce _ | .finish _ | .consume | .itemReturns => .isTrue trivial

/-- The token is cancelled between the last look at it and the move of the tail: that element
is handed over, and the next one is left. -/
theorem runs_atomically_late :
    ∃ s : Spinning Unit ℕ Unit, s.delivered = [7] ∧ s.pending = [8] ∧
      s.list.getUnsafeQueue = some [8] ∧
      ∃ as, s.atomic = QueueRun.run spinningMpscQueue as := by
  let schedule : List (SpinningAct Unit ℕ Unit) := List.flatten
    [[.enqueue () 7], List.replicate 4 (.produce ()), [.finish (), .enqueue () 8],
      List.replicate 4 (.produce ()), [.finish ()], List.replicate 2 .consume, [.completeAdding],
      List.replicate 2 .consume, [.itemReturns], List.replicate 2 .consume]
  have hrun : (machine.run schedule (machine : Machine (Spinning Unit ℕ Unit) _).init).any (fun s =>
      decide (s.consumer = .ended .canceled ∧ s.delivered = [7] ∧ s.pending = [8])) = true := by
    decide
  have hmeets : machine.meets CompletesAlone schedule
      (machine : Machine (Spinning Unit ℕ Unit) _).init = true := by
    decide
  obtain ⟨s, hs, h⟩ := (Option.any_eq_true _ _).mp hrun
  obtain ⟨hc, hdelivered, hpending⟩ := of_decide_eq_true h
  obtain ⟨hatomic, hended⟩ := runs_atomically (Machine.run_reachableUnder schedule .init hmeets hs)
  refine ⟨s, hdelivered, hpending, ?_, hatomic⟩
  rw [(hended _ hc).1, hpending]

end Spinning
end ComposableAsync.Concurrent
