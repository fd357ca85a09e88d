import ComposableAsync.Concurrent.SpinningMpscQueue

/-!
# Both queues are first in, first out

The order that counts is that of the Exchange steps on `_Head`. In every
reachable state of either queue the values handed to `onItem` are a prefix of
it, and between two Exchange and store pairs the drain finds exactly the rest.
Ending `OnElements` is one more step of the runs, so the drain that follows a
cancellation or an exception of `onItem` needs no argument of its own.
-/
namespace ComposableAsync.Concurrent
open Foundations

variable {P T X : Type} [Inhabited T] [DecidableEq P]

/-- Delivery in the order of the Exchange steps, every node once, none lost. -/
structure Mpsc.Fifo (s : Mpsc P T) : Prop where
  order : s.delivered <+: s.exchanged
  once : s.order.Nodup
  rest : (∀ p n prev, s.writers p ≠ .exchanged n prev) → s.handing = none →
    ∃ rest, s.list.getUnsafeQueue = some rest ∧ s.delivered ++ rest = s.exchanged

omit [Inhabited T] [DecidableEq P] in
theorem Mpsc.Inv.fifo {s : Mpsc P T} (hi : s.Inv) : s.Fifo where
  order := hi.delivered_prefix
  once := hi.chain.nodup.of_cons
  rest := hi.getUnsafeQueue

/-- Every reachable state of the blocking and of the spinning queue is first in,
first out, with any number of producers and wherever the consumer stands. -/
theorem fifo_of_reachable :
    (∀ s : Blocking P T X, Blocking.machine.Reachable s → s.mpsc.Fifo) ∧
    (∀ s : Spinning P T X, Spinning.machine.Reachable s → s.mpsc.Fifo) := by
  constructor
  · intro s hr
    exact (Blocking.mpsc_inv hr).fifo
  · intro s hr
    exact (Spinning.mpsc_inv hr).fifo

/-- The second producer stores its link first and an item throws; the drain
still finds what is left. -/
theorem fifo_of_reachable_two :
    (∃ s : Blocking (Fin 2) ℕ Unit, s.consumer = .ended (.threw ()) ∧ s.delivered = [7] ∧
      s.list.getUnsafeQueue = some [8] ∧ [7, 8] = s.mpsc.exchanged) ∧
    (∃ s : Spinning (Fin 2) ℕ Unit, s.delivered = [7] ∧ [7] <+: s.mpsc.exchanged) := by
  constructor
  · obtain ⟨s, hr, hw, hc, hd, hq⟩ := Machine.exists_of_run (M := Blocking.machine)
      (p := fun s : Blocking (Fin 2) ℕ Unit => (∀ p, (s.producers p).writer = .idle) ∧
        s.consumer = .ended (.threw ()) ∧ s.delivered = [7] ∧ s.list.getUnsafeQueue = some [8])
      [.enqueue 0 7, .produce 0, .produce 0, .produce 0, .enqueue 1 8, .produce 1, .produce 1,
        .produce 1, .produce 1, .produce 0, .consume false, .consume false, .consume false,
        .consume false, .itemThrows ()] (by decide)
    have hwriters : ∀ p n prev, s.mpsc.writers p ≠ .exchanged n prev := by
      intro p n prev hp
      cases (hw p).symm.trans hp
    have hhanding : s.mpsc.handing = none := by
      simp [Blocking.mpsc, hc, Consumer.inHand]
    obtain ⟨rest, hrest, heq⟩ := (fifo_of_reachable.1 s hr).rest hwriters hhanding
    cases hq.symm.trans hrest
    have hdelivered : s.mpsc.delivered = [7] := hd
    rw [hdelivered] at heq
    exact ⟨s, hc, hd, hq, heq⟩
  · obtain ⟨s, hr, hd⟩ := Machine.exists_of_run (M := Spinning.machine)
      (p := fun s : Spinning (Fin 2) ℕ Unit => s.delivered = [7])
      [.enqueue 0 7, .produce 0, .produce 0, .produce 0, .produce 0, .consume, .consume,
        .consume, .consume] (by decide)
    have hprefix := (fifo_of_reachable.2 s hr).order
    rw [show s.mpsc.delivered = [7] from hd] at hprefix
    exact ⟨s, hd, hprefix⟩

end ComposableAsync.Concurrent
