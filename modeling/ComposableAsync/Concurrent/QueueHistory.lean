import ComposableAsync.Concurrent.NoLostWakeup

/-!
# The blocking queue by its items

A client of the queue does not see nodes. This module says once, in terms of
items, what each step of a producer and of the consumer can do: the place in
`Enqueue` it moves to, the item it adds to the Exchange order, the item it takes
from those pending. A cursor that walks the list from the tail, as the
enumeration of `GetUnsafeQueue` does, reads the items in that order.
-/
namespace ComposableAsync.Concurrent
open Foundations

namespace Mpsc
variable {P T : Type} {s t : Mpsc P T} {node n : ℕ} {items : List T}

/-- `node` stands behind the nodes of `items`, counted from the first node. -/
def At (s : Mpsc P T) (node : ℕ) (items : List T) : Prop :=
  ∃ front back, 0 :: s.order = front ++ node :: back ∧
    items = (front ++ [node]).tail.map s.list.value

theorem At.next (hi : s.Inv) (h : s.At node items) (hn : s.list.link node = some n) :
    s.At n (items ++ [s.list.value n]) := by
  obtain ⟨front, back, hs, rfl⟩ := h
  obtain ⟨back', rfl⟩ := hi.chain.successor hs hn
  refine ⟨front ++ [node], back', by simp [hs], ?_⟩
  have htail : (front ++ [node] ++ [n]).tail = (front ++ [node]).tail ++ [n] := by
    rw [List.append_assoc]
    exact tail_append
  rw [htail, List.map_append]
  rfl

theorem At.isPrefix (h : s.At node items) : items <+: s.exchanged := by
  obtain ⟨front, back, hs, rfl⟩ := h
  have htail : s.order = (front ++ [node]).tail ++ back := by
    rw [← tail_append, ← hs, List.tail_cons]
  refine ⟨back.map s.list.value, ?_⟩
  rw [exchanged, ← List.map_append, ← htail]

theorem At.last (hi : s.Inv) (hw : ∀ p n prev, s.writers p ≠ .exchanged n prev)
    (h : s.At node items) (hn : s.list.link node = none) : items = s.exchanged := by
  obtain ⟨front, back, hs, rfl⟩ := h
  have hnext := hi.chain.next_eq_head? (not_owed hw) hs
  rw [hn] at hnext
  have hback : back = [] := List.head?_eq_none_iff.mp hnext.symm
  subst hback
  change _ = (0 :: s.order).tail.map s.list.value
  rw [hs]

variable [DecidableEq P]

theorem Inv.order_step (hi : s.Inv) {a : MpscAct P T} (h : s.step a = some t) :
    ∃ more, t.order = s.order ++ more ∧ ∀ r ∈ 0 :: s.order, t.list.value r = s.list.value r := by
  cases a with
  | create p item =>
      simp only [Mpsc.step] at h
      split at h
      · cases h
        refine ⟨[], (List.append_nil _).symm, fun r hr => ?_⟩
        exact NodeList.value_create (hi.bound r hr)
      · cases h
  | exchange p =>
      simp only [Mpsc.step] at h
      split at h
      · cases h
        exact ⟨_, rfl, fun _ _ => rfl⟩
      · cases h
  | store p =>
      simp only [Mpsc.step] at h
      split at h
      · cases h
        refine ⟨[], (List.append_nil _).symm, fun r _ => ?_⟩
        rw [NodeList.value_store]
      · cases h
  | advance | hand =>
      simp only [Mpsc.step] at h
      split at h
      · cases h
        exact ⟨[], (List.append_nil _).symm, fun _ _ => rfl⟩
      · cases h

theorem At.step (hi : s.Inv) (h : s.At node items) {a : MpscAct P T} (ha : s.step a = some t) :
    t.At node items := by
  obtain ⟨front, back, hs, rfl⟩ := h
  obtain ⟨more, hmore, hvalue⟩ := hi.order_step ha
  refine ⟨front, back ++ more, ?_, List.map_congr_left fun r hr => (hvalue r ?_).symm⟩
  · rw [hmore, ← List.cons_append, hs]
    simp
  · rw [hs, show front ++ node :: back = (front ++ [node]) ++ back by simp]
    exact List.mem_append_left _ (List.mem_of_mem_tail hr)

end Mpsc

/-- A step of `Enqueue`, and the items it adds to the Exchange order. -/
inductive Producer.Move {T : Type} (canceled : Bool) : Producer T → Producer T → List T → Prop
  | refuse (item) : canceled = true → Move canceled (.enter item) (.canceled item) []
  | pass (item) : canceled = false → Move canceled (.enter item) (.create item) []
  | create (item n) : Move canceled (.create item) (.exchange item n) []
  | exchange (item n prev) : Move canceled (.exchange item n) (.store item n prev) [item]
  | store (item n prev) : Move canceled (.store item n prev) (.notify item) []
  | unwatched (item) : Move canceled (.notify item) (.returned item) []
  | watched (item) : Move canceled (.notify item) (.lock item) []
  | late (item) : Move canceled (.lock item) (.returned item) []
  | post (item) : Move canceled (.lock item) (.release item) []
  | release (item) : Move canceled (.release item) (.returned item) []
  | raise (item e) : Move canceled (.release item) (.raised item e) []

namespace Blocking
variable {P T X : Type} {s t : Blocking P T X}

/-- The items in the order of their Exchange steps. -/
def exchanged (s : Blocking P T X) : List T := s.mpsc.exchanged

/-- The items exchanged and not taken by the consumer yet. -/
def pending (s : Blocking P T X) : List T :=
  s.exchanged.drop (s.delivered.length + s.consumer.inHand.toList.length)

/-- A node that waits for its Exchange holds its producer's item. -/
def Held (s : Blocking P T X) : Prop :=
  ∀ p item n, s.producers p = .exchange item n → s.list.value n = item

/-- What the consumer never touches: the nodes, the producers and the token. -/
theorem consume_frame {yields : Bool} (h : s.consumeStep yields = some t) :
    t.list.nodes = s.list.nodes ∧ t.order = s.order ∧ t.producers = s.producers ∧
      t.canceled = s.canceled ∧ t.sourceDisposed = s.sourceDisposed := by
  cases hc : s.consumer with
  | onItem _ | ended _ => simp [consumeStep, hc] at h
  | spin | take =>
      simp only [consumeStep, hc] at h
      split at h <;>
      · cases h
        exact ⟨rfl, rfl, rfl, rfl, rfl⟩
  | test | readSpurious | clearSpurious | setInWait | readEpoch | retest | setSpurious _
  | readInWait _ | retireLock _ | compareEpoch | handing _ =>
      simp only [consumeStep, hc, Option.some.injEq] at h
      subst h
      exact ⟨rfl, rfl, rfl, rfl, rfl⟩
  | waitOne =>
      simp only [consumeStep, hc, Option.map_eq_some_iff] at h
      obtain ⟨ec, -, rfl⟩ := h
      exact ⟨rfl, rfl, rfl, rfl, rfl⟩
  | waiting =>
      simp only [consumeStep, hc] at h
      split at h
      · cases h
        exact ⟨rfl, rfl, rfl, rfl, rfl⟩
      · split at h
        · cases h
          exact ⟨rfl, rfl, rfl, rfl, rfl⟩
        · cases h

theorem move_produceStep (hi : s.mpsc.Inv) (hh : s.Held) {p : P} {pc : Producer T}
    {u : Blocking P T X} (h : s.produceStep (s.producers p) = some (pc, u)) :
    ∃ added, Producer.Move s.canceled (s.producers p) pc added ∧
      u.consumer = s.consumer ∧ u.delivered = s.delivered ∧ u.canceled = s.canceled ∧
      u.exchanged = s.exchanged ++ added := by
  have hvalue : ∀ {l : NodeList T}, (∀ r ∈ 0 :: s.order, l.value r = s.list.value r) →
      s.order.map l.value = s.exchanged := fun hl =>
    List.map_congr_left fun r hr => hl r (List.mem_cons_of_mem _ hr)
  cases hp : s.producers p with
  | idle | returned _ | canceled _ | raised _ _ => simp [produceStep, hp] at h
  | enter item =>
      simp only [produceStep, hp, Option.some.injEq, Prod.mk.injEq] at h
      obtain ⟨rfl, rfl⟩ := h
      refine ⟨[], ?_, rfl, rfl, rfl, (List.append_nil _).symm⟩
      cases hcanceled : s.canceled with
      | true => exact .refuse item rfl
      | false => exact .pass item rfl
  | create item =>
      simp only [produceStep, hp, Option.some.injEq, Prod.mk.injEq] at h
      obtain ⟨rfl, rfl⟩ := h
      refine ⟨[], .create item _, rfl, rfl, rfl, ?_⟩
      rw [List.append_nil]
      exact hvalue fun r hr => NodeList.value_create (hi.bound r hr)
  | exchange item n =>
      simp only [produceStep, hp, Option.some.injEq, Prod.mk.injEq] at h
      obtain ⟨rfl, rfl⟩ := h
      refine ⟨[item], .exchange item n _, rfl, rfl, rfl, ?_⟩
      have hvalue : s.list.value n = item := hh p item n hp
      rw [← hvalue]
      exact List.map_append
  | store item n prev =>
      simp only [produceStep, hp, Option.some.injEq, Prod.mk.injEq] at h
      obtain ⟨rfl, rfl⟩ := h
      refine ⟨[], .store item n prev, rfl, rfl, rfl, ?_⟩
      rw [List.append_nil]
      exact hvalue fun r _ => congrFun NodeList.value_store r
  | notify item =>
      simp only [produceStep, hp, Option.some.injEq, Prod.mk.injEq] at h
      obtain ⟨rfl, rfl⟩ := h
      refine ⟨[], ?_, rfl, rfl, rfl, (List.append_nil _).symm⟩
      split
      · exact .watched item
      · exact .unwatched item
  | lock item =>
      simp only [produceStep, hp, Option.some.injEq, Prod.mk.injEq] at h
      obtain ⟨rfl, rfl⟩ := h
      refine ⟨[], ?_, rfl, rfl, rfl, (List.append_nil _).symm⟩
      split
      · exact .post item
      · exact .late item
  | release item =>
      simp only [produceStep, hp] at h
      split at h <;>
      · simp only [Option.some.injEq, Prod.mk.injEq] at h
        obtain ⟨rfl, rfl⟩ := h
        refine ⟨[], ?_, rfl, rfl, rfl, (List.append_nil _).symm⟩
        first | exact .release item | exact .raise item _

theorem held_produceStep (hi : s.mpsc.Inv) (hh : s.Held) {p : P} {pc : Producer T}
    {u : Blocking P T X} (h : s.produceStep (s.producers p) = some (pc, u)) :
    (∀ q item n, s.producers q = .exchange item n → u.list.value n = item) ∧
      ∀ item n, pc = .exchange item n → u.list.value n = item := by
  cases hp : s.producers p with
  | idle | returned _ | canceled _ | raised _ _ => simp [produceStep, hp] at h
  | enter item | exchange item n | notify item | lock item =>
      simp only [produceStep, hp, Option.some.injEq, Prod.mk.injEq] at h
      obtain ⟨rfl, rfl⟩ := h
      refine ⟨hh, fun item n hn => ?_⟩
      first | cases hn | (split at hn <;> cases hn)
  | create item =>
      simp only [produceStep, hp, Option.some.injEq, Prod.mk.injEq] at h
      obtain ⟨rfl, rfl⟩ := h
      refine ⟨fun q item' n hq => ?_, fun item' n hn => ?_⟩
      · have hw : s.mpsc.writers q = .created n := by simp only [mpsc, hq, Producer.writer]
        exact (NodeList.value_create (hi.fresh q n hw).2.1).trans (hh q item' n hq)
      · cases hn
        simp [NodeList.value, NodeList.create]
  | store item n prev =>
      simp only [produceStep, hp, Option.some.injEq, Prod.mk.injEq] at h
      obtain ⟨rfl, rfl⟩ := h
      refine ⟨fun q item' m hq => ?_, by simp⟩
      rw [NodeList.value_store]
      exact hh q item' m hq
  | release item =>
      simp only [produceStep, hp] at h
      split at h <;>
      · simp only [Option.some.injEq, Prod.mk.injEq] at h
        obtain ⟨rfl, rfl⟩ := h
        exact ⟨hh, by simp⟩

variable [DecidableEq P]

theorem Held.setProducer (hh : s.Held) {p : P} {pc : Producer T}
    (hpc : ∀ item n, pc ≠ .exchange item n) :
    ({ s with producers := Function.update s.producers p pc } : Blocking P T X).Held := by
  intro q item n hq
  rcases update_apply_eq.mp hq with ⟨-, hq⟩ | ⟨-, hq⟩
  · exact (hpc item n hq).elim
  · exact hh q item n hq

theorem held_reachable [Inhabited T] (hr : (machine : Machine (Blocking P T X) _).Reachable s) :
    s.Held := by
  refine hr.invariant (fun p item n hp => by cases hp) ?_
  intro s a t hr hh h
  cases a with
  | enqueue p item =>
      simp only [machine, step] at h
      split at h
      · cases h
        exact hh.setProducer (by simp)
      · cases h
  | produce p =>
      obtain ⟨pc, u, hu, rfl⟩ := produce_eq h
      obtain ⟨hold, hnew⟩ := held_produceStep (mpsc_inv hr) hh hu
      intro q item n hq
      rcases update_apply_eq.mp hq with ⟨-, hq⟩ | ⟨-, hq⟩
      · exact hnew item n hq
      · exact hold q item n hq
  | finish p =>
      simp only [machine, step] at h
      split at h <;>
      · cases h
        try exact hh.setProducer (by simp)
  | consume yields =>
      obtain ⟨hnodes, -, hproducers, -⟩ := consume_frame h
      intro q item n hq
      rw [hproducers] at hq
      rw [NodeList.value, hnodes]
      exact hh q item n hq
  | itemReturns | itemThrows x | disposeSource | disposeSemaphore =>
      simp only [machine, step] at h
      split at h
      · cases h
        exact hh
      · cases h
  | completeAdding =>
      cases h
      exact hh

theorem produce_move [Inhabited T] (hr : (machine : Machine (Blocking P T X) _).Reachable s)
    {p : P} (h : s.step (.produce p) = some t) :
    ∃ pc added, Producer.Move s.canceled (s.producers p) pc added ∧
      t.producers = Function.update s.producers p pc ∧ t.consumer = s.consumer ∧
      t.delivered = s.delivered ∧ t.canceled = s.canceled ∧ t.exchanged = s.exchanged ++ added := by
  obtain ⟨pc, u, hu, rfl⟩ := produce_eq h
  obtain ⟨added, hmove, hc, hd, hcanceled, he⟩ :=
    move_produceStep (mpsc_inv hr) (held_reachable hr) hu
  exact ⟨pc, added, hmove, rfl, hc, hd, hcanceled, he⟩

theorem exchanged_eq [Inhabited T] (hr : (machine : Machine (Blocking P T X) _).Reachable s) :
    s.exchanged = s.delivered ++ s.consumer.inHand.toList ++ s.pending := by
  obtain ⟨front, back, -, he⟩ := (mpsc_inv hr).taken_append
  have he' : s.exchanged =
      (s.delivered ++ s.consumer.inHand.toList) ++ back.map s.list.value := he
  have hp : s.pending = back.map s.list.value := by
    rw [pending, ← List.length_append, he', List.drop_left]
  rw [hp]
  exact he'

end Blocking

/-- Inside the loop of `OnElements`, looking for the next item. -/
def Consumer.Looping {T X : Type} : Consumer T X → Prop
  | .handing _ | .onItem _ | .ended _ => False
  | _ => True

theorem Consumer.Looping.inHand {T X : Type} {c : Consumer T X} (h : c.Looping) :
    c.inHand = none := by
  cases c with
  | handing item => exact h.elim
  | _ => rfl

def Consumer.isEnded {T X : Type} : Consumer T X → Bool
  | .ended _ => true
  | _ => false

/-- The item taken from the list, until its `Do` has ended. -/
def Consumer.current {T X : Type} : Consumer T X → Option T
  | .handing item | .onItem item => some item
  | _ => none

theorem Consumer.Looping.current {T X : Type} {c : Consumer T X} (h : c.Looping) :
    c.current = none := by
  cases c with
  | handing _ | onItem _ => exact h.elim
  | _ => rfl

namespace Blocking
variable {P T X : Type} [DecidableEq P] {s t : Blocking P T X}

omit [DecidableEq P] in
/-- What a step of the consumer does, told by the items. -/
inductive ConsumerMove (s t : Blocking P T X) : Prop
  | loop : s.consumer.Looping → t.consumer.Looping → t.pending = s.pending →
      t.delivered = s.delivered → ConsumerMove s t
  | take (item : T) : s.consumer = .take → t.consumer = .handing item →
      s.pending = item :: t.pending → t.delivered = s.delivered → ConsumerMove s t
  | hand (item : T) : s.consumer = .handing item → t.consumer = .onItem item →
      t.pending = s.pending → t.delivered = s.delivered ++ [item] → ConsumerMove s t
  | leave : s.consumer = .waiting → s.events.permits = 0 → s.canceled = true →
      t.consumer = .ended .canceled → t.pending = s.pending → t.delivered = s.delivered →
      ConsumerMove s t

/-- The consumer takes the items one by one in the order of their Exchange
steps, and leaves the loop by itself only when it is cancelled in `Wait`. -/
theorem consumer_move [Inhabited T] (hr : (machine : Machine (Blocking P T X) _).Reachable s)
    {yields : Bool} (h : s.step (.consume yields) = some t) :
    ConsumerMove s t ∧ t.exchanged = s.exchanged := by
  have hr' : machine.Reachable t := hr.next (a := .consume yields) h
  have hfound := (watch_reachable hr).found
  change s.consumeStep yields = some t at h
  obtain ⟨hnodes, horder, -⟩ := consume_frame h
  have he : t.exchanged = s.exchanged := by
    change t.order.map t.list.value = s.order.map s.list.value
    rw [horder, show t.list.value = s.list.value from funext fun r => by
      rw [NodeList.value, NodeList.value, hnodes]]
  refine ⟨?_, he⟩
  have hloop : s.consumer.Looping → t.consumer.Looping → t.delivered = s.delivered →
      ConsumerMove s t := by
    intro hs ht hd
    refine .loop hs ht ?_ hd
    rw [pending, pending, he, hd, hs.inHand, ht.inHand]
  cases hc : s.consumer with
  | onItem _ | ended _ => simp [consumeStep, hc] at h
  | spin =>
      simp only [consumeStep, hc] at h
      split at h <;>
      · cases h
        exact hloop (by simp [hc, Consumer.Looping]) (by simp [hc, Consumer.Looping]) rfl
  | test | readSpurious | retest | compareEpoch =>
      simp only [consumeStep, hc, Option.some.injEq] at h
      subst h
      exact hloop (by simp [hc, Consumer.Looping]) (by split <;> trivial) rfl
  | clearSpurious | setInWait | readEpoch | setSpurious _ =>
      simp only [consumeStep, hc, Option.some.injEq] at h
      subst h
      exact hloop (by simp [hc, Consumer.Looping]) trivial rfl
  | readInWait k | retireLock k =>
      simp only [consumeStep, hc, Option.some.injEq] at h
      subst h
      refine hloop (by simp [hc, Consumer.Looping]) ?_ rfl
      cases k <;> first | trivial | (split <;> trivial)
  | waitOne =>
      simp only [consumeStep, hc, Option.map_eq_some_iff] at h
      obtain ⟨ec, -, rfl⟩ := h
      exact hloop (by simp [hc, Consumer.Looping]) trivial rfl
  | take =>
      simp only [consumeStep, hc] at h
      split at h
      · cases h
        refine .take _ hc rfl ?_ rfl
        have hs := exchanged_eq hr
        have ht := exchanged_eq hr'
        rw [he, hs, hc] at ht
        simpa [Consumer.inHand] using ht
      · -- the link was seen, so it is there
        rename_i hn
        rw [hc, hn] at hfound
        cases hfound trivial
  | handing item =>
      simp only [consumeStep, hc, Option.some.injEq] at h
      subst h
      refine .hand item hc rfl ?_ rfl
      rw [pending, pending, he, hc]
      simp [Consumer.inHand]
  | waiting =>
      simp only [consumeStep, hc] at h
      split at h
      · cases h
        exact hloop (by simp [hc, Consumer.Looping]) trivial rfl
      · rename_i hpermit
        split at h
        · rename_i hcanceled
          cases h
          refine .leave hc ?_ hcanceled rfl ?_ rfl
          · simpa [EventCount.waitOne] using hpermit
          · rw [pending, pending, he, hc]
            rfl
        · cases h

theorem mem_of_onItem [Inhabited T] (hr : (machine : Machine (Blocking P T X) _).Reachable s)
    {item : T} (hc : s.consumer = .onItem item) : item ∈ s.delivered := by
  revert item
  refine hr.invariant (I := fun s => ∀ {item}, s.consumer = .onItem item → item ∈ s.delivered)
    (fun h => by cases h) ?_
  intro s a t hr hi h item hc
  cases a with
  | produce p =>
      obtain ⟨-, -, -, -, hconsumer, hdelivered, -⟩ := produce_move hr h
      rw [hconsumer] at hc
      rw [hdelivered]
      exact hi hc
  | consume yields =>
      obtain ⟨hmove, -⟩ := consumer_move hr h
      cases hmove with
      | loop _ hloop => rw [hc] at hloop; exact hloop.elim
      | take _ _ ht | leave _ _ _ ht => cases ht.symm.trans hc
      | hand x _ ht _ hdelivered =>
          cases ht.symm.trans hc
          rw [hdelivered]
          exact List.mem_append_right _ (List.mem_singleton_self _)
  | enqueue p x | finish p =>
      simp only [machine, step] at h
      split at h <;> cases h <;> exact hi hc
  | itemReturns | itemThrows x =>
      simp only [machine, step] at h
      split at h <;> cases h
      cases hc
  | completeAdding =>
      cases h
      exact hi hc
  | disposeSource | disposeSemaphore =>
      simp only [machine, step] at h
      split at h <;> cases h
      exact hi hc

theorem pending_append [Inhabited T] (hr : (machine : Machine (Blocking P T X) _).Reachable s)
    {added : List T} (hc : t.consumer = s.consumer) (hd : t.delivered = s.delivered)
    (he : t.exchanged = s.exchanged ++ added) : t.pending = s.pending ++ added := by
  have hlen : s.delivered.length + s.consumer.inHand.toList.length ≤ s.exchanged.length := by
    have hall := congrArg List.length (exchanged_eq hr)
    simp only [List.length_append] at hall
    omega
  rw [pending, hc, hd, he, List.drop_append_of_le_length hlen]
  rfl

end Blocking
end ComposableAsync.Concurrent
