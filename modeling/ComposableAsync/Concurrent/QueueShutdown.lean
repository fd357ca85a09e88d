import Mathlib.Data.List.Induction
import Mathlib.Tactic.Common

/-!
# The three queues at shutdown

`BlockingMpscQueue`, `SpinningMpscQueue` and `StandardMpscQueue` as the fiber uses them,
one operation at a time: `Enqueue`, `CompleteAdding`, and the consumer that asks for the
next element, runs it, and after the end of `OnElements` walks `GetUnsafeQueue`.

Until `CompleteAdding` the three are one queue. Then the blocking queue goes on to hand
over what is pending and looks at its token when it has nothing left, while the others
look at theirs first and leave what is pending to the drain.
-/
namespace ComposableAsync.Concurrent

/-- What `Enqueue` of a queue throws. -/
inductive EnqueueError where
  | operationCanceled | invalidOperation | objectDisposed
  deriving DecidableEq, Repr

/-- What `OnElements` finds when it comes to its next element. It ends by an
`OperationCanceledException`, which `Consume` catches, or by running out. -/
inductive Next (Q T : Type) where
  | item (item : T) (queue : Q)
  | ended
  | blocked

/-- `moveNext` reads the next element of an enumeration of `GetUnsafeQueue`, given what
there was to enumerate at its start and how much of it was read. -/
structure IMpScQueue (Q T : Type) where
  init : Q
  enqueue : T → Q → Except EnqueueError Q
  completeAdding : Q → Q
  next : Q → Next Q T
  getUnsafeQueue : Q → List T
  moveNext : Q → List T → ℕ → Option T
  dispose : Q → Q

variable {Q T : Type}

/-- The values of the nodes behind the tail, and the token. -/
structure NodeQueue (T : Type) where
  items : List T := []
  canceled : Bool := false
  deriving DecidableEq, Repr

/-- The operations the two linked queues share. The enumerator follows the links as it
goes; a disposed source keeps its token. -/
def nodeQueue (next : NodeQueue T → Next (NodeQueue T) T) : IMpScQueue (NodeQueue T) T where
  init := {}
  enqueue item q :=
    if q.canceled then .error .operationCanceled else .ok { q with items := q.items ++ [item] }
  completeAdding q := { q with canceled := true }
  next := next
  getUnsafeQueue := NodeQueue.items
  moveNext q _ k := q.items[k]?
  dispose q := q

/-- `Next` takes an element as long as there is one, and is cancelled in `Wait`. -/
def BlockingMpscQueue.next (q : NodeQueue T) : Next (NodeQueue T) T :=
  match q.items with
  | item :: rest => .item item { q with items := rest }
  | [] => if q.canceled then .ended else .blocked

/-- `SpinUntil` waits for an element or the cancellation, and the token is looked at
before the element is taken. -/
def SpinningMpscQueue.next (q : NodeQueue T) : Next (NodeQueue T) T :=
  if q.canceled then .ended
  else match q.items with
    | item :: rest => .item item { q with items := rest }
    | [] => .blocked

def blockingMpscQueue : IMpScQueue (NodeQueue T) T := nodeQueue BlockingMpscQueue.next

def spinningMpscQueue : IMpScQueue (NodeQueue T) T := nodeQueue SpinningMpscQueue.next

/-- The elements of the collection, whether it is closed, and the token. -/
structure Collection (T : Type) where
  elements : List T := []
  isAddingCompleted : Bool := false
  isDisposed : Bool := false
  canceled : Bool := false
  deriving DecidableEq, Repr

/-- `GetConsumingEnumerable` looks at the token first, and ends when the collection is
closed and empty. An enumeration of the collection is one of a snapshot. -/
def standardMpscQueue : IMpScQueue (Collection T) T where
  init := {}
  enqueue item q :=
    if q.isDisposed then .error .objectDisposed
    else if q.isAddingCompleted then .error .invalidOperation
    else .ok { q with elements := q.elements ++ [item] }
  completeAdding q :=
    { q with canceled := true, isAddingCompleted := q.isAddingCompleted || !q.isDisposed }
  next q :=
    if q.canceled then .ended
    else match q.elements with
      | item :: rest => .item item { q with elements := rest }
      | [] => if q.isAddingCompleted then .ended else .blocked
  getUnsafeQueue := Collection.elements
  moveNext _ snapshot k := snapshot[k]?
  dispose q := { q with isDisposed := true }

/-- Where `Consume` stands: before the next element, in `onItem`, in the drain with what
it enumerates and how much it read, at its end. -/
inductive Stage (T : Type) where
  | onElements
  | onItem (item : T)
  | getUnsafeQueue (snapshot : List T) (read : ℕ)
  | finished
  deriving DecidableEq, Repr

/-- `accepted`, `executed` and `cancelled` are history: the items `Enqueue` took, those
handed to `onItem`, those the drain cancelled. -/
structure QueueRun (Q T : Type) where
  queue : Q
  stage : Stage T := .onElements
  accepted : List T := []
  executed : List T := []
  cancelled : List T := []
  deriving DecidableEq, Repr

inductive QueueAct (T : Type) where
  | enqueue (item : T)
  | completeAdding
  | consume
  deriving DecidableEq, Repr

/-- What the fiber's `Enqueue` answers: the `Task` of the item, a canceled one, or an
exception that it does not catch. -/
inductive Answer where
  | task | canceledTask | raised (error : EnqueueError)
  deriving DecidableEq, Repr

namespace QueueRun
variable (I : IMpScQueue Q T)

def start : QueueRun Q T := { queue := I.init }

/-- The next step of `Consume`; a blocked consumer stays where it is. -/
def consume (s : QueueRun Q T) : QueueRun Q T :=
  match s.stage with
  | .onElements =>
      match I.next s.queue with
      | .item item q =>
          { s with queue := q, stage := .onItem item, executed := s.executed ++ [item] }
      | .ended => { s with stage := .getUnsafeQueue (I.getUnsafeQueue s.queue) 0 }
      | .blocked => s
  | .onItem _ => { s with stage := .onElements }
  | .getUnsafeQueue snapshot k =>
      match I.moveNext s.queue snapshot k with
      | some item =>
          { s with stage := .getUnsafeQueue snapshot (k + 1), cancelled := s.cancelled ++ [item] }
      | none => { s with queue := I.dispose s.queue, stage := .finished }
  | .finished => s

def step (s : QueueRun Q T) : QueueAct T → QueueRun Q T
  | .enqueue item =>
      match I.enqueue item s.queue with
      | .ok q => { s with queue := q, accepted := s.accepted ++ [item] }
      | .error _ => s
  | .completeAdding => { s with queue := I.completeAdding s.queue }
  | .consume => s.consume I

/-- The fiber's `Enqueue` catches an `OperationCanceledException`. -/
def answer (s : QueueRun Q T) (item : T) : Answer :=
  match I.enqueue item s.queue with
  | .ok _ => .task
  | .error .operationCanceled => .canceledTask
  | .error .invalidOperation => .raised .invalidOperation
  | .error .objectDisposed => .raised .objectDisposed

def run (as : List (QueueAct T)) : QueueRun Q T := as.foldl (step I) (start I)

/-- The items taken and not handed over. -/
def pending (s : QueueRun Q T) : List T := s.accepted.drop s.executed.length

theorem run_append (as bs : List (QueueAct T)) :
    run I (as ++ bs) = bs.foldl (step I) (run I as) := List.foldl_append

theorem run_concat (as : List (QueueAct T)) (a : QueueAct T) :
    run I (as ++ [a]) = (run I as).step I a := run_append I as [a]

end QueueRun

/-- Two runs that no caller can tell apart: the same place, and every item accepted,
executed and cancelled alike. -/
structure QueueRun.Alike {Q Q' T : Type} (s : QueueRun Q T) (t : QueueRun Q' T) : Prop where
  stage : t.stage = s.stage
  accepted : t.accepted = s.accepted
  executed : t.executed = s.executed
  cancelled : t.cancelled = s.cancelled

namespace QueueRun

/-- The element taken is the first one, and the loop ends under a cancelled token only. -/
structure TakesFirst (next : NodeQueue T → Next (NodeQueue T) T) : Prop where
  item : ∀ {q q' : NodeQueue T} {item}, next q = .item item q' →
    q.items = item :: q'.items ∧ q'.canceled = q.canceled
  ended : ∀ {q : NodeQueue T}, next q = .ended → q.canceled = true
  blocked : ∀ {q : NodeQueue T}, next q = .blocked → q.canceled = false

theorem blocking_takesFirst : TakesFirst (BlockingMpscQueue.next : NodeQueue T → _) := by
  constructor <;> grind [BlockingMpscQueue.next]

theorem spinning_takesFirst : TakesFirst (SpinningMpscQueue.next : NodeQueue T → _) := by
  constructor <;> grind [SpinningMpscQueue.next]

/-- Every item accepted is executed, cancelled, or in the queue; the drain cancels from
the front of what the queue holds. -/
def Accounted (s : QueueRun (NodeQueue T) T) : Prop :=
  s.accepted = s.executed ++ s.queue.items ∧
    match s.stage with
    | .onElements | .onItem _ => s.cancelled = []
    | .getUnsafeQueue snapshot k => s.queue.canceled = true ∧ snapshot = s.queue.items ∧
        k ≤ s.queue.items.length ∧ s.cancelled = s.queue.items.take k
    | .finished => s.queue.canceled = true ∧ s.cancelled = s.queue.items

section NodeQueue
variable {next : NodeQueue T → Next (NodeQueue T) T} {s t : QueueRun (NodeQueue T) T}

/-- What a step of the consumer does over a linked queue. -/
inductive Consumed (next : NodeQueue T → Next (NodeQueue T) T) (s : QueueRun (NodeQueue T) T) :
    QueueRun (NodeQueue T) T → Prop
  | hand (item q) : s.stage = .onElements → next s.queue = .item item q → Consumed next s
      { s with queue := q, stage := .onItem item, executed := s.executed ++ [item] }
  | leave : s.stage = .onElements → next s.queue = .ended → Consumed next s
      { s with stage := .getUnsafeQueue s.queue.items 0 }
  | wait : s.stage = .onElements → next s.queue = .blocked → Consumed next s s
  | returns (item) : s.stage = .onItem item → Consumed next s { s with stage := .onElements }
  | cancel (snapshot k item) : s.stage = .getUnsafeQueue snapshot k →
      s.queue.items[k]? = some item → Consumed next s
      { s with stage := .getUnsafeQueue snapshot (k + 1), cancelled := s.cancelled ++ [item] }
  | drained (snapshot k) : s.stage = .getUnsafeQueue snapshot k → s.queue.items[k]? = none →
      Consumed next s { s with stage := .finished }
  | rest : s.stage = .finished → Consumed next s s

theorem consumed (next : NodeQueue T → Next (NodeQueue T) T) (s : QueueRun (NodeQueue T) T) :
    Consumed next s (s.consume (nodeQueue next)) := by
  unfold consume
  cases hs : s.stage with
  | onElements =>
      simp only [nodeQueue]
      cases hn : next s.queue with
      | item item q => exact .hand item q hs hn
      | ended => exact .leave hs hn
      | blocked => exact .wait hs hn
  | onItem item => exact .returns item hs
  | getUnsafeQueue snapshot k =>
      simp only [nodeQueue]
      cases hk : s.queue.items[k]? with
      | some item => exact .cancel snapshot k item hs hk
      | none => exact .drained snapshot k hs hk
  | finished => exact .rest hs

/-- Everything a step does over a linked queue. -/
inductive Effect (next : NodeQueue T → Next (NodeQueue T) T) (s : QueueRun (NodeQueue T) T) :
    QueueAct T → QueueRun (NodeQueue T) T → Prop
  | accept (item) : s.queue.canceled = false → Effect next s (.enqueue item)
      { s with
        queue := { s.queue with items := s.queue.items ++ [item] }
        accepted := s.accepted ++ [item] }
  | refuse (item) : s.queue.canceled = true → Effect next s (.enqueue item) s
  | complete : Effect next s .completeAdding { s with queue := { s.queue with canceled := true } }
  | consume (u) : Consumed next s u → Effect next s .consume u

theorem step_effect (next : NodeQueue T → Next (NodeQueue T) T) (s : QueueRun (NodeQueue T) T)
    (a : QueueAct T) : Effect next s a (s.step (nodeQueue next) a) := by
  cases a with
  | enqueue item =>
      cases hc : s.queue.canceled with
      | true =>
          have hsame : s.step (nodeQueue next) (.enqueue item) = s := by
            simp [step, nodeQueue, hc]
          rw [hsame]
          exact .refuse item hc
      | false =>
          have hopen : s.step (nodeQueue next) (.enqueue item) = { s with
              queue := { s.queue with items := s.queue.items ++ [item] }
              accepted := s.accepted ++ [item] } := by
            simp [step, nodeQueue, hc]
          rw [hopen]
          exact .accept item hc
  | completeAdding => exact .complete
  | consume => exact .consume _ (consumed next s)

theorem Accounted.consumed (hnext : TakesFirst next) (hi : s.Accounted)
    (h : Consumed next s t) : t.Accounted := by
  obtain ⟨hall, hstage⟩ := hi
  cases h with
  | hand item q hs hn =>
      obtain ⟨hitems, -⟩ := hnext.item hn
      rw [hs] at hstage
      refine ⟨?_, hstage⟩
      rw [hall, hitems, List.append_assoc]
      rfl
  | leave hs hn =>
      rw [hs] at hstage
      refine ⟨hall, hnext.ended hn, rfl, Nat.zero_le _, ?_⟩
      rw [List.take_zero]
      exact hstage
  | wait hs hn => exact ⟨hall, hstage⟩
  | returns item hs =>
      rw [hs] at hstage
      exact ⟨hall, hstage⟩
  | cancel snapshot k item hs hk =>
      rw [hs] at hstage
      obtain ⟨hcanceled, hsnapshot, -, hcancelled⟩ := hstage
      obtain ⟨hlt, rfl⟩ := List.getElem?_eq_some_iff.mp hk
      refine ⟨hall, hcanceled, hsnapshot, hlt, ?_⟩
      rw [hcancelled, List.take_append_getElem]
  | drained snapshot k hs hk =>
      rw [hs] at hstage
      obtain ⟨hcanceled, -, hle, hcancelled⟩ := hstage
      refine ⟨hall, hcanceled, ?_⟩
      rw [hcancelled]
      exact List.take_of_length_le (List.getElem?_eq_none_iff.mp hk)
  | rest hs => exact ⟨hall, hstage⟩

theorem Accounted.step (hnext : TakesFirst next) (hi : s.Accounted) {a : QueueAct T}
    (h : Effect next s a t) : t.Accounted := by
  cases h with
  | consume t h => exact hi.consumed hnext h
  | refuse item hc => exact hi
  | complete =>
      obtain ⟨hall, hstage⟩ := hi
      refine ⟨hall, ?_⟩
      cases hs : s.stage with
      | onElements | onItem item =>
          rw [hs] at hstage
          exact hstage
      | getUnsafeQueue snapshot k | finished =>
          rw [hs] at hstage
          exact ⟨rfl, hstage.2⟩
  | accept item hc =>
      obtain ⟨hall, hstage⟩ := hi
      refine ⟨?_, ?_⟩
      · simp only [hall, List.append_assoc]
      · -- the drain has not begun
        cases hs : s.stage with
        | onElements | onItem item =>
            rw [hs] at hstage
            exact hstage
        | getUnsafeQueue snapshot k | finished =>
            rw [hs] at hstage
            cases hc.symm.trans hstage.1

theorem accounted_run (hnext : TakesFirst next) (as : List (QueueAct T)) :
    (run (nodeQueue next) as).Accounted := by
  induction as using List.reverseRecOn with
  | nil => exact ⟨rfl, rfl⟩
  | append_singleton as a ih =>
      rw [run_concat]
      exact ih.step hnext (step_effect next _ a)

theorem Consumed.canceled (h : Consumed next s t) (hnext : TakesFirst next) :
    t.queue.canceled = s.queue.canceled ∧ t.accepted = s.accepted := by
  cases h with
  | hand item q hs hn => exact ⟨(hnext.item hn).2, rfl⟩
  | leave | wait | returns | cancel | drained | rest => exact ⟨rfl, rfl⟩

theorem Effect.canceled {a : QueueAct T} (h : Effect next s a t) (hnext : TakesFirst next)
    (hc : s.queue.canceled = true) : t.queue.canceled = true ∧ t.accepted = s.accepted := by
  cases h with
  | accept item hopen => cases hc.symm.trans hopen
  | refuse item => exact ⟨hc, rfl⟩
  | complete => exact ⟨rfl, rfl⟩
  | consume t h =>
      obtain ⟨hcanceled, haccepted⟩ := h.canceled hnext
      exact ⟨hcanceled.trans hc, haccepted⟩

/-- A bound on the steps left under a cancelled token. -/
def rank (s : QueueRun (NodeQueue T) T) : ℕ :=
  match s.stage with
  | .onElements => 3 * s.queue.items.length + 2
  | .onItem _ => 3 * s.queue.items.length + 3
  | .getUnsafeQueue _ k => s.queue.items.length - k + 1
  | .finished => 0

theorem Consumed.rank_lt (h : Consumed next s t) (hnext : TakesFirst next)
    (hc : s.queue.canceled = true) (hs : s.stage ≠ .finished) : t.rank < s.rank := by
  cases h with
  | hand item q hs hn =>
      obtain ⟨hitems, -⟩ := hnext.item hn
      simp only [rank, hs, hitems, List.length_cons]
      omega
  | leave hs hn =>
      simp only [rank, hs]
      omega
  | wait _ hn => cases hc.symm.trans (hnext.blocked hn)
  | returns item hs =>
      simp only [rank, hs]
      omega
  | cancel snapshot k item hs hk =>
      obtain ⟨hlt, -⟩ := List.getElem?_eq_some_iff.mp hk
      simp only [rank, hs]
      omega
  | drained snapshot k hs hk =>
      simp only [rank, hs]
      omega
  | rest hfinished => exact (hs hfinished).elim

theorem finishes (hnext : TakesFirst next) (hc : s.queue.canceled = true) :
    ∃ n, ((List.replicate n .consume).foldl (step (nodeQueue next)) s).stage = .finished := by
  induction hrank : s.rank using Nat.strongRecOn generalizing s with
  | ind k ih =>
      subst hrank
      by_cases hs : s.stage = .finished
      · exact ⟨0, hs⟩
      · have hstep := consumed next s
        have hc' := (hstep.canceled hnext).1.trans hc
        obtain ⟨n, hn⟩ := ih _ (hstep.rank_lt hnext hc hs) hc' rfl
        exact ⟨n + 1, hn⟩

end NodeQueue

section Drain
variable {s t : QueueRun (NodeQueue T) T}

/-- The consumer has left `OnElements`. -/
def Left (s : QueueRun (NodeQueue T) T) : Prop :=
  s.stage = .finished ∨ ∃ snapshot k, s.stage = .getUnsafeQueue snapshot k

theorem Accounted.canceled (hi : s.Accounted) (hs : s.Left) : s.queue.canceled = true := by
  obtain ⟨-, hstage⟩ := hi
  obtain hs | ⟨snapshot, k, hs⟩ := hs
  · rw [hs] at hstage
    exact hstage.1
  · rw [hs] at hstage
    exact hstage.1

theorem Effect.left_empty {a : QueueAct T} (h : Effect BlockingMpscQueue.next s a t)
    (hi : s.Accounted) (hempty : s.Left → s.queue.items = []) (ht : t.Left) :
    t.queue.items = [] := by
  cases h with
  | accept item hopen => cases hopen.symm.trans (hi.canceled ht)
  | refuse item | complete => exact hempty ht
  | consume t h =>
      cases h with
      | hand item q hs hn => simp [Left] at ht
      | leave hs hn =>
          unfold BlockingMpscQueue.next at hn
          split at hn
          · cases hn
          · assumption
      | wait hs hn | rest hs => exact hempty ht
      | returns item hs => simp [Left] at ht
      | cancel snapshot k item hs hk | drained snapshot k hs hk =>
          exact hempty (.inr ⟨snapshot, k, hs⟩)

theorem blocking_left_empty (as : List (QueueAct T)) (hs : (run blockingMpscQueue as).Left) :
    (run blockingMpscQueue as).queue.items = [] := by
  induction as using List.reverseRecOn with
  | nil => rfl
  | append_singleton as a ih =>
      rw [run_concat] at hs ⊢
      exact (step_effect BlockingMpscQueue.next _ a).left_empty
        (accounted_run blocking_takesFirst as) ih hs

theorem Effect.spinning_canceled {a : QueueAct T} (h : Effect SpinningMpscQueue.next s a t)
    (hc : s.queue.canceled = true) :
    t.queue.items = s.queue.items ∧ t.executed = s.executed := by
  cases h with
  | accept item hopen => cases hc.symm.trans hopen
  | refuse item | complete => exact ⟨rfl, rfl⟩
  | consume t h =>
      cases h with
      | hand item q hs hn => simp [SpinningMpscQueue.next, hc] at hn
      | leave | wait | returns | cancel | drained | rest => exact ⟨rfl, rfl⟩

end Drain

theorem next_eq {q : NodeQueue T} (hc : q.canceled = false) :
    BlockingMpscQueue.next q = SpinningMpscQueue.next q := by
  unfold BlockingMpscQueue.next SpinningMpscQueue.next
  rw [hc]
  rfl

theorem consume_eq {s : QueueRun (NodeQueue T) T} (hc : s.queue.canceled = false) :
    s.consume blockingMpscQueue = s.consume spinningMpscQueue := by
  unfold consume
  cases hs : s.stage with
  | onElements => simp only [blockingMpscQueue, spinningMpscQueue, nodeQueue, next_eq hc]
  | onItem item | getUnsafeQueue snapshot k | finished => rfl

theorem run_front {front : List (QueueAct T)} (hfront : .completeAdding ∉ front) :
    run blockingMpscQueue front = run spinningMpscQueue front ∧
      (run spinningMpscQueue front).queue.canceled = false := by
  induction front using List.reverseRecOn with
  | nil => exact ⟨rfl, rfl⟩
  | append_singleton as a ih =>
      rw [List.mem_append, not_or] at hfront
      obtain ⟨heq, hopen⟩ := ih hfront.1
      rw [run_concat, run_concat, heq]
      have hstep := step_effect SpinningMpscQueue.next (run spinningMpscQueue as) a
      cases a with
      | enqueue item =>
          refine ⟨rfl, ?_⟩
          change (step (nodeQueue SpinningMpscQueue.next) _ _).queue.canceled = false
          generalize step (nodeQueue SpinningMpscQueue.next) _ _ = t at hstep ⊢
          cases hstep with
          | accept | refuse => exact hopen
      | completeAdding => exact (hfront.2 (List.mem_singleton_self _)).elim
      | consume =>
          refine ⟨consume_eq hopen, ?_⟩
          have hmove := consumed SpinningMpscQueue.next (run spinningMpscQueue as)
          exact (hmove.canceled spinning_takesFirst).1.trans hopen

/-- The collection holds what the linked queue holds, and is closed when the token is
cancelled. -/
structure Matches (s : QueueRun (NodeQueue T) T) (t : QueueRun (Collection T) T) : Prop
    extends s.Alike t where
  elements : t.queue.elements = s.queue.items
  canceled : t.queue.canceled = s.queue.canceled
  completed : t.queue.isAddingCompleted = s.queue.canceled
  disposed : t.queue.isDisposed = true → s.queue.canceled = true

theorem Matches.consume {s : QueueRun (NodeQueue T) T} {t : QueueRun (Collection T) T}
    (h : s.Matches t) (hi : s.Accounted) :
    (s.consume spinningMpscQueue).Matches (t.consume standardMpscQueue) := by
  obtain ⟨⟨hstage, haccepted, hexecuted, hcancelled⟩, helements, hcanceled, hcompleted,
    hdisposed⟩ := h
  obtain ⟨-, hi⟩ := hi
  unfold QueueRun.consume
  rw [hstage]
  cases hs : s.stage with
  | onElements =>
      simp only [spinningMpscQueue, standardMpscQueue, nodeQueue, SpinningMpscQueue.next,
        hcanceled, helements, hcompleted]
      cases hc : s.queue.canceled with
      | true =>
          simp only [if_true]
          exact ⟨⟨rfl, haccepted, hexecuted, hcancelled⟩, helements, hcanceled, hcompleted,
            hdisposed⟩
      | false =>
          simp only [Bool.false_eq_true, if_false]
          cases hitems : s.queue.items with
          | nil =>
              exact ⟨⟨hstage, haccepted, hexecuted, hcancelled⟩, helements, hcanceled, hcompleted,
                hdisposed⟩
          | cons item rest =>
              refine ⟨⟨rfl, haccepted, ?_, hcancelled⟩, rfl, rfl, rfl, fun hd => ?_⟩
              · exact congrArg (· ++ [item]) hexecuted
              · cases hc.symm.trans (hdisposed hd)
  | onItem item =>
      exact ⟨⟨rfl, haccepted, hexecuted, hcancelled⟩, helements, hcanceled, hcompleted, hdisposed⟩
  | getUnsafeQueue snapshot k =>
      -- nothing was added since the snapshot
      rw [hs] at hi
      obtain ⟨hc, rfl, -⟩ := hi
      simp only [spinningMpscQueue, standardMpscQueue, nodeQueue]
      cases hk : s.queue.items[k]? with
      | some item =>
          refine ⟨⟨rfl, haccepted, hexecuted, ?_⟩, helements, hcanceled, hcompleted, hdisposed⟩
          exact congrArg (· ++ [item]) hcancelled
      | none =>
          exact ⟨⟨rfl, haccepted, hexecuted, hcancelled⟩, helements, hcanceled, hcompleted,
            fun _ => hc⟩
  | finished =>
      exact ⟨⟨hstage, haccepted, hexecuted, hcancelled⟩, helements, hcanceled, hcompleted, hdisposed⟩

theorem Matches.step {s : QueueRun (NodeQueue T) T} {t : QueueRun (Collection T) T}
    (h : s.Matches t) (hi : s.Accounted) (a : QueueAct T) :
    (s.step spinningMpscQueue a).Matches (t.step standardMpscQueue a) := by
  cases a with
  | consume => exact h.consume hi
  | completeAdding =>
      obtain ⟨⟨hstage, haccepted, hexecuted, hcancelled⟩, helements, -, hcompleted,
        hdisposed⟩ := h
      refine ⟨⟨hstage, haccepted, hexecuted, hcancelled⟩, helements, rfl, ?_, fun _ => rfl⟩
      simp only [QueueRun.step, standardMpscQueue, spinningMpscQueue, nodeQueue, hcompleted]
      cases hd : t.queue.isDisposed with
      | true => rw [hdisposed hd]; rfl
      | false => cases s.queue.canceled <;> rfl
  | enqueue item =>
      obtain ⟨⟨hstage, haccepted, hexecuted, hcancelled⟩, helements, hcanceled, hcompleted,
        hdisposed⟩ := h
      simp only [QueueRun.step, spinningMpscQueue, standardMpscQueue, nodeQueue, hcompleted]
      cases hc : s.queue.canceled with
      | true =>
          -- both refuse
          cases t.queue.isDisposed <;>
            exact ⟨⟨hstage, haccepted, hexecuted, hcancelled⟩, helements, hcanceled, hcompleted,
              hdisposed⟩
      | false =>
          have hopen : t.queue.isDisposed = false := by
            rw [Bool.eq_false_iff]
            intro hd
            cases hc.symm.trans (hdisposed hd)
          simp only [hopen, Bool.false_eq_true, if_false]
          refine ⟨⟨hstage, ?_, hexecuted, hcancelled⟩, ?_, hcanceled.trans hc, rfl, fun hd => ?_⟩
          · exact congrArg (· ++ [item]) haccepted
          · exact congrArg (· ++ [item]) helements
          · cases hd

theorem matches_run (as : List (QueueAct T)) :
    (run spinningMpscQueue as).Matches (run standardMpscQueue as) := by
  induction as using List.reverseRecOn with
  | nil => exact ⟨⟨rfl, rfl, rfl, rfl⟩, rfl, rfl, rfl, fun h => by cases h⟩
  | append_singleton as a ih =>
      rw [run_concat, run_concat]
      exact ih.step (accounted_run spinning_takesFirst as) a

section After
variable {next : NodeQueue T → Next (NodeQueue T) T} (front back : List (QueueAct T))

theorem run_after (I : IMpScQueue Q T) (a : QueueAct T) :
    run I (front ++ .completeAdding :: (back ++ [a])) =
      (run I (front ++ .completeAdding :: back)).step I a := by
  rw [← run_concat, List.append_assoc]
  rfl

theorem after_canceled (hnext : TakesFirst next) :
    (run (nodeQueue next) (front ++ .completeAdding :: back)).queue.canceled = true ∧
      (run (nodeQueue next) (front ++ .completeAdding :: back)).accepted =
        (run (nodeQueue next) front).accepted := by
  induction back using List.reverseRecOn with
  | nil =>
      rw [run_concat]
      exact ⟨rfl, rfl⟩
  | append_singleton back a ih =>
      obtain ⟨hc, haccepted⟩ := ih
      rw [run_after]
      obtain ⟨hc', haccepted'⟩ := (step_effect next _ a).canceled hnext hc
      exact ⟨hc', haccepted'.trans haccepted⟩

theorem after_spinning :
    (run spinningMpscQueue (front ++ .completeAdding :: back)).queue.items =
        (run spinningMpscQueue front).queue.items ∧
      (run spinningMpscQueue (front ++ .completeAdding :: back)).executed =
        (run spinningMpscQueue front).executed := by
  induction back using List.reverseRecOn with
  | nil =>
      rw [run_concat]
      exact ⟨rfl, rfl⟩
  | append_singleton back a ih =>
      obtain ⟨hitems, hexecuted⟩ := ih
      have hc := (after_canceled front back spinning_takesFirst).1
      rw [run_after]
      obtain ⟨hitems', hexecuted'⟩ :=
        (step_effect SpinningMpscQueue.next _ a).spinning_canceled hc
      exact ⟨hitems'.trans hitems, hexecuted'.trans hexecuted⟩

theorem after_finishes (hnext : TakesFirst next) : ∃ n,
    (run (nodeQueue next) (front ++ .completeAdding :: List.replicate n .consume)).stage =
      .finished := by
  have hc := (after_canceled front [] hnext).1
  obtain ⟨n, hn⟩ := finishes hnext hc
  refine ⟨n, ?_⟩
  rw [← run_append, List.append_assoc] at hn
  exact hn

theorem Accounted.pending {s : QueueRun (NodeQueue T) T} (hi : s.Accounted) :
    s.pending = s.queue.items := by
  rw [QueueRun.pending, hi.1]
  exact List.drop_left

theorem Accounted.finished {s : QueueRun (NodeQueue T) T} (hi : s.Accounted)
    (hs : s.stage = .finished) :
    s.accepted = s.executed ++ s.cancelled ∧ s.cancelled = s.queue.items := by
  obtain ⟨hall, hstage⟩ := hi
  rw [hs] at hstage
  refine ⟨?_, hstage.2⟩
  rw [hstage.2]
  exact hall

/-- The blocking queue executes everything it accepted. -/
theorem blocking_finished
    (hs : (run blockingMpscQueue (front ++ .completeAdding :: back)).stage = .finished) :
    (run blockingMpscQueue (front ++ .completeAdding :: back)).executed =
        (run blockingMpscQueue front).accepted ∧
      (run blockingMpscQueue (front ++ .completeAdding :: back)).cancelled = [] := by
  have hi : (run blockingMpscQueue (front ++ .completeAdding :: back)).Accounted :=
    accounted_run blocking_takesFirst _
  have haccepted : (run blockingMpscQueue (front ++ .completeAdding :: back)).accepted =
      (run blockingMpscQueue front).accepted := (after_canceled front back blocking_takesFirst).2
  obtain ⟨hall, hcancelled⟩ := hi.finished hs
  rw [blocking_left_empty _ (.inl hs)] at hcancelled
  refine ⟨?_, hcancelled⟩
  rw [← haccepted, hall, hcancelled, List.append_nil]

/-- The spinning queue executes what it had handed over, and cancels the rest. -/
theorem spinning_finished
    (hs : (run spinningMpscQueue (front ++ .completeAdding :: back)).stage = .finished) :
    (run spinningMpscQueue (front ++ .completeAdding :: back)).executed =
        (run spinningMpscQueue front).executed ∧
      (run spinningMpscQueue (front ++ .completeAdding :: back)).cancelled =
        (run spinningMpscQueue front).pending := by
  have hi := accounted_run spinning_takesFirst (front ++ .completeAdding :: back)
  have hfront := accounted_run spinning_takesFirst front
  obtain ⟨hitems, hexecuted⟩ := after_spinning front back
  exact ⟨hexecuted, ((hi.finished hs).2.trans hitems).trans hfront.pending.symm⟩

end After

theorem answer_nodeQueue {next : NodeQueue T → Next (NodeQueue T) T}
    (s : QueueRun (NodeQueue T) T) (item : T) : s.answer (nodeQueue next) item =
      if s.queue.canceled then .canceledTask else .task := by
  simp only [answer, nodeQueue]
  cases s.queue.canceled <;> rfl

theorem Matches.answer {s : QueueRun (NodeQueue T) T} {t : QueueRun (Collection T) T}
    (h : s.Matches t) (item : T) :
    t.answer standardMpscQueue item = .task ↔ s.queue.canceled = false := by
  simp only [QueueRun.answer, standardMpscQueue, h.completed]
  cases hc : s.queue.canceled with
  | true => cases t.queue.isDisposed <;> simp
  | false =>
      have hopen : t.queue.isDisposed = false := by
        rw [Bool.eq_false_iff]
        intro hd
        cases hc.symm.trans (h.disposed hd)
      simp [hopen]

/-- The three queues after `front` when nobody has called `CompleteAdding`: one state of
the linked queues, the collection alike, and every item taken. -/
structure AlikeUntil (front : List (QueueAct T)) : Prop where
  linked : run blockingMpscQueue front = run spinningMpscQueue front
  standard : (run spinningMpscQueue front).Alike (run standardMpscQueue front)
  answer : ∀ item, (run blockingMpscQueue front).answer blockingMpscQueue item = .task ∧
    (run spinningMpscQueue front).answer spinningMpscQueue item = .task ∧
    (run standardMpscQueue front).answer standardMpscQueue item = .task

/-- The three queues when `CompleteAdding` was called after `front`. The collection stays
alike to the spinning queue. The blocking queue executes all it accepted; the spinning
queue executes what was handed over before and cancels what was pending. -/
structure AtShutdown (front back : List (QueueAct T)) : Prop where
  standard : (run spinningMpscQueue (front ++ .completeAdding :: back)).Alike
    (run standardMpscQueue (front ++ .completeAdding :: back))
  answer : ∀ item,
    (run blockingMpscQueue (front ++ .completeAdding :: back)).answer blockingMpscQueue item =
        .canceledTask ∧
      (run spinningMpscQueue (front ++ .completeAdding :: back)).answer spinningMpscQueue item =
        .canceledTask ∧
      (run standardMpscQueue (front ++ .completeAdding :: back)).answer standardMpscQueue item ≠
        .task
  blocking : (run blockingMpscQueue (front ++ .completeAdding :: back)).stage = .finished →
    (run blockingMpscQueue (front ++ .completeAdding :: back)).executed =
        (run blockingMpscQueue front).accepted ∧
      (run blockingMpscQueue (front ++ .completeAdding :: back)).cancelled = []
  spinning : (run spinningMpscQueue (front ++ .completeAdding :: back)).stage = .finished →
    (run spinningMpscQueue (front ++ .completeAdding :: back)).executed =
        (run spinningMpscQueue front).executed ∧
      (run spinningMpscQueue (front ++ .completeAdding :: back)).cancelled =
        (run spinningMpscQueue front).pending

/-- The consumer comes to its end by its own steps. -/
def Finishes (I : IMpScQueue Q T) (front : List (QueueAct T)) : Prop :=
  ∃ n, (run I (front ++ .completeAdding :: List.replicate n .consume)).stage = .finished

theorem alikeUntil {front : List (QueueAct T)} (hfront : .completeAdding ∉ front) :
    AlikeUntil front := by
  obtain ⟨heq, hopen⟩ := run_front hfront
  refine ⟨heq, (matches_run front).toAlike, fun item => ⟨?_, ?_, ?_⟩⟩
  · rw [heq, blockingMpscQueue, answer_nodeQueue, hopen]
    rfl
  · rw [spinningMpscQueue, answer_nodeQueue]
    rw [spinningMpscQueue] at hopen
    rw [hopen]
    rfl
  · exact ((matches_run front).answer item).mpr hopen

theorem atShutdown (front back : List (QueueAct T)) : AtShutdown front back := by
  have hblocking := (after_canceled front back blocking_takesFirst).1
  have hspinning := (after_canceled front back spinning_takesFirst).1
  refine ⟨(matches_run _).toAlike, fun item => ⟨?_, ?_, fun htask => ?_⟩,
    blocking_finished front back, spinning_finished front back⟩
  · rw [blockingMpscQueue, answer_nodeQueue, hblocking]
    rfl
  · rw [spinningMpscQueue, answer_nodeQueue, hspinning]
    rfl
  · have hopen := ((matches_run (front ++ .completeAdding :: back)).answer item).mp htask
    cases hspinning.symm.trans hopen

theorem AtShutdown.alike {front back : List (QueueAct T)} (h : AtShutdown front back)
    (hfront : AlikeUntil front) (hpending : (run spinningMpscQueue front).pending = [])
    (hb : (run blockingMpscQueue (front ++ .completeAdding :: back)).stage = .finished)
    (hs : (run spinningMpscQueue (front ++ .completeAdding :: back)).stage = .finished) :
    (run blockingMpscQueue (front ++ .completeAdding :: back)).Alike
      (run spinningMpscQueue (front ++ .completeAdding :: back)) := by
  obtain ⟨hexecuted, hcancelled⟩ := h.blocking hb
  obtain ⟨hexecuted', hcancelled'⟩ := h.spinning hs
  have hall : (run spinningMpscQueue front).accepted = (run spinningMpscQueue front).executed := by
    have hfront : (run spinningMpscQueue front).Accounted := accounted_run spinning_takesFirst front
    rw [hfront.pending] at hpending
    rw [hfront.1, hpending, List.append_nil]
  refine ⟨hs.trans hb.symm, ?_, ?_, ?_⟩
  · have haccepted := (after_canceled front back blocking_takesFirst).2
    have haccepted' := (after_canceled front back spinning_takesFirst).2
    exact haccepted'.trans ((congrArg accepted hfront.linked).symm.trans haccepted.symm)
  · rw [hexecuted, hexecuted', hfront.linked, hall]
  · rw [hcancelled, hcancelled', hpending]

/-- The queues at shutdown, `CompleteAdding` being called for the first time after
`front`. -/
theorem queues_at_shutdown {front : List (QueueAct T)} (hfront : .completeAdding ∉ front)
    (back : List (QueueAct T)) :
    AlikeUntil front ∧ AtShutdown front back ∧
      (Finishes blockingMpscQueue front ∧ Finishes spinningMpscQueue front ∧
        Finishes standardMpscQueue front) ∧
      ((run spinningMpscQueue front).pending = [] →
        (run blockingMpscQueue (front ++ .completeAdding :: back)).stage = .finished →
        (run spinningMpscQueue (front ++ .completeAdding :: back)).stage = .finished →
        (run blockingMpscQueue (front ++ .completeAdding :: back)).Alike
          (run spinningMpscQueue (front ++ .completeAdding :: back))) := by
  have hshutdown := atShutdown front back
  have hfinishes : Finishes spinningMpscQueue front := after_finishes front spinning_takesFirst
  refine ⟨alikeUntil hfront, hshutdown, ⟨after_finishes front blocking_takesFirst, hfinishes, ?_⟩,
    hshutdown.alike (alikeUntil hfront)⟩
  obtain ⟨n, hn⟩ := hfinishes
  exact ⟨n, (matches_run _).stage.trans hn⟩

/-- One item is executed and one pending when `CompleteAdding` is called. -/
theorem queues_at_shutdown_pending :
    (run spinningMpscQueue [.enqueue 1, .enqueue 2, .consume]).pending = [2] ∧
      AtShutdown [.enqueue 1, .enqueue 2, .consume] [.enqueue 3, .consume] :=
  ⟨rfl, (queues_at_shutdown (by simp) [.enqueue 3, .consume]).2.1⟩

/-- An item is pending when `CompleteAdding` is called: the blocking queue executes it,
the others cancel it. -/
theorem queues_differ :
    ¬ ∀ as : List (QueueAct ℕ), (run blockingMpscQueue as).stage = .finished →
      (run spinningMpscQueue as).stage = .finished → (run standardMpscQueue as).stage = .finished →
      (run blockingMpscQueue as).Alike (run spinningMpscQueue as) ∧
        (run spinningMpscQueue as).Alike (run standardMpscQueue as) := by
  intro h
  have halike := (h [.enqueue 1, .completeAdding, .consume, .consume, .consume, .consume]
    (by decide) (by decide) (by decide)).1
  have hexecuted := halike.executed
  revert hexecuted
  decide

end QueueRun
end ComposableAsync.Concurrent
