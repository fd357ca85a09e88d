import ComposableAsync.Core.ComposableAsyncDisposable
import Mathlib.Data.List.Nodup
import Mathlib.Data.List.Range
import Mathlib.Tactic.Common

/-!
# The proxy factory and what it disposes

A factory queues its manager, and at every `Build` and `BuildAsync` the dispatcher
it got if the manager says so. Its `DisposeAsync` calls the members of the queue in
order. An object that is no `IAsyncDisposable` is passed over; a `DisposeAsync` that
throws before it has returned a task ends the whole call.

Disposing a composition calls its two parts, first to last, and both the
composition and its parts are dispatchers: the objects of a tree in this order are
what one call of its `DisposeAsync` goes through.
-/
namespace ComposableAsync.Factory
open Foundations

/-- The objects that received the call, in order, and whether one of them threw. -/
structure Disposal where
  received : List ℕ := []
  threw : Bool := false
  deriving DecidableEq, Repr

def Disposal.andThen (a b : Disposal) : Disposal :=
  if a.threw then a else { received := a.received ++ b.received, threw := b.threw }

/-- What an object does when it is disposed. -/
inductive AsyncDisposable where
  | notDisposable | returnsTask | throws
  deriving DecidableEq, Repr

inductive Dispatcher where
  | leaf (object : ℕ) (kind : AsyncDisposable)
  | composed (object : ℕ) (first second : Dispatcher)
  deriving DecidableEq, Repr

namespace Dispatcher

/-- `(dispatcher as IAsyncDisposable)?.DisposeAsync()`. -/
def disposeAsync : Dispatcher → Disposal
  | .leaf _ .notDisposable => {}
  | .leaf object .returnsTask => { received := [object] }
  | .leaf object .throws => { received := [object], threw := true }
  | .composed object first second =>
      Disposal.andThen { received := [object] } (first.disposeAsync.andThen second.disposeAsync)

/-- `dispatcher is IAsyncDisposable`. -/
def isDisposable : Dispatcher → Bool
  | .leaf _ .notDisposable => false
  | _ => true

/-- The disposable objects in the order of the calls, each with whether it throws. -/
def nodes : Dispatcher → List (ℕ × Bool)
  | .leaf _ .notDisposable => []
  | .leaf object .returnsTask => [(object, false)]
  | .leaf object .throws => [(object, true)]
  | .composed object first second => (object, false) :: (first.nodes ++ second.nodes)

def objects (d : Dispatcher) : List ℕ := d.nodes.map Prod.fst

end Dispatcher

/-- The managers whose factory may own a dispatcher. The parts of a composition are
distinct. -/
inductive DispatcherManager where
  | monoDispatcherManager (dispatcher : Dispatcher) (distinct : dispatcher.objects.Nodup)
      (shouldDispose : Bool)
  | standardFiberManager
  | theadPoolFiberManager
  | taskPoolFiberManager
  | sharedThreadFiberManager (fiber : ℕ)

namespace DispatcherManager

def disposeDispatcher : DispatcherManager → Bool
  | .monoDispatcherManager _ _ shouldDispose => shouldDispose
  | .standardFiberManager | .theadPoolFiberManager | .taskPoolFiberManager => true
  | .sharedThreadFiberManager _ => false

/-- A new fiber is the object `next`. `DisposeAsync` of a fiber returns a task. -/
def getDispatcher (next : ℕ) : DispatcherManager → Dispatcher × ℕ
  | .monoDispatcherManager dispatcher _ _ => (dispatcher, next)
  | .standardFiberManager | .theadPoolFiberManager | .taskPoolFiberManager =>
      (.leaf next .returnsTask, next + 1)
  | .sharedThreadFiberManager fiber => (.leaf fiber .returnsTask, next)

def disposeAsync : DispatcherManager → Disposal
  | .monoDispatcherManager dispatcher _ shouldDispose =>
      if shouldDispose && dispatcher.isDisposable then dispatcher.disposeAsync else {}
  | .standardFiberManager | .theadPoolFiberManager | .taskPoolFiberManager => {}
  | .sharedThreadFiberManager fiber => (Dispatcher.leaf fiber .returnsTask).disposeAsync

end DispatcherManager

inductive Disposable where
  | manager (m : DispatcherManager)
  | dispatcher (d : Dispatcher)

def Disposable.disposeAsync : Disposable → Disposal
  | .manager m => m.disposeAsync
  | .dispatcher d => d.disposeAsync

/-- `disposables` is the queue of `ComposableAsyncDisposable`. -/
structure ProxyFactory where
  manager : DispatcherManager
  disposables : List Disposable
  next : ℕ := 0

namespace ProxyFactory

/-- The constructor adds the manager. -/
def new (manager : DispatcherManager) : ProxyFactory :=
  { manager, disposables := [.manager manager] }

/-- `GetDispatcher`; `Add` ignores `null`. -/
def getDispatcher (f : ProxyFactory) : ProxyFactory :=
  let got := f.manager.getDispatcher f.next
  if f.manager.disposeDispatcher && got.1.isDisposable then
    { f with disposables := f.disposables ++ [.dispatcher got.1], next := got.2 }
  else { f with next := got.2 }

inductive Call where
  | build | buildAsync
  deriving DecidableEq, Repr

/-- Both get a dispatcher first; nothing later touches the queue. -/
def call (f : ProxyFactory) : Call → ProxyFactory
  | .build | .buildAsync => f.getDispatcher

def run (f : ProxyFactory) (calls : List Call) : ProxyFactory := calls.foldl call f

/-- `_Disposables.ToArray().Select(disposable => disposable.DisposeAsync()).ToArray()`. -/
def disposeAsync (f : ProxyFactory) : Disposal :=
  f.disposables.foldl (fun done disposable => done.andThen disposable.disposeAsync) {}

/-- The dispatchers the factory is responsible for. -/
def responsible (f : ProxyFactory) : List ℕ :=
  match f.manager with
  | .monoDispatcherManager dispatcher _ shouldDispose =>
      if shouldDispose then dispatcher.objects else []
  | .sharedThreadFiberManager fiber => [fiber]
  | .standardFiberManager | .theadPoolFiberManager | .taskPoolFiberManager => List.range f.next

/-- One call of `DisposeAsync` reaches each of these once and nothing else. -/
def DisposesOnce (f : ProxyFactory) : Prop :=
  ∀ object, f.disposeAsync.received.count object = if object ∈ f.responsible then 1 else 0

end ProxyFactory

/-- Over a managed dispatcher: nothing but the last object may throw, and once a
proxy was built the last one must. -/
def OnceWhen (built : ℕ) : DispatcherManager → Prop
  | .monoDispatcherManager dispatcher _ true =>
      (∀ x ∈ dispatcher.nodes.dropLast, x.2 = false) ∧
        (built = 0 ∨ ∀ x ∈ dispatcher.nodes.getLast?, x.2 = true)
  | _ => True

theorem andThen_assoc (a b c : Disposal) : (a.andThen b).andThen c = a.andThen (b.andThen c) := by
  obtain ⟨received, threw⟩ := a
  obtain ⟨received', threw'⟩ := b
  cases threw with
  | true => rfl
  | false =>
      cases threw' with
      | true => rfl
      | false => simp only [Disposal.andThen, Bool.false_eq_true, if_false, List.append_assoc]

/-- The calls on a list of objects, in order. -/
def callAll : List (ℕ × Bool) → Disposal
  | [] => {}
  | (object, throws) :: rest =>
      Disposal.andThen { received := [object], threw := throws } (callAll rest)

theorem callAll_append (xs ys : List (ℕ × Bool)) :
    callAll (xs ++ ys) = (callAll xs).andThen (callAll ys) := by
  induction xs with
  | nil => rfl
  | cons x xs ih =>
      simp only [List.cons_append, callAll]
      rw [ih, andThen_assoc]

theorem disposeAsync_eq_callAll (d : Dispatcher) : d.disposeAsync = callAll d.nodes := by
  induction d with
  | leaf object kind =>
      cases kind with
      | notDisposable | returnsTask | throws => rfl
  | composed object first second ihFirst ihSecond =>
      simp only [Dispatcher.disposeAsync, Dispatcher.nodes, callAll]
      rw [callAll_append, ihFirst, ihSecond]

/-- The tree as it is disposed with its tasks. -/
def Dispatcher.tree : Dispatcher → Core.DispatcherTree ℕ Unit
  | .leaf object .notDisposable => .leaf object none
  | .leaf object .returnsTask => .leaf object (some .completes)
  | .leaf object .throws => .leaf object (some (.throws ()))
  | .composed object first second => .composedDispatcher object first.tree second.tree

theorem disposeAsync_tree (d : Dispatcher) (log : List ℕ) :
    d.tree.disposeAsync log =
      (if d.disposeAsync.threw then .error () else .ok [], log ++ d.disposeAsync.received) := by
  induction d generalizing log with
  | leaf object kind =>
      cases kind with
      | notDisposable => simp [Dispatcher.tree, Core.DispatcherTree.disposeAsync,
          Dispatcher.disposeAsync, Comp.pure_apply]
      | returnsTask | throws => rfl
  | composed object first second ihFirst ihSecond =>
      have hobject : (modify (· ++ [object]) : Comp Unit (List ℕ) Unit) log =
          (.ok (), log ++ [object]) := rfl
      have hfirst := ihFirst (log ++ [object])
      rw [Dispatcher.tree, Core.DispatcherTree.disposeAsync, Comp.bind_of_ok hobject]
      cases hf : first.disposeAsync.threw with
      | true =>
          rw [hf] at hfirst
          rw [Comp.bind_of_error hfirst]
          simp [Dispatcher.disposeAsync, Disposal.andThen, hf]
      | false =>
          have hsecond := ihSecond (log ++ [object] ++ first.disposeAsync.received)
          rw [hf] at hfirst
          rw [Comp.bind_of_ok hfirst]
          cases hs : second.disposeAsync.threw with
          | true =>
              rw [hs] at hsecond
              rw [Comp.bind_of_error hsecond]
              simp [Dispatcher.disposeAsync, Disposal.andThen, hf, hs]
          | false =>
              rw [hs] at hsecond
              rw [Comp.bind_of_ok hsecond, Comp.pure_apply]
              simp [Dispatcher.disposeAsync, Disposal.andThen, hf, hs, Core.whenAll]

theorem callAll_singleton (x : ℕ × Bool) :
    callAll [x] = { received := [x.1], threw := x.2 } := by
  obtain ⟨object, throws⟩ := x
  cases throws with
  | false | true => rfl

theorem callAll_of_none_throws {xs : List (ℕ × Bool)} (h : ∀ x ∈ xs, x.2 = false) :
    callAll xs = { received := xs.map Prod.fst } := by
  induction xs with
  | nil => rfl
  | cons x xs ih =>
      have hx : x.2 = false := h x List.mem_cons_self
      rw [callAll, hx, ih fun y hy => h y (List.mem_cons_of_mem _ hy)]
      rfl

theorem callAll_of_throws {xs : List (ℕ × Bool)} {x : ℕ × Bool} (hx : x ∈ xs) (ht : x.2 = true) :
    (callAll xs).threw = true := by
  induction xs with
  | nil => exact (List.not_mem_nil hx).elim
  | cons y ys ih =>
      rw [callAll]
      unfold Disposal.andThen
      cases hy : y.2 with
      | true => rfl
      | false =>
          obtain rfl | hx := List.mem_cons.mp hx
          · rw [ht] at hy
            cases hy
          · exact ih hx

theorem callAll_received_subset {xs : List (ℕ × Bool)} {object : ℕ}
    (h : object ∈ (callAll xs).received) : object ∈ xs.map Prod.fst := by
  induction xs with
  | nil => exact h
  | cons x xs ih =>
      rw [callAll] at h
      unfold Disposal.andThen at h
      cases hx : x.2 with
      | true =>
          rw [hx] at h
          obtain rfl := List.mem_singleton.mp h
          exact List.mem_cons_self
      | false =>
          rw [hx] at h
          obtain rfl | h := List.mem_cons.mp h
          · exact List.mem_cons_self
          · exact List.mem_cons_of_mem _ (ih h)

theorem andThen_of_threw {a : Disposal} (h : a.threw = true) (b : Disposal) : a.andThen b = a := by
  rw [Disposal.andThen, if_pos h]

theorem callAll_replicate_of_none_throws {ns : List (ℕ × Bool)} (hdistinct : (ns.map Prod.fst).Nodup)
    (hnone : ∀ x ∈ ns, x.2 = false) (passes object : ℕ) :
    (callAll (List.replicate passes ns).flatten).received.count object =
      passes * if object ∈ ns.map Prod.fst then 1 else 0 := by
  have hpasses : ∀ x ∈ (List.replicate passes ns).flatten, x.2 = false := by
    intro x hx
    obtain ⟨pass, hpass, hx⟩ := List.mem_flatten.mp hx
    rw [(List.mem_replicate.mp hpass).2] at hx
    exact hnone x hx
  rw [callAll_of_none_throws hpasses, List.map_flatten, List.map_replicate, List.count_flatten,
    List.map_replicate, List.sum_replicate_nat, hdistinct.count]

theorem callAll_replicate_of_last_throws {init : List (ℕ × Bool)} {last : ℕ × Bool}
    (hinit : ∀ x ∈ init, x.2 = false) (hlast : last.2 = true) (n : ℕ) :
    (callAll (List.replicate (n + 1) (init ++ [last])).flatten).received =
      (init ++ [last]).map Prod.fst := by
  have hthrew : (callAll (init ++ [last])).threw = true :=
    callAll_of_throws (List.mem_append_right init List.mem_cons_self) hlast
  rw [List.replicate_succ, List.flatten_cons, callAll_append, andThen_of_threw hthrew,
    callAll_append, callAll_of_none_throws hinit, callAll_singleton, List.map_append]
  rfl

theorem callAll_replicate_of_throws {init : List (ℕ × Bool)} {last x : ℕ × Bool}
    (hdistinct : ((init ++ [last]).map Prod.fst).Nodup) (hx : x ∈ init) (hthrows : x.2 = true)
    (n : ℕ) :
    last.1 ∉ (callAll (List.replicate (n + 1) (init ++ [last])).flatten).received := by
  intro hreached
  have habort : callAll (List.replicate (n + 1) (init ++ [last])).flatten = callAll init := by
    rw [List.replicate_succ, List.flatten_cons, List.append_assoc, callAll_append,
      andThen_of_threw (callAll_of_throws hx hthrows)]
  rw [habort] at hreached
  have hmem := callAll_received_subset hreached
  rw [List.map_append, List.nodup_append] at hdistinct
  exact absurd rfl (hdistinct.2.2 _ hmem _ List.mem_cons_self)

/-- Passing `n + 1` times over distinct objects calls each of them once exactly when
nothing but the last one throws and, if there is a second pass, the last one does. -/
theorem callAll_once_iff {ns : List (ℕ × Bool)} (hdistinct : (ns.map Prod.fst).Nodup) (n : ℕ) :
    (∀ object, (callAll (List.replicate (n + 1) ns).flatten).received.count object =
        if object ∈ ns.map Prod.fst then 1 else 0) ↔
      (∀ x ∈ ns.dropLast, x.2 = false) ∧ (n = 0 ∨ ∀ x ∈ ns.getLast?, x.2 = true) := by
  obtain rfl | ⟨init, last, rfl⟩ := ns.eq_nil_or_concat'
  · simp [callAll]
  have hlast : last.1 ∈ (init ++ [last]).map Prod.fst := by simp
  rw [List.dropLast_concat, List.getLast?_concat]
  by_cases hinit : ∀ x ∈ init, x.2 = false
  · cases hthrows : last.2 with
    | false =>
        have hnone : ∀ x ∈ init ++ [last], x.2 = false := by
          intro x hx
          obtain hx | hx := List.mem_append.mp hx
          · exact hinit x hx
          · rw [List.mem_singleton.mp hx, hthrows]
        have hcount := callAll_replicate_of_none_throws hdistinct hnone (n + 1)
        constructor
        · intro h
          have hone := (hcount last.1).symm.trans (h last.1)
          rw [if_pos hlast] at hone
          exact ⟨hinit, .inl (by omega)⟩
        · intro h object
          have hzero : n = 0 := by
            obtain hzero | hthrown := h.2
            · exact hzero
            · exact absurd (hthrows.symm.trans (hthrown last rfl)) Bool.false_ne_true
          rw [hcount, hzero, Nat.zero_add, Nat.one_mul]
    | true =>
        constructor
        · intro _
          refine ⟨hinit, .inr fun x hx => ?_⟩
          rw [← Option.some.inj hx]
          exact hthrows
        · intro _ object
          rw [callAll_replicate_of_last_throws hinit hthrows, hdistinct.count]
  · constructor
    · intro h
      push Not at hinit
      obtain ⟨x, hx, hthrows⟩ := hinit
      have hmissed :=
        callAll_replicate_of_throws hdistinct hx ((Bool.not_eq_false _).mp hthrows) n
      refine absurd ?_ hmissed
      rw [← List.count_pos_iff, h, if_pos hlast]
      exact Nat.one_pos
    · intro h
      exact (hinit h.1).elim

/-- The objects a member of the queue goes through. -/
def Disposable.nodes : Disposable → List (ℕ × Bool)
  | .manager (.monoDispatcherManager d _ true) => d.nodes
  | .manager (.sharedThreadFiberManager fiber) => [(fiber, false)]
  | .manager _ => []
  | .dispatcher d => d.nodes

theorem nodes_of_not_disposable {d : Dispatcher} (h : d.isDisposable = false) : d.nodes = [] := by
  cases d with
  | leaf object kind =>
      cases kind with
      | notDisposable => rfl
      | returnsTask | throws => cases h
  | composed object first second => cases h

theorem disposable_eq_callAll (disposable : Disposable) :
    disposable.disposeAsync = callAll disposable.nodes := by
  cases disposable with
  | dispatcher d => exact disposeAsync_eq_callAll d
  | manager m =>
      cases m with
      | monoDispatcherManager dispatcher distinct shouldDispose =>
          cases shouldDispose with
          | false => rfl
          | true =>
              cases hd : dispatcher.isDisposable with
              | true =>
                  have hcall : DispatcherManager.disposeAsync
                      (.monoDispatcherManager dispatcher distinct true) = dispatcher.disposeAsync := by
                    simp only [DispatcherManager.disposeAsync, hd, Bool.and_self, if_true]
                  exact hcall.trans (disposeAsync_eq_callAll dispatcher)
              | false =>
                  simp only [Disposable.disposeAsync, DispatcherManager.disposeAsync, hd,
                    Bool.and_false, Bool.false_eq_true, if_false, Disposable.nodes,
                    nodes_of_not_disposable hd, callAll]
      | standardFiberManager | theadPoolFiberManager | taskPoolFiberManager
      | sharedThreadFiberManager _ => rfl

namespace ProxyFactory

def queued (f : ProxyFactory) : List (ℕ × Bool) := f.disposables.flatMap Disposable.nodes

theorem disposeAsync_eq_queued (f : ProxyFactory) : f.disposeAsync = callAll f.queued := by
  have hfold : ∀ (disposables : List Disposable) (done : Disposal),
      disposables.foldl (fun done disposable => done.andThen disposable.disposeAsync) done =
        done.andThen (callAll (disposables.flatMap Disposable.nodes)) := by
    intro disposables
    induction disposables with
    | nil =>
        intro done
        obtain ⟨received, threw⟩ := done
        cases threw with
        | true => rfl
        | false => simp only [List.foldl_nil, List.flatMap_nil, callAll, Disposal.andThen,
            Bool.false_eq_true, if_false, List.append_nil]
    | cons disposable disposables ih =>
        intro done
        rw [List.foldl_cons, ih, List.flatMap_cons, callAll_append, disposable_eq_callAll,
          andThen_assoc]
  exact hfold f.disposables {}

/-- What one `Build` adds. -/
def added (f : ProxyFactory) : List (ℕ × Bool) :=
  if f.manager.disposeDispatcher then (f.manager.getDispatcher f.next).1.nodes else []

theorem call_queued (f : ProxyFactory) (c : Call) : (f.call c).queued = f.queued ++ f.added := by
  have hget : f.getDispatcher.queued = f.queued ++ f.added := by
    unfold getDispatcher queued added
    cases hdispose : f.manager.disposeDispatcher with
    | false => simp only [Bool.false_and, Bool.false_eq_true, if_false, List.append_nil]
    | true =>
        cases hd : (f.manager.getDispatcher f.next).1.isDisposable with
        | true =>
            simp only [hd, Bool.and_self, if_true, List.flatMap_append, List.flatMap_cons,
              List.flatMap_nil, List.append_nil, Disposable.nodes]
        | false =>
            simp only [hd, Bool.and_false, Bool.false_eq_true, if_false, if_true,
              nodes_of_not_disposable hd, List.append_nil]
  cases c with
  | build | buildAsync => exact hget

theorem call_manager (f : ProxyFactory) (c : Call) : (f.call c).manager = f.manager := by
  have hget : f.getDispatcher.manager = f.manager := by
    unfold getDispatcher
    dsimp only
    split <;> rfl
  cases c with
  | build | buildAsync => exact hget

theorem call_next (f : ProxyFactory) (c : Call) :
    (f.call c).next = (f.manager.getDispatcher f.next).2 := by
  have hget : f.getDispatcher.next = (f.manager.getDispatcher f.next).2 := by
    unfold getDispatcher
    dsimp only
    split <;> rfl
  cases c with
  | build | buildAsync => exact hget

theorem run_manager (f : ProxyFactory) (calls : List Call) : (f.run calls).manager = f.manager := by
  induction calls generalizing f with
  | nil => rfl
  | cons c calls ih => exact (ih (f.call c)).trans (call_manager f c)

theorem run_queued_mono {f : ProxyFactory} {dispatcher : Dispatcher}
    {distinct : dispatcher.objects.Nodup}
    (hf : f.manager = .monoDispatcherManager dispatcher distinct true) (calls : List Call) :
    (f.run calls).queued = f.queued ++ (List.replicate calls.length dispatcher.nodes).flatten := by
  induction calls generalizing f with
  | nil => exact (List.append_nil _).symm
  | cons c calls ih =>
      have hadded : f.added = dispatcher.nodes := by
        unfold added
        rw [hf]
        rfl
      have hrest := ih ((call_manager f c).trans hf)
      rw [call_queued, hadded] at hrest
      rw [List.length_cons, List.replicate_succ, List.flatten_cons, ← List.append_assoc]
      exact hrest

theorem run_queued_kept {f : ProxyFactory} (hf : f.manager.disposeDispatcher = false)
    (calls : List Call) : (f.run calls).queued = f.queued := by
  induction calls generalizing f with
  | nil => rfl
  | cons c calls ih =>
      have hadded : f.added = [] := by
        unfold added
        rw [hf]
        rfl
      have hrest := ih ((congrArg _ (call_manager f c)).trans hf)
      rw [call_queued, hadded, List.append_nil] at hrest
      exact hrest

theorem run_fibers {f : ProxyFactory}
    (hf : ∀ next, f.manager.getDispatcher next = (.leaf next .returnsTask, next + 1))
    (hd : f.manager.disposeDispatcher = true) (calls : List Call) :
    (f.run calls).queued = f.queued ++ (List.range' f.next calls.length).map (·, false) ∧
      (f.run calls).next = f.next + calls.length := by
  induction calls generalizing f with
  | nil => exact ⟨(List.append_nil _).symm, rfl⟩
  | cons c calls ih =>
      have hadded : f.added = [(f.next, false)] := by
        unfold added
        rw [hd, hf]
        rfl
      have hmanager := call_manager f c
      have hnext : (f.call c).next = f.next + 1 := by rw [call_next, hf]
      obtain ⟨hqueued, hcount⟩ := ih (f := f.call c) (hmanager ▸ hf) (hmanager ▸ hd)
      rw [call_queued, hadded, hnext] at hqueued
      rw [hnext] at hcount
      constructor
      · rw [List.length_cons, List.range'_succ, List.map_cons, List.append_cons]
        exact hqueued
      · rw [List.length_cons]
        exact hcount.trans (by omega)

end ProxyFactory

open ProxyFactory

/-- After any sequence of builds, one `DisposeAsync` of the factory reaches every
dispatcher it is responsible for once and no other, except that a managed
dispatcher is disposed once more for every proxy. -/
theorem disposesOnce_iff (manager : DispatcherManager) (calls : List Call) :
    ((new manager).run calls).DisposesOnce ↔ OnceWhen calls.length manager := by
  have hmanager : ((new manager).run calls).manager = manager := run_manager _ calls
  unfold DisposesOnce responsible
  rw [disposeAsync_eq_queued, hmanager]
  have hfibers : ∀ {m : DispatcherManager}, (new m).queued = [] →
      (∀ next, m.getDispatcher next = (.leaf next .returnsTask, next + 1)) →
      m.disposeDispatcher = true → ∀ object,
      (callAll ((new m).run calls).queued).received.count object =
        if object ∈ List.range ((new m).run calls).next then 1 else 0 := by
    intro m hqueued hget hdispose object
    obtain ⟨hrun, hnext⟩ := run_fibers (f := new m) hget hdispose calls
    have hreturns : ∀ x ∈ (List.range' (new m).next calls.length).map (·, false), x.2 = false := by
      intro x hx
      obtain ⟨i, -, rfl⟩ := List.mem_map.mp hx
      rfl
    have hids : ((List.range' (new m).next calls.length).map (·, false)).map Prod.fst =
        List.range calls.length := by
      rw [List.map_map, List.range_eq_range']
      exact List.map_id _
    have hcount : ((new m).run calls).next = calls.length := hnext.trans (Nat.zero_add _)
    rw [hrun, hqueued, List.nil_append, callAll_of_none_throws hreturns, hids, hcount,
      List.nodup_range.count]
  cases manager with
  | monoDispatcherManager dispatcher distinct shouldDispose =>
      cases shouldDispose with
      | true =>
          have hqueued : ((new (.monoDispatcherManager dispatcher distinct true)).run calls).queued =
              (List.replicate (calls.length + 1) dispatcher.nodes).flatten := by
            rw [run_queued_mono rfl, List.replicate_succ, List.flatten_cons]
            exact congrArg (· ++ _) (List.append_nil _)
          rw [hqueued]
          exact callAll_once_iff distinct calls.length
      | false =>
          rw [run_queued_kept rfl]
          exact ⟨fun _ => trivial, fun _ object => rfl⟩
  | standardFiberManager | theadPoolFiberManager | taskPoolFiberManager =>
      exact ⟨fun _ => trivial, fun _ => hfibers rfl (fun _ => rfl) rfl⟩
  | sharedThreadFiberManager fiber =>
      rw [run_queued_kept rfl]
      refine ⟨fun _ => trivial, fun _ object => ?_⟩
      have hreceived : (callAll (new (.sharedThreadFiberManager fiber)).queued).received =
          [fiber] := rfl
      rw [hreceived, (List.nodup_singleton fiber).count]

/-- One proxy over one managed dispatcher, and the dispatcher is disposed twice. -/
theorem disposed_twice : ¬ ((new (.monoDispatcherManager (.leaf 0 .returnsTask) (by decide) true)).run
    [.build]).DisposesOnce := by
  intro h
  exact absurd (h 0) (by decide)

end ComposableAsync.Factory
