import ComposableAsync.Foundations.Computation
import Mathlib.Data.List.Flatten

/-!
# Disposing everything that was registered

`ComposableAsyncDisposable.DisposeAsync` calls the registered objects one after another
and gives their tasks to `Task.WhenAll`; a composition made by `Then` does the same with
its two parts. Both collect the tasks before they await any, so a task that faults keeps
nobody from being called. A call that throws before it has returned a task is no task:
the objects behind it are not called, and the exception leaves `DisposeAsync`.

The state is the log of the calls of `DisposeAsync`, and a task is the list of the
exceptions it ends with.
-/
namespace ComposableAsync.Core
open Foundations

/-- What the body of a `DisposeAsync` does: its task completes, its task ends with one or
more exceptions, or it throws before there is a task. -/
inductive DisposeAsync (E : Type) where
  | completes
  | faults (exception : E) (more : List E)
  | throws (exception : E)
  deriving DecidableEq, Repr

namespace DisposeAsync
variable {O E : Type}

/-- The exceptions that the call has to report. -/
def failures : DisposeAsync E → List E
  | .completes => []
  | .faults e more => e :: more
  | .throws e => [e]

def throwsAtOnce : DisposeAsync E → Bool
  | .throws _ => true
  | .completes | .faults _ _ => false

/-- One call on an object. -/
def call (object : O) (body : DisposeAsync E) : Comp E (List O) (List E) := do
  modify (· ++ [object])
  match body with
  | .throws e => throw e
  | .completes | .faults _ _ => pure body.failures

end DisposeAsync

/-- The task of `Task.WhenAll` ends with the exceptions of all. -/
def whenAll {E : Type} (tasks : List (List E)) : List E := tasks.flatten

/-- A dispatcher by how it is disposed: an object, which need not be an
`IAsyncDisposable`, or a composition made by `Then`. -/
inductive DispatcherTree (O E : Type) where
  | leaf (object : O) (body : Option (DisposeAsync E))
  | composedDispatcher (object : O) (first second : DispatcherTree O E)
  deriving DecidableEq, Repr

namespace DispatcherTree
variable {O E : Type}

/-- `(dispatcher as IAsyncDisposable)?.DisposeAsync() ?? Task.CompletedTask`. -/
def disposeAsync : DispatcherTree O E → Comp E (List O) (List E)
  | .leaf _ none => pure []
  | .leaf object (some body) => body.call object
  | .composedDispatcher object first second => do
      modify (· ++ [object])
      let firstTask ← first.disposeAsync
      let secondTask ← second.disposeAsync
      return whenAll [firstTask, secondTask]

/-- `dispatcher is IAsyncDisposable`. -/
def isAsyncDisposable : DispatcherTree O E → Bool
  | .leaf _ body => body.isSome
  | .composedDispatcher _ _ _ => true

/-- The disposable objects of a tree, in the order of the calls. -/
def calls : DispatcherTree O E → List (O × DisposeAsync E)
  | .leaf _ none => []
  | .leaf object (some body) => [(object, body)]
  | .composedDispatcher object first second => (object, .completes) :: (first.calls ++ second.calls)

end DispatcherTree

/-- What may be registered: any object, a composition, or a manager of a dispatcher. -/
inductive Disposable (O E : Type) where
  | asyncDisposable (object : O) (body : DisposeAsync E)
  | composedDispatcher (object : O) (first second : DispatcherTree O E)
  | monoDispatcherManager (object : O) (dispatcher : DispatcherTree O E) (disposeDispatcher : Bool)
  deriving DecidableEq, Repr

namespace Disposable
variable {O E : Type}

def disposeAsync : Disposable O E → Comp E (List O) (List E)
  | .asyncDisposable object body => body.call object
  | .composedDispatcher object first second =>
      (DispatcherTree.composedDispatcher object first second).disposeAsync
  | .monoDispatcherManager object dispatcher disposeDispatcher => do
      modify (· ++ [object])
      if disposeDispatcher && dispatcher.isAsyncDisposable then dispatcher.disposeAsync
      else return []

def calls : Disposable O E → List (O × DisposeAsync E)
  | .asyncDisposable object body => [(object, body)]
  | .composedDispatcher object first second =>
      (DispatcherTree.composedDispatcher object first second).calls
  | .monoDispatcherManager object dispatcher disposeDispatcher =>
      (object, .completes) :: if disposeDispatcher then dispatcher.calls else []

end Disposable

structure ComposableAsyncDisposable (O E : Type) where
  disposables : List (Disposable O E) := []

namespace ComposableAsyncDisposable
variable {O E : Type}

/-- `Add` ignores `null`. -/
def add (c : ComposableAsyncDisposable O E) (disposable : Option (Disposable O E)) :
    ComposableAsyncDisposable O E := { disposables := c.disposables ++ disposable.toList }

def disposeAsync (c : ComposableAsyncDisposable O E) : Comp E (List O) (List E) := do
  let tasks ← c.disposables.mapM Disposable.disposeAsync
  return whenAll tasks

def calls (c : ComposableAsyncDisposable O E) : List (O × DisposeAsync E) :=
  c.disposables.flatMap Disposable.calls

end ComposableAsyncDisposable

section Calls
variable {O E : Type}

/-- The calls of a list, in order, as long as none throws. -/
def callAll : List (O × DisposeAsync E) → Comp E (List O) (List E)
  | [] => pure []
  | (object, body) :: rest => do
      let task ← body.call object
      let tasks ← callAll rest
      return task ++ tasks

theorem callAll_append (xs ys : List (O × DisposeAsync E)) :
    callAll (xs ++ ys) = do
      let tasks ← callAll xs
      let more ← callAll ys
      return tasks ++ more := by
  induction xs with
  | nil => simp [callAll]
  | cons x xs ih =>
      obtain ⟨object, body⟩ := x
      simp only [List.cons_append, callAll, ih, bind_assoc, pure_bind, List.append_assoc]

theorem call_completes (object : O) :
    (DisposeAsync.completes : DisposeAsync E).call object =
      (do modify (· ++ [object]); return []) := rfl

namespace DispatcherTree

theorem disposeAsync_eq (d : DispatcherTree O E) : d.disposeAsync = callAll d.calls := by
  induction d with
  | leaf object body =>
      cases body with
      | none => rfl
      | some body => simp [disposeAsync, calls, callAll]
  | composedDispatcher object first second ihFirst ihSecond =>
      simp only [disposeAsync, calls, callAll, callAll_append, ihFirst, ihSecond, call_completes,
        whenAll]
      simp

theorem calls_eq_nil (d : DispatcherTree O E) (h : d.isAsyncDisposable = false) : d.calls = [] := by
  cases d with
  | leaf object body =>
      cases body with
      | none => rfl
      | some body => cases h
  | composedDispatcher object first second => cases h

end DispatcherTree

theorem Disposable.disposeAsync_eq (d : Disposable O E) : d.disposeAsync = callAll d.calls := by
  cases d with
  | asyncDisposable object body => simp [disposeAsync, calls, callAll]
  | composedDispatcher object first second =>
      exact (DispatcherTree.composedDispatcher object first second).disposeAsync_eq
  | monoDispatcherManager object dispatcher disposeDispatcher =>
      simp only [disposeAsync, calls, callAll, call_completes, bind_assoc, pure_bind]
      congr 1
      funext _
      cases disposeDispatcher with
      | false => rfl
      | true =>
          cases hd : dispatcher.isAsyncDisposable with
          | true => simp [dispatcher.disposeAsync_eq]
          | false =>
              rw [dispatcher.calls_eq_nil hd]
              rfl

theorem whenAll_mapM (disposables : List (Disposable O E)) :
    (do
      let tasks ← disposables.mapM Disposable.disposeAsync
      return whenAll tasks) = callAll (disposables.flatMap Disposable.calls) := by
  induction disposables with
  | nil => rfl
  | cons d ds ih =>
      rw [List.flatMap_cons, callAll_append, ← ih, ← d.disposeAsync_eq]
      simp [whenAll]

theorem ComposableAsyncDisposable.disposeAsync_eq (c : ComposableAsyncDisposable O E) :
    c.disposeAsync = callAll c.calls := whenAll_mapM c.disposables

theorem call_of_returns {object : O} {body : DisposeAsync E} {log : List O}
    (h : body.throwsAtOnce = false) :
    body.call object log = (.ok body.failures, log ++ [object]) := by
  cases body with
  | completes | faults => rfl
  | throws => cases h

theorem call_of_throws {object : O} {e : E} {log : List O} :
    (DisposeAsync.throws e).call object log = (.error e, log ++ [object]) := rfl

theorem callAll_of_returns {calls : List (O × DisposeAsync E)} {log : List O}
    (h : ∀ x ∈ calls, x.2.throwsAtOnce = false) :
    callAll calls log =
      (.ok (calls.flatMap fun x => x.2.failures), log ++ calls.map Prod.fst) := by
  induction calls generalizing log with
  | nil => simp [callAll, Comp.pure_apply]
  | cons x rest ih =>
      obtain ⟨object, body⟩ := x
      have hbody : body.throwsAtOnce = false := h _ List.mem_cons_self
      have hrest := @ih (log ++ [object]) fun y hy => h y (List.mem_cons_of_mem _ hy)
      rw [callAll, Comp.bind_of_ok (call_of_returns hbody), Comp.bind_of_ok hrest,
        Comp.pure_apply, List.flatMap_cons, List.map_cons, List.append_assoc, List.singleton_append]

theorem callAll_of_throws {before after : List (O × DisposeAsync E)} {object : O} {e : E}
    {log : List O} (h : ∀ x ∈ before, x.2.throwsAtOnce = false) :
    callAll (before ++ (object, .throws e) :: after) log =
      (.error e, log ++ before.map Prod.fst ++ [object]) := by
  rw [callAll_append, Comp.bind_of_ok (callAll_of_returns h)]
  apply Comp.bind_of_error
  rw [callAll, Comp.bind_of_error call_of_throws]

theorem exists_first_throws {calls : List (O × DisposeAsync E)}
    (h : ∃ x ∈ calls, x.2.throwsAtOnce = true) :
    ∃ before object e after, calls = before ++ (object, .throws e) :: after ∧
      ∀ x ∈ before, x.2.throwsAtOnce = false := by
  induction calls with
  | nil => simp at h
  | cons y rest ih =>
      obtain ⟨object, body⟩ := y
      cases hbody : body.throwsAtOnce with
      | true =>
          cases body with
          | throws e => exact ⟨[], object, e, rest, rfl, by simp⟩
          | completes | faults => cases hbody
      | false =>
          obtain ⟨x, hx, hthrows⟩ := h
          have hrest : ∃ x ∈ rest, x.2.throwsAtOnce = true := by
            obtain rfl | hx := List.mem_cons.mp hx
            · rw [hbody] at hthrows
              cases hthrows
            · exact ⟨x, hx, hthrows⟩
          obtain ⟨before, o, e, after, rfl, hbefore⟩ := ih hrest
          refine ⟨(object, body) :: before, o, e, after, rfl, fun x hx => ?_⟩
          obtain rfl | hx := List.mem_cons.mp hx
          · exact hbody
          · exact hbefore x hx

end Calls

namespace ComposableAsyncDisposable
variable {O E : Type}

/-- Every registered object and every disposable leaf is called, as often as it is there,
and the returned task ends with everything that failed. -/
structure DisposesAll (c : ComposableAsyncDisposable O E) : Prop where
  called : (c.calls.map Prod.fst).Sublist (c.disposeAsync []).2
  reported : ∃ task, (c.disposeAsync []).1 = .ok task ∧
    (c.calls.flatMap fun x => x.2.failures).Sublist task

theorem calls_add (c : ComposableAsyncDisposable O E) (disposable : Option (Disposable O E)) :
    (c.add disposable).calls = c.calls ++ disposable.elim [] Disposable.calls := by
  cases disposable with
  | none => simp [add, calls]
  | some d => simp [add, calls]

/-- Without a call that throws at once, all are called once, in order. -/
theorem disposeAsync_of_returns (c : ComposableAsyncDisposable O E)
    (h : ∀ x ∈ c.calls, x.2.throwsAtOnce = false) :
    c.disposeAsync [] = (.ok (c.calls.flatMap fun x => x.2.failures), c.calls.map Prod.fst) := by
  rw [c.disposeAsync_eq, callAll_of_returns h, List.nil_append]

/-- The first that throws at once is the last one called: its exception leaves
`DisposeAsync`, and what the tasks before it report is lost. -/
theorem disposeAsync_of_throws (c : ComposableAsyncDisposable O E)
    {before after : List (O × DisposeAsync E)} {object : O} {e : E}
    (hcalls : c.calls = before ++ (object, .throws e) :: after)
    (hbefore : ∀ x ∈ before, x.2.throwsAtOnce = false) :
    c.disposeAsync [] = (.error e, before.map Prod.fst ++ [object]) := by
  rw [c.disposeAsync_eq, hcalls, callAll_of_throws hbefore, List.nil_append]

/-- `DisposeAsync` disposes all, whatever tasks fault, if and only if no object throws
before it has returned its task. -/
theorem disposesAll_iff (c : ComposableAsyncDisposable O E) :
    c.DisposesAll ↔ ∀ x ∈ c.calls, x.2.throwsAtOnce = false := by
  constructor
  · intro h x hx
    by_contra hthrows
    obtain ⟨before, object, e, after, hcalls, hbefore⟩ :=
      exists_first_throws ⟨x, hx, (Bool.not_eq_false _).mp hthrows⟩
    obtain ⟨task, htask, -⟩ := h.reported
    rw [c.disposeAsync_of_throws hcalls hbefore] at htask
    cases htask
  · intro h
    have hall := c.disposeAsync_of_returns h
    have hlog : (c.disposeAsync []).2 = c.calls.map Prod.fst := congrArg Prod.snd hall
    exact ⟨hlog ▸ List.Sublist.refl _, _, congrArg Prod.fst hall, List.Sublist.refl _⟩

/-- The object behind one that throws at once is not called. -/
theorem not_disposesAll : ¬ ∀ c : ComposableAsyncDisposable ℕ ℕ, c.DisposesAll := by
  intro h
  have hcalled := (h ⟨[.asyncDisposable 0 (.throws 7), .asyncDisposable 1 .completes]⟩).called
  exact absurd hcalled (by decide)

end ComposableAsyncDisposable
end ComposableAsync.Core
