import ComposableAsync.Resilient.CircuitBreakerDispatcher
import ComposableAsync.Resilient.RetryDispatcher

/-!
# Trees of dispatchers

What `Then` builds from circuit breakers, retry dispatchers and the null
dispatcher. The state of a breaker is a cell of a shared memory, so that two
dispatchers may hold the same breaker; everything else in a tree is readonly.
Every leaf but the null one is a `DispatcherAdapter` over an `IBasicDispatcher`.

The overloads of the breaker are written once over their locked sections. With a
breaker of its own and the clock readings given, they are the overloads of
`CircuitBreakerDispatcher`.
-/
namespace ComposableAsync.Resilient
open Foundations ComposableAsync.Core

variable {E Ty : Type} {Val : Ty → Type} (c : Settings E Val)

section Overloads
variable {S R : Type} {t : Ty}

/-- The generic overloads. -/
def callFunc (enter : Comp E S (ReturnData R)) (check : E → Comp E S Unit)
    (success : Comp E S Unit) (action : Comp E S R) : Comp E S R := do
  match ← enter with
  | .ret value => return value
  | .getContinue =>
      let res ← tryCatch action fun exception => do
        check exception
        throw exception
      success
      return res

/-- The overloads without a result. -/
def callAction (enter : Comp E S Bool) (check : E → Comp E S Unit) (success : Comp E S Unit)
    (action : Comp E S Unit) : Comp E S Unit := do
  if ← enter then
    tryCatch action fun exception => do
      check exception
      throw exception
    success

theorem enqueueFunc_eq_callFunc {W : Type} (enterAt leaveAt : ℤ) (action : Comp E W (Val t)) :
    enqueueFunc c t enterAt leaveAt action =
      callFunc (locked (onEnterOf c t enterAt))
        (fun exception => locked fun b => (.ok (), checkException c leaveAt exception b))
        (locked fun b => (.ok (), onSuccess b)) (invoke action) := by
  unfold enqueueFunc callFunc
  refine bind_congr fun data => ?_
  cases data <;> rfl

theorem enqueueAction_eq_callAction {W : Type} (enterAt leaveAt : ℤ) (action : Comp E W Unit) :
    enqueueAction c enterAt leaveAt action =
      callAction (locked (onEnter c enterAt))
        (fun exception => locked fun b => (.ok (), checkException c leaveAt exception b))
        (locked fun b => (.ok (), onSuccess b)) (invoke action) := rfl

end Overloads

variable {W Token : Type} (env : Environment E W Token)

/-- `OnEnter` of the breaker in `cell`. Only an open breaker reads the clock. -/
def enterCell {R : Type} (cell : ℕ) (onEnter : ℤ → Breaker → Except E R × Breaker) :
    Comp E (Memory ℕ Breaker W) R :=
  onCell cell fun b w =>
    let (now, w') := env.now w
    ((onEnter now b).1, (onEnter now b).2, if b.state = .opened then w' else w)

/-- A filtered exception returns before the lock is taken. -/
def checkCell (cell : ℕ) (exception : E) : Comp E (Memory ℕ Breaker W) Unit :=
  if c.exceptionFilter exception then return ()
  else onCell cell fun b w =>
    let (now, w) := env.now w
    (.ok (), unsafeUpdateOnFail c now b, w)

def successCell (cell : ℕ) : Comp E (Memory ℕ Breaker W) Unit :=
  onCell cell fun b w => (.ok (), onSuccess b, w)

def funcCell (cell : ℕ) (t : Ty) (action : Comp E (Memory ℕ Breaker W) (Val t)) :
    Comp E (Memory ℕ Breaker W) (Val t) :=
  callFunc (enterCell env cell (onEnterOf c t)) (checkCell c env cell) (successCell cell)
    action

def actionCell (cell : ℕ) (action : Comp E (Memory ℕ Breaker W) Unit) :
    Comp E (Memory ℕ Breaker W) Unit :=
  callAction (enterCell env cell (onEnter c)) (checkCell c env cell) (successCell cell)
    action

/-- `CircuitBreakerDispatcher`. No overload reads its token. -/
def circuitBreakerDispatcher (cell : ℕ) :
    IBasicDispatcher E (StateM (Memory ℕ Breaker W)) Val Token where
  enqueueFunc {t} action _ := do return .ok (← funcCell c env cell t action)
  enqueueAction action _ := do return .ok (← actionCell c env cell action)
  enqueueFuncTask action _ := async (actionCell c env cell do await (← action))
  enqueueFuncTaskOf {t} action _ := async (funcCell c env cell t do await (← action))

inductive DispatcherTree (E W : Type) {Ty : Type} (Val : Ty → Type) where
  | nullDispatcher
  | retryDispatcher (isFiltered : E → Bool) (maxRetry : Int32)
  | retryDispatcherAsync (isFiltered : E → Bool) (getTimeOutForRetry : Int32 → Comp E W ℤ)
      (maxRetry : Int32)
  | circuitBreakerDispatcher (settings : Settings E Val) (cell : ℕ)
  | composedDispatcher (first second : DispatcherTree E W Val)

namespace DispatcherTree

def entries : DispatcherTree E W Val →
    IDispatcher E (StateM (Memory ℕ Breaker W)) Val Token
  | .nullDispatcher => Core.nullDispatcher
  | .retryDispatcher isFiltered maxRetry =>
      dispatcherAdapter env.none (Resilient.retryDispatcher env isFiltered maxRetry)
  | .retryDispatcherAsync isFiltered getTimeOutForRetry maxRetry =>
      dispatcherAdapter env.none
        (Resilient.retryDispatcherAsync env isFiltered getTimeOutForRetry maxRetry)
  | .circuitBreakerDispatcher settings cell =>
      dispatcherAdapter env.none (Resilient.circuitBreakerDispatcher settings env cell)
  | .composedDispatcher first second => Core.composedDispatcher first.entries second.entries

/-- The breakers of a tree. -/
def cells : DispatcherTree E W Val → List ℕ
  | .nullDispatcher | .retryDispatcher _ _ | .retryDispatcherAsync _ _ _ => []
  | .circuitBreakerDispatcher _ cell => [cell]
  | .composedDispatcher first second => first.cells ++ second.cells

end DispatcherTree

/-- The breakers that exist: `new` takes the next cell. -/
structure Breakers where
  cells : ℕ → Breaker
  next : ℕ

/-- `Clone`. The retry dispatchers return themselves, the adapter clones what it
adapts, and `ComposedDispatcher` makes a new composition of its own two parts. -/
def DispatcherTree.clone : DispatcherTree E W Val → Breakers → DispatcherTree E W Val × Breakers
  | .nullDispatcher, h => (.nullDispatcher, h)
  | .retryDispatcher isFiltered maxRetry, h => (.retryDispatcher isFiltered maxRetry, h)
  | .retryDispatcherAsync isFiltered getTimeOutForRetry maxRetry, h =>
      (.retryDispatcherAsync isFiltered getTimeOutForRetry maxRetry, h)
  | .circuitBreakerDispatcher settings _, h =>
      (.circuitBreakerDispatcher settings h.next,
        { cells := Function.update h.cells h.next {}, next := h.next + 1 })
  | .composedDispatcher first second, h => (.composedDispatcher first second, h)

end ComposableAsync.Resilient
