import ComposableAsync.Foundations.Computation
import Mathlib.Data.Int.Order.Basic

/-!
# The circuit breaker and its four overloads

The mutable fields of `CircuitBreakerDispatcher` form one record, and every
locked section is a pure function on it: `onEnter` and `onEnterOf` (the generic
`OnEnter<T>`), `onSuccess`, and the update inside `checkException`. A reading of
`DateTime.Now` is an argument; times and durations are integers of 100 ns ticks.
`_SuccessiveFails` and `_Threshold` are 32-bit integers that wrap.

The overloads are written over these sections as computations that throw.
A delegate acts on the world outside the breaker; the only way to run one is
`invoke`, which also counts the invocations.
-/
namespace ComposableAsync.Resilient
open Foundations

inductive BreakerState where
  | closed | opened | halfOpen
  deriving DecidableEq, Repr

/-- The readonly fields. `Val t` is the C# type with code `t`, so that one open
behaviour answers for every result type, as `OnOpen<T>` does. -/
structure Settings (E : Type) {Ty : Type} (Val : Ty → Type) where
  exceptionFilter : E → Bool
  openBehaviour : Except E Unit
  openBehaviourReturn : (t : Ty) → Except E (Val t)
  threshold : Int32
  delay : ℤ

structure Breaker where
  state : BreakerState := .closed
  lastFail : ℤ := 0
  successiveFails : Int32 := 0
  deriving DecidableEq, Repr

inductive ReturnData (T : Type) where
  | getContinue
  | ret (value : T)

variable {E Ty : Type} {Val : Ty → Type} (c : Settings E Val)

/-- `UnsafeEnter<T>(onClosed, onOpen)`. While half open the void behaviour is
called before `onOpen`, whichever overload is entering. -/
def unsafeEnter {R : Type} (now : ℤ) (onClosed onOpen : Except E R) (b : Breaker) :
    Except E R × Breaker :=
  match b.state with
  | .closed => (onClosed, b)
  | .halfOpen => (c.openBehaviour.bind fun _ => onOpen, b)
  | .opened =>
      if now - b.lastFail < c.delay then (onOpen, b)
      else (onClosed, { b with state := .halfOpen })

def onEnter (now : ℤ) : Breaker → Except E Bool × Breaker :=
  unsafeEnter c now (.ok true) (c.openBehaviour.map fun _ => false)

/-- `OnEnter<T>` at the result type with code `t`. -/
def onEnterOf (t : Ty) (now : ℤ) : Breaker → Except E (ReturnData (Val t)) × Breaker :=
  unsafeEnter c now (.ok .getContinue) ((c.openBehaviourReturn t).map .ret)

def onSuccess (b : Breaker) : Breaker := { b with successiveFails := 0, state := .closed }

/-- The counter is compared with the threshold by `==`, after the increment. -/
def unsafeUpdateOnFail (now : ℤ) (b : Breaker) : Breaker :=
  let b := { b with lastFail := now }
  match b.state with
  | .opened | .halfOpen => { b with state := .opened }
  | .closed =>
      let b := { b with successiveFails := b.successiveFails + 1 }
      if b.successiveFails = c.threshold then { b with state := .opened } else b

/-- A filtered exception returns before the lock is taken. -/
def checkException (now : ℤ) (exception : E) (b : Breaker) : Breaker :=
  if c.exceptionFilter exception then b else unsafeUpdateOnFail c now b

/-- The breaker, the number of delegates it has run, and everything outside it. -/
structure World (W : Type) where
  breaker : Breaker := {}
  invocations : ℕ := 0
  outside : W

/-- A section under `lock (this)`. -/
def locked {W R : Type} (section_ : Breaker → Except E R × Breaker) : Comp E (World W) R :=
  fun w => ((section_ w.breaker).1, { w with breaker := (section_ w.breaker).2 })

/-- Run a delegate; its exception is caught or escapes as any other. -/
def invoke {W R : Type} (action : Comp E W R) : Comp E (World W) R :=
  fun w => ((action w.outside).1,
    { w with invocations := w.invocations + 1, outside := (action w.outside).2 })

variable {W : Type}

/-- `Task<T> Enqueue<T>(Func<T>, CancellationToken)`. -/
def enqueueFunc (t : Ty) (enterAt leaveAt : ℤ) (action : Comp E W (Val t)) :
    Comp E (World W) (Val t) := do
  match ← locked (onEnterOf c t enterAt) with
  | .ret value => return value
  | .getContinue =>
      let res ← tryCatch (invoke action) fun exception => do
        locked fun b => (.ok (), checkException c leaveAt exception b)
        throw exception
      locked fun b => (.ok (), onSuccess b)
      return res

/-- `Task Enqueue(Action, CancellationToken)`. -/
def enqueueAction (enterAt leaveAt : ℤ) (action : Comp E W Unit) :
    Comp E (World W) Unit := do
  if ← locked (onEnter c enterAt) then
    tryCatch (invoke action) fun exception => do
      locked fun b => (.ok (), checkException c leaveAt exception b)
      throw exception
    locked fun b => (.ok (), onSuccess b)

/-- `Task Enqueue(Func<Task>, CancellationToken)`: the delegate is awaited, so
its exception is the one its task faults with. -/
def enqueueFuncTask (enterAt leaveAt : ℤ) (action : Comp E W Unit) :
    Comp E (World W) Unit := enqueueAction c enterAt leaveAt action

/-- `Task<T> Enqueue<T>(Func<Task<T>>, CancellationToken)`. -/
def enqueueFuncTaskOf (t : Ty) (enterAt leaveAt : ℤ) (action : Comp E W (Val t)) :
    Comp E (World W) (Val t) := enqueueFunc c t enterAt leaveAt action

/-- Which of the overloads a caller uses. -/
inductive Overload (Ty : Type) where
  | func (t : Ty) | action | funcTask | funcTaskOf (t : Ty)
  deriving DecidableEq, Repr

abbrev Overload.Result (Val : Ty → Type) : Overload Ty → Type
  | .func t | .funcTaskOf t => Val t
  | .action | .funcTask => Unit

def enqueue (o : Overload Ty) (enterAt leaveAt : ℤ) :
    Comp E W (o.Result Val) → Comp E (World W) (o.Result Val) :=
  match o with
  | .func t => enqueueFunc c t enterAt leaveAt
  | .action => enqueueAction c enterAt leaveAt
  | .funcTask => enqueueFuncTask c enterAt leaveAt
  | .funcTaskOf t => enqueueFuncTaskOf c t enterAt leaveAt

/-- What the locked entry of an overload decides: go on to the delegate, or
answer the caller without it. -/
inductive Entry (E R : Type) where
  | admitted
  | rejected (answer : Except E R)

def ReturnData.entry {R : Type} : Except E (ReturnData R) → Entry E R
  | .ok .getContinue => .admitted
  | .ok (.ret value) => .rejected (.ok value)
  | .error e => .rejected (.error e)

def boolEntry : Except E Bool → Entry E Unit
  | .ok true => .admitted
  | .ok false => .rejected (.ok ())
  | .error e => .rejected (.error e)

/-- The first locked section of an overload. -/
def enter (o : Overload Ty) (now : ℤ) (b : Breaker) :
    Entry E (o.Result Val) × Breaker :=
  match o with
  | .func t | .funcTaskOf t => (ReturnData.entry (onEnterOf c t now b).1, (onEnterOf c t now b).2)
  | .action | .funcTask => (boolEntry (onEnter c now b).1, (onEnter c now b).2)

/-- The last locked section, after the delegate has ended. -/
def leave {R : Type} (now : ℤ) (outcome : Except E R) (b : Breaker) : Breaker :=
  match outcome with
  | .ok _ => onSuccess b
  | .error e => checkException c now e b

end ComposableAsync.Resilient
