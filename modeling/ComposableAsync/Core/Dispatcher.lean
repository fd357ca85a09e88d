import Mathlib.Control.Lawful
import Mathlib.Tactic.Common

/-!
# Dispatchers and their composition

An `IDispatcher` is given by what its entry points do with the delegate they
receive, over any effects `n` and exceptions `E`. A delegate that throws and a
delegate that returns a faulted task are told apart: a call returns a task or
throws, and a task is known by what awaiting it gives. An `async` method puts its
exceptions into the task it returns.

`Clone` is not an entry point here. It makes new objects and belongs to the
dispatchers whose state is modelled.
-/
namespace ComposableAsync.Core

/-- A task, by what awaiting it gives. -/
abbrev Awaited (E T : Type) := Except E T

section Async
variable {E : Type} {n : Type → Type} [Monad n] {T U : Type}

/-- `await`. -/
def await (task : Awaited E T) : ExceptT E n T := ExceptT.mk (pure task)

/-- The body of an `async` method. -/
def async (body : ExceptT E n T) : ExceptT E n (Awaited E T) := ExceptT.lift body.run

/-- A call that returns its task whatever happens. -/
def ReturnsTask (call : ExceptT E n (Awaited E T)) : Prop :=
  ∃ body : ExceptT E n T, call = async body

theorem returnsTask_async (body : ExceptT E n T) : ReturnsTask (async body) := ⟨body, rfl⟩

variable [LawfulMonad n]

/-- Awaiting an `async` method is running its body. -/
@[simp] theorem async_await (body : ExceptT E n T) : async body >>= await = body := by
  apply ExceptT.ext
  simp [async, await]

/-- An `async` method that only awaits a call is that call, unless the call throws. -/
theorem ReturnsTask.async_await {call : ExceptT E n (Awaited E T)} (h : ReturnsTask call) :
    async (call >>= await) = call := by
  obtain ⟨body, rfl⟩ := h
  rw [Core.async_await]

@[simp] theorem fromResult_await (action : ExceptT E n T) :
    ((do return .ok (← action) : ExceptT E n (Awaited E T)) >>= await) = action := by
  have hok : ∀ value : T, (await (.ok value) : ExceptT E n T) = pure value := fun _ => rfl
  simp only [bind_assoc, pure_bind, hok, bind_pure]

end Async

/-- The entry points, in the order of `IDispatcher.cs`. The names tell the type of
the delegate; `With` marks the overloads with a cancellation token. `Val t` is the
C# type with code `t`. -/
structure IDispatcher (E : Type) (n : Type → Type) {Ty : Type} (Val : Ty → Type)
    (Token : Type) where
  dispatch : ExceptT E n Unit → ExceptT E n Unit
  enqueueAction : ExceptT E n Unit → ExceptT E n (Awaited E Unit)
  enqueueFunc : {t : Ty} → ExceptT E n (Val t) → ExceptT E n (Awaited E (Val t))
  enqueueFuncTask : ExceptT E n (Awaited E Unit) → ExceptT E n (Awaited E Unit)
  enqueueFuncTaskOf : {t : Ty} → ExceptT E n (Awaited E (Val t)) →
    ExceptT E n (Awaited E (Val t))
  enqueueFuncWith : {t : Ty} → ExceptT E n (Val t) → Token → ExceptT E n (Awaited E (Val t))
  enqueueActionWith : ExceptT E n Unit → Token → ExceptT E n (Awaited E Unit)
  enqueueFuncTaskWith : ExceptT E n (Awaited E Unit) → Token → ExceptT E n (Awaited E Unit)
  enqueueFuncTaskOfWith : {t : Ty} → ExceptT E n (Awaited E (Val t)) → Token →
    ExceptT E n (Awaited E (Val t))

/-- The entry points of `IBasicDispatcher`. -/
structure IBasicDispatcher (E : Type) (n : Type → Type) {Ty : Type} (Val : Ty → Type)
    (Token : Type) where
  enqueueFunc : {t : Ty} → ExceptT E n (Val t) → Token → ExceptT E n (Awaited E (Val t))
  enqueueAction : ExceptT E n Unit → Token → ExceptT E n (Awaited E Unit)
  enqueueFuncTask : ExceptT E n (Awaited E Unit) → Token → ExceptT E n (Awaited E Unit)
  enqueueFuncTaskOf : {t : Ty} → ExceptT E n (Awaited E (Val t)) → Token →
    ExceptT E n (Awaited E (Val t))

variable {E : Type} {n : Type → Type} [Monad n] {Ty : Type} {Val : Ty → Type} {Token : Type}

/-- `DispatcherAdapter`; `none` is `CancellationToken.None`. -/
def dispatcherAdapter (none : Token) (basic : IBasicDispatcher E n Val Token) :
    IDispatcher E n Val Token where
  dispatch action := do let _ ← basic.enqueueAction action none
  enqueueAction action := basic.enqueueAction action none
  enqueueFunc action := basic.enqueueFunc action none
  enqueueFuncTask action := basic.enqueueFuncTask action none
  enqueueFuncTaskOf action := basic.enqueueFuncTaskOf action none
  enqueueFuncWith action token := basic.enqueueFunc action token
  enqueueActionWith action token := basic.enqueueAction action token
  enqueueFuncTaskWith action token := basic.enqueueFuncTask action token
  enqueueFuncTaskOfWith action token := basic.enqueueFuncTaskOf action token

/-- `NullDispatcher`. The overloads for synchronous delegates are not `async`. -/
def nullDispatcher : IDispatcher E n Val Token where
  dispatch action := action
  enqueueAction action := do return .ok (← action)
  enqueueFunc action := do return .ok (← action)
  enqueueFuncTask action := async do await (← action)
  enqueueFuncTaskOf action := async do await (← action)
  enqueueFuncWith action _ := do return .ok (← action)
  enqueueActionWith action _ := do return .ok (← action)
  enqueueFuncTaskWith action _ := async do await (← action)
  enqueueFuncTaskOfWith action _ := async do await (← action)

/-- `ComposedDispatcher`. The first stage is called with a delegate that returns
the task of the second, whatever the overload. -/
def composedDispatcher (first second : IDispatcher E n Val Token) : IDispatcher E n Val Token where
  dispatch action := first.dispatch (second.dispatch action)
  enqueueAction action := async do
    await (← first.enqueueFuncTask (second.enqueueAction action))
  enqueueFunc action := async do
    await (← first.enqueueFuncTaskOf (second.enqueueFunc action))
  enqueueFuncTask action := async do
    await (← first.enqueueFuncTask (second.enqueueFuncTask action))
  enqueueFuncTaskOf action := async do
    await (← first.enqueueFuncTaskOf (second.enqueueFuncTaskOf action))
  enqueueFuncWith action token := async do
    await (← first.enqueueFuncTaskOfWith (second.enqueueFuncWith action token) token)
  enqueueActionWith action token := async do
    await (← first.enqueueFuncTaskWith (second.enqueueActionWith action token) token)
  enqueueFuncTaskWith action token := async do
    await (← first.enqueueFuncTaskWith (second.enqueueFuncTaskWith action token) token)
  enqueueFuncTaskOfWith action token := async do
    await (← first.enqueueFuncTaskOfWith (second.enqueueFuncTaskOfWith action token) token)

/-- `Then` with a list: `others.Aggregate(dispatcher, (cum, val) => cum.Then(val))`. -/
def thenAll (dispatcher : IDispatcher E n Val Token) (others : List (IDispatcher E n Val Token)) :
    IDispatcher E n Val Token :=
  others.foldl composedDispatcher dispatcher

end ComposableAsync.Core
