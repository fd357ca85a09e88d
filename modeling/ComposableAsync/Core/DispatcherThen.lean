import ComposableAsync.Core.Dispatcher

/-!
# `Then` folds in list order

Two dispatchers are told apart by `Dispatch` and by the awaited outcome of every
`Enqueue`; the effects include whatever calls the stages make. `Then` with a list
is the nested composition: each stage runs inside its predecessor and only the
last receives the original delegate. `NullDispatcher` is a left identity.

For three stages the two ways to compose differ in one point. An inner
composition is an `async` method, so the first stage finds in a task what the
second one throws. If the second stage never throws but returns its failures,
`Then` is associative.
-/
namespace ComposableAsync.Core

variable {E : Type} {n : Type → Type} [Monad n] {Ty : Type} {Val : Ty → Type} {Token : Type}

/-- Equal to `Dispatch` on and to await. -/
structure AwaitedEq (d d' : IDispatcher E n Val Token) : Prop where
  dispatch : ∀ action, d.dispatch action = d'.dispatch action
  enqueueAction : ∀ action, d.enqueueAction action >>= await = d'.enqueueAction action >>= await
  enqueueFunc : ∀ {t} (action : ExceptT E n (Val t)),
    d.enqueueFunc action >>= await = d'.enqueueFunc action >>= await
  enqueueFuncTask : ∀ action,
    d.enqueueFuncTask action >>= await = d'.enqueueFuncTask action >>= await
  enqueueFuncTaskOf : ∀ {t} (action : ExceptT E n (Awaited E (Val t))),
    d.enqueueFuncTaskOf action >>= await = d'.enqueueFuncTaskOf action >>= await
  enqueueFuncWith : ∀ {t} (action : ExceptT E n (Val t)) token,
    d.enqueueFuncWith action token >>= await = d'.enqueueFuncWith action token >>= await
  enqueueActionWith : ∀ action token,
    d.enqueueActionWith action token >>= await = d'.enqueueActionWith action token >>= await
  enqueueFuncTaskWith : ∀ action token,
    d.enqueueFuncTaskWith action token >>= await = d'.enqueueFuncTaskWith action token >>= await
  enqueueFuncTaskOfWith : ∀ {t} (action : ExceptT E n (Awaited E (Val t))) token,
    d.enqueueFuncTaskOfWith action token >>= await =
      d'.enqueueFuncTaskOfWith action token >>= await

/-- The overloads for delegates that return a task return their own failures in
the task, as `async` methods do. -/
structure ReturnsFailures (d : IDispatcher E n Val Token) : Prop where
  enqueueFuncTask : ∀ action, ReturnsTask (d.enqueueFuncTask action)
  enqueueFuncTaskOf : ∀ {t} (action : ExceptT E n (Awaited E (Val t))),
    ReturnsTask (d.enqueueFuncTaskOf action)
  enqueueFuncTaskWith : ∀ action token, ReturnsTask (d.enqueueFuncTaskWith action token)
  enqueueFuncTaskOfWith : ∀ {t} (action : ExceptT E n (Awaited E (Val t))) token,
    ReturnsTask (d.enqueueFuncTaskOfWith action token)

/-- The stages called one inside the other: all but the last receive a delegate
that returns the task of the next, and the last one the original delegate. -/
def nested (d : IDispatcher E n Val Token) :
    List (IDispatcher E n Val Token) → IDispatcher E n Val Token
  | [] => d
  | e :: rest =>
      { dispatch := fun action => d.dispatch ((nested e rest).dispatch action)
        enqueueAction := fun action => d.enqueueFuncTask ((nested e rest).enqueueAction action)
        enqueueFunc := fun action => d.enqueueFuncTaskOf ((nested e rest).enqueueFunc action)
        enqueueFuncTask := fun action =>
          d.enqueueFuncTask ((nested e rest).enqueueFuncTask action)
        enqueueFuncTaskOf := fun action =>
          d.enqueueFuncTaskOf ((nested e rest).enqueueFuncTaskOf action)
        enqueueFuncWith := fun action token =>
          d.enqueueFuncTaskOfWith ((nested e rest).enqueueFuncWith action token) token
        enqueueActionWith := fun action token =>
          d.enqueueFuncTaskWith ((nested e rest).enqueueActionWith action token) token
        enqueueFuncTaskWith := fun action token =>
          d.enqueueFuncTaskWith ((nested e rest).enqueueFuncTaskWith action token) token
        enqueueFuncTaskOfWith := fun action token =>
          d.enqueueFuncTaskOfWith ((nested e rest).enqueueFuncTaskOfWith action token) token }

theorem AwaitedEq.refl (d : IDispatcher E n Val Token) : AwaitedEq d d := by
  constructor <;> intros <;> rfl

theorem AwaitedEq.trans {d d' d'' : IDispatcher E n Val Token} (h : AwaitedEq d d')
    (h' : AwaitedEq d' d'') : AwaitedEq d d'' where
  dispatch action := (h.dispatch action).trans (h'.dispatch action)
  enqueueAction action := (h.enqueueAction action).trans (h'.enqueueAction action)
  enqueueFunc action := (h.enqueueFunc action).trans (h'.enqueueFunc action)
  enqueueFuncTask action := (h.enqueueFuncTask action).trans (h'.enqueueFuncTask action)
  enqueueFuncTaskOf action := (h.enqueueFuncTaskOf action).trans (h'.enqueueFuncTaskOf action)
  enqueueFuncWith action token :=
    (h.enqueueFuncWith action token).trans (h'.enqueueFuncWith action token)
  enqueueActionWith action token :=
    (h.enqueueActionWith action token).trans (h'.enqueueActionWith action token)
  enqueueFuncTaskWith action token :=
    (h.enqueueFuncTaskWith action token).trans (h'.enqueueFuncTaskWith action token)
  enqueueFuncTaskOfWith action token :=
    (h.enqueueFuncTaskOfWith action token).trans (h'.enqueueFuncTaskOfWith action token)

theorem AwaitedEq.symm {d d' : IDispatcher E n Val Token} (h : AwaitedEq d d') : AwaitedEq d' d where
  dispatch action := (h.dispatch action).symm
  enqueueAction action := (h.enqueueAction action).symm
  enqueueFunc action := (h.enqueueFunc action).symm
  enqueueFuncTask action := (h.enqueueFuncTask action).symm
  enqueueFuncTaskOf action := (h.enqueueFuncTaskOf action).symm
  enqueueFuncWith action token := (h.enqueueFuncWith action token).symm
  enqueueActionWith action token := (h.enqueueActionWith action token).symm
  enqueueFuncTaskWith action token := (h.enqueueFuncTaskWith action token).symm
  enqueueFuncTaskOfWith action token := (h.enqueueFuncTaskOfWith action token).symm

theorem returnsFailures_composed (a b : IDispatcher E n Val Token) :
    ReturnsFailures (composedDispatcher a b) where
  enqueueFuncTask _ := returnsTask_async _
  enqueueFuncTaskOf _ := returnsTask_async _
  enqueueFuncTaskWith _ _ := returnsTask_async _
  enqueueFuncTaskOfWith _ _ := returnsTask_async _

theorem returnsFailures_null : ReturnsFailures (nullDispatcher : IDispatcher E n Val Token) where
  enqueueFuncTask _ := returnsTask_async _
  enqueueFuncTaskOf _ := returnsTask_async _
  enqueueFuncTaskWith _ _ := returnsTask_async _
  enqueueFuncTaskOfWith _ _ := returnsTask_async _

/-- A stage that calls its delegate under a `try` and answers a completed task if
the call throws; a faulted task it hands on. -/
def swallowing : IDispatcher E n Val Token :=
  { nullDispatcher with enqueueFuncTask := fun action => tryCatch action fun _ => pure (.ok ()) }

/-- A stage whose `Enqueue` throws where it should return a faulted task. -/
def throwing (exception : E) : IDispatcher E n Val Token :=
  { nullDispatcher with enqueueFuncTask := fun _ => throw exception }

/-- A composition only awaits what its first stage answers. -/
theorem AwaitedEq.composed {d d' : IDispatcher E n Val Token} (h : AwaitedEq d d')
    (e : IDispatcher E n Val Token) :
    AwaitedEq (composedDispatcher d e) (composedDispatcher d' e) where
  dispatch action := h.dispatch (e.dispatch action)
  enqueueAction action :=
    congrArg (fun body => async body >>= await) (h.enqueueFuncTask (e.enqueueAction action))
  enqueueFunc action :=
    congrArg (fun body => async body >>= await) (h.enqueueFuncTaskOf (e.enqueueFunc action))
  enqueueFuncTask action :=
    congrArg (fun body => async body >>= await) (h.enqueueFuncTask (e.enqueueFuncTask action))
  enqueueFuncTaskOf action :=
    congrArg (fun body => async body >>= await) (h.enqueueFuncTaskOf (e.enqueueFuncTaskOf action))
  enqueueFuncWith action token := congrArg (fun body => async body >>= await)
    (h.enqueueFuncTaskOfWith (e.enqueueFuncWith action token) token)
  enqueueActionWith action token := congrArg (fun body => async body >>= await)
    (h.enqueueFuncTaskWith (e.enqueueActionWith action token) token)
  enqueueFuncTaskWith action token := congrArg (fun body => async body >>= await)
    (h.enqueueFuncTaskWith (e.enqueueFuncTaskWith action token) token)
  enqueueFuncTaskOfWith action token := congrArg (fun body => async body >>= await)
    (h.enqueueFuncTaskOfWith (e.enqueueFuncTaskOfWith action token) token)

theorem AwaitedEq.thenAll {d d' : IDispatcher E n Val Token} (h : AwaitedEq d d')
    (others : List (IDispatcher E n Val Token)) :
    AwaitedEq (thenAll d others) (thenAll d' others) := by
  induction others generalizing d d' with
  | nil => exact h
  | cons e rest ih => exact ih (h.composed e)

variable [LawfulMonad n]

/-- Composing the first two stages beforehand changes nothing to await. -/
theorem nested_composed (d e : IDispatcher E n Val Token) (rest : List (IDispatcher E n Val Token)) :
    AwaitedEq (nested (composedDispatcher d e) rest) (nested d (e :: rest)) := by
  cases rest with
  | nil => constructor <;> intros <;> first | rfl | exact async_await _
  | cons f rest => constructor <;> intros <;> first | rfl | exact async_await _

theorem thenAll_nested (d : IDispatcher E n Val Token) (ds : List (IDispatcher E n Val Token)) :
    AwaitedEq (thenAll d ds) (nested d ds) := by
  induction ds generalizing d with
  | nil => exact .refl d
  | cons e rest ih => exact (ih (composedDispatcher d e)).trans (nested_composed d e rest)

theorem null_composed (d : IDispatcher E n Val Token) :
    AwaitedEq (composedDispatcher nullDispatcher d) d := by
  constructor <;> intros
  · rfl
  all_goals
    refine (async_await _).trans ?_
    exact async_await _

/-- A second stage that returns its failures shows the first one the same task,
alone or composed with the third. -/
theorem nested_inner {a b c : IDispatcher E n Val Token} (hb : ReturnsFailures b) :
    AwaitedEq (nested a [b, c]) (nested a [composedDispatcher b c]) where
  dispatch _ := rfl
  enqueueAction action := by
    have h := (hb.enqueueFuncTask (c.enqueueAction action)).async_await
    exact congrArg (a.enqueueFuncTask · >>= await) h.symm
  enqueueFunc action := by
    have h := (hb.enqueueFuncTaskOf (c.enqueueFunc action)).async_await
    exact congrArg (a.enqueueFuncTaskOf · >>= await) h.symm
  enqueueFuncTask action := by
    have h := (hb.enqueueFuncTask (c.enqueueFuncTask action)).async_await
    exact congrArg (a.enqueueFuncTask · >>= await) h.symm
  enqueueFuncTaskOf action := by
    have h := (hb.enqueueFuncTaskOf (c.enqueueFuncTaskOf action)).async_await
    exact congrArg (a.enqueueFuncTaskOf · >>= await) h.symm
  enqueueFuncWith action token := by
    have h := (hb.enqueueFuncTaskOfWith (c.enqueueFuncWith action token) token).async_await
    exact congrArg (a.enqueueFuncTaskOfWith · token >>= await) h.symm
  enqueueActionWith action token := by
    have h := (hb.enqueueFuncTaskWith (c.enqueueActionWith action token) token).async_await
    exact congrArg (a.enqueueFuncTaskWith · token >>= await) h.symm
  enqueueFuncTaskWith action token := by
    have h := (hb.enqueueFuncTaskWith (c.enqueueFuncTaskWith action token) token).async_await
    exact congrArg (a.enqueueFuncTaskWith · token >>= await) h.symm
  enqueueFuncTaskOfWith action token := by
    have h := (hb.enqueueFuncTaskOfWith (c.enqueueFuncTaskOfWith action token) token).async_await
    exact congrArg (a.enqueueFuncTaskOfWith · token >>= await) h.symm

theorem composed_assoc {a b c : IDispatcher E n Val Token} (hb : ReturnsFailures b) :
    AwaitedEq (composedDispatcher (composedDispatcher a b) c)
      (composedDispatcher a (composedDispatcher b c)) := by
  have hleft : AwaitedEq (composedDispatcher (composedDispatcher a b) c) (nested a [b, c]) :=
    thenAll_nested a [b, c]
  have hright : AwaitedEq (composedDispatcher a (composedDispatcher b c))
      (nested a [composedDispatcher b c]) := nested_composed a (composedDispatcher b c) []
  exact hleft.trans ((nested_inner hb).trans hright.symm)

/-- `Then` folds in list order, has `NullDispatcher` as a left identity, and is
associative over a second stage that returns its failures. -/
theorem then_laws :
    (∀ a b c : IDispatcher E n Val Token, ReturnsFailures b →
      AwaitedEq (composedDispatcher (composedDispatcher a b) c)
        (composedDispatcher a (composedDispatcher b c))) ∧
    (∀ (d : IDispatcher E n Val Token) (ds : List (IDispatcher E n Val Token)),
      AwaitedEq (thenAll d ds) (nested d ds)) ∧
    (∀ d : IDispatcher E n Val Token, AwaitedEq (composedDispatcher nullDispatcher d) d) := by
  refine ⟨?_, ?_, ?_⟩
  · intro a b c hb
    exact composed_assoc hb
  · exact thenAll_nested
  · exact null_composed

/-- The middle stage is itself a composition, which hides that a part of it throws. -/
theorem then_laws_composed :
    ∃ a b c : IDispatcher Unit (StateM ℕ) (fun _ : Unit => ℕ) Unit, ReturnsFailures b ∧
      AwaitedEq (composedDispatcher (composedDispatcher a b) c)
        (composedDispatcher a (composedDispatcher b c)) := by
  have hb : ReturnsFailures (composedDispatcher nullDispatcher (throwing ()) :
      IDispatcher Unit (StateM ℕ) (fun _ : Unit => ℕ) Unit) := returnsFailures_composed _ _
  exact ⟨swallowing, _, nullDispatcher, hb, then_laws.1 _ _ _ hb⟩

/-- The first stage swallows what the second one throws at once, but not the
faulted task of the inner composition. -/
theorem not_assoc_throwing :
    ¬ ∀ a b c : IDispatcher Unit Id (fun _ : Unit => ℕ) Unit,
      AwaitedEq (composedDispatcher (composedDispatcher a b) c)
        (composedDispatcher a (composedDispatcher b c)) := by
  intro h
  have hawaited := (h swallowing (throwing ()) nullDispatcher).enqueueAction (pure ())
  have hrun : (Except.ok () : Except Unit Unit) = Except.error () := hawaited
  cases hrun

end ComposableAsync.Core
