import ComposableAsync.Foundations.Loop
import ComposableAsync.Resilient.CircuitBreakerDispatcher
import ComposableAsync.Resilient.RetryDispatcher
import Mathlib.Algebra.Group.Nat.Defs

/-!
# The retry dispatchers, turn by turn

`RetryDispatcher` and `RetryDispatcherAsync` as two loops of their own, with the
filter, the waits and the delays as calls that may do anything: the one increments
its counter inside `ShouldRethrow`, the other when it asks for a wait. A delay that
has not elapsed is a place where the loop of `RetryDispatcherAsync` stands, so that a
call may stay there for ever.

A call is observed after some turns: the task it returned is complete or not, and a
synchronous call has returned or not. Where every delay elapses the loops are those of
the total model, and end within 2 ^ 32 turns.
-/
namespace ComposableAsync.Resilient
open Foundations ComposableAsync.Core

variable {E S R σ : Type}

/-- What both loops use: the token, the filter, and `_MaxRetry`. -/
structure Retrying (E S : Type) where
  throwIfCancellationRequested : Comp E S Unit
  isFiltered : E → Comp E S Bool
  maxRetry : Int32

/-- What the loop of `RetryDispatcherAsync` uses besides: `delay` is the call of
`Task.Delay`, `isCompleted` tells whether its task has completed. -/
structure Waiting (E S : Type) extends Retrying E S where
  getTimeOutForRetry : Int32 → Comp E S ℤ
  delay : ℤ → Comp E S Unit
  isCompleted : ℤ → Comp E S Bool

namespace RetryDispatcher

/-- `ShouldRethrow(ref count, exception)`. -/
def shouldRethrow (d : Retrying E S) (count : Int32) (exception : E) : Comp E S (Bool × Int32) :=
  if count = d.maxRetry then return (true, count + 1)
  else return (← d.isFiltered exception, count + 1)

/-- One turn of `while (true)`. The token is looked at outside the `try`. -/
def turn (d : Retrying E S) (attempt : Comp E S R) (count : Int32) : Comp E S (Turn R Int32) := do
  d.throwIfCancellationRequested
  tryCatch (do return .done (← attempt)) fun exception => do
    let (rethrow, count) ← shouldRethrow d count exception
    if rethrow then throw exception
    return .again count

end RetryDispatcher

namespace RetryDispatcherAsync

/-- Where the loop stands between two turns. -/
inductive Place where
  | whileTrue (count : Int32)
  | awaiting (wait : ℤ) (count : Int32)
  deriving DecidableEq, Repr

def shouldRethrow (d : Waiting E S) (count : Int32) (exception : E) : Comp E S Bool :=
  if count = d.maxRetry then return true else d.isFiltered exception

/-- `WaitIfNeeded(count++, ...)` up to its `await`. -/
def waitIfNeeded (d : Waiting E S) (count : Int32) : Comp E S Place := do
  let wait ← d.getTimeOutForRetry count
  if wait = 0 then return .whileTrue (count + 1)
  d.delay wait
  return .awaiting wait (count + 1)

/-- One turn of `while (true)`, or one look at the delay it awaits. -/
def turn (d : Waiting E S) (attempt : Comp E S R) : Place → Comp E S (Turn R Place)
  | .whileTrue count => do
      d.throwIfCancellationRequested
      tryCatch (do return .done (← attempt)) fun exception => do
        if ← shouldRethrow d count exception then throw exception
        return .again (← waitIfNeeded d count)
  | .awaiting wait count => do
      if ← d.isCompleted wait then return .again (.whileTrue count)
      return .again (.awaiting wait count)

end RetryDispatcherAsync

/-- An `async` method: the task it returned, once it is complete. -/
def asyncLoop (turn : σ → Comp E S (Turn R σ)) (turns : ℕ) (x : σ) :
    Comp E S (Option (Awaited E R)) :=
  fun s =>
    match Comp.loop turn turns x s with
    | (.ok (.done value), t) => (.ok (some (.ok value)), t)
    | (.ok (.again _), t) => (.ok none, t)
    | (.error e, t) => (.ok (some (.error e)), t)

/-- A method that throws, or returns a completed task in the end. -/
def syncLoop (turn : σ → Comp E S (Turn R σ)) (turns : ℕ) (x : σ) :
    Comp E S (Option (Awaited E R)) := do
  match ← Comp.loop turn turns x with
  | .done value => return some (.ok value)
  | .again _ => return none

/-- What a caller who awaits the call sees of it. -/
def awaited (call : Comp E S (Option (Awaited E R))) : Comp E S (Option R) := do
  match ← call with
  | none => return none
  | some task => return some (← await task)

section Awaited
variable {turn : σ → Comp E S (Turn R σ)} {turns : ℕ} {x : σ}

/-- Awaited, a failure is the same whether it was thrown or is in the task. -/
theorem awaited_asyncLoop :
    awaited (asyncLoop turn turns x) = Turn.answer <$> Comp.loop turn turns x := by
  funext s
  cases h : Comp.loop turn turns x s with
  | mk answer t =>
      cases answer with
      | error e =>
          have hasync : asyncLoop turn turns x s = (.ok (some (.error e)), t) := by
            simp only [asyncLoop, h]
          rw [awaited, Comp.bind_of_ok hasync, map_eq_pure_bind, Comp.bind_of_error h]
          rfl
      | ok place =>
          have hasync : asyncLoop turn turns x s = (.ok (place.answer.map .ok), t) := by
            cases place <;> simp only [asyncLoop, h] <;> rfl
          rw [awaited, Comp.bind_of_ok hasync, map_eq_pure_bind, Comp.bind_of_ok h]
          cases place <;> rfl

theorem awaited_syncLoop :
    awaited (syncLoop turn turns x) = Turn.answer <$> Comp.loop turn turns x := by
  rw [awaited, syncLoop, map_eq_pure_bind, bind_assoc]
  refine bind_congr fun place => ?_
  cases place <;> rfl

end Awaited

section Overloads
variable {Ty : Type} {Val : Ty → Type}

/-- The delegate an overload takes. -/
abbrev Overload.Delegate (E S : Type) (Val : Ty → Type) : Overload Ty → Type
  | .func t => Comp E S (Val t)
  | .action => Comp E S Unit
  | .funcTask => Comp E S (Awaited E Unit)
  | .funcTaskOf t => Comp E S (Awaited E (Val t))

/-- What stands in the `try`: the call of the delegate, awaited if it returns a task. -/
def Overload.attempt : (o : Overload Ty) → o.Delegate E S Val → Comp E S (o.Result Val)
  | .func _ => fun action => action
  | .action => fun action => action
  | .funcTask => fun action => do await (← action)
  | .funcTaskOf _ => fun action => do await (← action)

/-- `RetryDispatcher.Enqueue`. The overloads for synchronous delegates are not `async`. -/
def RetryDispatcher.enqueue (d : Retrying E S) (o : Overload Ty) (action : o.Delegate E S Val)
    (turns : ℕ) : Comp E S (Option (Awaited E (o.Result Val))) :=
  match o with
  | .func _ => syncLoop (turn d action) turns 0
  | .action => syncLoop (turn d action) turns 0
  | .funcTask => asyncLoop (turn d do await (← action)) turns 0
  | .funcTaskOf _ => asyncLoop (turn d do await (← action)) turns 0

/-- `RetryDispatcherAsync.Enqueue`; every overload is `async`. -/
def RetryDispatcherAsync.enqueue (d : Waiting E S) (o : Overload Ty) (action : o.Delegate E S Val)
    (turns : ℕ) : Comp E S (Option (Awaited E (o.Result Val))) :=
  match o with
  | .func _ => asyncLoop (turn d action) turns (.whileTrue 0)
  | .action => asyncLoop (turn d action) turns (.whileTrue 0)
  | .funcTask => asyncLoop (turn d do await (← action)) turns (.whileTrue 0)
  | .funcTaskOf _ => asyncLoop (turn d do await (← action)) turns (.whileTrue 0)

variable {o : Overload Ty} {action : o.Delegate E S Val} {turns : ℕ}

/-- Awaited, the four overloads are one loop. -/
theorem RetryDispatcher.awaited_enqueue (d : Retrying E S) :
    awaited (enqueue d o action turns) =
      Turn.answer <$> Comp.loop (turn d (o.attempt action)) turns 0 := by
  cases o with
  | func t | action => exact awaited_syncLoop
  | funcTask | funcTaskOf t => exact awaited_asyncLoop

theorem RetryDispatcherAsync.awaited_enqueue (d : Waiting E S) :
    awaited (enqueue d o action turns) =
      Turn.answer <$> Comp.loop (turn d (o.attempt action)) turns (.whileTrue 0) := by
  cases o with
  | func t | action | funcTask | funcTaskOf t => exact awaited_asyncLoop

end Overloads

namespace RetryDispatcherAsync
section Turns
variable {d : Waiting E S} {attempt : Comp E S R} {count : Int32} {s t u v : S} {value : R}
  {exception e : E} {place : Place}

theorem turn_of_cancelled (h : d.throwIfCancellationRequested s = (.error e, t)) :
    turn d attempt (.whileTrue count) s = (.error e, t) := by
  rw [turn, Comp.bind_of_error h]

variable (hthrow : d.throwIfCancellationRequested s = (.ok (), t))

include hthrow

theorem turn_of_ok (h : attempt t = (.ok value, u)) :
    turn d attempt (.whileTrue count) s = (.ok (.done value), u) := by
  rw [turn, Comp.bind_of_ok hthrow]
  exact Comp.tryCatch_of_ok (Comp.bind_of_ok h)

theorem turn_of_error (h : attempt t = (.error exception, u)) :
    turn d attempt (.whileTrue count) s = (do
      if ← shouldRethrow d count exception then throw exception
      return .again (← waitIfNeeded d count) : Comp E S (Turn R Place)) u := by
  rw [turn, Comp.bind_of_ok hthrow]
  exact Comp.tryCatch_of_error (Comp.bind_of_error h)

theorem turn_of_maxRetry (hcount : count = d.maxRetry) (h : attempt t = (.error exception, u)) :
    turn d attempt (.whileTrue count) s = (.error exception, u) := by
  rw [turn_of_error hthrow h, shouldRethrow, if_pos hcount]
  rfl

variable (hcount : count ≠ d.maxRetry) (h : attempt t = (.error exception, u))

include hcount h

theorem turn_of_filter {rethrow : Bool} (hfilter : d.isFiltered exception u = (.ok rethrow, v)) :
    turn d attempt (.whileTrue count) s =
      if rethrow then (.error exception, v)
      else ((do return .again (← waitIfNeeded d count)) : Comp E S (Turn R Place)) v := by
  have hrethrow : shouldRethrow d count exception u = (.ok rethrow, v) := by
    rw [shouldRethrow, if_neg hcount]
    exact hfilter
  rw [turn_of_error hthrow h, Comp.bind_of_ok hrethrow]
  cases rethrow <;> rfl

theorem turn_of_filtered (hfilter : d.isFiltered exception u = (.ok true, v)) :
    turn d attempt (.whileTrue count) s = (.error exception, v) :=
  turn_of_filter hthrow hcount h hfilter

theorem turn_of_retry (hfilter : d.isFiltered exception u = (.ok false, v)) {w : S}
    (hwait : waitIfNeeded d count v = (.ok place, w)) :
    turn d attempt (.whileTrue count) s = (.ok (.again place), w) := by
  rw [turn_of_filter hthrow hcount h hfilter]
  exact Comp.bind_of_ok hwait

theorem turn_of_wait_throws (hfilter : d.isFiltered exception u = (.ok false, v)) {w : S}
    (hwait : waitIfNeeded d count v = (.error e, w)) :
    turn d attempt (.whileTrue count) s = (.error e, w) := by
  rw [turn_of_filter hthrow hcount h hfilter]
  exact Comp.bind_of_error hwait

end Turns

section Waits
variable {d : Waiting E S} {attempt : Comp E S R} {count : Int32} {wait : ℤ} {s t u : S} {e : E}

theorem waitIfNeeded_of_throws (h : d.getTimeOutForRetry count s = (.error e, t)) :
    waitIfNeeded d count s = (.error e, t) := by
  rw [waitIfNeeded, Comp.bind_of_error h]

theorem waitIfNeeded_of_zero (h : d.getTimeOutForRetry count s = (.ok 0, t)) :
    waitIfNeeded d count s = (.ok (.whileTrue (count + 1)), t) := by
  rw [waitIfNeeded, Comp.bind_of_ok h, if_pos rfl]
  rfl

variable (h : d.getTimeOutForRetry count s = (.ok wait, t)) (hwait : wait ≠ 0)

include h hwait

theorem waitIfNeeded_of_delay (hdelay : d.delay wait t = (.ok (), u)) :
    waitIfNeeded d count s = (.ok (.awaiting wait (count + 1)), u) := by
  rw [waitIfNeeded, Comp.bind_of_ok h, if_neg hwait]
  exact Comp.bind_of_ok hdelay

theorem waitIfNeeded_of_delay_throws (hdelay : d.delay wait t = (.error e, u)) :
    waitIfNeeded d count s = (.error e, u) := by
  rw [waitIfNeeded, Comp.bind_of_ok h, if_neg hwait]
  exact Comp.bind_of_error hdelay

end Waits

theorem turn_of_completed {d : Waiting E S} {attempt : Comp E S R} {count : Int32} {wait : ℤ}
    {completed : Bool} {s t : S} (h : d.isCompleted wait s = (.ok completed, t)) :
    turn d attempt (.awaiting wait count) s =
      (.ok (.again (if completed then .whileTrue count else .awaiting wait count)), t) := by
  rw [turn, Comp.bind_of_ok h]
  cases completed <;> rfl

theorem turn_of_delay_cancelled {d : Waiting E S} {attempt : Comp E S R} {count : Int32}
    {wait : ℤ} {s t : S} {e : E} (h : d.isCompleted wait s = (.error e, t)) :
    turn d attempt (.awaiting wait count) s = (.error e, t) := by
  rw [turn, Comp.bind_of_error h]

end RetryDispatcherAsync

namespace RetryDispatcherAsync

/-- The counters differ in where they are incremented, not in what they are compared
with, whatever `_MaxRetry` is and however often they have gone round. -/
theorem turn_of_no_wait {d : Waiting E S} (h : ∀ count, d.getTimeOutForRetry count = pure 0)
    (attempt : Comp E S R) (count : Int32) :
    turn d attempt (.whileTrue count) =
      Turn.map .whileTrue <$> RetryDispatcher.turn d.toRetrying attempt count := by
  have hwait : waitIfNeeded d count = pure (.whileTrue (count + 1)) := by
    rw [waitIfNeeded, h, pure_bind, if_pos rfl]
  rw [turn, RetryDispatcher.turn, map_bind]
  refine bind_congr fun _ => ?_
  rw [Comp.map_tryCatch]
  simp only [map_bind, map_pure, Turn.map, hwait, pure_bind]
  refine congrArg (tryCatch _) (funext fun exception => ?_)
  unfold shouldRethrow RetryDispatcher.shouldRethrow
  by_cases hcount : count = d.maxRetry
  · simp only [if_pos hcount, pure_bind, if_true]
    rfl
  · simp only [if_neg hcount, bind_assoc, pure_bind]
    refine bind_congr fun rethrow => ?_
    cases rethrow <;> rfl

end RetryDispatcherAsync

/-- The two dispatchers cannot be told apart when there is nothing to wait for. -/
theorem awaited_enqueue_of_no_wait {Ty : Type} {Val : Ty → Type} {d : Waiting E S}
    (h : ∀ count, d.getTimeOutForRetry count = pure 0) (o : Overload Ty)
    (action : o.Delegate E S Val) (turns : ℕ) :
    awaited (RetryDispatcherAsync.enqueue d o action turns) =
      awaited (RetryDispatcher.enqueue d.toRetrying o action turns) := by
  rw [RetryDispatcherAsync.awaited_enqueue, RetryDispatcher.awaited_enqueue,
    Comp.loop_map RetryDispatcherAsync.Place.whileTrue
      (RetryDispatcherAsync.turn_of_no_wait h (o.attempt action)), ← comp_map]
  refine map_congr fun place => ?_
  cases place <;> rfl

/-- Where every delay elapses, the loop is the one of the total model: two turns for
each increment left are enough. -/
theorem RetryDispatcherAsync.loop_eq_retryFrom {d : Waiting E S} {isFiltered : E → Bool}
    (hfilter : ∀ e, d.isFiltered e = pure (isFiltered e))
    (hcompleted : ∀ wait, d.isCompleted wait = pure true) (attempt : Comp E S R) {turns : ℕ}
    {count : Int32} (hturns : 2 * (d.maxRetry - count).toBitVec.toNat < turns) :
    Comp.loop (turn d attempt) turns (.whileTrue count) =
      Turn.done <$> retryFrom d.throwIfCancellationRequested isFiltered
        (fun count => do
          let wait ← d.getTimeOutForRetry count
          if wait = 0 then return ()
          d.delay wait) d.maxRetry attempt count := by
  induction turns using Nat.strong_induction_on generalizing count with
  | h turns ih =>
  obtain ⟨turns, rfl⟩ : ∃ more, turns = more + 1 := ⟨turns - 1, by omega⟩
  rw [retryFrom_eq, Comp.loop, turn, map_bind, bind_assoc]
  refine bind_congr fun _ => ?_
  rw [Comp.map_tryCatch, bind_pure_comp]
  rw [Comp.tryCatch_bind (by intro value; rfl)]
  refine congrArg (tryCatch _) (funext fun exception => ?_)
  unfold shouldRethrow
  by_cases hcount : count = d.maxRetry
  · rw [if_pos hcount, if_pos (.inl hcount)]
    rfl
  rw [if_neg hcount, hfilter]
  cases hf : isFiltered exception with
  | true =>
      rw [if_pos (.inr rfl)]
      rfl
  | false =>
      have hleft := left_succ hcount
      rw [if_neg (by simp [hcount])]
      simp only [waitIfNeeded, pure_bind, Bool.false_eq_true, if_false, bind_assoc, map_bind]
      refine bind_congr fun wait => ?_
      by_cases hzero : wait = 0
      · simp only [if_pos hzero, pure_bind]
        exact ih turns (by omega) (by omega)
      · simp only [if_neg hzero, bind_assoc, pure_bind]
        refine bind_congr fun _ => ?_
        -- The delay has elapsed at the first look.
        obtain ⟨turns, rfl⟩ : ∃ more, turns = more + 1 := ⟨turns - 1, by omega⟩
        rw [Comp.loop, turn, hcompleted, pure_bind, if_pos rfl, pure_bind]
        exact ih turns (by omega) (by omega)

section Total
variable {ι α W Token Ty : Type} {Val : Ty → Type} (env : Environment E W Token)

/-- The overloads of an `IBasicDispatcher`. -/
def IBasicDispatcher.enqueue (d : IBasicDispatcher E (StateM S) Val Token) (o : Overload Ty)
    (action : o.Delegate E S Val) (token : Token) : Comp E S (Awaited E (o.Result Val)) :=
  match o with
  | .func _ => d.enqueueFunc action token
  | .action => d.enqueueAction action token
  | .funcTask => d.enqueueFuncTask action token
  | .funcTaskOf _ => d.enqueueFuncTaskOf action token

/-- A runtime in which every delay elapses, and a filter without effects. -/
def Environment.waiting (isFiltered : E → Bool) (getTimeOutForRetry : Int32 → Comp E W ℤ)
    (maxRetry : Int32) (token : Token) : Waiting E (Memory ι α W) where
  throwIfCancellationRequested := onOutside (env.throwIfCancellationRequested token)
  isFiltered exception := pure (isFiltered exception)
  maxRetry := maxRetry
  getTimeOutForRetry count := onOutside (getTimeOutForRetry count)
  delay wait := onOutside (env.delay wait token)
  isCompleted _ := pure true

variable {isFiltered : E → Bool} {getTimeOutForRetry : Int32 → Comp E W ℤ} {maxRetry : Int32}
  {token : Token} {o : Overload Ty} {action : o.Delegate E (Memory ι α W) Val} {turns : ℕ}

theorem RetryDispatcherAsync.awaited_enqueue_total (hturns : 2 ^ 33 < turns) :
    awaited (enqueue (env.waiting isFiltered getTimeOutForRetry maxRetry token) o action turns) =
      some <$> (IBasicDispatcher.enqueue
        (retryDispatcherAsync env isFiltered getTimeOutForRetry maxRetry) o action token >>= await) := by
  let d : Waiting E (Memory ι α W) := env.waiting isFiltered getTimeOutForRetry maxRetry token
  have hfilter : ∀ e, d.isFiltered e = pure (isFiltered e) := fun _ => rfl
  have hwait : (fun count => (do
      let wait ← d.getTimeOutForRetry count
      if wait = 0 then return ()
      d.delay wait : Comp E (Memory ι α W) Unit)) =
        fun count => onOutside (do
          let wait ← getTimeOutForRetry count
          if wait = 0 then return ()
          env.delay wait token) := by
    funext count
    rw [onOutside_bind]
    refine bind_congr fun wait => ?_
    split <;> rfl
  have hleft := (d.maxRetry - 0).toBitVec.isLt
  have hloop : Comp.loop (turn d (o.attempt action)) turns (.whileTrue 0) =
      Turn.done <$> retryAsync env isFiltered getTimeOutForRetry maxRetry token
        (o.attempt action) := by
    rw [loop_eq_retryFrom hfilter (fun _ => rfl) (o.attempt action) (by omega), hwait]
    rfl
  rw [awaited_enqueue, hloop, ← comp_map]
  cases o with
  | func t | action | funcTask | funcTaskOf t =>
      simp only [IBasicDispatcher.enqueue, retryDispatcherAsync, async_await]
      rfl

theorem RetryDispatcher.awaited_enqueue_total (hturns : 2 ^ 33 < turns) :
    awaited (enqueue (env.waiting isFiltered getTimeOutForRetry maxRetry token).toRetrying
        o action turns) =
      some <$> (IBasicDispatcher.enqueue (retryDispatcher env isFiltered maxRetry) o action token >>=
        await) := by
  let d : Waiting E (Memory ι α W) := env.waiting isFiltered (fun _ => pure 0) maxRetry token
  have hnone : ∀ count, d.getTimeOutForRetry count = pure 0 := fun _ => rfl
  have htotal : awaited (RetryDispatcherAsync.enqueue d o action turns) = _ :=
    RetryDispatcherAsync.awaited_enqueue_total env hturns
  rw [awaited_enqueue_of_no_wait hnone] at htotal
  refine htotal.trans ?_
  cases o with
  | func t | action =>
      simp only [IBasicDispatcher.enqueue, retryDispatcherAsync, retryDispatcher, async_await,
        fromResult_await]
      rfl
  | funcTask | funcTaskOf t =>
      simp only [IBasicDispatcher.enqueue, retryDispatcherAsync, retryDispatcher, async_await]
      rfl

end Total

end ComposableAsync.Resilient
