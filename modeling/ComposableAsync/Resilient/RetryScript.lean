import ComposableAsync.Resilient.RetryTurns

/-!
# Scripted calls of the retry dispatchers

The time-out providers, `Task.Delay` as it is documented, and a delegate whose
attempt `i` has the outcome `outcome i`, with one moment at which the token is
cancelled. What is kept of a call is the number of attempts, the attempts and the
requested delays in order, and the exceptions the filter was asked about.

`Task.Delay` accepts the infinite wait, which only a cancelled token ends: a delay
that has not elapsed leaves the loop where it is.
-/
namespace ComposableAsync.Resilient
open Foundations ComposableAsync.Core

/-- An exception, by who threw it: the delegate, the function that computes the waits,
`ThrowIfCancellationRequested`, the task of a cancelled delay, `Task.Delay` at a wait it
does not accept, the access of an array. -/
inductive Thrown (X : Type) where
  | byDelegate (x : X)
  | byWaitProvider (x : X)
  | operationCanceled
  | taskCanceled
  | argumentOutOfRange
  | indexOutOfRange
  deriving DecidableEq, Repr

/-- `TaskCanceledException` is an `OperationCanceledException`. -/
def Thrown.IsOperationCanceled {X : Type} : Thrown X → Prop
  | .operationCanceled | .taskCanceled => True
  | .byDelegate _ | .byWaitProvider _ | .argumentOutOfRange | .indexOutOfRange => False

variable {X R Ty : Type} {Val : Ty → Type}

/-- The classes that implement `ITimeOutProvider`. A `TimeSpan` is a number of 100 ns
ticks. -/
inductive TimeOutProvider (X : Type) where
  | single (timeSpan : ℤ)
  | array (timeSpans : List ℤ)
  | function (provider : Int32 → Except X ℤ)

/-- `_TimeSpans[index]`. -/
def timeSpanAt (timeSpans : List ℤ) (index : ℤ) : Except (Thrown X) ℤ :=
  if index < 0 then .error .indexOutOfRange
  else
    match timeSpans[index.toNat]? with
    | some timeSpan => .ok timeSpan
    | none => .error .indexOutOfRange

namespace TimeOutProvider

def getTimeOutForRetry : TimeOutProvider X → Int32 → Except (Thrown X) ℤ
  | .single timeSpan, _ => .ok timeSpan
  | .array timeSpans, retryNumber =>
      let length : ℤ := timeSpans.length - 1
      if retryNumber.toInt > length then timeSpanAt timeSpans length
      else timeSpanAt timeSpans retryNumber.toInt
  | .function provider, retryNumber => (provider (retryNumber + 1)).mapError .byWaitProvider

/-- The wait after attempt `i`, the attempts counted from zero. -/
def wait : TimeOutProvider X → ℕ → Except (Thrown X) ℤ
  | .single timeSpan, _ => .ok timeSpan
  | .array timeSpans, i =>
      match timeSpans[min i (timeSpans.length - 1)]? with
      | some timeSpan => .ok timeSpan
      | none => .error .indexOutOfRange
  | .function provider, i => (provider (.ofNat (i + 1))).mapError .byWaitProvider

theorem getTimeOutForRetry_ofNat (p : TimeOutProvider X) {i : ℕ} (hi : i < 2 ^ 31) :
    p.getTimeOutForRetry (.ofNat i) = p.wait i := by
  cases p with
  | single timeSpan => rfl
  | function provider =>
      have hone : (1 : Int32) = .ofNat 1 := rfl
      rw [getTimeOutForRetry, wait, hone, ← Int32.ofNat_add]
  | array timeSpans =>
      rw [getTimeOutForRetry, wait, Int32.toInt_ofNat_of_lt hi]
      cases hlength : timeSpans.length with
      | zero =>
          obtain rfl := List.length_eq_zero_iff.mp hlength
          simp only [timeSpanAt]
          split <;> rfl
      | succ n =>
          by_cases hlast : (i : ℤ) > n
          · have hmin : min i (n + 1 - 1) = n := by omega
            have hlen : ((n + 1 : ℕ) : ℤ) - 1 = n := by omega
            simp only [hlen, hlast, if_true, hmin, timeSpanAt]
            rw [if_neg (by omega)]
            rfl
          · have hmin : min i (n + 1 - 1) = i := by omega
            have hlen : ((n + 1 : ℕ) : ℤ) - 1 = n := by omega
            simp only [hlen, hlast, if_false, hmin, timeSpanAt]
            rw [if_neg (by omega)]
            rfl

end TimeOutProvider

/-- `(long)delay.TotalMilliseconds`. -/
def milliseconds (wait : ℤ) : ℤ := wait.tdiv 10000

/-- The waits that `Task.Delay` accepts: up to `Int32.MaxValue` milliseconds, or
`Timeout.Infinite`. -/
def DelayAccepts (wait : ℤ) : Prop :=
  -1 ≤ milliseconds wait ∧ milliseconds wait ≤ Int32.maxValue.toInt

instance (wait : ℤ) : Decidable (DelayAccepts wait) := inferInstanceAs (Decidable (_ ∧ _))

/-- `Timeout.InfiniteTimeSpan`. -/
def IsInfinite (wait : ℤ) : Prop := milliseconds wait = -1

instance (wait : ℤ) : Decidable (IsInfinite wait) := inferInstanceAs (Decidable (_ = _))

/-- When the token is cancelled: before the call, during an attempt, or during the
delay after it. -/
inductive Moment where
  | beforeCall
  | attempt (i : ℕ)
  | delay (i : ℕ)
  deriving DecidableEq, Repr

/-- `throws` tells which failures a delegate that returns a task throws before there
is one. -/
structure Script (X R : Type) where
  outcome : ℕ → Except X R
  throws : ℕ → Bool := fun _ => false
  cancelled : Option Moment := none

inductive RetryEvent where
  | attempt
  | delay (wait : ℤ)
  deriving DecidableEq, Repr

/-- What has happened in a call. -/
structure CallRecord (X : Type) where
  attempts : ℕ := 0
  trace : List RetryEvent := []
  consulted : List (Thrown X) := []
  isCancellationRequested : Bool := false
  deriving DecidableEq, Repr

namespace Script
variable (script : Script X R)

def start : CallRecord X := { isCancellationRequested := script.cancelled == some .beforeCall }

/-- The delegate runs. -/
def attempt : Comp (Thrown X) (CallRecord X) R := fun c =>
  ((script.outcome c.attempts).mapError .byDelegate,
    { c with
      attempts := c.attempts + 1
      trace := c.trace ++ [.attempt]
      isCancellationRequested :=
        c.isCancellationRequested || script.cancelled == some (.attempt c.attempts) })

/-- The delegate, where it returns a task. -/
def task : Comp (Thrown X) (CallRecord X) (Awaited (Thrown X) R) := fun c =>
  (if script.throws c.attempts then (script.attempt c).1.map .ok else .ok (script.attempt c).1,
    (script.attempt c).2)

def delegate : (o : Overload Ty) → Script X (o.Result Val) →
    o.Delegate (Thrown X) (CallRecord X) Val
  | .func _, script => script.attempt
  | .action, script => script.attempt
  | .funcTask, script => script.task
  | .funcTaskOf _, script => script.task

end Script

def throwIfCancellationRequested : Comp (Thrown X) (CallRecord X) Unit := fun c =>
  (if c.isCancellationRequested then .error .operationCanceled else .ok (), c)

def consult (isFiltered : Thrown X → Bool) (exception : Thrown X) :
    Comp (Thrown X) (CallRecord X) Bool := fun c =>
  (.ok (isFiltered exception), { c with consulted := c.consulted ++ [exception] })

/-- The call of `Task.Delay`. -/
def taskDelay (wait : ℤ) : Comp (Thrown X) (CallRecord X) Unit := fun c =>
  (if ¬ DelayAccepts wait then .error .argumentOutOfRange
    else if c.isCancellationRequested then .error .taskCanceled else .ok (),
    { c with trace := c.trace ++ [.delay wait] })

/-- Whether the task of the delay after the last attempt has completed. One of no
milliseconds is complete from the start. -/
def Script.delayCompleted (script : Script X R) (wait : ℤ) : Comp (Thrown X) (CallRecord X) Bool :=
  fun c =>
    let c := { c with
      isCancellationRequested :=
        c.isCancellationRequested || script.cancelled == some (.delay (c.attempts - 1)) }
    (if milliseconds wait = 0 then .ok true
      else if c.isCancellationRequested then .error .taskCanceled
      else .ok (decide (¬ IsInfinite wait)), c)

/-- What `RetryDispatcher` is made with. -/
def retrying (isFiltered : Thrown X → Bool) (maxRetry : Int32) :
    Retrying (Thrown X) (CallRecord X) where
  throwIfCancellationRequested := throwIfCancellationRequested
  isFiltered := consult isFiltered
  maxRetry := maxRetry

/-- What `RetryDispatcherAsync` is made with. -/
def waiting (isFiltered : Thrown X → Bool) (provider : TimeOutProvider X) (maxRetry : Int32)
    (script : Script X R) : Waiting (Thrown X) (CallRecord X) where
  toRetrying := retrying isFiltered maxRetry
  getTimeOutForRetry count := fun c => (provider.getTimeOutForRetry count, c)
  delay := taskDelay
  isCompleted := script.delayCompleted

/-- What a caller who awaits `Enqueue` sees after some turns, and what has happened:
`none` is a call that is not over. -/
def RetryDispatcher.run (isFiltered : Thrown X → Bool) (maxRetry : Int32) (o : Overload Ty)
    (script : Script X (o.Result Val)) (turns : ℕ) :
    Except (Thrown X) (Option (o.Result Val)) × CallRecord X :=
  awaited (enqueue (retrying isFiltered maxRetry) o (script.delegate o) turns) script.start

def RetryDispatcherAsync.run (isFiltered : Thrown X → Bool) (provider : TimeOutProvider X)
    (maxRetry : Int32) (o : Overload Ty) (script : Script X (o.Result Val)) (turns : ℕ) :
    Except (Thrown X) (Option (o.Result Val)) × CallRecord X :=
  awaited (enqueue (waiting isFiltered provider maxRetry script) o (script.delegate o) turns)
    script.start

theorem Script.task_await (script : Script X R) :
    (do await (← script.task) : Comp (Thrown X) (CallRecord X) R) = script.attempt := by
  funext c
  have htask : script.task c =
      (if script.throws c.attempts then (script.attempt c).1.map .ok else .ok (script.attempt c).1,
        (script.attempt c).2) := rfl
  cases hthrows : script.throws c.attempts with
  | false =>
      rw [hthrows, if_neg Bool.false_ne_true] at htask
      rw [Comp.bind_of_ok htask]
      rfl
  | true =>
      rw [hthrows, if_pos rfl] at htask
      cases houtcome : (script.attempt c).1 with
      | ok value =>
          rw [houtcome] at htask
          rw [Comp.bind_of_ok htask]
          exact Prod.ext houtcome.symm rfl
      | error exception =>
          rw [houtcome] at htask
          rw [Comp.bind_of_error htask]
          exact Prod.ext houtcome.symm rfl

theorem Script.attempt_delegate (o : Overload Ty) (script : Script X (o.Result Val)) :
    o.attempt (script.delegate o) = script.attempt := by
  cases o with
  | func t | action => rfl
  | funcTask | funcTaskOf t => exact script.task_await

variable {isFiltered : Thrown X → Bool} {provider : TimeOutProvider X} {maxRetry : Int32}
  {o : Overload Ty} {script : Script X (o.Result Val)} {turns : ℕ}

theorem RetryDispatcherAsync.run_eq : run isFiltered provider maxRetry o script turns =
    (Turn.answer <$> Comp.loop (turn (waiting isFiltered provider maxRetry script) script.attempt)
      turns (.whileTrue 0)) script.start := by
  rw [run, awaited_enqueue, Script.attempt_delegate]

theorem RetryDispatcherAsync.run_single_zero :
    run isFiltered (.single 0) maxRetry o script turns =
      RetryDispatcher.run isFiltered maxRetry o script turns := by
  have hnone : ∀ count, (waiting isFiltered (.single 0) maxRetry script).getTimeOutForRetry count =
      pure 0 := fun _ => rfl
  exact congrFun (awaited_enqueue_of_no_wait hnone o (script.delegate o) turns) script.start

end ComposableAsync.Resilient
