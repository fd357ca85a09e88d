import ComposableAsync.Core.Dispatcher
import ComposableAsync.Foundations.Footprint
import Mathlib.Data.Int.Order.Basic

/-!
# The retry dispatchers

`RetryDispatcher` and `RetryDispatcherAsync` run their delegate in a loop that is
left by a return or by `ShouldRethrow`. They differ in what they do between two
attempts. The counter is a 32-bit integer that wraps, so the loop ends for every
`_MaxRetry`: at a negative one after the counter has gone round.
-/
namespace ComposableAsync.Resilient
open Foundations ComposableAsync.Core

variable {E S R : Type}

/-- The loop with `left` increments of the counter to go until it is `_MaxRetry`.
The token is checked outside the `try`. -/
def retryLoop (throwIfCancellationRequested : Comp E S Unit) (isFiltered : E → Bool)
    (waitIfNeeded : Int32 → Comp E S Unit) (attempt : Comp E S R) : ℕ → Int32 → Comp E S R
  | 0, _ => do
      throwIfCancellationRequested
      attempt
  | left + 1, count => do
      throwIfCancellationRequested
      tryCatch attempt fun exception =>
        if isFiltered exception then throw exception
        else do
          waitIfNeeded count
          retryLoop throwIfCancellationRequested isFiltered waitIfNeeded attempt left (count + 1)

/-- The loop from a value of the counter. -/
def retryFrom (throwIfCancellationRequested : Comp E S Unit) (isFiltered : E → Bool)
    (waitIfNeeded : Int32 → Comp E S Unit) (maxRetry : Int32) (attempt : Comp E S R)
    (count : Int32) : Comp E S R :=
  retryLoop throwIfCancellationRequested isFiltered waitIfNeeded attempt
    (maxRetry - count).toBitVec.toNat count

theorem left_eq_zero {maxRetry count : Int32} :
    (maxRetry - count).toBitVec.toNat = 0 ↔ count = maxRetry := by
  rw [← Int32.toBitVec_inj]
  simp only [Int32.toBitVec_sub]
  bv_omega

theorem left_succ {maxRetry count : Int32} (h : count ≠ maxRetry) :
    (maxRetry - count).toBitVec.toNat = (maxRetry - (count + 1)).toBitVec.toNat + 1 := by
  have hne : count.toBitVec ≠ maxRetry.toBitVec := fun he => h (Int32.toBitVec_inj.mp he)
  have hone : (1 : Int32).toBitVec = 1#32 := rfl
  simp only [Int32.toBitVec_sub, Int32.toBitVec_add, hone]
  bv_omega

variable {throwIfCancellationRequested : Comp E S Unit} {isFiltered : E → Bool}
  {waitIfNeeded : Int32 → Comp E S Unit} {maxRetry : Int32} {attempt : Comp E S R}

theorem retryFrom_eq (count : Int32) :
    retryFrom throwIfCancellationRequested isFiltered waitIfNeeded maxRetry attempt count = (do
      throwIfCancellationRequested
      tryCatch attempt fun exception =>
        if count = maxRetry ∨ isFiltered exception then throw exception
        else do
          waitIfNeeded count
          retryFrom throwIfCancellationRequested isFiltered waitIfNeeded maxRetry attempt
            (count + 1)) := by
  by_cases hcount : count = maxRetry
  · have hleft := left_eq_zero.mpr hcount
    rw [retryFrom, hleft]
    simp only [retryLoop, hcount, true_or, if_true]
    rw [Comp.tryCatch_throw]
  · have hleft := left_succ hcount
    simp only [retryFrom, hleft, retryLoop, hcount, false_or]

section Runs
variable {left : ℕ} {count : Int32} {s t : S} {value : R} {exception : E}
  (hthrow : ∀ s, throwIfCancellationRequested s = (.ok (), s))

include hthrow

theorem retryLoop_of_ok (h : attempt s = (.ok value, t)) :
    retryLoop throwIfCancellationRequested isFiltered waitIfNeeded attempt left count s =
      (.ok value, t) := by
  cases left with
  | zero =>
      rw [retryLoop, Comp.bind_of_ok (hthrow s)]
      exact h
  | succ left =>
      rw [retryLoop, Comp.bind_of_ok (hthrow s)]
      exact Comp.tryCatch_of_ok h

theorem retryLoop_zero (h : attempt s = (.error exception, t)) :
    retryLoop throwIfCancellationRequested isFiltered waitIfNeeded attempt 0 count s =
      (.error exception, t) := by
  rw [retryLoop, Comp.bind_of_ok (hthrow s)]
  exact h

variable (hwait : ∀ count s, waitIfNeeded count s = (.ok (), s))
  (hfiltered : ∀ exception, isFiltered exception = false)

include hwait hfiltered

theorem retryLoop_succ (h : attempt s = (.error exception, t)) :
    retryLoop throwIfCancellationRequested isFiltered waitIfNeeded attempt (left + 1) count s =
      retryLoop throwIfCancellationRequested isFiltered waitIfNeeded attempt left (count + 1) t := by
  rw [retryLoop, Comp.bind_of_ok (hthrow s), Comp.tryCatch_of_error h,
    if_neg (by rw [hfiltered]; exact Bool.false_ne_true), Comp.bind_of_ok (hwait count t)]

/-- `P x` describes the state before attempt `x`. As long as the attempts fail the
loop goes on, with fewer of them left. -/
theorem retryLoop_reaches {P : ℕ → S → Prop} {stop : ℕ}
    (hfails : ∀ x < stop, ∀ s, P x s → ∃ exception t, attempt s = (.error exception, t) ∧ P (x + 1) t)
    (hs : P 0 s) (hleft : stop ≤ left) :
    ∃ t count', P stop t ∧
      retryLoop throwIfCancellationRequested isFiltered waitIfNeeded attempt left count s =
        retryLoop throwIfCancellationRequested isFiltered waitIfNeeded attempt (left - stop)
          count' t := by
  induction stop with
  | zero => exact ⟨s, count, hs, rfl⟩
  | succ x ih =>
      obtain ⟨t, count', ht, hloop⟩ := ih (fun y hy => hfails y (by omega)) (by omega)
      obtain ⟨exception, u, hattempt, hu⟩ := hfails x (by omega) t ht
      have hone : left - x = left - (x + 1) + 1 := by omega
      rw [hone, retryLoop_succ hthrow hwait hfiltered hattempt] at hloop
      exact ⟨u, count' + 1, hu, hloop⟩

end Runs

/-- What a dispatcher asks of the runtime: `CancellationToken.None` and
`ThrowIfCancellationRequested`, `DateTime.Now`, and `await Task.Delay`. Time passes
when the clock is read. -/
structure Environment (E W Token : Type) where
  none : Token
  throwIfCancellationRequested : Token → Comp E W Unit
  now : W → ℤ × W
  delay : ℤ → Token → Comp E W Unit

section Dispatchers
variable {ι α W Token Ty : Type} {Val : Ty → Type} (env : Environment E W Token)

/-- The loop of every overload of `RetryDispatcher`. -/
def retry (isFiltered : E → Bool) (maxRetry : Int32) (token : Token)
    (attempt : Comp E (Memory ι α W) R) : Comp E (Memory ι α W) R :=
  retryFrom (onOutside (env.throwIfCancellationRequested token)) isFiltered (fun _ => pure ())
    maxRetry attempt 0

/-- `RetryDispatcher`. The overloads for delegates that return a task are `async`. -/
def retryDispatcher (isFiltered : E → Bool) (maxRetry : Int32) :
    IBasicDispatcher E (StateM (Memory ι α W)) Val Token where
  enqueueFunc action token := do return .ok (← retry env isFiltered maxRetry token action)
  enqueueAction action token := do return .ok (← retry env isFiltered maxRetry token action)
  enqueueFuncTask action token :=
    async (retry env isFiltered maxRetry token do await (← action))
  enqueueFuncTaskOf action token :=
    async (retry env isFiltered maxRetry token do await (← action))

/-- The loop of every overload of `RetryDispatcherAsync`; `getTimeOutForRetry` is
its time-out provider. A wait of zero is skipped. -/
def retryAsync (isFiltered : E → Bool) (getTimeOutForRetry : Int32 → Comp E W ℤ)
    (maxRetry : Int32) (token : Token) (attempt : Comp E (Memory ι α W) R) :
    Comp E (Memory ι α W) R :=
  retryFrom (onOutside (env.throwIfCancellationRequested token)) isFiltered
    (fun count => onOutside do
      let wait ← getTimeOutForRetry count
      if wait = 0 then return ()
      env.delay wait token)
    maxRetry attempt 0

/-- `RetryDispatcherAsync`; every overload is `async`. -/
def retryDispatcherAsync (isFiltered : E → Bool) (getTimeOutForRetry : Int32 → Comp E W ℤ)
    (maxRetry : Int32) : IBasicDispatcher E (StateM (Memory ι α W)) Val Token where
  enqueueFunc action token :=
    async (retryAsync env isFiltered getTimeOutForRetry maxRetry token action)
  enqueueAction action token :=
    async (retryAsync env isFiltered getTimeOutForRetry maxRetry token action)
  enqueueFuncTask action token :=
    async (retryAsync env isFiltered getTimeOutForRetry maxRetry token do await (← action))
  enqueueFuncTaskOf action token :=
    async (retryAsync env isFiltered getTimeOutForRetry maxRetry token do await (← action))

end Dispatchers

theorem Within.retryLoop {ι α W : Type} {C : Set ι}
    {throwIfCancellationRequested : Comp E (Memory ι α W) Unit} {isFiltered : E → Bool}
    {waitIfNeeded : Int32 → Comp E (Memory ι α W) Unit} {attempt : Comp E (Memory ι α W) R}
    (hthrow : Within C throwIfCancellationRequested) (hwait : ∀ count, Within C (waitIfNeeded count))
    (ha : Within C attempt) (left : ℕ) (count : Int32) :
    Within C (retryLoop throwIfCancellationRequested isFiltered waitIfNeeded attempt left count) := by
  induction left generalizing count with
  | zero => exact hthrow.bind fun _ => ha
  | succ left ih =>
      refine hthrow.bind fun _ => ha.tryCatch fun e => ?_
      by_cases he : isFiltered e = true
      · rw [if_pos he]
        exact .throw e
      · rw [if_neg he]
        exact (hwait count).bind fun _ => ih (count + 1)

end ComposableAsync.Resilient
