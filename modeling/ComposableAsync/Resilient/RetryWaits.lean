import ComposableAsync.Resilient.RetryScript
import Mathlib.Data.Nat.Find

/-!
# Retries with waits

The loop of `RetryDispatcherAsync` attempt by attempt. As long as the attempts fail,
the filter lets their exceptions be retried, the waits elapse and the token is not
cancelled, the loop comes from each attempt to the next with the counter at the number
of attempts made; what it does there is read off from that attempt alone.
-/
namespace ComposableAsync.Resilient
open Foundations ComposableAsync.Core

variable {X R Ty : Type} {Val : Ty → Type}

/-- The moment comes before attempt `i` is made. -/
def Moment.Before (i : ℕ) : Moment → Prop
  | .beforeCall => True
  | .attempt j | .delay j => j < i

instance (i : ℕ) : DecidablePred (Moment.Before i)
  | .beforeCall => isTrue trivial
  | .attempt j | .delay j => inferInstanceAs (Decidable (j < i))

def Script.CancelledBefore (script : Script X R) (i : ℕ) : Prop :=
  ∃ moment, script.cancelled = some moment ∧ moment.Before i

theorem Script.CancelledBefore.succ {script : Script X R} {i : ℕ}
    (h : script.CancelledBefore i) : script.CancelledBefore (i + 1) := by
  obtain ⟨moment, hcancelled, hbefore⟩ := h
  refine ⟨moment, hcancelled, ?_⟩
  cases moment with
  | beforeCall => trivial
  | attempt j | delay j => exact Nat.lt_succ_of_lt hbefore

theorem Script.not_cancelledBefore {script : Script X R} {moment : Moment} {i : ℕ}
    (h : script.cancelled = some moment) (hm : ¬ moment.Before i) : ¬ script.CancelledBefore i := by
  rintro ⟨moment', h', hbefore⟩
  cases h.symm.trans h'
  exact hm hbefore

/-- Attempt `i` fails with an exception that is not filtered and is not the last one
allowed. -/
def Script.Retries (script : Script X R) (isFiltered : Thrown X → Bool) (maxRetry : Int32)
    (i : ℕ) : Prop :=
  Int32.ofNat i ≠ maxRetry ∧ ∃ x, script.outcome i = .error x ∧ isFiltered (.byDelegate x) = false

/-- The wait after attempt `i` is `wait`, and `Task.Delay` accepts it. -/
structure TimeOutProvider.Waits (provider : TimeOutProvider X) (i : ℕ) (wait : ℤ) : Prop where
  eq : provider.wait i = .ok wait
  accepted : DelayAccepts wait

/-- The events of the attempts before attempt `i`, with the wait after each of them. -/
def retriesTrace (w : ℕ → ℤ) (i : ℕ) : List RetryEvent :=
  (List.range i).flatMap fun j => .attempt :: if w j = 0 then [] else [.delay (w j)]

theorem retriesTrace_succ (w : ℕ → ℤ) (i : ℕ) : retriesTrace w (i + 1) =
    retriesTrace w i ++ .attempt :: if w i = 0 then [] else [.delay (w i)] := by
  rw [retriesTrace, List.range_succ, List.flatMap_append, ← retriesTrace, List.flatMap_singleton]

/-- Attempt `i` is to come, and the token is not cancelled. -/
structure CallRecord.AtAttempt (w : ℕ → ℤ) (i : ℕ) (c : CallRecord X) : Prop where
  attempts : c.attempts = i
  trace : c.trace = retriesTrace w i
  notRequested : c.isCancellationRequested = false

/-- Attempt `i` was the last thing that happened. -/
structure CallRecord.Attempted (w : ℕ → ℤ) (i : ℕ) (requested : Bool) (c : CallRecord X) :
    Prop where
  attempts : c.attempts = i + 1
  trace : c.trace = retriesTrace w i ++ [.attempt]
  requested : c.isCancellationRequested = requested

variable {isFiltered : Thrown X → Bool} {provider : TimeOutProvider X} {maxRetry : Int32}
  {script : Script X R} {w : ℕ → ℤ} {i : ℕ} {c : CallRecord X}

theorem CallRecord.AtAttempt.throwIf (h : c.AtAttempt w i) :
    throwIfCancellationRequested c = (.ok (), c) := by
  rw [throwIfCancellationRequested, h.notRequested]
  rfl

theorem CallRecord.AtAttempt.attempt (h : c.AtAttempt w i) (script : Script X R) :
    ∃ c', script.attempt c = ((script.outcome i).mapError .byDelegate, c') ∧
      c'.Attempted w i (script.cancelled == some (.attempt i)) := by
  refine ⟨_, Prod.ext (by rw [Script.attempt, h.attempts]) rfl, ?_, ?_, ?_⟩
  · exact congrArg (· + 1) h.attempts
  · exact congrArg (· ++ [RetryEvent.attempt]) h.trace
  · simp only [Script.attempt, h.notRequested, h.attempts, Bool.false_or]

theorem CallRecord.Attempted.consult {requested : Bool} (h : c.Attempted w i requested)
    (isFiltered : Thrown X → Bool) (exception : Thrown X) : ∃ c',
      consult isFiltered exception c = (.ok (isFiltered exception), c') ∧
        c'.Attempted w i requested :=
  ⟨_, rfl, h.attempts, h.trace, h.requested⟩

namespace RetryDispatcherAsync

theorem ends_of_not_retries (provider : TimeOutProvider X) (h : c.AtAttempt w i)
    (hlast : ¬ script.Retries isFiltered maxRetry i) :
    ∃ c' requested, Comp.Ends (turn (waiting isFiltered provider maxRetry script) script.attempt)
      (.whileTrue (.ofNat i)) c ((script.outcome i).mapError .byDelegate) c' ∧
        c'.Attempted w i requested := by
  obtain ⟨c₁, hattempt, h₁⟩ := h.attempt script
  cases houtcome : script.outcome i with
  | ok value =>
      rw [houtcome] at hattempt
      exact ⟨c₁, _, .of_done (turn_of_ok h.throwIf hattempt), h₁⟩
  | error x =>
      rw [houtcome] at hattempt
      by_cases hcount : Int32.ofNat i = maxRetry
      · exact ⟨c₁, _, .of_error (turn_of_maxRetry h.throwIf hcount hattempt), h₁⟩
      · obtain ⟨c₂, hconsult, h₂⟩ := h₁.consult isFiltered (.byDelegate x)
        have hfilter : isFiltered (.byDelegate x) = true := by
          by_contra hfilter
          exact hlast ⟨hcount, x, houtcome, Bool.eq_false_iff.mpr hfilter⟩
        rw [hfilter] at hconsult
        exact ⟨c₂, _, .of_error (turn_of_filtered h.throwIf hcount hattempt hconsult), h₂⟩

theorem turn_of_retries (provider : TimeOutProvider X) (h : c.AtAttempt w i)
    (hretry : script.Retries isFiltered maxRetry i) :
    ∃ c', c'.Attempted w i (script.cancelled == some (.attempt i)) ∧
      turn (waiting isFiltered provider maxRetry script) script.attempt (.whileTrue (.ofNat i)) c =
        ((do return .again (← waitIfNeeded (waiting isFiltered provider maxRetry script)
          (.ofNat i))) : Comp (Thrown X) (CallRecord X) (Turn R Place)) c' := by
  obtain ⟨hcount, x, houtcome, hfilter⟩ := hretry
  obtain ⟨c₁, hattempt, h₁⟩ := h.attempt script
  obtain ⟨c₂, hconsult, h₂⟩ := h₁.consult isFiltered (.byDelegate x)
  rw [houtcome] at hattempt
  rw [hfilter] at hconsult
  have hturn := turn_of_filter (d := waiting isFiltered provider maxRetry script) h.throwIf hcount
    hattempt hconsult
  rw [if_neg Bool.false_ne_true] at hturn
  exact ⟨c₂, h₂, hturn⟩

theorem ofNat_succ (i : ℕ) : Int32.ofNat i + 1 = Int32.ofNat (i + 1) := by
  rw [Int32.ofNat_add]
  rfl

theorem getTimeOutForRetry_apply (hi : i < 2 ^ 31) :
    (waiting isFiltered provider maxRetry script).getTimeOutForRetry (.ofNat i) c =
      (provider.wait i, c) := by
  rw [← provider.getTimeOutForRetry_ofNat hi]
  rfl

theorem waitIfNeeded_of_waits (isFiltered : Thrown X → Bool) (maxRetry : Int32)
    (script : Script X R) (hi : i < 2 ^ 31) (hw : provider.Waits i (w i))
    (h : c.Attempted w i false) : ∃ c', c'.AtAttempt w (i + 1) ∧
      waitIfNeeded (waiting isFiltered provider maxRetry script) (.ofNat i) c =
        (.ok (if w i = 0 then .whileTrue (.ofNat (i + 1))
          else .awaiting (w i) (.ofNat (i + 1))), c') := by
  have hget : (waiting isFiltered provider maxRetry script).getTimeOutForRetry (.ofNat i) c =
      (.ok (w i), c) := by rw [getTimeOutForRetry_apply hi, hw.eq]
  rw [← ofNat_succ]
  by_cases hzero : w i = 0
  · refine ⟨c, ⟨h.attempts, ?_, h.requested⟩, ?_⟩
    · rw [retriesTrace_succ, if_pos hzero]
      exact h.trace
    · rw [if_pos hzero]
      rw [hzero] at hget
      exact waitIfNeeded_of_zero hget
  · have hdelay : taskDelay (w i) c = (.ok (), { c with trace := c.trace ++ [.delay (w i)] }) := by
      rw [taskDelay, if_neg (not_not_intro hw.accepted), h.requested]
      rfl
    refine ⟨{ c with trace := c.trace ++ [.delay (w i)] }, ⟨h.attempts, ?_, h.requested⟩, ?_⟩
    · rw [retriesTrace_succ, if_neg hzero, h.trace, List.append_assoc]
      rfl
    · rw [if_neg hzero]
      exact waitIfNeeded_of_delay hget hzero hdelay

theorem waitIfNeeded_of_requested (isFiltered : Thrown X → Bool) (maxRetry : Int32)
    (script : Script X R) (hi : i < 2 ^ 31) (hw : provider.Waits i (w i))
    (h : c.Attempted w i true) :
    waitIfNeeded (waiting isFiltered provider maxRetry script) (.ofNat i) c =
        (.ok (.whileTrue (.ofNat (i + 1))), c) ∨
      ∃ c', c'.attempts = i + 1 ∧
        waitIfNeeded (waiting isFiltered provider maxRetry script) (.ofNat i) c =
          (.error .taskCanceled, c') := by
  have hget : (waiting isFiltered provider maxRetry script).getTimeOutForRetry (.ofNat i) c =
      (.ok (w i), c) := by rw [getTimeOutForRetry_apply hi, hw.eq]
  by_cases hzero : w i = 0
  · rw [hzero] at hget
    rw [← ofNat_succ]
    exact .inl (waitIfNeeded_of_zero hget)
  · have hdelay : taskDelay (w i) c =
        (.error .taskCanceled, { c with trace := c.trace ++ [.delay (w i)] }) := by
      rw [taskDelay, if_neg (not_not_intro hw.accepted), h.requested]
      rfl
    exact .inr ⟨{ c with trace := c.trace ++ [.delay (w i)] }, h.attempts,
      waitIfNeeded_of_delay_throws hget hzero hdelay⟩

theorem turn_of_awaiting (isFiltered : Thrown X → Bool) (provider : TimeOutProvider X)
    (maxRetry : Int32) (h : c.AtAttempt w (i + 1)) (hlive : script.cancelled ≠ some (.delay i))
    (wait : ℤ) (count : Int32) : ∃ c', c'.AtAttempt w (i + 1) ∧
      turn (waiting isFiltered provider maxRetry script) script.attempt (.awaiting wait count) c =
        (.ok (.again (if IsInfinite wait then .awaiting wait count else .whileTrue count)),
          c') := by
  have hcompleted : script.delayCompleted wait c = (.ok (decide (¬ IsInfinite wait)), c) := by
    have hnot : (script.cancelled == some (.delay (c.attempts - 1))) = false := by
      rw [h.attempts]
      exact beq_eq_false_iff_ne.mpr hlive
    have hsame : ({ c with isCancellationRequested := false } : CallRecord X) = c := by
      rw [← h.notRequested]
    simp only [Script.delayCompleted, hnot, h.notRequested, Bool.or_false, hsame]
    by_cases hms : milliseconds wait = 0
    · have hfinite : ¬ IsInfinite wait := by
        rw [IsInfinite, hms]
        decide
      rw [if_pos hms, decide_eq_true hfinite]
    · rw [if_neg hms]
      rfl
  refine ⟨c, h, (turn_of_completed hcompleted).trans ?_⟩
  by_cases hinf : IsInfinite wait
  · simp [hinf]
  · simp [hinf]

theorem waits_after (hi : i < 2 ^ 31) (h : c.AtAttempt w i)
    (hretry : script.Retries isFiltered maxRetry i) (hw : provider.Waits i (w i))
    (hlive : script.cancelled ≠ some (.attempt i)) : ∃ c', c'.AtAttempt w (i + 1) ∧
      turn (waiting isFiltered provider maxRetry script) script.attempt (.whileTrue (.ofNat i)) c =
        (.ok (.again (if w i = 0 then .whileTrue (.ofNat (i + 1))
          else .awaiting (w i) (.ofNat (i + 1)))), c') := by
  obtain ⟨c₁, h₁, hturn⟩ := turn_of_retries provider h hretry
  rw [beq_eq_false_iff_ne.mpr hlive] at h₁
  obtain ⟨c₂, h₂, hwait⟩ := waitIfNeeded_of_waits isFiltered maxRetry script hi hw h₁
  exact ⟨c₂, h₂, hturn.trans (Comp.bind_of_ok hwait)⟩

/-- The step of the loop from an attempt to the next one. -/
theorem reaches_next (hi : i < 2 ^ 31) (h : c.AtAttempt w i)
    (hretry : script.Retries isFiltered maxRetry i) (hw : provider.Waits i (w i))
    (hfinite : ¬ IsInfinite (w i)) (hlive : ¬ script.CancelledBefore (i + 1)) :
    ∃ turns c', Comp.loop (turn (waiting isFiltered provider maxRetry script) script.attempt) turns
      (.whileTrue (.ofNat i)) c = (.ok (.again (.whileTrue (.ofNat (i + 1)))), c') ∧
        c'.AtAttempt w (i + 1) := by
  have hattempt : script.cancelled ≠ some (.attempt i) := fun hc =>
    hlive ⟨_, hc, Nat.lt_succ_self i⟩
  have hdelay : script.cancelled ≠ some (.delay i) := fun hc => hlive ⟨_, hc, Nat.lt_succ_self i⟩
  obtain ⟨c₁, h₁, hturn⟩ := waits_after hi h hretry hw hattempt
  have hfirst := Comp.loop_one hturn
  by_cases hzero : w i = 0
  · rw [if_pos hzero] at hfirst
    exact ⟨1, c₁, hfirst, h₁⟩
  · rw [if_neg hzero] at hfirst
    obtain ⟨c₂, h₂, helapsed⟩ := turn_of_awaiting isFiltered provider maxRetry h₁ hdelay
      (w i) (.ofNat (i + 1))
    rw [if_neg hfinite] at helapsed
    exact ⟨2, c₂, Comp.loop_succ_of_again hfirst helapsed, h₂⟩

/-- The run of the loop up to attempt `i`. -/
theorem reaches_attempt (hi : i ≤ 2 ^ 31)
    (hretry : ∀ j < i, script.Retries isFiltered maxRetry j)
    (hw : ∀ j < i, provider.Waits j (w j)) (hfinite : ∀ j < i, ¬ IsInfinite (w j))
    (hlive : ¬ script.CancelledBefore i) :
    ∃ turns c, Comp.loop (turn (waiting isFiltered provider maxRetry script) script.attempt) turns
      (.whileTrue 0) script.start = (.ok (.again (.whileTrue (.ofNat i))), c) ∧
        c.AtAttempt w i := by
  induction i with
  | zero =>
      refine ⟨0, script.start, rfl, rfl, rfl, ?_⟩
      exact beq_eq_false_iff_ne.mpr fun hc => hlive ⟨_, hc, trivial⟩
  | succ i ih =>
      have hbefore : ¬ script.CancelledBefore i := fun h => hlive h.succ
      obtain ⟨turns, c, hloop, hc⟩ := ih (by omega) (fun j hj => hretry j (by omega))
        (fun j hj => hw j (by omega)) (fun j hj => hfinite j (by omega)) hbefore
      obtain ⟨more, c', hnext, hc'⟩ := reaches_next (by omega) hc (hretry i (by omega))
        (hw i (by omega)) (hfinite i (by omega)) hlive
      exact ⟨turns + more, c', (Comp.loop_add hloop more).trans hnext, hc'⟩

theorem throwIf_of_requested (h : c.isCancellationRequested = true) :
    throwIfCancellationRequested c = (.error .operationCanceled, c) := by
  rw [throwIfCancellationRequested, h]
  rfl

theorem ends_of_cancelled_attempt (hi : i < 2 ^ 31) (h : c.AtAttempt w i)
    (hretry : script.Retries isFiltered maxRetry i) (hw : provider.Waits i (w i))
    (hcancelled : script.cancelled = some (.attempt i)) : ∃ e c',
      Comp.Ends (turn (waiting isFiltered provider maxRetry script) script.attempt)
        (.whileTrue (.ofNat i)) c (.error e) c' ∧ e.IsOperationCanceled ∧ c'.attempts = i + 1 := by
  obtain ⟨c₁, h₁, hturn⟩ := turn_of_retries provider h hretry
  rw [hcancelled, beq_self_eq_true] at h₁
  obtain hwait | ⟨c₂, h₂, hwait⟩ := waitIfNeeded_of_requested isFiltered maxRetry script hi hw h₁
  · have hfirst := Comp.loop_one (hturn.trans (Comp.bind_of_ok hwait))
    exact ⟨.operationCanceled, c₁, .of_reached hfirst
      (.of_error (turn_of_cancelled (throwIf_of_requested h₁.requested))), trivial, h₁.attempts⟩
  · exact ⟨.taskCanceled, c₂, .of_error (hturn.trans (Comp.bind_of_error hwait)), trivial, h₂⟩

theorem ends_of_cancelled_delay (hi : i < 2 ^ 31) (h : c.AtAttempt w i)
    (hretry : script.Retries isFiltered maxRetry i) (hw : provider.Waits i (w i))
    (hzero : w i ≠ 0) (hcancelled : script.cancelled = some (.delay i)) : ∃ e c',
      Comp.Ends (turn (waiting isFiltered provider maxRetry script) script.attempt)
        (.whileTrue (.ofNat i)) c (.error e) c' ∧ e.IsOperationCanceled ∧ c'.attempts = i + 1 := by
  obtain ⟨c₁, h₁, hturn⟩ := waits_after hi h hretry hw (by simp [hcancelled])
  rw [if_neg hzero] at hturn
  have hfirst := Comp.loop_one hturn
  have hnow : (script.cancelled == some (.delay (c₁.attempts - 1))) = true := by
    rw [h₁.attempts, hcancelled]
    exact beq_self_eq_true _
  by_cases hms : milliseconds (w i) = 0
  · have hcompleted : script.delayCompleted (w i) c₁ =
        (.ok true, { c₁ with isCancellationRequested := true }) := by
      simp only [Script.delayCompleted, hnow, Bool.or_true, if_pos hms]
    have hsecond : turn (waiting isFiltered provider maxRetry script) script.attempt
        (.awaiting (w i) (.ofNat (i + 1))) c₁ = _ := turn_of_completed hcompleted
    exact ⟨.operationCanceled, _, .of_reached (Comp.loop_succ_of_again hfirst hsecond)
      (.of_error (turn_of_cancelled (throwIf_of_requested rfl))), trivial, h₁.attempts⟩
  · have hcompleted : script.delayCompleted (w i) c₁ =
        (.error .taskCanceled, { c₁ with isCancellationRequested := true }) := by
      simp only [Script.delayCompleted, hnow, Bool.or_true, if_neg hms, if_true]
    exact ⟨.taskCanceled, _, .of_reached hfirst (.of_error (turn_of_delay_cancelled hcompleted)),
      trivial, h₁.attempts⟩

theorem ends_of_cancelled (hi : i < 2 ^ 31) (h : c.AtAttempt w i)
    (hretry : script.Retries isFiltered maxRetry i) (hw : provider.Waits i (w i))
    (hcancelled : script.cancelled = some (.attempt i) ∨
      script.cancelled = some (.delay i) ∧ w i ≠ 0) : ∃ e c',
      Comp.Ends (turn (waiting isFiltered provider maxRetry script) script.attempt)
        (.whileTrue (.ofNat i)) c (.error e) c' ∧ e.IsOperationCanceled ∧ c'.attempts = i + 1 := by
  obtain hattempt | ⟨hdelay, hzero⟩ := hcancelled
  · exact ends_of_cancelled_attempt hi h hretry hw hattempt
  · exact ends_of_cancelled_delay hi h hretry hw hzero hdelay

theorem hangs_of_infinite (hi : i < 2 ^ 31) (h : c.AtAttempt w i)
    (hretry : script.Retries isFiltered maxRetry i) (hw : provider.Waits i (w i))
    (hinfinite : IsInfinite (w i)) (hattempt : script.cancelled ≠ some (.attempt i))
    (hdelay : script.cancelled ≠ some (.delay i)) (more : ℕ) : ∃ c',
      Comp.loop (turn (waiting isFiltered provider maxRetry script) script.attempt) (1 + more)
        (.whileTrue (.ofNat i)) c = (.ok (.again (.awaiting (w i) (.ofNat (i + 1)))), c') ∧
        c'.AtAttempt w (i + 1) := by
  have hzero : w i ≠ 0 := by
    intro hzero
    rw [IsInfinite, hzero] at hinfinite
    exact absurd hinfinite (by decide)
  obtain ⟨c₁, h₁, hturn⟩ := waits_after hi h hretry hw hattempt
  rw [if_neg hzero] at hturn
  induction more with
  | zero => exact ⟨c₁, Comp.loop_one hturn, h₁⟩
  | succ more ih =>
      obtain ⟨c₂, hloop, h₂⟩ := ih
      obtain ⟨c₃, h₃, hstays⟩ := turn_of_awaiting isFiltered provider maxRetry h₂ hdelay
        (w i) (.ofNat (i + 1))
      rw [if_pos hinfinite] at hstays
      exact ⟨c₃, Comp.loop_succ_of_again hloop hstays, h₃⟩

theorem ends_of_wait_error {e : Thrown X} (hi : i < 2 ^ 31) (h : c.AtAttempt w i)
    (hretry : script.Retries isFiltered maxRetry i) (hw : provider.wait i = .error e) : ∃ c',
      Comp.Ends (turn (waiting isFiltered provider maxRetry script) script.attempt)
        (.whileTrue (.ofNat i)) c (.error e) c' ∧ c'.attempts = i + 1 := by
  obtain ⟨c₁, h₁, hturn⟩ := turn_of_retries provider h hretry
  have hget : (waiting isFiltered provider maxRetry script).getTimeOutForRetry (.ofNat i) c₁ =
      (.error e, c₁) := by rw [getTimeOutForRetry_apply hi, hw]
  exact ⟨c₁, .of_error (hturn.trans (Comp.bind_of_error (waitIfNeeded_of_throws hget))),
    h₁.attempts⟩

theorem ends_of_not_accepted {wait : ℤ} (hi : i < 2 ^ 31) (h : c.AtAttempt w i)
    (hretry : script.Retries isFiltered maxRetry i) (hw : provider.wait i = .ok wait)
    (haccepts : ¬ DelayAccepts wait) : ∃ c',
      Comp.Ends (turn (waiting isFiltered provider maxRetry script) script.attempt)
        (.whileTrue (.ofNat i)) c (.error .argumentOutOfRange) c' ∧ c'.attempts = i + 1 := by
  obtain ⟨c₁, h₁, hturn⟩ := turn_of_retries provider h hretry
  have hget : (waiting isFiltered provider maxRetry script).getTimeOutForRetry (.ofNat i) c₁ =
      (.ok wait, c₁) := by rw [getTimeOutForRetry_apply hi, hw]
  have hzero : wait ≠ 0 := by
    rintro rfl
    exact haccepts (by decide)
  have hdelay : (waiting isFiltered provider maxRetry script).delay wait c₁ =
      (.error .argumentOutOfRange, { c₁ with trace := c₁.trace ++ [.delay wait] }) := by
    change taskDelay wait c₁ = _
    rw [taskDelay, if_pos haccepts]
  exact ⟨_, .of_error (hturn.trans
    (Comp.bind_of_error (waitIfNeeded_of_delay_throws hget hzero hdelay))), h₁.attempts⟩

end RetryDispatcherAsync

section Calls
variable {o : Overload Ty} {script : Script X (o.Result Val)}

namespace RetryDispatcherAsync

/-- The call is over, with what the awaiting caller got. -/
def Completes (isFiltered : Thrown X → Bool) (provider : TimeOutProvider X) (maxRetry : Int32)
    (o : Overload Ty) (script : Script X (o.Result Val))
    (outcome : Except (Thrown X) (o.Result Val)) (c : CallRecord X) : Prop :=
  ∃ turns, run isFiltered provider maxRetry o script turns = (outcome.map some, c)

/-- From some turn on the call is not over and makes no attempt. -/
def Hangs (isFiltered : Thrown X → Bool) (provider : TimeOutProvider X) (maxRetry : Int32)
    (o : Overload Ty) (script : Script X (o.Result Val)) (attempts : ℕ) : Prop :=
  ∃ turns, ∀ more, ∃ c,
    run isFiltered provider maxRetry o script (turns + more) = (.ok none, c) ∧ c.attempts = attempts

theorem completes_iff_ends {outcome : Except (Thrown X) (o.Result Val)} {c : CallRecord X} :
    Completes isFiltered provider maxRetry o script outcome c ↔
      Comp.Ends (turn (waiting isFiltered provider maxRetry script) script.attempt)
        (.whileTrue 0) script.start outcome c := by
  refine exists_congr fun turns => ?_
  rw [run_eq]
  exact Comp.map_answer_iff

theorem Completes.unique {outcome outcome' : Except (Thrown X) (o.Result Val)} {c c' : CallRecord X}
    (h : Completes isFiltered provider maxRetry o script outcome c)
    (h' : Completes isFiltered provider maxRetry o script outcome' c') :
    outcome = outcome' ∧ c = c' :=
  (completes_iff_ends.mp h).unique (completes_iff_ends.mp h')

theorem Hangs.not_completes {attempts : ℕ}
    (h : Hangs isFiltered provider maxRetry o script attempts)
    (outcome : Except (Thrown X) (o.Result Val)) (c : CallRecord X) :
    ¬ Completes isFiltered provider maxRetry o script outcome c := by
  intro hcompletes
  obtain ⟨turns, hturns⟩ := completes_iff_ends.mp hcompletes
  obtain ⟨first, hfirst⟩ := h
  obtain ⟨c', hrun, -⟩ := hfirst turns
  rw [run_eq, Nat.add_comm, map_eq_pure_bind] at hrun
  have hover := Comp.loop_of_over hturns first
  cases outcome with
  | ok value =>
      rw [Comp.bind_of_ok hover] at hrun
      cases hrun
  | error e =>
      rw [Comp.bind_of_error hover] at hrun
      cases hrun

end RetryDispatcherAsync

namespace RetryDispatcherAsync
section Attempt
variable (hi : i < 2 ^ 31) (hretry : ∀ j < i, script.Retries isFiltered maxRetry j)
  (hw : ∀ j < i, provider.Waits j (w j)) (hfinite : ∀ j < i, ¬ IsInfinite (w j))

include hi hretry hw hfinite

theorem completes_at (hlast : ¬ script.Retries isFiltered maxRetry i)
    (hlive : ¬ script.CancelledBefore i) : ∃ c,
      Completes isFiltered provider maxRetry o script ((script.outcome i).mapError .byDelegate) c ∧
        c.attempts = i + 1 ∧ c.trace = retriesTrace w i ++ [.attempt] := by
  obtain ⟨turns, c, hloop, hc⟩ := reaches_attempt hi.le hretry hw hfinite hlive
  obtain ⟨c', requested, hends, hc'⟩ := ends_of_not_retries provider hc hlast
  exact ⟨c', completes_iff_ends.mpr (.of_reached hloop hends), hc'.attempts, hc'.trace⟩

variable (hretry' : script.Retries isFiltered maxRetry i)

include hretry'

theorem cancelled_at (hw' : provider.Waits i (w i))
    (hcancelled : script.cancelled = some (.attempt i) ∨
      script.cancelled = some (.delay i) ∧ w i ≠ 0) : ∃ e c,
      Completes isFiltered provider maxRetry o script (.error e) c ∧ e.IsOperationCanceled ∧
        c.attempts = i + 1 := by
  have hlive : ¬ script.CancelledBefore i := by
    obtain h | ⟨h, -⟩ := hcancelled
    · exact Script.not_cancelledBefore h (lt_irrefl i)
    · exact Script.not_cancelledBefore h (lt_irrefl i)
  obtain ⟨turns, c, hloop, hc⟩ := reaches_attempt hi.le hretry hw hfinite hlive
  obtain ⟨e, c', hends, he, hc'⟩ := ends_of_cancelled hi hc hretry' hw' hcancelled
  exact ⟨e, c', completes_iff_ends.mpr (.of_reached hloop hends), he, hc'⟩

theorem hangs_at (hw' : provider.Waits i (w i)) (hinfinite : IsInfinite (w i))
    (hlive : ¬ script.CancelledBefore (i + 1)) :
    Hangs isFiltered provider maxRetry o script (i + 1) := by
  obtain ⟨turns, c, hloop, hc⟩ := reaches_attempt hi.le hretry hw hfinite fun h => hlive h.succ
  refine ⟨turns + 1, fun more => ?_⟩
  obtain ⟨c', hstays, hc'⟩ := hangs_of_infinite hi hc hretry' hw' hinfinite
    (fun h => hlive ⟨_, h, Nat.lt_succ_self i⟩) (fun h => hlive ⟨_, h, Nat.lt_succ_self i⟩) more
  rw [← Comp.loop_add hloop, ← Nat.add_assoc] at hstays
  exact ⟨c', run_eq.trans (Comp.map_of_ok hstays), hc'.attempts⟩

end Attempt
end RetryDispatcherAsync

/-- Attempt `i` is the last one that may be made: it succeeds, throws a filtered
exception, or is number `maxRetry`. -/
def Script.Stops {R : Type} (script : Script X R) (isFiltered : Thrown X → Bool) (maxRetry i : ℕ) :
    Prop :=
  (∃ value, script.outcome i = .ok value) ∨
    (∃ x, script.outcome i = .error x ∧ isFiltered (.byDelegate x) = true) ∨ i = maxRetry

instance {R : Type} (script : Script X R) (isFiltered : Thrown X → Bool) (maxRetry : ℕ) :
    DecidablePred (script.Stops isFiltered maxRetry) := fun i =>
  match h : script.outcome i with
  | .ok value => isTrue (.inl ⟨value, h⟩)
  | .error x =>
      decidable_of_iff (isFiltered (.byDelegate x) = true ∨ i = maxRetry) <| by
        simp [Script.Stops, h]

/-- The least attempt that stops. -/
def Script.lastAttempt {R : Type} (script : Script X R) (isFiltered : Thrown X → Bool)
    (maxRetry : ℕ) : ℕ :=
  Nat.find (⟨maxRetry, .inr (.inr rfl)⟩ : ∃ i, script.Stops isFiltered maxRetry i)

section LastAttempt
variable {R : Type} {script : Script X R} {maxRetry : ℕ}

theorem Script.lastAttempt_le (script : Script X R) (isFiltered : Thrown X → Bool)
    (maxRetry : ℕ) : script.lastAttempt isFiltered maxRetry ≤ maxRetry :=
  Nat.find_min' _ (.inr (.inr rfl))

theorem ofNat_inj {i n : ℕ} (hi : i < 2 ^ 31) (hn : n < 2 ^ 31)
    (h : Int32.ofNat i = Int32.ofNat n) : i = n := by
  have hint := congrArg Int32.toInt h
  rw [Int32.toInt_ofNat_of_lt hi, Int32.toInt_ofNat_of_lt hn] at hint
  omega

theorem Script.retries_of_lt (hmax : maxRetry < 2 ^ 31)
    (hi : i < script.lastAttempt isFiltered maxRetry) :
    script.Retries isFiltered (.ofNat maxRetry) i := by
  have hle := script.lastAttempt_le isFiltered maxRetry
  have hnot : ¬ script.Stops isFiltered maxRetry i := Nat.find_min _ hi
  simp only [Script.Stops, not_or, not_exists, not_and] at hnot
  obtain ⟨hok, hfiltered, hne⟩ := hnot
  refine ⟨fun h => hne (ofNat_inj (by omega) hmax h), ?_⟩
  cases houtcome : script.outcome i with
  | ok value => exact (hok value houtcome).elim
  | error x => exact ⟨x, rfl, Bool.eq_false_iff.mpr (hfiltered x houtcome)⟩

theorem Script.not_retries_lastAttempt :
    ¬ script.Retries isFiltered (.ofNat maxRetry) (script.lastAttempt isFiltered maxRetry) := by
  rintro ⟨hcount, x, houtcome, hfilter⟩
  have hstops : script.Stops isFiltered maxRetry (script.lastAttempt isFiltered maxRetry) :=
    Nat.find_spec _
  obtain ⟨value, hok⟩ | ⟨y, hy, hfiltered⟩ | hlast := hstops
  · cases hok.symm.trans houtcome
  · cases hy.symm.trans houtcome
    exact Bool.false_ne_true (hfilter.symm.trans hfiltered)
  · exact hcount (congrArg Int32.ofNat hlast)

end LastAttempt

/-- What a call does whose wait after attempt `i` is `w i`, with `m` the least attempt
that stops. -/
structure BoundedRetry (isFiltered : Thrown X → Bool) (provider : TimeOutProvider X)
    (maxRetry : ℕ) (o : Overload Ty) (script : Script X (o.Result Val)) (w : ℕ → ℤ) (m : ℕ) :
    Prop where
  /-- The token is not cancelled before the last attempt, whatever happens during it. -/
  completes : ¬ script.CancelledBefore m → (∀ i < m, ¬ IsInfinite (w i)) → ∃ c,
    RetryDispatcherAsync.Completes isFiltered provider (.ofNat maxRetry) o script
      ((script.outcome m).mapError .byDelegate) c ∧
    c.attempts = m + 1 ∧ c.trace = retriesTrace w m ++ [.attempt]
  /-- It is cancelled during an earlier attempt or during the delay after it. -/
  cancelled : ∀ i < m, script.cancelled = some (.attempt i) ∨
      script.cancelled = some (.delay i) ∧ w i ≠ 0 → (∀ j < i, ¬ IsInfinite (w j)) → ∃ e c,
    RetryDispatcherAsync.Completes isFiltered provider (.ofNat maxRetry) o script (.error e) c ∧
    e.IsOperationCanceled ∧ c.attempts = i + 1
  /-- An infinite wait is waited for. -/
  hangs : ∀ i < m, IsInfinite (w i) → (∀ j < i, ¬ IsInfinite (w j)) →
    ¬ script.CancelledBefore (i + 1) →
      RetryDispatcherAsync.Hangs isFiltered provider (.ofNat maxRetry) o script (i + 1)

/-- A bounded retry with waits meets its specification, in each of the four overloads. -/
theorem bounded_retry (isFiltered : Thrown X → Bool) (provider : TimeOutProvider X) {maxRetry : ℕ}
    (hmax : maxRetry < 2 ^ 31) (o : Overload Ty) (script : Script X (o.Result Val)) {w : ℕ → ℤ}
    (hw : ∀ i < maxRetry, provider.Waits i (w i)) :
    BoundedRetry isFiltered provider maxRetry o script w
      (script.lastAttempt isFiltered maxRetry) := by
  have hle := script.lastAttempt_le isFiltered maxRetry
  have hretries : ∀ i < script.lastAttempt isFiltered maxRetry,
      script.Retries isFiltered (.ofNat maxRetry) i := fun i hi => Script.retries_of_lt hmax hi
  constructor
  · intro hlive hfinite
    exact RetryDispatcherAsync.completes_at (by omega) hretries (fun j hj => hw j (by omega))
      hfinite Script.not_retries_lastAttempt hlive
  · intro i hi hcancelled hfinite
    exact RetryDispatcherAsync.cancelled_at (by omega) (fun j hj => hretries j (by omega))
      (fun j hj => hw j (by omega)) hfinite (hretries i hi) (hw i (by omega)) hcancelled
  · intro i hi hinfinite hfinite hlive
    exact RetryDispatcherAsync.hangs_at (by omega) (fun j hj => hretries j (by omega))
      (fun j hj => hw j (by omega)) hfinite (hretries i hi) (hw i (by omega)) hinfinite hlive

end Calls

/-- A delegate without a result that throws at its first invocations. -/
def failing (failures : ℕ) :
    Script Unit ((Overload.action : Overload Unit).Result fun _ => Unit) where
  outcome i := if i < failures then .error () else .ok ()

/-- One retry after a millisecond. -/
theorem bounded_retry_once : BoundedRetry (fun _ => false) (.single 10000) 1 .action (failing 1)
    (fun _ => 10000) 1 := by
  have hlast : (failing 1).lastAttempt (fun _ => false) 1 = 1 :=
    (Nat.find_eq_iff _).mpr ⟨.inl ⟨(), rfl⟩, by decide⟩
  have hretry := bounded_retry (fun _ => false) (.single 10000) (show 1 < 2 ^ 31 by decide)
    .action (failing 1) (w := fun _ => 10000) fun _ _ => ⟨rfl, by decide⟩
  rwa [hlast] at hretry

/-- `Task.Delay` accepts the infinite wait, after which no attempt is made. -/
theorem infinite_wait : (failing 1).cancelled = none ∧
    (TimeOutProvider.single (-10000) : TimeOutProvider Unit).Waits 0 (-10000) ∧
    ¬ ∃ outcome c, RetryDispatcherAsync.Completes (fun _ => false) (.single (-10000)) 1 .action
      (failing 1) outcome c := by
  refine ⟨rfl, ⟨rfl, by decide⟩, ?_⟩
  rintro ⟨outcome, c, hcompletes⟩
  have hhangs : RetryDispatcherAsync.Hangs (fun _ => false) (.single (-10000)) 1 .action
      (failing 1) 1 :=
    RetryDispatcherAsync.hangs_at (w := fun _ => -10000) (by decide) nofun nofun nofun
      ⟨by decide, (), rfl, rfl⟩ ⟨rfl, by decide⟩ (by decide) (by rintro ⟨_, h, _⟩; cases h)
  exact hhangs.not_completes outcome c hcompletes

end ComposableAsync.Resilient
