import ComposableAsync.Resilient.PolicyBuilders
import ComposableAsync.Resilient.RetryWaits

/-!
# The dispatchers of `RetryBuilder`

`ForEver` is a retry bounded by `int.MaxValue`, a bound that the counter comes to after
2 ^ 31 failures. A builder without a time-out provider makes a `RetryDispatcher`, which
does what `RetryDispatcherAsync` does with waits of zero. With an array of waits, a call
ends with the exception of its last attempt or because its token is cancelled, unless
the array is empty and asked for a wait.

The builders of `PolicyBuilders.lean`, which share their collections, make these dispatchers.
-/
namespace ComposableAsync.Resilient
open Foundations ComposableAsync.Core

variable {X Ty : Type} {Val : Ty → Type}

/-- `TimeSpan.FromMilliseconds`. -/
def fromMilliseconds (milliseconds : Int32) : ℤ := milliseconds.toInt * 10000

/-- What the dispatchers are made with. -/
inductive RetryBasicDispatcher (X : Type) where
  | retryDispatcher (exceptionFilter : Thrown X → Bool) (maxRetry : Int32)
  | retryDispatcherAsync (exceptionFilter : Thrown X → Bool) (timeOutProvider : TimeOutProvider X)
      (maxRetry : Int32)

/-- No time-out provider is `null`. -/
structure RetryBuilder (X : Type) where
  exceptionFilter : Thrown X → Bool
  timeOutProvider : Option (TimeOutProvider X) := none

namespace RetryBuilder
variable (builder : RetryBuilder X)

def getBasicDispatcher (max : Int32) : RetryBasicDispatcher X :=
  match builder.timeOutProvider with
  | some timeOutProvider => .retryDispatcherAsync builder.exceptionFilter timeOutProvider max
  | none => .retryDispatcher builder.exceptionFilter max

def forEver : RetryBasicDispatcher X := builder.getBasicDispatcher Int32.maxValue

def withMaxRetry (maxTimes : Int32) : RetryBasicDispatcher X := builder.getBasicDispatcher maxTimes

end RetryBuilder

/-- The arguments of the overloads of `WithWaitBetweenRetry`. -/
inductive WaitBetweenRetry (X : Type) where
  | milliseconds (waitInMilliseconds : Int32)
  | timeSpan (wait : ℤ)
  | timeSpans (waits : List ℤ)
  | ints (waits : List Int32)
  | function (waitProvider : Int32 → Except X ℤ)

def WaitBetweenRetry.timeOutProvider : WaitBetweenRetry X → TimeOutProvider X
  | .milliseconds waitInMilliseconds => .single (fromMilliseconds waitInMilliseconds)
  | .timeSpan wait => .single wait
  | .timeSpans waits => .array waits
  | .ints waits => .array (waits.map fromMilliseconds)
  | .function waitProvider => .function waitProvider

structure RetryBuilderWithWait (X : Type) where
  exceptionFilter : Thrown X → Bool

namespace RetryBuilderWithWait
variable (builder : RetryBuilderWithWait X)

def getRetryBuilder (timeOutProvider : Option (TimeOutProvider X) := none) : RetryBuilder X :=
  ⟨builder.exceptionFilter, timeOutProvider⟩

def withWaitBetweenRetry (wait : WaitBetweenRetry X) : RetryBuilder X :=
  builder.getRetryBuilder (some wait.timeOutProvider)

def forEver : RetryBasicDispatcher X := builder.getRetryBuilder.forEver

def withMaxRetry (maxTimes : Int32) : RetryBasicDispatcher X :=
  builder.getRetryBuilder.withMaxRetry maxTimes

end RetryBuilderWithWait

namespace RetryBasicDispatcher

def run : RetryBasicDispatcher X → (o : Overload Ty) → Script X (o.Result Val) → ℕ →
    Except (Thrown X) (Option (o.Result Val)) × CallRecord X
  | .retryDispatcher exceptionFilter maxRetry, o, script, turns =>
      RetryDispatcher.run exceptionFilter maxRetry o script turns
  | .retryDispatcherAsync exceptionFilter timeOutProvider maxRetry, o, script, turns =>
      RetryDispatcherAsync.run exceptionFilter timeOutProvider maxRetry o script turns

/-- The call is over, with what the awaiting caller got. -/
def Completes (d : RetryBasicDispatcher X) (o : Overload Ty) (script : Script X (o.Result Val))
    (outcome : Except (Thrown X) (o.Result Val)) (c : CallRecord X) : Prop :=
  ∃ turns, d.run o script turns = (outcome.map some, c)

end RetryBasicDispatcher

/-- A builder without a time-out provider may as well have one of no waits. -/
theorem RetryBuilder.completes_iff (builder : RetryBuilder X) {max : Int32} {o : Overload Ty}
    {script : Script X (o.Result Val)} {outcome : Except (Thrown X) (o.Result Val)}
    {c : CallRecord X} : (builder.getBasicDispatcher max).Completes o script outcome c ↔
      RetryDispatcherAsync.Completes builder.exceptionFilter
        (builder.timeOutProvider.getD (.single 0)) max o script outcome c := by
  obtain ⟨exceptionFilter, timeOutProvider⟩ := builder
  cases timeOutProvider with
  | some timeOutProvider => exact Iff.rfl
  | none =>
      refine exists_congr fun turns => ?_
      rw [Option.getD_none, RetryDispatcherAsync.run_single_zero]
      exact Iff.rfl

theorem RetryBuilder.completes_unique (builder : RetryBuilder X) {max : Int32} {o : Overload Ty}
    {script : Script X (o.Result Val)} {outcome outcome' : Except (Thrown X) (o.Result Val)}
    {c c' : CallRecord X} (h : (builder.getBasicDispatcher max).Completes o script outcome c)
    (h' : (builder.getBasicDispatcher max).Completes o script outcome' c') :
    outcome = outcome' ∧ c = c' :=
  (builder.completes_iff.mp h).unique (builder.completes_iff.mp h')

/-- The wait after attempt `i` is there, accepted by `Task.Delay`, and not infinite. -/
def TimeOutProvider.Elapses (provider : TimeOutProvider X) (i : ℕ) : Prop :=
  ∃ wait, provider.Waits i wait ∧ ¬ IsInfinite wait

theorem TimeOutProvider.elapses_single_zero (i : ℕ) :
    (TimeOutProvider.single 0 : TimeOutProvider X).Elapses i :=
  ⟨0, ⟨rfl, by decide⟩, by decide⟩

/-- The waits as one function, for the attempts that have one. -/
def TimeOutProvider.waits (provider : TimeOutProvider X) (i : ℕ) : ℤ :=
  match provider.wait i with
  | .ok wait => wait
  | .error _ => 0

section Elapses
variable {isFiltered : Thrown X → Bool} {provider : TimeOutProvider X} {maxRetry : Int32}
  {o : Overload Ty} {script : Script X (o.Result Val)} {i : ℕ}

theorem TimeOutProvider.waits_of_eq {wait : ℤ} (h : provider.wait i = .ok wait) :
    provider.waits i = wait := by
  rw [waits, h]

theorem TimeOutProvider.Elapses.waits (h : provider.Elapses i) :
    provider.Waits i (provider.waits i) ∧ ¬ IsInfinite (provider.waits i) := by
  obtain ⟨wait, hwait, hfinite⟩ := h
  rw [waits_of_eq hwait.eq]
  exact ⟨hwait, hfinite⟩

theorem Script.not_cancelledBefore_of_none (h : script.cancelled = none) (i : ℕ) :
    ¬ script.CancelledBefore i := by
  rintro ⟨moment, hmoment, -⟩
  cases h.symm.trans hmoment

variable (hi : i < 2 ^ 31) (helapses : ∀ j < i, provider.Elapses j)
  (hlive : script.cancelled = none)

include hi helapses hlive

theorem RetryDispatcherAsync.completes_of_elapses
    (hretry : ∀ j < i, script.Retries isFiltered maxRetry j)
    (hlast : ¬ script.Retries isFiltered maxRetry i) : ∃ c,
      Completes isFiltered provider maxRetry o script ((script.outcome i).mapError .byDelegate) c ∧
        c.attempts = i + 1 := by
  obtain ⟨c, hcompletes, hattempts, -⟩ := completes_at (o := o) hi hretry
    (fun j hj => (helapses j hj).waits.1) (fun j hj => (helapses j hj).waits.2) hlast
    (Script.not_cancelledBefore_of_none hlive i)
  exact ⟨c, hcompletes, hattempts⟩

theorem RetryDispatcherAsync.not_completes_ok
    (hretry : ∀ j ≤ i, script.Retries isFiltered maxRetry j) (hbad : ¬ provider.Elapses i)
    (value : o.Result Val) (c : CallRecord X) :
    ¬ Completes isFiltered provider maxRetry o script (.ok value) c := by
  have hretries : ∀ j < i, script.Retries isFiltered maxRetry j := fun j hj => hretry j hj.le
  have hw : ∀ j < i, provider.Waits j (provider.waits j) := fun j hj => (helapses j hj).waits.1
  have hfinite : ∀ j < i, ¬ IsInfinite (provider.waits j) := fun j hj => (helapses j hj).waits.2
  have hnever := Script.not_cancelledBefore_of_none hlive
  obtain ⟨turns, c₀, hloop, hc₀⟩ := reaches_attempt hi.le hretries hw hfinite (hnever i)
  have hlast := hretry i le_rfl
  intro hcompletes
  have hends := completes_iff_ends.mp hcompletes
  cases hwait : provider.wait i with
  | error e =>
      obtain ⟨c₁, herror, -⟩ := ends_of_wait_error hi hc₀ hlast hwait
      cases (hends.unique (.of_reached hloop herror)).1
  | ok wait =>
      by_cases haccepts : DelayAccepts wait
      · have hinfinite : IsInfinite wait := by
          by_contra hfinite
          exact hbad ⟨wait, ⟨hwait, haccepts⟩, hfinite⟩
        rw [← provider.waits_of_eq hwait] at hinfinite haccepts
        exact (hangs_at hi hretries hw hfinite hlast
          ⟨by rw [hwait, provider.waits_of_eq hwait], haccepts⟩ hinfinite
          (hnever (i + 1))).not_completes _ _ hcompletes
      · obtain ⟨c₁, herror, -⟩ := ends_of_not_accepted hi hc₀ hlast hwait haccepts
        cases (hends.unique (.of_reached hloop herror)).1

end Elapses

section ForEver
variable (builder : RetryBuilder X) {o : Overload Ty} {script : Script X (o.Result Val)}

/-- Attempt `i` fails with an exception that the filter does not exclude. -/
def Script.Retryable {R : Type} (script : Script X R) (isFiltered : Thrown X → Bool) (i : ℕ) :
    Prop :=
  ∃ x, script.outcome i = .error x ∧ isFiltered (.byDelegate x) = false

theorem ofNat_ne_maxValue {i : ℕ} (hi : i < 2 ^ 31 - 1) : Int32.ofNat i ≠ Int32.maxValue := by
  intro h
  have hmax : Int32.maxValue = .ofNat (2 ^ 31 - 1) := rfl
  have heq := ofNat_inj (by omega) (by omega) (h.trans hmax)
  omega

theorem Script.Retryable.retries {R : Type} {script : Script X R} {isFiltered : Thrown X → Bool}
    {i : ℕ} (h : script.Retryable isFiltered i) (hi : i < 2 ^ 31 - 1) :
    script.Retries isFiltered Int32.maxValue i :=
  ⟨ofNat_ne_maxValue hi, h⟩

/-- The waits of the builder, none of them if it has no time-out provider. -/
def RetryBuilder.waits : TimeOutProvider X :=
  builder.timeOutProvider.getD (.single 0)

theorem RetryBuilder.elapses_iff {i : ℕ} : builder.waits.Elapses i ↔
    ∀ provider, builder.timeOutProvider = some provider → provider.Elapses i := by
  obtain ⟨exceptionFilter, timeOutProvider⟩ := builder
  cases timeOutProvider with
  | none => exact iff_of_true (TimeOutProvider.elapses_single_zero i) nofun
  | some provider =>
      constructor
      · rintro h _ ⟨⟩
        exact h
      · exact fun h => h provider rfl

variable (hlive : script.cancelled = none)

include hlive

/-- Short of 2 ^ 31 failures the bound is not reached. -/
theorem RetryBuilder.forEver_completes {n : ℕ} (hn : n < 2 ^ 31)
    (hfail : ∀ i < n, script.Retryable builder.exceptionFilter i) {value : o.Result Val}
    (hvalue : script.outcome n = .ok value) (helapses : ∀ i < n, builder.waits.Elapses i) :
    ∃ c, builder.forEver.Completes o script (.ok value) c ∧ c.attempts = n + 1 := by
  have hlast : ¬ script.Retries builder.exceptionFilter Int32.maxValue n := by
    rintro ⟨-, x, houtcome, -⟩
    cases hvalue.symm.trans houtcome
  obtain ⟨c, hcompletes, hattempts⟩ := RetryDispatcherAsync.completes_of_elapses hn helapses hlive
    (fun i hi => (hfail i hi).retries (by omega)) hlast
  rw [hvalue] at hcompletes
  exact ⟨c, builder.completes_iff.mpr hcompletes, hattempts⟩

/-- The failure number 2 ^ 31 is rethrown. -/
theorem RetryBuilder.forEver_rethrows
    (hfail : ∀ i < 2 ^ 31, script.Retryable builder.exceptionFilter i)
    (helapses : ∀ i < 2 ^ 31 - 1, builder.waits.Elapses i) : ∃ x c,
      script.outcome (2 ^ 31 - 1) = .error x ∧
      builder.forEver.Completes o script (.error (.byDelegate x)) c ∧ c.attempts = 2 ^ 31 := by
  obtain ⟨x, houtcome, -⟩ := hfail (2 ^ 31 - 1) (by omega)
  have hlast : ¬ script.Retries builder.exceptionFilter Int32.maxValue (2 ^ 31 - 1) :=
    fun h => h.1 rfl
  obtain ⟨c, hcompletes, hattempts⟩ := RetryDispatcherAsync.completes_of_elapses (by omega)
    helapses hlive (fun i hi => (hfail i (by omega)).retries hi) hlast
  rw [houtcome] at hcompletes
  exact ⟨x, c, houtcome, builder.completes_iff.mpr hcompletes, hattempts⟩

/-- A failure is retried for as long as the counter is below its bound and the waits
elapse. -/
theorem RetryBuilder.forEver_completes_iff {n : ℕ}
    (hfail : ∀ i < n, script.Retryable builder.exceptionFilter i) {value : o.Result Val}
    (hvalue : script.outcome n = .ok value) :
    (∃ c, builder.forEver.Completes o script (.ok value) c ∧ c.attempts = n + 1) ↔
      n < 2 ^ 31 ∧ ∀ provider, builder.timeOutProvider = some provider →
        ∀ i < n, provider.Elapses i := by
  constructor
  · rintro ⟨c, hcompletes, -⟩
    have helapses : ∀ i < n, i < 2 ^ 31 - 1 → builder.waits.Elapses i := by
      intro i
      induction i using Nat.strong_induction_on with
      | h i ih =>
          intro hi hmax
          by_contra hbad
          exact RetryDispatcherAsync.not_completes_ok (by omega)
            (fun j hj => ih j hj (by omega) (by omega)) hlive
            (fun j hj => (hfail j (by omega)).retries (by omega)) hbad value c
            (builder.completes_iff.mp hcompletes)
    have hn : n < 2 ^ 31 := by
      by_contra hn
      obtain ⟨x, c', -, hrethrows, -⟩ := builder.forEver_rethrows hlive
        (fun i hi => hfail i (by omega)) fun i hi => helapses i (by omega) hi
      cases (builder.completes_unique hcompletes hrethrows).1
    exact ⟨hn, fun provider hprovider i hi =>
      builder.elapses_iff.mp (helapses i hi (by omega)) provider hprovider⟩
  · rintro ⟨hn, helapses⟩
    exact builder.forEver_completes hlive hn hfail hvalue fun i hi =>
      builder.elapses_iff.mpr fun provider hprovider => helapses provider hprovider i hi

end ForEver

/-- `RetryPolicy.ForAllException()`. -/
def forAllException : RetryBuilderWithWait Unit := ⟨fun _ => false⟩

theorem failing_retryable {failures i : ℕ} (hi : i < failures) :
    (failing failures).Retryable (fun _ => false) i :=
  ⟨(), if_pos hi, rfl⟩

theorem failing_succeeds (failures : ℕ) : (failing failures).outcome failures = .ok () := by
  change (if failures < failures then _ else _) = _
  rw [if_neg (lt_irrefl failures)]

/-- One failure. -/
theorem forEver_completes_iff_one :
    (∃ c, forAllException.getRetryBuilder.forEver.Completes .action (failing 1) (.ok ()) c ∧
      c.attempts = 1 + 1) ↔
      1 < 2 ^ 31 ∧ ∀ provider, forAllException.getRetryBuilder.timeOutProvider = some provider →
        ∀ i < 1, provider.Elapses i :=
  RetryBuilder.forEver_completes_iff _ rfl (fun _ hi => failing_retryable hi) (failing_succeeds 1)

/-- After 2 ^ 31 failures `ForEver` gives up. -/
theorem forEver_gives_up : (∀ i < 2 ^ 31, (failing (2 ^ 31)).Retryable (fun _ => false) i) ∧
    (failing (2 ^ 31)).outcome (2 ^ 31) = .ok () ∧ (failing (2 ^ 31)).cancelled = none ∧
    ¬ ∃ c, forAllException.forEver.Completes .action (failing (2 ^ 31)) (.ok ()) c := by
  have hfail : ∀ i < 2 ^ 31, (failing (2 ^ 31)).Retryable (fun _ => false) i :=
    fun _ hi => failing_retryable hi
  obtain ⟨x, c, -, hrethrows, -⟩ := RetryBuilder.forEver_rethrows
    forAllException.getRetryBuilder rfl hfail fun i _ => TimeOutProvider.elapses_single_zero i
  refine ⟨hfail, failing_succeeds _, rfl, ?_⟩
  rintro ⟨c', hcompletes⟩
  cases (forAllException.getRetryBuilder.completes_unique hcompletes hrethrows).1

/-- What a call may fail with: the exception of its last attempt, or one that its
cancelled token caused. -/
def Script.Explains {R : Type} (script : Script X R) (e : Thrown X) (c : CallRecord X) : Prop :=
  (∃ i x, c.attempts = i + 1 ∧ script.outcome i = .error x ∧ e = .byDelegate x) ∨
    e.IsOperationCanceled ∧ c.isCancellationRequested = true

theorem timeSpanAt_mem {timeSpans : List ℤ} {index : ℤ} (hindex : 0 ≤ index)
    (hlt : index < timeSpans.length) :
    ∃ wait ∈ timeSpans, (timeSpanAt timeSpans index : Except (Thrown X) ℤ) = .ok wait := by
  have hbound : index.toNat < timeSpans.length := by omega
  refine ⟨timeSpans[index.toNat], List.getElem_mem hbound, ?_⟩
  rw [timeSpanAt, if_neg (by omega), List.getElem?_eq_getElem hbound]

/-- The array is asked at a number in its range, unless it is empty. -/
theorem TimeOutProvider.array_mem {waits : List ℤ} (hwaits : waits ≠ []) {count : Int32}
    (hcount : 0 ≤ count.toInt) : ∃ wait ∈ waits,
      (TimeOutProvider.array waits : TimeOutProvider X).getTimeOutForRetry count = .ok wait := by
  have hlength := List.length_pos_iff.mpr hwaits
  rw [getTimeOutForRetry]
  split
  · exact timeSpanAt_mem (by omega) (by omega)
  · exact timeSpanAt_mem hcount (by omega)

section ArrayOfWaits
variable {isFiltered : Thrown X → Bool} {maxRetry : Int32} {waits : List ℤ}

/-- The counter has not gone past its bound. -/
def RetryDispatcherAsync.Place.Below (maxRetry : Int32) : RetryDispatcherAsync.Place → Prop
  | .whileTrue count | .awaiting _ count => 0 ≤ count.toInt ∧ count.toInt ≤ maxRetry.toInt

theorem below_succ {count : Int32} (hpos : 0 ≤ count.toInt) (hle : count.toInt ≤ maxRetry.toInt)
    (hne : count ≠ maxRetry) : 0 ≤ (count + 1).toInt ∧ (count + 1).toInt ≤ maxRetry.toInt := by
  have hlt : count.toInt ≠ maxRetry.toInt := fun h => hne (Int32.toInt_inj.mp h)
  have hmax := maxRetry.toInt_lt
  have hone : (1 : Int32).toInt = 1 := rfl
  rw [Int32.toInt_add, hone, Int.bmod_eq_of_le (by omega) (by omega)]
  omega

namespace RetryDispatcherAsync
variable {R : Type} {script : Script X R}

/-- What is true of the ends of a call. -/
def Explained (script : Script X R) (outcome : Except (Thrown X) R) (c : CallRecord X) : Prop :=
  ∀ e, outcome = .error e → script.Explains e c

theorem explained_ok (value : R) (c : CallRecord X) : Explained script (.ok value) c := nofun

theorem explained_of {e : Thrown X} {c : CallRecord X} (h : script.Explains e c) :
    Explained script (.error e) c := by
  rintro _ ⟨⟩
  exact h

theorem waitIfNeeded_post (isFiltered : Thrown X → Bool) (maxRetry : Int32) (script : Script X R)
    (hwaits : waits ≠ []) (haccepted : ∀ wait ∈ waits, DelayAccepts wait) {count : Int32}
    (hpos : 0 ≤ count.toInt) (c : CallRecord X) :
    (∃ place c', waitIfNeeded (waiting isFiltered (.array waits) maxRetry script) count c =
        (.ok place, c') ∧
          (place = .whileTrue (count + 1) ∨ ∃ wait, place = .awaiting wait (count + 1))) ∨
      ∃ c', waitIfNeeded (waiting isFiltered (.array waits) maxRetry script) count c =
        (.error .taskCanceled, c') ∧ c'.isCancellationRequested = true := by
  obtain ⟨wait, hmem, hwait⟩ := TimeOutProvider.array_mem (X := X) hwaits hpos
  have hget : (waiting isFiltered (.array waits) maxRetry script).getTimeOutForRetry count c =
      (.ok wait, c) := Prod.ext hwait rfl
  by_cases hzero : wait = 0
  · subst hzero
    exact .inl ⟨_, c, waitIfNeeded_of_zero hget, .inl rfl⟩
  · have hdelay : (waiting isFiltered (.array waits) maxRetry script).delay wait c =
        (if c.isCancellationRequested then .error .taskCanceled else .ok (),
          { c with trace := c.trace ++ [.delay wait] }) := by
      change taskDelay wait c = _
      rw [taskDelay, if_neg (not_not_intro (haccepted wait hmem))]
    cases hrequested : c.isCancellationRequested with
    | true =>
        rw [hrequested, if_pos rfl] at hdelay
        exact .inr ⟨_, waitIfNeeded_of_delay_throws hget hzero hdelay, rfl⟩
    | false =>
        rw [hrequested, if_neg Bool.false_ne_true] at hdelay
        exact .inl ⟨_, _, waitIfNeeded_of_delay hget hzero hdelay, .inr ⟨wait, rfl⟩⟩

theorem delayCompleted_post (script : Script X R) (wait : ℤ) (c : CallRecord X) :
    (∃ completed c', script.delayCompleted wait c = (.ok completed, c')) ∨
      ∃ c', script.delayCompleted wait c = (.error .taskCanceled, c') ∧
        c'.isCancellationRequested = true := by
  unfold Script.delayCompleted
  dsimp only
  split
  · exact .inl ⟨_, _, rfl⟩
  · split
    · exact .inr ⟨_, rfl, ‹_›⟩
    · exact .inl ⟨_, _, rfl⟩

theorem catch_post (hwaits : waits ≠ []) (haccepted : ∀ wait ∈ waits, DelayAccepts wait)
    {count : Int32} {c c' : CallRecord X} {x : X} {i : ℕ}
    (hthrow : throwIfCancellationRequested c = (.ok (), c))
    (hattempt : script.attempt c = (.error (.byDelegate x), c')) (hattempts : c'.attempts = i + 1)
    (houtcome : script.outcome i = .error x) (hbelow : (Place.whileTrue count).Below maxRetry) :
    Comp.Post (fun place _ => place.Below maxRetry) (Explained script)
      (turn (waiting isFiltered (.array waits) maxRetry script) script.attempt
        (.whileTrue count) c) := by
  by_cases hcount : count = maxRetry
  · rw [turn_of_maxRetry hthrow hcount hattempt]
    exact explained_of (.inl ⟨i, x, hattempts, houtcome, rfl⟩)
  · have hfilter : consult isFiltered (.byDelegate x) c' = (.ok (isFiltered (.byDelegate x)),
        { c' with consulted := c'.consulted ++ [.byDelegate x] }) := rfl
    cases hx : isFiltered (.byDelegate x) with
    | true =>
        rw [hx] at hfilter
        rw [turn_of_filtered hthrow hcount hattempt hfilter]
        exact explained_of (.inl ⟨i, x, hattempts, houtcome, rfl⟩)
    | false =>
        rw [hx] at hfilter
        obtain ⟨place, c₁, hwait, hplace⟩ | ⟨c₁, hwait, hrequested⟩ :=
          waitIfNeeded_post isFiltered maxRetry script hwaits haccepted hbelow.1
            { c' with consulted := c'.consulted ++ [.byDelegate x] }
        · rw [turn_of_retry hthrow hcount hattempt hfilter hwait]
          have hnext := below_succ hbelow.1 hbelow.2 hcount
          obtain rfl | ⟨wait, rfl⟩ := hplace <;> exact hnext
        · rw [turn_of_wait_throws hthrow hcount hattempt hfilter hwait]
          exact explained_of (.inr ⟨trivial, hrequested⟩)

/-- One turn keeps the counter in its range, and ends the call only as it may. -/
theorem turn_post (hwaits : waits ≠ []) (haccepted : ∀ wait ∈ waits, DelayAccepts wait)
    (place : Place) (c : CallRecord X) (hbelow : place.Below maxRetry) :
    Comp.Post (fun place _ => place.Below maxRetry) (Explained script)
      (turn (waiting isFiltered (.array waits) maxRetry script) script.attempt place c) := by
  cases place with
  | awaiting wait count =>
      obtain ⟨completed, c', hcompleted⟩ | ⟨c', hcancelled, hrequested⟩ :=
        delayCompleted_post script wait c
      · rw [turn_of_completed hcompleted]
        cases completed <;> exact hbelow
      · rw [turn_of_delay_cancelled hcancelled]
        exact explained_of (.inr ⟨trivial, hrequested⟩)
  | whileTrue count =>
      cases hrequested : c.isCancellationRequested with
      | true =>
          rw [turn_of_cancelled (throwIf_of_requested hrequested)]
          exact explained_of (.inr ⟨trivial, hrequested⟩)
      | false =>
          have hthrow : throwIfCancellationRequested c = (.ok (), c) := by
            rw [throwIfCancellationRequested, hrequested]
            rfl
          have hattempt : script.attempt c =
              ((script.outcome c.attempts).mapError .byDelegate, (script.attempt c).2) := rfl
          cases houtcome : script.outcome c.attempts with
          | ok value =>
              rw [houtcome] at hattempt
              rw [turn_of_ok hthrow hattempt]
              exact explained_ok value _
          | error x =>
              rw [houtcome] at hattempt
              exact catch_post hwaits haccepted hthrow hattempt rfl houtcome hbelow

end RetryDispatcherAsync

namespace RetryDispatcherAsync
variable {o : Overload Ty} {script : Script X (o.Result Val)} {e : Thrown X} {c : CallRecord X}

theorem Completes.explains_of_ne_nil (hwaits : waits ≠ [])
    (haccepted : ∀ wait ∈ waits, DelayAccepts wait) (hmax : 0 ≤ maxRetry.toInt)
    (h : Completes isFiltered (.array waits) maxRetry o script (.error e) c) :
    script.Explains e c := by
  have hstart : (Place.whileTrue 0).Below maxRetry := ⟨le_rfl, hmax⟩
  have hexplained : Explained script (.error e) c :=
    (completes_iff_ends.mp h).post (turn_post hwaits haccepted) hstart
  exact hexplained e rfl

theorem start_atAttempt (hlive : script.cancelled ≠ some .beforeCall) (w : ℕ → ℤ) :
    script.start.AtAttempt w 0 :=
  ⟨rfl, rfl, beq_eq_false_iff_ne.mpr hlive⟩

theorem Completes.explains_of_not_retries {provider : TimeOutProvider X}
    (hfirst : script.cancelled = some .beforeCall ∨ ¬ script.Retries isFiltered maxRetry 0)
    (h : Completes isFiltered provider maxRetry o script (.error e) c) : script.Explains e c := by
  have hends := completes_iff_ends.mp h
  by_cases hlive : script.cancelled = some .beforeCall
  · have hrequested : script.start.isCancellationRequested = true := beq_iff_eq.mpr hlive
    obtain ⟨he, rfl⟩ := hends.unique
      (.of_error (turn_of_cancelled (throwIf_of_requested hrequested)))
    cases he
    exact .inr ⟨trivial, hrequested⟩
  · obtain ⟨c', requested, hlast, hc'⟩ := ends_of_not_retries provider
      (start_atAttempt hlive fun _ => 0) (hfirst.resolve_left hlive)
    obtain ⟨he, rfl⟩ := hends.unique hlast
    cases houtcome : script.outcome 0 with
    | ok value =>
        rw [houtcome] at he
        cases he
    | error x =>
        rw [houtcome] at he
        cases he
        exact .inl ⟨0, x, hc'.attempts, houtcome, rfl⟩

theorem completes_of_empty (hlive : script.cancelled ≠ some .beforeCall)
    (hretry : script.Retries isFiltered maxRetry 0) :
    ∃ c, Completes isFiltered (.array []) maxRetry o script (.error .indexOutOfRange) c := by
  have hwait : (TimeOutProvider.array [] : TimeOutProvider X).wait 0 = .error .indexOutOfRange :=
    rfl
  obtain ⟨c, hends, -⟩ := ends_of_wait_error (by decide) (start_atAttempt hlive fun _ => 0) hretry
    hwait
  exact ⟨c, completes_iff_ends.mpr hends⟩

end RetryDispatcherAsync

/-- The dispatchers that a builder makes. -/
inductive RetryBuilder.Makes (builder : RetryBuilder X) : RetryBasicDispatcher X → Prop
  | forEver : builder.Makes builder.forEver
  | withMaxRetry (maxTimes : Int32) (h : 0 ≤ maxTimes) :
      builder.Makes (builder.withMaxRetry maxTimes)

/-- A retry with an array of waits fails as it may, unless the array is empty and the
first attempt is to be retried. -/
theorem withWaitBetweenRetry_explains_iff (builder : RetryBuilderWithWait X)
    {wait : WaitBetweenRetry X} (harray : wait.timeOutProvider = .array waits)
    (haccepted : ∀ wait ∈ waits, DelayAccepts wait) {d : RetryBasicDispatcher X}
    (hd : (builder.withWaitBetweenRetry wait).Makes d) (o : Overload Ty)
    (script : Script X (o.Result Val)) :
    (∀ e c, d.Completes o script (.error e) c → script.Explains e c) ↔
      ¬ (waits = [] ∧ script.cancelled ≠ some .beforeCall ∧
        d ≠ (builder.withWaitBetweenRetry wait).withMaxRetry 0 ∧
        script.Retryable builder.exceptionFilter 0) := by
  obtain ⟨maxRetry, hmax, rfl⟩ : ∃ maxRetry : Int32, 0 ≤ maxRetry.toInt ∧
      d = (builder.withWaitBetweenRetry wait).withMaxRetry maxRetry := by
    cases hd with
    | forEver => exact ⟨Int32.maxValue, by decide, rfl⟩
    | withMaxRetry maxTimes h => exact ⟨maxTimes, Int32.le_iff_toInt_le.mp h, rfl⟩
  have hasync : ∀ maxRetry, (builder.withWaitBetweenRetry wait).withMaxRetry maxRetry =
      .retryDispatcherAsync builder.exceptionFilter (.array waits) maxRetry := fun maxRetry => by
    rw [← harray]
    rfl
  have hzero : maxRetry ≠ 0 ↔ Int32.ofNat 0 ≠ maxRetry := ne_comm
  simp only [hasync, ne_eq, RetryBasicDispatcher.retryDispatcherAsync.injEq, true_and]
  constructor
  · rintro hexplains ⟨rfl, hlive, hmaxRetry, hretryable⟩
    obtain ⟨c, hcompletes⟩ := RetryDispatcherAsync.completes_of_empty hlive
      ⟨hzero.mp hmaxRetry, hretryable⟩
    obtain ⟨i, x, -, -, he⟩ | ⟨he, -⟩ := hexplains _ c hcompletes
    · cases he
    · exact he
  · intro hnot e c hcompletes
    by_cases hempty : waits = []
    · refine RetryDispatcherAsync.Completes.explains_of_not_retries ?_ hcompletes
      by_contra hfirst
      obtain ⟨hlive, hretries⟩ := not_or.mp hfirst
      have hretry := not_not.mp hretries
      exact hnot ⟨hempty, hlive, hzero.mpr hretry.1, hretry.2⟩
    · exact RetryDispatcherAsync.Completes.explains_of_ne_nil hempty haccepted hmax hcompletes

/-- Two waits. -/
theorem withWaitBetweenRetry_explains_iff_two :
    (∀ e c, (forAllException.withWaitBetweenRetry (.timeSpans [10000, 20000])).forEver.Completes
        .action (failing 1) (.error e) c → (failing 1).Explains e c) ↔
      ¬ ([10000, 20000] = ([] : List ℤ) ∧ (failing 1).cancelled ≠ some .beforeCall ∧
        (forAllException.withWaitBetweenRetry (.timeSpans [10000, 20000])).forEver ≠
          (forAllException.withWaitBetweenRetry (.timeSpans [10000, 20000])).withMaxRetry 0 ∧
        (failing 1).Retryable forAllException.exceptionFilter 0) :=
  withWaitBetweenRetry_explains_iff forAllException rfl (by decide) .forEver .action (failing 1)

/-- An empty array takes the place of the exception. -/
theorem empty_waits : ∃ c, (forAllException.withWaitBetweenRetry (.timeSpans [])).forEver.Completes
      .action (failing 1) (.error .indexOutOfRange) c ∧
    ¬ (failing 1).Explains .indexOutOfRange c := by
  have hretry : (failing 1).Retries (fun _ => false) Int32.maxValue 0 := ⟨by decide, (), rfl, rfl⟩
  obtain ⟨c, hcompletes⟩ := RetryDispatcherAsync.completes_of_empty (by decide) hretry
  refine ⟨c, hcompletes, ?_⟩
  rintro (⟨i, x, -, -, he⟩ | ⟨he, -⟩)
  · cases he
  · exact he

end ArrayOfWaits

section Recorded
variable {E S α : Type}

/-- A world, with the invocations of the delegate and the exceptions that the filter was
asked about. -/
structure Recorded (E S : Type) where
  world : S
  attempts : ℕ := 0
  consulted : List E := []

def unrecorded (x : Comp E S α) : Comp E (Recorded E S) α := fun r =>
  ((x r.world).1, { r with world := (x r.world).2 })

def recordAttempt (x : Comp E S α) : Comp E (Recorded E S) α := fun r =>
  ((x r.world).1, { r with world := (x r.world).2, attempts := r.attempts + 1 })

def recordConsult (isFiltered : E → Comp E S Bool) (exception : E) : Comp E (Recorded E S) Bool :=
  fun r => ((isFiltered exception r.world).1,
    { r with world := (isFiltered exception r.world).2, consulted := r.consulted ++ [exception] })

def Overload.recorded : (o : Overload Ty) → o.Delegate E S Val → o.Delegate E (Recorded E S) Val
  | .func _ => fun action => recordAttempt action
  | .action => fun action => recordAttempt action
  | .funcTask => fun action => recordAttempt action
  | .funcTaskOf _ => fun action => recordAttempt action

def Retrying.recorded (d : Retrying E S) : Retrying E (Recorded E S) where
  throwIfCancellationRequested := unrecorded d.throwIfCancellationRequested
  isFiltered := recordConsult d.isFiltered
  maxRetry := d.maxRetry

/-- The waits of a provider, over any `Task.Delay`. -/
def Retrying.waiting (d : Retrying (Thrown X) S) (provider : TimeOutProvider X)
    (delay : ℤ → Comp (Thrown X) S Unit) (isCompleted : ℤ → Comp (Thrown X) S Bool) :
    Waiting (Thrown X) S where
  toRetrying := d
  getTimeOutForRetry count := fun s => (provider.getTimeOutForRetry count, s)
  delay := delay
  isCompleted := isCompleted

/-- The delegate, the filter and the token may do anything: after any number of turns the
two dispatchers have the same answer, have invoked the delegate as often, and have asked
the filter about the same exceptions. -/
theorem singleTimeOutProvider_zero_agrees (d : Retrying (Thrown X) S)
    (delay : ℤ → Comp (Thrown X) (Recorded (Thrown X) S) Unit)
    (isCompleted : ℤ → Comp (Thrown X) (Recorded (Thrown X) S) Bool) (o : Overload Ty)
    (action : o.Delegate (Thrown X) S Val) (turns : ℕ) (r : Recorded (Thrown X) S) :
    awaited (RetryDispatcherAsync.enqueue
        (d.recorded.waiting (.single (fromMilliseconds 0)) delay isCompleted) o
        (o.recorded action) turns) r =
      awaited (RetryDispatcher.enqueue d.recorded o (o.recorded action) turns) r := by
  have hzero : fromMilliseconds 0 = 0 := rfl
  have hnone : ∀ count, (d.recorded.waiting (.single (fromMilliseconds 0)) delay
      isCompleted).getTimeOutForRetry count = pure 0 := by
    intro count
    rw [hzero]
    rfl
  exact congrFun (awaited_enqueue_of_no_wait hnone o (o.recorded action) turns) r

end Recorded

section Stored
variable {T W : Type} [DecidableEq T] [DecidableEq Ty]

def TimeOutProvider.waiting (provider : TimeOutProvider X) : Int32 → Comp (Thrown X) W ℤ :=
  fun count w => (provider.getTimeOutForRetry count, w)

def RetryBasicDispatcher.tree : RetryBasicDispatcher X → DispatcherTree (Thrown X) W Val
  | .retryDispatcher exceptionFilter maxRetry => .retryDispatcher exceptionFilter maxRetry
  | .retryDispatcherAsync exceptionFilter timeOutProvider maxRetry =>
      .retryDispatcherAsync exceptionFilter timeOutProvider.waiting maxRetry

variable (r : Runtime (Thrown X) T Val) (s : Store (Thrown X) T W Val) (i : ℕ)

/-- A builder of the store, with what its collection has now. -/
inductive Store.HasRetry : Builder (Thrown X) T W → RetryBuilder X → Prop
  | withType (type : ℕ) : HasRetry (.retryWithType type)
      ⟨(ExceptionFilter.throwOnType (s.hashSets type)).isFiltered r, none⟩
  | withWait (filter : ExceptionFilter (Thrown X) T ℕ) : HasRetry (.retryWithWait filter)
      ⟨(filter.map s.hashSets).isFiltered r, none⟩
  | retry (filter : ExceptionFilter (Thrown X) T ℕ) (timeOutProvider : Option (TimeOutProvider X)) :
      HasRetry (.retry filter (timeOutProvider.map TimeOutProvider.waiting))
        ⟨(filter.map s.hashSets).isFiltered r, timeOutProvider⟩

/-- The call has built this dispatcher. -/
def Store.Builds (t : Option (Store (Thrown X) T W Val)) (d : RetryBasicDispatcher X) : Prop :=
  ∃ product, t = some { s with built := s.built ++ [product] } ∧
    product.configured.tree r = d.tree

variable {r s i}

/-- The methods of a builder in the store make the dispatchers of this module. -/
theorem Store.invoke_retry {b : Builder (Thrown X) T W} {builder : RetryBuilder X}
    (h : s.HasRetry r b builder) (maxTimes : Int32) :
    s.Builds r (s.invoke i b .forEver) builder.forEver ∧
      s.Builds r (s.invoke i b (.withMaxRetry maxTimes)) (builder.withMaxRetry maxTimes) := by
  cases h with
  | withType type => exact ⟨⟨_, rfl, rfl⟩, ⟨_, rfl, rfl⟩⟩
  | withWait filter => exact ⟨⟨_, rfl, rfl⟩, ⟨_, rfl, rfl⟩⟩
  | retry filter timeOutProvider =>
      cases timeOutProvider with
      | none => exact ⟨⟨_, rfl, rfl⟩, ⟨_, rfl, rfl⟩⟩
      | some timeOutProvider => exact ⟨⟨_, rfl, rfl⟩, ⟨_, rfl, rfl⟩⟩

theorem Store.invoke_withWaitBetweenRetry (wait : WaitBetweenRetry X)
    {b : Builder (Thrown X) T W} {exceptionFilter : Thrown X → Bool}
    (hb : ∀ filter provider, b ≠ .retry filter provider)
    (h : s.HasRetry r b (RetryBuilderWithWait.getRetryBuilder ⟨exceptionFilter⟩)) :
    ∃ b', s.invoke i b (.withWaitBetweenRetry wait.timeOutProvider.waiting) = some (s.push b') ∧
      s.HasRetry r b' (RetryBuilderWithWait.withWaitBetweenRetry ⟨exceptionFilter⟩ wait) := by
  cases h with
  | withType type => exact ⟨_, rfl, .retry (.throwOnType type) (some wait.timeOutProvider)⟩
  | withWait filter => exact ⟨_, rfl, .retry filter (some wait.timeOutProvider)⟩
  | retry filter timeOutProvider => exact (hb _ _ rfl).elim

end Stored

end ComposableAsync.Resilient
