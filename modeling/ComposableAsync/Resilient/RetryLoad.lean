import ComposableAsync.Resilient.PolicyBuilders
import ComposableAsync.Resilient.BreakerCounter
import Mathlib.Data.ENat.Lattice

/-!
# The load of a retry dispatcher and a breaker in composition

A retry dispatcher that retries on every exception, composed with a breaker that
counts every exception and throws when open, in the two orders. The delegate
follows a script: attempt `i` has outcome `outcomes i`, whatever its overload. All
readings of the clock lie within the delay of the breaker.
-/
namespace ComposableAsync.Resilient
open Foundations ComposableAsync.Core

variable {E X Ty Token R : Type} {Val : Ty → Type}

/-- How often the delegate has run, and how often the clock was read. -/
structure Attempts where
  attempt : ℕ := 0
  reading : ℕ := 0
  deriving DecidableEq, Repr

/-- A clock, and tokens none of which is cancelled. -/
def steady (none : Token) (clock : ℕ → ℤ) : Environment E Attempts Token where
  none := none
  throwIfCancellationRequested _ := pure ()
  now w := (clock w.reading, { w with reading := w.reading + 1 })
  delay _ _ := pure ()

def scripted (outcomes : ℕ → Except E R) : Comp E Attempts R :=
  fun w => (outcomes w.attempt, { w with attempt := w.attempt + 1 })

/-- A delegate that returns a task; `throws` tells which of its failures it throws
before there is a task. -/
def scriptedTask (outcomes : ℕ → Except E R) (throws : ℕ → Bool) :
    Comp E Attempts (Awaited E R) :=
  fun w => (if throws w.attempt then (outcomes w.attempt).map .ok else .ok (outcomes w.attempt),
    { w with attempt := w.attempt + 1 })

/-- The `Enqueue` overloads, without and with a token. -/
def Overload.call (d : IDispatcher E (StateM (Memory ℕ Breaker Attempts)) Val Token)
    (throws : ℕ → Bool) : (o : Overload Ty) → Option Token →
    (ℕ → Except E (o.Result Val)) → Comp E (Memory ℕ Breaker Attempts) (Awaited E (o.Result Val))
  | .func _, none, outcomes => d.enqueueFunc (onOutside (scripted outcomes))
  | .func _, some token, outcomes => d.enqueueFuncWith (onOutside (scripted outcomes)) token
  | .action, none, outcomes => d.enqueueAction (onOutside (scripted outcomes))
  | .action, some token, outcomes => d.enqueueActionWith (onOutside (scripted outcomes)) token
  | .funcTask, none, outcomes => d.enqueueFuncTask (onOutside (scriptedTask outcomes throws))
  | .funcTask, some token, outcomes =>
      d.enqueueFuncTaskWith (onOutside (scriptedTask outcomes throws)) token
  | .funcTaskOf _, none, outcomes => d.enqueueFuncTaskOf (onOutside (scriptedTask outcomes throws))
  | .funcTaskOf _, some token, outcomes =>
      d.enqueueFuncTaskOfWith (onOutside (scriptedTask outcomes throws)) token

/-- Awaited, a failure is the same whether it was thrown or is in the task. -/
theorem scriptedTask_await (outcomes : ℕ → Except E R) (throws : ℕ → Bool) :
    (do await (← onOutside (scriptedTask outcomes throws)) :
      Comp E (Memory ℕ Breaker Attempts) R) = onOutside (scripted outcomes) := by
  funext m
  cases hthrows : throws m.outside.attempt with
  | false =>
      have hcall : onOutside (scriptedTask outcomes throws) m =
          (.ok (outcomes m.outside.attempt), (onOutside (scripted outcomes) m).2) := by
        simp only [onOutside, scriptedTask, scripted, hthrows, Bool.false_eq_true, if_false]
      rw [Comp.bind_of_ok hcall]
      rfl
  | true =>
      cases houtcome : outcomes m.outside.attempt with
      | ok value =>
          have hcall : onOutside (scriptedTask outcomes throws) m =
              (.ok (.ok value), (onOutside (scripted outcomes) m).2) := by
            simp only [onOutside, scriptedTask, scripted, hthrows, if_true, houtcome, Except.map]
          rw [Comp.bind_of_ok hcall]
          simp only [onOutside, scripted, houtcome]
          rfl
      | error exception =>
          have hcall : onOutside (scriptedTask outcomes throws) m =
              (.error exception, (onOutside (scripted outcomes) m).2) := by
            simp only [onOutside, scriptedTask, scripted, hthrows, if_true, houtcome, Except.map]
          rw [Comp.bind_of_error hcall]
          simp only [onOutside, scripted, houtcome]

section Calls
variable {S : Type} {enter : Comp E S (ReturnData R)} {enterAction : Comp E S Bool}
  {check : E → Comp E S Unit} {success : Comp E S Unit} {action : Comp E S R}
  {actionUnit : Comp E S Unit} {s t u v : S} {value : R} {exception : E}

theorem callFunc_of_ok (henter : enter s = (.ok .getContinue, t))
    (ha : action t = (.ok value, u)) (hs : success u = (.ok (), v)) :
    callFunc enter check success action s = (.ok value, v) := by
  rw [callFunc, Comp.bind_of_ok henter]
  change (tryCatch action _ >>= _) t = _
  rw [Comp.bind_of_ok (Comp.tryCatch_of_ok ha), Comp.bind_of_ok hs]
  rfl

theorem callFunc_of_error (henter : enter s = (.ok .getContinue, t))
    (ha : action t = (.error exception, u)) (hc : check exception u = (.ok (), v)) :
    callFunc enter check success action s = (.error exception, v) := by
  rw [callFunc, Comp.bind_of_ok henter]
  change (tryCatch action _ >>= _) t = _
  rw [Comp.bind_of_error]
  rw [Comp.tryCatch_of_error ha, Comp.bind_of_ok hc]
  rfl

theorem callFunc_of_open (henter : enter s = (.error exception, t)) :
    callFunc enter check success action s = (.error exception, t) := Comp.bind_of_error henter

theorem callAction_of_ok (henter : enterAction s = (.ok true, t))
    (ha : actionUnit t = (.ok (), u)) (hs : success u = (.ok (), v)) :
    callAction enterAction check success actionUnit s = (.ok (), v) := by
  rw [callAction, Comp.bind_of_ok henter]
  change (tryCatch actionUnit _ >>= _) t = _
  rw [Comp.bind_of_ok (Comp.tryCatch_of_ok ha)]
  exact hs

theorem callAction_of_error (henter : enterAction s = (.ok true, t))
    (ha : actionUnit t = (.error exception, u)) (hc : check exception u = (.ok (), v)) :
    callAction enterAction check success actionUnit s = (.error exception, v) := by
  rw [callAction, Comp.bind_of_ok henter]
  change (tryCatch actionUnit _ >>= _) t = _
  rw [Comp.bind_of_error]
  rw [Comp.tryCatch_of_error ha, Comp.bind_of_ok hc]
  rfl

theorem callAction_of_open (henter : enterAction s = (.error exception, t)) :
    callAction enterAction check success actionUnit s = (.error exception, t) :=
  Comp.bind_of_error henter

end Calls

section Breakers
variable {W : Type} (c : Settings E Val) (env : Environment E W Token) (cell : ℕ)

/-- The body of an overload of the breaker in `cell`. -/
def breakerCall : (o : Overload Ty) → Comp E (Memory ℕ Breaker W) (o.Result Val) →
    Comp E (Memory ℕ Breaker W) (o.Result Val)
  | .func t | .funcTaskOf t => funcCell c env cell t
  | .action | .funcTask => actionCell c env cell

/-- The clock has been read once more. -/
def tick (m : Memory ℕ Breaker W) : Memory ℕ Breaker W := { m with outside := (env.now m.outside).2 }

variable {c env cell} {o : Overload Ty} {action : Comp E (Memory ℕ Breaker W) (o.Result Val)}
  {m u : Memory ℕ Breaker W} {value : o.Result Val} {exception : E}

theorem enterCell_apply {onEnter : ℤ → Breaker → Except E R × Breaker} {answer : Except E R}
    (h : onEnter (env.now m.outside).1 (m.cells cell) = (answer, m.cells cell)) :
    enterCell env cell onEnter m =
      (answer, if (m.cells cell).state = .opened then tick env m else m) := by
  have happly : enterCell env cell onEnter m =
      ((onEnter (env.now m.outside).1 (m.cells cell)).1,
        { cells := Function.update m.cells cell (onEnter (env.now m.outside).1 (m.cells cell)).2
          outside := if (m.cells cell).state = .opened then (env.now m.outside).2
            else m.outside }) := rfl
  rw [happly, h, Function.update_eq_self]
  split <;> rfl

theorem enterCell_of_closed {onEnter : ℤ → Breaker → Except E R × Breaker} {answer : Except E R}
    (hb : (m.cells cell).state = .closed)
    (h : onEnter (env.now m.outside).1 (m.cells cell) = (answer, m.cells cell)) :
    enterCell env cell onEnter m = (answer, m) := by
  rw [enterCell_apply h, if_neg (by rw [hb]; exact nofun)]

theorem enterCell_of_opened {onEnter : ℤ → Breaker → Except E R × Breaker} {answer : Except E R}
    (hb : (m.cells cell).state = .opened)
    (h : onEnter (env.now m.outside).1 (m.cells cell) = (answer, m.cells cell)) :
    enterCell env cell onEnter m = (answer, tick env m) := by
  rw [enterCell_apply h, if_pos hb]

theorem successCell_apply (u : Memory ℕ Breaker W) : (successCell cell : Comp E _ Unit) u =
    (.ok (), { u with cells := Function.update u.cells cell (onSuccess (u.cells cell)) }) := rfl

theorem checkCell_apply (h : c.exceptionFilter exception = false) :
    checkCell c env cell exception u = (.ok (),
      { cells := Function.update u.cells cell
          (unsafeUpdateOnFail c (env.now u.outside).1 (u.cells cell))
        outside := (env.now u.outside).2 }) := by
  rw [checkCell, if_neg (by rw [h]; exact Bool.false_ne_true)]
  rfl

theorem onEnter_closed {b : Breaker} (hb : b.state = .closed) (now : ℤ) :
    onEnter c now b = (.ok true, b) := by
  rw [onEnter, unsafeEnter, hb]

theorem onEnterOf_closed {b : Breaker} (hb : b.state = .closed) (t : Ty) (now : ℤ) :
    onEnterOf c t now b = (.ok .getContinue, b) := by
  rw [onEnterOf, unsafeEnter, hb]

theorem breakerCall_of_ok (hb : (m.cells cell).state = .closed)
    (ha : action m = (.ok value, u)) :
    breakerCall c env cell o action m =
      (.ok value, { u with cells := Function.update u.cells cell (onSuccess (u.cells cell)) }) := by
  cases o with
  | func t | funcTaskOf t =>
      exact callFunc_of_ok (enterCell_of_closed hb (onEnterOf_closed hb t _)) ha (successCell_apply u)
  | action | funcTask =>
      exact callAction_of_ok (enterCell_of_closed hb (onEnter_closed hb _)) ha (successCell_apply u)

theorem breakerCall_of_error (hb : (m.cells cell).state = .closed)
    (ha : action m = (.error exception, u)) (hc : c.exceptionFilter exception = false) :
    breakerCall c env cell o action m = (.error exception,
      { cells := Function.update u.cells cell
          (unsafeUpdateOnFail c (env.now u.outside).1 (u.cells cell))
        outside := (env.now u.outside).2 }) := by
  cases o with
  | func t | funcTaskOf t =>
      exact callFunc_of_error (enterCell_of_closed hb (onEnterOf_closed hb t _)) ha
        (checkCell_apply hc)
  | action | funcTask =>
      exact callAction_of_error (enterCell_of_closed hb (onEnter_closed hb _)) ha (checkCell_apply hc)

theorem breakerCall_of_open (hb : (m.cells cell).state = .opened)
    (hd : (env.now m.outside).1 - (m.cells cell).lastFail < c.delay)
    (hvoid : c.openBehaviour = .error exception)
    (hreturn : ∀ t, c.openBehaviourReturn t = .error exception) :
    breakerCall c env cell o action m = (.error exception, tick env m) := by
  cases o with
  | func t | funcTaskOf t =>
      refine callFunc_of_open (enterCell_of_opened hb ?_)
      rw [onEnterOf, unsafeEnter, hb]
      simp only [hd, if_true, hreturn]
      rfl
  | action | funcTask =>
      refine callAction_of_open (enterCell_of_opened hb ?_)
      rw [onEnter, unsafeEnter, hb]
      simp only [hd, if_true, hvoid]
      rfl

end Breakers

section Compositions
variable [DecidableEq X] [DecidableEq Ty] (r : Runtime E X Val) (n k : ℕ) (delay : ℤ)

/-- `RetryPolicy.ForAllException().WithMaxRetry(n)`. -/
def retryForAll : DispatcherTree E Attempts Val :=
  (PolicyDispatcher.retry .noThrow none (.ofNat n)).tree r

/-- `CircuitBreakerPolicy.ForAllException().WithRetryAndTimeout(k, delay)`. -/
def breakerForAll : DispatcherTree E Attempts Val :=
  (PolicyDispatcher.circuitBreaker .noThrow .throwVoid .throwReturn (.ofNat k) delay 0).tree r

def settingsForAll : Settings E Val where
  exceptionFilter := (ExceptionFilter.noThrow : ExceptionFilter E X (Finset X)).isFiltered r
  openBehaviour := OpenBehaviourVoid.throwVoid.onOpen r
  openBehaviourReturn := OpenBehaviourReturn.throwReturn.onOpen r
  threshold := .ofNat k
  delay := delay

/-- One attempt of the script through the breaker. -/
abbrev breakerAttempt (none : Token) (clock : ℕ → ℤ) {o : Overload Ty}
    (outcomes : ℕ → Except E (o.Result Val)) : Comp E (Memory ℕ Breaker Attempts) (o.Result Val) :=
  breakerCall (settingsForAll r k delay) (steady none clock) 0 o (onOutside (scripted outcomes))

variable {r n k delay} {none : Token} {clock : ℕ → ℤ} {throws : ℕ → Bool} {o : Overload Ty}
  {token : Option Token} {outcomes : ℕ → Except E (o.Result Val)}

theorem call_retryThenBreaker :
    o.call (((retryForAll r n).composedDispatcher (breakerForAll r k delay)).entries
        (steady none clock)) throws token outcomes =
      async (retry (steady none clock) (fun _ => false) (.ofNat n) (token.getD none)
        (breakerAttempt r k delay none clock outcomes)) := by
  cases o <;> cases token <;>
  · simp only [Overload.call, DispatcherTree.entries, retryForAll, breakerForAll,
      PolicyDispatcher.tree, composedDispatcher, dispatcherAdapter, retryDispatcher,
      circuitBreakerDispatcher, async_await, fromResult_await, scriptedTask_await]
    rfl

theorem call_breakerThenRetry :
    o.call (((breakerForAll r k delay).composedDispatcher (retryForAll r n)).entries
        (steady none clock)) throws token outcomes =
      async (breakerCall (settingsForAll r k delay) (steady none clock) 0 o
        (retry (steady none clock) (fun _ => false) (.ofNat n) (token.getD none)
          (onOutside (scripted outcomes)))) := by
  cases o <;> cases token <;>
  · simp only [Overload.call, DispatcherTree.entries, retryForAll, breakerForAll,
      PolicyDispatcher.tree, composedDispatcher, dispatcherAdapter, retryDispatcher,
      circuitBreakerDispatcher, async_await, fromResult_await, scriptedTask_await]
    rfl

theorem left_ofNat (hn : n < 2 ^ 31) : (Int32.ofNat n - 0).toBitVec.toNat = n := by
  have hzero : Int32.ofNat n - 0 = Int32.ofNat n := by simp
  rw [hzero]
  have hvec : (Int32.ofNat n).toBitVec = BitVec.ofNat 32 n := rfl
  rw [hvec, BitVec.toNat_ofNat]
  omega

variable {m t : Memory ℕ Breaker Attempts} {attempt : Comp E (Memory ℕ Breaker Attempts) R}
  {exception : E} {value : R}

/-- The loop when no exception is filtered, no token cancelled and nothing waited for. -/
abbrev plainLoop (attempt : Comp E (Memory ℕ Breaker Attempts) R) :
    ℕ → Int32 → Comp E (Memory ℕ Breaker Attempts) R :=
  retryLoop (pure ()) (fun _ => false) (fun _ => pure ()) attempt

theorem retry_eq_plainLoop (hn : n < 2 ^ 31) (token : Token) :
    retry (steady none clock) (fun _ => false) (.ofNat n) token attempt = plainLoop attempt n 0 := by
  rw [retry, retryFrom, left_ofNat hn]
  rfl

theorem plainLoop_reaches {P : ℕ → Memory ℕ Breaker Attempts → Prop} {stop left : ℕ}
    (hfails : ∀ x < stop, ∀ s, P x s → ∃ e t, attempt s = (.error e, t) ∧ P (x + 1) t)
    (h₀ : P 0 m) (hleft : stop ≤ left) :
    ∃ t count, P stop t ∧ plainLoop attempt left 0 m = plainLoop attempt (left - stop) count t :=
  retryLoop_reaches (fun _ => rfl) (fun _ _ => rfl) (fun _ => rfl) hfails h₀ hleft

theorem plainLoop_of_ok {P : ℕ → Memory ℕ Breaker Attempts → Prop} {stop : ℕ} (hstop : stop ≤ n)
    (hfails : ∀ x < stop, ∀ s, P x s → ∃ e t, attempt s = (.error e, t) ∧ P (x + 1) t)
    (h₀ : P 0 m) {Q : Memory ℕ Breaker Attempts → Prop}
    (hok : ∀ s, P stop s → ∃ t, attempt s = (.ok value, t) ∧ Q t) :
    ∃ t, plainLoop attempt n 0 m = (.ok value, t) ∧ Q t := by
  obtain ⟨s, count, hs, hloop⟩ := plainLoop_reaches hfails h₀ hstop
  obtain ⟨t, ht, hq⟩ := hok s hs
  exact ⟨t, hloop.trans (retryLoop_of_ok (fun _ => rfl) ht), hq⟩

theorem plainLoop_of_error {P : ℕ → Memory ℕ Breaker Attempts → Prop}
    (hfails : ∀ x < n, ∀ s, P x s → ∃ e t, attempt s = (.error e, t) ∧ P (x + 1) t)
    (h₀ : P 0 m) {Q : E → Memory ℕ Breaker Attempts → Prop}
    (hlast : ∀ s, P n s → ∃ e t, attempt s = (.error e, t) ∧ Q e t) :
    ∃ e t, plainLoop attempt n 0 m = (.error e, t) ∧ Q e t := by
  obtain ⟨s, count, hs, hloop⟩ := plainLoop_reaches hfails h₀ (le_refl n)
  obtain ⟨e, t, ht, hq⟩ := hlast s hs
  rw [Nat.sub_self] at hloop
  exact ⟨e, t, hloop.trans (retryLoop_zero (fun _ => rfl) ht), hq⟩

/-- Before attempt `x` of a call that found `f` failures counted. -/
structure Before (k f : ℕ) (clock : ℕ → ℤ) (x : ℕ) (m : Memory ℕ Breaker Attempts) : Prop where
  attempt : m.outside.attempt = min x (k - f)
  closed : x < k - f → (m.cells 0).state = .closed ∧ (m.cells 0).successiveFails.toInt = f + x
  opened : k - f ≤ x → (m.cells 0).state = .opened ∧ ∃ i, (m.cells 0).lastFail = clock i

theorem updateOnFail_closed (r : Runtime E X Val) (delay : ℤ) {b : Breaker} {count : ℕ}
    (hk : k < 2 ^ 31) (hb : b.state = .closed) (hcount : b.successiveFails.toInt = count) (hlt : count < k) (now : ℤ) :
    (count + 1 = k → (unsafeUpdateOnFail (settingsForAll r k delay) now b).state = .opened) ∧
    (count + 1 < k → (unsafeUpdateOnFail (settingsForAll r k delay) now b).state = .closed ∧
      (unsafeUpdateOnFail (settingsForAll r k delay) now b).successiveFails.toInt = count + 1) ∧
    (unsafeUpdateOnFail (settingsForAll r k delay) now b).lastFail = now := by
  have hthreshold : (settingsForAll r k delay).threshold.toInt = k := Int32.toInt_ofNat_of_lt hk
  have hsucc : (b.successiveFails + 1).toInt = b.successiveFails.toInt + 1 :=
    toInt_succ_of_lt (y := (settingsForAll r k delay).threshold) (by omega)
  by_cases htrip : b.successiveFails + 1 = (settingsForAll r k delay).threshold
  · have heq : count + 1 = k := by
      have htoInt := congrArg Int32.toInt htrip
      omega
    refine ⟨fun _ => ?_, fun h => (by omega), ?_⟩ <;>
    · simp only [unsafeUpdateOnFail, hb, htrip, if_true]
  · have hne : count + 1 ≠ k := by
      intro heq
      apply htrip
      rw [← Int32.toInt_inj]
      omega
    simp only [unsafeUpdateOnFail, hb, htrip, if_false]
    exact ⟨fun heq => (hne heq).elim, fun _ => ⟨trivial, by omega⟩, trivial⟩

theorem scripted_apply (outcomes : ℕ → Except E R) (m : Memory ℕ Breaker Attempts) :
    onOutside (scripted outcomes) m =
      (outcomes m.outside.attempt, ⟨m.cells, ⟨m.outside.attempt + 1, m.outside.reading⟩⟩) := rfl

/-- A failed attempt: the action's failure is recorded, and from the `k`-th on the
breaker throws without running the action. -/
theorem Before.fails (r : Runtime E X Val) (none : Token) {f x : ℕ} (hk : k < 2 ^ 31) (hf : f < k)
    (hclock : ∀ i j, clock i - clock j < delay) (h : Before k f clock x m)
    (hx : x < k - f → ∃ e, outcomes x = .error e) :
    ∃ e t, breakerAttempt r k delay none clock outcomes m = (.error e, t) ∧
      Before k f clock (x + 1) t ∧
      .error e = if x < k - f then outcomes x else .error r.circuitBreakerOpenException := by
  have hattempt := h.attempt
  by_cases hopen : k - f ≤ x
  · obtain ⟨hstate, i, hi⟩ := h.opened hopen
    refine ⟨_, _, breakerCall_of_open hstate ?_ rfl fun _ => rfl, ?_, ?_⟩
    · rw [hi]
      exact hclock _ _
    · refine ⟨?_, fun hlt => (by omega), fun _ => ⟨hstate, i, hi⟩⟩
      change m.outside.attempt = _
      omega
    · rw [if_neg (by omega)]
  · obtain ⟨hstate, hcount⟩ := h.closed (by omega)
    obtain ⟨e, he⟩ := hx (by omega)
    have hat : m.outside.attempt = x := by omega
    have haction := scripted_apply outcomes m
    rw [hat, he] at haction
    have hfx : (m.cells 0).successiveFails.toInt = ((f + x : ℕ) : ℤ) := by omega
    have hupdate := updateOnFail_closed r delay hk hstate hfx (by omega)
      (clock m.outside.reading)
    refine ⟨e, _, breakerCall_of_error hstate haction rfl, ⟨?_, ?_, ?_⟩, ?_⟩
    · change x + 1 = _
      omega
    · intro hlt
      simp only [Function.update_self]
      obtain ⟨hclosed, hsucc⟩ := hupdate.2.1 (by omega)
      exact ⟨hclosed, hsucc.trans (by push_cast; omega)⟩
    · intro hle
      simp only [Function.update_self]
      exact ⟨hupdate.1 (by omega), _, hupdate.2.2⟩
    · rw [if_pos (by omega), he]

theorem Before.succeeds {f x : ℕ} (h : Before k f clock x m) (hx : x < k - f)
    {value : o.Result Val} (hok : outcomes x = .ok value) :
    ∃ t, breakerAttempt r k delay none clock outcomes m = (.ok value, t) ∧
      t.outside.attempt = x + 1 ∧ (t.cells 0).state = .closed ∧ (t.cells 0).successiveFails = 0 := by
  obtain ⟨hstate, -⟩ := h.closed hx
  have hat : m.outside.attempt = x := by
    have hattempt := h.attempt
    omega
  have haction := scripted_apply outcomes m
  rw [hat, hok] at haction
  refine ⟨_, breakerCall_of_ok hstate haction, rfl, ?_, ?_⟩
  · simp only [Function.update_self, onSuccess]
  · simp only [Function.update_self, onSuccess]

/-- `j` is the first attempt that succeeds; `⊤` if none does. -/
structure FirstSuccess (outcomes : ℕ → Except E R) (j : ℕ∞) : Prop where
  before : ∀ i : ℕ, (i : ℕ∞) < j → ∃ e, outcomes i = .error e
  reached : ∀ i : ℕ, (i : ℕ∞) = j → ∃ value, outcomes i = .ok value

/-- One call of the retry dispatcher around the breaker, which had `f` failures
counted: the result, how often the action ran, and the breaker afterwards. -/
structure LoadAround (outcomes : ℕ → Except E R) (j : ℕ∞) (n k f : ℕ) (openException : E)
    (result : Except E R) (attempts : ℕ) (b : Breaker) : Prop where
  invocations : (attempts : ℕ∞) = min (j + 1) (min (n + 1) (k - f) : ℕ)
  succeeds : (∃ value, result = .ok value) ↔ j < (min (n + 1) (k - f) : ℕ)
  exception : (min (n + 1) (k - f) : ℕ) ≤ j →
    result = if n + 1 ≤ k - f then outcomes n else .error openException
  reset : j < (min (n + 1) (k - f) : ℕ) → b.state = .closed ∧ b.successiveFails = 0
  opened : (k - f : ℕ) ≤ j → k - f ≤ n + 1 → b.state = .opened
  counted : (n + 1 : ℕ) ≤ j → n + 1 < k - f →
    b.state = .closed ∧ b.successiveFails = .ofNat (f + n + 1)

/-- One call of the breaker around the retry dispatcher. -/
structure LoadInside (outcomes : ℕ → Except E R) (j : ℕ∞) (n k f : ℕ)
    (result : Except E R) (attempts : ℕ) (b : Breaker) : Prop where
  invocations : (attempts : ℕ∞) = min (j + 1) (n + 1 : ℕ)
  succeeds : (∃ value, result = .ok value) ↔ j < (n + 1 : ℕ)
  exception : (n + 1 : ℕ) ≤ j → result = outcomes n
  reset : j < (n + 1 : ℕ) → b.state = .closed ∧ b.successiveFails = 0
  opened : (n + 1 : ℕ) ≤ j → f + 1 = k → b.state = .opened
  counted : (n + 1 : ℕ) ≤ j → f + 1 < k → b.state = .closed ∧ b.successiveFails = .ofNat (f + 1)

theorem min_of_lt {j : ℕ∞} {i M : ℕ} (hji : j = i) (hi : i < M) :
    ((i + 1 : ℕ) : ℕ∞) = min (j + 1) (M : ℕ) := by
  subst hji
  have hle : ((i + 1 : ℕ) : ℕ∞) ≤ (M : ℕ) := by exact_mod_cast hi
  rw [min_eq_left (by exact_mod_cast hle)]
  norm_cast

theorem min_of_le {j : ℕ∞} {M : ℕ} (hj : (M : ℕ∞) ≤ j) : (M : ℕ∞) = min (j + 1) (M : ℕ) :=
  (min_eq_right (hj.trans le_self_add)).symm

theorem successiveFails_eq {b : Breaker} {count : ℕ} (hlt : count < 2 ^ 31)
    (h : b.successiveFails.toInt = count) : b.successiveFails = .ofNat count := by
  rw [← Int32.toInt_inj, h, Int32.toInt_ofNat_of_lt hlt]

section Around
variable {f : ℕ} {j : ℕ∞} (hk : k < 2 ^ 31) (hf : f < k)
  (hclock : ∀ i j, clock i - clock j < delay) (hj : FirstSuccess outcomes j)

include hk hf hclock hj

theorem around_fails {x : ℕ} (hx : x < k - f → (x : ℕ∞) < j) (h : Before k f clock x m) :
    ∃ e t, breakerAttempt r k delay none clock outcomes m = (.error e, t) ∧
      Before k f clock (x + 1) t := by
  obtain ⟨e, t, hcall, hnext, -⟩ := h.fails r none hk hf hclock fun hlt => hj.before x (hx hlt)
  exact ⟨e, t, hcall, hnext⟩

theorem around_of_lt {i : ℕ} (hji : j = i) (hi : i < min (n + 1) (k - f))
    (h₀ : Before k f clock 0 m) :
    ∃ result t, plainLoop (breakerAttempt r k delay none clock outcomes) n 0 m = (result, t) ∧
      LoadAround outcomes j n k f r.circuitBreakerOpenException result t.outside.attempt
        (t.cells 0) := by
  have hlt : j < (min (n + 1) (k - f) : ℕ) := by
    rw [hji]
    exact_mod_cast hi
  have hfails : ∀ x < i, ∀ s, Before k f clock x s → ∃ e t,
      breakerAttempt r k delay none clock outcomes s = (.error e, t) ∧
        Before k f clock (x + 1) t := by
    intro x hx s hs
    refine around_fails hk hf hclock hj (fun _ => ?_) hs
    rw [hji]
    exact_mod_cast hx
  obtain ⟨value, hvalue⟩ := hj.reached i hji.symm
  obtain ⟨t, hloop, hattempt, hclosed, hzero⟩ := plainLoop_of_ok (by omega : i ≤ n) hfails h₀
    fun s hs => hs.succeeds (by omega) hvalue
  refine ⟨_, t, hloop, ?_⟩
  constructor
  · rw [hattempt]
    exact min_of_lt hji hi
  · exact ⟨fun _ => hlt, fun _ => ⟨value, rfl⟩⟩
  · exact fun hle => absurd hlt (not_lt.mpr hle)
  · exact fun _ => ⟨hclosed, hzero⟩
  · intro hle hn
    rw [hji] at hle
    have hle' : k - f ≤ i := by exact_mod_cast hle
    omega
  · intro hle hn
    rw [hji] at hle
    have hle' : n + 1 ≤ i := by exact_mod_cast hle
    omega

theorem around_of_le (hle : (min (n + 1) (k - f) : ℕ) ≤ j) (h₀ : Before k f clock 0 m) :
    ∃ result t, plainLoop (breakerAttempt r k delay none clock outcomes) n 0 m = (result, t) ∧
      LoadAround outcomes j n k f r.circuitBreakerOpenException result t.outside.attempt
        (t.cells 0) := by
  have hbefore : ∀ x, x < n + 1 → x < k - f → (x : ℕ∞) < j := by
    intro x hx hxk
    refine lt_of_lt_of_le ?_ hle
    exact_mod_cast (by omega : x < min (n + 1) (k - f))
  have hfails : ∀ x < n, ∀ s, Before k f clock x s → ∃ e t,
      breakerAttempt r k delay none clock outcomes s = (.error e, t) ∧ Before k f clock (x + 1) t :=
    fun x hx s hs => around_fails hk hf hclock hj (hbefore x (by omega)) hs
  obtain ⟨e, t, hloop, hlast, he⟩ := plainLoop_of_error hfails h₀ fun s hs =>
    hs.fails r none hk hf hclock fun hlt => hj.before n (hbefore n (by omega) hlt)
  refine ⟨_, t, hloop, ?_⟩
  constructor
  · rw [hlast.attempt]
    exact min_of_le hle
  · refine ⟨fun ⟨value, hvalue⟩ => (by cases hvalue), fun hlt => absurd hlt (not_lt.mpr hle)⟩
  · intro _
    exact he
  · exact fun hlt => absurd hlt (not_lt.mpr hle)
  · exact fun _ hn => (hlast.opened hn).1
  · intro _ hn
    obtain ⟨hclosed, hcount⟩ := hlast.closed hn
    exact ⟨hclosed, successiveFails_eq (by omega) (by push_cast; omega)⟩

end Around

section Inside
variable {j : ℕ∞}

/-- Before attempt `x` of the loop alone. -/
structure LoopAt (cells : ℕ → Breaker) (x : ℕ) (m : Memory ℕ Breaker Attempts) : Prop where
  cells : m.cells = cells
  attempt : m.outside.attempt = x

theorem LoopAt.runs {cells : ℕ → Breaker} {x : ℕ} (outcomes : ℕ → Except E R)
    (h : LoopAt cells x m) :
    ∃ t, onOutside (scripted outcomes) m = (outcomes x, t) ∧ LoopAt cells (x + 1) t := by
  obtain ⟨hcells, hattempt⟩ := h
  refine ⟨_, Prod.ext ?_ rfl, hcells, ?_⟩
  · simp only [onOutside, scripted, hattempt]
  · simp only [onOutside, scripted, hattempt]

theorem loop_of_lt {outcomes : ℕ → Except E R} (hj : FirstSuccess outcomes j) {i : ℕ}
    {cells : ℕ → Breaker} (hji : j = i) (hi : i < n + 1)
    (h₀ : LoopAt cells 0 m) :
    ∃ value t, plainLoop (onOutside (scripted outcomes)) n 0 m = (.ok value, t) ∧
      LoopAt cells (i + 1) t := by
  obtain ⟨value, hvalue⟩ := hj.reached i hji.symm
  have hfails : ∀ x < i, ∀ s, LoopAt cells x s → ∃ e t,
      onOutside (scripted outcomes) s = (.error e, t) ∧ LoopAt cells (x + 1) t := by
    intro x hx s hs
    obtain ⟨t, ht, hnext⟩ := hs.runs outcomes
    obtain ⟨e, he⟩ := hj.before x (by rw [hji]; exact_mod_cast hx)
    exact ⟨e, t, he ▸ ht, hnext⟩
  obtain ⟨t, hloop, hlast⟩ := plainLoop_of_ok (by omega : i ≤ n) hfails h₀ fun s hs => by
    obtain ⟨t, ht, hnext⟩ := hs.runs outcomes
    exact ⟨t, hvalue ▸ ht, hnext⟩
  exact ⟨value, t, hloop, hlast⟩

theorem loop_of_le {outcomes : ℕ → Except E R} (hj : FirstSuccess outcomes j)
    {cells : ℕ → Breaker} (hle : (n + 1 : ℕ) ≤ j) (h₀ : LoopAt cells 0 m) :
    ∃ e t, plainLoop (onOutside (scripted outcomes)) n 0 m = (.error e, t) ∧
      outcomes n = .error e ∧ LoopAt cells (n + 1) t := by
  have hfails : ∀ x < n + 1, ∀ s, LoopAt cells x s → ∃ e t,
      onOutside (scripted outcomes) s = (.error e, t) ∧ outcomes x = .error e ∧
        LoopAt cells (x + 1) t := by
    intro x hx s hs
    obtain ⟨t, ht, hnext⟩ := hs.runs outcomes
    obtain ⟨e, he⟩ := hj.before x (lt_of_lt_of_le (by exact_mod_cast hx) hle)
    exact ⟨e, t, he ▸ ht, he, hnext⟩
  refine plainLoop_of_error (fun x hx s hs => ?_) h₀ fun s hs => hfails n (by omega) s hs
  obtain ⟨e, t, ht, -, hnext⟩ := hfails x (by omega) s hs
  exact ⟨e, t, ht, hnext⟩

theorem inside (r : Runtime E X Val) (none : Token) (delay : ℤ) (hj : FirstSuccess outcomes j)
    {f : ℕ} (hk : k < 2 ^ 31) (hf : f < k) (hclosed : (m.cells 0).state = .closed)
    (hcount : (m.cells 0).successiveFails.toInt = f) (hattempt : m.outside.attempt = 0) :
    ∃ result t, breakerCall (settingsForAll r k delay) (steady none clock) 0 o
        (plainLoop (onOutside (scripted outcomes)) n 0) m = (result, t) ∧
      LoadInside outcomes j n k f result t.outside.attempt (t.cells 0) := by
  have h₀ : LoopAt m.cells 0 m := ⟨rfl, hattempt⟩
  by_cases hlt : j < (n + 1 : ℕ)
  · obtain ⟨i, rfl⟩ := ENat.ne_top_iff_exists.mp (ne_top_of_lt hlt)
    have hi : i < n + 1 := by exact_mod_cast hlt
    obtain ⟨value, t, hloop, hlast⟩ := loop_of_lt hj rfl hi h₀
    refine ⟨_, _, breakerCall_of_ok hclosed hloop, ?_⟩
    constructor
    · rw [hlast.attempt]
      exact min_of_lt rfl hi
    · exact ⟨fun _ => hlt, fun _ => ⟨value, rfl⟩⟩
    · exact fun hle => absurd hlt (not_lt.mpr hle)
    · intro _
      simp only [Function.update_self, onSuccess, and_self]
    · exact fun hle => absurd hlt (not_lt.mpr hle)
    · exact fun hle => absurd hlt (not_lt.mpr hle)
  · have hle : (n + 1 : ℕ) ≤ j := not_lt.mp hlt
    obtain ⟨e, t, hloop, he, hlast⟩ := loop_of_le hj hle h₀
    have hcells : t.cells 0 = m.cells 0 := congrFun hlast.cells 0
    have hupdate := updateOnFail_closed r delay hk (hcells ▸ hclosed) (hcells ▸ hcount) hf
      (clock t.outside.reading)
    refine ⟨_, _, breakerCall_of_error hclosed hloop rfl, ?_⟩
    constructor
    · change (t.outside.attempt : ℕ∞) = _
      rw [hlast.attempt]
      exact min_of_le hle
    · exact ⟨fun ⟨value, hvalue⟩ => (by cases hvalue), fun h => absurd h hlt⟩
    · exact fun _ => he.symm
    · exact fun h => absurd h hlt
    · intro _ heq
      simp only [Function.update_self]
      exact hupdate.1 heq
    · intro _ hbelow
      simp only [Function.update_self]
      obtain ⟨hstate, hsucc⟩ := hupdate.2.1 hbelow
      exact ⟨hstate, successiveFails_eq (by omega) (by push_cast; exact hsucc)⟩

end Inside

/-- The load of one call of either composition, through any overload, of a retry
dispatcher with at most `n` retries and a breaker with threshold `k` that is closed
with `f` failures counted, when all attempts fall within the delay. -/
theorem composed_load (hn : n < 2 ^ 31) (hk : k < 2 ^ 31) {f : ℕ} (hf : f < k) {j : ℕ∞}
    (hclock : ∀ i j, clock i - clock j < delay) (hj : FirstSuccess outcomes j)
    (hattempt : m.outside.attempt = 0) (hclosed : (m.cells 0).state = .closed)
    (hcount : (m.cells 0).successiveFails = .ofNat f) :
    (∃ result t, o.call (((retryForAll r n).composedDispatcher (breakerForAll r k delay)).entries
        (steady none clock)) throws token outcomes m = (.ok result, t) ∧
      LoadAround outcomes j n k f r.circuitBreakerOpenException result t.outside.attempt
        (t.cells 0)) ∧
    (∃ result t, o.call (((breakerForAll r k delay).composedDispatcher (retryForAll r n)).entries
        (steady none clock)) throws token outcomes m = (.ok result, t) ∧
      LoadInside outcomes j n k f result t.outside.attempt (t.cells 0)) := by
  have hasync : ∀ {T : Type} {body : Comp E (Memory ℕ Breaker Attempts) T} {result t},
      body m = (result, t) →
        async (n := StateM (Memory ℕ Breaker Attempts)) body m = (.ok result, t) := by
    intro T body result t h
    have happly : async (n := StateM (Memory ℕ Breaker Attempts)) body m =
        (.ok (body m).1, (body m).2) := rfl
    rw [happly, h]
  have htoInt : (m.cells 0).successiveFails.toInt = f := by
    rw [hcount, Int32.toInt_ofNat_of_lt (by omega)]
  constructor
  · rw [call_retryThenBreaker, retry_eq_plainLoop hn]
    have h₀ : Before k f clock 0 m := by
      refine ⟨by omega, fun _ => ⟨hclosed, by omega⟩, fun _ => by omega⟩
    obtain ⟨result, t, hloop, hload⟩ : ∃ result t,
        plainLoop (breakerAttempt r k delay none clock outcomes) n 0 m = (result, t) ∧
        LoadAround outcomes j n k f r.circuitBreakerOpenException result t.outside.attempt
          (t.cells 0) := by
      by_cases hlt : j < (min (n + 1) (k - f) : ℕ)
      · obtain ⟨i, rfl⟩ := ENat.ne_top_iff_exists.mp (ne_top_of_lt hlt)
        exact around_of_lt hk hf hclock hj rfl (by exact_mod_cast hlt) h₀
      · exact around_of_le hk hf hclock hj (not_lt.mp hlt) h₀
    exact ⟨result, t, hasync hloop, hload⟩
  · rw [call_breakerThenRetry, retry_eq_plainLoop hn]
    obtain ⟨result, t, hcall, hload⟩ := inside r none delay hj hk hf hclosed htoInt hattempt
    exact ⟨result, t, hasync hcall, hload⟩

/-- Every attempt of the action fails. -/
theorem composed_load_failing :
    let r : Runtime Unit Unit (fun _ : Unit => ℕ) := ⟨fun _ => (), fun _ _ => false, (), fun _ => 0⟩
    let m : Memory ℕ Breaker Attempts := ⟨fun _ => { successiveFails := 1 }, {}⟩
    ∃ result t, Overload.action.call
        (((retryForAll r 2).composedDispatcher (breakerForAll r 3 10)).entries
          (steady () fun _ => 0)) (fun _ => false) (some ()) (fun _ => .error ()) m =
        (.ok result, t) ∧
      LoadAround (fun _ => .error ()) ⊤ 2 3 1 () result t.outside.attempt (t.cells 0) := by
  intro r m
  have hj : FirstSuccess (fun _ => .error () : ℕ → Except Unit Unit) ⊤ :=
    ⟨fun _ _ => ⟨(), rfl⟩, fun i hi => absurd hi (ENat.natCast_ne_top i)⟩
  exact (composed_load (by decide) (by decide) (by decide) (fun _ _ => by decide) hj rfl rfl rfl).1

end Compositions
end ComposableAsync.Resilient
