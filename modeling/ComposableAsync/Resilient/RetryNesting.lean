import ComposableAsync.Core.DispatcherThen
import ComposableAsync.Foundations.Attempts
import ComposableAsync.Resilient.RetryDispatcher
import Mathlib.Algebra.Order.BigOperators.GroupWithZero.List
import Mathlib.Algebra.Order.Ring.Nat

/-!
# Retries of retries

Dispatchers that retry without waiting and with the same filter, composed with `Then`, are
one such dispatcher: the numbers of their attempts multiply. The token is looked at before
each attempt, by the outer loop outside its `try` and by the inner one inside the `try` of
the outer one, which may then retry the cancellation once, to meet it again.
-/
namespace ComposableAsync.Resilient
open Foundations ComposableAsync.Core

variable {E S R : Type}

/-- The loop without waits does not depend on its counter. -/
theorem retryLoop_eq_attempts {check : Comp E S Unit} {isFiltered : E → Bool}
    {attempt : Comp E S R} (left : ℕ) (count : Int32) :
    retryLoop check isFiltered (fun _ => pure ()) attempt left count =
      Comp.attempts check isFiltered attempt left := by
  induction left generalizing count with
  | zero => rfl
  | succ left ih =>
      simp only [retryLoop, Comp.attempts, Comp.orElse, pure_bind, ih]

/-- How often a `RetryDispatcher` with this `_MaxRetry` tries. A negative one is met when the
counter has gone round. -/
def attemptsOf (maxRetry : Int32) : ℕ := maxRetry.toBitVec.toNat + 1

theorem attemptsOf_pos (maxRetry : Int32) : 0 < attemptsOf maxRetry := Nat.succ_pos _

/-- There is a `_MaxRetry` for each number of attempts up to 2 ^ 32. -/
theorem exists_attemptsOf {attempts : ℕ} (hpos : 0 < attempts) (hle : attempts ≤ 2 ^ 32) :
    ∃ maxRetry, attemptsOf maxRetry = attempts := by
  refine ⟨⟨⟨BitVec.ofNat 32 (attempts - 1)⟩⟩, ?_⟩
  have hsmall : attempts - 1 < 2 ^ 32 := by omega
  change (BitVec.ofNat 32 (attempts - 1)).toNat + 1 = attempts
  rw [BitVec.toNat_ofNat, Nat.mod_eq_of_lt hsmall]
  omega

variable {ι α W Token Ty : Type} {Val : Ty → Type} (env : Environment E W Token)

theorem retry_eq_attempts (isFiltered : E → Bool) (maxRetry : Int32) (token : Token)
    (attempt : Comp E (Memory ι α W) R) :
    retry env isFiltered maxRetry token attempt =
      Comp.attempts (onOutside (env.throwIfCancellationRequested token)) isFiltered attempt
        maxRetry.toBitVec.toNat := by
  rw [retry, retryFrom, retryLoop_eq_attempts, Int32.sub_zero]

/-- To look at a token changes nothing. -/
def LooksAtTokens : Prop :=
  ∀ token, Comp.ReadsOnly (env.throwIfCancellationRequested token)

variable {env}

theorem LooksAtTokens.onOutside (h : LooksAtTokens env) (token : Token) :
    Comp.ReadsOnly (onOutside (env.throwIfCancellationRequested token) :
      Comp E (Memory ι α W) Unit) := by
  intro m
  rcases h token m.outside with hlook | ⟨e, hlook⟩
  · left
    rw [Foundations.onOutside, hlook]
  · right
    refine ⟨e, ?_⟩
    rw [Foundations.onOutside, hlook]

theorem retry_retry (h : LooksAtTokens env) {isFiltered : E → Bool} {n m total : Int32}
    (htotal : attemptsOf total = attemptsOf n * attemptsOf m) (token : Token)
    (attempt : Comp E (Memory ι α W) R) :
    retry env isFiltered n token (retry env isFiltered m token attempt) =
      retry env isFiltered total token attempt := by
  have hcount : n.toBitVec.toNat * (m.toBitVec.toNat + 1) + m.toBitVec.toNat =
      total.toBitVec.toNat := by
    rw [attemptsOf, attemptsOf, attemptsOf, Nat.add_one_mul] at htotal
    omega
  rw [retry_eq_attempts, retry_eq_attempts, retry_eq_attempts,
    Comp.attempts_attempts (h.onOutside token), hcount]

/-- `new RetryDispatcher(exceptionFilter, maxRetry).ToFullDispatcher()`. -/
def fullRetryDispatcher (env : Environment E W Token) (isFiltered : E → Bool) (maxRetry : Int32) :
    IDispatcher E (StateM (Memory ι α W)) Val Token :=
  dispatcherAdapter env.none (retryDispatcher env isFiltered maxRetry)

theorem fullRetryDispatcher_dispatch (isFiltered : E → Bool) (maxRetry : Int32)
    (action : Comp E (Memory ι α W) Unit) :
    (fullRetryDispatcher env isFiltered maxRetry :
      IDispatcher E (StateM (Memory ι α W)) Val Token).dispatch action =
      retry env isFiltered maxRetry env.none action := by
  simp only [fullRetryDispatcher, dispatcherAdapter, retryDispatcher, bind_assoc, pure_bind,
    bind_pure_unit]

/-- Two retries are one. -/
theorem composed_fullRetryDispatcher (h : LooksAtTokens env) {isFiltered : E → Bool}
    {n m total : Int32} (htotal : attemptsOf total = attemptsOf n * attemptsOf m) :
    AwaitedEq
      (composedDispatcher (fullRetryDispatcher env isFiltered n)
        (fullRetryDispatcher env isFiltered m) :
          IDispatcher E (StateM (Memory ι α W)) Val Token)
      (fullRetryDispatcher env isFiltered total) := by
  -- the outer stage awaits the task of the inner one, whether it is made by `FromResult` or
  -- by an `async` method
  have hsync : ∀ {R : Type} (token : Token) (action : Comp E (Memory ι α W) R),
      retry env isFiltered n token (do
        await (← (do return .ok (← retry env isFiltered m token action) :
          Comp E (Memory ι α W) (Awaited E R)))) =
        retry env isFiltered total token action := by
    intro R token action
    rw [fromResult_await, retry_retry h htotal]
  have hasync : ∀ {R : Type} (token : Token) (action : Comp E (Memory ι α W) (Awaited E R)),
      retry env isFiltered n token (do
        await (← async (retry env isFiltered m token do await (← action)))) =
        retry env isFiltered total token (do await (← action)) := by
    intro R token action
    rw [async_await, retry_retry h htotal]
  have hcomposed : ∀ {R : Type} {body : Comp E (Memory ι α W) R},
      async (async body >>= await) >>= await = body := by
    intro R body
    rw [async_await, async_await]
  constructor
  · intro action
    simp only [composedDispatcher, fullRetryDispatcher_dispatch, retry_retry h htotal]
  · intro action
    exact hcomposed.trans ((hsync _ action).trans (fromResult_await _).symm)
  · intro t action
    exact hcomposed.trans ((hsync _ action).trans (fromResult_await _).symm)
  · intro action
    exact hcomposed.trans ((hasync _ action).trans (async_await _).symm)
  · intro t action
    exact hcomposed.trans ((hasync _ action).trans (async_await _).symm)
  · intro t action token
    exact hcomposed.trans ((hsync token action).trans (fromResult_await _).symm)
  · intro action token
    exact hcomposed.trans ((hsync token action).trans (fromResult_await _).symm)
  · intro action token
    exact hcomposed.trans ((hasync token action).trans (async_await _).symm)
  · intro t action token
    exact hcomposed.trans ((hasync token action).trans (async_await _).symm)

/-- Any number of retries with one filter are one retry, on every entry point, for every
delegate and every token: the numbers of their attempts multiply. -/
theorem retries_multiply (h : LooksAtTokens env) {isFiltered : E → Bool} {first total : Int32}
    {others : List Int32}
    (htotal : attemptsOf total = attemptsOf first * (others.map attemptsOf).prod) :
    AwaitedEq
      (thenAll (fullRetryDispatcher env isFiltered first)
        (others.map (fullRetryDispatcher env isFiltered)) :
          IDispatcher E (StateM (Memory ι α W)) Val Token)
      (fullRetryDispatcher env isFiltered total) := by
  induction others generalizing first with
  | nil =>
      have hsame : total = first := by
        rw [List.map_nil, List.prod_nil, Nat.mul_one, attemptsOf, attemptsOf] at htotal
        apply Int32.toBitVec_inj.mp
        apply BitVec.eq_of_toNat_eq
        omega
      rw [hsame]
      exact .refl _
  | cons next rest ih =>
      rw [List.map_cons, List.prod_cons, ← Nat.mul_assoc] at htotal
      have hrest : 0 < (rest.map attemptsOf).prod := by
        apply List.prod_pos
        intro attempts hm
        obtain ⟨maxRetry, -, rfl⟩ := List.mem_map.mp hm
        exact attemptsOf_pos maxRetry
      have hle : attemptsOf first * attemptsOf next ≤ 2 ^ 32 := by
        have hlast : attemptsOf total ≤ 2 ^ 32 := total.toBitVec.isLt
        exact (Nat.le_mul_of_pos_right _ hrest).trans (htotal ▸ hlast)
      have hpos := Nat.mul_pos (attemptsOf_pos first) (attemptsOf_pos next)
      obtain ⟨both, hboth⟩ := exists_attemptsOf hpos hle
      rw [← hboth] at htotal
      exact ((composed_fullRetryDispatcher h hboth).thenAll _).trans (ih htotal)

/-- A retry, a dispatcher that does not retry, and two retries. -/
theorem retries_multiply_three :
    ∃ env : Environment Unit Bool Bool, LooksAtTokens env ∧
      AwaitedEq
        (thenAll (fullRetryDispatcher env (fun _ => false) 1)
          ([0, 2].map (fullRetryDispatcher env fun _ => false)) :
            IDispatcher Unit (StateM (Memory ℕ Unit Bool)) (fun _ : Unit => ℕ) Bool)
        (fullRetryDispatcher env (fun _ => false) 5) := by
  let env : Environment Unit Bool Bool :=
    { none := false
      throwIfCancellationRequested := fun token canceled =>
        (if token && canceled then .error () else .ok (), canceled)
      now := fun canceled => (0, canceled)
      delay := fun _ _ => pure () }
  have hlooks : LooksAtTokens env := by
    intro token canceled
    cases token <;> cases canceled
    · exact .inl rfl
    · exact .inl rfl
    · exact .inl rfl
    · exact .inr ⟨(), rfl⟩
  exact ⟨env, hlooks, retries_multiply hlooks (by decide)⟩

end ComposableAsync.Resilient
