import ComposableAsync.Resilient.BreakerMachine
import Mathlib.Tactic.Common

/-!
# The failure counter under any interleaving

`_SuccessiveFails` is compared with the threshold by equality, so a counter
that once passed the threshold while the breaker is closed would never open it
again. The invariant ties the counter to the state, and, while closed, to the
log: it is the number of counted failures since the last recorded success.
-/
namespace ComposableAsync.Resilient
open Foundations

variable {C E Ty : Type} {Val : Ty → Type}

/-- Counted failures after the newest success of the log. -/
def failuresSinceSuccess : List (Event C) → ℕ
  | [] => 0
  | e :: log =>
      match e.kind with
      | .succeeded => 0
      | .failed => failuresSinceSuccess log + 1
      | .admitted | .rejected | .filtered => failuresSinceSuccess log

theorem toInt_succ_of_lt {x y : Int32} (h : x.toInt < y.toInt) :
    (x + 1).toInt = x.toInt + 1 := by
  have h₁ := x.le_toInt
  have h₂ := y.toInt_lt
  rw [Int32.toInt_add, Int32.toInt_one]
  exact Int.bmod_eq_of_le (by omega) (by omega)

structure CounterInv (c : Settings E Val) (s : Sys C) : Prop where
  nonneg : 0 ≤ s.breaker.successiveFails.toInt
  closed : s.breaker.state = .closed →
    s.breaker.successiveFails.toInt < c.threshold.toInt ∧
      s.breaker.successiveFails.toInt = failuresSinceSuccess s.log
  broken : s.breaker.state ≠ .closed → s.breaker.successiveFails = c.threshold

variable [DecidableEq C] {c : Settings E Val} {s t : Sys C}

theorem counterInv_init (h : 1 ≤ c.threshold.toInt) :
    CounterInv c (breakerMachine c : Machine (Sys C) (Act C E Ty)).init := by
  refine ⟨le_rfl, fun _ => ⟨?_, rfl⟩, fun hn => (hn rfl).elim⟩
  change (0 : ℤ) < c.threshold.toInt
  omega

theorem CounterInv.step {a : Act C E Ty} (h : 1 ≤ c.threshold.toInt) (hi : CounterInv c s)
    (ht : s.step c a = some t) : CounterInv c t := by
  obtain ⟨kind, b, he, -, rfl⟩ := step_effect c ht
  cases he with
  | pass p o now hc =>
      exact ⟨hi.nonneg, fun _ => hi.closed hc, fun hn => (hn hc).elim⟩
  | probe p o now hs _ =>
      have hb := hi.broken (by simp [hs])
      exact ⟨hi.nonneg, (fun h => by cases h), fun _ => hb⟩
  | reject p o now hs _ =>
      exact ⟨hi.nonneg, fun hc => (hs hc).elim, hi.broken⟩
  | success p now =>
      refine ⟨le_rfl, fun _ => ⟨?_, rfl⟩, fun hn => (hn rfl).elim⟩
      change (0 : ℤ) < c.threshold.toInt
      omega
  | filtered p e now _ => exact ⟨hi.nonneg, hi.closed, hi.broken⟩
  | count p e now _ hc hne =>
      obtain ⟨hlt, heq⟩ := hi.closed hc
      have hsucc := toInt_succ_of_lt hlt
      have hne' : (s.breaker.successiveFails + 1).toInt ≠ c.threshold.toInt :=
        fun h => hne (Int32.toInt_inj.mp h)
      have hn := hi.nonneg
      refine ⟨?_, fun _ => ⟨?_, ?_⟩, fun hn => (hn hc).elim⟩
      · change 0 ≤ (s.breaker.successiveFails + 1).toInt
        omega
      · change (s.breaker.successiveFails + 1).toInt < c.threshold.toInt
        omega
      · change (s.breaker.successiveFails + 1).toInt = ((failuresSinceSuccess s.log + 1 : ℕ) : ℤ)
        omega
  | trip p e now _ hc heq =>
      obtain ⟨hlt, -⟩ := hi.closed hc
      have hn := hi.nonneg
      have hsucc := toInt_succ_of_lt hlt
      refine ⟨?_, (fun h => by cases h), fun _ => heq⟩
      change 0 ≤ (s.breaker.successiveFails + 1).toInt
      omega
  | reopen p e now _ hs =>
      exact ⟨hi.nonneg, (fun h => by cases h), fun _ => hi.broken hs⟩

theorem counterInv_reachable (h : 1 ≤ c.threshold.toInt)
    (hr : (breakerMachine c : Machine (Sys C) (Act C E Ty)).Reachable s) : CounterInv c s :=
  hr.invariant (counterInv_init h) fun _ _ _ _ hi ht => hi.step h ht

/-- In every reachable state the counter lies between zero and the threshold,
the breaker is closed exactly below it and open or half open exactly at it, the
next increment cannot wrap while closed, and the closed counter is the number
of counted failures since the last success. -/
theorem successiveFails_matches_state (h : 1 ≤ c.threshold)
    (hr : (breakerMachine c : Machine (Sys C) (Act C E Ty)).Reachable s) :
    0 ≤ s.breaker.successiveFails ∧ s.breaker.successiveFails ≤ c.threshold ∧
    (s.breaker.state = .closed ↔ s.breaker.successiveFails < c.threshold) ∧
    (s.breaker.state = .opened ∨ s.breaker.state = .halfOpen ↔
      s.breaker.successiveFails = c.threshold) ∧
    (s.breaker.state = .closed →
      (s.breaker.successiveFails + 1).toInt = s.breaker.successiveFails.toInt + 1 ∧
      s.breaker.successiveFails.toInt = failuresSinceSuccess s.log) := by
  have hi := counterInv_reachable (Int32.le_iff_toInt_le.mp h) hr
  have hn := hi.nonneg
  cases hs : s.breaker.state with
  | closed =>
      obtain ⟨hlt, heq⟩ := hi.closed hs
      have hlt' : s.breaker.successiveFails < c.threshold := Int32.lt_iff_toInt_lt.mpr hlt
      have hne : s.breaker.successiveFails ≠ c.threshold := fun he => by
        rw [he] at hlt
        omega
      refine ⟨Int32.le_iff_toInt_le.mpr hn, Int32.le_iff_toInt_le.mpr (le_of_lt hlt), ?_, ?_, ?_⟩
      · simp [hlt']
      · simp [hne]
      · exact fun _ => ⟨toInt_succ_of_lt hlt, heq⟩
  | opened | halfOpen =>
      have hb := hi.broken (by simp [hs])
      have hirr : ¬ s.breaker.successiveFails < c.threshold := by
        rw [hb, Int32.lt_iff_toInt_lt]
        omega
      refine ⟨Int32.le_iff_toInt_le.mpr hn, ?_, ?_, ?_, by simp⟩
      · rw [hb]
        exact Int32.le_iff_toInt_le.mpr le_rfl
      · simp [hirr]
      · simp [hb]

theorem successiveFails_matches_state_oneShot :
    ∃ s : Sys ℕ, (breakerMachine oneShot).run
      [.onEnter 0 .action 3, .onEnter 1 (.func ()) 4, .checkException 0 false 5] {} = some s ∧
      s.breaker.state = .opened ∧ s.breaker.successiveFails = oneShot.threshold := by
  refine ⟨_, rfl, rfl, ?_⟩
  have hr : (breakerMachine (C := ℕ) oneShot).Reachable _ := Machine.run_reachable
    [.onEnter 0 .action 3, .onEnter 1 (.func ()) 4, .checkException 0 false 5] .init rfl
  exact (successiveFails_matches_state (by decide) hr).2.2.2.1.mp (.inl rfl)

/-- The failures in a row after which a closed breaker opens. No constructor rejects a
threshold of zero or less: the counter wraps, so it gets there after all of the positive
values and some of the negative ones. -/
def Settings.opensAfter (c : Settings E Val) : ℕ :=
  if 1 ≤ c.threshold.toInt then c.threshold.toInt.toNat
  else (Int32.size + c.threshold.toInt).toNat

omit [DecidableEq C] in
theorem opensAfter_cases :
    1 ≤ c.threshold.toInt ∧ (c.opensAfter : ℤ) = c.threshold.toInt ∨
      c.threshold.toInt ≤ 0 ∧ (c.opensAfter : ℤ) = Int32.size + c.threshold.toInt := by
  have hsize : Int32.size = 2 ^ 32 := rfl
  have hlow := c.threshold.le_toInt
  unfold Settings.opensAfter
  split <;> omega

omit [DecidableEq C] in
theorem opensAfter_pos : 0 < c.opensAfter := by
  have hsize : Int32.size = 2 ^ 32 := rfl
  have hlow := c.threshold.le_toInt
  rcases opensAfter_cases (c := c) with h | h <;> omega

omit [DecidableEq C] in
/-- The counter, taken as a number of increments, meets the threshold at `opensAfter`. -/
theorem ofNat_eq_threshold_iff {n : ℕ} (hpos : 0 < n) (hle : n ≤ c.opensAfter) :
    Int32.ofNat n = c.threshold ↔ n = c.opensAfter := by
  have hsize : Int32.size = 2 ^ 32 := rfl
  have hlow := c.threshold.le_toInt
  have hhigh := c.threshold.toInt_lt
  have hcases := opensAfter_cases (c := c)
  have hwrap : ((n : ℤ).bmod Int32.size) = if n < 2 ^ 31 then (n : ℤ) else n - 2 ^ 32 := by
    rw [Int.bmod, hsize]
    split <;> split <;> omega
  rw [← Int32.toInt_inj, Int32.toInt_ofNat', hwrap]
  split <;> omega

/-- While closed the counter is the number of failures since the last success, wrapped, and
has not been at the threshold. -/
structure WrappedInv (c : Settings E Val) (s : Sys C) : Prop where
  counter : s.breaker.state = .closed →
    s.breaker.successiveFails = Int32.ofNat (failuresSinceSuccess s.log)
  below : s.breaker.state = .closed → failuresSinceSuccess s.log < c.opensAfter

theorem WrappedInv.step {a : Act C E Ty} (hi : WrappedInv c s) (h : s.step c a = some t) :
    WrappedInv c t := by
  obtain ⟨kind, b, he, -, rfl⟩ := step_effect c h
  cases he with
  | pass p o now hc => exact ⟨hi.counter, hi.below⟩
  | probe p o now _ _ => exact ⟨(fun h => by cases h), fun h => by cases h⟩
  | reject p o now hs _ => exact ⟨fun hc => (hs hc).elim, fun hc => (hs hc).elim⟩
  | success p now => exact ⟨fun _ => rfl, fun _ => opensAfter_pos⟩
  | filtered p e now _ => exact ⟨hi.counter, hi.below⟩
  | count p e now _ hc hne =>
      have hnext : s.breaker.successiveFails + 1 =
          Int32.ofNat (failuresSinceSuccess s.log + 1) := by
        rw [hi.counter hc, Int32.ofNat_add]
        rfl
      have hbelow := hi.below hc
      refine ⟨fun _ => hnext, fun _ => Nat.lt_of_le_of_ne hbelow fun heq => hne ?_⟩
      rw [hnext]
      exact (ofNat_eq_threshold_iff (Nat.succ_pos _) hbelow).mpr heq
  | trip p e now _ _ _ => exact ⟨(fun h => by cases h), fun h => by cases h⟩
  | reopen p e now _ _ => exact ⟨(fun h => by cases h), fun h => by cases h⟩

/-- For every threshold: a closed breaker has fewer than `opensAfter` counted failures behind
it since the last success, and a step opens it exactly if it makes them that many. -/
theorem opens_at_opensAfter
    (hr : (breakerMachine c : Machine (Sys C) (Act C E Ty)).Reachable s)
    (hs : s.breaker.state = .closed) {a : Act C E Ty} (h : s.step c a = some t) :
    failuresSinceSuccess s.log < c.opensAfter ∧
      (t.breaker.state = .opened ↔ failuresSinceSuccess t.log = c.opensAfter) := by
  have hinit : WrappedInv c (breakerMachine c : Machine (Sys C) (Act C E Ty)).init :=
    ⟨fun _ => rfl, fun _ => opensAfter_pos⟩
  have hi : WrappedInv c s := hr.invariant hinit fun _ _ _ _ hi h => hi.step h
  have hbelow := hi.below hs
  refine ⟨hbelow, ?_⟩
  have hnext := (hi.step h).below
  obtain ⟨kind, b, he, -, rfl⟩ := step_effect c h
  cases he with
  | trip p e now _ hc heq =>
      refine iff_of_true rfl ((ofNat_eq_threshold_iff (Nat.succ_pos _) hbelow).mp ?_)
      rw [← heq, hi.counter hc]
      exact Int32.ofNat_add _ 1
  | probe p o now ho _ => cases hs.symm.trans ho
  | reopen p e now _ hn => exact (hn hs).elim
  | reject p o now hn _ => exact (hn hs).elim
  | success p now => exact iff_of_false (by simp [Sys.record]) (Nat.ne_of_lt (hnext rfl))
  | pass p o now hc | filtered p e now hc | count p e now _ hc _ =>
      refine iff_of_false ?_ (Nat.ne_of_lt (hnext hs))
      simp [Sys.record, hs]

/-- With a threshold of zero the first failure does not open the breaker. -/
theorem opens_at_opensAfter_zero :
    let zero : Settings Bool fun _ : Unit => Unit := { oneShot with threshold := 0 }
    ∃ s t : Sys ℕ, s.step zero (.checkException 0 false 5) = some t ∧
      failuresSinceSuccess s.log < zero.opensAfter ∧
      (t.breaker.state = .opened ↔ failuresSinceSuccess t.log = zero.opensAfter) := by
  intro zero
  have hr : (breakerMachine (C := ℕ) zero).Reachable _ :=
    Machine.run_reachable [.onEnter 0 .action 3] .init rfl
  exact ⟨_, _, rfl, opens_at_opensAfter hr rfl (a := .checkException 0 false 5) rfl⟩

end ComposableAsync.Resilient
