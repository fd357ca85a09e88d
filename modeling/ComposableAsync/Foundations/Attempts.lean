import ComposableAsync.Foundations.Computation
import Mathlib.Tactic.Ring

/-!
# Attempts of attempts

A body is tried again and again, as long as it throws something that is not filtered, with
a check before each attempt that leaves the state as it is. Attempts of attempts are
attempts: their numbers multiply.

Nothing here refers to a particular program.
-/
namespace ComposableAsync.Foundations
namespace Comp
variable {E S α : Type} {s : S}

/-- `x`, and if that throws what is not filtered, `y`. -/
def orElse (isFiltered : E → Bool) (x y : Comp E S α) : Comp E S α :=
  tryCatch x fun e => if isFiltered e then throw e else y

section OrElse
variable {isFiltered : E → Bool} {x y z : Comp E S α} {a : α} {e : E} {t : S}

theorem orElse_of_ok (h : x s = (.ok a, t)) : orElse isFiltered x y s = (.ok a, t) :=
  tryCatch_of_ok h

theorem orElse_of_error (h : x s = (.error e, t)) (he : isFiltered e = false) :
    orElse isFiltered x y s = y t := by
  rw [orElse, tryCatch_of_error h, if_neg (Bool.eq_false_iff.mp he)]

theorem orElse_of_filtered (h : x s = (.error e, t)) (he : isFiltered e = true) :
    orElse isFiltered x y s = (.error e, t) := by
  rw [orElse, tryCatch_of_error h, if_pos he]
  rfl

theorem orElse_congr_at {x' : Comp E S α} (h : x s = x' t) :
    orElse isFiltered x z s = orElse isFiltered x' z t := by
  obtain ⟨a, u, hx⟩ | ⟨e, u, hx⟩ := x.ok_or_error s
  · rw [orElse_of_ok hx, orElse_of_ok (h.symm.trans hx)]
  · cases he : isFiltered e with
    | true => rw [orElse_of_filtered hx he, orElse_of_filtered (h.symm.trans hx) he]
    | false => rw [orElse_of_error hx he, orElse_of_error (h.symm.trans hx) he]

theorem orElse_assoc : orElse isFiltered (orElse isFiltered x y) z =
    orElse isFiltered x (orElse isFiltered y z) := by
  funext s
  obtain ⟨a, t, h⟩ | ⟨e, t, h⟩ := x.ok_or_error s
  · rw [orElse_of_ok (orElse_of_ok h), orElse_of_ok h]
  · cases he : isFiltered e with
    | true => rw [orElse_of_filtered (orElse_of_filtered h he) he, orElse_of_filtered h he]
    | false =>
        rw [orElse_of_error h he]
        exact orElse_congr_at (orElse_of_error h he)

end OrElse

/-- It only looks at the state. -/
def ReadsOnly (check : Comp E S Unit) : Prop :=
  ∀ s, check s = (.ok (), s) ∨ ∃ e, check s = (.error e, s)

/-- An attempt, and as many more as the number tells. -/
def attempts (check : Comp E S Unit) (isFiltered : E → Bool) (x : Comp E S α) : ℕ → Comp E S α
  | 0 => do
      check
      x
  | more + 1 => do
      check
      orElse isFiltered x (attempts check isFiltered x more)

section Attempts
variable {check : Comp E S Unit} {isFiltered : E → Bool} {x : Comp E S α} {e : E} {more : ℕ}

theorem attempts_of_error (h : check s = (.error e, s)) :
    attempts check isFiltered x more s = (.error e, s) := by
  cases more with
  | zero => exact bind_of_error h
  | succ more => exact bind_of_error h

theorem attempts_zero_of_ok (h : check s = (.ok (), s)) :
    attempts check isFiltered x 0 s = x s :=
  bind_of_ok h

theorem attempts_succ_of_ok (h : check s = (.ok (), s)) :
    attempts check isFiltered x (more + 1) s =
      orElse isFiltered x (attempts check isFiltered x more) s :=
  bind_of_ok h

variable (hcheck : ReadsOnly check)

include hcheck

theorem check_attempts :
    (do check; attempts check isFiltered x more) = attempts check isFiltered x more := by
  funext s
  obtain h | ⟨e, h⟩ := hcheck s
  · rw [bind_of_ok h]
  · rw [bind_of_error h, attempts_of_error h]

theorem orElse_attempts (m k : ℕ) :
    orElse isFiltered (attempts check isFiltered x m) (attempts check isFiltered x k) =
      attempts check isFiltered x (m + 1 + k) := by
  -- where the check fails, it fails again in the attempts that would follow
  have hfails : ∀ {s e more}, check s = (.error e, s) →
      orElse isFiltered (attempts check isFiltered x more) (attempts check isFiltered x k) s =
        (.error e, s) := by
    intro s e more h
    have hfirst : attempts check isFiltered x more s = (.error e, s) := attempts_of_error h
    cases he : isFiltered e with
    | true => exact orElse_of_filtered hfirst he
    | false =>
        rw [orElse_of_error hfirst he]
        exact attempts_of_error h
  induction m with
  | zero =>
      funext s
      obtain h | ⟨e, h⟩ := hcheck s
      · rw [Nat.zero_add, Nat.add_comm, attempts_succ_of_ok h]
        exact orElse_congr_at (attempts_zero_of_ok h)
      · rw [hfails h, attempts_of_error h]
  | succ m ih =>
      funext s
      obtain h | ⟨e, h⟩ := hcheck s
      · rw [Nat.add_right_comm (m + 1), attempts_succ_of_ok h, ← ih, ← orElse_assoc]
        exact orElse_congr_at (attempts_succ_of_ok h)
      · rw [hfails h, attempts_of_error h]

/-- Attempts each of which makes attempts. -/
theorem attempts_attempts (n m : ℕ) :
    attempts check isFiltered (attempts check isFiltered x m) n =
      attempts check isFiltered x (n * (m + 1) + m) := by
  induction n with
  | zero =>
      rw [Nat.zero_mul, Nat.zero_add]
      exact check_attempts hcheck
  | succ n ih =>
      have hcount : m + 1 + (n * (m + 1) + m) = (n + 1) * (m + 1) + m := by ring
      rw [attempts, ih, orElse_attempts hcheck, hcount]
      exact check_attempts hcheck

end Attempts
end Comp
end ComposableAsync.Foundations
