import Mathlib.Algebra.Order.Ring.Int
import Mathlib.Data.List.Pairwise
import Mathlib.Tactic.Linarith

/-!
# Spaced times

Times of a history, newest first, of which each is at least a delay after all earlier
ones. A window has no more of them than it has delays.
-/
namespace ComposableAsync.Foundations

/-- Each time is `delay` or more after those that follow it in the list. -/
def Spaced (delay : ℤ) (times : List ℤ) : Prop :=
  times.Pairwise fun later earlier => earlier + delay ≤ later

variable {delay start : ℤ} {times : List ℤ} {n : ℕ}

/-- A window of `n` delays, its end excluded, has `n` spaced times at most. -/
theorem Spaced.length_le (h : Spaced delay times)
    (hwindow : ∀ t ∈ times, start ≤ t ∧ t < start + n * delay) : times.length ≤ n := by
  induction times generalizing n with
  | nil => exact Nat.zero_le n
  | cons t times ih =>
      obtain ⟨hnewest, hrest⟩ := List.pairwise_cons.mp h
      obtain ⟨hge, hlt⟩ := hwindow t List.mem_cons_self
      cases n with
      | zero =>
          simp only [Nat.cast_zero, zero_mul, add_zero] at hlt
          omega
      | succ n =>
          -- the others are in the window without its last delay
          refine Nat.succ_le_succ (ih hrest fun u hu => ⟨?_, ?_⟩)
          · exact (hwindow u (List.mem_cons_of_mem t hu)).1
          · have hspaced := hnewest u hu
            push_cast at hlt
            linarith

/-- From `start + delay` to `last` there are as many spaced times at most as there are
whole delays from `start` to `last`. -/
theorem Spaced.length_le_ediv {last : ℤ} (h : Spaced delay times) (hdelay : 0 < delay)
    (hle : start ≤ last) (hwindow : ∀ t ∈ times, start + delay ≤ t ∧ t ≤ last) :
    (times.length : ℤ) ≤ (last - start) / delay := by
  have hnonneg : 0 ≤ (last - start) / delay := Int.ediv_nonneg (by omega) hdelay.le
  have hlast : last - start < ((last - start) / delay + 1) * delay :=
    Int.lt_ediv_add_one_mul_self _ hdelay
  obtain ⟨n, hn⟩ := Int.eq_ofNat_of_zero_le hnonneg
  rw [hn] at hlast ⊢
  have hall : ∀ t ∈ times, start + delay ≤ t ∧ t < start + delay + n * delay := by
    intro t ht
    obtain ⟨hge, hlt⟩ := hwindow t ht
    exact ⟨hge, by linarith⟩
  exact Int.ofNat_le.mpr (h.length_le hall)

end ComposableAsync.Foundations
