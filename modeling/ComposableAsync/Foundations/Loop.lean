import ComposableAsync.Foundations.Computation

/-!
# Loops

`while (true)` by the number of its turns. A turn returns, throws, or goes on from
another place, and a loop that has done neither of the first two is not over: it may
go on for ever. More turns than it takes to the end change nothing.

Nothing here refers to a particular program.
-/
namespace ComposableAsync.Foundations

inductive Turn (R σ : Type) where
  | done (value : R)
  | again (next : σ)
  deriving DecidableEq, Repr

def Turn.map {R σ τ : Type} (f : σ → τ) : Turn R σ → Turn R τ
  | .done value => .done value
  | .again next => .again (f next)

/-- The value, if the loop has returned one. -/
def Turn.answer {R σ : Type} : Turn R σ → Option R
  | .done value => some value
  | .again _ => none

namespace Comp
variable {E S R σ τ : Type}

/-- The first turns of the loop. -/
def loop (turn : σ → Comp E S (Turn R σ)) : ℕ → σ → Comp E S (Turn R σ)
  | 0, x => pure (.again x)
  | turns + 1, x => do
      match ← turn x with
      | .done value => return .done value
      | .again next => loop turn turns next

variable {turn : σ → Comp E S (Turn R σ)} {turns : ℕ} {x y : σ} {s t u : S} {value : R} {e : E}

theorem loop_of_done (h : turn x s = (.ok (.done value), t)) :
    loop turn (turns + 1) x s = (.ok (.done value), t) := by
  rw [loop, bind_of_ok h]
  rfl

theorem loop_of_error (h : turn x s = (.error e, t)) :
    loop turn (turns + 1) x s = (.error e, t) := by
  rw [loop, bind_of_error h]

theorem loop_of_again (h : turn x s = (.ok (.again y), t)) :
    loop turn (turns + 1) x s = loop turn turns y t := by
  rw [loop, bind_of_ok h]

theorem loop_one (h : turn x s = (.ok (.again y), t)) :
    loop turn 1 x s = (.ok (.again y), t) := by
  rw [loop_of_again h]
  rfl

theorem loop_add (h : loop turn turns x s = (.ok (.again y), t)) (more : ℕ) :
    loop turn (turns + more) x s = loop turn more y t := by
  induction turns generalizing x s with
  | zero =>
      cases h
      rw [Nat.zero_add]
  | succ turns ih =>
      rw [Nat.succ_add_eq_add_succ]
      cases hturn : turn x s with
      | mk answer u =>
          cases answer with
          | error e =>
              rw [loop_of_error hturn] at h
              cases h
          | ok place =>
              cases place with
              | done value =>
                  rw [loop_of_done hturn] at h
                  cases h
              | again next =>
                  rw [loop_of_again hturn] at h
                  rw [← Nat.succ_add_eq_add_succ, Nat.succ_add, loop_of_again hturn]
                  exact ih h

theorem loop_succ_of_again {z : σ} (h : loop turn turns x s = (.ok (.again y), t))
    (hturn : turn y t = (.ok (.again z), u)) :
    loop turn (turns + 1) x s = (.ok (.again z), u) := by
  rw [loop_add h, loop_of_again hturn]
  rfl

/-- After some turns the loop has returned or thrown. -/
def Ends (turn : σ → Comp E S (Turn R σ)) (x : σ) (s : S) (outcome : Except E R) (t : S) : Prop :=
  ∃ turns, loop turn turns x s = (outcome.map .done, t)

theorem loop_of_over {outcome : Except E R} (h : loop turn turns x s = (outcome.map .done, t))
    (more : ℕ) : loop turn (turns + more) x s = (outcome.map .done, t) := by
  induction turns generalizing x s with
  | zero => cases outcome <;> cases h
  | succ turns ih =>
      rw [Nat.succ_add]
      cases hturn : turn x s with
      | mk answer u =>
          cases answer with
          | error e =>
              rw [loop_of_error hturn] at h ⊢
              exact h
          | ok place =>
              cases place with
              | done value =>
                  rw [loop_of_done hturn] at h ⊢
                  exact h
              | again next =>
                  rw [loop_of_again hturn] at h ⊢
                  exact ih h

theorem map_done_injective : Function.Injective
    (Except.map .done : Except E R → Except E (Turn R σ)) := by
  intro a b h
  cases a <;> cases b <;> cases h <;> rfl

theorem map_answer_iff {outcome : Except E R} :
    (Turn.answer <$> loop turn turns x) s = (outcome.map some, t) ↔
      loop turn turns x s = (outcome.map .done, t) := by
  cases hloop : loop turn turns x s with
  | mk answer u =>
      cases answer with
      | error e =>
          rw [map_of_error hloop]
          cases outcome with
          | ok value => exact ⟨nofun, nofun⟩
          | error e' => constructor <;> (intro h; cases h; rfl)
      | ok place =>
          rw [map_of_ok hloop]
          cases outcome with
          | error e' => exact ⟨nofun, nofun⟩
          | ok value =>
              cases place with
              | done value' => constructor <;> (intro h; cases h; rfl)
              | again next => exact ⟨nofun, nofun⟩

theorem Ends.unique {outcome outcome' : Except E R} (h : Ends turn x s outcome t)
    (h' : Ends turn x s outcome' u) : outcome = outcome' ∧ t = u := by
  obtain ⟨n, hn⟩ := h
  obtain ⟨m, hm⟩ := h'
  have hsame := (loop_of_over hn m).symm.trans ((Nat.add_comm n m) ▸ loop_of_over hm n)
  exact ⟨map_done_injective (Prod.ext_iff.mp hsame).1, (Prod.ext_iff.mp hsame).2⟩

theorem Ends.of_reached {outcome : Except E R} (h : loop turn turns x s = (.ok (.again y), t))
    (hend : Ends turn y t outcome u) : Ends turn x s outcome u := by
  obtain ⟨more, hmore⟩ := hend
  exact ⟨turns + more, (loop_add h more).trans hmore⟩

theorem Ends.of_done (h : turn x s = (.ok (.done value), t)) : Ends turn x s (.ok value) t :=
  ⟨1, loop_of_done h⟩

theorem Ends.of_error (h : turn x s = (.error e, t)) : Ends turn x s (.error e) t :=
  ⟨1, loop_of_error h⟩

/-- `I` at every place the loop goes on from, `Q` at its end. -/
def Post (I : σ → S → Prop) (Q : Except E R → S → Prop) : Except E (Turn R σ) × S → Prop
  | (.ok (.again y), t) => I y t
  | (.ok (.done value), t) => Q (.ok value) t
  | (.error e, t) => Q (.error e) t

/-- The invariant rule. -/
theorem loop_post {I : σ → S → Prop} {Q : Except E R → S → Prop}
    (hturn : ∀ x s, I x s → Post I Q (turn x s)) (h : I x s) (turns : ℕ) :
    Post I Q (loop turn turns x s) := by
  induction turns generalizing x s with
  | zero => exact h
  | succ turns ih =>
      have hpost := hturn x s h
      cases hx : turn x s with
      | mk answer t =>
          rw [hx] at hpost
          cases answer with
          | error e =>
              rw [loop_of_error hx]
              exact hpost
          | ok place =>
              cases place with
              | done value =>
                  rw [loop_of_done hx]
                  exact hpost
              | again next =>
                  rw [loop_of_again hx]
                  exact ih hpost

theorem Ends.post {I : σ → S → Prop} {Q : Except E R → S → Prop} {outcome : Except E R}
    (hend : Ends turn x s outcome t) (hturn : ∀ x s, I x s → Post I Q (turn x s)) (h : I x s) :
    Q outcome t := by
  obtain ⟨turns, hturns⟩ := hend
  have hpost := loop_post hturn h turns
  rw [hturns] at hpost
  cases outcome with
  | ok value => exact hpost
  | error e => exact hpost

/-- Turns that agree through `f` make loops that agree through `f`. -/
theorem loop_map {turn' : τ → Comp E S (Turn R τ)} (f : σ → τ)
    (h : ∀ x, turn' (f x) = Turn.map f <$> turn x) (turns : ℕ) (x : σ) :
    loop turn' turns (f x) = Turn.map f <$> loop turn turns x := by
  induction turns generalizing x with
  | zero => rfl
  | succ turns ih =>
      rw [loop, h, loop, bind_map_left, map_bind]
      refine bind_congr fun place => ?_
      cases place with
      | done value => rfl
      | again next => exact ih next

end Comp
end ComposableAsync.Foundations
