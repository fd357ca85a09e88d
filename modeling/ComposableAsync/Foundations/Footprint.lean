import ComposableAsync.Foundations.Computation
import Mathlib.Data.Set.Lattice
import Mathlib.Order.CompletePartialOrder

/-!
# The cells a computation uses

Computations over shared cells and a world of their own. A computation stays
within a set of cells if it neither reads nor writes any other. Each construct
stays within the cells its parts stay within, so the footprint of a program is
found along its text. Clients whose calls stay within disjoint sets of cells do
not see each other, in any interleaving of their calls.

Nothing here refers to a particular program.
-/
namespace ComposableAsync.Foundations

structure Memory (ι α W : Type) where
  cells : ι → α
  outside : W

variable {ι α W E R R' : Type}

namespace Memory

/-- The same world, and the same contents in the cells of `C`. -/
structure Agree (C : Set ι) (m m' : Memory ι α W) : Prop where
  cells : ∀ i ∈ C, m.cells i = m'.cells i
  outside : m.outside = m'.outside

theorem Agree.refl {C : Set ι} (m : Memory ι α W) : Agree C m m := ⟨fun _ _ => rfl, rfl⟩

theorem Agree.trans {C : Set ι} {m₁ m₂ m₃ : Memory ι α W} (h₁₂ : Agree C m₁ m₂)
    (h₂₃ : Agree C m₂ m₃) : Agree C m₁ m₃ :=
  ⟨fun i hi => (h₁₂.cells i hi).trans (h₂₃.cells i hi), h₁₂.outside.trans h₂₃.outside⟩

end Memory

open Memory

/-- The computation reads no cell outside `C` and writes none. -/
structure Within (C : Set ι) (x : Comp E (Memory ι α W) R) : Prop where
  reads : ∀ {m m' : Memory ι α W}, Agree C m m' →
    (x m).1 = (x m').1 ∧ Agree C (x m).2 (x m').2
  writes : ∀ (m : Memory ι α W), ∀ i ∉ C, (x m).2.cells i = m.cells i

/-- A computation on the world alone. -/
def onOutside (x : Comp E W R) : Comp E (Memory ι α W) R :=
  fun m => ((x m.outside).1, { m with outside := (x m.outside).2 })

theorem onOutside_bind {R' : Type} (x : Comp E W R) (f : R → Comp E W R') :
    (onOutside (x >>= f) : Comp E (Memory ι α W) R') = onOutside x >>= fun a => onOutside (f a) := by
  funext m
  cases hx : x m.outside with
  | mk answer w =>
      have hout : onOutside x m = (answer, { m with outside := w }) := by rw [onOutside, hx]
      cases answer with
      | ok a =>
          rw [Comp.bind_of_ok hout, onOutside, Comp.bind_of_ok hx]
          rfl
      | error e =>
          rw [Comp.bind_of_error hout, onOutside, Comp.bind_of_error hx]

/-- An access of one cell, which may depend on the world and change it. -/
def onCell [DecidableEq ι] (i : ι) (x : α → W → Except E R × α × W) :
    Comp E (Memory ι α W) R :=
  fun m =>
    let r := x (m.cells i) m.outside
    (r.1, { cells := Function.update m.cells i r.2.1, outside := r.2.2 })

namespace Within
variable {C D : Set ι} {x : Comp E (Memory ι α W) R}

theorem pure (a : R) : Within C (Pure.pure a : Comp E (Memory ι α W) R) := by
  constructor
  · intro m m' hm
    exact ⟨rfl, hm⟩
  · intro m i _
    rfl

theorem throw (e : E) : Within C (MonadExcept.throw e : Comp E (Memory ι α W) R) := by
  constructor
  · intro m m' hm
    exact ⟨rfl, hm⟩
  · intro m i _
    rfl

theorem bind {f : R → Comp E (Memory ι α W) R'} (hx : Within C x) (hf : ∀ a, Within C (f a)) :
    Within C (x >>= f) := by
  constructor
  · intro m m' hm
    obtain ⟨hresult, hagree⟩ := hx.reads hm
    cases hr : (x m).1 with
    | ok a =>
        rw [Comp.bind_of_ok (t := (x m).2) (Prod.ext hr rfl),
          Comp.bind_of_ok (t := (x m').2) (Prod.ext (hresult.symm.trans hr) rfl)]
        exact (hf a).reads hagree
    | error e =>
        rw [Comp.bind_of_error (t := (x m).2) (Prod.ext hr rfl),
          Comp.bind_of_error (t := (x m').2) (Prod.ext (hresult.symm.trans hr) rfl)]
        exact ⟨rfl, hagree⟩
  · intro m i hi
    cases hr : (x m).1 with
    | ok a =>
        rw [Comp.bind_of_ok (t := (x m).2) (Prod.ext hr rfl), (hf a).writes _ i hi]
        exact hx.writes m i hi
    | error e =>
        rw [Comp.bind_of_error (t := (x m).2) (Prod.ext hr rfl)]
        exact hx.writes m i hi

theorem tryCatch {handler : E → Comp E (Memory ι α W) R} (hx : Within C x)
    (hh : ∀ e, Within C (handler e)) : Within C (MonadExcept.tryCatch x handler) := by
  constructor
  · intro m m' hm
    obtain ⟨hresult, hagree⟩ := hx.reads hm
    cases hr : (x m).1 with
    | ok a =>
        rw [Comp.tryCatch_of_ok (t := (x m).2) (Prod.ext hr rfl),
          Comp.tryCatch_of_ok (t := (x m').2) (Prod.ext (hresult.symm.trans hr) rfl)]
        exact ⟨rfl, hagree⟩
    | error e =>
        rw [Comp.tryCatch_of_error (t := (x m).2) (Prod.ext hr rfl),
          Comp.tryCatch_of_error (t := (x m').2) (Prod.ext (hresult.symm.trans hr) rfl)]
        exact (hh e).reads hagree
  · intro m i hi
    cases hr : (x m).1 with
    | ok a =>
        rw [Comp.tryCatch_of_ok (t := (x m).2) (Prod.ext hr rfl)]
        exact hx.writes m i hi
    | error e =>
        rw [Comp.tryCatch_of_error (t := (x m).2) (Prod.ext hr rfl), (hh e).writes _ i hi]
        exact hx.writes m i hi

theorem onOutside (y : Comp E W R) :
    Within C (Foundations.onOutside y : Comp E (Memory ι α W) R) := by
  constructor
  · intro m m' hm
    simp only [Foundations.onOutside, hm.outside]
    exact ⟨trivial, hm.cells, rfl⟩
  · intro m i _
    rfl

theorem onCell [DecidableEq ι] {i : ι} (hi : i ∈ C) (y : α → W → Except E R × α × W) :
    Within C (Foundations.onCell i y) := by
  constructor
  · intro m m' hm
    simp only [Foundations.onCell, hm.cells i hi, hm.outside]
    refine ⟨trivial, ?_, rfl⟩
    intro j hj
    by_cases hji : j = i
    · simp only [hji, Function.update_self]
    · simp only [Function.update_of_ne hji]
      exact hm.cells j hj
  · intro m j hj
    have hji : j ≠ i := fun h => hj (h ▸ hi)
    exact Function.update_of_ne hji ..

end Within

/-- Shared cells, and a world for each client. -/
structure Clients (κ ι α W : Type) where
  cells : ι → α
  worlds : κ → W

namespace Clients
variable {κ : Type} [DecidableEq κ]

/-- What client `k` computes on. -/
def view (s : Clients κ ι α W) (k : κ) : Memory ι α W := ⟨s.cells, s.worlds k⟩

/-- Client `k` runs one computation to its end. -/
def act (s : Clients κ ι α W) (k : κ) (x : Comp E (Memory ι α W) R) : Clients κ ι α W :=
  { cells := (x (s.view k)).2.cells
    worlds := Function.update s.worlds k (x (s.view k)).2.outside }

/-- What client `k` is answered along a schedule of computations, in order. -/
def answers (k : κ) : List (κ × Comp E (Memory ι α W) R) → Clients κ ι α W → List (Except E R)
  | [], _ => []
  | (j, x) :: rest, s =>
      if j = k then (x (s.view j)).1 :: answers k rest (s.act j x)
      else answers k rest (s.act j x)

def after : List (κ × Comp E (Memory ι α W) R) → Clients κ ι α W → Clients κ ι α W
  | [], s => s
  | (j, x) :: rest, s => after rest (s.act j x)

/-- The schedule without the computations of the other clients. -/
def alone (k : κ) (schedule : List (κ × Comp E (Memory ι α W) R)) :
    List (κ × Comp E (Memory ι α W) R) := schedule.filter fun x => decide (x.1 = k)

variable {C D : Set ι} {s t : Clients κ ι α W} {x : Comp E (Memory ι α W) R} {j k : κ}

theorem view_act_self : (s.act k x).view k = (x (s.view k)).2 := by
  simp only [view, act, Function.update_self]

theorem agree_act_other (hx : Within D x) (hdisjoint : Disjoint C D) (hjk : j ≠ k) :
    Agree C ((s.act j x).view k) (s.view k) := by
  constructor
  · intro i hi
    exact hx.writes (s.view j) i fun hD => Set.disjoint_left.mp hdisjoint hi hD
  · exact Function.update_of_ne (Ne.symm hjk) ..

/-- Noninterference: if the computations of `k` stay within `C` and those of the
others within cells disjoint from `C`, then `k` is answered, and its world
changes, as if it were alone. -/
theorem answers_alone {schedule : List (κ × Comp E (Memory ι α W) R)}
    (hown : ∀ y ∈ schedule, y.1 = k → Within C y.2)
    (hothers : ∀ y ∈ schedule, y.1 ≠ k → ∃ D, Disjoint C D ∧ Within D y.2)
    (hagree : Agree C (s.view k) (t.view k)) :
    answers k schedule s = answers k (alone k schedule) t ∧
      Agree C ((after schedule s).view k) ((after (alone k schedule) t).view k) := by
  induction schedule generalizing s t with
  | nil => exact ⟨rfl, hagree⟩
  | cons y rest ih =>
      obtain ⟨j, x⟩ := y
      have hownRest : ∀ y ∈ rest, y.1 = k → Within C y.2 := fun y hy =>
        hown y (List.mem_cons_of_mem _ hy)
      have hothersRest : ∀ y ∈ rest, y.1 ≠ k → ∃ D, Disjoint C D ∧ Within D y.2 := fun y hy =>
        hothers y (List.mem_cons_of_mem _ hy)
      by_cases hjk : j = k
      · subst hjk
        obtain ⟨hresult, hnext⟩ := (hown (j, x) List.mem_cons_self rfl).reads hagree
        rw [← view_act_self, ← view_act_self] at hnext
        obtain ⟨hanswers, hafter⟩ := ih hownRest hothersRest hnext
        simp only [alone, List.filter_cons, decide_true, if_true, answers, after] at *
        exact ⟨by rw [hresult, hanswers], hafter⟩
      · obtain ⟨D, hdisjoint, hx⟩ := hothers (j, x) List.mem_cons_self hjk
        have hnext : Agree C ((s.act j x).view k) (t.view k) :=
          (agree_act_other hx hdisjoint hjk).trans hagree
        obtain ⟨hanswers, hafter⟩ := ih hownRest hothersRest hnext
        simp only [alone, List.filter_cons, hjk, decide_false, Bool.false_eq_true, if_false,
          answers, after] at *
        exact ⟨hanswers, hafter⟩

end Clients
end ComposableAsync.Foundations
