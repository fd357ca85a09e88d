import Mathlib.Logic.Basic
import Mathlib.Tactic.Common

/-!
# Types with parameters

Type expressions over named types, closed under the application of generic types and
under arrays, with parameters from any type `P`: a type whose parameters come from
`Empty` has none. Parameters are replaced by `bind`, and `toClosed` recognises the
expressions that no parameter occurs in.

Nothing here refers to a particular program.
-/
namespace ComposableAsync.Foundations

/-- A generic type of several arguments is applied to one after the other. -/
inductive TypeExpr (K P : Type) where
  | named (name : K)
  | apply (generic argument : TypeExpr K P)
  | array (element : TypeExpr K P)
  | parameter (p : P)
  deriving DecidableEq, Repr

namespace TypeExpr
variable {K P Q S : Type}

def bind (f : P → TypeExpr K Q) : TypeExpr K P → TypeExpr K Q
  | .named name => .named name
  | .apply generic argument => .apply (generic.bind f) (argument.bind f)
  | .array element => .array (element.bind f)
  | .parameter p => f p

/-- A type without parameters, wherever parameters are allowed. -/
def lift (t : TypeExpr K Empty) : TypeExpr K P := t.bind Empty.elim

def containsParameters : TypeExpr K P → Bool
  | .named _ => false
  | .apply generic argument => generic.containsParameters || argument.containsParameters
  | .array element => element.containsParameters
  | .parameter _ => true

def isParameter : TypeExpr K P → Bool
  | .parameter _ => true
  | .named _ | .apply _ _ | .array _ => false

/-- The type itself, if no parameter occurs in it. -/
def toClosed : TypeExpr K P → Option (TypeExpr K Empty)
  | .named name => some (.named name)
  | .apply generic argument => do return .apply (← generic.toClosed) (← argument.toClosed)
  | .array element => do return .array (← element.toClosed)
  | .parameter _ => none

theorem bind_bind (f : P → TypeExpr K Q) (g : Q → TypeExpr K S) (t : TypeExpr K P) :
    (t.bind f).bind g = t.bind fun p => (f p).bind g := by
  induction t with
  | named name => rfl
  | apply generic argument ihg iha => simp only [bind, ihg, iha]
  | array element ih => simp only [bind, ih]
  | parameter p => rfl

theorem lift_bind (f : P → TypeExpr K Q) (t : TypeExpr K Empty) :
    (lift t : TypeExpr K P).bind f = lift t := by
  rw [lift, bind_bind, lift]
  congr 1
  exact funext nofun

theorem lift_self (t : TypeExpr K Empty) : (lift t : TypeExpr K Empty) = t := by
  rw [lift]
  induction t with
  | named name => rfl
  | apply generic argument ihg iha => rw [bind, ihg, iha]
  | array element ih => rw [bind, ih]
  | parameter p => exact p.elim

theorem bind_of_closed {t : TypeExpr K P} {u : TypeExpr K Empty} (h : t.toClosed = some u)
    (f : P → TypeExpr K Empty) : t.bind f = u := by
  induction t generalizing u with
  | named name =>
      cases h
      rfl
  | apply generic argument ihg iha =>
      simp only [toClosed, Option.bind_eq_bind, Option.bind_eq_some_iff, Option.pure_def,
        Option.some.injEq] at h
      obtain ⟨g, hg, a, ha, rfl⟩ := h
      simp only [bind, ihg hg, iha ha]
  | array element ih =>
      simp only [toClosed, Option.bind_eq_bind, Option.bind_eq_some_iff, Option.pure_def,
        Option.some.injEq] at h
      obtain ⟨e, he, rfl⟩ := h
      simp only [bind, ih he]
  | parameter p => cases h

theorem toClosed_eq_none_iff {t : TypeExpr K P} :
    t.toClosed = none ↔ t.containsParameters = true := by
  induction t with
  | named name => exact ⟨nofun, nofun⟩
  | apply generic argument ihg iha =>
      rw [containsParameters, Bool.or_eq_true, ← ihg, ← iha, toClosed]
      cases generic.toClosed <;> cases argument.toClosed <;> simp
  | array element ih =>
      rw [containsParameters, ← ih, toClosed]
      cases element.toClosed <;> simp
  | parameter p => exact ⟨fun _ => rfl, fun _ => rfl⟩

theorem exists_closed {t : TypeExpr K P} (h : t.containsParameters = false) :
    ∃ u, t.toClosed = some u := by
  refine Option.ne_none_iff_exists'.mp fun hnone => ?_
  rw [toClosed_eq_none_iff.mp hnone] at h
  cases h

end TypeExpr
end ComposableAsync.Foundations
