import Mathlib.Tactic.Common

/-!
# Computations that throw

A method body with a state it shares and exceptions it may throw. The state
survives a throw, as it does when a `catch` runs. One rule for each construct
tells what a body does in a given state from what its parts do there.
-/
namespace ComposableAsync.Foundations

abbrev Comp (E S α : Type) := ExceptT E (StateM S) α

namespace Comp
variable {E S α β : Type} {x : Comp E S α} {f : α → Comp E S β} {handler : E → Comp E S α}
variable {s t : S} {a : α} {e : E}

theorem ok_or_error (x : Comp E S α) (s : S) :
    (∃ a t, x s = (.ok a, t)) ∨ ∃ e t, x s = (.error e, t) := by
  cases hr : (x s).1 with
  | ok a => exact .inl ⟨a, (x s).2, Prod.ext hr rfl⟩
  | error e => exact .inr ⟨e, (x s).2, Prod.ext hr rfl⟩

theorem pure_apply : (pure a : Comp E S α) s = (.ok a, s) := rfl

theorem throw_apply : (throw e : Comp E S α) s = (.error e, s) := rfl

theorem bind_of_ok (h : x s = (.ok a, t)) : (x >>= f) s = f a t := by
  have hbind : (x >>= f) s = (ExceptT.bindCont f (x s).1).run (x s).2 := rfl
  rw [hbind, h]
  rfl

theorem bind_of_error (h : x s = (.error e, t)) : (x >>= f) s = (.error e, t) := by
  have hbind : (x >>= f) s = (ExceptT.bindCont f (x s).1).run (x s).2 := rfl
  rw [hbind, h]
  rfl

theorem tryCatch_of_ok (h : x s = (.ok a, t)) : tryCatch x handler s = (.ok a, t) := by
  have hcatch : tryCatch x handler s = tryCatch (fun _ => x s : Comp E S α) handler s := rfl
  rw [hcatch, h]
  rfl

theorem tryCatch_of_error (h : x s = (.error e, t)) : tryCatch x handler s = handler e t := by
  have hcatch : tryCatch x handler s = tryCatch (fun _ => x s : Comp E S α) handler s := rfl
  rw [hcatch, h]
  rfl

theorem tryCatch_throw : (tryCatch x fun e => throw e) = x := by
  funext s
  obtain ⟨a, t, h⟩ | ⟨e, t, h⟩ := x.ok_or_error s
  · exact (tryCatch_of_ok h).trans h.symm
  · exact (tryCatch_of_error h).trans h.symm

/-- `x` with the exception it throws replaced by another one. -/
def mapError (f : E → E) (x : Comp E S α) : Comp E S α := tryCatch x fun e => throw (f e)

theorem mapError_of_ok {f : E → E} (h : x s = (.ok a, t)) : x.mapError f s = (.ok a, t) :=
  tryCatch_of_ok h

theorem mapError_of_error {f : E → E} (h : x s = (.error e, t)) :
    x.mapError f s = (.error (f e), t) := tryCatch_of_error h

theorem mapError_mapError_cancel {f g : E → E} (hfg : ∀ e, g (f e) = e) :
    (x.mapError f).mapError g = x := by
  funext s
  obtain ⟨a, t, h⟩ | ⟨e, t, h⟩ := x.ok_or_error s
  · exact (mapError_of_ok (mapError_of_ok h)).trans h.symm
  · rw [mapError_of_error (mapError_of_error h), hfg]
    exact h.symm

/-- A replacement that leaves no exception as it is shows wherever one is thrown. -/
theorem mapError_eq_iff {f : E → E} (hf : ∀ e, f e ≠ e) :
    x.mapError f s = x s ↔ ∃ a t, x s = (.ok a, t) := by
  obtain ⟨a, t, h⟩ | ⟨e, t, h⟩ := x.ok_or_error s
  · exact ⟨fun _ => ⟨a, t, h⟩, fun _ => (mapError_of_ok h).trans h.symm⟩
  · rw [mapError_of_error h, h]
    constructor
    · intro heq
      exact (hf e (Except.error.inj (congrArg Prod.fst heq))).elim
    · rintro ⟨a, u, hok⟩
      cases hok

theorem bind_congr_at {y : Comp E S α} (h : x s = y t) : (x >>= f) s = (y >>= f) t := by
  have hx : (x >>= f) s = (ExceptT.bindCont f (x s).1).run (x s).2 := rfl
  have hy : (y >>= f) t = (ExceptT.bindCont f (y t).1).run (y t).2 := rfl
  rw [hx, hy, h]

section Map
variable {g : α → β}

theorem map_of_ok (h : x s = (.ok a, t)) : (g <$> x) s = (.ok (g a), t) := by
  rw [map_eq_pure_bind, bind_of_ok h]
  rfl

theorem map_of_error (h : x s = (.error e, t)) : (g <$> x) s = (.error e, t) := by
  rw [map_eq_pure_bind, bind_of_error h]

theorem exists_ok_map : (∃ b t, (g <$> x) s = (.ok b, t)) ↔ ∃ a t, x s = (.ok a, t) := by
  obtain ⟨a, t, h⟩ | ⟨e, t, h⟩ := x.ok_or_error s
  · exact ⟨fun _ => ⟨a, t, h⟩, fun _ => ⟨g a, t, map_of_ok h⟩⟩
  · rw [map_of_error h, h]
    constructor
    · rintro ⟨b, u, hok⟩
      cases hok
    · rintro ⟨a, u, hok⟩
      cases hok

theorem map_tryCatch : g <$> tryCatch x handler = tryCatch (g <$> x) fun e => g <$> handler e := by
  funext s
  obtain ⟨a, t, h⟩ | ⟨e, t, h⟩ := x.ok_or_error s
  · rw [map_of_ok (tryCatch_of_ok h), tryCatch_of_ok (map_of_ok h)]
  · rw [tryCatch_of_error (map_of_error h), map_eq_pure_bind, map_eq_pure_bind]
    exact bind_congr_at (tryCatch_of_error h)

theorem tryCatch_bind {h : E → Comp E S β} {k : β → Comp E S β} (hk : ∀ a, k (g a) = pure (g a)) :
    tryCatch (g <$> x) h >>= k = tryCatch (g <$> x) fun e => h e >>= k := by
  funext s
  obtain ⟨a, t, hx⟩ | ⟨e, t, hx⟩ := x.ok_or_error s
  · rw [bind_of_ok (tryCatch_of_ok (map_of_ok hx)), tryCatch_of_ok (map_of_ok hx), hk]
    rfl
  · rw [tryCatch_of_error (map_of_error hx)]
    exact bind_congr_at (tryCatch_of_error (map_of_error hx))

end Map

end Comp
end ComposableAsync.Foundations
