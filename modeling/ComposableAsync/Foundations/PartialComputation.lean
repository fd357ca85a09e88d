import Mathlib.Tactic.Common

/-!
# Computations that throw or never return

The computations of `Computation.lean` with a third outcome: `none` is a computation that
does not return, or that ran out of the fuel its definition has. The rules tell what a body
does in a given state from what its parts do there, `ThrowsOnly` says of which kind the
exceptions are that leave it, and `Logs` what it adds to a log in the state.

Nothing here refers to a particular program.
-/
namespace ComposableAsync.Foundations

abbrev PartialComp (E S α : Type) := ExceptT E (StateT S Option) α

namespace PartialComp
variable {E S L α β : Type} {x : PartialComp E S α} {f : α → PartialComp E S β}
variable {handler : E → PartialComp E S α} {s t : S} {a : α} {e : E}

theorem bind_apply : (x >>= f) s =
    (x s).bind fun r => match r.1 with
      | .ok a => f a r.2
      | .error e => some (.error e, r.2) := by
  change (x s).bind (fun r => (ExceptT.bindCont f r.1).run r.2) = _
  congr 1
  funext r
  rcases r with ⟨e | a, t⟩ <;> rfl

theorem bind_of_ok (h : x s = some (.ok a, t)) : (x >>= f) s = f a t := by
  rw [bind_apply, h]
  rfl

theorem bind_of_error (h : x s = some (.error e, t)) : (x >>= f) s = some (.error e, t) := by
  rw [bind_apply, h]
  rfl

theorem bind_of_none (h : x s = none) : (x >>= f) s = none := by
  rw [bind_apply, h]
  rfl

theorem tryCatch_apply : tryCatch x handler s =
    (x s).bind fun r => match r.1 with
      | .ok a => some (.ok a, r.2)
      | .error e => handler e r.2 := by
  change (x s).bind (fun r => _) = _
  congr 1
  funext r
  rcases r with ⟨e | a, t⟩ <;> rfl

theorem tryCatch_of_ok (h : x s = some (.ok a, t)) :
    tryCatch x handler s = some (.ok a, t) := by
  rw [tryCatch_apply, h]
  rfl

theorem tryCatch_of_error (h : x s = some (.error e, t)) : tryCatch x handler s = handler e t := by
  rw [tryCatch_apply, h]
  rfl

theorem tryCatch_of_none (h : x s = none) : tryCatch x handler s = none := by
  rw [tryCatch_apply, h]
  rfl

/-- A computation on the first part of a state. -/
def onFst (x : PartialComp E S α) : PartialComp E (S × L) α := fun s =>
  (x s.1).map fun r => (r.1, r.2, s.2)

theorem onFst_of_some {r : Except E α} {l : L} (h : x s = some (r, t)) :
    onFst x (s, l) = some (r, t, l) := by
  rw [onFst, h]
  rfl

def ThrowsOnly (A : E → Prop) (x : PartialComp E S α) : Prop :=
  ∀ s e t, x s = some (.error e, t) → A e

section ThrowsOnly
variable {A B : E → Prop}

theorem throwsOnly_throw (h : A e) : ThrowsOnly A (throw e : PartialComp E S α) := by
  intro s e t he
  cases he
  exact h

theorem ThrowsOnly.bind (hx : ThrowsOnly A x) (hf : ∀ a, ThrowsOnly A (f a)) :
    ThrowsOnly A (x >>= f) := by
  intro s e u h
  cases hr : x s with
  | none => cases (bind_of_none hr).symm.trans h
  | some r =>
      obtain ⟨e' | a, t⟩ := r
      · cases (bind_of_error hr).symm.trans h
        exact hx s _ _ hr
      · exact hf a t e u ((bind_of_ok hr).symm.trans h)

theorem ThrowsOnly.tryCatch (hx : ThrowsOnly A x) (hh : ∀ e, A e → ThrowsOnly B (handler e)) :
    ThrowsOnly B (tryCatch x handler) := by
  intro s e u h
  cases hr : x s with
  | none => cases (tryCatch_of_none hr).symm.trans h
  | some r =>
      obtain ⟨e' | a, t⟩ := r
      · exact hh e' (hx s _ _ hr) t e u ((tryCatch_of_error hr).symm.trans h)
      · cases (tryCatch_of_ok hr).symm.trans h

theorem ThrowsOnly.onFst (hx : ThrowsOnly A x) :
    ThrowsOnly A (onFst x : PartialComp E (S × L) α) := by
  rintro ⟨s, l⟩ e t h
  cases hr : x s with
  | none => simp only [PartialComp.onFst, hr, Option.map_none, reduceCtorEq] at h
  | some r =>
      obtain ⟨e' | a, s'⟩ := r
      · cases (onFst_of_some hr).symm.trans h
        exact hx s _ _ hr
      · cases (onFst_of_some hr).symm.trans h

end ThrowsOnly

/-- Nothing is taken from the log, and what is added goes with the outcome. -/
def Logs (P : Except E α → List L → Prop) (x : PartialComp E (S × List L) α) : Prop :=
  ∀ s events r t events', x (s, events) = some (r, t, events') →
    ∃ added, events' = events ++ added ∧ P r added

section Logs
variable {y : PartialComp E (S × List L) α} {g : α → PartialComp E (S × List L) β}
  {caught : E → PartialComp E (S × List L) α} {P Q : Except E α → List L → Prop}
  {R : Except E β → List L → Prop}

theorem Logs.mono (hy : Logs P y) (h : ∀ r added, P r added → Q r added) : Logs Q y := by
  intro s events r t events' hr
  obtain ⟨added, hadded, hp⟩ := hy s events r t events' hr
  exact ⟨added, hadded, h r added hp⟩

theorem Logs.bind (hy : Logs P y)
    (hg : ∀ a xs, P (.ok a) xs → Logs (fun r ys => R r (xs ++ ys)) (g a))
    (herror : ∀ e xs, P (.error e) xs → R (.error e) xs) : Logs R (y >>= g) := by
  intro s events r t events' h
  cases hr : y (s, events) with
  | none => cases (bind_of_none hr).symm.trans h
  | some r' =>
      obtain ⟨e | a, s', log⟩ := r'
      · obtain ⟨xs, rfl, hp⟩ := hy _ _ _ _ _ hr
        cases (bind_of_error hr).symm.trans h
        exact ⟨xs, rfl, herror e xs hp⟩
      · obtain ⟨xs, rfl, hp⟩ := hy _ _ _ _ _ hr
        obtain ⟨ys, rfl, hq⟩ := hg a xs hp _ _ _ _ _ ((bind_of_ok hr).symm.trans h)
        exact ⟨xs ++ ys, List.append_assoc .., hq⟩

theorem Logs.tryCatch (hy : Logs P y)
    (hcaught : ∀ e xs, P (.error e) xs → Logs (fun r ys => Q r (xs ++ ys)) (caught e))
    (hok : ∀ a xs, P (.ok a) xs → Q (.ok a) xs) : Logs Q (tryCatch y caught) := by
  intro s events r t events' h
  cases hr : y (s, events) with
  | none => cases (tryCatch_of_none hr).symm.trans h
  | some r' =>
      obtain ⟨e | a, s', log⟩ := r'
      · obtain ⟨xs, rfl, hp⟩ := hy _ _ _ _ _ hr
        obtain ⟨ys, rfl, hq⟩ := hcaught e xs hp _ _ _ _ _ ((tryCatch_of_error hr).symm.trans h)
        exact ⟨xs ++ ys, List.append_assoc .., hq⟩
      · obtain ⟨xs, rfl, hp⟩ := hy _ _ _ _ _ hr
        cases (tryCatch_of_ok hr).symm.trans h
        exact ⟨xs, rfl, hok a xs hp⟩

end Logs

end PartialComp
end ComposableAsync.Foundations
