import ComposableAsync.Concurrent.CancellableDo

/-!
# How cancellable work items end

The same delegate as an `ActionCancellableWorkItem` or `CancellableWorkItem<T>` and as
an `AsyncActionCancellableWorkItem` or `AsyncCancellableWorkItem<T>`, with the token
cancelled at the same moment of their lives. The catch clauses of the asynchronous ones
tell an `OperationCanceledException` of their own cancelled token from the other
exceptions; the synchronous ones have one clause for all of them.
-/
namespace ComposableAsync.Concurrent.CancellableDo
open Foundations

variable {R E : Type}

/-- What the delegate does in the end. One without a result is wrapped in one that
returns `null`. -/
inductive Delegate (R E : Type) where
  | func (outcome : Except (Exn E) R)
  | action (outcome : Except (Exn E) Unit)

namespace Delegate
variable [Inhabited R]

def outcome : Delegate R E → Except (Exn E) R
  | .func outcome => outcome
  | .action outcome => outcome.map fun _ => default

/-- `CancellableWorkItem<T>`, or `ActionCancellableWorkItem`. -/
def cancellable (d : Delegate R E) (token : Token) : CancellableJob R E :=
  ⟨.cancellableWorkItem token d.outcome, token, rfl⟩

/-- `AsyncCancellableWorkItem<T>`, or `AsyncActionCancellableWorkItem`. A delegate that
throws before it has returned a task does not suspend. -/
def asyncCancellable (d : Delegate R E) (token : Token) (awaits : ℕ) : CancellableJob R E :=
  ⟨.asyncCancellableWorkItem token awaits d.outcome, token, rfl⟩

end Delegate

/-- When the token is cancelled. A delegate that is cancelled while it runs has been
suspended some number of times. -/
inductive TokenHistory where
  | never
  | beforeConstruction
  | beforeDo
  | duringDelegate (suspensions : ℕ)
  deriving DecidableEq, Repr

/-- `Do` up to the call of the delegate. -/
def callDelegate : List Act := [.consume, .consume, .consume]

/-- The token is marked, and the callback runs if it is registered. -/
def cancelToken (registered : Bool) : List Act :=
  if registered then [.cancel, .cancel, .cancel] else [.cancel, .cancel]

def suspensions : ℕ → List Act
  | 0 => []
  | n + 1 => .consume :: .resume :: suspensions n

/-- The delegate, suspended `awaits` times. -/
def delegate (awaits : ℕ) : List Act := suspensions awaits ++ [.consume]

/-- The work item from its construction to its end. -/
def TokenHistory.acts (awaits : ℕ) : TokenHistory → List Act
  | .never => .construct :: (callDelegate ++ delegate awaits)
  | .beforeConstruction => cancelToken false ++ [.construct, .consume]
  | .beforeDo => .construct :: (cancelToken true ++ [.consume])
  | .duringDelegate n => .construct :: (callDelegate ++ (suspensions (min n awaits) ++
      (cancelToken false ++ delegate (awaits - min n awaits))))

/-- An exception of the own cancelled token cancels the task, any other one fails it. -/
def TokenHistory.status (token : Token) (outcome : Except (Exn E) R) :
    TokenHistory → TaskStatus R E
  | .beforeConstruction | .beforeDo => .canceled
  | .never => TaskStatus.pending.complete outcome
  | .duringDelegate _ =>
      match outcome with
      | .error (.operationCanceled (some t)) =>
          if t = token then .canceled else .faulted (.operationCanceled (some t))
      | outcome => TaskStatus.pending.complete outcome

/-- The delegate was called and runs, with `awaits` suspensions to come. -/
def running (job : Job R E) (awaits : ℕ) (requested : Bool) (canceller : Canceller) :
    State R E where
  item := { job, awaits }
  requested := requested
  doing := .invoking
  canceller := canceller

/-- The delegate has ended. -/
def ended (job : Job R E) (source : TaskStatus R E) (requested : Bool) (canceller : Canceller) :
    State R E where
  item := { job, source }
  requested := requested
  doing := .ended
  canceller := canceller

section Runs
variable {job : CancellableJob R E} {token : Token} {outcome : Except (Exn E) R} {awaits : ℕ}
  {requested : Bool} {canceller : Canceller}

theorem run_suspensions (job : CancellableJob R E) (token : Token) (total awaits : ℕ)
    (outcome : Except (Exn E) R) (requested : Bool) (canceller : Canceller) (n : ℕ) :
    (machine job).run (suspensions n)
      (running (.asyncCancellableWorkItem token total outcome) (awaits + n) requested canceller) =
    some (running (.asyncCancellableWorkItem token total outcome) awaits requested canceller) := by
  induction n with
  | zero => rfl
  | succ n ih =>
      rw [← Nat.add_assoc]
      exact ih

theorem run_delegate (job : CancellableJob R E) (token : Token) (total awaits : ℕ)
    (outcome : Except (Exn E) R) (requested : Bool) (canceller : Canceller) :
    (machine job).run (delegate awaits)
      (running (.asyncCancellableWorkItem token total outcome) awaits requested canceller) =
    some (ended (.asyncCancellableWorkItem token total outcome)
      (TaskStatus.pending.completeCancellable (fun _ => requested) token outcome) requested
      canceller) := by
  have hsuspended := run_suspensions job token total 0 outcome requested canceller awaits
  rw [Nat.zero_add] at hsuspended
  rw [delegate, Machine.run_append, hsuspended]
  rfl

theorem run_cancelToken (job' : Job R E) : (machine job).run (cancelToken false)
    (running job' awaits false .idle) = some (running job' awaits true .finished) := rfl

end Runs

section Families
variable (token : Token)

theorem completeCancellable_eq (outcome : Except (Exn E) R) (n : ℕ) :
    TaskStatus.pending.completeCancellable (fun _ => true) token outcome =
      (TokenHistory.duringDelegate n).status token outcome := by
  cases outcome with
  | ok result => rfl
  | error exception =>
      cases exception with
      | other e => rfl
      | operationCanceled own =>
          cases own with
          | none => rfl
          | some own =>
              by_cases h : own = token
              · subst h
                simp [TaskStatus.completeCancellable, TokenHistory.status,
                  TaskStatus.trySetCanceled]
              · simp [TaskStatus.completeCancellable, TokenHistory.status, h,
                  TaskStatus.trySetException]

theorem completeCancellable_of_not_requested (outcome : Except (Exn E) R) :
    TaskStatus.pending.completeCancellable (fun _ => false) token outcome =
      TaskStatus.pending.complete outcome := by
  cases outcome with
  | ok result => rfl
  | error exception => cases exception <;> rfl

theorem complete_eq_iff (outcome : Except (Exn E) R) (n : ℕ) :
    TaskStatus.pending.complete outcome = (TokenHistory.duringDelegate n).status token outcome ↔
      outcome ≠ .error (.operationCanceled (some token)) := by
  cases outcome with
  | ok result => exact iff_of_true rfl nofun
  | error exception =>
      cases exception with
      | other e => exact iff_of_true rfl nofun
      | operationCanceled own =>
          cases own with
          | none => exact iff_of_true rfl nofun
          | some own =>
              by_cases h : own = token
              · subst h
                simp [TokenHistory.status, TaskStatus.complete, TaskStatus.trySetException]
              · simp [TokenHistory.status, TaskStatus.complete, TaskStatus.trySetException, h]

variable [Inhabited R] (d : Delegate R E)

theorem run_asyncCancellable (awaits : ℕ) (history : TokenHistory) : ∃ s,
    (machine (d.asyncCancellable token awaits)).run (history.acts awaits)
      (machine (d.asyncCancellable token awaits)).init = some s ∧
    s.item.source = history.status token d.outcome := by
  let job := d.asyncCancellable token awaits
  have hdelegate := run_delegate job token awaits
  cases history with
  | beforeConstruction | beforeDo => exact ⟨_, rfl, rfl⟩
  | never =>
      exact ⟨_, hdelegate awaits d.outcome false .idle,
        completeCancellable_of_not_requested token d.outcome⟩
  | duringDelegate n =>
      have hsuspended : (machine job).run (suspensions (min n awaits))
          (running job.job awaits false .idle) =
            some (running job.job (awaits - min n awaits) false .idle) := by
        have hrun := run_suspensions job token awaits (awaits - min n awaits) d.outcome false .idle
          (min n awaits)
        rwa [Nat.sub_add_cancel (Nat.min_le_right n awaits)] at hrun
      refine ⟨ended job.job (TaskStatus.pending.completeCancellable (fun _ => true) token d.outcome)
        true .finished, ?_, completeCancellable_eq token d.outcome n⟩
      change (machine job).run (suspensions (min n awaits) ++
        (cancelToken false ++ delegate (awaits - min n awaits)))
          (running job.job awaits false .idle) = _
      rw [Machine.run_append, hsuspended, Option.bind_some, Machine.run_append, run_cancelToken,
        Option.bind_some]
      exact hdelegate _ d.outcome true .finished

theorem run_cancellable (history : TokenHistory) : ∃ s,
    (machine (d.cancellable token)).run (history.acts 0) (machine (d.cancellable token)).init =
      some s ∧
    (s.item.source = history.status token d.outcome ↔ ¬ ((∃ n, history = .duringDelegate n) ∧
      d.outcome = .error (.operationCanceled (some token)))) := by
  cases history with
  | beforeConstruction | beforeDo => exact ⟨_, rfl, iff_of_true rfl (by rintro ⟨⟨n, ⟨⟩⟩, -⟩)⟩
  | never => exact ⟨_, rfl, iff_of_true rfl (by rintro ⟨⟨n, ⟨⟩⟩, -⟩)⟩
  | duringDelegate n =>
      refine ⟨ended (d.cancellable token).job (TaskStatus.pending.complete d.outcome) true .finished,
        ?_, (complete_eq_iff token d.outcome n).trans ?_⟩
      · rw [TokenHistory.acts, Nat.min_zero]
        rfl
      · exact not_congr (iff_and_self.mpr fun _ => ⟨n, rfl⟩)

/-- An asynchronous delegate ends the task as it should, and a synchronous one in the same
way, unless it throws for its own token, cancelled while it ran. -/
theorem same_status_iff (history : TokenHistory) (awaits : ℕ) : ∃ s t,
    (machine (d.cancellable token)).run (history.acts 0) (machine (d.cancellable token)).init =
      some s ∧
    (machine (d.asyncCancellable token awaits)).run (history.acts awaits)
      (machine (d.asyncCancellable token awaits)).init = some t ∧
    t.item.source = history.status token d.outcome ∧
    (s.item.source = t.item.source ↔ ¬ ((∃ n, history = .duringDelegate n) ∧
      d.outcome = .error (.operationCanceled (some token)))) := by
  obtain ⟨s, hs, hsync⟩ := run_cancellable token d history
  obtain ⟨t, ht, hasync⟩ := run_asyncCancellable token d awaits history
  refine ⟨s, t, hs, ht, hasync, ?_⟩
  rw [hasync]
  exact hsync

end Families

/-- A delegate that throws for its own token. -/
def ownCancellation : Delegate Unit Unit := .func (.error (.operationCanceled (some 0)))

/-- The token is cancelled while the delegate runs, before it throws. -/
theorem faulted_and_canceled : ∃ s t,
    (machine (ownCancellation.cancellable 0)).run ((TokenHistory.duringDelegate 0).acts 0)
      (machine (ownCancellation.cancellable 0)).init = some s ∧
    (machine (ownCancellation.asyncCancellable 0 0)).run ((TokenHistory.duringDelegate 0).acts 0)
      (machine (ownCancellation.asyncCancellable 0 0)).init = some t ∧
    s.item.source = .faulted (.operationCanceled (some 0)) ∧ t.item.source = .canceled :=
  ⟨_, _, rfl, rfl, rfl, rfl⟩

end ComposableAsync.Concurrent.CancellableDo
