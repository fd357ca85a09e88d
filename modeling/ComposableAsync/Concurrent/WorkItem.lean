import Mathlib.Logic.Function.Basic
import Mathlib.Tactic.Common

/-!
# Work items

What a fiber's queue holds are references to work items. A work item wraps a
delegate; here the delegate is data, the outcome it will have and, for an
asynchronous one, the number of times it suspends on the way. `doItem` is `Do`
of all the classes: it runs on the consumer's thread, completes the task source
and may let an exception escape, which only `DispatchItem` does.

`ActionWorkItem`, `ActionCancellableWorkItem`, `AsyncActionWorkItem` and
`AsyncActionCancellableWorkItem` are their base classes at a result that is
`null`, which is the default of the result type.
-/
namespace ComposableAsync.Concurrent

/-- A cancellation token, by its source. -/
abbrev Token := ℕ

/-- What a delegate throws; `CancellationToken.None` is no token. -/
inductive Exn (E : Type) where
  | operationCanceled (token : Option Token)
  | other (e : E)
  deriving DecidableEq, Repr

/-- The state of a `TaskCompletionSource`, and of its `Task`. -/
inductive TaskStatus (R E : Type) where
  | pending
  | ranToCompletion (result : R)
  | faulted (exception : Exn E)
  | canceled
  deriving DecidableEq, Repr

namespace TaskStatus
variable {R E : Type}

def isCompleted : TaskStatus R E → Bool
  | .pending => false
  | .ranToCompletion _ | .faulted _ | .canceled => true

def trySetResult (result : R) : TaskStatus R E → TaskStatus R E
  | .pending => .ranToCompletion result
  | t => t

def trySetException (exception : Exn E) : TaskStatus R E → TaskStatus R E
  | .pending => .faulted exception
  | t => t

def trySetCanceled : TaskStatus R E → TaskStatus R E
  | .pending => .canceled
  | t => t

/-- `try { TrySetResult(...) } catch (Exception e) { TrySetException(e) }`. -/
def complete (outcome : Except (Exn E) R) (t : TaskStatus R E) : TaskStatus R E :=
  match outcome with
  | .ok result => t.trySetResult result
  | .error e => t.trySetException e

/-- The catch clauses of `AsyncCancellableWorkItem.Do`. -/
def completeCancellable (requested : Token → Bool) (token : Token) (outcome : Except (Exn E) R)
    (t : TaskStatus R E) : TaskStatus R E :=
  match outcome with
  | .ok result => t.trySetResult result
  | .error (.operationCanceled tk) =>
      if requested token && tk == some token then t.trySetCanceled
      else t.trySetException (.operationCanceled tk)
  | .error (.other e) => t.trySetException (.other e)

@[simp] theorem isCompleted_trySetResult (r : R) (t : TaskStatus R E) :
    (t.trySetResult r).isCompleted = true := by
  cases t <;> rfl

@[simp] theorem isCompleted_trySetException (e : Exn E) (t : TaskStatus R E) :
    (t.trySetException e).isCompleted = true := by
  cases t <;> rfl

@[simp] theorem isCompleted_trySetCanceled (t : TaskStatus R E) :
    t.trySetCanceled.isCompleted = true := by
  cases t <;> rfl

@[simp] theorem isCompleted_complete (o : Except (Exn E) R) (t : TaskStatus R E) :
    (t.complete o).isCompleted = true := by
  cases o <;> simp [complete]

@[simp] theorem isCompleted_completeCancellable (requested : Token → Bool) (token : Token)
    (o : Except (Exn E) R) (t : TaskStatus R E) :
    (t.completeCancellable requested token o).isCompleted = true := by
  unfold completeCancellable
  split
  · simp
  · split <;> simp
  · simp

/-- What the delegate gave the task: a result or an exception. -/
def outcome : TaskStatus R E → Option (Except (Exn E) R)
  | .ranToCompletion result => some (.ok result)
  | .faulted exception => some (.error exception)
  | .pending | .canceled => none

@[simp] theorem outcome_trySetCanceled (t : TaskStatus R E) :
    t.trySetCanceled.outcome = t.outcome := by
  cases t <;> rfl

theorem trySetResult_of_completed {t : TaskStatus R E} (h : t.isCompleted = true) (r : R) :
    t.trySetResult r = t := by
  cases t with
  | pending => cases h
  | ranToCompletion _ | faulted _ | canceled => rfl

theorem trySetException_of_completed {t : TaskStatus R E} (h : t.isCompleted = true) (e : Exn E) :
    t.trySetException e = t := by
  cases t with
  | pending => cases h
  | ranToCompletion _ | faulted _ | canceled => rfl

theorem trySetCanceled_of_completed {t : TaskStatus R E} (h : t.isCompleted = true) :
    t.trySetCanceled = t := by
  cases t with
  | pending => cases h
  | ranToCompletion _ | faulted _ | canceled => rfl

theorem complete_of_completed {t : TaskStatus R E} (h : t.isCompleted = true)
    (o : Except (Exn E) R) : t.complete o = t := by
  cases o with
  | ok r => exact trySetResult_of_completed h r
  | error e => exact trySetException_of_completed h e

theorem outcome_complete {t : TaskStatus R E} {o o' : Except (Exn E) R}
    (h : (t.complete o).outcome = some o') : t.outcome = some o' ∨ t = .pending ∧ o' = o := by
  cases t with
  | pending =>
      cases o <;>
      · cases h
        exact .inr ⟨rfl, rfl⟩
  | ranToCompletion | faulted | canceled =>
      rw [complete_of_completed rfl] at h
      exact .inl h

theorem completeCancellable_of_completed {t : TaskStatus R E} (h : t.isCompleted = true)
    (requested : Token → Bool) (token : Token) (o : Except (Exn E) R) :
    t.completeCancellable requested token o = t := by
  unfold completeCancellable
  split
  · exact trySetResult_of_completed h _
  · split
    · exact trySetCanceled_of_completed h
    · exact trySetException_of_completed h _
  · exact trySetException_of_completed h _

end TaskStatus

/-- The class of a work item with its delegate. `post` is the `ActionWorkItem`
that the synchronization context makes of a continuation; its target is the work
item whose delegate goes on. -/
inductive Job (R E : Type) where
  | dispatchItem (outcome : Except (Exn E) Unit)
  | workItem (outcome : Except (Exn E) R)
  | cancellableWorkItem (token : Token) (outcome : Except (Exn E) R)
  | asyncWorkItem (awaits : ℕ) (outcome : Except (Exn E) R)
  | asyncCancellableWorkItem (token : Token) (awaits : ℕ) (outcome : Except (Exn E) R)
  | post (target : ℕ)

/-- `awaits` counts the suspensions still to come; while `awaiting`, the delegate
is suspended on an operation outside the fiber. -/
structure WorkItem (R E : Type) where
  job : Job R E
  source : TaskStatus R E := .pending
  registration : Option Token := none
  awaits : ℕ := 0
  awaiting : Bool := false

namespace Job
variable {R E : Type}

/-- The token the work item registers with. -/
def token : Job R E → Option Token
  | .cancellableWorkItem token _ | .asyncCancellableWorkItem token _ _ => some token
  | .dispatchItem _ | .workItem _ | .asyncWorkItem _ _ | .post _ => none

def awaits : Job R E → ℕ
  | .asyncWorkItem awaits _ | .asyncCancellableWorkItem _ awaits _ => awaits
  | .dispatchItem _ | .workItem _ | .cancellableWorkItem _ _ | .post _ => 0

/-- The exception that `Do` lets escape. -/
def thrown : Job R E → Option (Exn E)
  | .dispatchItem (.error e) => some e
  | .dispatchItem (.ok _) | .workItem _ | .cancellableWorkItem _ _ | .asyncWorkItem _ _
  | .asyncCancellableWorkItem _ _ _ | .post _ => none

/-- Made by `Enqueue(Action)` or `Enqueue<T>(Func<T>)`, with or without token. -/
def IsSync : Job R E → Prop
  | .workItem _ | .cancellableWorkItem _ _ => True
  | .dispatchItem _ | .asyncWorkItem _ _ | .asyncCancellableWorkItem _ _ _ | .post _ => False

theorem IsSync.thrown {job : Job R E} (h : job.IsSync) : job.thrown = none := by
  cases job with
  | workItem _ | cancellableWorkItem _ _ => rfl
  | dispatchItem _ | asyncWorkItem _ _ | asyncCancellableWorkItem _ _ _ | post _ => exact h.elim

instance : DecidablePred (IsSync : Job R E → Prop)
  | .workItem _ | .cancellableWorkItem _ _ => isTrue trivial
  | .dispatchItem _ | .asyncWorkItem _ _ | .asyncCancellableWorkItem _ _ _ | .post _ =>
      isFalse not_false

/-- Made by `Enqueue(Func<Task>)` or `Enqueue<T>(Func<Task<T>>)`. -/
def IsAsync : Job R E → Prop
  | .asyncWorkItem _ _ | .asyncCancellableWorkItem _ _ _ => True
  | .dispatchItem _ | .workItem _ | .cancellableWorkItem _ _ | .post _ => False

instance : DecidablePred (IsAsync : Job R E → Prop)
  | .asyncWorkItem _ _ | .asyncCancellableWorkItem _ _ _ => isTrue trivial
  | .dispatchItem _ | .workItem _ | .cancellableWorkItem _ _ | .post _ => isFalse not_false

end Job

namespace WorkItem
variable {R E : Type}

/-- The constructors. `Register` runs its callback at once if the token is
cancelled already. -/
def create (requested : Token → Bool) (job : Job R E) : WorkItem R E :=
  match job.token with
  | some token =>
      if requested token then { job, source := .canceled, awaits := job.awaits }
      else { job, registration := some token, awaits := job.awaits }
  | none => { job, awaits := job.awaits }

/-- `Cancel`. -/
def cancel (w : WorkItem R E) : WorkItem R E :=
  match w.job with
  | .dispatchItem _ => w
  | _ => { w with source := w.source.trySetCanceled }

/-- The operation the delegate awaits has ended. -/
def resume (w : WorkItem R E) : WorkItem R E := { w with awaiting := false }

/-- The delegate of an asynchronous work item has ended. -/
def finish (requested : Token → Bool) (w : WorkItem R E) : WorkItem R E :=
  match w.job with
  | .asyncWorkItem _ outcome => { w with source := w.source.complete outcome }
  | .asyncCancellableWorkItem token _ outcome =>
      { w with source := w.source.completeCancellable requested token outcome }
  | .dispatchItem _ | .workItem _ | .cancellableWorkItem _ _ | .post _ => w

/-- The delegate runs to its next suspension or to its end. -/
def segment (requested : Token → Bool) (w : WorkItem R E) : WorkItem R E :=
  match w.awaits with
  | 0 => w.finish requested
  | k + 1 => { w with awaits := k, awaiting := true }

@[simp] theorem create_job (requested : Token → Bool) (job : Job R E) :
    (create requested job).job = job := by
  unfold create
  split
  · split <;> rfl
  · rfl

theorem create_registered {requested : Token → Bool} {job : Job R E} {token : Token}
    (h : job.token = some token) : (create requested job).source.isCompleted = true ∨
      (create requested job).registration = some token := by
  unfold create
  rw [h]
  by_cases hreq : requested token = true
  · left
    simp only [hreq, if_true]
    rfl
  · right
    simp only [hreq, Bool.false_eq_true, if_false]

@[simp] theorem create_awaiting (requested : Token → Bool) (job : Job R E) :
    (create requested job).awaiting = false := by
  unfold create
  split
  · split <;> rfl
  · rfl

theorem cancel_completed {w : WorkItem R E} (h : ∀ o, w.job ≠ .dispatchItem o) :
    w.cancel.source.isCompleted = true := by
  unfold cancel
  split
  · rename_i o ho
    exact (h o ho).elim
  · exact TaskStatus.isCompleted_trySetCanceled _

@[simp] theorem cancel_awaiting (w : WorkItem R E) : w.cancel.awaiting = w.awaiting := by
  unfold cancel
  split <;> rfl

@[simp] theorem cancel_awaits (w : WorkItem R E) : w.cancel.awaits = w.awaits := by
  unfold cancel
  split <;> rfl

@[simp] theorem cancel_outcome (w : WorkItem R E) :
    w.cancel.source.outcome = w.source.outcome := by
  unfold cancel
  split
  · rfl
  · exact TaskStatus.outcome_trySetCanceled _

@[simp] theorem cancel_registration (w : WorkItem R E) :
    w.cancel.registration = w.registration := by
  unfold cancel
  split <;> rfl

@[simp] theorem cancel_job (w : WorkItem R E) : w.cancel.job = w.job := by
  unfold cancel
  split <;> rfl

@[simp] theorem finish_job (requested : Token → Bool) (w : WorkItem R E) :
    (w.finish requested).job = w.job := by
  unfold finish
  split <;> rfl

@[simp] theorem segment_job (requested : Token → Bool) (w : WorkItem R E) :
    (w.segment requested).job = w.job := by
  unfold segment
  split
  · exact finish_job requested w
  · rfl

end WorkItem

/-- `w'` is the work item `w` later on: the delegate and a completed task stay,
and nobody registers again. -/
structure WorkItem.Later {R E : Type} (w w' : WorkItem R E) : Prop where
  job : w'.job = w.job
  source : w.source.isCompleted = true → w'.source = w.source
  registration : w'.registration = w.registration ∨ w'.registration = none

namespace WorkItem
variable {R E : Type} {w w' w'' : WorkItem R E}

theorem Later.refl : w.Later w := ⟨rfl, fun _ => rfl, .inl rfl⟩

theorem Later.of_eq (h : w' = w) : w.Later w' := h ▸ .refl

theorem Later.trans (h : w.Later w') (h' : w'.Later w'') : w.Later w'' := by
  refine ⟨h'.job.trans h.job, fun hc => ?_, ?_⟩
  · have hs := h.source hc
    rw [← hs] at hc
    exact (h'.source hc).trans hs
  · rcases h'.registration with hr | hr
    · rw [hr]
      exact h.registration
    · exact .inr hr

theorem later_cancel : w.Later w.cancel := by
  refine ⟨cancel_job w, fun hc => ?_, .inl ?_⟩
  · unfold cancel
    split
    · rfl
    · exact TaskStatus.trySetCanceled_of_completed hc
  · unfold cancel
    split <;> rfl

theorem later_finish (requested : Token → Bool) : w.Later (w.finish requested) := by
  refine ⟨finish_job requested w, fun hc => ?_, .inl ?_⟩
  · unfold finish
    split
    · exact TaskStatus.complete_of_completed hc _
    · exact TaskStatus.completeCancellable_of_completed hc requested _ _
    all_goals rfl
  · unfold finish
    split <;> rfl

theorem later_segment (requested : Token → Bool) : w.Later (w.segment requested) := by
  unfold segment
  split
  · exact later_finish requested
  · exact ⟨rfl, fun _ => rfl, .inl rfl⟩

theorem later_resume : w.Later w.resume := ⟨rfl, fun _ => rfl, .inl rfl⟩

theorem segment_async (hw : w.job.IsAsync) (requested : Token → Bool) :
    (w.segment requested).awaiting = true ∨ (w.segment requested).source.isCompleted = true := by
  unfold segment
  split
  · right
    unfold finish
    cases hj : w.job with
    | asyncWorkItem _ _ | asyncCancellableWorkItem _ _ _ => simp
    | dispatchItem _ | workItem _ | cancellableWorkItem _ _ | post _ =>
        rw [hj] at hw
        exact hw.elim
  · exact .inl rfl

end WorkItem

variable {R E : Type} [Inhabited R]

/-- `Do` of the referenced work item, and the exception it lets escape. -/
def doItem (requested : Token → Bool) (items : ℕ → WorkItem R E) (ref : ℕ) :
    (ℕ → WorkItem R E) × Option (Exn E) :=
  match (items ref).job with
  | .dispatchItem (.ok _) => (items, none)
  | .dispatchItem (.error e) => (items, some e)
  | .workItem outcome =>
      (Function.update items ref
        { items ref with source := (items ref).source.complete outcome }, none)
  | .cancellableWorkItem token outcome =>
      if requested token then (items, none)
      else (Function.update items ref
        { items ref with
          registration := none
          source := (items ref).source.complete outcome }, none)
  | .asyncWorkItem _ _ =>
      (Function.update items ref ((items ref).segment requested), none)
  | .asyncCancellableWorkItem token _ _ =>
      if requested token then (items, none)
      else (Function.update items ref
        (({ items ref with registration := none } : WorkItem R E).segment requested), none)
  | .post target =>
      let resumed := Function.update items target ((items target).segment requested)
      (Function.update resumed ref
        { resumed ref with source := (resumed ref).source.trySetResult default }, none)

omit [Inhabited R] in
theorem later_update {items : ℕ → WorkItem R E} {ref : ℕ} {w : WorkItem R E}
    (h : (items ref).Later w) (r : ℕ) : (items r).Later (Function.update items ref w r) := by
  by_cases hr : r = ref
  · subst hr
    rw [Function.update_self]
    exact h
  · rw [Function.update_of_ne hr]
    exact .refl

theorem doItem_later (requested : Token → Bool) (items : ℕ → WorkItem R E) (ref r : ℕ) :
    (items r).Later ((doItem requested items ref).1 r) := by
  unfold doItem
  split
  · exact .refl
  · exact .refl
  · apply later_update
    exact ⟨rfl, fun h => TaskStatus.complete_of_completed h _, .inl rfl⟩
  · split
    · exact .refl
    · apply later_update
      exact ⟨rfl, fun h => TaskStatus.complete_of_completed h _, .inr rfl⟩
  · apply later_update
    exact WorkItem.later_segment requested
  · split
    · exact .refl
    · apply later_update
      refine WorkItem.Later.trans ?_ (WorkItem.later_segment requested)
      exact ⟨rfl, fun _ => rfl, .inr rfl⟩
  · rename_i target _
    have hresumed : (items r).Later
        (Function.update items target ((items target).segment requested) r) :=
      later_update (WorkItem.later_segment requested) r
    apply hresumed.trans
    apply later_update
    exact ⟨rfl, fun h => TaskStatus.trySetResult_of_completed h _, .inl rfl⟩

omit [Inhabited R] in
theorem segment_registration (requested : Token → Bool) (w : WorkItem R E) :
    (w.segment requested).registration = w.registration := by
  unfold WorkItem.segment WorkItem.finish
  split
  · split <;> rfl
  · rfl

omit [Inhabited R] in
theorem registration_update {items : ℕ → WorkItem R E} {ref : ℕ} {w : WorkItem R E}
    (h : w.registration = (items ref).registration) (r : ℕ) :
    (Function.update items ref w r).registration = (items r).registration := by
  by_cases hr : r = ref
  · rw [hr, Function.update_self, h]
  · rw [Function.update_of_ne hr]

omit [Inhabited R] in
theorem registration_update_of {items : ℕ → WorkItem R E} {ref : ℕ} (w : WorkItem R E)
    {p : Prop} (hp : p) (r : ℕ) :
    (Function.update items ref w r).registration = (items r).registration ∨ r = ref ∧ p := by
  by_cases hr : r = ref
  · exact .inr ⟨hr, hp⟩
  · left
    rw [Function.update_of_ne hr]

theorem doItem_registration (requested : Token → Bool) (items : ℕ → WorkItem R E) (ref r : ℕ) :
    ((doItem requested items ref).1 r).registration = (items r).registration ∨
      r = ref ∧ ∃ token, (items ref).job.token = some token ∧ requested token = false := by
  unfold doItem
  split
  · exact .inl rfl
  · exact .inl rfl
  · left
    apply registration_update
    rfl
  · rename_i token outcome hj
    split
    · exact .inl rfl
    · rename_i hreq
      apply registration_update_of
      exact ⟨token, by rw [hj]; rfl, Bool.eq_false_iff.mpr hreq⟩
  · left
    apply registration_update
    apply segment_registration
  · rename_i token awaits outcome hj
    split
    · exact .inl rfl
    · rename_i hreq
      apply registration_update_of
      exact ⟨token, by rw [hj]; rfl, Bool.eq_false_iff.mpr hreq⟩
  · rename_i target hj
    left
    have hresumed : (Function.update items target ((items target).segment requested) r).registration
        = (items r).registration := registration_update (segment_registration requested _) r
    refine Eq.trans ?_ hresumed
    apply registration_update
    rfl

theorem doItem_sync (requested : Token → Bool) {items : ℕ → WorkItem R E} {ref : ℕ}
    (hj : (items ref).job.IsSync) :
    ((doItem requested items ref).1 = items ∧
        ∃ token, (items ref).job.token = some token ∧ requested token = true) ∨
      ∃ w, (doItem requested items ref).1 = Function.update items ref w ∧
        w.source.isCompleted = true ∧ w.awaiting = (items ref).awaiting := by
  unfold doItem
  split
  · rename_i h
    rw [h] at hj
    exact hj.elim
  · rename_i h
    rw [h] at hj
    exact hj.elim
  · exact .inr ⟨_, rfl, TaskStatus.isCompleted_complete _ _, rfl⟩
  · rename_i token outcome h
    split
    · rename_i hreq
      exact .inl ⟨rfl, token, by rw [h]; rfl, hreq⟩
    · exact .inr ⟨_, rfl, TaskStatus.isCompleted_complete _ _, rfl⟩
  · rename_i h
    rw [h] at hj
    exact hj.elim
  · rename_i h
    rw [h] at hj
    exact hj.elim
  · rename_i h
    rw [h] at hj
    exact hj.elim

theorem doItem_awaiting (requested : Token → Bool) (items : ℕ → WorkItem R E) (ref r : ℕ)
    (h : (items r).awaiting = true) : ((doItem requested items ref).1 r).awaiting = true := by
  have hsegment : ∀ w : WorkItem R E, w.awaiting = true → (w.segment requested).awaiting = true := by
    intro w hw
    unfold WorkItem.segment WorkItem.finish
    split
    · split <;> exact hw
    · rfl
  have hset : ∀ {x : ℕ} {w : WorkItem R E}, ((items x).awaiting = true → w.awaiting = true) →
      (Function.update items x w r).awaiting = true := by
    intro x w hw
    by_cases hx : r = x
    · subst hx
      rw [Function.update_self]
      exact hw h
    · rw [Function.update_of_ne hx]
      exact h
  unfold doItem
  split
  · exact h
  · exact h
  · exact hset id
  · split
    · exact h
    · exact hset id
  · exact hset (hsegment _)
  · split
    · exact h
    · exact hset fun hw => hsegment _ hw
  · rename_i target hj
    have hresumed : (Function.update items target ((items target).segment requested) r).awaiting
        = true := hset (hsegment _)
    by_cases hr : r = ref
    · subst hr
      simp only [Function.update_self]
      exact hresumed
    · simp only [Function.update_of_ne hr]
      exact hresumed

theorem doItem_async (requested : Token → Bool) {items : ℕ → WorkItem R E} {ref : ℕ}
    (hj : (items ref).job.IsAsync) :
    ((doItem requested items ref).1 = items ∧
        ∃ token, (items ref).job.token = some token ∧ requested token = true) ∨
      ((doItem requested items ref).1 ref).awaiting = true ∨
      ((doItem requested items ref).1 ref).source.isCompleted = true := by
  unfold doItem
  split
  · rename_i h
    rw [h] at hj
    exact hj.elim
  · rename_i h
    rw [h] at hj
    exact hj.elim
  · rename_i h
    rw [h] at hj
    exact hj.elim
  · rename_i h
    rw [h] at hj
    exact hj.elim
  · simp only [Function.update_self]
    exact .inr (WorkItem.segment_async hj requested)
  · rename_i token awaits outcome h
    split
    · rename_i hreq
      exact .inl ⟨rfl, token, by rw [h]; rfl, hreq⟩
    · simp only [Function.update_self]
      refine .inr (WorkItem.segment_async ?_ requested)
      exact hj
  · rename_i h
    rw [h] at hj
    exact hj.elim

theorem doItem_post (requested : Token → Bool) {items : ℕ → WorkItem R E} {c target : ℕ}
    (hc : (items c).job = .post target) (hj : (items target).job.IsAsync) :
    ((doItem requested items c).1 target).awaiting = true ∨
      ((doItem requested items c).1 target).source.isCompleted = true := by
  have hne : target ≠ c := by
    rintro rfl
    rw [hc] at hj
    exact hj
  unfold doItem
  split <;> rename_i h <;> cases hc.symm.trans h
  simp only [Function.update_of_ne hne, Function.update_self]
  exact WorkItem.segment_async hj requested

/-- Only a dispatched delegate lets its exception out of `Do`. -/
theorem doItem_thrown (requested : Token → Bool) (items : ℕ → WorkItem R E) (ref : ℕ) :
    (doItem requested items ref).2 = (items ref).job.thrown := by
  unfold doItem
  split <;> rename_i h <;> rw [h]
  · rfl
  · rfl
  · rfl
  · split <;> rfl
  · rfl
  · split <;> rfl
  · rfl

end ComposableAsync.Concurrent
