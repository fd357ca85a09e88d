import ComposableAsync.Concurrent.WorkItem
import ComposableAsync.Foundations.Fairness
import Mathlib.Data.Finset.Card
import Mathlib.Data.Finset.Range

/-!
# The task based fiber

`TaskSchedulerFiber` is a `TaskSchedulerDispatcher` over the exclusive scheduler of a
`ConcurrentExclusiveSchedulerPair`. The scheduler is the documented one: it runs its tasks
one at a time, in some order; after `Complete` it throws at a task that is queued, which
`StartNew` wraps in the `TaskSchedulerException` that `Safe` catches; and `Completion` ends
when nothing is queued or running any more. A task whose token is cancelled runs nothing: it
is not queued if `StartNew` finds the token cancelled, and skipped if it is queued by then,
which is here the `Do` of a cancellable work item that returns at once.

The overloads without token and for synchronous delegates start the delegate itself; the
task `StartNew` returns gets the outcome a `WorkItem` would get. An asynchronous delegate
goes on in a task of the same scheduler, and what that task throws is dropped.
-/
namespace ComposableAsync.Concurrent
open Foundations

/-- Where the task of a work item is. `canceled`: `StartNew` found its token cancelled and did
not queue it; `refused`: the scheduler threw. -/
inductive TaskPlace where
  | constructed
  | queued
  | running
  | ran
  | canceled
  | refused
  deriving DecidableEq, Repr

/-- `completion` is the task `Completion`; `executed` is history. -/
structure TaskSchedulerFiber (R E : Type) where
  items : ℕ → WorkItem R E := fun _ => ⟨.dispatchItem (.ok ()), .pending, none, 0, false⟩
  created : ℕ := 0
  requested : Token → Bool := fun _ => false
  place : ℕ → TaskPlace := fun _ => .constructed
  running : Option ℕ := none
  completing : Bool := false
  completion : Bool := false
  isAlive : Bool := true
  executed : List ℕ := []

/-- `construct` and `startNew` are the two steps of an `Enqueue` overload or of `Dispatch`;
`resume` is the end of the operation a delegate awaits. `start`, `doItem` and `endCompletion`
are the scheduler's, `complete` and `setNotAlive` those of `DisposeAsync`. -/
inductive TaskSchedulerAct (R E : Type) where
  | construct (job : Job R E)
  | resume (target : ℕ)
  | startNew (ref : ℕ)
  | start (ref : ℕ)
  | doItem
  | complete
  | endCompletion
  | setNotAlive
  | cancel (token : Token)
  | callback (ref : ℕ)

namespace TaskSchedulerFiber
variable {R E : Type}

/-- What `StartNew` does with the task of a work item. -/
def startNew (s : TaskSchedulerFiber R E) (ref : ℕ) : TaskPlace :=
  if (s.items ref).job.token.any s.requested then .canceled
  else if s.completing then .refused
  else .queued

/-- The scheduler has nothing left. -/
def isIdle (s : TaskSchedulerFiber R E) : Bool :=
  s.running.isNone && (List.range s.created).all fun ref => s.place ref != .queued

/-- The task that the caller gets: `Safe` makes one that is canceled of a refusal. -/
def task (s : TaskSchedulerFiber R E) (ref : ℕ) : TaskStatus R E :=
  if s.place ref = .refused then .canceled else (s.items ref).source

variable [Inhabited R]

def step (s : TaskSchedulerFiber R E) : TaskSchedulerAct R E → Option (TaskSchedulerFiber R E)
  | .construct job =>
      if job.IsSync ∨ job.IsAsync then some { s with
        items := Function.update s.items s.created (WorkItem.create s.requested job)
        created := s.created + 1 }
      else none
  | .resume target =>
      if (s.items target).awaiting then some { s with
        items := Function.update (Function.update s.items target (s.items target).resume)
          s.created (WorkItem.create s.requested (.post target))
        created := s.created + 1 }
      else none
  | .startNew ref =>
      if ref < s.created ∧ s.place ref = .constructed then
        some { s with place := Function.update s.place ref (s.startNew ref) }
      else none
  | .start ref =>
      if s.place ref = .queued ∧ s.running = none then
        some { s with running := some ref, place := Function.update s.place ref .running }
      else none
  | .doItem =>
      match s.running with
      | some ref => some { s with
          items := (Concurrent.doItem s.requested s.items ref).1
          running := none
          place := Function.update s.place ref .ran
          executed := s.executed ++ [ref] }
      | none => none
  | .complete => some { s with completing := true }
  | .endCompletion =>
      if s.completing ∧ s.isIdle ∧ ¬ s.completion then some { s with completion := true } else none
  | .setNotAlive => if s.completion then some { s with isAlive := false } else none
  | .cancel token => some { s with requested := Function.update s.requested token true }
  | .callback ref =>
      match (s.items ref).registration with
      | some token =>
          if s.requested token then some { s with
            items := Function.update s.items ref { (s.items ref).cancel with registration := none } }
          else none
      | none => none

def machine : Machine (TaskSchedulerFiber R E) (TaskSchedulerAct R E) := ⟨{}, step⟩

/-- Everything a step can do, with what it found. -/
inductive Effect (s : TaskSchedulerFiber R E) :
    TaskSchedulerAct R E → TaskSchedulerFiber R E → Prop
  | construct (job : Job R E) : job.IsSync ∨ job.IsAsync →
      Effect s (.construct job) { s with
        items := Function.update s.items s.created (WorkItem.create s.requested job)
        created := s.created + 1 }
  | resume (target : ℕ) : (s.items target).awaiting = true →
      Effect s (.resume target) { s with
        items := Function.update (Function.update s.items target (s.items target).resume)
          s.created (WorkItem.create s.requested (.post target))
        created := s.created + 1 }
  | startNew (ref : ℕ) : ref < s.created → s.place ref = .constructed →
      Effect s (.startNew ref) { s with place := Function.update s.place ref (s.startNew ref) }
  | start (ref : ℕ) : s.place ref = .queued → s.running = none →
      Effect s (.start ref)
        { s with running := some ref, place := Function.update s.place ref .running }
  | doItem (ref : ℕ) : s.running = some ref →
      Effect s .doItem { s with
        items := (Concurrent.doItem s.requested s.items ref).1
        running := none
        place := Function.update s.place ref .ran
        executed := s.executed ++ [ref] }
  | complete : Effect s .complete { s with completing := true }
  | endCompletion : s.completing = true → s.isIdle = true → s.completion = false →
      Effect s .endCompletion { s with completion := true }
  | setNotAlive : s.completion = true → Effect s .setNotAlive { s with isAlive := false }
  | cancel (token : Token) :
      Effect s (.cancel token) { s with requested := Function.update s.requested token true }
  | callback (ref : ℕ) (token : Token) : (s.items ref).registration = some token →
      s.requested token = true →
      Effect s (.callback ref) { s with
        items := Function.update s.items ref { (s.items ref).cancel with registration := none } }

variable {s t : TaskSchedulerFiber R E}

theorem step_effect {a : TaskSchedulerAct R E} (h : s.step a = some t) : s.Effect a t := by
  cases a with
  | construct job =>
      simp only [step, Option.ite_none_right_eq_some, Option.some.injEq] at h
      obtain ⟨hjob, rfl⟩ := h
      exact .construct job hjob
  | resume target =>
      simp only [step, Option.ite_none_right_eq_some, Option.some.injEq] at h
      obtain ⟨hawaiting, rfl⟩ := h
      exact .resume target hawaiting
  | startNew ref =>
      simp only [step, Option.ite_none_right_eq_some, Option.some.injEq] at h
      obtain ⟨⟨hlt, hplace⟩, rfl⟩ := h
      exact .startNew ref hlt hplace
  | start ref =>
      simp only [step, Option.ite_none_right_eq_some, Option.some.injEq] at h
      obtain ⟨⟨hplace, hrunning⟩, rfl⟩ := h
      exact .start ref hplace hrunning
  | doItem =>
      simp only [step] at h
      split at h
      · rename_i ref hrunning
        cases h
        exact .doItem ref hrunning
      · cases h
  | complete =>
      cases h
      exact .complete
  | endCompletion =>
      simp only [step, Option.ite_none_right_eq_some, Option.some.injEq] at h
      obtain ⟨⟨hcompleting, hidle, honce⟩, rfl⟩ := h
      exact .endCompletion hcompleting hidle (Bool.eq_false_iff.mpr honce)
  | setNotAlive =>
      simp only [step, Option.ite_none_right_eq_some, Option.some.injEq] at h
      obtain ⟨hcompletion, rfl⟩ := h
      exact .setNotAlive hcompletion
  | cancel token =>
      cases h
      exact .cancel token
  | callback ref =>
      simp only [step] at h
      split at h
      · rename_i token htoken
        simp only [Option.ite_none_right_eq_some, Option.some.injEq] at h
        obtain ⟨hreq, rfl⟩ := h
        exact .callback ref token htoken hreq
      · cases h

theorem Effect.later {a : TaskSchedulerAct R E} (h : s.Effect a t) {ref : ℕ}
    (href : ref < s.created) : (s.items ref).Later (t.items ref) := by
  have hne : ref ≠ s.created := Nat.ne_of_lt href
  cases h with
  | construct job => exact .of_eq (Function.update_of_ne hne ..)
  | resume target =>
      have hresume : (s.items ref).Later
          (Function.update s.items target (s.items target).resume ref) :=
        later_update WorkItem.later_resume ref
      exact hresume.trans (.of_eq (Function.update_of_ne hne ..))
  | doItem r => exact doItem_later s.requested s.items r ref
  | callback r token =>
      apply later_update
      exact ⟨WorkItem.later_cancel.job, WorkItem.later_cancel.source, .inr rfl⟩
  | startNew | start | complete | endCompletion | setNotAlive | cancel => exact .refl

theorem Effect.requested {a : TaskSchedulerAct R E} (h : s.Effect a t) {token : Token}
    (hr : s.requested token = true) : t.requested token = true := by
  cases h with
  | cancel tk =>
      by_cases htk : token = tk
      · exact htk ▸ Function.update_self ..
      · exact (Function.update_of_ne htk ..).trans hr
  | _ => exact hr

theorem Effect.registration {a : TaskSchedulerAct R E} (h : s.Effect a t) {ref : ℕ}
    (href : ref < s.created) {token : Token} (hj : (s.items ref).job.token = some token) :
    (t.items ref).registration = (s.items ref).registration ∨
      (t.items ref).source.isCompleted = true ∨
      a = .doItem ∧ s.running = some ref ∧ s.requested token = false := by
  have hne : ref ≠ s.created := Nat.ne_of_lt href
  cases h with
  | construct job => exact .inl (congrArg WorkItem.registration (Function.update_of_ne hne ..))
  | resume target =>
      left
      have hresume : (Function.update s.items target (s.items target).resume ref).registration =
          (s.items ref).registration := by
        apply registration_update
        rfl
      exact (congrArg WorkItem.registration (Function.update_of_ne hne ..)).trans hresume
  | doItem r hrunning =>
      rcases doItem_registration s.requested s.items r ref with h | ⟨rfl, tk, htk, hreq⟩
      · exact .inl h
      · rw [hj] at htk
        cases htk
        exact .inr (.inr ⟨rfl, hrunning, hreq⟩)
  | callback r tk =>
      by_cases hr : ref = r
      · subst hr
        refine .inr (.inl ?_)
        simp only [Function.update_self]
        apply WorkItem.cancel_completed
        intro o ho
        rw [ho] at hj
        cases hj
      · exact .inl (congrArg WorkItem.registration (Function.update_of_ne hr ..))
  | startNew | start | complete | endCompletion | setNotAlive | cancel => exact .inl rfl

omit [Inhabited R] in
/-- The work item has completed its task, or the callback that completes it is to run. -/
def Settled (s : TaskSchedulerFiber R E) (ref : ℕ) : Prop :=
  (s.items ref).source.isCompleted = true ∨
    ∃ token, (s.items ref).job.token = some token ∧ (s.items ref).registration = some token ∧
      s.requested token = true

omit [Inhabited R] in
/-- A work item with a token is completed or still registered with it. -/
def Registered (s : TaskSchedulerFiber R E) (ref : ℕ) : Prop :=
  ∀ token, (s.items ref).job.token = some token →
    (s.items ref).source.isCompleted = true ∨ (s.items ref).registration = some token

omit [Inhabited R] in
/-- The delegate is suspended, or a continuation of it has not run. -/
def Suspended (s : TaskSchedulerFiber R E) (ref : ℕ) : Prop :=
  (s.items ref).awaiting = true ∨
    ∃ c < s.created, (s.items c).job = .post ref ∧ s.place c ≠ .ran

theorem Effect.settled {a : TaskSchedulerAct R E} (h : s.Effect a t) {ref : ℕ}
    (href : ref < s.created) (hs : s.Settled ref) : t.Settled ref := by
  have hlater := h.later href
  rcases hs with hc | ⟨token, hj, hreg, hreq⟩
  · left
    rw [hlater.source hc]
    exact hc
  · rcases h.registration href hj with hsame | hc | ⟨-, -, hno⟩
    · exact .inr ⟨token, hlater.job ▸ hj, hsame.trans hreg, h.requested hreq⟩
    · exact .inl hc
    · cases hno.symm.trans hreq

omit [Inhabited R] in
theorem Registered.settled {ref : ℕ} (h : s.Registered ref) {token : Token}
    (hj : (s.items ref).job.token = some token) (hreq : s.requested token = true) :
    s.Settled ref :=
  (h token hj).imp_right fun hreg => ⟨token, hj, hreg, hreq⟩

theorem Registered.step {ref : ℕ} (h : s.Registered ref) (href : ref < s.created)
    {a : TaskSchedulerAct R E} (he : s.Effect a t) (hne : a = .doItem → s.running ≠ some ref) :
    t.Registered ref := by
  have hlater := he.later href
  intro token hj
  rw [hlater.job] at hj
  rcases h token hj with hc | hreg
  · left
    rw [hlater.source hc]
    exact hc
  · rcases he.registration href hj with hsame | hc | ⟨ha, hrunning, -⟩
    · exact .inr (hsame.trans hreg)
    · exact .inl hc
    · exact (hne ha hrunning).elim

omit [Inhabited R] in
structure Places (s : TaskSchedulerFiber R E) : Prop where
  fresh : ∀ ref, s.created ≤ ref → s.place ref = .constructed
  running : ∀ ref, s.running = some ref ↔ s.place ref = .running
  executed : ∀ ref, ref ∈ s.executed ↔ s.place ref = .ran
  once : s.executed.Nodup
  drained : s.completion = true →
    s.completing = true ∧ s.running = none ∧ ∀ ref, s.place ref ≠ .queued
  alive : s.isAlive = false → s.completion = true

omit [Inhabited R] in
theorem Places.lt_created (hi : s.Places) {ref : ℕ} (h : s.place ref ≠ .constructed) :
    ref < s.created :=
  Nat.not_le.mp fun hge => h (hi.fresh ref hge)

omit [Inhabited R] in
theorem startNew_cases (s : TaskSchedulerFiber R E) (ref : ℕ) :
    s.startNew ref = .canceled ∧ (∃ token, (s.items ref).job.token = some token ∧
        s.requested token = true) ∨
      s.startNew ref = .refused ∧ s.completing = true ∨
      s.startNew ref = .queued ∧ s.completing = false := by
  unfold startNew
  split
  · rename_i h
    exact .inl ⟨rfl, (Option.any_eq_true _ _).mp h⟩
  · split
    · rename_i h
      exact .inr (.inl ⟨rfl, h⟩)
    · rename_i h
      exact .inr (.inr ⟨rfl, Bool.eq_false_iff.mpr h⟩)

omit [Inhabited R] in
theorem isIdle_iff : s.isIdle = true ↔ s.running = none ∧
    ∀ ref < s.created, s.place ref ≠ .queued := by
  simp [isIdle]

omit [Inhabited R] in
theorem place_update_iff {r ref : ℕ} {before after pl : TaskPlace} (hr : s.place r = before)
    (hbefore : before ≠ pl) (hafter : after ≠ pl) :
    Function.update s.place r after ref = pl ↔ s.place ref = pl := by
  by_cases hrr : ref = r
  · subst hrr
    rw [Function.update_self, hr]
    exact ⟨fun h => (hafter h).elim, fun h => (hbefore h).elim⟩
  · rw [Function.update_of_ne hrr]

theorem Places.step (hi : s.Places) {a : TaskSchedulerAct R E} (he : s.Effect a t) :
    t.Places := by
  have hfresh : ∀ {r : ℕ} {pl : TaskPlace}, r < s.created → ∀ ref, s.created ≤ ref →
      Function.update s.place r pl ref = .constructed := by
    intro r pl hr ref h
    rw [Function.update_of_ne (by omega)]
    exact hi.fresh ref h
  cases he with
  | construct job | resume target =>
      exact ⟨fun ref h => hi.fresh ref (Nat.le_of_succ_le h), hi.running, hi.executed, hi.once,
        hi.drained, hi.alive⟩
  | startNew r hr hplace =>
      have hnew : s.startNew r ≠ .running ∧ s.startNew r ≠ .ran := by
        rcases s.startNew_cases r with ⟨hk, -⟩ | ⟨hk, -⟩ | ⟨hk, -⟩ <;> rw [hk] <;> simp
      refine ⟨hfresh hr, fun ref => ?_, fun ref => ?_, hi.once, fun h => ?_, hi.alive⟩
      · rw [hi.running ref]
        exact (place_update_iff hplace (by simp) hnew.1).symm
      · rw [hi.executed ref]
        exact (place_update_iff hplace (by simp) hnew.2).symm
      · obtain ⟨hcompleting, hrunning, hnone⟩ := hi.drained h
        refine ⟨hcompleting, hrunning, fun ref hq => hnone ref ?_⟩
        refine (place_update_iff hplace (by simp) fun hk => ?_).mp hq
        rcases s.startNew_cases r with ⟨hk', -⟩ | ⟨hk', -⟩ | ⟨-, hopen⟩
        · cases hk.symm.trans hk'
        · cases hk.symm.trans hk'
        · cases hopen.symm.trans hcompleting
  | start r hplace hnone =>
      refine ⟨hfresh (hi.lt_created (by simp [hplace])), fun ref => ?_, fun ref => ?_, hi.once,
        fun h => ((hi.drained h).2.2 r hplace).elim, hi.alive⟩
      · by_cases hr : ref = r
        · simp [hr]
        · have hnot : s.place ref ≠ .running := by
            intro h
            cases hnone.symm.trans ((hi.running ref).mpr h)
          simp [Function.update_of_ne hr, hnot, Ne.symm hr]
      · rw [hi.executed ref]
        exact (place_update_iff hplace (by simp) (by simp)).symm
  | doItem r hrunning =>
      have hplace := (hi.running r).mp hrunning
      have hnew : r ∉ s.executed := by simp [hi.executed, hplace]
      refine ⟨hfresh (hi.lt_created (by simp [hplace])), fun ref => ?_, fun ref => ?_, ?_,
        fun h => ?_, hi.alive⟩
      · by_cases hr : ref = r
        · simp [hr]
        · have hnot : s.place ref ≠ .running := by
            intro h
            have hsame := (hi.running ref).mpr h
            rw [hrunning, Option.some.injEq] at hsame
            exact hr hsame.symm
          simp [Function.update_of_ne hr, hnot]
      · by_cases hr : ref = r
        · simp [hr]
        · simp [hr, hi.executed]
      · exact hi.once.append (List.nodup_singleton r) (by simpa using hnew)
      · cases (hi.drained h).2.1.symm.trans hrunning
  | complete => exact ⟨hi.fresh, hi.running, hi.executed, hi.once,
      fun h => ⟨rfl, (hi.drained h).2⟩, hi.alive⟩
  | endCompletion hcompleting hidle =>
      obtain ⟨hnone, hqueued⟩ := isIdle_iff.mp hidle
      refine ⟨hi.fresh, hi.running, hi.executed, hi.once, fun _ => ⟨hcompleting, hnone, ?_⟩,
        fun _ => rfl⟩
      intro ref (hq : s.place ref = .queued)
      exact hqueued ref (hi.lt_created (by simp [hq])) hq
  | setNotAlive h => exact ⟨hi.fresh, hi.running, hi.executed, hi.once, hi.drained, fun _ => h⟩
  | cancel | callback => exact ⟨hi.fresh, hi.running, hi.executed, hi.once, hi.drained, hi.alive⟩

theorem places_reachable (hr : (machine : Machine (TaskSchedulerFiber R E) _).Reachable s) :
    s.Places := by
  refine hr.invariant ?_ fun s a t _ hi h => hi.step (step_effect h)
  exact ⟨fun _ _ => rfl, fun _ => by simp [machine], fun _ => by simp [machine], .nil,
    (fun h => by cases h), fun h => by cases h⟩

theorem Effect.created_le {a : TaskSchedulerAct R E} (h : s.Effect a t) :
    s.created ≤ t.created := by
  cases h with
  | construct | resume => exact Nat.le_succ _
  | _ => exact Nat.le_refl _

theorem Effect.fresh_registered {a : TaskSchedulerAct R E} (h : s.Effect a t) {ref : ℕ}
    (hnew : s.created ≤ ref) (hlt : ref < t.created) : t.Registered ref := by
  have hregistered : ∀ {job : Job R E}, t.items ref = WorkItem.create s.requested job →
      t.Registered ref := by
    intro job hitem token hj
    rw [hitem, WorkItem.create_job] at hj
    rw [hitem]
    exact WorkItem.create_registered hj
  cases h with
  | construct job | resume target =>
      obtain rfl : ref = s.created := Nat.le_antisymm (Nat.le_of_lt_succ hlt) hnew
      exact hregistered (Function.update_self ..)
  | _ => exact absurd hnew (Nat.not_le.mpr hlt)

theorem Effect.ran_iff {a : TaskSchedulerAct R E} (h : s.Effect a t) {ref : ℕ} :
    t.place ref = .ran ↔ s.place ref = .ran ∨ a = .doItem ∧ s.running = some ref := by
  cases h with
  | startNew r hr hplace =>
      rw [or_iff_left (by simp)]
      refine place_update_iff hplace (by simp) ?_
      rcases s.startNew_cases r with ⟨hk, -⟩ | ⟨hk, -⟩ | ⟨hk, -⟩ <;> rw [hk] <;> simp
  | start r hplace =>
      rw [or_iff_left (by simp)]
      exact place_update_iff hplace (by simp) (by simp)
  | doItem r hrunning =>
      by_cases hr : ref = r
      · simp [hr, hrunning]
      · simp [Function.update_of_ne hr, hrunning, Ne.symm hr]
  | construct | resume | complete | endCompletion | setNotAlive | cancel | callback =>
      simp

theorem Effect.canceled {a : TaskSchedulerAct R E} (h : s.Effect a t) {ref : ℕ}
    (ht : t.place ref = .canceled) : s.place ref = .canceled ∨
      ref < s.created ∧ s.place ref = .constructed ∧
        ∃ token, (s.items ref).job.token = some token ∧ s.requested token = true := by
  cases h with
  | startNew r hr hplace =>
      by_cases hrr : ref = r
      · subst hrr
        simp only [Function.update_self] at ht
        rcases s.startNew_cases ref with ⟨-, htoken⟩ | ⟨hk, -⟩ | ⟨hk, -⟩
        · exact .inr ⟨hr, hplace, htoken⟩
        · cases ht.symm.trans hk
        · cases ht.symm.trans hk
      · simp only [Function.update_of_ne hrr] at ht
        exact .inl ht
  | start r hplace => exact .inl ((place_update_iff hplace (by simp) (by simp)).mp ht)
  | doItem r =>
      by_cases hrr : ref = r
      · simp [hrr] at ht
      · simp only [Function.update_of_ne hrr] at ht
        exact .inl ht
  | construct | resume | complete | endCompletion | setNotAlive | cancel | callback => exact .inl ht

/-- Only the end of the awaited operation wakes a delegate, and its continuation is a task of
the scheduler. -/
theorem Effect.awaiting {a : TaskSchedulerAct R E} (h : s.Effect a t) {ref : ℕ}
    (href : ref < s.created) (ha : (s.items ref).awaiting = true) :
    (t.items ref).awaiting = true ∨
      t.created = s.created + 1 ∧ (t.items s.created).job = .post ref ∧
        t.place s.created = s.place s.created := by
  have hne : ref ≠ s.created := Nat.ne_of_lt href
  cases h with
  | construct job =>
      left
      simp only [Function.update_of_ne hne]
      exact ha
  | resume target =>
      by_cases hr : ref = target
      · exact .inr ⟨rfl, by simp [hr], rfl⟩
      · left
        simp only [Function.update_of_ne hne, Function.update_of_ne hr]
        exact ha
  | doItem r => exact .inl (doItem_awaiting s.requested s.items r ref ha)
  | callback r token =>
      left
      by_cases hr : ref = r
      · subst hr
        simp only [Function.update_self]
        exact (WorkItem.cancel_awaiting _).trans ha
      · simp only [Function.update_of_ne hr]
        exact ha
  | startNew | start | complete | endCompletion | setNotAlive | cancel => exact .inl ha

theorem Effect.doItem_items {ref : ℕ} (he : s.Effect .doItem t) (hrunning : s.running = some ref) :
    t.items = (Concurrent.doItem s.requested s.items ref).1 := by
  cases he with
  | doItem r hr =>
      cases hrunning.symm.trans hr
      rfl

theorem Suspended.step (hi : s.Places) {ref : ℕ} (h : s.Suspended ref) (href : ref < s.created)
    (hj : (s.items ref).job.IsAsync) {a : TaskSchedulerAct R E} (he : s.Effect a t) :
    t.Settled ref ∨ t.Suspended ref := by
  rcases h with ha | ⟨c, hc, hpost, hplace⟩
  · right
    rcases he.awaiting href ha with ha | ⟨hcreated, hpost, hplace⟩
    · exact .inl ha
    · refine .inr ⟨s.created, by omega, hpost, ?_⟩
      rw [hplace, hi.fresh _ (Nat.le_refl _)]
      simp
  · by_cases hran : t.place c = .ran
    · obtain ⟨rfl, hrunning⟩ := (he.ran_iff.mp hran).resolve_left hplace
      rw [Settled, Suspended, he.doItem_items hrunning]
      exact (doItem_post s.requested hpost hj).symm.imp .inl .inl
    · have hlt := Nat.lt_of_lt_of_le hc he.created_le
      exact .inr (.inr ⟨c, hlt, (he.later hc).job.trans hpost, hran⟩)

/-- The `Do` of a work item settles it, or leaves it suspended. -/
theorem Effect.doItem_settles {ref : ℕ} (he : s.Effect .doItem t) (hrunning : s.running = some ref)
    (href : ref < s.created) (hreg : s.Registered ref) :
    ((s.items ref).job.IsSync → t.Settled ref) ∧
      ((s.items ref).job.IsAsync → t.Settled ref ∨ t.Suspended ref) := by
  have hitems := he.doItem_items hrunning
  constructor
  · intro hj
    rcases doItem_sync s.requested hj with ⟨-, token, htoken, hreq⟩ | ⟨w, hw, hdone, -⟩
    · exact he.settled href (hreg.settled htoken hreq)
    · rw [Settled, hitems, hw, Function.update_self]
      exact .inl hdone
  · intro hj
    rcases doItem_async s.requested hj with ⟨-, token, htoken, hreq⟩ | ha | hdone
    · exact .inl (he.settled href (hreg.settled htoken hreq))
    · rw [Suspended, hitems]
      exact .inr (.inl ha)
    · rw [Settled, hitems]
      exact .inl (.inl hdone)

omit [Inhabited R] in
/-- What the places say of the work items. -/
structure Owed (s : TaskSchedulerFiber R E) : Prop where
  registered : ∀ ref < s.created, s.place ref ≠ .ran → s.Registered ref
  token : ∀ ref < s.created, s.place ref = .canceled →
    s.Settled ref ∧ (s.items ref).job.token ≠ none
  sync : ∀ ref < s.created, s.place ref = .ran → (s.items ref).job.IsSync → s.Settled ref
  async : ∀ ref < s.created, s.place ref = .ran → (s.items ref).job.IsAsync →
    s.Settled ref ∨ s.Suspended ref

theorem Owed.step (hp : s.Places) (hi : s.Owed) {a : TaskSchedulerAct R E} (he : s.Effect a t) :
    t.Owed := by
  have hold : ∀ {ref}, t.place ref = .ran → ref < s.created := by
    intro ref hran
    rcases he.ran_iff.mp hran with hran | ⟨-, hrunning⟩
    · exact hp.lt_created (by simp [hran])
    · exact hp.lt_created (by simp [(hp.running ref).mp hrunning])
  have hrun : ∀ {ref}, s.running = some ref → s.Registered ref := by
    intro ref hrunning
    have hplace := (hp.running ref).mp hrunning
    exact hi.registered ref (hp.lt_created (by simp [hplace])) (by simp [hplace])
  constructor
  · intro ref hlt hran
    rw [Ne, he.ran_iff, not_or] at hran
    by_cases h : ref < s.created
    · exact (hi.registered ref h hran.1).step h he fun ha hrunning => hran.2 ⟨ha, hrunning⟩
    · exact he.fresh_registered (Nat.not_lt.mp h) hlt
  · intro ref _ hplace
    rcases he.canceled hplace with hsame | ⟨hlt, hconstructed, token, htoken, hreq⟩
    · have hlt : ref < s.created := hp.lt_created (by simp [hsame])
      obtain ⟨hs, htoken⟩ := hi.token ref hlt hsame
      exact ⟨he.settled hlt hs, (he.later hlt).job ▸ htoken⟩
    · have hreg := hi.registered ref hlt (by simp [hconstructed])
      refine ⟨he.settled hlt (hreg.settled htoken hreq), ?_⟩
      simp [(he.later hlt).job, htoken]
  · intro ref _ hran hj
    have hlt := hold hran
    rw [(he.later hlt).job] at hj
    rcases he.ran_iff.mp hran with hran | ⟨rfl, hrunning⟩
    · exact he.settled hlt (hi.sync ref hlt hran hj)
    · exact (he.doItem_settles hrunning hlt (hrun hrunning)).1 hj
  · intro ref _ hran hj
    have hlt := hold hran
    rw [(he.later hlt).job] at hj
    rcases he.ran_iff.mp hran with hran | ⟨rfl, hrunning⟩
    · rcases hi.async ref hlt hran hj with hs | hs
      · exact .inl (he.settled hlt hs)
      · exact hs.step hp hlt hj he
    · exact (he.doItem_settles hrunning hlt (hrun hrunning)).2 hj

theorem owed_reachable (hr : (machine : Machine (TaskSchedulerFiber R E) _).Reachable s) :
    s.Owed := by
  refine hr.invariant ?_ fun s a t hr hi h => hi.step (places_reachable hr) (step_effect h)
  exact ⟨(fun _ h => by cases h), (fun _ h => by cases h), (fun _ h => by cases h),
    (fun _ h => by cases h)⟩

/-- When `DisposeAsync` has ended: the scheduler has run every task it accepted, once. So the
task of each call is completed, or the callback that completes it is to run, or the delegate
is suspended: what it awaits has not ended, or its continuation was not accepted. -/
theorem disposed_drained (hr : (machine : Machine (TaskSchedulerFiber R E) _).Reachable s)
    (h : s.isAlive = false) :
    s.executed.Nodup ∧ ∀ ref < s.created, s.place ref ≠ .constructed →
      (s.place ref = .refused ∧ (s.task ref).isCompleted = true ∨
        (ref ∈ s.executed ∨ s.place ref = .canceled) ∧
          ((s.items ref).job.IsSync → s.Settled ref) ∧
          ((s.items ref).job.IsAsync → s.Settled ref ∨ (s.items ref).awaiting = true ∨
            ∃ c < s.created, (s.items c).job = .post ref ∧
              (s.place c = .constructed ∨ s.place c = .refused))) := by
  have hp := places_reachable hr
  have hi := owed_reachable hr
  obtain ⟨-, hrunning, hqueued⟩ := hp.drained (hp.alive h)
  have hidle : ∀ ref, s.place ref ≠ .running := by
    intro ref hplace
    cases hrunning.symm.trans ((hp.running ref).mpr hplace)
  refine ⟨hp.once, fun ref href hplace => ?_⟩
  cases hpl : s.place ref with
  | constructed => exact (hplace hpl).elim
  | queued => exact (hqueued ref hpl).elim
  | running => exact (hidle ref hpl).elim
  | refused => exact .inl ⟨rfl, by simp [task, hpl, TaskStatus.isCompleted]⟩
  | canceled =>
      have hs := (hi.token ref href hpl).1
      exact .inr ⟨.inr rfl, fun _ => hs, fun _ => .inl hs⟩
  | ran =>
      refine .inr ⟨.inl ((hp.executed ref).mpr hpl), hi.sync ref href hpl, fun hj => ?_⟩
      refine (hi.async ref href hpl hj).imp_right fun hs => hs.imp_right ?_
      rintro ⟨c, hc, hpost, hran⟩
      refine ⟨c, hc, hpost, ?_⟩
      cases hcl : s.place c with
      | constructed => exact .inl rfl
      | refused => exact .inr rfl
      | queued => exact (hqueued c hcl).elim
      | running => exact (hidle c hcl).elim
      | ran => exact (hran hcl).elim
      | canceled =>
          refine ((hi.token c hc hcl).2 ?_).elim
          rw [hpost]
          rfl

/-- One call before `Complete`, which runs, and one after it, which is refused. -/
theorem disposed_drained_two :
    ∃ s : TaskSchedulerFiber ℕ Unit, s.executed = [0] ∧ s.place 1 = .refused ∧ s.Settled 0 := by
  obtain ⟨s, hr, hexecuted, hplace, hcreated, hp0, hj, halive⟩ := machine.exists_of_run
    (p := fun s : TaskSchedulerFiber ℕ Unit => s.executed = [0] ∧ s.place 1 = .refused ∧
      0 < s.created ∧ s.place 0 = .ran ∧ (s.items 0).job.IsSync ∧ s.isAlive = false)
    [.construct (.workItem (.ok 5)), .startNew 0, .complete, .construct (.workItem (.ok 6)),
      .startNew 1, .start 0, .doItem, .endCompletion, .setNotAlive] (by decide)
  refine ⟨s, hexecuted, hplace, ?_⟩
  rcases (disposed_drained hr halive).2 0 hcreated (by simp [hp0]) with ⟨hrefused, -⟩ | ⟨-, hs, -⟩
  · cases hp0.symm.trans hrefused
  · exact hs hj

omit [Inhabited R] in
/-- The tasks in the scheduler's queue. -/
def queued (s : TaskSchedulerFiber R E) : Finset ℕ :=
  (Finset.range s.created).filter (s.place · = .queued)

theorem Effect.completing {a : TaskSchedulerAct R E} (h : s.Effect a t)
    (hs : s.completing = true) : t.completing = true := by
  cases h with
  | complete => rfl
  | _ => exact hs

end TaskSchedulerFiber
end ComposableAsync.Concurrent
