import ComposableAsync.Concurrent.FiberSegments
import ComposableAsync.Concurrent.FiberTermination

/-!
# A fiber over the context of a fiber

`GetFiberFromCurrentContext`, on the thread of a fiber, makes a `SynchronizationContextFiber`
over `MonoThreadedFiberSynchronizationContext`. Its `Enqueue` makes a work item, posts the
`Do` of it and returns its task; `Post` enqueues an `ActionWorkItem` in the fiber, and drops
the task of that one. So does an `await` in an asynchronous delegate with what follows it.

The fiber may be used directly as well, and may be disposed. What it then does to the
`ActionWorkItem`s, the work items inside them never hear of.
-/
namespace ComposableAsync.Concurrent
open Foundations

/-- The callback that `Post` was given, with its state. -/
inductive Posted where
  | doWorkItem (ref : ℕ)
  | continuation (target : ℕ)
  deriving DecidableEq, Repr

/-- `posted` tells for a work item of the fiber what `Post` made it of. -/
structure SynchronizationContextFiber (P R E : Type) where
  fiber : Fiber P R E := {}
  items : ℕ → WorkItem R E := fun _ => ⟨.dispatchItem (.ok ()), .pending, none, 0, false⟩
  created : ℕ := 0
  posted : ℕ → Option Posted := fun _ => none

/-- `fiber` is a step of the fiber, or a use of it that does not go through the context.
`enqueue` is a call of any `Enqueue` overload or of `Dispatch`, `resume` the end of the
operation a delegate awaits. -/
inductive ContextAct (P R E : Type) where
  | fiber (a : FiberAct P R E)
  | enqueue (p : P) (job : Job R E)
  | resume (p : P) (target : ℕ)
  | callback (ref : ℕ)

/-- What `d(state)` does: `RunAction` lets the exception of its action escape. -/
def Job.callbackOutcome {R E : Type} [Inhabited R] : Job R E → Except (Exn E) R
  | .dispatchItem outcome => outcome.map fun _ => default
  | .workItem _ | .cancellableWorkItem _ _ | .asyncWorkItem _ _ | .asyncCancellableWorkItem _ _ _
  | .post _ => .ok default

theorem WorkItem.create_cases {R E : Type} (requested : Token → Bool) (job : Job R E) :
    (∀ token, (create requested job).registration = some token → job.token = some token) ∧
      ((create requested job).source.isCompleted = true →
        ∃ token, job.token = some token ∧ requested token = true) := by
  unfold create
  split
  · rename_i token htoken
    split
    · rename_i hreq
      exact ⟨nofun, fun _ => ⟨token, htoken, hreq⟩⟩
    · exact ⟨fun _ h => htoken.trans h, nofun⟩
  · exact ⟨nofun, nofun⟩

namespace SynchronizationContextFiber
variable {P R E : Type} [DecidableEq P] [Inhabited R]

/-- `Post`. -/
def post (s : SynchronizationContextFiber P R E) (p : P) (outcome : Except (Exn E) R)
    (callback : Posted) : Option (SynchronizationContextFiber P R E) :=
  (s.fiber.step (.enqueue p (.workItem outcome))).map fun f =>
    { s with fiber := f, posted := Function.update s.posted s.fiber.created (some callback) }

/-- What runs inside the `Do` of the fiber. -/
def run (s : SynchronizationContextFiber P R E) : Option Posted → ℕ → WorkItem R E
  | some (.doWorkItem ref) => (Concurrent.doItem s.fiber.requested s.items ref).1
  | some (.continuation target) =>
      Function.update s.items target ((s.items target).segment s.fiber.requested)
  | none => s.items

/-- The work items after a step of the fiber. -/
def itemsAfter (s : SynchronizationContextFiber P R E) : FiberAct P R E → ℕ → WorkItem R E
  | .doItem =>
      match s.fiber.queue.consumer with
      | .onItem c => s.run (s.posted c)
      | _ => s.items
  | .enqueue _ _ | .resume _ _ | .produce _ | .finish _ | .consume _ | .exit | .disposeAsync
  | .cancel _ | .callback _ => s.items

def step (s : SynchronizationContextFiber P R E) :
    ContextAct P R E → Option (SynchronizationContextFiber P R E)
  | .fiber a => (s.fiber.step a).map fun f => { s with fiber := f, items := s.itemsAfter a }
  | .enqueue p job =>
      if job.IsPublic then
        (s.post p job.callbackOutcome (.doWorkItem s.created)).map fun t => { t with
          items := Function.update s.items s.created (WorkItem.create s.fiber.requested job)
          created := s.created + 1 }
      else none
  | .resume p target =>
      if (s.items target).awaiting then
        (s.post p (.ok default) (.continuation target)).map fun t => { t with
          items := Function.update s.items target (s.items target).resume }
      else none
  | .callback ref =>
      match (s.items ref).registration with
      | some token =>
          if s.fiber.requested token then some { s with
            items := Function.update s.items ref
              { (s.items ref).cancel with registration := none } }
          else none
      | none => none

def machine : Machine (SynchronizationContextFiber P R E) (ContextAct P R E) := ⟨{}, step⟩

variable {s t : SynchronizationContextFiber P R E}

/-- Everything a step can do, with the step of the fiber it makes. -/
inductive Effect (s : SynchronizationContextFiber P R E) :
    ContextAct P R E → SynchronizationContextFiber P R E → Prop
  | fiber (a : FiberAct P R E) (f) : s.fiber.step a = some f →
      Effect s (.fiber a) { s with fiber := f, items := s.itemsAfter a }
  | enqueue (p : P) (job : Job R E) (f) : job.IsPublic = true →
      s.fiber.step (.enqueue p (.workItem job.callbackOutcome)) = some f →
      Effect s (.enqueue p job) {
        fiber := f
        items := Function.update s.items s.created (WorkItem.create s.fiber.requested job)
        created := s.created + 1
        posted := Function.update s.posted s.fiber.created (some (.doWorkItem s.created)) }
  | resume (p : P) (target : ℕ) (f) : (s.items target).awaiting = true →
      s.fiber.step (.enqueue p (.workItem (.ok default))) = some f →
      Effect s (.resume p target) { s with
        fiber := f
        items := Function.update s.items target (s.items target).resume
        posted := Function.update s.posted s.fiber.created (some (.continuation target)) }
  | callback (ref : ℕ) (token : Token) : (s.items ref).registration = some token →
      s.fiber.requested token = true →
      Effect s (.callback ref) { s with
        items := Function.update s.items ref { (s.items ref).cancel with registration := none } }

theorem step_effect {a : ContextAct P R E} (h : s.step a = some t) : s.Effect a t := by
  cases a with
  | fiber a =>
      simp only [step, Option.map_eq_some_iff] at h
      obtain ⟨f, hf, rfl⟩ := h
      exact .fiber a f hf
  | enqueue p job =>
      simp only [step, post, Option.map_map, Option.ite_none_right_eq_some,
        Option.map_eq_some_iff] at h
      obtain ⟨hjob, f, hf, rfl⟩ := h
      exact .enqueue p job f hjob hf
  | resume p target =>
      simp only [step, post, Option.map_map, Option.ite_none_right_eq_some,
        Option.map_eq_some_iff] at h
      obtain ⟨hawaiting, f, hf, rfl⟩ := h
      exact .resume p target f hawaiting hf
  | callback ref =>
      simp only [step] at h
      split at h
      · rename_i token htoken
        simp only [Option.ite_none_right_eq_some, Option.some.injEq] at h
        obtain ⟨hreq, rfl⟩ := h
        exact .callback ref token htoken hreq
      · cases h

theorem refines_fiber : (machine : Machine (SynchronizationContextFiber P R E) _).Refines
    Fiber.machine SynchronizationContextFiber.fiber where
  init := rfl
  step := by
    intro s a t h
    cases step_effect h with
    | fiber a f hf => exact .inr ⟨a, hf⟩
    | enqueue p job f _ hf => exact .inr ⟨.enqueue p (.workItem job.callbackOutcome), hf⟩
    | resume p target f _ hf => exact .inr ⟨.enqueue p (.workItem (.ok default)), hf⟩
    | callback => exact .inl rfl

theorem fiber_reachable
    (hr : (machine : Machine (SynchronizationContextFiber P R E) _).Reachable s) :
    Fiber.machine.Reachable s.fiber := refines_fiber.reachable hr

omit [DecidableEq P] in
/-- Only the `Do` of the fiber runs what was posted. -/
theorem itemsAfter_cases (s : SynchronizationContextFiber P R E) (a : FiberAct P R E) :
    s.itemsAfter a = s.items ∨ a = .doItem ∧ ∃ c, s.fiber.queue.consumer = .onItem c ∧
      s.itemsAfter a = s.run (s.posted c) := by
  cases a with
  | doItem =>
      cases hc : s.fiber.queue.consumer with
      | onItem c => exact .inr ⟨rfl, c, rfl, by simp only [itemsAfter, hc]⟩
      | _ => exact .inl (by simp only [itemsAfter, hc])
  | _ => exact .inl rfl

omit [DecidableEq P] in
theorem later_run (callback : Option Posted) (ref : ℕ) :
    (s.items ref).Later (s.run callback ref) := by
  unfold run
  split
  · exact doItem_later _ _ _ _
  · exact later_update (WorkItem.later_segment _) ref
  · exact .refl

theorem Effect.items {a : ContextAct P R E} (h : s.Effect a t) (ref : ℕ) :
    (s.items ref).Later (t.items ref) ∨ ref = s.created ∧ t.created = s.created + 1 ∧
      ∃ job : Job R E, job.IsPublic = true ∧
        t.items ref = WorkItem.create s.fiber.requested job := by
  cases h with
  | fiber a f hf =>
      left
      rcases s.itemsAfter_cases a with hsame | ⟨-, c, -, hrun⟩
      · exact .of_eq (congrFun hsame ref)
      · exact (later_run (s.posted c) ref).trans (.of_eq (congrFun hrun ref))
  | enqueue p job f hjob =>
      by_cases hr : ref = s.created
      · subst hr
        exact .inr ⟨rfl, rfl, job, hjob, Function.update_self ..⟩
      · exact .inl (.of_eq (Function.update_of_ne hr ..))
  | resume p target f => exact .inl (later_update WorkItem.later_resume ref)
  | callback r token =>
      left
      apply later_update
      exact ⟨WorkItem.later_cancel.job, WorkItem.later_cancel.source, .inr rfl⟩

theorem Effect.later {a : ContextAct P R E} (h : s.Effect a t) {ref : ℕ} (href : ref < s.created) :
    (s.items ref).Later (t.items ref) :=
  (h.items ref).resolve_right fun hnew => (Nat.ne_of_lt href) hnew.1

theorem Effect.created_le {a : ContextAct P R E} (h : s.Effect a t) : s.created ≤ t.created := by
  cases h with
  | enqueue => exact Nat.le_succ _
  | fiber | resume | callback => exact Nat.le_refl _

theorem Effect.fiberStep {a : ContextAct P R E} (h : s.Effect a t) :
    t.fiber = s.fiber ∨ ∃ b, s.fiber.step b = some t.fiber := by
  cases h with
  | fiber a f hf => exact .inr ⟨a, hf⟩
  | enqueue p job f _ hf | resume p target f _ hf => exact .inr ⟨_, hf⟩
  | callback => exact .inl rfl

theorem Effect.requested
    (hr : (machine : Machine (SynchronizationContextFiber P R E) _).Reachable s)
    {a : ContextAct P R E} (h : s.Effect a t) {token : Token}
    (hreq : s.fiber.requested token = true) : t.fiber.requested token = true := by
  rcases h.fiberStep with hsame | ⟨b, hb⟩
  · rw [hsame]
    exact hreq
  · exact (Fiber.step_effect (fiber_reachable hr) hb).requested hreq

theorem Effect.posted {a : ContextAct P R E} (h : s.Effect a t) (c : ℕ) :
    t.posted c = s.posted c ∨ c = s.fiber.created ∧ t.fiber.created = s.fiber.created + 1 ∧
      ((∃ p job, a = .enqueue p job) ∧ t.created = s.created + 1 ∧
          t.posted c = some (.doWorkItem s.created) ∨
        ∃ p target, a = .resume p target ∧ (s.items target).awaiting = true ∧
          t.posted c = some (.continuation target)) := by
  have hmade : ∀ {p : P} {job : Job R E} {f}, s.fiber.step (.enqueue p job) = some f →
      f.created = s.fiber.created + 1 := by
    intro p job f hf
    simp only [Fiber.step] at hf
    split at hf
    · obtain ⟨q, -, rfl⟩ := Fiber.submit_eq hf
      rfl
    · cases hf
  cases h with
  | fiber | callback => exact .inl rfl
  | enqueue p job f _ hf =>
      by_cases hc : c = s.fiber.created
      · subst hc
        exact .inr ⟨rfl, hmade hf, .inl ⟨⟨p, job, rfl⟩, rfl, Function.update_self ..⟩⟩
      · exact .inl (Function.update_of_ne hc ..)
  | resume p target f hawaiting hf =>
      by_cases hc : c = s.fiber.created
      · subst hc
        exact .inr ⟨rfl, hmade hf, .inr ⟨p, target, rfl, hawaiting, Function.update_self ..⟩⟩
      · exact .inl (Function.update_of_ne hc ..)

structure Posts (s : SynchronizationContextFiber P R E) : Prop where
  fresh : ∀ c, s.fiber.created ≤ c → s.posted c = none
  made : ∀ ref < s.created, ∃ c, s.posted c = some (.doWorkItem ref)
  once : ∀ c c' ref, s.posted c = some (.doWorkItem ref) → s.posted c' = some (.doWorkItem ref) →
    c = c'
  lt_created : ∀ c ref, s.posted c = some (.doWorkItem ref) → ref < s.created
  target_lt : ∀ c target, s.posted c = some (.continuation target) → target < s.created
  jobs : ∀ ref, (s.items ref).job.IsPublic = true
  asleep : ∀ ref, s.created ≤ ref → (s.items ref).awaiting = false
  registration : ∀ ref token, (s.items ref).registration = some token →
    (s.items ref).job.token = some token

omit [DecidableEq P] in
theorem run_other {callback : Option Posted} {ref : ℕ}
    (hjobs : ∀ r, (s.items r).job.IsPublic = true)
    (hitem : callback ≠ some (.doWorkItem ref)) (htarget : callback ≠ some (.continuation ref)) :
    s.run callback ref = s.items ref := by
  unfold run
  split
  · rename_i r
    refine Fiber.doItem_other (fun h => hitem (by rw [h])) fun target hpost => ?_
    have hjob := hjobs r
    rw [hpost] at hjob
    cases hjob
  · rename_i target
    exact Function.update_of_ne (fun h => htarget (by rw [h])) ..
  · rfl

/-- A delegate is suspended only after it has run. -/
theorem Effect.asleep (hi : s.Posts) {a : ContextAct P R E} (he : s.Effect a t) {ref : ℕ}
    (href : t.created ≤ ref) : (t.items ref).awaiting = false := by
  have hold := hi.asleep ref (he.created_le.trans href)
  cases he with
  | fiber a f hf =>
      rcases s.itemsAfter_cases a with hsame | ⟨-, c, -, hrun⟩
      · exact (congrArg WorkItem.awaiting (congrFun hsame ref)).trans hold
      · have hother : s.run (s.posted c) ref = s.items ref := by
          apply run_other hi.jobs
          · exact fun h => Nat.not_lt.mpr href (hi.lt_created c ref h)
          · exact fun h => Nat.not_lt.mpr href (hi.target_lt c ref h)
        exact (congrArg WorkItem.awaiting ((congrFun hrun ref).trans hother)).trans hold
  | enqueue p job f =>
      have hne : ref ≠ s.created := Nat.ne_of_gt href
      exact (congrArg WorkItem.awaiting (Function.update_of_ne hne ..)).trans hold
  | resume p target f =>
      by_cases hr : ref = target
      · subst hr
        simp only [Function.update_self]
        rfl
      · exact (congrArg WorkItem.awaiting (Function.update_of_ne hr ..)).trans hold
  | callback r token =>
      by_cases hr : ref = r
      · subst hr
        simp only [Function.update_self]
        exact (WorkItem.cancel_awaiting _).trans hold
      · exact (congrArg WorkItem.awaiting (Function.update_of_ne hr ..)).trans hold

theorem Posts.step (hr : (machine : Machine (SynchronizationContextFiber P R E) _).Reachable s)
    (hi : s.Posts) {a : ContextAct P R E} (he : s.Effect a t) : t.Posts := by
  have hfiber : s.fiber.created ≤ t.fiber.created := by
    rcases he.fiberStep with hsame | ⟨b, hb⟩
    · exact hsame ▸ Nat.le_refl _
    · exact (Fiber.step_effect (fiber_reachable hr) hb).created_le
  have hnew : ∀ {x}, s.posted s.fiber.created ≠ some x := by
    intro x
    rw [hi.fresh _ (Nat.le_refl _)]
    exact nofun
  constructor
  · intro c hc
    rcases he.posted c with hsame | ⟨rfl, hcreated, -⟩
    · rw [hsame]
      exact hi.fresh c (hfiber.trans hc)
    · omega
  · intro ref href
    by_cases hold : ref < s.created
    · obtain ⟨c, hc⟩ := hi.made ref hold
      refine ⟨c, ?_⟩
      rcases he.posted c with hsame | ⟨rfl, -⟩
      · exact hsame.trans hc
      · exact (hnew hc).elim
    · cases he with
      | enqueue p job f =>
          have href : ref = s.created := by
            change ref < s.created + 1 at href
            omega
          exact ⟨s.fiber.created, href ▸ Function.update_self ..⟩
      | fiber | resume | callback => exact (hold href).elim
  · intro c c' ref hc hc'
    have hfirst : ∀ {c c'}, s.posted c = some (.doWorkItem ref) →
        t.posted c' = some (.doWorkItem s.created) → t.posted c' = some (.doWorkItem ref) →
          c = c' := by
      intro c c' hc hmade hc'
      cases hmade.symm.trans hc'
      exact (Nat.lt_irrefl _ (hi.lt_created c _ hc)).elim
    rcases he.posted c with hsame | ⟨rfl, -, hmade⟩
    · rcases he.posted c' with hsame' | ⟨rfl, -, ⟨-, -, hmade⟩ | ⟨p, target, -, -, hmade⟩⟩
      · exact hi.once c c' ref (hsame.symm.trans hc) (hsame'.symm.trans hc')
      · exact hfirst (hsame.symm.trans hc) hmade hc'
      · cases hmade.symm.trans hc'
    · rcases he.posted c' with hsame' | ⟨rfl, -, -⟩
      · rcases hmade with ⟨-, -, hmade⟩ | ⟨p, target, -, -, hmade⟩
        · exact (hfirst (hsame'.symm.trans hc') hmade hc).symm
        · cases hmade.symm.trans hc
      · rfl
  · intro c ref hc
    rcases he.posted c with hsame | ⟨-, -, ⟨-, hcreated, hmade⟩ | ⟨p, target, -, -, hmade⟩⟩
    · exact (hi.lt_created c ref (hsame.symm.trans hc)).trans_le he.created_le
    · cases hmade.symm.trans hc
      omega
    · cases hmade.symm.trans hc
  · intro c target hc
    rcases he.posted c with hsame | ⟨-, -, ⟨-, hcreated, hmade⟩ | ⟨p, r, -, hawaiting, hmade⟩⟩
    · exact (hi.target_lt c target (hsame.symm.trans hc)).trans_le he.created_le
    · cases hmade.symm.trans hc
    · cases hmade.symm.trans hc
      have hlt : target < s.created := by
        by_contra hge
        cases (hi.asleep target (Nat.not_lt.mp hge)).symm.trans hawaiting
      exact hlt.trans_le he.created_le
  · intro ref
    rcases he.items ref with hlater | ⟨-, -, job, hjob, hitem⟩
    · rw [hlater.job]
      exact hi.jobs ref
    · rw [hitem, WorkItem.create_job]
      exact hjob
  · exact fun ref href => he.asleep hi href
  · intro ref token hreg
    rcases he.items ref with hlater | ⟨-, -, job, hjob, hitem⟩
    · rw [hlater.job]
      rcases hlater.registration with hsame | hnone
      · exact hi.registration ref token (hsame.symm.trans hreg)
      · cases hnone.symm.trans hreg
    · rw [hitem] at hreg ⊢
      rw [WorkItem.create_job]
      exact (WorkItem.create_cases s.fiber.requested job).1 token hreg

theorem posts_reachable
    (hr : (machine : Machine (SynchronizationContextFiber P R E) _).Reachable s) : s.Posts := by
  refine hr.invariant ?_ fun s a t hr hi h => hi.step hr (step_effect h)
  exact ⟨(fun _ _ => rfl), (fun _ h => by cases h), (fun _ _ _ h => by cases h),
    (fun _ _ h => by cases h), (fun _ _ h => by cases h), (fun _ => rfl), (fun _ _ => rfl),
    (fun _ _ h => by cases h)⟩

omit [DecidableEq P] [Inhabited R] in
/-- The token of the work item is cancelled. -/
def Canceled (s : SynchronizationContextFiber P R E) (ref : ℕ) : Prop :=
  ∃ token, (s.items ref).job.token = some token ∧ s.fiber.requested token = true

omit [DecidableEq P] [Inhabited R] in
/-- Its `Do` has not run. -/
structure Untouched (s : SynchronizationContextFiber P R E) (ref : ℕ) : Prop where
  source : (s.items ref).source.isCompleted = true → s.Canceled ref
  asleep : (s.items ref).awaiting = false
  posts : ∀ c, s.posted c ≠ some (.continuation ref)

omit [DecidableEq P] [Inhabited R] in
structure Fate (s : SynchronizationContextFiber P R E) : Prop where
  waits : ∀ c ref, s.posted c = some (.doWorkItem ref) → s.fiber.NotDone c → s.Untouched ref
  done : ∀ c ref, s.posted c = some (.doWorkItem ref) → ¬ s.fiber.NotDone c →
    (s.items ref).job.IsSync → (s.items ref).source.isCompleted = true ∨ s.Canceled ref

theorem Canceled.step (hr : (machine : Machine (SynchronizationContextFiber P R E) _).Reachable s)
    {ref : ℕ} (h : s.Canceled ref) (href : ref < s.created) {a : ContextAct P R E}
    (he : s.Effect a t) : t.Canceled ref := by
  obtain ⟨token, htoken, hreq⟩ := h
  exact ⟨token, (he.later href).job ▸ htoken, he.requested hr hreq⟩

theorem Effect.notDone (hr : (machine : Machine (SynchronizationContextFiber P R E) _).Reachable s)
    {a : ContextAct P R E} (he : s.Effect a t) {c : ℕ} (hc : t.fiber.NotDone c) :
    s.fiber.NotDone c ∧ (a = .fiber .doItem → s.fiber.queue.consumer ≠ .onItem c) := by
  have hfr := fiber_reachable hr
  cases he with
  | fiber a f hf =>
      obtain ⟨hnot, hdo⟩ := (Fiber.step_effect hfr hf).notDone hfr hc
      exact ⟨hnot, fun ha => hdo (by cases ha; rfl)⟩
  | enqueue p job f _ hf | resume p target f _ hf =>
      exact ⟨((Fiber.step_effect hfr hf).notDone hfr hc).1, nofun⟩
  | callback => exact ⟨hc, nofun⟩

theorem Untouched.step
    (hr : (machine : Machine (SynchronizationContextFiber P R E) _).Reachable s) {c ref : ℕ}
    (hc : s.posted c = some (.doWorkItem ref)) (h : s.Untouched ref) {a : ContextAct P R E}
    (he : s.Effect a t) (hne : a = .fiber .doItem → s.fiber.queue.consumer ≠ .onItem c) :
    t.Untouched ref := by
  have hi := posts_reachable hr
  have href := hi.lt_created c ref hc
  -- the work item stays as it is, or its token is cancelled
  have hitem : t.items ref = s.items ref ∨ (t.items ref).awaiting = (s.items ref).awaiting ∧
      t.Canceled ref := by
    cases he with
    | fiber a f hf =>
        left
        rcases s.itemsAfter_cases a with hsame | ⟨rfl, c', hc', hrun⟩
        · exact congrFun hsame ref
        · refine (congrFun hrun ref).trans (run_other hi.jobs (fun hposted => ?_) (h.posts c'))
          exact hne rfl (hi.once c' c ref hposted hc ▸ hc')
    | enqueue p job f => exact .inl (Function.update_of_ne (Nat.ne_of_lt href) ..)
    | resume p target f hawaiting =>
        refine .inl (Function.update_of_ne ?_ ..)
        rintro rfl
        cases h.asleep.symm.trans hawaiting
    | callback r token htoken hreq =>
        by_cases hr : ref = r
        · subst hr
          right
          refine ⟨?_, token, ?_, hreq⟩
          · simp only [Function.update_self]
            exact WorkItem.cancel_awaiting _
          · simp only [Function.update_self, WorkItem.cancel_job]
            exact hi.registration ref token htoken
        · exact .inl (Function.update_of_ne hr ..)
  refine ⟨fun hdone => ?_, ?_, fun c' hc' => ?_⟩
  · rcases hitem with hsame | ⟨-, hcanceled⟩
    · rw [hsame] at hdone
      exact (h.source hdone).step hr href he
    · exact hcanceled
  · rcases hitem with hsame | ⟨hsame, -⟩
    · rw [hsame]
      exact h.asleep
    · exact hsame.trans h.asleep
  · rcases he.posted c' with hsame | ⟨-, -, ⟨-, -, hmade⟩ | ⟨p, target, -, hawaiting, hmade⟩⟩
    · exact h.posts c' (hsame.symm.trans hc')
    · cases hmade.symm.trans hc'
    · cases hmade.symm.trans hc'
      cases h.asleep.symm.trans hawaiting

theorem Effect.settles (hr : (machine : Machine (SynchronizationContextFiber P R E) _).Reachable s)
    {a : ContextAct P R E} (he : s.Effect a t) {c ref : ℕ}
    (hc : s.posted c = some (.doWorkItem ref)) (hs : s.fiber.NotDone c)
    (ht : ¬ t.fiber.NotDone c) (hj : (s.items ref).job.IsSync) :
    (t.items ref).source.isCompleted = true ∨ t.Canceled ref := by
  have hfr := fiber_reachable hr
  have href := (posts_reachable hr).lt_created c ref hc
  cases he with
  | fiber a f hf =>
      obtain ⟨rfl, hon⟩ := (Fiber.step_effect hfr hf).doItem_of_done hs ht
      have hitems : s.itemsAfter .doItem = (Concurrent.doItem s.fiber.requested s.items ref).1 := by
        simp only [itemsAfter, hon, hc, run]
      rcases doItem_sync s.fiber.requested hj with ⟨-, hcanceled⟩ | ⟨w, hw, hdone, -⟩
      · exact .inr (Canceled.step hr hcanceled href (.fiber _ f hf))
      · left
        have hself : s.itemsAfter .doItem ref = w := by
          rw [hitems, hw, Function.update_self]
        exact (congrArg (·.source.isCompleted) hself).trans hdone
  | enqueue p job f _ hf | resume p target f _ hf =>
      cases ((Fiber.step_effect hfr hf).doItem_of_done hs ht).1
  | callback => exact (ht hs).elim

theorem Effect.untouched
    (hr : (machine : Machine (SynchronizationContextFiber P R E) _).Reachable s) {p : P}
    {job : Job R E} (he : s.Effect (.enqueue p job) t) : t.Untouched s.created := by
  have hitem : t.items s.created = WorkItem.create s.fiber.requested job := by
    cases he
    exact Function.update_self ..
  constructor
  · intro hdone
    rw [hitem] at hdone
    obtain ⟨token, htoken, hreq⟩ := (WorkItem.create_cases s.fiber.requested job).2 hdone
    refine ⟨token, ?_, he.requested hr hreq⟩
    rw [hitem, WorkItem.create_job]
    exact htoken
  · rw [hitem]
    exact WorkItem.create_awaiting ..
  · intro c hc
    rcases he.posted c with hsame | ⟨-, -, ⟨-, -, hmade⟩ | ⟨q, target, ha, -, -⟩⟩
    · exact Nat.lt_irrefl _ ((posts_reachable hr).target_lt c _ (hsame.symm.trans hc))
    · cases hmade.symm.trans hc
    · cases ha

theorem Fate.step (hr : (machine : Machine (SynchronizationContextFiber P R E) _).Reachable s)
    (hi : s.Fate) {a : ContextAct P R E} (he : s.Effect a t) : t.Fate := by
  have hp := posts_reachable hr
  have hfr := fiber_reachable hr
  -- a work item of the fiber that has just been made is not done
  have hnew : ∀ c, c = s.fiber.created → t.fiber.NotDone c := by
    rintro c rfl hm
    have hold : s.fiber.created ∉ s.fiber.queue.delivered := fun hm =>
      Nat.lt_irrefl _ (Fiber.lt_created hfr (.inr (Fiber.delivered_exchanged hfr hm)))
    rcases he.fiberStep with hsame | ⟨b, hb⟩
    · exact (hold (hsame ▸ hm)).elim
    · rcases (Fiber.step_effect hfr hb).delivered with hsame | ⟨r, -, hon, hmore⟩
      · exact (hold (hsame ▸ hm)).elim
      · rw [hmore, List.mem_append, List.mem_singleton] at hm
        rw [hm.resolve_left hold]
        exact hon
  constructor
  · intro c ref hc hnot
    rcases he.posted c with hsame | ⟨rfl, -, ⟨⟨p, job, rfl⟩, -, hmade⟩ | ⟨p, target, -, -, hmade⟩⟩
    · rw [hsame] at hc
      obtain ⟨hold, hne⟩ := he.notDone hr hnot
      exact (hi.waits c ref hc hold).step hr hc he hne
    · cases hmade.symm.trans hc
      exact he.untouched hr
    · cases hmade.symm.trans hc
  · intro c ref hc hdone hj
    rcases he.posted c with hsame | ⟨hcreated, -⟩
    · rw [hsame] at hc
      have href := hp.lt_created c ref hc
      have hlater := he.later href
      rw [hlater.job] at hj
      by_cases hold : s.fiber.NotDone c
      · exact he.settles hr hc hold hdone hj
      · rcases hi.done c ref hc hold hj with hcompleted | hcanceled
        · left
          rw [hlater.source hcompleted]
          exact hcompleted
        · exact .inr (hcanceled.step hr href he)
    · exact (hdone (hnew c hcreated)).elim

theorem fate_reachable
    (hr : (machine : Machine (SynchronizationContextFiber P R E) _).Reachable s) : s.Fate := by
  refine hr.invariant ?_ fun s a t hr hi h => hi.step hr (step_effect h)
  exact ⟨(fun _ _ h => by cases h), (fun _ _ h => by cases h)⟩

/-- What was posted and called stays so; what is left when the consumer leaves the loop stays
where it is. -/
structure After (s t : SynchronizationContextFiber P R E) : Prop where
  run : machine.Reachable t
  created : s.created ≤ t.created
  posted : ∀ c x, s.posted c = some x → t.posted c = some x
  jobs : ∀ ref < s.created, (t.items ref).job = (s.items ref).job
  ended : ∀ cause, s.fiber.queue.consumer = .ended cause →
    t.fiber.queue.consumer = .ended cause ∧
      t.fiber.queue.delivered = s.fiber.queue.delivered

theorem after_of_leads
    (hr : (machine : Machine (SynchronizationContextFiber P R E) _).Reachable s)
    (h : machine.Leads (fun _ => True) s t) : s.After t := by
  apply h.invariant (I := s.After) ⟨hr, Nat.le_refl _, fun _ _ h => h, fun _ _ => rfl,
    fun _ h => ⟨h, rfl⟩⟩
  intro u a v hu _ hstep
  have he := step_effect hstep
  refine ⟨hu.run.next hstep, hu.created.trans he.created_le, ?_, ?_, ?_⟩
  · intro c x hx
    rcases he.posted c with hsame | ⟨rfl, -⟩
    · exact hsame.trans (hu.posted c x hx)
    · cases ((posts_reachable hu.run).fresh _ (Nat.le_refl _)).symm.trans (hu.posted _ x hx)
  · intro ref href
    exact (he.later (href.trans_le hu.created)).job.trans (hu.jobs ref href)
  · intro cause hc
    obtain ⟨hcu, hdu⟩ := hu.ended cause hc
    rcases he.fiberStep with hsame | ⟨b, hb⟩
    · rw [hsame]
      exact ⟨hcu, hdu⟩
    · have hlead : Fiber.machine.Leads (fun _ => True) u.fiber v.fiber :=
        Machine.leads_single trivial hb
      obtain ⟨hcv, hdv⟩ := Fiber.delivered_of_ended (fiber_reachable hu.run) hcu hlead
      exact ⟨hcv, hdv.trans hdu⟩

/-- The fiber gets one `ActionWorkItem` for each work item, whatever the overload. When it is
through with that, the task of a synchronous one is completed, unless its token was cancelled.
When the fiber leaves its loop without, the task is never completed, unless its token is
cancelled: nobody tells the work item that the fiber is disposed. -/
theorem posted_once_answered_or_lost
    (hr : (machine : Machine (SynchronizationContextFiber P R E) _).Reachable s) {ref : ℕ}
    (href : ref < s.created) : ∃ c, s.posted c = some (.doWorkItem ref) ∧
      (∀ c', s.posted c' = some (.doWorkItem ref) → c' = c) ∧
      (¬ s.fiber.NotDone c → (s.items ref).job.IsSync →
        (s.items ref).source.isCompleted = true ∨ s.Canceled ref) ∧
      ∀ cause, s.fiber.queue.consumer = .ended cause → c ∉ s.fiber.queue.delivered →
        ∀ t, machine.Leads (fun _ => True) s t → (t.items ref).source.isCompleted = true →
          ∃ token, (s.items ref).job.token = some token ∧ t.fiber.requested token = true := by
  have hi := posts_reachable hr
  obtain ⟨c, hc⟩ := hi.made ref href
  refine ⟨c, hc, fun c' hc' => hi.once c' c ref hc' hc, ?_, ?_⟩
  · exact fun hdone hj => (fate_reachable hr).done c ref hc hdone hj
  · intro cause hended hnot t hlead hcompleted
    have ht := after_of_leads hr hlead
    have huntouched : t.Untouched ref := by
      refine (fate_reachable ht.run).waits c ref (ht.posted c _ hc) fun hm => ?_
      rw [(ht.ended cause hended).2] at hm
      exact (hnot hm).elim
    rw [← ht.jobs ref href]
    exact huntouched.source hcompleted

/-- A call after the disposal of the fiber: its task stays pending for ever. -/
theorem posted_once_answered_or_lost_disposed :
    ∃ s : SynchronizationContextFiber Unit ℕ Unit, s.fiber.phase = .finished ∧ s.created = 1 ∧
      ∀ t, machine.Leads (fun _ => True) s t → (t.items 0).source.isCompleted = false := by
  obtain ⟨s, hr, hphase, hcreated, hended, hdelivered, hj⟩ := machine.exists_of_run
    (p := fun s : SynchronizationContextFiber Unit ℕ Unit => s.fiber.phase = .finished ∧
      s.created = 1 ∧ s.fiber.queue.consumer = .ended .canceled ∧
        s.fiber.queue.delivered = [] ∧ (s.items 0).job.token = none)
    ([.fiber .disposeAsync, .enqueue () (.workItem (.ok 5)), .fiber (.produce ()),
      .fiber (.finish ())] ++ List.replicate 8 (.fiber (.consume true)) ++
        List.replicate 5 (.fiber .exit)) (by decide)
  refine ⟨s, hphase, hcreated, fun t hlead => ?_⟩
  obtain ⟨c, -, -, -, hlost⟩ :=
    posted_once_answered_or_lost hr (show 0 < s.created by simp [hcreated])
  rw [Bool.eq_false_iff]
  intro hcompleted
  obtain ⟨token, htoken, -⟩ := hlost .canceled hended (by simp [hdelivered]) t hlead hcompleted
  cases hj.symm.trans htoken

/-- Nobody calls `Dispatch` of the fiber itself with a delegate that throws. -/
def ThroughContext (_ : SynchronizationContextFiber P R E) : ContextAct P R E → Prop
  | .fiber (.enqueue _ job) => job.thrown.isNone = true
  | .fiber _ | .enqueue _ _ | .resume _ _ | .callback _ => True

/-- No work item of the fiber lets an exception escape. -/
def Harmless (f : Fiber P R E) : Prop := ∀ c < f.created, (f.items c).job.thrown = none

theorem Harmless.step {f g : Fiber P R E} (hr : Fiber.machine.Reachable f) (hi : Harmless f)
    {a : FiberAct P R E} (h : f.step a = some g)
    (ha : ∀ p job, a = .enqueue p job → job.thrown = none) : Harmless g := by
  have he := Fiber.step_effect hr h
  intro c hc
  rcases he.created_cases hc with hold | ⟨rfl, hcreated⟩
  · rw [(he.later hold).job]
    exact hi c hold
  · obtain ⟨job, ⟨⟨p, rfl⟩, hitem⟩ | ⟨⟨p, target, rfl, -, rfl⟩, hitem⟩⟩ := he.created hcreated
    · rw [hitem, WorkItem.create_job]
      exact ha p job rfl
    · rw [hitem, WorkItem.create_job]
      rfl

theorem harmless_reachable
    (hr : (machine : Machine (SynchronizationContextFiber P R E) _).ReachableUnder
      ThroughContext s) : Harmless s.fiber := by
  apply hr.invariant (I := fun s => Harmless s.fiber)
  · intro c hc
    rfl
  · intro s a t hr hi ha h
    have hfr := fiber_reachable hr.reachable
    cases step_effect h with
    | fiber a f hf =>
        refine hi.step hfr hf fun p job heq => ?_
        subst heq
        exact Option.isNone_iff_eq_none.mp ha
    | enqueue p job f _ hf =>
        refine hi.step hfr hf fun q job' heq => ?_
        cases heq
        rfl
    | resume p target f _ hf =>
        refine hi.step hfr hf fun q job' heq => ?_
        cases heq
        rfl
    | callback => exact hi

/-- As long as `Dispatch` is called on the context only, no delegate stops the fiber, whatever
it throws: the loop is left after `CompleteAdding` and by its token. -/
theorem left_only_by_disposal
    (hr : (machine : Machine (SynchronizationContextFiber P R E) _).ReachableUnder
      ThroughContext s) {cause : Ended (Exn E)} (hc : s.fiber.queue.consumer = .ended cause) :
    cause = .canceled ∧ s.fiber.queue.canceled = true := by
  have hfr := fiber_reachable hr.reachable
  have hcauses := Fiber.causes_reachable hfr
  cases cause with
  | canceled => exact ⟨rfl, hcauses.canceled hc⟩
  | nullReference => exact (hcauses.nullReference hc).elim
  | threw e =>
      obtain ⟨c, hm, hthrown⟩ := hcauses.threw e hc
      have hlt := Fiber.lt_created hfr (.inr (Fiber.delivered_exchanged hfr hm))
      cases (harmless_reachable hr c hlt).symm.trans hthrown

instance (s : SynchronizationContextFiber P R E) (a : ContextAct P R E) :
    Decidable (ThroughContext s a) := by
  unfold ThroughContext
  split <;> infer_instance

/-- A delegate given to `Dispatch` throws, and the fiber is disposed afterwards. -/
theorem left_only_by_disposal_thrown :
    ∃ s : SynchronizationContextFiber Unit ℕ Unit, s.fiber.queue.delivered = [1] ∧
      ∃ cause, s.fiber.queue.consumer = .ended cause ∧ cause = .canceled ∧
        s.fiber.queue.canceled = true := by
  obtain ⟨s, hr, hdelivered, hended⟩ := machine.exists_of_guarded_run ThroughContext
    (p := fun s : SynchronizationContextFiber Unit ℕ Unit => s.fiber.queue.delivered = [1] ∧
      s.fiber.queue.consumer = .ended .canceled)
    ([.enqueue () (.dispatchItem (.error (.other ())))] ++
      List.replicate 5 (.fiber (.produce ())) ++ [.fiber (.finish ())] ++
        List.replicate 4 (.fiber (.consume true)) ++ [.fiber .doItem, .fiber .disposeAsync] ++
          List.replicate 8 (.fiber (.consume true))) (by decide) (by decide)
  exact ⟨s, hdelivered, .canceled, hended, left_only_by_disposal hr hended⟩

end SynchronizationContextFiber
end ComposableAsync.Concurrent
