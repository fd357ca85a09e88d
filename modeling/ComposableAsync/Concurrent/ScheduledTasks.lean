import ComposableAsync.Concurrent.FiberShutdown
import ComposableAsync.Concurrent.QueueDisposal
import ComposableAsync.Resilient.DispatcherClone

/-!
# What is dispatched and dropped

`FiberTaskScheduler.QueueTask` and `DispatcherAwaiter.OnCompleted` hand their delegate
to `Dispatch`, which answers nothing. The fiber ignores whatever `_TaskQueue.Enqueue`
throws, `Cancel` of a `DispatchItem` does nothing, and a breaker that does not let the
call in asks its void open behaviour and returns if that does.

A delegate the fiber has not run when it ends is dropped for good. Either its `Enqueue`
was refused, or it was still in the queue when the consumer left the loop: behind a
delegate that threw, or behind a producer that was between its look at the token and its
return.
-/
namespace ComposableAsync.Concurrent
open Foundations

/-- What `_TaskQueue.Enqueue` throws. -/
inductive QueueError where
  | operationCanceled
  | release (error : EventCount.ReleaseError)
  deriving DecidableEq, Repr

namespace Producer
variable {T : Type}

/-- How `_TaskQueue.Enqueue` ended. -/
def enqueued : Producer T → Option (Except QueueError Unit)
  | .returned _ => some (.ok ())
  | .canceled _ => some (.error .operationCanceled)
  | .raised _ e => some (.error (.release e))
  | .idle | .enter _ | .create _ | .exchange _ _ | .store _ _ _ | .notify _ | .lock _
  | .release _ => none

/-- How `Dispatch` ended, which ignores every exception. -/
def dispatched (pc : Producer T) : Option (Except QueueError Unit) :=
  pc.enqueued.map fun answer => tryCatch answer fun _ => .ok ()

theorem dispatched_ok {pc : Producer T} {answer : Except QueueError Unit}
    (h : pc.dispatched = some answer) : answer = .ok () := by
  simp only [dispatched, Option.map_eq_some_iff] at h
  obtain ⟨answer', -, rfl⟩ := h
  cases answer' with
  | ok value => rfl
  | error e => rfl

theorem dispatched_of_atRest {pc : Producer T} (h : pc.AtRest) (hbegun : pc ≠ .idle) :
    pc.dispatched = some (.ok ()) := by
  cases pc with
  | idle => exact (hbegun rfl).elim
  | returned item | canceled item | raised item e => rfl
  | enter item | create item | exchange item n | store item n prev | notify item | lock item
  | release item => exact h.elim

theorem Move.call {canceled : Bool} {pc pc' : Producer T} {added : List T} {item : T}
    (h : Move canceled pc pc' added) (hitem : pc.item = some item) :
    (pc'.item = some item ∧ ¬ pc'.AtRest) ∨ canceled = true ∨ pc'.added = some item := by
  cases h with
  | refuse _ hcanceled => exact .inr (.inl hcanceled)
  | pass | create => exact .inl ⟨hitem, not_false⟩
  | exchange | store | unwatched | watched | late | post | release | raise =>
      exact .inr (.inr hitem)

/-- Past the look at the token, and before the return. -/
def Underway (pc : Producer T) : Prop := pc.Signalling ∨ pc.Releasing

theorem Move.underway {pc pc' : Producer T} {added : List T} (h : Move true pc pc' added)
    (hp : ¬ pc.Underway) : ¬ pc'.Underway ∧ added = [] := by
  cases h with
  | refuse | raise => exact ⟨(by simp [Underway, Signalling, Releasing]), rfl⟩
  | pass _ hcanceled => cases hcanceled
  | create | exchange | store | unwatched | watched | late | post => exact (hp (.inl trivial)).elim
  | release => exact (hp (.inr trivial)).elim

end Producer

namespace WorkItem
variable {R E : Type} {w : WorkItem R E}

/-- A dispatched delegate has no task, no registration and nothing to await. -/
def Bare (w : WorkItem R E) : Prop :=
  ∀ outcome, w.job = .dispatchItem outcome → w = { job := .dispatchItem outcome }

theorem bare_create (requested : Token → Bool) (job : Job R E) : (create requested job).Bare := by
  intro outcome hjob
  rw [create_job] at hjob
  subst hjob
  rfl

theorem bare_of_job {w' : WorkItem R E} (hjob : w'.job = w.job)
    (h : ∀ outcome, w.job ≠ .dispatchItem outcome) : w'.Bare := by
  intro outcome hw
  exact (h outcome (hjob ▸ hw)).elim

theorem Bare.cancel (h : w.Bare) : w.cancel.Bare := by
  intro outcome hjob
  rw [cancel_job] at hjob
  rw [WorkItem.cancel, hjob]
  exact h outcome hjob

theorem Bare.segment (h : w.Bare) (requested : Token → Bool) : (w.segment requested).Bare := by
  intro outcome hjob
  rw [segment_job] at hjob
  rw [h outcome hjob]
  rfl

theorem bare_update {items : ℕ → WorkItem R E} (hitems : ∀ r, (items r).Bare) {ref : ℕ}
    (hw : w.Bare) (r : ℕ) : (Function.update items ref w r).Bare := by
  by_cases hr : r = ref
  · rw [hr, Function.update_self]
    exact hw
  · rw [Function.update_of_ne hr]
    exact hitems r

theorem bare_doItem [Inhabited R] {requested : Token → Bool} {items : ℕ → WorkItem R E}
    (hitems : ∀ r, (items r).Bare) (ref : ℕ) : ∀ r, ((doItem requested items ref).1 r).Bare := by
  have hother : ∀ {w : WorkItem R E}, w.job = (items ref).job →
      (∀ outcome, (items ref).job ≠ .dispatchItem outcome) →
      ∀ r, (Function.update items ref w r).Bare :=
    fun hjob h => bare_update hitems (bare_of_job hjob h)
  unfold doItem
  split
  · exact hitems
  · exact hitems
  · rename_i hjob
    exact hother rfl (by simp [hjob])
  · rename_i hjob
    split
    · exact hitems
    · exact hother rfl (by simp [hjob])
  · exact bare_update hitems ((hitems ref).segment _)
  · rename_i hjob
    split
    · exact hitems
    · exact hother (segment_job _ _) (by simp [hjob])
  · rename_i target hjob
    have hresumed : ∀ r, (Function.update items target ((items target).segment requested) r).Bare :=
      bare_update hitems ((hitems target).segment requested)
    apply bare_update hresumed
    apply bare_of_job (w := items ref)
    · by_cases htarget : ref = target
      · subst htarget
        simp only [Function.update_self, segment_job]
      · simp only [Function.update_of_ne htarget]
    · simp [hjob]

end WorkItem

namespace Fiber
variable {P R E : Type}

/-- `Dispatch(action)`. -/
def dispatch (p : P) (action : Except (Exn E) Unit) : FiberAct P R E :=
  .enqueue p (.dispatchItem action)

/-- `FiberTaskScheduler.QueueTask`. `TryExecuteTask` keeps what the task throws. -/
def queueTask (p : P) : FiberAct P R E := dispatch p (.ok ())

/-- `DispatcherAwaiter.OnCompleted` over the fiber. -/
def onCompleted (p : P) (continuation : Except (Exn E) Unit) : FiberAct P R E :=
  dispatch p continuation

/-- The work item was made by a call of `Dispatch`. -/
structure Dispatched (s : Fiber P R E) (ref : ℕ) : Prop where
  pos : 0 < ref
  created : ref < s.created
  job : ∃ outcome, (s.items ref).job = .dispatchItem outcome

/-- A call that has not ended carries the work item. -/
def InCall (s : Fiber P R E) (ref : ℕ) : Prop :=
  ∃ p, (s.queue.producers p).item = some ref ∧ ¬ (s.queue.producers p).AtRest

/-- The queue did not take the work item, under a cancelled token. -/
def Refused (s : Fiber P R E) (ref : ℕ) : Prop :=
  s.queue.canceled = true ∧ ref ∉ s.queue.exchanged

/-- The queue took the work item and the consumer did not come to it. -/
def LeftBehind (s : Fiber P R E) (ref : ℕ) : Prop :=
  ref ∈ s.queue.exchanged ∧ ref ∉ s.queue.delivered

/-- No dispatched delegate throws, and the consumer leaves the loop when no producer is
between its look at the token and its return. -/
def LeavesAlone (s : Fiber P R E) : FiberAct P R E → Prop
  | .consume _ => s.queue.consumer = .waiting → s.queue.events.permits = 0 →
      s.queue.canceled = true → ∀ p, ¬ (s.queue.producers p).Underway
  | .doItem => ∀ ref ∈ s.queue.consumer.current, (s.items ref).job.thrown = none
  | .enqueue _ _ | .resume _ _ | .produce _ | .finish _ | .exit | .disposeAsync | .cancel _
  | .callback _ => True

variable [DecidableEq P] [Inhabited R] {s t : Fiber P R E}

theorem dispatched_dispatch (hr : (machine : Machine (Fiber P R E) _).Reachable s) {p : P}
    {action : Except (Exn E) Unit} (h : machine.step s (dispatch p action) = some t) :
    t.Dispatched s.created ∧ t.queue.producers p = .enter s.created := by
  simp only [machine, dispatch, step, Job.IsPublic, if_true] at h
  obtain ⟨q, hq, rfl⟩ := submit_eq h
  constructor
  · refine ⟨created_pos hr, Nat.lt_succ_self _, action, ?_⟩
    simp only [Function.update_self, WorkItem.create_job]
  · simp only [Blocking.step] at hq
    split at hq <;> cases hq
    exact Function.update_self ..

theorem InCall.step (hr : (machine : Machine (Fiber P R E) _).Reachable s) {ref : ℕ}
    (hcall : s.InCall ref) {a : FiberAct P R E} (h : machine.step s a = some t) :
    ref ∈ t.queue.exchanged ∨ t.InCall ref ∨ t.queue.canceled = true := by
  have he := step_effect hr h
  obtain ⟨p, hitem, hrest⟩ := hcall
  cases he.producer p with
  | stays hstays =>
      refine .inr (.inl ⟨p, ?_, ?_⟩)
      · rw [hstays]
        exact hitem
      · rw [hstays]
        exact hrest
  | begins hidle _ _ =>
      rw [hidle] at hrest
      exact (hrest trivial).elim
  | moves added _ hmove _ =>
      rcases hmove.call hitem with hgoes | hcanceled | hadded
      · exact .inr (.inl ⟨p, hgoes⟩)
      · exact .inr (.inr (he.canceled hcanceled))
      · exact .inl ((exchanged_reachable (hr.next h)).added p ref hadded)
  | ends _ hended _ =>
      obtain ⟨item, hp | hp | ⟨e, hp⟩⟩ := hended <;>
      · rw [hp] at hrest
        exact (hrest trivial).elim

theorem inCall_created {a : FiberAct P R E} (he : s.Effect a t)
    (hcreated : s.created < t.created) : t.created = s.created + 1 ∧ t.InCall s.created := by
  have hcall : ∀ {p : P}, t.queue.producers p = .enter s.created → t.InCall s.created := by
    intro p hp
    refine ⟨p, ?_, ?_⟩
    · rw [hp]
      rfl
    · rw [hp]
      exact not_false
  cases he with
  | enqueue p job q _ _ hproducers | resume p target q _ _ hproducers =>
      refine ⟨rfl, hcall (p := p) ?_⟩
      change q.producers p = _
      rw [hproducers, Function.update_self]
  | exit t hexit => cases hexit <;> exact (lt_irrefl _ hcreated).elim
  | _ => exact (lt_irrefl _ hcreated).elim

/-- Every work item is in the queue or in a call, or was refused. -/
theorem created_accounted (hr : (machine : Machine (Fiber P R E) _).Reachable s) {ref : ℕ}
    (hpos : 0 < ref) (hlt : ref < s.created) :
    ref ∈ s.queue.exchanged ∨ s.InCall ref ∨ s.queue.canceled = true := by
  revert ref
  apply hr.invariant (I := fun s => ∀ {ref}, 0 < ref → ref < s.created →
    ref ∈ s.queue.exchanged ∨ s.InCall ref ∨ s.queue.canceled = true)
  · intro ref hpos hlt
    have hone : ref < 1 := hlt
    omega
  · intro s a t hr hi h ref hpos hlt
    have he := step_effect hr h
    by_cases hold : ref < s.created
    · rcases hi hpos hold with hm | hcall | hcanceled
      · exact .inl (he.exchanged_prefix.subset hm)
      · exact hcall.step hr h
      · exact .inr (.inr (he.canceled hcanceled))
    · obtain ⟨hcreated, hcall⟩ := inCall_created he (by omega)
      have href : ref = s.created := by omega
      exact .inr (.inl (href ▸ hcall))

theorem delivered_of_ended (hr : (machine : Machine (Fiber P R E) _).Reachable s)
    {cause : Ended (Exn E)} (hc : s.queue.consumer = .ended cause)
    (h : machine.Leads (fun _ => True) s t) :
    t.queue.consumer = .ended cause ∧ t.queue.delivered = s.queue.delivered := by
  have hkept : machine.Reachable t ∧ t.queue.consumer = .ended cause ∧
      t.queue.delivered = s.queue.delivered := by
    apply h.invariant (I := fun t => machine.Reachable t ∧ t.queue.consumer = .ended cause ∧
      t.queue.delivered = s.queue.delivered) ⟨hr, hc, rfl⟩
    rintro u a v ⟨hru, hcu, hdu⟩ - hstep
    refine ⟨hru.next hstep, ?_⟩
    cases (step_effect hru hstep).consumer with
    | stays hconsumer hdelivered _ => exact ⟨hconsumer.trans hcu, hdelivered.trans hdu⟩
    | moves yields _ hmove _ =>
        cases hmove with
        | loop hs =>
            rw [hcu] at hs
            exact hs.elim
        | take _ hs | hand _ hs | leave hs => cases hs.symm.trans hcu
    | returns _ _ hs | throws _ _ _ hs => cases hs.symm.trans hcu
  exact hkept.2

theorem bare_reachable (hr : (machine : Machine (Fiber P R E) _).Reachable s) (ref : ℕ) :
    (s.items ref).Bare := by
  revert ref
  apply hr.invariant (I := fun s => ∀ ref, (s.items ref).Bare)
  · intro ref outcome hjob
    cases hjob
    rfl
  · intro s a t hr hi h
    cases step_effect hr h with
    | enqueue p job q => exact WorkItem.bare_update hi (WorkItem.bare_create _ _)
    | resume p target q hawaiting =>
        apply WorkItem.bare_update _ (WorkItem.bare_create _ _)
        apply WorkItem.bare_update hi
        apply WorkItem.bare_of_job (w := s.items target)
        · rfl
        intro outcome hjob
        rw [hi target outcome hjob] at hawaiting
        cases hawaiting
    | doItem r q | throw r e q => exact WorkItem.bare_doItem hi r
    | exit t hexit =>
        cases hexit with
        | cancel node next => exact WorkItem.bare_update hi (hi _).cancel
        | drain | unhandled | drained | disposeSource | disposeSemaphore | endFiber => exact hi
    | callback r token hregistration =>
        apply WorkItem.bare_update hi
        apply WorkItem.bare_of_job (w := s.items r)
        · exact WorkItem.cancel_job _
        intro outcome hjob
        rw [hi r outcome hjob] at hregistration
        cases hregistration
    | produce | finish | consume | disposeAsync | cancel => exact hi

theorem Dispatched.items (hr : (machine : Machine (Fiber P R E) _).Reachable s) {ref : ℕ}
    (href : s.Dispatched ref) (h : machine.Leads (fun _ => True) s t) :
    t.items ref = s.items ref := by
  obtain ⟨outcome, hjob⟩ := href.job
  have hkept : machine.Reachable t ∧ ref < t.created ∧ (t.items ref).job = (s.items ref).job := by
    apply h.invariant (I := fun t => machine.Reachable t ∧ ref < t.created ∧
      (t.items ref).job = (s.items ref).job) ⟨hr, href.created, rfl⟩
    rintro u a v ⟨hru, hlt, hu⟩ - hstep
    have he := step_effect hru hstep
    exact ⟨hru.next hstep, hlt.trans_le he.created_le, (he.later hlt).job.trans hu⟩
  rw [bare_reachable hr ref outcome hjob,
    bare_reachable hkept.1 ref outcome (hkept.2.2.trans hjob)]

/-- After the end of the loop nobody adds an item, and everything was executed. -/
structure LeftAlone (s : Fiber P R E) : Prop where
  canceled : s.queue.canceled = true
  delivered : s.queue.delivered = s.queue.exchanged
  producers : ∀ p, ¬ (s.queue.producers p).Underway

theorem Effect.not_underway {a : FiberAct P R E} (h : s.Effect a t)
    (hcanceled : s.queue.canceled = true) (hp : ∀ p, ¬ (s.queue.producers p).Underway) :
    (∀ p, ¬ (t.queue.producers p).Underway) ∧ t.queue.exchanged = s.queue.exchanged :=
  h.stays_clear hcanceled (by simp [Producer.Underway, Producer.Signalling, Producer.Releasing])
    (by simp [Producer.Underway, Producer.Signalling, Producer.Releasing])
    (fun hmove => hmove.underway) hp

theorem LeftAlone.step (hr : (machine : Machine (Fiber P R E) _).Reachable s)
    {cause : Ended (Exn E)} (hc : s.queue.consumer = .ended cause) (hi : s.LeftAlone)
    {a : FiberAct P R E} (h : machine.step s a = some t) : t.LeftAlone := by
  have he := step_effect hr h
  obtain ⟨hproducers, hexchanged⟩ := he.not_underway hi.canceled hi.producers
  have hlead : machine.Leads (fun _ => True) s t := Machine.leads_single trivial h
  constructor
  · exact he.canceled hi.canceled
  · rw [hexchanged, (delivered_of_ended hr hc hlead).2]
    exact hi.delivered
  · exact hproducers

/-- A consumer that finds the wait cancelled with nobody about has delivered everything. -/
theorem leftAlone_of_leaves (hr : (machine : Machine (Fiber P R E) _).Reachable s)
    (hwaiting : s.queue.consumer = .waiting) (hpermits : s.queue.events.permits = 0)
    (hcanceled : s.queue.canceled = true) (halone : ∀ p, ¬ (s.queue.producers p).Underway) :
    s.LeftAlone := by
  have hnot : ∀ {p : P} {pc : Producer ℕ}, s.queue.producers p = pc → ¬ pc.Underway := by
    rintro p pc rfl
    exact halone p
  refine ⟨hcanceled, ?_, halone⟩
  apply (Blocking.delivered_of_asleep (queue_reachable hr) hwaiting hpermits ?_ ?_).1
  · intro p item n prev hp
    exact hnot hp (.inl trivial)
  · intro p item
    refine ⟨fun hp => ?_, fun hp => ?_, fun hp => ?_⟩
    · exact hnot hp (.inl trivial)
    · exact hnot hp (.inl trivial)
    · exact hnot hp (.inr trivial)

theorem leftAlone_of_ended (hr : (machine : Machine (Fiber P R E) _).ReachableUnder LeavesAlone s)
    {cause : Ended (Exn E)} (hc : s.queue.consumer = .ended cause) : s.LeftAlone := by
  revert cause
  apply hr.invariant (I := fun s => ∀ {cause}, s.queue.consumer = .ended cause → s.LeftAlone)
  · intro cause hc
    cases hc
  · intro s a t hr hi ha h cause hc
    have he := step_effect hr.reachable h
    rcases he.ended hc with hold | ⟨⟨yields, rfl⟩, hwaiting, hpermits, hcanceled, -⟩ |
      ⟨rfl, ref, e, hs, hthrown, -⟩
    · exact (hi hold).step hr.reachable hold h
    · have hleft := leftAlone_of_leaves hr.reachable hwaiting hpermits hcanceled
        (ha hwaiting hpermits hcanceled)
      cases he with
      | consume yields q hmove hexchanged hproducers hcan =>
          have hdelivered : q.delivered = s.queue.delivered := by
            cases hmove with
            | loop _ _ _ hdelivered | take _ _ _ _ hdelivered
            | leave _ _ _ _ _ hdelivered => exact hdelivered
            | hand item hs => cases hwaiting.symm.trans hs
          constructor
          · exact hcan.trans hcanceled
          · exact hdelivered.trans (hleft.delivered.trans hexchanged.symm)
          · intro p
            change ¬ (q.producers p).Underway
            rw [hproducers]
            exact hleft.producers p
    · have hnone : (s.items ref).job.thrown = none := by
        apply ha ref
        rw [hs]
        rfl
      cases hthrown.symm.trans hnone

end Fiber

section Breaker
open ComposableAsync.Core Resilient
variable {F Ty W Token : Type} {Val : Ty → Type} (c : Settings F Val) (env : Environment F W Token)
  (cell : ℕ)

/-- `DispatcherAwaiter.OnCompleted`. -/
def DispatcherAwaiter.onCompleted {n : Type → Type} (dispatcher : IDispatcher F n Val Token)
    (continuation : ExceptT F n Unit) : ExceptT F n Unit := dispatcher.dispatch continuation

/-- The breaker is closed, or its delay has passed. -/
def LetsIn (now : ℤ) (b : Breaker) : Prop :=
  b.state = .closed ∨ b.state = .opened ∧ ¬ now - b.lastFail < c.delay

instance (now : ℤ) (b : Breaker) : Decidable (LetsIn c now b) :=
  inferInstanceAs (Decidable (b.state = .closed ∨ b.state = .opened ∧ ¬ now - b.lastFail < c.delay))

/-- The memory after `OnEnter`. -/
def entered (m : Memory ℕ Breaker W) : Memory ℕ Breaker W := (enterCell env cell (onEnter c) m).2

/-- The delegate has run, and the breaker takes note of its end. -/
def noted : Except F Unit × Memory ℕ Breaker W → Except F Unit × Memory ℕ Breaker W
  | (.ok _, m) => successCell cell m
  | (.error e, m) => (.error e, (checkCell c env cell e m).2)

variable {c env cell} {m : Memory ℕ Breaker W} {continuation : Comp F (Memory ℕ Breaker W) Unit}

theorem onEnter_of_letsIn {now : ℤ} {b : Breaker} (h : LetsIn c now b) :
    (onEnter c now b).1 = .ok true := by
  rcases h with hclosed | ⟨hopened, hdelay⟩
  · simp only [onEnter, unsafeEnter, hclosed]
  · simp only [onEnter, unsafeEnter, hopened, if_neg hdelay]

/-- Half open, the void behaviour is asked twice and answers the same. -/
theorem onEnter_of_not_letsIn {now : ℤ} {b : Breaker} (h : ¬ LetsIn c now b) :
    (onEnter c now b).1 = c.openBehaviour.map fun _ => false := by
  cases hs : b.state with
  | closed => exact (h (.inl hs)).elim
  | halfOpen =>
      simp only [onEnter, unsafeEnter, hs]
      cases c.openBehaviour with
      | ok value => rfl
      | error e => rfl
  | opened =>
      have hdelay : now - b.lastFail < c.delay := by
        by_contra hdelay
        exact h (.inr ⟨hs, hdelay⟩)
      simp only [onEnter, unsafeEnter, hs, if_pos hdelay]

theorem dispatch_eq_actionCell :
    (dispatcherAdapter env.none (circuitBreakerDispatcher c env cell)).dispatch continuation =
      actionCell c env cell continuation := by
  simp only [dispatcherAdapter, circuitBreakerDispatcher, bind_assoc, pure_bind, bind_pure_unit]

theorem checkCell_ok (e : F) :
    checkCell c env cell e m = (.ok (), (checkCell c env cell e m).2) := by
  unfold checkCell
  split <;> rfl

/-- The call is let in: the delegate runs once, and what it throws is thrown. -/
theorem dispatch_letsIn (h : LetsIn c (env.now m.outside).1 (m.cells cell)) :
    (dispatcherAdapter env.none (circuitBreakerDispatcher c env cell)).dispatch continuation m =
      noted c env cell (continuation (entered c env cell m)) := by
  have henter : enterCell env cell (onEnter c) m = (.ok true, entered c env cell m) :=
    Prod.ext (onEnter_of_letsIn h) rfl
  rw [dispatch_eq_actionCell, actionCell, callAction, Comp.bind_of_ok henter]
  simp only [if_true]
  obtain ⟨value, m', hrun⟩ | ⟨e, m', hrun⟩ := Comp.ok_or_error continuation (entered c env cell m)
  · rw [Comp.bind_of_ok (Comp.tryCatch_of_ok hrun), hrun]
    rfl
  · have hthrow : (do checkCell c env cell e; throw e : Comp F (Memory ℕ Breaker W) Unit) m' =
        (.error e, (checkCell c env cell e m').2) := by
      rw [Comp.bind_of_ok (checkCell_ok e)]
      rfl
    rw [Comp.bind_of_error ((Comp.tryCatch_of_error hrun).trans hthrow), hrun]
    rfl

/-- The call is not let in: the delegate does not run, and the void open behaviour is the
whole answer. -/
theorem dispatch_not_letsIn (h : ¬ LetsIn c (env.now m.outside).1 (m.cells cell)) :
    (dispatcherAdapter env.none (circuitBreakerDispatcher c env cell)).dispatch continuation m =
      (c.openBehaviour, entered c env cell m) := by
  have hfirst : (enterCell env cell (onEnter c) m).1 = c.openBehaviour.map fun _ => false :=
    onEnter_of_not_letsIn h
  rw [dispatch_eq_actionCell, actionCell, callAction]
  cases hopen : c.openBehaviour with
  | ok value =>
      rw [hopen] at hfirst
      have henter : enterCell env cell (onEnter c) m = (.ok false, entered c env cell m) :=
        Prod.ext hfirst rfl
      rw [Comp.bind_of_ok henter]
      rfl
  | error e =>
      rw [hopen] at hfirst
      have henter : enterCell env cell (onEnter c) m = (.error e, entered c env cell m) :=
        Prod.ext hfirst rfl
      rw [Comp.bind_of_error henter]

end Breaker

namespace Fiber
open Resilient
variable {P R E : Type} [DecidableEq P] [Inhabited R] {s : Fiber P R E}

/-- What has become of a dispatched work item when the consumer has left the loop. -/
structure Accounted (s : Fiber P R E) (ref : ℕ) : Prop where
  place : ref ∈ s.queue.delivered ∨ s.InCall ref ∨ s.Refused ref ∨ s.LeftBehind ref
  final : ∀ t, machine.Leads (fun _ => True) s t →
    (ref ∈ t.queue.delivered ↔ ref ∈ s.queue.delivered)
  silent : ∀ t, machine.Leads (fun _ => True) s t → t.items ref = s.items ref
  taken : machine.ReachableUnder LeavesAlone s → ¬ s.LeftBehind ref

theorem accounted_of_ended (hr : (machine : Machine (Fiber P R E) _).Reachable s)
    {cause : Ended (Exn E)} (hc : s.queue.consumer = .ended cause) {ref : ℕ}
    (href : s.Dispatched ref) : s.Accounted ref := by
  constructor
  · by_cases hdelivered : ref ∈ s.queue.delivered
    · exact .inl hdelivered
    · by_cases hexchanged : ref ∈ s.queue.exchanged
      · exact .inr (.inr (.inr ⟨hexchanged, hdelivered⟩))
      · rcases created_accounted hr href.pos href.created with hm | hcall | hcanceled
        · exact (hexchanged hm).elim
        · exact .inr (.inl hcall)
        · exact .inr (.inr (.inl ⟨hcanceled, hexchanged⟩))
  · intro t h
    rw [(delivered_of_ended hr hc h).2]
  · intro t h
    exact href.items hr h
  · rintro hguard ⟨hexchanged, hdelivered⟩
    apply hdelivered
    rw [(leftAlone_of_ended hguard hc).delivered]
    exact hexchanged

theorem leads_dispatched {p : P} (hp : s.queue.producers p ≠ .idle) :
    ∃ t, machine.Leads (· = .produce p) s t ∧
      (t.queue.producers p).dispatched = some (.ok ()) := by
  obtain ⟨q, hq, hrest, -⟩ := Blocking.leads_producer_atRest p s.queue
  obtain ⟨t, hlead, rfl, hbegun⟩ := leads_produce hq hp
  exact ⟨t, hlead, Producer.dispatched_of_atRest hrest hbegun⟩

/-- `Dispatch` over a fiber always returns and raises nothing. When the consumer has left
the loop, a dispatched delegate was executed, unless its call has not ended, or it was
refused, or it was left behind; it stays so, and nothing is told to anybody. None is left
behind if the dispatched delegates return and the consumer leaves alone. Over a breaker
the delegate runs if and only if the call is let in, and otherwise the answer is that of
the void open behaviour. -/
theorem dispatched_accounted {F Ty W Token : Type} {Val : Ty → Type} (c : Settings F Val)
    (env : Environment F W Token) (cell : ℕ) (continuation : Comp F (Memory ℕ Breaker W) Unit)
    (m : Memory ℕ Breaker W) (hr : (machine : Machine (Fiber P R E) _).Reachable s) :
    ((∀ p action t, machine.step s (dispatch p action) = some t →
        t.Dispatched s.created ∧ t.queue.producers p = .enter s.created) ∧
      (∀ p answer, (s.queue.producers p).dispatched = some answer → answer = .ok ()) ∧
      (∀ p, s.queue.producers p ≠ .idle → ∃ t, machine.Leads (· = .produce p) s t ∧
        (t.queue.producers p).dispatched = some (.ok ())) ∧
      ∀ cause, s.queue.consumer = .ended cause → ∀ ref, s.Dispatched ref → s.Accounted ref) ∧
    DispatcherAwaiter.onCompleted
        (Core.dispatcherAdapter env.none (circuitBreakerDispatcher c env cell)) continuation m =
      if LetsIn c (env.now m.outside).1 (m.cells cell)
        then noted c env cell (continuation (entered c env cell m))
        else (c.openBehaviour, entered c env cell m) := by
  refine ⟨⟨?_, ?_, ?_, ?_⟩, ?_⟩
  · intro p action t h
    exact dispatched_dispatch hr h
  · intro p answer h
    exact Producer.dispatched_ok h
  · intro p hp
    exact leads_dispatched hp
  · intro cause hc ref href
    exact accounted_of_ended hr hc href
  · split
    · rename_i hletsIn
      exact dispatch_letsIn hletsIn
    · rename_i hletsIn
      exact dispatch_not_letsIn hletsIn

instance {T : Type} : DecidablePred (Producer.Underway : Producer T → Prop) := fun pc =>
  inferInstanceAs (Decidable (pc.Signalling ∨ pc.Releasing))

instance [Fintype P] [DecidableEq E] (s : Fiber P R E) (a : FiberAct P R E) :
    Decidable (s.LeavesAlone a) :=
  match a with
  | .consume _ => inferInstanceAs (Decidable (s.queue.consumer = .waiting →
      s.queue.events.permits = 0 → s.queue.canceled = true →
      ∀ p, ¬ (s.queue.producers p).Underway))
  | .doItem => inferInstanceAs
      (Decidable (∀ ref ∈ s.queue.consumer.current, (s.items ref).job.thrown = none))
  | .enqueue _ _ | .resume _ _ | .produce _ | .finish _ | .exit | .disposeAsync | .cancel _
  | .callback _ => isTrue trivial

instance (job : Job R E) : Decidable (∃ outcome, job = .dispatchItem outcome) :=
  match job with
  | .dispatchItem outcome => isTrue ⟨outcome, rfl⟩
  | .workItem _ | .cancellableWorkItem _ _ | .asyncWorkItem _ _
  | .asyncCancellableWorkItem _ _ _ | .post _ => isFalse (by simp)

instance (s : Fiber P R E) (ref : ℕ) : Decidable (s.Dispatched ref) :=
  decidable_of_iff (0 < ref ∧ ref < s.created ∧ ∃ outcome, (s.items ref).job = .dispatchItem outcome)
    ⟨fun h => ⟨h.1, h.2.1, h.2.2⟩, fun h => ⟨h.pos, h.created, h.job⟩⟩

/-- `ReturnsWhenOpen` without a result to return. -/
def silentWhenOpen : Settings Unit fun _ : Unit => Unit where
  exceptionFilter _ := false
  openBehaviour := .ok ()
  openBehaviourReturn _ := .ok ()
  threshold := 1
  delay := 10

/-- A task is executed, the fiber is disposed, and the next task is dropped; so is a
continuation over a breaker that is half open. -/
theorem dispatched_accounted_dropped :
    ∃ s : Fiber Unit Unit Unit, s.queue.delivered = [1] ∧ s.Accounted 1 ∧ s.Accounted 2 ∧
      (s.queue.producers ()).dispatched = some (.ok ()) ∧
      DispatcherAwaiter.onCompleted (Core.dispatcherAdapter countingEnvironment.none
          (circuitBreakerDispatcher silentWhenOpen countingEnvironment 0))
        (fun m => (.ok (), { m with outside := 1 })) ⟨fun _ => { state := .halfOpen }, 0⟩ =
          (.ok (), entered silentWhenOpen countingEnvironment 0
            ⟨fun _ => { state := .halfOpen }, 0⟩) := by
  obtain ⟨s, hr, hc, h1, h2, hdelivered, hp⟩ := machine.exists_of_guarded_run LeavesAlone
    (p := fun s : Fiber Unit Unit Unit => s.queue.consumer = .ended .canceled ∧
      s.Dispatched 1 ∧ s.Dispatched 2 ∧ s.queue.delivered = [1] ∧
      s.queue.producers () = .canceled 2)
    (List.flatten [[queueTask ()], List.replicate 5 (.produce ()), [.finish ()],
      List.replicate 4 (.consume true), [.doItem], List.replicate 7 (.consume true),
      [.disposeAsync, .consume true], List.replicate 5 .exit, [queueTask (), .produce ()]])
    (by decide) (by decide)
  obtain ⟨⟨-, -, -, haccounted⟩, hbreaker⟩ := dispatched_accounted silentWhenOpen countingEnvironment
    0 (fun m => (.ok (), { m with outside := 1 })) ⟨fun _ => { state := .halfOpen }, 0⟩ hr.reachable
  refine ⟨s, hdelivered, haccounted _ hc 1 h1, haccounted _ hc 2 h2, ?_, hbreaker.trans ?_⟩
  · rw [hp]
    rfl
  · exact if_neg (by decide)

/-- The fiber is disposed, and the task queued then is dropped by a `QueueTask` that raises
nothing. -/
theorem queueTask_dropped :
    ¬ ∀ s : Fiber Unit Unit Unit, machine.Reachable s → s.phase = .finished →
      ∀ ref p, s.Dispatched ref → (s.queue.producers p).item = some ref →
        ref ∈ s.queue.delivered ∨ ∃ e, (s.queue.producers p).dispatched = some (.error e) := by
  intro h
  obtain ⟨s, hr, hphase, hdispatched, hdelivered, hp⟩ := machine.exists_of_run
    (p := fun s : Fiber Unit Unit Unit => s.phase = .finished ∧ s.Dispatched 1 ∧
      s.queue.delivered = [] ∧ s.queue.producers () = .canceled 1)
    (List.flatten [List.replicate 7 (.consume true), [.disposeAsync, .consume true],
      List.replicate 5 .exit, [queueTask (), .produce ()]])
    (by decide)
  rcases h s hr hphase 1 () hdispatched (by rw [hp]; rfl) with hm | ⟨e, he⟩
  · rw [hdelivered] at hm
    exact List.not_mem_nil hm
  · cases Producer.dispatched_ok he

end Fiber
end ComposableAsync.Concurrent
