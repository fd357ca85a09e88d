import ComposableAsync.Concurrent.FiberOutcome
import ComposableAsync.Foundations.Linearization

/-!
# A fiber as an actor

What a fiber is for: its delegates may share a state without a lock. Here a delegate is a
function of that state. `Dispatch` and the `Enqueue` overloads for synchronous delegates,
with or without a token, put it into the queue; the consumer runs it on the state it finds
then, and gives the task its result or its exception.

Every history of calls and ended tasks is linearizable: the delegates take effect one
after another, in the order of their Exchange, each between its call and the end of its
task, and every task ends with what the delegate answers in that order.
-/
namespace ComposableAsync.Concurrent
open Foundations

/-- What a delegate does: it returns or throws, and changes the state. -/
abbrev Delegate (S R E : Type) := S → Except (Exn E) R × S

/-- The state of an actor takes one delegate after another. -/
def actorState {S R E : Type} : SequentialObject S (Delegate S R E) (Except (Exn E) R) :=
  fun delegate => delegate

/-- `Dispatch(Action)`, and the overloads of `Enqueue` for `Action` and `Func<T>`. -/
inductive EntryPoint where
  | dispatch
  | enqueue
  | enqueueWith (cancellationToken : Token)
  deriving DecidableEq, Repr

/-- The work item of the call. -/
def EntryPoint.job {R E : Type} (outcome : Except (Exn E) R) : EntryPoint → Job R E
  | .dispatch => .dispatchItem (outcome.map fun _ => ())
  | .enqueue => .workItem outcome
  | .enqueueWith token => .cancellableWorkItem token outcome

/-- `Do` invokes the delegate. -/
def Job.invokes {R E : Type} (requested : Token → Bool) : Job R E → Bool
  | .cancellableWorkItem token _ | .asyncCancellableWorkItem token _ _ => !requested token
  | .dispatchItem _ | .workItem _ | .asyncWorkItem _ _ | .post _ => true

section EntryPoint
variable {R E : Type} {entry : EntryPoint} {outcome o : Except (Exn E) R} {ref : ℕ}
variable {items : ℕ → WorkItem R E} {requested : Token → Bool}

theorem EntryPoint.withOutcome_job : (entry.job o).withOutcome outcome = entry.job outcome := by
  cases entry <;> rfl

theorem EntryPoint.job_ne_post (target : ℕ) : entry.job outcome ≠ .post target := by
  cases entry <;> simp [EntryPoint.job]

theorem EntryPoint.doItem_outcome [Inhabited R] (hj : (items ref).job = entry.job outcome)
    (ho : ((doItem requested items ref).1 ref).source.outcome = some o) :
    (items ref).source.outcome = some o ∨
      (items ref).job.invokes requested = true ∧ o = outcome := by
  have hcomplete : ∀ {w : WorkItem R E}, w.source = (items ref).source.complete outcome →
      (Function.update items ref w ref).source.outcome = some o →
        (items ref).source.outcome = some o ∨ o = outcome := by
    intro w hw h
    rw [Function.update_self, hw] at h
    exact (TaskStatus.outcome_complete h).imp_right And.right
  rw [hj]
  cases entry with
  | dispatch =>
      refine .inl ?_
      unfold doItem at ho
      rw [hj] at ho
      cases outcome <;> exact ho
  | enqueue =>
      unfold doItem at ho
      rw [hj] at ho
      exact (hcomplete rfl ho).imp_right fun h => ⟨rfl, h⟩
  | enqueueWith token =>
      unfold doItem at ho
      rw [hj] at ho
      simp only [EntryPoint.job] at ho
      split at ho
      · exact .inl ho
      · rename_i hreq
        exact (hcomplete (w := { items ref with
          registration := none, source := (items ref).source.complete outcome }) rfl ho).imp_right
            fun h => ⟨by simpa [EntryPoint.job, Job.invokes] using hreq, h⟩

end EntryPoint

/-- A fiber whose delegates share a state; `execution` has the state, and as history the
calls, the tasks that ended with an outcome and the delegates that ran. -/
structure FiberActor (S P R E : Type) where
  fiber : Fiber P R E := {}
  delegates : ℕ → Delegate S R E
  execution : Execution S ℕ (Delegate S R E) (Except (Exn E) R)

inductive ActorAct (S P R E : Type) where
  | call (p : P) (entry : EntryPoint) (delegate : Delegate S R E)
  | doItem
  | other (a : FiberAct P R E)

/-- The steps of the fiber that neither make a work item nor run one. -/
def FiberAct.IsOther {P R E : Type} : FiberAct P R E → Bool
  | .produce _ | .finish _ | .consume _ | .exit | .disposeAsync | .cancel _ | .callback _ => true
  | .enqueue _ _ | .resume _ _ | .doItem => false

namespace FiberActor
variable {S P R E : Type} [DecidableEq P] [Inhabited R]

/-- The history after `Do`. -/
def executed (s : FiberActor S P R E) (ref : ℕ) (invoked : Bool)
    (answer : Option (Except (Exn E) R)) : Execution S ℕ (Delegate S R E) (Except (Exn E) R) :=
  if invoked then
    (s.execution.committed actorState ref (s.delegates ref)).returned ref answer
  else s.execution

section Executed
variable (s : FiberActor S P R E) (ref : ℕ) (invoked : Bool) (answer : Option (Except (Exn E) R))

omit [DecidableEq P] [Inhabited R] in
theorem executed_history : ∃ more, (s.executed ref invoked answer).history =
    s.execution.history ++ more ∧ ∀ event ∈ more, ∃ o, event = .ret ref o := by
  unfold executed
  split
  · cases answer with
    | none => exact ⟨[], (List.append_nil _).symm, by simp⟩
    | some o => exact ⟨[.ret ref o], rfl, by simp⟩
  · exact ⟨[], (List.append_nil _).symm, by simp⟩

omit [DecidableEq P] [Inhabited R] in
theorem executed_operations : (s.executed ref invoked answer).operations =
    if invoked then s.execution.operations ++ [ref] else s.execution.operations := by
  unfold executed
  split
  · cases answer <;> exact List.map_append
  · rfl

end Executed

/-- A work item is made before its outcome is known; `Do` runs the delegate on the state
of the actor. -/
def step (s : FiberActor S P R E) : ActorAct S P R E → Option (FiberActor S P R E)
  | .call p entry delegate =>
      (s.fiber.step (.enqueue p (entry.job (.ok default)))).map fun fiber =>
        { fiber
          delegates := Function.update s.delegates s.fiber.created delegate
          execution := s.execution.called s.fiber.created delegate }
  | .doItem =>
      match s.fiber.queue.consumer with
      | .onItem ref =>
          let ready := s.fiber.withOutcome ref (s.delegates ref s.execution.state).1
          (ready.step .doItem).map fun fiber =>
            { s with
              fiber
              execution := s.executed ref ((ready.items ref).job.invokes s.fiber.requested)
                (fiber.items ref).source.outcome }
      | _ => none
  | .other a =>
      if a.IsOther then (s.fiber.step a).map fun fiber => { s with fiber } else none

def machine (init : S) : Machine (FiberActor S P R E) (ActorAct S P R E) where
  init := { delegates := fun _ state => (.ok default, state), execution := ⟨init, [], []⟩ }
  step := step

omit [DecidableEq P] [Inhabited R] in
/-- What the history knows of the work items. -/
structure Known (s : FiberActor S P R E) : Prop where
  called : ∀ ref, 0 < ref → ref < s.fiber.created →
    .call ref (s.delegates ref) ∈ s.execution.history
  created : ∀ ref delegate, .call ref delegate ∈ s.execution.history → ref < s.fiber.created
  jobs : ∀ ref, 0 < ref → ref < s.fiber.created → ∃ entry : EntryPoint, ∃ outcome,
    (s.fiber.items ref).job = entry.job outcome
  operations : ∀ ref ∈ s.execution.operations, ¬ s.fiber.NotDone ref
  outcomes : ∀ ref, ref < s.fiber.created → s.fiber.NotDone ref →
    (s.fiber.items ref).source.outcome = none
  ended : ∀ ref o, ref < s.fiber.created → (s.fiber.items ref).source.outcome = some o →
    .ret ref o ∈ s.execution.history
  follows : s.execution.operations.Sublist s.fiber.queue.delivered

/-- The fiber of an actor is a fiber. -/
structure Inv (s : FiberActor S P R E) : Prop where
  fiber : Fiber.machine.Reachable s.fiber
  known : s.Known

variable {init : S} {s t : FiberActor S P R E} {ref : ℕ}

theorem Known.follows_step (hi : s.Known) {a : FiberAct P R E} {fiber : Fiber P R E}
    (he : s.fiber.Effect a fiber) : s.execution.operations.Sublist fiber.queue.delivered := by
  refine hi.follows.trans ?_
  rcases he.delivered with hsame | ⟨c, -, -, hdelivered⟩
  · exact hsame ▸ List.Sublist.refl _
  · rw [hdelivered]
    exact List.sublist_append_left ..

theorem Known.other (hr : Fiber.machine.Reachable s.fiber) (hi : s.Known) {a : FiberAct P R E}
    (ha : a.IsOther = true) {fiber : Fiber P R E} (h : s.fiber.step a = some fiber) :
    ({ s with fiber } : FiberActor S P R E).Known := by
  have he := Fiber.step_effect hr h
  have hdo : a ≠ .doItem := by
    rintro rfl
    cases ha
  have hcreated : ∀ {ref}, ref < fiber.created → ref < s.fiber.created := by
    intro ref href
    rcases he.created_cases href with hold | ⟨-, hnew⟩
    · exact hold
    · obtain ⟨job, ⟨⟨p, rfl⟩, -⟩ | ⟨⟨p, target, rfl, -, -⟩, -⟩⟩ := he.created hnew <;> cases ha
  constructor
  · intro ref hpos href
    exact hi.called ref hpos (hcreated href)
  · intro ref delegate hm
    exact (hi.created ref delegate hm).trans_le he.created_le
  · intro ref hpos href
    obtain ⟨entry, outcome, hj⟩ := hi.jobs ref hpos (hcreated href)
    exact ⟨entry, outcome, (he.later (hcreated href)).job.trans hj⟩
  · intro ref hm hn
    exact hi.operations ref hm (he.notDone hr hn).1
  · intro ref href hn
    rw [he.outcome_kept hdo (hcreated href)]
    exact hi.outcomes ref (hcreated href) (he.notDone hr hn).1
  · intro ref o href ho
    rw [he.outcome_kept hdo (hcreated href)] at ho
    exact hi.ended ref o (hcreated href) ho
  · exact hi.follows_step he

theorem Known.call (hr : Fiber.machine.Reachable s.fiber) (hi : s.Known) {p : P}
    {entry : EntryPoint} {delegate : Delegate S R E} {fiber : Fiber P R E}
    (h : s.fiber.step (.enqueue p (entry.job (.ok default))) = some fiber) :
    ({ fiber
       delegates := Function.update s.delegates s.fiber.created delegate
       execution := s.execution.called s.fiber.created delegate } : FiberActor S P R E).Known := by
  have he := Fiber.step_effect hr h
  have hcreated : fiber.created = s.fiber.created + 1 := by
    cases he
    rfl
  have hitem : fiber.items s.fiber.created =
      WorkItem.create s.fiber.requested (entry.job (.ok default)) := by
    cases he
    exact Function.update_self ..
  have hcases : ∀ {ref}, ref < fiber.created → ref < s.fiber.created ∨ ref = s.fiber.created :=
    fun href => (he.created_cases href).imp_right And.left
  have hnone : (fiber.items s.fiber.created).source.outcome = none := by
    rw [hitem, WorkItem.create]
    split
    · split <;> rfl
    · rfl
  constructor
  · intro ref hpos href
    rcases hcases href with hold | rfl
    · refine List.mem_append_left _ ?_
      simp only [Function.update_of_ne (Nat.ne_of_lt hold)]
      exact hi.called ref hpos hold
    · refine List.mem_append_right _ ?_
      simp only [Function.update_self]
      exact List.mem_singleton_self _
  · intro ref d hm
    rcases List.mem_append.mp hm with hm | hm
    · exact (hi.created ref d hm).trans_le he.created_le
    · cases List.mem_singleton.mp hm
      exact hcreated ▸ Nat.lt_succ_self _
  · intro ref hpos href
    rcases hcases href with hold | rfl
    · obtain ⟨entry', outcome, hj⟩ := hi.jobs ref hpos hold
      exact ⟨entry', outcome, (he.later hold).job.trans hj⟩
    · exact ⟨entry, _, hitem ▸ WorkItem.create_job ..⟩
  · intro ref hm hn
    exact hi.operations ref hm (he.notDone hr hn).1
  · intro ref href hn
    rcases hcases href with hold | rfl
    · change (fiber.items ref).source.outcome = none
      rw [he.outcome_kept (by simp) hold]
      exact hi.outcomes ref hold (he.notDone hr hn).1
    · exact hnone
  · intro ref o href ho
    rcases hcases href with hold | rfl
    · rw [he.outcome_kept (by simp) hold] at ho
      exact List.mem_append_left _ (hi.ended ref o hold ho)
    · cases hnone.symm.trans ho
  · exact hi.follows_step he

theorem Inv.ready (hi : s.Inv) (hc : s.fiber.queue.consumer = .onItem ref)
    (outcome : Except (Exn E) R) : Fiber.machine.Reachable (s.fiber.withOutcome ref outcome) := by
  have hholds := Fiber.holdsRef_of_onItem hi.fiber hc
  exact Fiber.withOutcome_reachable hi.fiber (Fiber.holdsRef_pos hi.fiber hholds)
    (Fiber.lt_created hi.fiber hholds) (fun _ => hc) outcome

theorem Inv.not_operation (hi : s.Inv) (hc : s.fiber.queue.consumer = .onItem ref) :
    ref ∉ s.execution.operations := fun hm => hi.known.operations ref hm fun _ => hc

theorem Inv.answer (hi : s.Inv) (hc : s.fiber.queue.consumer = .onItem ref)
    {outcome o : Except (Exn E) R} {fiber : Fiber P R E}
    (h : (s.fiber.withOutcome ref outcome).step .doItem = some fiber)
    (ho : (fiber.items ref).source.outcome = some o) :
    ((s.fiber.withOutcome ref outcome).items ref).job.invokes s.fiber.requested = true ∧
      o = outcome := by
  have hholds := Fiber.holdsRef_of_onItem hi.fiber hc
  have hlt := Fiber.lt_created hi.fiber hholds
  obtain ⟨entry, o', hj⟩ := hi.known.jobs ref (Fiber.holdsRef_pos hi.fiber hholds) hlt
  have hready : ((s.fiber.withOutcome ref outcome).items ref).job = entry.job outcome := by
    simp only [Fiber.withOutcome, setOutcome_self, WorkItem.withOutcome, hj]
    exact EntryPoint.withOutcome_job
  have hitems : fiber.items =
      (Concurrent.doItem s.fiber.requested (s.fiber.withOutcome ref outcome).items ref).1 :=
    Fiber.items_of_doItem (hi.ready hc outcome) hc h
  rw [hitems] at ho
  refine (EntryPoint.doItem_outcome hready ho).resolve_left fun hold => ?_
  have hnone := hi.known.outcomes ref hlt fun _ => hc
  simp only [Fiber.withOutcome, setOutcome_self, WorkItem.withOutcome] at hold
  cases hnone.symm.trans hold

omit [DecidableEq P] [Inhabited R] in
theorem Known.jobs_withOutcome (hi : s.Known) (ref : ℕ) (outcome : Except (Exn E) R) :
    ∀ r, 0 < r → r < s.fiber.created → ∃ entry : EntryPoint, ∃ o,
      ((s.fiber.withOutcome ref outcome).items r).job = entry.job o := by
  intro r hpos hr
  obtain ⟨entry, o, hj⟩ := hi.jobs r hpos hr
  by_cases hrc : r = ref
  · subst hrc
    refine ⟨entry, outcome, ?_⟩
    simp only [Fiber.withOutcome, setOutcome_self, WorkItem.withOutcome, hj]
    exact EntryPoint.withOutcome_job
  · simp only [Fiber.withOutcome, setOutcome_of_ne hrc]
    exact ⟨entry, o, hj⟩

theorem Inv.doItem_other (hi : s.Inv) (hc : s.fiber.queue.consumer = .onItem ref)
    {outcome : Except (Exn E) R} {fiber : Fiber P R E}
    (h : (s.fiber.withOutcome ref outcome).step .doItem = some fiber) {r : ℕ} (hr : r ≠ ref) :
    fiber.items r = s.fiber.items r := by
  have hholds := Fiber.holdsRef_of_onItem hi.fiber hc
  obtain ⟨entry, o, hj⟩ := hi.known.jobs_withOutcome ref outcome ref
    (Fiber.holdsRef_pos hi.fiber hholds) (Fiber.lt_created hi.fiber hholds)
  have hnopost : ∀ target, ((s.fiber.withOutcome ref outcome).items ref).job ≠ .post target :=
    fun target ht => EntryPoint.job_ne_post target (hj.symm.trans ht)
  rw [Fiber.items_of_doItem (hi.ready hc outcome) hc h,
    Fiber.doItem_other hr fun target ht => (hnopost target ht).elim]
  exact setOutcome_of_ne hr

/-- The work item that runs is the last one delivered, so it comes after all that ran. -/
theorem Inv.follows_onItem (hi : s.Inv) (hc : s.fiber.queue.consumer = .onItem ref) :
    (s.execution.operations ++ [ref]).Sublist s.fiber.queue.delivered := by
  obtain ⟨before, hbefore⟩ := Fiber.delivered_concat hi.fiber hc
  have hfollows := hi.known.follows
  rw [hbefore] at hfollows ⊢
  obtain ⟨front, back, hsplit, hfront, hback⟩ := List.sublist_append_iff.mp hfollows
  rcases List.sublist_singleton.mp hback with rfl | rfl
  · rw [hsplit, List.append_nil]
    exact hfront.append (List.Sublist.refl _)
  · exact (hi.not_operation hc (by simp [hsplit])).elim

theorem Inv.doItem (hi : s.Inv) (hc : s.fiber.queue.consumer = .onItem ref)
    {outcome : Except (Exn E) R} {fiber : Fiber P R E}
    (h : (s.fiber.withOutcome ref outcome).step .doItem = some fiber) :
    ({ s with
       fiber
       execution := s.executed ref
         (((s.fiber.withOutcome ref outcome).items ref).job.invokes s.fiber.requested)
         (fiber.items ref).source.outcome } : FiberActor S P R E).Known := by
  have hready := hi.ready hc outcome
  have he := Fiber.step_effect hready h
  have hcreated : fiber.created = s.fiber.created := by
    cases he <;> rfl
  have hdelivered : fiber.queue.delivered = s.fiber.queue.delivered := by
    rcases he.delivered with hsame | ⟨c, hcon, -⟩
    · exact hsame
    · cases hc.symm.trans hcon
  obtain ⟨more, hhistory, hmore⟩ := s.executed_history ref
    (((s.fiber.withOutcome ref outcome).items ref).job.invokes s.fiber.requested)
    (fiber.items ref).source.outcome
  constructor
  · intro r hpos hr
    rw [hhistory]
    exact List.mem_append_left _ (hi.known.called r hpos (hcreated ▸ hr))
  · intro r delegate hm
    rw [hhistory] at hm
    rcases List.mem_append.mp hm with hm | hm
    · exact hcreated ▸ hi.known.created r delegate hm
    · obtain ⟨o, ho⟩ := hmore _ hm
      cases ho
  · intro r hpos hr
    obtain ⟨entry, o, hj⟩ := hi.known.jobs_withOutcome ref outcome r hpos (hcreated ▸ hr)
    exact ⟨entry, o, (he.later (hcreated ▸ hr)).job.trans hj⟩
  · intro r hm hn
    have hmem : r ∈ s.execution.operations ∨ r = ref := by
      rw [executed_operations] at hm
      split at hm
      · exact (List.mem_append.mp hm).imp_right List.mem_singleton.mp
      · exact .inl hm
    rcases hmem with hm | rfl
    · exact hi.known.operations r hm (he.notDone hready hn).1
    · exact he.done hready rfl hc hn
  · intro r hr hn
    have hne : r ≠ ref := by
      rintro rfl
      exact he.done hready rfl hc hn
    change (fiber.items r).source.outcome = none
    rw [hi.doItem_other hc h hne]
    exact hi.known.outcomes r (hcreated ▸ hr) (he.notDone hready hn).1
  · intro r o hr ho
    by_cases hne : r = ref
    · subst hne
      obtain ⟨hinvoked, -⟩ := hi.answer hc h ho
      have ho' : (fiber.items r).source.outcome = some o := ho
      simp only [executed, hinvoked, if_true, ho', Execution.returned]
      exact List.mem_append_right _ (List.mem_singleton_self _)
    · change (fiber.items r).source.outcome = some o at ho
      rw [hi.doItem_other hc h hne] at ho
      rw [hhistory]
      exact List.mem_append_left _ (hi.known.ended r o (hcreated ▸ hr) ho)
  · change (s.executed ref _ _).operations.Sublist fiber.queue.delivered
    rw [hdelivered, executed_operations]
    split
    · exact hi.follows_onItem hc
    · exact hi.known.follows

theorem inv_reachable (hr : (machine init : Machine (FiberActor S P R E) _).Reachable s) :
    s.Inv := by
  refine hr.invariant ⟨.init, ?_⟩ ?_
  · have hone : ∀ r, 0 < r → ¬ r < 1 := by omega
    constructor
    · intro r hpos hr
      exact (hone r hpos hr).elim
    · intro r delegate hm
      cases hm
    · intro r hpos hr
      exact (hone r hpos hr).elim
    · intro r hm
      cases hm
    · intro r _ _
      rfl
    · intro r o _ ho
      cases ho
    · exact List.Sublist.refl _
  · intro s a t _ hi h
    cases a with
    | call p entry delegate =>
        simp only [machine, step, Option.map_eq_some_iff] at h
        obtain ⟨fiber, hfiber, rfl⟩ := h
        exact ⟨hi.fiber.next (a := .enqueue p _) hfiber, hi.known.call hi.fiber hfiber⟩
    | doItem =>
        simp only [machine, step] at h
        split at h
        · rename_i ref hc
          obtain ⟨fiber, hfiber, rfl⟩ := Option.map_eq_some_iff.mp h
          exact ⟨(hi.ready hc _).next (a := .doItem) hfiber, hi.doItem hc hfiber⟩
        · cases h
    | other a =>
        simp only [machine, step] at h
        split at h
        · rename_i ha
          obtain ⟨fiber, hfiber, rfl⟩ := Option.map_eq_some_iff.mp h
          exact ⟨hi.fiber.next hfiber, hi.known.other hi.fiber ha hfiber⟩
        · cases h

end FiberActor
end ComposableAsync.Concurrent
