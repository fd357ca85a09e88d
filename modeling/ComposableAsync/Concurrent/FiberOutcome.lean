import ComposableAsync.Concurrent.FiberSegments

/-!
# The outcome of a delegate before it runs

In the model of the fiber a work item has the outcome of its delegate from the start. No
step looks at it before the delegate's own `Do`: a run in which the delegate has not run
yet is a run for any other outcome as well. So the outcome may just as well be found when
the delegate runs, from whatever state it runs on.
-/
namespace ComposableAsync.Concurrent
open Foundations

/-- The same work item around a delegate with another outcome, if its `Do` runs the
delegate to the end. -/
def Job.withOutcome {R E : Type} (outcome : Except (Exn E) R) : Job R E → Job R E
  | .dispatchItem _ => .dispatchItem (outcome.map fun _ => ())
  | .workItem _ => .workItem outcome
  | .cancellableWorkItem token _ => .cancellableWorkItem token outcome
  | .asyncWorkItem awaits o => .asyncWorkItem awaits o
  | .asyncCancellableWorkItem token awaits o => .asyncCancellableWorkItem token awaits o
  | .post target => .post target

def WorkItem.withOutcome {R E : Type} (outcome : Except (Exn E) R) (w : WorkItem R E) :
    WorkItem R E := { w with job := w.job.withOutcome outcome }

section WithOutcome
variable {R E : Type} {outcome : Except (Exn E) R} {w : WorkItem R E} {job : Job R E}

@[simp] theorem Job.isPublic_withOutcome : (job.withOutcome outcome).IsPublic = job.IsPublic := by
  cases job <;> rfl

@[simp] theorem WorkItem.withOutcome_awaiting : (w.withOutcome outcome).awaiting = w.awaiting := rfl

@[simp] theorem WorkItem.withOutcome_registration :
    (w.withOutcome outcome).registration = w.registration := rfl

theorem WorkItem.create_withOutcome (requested : Token → Bool) :
    create requested (job.withOutcome outcome) = (create requested job).withOutcome outcome := by
  have htoken : (job.withOutcome outcome).token = job.token := by
    cases job <;> rfl
  have hawaits : (job.withOutcome outcome).awaits = job.awaits := by
    cases job <;> rfl
  unfold create
  rw [htoken, hawaits]
  split
  · split <;> rfl
  · rfl

theorem WorkItem.cancel_withOutcome :
    (w.withOutcome outcome).cancel = w.cancel.withOutcome outcome := by
  obtain ⟨job, source, registration, awaits, awaiting⟩ := w
  cases job <;> rfl

theorem WorkItem.segment_withOutcome (requested : Token → Bool) :
    (w.withOutcome outcome).segment requested = (w.segment requested).withOutcome outcome := by
  obtain ⟨job, source, registration, awaits, awaiting⟩ := w
  cases awaits with
  | zero => cases job <;> rfl
  | succ k => cases job <;> rfl

end WithOutcome

section SetOutcome
variable {R E : Type} {items : ℕ → WorkItem R E} {ref c : ℕ} {outcome : Except (Exn E) R}

/-- The work items with another outcome of the delegate `ref`. -/
def setOutcome (items : ℕ → WorkItem R E) (ref : ℕ) (outcome : Except (Exn E) R) :
    ℕ → WorkItem R E := Function.update items ref ((items ref).withOutcome outcome)

@[simp] theorem setOutcome_self : setOutcome items ref outcome ref =
    (items ref).withOutcome outcome := Function.update_self ..

theorem setOutcome_of_ne (h : c ≠ ref) : setOutcome items ref outcome c = items c :=
  Function.update_of_ne h ..

@[simp] theorem setOutcome_awaiting :
    (setOutcome items ref outcome c).awaiting = (items c).awaiting := by
  by_cases hc : c = ref
  · rw [hc, setOutcome_self, WorkItem.withOutcome_awaiting]
  · rw [setOutcome_of_ne hc]

@[simp] theorem setOutcome_registration :
    (setOutcome items ref outcome c).registration = (items c).registration := by
  by_cases hc : c = ref
  · rw [hc, setOutcome_self, WorkItem.withOutcome_registration]
  · rw [setOutcome_of_ne hc]

theorem update_setOutcome {w w' : WorkItem R E} (hself : c = ref → w' = w.withOutcome outcome)
    (hother : c ≠ ref → w' = w) : Function.update (setOutcome items ref outcome) c w' =
      setOutcome (Function.update items c w) ref outcome := by
  by_cases hc : c = ref
  · subst hc
    rw [hself rfl]
    simp only [setOutcome, Function.update_idem, Function.update_self]
  · rw [hother hc]
    simp only [setOutcome, Function.update_of_ne (Ne.symm hc)]
    rw [Function.update_comm hc]

theorem update_map_setOutcome {f : WorkItem R E → WorkItem R E}
    (hf : ∀ w : WorkItem R E, f (w.withOutcome outcome) = (f w).withOutcome outcome) :
    Function.update (setOutcome items ref outcome) c (f (setOutcome items ref outcome c)) =
      setOutcome (Function.update items c (f (items c))) ref outcome := by
  apply update_setOutcome
  · rintro rfl
    rw [setOutcome_self]
    exact hf _
  · intro hc
    rw [setOutcome_of_ne hc]

variable [Inhabited R]

theorem doItem_setOutcome (requested : Token → Bool) (hc : c ≠ ref) :
    doItem requested (setOutcome items ref outcome) c =
      (setOutcome (doItem requested items c).1 ref outcome, (doItem requested items c).2) := by
  have hjob : setOutcome items ref outcome c = items c := setOutcome_of_ne hc
  have hset : ∀ w : WorkItem R E, Function.update (setOutcome items ref outcome) c w =
      setOutcome (Function.update items c w) ref outcome :=
    fun w => update_setOutcome (fun h => (hc h).elim) fun _ => rfl
  unfold doItem
  rw [hjob]
  split
  · rfl
  · rfl
  · rw [hset]
  · split
    · rfl
    · rw [hset]
  · rw [hset]
  · split
    · rfl
    · rw [hset]
  · rename_i target _
    have hresume : Function.update (setOutcome items ref outcome) target
        ((setOutcome items ref outcome target).segment requested) =
          setOutcome (Function.update items target ((items target).segment requested)) ref
            outcome :=
      update_map_setOutcome fun w => w.segment_withOutcome requested
    simp only [hresume]
    have hkept : ∀ xs : ℕ → WorkItem R E, setOutcome xs ref outcome c = xs c :=
      fun xs => setOutcome_of_ne hc
    rw [hkept]
    congr 1
    exact update_setOutcome (fun h => (hc h).elim) fun _ => rfl

end SetOutcome

namespace Fiber
variable {P R E : Type}

/-- The fiber with another outcome of the delegate `ref`. -/
def withOutcome (s : Fiber P R E) (ref : ℕ) (outcome : Except (Exn E) R) : Fiber P R E :=
  { s with items := setOutcome s.items ref outcome }

variable [DecidableEq P] [Inhabited R] {s t : Fiber P R E} {ref : ℕ} {outcome : Except (Exn E) R}

omit [Inhabited R] in
theorem submit_withOutcome (href : ref < s.created) {p : P} {job : Job R E}
    (h : s.submit p job = some t) :
    (s.withOutcome ref outcome).submit p job = some (t.withOutcome ref outcome) := by
  obtain ⟨q, hq, rfl⟩ := submit_eq h
  simp only [submit, withOutcome, hq, Option.map_some, Option.some.injEq, Fiber.mk.injEq,
    true_and, and_true]
  exact update_setOutcome (fun h => (Nat.ne_of_gt href h).elim) fun _ => rfl

omit [Inhabited R] in
theorem exitStep_withOutcome (h : s.exitStep = some t) :
    (s.withOutcome ref outcome).exitStep = some (t.withOutcome ref outcome) := by
  simp only [exitStep] at h ⊢
  cases hphase : s.phase with
  | onElements =>
      simp only [hphase, withOutcome] at h ⊢
      split at h <;> cases h <;> simp_all
  | getUnsafeQueue node =>
      simp only [hphase, withOutcome] at h ⊢
      split at h
      · rename_i next hnext
        cases h
        simp only [Option.some.injEq, Fiber.mk.injEq, true_and, and_true]
        exact update_map_setOutcome fun w => w.cancel_withOutcome
      · rename_i hnext
        cases h
        rfl
  | disposeSource | disposeSemaphore =>
      simp only [hphase, withOutcome, Option.map_eq_some_iff] at h ⊢
      obtain ⟨q, hq, rfl⟩ := h
      exact ⟨q, hq, rfl⟩
  | endFiber =>
      simp only [hphase, withOutcome] at h ⊢
      cases h
      rfl
  | finished | unhandled =>
      simp only [hphase] at h
      cases h

/-- No step but the delegate's own `Do` looks at its outcome. -/
theorem step_withOutcome (href : ref < s.created) {a : FiberAct P R E} (h : s.step a = some t)
    (hdo : a = .doItem → s.queue.consumer ≠ .onItem ref) :
    (s.withOutcome ref outcome).step a = some (t.withOutcome ref outcome) := by
  cases a with
  | enqueue p job =>
      simp only [step] at h ⊢
      split at h
      · rename_i hjob
        rw [if_pos hjob]
        exact submit_withOutcome href h
      · cases h
  | resume p target =>
      simp only [step] at h ⊢
      split at h
      · rename_i hawaiting
        have hawaiting' : ((s.withOutcome ref outcome).items target).awaiting = true :=
          setOutcome_awaiting.trans hawaiting
        rw [if_pos hawaiting']
        have hresume : (s.withOutcome ref outcome).setItem target
            ((s.withOutcome ref outcome).items target).resume =
              (s.setItem target (s.items target).resume).withOutcome ref outcome := by
          simp only [setItem, withOutcome, Fiber.mk.injEq, true_and, and_true]
          exact update_map_setOutcome fun w => rfl
        rw [hresume]
        exact submit_withOutcome (s := s.setItem target (s.items target).resume) href h
      · cases h
  | produce p | finish p | consume yields | disposeAsync =>
      simp only [step, Option.map_eq_some_iff] at h
      obtain ⟨q, hq, rfl⟩ := h
      simp only [step, withOutcome, hq, Option.map_some]
  | doItem =>
      simp only [step] at h
      split at h
      · rename_i c hc
        have hne : c ≠ ref := fun heq => hdo rfl (heq ▸ hc)
        split at h
        · rename_i items hitems
          simp only [Option.map_eq_some_iff] at h
          obtain ⟨q, hq, rfl⟩ := h
          simp only [step, withOutcome, hc, doItem_setOutcome s.requested hne, hitems, hq,
            Option.map_some]
        · rename_i items e hitems
          simp only [Option.map_eq_some_iff] at h
          obtain ⟨q, hq, rfl⟩ := h
          simp only [step, withOutcome, hc, doItem_setOutcome s.requested hne, hitems, hq,
            Option.map_some]
      · cases h
  | exit => exact exitStep_withOutcome h
  | cancel token =>
      cases h
      rfl
  | callback c =>
      simp only [step] at h ⊢
      have hreg : ((s.withOutcome ref outcome).items c).registration =
          (s.items c).registration := setOutcome_registration
      rw [hreg]
      split at h
      · rename_i token htoken
        split at h
        · rename_i hreq
          cases h
          have hitems : Function.update (setOutcome s.items ref outcome) c
              { (setOutcome s.items ref outcome c).cancel with registration := none } =
                setOutcome (Function.update s.items c
                  { (s.items c).cancel with registration := none }) ref outcome := by
            refine update_map_setOutcome (f := fun w => { w.cancel with registration := none }) ?_
            intro w
            rw [WorkItem.cancel_withOutcome]
            rfl
          have hreq' : (s.withOutcome ref outcome).requested token = true := hreq
          rw [if_pos hreq']
          simp only [withOutcome, setItem, hitems]
        · cases h
      · cases h

/-- So a run in which the delegate has not run might as well have been one in which it was
going to have another outcome. -/
theorem withOutcome_reachable (hr : (machine : Machine (Fiber P R E) _).Reachable s)
    (hpos : 0 < ref) (href : ref < s.created) (hn : s.NotDone ref) (outcome : Except (Exn E) R) :
    machine.Reachable (s.withOutcome ref outcome) := by
  revert href hn
  refine hr.invariant (I := fun s => ref < s.created → s.NotDone ref →
    machine.Reachable (s.withOutcome ref outcome)) ?_ ?_
  · intro href _
    have hlt : ref < 1 := href
    omega
  · intro s a t hr hi h href hn
    have he := step_effect hr h
    obtain ⟨hn', hdo⟩ := he.notDone hr hn
    rcases he.created_cases href with hold | ⟨rfl, hcreated⟩
    · exact (hi hold hn').next (step_withOutcome hold h hdo)
    · -- the work item is made with the other outcome
      obtain ⟨job, ⟨⟨p, rfl⟩, -⟩ | ⟨⟨p, target, rfl, -, -⟩, -⟩⟩ := he.created hcreated
      · refine hr.next (a := .enqueue p (job.withOutcome outcome)) ?_
        simp only [machine, step] at h ⊢
        split at h
        · rename_i hjob
          obtain ⟨q, hq, rfl⟩ := submit_eq h
          rw [Job.isPublic_withOutcome, if_pos hjob]
          simp only [submit, hq, Option.map_some, withOutcome, setOutcome, Function.update_self,
            Function.update_idem, WorkItem.create_withOutcome]
        · cases h
      · have hr' := hr.next h
        simp only [machine, step] at h
        split at h
        · obtain ⟨q, hq, rfl⟩ := submit_eq h
          have hpost : (WorkItem.create s.requested (.post target : Job R E)).withOutcome outcome =
              WorkItem.create s.requested (.post target) := by
            rw [← WorkItem.create_withOutcome]
            rfl
          have hitems : ∀ xs : ℕ → WorkItem R E,
              setOutcome (Function.update xs s.created (WorkItem.create s.requested (.post target)))
                s.created outcome =
              Function.update xs s.created (WorkItem.create s.requested (.post target)) := by
            intro xs
            rw [setOutcome, Function.update_self, hpost, Function.update_idem]
          simp only [setItem] at hr'
          simp only [withOutcome, setItem, hitems]
          exact hr'
        · cases h

theorem holdsRef_pos (hr : (machine : Machine (Fiber P R E) _).Reachable s)
    (h : s.HoldsRef ref) : 0 < ref := by
  revert ref
  refine hr.invariant (I := fun s => ∀ {ref}, s.HoldsRef ref → 0 < ref) ?_ ?_
  · rintro ref (⟨p, hp⟩ | hm)
    · cases hp
    · cases hm
  · intro s a t hr hi h ref hm
    rcases (step_effect hr h).holdsRef hm with hm | ⟨rfl, -⟩
    · exact hi hm
    · exact created_pos hr

theorem delivered_concat (hr : (machine : Machine (Fiber P R E) _).Reachable s)
    (hc : s.queue.consumer = .onItem ref) : ∃ before, s.queue.delivered = before ++ [ref] := by
  revert ref
  refine hr.invariant (I := fun s => ∀ {ref}, s.queue.consumer = .onItem ref →
    ∃ before, s.queue.delivered = before ++ [ref]) (fun h => by cases h) ?_
  intro s a t hr hi h ref hc
  cases (step_effect hr h).consumer with
  | stays hconsumer hdelivered _ =>
      rw [hdelivered]
      exact hi (hconsumer.symm.trans hc)
  | moves yields _ hmove _ =>
      cases hmove with
      | loop _ hloop =>
          rw [hc] at hloop
          exact hloop.elim
      | take _ _ ht | leave _ _ _ ht => cases ht.symm.trans hc
      | hand item _ ht _ hdelivered =>
          cases ht.symm.trans hc
          exact ⟨_, hdelivered⟩
  | returns _ _ _ _ ht | throws _ _ _ _ _ ht => cases ht.symm.trans hc

theorem items_of_doItem (hr : (machine : Machine (Fiber P R E) _).Reachable s)
    (hc : s.queue.consumer = .onItem ref) (h : s.step .doItem = some t) :
    t.items = (doItem s.requested s.items ref).1 := by
  cases step_effect hr h with
  | doItem c q hc' | throw c e q hc' =>
      cases hc.symm.trans hc'
      rfl

theorem Effect.outcome_kept {a : FiberAct P R E} (h : s.Effect a t) (ha : a ≠ .doItem)
    (href : ref < s.created) :
    (t.items ref).source.outcome = (s.items ref).source.outcome := by
  have hne : ref ≠ s.created := Nat.ne_of_lt href
  have hset : ∀ {w : WorkItem R E} {x : ℕ}, w.source.outcome = (s.items x).source.outcome →
      (Function.update s.items x w ref).source.outcome = (s.items ref).source.outcome := by
    intro w x hw
    by_cases hx : ref = x
    · subst hx
      rw [Function.update_self, hw]
    · rw [Function.update_of_ne hx]
  cases h with
  | enqueue p job q => simp only [Function.update_of_ne hne]
  | resume p target q =>
      simp only [Function.update_of_ne hne]
      exact hset (w := (s.items target).resume) rfl
  | doItem | throw => exact (ha rfl).elim
  | exit t hexit =>
      cases hexit with
      | cancel node next => exact hset (WorkItem.cancel_outcome _)
      | drain | unhandled | drained | disposeSource | disposeSemaphore | endFiber => rfl
  | callback c token =>
      exact hset (w := { (s.items c).cancel with registration := none })
        (WorkItem.cancel_outcome _)
  | produce | finish | consume | disposeAsync | cancel => rfl

end Fiber

end ComposableAsync.Concurrent
