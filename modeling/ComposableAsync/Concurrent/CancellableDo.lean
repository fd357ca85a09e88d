import ComposableAsync.Concurrent.WorkItem
import ComposableAsync.Foundations.Machine

/-!
# Cancelling a work item while it is done

One `CancellableWorkItem` or `AsyncCancellableWorkItem` with the thread that does it
and the thread that cancels its token. `Do` looks at the token, disposes the
registration and invokes the delegate; `Cancel` of the token source marks the token
and then runs the callback, unless the registration was disposed first.

The look at the token and the disposal are two steps. A callback that runs between
them cancels the task of a delegate that is invoked all the same.
-/
namespace ComposableAsync.Concurrent.CancellableDo
open Foundations

variable {R E : Type}

/-- Where the work item stands: to be constructed, in the queue, the token looked at,
the registration disposed, the delegate running, suspended, ended; `skipped` when the
delegate was not invoked. -/
inductive Doing where
  | absent | queued | checked | disposed | invoking | suspended | ended | skipped
  deriving DecidableEq, Repr

/-- Where the cancellation stands: the token is marked, the callback runs. -/
inductive Canceller where
  | idle | marked | running | finished
  deriving DecidableEq, Repr

structure State (R E : Type) where
  item : WorkItem R E
  requested : Bool := false
  doing : Doing := .absent
  canceller : Canceller := .idle

/-- A work item of one of the two classes. -/
structure CancellableJob (R E : Type) where
  job : Job R E
  token : Token
  registers : job.token = some token

/-- `drain` is the fiber that ends before it comes to the work item; `resume` ends the
operation that the delegate awaits. -/
inductive Act where
  | construct | consume | cancel | resume | drain
  deriving DecidableEq, Repr

/-- `_Do()` up to its next suspension, and what `Do` makes of its end. -/
def invoke (requested : Bool) (w : WorkItem R E) : WorkItem R E :=
  match w.job with
  | .cancellableWorkItem _ outcome => { w with source := w.source.complete outcome }
  | _ => w.segment fun _ => requested

namespace State

/-- The next step of `Do`. Disposing the registration waits for a callback that runs. -/
def consume (s : State R E) : Option (State R E) :=
  match s.doing with
  | .queued => some { s with doing := if s.requested then .skipped else .checked }
  | .checked =>
      if s.canceller = .running then none
      else some { s with doing := .disposed, item := { s.item with registration := none } }
  | .disposed => some { s with doing := .invoking }
  | .invoking => some { s with
      item := invoke s.requested s.item
      doing := if (invoke s.requested s.item).awaiting then .suspended else .ended }
  | .absent | .suspended | .ended | .skipped => none

/-- The next step of `Cancel` of the token source. -/
def cancel (s : State R E) : Option (State R E) :=
  match s.canceller with
  | .idle => some { s with requested := true, canceller := .marked }
  | .marked => some { s with
      canceller := if s.item.registration.isSome then .running else .finished }
  | .running => some { s with item := s.item.cancel, canceller := .finished }
  | .finished => none

def step (s : State R E) : Act → Option (State R E)
  | .construct =>
      if s.doing = .absent then
        some { s with doing := .queued, item := .create (fun _ => s.requested) s.item.job }
      else none
  | .consume => s.consume
  | .cancel => s.cancel
  | .resume =>
      if s.doing = .suspended then some { s with doing := .invoking, item := s.item.resume }
      else none
  | .drain =>
      if s.doing = .queued then some { s with doing := .skipped, item := s.item.cancel }
      else none

end State

def machine (job : CancellableJob R E) : Machine (State R E) Act :=
  ⟨{ item := { job := job.job } }, State.step⟩

/-- The callback does not start between the look at the token and the disposal of the
registration. -/
def NotBetween (s : State R E) : Act → Prop
  | .cancel => s.canceller = .marked → s.item.registration.isSome = true → s.doing ≠ .checked
  | .construct | .consume | .resume | .drain => True

/-- The delegate was called and has not ended. -/
def Invoking (s : State R E) : Prop := s.doing = .invoking ∨ s.doing = .suspended

/-- The delegate was called. -/
def Started (s : State R E) : Prop := Invoking s ∨ s.doing = .ended

variable {job : CancellableJob R E} {s t : State R E}

inductive Effect (s : State R E) : Act → State R E → Prop
  | construct : s.doing = .absent → Effect s .construct
      { s with doing := .queued, item := .create (fun _ => s.requested) s.item.job }
  | skip : s.doing = .queued → s.requested = true →
      Effect s .consume { s with doing := .skipped }
  | check : s.doing = .queued → s.requested = false →
      Effect s .consume { s with doing := .checked }
  | dispose : s.doing = .checked → s.canceller ≠ .running → Effect s .consume
      { s with doing := .disposed, item := { s.item with registration := none } }
  | call : s.doing = .disposed → Effect s .consume { s with doing := .invoking }
  | suspend : s.doing = .invoking → (invoke s.requested s.item).awaiting = true →
      Effect s .consume { s with item := invoke s.requested s.item, doing := .suspended }
  | finish : s.doing = .invoking → (invoke s.requested s.item).awaiting = false →
      Effect s .consume { s with item := invoke s.requested s.item, doing := .ended }
  | mark : s.canceller = .idle →
      Effect s .cancel { s with requested := true, canceller := .marked }
  | start : s.canceller = .marked → s.item.registration.isSome = true →
      Effect s .cancel { s with canceller := .running }
  | unregistered : s.canceller = .marked → s.item.registration = none →
      Effect s .cancel { s with canceller := .finished }
  | callback : s.canceller = .running →
      Effect s .cancel { s with item := s.item.cancel, canceller := .finished }
  | resume : s.doing = .suspended →
      Effect s .resume { s with doing := .invoking, item := s.item.resume }
  | drain : s.doing = .queued →
      Effect s .drain { s with doing := .skipped, item := s.item.cancel }

theorem consume_effect (h : s.consume = some t) : Effect s .consume t := by
  unfold State.consume at h
  cases hd : s.doing with
  | queued =>
      simp only [hd] at h
      by_cases hr : s.requested = true
      · rw [if_pos hr] at h
        cases h
        exact .skip hd hr
      · rw [if_neg hr] at h
        cases h
        exact .check hd (Bool.eq_false_iff.mpr hr)
  | checked =>
      simp only [hd] at h
      split at h <;> cases h
      exact .dispose hd ‹_›
  | disposed =>
      simp only [hd] at h
      cases h
      exact .call hd
  | invoking =>
      simp only [hd] at h
      by_cases ha : (invoke s.requested s.item).awaiting = true
      · rw [if_pos ha] at h
        cases h
        exact .suspend hd ha
      · rw [if_neg ha] at h
        cases h
        exact .finish hd (Bool.eq_false_iff.mpr ha)
  | absent | suspended | ended | skipped =>
      simp only [hd] at h
      cases h

theorem cancel_effect (h : s.cancel = some t) : Effect s .cancel t := by
  unfold State.cancel at h
  cases hc : s.canceller with
  | idle =>
      simp only [hc] at h
      cases h
      exact .mark hc
  | marked =>
      simp only [hc] at h
      by_cases hr : s.item.registration.isSome = true
      · rw [if_pos hr] at h
        cases h
        exact .start hc hr
      · rw [if_neg hr] at h
        cases h
        exact .unregistered hc (Option.not_isSome_iff_eq_none.mp hr)
  | running =>
      simp only [hc] at h
      cases h
      exact .callback hc
  | finished =>
      simp only [hc] at h
      cases h

theorem step_effect {a : Act} (h : (machine job).step s a = some t) : Effect s a t := by
  cases a with
  | construct =>
      change (if s.doing = .absent then some _ else none) = some t at h
      split at h <;> cases h
      exact .construct ‹_›
  | consume => exact consume_effect h
  | cancel => exact cancel_effect h
  | resume =>
      change (if s.doing = .suspended then some _ else none) = some t at h
      split at h <;> cases h
      exact .resume ‹_›
  | drain =>
      change (if s.doing = .queued then some _ else none) = some t at h
      split at h <;> cases h
      exact .drain ‹_›

/-- Past its look at the token and not yet at the end of the delegate. -/
def Underway (s : State R E) : Prop :=
  s.doing = .checked ∨ s.doing = .disposed ∨ Invoking s

/-- While the delegate is underway its task is pending and no callback runs: before the
look the token would be seen to be marked, after the disposal there is no callback. -/
structure Inv (s : State R E) : Prop where
  marked : s.canceller ≠ .idle → s.requested = true
  constructed : s.doing = .absent →
    s.item.source = .pending ∧ s.item.registration = none ∧ s.canceller ≠ .running
  queued : s.doing = .queued → s.item.source = .pending ∨ s.requested = true
  underway : Underway s → s.item.source = .pending ∧ s.canceller ≠ .running
  unregistered : s.doing = .disposed ∨ Invoking s → s.item.registration = none
  awaiting : s.doing = .suspended ∨ s.item.awaiting = false

theorem create_source (requested : Bool) (job : Job R E) :
    (WorkItem.create (fun _ => requested) job).source = .pending ∨ requested = true := by
  unfold WorkItem.create
  split
  · split
    · exact .inr ‹_›
    · exact .inl rfl
  · exact .inl rfl

theorem invoke_registration (requested : Bool) (w : WorkItem R E) :
    (invoke requested w).registration = w.registration := by
  unfold invoke
  split
  · rfl
  · exact segment_registration _ w

theorem invoke_suspended {requested : Bool} {w : WorkItem R E} (hw : w.awaiting = false)
    (h : (invoke requested w).awaiting = true) : (invoke requested w).source = w.source := by
  unfold invoke at h ⊢
  split at h
  · rw [hw] at h
    cases h
  · unfold WorkItem.segment at h ⊢
    split at h
    · unfold WorkItem.finish at h
      split at h <;> rw [hw] at h <;> cases h
    · rfl

theorem Inv.of_queued (hmarked : s.canceller ≠ .idle → s.requested = true)
    (hd : s.doing = .queued) (hsource : s.item.source = .pending ∨ s.requested = true)
    (hawaiting : s.item.awaiting = false) : Inv s where
  marked := hmarked
  constructed := by simp [hd]
  queued := fun _ => hsource
  underway := by simp [Underway, Invoking, hd]
  unregistered := by simp [Invoking, hd]
  awaiting := .inr hawaiting

theorem Inv.of_underway (hmarked : s.canceller ≠ .idle → s.requested = true) (hu : Underway s)
    (hpending : s.item.source = .pending) (hcallback : s.canceller ≠ .running)
    (hregistration : s.doing = .checked ∨ s.item.registration = none)
    (hawaiting : s.doing = .suspended ∨ s.item.awaiting = false) : Inv s where
  marked := hmarked
  constructed := by
    intro hd
    simp [Underway, Invoking, hd] at hu
  queued := fun _ => .inl hpending
  underway := fun _ => ⟨hpending, hcallback⟩
  unregistered := by
    intro hpast
    refine hregistration.resolve_left fun hd => ?_
    simp [Invoking, hd] at hpast
  awaiting := hawaiting

theorem Inv.of_over (hmarked : s.canceller ≠ .idle → s.requested = true)
    (hd : s.doing = .skipped ∨ s.doing = .ended) (hawaiting : s.item.awaiting = false) :
    Inv s where
  marked := hmarked
  constructed := by obtain hd | hd := hd <;> simp [hd]
  queued := by obtain hd | hd := hd <;> simp [hd]
  underway := by obtain hd | hd := hd <;> simp [Underway, Invoking, hd]
  unregistered := by obtain hd | hd := hd <;> simp [Invoking, hd]
  awaiting := .inr hawaiting

/-- The canceller may move on its own, to its callback only where no one would notice. -/
theorem Inv.canceller_moves {c : Canceller} {requested : Bool} (hi : Inv s)
    (hrequested : requested = true)
    (hrunning : c = .running → s.doing ≠ .absent ∧ ¬ Underway s) :
    Inv { s with requested := requested, canceller := c } where
  marked := fun _ => hrequested
  constructed := by
    intro hd
    obtain ⟨hpending, hregistration, -⟩ := hi.constructed hd
    exact ⟨hpending, hregistration, fun hc => (hrunning hc).1 hd⟩
  queued := fun _ => .inr hrequested
  underway := fun hu => ⟨(hi.underway hu).1, fun hc => (hrunning hc).2 hu⟩
  unregistered := hi.unregistered
  awaiting := hi.awaiting

/-- No callback is registered before the work item or after the disposal, so it starts
only before the look at the token or once `Do` is over. -/
theorem Inv.not_underway_of_registered (hi : Inv s)
    (hregistered : s.item.registration.isSome = true) (hd : s.doing ≠ .checked) :
    s.doing ≠ .absent ∧ ¬ Underway s := by
  constructor
  · intro habsent
    rw [(hi.constructed habsent).2.1] at hregistered
    cases hregistered
  · intro hu
    rw [hi.unregistered (hu.resolve_left hd)] at hregistered
    cases hregistered

theorem Inv.not_underway_of_running (hi : Inv s) (hc : s.canceller = .running) :
    s.doing ≠ .absent ∧ ¬ Underway s :=
  ⟨fun hd => (hi.constructed hd).2.2 hc, fun hu => (hi.underway hu).2 hc⟩

theorem Inv.not_suspended (hi : Inv s) (hd : s.doing ≠ .suspended) : s.item.awaiting = false :=
  hi.awaiting.resolve_left hd

theorem Inv.callback (hi : Inv s) (hc : s.canceller = .running) :
    Inv { s with item := s.item.cancel, canceller := .finished } where
  marked := fun _ => hi.marked (by simp [hc])
  constructed := fun hd => ((hi.not_underway_of_running hc).1 hd).elim
  queued := fun _ => .inr (hi.marked (by simp [hc]))
  underway := fun hu => ((hi.not_underway_of_running hc).2 hu).elim
  unregistered := fun hpast => ((hi.not_underway_of_running hc).2 (.inr hpast)).elim
  awaiting := by
    refine hi.awaiting.imp_right fun hawaiting => ?_
    rw [WorkItem.cancel_awaiting]
    exact hawaiting

theorem Inv.step {a : Act} (hi : Inv s) (ha : NotBetween s a)
    (h : (machine job).step s a = some t) : Inv t := by
  cases step_effect h with
  | construct hd =>
      exact .of_queued hi.marked rfl (create_source s.requested s.item.job)
        (WorkItem.create_awaiting (fun _ => s.requested) s.item.job)
  | skip hd hr => exact .of_over hi.marked (.inl rfl) (hi.not_suspended (by simp [hd]))
  | check hd hr =>
      have hnotRequested : ¬ s.requested = true := Bool.eq_false_iff.mp hr
      have hpending : s.item.source = .pending := (hi.queued hd).resolve_right hnotRequested
      have hidle : s.canceller = .idle := by
        by_contra hc
        exact hnotRequested (hi.marked hc)
      exact .of_underway hi.marked (.inl rfl) hpending (by simp [hidle]) (.inl rfl)
        (.inr (hi.not_suspended (by simp [hd])))
  | dispose hd hc =>
      exact .of_underway hi.marked (.inr (.inl rfl)) (hi.underway (.inl hd)).1 hc (.inr rfl)
        (.inr (hi.not_suspended (by simp [hd])))
  | call hd =>
      obtain ⟨hpending, hcallback⟩ := hi.underway (.inr (.inl hd))
      exact .of_underway hi.marked (.inr (.inr (.inl rfl))) hpending hcallback
        (.inr (hi.unregistered (.inl hd))) (.inr (hi.not_suspended (by simp [hd])))
  | suspend hd hw =>
      obtain ⟨hpending, hcallback⟩ := hi.underway (.inr (.inr (.inl hd)))
      have hsource := invoke_suspended (hi.not_suspended (by simp [hd])) hw
      have hregistration := invoke_registration s.requested s.item
      exact .of_underway hi.marked (.inr (.inr (.inr rfl))) (hsource.trans hpending) hcallback
        (.inr (hregistration.trans (hi.unregistered (.inr (.inl hd))))) (.inl rfl)
  | finish hd hw => exact .of_over hi.marked (.inr rfl) hw
  | mark hc => exact hi.canceller_moves rfl nofun
  | start hc hreg =>
      exact hi.canceller_moves (hi.marked (by simp [hc])) fun _ =>
        hi.not_underway_of_registered hreg (ha hc hreg)
  | unregistered hc hreg => exact hi.canceller_moves (hi.marked (by simp [hc])) nofun
  | callback hc => exact hi.callback hc
  | resume hd =>
      obtain ⟨hpending, hcallback⟩ := hi.underway (.inr (.inr (.inr hd)))
      exact .of_underway hi.marked (.inr (.inr (.inl rfl))) hpending hcallback
        (.inr (hi.unregistered (.inr (.inr hd)))) (.inr rfl)
  | drain hd =>
      refine .of_over hi.marked (.inl rfl) ?_
      rw [WorkItem.cancel_awaiting]
      exact hi.not_suspended (by simp [hd])

theorem inv_reachable (hr : (machine job).ReachableUnder NotBetween s) : Inv s := by
  apply hr.invariant (I := Inv)
  · constructor <;> simp [machine, Underway, Invoking]
  · intro s a t _ hi ha h
    exact hi.step ha h

/-- `Do` will find the token marked, or was never called. -/
def Doomed (s : State R E) : Prop :=
  s.doing = .queued ∧ s.requested = true ∨ s.doing = .skipped

theorem Doomed.not_started (hs : Doomed s) : ¬ Started s := by
  unfold Started Invoking
  obtain ⟨hd, -⟩ | hd := hs <;> simp [hd]

theorem Doomed.step {a : Act} (hs : Doomed s) (h : (machine job).step s a = some t) :
    Doomed t := by
  cases step_effect h <;> grind [Doomed]

theorem Inv.doomed (hi : Inv s) (hcancelled : s.item.source = .canceled) (hs : ¬ Started s) :
    Doomed s := by
  have hsource : s.item.source ≠ .pending := by
    rw [hcancelled]
    intro h
    cases h
  have hnot : ¬ Underway s := fun hu => hsource (hi.underway hu).1
  unfold Underway at hnot
  unfold Started at hs
  cases hd : s.doing with
  | absent => exact (hsource (hi.constructed hd).1).elim
  | queued => exact .inl ⟨hd, (hi.queued hd).resolve_left hsource⟩
  | skipped => exact .inr hd
  | checked | disposed => exact (hnot (by simp [hd])).elim
  | invoking | suspended | ended => exact (hs (by simp [hd, Invoking])).elim

/-- In every run in which the callback does not start between the look at the token and
the disposal of the registration: the task of a delegate that is being invoked is not
cancelled, and the delegate of a task cancelled before it was called is never called. -/
theorem cancelled_never_invoked (hr : (machine job).ReachableUnder NotBetween s) :
    (Invoking s → s.item.source ≠ .canceled) ∧
    (s.item.source = .canceled → ¬ Started s →
      ∀ t, (machine job).Leads (fun _ => True) s t → ¬ Started t) := by
  have hi : Inv s := inv_reachable hr
  constructor
  · intro hinvoking hcancelled
    have hpending : s.item.source = .pending := (hi.underway (.inr (.inr hinvoking))).1
    rw [hpending] at hcancelled
    cases hcancelled
  · intro hcancelled hs t hlead
    have hdoomed : Doomed t := hlead.invariant (I := Doomed) (hi.doomed hcancelled hs)
      fun _ _ _ hd _ h => hd.step h
    exact hdoomed.not_started

instance (s : State R E) (a : Act) : Decidable (NotBetween s a) :=
  match a with
  | .cancel => inferInstanceAs (Decidable (s.canceller = .marked →
      s.item.registration.isSome = true → s.doing ≠ .checked))
  | .construct | .consume | .resume | .drain => isTrue trivial

/-- The token is marked between the look and the disposal, the callback comes after. -/
theorem cancelled_never_invoked_marked :
    ∃ s : State Unit Unit, s.requested = true ∧ Invoking s ∧ s.item.source ≠ .canceled := by
  obtain ⟨s, hr, hrequested, hinvoking⟩ := (machine
      ⟨.cancellableWorkItem 0 (.ok ()), 0, rfl⟩ : Machine (State Unit Unit) Act).exists_of_guarded_run
    NotBetween (p := fun s => s.requested = true ∧ s.doing = .invoking)
    [.construct, .consume, .cancel, .consume, .cancel, .consume] (by decide) (by decide)
  exact ⟨s, hrequested, .inl hinvoking, (cancelled_never_invoked hr).1 (.inl hinvoking)⟩

/-- The callback runs between the look and the disposal. -/
theorem cancelled_and_invoked :
    ¬ ∀ (job : CancellableJob Unit Unit) (s : State Unit Unit), (machine job).Reachable s →
      Invoking s → s.item.source ≠ .canceled := by
  intro h
  obtain ⟨s, hr, hinvoking, hcancelled⟩ := (machine
      ⟨.cancellableWorkItem 0 (.ok ()), 0, rfl⟩ : Machine (State Unit Unit) Act).exists_of_run
    (p := fun s => s.doing = .invoking ∧ s.item.source = .canceled)
    [.construct, .consume, .cancel, .cancel, .cancel, .consume, .consume] (by decide)
  exact h _ s hr (.inl hinvoking) hcancelled

/-- Wherever a run would break the guard, the delegate can be invoked with its task
cancelled. -/
theorem invoked_of_between (hi : Inv s) (hd : s.doing = .checked) (hc : s.canceller = .marked)
    (hreg : s.item.registration.isSome = true) (hj : ∀ o, s.item.job ≠ .dispatchItem o) :
    ∃ t, (machine job).Leads (fun _ => True) s t ∧ Invoking t ∧ t.item.source = .canceled := by
  have hpending : s.item.source = .pending := (hi.underway (.inl hd)).1
  have hcancel : s.item.cancel.source = .canceled := by
    unfold WorkItem.cancel
    split
    · rename_i o ho
      exact (hj o ho).elim
    · simp only [hpending]
      rfl
  have hstart : (machine job).step s .cancel = some { s with canceller := .running } := by
    simp [machine, State.step, State.cancel, hc, hreg]
  refine ⟨{ s with
    item := { s.item.cancel with registration := none }
    canceller := .finished
    doing := .invoking }, ?_, .inl rfl, hcancel⟩
  apply Machine.Leads.trans (Machine.leads_single trivial hstart)
  apply Machine.Leads.trans (Machine.leads_single (a := .cancel) trivial rfl)
  apply Machine.Leads.trans (Machine.leads_single (a := .consume) trivial (t := { s with
    item := { s.item.cancel with registration := none }
    canceller := .finished
    doing := .disposed }) _)
  · exact Machine.leads_single (a := .consume) trivial rfl
  · simp [machine, State.step, State.consume, hd]

/-- The steps of `Do` in a row are `Do` of the work item. -/
theorem run_consume [Inhabited R] (hd : s.doing = .queued) (hc : s.canceller ≠ .running)
    {token : Token} (hj : s.item.job.token = some token) {items : ℕ → WorkItem R E} {ref : ℕ}
    (href : items ref = s.item) :
    ∃ k t, (machine job).run (List.replicate k .consume) s = some t ∧
      (Started t ∨ t.doing = .skipped) ∧
      t.item = (doItem (fun _ => s.requested) items ref).1 ref := by
  by_cases hrequested : s.requested = true
  · refine ⟨1, { s with doing := .skipped }, ?_, .inr rfl, ?_⟩
    · simp [Machine.run, machine, State.step, State.consume, hd, hrequested]
    · unfold doItem
      rw [href]
      cases hjob : s.item.job <;> rw [hjob] at hj <;> cases hj <;> simp [hrequested, href]
  · refine ⟨4, { s with
      item := invoke s.requested { s.item with registration := none }
      doing := if (invoke s.requested { s.item with registration := none }).awaiting
        then .suspended else .ended }, ?_, ?_, ?_⟩
    · simp [Machine.run, machine, State.step, State.consume, List.replicate, hd, hrequested, hc]
    · left
      unfold Started Invoking
      split <;> simp
    · unfold doItem
      rw [href]
      cases hjob : s.item.job <;> rw [hjob] at hj <;> cases hj <;>
        simp [hrequested, invoke, hjob]

end ComposableAsync.Concurrent.CancellableDo
