import ComposableAsync.Concurrent.FiberShutdown

/-!
# The continuations of asynchronous work items

A suspended delegate goes on when the operation it awaits has ended: the thread
that ended it calls `Post`, and `Post` enqueues a work item that resumes the
delegate. `Post` drops the task `Enqueue` gives it. So a continuation that is
refused, or that the consumer never reaches because it left `OnElements`, is
gone, and the `Task` of the work item it belongs to stays pending. While neither
happens, every started work item is on its way.
-/
namespace ComposableAsync.Concurrent
open Foundations

/-- The item of a producer about to check the token. -/
def Producer.entering {T : Type} : Producer T → Option T
  | .enter item => some item
  | _ => none

/-- The item of a producer past the check and before its Exchange. -/
def Producer.accepted {T : Type} : Producer T → Option T
  | .create item | .exchange item _ => some item
  | _ => none

namespace Producer.Move
variable {T : Type} {canceled : Bool} {pc pc' : Producer T} {added : List T} {item : T}

theorem entering (h : Producer.Move canceled pc pc' added) (hp : pc.entering = some item) :
    canceled = true ∨ pc'.accepted = some item := by
  cases h with
  | refuse _ hcanceled => exact .inl hcanceled
  | pass _ _ => exact .inr hp
  | _ => cases hp

theorem accepted (h : Producer.Move canceled pc pc' added) (hp : pc.accepted = some item) :
    pc'.accepted = some item ∨ item ∈ added := by
  cases h with
  | create _ _ => exact .inl hp
  | exchange _ _ _ =>
      cases hp
      exact .inr (List.mem_singleton_self _)
  | _ => cases hp

end Producer.Move

namespace Fiber
variable {P R E : Type}

/-- The delegate `ref` can be resumed by the work item `c`, which is being
posted, waits in the queue of a running consumer, or is being executed. -/
structure Resumption (s : Fiber P R E) (c ref : ℕ) : Prop where
  job : (s.items c).job = .post ref
  place : (∃ p, (s.queue.producers p).entering = some c) ∨
    s.queue.consumer.isEnded = false ∧
      ((∃ p, (s.queue.producers p).accepted = some c) ∨ c ∈ s.queue.pending ∨
        s.queue.consumer.current = some c)

/-- The delegate is suspended on an operation that has not ended, or has its
resumption. -/
def Suspended (s : Fiber P R E) (ref : ℕ) : Prop :=
  (s.items ref).awaiting = true ∨ ∃ c, s.Resumption c ref

/-- A started work item is completed, running, or suspended with the means to go
on. -/
def OnItsWay (s : Fiber P R E) (ref : ℕ) : Prop :=
  s.Settled ref ∨ s.queue.consumer = .onItem ref ∨ s.Suspended ref

/-- No continuation is between its check and its `Do`. -/
def ResumptionFree (s : Fiber P R E) : Prop :=
  (∀ c ∈ s.queue.pending, (s.items c).job.IsPublic = true) ∧
    ∀ p, ∀ c ∈ (s.queue.producers p).accepted, (s.items c).job.IsPublic = true

/-- A continuation finds the token not cancelled and the consumer running, and
the consumer does not leave `OnElements` with a continuation on its way. -/
def KeepsResumptions (s : Fiber P R E) : FiberAct P R E → Prop
  | .produce p => ∀ c ∈ (s.queue.producers p).entering, (s.items c).job.IsPublic = false →
      s.queue.canceled = false ∧ s.queue.consumer.isEnded = false
  | .consume _ => s.queue.consumer = .waiting → s.queue.events.permits = 0 → s.ResumptionFree
  | .doItem => ∀ ref ∈ s.queue.consumer.current, (s.items ref).job.thrown ≠ none →
      s.ResumptionFree
  | _ => True

instance [Fintype P] (s : Fiber P R E) : Decidable s.ResumptionFree :=
  inferInstanceAs (Decidable (_ ∧ _))

instance [Fintype P] [DecidableEq E] (s : Fiber P R E) : DecidablePred s.KeepsResumptions
  | .produce p => inferInstanceAs (Decidable (∀ c ∈ (s.queue.producers p).entering,
      (s.items c).job.IsPublic = false →
        s.queue.canceled = false ∧ s.queue.consumer.isEnded = false))
  | .consume _ => inferInstanceAs (Decidable (s.queue.consumer = .waiting →
      s.queue.events.permits = 0 → s.ResumptionFree))
  | .doItem => inferInstanceAs (Decidable (∀ ref ∈ s.queue.consumer.current,
      (s.items ref).job.thrown ≠ none → s.ResumptionFree))
  | .enqueue _ _ | .resume _ _ | .finish _ | .exit | .disposeAsync | .cancel _ | .callback _ =>
      isTrue trivial

variable [DecidableEq P] {s t : Fiber P R E} {c ref : ℕ}

theorem Resumption.holdsRef [Inhabited R]
    (hr : (machine : Machine (Fiber P R E) _).Reachable s) (h : s.Resumption c ref) :
    s.HoldsRef c := by
  have hall := Blocking.exchanged_eq (queue_reachable hr)
  rcases h.place with ⟨p, hp⟩ | ⟨-, ⟨p, hp⟩ | hm | hc⟩
  · refine .inl ⟨p, ?_⟩
    cases hpc : s.queue.producers p <;> simp_all [Producer.entering, Producer.item]
  · refine .inl ⟨p, ?_⟩
    cases hpc : s.queue.producers p <;> simp_all [Producer.accepted, Producer.item]
  · right
    rw [hall]
    exact List.mem_append_right _ hm
  · right
    cases hcons : s.queue.consumer with
    | handing item =>
        rw [hcons] at hc
        cases hc
        rw [hall, hcons]
        simp [Consumer.inHand]
    | onItem item =>
        rw [hcons] at hc
        cases hc
        exact delivered_exchanged hr (Blocking.mem_of_onItem (queue_reachable hr) hcons)
    | _ =>
        rw [hcons] at hc
        cases hc

omit [DecidableEq P] in
theorem ResumptionFree.absurd (hf : s.ResumptionFree) (hj : (s.items c).job = .post ref)
    (h : (∃ p, (s.queue.producers p).accepted = some c) ∨ c ∈ s.queue.pending) : False := by
  have hpublic : (s.items c).job.IsPublic = true := by
    rcases h with ⟨p, hp⟩ | hm
    · exact hf.2 p c hp
    · exact hf.1 c hm
  rw [hj] at hpublic
  cases hpublic

variable [Inhabited R]

theorem Effect.pending (hr : (machine : Machine (Fiber P R E) _).Reachable s)
    {a : FiberAct P R E} (he : s.Effect a t) (hm : c ∈ s.queue.pending) :
    c ∈ t.queue.pending ∨ t.queue.consumer.current = some c := by
  have hended : ∀ {pc : Consumer ℕ (Exn E)}, pc.inHand = none → t.queue.consumer.inHand = none →
      s.queue.consumer = pc → t.queue.delivered = s.queue.delivered →
      t.queue.exchanged = s.queue.exchanged → c ∈ t.queue.pending := by
    intro pc hpc ht hs hdelivered hexchanged
    rw [Blocking.pending, hdelivered, hexchanged, ht, ← hpc, ← hs]
    exact hm
  cases he.consumer with
  | stays hconsumer hdelivered _ =>
      obtain ⟨added, hexchanged⟩ := he.exchanged_prefix
      rw [Blocking.pending_append (queue_reachable hr) hconsumer hdelivered hexchanged.symm]
      exact .inl (List.mem_append_left _ hm)
  | moves yields _ hmove _ =>
      cases hmove with
      | loop _ _ hpending | hand _ _ _ hpending | leave _ _ _ _ hpending =>
          rw [hpending]
          exact .inl hm
      | take item _ ht hpending =>
          rw [hpending] at hm
          rw [ht]
          rcases List.mem_cons.mp hm with rfl | hm
          · exact .inr rfl
          · exact .inl hm
  | returns r _ hs _ ht hdelivered hexchanged | throws r e _ hs _ ht hdelivered hexchanged =>
      refine .inl (hended rfl ?_ hs hdelivered hexchanged)
      rw [ht]
      rfl

theorem Effect.current {a : FiberAct P R E} (he : s.Effect a t)
    (hc : s.queue.consumer.current = some c) :
    t.queue.consumer.current = some c ∨
      s.queue.consumer = .onItem c ∧ t.items = (Concurrent.doItem s.requested s.items c).1 := by
  cases he.consumer with
  | stays hconsumer _ _ =>
      rw [hconsumer]
      exact .inl hc
  | moves yields _ hmove _ =>
      cases hmove with
      | loop hs =>
          rw [hs.current] at hc
          cases hc
      | take _ hs | leave hs =>
          rw [hs] at hc
          cases hc
      | hand item hs ht =>
          rw [hs] at hc
          rw [ht]
          exact .inl hc
  | returns r _ hs _ _ _ _ hitems | throws r e _ hs _ _ _ _ hitems =>
      rw [hs] at hc
      cases hc
      exact .inr ⟨hs, hitems⟩

/-- The consumer does not leave before a continuation that is on its way. -/
theorem Resumption.running (h : s.Resumption c ref) {a : FiberAct P R E}
    (hg : s.KeepsResumptions a) (he : s.Effect a t)
    (hrunning : s.queue.consumer.isEnded = false)
    (hplace : (∃ p, (s.queue.producers p).accepted = some c) ∨ c ∈ s.queue.pending ∨
      s.queue.consumer.current = some c) : t.queue.consumer.isEnded = false := by
  have hnot : s.ResumptionFree → s.queue.consumer.current = some c := by
    intro hfree
    rcases hplace with hp | hm | hcur
    · exact (hfree.absurd h.job (.inl hp)).elim
    · exact (hfree.absurd h.job (.inr hm)).elim
    · exact hcur
  cases hc : t.queue.consumer with
  | ended cause =>
      rcases he.ended hc with hold | ⟨⟨yields, rfl⟩, hs, hpermits, -⟩ |
        ⟨rfl, r, e, hs, hthrown, -⟩
      · rw [hold] at hrunning
        exact hrunning
      · have hcur := hnot (hg hs hpermits)
        rw [hs] at hcur
        cases hcur
      · have hcur := hnot (hg r (by rw [hs]; rfl) (by rw [hthrown]; exact Option.some_ne_none e))
        rw [hs] at hcur
        cases hcur
        rw [h.job] at hthrown
        cases hthrown
  | _ => rfl

/-- A resumption goes from the producer through the queue to its `Do`. -/
theorem Resumption.step (hr : (machine : Machine (Fiber P R E) _).Reachable s)
    (h : s.Resumption c ref) {a : FiberAct P R E} (hg : s.KeepsResumptions a)
    (he : s.Effect a t) :
    t.Resumption c ref ∨
      s.queue.consumer = .onItem c ∧ t.items = (Concurrent.doItem s.requested s.items c).1 := by
  have hjob : (t.items c).job = .post ref :=
    (he.later (lt_created hr (h.holdsRef hr))).job.trans h.job
  have hpublic : (s.items c).job.IsPublic = false := by
    rw [h.job]
    rfl
  rcases h.place with ⟨p, hp⟩ | ⟨hrunning, hplace⟩
  · left
    cases he.producer p with
    | stays hstays => exact ⟨hjob, .inl ⟨p, by rw [hstays, hp]⟩⟩
    | begins hidle _ _ =>
        rw [hidle] at hp
        cases hp
    | moves added ha hmove _ =>
        -- the check finds the token not cancelled and the consumer running
        subst ha
        obtain ⟨hcanceled, hrunning⟩ := hg c hp hpublic
        rcases hmove.entering hp with hcanceled' | haccepted
        · cases hcanceled.symm.trans hcanceled'
        · refine ⟨hjob, .inr ⟨?_, .inl ⟨p, haccepted⟩⟩⟩
          rw [he.consumer_produce.1]
          exact hrunning
    | ends _ hended _ =>
        rcases hended with ⟨r, hs | hs | ⟨e, hs⟩⟩ <;>
        · rw [hs] at hp
          cases hp
  · have hrunning' := h.running hg he hrunning hplace
    rcases hplace with ⟨p, hp⟩ | hm | hcur
    · left
      cases he.producer p with
      | stays hstays => exact ⟨hjob, .inr ⟨hrunning', .inl ⟨p, by rw [hstays, hp]⟩⟩⟩
      | begins hidle _ _ =>
          rw [hidle] at hp
          cases hp
      | moves added ha hmove hexchanged =>
          subst ha
          rcases hmove.accepted hp with haccepted | hadded
          · exact ⟨hjob, .inr ⟨hrunning', .inl ⟨p, haccepted⟩⟩⟩
          · refine ⟨hjob, .inr ⟨hrunning', .inr (.inl ?_)⟩⟩
            obtain ⟨hconsumer, hdelivered⟩ := he.consumer_produce
            rw [Blocking.pending_append (queue_reachable hr) hconsumer hdelivered hexchanged]
            exact List.mem_append_right _ hadded
      | ends _ hended _ =>
          rcases hended with ⟨r, hs | hs | ⟨e, hs⟩⟩ <;>
          · rw [hs] at hp
            cases hp
    · exact .inl ⟨hjob, .inr ⟨hrunning', .inr (he.pending hr hm)⟩⟩
    · rcases he.current hcur with hcur | hdo
      · exact .inl ⟨hjob, .inr ⟨hrunning', .inr (.inr hcur)⟩⟩
      · exact .inr hdo

/-- Only the end of the awaited operation wakes a delegate, and it posts the
resumption. -/
theorem Effect.awaiting {a : FiberAct P R E} (he : s.Effect a t) (href : ref < s.created)
    (h : (s.items ref).awaiting = true) : t.Suspended ref := by
  have hne : ref ≠ s.created := Nat.ne_of_lt href
  have hset : ∀ {r : ℕ} {w : WorkItem R E}, ((s.items r).awaiting = true → w.awaiting = true) →
      (Function.update s.items r w ref).awaiting = true := by
    intro r w hw
    by_cases hr : ref = r
    · subst hr
      rw [Function.update_self]
      exact hw h
    · rw [Function.update_of_ne hr]
      exact h
  cases he with
  | enqueue p job q =>
      left
      simp only [Function.update_of_ne hne]
      exact h
  | resume p target q _ _ hproducers =>
      by_cases hrt : ref = target
      · refine .inr ⟨s.created, ?_, .inl ⟨p, ?_⟩⟩
        · simp only [Function.update_self, WorkItem.create_job, hrt]
        · simp only [hproducers, Function.update_self]
          rfl
      · left
        simp only [Function.update_of_ne hne, Function.update_of_ne hrt]
        exact h
  | doItem r q | throw r e q => exact .inl (doItem_awaiting s.requested s.items r ref h)
  | exit t hexit =>
      cases hexit with
      | cancel node next => exact .inl (hset fun hw => (WorkItem.cancel_awaiting _).trans hw)
      | drain | unhandled | drained | disposeSource | disposeSemaphore | endFiber =>
          exact .inl h
  | callback r token => exact .inl (hset fun hw => (WorkItem.cancel_awaiting _).trans hw)
  | produce | finish | consume | disposeAsync | cancel => exact .inl h

theorem Suspended.step (hr : (machine : Machine (Fiber P R E) _).Reachable s)
    (h : s.Suspended ref) (href : ref < s.created) (hj : (s.items ref).job.IsAsync)
    {a : FiberAct P R E} (hg : s.KeepsResumptions a) (he : s.Effect a t) :
    t.Settled ref ∨ t.Suspended ref := by
  rcases h with h | ⟨c, h⟩
  · exact .inr (he.awaiting href h)
  · rcases h.step hr hg he with h' | ⟨-, hitems⟩
    · exact .inr (.inr ⟨c, h'⟩)
    · have hpost := doItem_post s.requested h.job hj
      rw [← hitems] at hpost
      rcases hpost with ha | hc
      · exact .inr (.inl ha)
      · exact .inl (.inl hc)

omit [DecidableEq P] [Inhabited R] in
/-- A token item is completed or still registered with its token. -/
def Registered (s : Fiber P R E) (ref : ℕ) : Prop :=
  ∀ token, (s.items ref).job.token = some token →
    (s.items ref).source.isCompleted = true ∨ (s.items ref).registration = some token

omit [DecidableEq P] [Inhabited R] in
structure AsyncRun (s : Fiber P R E) : Prop where
  registered : ∀ ref, s.HoldsRef ref → ref ∉ s.queue.delivered → s.Registered ref
  started : ∀ ref ∈ s.queue.delivered, (s.items ref).job.IsAsync →
    s.Settled ref ∨ s.Suspended ref ∨ s.queue.consumer = .onItem ref ∧ s.Registered ref

/-- A step that is not the item's own `Do` keeps it registered. -/
theorem Registered.step (h : s.Registered ref) (href : ref < s.created) {a : FiberAct P R E}
    (he : s.Effect a t) (hne : a = .doItem → s.queue.consumer ≠ .onItem ref) :
    t.Registered ref := by
  have hlater := he.later href
  intro token hj
  rw [hlater.job] at hj
  rcases h token hj with hc | hreg
  · left
    rw [hlater.source hc]
    exact hc
  · rcases he.registration href hj with hsame | hc | ⟨ha, -, hdo, -⟩
    · exact .inr (hsame.trans hreg)
    · exact .inl hc
    · exact (hne ha hdo).elim

/-- The item's own `Do` settles it or leaves it suspended. -/
theorem Registered.doItem (h : s.Registered ref) (hj : (s.items ref).job.IsAsync)
    {a : FiberAct P R E} (he : s.Effect a t) (hc : s.queue.consumer = .onItem ref)
    (ha : a = .doItem) : t.Settled ref ∨ t.Suspended ref := by
  have hitems : t.items = (Concurrent.doItem s.requested s.items ref).1 ∧
      t.requested = s.requested := by
    subst ha
    cases he with
    | doItem r q hc' | throw r e q hc' =>
        cases hc.symm.trans hc'
        exact ⟨rfl, rfl⟩
  rw [Settled, Suspended, hitems.1, hitems.2]
  rcases doItem_async s.requested hj with ⟨hsame, token, htoken, hreq⟩ | ha | hcompleted
  · rw [hsame]
    rcases h token htoken with hcompleted | hreg
    · exact .inl (.inl hcompleted)
    · exact .inl (.inr ⟨token, htoken, hreg, hreq⟩)
  · exact .inr (.inl ha)
  · exact .inl (.inl hcompleted)

theorem AsyncRun.step (hr : (machine : Machine (Fiber P R E) _).Reachable s) (hi : s.AsyncRun)
    {a : FiberAct P R E} (hg : s.KeepsResumptions a) (he : s.Effect a t) : t.AsyncRun := by
  constructor
  · intro ref hm hnot
    have hnot' : ref ∉ s.queue.delivered := by
      intro hd
      rcases he.delivered with h | ⟨r, -, -, h⟩ <;> rw [h] at hnot
      · exact hnot hd
      · exact hnot (List.mem_append_left _ hd)
    rcases he.holdsRef hm with hm | ⟨rfl, hcreated⟩
    · refine (hi.registered ref hm hnot').step (lt_created hr hm) he fun _ hc => ?_
      exact hnot' (Blocking.mem_of_onItem (queue_reachable hr) hc)
    · intro token hj
      rcases he.created hcreated with ⟨job, ⟨-, hitem⟩ | ⟨-, hitem⟩⟩ <;>
      · rw [hitem, WorkItem.create_job] at hj
        rw [hitem]
        exact WorkItem.create_registered hj
  · intro ref hm hj
    have hold : ∀ ref ∈ s.queue.delivered, ref < s.created := fun ref hd =>
      lt_created hr (.inr (delivered_exchanged hr hd))
    by_cases hd : ref ∈ s.queue.delivered
    · rw [(he.later (hold ref hd)).job] at hj
      rcases hi.started ref hd hj with hs | hs | ⟨hc, hreg⟩
      · exact .inl (he.settled (hold ref hd) hs)
      · exact (hs.step hr (hold ref hd) hj hg he).imp_right .inl
      · rcases he.onItem hc with ha | ⟨hc', -⟩
        · exact (hreg.doItem hj he hc ha).imp_right .inl
        · by_cases ha : a = .doItem
          · exact (hreg.doItem hj he hc ha).imp_right .inl
          · exact .inr (.inr ⟨hc', hreg.step (hold ref hd) he fun h => (ha h).elim⟩)
    · rcases he.delivered with h | ⟨r, hs, ht, h⟩ <;> rw [h] at hm
      · exact (hd hm).elim
      · rcases List.mem_append.mp hm with hm | hm
        · exact (hd hm).elim
        · -- the consumer turns to the item, which nobody has run before
          rw [List.mem_singleton] at hm
          subst hm
          have hheld : s.HoldsRef ref := by
            right
            rw [Blocking.exchanged_eq (queue_reachable hr), hs]
            simp [Consumer.inHand]
          refine .inr (.inr ⟨ht, (hi.registered ref hheld hd).step (lt_created hr hheld) he ?_⟩)
          intro _ hc
          cases hs.symm.trans hc

/-- If no continuation is posted after `CompleteAdding` or after the consumer
has left, and the consumer does not leave while one is on its way, every started
asynchronous work item is completed, running or suspended with its resumption to
come. -/
theorem onItsWay_of_keepsResumptions
    (hr : (machine : Machine (Fiber P R E) _).ReachableUnder KeepsResumptions s) :
    ∀ ref ∈ s.queue.delivered, (s.items ref).job.IsAsync → s.OnItsWay ref := by
  have hi : s.AsyncRun := by
    refine hr.invariant ⟨?_, fun _ h => by cases h⟩ ?_
    · rintro ref (⟨p, hp⟩ | hm)
      · cases hp
      · cases hm
    · intro s a t hr hi hg h
      exact hi.step hr.reachable hg (step_effect hr.reachable h)
  intro ref hd hj
  rcases hi.started ref hd hj with hs | hs | ⟨hc, -⟩
  · exact .inl hs
  · exact .inr (.inr hs)
  · exact .inr (.inl hc)

/-- A delegate that suspends once has its resumption in the queue. -/
theorem onItsWay_of_keepsResumptions_once :
    ∃ s : Fiber Unit ℕ Unit, s.queue.delivered = [1] ∧ s.queue.pending = [2] ∧ s.OnItsWay 1 := by
  obtain ⟨s, hr, hd, hp, hj⟩ := Machine.exists_of_guarded_run (M := machine)
    (p := fun s : Fiber Unit ℕ Unit => s.queue.delivered = [1] ∧ s.queue.pending = [2] ∧
      (s.items 1).job.IsAsync)
    KeepsResumptions
    (List.flatten [[.enqueue () (.asyncWorkItem 1 (.ok 5))], List.replicate 5 (.produce ()),
      [.finish ()], List.replicate 4 (.consume true), [.doItem, .resume () 1],
      List.replicate 3 (.produce ())])
    (by decide) (by decide)
  exact ⟨s, hd, hp, onItsWay_of_keepsResumptions hr 1 (by simp [hd]) hj⟩

/-- The operation ends after `DisposeAsync`; `Post` ignores the refusal, and the
`Task` of the started item stays pending. -/
theorem resumption_refused_after_dispose :
    ¬ ∀ s : Fiber Unit ℕ Unit, (machine : Machine (Fiber Unit ℕ Unit) _).Reachable s →
      ∀ ref ∈ s.queue.delivered, (s.items ref).job.IsAsync → s.OnItsWay ref := by
  intro h
  obtain ⟨s, hr, hd, hj, htoken, hsource, hawaiting, hconsumer, hproducer, hpending⟩ :=
    Machine.exists_of_run (M := machine)
    (p := fun s : Fiber Unit ℕ Unit => s.queue.delivered = [1] ∧ (s.items 1).job.IsAsync ∧
      (s.items 1).job.token = none ∧ (s.items 1).source = .pending ∧
      (s.items 1).awaiting = false ∧ s.queue.consumer = .spin ∧
      s.queue.producers () = .canceled 2 ∧ s.queue.pending = [])
    (List.flatten [[.enqueue () (.asyncWorkItem 1 (.ok 5))], List.replicate 5 (.produce ()),
      [.finish ()], List.replicate 4 (.consume true),
      [.doItem, .disposeAsync, .resume () 1, .produce ()]])
    (by decide)
  rcases h s hr 1 (by simp [hd]) hj with (hc | ⟨token, ht, -⟩) | hc | ha | ⟨c, -, hplace⟩
  · rw [hsource] at hc
    cases hc
  · rw [htoken] at ht
    cases ht
  · rw [hconsumer] at hc
    cases hc
  · rw [hawaiting] at ha
    cases ha
  · rw [hconsumer, hpending] at hplace
    rcases hplace with ⟨p, hp⟩ | ⟨-, ⟨p, hp⟩ | hm | hc⟩
    · rw [hproducer] at hp
      cases hp
    · rw [hproducer] at hp
      cases hp
    · cases hm
    · cases hc

end Fiber
end ComposableAsync.Concurrent
