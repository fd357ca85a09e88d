import ComposableAsync.Concurrent.Fiber

/-!
# What a step of the fiber can do

One inversion lemma for the invariants of the fiber: each action with the place
it found its thread at, the items it moved and the work items it changed. The
references in the queue all belong to work items created before, and a work item
keeps its delegate.
-/
namespace ComposableAsync.Concurrent
open Foundations

/-- The item a producer carries. -/
def Producer.item {T : Type} : Producer T → Option T
  | .idle => none
  | .enter item | .create item | .exchange item _ | .store item _ _ | .notify item | .lock item
  | .release item | .returned item | .canceled item | .raised item _ => some item

theorem Producer.Move.item {T : Type} {canceled : Bool} {pc pc' : Producer T} {added : List T}
    (h : Producer.Move canceled pc pc' added) :
    pc'.item = pc.item ∧ ∀ item ∈ added, pc.item = some item := by
  cases h <;> simp [Producer.item]

theorem Producer.Move.refused {T : Type} {canceled : Bool} {pc : Producer T} {item : T}
    {added : List T} (h : Producer.Move canceled pc (.canceled item) added) :
    canceled = true := by
  cases h with
  | refuse _ hcanceled => exact hcanceled

namespace Blocking
variable {P T X : Type}

/-- The consumer stands still and the lists are as they were. -/
structure Quiet (s t : Blocking P T X) : Prop where
  consumer : t.consumer = s.consumer
  delivered : t.delivered = s.delivered
  exchanged : t.exchanged = s.exchanged

theorem Quiet.pending {s t : Blocking P T X} (h : s.Quiet t) : t.pending = s.pending := by
  rw [Blocking.pending, Blocking.pending, h.consumer, h.delivered, h.exchanged]

end Blocking

namespace Fiber
variable {P R E : Type} [DecidableEq P] [Inhabited R]

omit [Inhabited R] in
/-- The steps of `Consume` after `OnElements`. -/
inductive Exit (s : Fiber P R E) : Fiber P R E → Prop
  | drain : s.phase = .onElements →
      (s.queue.consumer = .ended .canceled ∨
        ∃ token, s.queue.consumer = .ended (.threw (.operationCanceled token))) →
      Exit s { s with phase := .getUnsafeQueue s.queue.list.tail }
  | unhandled : s.phase = .onElements →
      ((∃ e, s.queue.consumer = .ended (.threw (.other e))) ∨
        s.queue.consumer = .ended .nullReference) →
      Exit s { s with phase := .unhandled }
  | cancel (node next : ℕ) : s.phase = .getUnsafeQueue node →
      s.queue.list.link node = some next →
      Exit s { s with
        phase := .getUnsafeQueue next
        items := Function.update s.items (s.queue.list.value next)
          (s.items (s.queue.list.value next)).cancel
        drained := s.drained ++ [s.queue.list.value next] }
  | drained (node : ℕ) : s.phase = .getUnsafeQueue node → s.queue.list.link node = none →
      Exit s { s with phase := .disposeSource }
  | disposeSource (q) : s.phase = .disposeSource → s.queue.Quiet q →
      q.producers = s.queue.producers → q.canceled = s.queue.canceled →
      Exit s { s with queue := q, phase := .disposeSemaphore }
  | disposeSemaphore (q) : s.phase = .disposeSemaphore → s.queue.Quiet q →
      q.producers = s.queue.producers → q.canceled = s.queue.canceled →
      Exit s { s with queue := q, phase := .endFiber }
  | endFiber : s.phase = .endFiber → Exit s { s with phase := .finished }

/-- Everything a step of the fiber can do, with what it found. -/
inductive Effect (s : Fiber P R E) : FiberAct P R E → Fiber P R E → Prop
  | enqueue (p : P) (job : Job R E) (q) : job.IsPublic = true → s.queue.producers p = .idle →
      q.producers = Function.update s.queue.producers p (.enter s.created) →
      s.queue.Quiet q → q.canceled = s.queue.canceled →
      Effect s (.enqueue p job) { s with
        queue := q
        items := Function.update s.items s.created (WorkItem.create s.requested job)
        created := s.created + 1 }
  | resume (p : P) (target : ℕ) (q) : (s.items target).awaiting = true →
      s.queue.producers p = .idle →
      q.producers = Function.update s.queue.producers p (.enter s.created) →
      s.queue.Quiet q → q.canceled = s.queue.canceled →
      Effect s (.resume p target) { s with
        queue := q
        items := Function.update
          (Function.update s.items target (s.items target).resume) s.created
          (WorkItem.create s.requested (.post target))
        created := s.created + 1 }
  | produce (p : P) (pc) (added : List ℕ) (q) :
      Producer.Move s.queue.canceled (s.queue.producers p) pc added →
      q.producers = Function.update s.queue.producers p pc →
      q.consumer = s.queue.consumer → q.delivered = s.queue.delivered →
      q.canceled = s.queue.canceled → q.exchanged = s.queue.exchanged ++ added →
      Effect s (.produce p) { s with
        queue := q
        returned := match pc with
          | .returned ref => ref :: s.returned
          | _ => s.returned }
  | finish (p : P) (q) : (∃ ref, s.queue.producers p = .returned ref ∨
        s.queue.producers p = .canceled ref ∨ ∃ e, s.queue.producers p = .raised ref e) →
      q.producers = Function.update s.queue.producers p .idle →
      s.queue.Quiet q → q.canceled = s.queue.canceled →
      Effect s (.finish p) { s with queue := q }
  | consume (yields : Bool) (q) : Blocking.ConsumerMove s.queue q →
      q.exchanged = s.queue.exchanged → q.producers = s.queue.producers →
      q.canceled = s.queue.canceled → Effect s (.consume yields) { s with queue := q }
  | doItem (ref : ℕ) (q) : s.queue.consumer = .onItem ref →
      (Concurrent.doItem s.requested s.items ref).2 = none → q.consumer = .spin →
      q.delivered = s.queue.delivered → q.exchanged = s.queue.exchanged →
      q.producers = s.queue.producers → q.canceled = s.queue.canceled →
      Effect s .doItem { s with
        queue := q, items := (Concurrent.doItem s.requested s.items ref).1 }
  | throw (ref : ℕ) (e : Exn E) (q) : s.queue.consumer = .onItem ref →
      (Concurrent.doItem s.requested s.items ref).2 = some e → q.consumer = .ended (.threw e) →
      q.delivered = s.queue.delivered → q.exchanged = s.queue.exchanged →
      q.producers = s.queue.producers → q.canceled = s.queue.canceled →
      Effect s .doItem { s with
        queue := q, items := (Concurrent.doItem s.requested s.items ref).1 }
  | exit (t : Fiber P R E) : s.Exit t → Effect s .exit t
  | disposeAsync (q) : s.queue.Quiet q → q.producers = s.queue.producers →
      (s.queue.canceled = true → q.canceled = true) →
      Effect s .disposeAsync { s with queue := q }
  | cancel (token : Token) :
      Effect s (.cancel token) { s with requested := Function.update s.requested token true }
  | callback (ref : ℕ) (token : Token) : (s.items ref).registration = some token →
      s.requested token = true →
      Effect s (.callback ref) (s.setItem ref { (s.items ref).cancel with registration := none })

variable {s t : Fiber P R E}

omit [Inhabited R] in
theorem enqueue_quiet {p : P} {ref : ℕ} {q : Blocking P ℕ (Exn E)}
    (h : s.queue.step (.enqueue p ref) = some q) :
    s.queue.producers p = .idle ∧
      q.producers = Function.update s.queue.producers p (.enter ref) ∧
      s.queue.Quiet q ∧ q.canceled = s.queue.canceled := by
  simp only [Blocking.step] at h
  split at h
  · rename_i hp
    cases h
    exact ⟨hp, rfl, ⟨rfl, rfl, rfl⟩, rfl⟩
  · cases h

omit [Inhabited R] in
theorem exit_of_exitStep (h : s.exitStep = some t) : s.Exit t := by
  unfold exitStep at h
  split at h
  · rename_i hphase
    split at h
    · rename_i hc
      cases h
      exact .drain hphase (.inl hc)
    · rename_i token hc
      cases h
      exact .drain hphase (.inr ⟨token, hc⟩)
    · rename_i e hc
      cases h
      exact .unhandled hphase (.inl ⟨e, hc⟩)
    · rename_i hc
      cases h
      exact .unhandled hphase (.inr hc)
    · cases h
  · rename_i node hphase
    split at h
    · rename_i next hlink
      cases h
      exact .cancel node next hphase hlink
    · rename_i hlink
      cases h
      exact .drained node hphase hlink
  · rename_i hphase
    simp only [Option.map_eq_some_iff, Blocking.step] at h
    obtain ⟨q, hq, rfl⟩ := h
    split at hq <;> cases hq
    exact .disposeSource _ hphase ⟨rfl, rfl, rfl⟩ rfl rfl
  · rename_i hphase
    simp only [Option.map_eq_some_iff, Blocking.step] at h
    obtain ⟨q, hq, rfl⟩ := h
    split at hq <;> cases hq
    exact .disposeSemaphore _ hphase ⟨rfl, rfl, rfl⟩ rfl rfl
  · rename_i hphase
    cases h
    exact .endFiber hphase
  · cases h
  · cases h

/-- The inversion lemma. -/
theorem step_effect (hr : (machine : Machine (Fiber P R E) _).Reachable s) {a : FiberAct P R E}
    (h : s.step a = some t) : s.Effect a t := by
  have hq := queue_reachable hr
  cases a with
  | enqueue p job =>
      simp only [step] at h
      split at h
      · rename_i hjob
        obtain ⟨q, hq, rfl⟩ := submit_eq h
        obtain ⟨hp, hproducers, hquiet, hcanceled⟩ := enqueue_quiet hq
        exact .enqueue p job q hjob hp hproducers hquiet hcanceled
      · cases h
  | resume p target =>
      simp only [step] at h
      split at h
      · rename_i hawaiting
        obtain ⟨q, hq, rfl⟩ := submit_eq h
        obtain ⟨hp, hproducers, hquiet, hcanceled⟩ := enqueue_quiet hq
        exact .resume p target q hawaiting hp hproducers hquiet hcanceled
      · cases h
  | produce p =>
      simp only [step, Option.map_eq_some_iff] at h
      obtain ⟨q, hstep, rfl⟩ := h
      obtain ⟨pc, added, hmove, hproducers, hc, hd, hcanceled, he⟩ := Blocking.produce_move hq hstep
      have hpc : q.producers p = pc := by rw [hproducers, Function.update_self]
      rw [hpc]
      exact .produce p pc added q hmove hproducers hc hd hcanceled he
  | finish p =>
      simp only [step, Option.map_eq_some_iff] at h
      obtain ⟨q, hstep, rfl⟩ := h
      simp only [Blocking.step] at hstep
      split at hstep
      · rename_i ref hp
        cases hstep
        exact .finish p _ ⟨ref, .inl hp⟩ rfl ⟨rfl, rfl, rfl⟩ rfl
      · rename_i ref hp
        cases hstep
        exact .finish p _ ⟨ref, .inr (.inl hp)⟩ rfl ⟨rfl, rfl, rfl⟩ rfl
      · rename_i ref e hp
        cases hstep
        exact .finish p _ ⟨ref, .inr (.inr ⟨e, hp⟩)⟩ rfl ⟨rfl, rfl, rfl⟩ rfl
      · cases hstep
  | consume yields =>
      simp only [step, Option.map_eq_some_iff] at h
      obtain ⟨q, hstep, rfl⟩ := h
      obtain ⟨hmove, he⟩ := Blocking.consumer_move hq hstep
      obtain ⟨-, -, hproducers, hcanceled, -⟩ := Blocking.consume_frame hstep
      exact .consume yields q hmove he hproducers hcanceled
  | doItem =>
      simp only [step] at h
      split at h
      · rename_i ref hc
        split at h
        · rename_i items hdo
          simp only [Option.map_eq_some_iff, Blocking.step, hc] at h
          obtain ⟨q, hq, rfl⟩ := h
          cases hq
          have hitems : items = (Concurrent.doItem s.requested s.items ref).1 := by rw [hdo]
          rw [hitems]
          exact .doItem ref _ hc (by rw [hdo]) rfl rfl rfl rfl rfl
        · rename_i items e hdo
          simp only [Option.map_eq_some_iff, Blocking.step, hc] at h
          obtain ⟨q, hq, rfl⟩ := h
          cases hq
          have hitems : items = (Concurrent.doItem s.requested s.items ref).1 := by rw [hdo]
          rw [hitems]
          exact .throw ref e _ hc (by rw [hdo]) rfl rfl rfl rfl rfl
      · cases h
  | exit => exact .exit t (exit_of_exitStep h)
  | disposeAsync =>
      simp only [step, Option.map_eq_some_iff] at h
      obtain ⟨q, hstep, rfl⟩ := h
      cases hstep
      exact .disposeAsync _ ⟨rfl, rfl, rfl⟩ rfl fun hc => by rw [hc]; rfl
  | cancel token =>
      cases h
      exact .cancel token
  | callback ref =>
      simp only [step] at h
      split at h
      · rename_i token htoken
        split at h
        · rename_i hreq
          cases h
          exact .callback ref token htoken hreq
        · cases h
      · cases h

omit [DecidableEq P] [Inhabited R] in
/-- The queue or a producer has the reference. -/
def HoldsRef (s : Fiber P R E) (ref : ℕ) : Prop :=
  (∃ p, (s.queue.producers p).item = some ref) ∨ ref ∈ s.queue.exchanged

/-- What a step of the fiber does to the producer `r`. -/
inductive ProducerEffect (s t : Fiber P R E) (a : FiberAct P R E) (r : P) : Prop
  | stays : t.queue.producers r = s.queue.producers r → ProducerEffect s t a r
  | begins : s.queue.producers r = .idle → t.queue.producers r = .enter s.created →
      t.created = s.created + 1 → ProducerEffect s t a r
  | moves (added : List ℕ) : a = .produce r →
      Producer.Move s.queue.canceled (s.queue.producers r) (t.queue.producers r) added →
      t.queue.exchanged = s.queue.exchanged ++ added → ProducerEffect s t a r
  | ends : a = .finish r → (∃ ref, s.queue.producers r = .returned ref ∨
        s.queue.producers r = .canceled ref ∨ ∃ e, s.queue.producers r = .raised ref e) →
      t.queue.producers r = .idle → ProducerEffect s t a r

theorem Effect.producer {a : FiberAct P R E} (h : s.Effect a t) (r : P) :
    s.ProducerEffect t a r := by
  have hother : ∀ {q : Blocking P ℕ (Exn E)} {p : P} {pc : Producer ℕ},
      q.producers = Function.update s.queue.producers p pc →
      r ≠ p → q.producers r = s.queue.producers r := by
    intro q p pc hproducers hr
    rw [hproducers, Function.update_of_ne hr]
  have hself : ∀ {q : Blocking P ℕ (Exn E)} {p : P} {pc : Producer ℕ},
      q.producers = Function.update s.queue.producers p pc → q.producers p = pc := by
    intro q p pc hproducers
    rw [hproducers, Function.update_self]
  cases h with
  | enqueue p job q _ hidle hproducers | resume p target q _ hidle hproducers =>
      by_cases hr : r = p
      · subst hr
        exact .begins hidle (hself hproducers) rfl
      · exact .stays (hother hproducers hr)
  | produce p pc added q hmove hproducers _ _ _ hexchanged =>
      by_cases hr : r = p
      · subst hr
        refine .moves added rfl ?_ hexchanged
        change Producer.Move _ _ (q.producers r) added
        rw [hself hproducers]
        exact hmove
      · exact .stays (hother hproducers hr)
  | finish p q hended hproducers =>
      by_cases hr : r = p
      · subst hr
        exact .ends rfl hended (hself hproducers)
      · exact .stays (hother hproducers hr)
  | consume yields q _ _ hproducers | doItem _ q _ _ _ _ _ hproducers
  | throw _ _ q _ _ _ _ _ hproducers | disposeAsync q _ hproducers =>
      exact .stays (congrFun hproducers r)
  | exit t hexit =>
      cases hexit with
      | drain | unhandled | cancel | drained | endFiber => exact .stays rfl
      | disposeSource q _ _ hproducers | disposeSemaphore q _ _ hproducers =>
          exact .stays (congrFun hproducers r)
  | cancel | callback => exact .stays rfl

theorem Effect.exchanged {a : FiberAct P R E} (h : s.Effect a t) :
    t.queue.exchanged = s.queue.exchanged ∨ ∃ p added,
      Producer.Move s.queue.canceled (s.queue.producers p) (t.queue.producers p) added ∧
        t.queue.exchanged = s.queue.exchanged ++ added := by
  cases h with
  | enqueue p job q _ _ _ hquiet | resume p target q _ _ _ hquiet
  | finish p q _ _ hquiet | disposeAsync q hquiet => exact .inl hquiet.exchanged
  | produce p pc added q hmove hproducers _ _ _ hexchanged =>
      refine .inr ⟨p, added, ?_, hexchanged⟩
      change Producer.Move _ _ (q.producers p) added
      rw [hproducers, Function.update_self]
      exact hmove
  | consume yields q _ hexchanged | doItem _ q _ _ _ _ hexchanged
  | throw _ _ q _ _ _ _ hexchanged => exact .inl hexchanged
  | exit t hexit =>
      cases hexit with
      | drain | unhandled | cancel | drained | endFiber => exact .inl rfl
      | disposeSource q _ hquiet | disposeSemaphore q _ hquiet => exact .inl hquiet.exchanged
  | cancel | callback => exact .inl rfl

theorem Effect.exchanged_prefix {a : FiberAct P R E} (h : s.Effect a t) :
    s.queue.exchanged <+: t.queue.exchanged := by
  rcases h.exchanged with hsame | ⟨-, added, -, hexchanged⟩
  · exact hsame ▸ List.prefix_rfl
  · exact ⟨added, hexchanged.symm⟩

theorem Effect.holdsRef {a : FiberAct P R E} (h : s.Effect a t) {ref : ℕ}
    (hm : t.HoldsRef ref) : s.HoldsRef ref ∨ ref = s.created ∧ t.created = s.created + 1 := by
  rcases hm with ⟨p, hp⟩ | hm
  · cases h.producer p with
    | stays hstays => exact .inl (.inl ⟨p, hstays ▸ hp⟩)
    | begins _ henter hcreated =>
        rw [henter] at hp
        exact .inr ⟨(Option.some.inj hp).symm, hcreated⟩
    | moves added _ hmove _ => exact .inl (.inl ⟨p, hmove.item.1 ▸ hp⟩)
    | ends _ _ hidle =>
        rw [hidle] at hp
        cases hp
  · rcases h.exchanged with hsame | ⟨p, added, hmove, hexchanged⟩
    · exact .inl (.inr (hsame ▸ hm))
    · rw [hexchanged] at hm
      rcases List.mem_append.mp hm with hm | hm
      · exact .inl (.inr hm)
      · exact .inl (.inl ⟨p, hmove.item.2 ref hm⟩)

theorem Effect.created_le {a : FiberAct P R E} (h : s.Effect a t) : s.created ≤ t.created := by
  cases h with
  | exit t hexit => cases hexit <;> exact le_refl _
  | enqueue | resume => exact Nat.le_succ _
  | _ => exact le_refl _

theorem created_pos (hr : (machine : Machine (Fiber P R E) _).Reachable s) : 0 < s.created := by
  apply hr.invariant (I := fun s => 0 < s.created)
  · exact Nat.one_pos
  · intro s a t hr hpos h
    exact hpos.trans_le (step_effect hr h).created_le

theorem lt_created (hr : (machine : Machine (Fiber P R E) _).Reachable s) {ref : ℕ}
    (h : s.HoldsRef ref) : ref < s.created := by
  revert ref
  refine hr.invariant (I := fun s => ∀ {ref}, s.HoldsRef ref → ref < s.created) ?_ ?_
  · rintro ref (⟨p, hp⟩ | hm)
    · cases hp
    · cases hm
  · intro s a t hr hi h ref hm
    have he := step_effect hr h
    rcases he.holdsRef hm with hm | ⟨rfl, hcreated⟩
    · exact (hi hm).trans_le he.created_le
    · rw [hcreated]
      exact Nat.lt_succ_self _

theorem Effect.later {a : FiberAct P R E} (h : s.Effect a t) {ref : ℕ} (href : ref < s.created) :
    (s.items ref).Later (t.items ref) := by
  have hne : ref ≠ s.created := Nat.ne_of_lt href
  cases h with
  | enqueue p job q => exact .of_eq (Function.update_of_ne hne ..)
  | resume p target q =>
      have hresume : (s.items ref).Later
          (Function.update s.items target (s.items target).resume ref) :=
        later_update WorkItem.later_resume ref
      exact hresume.trans (.of_eq (Function.update_of_ne hne ..))
  | doItem r q | throw r e q => exact doItem_later s.requested s.items r ref
  | exit t hexit =>
      cases hexit with
      | cancel node next => exact later_update WorkItem.later_cancel ref
      | drain | unhandled | drained | disposeSource | disposeSemaphore | endFiber => exact .refl
  | callback r token =>
      apply later_update
      exact ⟨WorkItem.later_cancel.job, WorkItem.later_cancel.source, .inr rfl⟩
  | produce | finish | consume | disposeAsync | cancel => exact .refl

/-- What a step of the fiber does to the consumer. -/
inductive ConsumerEffect (s t : Fiber P R E) (a : FiberAct P R E) : Prop
  | stays : t.queue.consumer = s.queue.consumer → t.queue.delivered = s.queue.delivered →
      a ≠ .doItem → ConsumerEffect s t a
  | moves (yields : Bool) : a = .consume yields → s.queue.ConsumerMove t.queue →
      t.queue.exchanged = s.queue.exchanged → ConsumerEffect s t a
  | returns (ref : ℕ) : a = .doItem → s.queue.consumer = .onItem ref →
      (s.items ref).job.thrown = none → t.queue.consumer = .spin →
      t.queue.delivered = s.queue.delivered → t.queue.exchanged = s.queue.exchanged →
      t.items = (Concurrent.doItem s.requested s.items ref).1 → ConsumerEffect s t a
  | throws (ref : ℕ) (e : Exn E) : a = .doItem → s.queue.consumer = .onItem ref →
      (s.items ref).job.thrown = some e → t.queue.consumer = .ended (.threw e) →
      t.queue.delivered = s.queue.delivered → t.queue.exchanged = s.queue.exchanged →
      t.items = (Concurrent.doItem s.requested s.items ref).1 → ConsumerEffect s t a

theorem Effect.consumer {a : FiberAct P R E} (h : s.Effect a t) : s.ConsumerEffect t a := by
  cases h with
  | enqueue p job q _ _ _ hquiet | resume p target q _ _ _ hquiet | finish p q _ _ hquiet
  | disposeAsync q hquiet => exact .stays hquiet.consumer hquiet.delivered (by simp)
  | produce p pc added q _ _ hconsumer hdelivered => exact .stays hconsumer hdelivered (by simp)
  | consume yields q hmove hexchanged => exact .moves yields rfl hmove hexchanged
  | doItem ref q hc hdo hspin hdelivered hexchanged =>
      rw [doItem_thrown] at hdo
      exact .returns ref rfl hc hdo hspin hdelivered hexchanged rfl
  | throw ref e q hc hdo hended hdelivered hexchanged =>
      rw [doItem_thrown] at hdo
      exact .throws ref e rfl hc hdo hended hdelivered hexchanged rfl
  | exit t hexit =>
      cases hexit with
      | drain | unhandled | cancel | drained | endFiber => exact .stays rfl rfl (by simp)
      | disposeSource q _ hquiet | disposeSemaphore q _ hquiet =>
          exact .stays hquiet.consumer hquiet.delivered (by simp)
  | cancel | callback => exact .stays rfl rfl (by simp)

theorem Effect.consumer_produce {p : P} (h : s.Effect (.produce p) t) :
    t.queue.consumer = s.queue.consumer ∧ t.queue.delivered = s.queue.delivered := by
  cases h with
  | produce p pc added q _ _ hconsumer hdelivered => exact ⟨hconsumer, hdelivered⟩

/-- The consumer runs one `Do` at a time, to its end. -/
theorem Effect.onItem {a : FiberAct P R E} (h : s.Effect a t) {ref : ℕ}
    (hc : s.queue.consumer = .onItem ref) :
    a = .doItem ∨ t.queue.consumer = .onItem ref ∧ t.queue.delivered = s.queue.delivered := by
  cases h.consumer with
  | stays hconsumer hdelivered _ => exact .inr ⟨hconsumer.trans hc, hdelivered⟩
  | moves yields _ hmove _ =>
      cases hmove with
      | loop hs =>
          rw [hc] at hs
          exact hs.elim
      | take _ hs | hand _ hs | leave hs => cases hs.symm.trans hc
  | returns _ ha | throws _ _ ha => exact .inl ha

theorem Effect.delivered {a : FiberAct P R E} (h : s.Effect a t) :
    t.queue.delivered = s.queue.delivered ∨
      ∃ ref, s.queue.consumer = .handing ref ∧ t.queue.consumer = .onItem ref ∧
        t.queue.delivered = s.queue.delivered ++ [ref] := by
  cases h.consumer with
  | stays _ hdelivered _ => exact .inl hdelivered
  | moves yields _ hmove _ =>
      cases hmove with
      | loop _ _ _ hdelivered | take _ _ _ _ hdelivered | leave _ _ _ _ _ hdelivered =>
          exact .inl hdelivered
      | hand item hs ht _ hdelivered => exact .inr ⟨item, hs, ht, hdelivered⟩
  | returns _ _ _ _ _ hdelivered | throws _ _ _ _ _ _ hdelivered => exact .inl hdelivered

theorem Effect.canceled {a : FiberAct P R E} (h : s.Effect a t)
    (hc : s.queue.canceled = true) : t.queue.canceled = true := by
  cases h with
  | enqueue p job q _ _ _ _ hcanceled | resume p target q _ _ _ _ hcanceled
  | finish p q _ _ _ hcanceled | produce p pc items q _ _ _ _ hcanceled
  | consume yields q _ _ _ hcanceled | doItem ref q _ _ _ _ _ _ hcanceled
  | throw ref e q _ _ _ _ _ _ hcanceled => exact hcanceled.trans hc
  | exit t hexit =>
      cases hexit with
      | drain | unhandled | cancel | drained | endFiber => exact hc
      | disposeSource q _ _ _ hcanceled | disposeSemaphore q _ _ _ hcanceled =>
          exact hcanceled.trans hc
  | disposeAsync q _ _ hcanceled => exact hcanceled hc
  | cancel | callback => exact hc

/-- `OnElements` ends in `Wait` under a cancelled token, or with the exception
that `Do` let escape. -/
theorem Effect.ended {a : FiberAct P R E} (h : s.Effect a t) {cause : Ended (Exn E)}
    (hc : t.queue.consumer = .ended cause) :
    s.queue.consumer = .ended cause ∨
      ((∃ yields, a = .consume yields) ∧ s.queue.consumer = .waiting ∧
        s.queue.events.permits = 0 ∧ s.queue.canceled = true ∧ cause = .canceled) ∨
      a = .doItem ∧ ∃ ref e, s.queue.consumer = .onItem ref ∧
        (s.items ref).job.thrown = some e ∧ cause = .threw e := by
  cases h.consumer with
  | stays hconsumer _ _ => exact .inl (hconsumer.symm.trans hc)
  | moves yields ha hmove _ =>
      cases hmove with
      | loop _ ht =>
          rw [hc] at ht
          exact ht.elim
      | take _ _ ht | hand _ _ ht => cases ht.symm.trans hc
      | leave hs hpermits hcanceled ht =>
          cases ht.symm.trans hc
          exact .inr (.inl ⟨⟨yields, ha⟩, hs, hpermits, hcanceled, rfl⟩)
  | returns _ _ _ _ hspin => cases hspin.symm.trans hc
  | throws ref e ha hs hthrown hended =>
      cases hended.symm.trans hc
      exact .inr (.inr ⟨ha, ref, e, hs, hthrown, rfl⟩)

theorem Effect.refused {a : FiberAct P R E} (h : s.Effect a t) {p : P} {ref : ℕ}
    (hp : t.queue.producers p = .canceled ref) :
    s.queue.producers p = .canceled ref ∨ s.queue.canceled = true := by
  cases h.producer p with
  | stays hstays => exact .inl (hstays.symm.trans hp)
  | begins _ henter _ => cases henter.symm.trans hp
  | moves added _ hmove _ =>
      rw [hp] at hmove
      exact .inr hmove.refused
  | ends _ _ hidle => cases hidle.symm.trans hp

theorem Effect.created {a : FiberAct P R E} (h : s.Effect a t)
    (hcreated : t.created = s.created + 1) :
    ∃ job, (∃ p, a = .enqueue p job) ∧ t.items s.created = WorkItem.create s.requested job ∨
      (∃ p target, a = .resume p target ∧ (s.items target).awaiting = true ∧ job = .post target) ∧
        t.items s.created = WorkItem.create s.requested job := by
  cases h with
  | enqueue p job q => exact ⟨job, .inl ⟨⟨p, rfl⟩, Function.update_self ..⟩⟩
  | resume p target q hawaiting =>
      exact ⟨.post target, .inr ⟨⟨p, target, rfl, hawaiting, rfl⟩, Function.update_self ..⟩⟩
  | exit t hexit => cases hexit <;> exact absurd hcreated (Nat.lt_succ_self _).ne
  | _ => exact absurd hcreated (Nat.lt_succ_self _).ne

end Fiber
end ComposableAsync.Concurrent
