import ComposableAsync.Concurrent.FiberShutdown

/-!
# Fibers on pool threads

Any number of `ThreadPoolFiber`s. The pool runs the `Consume` of a fiber on a thread
that is free, and uses the thread again when `Consume` has returned: for another fiber,
or for code that has nothing to do with fibers. `ConsumeInContext` stores its thread,
nothing ever clears it, and `Send` and `TryExecuteTaskInline` compare it with the thread
of their caller.

Each fiber is the machine of its queue and its consumer. What a call decided is kept with
what was true when it was made.
-/
namespace ComposableAsync.Concurrent.ThreadPool
open Foundations

variable {F Th R E : Type}

/-- Where the pool has the `Consume` of a fiber. -/
inductive Place (Th : Type) where
  | absent
  | queued
  | consuming (th : Th)
  | returned (th : Th)
  deriving DecidableEq, Repr

/-- A `ThreadPoolFiber`; `thread` is its property `Thread`. -/
structure PoolFiber (Th R E : Type) where
  fiber : Fiber Th R E := {}
  place : Place Th := .absent
  thread : Option Th := none

inductive Kind where
  | send | tryExecuteTaskInline
  deriving DecidableEq, Repr

/-- A call: whether it ran the action itself, and the work item that `Send` enqueued if
not. `inside` and `ended` are history: the caller was in the consumer loop of the fiber,
the fiber had left it. -/
structure Call (F Th : Type) where
  kind : Kind
  fiber : F
  thread : Th
  inline : Bool
  queued : Option ℕ
  inside : Bool
  ended : Bool
  deriving DecidableEq, Repr

structure State (F Th R E : Type) where
  fibers : F → PoolFiber Th R E := fun _ => {}
  busy : Th → Bool := fun _ => false
  calls : List (Call F Th) := []

/-- `act` is a step of the fiber itself, on the thread that is its consumer or by a
producer. -/
inductive Act (F Th R E : Type) where
  | create (f : F)
  | start (f : F) (th : Th)
  | act (f : F) (a : FiberAct Th R E)
  | leave (f : F)
  | send (f : F) (th : Th) (outcome : Except (Exn E) Unit)
  | tryExecuteTaskInline (f : F) (th : Th)

/-- The steps of `ConsumeInContext`. -/
def isConsumer : FiberAct Th R E → Bool
  | .consume _ | .doItem | .exit => true
  | .enqueue _ _ | .resume _ _ | .produce _ | .finish _ | .disposeAsync | .cancel _
  | .callback _ => false

/-- `OnElements` has ended, with an exception as it always does. -/
def onElementsEnded (x : Fiber Th R E) : Bool :=
  decide (x.phase ≠ .onElements) || x.queue.consumer.isEnded

/-- The fiber has left its consumer loop and ends, or has ended. An unhandled exception
would have ended the process. -/
def hasEnded (x : Fiber Th R E) : Bool :=
  match x.phase with
  | .onElements | .unhandled => false
  | .getUnsafeQueue _ | .disposeSource | .disposeSemaphore | .endFiber | .finished => true

/-- Between the start of `ConsumeInContext` and the end of its `OnElements`. -/
def PoolFiber.inside [DecidableEq Th] (x : PoolFiber Th R E) (th : Th) : Bool :=
  decide (x.place = .consuming th) && !onElementsEnded x.fiber

def PoolFiber.isConsuming (x : PoolFiber Th R E) : Bool :=
  match x.place with
  | .consuming _ => true
  | .absent | .queued | .returned _ => false

namespace State
variable [DecidableEq F] [DecidableEq Th] [Inhabited R] (s : State F Th R E)

def set (f : F) (x : PoolFiber Th R E) : State F Th R E :=
  { s with fibers := Function.update s.fibers f x }

/-- A call of `Send` or of `TryExecuteTaskInline`, as it is remembered. -/
def call (kind : Kind) (f : F) (th : Th) (queued : Option ℕ) : Call F Th where
  kind := kind
  fiber := f
  thread := th
  inline := decide ((s.fibers f).thread = some th)
  queued := queued
  inside := (s.fibers f).inside th
  ended := hasEnded (s.fibers f).fiber

def step : Act F Th R E → Option (State F Th R E)
  | .create f =>
      if (s.fibers f).place = .absent then some (s.set f { s.fibers f with place := .queued })
      else none
  | .start f th =>
      if (s.fibers f).place = .queued ∧ s.busy th = false then
        some { s.set f { s.fibers f with place := .consuming th, thread := some th } with
          busy := Function.update s.busy th true }
      else none
  | .act f a =>
      if (s.fibers f).place = .absent ∨ isConsumer a = true ∧ (s.fibers f).isConsuming = false then
        none
      else ((s.fibers f).fiber.step a).map fun x => s.set f { s.fibers f with fiber := x }
  | .leave f =>
      match (s.fibers f).place, (s.fibers f).fiber.phase with
      | .consuming th, .finished =>
          some { s.set f { s.fibers f with place := .returned th } with
            busy := Function.update s.busy th false }
      | _, _ => none
  | .send f th outcome =>
      if (s.fibers f).place = .absent then none
      else if (s.fibers f).thread = some th then
        some { s with calls := s.calls ++ [s.call .send f th none] }
      else
        ((s.fibers f).fiber.submit th (.workItem (outcome.map fun _ => default))).map fun x =>
          { s.set f { s.fibers f with fiber := x } with
            calls := s.calls ++ [s.call .send f th (some (s.fibers f).fiber.created)] }
  | .tryExecuteTaskInline f th =>
      if (s.fibers f).place = .absent then none
      else some { s with calls := s.calls ++ [s.call .tryExecuteTaskInline f th none] }

end State

variable [DecidableEq F] [DecidableEq Th] [Inhabited R]

def machine : Machine (State F Th R E) (Act F Th R E) := ⟨{}, State.step⟩

/-- The queue has not got the work item and never will: `Enqueue` is about to refuse it, or
has refused it. -/
structure Refused (x : Fiber Th R E) (ref : ℕ) : Prop where
  canceled : x.queue.canceled = true
  created : ref < x.created
  outside : ref ∉ x.queue.exchanged
  held : ∀ p, (x.queue.producers p).item = some ref →
    x.queue.producers p = .enter ref ∨ x.queue.producers p = .canceled ref

/-- Inline inside the consumer loop and nowhere else, through the queue otherwise, and
refused by a fiber that has ended. -/
structure Call.Right (s : State F Th R E) (c : Call F Th) : Prop where
  inline_eq : c.inline = c.inside
  queued : c.kind = .send → c.inline = false → ∃ ref, c.queued = some ref ∧
    (c.ended = true → Refused (s.fibers c.fiber).fiber ref)

/-- The thread has run the consumer loop of the fiber and has left it. -/
def Left (s : State F Th R E) (f : F) (th : Th) : Prop :=
  (s.fibers f).place = .returned th ∨
    (s.fibers f).place = .consuming th ∧ onElementsEnded (s.fibers f).fiber = true

/-- The action that the fiber is about to run throws an `OperationCanceledException`. -/
def throwsCanceled (x : Fiber Th R E) : Bool :=
  match x.queue.consumer with
  | .onItem ref =>
      match (x.items ref).job.thrown with
      | some (.operationCanceled _) => true
      | some (.other _) | none => false
  | _ => false

/-- A thread that has left the loop of a fiber makes no call of that fiber, and no
dispatched action throws an `OperationCanceledException` before `CompleteAdding`. -/
def Guard (s : State F Th R E) : Act F Th R E → Prop
  | .send f th _ | .tryExecuteTaskInline f th => ¬ Left s f th
  | .act f .doItem =>
      throwsCanceled (s.fibers f).fiber = true → (s.fibers f).fiber.queue.canceled = true
  | .act _ _ | .create _ | .start _ _ | .leave _ => True

section Refused
variable {x y : Fiber Th R E} {ref : ℕ} {a : FiberAct Th R E}

theorem Refused.step (h : Refused x ref) (he : x.Effect a y) : Refused y ref := by
  have hmove : ∀ {pc pc' : Producer ℕ} {added : List ℕ},
      Producer.Move x.queue.canceled pc pc' added → pc.item = some ref →
        pc = .enter ref ∨ pc = .canceled ref → pc' = .canceled ref ∧ added = [] := by
    intro pc pc' added hmove hitem hpc
    rw [h.canceled] at hmove
    obtain rfl | rfl := hpc
    · cases hmove with
      | refuse => exact ⟨rfl, rfl⟩
      | pass _ hfalse => cases hfalse
    · cases hmove
  constructor
  · exact he.canceled h.canceled
  · exact h.created.trans_le he.created_le
  · intro hmem
    obtain hsame | ⟨p, added, hp, hadded⟩ := he.exchanged
    · exact h.outside (hsame ▸ hmem)
    · rw [hadded] at hmem
      obtain hmem | hmem := List.mem_append.mp hmem
      · exact h.outside hmem
      · have hitem := hp.item.2 ref hmem
        obtain ⟨-, rfl⟩ := hmove hp hitem (h.held p hitem)
        cases hmem
  · intro p hp
    cases he.producer p with
    | stays hstays =>
        rw [hstays] at hp ⊢
        exact h.held p hp
    | begins hidle henter hcreated =>
        rw [henter] at hp
        cases hp
        exact absurd h.created (lt_irrefl _)
    | moves added _ hp' _ =>
        have hitem := hp'.item.1.symm.trans hp
        exact .inr (hmove hp' hitem (h.held p hitem)).1
    | ends _ _ hidle =>
        rw [hidle] at hp
        cases hp

theorem enqueue_step (th : Th) {job : Job R E} (hpublic : job.IsPublic = true) :
    x.step (.enqueue th job) = x.submit th job := by
  rw [Fiber.step, if_pos hpublic]

theorem refused_of_submit (hr : (Fiber.machine : Machine (Fiber Th R E) _).Reachable x) {th : Th}
    {job : Job R E} (hcanceled : x.queue.canceled = true) (h : x.submit th job = some y) :
    Refused y x.created := by
  have hnew : ¬ x.HoldsRef x.created := fun hm => lt_irrefl _ (Fiber.lt_created hr hm)
  obtain ⟨q, hq, rfl⟩ := Fiber.submit_eq h
  obtain ⟨-, hproducers, hquiet, hsame⟩ := Fiber.enqueue_quiet hq
  constructor
  · exact hsame.trans hcanceled
  · exact Nat.lt_succ_self _
  · intro hmem
    exact hnew (.inr (hquiet.exchanged ▸ hmem))
  · intro p hp
    change (q.producers p).item = some x.created at hp
    change q.producers p = _ ∨ q.producers p = _
    rw [hproducers] at hp ⊢
    by_cases hth : p = th
    · subst hth
      exact .inl (Function.update_self ..)
    · rw [Function.update_of_ne hth] at hp
      exact (hnew (.inl ⟨p, hp⟩)).elim

end Refused

/-- What a step of the pool does to a fiber. -/
inductive PoolFiber.Step (x : PoolFiber Th R E) : PoolFiber Th R E → Prop
  | same : Step x x
  | create : x.place = .absent → Step x { x with place := .queued }
  | start (th : Th) : x.place = .queued →
      Step x { x with place := .consuming th, thread := some th }
  | act (a : FiberAct Th R E) (y : Fiber Th R E) : x.fiber.step a = some y →
      (a = .doItem → throwsCanceled x.fiber = true → x.fiber.queue.canceled = true) →
      Step x { x with fiber := y }
  | leave (th : Th) : x.place = .consuming th → Step x { x with place := .returned th }

/-- The thread of a fiber is the one that the pool has run it on, and a fiber leaves its
loop only after `CompleteAdding`. -/
structure PoolFiber.Inv (x : PoolFiber Th R E) : Prop where
  reachable : (Fiber.machine : Machine (Fiber Th R E) _).Reachable x.fiber
  thread_iff : ∀ th, x.thread = some th ↔ x.place = .consuming th ∨ x.place = .returned th
  canceled_of_consumer : ∀ cause, x.fiber.queue.consumer = .ended cause →
    (cause = .canceled ∨ ∃ token, cause = .threw (.operationCanceled token)) →
      x.fiber.queue.canceled = true
  canceled_of_ended : hasEnded x.fiber = true → x.fiber.queue.canceled = true

section PoolFiber
variable {x y : PoolFiber Th R E}

theorem PoolFiber.inv_init : ({} : PoolFiber Th R E).Inv where
  reachable := .init
  thread_iff th := ⟨nofun, by rintro (h | h) <;> cases h⟩
  canceled_of_consumer cause h := by cases h
  canceled_of_ended h := by cases h

/-- A fiber comes to its end by the `catch` of `ConsumeInContext`. -/
theorem hasEnded_of_effect {f g : Fiber Th R E} {a : FiberAct Th R E} (he : f.Effect a g)
    (h : hasEnded g = true) : hasEnded f = true ∨ f.queue.consumer = .ended .canceled ∨
      ∃ token, f.queue.consumer = .ended (.threw (.operationCanceled token)) := by
  cases he with
  | exit g hexit =>
      cases hexit with
      | drain _ hcause => exact .inr hcause
      | unhandled => cases h
      | cancel _ _ hphase | drained _ hphase | disposeSource _ hphase | disposeSemaphore _ hphase
      | endFiber hphase =>
          left
          rw [hasEnded, hphase]
  | enqueue | resume | produce | finish | consume | doItem | throw | disposeAsync | cancel
  | callback => exact .inl h

theorem PoolFiber.Inv.act (hi : x.Inv) {a : FiberAct Th R E} {z : Fiber Th R E}
    (h : x.fiber.step a = some z)
    (hguard : a = .doItem → throwsCanceled x.fiber = true → x.fiber.queue.canceled = true) :
    PoolFiber.Inv { x with fiber := z } := by
  have he := Fiber.step_effect hi.reachable h
  refine ⟨hi.reachable.next h, hi.thread_iff, ?_, ?_⟩
  · intro cause hended hcause
    obtain hbefore | ⟨-, -, -, hcanceled, -⟩ | ⟨ha, ref, e, hon, hthrown, rfl⟩ := he.ended hended
    · exact he.canceled (hi.canceled_of_consumer cause hbefore hcause)
    · exact he.canceled hcanceled
    · obtain hcanceled | ⟨token, htoken⟩ := hcause
      · cases hcanceled
      · cases htoken
        have hthrows : throwsCanceled x.fiber = true := by
          simp only [throwsCanceled, hon, hthrown]
        exact he.canceled (hguard ha hthrows)
  · intro hended
    obtain hbefore | hcause := hasEnded_of_effect he hended
    · exact he.canceled (hi.canceled_of_ended hbefore)
    · obtain hconsumer | ⟨token, hconsumer⟩ := hcause
      · exact he.canceled (hi.canceled_of_consumer _ hconsumer (.inl rfl))
      · exact he.canceled (hi.canceled_of_consumer _ hconsumer (.inr ⟨token, rfl⟩))

theorem PoolFiber.Inv.step (hi : x.Inv) (h : x.Step y) : y.Inv := by
  cases h with
  | same => exact hi
  | create habsent =>
      refine ⟨hi.reachable, fun th => ?_, hi.canceled_of_consumer, hi.canceled_of_ended⟩
      rw [hi.thread_iff th, habsent]
      simp
  | start th hqueued =>
      refine ⟨hi.reachable, fun th' => ?_, hi.canceled_of_consumer, hi.canceled_of_ended⟩
      simp
  | leave th hconsuming =>
      refine ⟨hi.reachable, fun th' => ?_, hi.canceled_of_consumer, hi.canceled_of_ended⟩
      have hthread := hi.thread_iff th'
      rw [hconsuming] at hthread
      simpa using hthread
  | act a z hstep hguard => exact hi.act hstep hguard

theorem Refused.pool_step {ref : ℕ} (hr : Refused x.fiber ref) (hi : x.Inv) (h : x.Step y) :
    Refused y.fiber ref := by
  cases h with
  | act a z hstep hguard => exact hr.step (Fiber.step_effect hi.reachable hstep)
  | same | create | start | leave => exact hr

end PoolFiber

section Calls
variable {s t : State F Th R E} {a : Act F Th R E}

theorem step_of_set {f : F} {x : PoolFiber Th R E} (hx : (s.fibers f).Step x) (g : F) :
    (s.fibers g).Step ((s.set f x).fibers g) := by
  change (s.fibers g).Step (Function.update s.fibers f x g)
  by_cases hg : g = f
  · subst hg
    rw [Function.update_self]
    exact hx
  · rw [Function.update_of_ne hg]
    exact .same

theorem step_fiber (hg : Guard s a) (h : s.step a = some t) (g : F) :
    (s.fibers g).Step (t.fibers g) := by
  cases a with
  | create f =>
      simp only [State.step] at h
      split at h <;> cases h
      exact step_of_set (.create ‹_›) g
  | start f th =>
      simp only [State.step] at h
      split at h <;> cases h
      rename_i hfree
      exact step_of_set (.start th hfree.1) g
  | act f a =>
      simp only [State.step] at h
      split at h
      · cases h
      · obtain ⟨x, hx, rfl⟩ := Option.map_eq_some_iff.mp h
        refine step_of_set (.act a x hx ?_) g
        rintro rfl
        exact hg
  | leave f =>
      simp only [State.step] at h
      split at h <;> cases h
      rename_i th hplace hphase
      exact step_of_set (.leave th hplace) g
  | send f th outcome =>
      simp only [State.step] at h
      split at h
      · cases h
      · split at h
        · cases h
          exact .same
        · obtain ⟨x, hx, rfl⟩ := Option.map_eq_some_iff.mp h
          exact step_of_set (.act _ x ((enqueue_step th rfl).trans hx) nofun) g
  | tryExecuteTaskInline f th =>
      simp only [State.step] at h
      split at h <;> cases h
      exact .same

omit [DecidableEq F] in
/-- A caller that has not left the loop of the fiber is its thread if and only if it is in
the loop. -/
theorem inline_eq_inside {f : F} {th : Th} (hi : (s.fibers f).Inv) (hleft : ¬ Left s f th) :
    decide ((s.fibers f).thread = some th) = (s.fibers f).inside th := by
  obtain ⟨hreturned, hconsuming⟩ := not_or.mp hleft
  have hthread := hi.thread_iff th
  rw [Bool.eq_iff_iff, decide_eq_true_iff, hthread, PoolFiber.inside, Bool.and_eq_true,
    decide_eq_true_iff, Bool.not_eq_true', or_iff_left hreturned]
  exact (and_iff_left_of_imp fun h =>
    Bool.eq_false_iff.mpr fun hended => hconsuming ⟨h, hended⟩).symm

theorem step_calls (hi : ∀ g, (s.fibers g).Inv) (hg : Guard s a) (h : s.step a = some t) :
    t.calls = s.calls ∨ ∃ c, t.calls = s.calls ++ [c] ∧ c.Right t := by
  cases a with
  | create f | start f th | leave f =>
      simp only [State.step] at h
      split at h <;> cases h
      exact .inl rfl
  | act f a =>
      simp only [State.step] at h
      split at h
      · cases h
      · obtain ⟨x, hx, rfl⟩ := Option.map_eq_some_iff.mp h
        exact .inl rfl
  | tryExecuteTaskInline f th =>
      simp only [State.step] at h
      split at h <;> cases h
      exact .inr ⟨_, rfl, inline_eq_inside (hi f) hg, nofun⟩
  | send f th outcome =>
      simp only [State.step] at h
      split at h
      · cases h
      · split at h
        · rename_i hthread
          cases h
          refine .inr ⟨_, rfl, inline_eq_inside (hi f) hg, fun _ hinline => ?_⟩
          exact (of_decide_eq_false hinline hthread).elim
        · obtain ⟨x, hx, rfl⟩ := Option.map_eq_some_iff.mp h
          refine .inr ⟨_, rfl, inline_eq_inside (hi f) hg, fun _ _ => ⟨_, rfl, fun hended => ?_⟩⟩
          change Refused ((Function.update s.fibers f _) f).fiber _
          rw [Function.update_self]
          exact refused_of_submit (hi f).reachable ((hi f).canceled_of_ended hended) hx

theorem Call.Right.step {c : Call F Th} (hc : c.Right s) (hi : ∀ g, (s.fibers g).Inv)
    (hg : Guard s a) (h : s.step a = some t) : c.Right t := by
  refine ⟨hc.inline_eq, fun hsend hinline => ?_⟩
  obtain ⟨ref, hqueued, hended⟩ := hc.queued hsend hinline
  exact ⟨ref, hqueued, fun h' => (hended h').pool_step (hi _) (step_fiber hg h _)⟩

theorem inv_reachable (hr : (machine : Machine (State F Th R E) _).ReachableUnder Guard s) :
    ∀ g, (s.fibers g).Inv := by
  refine hr.invariant (I := fun s => ∀ g, (s.fibers g).Inv) (fun _ => PoolFiber.inv_init) ?_
  intro s a t _ hi hg h g
  exact (hi g).step (step_fiber hg h g)

/-- In every run that meets the guard, an action is run inline in the loop of its fiber
only, and every other `Send` goes through the queue, which refuses it if the fiber has
ended. -/
theorem calls_right (hr : (machine : Machine (State F Th R E) _).ReachableUnder Guard s) :
    ∀ c ∈ s.calls, c.Right s := by
  induction hr with
  | init => nofun
  | @step s t a hr hg h ih =>
      have hi := inv_reachable hr
      intro c hc
      obtain hsame | ⟨new, hnew, hright⟩ := step_calls hi hg h
      · rw [hsame] at hc
        exact (ih c hc).step hi hg h
      · rw [hnew] at hc
        obtain hc | hc := List.mem_append.mp hc
        · exact (ih c hc).step hi hg h
        · rw [List.mem_singleton.mp hc]
          exact hright

end Calls

instance (s : State F Th R E) (f : F) (th : Th) : Decidable (Left s f th) :=
  inferInstanceAs (Decidable (_ ∨ _))

instance (s : State F Th R E) (a : Act F Th R E) : Decidable (Guard s a) :=
  match a with
  | .send f th _ | .tryExecuteTaskInline f th => inferInstanceAs (Decidable (¬ Left s f th))
  | .act _ .doItem => inferInstanceAs (Decidable (_ → _))
  | .act _ (.enqueue _ _) | .act _ (.resume _ _) | .act _ (.produce _) | .act _ (.finish _)
  | .act _ (.consume _) | .act _ .exit | .act _ .disposeAsync | .act _ (.cancel _)
  | .act _ (.callback _) | .create _ | .start _ _ | .leave _ => isTrue trivial

/-- A `Send` from another thread. -/
theorem calls_right_queued : ∃ s : State Unit Bool Unit Unit, s.calls ≠ [] ∧
    ∀ c ∈ s.calls, c.Right s := by
  obtain ⟨s, hr, hcalls⟩ :=
    (machine : Machine (State Unit Bool Unit Unit) _).exists_of_guarded_run Guard
      (p := fun s => s.calls ≠ [])
      [.create (), .start () true, .send () false (.ok ()), .tryExecuteTaskInline () true]
      (by decide) (by decide)
  exact ⟨s, hcalls, calls_right hr⟩

/-- The loop of a fiber that is disposed before it has got a work item, to its end. -/
def disposedFiber : List (Act Unit Unit Unit Unit) :=
  [.create (), .start () (), .act () .disposeAsync] ++
    List.replicate 8 (.act () (.consume true)) ++ List.replicate 5 (.act () .exit) ++ [.leave ()]

/-- The thread is used again, by code that calls `Send` of the fiber that has ended. -/
theorem inline_on_reused_thread : ∃ s : State Unit Unit Unit Unit, machine.Reachable s ∧
    ∃ c ∈ s.calls, c.kind = .send ∧ c.inline = true ∧ c.inside = false ∧ c.ended = true := by
  obtain ⟨s, hr, hcalls⟩ := (machine : Machine (State Unit Unit Unit Unit) _).exists_of_run
    (p := fun s => s.calls = [⟨.send, (), (), true, none, false, true⟩])
    (disposedFiber ++ [.send () () (.ok ())]) (by decide)
  exact ⟨s, hr, _, hcalls ▸ List.mem_singleton_self _, rfl, rfl, rfl, rfl⟩

end ComposableAsync.Concurrent.ThreadPool
