import ComposableAsync.Concurrent.FiberEffect
import Mathlib.Data.Fintype.Basic

/-!
# Shutting the fiber down

After `OnElements` the consumer cancels what it can still reach from the tail.
A producer that passed its cancellation check before `CompleteAdding` may still
be on its way to the list then. If none is when the drain reads the last link,
every work item whose `Enqueue` returned its own `Task` has been run or
cancelled. Otherwise the item is linked behind the drain and its `Task` stays
pending for ever.
-/
namespace ComposableAsync.Concurrent
open Foundations

/-- Past its cancellation check and before the end of its link store. -/
def Producer.Linking {T : Type} : Producer T → Prop
  | .create _ | .exchange _ _ | .store _ _ _ => True
  | .idle | .enter _ | .notify _ | .lock _ | .release _ | .returned _ | .canceled _
  | .raised _ _ => False

/-- The item of a producer past its Exchange. -/
def Producer.added {T : Type} : Producer T → Option T
  | .store item _ _ | .notify item | .lock item | .release item | .returned item
  | .raised item _ => some item
  | .idle | .enter _ | .create _ | .exchange _ _ | .canceled _ => none

namespace Producer
variable {T : Type} {canceled : Bool} {pc pc' : Producer T} {items : List T}

instance : DecidablePred (Linking : Producer T → Prop)
  | .create _ | .exchange _ _ | .store _ _ _ => isTrue trivial
  | .idle | .enter _ | .notify _ | .lock _ | .release _ | .returned _ | .canceled _
  | .raised _ _ => isFalse not_false

theorem Move.added (h : Move canceled pc pc' items) {item : T} (hp : pc'.added = some item) :
    pc.added = some item ∨ item ∈ items := by
  cases h <;> simp_all [Producer.added]

theorem Move.linking (h : Move true pc pc' items) (hp : ¬ pc.Linking) :
    ¬ pc'.Linking ∧ items = [] := by
  cases h <;> simp_all [Linking]

end Producer

namespace Fiber
variable {P R E : Type} [DecidableEq P] [Inhabited R] {s t : Fiber P R E}

theorem at_step (hr : (machine : Machine (Fiber P R E) _).Reachable s) {a : FiberAct P R E}
    (h : s.step a = some t) {node : ℕ} {items : List ℕ} (hat : s.queue.mpsc.At node items) :
    t.queue.mpsc.At node items := by
  rcases queue_step h with hq | ⟨b, hq⟩
  · rw [hq]
    exact hat
  · have hq' : Blocking.machine.step s.queue b = some t.queue := hq
    rcases Blocking.refines_mpsc.step hq' with hm | ⟨c, hm⟩
    · rw [hm]
      exact hat
    · exact hat.step (Blocking.mpsc_inv (queue_reachable hr)) hm

theorem at_tail (hr : (machine : Machine (Fiber P R E) _).Reachable s)
    (hhand : s.queue.consumer.inHand = none) :
    s.queue.mpsc.At s.queue.list.tail s.queue.delivered := by
  obtain ⟨front, back, hs, he⟩ := (Blocking.mpsc_inv (queue_reachable hr)).tail
  have hnone : s.queue.mpsc.handing = none := hhand
  rw [hnone, Option.toList_none, List.append_nil] at he
  exact ⟨front, back, hs, he⟩

omit [DecidableEq P] [Inhabited R] in
/-- An item past its Exchange is in the order, and so is every item whose
`Enqueue` returned. -/
structure Exchanged (s : Fiber P R E) : Prop where
  added : ∀ p ref, (s.queue.producers p).added = some ref → ref ∈ s.queue.exchanged
  returned : ∀ ref ∈ s.returned, ref ∈ s.queue.exchanged

theorem Effect.returned {a : FiberAct P R E} (h : s.Effect a t) {ref : ℕ}
    (hm : ref ∈ t.returned) :
    ref ∈ s.returned ∨ ∃ p, t.queue.producers p = .returned ref := by
  cases h with
  | produce p pc added q _ hproducers =>
      dsimp only at hm
      split at hm
      · rcases List.mem_cons.mp hm with rfl | hm
        · refine .inr ⟨p, ?_⟩
          change q.producers p = _
          rw [hproducers, Function.update_self]
        · exact .inl hm
      · exact .inl hm
  | exit t hexit => cases hexit <;> exact .inl hm
  | _ => exact .inl hm

theorem exchanged_reachable (hr : (machine : Machine (Fiber P R E) _).Reachable s) :
    s.Exchanged := by
  refine hr.invariant ⟨(fun _ _ h => by cases h), fun _ h => by cases h⟩ ?_
  intro s a t hr hi h
  have he := step_effect hr h
  have hadded : ∀ p ref, (t.queue.producers p).added = some ref → ref ∈ t.queue.exchanged := by
    intro p ref hp
    cases he.producer p with
    | stays hstays =>
        rw [hstays] at hp
        exact he.exchanged_prefix.subset (hi.added p ref hp)
    | begins _ henter _ =>
        rw [henter] at hp
        cases hp
    | moves added _ hmove hexchanged =>
        rcases hmove.added hp with hp | hm
        · exact he.exchanged_prefix.subset (hi.added p ref hp)
        · rw [hexchanged]
          exact List.mem_append_right _ hm
    | ends _ _ hidle =>
        rw [hidle] at hp
        cases hp
  refine ⟨hadded, fun ref hm => ?_⟩
  rcases he.returned hm with hm | ⟨p, hp⟩
  · exact he.exchanged_prefix.subset (hi.returned ref hm)
  · apply hadded p ref
    rw [hp]
    rfl

omit [DecidableEq P] [Inhabited R] in
/-- The work item has completed its `Task`, or its token is cancelled and the
registered callback, which completes it, is still to run. -/
def Settled (s : Fiber P R E) (ref : ℕ) : Prop :=
  (s.items ref).source.isCompleted = true ∨
    ∃ token, (s.items ref).job.token = some token ∧ (s.items ref).registration = some token ∧
      s.requested token = true

theorem Effect.requested {a : FiberAct P R E} (h : s.Effect a t) {token : Token}
    (hr : s.requested token = true) : t.requested token = true := by
  cases h with
  | cancel tk =>
      by_cases htk : token = tk
      · exact htk ▸ Function.update_self ..
      · exact (Function.update_of_ne htk ..).trans hr
  | exit t hexit => cases hexit <;> exact hr
  | _ => exact hr

theorem Effect.registration {a : FiberAct P R E} (h : s.Effect a t) {ref : ℕ}
    (href : ref < s.created) {token : Token} (hj : (s.items ref).job.token = some token) :
    (t.items ref).registration = (s.items ref).registration ∨
      (t.items ref).source.isCompleted = true ∨
      a = .doItem ∧ s.requested token = false ∧ s.queue.consumer = .onItem ref ∧
        t.items = (Concurrent.doItem s.requested s.items ref).1 := by
  have hne : ref ≠ s.created := Nat.ne_of_lt href
  cases h with
  | enqueue p job q =>
      exact .inl (congrArg WorkItem.registration (Function.update_of_ne hne ..))
  | resume p target q =>
      left
      have hresume : (Function.update s.items target (s.items target).resume ref).registration =
          (s.items ref).registration := by
        apply registration_update
        rfl
      exact (congrArg WorkItem.registration (Function.update_of_ne hne ..)).trans hresume
  | doItem r q hc | throw r e q hc =>
      rcases doItem_registration s.requested s.items r ref with h | ⟨rfl, tk, htk, hreq⟩
      · exact .inl h
      · rw [hj] at htk
        cases htk
        exact .inr (.inr ⟨rfl, hreq, hc, rfl⟩)
  | exit t hexit =>
      left
      cases hexit with
      | cancel node next =>
          apply registration_update
          exact WorkItem.cancel_registration _
      | drain | unhandled | drained | disposeSource | disposeSemaphore | endFiber => rfl
  | callback r tk _ _ =>
      by_cases hr : ref = r
      · subst hr
        have hcancel : (s.items ref).cancel.source.isCompleted = true := by
          apply WorkItem.cancel_completed
          intro o ho
          rw [ho] at hj
          cases hj
        rw [setItem_self]
        exact .inr (.inl hcancel)
      · rw [setItem_of_ne s hr]
        exact .inl rfl
  | produce | finish | consume | disposeAsync | cancel => exact .inl rfl

theorem Effect.settled {a : FiberAct P R E} (h : s.Effect a t) {ref : ℕ}
    (href : ref < s.created) (hs : s.Settled ref) : t.Settled ref := by
  have hlater := h.later href
  rcases hs with hc | ⟨token, hj, hreg, hreq⟩
  · left
    rw [hlater.source hc]
    exact hc
  · rcases h.registration href hj with hsame | hc | hno
    · exact .inr ⟨token, hlater.job ▸ hj, hsame.trans hreg, h.requested hreq⟩
    · exact .inl hc
    · cases hno.2.1.symm.trans hreq

omit [DecidableEq P] [Inhabited R] in
/-- Callers use the overloads for synchronous delegates. -/
def SyncOnly (_ : Fiber P R E) : FiberAct P R E → Prop
  | .enqueue _ job => job.IsSync
  | _ => True

omit [DecidableEq P] [Inhabited R] in
/-- When the drain reads the missing link that ends it, no producer is between
its passed cancellation check and its link store. -/
def DrainsAlone (s : Fiber P R E) : FiberAct P R E → Prop
  | .exit => ∀ node ∈ s.phase.node, s.queue.list.link node = none →
      ∀ p, ¬ (s.queue.producers p).Linking
  | _ => True

instance (s : Fiber P R E) : DecidablePred s.SyncOnly
  | .enqueue _ job => inferInstanceAs (Decidable job.IsSync)
  | .resume _ _ | .produce _ | .finish _ | .consume _ | .doItem | .exit | .disposeAsync
  | .cancel _ | .callback _ => isTrue trivial

instance [Fintype P] (s : Fiber P R E) : DecidablePred s.DrainsAlone
  | .exit => inferInstanceAs (Decidable (∀ node ∈ s.phase.node, s.queue.list.link node = none →
      ∀ p, ¬ (s.queue.producers p).Linking))
  | .enqueue _ _ | .resume _ _ | .produce _ | .finish _ | .consume _ | .doItem | .disposeAsync
  | .cancel _ | .callback _ => isTrue trivial

omit [DecidableEq P] [Inhabited R] in
structure SyncItems (s : Fiber P R E) : Prop where
  sync : ∀ ref, s.HoldsRef ref → (s.items ref).job.IsSync
  registered : ∀ ref, s.HoldsRef ref → ∀ token, (s.items ref).job.token = some token →
    (s.items ref).source.isCompleted = true ∨ (s.items ref).registration = some token
  idle : ∀ ref, (s.items ref).awaiting = false

/-- A synchronous delegate never suspends, and its work item stays registered
with its token until the task is completed. -/
theorem SyncItems.step (hr : (machine : Machine (Fiber P R E) _).Reachable s)
    (hi : s.SyncItems) {a : FiberAct P R E} (hg : s.SyncOnly a) (h : s.step a = some t)
    (honItem : ∀ ref, s.queue.consumer = .onItem ref → s.HoldsRef ref) : t.SyncItems := by
  have he := step_effect hr h
  have hnew : t.created = s.created + 1 →
      ∃ job : Job R E, job.IsSync ∧ t.items s.created = WorkItem.create s.requested job := by
    intro hcreated
    rcases he.created hcreated with ⟨job, ⟨⟨p, rfl⟩, hitem⟩ | ⟨⟨p, target, -, hawaiting, -⟩, -⟩⟩
    · exact ⟨job, hg, hitem⟩
    · cases (hi.idle target).symm.trans hawaiting
  refine ⟨fun ref hm => ?_, fun ref hm token hj => ?_, fun ref => ?_⟩
  · rcases he.holdsRef hm with hm | ⟨rfl, hcreated⟩
    · rw [(he.later (lt_created hr hm)).job]
      exact hi.sync ref hm
    · obtain ⟨job, hsync, hitem⟩ := hnew hcreated
      rw [hitem, WorkItem.create_job]
      exact hsync
  · rcases he.holdsRef hm with hm | ⟨rfl, hcreated⟩
    · have hlater := he.later (lt_created hr hm)
      rw [hlater.job] at hj
      rcases hi.registered ref hm token hj with hc | hreg
      · left
        rw [hlater.source hc]
        exact hc
      · rcases he.registration (lt_created hr hm) hj with hsame | hc | hno
        · exact .inr (hsame.trans hreg)
        · exact .inl hc
        · obtain ⟨-, hreq, hc, hitems⟩ := hno
          rcases doItem_sync s.requested (hi.sync ref hm) with
            ⟨-, tk, htk, hreq'⟩ | ⟨w, hw, hcompleted, -⟩
          · rw [hj] at htk
            cases htk
            cases hreq.symm.trans hreq'
          · left
            rw [hitems, hw, Function.update_self]
            exact hcompleted
    · obtain ⟨job, hsync, hitem⟩ := hnew hcreated
      rw [hitem, WorkItem.create_job] at hj
      rw [hitem]
      exact WorkItem.create_registered hj
  · have hset : ∀ {r : ℕ} {w : WorkItem R E}, w.awaiting = false →
        (Function.update s.items r w ref).awaiting = false := by
      intro r w hw
      by_cases hr : ref = r
      · rw [hr, Function.update_self, hw]
      · rw [Function.update_of_ne hr]
        exact hi.idle ref
    have hdo : ∀ r, s.queue.consumer = .onItem r →
        ((Concurrent.doItem s.requested s.items r).1 ref).awaiting = false := by
      intro r hc
      rcases doItem_sync s.requested (hi.sync r (honItem r hc)) with
        ⟨hsame, -⟩ | ⟨w, hw, -, hawaiting⟩
      · rw [hsame]
        exact hi.idle ref
      · rw [hw]
        exact hset (hawaiting.trans (hi.idle r))
    cases he with
    | enqueue p job q => exact hset (WorkItem.create_awaiting ..)
    | resume p target q hawaiting => cases (hi.idle target).symm.trans hawaiting
    | doItem r q hc | throw r e q hc => exact hdo r hc
    | exit t hexit =>
        cases hexit with
        | cancel node next => exact hset ((WorkItem.cancel_awaiting _).trans (hi.idle _))
        | drain | unhandled | drained | disposeSource | disposeSemaphore | endFiber =>
            exact hi.idle ref
    | callback r token => exact hset ((WorkItem.cancel_awaiting _).trans (hi.idle r))
    | produce | finish | consume | disposeAsync | cancel => exact hi.idle ref

omit [DecidableEq P] [Inhabited R] in
/-- How far the consumer has come with the items, by the place in `Consume`. -/
def Drains (s : Fiber P R E) : Prop :=
  match s.phase with
  | .onElements => s.drained = []
  | .getUnsafeQueue node =>
      s.queue.consumer = .ended .canceled ∧
        s.queue.mpsc.At node (s.queue.delivered ++ s.drained)
  | .disposeSource | .disposeSemaphore | .endFiber | .finished =>
      s.queue.consumer = .ended .canceled ∧ (∀ p, ¬ (s.queue.producers p).Linking) ∧
        s.queue.delivered ++ s.drained = s.queue.exchanged
  | .unhandled => False

omit [DecidableEq P] [Inhabited R] in
/-- The consumer leaves by cancellation only. What it has done or cancelled is
settled, and the drain reads on from where it stopped. -/
structure SyncRun (s : Fiber P R E) : Prop where
  items : s.SyncItems
  leaves : ∀ cause, s.queue.consumer = .ended cause →
    cause = .canceled ∧ s.queue.canceled = true
  did : ∀ ref ∈ s.queue.delivered, s.queue.consumer ≠ .onItem ref → s.Settled ref
  drained : ∀ ref ∈ s.drained, ref ∈ s.queue.exchanged ∧ s.Settled ref
  drains : s.Drains

theorem delivered_exchanged (hr : (machine : Machine (Fiber P R E) _).Reachable s) {ref : ℕ}
    (hm : ref ∈ s.queue.delivered) : ref ∈ s.queue.exchanged := by
  rw [Blocking.exchanged_eq (queue_reachable hr)]
  exact List.mem_append_left _ (List.mem_append_left _ hm)

theorem holdsRef_of_onItem (hr : (machine : Machine (Fiber P R E) _).Reachable s) {ref : ℕ}
    (hc : s.queue.consumer = .onItem ref) : s.HoldsRef ref :=
  .inr (delivered_exchanged hr (Blocking.mem_of_onItem (queue_reachable hr) hc))

theorem SyncRun.leaves_step (hr : (machine : Machine (Fiber P R E) _).Reachable s)
    (hi : s.SyncRun) {a : FiberAct P R E} (he : s.Effect a t) :
    ∀ cause, t.queue.consumer = .ended cause → cause = .canceled ∧ t.queue.canceled = true := by
  intro cause hcause
  rcases he.ended hcause with hold | ⟨-, -, -, hcanceled, rfl⟩ | ⟨-, ref, e, hc, hthrown, -⟩
  · exact (hi.leaves cause hold).imp_right he.canceled
  · exact ⟨rfl, he.canceled hcanceled⟩
  · -- only a dispatched delegate throws
    have hnone := (hi.items.sync ref (holdsRef_of_onItem hr hc)).thrown
    cases hnone.symm.trans hthrown

theorem SyncItems.doItem (hi : s.SyncItems) {a : FiberAct P R E} (he : s.Effect a t) {ref : ℕ}
    (hheld : s.HoldsRef ref)
    (hitems : t.items = (Concurrent.doItem s.requested s.items ref).1) : t.Settled ref := by
  unfold Settled
  rw [hitems]
  rcases doItem_sync s.requested (hi.sync ref hheld) with
    ⟨hsame, token, hj, hreq⟩ | ⟨w, hw, hcompleted, -⟩
  · -- `Do` found the token cancelled; the callback completes the task
    rw [hsame]
    rcases hi.registered ref hheld token hj with hcompleted | hreg
    · exact .inl hcompleted
    · exact .inr ⟨token, hj, hreg, he.requested hreq⟩
  · left
    rw [hw, Function.update_self]
    exact hcompleted

theorem SyncRun.did_step (hr : (machine : Machine (Fiber P R E) _).Reachable s)
    (hi : s.SyncRun) {a : FiberAct P R E} (he : s.Effect a t) :
    ∀ ref ∈ t.queue.delivered, t.queue.consumer ≠ .onItem ref → t.Settled ref := by
  have hold : ∀ ref ∈ s.queue.delivered, s.queue.consumer ≠ .onItem ref → t.Settled ref :=
    fun ref hm hne =>
      he.settled (lt_created hr (.inr (delivered_exchanged hr hm))) (hi.did ref hm hne)
  intro ref hm hne
  cases he.consumer with
  | stays hconsumer hdelivered _ =>
      rw [hdelivered] at hm
      rw [hconsumer] at hne
      exact hold ref hm hne
  | moves yields _ hmove _ =>
      cases hmove with
      | loop hloop _ _ hdelivered =>
          rw [hdelivered] at hm
          refine hold ref hm fun hc => ?_
          rw [hc] at hloop
          exact hloop.elim
      | take item hc _ _ hdelivered =>
          rw [hdelivered] at hm
          exact hold ref hm (by simp [hc])
      | hand item hc ht _ hdelivered =>
          rw [hdelivered] at hm
          rcases List.mem_append.mp hm with hm | hm
          · exact hold ref hm (by simp [hc])
          · rw [List.mem_singleton.mp hm] at hne
            exact (hne ht).elim
      | leave hc _ _ _ _ hdelivered =>
          rw [hdelivered] at hm
          exact hold ref hm (by simp [hc])
  | returns r _ hc _ _ hdelivered _ hitems =>
      rw [hdelivered] at hm
      by_cases hrr : ref = r
      · subst hrr
        exact hi.items.doItem he (holdsRef_of_onItem hr hc) hitems
      · refine hold ref hm fun hc' => ?_
        cases hc.symm.trans hc'
        exact hrr rfl
  | throws r e _ hc hthrown =>
      have hnone := (hi.items.sync r (holdsRef_of_onItem hr hc)).thrown
      cases hnone.symm.trans hthrown

theorem SyncRun.next (hr : (machine : Machine (Fiber P R E) _).Reachable s) (hi : s.SyncRun)
    {node next : ℕ} (hphase : s.phase = .getUnsafeQueue node)
    (hlink : s.queue.list.link node = some next) :
    s.queue.mpsc.At next (s.queue.delivered ++ (s.drained ++ [s.queue.list.value next])) ∧
      s.queue.list.value next ∈ s.queue.exchanged := by
  have hdrains := hi.drains
  rw [Drains, hphase] at hdrains
  have hnext := hdrains.2.next (Blocking.mpsc_inv (queue_reachable hr)) hlink
  rw [List.append_assoc] at hnext
  refine ⟨hnext, hnext.isPrefix.subset ?_⟩
  simp [Blocking.mpsc]

theorem SyncRun.drained_step (hr : (machine : Machine (Fiber P R E) _).Reachable s)
    (hi : s.SyncRun) {a : FiberAct P R E} (he : s.Effect a t) :
    ∀ ref ∈ t.drained, ref ∈ t.queue.exchanged ∧ t.Settled ref := by
  have hold : ∀ ref ∈ s.drained, ref ∈ t.queue.exchanged ∧ t.Settled ref := by
    intro ref hm
    obtain ⟨hexchanged, hsettled⟩ := hi.drained ref hm
    exact ⟨he.exchanged_prefix.subset hexchanged,
      he.settled (lt_created hr (.inr hexchanged)) hsettled⟩
  cases he with
  | exit t hexit =>
      cases hexit with
      | cancel node next hphase hlink =>
          intro ref hm
          rcases List.mem_append.mp hm with hm | hm
          · exact hold ref hm
          · rw [List.mem_singleton] at hm
            subst hm
            obtain ⟨-, hexchanged⟩ := hi.next hr hphase hlink
            refine ⟨hexchanged, .inl ?_⟩
            have hsync := hi.items.sync _ (.inr hexchanged)
            simp only [Function.update_self]
            apply WorkItem.cancel_completed
            intro o ho
            rw [ho] at hsync
            exact hsync
      | drain | unhandled | drained | disposeSource | disposeSemaphore | endFiber => exact hold
  | _ => exact hold

omit [DecidableEq P] [Inhabited R] in
theorem Drains.keep (hd : s.Drains) (hphase : t.phase = s.phase) (hdrained : t.drained = s.drained)
    (hat : ∀ node items, s.queue.mpsc.At node items → t.queue.mpsc.At node items)
    (hended : s.queue.consumer = .ended .canceled →
      t.queue.consumer = .ended .canceled ∧ t.queue.delivered = s.queue.delivered)
    (hlast : s.queue.consumer = .ended .canceled → (∀ p, ¬ (s.queue.producers p).Linking) →
      (∀ p, ¬ (t.queue.producers p).Linking) ∧ t.queue.exchanged = s.queue.exchanged) :
    t.Drains := by
  unfold Drains at hd ⊢
  rw [hphase, hdrained]
  cases hp : s.phase with
  | onElements => simpa only [hp] using hd
  | getUnsafeQueue node =>
      simp only [hp] at hd ⊢
      obtain ⟨hc, hdelivered⟩ := hended hd.1
      rw [hdelivered]
      exact ⟨hc, hat _ _ hd.2⟩
  | disposeSource | disposeSemaphore | endFiber | finished =>
      simp only [hp] at hd ⊢
      obtain ⟨hc, hdelivered⟩ := hended hd.1
      obtain ⟨hlinking, hexchanged⟩ := hlast hd.1 hd.2.1
      rw [hdelivered, hexchanged]
      exact ⟨hc, hlinking, hd.2.2⟩
  | unhandled => simp only [hp] at hd

theorem Effect.stays_clear {a : FiberAct P R E} {Inside : Producer ℕ → Prop} (h : s.Effect a t)
    (hcanceled : s.queue.canceled = true) (hidle : ¬ Inside .idle)
    (henter : ∀ ref, ¬ Inside (.enter ref))
    (hmove : ∀ {pc pc' added}, Producer.Move true pc pc' added → ¬ Inside pc →
      ¬ Inside pc' ∧ added = [])
    (hclear : ∀ p, ¬ Inside (s.queue.producers p)) :
    (∀ p, ¬ Inside (t.queue.producers p)) ∧ t.queue.exchanged = s.queue.exchanged := by
  constructor
  · intro p
    cases h.producer p with
    | stays hstays =>
        rw [hstays]
        exact hclear p
    | begins _ hbegins _ =>
        rw [hbegins]
        exact henter s.created
    | moves added _ hmoves _ =>
        rw [hcanceled] at hmoves
        exact (hmove hmoves (hclear p)).1
    | ends _ _ hends =>
        rw [hends]
        exact hidle
  · rcases h.exchanged with hsame | ⟨p, added, hmoves, hexchanged⟩
    · exact hsame
    · rw [hcanceled] at hmoves
      rw [hexchanged, (hmove hmoves (hclear p)).2, List.append_nil]

theorem Effect.not_linking {a : FiberAct P R E} (h : s.Effect a t)
    (hcanceled : s.queue.canceled = true) (hl : ∀ p, ¬ (s.queue.producers p).Linking) :
    (∀ p, ¬ (t.queue.producers p).Linking) ∧ t.queue.exchanged = s.queue.exchanged :=
  h.stays_clear hcanceled not_false (fun _ => not_false) (fun hmove => hmove.linking) hl

/-- Once the consumer has left, only the drain moves on; after a last read with
no producer on its way, nothing is added any more. -/
theorem SyncRun.drains_step (hr : (machine : Machine (Fiber P R E) _).Reachable s)
    (hi : s.SyncRun) {a : FiberAct P R E} (hg : s.DrainsAlone a) (h : s.step a = some t) :
    t.Drains := by
  have hd := hi.drains
  have hat : ∀ node items, s.queue.mpsc.At node items → t.queue.mpsc.At node items :=
    fun _ _ => at_step hr h
  have he := step_effect hr h
  have hlast : s.queue.consumer = .ended .canceled → (∀ p, ¬ (s.queue.producers p).Linking) →
      (∀ p, ¬ (t.queue.producers p).Linking) ∧ t.queue.exchanged = s.queue.exchanged :=
    fun hc => he.not_linking (hi.leaves _ hc).2
  cases he with
  | exit t hexit =>
      cases hexit with
      | drain hphase hcause =>
          have hc : s.queue.consumer = .ended .canceled := by
            rcases hcause with hc | ⟨token, hc⟩
            · exact hc
            · cases (hi.leaves _ hc).1
          unfold Drains at hd
          rw [hphase] at hd
          have hdrained : s.drained = [] := hd
          have hhand : s.queue.consumer.inHand = none := by
            rw [hc]
            rfl
          refine ⟨hc, ?_⟩
          simp only [hdrained, List.append_nil]
          exact at_tail hr hhand
      | unhandled hphase hcause =>
          rcases hcause with ⟨e, hc⟩ | hc
          · cases (hi.leaves _ hc).1
          · cases (hi.leaves _ hc).1
      | cancel node next hphase hlink =>
          unfold Drains at hd
          rw [hphase] at hd
          exact ⟨hd.1, (hi.next hr hphase hlink).1⟩
      | drained node hphase hlink =>
          -- no link is owed, so the last node has been read
          unfold Drains at hd
          rw [hphase] at hd
          have hlinking := hg node (by simp [hphase, Phase.node]) hlink
          have hwriters : ∀ p n prev, s.queue.mpsc.writers p ≠ .exchanged n prev := by
            intro p n prev hp
            obtain ⟨item, hp⟩ := Producer.writer_eq_exchanged.mp hp
            apply hlinking p
            rw [hp]
            trivial
          have hall := hd.2.last (Blocking.mpsc_inv (queue_reachable hr)) hwriters hlink
          exact ⟨hd.1, hlinking, hall⟩
      | disposeSource q hphase hquiet hproducers | disposeSemaphore q hphase hquiet hproducers =>
          unfold Drains at hd
          rw [hphase] at hd
          refine ⟨hquiet.consumer.trans hd.1, ?_, ?_⟩
          · simp only [hproducers]
            exact hd.2.1
          · simp only [hquiet.delivered, hquiet.exchanged]
            exact hd.2.2
      | endFiber hphase =>
          unfold Drains at hd
          rw [hphase] at hd
          exact hd
  | enqueue p job q _ _ _ hquiet | resume p target q _ _ _ hquiet | finish p q _ _ hquiet
  | disposeAsync q hquiet =>
      exact hd.keep rfl rfl hat (fun hc => ⟨hquiet.consumer.trans hc, hquiet.delivered⟩) hlast
  | produce p pc items q _ _ hc hdelivered =>
      exact hd.keep rfl rfl hat (fun hc' => ⟨hc.trans hc', hdelivered⟩) hlast
  | consume yields q hmove he hproducers =>
      have hrunning : s.queue.consumer ≠ .ended .canceled := by
        intro hc
        cases hmove with
        | loop hloop => rw [hc] at hloop; exact hloop
        | take _ hc' | hand _ hc' | leave hc' => cases hc.symm.trans hc'
      exact hd.keep rfl rfl hat (fun hc => (hrunning hc).elim) fun hc => (hrunning hc).elim
  | doItem r q hc | throw r e q hc =>
      have hrunning : s.queue.consumer ≠ .ended .canceled := fun hc' => by cases hc.symm.trans hc'
      exact hd.keep rfl rfl hat (fun hc => (hrunning hc).elim) fun hc => (hrunning hc).elim
  | cancel token => exact hd
  | callback ref token => exact hd

theorem syncRun_reachable
    (hr : (machine : Machine (Fiber P R E) _).ReachableUnder
      (fun s a => s.SyncOnly a ∧ s.DrainsAlone a) s) : s.SyncRun := by
  refine hr.invariant ?_ ?_
  · refine ⟨⟨?_, ?_, fun _ => rfl⟩, (fun _ h => by cases h), (fun _ h => by cases h),
      (fun _ h => by cases h), rfl⟩
    · rintro ref (⟨p, hp⟩ | hm)
      · cases hp
      · cases hm
    · rintro ref (⟨p, hp⟩ | hm)
      · cases hp
      · cases hm
  · intro s a t hr hi hg h
    have hr := hr.reachable
    have he := step_effect hr h
    exact ⟨hi.items.step hr hg.1 h fun _ => holdsRef_of_onItem hr, hi.leaves_step hr he,
      hi.did_step hr he, hi.drained_step hr he, hi.drains_step hr hg.2 h⟩

/-- If the drain reads its last link with no producer between its check and its
link store, every work item whose `Enqueue` returned its own `Task` has had `Do`
or `Cancel` called when the fiber has finished, and its `Task` is settled. -/
theorem noOrphan_of_drainsAlone
    (hr : (machine : Machine (Fiber P R E) _).ReachableUnder
      (fun s a => s.SyncOnly a ∧ s.DrainsAlone a) s) (hf : s.phase = .finished) :
    ∀ ref ∈ s.returned, (ref ∈ s.queue.delivered ∨ ref ∈ s.drained) ∧ s.Settled ref := by
  intro ref hm
  have hi := syncRun_reachable hr
  have hdrains := hi.drains
  unfold Drains at hdrains
  rw [hf] at hdrains
  obtain ⟨hc, -, hall⟩ := hdrains
  have hexchanged := (exchanged_reachable hr.reachable).returned ref hm
  rw [← hall] at hexchanged
  rcases List.mem_append.mp hexchanged with hd | hd
  · exact ⟨.inl hd, hi.did ref hd (by simp [hc])⟩
  · exact ⟨.inr hd, (hi.drained ref hd).2⟩

/-- One item is run; a second is linked while the consumer leaves, and is
cancelled by the drain. -/
theorem noOrphan_of_drainsAlone_two :
    ∃ s : Fiber Unit ℕ Unit, s.returned = [2, 1] ∧ s.queue.delivered = [1] ∧ s.drained = [2] ∧
      ∀ ref ∈ s.returned, (ref ∈ s.queue.delivered ∨ ref ∈ s.drained) ∧ s.Settled ref := by
  obtain ⟨s, hr, hf, hret, hdel, hdrained⟩ := Machine.exists_of_guarded_run (M := machine)
    (p := fun s : Fiber Unit ℕ Unit => s.phase = .finished ∧ s.returned = [2, 1] ∧
      s.queue.delivered = [1] ∧ s.drained = [2])
    (fun s a => s.SyncOnly a ∧ s.DrainsAlone a)
    (List.flatten [[.enqueue () (.workItem (.ok 5))], List.replicate 5 (.produce ()),
      [.finish ()], List.replicate 4 (.consume true), [.doItem], List.replicate 7 (.consume true),
      [.enqueue () (.cancellableWorkItem 3 (.ok 6))], List.replicate 4 (.produce ()),
      [.disposeAsync, .consume true, .exit, .exit, .exit], List.replicate 3 (.produce ()),
      [.exit, .exit, .exit]])
    (by decide) (by decide)
  exact ⟨s, hret, hdel, hdrained, noOrphan_of_drainsAlone hr hf⟩

/-- A producer passes its check before `DisposeAsync` and links its item behind
the drain; its `Enqueue` returns a `Task` that nobody will complete. -/
theorem orphan_behind_the_drain :
    ¬ ∀ s : Fiber Unit ℕ Unit, (machine : Machine (Fiber Unit ℕ Unit) _).ReachableUnder
        (fun s a => s.SyncOnly a) s → s.phase = .finished →
      (∀ p, ∃ ref, s.queue.producers p = .returned ref) →
      ∀ ref ∈ s.returned, (ref ∈ s.queue.delivered ∨ ref ∈ s.drained) ∧ s.Settled ref := by
  intro h
  obtain ⟨s, hr, hf, hp, hret, hdel, hdrained⟩ := Machine.exists_of_guarded_run (M := machine)
    (p := fun s : Fiber Unit ℕ Unit => s.phase = .finished ∧
      s.queue.producers () = .returned 1 ∧ s.returned = [1] ∧
      s.queue.delivered = [] ∧ s.drained = [])
    (fun s a => s.SyncOnly a)
    (List.flatten [List.replicate 7 (.consume true), [.enqueue () (.workItem (.ok 5)),
      .produce (), .disposeAsync, .consume true, .exit, .exit], List.replicate 6 (.produce ()),
      [.exit, .exit, .exit]])
    (by decide) (by decide)
  obtain ⟨hdone, -⟩ := h s hr hf (fun _ => ⟨1, hp⟩) 1 (by simp [hret])
  rw [hdel, hdrained] at hdone
  simp at hdone

end Fiber
end ComposableAsync.Concurrent
