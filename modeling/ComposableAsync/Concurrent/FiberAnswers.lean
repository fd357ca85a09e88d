import ComposableAsync.Concurrent.FiberContinuations
import ComposableAsync.Concurrent.FiberLiveness
import ComposableAsync.Concurrent.FiberSegments

/-!
# Every call is answered

A call of `Enqueue` adds its work item, the consumer comes to it, and its `Do` completes
the task, or suspends the delegate; then the end of the awaited operation posts the
continuation, and so on, once for each await that is left. So in a fair run in which what
a delegate awaits ends, its task is completed, unless the fiber stops: `DisposeAsync` is
called, or a dispatched delegate throws.
-/
namespace ComposableAsync.Concurrent
open Foundations

namespace Fiber
variable {P R E : Type}

/-- The fiber has been told to stop, or stopped by what a dispatched delegate threw. -/
def Stopped (s : Fiber P R E) : Prop :=
  s.queue.canceled = true ∨ ∃ c ∈ s.queue.delivered, (s.items c).job.thrown ≠ none

/-- The work item is in the queue, or its `Enqueue` is on the way to its Exchange. -/
def Called (s : Fiber P R E) (ref : ℕ) : Prop :=
  ref ∈ s.queue.exchanged ∨ ∃ p, (s.queue.producers p).unadded = some ref

variable [DecidableEq P] [Inhabited R] {s t : Fiber P R E} {ref c : ℕ}

theorem Stopped.step (hr : (machine : Machine (Fiber P R E) _).Reachable s) (hs : s.Stopped)
    {a : FiberAct P R E} (he : s.Effect a t) : t.Stopped := by
  rcases hs with hc | ⟨c, hm, hthrown⟩
  · exact .inl (he.canceled hc)
  · have hlt := lt_created hr (.inr (delivered_exchanged hr hm))
    refine .inr ⟨c, ?_, ?_⟩
    · rcases he.delivered with hsame | ⟨r, -, -, hnew⟩
      · rwa [hsame]
      · rw [hnew]
        exact List.mem_append_left _ hm
    · rwa [(he.later hlt).job]

theorem Called.lt_created (hr : (machine : Machine (Fiber P R E) _).Reachable s)
    (h : s.Called ref) : ref < s.created := by
  rcases h with hm | ⟨p, hp⟩
  · exact Fiber.lt_created hr (.inr hm)
  · exact Fiber.lt_created hr (.inl ⟨p, Producer.item_of_unadded hp⟩)

theorem stopped_of_ended (hr : (machine : Machine (Fiber P R E) _).Reachable s)
    {cause : Ended (Exn E)} (hc : s.queue.consumer = .ended cause) : s.Stopped := by
  have hcauses := causes_reachable hr
  cases cause with
  | canceled => exact .inl (hcauses.canceled hc)
  | nullReference => exact (hcauses.nullReference hc).elim
  | threw e =>
      obtain ⟨c, hm, hthrown⟩ := hcauses.threw e hc
      exact .inr ⟨c, hm, by simp [hthrown]⟩

omit [DecidableEq P] [Inhabited R] in
/-- Of a fiber that has not stopped: a synchronous work item is settled when its `Do` has
ended, an asynchronous one is on its way. -/
structure Prompt (s : Fiber P R E) : Prop where
  async : s.AsyncRun
  sync : ∀ ref ∈ s.queue.delivered, (s.items ref).job.IsSync →
    s.Settled ref ∨ s.queue.consumer = .onItem ref ∧ s.Registered ref

theorem Registered.doItem_sync (h : s.Registered ref) (hj : (s.items ref).job.IsSync)
    {a : FiberAct P R E} (he : s.Effect a t) (hc : s.queue.consumer = .onItem ref)
    (ha : a = .doItem) : t.Settled ref := by
  have hitems : t.items = (Concurrent.doItem s.requested s.items ref).1 ∧
      t.requested = s.requested := by
    subst ha
    cases he with
    | doItem r q hc' | throw r e q hc' =>
        cases hc.symm.trans hc'
        exact ⟨rfl, rfl⟩
  rw [Settled, hitems.1, hitems.2]
  rcases Concurrent.doItem_sync s.requested hj with ⟨hsame, token, htoken, hreq⟩ | ⟨w, hw, hdone, -⟩
  · rw [hsame]
    exact (h token htoken).imp_right fun hreg => ⟨token, htoken, hreg, hreq⟩
  · rw [hw, Function.update_self]
    exact .inl hdone

theorem keepsResumptions_of_not_stopped (hr : (machine : Machine (Fiber P R E) _).Reachable s)
    (hs : ¬ s.Stopped) {a : FiberAct P R E} (h : s.step a = some t) : s.KeepsResumptions a := by
  have hopen : s.queue.canceled = false := Bool.eq_false_iff.mpr fun hc => hs (.inl hc)
  cases a with
  | produce p =>
      intro c _ _
      refine ⟨hopen, ?_⟩
      cases hc : s.queue.consumer with
      | ended cause => exact (hs (stopped_of_ended hr hc)).elim
      | _ => rfl
  | consume yields =>
      intro hc hpermits
      simp [step, Blocking.step, Blocking.consumeStep, hc, EventCount.waitOne, hpermits, hopen] at h
  | doItem =>
      intro c hc hthrown
      simp only [step] at h
      split at h
      · rename_i r hcons
        obtain rfl : r = c := by
          rw [hcons] at hc
          exact Option.some.inj hc
        have hm := Blocking.mem_of_onItem (queue_reachable hr) hcons
        exact (hs (.inr ⟨r, hm, hthrown⟩)).elim
      · cases h
  | _ => exact trivial

theorem Prompt.step (hr : (machine : Machine (Fiber P R E) _).Reachable s) (hi : s.Prompt)
    (hs : ¬ s.Stopped) {a : FiberAct P R E} (h : s.step a = some t) : t.Prompt := by
  have he := step_effect hr h
  refine ⟨hi.async.step hr (keepsResumptions_of_not_stopped hr hs h) he, fun ref hm hj => ?_⟩
  by_cases hd : ref ∈ s.queue.delivered
  · have hlt := lt_created hr (.inr (delivered_exchanged hr hd))
    rw [(he.later hlt).job] at hj
    rcases hi.sync ref hd hj with hsettled | ⟨hc, hreg⟩
    · exact .inl (he.settled hlt hsettled)
    · by_cases ha : a = .doItem
      · exact .inl (hreg.doItem_sync hj he hc ha)
      · have hc' := ((he.onItem hc).resolve_left ha).1
        exact .inr ⟨hc', hreg.step hlt he fun h => (ha h).elim⟩
  · rcases he.delivered with hsame | ⟨r, hc, hc', hnew⟩
    · exact (hd (hsame ▸ hm)).elim
    · rw [hnew] at hm
      obtain rfl := List.mem_singleton.mp ((List.mem_append.mp hm).resolve_left hd)
      -- the consumer turns to the item, which is registered since it was made
      have hheld : s.HoldsRef ref := by
        right
        rw [Blocking.exchanged_eq (queue_reachable hr), hc]
        simp [Consumer.inHand]
      refine .inr ⟨hc', (hi.async.registered ref hheld hd).step (lt_created hr hheld) he ?_⟩
      intro _ hon
      cases hc.symm.trans hon

theorem Resumption.underway (hr : (machine : Machine (Fiber P R E) _).Reachable s)
    (h : s.Resumption c ref) : s.Called c ∧ s.NotDone c := by
  have hall := Blocking.exchanged_eq (queue_reachable hr)
  have honce := once_reachable hr
  have hnodup := honce.exchanged
  rw [hall, List.append_assoc] at hnodup
  have hfresh := (List.nodup_append.mp hnodup).2.2
  have hadded : c ∈ s.queue.consumer.inHand.toList ++ s.queue.pending →
      s.Called c ∧ s.NotDone c := by
    intro hm
    refine ⟨.inl ?_, fun hd => (hfresh c hd c hm rfl).elim⟩
    rw [hall, List.append_assoc]
    exact List.mem_append_right _ hm
  have hunadded : ∀ p, (s.queue.producers p).unadded = some c → s.Called c ∧ s.NotDone c := by
    intro p hp
    exact ⟨.inr ⟨p, hp⟩, fun hd => (honce.unadded p c hp (delivered_exchanged hr hd)).elim⟩
  rcases h.place with ⟨p, hp⟩ | ⟨-, ⟨p, hp⟩ | hm | hc⟩
  · refine hunadded p ?_
    cases hpc : s.queue.producers p <;> simp_all [Producer.entering, Producer.unadded]
  · refine hunadded p ?_
    cases hpc : s.queue.producers p <;> simp_all [Producer.accepted, Producer.unadded]
  · exact hadded (List.mem_append_right _ hm)
  · cases hcons : s.queue.consumer with
    | handing item =>
        obtain rfl : item = c := by
          rw [hcons] at hc
          exact Option.some.inj hc
        exact hadded (List.mem_append_left _ (by simp [hcons, Consumer.inHand]))
    | onItem item =>
        obtain rfl : item = c := by
          rw [hcons] at hc
          exact Option.some.inj hc
        have hm := Blocking.mem_of_onItem (queue_reachable hr) hcons
        exact ⟨.inl (delivered_exchanged hr hm), fun _ => hcons⟩
    | _ =>
        rw [hcons] at hc
        cases hc

theorem Prompt.registered (hr : (machine : Machine (Fiber P R E) _).Reachable s) (hi : s.Prompt)
    (hc : s.queue.consumer = .onItem ref) (hj : (s.items ref).job.IsAsync) :
    s.Settled ref ∨ s.Registered ref := by
  have hm := Blocking.mem_of_onItem (queue_reachable hr) hc
  have href := lt_created hr (.inr (delivered_exchanged hr hm))
  have hturn := (segments_reachable hr).turns ref href hj
  rcases hi.async.started ref hm hj with hs | hs | ⟨-, hreg⟩
  · exact .inl hs
  · rcases hs with ha | ⟨c, hresumption⟩
    · exact (hturn.awaiting ha ref ⟨href, .inl rfl⟩ fun _ => hc).elim
    · obtain ⟨hcalled, hnot⟩ := hresumption.underway hr
      have hsame := hturn.alone c ref ⟨hcalled.lt_created hr, .inr hresumption.job⟩
        ⟨href, .inl rfl⟩ hnot fun _ => hc
      have hpost := hresumption.job
      rw [hsame] at hpost
      rw [hpost] at hj
      exact hj.elim
  · exact .inr hreg

theorem Prompt.doItem (hr : (machine : Machine (Fiber P R E) _).Reachable s) (hi : s.Prompt)
    (href : ref < s.created) (hj : (s.items ref).job.IsAsync)
    (hc : s.queue.consumer = .onItem c) (hbelongs : c = ref ∨ (s.items c).job = .post ref)
    (h : s.step .doItem = some t) :
    t.Settled ref ∨ (t.items ref).awaits < (s.items ref).awaits := by
  have he : s.Effect .doItem t := step_effect hr h
  have hm := Blocking.mem_of_onItem (queue_reachable hr) hc
  have hturn := (segments_reachable hr).turns ref href hj
  have hlt := lt_created hr (.inr (delivered_exchanged hr hm))
  have hawake : (s.items ref).awaiting = false := Bool.eq_false_iff.mpr fun ha =>
    hturn.awaiting ha c ⟨hlt, hbelongs⟩ fun _ => hc
  have hitems : t.items = (Concurrent.doItem s.requested s.items c).1 := by
    cases he with
    | doItem r q hc' | throw r e q hc' =>
        cases hc.symm.trans hc'
        rfl
  have hends : t.Settled ref ∨ (t.items ref).awaiting = true := by
    rcases hbelongs with rfl | hpost
    · rcases hi.registered hr hc hj with hs | hreg
      · exact .inl (he.settled href hs)
      · rw [Settled, hitems]
        rcases doItem_async s.requested hj with ⟨-, token, htoken, hreq⟩ | ha | hdone
        · -- `Do` finds the token cancelled, so the work item was settled
          have hs : s.Settled c :=
            (hreg token htoken).imp_right fun hreg => ⟨token, htoken, hreg, hreq⟩
          rw [← hitems]
          exact .inl (he.settled href hs)
        · exact .inr ha
        · exact .inl (.inl hdone)
    · rw [Settled, hitems]
      exact (doItem_post s.requested hpost hj).symm.imp_left .inl
  refine hends.imp_right fun ha => ?_
  cases he.progress href hj with
  | stays _ _ hsame => cases (hsame.symm.trans ha).symm.trans hawake
  | runs _ _ _ _ hprogress =>
      rcases hprogress with ⟨-, -, hsame⟩ | ⟨k, hk, hless, -⟩
      · cases (hsame.symm.trans ha).symm.trans hawake
      · omega
  | resumes p ha' => cases ha'

/-- A work item that a caller awaits. -/
structure Asked (s : Fiber P R E) (ref : ℕ) (job : Job R E) : Prop where
  run : machine.Reachable s
  created : ref < s.created
  job : (s.items ref).job = job

theorem Asked.step {job : Job R E} (hi : s.Asked ref job) {a : FiberAct P R E}
    (h : machine.step s a = some t) : t.Asked ref job := by
  have he : s.Effect a t := step_effect hi.run h
  exact ⟨hi.run.next h, hi.created.trans_le he.created_le, (he.later hi.created).job.trans hi.job⟩

theorem Asked.kept {job : Job R E} {r : machine.Run s} {i j : ℕ} (hij : i ≤ j)
    (hi : (r.state i).Asked ref job) : (r.state j).Asked ref job :=
  Machine.Run.stays (P := fun s : Fiber P R E => s.Asked ref job) (fun h => Asked.step h) hij hi

section Answer
variable {r : machine.Run s} {job : Job R E}

end Answer

end Fiber
end ComposableAsync.Concurrent
