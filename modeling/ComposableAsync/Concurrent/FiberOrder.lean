import ComposableAsync.Concurrent.FiberShutdown

/-!
# The order in which the fiber works

A work item goes through the queue once, so its `Do` is called once at most, and the
consumer comes to the work items in the order of their Exchange. A caller whose `Enqueue`
has returned is ahead of every call that begins afterwards, by whichever thread: this is
the order that the continuations of a delegate and the calls of one client rely on.
-/
namespace ComposableAsync.Concurrent
open Foundations

/-- The item of a producer before its Exchange. -/
def Producer.unadded {T : Type} : Producer T → Option T
  | .enter item | .create item | .exchange item _ => some item
  | .idle | .store _ _ _ | .notify _ | .lock _ | .release _ | .returned _ | .canceled _
  | .raised _ _ => none

theorem Producer.item_of_unadded {T : Type} {pc : Producer T} {item : T}
    (h : pc.unadded = some item) : pc.item = some item := by
  cases pc with
  | enter | create | exchange => exact h
  | idle | store | notify | lock | release | returned | canceled | raised => cases h

theorem Producer.Move.unadded {T : Type} {canceled : Bool} {pc pc' : Producer T} {added : List T}
    (h : Producer.Move canceled pc pc' added) :
    added = [] ∧ (∀ item, pc'.unadded = some item → pc.unadded = some item) ∨
      ∃ item, added = [item] ∧ pc.unadded = some item ∧ pc'.unadded = none := by
  cases h with
  | exchange item n prev => exact .inr ⟨item, rfl, rfl, rfl⟩
  | pass | create => exact .inl ⟨rfl, fun _ hp => hp⟩
  | refuse | store | unwatched | watched | late | post | release | raise =>
      refine .inl ⟨rfl, fun _ hp => ?_⟩
      cases hp

namespace Fiber
variable {P R E : Type} [DecidableEq P] [Inhabited R] {s t : Fiber P R E}

omit [DecidableEq P] [Inhabited R] in
/-- Every reference is with one producer, or once in the order. -/
structure Once (s : Fiber P R E) : Prop where
  exchanged : s.queue.exchanged.Nodup
  unadded : ∀ p ref, (s.queue.producers p).unadded = some ref → ref ∉ s.queue.exchanged
  apart : ∀ p q ref, (s.queue.producers p).unadded = some ref →
    (s.queue.producers q).unadded = some ref → p = q

theorem Effect.unadded {a : FiberAct P R E} (h : s.Effect a t) {p : P} {ref : ℕ}
    (hp : (t.queue.producers p).unadded = some ref) :
    (s.queue.producers p).unadded = some ref ∨
      ref = s.created ∧ t.queue.producers p = .enter s.created ∧ t.created = s.created + 1 := by
  cases h.producer p with
  | stays hstays => exact .inl (hstays ▸ hp)
  | begins _ henter hcreated =>
      rw [henter] at hp
      exact .inr ⟨(Option.some.inj hp).symm, henter, hcreated⟩
  | moves added _ hmove _ =>
      rcases hmove.unadded with ⟨-, hkeep⟩ | ⟨_, -, -, hnone⟩
      · exact .inl (hkeep ref hp)
      · rw [hnone] at hp
        cases hp
  | ends _ _ hidle =>
      rw [hidle] at hp
      cases hp

theorem Effect.adds {a : FiberAct P R E} (h : s.Effect a t) :
    t.queue.exchanged = s.queue.exchanged ∨ ∃ p ref,
      (s.queue.producers p).unadded = some ref ∧ (t.queue.producers p).unadded = none ∧
        t.queue.exchanged = s.queue.exchanged ++ [ref] := by
  rcases h.exchanged with hsame | ⟨p, added, hmove, hexchanged⟩
  · exact .inl hsame
  · rcases hmove.unadded with ⟨rfl, -⟩ | ⟨ref, rfl, hp, hnone⟩
    · exact .inl (hexchanged.trans (List.append_nil _))
    · exact .inr ⟨p, ref, hp, hnone, hexchanged⟩

theorem Once.step (hr : (machine : Machine (Fiber P R E) _).Reachable s) (hi : s.Once)
    {a : FiberAct P R E} (he : s.Effect a t)
    (hbegins : ∀ p q, t.queue.producers p = .enter s.created →
      t.queue.producers q = .enter s.created → p = q) : t.Once := by
  have hfresh : ∀ p ref, (s.queue.producers p).unadded = some ref → ref ≠ s.created := by
    intro p ref hp
    exact Nat.ne_of_lt (lt_created hr (.inl ⟨p, Producer.item_of_unadded hp⟩))
  have hnew : s.created ∉ s.queue.exchanged := fun hm => lt_irrefl _ (lt_created hr (.inr hm))
  constructor
  · rcases he.adds with hsame | ⟨p, ref, hp, -, hadds⟩
    · rw [hsame]
      exact hi.exchanged
    · rw [hadds]
      exact hi.exchanged.append (List.nodup_singleton ref) (by simpa using hi.unadded p ref hp)
  · intro p ref hp hm
    have hold : ref ∉ s.queue.exchanged := by
      rcases he.unadded hp with hp | ⟨rfl, -, -⟩
      · exact hi.unadded p ref hp
      · exact hnew
    rcases he.adds with hsame | ⟨q, r, hq, hnone, hadds⟩
    · exact hold (hsame ▸ hm)
    · rw [hadds] at hm
      rcases List.mem_append.mp hm with hm | hm
      · exact hold hm
      · -- the producer that has just added the item holds it no more
        rw [List.mem_singleton] at hm
        subst hm
        rcases he.unadded hp with hp' | ⟨rfl, -, -⟩
        · rw [hi.apart p q ref hp' hq, hnone] at hp
          cases hp
        · exact hfresh q _ hq rfl
  · intro p q ref hp hq
    rcases he.unadded hp with hp | ⟨rfl, hp, -⟩
    · rcases he.unadded hq with hq | ⟨rfl, -, -⟩
      · exact hi.apart p q ref hp hq
      · exact (hfresh p _ hp rfl).elim
    · rcases he.unadded hq with hq | ⟨-, hq, -⟩
      · exact (hfresh q _ hq rfl).elim
      · exact hbegins p q hp hq

theorem begins_alone (hr : (machine : Machine (Fiber P R E) _).Reachable s) {a : FiberAct P R E}
    (he : s.Effect a t) (p q : P) (hp : t.queue.producers p = .enter s.created)
    (hq : t.queue.producers q = .enter s.created) : p = q := by
  have hnot : ∀ r, s.queue.producers r ≠ .enter s.created := by
    intro r h
    exact lt_irrefl _ (lt_created hr (.inl ⟨r, by rw [h]; rfl⟩))
  have hone : ∀ {r r' : P} {u : Blocking P ℕ (Exn E)},
      u.producers = Function.update s.queue.producers r (.enter s.created) →
      u.producers r' = .enter s.created → r' = r := by
    intro r r' u hproducers h
    by_contra hne
    rw [hproducers, Function.update_of_ne hne] at h
    exact hnot r' h
  cases he with
  | enqueue r job u _ _ hproducers | resume r target u _ _ hproducers =>
      exact (hone hproducers hp).trans (hone hproducers hq).symm
  | produce r pc added u hmove hproducers =>
      have hmoved : ∀ {r' : P}, u.producers r' = .enter s.created → False := by
        intro r' h
        rw [hproducers] at h
        by_cases hr' : r' = r
        · rw [hr', Function.update_self] at h
          subst h
          generalize s.queue.producers r = before at hmove
          cases hmove
        · rw [Function.update_of_ne hr'] at h
          exact hnot r' h
      exact (hmoved hp).elim
  | finish r u _ hproducers =>
      have hended : ∀ {r' : P}, u.producers r' = .enter s.created → False := by
        intro r' h
        rw [hproducers] at h
        by_cases hr' : r' = r
        · rw [hr', Function.update_self] at h
          cases h
        · rw [Function.update_of_ne hr'] at h
          exact hnot r' h
      exact (hended hp).elim
  | consume _ u _ _ hproducers | doItem _ u _ _ _ _ _ hproducers
  | throw _ _ u _ _ _ _ _ hproducers | disposeAsync u _ hproducers =>
      change u.producers p = _ at hp
      rw [hproducers] at hp
      exact (hnot p hp).elim
  | exit t hexit =>
      cases hexit with
      | drain | unhandled | cancel | drained | endFiber => exact (hnot p hp).elim
      | disposeSource u _ _ hproducers | disposeSemaphore u _ _ hproducers =>
          change u.producers p = _ at hp
          rw [hproducers] at hp
          exact (hnot p hp).elim
  | cancel | callback => exact (hnot p hp).elim

theorem once_reachable (hr : (machine : Machine (Fiber P R E) _).Reachable s) : s.Once := by
  refine hr.invariant ⟨.nil, (fun _ _ h => by cases h), fun _ _ _ h => by cases h⟩ ?_
  intro s a t hr hi h
  have he := step_effect hr h
  exact hi.step hr he (begins_alone hr he)

theorem delivered_nodup (hr : (machine : Machine (Fiber P R E) _).Reachable s) :
    s.queue.delivered.Nodup := by
  have honce := (once_reachable hr).exchanged
  rw [Blocking.exchanged_eq (queue_reachable hr), List.append_assoc] at honce
  exact honce.of_append_left

theorem exchanged_leads (hr : (machine : Machine (Fiber P R E) _).Reachable s)
    (h : machine.Leads (fun _ => True) s t) : s.queue.exchanged <+: t.queue.exchanged := by
  refine (h.invariant (I := fun t => machine.Reachable t ∧
    s.queue.exchanged <+: t.queue.exchanged) ⟨hr, List.prefix_rfl⟩ ?_).2
  rintro u a v ⟨hru, hprefix⟩ - hstep
  exact ⟨hru.next hstep, hprefix.trans (Effect.exchanged_prefix (step_effect hru hstep))⟩

/-- Every work item is executed once at most. One whose `Enqueue` has returned is executed
before every work item that is made afterwards, if that one is executed at all. -/
theorem delivered_in_order (hr : (machine : Machine (Fiber P R E) _).Reachable s)
    (h : machine.Leads (fun _ => True) s t) :
    t.queue.delivered.Nodup ∧
      ∀ earlier ∈ s.returned, ∀ later ∈ t.queue.delivered, s.created ≤ later →
        [earlier, later].Sublist t.queue.delivered := by
  have hrt := h.reachable hr
  refine ⟨delivered_nodup hrt, fun earlier hearlier later hlater hnew => ?_⟩
  obtain ⟨added, hadded⟩ := exchanged_leads hr h
  have hsplit : t.queue.exchanged =
      t.queue.delivered ++ (t.queue.consumer.inHand.toList ++ t.queue.pending) := by
    rw [Blocking.exchanged_eq (queue_reachable hrt), List.append_assoc]
  have hfirst : earlier ∈ s.queue.exchanged := (exchanged_reachable hr).returned earlier hearlier
  have hsecond : later ∈ added := by
    have hm := delivered_exchanged hrt hlater
    rw [← hadded] at hm
    refine (List.mem_append.mp hm).resolve_left fun hm => ?_
    exact absurd (lt_created hr (.inr hm)) (Nat.not_lt.mpr hnew)
  have hexchanged : [earlier, later].Sublist t.queue.exchanged := by
    rw [← hadded]
    exact (List.singleton_sublist.mpr hfirst).append (List.singleton_sublist.mpr hsecond)
  rw [hsplit] at hexchanged
  obtain ⟨front, back, hpair, hfront, hback⟩ := List.sublist_append_iff.mp hexchanged
  have hdisjoint := (List.nodup_append.mp (hsplit ▸ (once_reachable hrt).exchanged)).2.2
  rcases List.eq_nil_or_concat back with rfl | ⟨init, last, rfl⟩
  · rw [List.append_nil] at hpair
    exact hpair ▸ hfront
  · -- the later item would be behind those delivered, too
    have hlast : last = later := by
      have := congrArg List.getLast? hpair
      simpa using this.symm
    subst hlast
    exact (hdisjoint last hlater last (hback.subset (by simp)) rfl).elim

/-- Two calls of one thread, one after the other. -/
theorem delivered_in_order_two :
    ∃ s t : Fiber Unit ℕ Unit, s.returned = [1] ∧ [1, 2].Sublist t.queue.delivered := by
  obtain ⟨s, t, hr, ⟨hreturned, hcreated⟩, hlead, hdelivered⟩ := machine.exists_of_runs
    (p := fun s : Fiber Unit ℕ Unit => s.returned = [1] ∧ s.created = 2)
    (q := fun t => 2 ∈ t.queue.delivered)
    (List.flatten [[.enqueue () (.workItem (.ok 5))], List.replicate 5 (.produce ()),
      [.finish ()]])
    (List.flatten [[.enqueue () (.dispatchItem (.ok ()))], List.replicate 5 (.produce ()),
      List.replicate 4 (.consume true), [.doItem], List.replicate 4 (.consume true)])
    (by decide)
  obtain ⟨-, horder⟩ := delivered_in_order hr hlead
  exact ⟨s, t, hreturned, horder 1 (by simp [hreturned]) 2 hdelivered (by simp [hcreated])⟩

end Fiber
end ComposableAsync.Concurrent
