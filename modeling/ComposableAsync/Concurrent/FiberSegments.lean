import ComposableAsync.Concurrent.FiberOrder

/-!
# The segments of an asynchronous delegate

An asynchronous delegate runs in segments, the first in its own work item and each of the
others in a continuation that `Post` makes when the awaited operation has ended. However
the work items of the fiber interleave, the segments of one delegate do not: one of its
work items is under way at a time, each await is followed by one continuation, and the
task gets the outcome of the delegate from the last of them.
-/
namespace ComposableAsync.Concurrent
open Foundations

/-- The work item is a continuation of the delegate `ref`. -/
def Job.resumes {R E : Type} (ref : ℕ) : Job R E → Bool
  | .post target => target == ref
  | .dispatchItem _ | .workItem _ | .cancellableWorkItem _ _ | .asyncWorkItem _ _
  | .asyncCancellableWorkItem _ _ _ => false

theorem Job.resumes_iff {R E : Type} {ref : ℕ} {job : Job R E} :
    job.resumes ref = true ↔ job = .post ref := by
  cases job <;> simp [Job.resumes]

/-- A segment ends at the next await, or with the outcome of the delegate. -/
theorem WorkItem.segment_progress {R E : Type} (requested : Token → Bool) (w : WorkItem R E) :
    w.awaits = 0 ∧ (w.segment requested).awaits = 0 ∧
        (w.segment requested).awaiting = w.awaiting ∨
      ∃ k, w.awaits = k + 1 ∧ (w.segment requested).awaits = k ∧
        (w.segment requested).awaiting = true ∧ (w.segment requested).source = w.source := by
  unfold segment
  split
  · rename_i h
    refine .inl ⟨h, ?_⟩
    unfold finish
    split <;> exact ⟨h, rfl⟩
  · rename_i k h
    exact .inr ⟨k, h, rfl, rfl, rfl⟩

namespace Fiber
variable {P R E : Type}

/-- The consumer has not been through with the work item. -/
def NotDone (s : Fiber P R E) (c : ℕ) : Prop :=
  c ∈ s.queue.delivered → s.queue.consumer = .onItem c

/-- The work items of the delegate `ref`: its own and its continuations. -/
def BelongsTo (s : Fiber P R E) (ref c : ℕ) : Prop :=
  c < s.created ∧ (c = ref ∨ (s.items c).job = .post ref)

/-- The number of continuations made for the delegate `ref`. -/
def continuations (s : Fiber P R E) (ref : ℕ) : ℕ :=
  (List.range s.created).countP fun c => (s.items c).job.resumes ref

variable [DecidableEq P] [Inhabited R] {s t : Fiber P R E} {ref c : ℕ}

theorem Effect.notDone (hr : (machine : Machine (Fiber P R E) _).Reachable s) {a : FiberAct P R E}
    (h : s.Effect a t) (hc : t.NotDone c) :
    s.NotDone c ∧ (a = .doItem → s.queue.consumer ≠ .onItem c) := by
  cases h.consumer with
  | stays hconsumer hdelivered hne =>
      refine ⟨fun hm => ?_, fun ha => (hne ha).elim⟩
      rw [← hconsumer]
      exact hc (hdelivered ▸ hm)
  | moves yields ha hmove _ =>
      refine ⟨fun hm => ?_, fun hdo => by cases ha.symm.trans hdo⟩
      cases hmove with
      | loop _ hloop _ hdelivered =>
          rw [hc (hdelivered ▸ hm)] at hloop
          exact hloop.elim
      | take item _ ht _ hdelivered => cases ht.symm.trans (hc (hdelivered ▸ hm))
      | leave _ _ _ ht _ hdelivered => cases ht.symm.trans (hc (hdelivered ▸ hm))
      | hand item hs ht _ hdelivered =>
          -- an item just handed over was not delivered before
          have hitem : c = item := by
            have hcon := hc (hdelivered ▸ List.mem_append_left _ hm)
            cases ht.symm.trans hcon
            rfl
          subst hitem
          have honce := (once_reachable hr).exchanged
          rw [Blocking.exchanged_eq (queue_reachable hr), hs] at honce
          have hapart := (List.nodup_append.mp (honce.of_append_left)).2.2
          exact (hapart c hm c (by simp [Consumer.inHand]) rfl).elim
  | returns r ha hs _ ht hdelivered | throws r e ha hs _ ht hdelivered =>
      have hnone : c ∉ t.queue.delivered := fun hm => by cases ht.symm.trans (hc hm)
      rw [hdelivered] at hnone
      refine ⟨fun hm => (hnone hm).elim, fun _ hcon => hnone ?_⟩
      exact Blocking.mem_of_onItem (queue_reachable hr) hcon

theorem Effect.done {a : FiberAct P R E} (hr : (machine : Machine (Fiber P R E) _).Reachable s)
    (h : s.Effect a t) (ha : a = .doItem) (hc : s.queue.consumer = .onItem c) : ¬ t.NotDone c :=
  fun hn => (h.notDone hr hn).2 ha hc

theorem Effect.doItem_of_done {a : FiberAct P R E} (h : s.Effect a t) (hs : s.NotDone c)
    (ht : ¬ t.NotDone c) :
    a = .doItem ∧ s.queue.consumer = .onItem c := by
  rw [NotDone, Classical.not_imp] at ht
  obtain ⟨hm, hnot⟩ := ht
  have habsurd : ∀ {pc : Consumer ℕ (Exn E)}, s.queue.consumer = pc → pc ≠ .onItem c →
      c ∈ s.queue.delivered → a = .doItem ∧ s.queue.consumer = .onItem c := by
    intro pc hc hne hm
    exact (hne (hc.symm.trans (hs hm))).elim
  cases h.consumer with
  | stays hconsumer hdelivered _ =>
      rw [hconsumer] at hnot
      exact (hnot (hs (hdelivered ▸ hm))).elim
  | moves yields _ hmove _ =>
      cases hmove with
      | loop hloop _ _ hdelivered =>
          refine habsurd rfl (fun hc => ?_) (hdelivered ▸ hm)
          rw [hc] at hloop
          exact hloop
      | take item hc _ _ hdelivered => exact habsurd hc nofun (hdelivered ▸ hm)
      | leave hc _ _ _ _ hdelivered => exact habsurd hc nofun (hdelivered ▸ hm)
      | hand item hc ht _ hdelivered =>
          rw [hdelivered] at hm
          rcases List.mem_append.mp hm with hm | hm
          · exact habsurd hc nofun hm
          · rw [List.mem_singleton.mp hm] at hnot
            exact (hnot ht).elim
  | returns r ha _ _ _ hdelivered | throws r e ha _ _ _ hdelivered =>
      exact ⟨ha, hs (hdelivered ▸ hm)⟩

/-- What a step does to a delegate. -/
inductive Progress (s t : Fiber P R E) (a : FiberAct P R E) (ref : ℕ) : Prop
  | stays : (∀ p, a ≠ .resume p ref) → (t.items ref).awaits = (s.items ref).awaits →
      (t.items ref).awaiting = (s.items ref).awaiting →
      (t.items ref).source.outcome = (s.items ref).source.outcome → Progress s t a ref
  | runs (c : ℕ) : a = .doItem → s.queue.consumer = .onItem c →
      c = ref ∨ (s.items c).job = .post ref →
      ((s.items ref).awaits = 0 ∧ (t.items ref).awaits = 0 ∧
          (t.items ref).awaiting = (s.items ref).awaiting ∨
        ∃ k, (s.items ref).awaits = k + 1 ∧ (t.items ref).awaits = k ∧
          (t.items ref).awaiting = true ∧
            (t.items ref).source.outcome = (s.items ref).source.outcome) → Progress s t a ref
  | resumes (p : P) : a = .resume p ref → (s.items ref).awaiting = true →
      (t.items ref).awaits = (s.items ref).awaits → (t.items ref).awaiting = false →
      (t.items ref).source.outcome = (s.items ref).source.outcome → Progress s t a ref

omit [DecidableEq P] in
theorem doItem_progress (hj : (s.items ref).job.IsAsync)
    (ha : t.items = (doItem s.requested s.items c).1)
    (hc : s.queue.consumer = .onItem c) : s.Progress t .doItem ref := by
  have hother : ∀ {w : WorkItem R E} {x : ℕ}, ref ≠ x →
      Function.update s.items x w ref = s.items ref := fun hne => Function.update_of_ne hne ..
  have hrun : ∀ {w : WorkItem R E}, (w.awaits = (s.items ref).awaits) →
      w.awaiting = (s.items ref).awaiting → w.source = (s.items ref).source →
      t.items ref = w.segment s.requested → (c = ref ∨ (s.items c).job = .post ref) →
      s.Progress t .doItem ref := by
    intro w hawaits hawaiting hsource hw hbelongs
    refine .runs c rfl hc hbelongs ?_
    rw [hw, ← hawaits, ← hawaiting, ← hsource]
    rcases w.segment_progress s.requested with hlast | ⟨k, h, hk, hawait, hsame⟩
    · exact .inl hlast
    · exact .inr ⟨k, h, hk, hawait, congrArg _ hsame⟩
  have hstays : t.items ref = s.items ref → s.Progress t .doItem ref := by
    intro h
    exact .stays (by simp) (by rw [h]) (by rw [h]) (by rw [h])
  by_cases hcr : c = ref
  · subst hcr
    unfold doItem at ha
    split at ha
    · exact hstays (by rw [ha])
    · exact hstays (by rw [ha])
    · rename_i h
      rw [h] at hj
      exact hj.elim
    · rename_i h
      rw [h] at hj
      exact hj.elim
    · refine hrun rfl rfl rfl ?_ (.inl rfl)
      rw [ha]
      exact Function.update_self ..
    · split at ha
      · exact hstays (by rw [ha])
      · refine hrun (w := { s.items c with registration := none }) rfl rfl rfl ?_ (.inl rfl)
        rw [ha]
        exact Function.update_self ..
    · rename_i h
      rw [h] at hj
      exact hj.elim
  · have hne : ref ≠ c := fun h => hcr h.symm
    unfold doItem at ha
    split at ha
    · exact hstays (by rw [ha])
    · exact hstays (by rw [ha])
    · exact hstays (by rw [ha]; exact hother hne)
    · split at ha
      · exact hstays (by rw [ha])
      · exact hstays (by rw [ha]; exact hother hne)
    · exact hstays (by rw [ha]; exact hother hne)
    · split at ha
      · exact hstays (by rw [ha])
      · exact hstays (by rw [ha]; exact hother hne)
    · rename_i target htarget
      by_cases ht : ref = target
      · subst ht
        refine hrun rfl rfl rfl ?_ (.inr htarget)
        rw [ha]
        simp only [Function.update_of_ne hne, Function.update_self]
      · apply hstays
        rw [ha]
        simp only [Function.update_of_ne hne, Function.update_of_ne ht]

theorem Effect.progress {a : FiberAct P R E} (h : s.Effect a t) (href : ref < s.created)
    (hj : (s.items ref).job.IsAsync) : s.Progress t a ref := by
  have hne : ref ≠ s.created := Nat.ne_of_lt href
  have hcancel : ∀ {w : WorkItem R E} {x : ℕ}, w.awaits = (s.items x).awaits →
      w.awaiting = (s.items x).awaiting → w.source.outcome = (s.items x).source.outcome →
      (Function.update s.items x w ref).awaits = (s.items ref).awaits ∧
        (Function.update s.items x w ref).awaiting = (s.items ref).awaiting ∧
        (Function.update s.items x w ref).source.outcome = (s.items ref).source.outcome := by
    intro w x hawaits hawaiting houtcome
    by_cases hx : ref = x
    · subst hx
      rw [Function.update_self]
      exact ⟨hawaits, hawaiting, houtcome⟩
    · rw [Function.update_of_ne hx]
      exact ⟨rfl, rfl, rfl⟩
  cases h with
  | enqueue p job q => exact .stays (by simp) (by simp [hne]) (by simp [hne]) (by simp [hne])
  | resume p target q hawaiting =>
      by_cases ht : ref = target
      · subst ht
        refine .resumes p rfl hawaiting ?_ ?_ ?_ <;>
        simp [Function.update_of_ne hne, WorkItem.resume]
      · refine .stays (fun r hr => ?_) ?_ ?_ ?_
        · cases hr
          exact ht rfl
        all_goals simp [Function.update_of_ne hne, Function.update_of_ne ht]
  | doItem r q hc | throw r e q hc => exact doItem_progress hj rfl hc
  | exit t hexit =>
      cases hexit with
      | cancel node next =>
          obtain ⟨hawaits, hawaiting, houtcome⟩ := hcancel
            (x := s.queue.list.value next) (WorkItem.cancel_awaits _)
            (WorkItem.cancel_awaiting _) (WorkItem.cancel_outcome _)
          exact .stays (by simp) hawaits hawaiting houtcome
      | drain | unhandled | drained | disposeSource | disposeSemaphore | endFiber =>
          exact .stays (by simp) rfl rfl rfl
  | callback r token =>
      obtain ⟨hawaits, hawaiting, houtcome⟩ := hcancel (x := r)
        (w := { (s.items r).cancel with registration := none }) (WorkItem.cancel_awaits _)
        (WorkItem.cancel_awaiting _) (WorkItem.cancel_outcome _)
      exact .stays (by simp) hawaits hawaiting houtcome
  | produce | finish | consume | disposeAsync | cancel => exact .stays (by simp) rfl rfl rfl

/-- A continuation is made when the delegate it belongs to is woken. -/
theorem Effect.continuations {a : FiberAct P R E} (h : s.Effect a t) (ref : ℕ) :
    (∃ p, a = .resume p ref) ∧ t.continuations ref = s.continuations ref + 1 ∨
      (∀ p, a ≠ .resume p ref) ∧ t.continuations ref = s.continuations ref := by
  have hold : (List.range s.created).countP (fun c => (t.items c).job.resumes ref) =
      s.continuations ref := by
    apply List.countP_congr
    intro c hc
    rw [(h.later (List.mem_range.mp hc)).job]
  have hsame : t.created = s.created → t.continuations ref = s.continuations ref := by
    intro hcreated
    rw [Fiber.continuations, hcreated, hold]
  have hnew : t.created = s.created + 1 → t.continuations ref =
      s.continuations ref + if (t.items s.created).job.resumes ref then 1 else 0 := by
    intro hcreated
    rw [Fiber.continuations, hcreated, List.range_succ, List.countP_append, hold,
      List.countP_singleton]
  cases h with
  | enqueue p job q hjob =>
      refine .inr ⟨by simp, (hnew rfl).trans ?_⟩
      have hpost : job.resumes ref = false := by
        cases job with
        | post target => cases hjob
        | _ => rfl
      simp [hpost]
  | resume p target q =>
      by_cases ht : target = ref
      · subst ht
        refine .inl ⟨⟨p, rfl⟩, (hnew rfl).trans ?_⟩
        simp [Job.resumes]
      · refine .inr ⟨fun r hr => ?_, (hnew rfl).trans ?_⟩
        · cases hr
          exact ht rfl
        · simp [Job.resumes, ht]
  | exit t hexit => cases hexit <;> exact .inr ⟨by simp, hsame rfl⟩
  | _ => exact .inr ⟨by simp, hsame rfl⟩

omit [DecidableEq P] [Inhabited R] in
/-- Where a delegate with its awaits stands. -/
structure InTurn (s : Fiber P R E) (ref : ℕ) : Prop where
  awaits : s.continuations ref + (s.items ref).awaits + (s.items ref).awaiting.toNat =
    (s.items ref).job.awaits
  alone : ∀ c c', s.BelongsTo ref c → s.BelongsTo ref c' → s.NotDone c → s.NotDone c' → c = c'
  awaiting : (s.items ref).awaiting = true → ∀ c, s.BelongsTo ref c → ¬ s.NotDone c
  ended : (s.items ref).source.outcome ≠ none → (s.items ref).awaits = 0 ∧
    (s.items ref).awaiting = false ∧ ∀ c, s.BelongsTo ref c → ¬ s.NotDone c

theorem Effect.created_cases {a : FiberAct P R E} (h : s.Effect a t) (hc : c < t.created) :
    c < s.created ∨ c = s.created ∧ t.created = s.created + 1 := by
  cases h with
  | enqueue | resume =>
      have hlt : c < s.created + 1 := hc
      rcases Nat.lt_succ_iff_lt_or_eq.mp hlt with hlt | heq
      · exact .inl hlt
      · exact .inr ⟨heq, rfl⟩
  | exit t hexit => cases hexit <;> exact .inl hc
  | _ => exact .inl hc

theorem Effect.belongsTo {a : FiberAct P R E} (h : s.Effect a t) (href : ref < s.created)
    (hc : t.BelongsTo ref c) :
    s.BelongsTo ref c ∨ c = s.created ∧ ∃ p, a = .resume p ref := by
  obtain ⟨hlt, hc⟩ := hc
  rcases h.created_cases hlt with hold | ⟨rfl, hcreated⟩
  · rw [(h.later hold).job] at hc
    exact .inl ⟨hold, hc⟩
  · refine .inr ⟨rfl, ?_⟩
    have hpost : (t.items s.created).job = .post ref := by
      refine hc.resolve_left fun heq => ?_
      exact absurd href (by rw [heq]; exact lt_irrefl _)
    cases h with
    | enqueue p job q hjob =>
        simp only [Function.update_self, WorkItem.create_job] at hpost
        rw [hpost] at hjob
        cases hjob
    | resume p target q =>
        simp only [Function.update_self, WorkItem.create_job, Job.post.injEq] at hpost
        exact ⟨p, by rw [hpost]⟩
    | exit t hexit => cases hexit <;> exact absurd hcreated (Nat.lt_succ_self _).ne
    | _ => exact absurd hcreated (Nat.lt_succ_self _).ne

theorem InTurn.step (hr : (machine : Machine (Fiber P R E) _).Reachable s) (hi : s.InTurn ref)
    (href : ref < s.created) (hj : (s.items ref).job.IsAsync) {a : FiberAct P R E}
    (he : s.Effect a t) : t.InTurn ref := by
  have hjob : (t.items ref).job = (s.items ref).job := (he.later href).job
  have hnotDone : ∀ {c}, t.NotDone c → s.NotDone c := fun h => (he.notDone hr h).1
  have hcount := he.continuations ref
  cases he.progress href hj with
  | stays hresume hawaits hawaiting houtcome =>
      have hbelongs : ∀ {c}, t.BelongsTo ref c → s.BelongsTo ref c := by
        intro c hc
        refine (he.belongsTo href hc).resolve_right ?_
        rintro ⟨-, p, rfl⟩
        exact hresume p rfl
      constructor
      · rcases hcount with ⟨⟨p, rfl⟩, -⟩ | ⟨-, hcount⟩
        · exact (hresume p rfl).elim
        · rw [hcount, hawaits, hawaiting, hjob]
          exact hi.awaits
      · intro c c' hc hc' hn hn'
        exact hi.alone c c' (hbelongs hc) (hbelongs hc') (hnotDone hn) (hnotDone hn')
      · intro ha c hc hn
        exact hi.awaiting (hawaiting ▸ ha) c (hbelongs hc) (hnotDone hn)
      · intro ho
        obtain ⟨hzero, hfalse, hdone⟩ := hi.ended (houtcome ▸ ho)
        exact ⟨hawaits.trans hzero, hawaiting.trans hfalse,
          fun c hc hn => hdone c (hbelongs hc) (hnotDone hn)⟩
  | runs c ha hc hbelongs hsegment =>
      have hnoresume : ∀ p, a ≠ .resume p ref := by
        intro p hp
        cases ha.symm.trans hp
      have hcreated : s.BelongsTo ref c :=
        ⟨lt_created hr (holdsRef_of_onItem hr hc), hbelongs⟩
      have hrunning : s.NotDone c := fun _ => hc
      -- the delegate's one work item has run, and none is left
      have hdone : ∀ c', t.BelongsTo ref c' → ¬ t.NotDone c' := by
        intro c' hc' hn
        have hold : s.BelongsTo ref c' := by
          refine (he.belongsTo href hc').resolve_right ?_
          rintro ⟨-, p, hp⟩
          exact hnoresume p hp
        have hsame := hi.alone c' c hold hcreated (hnotDone hn) hrunning
        exact he.done hr ha hc (hsame ▸ hn)
      have hawake : (s.items ref).awaiting = false := by
        refine Bool.eq_false_iff.mpr fun hawaiting => ?_
        exact hi.awaiting hawaiting c hcreated hrunning
      obtain ⟨-, hcount⟩ := hcount.resolve_left fun h => by
        obtain ⟨⟨p, hp⟩, -⟩ := h
        exact hnoresume p hp
      have hawaits := hi.awaits
      refine ⟨?_, fun c₁ c₂ h₁ _ hn => (hdone c₁ h₁ hn).elim, fun _ => hdone, fun ho => ?_⟩
      · rw [hawake] at hawaits
        rw [hcount, hjob]
        rcases hsegment with ⟨hzero, hzero', hsame⟩ | ⟨k, hk, hk', htrue, -⟩
        · rw [hzero', hsame, hawake]
          rw [hzero] at hawaits
          exact hawaits
        · rw [hk', htrue]
          rw [hk] at hawaits
          simp only [Bool.toNat_false, Bool.toNat_true] at hawaits ⊢
          omega
      · rcases hsegment with ⟨-, hzero', hsame⟩ | ⟨k, hk, -, -, houtcome⟩
        · exact ⟨hzero', hsame.trans hawake, hdone⟩
        · have hzero := (hi.ended (houtcome ▸ ho)).1
          omega
  | resumes p ha hawaiting hawaits hfalse houtcome =>
      subst ha
      obtain ⟨-, hcount⟩ := hcount.resolve_right fun h => h.1 p rfl
      have hsum := hi.awaits
      rw [hawaiting] at hsum
      have hold : ∀ c, s.BelongsTo ref c → ¬ t.NotDone c :=
        fun c hc hn => hi.awaiting hawaiting c hc (hnotDone hn)
      have hnew : ∀ c, t.BelongsTo ref c → t.NotDone c → c = s.created := by
        intro c hc hn
        rcases he.belongsTo href hc with hc | ⟨hc, -⟩
        · exact (hold c hc hn).elim
        · exact hc
      refine ⟨?_, ?_, ?_, ?_⟩
      · rw [hcount, hawaits, hfalse, hjob, ← hsum]
        simp only [Bool.toNat_false, Bool.toNat_true]
        omega
      · intro c c' hc hc' hn hn'
        exact (hnew c hc hn).trans (hnew c' hc' hn').symm
      · intro htrue
        rw [hfalse] at htrue
        cases htrue
      · intro ho
        have hawake := (hi.ended (houtcome ▸ ho)).2.1
        cases hawaiting.symm.trans hawake

omit [DecidableEq P] in
theorem doItem_other {requested : Token → Bool} {items : ℕ → WorkItem R E} (hc : ref ≠ c)
    (hpost : ∀ target, (items c).job = .post target → ref ≠ target) :
    (doItem requested items c).1 ref = items ref := by
  unfold doItem
  split
  · rfl
  · rfl
  · exact Function.update_of_ne hc ..
  · split
    · rfl
    · exact Function.update_of_ne hc ..
  · exact Function.update_of_ne hc ..
  · split
    · rfl
    · exact Function.update_of_ne hc ..
  · rename_i target htarget
    exact (Function.update_of_ne hc ..).trans (Function.update_of_ne (hpost target htarget) ..)

omit [DecidableEq P] [Inhabited R] in
structure Segments (s : Fiber P R E) : Prop where
  fresh : ∀ r, s.created ≤ r → (s.items r).awaiting = false
  posts : ∀ c target, c < s.created → (s.items c).job = .post target → target < s.created
  turns : ∀ ref, ref < s.created → (s.items ref).job.IsAsync → s.InTurn ref

theorem Segments.fresh_step (hr : (machine : Machine (Fiber P R E) _).Reachable s)
    (hi : s.Segments) {a : FiberAct P R E} (he : s.Effect a t) {r : ℕ} (h : t.created ≤ r) :
    (t.items r).awaiting = false := by
  have hold : (s.items r).awaiting = false := hi.fresh r (he.created_le.trans h)
  have hset : ∀ {x : ℕ} {w : WorkItem R E}, w.awaiting = (s.items x).awaiting →
      (Function.update s.items x w r).awaiting = false := by
    intro x w hw
    by_cases hx : r = x
    · subst hx
      rw [Function.update_self, hw, hold]
    · rw [Function.update_of_ne hx, hold]
  cases he with
  | enqueue p job q =>
      have hne : r ≠ s.created := Nat.ne_of_gt h
      simp only [Function.update_of_ne hne]
      exact hold
  | resume p target q hawaiting =>
      have hne : r ≠ s.created := Nat.ne_of_gt h
      have htarget : r ≠ target := by
        rintro rfl
        cases hold.symm.trans hawaiting
      simp only [Function.update_of_ne hne, Function.update_of_ne htarget]
      exact hold
  | doItem c q hc | throw c e q hc =>
      have hlt : c < s.created := lt_created hr (holdsRef_of_onItem hr hc)
      have hge : s.created ≤ r := h
      have hsame : (doItem s.requested s.items c).1 r = s.items r := by
        refine doItem_other (by omega) fun target ht => ?_
        have htarget := hi.posts c target hlt ht
        omega
      exact (congrArg WorkItem.awaiting hsame).trans hold
  | exit t hexit =>
      cases hexit with
      | cancel node next => exact hset (WorkItem.cancel_awaiting _)
      | drain | unhandled | drained | disposeSource | disposeSemaphore | endFiber => exact hold
  | callback x token =>
      exact hset (w := { (s.items x).cancel with registration := none })
        (WorkItem.cancel_awaiting _)
  | produce | finish | consume | disposeAsync | cancel => exact hold

theorem Segments.posts_step (hi : s.Segments) {a : FiberAct P R E} (he : s.Effect a t)
    {c target : ℕ} (hc : c < t.created) (hj : (t.items c).job = .post target) :
    target < t.created := by
  rcases he.created_cases hc with hold | ⟨rfl, hcreated⟩
  · rw [(he.later hold).job] at hj
    exact (hi.posts c target hold hj).trans_le he.created_le
  · obtain ⟨job, ⟨⟨p, rfl⟩, hitem⟩ | ⟨⟨p, r, rfl, hawaiting, rfl⟩, hitem⟩⟩ := he.created hcreated
    · rw [hitem, WorkItem.create_job] at hj
      subst hj
      cases he with
      | enqueue _ _ q hjob => cases hjob
    · rw [hitem, WorkItem.create_job] at hj
      cases hj
      have hlt : target < s.created := by
        by_contra hge
        cases (hi.fresh target (Nat.not_lt.mp hge)).symm.trans hawaiting
      exact hlt.trans_le he.created_le

theorem Segments.inTurn_created (hi : s.Segments) {job : Job R E} (hj : job.IsAsync)
    {p : P} (he : s.Effect (.enqueue p job) t)
    (hitem : t.items s.created = WorkItem.create s.requested job) : t.InTurn s.created := by
  have hcreated : t.created = s.created + 1 := by
    cases he
    rfl
  have hold : ∀ c, c < s.created → (t.items c).job ≠ .post s.created := by
    intro c hc hpost
    rw [(he.later hc).job] at hpost
    exact lt_irrefl _ (hi.posts c _ hc hpost)
  have honly : ∀ c, t.BelongsTo s.created c → c = s.created := by
    rintro c ⟨hlt, rfl | hpost⟩
    · rfl
    · rw [hcreated] at hlt
      by_contra hne
      exact hold c (by omega) hpost
  have hnone : t.continuations s.created = 0 := by
    rw [continuations, hcreated, List.range_succ, List.countP_append, List.countP_singleton]
    have hself : (t.items s.created).job.resumes s.created = false := by
      rw [hitem, WorkItem.create_job]
      cases job with
      | asyncWorkItem | asyncCancellableWorkItem => rfl
      | dispatchItem | workItem | cancellableWorkItem | post => exact hj.elim
    rw [hself, List.countP_eq_zero.mpr]
    · rfl
    · intro c hc hres
      exact hold c (List.mem_range.mp hc) (Job.resumes_iff.mp hres)
  have hcreate : (WorkItem.create s.requested job).awaits = job.awaits ∧
      (WorkItem.create s.requested job).source.outcome = none := by
    unfold WorkItem.create
    split
    · split <;> exact ⟨rfl, rfl⟩
    · exact ⟨rfl, rfl⟩
  constructor
  · rw [hnone, hitem, WorkItem.create_awaiting, WorkItem.create_job, hcreate.1]
    exact Nat.zero_add _
  · intro c c' hc hc' _ _
    exact (honly c hc).trans (honly c' hc').symm
  · intro ha
    rw [hitem, WorkItem.create_awaiting] at ha
    cases ha
  · intro ho
    rw [hitem] at ho
    exact (ho hcreate.2).elim

theorem segments_reachable (hr : (machine : Machine (Fiber P R E) _).Reachable s) :
    s.Segments := by
  refine hr.invariant ⟨fun _ _ => rfl, ?_, ?_⟩ ?_
  · intro c target _ hj
    cases hj
  · intro ref _ hj
    exact hj.elim
  · intro s a t hr hi h
    have he := step_effect hr h
    refine ⟨fun r => hi.fresh_step hr he, fun c target => hi.posts_step he, ?_⟩
    intro ref hlt hj
    rcases he.created_cases hlt with hold | ⟨rfl, hcreated⟩
    · rw [(he.later hold).job] at hj
      exact (hi.turns ref hold hj).step hr hold hj he
    · obtain ⟨job, ⟨⟨p, rfl⟩, hitem⟩ | ⟨⟨p, r, -, -, rfl⟩, hitem⟩⟩ := he.created hcreated
      · rw [hitem, WorkItem.create_job] at hj
        exact hi.inTurn_created hj he hitem
      · rw [hitem, WorkItem.create_job] at hj
        exact hj.elim

/-- In every run, of an asynchronous delegate: the continuations made for it, the awaits
it has left and the await it is suspended in are together the awaits it has; one of its
work items is not done at a time, and none while it is suspended; and its task has an
outcome of the delegate only when the last of its continuations is done. -/
theorem segments_in_turn (hr : (machine : Machine (Fiber P R E) _).Reachable s) {ref : ℕ}
    (href : ref < s.created) (hj : (s.items ref).job.IsAsync) :
    s.continuations ref + (s.items ref).awaits + (s.items ref).awaiting.toNat =
        (s.items ref).job.awaits ∧
      (∀ c c', s.BelongsTo ref c → s.BelongsTo ref c' → s.NotDone c → s.NotDone c' → c = c') ∧
      ((s.items ref).awaiting = true → ∀ c, s.BelongsTo ref c → ¬ s.NotDone c) ∧
      ((s.items ref).source.outcome ≠ none →
        s.continuations ref = (s.items ref).job.awaits ∧
          ∀ c, s.BelongsTo ref c → c ∈ s.queue.delivered ∧ s.queue.consumer ≠ .onItem c) := by
  have hi := (segments_reachable hr).turns ref href hj
  refine ⟨hi.awaits, hi.alone, hi.awaiting, fun ho => ?_⟩
  obtain ⟨hzero, hfalse, hdone⟩ := hi.ended ho
  constructor
  · have hawaits := hi.awaits
    rw [hzero, hfalse] at hawaits
    exact hawaits
  · intro c hc
    by_contra hnot
    rw [not_and_or, not_not] at hnot
    exact hdone c hc fun hm => hnot.resolve_left fun hnot => hnot hm

/-- A delegate that suspends once, to its end. -/
theorem segments_in_turn_once :
    ∃ s : Fiber Unit ℕ Unit, (s.items 1).source.outcome = some (.ok 5) ∧
      s.continuations 1 = 1 ∧ 2 ∈ s.queue.delivered := by
  obtain ⟨s, hr, hcreated, hj, hone, ho, hpost⟩ := machine.exists_of_run
    (p := fun s : Fiber Unit ℕ Unit => s.created = 3 ∧ (s.items 1).job.IsAsync ∧
      (s.items 1).job.awaits = 1 ∧ (s.items 1).source.outcome = some (.ok 5) ∧
      (s.items 2).job.resumes 1 = true)
    (List.flatten [[.enqueue () (.asyncWorkItem 1 (.ok 5))], List.replicate 5 (.produce ()),
      [.finish ()], List.replicate 4 (.consume true), [.doItem, .resume () 1],
      List.replicate 5 (.produce ()), List.replicate 4 (.consume true), [.doItem]])
    (by decide)
  obtain ⟨-, -, -, hended⟩ := segments_in_turn hr (hcreated ▸ (by decide : 1 < 3)) hj
  obtain ⟨hcount, hdone⟩ := hended (by simp [ho])
  refine ⟨s, ho, hcount.trans hone, (hdone 2 ⟨by omega, .inr ?_⟩).1⟩
  exact Job.resumes_iff.mp hpost

end Fiber
end ComposableAsync.Concurrent
