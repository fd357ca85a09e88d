import ComposableAsync.Foundations.Machine
import Mathlib.Data.Fintype.Defs

/-!
# Connecting to a backbone while it is disposed

Any number of `Connect` calls and one `Dispose`, step by step, with the messages
their sources send and clients that dispose the subscriptions they were given. The
composite is created once, by whoever asks for it first; disposing it disposes its
members, and what is added afterwards is disposed at once.

`Dispose` looks whether the composite exists before it cancels the token, and
`Connect` looks at the token before it creates the composite. A `Connect` that runs
between the two looks, or was past its own, keeps its subscription.
-/
namespace ComposableAsync.Flow
open Foundations

/-- Where a `Connect` stands: the token is not cancelled, subscribed, has the
composite, returned. -/
inductive Connecting where
  | idle | passed | subscribed | hasComposite | returned
  deriving DecidableEq, Repr

/-- Where `Dispose` stands: it found the composite, did not find it, disposed it,
returned. -/
inductive Disposing where
  | idle | found | notFound | disposed | returned
  deriving DecidableEq, Repr

inductive Subscription where
  | none | live | disposed
  deriving DecidableEq, Repr

/-- `members` and `isDisposed` belong to the composite; `handled` counts the messages
that reached the handler of a subscription. -/
structure BackBone (C : Type) where
  connecting : C → Connecting := fun _ => .idle
  subscription : C → Subscription := fun _ => .none
  handled : C → ℕ := fun _ => 0
  isValueCreated : Bool := false
  members : C → Bool := fun _ => false
  isDisposed : Bool := false
  isCancellationRequested : Bool := false
  disposing : Disposing := .idle

inductive Act (C : Type) where
  | connect (c : C)
  | dispose
  | message (c : C)
  | unsubscribe (c : C)
  deriving DecidableEq, Repr

variable {C : Type} [DecidableEq C]

namespace BackBone

/-- Disposing a subscription; `Connect` may have given none. -/
def release (s : BackBone C) (c : C) : BackBone C :=
  { s with
    subscription := Function.update s.subscription c
      (if s.subscription c = .live then .disposed else s.subscription c) }

/-- The next step of a `Connect`. -/
def connect (s : BackBone C) (c : C) : Option (BackBone C) :=
  match s.connecting c with
  | .idle =>
      if s.isCancellationRequested then
        some { s with connecting := Function.update s.connecting c .returned }
      else some { s with connecting := Function.update s.connecting c .passed }
  | .passed => some { s with
      connecting := Function.update s.connecting c .subscribed
      subscription := Function.update s.subscription c .live }
  | .subscribed => some { s with
      connecting := Function.update s.connecting c .hasComposite
      isValueCreated := true }
  | .hasComposite =>
      if s.isDisposed then
        some { s.release c with connecting := Function.update s.connecting c .returned }
      else some { s with
        connecting := Function.update s.connecting c .returned
        members := Function.update s.members c true }
  | .returned => none

/-- The next step of `Dispose`. -/
def dispose (s : BackBone C) : Option (BackBone C) :=
  match s.disposing with
  | .idle => some { s with disposing := if s.isValueCreated then .found else .notFound }
  | .found => some { s with
      disposing := .disposed
      isDisposed := true
      subscription := fun c =>
        if s.members c = true ∧ s.subscription c = .live then .disposed else s.subscription c }
  | .notFound | .disposed => some { s with
      disposing := .returned
      isCancellationRequested := true }
  | .returned => none

def step (s : BackBone C) : Act C → Option (BackBone C)
  | .connect c => s.connect c
  | .dispose => s.dispose
  | .message c =>
      if s.subscription c = .live then
        some { s with handled := Function.update s.handled c (s.handled c + 1) }
      else none
  | .unsubscribe c => if s.connecting c = .returned then some (s.release c) else none

end BackBone

def machine : Machine (BackBone C) (Act C) := ⟨{}, BackBone.step⟩

/-- `Dispose` misses the composite only while no `Connect` is past its look at the
token, and none looks at it before it is cancelled. -/
def NoOverlap (s : BackBone C) : Act C → Prop
  | .dispose => s.disposing = .idle → s.isValueCreated = true ∨
      ∀ c, s.connecting c = .idle ∨ s.connecting c = .returned
  | .connect c => s.connecting c = .idle → s.disposing ≠ .notFound
  | .message _ | .unsubscribe _ => True

/-- `Dispose` has returned and so has every `Connect` that was called. -/
structure Settled (s : BackBone C) : Prop where
  disposing : s.disposing = .returned
  connecting : ∀ c, s.connecting c = .idle ∨ s.connecting c = .returned

variable {s t : BackBone C}

inductive Effect (s : BackBone C) : Act C → BackBone C → Prop
  | refuse {c} : s.connecting c = .idle → s.isCancellationRequested = true →
      Effect s (.connect c) { s with connecting := Function.update s.connecting c .returned }
  | pass {c} : s.connecting c = .idle → s.isCancellationRequested = false →
      Effect s (.connect c) { s with connecting := Function.update s.connecting c .passed }
  | subscribe {c} : s.connecting c = .passed →
      Effect s (.connect c) { s with
        connecting := Function.update s.connecting c .subscribed
        subscription := Function.update s.subscription c .live }
  | create {c} : s.connecting c = .subscribed →
      Effect s (.connect c) { s with
        connecting := Function.update s.connecting c .hasComposite
        isValueCreated := true }
  | addDisposed {c} : s.connecting c = .hasComposite → s.isDisposed = true →
      Effect s (.connect c) { s with
        connecting := Function.update s.connecting c .returned
        subscription := Function.update s.subscription c
          (if s.subscription c = .live then .disposed else s.subscription c) }
  | add {c} : s.connecting c = .hasComposite → s.isDisposed = false →
      Effect s (.connect c) { s with
        connecting := Function.update s.connecting c .returned
        members := Function.update s.members c true }
  | find : s.disposing = .idle → s.isValueCreated = true →
      Effect s .dispose { s with disposing := .found }
  | miss : s.disposing = .idle → s.isValueCreated = false →
      Effect s .dispose { s with disposing := .notFound }
  | disposeMembers : s.disposing = .found →
      Effect s .dispose { s with
        disposing := .disposed
        isDisposed := true
        subscription := fun c =>
          if s.members c = true ∧ s.subscription c = .live then .disposed else s.subscription c }
  | cancel : s.disposing = .notFound ∨ s.disposing = .disposed →
      Effect s .dispose { s with disposing := .returned, isCancellationRequested := true }
  | message {c} : s.subscription c = .live →
      Effect s (.message c) { s with handled := Function.update s.handled c (s.handled c + 1) }
  | unsubscribe {c} : s.connecting c = .returned →
      Effect s (.unsubscribe c) { s with
        subscription := Function.update s.subscription c
          (if s.subscription c = .live then .disposed else s.subscription c) }

theorem step_effect {a : Act C} (h : machine.step s a = some t) : Effect s a t := by
  cases a with
  | connect c =>
      change s.connect c = some t at h
      unfold BackBone.connect at h
      cases hc : s.connecting c with
      | idle =>
          simp only [hc] at h
          split at h <;> cases h
          · exact .refuse hc ‹_›
          · exact .pass hc (Bool.eq_false_iff.mpr ‹_›)
      | passed =>
          simp only [hc] at h
          cases h
          exact .subscribe hc
      | subscribed =>
          simp only [hc] at h
          cases h
          exact .create hc
      | hasComposite =>
          simp only [hc] at h
          split at h <;> cases h
          · exact .addDisposed hc ‹_›
          · exact .add hc (Bool.eq_false_iff.mpr ‹_›)
      | returned =>
          simp only [hc] at h
          cases h
  | dispose =>
      change s.dispose = some t at h
      unfold BackBone.dispose at h
      cases hd : s.disposing with
      | idle =>
          simp only [hd] at h
          by_cases hv : s.isValueCreated = true
          · rw [if_pos hv] at h
            cases h
            exact .find hd hv
          · rw [if_neg hv] at h
            cases h
            exact .miss hd (Bool.eq_false_iff.mpr hv)
      | found =>
          simp only [hd] at h
          cases h
          exact .disposeMembers hd
      | notFound =>
          simp only [hd] at h
          cases h
          exact .cancel (.inl hd)
      | disposed =>
          simp only [hd] at h
          cases h
          exact .cancel (.inr hd)
      | returned =>
          simp only [hd] at h
          cases h
  | message c =>
      change (if s.subscription c = .live then some _ else none) = some t at h
      split at h <;> cases h
      exact .message ‹_›
  | unsubscribe c =>
      change (if s.connecting c = .returned then some (s.release c) else none) = some t at h
      split at h <;> cases h
      exact .unsubscribe ‹_›

/-- `Dispose` has missed the composite. -/
def Missed (s : BackBone C) : Prop :=
  s.disposing = .notFound ∨ s.disposing = .returned ∧ s.isDisposed = false

/-- A live subscription belongs to a `Connect` on its way or to a member of a
composite that is not disposed. -/
structure Inv (s : BackBone C) : Prop where
  early : ∀ c, s.connecting c = .idle ∨ s.connecting c = .passed → s.subscription c ≠ .live
  member : ∀ c, s.connecting c = .returned → s.subscription c = .live →
    s.members c = true ∧ s.isDisposed = false
  created : ∀ c, s.connecting c = .hasComposite ∨ s.members c = true → s.isValueCreated = true
  disposed : s.disposing = .disposed → s.isDisposed = true
  cancelled : s.disposing = .returned → s.isCancellationRequested = true
  settled : Missed s → ∀ c, s.connecting c = .idle ∨ s.connecting c = .returned
  quiet : Missed s → ∀ c, s.subscription c ≠ .live

/-- A step that leaves everything alone but one `Connect` and its subscription. -/
structure Local (s t : BackBone C) (c : C) : Prop where
  disposing : t.disposing = s.disposing
  isDisposed : t.isDisposed = s.isDisposed
  isCancellationRequested : t.isCancellationRequested = s.isCancellationRequested
  isValueCreated : s.isValueCreated = true → t.isValueCreated = true
  others : ∀ d, d ≠ c → t.connecting d = s.connecting d ∧ t.subscription d = s.subscription d ∧
    t.members d = s.members d

omit [DecidableEq C] in
theorem Local.missed {c : C} (hl : Local s t c) : Missed t ↔ Missed s := by
  simp only [Missed, hl.disposing, hl.isDisposed]

theorem Inv.of_local {c : C} (hi : Inv s) (hl : Local s t c)
    (hearly : t.connecting c = .idle ∨ t.connecting c = .passed → t.subscription c ≠ .live)
    (hmember : t.connecting c = .returned → t.subscription c = .live →
      t.members c = true ∧ t.isDisposed = false)
    (hcreated : t.connecting c = .hasComposite ∨ t.members c = true → t.isValueCreated = true)
    (hmissed : Missed s →
      (t.connecting c = .idle ∨ t.connecting c = .returned) ∧ t.subscription c ≠ .live) :
    Inv t := by
  constructor
  · intro d
    by_cases hd : d = c
    · exact hd ▸ hearly
    · obtain ⟨hconnecting, hsubscription, -⟩ := hl.others d hd
      rw [hconnecting, hsubscription]
      exact hi.early d
  · intro d
    by_cases hd : d = c
    · exact hd ▸ hmember
    · obtain ⟨hconnecting, hsubscription, hmembers⟩ := hl.others d hd
      rw [hconnecting, hsubscription, hmembers, hl.isDisposed]
      exact hi.member d
  · intro d
    by_cases hd : d = c
    · exact hd ▸ hcreated
    · obtain ⟨hconnecting, -, hmembers⟩ := hl.others d hd
      rw [hconnecting, hmembers]
      exact fun h => hl.isValueCreated (hi.created d h)
  · rw [hl.disposing, hl.isDisposed]
    exact hi.disposed
  · rw [hl.disposing, hl.isCancellationRequested]
    exact hi.cancelled
  · intro hm d
    have hms := hl.missed.mp hm
    by_cases hd : d = c
    · exact hd ▸ (hmissed hms).1
    · rw [(hl.others d hd).1]
      exact hi.settled hms d
  · intro hm d
    have hms := hl.missed.mp hm
    by_cases hd : d = c
    · exact hd ▸ (hmissed hms).2
    · rw [(hl.others d hd).2.1]
      exact hi.quiet hms d

omit [DecidableEq C] in
/-- A `Connect` under way keeps `Dispose` from missing the composite. -/
theorem Inv.not_missed (hi : Inv s) {c : C} {place : Connecting} (hc : s.connecting c = place)
    (hidle : place ≠ .idle) (hreturned : place ≠ .returned) : ¬ Missed s := by
  intro hm
  rcases hi.settled hm c with h | h
  · exact hidle (hc.symm.trans h)
  · exact hreturned (hc.symm.trans h)

theorem Inv.connect {c : C} (hi : Inv s) (ha : NoOverlap s (.connect c))
    (h : Effect s (.connect c) t) : Inv t := by
  have hother : ∀ {α : Type} {f : C → α} {x : α} {d : C}, d ≠ c → Function.update f c x d = f d :=
    fun hd => Function.update_of_ne hd ..
  cases h with
  | refuse hc hcancel =>
      have hquiet := hi.early c (.inl hc)
      apply hi.of_local (c := c)
      · exact ⟨rfl, rfl, rfl, id, fun d hd => ⟨hother hd, rfl, rfl⟩⟩
      · exact fun _ => hquiet
      · exact fun _ hlive => (hquiet hlive).elim
      · simp only [Function.update_self]
        exact fun h => hi.created c (h.imp_left fun h => by cases h)
      · exact fun _ => ⟨.inr (Function.update_self ..), hquiet⟩
  | pass hc hcancel =>
      have hquiet := hi.early c (.inl hc)
      apply hi.of_local (c := c)
      · exact ⟨rfl, rfl, rfl, id, fun d hd => ⟨hother hd, rfl, rfl⟩⟩
      · exact fun _ => hquiet
      · exact fun _ hlive => (hquiet hlive).elim
      · simp only [Function.update_self]
        exact fun h => hi.created c (h.imp_left fun h => by cases h)
      · rintro (hd | ⟨hd, -⟩)
        · exact (ha hc hd).elim
        · cases hcancel.symm.trans (hi.cancelled hd)
  | subscribe hc =>
      apply hi.of_local (c := c)
      · exact ⟨rfl, rfl, rfl, id, fun d hd => ⟨hother hd, hother hd, rfl⟩⟩
      · simp only [Function.update_self]
        rintro (h | h) <;> cases h
      · simp only [Function.update_self]
        exact fun h => by cases h
      · simp only [Function.update_self]
        exact fun h => hi.created c (h.imp_left fun h => by cases h)
      · exact fun hm => (hi.not_missed hc (by decide) (by decide) hm).elim
  | create hc =>
      apply hi.of_local (c := c)
      · exact ⟨rfl, rfl, rfl, fun _ => rfl, fun d hd => ⟨hother hd, rfl, rfl⟩⟩
      · simp only [Function.update_self]
        rintro (h | h) <;> cases h
      · simp only [Function.update_self]
        exact fun h => by cases h
      · exact fun _ => rfl
      · exact fun hm => (hi.not_missed hc (by decide) (by decide) hm).elim
  | addDisposed hc hd =>
      apply hi.of_local (c := c)
      · exact ⟨rfl, rfl, rfl, id, fun d hd => ⟨hother hd, hother hd, rfl⟩⟩
      · simp only [Function.update_self]
        rintro (h | h) <;> cases h
      · simp only [Function.update_self]
        intro _ hlive
        split at hlive
        · cases hlive
        · exact absurd hlive ‹_›
      · simp only [Function.update_self]
        exact fun h => hi.created c (h.imp_left fun h => by cases h)
      · exact fun hm => (hi.not_missed hc (by decide) (by decide) hm).elim
  | add hc hd =>
      apply hi.of_local (c := c)
      · exact ⟨rfl, rfl, rfl, id, fun d hd => ⟨hother hd, rfl, hother hd⟩⟩
      · simp only [Function.update_self]
        rintro (h | h) <;> cases h
      · exact fun _ _ => ⟨Function.update_self .., hd⟩
      · exact fun _ => hi.created c (.inl hc)
      · exact fun hm => (hi.not_missed hc (by decide) (by decide) hm).elim

/-- `Dispose` that misses the composite finds nobody subscribed. -/
theorem Inv.dispose (hi : Inv s) (ha : NoOverlap s .dispose) (h : Effect s .dispose t) : Inv t := by
  obtain ⟨hearly, hmember, hcreated, hdisposed, hcancelled, hsettled, hquiet⟩ := hi
  cases h with
  | find hd hv =>
      refine ⟨hearly, hmember, hcreated, (fun h => by cases h), (fun h => by cases h), ?_, ?_⟩ <;>
      · rintro (h | ⟨h, -⟩) <;> cases h
  | miss hd hv =>
      have hall := (ha hd).resolve_left (by simp [hv])
      refine ⟨hearly, hmember, hcreated, (fun h => by cases h), (fun h => by cases h),
        fun _ => hall, fun _ c hlive => ?_⟩
      rcases hall c with hc | hc
      · exact hearly c (.inl hc) hlive
      · cases hv.symm.trans (hcreated c (.inr (hmember c hc hlive).1))
  | disposeMembers hd =>
      refine ⟨fun c hc hlive => ?_, fun c hc hlive => ?_, hcreated, fun _ => rfl,
        (fun h => by cases h), ?_, ?_⟩
      · dsimp only at hlive
        split at hlive
        · cases hlive
        · exact hearly c hc hlive
      · dsimp only at hlive
        split at hlive
        · cases hlive
        · rename_i hno
          exact (hno ⟨(hmember c hc hlive).1, hlive⟩).elim
      · rintro (h | ⟨h, -⟩) <;> cases h
      · rintro (h | ⟨h, -⟩) <;> cases h
  | cancel hd =>
      have hmissed : Missed { s with disposing := .returned, isCancellationRequested := true } →
          Missed s := by
        rintro (h | ⟨-, h⟩)
        · cases h
        · rcases hd with hd | hd
          · exact .inl hd
          · cases h.symm.trans (hdisposed hd)
      refine ⟨hearly, hmember, hcreated, (fun h => by cases h), fun _ => rfl, ?_, ?_⟩
      · exact fun hm => hsettled (hmissed hm)
      · exact fun hm => hquiet (hmissed hm)

theorem Inv.step {a : Act C} (hi : Inv s) (ha : NoOverlap s a) (h : machine.step s a = some t) :
    Inv t := by
  have he := step_effect h
  cases a with
  | connect c => exact hi.connect ha he
  | dispose => exact hi.dispose ha he
  | message c =>
      cases he with
      | message hc =>
          exact ⟨hi.early, hi.member, hi.created, hi.disposed, hi.cancelled, hi.settled, hi.quiet⟩
  | unsubscribe c =>
      cases he with
      | unsubscribe hc =>
          have hgone : ∀ {x : Subscription}, (if x = .live then .disposed else x) ≠ .live := by
            intro x
            cases x <;> decide
          apply hi.of_local (c := c)
          · exact ⟨rfl, rfl, rfl, id, fun d hd => ⟨rfl, Function.update_of_ne hd .., rfl⟩⟩
          · simp only [Function.update_self]
            exact fun _ => hgone
          · simp only [Function.update_self]
            exact fun _ hlive => (hgone hlive).elim
          · exact hi.created c
          · simp only [Function.update_self]
            exact fun _ => ⟨.inr hc, hgone⟩

theorem inv_reachable (hr : (machine : Machine (BackBone C) _).ReachableUnder NoOverlap s) :
    Inv s := by
  refine hr.invariant (I := Inv) ?_ fun _ _ _ _ hi ha h => hi.step ha h
  constructor <;> simp [machine, Missed]

/-- Nothing is subscribed, and nothing can subscribe any more. -/
structure Closed (s : BackBone C) : Prop extends Settled s where
  cancelled : s.isCancellationRequested = true
  subscription : ∀ c, s.subscription c ≠ .live

theorem Inv.closed {C : Type} {s : BackBone C} (hi : Inv s) (hs : Settled s) : Closed s := by
  refine ⟨hs, hi.cancelled hs.disposing, fun c hlive => ?_⟩
  by_cases hd : s.isDisposed = true
  · obtain hc | hc := hs.connecting c
    · exact hi.early c (.inl hc) hlive
    · rw [(hi.member c hc hlive).2] at hd
      cases hd
  · exact hi.quiet (.inr ⟨hs.disposing, Bool.eq_false_iff.mpr hd⟩) c hlive

/-- A closed backbone stays closed, and no message reaches a handler. -/
theorem Closed.step {a : Act C} (hs : Closed s) (h : machine.step s a = some t) :
    Closed t ∧ t.handled = s.handled := by
  obtain ⟨⟨hdisposing, hconnecting⟩, hcancelled, hquiet⟩ := hs
  cases step_effect h with
  | @refuse c hc _ =>
      refine ⟨⟨⟨hdisposing, fun d => ?_⟩, hcancelled, hquiet⟩, rfl⟩
      by_cases hd : d = c
      · subst hd
        exact .inr (Function.update_self ..)
      · simp only [Function.update_of_ne hd]
        exact hconnecting d
  | pass hc hcancel =>
      rw [hcancelled] at hcancel
      cases hcancel
  | @subscribe c hc | @create c hc | @addDisposed c hc _ | @add c hc _ =>
      obtain hidle | hreturned := hconnecting c
      · rw [hc] at hidle
        cases hidle
      · rw [hc] at hreturned
        cases hreturned
  | find hd _ | miss hd _ | disposeMembers hd =>
      rw [hdisposing] at hd
      cases hd
  | cancel hd =>
      rw [hdisposing] at hd
      obtain hd | hd := hd <;> cases hd
  | message hlive => exact (hquiet _ hlive).elim
  | @unsubscribe c _ =>
      refine ⟨⟨⟨hdisposing, hconnecting⟩, hcancelled, fun d hlive => ?_⟩, rfl⟩
      by_cases hd : d = c
      · subst hd
        simp only [Function.update_self, if_neg (hquiet d)] at hlive
        exact hquiet d hlive
      · simp only [Function.update_of_ne hd] at hlive
        exact hquiet d hlive

/-- In every run in which `Dispose` and the `Connect` calls do not overlap in that
way: once `Dispose` and all `Connect` calls have returned no subscription is left,
and whatever happens afterwards no message reaches the handler. -/
theorem disposed_quiet (hr : (machine : Machine (BackBone C) _).ReachableUnder NoOverlap s)
    (hs : Settled s) : (∀ c, s.subscription c ≠ .live) ∧
      ∀ t, (machine : Machine (BackBone C) _).Leads (fun _ => True) s t → t.handled = s.handled := by
  have hclosed : Closed s := (inv_reachable hr).closed hs
  refine ⟨hclosed.subscription, fun t hlead => ?_⟩
  have hkept := hlead.invariant (I := fun u => Closed u ∧ u.handled = s.handled) ⟨hclosed, rfl⟩
    fun u a v hu _ h => by
      obtain ⟨hv, hhandled⟩ := hu.1.step h
      exact ⟨hv, hhandled.trans hu.2⟩
  exact hkept.2

instance [Fintype C] (s : BackBone C) (a : Act C) : Decidable (NoOverlap s a) :=
  match a with
  | .dispose => inferInstanceAs (Decidable (s.disposing = .idle → s.isValueCreated = true ∨
      ∀ c, s.connecting c = .idle ∨ s.connecting c = .returned))
  | .connect c => inferInstanceAs (Decidable (s.connecting c = .idle → s.disposing ≠ .notFound))
  | .message _ | .unsubscribe _ => isTrue trivial

/-- Two calls connect, the second while the composite is being disposed. -/
theorem disposed_quiet_connected :
    ∃ s : BackBone Bool, Settled s ∧ ∀ c, s.subscription c ≠ .live := by
  obtain ⟨s, hr, hdisposing, hconnecting⟩ := machine.exists_of_guarded_run NoOverlap
    (p := fun s : BackBone Bool => s.disposing = .returned ∧ ∀ c, s.connecting c = .returned)
    [.connect true, .connect true, .connect true, .connect true, .message true, .dispose,
      .connect false, .connect false, .dispose, .connect false, .connect false, .dispose]
    (by decide) (by decide)
  have hs : Settled s := ⟨hdisposing, fun c => .inr (hconnecting c)⟩
  exact ⟨s, hs, (disposed_quiet hr hs).1⟩

/-- `Dispose` looks for the composite before the one `Connect` has created it. -/
theorem subscribed_after_dispose :
    ¬ ∀ s : BackBone Unit, machine.Reachable s → Settled s → ∀ c, s.subscription c ≠ .live := by
  intro h
  obtain ⟨s, hr, hdisposing, hconnecting, hlive⟩ := machine.exists_of_run
    (p := fun s : BackBone Unit => s.disposing = .returned ∧ s.connecting () = .returned ∧
      s.subscription () = .live)
    [.connect (), .dispose, .dispose, .connect (), .connect (), .connect ()] (by decide)
  exact h s hr ⟨hdisposing, fun _ => .inr hconnecting⟩ () hlive

end ComposableAsync.Flow
