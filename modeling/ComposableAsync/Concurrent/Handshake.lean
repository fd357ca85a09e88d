import ComposableAsync.Concurrent.SimplifiedEventCount
import ComposableAsync.Foundations.Machine

/-!
# One waiter and any number of notifiers

The wait set of `SimplifiedEventCount` has one place. The waiter enters it by
setting `_InWait`; whoever clears the flag under the lock, a notifier or the
waiter itself, has taken the waiter out. A notifier that did so owes one permit,
and the waiter either waits for that permit or remembers it in `_Spurious` and
pumps it in its next `PrepareWait`.

Calling a permit in the semaphore or a notifier about to release one a credit,
the place of the waiter and the two flags say whether there is no credit or
exactly one. That account is the invariant of this module; it holds for any
client that calls `PrepareWait` and then `RetireWait` or `Wait`.
-/
namespace ComposableAsync.Concurrent
open Foundations

/-- The waiter by its next access. `idle` is outside the event count; from there
`PrepareWait` begins with the read of `_Spurious`. -/
inductive Waiter where
  | idle
  | clearSpurious
  | waitOne
  | setInWait
  | readEpoch
  | prepared
  | setSpurious
  | readInWait
  | retireLock
  | compareEpoch
  | waiting
  | stopped
  deriving DecidableEq, Repr

inductive Notifier where
  | idle | readInWait | lock | release
  deriving DecidableEq, Repr

structure Handshake (P : Type) where
  events : EventCount := {}
  waiter : Waiter := .idle
  notifiers : P → Notifier := fun _ => .idle

/-- After `PrepareWait` the client calls `RetireWait` or `Wait`. It may stop by
cancellation inside `Wait`, or outside the event count, and then dispose it. -/
inductive HandshakeAct (P : Type) where
  | wait
  | retire
  | compare
  | cancel
  | stop
  | dispose
  | call (p : P)
  | notify (p : P)

namespace Handshake
variable {P : Type}

/-- The next access of the waiter where its client has no choice. -/
def waitStep (ec : EventCount) : Waiter → Option (Waiter × EventCount)
  | .idle => some (if ec.spurious then .clearSpurious else .setInWait, ec)
  | .clearSpurious => some (.waitOne, { ec with spurious := false })
  | .waitOne => ec.waitOne.map (.setInWait, ·)
  | .setInWait => some (.readEpoch, { ec with inWait := true })
  | .readEpoch => some (.prepared, { ec with epochStarted := ec.epoch })
  | .setSpurious => some (.readInWait, { ec with spurious := true })
  | .readInWait => some (if ec.inWait then .retireLock else .idle, ec)
  | .retireLock => some (.idle, ec.retireLock)
  | .compareEpoch => some (if ec.epochStarted = ec.epoch then .waiting else .setSpurious, ec)
  | .waiting => ec.waitOne.map (.idle, ·)
  | .prepared | .stopped => none

/-- The next access of a notifier; a failed `Release` ends the call. -/
def notifyStep (ec : EventCount) : Notifier → Option (Notifier × EventCount)
  | .idle => none
  | .readInWait => some (if ec.inWait then .lock else .idle, ec)
  | .lock => some (if ec.notifyLock.1 then .release else .idle, ec.notifyLock.2)
  | .release =>
      match ec.release with
      | .ok ec' => some (.idle, ec')
      | .error _ => some (.idle, ec)

variable [DecidableEq P]

def step (s : Handshake P) : HandshakeAct P → Option (Handshake P)
  | .wait => (waitStep s.events s.waiter).map fun (w, ec) => { s with waiter := w, events := ec }
  | .retire => if s.waiter = .prepared then some { s with waiter := .setSpurious } else none
  | .compare => if s.waiter = .prepared then some { s with waiter := .compareEpoch } else none
  | .cancel =>
      if s.waiter = .waiting ∧ s.events.waitOne = none then some { s with waiter := .stopped }
      else none
  | .stop => if s.waiter = .idle then some { s with waiter := .stopped } else none
  | .dispose =>
      if s.waiter = .stopped then
        some { s with events := { s.events with semaphoreDisposed := true } }
      else none
  | .call p =>
      if s.notifiers p = .idle then
        some { s with notifiers := Function.update s.notifiers p .readInWait }
      else none
  | .notify p =>
      (notifyStep s.events (s.notifiers p)).map fun (n, ec) =>
        { s with notifiers := Function.update s.notifiers p n, events := ec }

def machine : Machine (Handshake P) (HandshakeAct P) := ⟨{}, step⟩

omit [DecidableEq P]

/-- No permit, and nobody about to release one. -/
def NoCredit (s : Handshake P) : Prop :=
  s.events.permits = 0 ∧ ∀ p, s.notifiers p ≠ .release

/-- One permit, or one notifier about to release one. -/
def OneCredit (s : Handshake P) : Prop :=
  s.events.permits = 1 ∧ (∀ p, s.notifiers p ≠ .release) ∨
  s.events.permits = 0 ∧ ∃ p, s.notifiers p = .release ∧ ∀ q, s.notifiers q = .release → q = p

/-- The waiter entered the wait set; it is there still, or a notifier took it
out and owes it a permit. -/
def Armed (s : Handshake P) : Prop :=
  s.events.inWait = true ∧ s.NoCredit ∨ s.events.inWait = false ∧ s.OneCredit

/-- What the place of the waiter says about the flags and the credit. -/
def Account (s : Handshake P) : Prop :=
  match s.waiter with
  | .idle =>
      s.events.inWait = false ∧
        (s.events.spurious = true ∧ s.OneCredit ∨ s.events.spurious = false ∧ s.NoCredit)
  | .clearSpurious => s.events.inWait = false ∧ s.events.spurious = true ∧ s.OneCredit
  | .waitOne => s.events.inWait = false ∧ s.events.spurious = false ∧ s.OneCredit
  | .setInWait => s.events.inWait = false ∧ s.events.spurious = false ∧ s.NoCredit
  | .readEpoch | .prepared | .setSpurious | .compareEpoch | .waiting =>
      s.events.spurious = false ∧ s.Armed
  | .readInWait | .retireLock => s.events.spurious = true ∧ s.Armed
  | .stopped =>
      (s.events.inWait = true ∧ s.NoCredit ∨
        s.events.inWait = false ∧ (s.NoCredit ∨ s.OneCredit)) ∧
      (s.events.spurious = true → s.events.inWait = false ∧
        (s.events.semaphoreDisposed = false → s.OneCredit))

structure Inv (s : Handshake P) : Prop where
  account : s.Account
  disposed : s.events.semaphoreDisposed = true → s.waiter = .stopped

variable {s t : Handshake P}

theorem OneCredit.waitOne (h : s.OneCredit) {ec : EventCount} (he : s.events.waitOne = some ec) :
    ec = { s.events with permits := 0 } ∧ ∀ p, s.notifiers p ≠ .release := by
  simp only [EventCount.waitOne] at he
  split at he
  · rename_i hpos
    cases he
    rcases h with ⟨hp, hn⟩ | ⟨hp, -⟩
    · refine ⟨?_, hn⟩
      rw [hp]
    · omega
  · cases he

theorem Account.noCredit_or_oneCredit (h : s.Account) : s.NoCredit ∨ s.OneCredit := by
  cases hw : s.waiter with
  | idle =>
      simp only [Account, hw] at h
      rcases h with ⟨-, ⟨-, h⟩ | ⟨-, h⟩⟩
      · exact .inr h
      · exact .inl h
  | clearSpurious | waitOne =>
      simp only [Account, hw] at h
      exact .inr h.2.2
  | setInWait =>
      simp only [Account, hw] at h
      exact .inl h.2.2
  | readEpoch | prepared | setSpurious | compareEpoch | waiting | readInWait | retireLock =>
      simp only [Account, hw] at h
      exact h.2.imp And.right And.right
  | stopped =>
      simp only [Account, hw] at h
      rcases h.1 with ⟨-, h⟩ | ⟨-, h⟩
      · exact .inl h
      · exact h

theorem Account.oneCredit_of_waitOne (h : s.Account) (hw : s.waiter = .waitOne) :
    s.OneCredit := by
  simp only [Account, hw] at h
  exact h.2.2

theorem Account.stopped (ha : s.Account) (hw : s.waiter = .waiting ∨ s.waiter = .idle) :
    ({ s with waiter := .stopped } : Handshake P).Account := by
  rcases hw with hw | hw
  · simp only [Account, hw] at ha
    refine ⟨ha.2.imp_right (And.imp_right .inr), fun hsp => ?_⟩
    cases ha.1.symm.trans hsp
  · simp only [Account, hw] at ha
    obtain ⟨hin, ⟨hsp, hone⟩ | ⟨hsp, hno⟩⟩ := ha
    · exact ⟨.inr ⟨hin, .inr hone⟩, fun _ => ⟨hin, fun _ => hone⟩⟩
    · exact ⟨.inr ⟨hin, .inl hno⟩, fun h => by cases hsp.symm.trans h⟩

variable [DecidableEq P]

theorem wait_eq (h : s.step .wait = some t) :
    ∃ w ec, waitStep s.events s.waiter = some (w, ec) ∧
      t = { s with waiter := w, events := ec } := by
  simp only [step, Option.map_eq_some_iff] at h
  obtain ⟨⟨w, ec⟩, hw, rfl⟩ := h
  exact ⟨w, ec, hw, rfl⟩

theorem waitStep_disposed {w w' : Waiter} {ec ec' : EventCount}
    (h : waitStep ec w = some (w', ec')) :
    w ≠ .stopped ∧ ec'.semaphoreDisposed = ec.semaphoreDisposed := by
  cases w with
  | prepared | stopped => simp [waitStep] at h
  | waitOne | waiting =>
      simp only [waitStep, Option.map_eq_some_iff, EventCount.waitOne] at h
      obtain ⟨e, he, h⟩ := h
      cases h
      split at he <;> cases he
      exact ⟨by simp, rfl⟩
  | retireLock =>
      cases h
      refine ⟨by simp, ?_⟩
      unfold EventCount.retireLock
      split <;> rfl
  | idle | clearSpurious | setInWait | readEpoch | setSpurious | readInWait | compareEpoch =>
      cases h
      exact ⟨by simp, rfl⟩

theorem Account.wait (ha : s.Account) (h : s.step .wait = some t) : t.Account := by
  obtain ⟨w, ec, hs, rfl⟩ := wait_eq h
  cases hw : s.waiter with
  | prepared | stopped => simp [waitStep, hw] at hs
  | idle =>
      simp only [waitStep, hw, Option.some.injEq, Prod.mk.injEq] at hs
      obtain ⟨rfl, rfl⟩ := hs
      simp only [Account, hw] at ha
      obtain ⟨hin, ⟨hsp, hone⟩ | ⟨hsp, hno⟩⟩ := ha
      · rw [if_pos hsp]
        exact ⟨hin, hsp, hone⟩
      · rw [if_neg (Bool.eq_false_iff.mp hsp)]
        exact ⟨hin, hsp, hno⟩
  | clearSpurious =>
      simp only [waitStep, hw, Option.some.injEq, Prod.mk.injEq] at hs
      obtain ⟨rfl, rfl⟩ := hs
      simp only [Account, hw] at ha
      exact ⟨ha.1, rfl, ha.2.2⟩
  | waitOne =>
      simp only [waitStep, hw, Option.map_eq_some_iff] at hs
      obtain ⟨e, he, hs⟩ := hs
      cases hs
      simp only [Account, hw] at ha
      obtain ⟨rfl, hn⟩ := ha.2.2.waitOne he
      exact ⟨ha.1, ha.2.1, rfl, hn⟩
  | setInWait =>
      simp only [waitStep, hw, Option.some.injEq, Prod.mk.injEq] at hs
      obtain ⟨rfl, rfl⟩ := hs
      simp only [Account, hw] at ha
      exact ⟨ha.2.1, .inl ⟨rfl, ha.2.2⟩⟩
  | readEpoch =>
      simp only [waitStep, hw, Option.some.injEq, Prod.mk.injEq] at hs
      obtain ⟨rfl, rfl⟩ := hs
      simp only [Account, hw] at ha
      exact ha
  | setSpurious =>
      simp only [waitStep, hw, Option.some.injEq, Prod.mk.injEq] at hs
      obtain ⟨rfl, rfl⟩ := hs
      simp only [Account, hw] at ha
      exact ⟨rfl, ha.2⟩
  | readInWait =>
      simp only [waitStep, hw, Option.some.injEq, Prod.mk.injEq] at hs
      obtain ⟨rfl, rfl⟩ := hs
      simp only [Account, hw] at ha
      cases hin : s.events.inWait with
      | true =>
          exact ha
      | false =>
          refine ⟨hin, .inl ⟨ha.1, ?_⟩⟩
          rcases ha.2 with ⟨hin', -⟩ | ⟨-, hone⟩
          · cases hin.symm.trans hin'
          · exact hone
  | retireLock =>
      simp only [waitStep, hw, Option.some.injEq, Prod.mk.injEq] at hs
      obtain ⟨rfl, rfl⟩ := hs
      simp only [Account, hw] at ha
      rcases ha.2 with ⟨hin, hno⟩ | ⟨hin, hone⟩
      · -- the waiter takes itself out, so no permit will come
        rw [EventCount.retireLock, if_pos hin]
        exact ⟨rfl, .inr ⟨rfl, hno⟩⟩
      · rw [EventCount.retireLock, if_neg (Bool.eq_false_iff.mp hin)]
        exact ⟨hin, .inl ⟨ha.1, hone⟩⟩
  | compareEpoch =>
      simp only [waitStep, hw, Option.some.injEq, Prod.mk.injEq] at hs
      obtain ⟨rfl, rfl⟩ := hs
      simp only [Account, hw] at ha
      by_cases he : s.events.epochStarted = s.events.epoch
      · rw [if_pos he]
        exact ha
      · rw [if_neg he]
        exact ha
  | waiting =>
      simp only [waitStep, hw, Option.map_eq_some_iff] at hs
      obtain ⟨e, he, hs⟩ := hs
      cases hs
      simp only [Account, hw] at ha
      obtain ⟨hsp, ⟨hin, hno⟩ | ⟨hin, hone⟩⟩ := ha
      · -- a waiter still in the wait set finds no permit
        simp [EventCount.waitOne, hno.1] at he
      · obtain ⟨rfl, hn⟩ := hone.waitOne he
        exact ⟨hin, .inr ⟨hsp, rfl, hn⟩⟩

theorem notify_eq {p : P} (h : s.step (.notify p) = some t) :
    ∃ n ec, notifyStep s.events (s.notifiers p) = some (n, ec) ∧
      t = { s with notifiers := Function.update s.notifiers p n, events := ec } := by
  simp only [step, Option.map_eq_some_iff] at h
  obtain ⟨⟨n, ec⟩, hn, rfl⟩ := h
  exact ⟨n, ec, hn, rfl⟩

omit [DecidableEq P] in
theorem Account.congr (ha : s.Account) (hw : t.waiter = s.waiter)
    (hin : t.events.inWait = s.events.inWait) (hsp : t.events.spurious = s.events.spurious)
    (hd : t.events.semaphoreDisposed = s.events.semaphoreDisposed)
    (hno : s.NoCredit → t.NoCredit) (hone : s.OneCredit → t.OneCredit) : t.Account := by
  have harmed : s.Armed → t.Armed := by
    intro h
    rw [Armed, hin]
    exact h.imp (And.imp_right hno) (And.imp_right hone)
  cases hp : s.waiter with
  | idle =>
      simp only [Account, hw, hp, hin, hsp] at ha ⊢
      exact ha.imp_right (Or.imp (And.imp_right hone) (And.imp_right hno))
  | clearSpurious | waitOne =>
      simp only [Account, hw, hp, hin, hsp] at ha ⊢
      exact ha.imp_right (And.imp_right hone)
  | setInWait =>
      simp only [Account, hw, hp, hin, hsp] at ha ⊢
      exact ha.imp_right (And.imp_right hno)
  | readEpoch | prepared | setSpurious | compareEpoch | waiting | readInWait | retireLock =>
      simp only [Account, hw, hp, hsp] at ha ⊢
      exact ha.imp_right harmed
  | stopped =>
      simp only [Account, hw, hp, hin, hsp, hd] at ha ⊢
      refine ⟨ha.1.imp (And.imp_right hno) (And.imp_right (Or.imp hno hone)), fun h => ?_⟩
      exact (ha.2 h).imp_right fun h hd => hone (h hd)

theorem Account.of_ne_release (ha : s.Account) {p : P} {n : Notifier}
    (hp : s.notifiers p ≠ .release) (hn : n ≠ .release) :
    ({ s with notifiers := Function.update s.notifiers p n } : Handshake P).Account := by
  have hrel : ∀ q, Function.update s.notifiers p n q = .release ↔ s.notifiers q = .release := by
    intro q
    rw [update_apply_eq]
    constructor
    · rintro (⟨-, h⟩ | ⟨-, h⟩)
      · exact (hn h).elim
      · exact h
    · intro h
      exact .inr ⟨fun hq => hp (hq ▸ h), h⟩
  refine ha.congr rfl rfl rfl rfl ?_ ?_
  · intro h
    simpa only [NoCredit, Ne, hrel] using h
  · intro h
    simpa only [OneCredit, Ne, hrel] using h

omit [DecidableEq P] in
theorem Account.noCredit (ha : s.Account) (hin : s.events.inWait = true) : s.NoCredit := by
  have harmed : s.Armed → s.NoCredit := by
    rintro (⟨-, h⟩ | ⟨h, -⟩)
    · exact h
    · cases hin.symm.trans h
  cases hw : s.waiter with
  | idle | clearSpurious | waitOne | setInWait =>
      simp only [Account, hw, hin, Bool.true_eq_false, false_and] at ha
  | readEpoch | prepared | setSpurious | compareEpoch | waiting | readInWait | retireLock =>
      simp only [Account, hw] at ha
      exact harmed ha.2
  | stopped =>
      simp only [Account, hw, hin, Bool.true_eq_false, false_and, or_false, true_and] at ha
      exact ha.1

theorem Account.post (ha : s.Account) (hin : s.events.inWait = true) {p : P} (epoch : UInt32) :
    ({ s with
      notifiers := Function.update s.notifiers p .release
      events := { s.events with epoch := epoch, inWait := false } } : Handshake P).Account := by
  obtain ⟨hp, hn⟩ := ha.noCredit hin
  have hone : ({ s with
      notifiers := Function.update s.notifiers p .release
      events := { s.events with epoch := epoch, inWait := false } } : Handshake P).OneCredit := by
    refine .inr ⟨hp, p, Function.update_self .., fun q hq => ?_⟩
    rcases update_apply_eq.mp hq with ⟨h, -⟩ | ⟨-, h⟩
    · exact h
    · exact (hn q h).elim
  cases hw : s.waiter with
  | idle | clearSpurious | waitOne | setInWait =>
      simp only [Account, hw, hin, Bool.true_eq_false, false_and] at ha
  | readEpoch | prepared | setSpurious | compareEpoch | waiting | readInWait | retireLock =>
      simp only [Account, hw] at ha ⊢
      exact ⟨ha.1, .inr ⟨rfl, hone⟩⟩
  | stopped =>
      simp only [Account, hw] at ha ⊢
      exact ⟨.inr ⟨trivial, .inr hone⟩, fun _ => ⟨trivial, fun _ => hone⟩⟩

omit [DecidableEq P] in
theorem Account.releasing (ha : s.Account) {p : P} (hp : s.notifiers p = .release) :
    s.events.permits = 0 ∧ ∀ q, s.notifiers q = .release → q = p := by
  rcases ha.noCredit_or_oneCredit with hno | ⟨-, hn⟩ | ⟨hz, q, -, honly⟩
  · exact (hno.2 p hp).elim
  · exact (hn p hp).elim
  · refine ⟨hz, fun r hr => ?_⟩
    rw [honly r hr, honly p hp]

omit [DecidableEq P] in
/-- It finds no permit, so `Release` stays below the maximum. -/
theorem Account.release_ok (ha : s.Account) {p : P} (hp : s.notifiers p = .release)
    (hd : s.events.semaphoreDisposed = false) :
    s.events.release = .ok { s.events with permits := s.events.permits + 1 } := by
  obtain ⟨hz, -⟩ := ha.releasing hp
  have hlt : s.events.permits < EventCount.maximum := by
    rw [hz]
    decide
  rw [EventCount.release, if_neg (Bool.eq_false_iff.mp hd), if_pos hlt]

theorem Account.release (ha : s.Account) {p : P} (hp : s.notifiers p = .release) :
    ({ s with
      notifiers := Function.update s.notifiers p .idle
      events := { s.events with permits := s.events.permits + 1 } } : Handshake P).Account := by
  obtain ⟨hz, honly⟩ := ha.releasing hp
  refine ha.congr rfl rfl rfl rfl ?_ ?_
  · intro hno
    exact (hno.2 p hp).elim
  · intro _
    refine .inl ⟨congrArg (· + 1) hz, fun q hq => ?_⟩
    rcases update_apply_eq.mp hq with ⟨-, h⟩ | ⟨hne, h⟩
    · cases h
    · exact hne (honly q h)

theorem Account.raise (ha : s.Account) (hd : s.events.semaphoreDisposed = true)
    (hw : s.waiter = .stopped) {p : P} (hp : s.notifiers p = .release) :
    ({ s with notifiers := Function.update s.notifiers p .idle } : Handshake P).Account := by
  obtain ⟨hz, honly⟩ := ha.releasing hp
  have hno : ({ s with notifiers := Function.update s.notifiers p .idle } : Handshake P).NoCredit := by
    refine ⟨hz, fun q hq => ?_⟩
    rcases update_apply_eq.mp hq with ⟨-, h⟩ | ⟨hne, h⟩
    · cases h
    · exact hne (honly q h)
  simp only [Account, hw, hd] at ha ⊢
  refine ⟨ha.1.imp (And.imp_right fun _ => hno) (And.imp_right fun _ => .inl hno), fun h => ?_⟩
  exact ⟨(ha.2 h).1, by simp⟩

theorem Account.notify (ha : s.Account)
    (hd : s.events.semaphoreDisposed = true → s.waiter = .stopped) {p : P}
    (h : s.step (.notify p) = some t) : t.Account := by
  obtain ⟨n, ec, hs, rfl⟩ := notify_eq h
  cases hp : s.notifiers p with
  | idle => simp [notifyStep, hp] at hs
  | readInWait =>
      simp only [notifyStep, hp, Option.some.injEq, Prod.mk.injEq] at hs
      obtain ⟨rfl, rfl⟩ := hs
      apply ha.of_ne_release (by simp [hp])
      split <;> simp
  | lock =>
      simp only [notifyStep, hp, Option.some.injEq, Prod.mk.injEq] at hs
      obtain ⟨rfl, rfl⟩ := hs
      cases hin : s.events.inWait with
      | true =>
          simp only [EventCount.notifyLock, hin, if_true]
          exact ha.post hin _
      | false =>
          simp only [EventCount.notifyLock, hin, Bool.false_eq_true, if_false]
          exact ha.of_ne_release (by simp [hp]) (by simp)
  | release =>
      by_cases hdis : s.events.semaphoreDisposed = true
      · have he : s.events.release = .error .objectDisposed := if_pos hdis
        simp only [notifyStep, hp, he, Option.some.injEq, Prod.mk.injEq] at hs
        obtain ⟨rfl, rfl⟩ := hs
        exact ha.raise hdis (hd hdis) hp
      · have he := ha.release_ok hp (Bool.eq_false_iff.mpr hdis)
        simp only [notifyStep, hp, he, Option.some.injEq, Prod.mk.injEq] at hs
        obtain ⟨rfl, rfl⟩ := hs
        exact ha.release hp

theorem notifyStep_disposed {n n' : Notifier} {ec ec' : EventCount}
    (h : notifyStep ec n = some (n', ec')) : ec'.semaphoreDisposed = ec.semaphoreDisposed := by
  cases n with
  | idle => simp [notifyStep] at h
  | readInWait =>
      cases h
      rfl
  | lock =>
      cases h
      unfold EventCount.notifyLock
      split <;> rfl
  | release =>
      simp only [notifyStep] at h
      split at h
      · rename_i ec'' he
        cases h
        simp only [EventCount.release] at he
        split at he
        · cases he
        · split at he <;> cases he
          rfl
      · cases h
        rfl

theorem Inv.step (hi : s.Inv) {a : HandshakeAct P} (h : s.step a = some t) : t.Inv := by
  cases a with
  | wait =>
      refine ⟨hi.account.wait h, fun hd => ?_⟩
      obtain ⟨w, ec, hs, rfl⟩ := wait_eq h
      obtain ⟨hne, hdis⟩ := waitStep_disposed hs
      exact (hne (hi.disposed (hdis ▸ hd))).elim
  | retire | compare =>
      simp only [Handshake.step] at h
      split at h
      · rename_i hw
        cases h
        have ha := hi.account
        simp only [Account, hw] at ha
        exact ⟨ha, fun hd => by cases hw.symm.trans (hi.disposed hd)⟩
      · cases h
  | cancel =>
      simp only [Handshake.step] at h
      split at h
      · rename_i hw
        cases h
        exact ⟨hi.account.stopped (.inl hw.1), fun _ => rfl⟩
      · cases h
  | stop =>
      simp only [Handshake.step] at h
      split at h
      · rename_i hw
        cases h
        exact ⟨hi.account.stopped (.inr hw), fun _ => rfl⟩
      · cases h
  | dispose =>
      simp only [Handshake.step] at h
      split at h
      · rename_i hw
        cases h
        have ha := hi.account
        simp only [Account, hw] at ha
        refine ⟨?_, fun _ => hw⟩
        simp only [Account, hw]
        exact ⟨ha.1, fun hsp => ⟨(ha.2 hsp).1, by simp⟩⟩
      · cases h
  | call p =>
      simp only [Handshake.step] at h
      split at h
      · rename_i hp
        cases h
        exact ⟨hi.account.of_ne_release (by simp [hp]) (by simp), hi.disposed⟩
      · cases h
  | notify p =>
      refine ⟨hi.account.notify hi.disposed h, fun hd => ?_⟩
      obtain ⟨n, ec, hs, rfl⟩ := notify_eq h
      exact hi.disposed (notifyStep_disposed hs ▸ hd)

/-- The account holds in every run of one waiter and any number of notifiers. -/
theorem inv_reachable (hr : (machine : Machine (Handshake P) _).Reachable s) : s.Inv := by
  refine hr.invariant ⟨⟨rfl, .inr ⟨rfl, rfl, fun _ h => by cases h⟩⟩, fun h => by cases h⟩ ?_
  intro s a t _ hi h
  exact hi.step h

end Handshake
end ComposableAsync.Concurrent
