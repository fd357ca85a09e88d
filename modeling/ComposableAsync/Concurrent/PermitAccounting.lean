import ComposableAsync.Concurrent.Handshake
import Mathlib.Data.Set.Card

/-!
# Counting the permits

The account of the handshake in numbers: the permits in the semaphore together with
the notifiers between their lock section and `Release` are at most one, and exactly
one wherever the waiter is going to pump or is pumping a spurious wakeup.

A wait round runs from one `_InWait = true` to the next. `_Epoch` is incremented by
the notifier that clears `_InWait`, so it changes at most once in a round and the
comparison in `Wait` is not deceived by a counter that wraps.
-/
namespace ComposableAsync.Concurrent

/-- Between the first line of `RetireWait` and its return. -/
def Waiter.inRetireWait : Waiter → Bool
  | .setSpurious | .readInWait | .retireLock => true
  | .idle | .clearSpurious | .waitOne | .setInWait | .readEpoch | .prepared | .compareEpoch
  | .waiting | .stopped => false

namespace Handshake
open Foundations
variable {P : Type} {s t : Handshake P}

/-- The permits and the notifiers about to release one. -/
noncomputable def credits (s : Handshake P) : ℕ∞ :=
  s.events.permits + {p | s.notifiers p = .release}.encard

theorem NoCredit.credits (h : s.NoCredit) : s.credits = 0 := by
  have hempty : {p | s.notifiers p = .release} = ∅ := by
    ext p
    simp [h.2 p]
  rw [Handshake.credits, h.1, hempty, Set.encard_empty]
  rfl

theorem OneCredit.credits (h : s.OneCredit) : s.credits = 1 := by
  obtain ⟨hp, hn⟩ | ⟨hp, p, hrel, honly⟩ := h
  · have hempty : {p | s.notifiers p = .release} = ∅ := by
      ext p
      simp [hn p]
    rw [Handshake.credits, hp, hempty, Set.encard_empty]
    rfl
  · have hsingle : {p | s.notifiers p = .release} = {p} := by
      ext q
      exact ⟨honly q, fun hq => (show q = p from hq) ▸ hrel⟩
    rw [Handshake.credits, hp, hsingle, Set.encard_singleton]
    rfl

theorem Account.credits_le_one (ha : s.Account) : s.credits ≤ 1 := by
  obtain h | h := ha.noCredit_or_oneCredit
  · rw [h.credits]
    exact zero_le_one
  · exact h.credits.le

/-- A permit is owed for `_Spurious`, except while `RetireWait` tries to take it back. -/
theorem Account.spurious (ha : s.Account) (hs : s.events.spurious = true)
    (hw : s.waiter.inRetireWait = false) :
    s.events.inWait = false ∧ (s.events.semaphoreDisposed = false → s.OneCredit) := by
  cases hp : s.waiter with
  | idle =>
      simp only [Account, hp, hs, Bool.true_eq_false, false_and, or_false, true_and] at ha
      exact ⟨ha.1, fun _ => ha.2⟩
  | clearSpurious =>
      simp only [Account, hp] at ha
      exact ⟨ha.1, fun _ => ha.2.2⟩
  | waitOne | setInWait =>
      simp only [Account, hp, hs, Bool.true_eq_false, false_and, and_false] at ha
  | readEpoch | prepared | compareEpoch | waiting =>
      simp only [Account, hp, hs, Bool.true_eq_false, false_and] at ha
  | setSpurious | readInWait | retireLock =>
      rw [hp] at hw
      cases hw
  | stopped =>
      simp only [Account, hp] at ha
      exact ha.2 hs

theorem waitStep_epoch {w w' : Waiter} {ec ec' : EventCount}
    (h : waitStep ec w = some (w', ec')) :
    ec'.epoch = ec.epoch ∧ (w ≠ .setInWait → ec'.inWait = true → ec.inWait = true) ∧
      (w ≠ .readEpoch → ec'.epochStarted = ec.epochStarted) ∧
      (w ≠ .setInWait → w' ≠ .readEpoch) := by
  cases w with
  | prepared | stopped => simp [waitStep] at h
  | waitOne | waiting =>
      simp only [waitStep, Option.map_eq_some_iff, EventCount.waitOne] at h
      obtain ⟨e, he, h⟩ := h
      cases h
      split at he <;> cases he
      exact ⟨rfl, fun _ hin => hin, fun _ => rfl, by simp⟩
  | setInWait =>
      cases h
      exact ⟨rfl, fun hne => (hne rfl).elim, fun _ => rfl, fun hne => (hne rfl).elim⟩
  | readEpoch =>
      cases h
      exact ⟨rfl, fun _ hin => hin, fun hne => (hne rfl).elim, by simp⟩
  | retireLock =>
      cases h
      unfold EventCount.retireLock
      split
      · exact ⟨rfl, by simp, fun _ => rfl, by simp⟩
      · exact ⟨rfl, fun _ hin => hin, fun _ => rfl, by simp⟩
  | idle | readInWait | compareEpoch =>
      cases h
      exact ⟨rfl, fun _ hin => hin, fun _ => rfl, fun _ => by split <;> simp⟩
  | clearSpurious | setSpurious =>
      cases h
      exact ⟨rfl, fun _ hin => hin, fun _ => rfl, by simp⟩

theorem notifyStep_epoch {n n' : Notifier} {ec ec' : EventCount}
    (h : notifyStep ec n = some (n', ec')) :
    ec'.epochStarted = ec.epochStarted ∧
      (ec'.epoch = ec.epoch ∧ ec'.inWait = ec.inWait ∨
        ec.inWait = true ∧ ec'.inWait = false ∧ ec'.epoch = ec.epoch + 1) := by
  cases n with
  | idle => simp [notifyStep] at h
  | readInWait =>
      cases h
      exact ⟨rfl, .inl ⟨rfl, rfl⟩⟩
  | lock =>
      cases h
      unfold EventCount.notifyLock
      split
      · rename_i hin
        exact ⟨rfl, .inr ⟨hin, rfl, rfl⟩⟩
      · exact ⟨rfl, .inl ⟨rfl, rfl⟩⟩
  | release =>
      simp only [notifyStep] at h
      split at h
      · rename_i ec'' he
        cases h
        simp only [EventCount.release] at he
        split at he
        · cases he
        · split at he <;> cases he
          exact ⟨rfl, .inl ⟨rfl, rfl⟩⟩
      · cases h
        exact ⟨rfl, .inl ⟨rfl, rfl⟩⟩

/-- Every step but `_InWait = true`, which begins the next round. -/
def SameRound (s : Handshake P) (a : HandshakeAct P) : Prop := s.waiter = .setInWait → a ≠ .wait

def epochChanged (s t : Handshake P) : Bool := s.events.epoch != t.events.epoch

/-- The counter wraps, but one increment never leaves it where it was. -/
theorem epoch_succ_ne (x : UInt32) : x + 1 ≠ x := by
  intro h
  have hone : (1 : UInt32) = 0 := by
    rwa [UInt32.add_eq_left] at h
  cases hone

/-- The event count is in use: nobody disposes it. -/
def InUse (_ : Handshake P) : HandshakeAct P → Prop
  | .dispose => False
  | .wait | .retire | .compare | .cancel | .stop | .call _ | .notify _ => True

variable [DecidableEq P]

/-- Within a round the epoch stands, or one notifier takes the waiter out of the wait set. -/
theorem SameRound.epoch {a : HandshakeAct P} (ha : s.SameRound a) (h : s.step a = some t) :
    t.events.epoch = s.events.epoch ∧ (t.events.inWait = true → s.events.inWait = true) ∨
      s.events.inWait = true ∧ t.events.inWait = false ∧
        t.events.epoch = s.events.epoch + 1 := by
  cases a with
  | wait =>
      obtain ⟨w, ec, hs, rfl⟩ := wait_eq h
      obtain ⟨hepoch, hin, -⟩ := waitStep_epoch hs
      exact .inl ⟨hepoch, hin fun hw => ha hw rfl⟩
  | notify p =>
      obtain ⟨n, ec, hs, rfl⟩ := notify_eq h
      obtain ⟨-, ⟨hepoch, hin⟩ | hpost⟩ := notifyStep_epoch hs
      · exact .inl ⟨hepoch, fun hin' => hin ▸ hin'⟩
      · exact .inr hpost
  | retire | compare | cancel | stop | dispose | call =>
      simp only [step] at h
      split at h <;> cases h
      exact .inl ⟨rfl, fun hin => hin⟩

theorem SameRound.epochStarted {a : HandshakeAct P} (ha : s.SameRound a)
    (hw : s.waiter ≠ .readEpoch) (h : s.step a = some t) :
    t.waiter ≠ .readEpoch ∧ t.events.epochStarted = s.events.epochStarted := by
  cases a with
  | wait =>
      obtain ⟨w, ec, hs, rfl⟩ := wait_eq h
      obtain ⟨-, -, hstarted, hread⟩ := waitStep_epoch hs
      exact ⟨hread fun hw => ha hw rfl, hstarted hw⟩
  | notify p =>
      obtain ⟨n, ec, hs, rfl⟩ := notify_eq h
      exact ⟨hw, (notifyStep_epoch hs).1⟩
  | retire | compare | cancel | stop =>
      simp only [step] at h
      split at h <;> cases h
      exact ⟨by simp, rfl⟩
  | dispose | call =>
      simp only [step] at h
      split at h <;> cases h
      exact ⟨hw, rfl⟩

/-- `_InWait` is the budget of a round: changing the epoch spends it. -/
theorem epochChanges_le {n : ℕ} (h : machine.Counts SameRound epochChanged s n t) :
    n + t.events.inWait.toNat ≤ s.events.inWait.toNat := by
  refine h.le_budget (fun s => s.events.inWait.toNat) ?_
  intro t a u ha hs
  obtain ⟨hepoch, hin⟩ | ⟨hin, hout, -⟩ := ha.epoch hs
  · simp only [epochChanged, hepoch, bne_self_eq_false, Bool.toNat_false, Nat.zero_add]
    exact Bool.toNat_le_toNat (Bool.le_iff_imp.mpr hin)
  · rw [hin, hout]
    exact Bool.toNat_le _

theorem epochChanges_le_one {n : ℕ} (h : machine.Counts SameRound epochChanged s n t) : n ≤ 1 :=
  (Nat.le_add_right ..).trans ((epochChanges_le h).trans (Bool.toNat_le _))

theorem epoch_eq {n : ℕ} (h : machine.Counts SameRound epochChanged s n t)
    (hw : s.waiter ≠ .readEpoch) (hs : s.events.epochStarted = s.events.epoch) :
    t.events.epoch = t.events.epochStarted + UInt32.ofNat n := by
  refine (h.invariant (I := fun n t => t.waiter ≠ .readEpoch ∧
    t.events.epoch = t.events.epochStarted + UInt32.ofNat n) ⟨hw, ?_⟩ ?_).2
  · rw [hs]
    exact (UInt32.add_zero _).symm
  · intro n t a u ⟨hw, hn⟩ ha hs
    obtain ⟨hw', hstarted⟩ := ha.epochStarted hw hs
    refine ⟨hw', ?_⟩
    obtain ⟨hepoch, -⟩ | ⟨-, -, hepoch⟩ := ha.epoch hs
    · simp only [epochChanged, hepoch, bne_self_eq_false, Bool.toNat_false, Nat.add_zero, hstarted,
        hn]
    · have hchanged : t.epochChanged u = true := by
        rw [epochChanged, hepoch, bne_iff_ne]
        exact (epoch_succ_ne _).symm
      rw [hepoch, hstarted, hn, hchanged, UInt32.add_assoc]
      congr 1
      exact (UInt32.ofNat_add n 1).symm

/-- The comparison in `Wait` answers whether a notifier came since the epoch was read. -/
theorem epochStarted_eq_iff {r : Handshake P} {n : ℕ} (hw : s.waiter = .readEpoch)
    (hr : s.step .wait = some r) (h : machine.Counts SameRound epochChanged r n t) :
    t.events.epochStarted = t.events.epoch ↔ n = 0 := by
  obtain ⟨w, ec, hs, rfl⟩ := wait_eq hr
  simp only [waitStep, hw, Option.some.injEq, Prod.mk.injEq] at hs
  obtain ⟨rfl, rfl⟩ := hs
  have hle : n ≤ 1 := epochChanges_le_one h
  have heq := epoch_eq h (by simp) rfl
  constructor
  · intro hcurrent
    by_contra hne
    have hone : n = 1 := by omega
    rw [hone, ← hcurrent] at heq
    exact epoch_succ_ne _ heq.symm
  · intro hn
    rw [heq, hn]
    exact (UInt32.add_zero _).symm

theorem OneCredit.releasing_of_blocked (h : s.OneCredit) (hw : s.waiter = .waitOne)
    (hb : s.step .wait = none) : ∃ p, s.notifiers p = .release := by
  simp only [step, hw, waitStep, EventCount.waitOne, Option.map_eq_none_iff] at hb
  obtain ⟨hp, -⟩ | ⟨-, p, hrel, -⟩ := h
  · simp [hp] at hb
  · exact ⟨p, hrel⟩

theorem InUse.not_disposed (hr : (machine : Machine (Handshake P) _).ReachableUnder InUse s) :
    s.events.semaphoreDisposed = false := by
  refine hr.invariant (I := fun s => s.events.semaphoreDisposed = false) rfl ?_
  intro s a t _ hd ha h
  cases a with
  | dispose => exact ha.elim
  | wait =>
      obtain ⟨w, ec, hs, rfl⟩ := wait_eq h
      exact (waitStep_disposed hs).2.trans hd
  | notify p =>
      obtain ⟨n, ec, hs, rfl⟩ := notify_eq h
      exact (notifyStep_disposed hs).trans hd
  | retire | compare | cancel | stop | call =>
      simp only [machine, step] at h
      split at h <;> cases h
      exact hd

/-- In every state that one waiter and any number of notifiers reach: the permits and the
notifiers about to release are at most one; they are exactly one, with the waiter outside
the wait set, where `_Spurious` is set outside `RetireWait`, and at the `WaitOne` of
`PrepareWait`. So `Release` never throws, that `WaitOne` blocks only while some notifier
is about to release, the epoch changes at most once in what follows of the wait round, and
the epoch that the round has read is current exactly until it changes. -/
theorem permit_accounting (hr : (machine : Machine (Handshake P) _).ReachableUnder InUse s) :
    s.credits ≤ 1 ∧
      (s.events.spurious = true → s.waiter.inRetireWait = false →
        s.credits = 1 ∧ s.events.inWait = false) ∧
      (s.waiter = .waitOne → s.credits = 1) ∧
      (∀ p, s.notifiers p = .release → ∃ ec, s.events.release = .ok ec) ∧
      (s.waiter = .waitOne → s.step .wait = none → ∃ p, s.notifiers p = .release) ∧
      (∀ n t, machine.Counts SameRound epochChanged s n t → n ≤ 1) ∧
      (s.waiter = .readEpoch → ∀ r n t, s.step .wait = some r →
        machine.Counts SameRound epochChanged r n t →
          (t.events.epochStarted = t.events.epoch ↔ n = 0)) := by
  have ha : s.Account := (inv_reachable hr.reachable).account
  have hd : s.events.semaphoreDisposed = false := InUse.not_disposed hr
  refine ⟨ha.credits_le_one, ?_, ?_, ?_, ?_, ?_, ?_⟩
  · intro hs hw
    obtain ⟨hin, hone⟩ := ha.spurious hs hw
    exact ⟨(hone hd).credits, hin⟩
  · intro hw
    exact (ha.oneCredit_of_waitOne hw).credits
  · intro p hp
    exact ⟨_, ha.release_ok hp hd⟩
  · intro hw hb
    exact (ha.oneCredit_of_waitOne hw).releasing_of_blocked hw hb
  · intro n t h
    exact epochChanges_le_one h
  · intro hw r n t hs h
    exact epochStarted_eq_iff hw hs h

instance (s : Handshake P) (a : HandshakeAct P) : Decidable (s.InUse a) :=
  match a with
  | .dispose => isFalse not_false
  | .wait | .retire | .compare | .cancel | .stop | .call _ | .notify _ => isTrue trivial

/-- A notifier takes the waiter out of the wait set, the waiter retires and comes back to
pump the permit before the notifier has released it. -/
theorem permit_accounting_pump :
    ∃ s : Handshake Unit, s.waiter = .waitOne ∧ s.step .wait = none ∧ s.credits = 1 ∧
      ∃ p, s.notifiers p = .release := by
  obtain ⟨s, hr, hw, hb⟩ := machine.exists_of_guarded_run InUse
    (p := fun s : Handshake Unit => s.waiter = .waitOne ∧ (s.step .wait).isNone)
    [.wait, .wait, .wait, .call (), .notify (), .notify (), .retire, .wait, .wait, .wait, .wait]
    (by decide) (by decide)
  have hb : s.step .wait = none := Option.isNone_iff_eq_none.mp hb
  obtain ⟨-, -, hone, -, hblocked, -⟩ := permit_accounting hr
  exact ⟨s, hw, hb, hone hw, hblocked hw hb⟩

end Handshake
end ComposableAsync.Concurrent
