import ComposableAsync.Foundations.Machine
import ComposableAsync.Resilient.CircuitBreakerDispatcher
import Mathlib.Logic.Function.Basic

/-!
# Overlapping calls on one breaker

A call is two locked steps with its delegate between them: `OnEnter`, then
`OnSuccess` or `CheckException`. The machine interleaves the steps of any set of
calls; every action carries what `DateTime.Now` reads while it holds the lock.
The log keeps what each step did, newest first. It is never read by a step.
-/
namespace ComposableAsync.Resilient
open Foundations

inductive CallStatus where
  | idle | inFlight | ended
  deriving DecidableEq, Repr

inductive EventKind where
  | admitted | rejected | succeeded | failed | filtered
  deriving DecidableEq, Repr

/-- The status a step of this kind finds, and the one it leaves. -/
def EventKind.before : EventKind → CallStatus
  | .admitted | .rejected => .idle
  | .succeeded | .failed | .filtered => .inFlight

def EventKind.after : EventKind → CallStatus
  | .admitted => .inFlight
  | .rejected | .succeeded | .failed | .filtered => .ended

structure Event (C : Type) where
  call : C
  time : ℤ
  kind : EventKind
  before : BreakerState
  after : BreakerState
  deriving DecidableEq, Repr

structure Sys (C : Type) where
  breaker : Breaker := {}
  clock : ℤ := 0
  status : C → CallStatus := fun _ => .idle
  log : List (Event C) := []

/-- The locked steps. A failing delegate brings its exception. -/
inductive Act (C E Ty : Type) where
  | onEnter (call : C) (o : Overload Ty) (now : ℤ)
  | onSuccess (call : C) (now : ℤ)
  | checkException (call : C) (exception : E) (now : ℤ)

variable {C E Ty : Type} {Val : Ty → Type}

def Act.call : Act C E Ty → C
  | .onEnter p _ _ | .onSuccess p _ | .checkException p _ _ => p

def Act.now : Act C E Ty → ℤ
  | .onEnter _ _ now | .onSuccess _ now | .checkException _ _ now => now

variable (c : Settings E Val)

section Machine
variable [DecidableEq C]

def Sys.record (s : Sys C) (a : Act C E Ty) (kind : EventKind) (b : Breaker) : Sys C where
  breaker := b
  clock := a.now
  status := Function.update s.status a.call kind.after
  log := ⟨a.call, a.now, kind, s.breaker.state, b.state⟩ :: s.log

def Sys.step (s : Sys C) (a : Act C E Ty) : Option (Sys C) :=
  match a with
  | .onEnter p o now =>
      if s.status p = .idle then
        match enter c o now s.breaker with
        | (.admitted, b) => some (s.record a .admitted b)
        | (.rejected _, b) => some (s.record a .rejected b)
      else none
  | .onSuccess p now =>
      if s.status p = .inFlight then
        some (s.record a .succeeded (leave c now (.ok ()) s.breaker))
      else none
  | .checkException p e now =>
      if s.status p = .inFlight then
        some (s.record a (if c.exceptionFilter e then .filtered else .failed)
          (leave (R := Unit) c now (.error e) s.breaker))
      else none

def breakerMachine : Machine (Sys C) (Act C E Ty) := ⟨{}, fun s a => s.step c a⟩

end Machine

/-- Readings of the clock never go back. -/
def Monotone (s : Sys C) (a : Act C E Ty) : Prop := s.clock ≤ a.now

instance (s : Sys C) (a : Act C E Ty) : Decidable (Monotone s a) :=
  inferInstanceAs (Decidable (s.clock ≤ a.now))

/-- Everything a locked step can do to the breaker, with the guards it took. -/
inductive Effect (b : Breaker) : Act C E Ty → EventKind → Breaker → Prop
  | pass (p : C) (o : Overload Ty) (now : ℤ) : b.state = .closed →
      Effect b (.onEnter p o now) .admitted b
  | probe (p : C) (o : Overload Ty) (now : ℤ) : b.state = .opened →
      c.delay ≤ now - b.lastFail →
      Effect b (.onEnter p o now) .admitted { b with state := .halfOpen }
  | reject (p : C) (o : Overload Ty) (now : ℤ) : b.state ≠ .closed →
      (b.state = .opened → now - b.lastFail < c.delay) →
      Effect b (.onEnter p o now) .rejected b
  | success (p : C) (now : ℤ) :
      Effect b (.onSuccess p now) .succeeded { b with successiveFails := 0, state := .closed }
  | filtered (p : C) (e : E) (now : ℤ) : c.exceptionFilter e = true →
      Effect b (.checkException p e now) .filtered b
  | count (p : C) (e : E) (now : ℤ) : c.exceptionFilter e = false →
      b.state = .closed → b.successiveFails + 1 ≠ c.threshold →
      Effect b (.checkException p e now) .failed
        { b with lastFail := now, successiveFails := b.successiveFails + 1 }
  | trip (p : C) (e : E) (now : ℤ) : c.exceptionFilter e = false →
      b.state = .closed → b.successiveFails + 1 = c.threshold →
      Effect b (.checkException p e now) .failed
        { state := .opened, lastFail := now, successiveFails := b.successiveFails + 1 }
  | reopen (p : C) (e : E) (now : ℤ) : c.exceptionFilter e = false →
      b.state ≠ .closed →
      Effect b (.checkException p e now) .failed { b with state := .opened, lastFail := now }

theorem boolEntry_map {e : Except E Unit} :
    ∃ answer, boolEntry (e.map fun _ => false) = .rejected answer := by
  cases e with
  | ok => exact ⟨_, rfl⟩
  | error => exact ⟨_, rfl⟩

theorem ReturnData.entry_map {R : Type} {e : Except E R} :
    ∃ answer, ReturnData.entry (e.map .ret) = .rejected answer := by
  cases e with
  | ok => exact ⟨_, rfl⟩
  | error => exact ⟨_, rfl⟩

/-- The open behaviours answer the caller; none of them can admit a call. -/
theorem rejected_of_open (o : Overload Ty) (now : ℤ) (b : Breaker)
    (h : b.state ≠ .closed) (hd : b.state = .opened → now - b.lastFail < c.delay) :
    ∃ answer, enter c o now b = (.rejected answer, b) := by
  cases hs : b.state with
  | closed => exact (h hs).elim
  | opened =>
      cases o with
      | func t | funcTaskOf t =>
          obtain ⟨answer, ha⟩ := ReturnData.entry_map (e := c.openBehaviourReturn t)
          exact ⟨answer, by simp [enter, onEnterOf, unsafeEnter, hs, hd hs, ha]⟩
      | action | funcTask =>
          obtain ⟨answer, ha⟩ := boolEntry_map (e := c.openBehaviour)
          exact ⟨answer, by simp [enter, onEnter, unsafeEnter, hs, hd hs, ha]⟩
  | halfOpen =>
      cases ho : c.openBehaviour with
      | error e =>
          refine ⟨.error e, ?_⟩
          cases o <;> simp [enter, onEnterOf, onEnter, unsafeEnter, hs, ho, Except.bind,
            ReturnData.entry, boolEntry]
      | ok u =>
          cases o with
          | func t | funcTaskOf t =>
              obtain ⟨answer, ha⟩ := ReturnData.entry_map (e := c.openBehaviourReturn t)
              exact ⟨answer, by simp [enter, onEnterOf, unsafeEnter, hs, ho, Except.bind, ha]⟩
          | action | funcTask =>
              obtain ⟨answer, ha⟩ := boolEntry_map (e := c.openBehaviour)
              refine ⟨answer, ?_⟩
              rw [ho] at ha
              simp [enter, onEnter, unsafeEnter, hs, ho, Except.bind, ha]

theorem admitted_of_closed (o : Overload Ty) (now : ℤ) (b : Breaker)
    (h : b.state = .closed) : enter c o now b = (.admitted, b) := by
  cases o <;> simp [enter, onEnterOf, onEnter, unsafeEnter, h, ReturnData.entry, boolEntry]

theorem admitted_of_elapsed (o : Overload Ty) (now : ℤ) (b : Breaker)
    (h : b.state = .opened) (hd : c.delay ≤ now - b.lastFail) :
    enter c o now b = (.admitted, { b with state := .halfOpen }) := by
  have hn : ¬ now - b.lastFail < c.delay := by omega
  cases o <;> simp [enter, onEnterOf, onEnter, unsafeEnter, h, hn, ReturnData.entry, boolEntry]

theorem enter_effect (p : C) (o : Overload Ty) (now : ℤ) (b : Breaker) :
    (∃ b', enter c o now b = (.admitted, b') ∧ Effect c b (.onEnter p o now) .admitted b') ∨
    (∃ answer, enter c o now b = (.rejected answer, b) ∧
      Effect c b (.onEnter p o now) .rejected b) := by
  by_cases hc : b.state = .closed
  · exact .inl ⟨b, admitted_of_closed c o now b hc, .pass p o now hc⟩
  by_cases he : b.state = .opened ∧ c.delay ≤ now - b.lastFail
  · exact .inl ⟨_, admitted_of_elapsed c o now b he.1 he.2, .probe p o now he.1 he.2⟩
  · have hd : b.state = .opened → now - b.lastFail < c.delay := fun h =>
      Int.not_le.mp fun hd => he ⟨h, hd⟩
    obtain ⟨answer, ha⟩ := rejected_of_open c o now b hc hd
    exact .inr ⟨answer, ha, .reject p o now hc hd⟩

theorem fail_effect (p : C) (e : E) (now : ℤ) (b : Breaker) :
    Effect c b (.checkException p e now : Act C E Ty)
      (if c.exceptionFilter e then .filtered else .failed) (checkException c now e b) := by
  unfold checkException
  cases hf : c.exceptionFilter e with
  | true => exact .filtered p e now hf
  | false =>
      simp only [Bool.false_eq_true, if_false]
      cases hs : b.state with
      | closed =>
          simp only [unsafeUpdateOnFail, hs]
          split
          · rename_i ht
            exact .trip p e now hf hs ht
          · rename_i ht
            have hb : Effect c b (.checkException p e now : Act C E Ty) .failed _ :=
              .count p e now hf hs ht
            rwa [hs] at hb
      | opened | halfOpen =>
          simp only [unsafeUpdateOnFail, hs]
          exact .reopen p e now hf (by simp [hs])

/-- One inversion lemma for all invariants: what moved, and from which status. -/
theorem step_effect [DecidableEq C] {s t : Sys C} {a : Act C E Ty} (h : s.step c a = some t) :
    ∃ kind b, Effect c s.breaker a kind b ∧ s.status a.call = kind.before ∧
      t = s.record a kind b := by
  cases a with
  | onEnter p o now =>
      simp only [Sys.step] at h
      split at h
      · rename_i hp
        obtain ⟨b, he, hb⟩ | ⟨answer, he, hb⟩ := enter_effect c p o now s.breaker
        · rw [he] at h
          exact ⟨_, _, hb, hp, (Option.some.inj h).symm⟩
        · rw [he] at h
          exact ⟨_, _, hb, hp, (Option.some.inj h).symm⟩
      · cases h
  | onSuccess p now =>
      simp only [Sys.step] at h
      split at h
      · rename_i hp
        exact ⟨_, _, .success p now, hp, (Option.some.inj h).symm⟩
      · cases h
  | checkException p e now =>
      simp only [Sys.step] at h
      split at h
      · rename_i hp
        refine ⟨_, _, fail_effect c p e now s.breaker, ?_, (Option.some.inj h).symm⟩
        split <;> exact hp
      · cases h

/-- Opens at the first counted failure, for ten ticks; the exception `true` is
filtered, and an open breaker throws `false`. -/
def oneShot : Settings Bool fun _ : Unit => Unit where
  exceptionFilter := id
  openBehaviour := .error false
  openBehaviourReturn := fun _ => .error false
  threshold := 1
  delay := 10

end ComposableAsync.Resilient
