import ComposableAsync.Resilient.BreakerCounter

/-!
# The documented policy, call by call

The policy looks only at the history of invoked delegates: it counts failures
since the last success and remembers when the last failure happened. It has no
state of its own and no half-open mode. Non-overlapping calls on the breaker,
through any of the four overloads, are this policy: a simulation relates the
three-state breaker to the history after every finite sequence of calls.
-/
namespace ComposableAsync.Resilient
open Foundations

variable {E Ty W : Type} {Val : Ty → Type} (c : Settings E Val)

section Overloads
variable (t : Ty) (t₀ t₁ : ℤ) (w : World W)

/-- A whole call, given its two locked sections and the delegate between them. -/
def sequential {R : Type} (entry : Entry E R × Breaker) (t₁ : ℤ) (action : Comp E W R) :
    Except E R × World W :=
  match entry with
  | (.rejected answer, b) => (answer, { w with breaker := b })
  | (.admitted, b) =>
      ((action w.outside).1,
        { breaker := leave c t₁ (action w.outside).1 b
          invocations := w.invocations + 1
          outside := (action w.outside).2 })

theorem locked_bind {R : Type} (update : Breaker → Breaker) (k : Unit → Comp E (World W) R) :
    (locked (fun b => (.ok (), update b)) >>= k) w =
      k () { w with breaker := update w.breaker } := Comp.bind_of_ok rfl

theorem watched_of_ok {R : Type} {action : Comp E W R} {handler : E → Comp E (World W) R}
    {value : R} (ha : (action w.outside).1 = .ok value) :
    tryCatch (invoke action) handler w = (.ok value,
      { w with invocations := w.invocations + 1, outside := (action w.outside).2 }) := by
  apply Comp.tryCatch_of_ok
  rw [invoke, ha]

theorem watched_of_error {R : Type} {action : Comp E W R} {exception : E}
    (ha : (action w.outside).1 = .error exception) :
    tryCatch (invoke action) (fun exception => do
      locked fun b => (.ok (), checkException c t₁ exception b)
      throw exception) w = (.error exception,
      { breaker := checkException c t₁ exception w.breaker
        invocations := w.invocations + 1
        outside := (action w.outside).2 }) := by
  have hi : invoke action w = (.error exception,
      { w with invocations := w.invocations + 1, outside := (action w.outside).2 }) := by
    rw [invoke, ha]
  rw [Comp.tryCatch_of_error hi, locked_bind, Comp.throw_apply]

theorem enqueueFunc_run (action : Comp E W (Val t)) :
    enqueueFunc c t t₀ t₁ action w =
      sequential c w (enter c (.func t) t₀ w.breaker) t₁ action := by
  unfold enqueueFunc
  cases hentered : (onEnterOf c t t₀ w.breaker).1 with
  | error e =>
      rw [Comp.bind_of_error (e := e) (t := { w with breaker := (onEnterOf c t t₀ w.breaker).2 })
        (by rw [locked, hentered])]
      simp only [enter, hentered, ReturnData.entry, sequential]
  | ok data =>
      rw [Comp.bind_of_ok (a := data) (t := { w with breaker := (onEnterOf c t t₀ w.breaker).2 })
        (by rw [locked, hentered])]
      cases data with
      | ret value =>
          simp only [enter, hentered, ReturnData.entry, sequential, Comp.pure_apply]
      | getContinue =>
          simp only [enter, hentered, ReturnData.entry, sequential]
          cases ha : (action w.outside).1 with
          | ok value =>
              rw [Comp.bind_of_ok (watched_of_ok
                { w with breaker := (onEnterOf c t t₀ w.breaker).2 } ha), locked_bind]
              rfl
          | error e =>
              rw [Comp.bind_of_error (watched_of_error c t₁
                { w with breaker := (onEnterOf c t t₀ w.breaker).2 } ha)]
              rfl

theorem enqueueAction_run (action : Comp E W Unit) :
    enqueueAction c t₀ t₁ action w =
      sequential c w (enter c .action t₀ w.breaker) t₁ action := by
  unfold enqueueAction
  cases hentered : (onEnter c t₀ w.breaker).1 with
  | error e =>
      rw [Comp.bind_of_error (e := e) (t := { w with breaker := (onEnter c t₀ w.breaker).2 })
        (by rw [locked, hentered])]
      simp only [enter, hentered, boolEntry, sequential]
  | ok continues =>
      rw [Comp.bind_of_ok (a := continues) (t := { w with breaker := (onEnter c t₀ w.breaker).2 })
        (by rw [locked, hentered])]
      cases continues with
      | false =>
          simp only [enter, hentered, boolEntry, sequential]
          rfl
      | true =>
          simp only [enter, hentered, boolEntry, sequential, if_true]
          cases ha : (action w.outside).1 with
          | ok value =>
              rw [Comp.bind_of_ok (watched_of_ok
                { w with breaker := (onEnter c t₀ w.breaker).2 } ha)]
              rfl
          | error e =>
              rw [Comp.bind_of_error (watched_of_error c t₁
                { w with breaker := (onEnter c t₀ w.breaker).2 } ha)]
              rfl

/-- Every overload is its `OnEnter`, the delegate if admitted, and its last
section: the two steps the interleaved machine takes. -/
theorem enqueue_run (o : Overload Ty) (action : Comp E W (o.Result Val)) :
    enqueue c o t₀ t₁ action w = sequential c w (enter c o t₀ w.breaker) t₁ action := by
  cases o with
  | func t => exact enqueueFunc_run c t t₀ t₁ w action
  | action => exact enqueueAction_run c t₀ t₁ w action
  | funcTask => exact enqueueAction_run c t₀ t₁ w action
  | funcTaskOf t => exact enqueueFunc_run c t t₀ t₁ w action

end Overloads

/-- How one invoked delegate ended, and when. -/
structure Outcome where
  time : ℤ
  failed : Bool
  deriving DecidableEq, Repr

/-- Failures since the last success; the history is newest first. -/
def failures : List Outcome → ℕ
  | [] => 0
  | o :: history => if o.failed then failures history + 1 else 0

def lastFailure : List Outcome → Option ℤ
  | [] => none
  | o :: history => if o.failed then some o.time else lastFailure history

def Admits (threshold delay : ℤ) (history : List Outcome) (now : ℤ) : Prop :=
  failures history < threshold ∨ ∃ t, lastFailure history = some t ∧ delay ≤ now - t

instance (threshold delay : ℤ) (history : List Outcome) (now : ℤ) :
    Decidable (Admits threshold delay history now) :=
  decidable_of_iff (failures history < threshold ∨
      (lastFailure history).any (fun t => decide (delay ≤ now - t)) = true) <| by
    simp [Admits, Option.any_eq_true]

/-- One of a sequence of non-overlapping calls, with its two clock readings. -/
structure SeqCall (E : Type) {Ty : Type} (Val : Ty → Type) (W : Type) where
  overload : Overload Ty
  enterAt : ℤ
  leaveAt : ℤ
  action : Comp E W (overload.Result Val)

/-- The delegate returns, or throws an exception the filter counts. -/
def SeqCall.Counted (x : SeqCall E Val W) : Prop :=
  ∀ w e, (x.action w).1 = .error e → c.exceptionFilter e = false

def SeqCall.outcome (x : SeqCall E Val W) (w : W) : Outcome :=
  ⟨x.leaveAt, match (x.action w).1 with
    | .ok _ => false
    | .error _ => true⟩

def SeqCall.run (x : SeqCall E Val W) (w : World W) :
    Except E (x.overload.Result Val) × World W :=
  enqueue c x.overload x.enterAt x.leaveAt x.action w

/-- The breaker after a sequence of calls. -/
def runCalls : List (SeqCall E Val W) → World W → World W
  | [], w => w
  | x :: xs, w => runCalls xs (x.run c w).2

/-- The policy's account of the same sequence: the history of outcomes and the
world the delegates act on. -/
structure Policy (W : Type) where
  history : List Outcome := []
  outside : W

def Policy.call (p : Policy W) (x : SeqCall E Val W) : Policy W :=
  if Admits c.threshold.toInt c.delay p.history x.enterAt then
    ⟨x.outcome p.outside :: p.history, (x.action p.outside).2⟩
  else p

def runPolicy (xs : List (SeqCall E Val W)) (p : Policy W) : Policy W :=
  xs.foldl (Policy.call c) p

/-- The breaker state that stands for a history. Half open never survives a
call, and an open breaker remembers the last failure. -/
structure Stands (w : World W) (p : Policy W) : Prop where
  outside : w.outside = p.outside
  state : w.breaker.state = .closed ∧ failures p.history < c.threshold.toInt ∧
      w.breaker.successiveFails.toInt = failures p.history ∨
    w.breaker.state = .opened ∧ c.threshold.toInt ≤ failures p.history ∧
      lastFailure p.history = some w.breaker.lastFail

variable {c} {w : World W} {p : Policy W}

theorem Stands.init (h : 1 ≤ c.threshold.toInt) (w₀ : W) :
    Stands c { outside := w₀ } { outside := w₀ } := by
  refine ⟨rfl, .inl ⟨rfl, ?_, rfl⟩⟩
  change (0 : ℤ) < c.threshold.toInt
  omega

/-- The policy admits exactly when the locked entry does. -/
theorem Stands.enter (h : Stands c w p) (o : Overload Ty) (now : ℤ) :
    (Admits c.threshold.toInt c.delay p.history now ∧
      ∃ b, enter c o now w.breaker = (.admitted, b) ∧
        b.successiveFails = w.breaker.successiveFails ∧
        (b.state = .closed ↔ w.breaker.state = .closed)) ∨
    (¬ Admits c.threshold.toInt c.delay p.history now ∧
      ∃ answer, Resilient.enter c o now w.breaker = (.rejected answer, w.breaker)) := by
  obtain ⟨hs, hlt, -⟩ | ⟨hs, hle, hlast⟩ := h.state
  · exact .inl ⟨.inl hlt, _, admitted_of_closed c o now _ hs, rfl, Iff.rfl⟩
  · by_cases hd : c.delay ≤ now - w.breaker.lastFail
    · exact .inl ⟨.inr ⟨_, hlast, hd⟩, _, admitted_of_elapsed c o now _ hs hd, rfl,
        by simp [hs]⟩
    · refine .inr ⟨?_, rejected_of_open c o now _ (by simp [hs]) fun _ => by omega⟩
      rintro (hf | ⟨t, ht, hdt⟩)
      · omega
      · rw [hlast, Option.some.injEq] at ht
        omega

/-- The last section records the outcome as the history does. -/
theorem Stands.leave (h : Stands c w p) {x : SeqCall E Val W} (hx : x.Counted c) {b : Breaker}
    (hl : b.successiveFails = w.breaker.successiveFails)
    (hs : b.state = .closed ↔ w.breaker.state = .closed) (h1 : 1 ≤ c.threshold.toInt) (n : ℕ) :
    Stands c ⟨leave c x.leaveAt (x.action w.outside).1 b, n, (x.action w.outside).2⟩
      ⟨x.outcome w.outside :: p.history, (x.action w.outside).2⟩ := by
  refine ⟨rfl, ?_⟩
  cases ha : (x.action w.outside).1 with
  | ok v =>
      refine .inl ⟨rfl, ?_, ?_⟩
      · simp [SeqCall.outcome, ha, failures]
        omega
      · simp [SeqCall.outcome, ha, failures, Resilient.leave, onSuccess]
  | error e =>
      have hf := hx _ _ ha
      have hcount : failures (x.outcome w.outside :: p.history) = failures p.history + 1 := by
        simp [SeqCall.outcome, ha, failures]
      have hlast : lastFailure (x.outcome w.outside :: p.history) = some x.leaveAt := by
        simp [SeqCall.outcome, ha, lastFailure]
      simp only [hcount, hlast, Resilient.leave, checkException, hf, Bool.false_eq_true, if_false]
      obtain ⟨hc, hlt, heq⟩ | ⟨ho, hle, -⟩ := h.state
      · have hb := hs.mpr hc
        have hsucc := toInt_succ_of_lt (heq ▸ hlt)
        by_cases htrip : b.successiveFails + 1 = c.threshold
        · refine .inr ⟨by simp [unsafeUpdateOnFail, hb, htrip], ?_,
            by simp [unsafeUpdateOnFail, hb, htrip]⟩
          rw [← htrip, hl]
          omega
        · have hne : (b.successiveFails + 1).toInt ≠ c.threshold.toInt :=
            fun h => htrip (Int32.toInt_inj.mp h)
          rw [hl] at hne
          refine .inl ⟨by simp [unsafeUpdateOnFail, hb, htrip], by omega, ?_⟩
          simp only [unsafeUpdateOnFail, hb, htrip, if_false]
          rw [hl]
          omega
      · have hb : b.state ≠ .closed := fun h => by cases (hs.mp h).symm.trans ho
        refine .inr ⟨?_, by omega, ?_⟩ <;>
        · cases hbs : b.state with
          | closed => exact (hb hbs).elim
          | opened | halfOpen => simp [unsafeUpdateOnFail, hbs]

theorem Stands.call (h : Stands c w p) {x : SeqCall E Val W} (hx : x.Counted c)
    (h1 : 1 ≤ c.threshold.toInt) : Stands c (x.run c w).2 (p.call c x) := by
  unfold SeqCall.run Policy.call
  rw [enqueue_run]
  obtain ⟨ha, b, he, hl, hs⟩ | ⟨ha, answer, he⟩ := h.enter x.overload x.enterAt
  · rw [if_pos ha, he]
    have hleave := h.leave hx hl hs h1 (w.invocations + 1)
    simpa only [sequential, h.outside] using hleave
  · rw [if_neg ha, he]
    exact h

theorem Stands.runCalls (h : Stands c w p) (h1 : 1 ≤ c.threshold.toInt)
    {xs : List (SeqCall E Val W)} (hxs : ∀ x ∈ xs, x.Counted c) :
    Stands c (runCalls c xs w) (runPolicy c xs p) := by
  induction xs generalizing w p with
  | nil => exact h
  | cons x xs ih =>
      exact ih (h.call (hxs x (by simp)) h1) fun y hy => hxs y (by simp [hy])

/-- After any finite sequence of calls whose delegates succeed or fail with a
counted exception, the next call has its delegate invoked exactly when the
history admits it. An invoked delegate runs once, in the world left by the
earlier calls, and the caller observes its outcome; a rejected call leaves the
breaker and the world as they were. -/
theorem calls_follow_policy (h1 : 1 ≤ c.threshold) (w₀ : W) {past : List (SeqCall E Val W)}
    (hpast : ∀ x ∈ past, x.Counted c) (x : SeqCall E Val W) :
    let w := runCalls c past { outside := w₀ }
    let p := runPolicy c past { outside := w₀ }
    ((x.run c w).2.invocations = w.invocations + 1 ↔
      Admits c.threshold.toInt c.delay p.history x.enterAt) ∧
    (Admits c.threshold.toInt c.delay p.history x.enterAt →
      (x.run c w).1 = (x.action p.outside).1 ∧
      (x.run c w).2.outside = (x.action p.outside).2) ∧
    (¬ Admits c.threshold.toInt c.delay p.history x.enterAt → (x.run c w).2 = w) := by
  intro w p
  have hthr : 1 ≤ c.threshold.toInt := Int32.le_iff_toInt_le.mp h1
  have h : Stands c w p := (Stands.init hthr w₀).runCalls hthr hpast
  unfold SeqCall.run
  rw [enqueue_run, ← h.outside]
  obtain ⟨ha, b, he, -, -⟩ | ⟨ha, answer, he⟩ := h.enter x.overload x.enterAt
  · rw [he]
    exact ⟨⟨fun _ => ha, fun _ => rfl⟩, fun _ => ⟨rfl, rfl⟩, fun hn => (hn ha).elim⟩
  · rw [he]
    refine ⟨⟨fun hn => ?_, fun hp => (ha hp).elim⟩, fun hp => (ha hp).elim, fun _ => rfl⟩
    simp [sequential] at hn

/-- A failure and a rejected call before a probe that comes in time. -/
theorem calls_follow_policy_oneShot :
    let fails : SeqCall Bool (fun _ : Unit => Unit) ℕ :=
      ⟨.action, 3, 5, fun n => (.error false, n + 1)⟩
    let early : SeqCall Bool (fun _ : Unit => Unit) ℕ := ⟨.func (), 7, 7, fun n => (.ok (), n + 1)⟩
    let probe : SeqCall Bool (fun _ : Unit => Unit) ℕ :=
      ⟨.funcTask, 16, 18, fun n => (.ok (), n + 1)⟩
    (probe.run oneShot (runCalls oneShot [fails, early] { outside := 0 })).1 = .ok () := by
  intro fails early probe
  have hcounted : ∀ x ∈ [fails, early], x.Counted oneShot := by
    intro x hx w e he
    simp only [List.mem_cons, List.not_mem_nil, or_false] at hx
    rcases hx with rfl | rfl
    · cases he
      rfl
    · cases he
  exact ((calls_follow_policy (by decide) 0 hcounted probe).2.1 (by decide)).1

end ComposableAsync.Resilient
