import ComposableAsync.Resilient.BreakerMachine

/-!
# The open period

A counted failure that leaves the breaker open at time `t` should keep every
call out until `t + delay`. `OnSuccess` closes the breaker in whatever state it
finds it, so the success of a call admitted earlier re-admits traffic at once.
The period is honoured in every run in which no success is recorded while the
breaker is open and its delay still running.
-/
namespace ComposableAsync.Resilient
open Foundations

variable {C E Ty : Type} {Val : Ty → Type}

/-- `e` is a counted failure that leaves the breaker open, `_LastFail = e.time`. -/
def Event.Opens (e : Event C) : Prop := e.kind = .failed ∧ e.after = .opened

/-- No admission falls into `[t, t + delay)` of an earlier opening failure at
`t`. The log is newest first. -/
def OpenPeriodHonoured (delay : ℤ) (s : Sys C) : Prop :=
  s.log.Pairwise fun later e => e.Opens → later.kind = .admitted →
    ¬ (e.time ≤ later.time ∧ later.time < e.time + delay)

/-- The step does not record a success in an open breaker before its delay has
elapsed. -/
def NoEarlySuccess (c : Settings E Val) (s : Sys C) : Act C E Ty → Prop
  | .onSuccess _ now => s.breaker.state = .opened → c.delay ≤ now - s.breaker.lastFail
  | .onEnter .. | .checkException .. => True

instance (c : Settings E Val) (s : Sys C) : (a : Act C E Ty) → Decidable (NoEarlySuccess c s a)
  | .onSuccess _ now =>
      inferInstanceAs (Decidable (s.breaker.state = .opened → c.delay ≤ now - s.breaker.lastFail))
  | .onEnter .. | .checkException .. => inferInstanceAs (Decidable True)

/-- The periods still running are those of an open breaker, and end no later
than the period of its last failure. -/
structure OpenPeriodInv (c : Settings E Val) (s : Sys C) : Prop where
  honoured : OpenPeriodHonoured c.delay s
  lastFail_le : s.breaker.lastFail ≤ s.clock
  time_le : ∀ e ∈ s.log, e.time ≤ s.clock
  running : ∀ e ∈ s.log, e.Opens →
    s.breaker.state = .opened ∧ e.time ≤ s.breaker.lastFail ∨ e.time + c.delay ≤ s.clock

variable {c : Settings E Val} {s t : Sys C}

theorem OpenPeriodInv.over (hi : OpenPeriodInv c s) (hs : s.breaker.state ≠ .opened)
    {now : ℤ} (hm : s.clock ≤ now) :
    ∀ e ∈ s.log, e.Opens → e.time + c.delay ≤ now := by
  intro e he hopen
  obtain h | h := hi.running e he hopen
  · exact (hs h.1).elim
  · omega

theorem OpenPeriodInv.elapsed (hi : OpenPeriodInv c s) {now : ℤ} (hm : s.clock ≤ now)
    (hd : c.delay ≤ now - s.breaker.lastFail) :
    ∀ e ∈ s.log, e.Opens → e.time + c.delay ≤ now := by
  intro e he hopen
  obtain h | h := hi.running e he hopen
  · have := h.2
    omega
  · omega

variable [DecidableEq C]

theorem openPeriodInv_init :
    OpenPeriodInv c (breakerMachine c : Machine (Sys C) (Act C E Ty)).init :=
  ⟨.nil, le_rfl, fun _ he => (List.not_mem_nil he).elim, fun _ he => (List.not_mem_nil he).elim⟩

/-- What a step has to show to keep the invariant: an admission only after every
running period, and the state of the periods afterwards. -/
theorem OpenPeriodInv.record {a : Act C E Ty} {kind : EventKind} {b : Breaker}
    (hi : OpenPeriodInv c s) (hm : s.clock ≤ a.now)
    (hadm : kind = .admitted → ∀ e ∈ s.log, e.Opens → e.time + c.delay ≤ a.now)
    (hfail : b.lastFail = s.breaker.lastFail ∨ b.lastFail = a.now)
    (hnew : kind = .failed → b.state = .opened → a.now ≤ b.lastFail)
    (hold : ∀ e ∈ s.log, e.Opens →
      b.state = .opened ∧ e.time ≤ b.lastFail ∨ e.time + c.delay ≤ a.now) :
    OpenPeriodInv c (s.record a kind b) := by
  refine ⟨?_, ?_, ?_, ?_⟩
  · refine List.Pairwise.cons ?_ hi.honoured
    intro e he hopen hk
    have := hadm hk e he hopen
    simp only
    omega
  · have := hi.lastFail_le
    change b.lastFail ≤ a.now
    omega
  · intro e he
    obtain rfl | he := List.mem_cons.mp he
    · exact le_rfl
    · exact le_trans (hi.time_le e he) hm
  · intro e he hopen
    obtain rfl | he := List.mem_cons.mp he
    · exact .inl ⟨hopen.2, hnew hopen.1 hopen.2⟩
    · exact hold e he hopen

theorem OpenPeriodInv.step {a : Act C E Ty} (hi : OpenPeriodInv c s)
    (hm : Monotone s a) (hg : NoEarlySuccess c s a) (ht : s.step c a = some t) :
    OpenPeriodInv c t := by
  obtain ⟨kind, b, he, -, rfl⟩ := step_effect c ht
  unfold Monotone at hm
  cases he with
  | pass p o now hc =>
      have hover := hi.over (by simp [hc]) hm
      exact hi.record hm (fun _ => hover) (.inl rfl) (by simp) fun e he ho => .inr (hover e he ho)
  | probe p o now hs hd =>
      have hover := hi.elapsed hm hd
      exact hi.record hm (fun _ => hover) (.inl rfl) (by simp) fun e he ho => .inr (hover e he ho)
  | reject p o now hs hd =>
      refine hi.record hm (by simp) (.inl rfl) (by simp) fun e he ho => ?_
      exact (hi.running e he ho).imp_right fun h => le_trans h hm
  | success p now =>
      have hover : ∀ e ∈ s.log, e.Opens → e.time + c.delay ≤ now := by
        by_cases hs : s.breaker.state = .opened
        · exact hi.elapsed hm (hg hs)
        · exact hi.over hs hm
      exact hi.record hm (by simp) (.inl rfl) (by simp) fun e he ho => .inr (hover e he ho)
  | filtered p e now _ =>
      refine hi.record hm (by simp) (.inl rfl) (by simp) fun e he ho => ?_
      exact (hi.running e he ho).imp_right fun h => le_trans h hm
  | count p e now _ hc _ =>
      have hover := hi.over (by simp [hc]) hm
      exact hi.record hm (by simp) (.inr rfl) (fun _ _ => le_rfl) fun e he ho => .inr (hover e he ho)
  | trip p e now _ hc _ =>
      refine hi.record hm (by simp) (.inr rfl) (fun _ _ => le_rfl) fun e he ho => .inl ⟨rfl, ?_⟩
      exact le_trans (hi.time_le e he) hm
  | reopen p e now _ _ =>
      refine hi.record hm (by simp) (.inr rfl) (fun _ _ => le_rfl) fun e he ho => .inl ⟨rfl, ?_⟩
      exact le_trans (hi.time_le e he) hm

/-- Every run over a clock that never goes back honours the open period, as
long as no success is recorded while an open breaker waits out its delay. -/
theorem openPeriod_of_noEarlySuccess
    (hr : (breakerMachine c : Machine (Sys C) (Act C E Ty)).ReachableUnder
      (fun s a => Monotone s a ∧ NoEarlySuccess c s a) s) :
    OpenPeriodHonoured c.delay s :=
  (hr.invariant openPeriodInv_init
    fun _ _ _ _ hi hg ht => hi.step hg.1 hg.2 ht : OpenPeriodInv c s).honoured

/-- A run through opening, probing and closing that meets the condition. -/
theorem openPeriod_of_noEarlySuccess_oneShot :
    ∃ s : Sys ℕ, (breakerMachine oneShot).run
      [.onEnter 0 .action 3, .checkException 0 false 5, .onEnter 1 .funcTask 9,
        .onEnter 2 (.func ()) 15, .onSuccess 2 16, .onEnter 3 .action 17] {} = some s ∧
      OpenPeriodHonoured oneShot.delay s := by
  refine ⟨_, rfl, openPeriod_of_noEarlySuccess (c := oneShot) (Machine.run_reachableUnder
    [.onEnter 0 .action 3, .checkException 0 false 5, .onEnter 1 .funcTask 9,
      .onEnter 2 (.func ()) 15, .onSuccess 2 16, .onEnter 3 .action 17] .init rfl rfl)⟩

/-- Two calls are admitted; one fails and opens the breaker at 5, the other
succeeds at 6; a third is admitted at 7, eight ticks too early. -/
theorem openPeriod_broken_by_late_success :
    ¬ ∀ s : Sys ℕ, (breakerMachine oneShot).ReachableUnder Monotone s →
      OpenPeriodHonoured oneShot.delay s := by
  intro h
  have hr : (breakerMachine (C := ℕ) oneShot).ReachableUnder Monotone _ :=
    Machine.run_reachableUnder [.onEnter 0 .action 3, .onEnter 1 .funcTask 4,
      .checkException 0 false 5, .onSuccess 1 6, .onEnter 2 .action 7] .init rfl rfl
  have hlater : ∀ e ∈ _, _ := (List.pairwise_cons.mp (h _ hr)).1
  exact hlater ⟨0, 5, .failed, .closed, .opened⟩ (by decide) ⟨rfl, rfl⟩ rfl (by decide)

end ComposableAsync.Resilient
