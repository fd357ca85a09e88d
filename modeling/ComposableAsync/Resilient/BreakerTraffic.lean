import ComposableAsync.Foundations.Spacing
import ComposableAsync.Resilient.BreakerCounter
import ComposableAsync.Resilient.BreakerHalfOpen

/-!
# What a breaker lets through

An open breaker admits a probe `_Delay` after its last failure. Whatever the calls in
flight do, a probe is that long after every earlier probe and after every earlier counted
failure, so a window of `n` delays sees `n` probes at most.

A service that never answers sees the failures that open the breaker, the calls already
past it, and the probes: the load on it is bounded by the time that goes by, not by the
number of calls.
-/
namespace ComposableAsync.Resilient
open Foundations

variable {C E Ty : Type} {Val : Ty → Type}

/-- The call is let through an open breaker. -/
def Event.Probes (e : Event C) : Prop := e.kind = .admitted ∧ e.before = .opened

instance (e : Event C) : Decidable e.Probes :=
  inferInstanceAs (Decidable (e.kind = .admitted ∧ e.before = .opened))

/-- The times of the probes, newest first. -/
def Sys.probeTimes (s : Sys C) : List ℤ := (s.log.filter (·.Probes)).map (·.time)

/-- What keeps the probes apart: an open breaker has `_LastFail` after all of them. -/
structure ProbeTimes (c : Settings E Val) (s : Sys C) : Prop where
  time_le : ∀ e ∈ s.log, e.time ≤ s.clock
  lastFail : s.breaker.state = .opened →
    ∀ e ∈ s.log, e.Probes ∨ e.kind = .failed → e.time ≤ s.breaker.lastFail
  failure : s.breaker.state = .opened →
    ∃ e ∈ s.log, e.kind = .failed ∧ e.time = s.breaker.lastFail
  apart : s.log.Pairwise fun later e =>
    later.Probes → e.Probes ∨ e.kind = .failed → e.time + c.delay ≤ later.time
  after : ∀ e ∈ s.log, e.Probes →
    ∃ cause ∈ s.log, cause.kind = .failed ∧ cause.time + c.delay ≤ e.time

variable [DecidableEq C] {c : Settings E Val} {s t : Sys C}

theorem probeTimes_init : ProbeTimes c (breakerMachine c : Machine (Sys C) (Act C E Ty)).init where
  time_le _ he := (List.not_mem_nil he).elim
  lastFail h := by cases h
  failure h := by cases h
  apart := .nil
  after _ he := (List.not_mem_nil he).elim

/-- A step has to show that a probe waits out the delay, and that the breaker it leaves open
has just failed or is as it was. -/
theorem ProbeTimes.record {a : Act C E Ty} {kind : EventKind} {b : Breaker}
    (hi : ProbeTimes c s) (hm : s.clock ≤ a.now)
    (hprobe : kind = .admitted → s.breaker.state = .opened → c.delay ≤ a.now - s.breaker.lastFail)
    (hopen : b.state = .opened →
      kind = .failed ∧ b.lastFail = a.now ∨ (kind = .rejected ∨ kind = .filtered) ∧ b = s.breaker) :
    ProbeTimes c (s.record a kind b) := by
  have htime : ∀ e ∈ (s.record a kind b).log, e.time ≤ a.now := by
    intro e he
    obtain rfl | he := List.mem_cons.mp he
    · exact le_rfl
    · exact (hi.time_le e he).trans hm
  refine ⟨htime, fun hs e he hkind => ?_, fun hs => ?_, List.pairwise_cons.mpr ⟨?_, hi.apart⟩, ?_⟩
  · obtain ⟨-, hlast⟩ | ⟨hkinds, rfl⟩ := hopen hs
    · exact (htime e he).trans_eq hlast.symm
    · obtain rfl | he := List.mem_cons.mp he
      · rcases hkinds with rfl | rfl <;> simp [Event.Probes] at hkind
      · exact hi.lastFail hs e he hkind
  · obtain ⟨hk, hlast⟩ | ⟨-, rfl⟩ := hopen hs
    · exact ⟨_, List.mem_cons_self, hk, hlast.symm⟩
    · obtain ⟨e, he, hfail⟩ := hi.failure hs
      exact ⟨e, List.mem_cons_of_mem _ he, hfail⟩
  · rintro e he ⟨hk, hs⟩ hkind
    have hwait := hprobe hk hs
    have hle := hi.lastFail hs e he hkind
    change e.time + c.delay ≤ a.now
    omega
  · intro e he hprobes
    obtain rfl | he := List.mem_cons.mp he
    · obtain ⟨hk, hs⟩ := hprobes
      obtain ⟨cause, hmem, hfail, hlast⟩ := hi.failure hs
      refine ⟨cause, List.mem_cons_of_mem _ hmem, hfail, ?_⟩
      have hwait := hprobe hk hs
      change cause.time + c.delay ≤ a.now
      omega
    · obtain ⟨cause, hmem, hcause⟩ := hi.after e he hprobes
      exact ⟨cause, List.mem_cons_of_mem _ hmem, hcause⟩

theorem ProbeTimes.step {a : Act C E Ty} (hi : ProbeTimes c s) (hm : Monotone s a)
    (h : s.step c a = some t) : ProbeTimes c t := by
  obtain ⟨kind, b, he, -, rfl⟩ := step_effect c h
  cases he with
  | pass p o now hc => exact hi.record hm (fun _ hs => by simp [hc] at hs) (by simp [hc])
  | probe p o now hs hd => exact hi.record hm (fun _ _ => hd) (by simp)
  | reject p o now hs hd => exact hi.record hm (by simp) fun _ => .inr ⟨.inl rfl, rfl⟩
  | success p now => exact hi.record hm (by simp) (by simp)
  | filtered p e now _ => exact hi.record hm (by simp) fun _ => .inr ⟨.inr rfl, rfl⟩
  | count p e now _ hc _ => exact hi.record hm (by simp) (by simp [hc])
  | trip p e now _ hc _ => exact hi.record hm (by simp) fun _ => .inl ⟨rfl, rfl⟩
  | reopen p e now _ _ => exact hi.record hm (by simp) fun _ => .inl ⟨rfl, rfl⟩

theorem probeTimes_reachable
    (hr : (breakerMachine c : Machine (Sys C) (Act C E Ty)).ReachableUnder Monotone s) :
    ProbeTimes c s :=
  hr.invariant probeTimes_init fun _ _ _ _ hi hm h => hi.step hm h

omit [DecidableEq C] in
theorem ProbeTimes.spaced (hi : ProbeTimes c s) : Spaced c.delay s.probeTimes := by
  rw [Spaced, Sys.probeTimes, List.pairwise_map, List.pairwise_filter]
  refine hi.apart.imp fun h hlater he => ?_
  exact h (of_decide_eq_true hlater) (.inl (of_decide_eq_true he))

/-- Over a clock that never goes back, whichever calls overlap: a window of `n` delays has
`n` probes at most, and a probe comes a delay or more after every earlier counted failure,
of which there is one. -/
theorem probes_in_window
    (hr : (breakerMachine c : Machine (Sys C) (Act C E Ty)).ReachableUnder Monotone s) :
    (∀ (start : ℤ) (n : ℕ),
      (s.probeTimes.filter fun t => start ≤ t ∧ t < start + n * c.delay).length ≤ n) ∧
    (s.log.Pairwise fun later e =>
      later.Probes → e.kind = .failed → e.time + c.delay ≤ later.time) ∧
    ∀ e ∈ s.log, e.Probes →
      ∃ cause ∈ s.log, cause.kind = .failed ∧ cause.time + c.delay ≤ e.time := by
  have hi := probeTimes_reachable hr
  refine ⟨fun start n => ?_, hi.apart.imp fun h hlater he => h hlater (.inr he), hi.after⟩
  have hspaced :
      Spaced c.delay (s.probeTimes.filter fun t => start ≤ t ∧ t < start + n * c.delay) :=
    hi.spaced.filter _
  exact hspaced.length_le fun t ht => of_decide_eq_true (List.mem_filter.mp ht).2

/-- A failure opens the breaker at 5, and the probes are at 15 and, after it failed, at 26. -/
theorem probes_in_window_oneShot :
    ∃ s : Sys ℕ, (breakerMachine oneShot).run
      [.onEnter 0 .action 3, .checkException 0 false 5, .onEnter 1 .funcTask 9,
        .onEnter 2 (.func ()) 15, .checkException 2 false 16, .onEnter 3 .action 26] {} = some s ∧
      s.probeTimes = [26, 15] ∧
      (s.probeTimes.filter fun t => 15 ≤ t ∧ t < 15 + (1 : ℕ) * oneShot.delay).length ≤ 1 := by
  refine ⟨_, rfl, rfl, (probes_in_window (Machine.run_reachableUnder
    [.onEnter 0 .action 3, .checkException 0 false 5, .onEnter 1 .funcTask 9,
      .onEnter 2 (.func ()) 15, .checkException 2 false 16, .onEnter 3 .action 26]
    .init rfl rfl)).1 15 1⟩

/-- The step records no success. -/
def NeverSucceeds : Act C E Ty → Prop
  | .onSuccess .. => False
  | .onEnter .. | .checkException .. => True

/-- Fewer than `calls` are in flight when a call enters a closed breaker. -/
def AtMostInFlight (calls : ℕ) (s : Sys C) : Act C E Ty → Prop
  | .onEnter .. => s.breaker.state = .closed →
      ∀ l : List C, l.Nodup → (∀ p ∈ l, s.status p = .inFlight) → l.length < calls
  | .onSuccess .. | .checkException .. => True

/-- A run against a service that never answers. -/
def Unanswered (calls : ℕ) (s : Sys C) (a : Act C E Ty) : Prop :=
  Monotone s a ∧ NeverSucceeds a ∧ AtMostInFlight calls s a

/-- The number of events of a kind. -/
def Sys.count (s : Sys C) (kind : EventKind) : ℕ := s.log.countP (·.kind = kind)

/-- The calls that a closed breaker let through. -/
def Sys.passed (s : Sys C) : ℕ := s.log.countP fun e => e.kind = .admitted ∧ e.before = .closed

/-- A closed breaker has let through the calls that failed, those that were filtered and
those in flight; one that has opened lets through probes only. -/
structure Load (c : Settings E Val) (calls : ℕ) (s : Sys C) : Prop where
  unanswered : ∀ e ∈ s.log, e.kind ≠ .succeeded
  admitted : s.count .admitted = s.passed + s.probeTimes.length
  closed : s.breaker.state = .closed →
    ∃ l : List C, l.Nodup ∧ (∀ p, p ∈ l ↔ s.status p = .inFlight) ∧ l.length ≤ calls ∧
      s.passed = s.count .failed + s.count .filtered + l.length
  broken : s.breaker.state ≠ .closed →
    s.passed < c.threshold.toInt + calls + s.count .filtered

section Record
variable {a : Act C E Ty} {kind : EventKind} {b : Breaker} {l : List C}

theorem count_record (k : EventKind) :
    (s.record a kind b).count k = s.count k + if kind = k then 1 else 0 := by
  simp [Sys.count, List.countP_cons]

theorem passed_record :
    (s.record a kind b).passed =
      s.passed + if kind = .admitted ∧ s.breaker.state = .closed then 1 else 0 := by
  simp [Sys.passed, List.countP_cons]

theorem probeTimes_record :
    (s.record a kind b).probeTimes.length =
      s.probeTimes.length + if kind = .admitted ∧ s.breaker.state = .opened then 1 else 0 := by
  simp only [Sys.probeTimes, List.length_map, ← List.countP_eq_length_filter, record_log,
    List.countP_cons, decide_eq_true_eq]
  rfl

theorem inFlight_cons (hl : l.Nodup) (hmem : ∀ p, p ∈ l ↔ s.status p = .inFlight)
    (hidle : s.status a.call = .idle) (hk : kind.after = .inFlight) :
    (a.call :: l).Nodup ∧ ∀ p, p ∈ a.call :: l ↔ (s.record a kind b).status p = .inFlight := by
  refine ⟨List.nodup_cons.mpr ⟨fun h => ?_, hl⟩, fun p => ?_⟩
  · rw [hmem, hidle] at h
    cases h
  · by_cases hp : p = a.call
    · simp [hp, hk]
    · rw [record_status_of_ne hp, ← hmem, List.mem_cons, or_iff_right hp]

theorem inFlight_erase (hl : l.Nodup) (hmem : ∀ p, p ∈ l ↔ s.status p = .inFlight)
    (hp : s.status a.call = .inFlight) (hk : kind.after = .ended) :
    (l.erase a.call).Nodup ∧
      (∀ p, p ∈ l.erase a.call ↔ (s.record a kind b).status p = .inFlight) ∧
      (l.erase a.call).length + 1 = l.length := by
  have hcall := (hmem a.call).mpr hp
  refine ⟨hl.erase _, fun p => ?_, ?_⟩
  · rw [hl.mem_erase_iff]
    by_cases hp : p = a.call
    · simp [hp, hk]
    · rw [record_status_of_ne hp, hmem, and_iff_right hp]
  · rw [List.length_erase_of_mem hcall, Nat.sub_add_cancel (List.length_pos_of_mem hcall)]

end Record

omit [DecidableEq C] in
theorem failuresSinceSuccess_eq {log : List (Event C)} (h : ∀ e ∈ log, e.kind ≠ .succeeded) :
    failuresSinceSuccess log = log.countP (·.kind = .failed) := by
  induction log with
  | nil => rfl
  | cons e log ih =>
      have hrest := ih fun e he => h e (List.mem_cons_of_mem _ he)
      have hhead := h e List.mem_cons_self
      simp only [failuresSinceSuccess, List.countP_cons, hrest]
      cases hk : e.kind <;> simp_all

omit [DecidableEq C] in
theorem Load.failed_lt {calls : ℕ} (hi : Load c calls s) (hcount : CounterInv c s)
    (hs : s.breaker.state = .closed) : s.count .failed < c.threshold.toInt := by
  obtain ⟨hlt, heq⟩ := hcount.closed hs
  rwa [heq, failuresSinceSuccess_eq hi.unanswered] at hlt

theorem Load.step {calls : ℕ} {a : Act C E Ty} (hi : Load c calls s) (hcount : CounterInv c s)
    (hg : Unanswered calls s a) (h : s.step c a = some t) : Load c calls t := by
  obtain ⟨-, hnever, hflight⟩ := hg
  obtain ⟨kind, b, he, hp, rfl⟩ := step_effect c h
  have hunanswered : kind ≠ .succeeded →
      ∀ e ∈ (s.record a kind b).log, e.kind ≠ .succeeded := fun hk e he => by
    obtain rfl | he := List.mem_cons.mp he
    · exact hk
    · exact hi.unanswered e he
  have hadmitted := hi.admitted
  cases he with
  | pass p o now hc =>
      obtain ⟨l, hl, hmem, hle, heq⟩ := hi.closed hc
      have hlt := hflight hc l hl fun q hq => (hmem q).mp hq
      obtain ⟨hl', hmem'⟩ := inFlight_cons (a := .onEnter p o now) (b := s.breaker) hl hmem hp
        (show EventKind.admitted.after = .inFlight from rfl)
      refine ⟨hunanswered (by simp), ?_, fun _ => ⟨_, hl', hmem', hlt, ?_⟩, fun hn => (hn hc).elim⟩
      · simp [count_record, passed_record, probeTimes_record, hc, hadmitted]
        omega
      · simp [count_record, passed_record, hc, heq]
        omega
  | probe p o now hs hd =>
      refine ⟨hunanswered (by simp), ?_, (by simp), fun _ => ?_⟩
      · simp [count_record, passed_record, probeTimes_record, hs, hadmitted]
        omega
      · simpa [count_record, passed_record, hs] using hi.broken (by simp [hs])
  | reject p o now hs hd =>
      refine ⟨hunanswered (by simp), ?_, fun hc => (hs hc).elim, fun _ => ?_⟩
      · simpa [count_record, passed_record, probeTimes_record] using hadmitted
      · simpa [count_record, passed_record] using hi.broken hs
  | success p now => exact hnever.elim
  | filtered p e now _ =>
      refine ⟨hunanswered (by simp), ?_, fun hc => ?_, fun hs => ?_⟩
      · simpa [count_record, passed_record, probeTimes_record] using hadmitted
      · obtain ⟨l, hl, hmem, hle, heq⟩ := hi.closed hc
        obtain ⟨hl', hmem', hlen⟩ := inFlight_erase (a := .checkException p e now) (b := s.breaker)
          hl hmem hp (show EventKind.filtered.after = .ended from rfl)
        refine ⟨_, hl', hmem', by omega, ?_⟩
        simp [count_record, passed_record, heq]
        omega
      · have hlt := hi.broken hs
        simp [count_record, passed_record]
        omega
  | count p e now _ hc _ =>
      obtain ⟨l, hl, hmem, hle, heq⟩ := hi.closed hc
      obtain ⟨hl', hmem', hlen⟩ := inFlight_erase (a := .checkException p e now)
        (b := { s.breaker with lastFail := now, successiveFails := s.breaker.successiveFails + 1 })
        hl hmem hp (show EventKind.failed.after = .ended from rfl)
      refine ⟨hunanswered (by simp), ?_, fun _ => ⟨_, hl', hmem', by omega, ?_⟩,
        fun hn => (hn hc).elim⟩
      · simpa [count_record, passed_record, probeTimes_record] using hadmitted
      · simp [count_record, passed_record, heq]
        omega
  | trip p e now _ hc _ =>
      obtain ⟨l, -, -, hle, heq⟩ := hi.closed hc
      have hfailed := hi.failed_lt hcount hc
      refine ⟨hunanswered (by simp), ?_, (by simp), fun _ => ?_⟩
      · simpa [count_record, passed_record, probeTimes_record] using hadmitted
      · simp [count_record, passed_record]
        omega
  | reopen p e now _ hs =>
      refine ⟨hunanswered (by simp), ?_, (by simp), fun _ => ?_⟩
      · simpa [count_record, passed_record, probeTimes_record] using hadmitted
      · simpa [count_record, passed_record] using hi.broken hs

theorem load_reachable {calls : ℕ} (hthreshold : 1 ≤ c.threshold)
    (hr : (breakerMachine c : Machine (Sys C) (Act C E Ty)).ReachableUnder (Unanswered calls) s) :
    Load c calls s := by
  have hthreshold' := Int32.le_iff_toInt_le.mp hthreshold
  refine hr.invariant ?_ fun _ _ _ hr hi hg h =>
    hi.step (counterInv_reachable hthreshold' hr.reachable) hg h
  refine ⟨fun _ he => (List.not_mem_nil he).elim, rfl, fun _ => ?_, fun hn => (hn rfl).elim⟩
  exact ⟨[], .nil, fun p => by simp [breakerMachine], Nat.zero_le calls, rfl⟩

/-- However long a service stays dead and however many calls are made: with `calls` in flight
at most when one more enters the closed breaker, the calls it sees are fewer than the
threshold, `calls`, those that were filtered, and one for each delay since the first
failure, together. -/
theorem admissions_of_unanswered {calls : ℕ} (hthreshold : 1 ≤ c.threshold) (hdelay : 0 < c.delay)
    (hr : (breakerMachine c : Machine (Sys C) (Act C E Ty)).ReachableUnder (Unanswered calls) s)
    {start : ℤ} (hstart : ∀ e ∈ s.log, e.kind = .failed → start ≤ e.time) (hle : start ≤ s.clock) :
    s.count .admitted <
      c.threshold.toInt + calls + s.count .filtered + (s.clock - start) / c.delay := by
  have hi := load_reachable hthreshold hr
  have hcount := counterInv_reachable (Int32.le_iff_toInt_le.mp hthreshold) hr.reachable
  have hprobes := probeTimes_reachable (hr.mono fun _ _ hg => hg.1)
  have hpassed : (s.passed : ℤ) < c.threshold.toInt + calls + s.count .filtered := by
    by_cases hs : s.breaker.state = .closed
    · obtain ⟨l, -, -, hle, heq⟩ := hi.closed hs
      have hfailed := hi.failed_lt hcount hs
      omega
    · exact hi.broken hs
  have hlength : (s.probeTimes.length : ℤ) ≤ (s.clock - start) / c.delay := by
    refine hprobes.spaced.length_le_ediv hdelay hle fun t ht => ?_
    obtain ⟨e, he, rfl⟩ := List.mem_map.mp ht
    obtain ⟨he, hprobe⟩ := List.mem_filter.mp he
    obtain ⟨cause, hcause, hfailed, hafter⟩ := hprobes.after e he (of_decide_eq_true hprobe)
    have hfirst := hstart cause hcause hfailed
    exact ⟨by omega, hprobes.time_le e he⟩
  have hadmitted := hi.admitted
  omega

/-- One call at a time against a service that is dead from 5 on: it sees the call that
opened the breaker and one probe in the fifteen ticks that follow. -/
theorem admissions_of_unanswered_oneShot :
    ∃ s : Sys ℕ, s.count .admitted = 2 ∧ s.clock = 20 ∧
      s.count .admitted < oneShot.threshold.toInt + (1 : ℕ) + s.count .filtered +
        (s.clock - 5) / oneShot.delay := by
  have h₀ : (breakerMachine (C := ℕ) oneShot).ReachableUnder (Unanswered 1) _ := .init
  have h₁ := h₀.act (.onEnter 0 .action 3) ⟨by decide, trivial, fun _ l _ hl => by
    cases l with
    | nil => exact Nat.one_pos
    | cons p l => cases hl p List.mem_cons_self⟩ rfl
  have h₂ := h₁.act (.checkException 0 false 5) ⟨by decide, trivial, trivial⟩ rfl
  have h₃ := h₂.act (.onEnter 1 .funcTask 15) ⟨by decide, trivial, nofun⟩ rfl
  have h₄ := h₃.act (.checkException 1 false 16) ⟨by decide, trivial, trivial⟩ rfl
  have h₅ := h₄.act (.onEnter 2 (.func ()) 20) ⟨by decide, trivial, nofun⟩ rfl
  exact ⟨_, rfl, rfl, admissions_of_unanswered (by decide) (by decide) h₅ (by decide) (by decide)⟩

end ComposableAsync.Resilient
