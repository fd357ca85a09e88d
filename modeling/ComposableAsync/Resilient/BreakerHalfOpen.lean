import ComposableAsync.Resilient.BreakerMachine

/-!
# The half-open breaker

Two properties of the probing phase, each with the step that breaks it.

A half-open breaker should always have a call in flight that can still move it.
A filtered exception ends a call without touching the state, so it wedges the
breaker when no other admitted call remains: every later call is rejected.

At most one probe should run at a time. A call admitted before the breaker opened
moves a half-open breaker while the probe is still running: a counted failure back
to open, so that a second probe is admitted after the delay, and a success to
closed, from where the breaker can open and probe again.
-/
namespace ComposableAsync.Resilient
open Foundations

variable {C E Ty : Type} {Val : Ty → Type}

/-- A half-open breaker waits for at least one admitted call. -/
def HalfOpenHasCall (s : Sys C) : Prop :=
  s.breaker.state = .halfOpen → ∃ p, s.status p = .inFlight

/-- With no call in flight, a call entering `delay` after the last failure is
admitted. -/
def AdmitsAgain [DecidableEq C] (c : Settings E Val) (s : Sys C) : Prop :=
  (∀ p, s.status p ≠ .inFlight) → ∀ (p : C) (o : Overload Ty) (now : ℤ),
    s.status p = .idle → c.delay ≤ now - s.breaker.lastFail →
    ∃ t, s.step c (.onEnter p o now) = some t ∧ t.status p = .inFlight

/-- The step is not a filtered exception of the only admitted call of a
half-open breaker. -/
def NotLastFiltered (c : Settings E Val) (s : Sys C) : Act C E Ty → Prop
  | .checkException p e _ => c.exceptionFilter e = true → s.breaker.state = .halfOpen →
      ∃ q, q ≠ p ∧ s.status q = .inFlight
  | .onEnter .. | .onSuccess .. => True

/-- The probes: the calls admitted by the step from open to half open. -/
def probes (log : List (Event C)) : List C :=
  (log.filter fun e => e.kind = .admitted ∧ e.before = .opened).map Event.call

/-- Of all the probes ever sent one at most is running, whether or not the breaker
was closed between them. -/
def AtMostOneProbe (s : Sys C) : Prop :=
  ∀ p ∈ probes s.log, ∀ q ∈ probes s.log,
    s.status p = .inFlight → s.status q = .inFlight → p = q

/-- A half-open breaker whose probe is running is moved by no other call, neither by
a success nor by a counted failure. -/
def OnlyProbeMoves (c : Settings E Val) (s : Sys C) : Act C E Ty → Prop
  | .onEnter .. => True
  | .onSuccess p _ => s.breaker.state = .halfOpen →
      ∀ q ∈ probes s.log, s.status q = .inFlight → q = p
  | .checkException p e _ => c.exceptionFilter e = false → s.breaker.state = .halfOpen →
      ∀ q ∈ probes s.log, s.status q = .inFlight → q = p

/-- A running probe keeps the breaker half open, so no other one is sent. -/
structure ProbeInv (s : Sys C) : Prop where
  started : ∀ p ∈ probes s.log, s.status p ≠ .idle
  running : ∀ p ∈ probes s.log, s.status p = .inFlight → s.breaker.state = .halfOpen
  alone : AtMostOneProbe s

variable [DecidableEq C] {c : Settings E Val} {s t : Sys C}

section Record
variable {a : Act C E Ty} {kind : EventKind} {b : Breaker}

@[simp] theorem record_breaker : (s.record a kind b).breaker = b := rfl

@[simp] theorem record_log :
    (s.record a kind b).log = ⟨a.call, a.now, kind, s.breaker.state, b.state⟩ :: s.log := rfl

@[simp] theorem record_status_self : (s.record a kind b).status a.call = kind.after :=
  Function.update_self ..

theorem record_status_of_ne {p : C} (h : p ≠ a.call) :
    (s.record a kind b).status p = s.status p := Function.update_of_ne h ..

/-- A step that does not admit its call leaves no more calls in flight. -/
theorem inFlight_of_record {p : C} (hk : kind.after = .ended)
    (h : (s.record a kind b).status p = .inFlight) : p ≠ a.call ∧ s.status p = .inFlight := by
  by_cases hp : p = a.call
  · rw [hp, record_status_self, hk] at h
    cases h
  · exact ⟨hp, record_status_of_ne hp ▸ h⟩

end Record

theorem HalfOpenHasCall.step {a : Act C E Ty} (hi : HalfOpenHasCall s)
    (hg : NotLastFiltered c s a) (ht : s.step c a = some t) : HalfOpenHasCall t := by
  obtain ⟨kind, b, he, hp, rfl⟩ := step_effect c ht
  intro hs
  cases he with
  | pass p o now hc => exact ⟨p, record_status_self⟩
  | probe p o now _ _ => exact ⟨p, record_status_self⟩
  | reject p o now _ _ =>
      obtain ⟨q, hq⟩ := hi hs
      have hne : q ≠ p := fun h => by
        rw [h] at hq
        cases hq.symm.trans hp
      exact ⟨q, (record_status_of_ne hne).trans hq⟩
  | success p now => cases hs
  | filtered p e now hf =>
      obtain ⟨q, hne, hq⟩ := hg hf hs
      exact ⟨q, (record_status_of_ne hne).trans hq⟩
  | count p e now _ hc _ =>
      rw [record_breaker] at hs
      cases hc.symm.trans hs
  | trip p e now _ _ _ => cases hs
  | reopen p e now _ _ => cases hs

/-- A breaker that is not half open admits every call after its delay. -/
theorem admitsAgain_of_halfOpenHasCall (h : HalfOpenHasCall s) : AdmitsAgain c s := by
  intro hnone p o now hp hd
  cases hs : s.breaker.state with
  | closed =>
      refine ⟨s.record (.onEnter p o now : Act C E Ty) .admitted s.breaker, ?_,
        record_status_self⟩
      simp only [Sys.step, hp, if_true, admitted_of_closed c o now _ hs]
  | opened =>
      refine ⟨s.record (.onEnter p o now : Act C E Ty) .admitted
        { s.breaker with state := .halfOpen }, ?_, record_status_self⟩
      simp only [Sys.step, hp, if_true, admitted_of_elapsed c o now _ hs hd]
  | halfOpen =>
      obtain ⟨q, hq⟩ := h hs
      exact (hnone q hq).elim

/-- If no filtered exception ends the last admitted call of a half-open breaker,
the breaker never wedges, and once it is idle it admits calls again. -/
theorem halfOpen_not_wedged
    (hr : (breakerMachine c : Machine (Sys C) (Act C E Ty)).ReachableUnder
      (NotLastFiltered c) s) :
    HalfOpenHasCall s ∧ AdmitsAgain c s := by
  have h : HalfOpenHasCall s :=
    hr.invariant (fun hs => by cases hs) fun _ _ _ _ hi hg ht => hi.step hg ht
  exact ⟨h, admitsAgain_of_halfOpenHasCall h⟩

/-- A call admitted while closed is filtered while the probe `2` is running. -/
theorem halfOpen_not_wedged_oneShot :
    ∃ s : Sys ℕ, (breakerMachine oneShot).run
      [.onEnter 0 .action 3, .onEnter 1 (.func ()) 4, .checkException 0 false 5,
        .onEnter 2 .funcTask 15, .checkException 1 true 16] {} = some s ∧
      s.breaker.state = .halfOpen ∧ ∃ p, s.status p = .inFlight := by
  refine ⟨_, rfl, rfl, ?_⟩
  have h₀ : (breakerMachine (C := ℕ) oneShot).ReachableUnder (NotLastFiltered oneShot) _ := .init
  have h₁ := h₀.act (.onEnter 0 .action 3) trivial rfl
  have h₂ := h₁.act (.onEnter 1 (.func ()) 4) trivial rfl
  have h₃ := h₂.act (.checkException 0 false 5) (fun h => by cases h) rfl
  have h₄ := h₃.act (.onEnter 2 .funcTask 15) trivial rfl
  -- the filtered call is not alone: the probe is still in flight
  have h₅ := h₄.act (.checkException 1 true 16) (fun _ _ => ⟨2, by decide, rfl⟩) rfl
  exact (halfOpen_not_wedged h₅).1 rfl

/-- The probe admitted at 20 ends with a filtered exception; the breaker stays
half open with nothing in flight. -/
theorem halfOpen_wedged_by_filtered_probe :
    ¬ ∀ s : Sys (Fin 2), (breakerMachine oneShot).Reachable s → HalfOpenHasCall s := by
  intro h
  have hr : (breakerMachine (C := Fin 2) oneShot).Reachable _ := Machine.run_reachable
    [.onEnter 0 .action 3, .checkException 0 false 5, .onEnter 1 .funcTask 20,
      .checkException 1 true 21] .init rfl
  obtain ⟨p, hp⟩ := h _ hr rfl
  revert p
  decide

theorem probes_record {a : Act C E Ty} {kind : EventKind} {b : Breaker}
    (hk : kind = .admitted → s.breaker.state ≠ .opened) :
    probes (s.record a kind b).log = probes s.log := by
  have hnot : ¬ (kind = .admitted ∧ s.breaker.state = .opened) := fun h => hk h.1 h.2
  simp [probes, hnot]

theorem probes_probe {p : C} {o : Overload Ty} {now : ℤ} {b : Breaker}
    (hs : s.breaker.state = .opened) :
    probes (s.record (.onEnter p o now : Act C E Ty) .admitted b).log = p :: probes s.log := by
  simp [probes, hs, Act.call]

/-- A call ends and sends no probe. If it moves the breaker, no other probe is running. -/
theorem ProbeInv.ends {a : Act C E Ty} {kind : EventKind} {b : Breaker} (hi : ProbeInv s)
    (hk : kind.after = .ended) (hb : b.state = s.breaker.state ∨
      ∀ q ∈ probes s.log, s.status q = .inFlight → q = a.call) : ProbeInv (s.record a kind b) := by
  have hsame : probes (s.record a kind b).log = probes s.log :=
    probes_record fun h => by rw [h] at hk; cases hk
  refine ⟨fun p hp => ?_, fun p hp hps => ?_, fun p hp q hq hps hqs => ?_⟩
  · rw [hsame] at hp
    by_cases hpa : p = a.call
    · rw [hpa, record_status_self, hk]
      exact nofun
    · rw [record_status_of_ne hpa]
      exact hi.started p hp
  · rw [hsame] at hp
    obtain ⟨hne, hps⟩ := inFlight_of_record hk hps
    rcases hb with hb | honly
    · exact hb.trans (hi.running p hp hps)
    · exact (hne (honly p hp hps)).elim
  · rw [hsame] at hp hq
    exact hi.alone p hp q hq (inFlight_of_record hk hps).2 (inFlight_of_record hk hqs).2

omit [DecidableEq C] in
theorem ProbeInv.only (hi : ProbeInv s) {p : C}
    (hg : s.breaker.state = .halfOpen → ∀ q ∈ probes s.log, s.status q = .inFlight → q = p) :
    ∀ q ∈ probes s.log, s.status q = .inFlight → q = p :=
  fun q hq hqs => hg (hi.running q hq hqs) q hq hqs

theorem ProbeInv.step {a : Act C E Ty} (hi : ProbeInv s) (hg : OnlyProbeMoves c s a)
    (ht : s.step c a = some t) : ProbeInv t := by
  obtain ⟨kind, b, he, hp, rfl⟩ := step_effect c ht
  cases he with
  | pass p o now hc =>
      -- the call is new, so it is none of the probes
      have hidle : s.status p = .idle := hp
      have hsame : probes (s.record (.onEnter p o now : Act C E Ty) .admitted s.breaker).log =
          probes s.log := probes_record fun _ h => by cases hc.symm.trans h
      have hother : ∀ q ∈ probes s.log,
          (s.record (.onEnter p o now : Act C E Ty) .admitted s.breaker).status q =
            s.status q := by
        intro q hq
        refine record_status_of_ne fun (hqp : q = p) => ?_
        exact hi.started q hq (hqp ▸ hidle)
      refine ⟨fun q hq => ?_, fun q hq hqs => ?_, fun q hq r hr hqs hrs => ?_⟩
      · rw [hsame] at hq
        exact hother q hq ▸ hi.started q hq
      · rw [hsame] at hq
        exact hi.running q hq (hother q hq ▸ hqs)
      · rw [hsame] at hq hr
        exact hi.alone q hq r hr (hother q hq ▸ hqs) (hother r hr ▸ hrs)
  | probe p o now hs _ =>
      -- no probe is running while the breaker is open, so the new one is alone
      have hnew : probes (s.record (.onEnter p o now : Act C E Ty) .admitted
          { s.breaker with state := .halfOpen }).log = p :: probes s.log := probes_probe hs
      have honly : ∀ q ∈ p :: probes s.log,
          (s.record (.onEnter p o now : Act C E Ty) .admitted
            { s.breaker with state := .halfOpen }).status q = .inFlight → q = p := by
        intro q hq hqs
        by_contra hne
        have hq' : q ∈ probes s.log := (List.mem_cons.mp hq).resolve_left hne
        rw [record_status_of_ne hne] at hqs
        cases hs.symm.trans (hi.running q hq' hqs)
      refine ⟨fun q hq => ?_, fun _ _ _ => rfl, fun q hq r hr hqs hrs => ?_⟩
      · rw [hnew] at hq
        by_cases hqp : q = p
        · rw [hqp]
          exact record_status_self.trans_ne nofun
        · rw [record_status_of_ne hqp]
          exact hi.started q ((List.mem_cons.mp hq).resolve_left hqp)
      · rw [hnew] at hq hr
        exact (honly q hq hqs).trans (honly r hr hrs).symm
  | reject p o now _ _ => exact hi.ends rfl (.inl rfl)
  | success p now => exact hi.ends rfl (.inr (hi.only hg))
  | filtered p e now _ => exact hi.ends rfl (.inl rfl)
  | count p e now _ hc _ => exact hi.ends rfl (.inl rfl)
  | trip p e now hf _ _ | reopen p e now hf _ => exact hi.ends rfl (.inr (hi.only (hg hf)))

/-- If a half-open breaker is moved by no call but its own probe while the probe runs,
two probes are never in flight together. -/
theorem atMostOneProbe_of_onlyProbeMoves
    (hr : (breakerMachine c : Machine (Sys C) (Act C E Ty)).ReachableUnder
      (OnlyProbeMoves c) s) : AtMostOneProbe s := by
  have h : ProbeInv s := hr.invariant
    ⟨(fun _ hp => by cases hp), (fun _ hp => by cases hp), fun _ hp => by cases hp⟩
    fun _ _ _ _ hi hg ht => hi.step hg ht
  exact h.alone

/-- A probe that fails, late ends of other calls while open, and a second probe. -/
theorem atMostOneProbe_of_onlyProbeMoves_oneShot :
    ∃ s : Sys ℕ, (breakerMachine oneShot).run
      [.onEnter 0 .action 3, .onEnter 1 .funcTask 4, .checkException 0 false 5,
        .onEnter 2 .action 15, .checkException 2 false 16, .checkException 1 false 17,
        .onEnter 3 .action 30, .onSuccess 3 31] {} = some s ∧
      s.breaker.state = .closed ∧ AtMostOneProbe s := by
  refine ⟨_, rfl, rfl, ?_⟩
  have h₀ : (breakerMachine (C := ℕ) oneShot).ReachableUnder (OnlyProbeMoves oneShot) _ := .init
  have h₁ := h₀.act (.onEnter 0 .action 3) trivial rfl
  have h₂ := h₁.act (.onEnter 1 .funcTask 4) trivial rfl
  have h₃ := h₂.act (.checkException 0 false 5) (fun _ h => by cases h) rfl
  have h₄ := h₃.act (.onEnter 2 .action 15) trivial rfl
  have h₅ := h₄.act (.checkException 2 false 16) (fun _ _ => by decide) rfl
  have h₆ := h₅.act (.checkException 1 false 17) (fun _ h => by cases h) rfl
  have h₇ := h₆.act (.onEnter 3 .action 30) trivial rfl
  have h₈ := h₇.act (.onSuccess 3 31) (fun _ => by decide) rfl
  exact atMostOneProbe_of_onlyProbeMoves h₈

/-- A late success at 16 closes the breaker while the probe `2` runs; at 28 the probe `4`
joins it. -/
example : ((breakerMachine (C := ℕ) oneShot).run
    [.onEnter 0 .action 3, .onEnter 1 .funcTask 4, .checkException 0 false 5,
      .onEnter 2 .action 15, .onSuccess 1 16, .onEnter 3 .action 17, .checkException 3 false 18,
      .onEnter 4 .action 28] {}).any
    (fun s => decide (s.status 2 = .inFlight ∧ s.status 4 = .inFlight)) = true := by decide

/-- A late failure at 16 reopens the breaker while the probe `2` runs; at 26 a
second probe joins it. -/
theorem two_probes_after_late_failure :
    ¬ ∀ s : Sys ℕ, (breakerMachine oneShot).ReachableUnder Monotone s → AtMostOneProbe s := by
  intro h
  have hr : (breakerMachine (C := ℕ) oneShot).ReachableUnder Monotone _ :=
    Machine.run_reachableUnder [.onEnter 0 .action 3, .onEnter 1 .funcTask 4,
      .checkException 0 false 5, .onEnter 2 (.funcTaskOf ()) 15, .checkException 1 false 16,
      .onEnter 3 .action 26] .init rfl rfl
  have h₂₃ : (2 : ℕ) = 3 := h _ hr 2 (by decide) 3 (by decide) rfl rfl
  exact absurd h₂₃ (by decide)

end ComposableAsync.Resilient
