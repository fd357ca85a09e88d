import Mathlib.Data.Option.Basic
import Mathlib.Logic.Function.Basic
import Mathlib.Logic.Relation
import Mathlib.Tactic.Common

/-!
# Machines stepped by a scheduler

A machine has one starting state and a partial, executable step. An action
names the thread that moves and whatever the scheduler chooses for it, so an
interleaving is a list of actions. Reachability carries a guard on the steps:
the unguarded notion is the guard that is always met, and a property may hold
only on the runs all of whose steps avoid some branch.

Nothing here refers to a particular program.
-/
namespace ComposableAsync.Foundations

theorem update_apply_eq {π α : Type*} [DecidableEq π] {f : π → α} {p q : π} {w x : α} :
    Function.update f p w q = x ↔ q = p ∧ w = x ∨ q ≠ p ∧ f q = x := by
  by_cases h : q = p
  · simp [h]
  · simp [h]

structure Machine (σ α : Type*) where
  init : σ
  step : σ → α → Option σ

namespace Machine
variable {σ α τ β : Type*}

/-- The states of the runs every step of which meets the guard. -/
inductive ReachableUnder (M : Machine σ α) (guard : σ → α → Prop) : σ → Prop
  | init : ReachableUnder M guard M.init
  | step {s t : σ} {a : α} : ReachableUnder M guard s → guard s a →
      M.step s a = some t → ReachableUnder M guard t

/-- Every interleaving is allowed. -/
def Reachable (M : Machine σ α) : σ → Prop := M.ReachableUnder fun _ _ => True

variable {M : Machine σ α} {guard strong : σ → α → Prop} {s t : σ}

theorem Reachable.next {a : α} (h : M.Reachable s) (hs : M.step s a = some t) :
    M.Reachable t := .step h trivial hs

theorem ReachableUnder.act (h : M.ReachableUnder guard s) (a : α) (ha : guard s a)
    (hs : M.step s a = some t) : M.ReachableUnder guard t := h.step ha hs

theorem ReachableUnder.mono (hg : ∀ s a, strong s a → guard s a)
    (h : M.ReachableUnder strong s) : M.ReachableUnder guard s := by
  induction h with
  | init => exact .init
  | step _ ha hs ih => exact .step ih (hg _ _ ha) hs

theorem ReachableUnder.reachable (h : M.ReachableUnder guard s) : M.Reachable s :=
  h.mono fun _ _ _ => trivial

/-- The invariant rule: what holds at the start and is kept by every guarded
step holds in every state of a guarded run. -/
theorem ReachableUnder.invariant {I : σ → Prop} (h : M.ReachableUnder guard s)
    (h₀ : I M.init)
    (hstep : ∀ s a t, M.ReachableUnder guard s → I s → guard s a →
      M.step s a = some t → I t) : I s := by
  induction h with
  | init => exact h₀
  | step hr ha hs ih => exact hstep _ _ _ hr ih ha hs

theorem Reachable.invariant {I : σ → Prop} (h : M.Reachable s) (h₀ : I M.init)
    (hstep : ∀ s a t, M.Reachable s → I s → M.step s a = some t → I t) : I s :=
  ReachableUnder.invariant h h₀ fun s a t hr hi _ hs => hstep s a t hr hi hs

/-- The state a schedule leads to, if every one of its actions is enabled. -/
def run (M : Machine σ α) : List α → σ → Option σ
  | [], s => some s
  | a :: as, s => (M.step s a).bind (M.run as)

theorem run_append (as bs : List α) (s : σ) : M.run (as ++ bs) s = (M.run as s).bind (M.run bs) := by
  induction as generalizing s with
  | nil => rfl
  | cons a as ih =>
      rw [List.cons_append, run, run]
      cases M.step s a with
      | none => rfl
      | some t => exact ih t

/-- Whether every action of the schedule meets a decidable guard when taken. -/
def meets (M : Machine σ α) (guard : σ → α → Prop) [∀ s a, Decidable (guard s a)] :
    List α → σ → Bool
  | [], _ => true
  | a :: as, s => decide (guard s a) && (M.step s a).all (M.meets guard as)

theorem run_reachableUnder [∀ s a, Decidable (guard s a)] (as : List α)
    (hr : M.ReachableUnder guard s) (hm : M.meets guard as s = true)
    (hrun : M.run as s = some t) : M.ReachableUnder guard t := by
  induction as generalizing s with
  | nil =>
      cases hrun
      exact hr
  | cons a as ih =>
      obtain ⟨u, hu, hrest⟩ := Option.bind_eq_some_iff.mp hrun
      simp only [meets, hu, Option.all_some, Bool.and_eq_true, decide_eq_true_eq] at hm
      exact ih (.step hr hm.1 hu) hm.2 hrest

theorem run_reachable (as : List α) (hr : M.Reachable s) (hrun : M.run as s = some t) :
    M.Reachable t := by
  induction as generalizing s with
  | nil =>
      cases hrun
      exact hr
  | cons a as ih =>
      obtain ⟨u, hu, hrest⟩ := Option.bind_eq_some_iff.mp hrun
      exact ih (hr.next hu) hrest

/-- A schedule that ends in a state with a decidable property reaches one. -/
theorem exists_of_run {p : σ → Prop} [DecidablePred p] (as : List α)
    (h : (M.run as M.init).any (fun s => decide (p s)) = true) : ∃ s, M.Reachable s ∧ p s := by
  obtain ⟨s, hs, hp⟩ := (Option.any_eq_true _ _).mp h
  exact ⟨s, run_reachable as .init hs, of_decide_eq_true hp⟩

theorem exists_of_guarded_run (guard : σ → α → Prop) [∀ s a, Decidable (guard s a)]
    {p : σ → Prop} [DecidablePred p] (as : List α) (hm : M.meets guard as M.init = true)
    (h : (M.run as M.init).any (fun s => decide (p s)) = true) :
    ∃ s, M.ReachableUnder guard s ∧ p s := by
  obtain ⟨s, hs, hp⟩ := (Option.any_eq_true _ _).mp h
  exact ⟨s, run_reachableUnder as .init hm hs, of_decide_eq_true hp⟩

/-- The allowed actions can bring the machine from `s` to `t`. -/
def Leads (M : Machine σ α) (allowed : α → Prop) : σ → σ → Prop :=
  Relation.ReflTransGen fun s t => ∃ a, allowed a ∧ M.step s a = some t

theorem leads_refl {allowed : α → Prop} : M.Leads allowed s s := .refl

theorem leads_single {allowed : α → Prop} {a : α} (ha : allowed a) (h : M.step s a = some t) :
    M.Leads allowed s t := .single ⟨a, ha, h⟩

theorem Leads.trans {allowed : α → Prop} {u : σ} (h : M.Leads allowed s t)
    (h' : M.Leads allowed t u) : M.Leads allowed s u := Relation.ReflTransGen.trans h h'

theorem leads_of_run (as : List α) (h : M.run as s = some t) : M.Leads (fun _ => True) s t := by
  induction as generalizing s with
  | nil =>
      cases h
      exact leads_refl
  | cons a as ih =>
      obtain ⟨u, hu, hrest⟩ := Option.bind_eq_some_iff.mp h
      exact (leads_single trivial hu).trans (ih hrest)

theorem exists_of_runs {p q : σ → Prop} [DecidablePred p] [DecidablePred q] (as bs : List α)
    (h : (M.run as M.init).any (fun s => decide (p s) &&
      (M.run bs s).any fun t => decide (q t)) = true) :
    ∃ s t, M.Reachable s ∧ p s ∧ M.Leads (fun _ => True) s t ∧ q t := by
  obtain ⟨s, hs, hpq⟩ := (Option.any_eq_true _ _).mp h
  obtain ⟨hp, hq⟩ := Bool.and_eq_true_iff.mp hpq
  obtain ⟨t, ht, hq⟩ := (Option.any_eq_true _ _).mp hq
  exact ⟨s, t, run_reachable as .init hs, of_decide_eq_true hp, leads_of_run bs ht,
    of_decide_eq_true hq⟩

/-- What every allowed step keeps holds wherever they lead. -/
theorem Leads.invariant {allowed : α → Prop} {I : σ → Prop} (h : M.Leads allowed s t) (hs : I s)
    (hstep : ∀ s a t, I s → allowed a → M.step s a = some t → I t) : I t := by
  induction h with
  | refl => exact hs
  | tail _ ha ih =>
      obtain ⟨a, ha, hstep'⟩ := ha
      exact hstep _ a _ ih ha hstep'

theorem Leads.mono {allowed more : α → Prop} (h : M.Leads allowed s t)
    (hmore : ∀ a, allowed a → more a) : M.Leads more s t := by
  induction h with
  | refl => exact .refl
  | tail _ ha ih =>
      obtain ⟨a, ha, hstep⟩ := ha
      exact ih.tail ⟨a, hmore a ha, hstep⟩

/-- A run goes on as a guarded run by actions that always meet the guard. -/
theorem Leads.reachableUnder {allowed : α → Prop} (h : M.Leads allowed s t)
    (hg : ∀ s a, allowed a → guard s a) (hr : M.ReachableUnder guard s) :
    M.ReachableUnder guard t :=
  h.invariant hr fun s a _ hr ha hs => hr.step (hg s a ha) hs

theorem Leads.reachable {allowed : α → Prop} (h : M.Leads allowed s t) (hr : M.Reachable s) :
    M.Reachable t := h.invariant hr fun _ _ _ hr _ hs => hr.next hs

/-- What the component `N` of `M` can do, `M` can do, as long as `M` follows each
allowed step of it. -/
theorem Leads.lift {N : Machine τ β} {allowed : α → Prop} {allowed' : β → Prop} {f : σ → τ}
    {I : σ → Prop} {v : τ} (h : N.Leads allowed' (f s) v) (hs : I s)
    (hlift : ∀ {s b u}, I s → allowed' b → N.step (f s) b = some u →
      ∃ a t, allowed a ∧ M.step s a = some t ∧ f t = u ∧ I t) :
    ∃ t, M.Leads allowed s t ∧ f t = v ∧ I t := by
  induction h with
  | refl => exact ⟨s, leads_refl, rfl, hs⟩
  | tail _ hb ih =>
      obtain ⟨u, hlead, rfl, hu⟩ := ih
      obtain ⟨b, hb, hstep⟩ := hb
      obtain ⟨a, t, ha, ht, rfl, hi⟩ := hlift hu hb hstep
      exact ⟨t, hlead.trans (leads_single ha ht), rfl, hi⟩

/-- Allowed actions bring the machine from `s` to the last argument, and the event
happened at so many of the steps. -/
inductive Counts (M : Machine σ α) (allowed : σ → α → Prop) (event : σ → σ → Bool) (s : σ) :
    ℕ → σ → Prop
  | start : Counts M allowed event s 0 s
  | step {n : ℕ} {t u : σ} {a : α} : Counts M allowed event s n t → allowed t a →
      M.step t a = some u → Counts M allowed event s (n + (event t u).toNat) u

theorem Counts.invariant {allowed : σ → α → Prop} {event : σ → σ → Bool} {I : ℕ → σ → Prop}
    {n : ℕ} (h : M.Counts allowed event s n t) (h₀ : I 0 s)
    (hstep : ∀ n t a u, I n t → allowed t a → M.step t a = some u →
      I (n + (event t u).toNat) u) : I n t := by
  induction h with
  | start => exact h₀
  | step _ ha hs ih => exact hstep _ _ _ _ ih ha hs

/-- An event that spends a budget, where no allowed step renews the budget. -/
theorem Counts.le_budget {allowed : σ → α → Prop} {event : σ → σ → Bool} {n : ℕ}
    (h : M.Counts allowed event s n t) (budget : σ → ℕ)
    (hstep : ∀ t a u, allowed t a → M.step t a = some u →
      (event t u).toNat + budget u ≤ budget t) : n + budget t ≤ budget s := by
  refine h.invariant (I := fun n t => n + budget t ≤ budget s) (Nat.le_of_eq (Nat.zero_add _)) ?_
  intro n t a u ih ha hs
  have hspent := hstep t a u ha hs
  omega

/-- `M` refines `N`: seen through `abs`, every step of `M` is a step of `N` or
leaves the abstract state alone. -/
structure Refines (M : Machine σ α) (N : Machine τ β) (abs : σ → τ) : Prop where
  init : abs M.init = N.init
  step : ∀ {s a t}, M.step s a = some t →
    abs t = abs s ∨ ∃ b, N.step (abs s) b = some (abs t)

theorem Refines.reachable {N : Machine τ β} {abs : σ → τ} (r : M.Refines N abs)
    (h : M.Reachable s) : N.Reachable (abs s) := by
  refine h.invariant (I := fun s => N.Reachable (abs s)) ?_ ?_
  · rw [r.init]
    exact .init
  · intro s a t _ hs ht
    obtain heq | ⟨b, hb⟩ := r.step ht
    · rw [heq]
      exact hs
    · exact hs.next hb

/-- `M` refines `N` on the runs that meet the guard, and the steps of `N` it makes
there meet the guard of `N`. -/
structure RefinesUnder (M : Machine σ α) (N : Machine τ β) (guard : σ → α → Prop)
    (guard' : τ → β → Prop) (abs : σ → τ) : Prop where
  init : abs M.init = N.init
  step : ∀ {s a t}, M.ReachableUnder guard s → guard s a → M.step s a = some t →
    abs t = abs s ∨ ∃ b, guard' (abs s) b ∧ N.step (abs s) b = some (abs t)

theorem RefinesUnder.reachable {N : Machine τ β} {guard' : τ → β → Prop} {abs : σ → τ}
    (r : M.RefinesUnder N guard guard' abs) (h : M.ReachableUnder guard s) :
    N.ReachableUnder guard' (abs s) := by
  apply h.invariant (I := fun s => N.ReachableUnder guard' (abs s))
  · rw [r.init]
    exact .init
  · intro s a t hr hs ha ht
    obtain heq | ⟨b, hguard, hb⟩ := r.step hr ha ht
    · rw [heq]
      exact hs
    · exact hs.step hguard hb

end Machine
end ComposableAsync.Foundations
