import ComposableAsync.Foundations.Machine

/-!
# What a fair scheduler brings about

An infinite run is fair to a kind of actions if again and again one of them is taken or
none of them is possible. The rule: if a rank never grows before the goal, some kind of
actions is always helpful, one of its actions is possible and all of them lower the rank,
and the others keep it helpful or lower the rank as well, then every fair run gets to the
goal.
-/
namespace ComposableAsync.Foundations
namespace Machine
variable {σ α κ : Type*}

/-- An infinite run from a state. -/
structure Run (M : Machine σ α) (s : σ) where
  state : ℕ → σ
  act : ℕ → α
  start : state 0 = s
  step : ∀ i, M.step (state i) (act i) = some (state (i + 1))

variable {M : Machine σ α} {s : σ}

theorem Run.reachableUnder {guard : σ → α → Prop} (r : M.Run s) (hs : M.ReachableUnder guard s)
    (hr : ∀ i, guard (r.state i) (r.act i)) (i : ℕ) : M.ReachableUnder guard (r.state i) := by
  induction i with
  | zero =>
      rw [r.start]
      exact hs
  | succ i ih => exact ih.step (hr i) (r.step i)

theorem Run.reachable (r : M.Run s) (hs : M.Reachable s) (i : ℕ) : M.Reachable (r.state i) :=
  r.reachableUnder hs (fun _ => trivial) i

/-- One step, and a run from where it leads. -/
def Run.cons {t : σ} {a : α} (h : M.step s a = some t) (r : M.Run t) : M.Run s where
  state
    | 0 => s
    | i + 1 => r.state i
  act
    | 0 => a
    | i + 1 => r.act i
  start := rfl
  step
    | 0 => h.trans (congrArg some r.start.symm)
    | i + 1 => r.step i

/-- A schedule, and then an action that changes nothing, for ever. -/
theorem exists_run {t : σ} {a : α} (as : List α) (h : M.run as s = some t)
    (ha : M.step t a = some t) : ∃ r : M.Run s,
      (∀ i, as.length ≤ i → r.state i = t) ∧ (∀ i, as.length ≤ i → r.act i = a) ∧
        ∀ i, r.act i ∈ as ∨ r.act i = a := by
  induction as generalizing s with
  | nil =>
      cases h
      exact ⟨⟨fun _ => t, fun _ => a, rfl, fun _ => ha⟩, fun _ _ => rfl, fun _ _ => rfl,
        fun _ => .inr rfl⟩
  | cons b as ih =>
      obtain ⟨u, hu, hrest⟩ := Option.bind_eq_some_iff.mp h
      obtain ⟨r, hstate, hact, hacts⟩ := ih hrest
      refine ⟨r.cons hu, fun i hi => ?_, fun i hi => ?_, fun i => ?_⟩
      · cases i with
        | zero => cases hi
        | succ i => exact hstate i (Nat.le_of_succ_le_succ hi)
      · cases i with
        | zero => cases hi
        | succ i => exact hact i (Nat.le_of_succ_le_succ hi)
      · cases i with
        | zero => exact .inl (List.mem_cons_self ..)
        | succ i => exact (hacts i).imp_left (List.mem_cons_of_mem b)

/-- Weak fairness. -/
def Run.Fair (r : M.Run s) (kind : α → Prop) : Prop :=
  ∀ i, ∃ j, i ≤ j ∧ (kind (r.act j) ∨ ∀ a, kind a → M.step (r.state j) a = none)

theorem Run.fair_of_disabled {r : M.Run s} {kind : α → Prop} {t : σ} {n : ℕ}
    (hr : ∀ i, n ≤ i → r.state i = t) (ht : ∀ a, kind a → M.step t a = none) : r.Fair kind := by
  intro i
  refine ⟨i + n, Nat.le_add_right _ _, .inr fun a ha => ?_⟩
  rw [hr _ (Nat.le_add_left _ _)]
  exact ht a ha

/-- What has to be shown of the rank, on the states of an invariant. -/
structure Ranked (M : Machine σ α) (kind : κ → α → Prop) (I goal : σ → Prop)
    (helpful : σ → κ → Prop) (rank : σ → ℕ) : Prop where
  keeps : ∀ {s a t}, I s → ¬ goal s → M.step s a = some t → I t
  le : ∀ {s a t}, I s → ¬ goal s → M.step s a = some t → rank t ≤ rank s
  exists_helpful : ∀ {s}, I s → ¬ goal s → ∃ k, helpful s k
  enabled : ∀ {s k}, I s → ¬ goal s → helpful s k → ∃ a t, kind k a ∧ M.step s a = some t
  spends : ∀ {s k a t}, I s → ¬ goal s → helpful s k → kind k a → M.step s a = some t →
    rank t < rank s
  stays : ∀ {s k a t}, I s → ¬ goal s → helpful s k → ¬ kind k a → M.step s a = some t →
    rank t < rank s ∨ helpful t k

variable {kind : κ → α → Prop} {I goal : σ → Prop} {helpful : σ → κ → Prop} {rank : σ → ℕ}

theorem enabled_of_isSome (step : α → Option σ) {k : α → Prop} {a : α} (ha : k a)
    (h : (step a).isSome = true) : ∃ a t, k a ∧ step a = some t := by
  obtain ⟨t, ht⟩ := Option.isSome_iff_exists.mp h
  exact ⟨a, t, ha, ht⟩

theorem Ranked.eventually_from (h : M.Ranked kind I goal helpful rank) (r : M.Run s)
    (hfair : ∀ k, r.Fair (kind k)) (i : ℕ) (hi : I (r.state i)) : ∃ j, goal (r.state j) := by
  induction hrank : rank (r.state i) using Nat.strongRecOn generalizing i with
  | ind n ih =>
      subst hrank
      by_contra hnone
      have hgoal : ∀ j, ¬ goal (r.state j) := fun j hj => hnone ⟨j, hj⟩
      have hlow : ∀ j, I (r.state j) → ¬ rank (r.state j) < rank (r.state i) :=
        fun j hj hlt => hnone (ih _ hlt j hj rfl)
      obtain ⟨k, hk⟩ := h.exists_helpful hi (hgoal i)
      -- as the rank stays what it is, the same kind stays helpful and none of it is taken
      have hwait : ∀ d, I (r.state (i + d)) ∧ rank (r.state (i + d)) ≤ rank (r.state i) ∧
          helpful (r.state (i + d)) k ∧ ¬ kind k (r.act (i + d)) := by
        intro d
        have hnot : ∀ d, I (r.state (i + d)) → rank (r.state (i + d)) ≤ rank (r.state i) →
            helpful (r.state (i + d)) k → ¬ kind k (r.act (i + d)) := by
          intro d hd hle hhelps hkind
          have hspent := h.spends hd (hgoal _) hhelps hkind (r.step _)
          exact hlow _ (h.keeps hd (hgoal _) (r.step _)) (Nat.lt_of_lt_of_le hspent hle)
        induction d with
        | zero => exact ⟨hi, Nat.le_refl _, hk, hnot 0 hi (Nat.le_refl _) hk⟩
        | succ d ihd =>
            obtain ⟨hd, hle, hhelps, hkind⟩ := ihd
            have hd' : I (r.state (i + d + 1)) := h.keeps hd (hgoal _) (r.step _)
            have hle' : rank (r.state (i + d + 1)) ≤ rank (r.state i) :=
              Nat.le_trans (h.le hd (hgoal _) (r.step _)) hle
            have hhelps' : helpful (r.state (i + d + 1)) k := by
              refine (h.stays hd (hgoal _) hhelps hkind (r.step _)).resolve_left fun hlt => ?_
              exact hlow _ hd' (Nat.lt_of_lt_of_le hlt hle)
            exact ⟨hd', hle', hhelps', hnot (d + 1) hd' hle' hhelps'⟩
      obtain ⟨j, hij, hj⟩ := hfair k i
      obtain ⟨d, rfl⟩ := Nat.exists_eq_add_of_le hij
      obtain ⟨hd, -, hhelps, hkind⟩ := hwait d
      rcases hj with htaken | hdisabled
      · exact hkind htaken
      · obtain ⟨a, t, ha, hstep⟩ := h.enabled hd (hgoal _) hhelps
        cases (hdisabled a ha).symm.trans hstep

theorem Ranked.eventually (h : M.Ranked kind I goal helpful rank) (r : M.Run s)
    (hfair : ∀ k, r.Fair (kind k)) (hs : I s) : ∃ i, goal (r.state i) := by
  refine h.eventually_from r hfair 0 ?_
  rw [r.start]
  exact hs

/-- The run from one of its states on. -/
def Run.drop (r : M.Run s) (i : ℕ) : M.Run (r.state i) where
  state j := r.state (i + j)
  act j := r.act (i + j)
  start := rfl
  step j := r.step (i + j)

theorem Run.Fair.drop {r : M.Run s} {kind : α → Prop} (h : r.Fair kind) (i : ℕ) :
    (r.drop i).Fair kind := by
  intro n
  obtain ⟨j, hle, hj⟩ := h (i + n)
  obtain ⟨d, rfl⟩ := Nat.exists_eq_add_of_le (Nat.le_of_add_right_le hle)
  exact ⟨d, Nat.le_of_add_le_add_left hle, hj⟩

/-- After every state with the one property comes a state with the other. -/
def Run.LeadsTo (r : M.Run s) (P Q : σ → Prop) : Prop :=
  ∀ i, P (r.state i) → ∃ j, i ≤ j ∧ Q (r.state j)

theorem Run.LeadsTo.trans {r : M.Run s} {P Q S : σ → Prop} (h : r.LeadsTo P Q)
    (h' : r.LeadsTo Q S) : r.LeadsTo P S := by
  intro i hi
  obtain ⟨j, hij, hj⟩ := h i hi
  obtain ⟨k, hjk, hk⟩ := h' j hj
  exact ⟨k, Nat.le_trans hij hjk, hk⟩

theorem Ranked.leadsTo (h : M.Ranked kind I goal helpful rank) (r : M.Run s)
    (hfair : ∀ k, r.Fair (kind k)) : r.LeadsTo I goal := by
  intro i hi
  obtain ⟨j, hj⟩ := h.eventually (r.drop i) (fun k => (hfair k).drop i) hi
  exact ⟨i + j, Nat.le_add_right i j, hj⟩

/-- A property that holds until the goal, and under which an action of a fair kind is
possible and leads to the goal, leads to the goal. -/
theorem Run.Fair.leadsTo {r : M.Run s} {kind : α → Prop} (h : r.Fair kind) {P Q : σ → Prop}
    (hstays : ∀ {s a t}, P s → M.step s a = some t → P t ∨ Q t)
    (henabled : ∀ {s}, P s → ∃ a t, kind a ∧ M.step s a = some t)
    (hgoal : ∀ {s a t}, P s → kind a → M.step s a = some t → Q t) : r.LeadsTo P Q := by
  intro i hi
  by_contra hnone
  have hwait : ∀ d, P (r.state (i + d)) := by
    intro d
    induction d with
    | zero => exact hi
    | succ d ih =>
        refine (hstays ih (r.step _)).resolve_right fun hq => hnone ⟨_, ?_, hq⟩
        omega
  obtain ⟨j, hij, hj⟩ := h i
  obtain ⟨d, rfl⟩ := Nat.exists_eq_add_of_le hij
  rcases hj with htaken | hdisabled
  · exact hnone ⟨i + d + 1, by omega, hgoal (hwait d) htaken (r.step _)⟩
  · obtain ⟨a, t, ha, hstep⟩ := henabled (hwait d)
    cases (hdisabled a ha).symm.trans hstep

theorem Run.stays {r : M.Run s} {P : σ → Prop}
    (hstep : ∀ {s a t}, P s → M.step s a = some t → P t) {i j : ℕ} (hij : i ≤ j)
    (hi : P (r.state i)) : P (r.state j) := by
  induction hij with
  | refl => exact hi
  | step _ ih => exact hstep ih (r.step _)

theorem Run.exists_last {r : M.Run s} {P : σ → Prop} {i j : ℕ} (hij : i ≤ j)
    (hi : P (r.state i)) (hj : ¬ P (r.state j)) :
    ∃ k, i ≤ k ∧ P (r.state k) ∧ ¬ P (r.state (k + 1)) := by
  by_contra hnone
  have hkeeps : ∀ d, P (r.state (i + d)) := by
    intro d
    induction d with
    | zero => exact hi
    | succ d ih => exact by_contra fun h => hnone ⟨i + d, Nat.le_add_right i d, ih, h⟩
  obtain ⟨d, rfl⟩ := Nat.exists_eq_add_of_le hij
  exact hj (hkeeps d)

end Machine
end ComposableAsync.Foundations
