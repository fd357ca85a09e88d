import ComposableAsync.Core.DispatcherFootprint
import ComposableAsync.Resilient.DispatcherTree

/-!
# What a clone shares with its original

A tree uses the cells of its own breakers and no others, whatever its stages make
of the delegates they are given. Clients of two trees without a common breaker
therefore do not see each other's calls, in any interleaving. `Clone` gives such a
tree as long as no composition is involved: `ComposedDispatcher.Clone` keeps its
two parts, so that a composition with a breaker shares it with its clone.
-/
namespace ComposableAsync.Resilient
open Foundations ComposableAsync.Core

variable {E W Ty Token R : Type} {Val : Ty → Type} (env : Environment E W Token)

section Footprints
variable {C : Set ℕ} {c : Settings E Val} {cell : ℕ}

theorem within_callFunc {enter : Comp E (Memory ℕ Breaker W) (ReturnData R)}
    {check : E → Comp E (Memory ℕ Breaker W) Unit} {success : Comp E (Memory ℕ Breaker W) Unit}
    {action : Comp E (Memory ℕ Breaker W) R} (henter : Within C enter)
    (hcheck : ∀ e, Within C (check e)) (hsuccess : Within C success) (ha : Within C action) :
    Within C (callFunc enter check success action) := by
  refine henter.bind fun data => ?_
  cases data with
  | ret value => exact .pure value
  | getContinue =>
      refine (ha.tryCatch fun e => (hcheck e).bind fun _ => .throw e).bind fun res => ?_
      exact hsuccess.bind fun _ => .pure res

theorem within_callAction {enter : Comp E (Memory ℕ Breaker W) Bool}
    {check : E → Comp E (Memory ℕ Breaker W) Unit} {success : Comp E (Memory ℕ Breaker W) Unit}
    {action : Comp E (Memory ℕ Breaker W) Unit} (henter : Within C enter)
    (hcheck : ∀ e, Within C (check e)) (hsuccess : Within C success) (ha : Within C action) :
    Within C (callAction enter check success action) := by
  refine henter.bind fun continues => ?_
  cases continues with
  | false => exact .pure ()
  | true =>
      exact (ha.tryCatch fun e => (hcheck e).bind fun _ => .throw e).bind fun _ => hsuccess

theorem within_checkCell (hcell : cell ∈ C) (e : E) : Within C (checkCell c env cell e) := by
  unfold checkCell
  by_cases hf : c.exceptionFilter e = true
  · rw [if_pos hf]
    exact .pure ()
  · rw [if_neg hf]
    exact .onCell hcell _

theorem within_funcCell (hcell : cell ∈ C) {t : Ty} {action : Comp E (Memory ℕ Breaker W) (Val t)}
    (ha : Within C action) : Within C (funcCell c env cell t action) :=
  within_callFunc (.onCell hcell _) (within_checkCell env hcell) (.onCell hcell _) ha

theorem within_actionCell (hcell : cell ∈ C) {action : Comp E (Memory ℕ Breaker W) Unit}
    (ha : Within C action) : Within C (actionCell c env cell action) :=
  within_callAction (.onCell hcell _) (within_checkCell env hcell) (.onCell hcell _) ha

theorem circuitBreakerDispatcher_within (hcell : cell ∈ C) :
    BasicWithin C (circuitBreakerDispatcher c env cell :
      IBasicDispatcher E (StateM (Memory ℕ Breaker W)) Val Token) where
  enqueueFunc ha := within_fromResult (within_funcCell env hcell ha)
  enqueueAction ha := within_fromResult (within_actionCell env hcell ha)
  enqueueFuncTask ha := within_async (within_actionCell env hcell (within_awaited ha))
  enqueueFuncTaskOf ha := within_async (within_funcCell env hcell (within_awaited ha))

theorem within_retry (isFiltered : E → Bool) (maxRetry : Int32) (token : Token)
    {attempt : Comp E (Memory ℕ Breaker W) R} (ha : Within C attempt) :
    Within C (retry env isFiltered maxRetry token attempt) :=
  Within.retryLoop (.onOutside _) (fun _ => .pure ()) ha _ _

theorem retryDispatcher_within (isFiltered : E → Bool) (maxRetry : Int32) :
    BasicWithin C (retryDispatcher env isFiltered maxRetry :
      IBasicDispatcher E (StateM (Memory ℕ Breaker W)) Val Token) where
  enqueueFunc ha := within_fromResult (within_retry env isFiltered maxRetry _ ha)
  enqueueAction ha := within_fromResult (within_retry env isFiltered maxRetry _ ha)
  enqueueFuncTask ha := within_async (within_retry env isFiltered maxRetry _ (within_awaited ha))
  enqueueFuncTaskOf ha :=
    within_async (within_retry env isFiltered maxRetry _ (within_awaited ha))

theorem within_retryAsync (isFiltered : E → Bool) (getTimeOutForRetry : Int32 → Comp E W ℤ)
    (maxRetry : Int32) (token : Token) {attempt : Comp E (Memory ℕ Breaker W) R}
    (ha : Within C attempt) :
    Within C (retryAsync env isFiltered getTimeOutForRetry maxRetry token attempt) :=
  Within.retryLoop (.onOutside _) (fun _ => .onOutside _) ha _ _

theorem retryDispatcherAsync_within (isFiltered : E → Bool)
    (getTimeOutForRetry : Int32 → Comp E W ℤ) (maxRetry : Int32) :
    BasicWithin C (retryDispatcherAsync env isFiltered getTimeOutForRetry maxRetry :
      IBasicDispatcher E (StateM (Memory ℕ Breaker W)) Val Token) where
  enqueueFunc ha := within_async (within_retryAsync env isFiltered getTimeOutForRetry maxRetry _ ha)
  enqueueAction ha :=
    within_async (within_retryAsync env isFiltered getTimeOutForRetry maxRetry _ ha)
  enqueueFuncTask ha :=
    within_async (within_retryAsync env isFiltered getTimeOutForRetry maxRetry _ (within_awaited ha))
  enqueueFuncTaskOf ha :=
    within_async (within_retryAsync env isFiltered getTimeOutForRetry maxRetry _ (within_awaited ha))

/-- A tree whose breakers are all in `C` stays within `C`. -/
theorem DispatcherTree.entriesWithin (d : DispatcherTree E W Val) (hC : ∀ i ∈ d.cells, i ∈ C) :
    EntriesWithin C (d.entries env) := by
  induction d with
  | nullDispatcher => exact entriesWithin_null
  | retryDispatcher isFiltered maxRetry =>
      exact (retryDispatcher_within env isFiltered maxRetry).adapter env.none
  | retryDispatcherAsync isFiltered getTimeOutForRetry maxRetry =>
      exact (retryDispatcherAsync_within env isFiltered getTimeOutForRetry maxRetry).adapter env.none
  | circuitBreakerDispatcher settings cell =>
      exact (circuitBreakerDispatcher_within env (hC cell List.mem_cons_self)).adapter env.none
  | composedDispatcher first second ihFirst ihSecond =>
      have hfirst := ihFirst fun i hi => hC i (List.mem_append_left _ hi)
      have hsecond := ihSecond fun i hi => hC i (List.mem_append_right _ hi)
      exact hfirst.composed hsecond

end Footprints

/-- A call of one of the eight `Enqueue` overloads, with the delegate of the caller. -/
inductive EnqueueCall (E W Token : Type) {Ty : Type} (Val : Ty → Type) where
  | action (delegate : Comp E W Unit)
  | func (t : Ty) (delegate : Comp E W (Val t))
  | funcTask (delegate : Comp E W (Awaited E Unit))
  | funcTaskOf (t : Ty) (delegate : Comp E W (Awaited E (Val t)))
  | funcWith (t : Ty) (delegate : Comp E W (Val t)) (token : Token)
  | actionWith (delegate : Comp E W Unit) (token : Token)
  | funcTaskWith (delegate : Comp E W (Awaited E Unit)) (token : Token)
  | funcTaskOfWith (t : Ty) (delegate : Comp E W (Awaited E (Val t))) (token : Token)

/-- The task a call returns. -/
inductive Answer (E : Type) {Ty : Type} (Val : Ty → Type) where
  | task (outcome : Awaited E Unit)
  | taskOf (t : Ty) (outcome : Awaited E (Val t))

def EnqueueCall.on (d : IDispatcher E (StateM (Memory ℕ Breaker W)) Val Token) :
    EnqueueCall E W Token Val → Comp E (Memory ℕ Breaker W) (Answer E Val)
  | .action delegate => .task <$> d.enqueueAction (onOutside delegate)
  | .func t delegate => .taskOf t <$> d.enqueueFunc (onOutside delegate)
  | .funcTask delegate => .task <$> d.enqueueFuncTask (onOutside delegate)
  | .funcTaskOf t delegate => .taskOf t <$> d.enqueueFuncTaskOf (onOutside delegate)
  | .funcWith t delegate token => .taskOf t <$> d.enqueueFuncWith (onOutside delegate) token
  | .actionWith delegate token => .task <$> d.enqueueActionWith (onOutside delegate) token
  | .funcTaskWith delegate token => .task <$> d.enqueueFuncTaskWith (onOutside delegate) token
  | .funcTaskOfWith t delegate token =>
      .taskOf t <$> d.enqueueFuncTaskOfWith (onOutside delegate) token

theorem within_on {C : Set ℕ} {d : IDispatcher E (StateM (Memory ℕ Breaker W)) Val Token}
    (hd : EntriesWithin C d) (call : EnqueueCall E W Token Val) : Within C (call.on d) := by
  cases call with
  | action delegate => exact (hd.enqueueAction (.onOutside delegate)).bind fun _ => .pure _
  | func t delegate => exact (hd.enqueueFunc (.onOutside delegate)).bind fun _ => .pure _
  | funcTask delegate => exact (hd.enqueueFuncTask (.onOutside delegate)).bind fun _ => .pure _
  | funcTaskOf t delegate =>
      exact (hd.enqueueFuncTaskOf (.onOutside delegate)).bind fun _ => .pure _
  | funcWith t delegate token =>
      exact (hd.enqueueFuncWith (.onOutside delegate)).bind fun _ => .pure _
  | actionWith delegate token =>
      exact (hd.enqueueActionWith (.onOutside delegate)).bind fun _ => .pure _
  | funcTaskWith delegate token =>
      exact (hd.enqueueFuncTaskWith (.onOutside delegate)).bind fun _ => .pure _
  | funcTaskOfWith t delegate token =>
      exact (hd.enqueueFuncTaskOfWith (.onOutside delegate)).bind fun _ => .pure _

/-- A tree and the breakers that exist, its own among them. -/
structure Built (E W : Type) {Ty : Type} (Val : Ty → Type) where
  tree : DispatcherTree E W Val
  breakers : Breakers
  allocated : ∀ i ∈ tree.cells, i < breakers.next

/-- The result of `Clone`, and the breakers that exist after it. -/
def Built.clone (d : Built E W Val) : DispatcherTree E W Val × Breakers :=
  d.tree.clone d.breakers

inductive Side where
  | original | clone
  deriving DecidableEq, Repr

/-- An interleaving of calls on the two. Each side has the world its delegates act
on and its clock is read in, so that only the breakers can carry an effect over. -/
abbrev Interleaving (E W Token : Type) {Ty : Type} (Val : Ty → Type) :=
  List (Side × EnqueueCall E W Token Val)

def Built.side (d : Built E W Val) : Side → DispatcherTree E W Val
  | .original => d.tree
  | .clone => d.clone.1

def Built.schedule (d : Built E W Val) (calls : Interleaving E W Token Val) :
    List (Side × Comp E (Memory ℕ Breaker W) (Answer E Val)) :=
  calls.map fun x => (x.1, x.2.on ((d.side x.1).entries env))

/-- The two sides as they are when `Clone` returns. -/
def Built.clients (d : Built E W Val) (worlds : Side → W) : Clients Side ℕ Breaker W :=
  ⟨d.clone.2.cells, worlds⟩

/-- In every interleaving each side is answered, and its delegates leave its world,
as if the calls of the other side had not been made. -/
def Unaffected (d : Built E W Val) : Prop :=
  ∀ (calls : Interleaving E W Token Val) (worlds : Side → W) (k : Side),
    let own := calls.filter fun x => decide (x.1 = k)
    Clients.answers k (d.schedule env calls) (d.clients worlds) =
      Clients.answers k (d.schedule env own) (d.clients worlds) ∧
    (Clients.after (d.schedule env calls) (d.clients worlds)).worlds k =
      (Clients.after (d.schedule env own) (d.clients worlds)).worlds k

structure IndependentClone (d : Built E W Val) : Prop where
  startsClosed : ∀ i ∈ d.clone.1.cells, (d.clone.2.cells i).state = .closed
  notShared : ∀ i ∈ d.tree.cells, i ∉ d.clone.1.cells
  originalKept : ∀ i ∈ d.tree.cells, d.clone.2.cells i = d.breakers.cells i
  unaffected : Unaffected env d

/-- The tree was made by `Then`. -/
def DispatcherTree.IsComposed : DispatcherTree E W Val → Prop
  | .composedDispatcher _ _ => True
  | _ => False

theorem schedule_filter (d : Built E W Val) (calls : Interleaving E W Token Val) (k : Side) :
    d.schedule env (calls.filter fun x => decide (x.1 = k)) =
      Clients.alone k (d.schedule env calls) := by
  simp only [Built.schedule, Clients.alone, List.filter_map]
  rfl

/-- Sides without a common breaker do not see each other. -/
theorem unaffected_of_notShared {d : Built E W Val}
    (h : ∀ i ∈ d.tree.cells, i ∉ d.clone.1.cells) : Unaffected env d := by
  intro calls worlds k own
  have hwithin : ∀ y ∈ d.schedule env calls, Within {i | i ∈ (d.side y.1).cells} y.2 := by
    intro y hy
    obtain ⟨x, -, rfl⟩ := List.mem_map.mp hy
    exact within_on ((d.side x.1).entriesWithin env fun _ hi => hi) x.2
  have hdisjoint : ∀ j, j ≠ k →
      Disjoint {i | i ∈ (d.side k).cells} {i | i ∈ (d.side j).cells} := by
    intro j hjk
    rw [Set.disjoint_left]
    intro i hk hj
    cases k with
    | original =>
        cases j with
        | original => exact hjk rfl
        | clone => exact h i hk hj
    | clone =>
        cases j with
        | original => exact h i hj hk
        | clone => exact hjk rfl
  have halone := Clients.answers_alone (k := k) (s := d.clients worlds) (t := d.clients worlds)
    (fun y hy hyk => hyk ▸ hwithin y hy)
    (fun y hy hyk => ⟨_, hdisjoint y.1 hyk, hwithin y hy⟩) (.refl _)
  rw [← schedule_filter] at halone
  exact ⟨halone.1, halone.2.outside⟩

theorem clone_single (d : Built E W Val) (hd : ¬ d.tree.IsComposed) :
    (∀ i ∈ d.clone.1.cells, i = d.breakers.next ∧ d.clone.2.cells i = {}) ∧
      ∀ i < d.breakers.next, d.clone.2.cells i = d.breakers.cells i := by
  obtain ⟨tree, breakers, allocated⟩ := d
  cases tree with
  | composedDispatcher first second => exact (hd trivial).elim
  | circuitBreakerDispatcher settings cell =>
      constructor
      · intro i hi
        obtain rfl := List.mem_singleton.mp hi
        exact ⟨rfl, Function.update_self ..⟩
      · intro i hi
        exact Function.update_of_ne hi.ne ..
  | nullDispatcher | retryDispatcher _ _ | retryDispatcherAsync _ _ _ =>
      exact ⟨fun i hi => (List.not_mem_nil hi).elim, fun i _ => rfl⟩

theorem clone_composed (d : Built E W Val) (hd : d.tree.IsComposed) :
    d.clone = (d.tree, d.breakers) := by
  obtain ⟨tree, breakers, allocated⟩ := d
  cases tree with
  | composedDispatcher first second => rfl
  | nullDispatcher | retryDispatcher _ _ | retryDispatcherAsync _ _ _
  | circuitBreakerDispatcher _ _ => exact hd.elim

theorem independent_of_notShared {d : Built E W Val}
    (hnew : ∀ i ∈ d.clone.1.cells, i = d.breakers.next ∧ d.clone.2.cells i = {})
    (hkept : ∀ i < d.breakers.next, d.clone.2.cells i = d.breakers.cells i) :
    IndependentClone env d := by
  have hnotShared : ∀ i ∈ d.tree.cells, i ∉ d.clone.1.cells := fun i hi hclone =>
    (d.allocated i hi).ne (hnew i hclone).1
  constructor
  · intro i hi
    rw [(hnew i hi).2]
  · exact hnotShared
  · exact fun i hi => hkept i (d.allocated i hi)
  · exact unaffected_of_notShared env hnotShared

/-- A clone is independent of its original unless the original is a composition
that contains a breaker. -/
theorem clone_independent_iff (d : Built E W Val) :
    IndependentClone env d ↔ ¬ (d.tree.IsComposed ∧ d.tree.cells ≠ []) := by
  by_cases hd : d.tree.IsComposed
  · have hclone := clone_composed d hd
    constructor
    · intro h ⟨_, hcells⟩
      obtain ⟨i, hi⟩ := List.exists_mem_of_ne_nil _ hcells
      exact h.notShared i hi (by rwa [hclone])
    · intro h
      have hcells : d.tree.cells = [] := not_not.mp fun hne => h ⟨hd, hne⟩
      apply independent_of_notShared
      · intro i hi
        rw [hclone, hcells] at hi
        exact (List.not_mem_nil hi).elim
      · intro i _
        rw [hclone]
  · obtain ⟨hnew, hkept⟩ := clone_single d hd
    exact ⟨fun _ h => hd h.1, fun _ => independent_of_notShared env hnew hkept⟩

/-- A world that counts the delegates run in it; its clock stands still. -/
def countingEnvironment : Environment Unit ℕ Unit where
  none := ()
  throwIfCancellationRequested _ := pure ()
  now w := (0, w)
  delay _ _ := pure ()

/-- `CircuitBreakerPolicy…WithRetryAndTimeout(1, …).Then(NullDispatcher.Instance)`. -/
def breakerThenNull : Built Unit ℕ (fun _ : Unit => Unit) where
  tree := .composedDispatcher
    (.circuitBreakerDispatcher
      { exceptionFilter := fun _ => false
        openBehaviour := .error ()
        openBehaviourReturn := fun _ => .error ()
        threshold := 1
        delay := 10 } 0)
    .nullDispatcher
  breakers := { cells := fun _ => {}, next := 1 }
  allocated := by
    intro i hi
    obtain rfl := List.mem_singleton.mp hi
    exact Nat.zero_lt_one

/-- One failure through the clone, and the original no longer runs its delegate. -/
theorem composition_coupled : ¬ Unaffected countingEnvironment breakerThenNull := by
  intro h
  have hworlds := (h
    [(.clone, .action fun n => (.error (), n + 1)), (.original, .action fun n => (.ok (), n + 1))]
    (fun _ => 0) .original).2
  exact absurd hworlds (by decide)

end ComposableAsync.Resilient
