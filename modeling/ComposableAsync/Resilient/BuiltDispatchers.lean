import ComposableAsync.Resilient.PolicyBuilders

/-!
# Dispatchers and the builders that built them

A dispatcher is faithful if it filters and answers as its builder was configured
when it was built. The open behaviour of a breaker and the wait of a retry
dispatcher are copied, but a `ThrowOnType` filter and a `ReturnBehaviour` keep the
collection of the builder: `And` and `ReturnsWhenOpen` reach the dispatchers that
were built before. Which calls change nothing for them is stated exactly.
-/
namespace ComposableAsync.Resilient
open Foundations

variable {E X W Ty : Type} {Val : Ty → Type} (r : Runtime E X Val)

section Statement
variable [DecidableEq X] [DecidableEq Ty]

/-- Every dispatcher filters and answers as it was configured. -/
def Store.Faithful (s : Store E X W Val) : Prop :=
  ∀ p ∈ s.built, (s.read p.dispatcher).tree r = p.configured.tree r

/-- Faithful before the calls, and after each of them. -/
def Store.FaithfulAlong : List (BuilderCall E X W Val) → Store E X W Val → Prop
  | [], s => s.Faithful r
  | a :: calls, s => s.Faithful r ∧ ∀ t, s.step a = some t → t.FaithfulAlong calls

def PolicyDispatcher.filter {S D : Type} : PolicyDispatcher E X W S D → ExceptionFilter E X S
  | .retry filter _ _ => filter
  | .circuitBreaker filter _ _ _ _ _ => filter

def PolicyDispatcher.AnswersFrom {S D : Type} (values : D) (useDefault : Bool) :
    PolicyDispatcher E X W S D → Prop
  | .retry _ _ _ => False
  | .circuitBreaker _ _ openBehaviourReturn _ _ _ =>
      openBehaviourReturn = .returnBehaviour values useDefault

/-- Whatever `And<T>` adds to the set is caught already, if a dispatcher reads the set. -/
def Store.SparesFilters (s : Store E X W Val) (type : ℕ) (t : X) : Prop :=
  ∀ p ∈ s.built, p.dispatcher.filter = .throwOnType type →
    ∀ exception, r.isInstance exception t = true →
      ∃ u ∈ s.hashSets type, r.isInstance exception u = true

/-- Every dispatcher that reads the dictionary answers `value` already. -/
def Store.SparesAnswers (s : Store E X W Val) (values : ℕ) (t : Ty) (value : Val t) : Prop :=
  ∀ p ∈ s.built, ∀ useDefault, p.dispatcher.AnswersFrom values useDefault →
    (s.dictionaries values).lookup t = some value ∨
      (s.dictionaries values).lookup t = none ∧ useDefault = true ∧ value = r.default t

/-- The call leaves the built dispatchers as they are. -/
def Store.Harmless (s : Store E X W Val) : BuilderCall E X W Val → Prop
  | .call i (.and t) => ∀ type,
      s.builders[i]? = some (.retryWithType type) ∨
        s.builders[i]? = some (.circuitBreakerWithType type) → s.SparesFilters r type t
  | .call i (.returnsWhenOpen t value) => ∀ filter openBehaviour values useDefault,
      s.builders[i]? = some (.circuitBreakerWithOpenPolicy filter openBehaviour values useDefault) →
        s.SparesAnswers r values t value
  | _ => True

def Store.HarmlessAlong : List (BuilderCall E X W Val) → Store E X W Val → Prop
  | [], _ => True
  | a :: calls, s => ∀ t, s.step a = some t → s.Harmless r a ∧ t.HarmlessAlong calls

end Statement

def ExceptionFilter.Below (n : ℕ) : ExceptionFilter E X ℕ → Prop
  | .throwOnType types => types < n
  | _ => True

def OpenBehaviourReturn.Below (n : ℕ) : OpenBehaviourReturn ℕ → Prop
  | .throwReturn => True
  | .returnBehaviour values _ => values < n

def PolicyDispatcher.Below (n : ℕ) : PolicyDispatcher E X W ℕ ℕ → Prop
  | .retry filter _ _ => filter.Below n
  | .circuitBreaker filter _ openBehaviourReturn _ _ _ =>
      filter.Below n ∧ openBehaviourReturn.Below n

def Builder.Below (n : ℕ) : Builder E X W → Prop
  | .retryWithType type | .circuitBreakerWithType type => type < n
  | .retryWithWait filter | .retry filter _ => filter.Below n
  | .circuitBreakerWithOpenPolicy filter _ values _ => filter.Below n ∧ values < n

/-- Nothing refers to a collection that is not there yet. -/
structure Store.Allocated (s : Store E X W Val) : Prop where
  builders : ∀ b ∈ s.builders, b.Below s.next
  built : ∀ p ∈ s.built, p.dispatcher.Below s.next

theorem ExceptionFilter.Below.mono {f : ExceptionFilter E X ℕ} {n m : ℕ} (h : f.Below n)
    (hnm : n ≤ m) : f.Below m := by
  cases f with
  | throwOnType types => exact lt_of_lt_of_le h hnm
  | noThrow | predicateExceptionFilter _ | predicateExceptionFilterOf _ _ => trivial

theorem OpenBehaviourReturn.Below.mono {b : OpenBehaviourReturn ℕ} {n m : ℕ} (h : b.Below n)
    (hnm : n ≤ m) : b.Below m := by
  cases b with
  | throwReturn => trivial
  | returnBehaviour values useDefault => exact lt_of_lt_of_le h hnm

theorem PolicyDispatcher.Below.mono {d : PolicyDispatcher E X W ℕ ℕ} {n m : ℕ} (h : d.Below n)
    (hnm : n ≤ m) : d.Below m := by
  cases d with
  | retry _ _ _ => exact ExceptionFilter.Below.mono h hnm
  | circuitBreaker _ _ _ _ _ _ => exact ⟨h.1.mono hnm, h.2.mono hnm⟩

theorem Builder.Below.mono {b : Builder E X W} {n m : ℕ} (h : b.Below n) (hnm : n ≤ m) :
    b.Below m := by
  cases b with
  | retryWithType _ | circuitBreakerWithType _ => exact lt_of_lt_of_le h hnm
  | retryWithWait _ | retry _ _ => exact ExceptionFilter.Below.mono h hnm
  | circuitBreakerWithOpenPolicy _ _ _ _ => exact ⟨h.1.mono hnm, lt_of_lt_of_le h.2 hnm⟩

theorem return_below {address n : ℕ} (h : address < n) (contents : AList Val) (useDefault : Bool) :
    (OpenBehaviourReturn.return address contents useDefault).Below n := by
  unfold OpenBehaviourReturn.return
  split
  · trivial
  · exact h

section Filters
variable [DecidableEq X]

theorem throwOnType_isFiltered {types : Finset X} {exception : E} :
    (ExceptionFilter.throwOnType types).isFiltered r exception = true ↔
      ∀ t ∈ types, r.isInstance exception t = false := by
  simp only [ExceptionFilter.isFiltered, Runtime.isInstance, decide_eq_true_eq,
    Bool.or_eq_false_iff, decide_eq_false_iff_not, ne_eq, @eq_comm X (r.getType exception)]

theorem isFiltered_insert {types : Finset X} {t : X} :
    (ExceptionFilter.throwOnType (insert t types)).isFiltered r =
        (ExceptionFilter.throwOnType types).isFiltered r ↔
      ∀ exception, r.isInstance exception t = true →
        ∃ u ∈ types, r.isInstance exception u = true := by
  constructor
  · intro h exception ht
    by_contra hnone
    have hfiltered : (ExceptionFilter.throwOnType types).isFiltered r exception = true := by
      rw [throwOnType_isFiltered]
      intro u hu
      exact Bool.eq_false_iff.mpr fun hcaught => hnone ⟨u, hu, hcaught⟩
    rw [← h, throwOnType_isFiltered] at hfiltered
    rw [hfiltered t (Finset.mem_insert_self t types)] at ht
    cases ht
  · intro h
    funext exception
    rw [Bool.eq_iff_iff, throwOnType_isFiltered, throwOnType_isFiltered]
    constructor
    · intro hall u hu
      exact hall u (Finset.mem_insert_of_mem hu)
    · intro hall u hu
      obtain rfl | hu := Finset.mem_insert.mp hu
      · refine Bool.eq_false_iff.mpr fun hcaught => ?_
        obtain ⟨v, hv, hinstance⟩ := h exception hcaught
        rw [hall v hv] at hinstance
        cases hinstance
      · exact hall u hu

theorem filter_add (hashSets : ℕ → Finset X) (f : ExceptionFilter E X ℕ) (type : ℕ) (t : X) :
    (f.map (Function.update hashSets type (insert t (hashSets type)))).isFiltered r =
        (f.map hashSets).isFiltered r ↔
      (f = .throwOnType type → ∀ exception, r.isInstance exception t = true →
        ∃ u ∈ hashSets type, r.isInstance exception u = true) := by
  cases f with
  | noThrow | predicateExceptionFilter _ | predicateExceptionFilterOf _ _ =>
      exact ⟨fun _ h => (by cases h), fun _ => rfl⟩
  | throwOnType u =>
      by_cases hu : u = type
      · subst hu
        rw [ExceptionFilter.map, Function.update_self, ExceptionFilter.map, isFiltered_insert]
        exact ⟨fun h _ => h, fun h => h rfl⟩
      · rw [ExceptionFilter.map, Function.update_of_ne hu, ExceptionFilter.map]
        exact ⟨fun _ h => (hu (ExceptionFilter.throwOnType.inj h)).elim, fun _ => rfl⟩

end Filters

section Answers
variable [DecidableEq Ty]

theorem onOpen_insert {values : AList Val} {useDefault : Bool} {t : Ty} {value : Val t} :
    (OpenBehaviourReturn.returnBehaviour (values.insert t value) useDefault).onOpen r =
        (OpenBehaviourReturn.returnBehaviour values useDefault).onOpen r ↔
      values.lookup t = some value ∨
        values.lookup t = none ∧ useDefault = true ∧ value = r.default t := by
  constructor
  · intro h
    have ht := congrFun h t
    simp only [OpenBehaviourReturn.onOpen, AList.lookup_insert] at ht
    cases hlookup : values.lookup t with
    | some res =>
        rw [hlookup] at ht
        cases ht
        exact .inl rfl
    | none =>
        rw [hlookup] at ht
        cases useDefault with
        | false => cases ht
        | true =>
            cases ht
            exact .inr ⟨rfl, rfl, rfl⟩
  · intro h
    funext u
    by_cases hu : u = t
    · subst hu
      simp only [OpenBehaviourReturn.onOpen, AList.lookup_insert]
      obtain hlookup | ⟨hlookup, rfl, rfl⟩ := h
      · rw [hlookup]
      · rw [hlookup]
        rfl
    · simp only [OpenBehaviourReturn.onOpen, AList.lookup_insert_ne hu]

/-- `OpenBehaviors.Return` answers from the dictionary, the default or neither, also
where it decides for `ThrowReturn`. -/
theorem return_onOpen (address : ℕ) (dictionaries : ℕ → AList Val) (useDefault : Bool) :
    ((OpenBehaviourReturn.return address (dictionaries address) useDefault).map dictionaries).onOpen r =
      (OpenBehaviourReturn.returnBehaviour (dictionaries address) useDefault).onOpen r := by
  unfold OpenBehaviourReturn.return
  split
  · rename_i hempty
    simp only [Bool.and_eq_true, Bool.not_eq_true', beq_iff_eq, List.length_eq_zero_iff] at hempty
    obtain ⟨rfl, hentries⟩ := hempty
    have hvalues : dictionaries address = ∅ := AList.ext hentries
    funext t
    simp only [OpenBehaviourReturn.map, OpenBehaviourReturn.onOpen, hvalues, AList.lookup_empty,
      Bool.false_eq_true, if_false]
  · rfl

theorem answers_assign (dictionaries : ℕ → AList Val) (b : OpenBehaviourReturn ℕ) (values : ℕ)
    (t : Ty) (value : Val t) :
    (b.map (Function.update dictionaries values ((dictionaries values).insert t value))).onOpen r =
        (b.map dictionaries).onOpen r ↔
      ∀ useDefault, b = .returnBehaviour values useDefault →
        (dictionaries values).lookup t = some value ∨
          (dictionaries values).lookup t = none ∧ useDefault = true ∧ value = r.default t := by
  cases b with
  | throwReturn => exact ⟨fun _ _ h => (by cases h), fun _ => rfl⟩
  | returnBehaviour u useDefault =>
      by_cases hu : u = values
      · subst hu
        rw [OpenBehaviourReturn.map, Function.update_self, OpenBehaviourReturn.map, onOpen_insert]
        constructor
        · intro h _ hb
          cases hb
          exact h
        · intro h
          exact h useDefault rfl
      · rw [OpenBehaviourReturn.map, Function.update_of_ne hu, OpenBehaviourReturn.map]
        exact ⟨fun _ _ hb => (hu (OpenBehaviourReturn.returnBehaviour.inj hb).1).elim, fun _ => rfl⟩

end Answers

variable [DecidableEq X] [DecidableEq Ty] {s t : Store E X W Val} {i : ℕ}

theorem tree_add (d : PolicyDispatcher E X W ℕ ℕ) (type : ℕ) (t : X) :
    ((s.add type t).read d).tree r = (s.read d).tree r ↔
      (d.filter = .throwOnType type → ∀ exception, r.isInstance exception t = true →
        ∃ u ∈ s.hashSets type, r.isInstance exception u = true) := by
  cases d with
  | retry filter timeOutProvider maxRetry =>
      rw [PolicyDispatcher.filter, ← filter_add r s.hashSets]
      cases timeOutProvider with
      | none =>
          simp only [Store.read, Store.add, PolicyDispatcher.map, PolicyDispatcher.tree,
            DispatcherTree.retryDispatcher.injEq, and_true]
      | some provider =>
          simp only [Store.read, Store.add, PolicyDispatcher.map, PolicyDispatcher.tree,
            DispatcherTree.retryDispatcherAsync.injEq, and_true]
  | circuitBreaker filter openBehaviour openBehaviourReturn attempts timeout cell =>
      rw [PolicyDispatcher.filter, ← filter_add r s.hashSets]
      simp only [Store.read, Store.add, PolicyDispatcher.map, PolicyDispatcher.tree,
        DispatcherTree.circuitBreakerDispatcher.injEq, Settings.mk.injEq, and_true]

theorem tree_assign (d : PolicyDispatcher E X W ℕ ℕ) (values : ℕ) (t : Ty) (value : Val t) :
    ((s.assign values t value).read d).tree r = (s.read d).tree r ↔
      ∀ useDefault, d.AnswersFrom values useDefault →
        (s.dictionaries values).lookup t = some value ∨
          (s.dictionaries values).lookup t = none ∧ useDefault = true ∧ value = r.default t := by
  cases d with
  | retry filter timeOutProvider maxRetry =>
      have hread : (s.assign values t value).read (.retry filter timeOutProvider maxRetry) =
          s.read (.retry filter timeOutProvider maxRetry) := rfl
      rw [hread]
      exact ⟨fun _ _ h => h.elim, fun _ => rfl⟩
  | circuitBreaker filter openBehaviour openBehaviourReturn attempts timeout cell =>
      simp only [Store.read, Store.assign, PolicyDispatcher.map, PolicyDispatcher.tree,
        DispatcherTree.circuitBreakerDispatcher.injEq, Settings.mk.injEq, and_true, true_and]
      exact answers_assign r s.dictionaries openBehaviourReturn values t value

/-- Everything that is there stays as it is; at most one dispatcher is new, and
faithful. -/
structure Store.Extends (s t : Store E X W Val) : Prop where
  next_le : s.next ≤ t.next
  hashSets : ∀ i < s.next, t.hashSets i = s.hashSets i
  dictionaries : ∀ i < s.next, t.dictionaries i = s.dictionaries i
  builders : ∀ b ∈ t.builders, b ∈ s.builders ∨ b.Below t.next
  built : ∀ p ∈ t.built, p ∈ s.built ∨
    p.dispatcher.Below t.next ∧ (t.read p.dispatcher).tree r = p.configured.tree r
  kept : ∀ p ∈ s.built, p ∈ t.built

variable {r}

theorem Store.Extends.refl (s : Store E X W Val) : s.Extends r s :=
  ⟨le_refl _, fun _ _ => rfl, fun _ _ => rfl, fun _ => .inl, fun _ => .inl, fun _ h => h⟩

theorem Store.Extends.push (h : s.Extends r t) {b : Builder E X W} (hb : b.Below t.next) :
    s.Extends r (t.push b) := by
  refine { h with builders := ?_ }
  intro c hc
  obtain hc | hc := List.mem_append.mp hc
  · exact h.builders c hc
  · obtain rfl := List.mem_singleton.mp hc
    exact .inr hb

theorem Store.Extends.replace (h : s.Extends r t) {b : Builder E X W} (hb : b.Below t.next) :
    s.Extends r (t.replace i b) := by
  refine { h with builders := ?_ }
  intro c hc
  obtain hc | rfl := List.mem_or_eq_of_mem_set hc
  · exact h.builders c hc
  · exact .inr hb

theorem extends_newCollection (types : Finset X) (values : AList Val) :
    s.Extends r (s.newCollection types values) where
  next_le := Nat.le_succ _
  hashSets _ hi := Function.update_of_ne hi.ne ..
  dictionaries _ hi := Function.update_of_ne hi.ne ..
  builders _ := .inl
  built _ := .inl
  kept _ h := h

theorem Store.Extends.build (h : s.Extends r t) (hbuilt : t.built = s.built)
    {p : Product E X W Val} (hp : p.dispatcher.Below t.next)
    (hread : (t.read p.dispatcher).tree r = p.configured.tree r) :
    s.Extends r { t with built := t.built ++ [p] } := by
  refine { h with built := ?_, kept := ?_ }
  · intro q hq
    obtain hq | hq := List.mem_append.mp hq
    · exact .inl (hbuilt ▸ hq)
    · obtain rfl := List.mem_singleton.mp hq
      exact .inr ⟨hp, hread⟩
  · intro q hq
    exact List.mem_append_left _ (hbuilt ▸ hq)

theorem Store.Extends.buildRetry (h : s.Extends r t) (hbuilt : t.built = s.built)
    {filter : ExceptionFilter E X ℕ} (hf : filter.Below t.next)
    (timeOutProvider : Option (Int32 → Comp E W ℤ)) (max : Int32) :
    s.Extends r (t.buildRetry filter timeOutProvider max) := h.build hbuilt hf rfl

theorem Store.Extends.buildCircuitBreaker (h : s.Extends r t) (hbuilt : t.built = s.built)
    {filter : ExceptionFilter E X ℕ} (hf : filter.Below t.next) {values : ℕ}
    (hv : values < t.next) (openBehaviour : Option OpenBehaviourVoid) (useDefault : Bool)
    (attempts : Int32) (timeout : ℤ) :
    s.Extends r (t.buildCircuitBreaker filter openBehaviour values useDefault attempts timeout) := by
  refine h.build hbuilt ⟨hf, return_below hv _ _⟩ ?_
  simp only [Store.read, PolicyDispatcher.map, PolicyDispatcher.tree, return_onOpen]

theorem extends_newOpenPolicy {filter : ExceptionFilter E X ℕ} (hf : filter.Below s.next)
    (openBehaviour : Option OpenBehaviourVoid) (values : AList Val) (useDefault : Bool) :
    s.Extends r (s.newOpenPolicy filter openBehaviour values useDefault) :=
  (extends_newCollection ∅ values).push ⟨hf.mono (Nat.le_succ _), Nat.lt_succ_self _⟩

theorem extends_create (factory : Factory E X) : s.Extends r (s.create factory) := by
  cases factory with
  | retryFor t | circuitBreakerFor t => exact (extends_newCollection _ _).push (Nat.lt_succ_self _)
  | retryForAllException | retryForPredicate _ _ | retryForException _ =>
      exact (Store.Extends.refl s).push trivial
  | circuitBreakerForAllException | circuitBreakerForPredicate _ _ | circuitBreakerForException _ =>
      refine extends_newOpenPolicy ?_ _ _ _
      trivial

/-- The three things a call can do. -/
inductive Store.Effect (r : Runtime E X Val) (s : Store E X W Val) :
    BuilderCall E X W Val → Store E X W Val → Prop
  | add {i type t} : s.builders[i]? = some (.retryWithType type) ∨
      s.builders[i]? = some (.circuitBreakerWithType type) →
      Effect r s (.call i (.and t)) (s.add type t)
  | assign {i filter openBehaviour values useDefault t value} :
      s.builders[i]? = some (.circuitBreakerWithOpenPolicy filter openBehaviour values useDefault) →
      Effect r s (.call i (.returnsWhenOpen t value)) (s.assign values t value)
  | extend {a t} : s.Harmless r a → s.Extends r t → Effect r s a t

theorem invoke_effect (hs : s.Allocated) {b : Builder E X W} (hb : s.builders[i]? = some b)
    {method : Method E X W Val} (h : s.invoke i b method = some t) :
    s.Effect r (.call i method) t := by
  have hbelow : b.Below s.next := hs.builders b (List.mem_of_getElem? hb)
  have hpolicy : ∀ {type : ℕ}, type < s.next →
      (ExceptionFilter.throwOnType type : ExceptionFilter E X ℕ).Below s.next := fun h => h
  cases b with
  | retryWithType type =>
      cases method with
      | and t =>
          cases h
          exact .add (.inl hb)
      | withWaitBetweenRetry timeOutProvider =>
          cases h
          exact .extend trivial ((Store.Extends.refl s).push hbelow)
      | forEver | withMaxRetry _ =>
          cases h
          exact .extend trivial ((Store.Extends.refl s).buildRetry rfl (hpolicy hbelow) _ _)
      | _ => cases h
  | retryWithWait filter =>
      cases method with
      | withWaitBetweenRetry timeOutProvider =>
          cases h
          exact .extend trivial ((Store.Extends.refl s).push hbelow)
      | forEver | withMaxRetry _ =>
          cases h
          exact .extend trivial ((Store.Extends.refl s).buildRetry rfl hbelow _ _)
      | _ => cases h
  | retry filter timeOutProvider =>
      cases method with
      | forEver | withMaxRetry _ =>
          cases h
          exact .extend trivial ((Store.Extends.refl s).buildRetry rfl hbelow _ _)
      | _ => cases h
  | circuitBreakerWithType type =>
      cases method with
      | and t =>
          cases h
          exact .add (.inr hb)
      | withRetryAndTimeout attempts timeout =>
          cases h
          refine .extend trivial ((extends_newCollection ∅ ∅).buildCircuitBreaker rfl ?_
            (Nat.lt_succ_self _) _ _ _ _)
          exact (hpolicy hbelow).mono (Nat.le_succ _)
      | returnsWhenOpen t value =>
          cases h
          refine .extend ?_ (extends_newOpenPolicy (hpolicy hbelow) _ _ _)
          intro filter openBehaviour values useDefault hother
          rw [hb] at hother
          cases hother
      | returnsDefaultWhenOpen | doNotThrowForVoid =>
          cases h
          exact .extend trivial (extends_newOpenPolicy (hpolicy hbelow) _ _ _)
      | _ => cases h
  | circuitBreakerWithOpenPolicy filter openBehaviour values useDefault =>
      cases method with
      | withRetryAndTimeout attempts timeout =>
          cases h
          exact .extend trivial
            ((Store.Extends.refl s).buildCircuitBreaker rfl hbelow.1 hbelow.2 _ _ _ _)
      | returnsWhenOpen t value =>
          cases h
          exact .assign hb
      | returnsDefaultWhenOpen | doNotThrowForVoid =>
          cases h
          exact .extend trivial ((Store.Extends.refl s).replace hbelow)
      | _ => cases h

variable {a : BuilderCall E X W Val}

theorem Store.step_effect (hs : s.Allocated) (h : s.step a = some t) : s.Effect r a t := by
  cases a with
  | create factory =>
      cases h
      exact .extend trivial (extends_create factory)
  | call i method =>
      obtain ⟨b, hb, hinvoke⟩ := Option.bind_eq_some_iff.mp h
      exact invoke_effect hs hb hinvoke

theorem Store.Effect.allocated (hs : s.Allocated) (h : s.Effect r a t) : t.Allocated := by
  cases h with
  | add _ => exact ⟨hs.builders, hs.built⟩
  | assign _ => exact ⟨hs.builders, hs.built⟩
  | extend _ h =>
      constructor
      · intro b hb
        obtain hold | hnew := h.builders b hb
        · exact (hs.builders b hold).mono h.next_le
        · exact hnew
      · intro p hp
        obtain hold | hnew := h.built p hp
        · exact (hs.built p hold).mono h.next_le
        · exact hnew.1

theorem Store.Extends.read (h : s.Extends r t) {d : PolicyDispatcher E X W ℕ ℕ}
    (hd : d.Below s.next) : t.read d = s.read d := by
  have hfilter : ∀ f : ExceptionFilter E X ℕ, f.Below s.next →
      f.map t.hashSets = f.map s.hashSets := by
    intro f hf
    cases f with
    | throwOnType types => rw [ExceptionFilter.map, h.hashSets types hf, ExceptionFilter.map]
    | noThrow | predicateExceptionFilter _ | predicateExceptionFilterOf _ _ => rfl
  cases d with
  | retry filter timeOutProvider maxRetry =>
      simp only [Store.read, PolicyDispatcher.map, hfilter filter hd]
  | circuitBreaker filter openBehaviour openBehaviourReturn attempts timeout cell =>
      have hanswers : openBehaviourReturn.map t.dictionaries =
          openBehaviourReturn.map s.dictionaries := by
        cases openBehaviourReturn with
        | throwReturn => rfl
        | returnBehaviour values useDefault =>
            rw [OpenBehaviourReturn.map, h.dictionaries values hd.2, OpenBehaviourReturn.map]
      simp only [Store.read, PolicyDispatcher.map, hfilter filter hd.1, hanswers]

/-- A call leaves every dispatcher faithful exactly when it is harmless. -/
theorem Store.Effect.faithful_iff (hs : s.Allocated) (hf : s.Faithful r) (h : s.Effect r a t) :
    t.Faithful r ↔ s.Harmless r a := by
  cases h with
  | @add i type u hb =>
      have hspares : (s.add type u).Faithful r ↔ s.SparesFilters r type u :=
        forall₂_congr fun p hp => by rw [← hf p hp, tree_add]
      rw [hspares]
      constructor
      · intro hspares type' hb'
        have htype : type' = type := by
          obtain hb | hb := hb
          · simpa [hb, eq_comm] using hb'
          · simpa [hb, eq_comm] using hb'
        exact htype ▸ hspares
      · intro hharmless
        exact hharmless type hb
  | @assign i filter openBehaviour values useDefault u value hb =>
      have hspares : (s.assign values u value).Faithful r ↔ s.SparesAnswers r values u value :=
        forall₂_congr fun p hp => by rw [← hf p hp, tree_assign]
      rw [hspares]
      constructor
      · intro hspares filter' openBehaviour' values' useDefault' hb'
        rw [hb] at hb'
        cases hb'
        exact hspares
      · intro hharmless
        exact hharmless filter openBehaviour values useDefault hb
  | extend hharmless h =>
      refine ⟨fun _ => hharmless, fun _ p hp => ?_⟩
      obtain hold | hnew := h.built p hp
      · rw [h.read (hs.built p hold)]
        exact hf p hold
      · exact hnew.2

theorem Store.FaithfulAlong.now {calls : List (BuilderCall E X W Val)}
    (h : s.FaithfulAlong r calls) : s.Faithful r := by
  cases calls with
  | nil => exact h
  | cons a calls => exact h.1

theorem faithfulAlong_iff (calls : List (BuilderCall E X W Val)) (hs : s.Allocated)
    (hf : s.Faithful r) : s.FaithfulAlong r calls ↔ s.HarmlessAlong r calls := by
  induction calls generalizing s with
  | nil => exact ⟨fun _ => trivial, fun _ => hf⟩
  | cons a calls ih =>
      constructor
      · intro h t ht
        have heffect : s.Effect r a t := Store.step_effect hs ht
        have hnow := (h.2 t ht).now
        exact ⟨(heffect.faithful_iff hs hf).mp hnow, (ih (heffect.allocated hs) hnow).mp (h.2 t ht)⟩
      · intro h
        refine ⟨hf, fun t ht => ?_⟩
        have heffect : s.Effect r a t := Store.step_effect hs ht
        obtain ⟨hharmless, hrest⟩ := h t ht
        exact (ih (heffect.allocated hs) ((heffect.faithful_iff hs hf).mpr hharmless)).mpr hrest

variable (r)

/-- In a run of calls on any builders, every built dispatcher filters and answers
by what was configured before it was built, at every later moment, exactly when no
call of the run widens a set or changes an answer that a built dispatcher reads. -/
theorem built_faithful_iff (calls : List (BuilderCall E X W Val)) :
    ({} : Store E X W Val).FaithfulAlong r calls ↔ ({} : Store E X W Val).HarmlessAlong r calls := by
  refine faithfulAlong_iff calls ⟨?_, ?_⟩ ?_
  · intro b hb
    exact (List.not_mem_nil hb).elim
  · intro p hp
    exact (List.not_mem_nil hp).elim
  · intro p hp
    exact (List.not_mem_nil hp).elim

/-- Two exception types without a common base but `Exception`, one exception of
each, and results that are natural numbers. -/
def twoTypes : Runtime Bool Bool (fun _ : Unit => ℕ) where
  getType exception := exception
  isSubclassOf _ _ := false
  circuitBreakerOpenException := false
  default _ := 0

/-- `For<A>()`, `WithMaxRetry(1)`, then `And<B>()`: the dispatcher now retries on `B`.
`ForAllException()`, `ReturnsWhenOpen(1)`, `WithRetryAndTimeout(…)`, then
`ReturnsWhenOpen(2)`: the breaker now answers 2. -/
theorem built_changed :
    ¬ ({} : Store Bool Bool Unit (fun _ : Unit => ℕ)).FaithfulAlong twoTypes
      [.create (.retryFor true), .call 0 (.withMaxRetry 1), .call 0 (.and false)] ∧
    ¬ ({} : Store Bool Bool Unit (fun _ : Unit => ℕ)).FaithfulAlong twoTypes
      [.create .circuitBreakerForAllException, .call 0 (.returnsWhenOpen () 1),
        .call 0 (.withRetryAndTimeout 1 10), .call 0 (.returnsWhenOpen () 2)] := by
  constructor
  · intro h
    have hlast := ((h.2 _ rfl).2 _ rfl).2 _ rfl
    have htree := hlast _ List.mem_cons_self
    injection htree with hfilter _
    exact absurd (congrFun hfilter false) (by decide)
  · intro h
    have hlast := (((h.2 _ rfl).2 _ rfl).2 _ rfl).2 _ rfl
    have htree := hlast _ List.mem_cons_self
    injection htree with hsettings _
    injection hsettings with _ _ hanswers _ _
    have hanswer := congrFun hanswers ()
    injection hanswer with hvalue
    exact absurd hvalue (by decide)

end ComposableAsync.Resilient
