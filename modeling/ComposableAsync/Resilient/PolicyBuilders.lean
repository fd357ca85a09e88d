import ComposableAsync.Resilient.DispatcherTree
import Mathlib.Data.Finset.Insert
import Mathlib.Data.List.AList

/-!
# The policy builders

`RetryPolicy`, `CircuitBreakerPolicy` and the builders they return. A `HashSet`
and a `Dictionary` are cells of the store, and what refers to one holds its
address: a filter and an open behaviour are written once, over addresses as the
objects hold them and over the contents as a call sees them.

A built dispatcher is kept next to its configuration, the contents and flags the
builder had when it was built.
-/
namespace ComposableAsync.Resilient
open Foundations

/-- What the policies use of the runtime: the class of an exception, `default(T)`. -/
structure Runtime (E X : Type) {Ty : Type} (Val : Ty → Type) where
  getType : E → X
  isSubclassOf : X → X → Bool
  circuitBreakerOpenException : E
  default : (t : Ty) → Val t

variable {E X W Ty S D : Type} {Val : Ty → Type} (r : Runtime E X Val)

/-- `exception is T`. -/
def Runtime.isInstance [DecidableEq X] (exception : E) (t : X) : Bool :=
  r.getType exception = t || r.isSubclassOf (r.getType exception) t

/-- `NoThrow`, the two `PredicateExceptionFilter`s, and `ThrowOnType`. -/
inductive ExceptionFilter (E X S : Type) where
  | noThrow
  | predicateExceptionFilter (predicate : E → Bool)
  | predicateExceptionFilterOf (t : X) (predicate : E → Bool)
  | throwOnType (types : S)

def ExceptionFilter.isFiltered [DecidableEq X] :
    ExceptionFilter E X (Finset X) → E → Bool
  | .noThrow, _ => false
  | .predicateExceptionFilter predicate, exception => !predicate exception
  | .predicateExceptionFilterOf t predicate, exception =>
      if r.isInstance exception t then !predicate exception else true
  | .throwOnType types, exception =>
      decide (∀ t ∈ types, t ≠ r.getType exception ∧
        r.isSubclassOf (r.getType exception) t = false)

def ExceptionFilter.map {S' : Type} (f : S → S') : ExceptionFilter E X S → ExceptionFilter E X S'
  | .noThrow => .noThrow
  | .predicateExceptionFilter predicate => .predicateExceptionFilter predicate
  | .predicateExceptionFilterOf t predicate => .predicateExceptionFilterOf t predicate
  | .throwOnType types => .throwOnType (f types)

inductive OpenBehaviourVoid where
  | throwVoid | noThrowVoid
  deriving DecidableEq, Repr

def OpenBehaviourVoid.onOpen : OpenBehaviourVoid → Except E Unit
  | .throwVoid => .error r.circuitBreakerOpenException
  | .noThrowVoid => .ok ()

inductive OpenBehaviourReturn (D : Type) where
  | throwReturn
  | returnBehaviour (values : D) (useDefault : Bool)

def OpenBehaviourReturn.onOpen [DecidableEq Ty] :
    OpenBehaviourReturn (AList Val) → (t : Ty) → Except E (Val t)
  | .throwReturn, _ => .error r.circuitBreakerOpenException
  | .returnBehaviour values useDefault, t =>
      match values.lookup t with
      | some res => .ok res
      | none => if useDefault then .ok (r.default t) else .error r.circuitBreakerOpenException

def OpenBehaviourReturn.map {D' : Type} (f : D → D') :
    OpenBehaviourReturn D → OpenBehaviourReturn D'
  | .throwReturn => .throwReturn
  | .returnBehaviour values useDefault => .returnBehaviour (f values) useDefault

/-- `OpenBehaviors.Return`: the dictionary is looked at once, then kept. -/
def OpenBehaviourReturn.return (values : D) (contents : AList Val) (useDefault : Bool) :
    OpenBehaviourReturn D :=
  if !useDefault && contents.entries.length == 0 then .throwReturn
  else .returnBehaviour values useDefault

/-- What a builder builds. A breaker has the cell `cell`. -/
inductive PolicyDispatcher (E X W S D : Type) where
  | retry (filter : ExceptionFilter E X S) (timeOutProvider : Option (Int32 → Comp E W ℤ))
      (maxRetry : Int32)
  | circuitBreaker (filter : ExceptionFilter E X S) (openBehaviour : OpenBehaviourVoid)
      (openBehaviourReturn : OpenBehaviourReturn D) (attemptsBeforeOpen : Int32)
      (timeoutBeforeRetry : ℤ) (cell : ℕ)

def PolicyDispatcher.map {S' D' : Type} (f : S → S') (g : D → D') :
    PolicyDispatcher E X W S D → PolicyDispatcher E X W S' D'
  | .retry filter timeOutProvider maxRetry => .retry (filter.map f) timeOutProvider maxRetry
  | .circuitBreaker filter openBehaviour openBehaviourReturn attempts timeout cell =>
      .circuitBreaker (filter.map f) openBehaviour (openBehaviourReturn.map g) attempts timeout cell

/-- The dispatcher as it filters and answers. -/
def PolicyDispatcher.tree [DecidableEq X] [DecidableEq Ty] :
    PolicyDispatcher E X W (Finset X) (AList Val) → DispatcherTree E W Val
  | .retry filter none maxRetry => .retryDispatcher (filter.isFiltered r) maxRetry
  | .retry filter (some timeOutProvider) maxRetry =>
      .retryDispatcherAsync (filter.isFiltered r) timeOutProvider maxRetry
  | .circuitBreaker filter openBehaviour openBehaviourReturn attempts timeout cell =>
      .circuitBreakerDispatcher
        { exceptionFilter := filter.isFiltered r
          openBehaviour := openBehaviour.onOpen r
          openBehaviourReturn := openBehaviourReturn.onOpen r
          threshold := attempts
          delay := timeout } cell

/-- The builders. `CircuitBreakerBuilder` is only made to be called at once. -/
inductive Builder (E X W : Type) where
  | retryWithType (type : ℕ)
  | retryWithWait (filter : ExceptionFilter E X ℕ)
  | retry (filter : ExceptionFilter E X ℕ) (timeOutProvider : Option (Int32 → Comp E W ℤ))
  | circuitBreakerWithType (type : ℕ)
  | circuitBreakerWithOpenPolicy (filter : ExceptionFilter E X ℕ)
      (openBehaviour : Option OpenBehaviourVoid) (values : ℕ) (useDefault : Bool)

/-- A dispatcher, and what its builder was configured with. -/
structure Product (E X W : Type) {Ty : Type} (Val : Ty → Type) where
  dispatcher : PolicyDispatcher E X W ℕ ℕ
  configured : PolicyDispatcher E X W (Finset X) (AList Val)

/-- `next` is the address of the next collection. -/
structure Store (E X W : Type) {Ty : Type} (Val : Ty → Type) where
  hashSets : ℕ → Finset X := fun _ => ∅
  dictionaries : ℕ → AList Val := fun _ => ∅
  next : ℕ := 0
  builders : List (Builder E X W) := []
  built : List (Product E X W Val) := []

namespace Store
variable [DecidableEq X] [DecidableEq Ty] (s : Store E X W Val)

/-- A dispatcher over the contents its collections have now. -/
def read (d : PolicyDispatcher E X W ℕ ℕ) : PolicyDispatcher E X W (Finset X) (AList Val) :=
  d.map s.hashSets s.dictionaries

/-- `_Type.Add(typeof(T))`. -/
def add (type : ℕ) (t : X) : Store E X W Val :=
  { s with hashSets := Function.update s.hashSets type (insert t (s.hashSets type)) }

/-- `_Values[typeof(T)] = value`. -/
def assign (values : ℕ) (t : Ty) (value : Val t) : Store E X W Val :=
  { s with
    dictionaries := Function.update s.dictionaries values ((s.dictionaries values).insert t value) }

/-- A collection of its own for the builder that is being made. -/
def newCollection (types : Finset X) (values : AList Val) : Store E X W Val :=
  { s with
    hashSets := Function.update s.hashSets s.next types
    dictionaries := Function.update s.dictionaries s.next values
    next := s.next + 1 }

def push (b : Builder E X W) : Store E X W Val := { s with builders := s.builders ++ [b] }

/-- A builder changes a field of its own and returns itself. -/
def replace (i : ℕ) (b : Builder E X W) : Store E X W Val :=
  { s with builders := s.builders.set i b }

/-- `RetryBuilder.GetBasicDispatcher`. -/
def buildRetry (filter : ExceptionFilter E X ℕ)
    (timeOutProvider : Option (Int32 → Comp E W ℤ)) (max : Int32) : Store E X W Val :=
  let d := .retry filter timeOutProvider max
  { s with built := s.built ++ [⟨d, s.read d⟩] }

/-- `CircuitBreakerWithOpenPolicyBuilder.GetCircuitBreakerBuilder` and the dispatcher. -/
def buildCircuitBreaker (filter : ExceptionFilter E X ℕ)
    (openBehaviour : Option OpenBehaviourVoid) (values : ℕ) (useDefault : Bool)
    (attemptsBeforeOpen : Int32) (timeoutBeforeRetry : ℤ) : Store E X W Val :=
  let void := openBehaviour.getD .throwVoid
  { s with built := s.built ++ [
    { dispatcher := .circuitBreaker filter void (.return values (s.dictionaries values) useDefault)
        attemptsBeforeOpen timeoutBeforeRetry s.built.length
      configured := .circuitBreaker (filter.map s.hashSets) void
        (.returnBehaviour (s.dictionaries values) useDefault)
        attemptsBeforeOpen timeoutBeforeRetry s.built.length }] }

/-- A new `CircuitBreakerWithOpenPolicyBuilder` with the given answers. -/
def newOpenPolicy (filter : ExceptionFilter E X ℕ) (openBehaviour : Option OpenBehaviourVoid)
    (values : AList Val) (useDefault : Bool) : Store E X W Val :=
  (s.newCollection ∅ values).push
    (.circuitBreakerWithOpenPolicy filter openBehaviour s.next useDefault)

end Store

/-- The static methods of the two policies. -/
inductive Factory (E X : Type) where
  | retryFor (t : X)
  | retryForAllException
  | retryForPredicate (t : X) (filter : E → Bool)
  | retryForException (filter : E → Bool)
  | circuitBreakerFor (t : X)
  | circuitBreakerForAllException
  | circuitBreakerForPredicate (t : X) (filter : E → Bool)
  | circuitBreakerForException (filter : E → Bool)

/-- The methods of the builders. A wait is given by the provider it becomes. -/
inductive Method (E X W : Type) {Ty : Type} (Val : Ty → Type) where
  | and (t : X)
  | withWaitBetweenRetry (timeOutProvider : Int32 → Comp E W ℤ)
  | forEver
  | withMaxRetry (maxTimes : Int32)
  | withRetryAndTimeout (attemptsBeforeOpen : Int32) (timeoutBeforeRetry : ℤ)
  | returnsDefaultWhenOpen
  | returnsWhenOpen (t : Ty) (value : Val t)
  | doNotThrowForVoid

inductive BuilderCall (E X W : Type) {Ty : Type} (Val : Ty → Type) where
  | create (factory : Factory E X)
  | call (builder : ℕ) (method : Method E X W Val)

variable [DecidableEq X] [DecidableEq Ty]

def Store.create (s : Store E X W Val) : Factory E X → Store E X W Val
  | .retryFor t => (s.newCollection {t} ∅).push (.retryWithType s.next)
  | .retryForAllException => s.push (.retryWithWait .noThrow)
  | .retryForPredicate t filter => s.push (.retryWithWait (.predicateExceptionFilterOf t filter))
  | .retryForException filter => s.push (.retryWithWait (.predicateExceptionFilter filter))
  | .circuitBreakerFor t => (s.newCollection {t} ∅).push (.circuitBreakerWithType s.next)
  | .circuitBreakerForAllException => s.newOpenPolicy .noThrow none ∅ false
  | .circuitBreakerForPredicate t filter =>
      s.newOpenPolicy (.predicateExceptionFilterOf t filter) none ∅ false
  | .circuitBreakerForException filter =>
      s.newOpenPolicy (.predicateExceptionFilter filter) none ∅ false

/-- A method of builder `i`, which is `b`. `none`: the builder has no such method. -/
def Store.invoke (s : Store E X W Val) (i : ℕ) :
    Builder E X W → Method E X W Val → Option (Store E X W Val)
  | .retryWithType type, .and t => some (s.add type t)
  | .retryWithType type, .withWaitBetweenRetry timeOutProvider =>
      some (s.push (.retry (.throwOnType type) (some timeOutProvider)))
  | .retryWithType type, .forEver => some (s.buildRetry (.throwOnType type) none Int32.maxValue)
  | .retryWithType type, .withMaxRetry maxTimes =>
      some (s.buildRetry (.throwOnType type) none maxTimes)
  | .retryWithWait filter, .withWaitBetweenRetry timeOutProvider =>
      some (s.push (.retry filter (some timeOutProvider)))
  | .retryWithWait filter, .forEver => some (s.buildRetry filter none Int32.maxValue)
  | .retryWithWait filter, .withMaxRetry maxTimes => some (s.buildRetry filter none maxTimes)
  | .retry filter timeOutProvider, .forEver =>
      some (s.buildRetry filter timeOutProvider Int32.maxValue)
  | .retry filter timeOutProvider, .withMaxRetry maxTimes =>
      some (s.buildRetry filter timeOutProvider maxTimes)
  | .circuitBreakerWithType type, .and t => some (s.add type t)
  | .circuitBreakerWithType type, .withRetryAndTimeout attempts timeout =>
      some ((s.newCollection ∅ ∅).buildCircuitBreaker (.throwOnType type) none s.next false
        attempts timeout)
  | .circuitBreakerWithType type, .returnsDefaultWhenOpen =>
      some (s.newOpenPolicy (.throwOnType type) none ∅ true)
  | .circuitBreakerWithType type, .returnsWhenOpen t value =>
      some (s.newOpenPolicy (.throwOnType type) none (AList.singleton t value) false)
  | .circuitBreakerWithType type, .doNotThrowForVoid =>
      some (s.newOpenPolicy (.throwOnType type) (some .noThrowVoid) ∅ false)
  | .circuitBreakerWithOpenPolicy filter openBehaviour values useDefault,
      .withRetryAndTimeout attempts timeout =>
      some (s.buildCircuitBreaker filter openBehaviour values useDefault attempts timeout)
  | .circuitBreakerWithOpenPolicy filter openBehaviour values _, .returnsDefaultWhenOpen =>
      some (s.replace i (.circuitBreakerWithOpenPolicy filter openBehaviour values true))
  | .circuitBreakerWithOpenPolicy _ _ values _, .returnsWhenOpen t value =>
      some (s.assign values t value)
  | .circuitBreakerWithOpenPolicy filter _ values useDefault, .doNotThrowForVoid =>
      some (s.replace i (.circuitBreakerWithOpenPolicy filter (some .noThrowVoid) values useDefault))
  | _, _ => none

def Store.step (s : Store E X W Val) : BuilderCall E X W Val → Option (Store E X W Val)
  | .create factory => some (s.create factory)
  | .call i method => do s.invoke i (← s.builders[i]?) method

end ComposableAsync.Resilient
