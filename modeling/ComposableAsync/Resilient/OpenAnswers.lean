import ComposableAsync.Resilient.BreakerPolicy
import ComposableAsync.Resilient.BuiltDispatchers

/-!
# Answers to rejected calls

What the caller of a rejected call gets, by what the builder was told: a registered
value, the default value, nothing, or the `CircuitBreakerOpenException`. Open, the
breaker answers so. Half open, it calls the open behaviour for methods without a result
first, whichever overload is rejected, so that `DoNotThrowForVoid` decides also for the
overloads with a result.
-/
namespace ComposableAsync.Resilient
open Foundations

variable {E X U W Ty : Type} {Val : Ty → Type} (r : Runtime E X Val)

/-- What a builder was told about rejected calls. -/
structure OpenPolicy (Val : Ty → Type) where
  values : AList Val := ∅
  useDefault : Bool := false
  doNotThrowForVoid : Bool := false

/-- A `CircuitBreakerWithTypeBuilder` has been told nothing. -/
def Store.openPolicy (s : Store E X W Val) : Builder E X W → OpenPolicy Val
  | .circuitBreakerWithOpenPolicy _ openBehaviour values useDefault =>
      { values := s.dictionaries values
        useDefault := useDefault
        doNotThrowForVoid := openBehaviour.getD .throwVoid == .noThrowVoid }
  | .retryWithType _ | .retryWithWait _ | .retry _ _ | .circuitBreakerWithType _ => {}

/-- The type of the value that an overload returns, if it returns one. -/
def Overload.returns : Overload Ty → Option Ty
  | .func t | .funcTaskOf t => some t
  | .action | .funcTask => none

namespace OpenPolicy
variable [DecidableEq Ty] (policy : OpenPolicy Val)

/-- There is a value to return at this type. -/
def HasValue (t : Ty) : Prop := t ∈ policy.values ∨ policy.useDefault = true

def returned (t : Ty) : Except E (Val t) :=
  match policy.values.lookup t with
  | some value => .ok value
  | none => if policy.useDefault then .ok (r.default t) else .error r.circuitBreakerOpenException

def completed : Except E Unit :=
  if policy.doNotThrowForVoid then .ok () else .error r.circuitBreakerOpenException

/-- The specification of a rejected call. -/
def answer : (o : Overload Ty) → Except E (o.Result Val)
  | .func t | .funcTaskOf t => policy.returned r t
  | .action | .funcTask => policy.completed r

variable {policy}

theorem returned_of_hasValue {t : Ty} (h : policy.HasValue t) :
    ∃ value, policy.returned r t = .ok value := by
  unfold returned
  cases hlookup : policy.values.lookup t with
  | some value => exact ⟨value, rfl⟩
  | none =>
      obtain hmem | hdefault := h
      · exact absurd hmem (AList.lookup_eq_none.mp hlookup)
      · exact ⟨r.default t, if_pos hdefault⟩

theorem returned_of_not_hasValue {t : Ty} (h : ¬ policy.HasValue t) :
    policy.returned r t = .error r.circuitBreakerOpenException := by
  obtain ⟨hmem, hdefault⟩ := not_or.mp h
  rw [returned, AList.lookup_eq_none.mpr hmem]
  exact if_neg hdefault

end OpenPolicy

/-- A probe is running, or the delay has not elapsed. -/
def Settings.Rejects (c : Settings E Val) (now : ℤ) (b : Breaker) : Prop :=
  b.state = .halfOpen ∨ b.state = .opened ∧ now - b.lastFail < c.delay

/-- What the open behaviour of an overload answers. -/
def Settings.onOpen (c : Settings E Val) : (o : Overload Ty) → Except E (o.Result Val)
  | .func t | .funcTaskOf t => c.openBehaviourReturn t
  | .action | .funcTask => c.openBehaviour

section Rejections
variable {c : Settings E Val} {o : Overload Ty} {now : ℤ} {b : Breaker}

theorem entry_map_ret {R : Type} (e : Except E R) :
    ReturnData.entry (e.map .ret) = .rejected e := by
  cases e <;> rfl

theorem boolEntry_map_false (e : Except E Unit) :
    boolEntry (e.map fun _ => false) = .rejected e := by
  cases e <;> rfl

theorem enter_of_opened (hopened : b.state = .opened) (hdelay : now - b.lastFail < c.delay) :
    enter c o now b = (.rejected (c.onOpen o), b) := by
  cases o with
  | func t | funcTaskOf t =>
      simp only [enter, onEnterOf, unsafeEnter, hopened, if_pos hdelay, entry_map_ret,
        Settings.onOpen]
  | action | funcTask =>
      simp only [enter, onEnter, unsafeEnter, hopened, if_pos hdelay, boolEntry_map_false,
        Settings.onOpen]

theorem enter_of_halfOpen (hhalf : b.state = .halfOpen) :
    enter c o now b = (.rejected (c.openBehaviour.bind fun _ => c.onOpen o), b) := by
  cases o with
  | func t | funcTaskOf t =>
      simp only [enter, onEnterOf, unsafeEnter, hhalf, Settings.onOpen]
      cases c.openBehaviour with
      | error e => rfl
      | ok _ => exact congrArg (·, b) (entry_map_ret _)
  | action | funcTask =>
      simp only [enter, onEnter, unsafeEnter, hhalf, Settings.onOpen]
      cases c.openBehaviour <;> rfl

variable {w : World U} {enterAt leaveAt : ℤ} {action : Comp E U (o.Result Val)}

theorem enqueue_of_rejected {answer : Except E (o.Result Val)}
    (h : enter c o enterAt w.breaker = (.rejected answer, w.breaker)) :
    enqueue c o enterAt leaveAt action w = (answer, w) := by
  rw [enqueue_run, h]
  rfl

end Rejections

section Built
variable [DecidableEq Ty]

theorem return_onOpen_apply (s : Store E X W Val) (values : ℕ) (useDefault : Bool) (t : Ty) :
    ((OpenBehaviourReturn.return values (s.dictionaries values) useDefault).map
        s.dictionaries).onOpen r t =
      OpenPolicy.returned r { values := s.dictionaries values, useDefault := useDefault } t := by
  rw [return_onOpen]
  rfl

/-- The dispatcher answers as its policy says. -/
def Settings.Follows (c : Settings E Val) (policy : OpenPolicy Val) : Prop :=
  c.openBehaviour = policy.completed r ∧ ∀ t, c.openBehaviourReturn t = policy.returned r t

theorem Settings.Follows.onOpen {c : Settings E Val} {policy : OpenPolicy Val}
    (h : c.Follows r policy) (o : Overload Ty) : c.onOpen o = policy.answer r o := by
  cases o with
  | func t | funcTaskOf t => exact h.2 t
  | action | funcTask => exact h.1

theorem OpenPolicy.completed_bind_iff (policy : OpenPolicy Val) (o : Overload Ty) :
    ((policy.completed r).bind fun _ => policy.answer r o) = policy.answer r o ↔
      ¬ (policy.doNotThrowForVoid = false ∧ ∃ t, o.returns = some t ∧ policy.HasValue t) := by
  cases hvoid : policy.doNotThrowForVoid with
  | true =>
      have hcompleted : policy.completed r = .ok () := if_pos hvoid
      rw [hcompleted]
      exact iff_of_true rfl fun h => Bool.noConfusion h.1
  | false =>
      have hcompleted : policy.completed r = .error r.circuitBreakerOpenException := by
        rw [completed, hvoid, if_neg Bool.false_ne_true]
      rw [hcompleted]
      cases o with
      | action | funcTask => exact iff_of_true hcompleted.symm (by rintro ⟨-, t, ⟨⟩, -⟩)
      | func t | funcTaskOf t =>
          constructor
          · rintro hanswer ⟨-, _, ⟨⟩, hvalue⟩
            obtain ⟨value, hreturned⟩ := returned_of_hasValue r hvalue
            cases (show Except.error _ = _ from hanswer).trans hreturned
          · intro h
            exact (returned_of_not_hasValue r fun hvalue => h ⟨rfl, t, rfl, hvalue⟩).symm

variable [DecidableEq X]

theorem follows_of_build {s : Store E X W Val} {filter : ExceptionFilter E X ℕ}
    {openBehaviour : Option OpenBehaviourVoid} {values : ℕ} {useDefault : Bool} {attempts : Int32}
    {timeout : ℤ} {product : Product E X W Val} {c : Settings E Val} {cell : ℕ}
    (hbuilt : (s.buildCircuitBreaker filter openBehaviour values useDefault attempts timeout).built =
      s.built ++ [product])
    (hc : (s.read product.dispatcher).tree r = .circuitBreakerDispatcher c cell) :
    c.Follows r
      { values := s.dictionaries values
        useDefault := useDefault
        doNotThrowForVoid := openBehaviour.getD .throwVoid == .noThrowVoid } := by
  have hproduct := (List.singleton_inj.mp (List.append_cancel_left hbuilt)).symm
  subst hproduct
  injection hc with hsettings
  subst hsettings
  refine ⟨?_, return_onOpen_apply r s values useDefault⟩
  simp only [OpenPolicy.completed]
  cases openBehaviour.getD .throwVoid <;> rfl

/-- A built breaker answers as its builder was told. -/
theorem follows_of_invoke {s s' : Store E X W Val} {i : ℕ} {b : Builder E X W} {attempts : Int32}
    {timeout : ℤ} {product : Product E X W Val} {c : Settings E Val} {cell : ℕ}
    (hinvoke : s.invoke i b (.withRetryAndTimeout attempts timeout) = some s')
    (hbuilt : s'.built = s.built ++ [product])
    (hc : (s'.read product.dispatcher).tree r = .circuitBreakerDispatcher c cell) :
    c.Follows r (s.openPolicy b) := by
  cases b with
  | retryWithType type | retryWithWait filter | retry filter timeOutProvider => cases hinvoke
  | circuitBreakerWithType type =>
      cases hinvoke
      have hempty : (s.newCollection ∅ ∅).dictionaries s.next = ∅ := Function.update_self ..
      have hfollows := follows_of_build r hbuilt hc
      rwa [hempty] at hfollows
  | circuitBreakerWithOpenPolicy filter openBehaviour values useDefault =>
      cases hinvoke
      exact follows_of_build r hbuilt hc

/-- A rejected call is answered as the builder was told, except a call for a value or a
default that comes while a probe is running and `DoNotThrowForVoid` was not called. -/
theorem rejected_call_iff {s s' : Store E X W Val} {i : ℕ} {b : Builder E X W} {attempts : Int32}
    {timeout : ℤ} {product : Product E X W Val} {c : Settings E Val} {cell : ℕ}
    (hinvoke : s.invoke i b (.withRetryAndTimeout attempts timeout) = some s')
    (hbuilt : s'.built = s.built ++ [product])
    (hc : (s'.read product.dispatcher).tree r = .circuitBreakerDispatcher c cell)
    (o : Overload Ty) {enterAt leaveAt : ℤ} {action : Comp E U (o.Result Val)} {w : World U}
    (hrejects : c.Rejects enterAt w.breaker) :
    (enqueue c o enterAt leaveAt action w).1 = (s.openPolicy b).answer r o ↔
      ¬ (w.breaker.state = .halfOpen ∧ (s.openPolicy b).doNotThrowForVoid = false ∧
        ∃ t, o.returns = some t ∧ (s.openPolicy b).HasValue t) := by
  have hfollows := follows_of_invoke r hinvoke hbuilt hc
  obtain hhalf | ⟨hopened, hdelay⟩ := hrejects
  · rw [enqueue_of_rejected (enter_of_halfOpen hhalf), hfollows.1, hfollows.onOpen r o,
      OpenPolicy.completed_bind_iff]
    simp only [hhalf, true_and]
  · rw [enqueue_of_rejected (enter_of_opened hopened hdelay)]
    refine iff_of_true (hfollows.onOpen r o) fun h => ?_
    cases hopened.symm.trans h.1

end Built

section Example

def openRuntime : Runtime Unit Unit fun _ : Unit => ℕ where
  getType _ := ()
  isSubclassOf _ _ := false
  circuitBreakerOpenException := ()
  default _ := 0

/-- `CircuitBreakerPolicy.ForAllException().ReturnsDefaultWhenOpen()`. -/
def defaultWhenOpen : Store Unit Unit Unit fun _ : Unit => ℕ :=
  ({} : Store Unit Unit Unit fun _ : Unit => ℕ).newOpenPolicy .noThrow none ∅ true

def defaultBreaker : Settings Unit fun _ : Unit => ℕ where
  exceptionFilter _ := false
  openBehaviour := .error ()
  openBehaviourReturn _ := .ok 0
  threshold := 1
  delay := 0

/-- One failure, then a probe that has not ended. -/
def probing : Breaker :=
  (enter defaultBreaker (.func ()) 0 (leave defaultBreaker 0 (.error () : Except Unit ℕ) {})).2

/-- `WithRetryAndTimeout(1, TimeSpan.Zero)`. -/
def defaultBuilt : Store Unit Unit Unit fun _ : Unit => ℕ :=
  defaultWhenOpen.buildCircuitBreaker .noThrow none 0 true 1 0

def defaultProduct : Product Unit Unit Unit fun _ : Unit => ℕ where
  dispatcher := .circuitBreaker .noThrow .throwVoid (.returnBehaviour 0 true) 1 0 0
  configured := .circuitBreaker .noThrow .throwVoid (.returnBehaviour ∅ true) 1 0 0

theorem defaultBuilt_tree : (defaultBuilt.read defaultProduct.dispatcher).tree openRuntime =
    .circuitBreakerDispatcher defaultBreaker 0 := rfl

/-- The call of the specification. -/
theorem rejected_call_iff_probing :
    (enqueue defaultBreaker (.func ()) 0 0 (pure 1) ⟨probing, 0, ()⟩).1 =
        (defaultWhenOpen.openPolicy (.circuitBreakerWithOpenPolicy .noThrow none 0 true)).answer
          openRuntime (.func ()) ↔
      ¬ (probing.state = .halfOpen ∧
        (defaultWhenOpen.openPolicy
          (.circuitBreakerWithOpenPolicy .noThrow none 0 true)).doNotThrowForVoid = false ∧
        ∃ t, (Overload.func ()).returns = some t ∧ (defaultWhenOpen.openPolicy
          (.circuitBreakerWithOpenPolicy .noThrow none 0 true)).HasValue t) :=
  rejected_call_iff openRuntime
    (show defaultWhenOpen.invoke 0 _ (.withRetryAndTimeout 1 0) = some defaultBuilt from rfl)
    rfl defaultBuilt_tree (.func ()) (.inl rfl)

/-- The caller gets the exception in place of the default value. -/
theorem default_refused_while_probing :
    defaultWhenOpen.invoke 0 (.circuitBreakerWithOpenPolicy .noThrow none 0 true)
      (.withRetryAndTimeout 1 0) = some defaultBuilt ∧
    defaultBuilt.built = defaultWhenOpen.built ++ [defaultProduct] ∧
    probing.state = .halfOpen ∧
    (enqueue defaultBreaker (.func ()) 0 0 (pure 1) ⟨probing, 0, ()⟩).1 = .error () ∧
    (defaultWhenOpen.openPolicy (.circuitBreakerWithOpenPolicy .noThrow none 0 true)).answer
      openRuntime (.func ()) = .ok 0 :=
  ⟨rfl, rfl, rfl, rfl, rfl⟩

end Example
end ComposableAsync.Resilient
