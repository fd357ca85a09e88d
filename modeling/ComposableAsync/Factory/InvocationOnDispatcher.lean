import ComposableAsync.Core.Dispatcher
import ComposableAsync.Factory.DispatcherBehaviour
import ComposableAsync.Foundations.Computation

/-!
# What a call through a proxy gives its caller

The functions behind the methods of a proxy, run on a dispatcher. Each hands `Call` to an
entry point of the dispatcher; `Call` invokes the target by reflection, where an
exception comes back inside a `TargetInvocationException`, and unwraps it. A method whose
result type is one of its type parameters reaches the entry point by reflection as well,
and what the entry point throws is not unwrapped there.

The dispatcher, the target and the state they work on are any.
-/
namespace ComposableAsync.Factory
open Foundations ComposableAsync.Core

/-- The exceptions: those of the program, and the classes that reflection and the proxy
throw. -/
inductive ProxyException (X : Type) where
  | own (exception : X)
  | targetInvocation (innerException : Option (ProxyException X))
  | invalidCast
  | indexOutOfRange
  | proxy (error : ProxyError)
  | typeInitialization (innerException : ProxyError)

namespace ProxyException
variable {X : Type}

/-- What `MethodInfo.Invoke` makes of an exception of the invoked method. -/
def wrap (e : ProxyException X) : ProxyException X := .targetInvocation (some e)

/-- `throw targetException.InnerException ?? targetException`; others pass. -/
def unwrap (e : ProxyException X) : ProxyException X :=
  match e with
  | .targetInvocation innerException => innerException.getD e
  | .own _ | .invalidCast | .indexOutOfRange | .proxy _ | .typeInitialization _ => e

@[simp] theorem unwrap_wrap (e : ProxyException X) : e.wrap.unwrap = e := rfl

theorem wrap_ne (e : ProxyException X) : e.wrap ≠ e := by
  intro h
  have hsize := congrArg sizeOf h
  simp only [wrap, targetInvocation.sizeOf_spec, Option.some.sizeOf_spec] at hsize
  omega

end ProxyException

/-- An argument of a call: a `CancellationToken`, or a value of another type. -/
inductive Argument (Token V : Type) where
  | cancellationToken (token : Token)
  | value (v : V)
  deriving DecidableEq, Repr

variable {K X S Token V : Type}

/-- What a method gives its caller, by its return type. `Val t` is the C# type `t`. -/
abbrev Result (X : Type) (Val : MethodType K Empty → Type) : TaskDescription K Empty → Type
  | .none | .void => Unit
  | .task => Awaited (ProxyException X) Unit
  | .genericTask type => Awaited (ProxyException X) (Val type)

/-- An `object` by its type. -/
abbrev Object (X : Type) (Val : MethodType K Empty → Type) :=
  (description : TaskDescription K Empty) × Result X Val description

/-- Bodies that throw or return, over the state of the program. -/
abbrev Body (X S T : Type) := Comp (ProxyException X) S T

section Call
variable [DecidableEq K]

/-- The cast of an `object`; a `Task<X>` is a `Task`. -/
def castTo {Val : MethodType K Empty → Type} (type : TaskDescription K Empty) :
    Object X Val → Body X S (Result X Val type)
  | ⟨description, returned⟩ =>
      if h : description = type then return h ▸ returned
      else
        match type, description, returned with
        | .task, .genericTask _, task => return task.map fun _ => ()
        | _, _, _ => throw .invalidCast

/-- An invocation with its arguments and the target. The caller passes a token where the
method declares one. -/
structure MethodCall (K X S Token V : Type) [DecidableEq K] (Val : MethodType K Empty → Type)
    (description : TaskDescription K Empty) extends Invocation K where
  returns : getTaskType (method.returnType.bind typeArguments) = description
  arguments : List (Argument Token V)
  conforms : ∀ i, method.getCancellationParameter = some i →
    ∃ token, arguments[i]? = some (.cancellationToken token)
  target : List (Argument Token V) → Body X S (Result X Val description)

namespace MethodCall
variable {Val : MethodType K Empty → Type} {description : TaskDescription K Empty}
variable (c : MethodCall K X S Token V Val description)

/-- `Method.Invoke(InvocationTarget, Arguments)`. -/
def invoke : Body X S (Result X Val description) := (c.target c.arguments).mapError .wrap

/-- `Call()`, which ignores what the target throws. -/
def call : Body X S Unit := tryCatch (do let _ ← c.invoke) fun _ => pure ()

/-- `Call<T>()`, with the cast to `T`. -/
def callOf (type : TaskDescription K Empty) : Body X S (Result X Val type) :=
  Comp.mapError .unwrap do
    let returned ← c.invoke
    castTo type ⟨description, returned⟩

/-- `(CancellationToken)invocation.Arguments[index]`. -/
def cancellationToken (index : ℕ) : Body X S Token :=
  match c.arguments[index]? with
  | some (.cancellationToken token) => pure token
  | some (.value _) => throw .invalidCast
  | none => throw .indexOutOfRange

end MethodCall

variable {Val : MethodType K Empty → Type} {description : TaskDescription K Empty}

/-- `Dispatch`. -/
def dispatch (d : IDispatcher (ProxyException X) (StateM S) Val Token)
    (c : MethodCall K X S Token V Val description) : Body X S (Object X Val) := do
  d.dispatch c.call
  return ⟨.void, ()⟩

/-- `Enqueue`, without and with a token. -/
def enqueue (d : IDispatcher (ProxyException X) (StateM S) Val Token)
    (c : MethodCall K X S Token V Val description) : Option ℕ → Body X S (Object X Val)
  | none => do return ⟨.task, ← d.enqueueFuncTask (c.callOf .task)⟩
  | some index => do
      let token ← c.cancellationToken index
      return ⟨.task, ← d.enqueueFuncTaskWith (c.callOf .task) token⟩

/-- `Proceed<TResult>` and `ProceedWithCancellation<TResult>`. -/
def proceed (d : IDispatcher (ProxyException X) (StateM S) Val Token) (result : MethodType K Empty)
    (c : MethodCall K X S Token V Val description) : Option ℕ → Body X S (Object X Val)
  | none => do return ⟨.genericTask result, ← d.enqueueFuncTaskOf (c.callOf (.genericTask result))⟩
  | some index => do
      let token ← c.cancellationToken index
      return ⟨.genericTask result,
        ← d.enqueueFuncTaskOfWith (c.callOf (.genericTask result)) token⟩

/-- `DynamicDispatch`: `MakeGenericMethod` throws if the result type is no `Task<X>`. -/
def dynamicDispatch (d : IDispatcher (ProxyException X) (StateM S) Val Token)
    (c : MethodCall K X S Token V Val description) (cancellationToken : Option ℕ) :
    Body X S (Object X Val) :=
  match getTaskType (c.method.returnType.bind c.typeArguments) with
  | .genericTask result => (proceed d result c cancellationToken).mapError .wrap
  | .none | .void | .task => throw (.proxy .argumentNull)

def InvocationOnDispatcher.run (d : IDispatcher (ProxyException X) (StateM S) Val Token)
    (c : MethodCall K X S Token V Val description) :
    InvocationOnDispatcher K → Body X S (Object X Val)
  | .dispatch => Factory.dispatch d c
  | .enqueue cancellationToken => Factory.enqueue d c cancellationToken
  | .proceed result cancellationToken => Factory.proceed d result c cancellationToken
  | .dynamicEnqueue cancellationToken => dynamicDispatch d c cancellationToken

/-- `Intercept` on the dispatcher of the proxy. -/
def TaskInterface.interceptOn (i : TaskInterface K)
    (d : IDispatcher (ProxyException X) (StateM S) Val Token)
    (c : MethodCall K X S Token V Val description) : Body X S (Object X Val) :=
  match i.getTransformFunction c.toInvocation with
  | .error e => throw (.typeInitialization e)
  | .ok ⟨transform, continues⟩ =>
      if continues then do return ⟨description, ← c.target c.arguments⟩
      else
        match transform with
        | some transform => transform.run d c
        | none => throw (.proxy .nullReference)

/-- A call of the dispatcher, made. -/
def DispatcherCall.make (d : IDispatcher (ProxyException X) (StateM S) Val Token)
    (c : MethodCall K X S Token V Val description) : DispatcherCall K → Body X S (Object X Val)
  | .dispatch => Factory.dispatch d c
  | .enqueue cancellationToken => Factory.enqueue d c cancellationToken
  | .enqueueOf result cancellationToken => Factory.proceed d result c cancellationToken

/-- A function makes the call it stands for, directly or by reflection. -/
theorem InvocationOnDispatcher.run_eq (d : IDispatcher (ProxyException X) (StateM S) Val Token)
    (c : MethodCall K X S Token V Val description) {f : InvocationOnDispatcher K}
    {call : DispatcherCall K} (h : f.invoke c.toInvocation = .ok call) :
    f.run d c = call.make d c ∨ f.run d c = (call.make d c).mapError .wrap := by
  cases f with
  | dispatch | enqueue | proceed =>
      cases h
      exact .inl rfl
  | dynamicEnqueue cancellationToken =>
      cases htype : getTaskType (c.method.returnType.bind c.typeArguments) with
      | genericTask result =>
          simp only [invoke, htype, Except.ok.injEq] at h
          subst h
          refine .inr ?_
          simp only [run, dynamicDispatch, htype, DispatcherCall.make]
      | none | void | task =>
          simp only [invoke, htype] at h
          cases h

/-- The call that `Intercept` selects is the one that reaches the dispatcher. -/
theorem TaskInterface.interceptOn_eq {i : TaskInterface K}
    (d : IDispatcher (ProxyException X) (StateM S) Val Token)
    (c : MethodCall K X S Token V Val description) {call : DispatcherCall K}
    (h : i.intercept c.toInvocation = .ok (some call)) :
    i.interceptOn d c = call.make d c ∨
      i.interceptOn d c = (call.make d c).mapError .wrap := by
  rw [intercept] at h
  cases hf : i.getTransformFunction c.toInvocation with
  | error e =>
      rw [hf] at h
      cases h
  | ok solver =>
      obtain ⟨transform, continues⟩ := solver
      rw [hf] at h
      rw [interceptOn, hf]
      cases continues with
      | true => cases h
      | false =>
          cases transform with
          | none => cases h
          | some f =>
              have hcall : (do return some (← f.invoke c.toInvocation) :
                  Except ProxyError (Option (DispatcherCall K))) = .ok (some call) := h
              cases hinvoke : f.invoke c.toInvocation with
              | error e =>
                  rw [hinvoke] at hcall
                  cases hcall
              | ok made =>
                  rw [hinvoke] at hcall
                  cases hcall
                  exact f.run_eq d c hinvoke

namespace MethodCall

/-- The token that the proxy finds in the arguments. -/
def token (c : MethodCall K X S Token V Val description) : Option Token := do
  let index ← c.method.getCancellationParameter
  match ← c.arguments[index]? with
  | .cancellationToken token => some token
  | .value _ => none

/-- The target itself, given to the entry point. -/
def enqueueTarget {result : MethodType K Empty}
    (c : MethodCall K X S Token V Val (.genericTask result))
    (d : IDispatcher (ProxyException X) (StateM S) Val Token) :
    Body X S (Awaited (ProxyException X) (Val result)) :=
  match c.token with
  | none => d.enqueueFuncTaskOf (c.target c.arguments)
  | some token => d.enqueueFuncTaskOfWith (c.target c.arguments) token

/-- Reflection wraps what the target throws, and `Call` unwraps it. -/
theorem callOf_eq (c : MethodCall K X S Token V Val description) :
    c.callOf description = c.target c.arguments := by
  have hcast : (do
      let returned ← c.invoke
      castTo description ⟨description, returned⟩) = c.invoke := by
    simp only [castTo, dif_pos, bind_pure]
  rw [callOf, hcast, invoke, Comp.mapError_mapError_cancel ProxyException.unwrap_wrap]

end MethodCall

/-- What a method without a result throws reaches nobody. -/
theorem MethodCall.call_returns (c : MethodCall K X S Token V Val description) (s : S) :
    ∃ t, c.call s = (.ok (), t) := by
  obtain ⟨_, t, h⟩ | ⟨_, t, h⟩ :=
    Comp.ok_or_error (c.invoke >>= fun _ => (pure () : Body X S Unit)) s
  · exact ⟨t, Comp.tryCatch_of_ok h⟩
  · exact ⟨t, Comp.tryCatch_of_error h⟩

theorem MethodCall.token_cases (c : MethodCall K X S Token V Val description) :
    c.method.getCancellationParameter = none ∧ c.token = none ∨
      ∃ index token, c.method.getCancellationParameter = some index ∧ c.token = some token ∧
        c.cancellationToken index = pure token := by
  cases hp : c.method.getCancellationParameter with
  | none =>
      refine .inl ⟨rfl, ?_⟩
      rw [MethodCall.token, hp]
      rfl
  | some index =>
      obtain ⟨token, htoken⟩ := c.conforms index hp
      refine .inr ⟨index, token, rfl, ?_, ?_⟩
      · simp only [MethodCall.token, hp, htoken, Option.bind_eq_bind, Option.bind_some]
      · simp only [MethodCall.cancellationToken, htoken]

theorem enqueue_eq (d : IDispatcher (ProxyException X) (StateM S) Val Token)
    (c : MethodCall K X S Token V Val .task) :
    enqueue d c c.method.getCancellationParameter =
      (do return ⟨.task, ← match c.token with
        | none => d.enqueueFuncTask (c.target c.arguments)
        | some token => d.enqueueFuncTaskWith (c.target c.arguments) token⟩) := by
  obtain ⟨hp, htoken⟩ | ⟨index, token, hp, htoken, hcast⟩ := c.token_cases
  · rw [hp, htoken, enqueue, c.callOf_eq]
  · rw [hp, htoken, enqueue, c.callOf_eq, hcast]
    rfl

theorem proceed_eq {result : MethodType K Empty}
    (d : IDispatcher (ProxyException X) (StateM S) Val Token)
    (c : MethodCall K X S Token V Val (.genericTask result)) :
    proceed d result c c.method.getCancellationParameter =
      (do return ⟨.genericTask result, ← c.enqueueTarget d⟩) := by
  obtain ⟨hp, htoken⟩ | ⟨index, token, hp, htoken, hcast⟩ := c.token_cases
  · rw [hp, MethodCall.enqueueTarget, htoken, proceed, c.callOf_eq]
  · rw [hp, MethodCall.enqueueTarget, htoken, proceed, c.callOf_eq, hcast]
    rfl

theorem dynamicDispatch_eq {result : MethodType K Empty}
    (d : IDispatcher (ProxyException X) (StateM S) Val Token)
    (c : MethodCall K X S Token V Val (.genericTask result)) :
    dynamicDispatch d c c.method.getCancellationParameter =
      Comp.mapError .wrap (do return ⟨.genericTask result, ← c.enqueueTarget d⟩) := by
  rw [dynamicDispatch, c.returns]
  exact congrArg (Comp.mapError .wrap) (proceed_eq d c)

namespace TaskInterface

theorem getTransformFunction_of_mem {i : TaskInterface K} {cache : Cache K}
    (hcache : i.cache = .ok cache) (invocation : Invocation K)
    (hm : invocation.method ∈ i.methods) :
    ∃ solver, buildTransformFunction invocation.method = .ok solver ∧
      i.getTransformFunction invocation = .ok solver := by
  obtain ⟨solver, hsolver, hlookup⟩ := registerType_mem (i.cache_eq.symm.trans hcache) hm
  refine ⟨solver, hsolver, ?_⟩
  rw [getTransformFunction, hcache]
  change Except.ok ((cache.lookup invocation.method).getD _) = _
  rw [hlookup, Option.getD_some]

variable {i j : TaskInterface K} {d : IDispatcher (ProxyException X) (StateM S) Val Token}
variable {result : MethodType K Empty} {x : MethodType K ℕ}

theorem interceptOn_void {c : MethodCall K X S Token V Val .void} {cache : Cache K}
    (hcache : i.cache = .ok cache) (hm : c.method ∈ i.methods)
    (hreturn : c.method.returnType = .named .void) :
    i.interceptOn d c = (do d.dispatch c.call; return ⟨.void, ()⟩) ∧
      ∀ s, ∃ t, c.call s = (.ok (), t) := by
  obtain ⟨solver, hsolver, hfound⟩ := getTransformFunction_of_mem hcache c.toInvocation hm
  simp only [buildTransformFunction, hreturn, getTaskType] at hsolver
  cases hsolver
  refine ⟨?_, c.call_returns⟩
  rw [interceptOn, hfound]
  rfl

theorem interceptOn_task {c : MethodCall K X S Token V Val .task} {cache : Cache K}
    (hcache : i.cache = .ok cache) (hm : c.method ∈ i.methods)
    (hreturn : c.method.returnType = .named .task) :
    i.interceptOn d c =
      (do return ⟨.task, ← match c.token with
        | none => d.enqueueFuncTask (c.target c.arguments)
        | some token => d.enqueueFuncTaskWith (c.target c.arguments) token⟩) := by
  obtain ⟨solver, hsolver, hfound⟩ := getTransformFunction_of_mem hcache c.toInvocation hm
  simp only [buildTransformFunction, hreturn, getTaskType] at hsolver
  cases hsolver
  rw [interceptOn, hfound]
  exact enqueue_eq d c

theorem interceptOn_concrete {c : MethodCall K X S Token V Val (.genericTask result)}
    {cache : Cache K} (hcache : i.cache = .ok cache) (hm : c.method ∈ i.methods)
    (hreturn : c.method.returnType = taskOf x) (hx : x.containsParameters = false) :
    i.interceptOn d c = (do return ⟨.genericTask result, ← c.enqueueTarget d⟩) := by
  obtain ⟨solver, hsolver, hfound⟩ :=
    getTransformFunction_of_mem hcache c.toInvocation hm
  obtain ⟨type, htype⟩ := TypeExpr.exists_closed hx
  have hresult : type = result := by
    have hreturns := c.returns
    rw [hreturn] at hreturns
    simp only [taskOf, TypeExpr.bind, getTaskType, TypeExpr.bind_of_closed htype] at hreturns
    cases hreturns
    rfl
  have hparameter : ¬ x.isParameter = true := by
    intro hp
    cases x with
    | parameter p => cases hx
    | named | apply | array => cases hp
  subst hresult
  simp only [buildTransformFunction, hreturn, taskOf, getTaskType, if_neg hparameter,
    getInvocationOnDispatcherForGenericTask, htype] at hsolver
  cases hsolver
  rw [interceptOn, hfound]
  exact proceed_eq d c

theorem interceptOn_generic {c : MethodCall K X S Token V Val (.genericTask result)}
    {cache : Cache K} (hcache : i.cache = .ok cache) (hm : c.method ∈ i.methods)
    (hreturn : c.method.returnType = taskOf x) (hx : x.isParameter = true) :
    i.interceptOn d c =
      Comp.mapError .wrap (do return ⟨.genericTask result, ← c.enqueueTarget d⟩) := by
  obtain ⟨solver, hsolver, hfound⟩ :=
    getTransformFunction_of_mem hcache c.toInvocation hm
  simp only [buildTransformFunction, hreturn, taskOf, getTaskType, if_pos hx] at hsolver
  cases hsolver
  rw [interceptOn, hfound]
  exact dynamicDispatch_eq d c

end TaskInterface

/-- One call: the same target with the same arguments and the same token. -/
structure SameCall (c g : MethodCall K X S Token V Val description) : Prop where
  arguments : g.arguments = c.arguments
  target : g.target = c.target
  token : g.token = c.token

theorem SameCall.enqueueTarget {result : MethodType K Empty}
    {c g : MethodCall K X S Token V Val (.genericTask result)} (h : SameCall c g)
    (d : IDispatcher (ProxyException X) (StateM S) Val Token) :
    g.enqueueTarget d = c.enqueueTarget d := by
  rw [MethodCall.enqueueTarget, MethodCall.enqueueTarget, h.token, h.target, h.arguments]

/-- A call of a method that returns `Task<X>` and a call of a generic method with `X` for
its result: each gives the caller what the dispatcher makes of the target, be it the task
it returns or the exception it throws. -/
structure SameResult {result : MethodType K Empty} (i j : TaskInterface K)
    (d : IDispatcher (ProxyException X) (StateM S) Val Token)
    (c g : MethodCall K X S Token V Val (.genericTask result)) (s : S) : Prop where
  concrete : i.interceptOn d c s =
    (do return ⟨.genericTask result, ← c.enqueueTarget d⟩ : Body X S (Object X Val)) s
  generic : j.interceptOn d g s = i.interceptOn d c s

/-- Whether `Enqueue` returns a task, of any outcome, from the state of the call. -/
def EnqueueReturns {result : MethodType K Empty}
    (d : IDispatcher (ProxyException X) (StateM S) Val Token)
    (c : MethodCall K X S Token V Val (.genericTask result)) (s : S) : Prop :=
  ∃ task t, c.enqueueTarget d s = (.ok task, t)

/-- The paths agree exactly where `Enqueue` returns its task: what it throws comes out of
the generic method inside a `TargetInvocationException`. -/
theorem sameResult_iff {result : MethodType K Empty} {i j : TaskInterface K} {x y : MethodType K ℕ}
    (hi : ∃ cache, i.cache = .ok cache) (hj : ∃ cache, j.cache = .ok cache)
    (c g : MethodCall K X S Token V Val (.genericTask result)) (hcall : SameCall c g)
    (hc : c.method ∈ i.methods) (hconcrete : c.method.returnType = taskOf x)
    (hx : x.containsParameters = false)
    (hg : g.method ∈ j.methods) (hgeneric : g.method.returnType = taskOf y)
    (hy : y.isParameter = true)
    (d : IDispatcher (ProxyException X) (StateM S) Val Token) (s : S) :
    SameResult i j d c g s ↔ EnqueueReturns d c s := by
  obtain ⟨_, hi⟩ := hi
  obtain ⟨_, hj⟩ := hj
  have hbound := TaskInterface.interceptOn_concrete (d := d) hi hc hconcrete hx
  have hdynamic := TaskInterface.interceptOn_generic (d := d) hj hg hgeneric hy
  rw [hcall.enqueueTarget, ← hbound] at hdynamic
  have hreturns : (∃ o t, i.interceptOn d c s = (.ok o, t)) ↔ EnqueueReturns d c s := by
    rw [hbound, ← map_eq_pure_bind]
    exact Comp.exists_ok_map
  rw [← hreturns, ← Comp.mapError_eq_iff ProxyException.wrap_ne, ← hdynamic]
  exact ⟨fun h => h.generic, fun h => ⟨congrFun hbound s, h⟩⟩

end Call

abbrev intType : MethodType ℕ Empty := .named (.other 0)

/-- `Task<int> Get(CancellationToken token)`. -/
def getInt : MethodInfo ℕ ℕ := ⟨0, [.named .cancellationToken], taskOf intType.lift⟩

/-- `Task<T> Get<T>(CancellationToken token)`. -/
def getOf : MethodInfo ℕ ℕ := ⟨1, [.named .cancellationToken], taskOf (.parameter 0)⟩

/-- The interface with the two methods. -/
def getTwice : TaskInterface ℕ where
  type := ⟨[getInt.bind (.parameter ∘ .inr), getOf.bind (.parameter ∘ .inr)], fun _ => intType⟩
  interfaces := []
  nodup := by decide
  returnsTask := by
    intro t ht m hm
    cases List.mem_singleton.mp ht
    obtain rfl | hm := List.mem_cons.mp hm
    · exact .inr (.inr ⟨_, rfl⟩)
    · cases List.mem_singleton.mp hm
      exact .inr (.inr ⟨_, rfl⟩)

/-- A call of one of them, with a token, on a target that throws. -/
def getCall (m : MethodInfo ℕ ℕ)
    (returns : getTaskType (m.returnType.bind fun _ => intType) = .genericTask intType)
    (position : m.getCancellationParameter = some 0) :
    MethodCall ℕ ℕ Unit Unit Empty (fun _ => ℕ) (.genericTask intType) where
  method := m
  typeArguments := fun _ => intType
  returns := returns
  arguments := [.cancellationToken ()]
  conforms := by
    intro i hi
    cases position.symm.trans hi
    exact ⟨(), rfl⟩
  target := fun _ => throw (.own 7)

/-- `NullDispatcher` puts what the target throws into the task. -/
theorem sameResult_null : SameResult getTwice getTwice nullDispatcher
    (getCall getInt rfl rfl) (getCall getOf rfl rfl) () :=
  (sameResult_iff ⟨_, rfl⟩ ⟨_, rfl⟩ (getCall getInt rfl rfl) (getCall getOf rfl rfl)
    ⟨rfl, rfl, rfl⟩ (by decide) rfl rfl (by decide) rfl rfl nullDispatcher ()).mpr
    ⟨.error (.own 7), (), rfl⟩

/-- A dispatcher whose `Enqueue` throws before there is a task. -/
theorem not_sameResult :
    ¬ ∀ d : IDispatcher (ProxyException ℕ) (StateM Unit) (fun _ : MethodType ℕ Empty => ℕ) Unit,
      SameResult getTwice getTwice d (getCall getInt rfl rfl) (getCall getOf rfl rfl) () := by
  intro h
  have hsame := (h { nullDispatcher with
    enqueueFuncTaskOfWith := fun _ _ => throw (.own 9) }).generic
  exact ProxyException.wrap_ne (.own 9) (Except.error.inj (congrArg Prod.fst hsame))

end ComposableAsync.Factory
