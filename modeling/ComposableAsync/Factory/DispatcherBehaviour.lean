import ComposableAsync.Foundations.TypeExpr

/-!
# The functions behind the methods of a proxy

`FiberBehaviourCacherDispatcher<T>` builds one function for each method of `T` and of the
interfaces of `T`, in its static constructor. A method that returns a `Task<X>` gets a
delegate bound to `X`, or, if `X` is a type parameter of the method, a function that looks
at the result type of each call. An `X` that only contains such a parameter gets neither:
`CreateDelegate` throws, and with it every use of the class.

A closed interface has no type parameters left in its methods but their own.
-/
namespace ComposableAsync.Factory
open Foundations

inductive TypeName (K : Type) where
  | void
  | task
  | genericTask
  | cancellationToken
  | other (name : K)
  deriving DecidableEq, Repr

abbrev MethodType (K P : Type) := TypeExpr (TypeName K) P

variable {K P Q : Type}

/-- `Task<X>`. -/
def taskOf (x : MethodType K P) : MethodType K P := .apply (.named .genericTask) x

/-- `TaskDescription`, by its `MethodType`. -/
inductive TaskDescription (K P : Type) where
  | none
  | void
  | task
  | genericTask (type : MethodType K P)
  deriving DecidableEq, Repr

def getTaskType : MethodType K P → TaskDescription K P
  | .named .void => .void
  | .named .task => .task
  | .apply (.named .genericTask) type => .genericTask type
  | _ => .none

/-- `method` tells the methods of an interface apart. -/
structure MethodInfo (K P : Type) where
  method : ℕ
  parameterTypes : List (MethodType K P)
  returnType : MethodType K P
  deriving DecidableEq, Repr

namespace MethodInfo

def bind (f : P → MethodType K Q) (m : MethodInfo K P) : MethodInfo K Q where
  method := m.method
  parameterTypes := m.parameterTypes.map (·.bind f)
  returnType := m.returnType.bind f

variable [DecidableEq K] [DecidableEq P]

/-- The position of the first parameter that is a `CancellationToken`. -/
def getCancellationParameter (m : MethodInfo K P) : Option ℕ :=
  m.parameterTypes.findIdx? (· = .named .cancellationToken)

end MethodInfo

/-- What reflection and the dictionary throw, and the `NotSupportedException`. -/
inductive ProxyError where
  | unboundGenericParameters
  | argumentNull
  | nullReference
  | duplicateKey
  | notSupported
  deriving DecidableEq, Repr

/-- The delegates, with the position of the token in the arguments. -/
inductive InvocationOnDispatcher (K : Type) where
  | dispatch
  | enqueue (cancellationToken : Option ℕ)
  | proceed (result : MethodType K Empty) (cancellationToken : Option ℕ)
  | dynamicEnqueue (cancellationToken : Option ℕ)
  deriving DecidableEq, Repr

/-- `Continue` with no `Transform` hands the invocation on to the target. -/
structure ProxyFiberSolver (K : Type) where
  transform : Option (InvocationOnDispatcher K)
  continues : Bool
  deriving DecidableEq, Repr

section Select
variable [DecidableEq K]

/-- `MakeGenericMethod` takes any type, `CreateDelegate` a method without parameters. -/
def getInvocationOnDispatcherForGenericTask (targetType : MethodType K ℕ) (m : MethodInfo K ℕ) :
    Except ProxyError (InvocationOnDispatcher K) :=
  match targetType.toClosed with
  | some result => .ok (.proceed result m.getCancellationParameter)
  | none => .error .unboundGenericParameters

def buildTransformFunction (m : MethodInfo K ℕ) : Except ProxyError (ProxyFiberSolver K) :=
  match getTaskType m.returnType with
  | .void => .ok ⟨some .dispatch, false⟩
  | .task => .ok ⟨some (.enqueue m.getCancellationParameter), false⟩
  | .genericTask type =>
      if type.isParameter then .ok ⟨some (.dynamicEnqueue m.getCancellationParameter), false⟩
      else do return ⟨some (← getInvocationOnDispatcherForGenericTask type m), false⟩
  | .none => .error .notSupported

end Select

/-- The method of an invocation is the one of the interface with types for its parameters. -/
structure Invocation (K : Type) where
  method : MethodInfo K ℕ
  typeArguments : ℕ → MethodType K Empty

/-- What is called of the dispatcher. -/
inductive DispatcherCall (K : Type) where
  | dispatch
  | enqueue (cancellationToken : Option ℕ)
  | enqueueOf (result : MethodType K Empty) (cancellationToken : Option ℕ)
  deriving DecidableEq, Repr

def InvocationOnDispatcher.invoke (invocation : Invocation K) :
    InvocationOnDispatcher K → Except ProxyError (DispatcherCall K)
  | .dispatch => .ok .dispatch
  | .enqueue cancellationToken => .ok (.enqueue cancellationToken)
  | .proceed result cancellationToken => .ok (.enqueueOf result cancellationToken)
  | .dynamicEnqueue cancellationToken =>
      match getTaskType (invocation.method.returnType.bind invocation.typeArguments) with
      | .genericTask result => .ok (.enqueueOf result cancellationToken)
      | .none | .void | .task => .error .argumentNull

/-- An interface with its type arguments. The parameters in its declaration are those of
the interface, on the left, and those of the methods. -/
structure InterfaceType (K : Type) where
  methods : List (MethodInfo K (ℕ ⊕ ℕ))
  typeArguments : ℕ → MethodType K Empty

namespace InterfaceType
variable (t : InterfaceType K)

def close (m : MethodInfo K (ℕ ⊕ ℕ)) : MethodInfo K ℕ :=
  m.bind (Sum.elim (fun i => (t.typeArguments i).lift) .parameter)

def getMethods : List (MethodInfo K ℕ) := t.methods.map t.close

end InterfaceType

def MethodInfo.ReturnsTask (m : MethodInfo K P) : Prop :=
  m.returnType = .named .void ∨ m.returnType = .named .task ∨ ∃ x, m.returnType = taskOf x

/-- An interface whose methods return nothing or a task. Reflection has one object for each
method. -/
structure TaskInterface (K : Type) where
  type : InterfaceType K
  interfaces : List (InterfaceType K)
  nodup : ((type :: interfaces).flatMap InterfaceType.getMethods).Nodup
  returnsTask : ∀ t ∈ type :: interfaces, ∀ m ∈ t.methods, m.ReturnsTask

/-- `Dictionary<MethodInfo, ProxyFiberSolver>`. -/
abbrev Cache (K : Type) := List (MethodInfo K ℕ × ProxyFiberSolver K)

section Cache
variable [DecidableEq K]

def Cache.add (cache : Cache K) (m : MethodInfo K ℕ) (solver : ProxyFiberSolver K) :
    Except ProxyError (Cache K) :=
  if m ∈ cache.map Prod.fst then .error .duplicateKey else .ok (cache ++ [(m, solver)])

def registerType (cache : Cache K) (methods : List (MethodInfo K ℕ)) :
    Except ProxyError (Cache K) :=
  methods.foldlM (fun cache m => do cache.add m (← buildTransformFunction m)) cache

namespace TaskInterface
variable (i : TaskInterface K)

/-- The static constructor. -/
def cache : Except ProxyError (Cache K) := do
  let cache ← registerType [] i.type.getMethods
  i.interfaces.foldlM (fun cache t => registerType cache t.getMethods) cache

/-- Every use of the class runs into what its static constructor threw. -/
def getTransformFunction (invocation : Invocation K) : Except ProxyError (ProxyFiberSolver K) := do
  return ((← i.cache).lookup invocation.method).getD ⟨none, true⟩

/-- `DispatcherInterceptor<T>.Intercept`: `none` is `invocation.Proceed()`. -/
def intercept (invocation : Invocation K) : Except ProxyError (Option (DispatcherCall K)) := do
  let solver ← i.getTransformFunction invocation
  if solver.continues then return none
  match solver.transform with
  | some transform => return some (← transform.invoke invocation)
  | none => throw .nullReference

end TaskInterface
end Cache

section Asked
variable [DecidableEq K]

/-- The call that the declared return type asks for, at types for its parameters. -/
def InterfaceType.call (t : InterfaceType K) (m : MethodInfo K (ℕ ⊕ ℕ))
    (typeArguments : ℕ → MethodType K Empty) : DispatcherCall K :=
  match getTaskType m.returnType with
  | .none | .void => .dispatch
  | .task => .enqueue (t.close m).getCancellationParameter
  | .genericTask type => .enqueueOf (type.bind (Sum.elim t.typeArguments typeArguments))
      (t.close m).getCancellationParameter

/-- A type parameter of the method occurs in the result type only if it is that type. -/
def MethodInfo.Bindable (m : MethodInfo K ℕ) : Prop :=
  ∀ x, m.returnType = taskOf x → x.containsParameters = true → x.isParameter = true

namespace TaskInterface
variable (i : TaskInterface K)

def methods : List (MethodInfo K ℕ) := (i.type :: i.interfaces).flatMap InterfaceType.getMethods

/-- The cache is built, and every call of a method with any types for its parameters
becomes the one that its return type asks for. -/
def Proxied : Prop :=
  (∃ cache, i.cache = .ok cache) ∧
    ∀ t ∈ i.type :: i.interfaces, ∀ m ∈ t.methods, ∀ typeArguments,
      i.intercept ⟨t.close m, typeArguments⟩ = .ok (some (t.call m typeArguments))

end TaskInterface

omit [DecidableEq K] in
theorem InterfaceType.close_returnType (t : InterfaceType K) (m : MethodInfo K (ℕ ⊕ ℕ)) :
    (t.close m).returnType =
      m.returnType.bind (Sum.elim (fun i => (t.typeArguments i).lift) .parameter) := rfl

omit [DecidableEq K] in
/-- The parameters of the interface first, then those of the method, or all at once. -/
theorem InterfaceType.bind_close (t : InterfaceType K) (x : MethodType K (ℕ ⊕ ℕ))
    (typeArguments : ℕ → MethodType K Empty) :
    (x.bind (Sum.elim (fun i => (t.typeArguments i).lift) .parameter)).bind typeArguments =
      x.bind (Sum.elim t.typeArguments typeArguments) := by
  rw [TypeExpr.bind_bind]
  congr 1
  funext p
  cases p with
  | inl i => exact (TypeExpr.lift_bind ..).trans (TypeExpr.lift_self _)
  | inr i => rfl

theorem MethodInfo.bindable_of_build {m : MethodInfo K ℕ} {solver : ProxyFiberSolver K}
    (h : buildTransformFunction m = .ok solver) : m.Bindable := by
  intro x hm hx
  by_contra hp
  simp only [buildTransformFunction, hm, taskOf, getTaskType, if_neg hp,
    getInvocationOnDispatcherForGenericTask, TypeExpr.toClosed_eq_none_iff.mpr hx] at h
  cases h

theorem MethodInfo.Bindable.build {m : MethodInfo K ℕ} (hb : m.Bindable) {x : MethodType K ℕ}
    (hm : m.returnType = taskOf x) :
    ∃ transform, buildTransformFunction m = .ok ⟨some transform, false⟩ ∧
      ∀ typeArguments, transform.invoke ⟨m, typeArguments⟩ =
        .ok (.enqueueOf (x.bind typeArguments) m.getCancellationParameter) := by
  by_cases hp : x.isParameter = true
  · refine ⟨.dynamicEnqueue m.getCancellationParameter, ?_, fun typeArguments => ?_⟩
    · simp only [buildTransformFunction, hm, taskOf, getTaskType, if_pos hp]
    · simp only [InvocationOnDispatcher.invoke, hm, taskOf, TypeExpr.bind, getTaskType]
  · have hclosed : x.containsParameters = false := Bool.eq_false_iff.mpr fun hc => hp (hb x hm hc)
    obtain ⟨result, hresult⟩ := TypeExpr.exists_closed hclosed
    refine ⟨.proceed result m.getCancellationParameter, ?_, fun typeArguments => ?_⟩
    · simp only [buildTransformFunction, hm, taskOf, getTaskType, if_neg hp,
        getInvocationOnDispatcherForGenericTask, hresult]
      rfl
    · rw [TypeExpr.bind_of_closed hresult]
      rfl

theorem InterfaceType.build_close {t : InterfaceType K} {m : MethodInfo K (ℕ ⊕ ℕ)}
    (hm : m.ReturnsTask) (hb : (t.close m).Bindable) :
    ∃ transform, buildTransformFunction (t.close m) = .ok ⟨some transform, false⟩ ∧
      ∀ typeArguments, transform.invoke ⟨t.close m, typeArguments⟩ =
        .ok (t.call m typeArguments) := by
  rcases hm with hm | hm | ⟨x, hm⟩
  · have hreturn : (t.close m).returnType = .named .void := by rw [t.close_returnType, hm]; rfl
    refine ⟨.dispatch, by simp only [buildTransformFunction, hreturn, getTaskType], fun _ => ?_⟩
    simp only [InvocationOnDispatcher.invoke, InterfaceType.call, hm, getTaskType]
  · have hreturn : (t.close m).returnType = .named .task := by rw [t.close_returnType, hm]; rfl
    refine ⟨.enqueue (t.close m).getCancellationParameter, ?_, fun _ => ?_⟩
    · simp only [buildTransformFunction, hreturn, getTaskType]
    · simp only [InvocationOnDispatcher.invoke, InterfaceType.call, hm, getTaskType]
  · have hreturn : (t.close m).returnType =
        taskOf (x.bind (Sum.elim (fun i => (t.typeArguments i).lift) .parameter)) := by
      rw [t.close_returnType, hm]
      rfl
    obtain ⟨transform, hbuild, hinvoke⟩ := hb.build hreturn
    refine ⟨transform, hbuild, fun typeArguments => ?_⟩
    rw [hinvoke, t.bind_close]
    simp only [InterfaceType.call, hm, taskOf, getTaskType]

theorem Cache.add_eq_ok_iff {cache final : Cache K} {m : MethodInfo K ℕ}
    {solver : ProxyFiberSolver K} :
    cache.add m solver = .ok final ↔
      m ∉ cache.map Prod.fst ∧ final = cache ++ [(m, solver)] := by
  unfold Cache.add
  split
  · exact ⟨nofun, fun h => absurd ‹_› h.1⟩
  · exact ⟨fun h => ⟨‹_›, (Except.ok.inj h).symm⟩, fun h => by rw [h.2]⟩

theorem registerType_cons {cache final : Cache K} {m : MethodInfo K ℕ}
    {methods : List (MethodInfo K ℕ)} :
    registerType cache (m :: methods) = .ok final ↔
      ∃ solver, buildTransformFunction m = .ok solver ∧ m ∉ cache.map Prod.fst ∧
        registerType (cache ++ [(m, solver)]) methods = .ok final := by
  unfold registerType
  rw [List.foldlM_cons]
  cases hb : buildTransformFunction m with
  | error e =>
      change Except.error e = .ok final ↔ _
      refine ⟨nofun, ?_⟩
      rintro ⟨_, h, -⟩
      cases h
  | ok solver =>
      change (cache.add m solver >>= fun next => registerType next methods) = .ok final ↔ _
      cases ha : cache.add m solver with
      | error e =>
          change Except.error e = .ok final ↔ _
          refine ⟨nofun, ?_⟩
          rintro ⟨_, ⟨⟩, hm, -⟩
          cases ha.symm.trans (Cache.add_eq_ok_iff.mpr ⟨hm, rfl⟩)
      | ok next =>
          obtain ⟨hm, rfl⟩ := Cache.add_eq_ok_iff.mp ha
          refine ⟨fun h => ⟨solver, rfl, hm, h⟩, ?_⟩
          rintro ⟨_, ⟨⟩, -, h⟩
          exact h

theorem registerType_append (cache : Cache K) (first second : List (MethodInfo K ℕ)) :
    registerType cache (first ++ second) =
      registerType cache first >>= fun next => registerType next second :=
  List.foldlM_append

theorem exists_registerType {methods : List (MethodInfo K ℕ)}
    (hb : ∀ m ∈ methods, ∃ solver, buildTransformFunction m = .ok solver) (cache : Cache K)
    (hn : (cache.map Prod.fst ++ methods).Nodup) :
    ∃ final, registerType cache methods = .ok final := by
  induction methods generalizing cache with
  | nil => exact ⟨cache, rfl⟩
  | cons m methods ih =>
      obtain ⟨solver, hsolver⟩ := hb m List.mem_cons_self
      have hm : m ∉ cache.map Prod.fst := fun h =>
        (List.nodup_append.mp hn).2.2 m h m List.mem_cons_self rfl
      obtain ⟨final, hfinal⟩ := ih (fun n hn => hb n (List.mem_cons_of_mem m hn))
        (cache ++ [(m, solver)]) (by simpa using hn)
      exact ⟨final, registerType_cons.mpr ⟨solver, hsolver, hm, hfinal⟩⟩

theorem registerType_lookup {methods : List (MethodInfo K ℕ)} {cache final : Cache K}
    (h : registerType cache methods = .ok final) {m : MethodInfo K ℕ}
    {solver : ProxyFiberSolver K} (hm : cache.lookup m = some solver) :
    final.lookup m = some solver := by
  induction methods generalizing cache with
  | nil =>
      cases h
      exact hm
  | cons n methods ih =>
      obtain ⟨_, -, -, h⟩ := registerType_cons.mp h
      exact ih h (by rw [List.lookup_append, hm, Option.some_or])

theorem registerType_mem {methods : List (MethodInfo K ℕ)} {cache final : Cache K}
    (h : registerType cache methods = .ok final) {m : MethodInfo K ℕ} (hm : m ∈ methods) :
    ∃ solver, buildTransformFunction m = .ok solver ∧ final.lookup m = some solver := by
  induction methods generalizing cache with
  | nil => cases hm
  | cons n methods ih =>
      obtain ⟨solver, hsolver, hnew, h⟩ := registerType_cons.mp h
      rcases List.mem_cons.mp hm with rfl | hm
      · refine ⟨solver, hsolver, registerType_lookup h ?_⟩
        have hnone : cache.lookup m = none := by
          refine List.lookup_eq_none_iff.mpr fun p hp => ?_
          exact bne_iff_ne.mpr fun he => hnew (List.mem_map.mpr ⟨p, hp, he.symm⟩)
        rw [List.lookup_append, hnone, Option.none_or, List.lookup_cons_self]
      · exact ih h hm

namespace TaskInterface
variable (i : TaskInterface K)

theorem cache_eq : i.cache = registerType [] i.methods := by
  have happ (types : List (InterfaceType K)) (cache : Cache K) :
      types.foldlM (fun cache t => registerType cache t.getMethods) cache =
        registerType cache (types.flatMap InterfaceType.getMethods) := by
    induction types generalizing cache with
    | nil => rfl
    | cons t types ih =>
        rw [List.foldlM_cons, List.flatMap_cons, registerType_append]
        exact congrArg (registerType cache t.getMethods >>= ·) (funext ih)
  rw [cache, methods, List.flatMap_cons, registerType_append]
  exact congrArg (registerType [] i.type.getMethods >>= ·) (funext (happ i.interfaces))

theorem intercept_eq {cache : Cache K} (hc : i.cache = .ok cache) {invocation : Invocation K}
    {transform : InvocationOnDispatcher K}
    (hl : cache.lookup invocation.method = some ⟨some transform, false⟩) :
    i.intercept invocation = some <$> transform.invoke invocation := by
  have hf : i.getTransformFunction invocation = .ok ⟨some transform, false⟩ := by
    rw [getTransformFunction, hc]
    change Except.ok ((cache.lookup invocation.method).getD _) = _
    rw [hl, Option.getD_some]
  rw [intercept, hf]
  change (do return some (← transform.invoke invocation)) = _
  cases transform.invoke invocation <;> rfl

/-- The interface works exactly when a type parameter of a method occurs in its result
type only as the whole of it. -/
theorem proxied_iff : i.Proxied ↔ ∀ m ∈ i.methods, m.Bindable := by
  constructor
  · rintro ⟨⟨cache, hcache⟩, -⟩ m hm
    rw [cache_eq] at hcache
    obtain ⟨solver, hsolver, -⟩ := registerType_mem hcache hm
    exact MethodInfo.bindable_of_build hsolver
  · intro hb
    have hmem {t : InterfaceType K} (ht : t ∈ i.type :: i.interfaces)
        {m : MethodInfo K (ℕ ⊕ ℕ)} (hm : m ∈ t.methods) : t.close m ∈ i.methods :=
      List.mem_flatMap.mpr ⟨t, ht, List.mem_map_of_mem hm⟩
    have hbuild : ∀ m ∈ i.methods, ∃ solver, buildTransformFunction m = .ok solver := by
      intro m hm
      obtain ⟨t, ht, hmt⟩ := List.mem_flatMap.mp hm
      obtain ⟨n, hn, rfl⟩ := List.mem_map.mp hmt
      obtain ⟨transform, htransform, -⟩ :=
        InterfaceType.build_close (i.returnsTask t ht n hn) (hb _ hm)
      exact ⟨_, htransform⟩
    obtain ⟨cache, hcache⟩ := exists_registerType hbuild [] i.nodup
    refine ⟨⟨cache, i.cache_eq.trans hcache⟩, fun t ht m hm typeArguments => ?_⟩
    obtain ⟨transform, htransform, hcall⟩ :=
      InterfaceType.build_close (i.returnsTask t ht m hm) (hb _ (hmem ht hm))
    obtain ⟨solver, hsolver, hlookup⟩ := registerType_mem hcache (hmem ht hm)
    cases hsolver.symm.trans htransform
    rw [i.intercept_eq (i.cache_eq.trans hcache) hlookup, hcall]
    rfl

/-- One method without a function, and no call of any method gets through. -/
theorem intercept_error {m : MethodInfo K ℕ} (hm : m ∈ i.methods) (hb : ¬ m.Bindable)
    (invocation : Invocation K) : ∃ e, i.intercept invocation = .error e := by
  cases hcache : i.cache with
  | error e =>
      refine ⟨e, ?_⟩
      rw [intercept, getTransformFunction, hcache]
      rfl
  | ok cache =>
      rw [cache_eq] at hcache
      obtain ⟨solver, hsolver, -⟩ := registerType_mem hcache hm
      exact (hb (MethodInfo.bindable_of_build hsolver)).elim

end TaskInterface
end Asked

/-- `interface I { Task<List<TOther>> GetResult<TOther>(); }`. -/
def getResultList : TaskInterface ℕ where
  type := ⟨[⟨0, [], taskOf (.apply (.named (.other 0)) (.parameter (.inr 0)))⟩],
    fun _ => .named (.other 1)⟩
  interfaces := []
  nodup := by decide
  returnsTask := by
    intro t ht m hm
    cases List.mem_singleton.mp ht
    cases List.mem_singleton.mp hm
    exact .inr (.inr ⟨_, rfl⟩)

/-- Not even the cache is built. -/
theorem list_of_parameter_fails : getResultList.cache = .error .unboundGenericParameters ∧
    ¬ ∀ i : TaskInterface ℕ, i.Proxied := by
  have hcache : getResultList.cache = .error .unboundGenericParameters := by rfl
  refine ⟨hcache, fun h => ?_⟩
  obtain ⟨⟨cache, hok⟩, -⟩ := h getResultList
  cases hok.symm.trans hcache

end ComposableAsync.Factory
