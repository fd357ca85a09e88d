import ComposableAsync.Foundations.Machine
import Mathlib.Data.Fintype.Defs

/-!
# One dispatcher for each client

`UseDispatcherByRemoteIpAddress` and `UseDispatcherByUser` keep a dictionary of
dispatchers by the key of the client, and every request goes through `GetOrCreate`:
look the key up, ask the finder for a dispatcher, add it. The requests overlap and the
three accesses are three steps, each of which another request may come before.

A request that looks a key up while another one is between its own look-up and `Add`
misses as well: a second dispatcher is created and one of the two calls of `Add` throws.
-/
namespace ComposableAsync.Asp
open Foundations

/-- Why a request ended with an exception: the key is null, the key is in the dictionary
already, or the finder threw. -/
inductive Failure (X : Type) where
  | argumentNull
  | duplicateKey
  | finder (exception : X)
  deriving DecidableEq, Repr

/-- A request by what it has done: `missed` and `created` are inside `GetOrCreate`, `got`
is its return, `next` a request that goes on without a dispatcher. -/
inductive Request (K D X : Type) where
  | arrived
  | missed (address : K)
  | created (address : K) (dispatcher : D)
  | got (dispatcher : D)
  | enqueued (dispatcher : D)
  | next
  | failed (cause : Failure X)
  deriving DecidableEq, Repr

namespace Request
variable {K D X : Type}

/-- The key of a request that missed and has not ended its `Add`. -/
def creating : Request K D X → Option K
  | .missed k | .created k _ => some k
  | .arrived | .got _ | .enqueued _ | .next | .failed _ => none

/-- The dispatcher that `GetOrCreate` returned. -/
def dispatcher : Request K D X → Option D
  | .got d | .enqueued d => some d
  | .arrived | .missed _ | .created _ _ | .next | .failed _ => none

/-- An access of the dictionary threw. -/
def failedByCache : Request K D X → Bool
  | .failed .argumentNull | .failed .duplicateKey => true
  | .arrived | .missed _ | .created _ _ | .got _ | .enqueued _ | .next
  | .failed (.finder _) => false

/-- A request that is done without a dispatcher. -/
def Outside (x : Request K D X) : Prop :=
  x.dispatcher = none ∧ x.creating = none ∧ x ≠ .failed .duplicateKey

end Request

/-- `creations` is history: the dispatchers the finder gave, with the key each is for. -/
structure Middleware (R K D X : Type) where
  cache : K → Option D := fun _ => none
  requests : R → Request K D X := fun _ => .arrived
  creations : List (K × D) := []

/-- The accesses of a request; `answer` is what `dispatcherFinder()` returns or throws. -/
inductive RequestAct (R D X : Type) where
  | tryGetValue (r : R)
  | dispatcherFinder (r : R) (answer : Except X D)
  | add (r : R)
  | enqueue (r : R)

variable {R K D X : Type}

namespace Middleware

def setRequest [DecidableEq R] (s : Middleware R K D X) (r : R) (x : Request K D X) :
    Middleware R K D X :=
  { s with requests := Function.update s.requests r x }

section
variable [DecidableEq R] {s : Middleware R K D X} {q r : R} {x : Request K D X}

@[simp] theorem setRequest_self : (s.setRequest r x).requests r = x := Function.update_self ..

theorem setRequest_of_ne (h : q ≠ r) : (s.setRequest r x).requests q = s.requests q :=
  Function.update_of_ne h ..

end

variable [DecidableEq R] [DecidableEq K]

/-- One access of one request; `whenNull` is the end of a request that has no key. -/
def step (whenNull : Request K D X) (key : R → Option K) (s : Middleware R K D X) :
    RequestAct R D X → Option (Middleware R K D X)
  | .tryGetValue r =>
      match s.requests r, key r with
      | .arrived, none => some (s.setRequest r whenNull)
      | .arrived, some address =>
          match s.cache address with
          | some dispatcher => some (s.setRequest r (.got dispatcher))
          | none => some (s.setRequest r (.missed address))
      | _, _ => none
  | .dispatcherFinder r answer =>
      match s.requests r, answer with
      | .missed address, .ok dispatcher =>
          some { s.setRequest r (.created address dispatcher) with
            creations := s.creations ++ [(address, dispatcher)] }
      | .missed _, .error x => some (s.setRequest r (.failed (.finder x)))
      | _, _ => none
  | .add r =>
      match s.requests r with
      | .created address dispatcher =>
          match s.cache address with
          | some _ => some (s.setRequest r (.failed .duplicateKey))
          | none => some { s.setRequest r (.got dispatcher) with
              cache := Function.update s.cache address (some dispatcher) }
      | _ => none
  | .enqueue r =>
      match s.requests r with
      | .got dispatcher => some (s.setRequest r (.enqueued dispatcher))
      | _ => none

end Middleware

/-- `TryGetValue` throws on a null address. -/
def useDispatcherByRemoteIpAddress [DecidableEq R] [DecidableEq K] (remoteIpAddress : R → Option K) :
    Machine (Middleware R K D X) (RequestAct R D X) :=
  ⟨{}, Middleware.step (.failed .argumentNull) remoteIpAddress⟩

/-- A request without a user goes on to `next()`. -/
def useDispatcherByUser [DecidableEq R] [DecidableEq K] (user : R → Option K) :
    Machine (Middleware R K D X) (RequestAct R D X) :=
  ⟨{}, Middleware.step .next user⟩

namespace Middleware
variable {whenNull : Request K D X} {key : R → Option K} {s t : Middleware R K D X}

/-- What one access of a request does. -/
inductive Effect [DecidableEq R] [DecidableEq K] (whenNull : Request K D X) (key : R → Option K)
    (s : Middleware R K D X) : RequestAct R D X → Middleware R K D X → Prop
  | noKey {r : R} (h : s.requests r = .arrived) (hk : key r = none) :
      Effect whenNull key s (.tryGetValue r) (s.setRequest r whenNull)
  | hit {r : R} {k : K} {d : D} (h : s.requests r = .arrived) (hk : key r = some k)
      (hc : s.cache k = some d) :
      Effect whenNull key s (.tryGetValue r) (s.setRequest r (.got d))
  | miss {r : R} {k : K} (h : s.requests r = .arrived) (hk : key r = some k)
      (hc : s.cache k = none) :
      Effect whenNull key s (.tryGetValue r) (s.setRequest r (.missed k))
  | create {r : R} {k : K} (d : D) (h : s.requests r = .missed k) :
      Effect whenNull key s (.dispatcherFinder r (.ok d))
        { s.setRequest r (.created k d) with creations := s.creations ++ [(k, d)] }
  | throw {r : R} {k : K} (x : X) (h : s.requests r = .missed k) :
      Effect whenNull key s (.dispatcherFinder r (.error x))
        (s.setRequest r (.failed (.finder x)))
  | add {r : R} {k : K} {d : D} (h : s.requests r = .created k d) (hc : s.cache k = none) :
      Effect whenNull key s (.add r)
        { s.setRequest r (.got d) with cache := Function.update s.cache k (some d) }
  | duplicate {r : R} {k : K} {d e : D} (h : s.requests r = .created k d)
      (hc : s.cache k = some e) :
      Effect whenNull key s (.add r) (s.setRequest r (.failed .duplicateKey))
  | enqueue {r : R} {d : D} (h : s.requests r = .got d) :
      Effect whenNull key s (.enqueue r) (s.setRequest r (.enqueued d))

theorem step_effect [DecidableEq R] [DecidableEq K] {a : RequestAct R D X}
    (h : s.step whenNull key a = some t) :
    Effect whenNull key s a t := by
  cases a with
  | tryGetValue r =>
      simp only [step] at h
      split at h
      · rename_i hr hk
        cases h
        exact .noKey hr hk
      · rename_i k hr hk
        split at h
        · rename_i d hc
          cases h
          exact .hit hr hk hc
        · rename_i hc
          cases h
          exact .miss hr hk hc
      · cases h
  | dispatcherFinder r answer =>
      simp only [step] at h
      split at h
      · rename_i k d hr
        cases h
        exact .create d hr
      · rename_i k x hr
        cases h
        exact .throw x hr
      · cases h
  | add r =>
      simp only [step] at h
      split at h
      · rename_i k d hr
        split at h
        · rename_i e hc
          cases h
          exact .duplicate hr hc
        · rename_i hc
          cases h
          exact .add hr hc
      · cases h
  | enqueue r =>
      simp only [step] at h
      split at h
      · rename_i d hr
        cases h
        exact .enqueue hr
      · cases h

/-- The dispatchers of the requests: none fails on the dictionary, a key has one dispatcher
created for it at most, and the requests of a key are enqueued on the same one. -/
structure OnePerKey (key : R → Option K) (s : Middleware R K D X) : Prop where
  notFailed : ∀ r, (s.requests r).failedByCache = false
  created : (s.creations.map Prod.fst).Nodup
  enqueued : ∀ q r d e, key q = key r → s.requests q = .enqueued d →
    s.requests r = .enqueued e → d = e

/-- No request looks its key up while another one of that key is creating its dispatcher. -/
def NoOverlap (key : R → Option K) (s : Middleware R K D X) : RequestAct R D X → Prop
  | .tryGetValue r => ∀ k, key r = some k → ∀ q, (s.requests q).creating ≠ some k
  | .dispatcherFinder _ _ | .add _ | .enqueue _ => True

/-- The dictionary against the requests. -/
structure Inv (key : R → Option K) (s : Middleware R K D X) : Prop where
  served : ∀ r d, (s.requests r).dispatcher = some d → ∃ k, key r = some k ∧ s.cache k = some d
  creating : ∀ r k, (s.requests r).creating = some k → key r = some k ∧ s.cache k = none
  alone : ∀ q r k, (s.requests q).creating = some k → (s.requests r).creating = some k → q = r
  created : ∀ k, k ∈ s.creations.map Prod.fst →
    s.cache k ≠ none ∨ ∃ r d, s.requests r = .created k d
  nodup : (s.creations.map Prod.fst).Nodup
  unique : ∀ r, s.requests r ≠ .failed .duplicateKey

theorem Inv.onePerKey (hi : Inv key s) (hnull : ∀ r, s.requests r ≠ .failed .argumentNull) :
    OnePerKey key s := by
  refine ⟨fun r => ?_, hi.nodup, fun q r d e hk hq hr => ?_⟩
  · cases hr : s.requests r with
    | failed cause =>
        cases cause with
        | argumentNull => exact (hnull r hr).elim
        | duplicateKey => exact (hi.unique r hr).elim
        | finder => rfl
    | arrived | missed | created | got | enqueued | next => rfl
  · obtain ⟨k, hkq, hcq⟩ := hi.served q d (by rw [hq]; rfl)
    obtain ⟨l, hlr, hcr⟩ := hi.served r e (by rw [hr]; rfl)
    rw [hk, hlr] at hkq
    cases hkq
    rw [hcq] at hcr
    exact Option.some_injective _ hcr

variable [DecidableEq R]

theorem Inv.setRequest (hi : Inv key s) {r : R} {x : Request K D X}
    (hserved : ∀ d, x.dispatcher = some d → ∃ k, key r = some k ∧ s.cache k = some d)
    (hcreating : ∀ k, x.creating = some k → key r = some k ∧ s.cache k = none ∧
      ∀ q, q ≠ r → (s.requests q).creating ≠ some k)
    (hold : ∀ k d, s.requests r ≠ .created k d) (hx : x ≠ .failed .duplicateKey) :
    Inv key (s.setRequest r x) := by
  constructor
  · exact (Function.forall_update_iff _ fun q (y : Request K D X) =>
      ∀ d, y.dispatcher = some d → ∃ k, key q = some k ∧ s.cache k = some d).mpr
        ⟨hserved, fun q _ => hi.served q⟩
  · exact (Function.forall_update_iff _ fun q (y : Request K D X) =>
      ∀ k, y.creating = some k → key q = some k ∧ s.cache k = none).mpr
        ⟨fun k hk => ⟨(hcreating k hk).1, (hcreating k hk).2.1⟩, fun q _ => hi.creating q⟩
  · intro p q k hp hq
    simp only [Middleware.setRequest, Function.update_apply] at hp hq
    split at hp <;> split at hq
    · rename_i hpr hqr
      rw [hpr, hqr]
    · rename_i hqr
      exact ((hcreating k hp).2.2 q hqr hq).elim
    · rename_i hpr _
      exact ((hcreating k hq).2.2 p hpr hp).elim
    · exact hi.alone p q k hp hq
  · intro k hk
    obtain h | ⟨q, d, hq⟩ := hi.created k hk
    · exact .inl h
    · refine .inr ⟨q, d, ?_⟩
      have hqr : q ≠ r := by
        rintro rfl
        exact hold k d hq
      exact (setRequest_of_ne hqr).trans hq
  · exact hi.nodup
  · exact (Function.forall_update_iff _ fun _ (y : Request K D X) => y ≠ .failed .duplicateKey).mpr
      ⟨hx, fun q _ => hi.unique q⟩

theorem Inv.leave (hi : Inv key s) {r : R} {x : Request K D X} (hx : x.Outside)
    (hold : ∀ k d, s.requests r ≠ .created k d) : Inv key (s.setRequest r x) := by
  obtain ⟨hdispatcher, hcreating, hunique⟩ := hx
  apply hi.setRequest
  · simp [hdispatcher]
  · simp [hcreating]
  · exact hold
  · exact hunique

/-- The finder answers the only request that is creating a dispatcher for its key. -/
theorem Inv.create (hi : Inv key s) {r : R} {k : K} (d : D) (hr : s.requests r = .missed k) :
    Inv key { s.setRequest r (.created k d) with creations := s.creations ++ [(k, d)] } := by
  have hcreating : (s.requests r).creating = some k := by rw [hr]; rfl
  obtain ⟨hkey, hcache⟩ := hi.creating r k hcreating
  have hnew : k ∉ s.creations.map Prod.fst := by
    intro hk
    obtain h | ⟨q, e, hq⟩ := hi.created k hk
    · exact h hcache
    · obtain rfl := hi.alone q r k (by rw [hq]; rfl) hcreating
      rw [hr] at hq
      cases hq
  have hset : Inv key (s.setRequest r (.created k d)) := by
    apply hi.setRequest
    · simp [Request.dispatcher]
    · rintro l ⟨⟩
      refine ⟨hkey, hcache, fun q hq hcq => hq ?_⟩
      exact hi.alone q r k hcq hcreating
    · simp [hr]
    · simp
  refine ⟨hset.served, hset.creating, hset.alone, fun l hl => ?_, ?_, hset.unique⟩
  · simp only [List.map_append, List.map_cons, List.map_nil, List.mem_append,
      List.mem_singleton] at hl
    obtain hl | rfl := hl
    · exact hset.created l hl
    · exact .inr ⟨r, d, Function.update_self ..⟩
  · simp only [List.map_append, List.map_cons, List.map_nil]
    refine List.nodup_append.mpr ⟨hi.nodup, by simp, fun l hl m hm => ?_⟩
    rw [List.mem_singleton.mp hm]
    exact fun h => hnew (h ▸ hl)

variable [DecidableEq K]

theorem Inv.add (hi : Inv key s) {r : R} {k : K} {d : D} (hr : s.requests r = .created k d) :
    Inv key { s.setRequest r (.got d) with
      cache := Function.update s.cache k (some d) } := by
  have hcreating : (s.requests r).creating = some k := by rw [hr]; rfl
  obtain ⟨hkey, hcache⟩ := hi.creating r k hcreating
  have hother : ∀ q l, ((s.setRequest r (.got d)).requests q).creating = some l →
      q ≠ r ∧ (s.requests q).creating = some l := by
    intro q l hq
    simp only [Middleware.setRequest, Function.update_apply] at hq
    split at hq
    · cases hq
    · rename_i hqr
      exact ⟨hqr, hq⟩
  constructor
  · intro q e hq
    simp only [Middleware.setRequest, Function.update_apply] at hq
    split at hq
    · rename_i hqr
      cases hq
      exact ⟨k, hqr ▸ hkey, Function.update_self ..⟩
    · obtain ⟨l, hl, hc⟩ := hi.served q e hq
      refine ⟨l, hl, ?_⟩
      have hlk : l ≠ k := by
        rintro rfl
        rw [hcache] at hc
        cases hc
      exact (Function.update_of_ne hlk ..).trans hc
  · intro q l hq
    obtain ⟨hqr, hold⟩ := hother q l hq
    obtain ⟨hl, hc⟩ := hi.creating q l hold
    refine ⟨hl, ?_⟩
    have hlk : l ≠ k := by
      rintro rfl
      exact hqr (hi.alone q r l hold hcreating)
    exact (Function.update_of_ne hlk ..).trans hc
  · intro p q l hp hq
    exact hi.alone p q l (hother p l hp).2 (hother q l hq).2
  · intro l hl
    by_cases hlk : l = k
    · subst hlk
      refine .inl ?_
      simp
    · obtain h | ⟨q, e, hq⟩ := hi.created l hl
      · refine .inl ?_
        simpa only [Function.update_of_ne hlk] using h
      · refine .inr ⟨q, e, ?_⟩
        have hqr : q ≠ r := by
          rintro rfl
          rw [hr] at hq
          cases hq
          exact hlk rfl
        exact (setRequest_of_ne hqr).trans hq
  · exact hi.nodup
  · exact (Function.forall_update_iff _ fun _ (y : Request K D X) =>
      y ≠ .failed .duplicateKey).mpr ⟨by simp, fun q _ => hi.unique q⟩

/-- Every step of requests that do not overlap keeps the dictionary in order. -/
theorem Inv.step {a : RequestAct R D X} (hi : Inv key s) (hnull : whenNull.Outside)
    (ha : NoOverlap key s a) (h : s.step whenNull key a = some t) : Inv key t := by
  cases step_effect h with
  | noKey hr _ => exact hi.leave hnull (by simp [hr])
  | @hit r k d hr hk hc =>
      apply hi.setRequest
      · rintro e ⟨⟩
        exact ⟨k, hk, hc⟩
      · simp [Request.creating]
      · simp [hr]
      · simp
  | @miss r k hr hk hc =>
      apply hi.setRequest
      · simp [Request.dispatcher]
      · rintro l ⟨⟩
        exact ⟨hk, hc, fun q _ => ha k hk q⟩
      · simp [hr]
      · simp
  | create d hr => exact hi.create d hr
  | throw x hr => exact hi.leave ⟨rfl, rfl, by simp⟩ (by simp [hr])
  | add hr _ => exact hi.add hr
  | @duplicate r k d e hr hc =>
      rw [(hi.creating r k (by rw [hr]; rfl)).2] at hc
      cases hc
  | @enqueue r d hr =>
      apply hi.setRequest
      · rintro e ⟨⟩
        exact hi.served r d (by rw [hr]; rfl)
      · simp [Request.creating]
      · simp [hr]
      · simp

/-- Only a request without a key fails on a null key, and only where null fails. -/
theorem argumentNull_step {a : RequestAct R D X}
    (ha : whenNull ≠ .failed .argumentNull ∨ ∀ r, a = .tryGetValue r → key r ≠ none)
    (hs : ∀ r, s.requests r ≠ .failed .argumentNull) (h : s.step whenNull key a = some t) :
    ∀ r, t.requests r ≠ .failed .argumentNull := by
  have hset : ∀ r (x : Request K D X), x ≠ .failed .argumentNull →
      ∀ q, (s.setRequest r x).requests q ≠ .failed .argumentNull := by
    intro r x hx
    exact (Function.forall_update_iff _ fun _ (y : Request K D X) =>
      y ≠ .failed .argumentNull).mpr ⟨hx, fun q _ => hs q⟩
  cases step_effect h with
  | @noKey r _ hk =>
      obtain hw | hkey := ha
      · exact hset r whenNull hw
      · exact (hkey r rfl hk).elim
  | hit | miss | create | throw | add | duplicate | enqueue => exact hset _ _ (by simp)

/-- The rule for both middlewares: no overlap, and no failure on a null key. -/
theorem onePerKey_reachable {guard : Middleware R K D X → RequestAct R D X → Prop}
    (hnull : whenNull.Outside)
    (hguard : ∀ s a, guard s a → NoOverlap key s a ∧
      (whenNull ≠ .failed .argumentNull ∨ ∀ r, a = .tryGetValue r → key r ≠ none))
    (hr : (⟨{}, step whenNull key⟩ : Machine (Middleware R K D X) _).ReachableUnder guard s) :
    Inv key s ∧ OnePerKey key s := by
  have hinv : Inv key s ∧ ∀ r, s.requests r ≠ .failed .argumentNull := by
    refine hr.invariant (I := fun s => Inv key s ∧ ∀ r, s.requests r ≠ .failed .argumentNull) ?_ ?_
    · refine ⟨?_, by simp⟩
      constructor <;> simp [Request.dispatcher, Request.creating]
    · intro s a t _ ⟨hi, hs⟩ ha h
      obtain ⟨hoverlap, hkey⟩ := hguard s a ha
      exact ⟨hi.step hnull hoverlap h, argumentNull_step hkey hs h⟩
  exact ⟨hinv.1, hinv.1.onePerKey hinv.2⟩

end Middleware

/-- Every request has an address, and looks it up while no other request of that address
is between its missed look-up and the end of its `Add`. -/
def Separate (remoteIpAddress : R → Option K) (s : Middleware R K D X) : RequestAct R D X → Prop
  | .tryGetValue r =>
      ∃ address, remoteIpAddress r = some address ∧
        ∀ q, (s.requests q).creating ≠ some address
  | .dispatcherFinder _ _ | .add _ | .enqueue _ => True

variable [DecidableEq R] [DecidableEq K]

theorem inv_reachable {remoteIpAddress : R → Option K} {s : Middleware R K D X}
    (hr : (useDispatcherByRemoteIpAddress remoteIpAddress).ReachableUnder
      (Separate remoteIpAddress) s) :
    Middleware.Inv remoteIpAddress s ∧ Middleware.OnePerKey remoteIpAddress s := by
  refine Middleware.onePerKey_reachable ⟨rfl, rfl, by simp⟩ ?_ hr
  intro s a ha
  cases a with
  | tryGetValue r =>
      obtain ⟨address, hkey, hnone⟩ := ha
      constructor
      · intro k hk
        rw [hkey] at hk
        cases hk
        exact hnone
      · refine .inr ?_
        rintro _ ⟨⟩
        simp [hkey]
  | dispatcherFinder | add | enqueue => exact ⟨trivial, .inr (by simp)⟩

/-- In every run of requests that are separate in that sense, the cache fails none, an
address has one dispatcher at most, and its requests are enqueued on the same one. -/
theorem one_dispatcher_per_address (remoteIpAddress : R → Option K) (s : Middleware R K D X)
    (hr : (useDispatcherByRemoteIpAddress remoteIpAddress).ReachableUnder
      (Separate remoteIpAddress) s) :
    Middleware.OnePerKey remoteIpAddress s := (inv_reachable hr).2

instance [Fintype R] (remoteIpAddress : R → Option K) (s : Middleware R K D X)
    (a : RequestAct R D X) : Decidable (Separate remoteIpAddress s a) :=
  match a with
  | .tryGetValue r =>
      match h : remoteIpAddress r with
      | none => isFalse (by rintro ⟨_, hk, -⟩; rw [h] at hk; cases hk)
      | some address => decidable_of_iff (∀ q, (s.requests q).creating ≠ some address) (by
          simp [Separate, h])
  | .dispatcherFinder _ _ | .add _ | .enqueue _ => isTrue trivial

/-- The second request of an address comes after the first has added its dispatcher. -/
theorem one_dispatcher_per_address_second :
    ∃ s : Middleware Bool Unit ℕ Unit, s.requests true = .enqueued 5 ∧
      s.requests false = .enqueued 5 ∧ Middleware.OnePerKey (fun _ => some ()) s := by
  obtain ⟨s, hr, htrue, hfalse⟩ := (useDispatcherByRemoteIpAddress
      fun _ : Bool => some ()).exists_of_guarded_run (Separate fun _ => some ())
    (p := fun s : Middleware Bool Unit ℕ Unit =>
      s.requests true = .enqueued 5 ∧ s.requests false = .enqueued 5)
    [.tryGetValue true, .dispatcherFinder true (.ok 5), .add true, .tryGetValue false,
      .enqueue false, .enqueue true]
    (by decide) (by decide)
  exact ⟨s, htrue, hfalse, one_dispatcher_per_address _ s hr⟩

/-- Both requests of one address miss before either adds. -/
theorem two_dispatchers_for_an_address :
    ¬ ∀ s : Middleware Bool Unit ℕ Unit,
      (useDispatcherByRemoteIpAddress fun _ => some ()).Reachable s →
        Middleware.OnePerKey (fun _ => some ()) s := by
  intro h
  obtain ⟨s, hr, hfailed⟩ := (useDispatcherByRemoteIpAddress
      fun _ : Bool => some ()).exists_of_run
    (p := fun s : Middleware Bool Unit ℕ Unit => (s.requests false).failedByCache = true)
    [.tryGetValue true, .tryGetValue false, .dispatcherFinder true (.ok 0),
      .dispatcherFinder false (.ok 1), .add true, .add false]
    (by decide)
  have hone := (h s hr).notFailed false
  rw [hfailed] at hone
  cases hone

/-- Where a user is missing the request goes on, so only the overlap is in the way. -/
theorem one_dispatcher_per_user (user : R → Option K) (s : Middleware R K D X)
    (hr : (useDispatcherByUser user).ReachableUnder (Middleware.NoOverlap user) s) :
    Middleware.OnePerKey user s :=
  (Middleware.onePerKey_reachable ⟨rfl, rfl, by simp⟩
    (fun _ _ ha => ⟨ha, .inl (by simp)⟩) hr).2

/-- A request that is creating a dispatcher for a key comes to hold one. -/
theorem leads_created {remoteIpAddress : R → Option K} {s : Middleware R K D X} {q : R} {k : K}
    (hq : (s.requests q).creating = some k) (d : D) :
    ∃ t e, (useDispatcherByRemoteIpAddress remoteIpAddress).Leads (fun _ => True) s t ∧
      t.requests = Function.update s.requests q (.created k e) ∧ t.cache = s.cache := by
  cases hs : s.requests q with
  | missed l =>
      rw [hs] at hq
      cases hq
      have hstep : (useDispatcherByRemoteIpAddress remoteIpAddress).step s
          (.dispatcherFinder q (.ok d)) =
          some { s.setRequest q (.created k d) with creations := s.creations ++ [(k, d)] } := by
        simp only [useDispatcherByRemoteIpAddress, Middleware.step, hs]
      exact ⟨_, d, Machine.leads_single trivial hstep, rfl, rfl⟩
  | created l e =>
      rw [hs] at hq
      cases hq
      refine ⟨s, e, Machine.leads_refl, ?_, rfl⟩
      rw [← hs, Function.update_eq_self]
  | arrived | got | enqueued | next | failed =>
      rw [hs] at hq
      cases hq

/-- Of two requests that hold a dispatcher for one key, the second to add it fails. -/
theorem leads_duplicate {remoteIpAddress : R → Option K} {s : Middleware R K D X} {q r : R}
    {k : K} {d e : D} (hqr : q ≠ r) (hq : s.requests q = .created k d)
    (hr : s.requests r = .created k e) (hc : s.cache k = none) :
    ∃ t, (useDispatcherByRemoteIpAddress remoteIpAddress).Leads (fun _ => True) s t ∧
      t.requests r = .failed .duplicateKey := by
  have hadd : (useDispatcherByRemoteIpAddress remoteIpAddress).step s (.add q) =
      some { s.setRequest q (.got d) with cache := Function.update s.cache k (some d) } := by
    simp only [useDispatcherByRemoteIpAddress, Middleware.step, hq, hc]
  have hfail : (useDispatcherByRemoteIpAddress remoteIpAddress).step
      { s.setRequest q (.got d) with cache := Function.update s.cache k (some d) } (.add r) =
      some (({ s.setRequest q (.got d) with
        cache := Function.update s.cache k (some d) } : Middleware R K D X).setRequest r
          (.failed .duplicateKey)) := by
    have hr' : (s.setRequest q (.got d)).requests r = .created k e :=
      (Middleware.setRequest_of_ne hqr.symm).trans hr
    simp only [useDispatcherByRemoteIpAddress, Middleware.step, hr', Function.update_self]
  exact ⟨_, (Machine.leads_single trivial hadd).trans (Machine.leads_single trivial hfail),
    Function.update_self ..⟩

/-- A look-up outside the condition can always be continued to a failure of the cache. -/
theorem not_separate_fails {remoteIpAddress : R → Option K} {s t : Middleware R K D X}
    {a : RequestAct R D X}
    (hr : (useDispatcherByRemoteIpAddress remoteIpAddress).ReachableUnder
      (Separate remoteIpAddress) s) (ha : ¬ Separate remoteIpAddress s a)
    (h : (useDispatcherByRemoteIpAddress remoteIpAddress).step s a = some t) (d : D) :
    ∃ u, (useDispatcherByRemoteIpAddress remoteIpAddress).Leads (fun _ => True) t u ∧
      ¬ Middleware.OnePerKey remoteIpAddress u := by
  have hfails : ∀ (u : Middleware R K D X) q, (u.requests q).failedByCache = true →
      ¬ Middleware.OnePerKey remoteIpAddress u := by
    intro u q hq hone
    rw [hone.notFailed q] at hq
    cases hq
  obtain ⟨hi, -⟩ := inv_reachable hr
  cases Middleware.step_effect h with
  | @noKey r _ _ =>
      refine ⟨_, Machine.leads_refl, hfails _ r ?_⟩
      rw [Middleware.setRequest_self]
      rfl
  | @hit r k e _ hk hc =>
      refine (ha ⟨k, hk, fun q hq => ?_⟩).elim
      rw [(hi.creating q k hq).2] at hc
      cases hc
  | @miss r k harrived hk hc =>
      obtain ⟨q, hq⟩ : ∃ q, (s.requests q).creating = some k := by
        by_contra hnone
        exact ha ⟨k, hk, fun q hq => hnone ⟨q, hq⟩⟩
      have hqr : q ≠ r := by
        rintro rfl
        rw [harrived] at hq
        cases hq
      have hq' : ((s.setRequest r (.missed k)).requests q).creating = some k := by
        rw [Middleware.setRequest_of_ne hqr]
        exact hq
      obtain ⟨t, e, hlead, ht, htc⟩ := leads_created hq' d
      have hr' : (t.requests r).creating = some k := by
        rw [ht, Function.update_of_ne hqr.symm, Middleware.setRequest_self]
        rfl
      obtain ⟨u, f, hlead', hu, huc⟩ := leads_created hr' d
      have hcreated : u.requests q = .created k e := by
        rw [hu, Function.update_of_ne hqr, ht, Function.update_self]
      have hcreated' : u.requests r = .created k f := by
        rw [hu, Function.update_self]
      obtain ⟨v, hlead'', hv⟩ := leads_duplicate hqr hcreated hcreated' (by rw [huc, htc]; exact hc)
      refine ⟨v, (hlead.trans hlead').trans hlead'', hfails v r ?_⟩
      rw [hv]
      rfl
  | create | throw | add | duplicate | enqueue => exact (ha trivial).elim

end ComposableAsync.Asp
