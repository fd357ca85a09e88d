import ComposableAsync.Flow.Pipeline
import Mathlib.Data.List.Range

/-!
# Building a backbone, and the chains of its transformers

A chain of transformers, each for the type of message that the one before makes, ends in a
finalizer. No module of the program runs it as a whole: the backbone runs the first
transformer, its adapter has the backbone process the message it made, and so on, with one
more linked source at each stage.

A cancellation of the caller's token stops a chain once the linked sources were called back.
Code that waits for that token itself may go on before.
-/
namespace ComposableAsync.Flow.Pipeline
open Foundations

variable {S : Signature}

/-- What is passed to `Register`. -/
inductive Registration (S : Signature) where
  | processor (messageType : S.MessageType) (processor : IProcessor S messageType)
  | finalizer (messageType : S.MessageType) (finalizer : IProcessorFinalizer S messageType)
  | transformer (messageType1 messageType2 : S.MessageType)
      (transformer : ITransformProcessor S messageType1 messageType2)

namespace Registration

def messageType : Registration S → S.MessageType
  | .processor t _ | .finalizer t _ | .transformer t _ _ => t

/-- Finalizers and transformers are registered with their adapters. -/
def adapted : (r : Registration S) → IProcessor S r.messageType
  | .processor _ p => p
  | .finalizer _ f => processorFinalizerAdapter f
  | .transformer _ _ t => transformerProcessorAdapter t

end Registration

structure BackBoneBuilder (S : Signature) where
  processors : (messageType : S.MessageType) → Option (IProcessor S messageType) := fun _ => none

/-- A processor of the same message type has already been registered. -/
structure AlreadyRegistered (S : Signature) where
  messageType : S.MessageType

namespace BackBoneBuilder

def register [DecidableEq S.MessageType] (builder : BackBoneBuilder S) (r : Registration S) :
    Except (AlreadyRegistered S) (BackBoneBuilder S) :=
  match builder.processors r.messageType with
  | some _ => .error ⟨r.messageType⟩
  | none => .ok ⟨Function.update builder.processors r.messageType (some r.adapted)⟩

/-- The calls of `Register` that succeeded. A call that throws changes nothing. -/
def registerAll [DecidableEq S.MessageType] (builder : BackBoneBuilder S)
    (registrations : List (Registration S)) :
    Except (AlreadyRegistered S) (BackBoneBuilder S) :=
  registrations.foldlM register builder

/-- The program gives the backbone its own dictionary, so that processors registered later are
found too; here the backbone has those registered so far. -/
def getBackBone (builder : BackBoneBuilder S) (cancellationTokenSource : S.Source)
    (onElement : (messageType : S.MessageType) → S.Message messageType → UserCode S Unit) :
    BackBone S where
  processors := builder.processors
  cancellationTokenSource := cancellationTokenSource
  onElement := onElement

section Registered
variable [DecidableEq S.MessageType] {builder final : BackBoneBuilder S} {r : Registration S}
  {registrations : List (Registration S)}

theorem register_eq_ok_iff : builder.register r = .ok final ↔
    builder.processors r.messageType = none ∧
      final = ⟨Function.update builder.processors r.messageType (some r.adapted)⟩ := by
  unfold register
  split
  · rename_i h
    exact ⟨nofun, fun hn => by cases h.symm.trans hn.1⟩
  · exact ⟨fun h => ⟨‹_›, (Except.ok.inj h).symm⟩, fun h => by rw [h.2]⟩

theorem registerAll_cons : builder.registerAll (r :: registrations) = .ok final ↔
    ∃ next, builder.register r = .ok next ∧ next.registerAll registrations = .ok final := by
  unfold registerAll
  rw [List.foldlM_cons]
  cases builder.register r with
  | error e =>
      refine ⟨nofun, ?_⟩
      rintro ⟨_, h, -⟩
      cases h
  | ok next =>
      refine ⟨fun h => ⟨next, rfl, h⟩, ?_⟩
      rintro ⟨_, ⟨⟩, h⟩
      exact h

theorem registerAll_keeps (h : builder.registerAll registrations = .ok final)
    {messageType : S.MessageType} {processor : IProcessor S messageType}
    (hp : builder.processors messageType = some processor) :
    final.processors messageType = some processor := by
  induction registrations generalizing builder with
  | nil =>
      cases h
      exact hp
  | cons r registrations ih =>
      obtain ⟨next, hnext, h⟩ := registerAll_cons.mp h
      obtain ⟨hnone, rfl⟩ := register_eq_ok_iff.mp hnext
      have hne : messageType ≠ r.messageType := by
        rintro rfl
        cases hnone.symm.trans hp
      exact ih h ((Function.update_of_ne hne ..).trans hp)

theorem registerAll_mem (h : builder.registerAll registrations = .ok final)
    (hr : r ∈ registrations) : final.processors r.messageType = some r.adapted := by
  induction registrations generalizing builder with
  | nil => cases hr
  | cons r' registrations ih =>
      obtain ⟨next, hnext, h⟩ := registerAll_cons.mp h
      rcases List.mem_cons.mp hr with rfl | hr
      · obtain ⟨-, rfl⟩ := register_eq_ok_iff.mp hnext
        exact registerAll_keeps h (Function.update_self ..)
      · exact ih h hr

/-- What holds of everything that is registered holds of the processors of the builder. -/
theorem registerAll_forall {P : (t : S.MessageType) → IProcessor S t → Prop}
    (h : builder.registerAll registrations = .ok final)
    (hbuilder : ∀ t p, builder.processors t = some p → P t p)
    (hregistrations : ∀ r ∈ registrations, P r.messageType r.adapted) :
    ∀ t p, final.processors t = some p → P t p := by
  induction registrations generalizing builder with
  | nil =>
      cases h
      exact hbuilder
  | cons r registrations ih =>
      obtain ⟨next, hnext, h⟩ := registerAll_cons.mp h
      obtain ⟨-, rfl⟩ := register_eq_ok_iff.mp hnext
      refine ih h (fun t p hp => ?_) fun r' hr' => hregistrations r' (List.mem_cons_of_mem r hr')
      by_cases ht : t = r.messageType
      · subst ht
        cases (Function.update_self ..).symm.trans hp
        exact hregistrations r List.mem_cons_self
      · exact hbuilder t p ((Function.update_of_ne ht ..).symm.trans hp)

end Registered
end BackBoneBuilder

/-- Finalizers and transformers are not given the backbone, so a report that comes out of
them would be their own. -/
def Registration.Honest (b : BackBone S) : Registration S → Prop
  | .processor _ p => ∀ process : Process S, (∀ messageType message progress cancellationToken,
      PartialComp.ThrowsOnly b.Explained
        (process messageType message progress cancellationToken)) →
    ∀ message progress cancellationToken, PartialComp.ThrowsOnly b.Explained
      (p message process progress cancellationToken)
  | .finalizer _ f => ∀ message progress cancellationToken,
      PartialComp.ThrowsOnly b.Explained (f message progress cancellationToken)
  | .transformer _ _ t => ∀ message progress cancellationToken,
      PartialComp.ThrowsOnly b.Explained (t message progress cancellationToken)

/-- With such processors and handlers that return, every call of the backbone, nested to any
depth, tells a missing processor from a failing one. -/
theorem BackBoneBuilder.getBackBone_honest [DecidableEq S.MessageType]
    {builder : BackBoneBuilder S} {registrations : List (Registration S)}
    (hb : BackBoneBuilder.registerAll {} registrations = .ok builder)
    {cancellationTokenSource : S.Source}
    {onElement : (messageType : S.MessageType) → S.Message messageType → UserCode S Unit}
    (hreturns : ∀ messageType message w,
      ∃ w', onElement messageType message w = some (.ok (), w'))
    (hhonest : ∀ r ∈ registrations,
      r.Honest (builder.getBackBone cancellationTokenSource onElement)) :
    (builder.getBackBone cancellationTokenSource onElement).Honest := by
  refine ⟨hreturns, registerAll_forall hb nofun fun r hr => ?_⟩
  have h := hhonest r hr
  cases r with
  | processor t p => exact h
  | finalizer t f =>
      intro process _ message progress cancellationToken
      exact processorFinalizerAdapter_throwsOnly process
        BackBone.explained_operationCanceled (h message progress cancellationToken)
  | transformer t u f =>
      intro process hprocess message progress cancellationToken
      exact transformerProcessorAdapter_throwsOnly process
        BackBone.explained_operationCanceled (h message progress cancellationToken)
        fun message2 => hprocess u message2 (some progress) cancellationToken

structure TransformChain (S : Signature) where
  messageType : ℕ → S.MessageType
  transformer : ∀ i, ITransformProcessor S (messageType i) (messageType (i + 1))

/-- The message of each stage, and the world when it is given to `Process` and when its
event has been raised. -/
structure ChainRun (c : TransformChain S) where
  message : ∀ i, S.Message (c.messageType i)
  called : ℕ → World S
  fired : ℕ → World S

namespace ChainRun
variable {c : TransformChain S} (run : ChainRun c) (b : BackBone S) (progress : IProgress S)
  (cancellationToken : Token S)

/-- The token that the call of a stage gets. -/
def tokenAt : ℕ → Token S
  | 0 => cancellationToken
  | i + 1 => (run.called i).sources.linkedToken

/-- The world when the call of a stage has made its linked source. -/
def entered (i : ℕ) : World S := b.entered (run.tokenAt cancellationToken i) (run.called i)

/-- The handlers of a stage return, without a cancellation before them or during them. What
they and others do meanwhile to the token sources is what can be done to these. -/
structure Fires (i : ℕ) : Prop where
  called : ¬ b.Canceled cancellationToken (run.called i)
  onElement : b.onElement (c.messageType i) (run.message i) (run.entered b cancellationToken i) =
    some (.ok (), run.fired i)
  later : (run.entered b cancellationToken i).sources.Later (run.fired i).sources
  fired : ¬ b.Canceled cancellationToken (run.fired i)

/-- The transformer of a stage returns the message of the next. -/
structure Transforms (i : ℕ) : Prop where
  transformer : c.transformer i (run.message i) progress (run.tokenAt cancellationToken (i + 1))
    (run.fired i) = some (.ok (run.message (i + 1)), run.called (i + 1))
  later : (run.fired i).sources.Later (run.called (i + 1)).sources

/-- The transformers before stage `n` have returned. -/
structure Reaches (n : ℕ) : Prop where
  fires : ∀ i < n, run.Fires b cancellationToken i
  transforms : ∀ i < n, run.Transforms progress cancellationToken i

/-- A cancellation during the transformer of a stage that comes to the token it was given, as
it does before `Cancel()` returns, when the sources of all the stages so far have been called
back; or that of a backbone that is disposed. -/
def Heard (i : ℕ) : Prop :=
  b.Canceled cancellationToken (run.called (i + 1)) ∧
    ((run.tokenAt cancellationToken (i + 1)).isCancellationRequested
        (run.called (i + 1)).sources = true ∨
      (∀ j ≤ i, (run.called (i + 1)).sources.CalledBack (run.called j).sources.linked.length) ∨
      (run.called (i + 1)).sources.isCancellationRequested b.cancellationTokenSource = true)

def stage (i : ℕ) : List (Event S) :=
  [.message (c.messageType i) (run.message i),
    .transform (c.messageType i) (run.message i) progress]

/-- The events of the stages before stage `n`. -/
def stages (n : ℕ) : List (Event S) := (List.range n).flatMap (run.stage progress)

/-- The call goes through all the stages, each once and in order, if nothing is cancelled, and
ends after the transformer of a stage where it stops. -/
structure Runs {n : ℕ} (finalizer : IProcessorFinalizer S (c.messageType n))
    (events : List (Event S)) (stops : ℕ → Prop) : Prop where
  through : ∀ result w, run.Reaches b progress cancellationToken n →
    run.Fires b cancellationToken n →
    finalizer (run.message n) progress (run.tokenAt cancellationToken (n + 1)) (run.fired n) =
      some (.ok result, w) →
    ∀ depth, n < depth →
      b.process depth (c.messageType 0) (run.message 0) (some progress) cancellationToken
          (run.called 0, events) =
        some (.ok result, w, events ++ run.stages progress n ++
          [.message (c.messageType n) (run.message n),
            .finalize (c.messageType n) (run.message n) progress])
  stopped : ∀ i < n, run.Reaches b progress cancellationToken (i + 1) → stops i →
    ∀ depth, n < depth → ∃ w,
      b.process depth (c.messageType 0) (run.message 0) (some progress) cancellationToken
          (run.called 0, events) =
        some (.error .operationCanceled, w, events ++ run.stages progress (i + 1))

section Tokens
variable {run : ChainRun c} {b : BackBone S} {progress : IProgress S}
  {cancellationToken : Token S} {n : ℕ} {w : World S}

theorem Reaches.mono {m : ℕ} (h : run.Reaches b progress cancellationToken n) (hm : m ≤ n) :
    run.Reaches b progress cancellationToken m :=
  ⟨fun i hi => h.fires i (hi.trans_le hm), fun i hi => h.transforms i (hi.trans_le hm)⟩

theorem Reaches.later (h : run.Reaches b progress cancellationToken (n + 1))
    (hw : (run.called (n + 1)).sources.Later w.sources) :
    (run.entered b cancellationToken n).sources.Later w.sources :=
  (h.fires n n.lt_succ_self).later.trans ((h.transforms n n.lt_succ_self).later.trans hw)

/-- By induction on the stage: the linked source of each is linked to that of the one before. -/
theorem Reaches.canceled (h : run.Reaches b progress cancellationToken n)
    (hw : (run.entered b cancellationToken n).sources.Later w.sources)
    (hc : (run.tokenAt cancellationToken (n + 1)).isCancellationRequested w.sources = true) :
    b.Canceled cancellationToken w := by
  induction n with
  | zero => exact hw.owed hc
  | succ n ih =>
      have hbefore := h.later (.head (.link _ _) hw)
      exact (hw.owed hc).elim (ih (h.mono n.le_succ) hbefore) .inr

theorem Reaches.calledBack (h : run.Reaches b progress cancellationToken n)
    (hw : (run.entered b cancellationToken n).sources.Later w.sources)
    (hb : ∀ j ≤ n, w.sources.CalledBack (run.called j).sources.linked.length)
    (hc : b.Canceled cancellationToken w) :
    (run.tokenAt cancellationToken (n + 1)).isCancellationRequested w.sources = true := by
  induction n with
  | zero => exact hw.calledBack (hb 0 le_rfl) hc
  | succ n ih =>
      have hbefore := h.later (.head (.link _ _) hw)
      have hlinked := ih (h.mono n.le_succ) hbefore fun j hj => hb j (hj.trans n.le_succ)
      exact hw.calledBack (hb (n + 1) le_rfl) (.inl hlinked)

theorem Reaches.not_canceled (h : run.Reaches b progress cancellationToken n)
    (hc : ¬ b.Canceled cancellationToken (run.called n)) :
    ¬ b.Canceled (run.tokenAt cancellationToken n) (run.called n) := by
  cases n with
  | zero => exact hc
  | succ n =>
      rintro (hn | hn)
      · exact hc ((h.mono n.le_succ).canceled (h.later .refl) hn)
      · exact hc (.inr hn)

theorem Reaches.running (h : run.Reaches b progress cancellationToken n)
    (hf : run.Fires b cancellationToken n) :
    (run.tokenAt cancellationToken (n + 1)).isCancellationRequested (run.fired n).sources =
      false :=
  Bool.eq_false_iff.mpr (mt (h.canceled hf.later) hf.fired)

end Tokens
end ChainRun

namespace BackBone
variable {b : BackBone S} {cancellationToken : Token S} {w : World S} {c : TransformChain S}
  {run : ChainRun c} {progress : IProgress S} {n : ℕ}

theorem process_stage {i depth : ℕ} {events : List (Event S)} {s : World S × List (Event S)}
    {r : Except (FlowException S) S.Result}
    (hp : b.processors (c.messageType i) = some (transformerProcessorAdapter (c.transformer i)))
    (h : run.Reaches b progress cancellationToken (i + 1))
    (hc : (run.tokenAt cancellationToken (i + 1)).isCancellationRequested
      (run.called (i + 1)).sources = false)
    (hk : ∀ e, r = .error e → e.isKeyNotFound = false)
    (hr : b.process depth (c.messageType (i + 1)) (run.message (i + 1)) (some progress)
        (run.tokenAt cancellationToken (i + 1))
        (run.called (i + 1), events ++ run.stage progress i) = some (r, s)) :
    b.process (depth + 1) (c.messageType i) (run.message i) (some progress)
        (run.tokenAt cancellationToken i) (run.called i, events) = some (r, s) := by
  have hf := h.fires i i.lt_succ_self
  have hbefore := h.mono i.le_succ
  have hadapter : transformerProcessorAdapter (c.transformer i) (run.message i) (b.process depth)
      progress (run.tokenAt cancellationToken (i + 1))
      (run.fired i, events ++ [.message (c.messageType i) (run.message i)]) = some (r, s) := by
    rw [transformerProcessorAdapter_of_running _ _ (hbefore.running hf)
      (h.transforms i i.lt_succ_self).transformer hc, List.append_assoc]
    exact hr
  exact processWith_of_passed (hbefore.not_canceled hf.called) hf.onElement hp hadapter hk

section Through
variable
  (hp : ∀ i < n, b.processors (c.messageType i) =
    some (transformerProcessorAdapter (c.transformer i)))
  (h : run.Reaches b progress cancellationToken n)
  (hc : ∀ i < n, ¬ b.Canceled cancellationToken (run.called (i + 1)))
  {depth : ℕ} {r : Except (FlowException S) S.Result} {last : List (Event S)}
  (hk : ∀ e, r = .error e → e.isKeyNotFound = false)
  (hlast : ∀ events, b.process depth (c.messageType n) (run.message n) (some progress)
    (run.tokenAt cancellationToken n) (run.called n, events) = some (r, w, events ++ last))
include hp h hc hk hlast

/-- By induction on the number of stages that are left. -/
theorem process_stages_from (k i : ℕ) (hi : i + k = n) (events : List (Event S)) :
    b.process (depth + k) (c.messageType i) (run.message i) (some progress)
        (run.tokenAt cancellationToken i) (run.called i, events) =
      some (r, w, events ++ (List.range' i k).flatMap (run.stage progress) ++ last) := by
  induction k generalizing i events with
  | zero =>
      obtain rfl : i = n := hi
      exact (hlast events).trans (by simp)
  | succ k ih =>
      have hin : i < n := by omega
      have hthrough := h.mono (Nat.succ_le_of_lt hin)
      have hrunning := Bool.eq_false_iff.mpr
        (mt ((h.mono hin.le).canceled (hthrough.later .refl)) (hc i hin))
      refine process_stage (hp i hin) hthrough hrunning hk ?_
      refine (ih (i + 1) (by omega) (events ++ run.stage progress i)).trans ?_
      rw [List.range'_succ, List.flatMap_cons]
      simp only [List.append_assoc]

/-- The stages before stage `n` go through, and the call ends as stage `n` does. -/
theorem process_stages (events : List (Event S)) :
    b.process (depth + n) (c.messageType 0) (run.message 0) (some progress) cancellationToken
        (run.called 0, events) = some (r, w, events ++ run.stages progress n ++ last) := by
  rw [ChainRun.stages, List.range_eq_range']
  exact process_stages_from hp h hc hk hlast n 0 n.zero_add events

end Through

theorem process_finalizer {finalizer : IProcessorFinalizer S (c.messageType n)}
    (hp : b.processors (c.messageType n) = some (processorFinalizerAdapter finalizer))
    (h : run.Reaches b progress cancellationToken n) (hf : run.Fires b cancellationToken n)
    {result : S.Result}
    (hr : finalizer (run.message n) progress (run.tokenAt cancellationToken (n + 1))
      (run.fired n) = some (.ok result, w)) (depth : ℕ) (events : List (Event S)) :
    b.process (depth + 1) (c.messageType n) (run.message n) (some progress)
        (run.tokenAt cancellationToken n) (run.called n, events) =
      some (.ok result, w, events ++ [.message (c.messageType n) (run.message n),
        .finalize (c.messageType n) (run.message n) progress]) := by
  have hadapter := processorFinalizerAdapter_of_some (b.process depth)
    (events ++ [.message (c.messageType n) (run.message n)]) (h.running hf) hr
  rw [List.append_assoc] at hadapter
  exact processWith_of_passed (h.not_canceled hf.called) hf.onElement hp hadapter nofun

/-- The adapter sees the cancellation, or the call for the next message does before it raises
the event. -/
theorem process_canceled {i : ℕ}
    (hp : b.processors (c.messageType i) = some (transformerProcessorAdapter (c.transformer i)))
    (h : run.Reaches b progress cancellationToken (i + 1))
    (hc : run.Heard b cancellationToken i) (depth : ℕ) :
    ∃ w, ∀ events, b.process (depth + 2) (c.messageType i) (run.message i) (some progress)
        (run.tokenAt cancellationToken i) (run.called i, events) =
      some (.error .operationCanceled, w, events ++ run.stage progress i) := by
  have hf := h.fires i i.lt_succ_self
  have hbefore := h.mono i.le_succ
  cases hseen : (run.tokenAt cancellationToken (i + 1)).isCancellationRequested
      (run.called (i + 1)).sources with
  | true =>
      refine ⟨run.called (i + 1), fun events => ?_⟩
      have hadapter := transformerProcessorAdapter_of_canceled (b.process (depth + 1))
        (events ++ [.message (c.messageType i) (run.message i)]) (hbefore.running hf)
        (h.transforms i i.lt_succ_self).transformer hseen
      rw [List.append_assoc] at hadapter
      exact processWith_of_passed (hbefore.not_canceled hf.called) hf.onElement hp hadapter
        fun e he => by cases he; rfl
  | false =>
      have hdisposed : (run.called (i + 1)).sources.isCancellationRequested
          b.cancellationTokenSource = true := by
        rcases hc.2 with hreached | hback | hdisposed
        · cases hseen.symm.trans hreached
        · cases hseen.symm.trans (hbefore.calledBack (h.later .refl) hback hc.1)
        · exact hdisposed
      refine ⟨b.entered (run.tokenAt cancellationToken (i + 1)) (run.called (i + 1)),
        fun events => ?_⟩
      exact process_stage hp h hseen (fun e he => by cases he; rfl)
        (processWith_of_canceled (.inr hdisposed))

end BackBone

/-- A chain registered with a builder runs through all its stages, each once and in order,
and after a cancellation that is heard of during a transformer it goes no further. -/
theorem BackBoneBuilder.chain_runs [DecidableEq S.MessageType] {builder : BackBoneBuilder S}
    {registrations : List (Registration S)}
    (hb : BackBoneBuilder.registerAll {} registrations = .ok builder)
    {c : TransformChain S} {n : ℕ} {finalizer : IProcessorFinalizer S (c.messageType n)}
    (hregistered : ∀ i < n, .transformer (c.messageType i) (c.messageType (i + 1))
      (c.transformer i) ∈ registrations)
    (hfinalizer : .finalizer (c.messageType n) finalizer ∈ registrations)
    (cancellationTokenSource : S.Source)
    (onElement : (messageType : S.MessageType) → S.Message messageType → UserCode S Unit)
    (run : ChainRun c) (progress : IProgress S) (cancellationToken : Token S)
    (events : List (Event S)) :
    let b := builder.getBackBone cancellationTokenSource onElement
    run.Runs b progress cancellationToken finalizer events (run.Heard b cancellationToken) := by
  intro b
  have hp (i : ℕ) (hi : i < n) : b.processors (c.messageType i) =
      some (transformerProcessorAdapter (c.transformer i)) := registerAll_mem hb (hregistered i hi)
  have hpn : b.processors (c.messageType n) = some (processorFinalizerAdapter finalizer) :=
    registerAll_mem hb hfinalizer
  constructor
  · intro result w h hf hr depth hdepth
    obtain ⟨d, rfl⟩ : ∃ d, depth = d + 1 + n := ⟨depth - 1 - n, by omega⟩
    have hc (i : ℕ) (hi : i < n) : ¬ b.Canceled cancellationToken (run.called (i + 1)) := by
      rcases Nat.lt_or_eq_of_le (Nat.succ_le_of_lt hi) with hi | rfl
      · exact (h.fires (i + 1) hi).called
      · exact hf.called
    exact BackBone.process_stages hp h hc (by nofun)
      (BackBone.process_finalizer hpn h hf hr d) events
  · intro i hi h hheard depth hdepth
    obtain ⟨d, rfl⟩ : ∃ d, depth = d + 2 + i := ⟨depth - 2 - i, by omega⟩
    obtain ⟨w, hcanceled⟩ := BackBone.process_canceled (hp i hi) h hheard d
    refine ⟨w, ?_⟩
    rw [ChainRun.stages, List.range_succ, List.flatMap_append, ← List.append_assoc,
      List.flatMap_singleton]
    exact BackBone.process_stages (fun j hj => hp j (hj.trans hi)) (h.mono i.le_succ)
      (fun j hj => (h.fires (j + 1) (Nat.succ_lt_succ hj)).called)
      (fun e he => by cases he; rfl) hcanceled events

/-- Messages are numbers, and so are their types. The caller's source is `true`. -/
abbrev counting : Signature where
  MessageType := ℕ
  Message _ := ℕ
  Result := ℕ
  Progress := Unit
  Source := Bool
  User := Unit
  Exception := Unit

/-- Adds one. The caller cancels during the transformation of ten, and during that of twenty,
which waits for the caller's token and goes on before the linked source is called back. -/
def addOne {messageType1 messageType2 : ℕ} :
    ITransformProcessor counting messageType1 messageType2 := fun (message : ℕ) _ _ w =>
  some (.ok (message + 1), { w with sources := {
    isCancellationRequested :=
      if message = 10 ∨ message = 20 then id else w.sources.isCancellationRequested
    linked := if message = 10 then
        w.sources.linked.map fun source => { source with isCancellationRequested := true }
      else w.sources.linked } })

def double {messageType : ℕ} : IProcessorFinalizer counting messageType :=
  fun (message : ℕ) _ _ => (pure (2 * message) : UserCode counting ℕ)

def addTwice : List (Registration counting) :=
  [.transformer 0 1 addOne, .transformer 1 2 addOne, .finalizer 2 double]

def countingChain : TransformChain counting := ⟨id, fun _ => addOne⟩

/-- The backbone's source is `false`, and nobody observes the messages. -/
def countingBackBone (builder : BackBoneBuilder counting) : BackBone counting :=
  builder.getBackBone false fun _ _ => pure ()

/-- The source that the call of a stage links. -/
def linkedAt (canceled : Bool) : ℕ → LinkedSource Bool
  | 0 => ⟨.source true, .source false, canceled⟩
  | i + 1 => ⟨.linked i, .source false, canceled⟩

/-- The world with the linked sources of the stages before stage `n`. -/
def countingWorld (n : ℕ) (canceled calledBack : Bool) : World counting :=
  ⟨⟨if canceled then id else fun _ => false, (List.range n).map (linkedAt calledBack)⟩, ()⟩

def running (n : ℕ) : World counting := countingWorld n false false

theorem running_not_canceled (builder : BackBoneBuilder counting) (n : ℕ) :
    ¬ (countingBackBone builder).Canceled (.source true) (running n) := by
  rintro (h | h) <;> cases h

theorem addTwice_registered : ∃ builder, BackBoneBuilder.registerAll {} addTwice = .ok builder ∧
    (∀ i < 2, .transformer (countingChain.messageType i) (countingChain.messageType (i + 1))
      (countingChain.transformer i) ∈ addTwice) ∧
    .finalizer (countingChain.messageType 2) double ∈ addTwice := by
  have hfinalizer : .finalizer (countingChain.messageType 2) double ∈ addTwice :=
    List.mem_cons_of_mem _ (List.mem_cons_of_mem _ List.mem_cons_self)
  refine ⟨_, rfl, fun i hi => ?_, hfinalizer⟩
  obtain rfl | rfl : i = 0 ∨ i = 1 := by omega
  · exact List.mem_cons_self
  · exact List.mem_cons_of_mem _ List.mem_cons_self

/-- The caller cancels during the first transformer. -/
def canceledRun (message : ℕ) (calledBack : Bool) : ChainRun countingChain where
  message i := (message + i : ℕ)
  called i := if i = 0 then running 0 else countingWorld i true calledBack
  fired i := running (i + 1)

theorem canceledRun_reaches (builder : BackBoneBuilder counting) {message : ℕ} {calledBack : Bool}
    (h : (canceledRun message calledBack).Transforms (.progress ()) (.source true) 0) :
    (canceledRun message calledBack).Reaches (countingBackBone builder) (.progress ())
      (.source true) 1 := by
  refine ⟨fun j hj => ?_, fun j hj => ?_⟩
  · obtain rfl : j = 0 := by omega
    exact ⟨running_not_canceled builder 0, rfl, .refl, running_not_canceled builder 1⟩
  · obtain rfl : j = 0 := by omega
    exact h

theorem addTwice_runs : ∃ builder, BackBoneBuilder.registerAll {} addTwice = .ok builder ∧
    let b := countingBackBone builder
    b.process 3 0 (0 : ℕ) (some (.progress ())) (.source true) (running 0, []) =
      some (.ok (4 : ℕ), running 3, [.message 0 (0 : ℕ), .transform 0 (0 : ℕ) (.progress ()),
        .message 1 (1 : ℕ), .transform 1 (1 : ℕ) (.progress ()),
        .message 2 (2 : ℕ), .finalize 2 (2 : ℕ) (.progress ())]) ∧
    ∃ w, b.process 3 0 (10 : ℕ) (some (.progress ())) (.source true) (running 0, []) =
      some (.error .operationCanceled, w,
        [.message 0 (10 : ℕ), .transform 0 (10 : ℕ) (.progress ())]) := by
  obtain ⟨builder, hb, hregistered, hfinalizer⟩ := addTwice_registered
  refine ⟨builder, hb, ?_, ?_⟩
  · have hfires (i : ℕ) (hi : i < 3) : ChainRun.Fires (c := countingChain)
        ⟨fun i => i, running, fun i => running (i + 1)⟩ (countingBackBone builder)
        (.source true) i := by
      refine ⟨running_not_canceled builder i, ?_, ?_, running_not_canceled builder (i + 1)⟩
      all_goals obtain rfl | rfl | rfl : i = 0 ∨ i = 1 ∨ i = 2 := by omega
      · rfl
      · rfl
      · rfl
      · exact .refl
      · exact .refl
      · exact .refl
    refine (BackBoneBuilder.chain_runs hb hregistered hfinalizer false (fun _ _ => pure ())
      ⟨fun i => i, running, fun i => running (i + 1)⟩ (.progress ()) (.source true) []).through
      (4 : ℕ) (running 3) ⟨fun i hi => hfires i (by omega), fun i hi => ?_⟩ (hfires 2 (by decide))
      rfl 3 (by decide)
    obtain rfl | rfl : i = 0 ∨ i = 1 := by omega
    · exact ⟨rfl, .refl⟩
    · exact ⟨rfl, .refl⟩
  · have hback : TokenSources.Step ⟨id, [linkedAt false 0]⟩ (countingWorld 1 true true).sources :=
      @TokenSources.Step.callback Bool _ 0 (linkedAt false 0) rfl (.inl rfl)
    have hreaches : (canceledRun 10 true).Reaches (countingBackBone builder) (.progress ())
        (.source true) 1 :=
      canceledRun_reaches builder ⟨rfl, .tail (.single (.cancel id nofun)) hback⟩
    exact (BackBoneBuilder.chain_runs hb hregistered hfinalizer false (fun _ _ => pure ())
      (canceledRun 10 true) (.progress ()) (.source true) []).stopped 0 (by decide) hreaches
      ⟨.inl rfl, .inl rfl⟩ 3 (by decide)

/-- The first transformer goes on before the linked source is called back, so the second is
run, and the call returns. -/
theorem canceled_chain_goes_on :
    ¬ ∀ (builder : BackBoneBuilder counting) (registrations : List (Registration counting)),
      BackBoneBuilder.registerAll {} registrations = .ok builder →
      ∀ (c : TransformChain counting) (n : ℕ) (finalizer : IProcessorFinalizer counting
        (c.messageType n)),
      (∀ i < n, .transformer (c.messageType i) (c.messageType (i + 1)) (c.transformer i) ∈
        registrations) →
      .finalizer (c.messageType n) finalizer ∈ registrations →
      ∀ (cancellationTokenSource : Bool)
        (onElement : (messageType : ℕ) → ℕ → UserCode counting Unit) (run : ChainRun c)
        (progress : IProgress counting) (cancellationToken : Token counting)
        (events : List (Event counting)),
      let b := builder.getBackBone cancellationTokenSource onElement
      run.Runs b progress cancellationToken finalizer events
        fun i => b.Canceled cancellationToken (run.called (i + 1)) := by
  intro h
  obtain ⟨builder, hb, hregistered, hfinalizer⟩ := addTwice_registered
  have hreaches : (canceledRun 20 false).Reaches (countingBackBone builder) (.progress ())
      (.source true) 1 := canceledRun_reaches builder ⟨rfl, .single (.cancel id nofun)⟩
  obtain ⟨w, hw⟩ := (h builder addTwice hb countingChain 2 double hregistered hfinalizer false
    (fun _ _ => pure ()) (canceledRun 20 false) (.progress ()) (.source true) []).stopped 0
    (by decide) hreaches (.inl rfl) 3 (by decide)
  cases hb
  cases hw

end ComposableAsync.Flow.Pipeline
