import ComposableAsync.Flow.TransformChain

/-!
# What a call of `Process` announces

`FireEvent` comes before the lookup of the processor, so whoever observes the messages of a
backbone hears of each one before anything is done with it. The processors are run one
inside the other, to any depth, and any of them may fail, so this is a property of what a
call adds to the events, with its outcome.
-/
namespace ComposableAsync.Flow.Pipeline
open Foundations

variable {S : Signature}

/-- The progress that a transformer or a finalizer is given. -/
def Event.progress : Event S → Option (IProgress S)
  | .message .. => none
  | .transform _ _ progress | .finalize _ _ progress => some progress

section Traces
variable (registrations : List (Registration S))

/-- A message that a transformer or a finalizer is given was announced just before, and it
is of the type that they are registered for. -/
inductive Announced : List (Event S) → Prop
  | nil : Announced []
  | message (messageType : S.MessageType) (message : S.Message messageType)
      {events : List (Event S)} :
      Announced events → Announced (.message messageType message :: events)
  | transform {messageType1 messageType2 : S.MessageType}
      {transformer : ITransformProcessor S messageType1 messageType2}
      (message : S.Message messageType1) (progress : IProgress S) {events : List (Event S)} :
      .transformer messageType1 messageType2 transformer ∈ registrations → Announced events →
      Announced
        (.message messageType1 message :: .transform messageType1 message progress :: events)
  | finalize {messageType : S.MessageType} {finalizer : IProcessorFinalizer S messageType}
      (message : S.Message messageType) (progress : IProgress S) {events : List (Event S)} :
      .finalizer messageType finalizer ∈ registrations → Announced events →
      Announced
        (.message messageType message :: .finalize messageType message progress :: events)

/-- Only transformers and finalizers are registered. -/
def AdaptersOnly : Prop := ∀ messageType processor, .processor messageType processor ∉ registrations

/-- A finalizer that is registered for the message of the event was given it, with this
progress, and the result is what it returned. -/
def Answers (progress : IProgress S) (result : S.Result) : Event S → Prop
  | .message .. | .transform .. => False
  | .finalize messageType message given => given = progress ∧
      ∃ finalizer : IProcessorFinalizer S messageType, .finalizer messageType finalizer ∈
        registrations ∧ ∃ token w w', finalizer message given token w = some (.ok result, w')

/-- What a call adds to the events until its outcome. -/
structure Traced (messageType : S.MessageType) (message : S.Message messageType)
    (progress : IProgress S) (r : Except (FlowException S) S.Result) (added : List (Event S)) :
    Prop where
  announced : Announced registrations added
  first : (added = [] ∧ r = .error .operationCanceled) ∨
    ∃ rest, added = .message messageType message :: rest
  passed : AdaptersOnly registrations →
    ∀ given ∈ added.filterMap Event.progress, given = progress
  last : AdaptersOnly registrations → ∀ result, r = .ok result →
    ∃ event, added.getLast? = some event ∧ Answers registrations progress result event

/-- Code of a processor has no access to the events but through the backbone. -/
def Registration.Quiet : Registration S → Prop
  | .processor _ p => ∀ process : Process S, (∀ messageType message progress cancellationToken,
      PartialComp.Logs (fun _ => Announced registrations)
        (process messageType message progress cancellationToken)) →
    ∀ message progress cancellationToken, PartialComp.Logs (fun _ => Announced registrations)
      (p message process progress cancellationToken)
  | .finalizer .. | .transformer .. => True

end Traces

variable {registrations : List (Registration S)} {b : BackBone S}
  {messageType messageType1 messageType2 : S.MessageType}

theorem Announced.append {xs ys : List (Event S)} (hx : Announced registrations xs)
    (hy : Announced registrations ys) : Announced registrations (xs ++ ys) := by
  induction hx with
  | nil => exact hy
  | message t m _ ih => exact .message t m ih
  | transform m p hr _ ih => exact .transform m p hr ih
  | finalize m p hr _ ih => exact .finalize m p hr ih

theorem Traced.caught {message : S.Message messageType} {progress : IProgress S}
    {e : FlowException S} {added : List (Event S)}
    (h : Traced registrations messageType message progress (.error e) added) :
    Traced registrations messageType message progress (.error (e.caught messageType)) added where
  announced := h.announced
  first := h.first.imp_left fun hcanceled => by
    obtain ⟨hadded, he⟩ := hcanceled
    cases he
    exact ⟨hadded, rfl⟩
  passed := h.passed
  last _ := nofun

section Processors
variable {process : Process S}

theorem Traced.transform {transformer : ITransformProcessor S messageType1 messageType2}
    (hr : .transformer messageType1 messageType2 transformer ∈ registrations)
    (message1 : S.Message messageType1) {progress : IProgress S} {message2 : S.Message messageType2}
    {r : Except (FlowException S) S.Result} {added : List (Event S)}
    (h : Traced registrations messageType2 message2 progress r added) :
    Traced registrations messageType1 message1 progress r
      (.message messageType1 message1 :: .transform messageType1 message1 progress :: added) where
  announced := .transform message1 progress hr h.announced
  first := .inr ⟨_, rfl⟩
  passed ha := List.forall_mem_cons.mpr ⟨rfl, h.passed ha⟩
  last ha result hresult := by
    obtain ⟨event, hlast, hanswers⟩ := h.last ha result hresult
    exact ⟨event, by rw [List.getLast?_cons_cons, List.getLast?_cons, hlast]; rfl, hanswers⟩

end Processors

namespace BackBone

end BackBone

end ComposableAsync.Flow.Pipeline
