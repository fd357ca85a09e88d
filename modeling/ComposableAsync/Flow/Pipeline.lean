import ComposableAsync.Foundations.CancellationToken
import ComposableAsync.Foundations.PartialComputation

/-!
# Processing a message

`Process` raises the event of a message, looks up the processor of its type and runs it with
the backbone, so that a processor may have further messages processed, to any depth. One
`try` is around all of it, and its `catch` takes every `KeyNotFoundException` for the one of
the dictionary.

A call makes a source that is linked to its token and to the backbone's, and then looks at
that one only, as its processor does.

What is done to the world by user code includes what others do to it meanwhile.
-/
namespace ComposableAsync.Flow.Pipeline
open Foundations

/-- The types a backbone is used with. `Exception` has the exceptions of user code. -/
structure Signature where
  MessageType : Type
  Message : MessageType → Type
  Result : Type
  Progress : Type
  Source : Type
  User : Type
  Exception : Type

variable {S : Signature}

/-- `keyNotPresent` is the `KeyNotFoundException` of the dictionary, `keyNotFound` one that
user code threw; `noProcessorFound` is the `ArgumentException` of `Process`. -/
inductive FlowException (S : Signature) where
  | operationCanceled
  | keyNotPresent (key : S.MessageType)
  | keyNotFound (x : S.Exception)
  | noProcessorFound (messageType : S.MessageType)
  | other (x : S.Exception)

def FlowException.isKeyNotFound : FlowException S → Bool
  | .keyNotPresent _ | .keyNotFound _ => true
  | .operationCanceled | .noProcessorFound _ | .other _ => false

inductive IProgress (S : Signature) where
  | nullProgess
  | progress (p : S.Progress)

/-- The linked sources are those that calls of `Process` made. A linked source of user code is
one of `S.Source`, and cancelled when its code says so. -/
structure World (S : Signature) where
  sources : TokenSources S.Source
  user : S.User

abbrev Token (S : Signature) := CancellationToken S.Source

/-- What a call of `Process` does, as seen from outside. -/
inductive Event (S : Signature) where
  | message (type : S.MessageType) (message : S.Message type)
  | transform (type : S.MessageType) (message : S.Message type) (progress : IProgress S)
  | finalize (type : S.MessageType) (message : S.Message type) (progress : IProgress S)

/-- Code that is not the backbone's: it does not see the events. -/
abbrev UserCode (S : Signature) (α : Type) := PartialComp (FlowException S) (World S) α

abbrev Body (S : Signature) (α : Type) :=
  PartialComp (FlowException S) (World S × List (Event S)) α

/-- `IBackbone.Process`; a `null` progress is `none`. -/
abbrev Process (S : Signature) := (messageType : S.MessageType) → S.Message messageType →
  Option (IProgress S) → Token S → Body S S.Result

/-- The only member of the backbone that matters to a processor is `Process`. -/
abbrev IProcessor (S : Signature) (messageType : S.MessageType) :=
  S.Message messageType → Process S → IProgress S → Token S → Body S S.Result

abbrev IProcessorFinalizer (S : Signature) (messageType : S.MessageType) :=
  S.Message messageType → IProgress S → Token S → UserCode S S.Result

abbrev ITransformProcessor (S : Signature) (messageType1 messageType2 : S.MessageType) :=
  S.Message messageType1 → IProgress S → Token S → UserCode S (S.Message messageType2)

def log (event : Event S) : Body S Unit := modify fun s => (s.1, s.2 ++ [event])

/-- That it is disposed when its call ends is left out. It only means that it is not called
back any more. -/
def createLinkedTokenSource (token1 token2 : Token S) : Body S (Token S) :=
  modifyGet fun s => (s.1.sources.linkedToken,
    { s.1 with sources := s.1.sources.link token1 token2 }, s.2)

def throwIfCancellationRequested (token : Token S) : Body S Unit := do
  if token.isCancellationRequested (← get).1.sources then throw .operationCanceled

variable {messageType messageType1 messageType2 : S.MessageType}

def processorFinalizerAdapter (finalizer : IProcessorFinalizer S messageType) :
    IProcessor S messageType := fun message _ progress cancellationToken => do
  throwIfCancellationRequested cancellationToken
  log (.finalize messageType message progress)
  PartialComp.onFst (finalizer message progress cancellationToken)

def transformerProcessorAdapter (transformer : ITransformProcessor S messageType1 messageType2) :
    IProcessor S messageType1 := fun message process progress cancelationToken => do
  throwIfCancellationRequested cancelationToken
  log (.transform messageType1 message progress)
  let message2 ← PartialComp.onFst (transformer message progress cancelationToken)
  throwIfCancellationRequested cancelationToken
  process messageType2 message2 (some progress) cancelationToken

/-- `onElement` is what the handlers do that are subscribed when the event is raised. -/
structure BackBone (S : Signature) where
  processors : (messageType : S.MessageType) → Option (IProcessor S messageType)
  cancellationTokenSource : S.Source
  onElement : (messageType : S.MessageType) → S.Message messageType → UserCode S Unit

namespace BackBone
variable (b : BackBone S)

def fireEvent (messageType : S.MessageType) (message : S.Message messageType) : Body S Unit := do
  log (.message messageType message)
  PartialComp.onFst (b.onElement messageType message)

/-- `_Processors[messageType]`. -/
def processor (messageType : S.MessageType) : Body S (IProcessor S messageType) :=
  match b.processors messageType with
  | some processor => pure processor
  | none => throw (.keyNotPresent messageType)

/-- `Process`, when `process` is what the processors call for further messages. -/
def processWith (process : Process S) : Process S :=
  fun messageType message progress cancellationToken => do
    let token ← createLinkedTokenSource cancellationToken (.source b.cancellationTokenSource)
    throwIfCancellationRequested token
    let progress := progress.getD .nullProgess
    try
      b.fireEvent messageType message
      let processor ← b.processor messageType
      processor message process progress token
    catch e =>
      if e.isKeyNotFound then throw (.noProcessorFound messageType) else throw e

/-- `Process` with calls nested no deeper than `depth`. -/
def process : ℕ → Process S
  | 0 => fun _ _ _ _ _ => none
  | depth + 1 => b.processWith (process depth)

/-- The caller's token is cancelled, or the backbone disposed. -/
def Canceled (cancellationToken : Token S) (w : World S) : Prop :=
  cancellationToken.isCancellationRequested w.sources = true ∨
    w.sources.isCancellationRequested b.cancellationTokenSource = true

/-- The world once a call has made its linked source. -/
def entered (cancellationToken : Token S) (w : World S) : World S :=
  { w with sources := w.sources.link cancellationToken (.source b.cancellationTokenSource) }

end BackBone

section Call
variable {b : BackBone S} {process : Process S} {message : S.Message messageType}
  {progress : Option (IProgress S)} {cancellationToken : Token S}
  {s t : World S × List (Event S)} {w w' : World S} {events : List (Event S)} {α : Type}
  {e : FlowException S}

theorem log_apply {event : Event S} :
    (log event : Body S Unit) s = some (.ok (), s.1, s.2 ++ [event]) := rfl

theorem log_throwsOnly {A : FlowException S → Prop} (event : Event S) :
    PartialComp.ThrowsOnly A (log event) := by
  intro s e t h
  cases (log_apply (s := s)).symm.trans h

theorem createLinkedTokenSource_apply {token1 token2 : Token S} :
    createLinkedTokenSource token1 token2 s = some (.ok s.1.sources.linkedToken,
      { s.1 with sources := s.1.sources.link token1 token2 }, s.2) := rfl

theorem throwIfCancellationRequested_of_false {token : Token S}
    (h : token.isCancellationRequested s.1.sources = false) :
    throwIfCancellationRequested token s = some (.ok (), s) := by
  have hget : (get : Body S _) s = some (.ok s, s) := rfl
  rw [throwIfCancellationRequested, PartialComp.bind_of_ok hget, if_neg (Bool.eq_false_iff.mp h)]
  rfl

theorem throwIfCancellationRequested_of_true {token : Token S}
    (h : token.isCancellationRequested s.1.sources = true) :
    throwIfCancellationRequested token s = some (.error .operationCanceled, s) := by
  have hget : (get : Body S _) s = some (.ok s, s) := rfl
  rw [throwIfCancellationRequested, PartialComp.bind_of_ok hget, if_pos h]
  rfl

section Adapters
variable {finalizer : IProcessorFinalizer S messageType} {given : IProgress S}
  {transformer : ITransformProcessor S messageType1 messageType2}
  {message1 : S.Message messageType1} {message2 : S.Message messageType2}
variable (process events)

theorem processorFinalizerAdapter_of_some {r : Except (FlowException S) S.Result}
    (hc : cancellationToken.isCancellationRequested w.sources = false)
    (h : finalizer message given cancellationToken w = some (r, w')) :
    processorFinalizerAdapter finalizer message process given cancellationToken (w, events) =
      some (r, w', events ++ [.finalize messageType message given]) := by
  rw [processorFinalizerAdapter,
    PartialComp.bind_of_ok (throwIfCancellationRequested_of_false hc),
    PartialComp.bind_of_ok log_apply]
  exact PartialComp.onFst_of_some h

section Transforming
variable (hc : cancellationToken.isCancellationRequested w.sources = false)
  (h : transformer message1 given cancellationToken w = some (.ok message2, w'))
include hc h

theorem transformerProcessorAdapter_of_running
    (hc' : cancellationToken.isCancellationRequested w'.sources = false) :
    transformerProcessorAdapter transformer message1 process given cancellationToken
        (w, events) =
      process messageType2 message2 (some given) cancellationToken
        (w', events ++ [.transform messageType1 message1 given]) := by
  rw [transformerProcessorAdapter,
    PartialComp.bind_of_ok (throwIfCancellationRequested_of_false hc),
    PartialComp.bind_of_ok log_apply, PartialComp.bind_of_ok (PartialComp.onFst_of_some h),
    PartialComp.bind_of_ok (throwIfCancellationRequested_of_false hc')]

theorem transformerProcessorAdapter_of_canceled
    (hc' : cancellationToken.isCancellationRequested w'.sources = true) :
    transformerProcessorAdapter transformer message1 process given cancellationToken
        (w, events) =
      some (.error .operationCanceled, w',
        events ++ [.transform messageType1 message1 given]) := by
  rw [transformerProcessorAdapter,
    PartialComp.bind_of_ok (throwIfCancellationRequested_of_false hc),
    PartialComp.bind_of_ok log_apply, PartialComp.bind_of_ok (PartialComp.onFst_of_some h)]
  exact PartialComp.bind_of_error (throwIfCancellationRequested_of_true hc')

end Transforming

section ThrowsOnly
variable {A : FlowException S → Prop} (hA : A .operationCanceled)
include hA

theorem throwIfCancellationRequested_throwsOnly (token : Token S) :
    PartialComp.ThrowsOnly A (throwIfCancellationRequested token) := by
  intro s e t h
  cases hc : token.isCancellationRequested s.1.sources with
  | true =>
      cases (throwIfCancellationRequested_of_true hc).symm.trans h
      exact hA
  | false => cases (throwIfCancellationRequested_of_false hc).symm.trans h

theorem processorFinalizerAdapter_throwsOnly
    (hf : PartialComp.ThrowsOnly A (finalizer message given cancellationToken)) :
    PartialComp.ThrowsOnly A
      (processorFinalizerAdapter finalizer message process given cancellationToken) :=
  (throwIfCancellationRequested_throwsOnly hA _).bind fun _ =>
    (log_throwsOnly _).bind fun _ => hf.onFst

theorem transformerProcessorAdapter_throwsOnly
    (ht : PartialComp.ThrowsOnly A (transformer message1 given cancellationToken))
    (hp : ∀ message2, PartialComp.ThrowsOnly A
      (process messageType2 message2 (some given) cancellationToken)) :
    PartialComp.ThrowsOnly A
      (transformerProcessorAdapter transformer message1 process given cancellationToken) :=
  (throwIfCancellationRequested_throwsOnly hA _).bind fun _ =>
    (log_throwsOnly _).bind fun _ => ht.onFst.bind fun message2 =>
      (throwIfCancellationRequested_throwsOnly hA _).bind fun _ => hp message2

end ThrowsOnly
end Adapters

theorem BackBone.fireEvent_of_some {r : Except (FlowException S) Unit}
    (h : b.onElement messageType message w = some (r, w')) :
    b.fireEvent messageType message (w, events) =
      some (r, w', events ++ [.message messageType message]) := by
  rw [BackBone.fireEvent, PartialComp.bind_of_ok log_apply]
  exact PartialComp.onFst_of_some h

theorem BackBone.fireEvent_of_none (h : b.onElement messageType message w = none) :
    b.fireEvent messageType message (w, events) = none := by
  rw [BackBone.fireEvent, PartialComp.bind_of_ok log_apply]
  exact congrArg (Option.map _) h

/-- What the `catch` makes of an exception. -/
def FlowException.caught (messageType : S.MessageType) (e : FlowException S) : FlowException S :=
  if e.isKeyNotFound then .noProcessorFound messageType else e

theorem catch_apply : (if e.isKeyNotFound then throw (.noProcessorFound messageType) else throw e :
    Body S α) s = some (.error (e.caught messageType), s) := by
  unfold FlowException.caught
  split <;> rfl

namespace BackBone

theorem entered_isCancellationRequested :
    w.sources.linkedToken.isCancellationRequested (b.entered cancellationToken w).sources = true ↔
      b.Canceled cancellationToken w := by
  rw [entered, TokenSources.linkedToken_isCancellationRequested, Bool.or_eq_true]
  rfl

theorem processWith_of_canceled
    (hc : b.Canceled cancellationToken w) :
    b.processWith process messageType message progress cancellationToken (w, events) =
      some (.error .operationCanceled, b.entered cancellationToken w, events) := by
  rw [processWith, PartialComp.bind_of_ok createLinkedTokenSource_apply]
  exact PartialComp.bind_of_error
    (throwIfCancellationRequested_of_true (entered_isCancellationRequested.mpr hc))

section Running
variable (hc : ¬ b.Canceled cancellationToken w)
include hc

theorem processWith_of_running :
    b.processWith process messageType message progress cancellationToken (w, events) =
      (tryCatch
        (do
          b.fireEvent messageType message
          let processor ← b.processor messageType
          processor message process (progress.getD .nullProgess) w.sources.linkedToken)
        fun e => if e.isKeyNotFound then throw (.noProcessorFound messageType) else throw e :
        Body S S.Result) (b.entered cancellationToken w, events) := by
  rw [processWith, PartialComp.bind_of_ok createLinkedTokenSource_apply]
  exact PartialComp.bind_of_ok (throwIfCancellationRequested_of_false
    (Bool.eq_false_iff.mpr (mt entered_isCancellationRequested.mp hc)))

theorem processWith_of_diverging
    (hf : b.onElement messageType message (b.entered cancellationToken w) = none) :
    b.processWith process messageType message progress cancellationToken (w, events) = none := by
  rw [processWith_of_running hc]
  exact PartialComp.tryCatch_of_none (PartialComp.bind_of_none (fireEvent_of_none hf))

theorem processWith_of_throwing
    (hf : b.onElement messageType message (b.entered cancellationToken w) = some (.error e, w')) :
    b.processWith process messageType message progress cancellationToken (w, events) =
      some (.error (e.caught messageType), w', events ++ [.message messageType message]) := by
  rw [processWith_of_running hc]
  rw [PartialComp.tryCatch_of_error (PartialComp.bind_of_error (fireEvent_of_some hf)), catch_apply]

theorem processWith_of_missing
    (hf : b.onElement messageType message (b.entered cancellationToken w) = some (.ok (), w'))
    (hp : b.processors messageType = none) :
    b.processWith process messageType message progress cancellationToken (w, events) =
      some (.error (.noProcessorFound messageType), w',
        events ++ [.message messageType message]) := by
  have hprocessor (s : World S × List (Event S)) :
      b.processor messageType s = some (.error (.keyNotPresent messageType), s) := by
    rw [processor, hp]
    rfl
  rw [processWith_of_running hc]
  refine (PartialComp.tryCatch_of_error ?_).trans (catch_apply (e := .keyNotPresent messageType))
  rw [PartialComp.bind_of_ok (fireEvent_of_some hf)]
  exact PartialComp.bind_of_error (hprocessor _)

theorem processWith_of_registered
    (hf : b.onElement messageType message (b.entered cancellationToken w) = some (.ok (), w'))
    {processor : IProcessor S messageType} (hp : b.processors messageType = some processor) :
    b.processWith process messageType message progress cancellationToken (w, events) =
      (tryCatch
        (processor message process (progress.getD .nullProgess) w.sources.linkedToken)
        fun e => if e.isKeyNotFound then throw (.noProcessorFound messageType) else throw e :
        Body S S.Result) (w', events ++ [.message messageType message]) := by
  have hprocessor (s : World S × List (Event S)) :
      b.processor messageType s = some (.ok processor, s) := by
    rw [BackBone.processor, hp]
    rfl
  rw [processWith_of_running hc]
  rw [PartialComp.tryCatch_apply, PartialComp.tryCatch_apply]
  rw [PartialComp.bind_of_ok (fireEvent_of_some hf), PartialComp.bind_of_ok (hprocessor _)]

/-- The `catch` lets everything else through. -/
theorem processWith_of_passed
    (hf : b.onElement messageType message (b.entered cancellationToken w) = some (.ok (), w'))
    {processor : IProcessor S messageType} (hp : b.processors messageType = some processor)
    {r : Except (FlowException S) S.Result}
    (hr : processor message process (progress.getD .nullProgess) w.sources.linkedToken
        (w', events ++ [.message messageType message]) = some (r, s))
    (hk : ∀ e, r = .error e → e.isKeyNotFound = false) :
    b.processWith process messageType message progress cancellationToken (w, events) =
      some (r, s) := by
  rw [processWith_of_registered hc hf hp]
  cases r with
  | ok result => exact PartialComp.tryCatch_of_ok hr
  | error e =>
      rw [PartialComp.tryCatch_of_error hr, if_neg (Bool.eq_false_iff.mp (hk e rfl))]
      rfl

end Running
end BackBone
end Call

section Report
variable (b : BackBone S) (depth : ℕ) (messageType : S.MessageType)
  (message : S.Message messageType) (progress : Option (IProgress S)) (cancellationToken : Token S)
  (w : World S) (events : List (Event S))

/-- The report comes exactly if no processor is registered, and what leaves a registered
one reaches the caller. -/
structure BackBone.Reports : Prop where
  missing : (∃ s, b.process (depth + 1) messageType message progress cancellationToken (w, events) =
      some (.error (.noProcessorFound messageType), s)) ↔ b.processors messageType = none
  passed : ∀ processor, b.processors messageType = some processor →
    ∀ w', b.onElement messageType message (b.entered cancellationToken w) = some (.ok (), w') →
      ∀ e s,
      processor message (b.process depth) (progress.getD .nullProgess) w.sources.linkedToken
          (w', events ++ [.message messageType message]) = some (.error e, s) →
      b.process (depth + 1) messageType message progress cancellationToken (w, events) =
        some (.error e, s)

/-- The `catch` makes the report of it, or it is the report. -/
def TakenForMissing (messageType : S.MessageType) (e : FlowException S) : Prop :=
  e.isKeyNotFound = true ∨ e = .noProcessorFound messageType

/-- No such exception leaves the handlers or the processor. If there is no processor, the
handlers return or throw one by accident. -/
structure BackBone.NotTaken : Prop where
  registered : b.processors messageType ≠ none →
    ∀ e w', b.onElement messageType message (b.entered cancellationToken w) =
        some (.error e, w') → ¬ TakenForMissing messageType e
  missing : b.processors messageType = none →
    ∃ r w', b.onElement messageType message (b.entered cancellationToken w) = some (r, w') ∧
      ∀ e, r = .error e → TakenForMissing messageType e
  processor : ∀ processor, b.processors messageType = some processor →
    ∀ w', b.onElement messageType message (b.entered cancellationToken w) = some (.ok (), w') →
      ∀ e s,
      processor message (b.process depth) (progress.getD .nullProgess) w.sources.linkedToken
          (w', events ++ [.message messageType message]) = some (.error e, s) →
      ¬ TakenForMissing messageType e

end Report

theorem FlowException.caught_eq_iff {messageType : S.MessageType} {e : FlowException S} :
    e.caught messageType = .noProcessorFound messageType ↔ TakenForMissing messageType e := by
  unfold FlowException.caught TakenForMissing
  split
  · exact ⟨fun _ => .inl ‹_›, fun _ => rfl⟩
  · exact ⟨.inr, fun h => h.resolve_left ‹_›⟩

theorem FlowException.taken_of_caught {messageType : S.MessageType} {e : FlowException S}
    {s t : World S × List (Event S)}
    (h : (some (.error (e.caught messageType), s) :
      Option (Except (FlowException S) S.Result × (World S × List (Event S)))) =
        some (.error (.noProcessorFound messageType), t)) : TakenForMissing messageType e := by
  simp only [Option.some.injEq, Prod.mk.injEq, Except.error.injEq] at h
  exact caught_eq_iff.mp h.1

theorem FlowException.caught_of_not {messageType : S.MessageType} {e : FlowException S}
    (h : ¬ TakenForMissing messageType e) : e.caught messageType = e :=
  if_neg fun hk => h (.inl hk)

namespace BackBone
variable {b : BackBone S} {depth : ℕ} {messageType : S.MessageType}
  {message : S.Message messageType} {progress : Option (IProgress S)} {cancellationToken : Token S}
  {w : World S} {events : List (Event S)}

section Running
variable (hc : ¬ b.Canceled cancellationToken w)
include hc

theorem process_of_processor_error {w' : World S}
    (hf : b.onElement messageType message (b.entered cancellationToken w) = some (.ok (), w'))
    {processor : IProcessor S messageType} (hp : b.processors messageType = some processor)
    {e : FlowException S} {s : World S × List (Event S)}
    (he : processor message (b.process depth) (progress.getD .nullProgess) w.sources.linkedToken
        (w', events ++ [.message messageType message]) = some (.error e, s)) :
    b.process (depth + 1) messageType message progress cancellationToken (w, events) =
      some (.error (e.caught messageType), s) := by
  rw [process, processWith_of_registered hc hf hp, PartialComp.tryCatch_of_error he]
  exact catch_apply

theorem not_taken_of_reports
    (h : b.Reports depth messageType message progress cancellationToken w events) :
    b.NotTaken depth messageType message progress cancellationToken w events := by
  -- an exception that is taken for a missing processor becomes the report
  have hreport {e : FlowException S} {s : World S × List (Event S)}
      (ho : b.process (depth + 1) messageType message progress cancellationToken (w, events) =
        some (.error (e.caught messageType), s)) (ht : TakenForMissing messageType e) :
      b.processors messageType = none :=
    h.missing.mp ⟨s, ho.trans (by rw [FlowException.caught_eq_iff.mpr ht])⟩
  constructor
  · intro hp e w' hf ht
    exact hp (hreport (processWith_of_throwing hc hf) ht)
  · intro hp
    obtain ⟨s, hs⟩ := h.missing.mpr hp
    rw [process] at hs
    cases hf : b.onElement messageType message (b.entered cancellationToken w) with
    | none => cases (processWith_of_diverging hc hf).symm.trans hs
    | some o =>
        obtain ⟨r, w'⟩ := o
        refine ⟨r, w', rfl, fun e he => ?_⟩
        rw [he] at hf
        exact FlowException.taken_of_caught ((processWith_of_throwing hc hf).symm.trans hs)
  · intro processor hp w' hf e s he ht
    have hnone := hreport (process_of_processor_error hc hf hp he) ht
    cases hnone.symm.trans hp

theorem reports_of_not_taken
    (h : b.NotTaken depth messageType message progress cancellationToken w events) :
    b.Reports depth messageType message progress cancellationToken w events := by
  refine ⟨⟨?_, fun hp => ?_⟩, fun processor hp w' hf e s he => ?_⟩
  · rintro ⟨s, hs⟩
    by_contra hp
    obtain ⟨processor, hprocessor⟩ := Option.ne_none_iff_exists'.mp hp
    cases hf : b.onElement messageType message (b.entered cancellationToken w) with
    | none =>
        rw [process] at hs
        cases (processWith_of_diverging hc hf).symm.trans hs
    | some o =>
        obtain ⟨e | u, w'⟩ := o
        · rw [process, processWith_of_throwing hc hf] at hs
          exact h.registered hp e w' hf (FlowException.taken_of_caught hs)
        · cases hr : processor message (b.process depth) (progress.getD .nullProgess)
              w.sources.linkedToken
              (w', events ++ [.message messageType message]) with
          | none =>
              rw [process, processWith_of_registered hc hf hprocessor,
                PartialComp.tryCatch_of_none hr] at hs
              cases hs
          | some o =>
              obtain ⟨e | result, s'⟩ := o
              · rw [process_of_processor_error hc hf hprocessor hr] at hs
                exact h.processor processor hprocessor w' hf e s' hr
                  (FlowException.taken_of_caught hs)
              · rw [process, processWith_of_registered hc hf hprocessor,
                  PartialComp.tryCatch_of_ok hr] at hs
                cases hs
  · obtain ⟨e | u, w', hf, ht⟩ := h.missing hp
    · exact ⟨_, (processWith_of_throwing hc hf).trans
        (by rw [FlowException.caught_eq_iff.mpr (ht e rfl)])⟩
    · exact ⟨_, processWith_of_missing hc hf hp⟩
  · rw [process_of_processor_error hc hf hp he,
      FlowException.caught_of_not (h.processor processor hp w' hf e s he)]

/-- A call tells a missing processor from a failing one exactly when nothing that is
taken for a missing processor leaves the user code it runs. -/
theorem reports_iff : b.Reports depth messageType message progress cancellationToken w events ↔
    b.NotTaken depth messageType message progress cancellationToken w events :=
  ⟨not_taken_of_reports hc, reports_of_not_taken hc⟩

end Running

/-- What may leave a call: a report only of a type that has no processor. -/
def Explained (b : BackBone S) (e : FlowException S) : Prop :=
  e.isKeyNotFound = false ∧
    ∀ messageType, e = .noProcessorFound messageType → b.processors messageType = none

/-- The handlers return, and a processor throws nothing of the kind that it was not given by
the backbone. -/
structure Honest (b : BackBone S) : Prop where
  onElement : ∀ messageType message w, ∃ w', b.onElement messageType message w = some (.ok (), w')
  processor : ∀ messageType processor, b.processors messageType = some processor →
    ∀ process : Process S, (∀ messageType message progress cancellationToken,
      PartialComp.ThrowsOnly b.Explained
        (process messageType message progress cancellationToken)) →
    ∀ message progress cancellationToken, PartialComp.ThrowsOnly b.Explained
      (processor message process progress cancellationToken)

theorem explained_operationCanceled : b.Explained .operationCanceled := ⟨rfl, nofun⟩

theorem Explained.not_taken {e : FlowException S} (h : b.Explained e)
    (hp : b.processors messageType ≠ none) : ¬ TakenForMissing messageType e := by
  rintro (hk | he)
  · cases h.1.symm.trans hk
  · exact hp (h.2 messageType he)

/-- By induction on the depth: the calls a processor makes are explained, so the processor
is, and the report is made only where there is none. -/
theorem Honest.process_throwsOnly (hb : b.Honest) (depth : ℕ) (messageType : S.MessageType)
    (message : S.Message messageType) (progress : Option (IProgress S))
    (cancellationToken : Token S) :
    PartialComp.ThrowsOnly b.Explained
      (b.process depth messageType message progress cancellationToken) := by
  induction depth generalizing messageType message progress cancellationToken with
  | zero =>
      intro s e t h
      cases h
  | succ depth ih =>
      rintro ⟨w, events⟩ e s h
      by_cases hc : b.Canceled cancellationToken w
      · cases (processWith_of_canceled hc).symm.trans h
        exact explained_operationCanceled
      · obtain ⟨w', hf⟩ := hb.onElement messageType message (b.entered cancellationToken w)
        cases hp : b.processors messageType with
        | none =>
            cases (processWith_of_missing hc hf hp).symm.trans h
            exact ⟨rfl, fun t ht => by cases ht; exact hp⟩
        | some processor =>
            have hprocessor := hb.processor messageType processor hp (b.process depth) ih
              message (progress.getD .nullProgess) w.sources.linkedToken
            rw [process, processWith_of_registered hc hf hp] at h
            refine hprocessor.tryCatch (fun e he => ?_) _ e s h
            rw [if_neg (Bool.eq_false_iff.mp he.1)]
            exact PartialComp.throwsOnly_throw he

/-- Every call reports right then, at any depth. -/
theorem Honest.reports (hb : b.Honest) (hc : ¬ b.Canceled cancellationToken w) :
    b.Reports depth messageType message progress cancellationToken w events := by
  refine reports_of_not_taken hc ⟨fun hp e w' hf => ?_, fun hp => ?_,
    fun processor hp w' hf e s he => ?_⟩
  · obtain ⟨w'', hok⟩ := hb.onElement messageType message (b.entered cancellationToken w)
    cases hok.symm.trans hf
  · obtain ⟨w', hok⟩ := hb.onElement messageType message (b.entered cancellationToken w)
    exact ⟨_, _, hok, nofun⟩
  · have hprocessor := hb.processor messageType processor hp (b.process depth)
      (hb.process_throwsOnly depth) message (progress.getD .nullProgess) w.sources.linkedToken
    exact (hprocessor _ _ _ he).not_taken (by rw [hp]; nofun)

end BackBone

/-- Two types of messages; a lookup of user code may fail. -/
def lookups : Signature where
  MessageType := Bool
  Message _ := ℕ
  Result := ℕ
  Progress := Unit
  Source := Unit
  User := Unit
  Exception := Unit

/-- The processor of `true` finds only the key zero. -/
def lookupBackBone : BackBone lookups where
  processors
    | true => some fun (key : ℕ) _ _ _ =>
        if key = 0 then (pure (0 : ℕ) : Body lookups ℕ) else throw (.keyNotFound ())
    | false => none
  cancellationTokenSource := ()
  onElement _ _ := pure ()

theorem lookup_not_canceled : ¬ lookupBackBone.Canceled .none ⟨{}, ()⟩ := by
  rintro (h | h) <;> cases h

theorem lookup_zero_reports :
    lookupBackBone.Reports 0 true (0 : ℕ) none .none ⟨{}, ()⟩ [] := by
  refine (BackBone.reports_iff lookup_not_canceled).mpr ⟨nofun, nofun, ?_⟩
  rintro _ ⟨⟩ _ _ _ _ ⟨⟩

/-- There is a processor, and its exception is reported as a missing one. -/
theorem lookup_one_reported :
    ¬ ∀ (b : BackBone lookups) depth messageType message progress cancellationToken w events,
      ¬ b.Canceled cancellationToken w →
      b.Reports depth messageType message progress cancellationToken w events := by
  intro h
  have hr := (h lookupBackBone 0 true (1 : ℕ) none .none ⟨{}, ()⟩ [] lookup_not_canceled).missing
  cases hr.mp ⟨_, rfl⟩

end ComposableAsync.Flow.Pipeline
