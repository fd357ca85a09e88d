import Mathlib.Data.List.Basic
import Mathlib.Logic.Relation

/-!
# Linked cancellation tokens

A linked source is made from two tokens and cancelled after one of them. Cancelling a source
marks it first and then calls back the sources that are linked to it, one after the other, so
that for a while a token is cancelled and one that is linked to it not yet.

Nothing here refers to a particular program.
-/
namespace ComposableAsync.Foundations

variable {ι : Type}

/-- The token of no source, of a source, or of the linked source with a number. -/
inductive CancellationToken (ι : Type) where
  | none
  | source (s : ι)
  | linked (id : ℕ)

structure LinkedSource (ι : Type) where
  token1 : CancellationToken ι
  token2 : CancellationToken ι
  isCancellationRequested : Bool

structure TokenSources (ι : Type) where
  isCancellationRequested : ι → Bool := fun _ => false
  linked : List (LinkedSource ι) := []

def CancellationToken.isCancellationRequested (w : TokenSources ι) : CancellationToken ι → Bool
  | .none => false
  | .source s => w.isCancellationRequested s
  | .linked id => w.linked[id]?.any LinkedSource.isCancellationRequested

/-- One of the tokens is cancelled. -/
def LinkedSource.Owed (source : LinkedSource ι) (w : TokenSources ι) : Prop :=
  source.token1.isCancellationRequested w = true ∨ source.token2.isCancellationRequested w = true

namespace TokenSources

/-- Registering with a token that is cancelled already calls back at once. -/
def link (w : TokenSources ι) (token1 token2 : CancellationToken ι) : TokenSources ι :=
  { w with linked := w.linked ++ [⟨token1, token2,
      token1.isCancellationRequested w || token2.isCancellationRequested w⟩] }

/-- The token of the source that is linked next. -/
def linkedToken (w : TokenSources ι) : CancellationToken ι := .linked w.linked.length

def callBack (w : TokenSources ι) (id : ℕ) (source : LinkedSource ι) : TokenSources ι :=
  { w with linked := w.linked.set id { source with isCancellationRequested := true } }

/-- A source is marked whenever its owner cancels it, a linked one only by its callback. -/
inductive Step : TokenSources ι → TokenSources ι → Prop
  | cancel {w : TokenSources ι} (requested : ι → Bool)
      (h : ∀ s, w.isCancellationRequested s = true → requested s = true) :
      Step w { w with isCancellationRequested := requested }
  | callback {w : TokenSources ι} {id : ℕ} {source : LinkedSource ι}
      (h : w.linked[id]? = some source) (ho : source.Owed w) : Step w (w.callBack id source)
  | link {w : TokenSources ι} (token1 token2 : CancellationToken ι) : Step w (w.link token1 token2)

abbrev Later : TokenSources ι → TokenSources ι → Prop := Relation.ReflTransGen Step

/-- The callback of a linked source is not owed, as when every cancelling has returned. -/
def CalledBack (w : TokenSources ι) (id : ℕ) : Prop :=
  ∀ source : LinkedSource ι, w.linked[id]? = some source → source.Owed w →
    source.isCancellationRequested = true

end TokenSources

section Later
variable {w w' u : TokenSources ι} {token1 token2 : CancellationToken ι} {source : LinkedSource ι}

theorem CancellationToken.isCancellationRequested_linked {id : ℕ}
    (h : w.linked[id]? = some source) :
    (linked id).isCancellationRequested w = source.isCancellationRequested := by
  rw [isCancellationRequested, h]
  rfl

namespace TokenSources

theorem link_getElem? : (w.link token1 token2).linked[w.linked.length]? = some ⟨token1, token2,
    token1.isCancellationRequested w || token2.isCancellationRequested w⟩ :=
  List.getElem?_concat_length

theorem linkedToken_isCancellationRequested :
    w.linkedToken.isCancellationRequested (w.link token1 token2) =
      (token1.isCancellationRequested w || token2.isCancellationRequested w) :=
  CancellationToken.isCancellationRequested_linked link_getElem?

theorem isCancellationRequested_mono
    (hs : ∀ s, w.isCancellationRequested s = true → w'.isCancellationRequested s = true)
    (hl : ∀ (id : ℕ) source, w.linked[id]? = some source → source.isCancellationRequested = true →
      ∃ source', w'.linked[id]? = some source' ∧ source'.isCancellationRequested = true)
    {token : CancellationToken ι} (h : token.isCancellationRequested w = true) :
    token.isCancellationRequested w' = true := by
  cases token with
  | none => cases h
  | source s => exact hs s h
  | linked id =>
      obtain ⟨source, hsource, hc⟩ := (Option.any_eq_true ..).mp h
      obtain ⟨source', hsource', hc'⟩ := hl id source hsource hc
      rw [CancellationToken.isCancellationRequested_linked hsource']
      exact hc'

/-- What was cancelled is, a linked source has its tokens, and if it was cancelled meanwhile
then one of them was. -/
structure Keeps (w w' : TokenSources ι) : Prop where
  canceled : ∀ {token : CancellationToken ι}, token.isCancellationRequested w = true →
    token.isCancellationRequested w' = true
  linked : ∀ (id : ℕ) (source : LinkedSource ι), w.linked[id]? = some source →
    ∃ source', w'.linked[id]? = some source' ∧
      source'.token1 = source.token1 ∧ source'.token2 = source.token2 ∧
      (source'.isCancellationRequested = true →
        source.isCancellationRequested = true ∨ source.Owed w')

theorem Keeps.owed (h : w.Keeps w') (ho : source.Owed w) : source.Owed w' :=
  ho.imp h.canceled h.canceled

theorem Keeps.of_linked
    (hs : ∀ s, w.isCancellationRequested s = true → w'.isCancellationRequested s = true)
    (hl : ∀ (id : ℕ) source, w.linked[id]? = some source → w'.linked[id]? = some source) :
    w.Keeps w' :=
  ⟨isCancellationRequested_mono hs fun id source h hc => ⟨source, hl id source h, hc⟩,
    fun id source h => ⟨source, hl id source h, rfl, rfl, .inl⟩⟩

theorem Keeps.trans (h : w.Keeps w') (h' : w'.Keeps u) : w.Keeps u := by
  refine ⟨fun hc => h'.canceled (h.canceled hc), fun id source hs => ?_⟩
  obtain ⟨source', hs', h₁, h₂, hwhy⟩ := h.linked id source hs
  obtain ⟨source'', hs'', h₁', h₂', hwhy'⟩ := h'.linked id source' hs'
  refine ⟨source'', hs'', h₁'.trans h₁, h₂'.trans h₂, fun hc => ?_⟩
  rcases hwhy' hc with hc | ho
  · exact (hwhy hc).imp_right h'.owed
  · rw [LinkedSource.Owed, h₁, h₂] at ho
    exact .inr ho

section CallBack
variable {called : ℕ} (h : w.linked[called]? = some source)
include h

theorem callBack_getElem?_self : (w.callBack called source).linked[called]? =
    some { source with isCancellationRequested := true } :=
  List.getElem?_set_self (List.getElem?_eq_some_iff.mp h).1

/-- Only the source that is called back changes. -/
theorem callBack_getElem? {id : ℕ} {other : LinkedSource ι} (ho : w.linked[id]? = some other) :
    (called = id ∧ other = source) ∨ (w.callBack called source).linked[id]? = some other := by
  by_cases hid : called = id
  · exact .inl ⟨hid, Option.some.inj (ho.symm.trans (hid ▸ h))⟩
  · exact .inr ((List.getElem?_set_ne hid).trans ho)

theorem callBack_canceled {token : CancellationToken ι}
    (hc : token.isCancellationRequested w = true) :
    token.isCancellationRequested (w.callBack called source) = true := by
  have hs (s : ι) (hr : w.isCancellationRequested s = true) :
      (w.callBack called source).isCancellationRequested s = true := hr
  refine isCancellationRequested_mono hs (fun id other ho hcanceled => ?_) hc
  rcases callBack_getElem? h ho with ⟨rfl, -⟩ | ho'
  · exact ⟨_, callBack_getElem?_self h, rfl⟩
  · exact ⟨other, ho', hcanceled⟩

end CallBack

theorem Step.keeps (h : Step w w') : w.Keeps w' := by
  cases h with
  | cancel requested h => exact .of_linked h fun _ _ h => h
  | link token1 token2 =>
      refine .of_linked (fun _ h => h) fun id source h => ?_
      exact (List.getElem?_append_left (List.getElem?_eq_some_iff.mp h).1).trans h
  | callback h howed =>
      refine ⟨callBack_canceled h, fun id other ho => ?_⟩
      rcases callBack_getElem? h ho with ⟨rfl, rfl⟩ | ho'
      · exact ⟨_, callBack_getElem?_self h, rfl, rfl,
          fun _ => .inr (howed.imp (callBack_canceled h) (callBack_canceled h))⟩
      · exact ⟨other, ho', rfl, rfl, .inl⟩

theorem Later.keeps (h : w.Later w') : w.Keeps w' := by
  induction h with
  | refl => exact .of_linked (fun _ h => h) fun _ _ h => h
  | tail _ hstep ih => exact ih.trans hstep.keeps

theorem Later.exists_linked (h : (w.link token1 token2).Later w') :
    ∃ source, w'.linked[w.linked.length]? = some source ∧
      source.token1 = token1 ∧ source.token2 = token2 ∧
      (source.isCancellationRequested = true → source.Owed w') := by
  obtain ⟨source, hs, rfl, rfl, hwhy⟩ := h.keeps.linked _ _ link_getElem?
  refine ⟨source, hs, rfl, rfl, fun hc => (hwhy hc).elim (fun hat => ?_) id⟩
  have hlater : w.Later w' := .head (.link _ _) h
  exact ((Bool.or_eq_true ..).mp hat).imp hlater.keeps.canceled hlater.keeps.canceled

/-- It is cancelled only after one of its tokens. -/
theorem Later.owed (h : (w.link token1 token2).Later w')
    (hc : w.linkedToken.isCancellationRequested w' = true) :
    token1.isCancellationRequested w' = true ∨ token2.isCancellationRequested w' = true := by
  obtain ⟨source, hs, rfl, rfl, hwhy⟩ := h.exists_linked
  rw [linkedToken, CancellationToken.isCancellationRequested_linked hs] at hc
  exact hwhy hc

/-- It is cancelled once it was called back. -/
theorem Later.calledBack (h : (w.link token1 token2).Later w')
    (hw : w'.CalledBack w.linked.length)
    (hc : token1.isCancellationRequested w' = true ∨ token2.isCancellationRequested w' = true) :
    w.linkedToken.isCancellationRequested w' = true := by
  obtain ⟨source, hs, rfl, rfl, -⟩ := h.exists_linked
  rw [linkedToken, CancellationToken.isCancellationRequested_linked hs]
  exact hw source hs hc

end TokenSources
end Later
end ComposableAsync.Foundations
