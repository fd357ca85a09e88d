import ComposableAsync.Core.Dispatcher
import ComposableAsync.Foundations.Footprint

/-!
# The cells a dispatcher uses

A dispatcher stays within a set of cells if every entry point does, given a
delegate that does. Composition and adaptation keep this, so the footprint of a
composition is that of its stages.
-/
namespace ComposableAsync.Core
open Foundations

variable {ι α E W Ty Token R : Type} {Val : Ty → Type} {C : Set ι}

theorem within_async {body : Comp E (Memory ι α W) R} (h : Within C body) :
    Within C (async (n := StateM (Memory ι α W)) body) := by
  have hrun : ∀ m, async (n := StateM (Memory ι α W)) body m =
      (.ok (body m).1, (body m).2) := fun _ => rfl
  constructor
  · intro m m' hm
    obtain ⟨hresult, hagree⟩ := h.reads hm
    simp only [hrun, hresult]
    exact ⟨trivial, hagree⟩
  · intro m i hi
    exact h.writes m i hi

theorem within_await (task : Awaited E R) :
    Within C (await (n := StateM (Memory ι α W)) task) := by
  cases task with
  | ok value => exact .pure value
  | error exception => exact .throw exception

theorem within_awaited {call : Comp E (Memory ι α W) (Awaited E R)} (h : Within C call) :
    Within C (do await (← call)) := h.bind within_await

theorem within_delegated {call : Comp E (Memory ι α W) (Awaited E R)} (h : Within C call) :
    Within C (async (n := StateM (Memory ι α W)) do await (← call)) :=
  within_async (within_awaited h)

theorem within_fromResult {action : Comp E (Memory ι α W) R} (h : Within C action) :
    Within C (do return .ok (← action) : Comp E (Memory ι α W) (Awaited E R)) :=
  h.bind fun _ => .pure _

/-- Every entry point stays within `C` if its delegate does. -/
structure EntriesWithin (C : Set ι)
    (d : IDispatcher E (StateM (Memory ι α W)) Val Token) : Prop where
  dispatch : ∀ {action}, Within C action → Within C (d.dispatch action)
  enqueueAction : ∀ {action}, Within C action → Within C (d.enqueueAction action)
  enqueueFunc : ∀ {t : Ty} {action : Comp E (Memory ι α W) (Val t)}, Within C action →
    Within C (d.enqueueFunc action)
  enqueueFuncTask : ∀ {action}, Within C action → Within C (d.enqueueFuncTask action)
  enqueueFuncTaskOf : ∀ {t : Ty} {action : Comp E (Memory ι α W) (Awaited E (Val t))},
    Within C action → Within C (d.enqueueFuncTaskOf action)
  enqueueFuncWith : ∀ {t : Ty} {action : Comp E (Memory ι α W) (Val t)} {token},
    Within C action → Within C (d.enqueueFuncWith action token)
  enqueueActionWith : ∀ {action token}, Within C action →
    Within C (d.enqueueActionWith action token)
  enqueueFuncTaskWith : ∀ {action token}, Within C action →
    Within C (d.enqueueFuncTaskWith action token)
  enqueueFuncTaskOfWith : ∀ {t : Ty} {action : Comp E (Memory ι α W) (Awaited E (Val t))}
    {token}, Within C action → Within C (d.enqueueFuncTaskOfWith action token)

structure BasicWithin (C : Set ι)
    (d : IBasicDispatcher E (StateM (Memory ι α W)) Val Token) : Prop where
  enqueueFunc : ∀ {t : Ty} {action : Comp E (Memory ι α W) (Val t)} {token},
    Within C action → Within C (d.enqueueFunc action token)
  enqueueAction : ∀ {action token}, Within C action → Within C (d.enqueueAction action token)
  enqueueFuncTask : ∀ {action token}, Within C action →
    Within C (d.enqueueFuncTask action token)
  enqueueFuncTaskOf : ∀ {t : Ty} {action : Comp E (Memory ι α W) (Awaited E (Val t))}
    {token}, Within C action → Within C (d.enqueueFuncTaskOf action token)

theorem BasicWithin.adapter {d : IBasicDispatcher E (StateM (Memory ι α W)) Val Token}
    (h : BasicWithin C d) (none : Token) : EntriesWithin C (dispatcherAdapter none d) where
  dispatch ha := (h.enqueueAction ha).bind fun _ => .pure ()
  enqueueAction ha := h.enqueueAction ha
  enqueueFunc ha := h.enqueueFunc ha
  enqueueFuncTask ha := h.enqueueFuncTask ha
  enqueueFuncTaskOf ha := h.enqueueFuncTaskOf ha
  enqueueFuncWith ha := h.enqueueFunc ha
  enqueueActionWith ha := h.enqueueAction ha
  enqueueFuncTaskWith ha := h.enqueueFuncTask ha
  enqueueFuncTaskOfWith ha := h.enqueueFuncTaskOf ha

theorem entriesWithin_null : EntriesWithin C
    (nullDispatcher : IDispatcher E (StateM (Memory ι α W)) Val Token) where
  dispatch ha := ha
  enqueueAction ha := within_fromResult ha
  enqueueFunc ha := within_fromResult ha
  enqueueFuncTask ha := within_delegated ha
  enqueueFuncTaskOf ha := within_delegated ha
  enqueueFuncWith ha := within_fromResult ha
  enqueueActionWith ha := within_fromResult ha
  enqueueFuncTaskWith ha := within_delegated ha
  enqueueFuncTaskOfWith ha := within_delegated ha

/-- The delegate of the first stage is a call of the second. -/
theorem EntriesWithin.composed
    {a b : IDispatcher E (StateM (Memory ι α W)) Val Token}
    (ha : EntriesWithin C a) (hb : EntriesWithin C b) :
    EntriesWithin C (composedDispatcher a b) where
  dispatch h := ha.dispatch (hb.dispatch h)
  enqueueAction h := within_delegated (ha.enqueueFuncTask (hb.enqueueAction h))
  enqueueFunc h := within_delegated (ha.enqueueFuncTaskOf (hb.enqueueFunc h))
  enqueueFuncTask h := within_delegated (ha.enqueueFuncTask (hb.enqueueFuncTask h))
  enqueueFuncTaskOf h := within_delegated (ha.enqueueFuncTaskOf (hb.enqueueFuncTaskOf h))
  enqueueFuncWith h := within_delegated (ha.enqueueFuncTaskOfWith (hb.enqueueFuncWith h))
  enqueueActionWith h := within_delegated (ha.enqueueFuncTaskWith (hb.enqueueActionWith h))
  enqueueFuncTaskWith h := within_delegated (ha.enqueueFuncTaskWith (hb.enqueueFuncTaskWith h))
  enqueueFuncTaskOfWith h :=
    within_delegated (ha.enqueueFuncTaskOfWith (hb.enqueueFuncTaskOfWith h))

end ComposableAsync.Core
