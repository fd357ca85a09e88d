import ComposableAsync.Concurrent.FiberOrder
import ComposableAsync.Foundations.Fairness

/-!
# `Send` between fibers

`Send` runs its action at once on the thread of the fiber, and on any other thread it
enqueues it and waits for the task. A fiber whose delegate waits does not come to its next
work item, so fibers that send to each other may wait for each other for ever.

Seen from the other threads a fiber is a mailbox: the work items in the order in which they
were exchanged, and the one whose `Do` runs. The net has any number of mailboxes and of other
threads; what the delegates do is up to the scheduler, and nobody disposes a fiber.
-/
namespace ComposableAsync.Concurrent
open Foundations

structure Mailbox (T : Type) where
  pending : List T := []
  current : Option T := none
  deriving DecidableEq, Repr

inductive MailboxAct (T : Type) where
  | add (item : T)
  | take
  | finish

namespace Mailbox
variable {T : Type}

def step (m : Mailbox T) : MailboxAct T → Option (Mailbox T)
  | .add item => some { m with pending := m.pending ++ [item] }
  | .take =>
      match m.current, m.pending with
      | none, item :: rest => some { pending := rest, current := some item }
      | _, _ => none
  | .finish => if m.current.isSome then some { m with current := none } else none

def machine : Machine (Mailbox T) (MailboxAct T) := ⟨{}, step⟩

end Mailbox

namespace Fiber
variable {P R E : Type}

def mailbox (s : Fiber P R E) : Mailbox ℕ := ⟨s.queue.pending, s.queue.consumer.current⟩

variable [DecidableEq P] [Inhabited R]

/-- Every step of the fiber adds a work item, comes to one, is through with one, or is none of
the others' business. -/
theorem refines_mailbox : (machine : Machine (Fiber P R E) _).RefinesUnder Mailbox.machine
    (fun _ _ => True) (fun _ _ => True) mailbox where
  init := rfl
  step := by
    intro s a t hr _ h
    have hs := Blocking.exchanged_eq (queue_reachable hr)
    have ht := Blocking.exchanged_eq (queue_reachable (hr.reachable.next h))
    have he := step_effect hr h
    have hfinish : ∀ {ref : ℕ}, s.queue.consumer = .onItem ref → t.queue.consumer.inHand = none →
        t.queue.consumer.current = none → t.queue.delivered = s.queue.delivered →
          t.queue.exchanged = s.queue.exchanged →
            Mailbox.machine.step s.mailbox .finish = some t.mailbox := by
      intro ref hc hhand hcurrent hdelivered hsame
      have hpending : t.queue.pending = s.queue.pending := by
        rw [hsame, hs, hdelivered, hc, hhand] at ht
        simpa [Consumer.inHand] using ht.symm
      have hold : s.queue.consumer.current = some ref := by rw [hc]; rfl
      simp [Mailbox.machine, Mailbox.step, mailbox, hold, hcurrent, hpending]
    cases he.consumer with
    | stays hconsumer hdelivered _ =>
        rcases he.adds with hsame | ⟨p, ref, -, -, hadded⟩
        · left
          have hpending : t.queue.pending = s.queue.pending := by
            rw [Blocking.pending, Blocking.pending, hconsumer, hdelivered, hsame]
          simp only [mailbox, hpending, hconsumer]
        · refine .inr ⟨.add ref, trivial, ?_⟩
          have hpending : t.queue.pending = s.queue.pending ++ [ref] := by
            rw [hadded, hs, hdelivered, hconsumer, List.append_assoc] at ht
            exact (List.append_cancel_left ht).symm
          simp only [Mailbox.machine, Mailbox.step, mailbox, hpending, hconsumer]
    | moves yields _ hmove _ =>
        cases hmove with
        | loop hc hc' hpending _ =>
            left
            simp only [mailbox, hpending, hc.current, hc'.current]
        | take item hc hc' hpending _ =>
            refine .inr ⟨.take, trivial, ?_⟩
            simp only [Mailbox.machine, Mailbox.step, mailbox, hc, hc', hpending,
              Consumer.current]
        | leave hc _ _ hc' hpending _ =>
            left
            simp only [mailbox, hpending, hc, hc', Consumer.current]
        | hand item hc hc' hpending _ =>
            left
            simp only [mailbox, hpending, hc, hc', Consumer.current]
    | returns ref _ hc _ hc' hdelivered hsame =>
        refine .inr ⟨.finish, trivial, hfinish hc ?_ ?_ hdelivered hsame⟩ <;> rw [hc'] <;> rfl
    | throws ref e _ hc _ hc' hdelivered hsame =>
        refine .inr ⟨.finish, trivial, hfinish hc ?_ ?_ hdelivered hsame⟩ <;> rw [hc'] <;> rfl

end Fiber
/-- The threads: those of the fibers, and all others. -/
inductive Caller (F X : Type) where
  | fiber (f : F)
  | outside (x : X)
  deriving DecidableEq, Repr

/-- `inline` counts the calls of `Send` on the own thread that have not returned. A thread in
`Wait` waits for the task of a work item; `completed` tells which tasks are. -/
structure Net (F X : Type) where
  box : F → Mailbox ℕ := fun _ => {}
  inline : F → ℕ := fun _ => 0
  waits : Caller F X → Option ℕ := fun _ => none
  completed : ℕ → Bool := fun _ => false
  created : ℕ := 0

/-- `send` and `enqueue` are calls by the code that runs on the thread, which may do any `work`
besides; `ret` is the return of an action or delegate on the thread of a fiber. -/
inductive NetAct (F X : Type) where
  | work (c : Caller F X)
  | send (c : Caller F X) (g : F)
  | enqueue (c : Caller F X) (g : F)
  | wake (c : Caller F X)
  | take (g : F)
  | ret (f : F)

/-- The fiber that a call addresses. -/
def NetAct.target {F X : Type} : NetAct F X → Option F
  | .send _ g | .enqueue _ g => some g
  | .work _ | .wake _ | .take _ | .ret _ => none

namespace Net
variable {F X : Type} [DecidableEq F] [DecidableEq X]

/-- Code of the thread is running. -/
def runs (s : Net F X) (c : Caller F X) : Bool :=
  (s.waits c).isNone && match c with
    | .fiber f => (s.box f).current.isSome
    | .outside _ => true

def step (s : Net F X) : NetAct F X → Option (Net F X)
  | .work c => if s.runs c then some s else none
  | .send c g =>
      if s.runs c then
        -- `Thread.CurrentThread == Thread`
        if c = .fiber g then
          some { s with inline := Function.update s.inline g (s.inline g + 1) }
        else ((s.box g).step (.add s.created)).map fun b => { s with
          box := Function.update s.box g b
          waits := Function.update s.waits c (some s.created)
          created := s.created + 1 }
      else none
  | .enqueue c g =>
      if s.runs c then
        ((s.box g).step (.add s.created)).map fun b => { s with
          box := Function.update s.box g b
          created := s.created + 1 }
      else none
  | .wake c =>
      match s.waits c with
      | some k =>
          if s.completed k then some { s with waits := Function.update s.waits c none } else none
      | none => none
  | .take g => ((s.box g).step .take).map fun b => { s with box := Function.update s.box g b }
  | .ret f =>
      match (s.box f).current with
      | some k =>
          if s.waits (.fiber f) = none then
            if s.inline f = 0 then ((s.box f).step .finish).map fun b => { s with
              box := Function.update s.box f b
              completed := Function.update s.completed k true }
            else some { s with inline := Function.update s.inline f (s.inline f - 1) }
          else none
      | none => none

def machine : Machine (Net F X) (NetAct F X) := ⟨{}, step⟩

variable {s t : Net F X}

/-- The work item is in the queue of the fiber, or its `Do` runs. -/
def Holds (s : Net F X) (g : F) (k : ℕ) : Prop :=
  k ∈ (s.box g).pending ∨ (s.box g).current = some k

/-- Everything a step can do, with what it found. -/
inductive Effect (s : Net F X) : NetAct F X → Net F X → Prop
  | work (c : Caller F X) : s.runs c = true → Effect s (.work c) s
  | inline (g : F) : s.runs (.fiber g) = true →
      Effect s (.send (.fiber g) g)
        { s with inline := Function.update s.inline g (s.inline g + 1) }
  | send (c : Caller F X) (g : F) : s.runs c = true → c ≠ .fiber g →
      Effect s (.send c g) { s with
        box := Function.update s.box g
          { s.box g with pending := (s.box g).pending ++ [s.created] }
        waits := Function.update s.waits c (some s.created)
        created := s.created + 1 }
  | enqueue (c : Caller F X) (g : F) : s.runs c = true →
      Effect s (.enqueue c g) { s with
        box := Function.update s.box g
          { s.box g with pending := (s.box g).pending ++ [s.created] }
        created := s.created + 1 }
  | wake (c : Caller F X) (k : ℕ) : s.waits c = some k → s.completed k = true →
      Effect s (.wake c) { s with waits := Function.update s.waits c none }
  | take (g : F) (k : ℕ) (rest : List ℕ) : (s.box g).current = none →
      (s.box g).pending = k :: rest →
      Effect s (.take g) { s with
        box := Function.update s.box g { pending := rest, current := some k } }
  | finish (f : F) (k : ℕ) : (s.box f).current = some k → s.waits (.fiber f) = none →
      s.inline f = 0 →
      Effect s (.ret f) { s with
        box := Function.update s.box f { s.box f with current := none }
        completed := Function.update s.completed k true }
  | back (f : F) (k : ℕ) : (s.box f).current = some k → s.waits (.fiber f) = none →
      s.inline f ≠ 0 →
      Effect s (.ret f) { s with inline := Function.update s.inline f (s.inline f - 1) }

theorem step_effect {a : NetAct F X} (h : s.step a = some t) : s.Effect a t := by
  cases a with
  | work c =>
      simp only [step, Option.ite_none_right_eq_some, Option.some.injEq] at h
      obtain ⟨hruns, rfl⟩ := h
      exact .work c hruns
  | send c g =>
      simp only [step, Mailbox.step, Option.map_some, Option.ite_none_right_eq_some] at h
      obtain ⟨hruns, h⟩ := h
      split at h
      · rename_i hc
        subst hc
        cases h
        exact .inline g hruns
      · rename_i hc
        cases h
        exact .send c g hruns hc
  | enqueue c g =>
      simp only [step, Mailbox.step, Option.map_some, Option.ite_none_right_eq_some,
        Option.some.injEq] at h
      obtain ⟨hruns, rfl⟩ := h
      exact .enqueue c g hruns
  | wake c =>
      simp only [step] at h
      split at h
      · rename_i k hk
        simp only [Option.ite_none_right_eq_some, Option.some.injEq] at h
        obtain ⟨hdone, rfl⟩ := h
        exact .wake c k hk hdone
      · cases h
  | take g =>
      simp only [step, Mailbox.step, Option.map_eq_some_iff] at h
      obtain ⟨b, hb, rfl⟩ := h
      split at hb
      · rename_i k rest hcurrent hpending
        cases hb
        exact .take g k rest hcurrent hpending
      · cases hb
  | ret f =>
      simp only [step] at h
      split at h
      · rename_i k hcurrent
        simp only [Option.ite_none_right_eq_some] at h
        obtain ⟨hwaits, h⟩ := h
        split at h
        · rename_i hinline
          simp only [Mailbox.step, hcurrent, Option.isSome_some, if_true, Option.map_some,
            Option.some.injEq] at h
          subst h
          exact .finish f k hcurrent hwaits hinline
        · rename_i hinline
          cases h
          exact .back f k hcurrent hwaits hinline
      · cases h

theorem Effect.holds {a : NetAct F X} (h : s.Effect a t) {g : F} {k : ℕ} (hk : s.Holds g k) :
    t.Holds g k ∨ t.completed k = true := by
  have hadded : ∀ {g' k'}, t.box = Function.update s.box g'
      { s.box g' with pending := (s.box g').pending ++ [k'] } → t.Holds g k := by
    intro g' k' hbox
    rw [Holds, hbox]
    by_cases hg : g = g'
    · subst hg
      simp only [Function.update_self]
      exact hk.imp_left (List.mem_append_left _)
    · simp only [Function.update_of_ne hg]
      exact hk
  cases h with
  | work | inline | wake | back => exact .inl hk
  | send c g' | enqueue c g' => exact .inl (hadded rfl)
  | take g' k' rest hcurrent hpending =>
      left
      by_cases hg : g = g'
      · subst hg
        simp only [Holds, Function.update_self]
        rcases hk with hm | hc
        · rw [hpending] at hm
          rcases List.mem_cons.mp hm with rfl | hm
          · exact .inr rfl
          · exact .inl hm
        · cases hcurrent.symm.trans hc
      · simp only [Holds, Function.update_of_ne hg]
        exact hk
  | finish f k' hcurrent =>
      by_cases hg : g = f
      · subst hg
        rcases hk with hm | hc
        · left
          simp only [Holds, Function.update_self]
          exact .inl hm
        · right
          cases hcurrent.symm.trans hc
          exact Function.update_self ..
      · left
        simp only [Holds, Function.update_of_ne hg]
        exact hk

theorem Effect.completed {a : NetAct F X} (h : s.Effect a t) {k : ℕ}
    (hk : s.completed k = true) : t.completed k = true := by
  cases h with
  | finish f k' =>
      by_cases hkk : k = k'
      · subst hkk
        exact Function.update_self ..
      · exact (Function.update_of_ne hkk ..).trans hk
  | _ => exact hk

theorem Effect.waits {a : NetAct F X} (h : s.Effect a t) {c : Caller F X} {k : ℕ}
    (hk : t.waits c = some k) : s.waits c = some k ∨
      ∃ g, a = .send c g ∧ c ≠ .fiber g ∧ t.Holds g k := by
  cases h with
  | send c' g _ hne =>
      by_cases hc : c = c'
      · subst hc
        simp only [Function.update_self, Option.some.injEq] at hk
        subst hk
        refine .inr ⟨g, rfl, hne, .inl ?_⟩
        simp only [Function.update_self]
        exact List.mem_append_right _ (List.mem_singleton_self _)
      · exact .inl ((Function.update_of_ne hc ..).symm.trans hk)
  | wake c' =>
      by_cases hc : c = c'
      · subst hc
        simp only [Function.update_self] at hk
        cases hk
      · exact .inl ((Function.update_of_ne hc ..).symm.trans hk)
  | work | inline | enqueue | take | finish | back => exact .inl hk

/-- Who waits goes on waiting until it wakes, which it does when the task is completed. -/
theorem Effect.keeps_waiting {a : NetAct F X} (h : s.Effect a t) {c : Caller F X} {k : ℕ}
    (hk : s.waits c = some k) :
    t.waits c = some k ∨ a = .wake c ∧ s.completed k = true ∧ t.waits c = none := by
  cases h with
  | send c' g hruns =>
      refine .inl ((Function.update_of_ne ?_ ..).trans hk)
      rintro rfl
      simp [runs, hk] at hruns
  | wake c' k' hk' hdone =>
      by_cases hc : c = c'
      · subst hc
        cases hk.symm.trans hk'
        exact .inr ⟨rfl, hdone, Function.update_self ..⟩
      · exact .inl ((Function.update_of_ne hc ..).trans hk)
  | work | inline | enqueue | take | finish | back => exact .inl hk

theorem Effect.created {a : NetAct F X} (h : s.Effect a t) {k : ℕ} (hk : k < t.created) :
    k < s.created ∨ ∃ g, t.Holds g k := by
  cases h with
  | send c g | enqueue c g =>
      rcases Nat.lt_succ_iff_lt_or_eq.mp hk with hlt | rfl
      · exact .inl hlt
      · refine .inr ⟨g, .inl ?_⟩
        simp only [Function.update_self]
        exact List.mem_append_right _ (List.mem_singleton_self _)
  | _ => exact .inl hk

/-- A delegate on the thread of `f` calls `Send` of `f` or of a fiber that `f` may wait for. -/
def Follows (calls : F → F → Prop) : NetAct F X → Prop
  | .send (.fiber f) g => f = g ∨ calls f g
  | .send (.outside _) _ | .work _ | .enqueue _ _ | .wake _ | .take _ | .ret _ => True

instance (calls : F → F → Prop) [DecidableRel calls] :
    DecidablePred (Follows calls : NetAct F X → Prop)
  | .send (.fiber f) g => inferInstanceAs (Decidable (f = g ∨ calls f g))
  | .send (.outside _) _ | .work _ | .enqueue _ _ | .wake _ | .take _ | .ret _ => isTrue trivial

structure Tickets (calls : F → F → Prop) (s : Net F X) : Prop where
  waiting : ∀ c k, s.waits c = some k →
    s.completed k = true ∨ ∃ g, (∀ f, c = .fiber f → calls f g) ∧ s.Holds g k
  placed : ∀ k < s.created, s.completed k = true ∨ ∃ g, s.Holds g k

variable {calls : F → F → Prop}

theorem Tickets.step (hi : Tickets calls s) {a : NetAct F X} (ha : Follows calls a)
    (he : s.Effect a t) : Tickets calls t := by
  constructor
  · intro c k hk
    rcases he.waits hk with hold | ⟨g, rfl, hne, hholds⟩
    · rcases hi.waiting c k hold with hdone | ⟨g, hcalls, hholds⟩
      · exact .inl (he.completed hdone)
      · rcases he.holds hholds with hholds | hdone
        · exact .inr ⟨g, hcalls, hholds⟩
        · exact .inl hdone
    · refine .inr ⟨g, ?_, hholds⟩
      rintro f rfl
      exact ha.resolve_left fun h => hne (by rw [h])
  · intro k hk
    rcases he.created hk with hold | ⟨g, hholds⟩
    · rcases hi.placed k hold with hdone | ⟨g, hholds⟩
      · exact .inl (he.completed hdone)
      · exact (he.holds hholds).symm.imp_right fun h => ⟨g, h⟩
    · exact .inr ⟨g, hholds⟩

theorem tickets_reachable
    (hr : (machine : Machine (Net F X) _).ReachableUnder (fun _ a => Follows calls a) s) :
    Tickets calls s := by
  refine hr.invariant ⟨fun _ _ h => ?_, fun _ h => ?_⟩ fun s a t _ hi ha h =>
    hi.step ha (step_effect h)
  · cases h
  · cases h

theorem Effect.current {a : NetAct F X} (h : s.Effect a t) {f : F} {c : ℕ}
    (hc : (s.box f).current = some c) : (t.box f).current = some c ∨
      (a = .ret f ∧ s.inline f = 0) ∧ (t.box f).current = none ∧ t.completed c = true := by
  cases h with
  | work | inline | wake | back => exact .inl hc
  | send c' g | enqueue c' g =>
      left
      by_cases hf : f = g
      · subst hf
        simp only [Function.update_self]
        exact hc
      · simp only [Function.update_of_ne hf]
        exact hc
  | take g k rest hcurrent =>
      left
      have hf : f ≠ g := by
        rintro rfl
        cases hcurrent.symm.trans hc
      simp only [Function.update_of_ne hf]
      exact hc
  | finish g k hcurrent _ hinline =>
      by_cases hf : f = g
      · subst hf
        right
        cases hcurrent.symm.trans hc
        simp only [Function.update_self, hinline, and_self]
      · left
        simp only [Function.update_of_ne hf]
        exact hc

theorem Effect.pending {a : NetAct F X} (h : s.Effect a t) {f : F} {n k : ℕ}
    (hk : (s.box f).pending[n]? = some k) :
    (t.box f).pending[n]? = some k ∧
        ((s.box f).current = none → a ≠ .take f ∧ (t.box f).current = none) ∨
      a = .take f ∧ (s.box f).current = none ∧
        (n = 0 ∧ (t.box f).current = some k ∨ ∃ m, n = m + 1 ∧ (t.box f).pending[m]? = some k) := by
  cases h with
  | work | inline | wake | back => exact .inl ⟨hk, fun h => ⟨nofun, h⟩⟩
  | send c g | enqueue c g =>
      left
      by_cases hf : f = g
      · subst hf
        simp only [Function.update_self]
        refine ⟨?_, fun h => ⟨nofun, h⟩⟩
        rw [List.getElem?_append_left (List.getElem?_eq_some_iff.mp hk).1]
        exact hk
      · simp only [Function.update_of_ne hf]
        exact ⟨hk, fun h => ⟨nofun, h⟩⟩
  | take g k' rest hcurrent hpending =>
      by_cases hf : f = g
      · subst hf
        right
        refine ⟨rfl, hcurrent, ?_⟩
        rw [hpending] at hk
        simp only [Function.update_self]
        cases n with
        | zero => exact .inl ⟨rfl, hk⟩
        | succ m => exact .inr ⟨m, rfl, hk⟩
      · left
        simp only [Function.update_of_ne hf]
        refine ⟨hk, fun h => ⟨?_, h⟩⟩
        intro ha
        cases ha
        exact hf rfl
  | finish g k' hcurrent =>
      left
      by_cases hf : f = g
      · subst hf
        simp only [Function.update_self]
        exact ⟨hk, fun _ => ⟨nofun, trivial⟩⟩
      · simp only [Function.update_of_ne hf]
        exact ⟨hk, fun h => ⟨nofun, h⟩⟩

section Runs
variable {r : (machine : Machine (Net F X) _).Run s} {f : F}

/-- A delegate ends, or it waits for ever in a call of `Send`. -/
def DelegatesEnd (r : (machine : Machine (Net F X) _).Run s) (f : F) : Prop :=
  ∀ i, ((r.state i).box f).current.isSome = true → ∃ j, i ≤ j ∧
    (r.act j = .ret f ∧ (r.state j).inline f = 0 ∨
      ∀ l, j ≤ l → (r.state l).waits (.fiber f) ≠ none)

/-- Whatever the fiber is given it executes. -/
def Serves (r : (machine : Machine (Net F X) _).Run s) (g : F) : Prop :=
  ∀ k, r.LeadsTo (fun s => s.Holds g k) fun s => s.completed k = true

theorem wakes {c : Caller F X} (hwake : r.Fair (· = .wake c)) (k : ℕ) :
    r.LeadsTo (fun s => s.waits c = some k ∧ s.completed k = true) fun s => s.waits c = none := by
  apply hwake.leadsTo
  · rintro s a t ⟨hwaits, hdone⟩ h
    have he := step_effect h
    rcases he.keeps_waiting hwaits with hsame | ⟨-, -, hnone⟩
    · exact .inl ⟨hsame, he.completed hdone⟩
    · exact .inr hnone
  · rintro s ⟨hwaits, hdone⟩
    refine ⟨.wake c, { s with waits := Function.update s.waits c none }, rfl, ?_⟩
    simp only [machine, step, hwaits, hdone, if_true]
  · rintro s a t ⟨hwaits, -⟩ rfl h
    have he : s.Effect (.wake c) t := step_effect h
    cases he
    exact Function.update_self ..

/-- A wait that leads to a fiber that serves ends. -/
theorem wait_ends {c : Caller F X} (htickets : ∀ i, Tickets calls (r.state i))
    (hwake : r.Fair (· = .wake c))
    (hserves : ∀ g, (∀ f, c = .fiber f → calls f g) → Serves r g) {i k : ℕ}
    (hk : (r.state i).waits c = some k) : ∃ j, i ≤ j ∧ (r.state j).waits c = none := by
  have hdone : ∃ j, i ≤ j ∧ (r.state j).completed k = true := by
    rcases (htickets i).waiting c k hk with hdone | ⟨g, hcalls, hholds⟩
    · exact ⟨i, Nat.le_refl i, hdone⟩
    · exact hserves g hcalls k i hholds
  obtain ⟨j, hij, hdone⟩ := hdone
  by_cases hstill : (r.state j).waits c = some k
  · obtain ⟨l, hjl, hnone⟩ := wakes hwake k j ⟨hstill, hdone⟩
    exact ⟨l, hij.trans hjl, hnone⟩
  · obtain ⟨l, hil, hl, hnot⟩ := r.exists_last (P := fun s => s.waits c = some k) hij hk hstill
    refine ⟨l + 1, by omega, ?_⟩
    exact (((step_effect (r.step l)).keeps_waiting hl).resolve_left hnot).2.2

/-- A delegate whose calls of `Send` return comes to its end. -/
theorem delegate_ends (htickets : ∀ i, Tickets calls (r.state i))
    (hwake : r.Fair (· = .wake (.fiber f))) (hserves : ∀ g, calls f g → Serves r g)
    (hends : DelegatesEnd r f) {i : ℕ} (hi : ((r.state i).box f).current.isSome = true) :
    ∃ j, i ≤ j ∧ ((r.state j).box f).current = none := by
  obtain ⟨j, hij, ⟨hret, hinline⟩ | hwaits⟩ := hends i hi
  · refine ⟨j + 1, by omega, ?_⟩
    have he := step_effect (r.step j)
    generalize r.state (j + 1) = t at he
    rw [hret] at he
    cases he with
    | finish f k hcurrent => simp only [Function.update_self]
    | back f k _ _ hne => exact (hne hinline).elim
  · obtain ⟨k, hk⟩ := Option.ne_none_iff_exists'.mp (hwaits j (Nat.le_refl j))
    have hgoes : ∀ g, (∀ f', (.fiber f : Caller F X) = .fiber f' → calls f' g) → Serves r g :=
      fun g h => hserves g (h f rfl)
    obtain ⟨l, hjl, hnone⟩ := wait_ends htickets hwake hgoes hk
    exact (hwaits l hjl hnone).elim

theorem pending_moves (htake : r.Fair (· = .take f)) (n k : ℕ) :
    r.LeadsTo (fun s => (s.box f).pending[n]? = some k ∧ (s.box f).current = none)
      fun s => n = 0 ∧ (s.box f).current = some k ∨
        ∃ m, n = m + 1 ∧ (s.box f).pending[m]? = some k := by
  apply htake.leadsTo
  · rintro s a t ⟨hs, hnone⟩ h
    rcases (step_effect h).pending hs with ⟨hsame, hkeeps⟩ | ⟨-, -, hmoved⟩
    · exact .inl ⟨hsame, (hkeeps hnone).2⟩
    · exact .inr hmoved
  · rintro s ⟨hs, hnone⟩
    cases hp : (s.box f).pending with
    | nil =>
        rw [hp] at hs
        cases hs
    | cons k' rest =>
        refine ⟨.take f, { s with box := Function.update s.box f ⟨rest, some k'⟩ }, rfl, ?_⟩
        simp only [machine, step, Mailbox.step, hp, hnone, Option.map_some]
  · rintro s a t ⟨hs, hnone⟩ rfl h
    have he : s.Effect (.take f) t := step_effect h
    rcases he.pending hs with ⟨-, hkeeps⟩ | ⟨-, -, hmoved⟩
    · exact ((hkeeps hnone).1 rfl).elim
    · exact hmoved

variable (hidle : ∀ i, ((r.state i).box f).current.isSome = true →
  ∃ j, i ≤ j ∧ ((r.state j).box f).current = none)

include hidle

theorem exists_finish {c : ℕ} {P : Net F X → Prop}
    (hstays : ∀ {s a t}, P s → (s.box f).current = some c → s.Effect a t → P t) {i : ℕ}
    (hP : P (r.state i)) (hc : ((r.state i).box f).current = some c) :
    ∃ j, i ≤ j ∧ P (r.state j) ∧ ((r.state j).box f).current = none ∧
      (r.state j).completed c = true := by
  obtain ⟨j, hij, hnone⟩ := hidle i (by simp [hc])
  have hnot : ¬ (P (r.state j) ∧ ((r.state j).box f).current = some c) := by
    rintro ⟨-, hsome⟩
    cases hnone.symm.trans hsome
  obtain ⟨l, hil, ⟨hl, hcl⟩, hnext⟩ := r.exists_last
    (P := fun s => P s ∧ (s.box f).current = some c) hij ⟨hP, hc⟩ hnot
  have he := step_effect (r.step l)
  have hP' := hstays hl hcl he
  rcases he.current hcl with hsame | ⟨-, hnone, hdone⟩
  · exact (hnext ⟨hP', hsame⟩).elim
  · exact ⟨l + 1, by omega, hP', hnone, hdone⟩

theorem current_completed (k : ℕ) :
    r.LeadsTo (fun s => (s.box f).current = some k) fun s => s.completed k = true := by
  intro i hi
  obtain ⟨j, hij, -, -, hdone⟩ := exists_finish hidle (P := fun _ => True)
    (fun h _ _ => h) trivial hi
  exact ⟨j, hij, hdone⟩

theorem pending_idle (n k : ℕ) :
    r.LeadsTo (fun s => (s.box f).pending[n]? = some k)
      fun s => (s.box f).pending[n]? = some k ∧ (s.box f).current = none := by
  intro i hi
  cases hc : ((r.state i).box f).current with
  | none => exact ⟨i, Nat.le_refl i, hi, hc⟩
  | some c =>
      have hstays : ∀ {s t : Net F X} {a}, (s.box f).pending[n]? = some k →
          (s.box f).current = some c → s.Effect a t → (t.box f).pending[n]? = some k := by
        intro s t a hs hcurrent he
        rcases he.pending hs with ⟨hsame, -⟩ | ⟨-, hnone, -⟩
        · exact hsame
        · cases hnone.symm.trans hcurrent
      obtain ⟨j, hij, hj, hnone, -⟩ := exists_finish hidle hstays hi hc
      exact ⟨j, hij, hj, hnone⟩

theorem pending_completed (htake : r.Fair (· = .take f)) (n k : ℕ) :
    r.LeadsTo (fun s => (s.box f).pending[n]? = some k) fun s => s.completed k = true := by
  induction n with
  | zero =>
      refine ((pending_idle hidle 0 k).trans (pending_moves htake 0 k)).trans fun i hi => ?_
      rcases hi with ⟨-, hcurrent⟩ | ⟨m, hm, -⟩
      · exact current_completed hidle k i hcurrent
      · cases hm
  | succ n ih =>
      refine ((pending_idle hidle (n + 1) k).trans (pending_moves htake (n + 1) k)).trans
        fun i hi => ?_
      rcases hi with ⟨hn, -⟩ | ⟨m, hm, hpending⟩
      · cases hn
      · cases hm
        exact ih i hpending

theorem serves_of_idle (htake : r.Fair (· = .take f)) : Serves r f := by
  intro k i hi
  rcases hi with hm | hcurrent
  · obtain ⟨n, hn⟩ := List.mem_iff_getElem?.mp hm
    exact pending_completed hidle htake n k i hn
  · exact current_completed hidle k i hcurrent

end Runs

/-- The fibers may wait for each other along a relation that leads nowhere for ever. In every run
in which each fiber comes to its work items and each delegate ends unless it waits for ever,
every work item is executed and every call of `Send` returns. -/
theorem send_returns (hcalls : WellFounded fun g f => calls f g)
    (hr : (machine : Machine (Net F X) _).ReachableUnder (fun _ a => Follows calls a) s)
    (r : machine.Run s) (hfollows : ∀ i, Follows calls (r.act i))
    (htake : ∀ g, r.Fair (· = .take g)) (hwake : ∀ c, r.Fair (· = .wake c))
    (hends : ∀ f, DelegatesEnd r f) (i : ℕ) :
    (∀ k < (r.state i).created, ∃ j, i ≤ j ∧ (r.state j).completed k = true) ∧
      ∀ c k, (r.state i).waits c = some k → ∃ j, i ≤ j ∧ (r.state j).waits c = none := by
  have htickets : ∀ i, Tickets calls (r.state i) := fun i =>
    tickets_reachable (r.reachableUnder hr hfollows i)
  have hserves : ∀ f, Serves r f := by
    intro f
    induction f using hcalls.induction with
    | _ f ih =>
        refine serves_of_idle (fun i hi => ?_) (htake f)
        exact delegate_ends htickets (hwake (.fiber f)) ih (hends f) hi
  constructor
  · intro k hk
    rcases (htickets i).placed k hk with hdone | ⟨g, hholds⟩
    · exact ⟨i, Nat.le_refl i, hdone⟩
    · exact hserves g k i hholds
  · intro c k hk
    exact wait_ends htickets (hwake c) (fun g _ => hserves g) hk

theorem delegatesEnd_of_idle {r : (machine : Machine (Net F X) _).Run s} {f : F} {n : ℕ}
    (h : ∀ i, n ≤ i → ((r.state i).box f).current = none) : DelegatesEnd r f := by
  intro i hi
  obtain ⟨c, hc⟩ := Option.isSome_iff_exists.mp hi
  have hnot : ((r.state (i + n)).box f).current ≠ some c := by
    rw [h _ (Nat.le_add_left _ _)]
    exact nofun
  obtain ⟨l, hil, hl, hnext⟩ := r.exists_last (P := fun s => (s.box f).current = some c)
    (Nat.le_add_right i n) hc hnot
  exact ⟨l, hil, .inl (((step_effect (r.step l)).current hl).resolve_left hnext).1⟩

/-- A thread sends to one fiber, which sends to the other. -/
theorem send_returns_two :
    ∃ (s : Net Bool Unit) (r : machine.Run s), s.waits (.outside ()) = some 0 ∧
      s.waits (.fiber false) = some 1 ∧ ∃ j, (r.state j).waits (.fiber false) = none := by
  let before : List (NetAct Bool Unit) :=
    [.send (.outside ()) false, .take false, .send (.fiber false) true]
  let after : List (NetAct Bool Unit) :=
    [.take true, .ret true, .wake (.fiber false), .ret false, .wake (.outside ())]
  have hrun : (machine.run before (machine : Machine (Net Bool Unit) _).init).any (fun s =>
      decide (s.waits (.outside ()) = some 0 ∧ s.waits (.fiber false) = some 1) &&
        (machine.run after s).any fun t => decide ((∀ f, t.box f = {}) ∧
          (∀ f, t.waits (.fiber f) = none) ∧ t.waits (.outside ()) = none)) = true := by
    decide
  obtain ⟨s, hs, h⟩ := (Option.any_eq_true _ _).mp hrun
  obtain ⟨hstart, h⟩ := Bool.and_eq_true_iff.mp h
  obtain ⟨houtside, hfiber⟩ := of_decide_eq_true hstart
  obtain ⟨t, ht, h⟩ := (Option.any_eq_true _ _).mp h
  obtain ⟨hbox, hwaits, hfree⟩ := of_decide_eq_true h
  have hcalls : WellFounded fun g f : Bool => f = false ∧ g = true := by
    refine Subrelation.wf ?_ (measure fun f : Bool => (!f).toNat).wf
    rintro g f ⟨rfl, rfl⟩
    exact Nat.zero_lt_one
  have hr : machine.ReachableUnder (fun _ a => Follows (fun f g => f = false ∧ g = true) a) s :=
    Machine.run_reachableUnder before .init (by decide) hs
  have hwork : machine.step t (.work (.outside ())) = some t := by
    simp [machine, step, runs, hfree]
  obtain ⟨r, hstate, -, hacts⟩ := Machine.exists_run after ht hwork
  have hnone : ∀ c, t.waits c = none := by
    intro c
    cases c with
    | fiber f => exact hwaits f
    | outside x => exact hfree
  have hfollows : ∀ i, Follows (fun f g => f = false ∧ g = true) (r.act i) := by
    intro i
    have hmem : r.act i ∈ NetAct.work (.outside ()) :: after := List.mem_cons.mpr (hacts i).symm
    have hall : ∀ a ∈ NetAct.work (.outside ()) :: after,
        Follows (fun f g => f = false ∧ g = true) a := by decide
    exact hall _ hmem
  have htake : ∀ g, r.Fair (· = .take g) := by
    intro g
    refine Machine.Run.fair_of_disabled hstate ?_
    rintro a rfl
    simp [machine, step, Mailbox.step, hbox]
  have hwake : ∀ c, r.Fair (· = .wake c) := by
    intro c
    refine Machine.Run.fair_of_disabled hstate ?_
    rintro a rfl
    simp [machine, step, hnone]
  have hends : ∀ f, DelegatesEnd r f := by
    intro f
    refine delegatesEnd_of_idle (n := after.length) fun i hi => ?_
    rw [hstate i hi, hbox]
  have hreturns := (send_returns hcalls hr r hfollows htake hwake hends 0).2 (.fiber false) 1
  obtain ⟨j, -, hj⟩ := hreturns (by rw [r.start]; exact hfiber)
  exact ⟨s, r, houtside, hfiber, j, hj⟩

/-- A box after a step. -/
inductive BoxEffect (s t : Net F X) (a : NetAct F X) (g : F) : Prop
  | same : t.box g = s.box g → BoxEffect s t a g
  | adds : a.target = some g → t.created = s.created + 1 →
      t.box g = { s.box g with pending := (s.box g).pending ++ [s.created] } → BoxEffect s t a g
  | takes (k : ℕ) : a = .take g → (s.box g).current = none →
      (s.box g).pending = k :: (t.box g).pending → (t.box g).current = some k → BoxEffect s t a g
  | finishes (k : ℕ) : a = .ret g → (s.box g).current = some k →
      t.box g = { s.box g with current := none } → BoxEffect s t a g

theorem Effect.box {a : NetAct F X} (h : s.Effect a t) (g : F) : BoxEffect s t a g := by
  cases h with
  | work | inline | wake | back => exact .same rfl
  | send c g' | enqueue c g' =>
      by_cases hg : g = g'
      · subst hg
        exact .adds rfl rfl (Function.update_self ..)
      · exact .same (Function.update_of_ne hg ..)
  | take g' k rest hcurrent hpending =>
      by_cases hg : g = g'
      · subst hg
        refine .takes k rfl hcurrent ?_ ?_
        · simp only [Function.update_self]
          exact hpending
        · simp only [Function.update_self]
      · exact .same (Function.update_of_ne hg ..)
  | finish f k hcurrent =>
      by_cases hg : g = f
      · subst hg
        exact .finishes k rfl hcurrent (Function.update_self ..)
      · exact .same (Function.update_of_ne hg ..)

/-- The boxes of the net are mailboxes, as the fibers are. -/
theorem refines_mailbox (g : F) :
    (machine : Machine (Net F X) _).Refines Mailbox.machine (fun s => s.box g) where
  init := rfl
  step := by
    intro s a t h
    cases (step_effect h).box g with
    | same hsame => exact .inl hsame
    | adds _ _ hbox =>
        refine .inr ⟨.add s.created, ?_⟩
        simp only [Mailbox.machine, Mailbox.step, hbox]
    | takes k _ hnone hpending hcurrent =>
        refine .inr ⟨.take, ?_⟩
        simp only [Mailbox.machine, Mailbox.step, hnone, hpending]
        rw [← hcurrent]
    | finishes k _ hcurrent hbox =>
        refine .inr ⟨.finish, ?_⟩
        simp only [Mailbox.machine, Mailbox.step, hcurrent, hbox, Option.isSome_some, if_true]

theorem Effect.created_le {a : NetAct F X} (h : s.Effect a t) : s.created ≤ t.created := by
  cases h with
  | send | enqueue => exact Nat.le_succ _
  | _ => exact Nat.le_refl _

theorem Effect.completes {a : NetAct F X} (h : s.Effect a t) {k : ℕ}
    (hk : t.completed k = true) : s.completed k = true ∨
      ∃ f, a = .ret f ∧ (s.box f).current = some k ∧
        t.box f = { s.box f with current := none } := by
  cases h with
  | finish f k' hcurrent =>
      by_cases hkk : k = k'
      · subst hkk
        exact .inr ⟨f, rfl, hcurrent, Function.update_self ..⟩
      · exact .inl ((Function.update_of_ne hkk ..).symm.trans hk)
  | _ => exact .inl hk

theorem Effect.held {a : NetAct F X} (h : s.Effect a t) {g : F} {k : ℕ} (hk : t.Holds g k) :
    s.Holds g k ∨ k = s.created ∧ t.created = s.created + 1 ∧ a.target = some g := by
  cases h.box g with
  | same hsame =>
      rw [Holds, hsame] at hk
      exact .inl hk
  | adds ha hcreated hbox =>
      rw [Holds, hbox] at hk
      rcases hk with hm | hc
      · rcases List.mem_append.mp hm with hm | hm
        · exact .inl (.inl hm)
        · exact .inr ⟨List.mem_singleton.mp hm, hcreated, ha⟩
      · exact .inl (.inr hc)
  | takes k' _ _ hpending hcurrent =>
      left
      rw [Holds, hcurrent] at hk
      left
      rw [hpending]
      rcases hk with hm | hc
      · exact List.mem_cons_of_mem _ hm
      · cases hc
        exact List.mem_cons_self ..
  | finishes k' _ _ hbox =>
      rw [Holds, hbox] at hk
      exact .inl (.inl (hk.resolve_right nofun))

/-- A work item is in one place, once, and its task is not completed while it is there; a
thread of a fiber waits inside a delegate. -/
structure Single (s : Net F X) : Prop where
  inside : ∀ f k, s.waits (.fiber f) = some k → (s.box f).current.isSome = true
  nodup : ∀ g, ((s.box g).current.toList ++ (s.box g).pending).Nodup
  apart : ∀ g g' k, s.Holds g k → s.Holds g' k → g = g'
  made : ∀ g k, s.Holds g k → k < s.created
  done : ∀ k, s.completed k = true → k < s.created
  uncompleted : ∀ g k, s.Holds g k → s.completed k = false

theorem Single.step (hi : s.Single) {a : NetAct F X} (he : s.Effect a t) : t.Single := by
  constructor
  · intro f k hk
    have hcurrent : (s.box f).current.isSome = true := by
      rcases he.waits hk with hold | ⟨g, rfl, hne, -⟩
      · exact hi.inside f k hold
      · cases he with
        | inline => exact (hne rfl).elim
        | send c g hruns => exact (Bool.and_eq_true_iff.mp hruns).2
    obtain ⟨c, hc⟩ := Option.isSome_iff_exists.mp hcurrent
    rcases he.current hc with hsame | ⟨⟨rfl, -⟩, -⟩
    · simp [hsame]
    · cases he with
      | finish f k' _ hnone | back f k' _ hnone => cases hnone.symm.trans hk
  · intro g
    have hold := hi.nodup g
    cases he.box g with
    | same hsame =>
        rw [hsame]
        exact hold
    | adds _ _ hbox =>
        rw [hbox, ← List.append_assoc]
        refine hold.append (List.nodup_singleton _) ?_
        intro k hm hnew
        cases List.mem_singleton.mp hnew
        refine Nat.lt_irrefl _ (hi.made g s.created ?_)
        rcases List.mem_append.mp hm with hm | hm
        · exact .inr (Option.mem_toList.mp hm)
        · exact .inl hm
    | takes k _ hnone hpending hcurrent =>
        rw [hnone, hpending] at hold
        rw [hcurrent]
        exact hold
    | finishes k _ hcurrent hbox =>
        rw [hbox]
        exact hold.of_append_right
  · intro g g' k hk hk'
    rcases he.held hk with hold | ⟨rfl, -, ha⟩
    · rcases he.held hk' with hold' | ⟨rfl, -, -⟩
      · exact hi.apart g g' k hold hold'
      · exact (Nat.lt_irrefl _ (hi.made g _ hold)).elim
    · rcases he.held hk' with hold' | ⟨-, -, ha'⟩
      · exact (Nat.lt_irrefl _ (hi.made g' _ hold')).elim
      · exact Option.some.inj (ha.symm.trans ha')
  · intro g k hk
    rcases he.held hk with hold | ⟨rfl, hcreated, -⟩
    · exact (hi.made g k hold).trans_le he.created_le
    · omega
  · intro k hk
    rcases he.completes hk with hold | ⟨f, -, hcurrent, -⟩
    · exact (hi.done k hold).trans_le he.created_le
    · exact (hi.made f k (.inr hcurrent)).trans_le he.created_le
  · intro g k hk
    rw [Bool.eq_false_iff]
    intro hdone
    rcases he.held hk with hold | ⟨rfl, -, -⟩
    · rcases he.completes hdone with hdone | ⟨f, -, hcurrent, hbox⟩
      · cases (hi.uncompleted g k hold).symm.trans hdone
      · cases hi.apart g f k hold (.inr hcurrent)
        have hnodup := hi.nodup g
        rw [hcurrent] at hnodup
        rw [Holds, hbox] at hk
        exact (List.nodup_cons.mp hnodup).1 (hk.resolve_right nofun)
    · rcases he.completes hdone with hdone | ⟨f, -, hcurrent, -⟩
      · exact Nat.lt_irrefl _ (hi.done _ hdone)
      · exact Nat.lt_irrefl _ (hi.made f _ (.inr hcurrent))

theorem single_reachable (hr : (machine : Machine (Net F X) _).Reachable s) : s.Single := by
  refine hr.invariant ?_ fun s a t _ hi h => hi.step (step_effect h)
  exact ⟨(fun _ _ h => by cases h), (fun _ => .nil),
    (fun _ _ _ h => by rcases h with h | h <;> cases h),
    (fun _ _ h => by rcases h with h | h <;> cases h), (fun _ h => by cases h),
    (fun _ _ h => by rcases h with h | h <;> cases h)⟩

/-- The delegates of some fibers all wait, each for a work item in the queue of one of them. -/
def Circle (s : Net F X) (C : Set F) : Prop :=
  ∀ f ∈ C, ∃ g ∈ C, ∃ k, s.waits (.fiber f) = some k ∧ k ∈ (s.box g).pending

/-- Fibers that wait in a circle wait for ever, and nothing in their queues is ever begun. -/
theorem circle_forever (hr : (machine : Machine (Net F X) _).Reachable s) {C : Set F}
    (hC : s.Circle C) (h : machine.Leads (fun _ => True) s t) :
    (∀ f ∈ C, t.waits (.fiber f) ≠ none ∧ t.waits (.fiber f) = s.waits (.fiber f)) ∧
      ∀ g ∈ C, ∀ k ∈ (s.box g).pending, k ∈ (t.box g).pending ∧ t.completed k = false := by
  have hkept : machine.Reachable t ∧
      (∀ f ∈ C, t.waits (.fiber f) = s.waits (.fiber f)) ∧
        ∀ g ∈ C, ∀ k ∈ (s.box g).pending, k ∈ (t.box g).pending := by
    apply h.invariant (I := fun t => machine.Reachable t ∧
      (∀ f ∈ C, t.waits (.fiber f) = s.waits (.fiber f)) ∧
        ∀ g ∈ C, ∀ k ∈ (s.box g).pending, k ∈ (t.box g).pending)
      ⟨hr, fun _ _ => rfl, fun _ _ _ h => h⟩
    rintro u a v ⟨hru, hwu, hpu⟩ - hstep
    have he := step_effect hstep
    have hu := single_reachable hru
    refine ⟨hru.next hstep, fun f hf => ?_, fun g hg k hk => ?_⟩
    · obtain ⟨g, hg, k, hk, hm⟩ := hC f hf
      rcases he.keeps_waiting ((hwu f hf).trans hk) with hsame | ⟨-, hdone, -⟩
      · exact hsame.trans hk.symm
      · cases (hu.uncompleted g k (.inl (hpu g hg k hm))).symm.trans hdone
    · have hmu := hpu g hg k hk
      cases he.box g with
      | same hsame => exact hsame ▸ hmu
      | adds _ _ hbox =>
          rw [hbox]
          exact List.mem_append_left _ hmu
      | takes k' _ hnone =>
          -- a fiber whose delegate waits does not come to its next work item
          obtain ⟨-, -, l, hl, -⟩ := hC g hg
          have hinside := hu.inside g l ((hwu g hg).trans hl)
          rw [hnone] at hinside
          cases hinside
      | finishes k' _ _ hbox =>
          rw [hbox]
          exact hmu
  obtain ⟨hrt, hwaits, hpending⟩ := hkept
  constructor
  · intro f hf
    obtain ⟨-, -, k, hk, -⟩ := hC f hf
    refine ⟨?_, hwaits f hf⟩
    rw [hwaits f hf, hk]
    exact nofun
  · intro g hg k hk
    have hstill := hpending g hg k hk
    exact ⟨hstill, (single_reachable hrt).uncompleted g k (.inl hstill)⟩

/-- Two fibers send to each other. -/
theorem circle_forever_two :
    ∃ s : Net Bool Unit, ∀ t, machine.Leads (fun _ => True) s t →
      t.waits (.fiber false) ≠ none ∧ t.waits (.fiber true) ≠ none := by
  obtain ⟨s, hr, h0, h1, hf, ht⟩ := machine.exists_of_run
    (p := fun s : Net Bool Unit => s.waits (.fiber false) = some 2 ∧
      s.waits (.fiber true) = some 3 ∧ 2 ∈ (s.box true).pending ∧ 3 ∈ (s.box false).pending)
    [.enqueue (.outside ()) false, .enqueue (.outside ()) true, .take false, .take true,
      .send (.fiber false) true, .send (.fiber true) false] (by decide)
  have hC : s.Circle Set.univ := by
    intro f _
    cases f with
    | false => exact ⟨true, trivial, 2, h0, hf⟩
    | true => exact ⟨false, trivial, 3, h1, ht⟩
  refine ⟨s, fun t hlead => ?_⟩
  have hwaits := (circle_forever hr hC hlead).1
  exact ⟨(hwaits false trivial).1, (hwaits true trivial).1⟩

end Net
end ComposableAsync.Concurrent
