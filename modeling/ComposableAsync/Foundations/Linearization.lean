import ComposableAsync.Foundations.Machine
import Mathlib.Data.List.Nodup

/-!
# Linearizable objects

A sequential object takes one operation after another. Used by many threads at once it
leaves a history of calls and returns. The history is linearizable if the operations that
have returned, and some of those that have not, can be put in an order that keeps real
time and in which the sequential object gives the answers that were returned.

The rule: whenever a machine adds an operation that has been called to the order, where
the state moves on as the object says, and every return gives an answer of the order so
far, every history of the machine is linearizable.
-/
namespace ComposableAsync.Foundations

/-- The answer of an operation in a state, and the state after it. -/
abbrev SequentialObject (σ Op Res : Type*) := Op → σ → Res × σ

/-- A call of an operation and its return, by the identity of the call. -/
inductive HistoryEvent (ι Op Res : Type*) where
  | call (i : ι) (op : Op)
  | ret (i : ι) (res : Res)
  deriving DecidableEq, Repr

namespace SequentialObject
variable {σ ι Op Res : Type*} (obj : SequentialObject σ Op Res)

/-- What the operations answer, one after another. -/
def answers : List (ι × Op) → σ → List (ι × Res)
  | [], _ => []
  | (i, op) :: order, s => (i, (obj op s).1) :: answers order (obj op s).2

/-- The state after the operations. -/
def final : List (ι × Op) → σ → σ
  | [], s => s
  | (_, op) :: order, s => final order (obj op s).2

theorem final_concat (order : List (ι × Op)) (i : ι) (op : Op) (s : σ) :
    obj.final (order ++ [(i, op)]) s = (obj op (obj.final order s)).2 := by
  induction order generalizing s with
  | nil => rfl
  | cons x order ih => exact ih (obj x.2 s).2

theorem answers_concat (order : List (ι × Op)) (i : ι) (op : Op) (s : σ) :
    obj.answers (order ++ [(i, op)]) s =
      obj.answers order s ++ [(i, (obj op (obj.final order s)).1)] := by
  induction order generalizing s with
  | nil => rfl
  | cons x order ih => exact congrArg (List.cons _) (ih (obj x.2 s).2)

theorem mem_of_answers {order : List (ι × Op)} {i : ι} {res : Res} {s : σ}
    (h : (i, res) ∈ obj.answers order s) : i ∈ order.map Prod.fst := by
  induction order generalizing s with
  | nil => cases h
  | cons x order ih =>
      rw [List.map_cons, List.mem_cons]
      rcases List.mem_cons.mp h with hx | h
      · exact .inl (congrArg Prod.fst hx)
      · exact .inr (ih h)

end SequentialObject

open SequentialObject

variable {σ ι Op Res : Type*}

/-- A concurrent execution of the object: its state, the history, and the order in which
the operations took effect. -/
structure Execution (σ ι Op Res : Type*) where
  state : σ
  history : List (HistoryEvent ι Op Res) := []
  order : List (ι × Op) := []

namespace Execution

/-- The operations of the execution, in the order they took effect. -/
def operations (x : Execution σ ι Op Res) : List ι := x.order.map Prod.fst

/-- The order is a linearization of the history, and the state is the one it ends in. -/
structure Linearizes (obj : SequentialObject σ Op Res) (init : σ) (x : Execution σ ι Op Res) :
    Prop where
  once : x.operations.Nodup
  called : ∀ i op, (i, op) ∈ x.order → .call i op ∈ x.history
  answered : ∀ i res, .ret i res ∈ x.history → (i, res) ∈ obj.answers x.order init
  realTime : ∀ i res j op, [.ret i res, .call j op].Sublist x.history → j ∈ x.operations →
    [i, j].Sublist x.operations
  final : x.state = obj.final x.order init

/-- The history grows by a call, an operation takes effect, or a call returns what the
operation answered. -/
inductive Extends (obj : SequentialObject σ Op Res) (init : σ) (x : Execution σ ι Op Res) :
    Execution σ ι Op Res → Prop
  | call (i : ι) (op : Op) : (∀ op', .call i op' ∉ x.history) →
      Extends obj init x { x with history := x.history ++ [.call i op] }
  | commit (i : ι) (op : Op) : .call i op ∈ x.history → i ∉ x.operations →
      Extends obj init x { x with state := (obj op x.state).2, order := x.order ++ [(i, op)] }
  | ret (i : ι) (res : Res) : (i, res) ∈ obj.answers x.order init →
      Extends obj init x { x with history := x.history ++ [.ret i res] }

/-- The operation is called. -/
def called (x : Execution σ ι Op Res) (i : ι) (op : Op) : Execution σ ι Op Res :=
  { x with history := x.history ++ [.call i op] }

/-- The operation takes effect. -/
def committed (obj : SequentialObject σ Op Res) (x : Execution σ ι Op Res) (i : ι) (op : Op) :
    Execution σ ι Op Res :=
  { x with state := (obj op x.state).2, order := x.order ++ [(i, op)] }

/-- The call returns, if it has an answer. -/
def returned (x : Execution σ ι Op Res) (i : ι) : Option Res → Execution σ ι Op Res
  | some res => { x with history := x.history ++ [.ret i res] }
  | none => x

variable {obj : SequentialObject σ Op Res} {init : σ} {x y : Execution σ ι Op Res}

theorem Linearizes.start : (⟨init, [], []⟩ : Execution σ ι Op Res).Linearizes obj init where
  once := .nil
  called _ _ h := by cases h
  answered _ _ h := by cases h
  realTime _ _ _ _ h := by cases h
  final := rfl

theorem sublist_concat {α : Type*} {a b c : α} {history : List α}
    (h : [a, b].Sublist (history ++ [c])) :
    [a, b].Sublist history ∨ a ∈ history ∧ b = c := by
  obtain ⟨front, back, hsplit, hfront, hback⟩ := List.sublist_append_iff.mp h
  rcases List.sublist_singleton.mp hback with rfl | rfl
  · rw [List.append_nil] at hsplit
    exact .inl (hsplit ▸ hfront)
  · rw [show [a, b] = [a] ++ [b] from rfl] at hsplit
    obtain ⟨rfl, hb⟩ := List.append_inj' hsplit rfl
    exact .inr ⟨hfront.subset List.mem_cons_self, List.head_eq_of_cons_eq hb⟩

theorem Linearizes.extends (h : x.Linearizes obj init) (hx : x.Extends obj init y) :
    y.Linearizes obj init := by
  have hreturned : ∀ i res, .ret i res ∈ x.history → i ∈ x.operations :=
    fun i res hm => obj.mem_of_answers (h.answered i res hm)
  cases hx with
  | call i op hnew =>
      refine ⟨h.once, ?_, ?_, ?_, h.final⟩
      · intro j op' hm
        exact List.mem_append_left _ (h.called j op' hm)
      · intro j res hm
        rcases List.mem_append.mp hm with hm | hm
        · exact h.answered j res hm
        · simp at hm
      · intro j res k op' hsub hk
        rcases sublist_concat hsub with hsub | ⟨-, hcall⟩
        · exact h.realTime j res k op' hsub hk
        · -- the operation of a call just made has not taken effect
          cases hcall
          obtain ⟨⟨_, op''⟩, hm, rfl⟩ := List.mem_map.mp hk
          exact (hnew op'' (h.called _ op'' hm)).elim
  | commit i op hcall hnew =>
      have hoperations : (x.order ++ [(i, op)]).map Prod.fst = x.operations ++ [i] :=
        List.map_append
      refine ⟨?_, ?_, ?_, ?_, ?_⟩
      · rw [operations, hoperations]
        exact h.once.append (List.nodup_singleton i) (by simpa using hnew)
      · intro j op' hm
        rcases List.mem_append.mp hm with hm | hm
        · exact h.called j op' hm
        · cases List.mem_singleton.mp hm
          exact hcall
      · intro j res hm
        rw [answers_concat]
        exact List.mem_append_left _ (h.answered j res hm)
      · intro j res k op' hsub hk
        rw [operations, hoperations] at hk ⊢
        rcases List.mem_append.mp hk with hk | hk
        · exact (h.realTime j res k op' hsub hk).trans (List.sublist_append_left ..)
        · -- whoever returned before the call has taken effect before
          rw [List.mem_singleton] at hk
          subst hk
          have hj : j ∈ x.operations := hreturned j res (hsub.subset List.mem_cons_self)
          exact (List.singleton_sublist.mpr hj).append (List.Sublist.refl [k])
      · rw [final_concat, ← h.final]
  | ret i res hanswer =>
      refine ⟨h.once, ?_, ?_, ?_, h.final⟩
      · intro j op hm
        exact List.mem_append_left _ (h.called j op hm)
      · intro j res' hm
        rcases List.mem_append.mp hm with hm | hm
        · exact h.answered j res' hm
        · cases List.mem_singleton.mp hm
          exact hanswer
      · intro j res' k op hsub hk
        rcases sublist_concat hsub with hsub | ⟨-, hret⟩
        · exact h.realTime j res' k op hsub hk
        · cases hret

end Execution

end ComposableAsync.Foundations
