import ComposableAsync.Foundations.Machine
import ComposableAsync.Foundations.PartialChain
import Mathlib.Data.List.Perm.Subperm
import Mathlib.Data.List.Range

/-!
# The node list of the two MPSC queues

`BlockingMpscQueue` and `SpinningMpscQueue` keep the same list: nodes with a
`volatile` next link, a head that producers exchange and a tail that only the
consumer moves. The operations below are their shared field accesses. A
reference is the index of a node in the heap; reference 0 is the empty node both
constructors allocate, whose value is the `null` of the item type.

`Mpsc` is the list under any interleaving of writers and one reader, with
nothing of how either queue waits. Its invariant gives the order of delivery.
-/
namespace ComposableAsync.Concurrent
open Foundations

/-- `Node<T>`: the value is fixed, the link is stored once. -/
structure Node (T : Type) where
  value : T
  next : Option ℕ

structure NodeList (T : Type) where
  nodes : ℕ → Node T
  allocated : ℕ
  head : ℕ
  tail : ℕ

namespace NodeList
variable {T : Type}

/-- The constructors: head and tail are one empty node. -/
def empty [Inhabited T] : NodeList T := ⟨fun _ => ⟨default, none⟩, 1, 0, 0⟩

variable (l : NodeList T)

def value (r : ℕ) : T := (l.nodes r).value

def link (r : ℕ) : Option ℕ := (l.nodes r).next

/-- `new Node<T>(item)`; the new reference is `l.allocated`. -/
def create (item : T) : NodeList T :=
  { l with nodes := Function.update l.nodes l.allocated ⟨item, none⟩, allocated := l.allocated + 1 }

/-- `Interlocked.Exchange(ref _Head, newItem)`; the previous head is `l.head`. -/
def exchange (newItem : ℕ) : NodeList T := { l with head := newItem }

/-- `prev.Next = newItem`. -/
def store (prev newItem : ℕ) : NodeList T :=
  { l with nodes := Function.update l.nodes prev { l.nodes prev with next := some newItem } }

/-- `_Tail.Next`. -/
def tailNext : Option ℕ := l.link l.tail

/-- `_Tail = _Tail.Next`. -/
def advance (next : ℕ) : NodeList T := { l with tail := next }

/-- `GetUnsafeQueue`, run to its end in one state; `none` if the links do not
end within the allocated nodes. -/
def getUnsafeQueue : Option (List T) := (walk l.link l.allocated l.tailNext).map (List.map l.value)

variable {l}

theorem value_create {item : T} {r : ℕ} (h : r < l.allocated) :
    (l.create item).value r = l.value r := by
  simp [value, create, Function.update_of_ne (Nat.ne_of_lt h)]

theorem link_create {item : T} {r : ℕ} (h : r < l.allocated) :
    (l.create item).link r = l.link r := by
  simp [link, create, Function.update_of_ne (Nat.ne_of_lt h)]

@[simp] theorem link_create_new {item : T} : (l.create item).link l.allocated = none := by
  simp [link, create]

@[simp] theorem value_store {prev newItem : ℕ} : (l.store prev newItem).value = l.value := by
  funext r
  by_cases h : r = prev
  · simp [value, store, h]
  · simp [value, store, Function.update_of_ne h]

@[simp] theorem link_store {prev newItem : ℕ} :
    (l.store prev newItem).link = Function.update l.link prev (some newItem) := by
  funext r
  by_cases h : r = prev
  · simp [link, store, h]
  · simp [link, store, Function.update_of_ne h]

theorem tailNext_store {prev newItem : ℕ} :
    (l.store prev newItem).tailNext = Function.update l.link prev (some newItem) l.tail := by
  rw [tailNext, link_store]
  rfl

@[simp] theorem value_exchange {n : ℕ} : (l.exchange n).value = l.value := rfl
@[simp] theorem link_exchange {n : ℕ} : (l.exchange n).link = l.link := rfl
@[simp] theorem value_advance {n : ℕ} : (l.advance n).value = l.value := rfl
@[simp] theorem link_advance {n : ℕ} : (l.advance n).link = l.link := rfl

end NodeList

/-- What a writer holds: nothing, its own node, or its node and the previous
head to which the link is still to be stored. -/
inductive Writer where
  | idle
  | created (newItem : ℕ)
  | exchanged (newItem prev : ℕ)
  deriving DecidableEq, Repr

/-- `order` is the list of nodes by their Exchange steps, `handing` the value
taken from the list but not handed to `onItem` yet. -/
structure Mpsc (P T : Type) where
  list : NodeList T
  writers : P → Writer
  order : List ℕ
  handing : Option T
  delivered : List T

inductive MpscAct (P T : Type) where
  | create (p : P) (item : T)
  | exchange (p : P)
  | store (p : P)
  | advance
  | hand

namespace Mpsc
variable {P T : Type}

def init [Inhabited T] : Mpsc P T := ⟨.empty, fun _ => .idle, [], none, []⟩

/-- The values in the order of their Exchange steps. -/
def exchanged (s : Mpsc P T) : List T := s.order.map s.list.value

/-- Some writer owes the link from `a` to `b`. -/
def Owed (writers : P → Writer) (a b : ℕ) : Prop := ∃ p, writers p = .exchanged b a

variable [DecidableEq P]

def step (s : Mpsc P T) : MpscAct P T → Option (Mpsc P T)
  | .create p item =>
      match s.writers p with
      | .idle => some { s with
          list := s.list.create item
          writers := Function.update s.writers p (.created s.list.allocated) }
      | _ => none
  | .exchange p =>
      match s.writers p with
      | .created n => some { s with
          list := s.list.exchange n
          writers := Function.update s.writers p (.exchanged n s.list.head)
          order := s.order ++ [n] }
      | _ => none
  | .store p =>
      match s.writers p with
      | .exchanged n prev => some { s with
          list := s.list.store prev n
          writers := Function.update s.writers p .idle }
      | _ => none
  | .advance =>
      match s.handing, s.list.tailNext with
      | none, some n => some { s with list := s.list.advance n, handing := some (s.list.value n) }
      | _, _ => none
  | .hand =>
      match s.handing with
      | some item => some { s with handing := none, delivered := s.delivered ++ [item] }
      | none => none

/-- The shared list as a machine. -/
def machine [Inhabited T] : Machine (Mpsc P T) (MpscAct P T) := ⟨init, step⟩

omit [DecidableEq P] in
/-- The list is a partial chain from the empty node; the tail stands at the
boundary between what was taken and what was not; nodes not exchanged yet are
outside the chain. -/
structure Inv (s : Mpsc P T) : Prop where
  chain : PartialChain s.list.link (Owed s.writers) (0 :: s.order)
  bound : ∀ r ∈ 0 :: s.order, r < s.list.allocated
  head : ∃ front, 0 :: s.order = front ++ [s.list.head]
  tail : ∃ front back, 0 :: s.order = front ++ s.list.tail :: back ∧
    s.delivered ++ s.handing.toList = (front ++ [s.list.tail]).tail.map s.list.value
  fresh : ∀ p n, s.writers p = .created n →
    n ∉ 0 :: s.order ∧ n < s.list.allocated ∧ s.list.link n = none
  distinct : ∀ p q n, s.writers p = .created n → s.writers q = .created n → p = q

end Mpsc
end ComposableAsync.Concurrent
