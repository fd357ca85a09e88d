import Mathlib.Data.List.Nodup
import Mathlib.Logic.Function.Basic

/-!
# Singly linked chains with links still missing

Several writers append to one linked list: a writer first takes its place in the
order and stores the link from its predecessor later. In between the list is
broken, possibly in many places at once. `PartialChain` relates the links stored
so far to the order of the nodes: every stored link goes to the successor, and a
missing one is accounted for by a pending writer. The two writer actions keep
it, a reader that follows a stored link moves to the successor, and when nothing
is pending a walk from any node enumerates the rest of the order.
-/
namespace ComposableAsync.Foundations

variable {ι : Type*}

/-- `b` comes right after `a`. -/
def Follows (order : List ι) (a b : ι) : Prop :=
  ∃ front back, order = front ++ a :: b :: back

theorem Follows.append {order : List ι} {a b : ι} (h : Follows order a b) (more : List ι) :
    Follows (order ++ more) a b := by
  obtain ⟨front, back, rfl⟩ := h
  exact ⟨front, back ++ more, by simp⟩

theorem follows_last (front : List ι) (a b : ι) : Follows (front ++ [a] ++ [b]) a b :=
  ⟨front, [], by simp⟩

/-- Appending one node adds one pair, that of the old and the new last node. -/
theorem follows_append_singleton {front : List ι} {last b x y : ι}
    (h : Follows (front ++ [last] ++ [b]) x y) :
    Follows (front ++ [last]) x y ∨ x = last ∧ y = b := by
  obtain ⟨l, r, h⟩ := h
  obtain rfl | ⟨r, z, rfl⟩ := r.eq_nil_or_concat
  · right
    have h' : front ++ [last, b] = l ++ [x, y] := by simpa using h
    have := List.append_inj' h' rfl
    simpa [eq_comm] using this.2
  · left
    have h' : (front ++ [last]) ++ [b] = (l ++ x :: y :: r) ++ [z] := by simpa using h
    exact ⟨l, r, (List.append_inj' h' rfl).1⟩

/-- In a list without repetition a node splits it in one way. -/
theorem split_unique {order front front' back back' : List ι} {a : ι} (hn : order.Nodup)
    (h : order = front ++ a :: back) (h' : order = front' ++ a :: back') :
    front = front' ∧ back = back' := by
  subst h
  have ha : a ∉ front := fun hm => by
    have := (List.nodup_append.mp hn).2.2 a hm a (by simp)
    exact this rfl
  have ha' : a ∉ front' := fun hm => by
    rw [h'] at hn
    have := (List.nodup_append.mp hn).2.2 a hm a (by simp)
    exact this rfl
  induction front generalizing front' with
  | nil =>
      cases front' with
      | nil => exact ⟨rfl, (List.cons.inj h').2⟩
      | cons b front' => exact (ha' (by simp [(List.cons.inj h').1])).elim
  | cons b front ih =>
      cases front' with
      | nil => exact (ha (by simp [(List.cons.inj h').1])).elim
      | cons c front' =>
          obtain ⟨rfl, ht⟩ := List.cons.inj h'
          obtain ⟨rfl, rfl⟩ := ih (List.nodup_cons.mp hn).2 ht
            (fun hm => ha (by simp [hm])) (fun hm => ha' (by simp [hm]))
          exact ⟨rfl, rfl⟩

theorem Follows.unique {order : List ι} {a b c : ι} (hn : order.Nodup)
    (hb : Follows order a b) (hc : Follows order a c) : b = c := by
  obtain ⟨front, back, h⟩ := hb
  obtain ⟨front', back', h'⟩ := hc
  exact (List.cons.inj (split_unique hn h h').2).1

theorem Follows.ne_last {order front : List ι} {a b : ι} (hn : order.Nodup)
    (hb : Follows order a b) (h : order = front ++ [a]) : False := by
  obtain ⟨front', back, h'⟩ := hb
  exact List.cons_ne_nil _ _ (split_unique hn h' h).2

/-- The links stored so far, and who still owes the missing ones. -/
structure PartialChain (next : ι → Option ι) (pending : ι → ι → Prop) (order : List ι) :
    Prop where
  nodup : order.Nodup
  link : ∀ {a b}, Follows order a b → next a = some b ∨ next a = none ∧ pending a b
  last : ∀ {front a}, order = front ++ [a] → next a = none
  follows : ∀ {a b}, pending a b → Follows order a b

namespace PartialChain
variable {next next' : ι → Option ι} {pending pending' : ι → ι → Prop} {order : List ι}

theorem singleton {a : ι} (h : next a = none) (hp : ∀ x y, ¬ pending x y) :
    PartialChain next pending [a] := by
  refine ⟨List.nodup_singleton a, ?_, ?_, fun hxy => (hp _ _ hxy).elim⟩
  · rintro x y ⟨front, back, hs⟩
    have := congrArg List.length hs
    simp at this
    omega
  · intro front x hx
    have hx' : [] ++ [a] = front ++ [x] := hx
    have := (List.append_inj' hx' rfl).2
    simp only [List.cons.injEq, and_true] at this
    rwa [← this]

theorem congr (h : PartialChain next pending order) (hn : ∀ a ∈ order, next' a = next a)
    (hp : ∀ a b, pending' a b ↔ pending a b) : PartialChain next' pending' order := by
  refine ⟨h.nodup, ?_, ?_, fun hxy => h.follows ((hp _ _).mp hxy)⟩
  · intro a b hf
    rw [hn a (by obtain ⟨l, r, rfl⟩ := hf; simp), hp]
    exact h.link hf
  · intro front a hl
    rw [hn a (by simp [hl])]
    exact h.last hl

theorem push {front : List ι} {a b : ι} (h : PartialChain next pending (front ++ [a]))
    (hb : b ∉ front ++ [a]) (hnext : next b = none)
    (hp : ∀ x y, pending' x y ↔ pending x y ∨ x = a ∧ y = b) :
    PartialChain next pending' (front ++ [a] ++ [b]) := by
  refine ⟨?_, ?_, ?_, ?_⟩
  · refine List.nodup_append.mpr ⟨h.nodup, List.nodup_singleton b, ?_⟩
    intro x hx y hy hxy
    rw [List.mem_singleton] at hy
    exact hb (hy ▸ hxy ▸ hx)
  · intro x y hf
    rcases follows_append_singleton hf with hf | ⟨rfl, rfl⟩
    · exact (h.link hf).imp_right fun hl => ⟨hl.1, (hp x y).mpr (.inl hl.2)⟩
    · exact .inr ⟨h.last rfl, (hp x y).mpr (.inr ⟨rfl, rfl⟩)⟩
  · intro front' x hx
    have := (List.append_inj' hx rfl).2
    simp only [List.cons.injEq, and_true] at this
    rwa [← this]
  · intro x y hxy
    rcases (hp x y).mp hxy with hxy | ⟨rfl, rfl⟩
    · exact (h.follows hxy).append [b]
    · exact follows_last front x y

theorem store [DecidableEq ι] {a b : ι} (h : PartialChain next pending order)
    (hab : pending a b) (hp : ∀ x y, pending x y → pending' x y ∨ x = a ∧ y = b)
    (hp' : ∀ x y, pending' x y → pending x y) :
    PartialChain (Function.update next a (some b)) pending' order := by
  have hf := h.follows hab
  refine ⟨h.nodup, ?_, ?_, fun hxy => h.follows (hp' _ _ hxy)⟩
  · intro x y hxy
    by_cases hx : x = a
    · subst hx
      rw [hxy.unique h.nodup hf]
      exact .inl (Function.update_self ..)
    · rw [Function.update_of_ne hx]
      refine (h.link hxy).imp_right fun hl => ⟨hl.1, ?_⟩
      exact (hp x y hl.2).resolve_right fun hxa => hx hxa.1
  · intro front x hx
    have hne : x ≠ a := fun hxa => hf.ne_last h.nodup (hxa ▸ hx)
    rw [Function.update_of_ne hne]
    exact h.last hx

/-- A reader that finds a link has found the successor. -/
theorem successor (h : PartialChain next pending order) {front back : List ι} {a b : ι}
    (hs : order = front ++ a :: back) (hn : next a = some b) :
    ∃ back', back = b :: back' := by
  cases back with
  | nil =>
      rw [h.last hs] at hn
      cases hn
  | cons c back =>
      rcases h.link ⟨front, back, hs⟩ with hl | ⟨hl, -⟩
      · rw [hn, Option.some.injEq] at hl
        exact ⟨back, by rw [hl]⟩
      · rw [hn] at hl
        cases hl

theorem next_eq_head? (h : PartialChain next pending order) (hp : ∀ x y, ¬ pending x y)
    {front back : List ι} {a : ι} (hs : order = front ++ a :: back) :
    next a = back.head? := by
  cases back with
  | nil => exact h.last hs
  | cons c back => exact (h.link ⟨front, back, hs⟩).resolve_right fun hl => hp _ _ hl.2

end PartialChain

/-- Follow the links from a node, if the fuel lasts to a missing one. -/
def walk (next : ι → Option ι) : ℕ → Option ι → Option (List ι)
  | _, none => some []
  | 0, some _ => none
  | fuel + 1, some a => (walk next fuel (next a)).map (a :: ·)

/-- The walk over a chain with nothing pending visits every later node once, in
order, and ends. -/
theorem PartialChain.walk_eq {next : ι → Option ι} {pending : ι → ι → Prop} {order : List ι}
    (h : PartialChain next pending order) (hp : ∀ x y, ¬ pending x y) {fuel : ℕ}
    {front back : List ι} {a : ι} (hs : order = front ++ a :: back)
    (hfuel : back.length ≤ fuel) : walk next fuel (next a) = some back := by
  induction back generalizing front a fuel with
  | nil =>
      rw [h.next_eq_head? hp hs]
      cases fuel <;> rfl
  | cons b back ih =>
      rw [h.next_eq_head? hp hs]
      cases fuel with
      | zero => simp at hfuel
      | succ fuel =>
          have hs' : order = (front ++ [a]) ++ b :: back := by simpa using hs
          simp only [List.head?_cons, walk]
          rw [ih hs' (by simpa using hfuel)]
          rfl

end ComposableAsync.Foundations
