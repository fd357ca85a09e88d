import ComposableAsync.Concurrent.QueueNode

/-!
# Delivery follows the Exchange order

One lemma for each of the five shared steps shows that it keeps `Mpsc.Inv`.
Two facts follow in every reachable state. What was delivered is a prefix of
what was exchanged; and once no writer owes a link and nothing is in hand, the
rest is exactly what `GetUnsafeQueue` enumerates.
-/
namespace ComposableAsync.Concurrent.Mpsc
open Foundations

variable {P T : Type} {s t : Mpsc P T}

theorem Inv.tailNext (hi : s.Inv) {n : ℕ} (hn : s.list.tailNext = some n) :
    ∃ front back, 0 :: s.order = front ++ s.list.tail :: n :: back ∧
      s.delivered ++ s.handing.toList = (front ++ [s.list.tail]).tail.map s.list.value := by
  obtain ⟨front, back, hs, hd⟩ := hi.tail
  obtain ⟨back', rfl⟩ := hi.chain.successor hs hn
  exact ⟨front, back', hs, hd⟩

theorem tail_append {front : List ℕ} {a : ℕ} {back : List ℕ} :
    (front ++ a :: back).tail = (front ++ [a]).tail ++ back := by
  cases front <;> simp

/-- What was taken and what follows the tail are together what was exchanged. -/
theorem Inv.taken_append (hi : s.Inv) :
    ∃ front back, 0 :: s.order = front ++ s.list.tail :: back ∧
      s.exchanged = s.delivered ++ s.handing.toList ++ back.map s.list.value := by
  obtain ⟨front, back, hs, hd⟩ := hi.tail
  refine ⟨front, back, hs, ?_⟩
  have htail : s.order = (front ++ [s.list.tail]).tail ++ back := by
    rw [← tail_append, ← hs, List.tail_cons]
  rw [hd, exchanged]
  conv_lhs => rw [htail]
  exact List.map_append

theorem Inv.length_le (hi : s.Inv) : (0 :: s.order).length ≤ s.list.allocated := by
  have hsub : 0 :: s.order ⊆ List.range s.list.allocated := fun r hr =>
    List.mem_range.mpr (hi.bound r hr)
  simpa using (List.subperm_of_subset hi.chain.nodup hsub).length_le

theorem Inv.init [Inhabited T] : (Mpsc.init : Mpsc P T).Inv := by
  refine ⟨.singleton rfl ?_, ?_, ⟨[], rfl⟩, ⟨[], [], rfl, rfl⟩, (fun _ _ h => by cases h),
    fun _ _ _ h => by cases h⟩
  · rintro a b ⟨p, hp⟩
    cases hp
  · intro r hr
    simp only [Mpsc.init, List.mem_singleton] at hr
    subst hr
    exact Nat.one_pos

variable [DecidableEq P]

theorem owed_update {w : Writer} {p : P} {writers : P → Writer} {a b : ℕ}
    (hp : ∀ n prev, writers p ≠ .exchanged n prev) (hw : ∀ n prev, w ≠ .exchanged n prev) :
    Owed (Function.update writers p w) a b ↔ Owed writers a b := by
  constructor
  · rintro ⟨q, hq⟩
    rcases update_apply_eq.mp hq with ⟨-, hq⟩ | ⟨-, hq⟩
    · exact (hw _ _ hq).elim
    · exact ⟨q, hq⟩
  · rintro ⟨q, hq⟩
    exact ⟨q, update_apply_eq.mpr (.inr ⟨fun h => hp _ _ (h ▸ hq), hq⟩)⟩

theorem owed_exchange {p : P} {writers : P → Writer} {n a b : ℕ} (head : ℕ)
    (hp : writers p = .created n) :
    Owed (Function.update writers p (.exchanged n head)) a b ↔
      Owed writers a b ∨ a = head ∧ b = n := by
  constructor
  · rintro ⟨q, hq⟩
    rcases update_apply_eq.mp hq with ⟨-, hq⟩ | ⟨-, hq⟩
    · cases hq
      exact .inr ⟨rfl, rfl⟩
    · exact .inl ⟨q, hq⟩
  · rintro (⟨q, hq⟩ | ⟨rfl, rfl⟩)
    · refine ⟨q, update_apply_eq.mpr (.inr ⟨?_, hq⟩)⟩
      rintro rfl
      cases hp.symm.trans hq
    · exact ⟨p, Function.update_self ..⟩

theorem Inv.create (hi : s.Inv) {p : P} {item : T} (hp : s.writers p = .idle)
    (ht : s.step (.create p item) = some t) : t.Inv := by
  simp only [step, hp, Option.some.injEq] at ht
  subst ht
  refine ⟨hi.chain.congr (fun r hr => NodeList.link_create (hi.bound r hr)) fun a b => ?_,
    fun r hr => (hi.bound r hr).trans (Nat.lt_succ_self _), hi.head, ?_, ?_, ?_⟩
  · exact owed_update (by simp [hp]) (by simp)
  · obtain ⟨front, back, hs, hd⟩ := hi.tail
    refine ⟨front, back, hs, hd.trans (List.map_congr_left fun r hr => ?_)⟩
    refine (NodeList.value_create (hi.bound r ?_)).symm
    rw [hs, show front ++ s.list.tail :: back = (front ++ [s.list.tail]) ++ back by simp]
    exact List.mem_append_left _ (List.mem_of_mem_tail hr)
  · intro q n hq
    rcases update_apply_eq.mp hq with ⟨-, hq⟩ | ⟨-, hq⟩
    · cases hq
      exact ⟨fun hm => Nat.lt_irrefl _ (hi.bound _ hm), Nat.lt_succ_self _,
        NodeList.link_create_new⟩
    · obtain ⟨hnot, hlt, hlink⟩ := hi.fresh q n hq
      exact ⟨hnot, hlt.trans (Nat.lt_succ_self _), (NodeList.link_create hlt).trans hlink⟩
  · -- the new reference is none of those created before
    have hnew : ∀ q n, s.writers q = .created n → Writer.created s.list.allocated ≠ .created n := by
      intro q n hq hn
      cases hn
      exact Nat.lt_irrefl _ (hi.fresh q _ hq).2.1
    intro q r n hq hr
    rcases update_apply_eq.mp hq with ⟨hqp, hq⟩ | ⟨-, hq⟩ <;>
    rcases update_apply_eq.mp hr with ⟨hrp, hr⟩ | ⟨-, hr⟩
    · rw [hqp, hrp]
    · exact (hnew r n hr hq).elim
    · exact (hnew q n hq hr).elim
    · exact hi.distinct q r n hq hr

theorem Inv.exchange (hi : s.Inv) {p : P} {n : ℕ} (hp : s.writers p = .created n)
    (ht : s.step (.exchange p) = some t) : t.Inv := by
  simp only [step, hp, Option.some.injEq] at ht
  subst ht
  obtain ⟨hnot, hlt, hlink⟩ := hi.fresh p n hp
  obtain ⟨front, hfront⟩ := hi.head
  have horder : 0 :: (s.order ++ [n]) = front ++ [s.list.head] ++ [n] := by
    rw [← List.cons_append, hfront]
  refine ⟨?_, ?_, ⟨_, horder⟩, ?_, ?_, ?_⟩
  · have hpush := (hfront ▸ hi.chain).push (hfront ▸ hnot) hlink fun _ _ =>
      owed_exchange s.list.head hp
    rw [horder]
    exact hpush
  · intro r hr
    rw [horder, ← hfront] at hr
    rcases List.mem_append.mp hr with hr | hr
    · exact hi.bound r hr
    · rw [List.mem_singleton.mp hr]
      exact hlt
  · obtain ⟨l, back, hs, hd⟩ := hi.tail
    refine ⟨l, back ++ [n], ?_, hd⟩
    rw [← List.cons_append, hs]
    simp [NodeList.exchange]
  · intro q m hq
    rcases update_apply_eq.mp hq with ⟨-, hq⟩ | ⟨hqp, hq⟩
    · cases hq
    · obtain ⟨hnot', hlt', hlink'⟩ := hi.fresh q m hq
      refine ⟨?_, hlt', hlink'⟩
      rw [horder, ← hfront]
      intro hm
      rcases List.mem_append.mp hm with hm | hm
      · exact hnot' hm
      · rw [List.mem_singleton] at hm
        exact hqp (hi.distinct q p m hq (hm ▸ hp))
  · intro q r m hq hr
    rcases update_apply_eq.mp hq with ⟨-, hq⟩ | ⟨-, hq⟩
    · cases hq
    rcases update_apply_eq.mp hr with ⟨-, hr⟩ | ⟨-, hr⟩
    · cases hr
    exact hi.distinct q r m hq hr

theorem Inv.store (hi : s.Inv) {p : P} {n prev : ℕ} (hp : s.writers p = .exchanged n prev)
    (ht : s.step (.store p) = some t) : t.Inv := by
  simp only [step, hp, Option.some.injEq] at ht
  subst ht
  have hprev : prev ∈ 0 :: s.order := by
    obtain ⟨l, r, hs⟩ := hi.chain.follows ⟨p, hp⟩
    simp [hs]
  have hcreated : ∀ q m, Function.update s.writers p Writer.idle q = .created m →
      s.writers q = .created m := by
    intro q m hq
    rcases update_apply_eq.mp hq with ⟨-, hq⟩ | ⟨-, hq⟩
    · cases hq
    · exact hq
  refine ⟨?_, hi.bound, hi.head, ?_, ?_, ?_⟩
  · rw [NodeList.link_store]
    refine hi.chain.store ⟨p, hp⟩ ?_ ?_
    · rintro a b ⟨q, hq⟩
      by_cases h : q = p
      · rw [h, hp] at hq
        cases hq
        exact .inr ⟨rfl, rfl⟩
      · exact .inl ⟨q, update_apply_eq.mpr (.inr ⟨h, hq⟩)⟩
    · rintro a b ⟨q, hq⟩
      rcases update_apply_eq.mp hq with ⟨-, hq⟩ | ⟨-, hq⟩
      · cases hq
      · exact ⟨q, hq⟩
  · rw [NodeList.value_store]
    exact hi.tail
  · intro q m hq
    obtain ⟨hnot, hlt, hlink⟩ := hi.fresh q m (hcreated q m hq)
    refine ⟨hnot, hlt, ?_⟩
    have hne : m ≠ prev := fun h => hnot (h ▸ hprev)
    rw [NodeList.link_store, Function.update_of_ne hne]
    exact hlink
  · intro q r m hq hr
    exact hi.distinct q r m (hcreated q m hq) (hcreated r m hr)

theorem Inv.advance (hi : s.Inv) (ht : s.step .advance = some t) : t.Inv := by
  simp only [step] at ht
  split at ht
  · rename_i n hh hn
    cases ht
    obtain ⟨front, back, hs, hd⟩ := hi.tailNext hn
    refine ⟨hi.chain, hi.bound, hi.head, ⟨front ++ [s.list.tail], back, by simp [hs,
      NodeList.advance], ?_⟩, hi.fresh, hi.distinct⟩
    rw [hh, Option.toList_none, List.append_nil] at hd
    have htail : (front ++ [s.list.tail] ++ [n]).tail = (front ++ [s.list.tail]).tail ++ [n] := by
      rw [List.append_assoc]
      exact tail_append
    change s.delivered ++ [s.list.value n] = (front ++ [s.list.tail] ++ [n]).tail.map s.list.value
    rw [htail, List.map_append, hd]
    rfl
  · cases ht

theorem Inv.hand (hi : s.Inv) (ht : s.step .hand = some t) : t.Inv := by
  simp only [step] at ht
  split at ht
  · rename_i item hh
    cases ht
    obtain ⟨front, back, hs, hd⟩ := hi.tail
    refine ⟨hi.chain, hi.bound, hi.head, ⟨front, back, hs, ?_⟩, hi.fresh, hi.distinct⟩
    rw [hh] at hd
    simpa using hd
  · cases ht

theorem Inv.step (hi : s.Inv) {a : MpscAct P T} (ht : s.step a = some t) : t.Inv := by
  cases a with
  | create p item =>
      cases hp : s.writers p with
      | idle => exact hi.create hp ht
      | created _ | exchanged _ _ => simp [Mpsc.step, hp] at ht
  | exchange p =>
      cases hp : s.writers p with
      | created n => exact hi.exchange hp ht
      | idle | exchanged _ _ => simp [Mpsc.step, hp] at ht
  | store p =>
      cases hp : s.writers p with
      | exchanged n prev => exact hi.store hp ht
      | idle | created _ => simp [Mpsc.step, hp] at ht
  | advance => exact hi.advance ht
  | hand => exact hi.hand ht

theorem inv_reachable [Inhabited T] (hr : (machine : Machine (Mpsc P T) _).Reachable s) :
    s.Inv := hr.invariant Inv.init fun _ _ _ _ hi ht => hi.step ht

theorem Inv.exchanged_stays (hi : s.Inv) {a : MpscAct P T} (ht : s.step a = some t) :
    s.exchanged <+: t.exchanged := by
  cases a with
  | create p item =>
      simp only [Mpsc.step] at ht
      split at ht <;> cases ht
      have hsame : s.order.map s.list.value = s.order.map (s.list.create item).value := by
        refine List.map_congr_left fun r hr => (NodeList.value_create ?_).symm
        exact hi.bound r (List.mem_cons_of_mem 0 hr)
      exact ⟨[], (List.append_nil _).trans hsame⟩
  | exchange p =>
      simp only [Mpsc.step] at ht
      split at ht <;> cases ht
      exact (List.prefix_append s.order _).map s.list.value
  | store p =>
      simp only [Mpsc.step] at ht
      split at ht <;> cases ht
      have hsame : ∀ {prev n : ℕ}, s.order.map s.list.value =
          s.order.map (s.list.store prev n).value := by
        intro prev n
        rw [NodeList.value_store]
      exact ⟨[], (List.append_nil _).trans hsame⟩
  | advance | hand =>
      simp only [Mpsc.step] at ht
      split at ht <;> cases ht
      exact List.prefix_refl _

omit [DecidableEq P]

theorem Inv.delivered_prefix (hi : s.Inv) : s.delivered <+: s.exchanged := by
  obtain ⟨front, back, -, he⟩ := hi.taken_append
  exact ⟨s.handing.toList ++ back.map s.list.value, by rw [he, List.append_assoc]⟩

theorem not_owed {writers : P → Writer} (hw : ∀ p n prev, writers p ≠ .exchanged n prev) :
    ∀ a b, ¬ Owed writers a b := by
  rintro a b ⟨p, hp⟩
  exact hw p b a hp

theorem Inv.all_delivered (hi : s.Inv) (hw : ∀ p n prev, s.writers p ≠ .exchanged n prev)
    (hh : s.handing = none) (hn : s.list.tailNext = none) :
    s.delivered = s.exchanged ∧ s.list.tail = s.list.head := by
  obtain ⟨front, back, hs, he⟩ := hi.taken_append
  have hnone := not_owed hw
  have hback : back = [] := by
    have hnext := hi.chain.next_eq_head? hnone hs
    rw [NodeList.tailNext] at hn
    rw [hn] at hnext
    exact List.head?_eq_none_iff.mp hnext.symm
  subst hback
  obtain ⟨front', hs'⟩ := hi.head
  have hlast := (List.append_inj' (hs.symm.trans hs') rfl).2
  refine ⟨?_, (List.cons.inj hlast).1⟩
  rw [he, hh]
  simp

/-- With no link owed the enumeration from the tail ends and gives the rest. -/
theorem Inv.getUnsafeQueue (hi : s.Inv) (hw : ∀ p n prev, s.writers p ≠ .exchanged n prev)
    (hh : s.handing = none) :
    ∃ rest, s.list.getUnsafeQueue = some rest ∧ s.delivered ++ rest = s.exchanged := by
  obtain ⟨front, back, hs, he⟩ := hi.taken_append
  have hnone := not_owed hw
  have hlen : back.length ≤ s.list.allocated := by
    have hle := hi.length_le
    have hlength := congrArg List.length hs
    simp only [List.length_append, List.length_cons] at hle hlength
    omega
  refine ⟨back.map s.list.value, ?_, ?_⟩
  · rw [NodeList.getUnsafeQueue, NodeList.tailNext, hi.chain.walk_eq hnone hs hlen]
    rfl
  · rw [he, hh]
    simp

end ComposableAsync.Concurrent.Mpsc
