import Mathlib.Data.List.Nodup
import Mathlib.Logic.Function.Basic

namespace AsyncBerkeley.CircularLists

variable {P ι : Type}

/-- Following the pointers from a node visits the nodes of the list in order
and then comes to the end node. -/
def Segment (next : P → P) : P → List P → P → Prop
  | a, [], b => next a = b
  | a, x :: l, b => next a = x ∧ Segment next x l b

/-- A family of circular lists with no node in common: from each head, the
pointers visit the nodes of its list and come back to the head. -/
structure Rings (next : P → P) (head : ι → P) (contents : ι → List P) : Prop where
  closed : ∀ i, Segment next (head i) (contents i) (head i)
  nodup : ∀ i, (head i :: contents i).Nodup
  apart : ∀ i j p, p ∈ head i :: contents i → p ∈ head j :: contents j → i = j

abbrev last (head : ι → P) (contents : ι → List P) (i : ι) : P := (contents i).getLastD (head i)

variable {next next' : P → P} {a b c x p q : P} {l r : List P}

theorem segment_append :
    Segment next a (l ++ x :: r) b ↔ Segment next a l x ∧ Segment next x r b := by
  induction l generalizing a with
  | nil => rfl
  | cons y l ih => simp only [List.cons_append, Segment, ih, and_assoc]

theorem Segment.next_last (h : Segment next a l b) : next (l.getLastD a) = b := by
  induction l generalizing a with
  | nil => exact h
  | cons x l ih =>
    rw [List.getLastD_cons]
    exact ih h.2

theorem Segment.congr (h : Segment next a l b) (he : ∀ p ∈ a :: l, next' p = next p) :
    Segment next' a l b := by
  induction l generalizing a with
  | nil => exact (he a List.mem_cons_self).trans h
  | cons x l ih =>
    exact ⟨(he a List.mem_cons_self).trans h.1, ih h.2 fun p hp => he p (List.mem_cons_of_mem a hp)⟩

theorem getLastD_append_cons : (l ++ x :: r).getLastD a = r.getLastD x := by
  induction l generalizing a with
  | nil => exact List.getLastD_cons
  | cons y l ih =>
    rw [List.cons_append, List.getLastD_cons]
    exact ih

theorem getLastD_eq_iff (h : (a :: l).Nodup) : l.getLastD a = a ↔ l = [] := by
  cases l with
  | nil => simp
  | cons x l =>
    have ha : l.getLastD x ≠ a := fun he => (List.nodup_cons.mp h).1 (he ▸ List.getLastD_mem_cons)
    simp only [List.getLastD_cons, ha, reduceCtorEq]

variable {head : ι → P} {contents : ι → List P} {i j k : ι}

theorem Rings.empty (hh : Function.Injective head) (hn : ∀ i, next (head i) = head i) :
    Rings next head (fun _ => []) where
  closed := hn
  nodup := fun _ => List.nodup_singleton _
  apart := fun _ _ _ hi hj => hh ((List.mem_singleton.mp hi).symm.trans (List.mem_singleton.mp hj))

theorem last_mem (head : ι → P) (contents : ι → List P) (i : ι) :
    last head contents i ∈ head i :: contents i :=
  List.getLastD_mem_cons

theorem Rings.head_injective (h : Rings next head contents) : Function.Injective head :=
  fun i j he => h.apart i j (head i) List.mem_cons_self (he ▸ List.mem_cons_self)

theorem Rings.notMem (h : Rings next head contents) (hp : p ∈ head i :: contents i) (hk : k ≠ i) :
    p ∉ head k :: contents k := fun hm => hk (h.apart k i p hm hp)

theorem Rings.last_eq_head_iff (h : Rings next head contents) (i : ι) :
    last head contents i = head i ↔ contents i = [] := getLastD_eq_iff (h.nodup i)

variable [DecidableEq P]

theorem Segment.update (h : Segment next a l b) (hp : p ∉ a :: l) :
    Segment (Function.update next p q) a l b :=
  h.congr fun _ hm => Function.update_of_ne (ne_of_mem_of_not_mem hm hp) q next

theorem Segment.redirect (h : Segment next a l b) (hn : (a :: l).Nodup) :
    Segment (Function.update next (l.getLastD a) c) a l c := by
  induction l generalizing a with
  | nil => exact Function.update_self a c next
  | cons x l ih =>
    obtain ⟨ha, hn⟩ := List.nodup_cons.mp hn
    have hne : a ≠ l.getLastD x := fun he => ha (he ▸ List.getLastD_mem_cons)
    rw [List.getLastD_cons]
    exact ⟨(Function.update_of_ne hne c next).trans h.1, ih h.2 hn⟩

theorem Segment.unlink (h : Segment next a (x :: l) b) (ha : a ∉ x :: l) :
    Segment (Function.update next a (next x)) a l b := by
  cases l with
  | nil =>
    rw [Segment, Function.update_self]
    exact h.2
  | cons y l =>
    exact ⟨(Function.update_self a (next x) next).trans h.2.1,
      h.2.2.update (List.not_mem_of_not_mem_cons ha)⟩

variable [DecidableEq ι]

omit [DecidableEq P] in
theorem last_update_self : last head (Function.update contents i l) i = l.getLastD (head i) := by
  rw [last, Function.update_self]

omit [DecidableEq P] in
theorem last_update_of_ne (hk : k ≠ i) :
    last head (Function.update contents i l) k = last head contents k := by
  rw [last, Function.update_of_ne hk]

theorem Rings.snoc (h : Rings next head contents) (i : ι) (hx : ∀ k, x ∉ head k :: contents k) :
    Rings (Function.update (Function.update next x (head i)) (last head contents i) x) head
      (Function.update contents i (contents i ++ [x])) where
  closed := by
    intro k
    have hfresh : ∀ k, Segment (Function.update next x (head i)) (head k) (contents k) (head k) :=
      fun k => (h.closed k).update (hx k)
    by_cases hk : k = i
    · subst hk
      rw [Function.update_self, segment_append]
      refine ⟨(hfresh k).redirect (h.nodup k), ?_⟩
      have hne : x ≠ last head contents k := fun he => hx k (he ▸ last_mem head contents k)
      rw [Segment, Function.update_of_ne hne, Function.update_self]
    · rw [Function.update_of_ne hk]
      exact (hfresh k).update (h.notMem (last_mem head contents i) hk)
  nodup := by
    intro k
    by_cases hk : k = i
    · subst hk
      rw [Function.update_self, ← List.cons_append, ← List.concat_eq_append]
      exact (h.nodup k).concat (hx k)
    · rw [Function.update_of_ne hk]
      exact h.nodup k
  apart := by
    have hmem : ∀ k p, p ∈ head k :: Function.update contents i (contents i ++ [x]) k →
        p ∈ head k :: contents k ∨ (k = i ∧ p = x) := by
      intro k p hp
      by_cases hk : k = i
      · subst hk
        rw [Function.update_self, ← List.cons_append, List.mem_append, List.mem_singleton] at hp
        exact hp.imp_right fun he => ⟨rfl, he⟩
      · rw [Function.update_of_ne hk] at hp
        exact .inl hp
    intro k k' p hp hp'
    obtain hold | ⟨rfl, rfl⟩ := hmem k p hp
    · obtain hold' | ⟨rfl, rfl⟩ := hmem k' p hp'
      · exact h.apart k k' p hold hold'
      · exact absurd hold (hx k)
    · obtain hold' | ⟨rfl, -⟩ := hmem k' p hp'
      · exact absurd hold' (hx k')
      · rfl

theorem Rings.unlink (h : Rings next head contents) (hc : contents i = x :: l) :
    Rings (Function.update next (head i) (next x)) head (Function.update contents i l) where
  closed := by
    intro k
    by_cases hk : k = i
    · subst hk
      have hs := h.closed k
      have hn := h.nodup k
      rw [hc] at hs hn
      rw [Function.update_self]
      exact hs.unlink (List.nodup_cons.mp hn).1
    · rw [Function.update_of_ne hk]
      exact (h.closed k).update (h.notMem List.mem_cons_self hk)
  nodup := by
    intro k
    by_cases hk : k = i
    · subst hk
      have hn := h.nodup k
      rw [hc] at hn
      rw [Function.update_self]
      exact hn.sublist ((List.sublist_cons_self x l).cons_cons (head k))
    · rw [Function.update_of_ne hk]
      exact h.nodup k
  apart := by
    have hmem : ∀ k p, p ∈ head k :: Function.update contents i l k → p ∈ head k :: contents k := by
      intro k p hp
      by_cases hk : k = i
      · subst hk
        rw [Function.update_self] at hp
        rw [hc]
        exact ((List.sublist_cons_self x l).cons_cons (head k)).subset hp
      · rw [Function.update_of_ne hk] at hp
        exact hp
    exact fun k k' p hp hp' => h.apart k k' p (hmem k p hp) (hmem k' p hp')

theorem Rings.splice_closed (h : Rings next head contents) (hij : i ≠ j) (hc : contents j = x :: l)
    (k : ι) :
    Segment (Function.update (Function.update (Function.update next (last head contents j) (head i))
        (last head contents i) x) (head j) (head j)) (head k)
      (Function.update (Function.update contents i (contents i ++ contents j)) j [] k)
        (head k) := by
  by_cases hkj : k = j
  · subst hkj
    rw [Function.update_self]
    exact Function.update_self ..
  rw [Function.update_of_ne hkj]
  have hj : last head contents j ∉ head k :: contents k := h.notMem (last_mem head contents j) hkj
  have hh : head j ∉ head k :: contents k := h.notMem List.mem_cons_self hkj
  by_cases hki : k = i
  · subst hki
    have hs := h.closed j
    have hn := h.nodup j
    have hi : last head contents k ∉ head j :: contents j :=
      h.notMem (last_mem head contents k) (Ne.symm hij)
    have hl : last head contents j = l.getLastD x := by rw [last, hc, List.getLastD_cons]
    rw [hc] at hs hn hi
    rw [Function.update_self, hc, segment_append, hl]
    rw [hl] at hj
    obtain ⟨hhead, hn⟩ := List.nodup_cons.mp hn
    exact ⟨(((h.closed k).update hj).redirect (h.nodup k)).update hh,
      ((hs.2.redirect hn).update (List.not_mem_of_not_mem_cons hi)).update hhead⟩
  · have hi : last head contents i ∉ head k :: contents k := h.notMem (last_mem head contents i) hki
    rw [Function.update_of_ne hki]
    exact (((h.closed k).update hj).update hi).update hh

omit [DecidableEq P] in
theorem Rings.splice_nodup (h : Rings next head contents) (hij : i ≠ j) (k : ι) :
    (head k :: Function.update (Function.update contents i (contents i ++ contents j))
      j [] k).Nodup := by
  by_cases hkj : k = j
  · subst hkj
    rw [Function.update_self]
    exact List.nodup_singleton _
  rw [Function.update_of_ne hkj]
  by_cases hki : k = i
  · subst hki
    rw [Function.update_self, ← List.cons_append]
    refine (h.nodup k).append (List.nodup_cons.mp (h.nodup j)).2 fun p hp hp' => ?_
    exact hij (h.apart k j p hp (List.mem_cons_of_mem (head j) hp'))
  · rw [Function.update_of_ne hki]
    exact h.nodup k

omit [DecidableEq P] in
theorem mem_splice
 (hp : p ∈ head k :: Function.update
    (Function.update contents i (contents i ++ contents j)) j [] k) :
    (p ∈ head k :: contents k ∧ (k = j → p = head j)) ∨ (k = i ∧ p ∈ contents j) := by
  by_cases hkj : k = j
  · subst hkj
    rw [Function.update_self, List.mem_singleton] at hp
    exact .inl ⟨hp ▸ List.mem_cons_self, fun _ => hp⟩
  rw [Function.update_of_ne hkj] at hp
  by_cases hki : k = i
  · subst hki
    rw [Function.update_self, ← List.cons_append, List.mem_append] at hp
    exact hp.imp (fun hp => ⟨hp, fun he => absurd he hkj⟩) fun hp => ⟨rfl, hp⟩
  · rw [Function.update_of_ne hki] at hp
    exact .inl ⟨hp, fun he => absurd he hkj⟩

/-- A ring that is not empty is linked in after the last node of another, and
its head is closed on itself. -/
theorem Rings.splice (h : Rings next head contents) (hij : i ≠ j) (hc : contents j = x :: l) :
    Rings (Function.update (Function.update (Function.update next (last head contents j) (head i))
        (last head contents i) x) (head j) (head j)) head
      (Function.update (Function.update contents i (contents i ++ contents j)) j []) where
  closed := h.splice_closed hij hc
  nodup := h.splice_nodup hij
  apart := by
    -- the nodes of the emptied ring, its head apart, are with the other ring now
    have hkept : ∀ k p, p ∈ head k :: contents k → (k = j → p = head j) → p ∉ contents j := by
      intro k p hp he hm
      have hk := h.apart k j p hp (List.mem_cons_of_mem (head j) hm)
      exact (List.nodup_cons.mp (h.nodup j)).1 (he hk ▸ hm)
    intro k k' p hp hp'
    obtain ⟨hold, he⟩ | ⟨rfl, hnew⟩ := mem_splice hp
    · obtain ⟨hold', -⟩ | ⟨-, hnew'⟩ := mem_splice hp'
      · exact h.apart k k' p hold hold'
      · exact absurd hnew' (hkept k p hold he)
    · obtain ⟨hold', he'⟩ | ⟨rfl, -⟩ := mem_splice hp'
      · exact absurd hnew (hkept k' p hold' he')
      · rfl

end AsyncBerkeley.CircularLists
