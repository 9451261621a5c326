import Mathlib.Algebra.Order.Ring.Int

namespace AsyncBerkeley.ListUpdates

variable {α β : Type} {l : List α} {i j : Nat} {old new a : α}

theorem getElem?_set_cases (h : (l.set j new)[i]? = some a) :
    (j = i ∧ a = new) ∨ (j ≠ i ∧ l[i]? = some a) := by
  by_cases hj : j = i
  · subst hj
    have hlt : j < l.length := by simpa using (List.getElem?_eq_some_iff.mp h).1
    rw [List.getElem?_set_self hlt] at h
    exact .inl ⟨rfl, (Option.some.inj h).symm⟩
  · rw [List.getElem?_set_ne hj] at h
    exact .inr ⟨hj, h⟩

theorem getElem?_set_other (h : l[i]? = some a) (hj : l[j]? = some old) (hne : a ≠ old) :
    (l.set j new)[i]? = some a := by
  have hij : j ≠ i := by
    rintro rfl
    rw [h] at hj
    exact hne (Option.some.inj hj)
  rw [List.getElem?_set_ne hij]
  exact h

theorem getElem?_snoc_new (hn : l[i]? = none) (h : (l ++ [new])[i]? = some a) :
    i = l.length ∧ a = new := by
  have hle := List.getElem?_eq_none_iff.mp hn
  have hlt := (List.getElem?_eq_some_iff.mp h).1
  rw [List.length_append, List.length_singleton] at hlt
  obtain rfl : i = l.length := by omega
  exact ⟨rfl, by simpa using h.symm⟩

theorem map_set_of_eq (f : α → β) (h : l[i]? = some old) (he : f new = f old) :
    (l.set i new).map f = l.map f := by
  obtain ⟨hlt, rfl⟩ := List.getElem?_eq_some_iff.mp h
  rw [List.map_set, he, ← List.map_set, List.set_getElem_self]

/-- Writing to one place changes a sum over the list by the difference of the two terms. -/
theorem sum_map_set (f : α → Nat) (h : l[i]? = some old) (new : α) :
    ((l.set i new).map f).sum + f old = (l.map f).sum + f new := by
  induction l generalizing i with
  | nil => cases h
  | cons x l ih =>
    cases i with
    | zero =>
      cases h
      simp only [List.set_cons_zero, List.map_cons, List.sum_cons]
      omega
    | succ i =>
      have hi := ih (by simpa using h)
      simp only [List.set_cons_succ, List.map_cons, List.sum_cons]
      omega

theorem count_flatMap_set [DecidableEq β] (f : α → List β) (h : l[i]? = some old)
    (new : α) (b : β) : ((l.set i new).flatMap f).count b + (f old).count b =
      (l.flatMap f).count b + (f new).count b := by
  rw [List.count_flatMap, List.count_flatMap]
  exact sum_map_set (fun x => (f x).count b) h new

end AsyncBerkeley.ListUpdates
