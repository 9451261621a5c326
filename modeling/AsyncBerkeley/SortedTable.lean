import Mathlib.Order.Lattice
import Mathlib.Data.List.Basic

namespace AsyncBerkeley.SortedTable

variable {α κ : Type} [LinearOrder κ] (key : α → κ)

/-- A table is a list with strictly increasing keys. -/
def Sorted (l : List α) : Prop := l.Pairwise (fun a b => key a < key b)

instance (l : List α) : Decidable (Sorted key l) := inferInstanceAs (Decidable (l.Pairwise _))

def lowerBound (l : List α) (k : κ) : Nat := l.findIdx (fun a => !decide (key a < k))

def lookup (l : List α) (k : κ) : Option α := l.find? (fun a => key a = k)

/-- Change the entry of a key in place, or insert a new one where the search ends. -/
def upsert (l : List α) (k : κ) (f : α → α) (new : α) : List α :=
  match l[lowerBound key l k]? with
  | some a => if key a = k then l.set (lowerBound key l k) (f a)
      else l.insertIdx (lowerBound key l k) new
  | none => l.insertIdx (lowerBound key l k) new

def adjust (l : List α) (k : κ) (f : α → α) : List α :=
  match l[lowerBound key l k]? with
  | some a => if key a = k then l.set (lowerBound key l k) (f a) else l
  | none => l

variable {key} {l : List α} {a b new : α} {k k' : κ} {f : α → α}

theorem lowerBound_cons :
    lowerBound key (a :: l) k = if key a < k then lowerBound key l k + 1 else 0 := by
  by_cases h : key a < k <;> simp [lowerBound, List.findIdx_cons, h]

theorem upsert_nil : upsert key [] k f new = [new] := rfl

theorem upsert_cons : upsert key (a :: l) k f new =
    if key a < k then a :: upsert key l k f new
    else if key a = k then f a :: l else new :: a :: l := by
  by_cases h : key a < k
  · simp only [upsert, lowerBound_cons, h, ↓reduceIte, List.getElem?_cons_succ]
    cases l[lowerBound key l k]? with
    | none => rfl
    | some b =>
      by_cases hb : key b = k
      · simp only [hb, ↓reduceIte]; rfl
      · simp only [hb, ↓reduceIte]; rfl
  · simp [upsert, lowerBound_cons, h]

theorem adjust_nil : adjust key [] k f = [] := rfl

theorem adjust_cons : adjust key (a :: l) k f =
    if key a < k then a :: adjust key l k f else if key a = k then f a :: l else a :: l := by
  by_cases h : key a < k
  · simp only [adjust, lowerBound_cons, h, ↓reduceIte, List.getElem?_cons_succ]
    cases l[lowerBound key l k]? with
    | none => rfl
    | some b =>
      by_cases hb : key b = k
      · simp only [hb, ↓reduceIte]; rfl
      · simp only [hb, ↓reduceIte]
  · simp [adjust, lowerBound_cons, h]

theorem lookup_cons : lookup key (a :: l) k = if key a = k then some a else lookup key l k := by
  by_cases h : key a = k <;> simp [lookup, h]

theorem lookup_key (h : lookup key l k = some a) : key a = k := by
  simpa using List.find?_some h

theorem mem_of_lookup (h : lookup key l k = some a) : a ∈ l := List.mem_of_find?_eq_some h

theorem lookup_eq_none_iff : lookup key l k = none ↔ ∀ a ∈ l, key a ≠ k := by
  simp [lookup]

theorem lookup_of_mem (hl : Sorted key l) (ha : a ∈ l) : lookup key l (key a) = some a := by
  induction l with
  | nil => cases ha
  | cons b l ih =>
    have hb := List.pairwise_cons.mp hl
    rw [lookup_cons]
    obtain rfl | ha := List.mem_cons.mp ha
    · simp
    · rw [if_neg (hb.1 a ha).ne]
      exact ih hb.2 ha

theorem lookup_eq_none_of_lt (hl : Sorted key (a :: l)) (h : k < key a) :
    lookup key l k = none := by
  rw [lookup_eq_none_iff]
  intro b hb he
  have hlt := h.trans ((List.pairwise_cons.mp hl).1 b hb)
  exact hlt.ne' he

theorem getElem?_lowerBound (hl : Sorted key l) (h : lookup key l k = some a) :
    l[lowerBound key l k]? = some a := by
  induction l with
  | nil => cases h
  | cons b l ih =>
    obtain ⟨hb, hl⟩ := List.pairwise_cons.mp hl
    rw [lookup_cons] at h
    rw [lowerBound_cons]
    split at h
    · next he =>
      rw [if_neg he.not_lt]
      exact h
    · have hlt : key b < k := lookup_key h ▸ hb a (mem_of_lookup h)
      rw [if_pos hlt, List.getElem?_cons_succ]
      exact ih hl h

variable (hf : ∀ a, key (f a) = key a)
include hf

theorem mem_upsert (hb : b ∈ upsert key l k f new) : b = new ∨ ∃ a ∈ l, key b = key a := by
  induction l with
  | nil => exact .inl (List.mem_singleton.mp hb)
  | cons a l ih =>
    rw [upsert_cons] at hb
    split at hb
    · obtain rfl | hb := List.mem_cons.mp hb
      · exact .inr ⟨b, by simp, rfl⟩
      · exact (ih hb).imp_right fun ⟨c, hc, he⟩ => ⟨c, by simp [hc], he⟩
    · split at hb
      · obtain rfl | hb := List.mem_cons.mp hb
        · exact .inr ⟨a, by simp, hf a⟩
        · exact .inr ⟨b, by simp [hb], rfl⟩
      · obtain rfl | hb := List.mem_cons.mp hb
        · exact .inl rfl
        · exact .inr ⟨b, hb, rfl⟩

theorem sorted_upsert (hl : Sorted key l) (hn : key new = k) :
    Sorted key (upsert key l k f new) := by
  induction l with
  | nil => exact List.pairwise_singleton _ _
  | cons a l ih =>
    have ha := List.pairwise_cons.mp hl
    rw [upsert_cons]
    split
    · next h =>
      refine List.pairwise_cons.mpr ⟨fun b hb => ?_, ih ha.2⟩
      obtain rfl | ⟨c, hc, he⟩ := mem_upsert hf hb
      · rw [hn]; exact h
      · rw [he]; exact ha.1 c hc
    · split
      · refine List.pairwise_cons.mpr ⟨fun b hb => ?_, ha.2⟩
        rw [hf]; exact ha.1 b hb
      · next h he =>
        have hlt : k < key a := lt_of_le_of_ne (not_lt.mp h) (Ne.symm he)
        refine List.pairwise_cons.mpr ⟨fun b hb => ?_, hl⟩
        rw [hn]
        obtain rfl | hb := List.mem_cons.mp hb
        · exact hlt
        · exact hlt.trans (ha.1 b hb)

theorem lookup_upsert (hl : Sorted key l) (hn : key new = k) :
    lookup key (upsert key l k f new) k' =
      if k' = k then some (((lookup key l k).map f).getD new) else lookup key l k' := by
  induction l with
  | nil => simp [upsert_nil, lookup, hn, eq_comm]
  | cons a l ih =>
    rw [upsert_cons]
    split
    · next h =>
      rw [lookup_cons, ih (List.pairwise_cons.mp hl).2, lookup_cons, lookup_cons, if_neg h.ne]
      by_cases hk : k' = k
      · subst hk; simp [h.ne]
      · simp [hk]
    · split
      · next h he =>
        subst he
        rw [lookup_cons, lookup_cons, lookup_cons, hf]
        by_cases hk : k' = key a
        · simp [hk]
        · simp [hk, Ne.symm hk]
      · next h he =>
        have hlt : k < key a := lt_of_le_of_ne (not_lt.mp h) (Ne.symm he)
        rw [lookup_cons, lookup_cons, lookup_cons, if_neg he, lookup_eq_none_of_lt hl hlt, hn]
        simp only [eq_comm, Option.map_none, Option.getD_none]

theorem mem_adjust (hb : b ∈ adjust key l k f) : ∃ a ∈ l, key b = key a := by
  induction l with
  | nil => cases hb
  | cons a l ih =>
    rw [adjust_cons] at hb
    split at hb
    · obtain rfl | hb := List.mem_cons.mp hb
      · exact ⟨b, by simp, rfl⟩
      · obtain ⟨c, hc, he⟩ := ih hb
        exact ⟨c, by simp [hc], he⟩
    · split at hb
      · obtain rfl | hb := List.mem_cons.mp hb
        · exact ⟨a, by simp, hf a⟩
        · exact ⟨b, by simp [hb], rfl⟩
      · exact ⟨b, hb, rfl⟩

theorem sorted_adjust (hl : Sorted key l) : Sorted key (adjust key l k f) := by
  induction l with
  | nil => exact hl
  | cons a l ih =>
    have ha := List.pairwise_cons.mp hl
    rw [adjust_cons]
    split
    · refine List.pairwise_cons.mpr ⟨fun b hb => ?_, ih ha.2⟩
      obtain ⟨c, hc, he⟩ := mem_adjust hf hb
      rw [he]; exact ha.1 c hc
    · split
      · refine List.pairwise_cons.mpr ⟨fun b hb => ?_, ha.2⟩
        rw [hf]; exact ha.1 b hb
      · exact hl

theorem lookup_adjust (hl : Sorted key l) :
    lookup key (adjust key l k f) k' = if k' = k then (lookup key l k).map f
      else lookup key l k' := by
  induction l with
  | nil => simp [adjust_nil, lookup]
  | cons a l ih =>
    rw [adjust_cons]
    split
    · next h =>
      rw [lookup_cons, ih (List.pairwise_cons.mp hl).2, lookup_cons, lookup_cons, if_neg h.ne]
      by_cases hk : k' = k
      · subst hk; simp [h.ne]
      · simp [hk]
    · split
      · next h he =>
        subst he
        rw [lookup_cons, lookup_cons, lookup_cons, hf]
        by_cases hk : k' = key a
        · simp [hk]
        · simp [hk, Ne.symm hk]
      · next h he =>
        have hlt : k < key a := lt_of_le_of_ne (not_lt.mp h) (Ne.symm he)
        rw [lookup_cons, lookup_cons, if_neg he, lookup_eq_none_of_lt hl hlt]
        by_cases hk : k' = k
        · subst hk; simp [he, lookup_eq_none_of_lt hl hlt]
        · simp [hk]

end AsyncBerkeley.SortedTable
