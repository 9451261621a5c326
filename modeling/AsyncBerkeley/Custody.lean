import Mathlib.Logic.Equiv.Basic

namespace AsyncBerkeley.Custody

inductive Event (R L : Type) where
  | acquired (r : R)
  | labelled (r : R) (l : L)
  | released (r : R)
  deriving DecidableEq, Repr

abbrev Holding (I R L : Type) := I → Option (R × L)

variable {I R L : Type} [DecidableEq I] [DecidableEq R] (l₀ : L)

omit [DecidableEq I] [DecidableEq R] in
def Held (h : Holding I R L) (r : R) : Prop := ∃ i l, h i = some (r, l)

/-- One change of custody, and what it adds to the history. Between holders that
exist, resources are only permuted. -/
inductive Transfer (h : Holding I R L) : List (Event R L) → Holding I R L → Prop
  | exchange (σ : Equiv.Perm I) : Transfer h [] (h ∘ σ)
  | acquire {i : I} {r : R} (hi : h i = none) (hr : ¬Held h r) :
    Transfer h [.acquired r] (Function.update h i (some (r, l₀)))
  | label {i : I} {r : R} {l : L} (hi : h i = some (r, l)) (l' : L) :
    Transfer h [.labelled r l'] (Function.update h i (some (r, l')))
  | stray {r : R} (hr : ¬Held h r) (l : L) : Transfer h [.labelled r l] h
  | release {i : I} {r : R} {l : L} (hi : h i = some (r, l)) :
    Transfer h [.released r] (Function.update h i none)

def Event.turns (r : R) : Event R L → Bool
  | .acquired r' | .released r' => r' = r
  | .labelled _ _ => false

def turns (r : R) (log : List (Event R L)) : List (Event R L) := log.filter (Event.turns r)

omit [DecidableEq R] in
/-- A resource that is acquired and then released, again and again. -/
def terms (r : R) (k : Nat) : List (Event R L) :=
  (List.replicate k [.acquired r, .released r]).flatten

def Closed (r : R) (log : List (Event R L)) : Prop := ∃ k, turns r log = terms r k

def Open (r : R) (log : List (Event R L)) : Prop := ∃ k, turns r log = terms r k ++ [.acquired r]

def Event.relabel (r : R) (l : L) : Event R L → L
  | .acquired r' => if r' = r then l₀ else l
  | .labelled r' l' => if r' = r then l' else l
  | .released _ => l

def lastLabel (r : R) (log : List (Event R L)) : L := log.foldl (Event.relabel l₀ r) l₀

/-- A resource has one holder at most, who has it from its acquisition until it
is released, with the last label it was given. -/
structure Kept (log : List (Event R L)) (h : Holding I R L) : Prop where
  unique : ∀ {i j r l l'}, h i = some (r, l) → h j = some (r, l') → i = j
  running : ∀ r, Held h r → Open r log
  ended : ∀ r, ¬Held h r → Closed r log
  label : ∀ {i r l}, h i = some (r, l) → l = lastLabel l₀ r log

variable {l₀} {r r' : R} {l l' : L} {i j : I} {log events : List (Event R L)} {h h' : Holding I R L}

section Histories

omit [DecidableEq I]

theorem turns_snoc (e : Event R L) :
    turns r (log ++ [e]) = turns r log ++ if e.turns r then [e] else [] := by
  cases he : e.turns r <;> simp [turns, he]

theorem lastLabel_snoc (e : Event R L) :
    lastLabel l₀ r (log ++ [e]) = e.relabel l₀ r (lastLabel l₀ r log) := by
  simp [lastLabel]

omit [DecidableEq R] in
theorem terms_succ (r : R) (k : Nat) :
    terms (L := L) r (k + 1) = terms r k ++ [.acquired r] ++ [.released r] := by
  simp [terms, List.replicate_succ']

theorem Closed.acquire (hc : Closed r log) : Open r (log ++ [.acquired r]) := by
  obtain ⟨k, hk⟩ := hc
  exact ⟨k, by simp [turns_snoc, Event.turns, hk]⟩

theorem Open.release (ho : Open r log) : Closed r (log ++ [.released r]) := by
  obtain ⟨k, hk⟩ := ho
  exact ⟨k + 1, by simp [turns_snoc, Event.turns, hk, terms_succ]⟩

theorem Open.frame {e : Event R L} (ho : Open r log) (he : e.turns r = false) :
    Open r (log ++ [e]) := by
  obtain ⟨k, hk⟩ := ho
  exact ⟨k, by simp [turns_snoc, he, hk]⟩

theorem Closed.frame {e : Event R L} (hc : Closed r log) (he : e.turns r = false) :
    Closed r (log ++ [e]) := by
  obtain ⟨k, hk⟩ := hc
  exact ⟨k, by simp [turns_snoc, he, hk]⟩

theorem Closed.turns_eq_nil (hc : Closed r log) (hn : .acquired r ∉ log) : turns r log = [] := by
  obtain ⟨k, hk⟩ := hc
  cases k with
  | zero => exact hk
  | succ k =>
    have hm : Event.acquired r ∈ turns r log := by simp [hk, terms_succ]
    exact absurd (List.mem_filter.mp hm).1 hn

end Histories

section Holdings

omit [DecidableEq R]

omit [DecidableEq I] in
theorem held_comp (σ : Equiv.Perm I) : Held (h ∘ σ) r ↔ Held h r := by
  constructor
  · rintro ⟨i, l, hi⟩
    exact ⟨σ i, l, hi⟩
  · rintro ⟨i, l, hi⟩
    exact ⟨σ.symm i, l, by simpa using hi⟩

theorem update_eq_some {x : Option (R × L)} {p : R × L} :
    Function.update h i x j = some p ↔ (j = i ∧ x = some p) ∨ (j ≠ i ∧ h j = some p) := by
  by_cases hj : j = i
  · subst j; simp
  · simp [hj]

theorem held_acquire (hi : h i = none) :
    Held (Function.update h i (some (r', l))) r ↔ r = r' ∨ Held h r := by
  constructor
  · rintro ⟨j, l', hj⟩
    obtain ⟨-, he⟩ | ⟨-, hj⟩ := update_eq_some.mp hj
    · cases he
      exact .inl rfl
    · exact .inr ⟨j, l', hj⟩
  · rintro (rfl | ⟨j, l', hj⟩)
    · exact ⟨i, l, by simp⟩
    · refine ⟨j, l', update_eq_some.mpr (.inr ⟨?_, hj⟩)⟩
      rintro rfl
      rw [hi] at hj
      cases hj

theorem held_label (hi : h i = some (r', l)) :
    Held (Function.update h i (some (r', l'))) r ↔ Held h r := by
  constructor
  · rintro ⟨j, m, hj⟩
    obtain ⟨-, he⟩ | ⟨-, hj⟩ := update_eq_some.mp hj
    · cases he
      exact ⟨i, l, hi⟩
    · exact ⟨j, m, hj⟩
  · rintro ⟨j, m, hj⟩
    by_cases hji : j = i
    · subst j
      rw [hi] at hj
      cases hj
      exact ⟨i, l', by simp⟩
    · exact ⟨j, m, update_eq_some.mpr (.inr ⟨hji, hj⟩)⟩

theorem held_release (hi : h i = some (r', l)) (hu : ∀ j m, h j = some (r', m) → j = i) :
    Held (Function.update h i none) r ↔ r ≠ r' ∧ Held h r := by
  constructor
  · rintro ⟨j, m, hj⟩
    obtain ⟨hji, hj⟩ := (update_eq_some.mp hj).resolve_left (by simp)
    refine ⟨?_, j, m, hj⟩
    rintro rfl
    exact hji (hu j m hj)
  · rintro ⟨hr, j, m, hj⟩
    refine ⟨j, m, update_eq_some.mpr (.inr ⟨?_, hj⟩)⟩
    rintro rfl
    rw [hi] at hj
    cases hj
    exact hr rfl

end Holdings

omit [DecidableEq I] in
theorem Kept.initial : Kept l₀ [] (fun _ => none : Holding I R L) where
  unique := nofun
  running := fun _ ⟨_, _, hi⟩ => by cases hi
  ended := fun _ _ => ⟨0, rfl⟩
  label := nofun

omit [DecidableEq I] in
theorem Kept.exchange (hk : Kept l₀ log h) (σ : Equiv.Perm I) : Kept l₀ log (h ∘ σ) where
  unique := fun hi hj => σ.injective (hk.unique hi hj)
  running := fun r hr => hk.running r ((held_comp σ).mp hr)
  ended := fun r hr => hk.ended r fun hh => hr ((held_comp σ).mpr hh)
  label := fun hi => hk.label hi

theorem Kept.unique_update (hk : Kept l₀ log h) (hr : ∀ j m, h j = some (r, m) → j = i) :
    ∀ {a b r' m m'}, Function.update h i (some (r, l)) a = some (r', m) →
      Function.update h i (some (r, l)) b = some (r', m') → a = b := by
  intro a b r' m m' ha hb
  obtain ⟨hai, he⟩ | ⟨hai, ha⟩ := update_eq_some.mp ha
  · cases he
    obtain ⟨hbi, -⟩ | ⟨-, hb⟩ := update_eq_some.mp hb
    · exact hai.trans hbi.symm
    · exact hai.trans (hr b m' hb).symm
  · obtain ⟨hbi, he⟩ | ⟨-, hb⟩ := update_eq_some.mp hb
    · cases he
      exact absurd (hr a m ha) hai
    · exact hk.unique ha hb

theorem Kept.acquire (hk : Kept l₀ log h) (hi : h i = none) (hr : ¬Held h r) :
    Kept l₀ (log ++ [.acquired r]) (Function.update h i (some (r, l₀))) where
  unique := hk.unique_update fun j m hj => absurd ⟨j, m, hj⟩ hr
  running := by
    intro r' hr'
    by_cases he : r = r'
    · subst r'
      exact (hk.ended r hr).acquire
    · have hh := ((held_acquire hi).mp hr').resolve_left fun h => he h.symm
      exact (hk.running r' hh).frame (by simp [Event.turns, he])
  ended := by
    intro r' hr'
    have hr' := not_or.mp (mt (held_acquire hi).mpr hr')
    exact (hk.ended r' hr'.2).frame (by simpa [Event.turns] using Ne.symm hr'.1)
  label := by
    intro a r' l ha
    rw [lastLabel_snoc, Event.relabel]
    obtain ⟨-, he⟩ | ⟨-, ha⟩ := update_eq_some.mp ha
    · cases he
      simp
    · have hne : r ≠ r' := by
        rintro rfl
        exact hr ⟨a, l, ha⟩
      rw [if_neg hne]
      exact hk.label ha

theorem Kept.relabel (hk : Kept l₀ log h) (hi : h i = some (r, l)) (l' : L) :
    Kept l₀ (log ++ [.labelled r l']) (Function.update h i (some (r, l'))) where
  unique := hk.unique_update fun _ _ hj => hk.unique hj hi
  running := fun r' hr' => (hk.running r' ((held_label hi).mp hr')).frame rfl
  ended := fun r' hr' => (hk.ended r' (mt (held_label hi).mpr hr')).frame rfl
  label := by
    intro a r' m ha
    rw [lastLabel_snoc, Event.relabel]
    obtain ⟨-, he⟩ | ⟨hai, ha⟩ := update_eq_some.mp ha
    · cases he
      simp
    · have hne : r ≠ r' := by
        rintro rfl
        exact hai (hk.unique ha hi)
      rw [if_neg hne]
      exact hk.label ha

omit [DecidableEq I] in
theorem Kept.stray (hk : Kept l₀ log h) (hr : ¬Held h r) (l : L) :
    Kept l₀ (log ++ [.labelled r l]) h where
  unique := hk.unique
  running := fun r' hr' => (hk.running r' hr').frame rfl
  ended := fun r' hr' => (hk.ended r' hr').frame rfl
  label := by
    intro a r' m ha
    have hne : r ≠ r' := by
      rintro rfl
      exact hr ⟨a, m, ha⟩
    rw [lastLabel_snoc, Event.relabel, if_neg hne]
    exact hk.label ha

theorem Kept.release (hk : Kept l₀ log h) (hi : h i = some (r, l)) :
    Kept l₀ (log ++ [.released r]) (Function.update h i none) := by
  have hu : ∀ j m, h j = some (r, m) → j = i := fun _ _ hj => hk.unique hj hi
  refine ⟨?_, ?_, ?_, ?_⟩
  · intro a b r' m m' ha hb
    have ha := (update_eq_some.mp ha).resolve_left (by simp)
    have hb := (update_eq_some.mp hb).resolve_left (by simp)
    exact hk.unique ha.2 hb.2
  · intro r' hr'
    obtain ⟨hne, hr'⟩ := (held_release hi hu).mp hr'
    exact (hk.running r' hr').frame (by simpa [Event.turns] using Ne.symm hne)
  · intro r' hr'
    by_cases he : r = r'
    · subst r'
      exact (hk.running r ⟨i, l, hi⟩).release
    · have hh : ¬Held h r' := fun hh => hr' ((held_release hi hu).mpr ⟨fun h => he h.symm, hh⟩)
      exact (hk.ended r' hh).frame (by simp [Event.turns, he])
  · intro a r' m ha
    have ha := (update_eq_some.mp ha).resolve_left (by simp)
    rw [lastLabel_snoc]
    exact hk.label ha.2

/-- Every change of custody keeps the resources. -/
theorem Kept.transfer (hk : Kept l₀ log h) (ht : Transfer l₀ h events h') :
    Kept l₀ (log ++ events) h' := by
  cases ht with
  | exchange σ =>
    rw [List.append_nil]
    exact hk.exchange σ
  | acquire hi hr => exact hk.acquire hi hr
  | label hi l => exact hk.relabel hi l
  | stray hr l => exact hk.stray hr l
  | release hi => exact hk.release hi

omit [DecidableEq R] in
theorem Transfer.held_of_acquired (ht : Transfer l₀ h events h') (hm : .acquired r ∈ events) :
    Held h' r := by
  cases ht with
  | @acquire i _ _ _ =>
    cases List.mem_singleton.mp hm
    exact ⟨i, l₀, by simp⟩
  | exchange | label | stray | release => simp at hm

omit [DecidableEq R] in
theorem Transfer.eq_of_released (ht : Transfer l₀ h events h') (hm : .released r ∈ events) :
    events = [.released r] := by
  cases ht with
  | release _ =>
    cases List.mem_singleton.mp hm
    rfl
  | exchange | acquire | label | stray => simp at hm

theorem Transfer.not_held_of_released (ht : Transfer l₀ h events h') (hk : Kept l₀ log h)
    (hm : .released r ∈ events) : ¬Held h' r := by
  cases ht with
  | release hi =>
    cases List.mem_singleton.mp hm
    intro hh
    exact ((held_release hi fun _ _ hj => hk.unique hj hi).mp hh).1 rfl
  | exchange | acquire | label | stray => simp at hm

omit [DecidableEq R] in
theorem Transfer.held (ht : Transfer l₀ h events h') (hh : Held h r) (hm : .released r ∉ events) :
    Held h' r := by
  cases ht with
  | exchange σ => exact (held_comp σ).mpr hh
  | acquire hi _ => exact (held_acquire hi).mpr (.inr hh)
  | label hi _ => exact (held_label hi).mpr hh
  | stray _ _ => exact hh
  | @release i r' l hi =>
    obtain ⟨j, m, hj⟩ := hh
    refine ⟨j, m, update_eq_some.mpr (.inr ⟨?_, hj⟩)⟩
    rintro rfl
    rw [hi] at hj
    cases hj
    exact hm (List.mem_singleton.mpr rfl)

end AsyncBerkeley.Custody
