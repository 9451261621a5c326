import Mathlib.Data.List.Induction

namespace AsyncBerkeley.Runs

variable {σ α ε : Type} (step : σ → α → Except ε σ)

/-- Take a list of actions in order. A run ends early at the first action
whose step is a fault, and reports that fault. -/
def run : σ → List α → Except ε σ
  | s, [] => .ok s
  | s, a :: tr => match step s a with
    | .ok t => run t tr
    | .error e => .error e

/-- Every action meets the condition in the state it is taken from. -/
def Along (P : σ → α → Prop) : σ → List α → Prop
  | _, [] => True
  | s, a :: tr => P s a ∧ match step s a with
    | .ok t => Along P t tr
    | .error _ => True

instance decidableAlong (P : σ → α → Prop) [∀ s a, Decidable (P s a)] :
    ∀ s tr, Decidable (Along step P s tr)
  | _, [] => isTrue trivial
  | s, a :: tr =>
    have : Decidable (match step s a with | .ok t => Along step P t tr | .error _ => True) :=
      match step s a with
      | .ok t => decidableAlong P t tr
      | .error _ => isTrue trivial
    inferInstanceAs
      (Decidable (P s a ∧ match step s a with | .ok t => Along step P t tr | .error _ => True))

variable {step} {s t : σ} {a : α} {tr tr' : List α}

@[simp] theorem run_nil : run step s [] = .ok s := rfl

theorem run_cons_ok :
    run step s (a :: tr) = .ok t ↔ ∃ u, step s a = .ok u ∧ run step u tr = .ok t := by
  cases h : step s a with
  | ok u => simp [run, h]
  | error e => simp [run, h]

theorem run_append_ok :
    run step s (tr ++ tr') = .ok t ↔ ∃ u, run step s tr = .ok u ∧ run step u tr' = .ok t := by
  induction tr generalizing s with
  | nil => simp
  | cons a tr ih =>
    rw [List.cons_append, run_cons_ok]
    simp only [ih, run_cons_ok]
    constructor
    · rintro ⟨u, hu, v, hv, ht⟩
      exact ⟨v, ⟨u, hu, hv⟩, ht⟩
    · rintro ⟨v, ⟨u, hu, hv⟩, ht⟩
      exact ⟨u, hu, v, hv, ht⟩

theorem run_snoc_ok :
    run step s (tr ++ [a]) = .ok t ↔ ∃ u, run step s tr = .ok u ∧ step u a = .ok t := by
  rw [run_append_ok]
  simp [run_cons_ok]

theorem run_error_iff {e : ε} :
    run step s tr = .error e ↔ ∃ tr₁ a tr₂ u, tr = tr₁ ++ a :: tr₂ ∧
      run step s tr₁ = .ok u ∧ step u a = .error e := by
  induction tr generalizing s with
  | nil => simp
  | cons b tr ih =>
    constructor
    · intro h
      cases hb : step s b with
      | error e' =>
        have he : e' = e := by simpa [run, hb] using h
        exact ⟨[], b, tr, s, rfl, rfl, he ▸ hb⟩
      | ok u =>
        have hu : run step u tr = .error e := by simpa [run, hb] using h
        obtain ⟨tr₁, a, tr₂, v, rfl, hv, ha⟩ := ih.mp hu
        exact ⟨b :: tr₁, a, tr₂, v, rfl, run_cons_ok.mpr ⟨u, hb, hv⟩, ha⟩
    · rintro ⟨tr₁, a, tr₂, v, htr, hv, ha⟩
      cases tr₁ with
      | nil =>
        obtain ⟨rfl, rfl⟩ := List.cons.inj htr
        cases hv
        simp [run, ha]
      | cons c tr₁ =>
        obtain ⟨rfl, rfl⟩ := List.cons.inj htr
        obtain ⟨u, hu, hv⟩ := run_cons_ok.mp hv
        simpa [run, hu] using ih.mpr ⟨tr₁, a, tr₂, v, rfl, hv, ha⟩

theorem along_cons {P : σ → α → Prop} :
    Along step P s (a :: tr) ↔ P s a ∧ ∀ t, step s a = .ok t → Along step P t tr := by
  rw [Along]
  cases step s a with
  | ok t => simp
  | error e => simp

/-- What every step preserves holds of every state that a run reaches. -/
theorem run_invariant (I : σ → Prop) (hstep : ∀ s a t, I s → step s a = .ok t → I t)
    (h : run step s tr = .ok t) (hs : I s) : I t := by
  induction tr generalizing s with
  | nil => cases h; exact hs
  | cons a tr ih =>
    obtain ⟨u, hu, ht⟩ := run_cons_ok.mp h
    exact ih ht (hstep s a u hs hu)

theorem run_invariant_along (I : σ → Prop) (P : σ → α → Prop)
    (hstep : ∀ s a t, I s → P s a → step s a = .ok t → I t)
    (h : run step s tr = .ok t) (hp : Along step P s tr) (hs : I s) : I t := by
  induction tr generalizing s with
  | nil => cases h; exact hs
  | cons a tr ih =>
    obtain ⟨u, hu, ht⟩ := run_cons_ok.mp h
    obtain ⟨ha, hrest⟩ := along_cons.mp hp
    exact ih ht (hrest u hu) (hstep s a u hs ha hu)

theorem along_iff (P : σ → α → Prop) :
    Along step P s tr ↔
      ∀ tr₁ a tr₂ u, tr = tr₁ ++ a :: tr₂ → run step s tr₁ = .ok u → P u a := by
  induction tr generalizing s with
  | nil => simp [Along]
  | cons b tr ih =>
    rw [along_cons]
    constructor
    · rintro ⟨hb, hrest⟩ tr₁ a tr₂ u htr hu
      cases tr₁ with
      | nil =>
        obtain ⟨rfl, rfl⟩ := List.cons.inj htr
        cases hu
        exact hb
      | cons c tr₁ =>
        obtain ⟨rfl, rfl⟩ := List.cons.inj htr
        obtain ⟨v, hv, hu⟩ := run_cons_ok.mp hu
        exact ih.mp (hrest v hv) tr₁ a tr₂ u rfl hu
    · intro h
      refine ⟨h [] b tr s rfl rfl, fun v hv => ih.mpr ?_⟩
      intro tr₁ a tr₂ u htr hu
      exact h (b :: tr₁) a tr₂ u (by rw [htr]; rfl) (run_cons_ok.mpr ⟨v, hv, hu⟩)

theorem Along.append {P : σ → α → Prop} (h : Along step P s (tr ++ tr')) : Along step P s tr := by
  rw [along_iff] at h ⊢
  intro tr₁ a tr₂ u htr hu
  exact h tr₁ a (tr₂ ++ tr') u (by simp [htr]) hu

theorem Along.trans {P : σ → α → Prop} (h : Along step P s tr) (hr : run step s tr = .ok t)
    (h' : Along step P t tr') : Along step P s (tr ++ tr') := by
  induction tr generalizing s with
  | nil =>
    cases hr
    exact h'
  | cons a tr ih =>
    obtain ⟨u, hu, ht⟩ := run_cons_ok.mp hr
    obtain ⟨ha, hrest⟩ := along_cons.mp h
    refine along_cons.mpr ⟨ha, fun v hv => ?_⟩
    rw [hu] at hv
    cases hv
    exact ih (hrest u hu) ht

def Reaches (step : σ → α → Except ε σ) (P : σ → α → Prop) (s t : σ) : Prop :=
  ∃ tr, run step s tr = .ok t ∧ Along step P s tr

theorem Reaches.refl (P : σ → α → Prop) (s : σ) : Reaches step P s s := ⟨[], rfl, trivial⟩

theorem Reaches.single {P : σ → α → Prop} (h : step s a = .ok t) (ha : P s a) :
    Reaches step P s t :=
  ⟨[a], run_cons_ok.mpr ⟨t, h, rfl⟩, along_cons.mpr ⟨ha, fun _ _ => trivial⟩⟩

theorem Reaches.trans {P : σ → α → Prop} {u : σ} (h : Reaches step P s t)
    (h' : Reaches step P t u) : Reaches step P s u := by
  obtain ⟨tr, hr, ha⟩ := h
  obtain ⟨tr', hr', ha'⟩ := h'
  exact ⟨tr ++ tr', run_append_ok.mpr ⟨t, hr, hr'⟩, ha.trans hr ha'⟩

theorem run_induction (I : List α → σ → Prop) (hnil : I [] s)
    (hsnoc : ∀ tr u a v, run step s tr = .ok u → step u a = .ok v → I tr u → I (tr ++ [a]) v)
    (h : run step s tr = .ok t) : I tr t := by
  induction tr using List.reverseRecOn generalizing t with
  | nil =>
    cases h
    exact hnil
  | append_singleton tr a ih =>
    obtain ⟨u, hu, ht⟩ := run_snoc_ok.mp h
    exact hsnoc tr u a t hu ht (ih hu)

theorem exists_step (P : σ → Prop) (h : run step s tr = .ok t) (hs : ¬P s) (ht : P t) :
    ∃ tr₁ a tr₂ u v, tr = tr₁ ++ a :: tr₂ ∧ run step s tr₁ = .ok u ∧ ¬P u ∧ step u a = .ok v ∧ P v ∧
      run step v tr₂ = .ok t := by
  induction tr generalizing s with
  | nil =>
    cases h
    exact absurd ht hs
  | cons a tr ih =>
    obtain ⟨u, hu, hrest⟩ := run_cons_ok.mp h
    by_cases hp : P u
    · exact ⟨[], a, tr, s, u, rfl, rfl, hs, hu, hp, hrest⟩
    · obtain ⟨tr₁, b, tr₂, v, w, rfl, hv, hnv, hb, hw, htr⟩ := ih hrest hp
      exact ⟨a :: tr₁, b, tr₂, v, w, rfl, run_cons_ok.mpr ⟨u, hu, hv⟩, hnv, hb, hw, htr⟩

variable {β : Type}

def collect (step : σ → α → Except ε σ) (f : σ → α → List β) : σ → List α → List β
  | _, [] => []
  | s, a :: tr => f s a ++ match step s a with
    | .ok t => collect step f t tr
    | .error _ => []

theorem collect_append (f : σ → α → List β) (h : run step s tr = .ok t) :
    collect step f s (tr ++ tr') = collect step f s tr ++ collect step f t tr' := by
  induction tr generalizing s with
  | nil =>
    cases h
    rfl
  | cons a tr ih =>
    obtain ⟨u, hu, ht⟩ := run_cons_ok.mp h
    simp only [List.cons_append, collect, hu, ih ht, List.append_assoc]

theorem collect_snoc (f : σ → α → List β) {u : σ} (h : run step s tr = .ok t)
    (ha : step t a = .ok u) :
    collect step f s (tr ++ [a]) = collect step f s tr ++ f t a := by
  rw [collect_append f h]
  simp [collect, ha]

theorem getLastD_append (l l' : List β) (b : β) :
    (l ++ l').getLastD b = l'.getLastD (l.getLastD b) := by
  simp only [List.getLastD_eq_getLast?, List.getLast?_append]
  cases l'.getLast? <;> rfl

theorem getLastD_collect (w : σ → β) (f : σ → α → List β) (I : σ → Prop)
    (hI : ∀ s a t, I s → step s a = .ok t → I t)
    (hw : ∀ s a t, I s → step s a = .ok t → w t = (f s a).getLastD (w s))
    (h : run step s tr = .ok t) (hs : I s) : w t = (collect step f s tr).getLastD (w s) := by
  induction tr generalizing s with
  | nil =>
    cases h
    rfl
  | cons a tr ih =>
    obtain ⟨u, hu, ht⟩ := run_cons_ok.mp h
    simp only [collect, hu, getLastD_append]
    rw [← hw s a u hs hu]
    exact ih ht (hI s a u hs hu)

end AsyncBerkeley.Runs
