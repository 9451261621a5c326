import Mathlib.Data.List.Nodup
import Mathlib.Logic.Function.Basic

namespace AsyncBerkeley.Reactor

structure Exclusive {ι τ : Type} (contents : ι → List τ) : Prop where
  nodup : ∀ i, (contents i).Nodup
  disjoint : ∀ {i j t}, t ∈ contents i → t ∈ contents j → i = j

section Families

variable {ι τ : Type} [DecidableEq ι] {contents : ι → List τ} {i j k : ι} {t x : τ} {l l' : List τ}

omit [DecidableEq ι] in
theorem exclusive_empty : Exclusive (fun _ : ι => ([] : List τ)) :=
  ⟨fun _ => List.nodup_nil, fun h => absurd h List.not_mem_nil⟩

theorem mem_snoc :
    t ∈ Function.update contents i (contents i ++ [x]) k ↔ t ∈ contents k ∨ k = i ∧ t = x := by
  by_cases hk : k = i
  · subst hk; simp
  · simp [hk]

theorem Exclusive.snoc (h : Exclusive contents) (i : ι) (hx : ∀ k, x ∉ contents k) :
    Exclusive (Function.update contents i (contents i ++ [x])) where
  nodup := fun k => by
    by_cases hk : k = i
    · subst hk
      rw [Function.update_self]
      exact List.nodup_append'.mpr ⟨h.nodup k, List.nodup_singleton x, by simpa using hx k⟩
    · rw [Function.update_of_ne hk]
      exact h.nodup k
  disjoint := fun hi hj => by
    obtain hi' | ⟨hi', rfl⟩ := mem_snoc.mp hi <;> obtain hj' | ⟨hj', ht⟩ := mem_snoc.mp hj
    · exact h.disjoint hi' hj'
    · exact absurd (ht ▸ hi') (hx _)
    · exact absurd hj' (hx _)
    · exact hi'.trans hj'.symm

def shift (contents : ι → List τ) (i j : ι) (l l' : List τ) : ι → List τ :=
  Function.update (Function.update contents i l') j (contents j ++ l)

theorem mem_shift (hc : contents i = l ++ l') : t ∈ shift contents i j l l' k ↔
    t ∈ contents k ∧ k ≠ i ∨ k = j ∧ (t ∈ contents j ∨ t ∈ l) ∨ k = i ∧ k ≠ j ∧ t ∈ l' := by
  unfold shift
  by_cases hj : k = j
  · subst hj
    by_cases hi : k = i
    · subst hi; simp
    · simp [hi]
  · by_cases hi : k = i
    · subst hi; simp [hj]
    · simp [hi, hj]

theorem exists_mem_shift (hij : i ≠ j) (hc : contents i = l ++ l') :
    (∃ k, t ∈ shift contents i j l l' k) ↔ ∃ k, t ∈ contents k := by
  constructor
  · rintro ⟨k, hk⟩
    obtain ⟨hk, -⟩ | ⟨rfl, hk | hk⟩ | ⟨rfl, -, hk⟩ := (mem_shift hc).mp hk
    · exact ⟨k, hk⟩
    · exact ⟨k, hk⟩
    · exact ⟨i, by rw [hc]; exact List.mem_append_left l' hk⟩
    · exact ⟨k, by rw [hc]; exact List.mem_append_right l hk⟩
  · rintro ⟨k, hk⟩
    by_cases hki : k = i
    · subst hki
      rw [hc] at hk
      obtain hk | hk := List.mem_append.mp hk
      · exact ⟨j, (mem_shift hc).mpr (.inr (.inl ⟨rfl, .inr hk⟩))⟩
      · exact ⟨k, (mem_shift hc).mpr (.inr (.inr ⟨rfl, hij, hk⟩))⟩
    · exact ⟨k, (mem_shift hc).mpr (.inl ⟨hk, hki⟩)⟩

theorem Exclusive.shift (h : Exclusive contents) (hij : i ≠ j) (hc : contents i = l ++ l') :
    Exclusive (shift contents i j l l') where
  nodup := fun k => by
    have hi := h.nodup i
    rw [hc, List.nodup_append'] at hi
    unfold Reactor.shift
    by_cases hj : k = j
    · subst hj
      rw [Function.update_self, List.nodup_append']
      refine ⟨h.nodup k, hi.1, fun t ht hl => hij (h.disjoint ?_ ht)⟩
      rw [hc]
      exact List.mem_append_left l' hl
    · rw [Function.update_of_ne hj]
      by_cases hk : k = i
      · subst hk
        rw [Function.update_self]
        exact hi.2.1
      · rw [Function.update_of_ne hk]
        exact h.nodup k
  disjoint := by
    have hi := h.nodup i
    rw [hc, List.nodup_append'] at hi
    -- where the element was: it moved only if it is in the first part
    have back : ∀ {k t}, t ∈ Reactor.shift contents i j l l' k → t ∈ contents k ∧ (k = i → t ∉ l) ∨
        k = j ∧ t ∈ contents i ∧ t ∈ l := by
      intro k t hk
      obtain ⟨hk, hne⟩ | ⟨rfl, hk | hk⟩ | ⟨rfl, -, hk⟩ := (mem_shift hc).mp hk
      · exact .inl ⟨hk, fun he => absurd he hne⟩
      · exact .inl ⟨hk, fun he => absurd he.symm hij⟩
      · exact .inr ⟨rfl, by rw [hc]; exact List.mem_append_left l' hk, hk⟩
      · exact .inl ⟨by rw [hc]; exact List.mem_append_right l hk, fun _ ht => hi.2.2 ht hk⟩
    intro p q t hp hq
    obtain ⟨hp', hpl⟩ | ⟨hp', hi', hpl⟩ := back hp <;>
      obtain ⟨hq', hql⟩ | ⟨hq', hi', hql⟩ := back hq
    · exact h.disjoint hp' hq'
    · exact absurd hql (hpl (h.disjoint hp' hi'))
    · exact absurd hpl (hql (h.disjoint hq' hi'))
    · exact hp'.trans hq'.symm

end Families

inductive Place (κ ω : Type) where
  | waiting (c : κ)
  | ready (w : ω)
  | done (w : ω)
  | lost (w : ω)
  deriving DecidableEq

/-- A reactor. The tasks that were sent on each channel and the workers that
have failed are kept as a record. -/
structure State (κ ω τ : Type) where
  tasks : Place κ ω → List τ
  sent : κ → List τ
  failed : ω → Prop

inductive Action (κ ω τ : Type) where
  | submit (c : κ) (t : τ)
  | take (w : ω) (c : κ)
  | run (w : ω)
  | fail (w : ω)

section Reactor

variable {κ ω τ : Type} [DecidableEq κ] [DecidableEq ω]

def State.initial : State κ ω τ := ⟨fun _ => [], fun _ => [], fun _ => False⟩

/-- A new task is submitted on a channel; a worker takes over all that waits on
a channel, runs the first task that it has ready, or fails and loses them all.
The tasks that a step runs are listed. -/
inductive Step (s : State κ ω τ) : Action κ ω τ → List τ → State κ ω τ → Prop where
  | submit {c t} (hn : ∀ c', t ∉ s.sent c') : Step s (.submit c t) [] { s with
      tasks := Function.update s.tasks (.waiting c) (s.tasks (.waiting c) ++ [t])
      sent := Function.update s.sent c (s.sent c ++ [t]) }
  | take {w c} (hw : ¬s.failed w) : Step s (.take w c) [] { s with
      tasks := shift s.tasks (.waiting c) (.ready w) (s.tasks (.waiting c)) [] }
  | run {w t rest} (hw : ¬s.failed w) (hr : s.tasks (.ready w) = t :: rest) :
      Step s (.run w) [t] { s with
        tasks := shift s.tasks (.ready w) (.done w) [t] rest }
  | fail {w} (hw : ¬s.failed w) : Step s (.fail w) [] { s with
      tasks := shift s.tasks (.ready w) (.lost w) (s.tasks (.ready w)) []
      failed := Function.update s.failed w True }

inductive Trace : State κ ω τ → List (Action κ ω τ) → List τ → State κ ω τ → Prop where
  | nil {s} : Trace s [] [] s
  | cons {s a ran s' actions ran' s''} (h : Step s a ran s') (hs : Trace s' actions ran' s'') :
      Trace s (a :: actions) (ran ++ ran') s''

theorem Trace.append {s s' s'' : State κ ω τ} {actions actions' : List (Action κ ω τ)}
    {ran ran' : List τ} (h : Trace s actions ran s') (h' : Trace s' actions' ran' s'') :
    Trace s (actions ++ actions') (ran ++ ran') s'' := by
  induction h with
  | nil => exact h'
  | cons hs _ ih =>
    rw [List.append_assoc]
    exact .cons hs (ih h')

theorem Trace.single {s s' : State κ ω τ} {a : Action κ ω τ} {ran : List τ} (h : Step s a ran s') :
    Trace s [a] ran s' := by
  simpa using Trace.cons h .nil

theorem Trace.invariant (I : State κ ω τ → Prop) {s s' : State κ ω τ}
    {actions : List (Action κ ω τ)} {ran : List τ}
    (hstep : ∀ s a ran s', Step s a ran s' → I s → I s') (h : Trace s actions ran s') (hs : I s) :
    I s' := by
  induction h with
  | nil => exact hs
  | cons h _ ih => exact ih (hstep _ _ _ _ h hs)

def State.given (s : State κ ω τ) (w : ω) : List τ :=
  s.tasks (.done w) ++ s.tasks (.lost w) ++ s.tasks (.ready w)

/-- No task is lost but with a worker that fails, and none is in two places. -/
structure Sound (s : State κ ω τ) : Prop where
  tasks : Exclusive s.tasks
  sent : Exclusive s.sent
  known : ∀ t, (∃ p, t ∈ s.tasks p) ↔ ∃ c, t ∈ s.sent c
  lost : ∀ w, ¬s.failed w → s.tasks (.lost w) = []
  ready : ∀ w, s.failed w → s.tasks (.ready w) = []

omit [DecidableEq κ] [DecidableEq ω] in
theorem sound_initial : Sound (State.initial : State κ ω τ) :=
  ⟨exclusive_empty, exclusive_empty, by simp [State.initial], fun _ _ => rfl, fun _ _ => rfl⟩

theorem sound_step {s s' : State κ ω τ} {a : Action κ ω τ} {ran : List τ} (h : Step s a ran s')
    (hs : Sound s) :
    Sound s' := by
  cases h with
  | @submit c t hn =>
    have ht : ∀ p, t ∉ s.tasks p := fun p hp => by
      obtain ⟨c', hc'⟩ := (hs.known t).mp ⟨p, hp⟩
      exact hn c' hc'
    refine ⟨hs.tasks.snoc _ ht, hs.sent.snoc c hn, fun x => ?_, fun w hw => ?_, fun w hw => ?_⟩
    · simp only [mem_snoc, exists_or, hs.known x]
      simp
    · simpa using hs.lost w hw
    · simpa using hs.ready w hw
  | @take w c hw =>
    have hc : s.tasks (.waiting c) = s.tasks (.waiting c) ++ [] := (List.append_nil _).symm
    refine ⟨hs.tasks.shift (by simp) hc, hs.sent, fun x => ?_, fun v hv => ?_, fun v hv => ?_⟩
    · rw [exists_mem_shift (by simp) hc, hs.known]
    · simpa [shift] using hs.lost v hv
    · have hne : v ≠ w := fun he => hw (he ▸ hv)
      simpa [shift, hne] using hs.ready v hv
  | @run w t rest hw hr =>
    have hc : s.tasks (.ready w) = [t] ++ rest := hr
    refine ⟨hs.tasks.shift (by simp) hc, hs.sent, fun x => ?_, fun v hv => ?_, fun v hv => ?_⟩
    · rw [exists_mem_shift (by simp) hc, hs.known]
    · simpa [shift] using hs.lost v hv
    · have hne : v ≠ w := fun he => hw (he ▸ hv)
      simpa [shift, hne] using hs.ready v hv
  | @fail w hw =>
    have hc : s.tasks (.ready w) = s.tasks (.ready w) ++ [] := (List.append_nil _).symm
    refine ⟨hs.tasks.shift (by simp) hc, hs.sent, fun x => ?_, fun v hv => ?_, fun v hv => ?_⟩
    · rw [exists_mem_shift (by simp) hc, hs.known]
    · by_cases hne : v = w
      · subst hne
        simp at hv
      · simp only [Function.update_of_ne hne] at hv
        simpa [shift, hne] using hs.lost v hv
    · by_cases hne : v = w
      · subst hne
        simp [shift]
      · simp only [Function.update_of_ne hne] at hv
        simpa [shift, hne] using hs.ready v hv

def State.taken (s : State κ ω τ) : Action κ ω τ → ω → List τ
  | .take w c, v => if v = w then s.tasks (.waiting c) else []
  | .submit _ _, _ | .run _, _ | .fail _, _ => []

theorem given_step {s s' : State κ ω τ} {a : Action κ ω τ} {ran : List τ} (h : Step s a ran s')
    (hs : Sound s) (w : ω) : s'.given w = s.given w ++ s.taken a w := by
  cases h with
  | submit _ => simp [State.given, State.taken]
  | @take v c _ =>
    by_cases hv : w = v
    · subst hv; simp [State.given, State.taken, shift]
    · simp [State.given, State.taken, shift, hv]
  | @run v t rest hf hr =>
    by_cases hv : w = v
    · subst hv; simp [State.given, State.taken, shift, hr, hs.lost w hf]
    · simp [State.given, State.taken, shift, hv]
  | @fail v _ =>
    by_cases hv : w = v
    · subst hv; simp [State.given, State.taken, shift]
    · simp [State.given, State.taken, shift, hv]

theorem done_step {s s' : State κ ω τ} {a : Action κ ω τ} {ran : List τ} (h : Step s a ran s')
    (t : τ) :
    (∃ w, t ∈ s'.tasks (.done w)) ↔ (∃ w, t ∈ s.tasks (.done w)) ∨ t ∈ ran := by
  cases h with
  | submit _ | take _ | fail _ => simp [shift]
  | @run w x rest _ _ =>
    simp only [shift, List.mem_singleton]
    constructor
    · rintro ⟨v, hv⟩
      by_cases hvw : v = w
      · subst hvw
        rw [Function.update_self, List.mem_append, List.mem_singleton] at hv
        exact hv.imp_left fun hd => ⟨v, hd⟩
      · rw [Function.update_of_ne (by simpa using hvw), Function.update_of_ne (by simp)] at hv
        exact .inl ⟨v, hv⟩
    · rintro (⟨v, hv⟩ | rfl)
      · by_cases hvw : v = w
        · subst hvw
          exact ⟨v, by simp [hv]⟩
        · exact ⟨v, by simpa [hvw] using hv⟩
      · exact ⟨w, by simp⟩

theorem Trace.runs_once {s s' : State κ ω τ} {actions : List (Action κ ω τ)} {ran : List τ}
    (h : Trace s actions ran s') (hs : Sound s) :
    ran.Nodup ∧ (∀ t ∈ ran, ∀ w, t ∉ s.tasks (.done w)) ∧
      ∀ t, (∃ w, t ∈ s'.tasks (.done w)) ↔ (∃ w, t ∈ s.tasks (.done w)) ∨ t ∈ ran := by
  induction h with
  | nil => exact ⟨List.nodup_nil, fun _ ht => absurd ht List.not_mem_nil, fun _ => by simp⟩
  | @cons s a ran s₁ actions ran' s' h _ ih =>
    obtain ⟨hnd, hnew, hdone⟩ := ih (sound_step h hs)
    have hold : ∀ t ∈ ran', ∀ w, t ∉ s.tasks (.done w) := fun t ht w hw => by
      obtain ⟨v, hv⟩ := (done_step h t).mpr (.inl ⟨w, hw⟩)
      exact hnew t ht v hv
    have hfirst : ran.Nodup ∧ ∀ t ∈ ran, ∀ w, t ∉ s.tasks (.done w) := by
      cases h with
      | submit _ | take _ | fail _ => exact ⟨List.nodup_nil, fun _ ht => absurd ht List.not_mem_nil⟩
      | @run w x rest _ hr =>
        refine ⟨List.nodup_singleton x, fun t ht v hv => ?_⟩
        rw [List.mem_singleton.mp ht] at hv
        have hp := hs.tasks.disjoint hv (by rw [hr]; exact List.mem_cons_self)
        cases hp
    refine ⟨List.nodup_append'.mpr ⟨hfirst.1, hnd, fun t ht ht' => ?_⟩, fun t ht => ?_, fun t => ?_⟩
    · obtain ⟨w, hw⟩ := (done_step h t).mpr (.inr ht)
      exact hnew t ht' w hw
    · exact (List.mem_append.mp ht).elim (hfirst.2 t) (hold t)
    · rw [hdone, done_step h, List.mem_append, or_assoc]

variable [DecidableEq τ]

/-- The tasks of one channel that a worker was given, and after them those
that wait, are in the order in which they were sent. -/
def Ordered (s : State κ ω τ) : Prop :=
  ∀ w c,
    List.Sublist ((s.given w).filter (fun t => t ∈ s.sent c) ++ s.tasks (.waiting c)) (s.sent c)

omit [DecidableEq κ] [DecidableEq ω] in
theorem filter_waiting {s : State κ ω τ} (hs : Sound s) (ho : Ordered s) (w : ω) (c c' : κ)
    [Decidable (c = c')] :
    (s.tasks (.waiting c)).filter (fun t => t ∈ s.sent c') = if c = c' then
      s.tasks (.waiting c) else [] := by
  have hsent : ∀ t ∈ s.tasks (.waiting c), t ∈ s.sent c := fun t ht =>
    (ho w c).subset (List.mem_append_right _ ht)
  split
  · next hc =>
    subst hc
    rw [List.filter_eq_self]
    exact fun t ht => decide_eq_true (hsent t ht)
  · next hc =>
    rw [List.filter_eq_nil_iff]
    intro t ht ht'
    exact hc (hs.sent.disjoint (hsent t ht) (of_decide_eq_true ht'))

theorem ordered_step {s s' : State κ ω τ} {a : Action κ ω τ} {ran : List τ} (h : Step s a ran s')
    (hs : Sound s) (ho : Ordered s) : Ordered s' := by
  intro w c
  rw [given_step h hs w]
  cases h with
  | @submit c' t hn =>
    have hnew : t ∉ s.given w := by
      have hp : ∀ p, t ∉ s.tasks p := fun p hp => by
        obtain ⟨k, hk⟩ := (hs.known t).mp ⟨p, hp⟩
        exact hn k hk
      simp [State.given, hp]
    have hfilter :
        (s.given w).filter (fun x => x ∈ Function.update s.sent c' (s.sent c' ++ [t]) c) =
        (s.given w).filter (fun x => x ∈ s.sent c) := by
      apply List.filter_congr
      intro x hx
      rw [decide_eq_decide, mem_snoc]
      exact ⟨fun h => h.resolve_right fun he => hnew (he.2 ▸ hx), .inl⟩
    simp only [State.taken, List.append_nil, hfilter]
    by_cases hc : c = c'
    · subst hc
      simp only [Function.update_self, ← List.append_assoc]
      exact (ho w c).append (.refl _)
    · have hp : (Place.waiting c : Place κ ω) ≠ .waiting c' := by simpa using hc
      rw [Function.update_of_ne hp, Function.update_of_ne hc]
      exact ho w c
  | @take v c' _ =>
    simp only [State.taken, List.filter_append]
    by_cases hv : w = v
    · subst hv
      rw [if_pos rfl, filter_waiting hs ho w c' c]
      by_cases hc : c' = c
      · subst hc
        simpa [shift] using ho w c'
      · simpa [shift, hc, Ne.symm hc] using ho w c
    · rw [if_neg hv, List.filter_nil, List.append_nil]
      by_cases hc : c' = c
      · subst hc
        simpa [shift] using (List.sublist_append_left _ _).trans (ho w c')
      · simpa [shift, Ne.symm hc] using ho w c
  | run _ _ | fail _ => simpa [State.taken, shift] using ho w c

omit [DecidableEq κ] [DecidableEq ω] in
theorem ordered_initial : Ordered (State.initial : State κ ω τ) := fun _ _ => by
  simp [State.initial, State.given]

/-- Whatever the workers do, a reactor keeps each task in one place and the
tasks of a channel in order within each worker. -/
theorem Trace.kept {s : State κ ω τ} {actions : List (Action κ ω τ)} {ran : List τ}
    (h : Trace .initial actions ran s) : Sound s ∧ Ordered s :=
  h.invariant (fun s => Sound s ∧ Ordered s)
    (fun _ _ _ _ hstep hs => ⟨sound_step hstep hs.1, ordered_step hstep hs.1 hs.2⟩)
    ⟨sound_initial, ordered_initial⟩

end Reactor

end AsyncBerkeley.Reactor
