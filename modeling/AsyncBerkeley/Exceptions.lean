import AsyncBerkeley.EventLoop

namespace AsyncBerkeley.Exceptions

open Events InterestList SocketHandles PollMultiplexer Operations Executor Passes Steps Evolution
open EventLoop

/-- The events up to the one that throws touch no task: those before it drain
empty queues, and its own descriptor has no tasks. -/
def Undisturbed (getsockopt : Fd → Except Errno Int) (mux : Multiplexer) : List Pollfd → Prop
  | [] => True
  | event :: events =>
    if fails getsockopt event then ∀ d, mux.queue event.fd d = []
    else (∀ d, drains event.revents d = true → mux.queue event.fd d = []) ∧
      Undisturbed getsockopt mux events

/-- The tasks that were queued still are, and can still be woken up. -/
def Kept (mux mux' : Multiplexer) : Prop :=
  ∀ fd d, ∀ o ∈ mux.queue fd d, o ∈ mux'.queue fd d ∧ mux'.list.Awaits fd d

variable {getsockopt : Fd → Except Errno Int} {p : Pass} {event : Pollfd} {events : List Pollfd}

theorem undisturbed_congr {mux mux' : Multiplexer} (h : ∀ fd d, mux.queue fd d = mux'.queue fd d) :
    Undisturbed getsockopt mux events ↔ Undisturbed getsockopt mux' events := by
  induction events with
  | nil => rfl
  | cons event events ih => simp only [Undisturbed, h, ih]

theorem clears_of_fails (h : fails getsockopt event = true) (d : Direction) :
    clears event.revents d = true := by
  simp only [fails, Bool.and_eq_true] at h
  simp [clears, h.1]

theorem kept_round_threw {errno : Errno}
    (h : (handleEvent getsockopt p event).2 = some (.threw errno))
    (hinv : ∀ fd d, p.mux.queue fd d ≠ [] → p.mux.list.Awaits fd d) :
    Kept p.mux (handleEvent getsockopt p event).1.mux ↔ ∀ d, p.mux.queue event.fd d = [] := by
  have hq : ∀ fd d, (handleEvent getsockopt p event).1.mux.queue fd d = p.mux.queue fd d := by
    intro fd d
    obtain ⟨_, _, _, _, he⟩ | ⟨_, he⟩ := handleEvent_cases getsockopt p event
    · rw [he] at h
      cases h
    · rw [he]
      rfl
  have hi : ∀ fd d, (handleEvent getsockopt p event).1.mux.list.Awaits fd d ↔
      p.mux.list.Awaits fd d ∧ event.fd ≠ fd := by
    intro fd d
    rw [Interest.awaits_iff, Interest.awaits_iff, handleEvent_interest]
    simp [cleared, clears_of_fails (handleEvent_fails h)]
  constructor
  · intro hk d
    rw [List.eq_nil_iff_forall_not_mem]
    intro o ho
    exact ((hi event.fd d).mp (hk event.fd d o ho).2).2 rfl
  · intro hempty fd d o ho
    refine ⟨by rw [hq]; exact ho, (hi fd d).mpr ⟨hinv fd d (List.ne_nil_of_mem ho), ?_⟩⟩
    rintro rfl
    rw [hempty d] at ho
    cases ho

theorem awaited_round (h : (handleEvent getsockopt p event).2 = none)
    (hinv : ∀ fd d, p.mux.queue fd d ≠ [] → p.mux.list.Awaits fd d) :
    ∀ fd d, (handleEvent getsockopt p event).1.mux.queue fd d ≠ [] →
      (handleEvent getsockopt p event).1.mux.list.Awaits fd d := by
  intro fd d hq
  rw [handleEvent_queue h] at hq
  split at hq
  · exact absurd rfl hq
  · next he =>
    have hc := Bool.eq_false_iff.mpr (mt emptied_of_cleared he)
    have ha := hinv fd d hq
    rw [Interest.awaits_iff] at ha ⊢
    rw [handleEvent_interest, ha, hc]
    rfl

theorem kept_pass_iff {errno : Errno}
    (h : (handleEvents getsockopt p events).2 = some (.threw errno))
    (hinv : ∀ fd d, p.mux.queue fd d ≠ [] → p.mux.list.Awaits fd d) :
    Kept p.mux (handleEvents getsockopt p events).1.mux ↔ Undisturbed getsockopt p.mux events := by
  induction events generalizing p with
  | nil => cases h
  | cons event events ih =>
    cases hx : (handleEvent getsockopt p event).2 with
    | some exit =>
      rw [handleEvents_cons_of_some hx] at h ⊢
      rw [Undisturbed, if_pos (handleEvent_fails h)]
      exact kept_round_threw h hinv
    | none =>
      rw [handleEvents_cons_of_none hx] at h ⊢
      rw [Undisturbed, if_neg (by simp [handleEvent_not_fails hx])]
      have hq := handleEvent_queue hx
      -- nothing is moved exactly when the queues that the event drains are empty
      have same : (∀ d, drains event.revents d = true → p.mux.queue event.fd d = []) →
          ∀ fd d, p.mux.queue fd d = (handleEvent getsockopt p event).1.mux.queue fd d := by
        intro hd fd d
        rw [hq]
        split
        · next he =>
          simp only [emptied, List.any_cons, List.any_nil, Bool.or_false, Bool.and_eq_true,
            beq_iff_eq] at he
          obtain ⟨rfl, he⟩ := he
          exact hd d he
        · rfl
      have hrest := ih h (awaited_round hx hinv)
      constructor
      · intro hk
        have hd : ∀ d, drains event.revents d = true → p.mux.queue event.fd d = [] := by
          intro d hd
          rw [List.eq_nil_iff_forall_not_mem]
          intro o ho
          have ho' := handleEvents_mem_queue (hk event.fd d o ho).1
          rw [hq, if_pos (by simp [emptied, hd])] at ho'
          cases ho'
        refine ⟨hd, (undisturbed_congr (same hd)).mpr (hrest.mp fun fd d o ho => hk fd d o ?_)⟩
        rw [same hd]
        exact ho
      · rintro ⟨hd, hu⟩ fd d o ho
        rw [same hd] at ho
        exact hrest.mpr ((undisturbed_congr (same hd)).mp hu) fd d o ho

variable {s s' : State} {a : Action}

theorem set_failed {waits : List Wait} {v w : Nat} {old new wait wait' : Wait}
    (hv : waits[v]? = some old) (hw : waits[w]? = some wait) (hf : failed wait.phase = false)
    (hw' : (waits.set v new)[w]? = some wait') (hf' : failed wait'.phase = true) :
    v = w ∧ old = wait ∧ wait' = new := by
  by_cases hvw : v = w
  · subst hvw
    rw [List.getElem?_set_self (List.getElem?_eq_some_iff.mp hv).1] at hw'
    exact ⟨rfl, Option.some.inj (hv.symm.trans hw), (Option.some.inj hw').symm⟩
  · rw [List.getElem?_set_ne hvw, hw] at hw'
    cases hw'
    rw [hf] at hf'
    cases hf'

/-- When a call of `wait_for` exits by an exception, every task that was queued
is kept exactly when `poll` threw or no event up to the one that throws touches a task. -/
theorem throw_keeps_iff {w : Nat} {wait wait' : Wait}
    (hinv : ∀ fd d, s.mux.queue fd d ≠ [] → s.mux.list.Awaits fd d) (h : step s a = .ok s')
    (hw : s.waits[w]? = some wait) (hf : failed wait.phase = false)
    (hw' : s'.waits[w]? = some wait') (hf' : failed wait'.phase = true) :
    Kept s.mux s'.mux ↔ ∀ getsockopt, a = .pass w getsockopt →
      Undisturbed getsockopt s.mux wait.list := by
  have changed : s'.waits ≠ s.waits := by
    intro he
    rw [he, hw] at hw'
    cases hw'
    rw [hf] at hf'
    cases hf'
  cases step_spec h with
  | issue _ h => exact absurd h.waits changed
  | inline _ _ _ hc => exact absurd hc.waits changed
  | register _ _ _ _ _ | abandon _ _ | idle _ _ _ | queue _ _ _ _ _ => exact absurd rfl changed
  | snapshot =>
    have hlt := (List.getElem?_eq_some_iff.mp hw).1
    rw [snapshot, List.getElem?_append_left hlt, hw] at hw'
    cases hw'
    rw [hf] at hf'
    cases hf'
  | pollThrew _ _ =>
    refine ⟨fun _ _ ha => (by cases ha), fun _ fd d o ho => ⟨ho, hinv fd d (List.ne_nil_of_mem ho)⟩⟩
  | passThrew hv hp hx =>
    obtain ⟨rfl, rfl, -⟩ := set_failed hv hw hf hw' hf'
    refine (kept_pass_iff hx hinv).trans ⟨fun hu _ ha => ?_, fun hu => hu _ rfl⟩
    cases ha
    exact hu
  | polled hv _ _ _ | passed hv _ _ | finish hv _ _ =>
    obtain ⟨-, -, rfl⟩ := set_failed hv hw hf hw' hf'
    cases hf'
  | execute hv _ _ hc =>
    rw [hc.waits] at hw'
    obtain ⟨-, rfl, rfl⟩ := set_failed hv hw hf hw' hf'
    exact absurd hf' (by rw [hf]; decide)

/-- A task moved for an earlier event is lost when a later one throws. -/
theorem throw_loses : ¬ ∀ (s : State) (a : Action) (s' : State) (w : Nat) (wait wait' : Wait),
    (∀ fd d, s.mux.queue fd d ≠ [] → s.mux.list.Awaits fd d) → step s a = .ok s' →
    s.waits[w]? = some wait → failed wait.phase = false → s'.waits[w]? = some wait' →
    failed wait'.phase = true → Kept s.mux s'.mux := by
  intro h
  have hinv := (@run_attended _ {} [.emplace 5#32, .emplace 6#32, .set 0 .read, .set 1 .read,
    .connect 0, .start 0, .connect 1, .start 1, .snapshot (-1),
    .poll 0 0 [.ready [POLLIN, POLLERR]]] rfl
    (by decide) (by unfold Threw; decide)).queued
  have hk := h _ (.pass 0 (fun _ => .error ⟨105, by decide⟩)) _ 0 _ _ hinv rfl rfl rfl rfl rfl
  exact absurd (hk 5#32 .read 0 (by decide)).1 (by decide)

theorem throw_keeps_other_descriptor :
    ∃ s s', run {} [.emplace 5#32, .emplace 6#32, .set 0 .read, .set 1 .read,
      .connect 0, .start 0, .connect 1, .start 1, .snapshot (-1), .snapshot (-1),
      .poll 0 0 [.ready [POLLIN, 0#16]], .pass 0 (fun _ => .ok 0), .execute 0 [.transferred 7],
      .finish 0, .poll 1 0 [.ready [POLLERR, 0#16]]] = .ok s ∧
    step s (.pass 1 (fun _ => .error ⟨105, by decide⟩)) = .ok s' ∧ 1 ∈ s.mux.queue 6#32 .read ∧
    Kept s.mux s'.mux := by
  have hinv := (@run_attended _ {} [.emplace 5#32, .emplace 6#32, .set 0 .read, .set 1 .read,
    .connect 0, .start 0, .connect 1, .start 1, .snapshot (-1), .snapshot (-1),
    .poll 0 0 [.ready [POLLIN, 0#16]], .pass 0 (fun _ => .ok 0), .execute 0 [.transferred 7],
    .finish 0, .poll 1 0 [.ready [POLLERR, 0#16]]] rfl (by decide) (by unfold Threw; decide)).queued
  refine ⟨_, _, rfl, rfl, by decide, (throw_keeps_iff (w := 1)
    (a := .pass 1 (fun _ => .error ⟨105, by decide⟩)) hinv rfl rfl rfl rfl rfl).mpr ?_⟩
  intro getsockopt ha
  cases ha
  exact fun d => by cases d <;> rfl

end AsyncBerkeley.Exceptions
