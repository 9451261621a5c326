import AsyncBerkeley.Evolution
import AsyncBerkeley.Polls

namespace AsyncBerkeley.EventLoop

open ListUpdates Events InterestList SocketHandles PollMultiplexer Operations Executor Passes Steps
  Evolution Polls

variable {s s' : State} {a : Action}

def connected (s : State) (o : TaskId) : Bool :=
  (s.ops[o]?.map (fun op => decide (op.status = .connected))).getD false

def starts : Action → TaskId → Bool
  | .start o, o' => o == o'
  | _, _ => false

theorem starts_of_issues (h : issues a = true) (o : TaskId) : starts a o = false := by
  cases a <;> first | rfl | cases h

/-- While an operation is connected and not started, the next step is its start. -/
def Prompt (s : State) (a : Action) : Prop :=
  ∀ o < s.ops.length, connected s o = true → starts a o = true

instance : Decidable (Prompt s a) := inferInstanceAs (Decidable (∀ o < s.ops.length, _ → _))

theorem Prompt.starts (hp : Prompt s a) {o : TaskId} {op : Operation} (hop : s.ops[o]? = some op)
    (hc : op.status = .connected) : starts a o = true :=
  hp o (List.getElem?_eq_some_iff.mp hop).1 (by simp [connected, hop, hc])

theorem connected_step (hp : Prompt s a) (h : Step s a s') {o : TaskId} {op : Operation}
    (hop : s'.ops[o]? = some op) (hc : op.status = .connected) : a = .connect o := by
  -- no other step leaves an operation that was connected as it is
  have old : s.ops[o]? = some op → starts a o = true := fun hop => hp.starts hop hc
  cases h with
  | issue ha h =>
    obtain ⟨new, he, hnew⟩ := h.ops
    rw [he] at hop
    obtain hm | hm := List.mem_append.mp (List.mem_of_getElem? hop)
    · obtain ⟨o', hop'⟩ := List.mem_iff_getElem?.mp hm
      have hst := hp.starts hop' hc
      rw [starts_of_issues ha] at hst
      cases hst
    · rw [(hnew op hm).1] at hc
      cases hc
  | register _ _ _ _ _ | abandon _ _ | idle _ _ _ =>
    obtain ⟨rfl, -⟩ | ⟨-, hop⟩ := getElem?_set_cases hop
    · rfl
    · cases old hop
  | inline _ _ _ hcomp =>
    obtain ⟨outcome, he⟩ := hcomp.ops
    rw [he] at hop
    obtain ⟨-, rfl⟩ | ⟨hne, hop⟩ := getElem?_set_cases hop
    · cases hc
    · exact absurd (beq_iff_eq.mp (old hop)) hne
  | queue _ _ _ _ _ =>
    obtain ⟨-, rfl⟩ | ⟨hne, hop⟩ := getElem?_set_cases hop
    · cases hc
    · exact absurd (beq_iff_eq.mp (old hop)) hne
  | execute _ _ _ hcomp =>
    obtain ⟨outcome, he⟩ := hcomp.ops
    rw [he] at hop
    obtain ⟨-, rfl⟩ | ⟨-, hop⟩ := getElem?_set_cases hop
    · cases hc
    · cases old hop
  | snapshot | polled _ _ _ _ | pollThrew _ _ | passed _ _ _ | passThrew _ _ _ | finish _ _ _ =>
    cases old hop

/-- Every task in a queue can be woken up, and so can the operation that is
about to be started. -/
structure Attended (s : State) : Prop where
  queued : ∀ fd d, s.mux.queue fd d ≠ [] → s.mux.list.Awaits fd d
  connected : ∀ (o : TaskId) (op : Operation) (d : Direction) (i : Nat), s.ops[o]? = some op →
    op.status = .connected → op.trigger = d.trigger → op.demux = some i →
    s.mux.list.Awaits (descriptor s.handles op.socket) d

theorem attended_initial (config : Config) : Attended (initial config) :=
  ⟨by simp [initial, Multiplexer.queue], by simp [initial]⟩

theorem attended_queued_step (hs : Sane s) (ha : Attended s) (hn : ¬Threw s') (h : Step s a s')
    {fd : Fd} {d : Direction} (hq : s'.mux.queue fd d ≠ []) : s'.mux.list.Awaits fd d := by
  cases h with
  | issue _ h =>
    rw [h.mux] at hq ⊢
    exact ha.queued fd d hq
  | inline _ _ _ hc | execute _ _ _ hc =>
    rw [hc.mux] at hq ⊢
    exact ha.queued fd d hq
  | register _ _ _ ht _ =>
    rw [queue_makeRoom] at hq
    simp only [ht]
    exact (awaits_register _ _ _ _ _).mpr (.inr (ha.queued fd d hq))
  | abandon _ _ =>
    rw [queue_makeRoom] at hq
    exact ha.queued fd d hq
  | @queue o op d' i demux hop hst ht hd hi =>
    have hp := hs.pointers o op i hop hd
    subst hp
    rw [queue_push ht hi] at hq
    split at hq
    · next he =>
      rw [he.1, he.2]
      exact ha.connected o op d' _ hop hst ht hd
    · exact ha.queued fd d hq
  | passed _ _ hx =>
    simp only [passed, handleEvents_queue hx, passed_awaits hx] at hq ⊢
    split at hq
    · exact absurd rfl hq
    · next he => exact ⟨ha.queued fd d hq, Bool.eq_false_iff.mpr (mt emptied_of_cleared he)⟩
  | passThrew hw _ _ => exact absurd (threw_passThrew hw) hn
  | idle _ _ _ | snapshot | polled _ _ _ _ | pollThrew _ _ | finish _ _ _ => exact ha.queued fd d hq

theorem attended_step (hs : Sane s) (ha : Attended s) (hp : Prompt s a) (hn : ¬Threw s')
    (h : Step s a s') :
    Attended s' := by
  refine ⟨fun _ _ hq => attended_queued_step hs ha hn h hq, ?_⟩
  intro o op d i hop hc ht hd
  obtain rfl := connected_step hp h hop hc
  cases h with
  | issue ha _ => cases ha
  | register hop' _ _ ht' _ =>
    obtain ⟨-, rfl⟩ | ⟨hne, -⟩ := getElem?_set_cases hop
    · simp only [ht']
      exact (awaits_register _ _ _ _ _).mpr
        (.inl ⟨rfl, Direction.trigger_injective (ht.symm.trans ht')⟩)
    · exact absurd rfl hne
  | abandon _ _ =>
    obtain ⟨-, rfl⟩ | ⟨hne, -⟩ := getElem?_set_cases hop
    · cases hc
    · exact absurd rfl hne
  | idle hop' hst _ =>
    obtain ⟨-, rfl⟩ | ⟨hne, -⟩ := getElem?_set_cases hop
    · rw [hs.created _ _ hop' hst] at hd
      cases hd
    · exact absurd rfl hne

theorem run_attended {config : Config} {tr : List Action} (h : run config tr = .ok s)
    (hp : Runs.Along step Prompt (initial config) tr) (hn : ¬Threw s) : Attended s := by
  refine (Runs.run_invariant_along (fun t => Sane t ∧ (¬Threw t → Attended t)) Prompt ?_ h hp
    ⟨sane_initial config, fun _ => attended_initial config⟩).2 hn
  rintro t a t' ⟨hs, ht⟩ hprompt hstep
  have hst := step_spec hstep
  exact ⟨sane_step hs hst,
    fun hn' => attended_step hs (ht (mt (threw_step hst) hn')) hprompt hn' hst⟩

/-- What is known of a call of `wait_for` from its snapshot on: once it has
polled, its list is empty only if the snapshot was. -/
def Snapshotted (interval : Int) (list : List Pollfd) (wait : Wait) : Prop :=
  wait.interval = interval ∧ (wait.phase = .polling → wait.list = list) ∧
    (wait.list = [] → list = [])

theorem snapshotted_advance {interval : Int} {list : List Pollfd} {wait wait' : Wait}
    (hi : interval < 0) (hw : Snapshotted interval list wait) (h : Advance wait wait') :
    Snapshotted interval list wait' := by
  obtain ⟨rfl, hl, he⟩ := hw
  cases h with
  | polled hp hallowed hr =>
    rw [hl hp] at hallowed hr
    exact ⟨rfl, nofun, poll_ne_nil hi hallowed hr⟩
  | threw _ | passed _ | returned _ _ => exact ⟨rfl, nofun, he⟩
  | popped _ => exact ⟨rfl, hl, he⟩

theorem snapshotted_run {tr : List Action} {interval : Int} {wait : Wait}
    (h : Runs.run step s (.snapshot interval :: tr) = .ok s') (hi : interval < 0)
    (hw : s'.waits[s.waits.length]? = some wait) :
    Snapshotted interval (copyActive s.mux.list.entries) wait := by
  obtain ⟨t, ht, h⟩ := Runs.run_cons_ok.mp h
  cases ht
  have kept : ∀ u a u', (∃ wait, u.waits[s.waits.length]? = some wait ∧
        Snapshotted interval (copyActive s.mux.list.entries) wait) → step u a = .ok u' →
      ∃ wait, u'.waits[s.waits.length]? = some wait ∧
        Snapshotted interval (copyActive s.mux.list.entries) wait := by
    rintro u a u' ⟨wait, hw, hsnap⟩ hstep
    obtain ⟨wait', hw', rfl | hadv⟩ := wait_forward (step_spec hstep) hw
    · exact ⟨wait', hw', hsnap⟩
    · exact ⟨wait', hw', snapshotted_advance hi hsnap hadv⟩
  obtain ⟨wait', hw', hsnap⟩ := Runs.run_invariant _ kept h
    ⟨{ interval := interval, list := copyActive s.mux.list.entries }, by simp [snapshot], rfl,
      fun _ => rfl, id⟩
  rw [hw] at hw'
  cases hw'
  exact hsnap

theorem not_threw_of_run {tr : List Action} (h : Runs.run step s tr = .ok s') (hn : ¬Threw s') :
    ¬Threw s := by
  intro ht
  exact hn (Runs.run_invariant Threw (fun _ _ _ ht h => threw_step (step_spec h) ht) h ht)

/-- In a prompt run every task in a queue is polled for, so that `wait` returns
zero only if no task was queued when it took its snapshot. -/
theorem pending_awaited (config : Config) (tr : List Action) (h : run config tr = .ok s)
    (hp : Runs.Along step Prompt (initial config) tr) (hn : ¬Threw s) :
    (∀ fd d, s.mux.queue fd d ≠ [] → s.mux.list.Awaits fd d) ∧
    ∀ tr₁ tr₂ interval s₁ wait, tr = tr₁ ++ .snapshot interval :: tr₂ → interval < 0 →
      run config tr₁ = .ok s₁ → s.waits[s₁.waits.length]? = some wait → wait.phase = .returned →
      wait.list.length = 0 → ∀ fd d, s₁.mux.queue fd d = [] := by
  refine ⟨(run_attended h hp hn).queued, ?_⟩
  rintro tr₁ tr₂ interval s₁ wait rfl hi h₁ hw - hl fd d
  obtain ⟨t, ht, hrest⟩ := Runs.run_append_ok.mp h
  cases h₁.symm.trans ht
  have hsnap := (snapshotted_run hrest hi hw).2.2 (List.length_eq_zero_iff.mp hl)
  by_contra hq
  have ha := (run_attended h₁ hp.append (not_threw_of_run hrest hn)).queued fd d hq
  rw [Interest.awaits_iff, Interest.events_eq_zero_of_copyActive_eq_nil _ _ hsnap, test_zero] at ha
  cases ha

theorem pending_awaited_echo : ∃ s s₁, run {} [.emplace 5#32, .set 0 .read, .connect 0, .start 0,
      .snapshot (-1), .poll 0 0 [.ready [POLLIN]], .pass 0 (fun _ => .ok 0),
      .execute 0 [.transferred 7], .finish 0, .snapshot (-1), .poll 1 0 [],
      .pass 1 (fun _ => .ok 0), .finish 1] = .ok s ∧
    run {} [.emplace 5#32, .set 0 .read, .connect 0, .start 0, .snapshot (-1),
      .poll 0 0 [.ready [POLLIN]],
      .pass 0 (fun _ => .ok 0), .execute 0 [.transferred 7], .finish 0] = .ok s₁ ∧
    (∀ fd d, s.mux.queue fd d ≠ [] → s.mux.list.Awaits fd d) ∧ ∀ fd d, s₁.mux.queue fd d = [] := by
  have h := pending_awaited {} [.emplace 5#32, .set 0 .read, .connect 0, .start 0,
    .snapshot (-1), .poll 0 0 [.ready [POLLIN]], .pass 0 (fun _ => .ok 0),
    .execute 0 [.transferred 7],
    .finish 0, .snapshot (-1), .poll 1 0 [], .pass 1 (fun _ => .ok 0), .finish 1] rfl (by decide)
    (by unfold Threw; decide)
  exact ⟨_, _, rfl, rfl, h.1,
    h.2 [.emplace 5#32, .set 0 .read, .connect 0, .start 0, .snapshot (-1),
    .poll 0 0 [.ready [POLLIN]], .pass 0 (fun _ => .ok 0), .execute 0 [.transferred 7], .finish 0] _
      (-1) _ _
    rfl (by decide) rfl rfl rfl rfl⟩

end AsyncBerkeley.EventLoop
