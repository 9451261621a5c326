import Mathlib.Algebra.BigOperators.Group.List.Basic
import AsyncBerkeley.EventLoop
import AsyncBerkeley.ExecutionOrder
import AsyncBerkeley.Sessions

namespace AsyncBerkeley.MainLoop

open Events InterestList SocketHandles PollMultiplexer Operations Steps Evolution Lifetimes
  ReactorRuns Polls Receivers EventLoop ExecutionOrder EchoServer Sessions
open Executor hiding step connect start execute initial

def action (σ : Server) : Move → Option Action
  | .perform i answers _ _ => σ.calls[i]?.map (Call.action answers)
  | .connect o => some (.connect o)
  | .start o => some (.start o)
  | .snapshot interval => some (.snapshot interval)
  | .poll w begin answers => some (.poll w begin answers)
  | .pass w getsockopt => some (.pass w getsockopt)
  | .execute w answers _ => some (.execute w answers)
  | .finish w => some (.finish w)

/-- An operation is started before anything else happens once it is connected. -/
def Starts (σ : Server) (m : Move) : Prop := ∀ a ∈ action σ m, Prompt σ.executor a

instance (σ : Server) (m : Move) : Decidable (Starts σ m) :=
  inferInstanceAs (Decidable (∀ a ∈ action σ m, _))

/-- The activity on a socket can go on: there is a call to make, an operation to
connect or to start, one whose task is ready in a call of `wait_for`, or one that
is queued and that `poll` is asked to wake up. -/
inductive GoesOn (σ : Server) (x : HandleId) : Prop where
  | calls {call : Call} (hm : call ∈ σ.calls) (hx : call.socket = x)
  | issued {o : TaskId} {op : Operation} (hop : σ.executor.ops[o]? = some op) (hx : x ∈ keeps op)
      (hst : op.status = .created ∨ op.status = .connected)
  | ready {o : TaskId} {op : Operation} {w : Nat} (hop : σ.executor.ops[o]? = some op)
      (hx : x ∈ keeps op) (ho : o ∈ readyOf σ.executor w)
  | queued {o : TaskId} {op : Operation} {fd : Fd} {d : Direction}
      (hop : σ.executor.ops[o]? = some op) (hx : x ∈ keeps op)
      (ho : o ∈ σ.executor.mux.queue fd d) (ha : σ.executor.mux.list.Awaits fd d)

def Spawned (σ : Server) : Move → Prop
  | .snapshot _ => σ.calls = [] ∧ ∀ op ∈ σ.executor.ops, op.status ≠ .created
  | _ => True

/-- The moves of `main`, which is one thread: an operation is started when it is
connected, and `wait` is called when there is nothing else to do and the
call before it has returned. An exception of `wait` ends the program. -/
def Alone (σ : Server) (m : Move) : Prop :=
  (∀ a ∈ action σ m, Prompt σ.executor a ∧ Sequential σ.executor a) ∧ Spawned σ m

instance (σ : Server) : ∀ m, Decidable (Spawned σ m)
  | .snapshot _ => inferInstanceAs (Decidable (_ ∧ ∀ op ∈ σ.executor.ops, _))
  | .perform _ _ _ _ | .connect _ | .start _ | .poll _ _ _ | .pass _ _ | .execute _ _ _
  | .finish _ => isTrue trivial

instance (σ : Server) (m : Move) : Decidable (Alone σ m) := inferInstanceAs (Decidable (_ ∧ _))

def Closed (σ : Server) : Prop := σ.calls = [] ∧ ∀ op ∈ σ.executor.ops, op.holds = false

def Begins (σ : Server) (a : Action) (σ' : Server) : Prop :=
  ∃ s, Executor.step σ.executor a = .ok s ∧ σ'.executor = { s with dialogs := σ'.executor.dialogs }

variable {s : State} {σ σ' : Server} {x : HandleId}

theorem drop_executor (h : drop σ x = .ok σ') :
    σ'.executor = { σ.executor with dialogs := σ'.executor.dialogs } := by
  obtain ⟨-, rfl⟩ := drop_eq h
  rfl

theorem resume_executor {k : Continuation} {outcome : Outcome} (h : resume σ k outcome = .ok σ') :
    σ'.executor = { σ.executor with dialogs := σ'.executor.dialogs } := by
  obtain ⟨-, hd⟩ | ⟨next, rfl, -⟩ := resume_cases h
  · exact drop_executor hd
  · rfl

theorem proceed_executor {o : TaskId} (h : proceed σ o = .ok σ') :
    σ'.executor = { σ.executor with dialogs := σ'.executor.dialogs } := by
  unfold proceed at h
  split at h
  · exact resume_executor h
  · cases h
    rfl

theorem perform_begins {i : Nat} {answers : List Answer} {base : Nat} {data : List Byte}
    (h : perform σ i answers base data = .ok σ') :
    ∃ call, σ.calls[i]? = some call ∧ Begins σ (call.action answers) σ' := by
  unfold perform at h
  split at h
  · cases h
  · next call hcall =>
    split at h
    · cases h
    · next s ha =>
      refine ⟨call, hcall, s, ha, ?_⟩
      split at h
      · exact drop_executor h
      · split at h
        · rw [(transfer_frame h).1]
        · cases h
          rfl

theorem connect_begins {o : TaskId} (h : connect σ o = .ok σ') : Begins σ (.connect o) σ' := by
  unfold connect at h
  split at h
  · cases h
  · next s ha =>
    refine ⟨s, ha, ?_⟩
    split at h
    · cases h
    · split at h
      · exact drop_executor h
      · cases h
        rfl

theorem start_begins {o : TaskId} (h : start σ o = .ok σ') : Begins σ (.start o) σ' := by
  unfold start at h
  split at h
  · cases h
  · next s ha => exact ⟨s, ha, proceed_executor h⟩

theorem execute_begins {w : Nat} {answers : List Answer} {data : List Byte}
    (h : execute σ w answers data = .ok σ') : Begins σ (.execute w answers) σ' := by
  unfold execute at h
  split at h
  · next o s ho ha =>
    refine ⟨s, ha, ?_⟩
    split at h
    · split at h
      · cases h
      · next σ₁ htr =>
        have he := proceed_executor h
        rw [(transfer_frame htr).1] at he
        exact he
    · exact proceed_executor h
  · cases h
  · cases h

theorem waits_begins {a : Action} (h : waits σ a = .ok σ') : Begins σ a σ' := by
  unfold waits at h
  split at h
  · cases h
  · next s ha =>
    cases h
    exact ⟨s, ha, rfl⟩

theorem step_begins {m : Move} (h : step σ m = .ok σ') :
    ∃ a, action σ m = some a ∧ Begins σ a σ' := by
  cases m with
  | perform i answers base data =>
    obtain ⟨call, hcall, hb⟩ := perform_begins h
    exact ⟨_, by rw [action, hcall]; rfl, hb⟩
  | connect o => exact ⟨_, rfl, connect_begins h⟩
  | start o => exact ⟨_, rfl, start_begins h⟩
  | execute w answers data => exact ⟨_, rfl, execute_begins h⟩
  | snapshot interval | poll w begin answers | pass w getsockopt | finish w =>
    simp only [step] at h
    exact ⟨_, rfl, waits_begins h⟩

theorem closed_turn (hc : Closed σ) (h : Turn σ σ') : Closed σ' := by
  obtain ⟨hcalls, hops⟩ := hc
  have unfinished : ∀ {o : TaskId} {op : Operation}, σ.executor.ops[o]? = some op →
      op.holds = true → False := by
    intro o op hop hh
    rw [hops op (List.mem_of_getElem? hop)] at hh
    cases hh
  have uncalled : ∀ {i : Nat} {call : Call}, σ.calls[i]? = some call → False := by
    intro i call hcall
    rw [hcalls] at hcall
    cases hcall
  cases h with
  | waited _ he _ => exact ⟨hcalls, he ▸ hops⟩
  | went _ hop _ _ _ _ _ hh _ | abandoned _ hop _ _ hh _ _ => exact (unfinished hop hh).elim
  | refused _ hcall _ _ _ | issued _ _ hcall _ _ _ | transferred _ _ hcall _ _ _ _ =>
    exact (uncalled hcall).elim
  | completed _ he _ _ _ | moved _ he _ _ _ _ => exact (unfinished he.found he.holds).elim

theorem queued_place {config : Config} {tr : List Action} (h : run config tr = .ok s) {o : TaskId}
    {op : Operation} (hop : s.ops[o]? = some op) (hst : op.status = .queued) :
    (∃ fd d, o ∈ s.mux.queue fd d) ∨ (∃ w, o ∈ readyOf s w) ∨ Threw s := by
  have hl := run_located h
  obtain ⟨hq, hne⟩ := (run_exact h o op hop).mp hst
  obtain ⟨p, hp⟩ := (hl.known o).mpr hq
  cases p with
  | waiting c => exact .inl ⟨c.1, c.2, hp⟩
  | ready w => exact .inr (.inl ⟨w, hp⟩)
  | done w => exact absurd ((hl.executed o).mp ⟨w, hp⟩) hne
  | lost w =>
    obtain ⟨wait, hw, hf⟩ := hl.failed w (List.ne_nil_of_mem hp)
    exact .inr (.inr ⟨wait, List.mem_of_getElem? hw, hf⟩)

theorem not_threw_of_returned (h : ∀ wait ∈ s.waits, wait.phase = .returned) : ¬Threw s := by
  rintro ⟨wait, hm, hf⟩
  rw [h wait hm] at hf
  cases hf

theorem waiting_of_queued {config : Config} {tr : List Action} (h : run config tr = .ok s)
    (hret : ∀ wait ∈ s.waits, wait.phase = .returned) {o : TaskId} {op : Operation}
    (hop : s.ops[o]? = some op) (hst : op.status = .queued) : ∃ fd d, o ∈ s.mux.queue fd d := by
  obtain hq | ⟨w, hr⟩ | ht := queued_place h hop hst
  · exact hq
  · cases hw : s.waits[w]? with
    | none => simp [readyOf, hw] at hr
    | some wait =>
      have hm := List.mem_of_getElem? hw
      have hrun := run_running h wait hm (List.ne_nil_of_mem (by simpa [readyOf_eq hw] using hr))
      rw [hret wait hm] at hrun
      cases hrun
  · exact absurd ht (not_threw_of_returned hret)

theorem initial_attended (config : Config) (fd : Fd) : Attended (initial config fd).executor :=
  ⟨(attended_initial config).queued, by simp [initial, adopt, Executor.initial]⟩

theorem attended_move {config : Config} {tr : List Action} {m : Move}
    (hr : run config tr = .ok σ.executor) (ha : ¬Threw σ.executor → Attended σ.executor)
    (hm : Starts σ m) (h : step σ m = .ok σ') (hn : ¬Threw σ'.executor) : Attended σ'.executor := by
  obtain ⟨a, haction, s, hs, he⟩ := step_begins h
  rw [he] at hn ⊢
  have hns : ¬Threw s := hn
  have hstep := step_spec hs
  have hatt := attended_step (run_sane hr) (ha (mt (threw_step hstep) hns)) (hm a haction) hns hstep
  exact ⟨hatt.queued, hatt.connected⟩

theorem goesOn_of_queued {config : Config} {tr : List Action} (h : run config tr = .ok σ.executor)
    (ha : Attended σ.executor) (hn : ¬Threw σ.executor) {o : TaskId} {op : Operation}
    (hop : σ.executor.ops[o]? = some op) (hx : x ∈ keeps op) (hst : op.status = .queued) :
    GoesOn σ x := by
  obtain ⟨fd, d, ho⟩ | ⟨w, ho⟩ | ht := queued_place h hop hst
  · exact .queued hop hx ho (ha.queued fd d (List.ne_nil_of_mem ho))
  · exact .ready hop hx ho
  · exact absurd ht hn

theorem goesOn_of_activity {config : Config} {tr : List Action} (h : run config tr = .ok σ.executor)
    (ha : Attended σ.executor) (hn : ¬Threw σ.executor) (hx : 0 < activities σ x) : GoesOn σ x := by
  obtain hcalls | hops : 0 < (σ.calls.map Call.socket).count x ∨
      0 < (σ.executor.ops.map (fun op => (keeps op).count x)).sum := by
    rw [activities] at hx
    omega
  · obtain ⟨call, hm, hs⟩ := List.mem_map.mp (List.count_pos_iff.mp hcalls)
    exact .calls hm hs
  · obtain ⟨n, hm, hne⟩ := List.exists_mem_ne_zero_of_sum_ne_zero (Nat.pos_iff_ne_zero.mp hops)
    obtain ⟨op, hmem, rfl⟩ := List.mem_map.mp hm
    have hkeeps := List.count_pos_iff.mp (Nat.pos_of_ne_zero hne)
    obtain ⟨o, hop⟩ := List.mem_iff_getElem?.mp hmem
    cases hst : op.status with
    | created => exact .issued hop hkeeps (.inl hst)
    | connected => exact .issued hop hkeeps (.inr hst)
    | queued => exact goesOn_of_queued h ha hn hop hkeeps hst
    | completed outcome | abandoned => simp [keeps, Operation.holds, hst] at hkeeps

/-- Whatever its clients and its threads do, the server has one activity for each
live socket, an operation that is not over or a call that is to be made, and none
for one that is gone. So no session has two, and a descriptor has at most one
task in both of its queues together. The activity can also go on, as
long as operations are started when they are connected and no `wait_for` has
thrown; otherwise its task may be lost with the call, or wait in its queue for
ever. -/
theorem sessions_are_single (config : Config) (fd : Fd) (hfd : valid fd) (tr : List Move)
    (h : serve config fd tr = .ok σ) :
    (∀ x, activities σ x = if live σ.executor x then 1 else 0) ∧
    (∀ fd', (σ.executor.mux.queue fd' .read ++ σ.executor.mux.queue fd' .write).length ≤ 1) ∧
    (Runs.Along step Starts (initial config fd) tr → ¬Threw σ.executor →
      ∀ x, live σ.executor x = true → GoesOn σ x) := by
  obtain ⟨tr', hr, hb⟩ := serve_balanced hfd h
  refine ⟨activities_eq hb, queues_length_le hr hb, fun ha hn x hl => ?_⟩
  have hatt := Runs.run_invariant_along
    (fun σ => (∃ tr', run config tr' = .ok σ.executor ∧ Balanced σ []) ∧
      (¬Threw σ.executor → Attended σ.executor)) Starts ?_ h ha
    ⟨⟨_, initial_reached config hfd, initial_balanced config fd⟩,
      fun _ => initial_attended config fd⟩
  · refine goesOn_of_activity hr (hatt.2 hn) hn ?_
    rw [activities_eq hb, if_pos hl]
    exact Nat.one_pos
  · rintro σ m σ' ⟨⟨tr', hr, hb⟩, hatt⟩ hm hs
    exact ⟨step_balanced hr hb hs, attended_move hr hatt hm hs⟩

theorem sessions_are_single_accepted : ∃ σ, serve {} 5#32 [.perform 0 [.accepted 7#32 0 true] 0 [],
      .connect 0, .start 0, .perform 0 [.failed ⟨11, by decide⟩] 5000 [], .connect 1, .start 1,
      .perform 0 [.failed ⟨11, by decide⟩] 0 [], .connect 2, .start 2, .snapshot (-1),
      .poll 0 0 [.ready [0#16, POLLIN]], .pass 0 (fun _ => .ok 0)] = .ok σ ∧
    activities σ 0 = 1 ∧ activities σ 1 = 1 ∧ activities σ 2 = 0 ∧
    σ.executor.mux.queue 7#32 .read = [] ∧ readyOf σ.executor 0 = [1] ∧
    σ.executor.mux.queue 5#32 .read = [2] ∧ GoesOn σ 0 ∧ GoesOn σ 1 := by
  have hs : ∃ σ, serve {} 5#32 [.perform 0 [.accepted 7#32 0 true] 0 [],
      .connect 0, .start 0, .perform 0 [.failed ⟨11, by decide⟩] 5000 [], .connect 1, .start 1,
      .perform 0 [.failed ⟨11, by decide⟩] 0 [], .connect 2, .start 2, .snapshot (-1),
      .poll 0 0 [.ready [0#16, POLLIN]], .pass 0 (fun _ => .ok 0)] = .ok σ ∧
      σ.executor.mux.queue 7#32 .read = [] ∧ readyOf σ.executor 0 = [1] ∧
      σ.executor.mux.queue 5#32 .read = [2] ∧ σ.executor.waits.map Wait.phase = [.running] ∧
      live σ.executor 0 = true ∧ live σ.executor 1 = true ∧ live σ.executor 2 = false :=
    ⟨_, rfl, rfl, rfl, rfl, rfl, rfl, rfl, rfl⟩
  obtain ⟨σ, hσ, hq, hr, hq', hw, hl₀, hl₁, hl₂⟩ := hs
  obtain ⟨hcount, -, hgo⟩ := sessions_are_single {} 5#32 ⟨by decide, by decide⟩ _ hσ
  have hn : ¬Threw σ.executor := by
    rintro ⟨wait, hm, hf⟩
    have hphase := List.mem_map_of_mem (f := Wait.phase) hm
    rw [hw, List.mem_singleton] at hphase
    rw [hphase] at hf
    cases hf
  have ha := hgo (by decide) hn
  refine ⟨σ, hσ, ?_, ?_, ?_, hq, hr, hq', ha 0 hl₀, ha 1 hl₁⟩
  · rw [hcount, hl₀]
    rfl
  · rw [hcount, hl₁]
    rfl
  · rw [hcount, hl₂]
    rfl

theorem closed_of_snapshot {config : Config} {tr : List Action} (h : run config tr = .ok σ.executor)
    (ha : Attended σ.executor) {interval : Int} (hm : Alone σ (.snapshot interval))
    (hl : copyActive σ.executor.mux.list.entries = []) : Closed σ := by
  obtain ⟨hact, hcalls, hcreated⟩ := hm
  obtain ⟨hp, hret⟩ := hact _ rfl
  refine ⟨hcalls, fun op hmem => ?_⟩
  obtain ⟨o, hop⟩ := List.mem_iff_getElem?.mp hmem
  cases hst : op.status with
  | created => exact absurd hst (hcreated op hmem)
  | connected => cases hp.starts hop hst
  | queued =>
    obtain ⟨fd, d, ho⟩ := waiting_of_queued h hret hop hst
    have hawaits := ha.queued fd d (List.ne_nil_of_mem ho)
    rw [Interest.awaits_iff, Interest.events_eq_zero_of_copyActive_eq_nil _ _ hl,
      test_zero] at hawaits
    cases hawaits
  | completed outcome | abandoned => simp [Operation.holds, hst]

/-- What is known while the loop runs: every task can be woken up, and a call of
`wait` that has no events to report finds the server closed. -/
structure Looping (σ : Server) : Prop where
  attended : ¬Threw σ.executor → Attended σ.executor
  closed : ∀ wait ∈ σ.executor.waits, wait.interval < 0 → wait.list = [] → Closed σ

theorem list_advance {wait wait' : Wait} (h : Advance wait wait') (hi : wait'.interval < 0)
    (hl : wait'.list = []) :
    wait.interval < 0 ∧ wait.list = [] := by
  cases h with
  | polled _ hallowed hr => exact ⟨hi, poll_ne_nil hi hallowed hr hl⟩
  | threw _ | passed _ | returned _ _ | popped _ => exact ⟨hi, hl⟩

theorem looping_step {config : Config} {tr : List Action} {m : Move}
    (hr : run config tr = .ok σ.executor) (hb : Balanced σ []) (hl : Looping σ) (hm : Alone σ m)
    (h : step σ m = .ok σ') : Looping σ' := by
  obtain ⟨a, ha, s, hs, he⟩ := step_begins h
  have hstep := step_spec hs
  have kept : Closed σ → Closed σ' := fun hc => closed_turn hc (step_turn hr hb h)
  refine ⟨fun hn => ?_, fun wait hw hi hnil => ?_⟩
  · exact attended_move hr hl.attended (fun a ha => (hm.1 a ha).1) h hn
  · rw [he] at hw
    change wait ∈ s.waits at hw
    obtain hsame | ⟨interval, rfl, hnew⟩ | ⟨w, old, new, hold, hadv, hset⟩ := waits_step hstep
    · rw [hsame] at hw
      exact kept (hl.closed wait hw hi hnil)
    · rw [hnew] at hw
      obtain hw | hw := List.mem_append.mp hw
      · exact kept (hl.closed wait hw hi hnil)
      · -- the call begins now
        rw [List.mem_singleton.mp hw] at hnil
        cases m with
        | snapshot interval' =>
          cases ha
          exact kept
            (closed_of_snapshot hr (hl.attended (not_threw_of_returned (hm.1 _ rfl).2)) hm hnil)
        | perform i answers base data =>
          obtain ⟨call, -, hcall⟩ := Option.map_eq_some_iff.mp ha
          cases call <;> cases hcall
        | _ => cases ha
    · rw [hset] at hw
      obtain hw | rfl := List.mem_or_eq_of_mem_set hw
      · exact kept (hl.closed wait hw hi hnil)
      · obtain ⟨hi', hnil'⟩ := list_advance hadv hi hnil
        exact kept (hl.closed old (List.mem_of_getElem? hold) hi' hnil')

theorem initial_looping (config : Config) (fd : Fd) : Looping (initial config fd) :=
  ⟨fun _ => initial_attended config fd, by simp [initial, adopt, Executor.initial]⟩

theorem kept_open (hb : Balanced σ []) (hc : σ.calls = []) (h : x ∈ σ.executor.dialogs) :
    ∃ op ∈ σ.executor.ops, op.holds = true := by
  by_contra hn
  have hzero : (σ.executor.ops.map (fun op => (keeps op).count x)).sum = 0 := by
    apply List.sum_eq_zero
    intro n hm
    obtain ⟨op, hop, rfl⟩ := List.mem_map.mp hm
    have hover : op.holds = false := Bool.eq_false_iff.mpr fun hh => hn ⟨op, hop, hh⟩
    simp [keeps, hover]
  have hu := hb.used x
  have hpos := List.count_pos_iff.mpr h
  simp only [activities, hc, hzero, List.map_nil, List.count_nil] at hu
  omega

/-- The main loop ends only when the server has nothing left: once `wait` returns
zero, no call is to be made and every socket is closed, that of the server and those
of all clients. As long as a socket is open, a `wait` that returns reports an event. -/
theorem loop_ends_closed (config : Config) (fd : Fd) (hfd : valid fd) (tr : List Move)
    (h : serve config fd tr = .ok σ) (ha : Runs.Along step Alone (initial config fd) tr)
    (wait : Wait) (hw : wait ∈ σ.executor.waits) (hi : wait.interval < 0)
    (hz : wait.list.length = 0) :
    σ.calls = [] ∧ ∀ x, live σ.executor x = false := by
  have hall := Runs.run_invariant_along
    (fun σ => (∃ tr', run config tr' = .ok σ.executor ∧ Balanced σ []) ∧ Looping σ) Alone ?_ h ha
    ⟨⟨_, initial_reached config hfd, initial_balanced config fd⟩, initial_looping config fd⟩
  · obtain ⟨⟨tr', hr, hb⟩, hl⟩ := hall
    obtain ⟨hcalls, hops⟩ := hl.closed wait hw hi (List.length_eq_zero_iff.mp hz)
    refine ⟨hcalls, fun x => Bool.eq_false_iff.mpr fun hlive => ?_⟩
    obtain ⟨op, hop, hh⟩ := kept_open hb hcalls ((live_iff_mem hb).mp hlive)
    rw [hops op hop] at hh
    cases hh
  · rintro σ m σ' ⟨⟨tr', hr, hb⟩, hl⟩ hm hs
    exact ⟨step_balanced hr hb hs, looping_step hr hb hl hm hs⟩

theorem loop_ends_closed_reset :
    ∃ σ, serve {} 5#32 [.perform 0 [.accepted 7#32 0 true] 0 [], .connect 0,
      .start 0, .perform 0 [.failed ⟨11, by decide⟩] 5000 [], .connect 1, .start 1,
      .perform 0 [.failed ⟨22, by decide⟩] 0 [], .connect 2, .start 2, .snapshot (-1),
      .poll 0 0 [.ready [POLLERR]], .pass 0 (fun _ => .ok 104), .execute 0 [] [], .finish 0,
      .snapshot (-1), .poll 1 0 [], .pass 1 (fun _ => .ok 0), .finish 1] = .ok σ ∧
    σ.executor.handles.length = 2 ∧ σ.calls = [] ∧ ∀ x, live σ.executor x = false := by
  have h := loop_ends_closed {} 5#32 ⟨by decide, by decide⟩
    [.perform 0 [.accepted 7#32 0 true] 0 [], .connect 0,
    .start 0, .perform 0 [.failed ⟨11, by decide⟩] 5000 [], .connect 1, .start 1,
    .perform 0 [.failed ⟨22, by decide⟩] 0 [], .connect 2, .start 2, .snapshot (-1),
    .poll 0 0 [.ready [POLLERR]], .pass 0 (fun _ => .ok 104), .execute 0 [] [], .finish 0,
    .snapshot (-1), .poll 1 0 [], .pass 1 (fun _ => .ok 0), .finish 1] rfl (by decide)
      { interval := -1, list := [], phase := .returned }
    (by decide) (by decide) rfl
  exact ⟨_, rfl, rfl, h⟩

end AsyncBerkeley.MainLoop
