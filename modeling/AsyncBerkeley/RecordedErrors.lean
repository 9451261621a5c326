import AsyncBerkeley.Receivers
import AsyncBerkeley.ErrorRecords

namespace AsyncBerkeley.RecordedErrors

open ListUpdates Events InterestList SocketHandles PollMultiplexer Operations Executor Passes Steps
  Evolution Lifetimes Conservation ReactorRuns Receivers ErrorRecords

variable {s s' : State} {a : Action} {x : HandleId} {config : Config} {tr : List Action}

theorem errorOf_round_of_ne {getsockopt : Fd → Except Errno Int} {p : Pass} {event : Pollfd}
    (hne : p.mux.socket event.fd ≠ some x) :
    errorOf (handleEvent getsockopt p event).1.handles x = errorOf p.handles x := by
  cases hr : (handleEvent getsockopt p event).2 with
  | some exit => rw [errorOf_exit hr]
  | none =>
    by_cases hx : x < p.handles.length
    · rw [errorOf_round hx hr]
      simp [hne]
    · have hle := Nat.le_of_not_lt hx
      have hle' : (handleEvent getsockopt p event).1.handles.length ≤ x := by
        rw [(handleEvent_frame event).handles]
        exact hle
      rw [errorOf_of_length_le hle, errorOf_of_length_le hle']

theorem errorOf_pass_of_ne {getsockopt : Fd → Except Errno Int} {p : Pass} {events : List Pollfd}
    (hne : ∀ event ∈ events, p.mux.socket event.fd ≠ some x) :
    errorOf (handleEvents getsockopt p events).1.handles x = errorOf p.handles x := by
  refine (handleEvents_invariant (fun q => Frame p q ∧ errorOf q.handles x = errorOf p.handles x) ?_
    ⟨.refl p, rfl⟩).2
  rintro q event hm ⟨hf, hq⟩
  refine ⟨hf.trans (handleEvent_frame event), ?_⟩
  rw [errorOf_round_of_ne (by rw [hf.socket]; exact hne event hm), hq]

theorem queue_owner (h : run config tr = .ok s) {fd : Fd} {d : Direction} {o : TaskId}
    (ho : o ∈ s.mux.queue fd d) :
    ∃ op, s.ops[o]? = some op ∧ descriptor s.handles op.socket = fd ∧ live s op.socket = true ∧
      s.mux.socket fd = some op.socket := by
  obtain ⟨op, hop, ht⟩ := Option.map_eq_some_iff.mp ((run_sane h).queued fd d o ho)
  obtain ⟨-, rfl⟩ := Prod.mk.inj ht
  have hq := ((run_located h).known o).mp ⟨.waiting (_, d), ho⟩
  have hst : op.status = .queued := located_queued h (p := .waiting (_, d)) ho (by simp) hop
  have hlive : live s op.socket = true :=
    live_iff.mpr (.inr ⟨o, op, hop, rfl, by simp [Operation.holds, hst]⟩)
  exact ⟨op, hop, rfl, hlive, (run_owned h).pointed o op (mem_queuedOrder.mp hq) hop hlive⟩

theorem queue_invalid (ho : Owned s) (d : Direction) : s.mux.queue INVALID_SOCKET d = [] := by
  have hlen : s.mux.demux.length ≤ toSize INVALID_SOCKET := by
    rw [toSize_invalid]
    exact Nat.le_trans ho.room (by decide)
  simp [Multiplexer.queue, List.getElem?_eq_none hlen]

/-- Operations of different sockets never share a queue, also when a descriptor
is used again: all tasks queued on a descriptor, in both directions, are of
the one live handle that owns it. While a task is queued on the descriptor, its
error events are recorded on no other handle. -/
theorem queue_has_one_owner (config : Config) (tr : List Action) {s : State}
    (h : run config tr = .ok s) (fd : Fd) (d : Direction) (o : TaskId) (ho : o ∈ s.mux.queue fd d) :
    ∃ op, s.ops[o]? = some op ∧ descriptor s.handles op.socket = fd ∧ live s op.socket = true ∧
      (∀ x, live s x = true → descriptor s.handles x = fd → x = op.socket) ∧
      (∀ d', ∀ o' ∈ s.mux.queue fd d', ∃ op', s.ops[o']? = some op' ∧ op'.socket = op.socket) ∧
      ∀ (getsockopt : Fd → Except Errno Int) (events : List Pollfd) (x : HandleId),
        (∀ event ∈ events, event.fd = fd) → x ≠ op.socket →
        errorOf
          (handleEvents getsockopt { mux := s.mux, handles := s.handles } events).1.handles x =
          errorOf s.handles x := by
  obtain ⟨op, hop, hfd, hlive, hsocket⟩ := queue_owner h ho
  have hvalid : descriptor s.handles op.socket ≠ INVALID_SOCKET := by
    intro he
    rw [← hfd, he, queue_invalid (run_owned h)] at ho
    cases ho
  refine ⟨op, hop, hfd, hlive, fun x hx hxfd => ?_, fun d' o' ho' => ?_,
    fun getsockopt events x hev hx => ?_⟩
  · exact ((run_owned h).distinct op.socket x hlive hx (hfd.trans hxfd.symm) hvalid).symm
  · obtain ⟨op', hop', -, -, hsocket'⟩ := queue_owner h ho'
    rw [hsocket] at hsocket'
    exact ⟨op', hop', (Option.some.inj hsocket').symm⟩
  · refine errorOf_pass_of_ne fun event hm he => ?_
    rw [hev event hm, hsocket] at he
    exact hx (Option.some.inj he).symm

theorem queue_has_one_owner_reused :
    ∃ s op, run {} [.emplace 5#32, .set 0 .read, .dropDialog 0, .connect 0,
      .start 0, .snapshot (-1), .poll 0 0 [.ready [POLLIN]], .pass 0 (fun _ => .ok 0),
      .execute 0 [.transferred 1], .emplace 5#32, .set 1 .read, .connect 1, .start 1] = .ok s ∧
        s.ops[1]? = some op ∧ op.socket = 1 ∧
    ∀ x, live s x = true → descriptor s.handles x = 5#32 → x = op.socket := by
  obtain ⟨op, hop, -, -, hx, -⟩ :=
    queue_has_one_owner {} [.emplace 5#32, .set 0 .read, .dropDialog 0, .connect 0,
    .start 0, .snapshot (-1), .poll 0 0 [.ready [POLLIN]], .pass 0 (fun _ => .ok 0),
    .execute 0 [.transferred 1], .emplace 5#32, .set 1 .read, .connect 1,
    .start 1] rfl 5#32 .read 1 (by decide)
  refine ⟨_, op, rfl, hop, ?_, hx⟩
  cases hop
  rfl

theorem queued_backward (h : step s a = .ok s') {o : TaskId} {op' : Operation}
    (hop' : s'.ops[o]? = some op') (hq : op'.status = .queued) :
    s.ops[o]? = some op' ∨ hard (errorOf s.handles op'.socket) = false := by
  cases step_spec h with
  | issue _ hi =>
    obtain ⟨new, he, hnew⟩ := hi.ops
    rw [he] at hop'
    by_cases hlt : o < s.ops.length
    · exact .inl (by rwa [List.getElem?_append_left hlt] at hop')
    · rw [List.getElem?_append_right (Nat.le_of_not_lt hlt)] at hop'
      rw [(hnew op' (List.mem_of_getElem? hop')).1] at hq
      cases hq
  | register _ _ _ _ _ | abandon _ _ | idle _ _ _ =>
    obtain ⟨-, rfl⟩ | ⟨-, hop⟩ := getElem?_set_cases hop'
    · cases hq
    · exact .inl hop
  | inline _ _ _ hc | execute _ _ _ hc =>
    obtain ⟨_, hops⟩ := hc.ops
    rw [hops] at hop'
    obtain ⟨-, rfl⟩ | ⟨-, hop⟩ := getElem?_set_cases hop'
    · cases hq
    · exact .inl hop
  | @queue o' op d i demux hop hst _ _ _ =>
    obtain ⟨rfl, rfl⟩ | ⟨-, hop'⟩ := getElem?_set_cases hop'
    · right
      rw [Bool.eq_false_iff]
      exact fun he => start_waits h hop rfl (.inr he)
    · exact .inl hop'
  | snapshot | polled _ _ _ _ | pollThrew _ _ | passed _ _ _ | passThrew _ _ _ | finish _ _ _ =>
    exact .inl hop'

/-- What an operation on a socket that has failed comes to: it was completed or
queued before, or it is completed with the recorded error. -/
structure Failed (s : State) (x : HandleId) (o : TaskId) (op' : Operation) : Prop where
  completed : ∀ outcome, op'.status = .completed outcome →
    Completed s o outcome ∨ outcome = .setError (errorOf s.handles x)
  queued : op'.status = .queued → ∃ op, s.ops[o]? = some op ∧ op.status = .queued

theorem failed_step {t t' : State} (hx : errorOf t.handles x = errorOf s.handles x)
    (hh : hard (errorOf s.handles x) = true)
    (hf : ∀ o op, t.ops[o]? = some op → op.socket = x → Failed s x o op) (h : step t a = .ok t')
    {o : TaskId} {op' : Operation} (hop' : t'.ops[o]? = some op') (hs : op'.socket = x) :
    Failed s x o op' := by
  refine ⟨fun outcome hc => ?_, fun hq => ?_⟩
  · obtain hop | ⟨op, u, answers, hop, hcomp, hcall⟩ := completed_backward h hop' hc
    · exact (hf o op' hop hs).completed outcome hc
    · obtain ⟨outcome', hops, hout⟩ := complete_outcome hcall
      have hlt := (List.getElem?_eq_some_iff.mp hop).1
      rw [hops, hcomp.ops, List.getElem?_set_self hlt] at hop'
      cases hop'
      cases hc
      rw [hcomp.handles, show op.socket = x from hs, hx] at hout
      obtain ⟨-, rfl⟩ | ⟨hnot, -⟩ := hout
      · exact .inr rfl
      · rw [hh] at hnot
        cases hnot
  · obtain hop | hnot := queued_backward h hop' hq
    · exact (hf o op' hop hs).queued hq
    · rw [hs, hx, hh] at hnot
      cases hnot

/-- The step records no error on the handle. -/
def Spares (x : HandleId) (s : State) (a : Action) : Prop := recordsIn x s a = []

/-- A socket on which a hard error was recorded fails its operations with that
error until another is recorded: none is queued any more, and every one that
completes, when it is started or executed, delivers it. -/
theorem hard_error_sticks (s s' : State) (tr : List Action) (x : HandleId)
    (hh : hard (errorOf s.handles x) = true) (h : Runs.run step s tr = .ok s')
    (hsp : Runs.Along step (Spares x) s tr) :
    errorOf s'.handles x = errorOf s.handles x ∧
    ∀ o op', s'.ops[o]? = some op' → op'.socket = x → Failed s x o op' := by
  have hx : x < s.handles.length := by
    by_contra hx
    rw [errorOf_of_length_le (Nat.le_of_not_lt hx)] at hh
    cases hh
  refine (Runs.run_invariant_along (fun t => x < t.handles.length ∧
    errorOf t.handles x = errorOf s.handles x ∧
    ∀ o op', t.ops[o]? = some op' → op'.socket = x → Failed s x o op') (Spares x) ?_ h hsp
    ⟨hx, rfl, fun o op hop _ => ⟨fun outcome hc => .inl ⟨op, hop, hc⟩, fun hq => ⟨op, hop, hq⟩⟩⟩).2
  rintro t a t' ⟨hlt, herr, hf⟩ hspare hstep
  refine ⟨Nat.lt_of_lt_of_le hlt (length_step hstep), ?_, fun o op' hop' hs => ?_⟩
  · rw [errorOf_step hlt hstep, hspare]
    exact herr
  · exact failed_step herr hh hf hstep hop' hs

theorem hard_error_sticks_reset : ∃ s s', run {} [.emplace 5#32, .set 0 .read, .connect 0, .start 0,
      .recvmsg 0 [.failed ⟨104, by decide⟩]] = .ok s ∧
    Runs.run step s [.connectDialog 0 [.failed ⟨EINPROGRESS, by decide⟩],
      .sendmsg 0 [.transferred 3],
      .connect 2, .start 2, .connect 3, .start 3] = .ok s' ∧ errorOf s'.handles 0 = 104 ∧
    (∃ op, s'.ops[2]? = some op ∧ op.status = .completed (.setError 104) ∧ Failed s 0 2 op) ∧
    ∃ op, s'.ops[3]? = some op ∧ op.status = .completed (.setError 104) ∧ Failed s 0 3 op := by
  have h := hard_error_sticks _ _ [.connectDialog 0 [.failed ⟨EINPROGRESS, by decide⟩],
    .sendmsg 0 [.transferred 3], .connect 2, .start 2, .connect 3, .start 3] 0 rfl
    (show Runs.run step ((run {} [.emplace 5#32, .set 0 .read, .connect 0, .start 0,
      .recvmsg 0 [.failed ⟨104, by decide⟩]]).toOption.getD {}) _ = .ok _ from rfl)
    ⟨rfl, rfl, rfl, rfl, rfl, rfl, trivial⟩
  exact ⟨_, _, rfl, rfl, h.1, ⟨_, rfl, rfl, h.2 2 _ rfl rfl⟩, _, rfl, rfl, h.2 3 _ rfl rfl⟩

end AsyncBerkeley.RecordedErrors
