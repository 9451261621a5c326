import AsyncBerkeley.RecordedErrors

namespace AsyncBerkeley.ErrorSources

open Events InterestList SocketHandles PollMultiplexer Operations Executor Passes Steps Evolution
  Lifetimes Conservation ReactorRuns Receivers ErrorRecords RecordedErrors

/-- The kernel reports an error of a live socket in the step. A system call made
on it fails, at once or when its task is executed, or its descriptor has an
error event and `getsockopt` is asked about it while no other live handle owns
the descriptor. -/
def Reported (s : State) (x : HandleId) (error : Int) (a : Action) : Prop :=
  live s x = true ∧ match a with
  | .accept socket _ answers =>
    socket = x ∧ attempts s s.config.eagerAccept = true ∧ failedWith answers = [error]
  | .recvmsg socket answers =>
    socket = x ∧ attempts s s.config.eagerRecv = true ∧ failedWith answers = [error]
  | .sendmsg socket answers =>
    socket = x ∧ attempts s s.config.eagerSend = true ∧ failedWith answers = [error]
  | .connectDialog socket answers => socket = x ∧ failedWith answers = [error]
  | .pass w getsockopt => ∃ wait, s.waits[w]? = some wait ∧ ∃ event ∈ wait.list,
    reports event = true ∧ event.fd = descriptor s.handles x ∧ code (getsockopt event.fd) = error ∧
      ∀ y, live s y = true → descriptor s.handles y = event.fd → y = x
  | .execute w answers => ∃ o op, (readyOf s w).head? = some o ∧ s.ops[o]? = some op ∧
    op.socket = x ∧ failedWith answers = [error]
  | _ => False

def Traced (config : Config) (tr : List Action) (x : HandleId) (error : Int) : Prop :=
  ∃ tr₁ a tr₂ u, tr = tr₁ ++ a :: tr₂ ∧ run config tr₁ = .ok u ∧ Reported u x error a

variable {s s' : State} {a : Action} {x : HandleId} {error : Int} {config : Config}
  {tr : List Action}

theorem Traced.snoc (h : Traced config tr x error) : Traced config (tr ++ [a]) x error := by
  obtain ⟨tr₁, b, tr₂, u, rfl, hu, hr⟩ := h
  exact ⟨tr₁, b, tr₂ ++ [a], u, by simp, hu, hr⟩

theorem Traced.last (hu : run config tr = .ok s) (hr : Reported s x error a) :
    Traced config (tr ++ [a]) x error :=
  ⟨tr, a, [], s, rfl, hu, hr⟩

theorem mem_failedWith {answers : List Answer} (h : error ∈ failedWith answers) :
    failedWith answers = [error] := by
  unfold failedWith at h ⊢
  split at h
  · rw [List.mem_singleton.mp h]
  · cases h

theorem mem_recordedBy {getsockopt : Fd → Except Errno Int} {socket : Fd → Option HandleId}
    {events : List Pollfd} (h : error ∈ recordedBy getsockopt socket x events) :
    ∃ event ∈ events, reports event = true ∧ socket event.fd = some x ∧
      code (getsockopt event.fd) = error := by
  induction events with
  | nil => cases h
  | cons event events ih =>
    unfold recordedBy at h
    split at h
    · cases h
    · obtain h | h := List.mem_append.mp h
      · obtain ⟨hc, he⟩ := List.mem_ite_nil_right.mp h
        simp only [Bool.and_eq_true, beq_iff_eq] at hc
        exact ⟨event, by simp, hc.1, hc.2, (List.mem_singleton.mp he).symm⟩
      · obtain ⟨e, hm, he⟩ := ih h
        exact ⟨e, by simp [hm], he⟩

theorem socket_invalid (ho : Owned s) : s.mux.socket INVALID_SOCKET = none := by
  have hlen : s.mux.demux.length ≤ toSize INVALID_SOCKET := by
    rw [toSize_invalid]
    exact Nat.le_trans ho.room (by decide)
  simp [Multiplexer.socket, List.getElem?_eq_none hlen]

theorem reported_of_recorded (ho : Owned s) (hl : live s x = true) (h : error ∈ recordsIn x s a) :
    Reported s x error a := by
  refine ⟨hl, ?_⟩
  cases a with
  | accept socket address answers | recvmsg socket answers | sendmsg socket answers =>
    obtain ⟨hc, he⟩ := List.mem_ite_nil_right.mp h
    simp only [Bool.and_eq_true, beq_iff_eq] at hc
    exact ⟨hc.1, hc.2, mem_failedWith he⟩
  | connectDialog socket answers =>
    obtain ⟨hc, he⟩ := List.mem_ite_nil_right.mp h
    exact ⟨beq_iff_eq.mp hc, mem_failedWith (List.mem_filter.mp he).1⟩
  | pass w getsockopt =>
    simp only [recordsIn] at h
    split at h
    · next wait hw =>
      obtain ⟨event, hm, hrep, hsocket, hcode⟩ := mem_recordedBy h
      obtain ⟨-, -, -, -, -, hfd⟩ := ho.points _ _ hsocket
      refine ⟨wait, hw, event, hm, hrep, hfd.symm, hcode, fun y hy hyfd => ?_⟩
      refine (ho.distinct x y hl hy (hfd.trans hyfd.symm) fun hinv => ?_).symm
      rw [← hfd, hinv, socket_invalid ho] at hsocket
      cases hsocket
    · cases h
  | _ => cases h

theorem failedWith_of_invoke {t : State} {func : Completion} {answers : List Answer} {errno : Errno}
    (h : invoke s func answers = .ok (t, .error errno)) : failedWith answers = [errno.val] := by
  unfold invoke at h
  split at h
  · cases h
  · cases h
  · cases h
  · next hr =>
    cases h
    simp [failedWith, hr]
  · split at h
    · cases h
    · split at h <;> cases h
  · cases h
  · cases h
  · cases h
  · cases h

theorem live_of_completing {t : State} {o : TaskId} {op : Operation} {answers : List Answer}
    (h : run config tr = .ok s) (ha : step s a = .ok s') (hop : s.ops[o]? = some op)
    (hc : Completing s o a t answers) : live s op.socket = true := by
  have hholds : op.holds = true := by
    cases hc with
    | started =>
      have hst : op.status = .connected := by
        by_contra hst
        simp only [step, start, hop, if_pos hst] at ha
        cases ha
      simp [Operation.holds, hst]
    | @executed w _ wait rest hw hr =>
      have hready : o ∈ located config tr s (.ready w) := by
        rw [located, readyOf_eq hw, hr]
        exact List.mem_cons_self
      simp [Operation.holds, located_queued h hready (by simp) hop]
  exact live_iff.mpr (.inr ⟨o, op, hop, rfl, hholds⟩)

theorem reported_of_completing {t : State} {o : TaskId} {op : Operation} {answers : List Answer}
    (hl : live s op.socket = true) (hop : s.ops[o]? = some op) (h : Completing s o a t answers)
    (hf : failedWith answers = [error]) : Reported s op.socket error a := by
  cases h with
  | started => cases hf
  | executed hw hready => exact ⟨hl, o, op, by simp [readyOf, hw, hready], hop, rfl, hf⟩

theorem recorded_step (hs : Sane s) (ho : Owned s) (h : step s a = .ok s') (hl : live s' x = true)
    (hx : errorOf s'.handles x ≠ 0) :
    (live s x = true ∧ errorOf s'.handles x = errorOf s.handles x) ∨
      Reported s x (errorOf s'.handles x) a := by
  have hst := step_spec h
  obtain ⟨hlt, hlive⟩ | ⟨rfl, -⟩ := live_old_or_new (sane_step hs hst) hst hl
  · have herror := errorOf_step hlt h
    obtain hnil | hne := eq_or_ne (recordsIn x s a) []
    · rw [hnil] at herror
      exact .inl ⟨hlive, herror⟩
    · right
      refine reported_of_recorded ho hlive ?_
      rw [herror, List.getLastD_eq_getLast?, List.getLast?_eq_some_getLast hne]
      exact List.getLast_mem hne
  · exact absurd (step_grows hst).newborn hx

/-- Errors come from the kernel and reach the right operation: in every run, an
error that is recorded on a live handle, and one with which the receiver of an
operation is completed, was reported earlier in that run for this very socket:
while its handle was live, and for an error event while it alone owned the
descriptor. None is made up, and none reaches the operations of another socket,
also when a descriptor is used again. A handle that is gone may be given errors
of the next socket on its descriptor, which nobody reads. -/
theorem errors_are_reported (config : Config) (tr : List Action) {s : State}
    (h : run config tr = .ok s) :
    (∀ x, live s x = true → errorOf s.handles x ≠ 0 → Traced config tr x (errorOf s.handles x)) ∧
    ∀ (o : TaskId) (op : Operation) (error : Int), s.ops[o]? = some op →
      op.status = .completed (.setError error) → Traced config tr op.socket error := by
  refine Runs.run_induction (fun tr t =>
    (∀ x, live t x = true → errorOf t.handles x ≠ 0 → Traced config tr x (errorOf t.handles x)) ∧
    ∀ (o : TaskId) (op : Operation) (error : Int), t.ops[o]? = some op →
      op.status = .completed (.setError error) → Traced config tr op.socket error)
    ⟨fun x _ hx => ?_, fun o op error hop => ?_⟩ ?_ h
  · simp [initial, errorOf] at hx
  · simp [initial] at hop
  rintro tr u a v hu ha ⟨hrecorded, hdelivered⟩
  refine ⟨fun x hl hx => ?_, fun o op' error hop' hc => ?_⟩
  · obtain ⟨hlive, hsame⟩ | hrep := recorded_step (run_sane hu) (run_owned hu) ha hl hx
    · rw [hsame] at hx ⊢
      exact (hrecorded x hlive hx).snoc
    · exact .last hu hrep
  · obtain hop | ⟨op, t, answers, hop, hcomp, hcall⟩ := completed_backward ha hop' hc
    · exact (hdelivered o op' error hop hc).snoc
    · have hlive := live_of_completing hu ha hop hcomp
      obtain ⟨outcome, hops, hout⟩ := complete_outcome hcall
      have hlt := (List.getElem?_eq_some_iff.mp hop).1
      rw [hops, hcomp.ops, List.getElem?_set_self hlt] at hop'
      cases hop'
      cases hc
      rw [hcomp.handles] at hout
      obtain ⟨hhard, hout⟩ | ⟨-, t', r, hinv, hout⟩ := hout
      · -- the recorded error is delivered
        cases hout
        have hx : errorOf u.handles op.socket ≠ 0 := by
          intro h0
          rw [h0] at hhard
          cases hhard
        exact (hrecorded op.socket hlive hx).snoc
      · obtain ⟨v, -, hout⟩ | ⟨errno, rfl, hout⟩ := hout
        · cases hout
        · cases hout
          have hrep : Reported u op.socket errno a :=
            reported_of_completing hlive hop hcomp (failedWith_of_invoke hinv)
          exact .last hu hrep

theorem errors_are_reported_reset : ∃ s op, run {} [.emplace 5#32, .set 0 .read, .dropDialog 0,
      .connect 0, .start 0, .snapshot (-1), .poll 0 0 [.ready [POLLIN]], .pass 0 (fun _ => .ok 0),
      .execute 0 [.transferred 1], .emplace 5#32, .set 1 .read, .connect 1, .start 1,
      .snapshot (-1), .poll 1 0 [.ready [POLLERR]], .pass 1 (fun _ => .ok 104),
      .execute 1 []] = .ok s ∧
    s.ops[1]? = some op ∧ op.socket = 1 ∧ op.status = .completed (.setError 104) ∧
    Traced {} [.emplace 5#32, .set 0 .read, .dropDialog 0,
      .connect 0, .start 0, .snapshot (-1), .poll 0 0 [.ready [POLLIN]], .pass 0 (fun _ => .ok 0),
      .execute 0 [.transferred 1], .emplace 5#32, .set 1 .read, .connect 1, .start 1,
      .snapshot (-1), .poll 1 0 [.ready [POLLERR]], .pass 1 (fun _ => .ok 104),
      .execute 1 []] op.socket 104 := by
  have h := errors_are_reported {} [.emplace 5#32, .set 0 .read, .dropDialog 0,
    .connect 0, .start 0, .snapshot (-1), .poll 0 0 [.ready [POLLIN]], .pass 0 (fun _ => .ok 0),
    .execute 0 [.transferred 1], .emplace 5#32, .set 1 .read, .connect 1, .start 1, .snapshot (-1),
    .poll 1 0 [.ready [POLLERR]], .pass 1 (fun _ => .ok 104), .execute 1 []] rfl
  exact ⟨_, _, rfl, rfl, rfl, rfl, h.2 1 _ 104 rfl rfl⟩

end AsyncBerkeley.ErrorSources
