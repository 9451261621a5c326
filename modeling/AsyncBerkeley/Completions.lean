import AsyncBerkeley.ErrorRecords

namespace AsyncBerkeley.Completions

open ListUpdates Events InterestList SocketHandles PollMultiplexer Operations Executor Passes Steps
  Evolution ErrorRecords

def acceptOutcome (s : State) (address : Span) : Answer → Option Outcome
  | .failed errno => if hard errno then some (.setError errno) else none
  | .accepted _ socklen true =>
    some (.setValue (.dialog s.handles.length (address.subspan 0 socklen)))
  | _ => none

def transferOutcome : Answer → Option Outcome
  | .failed errno => if hard errno then some (.setError errno) else none
  | .transferred len => some (.setValue (.length len))
  | _ => none

/-- The result of the system call that an action makes eagerly, unless it would block. -/
def eagerOutcome (s : State) : Action → Option Outcome
  | .accept _ address answers =>
    if attempts s s.config.eagerAccept then (retry answers).bind (acceptOutcome s address) else none
  | .recvmsg _ answers =>
    if attempts s s.config.eagerRecv then (retry answers).bind transferOutcome else none
  | .sendmsg _ answers =>
    if attempts s s.config.eagerSend then (retry answers).bind transferOutcome else none
  | _ => none

def carrier : Outcome → Completion
  | .setValue v => .value v
  | .setError _ => .empty

/-- The recorded error lets the result through: no hard error hides a value,
and an error is still the one recorded. -/
def passes (error : Int) : Outcome → Bool
  | .setValue _ => !hard error
  | .setError e => error == e

def errorAfter (prior : Int) : Outcome → Int
  | .setValue _ => prior
  | .setError e => e

variable {s s' : State} {a : Action}

structure Carries (s s' : State) (socket : HandleId) (outcome : Outcome) : Prop where
  ops : s'.ops = s.ops ++ [{ func := carrier outcome, socket := socket, trigger := .EAGER }]
  hard : ∀ e, outcome = .setError e → hard e = true
  error : errorOf s'.handles socket = errorAfter (errorOf s.handles socket) outcome

theorem attempt_failed {eager : Bool} {socket : HandleId} {trigger : ExecutionTrigger}
    {func : Completion} {answers : List Answer} {succeed : State → Answer → Except Fault State}
    {errno : Errno} (hs : Sane s) (ha : attempts s eager = true)
    (hr : retry answers = some (.failed errno)) (hh : hard errno = true)
    (h : attempt s eager socket trigger func answers succeed = .ok s') :
    Carries s s' socket (.setError errno) := by
  unfold attempts at ha
  simp only [attempt, ha, hr, ↓reduceIte] at h
  split at h
  · cases h
  · next hd =>
    have hrec := errorOf_recordError s.handles socket errno (hs.dialogs socket (not_not.mp hd))
    rw [hrec, if_pos hh] at h
    cases h
    exact ⟨rfl, fun e he => by cases he; exact hh, hrec⟩

theorem attempt_succeeded {eager : Bool} {socket : HandleId} {trigger : ExecutionTrigger}
    {func : Completion} {answers : List Answer} {succeed : State → Answer → Except Fault State}
    {answer : Answer} (ha : attempts s eager = true) (hr : retry answers = some answer)
    (hn : ∀ e, answer ≠ .failed e)
    (h : attempt s eager socket trigger func answers succeed = .ok s') :
    succeed { s with counter := s.counter + 1#8 } answer = .ok s' := by
  unfold attempts at ha
  simp only [attempt, ha, hr, ↓reduceIte] at h
  split at h
  · cases h
  · exact h

theorem accept_carries {socket : HandleId} {address : Span} {answers : List Answer}
    {outcome : Outcome} (hs : Sane s)
    (ho : eagerOutcome s (.accept socket address answers) = some outcome)
    (h : accept s socket address answers = .ok s') : Carries s s' socket outcome := by
  simp only [eagerOutcome] at ho
  split at ho
  · next ha =>
    obtain ⟨answer, hr, ho⟩ := Option.bind_eq_some_iff.mp ho
    unfold acceptOutcome at ho
    split at ho
    · split at ho
      · next hh =>
        cases ho
        exact attempt_failed hs ha hr hh h
      · cases ho
    · have ht := attempt_succeeded ha hr (by simp) h
      have herror := errorOf_acceptSucceed (x := socket) ht
      simp only [acceptSucceed] at ht
      split at ht
      · cases ht
      · cases ho
        cases ht
        exact ⟨rfl, by simp, herror⟩
    · cases ho
  · cases ho

theorem transfer_carries {eager : Bool} {socket : HandleId} {trigger : ExecutionTrigger}
    {func : Completion} {answers : List Answer} {outcome : Outcome} (hs : Sane s)
    (ho : (if attempts s eager then (retry answers).bind transferOutcome else none) = some outcome)
    (h : attempt s eager socket trigger func answers (transferSucceed socket) = .ok s') :
    Carries s s' socket outcome := by
  split at ho
  · next ha =>
    obtain ⟨answer, hr, ho⟩ := Option.bind_eq_some_iff.mp ho
    unfold transferOutcome at ho
    split at ho
    · split at ho
      · next hh =>
        cases ho
        exact attempt_failed hs ha hr hh h
      · cases ho
    · have ht := attempt_succeeded ha hr (by simp) h
      cases ho
      cases ht
      exact ⟨rfl, by simp, rfl⟩
    · cases ho
  · cases ho

theorem step_carries {outcome : Outcome} (hs : Sane s) (ho : eagerOutcome s a = some outcome)
    (h : step s a = .ok s') : ∃ socket, Carries s s' socket outcome := by
  cases a with
  | accept socket address answers => exact ⟨socket, accept_carries hs ho h⟩
  | recvmsg socket answers | sendmsg socket answers => exact ⟨socket, transfer_carries hs ho h⟩
  | emplace _ | copyDialog _ | dropDialog _ | connectDialog _ _ | set _ _ | connect _ | start _
  | snapshot _ | poll _ _ _ | pass _ _ | execute _ _ | finish _ => cases ho

theorem outcomeOf_settle {o : TaskId} {op : Operation} (outcome : Outcome) (ho : o < s.ops.length) :
    outcomeOf (settle s o op outcome) o = some outcome := by
  simp [outcomeOf, settle, ho]

theorem start_carrier {o : TaskId} {op : Operation} {outcome : Outcome} (hop : s.ops[o]? = some op)
    (hc : op.status = .connected) (ht : op.trigger = .EAGER) (hf : op.func = carrier outcome)
    (hh : ∀ e, outcome = .setError e → hard e = true) :
    (∃ s', step s (.start o) = .ok s' ∧ outcomeOf s' o = some outcome) ↔
      passes (errorOf s.handles op.socket) outcome = true := by
  obtain ⟨hlt, -⟩ := List.getElem?_eq_some_iff.mp hop
  have he : step s (.start o) = complete s o op [] := by simp [step, start, hop, hc, ht]
  rw [he]
  unfold complete
  cases hard_error : hard (errorOf s.handles op.socket) with
  | true =>
    have hlen : o < (discardResult s op.func).ops.length := by
      unfold discardResult
      split <;> exact hlt
    simp only [↓reduceIte, Except.ok.injEq, exists_eq_left', outcomeOf_settle _ hlen,
      Option.some.injEq]
    cases outcome with
    | setValue v => simp [passes, hard_error]
    | setError e => simp [passes]
  | false =>
    cases outcome with
    | setValue v =>
      simp only [hf, carrier, invoke, passes, hard_error]
      exact ⟨fun _ => rfl, fun _ => ⟨_, rfl, outcomeOf_settle _ hlt⟩⟩
    | setError e =>
      have hne : errorOf s.handles op.socket ≠ e := by
        intro heq
        rw [heq, hh e rfl] at hard_error
        cases hard_error
      simp [hf, carrier, invoke, passes, hne]

theorem completed_step {o : TaskId} {op : Operation} {outcome : Outcome} (hs : Sane s)
    (h : Step s a s') (hop : s.ops[o]? = some op) (ht : op.trigger = .EAGER)
    (hc : op.status = .completed outcome) :
    s'.ops[o]? = some op := by
  cases h with
  | issue _ h =>
    obtain ⟨new, he, -⟩ := h.ops
    rw [he, List.getElem?_append_left (List.getElem?_eq_some_iff.mp hop).1]
    exact hop
  | register hop' hst _ _ _ | abandon hop' hst | idle hop' hst _ | queue hop' hst _ _ _ =>
    exact getElem?_set_other hop hop' (by rintro rfl; rw [hc] at hst; cases hst)
  | inline hop' hst _ hcomp =>
    obtain ⟨_, he⟩ := hcomp.ops
    rw [he]
    exact getElem?_set_other hop hop' (by rintro rfl; rw [hc] at hst; cases hst)
  | execute hw hr hop' hcomp =>
    obtain ⟨_, he⟩ := hcomp.ops
    rw [he]
    refine getElem?_set_other hop hop' ?_
    rintro rfl
    obtain ⟨fd, d, hd⟩ := hs.ready _ (List.mem_of_getElem? hw) _ (hr ▸ List.mem_cons_self)
    rw [target_of_getElem? hop', ht] at hd
    cases d <;> cases hd
  | snapshot | polled _ _ _ _ | pollThrew _ _ | passed _ _ _ | passThrew _ _ _ | finish _ _ _ =>
    exact hop

theorem outcomeOf_eq_some {o : TaskId} {outcome : Outcome} (h : outcomeOf s o = some outcome) :
    ∃ op, s.ops[o]? = some op ∧ op.status = .completed outcome := by
  unfold outcomeOf at h
  split at h
  · next hm =>
    obtain ⟨op, hop, hst⟩ := Option.map_eq_some_iff.mp hm
    cases h
    exact ⟨op, hop, hst⟩
  · cases h

theorem outcomeOf_run {tr : List Action} {o : TaskId} {op : Operation} {outcome : Outcome}
    (hs : Sane s) (h : Runs.run step s tr = .ok s') (hop : s.ops[o]? = some op)
    (ht : op.trigger = .EAGER) (hc : op.status = .completed outcome) :
    outcomeOf s' o = some outcome := by
  have hi := Runs.run_invariant (fun t => Sane t ∧ t.ops[o]? = some op) ?_ h ⟨hs, hop⟩
  · simp [outcomeOf, hi.2, hc]
  · rintro t a t' ⟨hs, hop⟩ hstep
    have hst := step_spec hstep
    exact ⟨sane_step hs hst, completed_step hs hst hop ht hc⟩

/-- What becomes of the operation of an eager call: it still carries the result,
and the error on its socket is the last one that was recorded there since the
call, or the one that the call left. -/
structure Carried (s₁ s₂ s : State) (tr : List Action) (op : Operation) (outcome : Outcome) :
    Prop where
  func : op.func = carrier outcome
  trigger : op.trigger = .EAGER
  hard : ∀ e, outcome = .setError e → hard e = true
  error : errorOf s.handles op.socket =
    (records op.socket s₂ tr).getLastD (errorAfter (errorOf s₁.handles op.socket) outcome)

theorem run_carried {tr : List Action} {s₁ s₂ : State} {op : Operation} {outcome : Outcome}
    (hs₁ : Sane s₁) (ho : eagerOutcome s₁ a = some outcome) (h₂ : step s₁ a = .ok s₂)
    (h : Runs.run step s₂ tr = .ok s) (hop : s.ops[s₁.ops.length]? = some op) :
    Carried s₁ s₂ s tr op outcome := by
  obtain ⟨socket, hc⟩ := step_carries hs₁ ho h₂
  have hop₂ : s₂.ops[s₁.ops.length]? =
      some { func := carrier outcome, socket := socket, trigger := .EAGER } := by
    simp [hc.ops]
  have hl := later_of_run h hop₂ hop
  have hsocket : op.socket = socket := hl.socket
  have hlt : socket < s₂.handles.length := (sane_step hs₁ (step_spec h₂)).sockets _ _ hop₂
  refine ⟨hl.func, hl.trigger, hc.hard, ?_⟩
  rw [hsocket, errorOf_run hlt h, hc.error]

/-- An operation whose system call was made eagerly completes with the result
of that call exactly when the error recorded at its start lets it through: the
last one that the steps since the call recorded on the socket, or else the one
that the call left. -/
theorem eager_outcome_iff (config : Config) (tr tr' : List Action) {s₁ s₂ : State}
    {outcome : Outcome} {op : Operation} (h₁ : run config tr = .ok s₁)
    (ho : eagerOutcome s₁ a = some outcome) (h₂ : step s₁ a = .ok s₂)
    (h : Runs.run step s₂ tr' = .ok s) (hop : s.ops[s₁.ops.length]? = some op)
    (hc : op.status = .connected) :
    ((∃ s', step s (.start s₁.ops.length) = .ok s' ∧
      ∀ tr'' t, Runs.run step s' tr'' = .ok t → outcomeOf t s₁.ops.length = some outcome) ↔
      passes (errorOf s.handles op.socket) outcome = true) ∧
    ((∃ s', step s (.start s₁.ops.length) = .ok s' ∧
      ∀ tr'' t, Runs.run step s' tr'' = .ok t → outcomeOf t s₁.ops.length = some outcome) ↔
      passes
        ((records op.socket s₂ tr').getLastD (errorAfter (errorOf s₁.handles op.socket) outcome))
        outcome = true) := by
  have hs₁ := run_sane h₁
  have hs₂ := sane_step hs₁ (step_spec h₂)
  have hs : Sane s := Runs.run_invariant Sane (fun _ _ _ hs h => sane_step hs (step_spec h)) h hs₂
  have hcar := run_carried hs₁ ho h₂ h hop
  rw [← hcar.error, and_self, ← start_carrier hop hc hcar.trigger hcar.func hcar.hard]
  constructor
  · rintro ⟨s', hstart, hall⟩
    exact ⟨s', hstart, hall [] s' rfl⟩
  · rintro ⟨s', hstart, hout⟩
    refine ⟨s', hstart, fun tr'' t ht => ?_⟩
    have hst := step_spec hstart
    obtain ⟨op', hop', hcomp⟩ := outcomeOf_eq_some hout
    obtain ⟨op'', hop'', hn⟩ := op_forward hst hop
    rw [hop'] at hop''
    cases hop''
    exact outcomeOf_run (sane_step hs hst) ht hop' (hn.trigger.trans hcar.trigger) hcomp

/-- Bytes that were received are dropped for the error of an earlier call. -/
theorem result_dropped : ¬ ∀ (config : Config) (tr tr' : List Action) (a : Action) (s₁ s₂ s : State)
    (outcome : Outcome) (op : Operation), run config tr = .ok s₁ →
      eagerOutcome s₁ a = some outcome →
    step s₁ a = .ok s₂ → Runs.run step s₂ tr' = .ok s → s.ops[s₁.ops.length]? = some op →
    op.status = .connected →
    ∃ s', step s (.start s₁.ops.length) = .ok s' ∧ outcomeOf s' s₁.ops.length = some outcome := by
  intro h
  obtain ⟨s', hstart, hout⟩ :=
    h {} [.emplace 5#32, .recvmsg 0 [.failed ⟨ECONNRESET, by decide⟩]] [.connect 1]
    (.recvmsg 0 [.transferred 7]) _ _ _ (.setValue (.length 7)) _ rfl rfl rfl rfl rfl rfl
  cases hstart
  exact absurd hout (by decide)

theorem eager_outcome_interrupted : ∃ s₁ s₂ s op s',
    run {} [.emplace 5#32, .sendmsg 0 [.failed ⟨EAGAIN, by decide⟩]] = .ok s₁ ∧
    step s₁ (.recvmsg 0 [.failed ⟨EINTR, by decide⟩, .transferred 7]) = .ok s₂ ∧
    Runs.run step s₂ [.recvmsg 0 [.failed ⟨EAGAIN, by decide⟩], .connect 1] = .ok s ∧
    s.ops[1]? = some op ∧ op.status = .connected ∧
    records op.socket s₂ [.recvmsg 0 [.failed ⟨EAGAIN, by decide⟩], .connect 1] = [EAGAIN] ∧
    step s (.start 1) = .ok s' ∧
    ∀ tr t, Runs.run step s' tr = .ok t → outcomeOf t 1 = some (.setValue (.length 7)) := by
  obtain ⟨s', hstart, hout⟩ := (eager_outcome_iff {}
    [.emplace 5#32, .sendmsg 0 [.failed ⟨EAGAIN, by decide⟩]]
    [.recvmsg 0 [.failed ⟨EAGAIN, by decide⟩], .connect 1]
    (a := .recvmsg 0 [.failed ⟨EINTR, by decide⟩, .transferred 7])
    rfl rfl rfl rfl rfl rfl).2.mpr rfl
  exact ⟨_, _, _, _, s', rfl, rfl, rfl, rfl, rfl, rfl, hstart, hout⟩

theorem attempt_error {eager : Bool} {socket : HandleId} {trigger : ExecutionTrigger}
    {func : Completion} {answers : List Answer} {succeed : State → Answer → Except Fault State}
    {fault : Fault} (h : attempt s eager socket trigger func answers succeed = .error fault)
    (hs : ∀ t answer fault, succeed t answer = .error fault → fault = .disabled) :
    fault = .disabled := by
  unfold attempt at h
  split at h
  · cases h; rfl
  · split at h
    · split at h
      · cases h; rfl
      · simp only at h
        split at h <;> cases h
      · exact hs _ _ _ h
    · cases h

theorem acceptSucceed_error {socket : HandleId} {address : Span} {answer : Answer} {fault : Fault}
    (h : acceptSucceed socket address s answer = .error fault) : fault = .disabled := by
  unfold acceptSucceed at h
  split at h
  · split at h
    · cases h; rfl
    · split at h <;> cases h
  · cases h; rfl

theorem transferSucceed_error {socket : HandleId} {answer : Answer} {fault : Fault}
    (h : transferSucceed socket s answer = .error fault) : fault = .disabled := by
  unfold transferSucceed at h
  split at h <;> cases h
  rfl

theorem connectDialog_error {socket : HandleId} {answers : List Answer} {fault : Fault}
    (h : connectDialog s socket answers = .error fault) : fault = .disabled := by
  unfold connectDialog at h
  split at h
  · cases h; rfl
  · split at h <;> cases h
    rfl

theorem connect_error {o : TaskId} {fault : Fault} (h : connect s o = .error fault) :
    fault = .disabled := by
  unfold connect at h
  split at h
  · cases h; rfl
  · split at h
    · cases h; rfl
    · split at h
      · split at h <;> cases h
      · cases h

theorem poll_error {w : Nat} {begin : Int} {answers : List PollAnswer} {fault : Fault}
    (h : poll s w begin answers = .error fault) : fault = .disabled := by
  unfold poll at h
  split at h
  · cases h; rfl
  · split at h
    · cases h; rfl
    · split at h <;> cases h
      rfl

theorem pass_error {w : Nat} {getsockopt : Fd → Except Errno Int} {fault : Fault}
    (h : pass s w getsockopt = .error fault) :
    fault = .disabled ∨ fault = .nullSocket ∨ fault = .outOfRange := by
  unfold Executor.pass at h
  split at h
  · cases h; exact .inl rfl
  · split at h
    · cases h; exact .inl rfl
    · simp only at h
      split at h <;> cases h
      · exact .inr (.inl rfl)
      · exact .inr (.inr rfl)

theorem step_error {fault : Fault} (h : step s a = .error fault) :
    fault = .disabled ∨
      (∃ w getsockopt, a = .pass w getsockopt ∧ (fault = .nullSocket ∨ fault = .outOfRange)) ∨
      (∃ o, a = .start o) ∨ ∃ w answers, a = .execute w answers := by
  cases a with
  | start o => exact .inr (.inr (.inl ⟨o, rfl⟩))
  | execute w answers => exact .inr (.inr (.inr ⟨w, answers, rfl⟩))
  | pass w getsockopt => exact (pass_error h).imp_right fun hf => .inl ⟨w, getsockopt, rfl, hf⟩
  | accept socket address answers =>
    exact .inl (attempt_error h fun _ _ _ h => acceptSucceed_error h)
  | recvmsg socket answers | sendmsg socket answers =>
    exact .inl (attempt_error h fun _ _ _ h => transferSucceed_error h)
  | connectDialog socket answers => exact .inl (connectDialog_error h)
  | connect o => exact .inl (connect_error h)
  | poll w begin answers => exact .inl (poll_error h)
  | emplace fd => simp only [step, emplace] at h; split at h <;> cases h; exact .inl rfl
  | copyDialog socket => simp only [step, copyDialog] at h; split at h <;> cases h; exact .inl rfl
  | dropDialog socket => simp only [step, dropDialog] at h; split at h <;> cases h; exact .inl rfl
  | set socket d => simp only [step, setUser] at h; split at h <;> cases h; exact .inl rfl
  | snapshot interval => cases h
  | finish w =>
    simp only [step, finish] at h
    split at h
    · cases h; exact .inl rfl
    · split at h <;> cases h
      exact .inl rfl

theorem invoke_emptyFunctor (s : State) {func : Completion} (answers : List Answer) :
    invoke s func answers = .error .emptyFunctor ↔ func = .empty := by
  constructor
  · intro h
    unfold invoke at h
    split at h
    · rfl
    all_goals try cases h
    split at h
    · cases h
    · split at h <;> cases h
  · rintro rfl
    rfl

theorem complete_emptyFunctor {o : TaskId} {op : Operation} {answers : List Answer} :
    complete s o op answers = .error .emptyFunctor ↔
      hard (errorOf s.handles op.socket) = false ∧ op.func = .empty := by
  unfold complete
  cases hh : hard (errorOf s.handles op.socket) with
  | true => simp
  | false =>
    rw [← invoke_emptyFunctor s answers]
    cases hi : invoke s op.func answers with
    | error fault => simp
    | ok r =>
      obtain ⟨t, r⟩ := r
      cases r <;> simp

/-- An operation with an empty functor is started while a hard error is recorded. -/
def Guarded (s : State) (a : Action) : Prop :=
  ∀ o op, a = .start o → s.ops[o]? = some op → op.status = .connected → op.func = .empty →
    hard (errorOf s.handles op.socket) = true

theorem start_emptyFunctor {o : TaskId} :
    start s o = .error .emptyFunctor ↔ ∃ op, s.ops[o]? = some op ∧ op.status = .connected ∧
      (op.trigger = .EAGER ∨ hard (errorOf s.handles op.socket) = true) ∧
      hard (errorOf s.handles op.socket) = false ∧ op.func = .empty := by
  unfold start
  cases hop : s.ops[o]? with
  | none => simp
  | some op =>
    simp only [Option.some.injEq, exists_eq_left']
    split
    · next hst => simp [hst]
    · next hst =>
      split
      · next hc =>
        rw [complete_emptyFunctor]
        simp only [Bool.or_eq_true, beq_iff_eq] at hc
        exact ⟨fun h => ⟨not_not.mp hst, hc, h⟩, fun h => h.2.2⟩
      · next hc =>
        simp only [Bool.or_eq_true, beq_iff_eq] at hc
        constructor
        · intro h
          split at h <;> cases h
        · exact fun h => absurd h.2.1 hc

theorem execute_emptyFunctor {w : Nat} {answers : List Answer} (hs : Sane s) :
    execute s w answers ≠ .error .emptyFunctor := by
  intro h
  unfold execute at h
  cases hw : s.waits[w]? with
  | none => simp only [hw] at h; cases h
  | some wait =>
    simp only [hw] at h
    cases hr : wait.ready with
    | nil => simp only [hr] at h; cases h
    | cons o ready =>
      simp only [hr] at h
      cases hop : s.ops[o]? with
      | none => simp only [hop] at h; cases h
      | some op =>
        simp only [hop] at h
        -- a task that was queued waits for an event, and so its functor is not empty
        obtain ⟨fd, d, hd⟩ := hs.ready wait (List.mem_of_getElem? hw) o (hr ▸ List.mem_cons_self)
        rw [target_of_getElem? hop, hs.functors o op hop (complete_emptyFunctor.mp h).2] at hd
        cases d <;> cases hd

theorem step_emptyFunctor (hs : Sane s) : step s a = .error .emptyFunctor ↔ ¬Guarded s a := by
  constructor
  · intro h hg
    obtain hf | ⟨_, _, _, hf | hf⟩ | ⟨o, rfl⟩ | ⟨w, answers, rfl⟩ := step_error h
    · cases hf
    · cases hf
    · cases hf
    · obtain ⟨op, hop, hst, -, hh, hf⟩ := start_emptyFunctor.mp h
      rw [hg o op rfl hop hst hf] at hh
      cases hh
    · exact execute_emptyFunctor hs h
  · intro h
    unfold Guarded at h
    push Not at h
    obtain ⟨o, op, rfl, hop, hst, hf, hh⟩ := h
    exact start_emptyFunctor.mpr
      ⟨op, hop, hst, .inl (hs.functors o op hop hf), by simpa using hh, hf⟩

theorem connectDialog_sender {socket : HandleId} {answers : List Answer}
    (h : connectDialog s socket answers = .ok s') :
    s'.ops = s.ops ++ [{ func := .connect, socket := socket, trigger := .WRITE }] := by
  unfold connectDialog at h
  split at h
  · cases h
  · split at h <;> cases h <;> rfl

theorem attempt_empty {eager : Bool} {socket : HandleId} {trigger : ExecutionTrigger}
    {func : Completion} {answers : List Answer} {succeed : State → Answer → Except Fault State}
    {o : TaskId} {op : Operation} (hs : Sane s) (hf : func ≠ .empty)
    (hsucc : ∀ answer t, succeed { s with counter := s.counter + 1#8 } answer = .ok t →
      t.ops[o]? = some op → op.func ≠ .empty)
    (h : attempt s eager socket trigger func answers succeed = .ok s') (hn : s.ops[o]? = none)
    (hop : s'.ops[o]? = some op) (he : op.func = .empty) :
    o = s.ops.length ∧ attempts s eager = true ∧
      ∃ errno : Errno, retry answers = some (.failed errno) ∧ hard errno = true := by
  unfold attempt at h
  split at h
  · cases h
  · next hd =>
    split at h
    · next ha =>
      split at h
      · cases h
      · next errno hr =>
        have hlt := hs.dialogs socket (not_not.mp hd)
        simp only [errorOf_recordError _ _ _ hlt] at h
        split at h
        · next hh =>
          cases h
          exact ⟨(getElem?_snoc_new hn hop).1, ha, errno, hr, hh⟩
        · cases h
          obtain ⟨-, rfl⟩ := getElem?_snoc_new hn hop
          exact absurd he hf
      · exact absurd he (hsucc _ _ h hop)
    · cases h
      obtain ⟨-, rfl⟩ := getElem?_snoc_new hn hop
      exact absurd he hf

theorem acceptSucceed_func {socket : HandleId} {address : Span} {answer : Answer} {t : State}
    {o : TaskId} {op : Operation} (hn : s.ops[o]? = none)
    (h : acceptSucceed socket address { s with counter := s.counter + 1#8 } answer = .ok t)
    (hop : t.ops[o]? = some op) : op.func ≠ .empty := by
  unfold acceptSucceed at h
  split at h
  · split at h
    · cases h
    · split at h
      · cases h
        obtain ⟨-, rfl⟩ := getElem?_snoc_new hn hop
        exact Completion.noConfusion
      · cases h
        cases hn.symm.trans hop
  · cases h

theorem transferSucceed_func {socket : HandleId} {answer : Answer} {t : State} {o : TaskId}
    {op : Operation} (hn : s.ops[o]? = none)
    (h : transferSucceed socket { s with counter := s.counter + 1#8 } answer = .ok t)
    (hop : t.ops[o]? = some op) : op.func ≠ .empty := by
  unfold transferSucceed at h
  split at h
  · cases h
    obtain ⟨-, rfl⟩ := getElem?_snoc_new hn hop
    exact Completion.noConfusion
  · cases h

theorem step_empty {o : TaskId} {op : Operation} (hs : Sane s) (h : step s a = .ok s')
    (hn : s.ops[o]? = none) (hop : s'.ops[o]? = some op) (he : op.func = .empty) :
    o = s.ops.length ∧ ∃ e, eagerOutcome s a = some (.setError e) := by
  have same : s'.ops = s.ops → o = s.ops.length ∧ ∃ e, eagerOutcome s a = some (.setError e) := by
    intro hops
    rw [hops, hn] at hop
    cases hop
  have longer : s'.ops.length = s.ops.length →
      o = s.ops.length ∧ ∃ e, eagerOutcome s a = some (.setError e) := by
    intro hlen
    have hlt := (List.getElem?_eq_some_iff.mp hop).1
    exact absurd (hlen ▸ hlt) (Nat.not_lt.mpr (List.getElem?_eq_none_iff.mp hn))
  cases a with
  | accept socket address answers =>
    obtain ⟨rfl, ha, errno, hr, hh⟩ := attempt_empty hs Completion.noConfusion
      (fun _ _ => acceptSucceed_func hn) h hn hop he
    exact ⟨rfl, errno, by simp [eagerOutcome, ha, hr, acceptOutcome, hh]⟩
  | recvmsg socket answers | sendmsg socket answers =>
    obtain ⟨rfl, ha, errno, hr, hh⟩ := attempt_empty hs Completion.noConfusion
      (fun _ _ => transferSucceed_func hn) h hn hop he
    exact ⟨rfl, errno, by simp [eagerOutcome, ha, hr, transferOutcome, hh]⟩
  | connectDialog socket answers =>
    rw [connectDialog_sender h] at hop
    obtain ⟨-, rfl⟩ := getElem?_snoc_new hn hop
    cases he
  | set socket d =>
    simp only [step, setUser] at h
    split at h
    · cases h
      obtain ⟨-, rfl⟩ := getElem?_snoc_new hn hop
      cases he
    · cases h
  | emplace fd | copyDialog socket | dropDialog socket =>
    simp only [step, emplace, copyDialog, dropDialog] at h
    split at h
    · cases h
      exact same rfl
    · cases h
  | connect o => cases connect_step h <;> first | exact longer (by simp) | contradiction
  | start o =>
    cases start_step h with
    | inline _ _ _ hc =>
      obtain ⟨_, hops⟩ := hc.ops
      exact longer (by simp [hops])
    | queue _ _ _ _ _ => exact longer (by simp)
    | issue hi _ => cases hi
  | snapshot interval =>
    cases h
    exact same rfl
  | poll w begin answers => cases poll_step h <;> first | exact same rfl | contradiction
  | pass w getsockopt => cases pass_step h <;> first | exact same rfl | contradiction
  | execute w answers =>
    cases execute_step h with
    | execute _ _ _ hc =>
      obtain ⟨_, hops⟩ := hc.ops
      exact longer (by simp [hops, popped])
    | issue hi _ => cases hi
  | finish w => cases finish_step h <;> first | exact same rfl | contradiction

/-- Every operation whose eager call failed is started while the last error
recorded on its socket since that call, or the call's own, is a hard one. -/
def GuardedSince (config : Config) (tr : List Action) : Prop :=
  ∀ tr₁ a tr₂ tr₃ s₁ s₂ s op e, tr = tr₁ ++ a :: tr₂ ++ .start s₁.ops.length :: tr₃ →
    run config tr₁ = .ok s₁ → eagerOutcome s₁ a = some (.setError e) → step s₁ a = .ok s₂ →
    Runs.run step s₂ tr₂ = .ok s → s.ops[s₁.ops.length]? = some op → op.status = .connected →
    hard ((records op.socket s₂ tr₂).getLastD e) = true

theorem empty_origin {config : Config} {tr : List Action} {o : TaskId} {op : Operation}
    (h : run config tr = .ok s) (hop : s.ops[o]? = some op) (hf : op.func = .empty) :
    ∃ tr₁ a tr₂ s₁ s₂ e, tr = tr₁ ++ a :: tr₂ ∧ run config tr₁ = .ok s₁ ∧ o = s₁.ops.length ∧
      eagerOutcome s₁ a = some (.setError e) ∧ step s₁ a = .ok s₂ ∧
        Runs.run step s₂ tr₂ = .ok s := by
  obtain ⟨tr₁, a, tr₂, s₁, s₂, htr, h₁, hnot, h₂, ⟨op₂, hop₂, hf₂⟩, h⟩ :=
    Runs.exists_step (fun t => ∃ op, t.ops[o]? = some op ∧ op.func = .empty) h
      (by simp [initial]) ⟨op, hop, hf⟩
  have hn : s₁.ops[o]? = none := by
    obtain ⟨op₁, hop₁, hnext⟩ | ⟨hn, -⟩ := op_backward (step_spec h₂) hop₂
    · exact absurd ⟨op₁, hop₁, hnext.func.symm.trans hf₂⟩ hnot
    · exact hn
  obtain ⟨ho, e, he⟩ := step_empty (run_sane h₁) h₂ hn hop₂ hf₂
  exact ⟨tr₁, a, tr₂, s₁, s₂, e, htr, h₁, ho, he, h₂, h⟩

theorem guarded_iff_since (config : Config) (tr : List Action) :
    Runs.Along step Guarded (initial config) tr ↔ GuardedSince config tr := by
  rw [Runs.along_iff]
  constructor
  · intro hg tr₁ a tr₂ tr₃ s₁ s₂ s op e htr h₁ he h₂ h hop hst
    have hcar := run_carried (run_sane h₁) he h₂ h hop
    have hrun : run config (tr₁ ++ a :: tr₂) = .ok s :=
      Runs.run_append_ok.mpr ⟨s₁, h₁, Runs.run_cons_ok.mpr ⟨s₂, h₂, h⟩⟩
    have hh := hg _ _ _ s htr hrun _ op rfl hop hst hcar.func
    rwa [hcar.error] at hh
  · rintro hg tr' a' tr₃ s htr hrun o op rfl hop hst hf
    obtain ⟨tr₁, a, tr₂, s₁, s₂, e, rfl, h₁, rfl, he, h₂, h⟩ := empty_origin hrun hop hf
    rw [(run_carried (run_sane h₁) he h₂ h hop).error]
    exact hg tr₁ a tr₂ tr₃ s₁ s₂ s op e htr h₁ he h₂ h hop hst

/-- No empty functor is invoked exactly in the runs that start the operations
holding one while a hard error is recorded on their socket. In terms of the
steps: while the last error recorded since the eager call failed is a hard one. -/
theorem no_empty_functor_iff (config : Config) (tr : List Action) :
    (run config tr ≠ .error .emptyFunctor ↔ Runs.Along step Guarded (initial config) tr) ∧
    (run config tr ≠ .error .emptyFunctor ↔ GuardedSince config tr) := by
  rw [← guarded_iff_since, and_self, Runs.along_iff, ne_eq, Runs.run_error_iff]
  constructor
  · intro h tr₁ a tr₂ u htr hu
    by_contra hg
    exact h ⟨tr₁, a, tr₂, u, htr, hu, (step_emptyFunctor (run_sane hu)).mpr hg⟩
  · rintro h ⟨tr₁, a, tr₂, u, htr, hu, he⟩
    exact (step_emptyFunctor (run_sane hu)).mp he (h tr₁ a tr₂ u htr hu)

/-- An operation that would block softens the error that another one failed with. -/
theorem empty_functor_invoked : ¬ ∀ (config : Config) (tr : List Action),
    run config tr ≠ .error .emptyFunctor := by
  intro h
  exact h {} [.emplace 5#32, .recvmsg 0 [.failed ⟨ECONNRESET, by decide⟩],
    .recvmsg 0 [.failed ⟨EAGAIN, by decide⟩], .connect 0, .start 0] rfl

end AsyncBerkeley.Completions
