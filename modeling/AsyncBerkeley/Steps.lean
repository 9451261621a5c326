import AsyncBerkeley.Passes
import AsyncBerkeley.Executor

namespace AsyncBerkeley.Steps

open Events InterestList SocketHandles PollMultiplexer Operations Executor Passes

/-- Handles keep their descriptors; at most one new handle is constructed, on
a descriptor that no live handle owns and without an error, and only it is held
by a new dialog. -/
structure Grows (s s' : State) : Prop where
  descriptor : ∀ h < s.handles.length, descriptor s'.handles h = descriptor s.handles h
  dialogs : (s'.handles.length = s.handles.length ∧ ∀ h ∈ s'.dialogs, h ∈ s.dialogs) ∨
    ∃ fd, (fd = INVALID_SOCKET ∨ fresh s fd = true) ∧
      s'.handles.length = s.handles.length + 1 ∧
      SocketHandles.descriptor s'.handles s.handles.length = fd ∧
      ∀ h ∈ s'.dialogs, h ∈ s.dialogs ∨ h = s.handles.length
  newborn : errorOf s'.handles s.handles.length = 0

theorem Grows.of_record (s : State) {handles : Handles} {dialogs : List HandleId} {s' : State}
    (hh : handles = s.handles ∨ ∃ h error, handles = recordError s.handles h error)
    (hd : ∀ h ∈ dialogs, h ∈ s.dialogs) (he : s'.handles = handles) (hd' : s'.dialogs = dialogs) :
    Grows s s' := by
  obtain rfl | ⟨h, error, rfl⟩ := hh
  · exact ⟨fun _ _ => by rw [he], .inl ⟨by rw [he], by rw [hd']; exact hd⟩,
      by rw [he, errorOf_of_length_le (Nat.le_refl _)]⟩
  · exact ⟨fun _ _ => by rw [he, descriptor_recordError], .inl ⟨by rw [he, length_recordError],
      by rw [hd']; exact hd⟩, by rw [he, errorOf_of_length_le (by simp)]⟩

theorem Grows.refl (s : State) : Grows s s := .of_record s (.inl rfl) (fun _ h => h) rfl rfl

theorem Grows.adopt (s : State) (fd : Fd) (h : fd = INVALID_SOCKET ∨ fresh s fd = true) :
    Grows s (adopt s fd) where
  descriptor := fun _ hh => descriptor_append s.handles _ hh _
  dialogs :=
    .inr ⟨fd, h, by simp [Executor.adopt], by simp [Executor.adopt, SocketHandles.descriptor],
    by simp [Executor.adopt]⟩
  newborn := by simp [Executor.adopt, errorOf]

structure Issued (s s' : State) : Prop where
  mux : s'.mux = s.mux
  waits : s'.waits = s.waits
  history : s'.history = s.history
  grows : Grows s s'
  ops : ∃ new, s'.ops = s.ops ++ new ∧ ∀ op ∈ new, op.status = .created ∧ op.demux = none ∧
    op.socket ∈ s.dialogs ∧ (op.func = .empty → op.trigger = .EAGER)

structure Completes (s s' : State) (o : TaskId) (op : Operation) : Prop where
  mux : s'.mux = s.mux
  waits : s'.waits = s.waits
  history : s'.history = s.history
  grows : Grows s s'
  ops : ∃ outcome, s'.ops = s.ops.set o { op with status := .completed outcome }

theorem issued_setSender {s : State} {socket : HandleId} {trigger : ExecutionTrigger}
    {func : Completion} {s₁ : State} (hm : s₁.mux = s.mux) (hw : s₁.waits = s.waits)
    (hh : s₁.history = s.history) (ho : s₁.ops = s.ops) (hg : Grows s s₁) (hs : socket ∈ s.dialogs)
    (hf : func = .empty → trigger = .EAGER) : Issued s (setSender s₁ socket trigger func) where
  mux := hm
  waits := hw
  history := hh
  grows := ⟨hg.descriptor, hg.dialogs, hg.newborn⟩
  ops := ⟨[{ func := func, socket := socket, trigger := trigger }], by simp [setSender, ho],
    by simpa using ⟨hs, hf⟩⟩

theorem issued_of_grows {s s' : State} (hm : s'.mux = s.mux) (hw : s'.waits = s.waits)
    (hh : s'.history = s.history) (ho : s'.ops = s.ops) (hg : Grows s s') : Issued s s' :=
  ⟨hm, hw, hh, hg, [], by simp [ho], by simp⟩

theorem attempt_issued {s s' : State} {eager : Bool} {socket : HandleId}
    {trigger : ExecutionTrigger} {func : Completion} {answers : List Answer}
    {succeed : State → Answer → Except Fault State} (hf : func ≠ .empty)
    (hs : ∀ answer t, socket ∈ s.dialogs →
      succeed { s with counter := s.counter + 1#8 } answer = .ok t → Issued s t)
    (h : attempt s eager socket trigger func answers succeed = .ok s') : Issued s s' := by
  unfold attempt at h
  split at h
  · cases h
  · next hd =>
    have hd : socket ∈ s.dialogs := not_not.mp hd
    split at h
    · split at h
      · cases h
      · next errno _ =>
        have hg : ∀ counter, Grows s { s with
            counter := counter, handles := recordError s.handles socket errno } := fun _ =>
          .of_record s (.inr ⟨socket, errno, rfl⟩) (fun _ h => h) rfl rfl
        simp only at h
        split at h
        · cases h
          exact issued_setSender rfl rfl rfl rfl (hg _) hd (fun _ => rfl)
        · cases h
          exact issued_setSender rfl rfl rfl rfl (hg _) hd (fun he => absurd he hf)
      · exact hs _ _ hd h
    · cases h
      refine issued_setSender rfl rfl rfl rfl ?_ hd (fun he => absurd he hf)
      exact .of_record s (.inl rfl) (fun _ h => h) rfl rfl

theorem acceptSucceed_issued {s s' : State} {socket : HandleId} {address : Span} {answer : Answer}
    (hd : socket ∈ s.dialogs)
    (h : acceptSucceed socket address { s with counter := s.counter + 1#8 } answer = .ok s') :
    Issued s s' := by
  unfold acceptSucceed at h
  split at h
  · next fd _ _ =>
    split at h
    · cases h
    · next hfresh =>
      have hf : ¬(!fresh s fd) = true := hfresh
      have hg := Grows.adopt s fd (.inr (by simpa using hf))
      split at h
      · cases h
        exact issued_setSender rfl rfl rfl rfl ⟨hg.descriptor, hg.dialogs, hg.newborn⟩ hd (by simp)
      · cases h
        exact issued_of_grows rfl rfl rfl rfl (.of_record s (.inl rfl) (fun _ h => h) rfl rfl)
  · cases h

theorem transferSucceed_issued {s s' : State} {socket : HandleId} {answer : Answer}
    (hd : socket ∈ s.dialogs)
    (h : transferSucceed socket { s with counter := s.counter + 1#8 } answer = .ok s') :
    Issued s s' := by
  unfold transferSucceed at h
  split at h
  · cases h
    exact issued_setSender rfl rfl rfl rfl (.of_record s (.inl rfl) (fun _ h => h) rfl rfl)
      hd (by simp)
  · cases h

theorem connectDialog_issued {s s' : State} {socket : HandleId} {answers : List Answer}
    (h : connectDialog s socket answers = .ok s') : Issued s s' := by
  unfold connectDialog at h
  split at h
  · cases h
  · next hd =>
    have hd : socket ∈ s.dialogs := not_not.mp hd
    split at h
    · cases h
      exact issued_setSender rfl rfl rfl rfl (.refl s) hd (by simp)
    · next errno _ =>
      cases h
      refine issued_setSender rfl rfl rfl rfl (.of_record s ?_ (fun _ h => h) rfl rfl) hd (by simp)
      unfold handleConnectError
      split
      · exact .inl rfl
      · exact .inr ⟨socket, errno, rfl⟩
    · cases h

theorem invoke_grows {s s' : State} {func : Completion} {answers : List Answer}
    {r : Except Errno Value} (h : invoke s func answers = .ok (s', r)) :
    s' = s ∨ ∃ fd, fresh s fd = true ∧ s' = adopt s fd := by
  unfold invoke at h
  split at h
  all_goals first
    | cases h; done
    | (cases h; exact .inl rfl)
    | skip
  next fd socklen nonblocking _ =>
    split at h
    · cases h
    · next hfresh =>
      split at h
      · cases h
        exact .inr ⟨fd, by simpa using hfresh, rfl⟩
      · cases h

theorem invoke_ops {s s' : State} {func : Completion} {answers : List Answer}
    {r : Except Errno Value} (h : invoke s func answers = .ok (s', r)) : s'.ops = s.ops := by
  rcases invoke_grows h with rfl | ⟨fd, -, rfl⟩ <;> rfl

theorem settle_completes {s s₁ : State} {o : TaskId} {op : Operation} {outcome : Outcome}
    (hm : s₁.mux = s.mux) (hw : s₁.waits = s.waits) (hh : s₁.history = s.history)
    (ho : s₁.ops = s.ops) (hg : Grows s s₁) : Completes s (settle s₁ o op outcome) o op :=
  ⟨hm, hw, hh, ⟨hg.descriptor, hg.dialogs, hg.newborn⟩, outcome, by simp [settle, ho]⟩

theorem complete_completes {s s' : State} {o : TaskId} {op : Operation} {answers : List Answer}
    (h : complete s o op answers = .ok s') : Completes s s' o op := by
  unfold complete at h
  split at h
  · cases h
    have hg : Grows s (discardResult s op.func) := by
      unfold discardResult
      split
      · exact .of_record s (.inl rfl) (fun _ => List.mem_of_mem_erase) rfl rfl
      · exact .refl s
    apply settle_completes _ _ _ _ hg <;> (unfold discardResult; split <;> rfl)
  · split at h
    · cases h
    all_goals
      next hi =>
      cases h
      obtain rfl | ⟨fd, hfresh, rfl⟩ := invoke_grows hi
      · exact settle_completes rfl rfl rfl rfl (.refl _)
      · exact settle_completes rfl rfl rfl rfl (.adopt _ _ (.inr hfresh))

theorem complete_outcome {s s' : State} {o : TaskId} {op : Operation} {answers : List Answer}
    (h : complete s o op answers = .ok s') : ∃ outcome,
      s'.ops = s.ops.set o { op with status := .completed outcome } ∧
      ((hard (errorOf s.handles op.socket) = true ∧
        outcome = .setError (errorOf s.handles op.socket)) ∨
        (hard (errorOf s.handles op.socket) = false ∧ ∃ t r, invoke s op.func answers = .ok (t, r) ∧
          ((∃ v, r = .ok v ∧ outcome = .setValue v) ∨ ∃ errno : Errno, r = .error errno ∧
            outcome = .setError errno))) := by
  unfold complete at h
  split at h
  · next hh =>
    cases h
    refine ⟨_, ?_, .inl ⟨hh, rfl⟩⟩
    unfold discardResult settle
    split <;> rfl
  · next hh =>
    rw [Bool.not_eq_true] at hh
    split at h
    · cases h
    · next t v hi =>
      cases h
      exact ⟨_, by rw [settle, invoke_ops hi], .inr ⟨hh, t, _, hi, .inl ⟨v, rfl, rfl⟩⟩⟩
    · next t errno hi =>
      cases h
      exact ⟨_, by rw [settle, invoke_ops hi], .inr ⟨hh, t, _, hi, .inr ⟨errno, rfl, rfl⟩⟩⟩

def passed (s : State) (w : Nat) (p : Pass) (wait : Wait) : State :=
  { s with
    mux := p.mux
    handles := p.handles
    waits := s.waits.set w wait
    history := s.history ++ p.begun.map .processed }

def popped (s : State) (w : Nat) (wait : Wait) (o : TaskId) : State :=
  { s with waits := s.waits.set w wait, history := s.history ++ [.executed o] }

def issues : Action → Bool
  | .emplace _ | .copyDialog _ | .dropDialog _ | .accept _ _ _ | .recvmsg _ _ | .sendmsg _ _
  | .connectDialog _ _ | .set _ _ => true
  | .connect _ | .start _ | .snapshot _ | .poll _ _ _ | .pass _ _ | .execute _ _ | .finish _ =>
    false

/-- Everything a step that does not fault can do. -/
inductive Step (s : State) : Action → State → Prop where
  | issue {a s'} (ha : issues a = true) (h : Issued s s') : Step s a s'
  | register {o op} {d : Direction} (hop : s.ops[o]? = some op) (hs : op.status = .created)
      (he : hard (errorOf s.handles op.socket) = false) (ht : op.trigger = d.trigger)
      (hroom : toSize (descriptor s.handles op.socket) <
        (makeRoom s.mux.demux (descriptor s.handles op.socket)).length) :
      Step s (.connect o) { s with
        mux := ⟨makeRoom s.mux.demux (descriptor s.handles op.socket),
          s.mux.list.register (makePollEvent (descriptor s.handles op.socket) op.trigger)⟩
        ops := s.ops.set o { op with
          demux := some (toSize (descriptor s.handles op.socket)), status := .connected }
        history := s.history ++ [.registered (descriptor s.handles op.socket) op.trigger] }
  | abandon {o op} (hop : s.ops[o]? = some op) (hs : op.status = .created) :
      Step s (.connect o) { s with
        mux := ⟨makeRoom s.mux.demux (descriptor s.handles op.socket), s.mux.list⟩
        ops := s.ops.set o { op with status := .abandoned } }
  | idle {o op} (hop : s.ops[o]? = some op) (hs : op.status = .created)
      (hc : hard (errorOf s.handles op.socket) = true ∨ op.trigger = .EAGER) :
      Step s (.connect o) { s with ops := s.ops.set o { op with status := .connected } }
  | inline {o op s'} (hop : s.ops[o]? = some op) (hs : op.status = .connected)
      (he : op.trigger = .EAGER ∨ hard (errorOf s.handles op.socket) = true)
      (hc : Completes s s' o op) : Step s (.start o) s'
  | queue {o op} {d : Direction} {i demux} (hop : s.ops[o]? = some op) (hs : op.status = .connected)
      (ht : op.trigger = d.trigger) (hd : op.demux = some i) (hi : s.mux.demux[i]? = some demux) :
      Step s (.start o) { s with
        mux := { s.mux with demux := s.mux.demux.set i (push demux o op.trigger op.socket) }
        ops := s.ops.set o { op with status := .queued }
        history := s.history ++ [.queued o] }
  | snapshot {interval} : Step s (.snapshot interval) (snapshot s interval)
  | polled {w begin answers wait events} (hw : s.waits[w]? = some wait) (hp : wait.phase = .polling)
      (ha : ∀ answer ∈ answers, answer.allowed wait.list wait.interval = true)
      (hr : poll_ wait.list wait.interval begin answers = some (.ok events)) :
      Step s (.poll w begin answers)
        { s with waits := s.waits.set w { wait with list := events, phase := .polled } }
  | pollThrew {w begin answers wait errno} (hw : s.waits[w]? = some wait)
      (hp : wait.phase = .polling) :
      Step s (.poll w begin answers)
        { s with waits := s.waits.set w { wait with phase := .threw errno } }
  | passed {w getsockopt wait} (hw : s.waits[w]? = some wait) (hp : wait.phase = .polled)
      (hx : (handleEvents getsockopt { mux := s.mux, handles := s.handles } wait.list).2 = none) :
      Step s (.pass w getsockopt)
        (passed s w (handleEvents getsockopt { mux := s.mux, handles := s.handles } wait.list).1
          { wait with
            ready :=
              (handleEvents getsockopt { mux := s.mux, handles := s.handles } wait.list).1.ready
            phase := .running })
  | passThrew {w getsockopt wait errno} (hw : s.waits[w]? = some wait) (hp : wait.phase = .polled)
      (hx : (handleEvents getsockopt { mux := s.mux, handles := s.handles } wait.list).2 =
        some (.threw errno)) :
      Step s (.pass w getsockopt)
        (passed s w (handleEvents getsockopt { mux := s.mux, handles := s.handles } wait.list).1
          { wait with phase := .threw errno })
  | execute {w answers wait o ready op s'} (hw : s.waits[w]? = some wait)
      (hr : wait.ready = o :: ready) (hop : s.ops[o]? = some op)
      (hc : Completes (popped s w { wait with ready := ready } o) s' o op) :
      Step s (.execute w answers) s'
  | finish {w wait} (hw : s.waits[w]? = some wait) (hp : wait.phase = .running)
      (hr : wait.ready = []) :
      Step s (.finish w) { s with waits := s.waits.set w { wait with phase := .returned } }

theorem connect_step {s s' : State} {o : TaskId} (h : connect s o = .ok s') :
    Step s (.connect o) s' := by
  unfold connect at h
  cases hop : s.ops[o]? with
  | none => simp only [hop] at h; cases h
  | some op =>
    simp only [hop] at h
    split at h
    · cases h
    · next hs =>
      have hs : op.status = .created := not_not.mp hs
      split at h
      · next hc =>
        simp only [Bool.and_eq_true, Bool.not_eq_true', bne_iff_ne, ne_eq] at hc
        obtain ⟨d, ht⟩ := exists_direction hc.2
        unfold register at h
        by_cases hroom : toSize (descriptor s.handles op.socket) <
            (makeRoom s.mux.demux (descriptor s.handles op.socket)).length
        · simp only [hroom, ↓reduceIte] at h
          cases h
          exact .register hop hs hc.1 ht hroom
        · simp only [hroom, ↓reduceIte] at h
          cases h
          exact .abandon hop hs
      · next hc =>
        simp only [Bool.and_eq_true, Bool.not_eq_true', bne_iff_ne, ne_eq,
          not_and_or, Bool.not_eq_false, not_not] at hc
        cases h
        exact .idle hop hs hc

theorem start_step {s s' : State} {o : TaskId} (h : start s o = .ok s') : Step s (.start o) s' := by
  unfold start at h
  cases hop : s.ops[o]? with
  | none => simp only [hop] at h; cases h
  | some op =>
    simp only [hop] at h
    split at h
    · cases h
    · next hs =>
      have hs : op.status = .connected := not_not.mp hs
      split at h
      · next hc =>
        simp only [Bool.or_eq_true, beq_iff_eq] at hc
        exact .inline hop hs hc (complete_completes h)
      · next hc =>
        simp only [Bool.or_eq_true, beq_iff_eq, not_or] at hc
        obtain ⟨d, ht⟩ := exists_direction hc.1
        cases hd : op.demux with
        | none => simp only [hd, Option.bind_none] at h; cases h
        | some i =>
          cases hi : s.mux.demux[i]? with
          | none => simp only [hd, hi, Option.bind_some, Option.map_none] at h; cases h
          | some demux =>
            have hb : op.demux.bind (fun i => (s.mux.demux[i]?).map (fun demux => (i, demux))) =
                some (i, demux) := by simp [hd, hi]
            rw [hb] at h
            cases h
            exact .queue hop hs ht hd hi

theorem poll_step {s s' : State} {w : Nat} {begin : Int} {answers : List PollAnswer}
    (h : poll s w begin answers = .ok s') : Step s (.poll w begin answers) s' := by
  unfold poll at h
  cases hw : s.waits[w]? with
  | none => simp only [hw] at h; cases h
  | some wait =>
    simp only [hw] at h
    split at h
    · cases h
    · next hg =>
      simp only [not_or, not_not, Bool.not_eq_true', Bool.not_eq_false, List.all_eq_true] at hg
      split at h
      · cases h
      · cases h
        exact .pollThrew hw hg.1
      · next hr =>
        cases h
        exact .polled hw hg.1 hg.2 hr

theorem pass_step {s s' : State} {w : Nat} {getsockopt : Fd → Except Errno Int}
    (h : pass s w getsockopt = .ok s') : Step s (.pass w getsockopt) s' := by
  unfold Executor.pass at h
  cases hw : s.waits[w]? with
  | none => simp only [hw] at h; cases h
  | some wait =>
    simp only [hw] at h
    split at h
    · cases h
    · next hp =>
      have hp : wait.phase = .polled := not_not.mp hp
      cases hx : (handleEvents getsockopt { mux := s.mux, handles := s.handles } wait.list).2 with
      | none =>
        simp only [hx] at h
        cases h
        exact .passed hw hp hx
      | some exit =>
        simp only [hx] at h
        cases exit with
        | threw errno =>
          cases h
          exact .passThrew hw hp hx
        | nullSocket => cases h
        | outOfRange => cases h

theorem execute_step {s s' : State} {w : Nat} {answers : List Answer}
    (h : execute s w answers = .ok s') : Step s (.execute w answers) s' := by
  unfold execute at h
  cases hw : s.waits[w]? with
  | none => simp only [hw] at h; cases h
  | some wait =>
    simp only [hw] at h
    cases hr : wait.ready with
    | nil => simp only [hr] at h; cases h
    | cons o ready =>
      simp only [hr] at h
      cases hop : s.ops[o]? with
      | none => simp only [hop] at h; cases h
      | some op =>
        simp only [hop] at h
        exact .execute hw hr hop (complete_completes h)

theorem finish_step {s s' : State} {w : Nat} (h : finish s w = .ok s') : Step s (.finish w) s' := by
  unfold finish at h
  cases hw : s.waits[w]? with
  | none => simp only [hw] at h; cases h
  | some wait =>
    simp only [hw] at h
    split at h
    · next hp =>
      cases h
      exact .finish hw hp.1 hp.2
    · cases h

theorem step_spec {s s' : State} {a : Action} (h : step s a = .ok s') : Step s a s' := by
  cases a with
  | emplace fd =>
    simp only [step, emplace] at h
    split at h
    · next hf =>
      cases h
      exact .issue rfl (issued_of_grows rfl rfl rfl rfl (.adopt _ _ hf))
    · cases h
  | copyDialog socket =>
    simp only [step, copyDialog] at h
    split at h
    · next hd =>
      cases h
      refine .issue rfl (issued_of_grows rfl rfl rfl rfl (.of_record s (.inl rfl) ?_ rfl rfl))
      intro x hx
      obtain hx | hx := List.mem_append.mp hx
      · exact hx
      · exact List.mem_singleton.mp hx ▸ hd
    · cases h
  | dropDialog socket =>
    simp only [step, dropDialog] at h
    split at h
    · cases h
      exact .issue rfl (issued_of_grows rfl rfl rfl rfl
        (.of_record s (.inl rfl) (fun _ => List.mem_of_mem_erase) rfl rfl))
    · cases h
  | accept socket address answers =>
    exact .issue rfl (attempt_issued (by simp) (fun _ _ hd h => acceptSucceed_issued hd h) h)
  | recvmsg socket answers | sendmsg socket answers =>
    exact .issue rfl (attempt_issued (by simp) (fun _ _ hd h => transferSucceed_issued hd h) h)
  | connectDialog socket answers => exact .issue rfl (connectDialog_issued h)
  | set socket d =>
    simp only [step, setUser] at h
    split at h
    · next hd =>
      cases h
      exact .issue rfl (issued_setSender rfl rfl rfl rfl (.refl s) hd (by simp))
    · cases h
  | connect o => exact connect_step h
  | start o => exact start_step h
  | snapshot interval => cases h; exact .snapshot
  | poll w begin answers => exact poll_step h
  | pass w getsockopt => exact pass_step h
  | execute w answers => exact execute_step h
  | finish w => exact finish_step h

end AsyncBerkeley.Steps
