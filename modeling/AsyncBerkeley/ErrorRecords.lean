import AsyncBerkeley.Evolution

namespace AsyncBerkeley.ErrorRecords

open Events InterestList SocketHandles PollMultiplexer Operations Executor Passes Steps Evolution

/-- An eager attempt is made unless the counter wraps to zero. -/
def attempts (s : State) (eager : Bool) : Bool := eager && s.counter + 1#8 != 0#8

def failedWith (answers : List Answer) : List Int :=
  match retry answers with
  | some (.failed errno) => [errno.val]
  | _ => []

/-- The errors that `handle_connect_error` does not record. -/
def ignored (errno : Int) : Bool :=
  errno == EINPROGRESS || errno == EAGAIN || errno == EALREADY || errno == EISCONN

def reports (event : Pollfd) : Bool := test event.revents (POLLERR ||| POLLNVAL)

/-- The error that `set_error` records for an answer of `getsockopt`. -/
def code : Except Errno Int → Int
  | .ok error => error
  | .error errno => errno

/-- What a pass over the events records on the handle, up to the event that makes it throw. -/
def recordedBy (getsockopt : Fd → Except Errno Int) (socket : Fd → Option HandleId) (x : HandleId) :
    List Pollfd → List Int
  | [] => []
  | event :: events =>
    if fails getsockopt event then []
    else
      (if reports event && socket event.fd == some x then [code (getsockopt event.fd)] else []) ++
      recordedBy getsockopt socket x events

/-- The errors that a step records on the handle, in order. -/
def recordsIn (x : HandleId) (s : State) : Action → List Int
  | .accept socket _ answers =>
    if socket == x && attempts s s.config.eagerAccept then failedWith answers else []
  | .recvmsg socket answers =>
    if socket == x && attempts s s.config.eagerRecv then failedWith answers else []
  | .sendmsg socket answers =>
    if socket == x && attempts s s.config.eagerSend then failedWith answers else []
  | .connectDialog socket answers =>
    if socket == x then (failedWith answers).filter (fun errno => !ignored errno) else []
  | .pass w getsockopt =>
    match s.waits[w]? with
    | some wait => recordedBy getsockopt s.mux.socket x wait.list
    | none => []
  | _ => []

abbrev records (x : HandleId) (s : State) (tr : List Action) : List Int :=
  Runs.collect step (recordsIn x) s tr

variable {s s' : State} {a : Action} {handles : Handles} {x : HandleId}

theorem errorOf_recordError_of_ne {h : HandleId} (hne : h ≠ x) (error : Int) :
    errorOf (recordError handles h error) x = errorOf handles x := by
  simp [errorOf, recordError, hne]

theorem errorOf_recorded (h : HandleId) (hx : x < handles.length) (error : Int) :
    errorOf (recordError handles h error) x =
      (if h == x then [error] else []).getLastD (errorOf handles x) := by
  by_cases he : h = x
  · subst he
    simp [errorOf_recordError handles h error hx]
  · simp [he, errorOf_recordError_of_ne he]

theorem errorOf_adopt (handles : Handles) (fd : Fd) (x : HandleId) :
    errorOf (handles ++ [{ socket := fd }]) x = errorOf handles x := by
  by_cases hx : x < handles.length
  · simp [errorOf, List.getElem?_append_left hx]
  · have hx' := Nat.le_of_not_lt hx
    rw [errorOf, errorOf, List.getElem?_append_right hx', List.getElem?_eq_none hx']
    cases x - handles.length <;> rfl

theorem setError_code {answer : Except Errno Int} {socket : HandleId} {new : Handles}
    (h : setError answer socket handles = .ok new) :
    new = recordError handles socket (code answer) := by
  cases answer with
  | ok error => exact (Except.ok.inj h).symm
  | error errno =>
    by_cases he : errno.val ≠ EBADF ∧ errno.val ≠ ENOTSOCK
    · simp only [setError, handleGetsockoptError, if_pos he] at h
      cases h
    · simp only [setError, handleGetsockoptError, if_neg he] at h
      exact (Except.ok.inj h).symm

section

variable {getsockopt : Fd → Except Errno Int} {p : Pass} {event : Pollfd} {events : List Pollfd}

theorem reportError_recorded {demux : Demultiplexer} {new : Handles} (hx : x < handles.length)
    (h : reportError (getsockopt event.fd) event.revents demux handles = .ok new) :
    errorOf new x = (if reports event && demux.socket == some x
      then [code (getsockopt event.fd)] else []).getLastD (errorOf handles x) := by
  unfold reportError at h
  split at h
  · next hr =>
    split at h
    · next socket hs =>
      rw [setError_code h, errorOf_recorded socket hx, hs]
      simp only [reports, hr, Bool.true_and]
      by_cases he : socket = x <;> simp [he]
    · cases h
  · next hr =>
    rw [← Except.ok.inj h]
    simp [reports, hr]

theorem errorOf_round (hx : x < p.handles.length) (hn : (handleEvent getsockopt p event).2 = none) :
    errorOf (handleEvent getsockopt p event).1.handles x =
      (if reports event && p.mux.socket event.fd == some x
        then [code (getsockopt event.fd)] else []).getLastD (errorOf p.handles x) := by
  obtain ⟨demux, new, hd, hr, he⟩ | ⟨exit, he⟩ := handleEvent_cases getsockopt p event
  · have hs : p.mux.socket event.fd = demux.socket := by simp [Multiplexer.socket, hd]
    rw [he, hs]
    exact reportError_recorded hx hr
  · rw [he] at hn
    cases hn

theorem errorOf_exit {exit : Exit} (hn : (handleEvent getsockopt p event).2 = some exit) :
    (handleEvent getsockopt p event).1.handles = p.handles := by
  obtain ⟨_, _, _, _, he⟩ | ⟨_, he⟩ := handleEvent_cases getsockopt p event
  · rw [he] at hn
    cases hn
  · rw [he]

theorem errorOf_pass (hx : x < p.handles.length)
    (hn : ∀ exit, (handleEvents getsockopt p events).2 = some exit → ∃ errno, exit = .threw errno) :
    errorOf (handleEvents getsockopt p events).1.handles x =
      (recordedBy getsockopt p.mux.socket x events).getLastD (errorOf p.handles x) := by
  induction events generalizing p with
  | nil => rfl
  | cons event events ih =>
    cases hr : (handleEvent getsockopt p event).2 with
    | none =>
      have hf : Frame p (handleEvent getsockopt p event).1 := handleEvent_frame event
      rw [handleEvents_cons_of_none hr] at hn ⊢
      rw [ih (by rw [hf.handles]; exact hx) hn, errorOf_round hx hr, funext hf.socket, recordedBy,
        handleEvent_not_fails hr]
      exact (Runs.getLastD_append _ _ _).symm
    | some exit =>
      rw [handleEvents_cons_of_some hr] at hn ⊢
      obtain ⟨errno, rfl⟩ := hn exit hr
      rw [errorOf_exit hr, recordedBy, handleEvent_fails hr]
      rfl

end

theorem failedWith_eq_nil {answers : List Answer} {answer : Answer}
    (hr : retry answers = some answer) (hne : ∀ errno, answer = .failed errno → False) :
    failedWith answers = [] := by
  simp only [failedWith, hr]
  cases answer with
  | failed errno => exact (hne errno rfl).elim
  | accepted _ _ _ | transferred _ | succeeded => rfl

theorem errorOf_attempt {eager : Bool} {socket : HandleId} {trigger : ExecutionTrigger}
    {func : Completion} {answers : List Answer} {succeed : State → Answer → Except Fault State}
    (hx : x < s.handles.length)
    (hs : ∀ answer t, succeed { s with counter := s.counter + 1#8 } answer = .ok t →
      errorOf t.handles x = errorOf s.handles x)
    (h : attempt s eager socket trigger func answers succeed = .ok s') :
    errorOf s'.handles x = (if socket == x && attempts s eager then failedWith answers
      else []).getLastD (errorOf s.handles x) := by
  unfold attempt at h
  split at h
  · cases h
  · split at h
    · next ha =>
      have ha : attempts s eager = true := ha
      rw [ha, Bool.and_true]
      split at h
      · cases h
      · next errno hr =>
        have hrec := errorOf_recorded socket hx errno
        simp only [failedWith, hr]
        simp only at h
        split at h <;> (cases h; exact hrec)
      · next answer hne hr =>
        rw [hs _ _ h, failedWith_eq_nil hr hne, ite_self]
        rfl
    · next ha =>
      have ha : attempts s eager = false := Bool.eq_false_iff.mpr ha
      cases h
      rw [ha, Bool.and_false]
      rfl

theorem errorOf_acceptSucceed {socket : HandleId} {address : Span} {answer : Answer} {t : State}
    (h : acceptSucceed socket address { s with counter := s.counter + 1#8 } answer = .ok t) :
    errorOf t.handles x = errorOf s.handles x := by
  unfold acceptSucceed at h
  split at h
  · split at h
    · cases h
    · split at h
      · cases h
        exact errorOf_adopt _ _ _
      · cases h
        rfl
  · cases h

theorem errorOf_transferSucceed {socket : HandleId} {answer : Answer} {t : State}
    (h : transferSucceed socket { s with counter := s.counter + 1#8 } answer = .ok t) :
    errorOf t.handles x = errorOf s.handles x := by
  unfold transferSucceed at h
  split at h
  · cases h
    rfl
  · cases h

theorem handleConnectError_eq (handles : Handles) (socket : HandleId) (errno : Int) :
    handleConnectError handles socket errno =
      if ignored errno then handles else recordError handles socket errno := by
  simp [handleConnectError, ignored, or_assoc]

theorem errorOf_connectDialog {socket : HandleId} {answers : List Answer}
    (hx : x < s.handles.length) (h : connectDialog s socket answers = .ok s') :
    errorOf s'.handles x =
      (if socket == x then (failedWith answers).filter (fun errno => !ignored errno)
      else []).getLastD (errorOf s.handles x) := by
  unfold connectDialog at h
  split at h
  · cases h
  · split at h
    · next hr =>
      cases h
      simp [failedWith, hr, setSender]
    · next errno hr =>
      cases h
      simp only [setSender, handleConnectError_eq, failedWith, hr]
      cases hi : ignored errno.val with
      | true => simp [hi]
      | false => simpa [hi] using errorOf_recorded socket hx errno
    · cases h

theorem errorOf_complete {o : TaskId} {op : Operation} {answers : List Answer}
    (h : complete s o op answers = .ok s') : errorOf s'.handles x = errorOf s.handles x := by
  have invoked : ∀ {t r}, invoke s op.func answers = .ok (t, r) →
      errorOf t.handles x = errorOf s.handles x := by
    intro t r hi
    obtain rfl | ⟨fd, -, rfl⟩ := invoke_grows hi
    · rfl
    · exact errorOf_adopt _ _ _
  unfold complete at h
  split at h
  · cases h
    unfold discardResult
    split <;> rfl
  · split at h
    · cases h
    · next hi =>
      cases h
      simpa only [settle] using invoked hi
    · next hi =>
      cases h
      simpa only [settle] using invoked hi

theorem errorOf_step (hx : x < s.handles.length) (h : step s a = .ok s') :
    errorOf s'.handles x = (recordsIn x s a).getLastD (errorOf s.handles x) := by
  cases a with
  | emplace fd =>
    simp only [step, emplace] at h
    split at h
    · cases h
      exact errorOf_adopt _ _ _
    · cases h
  | copyDialog socket | dropDialog socket | set socket d =>
    simp only [step, copyDialog, dropDialog, setUser] at h
    split at h
    · cases h
      rfl
    · cases h
  | accept socket address answers => exact errorOf_attempt hx (fun _ _ => errorOf_acceptSucceed) h
  | recvmsg socket answers | sendmsg socket answers =>
    exact errorOf_attempt hx (fun _ _ => errorOf_transferSucceed) h
  | connectDialog socket answers => exact errorOf_connectDialog hx h
  | connect o => cases connect_step h <;> first | rfl | contradiction
  | start o =>
    cases start_step h with
    | inline hop _ he hc => exact errorOf_complete (start_complete h hop he)
    | queue _ _ _ _ _ => rfl
    | issue hi _ => cases hi
  | snapshot interval =>
    cases h
    rfl
  | poll w begin answers => cases poll_step h <;> first | rfl | contradiction
  | pass w getsockopt =>
    cases pass_step h with
    | passed hw _ hn =>
      simp only [recordsIn, hw]
      exact errorOf_pass hx (fun exit he => by rw [hn] at he; cases he)
    | passThrew hw _ hn =>
      simp only [recordsIn, hw]
      exact errorOf_pass hx (fun exit he => by rw [hn] at he; cases he; exact ⟨_, rfl⟩)
    | issue hi _ => cases hi
  | execute w answers =>
    cases execute_step h with
    | execute hw hr hop _ =>
      exact errorOf_complete (s := popped s w _ _) (execute_complete h hw hr hop)
    | issue hi _ => cases hi
  | finish w => cases finish_step h <;> first | rfl | contradiction

theorem length_step (h : step s a = .ok s') : s.handles.length ≤ s'.handles.length :=
  length_le_of_grows (step_grows (step_spec h))

/-- The error of a handle after a run is the last one recorded on it, or the one it had. -/
theorem errorOf_run {tr : List Action} (hx : x < s.handles.length)
    (h : Runs.run step s tr = .ok s') :
    errorOf s'.handles x = (records x s tr).getLastD (errorOf s.handles x) :=
  Runs.getLastD_collect (fun t => errorOf t.handles x) (recordsIn x) (fun t => x < t.handles.length)
    (fun _ _ _ hx h => Nat.lt_of_lt_of_le hx (length_step h)) (fun _ _ _ => errorOf_step) h hx

end AsyncBerkeley.ErrorRecords
