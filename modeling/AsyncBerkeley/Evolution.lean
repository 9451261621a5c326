import AsyncBerkeley.Steps

namespace AsyncBerkeley.Evolution

open ListUpdates Events InterestList SocketHandles PollMultiplexer Operations Executor Passes Steps

variable {s s' : State} {a : Action}

theorem grows_of_frame {p q : Pass} (h : Frame p q) (hp : p.handles = s.handles)
    (hq : s'.handles = q.handles) (hd : s'.dialogs = s.dialogs) : Grows s s' where
  descriptor := fun i _ => by rw [hq, h.descriptor, hp]
  dialogs := .inl ⟨by rw [hq, h.handles, hp], by rw [hd]; exact fun _ hx => hx⟩
  newborn := by rw [hq, errorOf_of_length_le (by rw [h.handles, hp])]

theorem step_grows (h : Step s a s') : Grows s s' := by
  cases h with
  | issue _ h => exact h.grows
  | inline _ _ _ hc => exact hc.grows
  | execute _ _ _ hc => exact ⟨hc.grows.descriptor, hc.grows.dialogs, hc.grows.newborn⟩
  | passed _ _ _ | passThrew _ _ _ => exact grows_of_frame handleEvents_frame rfl rfl rfl
  | register _ _ _ _ _ | abandon _ _ | idle _ _ _ | queue _ _ _ _ _ | snapshot | polled _ _ _ _
  | pollThrew _ _ | finish _ _ _ => exact .of_record s (.inl rfl) (fun _ h => h) rfl rfl

def started (op : Operation) : Bool :=
  match op.status with
  | .queued | .completed _ => true
  | .created | .connected | .abandoned => false

/-- What one step can do to an operation: its sender stays as it was made,
`connect` may store the pointer, and the status moves on. -/
structure Next (s : State) (op op' : Operation) : Prop where
  func : op'.func = op.func
  socket : op'.socket = op.socket
  trigger : op'.trigger = op.trigger
  demux : op'.demux = op.demux ∨ op.status = .created ∧ op'.status = .connected ∧
    op'.demux = some (toSize (descriptor s.handles op.socket))
  created : op'.status = .created → op.status = .created
  holds : op'.holds = true → op.holds = true
  started : started op = true → started op' = true

theorem Next.refl (s : State) (op : Operation) : Next s op op :=
  ⟨rfl, rfl, rfl, .inl rfl, id, id, id⟩

theorem getElem?_set_op {ops : List Operation} {o o' : TaskId} {op op' new : Operation}
    (hop : ops[o]? = some op) (hop' : ops[o']? = some op') (hn : Next s op new) :
    ∃ op'', (ops.set o new)[o']? = some op'' ∧ Next s op' op'' := by
  by_cases he : o = o'
  · subst he
    obtain ⟨hlt, -⟩ := List.getElem?_eq_some_iff.mp hop
    rw [hop] at hop'
    cases hop'
    exact ⟨new, by simp [hlt], hn⟩
  · exact ⟨op', by rw [List.getElem?_set_ne he]; exact hop', .refl s op'⟩

theorem op_forward (h : Step s a s') {o : TaskId} {op : Operation} (hop : s.ops[o]? = some op) :
    ∃ op', s'.ops[o]? = some op' ∧ Next s op op' := by
  have hlt := (List.getElem?_eq_some_iff.mp hop).1
  cases h with
  | issue _ h =>
    obtain ⟨new, he, -⟩ := h.ops
    exact ⟨op, by rw [he, List.getElem?_append_left hlt]; exact hop, .refl s op⟩
  | register hop' hs _ _ _ =>
    exact getElem?_set_op hop' hop
      ⟨rfl, rfl, rfl, .inr ⟨hs, rfl, rfl⟩, by simp, by simp [Operation.holds, hs],
      by simp [Evolution.started, hs]⟩
  | abandon hop' hs | idle hop' hs _ =>
    exact getElem?_set_op hop' hop ⟨rfl, rfl, rfl, .inl rfl, by simp, by simp [Operation.holds, hs],
      by simp [Evolution.started, hs]⟩
  | queue hop' hs _ _ _ =>
    exact getElem?_set_op hop' hop ⟨rfl, rfl, rfl, .inl rfl, by simp, by simp [Operation.holds, hs],
      by simp [Evolution.started]⟩
  | inline hop' hs _ hc =>
    obtain ⟨outcome, he⟩ := hc.ops
    rw [he]
    exact getElem?_set_op hop' hop ⟨rfl, rfl, rfl, .inl rfl, by simp, by simp [Operation.holds],
      by simp [Evolution.started]⟩
  | execute _ _ hop' hc =>
    obtain ⟨outcome, he⟩ := hc.ops
    rw [he]
    exact getElem?_set_op hop' hop ⟨rfl, rfl, rfl, .inl rfl, by simp, by simp [Operation.holds],
      by simp [Evolution.started]⟩
  | snapshot | polled _ _ _ _ | pollThrew _ _ | passed _ _ _ | passThrew _ _ _ | finish _ _ _ =>
    exact ⟨op, hop, .refl s op⟩

structure New (s : State) (op : Operation) : Prop where
  status : op.status = .created
  demux : op.demux = none
  socket : op.socket ∈ s.dialogs
  func : op.func = .empty → op.trigger = .EAGER

theorem op_backward (h : Step s a s') {o : TaskId} {op' : Operation}
    (hop' : s'.ops[o]? = some op') :
    (∃ op, s.ops[o]? = some op ∧ Next s op op') ∨ (s.ops[o]? = none ∧ New s op') := by
  cases hop : s.ops[o]? with
  | some op =>
    obtain ⟨op'', hop'', hn⟩ := op_forward h hop
    rw [hop'] at hop''
    cases hop''
    exact .inl ⟨op, rfl, hn⟩
  | none =>
    refine .inr ⟨rfl, ?_⟩
    have hle := List.getElem?_eq_none_iff.mp hop
    have hlt := (List.getElem?_eq_some_iff.mp hop').1
    cases h with
    | issue _ h =>
      obtain ⟨new, he, hnew⟩ := h.ops
      rw [he, List.getElem?_append_right hle] at hop'
      obtain ⟨h1, h2, h3, h4⟩ := hnew op' (List.mem_of_getElem? hop')
      exact ⟨h1, h2, h3, h4⟩
    | inline _ _ _ hc | execute _ _ _ hc =>
      obtain ⟨outcome, he⟩ := hc.ops
      rw [he, List.length_set] at hlt
      exact absurd hlt (Nat.not_lt.mpr hle)
    | register _ _ _ _ _ | abandon _ _ | idle _ _ _ | queue _ _ _ _ _ =>
      simp only [List.length_set] at hlt
      exact absurd hlt (Nat.not_lt.mpr hle)
    | snapshot | polled _ _ _ _ | pollThrew _ _ | passed _ _ _ | passThrew _ _ _ | finish _ _ _ =>
      exact absurd hlt (Nat.not_lt.mpr hle)

def target (s : State) (o : TaskId) : Option (ExecutionTrigger × Fd) :=
  s.ops[o]?.map (fun op => (op.trigger, descriptor s.handles op.socket))

/-- What holds of the pointers and tasks in every state that can be reached. -/
structure Sane (s : State) : Prop where
  dialogs : ∀ h ∈ s.dialogs, h < s.handles.length
  sockets : ∀ (o : TaskId) (op : Operation), s.ops[o]? = some op → op.socket < s.handles.length
  pointers : ∀ (o : TaskId) (op : Operation) (i : Nat), s.ops[o]? = some op → op.demux = some i →
    i = toSize (descriptor s.handles op.socket)
  created : ∀ (o : TaskId) (op : Operation), s.ops[o]? = some op →
    op.status = .created → op.demux = none
  functors : ∀ (o : TaskId) (op : Operation), s.ops[o]? = some op → op.func = .empty →
    op.trigger = .EAGER
  queued : ∀ fd d, ∀ o ∈ s.mux.queue fd d, target s o = some (d.trigger, fd)
  ready : ∀ wait ∈ s.waits, ∀ o ∈ wait.ready, ∃ fd, ∃ d : Direction,
    target s o = some (d.trigger, fd)

theorem sane_initial (config : Config) : Sane (initial config) := by
  refine ⟨by simp [initial], by simp [initial], by simp [initial], by simp [initial],
    by simp [initial], ?_, by simp [initial]⟩
  intro fd d o ho
  simp [initial, Multiplexer.queue] at ho

theorem step_descriptor (hs : Sane s) (h : Step s a s') {o : TaskId} {op : Operation}
    (hop : s.ops[o]? = some op) :
    descriptor s'.handles op.socket = descriptor s.handles op.socket :=
  (step_grows h).descriptor op.socket (hs.sockets o op hop)

theorem step_target (hs : Sane s) (h : Step s a s') {o : TaskId} {k : ExecutionTrigger × Fd}
    (ht : target s o = some k) : target s' o = some k := by
  obtain ⟨op, hop, rfl⟩ := Option.map_eq_some_iff.mp ht
  obtain ⟨op', hop', hn⟩ := op_forward h hop
  have hd := step_descriptor hs h hop
  simp [target, hop', hn.trigger, hn.socket, hd]

theorem length_le_of_grows (h : Grows s s') : s.handles.length ≤ s'.handles.length := by
  rcases h.dialogs with ⟨hl, -⟩ | ⟨_, _, hl, -⟩ <;> omega

theorem queue_push {o : TaskId} {op : Operation} {d : Direction} {demux : Demultiplexer} {fd : Fd}
    (ht : op.trigger = d.trigger) (hi : s.mux.demux[toSize fd]? = some demux) (fd' : Fd)
    (d' : Direction) :
    ({ s.mux with demux := s.mux.demux.set (toSize fd) (push demux o op.trigger op.socket) } :
      Multiplexer).queue fd' d' =
      if fd' = fd ∧ d' = d then s.mux.queue fd' d' ++ [o] else s.mux.queue fd' d' := by
  rw [queue_set hi, ht, push_queue]
  by_cases hf : fd' = fd
  · subst hf
    by_cases hd : d' = d <;> simp [hd, queue_of_getElem? hi]
  · simp [hf]

theorem target_of_getElem? {o : TaskId} {op : Operation} (hop : s.ops[o]? = some op) :
    target s o = some (op.trigger, descriptor s.handles op.socket) := by
  simp [target, hop]

theorem mem_set_wait {waits : List Wait} {w : Nat} {wait new wait' : Wait} {o : TaskId}
    (hw : waits[w]? = some wait) (hm : wait' ∈ waits.set w new) (ho : o ∈ wait'.ready)
    (hsub : ∀ o ∈ new.ready, o ∈ wait.ready) : ∃ wait ∈ waits, o ∈ wait.ready := by
  obtain hm | rfl := List.mem_or_eq_of_mem_set hm
  · exact ⟨wait', hm, ho⟩
  · exact ⟨wait, List.mem_of_getElem? hw, hsub o ho⟩

theorem ready_backward (h : Step s a s') {wait' : Wait} {o : TaskId} (hw' : wait' ∈ s'.waits)
    (ho : o ∈ wait'.ready) :
    (∃ wait ∈ s.waits, o ∈ wait.ready) ∨ ∃ fd d, o ∈ s.mux.queue fd d := by
  cases h with
  | issue _ h => exact .inl ⟨wait', h.waits ▸ hw', ho⟩
  | inline _ _ _ hc => exact .inl ⟨wait', hc.waits ▸ hw', ho⟩
  | register _ _ _ _ _ | abandon _ _ | idle _ _ _ | queue _ _ _ _ _ => exact .inl ⟨wait', hw', ho⟩
  | snapshot =>
    obtain hw' | hw' := List.mem_append.mp hw'
    · exact .inl ⟨wait', hw', ho⟩
    · rw [List.mem_singleton.mp hw'] at ho
      cases ho
  | polled hw _ _ _ | pollThrew hw _ | passThrew hw _ _ | finish hw _ _ =>
    exact .inl (mem_set_wait hw hw' ho (fun _ h => h))
  | execute hw hr _ hc =>
    rw [hc.waits] at hw'
    exact .inl (mem_set_wait hw hw' ho (fun o ho => by rw [hr]; exact List.mem_cons_of_mem _ ho))
  | passed hw _ _ =>
    obtain hw' | rfl := List.mem_or_eq_of_mem_set hw'
    · exact .inl ⟨wait', hw', ho⟩
    · obtain ho | hq := handleEvents_mem.2 o ho
      · cases ho
      · exact .inr hq

theorem queue_backward (hs : Sane s) (h : Step s a s') {fd : Fd} {d : Direction} {o : TaskId}
    (ho : o ∈ s'.mux.queue fd d) : o ∈ s.mux.queue fd d ∨ target s o = some (d.trigger, fd) := by
  cases h with
  | queue hop hst ht hd hi =>
    next o' op d' i demux =>
    have hp := hs.pointers o' op i hop hd
    subst hp
    rw [queue_push ht hi] at ho
    split at ho
    · next he =>
      obtain ho | ho := List.mem_append.mp ho
      · exact .inl ho
      · obtain rfl := List.mem_singleton.mp ho
        exact .inr (by rw [target_of_getElem? hop, ht, he.1, he.2])
    · exact .inl ho
  | issue _ h => exact .inl (h.mux ▸ ho)
  | inline _ _ _ hc | execute _ _ _ hc => exact .inl (hc.mux ▸ ho)
  | register _ _ _ _ _ | abandon _ _ => exact .inl (queue_makeRoom s.mux _ _ fd d ▸ ho)
  | passed _ _ _ | passThrew _ _ _ => exact .inl (handleEvents_mem_queue ho)
  | idle _ _ _ | snapshot | polled _ _ _ _ | pollThrew _ _ | finish _ _ _ => exact .inl ho

theorem sane_step (hs : Sane s) (h : Step s a s') : Sane s' := by
  have hg := step_grows h
  have hl := length_le_of_grows hg
  refine ⟨?_, ?_, ?_, ?_, ?_, ?_, ?_⟩
  · intro x hx
    obtain ⟨_, hd⟩ | ⟨_, _, hlen, _, hd⟩ := hg.dialogs
    · exact Nat.lt_of_lt_of_le (hs.dialogs x (hd x hx)) hl
    · obtain hx | rfl := hd x hx
      · exact Nat.lt_of_lt_of_le (hs.dialogs x hx) hl
      · rw [hlen]
        exact Nat.lt_succ_self _
  · intro o op' hop'
    obtain ⟨op, hop, hn⟩ | ⟨-, hn⟩ := op_backward h hop'
    · rw [hn.socket]
      exact Nat.lt_of_lt_of_le (hs.sockets o op hop) hl
    · exact Nat.lt_of_lt_of_le (hs.dialogs _ hn.socket) hl
  · intro o op' i hop' hi
    obtain ⟨op, hop, hn⟩ | ⟨-, hn⟩ := op_backward h hop'
    · rw [hn.socket, step_descriptor hs h hop]
      obtain hd | ⟨-, -, hd⟩ := hn.demux
      · exact hs.pointers o op i hop (hd ▸ hi)
      · exact Option.some.inj (hi.symm.trans hd)
    · rw [hn.demux] at hi
      cases hi
  · intro o op' hop' hst
    obtain ⟨op, hop, hn⟩ | ⟨-, hn⟩ := op_backward h hop'
    · obtain hd | ⟨-, hc, -⟩ := hn.demux
      · exact hd.trans (hs.created o op hop (hn.created hst))
      · rw [hst] at hc
        cases hc
    · exact hn.demux
  · intro o op' hop' he
    obtain ⟨op, hop, hn⟩ | ⟨-, hn⟩ := op_backward h hop'
    · rw [hn.trigger]
      exact hs.functors o op hop (hn.func ▸ he)
    · exact hn.func he
  · intro fd d o ho
    obtain hq | ht := queue_backward hs h ho
    · exact step_target hs h (hs.queued fd d o hq)
    · exact step_target hs h ht
  · intro wait hw o ho
    obtain ⟨wait', hw', ho'⟩ | ⟨fd, d, hq⟩ := ready_backward h hw ho
    · obtain ⟨fd, d, ht⟩ := hs.ready wait' hw' o ho'
      exact ⟨fd, d, step_target hs h ht⟩
    · exact ⟨fd, d, step_target hs h (hs.queued fd d o hq)⟩

theorem run_sane {config : Config} {tr : List Action} (h : run config tr = .ok s) : Sane s :=
  Runs.run_invariant Sane (fun _ _ _ hs h => sane_step hs (step_spec h)) h (sane_initial config)

structure Later (op op' : Operation) : Prop where
  func : op'.func = op.func
  socket : op'.socket = op.socket
  trigger : op'.trigger = op.trigger
  demux : op.status ≠ .created → op'.status ≠ .created ∧ op'.demux = op.demux
  holds : op'.holds = true → op.holds = true

theorem Next.later {op op' : Operation} (h : Next s op op') : Later op op' := by
  refine ⟨h.func, h.socket, h.trigger, fun hs => ⟨mt h.created hs, ?_⟩, h.holds⟩
  obtain hd | ⟨hc, -⟩ := h.demux
  · exact hd
  · exact absurd hc hs

theorem Later.trans {op op' op'' : Operation} (h : Later op op') (h' : Later op' op'') :
    Later op op'' where
  func := h'.func.trans h.func
  socket := h'.socket.trans h.socket
  trigger := h'.trigger.trans h.trigger
  demux := fun hs => by
    obtain ⟨hs', hd⟩ := h.demux hs
    obtain ⟨hs'', hd'⟩ := h'.demux hs'
    exact ⟨hs'', hd'.trans hd⟩
  holds := fun hh => h.holds (h'.holds hh)

theorem run_op {tr : List Action} {o : TaskId} {op : Operation} (h : Runs.run step s tr = .ok s')
    (hop : s.ops[o]? = some op) : ∃ op', s'.ops[o]? = some op' ∧ Later op op' := by
  refine Runs.run_invariant (fun t => ∃ op', t.ops[o]? = some op' ∧ Later op op') ?_ h
    ⟨op, hop, (Next.refl s op).later⟩
  rintro t a t' ⟨op', hop', hl⟩ ht
  obtain ⟨op'', hop'', hn⟩ := op_forward (step_spec ht) hop'
  exact ⟨op'', hop'', hl.trans hn.later⟩

theorem later_of_run {tr : List Action} {o : TaskId} {op op' : Operation}
    (h : Runs.run step s tr = .ok s') (hop : s.ops[o]? = some op) (hop' : s'.ops[o]? = some op') :
    Later op op' := by
  obtain ⟨op'', hop'', hl⟩ := run_op h hop
  rw [hop'] at hop''
  cases hop''
  exact hl

/-- The call of `complete` that completes an operation: from its own `start`,
or when its task is executed. The state it is made in has the handles of the step. -/
inductive Completing (s : State) (o : TaskId) : Action → State → List Answer → Prop where
  | started : Completing s o (.start o) s []
  | executed {w answers wait ready} (hw : s.waits[w]? = some wait) (hr : wait.ready = o :: ready) :
      Completing s o (.execute w answers) (popped s w { wait with ready := ready } o) answers

theorem Completing.handles {t : State} {o : TaskId} {answers : List Answer}
    (h : Completing s o a t answers) :
    t.handles = s.handles := by
  cases h <;> rfl

theorem Completing.ops {t : State} {o : TaskId} {answers : List Answer}
    (h : Completing s o a t answers) :
    t.ops = s.ops := by
  cases h <;> rfl

theorem start_complete {o : TaskId} {op : Operation} (h : start s o = .ok s')
    (hop : s.ops[o]? = some op)
    (he : op.trigger = .EAGER ∨ hard (errorOf s.handles op.socket) = true) :
    complete s o op [] = .ok s' := by
  simp only [start, hop] at h
  split at h
  · cases h
  · rw [if_pos (by simpa using he)] at h
    exact h

theorem execute_complete {w : Nat} {answers : List Answer} {wait : Wait} {o : TaskId}
    {ready : List TaskId} {op : Operation} (h : execute s w answers = .ok s')
    (hw : s.waits[w]? = some wait) (hr : wait.ready = o :: ready) (hop : s.ops[o]? = some op) :
    complete (popped s w { wait with ready := ready } o) o op answers = .ok s' := by
  simp only [execute, hw, hr, hop] at h
  exact h

theorem completed_backward (h : step s a = .ok s') {o : TaskId} {op' : Operation}
    {outcome : Outcome} (hop' : s'.ops[o]? = some op') (hc : op'.status = .completed outcome) :
    s.ops[o]? = some op' ∨ ∃ op t answers, s.ops[o]? = some op ∧ Completing s o a t answers ∧
      complete t o op answers = .ok s' := by
  cases step_spec h with
  | issue _ hi =>
    obtain ⟨new, he, hnew⟩ := hi.ops
    rw [he] at hop'
    by_cases hlt : o < s.ops.length
    · exact .inl (by rwa [List.getElem?_append_left hlt] at hop')
    · rw [List.getElem?_append_right (Nat.le_of_not_lt hlt)] at hop'
      rw [(hnew op' (List.mem_of_getElem? hop')).1] at hc
      cases hc
  | register _ _ _ _ _ | abandon _ _ | idle _ _ _ | queue _ _ _ _ _ =>
    obtain ⟨-, rfl⟩ | ⟨-, hop⟩ := getElem?_set_cases hop'
    · cases hc
    · exact .inl hop
  | @inline o' op _ hop _ he hcomp =>
    obtain ⟨_, hops⟩ := hcomp.ops
    rw [hops] at hop'
    obtain ⟨rfl, -⟩ | ⟨-, hop'⟩ := getElem?_set_cases hop'
    · exact .inr ⟨op, s, [], hop, .started, start_complete h hop he⟩
    · exact .inl hop'
  | @execute w answers wait o' ready op _ hw hr hop hcomp =>
    obtain ⟨_, hops⟩ := hcomp.ops
    rw [hops] at hop'
    obtain ⟨rfl, -⟩ | ⟨-, hop'⟩ := getElem?_set_cases hop'
    · exact .inr ⟨op, _, answers, hop, .executed hw hr, execute_complete h hw hr hop⟩
    · exact .inl hop'
  | snapshot | polled _ _ _ _ | pollThrew _ _ | passed _ _ _ | passThrew _ _ _ | finish _ _ _ =>
    exact .inl hop'

inductive Advance : Wait → Wait → Prop where
  | polled {wait begin answers events} (hp : wait.phase = .polling)
      (ha : ∀ answer ∈ answers, answer.allowed wait.list wait.interval = true)
      (hr : poll_ wait.list wait.interval begin answers = some (.ok events)) :
      Advance wait { wait with list := events, phase := .polled }
  | threw {wait errno} (hp : wait.phase = .polling ∨ wait.phase = .polled) :
      Advance wait { wait with phase := .threw errno }
  | passed {wait ready} (hp : wait.phase = .polled) :
      Advance wait { wait with ready := ready, phase := .running }
  | popped {wait o ready} (hr : wait.ready = o :: ready) : Advance wait { wait with ready := ready }
  | returned {wait} (hp : wait.phase = .running) (hr : wait.ready = []) :
      Advance wait { wait with phase := .returned }

theorem waits_step (h : Step s a s') : s'.waits = s.waits ∨
    (∃ interval, a = .snapshot interval ∧
      s'.waits = s.waits ++ [{ interval := interval, list := copyActive s.mux.list.entries }]) ∨
    ∃ w wait wait', s.waits[w]? = some wait ∧ Advance wait wait' ∧
      s'.waits = s.waits.set w wait' := by
  cases h with
  | issue _ h => exact .inl h.waits
  | inline _ _ _ hc => exact .inl hc.waits
  | register _ _ _ _ _ | abandon _ _ | idle _ _ _ | queue _ _ _ _ _ => exact .inl rfl
  | snapshot => exact .inr (.inl ⟨_, rfl, rfl⟩)
  | polled hw hp ha hr => exact .inr (.inr ⟨_, _, _, hw, .polled hp ha hr, rfl⟩)
  | pollThrew hw hp => exact .inr (.inr ⟨_, _, _, hw, .threw (.inl hp), rfl⟩)
  | passed hw hp _ => exact .inr (.inr ⟨_, _, _, hw, .passed hp, rfl⟩)
  | passThrew hw hp _ => exact .inr (.inr ⟨_, _, _, hw, .threw (.inr hp), rfl⟩)
  | execute hw hr _ hc => exact .inr (.inr ⟨_, _, _, hw, .popped hr, hc.waits⟩)
  | finish hw hp hr => exact .inr (.inr ⟨_, _, _, hw, .returned hp hr, rfl⟩)

theorem forall_waits_step {P : Wait → Prop} (h : Step s a s')
    (hnew : ∀ interval, P { interval := interval, list := copyActive s.mux.list.entries })
    (hadv : ∀ wait wait', Advance wait wait' → P wait → P wait') (hs : ∀ wait ∈ s.waits, P wait) :
    ∀ wait ∈ s'.waits, P wait := by
  intro wait hm
  obtain he | ⟨interval, -, he⟩ | ⟨w, old, new, hw, ha, he⟩ := waits_step h
  · exact hs wait (he ▸ hm)
  · rw [he] at hm
    obtain hm | hm := List.mem_append.mp hm
    · exact hs wait hm
    · rw [List.mem_singleton.mp hm]
      exact hnew interval
  · rw [he] at hm
    obtain hm | rfl := List.mem_or_eq_of_mem_set hm
    · exact hs wait hm
    · exact hadv old wait ha (hs old (List.mem_of_getElem? hw))

theorem wait_forward (h : Step s a s') {w : Nat} {wait : Wait} (hw : s.waits[w]? = some wait) :
    ∃ wait', s'.waits[w]? = some wait' ∧ (wait' = wait ∨ Advance wait wait') := by
  obtain ⟨hlt, -⟩ := List.getElem?_eq_some_iff.mp hw
  obtain he | ⟨interval, -, he⟩ | ⟨v, old, new, hv, ha, he⟩ := waits_step h
  · exact ⟨wait, he ▸ hw, .inl rfl⟩
  · exact ⟨wait, by rw [he, List.getElem?_append_left hlt]; exact hw, .inl rfl⟩
  · rw [he]
    by_cases hvw : v = w
    · subst hvw
      rw [hw] at hv
      cases hv
      exact ⟨new, List.getElem?_set_self hlt, .inr ha⟩
    · exact ⟨wait, by rw [List.getElem?_set_ne hvw]; exact hw, .inl rfl⟩

def failed : Phase → Bool
  | .threw _ => true
  | .polling | .polled | .running | .returned => false

def Threw (s : State) : Prop := ∃ wait ∈ s.waits, failed wait.phase = true

theorem threw_passThrew {w : Nat} {wait : Wait} {p : Pass} {errno : Errno}
    (hw : s.waits[w]? = some wait) :
    Threw (passed s w p { wait with phase := .threw errno }) :=
  ⟨_, List.mem_of_getElem? (List.getElem?_set_self (List.getElem?_eq_some_iff.mp hw).1), rfl⟩

theorem failed_advance {wait wait' : Wait} (h : Advance wait wait')
    (hf : failed wait.phase = true) : failed wait'.phase = true := by
  cases h with
  | polled hp _ _ | passed hp | returned hp _ => rw [hp] at hf; cases hf
  | threw _ => rfl
  | popped _ => exact hf

theorem threw_step (h : Step s a s') (ht : Threw s) : Threw s' := by
  obtain ⟨wait, hm, hf⟩ := ht
  obtain ⟨w, hw⟩ := List.mem_iff_getElem?.mp hm
  obtain ⟨wait', hw', rfl | ha⟩ := wait_forward h hw
  · exact ⟨wait', List.mem_of_getElem? hw', hf⟩
  · exact ⟨wait', List.mem_of_getElem? hw', failed_advance ha hf⟩

end AsyncBerkeley.Evolution
