import AsyncBerkeley.RecordedErrors
import AsyncBerkeley.Polls

namespace AsyncBerkeley.Progress

open Events InterestList SocketHandles PollMultiplexer Operations Executor Passes Steps Evolution
  Lifetimes Conservation ReactorRuns Receivers RecordedErrors

variable {s s' : State} {a : Action} {config : Config} {tr : List Action} {w : Nat} {o : TaskId}
  {fd : Fd} {d : Direction}

/-- The steps of the calls of `wait_for`. -/
def waiting : Action → Bool
  | .snapshot _ | .poll _ _ _ | .pass _ _ | .execute _ _ | .finish _ => true
  | .emplace _ | .copyDialog _ | .dropDialog _ | .accept _ _ _ | .recvmsg _ _ | .sendmsg _ _
  | .connectDialog _ _ | .set _ _ | .connect _ | .start _ => false

def EIO : Errno := ⟨5, by decide⟩

theorem execute_front {rest : List TaskId} (h : run config tr = .ok s)
    (hr : readyOf s w = o :: rest) :
    ∃ s', step s (.execute w [.failed EIO]) = .ok s' ∧ readyOf s' w = rest ∧
      ∃ outcome, Completed s' o outcome := by
  obtain ⟨wait, hw, hready⟩ : ∃ wait, s.waits[w]? = some wait ∧ wait.ready = o :: rest := by
    unfold readyOf at hr
    cases hw : s.waits[w]? with
    | none => simp [hw] at hr
    | some wait => exact ⟨wait, rfl, by simpa [hw] using hr⟩
  obtain ⟨fd, d, ht⟩ :=
    (run_sane h).ready wait (List.mem_of_getElem? hw) o (by rw [hready]; exact List.mem_cons_self)
  obtain ⟨op, hop, htarget⟩ := Option.map_eq_some_iff.mp ht
  have hfunc : op.func ≠ .empty := by
    intro he
    have htr := (Prod.mk.inj htarget).1
    rw [(run_sane h).functors o op hop he] at htr
    cases d <;> cases htr
  have hcomplete : ∃ s',
      complete (popped s w { wait with ready := rest } o) o op [.failed EIO] = .ok s' := by
    unfold complete
    split
    · exact ⟨_, rfl⟩
    · cases hf : op.func with
      | empty => exact absurd hf hfunc
      | value v | accept address | recvmsg | sendmsg | connect | user => exact ⟨_, rfl⟩
  obtain ⟨s', hs'⟩ := hcomplete
  have hstep : step s (.execute w [.failed EIO]) = .ok s' := by
    simpa [step, execute, hw, hready, hop, popped] using hs'
  have hc := complete_completes hs'
  obtain ⟨outcome, hops⟩ := hc.ops
  refine ⟨s', hstep, ?_, outcome, { op with status := .completed outcome }, ?_, rfl⟩
  · rw [readyOf_set hw _ hc.waits, if_pos rfl]
  · rw [hops]
    exact List.getElem?_set_self (List.getElem?_eq_some_iff.mp hop).1

theorem execute_all {before rest : List TaskId} (h : run config tr = .ok s)
    (hr : readyOf s w = before ++ o :: rest) :
    ∃ tr' s' outcome, (∀ a ∈ tr', waiting a = true) ∧ Runs.run step s tr' = .ok s' ∧
      Completed s' o outcome := by
  induction before generalizing s tr with
  | nil =>
    obtain ⟨s', hs', -, outcome, hc⟩ := execute_front h hr
    exact ⟨[.execute w [.failed EIO]], s', outcome, by simp [waiting],
      Runs.run_cons_ok.mpr ⟨s', hs', rfl⟩, hc⟩
  | cons x before ih =>
    obtain ⟨s₁, hs₁, hr₁, -⟩ := execute_front h hr
    obtain ⟨tr', s', outcome, hl, hrun, hc⟩ := ih (Runs.run_snoc_ok.mpr ⟨s, h, hs₁⟩) hr₁
    refine ⟨.execute w [.failed EIO] :: tr', s', outcome, ?_,
      Runs.run_cons_ok.mpr ⟨s₁, hs₁, hrun⟩, hc⟩
    intro a ha
    obtain rfl | ha := List.mem_cons.mp ha
    · rfl
    · exact hl a ha

theorem within_POLLERR (events : Short) : within events POLLERR = true := by
  rw [within, beq_iff_eq]
  ext i hi
  simp only [BitVec.getElem_and, BitVec.getElem_not, BitVec.getElem_or, BitVec.getElem_zero]
  cases POLLERR[i] <;> simp

def mark (fd : Fd) (event : Pollfd) : Short := if event.fd = fd then POLLERR else 0#16

def marked (list : List Pollfd) (fd : Fd) : List Pollfd :=
  (list.filter (fun event => event.fd == fd)).map (fun event => { event with revents := POLLERR })

theorem report_mark (list : List Pollfd) (fd : Fd) :
    (report list (list.map (mark fd))).filter (fun event => event.revents != 0#16) =
      marked list fd := by
  induction list with
  | nil => rfl
  | cons event list ih =>
    simp only [report, marked, List.map_cons, List.zipWith_cons_cons] at ih ⊢
    by_cases he : event.fd = fd
    · rw [List.filter_cons_of_pos (by simp [mark, he, POLLERR]),
        List.filter_cons_of_pos (by simp [he]), ih]
      simp [mark, he]
    · rw [List.filter_cons_of_neg (by simp [mark, he]), List.filter_cons_of_neg (by simp [he]), ih]

theorem poll_mark {list : List Pollfd} (h : ∃ event ∈ list, event.fd = fd) :
    (PollAnswer.ready (list.map (mark fd))).allowed list (-1) = true ∧
    poll_ list (-1) 0 [.ready (list.map (mark fd))] = some (.ok (marked list fd)) := by
  obtain ⟨event, hm, hf⟩ := h
  refine ⟨?_, ?_⟩
  · have hwithin : (List.zipWith (fun event r => within event.events r) list
        (list.map (mark fd))).all id = true := by
      rw [List.all_eq_true]
      intro b hb
      rw [List.zipWith_map_right, List.zipWith_self, List.mem_map] at hb
      obtain ⟨event, -, rfl⟩ := hb
      unfold mark
      split
      · exact within_POLLERR event.events
      · simp [within]
    simp only [PollAnswer.allowed, List.length_map, BEq.rfl, hwithin, Bool.and_self,
      Bool.true_and, Bool.or_eq_true, List.any_eq_true]
    exact .inr ⟨_, List.mem_map_of_mem hm, by simp [mark, hf, POLLERR]⟩
  · have hne : list.isEmpty = false := by
      cases list with
      | nil => cases hm
      | cons => rfl
    simp [poll_, hne, pollLoop, report_mark]

variable {p : Pass} {events : List Pollfd} {x : HandleId}

theorem handleEvent_answered {event : Pollfd} (h : p.mux.socket event.fd = some x) :
    (handleEvent (fun _ => .ok 0) p event).2 = none := by
  obtain ⟨demux, hd, hs⟩ := Option.bind_eq_some_iff.mp h
  unfold handleEvent
  simp only [hd, prepareHandles_eq]
  have hr : ∃ handles, reportError (.ok 0) event.revents demux p.handles = .ok handles := by
    unfold reportError
    split
    · rw [hs]
      exact ⟨_, rfl⟩
    · exact ⟨_, rfl⟩
  obtain ⟨handles, hr⟩ := hr
  rw [hr]
  rfl

theorem handleEvents_answered (h : p.mux.socket fd = some x)
    (hf : ∀ event ∈ events, event.fd = fd) : (handleEvents (fun _ => .ok 0) p events).2 = none := by
  induction events generalizing p with
  | nil => rfl
  | cons event events ih =>
    have he : p.mux.socket event.fd = some x := by rw [hf event (by simp)]; exact h
    refine handleEvents_cons_none.mpr ⟨handleEvent_answered he,
      ih ?_ fun e hm => hf e (by simp [hm])⟩
    rw [(handleEvent_frame event).socket]
    exact h

theorem mem_marked {list : List Pollfd} {event : Pollfd} (h : event ∈ marked list fd) :
    event.fd = fd := by
  obtain ⟨e, he, rfl⟩ := List.mem_map.mp h
  simpa using (List.mem_filter.mp he).2

theorem emptied_marked {list : List Pollfd} (h : ∃ event ∈ list, event.fd = fd) (d : Direction) :
    emptied (marked list fd) fd d = true := by
  obtain ⟨event, hm, hf⟩ := h
  simp only [emptied, marked, List.any_eq_true, List.mem_map, List.mem_filter, beq_iff_eq]
  refine ⟨_, ⟨event, ⟨hm, hf⟩, rfl⟩, ?_⟩
  simp only [hf, BEq.rfl, Bool.true_and]
  cases d <;> decide

theorem wait_takes {wait : Wait} (h : run config tr = .ok s) (ho : o ∈ s.mux.queue fd d)
    (hw : s.waits[w]? = some wait) (hp : wait.phase = .polling) (hi : wait.interval = -1)
    (hf : ∃ event ∈ wait.list, event.fd = fd) :
    ∃ tr' s', (∀ a ∈ tr', waiting a = true) ∧ Runs.run step s tr' = .ok s' ∧ o ∈ readyOf s' w := by
  obtain ⟨hallowed, hpoll⟩ := poll_mark hf
  have hlt := (List.getElem?_eq_some_iff.mp hw).1
  have hs₁ : step s (.poll w 0 [.ready (wait.list.map (mark fd))]) =
      .ok { s with
        waits := s.waits.set w { wait with list := marked wait.list fd, phase := .polled } } := by
    simp [step, poll, hw, hp, hi, hallowed, hpoll]
  obtain ⟨op, -, -, -, hsocket⟩ := queue_owner h ho
  have hx : (handleEvents (fun _ => .ok 0) { mux := s.mux, handles := s.handles }
      (marked wait.list fd)).2 = none :=
    handleEvents_answered hsocket fun _ => mem_marked
  have hs₂ : step
      { s with waits := s.waits.set w { wait with list := marked wait.list fd, phase := .polled } }
      (.pass w (fun _ => .ok 0)) =
      .ok (passed { s with
        waits := s.waits.set w { wait with list := marked wait.list fd, phase := .polled } } w
        (handleEvents (fun _ => .ok 0) { mux := s.mux, handles := s.handles }
          (marked wait.list fd)).1
        { wait with
          list := marked wait.list fd
          ready := (handleEvents (fun _ => .ok 0) { mux := s.mux, handles := s.handles }
            (marked wait.list fd)).1.ready
          phase := .running }) := by
    simp [step, Executor.pass, hlt, hx, passed]
  refine ⟨[.poll w 0 [.ready (wait.list.map (mark fd))], .pass w (fun _ => .ok 0)],
    _, by simp [waiting], Runs.run_cons_ok.mpr ⟨_, hs₁, Runs.run_cons_ok.mpr ⟨_, hs₂, rfl⟩⟩, ?_⟩
  -- the pass leaves nothing in the queue, so that all of it is ready
  have horder := handleEvents_order (p := { mux := s.mux, handles := s.handles }) (fun _ => .ok 0)
    (marked wait.list fd)
    (fun fd d o ho => ExecutionOrder.own_iff ((run_sane h).queued fd d o ho)) fd d
  rw [handleEvents_queue hx, if_pos (emptied_marked hf d), List.append_nil, List.filter_nil,
    List.nil_append] at horder
  have hmem : o ∈ (handleEvents (fun _ => .ok 0) { mux := s.mux, handles := s.handles }
      (marked wait.list fd)).1.ready := by
    rw [← horder] at ho
    exact List.mem_of_mem_filter ho
  simpa [readyOf, passed, hlt] using hmem

theorem mem_copyActive (l : Interest) (fd : Fd) :
    (∃ event ∈ copyActive l.entries, event.fd = fd) ↔ l.events fd ≠ 0#16 := by
  constructor
  · rintro ⟨event, hm, rfl⟩
    obtain ⟨hm, hne⟩ := List.mem_filter.mp hm
    rw [Interest.events_eq_mask, l.mask_of_mem hm]
    simpa using hne
  · intro hne
    cases hmask : l.mask fd with
    | none => simp [Interest.events_eq_mask, hmask] at hne
    | some mask =>
      obtain ⟨e, he, hf, hm⟩ := l.entry_of_mask fd hmask
      refine ⟨e, List.mem_filter.mpr ⟨List.mem_of_getElem? he, ?_⟩, hf⟩
      simpa [Interest.events_eq_mask, hmask, hm] using hne

def ended : Phase → Bool
  | .returned | .threw _ => true
  | .polling | .polled | .running => false

/-- The task is in its queue, and no call of `wait_for` looks at its descriptor. -/
structure Stranded (s : State) (o : TaskId) (fd : Fd) (d : Direction) : Prop where
  queued : o ∈ s.mux.queue fd d
  unwatched : s.mux.list.events fd = 0#16
  ignored : ∀ wait ∈ s.waits, ended wait.phase = false → ∀ event ∈ wait.list, event.fd ≠ fd

theorem handleEvents_other {getsockopt : Fd → Except Errno Int}
    (hf : ∀ event ∈ events, event.fd ≠ fd) :
    (handleEvents getsockopt p events).1.mux.queue fd d = p.mux.queue fd d ∧
    (handleEvents getsockopt p events).1.mux.list.events fd = p.mux.list.events fd := by
  refine handleEvents_invariant (fun q => q.mux.queue fd d = p.mux.queue fd d ∧
    q.mux.list.events fd = p.mux.list.events fd) ?_ ⟨rfl, rfl⟩
  rintro q event hm ⟨hq, hl⟩
  have hne := Ne.symm (hf event hm)
  refine ⟨?_, by rw [handleEvent_list, Interest.events_clear, if_neg hne, hl]⟩
  obtain ⟨demux, _, hd, _, he⟩ | ⟨_, he⟩ := handleEvent_cases getsockopt q event
  · rw [he, queue_set hd, if_neg hne, hq]
  · rw [he]
    exact hq

theorem ended_advance {wait wait' : Wait} (h : Advance wait wait')
    (he : ended wait'.phase = false) :
    ended wait.phase = false ∧ ∀ event ∈ wait'.list, ∃ e ∈ wait.list, event.fd = e.fd := by
  cases h with
  | polled hp ha hr =>
    refine ⟨by rw [hp]; rfl, fun event hm => ?_⟩
    obtain ⟨e, he, hf, -⟩ := Polls.mem_poll ha hr hm
    exact ⟨e, he, hf⟩
  | threw _ => cases he
  | passed hp => exact ⟨by rw [hp]; rfl, fun event hm => ⟨event, hm, rfl⟩⟩
  | popped _ => exact ⟨he, fun event hm => ⟨event, hm, rfl⟩⟩
  | returned _ _ => cases he

theorem stranded_step (hs : Stranded s o fd d) (ha : waiting a = true) (h : Step s a s') :
    Stranded s' o fd d := by
  have hwaits : ∀ wait ∈ s'.waits, ended wait.phase = false →
      ∀ event ∈ wait.list, event.fd ≠ fd := by
    refine forall_waits_step h (fun interval _ event hm hf => ?_)
      (fun wait wait' hadv hwait he event hm => ?_) hs.ignored
    · exact (mem_copyActive s.mux.list fd).mp ⟨event, hm, hf⟩ hs.unwatched
    · obtain ⟨hold, hsub⟩ := ended_advance hadv he
      obtain ⟨e, he', hf⟩ := hsub event hm
      rw [hf]
      exact hwait hold e he'
  have hmux : s'.mux.queue fd d = s.mux.queue fd d ∧
      s'.mux.list.events fd = s.mux.list.events fd := by
    cases h with
    | issue hi _ => cases a <;> simp [issues, waiting] at hi ha
    | register _ _ _ _ _ | abandon _ _ | idle _ _ _ | inline _ _ _ _ | queue _ _ _ _ _ => cases ha
    | snapshot | polled _ _ _ _ | pollThrew _ _ | finish _ _ _ => exact ⟨rfl, rfl⟩
    | execute _ _ _ hc => rw [hc.mux]; exact ⟨rfl, rfl⟩
    | passed hw hp _ | passThrew hw hp _ =>
      exact handleEvents_other (hs.ignored _ (List.mem_of_getElem? hw) (by rw [hp]; rfl))
  exact ⟨hmux.1 ▸ hs.queued, hmux.2 ▸ hs.unwatched, hwaits⟩

theorem not_completed_queued (h : run config tr = .ok s) (ho : o ∈ s.mux.queue fd d)
    (outcome : Outcome) :
    ¬Completed s o outcome := by
  rintro ⟨op, hop, hst⟩
  rw [located_queued h (p := .waiting (fd, d)) ho (by simp) hop] at hst
  cases hst

theorem stranded_run {tr' : List Action} (hs : Stranded s o fd d) (ha : ∀ a ∈ tr', waiting a = true)
    (h : Runs.run step s tr' = .ok s') : Stranded s' o fd d := by
  refine Runs.run_invariant_along (fun t => Stranded t o fd d)
    (fun _ a => waiting a = true) ?_ h ?_ hs
  · exact fun t a t' ht ha hstep => stranded_step ht ha (step_spec hstep)
  · rw [Runs.along_iff]
    rintro tr₁ a tr₂ u rfl -
    exact ha a (by simp)

/-- While no call of `wait_for` is under way, an operation that is queued can
still be completed by calls of `wait_for` alone exactly when the interest list
has an event for its descriptor. Otherwise it stays in its queue whatever they do. -/
theorem queued_can_complete_iff (config : Config) (tr : List Action) {s : State}
    (h : run config tr = .ok s) (hended : ∀ wait ∈ s.waits, ended wait.phase = true) (o : TaskId)
    (fd : Fd) (d : Direction) (ho : o ∈ s.mux.queue fd d) :
    ((∃ tr' s' outcome, (∀ a ∈ tr', waiting a = true) ∧ Runs.run step s tr' = .ok s' ∧
      Completed s' o outcome) ↔ s.mux.list.events fd ≠ 0#16) ∧
    (s.mux.list.events fd = 0#16 → ∀ tr' s', (∀ a ∈ tr', waiting a = true) →
      Runs.run step s tr' = .ok s' → o ∈ s'.mux.queue fd d) := by
  have stays : s.mux.list.events fd = 0#16 → ∀ tr' s', (∀ a ∈ tr', waiting a = true) →
      Runs.run step s tr' = .ok s' → o ∈ s'.mux.queue fd d := by
    intro hz tr' s' ha h'
    refine (stranded_run ⟨ho, hz, fun wait hm he => ?_⟩ ha h').queued
    rw [hended wait hm] at he
    cases he
  refine ⟨⟨?_, ?_⟩, stays⟩
  · rintro ⟨tr', s', outcome, ha, h', hc⟩ hz
    have hrun : run config (tr ++ tr') = .ok s' := Runs.run_append_ok.mpr ⟨s, h, h'⟩
    exact not_completed_queued hrun (stays hz tr' s' ha h') outcome hc
  · intro hne
    have hs₁ : step s (.snapshot (-1)) = .ok (snapshot s (-1)) := rfl
    have h₁ : run config (tr ++ [.snapshot (-1)]) = .ok (snapshot s (-1)) :=
      Runs.run_snoc_ok.mpr ⟨s, h, hs₁⟩
    have hw : (snapshot s (-1)).waits[s.waits.length]? =
        some { interval := -1, list := copyActive s.mux.list.entries } := by simp [snapshot]
    obtain ⟨tr₂, s₂, ha₂, h₂, hready⟩ :=
      wait_takes h₁ ho hw rfl rfl ((mem_copyActive s.mux.list fd).mpr hne)
    obtain ⟨before, rest, hsplit⟩ := List.append_of_mem hready
    obtain ⟨tr₃, s₃, outcome, ha₃, h₃, hc⟩ :=
      execute_all (Runs.run_append_ok.mpr ⟨_, h₁, h₂⟩) hsplit
    refine ⟨.snapshot (-1) :: (tr₂ ++ tr₃), s₃, outcome, ?_, ?_, hc⟩
    · intro a ha
      obtain rfl | ha := List.mem_cons.mp ha
      · rfl
      · exact (List.mem_append.mp ha).elim (ha₂ a) (ha₃ a)
    · exact Runs.run_cons_ok.mpr ⟨_, hs₁, Runs.run_append_ok.mpr ⟨s₂, h₂, h₃⟩⟩

theorem queued_can_complete_second :
    ∃ s, run {} [.emplace 5#32, .set 0 .read, .set 0 .read, .connect 0,
      .start 0, .connect 1, .start 1] = .ok s ∧
    ∃ tr' s' outcome, (∀ a ∈ tr', waiting a = true) ∧ Runs.run step s tr' = .ok s' ∧
      Completed s' 1 outcome :=
  ⟨_, rfl, (queued_can_complete_iff {} [.emplace 5#32, .set 0 .read, .set 0 .read, .connect 0,
    .start 0, .connect 1, .start 1] rfl (by decide) 1 5#32 .read (by decide)).1.mpr (by decide)⟩

end AsyncBerkeley.Progress
