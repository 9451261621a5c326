import AsyncBerkeley.Reactor
import AsyncBerkeley.ExecutionOrder

namespace AsyncBerkeley.ReactorRuns

open Events InterestList SocketHandles PollMultiplexer Operations Executor Passes Steps Evolution
  Lifetimes Conservation ExecutionOrder

/-- The reactor that the executor is: its channels are the directions of the
descriptors, and its workers are the calls of `wait_for`. -/
abbrev Reactor := Reactor.State (Fd × Direction) Nat TaskId

variable {s s' : State} {a : Action} {r r' : Reactor}

def executedIn (w : Nat) (s : State) : Action → List TaskId
  | .execute v _ => if v = w then ((s.waits[v]?).bind (fun wait => wait.ready.head?)).toList else []
  | _ => []

def lostIn (w : Nat) (s : State) : Action → List TaskId
  | .pass v getsockopt =>
    if v = w then
      match s.waits[v]? with
      | none => []
      | some wait =>
        let result := handleEvents getsockopt { mux := s.mux, handles := s.handles } wait.list
        if result.2.isSome then result.1.ready else []
    else []
  | _ => []

def takes (w : Nat) (event : Pollfd) : List (Reactor.Action (Fd × Direction) Nat TaskId) :=
  (if drains event.revents .write then [.take w (event.fd, .write)] else []) ++
    (if drains event.revents .read then [.take w (event.fd, .read)] else [])

def passReactions (w : Nat) (getsockopt : Fd → Except Errno Int) :
    Pass → List Pollfd → List (Reactor.Action (Fd × Direction) Nat TaskId)
  | _, [] => []
  | p, event :: events =>
    match handleEvent getsockopt p event with
    | (p, none) => takes w event ++ passReactions w getsockopt p events
    | (_, some _) => []

/-- What a step of the executor is for the reactor. -/
def reactions (s : State) : Action → List (Reactor.Action (Fd × Direction) Nat TaskId)
  | .start o =>
    match s.ops[o]? with
    | none => []
    | some op =>
      if op.trigger == .EAGER || hard (errorOf s.handles op.socket) then []
      else
        [.submit (descriptor s.handles op.socket, if op.trigger = .WRITE then .write else .read) o]
  | .poll w begin answers =>
    match s.waits[w]? with
    | none => []
    | some wait =>
      match poll_ wait.list wait.interval begin answers with
      | some (.error _) => [.fail w]
      | _ => []
  | .pass w getsockopt =>
    match s.waits[w]? with
    | none => []
    | some wait =>
      let p : Pass := { mux := s.mux, handles := s.handles }
      passReactions w getsockopt p wait.list ++
        if (handleEvents getsockopt p wait.list).2.isSome then [.fail w] else []
  | .execute w _ => [.run w]
  | _ => []

def readyOf (s : State) (w : Nat) : List TaskId := ((s.waits[w]?).map Wait.ready).getD []

def failedCall (s : State) (w : Nat) : Prop :=
  ∃ wait, s.waits[w]? = some wait ∧ failed wait.phase = true

/-- The state is that of the reactor, with what each call has executed and lost. -/
structure Shows (s : State) (executed lost : Nat → List TaskId) (r : Reactor) : Prop where
  waiting : ∀ c, r.tasks (.waiting c) = s.mux.queue c.1 c.2
  ready : ∀ w, r.tasks (.ready w) = readyOf s w
  done : ∀ w, r.tasks (.done w) = executed w
  lost : ∀ w, r.tasks (.lost w) = lost w
  sent : ∀ c, r.sent c = tasksOf s c.1 c.2 (queuedOrder s.history)
  failed : ∀ w, r.failed w ↔ failedCall s w

theorem readyOf_set {w : Nat} {wait : Wait} (hw : s.waits[w]? = some wait) (new : Wait)
    (hs : s'.waits = s.waits.set w new) (v : Nat) :
    readyOf s' v = if v = w then new.ready else readyOf s v := by
  obtain ⟨hlt, -⟩ := List.getElem?_eq_some_iff.mp hw
  by_cases hv : v = w
  · subst hv; simp [readyOf, hs, hlt]
  · simp [readyOf, hs, hv, List.getElem?_set_ne (Ne.symm hv)]

theorem failedCall_set {w : Nat} {wait : Wait} (hw : s.waits[w]? = some wait) (new : Wait)
    (hs : s'.waits = s.waits.set w new) (v : Nat) :
    failedCall s' v ↔ if v = w then failed new.phase = true else failedCall s v := by
  obtain ⟨hlt, -⟩ := List.getElem?_eq_some_iff.mp hw
  by_cases hv : v = w
  · subst hv; simp [failedCall, hs, hlt]
  · simp [failedCall, hs, hv, List.getElem?_set_ne (Ne.symm hv)]

structure Taking (w : Nat) (r r' : Reactor) (waiting : Fd × Direction → List TaskId)
    (ready : List TaskId) :
    Prop where
  waiting : ∀ c, r'.tasks (.waiting c) = waiting c
  ready : r'.tasks (.ready w) = ready
  others : ∀ v ≠ w, r'.tasks (.ready v) = r.tasks (.ready v)
  done : ∀ v, r'.tasks (.done v) = r.tasks (.done v)
  lost : ∀ v, r'.tasks (.lost v) = r.tasks (.lost v)
  sent : r'.sent = r.sent
  failed : r'.failed = r.failed

variable {w : Nat} {waiting : Fd × Direction → List TaskId} {ready : List TaskId}

theorem taking_if (hf : ¬r.failed w) (h : Taking w r r' waiting ready) (b : Bool)
    (c : Fd × Direction) :
    ∃ r'', Reactor.Trace r' (if b then [.take w c] else []) [] r'' ∧
      Taking w r r'' (if b then Function.update waiting c [] else waiting)
        (ready ++ if b then waiting c else []) := by
  cases b with
  | false => exact ⟨r', .nil, by simpa using h⟩
  | true =>
    refine ⟨_, .single (.take (h.failed ▸ hf)), ?_⟩
    refine ⟨fun k => ?_, ?_, fun v hv => ?_, fun v => ?_, fun v => ?_, h.sent, h.failed⟩
    · by_cases hk : k = c
      · subst hk; simp [Reactor.shift]
      · simp [Reactor.shift, hk, h.waiting]
    · simp [Reactor.shift, h.waiting, h.ready]
    · simp [Reactor.shift, hv, h.others v hv]
    · simp [Reactor.shift, h.done]
    · simp [Reactor.shift, h.lost]

variable {getsockopt : Fd → Except Errno Int} {p : Pass}

theorem taking_round (hf : ¬r.failed w) (h : Taking w r r' (fun c => p.mux.queue c.1 c.2) p.ready)
    {event : Pollfd} (hx : (handleEvent getsockopt p event).2 = none) :
    ∃ r'', Reactor.Trace r' (takes w event) [] r'' ∧
      Taking w r r'' (fun c => (handleEvent getsockopt p event).1.mux.queue c.1 c.2)
        (handleEvent getsockopt p event).1.ready := by
  obtain ⟨demux, handles, hd, -, he⟩ | ⟨exit, he⟩ := handleEvent_cases getsockopt p event
  · obtain ⟨r₁, hw, h₁⟩ := taking_if hf h (drains event.revents .write) (event.fd, .write)
    obtain ⟨r₂, hr, h₂⟩ := taking_if hf h₁ (drains event.revents .read) (event.fd, .read)
    refine ⟨r₂, hw.append hr, ?_⟩
    rw [he]
    convert h₂ using 1
    · funext c
      rw [queue_set hd, drained_queue]
      obtain ⟨fd, d⟩ := c
      by_cases hfd : fd = event.fd
      · subst hfd
        cases d <;> cases hdw : drains event.revents .write <;>
          cases hdr : drains event.revents .read <;> simp [queue_of_getElem? hd]
      · cases hdw : drains event.revents .write <;>
          cases hdr : drains event.revents .read <;> simp [hfd]
    · cases hdw : drains event.revents .write <;> cases hdr : drains event.revents .read <;>
        simp [moved, hdw, hdr, queue_of_getElem? hd, Demultiplexer.queue]
  · rw [he] at hx
    cases hx

theorem taking_pass (getsockopt : Fd → Except Errno Int) (hf : ¬r.failed w)
    (h : Taking w r r' (fun c => p.mux.queue c.1 c.2) p.ready) (events : List Pollfd) :
    ∃ r'', Reactor.Trace r' (passReactions w getsockopt p events) [] r'' ∧
      Taking w r r'' (fun c => (handleEvents getsockopt p events).1.mux.queue c.1 c.2)
        (handleEvents getsockopt p events).1.ready := by
  induction events generalizing p r' with
  | nil => exact ⟨r', .nil, h⟩
  | cons event events ih =>
    cases hx : (handleEvent getsockopt p event).2 with
    | none =>
      obtain ⟨r₁, htr, htk⟩ := taking_round hf h hx
      obtain ⟨r₂, htr', htk'⟩ := ih htk
      rw [handleEvents_cons_of_none hx]
      refine ⟨r₂, ?_, htk'⟩
      rw [passReactions]
      split
      · next he =>
        rw [he] at htr'
        exact htr.append htr'
      · next he =>
        rw [he] at hx
        cases hx
    | some exit =>
      rw [handleEvents_cons_of_some hx]
      obtain ⟨_, _, _, _, he⟩ | ⟨_, he⟩ := handleEvent_cases getsockopt p event
      · rw [he] at hx
        cases hx
      · refine ⟨r', ?_, by rw [he]; exact h⟩
        rw [passReactions, he]
        exact .nil

theorem Taking.refl (hq : ∀ c, r.tasks (.waiting c) = waiting c) (hr : r.tasks (.ready w) = ready) :
    Taking w r r waiting ready := ⟨hq, hr, fun _ _ => rfl, fun _ => rfl, fun _ => rfl, rfl, rfl⟩

theorem readyOf_eq {wait : Wait} (hw : s.waits[w]? = some wait) : readyOf s w = wait.ready := by
  simp [readyOf, hw]

theorem failedCall_iff {wait : Wait} (hw : s.waits[w]? = some wait) :
    failedCall s w ↔ failed wait.phase = true := by
  simp [failedCall, hw]

/-- The reactor follows a step: it runs the tasks that the step executes, and shows the state after
it. -/
def Follows (r : Reactor) (executed lost : Nat → List TaskId) (s : State)
    (a : Action) (s' : State) : Prop :=
  ∃ ran r', Reactor.Trace r (reactions s a) ran r' ∧
    executedOrder s'.history = executedOrder s.history ++ ran ∧
    Shows s' (fun w => executed w ++ executedIn w s a) (fun w => lost w ++ lostIn w s a) r'

variable {executed lost : Nat → List TaskId}

theorem follows_silent (hsh : Shows s executed lost r)
    (hsent : ∀ c : Fd × Direction,
      tasksOf s' c.1 c.2 (queuedOrder s'.history) = tasksOf s c.1 c.2 (queuedOrder s.history))
    (hex : executedOrder s'.history = executedOrder s.history)
    (hmux : ∀ fd d, s'.mux.queue fd d = s.mux.queue fd d) (hready : ∀ w, readyOf s' w = readyOf s w)
    (hfail : ∀ w, failedCall s' w ↔ failedCall s w) (hexin : ∀ w, executedIn w s a = [])
    (hlost : ∀ w, lostIn w s a = []) (hact : reactions s a = []) :
    Follows r executed lost s a s' := by
  refine ⟨[], r, by rw [hact]; exact .nil, by rw [hex, List.append_nil], ?_⟩
  exact ⟨fun c => by rw [hmux, hsh.waiting], fun w => by rw [hready, hsh.ready],
    fun w => by rw [hexin, List.append_nil, hsh.done],
    fun w => by rw [hlost, List.append_nil, hsh.lost],
    fun c => by rw [hsent, hsh.sent], fun w => by rw [hfail, hsh.failed]⟩

theorem readyOf_advance {wait new : Wait} (hw : s.waits[w]? = some wait)
    (hwaits : s'.waits = s.waits.set w new) (hready : new.ready = wait.ready) (v : Nat) :
    readyOf s' v = readyOf s v := by
  rw [readyOf_set hw _ hwaits]
  split
  · next hv => rw [hv, readyOf_eq hw, hready]
  · rfl

theorem failedCall_advance {wait new : Wait} (hw : s.waits[w]? = some wait)
    (hwaits : s'.waits = s.waits.set w new)
      (hfail : failed new.phase = failed wait.phase) (v : Nat) :
    failedCall s' v ↔ failedCall s v := by
  rw [failedCall_set hw _ hwaits]
  split
  · next hv => rw [hv, failedCall_iff hw, hfail]
  · rfl

theorem readyOf_snapshot {interval : Int} (w : Nat) :
    readyOf (snapshot s interval) w = readyOf s w := by
  by_cases hw : w < s.waits.length
  · simp [readyOf, snapshot, List.getElem?_append_left hw]
  · rw [readyOf, snapshot, List.getElem?_append_right (Nat.le_of_not_lt hw), readyOf,
      List.getElem?_eq_none (Nat.le_of_not_lt hw)]
    cases w - s.waits.length <;> rfl

theorem failedCall_snapshot {interval : Int} (w : Nat) :
    failedCall (snapshot s interval) w ↔ failedCall s w := by
  by_cases hw : w < s.waits.length
  · simp [failedCall, snapshot, List.getElem?_append_left hw]
  · rw [failedCall, snapshot, List.getElem?_append_right (Nat.le_of_not_lt hw), failedCall,
      List.getElem?_eq_none (Nat.le_of_not_lt hw)]
    cases w - s.waits.length <;> simp [failed]

theorem fail_shows {wait : Wait} {errno : Errno} (hw : s.waits[w]? = some wait)
    (hready : wait.ready = []) (hn : ¬r.failed w)
    (hwaits : s'.waits = s.waits.set w { wait with phase := .threw errno })
    (hsent : ∀ c : Fd × Direction,
      tasksOf s' c.1 c.2 (queuedOrder s'.history) = tasksOf s c.1 c.2 (queuedOrder s.history))
    (hsh : Shows s executed lost r) (ht : Taking w r r' (fun c => s'.mux.queue c.1 c.2) ready) :
    ∃ r'', Reactor.Trace r' [.fail w] [] r'' ∧
      Shows s' executed (fun v => lost v ++ if v = w then ready else []) r'' := by
  refine ⟨_, .single (.fail (ht.failed ▸ hn)), ?_⟩
  refine ⟨fun c => ?_, fun v => ?_, fun v => ?_, fun v => ?_, fun c => ?_, fun v => ?_⟩
  · simpa [Reactor.shift] using ht.waiting c
  · rw [readyOf_set hw _ hwaits]
    by_cases hv : v = w
    · subst hv; simp [Reactor.shift, hready]
    · simp [Reactor.shift, hv, ht.others v hv, hsh.ready]
  · simp [Reactor.shift, ht.done, hsh.done]
  · by_cases hv : v = w
    · subst hv; simp [Reactor.shift, ht.lost, hsh.lost, ht.ready]
    · simp [Reactor.shift, hv, ht.lost, hsh.lost]
  · rw [ht.sent, hsh.sent, hsent]
  · rw [failedCall_set hw _ hwaits]
    by_cases hv : v = w
    · subst hv; simp [failed]
    · simp [hv, ht.failed, hsh.failed]

theorem not_failed {wait : Wait} (hsh : Shows s executed lost r) (hw : s.waits[w]? = some wait)
    (hp : failed wait.phase = false) : ¬r.failed w := by
  rw [hsh.failed, failedCall_iff hw, hp]
  exact Bool.false_ne_true

theorem follows_pollThrew {wait : Wait} {errno : Errno} {begin : Int} {answers : List PollAnswer}
    (hr : Running s) (hw : s.waits[w]? = some wait) (hp : wait.phase = .polling)
    (hpoll : poll_ wait.list wait.interval begin answers = some (.error errno))
    (hs' : s' = { s with waits := s.waits.set w { wait with phase := .threw errno } })
    (hsent : ∀ c : Fd × Direction,
      tasksOf s' c.1 c.2 (queuedOrder s'.history) = tasksOf s c.1 c.2 (queuedOrder s.history))
    (hsh : Shows s executed lost r) : Follows r executed lost s (.poll w begin answers) s' := by
  have hready : wait.ready = [] := by
    by_contra hne
    rw [hr wait (List.mem_of_getElem? hw) hne] at hp
    cases hp
  have hn := not_failed hsh hw (by rw [hp]; rfl)
  subst hs'
  have htk : Taking w r r (fun c => s.mux.queue c.1 c.2) [] :=
    .refl hsh.waiting (by rw [hsh.ready, readyOf_eq hw, hready])
  obtain ⟨r', htr, hsh'⟩ := fail_shows hw hready hn rfl hsent hsh htk
  exact ⟨[], r', by simpa only [reactions, hw, hpoll] using htr, by simp,
    by simpa [executedIn, lostIn] using hsh'⟩

theorem follows_passThrew {wait : Wait} {errno : Errno} (hr : Running s)
    (hw : s.waits[w]? = some wait) (hp : wait.phase = .polled)
    (hx : (handleEvents getsockopt { mux := s.mux, handles := s.handles } wait.list).2 =
      some (.threw errno))
    (hs' : s' = passed s w (handleEvents getsockopt
      { mux := s.mux, handles := s.handles } wait.list).1 { wait with phase := .threw errno })
    (hsent : ∀ c : Fd × Direction,
      tasksOf s' c.1 c.2 (queuedOrder s'.history) = tasksOf s c.1 c.2 (queuedOrder s.history))
    (hsh : Shows s executed lost r) : Follows r executed lost s (.pass w getsockopt) s' := by
  have hready := ready_of_polled hr hw hp
  have hn := not_failed hsh hw (by rw [hp]; rfl)
  obtain ⟨r₁, htr, htk⟩ := taking_pass (p := { mux := s.mux, handles := s.handles }) getsockopt hn
    (.refl hsh.waiting (by rw [hsh.ready, readyOf_eq hw, hready])) wait.list
  subst hs'
  obtain ⟨r₂, htr', hsh'⟩ := fail_shows hw hready hn rfl hsent hsh htk
  refine ⟨_, r₂, by simpa [reactions, hw, hx] using htr.append htr', by simp [passed], ?_⟩
  have hlost : (fun v => lost v ++ lostIn v s (.pass w getsockopt)) = fun v => lost v ++
      if v = w then
        (handleEvents getsockopt { mux := s.mux, handles := s.handles } wait.list).1.ready
      else [] := by
    funext v
    by_cases hv : v = w
    · subst hv; simp [lostIn, hw, hx]
    · simp [lostIn, hv, Ne.symm hv]
  rw [hlost]
  simpa [executedIn] using hsh'

theorem follows_passed {wait : Wait} (hr : Running s) (hw : s.waits[w]? = some wait)
    (hp : wait.phase = .polled)
    (hx : (handleEvents getsockopt { mux := s.mux, handles := s.handles } wait.list).2 = none)
    (hs' : s' = passed s w
      (handleEvents getsockopt { mux := s.mux, handles := s.handles } wait.list).1
      { wait with
        ready :=
          (handleEvents getsockopt { mux := s.mux, handles := s.handles } wait.list).1.ready
        phase := .running })
    (hsent : ∀ c : Fd × Direction,
      tasksOf s' c.1 c.2 (queuedOrder s'.history) = tasksOf s c.1 c.2 (queuedOrder s.history))
    (hsh : Shows s executed lost r) : Follows r executed lost s (.pass w getsockopt) s' := by
  have hn := not_failed hsh hw (by rw [hp]; rfl)
  obtain ⟨r', htr, htk⟩ := taking_pass (p := { mux := s.mux, handles := s.handles }) getsockopt hn
    (.refl hsh.waiting (by rw [hsh.ready, readyOf_eq hw, ready_of_polled hr hw hp])) wait.list
  subst hs'
  refine ⟨[], r', by simpa [reactions, hw, hx] using htr, by simp [passed], ?_⟩
  refine ⟨htk.waiting, fun v => ?_, fun v => ?_, fun v => ?_, fun c => ?_, fun v => ?_⟩
  · rw [readyOf_set hw _ rfl]
    split
    · next hv => rw [hv, htk.ready]
    · next hv => rw [htk.others v hv, hsh.ready]
  · simp [executedIn, htk.done, hsh.done]
  · by_cases hv : w = v
    · subst hv; simp [lostIn, hw, hx, htk.lost, hsh.lost]
    · simp [lostIn, hv, htk.lost, hsh.lost]
  · rw [htk.sent, hsh.sent, hsent]
  · rw [htk.failed, hsh.failed]
    exact (failedCall_advance hw rfl (by rw [hp]; rfl) v).symm

theorem start_waits {o : TaskId} {op : Operation} (h : start s o = .ok s')
    (hop : s.ops[o]? = some op) (hq : s'.history = s.history ++ [.queued o]) :
    ¬(op.trigger = .EAGER ∨ hard (errorOf s.handles op.socket) = true) := by
  intro he
  have hh := (complete_completes (start_complete h hop he)).history
  rw [hq] at hh
  simp at hh

theorem reactions_start {o : TaskId} {op : Operation} {d : Direction} (hop : s.ops[o]? = some op)
    (ht : op.trigger = d.trigger)
    (hne : ¬(op.trigger = .EAGER ∨ hard (errorOf s.handles op.socket) = true)) :
    reactions s (.start o) = [.submit (descriptor s.handles op.socket, d) o] := by
  rw [not_or, Bool.not_eq_true] at hne
  have hd : (if op.trigger = .WRITE then Direction.write else .read) = d := by
    rw [ht]
    cases d <;> rfl
  simp [reactions, hop, hne, hd]

theorem follows_queue {o : TaskId} {op : Operation} {d : Direction} {i : Nat}
    {demux : Demultiplexer} (hs : Sane s) (ho : Owned s) (hq : QueuedOnce s)
    (hop : s.ops[o]? = some op) (hst : op.status = .connected) (ht : op.trigger = d.trigger)
    (hd : op.demux = some i) (hi : s.mux.demux[i]? = some demux)
    (hne : ¬(op.trigger = .EAGER ∨ hard (errorOf s.handles op.socket) = true))
    (hsh : Shows s executed lost r) :
    Follows r executed lost s (.start o) { s with
      mux := { s.mux with demux := s.mux.demux.set i (push demux o op.trigger op.socket) }
      ops := s.ops.set o { op with status := .queued }
      history := s.history ++ [.queued o] } := by
  have hp := hs.pointers o op i hop hd
  subst hp
  have hown : target s o = some (d.trigger, descriptor s.handles op.socket) := by
    rw [target_of_getElem? hop, ht]
  have hstep := Step.queue hop hst ht hd hi
  have hnew : ∀ c, o ∉ r.sent c := by
    intro c hc
    rw [hsh.sent] at hc
    obtain ⟨op', hop', hst', -⟩ := hq.started o (List.mem_of_mem_filter hc)
    rw [hop] at hop'
    cases hop'
    simp [started, hst] at hst'
  refine ⟨[], _, by rw [reactions_start hop ht hne]; exact .single (.submit hnew),
    by simp [executedOrder], ?_⟩
  refine ⟨fun c => ?_, fun v => ?_, fun v => ?_, fun v => ?_, fun c => ?_, fun v => ?_⟩
  · obtain ⟨fd', d'⟩ := c
    simp only [queue_push ht hi]
    by_cases hc : (fd', d') = (descriptor s.handles op.socket, d)
    · obtain ⟨rfl, rfl⟩ := Prod.mk.inj hc
      simp [hsh.waiting]
    · rw [Function.update_of_ne (by simpa using hc),
        if_neg (fun he => hc (Prod.ext he.1 he.2)), hsh.waiting]
  · simp [hsh.ready, readyOf]
  · simp [executedIn, hsh.done]
  · simp [lostIn, hsh.lost]
  · obtain ⟨fd', d'⟩ := c
    have hmove : queuedOrder (s.history ++ [.queued o]) = queuedOrder s.history ++ [o] :=
      queuedOrder_append _ _
    have hlater := tasksOf_step hs hstep fd' d' (fun o hm => ho.known o (mem_queuedOrder.mp hm))
    simp only [hmove, tasksOf_append, hlater, tasksOf_singleton (step_target hs hstep hown)]
    by_cases hc : (fd', d') = (descriptor s.handles op.socket, d)
    · obtain ⟨rfl, rfl⟩ := Prod.mk.inj hc
      simp [hsh.sent]
    · rw [Function.update_of_ne hc, if_neg (fun he => hc (Prod.ext he.1 he.2)),
        hsh.sent, List.append_nil]
  · exact hsh.failed v

theorem follows_execute {answers : List Answer} {wait : Wait} {o : TaskId} {rest : List TaskId}
    {op : Operation} (hr : Running s) (hw : s.waits[w]? = some wait)
    (hready : wait.ready = o :: rest)
    (hc : Completes (popped s w { wait with ready := rest } o) s' o op)
    (hsent : ∀ c : Fd × Direction,
      tasksOf s' c.1 c.2 (queuedOrder s'.history) = tasksOf s c.1 c.2 (queuedOrder s.history))
    (hsh : Shows s executed lost r) : Follows r executed lost s (.execute w answers) s' := by
  have hphase : wait.phase = .running :=
    hr wait (List.mem_of_getElem? hw) (by rw [hready]; exact List.cons_ne_nil _ _)
  have hn := not_failed hsh hw (by rw [hphase]; rfl)
  have hrr : r.tasks (.ready w) = o :: rest := by rw [hsh.ready, readyOf_eq hw, hready]
  refine ⟨[o], _, .single (.run hn hrr), by rw [hc.history]; simp [popped, executedOrder], ?_⟩
  refine ⟨fun c => ?_, fun v => ?_, fun v => ?_, fun v => ?_, fun c => ?_, fun v => ?_⟩
  · simp [Reactor.shift, hsh.waiting, hc.mux, popped]
  · rw [readyOf_set hw _ hc.waits]
    by_cases hv : v = w
    · subst hv; simp [Reactor.shift]
    · simp [Reactor.shift, hv, hsh.ready]
  · by_cases hv : v = w
    · subst hv; simp [Reactor.shift, executedIn, hw, hready, hsh.done]
    · simp [Reactor.shift, hv, executedIn, Ne.symm hv, hsh.done]
  · simp [Reactor.shift, lostIn, hsh.lost]
  · rw [hsent, hsh.sent]
  · rw [failedCall_advance hw hc.waits rfl, hsh.failed]

theorem poll_threw {begin : Int} {answers : List PollAnswer} {wait : Wait} {errno : Errno}
    (h : poll s w begin answers = .ok s') (hw : s.waits[w]? = some wait)
    (hs' : s'.waits[w]? = some { wait with phase := .threw errno }) :
    poll_ wait.list wait.interval begin answers = some (.error errno) := by
  obtain ⟨hlt, -⟩ := List.getElem?_eq_some_iff.mp hw
  simp only [poll, hw] at h
  split at h
  · cases h
  · split at h
    · cases h
    · next errno' he =>
      cases h
      simp only [List.getElem?_set_self hlt, Option.some.injEq, Wait.mk.injEq,
        Phase.threw.injEq, true_and] at hs'
      rw [he, hs']
    · cases h
      simp [List.getElem?_set_self hlt] at hs'

theorem reactions_polled {begin : Int} {answers : List PollAnswer} {wait : Wait}
    {events : List Pollfd} (hw : s.waits[w]? = some wait)
    (hr : poll_ wait.list wait.interval begin answers = some (.ok events)) :
    reactions s (.poll w begin answers) = [] := by
  simp [reactions, hw, hr]

theorem step_shows (hs : Sane s) (ho : Owned s) (hr : Running s) (hq : QueuedOnce s)
    (h : step s a = .ok s') (hsh : Shows s executed lost r) : Follows r executed lost s a s' := by
  have hspec := step_spec h
  have hsent : queuedOrder s'.history = queuedOrder s.history → ∀ c : Fd × Direction,
      tasksOf s' c.1 c.2 (queuedOrder s'.history) = tasksOf s c.1 c.2 (queuedOrder s.history) := by
    intro he c
    rw [he]
    exact tasksOf_step hs hspec c.1 c.2 (fun o hm => ho.known o (mem_queuedOrder.mp hm))
  cases hspec with
  | issue ha h =>
    refine follows_silent hsh (hsent (by rw [h.history])) (by rw [h.history])
      (fun _ _ => by rw [h.mux])
      (fun _ => by rw [readyOf, h.waits, readyOf])
        (fun _ => by rw [failedCall, h.waits, failedCall]) ?_ ?_ ?_
    all_goals cases a <;> first | exact fun _ => rfl | rfl | cases ha
  | inline hop _ he hc =>
    exact follows_silent hsh (hsent (by rw [hc.history])) (by rw [hc.history])
      (fun _ _ => by rw [hc.mux])
      (fun _ => by rw [readyOf, hc.waits, readyOf])
        (fun _ => by rw [failedCall, hc.waits, failedCall])
      (fun _ => rfl) (fun _ => rfl) (by simpa [reactions, hop, or_iff_not_imp_left] using he)
  | register _ _ _ _ _ =>
    exact follows_silent hsh (hsent (by simp [queuedOrder])) (by simp [executedOrder])
      (fun _ _ => queue_makeRoom _ _ _ _ _) (fun _ => rfl) (fun _ => .rfl) (fun _ => rfl)
      (fun _ => rfl) rfl
  | abandon _ _ =>
    exact follows_silent hsh (hsent rfl) rfl (fun _ _ => queue_makeRoom _ _ _ _ _)
      (fun _ => rfl) (fun _ => .rfl) (fun _ => rfl) (fun _ => rfl) rfl
  | idle _ _ _ =>
    exact follows_silent hsh (hsent rfl) rfl (fun _ _ => rfl) (fun _ => rfl)
      (fun _ => .rfl) (fun _ => rfl) (fun _ => rfl) rfl
  | snapshot =>
    exact follows_silent hsh (hsent rfl) rfl (fun _ _ => rfl) readyOf_snapshot failedCall_snapshot
      (fun _ => rfl) (fun _ => rfl) rfl
  | polled hw hp _ hpoll =>
    exact follows_silent hsh (hsent rfl) rfl (fun _ _ => rfl) (readyOf_advance hw rfl rfl)
      (failedCall_advance hw rfl (by rw [hp]; rfl)) (fun _ => rfl) (fun _ => rfl)
      (reactions_polled hw hpoll)
  | finish hw hp _ =>
    exact follows_silent hsh (hsent rfl) rfl (fun _ _ => rfl) (readyOf_advance hw rfl rfl)
      (failedCall_advance hw rfl (by rw [hp]; rfl)) (fun _ => rfl) (fun _ => rfl) rfl
  | pollThrew hw hp =>
    have hpoll := poll_threw h hw (List.getElem?_set_self (List.getElem?_eq_some_iff.mp hw).1)
    exact follows_pollThrew hr hw hp hpoll rfl (hsent rfl) hsh
  | queue hop hst ht hd hi =>
    exact follows_queue hs ho hq hop hst ht hd hi (start_waits h hop rfl) hsh
  | passed hw hp hx => exact follows_passed hr hw hp hx rfl (hsent (by simp [passed])) hsh
  | passThrew hw hp hx => exact follows_passThrew hr hw hp hx rfl (hsent (by simp [passed])) hsh
  | execute hw hready _ hc =>
    exact follows_execute hr hw hready hc
      (hsent (by rw [hc.history]; simp [popped, queuedOrder])) hsh

section Run

variable {config : Config} {tr : List Action}

theorem run_running (h : run config tr = .ok s) : Running s :=
  Runs.run_invariant Running (fun _ _ _ hs h => running_step hs (step_spec h)) h
    (accounted_initial config).running

theorem run_queuedOnce (h : run config tr = .ok s) : QueuedOnce s :=
  Runs.run_invariant QueuedOnce (fun _ _ _ hs h => queuedOnce_step hs (step_spec h)) h
    (accounted_initial config).queuedOnce

def executedBy (config : Config) (tr : List Action) (w : Nat) : List TaskId :=
  Runs.collect step (executedIn w) (initial config) tr

def lostBy (config : Config) (tr : List Action) (w : Nat) : List TaskId :=
  Runs.collect step (lostIn w) (initial config) tr

theorem shows_initial :
    Shows (initial config) (executedBy config []) (lostBy config []) .initial where
  waiting := fun _ => by simp [Reactor.State.initial, initial, Multiplexer.queue]
  ready := fun _ => by simp [Reactor.State.initial, initial, readyOf]
  done := fun _ => rfl
  lost := fun _ => rfl
  sent := fun _ => by simp [Reactor.State.initial, initial, queuedOrder, tasksOf]
  failed := fun _ => by simp [Reactor.State.initial, initial, failedCall]

def reactorActions (config : Config) (tr : List Action) :
    List (Reactor.Action (Fd × Direction) Nat TaskId) :=
  Runs.collect step reactions (initial config) tr

/-- Every run of the executor is one of the reactor. -/
theorem run_shows (h : run config tr = .ok s) : ∃ r,
    Reactor.Trace .initial (reactorActions config tr) (executedOrder s.history) r ∧
      Shows s (executedBy config tr) (lostBy config tr) r := by
  refine Runs.run_induction (fun tr s => ∃ r,
    Reactor.Trace .initial (reactorActions config tr) (executedOrder s.history) r ∧
      Shows s (executedBy config tr) (lostBy config tr) r) ⟨_, .nil, shows_initial⟩ ?_ h
  rintro tr u a v hu ha ⟨r, htr, hsh⟩
  obtain ⟨ran, r', htr', hex, hsh'⟩ := step_shows (run_sane hu) (run_owned hu) (run_running hu)
    (run_queuedOnce hu) ha hsh
  have hact : reactorActions config (tr ++ [a]) = reactorActions config tr ++ reactions u a :=
    Runs.collect_snoc _ hu ha
  have hex' : executedBy config (tr ++ [a]) = fun w => executedBy config tr w ++ executedIn w u a :=
    funext fun w => Runs.collect_snoc _ hu ha
  have hlost' : lostBy config (tr ++ [a]) = fun w => lostBy config tr w ++ lostIn w u a :=
    funext fun w => Runs.collect_snoc _ hu ha
  rw [hact, hex, hex', hlost']
  exact ⟨r', htr.append htr', hsh'⟩

def located (config : Config) (tr : List Action) (s : State) :
    Reactor.Place (Fd × Direction) Nat → List TaskId
  | .waiting (fd, d) => s.mux.queue fd d
  | .ready w => readyOf s w
  | .done w => executedBy config tr w
  | .lost w => lostBy config tr w

theorem Shows.located (h : Shows s (executedBy config tr) (lostBy config tr) r) :
    r.tasks = located config tr s := by
  funext p
  cases p with
  | waiting c => exact h.waiting c
  | ready w => exact h.ready w
  | done w => exact h.done w
  | lost w => exact h.lost w

theorem Shows.sent_iff (hq : QueuedOnce s) (h : Shows s executed lost r) (o : TaskId) :
    (∃ c, o ∈ r.sent c) ↔ o ∈ queuedOrder s.history := by
  constructor
  · rintro ⟨c, hc⟩
    rw [h.sent] at hc
    exact List.mem_of_mem_filter hc
  · intro ho
    obtain ⟨op, hop, -, d, ht⟩ := hq.started o ho
    refine ⟨(descriptor s.handles op.socket, d), ?_⟩
    rw [h.sent, tasksOf, List.mem_filter]
    exact ⟨ho, decide_eq_true (by rw [Own, target_of_getElem? hop, ht])⟩

/-- What is known of the tasks in every state that a run reaches, also after exceptions. -/
structure Located (config : Config) (tr : List Action) (s : State) : Prop where
  exclusive : Reactor.Exclusive (located config tr s)
  known : ∀ o, (∃ p, o ∈ located config tr s p) ↔ o ∈ queuedOrder s.history
  executed : ∀ o, (∃ w, o ∈ executedBy config tr w) ↔ o ∈ executedOrder s.history
  once : (executedOrder s.history).Nodup
  failed : ∀ w, lostBy config tr w ≠ [] → failedCall s w

theorem run_located (h : run config tr = .ok s) : Located config tr s := by
  obtain ⟨r, htr, hsh⟩ := run_shows h
  obtain ⟨hsound, -⟩ := htr.kept
  obtain ⟨hnd, -, hdone⟩ := htr.runs_once Reactor.sound_initial
  have ht := hsh.located
  refine ⟨ht ▸ hsound.tasks, fun o => ?_, fun o => ?_, hnd, fun w hw => ?_⟩
  · rw [← ht, hsound.known, hsh.sent_iff (run_queuedOnce h)]
  · have hd := hdone o
    simp only [hsh.done] at hd
    rw [hd]
    simp [Reactor.State.initial]
  · rw [← hsh.failed]
    by_contra hn
    exact hw (by rw [← hsh.lost, hsound.lost w hn])

/-- Each call of `wait_for` executes the tasks of a descriptor and direction in
the order in which they were queued, however many calls there are and whether
or not they throw; what is still queued comes after all of them. -/
theorem calls_keep_queue_order (config : Config) (tr : List Action) {s : State}
    (h : run config tr = .ok s) (w : Nat) (fd : Fd) (d : Direction) :
    List.Sublist
      (tasksOf s fd d (executedBy config tr w ++ lostBy config tr w ++ readyOf s w) ++
        s.mux.queue fd d)
      (tasksOf s fd d (queuedOrder s.history)) := by
  obtain ⟨r, htr, hsh⟩ := run_shows h
  obtain ⟨hsound, hord⟩ := htr.kept
  have hgiven : r.given w = executedBy config tr w ++ lostBy config tr w ++ readyOf s w := by
    rw [Reactor.State.given, hsh.done, hsh.lost, hsh.ready]
  -- what a call was given was queued, so that it belongs to the channel it was sent on
  have hfilter : (r.given w).filter (fun o => o ∈ r.sent (fd, d)) = tasksOf s fd d (r.given w) := by
    apply List.filter_congr
    intro o ho
    have hq : o ∈ queuedOrder s.history := by
      rw [← hsh.sent_iff (run_queuedOnce h), ← hsound.known]
      simp only [Reactor.State.given, List.mem_append] at ho
      obtain (ho | ho) | ho := ho
      · exact ⟨_, ho⟩
      · exact ⟨_, ho⟩
      · exact ⟨_, ho⟩
    rw [decide_eq_decide, hsh.sent, tasksOf, List.mem_filter, decide_eq_true_iff]
    exact ⟨And.right, And.intro hq⟩
  have ho := hord w (fd, d)
  rw [hfilter, hgiven, hsh.waiting, hsh.sent] at ho
  exact ho

theorem calls_keep_queue_order_two :
    ∃ s, run {} [.emplace 5#32, .set 0 .read, .set 0 .read, .set 0 .read,
      .connect 0, .start 0, .connect 1, .start 1, .snapshot (-1), .snapshot (-1),
      .poll 0 0 [.ready [POLLIN]], .poll 1 0 [.ready [POLLIN]], .pass 0 (fun _ => .ok 0),
      .connect 2, .start 2, .pass 1 (fun _ => .ok 0), .execute 1 [.transferred 1],
      .execute 0 [.transferred 2]] = .ok s ∧
    executedOrder s.history = [2, 0] ∧
    List.Sublist (tasksOf s 5#32 .read ([0] ++ [] ++ [1]) ++ [])
      (tasksOf s 5#32 .read [0, 1, 2]) := by
  have h := calls_keep_queue_order {} [.emplace 5#32, .set 0 .read, .set 0 .read, .set 0 .read,
    .connect 0, .start 0, .connect 1, .start 1, .snapshot (-1), .snapshot (-1),
    .poll 0 0 [.ready [POLLIN]], .poll 1 0 [.ready [POLLIN]], .pass 0 (fun _ => .ok 0), .connect 2,
    .start 2, .pass 1 (fun _ => .ok 0), .execute 1 [.transferred 1],
    .execute 0 [.transferred 2]] rfl 0 5#32 .read
  exact ⟨_, rfl, rfl, h⟩

end Run

end AsyncBerkeley.ReactorRuns
