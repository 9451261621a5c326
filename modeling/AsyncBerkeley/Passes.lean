import AsyncBerkeley.PollMultiplexer

namespace AsyncBerkeley.Passes

open Events InterestList SocketHandles PollMultiplexer

/-- The events that move the tasks of a direction to the ready queue. -/
def drains (revents : Short) : Direction → Bool
  | .read => test revents (POLLIN ||| POLLHUP ||| POLLERR ||| POLLNVAL)
  | .write => test revents (POLLOUT ||| POLLERR ||| POLLNVAL)

theorem drains_of_clears {revents : Short} {d : Direction} (h : clears revents d = true) :
    drains revents d = true := by
  cases d <;> simp [clears, drains, Direction.mask] at h ⊢ <;> tauto

def moved (revents : Short) (demux : Demultiplexer) : List TaskId :=
  (if drains revents .write then demux.writeQueue else []) ++
    (if drains revents .read then demux.readQueue else [])

def drained (revents : Short) (demux : Demultiplexer) : Demultiplexer where
  readQueue := if drains revents .read then [] else demux.readQueue
  writeQueue := if drains revents .write then [] else demux.writeQueue
  socket := demux.socket

theorem prepareHandles_eq (answer : Except Errno Int) (revents : Short) (demux : Demultiplexer)
    (handles : Handles) (ready : List TaskId) :
    prepareHandles answer revents demux handles ready =
      (reportError answer revents demux handles).map
        (fun handles => (handles, drained revents demux, ready ++ moved revents demux)) := by
  have hw : test revents (POLLOUT ||| POLLERR ||| POLLNVAL) = drains revents .write := rfl
  have hr : test revents (POLLIN ||| POLLHUP ||| POLLERR ||| POLLNVAL) = drains revents .read := rfl
  unfold prepareHandles moveWriters moveReaders moved drained
  rw [hw, hr]
  cases drains revents .write <;> cases drains revents .read <;> simp

theorem handleEvent_cases (getsockopt : Fd → Except Errno Int) (p : Pass) (event : Pollfd) :
    (∃ demux handles, p.mux.demux[toSize event.fd]? = some demux ∧
      reportError (getsockopt event.fd) event.revents demux p.handles = .ok handles ∧
      handleEvent getsockopt p event = ({
        mux :=
          ⟨p.mux.demux.set (toSize event.fd) (drained event.revents demux), p.mux.list.clear event⟩
        handles := handles
        ready := p.ready ++ moved event.revents demux
        begun := p.begun ++ [event] }, none)) ∨
    (∃ exit, handleEvent getsockopt p event = ({ p with
        mux := { p.mux with list := p.mux.list.clear event }
        begun := p.begun ++ [event] }, some exit)) := by
  unfold handleEvent
  cases hd : p.mux.demux[toSize event.fd]? with
  | none => exact .inr ⟨_, by simp [hd]; rfl⟩
  | some demux =>
    simp only [hd, prepareHandles_eq]
    cases hr : reportError (getsockopt event.fd) event.revents demux p.handles with
    | error exit => exact .inr ⟨exit, rfl⟩
    | ok handles => exact .inl ⟨demux, handles, rfl, hr, rfl⟩

theorem drained_queue (revents : Short) (demux : Demultiplexer) (d : Direction) :
    (drained revents demux).queue d = if drains revents d then [] else demux.queue d := by
  cases d <;> rfl

theorem setError_handles {answer : Except Errno Int} {socket : HandleId} {handles new : Handles}
    (h : setError answer socket handles = .ok new) :
    ∃ error, new = recordError handles socket error := by
  cases answer with
  | ok error => exact ⟨error, (Except.ok.inj h).symm⟩
  | error errno =>
    by_cases he : errno.val ≠ EBADF ∧ errno.val ≠ ENOTSOCK
    · simp only [setError, handleGetsockoptError, if_pos he] at h
      cases h
    · simp only [setError, handleGetsockoptError, if_neg he] at h
      exact ⟨errno, (Except.ok.inj h).symm⟩

theorem reportError_handles {answer : Except Errno Int} {revents : Short} {demux : Demultiplexer}
    {handles new : Handles} (h : reportError answer revents demux handles = .ok new) :
    new = handles ∨ ∃ socket error, new = recordError handles socket error := by
  unfold reportError at h
  split at h
  · split at h
    · next socket _ => exact .inr ⟨socket, setError_handles h⟩
    · cases h
  · exact .inl (Except.ok.inj h).symm

theorem setError_exit {answer : Except Errno Int} {socket : HandleId} {handles : Handles}
    {exit : Exit} (h : setError answer socket handles = .error exit) :
    ∃ errno, exit = .threw errno := by
  cases answer with
  | ok error => cases h
  | error errno =>
    by_cases he : errno.val ≠ EBADF ∧ errno.val ≠ ENOTSOCK
    · simp only [setError, handleGetsockoptError, if_pos he] at h
      exact ⟨errno, (Except.error.inj h).symm⟩
    · simp only [setError, handleGetsockoptError, if_neg he] at h
      cases h

theorem reportError_exit {answer : Except Errno Int} {revents : Short} {demux : Demultiplexer}
    {handles : Handles} {exit : Exit} (h : reportError answer revents demux handles = .error exit) :
    (∃ errno, exit = .threw errno) ∨ exit = .nullSocket := by
  unfold reportError at h
  split at h
  · split at h
    · exact .inl (setError_exit h)
    · exact .inr (Except.error.inj h).symm
  · cases h

variable {getsockopt : Fd → Except Errno Int} {p : Pass} {events : List Pollfd}

theorem handleEvent_outOfRange {event : Pollfd}
    (h : (handleEvent getsockopt p event).2 = some .outOfRange) :
    p.mux.demux.length ≤ toSize event.fd := by
  by_contra hlt
  have hd := List.getElem?_eq_getElem (Nat.lt_of_not_le hlt)
  unfold handleEvent at h
  simp only [hd, prepareHandles_eq] at h
  cases hr : reportError (getsockopt event.fd)
    event.revents p.mux.demux[toSize event.fd] p.handles with
  | ok handles =>
    rw [hr] at h
    cases h
  | error exit =>
    rw [hr] at h
    obtain rfl : exit = .outOfRange := Option.some.inj h
    rcases reportError_exit hr with ⟨errno, he⟩ | he <;> cases he

/-- Handling the event throws: `SO_ERROR` has to be read, and reading it fails
for another reason than a bad descriptor. -/
def fails (getsockopt : Fd → Except Errno Int) (event : Pollfd) : Bool :=
  test event.revents (POLLERR ||| POLLNVAL) &&
    match getsockopt event.fd with
    | .ok _ => false
    | .error errno => decide (errno.val ≠ EBADF ∧ errno.val ≠ ENOTSOCK)

theorem reportError_ok {event : Pollfd} {demux : Demultiplexer} {handles new : Handles}
    (h : reportError (getsockopt event.fd) event.revents demux handles = .ok new) :
    fails getsockopt event = false := by
  unfold fails
  cases ht : test event.revents (POLLERR ||| POLLNVAL) with
  | false => rfl
  | true =>
    simp only [reportError, ht, ↓reduceIte] at h
    cases hs : demux.socket with
    | none => simp only [hs] at h; cases h
    | some socket =>
      cases hg : getsockopt event.fd with
      | ok _ => rfl
      | error errno =>
        simp only [hs, hg, setError, handleGetsockoptError] at h
        split at h
        · cases h
        · next he => simpa using he

theorem reportError_threw {event : Pollfd} {demux : Demultiplexer} {handles : Handles}
    {errno : Errno}
    (h : reportError (getsockopt event.fd) event.revents demux handles = .error (.threw errno)) :
    fails getsockopt event = true := by
  unfold fails
  unfold reportError at h
  split at h
  · next ht =>
    split at h
    · cases hg : getsockopt event.fd with
      | ok _ => simp only [hg, setError] at h; cases h
      | error errno =>
        simp only [hg, setError, handleGetsockoptError] at h
        split at h
        · next he => simpa [ht] using he
        · cases h
    · cases h
  · cases h

theorem handleEvent_not_fails {event : Pollfd} (h : (handleEvent getsockopt p event).2 = none) :
    fails getsockopt event = false := by
  obtain ⟨_, _, _, hr, _⟩ | ⟨_, he⟩ := handleEvent_cases getsockopt p event
  · exact reportError_ok hr
  · rw [he] at h
    cases h

theorem handleEvent_fails {event : Pollfd} {errno : Errno}
    (h : (handleEvent getsockopt p event).2 = some (.threw errno)) :
    fails getsockopt event = true := by
  unfold handleEvent at h
  simp only [prepareHandles_eq] at h
  split at h
  · cases h
  · next demux _ =>
    cases hr : reportError (getsockopt event.fd) event.revents demux p.handles with
    | ok handles => simp only [hr] at h; cases h
    | error exit =>
      simp only [hr] at h
      cases h
      exact reportError_threw hr

/-- What every round preserves is preserved by the pass, whether or not it ends early. -/
theorem handleEvents_invariant (I : Pass → Prop)
    (hround : ∀ p, ∀ event ∈ events, I p → I (handleEvent getsockopt p event).1) (hp : I p) :
    I (handleEvents getsockopt p events).1 := by
  induction events generalizing p with
  | nil => exact hp
  | cons event events ih =>
    have hr := hround p event (by simp) hp
    unfold handleEvents
    split
    · next p' he =>
      rw [he] at hr
      exact ih (fun p e he => hround p e (by simp [he])) hr
    · next p' exit he =>
      rw [he] at hr
      exact hr

theorem handleEvents_cons_none {event : Pollfd} :
    (handleEvents getsockopt p (event :: events)).2 = none ↔
      (handleEvent getsockopt p event).2 = none ∧
        (handleEvents getsockopt (handleEvent getsockopt p event).1 events).2 = none := by
  rw [handleEvents]
  split
  · next he => simp [he]
  · next he => simp [he]

theorem handleEvents_cons_of_none {event : Pollfd} (h : (handleEvent getsockopt p event).2 = none) :
    handleEvents getsockopt p (event :: events) =
      handleEvents getsockopt (handleEvent getsockopt p event).1 events := by
  rw [handleEvents]
  split
  · next he => rw [he]
  · next he => rw [he] at h; cases h

theorem handleEvents_cons_of_some {event : Pollfd} {exit : Exit}
    (h : (handleEvent getsockopt p event).2 = some exit) :
    handleEvents getsockopt p (event :: events) = handleEvent getsockopt p event := by
  rw [handleEvents]
  split
  · next he => rw [he] at h; cases h
  · next he => rw [he]

/-- The rounds of a pass: each event it comes to, with the state it finds. -/
def rounds (getsockopt : Fd → Except Errno Int) : Pass → List Pollfd → List (Pass × Pollfd)
  | _, [] => []
  | p, event :: events => (p, event) :: match handleEvent getsockopt p event with
    | (q, none) => rounds getsockopt q events
    | (_, some _) => []

theorem mem_rounds_cons {r : Pass × Pollfd} {event : Pollfd} :
    r ∈ rounds getsockopt p (event :: events) ↔
    r = (p, event) ∨ (handleEvent getsockopt p event).2 = none ∧
      r ∈ rounds getsockopt (handleEvent getsockopt p event).1 events := by
  rw [rounds, List.mem_cons]
  split
  · next he => simp [he]
  · next he => simp [he]

theorem rounds_invariant (I : Pass → Prop)
    (hround : ∀ p, ∀ event ∈ events, I p → I (handleEvent getsockopt p event).1) (hp : I p)
    {r : Pass × Pollfd} (hr : r ∈ rounds getsockopt p events) : r.2 ∈ events ∧ I r.1 := by
  induction events generalizing p with
  | nil => cases hr
  | cons event events ih =>
    obtain rfl | ⟨-, hr⟩ := mem_rounds_cons.mp hr
    · exact ⟨by simp, hp⟩
    · obtain ⟨hm, hi⟩ :=
        ih (fun p e he => hround p e (by simp [he])) (hround p event (by simp) hp) hr
      exact ⟨by simp [hm], hi⟩

theorem exists_round {exit : Exit} (h : (handleEvents getsockopt p events).2 = some exit) :
    ∃ r ∈ rounds getsockopt p events, (handleEvent getsockopt r.1 r.2).2 = some exit := by
  induction events generalizing p with
  | nil => cases h
  | cons event events ih =>
    cases hx : (handleEvent getsockopt p event).2 with
    | none =>
      rw [handleEvents_cons_of_none hx] at h
      obtain ⟨r, hr, he⟩ := ih h
      exact ⟨r, mem_rounds_cons.mpr (.inr ⟨hx, hr⟩), he⟩
    | some exit' =>
      rw [handleEvents_cons_of_some hx, hx] at h
      exact ⟨(p, event), mem_rounds_cons.mpr (.inl rfl), h ▸ hx⟩

theorem handleEvent_begun (event : Pollfd) :
    (handleEvent getsockopt p event).1.begun = p.begun ++ [event] := by
  rcases handleEvent_cases getsockopt p event with ⟨_, _, _, _, he⟩ | ⟨_, he⟩ <;> rw [he]

theorem handleEvents_begun (getsockopt : Fd → Except Errno Int) (p : Pass) (events : List Pollfd) :
    ∃ done, done <+: events ∧
    (handleEvents getsockopt p events).1.begun = p.begun ++ done ∧
    ((handleEvents getsockopt p events).2 = none → done = events) := by
  induction events generalizing p with
  | nil => exact ⟨[], List.prefix_rfl, by simp [handleEvents], fun _ => rfl⟩
  | cons event events ih =>
    have hb : (handleEvent getsockopt p event).1.begun = p.begun ++ [event] :=
      handleEvent_begun event
    cases hx : (handleEvent getsockopt p event).2 with
    | none =>
      obtain ⟨done, hpre, hd, hall⟩ := ih (handleEvent getsockopt p event).1
      rw [handleEvents_cons_of_none hx]
      refine ⟨event :: done, List.cons_prefix_cons.mpr ⟨rfl, hpre⟩, ?_, fun h => by rw [hall h]⟩
      rw [hd, hb, List.append_assoc, List.singleton_append]
    | some exit =>
      rw [handleEvents_cons_of_some hx]
      exact ⟨[event], by simp, hb, fun h => by rw [hx] at h; cases h⟩

def cleared (events : List Pollfd) (fd : Fd) (d : Direction) : Bool :=
  events.any (fun event => event.fd == fd && clears event.revents d)

def emptied (events : List Pollfd) (fd : Fd) (d : Direction) : Bool :=
  events.any (fun event => event.fd == fd && drains event.revents d)

theorem emptied_of_cleared {events : List Pollfd} {fd : Fd} {d : Direction}
    (h : cleared events fd d = true) : emptied events fd d = true := by
  simp only [cleared, emptied, List.any_eq_true, Bool.and_eq_true] at h ⊢
  obtain ⟨event, hm, hf, hc⟩ := h
  exact ⟨event, hm, hf, drains_of_clears hc⟩

theorem emptied_cons (event : Pollfd) (events : List Pollfd) (fd : Fd) (d : Direction) :
    emptied (event :: events) fd d = (emptied [event] fd d || emptied events fd d) := by
  simp [emptied]

theorem handleEvent_list (event : Pollfd) :
    (handleEvent getsockopt p event).1.mux.list = p.mux.list.clear event := by
  rcases handleEvent_cases getsockopt p event with ⟨_, _, _, _, he⟩ | ⟨_, he⟩ <;> rw [he]

theorem handleEvent_interest (event : Pollfd) (fd : Fd) (d : Direction) :
    test ((handleEvent getsockopt p event).1.mux.list.events fd) d.mask =
      (test (p.mux.list.events fd) d.mask && !cleared [event] fd d) := by
  rw [handleEvent_list, Interest.events_clear]
  by_cases h : fd = event.fd
  · subst h; simp [cleared, test_remaining]
  · simp [cleared, h, Ne.symm h]

/-- The interest left by a pass is what no event begun has taken away. -/
theorem handleEvents_interest (getsockopt : Fd → Except Errno Int) (p : Pass)
    (events : List Pollfd) : ∃ done, done <+: events ∧
    (handleEvents getsockopt p events).1.begun = p.begun ++ done ∧
    ((handleEvents getsockopt p events).2 = none → done = events) ∧
    ∀ fd d, test ((handleEvents getsockopt p events).1.mux.list.events fd) d.mask =
      (test (p.mux.list.events fd) d.mask && !cleared done fd d) := by
  obtain ⟨done, hpre, hd, hall⟩ := handleEvents_begun getsockopt p events
  refine ⟨done, hpre, hd, hall, ?_⟩
  have hi : ∃ done', (handleEvents getsockopt p events).1.begun = p.begun ++ done' ∧
      ∀ fd d, test ((handleEvents getsockopt p events).1.mux.list.events fd) d.mask =
        (test (p.mux.list.events fd) d.mask && !cleared done' fd d) := by
    refine handleEvents_invariant (fun q => ∃ done', q.begun = p.begun ++ done' ∧
      ∀ fd d, test (q.mux.list.events fd) d.mask =
        (test (p.mux.list.events fd) d.mask && !cleared done' fd d)) ?_ ⟨[], by simp [cleared]⟩
    rintro q event - ⟨done', hq, ht⟩
    refine ⟨done' ++ [event], ?_, ?_⟩
    · rw [handleEvent_begun, hq, List.append_assoc]
    · intro fd d
      rw [handleEvent_interest, ht]
      simp [cleared, List.any_append, Bool.and_assoc]
  obtain ⟨done', hq, ht⟩ := hi
  have he : done = done' := List.append_cancel_left (hd.symm.trans hq)
  rw [he]
  exact ht

theorem awaits_handleEvents (getsockopt : Fd → Except Errno Int) (p : Pass) (events : List Pollfd) :
    ∃ done, (handleEvents getsockopt p events).1.begun = p.begun ++ done ∧
      ((handleEvents getsockopt p events).2 = none → done = events) ∧
      ∀ fd d, (handleEvents getsockopt p events).1.mux.list.Awaits fd d ↔
        p.mux.list.Awaits fd d ∧ cleared done fd d = false := by
  obtain ⟨done, -, hb, hall, hi⟩ :=
    handleEvents_interest getsockopt p events
  refine ⟨done, hb, hall, fun fd d => ?_⟩
  rw [Interest.awaits_iff, hi fd d, Interest.awaits_iff]
  simp

theorem passed_awaits (hx : (handleEvents getsockopt p events).2 = none) (fd : Fd) (d : Direction) :
    (handleEvents getsockopt p events).1.mux.list.Awaits fd d ↔
      p.mux.list.Awaits fd d ∧ cleared events fd d = false := by
  obtain ⟨done, -, hall, hi⟩ := awaits_handleEvents getsockopt p events
  rw [hi, hall hx]

theorem handleEvent_queue {event : Pollfd} (h : (handleEvent getsockopt p event).2 = none) (fd : Fd)
    (d : Direction) : (handleEvent getsockopt p event).1.mux.queue fd d =
      if emptied [event] fd d then [] else p.mux.queue fd d := by
  obtain ⟨demux, _, hd, _, he⟩ | ⟨_, he⟩ := handleEvent_cases getsockopt p event
  · rw [he, queue_set hd, drained_queue]
    by_cases hf : fd = event.fd
    · subst hf; simp [emptied, queue_of_getElem? hd]
    · simp [emptied, hf, Ne.symm hf]
  · rw [he] at h; cases h

theorem handleEvents_queue (h : (handleEvents getsockopt p events).2 = none) (fd : Fd)
    (d : Direction) :
    (handleEvents getsockopt p events).1.mux.queue fd d =
      if emptied events fd d then [] else p.mux.queue fd d := by
  induction events generalizing p with
  | nil => simp [handleEvents, emptied]
  | cons event events ih =>
    obtain ⟨he, hs⟩ := handleEvents_cons_none.mp h
    rw [handleEvents_cons_of_none he, ih hs, handleEvent_queue he, emptied_cons event events]
    cases emptied events fd d <;> cases emptied [event] fd d <;> rfl

/-- What a pass leaves alone: the deque's size and socket pointers, and the
descriptors of the handles. -/
structure Frame (p q : Pass) : Prop where
  length : q.mux.demux.length = p.mux.demux.length
  socket : ∀ fd, q.mux.socket fd = p.mux.socket fd
  handles : q.handles.length = p.handles.length
  descriptor : ∀ h, descriptor q.handles h = descriptor p.handles h
  entries : ∀ e ∈ q.mux.list.entries, ∃ e' ∈ p.mux.list.entries, e.fd = e'.fd

theorem Frame.refl (p : Pass) : Frame p p :=
  ⟨rfl, fun _ => rfl, rfl, fun _ => rfl, fun e he => ⟨e, he, rfl⟩⟩

theorem Frame.trans {p q r : Pass} (h : Frame p q) (h' : Frame q r) : Frame p r where
  length := h'.length.trans h.length
  socket := fun fd => (h'.socket fd).trans (h.socket fd)
  handles := h'.handles.trans h.handles
  descriptor := fun i => (h'.descriptor i).trans (h.descriptor i)
  entries := fun e he => by
    obtain ⟨e', he', hf⟩ := h'.entries e he
    obtain ⟨e'', he'', hf'⟩ := h.entries e' he'
    exact ⟨e'', he'', hf.trans hf'⟩

theorem handleEvent_frame (event : Pollfd) : Frame p (handleEvent getsockopt p event).1 := by
  obtain ⟨demux, handles, hd, hr, he⟩ | ⟨_, he⟩ := handleEvent_cases getsockopt p event
  · rw [he]
    refine ⟨by simp, fun fd => ?_, ?_, fun h => ?_, fun e => p.mux.list.mem_clear event⟩
    · rw [socket_set hd]
      split
      · next hf => subst hf; simp [Multiplexer.socket, hd, drained]
      · rfl
    · rcases reportError_handles hr with rfl | ⟨_, _, rfl⟩ <;> simp
    · rcases reportError_handles hr with rfl | ⟨_, _, rfl⟩ <;> simp
  · rw [he]
    exact ⟨rfl, fun _ => rfl, rfl, fun _ => rfl, fun e => p.mux.list.mem_clear event⟩

theorem handleEvents_frame : Frame p (handleEvents getsockopt p events).1 :=
  handleEvents_invariant (Frame p) (fun _ event _ h => h.trans (handleEvent_frame event)) (.refl p)

theorem handleEvents_count (getsockopt : Fd → Except Errno Int) (p : Pass) (events : List Pollfd)
    (o : TaskId) :
    pending (handleEvents getsockopt p events).1.mux.demux o +
      (handleEvents getsockopt p events).1.ready.count o =
    pending p.mux.demux o + p.ready.count o := by
  refine handleEvents_invariant
    (fun q => pending q.mux.demux o + q.ready.count o = pending p.mux.demux o + p.ready.count o)
    ?_ rfl
  intro q event _ hq
  obtain ⟨demux, _, hd, _, he⟩ | ⟨_, he⟩ := handleEvent_cases getsockopt q event
  · rw [he]
    have hs := pending_set hd (drained event.revents demux) o
    have hm : (moved event.revents demux).count o +
        ((drained event.revents demux).readQueue.count o +
          (drained event.revents demux).writeQueue.count o) =
        demux.readQueue.count o + demux.writeQueue.count o := by
      cases hw : drains event.revents .write <;> cases hr : drains event.revents .read <;>
        simp [moved, drained, hw, hr, Nat.add_comm]
    simp only [List.count_append]
    omega
  · rw [he]
    exact hq

theorem mem_moved {revents : Short} {demux : Demultiplexer} {o : TaskId}
    (h : o ∈ moved revents demux) :
    ∃ d, o ∈ demux.queue d := by
  obtain h | h := List.mem_append.mp h
  · exact ⟨.write, (List.mem_ite_nil_right.mp h).2⟩
  · exact ⟨.read, (List.mem_ite_nil_right.mp h).2⟩

theorem handleEvents_mem :
    ((∀ fd d, ∀ o ∈ (handleEvents getsockopt p events).1.mux.queue fd d, o ∈ p.mux.queue fd d) ∧
    ∀ o ∈ (handleEvents getsockopt p events).1.ready, o ∈ p.ready ∨
      ∃ fd d, o ∈ p.mux.queue fd d) := by
  refine handleEvents_invariant (fun q => (∀ fd d, ∀ o ∈ q.mux.queue fd d, o ∈ p.mux.queue fd d) ∧
    ∀ o ∈ q.ready, o ∈ p.ready ∨ ∃ fd d, o ∈ p.mux.queue fd d) ?_
    ⟨fun _ _ _ h => h, fun _ h => .inl h⟩
  rintro q event - ⟨hq, hr⟩
  obtain ⟨demux, _, hd, _, he⟩ | ⟨_, he⟩ := handleEvent_cases getsockopt q event
  · rw [he]
    refine ⟨fun fd d o ho => ?_, fun o ho => ?_⟩
    · rw [queue_set hd, drained_queue] at ho
      split at ho
      · next hf =>
        subst hf
        apply hq
        rw [queue_of_getElem? hd]
        split at ho
        · cases ho
        · exact ho
      · exact hq fd d o ho
    · obtain ho | ho := List.mem_append.mp ho
      · exact hr o ho
      · obtain ⟨d, ho⟩ := mem_moved ho
        exact .inr ⟨event.fd, d, hq event.fd d o (by rw [queue_of_getElem? hd]; exact ho)⟩
  · rw [he]
    exact ⟨hq, hr⟩

theorem handleEvents_mem_queue {fd : Fd} {d : Direction} {o : TaskId}
    (h : o ∈ (handleEvents getsockopt p events).1.mux.queue fd d) : o ∈ p.mux.queue fd d :=
  handleEvents_mem.1 fd d o h

def Placed (own : TaskId → Fd → Direction → Prop) (mux : Multiplexer) : Prop :=
  ∀ fd d, ∀ o ∈ mux.queue fd d, ∀ fd' d', own o fd' d' ↔ fd' = fd ∧ d' = d

theorem handleEvent_placed {own : TaskId → Fd → Direction → Prop} (event : Pollfd)
    (h : Placed own p.mux) : Placed own (handleEvent getsockopt p event).1.mux := by
  intro fd d o ho
  apply h fd d o
  obtain ⟨demux, _, hd, _, he⟩ | ⟨_, he⟩ := handleEvent_cases getsockopt p event
  · rw [he, queue_set hd, drained_queue] at ho
    split at ho
    · next hf =>
      subst hf
      rw [queue_of_getElem? hd]
      split at ho
      · cases ho
      · exact ho
    · exact ho
  · rw [he] at ho
    exact ho

theorem filter_queue {own : TaskId → Fd → Direction → Prop} [∀ o fd d, Decidable (own o fd d)]
    {mux : Multiplexer} (h : Placed own mux) (fd fd' : Fd) (d d' : Direction) :
    (mux.queue fd' d').filter (fun o => own o fd d) =
      if fd = fd' ∧ d = d' then mux.queue fd' d' else [] := by
  split
  · next he =>
    rw [List.filter_eq_self]
    intro o ho
    simpa using (h fd' d' o ho fd d).mpr he
  · next he =>
    rw [List.filter_eq_nil_iff]
    intro o ho hown
    exact he ((h fd' d' o ho fd d).mp (by simpa using hown))

theorem handleEvents_order (getsockopt : Fd → Except Errno Int) (events : List Pollfd)
    {own : TaskId → Fd → Direction → Prop} [∀ o fd d, Decidable (own o fd d)] (h : Placed own p.mux)
    (fd : Fd) (d : Direction) :
    (handleEvents getsockopt p events).1.ready.filter (fun o => own o fd d) ++
      (handleEvents getsockopt p events).1.mux.queue fd d =
    p.ready.filter (fun o => own o fd d) ++ p.mux.queue fd d := by
  refine (handleEvents_invariant (fun q => Placed own q.mux ∧
    q.ready.filter (fun o => own o fd d) ++ q.mux.queue fd d =
      p.ready.filter (fun o => own o fd d) ++ p.mux.queue fd d) ?_ ⟨h, rfl⟩).2
  rintro q event - ⟨hq, ho⟩
  refine ⟨handleEvent_placed event hq, ?_⟩
  obtain ⟨demux, _, hd, _, he⟩ | ⟨_, he⟩ := handleEvent_cases getsockopt q event
  · rw [he, queue_set hd, drained_queue, ← ho, List.filter_append, List.append_assoc]
    congr 1
    have hw := filter_queue hq fd event.fd d .write
    have hr := filter_queue hq fd event.fd d .read
    rw [queue_of_getElem? hd] at hw hr
    by_cases hf : fd = event.fd
    · subst hf
      rw [queue_of_getElem? hd]
      simp only [Demultiplexer.queue, true_and] at hw hr
      cases d <;> cases hdw : drains event.revents .write <;>
        cases hdr : drains event.revents .read <;>
        simp [moved, hdw, hdr, hw, hr, Demultiplexer.queue]
    · simp only [Demultiplexer.queue, hf, false_and, ↓reduceIte] at hw hr
      cases hdw : drains event.revents .write <;> cases hdr : drains event.revents .read <;>
        simp [moved, hdw, hdr, hw, hr, hf]
  · rw [he]
    exact ho

end AsyncBerkeley.Passes
