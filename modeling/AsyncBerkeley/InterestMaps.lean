import AsyncBerkeley.Lifetimes
import AsyncBerkeley.Polls

namespace AsyncBerkeley.InterestMaps

open Events InterestList SocketHandles PollMultiplexer Operations Executor Passes Polls
open Steps Evolution Lifetimes SortedTable

def Requests (mask : Short) : Prop := mask &&& ~~~(POLLIN ||| POLLOUT) = 0#16

def Indexed (mux : Multiplexer) : Prop :=
  ∀ fd mask, mux.list.mask fd = some mask → Requests mask ∧ 0 ≤ fd.toInt ∧
    toSize fd < mux.demux.length

def Covers (mux : Multiplexer) (events : List Pollfd) : Prop :=
  ∀ event ∈ events, ∃ mask, mux.list.mask event.fd = some mask

structure Finds (mux : Multiplexer) (event : Pollfd) : Prop where
  entry : ∃ e, mux.list.entries[lowerBound Pollfd.key mux.list.entries event.key]? = some e ∧
    e.fd = event.fd
  nonneg : 0 ≤ event.fd.toInt
  lt : event.fd.toInt < mux.demux.length

/-- What a round does to the map: it changes the mask of its descriptor only. -/
structure Dispatches (getsockopt : Fd → Except Errno Int) (p : Pass) (event : Pollfd) : Prop where
  finds : Finds p.mux event
  range : (handleEvent getsockopt p event).2 ≠ some .outOfRange
  mask : ∀ fd, (handleEvent getsockopt p event).1.mux.list.mask fd =
    if fd = event.fd then (p.mux.list.mask fd).map (fun mask =>
      if test event.revents (POLLERR ||| POLLNVAL) then 0#16 else mask &&& ~~~event.revents)
    else p.mux.list.mask fd

def after (mask : Fd → Option Short) (event : Pollfd) (fd : Fd) : Option Short :=
  if fd = event.fd then (mask fd).map (fun mask =>
    if test event.revents (POLLERR ||| POLLNVAL) then 0#16 else mask &&& ~~~event.revents)
  else mask fd

/-- The events that a pass comes to: all of them, up to one that makes it throw. -/
def reached (getsockopt : Fd → Except Errno Int) : List Pollfd → List Pollfd
  | [] => []
  | event :: events =>
    if fails getsockopt event then [event] else event :: reached getsockopt events

/-- What the locked pass of a call does to the map, one event after the other. -/
structure Clears (s s' : State) (getsockopt : Fd → Except Errno Int) (wait : Wait) : Prop where
  history : s'.history = s.history ++ (reached getsockopt wait.list).map .processed
  mask : ∀ fd, s'.mux.list.mask fd = (reached getsockopt wait.list).foldl after s.mux.list.mask fd

/-- What `connect` does to the map for an operation that awaits the events of a
direction. It throws on an invalid socket. -/
structure Connects (s s' : State) (o : TaskId) (op : Operation) (d : Direction) : Prop where
  range : descriptor s.handles op.socket = INVALID_SOCKET ∨ valid (descriptor s.handles op.socket)
  failed : hard (errorOf s.handles op.socket) = true → s'.mux = s.mux
  registered : hard (errorOf s.handles op.socket) = false →
    0 ≤ (descriptor s.handles op.socket).toInt → s'.ops[o]? = some { op with
      status := .connected, demux := some (toSize (descriptor s.handles op.socket)) } ∧
    ∀ fd, s'.mux.list.mask fd = if fd = descriptor s.handles op.socket
      then some ((s.mux.list.mask fd).getD 0#16 ||| d.mask) else s.mux.list.mask fd
  threw : hard (errorOf s.handles op.socket) = false →
    descriptor s.handles op.socket = INVALID_SOCKET →
    s'.ops[o]? = some { op with status := .abandoned } ∧ s'.mux = s.mux

theorem requests_mask (d : Direction) : Requests d.mask := by
  cases d <;> rfl

theorem requests_or {a b : Short} (ha : Requests a) (hb : Requests b) : Requests (a ||| b) := by
  unfold Requests at ha hb ⊢
  rw [BitVec.and_or_distrib_right, ha, hb]
  rfl

theorem remaining_eq (mask revents : Short) : remaining mask revents =
    if test revents (POLLERR ||| POLLNVAL) then 0#16 else mask &&& ~~~revents := by
  unfold remaining
  split
  · exact BitVec.zero_and
  · rfl

theorem requests_remaining {mask : Short} (h : Requests mask) (revents : Short) :
    Requests (remaining mask revents) := by
  unfold Requests at h ⊢
  rw [remaining_eq]
  split
  · exact BitVec.zero_and
  · rw [BitVec.and_assoc, BitVec.and_comm (~~~revents), ← BitVec.and_assoc, h]
    exact BitVec.zero_and

theorem toInt_of_nonneg {fd : Fd} (h : 0 ≤ fd.toInt) :
    fd.toNat < 2 ^ 31 ∧ fd.toInt = toSize fd := by
  have hi := BitVec.toInt_eq_toNat_cond fd
  have hlt := fd.isLt
  have hn : fd.toNat < 2 ^ 31 := by split at hi <;> omega
  refine ⟨hn, ?_⟩
  rw [toSize_of_lt hn]
  split at hi <;> omega

theorem lt_makeRoom (demux : List Demultiplexer) {fd : Fd} (h : valid fd) :
    toSize fd < (makeRoom demux fd).length := by
  have hn := toNat_of_valid h
  have hs := toSize_of_lt (n := fd) (by omega)
  have hadd : (fd + 1#32).toNat = fd.toNat + 1 := by
    simp only [BitVec.toNat_add, BitVec.toNat_ofNat]
    omega
  have hs' := toSize_of_lt (n := fd + 1#32) (by omega)
  have hsum : (fd.signExtend 64 + 1#64).toNat = fd.toNat + 1 := by
    have he : (fd.signExtend 64).toNat = fd.toNat := hs
    simp only [BitVec.toNat_add, he, BitVec.toNat_ofNat]
    omega
  unfold makeRoom
  rw [hsum, hs', hs, hadd]
  split
  · simp only [resize, List.length_append, List.length_take, List.length_replicate]
    omega
  · omega

theorem makeRoom_invalid (demux : List Demultiplexer) : makeRoom demux INVALID_SOCKET = demux :=
  if_neg (Nat.not_lt_zero demux.length)

variable {getsockopt : Fd → Except Errno Int} {p : Pass} {event : Pollfd} {events : List Pollfd}

theorem handleEvent_mask (fd : Fd) : (handleEvent getsockopt p event).1.mux.list.mask fd =
    if fd = event.fd then (p.mux.list.mask fd).map (fun mask => remaining mask event.revents)
    else p.mux.list.mask fd := by
  rw [handleEvent_list, Interest.mask_clear]

theorem handleEvent_after : (handleEvent getsockopt p event).1.mux.list.mask =
    after p.mux.list.mask event := by
  funext fd
  simp only [handleEvent_mask, after, remaining_eq]

theorem handleEvents_reached
    (hn : ∀ exit, (handleEvents getsockopt p events).2 = some exit → ∃ errno, exit = .threw errno) :
    (handleEvents getsockopt p events).1.begun = p.begun ++ reached getsockopt events ∧
    (handleEvents getsockopt p events).1.mux.list.mask =
      (reached getsockopt events).foldl after p.mux.list.mask := by
  induction events generalizing p with
  | nil => exact ⟨(List.append_nil _).symm, rfl⟩
  | cons event events ih =>
    cases hr : (handleEvent getsockopt p event).2 with
    | none =>
      rw [handleEvents_cons_of_none hr] at hn ⊢
      obtain ⟨hbegun, hmask⟩ := ih hn
      rw [hbegun, hmask, handleEvent_begun, handleEvent_after, reached, handleEvent_not_fails hr]
      exact ⟨List.append_assoc _ _ _, rfl⟩
    | some exit =>
      rw [handleEvents_cons_of_some hr] at hn ⊢
      obtain ⟨errno, rfl⟩ := hn exit hr
      rw [handleEvent_begun, handleEvent_after, reached, handleEvent_fails hr]
      exact ⟨rfl, rfl⟩

theorem handleEvent_isSome (fd : Fd) :
    ((handleEvent getsockopt p event).1.mux.list.mask fd).isSome = (p.mux.list.mask fd).isSome := by
  rw [handleEvent_mask]
  split
  · exact Option.isSome_map
  · rfl

theorem handleEvent_indexed (h : Indexed p.mux) :
    Indexed (handleEvent getsockopt p event).1.mux := by
  intro fd mask hm
  rw [(handleEvent_frame event).length]
  rw [handleEvent_mask] at hm
  split at hm
  · obtain ⟨old, hold, rfl⟩ := Option.map_eq_some_iff.mp hm
    obtain ⟨hr, hi⟩ := h fd old hold
    exact ⟨requests_remaining hr event.revents, hi⟩
  · exact h fd mask hm

theorem covers_iff {mux : Multiplexer} :
    Covers mux events ↔ ∀ event ∈ events, (mux.list.mask event.fd).isSome = true := by
  simp only [Covers, Option.isSome_iff_exists]

theorem Covers.mono {mux mux' : Multiplexer} (h : Covers mux events)
    (hle : ∀ fd, (mux.list.mask fd).isSome = true → (mux'.list.mask fd).isSome = true) :
    Covers mux' events := by
  rw [covers_iff] at h ⊢
  exact fun event hm => hle event.fd (h event hm)

theorem finds_of_indexed {mux : Multiplexer} (hi : Indexed mux) (hc : Covers mux events)
    (hm : event ∈ events) :
    Finds mux event := by
  obtain ⟨mask, hmask⟩ := hc event hm
  obtain ⟨-, hn, hlt⟩ := hi event.fd mask hmask
  obtain ⟨e, he, hfd, -⟩ := mux.list.entry_of_mask event.fd hmask
  refine ⟨⟨e, he, hfd⟩, hn, ?_⟩
  rw [(toInt_of_nonneg hn).2]
  exact_mod_cast hlt

theorem dispatches (hi : Indexed p.mux) (hc : Covers p.mux events) (hm : event ∈ events) :
    Dispatches getsockopt p event where
  finds := finds_of_indexed hi hc hm
  range := by
    intro h
    obtain ⟨mask, hmask⟩ := hc event hm
    exact absurd (hi event.fd mask hmask).2.2 (Nat.not_lt.mpr (handleEvent_outOfRange h))
  mask := fun fd => by simp only [handleEvent_mask, remaining_eq]

theorem rounds_dispatch (hi : Indexed p.mux) (hc : Covers p.mux events) {r : Pass × Pollfd}
    (hr : r ∈ rounds getsockopt p events) : Dispatches getsockopt r.1 r.2 := by
  obtain ⟨hm, hi', hc'⟩ := rounds_invariant (fun q => Indexed q.mux ∧ Covers q.mux events)
    (fun q event _ h =>
      ⟨handleEvent_indexed h.1, h.2.mono fun fd hs => (handleEvent_isSome fd).trans hs⟩)
    ⟨hi, hc⟩ hr
  exact dispatches hi' hc' hm

theorem handleEvents_indexed (h : Indexed p.mux) :
    Indexed (handleEvents getsockopt p events).1.mux :=
  handleEvents_invariant (fun q => Indexed q.mux) (fun _ _ _ hq => handleEvent_indexed hq) h

theorem handleEvents_isSome (fd : Fd) :
    ((handleEvents getsockopt p events).1.mux.list.mask fd).isSome = (p.mux.list.mask fd).isSome :=
  handleEvents_invariant (fun q => (q.mux.list.mask fd).isSome = (p.mux.list.mask fd).isSome)
    (fun _ _ _ hq => (handleEvent_isSome fd).trans hq) rfl

variable {s s' : State} {a : Action}

theorem indexed_grow {mux : Multiplexer} (h : Indexed mux) {demux : List Demultiplexer}
    (hl : mux.demux.length ≤ demux.length) : Indexed ⟨demux, mux.list⟩ := by
  intro fd mask hm
  obtain ⟨hr, hn, hlt⟩ := h fd mask hm
  exact ⟨hr, hn, Nat.lt_of_lt_of_le hlt hl⟩

theorem indexed_register {mux : Multiplexer} (h : Indexed mux) {fd : Fd} (hfd : valid fd)
    (d : Direction) :
    Indexed ⟨makeRoom mux.demux fd, mux.list.register (makePollEvent fd d.trigger)⟩ := by
  have hgrow := indexed_grow h (length_le_makeRoom fd mux.demux)
  intro fd' mask hm
  rw [Interest.mask_register, makePollEvent_events] at hm
  split at hm
  · next he =>
    subst he
    cases hm
    refine ⟨requests_or ?_ (requests_mask d), hfd.1, lt_makeRoom mux.demux hfd⟩
    cases hold : mux.list.mask fd' with
    | none => exact BitVec.zero_and
    | some old => exact (h fd' old hold).1
  · exact hgrow fd' mask hm

theorem valid_of_room (ho : Owned s) (hs : Sane s) {o : TaskId} {op : Operation}
    (hop : s.ops[o]? = some op)
    (hroom : toSize (descriptor s.handles op.socket) <
      (makeRoom s.mux.demux (descriptor s.handles op.socket)).length) :
    valid (descriptor s.handles op.socket) := by
  obtain hi | hv := ho.descriptors op.socket (hs.sockets o op hop)
  · rw [hi, makeRoom_invalid, toSize_invalid] at hroom
    have hr := ho.room
    omega
  · exact hv

theorem indexed_step (hs : Sane s) (ho : Owned s) (hi : Indexed s.mux) (h : Step s a s') :
    Indexed s'.mux := by
  cases h with
  | issue _ h => rw [h.mux]; exact hi
  | inline _ _ _ hc | execute _ _ _ hc => rw [hc.mux]; exact hi
  | @register o op d hop _ _ ht hroom =>
    rw [ht]
    exact indexed_register hi (valid_of_room ho hs hop hroom) d
  | abandon _ _ => exact indexed_grow hi (length_le_makeRoom _ _)
  | queue _ _ _ _ _ => exact indexed_grow hi (by simp)
  | passed _ _ _ | passThrew _ _ _ => exact handleEvents_indexed hi
  | idle _ _ _ | snapshot | polled _ _ _ _ | pollThrew _ _ | finish _ _ _ => exact hi

theorem isSome_step (h : Step s a s') {fd : Fd} (hs : (s.mux.list.mask fd).isSome = true) :
    (s'.mux.list.mask fd).isSome = true := by
  cases h with
  | issue _ h => rw [h.mux]; exact hs
  | inline _ _ _ hc | execute _ _ _ hc => rw [hc.mux]; exact hs
  | register _ _ _ _ _ =>
    rw [Interest.mask_register]
    split
    · rfl
    · exact hs
  | passed _ _ _ | passThrew _ _ _ => exact (handleEvents_isSome fd).trans hs
  | abandon _ _ | queue _ _ _ _ _ | idle _ _ _ | snapshot | polled _ _ _ _
  | pollThrew _ _ | finish _ _ _ =>
    exact hs

theorem covers_copyActive (mux : Multiplexer) : Covers mux (copyActive mux.list.entries) := by
  intro event hm
  exact ⟨event.events, mux.list.mask_of_mem (List.mem_filter.mp hm).1⟩

theorem covers_poll {mux : Multiplexer} {list : List Pollfd} {duration start : Int}
    {answers : List PollAnswer} (hc : Covers mux list)
    (ha : ∀ answer ∈ answers, answer.allowed list duration = true)
    (h : poll_ list duration start answers = some (.ok events)) : Covers mux events := by
  intro event hm
  obtain ⟨e, he, hfd, -⟩ := mem_poll ha h hm
  rw [hfd]
  exact hc e he

theorem covers_advance {mux : Multiplexer} {wait wait' : Wait} (h : Advance wait wait')
    (hc : Covers mux wait.list) :
    Covers mux wait'.list := by
  cases h with
  | polled _ ha hr => exact covers_poll hc ha hr
  | threw _ | passed _ | popped _ | returned _ _ => exact hc

theorem covers_step (h : Step s a s') (hs : ∀ wait ∈ s.waits, Covers s.mux wait.list) :
    ∀ wait ∈ s'.waits, Covers s'.mux wait.list := by
  intro wait hm
  have hold : Covers s.mux wait.list :=
    forall_waits_step h (fun _ => covers_copyActive s.mux)
      (fun _ _ ha hc => covers_advance ha hc) hs wait hm
  exact hold.mono fun fd => isSome_step h

theorem indexed_initial (config : Config) : Indexed (initial config).mux := by
  intro fd mask hm
  cases hm

theorem run_indexed {config : Config} {tr : List Action} (h : run config tr = .ok s) :
    Indexed s.mux ∧ ∀ wait ∈ s.waits, Covers s.mux wait.list :=
  (Runs.run_invariant (fun t => (Sane t ∧ Owned t) ∧ Indexed t.mux ∧ ∀ wait ∈ t.waits,
    Covers t.mux wait.list)
    (fun _ _ _ ht hstep =>
      ⟨⟨sane_step ht.1.1 (step_spec hstep), owned_step ht.1.1 ht.1.2 (step_spec hstep)⟩,
      indexed_step ht.1.1 ht.1.2 ht.2.1 (step_spec hstep), covers_step (step_spec hstep) ht.2.2⟩) h
    ⟨⟨sane_initial config, owned_initial config⟩, indexed_initial config,
      fun _ hm => absurd hm List.not_mem_nil⟩).2

theorem connect_connects (hs : Sane s) (ho : Owned s) {o : TaskId} {op : Operation} {d : Direction}
    (hop : s.ops[o]? = some op) (hst : op.status = .created) (ht : op.trigger = d.trigger) :
    ∃ s', step s (.connect o) = .ok s' ∧ Connects s s' o op d := by
  have hfd := ho.descriptors op.socket (hs.sockets o op hop)
  have hlt := (List.getElem?_eq_some_iff.mp hop).1
  have hne : op.trigger ≠ .EAGER := by rw [ht]; cases d <;> decide
  have hinv : ¬(0 ≤ INVALID_SOCKET.toInt) := by decide
  cases hh : hard (errorOf s.handles op.socket) with
  | true =>
    refine ⟨{ s with ops := s.ops.set o { op with status := .connected } }, ?_, hfd,
      fun _ => rfl, ?_, ?_⟩
    · simp [step, connect, hop, hst, hh]
    · exact fun hf => by rw [hh] at hf; cases hf
    · exact fun hf => by rw [hh] at hf; cases hf
  | false =>
    obtain hi | hv := hfd
    · refine ⟨{ s with ops := s.ops.set o { op with status := .abandoned } }, ?_, .inl hi,
        fun _ => rfl, ?_, ?_⟩
      · have hr := ho.room
        have hroom : ¬toSize INVALID_SOCKET < s.mux.demux.length := by rw [toSize_invalid]; omega
        simp [step, connect, hop, hst, hh, hne, hi, register, makeRoom_invalid, hroom]
      · exact fun _ hn => absurd (hi ▸ hn) hinv
      · exact fun _ _ => ⟨List.getElem?_set_self hlt, rfl⟩
    · refine ⟨{ s with
          mux := ⟨makeRoom s.mux.demux (descriptor s.handles op.socket),
            s.mux.list.register (makePollEvent (descriptor s.handles op.socket) op.trigger)⟩
          ops := s.ops.set o { op with
            demux := some (toSize (descriptor s.handles op.socket)), status := .connected }
          history := s.history ++ [.registered (descriptor s.handles op.socket) op.trigger] },
        ?_, .inr hv, ?_, ?_, ?_⟩
      · simp [step, connect, hop, hst, hh, hne, register, lt_makeRoom s.mux.demux hv]
      · exact fun hf => by rw [hh] at hf; cases hf
      · refine fun _ _ => ⟨List.getElem?_set_self hlt, fun fd => ?_⟩
        rw [Interest.mask_register, ht, makePollEvent_events]
        rfl
      · exact fun _ hi => absurd hv.1 (hi ▸ hinv)

theorem pass_clears {w : Nat} (h : step s (.pass w getsockopt) = .ok s') :
    ∃ wait, s.waits[w]? = some wait ∧ Clears s s' getsockopt wait := by
  cases pass_step h with
  | passed hw _ hx =>
    obtain ⟨hbegun, hmask⟩ := handleEvents_reached (p := { mux := s.mux, handles := s.handles })
      (fun exit he => by rw [hx] at he; cases he)
    exact ⟨_, hw, by rw [passed, hbegun]; rfl, fun fd => congrFun hmask fd⟩
  | passThrew hw _ hx =>
    obtain ⟨hbegun, hmask⟩ := handleEvents_reached (p := { mux := s.mux, handles := s.handles })
      (fun exit he => by rw [hx] at he; cases he; exact ⟨_, rfl⟩)
    exact ⟨_, hw, by rw [passed, hbegun]; rfl, fun fd => congrFun hmask fd⟩
  | issue hi _ => cases hi

/-- In every state of every run the interest list is a sorted map from
descriptors to masks, `connect` and the events that a pass processes change it
at their descriptor only, and each event of a call of `wait_for`, however old
its snapshot is, is found in the list and indexes the deque. -/
theorem interest_map (config : Config) (tr : List Action) (h : run config tr = .ok s) :
    Sorted Pollfd.key s.mux.list.entries ∧
    (∀ e ∈ s.mux.list.entries, Requests e.events) ∧
    (∀ (o : TaskId) (op : Operation) (d : Direction), s.ops[o]? = some op → op.status = .created →
      op.trigger = d.trigger → ∃ s', step s (.connect o) = .ok s' ∧ Connects s s' o op d) ∧
    (∀ wait ∈ s.waits, (∀ event ∈ wait.list, Finds s.mux event) ∧
      ∀ getsockopt, (∀ r ∈ rounds getsockopt { mux := s.mux, handles := s.handles } wait.list,
          Dispatches getsockopt r.1 r.2) ∧
        (handleEvents getsockopt { mux := s.mux, handles := s.handles } wait.list).2 ≠
          some .outOfRange) ∧
    ∀ w getsockopt s', step s (.pass w getsockopt) = .ok s' →
      ∃ wait, s.waits[w]? = some wait ∧ Clears s s' getsockopt wait := by
  obtain ⟨hi, hc⟩ := run_indexed h
  refine ⟨s.mux.list.sorted, ?_, ?_, ?_, fun w getsockopt s' hp => pass_clears hp⟩
  · intro e he
    exact (hi e.fd e.events (s.mux.list.mask_of_mem he)).1
  · intro o op d hop hst ht
    exact connect_connects (run_sane h) (run_owned h) hop hst ht
  · intro wait hm
    refine ⟨fun event he => finds_of_indexed hi (hc wait hm) he, fun getsockopt => ?_⟩
    have hround : ∀ r ∈ rounds getsockopt { mux := s.mux, handles := s.handles } wait.list,
        Dispatches getsockopt r.1 r.2 := fun r hr => rounds_dispatch hi (hc wait hm) hr
    refine ⟨hround, fun hx => ?_⟩
    obtain ⟨r, hr, he⟩ := exists_round hx
    exact (hround r hr).range he

theorem interest_map_stale : ∃ s wait s', run {} [.emplace 5#32, .set 0 .read, .connect 0, .start 0,
      .snapshot (-1), .emplace 3#32, .set 1 .write, .connect 1, .poll 0 0 [.ready [POLLIN]]] =
        .ok s ∧
    s.waits[0]? = some wait ∧
    s.mux.list.entries = [⟨3#32, POLLOUT, 0#16⟩, ⟨5#32, POLLIN, 0#16⟩] ∧
    wait.list = [⟨5#32, POLLIN, POLLIN⟩] ∧ (∀ event ∈ wait.list, Finds s.mux event) ∧
    step s (.pass 0 (fun _ => .ok 0)) = .ok s' ∧
    s'.mux.list.entries = [⟨3#32, POLLOUT, 0#16⟩, ⟨5#32, 0#16, 0#16⟩] ∧
    ∃ wait, s.waits[0]? = some wait ∧ Clears s s' (fun _ => .ok 0) wait := by
  have hs : ∃ s wait s', run {} [.emplace 5#32, .set 0 .read, .connect 0, .start 0, .snapshot (-1),
      .emplace 3#32, .set 1 .write, .connect 1, .poll 0 0 [.ready [POLLIN]]] = .ok s ∧
      s.waits[0]? = some wait ∧
      s.mux.list.entries = [⟨3#32, POLLOUT, 0#16⟩, ⟨5#32, POLLIN, 0#16⟩] ∧
      wait.list = [⟨5#32, POLLIN, POLLIN⟩] ∧ step s (.pass 0 (fun _ => .ok 0)) = .ok s' ∧
      s'.mux.list.entries = [⟨3#32, POLLOUT, 0#16⟩, ⟨5#32, 0#16, 0#16⟩] :=
    ⟨_, _, _, rfl, rfl, rfl, rfl, rfl, rfl⟩
  obtain ⟨s, wait, s', hrun, hw, he, hl, hp, he'⟩ := hs
  obtain ⟨-, -, -, hwaits, hpass⟩ := interest_map {} _ hrun
  exact ⟨s, wait, s', hrun, hw, he, hl, (hwaits wait (List.mem_of_getElem? hw)).1, hp, he',
    hpass 0 _ s' hp⟩

end AsyncBerkeley.InterestMaps
