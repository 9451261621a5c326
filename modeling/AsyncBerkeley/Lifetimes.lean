import AsyncBerkeley.Evolution

namespace AsyncBerkeley.Lifetimes

open Events InterestList SocketHandles PollMultiplexer Operations Executor Passes Steps Evolution

variable {s s' : State} {a : Action}

def valid (fd : Fd) : Prop := 0 ≤ fd.toInt ∧ fd.toInt < 2 ^ 31 - 1

theorem toNat_of_valid {fd : Fd} (h : valid fd) : fd.toNat < 2 ^ 31 - 1 := by
  have hi := BitVec.toInt_eq_toNat_cond fd
  have hlt := fd.isLt
  unfold valid at h
  split at hi <;> omega

theorem toSize_of_lt {n : BitVec 32} (h : n.toNat < 2 ^ 31) : toSize n = n.toNat := by
  have hm : n.msb = false := by
    rw [BitVec.msb_eq_decide, decide_eq_false_iff_not]
    omega
  rw [toSize, BitVec.toNat_signExtend, hm]
  simp only [BitVec.toNat_setWidth, Bool.false_eq_true, ↓reduceIte]
  omega

theorem toSize_of_valid {fd : Fd} (h : valid fd) : toSize (fd + 1#32) ≤ 2 ^ 31 := by
  have hn := toNat_of_valid h
  have hs : (fd + 1#32).toNat = fd.toNat + 1 := by
    simp only [BitVec.toNat_add, BitVec.toNat_ofNat]
    omega
  rw [toSize_of_lt (by omega)]
  omega

theorem length_makeRoom_le {demux : List Demultiplexer} {fd : Fd}
    (h : fd = INVALID_SOCKET ∨ valid fd) (hl : demux.length ≤ 2 ^ 31) :
    (makeRoom demux fd).length ≤ 2 ^ 31 := by
  obtain rfl | h := h
  · exact hl
  · have hs := toSize_of_valid h
    unfold makeRoom
    split
    · simp only [resize, List.length_append, List.length_take, List.length_replicate]
      omega
    · exact hl

theorem toSize_invalid : toSize INVALID_SOCKET = 2 ^ 64 - 1 := by decide

theorem fresh_iff {fd : Fd} : fresh s fd = true ↔ valid fd ∧
    ∀ h < s.handles.length, live s h = true → descriptor s.handles h ≠ fd := by
  simp only [fresh, valid, Bool.and_eq_true, decide_eq_true_eq, List.all_eq_true, List.mem_range,
    Bool.or_eq_true, Bool.not_eq_true', bne_iff_ne]
  refine and_congr_right fun _ => forall₂_congr fun h _ => ?_
  cases live s h <;> simp

theorem live_iff {h : HandleId} : live s h = true ↔
    h ∈ s.dialogs ∨ ∃ (o : TaskId) (op : Operation), s.ops[o]? = some op ∧ op.socket = h ∧
      op.holds = true := by
  simp only [live, Bool.or_eq_true, decide_eq_true_eq, List.any_eq_true,
    Bool.and_eq_true, beq_iff_eq]
  refine or_congr_right ⟨?_, ?_⟩
  · rintro ⟨op, hm, hop⟩
    obtain ⟨o, ho⟩ := List.mem_iff_getElem?.mp hm
    exact ⟨o, op, ho, hop⟩
  · rintro ⟨o, op, ho, hop⟩
    exact ⟨op, List.mem_of_getElem? ho, hop⟩

theorem lt_of_live (hs : Sane s) {h : HandleId} (hl : live s h = true) : h < s.handles.length := by
  obtain hd | ⟨o, op, hop, rfl, -⟩ := live_iff.mp hl
  · exact hs.dialogs h hd
  · exact hs.sockets o op hop

theorem live_step (h : Step s a s') {x : HandleId} (hx : x < s.handles.length)
    (hl : live s' x = true) : live s x = true := by
  obtain hd | ⟨o, op', hop', rfl, hh⟩ := live_iff.mp hl
  · obtain ⟨-, hold⟩ | ⟨_, _, _, _, hold⟩ := (step_grows h).dialogs
    · exact live_iff.mpr (.inl (hold x hd))
    · obtain hd | rfl := hold x hd
      · exact live_iff.mpr (.inl hd)
      · exact absurd hx (Nat.lt_irrefl _)
  · obtain ⟨op, hop, hn⟩ | ⟨-, hn⟩ := op_backward h hop'
    · exact live_iff.mpr (.inr ⟨o, op, hop, hn.socket.symm, hn.holds hh⟩)
    · exact live_iff.mpr (.inl hn.socket)

/-- Live handles own different descriptors, and each one on which an operation
was queued is the one its demultiplexer points to. -/
structure Owned (s : State) : Prop where
  descriptors : ∀ h < s.handles.length,
    descriptor s.handles h = INVALID_SOCKET ∨ valid (descriptor s.handles h)
  room : s.mux.demux.length ≤ 2 ^ 31
  distinct : ∀ h h', live s h = true → live s h' = true →
    descriptor s.handles h = descriptor s.handles h' →
    descriptor s.handles h ≠ INVALID_SOCKET → h = h'
  points : ∀ fd h, s.mux.socket fd = some h →
    ∃ (o : TaskId) (op : Operation), .queued o ∈ s.history ∧
    s.ops[o]? = some op ∧ op.socket = h ∧ descriptor s.handles h = fd
  known : ∀ o, .queued o ∈ s.history → o < s.ops.length
  pointed : ∀ (o : TaskId) (op : Operation), .queued o ∈ s.history → s.ops[o]? = some op →
    live s op.socket = true → s.mux.socket (descriptor s.handles op.socket) = some op.socket

theorem owned_initial (config : Config) : Owned (initial config) := by
  refine ⟨by simp [initial], by simp [initial], ?_, by simp [initial, Multiplexer.socket],
    by simp [initial], by simp [initial]⟩
  intro h h' hl
  simp [initial, live] at hl

theorem socket_step (hs : Sane s) (h : Step s a s') :
    ((∀ fd, s'.mux.socket fd = s.mux.socket fd) ∧ ∀ o, .queued o ∈ s'.history ↔
      .queued o ∈ s.history) ∨
    ∃ (o : TaskId) (op : Operation), s.ops[o]? = some op ∧ op.holds = true ∧
      toSize (descriptor s.handles op.socket) < s.mux.demux.length ∧
      (∀ fd, s'.mux.socket fd =
        if fd = descriptor s.handles op.socket then some op.socket else s.mux.socket fd) ∧
      s'.history = s.history ++ [.queued o] := by
  cases h with
  | issue _ h => exact .inl ⟨fun _ => by rw [h.mux], fun _ => by rw [h.history]⟩
  | inline _ _ _ hc => exact .inl ⟨fun _ => by rw [hc.mux], fun _ => by rw [hc.history]⟩
  | execute _ _ _ hc =>
    exact .inl ⟨fun _ => by rw [hc.mux]; rfl, fun o => by simp [hc.history, popped]⟩
  | register _ _ _ _ _ =>
    exact .inl ⟨fun _ => socket_makeRoom _ _ _ _, fun o => by simp⟩
  | abandon _ _ => exact .inl ⟨fun _ => socket_makeRoom _ _ _ _, fun _ => .rfl⟩
  | passed _ _ _ | passThrew _ _ _ =>
    exact .inl ⟨fun fd => handleEvents_frame.socket fd, fun o => by simp [passed]⟩
  | idle _ _ _ | snapshot | polled _ _ _ _ | pollThrew _ _ | finish _ _ _ =>
    exact .inl ⟨fun _ => rfl, fun _ => .rfl⟩
  | @queue o op d i demux hop hst ht hd hi =>
    have hp := hs.pointers o op i hop hd
    subst hp
    refine .inr ⟨o, op, hop, by simp [Operation.holds, hst],
      (List.getElem?_eq_some_iff.mp hi).1, ?_, rfl⟩
    intro fd
    rw [socket_set hi]
    rfl

theorem new_handle (h : Grows s s') {x : Nat} (hx : x < s'.handles.length)
    (hn : ¬x < s.handles.length) :
    x = s.handles.length ∧
      (descriptor s'.handles x = INVALID_SOCKET ∨ fresh s (descriptor s'.handles x) = true) := by
  obtain ⟨hlen, -⟩ | ⟨fd, hf, hlen, hd, -⟩ := h.dialogs
  · exact absurd (hlen ▸ hx) hn
  · obtain rfl : x = s.handles.length := by omega
    exact ⟨rfl, hd ▸ hf⟩

theorem descriptors_step (ho : Owned s) (h : Grows s s') : ∀ x < s'.handles.length,
    descriptor s'.handles x = INVALID_SOCKET ∨ valid (descriptor s'.handles x) := by
  intro x hx
  by_cases hlt : x < s.handles.length
  · rw [h.descriptor x hlt]
    exact ho.descriptors x hlt
  · exact (new_handle h hx hlt).2.imp_right fun hf => (fresh_iff.mp hf).1

theorem room_step (hs : Sane s) (ho : Owned s) (h : Step s a s') :
    s'.mux.demux.length ≤ 2 ^ 31 := by
  cases h with
  | issue _ h => rw [h.mux]; exact ho.room
  | inline _ _ _ hc | execute _ _ _ hc => rw [hc.mux]; exact ho.room
  | register hop _ _ _ _ | abandon hop _ =>
    exact length_makeRoom_le (ho.descriptors _ (hs.sockets _ _ hop)) ho.room
  | queue _ _ _ _ _ => simpa using ho.room
  | passed _ _ _ | passThrew _ _ _ => simpa [passed, handleEvents_frame.length] using ho.room
  | idle _ _ _ | snapshot | polled _ _ _ _ | pollThrew _ _ | finish _ _ _ => exact ho.room

theorem live_old_or_new (hs' : Sane s') (h : Step s a s') {x : HandleId} (hl : live s' x = true) :
    (x < s.handles.length ∧ live s x = true) ∨ (x = s.handles.length ∧
      (descriptor s'.handles x = INVALID_SOCKET ∨ fresh s (descriptor s'.handles x) = true)) := by
  have hx := lt_of_live hs' hl
  by_cases hlt : x < s.handles.length
  · exact .inl ⟨hlt, live_step h hlt hl⟩
  · exact .inr (new_handle (step_grows h) hx hlt)

theorem distinct_step (hs' : Sane s') (ho : Owned s) (h : Step s a s') {x y : HandleId}
    (hx : live s' x = true) (hy : live s' y = true)
    (he : descriptor s'.handles x = descriptor s'.handles y)
    (hn : descriptor s'.handles x ≠ INVALID_SOCKET) : x = y := by
  have hd := (step_grows h).descriptor
  obtain ⟨hxl, hx⟩ | ⟨rfl, hfx⟩ := live_old_or_new hs' h hx
  · obtain ⟨hyl, hy⟩ | ⟨rfl, hfy⟩ := live_old_or_new hs' h hy
    · rw [hd x hxl] at hn he
      rw [hd y hyl] at he
      exact ho.distinct x y hx hy he hn
    · have hf := fresh_iff.mp (hfy.resolve_left (he ▸ hn))
      exact absurd ((hd x hxl).symm.trans he) (hf.2 x hxl hx)
  · obtain ⟨hyl, hy⟩ | ⟨rfl, hfy⟩ := live_old_or_new hs' h hy
    · have hf := fresh_iff.mp (hfx.resolve_left hn)
      exact absurd ((hd y hyl).symm.trans he.symm) (hf.2 y hyl hy)
    · rfl

theorem points_step (hs : Sane s) (ho : Owned s) (h : Step s a s') {fd : Fd} {x : HandleId}
    (hp : s'.mux.socket fd = some x) : ∃ (o : TaskId) (op : Operation), .queued o ∈ s'.history ∧
      s'.ops[o]? = some op ∧ op.socket = x ∧ descriptor s'.handles x = fd := by
  -- the operation that wrote the pointer is still there, on the same socket
  have forward : ∀ (o : TaskId) (op : Operation), .queued o ∈ s'.history → s.ops[o]? = some op →
      op.socket = x → descriptor s.handles x = fd → ∃ (o : TaskId) (op : Operation),
        .queued o ∈ s'.history ∧ s'.ops[o]? = some op ∧ op.socket = x ∧
        descriptor s'.handles x = fd := by
    rintro o op hq hop rfl rfl
    obtain ⟨op', hop', hn⟩ := op_forward h hop
    exact ⟨o, op', hq, hop', hn.socket, step_descriptor hs h hop⟩
  obtain ⟨hsock, hq⟩ | ⟨o, op, hop, -, -, hsock, hh⟩ := socket_step hs h
  · rw [hsock] at hp
    obtain ⟨o, op, hqo, hop, hx, hfd⟩ := ho.points fd x hp
    exact forward o op ((hq o).mpr hqo) hop hx hfd
  · rw [hsock] at hp
    split at hp
    · next hfd =>
      cases hp
      exact forward o op (by simp [hh]) hop rfl hfd.symm
    · obtain ⟨o, op, hqo, hop, hx, hfd⟩ := ho.points fd x hp
      exact forward o op (by simp [hh, hqo]) hop hx hfd

theorem length_ops_step (h : Step s a s') : s.ops.length ≤ s'.ops.length := by
  by_contra hlt
  have hlast : s'.ops.length < s.ops.length := Nat.lt_of_not_le hlt
  obtain ⟨op', hop', -⟩ := op_forward h (List.getElem?_eq_getElem hlast)
  exact absurd (List.getElem?_eq_some_iff.mp hop').1 (Nat.lt_irrefl _)

theorem known_step (hs : Sane s) (ho : Owned s) (h : Step s a s') {o : TaskId}
    (hq : .queued o ∈ s'.history) : o < s.ops.length := by
  obtain ⟨-, hold⟩ | ⟨o', op, hop, -, -, -, hh⟩ := socket_step hs h
  · exact ho.known o ((hold o).mp hq)
  · simp only [hh, List.mem_append, List.mem_singleton, Event.queued.injEq] at hq
    obtain hq | rfl := hq
    · exact ho.known o hq
    · exact (List.getElem?_eq_some_iff.mp hop).1

theorem pointed_step (hs : Sane s) (ho : Owned s) (h : Step s a s') {o : TaskId} {op' : Operation}
    (hq : .queued o ∈ s'.history) (hop' : s'.ops[o]? = some op') (hl : live s' op'.socket = true) :
    s'.mux.socket (descriptor s'.handles op'.socket) = some op'.socket := by
  obtain ⟨op, hop, hn⟩ | ⟨hnone, -⟩ := op_backward h hop'
  · have hlt := hs.sockets o op hop
    rw [hn.socket] at hl ⊢
    have hlive := live_step h hlt hl
    rw [step_descriptor hs h hop]
    obtain ⟨hsock, hold⟩ | ⟨o₀, op₀, hop₀, hh₀, hroom, hsock, hh⟩ := socket_step hs h
    · rw [hsock]
      exact ho.pointed o op ((hold o).mp hq) hop hlive
    · rw [hsock]
      split
      · next he =>
        -- the operation that is being queued holds its socket, so both are live
        have hfd : descriptor s.handles op.socket ≠ INVALID_SOCKET := by
          intro hi
          have hr := ho.room
          rw [← he, hi, toSize_invalid] at hroom
          omega
        have hl₀ : live s op₀.socket = true := live_iff.mpr (.inr ⟨o₀, op₀, hop₀, rfl, hh₀⟩)
        rw [ho.distinct op.socket op₀.socket hlive hl₀ he hfd]
      · next he =>
        simp only [hh, List.mem_append, List.mem_singleton, Event.queued.injEq] at hq
        obtain hq | rfl := hq
        · exact ho.pointed o op hq hop hlive
        · rw [hop] at hop₀
          cases hop₀
          exact absurd rfl he
  · exact absurd (known_step hs ho h hq) (Nat.not_lt.mpr (List.getElem?_eq_none_iff.mp hnone))

theorem owned_step (hs : Sane s) (ho : Owned s) (h : Step s a s') : Owned s' where
  descriptors := descriptors_step ho (step_grows h)
  room := room_step hs ho h
  distinct := fun _ _ hx hy he hn => distinct_step (sane_step hs h) ho h hx hy he hn
  points := fun _ _ hp => points_step hs ho h hp
  known := fun _ hq => Nat.lt_of_lt_of_le (known_step hs ho h hq) (length_ops_step h)
  pointed := fun _ _ hq hop hl => pointed_step hs ho h hq hop hl

theorem run_owned {config : Config} {tr : List Action} (h : run config tr = .ok s) : Owned s :=
  (Runs.run_invariant (fun t => Sane t ∧ Owned t)
    (fun _ _ _ ht hstep =>
      ⟨sane_step ht.1 (step_spec hstep), owned_step ht.1 ht.2 (step_spec hstep)⟩) h
    ⟨sane_initial config, owned_initial config⟩).2

/-- At every point of a pass, the demultiplexer of a descriptor points to a live
handle exactly when some live handle owns the descriptor and has had an
operation queued on it. -/
theorem socket_live_iff (config : Config) (tr : List Action) (h : run config tr = .ok s)
    (getsockopt : Fd → Except Errno Int) (done : List Pollfd) (fd : Fd) :
    (∃ x, (handleEvents getsockopt { mux := s.mux, handles := s.handles } done).1.mux.socket fd =
      some x ∧ live s x = true) ↔
    ∃ (o : TaskId) (op : Operation), .queued o ∈ s.history ∧ s.ops[o]? = some op ∧
      descriptor s.handles op.socket = fd ∧ live s op.socket = true := by
  have ho := run_owned h
  rw [handleEvents_frame.socket]
  constructor
  · rintro ⟨x, hp, hl⟩
    obtain ⟨o, op, hq, hop, rfl, hfd⟩ := ho.points fd x hp
    exact ⟨o, op, hq, hop, hfd, hl⟩
  · rintro ⟨o, op, hq, hop, rfl, hl⟩
    exact ⟨op.socket, ho.pointed o op hq hop hl, hl⟩

/-- After a hang-up the interest stays, so that the closed descriptor of a
destroyed handle is polled and its error written through the pointer left behind. -/
theorem dangling_socket :
    ¬ ∀ (config : Config) (tr : List Action) (s : State) (w : Nat) (wait : Wait)
    (done : List Pollfd) (event : Pollfd) (rest : List Pollfd) (getsockopt : Fd → Except Errno Int),
    run config tr = .ok s → s.waits[w]? = some wait → wait.phase = .polled →
    wait.list = done ++ event :: rest → test event.revents (POLLERR ||| POLLNVAL) = true →
    ∃ x, (handleEvents getsockopt { mux := s.mux, handles := s.handles } done).1.mux.socket
      event.fd = some x ∧ live s x = true := by
  intro h
  obtain ⟨x, hp, hl⟩ :=
    h {} [.emplace 5#32, .recvmsg 0 [.failed ⟨EAGAIN, by decide⟩], .dropDialog 0,
    .connect 0, .start 0, .snapshot (-1), .poll 0 0 [.ready [POLLHUP]], .pass 0 (fun _ => .ok 0),
    .execute 0 [.transferred 0], .finish 0, .snapshot (-1), .poll 1 0 [.ready [POLLNVAL]]] _ 1 _ []
    ⟨5#32, POLLIN, POLLNVAL⟩ [] (fun _ => .ok 0) rfl rfl rfl rfl rfl
  cases hp
  cases hl

theorem socket_live_queued :
    ∃ s wait, run {} [.emplace 5#32, .set 0 .read, .dropDialog 0, .connect 0,
      .start 0, .snapshot (-1), .poll 0 0 [.ready [POLLERR]]] = .ok s ∧ s.waits[0]? = some wait ∧
    wait.list = [⟨5#32, POLLIN, POLLERR⟩] ∧ s.dialogs = [] ∧
    ∃ x, (handleEvents (fun _ => .ok 104)
      { mux := s.mux, handles := s.handles } wait.list).1.mux.socket
      5#32 = some x ∧ live s x = true :=
  ⟨_, _, rfl, rfl, rfl, rfl,
    (socket_live_iff {} [.emplace 5#32, .set 0 .read, .dropDialog 0, .connect 0,
    .start 0, .snapshot (-1), .poll 0 0 [.ready [POLLERR]]] rfl (fun _ => .ok 104) _ 5#32).mpr
      ⟨0, _, by decide, rfl, rfl, rfl⟩⟩

end AsyncBerkeley.Lifetimes
