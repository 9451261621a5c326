import AsyncBerkeley.Evolution

namespace AsyncBerkeley.WouldBlock

open ListUpdates Events SocketHandles PollMultiplexer Operations Executor Steps Evolution

/-- The functors that make the system call of `accept`, `recvmsg` or `sendmsg` when they are
invoked. -/
def calls : Completion → Bool
  | .accept _ | .recvmsg | .sendmsg => true
  | .empty | .value _ | .connect | .user => false

/-- The system call would block, after any number of interruptions. -/
def blocks (answers : List Answer) : Bool :=
  match retry answers with
  | some (.failed errno) => errno.val == EWOULDBLOCK
  | _ => false

def blocked (s : State) : Action → Option TaskId
  | .execute w answers => do
    let wait ← s.waits[w]?
    let o ← wait.ready.head?
    let op ← s.ops[o]?
    if calls op.func && !hard (errorOf s.handles op.socket) && blocks answers then some o else none
  | _ => none

variable {s s' : State} {a : Action} {o : TaskId}

theorem blocked_eq_some : blocked s a = some o ↔ ∃ w answers wait ready op, a = .execute w answers ∧
    s.waits[w]? = some wait ∧ wait.ready = o :: ready ∧ s.ops[o]? = some op ∧ calls op.func = true ∧
    hard (errorOf s.handles op.socket) = false ∧ blocks answers = true := by
  constructor
  · intro h
    cases a with
    | execute w answers =>
      simp only [blocked, Option.bind_eq_bind, Option.bind_eq_some_iff] at h
      obtain ⟨wait, hw, o', hr, op, hop, h⟩ := h
      split at h
      · next hc =>
        cases h
        simp only [Bool.and_eq_true, Bool.not_eq_true'] at hc
        obtain ⟨ready, hready⟩ := List.head?_eq_some_iff.mp hr
        exact ⟨w, answers, wait, ready, op, rfl, hw, hready, hop, hc.1.1, hc.1.2, hc.2⟩
      · cases h
    | emplace _ | copyDialog _ | dropDialog _ | accept _ _ _ | recvmsg _ _ | sendmsg _ _
    | connectDialog _ _
    | set _ _ | connect _ | start _ | snapshot _ | poll _ _ _ | pass _ _ | finish _ => cases h
  · rintro ⟨w, answers, wait, ready, op, rfl, hw, hr, hop, hf, hh, hb⟩
    simp [blocked, hw, hr, hop, hf, hh, hb]

theorem invoke_failed {t : State} {func : Completion} {answers : List Answer} {errno : Errno}
    (hu : func ≠ .user) (h : invoke s func answers = .ok (t, .error errno)) :
    calls func = true ∧ retry answers = some (.failed errno) := by
  unfold invoke at h
  split at h
  all_goals try cases h; done
  · next hr =>
    cases h
    refine ⟨?_, hr⟩
    unfold calls
    split <;> first | rfl | simp_all
  · split at h
    · cases h
    · split at h <;> cases h

theorem complete_of_blocks {op : Operation} {answers : List Answer} (hf : calls op.func = true)
    (hh : hard (errorOf s.handles op.socket) = false) (hb : blocks answers = true) :
    complete s o op answers = .ok (settle s o op (.setError EWOULDBLOCK)) := by
  unfold blocks at hb
  split at hb
  · next errno hr =>
    have hi : invoke s op.func answers = .ok (s, .error errno) := by
      unfold calls at hf
      unfold invoke
      split at hf <;> simp_all
    rw [← beq_iff_eq.mp hb]
    simp [complete, hh, hi]
  · cases hb

theorem blocks_of_complete {op : Operation} {answers : List Answer} (hu : op.func ≠ .user)
    (h : complete s o op answers = .ok s') {op' : Operation} (hop : s'.ops[o]? = some op')
    (hc : op'.status = .completed (.setError EWOULDBLOCK)) :
    calls op.func = true ∧ hard (errorOf s.handles op.socket) = false ∧ blocks answers = true := by
  obtain ⟨outcome, hops, hout⟩ := complete_outcome h
  rw [hops] at hop
  have ho : outcome = .setError EWOULDBLOCK := by
    obtain ⟨-, rfl⟩ | ⟨hne, -⟩ := getElem?_set_cases hop
    · exact Status.completed.inj hc
    · exact absurd rfl hne
  subst ho
  obtain ⟨hh, he⟩ | ⟨hh, t, r, hi, ⟨v, -, he⟩ | ⟨errno, rfl, he⟩⟩ := hout
  · rw [← Outcome.setError.inj he] at hh
    cases hh
  · cases he
  · obtain ⟨hf, hr⟩ := invoke_failed hu hi
    exact ⟨hf, hh, by simp [blocks, hr, ← Outcome.setError.inj he]⟩

def Unblamed (s : State) : Prop :=
  ∀ (o : TaskId) (op : Operation), s.ops[o]? = some op → op.func ≠ .user →
    op.status ≠ .completed (.setError EWOULDBLOCK)

theorem unblamed_step (hs : Unblamed s) (hb : blocked s a = none) (h : step s a = .ok s') :
    Unblamed s' := by
  intro o op' hop' hu hc
  obtain hop | ⟨op, t, answers, hop, hcompleting, hcomp⟩ := completed_backward h hop' hc
  · exact hs o op' hop hu hc
  · obtain ⟨op'', hop'', hn⟩ := op_forward (step_spec h) hop
    cases hop'.symm.trans hop''
    have hu' : op.func ≠ .user := fun he => hu (hn.func.trans he)
    obtain ⟨hf, hh, hblocks⟩ := blocks_of_complete hu' hcomp hop' hc
    cases hcompleting with
    | started => cases hblocks
    | executed hw hr =>
      have hsome := blocked_eq_some.mpr ⟨_, _, _, _, op, rfl, hw, hr, hop, hf, hh, hblocks⟩
      rw [hb] at hsome
      cases hsome

theorem run_unblamed {config : Config} {tr : List Action} (h : run config tr = .ok s)
    (hb : Runs.Along step (fun s a => blocked s a = none) (initial config) tr) : Unblamed s :=
  Runs.run_invariant_along Unblamed _ (fun _ _ _ hs hb hstep => unblamed_step hs hb hstep) h hb
    (by simp [Unblamed, initial])

theorem step_of_blocked (h : blocked s a = some o) :
    ∃ s' op, step s a = .ok s' ∧ s'.ops[o]? = some op ∧
    op.func ≠ .user ∧ op.status = .completed (.setError EWOULDBLOCK) := by
  obtain ⟨w, answers, wait, ready, op, rfl, hw, hr, hop, hf, hh, hb⟩ := blocked_eq_some.mp h
  have hc := complete_of_blocks (s := popped s w { wait with ready := ready } o) (o := o) hf hh hb
  refine ⟨settle (popped s w { wait with ready := ready } o) o op (.setError EWOULDBLOCK),
    { op with status := .completed (.setError EWOULDBLOCK) }, ?_, ?_, ?_, rfl⟩
  · simp only [step, execute, hw, hr, hop]
    exact hc
  · exact List.getElem?_set_self (List.getElem?_eq_some_iff.mp hop).1
  · intro hu
    rw [hu] at hf
    cases hf

/-- In a run, no receiver is completed with a would-block error and an
operation whose call would block stays queued, exactly when no task is executed
at a moment when its call would block. -/
theorem would_block_iff (config : Config) (tr : List Action) :
    ((∀ tr₁ tr₂ u, tr = tr₁ ++ tr₂ → run config tr₁ = .ok u → Unblamed u) ∧
      ∀ tr₁ a tr₂ u v o, tr = tr₁ ++ a :: tr₂ → run config tr₁ = .ok u → step u a = .ok v →
        blocked u a = some o → ∃ op, v.ops[o]? = some op ∧ op.status = .queued) ↔
    Runs.Along step (fun s a => blocked s a = none) (initial config) tr := by
  constructor
  · rintro ⟨hall, -⟩
    rw [Runs.along_iff]
    rintro tr₁ a tr₂ u rfl hu
    by_contra hb
    obtain ⟨o, ho⟩ := Option.ne_none_iff_exists'.mp hb
    obtain ⟨v, op, hv, hop, hf, hc⟩ := step_of_blocked ho
    exact hall (tr₁ ++ [a]) tr₂ v (by simp) (Runs.run_snoc_ok.mpr ⟨u, hu, hv⟩) o op hop hf hc
  · intro hb
    refine ⟨?_, ?_⟩
    · rintro tr₁ tr₂ u rfl hu
      exact run_unblamed hu hb.append
    · rintro tr₁ a tr₂ u v o htr hu - ho
      rw [(Runs.along_iff _).mp hb tr₁ a tr₂ u htr hu] at ho
      cases ho

/-- Two readers are drained by one event, and the second finds nothing to read. -/
theorem would_block_reported :
    ¬ ∀ (config : Config) (tr : List Action) (s : State), run config tr = .ok s → Unblamed s := by
  intro h
  have hs : ∃ s op, run {} [.emplace 5#32, .recvmsg 0 [.failed ⟨EAGAIN, by decide⟩],
      .recvmsg 0 [.failed ⟨EAGAIN, by decide⟩], .connect 0, .start 0, .connect 1,
      .start 1, .snapshot (-1),
      .poll 0 0 [.ready [POLLIN]], .pass 0 (fun _ => .ok 0), .execute 0 [.transferred 7],
      .execute 0 [.failed ⟨EAGAIN, by decide⟩]] = .ok s ∧ s.ops[1]? = some op ∧ op.func = .recvmsg ∧
      op.status = .completed (.setError EWOULDBLOCK) := ⟨_, _, rfl, rfl, rfl, rfl⟩
  obtain ⟨s, op, hrun, hop, hf, hc⟩ := hs
  exact h {} _ s hrun 1 op hop (by rw [hf]; decide) hc

end AsyncBerkeley.WouldBlock
