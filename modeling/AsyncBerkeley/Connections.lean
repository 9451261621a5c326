import AsyncBerkeley.Completions

namespace AsyncBerkeley.Connections

open Events InterestList SocketHandles PollMultiplexer Operations Executor Steps Evolution
  ErrorRecords Completions

variable {s s' : State} {a : Action}

/-- The initial call, after any number of interruptions, has left the kernel
with a connection or with one that it has started. -/
def begins (answers : List Answer) : Bool :=
  match retry answers with
  | some .succeeded => true
  | some (.failed errno) =>
    errno.val == EINPROGRESS || errno.val == EALREADY || errno.val == EISCONN
  | _ => false

/-- The completion finds a hard error on the socket: the last one that was
recorded there after the initial call. If none was, it is the one that the call
failed with, but `EAGAIN` is not recorded and leaves the error from before. -/
def surfaces (prior : Int) (answers : List Answer) (later : List Int) : Bool :=
  match later.getLast?, retry answers with
  | some error, _ => hard error
  | none, some (.failed errno) => errno.val != EAGAIN || hard prior
  | none, _ => hard prior

theorem hard_of_ne {errno : Errno} (h : errno.val ≠ EAGAIN) : hard errno.val = true := by
  simp [hard, errno.property, EWOULDBLOCK, h]

theorem errorOf_unbegun {socket : HandleId} {answers : List Answer} (hs : Sane s)
    (h : step s (.connectDialog socket answers) = .ok s') (hb : begins answers = false) :
    ∃ errno : Errno, retry answers = some (.failed errno) ∧ errorOf s'.handles socket =
      if errno.val = EAGAIN then errorOf s.handles socket else errno.val := by
  have hd : socket ∈ s.dialogs := by
    by_contra hd
    simp only [step, connectDialog, if_pos hd] at h
    cases h
  have herror := errorOf_step (hs.dialogs socket hd) h
  cases hr : retry answers with
  | none =>
    simp only [step, connectDialog, if_neg (not_not.mpr hd), hr] at h
    cases h
  | some answer =>
    cases answer with
    | failed errno =>
      refine ⟨errno, rfl, ?_⟩
      simp only [begins, hr, Bool.or_eq_false_iff, beq_eq_false_iff_ne] at hb
      rw [herror]
      by_cases he : errno.val = EAGAIN
      · simp [recordsIn, failedWith, hr, ignored, he]
      · simp [recordsIn, failedWith, hr, ignored, he, hb]
    | succeeded => simp [begins, hr] at hb
    | accepted _ _ _ | transferred _ =>
      simp only [step, connectDialog, if_neg (not_not.mpr hd), hr] at h
      cases h

theorem hard_iff_surfaces {tr : List Action} {s₁ s₂ : State} {socket : HandleId}
    {answers : List Answer} (hs₁ : Sane s₁)
    (h₂ : step s₁ (.connectDialog socket answers) = .ok s₂) (h : Runs.run step s₂ tr = .ok s)
    (hb : begins answers = false) : hard (errorOf s.handles socket) =
      surfaces (errorOf s₁.handles socket) answers (records socket s₂ tr) := by
  have hop₂ : s₂.ops[s₁.ops.length]? =
      some { func := .connect, socket := socket, trigger := .WRITE } := by
    simp [connectDialog_sender h₂]
  have hlt : socket < s₂.handles.length := (sane_step hs₁ (step_spec h₂)).sockets _ _ hop₂
  obtain ⟨errno, hr, herror⟩ := errorOf_unbegun hs₁ h₂ hb
  rw [errorOf_run hlt h, List.getLastD_eq_getLast?, herror, surfaces, hr]
  cases (records socket s₂ tr).getLast? with
  | some error => rfl
  | none =>
    by_cases he : errno.val = EAGAIN
    · simp [he]
    · simp [he, hard_of_ne he]

theorem complete_connect {o : TaskId} {op : Operation} {answers : List Answer}
    (hf : op.func = .connect) (h : complete s o op answers = .ok s') :
    ∃ outcome, s'.ops = s.ops.set o { op with status := .completed outcome } ∧
      ((hard (errorOf s.handles op.socket) = true ∧
        outcome = .setError (errorOf s.handles op.socket)) ∨
        (hard (errorOf s.handles op.socket) = false ∧ outcome = .setValue (.status 0))) := by
  obtain ⟨outcome, hops, hout⟩ := complete_outcome h
  refine ⟨outcome, hops, ?_⟩
  obtain hout | ⟨hh, t, r, hi, hout⟩ := hout
  · exact .inl hout
  · rw [hf] at hi
    cases hi
    obtain ⟨v, hv, rfl⟩ | ⟨errno, he, -⟩ := hout
    · cases hv
      exact .inr ⟨hh, rfl⟩
    · cases he

/-- The step that completes a connection reports success only for one that was
begun, and failure for one that was not, exactly when the connection was begun
or an error surfaces: one that a later step has recorded on the socket, else the
one that the initial call failed with unless that is `EAGAIN`, else the one from
before the call. -/
theorem connect_outcome_iff (config : Config) (tr₁ tr : List Action) {s₁ s₂ : State}
    {socket : HandleId} {answers : List Answer} {outcome : Outcome} (h₁ : run config tr₁ = .ok s₁)
    (h₂ : step s₁ (.connectDialog socket answers) = .ok s₂) (h : Runs.run step s₂ tr = .ok s)
    (hn : outcomeOf s s₁.ops.length = none) (hstep : step s a = .ok s')
    (hc : outcomeOf s' s₁.ops.length = some outcome) :
    ((∀ v, outcome = .setValue v → begins answers = true) ∧
      (begins answers = false → ∃ error, outcome = .setError error)) ↔
    begins answers = true ∨
      surfaces (errorOf s₁.handles socket) answers (records socket s₂ tr) = true := by
  have hop₂ : s₂.ops[s₁.ops.length]? =
      some { func := .connect, socket := socket, trigger := .WRITE } := by
    simp [connectDialog_sender h₂]
  obtain ⟨op', hop', hst⟩ := outcomeOf_eq_some hc
  obtain hop | ⟨op, t, answers', hop, hcompleting, hcomp⟩ := completed_backward hstep hop' hst
  · simp [outcomeOf, hop, hst] at hn
  have hl := later_of_run h hop₂ hop
  obtain ⟨outcome', hops, hout⟩ := complete_connect hl.func hcomp
  have hlt : s₁.ops.length < t.ops.length := by
    rw [hcompleting.ops]
    exact (List.getElem?_eq_some_iff.mp hop).1
  rw [hops, List.getElem?_set_self hlt] at hop'
  cases hop'
  cases hst
  rw [hcompleting.handles, hl.socket] at hout
  cases hb : begins answers with
  | true => simp
  | false =>
    rw [← hard_iff_surfaces (run_sane h₁) h₂ h hb]
    obtain ⟨hh, rfl⟩ | ⟨hh, rfl⟩ := hout
    · simp [hh]
    · simp [hh]

/-- A connection that was never attempted is reported as established. -/
theorem unbegun_connected :
    ¬ ∀ (tr tr' : List Action) (config : Config) (s₁ s₂ s : State) (socket : HandleId)
    (answers : List Answer) (v : Value), run config tr = .ok s₁ →
    step s₁ (.connectDialog socket answers) = .ok s₂ → Runs.run step s₂ tr' = .ok s →
    outcomeOf s s₁.ops.length = some (.setValue v) → begins answers = true := by
  intro h
  have hb := h [.emplace 5#32] [.connect 0, .start 0, .snapshot (-1), .poll 0 0 [.ready [POLLOUT]],
    .pass 0 (fun _ => .ok 0), .execute 0 []] {} _ _ _ 0 [.failed ⟨EAGAIN, by decide⟩]
    (.status 0) rfl rfl rfl rfl
  exact Bool.noConfusion hb

theorem connect_outcome_refused : ∃ s₁ s₂ s s', run {} [.emplace 5#32] = .ok s₁ ∧
    step s₁ (.connectDialog 0 [.failed ⟨EINTR, by decide⟩, .failed ⟨111, by decide⟩]) = .ok s₂ ∧
    Runs.run step s₂ [.sendmsg 0 [.failed ⟨32, by decide⟩], .connect 0] = .ok s ∧
    records 0 s₂ [.sendmsg 0 [.failed ⟨32, by decide⟩], .connect 0] = [32] ∧
    step s (.start 0) = .ok s' ∧ outcomeOf s' 0 = some (.setError 32) ∧
    begins [.failed ⟨EINTR, by decide⟩, .failed ⟨111, by decide⟩] = false ∧
    ((∀ v, Outcome.setError 32 = .setValue v →
        begins [.failed ⟨EINTR, by decide⟩, .failed ⟨111, by decide⟩] = true) ∧
      (begins [.failed ⟨EINTR, by decide⟩, .failed ⟨111, by decide⟩] = false →
        ∃ error, Outcome.setError 32 = .setError error)) := by
  have hrun : ∃ s₁ s₂ s s', run {} [.emplace 5#32] = .ok s₁ ∧
      step s₁ (.connectDialog 0 [.failed ⟨EINTR, by decide⟩, .failed ⟨111, by decide⟩]) = .ok s₂ ∧
      Runs.run step s₂ [.sendmsg 0 [.failed ⟨32, by decide⟩], .connect 0] = .ok s ∧
      step s (.start 0) = .ok s' ∧ s₁.ops.length = 0 ∧ outcomeOf s 0 = none ∧
      outcomeOf s' 0 = some (.setError 32) ∧
      records 0 s₂ [.sendmsg 0 [.failed ⟨32, by decide⟩], .connect 0] = [32] :=
    ⟨_, _, _, _, rfl, rfl, rfl, rfl, rfl, rfl, rfl, rfl⟩
  obtain ⟨s₁, s₂, s, s', h₁, h₂, h, hstep, hl, hn, hc, hrec⟩ := hrun
  have hiff := connect_outcome_iff {} [.emplace 5#32]
    [.sendmsg 0 [.failed ⟨32, by decide⟩], .connect 0] h₁ h₂ h (by rw [hl]; exact hn) hstep
    (by rw [hl]; exact hc)
  rw [hrec] at hiff
  exact ⟨s₁, s₂, s, s', h₁, h₂, h, hrec, hstep, hc, rfl, hiff.mpr (.inr rfl)⟩

end AsyncBerkeley.Connections
