import AsyncBerkeley.Evolution

namespace AsyncBerkeley.Fairness

open Events InterestList SocketHandles PollMultiplexer Operations Executor Steps Evolution

/-- One operation of a chain, with the answers of its eager attempt. -/
inductive Link where
  | accept (socket : HandleId) (address : Span) (answers : List Answer)
  | recvmsg (socket : HandleId) (answers : List Answer)
  | sendmsg (socket : HandleId) (answers : List Answer)

def Link.issue : Link → Action
  | .accept socket address answers => .accept socket address answers
  | .recvmsg socket answers => .recvmsg socket answers
  | .sendmsg socket answers => .sendmsg socket answers

def Link.actions (link : Link) (o : TaskId) : List Action := [link.issue, .connect o, .start o]

/-- A stretch of a chain on one thread, with its operations as their `start`
leaves them. The completion of an operation issues the next one at once, so
that other steps come between them only while the operation is queued. -/
inductive Chain : State → List Operation → State → Prop where
  | nil {s} : Chain s [] s
  | completed {s t u op ops} (link : Link) (outcome : Outcome)
      (h : Runs.run step s (link.actions s.ops.length) = .ok t)
      (hop : t.ops[s.ops.length]? = some op) (hc : op.status = .completed outcome)
      (rest : Chain t ops u) : Chain s (op :: ops) u
  | queued {s t v u op ops} (link : Link) (tr : List Action)
      (h : Runs.run step s (link.actions s.ops.length) = .ok t)
      (hop : t.ops[s.ops.length]? = some op) (hq : op.status = .queued)
      (hv : Runs.run step t tr = .ok v) (rest : Chain v ops u) :
      Chain s (op :: ops) u

variable {s s' t : State} {o : TaskId} {op : Operation}

theorem acceptSucceed_counter {socket : HandleId} {address : Span} {answer : Answer}
    (h : acceptSucceed socket address s answer = .ok t) : t.counter = s.counter := by
  unfold acceptSucceed at h
  split at h
  · split at h
    · cases h
    · split at h <;> cases h <;> rfl
  · cases h

theorem transferSucceed_counter {socket : HandleId} {answer : Answer}
    (h : transferSucceed socket s answer = .ok t) : t.counter = s.counter := by
  unfold transferSucceed at h
  split at h <;> cases h
  rfl

theorem attempt_counter {eager : Bool} {socket : HandleId} {trigger : ExecutionTrigger}
    {func : Completion} {answers : List Answer} {succeed : State → Answer → Except Fault State}
    (h : attempt s eager socket trigger func answers succeed = .ok t) (ht : trigger ≠ .EAGER)
    (hs : ∀ u answer v, succeed u answer = .ok v → v.counter = u.counter)
    (hop : t.ops[s.ops.length]? = some op) (he : op.trigger = .EAGER) :
    s.counter + 1#8 ≠ 0#8 ∧ t.counter = s.counter + 1#8 := by
  have hnot : ∀ u : State, u.ops = s.ops →
      (setSender u socket trigger func).ops[s.ops.length]? ≠ some op := by
    intro u hu hop
    simp only [setSender, hu, List.getElem?_append_right (Nat.le_refl _), Nat.sub_self,
      List.getElem?_cons_zero, Option.some.injEq] at hop
    rw [← hop] at he
    exact ht he
  unfold attempt at h
  split at h
  · cases h
  · split at h
    · next hc =>
      simp only [Bool.and_eq_true, bne_iff_ne, ne_eq] at hc
      refine ⟨hc.2, ?_⟩
      split at h
      · cases h
      · simp only at h
        split at h
        · cases h
          rfl
        · cases h
          exact absurd hop (hnot _ rfl)
      · exact hs _ _ _ h
    · cases h
      exact absurd hop (hnot _ rfl)

theorem issue_counter (link : Link) (h : step s link.issue = .ok t)
    (hop : t.ops[s.ops.length]? = some op) (he : op.trigger = .EAGER) :
    s.counter + 1#8 ≠ 0#8 ∧ t.counter = s.counter + 1#8 := by
  cases link with
  | accept _ _ _ =>
    simp only [Link.issue, step, accept] at h
    exact attempt_counter h (by decide) (fun _ _ _ => acceptSucceed_counter) hop he
  | recvmsg _ _ | sendmsg _ _ =>
    simp only [Link.issue, step, recvmsg, sendmsg] at h
    exact attempt_counter h (by decide) (fun _ _ _ => transferSucceed_counter) hop he

theorem connect_counter (h : connect s o = .ok t) : t.counter = s.counter := by
  unfold connect at h
  split at h
  · cases h
  · split at h
    · cases h
    · split at h
      · split at h <;> cases h <;> rfl
      · cases h
        rfl

theorem complete_counter {answers : List Answer} (h : complete s o op answers = .ok t) :
    t.counter = s.counter := by
  unfold complete at h
  split at h
  · cases h
    unfold discardResult settle
    split <;> rfl
  · split at h
    · cases h
    all_goals
      next hi =>
      cases h
      rcases invoke_grows hi with rfl | ⟨fd, -, rfl⟩ <;> rfl

theorem link_completed (link : Link) {outcome : Outcome}
    (h : Runs.run step s (link.actions s.ops.length) = .ok t) (hop : t.ops[s.ops.length]? = some op)
    (hc : op.status = .completed outcome) :
    (s.counter + 1#8 ≠ 0#8 ∧ t.counter = s.counter + 1#8) ∨
      (op.trigger ≠ .EAGER ∧ ∃ error,
        hard error = true ∧ op.status = .completed (.setError error)) := by
  obtain ⟨s₁, h₁, h⟩ := Runs.run_cons_ok.mp h
  obtain ⟨s₂, h₂, h⟩ := Runs.run_cons_ok.mp h
  obtain ⟨s₃, h₃, h⟩ := Runs.run_cons_ok.mp h
  cases h
  cases step_spec h₃ with
  | issue ha _ => cases ha
  | queue hop' _ _ _ _ =>
    rw [List.getElem?_set_self (List.getElem?_eq_some_iff.mp hop').1] at hop
    cases hop
    cases hc
  | @inline _ op₂ _ hop₂ _ he _ =>
    have hcomplete := start_complete h₃ hop₂ he
    have counted : op₂.trigger = .EAGER → s.counter + 1#8 ≠ 0#8 ∧ t.counter = s.counter + 1#8 := by
      intro ht
      rw [complete_counter hcomplete, connect_counter h₂]
      obtain ⟨op₁, hop₁, hn⟩ | ⟨hnone, -⟩ := op_backward (step_spec h₂) hop₂
      · exact issue_counter link h₁ hop₁ (hn.trigger.symm.trans ht)
      · simp only [step, connect, hnone] at h₂
        cases h₂
    obtain ⟨outcome', hops, hout⟩ := complete_outcome hcomplete
    rw [hops, List.getElem?_set_self (List.getElem?_eq_some_iff.mp hop₂).1] at hop
    cases hop
    obtain ⟨hh, rfl⟩ | ⟨hh, -⟩ := hout
    · by_cases ht : op₂.trigger = .EAGER
      · exact .inl (counted ht)
      · exact .inr ⟨ht, _, hh, rfl⟩
    · exact .inl (counted (he.resolve_right (by simp [hh])))

theorem counter_chain {ops : List Operation} (h : Chain s ops s')
    (hops : ∀ op ∈ ops, op.status ≠ .queued ∧ ¬(op.trigger ≠ .EAGER ∧ ∃ error,
      hard error = true ∧ op.status = .completed (.setError error))) :
    s.counter.toNat + ops.length < 256 := by
  induction h with
  | nil => simpa using BitVec.isLt _
  | @completed s t u op ops link outcome h hop hc rest ih =>
    have hrest := ih fun op hm => hops op (by simp [hm])
    obtain ⟨hne, hcount⟩ | hdead := link_completed link h hop hc
    · have hnext : t.counter.toNat = s.counter.toNat + 1 := by
        rw [hcount]
        have hlt := s.counter.isLt
        have hn : s.counter.toNat ≠ 255 := by
          intro h255
          apply hne
          apply BitVec.eq_of_toNat_eq
          simp [h255]
        simp
        omega
      rw [List.length_cons]
      omega
    · exact absurd hdead (hops op (by simp)).2
  | queued link tr h hop hq hv rest ih => exact absurd hq (hops _ (by simp)).1

/-- Among any 256 operations of a chain in a row, one waits for an event: it is
queued, unless a hard error is recorded on its socket, which its `start`
reports at once. -/
theorem deferred_within {ops : List Operation} (h : Chain s ops s') (hl : 256 ≤ ops.length) :
    ∃ op ∈ ops, op.status = .queued ∨
      (op.trigger ≠ .EAGER ∧ ∃ error,
        hard error = true ∧ op.status = .completed (.setError error)) := by
  by_contra hn
  push Not at hn
  have hlt := counter_chain h fun op hm =>
    ⟨(hn op hm).1, fun ⟨ht, error, hh, hs⟩ => (hn op hm).2 ht error hh hs⟩
  omega

structure Reset (s : State) (socket : HandleId) : Prop where
  dialog : socket ∈ s.dialogs
  handle : socket < s.handles.length
  error : errorOf s.handles socket = ECONNRESET

def resetSender (s : State) (socket : HandleId) (trigger : ExecutionTrigger) (func : Completion)
    (status : Status) : State :=
  { s with
    ops := s.ops ++ [{ func := func, socket := socket, trigger := trigger, status := status }] }

theorem start_reset {socket : HandleId} (trigger : ExecutionTrigger) {func : Completion}
    (hs : Reset s socket) (hf : func = .empty ∨ func = .recvmsg) :
    Runs.run step (setSender s socket trigger func) [.connect s.ops.length, .start s.ops.length] =
      .ok (resetSender s socket trigger func (.completed (.setError ECONNRESET))) := by
  have hh : hard ECONNRESET = true := rfl
  rw [Runs.run_cons_ok]
  refine ⟨resetSender s socket trigger func .connected, ?_, ?_⟩
  · simp [step, connect, setSender, resetSender, hs.error, hh]
  · rw [Runs.run_cons_ok]
    refine ⟨_, ?_, rfl⟩
    rcases hf with rfl | rfl <;>
      simp [step, start, resetSender, complete, hs.error, hh, settle, discardResult]

theorem issue_reset {socket : HandleId} (hs : Reset s socket) : ∃ t trigger func,
    recvmsg s socket [.failed ⟨ECONNRESET, by decide⟩] = .ok (setSender t socket trigger func) ∧
      t.ops = s.ops ∧ Reset t socket ∧ (func = .empty ∨ func = .recvmsg) := by
  have hr : retry [.failed ⟨ECONNRESET, by decide⟩] = some (.failed ⟨ECONNRESET, by decide⟩) := rfl
  unfold recvmsg attempt
  rw [if_neg (not_not.mpr hs.dialog)]
  split
  · have he := errorOf_recordError s.handles socket ECONNRESET hs.handle
    refine ⟨{ s with
      counter := s.counter + 1#8
      handles := recordError s.handles socket ECONNRESET }, .EAGER, .empty, ?_, rfl, ?_, .inl rfl⟩
    · simp only [hr, he]
      rfl
    · exact ⟨hs.dialog, by simpa using hs.handle, he⟩
  · exact ⟨_, _, _, rfl, rfl, ⟨hs.dialog, hs.handle, hs.error⟩, .inr rfl⟩

theorem chain_reset {socket : HandleId} (n : Nat) (hs : Reset s socket) :
    ∃ ops s', Chain s ops s' ∧ ops.length = n ∧ ∀ op ∈ ops, op.status ≠ .queued := by
  induction n generalizing s with
  | zero => exact ⟨[], s, .nil, rfl, by simp⟩
  | succ n ih =>
    obtain ⟨t, trigger, func, hissue, hops, ht, hf⟩ := issue_reset hs
    have hrun := start_reset trigger ht hf
    rw [hops] at hrun
    have hop :
        (resetSender t socket trigger func (.completed (.setError ECONNRESET))).ops[s.ops.length]? =
        some { func := func, socket := socket, trigger := trigger, status := .completed (.setError
          ECONNRESET) } := by
      simp [resetSender, hops]
    have hreset :
        Reset (resetSender t socket trigger func (.completed (.setError ECONNRESET))) socket :=
      ⟨ht.dialog, ht.handle, ht.error⟩
    obtain ⟨ops, s', hchain, hl, hq⟩ := ih hreset
    refine ⟨_, s', .completed (.recvmsg socket [.failed ⟨ECONNRESET, by decide⟩]) _
      (Runs.run_cons_ok.mpr ⟨_, hissue, hrun⟩) hop rfl hchain, by rw [List.length_cons, hl], ?_⟩
    intro op hm
    obtain rfl | hm := List.mem_cons.mp hm
    · exact nofun
    · exact hq op hm

/-- The counter does not bound the nesting on a socket that was reset: its
error is recorded, and `start` completes even the operation that was deferred. -/
theorem nesting_unbounded :
    ¬ ∀ (config : Config) (tr : List Action) (s s' : State) (counter : BitVec 8)
    (ops : List Operation), run config tr = .ok s → Chain { s with counter := counter } ops s' →
    ops.length = 256 → ∃ op ∈ ops, op.status = .queued := by
  intro h
  have hs : ∃ s, run {} [.emplace 5#32, .recvmsg 0 [.failed ⟨ECONNRESET, by decide⟩]] = .ok s ∧
      Reset s 0 :=
    ⟨_, rfl, by decide, by decide, rfl⟩
  obtain ⟨s, hrun, hreset⟩ := hs
  obtain ⟨ops, s', hchain, hl, hq⟩ := chain_reset 256 (s := { s with counter := 0#8 })
    ⟨hreset.dialog, hreset.handle, hreset.error⟩
  obtain ⟨op, hm, hqueued⟩ := h {} _ s s' 0#8 ops hrun hchain hl
  exact hq op hm hqueued

theorem deferred_within_wrapped : ∃ s ops s', run {} [.emplace 5#32] = .ok s ∧
    Chain { s with counter := 255#8 } ops s' ∧ ops.length = 256 ∧ ∃ op ∈ ops, op.status = .queued ∨
      (op.trigger ≠ .EAGER ∧ ∃ error,
        hard error = true ∧ op.status = .completed (.setError error)) := by
  have hs : ∃ s t v op, run {} [.emplace 5#32] = .ok s ∧
      Runs.run step { s with counter := 255#8 } ((Link.recvmsg 0 []).actions 0) = .ok t ∧
      t.ops[0]? = some op ∧ op.status = .queued ∧ s.ops.length = 0 ∧
      Runs.run step t [.recvmsg 0 [.failed ⟨ECONNRESET, by decide⟩]] = .ok v ∧ Reset v 0 :=
    ⟨_, _, _, _, rfl, rfl, rfl, rfl, rfl, rfl, by decide, by decide, rfl⟩
  obtain ⟨s, t, v, op, hrun, hlink, hop, hq, hl, hgap, hreset⟩ := hs
  obtain ⟨ops, s', hchain, hlen, -⟩ := chain_reset 255 hreset
  have hwhole : Chain { s with counter := 255#8 } (op :: ops) s' :=
    .queued (.recvmsg 0 []) _ (by rw [hl]; exact hlink) (by rw [hl]; exact hop) hq hgap hchain
  exact ⟨s, op :: ops, s', hrun, hwhole, by rw [List.length_cons, hlen],
    deferred_within hwhole (by rw [List.length_cons, hlen])⟩


end AsyncBerkeley.Fairness
