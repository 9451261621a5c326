import AsyncBerkeley.ReactorRuns

namespace AsyncBerkeley.Receivers

open ListUpdates Events InterestList SocketHandles PollMultiplexer Operations Executor Passes Steps
  Evolution Lifetimes Conservation ReactorRuns

/-- The status tells which tasks are queued and not yet executed. -/
def Exact (s : State) : Prop := ∀ (o : TaskId) (op : Operation), s.ops[o]? = some op →
  (op.status = .queued ↔ o ∈ queuedOrder s.history ∧ o ∉ executedOrder s.history)

variable {s s' : State} {a : Action} {o : TaskId} {op : Operation} {config : Config}
  {tr : List Action}

theorem exact_set {new : Operation} (hx : Exact s) (hop : s.ops[o]? = some op)
    (hs' : s'.ops = s.ops.set o new) (hq : queuedOrder s'.history = queuedOrder s.history)
    (he : executedOrder s'.history = executedOrder s.history) (hold : op.status ≠ .queued)
    (hnew : new.status ≠ .queued) : Exact s' := by
  intro x opx hopx
  rw [hq, he]
  rw [hs'] at hopx
  obtain ⟨rfl, rfl⟩ | ⟨-, hopx⟩ := getElem?_set_cases hopx
  · have hxo := hx o op hop
    simp only [hold, false_iff] at hxo
    simpa only [hnew, false_iff] using hxo
  · exact hx x opx hopx

theorem not_mem_queuedOrder (hq : QueuedOnce s) (hop : s.ops[o]? = some op)
    (hst : started op = false) :
    o ∉ queuedOrder s.history := by
  intro ho
  obtain ⟨op', hop', hst', -⟩ := hq.started o ho
  rw [hop] at hop'
  cases hop'
  rw [hst] at hst'
  cases hst'

theorem exact_step (hq : QueuedOnce s) (ho : Owned s)
    (hsub : ∀ o ∈ executedOrder s.history, o ∈ queuedOrder s.history) (hx : Exact s)
    (h : Step s a s') : Exact s' := by
  cases h with
  | issue _ h =>
    obtain ⟨new, he, hnew⟩ := h.ops
    intro x opx hopx
    rw [h.history]
    by_cases hlt : x < s.ops.length
    · rw [he, List.getElem?_append_left hlt] at hopx
      exact hx x opx hopx
    · rw [he, List.getElem?_append_right (Nat.le_of_not_lt hlt)] at hopx
      have hst := (hnew opx (List.mem_of_getElem? hopx)).1
      simp only [hst, reduceCtorEq, false_iff, not_and]
      exact fun hm => absurd (ho.known x (mem_queuedOrder.mp hm)) hlt
  | register hop hst _ _ _ =>
    exact exact_set hx hop rfl (by simp [queuedOrder]) (by simp [executedOrder])
      (by simp [hst]) (by simp)
  | abandon hop hst | idle hop hst _ => exact exact_set hx hop rfl rfl rfl (by simp [hst]) (by simp)
  | inline hop hst _ hc =>
    obtain ⟨outcome, hops⟩ := hc.ops
    exact exact_set hx hop hops (by rw [hc.history]) (by rw [hc.history]) (by simp [hst]) (by simp)
  | @queue o op d i demux hop hst _ _ _ =>
    have hnot := not_mem_queuedOrder hq hop (by simp [started, hst])
    intro x opx hopx
    have hqs : queuedOrder (s.history ++ [.queued o]) = queuedOrder s.history ++ [o] :=
      queuedOrder_append _ _
    have hes : executedOrder (s.history ++ [.queued o]) = executedOrder s.history := by
      simp [executedOrder]
    simp only [hqs, hes, List.mem_append, List.mem_singleton]
    obtain ⟨rfl, rfl⟩ | ⟨hne, hopx⟩ := getElem?_set_cases hopx
    · simpa using mt (hsub o) hnot
    · simpa [Ne.symm hne] using hx x opx hopx
  | @execute w _ wait o rest op _ _ _ hop hc =>
    obtain ⟨outcome, hops⟩ := hc.ops
    intro x opx hopx
    have hqs : queuedOrder (s.history ++ [.executed o]) = queuedOrder s.history := by
      simp [queuedOrder]
    have hes : executedOrder (s.history ++ [.executed o]) = executedOrder s.history ++ [o] :=
      executedOrder_append _ _
    rw [hops] at hopx
    rw [hc.history]
    simp only [popped, hqs, hes, List.mem_append, List.mem_singleton] at hopx ⊢
    obtain ⟨rfl, rfl⟩ | ⟨hne, hopx⟩ := getElem?_set_cases hopx
    · simp
    · simpa [Ne.symm hne] using hx x opx hopx
  | passed _ _ _ | passThrew _ _ _ =>
    intro x opx hopx
    simpa [Steps.passed] using hx x opx hopx
  | snapshot | polled _ _ _ _ | pollThrew _ _ | finish _ _ _ => exact hx

theorem executed_queued (h : run config tr = .ok s) (o : TaskId)
    (ho : o ∈ executedOrder s.history) : o ∈ queuedOrder s.history := by
  have hl := run_located h
  obtain ⟨w, hw⟩ := (hl.executed o).mpr ho
  exact (hl.known o).mp ⟨.done w, hw⟩

theorem run_exact (h : run config tr = .ok s) : Exact s := by
  refine Runs.run_induction (fun _ s => Exact s) (fun o op hop => by simp [initial] at hop) ?_ h
  intro tr u a v hu ha hx
  exact exact_step (run_queuedOnce hu) (run_owned hu) (executed_queued hu) hx (step_spec ha)

def Completed (s : State) (o : TaskId) (outcome : Outcome) : Prop :=
  ∃ op, s.ops[o]? = some op ∧ op.status = .completed outcome

/-- The operation whose receiver a step completes: one that is started and does
not wait, or one whose task is executed. -/
def completedIn (s : State) : Action → List TaskId
  | .start o =>
    match s.ops[o]? with
    | none => []
    | some op => if op.trigger == .EAGER || hard (errorOf s.handles op.socket) then [o] else []
  | .execute w _ => (readyOf s w).head?.toList
  | _ => []

structure Completion (s : State) (a : Action) (s' : State) : Prop where
  stays : ∀ o outcome, Completed s o outcome → Completed s' o outcome
  fresh : ∀ o ∈ completedIn s a, ∀ outcome, ¬Completed s o outcome
  news : ∀ o, (∃ outcome, Completed s' o outcome) ↔ (∃ outcome, Completed s o outcome) ∨
    o ∈ completedIn s a
  single : (completedIn s a).Nodup

theorem completed_set {new : Operation} (hop : s.ops[o]? = some op) (hs' : s'.ops = s.ops.set o new)
    (hold : ∀ outcome, op.status ≠ .completed outcome) (x : TaskId) (outcome : Outcome) :
    Completed s' x outcome ↔ Completed s x outcome ∨ x = o ∧ new.status = .completed outcome := by
  obtain ⟨hlt, -⟩ := List.getElem?_eq_some_iff.mp hop
  unfold Completed
  rw [hs']
  by_cases hx : o = x
  · subst hx
    rw [List.getElem?_set_self hlt, hop]
    simp [hold]
  · simp [List.getElem?_set_ne hx, Ne.symm hx]

theorem completion_set {new : Operation} (hop : s.ops[o]? = some op)
    (hs' : s'.ops = s.ops.set o new) (hold : ∀ outcome, op.status ≠ .completed outcome)
    (hc : completedIn s a = [] ∧ (∀ outcome, new.status ≠ .completed outcome) ∨
      completedIn s a = [o] ∧ ∃ outcome, new.status = .completed outcome) :
    Completion s a s' := by
  have hset := completed_set hop hs' hold
  have hnot : ∀ outcome, ¬Completed s o outcome := by
    rintro outcome ⟨op', hop', hst⟩
    rw [hop] at hop'
    cases hop'
    exact hold outcome hst
  obtain ⟨hin, hnew⟩ | ⟨hin, outcome, hnew⟩ := hc
  · refine ⟨fun x r hx => (hset x r).mpr (.inl hx), by simp [hin], fun x => ?_, by simp [hin]⟩
    simp [hset, hin, hnew]
  · refine ⟨fun x r hx => (hset x r).mpr (.inl hx), fun x hx => ?_, fun x => ?_, by simp [hin]⟩
    · rw [hin, List.mem_singleton] at hx
      exact hx ▸ hnot
    · simp only [hset, hin, hnew, List.mem_singleton, Status.completed.injEq,
        exists_or, exists_and_left, exists_eq', and_true]

theorem completion_same (hs' : ∀ x outcome, Completed s' x outcome ↔ Completed s x outcome)
    (hin : completedIn s a = []) : Completion s a s' :=
  ⟨fun x r => (hs' x r).mpr, by simp [hin], fun x => by simp [hs', hin], by simp [hin]⟩

theorem located_queued (h : run config tr = .ok s) {p : Reactor.Place (Fd × Direction) Nat}
    (hp : o ∈ located config tr s p) (hn : ∀ w, p ≠ .done w) (hop : s.ops[o]? = some op) :
    op.status = .queued := by
  have hl := run_located h
  refine (run_exact h o op hop).mpr ⟨(hl.known o).mp ⟨p, hp⟩, fun he => ?_⟩
  obtain ⟨w, hw⟩ := (hl.executed o).mpr he
  exact hn w (hl.exclusive.disjoint hp hw)

theorem step_completion (h : run config tr = .ok s) (ha : step s a = .ok s') :
    Completion s a s' := by
  cases step_spec ha with
  | issue hi h =>
    refine completion_same (fun x outcome => ?_) (by cases a <;> first | rfl | cases hi)
    obtain ⟨new, he, hnew⟩ := h.ops
    unfold Completed
    rw [he]
    by_cases hlt : x < s.ops.length
    · rw [List.getElem?_append_left hlt]
    · rw [List.getElem?_append_right (Nat.le_of_not_lt hlt),
        List.getElem?_eq_none (Nat.le_of_not_lt hlt)]
      constructor
      · rintro ⟨op, hop, hst⟩
        rw [(hnew op (List.mem_of_getElem? hop)).1] at hst
        cases hst
      · rintro ⟨op, hop, -⟩
        cases hop
  | register hop hst _ _ _ | abandon hop hst | idle hop hst _ =>
    exact completion_set hop rfl (by simp [hst]) (.inl ⟨rfl, by simp⟩)
  | @queue o op d i demux hop hst ht _ _ =>
    have hne := start_waits ha hop rfl
    refine completion_set hop rfl (by simp [hst]) (.inl ⟨?_, by simp⟩)
    simpa [completedIn, hop] using hne
  | @inline o op _ hop hst he hc =>
    obtain ⟨outcome, hops⟩ := hc.ops
    refine completion_set hop hops (by simp [hst]) (.inr ⟨?_, outcome, rfl⟩)
    simpa [completedIn, hop, or_iff_not_imp_left] using he
  | @execute w _ wait o rest op _ hw hr hop hc =>
    obtain ⟨outcome, hops⟩ := hc.ops
    have hready : readyOf s w = o :: rest := by rw [readyOf_eq hw, hr]
    have hst := located_queued h (p := .ready w) (by rw [located, hready]; exact List.mem_cons_self)
      (by simp) hop
    exact completion_set hop hops (by simp [hst])
      (.inr ⟨by simp [completedIn, hready], outcome, rfl⟩)
  | passed _ _ _ | passThrew _ _ _ | snapshot | polled _ _ _ _ | pollThrew _ _ | finish _ _ _ =>
    exact completion_same (fun _ _ => .rfl) rfl

def completions (config : Config) (tr : List Action) : List TaskId :=
  Runs.collect step completedIn (initial config) tr

theorem completed_run {tr' : List Action} {outcome : Outcome} (h : run config tr = .ok s)
    (h' : Runs.run step s tr' = .ok s') (hc : Completed s o outcome) : Completed s' o outcome := by
  refine (Runs.run_induction (fun tr' t => run config (tr ++ tr') = .ok t ∧ Completed t o outcome)
    ?_ ?_ h').2
  · exact ⟨by rw [List.append_nil]; exact h, hc⟩
  · rintro tr' u a v - ha ⟨hu, hc⟩
    refine ⟨?_, (step_completion hu ha).stays o outcome hc⟩
    rw [← List.append_assoc]
    exact Runs.run_snoc_ok.mpr ⟨u, hu, ha⟩

theorem run_completions (h : run config tr = .ok s) : (completions config tr).Nodup ∧
    ∀ o, o ∈ completions config tr ↔ ∃ outcome, Completed s o outcome := by
  refine Runs.run_induction (fun tr s => (completions config tr).Nodup ∧
    ∀ o, o ∈ completions config tr ↔ ∃ outcome, Completed s o outcome) ?_ ?_ h
  · exact ⟨List.nodup_nil, fun o => by simp [completions, Runs.collect, Completed, initial]⟩
  · rintro tr u a v hu ha ⟨hnd, hiff⟩
    have hc := step_completion hu ha
    have hsnoc : completions config (tr ++ [a]) = completions config tr ++ completedIn u a :=
      Runs.collect_snoc _ hu ha
    rw [hsnoc]
    refine ⟨List.nodup_append'.mpr ⟨hnd, hc.single, fun x hx hx' => ?_⟩, fun x => ?_⟩
    · obtain ⟨outcome, hx⟩ := (hiff x).mp hx
      exact hc.fresh x hx' outcome hx
    · rw [List.mem_append, hiff, hc.news]

/-- Every receiver is completed at most once, whatever the threads do and also
when calls of `wait_for` throw: by its own `start` or by one execution of its
task, and with an outcome that no later step changes. -/
theorem receivers_completed_once (config : Config) (tr tr' : List Action) {s s' : State}
    (h : run config tr = .ok s) (h' : Runs.run step s tr' = .ok s') :
    (completions config tr).Nodup ∧
    (∀ o, o ∈ completions config tr ↔ ∃ outcome, Completed s o outcome) ∧
    ∀ o outcome, Completed s o outcome → Completed s' o outcome := by
  obtain ⟨hnd, hiff⟩ := run_completions h
  exact ⟨hnd, hiff, fun o outcome hc => completed_run h h' hc⟩

theorem receivers_completed_once_eager : ∃ tr s s', run {} tr = .ok s ∧
    Runs.run step s [.finish 0, .finish 1] = .ok s' ∧ completions {} tr = [0, 1] ∧
      (completions {} tr).Nodup ∧
    ∀ o outcome, Completed s o outcome → Completed s' o outcome := by
  have h := receivers_completed_once {} [.emplace 5#32, .recvmsg 0 [.transferred 3], .connect 0,
    .start 0, .recvmsg 0 [.failed ⟨11, by decide⟩], .connect 1, .start 1, .snapshot (-1),
    .snapshot (-1), .poll 0 0 [.ready [POLLIN]], .poll 1 0 [.ready [POLLIN]],
    .pass 1 (fun _ => .ok 0), .pass 0 (fun _ => .ok 0),
    .execute 1 [.transferred 7]] [.finish 0, .finish 1] rfl rfl
  exact ⟨_, _, _, rfl, rfl, rfl, h.1, h.2.2⟩

/-- An operation is queued while its task is somewhere and not executed: in the
queue of its own descriptor and direction, ready in one call of `wait_for`, or
lost with one call that has thrown. -/
theorem queued_operations_located (config : Config) (tr : List Action) {s : State}
    (h : run config tr = .ok s) :
    (∀ p, (located config tr s p).Nodup) ∧
    (∀ o p q, o ∈ located config tr s p → o ∈ located config tr s q → p = q) ∧
    (∀ o op, s.ops[o]? = some op →
      (op.status = .queued ↔ ∃ p, o ∈ located config tr s p ∧ ∀ w, p ≠ .done w)) ∧
    (∀ o fd d, o ∈ located config tr s (.waiting (fd, d)) → target s o = some (d.trigger, fd)) ∧
    (∀ w, located config tr s (.lost w) ≠ [] → failedCall s w) ∧
    ∀ o, (∃ w, o ∈ located config tr s (.done w)) → ∃ outcome, Completed s o outcome := by
  have hl := run_located h
  refine ⟨hl.exclusive.nodup, fun o p q => hl.exclusive.disjoint, fun o op hop => ?_,
    fun o fd d => (run_sane h).queued fd d o, hl.failed, ?_⟩
  · rw [run_exact h o op hop, ← hl.known, ← hl.executed]
    constructor
    · rintro ⟨⟨p, hp⟩, hn⟩
      exact ⟨p, hp, fun w he => hn ⟨w, by rw [he] at hp; exact hp⟩⟩
    · rintro ⟨p, hp, hn⟩
      exact ⟨⟨p, hp⟩, fun ⟨w, hw⟩ => hn w (hl.exclusive.disjoint hp hw)⟩
  · rintro o ⟨w, hw⟩
    obtain ⟨op, hop, hst, -⟩ := (run_queuedOnce h).started o ((hl.known o).mp ⟨.done w, hw⟩)
    have hnot : op.status ≠ .queued := fun he =>
      ((run_exact h o op hop).mp he).2 ((hl.executed o).mp ⟨w, hw⟩)
    cases hs : op.status with
    | completed outcome => exact ⟨outcome, op, hop, hs⟩
    | queued => exact absurd hs hnot
    | created | connected | abandoned => simp [started, hs] at hst

theorem queued_operations_located_thrown : ∃ tr s, run {} tr = .ok s ∧
    located {} tr s (.lost 0) = [0] ∧ located {} tr s (.waiting (6#32, .read)) = [1] ∧
    (∀ p, (located {} tr s p).Nodup) ∧ ∀ w, located {} tr s (.lost w) ≠ [] → failedCall s w := by
  have h := queued_operations_located {} [.emplace 5#32, .emplace 6#32, .set 0 .read,
    .set 1 .read, .connect 0, .start 0, .connect 1, .start 1, .snapshot (-1), .snapshot (-1),
    .poll 0 0 [.ready [POLLIN, POLLERR]], .pass 0 (fun _ => .error ⟨12, by decide⟩)] rfl
  exact ⟨_, _, rfl, rfl, rfl, h.1, h.2.2.2.2.1⟩

end AsyncBerkeley.Receivers
