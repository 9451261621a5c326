import AsyncBerkeley.Conservation

namespace AsyncBerkeley.ExecutionOrder

open Events InterestList SocketHandles PollMultiplexer Operations Executor Passes Steps Evolution
open Lifetimes Conservation

variable {s s' : State} {a : Action}

/-- One waiting thread, whose tasks do not wait themselves: a call of `wait_for`
begins when the calls before it have returned. -/
def Sequential (s : State) : Action → Prop
  | .snapshot _ => ∀ wait ∈ s.waits, wait.phase = .returned
  | _ => True

instance : ∀ a, Decidable (Sequential s a)
  | .snapshot _ => inferInstanceAs (Decidable (∀ wait ∈ s.waits, _))
  | .emplace _ | .copyDialog _ | .dropDialog _ | .accept _ _ _ | .recvmsg _ _ | .sendmsg _ _
  | .connectDialog _ _ | .set _ _ | .connect _ | .start _ | .poll _ _ _ | .pass _ _ | .execute _ _
  | .finish _ => isTrue trivial

def Single (s : State) : Prop := ∀ (w w' : Nat) (wait wait' : Wait), s.waits[w]? = some wait →
  s.waits[w']? = some wait' → wait.phase ≠ .returned → wait'.phase ≠ .returned → w = w'

theorem single_set {waits : List Wait} {w : Nat} {old new : Wait}
    (hs : ∀ (w w' : Nat) (wait wait' : Wait), waits[w]? = some wait → waits[w']? = some wait' →
      wait.phase ≠ .returned → wait'.phase ≠ .returned → w = w')
    (hw : waits[w]? = some old) (hp : new.phase ≠ .returned → old.phase ≠ .returned) :
    ∀ (v v' : Nat) (wait wait' : Wait), (waits.set w new)[v]? = some wait →
      (waits.set w new)[v']? = some wait' → wait.phase ≠ .returned →
        wait'.phase ≠ .returned → v = v' := by
  -- a call that has not returned after the update had not returned before it
  have back : ∀ (v : Nat) (wait : Wait), (waits.set w new)[v]? = some wait →
      wait.phase ≠ .returned → ∃ wait', waits[v]? = some wait' ∧ wait'.phase ≠ .returned := by
    intro v wait hv hne
    by_cases hwv : w = v
    · subst hwv
      rw [List.getElem?_set_self (List.getElem?_eq_some_iff.mp hw).1] at hv
      cases hv
      exact ⟨old, hw, hp hne⟩
    · rw [List.getElem?_set_ne hwv] at hv
      exact ⟨wait, hv, hne⟩
  intro v v' wait wait' hv hv' hne hne'
  obtain ⟨_, hv, hne⟩ := back v wait hv hne
  obtain ⟨_, hv', hne'⟩ := back v' wait' hv' hne'
  exact hs v v' _ _ hv hv' hne hne'

theorem single_step (hs : Single s) (ha : Sequential s a) (h : Step s a s') : Single s' := by
  unfold Single at hs ⊢
  obtain he | ⟨interval, rfl, he⟩ | ⟨w, old, new, hw, hadv, he⟩ := waits_step h
  · rw [he]
    exact hs
  · have last : ∀ (w : Nat) (wait : Wait), s'.waits[w]? = some wait → wait.phase ≠ .returned →
        w = s.waits.length := by
      intro w wait hw hne
      rw [he] at hw
      by_cases hlt : w < s.waits.length
      · rw [List.getElem?_append_left hlt] at hw
        exact absurd (ha wait (List.mem_of_getElem? hw)) hne
      · have hw' := (List.getElem?_eq_some_iff.mp hw).1
        simp only [List.length_append, List.length_singleton] at hw'
        omega
    intro w w' wait wait' hw hw' hne hne'
    rw [last w wait hw hne, last w' wait' hw' hne']
  · rw [he]
    refine single_set hs hw (fun hne hold => ?_)
    cases hadv with
    | polled hp _ _ | passed hp => rw [hold] at hp; cases hp
    | threw hp => rcases hp with hp | hp <;> rw [hold] at hp <;> cases hp
    | popped _ => exact hne hold
    | returned _ _ => exact hne rfl

theorem readyTasks_eq {waits : List Wait} {w : Nat} {wait : Wait} (hw : waits[w]? = some wait)
    (hs : ∀ (w' : Nat) (wait' : Wait), waits[w']? = some wait' → w' ≠ w → wait'.ready = []) :
    readyTasks waits = wait.ready := by
  induction waits generalizing w with
  | nil => simp at hw
  | cons x waits ih =>
    cases w with
    | zero =>
      simp only [List.getElem?_cons_zero, Option.some.injEq] at hw
      subst hw
      have hrest : readyTasks waits = [] := by
        rw [readyTasks, List.flatMap_eq_nil_iff]
        intro wait' hm
        obtain ⟨w', hw'⟩ := List.mem_iff_getElem?.mp hm
        exact hs (w' + 1) wait' (by simpa using hw') (by simp)
      rw [readyTasks, List.flatMap_cons, ← readyTasks, hrest, List.append_nil]
    | succ w =>
      have hx : x.ready = [] := hs 0 x rfl (by simp)
      rw [readyTasks, List.flatMap_cons, hx, List.nil_append]
      exact ih (by simpa using hw)
        (fun w' wait' hw' hne => hs (w' + 1) wait' (by simpa using hw') (by simpa using hne))

theorem readyTasks_set_single (hr : Running s) (hs : Single s) {w : Nat} {wait : Wait}
    (hw : s.waits[w]? = some wait) (hp : wait.phase ≠ .returned) (new : Wait) :
    readyTasks s.waits = wait.ready ∧ readyTasks (s.waits.set w new) = new.ready := by
  have others : ∀ (w' : Nat) (wait' : Wait), s.waits[w']? = some wait' → w' ≠ w →
      wait'.ready = [] := by
    intro w' wait' hw' hne
    by_contra hready
    have hrun := hr wait' (List.mem_of_getElem? hw') hready
    exact hne (hs w' w wait' wait hw' hw (by rw [hrun]; simp) hp)
  refine ⟨readyTasks_eq hw others, ?_⟩
  apply readyTasks_eq (List.getElem?_set_self (List.getElem?_eq_some_iff.mp hw).1)
  intro w' wait' hw' hne
  rw [List.getElem?_set_ne (Ne.symm hne)] at hw'
  exact others w' wait' hw' hne

def Own (s : State) (o : TaskId) (fd : Fd) (d : Direction) : Prop :=
  target s o = some (d.trigger, fd)

instance (o : TaskId) (fd : Fd) (d : Direction) : Decidable (Own s o fd d) :=
  inferInstanceAs (Decidable (_ = _))

theorem own_iff {o : TaskId} {fd : Fd} {d : Direction} (ht : target s o = some (d.trigger, fd))
    (fd' : Fd) (d' : Direction) : Own s o fd' d' ↔ fd' = fd ∧ d' = d := by
  unfold Own
  rw [ht]
  constructor
  · intro he
    injection he with he
    injection he with htr hfd
    exact ⟨hfd.symm, (Direction.trigger_injective htr).symm⟩
  · rintro ⟨rfl, rfl⟩
    rfl

def tasksOf (s : State) (fd : Fd) (d : Direction) (l : List TaskId) : List TaskId :=
  l.filter (fun o => Own s o fd d)

theorem tasksOf_append (fd : Fd) (d : Direction) (l l' : List TaskId) :
    tasksOf s fd d (l ++ l') = tasksOf s fd d l ++ tasksOf s fd d l' := List.filter_append ..

theorem tasksOf_step (hs : Sane s) (h : Step s a s') (fd : Fd) (d : Direction) {l : List TaskId}
    (hl : ∀ o ∈ l, o < s.ops.length) : tasksOf s' fd d l = tasksOf s fd d l := by
  apply List.filter_congr
  intro o ho
  have ht := target_of_getElem? (List.getElem?_eq_getElem (hl o ho))
  simp only [Own, ht, step_target hs h ht]

theorem mem_queuedOrder_of_ready (hb : Balanced s) {o : TaskId} (ho : o ∈ readyTasks s.waits) :
    o ∈ queuedOrder s.history := by
  have hc := List.count_pos_iff.mpr ho
  have hsum := hb o
  exact List.count_pos_iff.mp (by omega)

theorem mem_queuedOrder_of_executed (hb : Balanced s) {o : TaskId}
    (ho : o ∈ executedOrder s.history) :
    o ∈ queuedOrder s.history := by
  have hc := List.count_pos_iff.mpr ho
  have hsum := hb o
  exact List.count_pos_iff.mp (by omega)

/-- The tasks of one descriptor and direction, in the order in which they were
queued: those executed, those ready and those still in the queue. -/
def Ordered (s : State) : Prop := ∀ fd d,
  tasksOf s fd d (executedOrder s.history) ++
      (tasksOf s fd d (readyTasks s.waits) ++ s.mux.queue fd d) =
    tasksOf s fd d (queuedOrder s.history)

theorem ordered_later (hs : Accounted s) (ho : Ordered s) (h : Step s a s') (fd : Fd)
    (d : Direction) :
    tasksOf s' fd d (executedOrder s.history) ++
      (tasksOf s' fd d (readyTasks s.waits) ++ s.mux.queue fd d) =
    tasksOf s' fd d (queuedOrder s.history) := by
  have known : ∀ o ∈ queuedOrder s.history, o < s.ops.length :=
    fun o hq => hs.owned.known o (mem_queuedOrder.mp hq)
  rw [tasksOf_step hs.sane h fd d
    (fun o hm => known o (mem_queuedOrder_of_executed hs.balanced hm)),
    tasksOf_step hs.sane h fd d (fun o hm => known o (mem_queuedOrder_of_ready hs.balanced hm)),
    tasksOf_step hs.sane h fd d known]
  exact ho fd d

theorem tasksOf_singleton {o : TaskId} {fd : Fd} {d : Direction}
    (ht : target s o = some (d.trigger, fd)) (fd' : Fd) (d' : Direction) :
    tasksOf s fd' d' [o] = if fd' = fd ∧ d' = d then [o] else [] := by
  have hown := own_iff ht fd' d'
  unfold tasksOf
  split
  · next he => simp [hown.mpr he]
  · next he => simp [mt hown.mp he]

theorem ordered_step (hs : Accounted s) (hsingle : Single s) (hn : ¬Threw s') (ho : Ordered s)
    (h : Step s a s') : Ordered s' := by
  intro fd d
  have hl := ordered_later hs ho h fd d
  have htarget : ∀ fd d, ∀ o ∈ s.mux.queue fd d, target s' o = some (d.trigger, fd) :=
    fun fd d o ho => step_target hs.sane h (hs.sane.queued fd d o ho)
  have same : executedOrder s'.history = executedOrder s.history →
      readyTasks s'.waits = readyTasks s.waits →
      s'.mux.queue fd d = s.mux.queue fd d → queuedOrder s'.history = queuedOrder s.history →
      tasksOf s' fd d (executedOrder s'.history) ++
        (tasksOf s' fd d (readyTasks s'.waits) ++ s'.mux.queue fd d) =
      tasksOf s' fd d (queuedOrder s'.history) := by
    intro he hr hm hq
    rw [he, hr, hm, hq]
    exact hl
  cases h with
  | issue _ h =>
    exact same (by rw [h.history]) (by rw [h.waits]) (by rw [h.mux]) (by rw [h.history])
  | inline _ _ _ hc =>
    exact same (by rw [hc.history]) (by rw [hc.waits]) (by rw [hc.mux]) (by rw [hc.history])
  | register _ _ _ _ _ =>
    exact same (by simp [executedOrder]) rfl (queue_makeRoom _ _ _ _ _) (by simp [queuedOrder])
  | abandon _ _ => exact same rfl rfl (queue_makeRoom _ _ _ _ _) rfl
  | idle _ _ _ => exact same rfl rfl rfl rfl
  | snapshot => exact same rfl (by simp [snapshot, readyTasks]) rfl rfl
  | polled hw _ _ _ | pollThrew hw _ | finish hw _ _ =>
    exact same rfl (readyTasks_set hw rfl) rfl rfl
  | @execute w _ wait o ready _ _ hw hready _ hc =>
    have hphase : wait.phase ≠ .returned := by
      rw [hs.running wait (List.mem_of_getElem? hw) (by rw [hready]; exact List.cons_ne_nil _ _)]
      simp
    obtain ⟨hold, hnew⟩ :=
      readyTasks_set_single hs.running hsingle hw hphase { wait with ready := ready }
    have hmove : executedOrder (s.history ++ [.executed o]) = executedOrder s.history ++ [o] :=
      executedOrder_append _ _
    have hkeep : queuedOrder (s.history ++ [.executed o]) = queuedOrder s.history := by
      simp [queuedOrder]
    rw [hold, hready, ← List.singleton_append, tasksOf_append] at hl
    rw [hc.mux, hc.waits, hc.history]
    simp only [popped, hnew, hmove, hkeep, tasksOf_append, List.append_assoc] at hl ⊢
    exact hl
  | @queue o op d' i demux hop hst ht hd hi =>
    have hp := hs.sane.pointers o op i hop hd
    subst hp
    have hkeep : executedOrder (s.history ++ [.queued o]) = executedOrder s.history := by
      simp [executedOrder]
    have hmove : queuedOrder (s.history ++ [.queued o]) = queuedOrder s.history ++ [o] :=
      queuedOrder_append _ _
    have hown : target s o = some (d'.trigger, descriptor s.handles op.socket) := by
      rw [target_of_getElem? hop, ht]
    have hown' := step_target hs.sane (Step.queue hop hst ht hd hi) hown
    simp only [hkeep, hmove, tasksOf_append, ← hl, tasksOf_singleton hown', queue_push ht hi,
      List.append_assoc]
    split
    · rfl
    · rw [List.append_nil]
  | @passed w getsockopt wait hw hp hx =>
    have hready := ready_of_polled hs.running hw hp
    obtain ⟨hold, hnew⟩ :=
      readyTasks_set_single hs.running hsingle hw (by rw [hp]; simp) { wait with
        ready := (handleEvents getsockopt { mux := s.mux, handles := s.handles } wait.list).1.ready
        phase := .running }
    have horder :=
      handleEvents_order (p := { mux := s.mux, handles := s.handles }) getsockopt wait.list
        (fun fd d o ho => own_iff (htarget fd d o ho)) fd d
    rw [hold, hready] at hl
    simp only [passed, hnew, executedOrder_append, queuedOrder_append, executedOrder_processed,
      queuedOrder_processed, List.append_nil, List.filter_nil, List.nil_append] at hl horder ⊢
    rw [← hl]
    exact congrArg _ horder
  | passThrew hw _ _ => exact absurd (threw_passThrew hw) hn

theorem run_ordered {config : Config} {tr : List Action} (h : run config tr = .ok s) (hn : ¬Threw s)
    (ha : Runs.Along step Sequential (initial config) tr) : Ordered s := by
  refine (Runs.run_invariant_along (fun t => Single t ∧ (¬Threw t → Accounted t ∧ Ordered t))
    Sequential ?_ h
    ha ⟨by simp [Single, initial], fun _ => ⟨accounted_initial config, fun _ _ => rfl⟩⟩).2 hn |>.2
  rintro t a t' ⟨hsingle, ht⟩ hseq hstep
  have hst := step_spec hstep
  refine ⟨single_step hsingle hseq hst, fun hn' => ?_⟩
  obtain ⟨hacc, hord⟩ := ht (mt (threw_step hst) hn')
  exact ⟨accounted_step hacc hn' hst, ordered_step hacc hsingle hn' hord hst⟩

/-- Every operation that `start` has queued is in exactly one place: its own
queue, one ready queue, or executed. When the calls of `wait_for` follow each
other, the tasks of each queue are executed in the order in which they were queued. -/
theorem queued_tasks_conserved (config : Config) (tr : List Action) (h : run config tr = .ok s)
    (hn : ¬Threw s) :
    (∀ o ∈ queuedOrder s.history, ∃ (fd : Fd) (d : Direction), target s o = some (d.trigger, fd) ∧
      (s.mux.queue fd d).count o + (readyTasks s.waits).count o +
        (executedOrder s.history).count o = 1 ∧
      ∀ fd' d', o ∈ s.mux.queue fd' d' → fd' = fd ∧ d' = d) ∧
    (Runs.Along step Sequential (initial config) tr → ∀ fd d,
      tasksOf s fd d (executedOrder s.history) <+: tasksOf s fd d (queuedOrder s.history)) := by
  refine ⟨fun o hq => (run_accounted h hn).place hq, fun ha fd d => ?_⟩
  exact ⟨_, run_ordered h hn ha fd d⟩

theorem queued_tasks_two_readers :
    ∃ s, run {} [.emplace 5#32, .set 0 .read, .set 0 .read, .connect 0,
      .start 0, .connect 1, .start 1, .snapshot (-1), .poll 0 0 [.ready [POLLIN]],
      .pass 0 (fun _ => .ok 0), .execute 0 [.transferred 7]] = .ok s ∧
    (∀ o ∈ queuedOrder s.history, ∃ (fd : Fd) (d : Direction), target s o = some (d.trigger, fd) ∧
      (s.mux.queue fd d).count o + (readyTasks s.waits).count o +
        (executedOrder s.history).count o = 1 ∧
      ∀ fd' d', o ∈ s.mux.queue fd' d' → fd' = fd ∧ d' = d) ∧
    tasksOf s 5#32 .read (executedOrder s.history) <+: tasksOf s 5#32 .read
      (queuedOrder s.history) := by
  have h := queued_tasks_conserved {} [.emplace 5#32, .set 0 .read, .set 0 .read, .connect 0,
    .start 0, .connect 1, .start 1, .snapshot (-1), .poll 0 0 [.ready [POLLIN]],
    .pass 0 (fun _ => .ok 0), .execute 0 [.transferred 7]] rfl (by unfold Threw; decide)
  exact ⟨_, rfl, h.1, h.2 (by decide) 5#32 .read⟩

end AsyncBerkeley.ExecutionOrder
