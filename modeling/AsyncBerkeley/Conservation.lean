import AsyncBerkeley.Lifetimes

namespace AsyncBerkeley.Conservation

open Events InterestList SocketHandles PollMultiplexer Operations Executor Passes Steps Evolution
  Lifetimes

def queuedOrder (history : List Event) : List TaskId :=
  history.filterMap fun
    | .queued o => some o
    | _ => none

def executedOrder (history : List Event) : List TaskId :=
  history.filterMap fun
    | .executed o => some o
    | _ => none

def readyTasks (waits : List Wait) : List TaskId := waits.flatMap Wait.ready

variable {s s' : State} {a : Action}

@[simp] theorem queuedOrder_append (l l' : List Event) :
    queuedOrder (l ++ l') = queuedOrder l ++ queuedOrder l' := List.filterMap_append

@[simp] theorem executedOrder_append (l l' : List Event) :
    executedOrder (l ++ l') = executedOrder l ++ executedOrder l' := List.filterMap_append

@[simp] theorem queuedOrder_processed (events : List Pollfd) :
    queuedOrder (events.map .processed) = [] := by
  simp [queuedOrder]

@[simp] theorem executedOrder_processed (events : List Pollfd) :
    executedOrder (events.map .processed) = [] := by
  simp [executedOrder]

theorem mem_queuedOrder {history : List Event} {o : TaskId} :
    o ∈ queuedOrder history ↔ .queued o ∈ history := by
  simp only [queuedOrder, List.mem_filterMap]
  constructor
  · rintro ⟨e, he, ho⟩
    cases e with
    | queued o' => cases ho; exact he
    | registered _ _ | processed _ | executed _ => cases ho
  · exact fun h => ⟨_, h, rfl⟩

theorem readyTasks_set {waits : List Wait} {w : Nat} {wait new : Wait} (hw : waits[w]? = some wait)
    (hr : new.ready = wait.ready) : readyTasks (waits.set w new) = readyTasks waits := by
  rw [readyTasks, readyTasks, List.flatMap_def, List.flatMap_def, ListUpdates.map_set_of_eq _ hw hr]

theorem count_readyTasks_set {waits : List Wait} {w : Nat} {wait : Wait} (h : waits[w]? = some wait)
    (new : Wait) (o : TaskId) : (readyTasks (waits.set w new)).count o + wait.ready.count o =
      (readyTasks waits).count o + new.ready.count o :=
  ListUpdates.count_flatMap_set Wait.ready h new o

def Running (s : State) : Prop := ∀ wait ∈ s.waits, wait.ready ≠ [] → wait.phase = .running

theorem running_step (hr : Running s) (h : Step s a s') : Running s' := by
  refine forall_waits_step h (fun interval hne => absurd rfl hne)
    (fun wait wait' hadv hwait hne => ?_) hr
  cases hadv with
  | polled hp _ _ =>
    rw [hwait hne] at hp
    cases hp
  | threw hp => rcases hp with hp | hp <;> rw [hwait hne] at hp <;> cases hp
  | passed hp => rfl
  | popped hready => exact hwait (by rw [hready]; exact List.cons_ne_nil _ _)
  | returned hp hready => exact absurd hready hne

structure QueuedOnce (s : State) : Prop where
  once : ∀ o, (queuedOrder s.history).count o ≤ 1
  started : ∀ o ∈ queuedOrder s.history, ∃ op, s.ops[o]? = some op ∧ started op = true ∧
    ∃ d : Direction, op.trigger = d.trigger

theorem queuedOrder_step (h : Step s a s') : queuedOrder s'.history = queuedOrder s.history ∨
    ∃ o op op', s.ops[o]? = some op ∧ started op = false ∧ s'.ops[o]? = some op' ∧
      started op' = true ∧ (∃ d : Direction, op'.trigger = d.trigger) ∧
      queuedOrder s'.history = queuedOrder s.history ++ [o] := by
  cases h with
  | issue _ h => exact .inl (by rw [h.history])
  | inline _ _ _ hc => exact .inl (by rw [hc.history])
  | execute _ _ _ hc => exact .inl (by rw [hc.history, popped]; simp [queuedOrder])
  | register _ _ _ _ _ => exact .inl (by simp [queuedOrder])
  | passed _ _ _ | passThrew _ _ _ => exact .inl (by simp [passed])
  | abandon _ _ | idle _ _ _ | snapshot | polled _ _ _ _ | pollThrew _ _ | finish _ _ _ =>
    exact .inl rfl
  | @queue o op d _ _ hop hst ht _ _ =>
    refine .inr ⟨o, op, _, hop, by simp [Evolution.started, hst],
      List.getElem?_set_self (List.getElem?_eq_some_iff.mp hop).1, rfl, ⟨d, ht⟩, ?_⟩
    simp [queuedOrder]

theorem queuedOnce_step (hq : QueuedOnce s) (h : Step s a s') : QueuedOnce s' := by
  have forward : ∀ o ∈ queuedOrder s.history, ∃ op, s'.ops[o]? = some op ∧ started op = true ∧
      ∃ d : Direction, op.trigger = d.trigger := by
    intro o ho
    obtain ⟨op, hop, hst, d, ht⟩ := hq.started o ho
    obtain ⟨op', hop', hn⟩ := op_forward h hop
    exact ⟨op', hop', hn.started hst, d, hn.trigger.trans ht⟩
  obtain he | ⟨o, op, op', hop, hst, hop', hst', ht', he⟩ := queuedOrder_step h
  · exact ⟨by rw [he]; exact hq.once, by rw [he]; exact forward⟩
  · have hnew : o ∉ queuedOrder s.history := by
      intro ho
      obtain ⟨op'', hop'', hst'', -⟩ := hq.started o ho
      rw [hop] at hop''
      cases hop''
      rw [hst] at hst''
      cases hst''
    refine ⟨fun x => ?_, fun x hx => ?_⟩
    · rw [he, List.count_append]
      by_cases hx : x = o
      · subst hx
        simp [List.count_eq_zero_of_not_mem hnew]
      · have hc := hq.once x
        simpa [List.count_eq_zero_of_not_mem (show x ∉ [o] by simpa using hx)] using hc
    · rw [he] at hx
      obtain hx | hx := List.mem_append.mp hx
      · exact forward x hx
      · rw [List.mem_singleton.mp hx]
        exact ⟨op', hop', hst', ht'⟩

/-- Every queued task is in a queue, ready or executed, as often as it was queued. -/
def Balanced (s : State) : Prop := ∀ o, pending s.mux.demux o + (readyTasks s.waits).count o +
  (executedOrder s.history).count o = (queuedOrder s.history).count o

theorem count_push (demux : Demultiplexer) (o o' : TaskId) (d : Direction) (socket : HandleId) :
    (push demux o' d.trigger socket).readQueue.count o +
      (push demux o' d.trigger socket).writeQueue.count o =
      demux.readQueue.count o + demux.writeQueue.count o + [o'].count o := by
  cases d <;> simp [push, Direction.trigger, List.count_append] <;> omega

theorem ready_of_polled {w : Nat} {wait : Wait} (hr : Running s) (hw : s.waits[w]? = some wait)
    (hp : wait.phase = .polled) : wait.ready = [] := by
  by_contra hne
  rw [hr wait (List.mem_of_getElem? hw) hne] at hp
  cases hp

theorem balanced_step (hr : Running s) (hb : Balanced s) (hn : ¬Threw s') (h : Step s a s') :
    Balanced s' := by
  intro o
  have ho := hb o
  cases h with
  | issue _ h => rw [h.mux, h.waits, h.history]; exact ho
  | inline _ _ _ hc => rw [hc.mux, hc.waits, hc.history]; exact ho
  | @execute w _ wait o' ready _ _ hw hready _ hc =>
    have hset := count_readyTasks_set hw { wait with ready := ready } o
    have hcons : wait.ready.count o = [o'].count o + ready.count o := by
      rw [hready, ← List.count_append, List.singleton_append]
    rw [hc.mux, hc.waits, hc.history]
    simp only [popped, executedOrder_append, queuedOrder_append, List.count_append] at hset ⊢
    simp only [executedOrder, queuedOrder, List.filterMap_cons, List.filterMap_nil,
      List.count_nil] at ho ⊢
    omega
  | register _ _ _ _ _ =>
    simp only [pending_makeRoom, executedOrder_append, queuedOrder_append]
    simpa [executedOrder, queuedOrder] using ho
  | abandon _ _ =>
    simp only [pending_makeRoom]
    exact ho
  | @queue o' op d i demux _ _ ht _ hi =>
    have hset := pending_set hi (push demux o' op.trigger op.socket) o
    rw [ht, count_push] at hset
    simp only [ht, executedOrder_append, queuedOrder_append, List.count_append]
    simp only [executedOrder, queuedOrder, List.filterMap_cons, List.filterMap_nil,
      List.count_nil] at ho ⊢
    omega
  | snapshot =>
    have hready : readyTasks (snapshot s ‹Int›).waits = readyTasks s.waits := by
      simp [snapshot, readyTasks]
    rw [hready]
    exact ho
  | idle _ _ _ => exact ho
  | polled hw _ _ _ | pollThrew hw _ | finish hw _ _ =>
    rw [readyTasks_set hw]
    · exact ho
    · rfl
  | @passed w getsockopt wait hw hp _ =>
    have hcount := handleEvents_count getsockopt { mux := s.mux, handles := s.handles } wait.list o
    have hset := count_readyTasks_set hw { wait with
      ready := (handleEvents getsockopt { mux := s.mux, handles := s.handles } wait.list).1.ready
      phase := .running } o
    rw [ready_of_polled hr hw hp] at hset
    simp only [passed, executedOrder_append, queuedOrder_append, executedOrder_processed,
      queuedOrder_processed, List.append_nil, List.count_nil] at hset hcount ⊢
    omega
  | passThrew hw _ _ => exact absurd (threw_passThrew hw) hn

/-- What is kept of the tasks while no call of `wait_for` throws. -/
structure Accounted (s : State) : Prop where
  sane : Sane s
  owned : Owned s
  running : Running s
  queuedOnce : QueuedOnce s
  balanced : Balanced s

theorem accounted_initial (config : Config) : Accounted (initial config) where
  sane := sane_initial config
  owned := owned_initial config
  running := by simp [Running, initial]
  queuedOnce := ⟨by simp [initial, queuedOrder], by simp [initial, queuedOrder]⟩
  balanced := fun _ => rfl

theorem accounted_step (hs : Accounted s) (hn : ¬Threw s') (h : Step s a s') : Accounted s' where
  sane := sane_step hs.sane h
  owned := owned_step hs.sane hs.owned h
  running := running_step hs.running h
  queuedOnce := queuedOnce_step hs.queuedOnce h
  balanced := balanced_step hs.running hs.balanced hn h

theorem toSize_ofNat {i : Nat} (hi : i < 2 ^ 31) : toSize (BitVec.ofNat 32 i) = i := by
  have hn : (BitVec.ofNat 32 i).toNat = i := by
    rw [BitVec.toNat_ofNat]
    omega
  rw [toSize_of_lt (by rw [hn]; exact hi), hn]

theorem pending_eq_zero {demux : List Demultiplexer} {o : TaskId}
    (h : ∀ x ∈ demux, ∀ d, o ∉ Demultiplexer.queue x d) : pending demux o = 0 := by
  rw [pending, List.sum_eq_zero_iff_forall_eq_nat]
  intro n hn
  obtain ⟨x, hx, rfl⟩ := List.mem_map.mp hn
  have hr := List.count_eq_zero_of_not_mem (h x hx .read)
  have hw := List.count_eq_zero_of_not_mem (h x hx .write)
  simp only [Demultiplexer.queue] at hr hw
  omega

theorem pending_eq_count {demux : List Demultiplexer} {o : TaskId} {i : Nat} {d : Direction}
 (h : ∀ (j : Nat) (x : Demultiplexer), demux[j]? = some x → ∀ d', o ∈ x.queue d' → j = i ∧ d' = d) :
    pending demux o = ((demux[i]?.map (fun x => x.queue d)).getD []).count o := by
  induction demux generalizing i with
  | nil => simp [pending]
  | cons x demux ih =>
    have hcons : pending (x :: demux) o = x.readQueue.count o + x.writeQueue.count o +
        pending demux o := by
      simp [pending]
    rw [hcons]
    cases i with
    | zero =>
      have hrest : pending demux o = 0 := by
        apply pending_eq_zero
        intro y hy d' ho
        obtain ⟨j, hj⟩ := List.mem_iff_getElem?.mp hy
        exact absurd (h (j + 1) y (by simpa using hj) d' ho).1 (by simp)
      have hother : ∀ d', d' ≠ d → (x.queue d').count o = 0 :=
        fun d' hne => List.count_eq_zero_of_not_mem fun ho => hne (h 0 x rfl d' ho).2
      rw [hrest]
      cases d with
      | read => simpa [Demultiplexer.queue] using hother .write (by simp)
      | write => simpa [Demultiplexer.queue] using hother .read (by simp)
    | succ i =>
      have hzero : ∀ d', (x.queue d').count o = 0 := fun d' =>
        List.count_eq_zero_of_not_mem fun ho => absurd (h 0 x rfl d' ho).1 (by simp)
      have hr := hzero .read
      have hw := hzero .write
      simp only [Demultiplexer.queue] at hr hw
      rw [hr, hw, Nat.zero_add, List.getElem?_cons_succ]
      exact ih (fun j y hj d' ho => by simpa using h (j + 1) y (by simpa using hj) d' ho)

theorem pending_eq_count_queue (hs : Sane s) (ho : Owned s) {o : TaskId} {fd : Fd} {d : Direction}
    (ht : target s o = some (d.trigger, fd)) :
    pending s.mux.demux o = (s.mux.queue fd d).count o := by
  apply pending_eq_count
  intro j x hj d' hx
  have hlt : j < 2 ^ 31 := Nat.lt_of_lt_of_le (List.getElem?_eq_some_iff.mp hj).1 ho.room
  rw [← toSize_ofNat hlt] at hj ⊢
  rw [← queue_of_getElem? hj] at hx
  have hq := hs.queued _ d' o hx
  rw [ht] at hq
  injection hq with hq
  injection hq with htr hfd
  exact ⟨by rw [hfd], (Direction.trigger_injective htr).symm⟩

theorem Accounted.place (hs : Accounted s) {o : TaskId} (hq : o ∈ queuedOrder s.history) :
    ∃ (fd : Fd) (d : Direction), target s o = some (d.trigger, fd) ∧
      (s.mux.queue fd d).count o + (readyTasks s.waits).count o +
        (executedOrder s.history).count o = 1 ∧
      ∀ fd' d', o ∈ s.mux.queue fd' d' → fd' = fd ∧ d' = d := by
  obtain ⟨op, hop, -, d, ht⟩ := hs.queuedOnce.started o hq
  have htarget : target s o = some (d.trigger, descriptor s.handles op.socket) := by
    rw [target_of_getElem? hop, ht]
  refine ⟨_, d, htarget, ?_, fun fd' d' hm => ?_⟩
  · have hone : (queuedOrder s.history).count o = 1 :=
      Nat.le_antisymm (hs.queuedOnce.once o) (List.count_pos_iff.mpr hq)
    rw [← pending_eq_count_queue hs.sane hs.owned htarget, hs.balanced o, hone]
  · have hm := hs.sane.queued fd' d' o hm
    rw [htarget] at hm
    injection hm with hm
    injection hm with htr hfd
    exact ⟨hfd.symm, (Direction.trigger_injective htr).symm⟩

theorem run_accounted {config : Config} {tr : List Action} (h : run config tr = .ok s)
    (hn : ¬Threw s) :
    Accounted s := by
  refine Runs.run_invariant (fun t => ¬Threw t → Accounted t) ?_ h
    (fun _ => accounted_initial config) hn
  intro t a t' ht hstep hn'
  have hst := step_spec hstep
  exact accounted_step (ht (mt (threw_step hst) hn')) hn' hst

end AsyncBerkeley.Conservation
