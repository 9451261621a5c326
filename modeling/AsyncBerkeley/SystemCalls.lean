import AsyncBerkeley.Receivers
import AsyncBerkeley.ErrorRecords

namespace AsyncBerkeley.SystemCalls

open ListUpdates Events InterestList SocketHandles PollMultiplexer Operations Executor Steps
  Evolution Lifetimes ReactorRuns Receivers ErrorRecords

/-- What the system call of a functor returns when it succeeds. The functor of
`connect` makes none. -/
def yields (s : State) (func : Completion) (answers : List Answer) : List Value :=
  match func, retry answers with
  | .accept address, some (.accepted _ socklen true) =>
    [.dialog s.handles.length (address.subspan 0 socklen)]
  | .recvmsg, some (.transferred len) | .sendmsg, some (.transferred len)
  | .user, some (.transferred len) =>
    [.length len]
  | _, _ => []

/-- The system call that a step makes for an operation and that succeeds: when it
is issued, or when its task is executed and its socket has no hard error. -/
def resultsIn (o : TaskId) (s : State) : Action → List Value
  | .accept _ address answers =>
    if o = s.ops.length ∧ attempts s s.config.eagerAccept then
      yields s (.accept address) answers else []
  | .recvmsg _ answers =>
    if o = s.ops.length ∧ attempts s s.config.eagerRecv then yields s .recvmsg answers else []
  | .sendmsg _ answers =>
    if o = s.ops.length ∧ attempts s s.config.eagerSend then yields s .sendmsg answers else []
  | .execute w answers =>
    if (readyOf s w).head? = some o then
      match s.ops[o]? with
      | some op => if hard (errorOf s.handles op.socket) then [] else yields s op.func answers
      | none => []
    else []
  | _ => []

def results (config : Config) (tr : List Action) (o : TaskId) : List Value :=
  Runs.collect step (resultsIn o) (initial config) tr

def resultOf (op : Operation) : List Value :=
  match op.func, op.status with
  | .value v, _ => [v]
  | .connect, _ => []
  | _, .completed (.setValue v) => [v]
  | _, _ => []

variable {s s' : State} {a : Action} {o : TaskId} {op : Operation} {config : Config}
  {tr : List Action}

theorem resultOf_value {v : Value} (h : op.func = .value v) : resultOf op = [v] := by
  rw [resultOf, h]

theorem resultOf_of_status (hv : ∀ v, op.func ≠ .value v)
    (hs : ∀ v, op.status ≠ .completed (.setValue v)) :
    resultOf op = [] := by
  unfold resultOf
  split
  · next hf => exact absurd hf (hv _)
  · rfl
  · next hst _ _ => exact absurd hst (hs _)
  · rfl

theorem resultOf_delivered {v : Value} (hv : ∀ v, op.func ≠ .value v) (hc : op.func ≠ .connect)
    (hs : op.status = .completed (.setValue v)) : resultOf op = [v] := by
  unfold resultOf
  split
  · next hf => exact absurd hf (hv _)
  · next hf => exact absurd hf hc
  · next hst _ _ =>
    rw [hs] at hst
    cases hst
    rfl
  · next hst => exact absurd hs (hst v)

theorem resultOf_congr {new : Operation} (hf : new.func = op.func)
    (hs : ∀ v, op.status ≠ .completed (.setValue v))
    (hs' : ∀ v, new.status ≠ .completed (.setValue v)) :
    resultOf new = resultOf op := by
  by_cases hv : ∃ v, op.func = .value v
  · obtain ⟨v, hv⟩ := hv
    rw [resultOf_value hv, resultOf_value (hf.trans hv)]
  · have hv : ∀ v, op.func ≠ .value v := fun v he => hv ⟨v, he⟩
    rw [resultOf_of_status hv hs, resultOf_of_status (fun v => hf ▸ hv v) hs']

/-- What an operation that is issued holds is what its system call has returned. -/
structure Performs (s s' : State) (a : Action) : Prop where
  made : (s'.ops = s.ops ∧ ∀ o, resultsIn o s a = []) ∨ ∃ op, s'.ops = s.ops ++ [op] ∧
    op.status = .created ∧
    (∀ v, op.func = .value v → op.trigger = .EAGER) ∧
      ∀ o, resultsIn o s a = if o = s.ops.length then resultOf op else []
  handles : ∀ o x address, Value.dialog x address ∈ resultsIn o s a →
    s'.handles.length = s.handles.length + 1

theorem performs_idle (ho : s'.ops = s.ops) (hr : ∀ o, resultsIn o s a = []) : Performs s s' a := by
  refine ⟨.inl ⟨ho, hr⟩, fun o x address hm => ?_⟩
  rw [hr] at hm
  cases hm

theorem performs_setSender {s₁ : State} {socket : HandleId} {trigger : ExecutionTrigger}
    {func : Completion} (ho : s₁.ops = s.ops) (hv : ∀ v, func = .value v → trigger = .EAGER)
    (hr : ∀ o, resultsIn o s a = if o = s.ops.length then
      resultOf { func := func, socket := socket, trigger := trigger } else [])
    (hh : ∀ o x address, Value.dialog x address ∈ resultsIn o s a →
      s₁.handles.length = s.handles.length + 1) :
    Performs s (setSender s₁ socket trigger func) a :=
  ⟨.inr ⟨_, by rw [setSender, ho], rfl, hv, hr⟩, hh⟩

theorem performs_empty {s₁ : State} {socket : HandleId} {trigger : ExecutionTrigger}
    {func : Completion} (ho : s₁.ops = s.ops) (hv : ∀ v, func ≠ .value v)
    (hr : ∀ o, resultsIn o s a = []) :
    Performs s (setSender s₁ socket trigger func) a := by
  refine performs_setSender ho (fun v he => absurd he (hv v)) (fun o => ?_)
    (fun o x address hm => ?_)
  · rw [hr, resultOf_of_status hv (by simp), ite_self]
  · rw [hr] at hm
    cases hm

theorem attempt_performs {eager : Bool} {socket : HandleId} {trigger : ExecutionTrigger}
    {func : Completion} {answers : List Answer} {succeed : State → Answer → Except Fault State}
    (hv : ∀ v, func ≠ .value v)
    (hr : ∀ o, resultsIn o s a = if o = s.ops.length ∧ attempts s eager then
      yields s func answers else [])
    (hs : ∀ answer, retry answers = some answer →
      (∀ o, resultsIn o s a = if o = s.ops.length then yields s func answers else []) →
      succeed { s with counter := s.counter + 1#8 } answer = .ok s' → Performs s s' a)
    (h : attempt s eager socket trigger func answers succeed = .ok s') : Performs s s' a := by
  unfold attempt at h
  split at h
  · cases h
  · split at h
    · next he =>
      split at h
      · cases h
      · next errno hf =>
        have hnone : ∀ o, resultsIn o s a = [] := by
          intro o
          have hy : yields s func answers = [] := by
            unfold yields
            rw [hf]
            split <;> simp_all
          rw [hr, hy, ite_self]
        simp only at h
        split at h
        · cases h
          exact performs_empty rfl (by simp) hnone
        · cases h
          exact performs_empty rfl hv hnone
      · next answer hf hr' =>
        refine hs _ hr' (fun o => ?_) h
        have ha : attempts s eager = true := he
        simp [hr, ha]
    · next he =>
      cases h
      refine performs_empty rfl hv fun o => ?_
      have ha : ¬attempts s eager = true := he
      simp [hr, ha]

theorem acceptSucceed_performs {socket : HandleId} {address : Span} {answers : List Answer}
    {answer : Answer} (hr : retry answers = some answer)
    (hres : ∀ o, resultsIn o s a = if o = s.ops.length then
      yields s (.accept address) answers else [])
    (h : acceptSucceed socket address { s with counter := s.counter + 1#8 } answer = .ok s') :
    Performs s s' a := by
  unfold acceptSucceed at h
  split at h
  · next fd socklen nonblocking =>
    split at h
    · cases h
    · split at h
      · next hn =>
        subst hn
        cases h
        refine performs_setSender rfl (fun _ _ => rfl) (fun o => ?_)
          (fun _ _ _ _ => by simp [adopt])
        have hy : yields s (.accept address) answers =
            [.dialog s.handles.length (address.subspan 0 socklen)] := by
          unfold yields
          rw [hr]
        rw [hres, hy]
        rfl
      · next hn =>
        cases h
        have hnone : ∀ o, resultsIn o s a = [] := by
          intro o
          have hy : yields s (.accept address) answers = [] := by
            unfold yields
            rw [hr, Bool.eq_false_iff.mpr hn]
          rw [hres, hy, ite_self]
        exact performs_idle rfl hnone
  · cases h

theorem transferSucceed_performs {socket : HandleId} {func : Completion} {answers : List Answer}
    {answer : Answer} (hf : func = .recvmsg ∨ func = .sendmsg) (hr : retry answers = some answer)
    (hres : ∀ o, resultsIn o s a = if o = s.ops.length then yields s func answers else [])
    (h : transferSucceed socket { s with counter := s.counter + 1#8 } answer = .ok s') :
    Performs s s' a := by
  unfold transferSucceed at h
  split at h
  · next len =>
    cases h
    have hy : yields s func answers = [.length len] := by
      unfold yields
      obtain rfl | rfl := hf <;> rw [hr]
    refine performs_setSender rfl (fun _ _ => rfl) (fun o => ?_) (fun o x address hm => ?_)
    · rw [hres, hy]
      rfl
    · rw [hres, hy] at hm
      split at hm <;> simp at hm
  · cases h

theorem issue_performs (hi : issues a = true) (h : step s a = .ok s') : Performs s s' a := by
  cases a with
  | accept socket address answers =>
    exact attempt_performs (by simp) (fun _ => rfl)
      (fun _ hr hres h => acceptSucceed_performs hr hres h) h
  | recvmsg socket answers =>
    exact attempt_performs (by simp) (fun _ => rfl)
      (fun _ hr hres h => transferSucceed_performs (.inl rfl) hr hres h) h
  | sendmsg socket answers =>
    exact attempt_performs (by simp) (fun _ => rfl)
      (fun _ hr hres h => transferSucceed_performs (.inr rfl) hr hres h) h
  | connectDialog socket answers =>
    simp only [step, connectDialog] at h
    split at h
    · cases h
    · split at h
      · cases h
        exact performs_empty rfl (by simp) fun _ => rfl
      · cases h
        exact performs_empty rfl (by simp) fun _ => rfl
      · cases h
  | set socket d =>
    simp only [step, setUser] at h
    split at h
    · cases h
      exact performs_empty rfl (by simp) fun _ => rfl
    · cases h
  | emplace fd =>
    simp only [step, emplace] at h
    split at h
    · cases h
      exact performs_idle rfl fun _ => rfl
    · cases h
  | copyDialog socket =>
    simp only [step, copyDialog] at h
    split at h
    · cases h
      exact performs_idle rfl fun _ => rfl
    · cases h
  | dropDialog socket =>
    simp only [step, dropDialog] at h
    split at h
    · cases h
      exact performs_idle rfl fun _ => rfl
    · cases h
  | _ => cases hi

theorem yields_congr {t : State} (h : t.handles = s.handles) (func : Completion)
    (answers : List Answer) :
    yields t func answers = yields s func answers := by
  unfold yields
  rw [h]

theorem invoke_yields {t : State} {func : Completion} {answers : List Answer}
    {r : Except Errno Value} (hv : ∀ v, func ≠ .value v) (hc : func ≠ .connect)
    (h : invoke s func answers = .ok (t, r)) :
    (∃ errno, r = .error errno ∧ yields s func answers = []) ∨
      ∃ v, r = .ok v ∧ yields s func answers = [v] ∧
        ∀ x address, v = .dialog x address → t.handles.length = s.handles.length + 1 := by
  have transferred : ∀ {len : Nat}, yields s func answers = [.length len] →
      ∃ v, Except.ok (.length len) = (.ok v : Except Errno Value) ∧ yields s func answers = [v] ∧
        ∀ x address, v = .dialog x address → s.handles.length = s.handles.length + 1 :=
    fun hy => ⟨_, rfl, hy, by simp⟩
  unfold invoke at h
  split at h
  · cases h
  · exact absurd rfl (hv _)
  · exact absurd rfl hc
  · next errno _ _ _ hr =>
    cases h
    refine .inl ⟨errno, rfl, ?_⟩
    unfold yields
    split <;> simp_all
  · next hr =>
    split at h
    · cases h
    · split at h
      · next hn =>
        cases h
        refine .inr ⟨_, rfl, ?_, fun _ _ _ => by simp [adopt]⟩
        unfold yields
        rw [hr, hn]
      · cases h
  · next hr =>
    cases h
    exact .inr (transferred (by unfold yields; rw [hr]))
  · next hr =>
    cases h
    exact .inr (transferred (by unfold yields; rw [hr]))
  · next hr =>
    cases h
    exact .inr (transferred (by unfold yields; rw [hr]))
  · cases h

/-- The completion of an operation adds the result of the system call that its
functor makes; what it held before is lost only to a hard error. -/
structure Adds (s s' : State) (o : TaskId) (op : Operation) (answers : List Answer)
    (outcome : Outcome) : Prop where
  ops : s'.ops = s.ops.set o { op with status := .completed outcome }
  result : resultOf { op with status := .completed outcome } =
    resultOf op ++ (if hard (errorOf s.handles op.socket) then [] else yields s op.func answers)
  own : ∀ v v', op.func = .value v → outcome = .setValue v' → v' = v
  lost : ∀ v error, op.func = .value v → outcome = .setError error → hard error = true
  handles : ∀ x address, hard (errorOf s.handles op.socket) = false →
    .dialog x address ∈ yields s op.func answers → s'.handles.length = s.handles.length + 1

theorem adds_hard (hs : ∀ v, op.status ≠ .completed (.setValue v))
    (hh : hard (errorOf s.handles op.socket) = true) (answers : List Answer) :
    Adds s (settle (discardResult s op.func) o op (.setError (errorOf s.handles op.socket)))
      o op answers (.setError (errorOf s.handles op.socket)) where
  ops := by
    unfold discardResult settle
    split <;> rfl
  result := by
    rw [if_pos hh, List.append_nil]
    exact resultOf_congr rfl hs (by simp)
  own := by simp
  lost := by
    rintro v error - he
    cases he
    exact hh
  handles := by
    intro x address hn
    rw [hh] at hn
    cases hn

theorem adds_silent {v : Value} (hf : op.func = .value v ∨ op.func = .connect ∧ v = .status 0)
    (answers : List Answer) : Adds s (settle s o op (.setValue v)) o op answers (.setValue v) where
  ops := rfl
  result := by
    obtain hf | ⟨hf, -⟩ := hf <;> simp [resultOf, yields, hf]
  own := by
    rintro w w' hw ⟨⟩
    obtain hf | ⟨hf, -⟩ := hf <;> rw [hf] at hw <;> cases hw
    rfl
  lost := by simp
  handles := by
    intro x address _ hm
    obtain hf | ⟨hf, -⟩ := hf <;> simp [hf, yields] at hm

theorem adds_called {t : State} {answers : List Answer} {r : Except Errno Value} {outcome : Outcome}
    (hs : ∀ v, op.status ≠ .completed (.setValue v))
    (hh : ¬hard (errorOf s.handles op.socket) = true) (hv : ∀ v, op.func ≠ .value v)
    (hc : op.func ≠ .connect) (h : invoke s op.func answers = .ok (t, r))
    (ho : (∃ v, r = .ok v ∧ outcome = .setValue v) ∨ ∃ errno : Errno,
      r = .error errno ∧ outcome = .setError errno) :
    Adds s (settle t o op outcome) o op answers outcome where
  ops := by rw [settle, invoke_ops h]
  result := by
    rw [if_neg hh, resultOf_of_status hv hs, List.nil_append]
    obtain ⟨errno, rfl, hy⟩ | ⟨v, rfl, hy, -⟩ := invoke_yields hv hc h
    · obtain ⟨v, hr, -⟩ | ⟨errno', -, rfl⟩ := ho
      · cases hr
      · rw [hy]
        exact resultOf_of_status hv (by simp)
    · obtain ⟨v', hr, rfl⟩ | ⟨errno', hr, -⟩ := ho <;> cases hr
      rw [hy]
      exact resultOf_delivered hv hc rfl
  own := fun v _ hf => absurd hf (hv v)
  lost := fun v _ hf => absurd hf (hv v)
  handles := by
    intro x address _ hm
    obtain ⟨errno, -, hy⟩ | ⟨v, -, hy, hd⟩ := invoke_yields hv hc h
    · rw [hy] at hm
      cases hm
    · rw [hy] at hm
      exact hd x address (List.mem_singleton.mp hm).symm

theorem complete_adds {answers : List Answer} (h : complete s o op answers = .ok s')
    (hs : ∀ v, op.status ≠ .completed (.setValue v)) :
    ∃ outcome, Adds s s' o op answers outcome := by
  unfold complete at h
  split at h
  · next hh =>
    cases h
    exact ⟨_, adds_hard hs hh answers⟩
  · next hh =>
    by_cases hv : ∃ v, op.func = .value v
    · obtain ⟨v, hf⟩ := hv
      simp only [hf, invoke] at h
      cases h
      exact ⟨_, adds_silent (.inl hf) answers⟩
    · rw [not_exists] at hv
      by_cases hc : op.func = .connect
      · simp only [hc, invoke] at h
        cases h
        exact ⟨_, adds_silent (.inr ⟨hc, rfl⟩) answers⟩
      · split at h
        · cases h
        · next hi =>
          cases h
          exact ⟨_, adds_called hs hh hv hc hi (.inl ⟨_, rfl, rfl⟩)⟩
        · next hi =>
          cases h
          exact ⟨_, adds_called hs hh hv hc hi (.inr ⟨_, rfl, rfl⟩)⟩

theorem execute_adds {w : Nat} {answers : List Answer} (hr : run config tr = .ok s)
    (h : step s (.execute w answers) = .ok s') : ∃ o op t outcome, (readyOf s w).head? = some o ∧
      s.ops[o]? = some op ∧ t.ops = s.ops ∧ t.handles = s.handles ∧
        Adds t s' o op answers outcome := by
  cases step_spec h with
  | issue hi _ => cases hi
  | @execute _ _ wait o ready op _ hw hready hop _ =>
    have hhead : (readyOf s w).head? = some o := by simp [readyOf_eq hw, hready]
    have hst := located_queued hr (p := .ready w) (List.mem_of_mem_head? hhead) (by simp) hop
    obtain ⟨outcome, hadds⟩ := complete_adds (execute_complete h hw hready hop) (by simp [hst])
    refine ⟨o, op, _, outcome, hhead, hop, ?_, ?_, hadds⟩
    · rfl
    · rfl

def held (s : State) (o : TaskId) : List Value := (s.ops[o]?.map resultOf).getD []

theorem held_set {o' : TaskId} {new : Operation} (hop : s.ops[o]? = some op)
    (hs' : s'.ops = s.ops.set o new) :
    held s' o' = if o' = o then resultOf new else held s o' := by
  obtain ⟨hlt, -⟩ := List.getElem?_eq_some_iff.mp hop
  unfold held
  rw [hs']
  split
  · next he => simp [he, hlt]
  · next he => rw [List.getElem?_set_ne (Ne.symm he)]

theorem held_eq (hop : s.ops[o]? = some op) : held s o = resultOf op := by
  simp [held, hop]

theorem held_of_set {o' : TaskId} {new : Operation} (hop : s.ops[o]? = some op)
    (hs' : s'.ops = s.ops.set o new) (hr : resultOf new = resultOf op ++ resultsIn o s a)
    (hn : ∀ o', o' ≠ o → resultsIn o' s a = []) :
    held s' o' = held s o' ++ resultsIn o' s a := by
  rw [held_set hop hs']
  split
  · next he =>
    subst he
    rw [held_eq hop, hr]
  · next he => rw [hn o' he, List.append_nil]

theorem step_results (hr : run config tr = .ok s) (h : step s a = .ok s') (o : TaskId) :
    held s' o = held s o ++ resultsIn o s a := by
  cases step_spec h with
  | issue hi _ =>
    obtain ⟨hops, hnone⟩ | ⟨op, hops, -, -, hnew⟩ := (issue_performs hi h).made
    · rw [hnone, List.append_nil, held, held, hops]
    · rw [hnew, held, held, hops]
      obtain hlt | rfl | hlt := Nat.lt_trichotomy o s.ops.length
      · simp [List.getElem?_append_left hlt, Nat.ne_of_lt hlt]
      · simp
      · have hnone : (s.ops ++ [op])[o]? = none :=
          List.getElem?_eq_none (by rw [List.length_append]; exact hlt)
        simp [hnone, List.getElem?_eq_none (Nat.le_of_lt hlt), Nat.ne_of_gt hlt]
  | register hop hs _ _ _ | abandon hop hs | idle hop hs _ | queue hop hs _ _ _ =>
    refine held_of_set hop rfl ?_ fun _ _ => rfl
    simp only [resultsIn, List.append_nil]
    exact resultOf_congr rfl (by simp [hs]) (by simp)
  | inline hop hs he _ =>
    obtain ⟨outcome, hadds⟩ := complete_adds (start_complete h hop he) (by simp [hs])
    refine held_of_set hop hadds.ops ?_ fun _ _ => rfl
    have hy : ∀ func, yields s func [] = [] := fun func => by cases func <;> rfl
    simpa [resultsIn, hy] using hadds.result
  | execute _ _ _ _ =>
    obtain ⟨o', op, t, outcome, hhead, hop, hops, hh, hadds⟩ := execute_adds hr h
    refine held_of_set hop (hadds.ops.trans (by rw [hops])) ?_ fun o'' hne => ?_
    · have hadd := hadds.result
      rw [hh, yields_congr hh] at hadd
      simp only [resultsIn, hhead, hop, if_true]
      exact hadd
    · simp [resultsIn, hhead, Ne.symm hne]
  | snapshot | polled _ _ _ _ | pollThrew _ _ | passed _ _ _ | passThrew _ _ _ | finish _ _ _ =>
    exact (List.append_nil _).symm

theorem run_results (h : run config tr = .ok s) (o : TaskId) : results config tr o = held s o := by
  refine Runs.run_induction (fun tr s => results config tr o = held s o) ?_ ?_ h
  · rfl
  · intro tr u a v hu ha hi
    rw [step_results hu ha, ← hi]
    exact Runs.collect_snoc _ hu ha

structure Eager (op : Operation) (v : Value) : Prop where
  trigger : op.trigger = .EAGER
  idle : op.status ≠ .queued
  own : ∀ v', op.status = .completed (.setValue v') → v' = v
  lost : ∀ error, op.status = .completed (.setError error) → hard error = true

def AllEager (s : State) : Prop :=
  ∀ (o : TaskId) (op : Operation) (v : Value), s.ops[o]? = some op → op.func = .value v → Eager op v

theorem eager_set {new : Operation} (hi : AllEager s) (hop : s.ops[o]? = some op)
    (hs' : s'.ops = s.ops.set o new) (hf : new.func = op.func)
    (hn : ∀ v, op.func = .value v → Eager op v → Eager new v) : AllEager s' := by
  intro o' op' v hop' hv
  rw [hs'] at hop'
  obtain ⟨-, rfl⟩ | ⟨-, hop'⟩ := getElem?_set_cases hop'
  · rw [hf] at hv
    exact hn v hv (hi o op v hop hv)
  · exact hi o' op' v hop' hv

theorem eager_adds {t : State} {answers : List Answer} {outcome : Outcome} (hi : AllEager s)
    (hop : s.ops[o]? = some op) (ht : t.ops = s.ops) (h : Adds t s' o op answers outcome) :
    AllEager s' := by
  have hops := h.ops
  rw [ht] at hops
  refine eager_set hi hop hops ?_ fun v hv he => ⟨?_, ?_, fun v' hst => ?_, fun error hst => ?_⟩
  · rfl
  · exact he.trigger
  · simp
  · exact h.own v v' hv (Status.completed.inj hst)
  · exact h.lost v error hv (Status.completed.inj hst)

theorem step_eager (hr : run config tr = .ok s) (hi : AllEager s) (h : step s a = .ok s') :
    AllEager s' := by
  cases step_spec h with
  | issue his _ =>
    obtain ⟨hops, -⟩ | ⟨new, hops, hst, he, -⟩ := (issue_performs his h).made
    · exact fun o op v hop => hi o op v (hops ▸ hop)
    · intro o op v hop hv
      rw [hops] at hop
      obtain hm | hm := List.mem_append.mp (List.mem_of_getElem? hop)
      · obtain ⟨o', hop'⟩ := List.mem_iff_getElem?.mp hm
        exact hi o' op v hop' hv
      · rw [List.mem_singleton.mp hm] at hv ⊢
        exact ⟨he v hv, by simp [hst], by simp [hst], by simp [hst]⟩
  | register hop _ _ _ _ | abandon hop _ | idle hop _ _ =>
    refine eager_set hi hop rfl ?_ fun v hv he => ?_
    · rfl
    · exact ⟨he.trigger, by simp, by simp, by simp⟩
  | @queue _ _ d _ _ hop _ ht _ _ =>
    refine eager_set hi hop rfl ?_ fun v hv he => ?_
    · rfl
    · rw [he.trigger] at ht
      cases d <;> cases ht
  | inline hop hs he _ =>
    obtain ⟨outcome, hadds⟩ := complete_adds (start_complete h hop he) (by simp [hs])
    exact eager_adds hi hop rfl hadds
  | execute _ _ _ _ =>
    obtain ⟨o, op, t, outcome, -, hop, hops, -, hadds⟩ := execute_adds hr h
    exact eager_adds hi hop hops hadds
  | snapshot | polled _ _ _ _ | pollThrew _ _ | passed _ _ _ | passThrew _ _ _ | finish _ _ _ =>
    exact hi

theorem run_eager (h : run config tr = .ok s) : AllEager s := by
  refine Runs.run_induction (fun _ s => AllEager s) ?_
    (fun tr u a v hu ha hi => step_eager hu hi ha) h
  simp [AllEager, initial]

theorem resultsIn_unique {o' : TaskId} {v v' : Value} (hv : v ∈ resultsIn o s a)
    (hv' : v' ∈ resultsIn o' s a) :
    o = o' := by
  cases a with
  | accept _ _ _ | recvmsg _ _ | sendmsg _ _ =>
    simp only [resultsIn] at hv hv'
    split at hv
    · next h =>
      split at hv'
      · next h' => exact h.1.trans h'.1.symm
      · cases hv'
    · cases hv
  | execute w answers =>
    simp only [resultsIn] at hv hv'
    split at hv
    · next h =>
      split at hv'
      · next h' => exact Option.some.inj (h.symm.trans h')
      · cases hv'
    · cases hv
  | _ => cases hv

theorem yields_dialog {func : Completion} {answers : List Answer} {x : HandleId} {address : Span}
    (h : .dialog x address ∈ yields s func answers) : x = s.handles.length := by
  unfold yields at h
  split at h <;> simp_all

theorem resultsIn_dialog {x : HandleId} {address : Span} (h : .dialog x address ∈ resultsIn o s a) :
    x = s.handles.length := by
  cases a with
  | accept _ _ _ | recvmsg _ _ | sendmsg _ _ =>
    simp only [resultsIn] at h
    split at h
    · exact yields_dialog h
    · cases h
  | execute w answers =>
    simp only [resultsIn] at h
    split at h
    · split at h
      · split at h
        · cases h
        · exact yields_dialog h
      · cases h
    · cases h
  | _ => cases h

theorem step_accepts {x : HandleId} {address : Span} (hr : run config tr = .ok s)
    (h : step s a = .ok s') (hd : .dialog x address ∈ resultsIn o s a) : x < s'.handles.length := by
  have hx := resultsIn_dialog hd
  subst hx
  cases step_spec h with
  | issue hi _ =>
    rw [(issue_performs hi h).handles o _ address hd]
    exact Nat.lt_succ_self _
  | execute _ _ _ _ =>
    obtain ⟨o', op, t, outcome, hhead, hop, -, hh, hadds⟩ := execute_adds hr h
    have hlen := hadds.handles s.handles.length address
    rw [hh, yields_congr hh] at hlen
    simp only [resultsIn, hhead, Option.some.injEq] at hd
    split at hd
    · next he =>
      subst he
      simp only [hop] at hd
      split at hd
      · cases hd
      · next hn =>
        rw [hlen (Bool.eq_false_iff.mpr hn) hd]
        exact Nat.lt_succ_self _
    · cases hd
  | _ => cases hd

structure Accepted (config : Config) (tr : List Action) (s : State) : Prop where
  known : ∀ o x address, .dialog x address ∈ results config tr o → x < s.handles.length
  distinct : ∀ o o' x address address', .dialog x address ∈ results config tr o →
    .dialog x address' ∈ results config tr o' → o = o'

theorem run_accepted (h : run config tr = .ok s) : Accepted config tr s := by
  refine Runs.run_induction (fun tr s => Accepted config tr s) ⟨?_, ?_⟩ ?_ h
  · intro o x address hm
    cases hm
  · intro o o' x address address' hm
    cases hm
  · intro tr u a v hu ha hi
    have hsnoc : ∀ o, results config (tr ++ [a]) o = results config tr o ++ resultsIn o u a :=
      fun o => Runs.collect_snoc _ hu ha
    have hle := length_le_of_grows (step_grows (step_spec ha))
    -- a connection that is accepted in this step was not known before
    have new : ∀ {o o' x address address'}, .dialog x address ∈ results config tr o →
        .dialog x address' ∉ resultsIn o' u a := by
      intro o o' x address address' hm hm'
      have hlt := hi.known o x address hm
      rw [resultsIn_dialog hm'] at hlt
      exact Nat.lt_irrefl _ hlt
    refine ⟨fun o x address hm => ?_, fun o o' x address address' hm hm' => ?_⟩
    · rw [hsnoc] at hm
      obtain hm | hm := List.mem_append.mp hm
      · exact Nat.lt_of_lt_of_le (hi.known o x address hm) hle
      · exact step_accepts hu ha hm
    · rw [hsnoc] at hm hm'
      obtain hm | hm := List.mem_append.mp hm <;> obtain hm' | hm' := List.mem_append.mp hm'
      · exact hi.distinct o o' x address address' hm hm'
      · exact absurd hm' (new hm)
      · exact absurd hm (new hm')
      · exact resultsIn_unique hm hm'

theorem length_resultOf (op : Operation) : (resultOf op).length ≤ 1 := by
  unfold resultOf
  split <;> simp

/-- Operations do their input and output at most once. One that is completed with a
value has made one system call that succeeded, which returned this value, except
for a connection, whose functor makes no call; one that is queued has made none;
and one that fails has made none either, unless a hard error of its socket came
before an eager result was delivered. An accepted connection is the result of one
operation only. -/
theorem calls_succeed_once (config : Config) (tr : List Action) {s : State}
    (h : run config tr = .ok s) (o : TaskId) (op : Operation) (hop : s.ops[o]? = some op) :
    (∀ v, op.status = .completed (.setValue v) → op.func ≠ .connect → results config tr o = [v]) ∧
    (op.status = .queued → results config tr o = []) ∧
    (∀ error, op.status = .completed (.setError error) → results config tr o = [] ∨
      hard error = true ∧ ∃ v, op.func = .value v ∧ results config tr o = [v]) ∧
    (results config tr o).length ≤ 1 ∧
    ∀ o' x address address', .dialog x address ∈ results config tr o →
      .dialog x address' ∈ results config tr o' → o = o' := by
  have hres : results config tr o = resultOf op := (run_results h o).trans (held_eq hop)
  have he := run_eager h o op
  have hd := (run_accepted h).distinct o
  by_cases hv : ∃ v, op.func = .value v
  · obtain ⟨v, hv⟩ := hv
    have he := he v hop hv
    have hone : results config tr o = [v] := hres.trans (resultOf_value hv)
    refine ⟨fun v' hst _ => ?_, fun hst => absurd hst he.idle,
      fun error hst => ?_, by simp [hone], hd⟩
    · rw [hone, he.own v' hst]
    · exact .inr ⟨he.lost error hst, v, hv, hone⟩
  · rw [not_exists] at hv
    have hnone : (∀ v, op.status ≠ .completed (.setValue v)) → results config tr o = [] :=
      fun hst => hres.trans (resultOf_of_status hv hst)
    refine ⟨fun v hst hc => ?_, fun hst => ?_, fun error hst => .inl ?_, ?_, hd⟩
    · rw [hres]
      exact resultOf_delivered hv hc hst
    · exact hnone (by simp [hst])
    · exact hnone (by simp [hst])
    · rw [hres]
      exact length_resultOf op

theorem calls_succeed_once_lost : ∃ tr s op, run {} tr = .ok s ∧ s.ops[0]? = some op ∧
    op.status = .completed (.setError 104) ∧ results {} tr 0 = [.length 3] ∧ results {} tr 1 = [] ∧
    (results {} tr 0 = [] ∨ hard 104 = true ∧ ∃ v, op.func = .value v ∧ results {} tr 0 = [v]) := by
  have h := calls_succeed_once {} [.emplace 5#32, .recvmsg 0 [.transferred 3],
    .sendmsg 0 [.failed ⟨11, by decide⟩], .connect 1, .start 1, .snapshot (-1),
    .poll 0 0 [.ready [POLLERR]], .pass 0 (fun _ => .ok 104), .execute 0 [], .connect 0,
    .start 0] rfl 0 _ rfl
  exact ⟨_, _, _, rfl, rfl, rfl, rfl, rfl, h.2.2.1 104 rfl⟩

end AsyncBerkeley.SystemCalls
