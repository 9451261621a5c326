import Mathlib.Data.List.Count
import Mathlib.Data.List.Perm.Basic
import AsyncBerkeley.EchoServer
import AsyncBerkeley.RecordedErrors

namespace AsyncBerkeley.Sessions

open ListUpdates Events InterestList SocketHandles PollMultiplexer Operations Steps Evolution
  Lifetimes ReactorRuns RecordedErrors MessageBuffers EchoServer
open Executor hiding step connect start execute initial

def undelivered : Completion → List HandleId
  | .value (.dialog socket _) => [socket]
  | _ => []

def delivered : Outcome → List HandleId
  | .setValue (.dialog socket _) => [socket]
  | _ => []

/-- The sockets that an operation keeps open until it is completed. -/
def keeps (op : Operation) : List HandleId :=
  if op.holds then op.socket :: undelivered op.func else []

/-- How often a socket is in use: by calls that are to be made, by operations,
or as a connection that is accepted and not yet delivered. -/
def activities (σ : Server) (x : HandleId) : Nat :=
  (σ.calls.map Call.socket).count x + (σ.executor.ops.map (fun op => (keeps op).count x)).sum

variable {s s' : State} {σ σ' : Server} {x : HandleId}

theorem undelivered_of_ne {func : Completion} (h : ∀ v, func ≠ .value v) :
    undelivered func = [] := by
  cases func with
  | value v => exact absurd rfl (h v)
  | _ => rfl

structure Made (s s' : State) (op : Operation) : Prop where
  ops : s'.ops = s.ops ++ [op]
  status : op.status = .created
  eager : ∀ v, op.func = .value v → op.trigger = .EAGER
  dialogs : s'.dialogs = s.dialogs ++ undelivered op.func
  fresh : ∀ x ∈ undelivered op.func, x = s.handles.length
  handles : s.handles.length ≤ s'.handles.length
  new : ∀ x ∈ undelivered op.func, x < s'.handles.length

theorem made_setSender {s₁ : State} {socket : HandleId} {trigger : ExecutionTrigger}
    {func : Completion} (ho : s₁.ops = s.ops) (hd : s₁.dialogs = s.dialogs)
    (hh : s₁.handles.length = s.handles.length) (hv : ∀ v, func = .value v → trigger = .EAGER)
    (hu : undelivered func = []) :
    Made s (setSender s₁ socket trigger func)
      { func := func, socket := socket, trigger := trigger } where
  ops := by rw [setSender, ho]
  status := rfl
  eager := hv
  dialogs := by simp [setSender, hd, hu]
  fresh := by simp [hu]
  handles := Nat.le_of_eq hh.symm
  new := by simp [hu]

theorem attempt_made {eager : Bool} {socket : HandleId} {trigger : ExecutionTrigger}
    {func : Completion} {answers : List Answer} {succeed : State → Answer → Except Fault State}
    (hf : ∀ v, func ≠ .value v) (h : attempt s eager socket trigger func answers succeed = .ok s') :
    (∃ op, Made s s' op ∧ op.socket = socket) ∨
      ∃ answer, succeed { s with counter := s.counter + 1#8 } answer = .ok s' := by
  have hu := undelivered_of_ne hf
  unfold attempt at h
  split at h
  · cases h
  · split at h
    · split at h
      · cases h
      · next errno _ =>
        have hlen : (recordError s.handles socket errno).length = s.handles.length :=
          length_recordError ..
        simp only at h
        split at h
        · cases h
          exact .inl ⟨_, made_setSender rfl rfl hlen (by simp) rfl, rfl⟩
        · cases h
          exact .inl ⟨_, made_setSender rfl rfl hlen (fun v hv => absurd hv (hf v)) hu, rfl⟩
      · exact .inr ⟨_, h⟩
    · cases h
      exact .inl ⟨_, made_setSender rfl rfl rfl (fun v hv => absurd hv (hf v)) hu, rfl⟩

theorem action_made {call : Call} {answers : List Answer}
    (h : Executor.step s (call.action answers) = .ok s') :
    (s'.ops = s.ops ∧ s'.dialogs = s.dialogs ∧ s'.handles.length = s.handles.length) ∨
      ∃ op, Made s s' op ∧ op.socket = call.socket := by
  have transferred : ∀ {socket : HandleId} {answer : Answer},
      transferSucceed socket { s with counter := s.counter + 1#8 } answer = .ok s' →
        ∃ op, Made s s' op ∧ op.socket = socket := by
    intro socket answer h
    unfold transferSucceed at h
    split at h
    · cases h
      exact ⟨_, made_setSender rfl rfl rfl (fun _ _ => rfl) rfl, rfl⟩
    · cases h
  cases call with
  | acceptor server =>
    obtain hm | ⟨answer, h⟩ := attempt_made (by simp) h
    · exact .inr hm
    · unfold acceptSucceed at h
      split at h
      · split at h
        · cases h
        · split at h
          · cases h
            exact .inr
              ⟨_, ⟨rfl, rfl, fun _ _ => rfl, rfl, by simp [undelivered], by simp [setSender, adopt],
              by simp [undelivered, setSender, adopt]⟩, rfl⟩
          · cases h
            exact .inl ⟨rfl, rfl, rfl⟩
      · cases h
  | reader client | writer client _ _ =>
    obtain hm | ⟨answer, h⟩ := attempt_made (by simp) h
    · exact .inr hm
    · exact .inr (transferred h)

theorem invoke_dialogs {t : State} {func : Completion} {answers : List Answer}
    {r : Except Errno Value} (h : invoke s func answers = .ok (t, r)) :
    (∃ errno, r = .error errno ∧ t = s ∧ undelivered func = []) ∨
      (∃ v, r = .ok v ∧ t = s ∧ delivered (.setValue v) = undelivered func) ∨
      ∃ fd address, r = .ok (.dialog s.handles.length address) ∧ t = adopt s fd ∧
        undelivered func = [] := by
  unfold invoke at h
  split at h
  · cases h
  · cases h
    refine .inr (.inl ⟨_, rfl, rfl, ?_⟩)
    unfold delivered undelivered
    split <;> simp_all
  · cases h
    exact .inr (.inl ⟨_, rfl, rfl, rfl⟩)
  · next hv _ _ =>
    cases h
    exact .inl ⟨_, rfl, rfl, undelivered_of_ne hv⟩
  · split at h
    · cases h
    · split at h
      · cases h
        exact .inr (.inr ⟨_, _, rfl, rfl, rfl⟩)
      · cases h
  · cases h
    exact .inr (.inl ⟨_, rfl, rfl, rfl⟩)
  · cases h
    exact .inr (.inl ⟨_, rfl, rfl, rfl⟩)
  · cases h
    exact .inr (.inl ⟨_, rfl, rfl, rfl⟩)
  · cases h

theorem complete_dialogs {o : TaskId} {op : Operation} {answers : List Answer}
    (h : complete s o op answers = .ok s') : ∃ outcome,
      s'.ops = s.ops.set o { op with status := .completed outcome } ∧
      ((delivered outcome = [] ∧ s'.dialogs = s.dialogs.diff (undelivered op.func)) ∨
        (delivered outcome = undelivered op.func ∧ s'.dialogs = s.dialogs) ∨
        (delivered outcome = [s.handles.length] ∧ undelivered op.func = [] ∧
          s'.dialogs = s.dialogs ++ [s.handles.length])) := by
  unfold complete at h
  split at h
  · cases h
    unfold discardResult settle
    cases op.func with
    | value v => cases v <;> exact ⟨_, rfl, .inl ⟨rfl, by simp [undelivered]⟩⟩
    | _ => exact ⟨_, rfl, .inl ⟨rfl, by simp [undelivered]⟩⟩
  · split at h
    · cases h
    · next hi =>
      cases h
      obtain ⟨errno, hr, -, -⟩ | ⟨v, hr, rfl, hu⟩ | ⟨fd, address, hr, rfl, hu⟩ :=
        invoke_dialogs hi <;> cases hr
      · exact ⟨_, rfl, .inr (.inl ⟨hu, rfl⟩)⟩
      · exact ⟨_, rfl, .inr (.inr ⟨rfl, hu, rfl⟩)⟩
    · next hi =>
      cases h
      obtain ⟨errno, hr, rfl, hu⟩ | ⟨v, hr, -, -⟩ | ⟨fd, address, hr, -, -⟩ :=
        invoke_dialogs hi <;> cases hr
      exact ⟨_, rfl, .inl ⟨rfl, by simp [settle, hu]⟩⟩

/-- Every dialog belongs to one activity, but for those that a continuation has
still to pass on or to drop. -/
structure Balanced (σ : Server) (held : List HandleId) : Prop where
  single : ∀ x, σ.executor.dialogs.count x ≤ 1
  used : ∀ x, σ.executor.dialogs.count x = activities σ x + held.count x
  sockets : σ.continuations.map Continuation.socket = σ.executor.ops.map Operation.socket
  values : ∀ op ∈ σ.executor.ops, ∀ v, op.func = .value v → op.trigger = .EAGER

theorem drop_eq (h : drop σ x = .ok σ') : x ∈ σ.executor.dialogs ∧
    σ' = { σ with executor := { σ.executor with dialogs := σ.executor.dialogs.erase x } } := by
  unfold drop dropDialog at h
  split at h
  · cases h
  · next hd =>
    split at hd
    · next hm =>
      cases hd
      cases h
      exact ⟨hm, rfl⟩
    · cases hd

theorem resume_cases {k : Continuation} {outcome : Outcome} (h : resume σ k outcome = .ok σ') :
    (delivered outcome = [] ∧ drop σ k.socket = .ok σ') ∨
      ∃ next, σ' = { σ with calls := next ++ σ.calls } ∧
        next.map Call.socket = delivered outcome ++ [k.socket] := by
  unfold resume at h
  split at h
  · cases h
    exact .inr ⟨[.reader _, .acceptor _], rfl, rfl⟩
  · split at h
    · exact .inl ⟨rfl, h⟩
    · cases h
      exact .inr ⟨[.writer _ _ _], rfl, rfl⟩
  · cases h
    refine .inr ⟨[_], rfl, ?_⟩
    split <;> rfl
  · exact .inl ⟨rfl, h⟩
  · cases h

theorem transfer_frame {o : TaskId} {len : Nat} {data : List Byte}
    (h : transfer σ o len data = .ok σ') :
    σ'.executor = σ.executor ∧ σ'.calls = σ.calls ∧
      σ'.continuations.map Continuation.socket = σ.continuations.map Continuation.socket := by
  unfold transfer at h
  split at h
  · next client msg buf hk =>
    split at h
    · cases h
      refine ⟨rfl, rfl, ?_⟩
      exact map_set_of_eq _ hk rfl
    · cases h
  · split at h
    · cases h
      exact ⟨rfl, rfl, rfl⟩
    · cases h
  · cases h

theorem drop_balanced (hb : Balanced σ [x]) (h : drop σ x = .ok σ') : Balanced σ' [] := by
  obtain ⟨hm, rfl⟩ := drop_eq h
  have hcount : ∀ y,
      (σ.executor.dialogs.erase x).count y + [x].count y = σ.executor.dialogs.count y := by
    intro y
    have hp := (List.perm_cons_erase hm).count_eq y
    rw [← List.singleton_append, List.count_append] at hp
    omega
  refine ⟨fun y => ?_, fun y => ?_, hb.sockets, hb.values⟩
  · exact Nat.le_trans (Nat.le.intro (hcount y)) (hb.single y)
  · have hc := hcount y
    have hu := hb.used y
    change (σ.executor.dialogs.erase x).count y = activities σ y
    omega

theorem resume_balanced {k : Continuation} {outcome : Outcome}
    (hb : Balanced σ (delivered outcome ++ [k.socket])) (h : resume σ k outcome = .ok σ') :
    Balanced σ' [] := by
  obtain ⟨hd, hdrop⟩ | ⟨next, rfl, hnext⟩ := resume_cases h
  · rw [hd, List.nil_append] at hb
    exact drop_balanced hb hdrop
  · refine ⟨hb.single, fun x => ?_, hb.sockets, hb.values⟩
    have hu := hb.used x
    simp only [activities, List.map_append, List.count_append, hnext, List.count_nil] at hu ⊢
    omega

structure Ends (s : State) (o : TaskId) (op : Operation) (outcome : Outcome) (s' : State) :
    Prop where
  found : s.ops[o]? = some op
  holds : op.holds = true
  ops : s'.ops = s.ops.set o { op with status := .completed outcome }
  dialogs : (delivered outcome = [] ∧ s'.dialogs = s.dialogs.diff (undelivered op.func)) ∨
    (delivered outcome = undelivered op.func ∧ s'.dialogs = s.dialogs) ∨
    (delivered outcome = [s.handles.length] ∧ undelivered op.func = [] ∧
      s'.dialogs = s.dialogs ++ [s.handles.length])

theorem Ends.outcome {o : TaskId} {op : Operation} {outcome : Outcome}
    (h : Ends s o op outcome s') : outcomeOf s' o = some outcome := by
  have hlt := (List.getElem?_eq_some_iff.mp h.found).1
  simp [outcomeOf, h.ops, hlt]

def issued (σ : Server) (s : State) (i : Nat) (k : Continuation) : Server :=
  { σ with executor := s, calls := σ.calls.eraseIdx i, continuations := σ.continuations ++ [k] }

/-- Everything a step of the server that does not fault can do. -/
inductive Turn (σ : Server) : Server → Prop where
  | waited {a s} (ha : Executor.step σ.executor a = .ok s) (hops : s.ops = σ.executor.ops)
      (hd : s.dialogs = σ.executor.dialogs) : Turn σ { σ with executor := s }
  | went {a s o op new} (ha : Executor.step σ.executor a = .ok s)
      (hop : σ.executor.ops[o]? = some op) (hops : s.ops = σ.executor.ops.set o new)
      (hd : s.dialogs = σ.executor.dialogs) (hf : new.func = op.func) (hs : new.socket = op.socket)
      (ht : new.trigger = op.trigger) (hh : op.holds = true) (hn : new.holds = true) :
      Turn σ { σ with executor := s }
  | abandoned {a s o op σ'} (ha : Executor.step σ.executor a = .ok s)
      (hop : σ.executor.ops[o]? = some op)
      (hops : s.ops = σ.executor.ops.set o { op with status := .abandoned })
      (hd : s.dialogs = σ.executor.dialogs) (hh : op.holds = true) (ht : op.trigger ≠ .EAGER)
      (h : drop { σ with executor := s } op.socket = .ok σ') :
      Turn σ σ'
  | refused {a s i call σ'} (ha : Executor.step σ.executor a = .ok s)
      (hcall : σ.calls[i]? = some call) (hops : s.ops = σ.executor.ops)
      (hd : s.dialogs = σ.executor.dialogs)
      (h : drop { σ with executor := s, calls := σ.calls.eraseIdx i } call.socket = .ok σ') :
      Turn σ σ'
  | issued {a s i call op} (base : Nat) (ha : Executor.step σ.executor a = .ok s)
      (hcall : σ.calls[i]? = some call) (hm : Made σ.executor s op) (hs : op.socket = call.socket)
      (hf : ∀ len, op.func ≠ .value (.length len)) :
      Turn σ (issued σ s i (call.continuation base))
  | transferred {a s i call op len data σ'} (base : Nat) (ha : Executor.step σ.executor a = .ok s)
      (hcall : σ.calls[i]? = some call) (hm : Made σ.executor s op) (hs : op.socket = call.socket)
      (hf : op.func = .value (.length len))
      (h : transfer (Sessions.issued σ s i (call.continuation base))
        σ.executor.ops.length len data = .ok σ') :
      Turn σ σ'
  | completed {a s o op outcome k σ'} (ha : Executor.step σ.executor a = .ok s)
      (he : Ends σ.executor o op outcome s) (hk : σ.continuations[o]? = some k)
      (hlen : ∀ len, outcome = .setValue (.length len) → op.func = .value (.length len))
      (h : resume { σ with executor := s } k outcome = .ok σ') : Turn σ σ'
  | moved {a s o op len data σ₁ k σ'} (ha : Executor.step σ.executor a = .ok s)
      (he : Ends σ.executor o op (.setValue (.length len)) s) (ht : op.trigger ≠ .EAGER)
      (htr : transfer { σ with executor := s } o len data = .ok σ₁)
      (hk : σ₁.continuations[o]? = some k) (h : resume σ₁ k (.setValue (.length len)) = .ok σ') :
      Turn σ σ'

theorem perform_turn {i : Nat} {answers : List Answer} {base : Nat} {data : List Byte}
    (h : perform σ i answers base data = .ok σ') : Turn σ σ' := by
  unfold perform at h
  split at h
  · cases h
  · next call hcall =>
    split at h
    · cases h
    · next s ha =>
      obtain ⟨hops, hd, -⟩ | ⟨op, hm, hsocket⟩ := action_made ha
      · rw [hops, List.getElem?_eq_none (Nat.le_refl _)] at h
        exact .refused ha hcall hops hd h
      · have hnew : s.ops[σ.executor.ops.length]? = some op := by simp [hm.ops]
        simp only [hnew] at h
        split at h
        · next len hf => exact .transferred base ha hcall hm hsocket hf h
        · next hf =>
          cases h
          exact .issued base ha hcall hm hsocket fun len he => hf len he

theorem trigger_of_abandoned {o : TaskId} {op : Operation} (h : Executor.connect s o = .ok s')
    (hop : s.ops[o]? = some op) (hops : s'.ops = s.ops.set o { op with status := .abandoned }) :
    op.trigger ≠ .EAGER := by
  intro he
  have hlt := (List.getElem?_eq_some_iff.mp hop).1
  simp only [Executor.connect, hop, he, bne_self_eq_false, Bool.and_false,
    Bool.false_eq_true, if_false] at h
  split at h
  · cases h
  · cases h
    have hnew := congrArg (·[o]?) hops
    simp [hlt] at hnew

theorem connect_turn {o : TaskId} (h : connect σ o = .ok σ') : Turn σ σ' := by
  unfold connect at h
  split at h
  · cases h
  · next s hc =>
    have ha : Executor.step σ.executor (.connect o) = .ok s := hc
    cases connect_step hc with
    | issue hi _ => cases hi
    | register hop hst _ _ _ | idle hop hst _ =>
      have hlt := (List.getElem?_eq_some_iff.mp hop).1
      simp only [List.getElem?_set_self hlt, reduceCtorEq, if_false] at h
      cases h
      exact .went ha hop rfl rfl rfl rfl rfl (by simp [Operation.holds, hst]) rfl
    | @abandon _ op hop hst =>
      have hlt := (List.getElem?_eq_some_iff.mp hop).1
      simp only [List.getElem?_set_self hlt, if_true] at h
      exact .abandoned ha hop rfl rfl (by simp [Operation.holds, hst])
        (trigger_of_abandoned hc hop rfl) h

theorem continuation_of {held : List HandleId} (hb : Balanced σ held) {o : TaskId} {op : Operation}
    (hop : σ.executor.ops[o]? = some op) :
    ∃ k, σ.continuations[o]? = some k ∧ k.socket = op.socket := by
  have hs : (σ.continuations.map Continuation.socket)[o]? = some op.socket := by
    simp [hb.sockets, hop]
  simpa using hs

theorem value_of_started {o : TaskId} {op : Operation} (h : complete s o op [] = .ok s') {len : Nat}
    (ho : outcomeOf s' o = some (.setValue (.length len))) (hop : s.ops[o]? = some op) :
    op.func = .value (.length len) := by
  obtain ⟨outcome, hops, hout⟩ := complete_outcome h
  have hlt := (List.getElem?_eq_some_iff.mp hop).1
  have he : outcome = .setValue (.length len) := by simpa [outcomeOf, hops, hlt] using ho
  subst he
  obtain ⟨-, hout⟩ | ⟨-, t, r, hinv, ⟨v, rfl, hout⟩ | ⟨errno, -, hout⟩⟩ := hout
  · cases hout
  · cases hout
    revert hinv
    cases op.func <;> simp [invoke, retry]
  · cases hout

theorem start_turn {o : TaskId} (hb : Balanced σ []) (h : start σ o = .ok σ') : Turn σ σ' := by
  unfold start at h
  split at h
  · cases h
  · next s hs =>
    have ha : Executor.step σ.executor (.start o) = .ok s := hs
    cases start_step hs with
    | issue hi _ => cases hi
    | @inline _ op _ hop hst he _ =>
      have hcall := start_complete hs hop he
      obtain ⟨outcome, hops, hd⟩ := complete_dialogs hcall
      have hends : Ends σ.executor o op outcome s := ⟨hop, by simp [Operation.holds, hst], hops, hd⟩
      obtain ⟨k, hk, -⟩ := continuation_of hb hop
      simp only [proceed, hends.outcome, hk] at h
      refine .completed ha hends hk (fun len hlen => ?_) h
      exact value_of_started hcall (hlen ▸ hends.outcome) hop
    | @queue _ op _ _ _ hop hst _ _ _ =>
      have hlt := (List.getElem?_eq_some_iff.mp hop).1
      simp only [proceed, outcomeOf, List.getElem?_set_self hlt, Option.map_some] at h
      cases h
      exact .went ha hop rfl rfl rfl rfl rfl (by simp [Operation.holds, hst]) rfl

theorem transfer_continuation {o : TaskId} {len : Nat} {data : List Byte} {k : Continuation}
    (h : transfer σ o len data = .ok σ') (hk : σ.continuations[o]? = some k) :
    ∃ k', σ'.continuations[o]? = some k' := by
  have hf := congrArg (·[o]?) (transfer_frame h).2.2
  simp only [List.getElem?_map, hk, Option.map_some] at hf
  obtain ⟨k', hk', -⟩ := Option.map_eq_some_iff.mp hf
  exact ⟨k', hk'⟩

theorem execute_turn {w : Nat} {answers : List Answer} {data : List Byte} {config : Config}
    {tr : List Action} (hr : run config tr = .ok σ.executor) (hb : Balanced σ [])
    (h : execute σ w answers data = .ok σ') :
    Turn σ σ' := by
  unfold execute at h
  split at h
  · next o s ho hs =>
    have ha : Executor.step σ.executor (.execute w answers) = .ok s := hs
    cases execute_step hs with
    | issue hi _ => cases hi
    | @execute _ _ wait o' ready op _ hw hready hop _ =>
      have ho' : o' = o := by simpa [readyOf_eq hw, hready] using ho
      subst ho'
      have hst : op.status = .queued := by
        refine Receivers.located_queued hr (p := .ready w) ?_ (by simp) hop
        simp [located, readyOf_eq hw, hready]
      obtain ⟨outcome, hops, hd⟩ := complete_dialogs (execute_complete hs hw hready hop)
      have hends : Ends σ.executor o' op outcome s :=
        ⟨hop, by simp [Operation.holds, hst], hops, hd⟩
      have htrigger : op.trigger ≠ .EAGER := by
        obtain ⟨fd, d, ht⟩ :=
          (run_sane hr).ready wait (List.mem_of_getElem? hw) o' (by simp [hready])
        rw [target_of_getElem? hop] at ht
        rw [(Prod.mk.inj (Option.some.inj ht)).1]
        cases d <;> decide
      obtain ⟨k, hk, -⟩ := continuation_of hb hop
      simp only [hends.outcome] at h
      split at h
      · next len hlen =>
        split at h
        · cases h
        · next σ₁ ht =>
          cases hlen
          obtain ⟨k', hk'⟩ := transfer_continuation ht hk
          have hout : outcomeOf σ₁.executor o' = some (.setValue (.length len)) := by
            rw [(transfer_frame ht).1]
            exact hends.outcome
          simp only [proceed, hout, hk'] at h
          exact .moved ha hends htrigger ht hk' h
      · next hlen =>
        simp only [proceed, hends.outcome, hk] at h
        exact .completed ha hends hk (fun len he => absurd (by rw [he]) (hlen len)) h
  · cases h
  · cases h

theorem step_turn {config : Config} {tr : List Action} {m : Move}
    (hr : run config tr = .ok σ.executor) (hb : Balanced σ []) (h : step σ m = .ok σ') :
    Turn σ σ' := by
  have waited : ∀ {a : Action},
      (∀ s, Step σ.executor a s → s.ops = σ.executor.ops ∧ s.dialogs = σ.executor.dialogs) →
      waits σ a = .ok σ' → Turn σ σ' := by
    intro a hsame h
    unfold waits at h
    split at h
    · cases h
    · next s ha =>
      cases h
      obtain ⟨hops, hd⟩ := hsame s (step_spec ha)
      exact .waited ha hops hd
  cases m with
  | perform i answers base data => exact perform_turn h
  | connect o => exact connect_turn h
  | start o => exact start_turn hb h
  | execute w answers data => exact execute_turn hr hb h
  | snapshot interval | poll w begin answers | pass w getsockopt | finish w =>
    simp only [step] at h
    refine waited (fun s hs => ?_) h
    cases hs <;> first | exact ⟨rfl, rfl⟩ | contradiction

def Reaches (s s' : State) : Prop := ∃ tr, Runs.run Executor.step s tr = .ok s'

theorem Reaches.refl (s : State) : Reaches s s := ⟨[], rfl⟩

theorem Reaches.step {a : Action} {t : State} (h : Executor.step s a = .ok t) (h' : Reaches t s') :
    Reaches s s' := by
  obtain ⟨tr, htr⟩ := h'
  exact ⟨a :: tr, Runs.run_cons_ok.mpr ⟨t, h, htr⟩⟩

theorem drop_reaches (h : drop σ x = .ok σ') : Reaches σ.executor σ'.executor := by
  unfold drop at h
  split at h
  · cases h
  · next hd =>
    cases h
    exact .step (a := .dropDialog x) hd (.refl _)

theorem resume_reaches {k : Continuation} {outcome : Outcome} (h : resume σ k outcome = .ok σ') :
    Reaches σ.executor σ'.executor := by
  obtain ⟨-, hd⟩ | ⟨next, rfl, -⟩ := resume_cases h
  · exact drop_reaches hd
  · exact .refl _

theorem turn_reaches (h : Turn σ σ') : Reaches σ.executor σ'.executor := by
  cases h with
  | waited ha _ _ | went ha _ _ _ _ _ _ _ _ | issued _ ha _ _ _ _ => exact .step ha (.refl _)
  | abandoned ha _ _ _ _ _ h | refused ha _ _ _ h => exact .step ha (drop_reaches h)
  | transferred _ ha _ _ _ _ h =>
    rw [(transfer_frame h).1]
    exact .step ha (.refl _)
  | completed ha _ _ _ h => exact .step ha (resume_reaches h)
  | moved ha _ _ htr _ h =>
    have hr := resume_reaches h
    rw [(transfer_frame htr).1] at hr
    exact .step ha hr

theorem balanced_set {o : TaskId} {op new : Operation} {held : List HandleId} (hb : Balanced σ [])
    (hop : σ.executor.ops[o]? = some op) (hops : s.ops = σ.executor.ops.set o new)
    (hf : new.func = op.func) (hs : new.socket = op.socket) (ht : new.trigger = op.trigger)
    (hsingle : ∀ x, s.dialogs.count x ≤ 1)
    (hd : ∀ x, s.dialogs.count x + (keeps op).count x =
      σ.executor.dialogs.count x + (keeps new).count x + held.count x) :
    Balanced { σ with executor := s } held := by
  refine ⟨hsingle, fun x => ?_, ?_, fun op' hm v hv => ?_⟩
  · have hsum := ListUpdates.sum_map_set (fun op => (keeps op).count x) hop new
    have hu := hb.used x
    have hx := hd x
    simp only [activities, hops, List.count_nil] at hu hsum ⊢
    omega
  · rw [hops, map_set_of_eq Operation.socket hop hs]
    exact hb.sockets
  · rw [hops] at hm
    obtain hm | rfl := List.mem_or_eq_of_mem_set hm
    · exact hb.values op' hm v hv
    · rw [ht]
      exact hb.values op (List.mem_of_getElem? hop) v (hf ▸ hv)

theorem keeps_le {o : TaskId} {op : Operation} (hb : Balanced σ [])
    (hop : σ.executor.ops[o]? = some op) (x : HandleId) :
    (keeps op).count x ≤ σ.executor.dialogs.count x := by
  have hu := hb.used x
  obtain ⟨before, after, hsplit⟩ := List.append_of_mem (List.mem_of_getElem? hop)
  simp only [activities, hsplit, List.map_append, List.map_cons, List.sum_append, List.sum_cons,
    List.count_nil] at hu
  omega

theorem keeps_of_holds {op : Operation} (h : op.holds = true) :
    keeps op = [op.socket] ++ undelivered op.func := by
  simp [keeps, h]

theorem ends_balanced {o : TaskId} {op : Operation} {outcome : Outcome} (hb : Balanced σ [])
    (hs : Sane σ.executor) (he : Ends σ.executor o op outcome s) :
    Balanced { σ with executor := s } (delivered outcome ++ [op.socket]) := by
  have hkeeps : keeps { op with status := .completed outcome } = [] := rfl
  refine balanced_set hb he.found he.ops rfl rfl rfl (fun x => ?_) fun x => ?_
  · obtain ⟨-, hd⟩ | ⟨-, hd⟩ | ⟨-, -, hd⟩ := he.dialogs
    · rw [hd]
      exact Nat.le_trans ((List.diff_sublist _ _).count_le x) (hb.single x)
    · rw [hd]
      exact hb.single x
    · rw [hd, List.count_append]
      by_cases hx : x = σ.executor.handles.length
      · subst hx
        have hnot : σ.executor.handles.length ∉ σ.executor.dialogs := fun hm =>
          Nat.lt_irrefl _ (hs.dialogs _ hm)
        simp [List.count_eq_zero_of_not_mem hnot]
      · simpa [Ne.symm hx] using hb.single x
  · have hle := keeps_le hb he.found x
    rw [keeps_of_holds he.holds, List.count_append] at hle
    rw [keeps_of_holds he.holds, hkeeps]
    obtain ⟨hv, hd⟩ | ⟨hv, hd⟩ | ⟨hv, hu, hd⟩ := he.dialogs
    · rw [hv, hd, List.count_diff]
      simp only [List.count_append, List.count_nil]
      omega
    · rw [hv, hd]
      simp only [List.count_append, List.count_nil]
      omega
    · rw [hv, hu, hd]
      simp only [List.count_append, List.count_nil]
      omega

theorem transfer_balanced {held : List HandleId} {o : TaskId} {len : Nat} {data : List Byte}
    (hb : Balanced σ held) (h : transfer σ o len data = .ok σ') : Balanced σ' held := by
  obtain ⟨he, hc, hk⟩ := transfer_frame h
  refine ⟨by rw [he]; exact hb.single,
    fun x => ?_, by rw [hk, he]; exact hb.sockets, by rw [he]; exact hb.values⟩
  rw [he, hb.used x, activities, activities, hc, he]

theorem count_eraseIdx {i : Nat} {call : Call} (h : σ.calls[i]? = some call) (x : HandleId) :
    ((σ.calls.eraseIdx i).map Call.socket).count x + [call.socket].count x =
      (σ.calls.map Call.socket).count x := by
  obtain ⟨hlt, rfl⟩ := List.getElem?_eq_some_iff.mp h
  have hp := ((List.getElem_cons_eraseIdx_perm hlt).map Call.socket).count_eq x
  rw [List.map_cons, ← List.singleton_append, List.count_append] at hp
  omega

theorem continuation_socket (call : Call) (base : Nat) :
    (call.continuation base).socket = call.socket := by
  cases call <;> rfl

theorem issued_balanced (base : Nat) {i : Nat} {call : Call} {op : Operation} (hb : Balanced σ [])
    (hs : Sane σ.executor) (hcall : σ.calls[i]? = some call) (hm : Made σ.executor s op)
    (hsocket : op.socket = call.socket) : Balanced (issued σ s i (call.continuation base)) [] := by
  refine ⟨fun x => ?_, fun x => ?_, ?_, fun op' hop' => ?_⟩
  · change s.dialogs.count x ≤ 1
    rw [hm.dialogs, List.count_append]
    by_cases hx : x ∈ undelivered op.func
    · have hnot : x ∉ σ.executor.dialogs := fun hd =>
        absurd (hs.dialogs x hd) (hm.fresh x hx ▸ Nat.lt_irrefl _)
      rw [List.count_eq_zero_of_not_mem hnot, Nat.zero_add]
      unfold undelivered
      split <;> simp [List.count_singleton]
      split <;> omega
    · rw [List.count_eq_zero_of_not_mem hx]
      exact hb.single x
  · have hu := hb.used x
    have hc := count_eraseIdx hcall x
    have hk : keeps op = [call.socket] ++ undelivered op.func := by
      rw [← hsocket]
      exact keeps_of_holds (by simp [Operation.holds, hm.status])
    simp only [issued, activities, hm.ops, hm.dialogs, hk, List.map_append,
      List.map_cons, List.map_nil,
      List.sum_append, List.sum_cons, List.sum_nil, List.count_append, List.count_nil] at hu ⊢
    omega
  · simp only [issued, hm.ops, List.map_append, hb.sockets]
    simp [continuation_socket, hsocket]
  · simp only [issued, hm.ops] at hop'
    obtain hop' | hop' := List.mem_append.mp hop'
    · exact hb.values op' hop'
    · rw [List.mem_singleton.mp hop']
      exact hm.eager

theorem turn_balanced (hb : Balanced σ []) (hs : Sane σ.executor) (h : Turn σ σ') :
    Balanced σ' [] := by
  cases h with
  | waited _ hops hd =>
    refine ⟨by rw [hd]; exact hb.single,
      fun x => ?_, by rw [hops]; exact hb.sockets, by rw [hops]; exact hb.values⟩
    rw [hd, hb.used x, activities, activities, hops]
  | @went _ _ _ op new _ hop hops hd hf hsocket ht hh hn =>
    have hk : keeps new = keeps op := by simp [keeps, hh, hn, hf, hsocket]
    refine balanced_set hb hop hops hf hsocket ht (by rw [hd]; exact hb.single) fun x => ?_
    rw [hd, hk, List.count_nil]
    rfl
  | abandoned _ hop hops hd hh ht h =>
    have hu := undelivered_of_ne fun v hv => ht (hb.values _ (List.mem_of_getElem? hop) v hv)
    refine drop_balanced ?_ h
    refine balanced_set hb hop hops rfl rfl rfl (by rw [hd]; exact hb.single) fun x => ?_
    rw [hd, keeps_of_holds hh, hu]
    rfl
  | refused _ hcall hops hd h =>
    refine drop_balanced ⟨by rw [hd]; exact hb.single, fun x => ?_, by rw [hops]; exact hb.sockets,
      by rw [hops]; exact hb.values⟩ h
    have hu := hb.used x
    have hc := count_eraseIdx hcall x
    simp only [activities, hops, hd, List.count_nil] at hu ⊢
    omega
  | issued base _ hcall hm hsocket _ => exact issued_balanced base hb hs hcall hm hsocket
  | transferred base _ hcall hm hsocket _ h =>
    exact transfer_balanced (issued_balanced base hb hs hcall hm hsocket) h
  | completed _ he hk _ h =>
    have hb' := ends_balanced hb hs he
    obtain ⟨k', hk', hsocket⟩ := continuation_of hb he.found
    rw [hk] at hk'
    cases hk'
    exact resume_balanced (by rw [hsocket]; exact hb') h
  | @moved _ _ o op len _ σ₁ k _ _ he _ htr hk h =>
    have hb' := transfer_balanced (ends_balanced hb hs he) htr
    have hop' : σ₁.executor.ops[o]? =
        some { op with status := .completed (.setValue (.length len)) } := by
      rw [(transfer_frame htr).1, he.ops,
        List.getElem?_set_self (List.getElem?_eq_some_iff.mp he.found).1]
    obtain ⟨k', hk', hsocket⟩ := continuation_of hb' hop'
    rw [hk] at hk'
    cases hk'
    exact resume_balanced (by rw [hsocket]; exact hb') h

theorem initial_reached (config : Config) {fd : Fd} (hfd : valid fd) :
    run config [.emplace fd] = .ok (initial config fd).executor := by
  have hfresh : fresh (Executor.initial config) fd = true :=
    fresh_iff.mpr ⟨hfd, by simp [Executor.initial]⟩
  simp [Runs.run, Executor.step, emplace, hfresh, initial]

theorem initial_balanced (config : Config) (fd : Fd) : Balanced (initial config fd) [] := by
  refine ⟨fun x => ?_, fun x => ?_, rfl, by simp [initial, adopt, Executor.initial]⟩
  · simp [initial, adopt, Executor.initial, List.count_singleton]
    split <;> omega
  · simp [initial, adopt, Executor.initial, activities, Call.socket]

/-- A step of the server is steps of its executor, after which the dialogs are
still accounted for. -/
theorem step_balanced {config : Config} {tr : List Action} {m : Move}
    (hr : run config tr = .ok σ.executor) (hb : Balanced σ []) (h : step σ m = .ok σ') :
    ∃ tr', run config tr' = .ok σ'.executor ∧ Balanced σ' [] := by
  have hturn := step_turn hr hb h
  obtain ⟨tr', hr'⟩ := turn_reaches hturn
  exact ⟨tr ++ tr', Runs.run_append_ok.mpr ⟨_, hr, hr'⟩, turn_balanced hb (run_sane hr) hturn⟩

theorem serve_balanced {config : Config} {fd : Fd} (hfd : valid fd) {tr : List Move}
    (h : serve config fd tr = .ok σ) : ∃ tr', run config tr' = .ok σ.executor ∧ Balanced σ [] := by
  refine Runs.run_invariant (fun σ => ∃ tr', run config tr' = .ok σ.executor ∧ Balanced σ []) ?_ h
    ⟨_, initial_reached config hfd, initial_balanced config fd⟩
  rintro σ m σ' ⟨tr', hr, hb⟩ hm
  exact step_balanced hr hb hm

theorem live_iff_mem (hb : Balanced σ []) : live σ.executor x = true ↔ x ∈ σ.executor.dialogs := by
  rw [live_iff]
  constructor
  · rintro (hd | ⟨o, op, hop, rfl, hh⟩)
    · exact hd
    · have hle := keeps_le hb hop op.socket
      rw [keeps_of_holds hh, List.count_append, List.count_singleton_self] at hle
      exact List.count_pos_iff.mp (by omega)
  · exact .inl

theorem holds_unique (hb : Balanced σ []) {o o' : TaskId} {op op' : Operation}
    (hop : σ.executor.ops[o]? = some op) (hop' : σ.executor.ops[o']? = some op')
    (hh : op.holds = true) (hh' : op'.holds = true) (hs : op.socket = op'.socket) : o = o' := by
  by_contra hne
  have hlt := (List.getElem?_eq_some_iff.mp hop).1
  have hsum := ListUpdates.sum_map_set (fun op => (keeps op).count op'.socket) hop
    { op with status := .abandoned }
  have hk : keeps { op with status := .abandoned } = [] := rfl
  have hother : (σ.executor.ops.set o { op with status := .abandoned })[o']? = some op' := by
    rw [List.getElem?_set_ne hne]
    exact hop'
  obtain ⟨before, after, hsplit⟩ := List.append_of_mem (List.mem_of_getElem? hother)
  have hu := hb.used op'.socket
  have h₁ := hb.single op'.socket
  rw [hsplit, hk] at hsum
  simp only [List.map_append, List.map_cons, List.sum_append, List.sum_cons, keeps_of_holds hh,
    keeps_of_holds hh', hs, List.count_append, List.count_singleton_self, List.count_nil] at hsum
  simp only [activities] at hu
  omega

theorem queued_unique {config : Config} {tr : List Action} (hr : run config tr = .ok σ.executor)
    (hb : Balanced σ []) {fd : Fd} {d d' : Direction} {o o' : TaskId}
    (ho : o ∈ σ.executor.mux.queue fd d) (ho' : o' ∈ σ.executor.mux.queue fd d') : o = o' := by
  have holds : ∀ {d o op}, o ∈ σ.executor.mux.queue fd d → σ.executor.ops[o]? = some op →
      op.holds = true := by
    intro d o op ho hop
    have hst := Receivers.located_queued hr (p := .waiting (fd, d)) ho (by simp) hop
    simp [Operation.holds, hst]
  obtain ⟨op, hop, -, -, hs⟩ := queue_owner hr ho
  obtain ⟨op', hop', -, -, hs'⟩ := queue_owner hr ho'
  rw [hs] at hs'
  exact holds_unique hb hop hop' (holds ho hop) (holds ho' hop') (Option.some.inj hs')

theorem queues_nodup {config : Config} {tr : List Action} (hr : run config tr = .ok s) (fd : Fd) :
    (s.mux.queue fd .read ++ s.mux.queue fd .write).Nodup := by
  have hx := (run_located hr).exclusive
  refine List.nodup_append.mpr ⟨hx.nodup (.waiting (fd, .read)),
    hx.nodup (.waiting (fd, .write)), ?_⟩
  intro o ho o' ho' he
  subst he
  have hp := hx.disjoint (i := .waiting (fd, .read)) (j := .waiting (fd, .write)) ho ho'
  cases hp

theorem activities_eq (hb : Balanced σ []) (x : HandleId) :
    activities σ x = if live σ.executor x then 1 else 0 := by
  have hu := hb.used x
  have hs := hb.single x
  rw [List.count_nil] at hu
  by_cases hl : live σ.executor x = true
  · have hpos := List.count_pos_iff.mpr ((live_iff_mem hb).mp hl)
    rw [if_pos hl]
    omega
  · have hz := List.count_eq_zero_of_not_mem (mt (live_iff_mem hb).mpr hl)
    rw [if_neg hl]
    omega

theorem queues_length_le {config : Config} {tr : List Action} (hr : run config tr = .ok σ.executor)
    (hb : Balanced σ []) (fd : Fd) :
    (σ.executor.mux.queue fd .read ++ σ.executor.mux.queue fd .write).length ≤ 1 := by
  have hn := queues_nodup hr fd
  have hall : ∀ o ∈ σ.executor.mux.queue fd .read ++ σ.executor.mux.queue fd .write,
      ∀ o' ∈ σ.executor.mux.queue fd .read ++ σ.executor.mux.queue fd .write, o = o' := by
    intro o ho o' ho'
    rcases List.mem_append.mp ho with ho | ho <;> rcases List.mem_append.mp ho' with ho' | ho' <;>
      exact queued_unique hr hb ho ho'
  revert hn hall
  cases σ.executor.mux.queue fd .read ++ σ.executor.mux.queue fd .write with
  | nil => simp
  | cons o l =>
    cases l with
    | nil => simp
    | cons o' l =>
      intro hn hall
      have he := hall o (by simp) o' (by simp)
      subst he
      simp at hn

end AsyncBerkeley.Sessions
