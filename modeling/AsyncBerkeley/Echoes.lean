import AsyncBerkeley.Sessions

namespace AsyncBerkeley.Echoes

open ListUpdates Events InterestList SocketHandles PollMultiplexer Operations Steps Evolution
  Lifetimes ReactorRuns MessageBuffers EchoServer Sessions
open Executor hiding step connect start execute initial

def block (data : List Byte) : List Byte := data ++ List.replicate (1024 - data.length) 0#8

/-- What is to be sent to a client, for the messages received from it. -/
def owed (σ : Server) (x : HandleId) : List Byte := (σ.messages x).flatMap block

def callRest : Call → List Byte
  | .acceptor _ | .reader _ => []
  | .writer _ msg buf => unsent msg buf

/-- The bytes that are still to be sent by the continuation of an operation. An
eager operation has made its system call already. -/
def rest : Continuation → Completion → List Byte
  | .accepted _, _ => []
  | .received _ msg buf, .value (.length len) => if len = 0 then [] else unsent msg buf
  | .received _ _ _, _ => []
  | .written _ msg buf, .value (.length len) => (unsent msg buf).drop len
  | .written _ msg buf, _ => unsent msg buf

def tokens (σ : Server) : List (HandleId × List Byte) :=
  σ.calls.map (fun call => (call.socket, callRest call)) ++
    (σ.executor.ops.zip σ.continuations).flatMap fun (op, k) =>
      if op.holds then (op.socket, rest k op.func) :: (undelivered op.func).map (·, []) else []

variable {s s' : State} {σ σ' : Server} {x : HandleId} {left : List Byte}

theorem mem_tokens :
    (x, left) ∈ tokens σ ↔ (∃ call ∈ σ.calls, call.socket = x ∧ callRest call = left) ∨
    ∃ (o : TaskId) (op : Operation) (k : Continuation), σ.executor.ops[o]? = some op ∧
      σ.continuations[o]? = some k ∧
      op.holds = true ∧
        (op.socket = x ∧ rest k op.func = left ∨ x ∈ undelivered op.func ∧ left = []) := by
  simp only [tokens, List.mem_append, List.mem_map, Prod.mk.injEq, List.mem_flatMap]
  refine or_congr_right ⟨?_, ?_⟩
  · rintro ⟨⟨op, k⟩, hm, hx⟩
    obtain ⟨o, ho⟩ := List.mem_iff_getElem?.mp hm
    obtain ⟨hop, hk⟩ := List.getElem?_zip_eq_some.mp ho
    refine ⟨o, op, k, hop, hk, ?_⟩
    split at hx
    · next hh =>
      refine ⟨hh, ?_⟩
      simpa [eq_comm] using hx
    · cases hx
  · rintro ⟨o, op, k, hop, hk, hh, hx⟩
    refine ⟨(op, k), List.mem_iff_getElem?.mpr ⟨o, List.getElem?_zip_eq_some.mpr ⟨hop, hk⟩⟩, ?_⟩
    rw [if_pos hh]
    simpa [eq_comm] using hx

theorem count_tokens (hb : Balanced σ []) (x : HandleId) :
    ((tokens σ).map Prod.fst).count x = activities σ x := by
  have hlen : σ.executor.ops.length ≤ σ.continuations.length := by
    have := congrArg List.length hb.sockets
    simp only [List.length_map] at this
    omega
  have hkeeps : ((σ.executor.ops.zip σ.continuations).flatMap fun (op, k) =>
      if op.holds then (op.socket, rest k op.func) :: (undelivered op.func).map (·, [])
        else []).map Prod.fst =
      σ.executor.ops.flatMap keeps := by
    rw [List.map_flatMap]
    conv_rhs => rw [← List.map_fst_zip hlen, List.flatMap_map]
    apply List.flatMap_congr
    rintro ⟨op, k⟩ -
    simp only [keeps]
    split <;> simp [Function.comp_def]
  rw [tokens, List.map_append, List.count_append, hkeeps, List.count_flatMap,
    activities, List.map_map]
  rfl

theorem eq_of_count_le_one {α β : Type} [DecidableEq α] {l : List (α × β)} {a : α} {b b' : β}
    (h : (l.map Prod.fst).count a ≤ 1) (hb : (a, b) ∈ l) (hb' : (a, b') ∈ l) : b = b' := by
  induction l with
  | nil => cases hb
  | cons p l ih =>
    rw [List.map_cons, List.count_cons] at h
    -- a pair with this key that comes first is the only one
    have first : ∀ {c : β}, p = (a, c) → ∀ c', (a, c') ∉ l := by
      rintro c rfl c' hm
      have hpos : 0 < (l.map Prod.fst).count a :=
        List.count_pos_iff.mpr (List.mem_map.mpr ⟨_, hm, rfl⟩)
      simp at h
      omega
    obtain hp | hb := List.mem_cons.mp hb
    · obtain hp' | hb' := List.mem_cons.mp hb'
      · rw [← hp] at hp'
        exact (Prod.mk.inj hp').2.symm
      · exact absurd hb' (first hp.symm b')
    · obtain hp' | hb' := List.mem_cons.mp hb'
      · exact absurd hb (first hp'.symm b)
      · exact ih (by omega) hb hb'

theorem tokens_unique (hb : Balanced σ []) {left' : List Byte} (h : (x, left) ∈ tokens σ)
    (h' : (x, left') ∈ tokens σ) : left = left' := by
  refine eq_of_count_le_one ?_ h h'
  have hu := hb.used x
  rw [count_tokens hb, ← Nat.add_zero (activities σ x), ← List.count_nil (a := x), ← hu]
  exact hb.single x

theorem unsent_advance (msg : MessageBuffer) (buf : Buffer) (len : Size) :
    unsent (advance msg len) buf = (unsent msg buf).drop len.toNat := by
  rw [unsent, covered_advance, List.map_drop]
  rfl

theorem length_unsent (msg : MessageBuffer) (buf : Buffer) :
    (unsent msg buf).length = (covered msg).length := by
  rw [unsent, List.length_map]

theorem length_covered_whole (base : Nat) : (covered [⟨base, 1024#64⟩]).length = 1024 := by
  rw [covered_cons, List.length_append, length_covered]
  rfl

theorem unsent_whole {base : Nat} {bytes : List Byte} (h : bytes.length = 1024) :
    unsent [⟨base, 1024#64⟩] ⟨base, bytes⟩ = bytes := by
  apply List.ext_getElem
  · rw [length_unsent, length_covered_whole, h]
  · intro i hi hi'
    simp [unsent, covered, NativeBuffer.covered, Buffer.read, hi']

theorem unsent_write {base : Nat} {data : List Byte} (h : data.length ≤ 1024) :
    unsent [⟨base, 1024#64⟩] (Buffer.write ⟨base, List.replicate 1024 0#8⟩ data) = block data := by
  have hw : Buffer.write ⟨base, List.replicate 1024 0#8⟩ data = ⟨base, block data⟩ := by
    rw [Buffer.write, List.drop_replicate]
    rfl
  rw [hw]
  apply unsent_whole
  rw [block, List.length_append, List.length_replicate]
  omega

def Fits : Continuation → Completion → Prop
  | .accepted _, _ => True
  | .received _ msg buf, func => msg = [⟨buf.base, 1024#64⟩] ∧
    ((∀ len, func ≠ .value (.length len)) → buf.bytes = List.replicate 1024 0#8)
  | .written _ msg _, func => (covered msg).length ≤ 1024 ∧
    ∀ len, func = .value (.length len) → len ≤ (covered msg).length

def CallFits : Call → Prop
  | .acceptor _ | .reader _ => True
  | .writer _ msg _ => (covered msg).length ≤ 1024

/-- What was sent on a socket and what its activity has still to send is what is
owed; what was sent is never anything else. -/
structure Kept (σ : Server) : Prop where
  sent : ∀ x left, (x, left) ∈ tokens σ → σ.sent x ++ left = owed σ x
  begun : ∀ x, σ.sent x <+: owed σ x
  fresh : ∀ x, σ.executor.handles.length ≤ x → σ.messages x = [] ∧ σ.sent x = []
  calls : ∀ call ∈ σ.calls, CallFits call
  fits : ∀ (o : TaskId) (op : Operation) (k : Continuation), σ.executor.ops[o]? = some op →
    op.holds = true → σ.continuations[o]? = some k → Fits k op.func

theorem owed_fresh (hk : Kept σ) (h : σ.executor.handles.length ≤ x) : σ.sent x = owed σ x := by
  obtain ⟨hm, hs⟩ := hk.fresh x h
  rw [hs, owed, hm]
  rfl

theorem owed_received {data : List Byte} (h : σ.sent x ++ [] = owed σ x)
    (hm : σ'.messages x = σ.messages x ++ [data]) (hs : σ'.sent x = σ.sent x) :
    σ'.sent x ++ block data = owed σ' x := by
  rw [List.append_nil] at h
  rw [hs, h, owed, owed, hm, List.flatMap_append, List.flatMap_singleton]

theorem owed_sent {bytes : List Byte} {len : Nat} (h : σ.sent x ++ bytes = owed σ x)
    (hm : σ'.messages x = σ.messages x) (hs : σ'.sent x = σ.sent x ++ bytes.take len) :
    σ'.sent x ++ bytes.drop len = owed σ' x := by
  rw [hs, List.append_assoc, List.take_append_drop, h, owed, owed, hm]

theorem kept_of_tokens (hk : Kept σ) (hm : σ'.messages = σ.messages) (hs : σ'.sent = σ.sent)
    (hh : σ.executor.handles.length ≤ σ'.executor.handles.length)
    (ht : ∀ x left, (x, left) ∈ tokens σ' → (x, left) ∈ tokens σ ∨ left = [] ∧
      σ.executor.handles.length ≤ x)
    (hc : ∀ call ∈ σ'.calls, CallFits call)
    (hf : ∀ (o : TaskId) (op : Operation) (k : Continuation), σ'.executor.ops[o]? = some op →
      op.holds = true → σ'.continuations[o]? = some k → Fits k op.func) :
    Kept σ' := by
  have ho : owed σ' = owed σ := by
    funext x
    rw [owed, owed, hm]
  refine ⟨fun x left hx => ?_, fun x => ?_, fun x hx => ?_, hc, hf⟩
  · rw [hs, ho]
    obtain hold | ⟨rfl, hfresh⟩ := ht x left hx
    · exact hk.sent x left hold
    · rw [List.append_nil, owed_fresh hk hfresh]
  · rw [hs, ho]
    exact hk.begun x
  · rw [hm, hs]
    exact hk.fresh x (Nat.le_trans hh hx)

theorem kept_of_moved {c : HandleId} {left : List Byte} (hk : Kept σ) (hb' : Balanced σ' [])
    (hm : ∀ x, x ≠ c → σ'.messages x = σ.messages x) (hs : ∀ x, x ≠ c → σ'.sent x = σ.sent x)
    (hh : σ.executor.handles.length ≤ σ'.executor.handles.length)
    (hlt : c < σ.executor.handles.length)
    (ht : ∀ x left, x ≠ c → (x, left) ∈ tokens σ' → (x, left) ∈ tokens σ)
    (hnew : (c, left) ∈ tokens σ') (hleft : σ'.sent c ++ left = owed σ' c)
    (hc : ∀ call ∈ σ'.calls, CallFits call)
    (hf : ∀ (o : TaskId) (op : Operation) (k : Continuation), σ'.executor.ops[o]? = some op →
      op.holds = true → σ'.continuations[o]? = some k → Fits k op.func) :
    Kept σ' := by
  have ho : ∀ x, x ≠ c → owed σ' x = owed σ x := by
    intro x hx
    rw [owed, owed, hm x hx]
  refine ⟨fun x left' hx => ?_, fun x => ?_, fun x hx => ?_, hc, hf⟩
  · by_cases hxc : x = c
    · subst hxc
      rw [← tokens_unique hb' hnew hx]
      exact hleft
    · rw [hs x hxc, ho x hxc]
      exact hk.sent x left' (ht x left' hxc hx)
  · by_cases hxc : x = c
    · subst hxc
      exact ⟨left, hleft⟩
    · rw [hs x hxc, ho x hxc]
      exact hk.begun x
  · have hxc : x ≠ c := by
      rintro rfl
      exact absurd (Nat.lt_of_lt_of_le hlt hh) (Nat.not_lt.mpr hx)
    rw [hm x hxc, hs x hxc]
    exact hk.fresh x (Nat.le_trans hh hx)

theorem length_continuations {held : List HandleId} (hb : Balanced σ held) :
    σ.continuations.length = σ.executor.ops.length := by
  simpa using congrArg List.length hb.sockets

section Issue

variable {i : Nat} {call : Call} {op : Operation} {k : Continuation}

theorem getElem?_issued (hb : Balanced σ []) (hops : s.ops = σ.executor.ops ++ [op]) {o : TaskId}
    {op' : Operation} {k' : Continuation} (hop : s.ops[o]? = some op')
    (hk : (σ.continuations ++ [k])[o]? = some k') :
    (σ.executor.ops[o]? = some op' ∧ σ.continuations[o]? = some k') ∨ op' = op ∧ k' = k := by
  have hlen := length_continuations hb
  rw [hops] at hop
  by_cases hlt : o < σ.executor.ops.length
  · rw [List.getElem?_append_left hlt] at hop
    rw [List.getElem?_append_left (hlen ▸ hlt)] at hk
    exact .inl ⟨hop, hk⟩
  · have hle := Nat.le_of_not_lt hlt
    rw [List.getElem?_append_right hle] at hop
    rw [List.getElem?_append_right (hlen ▸ hle), hlen] at hk
    have hz : o - σ.executor.ops.length = 0 :=
      Nat.lt_one_iff.mp (List.getElem?_eq_some_iff.mp hop).1
    rw [hz] at hop hk
    exact .inr ⟨(Option.some.inj hop).symm, (Option.some.inj hk).symm⟩

theorem tokens_issued (hb : Balanced σ []) (hm : Made σ.executor s op)
    (h : (x, left) ∈ tokens (issued σ s i k)) :
    (x, left) ∈ tokens σ ∨ (x = op.socket ∧ left = rest k op.func) ∨
      x ∈ undelivered op.func ∧ left = [] := by
  obtain ⟨call', hc, hx⟩ | ⟨o, op', k', hop, hk, hh, hx⟩ := mem_tokens.mp h
  · exact .inl (mem_tokens.mpr (.inl ⟨call', List.mem_of_mem_eraseIdx hc, hx⟩))
  · obtain ⟨hop, hk⟩ | ⟨rfl, rfl⟩ := getElem?_issued hb hm.ops hop hk
    · exact .inl (mem_tokens.mpr (.inr ⟨o, op', k', hop, hk, hh, hx⟩))
    · obtain ⟨rfl, rfl⟩ | hx := hx
      · exact .inr (.inl ⟨rfl, rfl⟩)
      · exact .inr (.inr hx)

theorem continuation_issued (hb : Balanced σ []) :
    (issued σ s i k).continuations[σ.executor.ops.length]? = some k := by
  simp [issued, ← length_continuations hb]

theorem continuations_issued_set (hb : Balanced σ []) (k' : Continuation) :
    (issued σ s i k).continuations.set σ.executor.ops.length k' = σ.continuations ++ [k'] := by
  simp [issued, ← length_continuations hb]

theorem mem_tokens_issued (hb : Balanced σ []) (hm : Made σ.executor s op) :
    (op.socket, rest k op.func) ∈ tokens (issued σ s i k) := by
  refine mem_tokens.mpr
    (.inr ⟨σ.executor.ops.length, op, k, ?_, continuation_issued hb, ?_, .inl ⟨rfl, rfl⟩⟩)
  · simp [issued, hm.ops]
  · simp [Operation.holds, hm.status]

theorem tokens_issued_other (hb : Balanced σ []) (hm : Made σ.executor s op)
    (hu : undelivered op.func = []) (hx : x ≠ op.socket) (h : (x, left) ∈ tokens (issued σ s i k)) :
    (x, left) ∈ tokens σ := by
  obtain h | ⟨he, -⟩ | ⟨hd, -⟩ := tokens_issued hb hm h
  · exact h
  · exact absurd he hx
  · rw [hu] at hd
    cases hd

theorem eraseIdx_fits (hk : Kept σ) (i : Nat) : ∀ call ∈ σ.calls.eraseIdx i, CallFits call :=
  fun call hc => hk.calls call (List.mem_of_mem_eraseIdx hc)

theorem issued_fits (hb : Balanced σ []) (hk : Kept σ) (hm : Made σ.executor s op)
    (hf : Fits k op.func) (o : TaskId) (op' : Operation) (k' : Continuation)
    (hop : s.ops[o]? = some op') (hh : op'.holds = true)
    (hk' : (σ.continuations ++ [k])[o]? = some k') : Fits k' op'.func := by
  obtain ⟨hop, hk'⟩ | ⟨rfl, rfl⟩ := getElem?_issued hb hm.ops hop hk'
  · exact hk.fits o op' k' hop hh hk'
  · exact hf

theorem rest_received {client : HandleId} {msg : MessageBuffer} {buf : Buffer} {func : Completion}
    (h : ∀ len, func ≠ .value (.length len)) : rest (.received client msg buf) func = [] := by
  cases func with
  | value v =>
    cases v with
    | length len => exact absurd rfl (h len)
    | _ => rfl
  | _ => rfl

theorem rest_written {client : HandleId} {msg : MessageBuffer} {buf : Buffer} {func : Completion}
    (h : ∀ len, func ≠ .value (.length len)) :
    rest (.written client msg buf) func = unsent msg buf := by
  cases func with
  | value v =>
    cases v with
    | length len => exact absurd rfl (h len)
    | _ => rfl
  | _ => rfl

theorem rest_continuation (call : Call) (base : Nat) {func : Completion}
    (hf : ∀ len, func ≠ .value (.length len)) :
    rest (call.continuation base) func = callRest call := by
  cases call with
  | acceptor server => rfl
  | reader client => exact rest_received hf
  | writer client msg buf => exact rest_written hf

theorem fits_continuation {call : Call} (base : Nat) {func : Completion}
    (hf : ∀ len, func ≠ .value (.length len)) (hc : CallFits call) :
    Fits (call.continuation base) func := by
  cases call with
  | acceptor server => trivial
  | reader client => exact ⟨rfl, fun _ => rfl⟩
  | writer client msg buf => exact ⟨hc, fun len he => absurd he (hf len)⟩

end Issue

theorem reaches_handles (h : Reaches s s') : s.handles.length ≤ s'.handles.length := by
  obtain ⟨tr, htr⟩ := h
  refine Runs.run_induction (fun _ t => s.handles.length ≤ t.handles.length) (Nat.le_refl _) ?_ htr
  intro tr u a v _ ha hle
  exact Nat.le_trans hle (length_le_of_grows (step_grows (step_spec ha)))

theorem op_of_set {o o' : TaskId} {new op' : Operation} {k' : Continuation}
    (hops : σ'.executor.ops = σ.executor.ops.set o new) (hn : new.holds = false)
    (hk : ∀ o' ≠ o, σ'.continuations[o']? = σ.continuations[o']?)
    (hop' : σ'.executor.ops[o']? = some op') (hh : op'.holds = true)
    (hk' : σ'.continuations[o']? = some k') :
    σ.executor.ops[o']? = some op' ∧ σ.continuations[o']? = some k' := by
  rw [hops] at hop'
  obtain ⟨-, rfl⟩ | ⟨hne, hop'⟩ := getElem?_set_cases hop'
  · rw [hn] at hh
    cases hh
  · exact ⟨hop', hk o' (Ne.symm hne) ▸ hk'⟩

theorem tokens_of_set {o : TaskId} {new : Operation}
    (hops : σ'.executor.ops = σ.executor.ops.set o new) (hn : new.holds = false)
    (hk : ∀ o' ≠ o, σ'.continuations[o']? = σ.continuations[o']?) (h : (x, left) ∈ tokens σ') :
    (∃ call ∈ σ'.calls, call.socket = x ∧ callRest call = left) ∨ (x, left) ∈ tokens σ := by
  obtain hc | ⟨o', op', k', hop', hk', hh, hx⟩ := mem_tokens.mp h
  · exact .inl hc
  · obtain ⟨hop, hk''⟩ := op_of_set hops hn hk hop' hh hk'
    exact .inr (mem_tokens.mpr (.inr ⟨o', op', k', hop, hk'', hh, hx⟩))

theorem mem_tokens_call {call : Call} (h : call ∈ σ.calls) :
    (call.socket, callRest call) ∈ tokens σ :=
  mem_tokens.mpr (.inl ⟨call, h, rfl, rfl⟩)

theorem written_next (client : HandleId) (buf : Buffer) {msg : MessageBuffer} {len : Nat}
    (hm : (covered msg).length ≤ 1024) (hlen : len ≤ (covered msg).length) :
    ∃ call : Call, (if toBool (advance msg (BitVec.ofNat 64 len)) then
        .writer client (advance msg (BitVec.ofNat 64 len)) buf else .reader client) = call ∧
      call.socket = client ∧ callRest call = (unsent msg buf).drop len ∧ CallFits call := by
  have hn : (BitVec.ofNat 64 len).toNat = len := by
    rw [BitVec.toNat_ofNat]
    exact Nat.mod_eq_of_lt (by omega)
  have hle : (covered (advance msg (BitVec.ofNat 64 len))).length ≤ 1024 := by
    rw [covered_advance, List.length_drop]
    omega
  have hrest := unsent_advance msg buf (BitVec.ofNat 64 len)
  rw [hn] at hrest
  split
  · exact ⟨_, rfl, rfl, hrest, hle⟩
  · next hb =>
    have hnil :=
      (toBool_eq_false_iff (Nat.lt_of_le_of_lt hle (by decide))).mp (Bool.eq_false_iff.mpr hb)
    refine ⟨_, rfl, rfl, ?_, trivial⟩
    rw [← hrest, unsent, hnil]
    rfl

theorem kept_of_next {o : TaskId} {new : Operation} (next : List Call) (hk : Kept σ)
    (hh : σ.executor.handles.length ≤ σ'.executor.handles.length) (hm : σ'.messages = σ.messages)
    (hs : σ'.sent = σ.sent) (hc : σ'.calls = next ++ σ.calls)
    (hops : σ'.executor.ops = σ.executor.ops.set o new) (hn : new.holds = false)
    (hks : ∀ o' ≠ o, σ'.continuations[o']? = σ.continuations[o']?)
    (hnext : ∀ call ∈ next, CallFits call ∧ ((call.socket, callRest call) ∈ tokens σ ∨
      callRest call = [] ∧ σ.executor.handles.length ≤ call.socket)) :
    Kept σ' := by
  refine kept_of_tokens hk hm hs hh (fun x left hx => ?_) (fun call hcall => ?_)
    fun o' op' k' hop' hh' hk' => ?_
  · obtain ⟨call, hcall, rfl, rfl⟩ | hx := tokens_of_set hops hn hks hx
    · rw [hc] at hcall
      obtain hcall | hcall := List.mem_append.mp hcall
      · exact (hnext call hcall).2
      · exact .inl (mem_tokens_call hcall)
    · exact .inl hx
  · rw [hc] at hcall
    obtain hcall | hcall := List.mem_append.mp hcall
    · exact (hnext call hcall).1
    · exact hk.calls call hcall
  · obtain ⟨hop, hk''⟩ := op_of_set hops hn hks hop' hh' hk'
    exact hk.fits o' op' k' hop hh' hk''

theorem completed_kept {o : TaskId} {op : Operation} {outcome : Outcome} {k : Continuation}
    (hk : Kept σ) (hh : σ.executor.handles.length ≤ σ'.executor.handles.length)
    (he : Ends σ.executor o op outcome s) (hcont : σ.continuations[o]? = some k)
    (hsocket : k.socket = op.socket)
    (hlen : ∀ len, outcome = .setValue (.length len) → op.func = .value (.length len))
    (h : resume { σ with executor := s } k outcome = .ok σ') : Kept σ' := by
  have htok : (k.socket, rest k op.func) ∈ tokens σ :=
    mem_tokens.mpr (.inr ⟨o, op, k, he.found, hcont, he.holds, .inl ⟨hsocket.symm, rfl⟩⟩)
  have hfits := hk.fits o op k he.found he.holds hcont
  have dropped : ∀ {y : HandleId}, drop { σ with executor := s } y = .ok σ' → Kept σ' := by
    intro y hd
    obtain ⟨-, rfl⟩ := drop_eq hd
    exact kept_of_next [] hk hh rfl rfl rfl he.ops rfl (fun _ _ => rfl) (by simp)
  unfold resume at h
  split at h
  · next server client address =>
    cases h
    refine kept_of_next [.reader client, .acceptor server] hk hh rfl rfl rfl he.ops rfl
      (fun _ _ => rfl) ?_
    simp only [List.forall_mem_cons, List.not_mem_nil, false_implies, implies_true, and_true]
    refine ⟨⟨trivial, ?_⟩, trivial, .inl htok⟩
    obtain ⟨hd, -⟩ | ⟨hd, -⟩ | ⟨hd, -, -⟩ := he.dialogs
    · cases hd
    · refine .inl (mem_tokens.mpr (.inr ⟨o, op, _, he.found, hcont, he.holds, .inr ⟨?_, rfl⟩⟩))
      rw [← hd]
      exact List.mem_singleton_self client
    · exact .inr ⟨rfl, Nat.le_of_eq (List.singleton_inj.mp hd).symm⟩
  · next client msg buf len =>
    have hf := hlen len rfl
    rw [hf] at htok hfits
    split at h
    · exact dropped h
    · next hz =>
      cases h
      refine kept_of_next [.writer client msg buf] hk hh rfl rfl rfl he.ops rfl (fun _ _ => rfl) ?_
      simp only [List.mem_singleton, forall_eq]
      refine ⟨?_, .inl ?_⟩
      · rw [CallFits, hfits.1, length_covered_whole]
      · simpa [rest, hz, Continuation.socket, Call.socket, callRest] using htok
  · next client msg buf len =>
    have hf := hlen len rfl
    rw [hf] at htok hfits
    obtain ⟨call, hcall, hs, hrest, hc⟩ := written_next client buf hfits.1 (hfits.2 len rfl)
    simp only [hcall] at h
    cases h
    refine kept_of_next [call] hk hh rfl rfl rfl he.ops rfl (fun _ _ => rfl) ?_
    simp only [List.mem_singleton, forall_eq]
    refine ⟨hc, .inl ?_⟩
    rw [hs, hrest]
    exact htok
  · exact dropped h
  · cases h

theorem token_lt {left : List Byte} (hb : Balanced σ []) (hs : Sane σ.executor)
    (h : (x, left) ∈ tokens σ) :
    x < σ.executor.handles.length := by
  apply hs.dialogs
  have hpos : 0 < ((tokens σ).map Prod.fst).count x :=
    List.count_pos_iff.mpr (List.mem_map.mpr ⟨_, h, rfl⟩)
  rw [count_tokens hb] at hpos
  exact List.count_pos_iff.mp (by rw [hb.used x]; omega)

section Transfer

variable {o : TaskId} {len : Nat} {data : List Byte} {client : HandleId} {msg : MessageBuffer}
  {buf : Buffer}

theorem transfer_accepted {server : HandleId} (h : transfer σ o len data = .ok σ')
    (hk : σ.continuations[o]? = some (.accepted server)) : False := by
  simp only [transfer, hk] at h
  cases h

theorem transfer_received (h : transfer σ o len data = .ok σ')
    (hk : σ.continuations[o]? = some (.received client msg buf)) :
    data.length = len ∧ len ≤ (covered msg).length ∧ σ' = { σ with
      continuations := σ.continuations.set o (.received client msg (buf.write data))
      messages := if len = 0 then σ.messages else
        Function.update σ.messages client (σ.messages client ++ [data]) } := by
  simp only [transfer, hk] at h
  split at h
  · next hd =>
    cases h
    exact ⟨hd.1, hd.2, rfl⟩
  · cases h

theorem transfer_written (h : transfer σ o len data = .ok σ')
    (hk : σ.continuations[o]? = some (.written client msg buf)) : len ≤ (covered msg).length ∧
      σ' = { σ with sent := Function.update σ.sent client (σ.sent client ++
        (unsent msg buf).take len) } := by
  simp only [transfer, hk] at h
  split at h
  · next hd =>
    cases h
    exact ⟨hd, rfl⟩
  · cases h

end Transfer

theorem transferred_kept {i base len : Nat} {call : Call} {op : Operation} {data : List Byte}
    (hb : Balanced σ []) (hb' : Balanced σ' []) (hs : Sane σ.executor) (hk : Kept σ)
    (hh : σ.executor.handles.length ≤ σ'.executor.handles.length) (hcall : σ.calls[i]? = some call)
    (hm : Made σ.executor s op) (hsocket : op.socket = call.socket)
    (hf : op.func = .value (.length len))
    (h : transfer (issued σ s i (call.continuation base)) σ.executor.ops.length len data = .ok σ') :
    Kept σ' := by
  have hmem := List.mem_of_getElem? hcall
  have htok := mem_tokens_call hmem
  have hlt := token_lt hb hs htok
  have hsent := hk.sent _ _ htok
  have hu : undelivered op.func = [] := by rw [hf]; rfl
  have hother : ∀ k x left, x ≠ call.socket → (x, left) ∈ tokens (issued σ s i k) →
      (x, left) ∈ tokens σ :=
    fun k x left hx => tokens_issued_other hb hm hu (hsocket ▸ hx)
  have hnew : ∀ k, (call.socket, rest k op.func) ∈ tokens (issued σ s i k) :=
    fun k => hsocket ▸ mem_tokens_issued hb hm
  have hk' := continuation_issued (s := s) (i := i) (k := call.continuation base) hb
  cases call with
  | acceptor server => exact (transfer_accepted h hk').elim
  | reader client =>
    obtain ⟨hd, hle, rfl⟩ := transfer_received h hk'
    rw [length_covered_whole] at hle
    have hfits : Fits
        (.received client [⟨base, 1024#64⟩] (Buffer.write ⟨base, List.replicate 1024 0#8⟩ data))
        op.func := ⟨rfl, fun hne => absurd hf (hne len)⟩
    simp only [continuations_issued_set hb] at hb' hh ⊢
    -- no message is received when the client is gone
    by_cases hz : len = 0
    · simp only [if_pos hz] at hb' hh ⊢
      refine kept_of_tokens hk rfl rfl hh (fun x left hx => ?_) (eraseIdx_fits hk i)
        (issued_fits hb hk hm hfits)
      obtain hx | ⟨rfl, rfl⟩ | ⟨hx, -⟩ := tokens_issued hb hm hx
      · exact .inl hx
      · rw [hf, rest, if_pos hz, hsocket]
        exact .inl htok
      · rw [hu] at hx
        cases hx
    · simp only [if_neg hz] at hb' hh ⊢
      refine kept_of_moved hk hb' (fun x hx => Function.update_of_ne hx _ _) (fun _ _ => rfl) hh hlt
        (hother _) (hnew _) ?_ (eraseIdx_fits hk i) (issued_fits hb hk hm hfits)
      rw [hf, rest, if_neg hz, unsent_write (hd ▸ hle)]
      exact owed_received hsent (Function.update_self _ _ _) rfl
  | writer client msg buf =>
    obtain ⟨hle, rfl⟩ := transfer_written h hk'
    refine kept_of_moved hk hb' (fun _ _ => rfl) (fun x hx => Function.update_of_ne hx _ _) hh hlt
      (hother _) (hnew (.written client msg buf)) ?_ (eraseIdx_fits hk i)
      (issued_fits hb hk hm ?_)
    · rw [hf, rest]
      exact owed_sent hsent rfl (Function.update_self _ _ _)
    · refine ⟨hk.calls _ hmem, fun len' he => ?_⟩
      rw [hf] at he
      cases he
      exact hle

theorem kept_of_call (call : Call) {o : TaskId} {new : Operation} (hk : Kept σ)
    (hb' : Balanced σ' []) (hh : σ.executor.handles.length ≤ σ'.executor.handles.length)
    (hlt : call.socket < σ.executor.handles.length)
    (hm : ∀ x, x ≠ call.socket → σ'.messages x = σ.messages x)
    (hs : ∀ x, x ≠ call.socket → σ'.sent x = σ.sent x) (hc : σ'.calls = call :: σ.calls)
    (hops : σ'.executor.ops = σ.executor.ops.set o new) (hn : new.holds = false)
    (hks : ∀ o' ≠ o, σ'.continuations[o']? = σ.continuations[o']?) (hfits : CallFits call)
    (hleft : σ'.sent call.socket ++ callRest call = owed σ' call.socket) : Kept σ' := by
  refine kept_of_moved hk hb' hm hs hh hlt (fun x left hx ht => ?_) (mem_tokens_call ?_) hleft
    (fun call' hc' => ?_) fun o' op' k' hop' hh' hk' => ?_
  · obtain ⟨call', hc', rfl, rfl⟩ | ht := tokens_of_set hops hn hks ht
    · rw [hc] at hc'
      obtain rfl | hc' := List.mem_cons.mp hc'
      · exact absurd rfl hx
      · exact mem_tokens_call hc'
    · exact ht
  · rw [hc]
    exact List.mem_cons_self
  · rw [hc] at hc'
    obtain rfl | hc' := List.mem_cons.mp hc'
    · exact hfits
    · exact hk.calls call' hc'
  · obtain ⟨hop, hk''⟩ := op_of_set hops hn hks hop' hh' hk'
    exact hk.fits o' op' k' hop hh' hk''

theorem moved_kept {o : TaskId} {op : Operation} {len : Nat} {data : List Byte} {σ₁ : Server}
    {k : Continuation} (hb : Balanced σ []) (hb' : Balanced σ' []) (hs : Sane σ.executor)
    (hk : Kept σ) (hh : σ.executor.handles.length ≤ σ'.executor.handles.length)
    (he : Ends σ.executor o op (.setValue (.length len)) s) (ht : op.trigger ≠ .EAGER)
    (htr : transfer { σ with executor := s } o len data = .ok σ₁)
    (hcont : σ₁.continuations[o]? = some k) (h : resume σ₁ k (.setValue (.length len)) = .ok σ') :
    Kept σ' := by
  have hvalue : ∀ v, op.func ≠ .value v := fun v hv =>
    ht (hb.values op (List.mem_of_getElem? he.found) v hv)
  obtain ⟨k₀, hk₀, hsocket⟩ := continuation_of hb he.found
  have htok : (k₀.socket, rest k₀ op.func) ∈ tokens σ :=
    mem_tokens.mpr (.inr ⟨o, op, k₀, he.found, hk₀, he.holds, .inl ⟨hsocket.symm, rfl⟩⟩)
  have hlt := token_lt hb hs htok
  have hsent := hk.sent _ _ htok
  have hfits := hk.fits o op k₀ he.found he.holds hk₀
  have ho := (List.getElem?_eq_some_iff.mp hk₀).1
  -- the operation was queued, so that it has moved no bytes before
  have hnot : ∀ len, op.func ≠ .value (.length len) := fun len => hvalue (.length len)
  cases k₀ with
  | accepted server => exact (transfer_accepted htr hk₀).elim
  | received client msg buf =>
    rw [rest_received hnot] at htok hsent
    obtain ⟨rfl, hbuf⟩ := hfits
    obtain ⟨hd, hle, rfl⟩ := transfer_received htr hk₀
    rw [List.getElem?_set_self ho] at hcont
    cases hcont
    by_cases hz : len = 0
    · simp only [resume, if_pos hz] at h
      obtain ⟨-, rfl⟩ := drop_eq h
      refine kept_of_next [] hk hh rfl rfl rfl he.ops rfl (fun o' ho' => ?_) (by simp)
      exact List.getElem?_set_ne (Ne.symm ho')
    · simp only [resume, if_neg hz] at h
      cases h
      refine kept_of_call (.writer client _ (buf.write data)) hk hb' hh hlt
        (fun x hx => Function.update_of_ne hx _ _)
        (fun _ _ => rfl) rfl he.ops rfl (fun o' ho' => List.getElem?_set_ne (Ne.symm ho'))
        (Nat.le_of_eq (length_covered_whole _)) ?_
      obtain ⟨base, bytes⟩ := buf
      have hzeros : bytes = List.replicate 1024 0#8 := hbuf hnot
      subst hzeros
      rw [callRest, unsent_write (by rw [hd, ← length_covered_whole base]; exact hle)]
      exact owed_received hsent (Function.update_self _ _ _) rfl
  | written client msg buf =>
    rw [rest_written hnot] at htok hsent
    obtain ⟨hle, rfl⟩ := transfer_written htr hk₀
    rw [hk₀] at hcont
    cases hcont
    obtain ⟨call, hcall, hs, hrest, hc⟩ := written_next client buf hfits.1 hle
    simp only [resume, hcall] at h
    cases h
    subst hs
    refine kept_of_call call hk hb' hh hlt (fun _ _ => rfl)
      (fun x hx => Function.update_of_ne hx _ _) rfl he.ops rfl (fun _ _ => rfl) hc ?_
    rw [hrest]
    exact owed_sent hsent rfl (Function.update_self _ _ _)

theorem turn_kept (hb : Balanced σ []) (hs : Sane σ.executor) (hk : Kept σ) (h : Turn σ σ') :
    Kept σ' := by
  have hb' := turn_balanced hb hs h
  have hh := reaches_handles (turn_reaches h)
  cases h with
  | @waited _ s _ hops _ =>
    have ht : tokens { σ with executor := s } = tokens σ := by rw [tokens, tokens, hops]
    refine kept_of_tokens hk rfl rfl hh (fun x left hx => .inl (ht ▸ hx))
      hk.calls fun o op k hop => ?_
    rw [hops] at hop
    exact hk.fits o op k hop
  | @went _ _ o op new _ hop hops _ hf hsocket _ hh₁ _ =>
    refine kept_of_tokens hk rfl rfl hh (fun x left hx => ?_) hk.calls
      fun o' op' k' hop' hh' hk' => ?_
    · obtain hc | ⟨o', op', k', hop', hk', hh', hx⟩ := mem_tokens.mp hx
      · exact .inl (mem_tokens.mpr (.inl hc))
      · refine .inl (mem_tokens.mpr (.inr ⟨o', ?_⟩))
        simp only [hops] at hop'
        obtain ⟨rfl, rfl⟩ | ⟨-, hop'⟩ := getElem?_set_cases hop'
        · rw [hf, hsocket] at hx
          exact ⟨op, k', hop, hk', hh₁, hx⟩
        · exact ⟨op', k', hop', hk', hh', hx⟩
    · rw [hops] at hop'
      obtain ⟨rfl, rfl⟩ | ⟨-, hop'⟩ := getElem?_set_cases hop'
      · rw [hf]
        exact hk.fits o op k' hop hh₁ hk'
      · exact hk.fits o' op' k' hop' hh' hk'
  | abandoned _ _ hops _ _ _ h =>
    obtain ⟨-, rfl⟩ := drop_eq h
    exact kept_of_next [] hk hh rfl rfl rfl hops rfl (fun _ _ => rfl) (by simp)
  | @refused _ _ i _ _ _ _ hops _ h =>
    obtain ⟨-, rfl⟩ := drop_eq h
    refine kept_of_tokens hk rfl rfl hh (fun x left hx => ?_) (eraseIdx_fits hk i)
      fun o op k hop => ?_
    · obtain ⟨call', hc, hx⟩ | ⟨o, op, k, hop, hx⟩ := mem_tokens.mp hx
      · exact .inl (mem_tokens.mpr (.inl ⟨call', List.mem_of_mem_eraseIdx hc, hx⟩))
      · exact .inl (mem_tokens.mpr (.inr ⟨o, op, k, hops ▸ hop, hx⟩))
    · exact hk.fits o op k (hops ▸ hop)
  | @issued _ _ i call op base _ hcall hm hsocket hf =>
    have hmem := List.mem_of_getElem? hcall
    refine kept_of_tokens hk rfl rfl hh (fun x left hx => ?_) (eraseIdx_fits hk i)
      (issued_fits hb hk hm (fits_continuation base hf (hk.calls call hmem)))
    obtain hx | ⟨rfl, rfl⟩ | ⟨hnew, rfl⟩ := tokens_issued hb hm hx
    · exact .inl hx
    · rw [rest_continuation call base hf, hsocket]
      exact .inl (mem_tokens_call hmem)
    · exact .inr ⟨rfl, Nat.le_of_eq (hm.fresh x hnew).symm⟩
  | transferred _ _ hcall hm hsocket hf h =>
    exact transferred_kept hb hb' hs hk hh hcall hm hsocket hf h
  | completed _ he hcont hlen h =>
    obtain ⟨k, hk', hsocket⟩ := continuation_of hb he.found
    rw [hcont] at hk'
    cases hk'
    exact completed_kept hk hh he hcont hsocket hlen h
  | moved _ he ht htr hcont h => exact moved_kept hb hb' hs hk hh he ht htr hcont h

theorem initial_kept (config : Config) (fd : Fd) : Kept (initial config fd) := by
  refine ⟨fun x left hx => ?_, fun x => List.prefix_refl _, fun x _ => ⟨rfl, rfl⟩, ?_, ?_⟩
  · obtain ⟨call, hc, rfl, rfl⟩ | ⟨o, op, k, hop, -⟩ := mem_tokens.mp hx
    · rw [List.mem_singleton.mp hc]
      rfl
    · cases hop
  · simp [initial, CallFits]
  · intro o op k hop
    cases hop

theorem serve_kept {config : Config} {fd : Fd} (hfd : valid fd) {tr : List Move}
    (h : serve config fd tr = .ok σ) :
    Kept σ := by
  refine Runs.run_induction (fun _ σ => Kept σ) (initial_kept config fd) ?_ h
  intro tr σ m σ' hu hm hk
  obtain ⟨tr', hr, hb⟩ := serve_balanced hfd hu
  exact turn_kept hb (run_sane hr) hk (step_turn hr hb hm)

/-- What the server sends to a client is its messages in order, each as a block of
1024 bytes that begins with the message and goes on with zeros. However the
sends are split, interrupted or deferred, and whatever other clients do, no
byte is lost, repeated or sent to another client: a pending send, or a call that
is to make one, has exactly the rest to send, and the next message is only
received, at once or later, when all is sent. -/
theorem echo_is_blocks (config : Config) (fd : Fd) (hfd : valid fd) (tr : List Move)
    (h : serve config fd tr = .ok σ) :
    (∀ client, σ.sent client <+: (σ.messages client).flatMap block) ∧
    (∀ (o : TaskId) (op : Operation), σ.executor.ops[o]? = some op → op.holds = true →
      (∀ client msg buf, σ.continuations[o]? = some (.written client msg buf) → op.func = .sendmsg →
        σ.sent client ++ unsent msg buf = (σ.messages client).flatMap block) ∧
      ∀ client msg buf, σ.continuations[o]? = some (.received client msg buf) → op.func = .recvmsg →
        σ.sent client = (σ.messages client).flatMap block) ∧
    (∀ client msg buf, .writer client msg buf ∈ σ.calls →
      σ.sent client ++ unsent msg buf = (σ.messages client).flatMap block) ∧
    ∀ client, .reader client ∈ σ.calls → σ.sent client = (σ.messages client).flatMap block := by
  obtain ⟨-, -, hb⟩ := serve_balanced hfd h
  have hk := serve_kept hfd h
  have sent : ∀ {o : TaskId} {op : Operation} {k : Continuation}, σ.executor.ops[o]? = some op →
      op.holds = true →
      σ.continuations[o]? = some k → σ.sent k.socket ++ rest k op.func = owed σ k.socket := by
    intro o op k hop hh hcont
    obtain ⟨k', hk', hsocket⟩ := continuation_of hb hop
    rw [hcont] at hk'
    cases hk'
    exact hk.sent _ _ (mem_tokens.mpr (.inr ⟨o, op, k, hop, hcont, hh, .inl ⟨hsocket.symm, rfl⟩⟩))
  refine ⟨hk.begun,
    fun o op hop hh => ⟨fun client msg buf hcont hf => ?_, fun client msg buf hcont hf => ?_⟩,
    fun client msg buf hm => hk.sent _ _ (mem_tokens_call hm), fun client hm => ?_⟩
  · have hs := sent hop hh hcont
    rw [hf] at hs
    exact hs
  · have hs := sent hop hh hcont
    rw [hf] at hs
    exact (List.append_nil _).symm.trans hs
  · exact (List.append_nil _).symm.trans (hk.sent _ _ (mem_tokens_call hm))

set_option maxRecDepth 20000 in
theorem echo_is_blocks_partial :
    ∃ σ msg buf, serve {} 5#32 [.perform 0 [.accepted 7#32 0 true] 0 [], .connect 0,
      .start 0, .perform 0 [.transferred 2] 5000 [104#8, 105#8], .connect 1, .start 1,
      .perform 0 [.transferred 1000] 0 [], .connect 2, .start 2,
      .perform 0 [.failed ⟨11, by decide⟩] 0 [], .connect 3,
      .start 3] = .ok σ ∧ σ.messages 1 = [[104#8, 105#8]] ∧
    σ.continuations[3]? = some (.written 1 msg buf) ∧
    σ.sent 1 ++ unsent msg buf = (σ.messages 1).flatMap block := by
  have h := echo_is_blocks {} 5#32 ⟨by decide, by decide⟩
    [.perform 0 [.accepted 7#32 0 true] 0 [], .connect 0,
    .start 0, .perform 0 [.transferred 2] 5000 [104#8, 105#8], .connect 1, .start 1,
    .perform 0 [.transferred 1000] 0 [], .connect 2, .start 2,
    .perform 0 [.failed ⟨11, by decide⟩] 0 [], .connect 3, .start 3] rfl
  exact ⟨_, _, _, rfl, rfl, rfl, (h.2.1 3 _ rfl rfl).1 _ _ _ rfl rfl⟩

end AsyncBerkeley.Echoes
