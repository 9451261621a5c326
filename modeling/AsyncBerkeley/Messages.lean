import AsyncBerkeley.Operations

namespace AsyncBerkeley.Messages

open SocketHandles Operations

structure Msghdr where
  msgName : Nat
  msgNamelen : Nat
  msgIov : Nat
  msgIovlen : Nat
  msgControl : Nat
  msgControllen : Nat
  msgFlags : Int
  deriving DecidableEq, Repr

structure MessageHeader where
  msgName : Span := ⟨0, 0⟩
  msgIov : Span
  msgControl : Span
  flags : Int := 0
  deriving DecidableEq, Repr

/-- `socket_message`, through the memory its fields own. -/
structure SocketMessage where
  address : Option Span
  buffers : Span
  control : Span
  flags : Int := 0
  deriving DecidableEq, Repr

def SocketMessage.toHeader (msg : SocketMessage) : MessageHeader where
  msgName := msg.address.getD ⟨0, 0⟩
  msgIov := msg.buffers
  msgControl := msg.control
  flags := msg.flags

def MessageHeader.toNative (header : MessageHeader) : Msghdr where
  msgName := header.msgName.data
  msgNamelen := header.msgName.size % 2 ^ 32
  msgIov := header.msgIov.data
  msgIovlen := header.msgIov.size
  msgControl := header.msgControl.data
  msgControllen := header.msgControl.size
  msgFlags := header.flags

inductive Message where
  | native (msg : Msghdr)
  | header (msg : MessageHeader)
  | message (msg : SocketMessage)
  deriving DecidableEq, Repr

def Message.toNative : Message → Msghdr
  | .native msg => msg
  | .header msg => msg.toNative
  | .message msg => msg.toHeader.toNative

def Message.setFlags (flags : Int) : Message → Message
  | .native msg => .native { msg with msgFlags := flags }
  | .header msg => .header { msg with flags := flags }
  | .message msg => .message { msg with flags := flags }

structure Received where
  len : Nat
  flags : Int
  namelen : Nat
  controllen : Nat
  deriving DecidableEq, Repr

def Received.write (r : Received) (msg : Msghdr) : Msghdr :=
  { msg with msgNamelen := r.namelen, msgControllen := r.controllen, msgFlags := r.flags }

inductive RecvAnswer where
  | failed (errno : Errno)
  | received (r : Received)
  deriving DecidableEq

/-- The loop around the system call, on the header that it is given. -/
def receive (msg : Msghdr) : List RecvAnswer → Option (Except Errno Nat × Msghdr)
  | [] => none
  | .failed errno :: answers =>
    if errno.val = EINTR then receive msg answers else some (.error errno, msg)
  | .received r :: _ => some (.ok r.len, r.write msg)

/-- The synchronous `recvmsg`. A native message is given to the kernel itself;
of the others a converted copy is, of which the flags are copied back. -/
def syncRecvmsg (answers : List RecvAnswer) : Message → Option (Except Errno Nat × Message)
  | .native msg => (receive msg answers).map fun (len, msg) => (len, .native msg)
  | .header msg =>
    (receive msg.toNative answers).map fun (len, msghdr) =>
      (len, .header { msg with flags := msghdr.msgFlags })
  | .message msg =>
    (receive msg.toHeader.toNative answers).map fun (len, msghdr) =>
      (len, .message { msg with flags := msghdr.msgFlags })

/-- What the asynchronous `recvmsg` makes of its eager attempt: a result, an
empty functor, or a functor that has captured a native copy of the message. -/
inductive Issue where
  | eager (len : Nat)
  | empty
  | deferred (msghdr : Msghdr)
  deriving DecidableEq

/-- The asynchronous `recvmsg`. Without an attempt the functor is deferred at once. -/
def asyncRecvmsg (attempted : Bool) (answers : List RecvAnswer) (msg : Message) :
    Option (Issue × Message) :=
  if attempted then
    (syncRecvmsg answers msg).map fun (len, msg) => match len with
      | .ok len => (.eager len, msg)
      | .error errno => (if hard errno then .empty else .deferred msg.toNative, msg)
  else some (.deferred msg.toNative, msg)

/-- The functor of a deferred operation: the kernel is given the captured copy,
and its flags are written to the caller's message. -/
def invokeDeferred (msghdr : Msghdr) (answers : List RecvAnswer) (msg : Message) :
    Option (Except Errno Nat × Message) :=
  (receive msghdr answers).map fun (len, msghdr) => (len, msg.setFlags msghdr.msgFlags)

def lastAnswer : List RecvAnswer → Option RecvAnswer
  | [] => none
  | .failed errno :: answers =>
    if errno.val = EINTR then lastAnswer answers else some (.failed errno)
  | .received r :: _ => some (.received r)

theorem receive_eq (msg : Msghdr) (answers : List RecvAnswer) :
    receive msg answers = (lastAnswer answers).map fun
      | .failed errno => (.error errno, msg)
      | .received r => (.ok r.len, r.write msg) := by
  induction answers with
  | nil => rfl
  | cons answer answers ih =>
    cases answer with
    | received r => rfl
    | failed errno =>
      unfold receive lastAnswer
      split
      · exact ih
      · rfl

/-- The byte count or error is the one that the executor works with. -/
theorem receive_retry (msg : Msghdr) (answers : List RecvAnswer) :
    (receive msg answers).map (fun x => match x.1 with
      | .ok len => Answer.transferred len
      | .error errno => .failed errno) =
    retry (answers.map fun
      | .failed errno => .failed errno
      | .received r => .transferred r.len) := by
  induction answers with
  | nil => rfl
  | cons answer answers ih =>
    cases answer with
    | received r => rfl
    | failed errno =>
      simp only [receive, List.map_cons, retry]
      split
      · exact ih
      · rfl

theorem syncRecvmsg_failed {answers : List RecvAnswer} {errno : Errno}
    (h : lastAnswer answers = some (.failed errno)) (msg : Message) :
    syncRecvmsg answers msg = some (.error errno, msg) := by
  cases msg <;> simp [syncRecvmsg, receive_eq, h, MessageHeader.toNative, SocketMessage.toHeader]

theorem deferred_eq {attempted : Bool} {answers : List RecvAnswer} {msg msg' : Message}
    {msghdr : Msghdr} (h : asyncRecvmsg attempted answers msg = some (.deferred msghdr, msg')) :
    msghdr = msg.toNative ∧ msg' = msg := by
  unfold asyncRecvmsg at h
  split at h
  · cases hl : lastAnswer answers with
    | none => cases msg <;> simp [syncRecvmsg, receive_eq, hl] at h
    | some answer =>
      cases answer with
      | failed errno =>
        rw [syncRecvmsg_failed hl] at h
        simp only [Option.map_some, Option.some.injEq, Prod.mk.injEq] at h
        obtain ⟨hi, rfl⟩ := h
        split at hi
        · cases hi
        · cases hi
          exact ⟨rfl, rfl⟩
      | received r => cases msg <;> simp [syncRecvmsg, receive_eq, hl] at h
  · cases h
    exact ⟨rfl, rfl⟩

def keepsLengths (r : Received) : Message → Bool
  | .native msg => r.namelen == msg.msgNamelen && r.controllen == msg.msgControllen
  | .header _ | .message _ => true

/-- The eager and the deferred `recvmsg` deliver the same byte count. They leave
the caller's message in the same state exactly when it is not a native one whose
lengths the kernel changes. -/
theorem eager_eq_deferred_iff (attempted : Bool) (answers answers' answers'' : List RecvAnswer)
    (r : Received) (msg : Message) {msg' : Message} {msghdr : Msghdr}
    (he : lastAnswer answers = some (.received r))
    (hd : asyncRecvmsg attempted answers' msg = some (.deferred msghdr, msg'))
    (hr : lastAnswer answers'' = some (.received r)) :
    ∃ eager deferred, asyncRecvmsg true answers msg = some (.eager r.len, eager) ∧
      invokeDeferred msghdr answers'' msg' = some (.ok r.len, deferred) ∧
      (eager = deferred ↔ keepsLengths r msg = true) := by
  obtain ⟨rfl, rfl⟩ := deferred_eq hd
  cases msg' with
  | native msg =>
    refine ⟨.native (r.write msg), .native { msg with msgFlags := r.flags }, ?_, ?_, ?_⟩
    · simp [asyncRecvmsg, syncRecvmsg, receive_eq, he]
    · simp [invokeDeferred, receive_eq, hr, Message.setFlags, Received.write]
    · simp [Received.write, keepsLengths]
  | header msg =>
    refine ⟨.header { msg with flags := r.flags },
      .header { msg with flags := r.flags }, ?_, ?_, ?_⟩
    · simp [asyncRecvmsg, syncRecvmsg, receive_eq, he, Received.write]
    · simp [invokeDeferred, receive_eq, hr, Message.setFlags, Received.write]
    · simp [keepsLengths]
  | message msg =>
    refine ⟨.message { msg with flags := r.flags },
      .message { msg with flags := r.flags }, ?_, ?_, ?_⟩
    · simp [asyncRecvmsg, syncRecvmsg, receive_eq, he, Received.write]
    · simp [invokeDeferred, receive_eq, hr, Message.setFlags, Received.write]
    · simp [keepsLengths]

/-- The length of the sender's address reaches a native message only eagerly. -/
theorem deferred_drops_lengths :
    ¬ ∀ (attempted : Bool) (answers answers' answers'' : List RecvAnswer)
    (r : Received) (msg msg' : Message) (msghdr : Msghdr), lastAnswer answers = some (.received r) →
    asyncRecvmsg attempted answers' msg = some (.deferred msghdr, msg') →
    lastAnswer answers'' = some (.received r) →
    ∃ result, asyncRecvmsg true answers msg = some (.eager r.len, result) ∧
      invokeDeferred msghdr answers'' msg' = some (.ok r.len, result) := by
  intro h
  obtain ⟨result, he, hd⟩ := h true [.received ⟨7, 0, 16, 0⟩] [.failed ⟨EAGAIN, by decide⟩]
    [.received ⟨7, 0, 16, 0⟩] ⟨7, 0, 16, 0⟩ (.native ⟨100, 128, 200, 1, 0, 0, 0⟩) _ _ rfl rfl rfl
  cases he
  exact absurd hd (by decide)

theorem eager_eq_deferred_truncated : ∃ result,
    asyncRecvmsg true [.failed ⟨EINTR, by decide⟩, .received ⟨7, 32, 16, 0⟩]
      (.message ⟨some ⟨100, 128⟩, ⟨200, 1⟩, ⟨0, 0⟩, 0⟩) = some (.eager 7, result) ∧
    invokeDeferred ⟨100, 128, 200, 1, 0, 0, 0⟩ [.received ⟨7, 32, 16, 0⟩]
      (.message ⟨some ⟨100, 128⟩, ⟨200, 1⟩, ⟨0, 0⟩, 0⟩) = some (.ok 7, result) := by
  obtain ⟨eager, deferred, he, hd, h⟩ := eager_eq_deferred_iff true
    [.failed ⟨EINTR, by decide⟩, .received ⟨7, 32, 16, 0⟩] [.failed ⟨EAGAIN, by decide⟩]
    [.received ⟨7, 32, 16, 0⟩] ⟨7, 32, 16, 0⟩
      (.message ⟨some ⟨100, 128⟩, ⟨200, 1⟩, ⟨0, 0⟩, 0⟩) rfl rfl rfl
  obtain rfl := h.mpr rfl
  exact ⟨eager, he, hd⟩

end AsyncBerkeley.Messages
