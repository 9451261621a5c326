import AsyncBerkeley.PollMultiplexer

namespace AsyncBerkeley.Operations

open Events InterestList SocketHandles PollMultiplexer

structure Span where
  data : Nat
  size : Nat
  deriving DecidableEq, Repr

def Span.subspan (s : Span) (offset count : Nat) : Span := ⟨s.data + offset, count⟩

/-- One return of the system call of an operation. An accepted descriptor
comes with the length written back and with whether `fcntl` succeeds on it. -/
inductive Answer where
  | failed (errno : Errno)
  | accepted (fd : Fd) (socklen : Nat) (nonblocking : Bool)
  | transferred (len : Nat)
  | succeeded
  deriving DecidableEq

/-- The loops of the synchronous operations, which call again after an
interruption. There is no result while the system call is only interrupted. -/
def retry : List Answer → Option Answer
  | [] => none
  | .failed errno :: answers => if errno.val = EINTR then retry answers else some (.failed errno)
  | answer :: _ => some answer

inductive Value where
  | dialog (socket : HandleId) (address : Span)
  | length (len : Nat)
  | status (ret : Int)
  deriving DecidableEq

/-- The completion functor of an operation: empty, holding the result of an
eager attempt, or one that makes the system call when it is invoked. A functor
given to `set` by the user is of the last kind. -/
inductive Completion where
  | empty
  | value (v : Value)
  | accept (address : Span)
  | recvmsg
  | sendmsg
  | connect
  | user
  deriving DecidableEq

inductive Outcome where
  | setValue (v : Value)
  | setError (error : Int)
  deriving DecidableEq

/-- The life of an operation: a sender, then an operation state that is
connected and started, which queues or completes it. An operation whose
`connect` threw is abandoned. -/
inductive Status where
  | created
  | connected
  | queued
  | completed (outcome : Outcome)
  | abandoned
  deriving DecidableEq

/-- A sender and the operation state made from it. The pointer `demux` is a
position in the deque, which keeps its elements in place when it grows. -/
structure Operation where
  func : Completion
  socket : HandleId
  trigger : ExecutionTrigger
  demux : Option Nat := none
  status : Status := .created
  deriving DecidableEq

def Operation.holds (op : Operation) : Bool :=
  match op.status with
  | .created | .connected | .queued => true
  | .completed _ | .abandoned => false

def resize (demux : List Demultiplexer) (n : Nat) : List Demultiplexer :=
  demux.take n ++ List.replicate (n - demux.length) (.mk [] [] none)

/-- The deque after the locked section of `connect` has made room for a descriptor.
The size is compared with an unsigned sum, which is zero for `INVALID_SOCKET`. -/
def makeRoom (demux : List Demultiplexer) (sockfd : Fd) : List Demultiplexer :=
  if demux.length < (sockfd.signExtend 64 + 1#64).toNat then resize demux (toSize (sockfd + 1#32))
  else demux

/-- The locked section of `connect`. It gives a pointer to the demultiplexer,
or none when `at` throws. -/
def register (mux : Multiplexer) (sockfd : Fd) (trigger : ExecutionTrigger) :
    Multiplexer × Option Nat :=
  let demux := makeRoom mux.demux sockfd
  if toSize sockfd < demux.length then
    (⟨demux, mux.list.register (makePollEvent sockfd trigger)⟩, some (toSize sockfd))
  else (⟨demux, mux.list⟩, none)

def push (demux : Demultiplexer) (o : TaskId) (trigger : ExecutionTrigger) (socket : HandleId) :
    Demultiplexer where
  writeQueue := if trigger = .WRITE then demux.writeQueue ++ [o] else demux.writeQueue
  readQueue := if trigger = .READ then demux.readQueue ++ [o] else demux.readQueue
  socket := some socket

theorem push_queue (demux : Demultiplexer) (o : TaskId) (d d' : Direction) (socket : HandleId) :
    (push demux o d.trigger socket).queue d' =
      if d' = d then demux.queue d' ++ [o] else demux.queue d' := by
  cases d <;> cases d' <;> simp [push, Demultiplexer.queue, Direction.trigger]

theorem toSize_add_one (fd : Fd) : (fd.signExtend 64 + 1#64).toNat ≤ toSize (fd + 1#32) := by
  have h := fd.isLt
  simp only [toSize, BitVec.toNat_add, BitVec.toNat_signExtend, BitVec.toNat_setWidth,
    BitVec.msb_eq_decide, BitVec.toNat_ofNat]
  split <;> split <;> simp_all <;> omega

theorem makeRoom_eq (demux : List Demultiplexer) (fd : Fd) :
    ∃ n, makeRoom demux fd = demux ++ List.replicate n (.mk [] [] none) := by
  unfold makeRoom
  split
  · next h =>
    have hle := toSize_add_one fd
    exact ⟨toSize (fd + 1#32) - demux.length, by rw [resize, List.take_of_length_le (by omega)]⟩
  · exact ⟨0, by simp⟩

theorem makeRoom_getElem? (demux : List Demultiplexer) (fd : Fd) (i : Nat) :
    (makeRoom demux fd)[i]? = demux[i]? ∨
      demux[i]? = none ∧ (makeRoom demux fd)[i]? = some (.mk [] [] none) := by
  obtain ⟨n, hn⟩ := makeRoom_eq demux fd
  rw [hn]
  by_cases hi : i < demux.length
  · exact .inl (List.getElem?_append_left hi)
  · rw [List.getElem?_append_right (Nat.le_of_not_lt hi),
      List.getElem?_eq_none (Nat.le_of_not_lt hi)]
    by_cases hr : i - demux.length < n
    · exact .inr ⟨rfl, by simp [hr]⟩
    · exact .inl (by simp [hr])

variable (mux : Multiplexer) (list : Interest) (fd fd' : Fd)

theorem queue_makeRoom (d : Direction) :
    (⟨makeRoom mux.demux fd, list⟩ : Multiplexer).queue fd' d = mux.queue fd' d := by
  obtain h | ⟨hn, h⟩ := makeRoom_getElem? mux.demux fd (toSize fd')
  · simp [Multiplexer.queue, h]
  · cases d <;> simp [Multiplexer.queue, h, hn, Demultiplexer.queue]

theorem socket_makeRoom :
    (⟨makeRoom mux.demux fd, list⟩ : Multiplexer).socket fd' = mux.socket fd' := by
  obtain h | ⟨hn, h⟩ := makeRoom_getElem? mux.demux fd (toSize fd')
  · simp [Multiplexer.socket, h]
  · simp [Multiplexer.socket, h, hn]

theorem pending_makeRoom (demux : List Demultiplexer) (o : TaskId) :
    pending (makeRoom demux fd) o = pending demux o := by
  obtain ⟨n, hn⟩ := makeRoom_eq demux fd
  simp [pending, hn]

theorem length_le_makeRoom (demux : List Demultiplexer) :
    demux.length ≤ (makeRoom demux fd).length := by
  obtain ⟨n, hn⟩ := makeRoom_eq demux fd
  simp [hn]

end AsyncBerkeley.Operations
