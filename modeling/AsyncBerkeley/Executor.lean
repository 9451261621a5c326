import AsyncBerkeley.Runs
import AsyncBerkeley.Operations

namespace AsyncBerkeley.Executor

open Events InterestList SocketHandles PollMultiplexer Operations

inductive Phase where
  | polling
  | polled
  | running
  | returned
  | threw (errno : Errno)
  deriving DecidableEq

/-- A call of `wait_for`: its local list, first the snapshot and then the
reported events, and its local ready queue. -/
structure Wait where
  interval : Int
  list : List Pollfd
  ready : List TaskId := []
  phase : Phase := .polling
  deriving DecidableEq

inductive Event where
  | registered (fd : Fd) (trigger : ExecutionTrigger)
  | processed (event : Pollfd)
  | queued (o : TaskId)
  | executed (o : TaskId)
  deriving DecidableEq

structure Config where
  eagerAccept : Bool := true
  eagerRecv : Bool := true
  eagerSend : Bool := true
  deriving DecidableEq

/-- Everything the threads share: the handles, the dialogs that hold them, the
fairness counter, the multiplexer, the operations and the calls of `wait_for`. -/
structure State where
  config : Config := {}
  handles : Handles := []
  dialogs : List HandleId := []
  counter : BitVec 8 := 0#8
  mux : Multiplexer := {}
  ops : List Operation := []
  waits : List Wait := []
  history : List Event := []

/-- Why a step does not lead to another state: the action cannot be taken, or
the program's behaviour is undefined or ends. -/
inductive Fault where
  | disabled
  | nullDemux
  | nullSocket
  | outOfRange
  | emptyFunctor
  | terminate
  deriving DecidableEq

/-- A handle lives while a dialog or an operation that is not completed holds it. -/
def live (s : State) (h : HandleId) : Bool :=
  decide (h ∈ s.dialogs) || s.ops.any (fun op => op.socket == h && op.holds)

/-- The descriptors the kernel may hand out: valid ones that no live handle owns. -/
def fresh (s : State) (fd : Fd) : Bool :=
  decide (0 ≤ fd.toInt) && decide (fd.toInt < 2 ^ 31 - 1) &&
    (List.range s.handles.length).all (fun h => !live s h || descriptor s.handles h != fd)

def adopt (s : State) (fd : Fd) : State :=
  { s with handles := s.handles ++ [{ socket := fd }], dialogs := s.dialogs ++ [s.handles.length] }

/-- `basic_poll_multiplexer::set`. -/
def setSender (s : State) (socket : HandleId) (trigger : ExecutionTrigger) (func : Completion) :
    State :=
  { s with ops := s.ops ++ [{ func := func, socket := socket, trigger := trigger }] }

/-- The common shape of the asynchronous operations. An attempt is made unless
the counter wraps to zero; its error is recorded on the shared handle. -/
def attempt (s : State) (eager : Bool) (socket : HandleId) (trigger : ExecutionTrigger)
    (func : Completion) (answers : List Answer) (succeed : State → Answer → Except Fault State) :
    Except Fault State :=
  if socket ∉ s.dialogs then .error .disabled
  else if eager && s.counter + 1#8 != 0#8 then
    match retry answers with
    | none => .error .disabled
    | some (.failed errno) =>
      let handles := recordError s.handles socket errno
      let s := { s with counter := s.counter + 1#8, handles := handles }
      if hard (errorOf handles socket) then .ok (setSender s socket .EAGER .empty)
      else .ok (setSender s socket trigger func)
    | some answer => succeed { s with counter := s.counter + 1#8 } answer
  else .ok (setSender
    { s with counter := if eager then s.counter + 1#8 else s.counter } socket trigger func)

/-- An accepted descriptor is pushed to the executor, which throws when it
cannot make it non-blocking; no sender is made then. -/
def acceptSucceed (socket : HandleId) (address : Span) (s : State) : Answer → Except Fault State
  | .accepted fd socklen nonblocking =>
    if !fresh s fd then .error .disabled
    else if nonblocking then
      .ok (setSender (adopt s fd) socket .EAGER
        (.value (.dialog s.handles.length (address.subspan 0 socklen))))
    else .ok s
  | _ => .error .disabled

def transferSucceed (socket : HandleId) (s : State) : Answer → Except Fault State
  | .transferred len => .ok (setSender s socket .EAGER (.value (.length len)))
  | _ => .error .disabled

def accept (s : State) (socket : HandleId) (address : Span) (answers : List Answer) :
    Except Fault State :=
  attempt s s.config.eagerAccept socket .READ (.accept address) answers
    (acceptSucceed socket address)

def recvmsg (s : State) (socket : HandleId) (answers : List Answer) : Except Fault State :=
  attempt s s.config.eagerRecv socket .READ .recvmsg answers (transferSucceed socket)

def sendmsg (s : State) (socket : HandleId) (answers : List Answer) : Except Fault State :=
  attempt s s.config.eagerSend socket .WRITE .sendmsg answers (transferSucceed socket)

def EALREADY : Int := 114
def EINPROGRESS : Int := 115
def EISCONN : Int := 106

def handleConnectError (handles : Handles) (socket : HandleId) (errno : Int) : Handles :=
  if errno = EINPROGRESS ∨ errno = EAGAIN ∨ errno = EALREADY ∨ errno = EISCONN then handles
  else recordError handles socket errno

/-- The asynchronous `connect` of a dialog. Its functor always returns zero. -/
def connectDialog (s : State) (socket : HandleId) (answers : List Answer) : Except Fault State :=
  if socket ∉ s.dialogs then .error .disabled
  else match retry answers with
    | some .succeeded => .ok (setSender s socket .WRITE .connect)
    | some (.failed errno) =>
      .ok (setSender
        { s with handles := handleConnectError s.handles socket errno } socket .WRITE .connect)
    | _ => .error .disabled

/-- Invoke a completion functor: its result, or the value of `errno` when it returns nothing. -/
def invoke (s : State) (func : Completion) (answers : List Answer) :
    Except Fault (State × Except Errno Value) :=
  match func, retry answers with
  | .empty, _ => .error .emptyFunctor
  | .value v, _ => .ok (s, .ok v)
  | .connect, _ => .ok (s, .ok (.status 0))
  | _, some (.failed errno) => .ok (s, .error errno)
  | .accept address, some (.accepted fd socklen nonblocking) =>
    if !fresh s fd then .error .disabled
    else if nonblocking then
      .ok (adopt s fd, .ok (.dialog s.handles.length (address.subspan 0 socklen)))
    else .error .terminate
  | .recvmsg, some (.transferred len) => .ok (s, .ok (.length len))
  | .sendmsg, some (.transferred len) => .ok (s, .ok (.length len))
  | .user, some (.transferred len) => .ok (s, .ok (.length len))
  | _, _ => .error .disabled

def settle (s : State) (o : TaskId) (op : Operation) (outcome : Outcome) : State :=
  { s with ops := s.ops.set o { op with status := .completed outcome } }

/-- A result that is not delivered is destroyed with its functor: an accepted dialog too. -/
def discardResult (s : State) : Completion → State
  | .value (.dialog socket _) => { s with dialogs := s.dialogs.erase socket }
  | _ => s

/-- `state::complete`. The recorded error of the socket comes before the functor. -/
def complete (s : State) (o : TaskId) (op : Operation) (answers : List Answer) :
    Except Fault State :=
  if hard (errorOf s.handles op.socket) then
    .ok (settle (discardResult s op.func) o op (.setError (errorOf s.handles op.socket)))
  else match invoke s op.func answers with
    | .error fault => .error fault
    | .ok (s, .ok v) => .ok (settle s o op (.setValue v))
    | .ok (s, .error errno) => .ok (settle s o op (.setError errno))

def outcomeOf (s : State) (o : TaskId) : Option Outcome :=
  match s.ops[o]?.map Operation.status with
  | some (.completed outcome) => some outcome
  | _ => none

def connect (s : State) (o : TaskId) : Except Fault State :=
  match s.ops[o]? with
  | none => .error .disabled
  | some op =>
    if op.status ≠ .created then .error .disabled
    else if !hard (errorOf s.handles op.socket) && op.trigger != .EAGER then
      match register s.mux (descriptor s.handles op.socket) op.trigger with
      | (mux, some demux) =>
        .ok { s with
          mux := mux
          ops := s.ops.set o { op with demux := some demux, status := .connected }
          history := s.history ++ [.registered (descriptor s.handles op.socket) op.trigger] }
      | (mux, none) =>
        .ok { s with mux := mux, ops := s.ops.set o { op with status := .abandoned } }
    else .ok { s with ops := s.ops.set o { op with status := .connected } }

/-- `state::start`. It reads the recorded error again. -/
def start (s : State) (o : TaskId) : Except Fault State :=
  match s.ops[o]? with
  | none => .error .disabled
  | some op =>
    if op.status ≠ .connected then .error .disabled
    else if op.trigger == .EAGER || hard (errorOf s.handles op.socket) then complete s o op []
    else match op.demux.bind (fun i => (s.mux.demux[i]?).map (fun demux => (i, demux))) with
      | none => .error .nullDemux
      | some (i, demux) =>
        .ok { s with
          mux := { s.mux with demux := s.mux.demux.set i (push demux o op.trigger op.socket) }
          ops := s.ops.set o { op with status := .queued }
          history := s.history ++ [.queued o] }

/-- The first locked section of `wait_for`. -/
def snapshot (s : State) (interval : Int) : State :=
  { s with waits := s.waits ++ [{ interval := interval, list := copyActive s.mux.list.entries }] }

/-- The call of `poll_` in `wait_for`, with answers that poll(2) allows. -/
def poll (s : State) (w : Nat) (begin : Int) (answers : List PollAnswer) : Except Fault State :=
  match s.waits[w]? with
  | none => .error .disabled
  | some wait =>
    if wait.phase ≠ .polling ∨
      !answers.all (fun answer => answer.allowed wait.list wait.interval) then
      .error .disabled
    else match poll_ wait.list wait.interval begin answers with
      | none => .error .disabled
      | some (.error errno) =>
        .ok { s with waits := s.waits.set w { wait with phase := .threw errno } }
      | some (.ok events) =>
        .ok { s with waits := s.waits.set w { wait with list := events, phase := .polled } }

/-- The second locked section of `wait_for`. The tasks in the ready queue of a
call that throws are lost with it. -/
def pass (s : State) (w : Nat) (getsockopt : Fd → Except Errno Int) : Except Fault State :=
  match s.waits[w]? with
  | none => .error .disabled
  | some wait =>
    if wait.phase ≠ .polled then .error .disabled
    else
      let result := handleEvents getsockopt { mux := s.mux, handles := s.handles } wait.list
      let next (wait : Wait) : State := { s with
        mux := result.1.mux
        handles := result.1.handles
        waits := s.waits.set w wait
        history := s.history ++ result.1.begun.map .processed }
      match result.2 with
      | none => .ok (next { wait with ready := result.1.ready, phase := .running })
      | some (.threw errno) => .ok (next { wait with phase := .threw errno })
      | some .nullSocket => .error .nullSocket
      | some .outOfRange => .error .outOfRange

/-- One round of `run_queue`: the front task of the ready queue is popped and executed. -/
def execute (s : State) (w : Nat) (answers : List Answer) : Except Fault State :=
  match s.waits[w]? with
  | none => .error .disabled
  | some wait =>
    match wait.ready with
    | [] => .error .disabled
    | o :: ready =>
      match s.ops[o]? with
      | none => .error .disabled
      | some op =>
        complete { s with
          waits := s.waits.set w { wait with ready := ready }
          history := s.history ++ [.executed o] } o op answers

def finish (s : State) (w : Nat) : Except Fault State :=
  match s.waits[w]? with
  | none => .error .disabled
  | some wait =>
    if wait.phase = .running ∧ wait.ready = [] then
      .ok { s with waits := s.waits.set w { wait with phase := .returned } }
    else .error .disabled

/-- What can happen next, on any thread. -/
inductive Action where
  | emplace (fd : Fd)
  | copyDialog (socket : HandleId)
  | dropDialog (socket : HandleId)
  | accept (socket : HandleId) (address : Span) (answers : List Answer)
  | recvmsg (socket : HandleId) (answers : List Answer)
  | sendmsg (socket : HandleId) (answers : List Answer)
  | connectDialog (socket : HandleId) (answers : List Answer)
  | set (socket : HandleId) (d : Direction)
  | connect (o : TaskId)
  | start (o : TaskId)
  | snapshot (interval : Int)
  | poll (w : Nat) (begin : Int) (answers : List PollAnswer)
  | pass (w : Nat) (getsockopt : Fd → Except Errno Int)
  | execute (w : Nat) (answers : List Answer)
  | finish (w : Nat)

/-- A handle without a valid descriptor can be made as well: it owns none. -/
def emplace (s : State) (fd : Fd) : Except Fault State :=
  if fd = INVALID_SOCKET ∨ fresh s fd then .ok (adopt s fd) else .error .disabled

def copyDialog (s : State) (socket : HandleId) : Except Fault State :=
  if socket ∈ s.dialogs then .ok { s with dialogs := s.dialogs ++ [socket] } else .error .disabled

def dropDialog (s : State) (socket : HandleId) : Except Fault State :=
  if socket ∈ s.dialogs then .ok { s with dialogs := s.dialogs.erase socket } else .error .disabled

def setUser (s : State) (socket : HandleId) (d : Direction) : Except Fault State :=
  if socket ∈ s.dialogs then .ok (setSender s socket d.trigger .user) else .error .disabled

def step (s : State) : Action → Except Fault State
  | .emplace fd => emplace s fd
  | .copyDialog socket => copyDialog s socket
  | .dropDialog socket => dropDialog s socket
  | .accept socket address answers => accept s socket address answers
  | .recvmsg socket answers => recvmsg s socket answers
  | .sendmsg socket answers => sendmsg s socket answers
  | .connectDialog socket answers => connectDialog s socket answers
  | .set socket d => setUser s socket d
  | .connect o => connect s o
  | .start o => start s o
  | .snapshot interval => .ok (snapshot s interval)
  | .poll w begin answers => poll s w begin answers
  | .pass w getsockopt => pass s w getsockopt
  | .execute w answers => execute s w answers
  | .finish w => finish s w

def initial (config : Config) : State := { config := config }

/-- The states that a list of actions leads to from the start. -/
abbrev run (config : Config) (tr : List Action) : Except Fault State :=
  Runs.run step (initial config) tr

end AsyncBerkeley.Executor
