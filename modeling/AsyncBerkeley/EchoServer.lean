import AsyncBerkeley.ReactorRuns
import AsyncBerkeley.MessageBuffers

namespace AsyncBerkeley.EchoServer

open Events InterestList SocketHandles PollMultiplexer Operations Executor ReactorRuns
  MessageBuffers

abbrev Byte := BitVec 8

structure Buffer where
  base : Nat
  bytes : List Byte
  deriving DecidableEq

def Buffer.read (buf : Buffer) (address : Nat) : Byte := buf.bytes.getD (address - buf.base) 0#8

def Buffer.write (buf : Buffer) (data : List Byte) : Buffer :=
  { buf with bytes := data ++ buf.bytes.drop data.length }

/-- The calls of the functions of the server, with the dialog they are given. -/
inductive Call where
  | acceptor (server : HandleId)
  | reader (client : HandleId)
  | writer (client : HandleId) (msg : MessageBuffer) (buf : Buffer)
  deriving DecidableEq

/-- What `then` has captured for the value of an operation. -/
inductive Continuation where
  | accepted (server : HandleId)
  | received (client : HandleId) (msg : MessageBuffer) (buf : Buffer)
  | written (client : HandleId) (msg : MessageBuffer) (buf : Buffer)
  deriving DecidableEq

def Call.socket : Call → HandleId
  | .acceptor server => server
  | .reader client | .writer client _ _ => client

def Continuation.socket : Continuation → HandleId
  | .accepted server => server
  | .received client _ _ | .written client _ _ => client

def Call.action (answers : List Answer) : Call → Action
  | .acceptor server => .accept server ⟨0, 0⟩ answers
  | .reader client => .recvmsg client answers
  | .writer client _ _ => .sendmsg client answers

def Call.continuation (base : Nat) : Call → Continuation
  | .acceptor server => .accepted server
  | .reader client => .received client [⟨base, 1024#64⟩] ⟨base, List.replicate 1024 0#8⟩
  | .writer client msg buf => .written client msg buf

def unsent (msg : MessageBuffer) (buf : Buffer) : List Byte := (covered msg).map buf.read

/-- The server: the executor, the continuations of its operations, and the calls
that its threads are about to make. The messages received from a client, and
the bytes sent to it, are recorded; no step reads them. -/
structure Server where
  executor : State
  continuations : List Continuation := []
  calls : List Call := []
  messages : HandleId → List (List Byte) := fun _ => []
  sent : HandleId → List Byte := fun _ => []

/-- The system call of an operation moves bytes, no more than its message has room for. -/
def transfer (σ : Server) (o : TaskId) (len : Nat) (data : List Byte) : Except Fault Server :=
  match σ.continuations[o]? with
  | some (.received client msg buf) =>
    if data.length = len ∧ len ≤ (covered msg).length then
      .ok { σ with
        continuations := σ.continuations.set o (.received client msg (buf.write data))
        messages := if len = 0 then σ.messages else
          Function.update σ.messages client (σ.messages client ++ [data]) }
    else .error .disabled
  | some (.written client msg buf) =>
    if len ≤ (covered msg).length then
      .ok { σ with sent := Function.update σ.sent client (σ.sent client ++
        (unsent msg buf).take len) }
    else .error .disabled
  | _ => .error .disabled

def drop (σ : Server) (socket : HandleId) : Except Fault Server :=
  match dropDialog σ.executor socket with
  | .error fault => .error fault
  | .ok s => .ok { σ with executor := s }

/-- A continuation runs. The error handler only prints the error. -/
def resume (σ : Server) : Continuation → Outcome → Except Fault Server
  | .accepted server, .setValue (.dialog client _) =>
    .ok { σ with calls := .reader client :: .acceptor server :: σ.calls }
  | .received client msg buf, .setValue (.length len) =>
    if len = 0 then drop σ client else .ok { σ with calls := .writer client msg buf :: σ.calls }
  | .written client msg buf, .setValue (.length len) =>
    let msg := advance msg (BitVec.ofNat 64 len)
    .ok
      { σ with calls := (if toBool msg then .writer client msg buf else .reader client) :: σ.calls }
  | k, .setError _ => drop σ k.socket
  -- the types of the values rule the other cases out
  | _, .setValue _ => .error .disabled

def proceed (σ : Server) (o : TaskId) : Except Fault Server :=
  match outcomeOf σ.executor o, σ.continuations[o]? with
  | some outcome, some k => resume σ k outcome
  | _, _ => .ok σ

/-- A thread makes one of the calls, which issues an operation. When the accepted
socket cannot be pushed to the executor there is none: the call has thrown. -/
def perform (σ : Server) (i : Nat) (answers : List Answer) (base : Nat) (data : List Byte) :
    Except Fault Server :=
  match σ.calls[i]? with
  | none => .error .disabled
  | some call =>
    match Executor.step σ.executor (call.action answers) with
    | .error fault => .error fault
    | .ok s =>
      match s.ops[σ.executor.ops.length]? with
      | none => drop { σ with executor := s, calls := σ.calls.eraseIdx i } call.socket
      | some op =>
        let σ' := { σ with
          executor := s
          calls := σ.calls.eraseIdx i
          continuations := σ.continuations ++ [call.continuation base] }
        match op.func with
        | .value (.length len) => transfer σ' σ.executor.ops.length len data
        | _ => .ok σ'

/-- `spawn` connects the operation. An exception ends the session as an error does. -/
def connect (σ : Server) (o : TaskId) : Except Fault Server :=
  match Executor.connect σ.executor o with
  | .error fault => .error fault
  | .ok s =>
    match s.ops[o]? with
    | none => .error .disabled
    | some op =>
      if op.status = .abandoned then drop { σ with executor := s } op.socket
        else .ok { σ with executor := s }

def start (σ : Server) (o : TaskId) : Except Fault Server :=
  match Executor.start σ.executor o with
  | .error fault => .error fault
  | .ok s => proceed { σ with executor := s } o

def execute (σ : Server) (w : Nat) (answers : List Answer) (data : List Byte) :
    Except Fault Server :=
  match (readyOf σ.executor w).head?, Executor.execute σ.executor w answers with
  | some o, .ok s =>
    match outcomeOf s o with
    | some (.setValue (.length len)) =>
      match transfer { σ with executor := s } o len data with
      | .error fault => .error fault
      | .ok σ => proceed σ o
    | _ => proceed { σ with executor := s } o
  | _, .error fault => .error fault
  | none, .ok _ => .error .disabled

/-- The steps of the server. They may be those of any number of threads. -/
inductive Move where
  | perform (i : Nat) (answers : List Answer) (base : Nat) (data : List Byte)
  | connect (o : TaskId)
  | start (o : TaskId)
  | snapshot (interval : Int)
  | poll (w : Nat) (begin : Int) (answers : List PollAnswer)
  | pass (w : Nat) (getsockopt : Fd → Except Errno Int)
  | execute (w : Nat) (answers : List Answer) (data : List Byte)
  | finish (w : Nat)

def waits (σ : Server) (a : Action) : Except Fault Server :=
  match Executor.step σ.executor a with
  | .error fault => .error fault
  | .ok s => .ok { σ with executor := s }

def step (σ : Server) : Move → Except Fault Server
  | .perform i answers base data => perform σ i answers base data
  | .connect o => connect σ o
  | .start o => start σ o
  | .snapshot interval => waits σ (.snapshot interval)
  | .poll w begin answers => waits σ (.poll w begin answers)
  | .pass w getsockopt => waits σ (.pass w getsockopt)
  | .execute w answers data => execute σ w answers data
  | .finish w => waits σ (.finish w)

def initial (config : Config) (fd : Fd) : Server where
  executor := adopt (Executor.initial config) fd
  calls := [.acceptor 0]

abbrev serve (config : Config) (fd : Fd) (tr : List Move) : Except Fault Server :=
  Runs.run step (initial config fd) tr

end AsyncBerkeley.EchoServer
