import AsyncBerkeley.SocketHandles
import AsyncBerkeley.ListUpdates

namespace AsyncBerkeley.PollMultiplexer

open Events InterestList SocketHandles

abbrev TaskId := Nat

structure Demultiplexer where
  readQueue : List TaskId := []
  writeQueue : List TaskId := []
  socket : Option HandleId := none
  deriving DecidableEq, Repr

def Demultiplexer.queue (demux : Demultiplexer) : Direction → List TaskId
  | .read => demux.readQueue
  | .write => demux.writeQueue

/-- The shared state of `basic_poll_multiplexer`. Every access to it holds its mutex. -/
structure Multiplexer where
  demux : List Demultiplexer := []
  list : Interest := .empty
  deriving DecidableEq

/-- The conversion of an `int` to `std::size_t` that indexes the deque. -/
def toSize (n : BitVec 32) : Nat := (n.signExtend 64).toNat

def Multiplexer.queue (mux : Multiplexer) (fd : Fd) (d : Direction) : List TaskId :=
  (mux.demux[toSize fd]?.map (fun demux => demux.queue d)).getD []

def Multiplexer.socket (mux : Multiplexer) (fd : Fd) : Option HandleId :=
  mux.demux[toSize fd]?.bind Demultiplexer.socket

/-- How a locked pass over the events can end early. -/
inductive Exit where
  | threw (errno : Errno)
  | nullSocket
  | outOfRange
  deriving DecidableEq

def handleGetsockoptError (error : Errno) : Except Exit Int :=
  if error.val ≠ EBADF ∧ error.val ≠ ENOTSOCK then .error (.threw error) else .ok error.val

/-- Read `SO_ERROR`, whose value is the kernel's answer, and record it on the handle. -/
def setError (answer : Except Errno Int) (socket : HandleId) (handles : Handles) :
    Except Exit Handles :=
  match answer with
  | .ok error => .ok (recordError handles socket error)
  | .error errno => (handleGetsockoptError errno).map (recordError handles socket)

/-- The part of `prepare_handles` that can fail. It dereferences `demux.socket`. -/
def reportError (answer : Except Errno Int) (revents : Short) (demux : Demultiplexer)
    (handles : Handles) : Except Exit Handles :=
  if test revents (POLLERR ||| POLLNVAL) then
    match demux.socket with
    | some socket => setError answer socket handles
    | none => .error .nullSocket
  else .ok handles

def moveWriters (revents : Short) (demux : Demultiplexer) (ready : List TaskId) :
    Demultiplexer × List TaskId :=
  if test revents (POLLOUT ||| POLLERR ||| POLLNVAL) then
    ({ demux with writeQueue := [] }, ready ++ demux.writeQueue)
  else (demux, ready)

def moveReaders (revents : Short) (demux : Demultiplexer) (ready : List TaskId) :
    Demultiplexer × List TaskId :=
  if test revents (POLLIN ||| POLLHUP ||| POLLERR ||| POLLNVAL) then
    ({ demux with readQueue := [] }, ready ++ demux.readQueue)
  else (demux, ready)

def prepareHandles (answer : Except Errno Int) (revents : Short) (demux : Demultiplexer)
    (handles : Handles) (ready : List TaskId) :
    Except Exit (Handles × Demultiplexer × List TaskId) :=
  (reportError answer revents demux handles).map fun handles =>
    let moved := moveWriters revents demux ready
    (handles, moveReaders revents moved.1 moved.2)

/-- What a locked pass works on: the shared state, the handles whose errors it
records and its own ready queue. The events it has begun are kept as a record. -/
structure Pass where
  mux : Multiplexer
  handles : Handles
  ready : List TaskId := []
  begun : List Pollfd := []

/-- One round of the loop in the locked section of `wait_for`. Interest is
cleared first, and stays cleared when the round ends early. -/
def handleEvent (getsockopt : Fd → Except Errno Int) (p : Pass) (event : Pollfd) :
    Pass × Option Exit :=
  let mux := { p.mux with list := p.mux.list.clear event }
  let begun := p.begun ++ [event]
  match mux.demux[toSize event.fd]? with
  | none => ({ p with mux := mux, begun := begun }, some .outOfRange)
  | some demux =>
    match prepareHandles (getsockopt event.fd) event.revents demux p.handles p.ready with
    | .error exit => ({ p with mux := mux, begun := begun }, some exit)
    | .ok (handles, demux, ready) =>
      (⟨{ mux with demux := mux.demux.set (toSize event.fd) demux }, handles, ready, begun⟩, none)

def handleEvents (getsockopt : Fd → Except Errno Int) : Pass → List Pollfd → Pass × Option Exit
  | p, [] => (p, none)
  | p, event :: events =>
    match handleEvent getsockopt p event with
    | (p, none) => handleEvents getsockopt p events
    | (p, some exit) => (p, some exit)

/-- One return of the system call `poll`. After a failure the steady clock is
read, in nanoseconds. -/
inductive PollAnswer where
  | failed (errno : Errno) (now : Int)
  | ready (revents : List Short)
  deriving DecidableEq

def within (events revents : Short) : Bool :=
  revents &&& ~~~(events ||| POLLERR ||| POLLHUP ||| POLLNVAL) == 0#16

/-- What poll(2) promises: one mask for each entry, within its request, and
with a negative timeout a return only when some mask is not zero. -/
def PollAnswer.allowed (list : List Pollfd) (duration : Int) : PollAnswer → Bool
  | .failed _ _ => true
  | .ready revents => revents.length == list.length &&
      (List.zipWith (fun event r => within event.events r) list revents).all id &&
      (decide (0 ≤ duration) || revents.any (fun r => r != 0#16))

def handlePollError (error : Errno) : Except Errno Unit :=
  if error.val ≠ EINTR then .error error else .ok ()

def toMilliseconds (nanoseconds : Int) : Int := (nanoseconds.tdiv 1000000).bmod (2 ^ 32)

def remainingDuration (duration start now : Int) : Int :=
  max 0 (duration - toMilliseconds (now - start))

def report (list : List Pollfd) (revents : List Short) : List Pollfd :=
  List.zipWith (fun event r => { event with revents := r }) list revents

/-- The loop around `poll`. It has no result while the system call still blocks. -/
def pollLoop (list : List Pollfd) :
    Int → Int → List PollAnswer → Option (Except Errno (List Pollfd))
  | _, _, [] => none
  | _, _, .ready revents :: _ =>
    some (.ok ((report list revents).filter (fun event => event.revents != 0#16)))
  | duration, start, .failed errno now :: answers =>
    match handlePollError errno with
    | .error errno => some (.error errno)
    | .ok () => if duration > -1
        then pollLoop list (remainingDuration duration start now) now answers
        else pollLoop list duration start answers

def poll_ (list : List Pollfd) (duration start : Int) (answers : List PollAnswer) :
    Option (Except Errno (List Pollfd)) :=
  if list.isEmpty then some (.ok list) else pollLoop list duration start answers

theorem toSize_inj {fd fd' : Fd} : toSize fd = toSize fd' ↔ fd = fd' := by
  constructor
  · intro h
    have hs : fd.signExtend 64 = fd'.signExtend 64 := BitVec.eq_of_toNat_eq h
    have hi := congrArg BitVec.toInt hs
    rw [BitVec.toInt_signExtend_of_le (by decide), BitVec.toInt_signExtend_of_le (by decide)] at hi
    exact BitVec.eq_of_toInt_eq hi
  · rintro rfl; rfl

theorem queue_of_getElem? {mux : Multiplexer} {fd : Fd} {demux : Demultiplexer}
    (h : mux.demux[toSize fd]? = some demux) (d : Direction) : mux.queue fd d = demux.queue d := by
  simp [Multiplexer.queue, h]

theorem queue_set {mux : Multiplexer} {fd : Fd} {old : Demultiplexer}
    (h : mux.demux[toSize fd]? = some old) (new : Demultiplexer) (list : Interest)
    (fd' : Fd) (d : Direction) :
    (⟨mux.demux.set (toSize fd) new, list⟩ : Multiplexer).queue fd' d =
      if fd' = fd then new.queue d else mux.queue fd' d := by
  obtain ⟨hlt, -⟩ := List.getElem?_eq_some_iff.mp h
  by_cases he : fd' = fd
  · subst he; simp [Multiplexer.queue, hlt]
  · have hn : toSize fd ≠ toSize fd' := fun hs => he (toSize_inj.mp hs).symm
    simp [Multiplexer.queue, hn, he]

theorem socket_set {mux : Multiplexer} {fd : Fd} {old : Demultiplexer}
    (h : mux.demux[toSize fd]? = some old) (new : Demultiplexer) (list : Interest) (fd' : Fd) :
    (⟨mux.demux.set (toSize fd) new, list⟩ : Multiplexer).socket fd' =
      if fd' = fd then new.socket else mux.socket fd' := by
  obtain ⟨hlt, -⟩ := List.getElem?_eq_some_iff.mp h
  by_cases he : fd' = fd
  · subst he; simp [Multiplexer.socket, hlt]
  · have hn : toSize fd ≠ toSize fd' := fun hs => he (toSize_inj.mp hs).symm
    simp [Multiplexer.socket, hn, he]

def pending (demux : List Demultiplexer) (o : TaskId) : Nat :=
  (demux.map (fun x => x.readQueue.count o + x.writeQueue.count o)).sum

theorem pending_set {demux : List Demultiplexer} {i : Nat} {old : Demultiplexer}
    (h : demux[i]? = some old) (new : Demultiplexer) (o : TaskId) :
    pending (demux.set i new) o + (old.readQueue.count o + old.writeQueue.count o) =
      pending demux o + (new.readQueue.count o + new.writeQueue.count o) :=
  ListUpdates.sum_map_set (fun x => x.readQueue.count o + x.writeQueue.count o) h new

end AsyncBerkeley.PollMultiplexer
