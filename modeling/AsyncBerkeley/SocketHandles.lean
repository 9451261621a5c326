import AsyncBerkeley.InterestList

namespace AsyncBerkeley.SocketHandles

open InterestList

abbrev Errno := { e : Int // e ≠ 0 }

def EINTR : Int := 4
def EBADF : Int := 9
def EAGAIN : Int := 11
def EWOULDBLOCK : Int := EAGAIN
def ENOTSOCK : Int := 88
def ECONNRESET : Int := 104

/-- The condition `error && error != std::errc::operation_would_block`. -/
def hard (error : Int) : Bool := error != 0 && error != EWOULDBLOCK

/-- The two words of a socket handle: its descriptor and the last error
recorded on it, which is shared by all operations on the socket. -/
structure SocketHandle where
  socket : Fd
  error : Int := 0
  deriving DecidableEq, Repr

def SocketHandle.setError (handle : SocketHandle) (error : Int) : SocketHandle :=
  { handle with error := error }

def SocketHandle.getError (handle : SocketHandle) : Int := handle.error

/-- `std::system_error`. The message comes after the place in the source. -/
structure SystemError where
  code : Errno
  message : String
  deriving DecidableEq, Repr

def SocketHandle.invalid : SocketHandle := { socket := INVALID_SOCKET }

def isValidSocket (handle : Fd) (getsockopt : Int) : Bool :=
  if handle = INVALID_SOCKET then false else getsockopt == 0

/-- The constructor from a native handle. No destructor runs when it throws. -/
def ofNative (handle : Fd) (getsockopt : Int) (errno : Errno) : Except SystemError SocketHandle :=
  if handle != INVALID_SOCKET && !isValidSocket handle getsockopt then
    .error ⟨errno, "Invalid socket handle."⟩
  else .ok { socket := handle }

def ofSocket (socket : Fd) (errno : Errno) : Except SystemError SocketHandle :=
  if socket = INVALID_SOCKET then .error ⟨errno, "Failed to create socket."⟩
    else .ok { socket := socket }

def swapAtomic {α : Type} (lhs rhs : α) : α × α :=
  let tmp := lhs
  let lhs := rhs
  let rhs := tmp
  (lhs, rhs)

/-- `swap` of two different handles, one word after the other. -/
def swap (lhs rhs : SocketHandle) : SocketHandle × SocketHandle :=
  let socket := swapAtomic lhs.socket rhs.socket
  let error := swapAtomic lhs.error rhs.error
  (⟨socket.1, error.1⟩, ⟨socket.2, error.2⟩)

/-- `close`: the handle it leaves, and the descriptor that is closed, if any. -/
def close (handle : SocketHandle) : SocketHandle × Option Fd :=
  ({ handle with socket := INVALID_SOCKET },
    if handle.socket != INVALID_SOCKET then some handle.socket else none)

/-- Handles are shared through pointers, here positions in the list of all
handles that were ever constructed. -/
abbrev HandleId := Nat
abbrev Handles := List SocketHandle

def recordError (handles : Handles) (h : HandleId) (error : Int) : Handles :=
  handles.modify h (fun handle => handle.setError error)

def errorOf (handles : Handles) (h : HandleId) : Int := (handles[h]?.map SocketHandle.error).getD 0

def descriptor (handles : Handles) (h : HandleId) : Fd :=
  (handles[h]?.map SocketHandle.socket).getD INVALID_SOCKET

variable (handles : Handles) (h h' : HandleId) (error : Int)

@[simp] theorem length_recordError : (recordError handles h error).length = handles.length := by
  simp [recordError]

@[simp] theorem descriptor_recordError :
    descriptor (recordError handles h error) h' = descriptor handles h' := by
  simp only [descriptor, recordError, List.getElem?_modify]
  cases handles[h']? with
  | none => rfl
  | some handle => by_cases hh : h = h' <;> simp [hh, SocketHandle.setError]

theorem errorOf_recordError (hh : h < handles.length) :
    errorOf (recordError handles h error) h = error := by
  simp [errorOf, recordError, List.getElem?_eq_getElem hh, SocketHandle.setError]

theorem errorOf_of_length_le {handles : Handles} {h : HandleId} (hh : handles.length ≤ h) :
    errorOf handles h = 0 := by
  simp [errorOf, List.getElem?_eq_none hh]

@[simp] theorem swap_eq (lhs rhs : SocketHandle) : swap lhs rhs = (rhs, lhs) := rfl

theorem close_invalid {handle : SocketHandle} (hs : handle.socket = INVALID_SOCKET) :
    (close handle).2 = none := by
  simp [close, hs]

theorem close_valid {handle : SocketHandle} (hs : handle.socket ≠ INVALID_SOCKET) :
    (close handle).2 = some handle.socket := by
  simp [close, hs]

theorem ofNative_eq (handle : Fd) (getsockopt : Int) (errno : Errno) :
    ofNative handle getsockopt errno =
    if handle = INVALID_SOCKET ∨ getsockopt = 0 then .ok { socket := handle }
    else .error ⟨errno, "Invalid socket handle."⟩ := by
  by_cases hi : handle = INVALID_SOCKET
  · simp [ofNative, hi]
  · by_cases hg : getsockopt = 0 <;> simp [ofNative, isValidSocket, hi, hg]

theorem descriptor_append (hh : h < handles.length) (new : Handles) :
    descriptor (handles ++ new) h = descriptor handles h := by
  simp [descriptor, List.getElem?_append_left hh]

end AsyncBerkeley.SocketHandles
