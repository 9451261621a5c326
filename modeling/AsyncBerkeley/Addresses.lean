import AsyncBerkeley.Operations

namespace AsyncBerkeley.Addresses

open InterestList SocketHandles Operations

abbrev Socklen := BitVec 32

def toSocklen (size : Nat) : Socklen := BitVec.ofNat 32 size

/-- The synchronous `accept`: the descriptor, and the address with the length
that the kernel leaves, which is the given one after a failure. -/
def accept (address : Span) (answers : List Answer) : Option (Fd × Span) :=
  match retry answers with
  | some (.accepted sockfd socklen _) => some (sockfd, address.subspan 0 socklen)
  | some (.failed _) => some (INVALID_SOCKET, address.subspan 0 (toSocklen address.size).toNat)
  | _ => none

def getname (address : Span) : Except Errno Socklen → Span
  | .ok socklen => address.subspan 0 socklen.toNat
  | .error _ => ⟨0, 0⟩

def getpeername (address : Span) (answer : Except Errno Socklen) : Span := getname address answer

def getsockname (address : Span) (answer : Except Errno Socklen) : Span := getname address answer

/-- A `socket_option` of a value of some size in bytes, of which it uses a part. -/
structure SocketOption (sizeofValue : Nat) where
  size : Nat
  bound : size ≤ sizeofValue

def SocketOption.ofSpan (sizeofValue : Nat) (option : Span) : Option (SocketOption sizeofValue) :=
  if h : option.size ≤ sizeofValue then
    if option.size > 0 ∧ option.data ≠ 0 then some ⟨option.size, h⟩ else none
  else none

/-- What is expected of the span that is returned for a buffer when the kernel
writes back a length: it is the part of the buffer that was written, and can
be assigned to a `socket_address` of the buffer's size. -/
structure Fits (address : Span) (socklen : Socklen) (result : Span) : Prop where
  data : result.data = address.data
  size : result.size = min address.size socklen.toNat
  bound : result.size ≤ address.size
  assignable : 0 < result.size → result.data ≠ 0 →
    ∃ option, SocketOption.ofSpan address.size result = some option

theorem fits_subspan_iff (address : Span) (socklen : Socklen) :
    Fits address socklen (address.subspan 0 socklen.toNat) ↔ socklen.toNat ≤ address.size := by
  constructor
  · intro h
    exact h.bound
  · intro h
    refine ⟨rfl, (Nat.min_eq_right h).symm, h, fun hpos hdata => ?_⟩
    exact ⟨⟨socklen.toNat, h⟩, (dif_pos h).trans (if_pos ⟨hpos, hdata⟩)⟩

/-- The span that each of `accept`, `getpeername` and `getsockname` returns fits
exactly when the kernel did not truncate the address. -/
theorem address_fits_iff (address : Span) (socklen : Socklen) :
    (∀ answers sockfd nonblocking,
      retry answers = some (.accepted sockfd socklen.toNat nonblocking) →
      ((∃ result, accept address answers = some (sockfd, result) ∧ Fits address socklen result) ↔
        socklen.toNat ≤ address.size)) ∧
    (Fits address socklen (getpeername address (.ok socklen)) ↔ socklen.toNat ≤ address.size) ∧
    (Fits address socklen (getsockname address (.ok socklen)) ↔ socklen.toNat ≤ address.size) := by
  have hname : Fits address socklen (getname address (.ok socklen)) ↔
      socklen.toNat ≤ address.size :=
    fits_subspan_iff address socklen
  refine ⟨fun answers sockfd nonblocking hr => ?_, hname, hname⟩
  have ha : accept address answers = some (sockfd, address.subspan 0 socklen.toNat) := by
    rw [accept, hr]
  rw [← fits_subspan_iff, ha]
  constructor
  · rintro ⟨result, hres, hf⟩
    cases hres
    exact hf
  · intro hf
    exact ⟨_, rfl, hf⟩

/-- An address of a larger family leaves a span that is longer than the buffer
and that cannot be assigned back, in each of the three functions. -/
theorem address_overruns :
    (¬ ∀ (address : Span) (socklen : Socklen) (answers : List Answer) (sockfd : Fd)
      (nonblocking : Bool),
      address.size < 2 ^ 32 → retry answers = some (.accepted sockfd socklen.toNat nonblocking) →
      ∃ result, accept address answers = some (sockfd, result) ∧ Fits address socklen result) ∧
    (¬ ∀ (address : Span) (socklen : Socklen), address.size < 2 ^ 32 →
      Fits address socklen (getpeername address (.ok socklen))) ∧
    ¬ ∀ (address : Span) (socklen : Socklen), address.size < 2 ^ 32 →
      Fits address socklen (getsockname address (.ok socklen)) := by
  refine ⟨fun h => ?_, fun h => ?_, fun h => ?_⟩
  · obtain ⟨result, hres, hf⟩ :=
      h ⟨4096, 16⟩ 28#32 [.accepted 7#32 28 true] 7#32 true (by decide) rfl
    cases hres
    exact absurd hf.bound (by decide)
  · exact absurd (h ⟨4096, 16⟩ 28#32 (by decide)).bound (by decide)
  · exact absurd (h ⟨4096, 16⟩ 28#32 (by decide)).bound (by decide)

end AsyncBerkeley.Addresses
