import AsyncBerkeley.Runs
import AsyncBerkeley.Custody
import AsyncBerkeley.SocketHandles

namespace AsyncBerkeley.Ownership

open InterestList SocketHandles Custody

/-- The handles of a program in the order of their construction, none in the
place of one that was destroyed. The history has what happened to descriptors:
a constructor adopts one, `set_error` is called where one is held, one is closed. -/
structure State where
  handles : List (Option SocketHandle) := []
  history : List (Event Fd Int) := []
  deriving DecidableEq

def State.handle (s : State) (i : Nat) : Option SocketHandle := s.handles[i]?.join

inductive Action where
  | construct
  | ofNative (handle : Fd) (getsockopt : Int) (errno : Errno)
  | ofSocket (socket : Fd) (errno : Errno)
  | moveConstruct (other : Nat)
  | moveAssign (i other : Nat)
  | swap (lhs rhs : Nat)
  | setError (i : Nat) (error : Int)
  | destruct (i : Nat)

inductive Fault where
  | disabled
  deriving DecidableEq

def State.emplace (s : State) : Except SystemError SocketHandle → State
  | .error _ => s
  | .ok handle =>
    ⟨s.handles ++ [some handle],
      s.history ++ if handle.socket = INVALID_SOCKET then [] else [.acquired handle.socket]⟩

def exchange (s : State) (i j : Nat) : Except Fault State :=
  match s.handle i, s.handle j with
  | some lhs, some rhs =>
    if i = j then .ok s
    else .ok
      { s with handles := (s.handles.set i (some (swap lhs rhs).1)).set j (some (swap lhs rhs).2) }
  | _, _ => .error .disabled

def step (s : State) : Action → Except Fault State
  | .construct => .ok (s.emplace (.ok .invalid))
  | .ofNative handle getsockopt errno => .ok (s.emplace (ofNative handle getsockopt errno))
  | .ofSocket socket errno => .ok (s.emplace (ofSocket socket errno))
  | .moveConstruct j =>
    match s.handle j with
    | some other =>
      .ok { s with handles :=
        s.handles.set j (some (swap .invalid other).2) ++ [some (swap .invalid other).1] }
    | none => .error .disabled
  | .moveAssign i j => exchange s i j
  | .swap i j => exchange s i j
  | .setError i error =>
    match s.handle i with
    | some handle =>
      .ok ⟨s.handles.set i (some (handle.setError error)),
        s.history ++ [.labelled handle.socket error]⟩
    | none => .error .disabled
  | .destruct i =>
    match s.handle i with
    | some handle => .ok ⟨s.handles.set i none, s.history ++ (close handle).2.toList.map .released⟩
    | none => .error .disabled

/-- A descriptor that a constructor accepts is not held by a handle already. -/
def Admissible (s : State) : Action → Prop
  | .ofNative handle getsockopt _ =>
    isValidSocket handle getsockopt = true →
      some handle ∉ s.handles.map (Option.map SocketHandle.socket)
  | .ofSocket socket _ =>
    socket ≠ INVALID_SOCKET → some socket ∉ s.handles.map (Option.map SocketHandle.socket)
  | _ => True

instance : ∀ s a, Decidable (Admissible s a)
  | s, .ofNative handle getsockopt _ =>
    inferInstanceAs (Decidable (isValidSocket handle getsockopt = true →
        some handle ∉ s.handles.map (Option.map SocketHandle.socket)))
  | s, .ofSocket socket _ => inferInstanceAs (Decidable (socket ≠ INVALID_SOCKET →
      some socket ∉ s.handles.map (Option.map SocketHandle.socket)))
  | _, .construct | _, .moveConstruct _ | _, .moveAssign _ _ | _, .swap _ _
  | _, .setError _ _ | _, .destruct _ =>
    isTrue trivial

def State.HeldBy (s : State) (fd : Fd) (i : Nat) : Prop :=
  (s.handle i).map SocketHandle.socket = some fd

/-- A valid descriptor is held by exactly one handle from each time it is adopted
until it is closed, once, and by none otherwise. With it goes the error that was
set last, since it was adopted, where it was held. -/
structure Owned (s : State) : Prop where
  once : ∀ fd, fd ≠ INVALID_SOCKET →
    (Open fd s.history ∧ ∃! i, s.HeldBy fd i) ∨ (Closed fd s.history ∧ ∀ i, ¬s.HeldBy fd i)
  invalid : turns INVALID_SOCKET s.history = []
  error : ∀ i handle, s.handle i = some handle → handle.socket ≠ INVALID_SOCKET →
    handle.getError = lastLabel 0 handle.socket s.history

/-- What an action does to the descriptors. One is closed when the handle that
holds it, and no other, is destroyed, and one that is rejected is left alone. -/
structure Disposed (s : State) (a : Action) (s' : State) : Prop where
  adopted : ∀ handle getsockopt errno, a = .ofNative handle getsockopt errno →
    handle ≠ INVALID_SOCKET → ofNative handle getsockopt errno = .ok { socket := handle } →
    s'.history = s.history ++ [.acquired handle] ∧ s'.HeldBy handle s.handles.length
  rejected : ∀ handle getsockopt errno error, a = .ofNative handle getsockopt errno →
    ofNative handle getsockopt errno = .error error → s' = s
  kept : ∀ fd i, s.HeldBy fd i → fd ≠ INVALID_SOCKET → a ≠ .destruct i → ∃! j, s'.HeldBy fd j
  closed : ∀ fd i, s.HeldBy fd i → fd ≠ INVALID_SOCKET → a = .destruct i →
    s'.history = s.history ++ [.released fd] ∧ (∀ j, s.HeldBy fd j → j = i) ∧ ∀ j, ¬s'.HeldBy fd j
  unclosed : ∀ fd, (∀ i, s.HeldBy fd i → a ≠ .destruct i) →
    s'.history.count (.released fd) = s.history.count (.released fd)

def carried (handle : SocketHandle) : Option (Fd × Int) :=
  if handle.socket = INVALID_SOCKET then none else some (handle.socket, handle.error)

def holding (handles : List (Option SocketHandle)) : Holding Nat Fd Int :=
  fun i => handles[i]?.join.bind carried

variable {s s' : State} {a : Action} {handles : List (Option SocketHandle)}
  {handle other : SocketHandle} {fd : Fd} {error : Int} {i j : Nat}

theorem handle_eq_some : s.handle i = some handle ↔ s.handles[i]? = some (some handle) := by
  simp [State.handle, Option.join_eq_some_iff]

theorem carried_invalid (hs : handle.socket = INVALID_SOCKET) : carried handle = none := if_pos hs

theorem carried_valid (hs : handle.socket ≠ INVALID_SOCKET) :
    carried handle = some (handle.socket, handle.error) :=
  if_neg hs

theorem carried_eq_some :
    carried handle = some (fd, error) ↔ handle = ⟨fd, error⟩ ∧ fd ≠ INVALID_SOCKET := by
  constructor
  · intro h
    have hs : handle.socket ≠ INVALID_SOCKET := by
      intro hs
      rw [carried_invalid hs] at h
      cases h
    rw [carried_valid hs] at h
    cases h
    exact ⟨rfl, hs⟩
  · rintro ⟨rfl, hfd⟩
    exact carried_valid hfd

theorem holding_eq_some : holding s.handles i = some (fd, error) ↔
    s.handle i = some ⟨fd, error⟩ ∧ fd ≠ INVALID_SOCKET := by
  change (s.handle i).bind carried = _ ↔ _
  cases s.handle i with
  | none => simp
  | some handle => rw [Option.bind_some, carried_eq_some, Option.some.injEq]

theorem heldBy_iff (hfd : fd ≠ INVALID_SOCKET) :
    s.HeldBy fd i ↔ ∃ error, holding s.handles i = some (fd, error) := by
  simp only [holding_eq_some, State.HeldBy, Option.map_eq_some_iff]
  constructor
  · rintro ⟨handle, hi, rfl⟩
    exact ⟨handle.error, hi, hfd⟩
  · rintro ⟨error, hi, -⟩
    exact ⟨⟨fd, error⟩, hi, rfl⟩

theorem held_iff (hfd : fd ≠ INVALID_SOCKET) :
    Held (holding s.handles) fd ↔ ∃ i, s.HeldBy fd i := by
  simp only [Held, heldBy_iff hfd]

theorem not_held_invalid : ¬Held (holding s.handles) INVALID_SOCKET := by
  rintro ⟨i, error, hi⟩
  exact (holding_eq_some.mp hi).2 rfl

theorem holding_append (handles : List (Option SocketHandle)) (handle : SocketHandle) :
    holding (handles ++ [some handle]) = Function.update (holding handles) handles.length
      (carried handle) := by
  funext i
  by_cases hi : i = handles.length
  · subst i
    simp [holding]
  · rw [Function.update_of_ne hi, holding, holding]
    congr 2
    obtain hlt | hgt := Nat.lt_or_gt_of_ne hi
    · rw [List.getElem?_append_left hlt]
    · have hlen : (handles ++ [some handle]).length ≤ i := by
        rw [List.length_append]
        exact hgt
      rw [List.getElem?_eq_none hlen, List.getElem?_eq_none (Nat.le_of_lt hgt)]

theorem holding_set (hi : i < handles.length) (new : Option SocketHandle) :
    holding (handles.set i new) = Function.update (holding handles) i (new.bind carried) := by
  funext j
  by_cases hj : j = i
  · subst j
    simp [holding, hi]
  · rw [Function.update_of_ne hj, holding, holding, List.getElem?_set_ne (Ne.symm hj)]

theorem holding_length (handles : List (Option SocketHandle)) :
    holding handles handles.length = none := by
  simp [holding]

theorem lt_length (hi : s.handle i = some handle) : i < s.handles.length :=
  (List.getElem?_eq_some_iff.mp (handle_eq_some.mp hi)).1

theorem holding_of_handle (hi : s.handle i = some handle) :
    holding s.handles i = carried handle := by
  change (s.handle i).bind carried = _
  rw [hi, Option.bind_some]

structure Transfers (s : State) (a : Action) (s' : State) (events : List (Event Fd Int)) :
    Prop where
  history : s'.history = s.history ++ events
  transfer : Transfer 0 (holding s.handles) events (holding s'.handles)
  released : ∀ fd, .released fd ∈ events ↔ ∃ i, a = .destruct i ∧ s.HeldBy fd i ∧
    fd ≠ INVALID_SOCKET

theorem transfer_idle (h : Holding Nat Fd Int) : Transfer 0 h [] h := .exchange (Equiv.refl Nat)

theorem transfers_silent (hd : ∀ i, a ≠ .destruct i) (hh : s'.history = s.history)
    (ht : Transfer 0 (holding s.handles) [] (holding s'.handles)) :
    ∃ events, Transfers s a s' events :=
  ⟨[], by rw [hh, List.append_nil], ht, fun fd => by simp [hd]⟩

theorem not_held_of_notMem (hm : some fd ∉ s.handles.map (Option.map SocketHandle.socket)) :
    ¬Held (holding s.handles) fd := by
  rintro ⟨i, error, hi⟩
  have hh := handle_eq_some.mp (holding_eq_some.mp hi).1
  exact hm (List.mem_map.mpr ⟨_, List.mem_of_getElem? hh, rfl⟩)

theorem emplace_transfers {result : Except SystemError SocketHandle} (hd : ∀ i, a ≠ .destruct i)
    (hr : ∀ handle, result = .ok handle → handle.error = 0 ∧ (handle.socket ≠ INVALID_SOCKET →
      some handle.socket ∉ s.handles.map (Option.map SocketHandle.socket))) :
    ∃ events, Transfers s a (s.emplace result) events := by
  cases result with
  | error e => exact transfers_silent hd rfl (transfer_idle _)
  | ok handle =>
    obtain ⟨socket, error⟩ := handle
    obtain ⟨rfl, hn⟩ := hr _ rfl
    refine ⟨_, rfl, ?_, fun fd => ?_⟩
    · simp only [State.emplace, holding_append]
      by_cases hs : socket = INVALID_SOCKET
      · have hc : carried ⟨socket, 0⟩ = holding s.handles s.handles.length := by
          rw [holding_length, carried_invalid hs]
        rw [hc, Function.update_eq_self, if_pos hs]
        exact transfer_idle _
      · rw [carried_valid hs, if_neg hs]
        exact .acquire (holding_length _) (not_held_of_notMem (hn hs))
    · by_cases hs : socket = INVALID_SOCKET <;> simp [hs, hd]

theorem exchange_transfers (hd : ∀ i, a ≠ .destruct i) (h : exchange s i j = .ok s') :
    ∃ events, Transfers s a s' events := by
  simp only [exchange] at h
  cases hi : s.handle i with
  | none => simp [hi] at h
  | some lhs =>
    cases hj : s.handle j with
    | none => simp [hi, hj] at h
    | some rhs =>
      simp only [hi, hj] at h
      by_cases hij : i = j
      · rw [if_pos hij] at h
        cases h
        exact transfers_silent hd rfl (transfer_idle _)
      · rw [if_neg hij] at h
        cases h
        refine transfers_silent hd rfl ?_
        have he : holding ((s.handles.set i (some rhs)).set j (some lhs)) =
            holding s.handles ∘ Equiv.swap j i := by
          rw [holding_set (by simpa using lt_length hj), holding_set (lt_length hi),
            Equiv.comp_swap_eq_update, holding_of_handle hi, holding_of_handle hj]
          rfl
        simp only [swap_eq]
        rw [he]
        exact .exchange _

theorem moveConstruct_transfers (h : step s (.moveConstruct j) = .ok s') :
    ∃ events, Transfers s (.moveConstruct j) s' events := by
  simp only [step] at h
  cases hj : s.handle j with
  | none => simp [hj] at h
  | some other =>
    simp only [hj] at h
    cases h
    refine transfers_silent (by simp) rfl ?_
    have he : holding (s.handles.set j (some .invalid) ++ [some other]) =
        holding s.handles ∘ Equiv.swap s.handles.length j := by
      rw [holding_append, holding_set (lt_length hj), List.length_set, Equiv.comp_swap_eq_update,
        holding_of_handle hj, holding_length]
      rfl
    simp only [swap_eq]
    rw [he]
    exact .exchange _

theorem setError_transfers (h : step s (.setError i error) = .ok s') :
    ∃ events, Transfers s (.setError i error) s' events := by
  simp only [step] at h
  cases hi : s.handle i with
  | none => simp [hi] at h
  | some handle =>
    simp only [hi] at h
    cases h
    refine ⟨_, rfl, ?_, fun fd => by simp⟩
    have he := holding_set (lt_length hi) (some (handle.setError error))
    by_cases hs : handle.socket = INVALID_SOCKET
    · have hc : carried (handle.setError error) = holding s.handles i := by
        rw [holding_of_handle hi, carried_invalid hs,
          carried_invalid (show (handle.setError error).socket = _ from hs)]
      rw [Option.bind_some, hc, Function.update_eq_self] at he
      rw [he, hs]
      exact .stray not_held_invalid error
    · have hc : carried (handle.setError error) = some (handle.socket, error) := carried_valid hs
      rw [he, Option.bind_some, hc]
      exact .label ((holding_of_handle hi).trans (carried_valid hs)) error

theorem destruct_transfers (h : step s (.destruct i) = .ok s') :
    ∃ events, Transfers s (.destruct i) s' events := by
  simp only [step] at h
  cases hi : s.handle i with
  | none => simp [hi] at h
  | some handle =>
    simp only [hi] at h
    cases h
    refine ⟨_, rfl, ?_, fun fd => ?_⟩
    · have he := holding_set (lt_length hi) none
      rw [Option.bind_none] at he
      by_cases hs : handle.socket = INVALID_SOCKET
      · have hc : none = holding s.handles i :=
          ((holding_of_handle hi).trans (carried_invalid hs)).symm
        rw [hc, Function.update_eq_self] at he
        rw [he, close_invalid hs]
        exact transfer_idle _
      · rw [he, close_valid hs]
        exact .release ((holding_of_handle hi).trans (carried_valid hs))
    · have hheld : s.HeldBy fd i ↔ handle.socket = fd := by simp [State.HeldBy, hi]
      by_cases hs : handle.socket = INVALID_SOCKET
      · rw [close_invalid hs]
        constructor
        · intro hm
          cases hm
        · rintro ⟨j, hj, hb, hfd⟩
          cases hj
          exact absurd ((hheld.mp hb).symm.trans hs) hfd
      · rw [close_valid hs]
        constructor
        · intro hm
          cases List.mem_singleton.mp hm
          exact ⟨i, rfl, hheld.mpr rfl, hs⟩
        · rintro ⟨j, hj, hb, -⟩
          cases hj
          rw [hheld.mp hb]
          exact List.mem_singleton.mpr rfl

theorem step_transfers (ha : Admissible s a) (h : step s a = .ok s') :
    ∃ events, Transfers s a s' events := by
  cases a with
  | construct =>
    cases h
    refine emplace_transfers (by simp) fun handle hr => ?_
    cases hr
    exact ⟨rfl, fun hs => absurd rfl hs⟩
  | ofNative native getsockopt errno =>
    cases h
    refine emplace_transfers (by simp) fun handle hr => ?_
    rw [ofNative_eq] at hr
    split at hr
    · next hv =>
      cases hr
      refine ⟨rfl, fun hs => ha ?_⟩
      simp [isValidSocket, hs, hv.resolve_left hs]
    · cases hr
  | ofSocket socket errno =>
    cases h
    refine emplace_transfers (by simp) fun handle hr => ?_
    rw [ofSocket] at hr
    split at hr
    · cases hr
    · next hs =>
      cases hr
      exact ⟨rfl, ha⟩
  | moveConstruct j => exact moveConstruct_transfers h
  | moveAssign i j | swap i j => exact exchange_transfers (by simp) h
  | setError i error => exact setError_transfers h
  | destruct i => exact destruct_transfers h

structure Sound (s : State) : Prop where
  kept : Kept 0 s.history (holding s.handles)
  valid : .acquired INVALID_SOCKET ∉ s.history

theorem sound_initial : Sound {} := ⟨Kept.initial, List.not_mem_nil⟩

theorem sound_step (hs : Sound s) (ha : Admissible s a) (h : step s a = .ok s') : Sound s' := by
  obtain ⟨events, ht⟩ := step_transfers ha h
  constructor
  · rw [ht.history]
    exact hs.kept.transfer ht.transfer
  · rw [ht.history, List.mem_append, not_or]
    exact ⟨hs.valid, fun hm => not_held_invalid (ht.transfer.held_of_acquired hm)⟩

theorem run_sound {tr : List Action} (h : Runs.run step {} tr = .ok s)
    (ha : Runs.Along step Admissible {} tr) :
    Sound s :=
  Runs.run_invariant_along Sound Admissible (fun _ _ _ hs ha h => sound_step hs ha h)
    h ha sound_initial

theorem Sound.unique (hs : Sound s) (hfd : fd ≠ INVALID_SOCKET) (hi : s.HeldBy fd i)
    (hj : s.HeldBy fd j) : i = j := by
  obtain ⟨_, hi⟩ := (heldBy_iff hfd).mp hi
  obtain ⟨_, hj⟩ := (heldBy_iff hfd).mp hj
  exact hs.kept.unique hi hj

theorem Sound.existsUnique (hs : Sound s) (hfd : fd ≠ INVALID_SOCKET)
    (hh : Held (holding s.handles) fd) :
    ∃! i, s.HeldBy fd i := by
  obtain ⟨i, hi⟩ := (held_iff hfd).mp hh
  exact ⟨i, hi, fun j hj => hs.unique hfd hj hi⟩

theorem Sound.owned (hs : Sound s) : Owned s where
  once := by
    intro fd hfd
    by_cases hh : Held (holding s.handles) fd
    · exact .inl ⟨hs.kept.running fd hh, hs.existsUnique hfd hh⟩
    · exact .inr ⟨hs.kept.ended fd hh, not_exists.mp fun he => hh ((held_iff hfd).mpr he)⟩
  invalid := (hs.kept.ended _ not_held_invalid).turns_eq_nil hs.valid
  error := fun _ _ hi hfd => hs.kept.label ((holding_of_handle hi).trans (carried_valid hfd))

theorem disposed (hs : Sound s) (ha : Admissible s a) (h : step s a = .ok s') :
    Disposed s a s' := by
  have hs' := sound_step hs ha h
  obtain ⟨events, ht⟩ := step_transfers ha h
  refine ⟨?_, ?_, ?_, ?_, ?_⟩
  · rintro handle getsockopt errno rfl hfd hr
    simp only [step, hr, State.emplace, if_neg hfd] at h
    cases h
    exact ⟨rfl, by simp [State.HeldBy, State.handle]⟩
  · rintro handle getsockopt errno error rfl hr
    simp only [step, hr, State.emplace] at h
    cases h
    rfl
  · intro fd i hi hfd hne
    have hm : .released fd ∉ events := by
      intro hm
      obtain ⟨j, rfl, hj, -⟩ := (ht.released fd).mp hm
      exact hne (by rw [hs.unique hfd hj hi])
    exact hs'.existsUnique hfd (ht.transfer.held ((held_iff hfd).mpr ⟨i, hi⟩) hm)
  · rintro fd i hi hfd rfl
    have hm : .released fd ∈ events := (ht.released fd).mpr ⟨i, rfl, hi, hfd⟩
    refine ⟨?_, fun j hj => hs.unique hfd hj hi, fun j hj => ?_⟩
    · rw [ht.history, ht.transfer.eq_of_released hm]
    · exact ht.transfer.not_held_of_released hs.kept hm ((held_iff hfd).mpr ⟨j, hj⟩)
  · intro fd hn
    have hm : .released fd ∉ events := by
      intro hm
      obtain ⟨i, he, hi, -⟩ := (ht.released fd).mp hm
      exact hn i hi he
    rw [ht.history, List.count_append, List.count_eq_zero.mpr hm, Nat.add_zero]

/-- In every run in which constructors get descriptors that no handle holds, each
descriptor is owned by one handle at a time and closed once for each time it was
adopted, by the destruction of the handle that holds it. -/
theorem owned_exactly_once (tr : List Action) (h : Runs.run step {} tr = .ok s)
    (ha : Runs.Along step Admissible {} tr) :
    Owned s ∧ ∀ tr₁ a tr₂ u u', tr = tr₁ ++ a :: tr₂ → Runs.run step {} tr₁ = .ok u →
      step u a = .ok u' → Disposed u a u' := by
  refine ⟨(run_sound h ha).owned, ?_⟩
  rintro tr₁ a tr₂ u u' rfl hu hstep
  exact disposed (run_sound hu ha.append)
    ((Runs.along_iff Admissible).mp ha tr₁ a tr₂ u rfl hu) hstep

theorem owned_exactly_once_reused : ∃ s, Runs.run step {}
      [.ofNative 7#32 0 ⟨EBADF, by decide⟩, .setError 0 ECONNRESET, .construct,
        .moveAssign 1 0, .moveConstruct 1, .swap 2 2, .ofNative 9#32 (-1) ⟨EBADF, by decide⟩,
        .destruct 2, .ofNative 7#32 0 ⟨EBADF, by decide⟩, .destruct 0] = .ok s ∧
    turns 7#32 s.history = [.acquired 7#32, .released 7#32, .acquired 7#32] ∧ Owned s :=
  ⟨_, rfl, by decide, (owned_exactly_once
    [.ofNative 7#32 0 ⟨EBADF, by decide⟩, .setError 0 ECONNRESET, .construct,
      .moveAssign 1 0, .moveConstruct 1, .swap 2 2, .ofNative 9#32 (-1) ⟨EBADF, by decide⟩,
      .destruct 2, .ofNative 7#32 0 ⟨EBADF, by decide⟩, .destruct 0] rfl (by decide)).1⟩

end AsyncBerkeley.Ownership
