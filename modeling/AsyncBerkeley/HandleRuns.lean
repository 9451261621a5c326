import Mathlib.Data.List.Forall2
import AsyncBerkeley.Lifetimes
import AsyncBerkeley.Ownership

namespace AsyncBerkeley.HandleRuns

open InterestList SocketHandles Executor Steps Evolution Lifetimes

/-- The handles of the executor, with none in the place of one that is not held any more. -/
def handlesOf (s : State) : List (Option SocketHandle) :=
  s.handles.mapIdx fun h handle => if live s h then some handle else none

abbrev Reaches := Runs.Reaches Ownership.step Ownership.Admissible

def Evolves (old new : Option SocketHandle) : Prop :=
  new = none ∨ ∃ handle error, old = some handle ∧ new = some (handle.setError error)

theorem reaches_evolves {done : List (Option SocketHandle)} {history : List (Custody.Event Fd Int)}
    {old new : Option SocketHandle} (rest : List (Option SocketHandle)) (h : Evolves old new) :
    ∃ history', Reaches ⟨done ++ old :: rest, history⟩ ⟨done ++ new :: rest, history'⟩ := by
  have hat : ∀ x, Ownership.State.handle ⟨done ++ x :: rest, history⟩ done.length = x := by
    intro x
    simp [Ownership.State.handle]
  have hset : ∀ x, (done ++ old :: rest).set done.length x = done ++ x :: rest := by
    intro x
    simp
  cases old with
  | none =>
    have hnew : new = none := h.resolve_right (by simp)
    subst new
    exact ⟨history, .refl _ _⟩
  | some handle =>
    obtain rfl | ⟨_, error, he, rfl⟩ := h
    · refine ⟨history ++ (close handle).2.toList.map .released,
        .single (a := Ownership.Action.destruct done.length) ?_ trivial⟩
      simp only [Ownership.step, hat, hset]
    · cases he
      refine ⟨history ++ [.labelled handle.socket error],
        .single (a := Ownership.Action.setError done.length error) ?_ trivial⟩
      simp only [Ownership.step, hat, hset]

theorem reaches_forall {old new : List (Option SocketHandle)} (h : List.Forall₂ Evolves old new)
    (done : List (Option SocketHandle)) (history : List (Custody.Event Fd Int)) :
    ∃ history', Reaches ⟨done ++ old, history⟩ ⟨done ++ new, history'⟩ := by
  induction h generalizing done history with
  | nil => exact ⟨history, .refl _ _⟩
  | @cons x y old new hxy _ ih =>
    obtain ⟨history₁, h₁⟩ := reaches_evolves old hxy
    obtain ⟨history₂, h₂⟩ := ih (done ++ [y]) history₁
    refine ⟨history₂, h₁.trans ?_⟩
    simpa using h₂

variable {s s' : State} {a : Action} {i : Nat}

theorem length_handlesOf : (handlesOf s).length = s.handles.length := by simp [handlesOf]

theorem handlesOf_getElem? (s : State) (i : Nat) :
    (handlesOf s)[i]? = s.handles[i]?.map fun handle => if live s i then some handle else none := by
  rw [handlesOf, List.getElem?_mapIdx]

theorem socket_handlesOf (hl : live s i = true) (hi : i < s.handles.length) :
    ((handlesOf s)[i]?.join).map SocketHandle.socket = some (descriptor s.handles i) := by
  simp [handlesOf_getElem?, hl, descriptor, List.getElem?_eq_getElem hi]

theorem evolves_handlesOf {old : Option SocketHandle} (hi : i < (handlesOf s').length)
    (ho : live s' i = true → old.map SocketHandle.socket = some (descriptor s'.handles i)) :
    Evolves old ((handlesOf s').get ⟨i, hi⟩) := by
  have hlt : i < s'.handles.length := length_handlesOf ▸ hi
  have hget := handlesOf_getElem? s' i
  rw [List.getElem?_eq_getElem hi, List.getElem?_eq_getElem hlt, Option.map_some,
    Option.some.injEq] at hget
  rw [List.get_eq_getElem, hget]
  cases hl : live s' i with
  | false => exact .inl rfl
  | true =>
    obtain ⟨handle, rfl, hsocket⟩ := Option.map_eq_some_iff.mp (ho hl)
    refine .inr ⟨handle, s'.handles[i].error, rfl, ?_⟩
    simp only [descriptor, List.getElem?_eq_getElem hlt, Option.map_some,
      Option.getD_some] at hsocket
    simp [SocketHandle.setError, hsocket]

theorem admissible_fresh {fd : Fd} (hf : fd = INVALID_SOCKET ∨ fresh s fd = true)
    (history : List (Custody.Event Fd Int)) (errno : Errno) :
    Ownership.Admissible ⟨handlesOf s, history⟩ (.ofNative fd 0 errno) := by
  intro hv hm
  have hfd : fd ≠ INVALID_SOCKET := by
    rintro rfl
    cases hv
  obtain ⟨old, hold, hsocket⟩ := List.mem_map.mp hm
  obtain ⟨i, hi⟩ := List.mem_iff_getElem?.mp hold
  rw [handlesOf_getElem?] at hi
  obtain ⟨handle, hh, rfl⟩ := Option.map_eq_some_iff.mp hi
  cases hl : live s i with
  | false => simp [hl] at hsocket
  | true =>
    have hlt := (List.getElem?_eq_some_iff.mp hh).1
    refine (fresh_iff.mp (hf.resolve_left hfd)).2 i hlt hl ?_
    simpa [hl, descriptor, hh] using hsocket

theorem step_reaches (h : Step s a s') (history : List (Custody.Event Fd Int)) :
    ∃ history', Reaches ⟨handlesOf s, history⟩ ⟨handlesOf s', history'⟩ := by
  have hg := step_grows h
  have hold : ∀ i < s.handles.length, live s' i = true →
      ((handlesOf s)[i]?.join).map SocketHandle.socket = some (descriptor s'.handles i) := by
    intro i hi hl
    rw [socket_handlesOf (live_step h hi hl) hi, hg.descriptor i hi]
  obtain ⟨hlen, -⟩ | ⟨fd, hf, hlen, hd, -⟩ := hg.dialogs
  · have hall : List.Forall₂ Evolves (handlesOf s) (handlesOf s') := by
      refine List.forall₂_iff_get.mpr ⟨?_, fun i hi hi' => evolves_handlesOf hi' fun hl => ?_⟩
      · rw [length_handlesOf, length_handlesOf, hlen]
      · have hlt : i < s.handles.length := length_handlesOf ▸ hi
        simpa [List.getElem?_eq_getElem hi] using hold i hlt hl
    exact reaches_forall hall [] history
  · -- the new handle is constructed first, while every other one is as before
    have hadopt : Reaches ⟨handlesOf s, history⟩
        (Ownership.State.emplace ⟨handlesOf s, history⟩ (.ok { socket := fd })) := by
      refine .single (a := Ownership.Action.ofNative fd 0 ⟨EBADF, by decide⟩) ?_
        (admissible_fresh hf history _)
      simp [Ownership.step, ofNative_eq]
    have hall : List.Forall₂ Evolves (handlesOf s ++ [some { socket := fd }]) (handlesOf s') := by
      refine List.forall₂_iff_get.mpr ⟨?_, fun i hi hi' => evolves_handlesOf hi' fun hl => ?_⟩
      · rw [length_handlesOf, hlen, List.length_append, length_handlesOf]
        rfl
      · have hlt : i < s'.handles.length := length_handlesOf ▸ hi'
        obtain hi₀ | hi₀ := Nat.lt_or_ge i s.handles.length
        · have hi₁ : i < (handlesOf s).length := length_handlesOf.symm ▸ hi₀
          simpa [List.getElem_append_left hi₁, List.getElem?_eq_getElem hi₁] using hold i hi₀ hl
        · obtain rfl : i = s.handles.length := by omega
          simp [hd, List.getElem_append_right, length_handlesOf]
    obtain ⟨history', hr⟩ := reaches_forall hall [] _
    exact ⟨history', hadopt.trans hr⟩

/-- Every run of the executor is a run of its handles, in which each descriptor
that a constructor gets is held by no other handle. -/
theorem run_reaches {config : Config} {tr : List Action} (h : run config tr = .ok s) :
    ∃ history, Reaches {} ⟨handlesOf s, history⟩ := by
  refine Runs.run_invariant (fun t => ∃ history, Reaches {} ⟨handlesOf t, history⟩)
    ?_ h ⟨[], .refl _ _⟩
  rintro t a t' ⟨history, hr⟩ hstep
  obtain ⟨history', hr'⟩ := step_reaches (step_spec hstep) history
  exact ⟨history', hr.trans hr'⟩

/-- So each descriptor is owned by one live handle of the executor at most, with
adoptions and closings that alternate. -/
theorem run_handles_owned {config : Config} {tr : List Action} (h : run config tr = .ok s) :
    ∃ history, Reaches {} ⟨handlesOf s, history⟩ ∧ Ownership.Owned ⟨handlesOf s, history⟩ := by
  obtain ⟨history, acts, hr, ha⟩ := run_reaches h
  exact ⟨history, ⟨acts, hr, ha⟩, (Ownership.run_sound hr ha).owned⟩

end AsyncBerkeley.HandleRuns
