import AsyncBerkeley.Events
import AsyncBerkeley.SortedTable

namespace AsyncBerkeley.InterestList

open Events SortedTable

abbrev Fd := BitVec 32

def INVALID_SOCKET : Fd := -1#32

structure Pollfd where
  fd : Fd
  events : Short := 0#16
  revents : Short := 0#16
  deriving DecidableEq, Repr

/-- Descriptors are compared as signed integers. -/
def Pollfd.key (event : Pollfd) : Int := event.fd.toInt

def makePollEvent (socket : Fd) (trigger : ExecutionTrigger) : Pollfd where
  fd := socket
  events :=
    (if trigger = .READ then POLLIN else 0#16) ||| (if trigger = .WRITE then POLLOUT else 0#16)

def addEvents (events : Short) (pos : Pollfd) : Pollfd :=
  { pos with events := pos.events ||| events }

/-- Add the requested events to the entry of the descriptor, or insert the
event where the search ends, so that the list stays sorted. -/
def updateOrInsertEvent (list : List Pollfd) (event : Pollfd) : List Pollfd :=
  match list[lowerBound Pollfd.key list event.key]? with
  | some pos => if pos.fd = event.fd
      then list.set (lowerBound Pollfd.key list event.key) (addEvents event.events pos)
      else list.insertIdx (lowerBound Pollfd.key list event.key) event
  | none => list.insertIdx (lowerBound Pollfd.key list event.key) event

def remaining (events revents : Short) : Short :=
  (if test revents (POLLERR ||| POLLNVAL) then 0#16 else events) &&& ~~~revents

def dropEvents (revents : Short) (pfd : Pollfd) : Pollfd :=
  { pfd with events := remaining pfd.events revents }

def clearEvent (event : Pollfd) (list : List Pollfd) : List Pollfd :=
  match list[lowerBound Pollfd.key list event.key]? with
  | some pfd => if pfd.fd = event.fd
      then list.set (lowerBound Pollfd.key list event.key) (dropEvents event.revents pfd)
      else list
  | none => list

def copyActive (list : List Pollfd) : List Pollfd := list.filter (fun event => event.events != 0#16)

theorem key_eq_iff {e : Pollfd} {fd : Fd} : fd.toInt = e.key ↔ fd = e.fd := BitVec.toInt_inj

theorem key_inj {e e' : Pollfd} : e.key = e'.key ↔ e.fd = e'.fd := BitVec.toInt_inj

theorem addEvents_key (events : Short) (pos : Pollfd) : (addEvents events pos).key = pos.key := rfl

theorem dropEvents_key (revents : Short) (pfd : Pollfd) :
    (dropEvents revents pfd).key = pfd.key := rfl

theorem updateOrInsertEvent_eq (list : List Pollfd) (event : Pollfd) :
    updateOrInsertEvent list event =
      upsert Pollfd.key list event.key (addEvents event.events) event := by
  unfold updateOrInsertEvent upsert
  cases list[lowerBound Pollfd.key list event.key]? with
  | none => rfl
  | some pos => by_cases h : pos.fd = event.fd <;> simp [h, key_inj]

theorem clearEvent_eq (event : Pollfd) (list : List Pollfd) :
    clearEvent event list = adjust Pollfd.key list event.key (dropEvents event.revents) := by
  unfold clearEvent adjust
  cases list[lowerBound Pollfd.key list event.key]? with
  | none => rfl
  | some pfd => by_cases h : pfd.fd = event.fd <;> simp [h, key_inj]

theorem sorted_updateOrInsertEvent {list : List Pollfd} (h : Sorted Pollfd.key list)
    (event : Pollfd) :
    Sorted Pollfd.key (updateOrInsertEvent list event) := by
  rw [updateOrInsertEvent_eq]
  exact sorted_upsert (addEvents_key event.events) h rfl

theorem sorted_clearEvent {list : List Pollfd} (h : Sorted Pollfd.key list) (event : Pollfd) :
    Sorted Pollfd.key (clearEvent event list) := by
  rw [clearEvent_eq]
  exact sorted_adjust (dropEvents_key event.revents) h

/-- The interest list of the multiplexer, which is always sorted by descriptor. -/
structure Interest where
  entries : List Pollfd
  sorted : Sorted Pollfd.key entries
  deriving DecidableEq

namespace Interest

def empty : Interest := ⟨[], List.Pairwise.nil⟩

def register (l : Interest) (event : Pollfd) : Interest :=
  ⟨updateOrInsertEvent l.entries event, sorted_updateOrInsertEvent l.sorted event⟩

def clear (l : Interest) (event : Pollfd) : Interest :=
  ⟨clearEvent event l.entries, sorted_clearEvent l.sorted event⟩

def events (l : Interest) (fd : Fd) : Short :=
  ((lookup Pollfd.key l.entries fd.toInt).map Pollfd.events).getD 0#16

/-- The list read as a finite map from descriptors to masks. -/
def mask (l : Interest) (fd : Fd) : Option Short :=
  (lookup Pollfd.key l.entries fd.toInt).map Pollfd.events

variable (l : Interest) (event : Pollfd) (fd : Fd)

theorem events_eq_mask : l.events fd = (l.mask fd).getD 0#16 := rfl

theorem register_entries : (l.register event).entries =
    upsert Pollfd.key l.entries event.key (addEvents event.events) event :=
  updateOrInsertEvent_eq l.entries event

theorem clear_entries : (l.clear event).entries =
    adjust Pollfd.key l.entries event.key (dropEvents event.revents) :=
  clearEvent_eq event l.entries

theorem mask_register : (l.register event).mask fd =
    if fd = event.fd then some ((l.mask fd).getD 0#16 ||| event.events) else l.mask fd := by
  rw [mask, register_entries, lookup_upsert (addEvents_key event.events) l.sorted rfl]
  by_cases h : fd = event.fd
  · subst h
    rw [if_pos rfl, if_pos (key_eq_iff.mpr rfl)]
    have hk : lookup Pollfd.key l.entries event.key =
      lookup Pollfd.key l.entries event.fd.toInt := rfl
    cases hl : lookup Pollfd.key l.entries event.fd.toInt <;> simp [mask, hk, hl, addEvents]
  · rw [if_neg h, if_neg (mt key_eq_iff.mp h)]
    rfl

theorem mask_clear : (l.clear event).mask fd =
    if fd = event.fd then (l.mask fd).map (fun events => remaining events event.revents)
      else l.mask fd := by
  rw [mask, clear_entries, lookup_adjust (dropEvents_key event.revents) l.sorted]
  by_cases h : fd = event.fd
  · subst h
    rw [if_pos rfl, if_pos (key_eq_iff.mpr rfl), mask, Option.map_map, Option.map_map]
    rfl
  · rw [if_neg h, if_neg (mt key_eq_iff.mp h)]
    rfl

theorem events_register : (l.register event).events fd =
    if fd = event.fd then l.events fd ||| event.events else l.events fd := by
  rw [events_eq_mask, mask_register, events_eq_mask]
  split <;> rfl

theorem events_clear : (l.clear event).events fd =
    if fd = event.fd then remaining (l.events fd) event.revents else l.events fd := by
  rw [events_eq_mask, mask_clear, events_eq_mask]
  split
  · cases l.mask fd <;> simp [remaining]
  · rfl

theorem mask_of_mem {e : Pollfd} (h : e ∈ l.entries) : l.mask e.fd = some e.events := by
  rw [mask, show e.fd.toInt = e.key from rfl, lookup_of_mem l.sorted h]
  rfl

theorem entry_of_mask {mask : Short} (h : l.mask fd = some mask) :
    ∃ e, l.entries[lowerBound Pollfd.key l.entries fd.toInt]? = some e ∧ e.fd = fd ∧
      e.events = mask := by
  obtain ⟨e, he, hm⟩ := Option.map_eq_some_iff.mp h
  exact ⟨e, getElem?_lowerBound l.sorted he, (key_eq_iff.mp (lookup_key he).symm).symm, hm⟩

theorem mem_clear {e : Pollfd} (h : e ∈ (l.clear event).entries) :
    ∃ e' ∈ l.entries, e.fd = e'.fd := by
  rw [clear_entries] at h
  obtain ⟨e', he', hk⟩ := mem_adjust (dropEvents_key event.revents) h
  exact ⟨e', he', key_inj.mp hk⟩

theorem test_events_iff (bits : Short) :
    test (l.events fd) bits = true ↔ ∃ e ∈ l.entries, e.fd = fd ∧ test e.events bits = true := by
  constructor
  · intro h
    cases hl : lookup Pollfd.key l.entries fd.toInt with
    | none => simp [events, hl] at h
    | some e =>
      have hk := key_eq_iff.mp (lookup_key hl).symm
      exact ⟨e, mem_of_lookup hl, hk.symm, by simpa [events, hl] using h⟩
  · rintro ⟨e, he, rfl, h⟩
    have hl : lookup Pollfd.key l.entries e.fd.toInt = some e := lookup_of_mem l.sorted he
    simpa [events, hl] using h

def Awaits (d : Direction) : Prop := ∃ e ∈ l.entries, e.fd = fd ∧ test e.events d.mask = true

instance (d : Direction) :
    Decidable (l.Awaits fd d) := inferInstanceAs (Decidable (∃ e ∈ l.entries, _))

theorem awaits_iff (d : Direction) : l.Awaits fd d ↔ test (l.events fd) d.mask = true :=
  (l.test_events_iff fd d.mask).symm

theorem sorted_copyActive : Sorted Pollfd.key (copyActive l.entries) :=
  l.sorted.sublist List.filter_sublist

theorem events_eq_zero_of_copyActive_eq_nil (h : copyActive l.entries = []) :
    l.events fd = 0#16 := by
  cases hl : lookup Pollfd.key l.entries fd.toInt with
  | none => simp [events, hl]
  | some e =>
    have he := List.filter_eq_nil_iff.mp h e (mem_of_lookup hl)
    simpa [events, hl] using he

end Interest

def clears (revents : Short) (d : Direction) : Bool :=
  test revents (POLLERR ||| POLLNVAL) || test revents d.mask

theorem test_remaining (events revents : Short) (d : Direction) :
    test (remaining events revents) d.mask = (test events d.mask && !clears revents d) := by
  unfold remaining clears
  cases test revents (POLLERR ||| POLLNVAL) <;> simp

theorem makePollEvent_events (socket : Fd) (d : Direction) :
    (makePollEvent socket d.trigger).events = d.mask := by
  cases d <;> rfl

theorem awaits_register (l : Interest) (fd fd' : Fd) (d d' : Direction) :
    (l.register (makePollEvent fd' d'.trigger)).Awaits fd d ↔
      (fd = fd' ∧ d = d') ∨ l.Awaits fd d := by
  rw [Interest.awaits_iff, Interest.awaits_iff, Interest.events_register, makePollEvent_events]
  by_cases hf : fd = fd'
  · subst hf
    simp only [makePollEvent, ↓reduceIte, or_test, mask_test, Bool.or_eq_true,
      decide_eq_true_eq, true_and]
    rw [or_comm, eq_comm]
  · simp [makePollEvent, hf]

end AsyncBerkeley.InterestList
