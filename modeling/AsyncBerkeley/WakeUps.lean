import Mathlib.Data.List.Induction
import AsyncBerkeley.Evolution

namespace AsyncBerkeley.WakeUps

open Events InterestList SocketHandles PollMultiplexer Operations Executor Passes Steps Evolution

/-- The descriptor was registered for the direction, and no event that was
processed later has taken the interest away. -/
def Watched (history : List Event) (fd : Fd) (d : Direction) : Prop :=
  ∃ past later, history = past ++ .registered fd d.trigger :: later ∧
    ∀ event, .processed event ∈ later → event.fd = fd → clears event.revents d = false

theorem watched_snoc (history : List Event) (e : Event) (fd : Fd) (d : Direction) :
    Watched (history ++ [e]) fd d ↔ e = .registered fd d.trigger ∨
      (Watched history fd d ∧
        ∀ event, e = .processed event → event.fd = fd → clears event.revents d = false) := by
  constructor
  · rintro ⟨past, later, hh, hl⟩
    obtain rfl | ⟨later, x, rfl⟩ := later.eq_nil_or_concat
    · exact .inl (List.singleton_inj.mp (List.append_inj' hh rfl).2)
    · rw [List.concat_eq_append, ← List.cons_append, ← List.append_assoc] at hh
      obtain ⟨hpre, he⟩ := List.append_inj' hh rfl
      obtain rfl := List.singleton_inj.mp he
      refine .inr ⟨⟨past, later, hpre, fun event he => hl event (by simp [he])⟩, ?_⟩
      rintro event rfl
      exact hl event (by simp)
  · rintro (rfl | ⟨⟨past, later, rfl, hl⟩, he⟩)
    · exact ⟨history, [], rfl, by simp⟩
    · refine ⟨past, later ++ [e], by simp, fun event hm => ?_⟩
      obtain hm | hm := List.mem_append.mp hm
      · exact hl event hm
      · exact he event (List.mem_singleton.mp hm).symm

theorem watched_processed (history : List Event) (events : List Pollfd) (fd : Fd) (d : Direction) :
    Watched (history ++ events.map .processed) fd d ↔
      Watched history fd d ∧ cleared events fd d = false := by
  induction events using List.reverseRecOn with
  | nil => simp [cleared]
  | append_singleton events event ih =>
    rw [List.map_append, ← List.append_assoc, List.map_singleton, watched_snoc, ih]
    simp [cleared, List.any_append, and_assoc]

theorem watched_registered (history : List Event) (fd fd' : Fd) (d d' : Direction) :
    Watched (history ++ [.registered fd' d'.trigger]) fd d ↔
      (fd = fd' ∧ d = d') ∨ Watched history fd d := by
  rw [watched_snoc]
  constructor
  · rintro (h | ⟨h, -⟩)
    · injection h with hf ht
      exact .inl ⟨hf.symm, (Direction.trigger_injective ht).symm⟩
    · exact .inr h
  · rintro (⟨rfl, rfl⟩ | h)
    · exact .inl rfl
    · exact .inr ⟨h, by simp⟩

def Recorded (s : State) : Prop := ∀ fd d, s.mux.list.Awaits fd d ↔ Watched s.history fd d

theorem recorded_initial (config : Config) : Recorded (initial config) := by
  intro fd d
  simp [initial, Watched, Interest.Awaits, Interest.empty]

variable {s s' : State} {a : Action}

theorem recorded_passed (hs : Recorded s) (w : Nat) (getsockopt : Fd → Except Errno Int)
    (events : List Pollfd) (wait : Wait) :
    Recorded (passed s w
      (handleEvents getsockopt { mux := s.mux, handles := s.handles } events).1 wait) := by
  intro fd d
  obtain ⟨done, hb, -, hi⟩ :=
    awaits_handleEvents getsockopt { mux := s.mux, handles := s.handles } events
  simp only [passed, hb, List.nil_append, watched_processed, hi]
  rw [hs fd d]

theorem recorded_step (hs : Recorded s) (h : Step s a s') : Recorded s' := by
  intro fd d
  cases h with
  | issue _ h =>
    rw [h.mux, h.history]
    exact hs fd d
  | inline _ _ _ hc =>
    rw [hc.mux, hc.history]
    exact hs fd d
  | execute _ _ _ hc =>
    rw [hc.mux, hc.history]
    simpa [popped, watched_snoc] using hs fd d
  | register _ _ _ ht _ =>
    simp only [ht, awaits_register, watched_registered]
    rw [hs fd d]
  | queue _ _ _ _ _ => simpa [watched_snoc] using hs fd d
  | passed _ _ _ | passThrew _ _ _ => exact recorded_passed hs _ _ _ _ fd d
  | abandon _ _ | idle _ _ _ | snapshot | polled _ _ _ _ | pollThrew _ _ | finish _ _ _ =>
    exact hs fd d

theorem run_recorded {config : Config} {tr : List Action} (h : run config tr = .ok s) :
    Recorded s :=
  Runs.run_invariant Recorded (fun _ _ _ hs h => recorded_step hs (step_spec h)) h
    (recorded_initial config)

/-- A task that `start` queues can be woken up exactly when the interest that
was registered for it, or for another task of its queue, has survived until then. -/
theorem start_awaits_iff (config : Config) (tr : List Action) {o : TaskId} {fd : Fd} {d : Direction}
    (h : run config tr = .ok s) (hstart : step s (.start o) = .ok s')
    (hq : s'.history = s.history ++ [.queued o]) (ht : target s o = some (d.trigger, fd)) :
    o ∈ s'.mux.queue fd d ∧ (s'.mux.list.Awaits fd d ↔ Watched s.history fd d) := by
  have hstep := step_spec hstart
  have hw := recorded_step (run_recorded h) hstep fd d
  rw [hq, watched_snoc] at hw
  refine ⟨?_, by simpa using hw⟩
  cases hstep with
  | issue ha _ => cases ha
  | inline _ _ _ hc => simp [hc.history] at hq
  | queue hop _ hd hi hdemux =>
    have hp := (run_sane h).pointers o _ _ hop hi
    subst hp
    rw [target_of_getElem? hop, hd] at ht
    injection ht with ht
    injection ht with ht hf
    subst hf
    obtain rfl := Direction.trigger_injective ht
    simp [queue_push hd hdemux]

/-- A pass between `connect` and `start` takes the interest away. -/
theorem lost_wake_up :
    ¬ ∀ (config : Config) (tr : List Action) (s s' : State) (o : TaskId) (fd : Fd)
    (d : Direction), run config tr = .ok s → step s (.start o) = .ok s' →
    s'.history = s.history ++ [.queued o] → target s o = some (d.trigger, fd) →
    s'.mux.list.Awaits fd d := by
  intro h
  have hl :=
    h {} [.emplace 5#32, .set 0 .read, .connect 0, .snapshot (-1), .poll 0 0 [.ready [POLLIN]],
    .pass 0 (fun _ => .ok 0)] _ _ 0 5#32 .read rfl rfl rfl rfl
  exact absurd hl (by decide)

theorem start_awaits_after_connect : ∃ s s', run {} [.emplace 5#32, .set 0 .read, .connect 0,
      .set 0 .write, .connect 1, .start 1, .snapshot (-1), .poll 0 0 [.ready [POLLOUT]],
      .pass 0 (fun _ => .ok 0)] = .ok s ∧ step s (.start 0) = .ok s' ∧
    0 ∈ s'.mux.queue 5#32 .read ∧ s'.mux.list.Awaits 5#32 .read := by
  have h := start_awaits_iff {} [.emplace 5#32, .set 0 .read, .connect 0, .set 0 .write, .connect 1,
    .start 1, .snapshot (-1), .poll 0 0 [.ready [POLLOUT]], .pass 0 (fun _ => .ok 0)]
    (o := 0) rfl rfl rfl (show _ = some (Direction.read.trigger, 5#32) from rfl)
  refine ⟨_, _, rfl, rfl, h.1, h.2.mpr ⟨[], [.registered 5#32 .WRITE, .queued 1,
    .processed ⟨5#32, POLLIN ||| POLLOUT, POLLOUT⟩], rfl, fun event hm _ => ?_⟩⟩
  obtain rfl : event = ⟨5#32, POLLIN ||| POLLOUT, POLLOUT⟩ := by simpa using hm
  rfl

end AsyncBerkeley.WakeUps
