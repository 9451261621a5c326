import AsyncBerkeley.ReactorRuns
import AsyncBerkeley.StaleInterest

namespace AsyncBerkeley.Calls

open Events InterestList SocketHandles PollMultiplexer Operations Executor Passes Steps Evolution
  Conservation SortedTable ReactorRuns

/-- The tasks that an event makes ready: writers first, as they were queued. -/
def dispatched (mux : Multiplexer) (event : Pollfd) : List TaskId :=
  (if drains event.revents .write then mux.queue event.fd .write else []) ++
    (if drains event.revents .read then mux.queue event.fd .read else [])

variable {getsockopt : Fd → Except Errno Int} {p : Pass} {events : List Pollfd} {s s' : State}
  {a : Action} {w : Nat}

theorem moved_dispatched {event : Pollfd} {demux : Demultiplexer}
    (hd : p.mux.demux[toSize event.fd]? = some demux) :
    moved event.revents demux = dispatched p.mux event := by
  simp [moved, dispatched, queue_of_getElem? hd, Demultiplexer.queue]

theorem dispatched_handleEvent {event event' : Pollfd} (hne : event.fd ≠ event'.fd) :
    dispatched (handleEvent getsockopt p event).1.mux event' = dispatched p.mux event' := by
  obtain ⟨demux, handles, hd, -, he⟩ | ⟨_, he⟩ := handleEvent_cases getsockopt p event
  · simp [dispatched, he, queue_set hd, Ne.symm hne]
  · rw [he]
    rfl

theorem handleEvents_dispatched (getsockopt : Fd → Except Errno Int) (hs : Sorted Pollfd.key events)
    (h : (handleEvents getsockopt p events).2 = none) :
    (handleEvents getsockopt p events).1.ready = p.ready ++ events.flatMap (dispatched p.mux) := by
  induction events generalizing p with
  | nil => simp [handleEvents]
  | cons event events ih =>
    obtain ⟨hhead, htail⟩ := List.pairwise_cons.mp hs
    obtain ⟨he, hrest⟩ := handleEvents_cons_none.mp h
    have hothers : events.flatMap (dispatched (handleEvent getsockopt p event).1.mux) =
        events.flatMap (dispatched p.mux) := by
      apply List.flatMap_congr
      intro event' hm
      apply dispatched_handleEvent
      exact fun hf => Int.ne_of_lt (hhead event' hm) (key_inj.mpr hf)
    have hready : (handleEvent getsockopt p event).1.ready = p.ready ++ dispatched p.mux event := by
      obtain ⟨demux, handles, hd, -, hev⟩ | ⟨_, hev⟩ := handleEvent_cases getsockopt p event
      · rw [hev, moved_dispatched hd]
      · rw [hev] at he
        cases he
    rw [handleEvents_cons_of_none he, ih htail hrest, hothers, hready, List.flatMap_cons,
      List.append_assoc]

def Passed (s : State) (w : Nat) : Prop :=
  ∃ wait, s.waits[w]? = some wait ∧
    (wait.phase = .running ∨ wait.phase = .returned ∧ wait.ready = [])

theorem passed_same {wait : Wait} (hw : s.waits[w]? = some wait)
    (hphase : wait.phase = .running ∨ wait.phase = .returned ∧ wait.ready = [])
    (hs' : s'.waits[w]? = some wait) (he : executedIn w s a = []) :
    Passed s' w ∧ executedIn w s a ++ readyOf s' w = readyOf s w :=
  ⟨⟨wait, hs', hphase⟩, by rw [he, List.nil_append, readyOf_eq hw, readyOf_eq hs']⟩

theorem executedIn_issues (h : issues a = true) : executedIn w s a = [] := by
  cases a <;> first | rfl | cases h

theorem passed_step (hp : Passed s w) (h : Step s a s') :
    Passed s' w ∧ executedIn w s a ++ readyOf s' w = readyOf s w := by
  obtain ⟨wait, hw, hphase⟩ := hp
  have hlt := (List.getElem?_eq_some_iff.mp hw).1
  -- another call is in a phase that this one has left
  have other : ∀ {v : Nat} {wait' new : Wait}, s.waits[v]? = some wait' →
      (wait'.phase = .polling ∨ wait'.phase = .polled) → (s.waits.set v new)[w]? = some wait := by
    intro v wait' new hv hphase'
    have hne : v ≠ w := by
      rintro rfl
      rw [hw] at hv
      cases hv
      rcases hphase with hp | ⟨hp, -⟩ <;> rcases hphase' with hp' | hp' <;>
        rw [hp] at hp' <;> cases hp'
    rw [List.getElem?_set_ne hne]
    exact hw
  cases h with
  | issue hi h => exact passed_same hw hphase (by rw [h.waits]; exact hw) (executedIn_issues hi)
  | inline _ _ _ hc => exact passed_same hw hphase (by rw [hc.waits]; exact hw) rfl
  | register _ _ _ _ _ | abandon _ _ | idle _ _ _ | queue _ _ _ _ _ =>
    exact passed_same hw hphase hw rfl
  | snapshot =>
    exact passed_same hw hphase (by rw [snapshot, List.getElem?_append_left hlt]; exact hw) rfl
  | polled hv hp _ _ | pollThrew hv hp => exact passed_same hw hphase (other hv (.inl hp)) rfl
  | passed hv hp _ | passThrew hv hp _ => exact passed_same hw hphase (other hv (.inr hp)) rfl
  | @finish v wait' hv hp hr =>
    by_cases hvw : v = w
    · subst hvw
      refine ⟨⟨_, List.getElem?_set_self hlt, .inr ⟨rfl, hr⟩⟩, ?_⟩
      rw [readyOf_eq (List.getElem?_set_self hlt), readyOf_eq hv]
      rfl
    · exact passed_same hw hphase (by rw [List.getElem?_set_ne hvw]; exact hw) rfl
  | @execute v _ wait' o rest _ _ hv hr _ hc =>
    by_cases hvw : v = w
    · subst hvw
      rw [hw] at hv
      cases hv
      have hrunning : wait.phase = .running := hphase.resolve_right fun hret => by
        rw [hr] at hret
        cases hret.2
      have hnew : s'.waits[v]? = some { wait with ready := rest } := by
        rw [hc.waits]
        exact List.getElem?_set_self hlt
      refine ⟨⟨_, hnew, .inl hrunning⟩, ?_⟩
      rw [readyOf_eq hnew, readyOf_eq hw, hr]
      simp [executedIn, hw, hr]
    · refine passed_same hw hphase ?_ (by simp [executedIn, hvw])
      rw [hc.waits, popped, List.getElem?_set_ne hvw]
      exact hw

/-- After its locked pass a call of `wait_for` executes exactly the tasks that
were then queued on the descriptors reported to it, in the directions that the
event drains (`POLLIN` leaves the writers queued), event by event, writers before
readers and each queue in its order. What other threads or the tasks themselves
queue later it does not execute, and it returns only when it has executed all of
them. -/
theorem call_executes_its_pass (config : Config) (tr tr' : List Action) {s₁ s₂ s : State}
    {wait : Wait} (h₁ : run config tr = .ok s₁) (w : Nat) (hw : s₁.waits[w]? = some wait)
    (getsockopt : Fd → Except Errno Int)
    (hx : (handleEvents getsockopt { mux := s₁.mux, handles := s₁.handles } wait.list).2 = none)
    (h₂ : step s₁ (.pass w getsockopt) = .ok s₂) (h : Runs.run step s₂ tr' = .ok s) :
    Runs.collect step (executedIn w) s₂ tr' ++ readyOf s w = wait.list.flatMap (dispatched s₁.mux) ∧
    ∀ wait', s.waits[w]? = some wait' → wait'.phase = .returned →
      Runs.collect step (executedIn w) s₂ tr' = wait.list.flatMap (dispatched s₁.mux) := by
  have hlt := (List.getElem?_eq_some_iff.mp hw).1
  have hstart : Passed s₂ w ∧ readyOf s₂ w = wait.list.flatMap (dispatched s₁.mux) := by
    have hready :=
      handleEvents_dispatched (p := { mux := s₁.mux, handles := s₁.handles }) getsockopt
      (StaleInterest.run_sorted h₁ wait (List.mem_of_getElem? hw)) hx
    cases pass_step h₂ with
    | issue hi _ => cases hi
    | passed hv _ _ =>
      rw [hw] at hv
      cases hv
      refine ⟨⟨_, List.getElem?_set_self hlt, .inl rfl⟩, ?_⟩
      rw [readyOf_eq (List.getElem?_set_self hlt)]
      exact hready
    | passThrew hv _ hx' =>
      rw [hw] at hv
      cases hv
      rw [hx] at hx'
      cases hx'
  have hrun : Passed s w ∧
      Runs.collect step (executedIn w) s₂ tr' ++ readyOf s w = readyOf s₂ w := by
    refine Runs.run_induction (fun tr t => Passed t w ∧
      Runs.collect step (executedIn w) s₂ tr ++ readyOf t w = readyOf s₂ w) ⟨hstart.1, rfl⟩ ?_ h
    rintro tr u a v hu ha ⟨hp, hr⟩
    obtain ⟨hp', hr'⟩ := passed_step hp (step_spec ha)
    refine ⟨hp', ?_⟩
    rw [Runs.collect_snoc _ hu ha, List.append_assoc, hr', hr]
  refine ⟨hrun.2.trans hstart.2, fun wait' hw' hret => ?_⟩
  obtain ⟨⟨wait'', hw'', hphase⟩, hr⟩ := hrun
  rw [hw'] at hw''
  cases hw''
  have hnil : readyOf s w = [] := by
    rw [readyOf_eq hw']
    rcases hphase with hp | ⟨-, hready⟩
    · rw [hret] at hp
      cases hp
    · exact hready
  rw [hnil, List.append_nil] at hr
  exact hr.trans hstart.2

theorem call_executes_its_pass_requeued :
    ∃ s₁ s₂ s, run {} [.emplace 5#32, .set 0 .read, .set 0 .write, .set 0 .read,
      .connect 0, .start 0, .connect 1, .start 1, .snapshot (-1),
      .poll 0 0 [.ready [POLLIN ||| POLLOUT]]] = .ok s₁ ∧
    step s₁ (.pass 0 (fun _ => .ok 0)) = .ok s₂ ∧
    Runs.run step s₂ [.execute 0 [.transferred 1], .connect 2, .start 2,
      .execute 0 [.transferred 2], .finish 0] = .ok s ∧ s.mux.queue 5#32 .read = [2] ∧
    Runs.collect step (executedIn 0) s₂ [.execute 0 [.transferred 1], .connect 2, .start 2,
      .execute 0 [.transferred 2], .finish 0] = [1, 0] := by
  have h := call_executes_its_pass {} [.emplace 5#32, .set 0 .read, .set 0 .write, .set 0 .read,
    .connect 0, .start 0, .connect 1, .start 1, .snapshot (-1),
    .poll 0 0 [.ready [POLLIN ||| POLLOUT]]]
    [.execute 0 [.transferred 1], .connect 2, .start 2, .execute 0 [.transferred 2],
      .finish 0] rfl 0 rfl
    (fun _ => .ok 0) rfl rfl rfl
  exact ⟨_, _, _, rfl, rfl, rfl, rfl, h.2 _ rfl rfl⟩

end AsyncBerkeley.Calls
