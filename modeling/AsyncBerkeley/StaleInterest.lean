import AsyncBerkeley.EventLoop

namespace AsyncBerkeley.StaleInterest

open Events InterestList SocketHandles PollMultiplexer Operations Executor Passes Steps Evolution
  Polls
open EventLoop SortedTable

variable {s s' : State} {a : Action}

/-- A hang-up with nothing to read and no error. -/
def hangsUp (revents : Short) : Bool :=
  test revents POLLHUP && !test revents (POLLIN ||| POLLERR ||| POLLNVAL)

theorem hangsUp_iff {revents : Short} {d : Direction} :
    drains revents d = true ∧ clears revents d = false ↔ d = .read ∧ hangsUp revents = true := by
  cases d <;> simp [hangsUp, drains, clears, Direction.mask] <;> grind

/-- A pass meets no hang-up of a descriptor that still has readers. -/
def NoHangUp (s : State) : Action → Prop
  | .pass w _ => ∀ wait ∈ s.waits[w]?, ∀ event ∈ wait.list, hangsUp event.revents = true →
      s.mux.queue event.fd .read = []
  | _ => True

def Settled (s : State) : Prop := ∀ o < s.ops.length, connected s o = false

/-- What the interest in a direction is for: tasks in the queue, or the
operation that is about to be started. -/
def Justified (s : State) : Prop := ∀ fd d, s.mux.list.Awaits fd d → s.mux.queue fd d ≠ [] ∨
  ∃ (o : TaskId) (op : Operation), s.ops[o]? = some op ∧ op.status = .connected ∧
    op.trigger = d.trigger ∧ descriptor s.handles op.socket = fd ∧
      hard (errorOf s.handles op.socket) = false

theorem Justified.queue (hj : Justified s) (hp : Prompt s a) (ha : ∀ o, starts a o = false)
    {fd : Fd} {d : Direction} (h : s.mux.list.Awaits fd d) : s.mux.queue fd d ≠ [] := by
  obtain hq | ⟨o, op, hop, hc, -⟩ := hj fd d h
  · exact hq
  · have hst := hp.starts hop hc
    rw [ha o] at hst
    cases hst

theorem passed_justified {getsockopt : Fd → Except Errno Int} {p : Pass} {events : List Pollfd}
    (hx : (handleEvents getsockopt p events).2 = none)
    (hn : ∀ event ∈ events, hangsUp event.revents = true → p.mux.queue event.fd .read = [])
    (hj : ∀ fd d, p.mux.list.Awaits fd d → p.mux.queue fd d ≠ []) {fd : Fd} {d : Direction}
    (h : (handleEvents getsockopt p events).1.mux.list.Awaits fd d) :
    (handleEvents getsockopt p events).1.mux.queue fd d ≠ [] := by
  obtain ⟨ha, hcleared⟩ := (passed_awaits hx fd d).mp h
  have hq := hj fd d ha
  rw [handleEvents_queue hx]
  split
  · next he =>
    -- the event that moved the tasks did not take the interest: it is a hang-up
    simp only [emptied, cleared, List.any_eq_true, List.any_eq_false, Bool.and_eq_true, beq_iff_eq,
      not_and, Bool.not_eq_true] at he hcleared
    obtain ⟨event, hm, rfl, hd⟩ := he
    obtain ⟨rfl, hh⟩ := hangsUp_iff.mp ⟨hd, hcleared event hm rfl⟩
    exact absurd (hn event hm hh) hq
  · exact hq

theorem justified_step (hs : Sane s) (hj : Justified s) (hp : Prompt s a) (hh : NoHangUp s a)
    (hn : ¬Threw s') (h : Step s a s') : Justified s' := by
  intro fd d haw
  have queue : (∀ o, starts a o = false) → s.mux.list.Awaits fd d → s.mux.queue fd d ≠ [] :=
    fun ha => hj.queue hp ha
  cases h with
  | issue ha h =>
    rw [h.mux] at haw ⊢
    exact .inl (queue (starts_of_issues ha) haw)
  | execute _ _ _ hc =>
    rw [hc.mux] at haw ⊢
    exact .inl (queue (fun _ => rfl) haw)
  | @register o op d' hop hst he ht hroom =>
    simp only [ht] at haw
    obtain ⟨rfl, rfl⟩ | haw := (awaits_register _ _ _ _ _).mp haw
    · exact .inr ⟨o, _, List.getElem?_set_self (List.getElem?_eq_some_iff.mp hop).1,
        rfl, ht, rfl, he⟩
    · rw [queue_makeRoom]
      exact .inl (queue (fun _ => rfl) haw)
  | abandon _ _ =>
    rw [queue_makeRoom]
    exact .inl (queue (fun _ => rfl) haw)
  | @inline o op _ hop hst he hc =>
    rw [hc.mux] at haw ⊢
    obtain hq | ⟨o', op', hop', hc', ht', -, hsoft⟩ := hj fd d haw
    · exact .inl hq
    · obtain rfl := beq_iff_eq.mp (hp.starts hop' hc')
      rw [hop] at hop'
      cases hop'
      rw [ht', hsoft] at he
      cases d <;> simp [Direction.trigger] at he
  | @queue o op d' i demux hop hst ht hd hi =>
    have hpt := hs.pointers o op i hop hd
    subst hpt
    rw [queue_push ht hi]
    obtain hq | ⟨o', op', hop', hc', ht', hfd, -⟩ := hj fd d haw
    · refine .inl ?_
      split
      · simp
      · exact hq
    · obtain rfl := beq_iff_eq.mp (hp.starts hop' hc')
      rw [hop] at hop'
      cases hop'
      simp [hfd.symm, Direction.trigger_injective (ht'.symm.trans ht)]
  | passed hw _ hx =>
    exact .inl (passed_justified hx (fun event hm => hh _ hw event hm)
      (fun fd d => hj.queue hp (fun _ => rfl)) haw)
  | passThrew hw _ _ => exact absurd (threw_passThrew hw) hn
  | idle _ _ _ | snapshot | polled _ _ _ _ | pollThrew _ _ | finish _ _ _ =>
    exact .inl (queue (fun _ => rfl) haw)

theorem run_justified {config : Config} {tr : List Action} (h : run config tr = .ok s)
    (hp : Runs.Along step Prompt (initial config) tr)
    (hh : Runs.Along step NoHangUp (initial config) tr) (hn : ¬Threw s) : Justified s := by
  have hboth : Runs.Along step (fun s a => Prompt s a ∧ NoHangUp s a) (initial config) tr := by
    rw [Runs.along_iff] at hp hh ⊢
    exact fun tr₁ a tr₂ u htr hu => ⟨hp tr₁ a tr₂ u htr hu, hh tr₁ a tr₂ u htr hu⟩
  refine (Runs.run_invariant_along (fun t => Sane t ∧ (¬Threw t → Justified t)) _ ?_ h hboth
    ⟨sane_initial config, fun _ fd d ha => ?_⟩).2 hn
  · rintro t a t' ⟨hs, ht⟩ ⟨hprompt, hhang⟩ hstep
    have hst := step_spec hstep
    exact ⟨sane_step hs hst,
      fun hn' => justified_step hs (ht (mt (threw_step hst) hn')) hprompt hhang hn' hst⟩
  · simp [initial, Interest.Awaits, Interest.empty] at ha

theorem run_sorted {config : Config} {tr : List Action} (h : run config tr = .ok s) :
    ∀ wait ∈ s.waits, Sorted Pollfd.key wait.list := by
  refine Runs.run_invariant (fun t => ∀ wait ∈ t.waits, Sorted Pollfd.key wait.list)
    ?_ h (by simp [initial])
  intro t a t' ht hstep
  refine forall_waits_step (step_spec hstep) (fun _ => t.mux.list.sorted_copyActive) ?_ ht
  intro wait wait' hadv hs
  cases hadv with
  | polled _ _ hr => exact sorted_poll hs hr
  | threw _ | passed _ | popped _ | returned _ _ => exact hs

theorem hangUp_stale {getsockopt : Fd → Except Errno Int} {p : Pass} {events : List Pollfd}
    {event : Pollfd} (hx : (handleEvents getsockopt p events).2 = none)
    (hs : Sorted Pollfd.key events) (hm : event ∈ events) (hh : hangsUp event.revents = true)
    (ha : p.mux.list.Awaits event.fd .read) :
    (handleEvents getsockopt p events).1.mux.list.Awaits event.fd .read ∧
      (handleEvents getsockopt p events).1.mux.queue event.fd .read = [] := by
  obtain ⟨hd, hc⟩ := hangsUp_iff.mpr ⟨rfl, hh⟩
  rw [passed_awaits hx, handleEvents_queue hx]
  refine ⟨⟨ha, ?_⟩, ?_⟩
  · -- the events of a pass are on different descriptors
    simp only [cleared, List.any_eq_false, Bool.and_eq_true, beq_iff_eq, not_and, Bool.not_eq_true]
    intro event' hm' hf
    have he : event' = event := by
      have hl := lookup_of_mem hs hm
      rw [← key_inj.mpr hf, lookup_of_mem hs hm'] at hl
      exact Option.some.inj hl
    rw [he]
    exact hc
  · have hempty : emptied events event.fd .read = true := by
      simp only [emptied, List.any_eq_true, Bool.and_eq_true, beq_iff_eq]
      exact ⟨event, hm, rfl, hd⟩
    rw [if_pos hempty]

theorem settled_pass {w : Nat} {getsockopt : Fd → Except Errno Int}
    (hp : Prompt s (.pass w getsockopt)) (h : Step s (.pass w getsockopt) s') : Settled s' := by
  intro o ho
  by_contra hc
  simp only [connected, List.getElem?_eq_getElem ho, Option.map_some, Option.getD_some,
    decide_eq_true_eq, Bool.not_eq_false] at hc
  cases connected_step hp h (List.getElem?_eq_getElem ho) hc

/-- In a prompt run, every settled state has interest only in directions with
tasks exactly when no pass meets a hang-up of a descriptor with readers. -/
theorem interest_justified_iff (config : Config) (tr : List Action) (h : run config tr = .ok s)
    (hp : Runs.Along step Prompt (initial config) tr) (hn : ¬Threw s) :
    (∀ tr₁ tr₂ u, tr = tr₁ ++ tr₂ → run config tr₁ = .ok u → Settled u →
      ∀ fd d, u.mux.list.Awaits fd d → u.mux.queue fd d ≠ []) ↔
    Runs.Along step NoHangUp (initial config) tr := by
  constructor
  · intro hall
    rw [Runs.along_iff]
    rintro tr₁ a tr₂ u rfl hu
    cases a with
    | pass w getsockopt =>
      intro wait hw event hm hh
      by_contra hq
      obtain ⟨v, hv, hrest⟩ := Runs.run_append_ok.mp h
      cases hu.symm.trans hv
      obtain ⟨u', hstep, hrest⟩ := Runs.run_cons_ok.mp hrest
      have hu' : run config (tr₁ ++ [.pass w getsockopt]) = .ok u' :=
        Runs.run_snoc_ok.mpr ⟨u, hu, hstep⟩
      have hn' := not_threw_of_run hrest hn
      have hst := step_spec hstep
      have ha := (run_attended hu hp.append (mt (threw_step hst) hn')).queued event.fd .read hq
      have hprompt : Prompt u (.pass w getsockopt) := (Runs.along_iff _).mp hp tr₁ _ tr₂ u rfl hu
      have hno := hall (tr₁ ++ [.pass w getsockopt]) tr₂ u' (by simp) hu'
        (settled_pass hprompt hst) event.fd .read
      cases hst with
      | issue ha _ => cases ha
      | passed hw' _ hx =>
        cases hw.symm.trans hw'
        obtain ⟨haw, hempty⟩ :=
          hangUp_stale hx (run_sorted hu wait (List.mem_of_getElem? hw')) hm hh ha
        exact hno haw hempty
      | passThrew hw' _ _ => exact hn' (threw_passThrew hw')
    | emplace _ | copyDialog _ | dropDialog _ | accept _ _ _ | recvmsg _ _ | sendmsg _ _
    | connectDialog _ _
    | set _ _ | connect _ | start _ | snapshot _ | poll _ _ _ | execute _ _ | finish _ => trivial
  · rintro hh tr₁ tr₂ u rfl hu hsettled fd d ha
    obtain ⟨v, hv, hrest⟩ := Runs.run_append_ok.mp h
    cases hu.symm.trans hv
    rcases run_justified hu hp.append hh.append (not_threw_of_run hrest hn) fd d ha with
      hq | ⟨o, op, hop, hc, -⟩
    · exact hq
    · have hset := hsettled o (List.getElem?_eq_some_iff.mp hop).1
      simp [connected, hop, hc] at hset

/-- A hang-up moves the reader and keeps `POLLIN` for it. -/
theorem interest_outlives :
    ¬ ∀ (config : Config) (tr : List Action) (s : State), run config tr = .ok s →
    Runs.Along step Prompt (initial config) tr → ¬Threw s → Settled s →
    ∀ fd d, s.mux.list.Awaits fd d → s.mux.queue fd d ≠ [] := by
  intro h
  have hq := h {} [.emplace 5#32, .recvmsg 0 [.failed ⟨EAGAIN, by decide⟩], .connect 0, .start 0,
    .snapshot (-1), .poll 0 0 [.ready [POLLHUP]], .pass 0 (fun _ => .ok 0)] _ rfl (by decide)
    (by unfold Threw; decide) (by unfold Settled; decide) 5#32 .read (by decide)
  exact hq rfl

theorem interest_justified_hangUp_readable :
    ∃ s, run {} [.emplace 5#32, .set 0 .read, .connect 0, .start 0,
      .snapshot (-1), .poll 0 0 [.ready [POLLIN ||| POLLHUP]], .pass 0 (fun _ => .ok 0)] = .ok s ∧
    ((∀ tr₁ tr₂ u, [.emplace 5#32, .set 0 .read, .connect 0, .start 0, .snapshot (-1),
        .poll 0 0 [.ready [POLLIN ||| POLLHUP]], .pass 0 (fun _ => .ok 0)] = tr₁ ++ tr₂ →
        run {} tr₁ = .ok u → Settled u → ∀ fd d, u.mux.list.Awaits fd d → u.mux.queue fd d ≠ []) ↔
      Runs.Along step NoHangUp (initial {}) [.emplace 5#32, .set 0 .read, .connect 0, .start 0,
        .snapshot (-1), .poll 0 0 [.ready [POLLIN ||| POLLHUP]], .pass 0 (fun _ => .ok 0)]) :=
  ⟨_, rfl, interest_justified_iff {} _ rfl (by decide) (by unfold Threw; decide)⟩

end AsyncBerkeley.StaleInterest
