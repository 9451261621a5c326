import AsyncBerkeley.Steps
import AsyncBerkeley.Polls

namespace AsyncBerkeley.BusyLoops

open Events InterestList SocketHandles PollMultiplexer Operations Executor Passes Polls
open Steps SortedTable

def Exact (mux : Multiplexer) : Prop := ∀ fd d, mux.list.Awaits fd d ↔ mux.queue fd d ≠ []

/-- The round moves a task of the event's descriptor to the ready queue, or
takes a bit of its interest away. -/
def Progress (getsockopt : Fd → Except Errno Int) (p : Pass) (event : Pollfd) : Prop :=
  (∃ tasks, (handleEvent getsockopt p event).1.ready = p.ready ++ tasks ∧ tasks ≠ [] ∧
    ∀ o ∈ tasks, ∃ d, o ∈ p.mux.queue event.fd d) ∨
  ∃ i, (p.mux.list.events event.fd).getLsbD i = true ∧
    ((handleEvent getsockopt p event).1.mux.list.events event.fd).getLsbD i = false

/-- A hang-up alone, on a descriptor without readers. -/
def Stuck (mux : Multiplexer) (event : Pollfd) : Prop :=
  event.revents = POLLHUP ∧ mux.queue event.fd .read = [] ∧
    test (mux.list.events event.fd) POLLHUP = false

variable {getsockopt : Fd → Except Errno Int} {p : Pass} {event : Pollfd} {events : List Pollfd}

theorem eq_hangUp {mask revents : Short} (hw : within mask revents = true) (hz : revents ≠ 0#16)
    (he : test revents (POLLERR ||| POLLNVAL) = false) (hm : test mask revents = false) :
    revents = POLLHUP := by
  have hbit : ∀ i, revents.getLsbD i = true → POLLHUP.getLsbD i = true := by
    intro i hi
    by_contra hh
    have hn : mask.getLsbD i = false := by
      by_contra hmi
      rw [Bool.not_eq_false] at hmi
      exact absurd ((test_iff _ _).mpr ⟨i, hmi, hi⟩) (by simp [hm])
    have hs : (POLLERR ||| POLLNVAL).getLsbD i = false := by
      by_contra hs
      rw [Bool.not_eq_false] at hs
      exact absurd ((test_iff _ _).mpr ⟨i, hi, hs⟩) (by simp [he])
    have hb := congrArg (fun v => v.getLsbD i) (beq_iff_eq.mp hw)
    have hlt : i < 16 := BitVec.lt_of_getLsbD hi
    simp only [BitVec.getLsbD_or, Bool.or_eq_false_iff] at hs
    simp only [BitVec.getLsbD_and, BitVec.getLsbD_not, BitVec.getLsbD_or,
      BitVec.getLsbD_zero, hi, hn,
      hs.1, hs.2, hlt, decide_true, Bool.true_and, Bool.or_false, Bool.false_or,
        Bool.not_eq_false'] at hb
    exact hh hb
  have hhup : ∀ i, POLLHUP.getLsbD i = true → i = 4 := by
    intro i hi
    rw [show POLLHUP = BitVec.twoPow 16 4 from rfl, BitVec.getLsbD_twoPow] at hi
    simp only [Bool.and_eq_true, decide_eq_true_eq] at hi
    omega
  obtain ⟨j, hj⟩ := exists_bit hz
  have hj4 := hhup j (hbit j hj)
  subst hj4
  apply BitVec.eq_of_getLsbD_eq
  intro i hi
  rw [Bool.eq_iff_iff]
  constructor
  · exact hbit i
  · intro h
    rw [hhup i h]
    exact hj

theorem exists_cleared_iff (mask revents : Short) (hm : mask ≠ 0#16) :
    (∃ i, mask.getLsbD i = true ∧ (remaining mask revents).getLsbD i = false) ↔
      test revents (POLLERR ||| POLLNVAL) = true ∨ test mask revents = true := by
  unfold remaining
  cases he : test revents (POLLERR ||| POLLNVAL) with
  | true =>
    obtain ⟨i, hi⟩ := exists_bit hm
    simp only [true_or, iff_true]
    exact ⟨i, hi, by simp⟩
  | false =>
    rw [test_iff]
    simp only [Bool.false_eq_true, ↓reduceIte, false_or]
    constructor
    · rintro ⟨i, hi, hn⟩
      have hlt : i < 16 := BitVec.lt_of_getLsbD hi
      simp only [BitVec.getLsbD_and, BitVec.getLsbD_not, hi, hlt, decide_true, Bool.true_and,
        Bool.not_eq_false'] at hn
      exact ⟨i, hi, hn⟩
    · rintro ⟨i, hi, hr⟩
      exact ⟨i, hi, by simp only [BitVec.getLsbD_and, BitVec.getLsbD_not, hr,
        Bool.not_true, Bool.and_false]⟩

theorem handleEvent_hangUp (h : event.revents = POLLHUP) (getsockopt : Fd → Except Errno Int)
    (p : Pass) :
    (handleEvent getsockopt p event).1.ready = p.ready ++ p.mux.queue event.fd .read := by
  have he : test event.revents (POLLERR ||| POLLNVAL) = false := by rw [h]; decide
  have hdr : drains event.revents .read = true := by rw [h]; decide
  have hdw : drains event.revents .write = false := by rw [h]; decide
  unfold handleEvent
  cases hd : p.mux.demux[toSize event.fd]? with
  | none => simp [hd, Multiplexer.queue]
  | some demux =>
    simp only [hd, prepareHandles_eq, reportError, he, Bool.false_eq_true, ↓reduceIte, Except.map]
    simp [moved, hdr, hdw, queue_of_getElem? hd, Demultiplexer.queue]

theorem progress_iff_not_stuck (hw : within (p.mux.list.events event.fd) event.revents = true)
    (hz : event.revents ≠ 0#16) (hm : p.mux.list.events event.fd ≠ 0#16) :
    Progress getsockopt p event ↔ ¬Stuck p.mux event := by
  have hbits := exists_cleared_iff (p.mux.list.events event.fd) event.revents hm
  have hlist : (handleEvent getsockopt p event).1.mux.list.events event.fd =
      remaining (p.mux.list.events event.fd) event.revents := by
    rw [handleEvent_list, Interest.events_clear, if_pos rfl]
  unfold Progress
  rw [hlist, hbits]
  constructor
  · rintro (⟨tasks, hr, hne, -⟩ | hc) ⟨hh, hq, ht⟩
    · rw [handleEvent_hangUp hh, hq] at hr
      exact hne (List.append_cancel_left hr).symm
    · rw [hh, ht] at hc
      revert hc
      decide
  · intro hs
    by_contra hn
    simp only [not_or, Bool.not_eq_true] at hn
    obtain ⟨hmoves, he, ht⟩ := hn
    have hh := eq_hangUp hw hz he ht
    apply hs
    refine ⟨hh, ?_, hh ▸ ht⟩
    by_contra hq
    exact hmoves ⟨_, handleEvent_hangUp hh getsockopt p, hq, fun o ho => ⟨.read, ho⟩⟩

theorem handleEvent_queue_other {fd : Fd} (hf : fd ≠ event.fd) (d : Direction) :
    (handleEvent getsockopt p event).1.mux.queue fd d = p.mux.queue fd d := by
  obtain ⟨demux, _, hd, _, he⟩ | ⟨_, he⟩ := handleEvent_cases getsockopt p event
  · rw [he, queue_set hd, if_neg hf]
  · rw [he]
    rfl

theorem handleEvent_events_other {fd : Fd} (hf : fd ≠ event.fd) :
    (handleEvent getsockopt p event).1.mux.list.events fd = p.mux.list.events fd := by
  rw [handleEvent_list, Interest.events_clear, if_neg hf]

theorem rounds_untouched (hs : Sorted Pollfd.key events) {r : Pass × Pollfd}
    (hr : r ∈ rounds getsockopt p events) : r.2 ∈ events ∧
      (∀ d, r.1.mux.queue r.2.fd d = p.mux.queue r.2.fd d) ∧
      r.1.mux.list.events r.2.fd = p.mux.list.events r.2.fd := by
  induction events generalizing p with
  | nil => cases hr
  | cons event events ih =>
    obtain ⟨hhead, htail⟩ := List.pairwise_cons.mp hs
    obtain rfl | ⟨-, hr⟩ := mem_rounds_cons.mp hr
    · exact ⟨by simp, fun _ => rfl, rfl⟩
    · obtain ⟨hm, hq, he⟩ := ih htail hr
      have hf : r.2.fd ≠ event.fd := fun hf => (hhead r.2 hm).ne (key_inj.mpr hf.symm)
      exact ⟨by simp [hm], fun d => (hq d).trans (handleEvent_queue_other hf d),
        he.trans (handleEvent_events_other hf)⟩

theorem handleEvents_ready (getsockopt : Fd → Except Errno Int) (p : Pass) (events : List Pollfd) :
    ∃ tasks, (handleEvents getsockopt p events).1.ready = p.ready ++ tasks := by
  refine handleEvents_invariant (fun q => ∃ tasks, q.ready = p.ready ++ tasks) ?_ ⟨[], by simp⟩
  rintro q event - ⟨tasks, hq⟩
  obtain ⟨demux, _, _, _, he⟩ | ⟨_, he⟩ := handleEvent_cases getsockopt q event
  · exact ⟨tasks ++ moved event.revents demux, by rw [he, hq, List.append_assoc]⟩
  · exact ⟨tasks, by rw [he, hq]⟩

theorem handleEvents_events_other (getsockopt : Fd → Except Errno Int) (p : Pass) {fd : Fd}
    (hf : ∀ event ∈ events, fd ≠ event.fd) :
    (handleEvents getsockopt p events).1.mux.list.events fd = p.mux.list.events fd := by
  refine handleEvents_invariant (fun q => q.mux.list.events fd = p.mux.list.events fd) ?_ rfl
  intro q event hm hq
  rw [handleEvent_events_other (hf event hm), hq]

theorem changes_of_progress (hs : Sorted Pollfd.key (event :: events))
    (hx : (handleEvents getsockopt p (event :: events)).2 = none) (hp : Progress getsockopt p event)
    (hl : (handleEvents getsockopt p (event :: events)).1.mux = p.mux) :
    (handleEvents getsockopt p (event :: events)).1.ready ≠ [] := by
  have hhead := (List.pairwise_cons.mp hs).1
  rw [handleEvents_cons_of_none (handleEvents_cons_none.mp hx).1] at hl ⊢
  obtain ⟨tasks, hr, hne, -⟩ | ⟨i, hi, hn⟩ := hp
  · obtain ⟨more, hmore⟩ := handleEvents_ready getsockopt (handleEvent getsockopt p event).1 events
    rw [hmore, hr]
    simp [hne]
  · have hother := handleEvents_events_other getsockopt (handleEvent getsockopt p event).1
      (fun e he hf => (hhead e he).ne (key_inj.mpr hf))
    rw [hl] at hother
    rw [← hother, hi] at hn
    cases hn

variable {s s₁ : State} {interval begin : Int} {answers : List PollAnswer} {wait : Wait}

theorem polled_list
    (h : Runs.run step s [.snapshot interval, .poll s.waits.length begin answers] = .ok s₁)
    (hw : s₁.waits[s.waits.length]? = some wait) (hp : wait.phase = .polled) :
    s₁.mux = s.mux ∧ s₁.handles = s.handles ∧ Sorted Pollfd.key wait.list ∧
      ∀ event ∈ wait.list, within (s.mux.list.events event.fd) event.revents = true ∧
        event.revents ≠ 0#16 ∧ s.mux.list.events event.fd ≠ 0#16 := by
  obtain ⟨u, hu, h⟩ := Runs.run_cons_ok.mp h
  cases hu
  obtain ⟨v, hv, h⟩ := Runs.run_cons_ok.mp h
  cases h
  have hnew : (snapshot s interval).waits[s.waits.length]? =
      some { interval := interval, list := copyActive s.mux.list.entries } := by simp [snapshot]
  have hlt := (List.getElem?_eq_some_iff.mp hnew).1
  cases step_spec hv with
  | issue ha _ => cases ha
  | pollThrew hw' _ =>
    rw [List.getElem?_set_self hlt] at hw
    cases hw
    cases hp
  | polled hw' _ ha hr =>
    rw [List.getElem?_set_self hlt] at hw
    cases hw
    rw [hnew] at hw'
    cases hw'
    refine ⟨rfl, rfl, sorted_poll s.mux.list.sorted_copyActive hr, fun event hm => ?_⟩
    obtain ⟨e, he, hf, hin, hz⟩ := mem_poll ha hr hm
    obtain ⟨hmem, hne⟩ := List.mem_filter.mp he
    have hlook : s.mux.list.events event.fd = e.events := by
      rw [hf, Interest.events_eq_mask, s.mux.list.mask_of_mem hmem]
      rfl
    rw [hlook]
    exact ⟨hin, hz, by simpa using hne⟩

/-- Every event that a call of `wait_for` processes makes progress, and a call
that reports events has run a task or changed the interest, exactly when it
comes to no hang-up alone on a descriptor without readers. -/
theorem progress_iff (s : State) (interval begin : Int) (answers : List PollAnswer)
    (getsockopt : Fd → Except Errno Int)
    (h : Runs.run step s [.snapshot interval, .poll s.waits.length begin answers] = .ok s₁)
    (hw : s₁.waits[s.waits.length]? = some wait) (hp : wait.phase = .polled) :
    ((∀ r ∈ rounds getsockopt { mux := s.mux, handles := s.handles } wait.list,
      Progress getsockopt r.1 r.2) ∧
      ∀ s₂ wait₂, step s₁ (.pass s.waits.length getsockopt) = .ok s₂ →
        s₂.waits[s.waits.length]? = some wait₂ → wait₂.phase = .running → 0 < wait₂.list.length →
        wait₂.ready ≠ [] ∨ s₂.mux ≠ s₁.mux) ↔
    ∀ r ∈ rounds getsockopt { mux := s.mux, handles := s.handles } wait.list, ¬Stuck s.mux r.2 := by
  obtain ⟨hmux, hhandles, hsorted, hevents⟩ := polled_list h hw hp
  have hround : ∀ r ∈ rounds getsockopt { mux := s.mux, handles := s.handles } wait.list,
      Progress getsockopt r.1 r.2 ↔ ¬Stuck s.mux r.2 := by
    intro r hr
    obtain ⟨hm, hq, he⟩ := rounds_untouched hsorted hr
    obtain ⟨hin, hz, hne⟩ := hevents r.2 hm
    have hstuck : Stuck r.1.mux r.2 ↔ Stuck s.mux r.2 := by unfold Stuck; rw [hq, he]
    rw [← hstuck]
    exact progress_iff_not_stuck (by rw [he]; exact hin) hz (by rw [he]; exact hne)
  constructor
  · rintro ⟨hall, -⟩ r hr
    exact (hround r hr).mp (hall r hr)
  · intro hall
    refine ⟨fun r hr => (hround r hr).mpr (hall r hr), fun s₂ wait₂ hpass hw₂ hrunning hcount => ?_⟩
    cases step_spec hpass with
    | issue ha _ => cases ha
    | passThrew hw' _ _ =>
      rw [passed, List.getElem?_set_self (List.getElem?_eq_some_iff.mp hw').1] at hw₂
      cases hw₂
      cases hrunning
    | passed hw' _ hx =>
      rw [passed, List.getElem?_set_self (List.getElem?_eq_some_iff.mp hw').1] at hw₂
      cases hw₂
      rw [hw] at hw'
      cases hw'
      obtain ⟨event, events, (hl : wait.list = event :: events)⟩ :=
        List.exists_cons_of_length_pos hcount
      rw [hmux, hhandles, hl] at hx
      rw [hl] at hsorted
      by_cases hsame : (passed s₁ s.waits.length (handleEvents getsockopt
          { mux := s₁.mux, handles := s₁.handles } wait.list).1 wait).mux = s₁.mux
      · left
        have hfirst := (hround (_, event) (by rw [hl]; exact mem_rounds_cons.mpr (.inl rfl))).mpr
          (hall _ (by rw [hl]; exact mem_rounds_cons.mpr (.inl rfl)))
        simp only [passed, hmux, hhandles, hl] at hsame ⊢
        exact changes_of_progress hsorted hx hfirst hsame
      · exact .inr hsame

theorem exact_writer (o : TaskId) (socket : HandleId) (list : Interest)
    (hl : list.entries = [{ fd := 0#32, events := POLLOUT }]) :
    Exact ⟨[{ writeQueue := [o], socket := some socket }], list⟩ := by
  intro fd d
  have hq : (⟨[{ writeQueue := [o], socket := some socket }], list⟩ : Multiplexer).queue fd d ≠ [] ↔
      fd = 0#32 ∧ d = .write := by
    by_cases hf : fd = 0#32
    · subst hf
      cases d <;> simp [Multiplexer.queue, toSize, Demultiplexer.queue]
    · have hn : toSize fd ≠ 0 := fun h => hf (toSize_inj.mp (h.trans rfl))
      simp [Multiplexer.queue, hn, hf]
  rw [hq]
  simp only [Interest.Awaits, hl, List.mem_singleton, exists_eq_left, eq_comm]
  cases d with
  | read => simp [Direction.mask, show test POLLOUT POLLIN = false from rfl]
  | write => simp [Direction.mask, show test POLLOUT POLLOUT = true from rfl]

/-- With only a writer pending, a hang-up is reported again and again and wakes nobody. -/
theorem hangUp_spins :
    ¬ ∀ (config : Config) (tr : List Action) (s s₁ : State) (interval begin : Int)
    (answers : List PollAnswer) (getsockopt : Fd → Except Errno Int) (wait : Wait),
    run config tr = .ok s → Exact s.mux →
    Runs.run step s [.snapshot interval, .poll s.waits.length begin answers] = .ok s₁ →
    s₁.waits[s.waits.length]? = some wait → wait.phase = .polled →
    ∀ r ∈ rounds getsockopt { mux := s.mux, handles := s.handles } wait.list,
      Progress getsockopt r.1 r.2 := by
  intro h
  have hp :=
    h {} [.emplace 0#32, .sendmsg 0 [.failed ⟨EAGAIN, by decide⟩], .connect 0, .start 0] _ _ (-1) 0
    [.ready [POLLHUP]] (fun _ => .ok 0) _ rfl (exact_writer 0 0 _ rfl) rfl rfl rfl _
      (List.mem_singleton.mpr rfl)
  obtain ⟨tasks, hr, hne, -⟩ | ⟨i, hi, hn⟩ := hp
  · exact hne hr.symm
  · exact Bool.noConfusion (hi.symm.trans hn)

theorem progress_hangUp_reader : ∃ s s₁ wait,
    run {} [.emplace 5#32, .set 0 .read, .connect 0, .start 0] = .ok s ∧
    Runs.run step s [.snapshot (-1), .poll 0 0 [.ready [POLLHUP]]] = .ok s₁ ∧
    s₁.waits[0]? = some wait ∧
    ∀ r ∈ rounds (fun _ => .ok 0) { mux := s.mux, handles := s.handles } wait.list,
      Progress (fun _ => .ok 0) r.1 r.2 := by
  refine ⟨_, _, _, rfl, rfl, rfl,
    ((progress_iff _ (-1) 0 [.ready [POLLHUP]] (fun _ => .ok 0) rfl rfl rfl).mpr ?_).1⟩
  intro r hr
  obtain rfl := List.mem_singleton.mp hr
  exact fun hs => List.cons_ne_nil _ _ hs.2.1

end AsyncBerkeley.BusyLoops
