import AsyncBerkeley.PollMultiplexer

namespace AsyncBerkeley.Polls

open Events InterestList SocketHandles PollMultiplexer SortedTable

theorem mem_report {list : List Pollfd} {revents : List Short} {x : Pollfd}
    (h : x ∈ report list revents) :
    ∃ e ∈ list, x.fd = e.fd := by
  induction list generalizing revents with
  | nil => simp [report] at h
  | cons e list ih =>
    cases revents with
    | nil => simp [report] at h
    | cons r revents =>
      obtain rfl | h := List.mem_cons.mp h
      · exact ⟨e, by simp, rfl⟩
      · obtain ⟨e', he', hf⟩ := ih h
        exact ⟨e', by simp [he'], hf⟩

theorem sorted_report {list : List Pollfd} (h : Sorted Pollfd.key list) (revents : List Short) :
    Sorted Pollfd.key (report list revents) := by
  induction list generalizing revents with
  | nil => exact List.Pairwise.nil
  | cons e list ih =>
    cases revents with
    | nil => exact List.Pairwise.nil
    | cons r revents =>
      obtain ⟨hhead, htail⟩ := List.pairwise_cons.mp h
      refine List.pairwise_cons.mpr ⟨fun x hx => ?_, ih htail revents⟩
      obtain ⟨e', he', hf⟩ := mem_report hx
      rw [key_inj.mpr hf]
      exact hhead e' he'

theorem mem_report_within {list : List Pollfd} {revents : List Short} {x : Pollfd}
    (hw : (List.zipWith (fun event r => within event.events r) list revents).all id = true)
    (h : x ∈ report list revents) :
    ∃ e ∈ list, x.fd = e.fd ∧ within e.events x.revents = true := by
  induction list generalizing revents with
  | nil => simp [report] at h
  | cons e list ih =>
    cases revents with
    | nil => simp [report] at h
    | cons r revents =>
      simp only [List.zipWith_cons_cons, List.all_cons, id_eq, Bool.and_eq_true] at hw
      obtain rfl | h := List.mem_cons.mp h
      · exact ⟨e, by simp, rfl, hw.1⟩
      · obtain ⟨e', he', hf⟩ := ih hw.2 h
        exact ⟨e', by simp [he'], hf⟩

theorem pollLoop_ok {list events : List Pollfd} {duration start : Int} {answers : List PollAnswer}
    (h : pollLoop list duration start answers = some (.ok events)) :
    ∃ revents, .ready revents ∈ answers ∧
      events = (report list revents).filter (fun event => event.revents != 0#16) := by
  induction answers generalizing duration start with
  | nil => cases h
  | cons answer answers ih =>
    cases answer with
    | ready revents =>
      cases h
      exact ⟨revents, by simp, rfl⟩
    | failed errno now =>
      simp only [pollLoop] at h
      split at h
      · cases h
      · split at h
        all_goals
          obtain ⟨revents, hm, he⟩ := ih h
          exact ⟨revents, by simp [hm], he⟩

theorem sorted_poll {list events : List Pollfd} {duration start : Int} {answers : List PollAnswer}
    (hs : Sorted Pollfd.key list) (h : poll_ list duration start answers = some (.ok events)) :
    Sorted Pollfd.key events := by
  unfold poll_ at h
  split at h
  · cases h
    exact hs
  · obtain ⟨revents, -, rfl⟩ := pollLoop_ok h
    exact (sorted_report hs revents).sublist List.filter_sublist

theorem mem_poll {list events : List Pollfd} {duration start : Int} {answers : List PollAnswer}
    {event : Pollfd} (ha : ∀ answer ∈ answers, answer.allowed list duration = true)
    (h : poll_ list duration start answers = some (.ok events)) (hm : event ∈ events) :
    ∃ e ∈ list, event.fd = e.fd ∧ within e.events event.revents = true ∧ event.revents ≠ 0#16 := by
  unfold poll_ at h
  split at h
  · next hl =>
    cases h
    rw [List.isEmpty_iff.mp hl] at hm
    cases hm
  · obtain ⟨revents, hready, rfl⟩ := pollLoop_ok h
    have hr := ha _ hready
    simp only [PollAnswer.allowed, Bool.and_eq_true] at hr
    obtain ⟨hmem, hz⟩ := List.mem_filter.mp hm
    obtain ⟨e, he, hf, hw⟩ := mem_report_within hr.1.2 hmem
    exact ⟨e, he, hf, hw, by simpa using hz⟩

theorem report_ne_zero {list : List Pollfd} {revents : List Short}
    (hl : revents.length = list.length) (h : revents.any (fun r => r != 0#16) = true) :
    (report list revents).filter (fun event => event.revents != 0#16) ≠ [] := by
  induction list generalizing revents with
  | nil =>
    rw [List.length_eq_zero_iff.mp hl] at h
    cases h
  | cons e list ih =>
    cases revents with
    | nil => cases h
    | cons r revents =>
      simp only [report, List.zipWith_cons_cons, List.filter_cons]
      split
      · exact List.cons_ne_nil _ _
      · next hr =>
        rw [List.any_cons, Bool.eq_false_iff.mpr hr, Bool.false_or] at h
        exact ih (by simpa using hl) h

theorem poll_ne_nil {list events : List Pollfd} {duration start : Int} {answers : List PollAnswer}
    (hd : duration < 0) (ha : ∀ answer ∈ answers, answer.allowed list duration = true)
    (h : poll_ list duration start answers = some (.ok events)) (he : events = []) : list = [] := by
  unfold poll_ at h
  split at h
  · next hl => exact List.isEmpty_iff.mp hl
  · obtain ⟨revents, hm, rfl⟩ := pollLoop_ok h
    have hr := ha _ hm
    simp only [PollAnswer.allowed, Bool.and_eq_true, beq_iff_eq, Bool.or_eq_true,
      decide_eq_true_eq] at hr
    exact absurd he (report_ne_zero hr.1.1 (hr.2.resolve_left (by omega)))

end AsyncBerkeley.Polls
