import AsyncBerkeley.Evolution

namespace AsyncBerkeley.Pointers

open Events InterestList SocketHandles PollMultiplexer Operations Executor Passes Steps Evolution

variable {s s' : State} {a : Action}

theorem length_demux_step (h : Step s a s') : s.mux.demux.length ≤ s'.mux.demux.length := by
  cases h with
  | issue _ h => exact Nat.le_of_eq (by rw [h.mux])
  | inline _ _ _ hc => exact Nat.le_of_eq (by rw [hc.mux])
  | execute _ _ _ hc => exact Nat.le_of_eq (by rw [hc.mux]; rfl)
  | register _ _ _ _ _ | abandon _ _ => exact length_le_makeRoom _ _
  | queue _ _ _ _ _ => simp
  | passed _ _ _ | passThrew _ _ _ => simp [passed, handleEvents_frame.length]
  | idle _ _ _ | snapshot | polled _ _ _ _ | pollThrew _ _ | finish _ _ _ => exact Nat.le_refl _

theorem length_demux_run {tr : List Action} (h : Runs.run step s tr = .ok s') :
    s.mux.demux.length ≤ s'.mux.demux.length :=
  Runs.run_invariant (fun t => s.mux.demux.length ≤ t.mux.demux.length)
    (fun _ _ _ hle ht => Nat.le_trans hle (length_demux_step (step_spec ht))) h (Nat.le_refl _)

theorem start_of_demux {o : TaskId} {op : Operation} {i : Nat} (hop : s.ops[o]? = some op)
    (hd : op.demux = some i) (hi : i < s.mux.demux.length) (ht : op.trigger ≠ .EAGER)
    (he : hard (errorOf s.handles op.socket) = false) : step s (.start o) ≠ .error .nullDemux := by
  intro h
  simp only [step, start, hop] at h
  split at h
  · cases h
  · split at h
    · next hc =>
      rw [he, Bool.or_false, beq_iff_eq] at hc
      exact ht hc
    · simp [hd, hi] at h

/-- When `start` comes to queue an operation, the pointer that `connect` stored
is that of the socket's descriptor exactly when no hard error was recorded at
the time of `connect`. Otherwise `start` pushes through a null pointer. -/
theorem start_pointer_iff (config : Config) (tr tr' : List Action) {s₁ s₂ : State} {o : TaskId}
    {op : Operation} (h₁ : run config tr = .ok s₁) (h₂ : step s₁ (.connect o) = .ok s₂)
    (h : Runs.run step s₂ tr' = .ok s) (hop : s.ops[o]? = some op) (hc : op.status = .connected)
    (ht : op.trigger ≠ .EAGER) (he : hard (errorOf s.handles op.socket) = false) :
    (op.demux = some (toSize (descriptor s₁.handles op.socket)) ∧
      step s (.start o) ≠ .error .nullDemux) ↔ hard (errorOf s₁.handles op.socket) = false := by
  have hs := run_sane h₁
  cases step_spec h₂ with
  | issue ha _ => cases ha
  | @register o op₁ d hop₁ hst he₁ ht₁ hroom =>
    have hlt := (List.getElem?_eq_some_iff.mp hop₁).1
    have hl := later_of_run h (List.getElem?_set_self hlt) hop
    have hd : op.demux = some (toSize (descriptor s₁.handles op₁.socket)) := (hl.demux (by simp)).2
    rw [hl.socket]
    have hlen := Nat.lt_of_lt_of_le hroom (length_demux_run h)
    exact ⟨fun _ => he₁, fun _ => ⟨hd, start_of_demux hop hd hlen ht he⟩⟩
  | @abandon o op₁ hop₁ hst =>
    have hlt := (List.getElem?_eq_some_iff.mp hop₁).1
    have hl := later_of_run h (List.getElem?_set_self hlt) hop
    have hh := hl.holds (by simp [Operation.holds, hc])
    cases hh
  | @idle o op₁ hop₁ hst hc₁ =>
    have hlt := (List.getElem?_eq_some_iff.mp hop₁).1
    have hl := later_of_run h (List.getElem?_set_self hlt) hop
    have hd : op.demux = none := (hl.demux (by simp)).2.trans (hs.created o op₁ hop₁ hst)
    have hh : hard (errorOf s₁.handles op₁.socket) = true :=
      hc₁.resolve_right (fun he => ht (hl.trigger.trans he))
    rw [hl.socket]
    simp [hd, hh]

/-- A hard error that a later attempt softens leaves a null pointer behind. -/
theorem null_pointer_pushed :
    ¬ ∀ (config : Config) (tr tr' : List Action) (s₁ s₂ s : State) (o : TaskId)
    (op : Operation), run config tr = .ok s₁ → step s₁ (.connect o) = .ok s₂ →
    Runs.run step s₂ tr' = .ok s → s.ops[o]? = some op → op.status = .connected →
    op.trigger ≠ .EAGER → hard (errorOf s.handles op.socket) = false →
    op.demux = some (toSize (descriptor s₁.handles op.socket)) ∧
      step s (.start o) ≠ .error .nullDemux := by
  intro h
  have hn := h {} [.emplace 5#32, .recvmsg 0 [.failed ⟨EAGAIN, by decide⟩],
    .recvmsg 0 [.failed ⟨ECONNRESET, by decide⟩]]
    [.sendmsg 0 [.failed ⟨EAGAIN, by decide⟩]] _ _ _ 0 _
    rfl rfl rfl rfl rfl (by decide) rfl
  exact hn.2 rfl

theorem start_pointer_after_error : ∃ s₁ s₂ s op,
    run {} [.emplace 5#32, .recvmsg 0 [.failed ⟨EAGAIN, by decide⟩]] = .ok s₁ ∧
    step s₁ (.connect 0) = .ok s₂ ∧ Runs.run step s₂ [.sendmsg 0 [.failed ⟨ECONNRESET, by decide⟩],
      .sendmsg 0 [.failed ⟨EAGAIN, by decide⟩]] = .ok s ∧ s.ops[0]? = some op ∧
    op.demux = some 5 ∧ step s (.start 0) ≠ .error .nullDemux :=
  ⟨_, _, _, _, rfl, rfl, rfl, rfl, (start_pointer_iff {}
    [.emplace 5#32, .recvmsg 0 [.failed ⟨EAGAIN, by decide⟩]]
    [.sendmsg 0 [.failed ⟨ECONNRESET, by decide⟩], .sendmsg 0 [.failed ⟨EAGAIN, by decide⟩]]
    (o := 0) rfl rfl rfl rfl rfl (by decide) rfl).mpr rfl⟩

end AsyncBerkeley.Pointers
