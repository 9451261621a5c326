import AsyncBerkeley.TaskQueues
import AsyncBerkeley.ReactorRuns

namespace AsyncBerkeley.QueueRuns

open TaskQueues

section Reactor

variable {κ ω τ F : Type} [DecidableEq κ] [DecidableEq ω] [DecidableEq τ]

abbrev Node (κ ω τ : Type) := τ ⊕ (κ ⊕ ω)

/-- The action of a reactor on intrusive queues. A task is given its completion
function before it is pushed. A task that is popped is called through the
function in its node, and calling one that has none ends the program. -/
def perform (func : τ → F) (heap : Heap (Node κ ω τ) F) :
    Reactor.Action κ ω τ → Option (List (Node κ ω τ × F) × Heap (Node κ ω τ) F)
  | .submit c t =>
    (push (setTail heap (.inl t) (.func (func t))) (.inr (.inl c)) (.inl t)).map fun heap =>
      ([], heap)
  | .take w c => (moveBack heap (.inr (.inr w)) (.inr (.inl c))).map fun heap => ([], heap)
  | .run w => do
    let empty ← isEmpty heap (.inr (.inr w))
    if empty then none
    let (task, heap) ← pop heap (.inr (.inr w))
    match (heap task).tail with
    | .func f => return ([(task, f)], heap)
    | .task _ => none
  | .fail _ => some ([], heap)

def performAll (func : τ → F) : Heap (Node κ ω τ) F → List (Reactor.Action κ ω τ) →
    Option (List (Node κ ω τ × F) × Heap (Node κ ω τ) F)
  | heap, [] => some ([], heap)
  | heap, a :: actions => do
    let (ran, heap) ← perform func heap a
    let (ran', heap) ← performAll func heap actions
    return (ran ++ ran', heap)

def contents (r : Reactor.State κ ω τ) : κ ⊕ ω → List (Node κ ω τ)
  | .inl c => (r.tasks (.waiting c)).map .inl
  | .inr w => (r.tasks (.lost w) ++ r.tasks (.ready w)).map .inl

structure Holds (func : τ → F) (heap : Heap (Node κ ω τ) F) (r : Reactor.State κ ω τ) : Prop where
  queues : Represents Sum.inr heap (contents r)
  functions : ∀ c, ∀ t ∈ r.sent c, (heap (.inl t)).tail = .func (func t)

variable {func : τ → F} {heap : Heap (Node κ ω τ) F} {r r' : Reactor.State κ ω τ}
  {a : Reactor.Action κ ω τ} {ran : List τ}

omit [DecidableEq κ] [DecidableEq ω] [DecidableEq τ] in
theorem ne_head (t : τ) (k : κ ⊕ ω) : (Sum.inl t : Node κ ω τ) ≠ Sum.inr k := Sum.inl_ne_inr

theorem represents_setTail {contents : κ ⊕ ω → List (Node κ ω τ)}
    (h : Represents Sum.inr heap contents) (t : τ) (f : F) :
    Represents Sum.inr (setTail heap (.inl t) (.func f)) contents where
  rings := by
    simp only [next_setTail]
    exact h.rings
  tail := fun k => by
    rw [tail_setTail, if_neg (Ne.symm (ne_head t k))]
    exact h.tail k

theorem perform_submit {c : κ} {t : τ} (hs : Reactor.Sound r) (hh : Holds func heap r)
    (hn : ∀ c', t ∉ r.sent c') :
    ∃ heap', perform func heap (.submit c t) = some ([], heap') ∧ Holds func heap' { r with
      tasks := Function.update r.tasks (.waiting c) (r.tasks (.waiting c) ++ [t])
      sent := Function.update r.sent c (r.sent c ++ [t]) } := by
  have hnew : ∀ p, t ∉ r.tasks p := fun p hp => by
    obtain ⟨k, hk⟩ := (hs.known t).mp ⟨p, hp⟩
    exact hn k hk
  have hc : ∀ k, (Sum.inl t : Node κ ω τ) ∉ contents r k := by
    rintro (k | k) <;> simp [contents, hnew]
  obtain ⟨heap', hp, hr, ht⟩ :=
    push_refines (represents_setTail hh.queues t (func t)) (.inl c) (ne_head t) hc
  refine ⟨heap', by rw [perform, hp, Option.map_some], ⟨?_, fun k x hx => ?_⟩⟩
  · convert hr using 1
    funext k
    obtain k | k := k
    · by_cases hk : k = c
      · subst hk; simp [contents]
      · simp [contents, hk]
    · simp [contents]
  · rw [ht _ (ne_head x), tail_setTail]
    by_cases hxt : x = t
    · rw [if_pos (by rw [hxt]), hxt]
    · rw [if_neg (by simpa using hxt)]
      obtain hx | ⟨-, rfl⟩ := Reactor.mem_snoc.mp hx
      · exact hh.functions k x hx
      · exact absurd rfl hxt

theorem perform_take {w : ω} {c : κ} (hh : Holds func heap r) :
    ∃ heap', perform func heap (.take w c) = some ([], heap') ∧ Holds func heap' { r with
      tasks := Reactor.shift r.tasks (.waiting c) (.ready w) (r.tasks (.waiting c)) [] } := by
  obtain ⟨heap', hp, hr, ht⟩ :=
    moveBack_refines hh.queues (i := .inr w) (j := .inl c) Sum.inr_ne_inl
  refine ⟨heap', by rw [perform, hp, Option.map_some], ⟨?_, fun k x hx => ?_⟩⟩
  · convert hr using 1
    funext k
    obtain k | k := k
    · by_cases hk : k = c
      · subst hk; simp [contents, Reactor.shift]
      · simp [contents, Reactor.shift, hk]
    · by_cases hk : k = w
      · subst hk; simp [contents, Reactor.shift]
      · simp [contents, Reactor.shift, hk]
  · rw [ht _ (ne_head x)]
    exact hh.functions k x hx

theorem perform_run {w : ω} {t : τ} {rest : List τ} (hs : Reactor.Sound r) (hh : Holds func heap r)
    (hw : ¬r.failed w) (hready : r.tasks (.ready w) = t :: rest) :
    ∃ heap', perform func heap (.run w) = some ([(.inl t, func t)], heap') ∧
      Holds func heap' { r with tasks := Reactor.shift r.tasks (.ready w) (.done w) [t] rest } := by
  have hc : contents r (.inr w) = .inl t :: rest.map .inl := by
    simp [contents, hs.lost w hw, hready]
  obtain ⟨heap', hp, hr, ht⟩ := pop_refines hh.queues hc
  obtain ⟨c, hsent⟩ := (hs.known t).mp ⟨.ready w, by rw [hready]; exact List.mem_cons_self⟩
  have hf : (heap' (.inl t)).tail = .func (func t) := by
    rw [ht _ (ne_head t), hh.functions c t hsent]
  refine ⟨heap', ?_, ⟨?_, fun k x hx => ?_⟩⟩
  · simp [perform, isEmpty_eq hh.queues, hc, hp, hf]
  · convert hr using 1
    funext k
    obtain k | k := k
    · simp [contents, Reactor.shift]
    · by_cases hk : k = w
      · subst hk; simp [contents, Reactor.shift, hs.lost k hw]
      · simp [contents, Reactor.shift, hk]
  · rw [ht _ (ne_head x)]
    exact hh.functions k x hx

theorem perform_step (h : Reactor.Step r a ran r') (hs : Reactor.Sound r) (hh : Holds func heap r) :
    ∃ heap', perform func heap a = some (ran.map (fun t => (.inl t, func t)), heap') ∧
      Holds func heap' r' := by
  cases h with
  | submit hn => exact perform_submit hs hh hn
  | take _ => exact perform_take hh
  | run hw hr => exact perform_run hs hh hw hr
  | @fail w hw =>
    refine ⟨heap, rfl, ⟨?_, hh.functions⟩⟩
    convert hh.queues using 1
    funext k
    obtain k | k := k
    · simp [contents, Reactor.shift]
    · by_cases hk : k = w
      · subst hk; simp [contents, Reactor.shift]
      · simp [contents, Reactor.shift, hk]

/-- A reactor runs on intrusive queues: no action fails, and the tasks that
are run are called through their own functions. -/
theorem perform_trace {actions : List (Reactor.Action κ ω τ)} (h : Reactor.Trace r actions ran r')
    (hs : Reactor.Sound r) (hh : Holds func heap r) : ∃ heap',
      performAll func heap actions = some (ran.map (fun t => (.inl t, func t)), heap') ∧
        Holds func heap' r' := by
  induction h generalizing heap with
  | nil => exact ⟨heap, rfl, hh⟩
  | cons hstep _ ih =>
    obtain ⟨heap₁, hp, hh₁⟩ := perform_step hstep hs hh
    obtain ⟨heap₂, hp', hh₂⟩ := ih (Reactor.sound_step hstep hs) hh₁
    refine ⟨heap₂, ?_, hh₂⟩
    simp [performAll, hp, hp']

end Reactor

section Executor

open Events InterestList PollMultiplexer Executor Conservation ReactorRuns

variable {F : Type}

/-- The lists of the executor's state that its queues hold. The ready queue of a
call that has thrown keeps the tasks it had. -/
def queues (config : Config) (tr : List Action) (s : State) :
    (Fd × Direction) ⊕ Nat → List (Node (Fd × Direction) Nat TaskId)
  | .inl (fd, d) => (s.mux.queue fd d).map .inl
  | .inr w => (lostBy config tr w ++ readyOf s w).map .inl

/-- Every run can be carried out on the intrusive queues, from heads that were
just constructed: no pointer operation of it fails, the tasks that are executed
are those of the run, in its order and each by its own completion function, and
in the end the queues hold the lists of the state. -/
theorem executor_runs_on_task_queues (config : Config) (tr : List Action) {s : State}
    (h : run config tr = .ok s) (func : TaskId → F)
    (heap : Heap (Node (Fd × Direction) Nat TaskId) F)
    (hc : ∀ i, heap (.inr i) = ⟨.inr i, .task (.inr i)⟩) :
    ∃ heap', performAll func heap (reactorActions config tr) =
        some ((executedOrder s.history).map (fun o => (.inl o, func o)), heap') ∧
      Represents Sum.inr heap' (queues config tr s) ∧
      ∀ o ∈ queuedOrder s.history, (heap' (.inl o)).tail = .func (func o) := by
  obtain ⟨r, htr, hsh⟩ := run_shows h
  have hstart : Holds func heap (Reactor.State.initial : Reactor) := by
    refine ⟨?_, fun _ _ ht => absurd ht List.not_mem_nil⟩
    convert represents_construct Sum.inr_injective hc using 1
    funext k
    obtain k | k := k <;> rfl
  obtain ⟨heap', hp, hh⟩ := perform_trace htr Reactor.sound_initial hstart
  refine ⟨heap', hp, ?_, fun o ho => ?_⟩
  · convert hh.queues using 1
    funext k
    obtain ⟨fd, d⟩ | w := k
    · rw [queues, contents, hsh.waiting]
    · rw [queues, contents, hsh.lost, hsh.ready]
  · obtain ⟨c, hsent⟩ := (hsh.sent_iff (run_queuedOnce h) o).mpr ho
    exact hh.functions c o hsent

theorem executor_runs_on_task_queues_two :
    ∃ s heap', run {} [.emplace 5#32, .set 0 .read, .set 0 .read, .connect 0,
      .start 0, .connect 1, .start 1, .snapshot (-1), .poll 0 0 [.ready [POLLIN]],
      .pass 0 (fun _ => .ok 0), .execute 0 [.transferred 7]] = .ok s ∧
    performAll (fun o => o + 100) (fun p => ⟨p, .task p⟩)
      (reactorActions {} [.emplace 5#32, .set 0 .read,
      .set 0 .read, .connect 0, .start 0, .connect 1, .start 1, .snapshot (-1),
      .poll 0 0 [.ready [POLLIN]], .pass 0 (fun _ => .ok 0),
      .execute 0 [.transferred 7]]) = some ([(.inl 0, 100)], heap') ∧
    (heap' (.inl 1)).tail = .func 101 := by
  obtain ⟨heap', hp, -, ht⟩ :=
    executor_runs_on_task_queues {} [.emplace 5#32, .set 0 .read, .set 0 .read, .connect 0,
    .start 0, .connect 1, .start 1, .snapshot (-1), .poll 0 0 [.ready [POLLIN]],
    .pass 0 (fun _ => .ok 0),
    .execute 0 [.transferred 7]] rfl (fun o => o + 100) (fun p => ⟨p, .task p⟩) (fun _ => rfl)
  exact ⟨_, heap', rfl, hp, ht 1 (by decide)⟩

end Executor

end AsyncBerkeley.QueueRuns
