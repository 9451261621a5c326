import AsyncBerkeley.CircularLists

namespace AsyncBerkeley.TaskQueues

open CircularLists

variable {P F ι : Type}

/-- The variant `task::tail`: the last task of a queue in its head, and the
completion function in a task. -/
inductive Tail (P F : Type) where
  | task (p : P)
  | func (f : F)
  deriving DecidableEq, Repr

structure Task (P F : Type) where
  next : P
  tail : Tail P F
  deriving DecidableEq, Repr

abbrev Heap (P F : Type) := P → Task P F

/-- `std::get<0>(p->tail)`, which throws when the variant holds a function. -/
def getTail (heap : Heap P F) (p : P) : Option P :=
  match (heap p).tail with
  | .task q => some q
  | .func _ => none

variable [DecidableEq P]

def setNext (heap : Heap P F) (p q : P) : Heap P F :=
  Function.update heap p { heap p with next := q }

def setTail (heap : Heap P F) (p : P) (tail : Tail P F) : Heap P F :=
  Function.update heap p { heap p with tail := tail }

def construct (heap : Heap P F) (head : P) : Heap P F :=
  Function.update heap head ⟨head, .task head⟩

def isEmpty (heap : Heap P F) (head : P) : Option Bool :=
  (getTail heap head).map (fun last => decide (last = head))

/-- The inner assignment of the second statement comes first, and its result is read back. -/
def push (heap : Heap P F) (head task : P) : Option (Heap P F) :=
  let heap := setNext heap task head
  (getTail heap head).map fun last =>
    let heap := setNext heap last task
    setTail heap head (.task (heap last).next)

def moveBack (heap : Heap P F) (head other : P) : Option (Heap P F) := do
  let empty ← isEmpty heap other
  if empty then return heap
  let last ← getTail heap head
  let otherLast ← getTail heap other
  let heap := setNext heap otherLast (heap last).next
  let last ← getTail heap head
  let heap := setNext heap last (heap other).next
  let heap := setTail heap head (heap other).tail
  let heap := setTail heap other (.task other)
  return setNext heap other other

/-- The new first task is read before `std::exchange` is called. -/
def pop (heap : Heap P F) (head : P) : Option (P × Heap P F) :=
  (getTail heap head).map fun last =>
    let heap := if last = (heap head).next then setTail heap head (.task head) else heap
    ((heap head).next, setNext heap head (heap (heap head).next).next)

inductive Op (ι P : Type) where
  | push (i : ι) (task : P)
  | pop (i : ι)
  | moveBack (i other : ι)

def step (head : ι → P) (heap : Heap P F) : Op ι P → Option (Option P × Heap P F)
  | .push i task => (push heap (head i) task).map fun heap => (none, heap)
  | .pop i => (pop heap (head i)).map fun r => (some r.1, r.2)
  | .moveBack i other => (moveBack heap (head i) (head other)).map fun heap => (none, heap)

def run (head : ι → P) : Heap P F → List (Op ι P) → Option (List P × Heap P F)
  | heap, [] => some ([], heap)
  | heap, op :: ops => do
    let (task, heap) ← step head heap op
    let (tasks, heap) ← run head heap ops
    return (task.toList ++ tasks, heap)

/-- The specification: first in, first out, on a family of lists. A task in no
queue is pushed, a queue that is not empty is popped, and the tasks of one
queue are moved to another. -/
inductive Fifo [DecidableEq ι] (head : ι → P) :
    (ι → List P) → Op ι P → Option P → (ι → List P) → Prop where
  | push {contents i task} (hh : ∀ k, task ≠ head k) (hc : ∀ k, task ∉ contents k) :
      Fifo head contents (.push i task) none (Function.update contents i (contents i ++ [task]))
  | pop {contents i task rest} (hc : contents i = task :: rest) :
      Fifo head contents (.pop i) (some task) (Function.update contents i rest)
  | moveBack {contents i j} (hij : i ≠ j) : Fifo head contents (.moveBack i j) none
      (Function.update (Function.update contents i (contents i ++ contents j)) j [])

inductive Fifos [DecidableEq ι] (head : ι → P) :
    (ι → List P) → List (Op ι P) → List P → (ι → List P) → Prop where
  | nil {contents} : Fifos head contents [] [] contents
  | cons {contents op task contents' ops tasks contents''}
      (h : Fifo head contents op task contents') (hs : Fifos head contents' ops tasks contents'') :
      Fifos head contents (op :: ops) (task.toList ++ tasks) contents''

/-- The queues hold the tasks of the lists: each is a ring through its head, and
the tail of a head is the last task, or the head when there is none. -/
structure Represents (head : ι → P) (heap : Heap P F) (contents : ι → List P) : Prop where
  rings : Rings (fun p => (heap p).next) head contents
  tail : ∀ i, (heap (head i)).tail = .task (last head contents i)

variable {head : ι → P} {heap : Heap P F} {contents contents' : ι → List P} {i j : ι} {p q x : P}

theorem next_setNext :
    (fun x => (setNext heap p q x).next) = Function.update (fun x => (heap x).next) p q := by
  funext x
  by_cases hx : x = p
  · subst hx; simp [setNext]
  · simp [setNext, hx]

theorem tail_setNext : (setNext heap p q x).tail = (heap x).tail := by
  by_cases hx : x = p
  · subst hx; simp [setNext]
  · simp [setNext, hx]

theorem next_setTail {tail : Tail P F} : (setTail heap p tail x).next = (heap x).next := by
  by_cases hx : x = p
  · subst hx; simp [setTail]
  · simp [setTail, hx]

theorem tail_setTail {tail : Tail P F} :
    (setTail heap p tail x).tail = if x = p then tail else (heap x).tail := by
  by_cases hx : x = p
  · subst hx; simp [setTail]
  · simp [setTail, hx]

theorem getTail_setNext : getTail (setNext heap p q) x = getTail heap x := by
  rw [getTail, tail_setNext, getTail]

omit [DecidableEq P] in
theorem Represents.getTail (h : Represents head heap contents) (i : ι) :
    getTail heap (head i) = some (last head contents i) := by
  rw [TaskQueues.getTail, h.tail i]

omit [DecidableEq P] in
theorem represents_construct (hh : Function.Injective head)
    (hc : ∀ i, heap (head i) = ⟨head i, .task (head i)⟩) :
    Represents head heap (fun _ => []) where
  rings := .empty hh fun i => by rw [hc]
  tail := fun i => by rw [hc]; rfl

theorem isEmpty_eq (h : Represents head heap contents) (i : ι) :
    isEmpty heap (head i) = some (contents i).isEmpty := by
  rw [isEmpty, h.getTail i, Option.map_some, Option.some_inj, Bool.eq_iff_iff, decide_eq_true_iff,
    List.isEmpty_iff]
  exact h.rings.last_eq_head_iff i

theorem push_spec {last : P} (hl : getTail heap p = some last) (x : P) :
    ∃ heap', push heap p x = some heap' ∧
    (fun y => (heap' y).next) = Function.update
      (Function.update (fun y => (heap y).next) x p) last x ∧
    ∀ y, (heap' y).tail = if y = p then .task x else (heap y).tail := by
  have hn : (setNext (setNext heap x p) last x last).next = x := by
    rw [setNext, Function.update_self]
  refine ⟨setTail (setNext (setNext heap x p) last x) p (.task x), ?_, ?_, fun y => ?_⟩
  · simp only [push, getTail_setNext, hl, Option.map_some, hn]
  · simp only [next_setTail, next_setNext]
  · simp only [tail_setTail, tail_setNext]

theorem pop_spec {last : P} (hl : getTail heap p = some last) :
    ∃ heap', pop heap p = some ((heap p).next, heap') ∧
    (fun y => (heap' y).next) = Function.update (fun y => (heap y).next) p
      (heap (heap p).next).next ∧
    ∀ y, (heap' y).tail = if y = p ∧ last = (heap p).next then .task p else (heap y).tail := by
  by_cases he : last = (heap p).next
  · refine ⟨setNext (setTail heap p (.task p)) p (heap (heap p).next).next, ?_, ?_, fun y => ?_⟩
    · simp only [pop, hl, Option.map_some, he, ↓reduceIte, next_setTail]
    · simp only [next_setNext, next_setTail]
    · simp only [tail_setNext, tail_setTail, he, and_true]
  · refine ⟨setNext heap p (heap (heap p).next).next, ?_, ?_, fun y => ?_⟩
    · simp only [pop, hl, Option.map_some, he, ↓reduceIte]
    · simp only [next_setNext]
    · simp only [tail_setNext, he, and_false, ↓reduceIte]

theorem moveBack_spec {last otherLast : P} (hl : getTail heap p = some last)
    (ho : getTail heap q = some otherLast) (hne : otherLast ≠ q) :
    ∃ heap', moveBack heap p q = some heap' ∧
    (fun y => (heap' y).next) = Function.update
      (Function.update (Function.update (fun y => (heap y).next)
      otherLast (heap last).next) last (heap q).next) q q ∧
    ∀ y, (heap' y).tail = if y = q then .task q else if y = p then (heap q).tail
      else (heap y).tail := by
  have hn : (setNext heap otherLast (heap last).next q).next = (heap q).next := by
    rw [setNext, Function.update_of_ne (Ne.symm hne)]
  refine ⟨setNext
    (setTail (setTail (setNext (setNext heap otherLast (heap last).next) last (heap q).next) p
    (heap q).tail) q (.task q)) q q, ?_, ?_, fun y => ?_⟩
  · simp only [moveBack, isEmpty, ho, Option.map_some, Option.bind_eq_bind, Option.bind_some,
      hne, decide_false, Bool.false_eq_true, ↓reduceIte, hl, getTail_setNext, hn, tail_setNext]
    rfl
  · simp only [next_setNext, next_setTail]
  · simp only [tail_setNext, tail_setTail]

variable [DecidableEq ι]

theorem push_refines (h : Represents head heap contents) (i : ι) (hh : ∀ k, x ≠ head k)
    (hc : ∀ k, x ∉ contents k) :
    ∃ heap', push heap (head i) x = some heap' ∧
      Represents head heap' (Function.update contents i (contents i ++ [x])) ∧
      ∀ p, (∀ k, p ≠ head k) → (heap' p).tail = (heap p).tail := by
  obtain ⟨heap', hp, hn, ht⟩ := push_spec (h.getTail i) x
  refine ⟨heap', hp, ⟨?_, fun k => ?_⟩, fun p hp => ?_⟩
  · rw [hn]
    exact h.rings.snoc i fun k => List.not_mem_cons_of_ne_of_not_mem (hh k) (hc k)
  · rw [ht]
    by_cases hk : k = i
    · subst hk
      rw [if_pos rfl, last_update_self, List.getLastD_concat]
    · rw [if_neg (h.rings.head_injective.ne hk), last_update_of_ne hk]
      exact h.tail k
  · rw [ht, if_neg (hp i)]

theorem pop_refines (h : Represents head heap contents) {rest : List P}
    (hc : contents i = x :: rest) :
    ∃ heap', pop heap (head i) = some (x, heap') ∧
      Represents head heap' (Function.update contents i rest) ∧
      ∀ p, (∀ k, p ≠ head k) → (heap' p).tail = (heap p).tail := by
  obtain ⟨heap', hp, hn, ht⟩ := pop_spec (h.getTail i)
  have hs := h.rings.closed i
  have hd := h.rings.nodup i
  rw [hc] at hs hd
  have hx : (heap (head i)).next = x := hs.1
  have hl : last head contents i = rest.getLastD x := by rw [last, hc, List.getLastD_cons]
  rw [hx] at hp hn
  rw [hx, hl] at ht
  refine ⟨heap', hp, ⟨?_, fun k => ?_⟩, fun p hp => ?_⟩
  · rw [hn]
    exact h.rings.unlink hc
  · rw [ht]
    by_cases hk : k = i
    · subst hk
      rw [last_update_self, h.tail k, hl]
      have hlast := getLastD_eq_iff (List.nodup_cons.mp hd).2
      cases rest with
      | nil => rw [if_pos ⟨rfl, List.getLastD_nil⟩, List.getLastD_nil]
      | cons y rest =>
        rw [if_neg fun he => absurd (hlast.mp he.2) (List.cons_ne_nil y rest), List.getLastD_cons,
          List.getLastD_cons]
    · rw [if_neg fun he => h.rings.head_injective.ne hk he.1, last_update_of_ne hk]
      exact h.tail k
  · rw [ht, if_neg fun he => hp i he.1]

omit [DecidableEq P] in
theorem update_moved_nil (hc : contents j = []) :
    Function.update (Function.update contents i (contents i ++ [])) j [] = contents := by
  rw [List.append_nil, Function.update_eq_self, ← hc, Function.update_eq_self]

theorem moveBack_refines (h : Represents head heap contents) (hij : i ≠ j) :
    ∃ heap', moveBack heap (head i) (head j) = some heap' ∧
      Represents head heap'
        (Function.update (Function.update contents i (contents i ++ contents j)) j []) ∧
      ∀ p, (∀ k, p ≠ head k) → (heap' p).tail = (heap p).tail := by
  cases hc : contents j with
  | nil =>
    refine ⟨heap, ?_, ?_, fun _ _ => rfl⟩
    · simp only [moveBack, isEmpty_eq h j, hc, List.isEmpty_nil, Option.bind_eq_bind,
        Option.bind_some, ↓reduceIte]
      rfl
    · rw [update_moved_nil hc]
      exact h
  | cons x l =>
    have hs := h.rings.closed j
    rw [hc] at hs
    have hx : (heap (head j)).next = x := hs.1
    have hnext : (heap (last head contents i)).next = head i := (h.rings.closed i).next_last
    have hne : last head contents j ≠ head j := by
      rw [ne_eq, h.rings.last_eq_head_iff, hc]
      exact List.cons_ne_nil x l
    obtain ⟨heap', hm, hn, ht⟩ := moveBack_spec (h.getTail i) (h.getTail j) hne
    rw [hx, hnext] at hn
    rw [← hc]
    refine ⟨heap', hm, ⟨?_, fun k => ?_⟩, fun p hp => ?_⟩
    · rw [hn]
      exact h.rings.splice hij hc
    · rw [ht]
      by_cases hkj : k = j
      · subst hkj
        rw [if_pos rfl, last_update_self, List.getLastD_nil]
      rw [if_neg (h.rings.head_injective.ne hkj), last_update_of_ne hkj]
      by_cases hki : k = i
      · subst hki
        rw [if_pos rfl, last_update_self, h.tail j, last, hc, List.getLastD_cons,
          getLastD_append_cons]
      · rw [if_neg (h.rings.head_injective.ne hki), last_update_of_ne hki]
        exact h.tail k
    · rw [ht, if_neg (hp j), if_neg (hp i)]

/-- Each operation on the queues is one on the lists they hold. -/
theorem step_refines {op : Op ι P} {task : Option P} (h : Represents head heap contents)
    (hs : Fifo head contents op task contents') : ∃ heap', step head heap op = some (task, heap') ∧
      Represents head heap' contents' ∧ ∀ p, (∀ k, p ≠ head k) →
        (heap' p).tail = (heap p).tail := by
  cases hs with
  | push hh hc =>
    obtain ⟨heap', he, hr⟩ := push_refines h _ hh hc
    exact ⟨heap', by rw [step, he, Option.map_some], hr⟩
  | pop hc =>
    obtain ⟨heap', he, hr⟩ := pop_refines h hc
    exact ⟨heap', by rw [step, he, Option.map_some], hr⟩
  | moveBack hij =>
    obtain ⟨heap', he, hr⟩ := moveBack_refines h hij
    exact ⟨heap', by rw [step, he, Option.map_some], hr⟩

theorem fifos_refines {ops : List (Op ι P)} {tasks : List P} (h : Represents head heap contents)
    (hs : Fifos head contents ops tasks contents') :
    ∃ heap', run head heap ops = some (tasks, heap') ∧
      Represents head heap' contents' ∧ ∀ p, (∀ i, p ≠ head i) →
        (heap' p).tail = (heap p).tail := by
  induction hs generalizing heap with
  | nil => exact ⟨heap, rfl, h, fun _ _ => rfl⟩
  | cons hop _ ih =>
    obtain ⟨heap₁, hstep, hr, ht⟩ := step_refines h hop
    obtain ⟨heap₂, hrun, hr', ht'⟩ := ih hr
    refine ⟨heap₂, ?_, hr', fun p hp => (ht' p hp).trans (ht p hp)⟩
    rw [run, hstep]
    simp only [Option.bind_eq_bind, Option.bind_some, hrun]
    rfl

/-- Every sequence of operations on the queues acts as it does on the lists:
the queues hold what the lists hold, the tasks that are popped are the same,
and no completion function of a task is changed. -/
theorem run_refines {ops : List (Op ι P)} {tasks : List P} (h : Represents head heap contents)
    (hs : Fifos head contents ops tasks contents') :
    ∃ heap', run head heap ops = some (tasks, heap') ∧
      Represents head heap' contents' ∧ (∀ i, isEmpty heap' (head i) = some (contents' i).isEmpty) ∧
      ∀ p, (∀ i, p ≠ head i) → (heap' p).tail = (heap p).tail := by
  obtain ⟨heap', hrun, hr, ht⟩ := fifos_refines h hs
  exact ⟨heap', hrun, hr, isEmpty_eq hr, ht⟩

theorem run_refines_moved : ∃ heap' : Heap Nat Nat,
    run (fun b : Bool => b.toNat) (construct (construct (fun p => ⟨p, .func p⟩) 0) 1)
      [.push false 10, .push true 20, .push false 11, .moveBack true false,
        .pop true, .push false 20] = some ([20], heap') ∧
    Represents (fun b : Bool => b.toNat) heap' (fun b => if b then [10, 11] else [20]) ∧
    (heap' 11).tail = .func 11 := by
  have h : Represents (fun b : Bool => b.toNat)
      (construct (construct (fun p => ⟨p, .func p⟩) 0) 1 : Heap Nat Nat) (fun _ => []) :=
    represents_construct (fun b b' => by cases b <;> cases b' <;> decide) (by decide)
  have hs : ∃ tasks contents, Fifos (fun b : Bool => b.toNat) (fun _ => [])
      [.push false 10, .push true 20, .push false 11, .moveBack true false, .pop true,
      .push false 20] tasks contents ∧
      tasks = [20] ∧ contents = fun b => if b then [10, 11] else [20] := by
    refine ⟨_, _, .cons (.push (by decide) (by decide)) (.cons (.push (by decide) (by decide))
      (.cons (.push (by decide) (by decide)) (.cons (.moveBack (by decide)) (.cons (.pop rfl)
        (.cons (.push (by decide) (by decide)) .nil))))), rfl, ?_⟩
    funext b
    cases b <;> rfl
  obtain ⟨tasks, contents, hs, rfl, rfl⟩ := hs
  obtain ⟨heap', hrun, hr, -, ht⟩ := run_refines h hs
  exact ⟨heap', hrun, hr, ht 11 (by decide)⟩

end AsyncBerkeley.TaskQueues
