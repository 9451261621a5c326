import AsyncBerkeley.Runs
import AsyncBerkeley.ListUpdates
import AsyncBerkeley.ObjectLifetimes

namespace AsyncBerkeley.SmallFunctors

open ObjectLifetimes

/-- `small_functor_impl`. A type stands for the pointer to its vtable. -/
structure Functor (T V : Type) where
  storage : Cell T V := none
  vptr : Option T := none
  deriving DecidableEq, Repr

/-- What is known of the types of callables: whether the vtable of a type has a
copy function, and what moving from a callable leaves of it. -/
structure Callables (T V : Type) where
  copyable : T → Bool
  moved : T → V → V

variable {T V : Type} [DecidableEq T] (callables : Callables T V)

def ofCallable (type : T) (value : V) (throws : Bool) (ledger : Ledger) :
    Except Misuse (Option (Functor T V × Ledger)) := do
  let (storage, ledger) ← construct type value ledger none
  return if throws then none else some (⟨storage, some type⟩, ledger)

/-- The copy constructor. With assertions disabled, the copy of a callable
that cannot be copied is empty. -/
def copyConstruct (other : Functor T V) (throws : Bool) (ledger : Ledger) :
    Except Misuse (Option (Functor T V × Ledger)) :=
  match other.vptr with
  | none => .ok (some ({}, ledger))
  | some type =>
    if callables.copyable type then
      (copy type other.storage none throws ledger).map fun copied =>
        copied.map fun (storage, ledger) => (⟨storage, some type⟩, ledger)
    else .ok (some ({}, ledger))

def transfer (vptr : Option T) (src dst : Cell T V) (ledger : Ledger) :
    Except Misuse (Cell T V × Cell T V × Ledger) :=
  match vptr with
  | none => .ok (src, dst, ledger)
  | some type => relocate callables.moved type src dst ledger

def swap (lhs rhs : Functor T V) (ledger : Ledger) :
    Except Misuse (Functor T V × Functor T V × Ledger) := do
  let (lhsStorage, tempStorage, ledger) ← transfer callables lhs.vptr lhs.storage none ledger
  let (rhsStorage, lhsStorage, ledger) ← transfer callables rhs.vptr rhs.storage lhsStorage ledger
  let (_, rhsStorage, ledger) ← transfer callables lhs.vptr tempStorage rhsStorage ledger
  return (⟨lhsStorage, rhs.vptr⟩, ⟨rhsStorage, lhs.vptr⟩, ledger)

def destruct (functor : Functor T V) (ledger : Ledger) : Except Misuse Ledger :=
  match functor.vptr with
  | none => .ok ledger
  | some type => (destroy type functor.storage ledger).map Prod.snd

/-- The copy assignment from another functor. An exception leaves before `swap`. -/
def copyAssign (functor other : Functor T V) (throws : Bool) (ledger : Ledger) :
    Except Misuse (Option (Functor T V × Ledger)) := do
  match ← copyConstruct callables other throws ledger with
  | none => return none
  | some (tmp, ledger) =>
    let (functor, tmp, ledger) ← swap callables functor tmp ledger
    let ledger ← destruct tmp ledger
    return some (functor, ledger)

def invoke (functor : Functor T V) (value : V) : Except Misuse (Functor T V) :=
  match functor.vptr with
  | none => .error .notLive
  | some type => (access type functor.storage).map fun object =>
      { functor with storage := some { object with value := value } }

/-- The functors of a program, in the order of their construction, and none in
the place of one that was destroyed. -/
structure State (T V : Type) where
  functors : List (Option (Functor T V)) := []
  ledger : Ledger := {}

def State.functor (s : State T V) (i : Nat) : Option (Functor T V) := s.functors[i]?.join

inductive Action (T V : Type) where
  | construct
  | ofCallable (type : T) (value : V) (throws : Bool)
  | copyConstruct (other : Nat) (throws : Bool)
  | moveConstruct (other : Nat)
  | copyAssign (i other : Nat) (throws : Bool)
  | moveAssign (i other : Nat)
  | swap (lhs rhs : Nat)
  | destruct (i : Nat)
  | invoke (i : Nat) (value : V)

inductive Fault where
  | disabled
  | misuse (misuse : Misuse)
  deriving DecidableEq

def State.emplace (s : State T V) : Option (Functor T V × Ledger) → State T V
  | none => s
  | some (functor, ledger) => ⟨s.functors ++ [some functor], ledger⟩

def lift {α : Type} (result : Except Misuse α) : Except Fault α := result.mapError .misuse

def exchange (s : State T V) (i j : Nat) : Except Fault (State T V) :=
  match s.functor i, s.functor j with
  | some lhs, some rhs =>
    if i = j then .ok s
    else (lift (swap callables lhs rhs s.ledger)).map fun (lhs, rhs, ledger) =>
      ⟨(s.functors.set i (some lhs)).set j (some rhs), ledger⟩
  | _, _ => .error .disabled

def step (s : State T V) : Action T V → Except Fault (State T V)
  | .construct => .ok { s with functors := s.functors ++ [some {}] }
  | .ofCallable type value throws => (lift (ofCallable type value throws s.ledger)).map s.emplace
  | .copyConstruct j throws =>
    match s.functor j with
    | some other => (lift (copyConstruct callables other throws s.ledger)).map s.emplace
    | none => .error .disabled
  | .moveConstruct j =>
    match s.functor j with
    | some other => (lift (swap callables {} other s.ledger)).map fun (functor, other, ledger) =>
        ⟨s.functors.set j (some other) ++ [some functor], ledger⟩
    | none => .error .disabled
  | .copyAssign i j throws =>
    match s.functor i, s.functor j with
    | some functor, some other =>
      if i = j then .ok s
      else (lift (copyAssign callables functor other throws s.ledger)).map fun
        | none => s
        | some (functor, ledger) => ⟨s.functors.set i (some functor), ledger⟩
    | _, _ => .error .disabled
  | .moveAssign i j => exchange callables s i j
  | .swap i j => exchange callables s i j
  | .destruct i =>
    match s.functor i with
    | some functor =>
      (lift (destruct functor s.ledger)).map fun ledger => ⟨s.functors.set i none, ledger⟩
    | none => .error .disabled
  | .invoke i value =>
    match s.functor i with
    | some functor =>
      if functor.vptr.isSome then
        (lift (invoke functor value)).map fun functor =>
          { s with functors := s.functors.set i (some functor) }
      else .error .disabled
    | none => .error .disabled

abbrev Contents (T V : Type) := List (Option (Option (T × V)))

def copied (callable : Option (T × V)) : Option (T × V) :=
  callable.filter fun c => callables.copyable c.1

/-- The specification: functors are optional values, a move or a swap exchanges
them, and a copy that throws has no effect. -/
def spec (contents : Contents T V) : Action T V → Except Fault (Contents T V)
  | .construct => .ok (contents ++ [some none])
  | .ofCallable type value throws =>
    .ok (if throws then contents else contents ++ [some (some (type, value))])
  | .copyConstruct j throws =>
    match contents[j]?.join with
    | some other =>
      .ok (if throws && (copied callables other).isSome then contents
        else contents ++ [some (copied callables other)])
    | none => .error .disabled
  | .moveConstruct j =>
    match contents[j]?.join with
    | some other => .ok (contents.set j (some none) ++ [some other])
    | none => .error .disabled
  | .copyAssign i j throws =>
    match contents[i]?.join, contents[j]?.join with
    | some _, some other =>
      .ok (if i = j ∨ (throws && (copied callables other).isSome) = true then contents
        else contents.set i (some (copied callables other)))
    | _, _ => .error .disabled
  | .moveAssign i j | .swap i j =>
    match contents[i]?.join, contents[j]?.join with
    | some callable, some other => .ok ((contents.set i (some other)).set j (some callable))
    | _, _ => .error .disabled
  | .destruct i =>
    match contents[i]?.join with
    | some _ => .ok (contents.set i none)
    | none => .error .disabled
  | .invoke i value =>
    match contents[i]?.join with
    | some (some (type, _)) => .ok (contents.set i (some (some (type, value))))
    | _ => .error .disabled

/-- The storage holds a live object of the tagged type exactly when there is a tag. -/
def Functor.Tagged (functor : Functor T V) : Prop :=
  ObjectLifetimes.Tagged functor.vptr functor.storage

def Functor.callable (functor : Functor T V) : Option (T × V) := content functor.storage

def State.contents (s : State T V) : Contents T V := s.functors.map (Option.map Functor.callable)

def held (functors : List (Option (Functor T V))) (id : Nat) : Nat :=
  (functors.map fun functor => functor.elim 0 fun functor => holds functor.storage id).sum

/-- All functors are tagged, and every object is in one of them or was destroyed. -/
structure Sound (s : State T V) : Prop where
  tagged : ∀ functor, some functor ∈ s.functors → functor.Tagged
  balanced : Balanced s.ledger (held s.functors)

variable {functor other lhs rhs : Functor T V} {ledger : Ledger} {s : State T V} {i j : Nat}

theorem transfer_spec {vptr : Option T} {src : Cell T V} (h : ObjectLifetimes.Tagged vptr src)
    (ledger : Ledger) :
    ∃ dst ledger', transfer callables vptr src none ledger = .ok (none, dst, ledger') ∧
      ObjectLifetimes.Tagged vptr dst ∧ content dst = content src ∧
      Conserves ledger ledger' (holds src) (holds dst) := by
  cases vptr with
  | none =>
    obtain rfl := tagged_none h
    exact ⟨none, ledger, rfl, rfl, rfl, .refl ledger _⟩
  | some type => exact relocate_spec callables.moved h ledger

theorem swap_spec (hl : lhs.Tagged) (hr : rhs.Tagged) (ledger : Ledger) : ∃ lhs' rhs' ledger',
    swap callables lhs rhs ledger = .ok (lhs', rhs', ledger') ∧ lhs'.Tagged ∧ rhs'.Tagged ∧
      lhs'.callable = rhs.callable ∧ rhs'.callable = lhs.callable ∧
      Conserves ledger ledger' (fun id => holds lhs.storage id + holds rhs.storage id)
        (fun id => holds lhs'.storage id + holds rhs'.storage id) := by
  obtain ⟨temp, ledger₁, h₁, ht₁, hc₁, hk₁⟩ := transfer_spec callables hl ledger
  obtain ⟨left, ledger₂, h₂, ht₂, hc₂, hk₂⟩ := transfer_spec callables hr ledger₁
  obtain ⟨right, ledger₃, h₃, ht₃, hc₃, hk₃⟩ := transfer_spec callables ht₁ ledger₂
  refine ⟨⟨left, rhs.vptr⟩, ⟨right, lhs.vptr⟩, ledger₃, ?_, ht₂, ht₃, hc₂,
    hc₃.trans hc₁, fun id => ?_⟩
  · simp only [swap, h₁, h₂, h₃, bind, Except.bind]
    rfl
  · have := hk₁ id
    have := hk₂ id
    have := hk₃ id
    dsimp only
    omega

omit [DecidableEq T] in
theorem ofCallable_spec (type : T) (value : V) (throws : Bool) (ledger : Ledger) :
    ∃ functor ledger',
    ofCallable type value throws ledger = .ok (if throws then none else some (functor, ledger')) ∧
      functor.Tagged ∧ functor.callable = some (type, value) ∧
      Conserves ledger ledger' (fun _ => 0) (holds functor.storage) :=
  ⟨⟨some ⟨type, value, ledger.constructed⟩, some type⟩, _, rfl, rfl, rfl,
    construct_conserves type value ledger⟩

theorem copyConstruct_spec (h : other.Tagged) (throws : Bool) (ledger : Ledger) : ∃ functor ledger',
    copyConstruct callables other throws ledger =
      .ok (if throws && (copied callables other.callable).isSome then none
        else some (functor, ledger')) ∧
      functor.Tagged ∧ functor.callable = copied callables other.callable ∧
      Conserves ledger ledger' (fun _ => 0) (holds functor.storage) := by
  obtain ⟨storage, vptr⟩ := other
  cases vptr with
  | none =>
    obtain rfl : storage = none := tagged_none h
    exact ⟨{}, ledger, by simp [copyConstruct, copied, Functor.callable, content], rfl,
      rfl, .refl ledger _⟩
  | some type =>
    obtain ⟨object, rfl, ht⟩ := tagged_some h
    have hcontent : content (some object) = some (type, object.value) := by simp [content, ht]
    by_cases hc : callables.copyable type = true
    · have hcopied : copied callables (content (some object)) = content (some object) := by
        simp [copied, hcontent, hc]
      obtain ⟨dst, ledger', hcopy, htag, hd, hk⟩ := copy_spec h throws ledger
      refine ⟨⟨dst, some type⟩, ledger', ?_, htag, hd.trans hcopied.symm, hk⟩
      have hsome : (copied callables (content (some object))).isSome = true := by
        rw [hcopied, hcontent]
        rfl
      simp only [copyConstruct, hc, ↓reduceIte, hcopy, Functor.callable, hsome, Bool.and_true]
      cases throws <;> rfl
    · have hcopied : copied callables (content (some object)) = none := by
        simp [copied, hcontent, hc]
      refine ⟨{}, ledger, ?_, rfl, hcopied.symm, .refl ledger _⟩
      simp [copyConstruct, hc, Functor.callable, hcopied]

theorem destruct_spec (h : functor.Tagged) (ledger : Ledger) :
    ∃ ledger', destruct functor ledger = .ok ledger' ∧
    Conserves ledger ledger' (holds functor.storage) (fun _ => 0) := by
  obtain ⟨storage, vptr⟩ := functor
  cases vptr with
  | none =>
    obtain rfl : storage = none := tagged_none h
    exact ⟨ledger, rfl, .refl ledger _⟩
  | some type =>
    obtain ⟨ledger', hd, hk⟩ := destroy_spec h ledger
    exact ⟨ledger', by simp only [destruct, hd]; rfl, hk⟩

theorem copyAssign_spec (hf : functor.Tagged) (h : other.Tagged) (throws : Bool) (ledger : Ledger) :
    ∃ functor' ledger', copyAssign callables functor other throws ledger =
      .ok (if throws && (copied callables other.callable).isSome then none
        else some (functor', ledger')) ∧
      functor'.Tagged ∧ functor'.callable = copied callables other.callable ∧
      Conserves ledger ledger' (holds functor.storage) (holds functor'.storage) := by
  obtain ⟨tmp, ledger₁, h₁, ht₁, hc₁, hk₁⟩ := copyConstruct_spec callables h throws ledger
  obtain ⟨functor', tmp', ledger₂, h₂, ht₂, htmp, hc₂, -, hk₂⟩ := swap_spec callables hf ht₁ ledger₁
  obtain ⟨ledger₃, h₃, hk₃⟩ := destruct_spec htmp ledger₂
  refine ⟨functor', ledger₃, ?_, ht₂, hc₂.trans hc₁, fun id => ?_⟩
  · cases hthrow : throws && (copied callables other.callable).isSome with
    | true => simp only [copyAssign, h₁, hthrow, ↓reduceIte, bind, Except.bind]; rfl
    | false =>
      simp only [copyAssign, h₁, hthrow, Bool.false_eq_true, ↓reduceIte, bind, Except.bind, h₂, h₃]
      rfl
  · have := hk₁ id
    have := hk₂ id
    have := hk₃ id
    dsimp only at *
    omega

theorem invoke_spec (h : functor.Tagged) (hv : functor.vptr.isSome = true) (value : V) :
    ∃ functor' type old,
    invoke functor value = .ok functor' ∧ functor'.Tagged ∧ functor.callable = some (type, old) ∧
      functor'.callable = some (type, value) ∧ holds functor'.storage = holds functor.storage := by
  obtain ⟨storage, vptr⟩ := functor
  obtain ⟨type, rfl⟩ := Option.isSome_iff_exists.mp hv
  obtain ⟨object, rfl, rfl⟩ := tagged_some h
  refine ⟨⟨some { object with value := value }, some object.type⟩, object.type, object.value,
    ?_, rfl, rfl, rfl, rfl⟩
  simp only [invoke, access_of_type rfl]
  rfl

section Functors

omit [DecidableEq T]

theorem held_append (functors : List (Option (Functor T V))) (functor : Functor T V) (id : Nat) :
    held (functors ++ [some functor]) id = holds functor.storage id + held functors id := by
  simp [held, Nat.add_comm]

theorem held_set {functors : List (Option (Functor T V))} {old : Option (Functor T V)}
    (h : functors[i]? = some old) (new : Option (Functor T V)) (id : Nat) :
    held (functors.set i new) id + held [old] id = held functors id + held [new] id :=
  ListUpdates.sum_map_set (fun functor => functor.elim 0 fun functor =>
    holds functor.storage id) h new

theorem functor_eq_some : s.functor i = some functor ↔ s.functors[i]? = some (some functor) := by
  simp [State.functor, Option.join_eq_some_iff]

theorem contents_getElem? (s : State T V) (i : Nat) :
    s.contents[i]?.join = (s.functor i).map Functor.callable := by
  rw [State.contents, List.getElem?_map, State.functor]
  cases s.functors[i]? with
  | none => rfl
  | some functor => rfl

theorem Sound.of_functor (h : Sound s) (hf : s.functor i = some functor) : functor.Tagged :=
  h.tagged functor (List.mem_of_getElem? (functor_eq_some.mp hf))

theorem tagged_append {functors : List (Option (Functor T V))}
    (h : ∀ f, some f ∈ functors → f.Tagged) (hf : functor.Tagged) :
    ∀ f, some f ∈ functors ++ [some functor] → f.Tagged := by
  intro f hm
  obtain hm | hm := List.mem_append.mp hm
  · exact h f hm
  · cases List.mem_singleton.mp hm
    exact hf

theorem tagged_set {functors : List (Option (Functor T V))} (h : ∀ f, some f ∈ functors → f.Tagged)
    {new : Option (Functor T V)} (hn : ∀ f, new = some f → f.Tagged) (i : Nat) :
    ∀ f, some f ∈ functors.set i new → f.Tagged := by
  intro f hm
  obtain hm | he := List.mem_or_eq_of_mem_set hm
  · exact h f hm
  · exact hn f he.symm

theorem Sound.append (h : Sound s) (hf : functor.Tagged)
    (hk : Conserves s.ledger ledger (fun _ => 0) (holds functor.storage)) :
    Sound ⟨s.functors ++ [some functor], ledger⟩ where
  tagged := tagged_append h.tagged hf
  balanced := by
    refine h.balanced.conserves (hk.frame fun id => ?_)
    rw [held_append, Nat.add_zero, Nat.add_comm]

theorem Sound.set (h : Sound s) (hi : s.functor i = some functor) (hf : other.Tagged)
    (hk : Conserves s.ledger ledger (holds functor.storage) (holds other.storage)) :
    Sound ⟨s.functors.set i (some other), ledger⟩ where
  tagged := tagged_set h.tagged (fun _ he => Option.some.inj he ▸ hf) i
  balanced := h.balanced.conserves (hk.frame (held_set (functor_eq_some.mp hi) (some other)))

/-- A step and the specification go wrong together, for want of a functor, or
lead to states that agree. -/
def Agrees (result : Except Fault (State T V)) (expected : Except Fault (Contents T V)) : Prop :=
  (result = .error .disabled ∧ expected = .error .disabled) ∨
    ∃ s', result = .ok s' ∧ expected = .ok s'.contents ∧ Sound s'

theorem agrees_emplace (h : Sound s) {throws : Bool} {callable : Option (T × V)}
    (hf : functor.Tagged) (hc : functor.callable = callable)
    (hk : Conserves s.ledger ledger (fun _ => 0) (holds functor.storage)) :
    Agrees (.ok (s.emplace (if throws then none else some (functor, ledger))))
      (.ok (if throws then s.contents else s.contents ++ [some callable])) := by
  cases throws with
  | true => exact .inr ⟨s, rfl, rfl, h⟩
  | false => exact .inr ⟨_, rfl, by simp [State.emplace, State.contents, hc], h.append hf hk⟩

theorem held_set_set {functors : List (Option (Functor T V))} (hij : i ≠ j)
    (hi : functors[i]? = some (some lhs)) (hj : functors[j]? = some (some rhs))
    (lhs' rhs' : Functor T V) (id : Nat) :
    held ((functors.set i (some lhs')).set j (some rhs')) id +
      (holds lhs.storage id + holds rhs.storage id) =
      held functors id + (holds lhs'.storage id + holds rhs'.storage id) := by
  have h₁ := held_set hi (some lhs') id
  have hj' : (functors.set i (some lhs'))[j]? = some (some rhs) :=
    (List.getElem?_set_ne hij).trans hj
  have h₂ := held_set hj' (some rhs') id
  simp only [held, List.map_cons, List.map_nil, List.sum_cons, List.sum_nil,
    Option.elim_some] at h₁ h₂ ⊢
  omega

theorem contents_set (functors : List (Option (Functor T V))) (i : Nat) (new : Option (Functor T V))
    (ledger : Ledger) :
    State.contents ⟨functors.set i new, ledger⟩ =
      (State.contents ⟨functors, ledger⟩).set i (new.map Functor.callable) := by
  simp only [State.contents, List.map_set]

theorem contents_set_self (h : s.functor i = some functor) :
    s.contents.set i (some functor.callable) = s.contents := by
  obtain ⟨hlt, he⟩ := List.getElem?_eq_some_iff.mp (functor_eq_some.mp h)
  have hs : s.functors.set i (some functor) = s.functors := by rw [← he, List.set_getElem_self]
  have hc := contents_set s.functors i (some functor) s.ledger
  rw [hs] at hc
  exact hc.symm

end Functors

theorem agrees_exchange (h : Sound s) (i j : Nat) :
    Agrees (exchange callables s i j) (spec callables s.contents (.swap i j)) := by
  simp only [exchange, spec, contents_getElem?]
  cases hi : s.functor i with
  | none => exact .inl ⟨rfl, rfl⟩
  | some lhs =>
    cases hj : s.functor j with
    | none => exact .inl ⟨rfl, rfl⟩
    | some rhs =>
      right
      simp only [Option.map_some]
      by_cases hij : i = j
      · subst hij
        rw [hi] at hj
        cases hj
        refine ⟨s, if_pos rfl, ?_, h⟩
        rw [List.set_set, contents_set_self hi]
      · obtain ⟨lhs', rhs', ledger, hs, htl, htr, hcl, hcr, hk⟩ :=
          swap_spec callables (h.of_functor hi) (h.of_functor hj) s.ledger
        have htagged := tagged_set h.tagged (fun _ he => Option.some.inj he ▸ htl) i
        refine ⟨⟨(s.functors.set i (some lhs')).set j (some rhs'), ledger⟩, ?_, ?_, ?_, ?_⟩
        · rw [if_neg hij, hs]
          rfl
        · rw [contents_set, contents_set, Option.map_some, Option.map_some, hcl, hcr]
          rfl
        · exact tagged_set htagged (fun _ he => Option.some.inj he ▸ htr) j
        · exact h.balanced.conserves (hk.frame
            (held_set_set hij (functor_eq_some.mp hi) (functor_eq_some.mp hj) lhs' rhs'))

theorem agrees_moveConstruct (h : Sound s) (j : Nat) :
    Agrees (step callables s (.moveConstruct j))
      (spec callables s.contents (.moveConstruct j)) := by
  simp only [step, spec, contents_getElem?]
  cases hj : s.functor j with
  | none => exact .inl ⟨rfl, rfl⟩
  | some other =>
    have hempty : Functor.Tagged ({} : Functor T V) := rfl
    obtain ⟨functor, other', ledger, hs, hf, ho, hcf, hco, hk⟩ :=
      swap_spec callables hempty (h.of_functor hj) s.ledger
    have htagged := tagged_set h.tagged (fun _ he => Option.some.inj he ▸ ho) j
    refine .inr ⟨⟨s.functors.set j (some other') ++ [some functor], ledger⟩, ?_, ?_,
      tagged_append htagged hf, ?_⟩
    · simp only [hs]
      rfl
    · simp only [State.contents, List.map_append, List.map_set, List.map_cons, List.map_nil,
        Option.map_some, hcf, hco]
      rfl
    · refine h.balanced.conserves (hk.frame fun id => ?_)
      have hset := held_set (functor_eq_some.mp hj) (some other') id
      simp only [held_append]
      simp only [held, List.map_cons, List.map_nil, List.sum_cons, List.sum_nil,
        Option.elim_some, holds] at hset ⊢
      omega

theorem agrees_copyAssign (h : Sound s) (i j : Nat) (throws : Bool) :
    Agrees (step callables s (.copyAssign i j throws))
      (spec callables s.contents (.copyAssign i j throws)) := by
  simp only [step, spec, contents_getElem?]
  cases hi : s.functor i with
  | none => exact .inl ⟨rfl, rfl⟩
  | some functor =>
    cases hj : s.functor j with
    | none => exact .inl ⟨rfl, rfl⟩
    | some other =>
      simp only [Option.map_some]
      by_cases hij : i = j
      · rw [if_pos hij, if_pos (.inl hij)]
        exact .inr ⟨s, rfl, rfl, h⟩
      · obtain ⟨functor', ledger, hs, hf, hc, hk⟩ :=
          copyAssign_spec callables (h.of_functor hi) (h.of_functor hj) throws s.ledger
        rw [if_neg hij, hs]
        cases hthrow : throws && (copied callables other.callable).isSome with
        | true =>
          rw [if_pos (Or.inr rfl)]
          exact .inr ⟨s, rfl, rfl, h⟩
        | false =>
          refine .inr ⟨⟨s.functors.set i (some functor'), ledger⟩, rfl, ?_, h.set hi hf hk⟩
          rw [if_neg (by simp [hij]), contents_set, Option.map_some, hc]
          rfl

theorem agrees_destruct (h : Sound s) (i : Nat) :
    Agrees (step callables s (.destruct i)) (spec callables s.contents (.destruct i)) := by
  simp only [step, spec, contents_getElem?]
  cases hi : s.functor i with
  | none => exact .inl ⟨rfl, rfl⟩
  | some functor =>
    obtain ⟨ledger, hd, hk⟩ := destruct_spec (h.of_functor hi) s.ledger
    refine .inr ⟨⟨s.functors.set i none, ledger⟩, ?_, ?_, ?_, ?_⟩
    · simp only [hd]
      rfl
    · rw [contents_set]
      rfl
    · exact tagged_set h.tagged (fun _ he => by cases he) i
    · exact h.balanced.conserves (hk.frame (held_set (functor_eq_some.mp hi) none))

theorem agrees_invoke (h : Sound s) (i : Nat) (value : V) :
    Agrees (step callables s (.invoke i value)) (spec callables s.contents (.invoke i value)) := by
  simp only [step, spec, contents_getElem?]
  cases hi : s.functor i with
  | none => exact .inl ⟨rfl, rfl⟩
  | some functor =>
    cases hv : functor.vptr with
    | none =>
      have hs := h.of_functor hi
      rw [Functor.Tagged, hv] at hs
      have hc : functor.callable = none := by rw [Functor.callable, tagged_none hs]; rfl
      rw [Option.map_some, hc]
      exact .inl ⟨by simp [hv], rfl⟩
    | some type =>
      have hsome : functor.vptr.isSome = true := by rw [hv]; rfl
      obtain ⟨functor', type', old, hinv, hf, hold, hc, hk⟩ :=
        invoke_spec (h.of_functor hi) hsome value
      rw [Option.map_some, hold]
      refine .inr ⟨⟨s.functors.set i (some functor'), s.ledger⟩, ?_, ?_,
        h.set hi hf (hk ▸ .refl s.ledger _)⟩
      · simp only [hv, hinv, Option.isSome_some, ↓reduceIte]
        rfl
      · rw [contents_set, Option.map_some, hc]

/-- Every action does to the functors what it does to the values they hold. -/
theorem step_agrees (h : Sound s) (a : Action T V) :
    Agrees (step callables s a) (spec callables s.contents a) := by
  cases a with
  | construct =>
    exact .inr ⟨_, rfl, by simp [spec, State.contents, Functor.callable, content],
      h.append rfl (.refl s.ledger _)⟩
  | ofCallable type value throws =>
    obtain ⟨functor, ledger, ho, hf, hc, hk⟩ := ofCallable_spec type value throws s.ledger
    simp only [step, spec, ho]
    exact agrees_emplace h hf hc hk
  | copyConstruct j throws =>
    simp only [step, spec, contents_getElem?]
    cases hj : s.functor j with
    | none => exact .inl ⟨rfl, rfl⟩
    | some other =>
      obtain ⟨functor, ledger, ho, hf, hc, hk⟩ :=
        copyConstruct_spec callables (h.of_functor hj) throws s.ledger
      simp only [ho, Option.map_some]
      exact agrees_emplace h hf hc hk
  | moveConstruct j => exact agrees_moveConstruct callables h j
  | copyAssign i j throws => exact agrees_copyAssign callables h i j throws
  | moveAssign i j | swap i j => exact agrees_exchange callables h i j
  | destruct i => exact agrees_destruct callables h i
  | invoke i value => exact agrees_invoke callables h i value

theorem run_agrees (h : Sound s) (tr : List (Action T V)) :
    Agrees (Runs.run (step callables) s tr) (Runs.run (spec callables) s.contents tr) := by
  induction tr generalizing s with
  | nil => exact .inr ⟨s, rfl, rfl, h⟩
  | cons a tr ih =>
    obtain ⟨hs, he⟩ | ⟨s', hs, he, h'⟩ := step_agrees callables h a
    · exact .inl ⟨by rw [Runs.run, hs], by rw [Runs.run, he]⟩
    · rw [Runs.run, Runs.run, hs, he]
      exact ih h'

omit [DecidableEq T] in
theorem sound_initial : Sound ({} : State T V) where
  tagged := fun _ hm => absurd hm List.not_mem_nil
  balanced := fun id => by simp [held, born]

/-- Every sequence of actions does to the functors what it does to the values
they hold. No object is misused on the way, a functor holds an object of its
tagged type exactly when it has a tag, and once all functors are destroyed every
object ever constructed was destroyed exactly once. -/
theorem lifetimes_exact (tr : List (Action T V)) :
    (Runs.run (step callables) {} tr).map State.contents = Runs.run (spec callables) [] tr ∧
    (∀ misuse, Runs.run (step callables) {} tr ≠ .error (.misuse misuse)) ∧
    ∀ s, Runs.run (step callables) {} tr = .ok s →
      (∀ functor, some functor ∈ s.functors → functor.Tagged) ∧
      ((∀ functor ∈ s.functors, functor = none) →
        ∀ id, s.ledger.destroyed.count id = if id < s.ledger.constructed then 1 else 0) := by
  obtain ⟨hs, he⟩ | ⟨s', hs, he, h⟩ := run_agrees callables sound_initial tr
  · refine ⟨by rw [hs]; exact he.symm, fun misuse hm => ?_, fun s hr => ?_⟩
    · rw [hs] at hm
      cases hm
    · rw [hs] at hr
      cases hr
  · refine ⟨by rw [hs]; exact he.symm, fun misuse hm => ?_, fun s hr => ?_⟩
    · rw [hs] at hm
      cases hm
    · rw [hs] at hr
      cases hr
      refine ⟨h.tagged, fun hnone id => ?_⟩
      have hheld : held s'.functors id = 0 := by
        rw [held, List.sum_eq_zero_iff_forall_eq_nat]
        intro x hx
        obtain ⟨functor, hm, rfl⟩ := List.mem_map.mp hx
        rw [hnone functor hm]
        rfl
      have hb := h.balanced id
      rw [hheld] at hb
      exact hb

theorem lifetimes_exact_swap :
    ∃ s, Runs.run (step (⟨fun type => type != 2, fun _ _ => 0⟩ : Callables Nat Nat)) {}
      [.ofCallable 0 10 false, .ofCallable 1 11 false, .swap 0 1, .copyConstruct 0 true,
        .copyAssign 0 1 false, .ofCallable 2 12 false, .copyConstruct 2 false, .destruct 0,
        .destruct 1, .destruct 2, .destruct 3] = .ok s ∧
    s.ledger.constructed = 10 ∧ ∀ id, s.ledger.destroyed.count id = if id < 10 then 1 else 0 := by
  have hs : ∃ s, Runs.run (step (⟨fun type => type != 2, fun _ _ => 0⟩ : Callables Nat Nat)) {}
      [.ofCallable 0 10 false, .ofCallable 1 11 false, .swap 0 1, .copyConstruct 0 true,
        .copyAssign 0 1 false, .ofCallable 2 12 false, .copyConstruct 2 false, .destruct 0,
        .destruct 1, .destruct 2, .destruct 3] = .ok s ∧
      s.ledger.constructed = 10 ∧ s.functors = [none, none, none, none] := ⟨_, rfl, rfl, rfl⟩
  obtain ⟨s, hrun, hl, hf⟩ := hs
  refine ⟨s, hrun, hl, ?_⟩
  rw [← hl]
  exact ((lifetimes_exact _ _).2.2 s hrun).2 (by simp [hf])

end AsyncBerkeley.SmallFunctors
