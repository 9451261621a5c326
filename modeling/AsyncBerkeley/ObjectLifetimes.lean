import Mathlib.Algebra.Order.Ring.Int

namespace AsyncBerkeley.ObjectLifetimes

/-- A live object. Objects are told apart by the number of their construction. -/
structure Object (T V : Type) where
  type : T
  value : V
  id : Nat
  deriving DecidableEq, Repr

abbrev Cell (T V : Type) := Option (Object T V)

/-- How many objects were ever constructed, and which ones were destroyed. -/
structure Ledger where
  constructed : Nat := 0
  destroyed : List Nat := []
  deriving DecidableEq, Repr

inductive Misuse where
  | notRaw
  | notLive
  | wrongType
  deriving DecidableEq, Repr

variable {T V : Type} [DecidableEq T]

def access (type : T) : Cell T V → Except Misuse (Object T V)
  | none => .error .notLive
  | some object => if object.type = type then .ok object else .error .wrongType

omit [DecidableEq T] in
def construct (type : T) (value : V) (ledger : Ledger) :
    Cell T V → Except Misuse (Cell T V × Ledger)
  | some _ => .error .notRaw
  | none =>
    .ok (some ⟨type, value, ledger.constructed⟩,
      { ledger with constructed := ledger.constructed + 1 })

def destroy (type : T) (cell : Cell T V) (ledger : Ledger) : Except Misuse (Cell T V × Ledger) :=
  (access type cell).map fun object =>
    (none, { ledger with destroyed := ledger.destroyed ++ [object.id] })

def move (moved : T → V → V) (type : T) (src dst : Cell T V) (ledger : Ledger) :
    Except Misuse (Cell T V × Cell T V × Ledger) := do
  let object ← access type src
  let (dst, ledger) ← construct type object.value ledger dst
  return (some { object with value := moved type object.value }, dst, ledger)

/-- A destructive move ends the lifetime of the object that is moved from. -/
def relocate (moved : T → V → V) (type : T) (src dst : Cell T V) (ledger : Ledger) :
    Except Misuse (Cell T V × Cell T V × Ledger) := do
  let (src, dst, ledger) ← move moved type src dst ledger
  let (src, ledger) ← destroy type src ledger
  return (src, dst, ledger)

/-- Construct a copy of an object. No lifetime begins when the copy throws. -/
def copy (type : T) (src dst : Cell T V) (throws : Bool) (ledger : Ledger) :
    Except Misuse (Option (Cell T V × Ledger)) := do
  let object ← access type src
  let copied ← construct type object.value ledger dst
  return if throws then none else some copied

def Tagged (tag : Option T) (cell : Cell T V) : Prop := cell.map Object.type = tag

def content (cell : Cell T V) : Option (T × V) := cell.map fun object => (object.type, object.value)

def holds : Cell T V → Nat → Nat
  | none, _ => 0
  | some object, id => if object.id = id then 1 else 0

def born (ledger : Ledger) (id : Nat) : Nat := if id < ledger.constructed then 1 else 0

/-- Every object ever constructed is held once or was destroyed once, and no other is. -/
def Balanced (ledger : Ledger) (held : Nat → Nat) : Prop :=
  ∀ id, ledger.destroyed.count id + held id = born ledger id

/-- Between two ledgers, what is held changes by what was constructed and destroyed. -/
def Conserves (ledger ledger' : Ledger) (held held' : Nat → Nat) : Prop :=
  ∀ id, ledger'.destroyed.count id + held' id + born ledger id =
    ledger.destroyed.count id + held id + born ledger' id

variable {ledger ledger' ledger'' : Ledger} {held held' held'' : Nat → Nat}

theorem Conserves.refl (ledger : Ledger) (held : Nat → Nat) :
    Conserves ledger ledger held held := fun _ => rfl

theorem Conserves.trans (h : Conserves ledger ledger' held held')
    (h' : Conserves ledger' ledger'' held' held'') :
    Conserves ledger ledger'' held held'' := by
  intro id
  have := h id
  have := h' id
  omega

theorem Conserves.frame (h : Conserves ledger ledger' held held') {total total' : Nat → Nat}
    (ht : ∀ id, total' id + held id = total id + held' id) :
    Conserves ledger ledger' total total' := by
  intro id
  have := h id
  have := ht id
  omega

theorem Balanced.conserves (hb : Balanced ledger held) (h : Conserves ledger ledger' held held') :
    Balanced ledger' held' := by
  intro id
  have := hb id
  have := h id
  omega

theorem count_snoc (l : List Nat) (x id : Nat) :
    (l ++ [x]).count id = l.count id + if x = id then 1 else 0 := by
  simp [List.count_singleton]

theorem born_succ (ledger : Ledger) (destroyed : List Nat) (id : Nat) :
    born ⟨ledger.constructed + 1, destroyed⟩ id = born ledger id + if ledger.constructed = id then
      1 else 0 := by
  simp only [born]
  split <;> split <;> split <;> omega

variable {type : T} {object : Object T V} {cell : Cell T V} {value : V}

omit [DecidableEq T] in
theorem tagged_some (h : Tagged (some type) cell) :
    ∃ object, cell = some object ∧ object.type = type :=
  Option.map_eq_some_iff.mp h

omit [DecidableEq T] in
theorem tagged_none (h : Tagged none cell) : cell = none := Option.map_eq_none_iff.mp h

theorem access_of_type (h : object.type = type) : access type (some object) = .ok object := if_pos h

omit [DecidableEq T] in
theorem construct_conserves (type : T) (value : V) (ledger : Ledger) :
    Conserves ledger { ledger with constructed := ledger.constructed + 1 } (fun _ => 0)
      (holds (some ⟨type, value, ledger.constructed⟩)) := by
  intro id
  rw [born_succ ledger]
  simp only [holds]
  omega

theorem destroy_spec (h : Tagged (some type) cell) (ledger : Ledger) : ∃ ledger',
    destroy type cell ledger = .ok (none, ledger') ∧
      Conserves ledger ledger' (holds cell) (fun _ => 0) := by
  obtain ⟨object, rfl, ht⟩ := tagged_some h
  refine ⟨_, by rw [destroy, access_of_type ht]; rfl, fun id => ?_⟩
  simp only [count_snoc, holds, born]
  omega

theorem relocate_spec (moved : T → V → V) (h : Tagged (some type) cell) (ledger : Ledger) :
    ∃ dst ledger',
    relocate moved type cell none ledger = .ok (none, dst, ledger') ∧ Tagged (some type) dst ∧
      content dst = content cell ∧ Conserves ledger ledger' (holds cell) (holds dst) := by
  obtain ⟨object, rfl, ht⟩ := tagged_some h
  refine ⟨some ⟨type, object.value, ledger.constructed⟩,
    ⟨ledger.constructed + 1, ledger.destroyed ++ [object.id]⟩, ?_, rfl, ?_, fun id => ?_⟩
  · subst ht
    simp [relocate, move, destroy, access, construct, bind, Except.bind, pure,
      Except.pure, Except.map]
  · simp [content, ht]
  · rw [born_succ ledger]
    simp only [count_snoc, holds]
    omega

theorem copy_spec (h : Tagged (some type) cell) (throws : Bool) (ledger : Ledger) : ∃ dst ledger',
    copy type cell none throws ledger = .ok (if throws then none else some (dst, ledger')) ∧
      Tagged (some type) dst ∧ content dst = content cell ∧
        Conserves ledger ledger' (fun _ => 0) (holds dst) := by
  obtain ⟨object, rfl, ht⟩ := tagged_some h
  refine ⟨some ⟨type, object.value, ledger.constructed⟩, _, ?_, rfl, ?_,
    construct_conserves type object.value ledger⟩
  · simp only [copy, access_of_type ht, construct]
    rfl
  · simp [content, ht]

end AsyncBerkeley.ObjectLifetimes
