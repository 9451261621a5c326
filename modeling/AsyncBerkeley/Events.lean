import Mathlib.Algebra.Order.Ring.Int

namespace AsyncBerkeley.Events

abbrev Short := BitVec 16

def POLLIN : Short := 0x01#16
def POLLOUT : Short := 0x04#16
def POLLERR : Short := 0x08#16
def POLLHUP : Short := 0x10#16
def POLLNVAL : Short := 0x20#16

def test (mask bits : Short) : Bool := mask &&& bits != 0#16

/-- The value of `execution_trigger` an operation waits for. `EAGER` asks for
no event: the operation completes as soon as it is started. -/
inductive ExecutionTrigger where
  | READ
  | WRITE
  | EAGER
  deriving DecidableEq, Repr

inductive Direction where
  | read
  | write
  deriving DecidableEq, Repr

def Direction.mask : Direction → Short
  | .read => POLLIN
  | .write => POLLOUT

def Direction.trigger : Direction → ExecutionTrigger
  | .read => .READ
  | .write => .WRITE

theorem Direction.trigger_injective {d d' : Direction} (h : d.trigger = d'.trigger) : d = d' := by
  cases d <;> cases d' <;> first | rfl | cases h

theorem exists_direction {t : ExecutionTrigger} (h : t ≠ .EAGER) :
    ∃ d : Direction, t = d.trigger := by
  cases t with
  | READ => exact ⟨.read, rfl⟩
  | WRITE => exact ⟨.write, rfl⟩
  | EAGER => exact absurd rfl h

@[simp] theorem test_zero (bits : Short) : test 0#16 bits = false := by simp [test]

@[simp] theorem test_or (mask a b : Short) :
    test mask (a ||| b) = (test mask a || test mask b) := by
  rw [Bool.eq_iff_iff]
  simp [test, BitVec.and_or_distrib_left, BitVec.or_eq_zero_iff, imp_iff_not_or]

@[simp] theorem or_test (m n bits : Short) :
    test (m ||| n) bits = (test m bits || test n bits) := by
  rw [Bool.eq_iff_iff]
  simp [test, BitVec.and_or_distrib_right, BitVec.or_eq_zero_iff, imp_iff_not_or]

theorem test_twoPow (mask : Short) (i : Nat) (hi : i < 16) :
    test mask (BitVec.twoPow 16 i) = mask.getLsbD i := by
  cases h : mask.getLsbD i with
  | false =>
    have hz : mask &&& BitVec.twoPow 16 i = 0#16 := by simp [BitVec.and_twoPow, h]
    simp [test, hz]
  | true =>
    have hz : mask &&& BitVec.twoPow 16 i = BitVec.twoPow 16 i := by simp [BitVec.and_twoPow, h]
    have hn : BitVec.twoPow 16 i ≠ 0#16 := by
      intro he
      have hb := congrArg (fun v => v.getLsbD i) he
      simp [hi] at hb
    simp [test, hz, hn]

theorem test_iff (mask bits : Short) :
    test mask bits = true ↔ ∃ i, mask.getLsbD i = true ∧ bits.getLsbD i = true := by
  rw [test, bne_iff_ne, ne_eq, ← not_forall_not, not_iff_not]
  constructor
  · intro h i hi
    have hb := congrArg (fun v => v.getLsbD i) h
    simp [hi.1, hi.2] at hb
  · intro h
    apply BitVec.eq_of_getLsbD_eq
    intro i hi
    have hn := h i
    simp only [BitVec.getLsbD_and]
    simpa using hn

theorem exists_bit {mask : Short} (h : mask ≠ 0#16) : ∃ i, mask.getLsbD i = true := by
  by_contra hn
  apply h
  apply BitVec.eq_of_getLsbD_eq
  intro i hi
  simpa using fun hb => hn ⟨i, hb⟩

theorem Direction.mask_eq (d : Direction) : ∃ i < 16, d.mask = BitVec.twoPow 16 i := by
  cases d with
  | read => exact ⟨0, by decide, rfl⟩
  | write => exact ⟨2, by decide, rfl⟩

@[simp] theorem and_not_test (m r : Short) (d : Direction) :
    test (m &&& ~~~r) d.mask = (test m d.mask && !test r d.mask) := by
  obtain ⟨i, hi, he⟩ := d.mask_eq
  rw [he, test_twoPow _ i hi, test_twoPow _ i hi, test_twoPow _ i hi]
  simp [hi]

theorem mask_test (d d' : Direction) : test d.mask d'.mask = decide (d = d') := by
  cases d <;> cases d' <;> decide

end AsyncBerkeley.Events
