import Mathlib.Algebra.Order.Ring.Int

namespace AsyncBerkeley.MessageBuffers

variable {α σ : Type}

/-- `std::ranges::remove_if` with a predicate that changes the elements and a
state of its own. It is applied once to each element in order. -/
def removeIf (pred : σ → α → Bool × α × σ) : σ → List α → List α
  | _, [] => []
  | s, a :: l =>
    match pred s a with
    | (true, _, s) => removeIf pred s l
    | (false, a, s) => a :: removeIf pred s l

abbrev Size := BitVec 64

/-- `struct iovec`. The null pointer is address zero. -/
structure NativeBuffer where
  iovBase : Nat
  iovLen : Size
  deriving DecidableEq, Repr

def NativeBuffer.advance (buf : NativeBuffer) (len : Size) : NativeBuffer :=
  if buf.iovLen ≤ len then ⟨0, 0#64⟩ else ⟨buf.iovBase + len.toNat, buf.iovLen - len⟩

/-- The predicate of `operator+=`, with the length that is left to drop. -/
def consume (len : Size) (buf : NativeBuffer) : Bool × NativeBuffer × Size :=
  if len = 0#64 then (false, buf, len)
  -- the assignment `len = 0` is the answer, and an unsigned number is always at least zero
  else if len < buf.iovLen then (false, buf.advance len, 0#64)
  else (true, buf.advance len, len - buf.iovLen)

abbrev MessageBuffer := List NativeBuffer

/-- The compound assignment of a `message_buffer`. -/
def advance (buffers : MessageBuffer) (len : Size) : MessageBuffer := removeIf consume len buffers

def empty (buffers : MessageBuffer) : Bool :=
  buffers.foldl (fun len buf => len + buf.iovLen) 0#64 == 0#64

def toBool (buffers : MessageBuffer) : Bool := !empty buffers

def NativeBuffer.covered (buf : NativeBuffer) : List Nat := List.range' buf.iovBase buf.iovLen.toNat

def covered (buffers : MessageBuffer) : List Nat := buffers.flatMap NativeBuffer.covered

/-- Repeated partial sends: each transmits the first bytes that are left and
advances the buffers by as many. -/
def transmit : MessageBuffer → List Size → List Nat × MessageBuffer
  | buffers, [] => ([], buffers)
  | buffers, len :: lens =>
    let rest := transmit (advance buffers len) lens
    ((covered buffers).take len.toNat ++ rest.1, rest.2)

variable {buf : NativeBuffer} {buffers : MessageBuffer} {len m n : Size}

@[simp] theorem advance_nil : advance [] len = [] := rfl

@[simp] theorem advance_zero : advance buffers 0#64 = buffers := by
  induction buffers with
  | nil => rfl
  | cons buf buffers ih =>
    have hc : advance (buf :: buffers) 0#64 = buf :: advance buffers 0#64 := by
      simp [advance, removeIf, consume]
    rw [hc, ih]

theorem advance_cons (buf : NativeBuffer) (buffers : MessageBuffer) (len : Size) :
    advance (buf :: buffers) len = if len = 0#64 then buf :: buffers
    else if len < buf.iovLen then ⟨buf.iovBase + len.toNat, buf.iovLen - len⟩ :: buffers
    else advance buffers (len - buf.iovLen) := by
  by_cases hz : len = 0#64
  · rw [if_pos hz, hz, advance_zero]
  · rw [if_neg hz]
    by_cases hlt : len < buf.iovLen
    · have hn : ¬buf.iovLen ≤ len := BitVec.not_le.mpr hlt
      have hrest : removeIf consume 0#64 buffers = buffers := advance_zero
      simp [advance, removeIf, consume, hz, hlt, NativeBuffer.advance, hn, hrest]
    · simp [advance, removeIf, consume, hz, hlt]

@[simp] theorem length_covered (buf : NativeBuffer) : buf.covered.length = buf.iovLen.toNat := by
  simp [NativeBuffer.covered]

theorem covered_cons :
    covered (buf :: buffers) = buf.covered ++ covered buffers := List.flatMap_cons

theorem toNat_ne_zero (h : len ≠ 0#64) : len.toNat ≠ 0 := fun hz => h (BitVec.eq_of_toNat_eq hz)

theorem covered_advance (buffers : MessageBuffer) (len : Size) :
    covered (advance buffers len) = (covered buffers).drop len.toNat := by
  induction buffers generalizing len with
  | nil => simp [covered]
  | cons buf buffers ih =>
    rw [advance_cons]
    split
    · next hz => simp [hz]
    · split
      · next hlt =>
        have hle : len.toNat ≤ buf.covered.length := by
          rw [length_covered]
          exact Nat.le_of_lt hlt
        have hsub : (buf.iovLen - len).toNat = buf.iovLen.toNat - len.toNat :=
          BitVec.toNat_sub_of_le (BitVec.le_of_lt hlt)
        rw [covered_cons, covered_cons, List.drop_append_of_le_length hle]
        simp [NativeBuffer.covered, List.drop_range', hsub]
      · next hlt =>
        have hge : buf.iovLen ≤ len := BitVec.not_lt.mp hlt
        have hle : buf.covered.length ≤ len.toNat := by
          rw [length_covered]
          exact hge
        have hsub : (len - buf.iovLen).toNat = len.toNat - buf.covered.length := by
          rw [length_covered]
          exact BitVec.toNat_sub_of_le hge
        rw [ih, hsub, covered_cons, List.drop_append, List.drop_of_length_le hle, List.nil_append]

theorem advance_suffix (buffers : MessageBuffer) (len : Size) :
    ∃ done rest, buffers = done ++ rest ∧
    (advance buffers len = rest ∨ ∃ buf tail k, rest = buf :: tail ∧ 0#64 < k ∧ k < buf.iovLen ∧
      advance buffers len = ⟨buf.iovBase + k.toNat, buf.iovLen - k⟩ :: tail) := by
  induction buffers generalizing len with
  | nil => exact ⟨[], [], rfl, .inl rfl⟩
  | cons buf buffers ih =>
    rw [advance_cons]
    split
    · exact ⟨[], buf :: buffers, rfl, .inl rfl⟩
    · next hz =>
      split
      · next hlt =>
        have hpos : 0#64 < len := Nat.pos_of_ne_zero (toNat_ne_zero hz)
        exact ⟨[], buf :: buffers, rfl, .inr ⟨buf, buffers, len, rfl, hpos, hlt, rfl⟩⟩
      · obtain ⟨done, rest, he, hr⟩ := ih (len - buf.iovLen)
        exact ⟨buf :: done, rest, by rw [he, List.cons_append], hr⟩

theorem advance_empty (h : buf ∈ advance buffers len) (hz : buf.iovLen = 0#64) : buf ∈ buffers := by
  obtain ⟨done, rest, rfl, hr | ⟨first, tail, k, rfl, -, hlt, hr⟩⟩ := advance_suffix buffers len
  · rw [hr] at h
    exact List.mem_append_right _ h
  · rw [hr] at h
    obtain rfl | h := List.mem_cons.mp h
    · have hsub : (first.iovLen - k).toNat = first.iovLen.toNat - k.toNat :=
        BitVec.toNat_sub_of_le (BitVec.le_of_lt hlt)
      have hlt' : k.toNat < first.iovLen.toNat := hlt
      have hz : first.iovLen - k = 0#64 := hz
      rw [hz, BitVec.toNat_ofNat, Nat.zero_mod] at hsub
      omega
    · exact List.mem_append_right _ (List.mem_cons_of_mem _ h)

theorem advance_advance (buffers : MessageBuffer) (m n : Size) (h : m.toNat + n.toNat < 2 ^ 64) :
    advance (advance buffers m) n = advance buffers (m + n) := by
  induction buffers generalizing m with
  | nil => rfl
  | cons buf buffers ih =>
    have hsum : (m + n).toNat = m.toNat + n.toNat := BitVec.toNat_add_of_lt h
    rw [advance_cons]
    split
    · next hz => simp [hz]
    · next hz =>
      have hmz := toNat_ne_zero hz
      have hsz : m + n ≠ 0#64 := by
        intro he
        rw [he, BitVec.toNat_ofNat, Nat.zero_mod] at hsum
        omega
      rw [advance_cons buf buffers (m + n), if_neg hsz]
      split
      · next hlt =>
        have hsub : (buf.iovLen - m).toNat = buf.iovLen.toNat - m.toNat :=
          BitVec.toNat_sub_of_le (BitVec.le_of_lt hlt)
        have hlt : m.toNat < buf.iovLen.toNat := hlt
        have hiff : n < buf.iovLen - m ↔ m + n < buf.iovLen := by
          rw [BitVec.lt_def, BitVec.lt_def, hsub, hsum]
          omega
        rw [advance_cons]
        split
        · next hn => simp [hn, BitVec.lt_def, hlt]
        · simp only [hiff]
          split
          · rw [hsum, Nat.add_assoc, BitVec.sub_sub]
          · congr 1
            bv_omega
      · next hlt =>
        have hge : buf.iovLen ≤ m := BitVec.not_lt.mp hlt
        have hsub : (m - buf.iovLen).toNat = m.toNat - buf.iovLen.toNat :=
          BitVec.toNat_sub_of_le hge
        have hge : buf.iovLen.toNat ≤ m.toNat := hge
        have hnot : ¬m + n < buf.iovLen := by
          rw [BitVec.lt_def, hsum]
          omega
        rw [if_neg hnot, ih (m - buf.iovLen) (by rw [hsub]; omega)]
        congr 1
        bv_omega

theorem toNat_foldl (buffers : MessageBuffer) (len : Size)
    (h : len.toNat + (covered buffers).length < 2 ^ 64) :
    (buffers.foldl (fun len buf => len + buf.iovLen) len).toNat =
      len.toNat + (covered buffers).length := by
  induction buffers generalizing len with
  | nil => rfl
  | cons buf buffers ih =>
    rw [covered_cons, List.length_append, length_covered] at h ⊢
    have hsum : (len + buf.iovLen).toNat = len.toNat + buf.iovLen.toNat :=
      BitVec.toNat_add_of_lt (by omega)
    rw [List.foldl_cons, ih _ (by rw [hsum]; omega), hsum]
    omega

theorem toBool_eq_false_iff (h : (covered buffers).length < 2 ^ 64) :
    toBool buffers = false ↔ covered buffers = [] := by
  have hsum := toNat_foldl buffers 0#64 (by simpa using h)
  rw [toBool, empty, Bool.not_eq_false', beq_iff_eq, ← List.length_eq_zero_iff,
    ← BitVec.toNat_inj, hsum]
  simp

theorem transmit_append (buffers : MessageBuffer) (lens : List Size) :
    (transmit buffers lens).1 ++ covered (transmit buffers lens).2 = covered buffers := by
  induction lens generalizing buffers with
  | nil => rfl
  | cons len lens ih =>
    rw [transmit, List.append_assoc, ih, covered_advance]
    exact List.take_append_drop _ _

theorem transmit_done {lens : List Size} (h : (covered buffers).length < 2 ^ 64)
    (hb : toBool (transmit buffers lens).2 = false) :
    (transmit buffers lens).1 = covered buffers := by
  have happ := transmit_append buffers lens
  have hle : (covered (transmit buffers lens).2).length < 2 ^ 64 := by
    have hlen := congrArg List.length happ
    rw [List.length_append] at hlen
    omega
  rw [(toBool_eq_false_iff hle).mp hb, List.append_nil] at happ
  exact happ

/-- What `operator+=` does to the buffers of a message. -/
theorem advance_spec (buffers : MessageBuffer) (len : Size) :
    covered (advance buffers len) = (covered buffers).drop len.toNat ∧
    (∃ done rest, buffers = done ++ rest ∧
      (advance buffers len = rest ∨ ∃ buf tail k, rest = buf :: tail ∧
      0#64 < k ∧ k < buf.iovLen ∧
        advance buffers len = ⟨buf.iovBase + k.toNat, buf.iovLen - k⟩ :: tail)) ∧
    (∀ buf ∈ advance buffers len, buf.iovLen = 0#64 → buf ∈ buffers) ∧
    (∀ m n : Size, m.toNat + n.toNat < 2 ^ 64 →
      advance (advance buffers m) n = advance buffers (m + n)) ∧
    ((covered buffers).length < 2 ^ 64 → (toBool buffers = false ↔ covered buffers = [])) ∧
    ∀ lens, (transmit buffers lens).1 ++ covered (transmit buffers lens).2 = covered buffers ∧
      ((covered buffers).length < 2 ^ 64 → toBool (transmit buffers lens).2 = false →
        (transmit buffers lens).1 = covered buffers) :=
  ⟨covered_advance buffers len, advance_suffix buffers len, fun _ => advance_empty,
    advance_advance buffers,
    toBool_eq_false_iff, fun lens => ⟨transmit_append buffers lens, transmit_done⟩⟩

theorem advance_spec_boundary :
    advance [⟨100, 5#64⟩, ⟨150, 0#64⟩, ⟨200, 3#64⟩] 5#64 = [⟨150, 0#64⟩, ⟨200, 3#64⟩] ∧
    advance (advance [⟨100, 5#64⟩, ⟨150, 0#64⟩, ⟨200, 3#64⟩] 5#64) 2#64 = [⟨202, 1#64⟩] := by
  have h := advance_spec [⟨100, 5#64⟩, ⟨150, 0#64⟩, ⟨200, 3#64⟩] 7#64
  exact ⟨by decide, (h.2.2.2.1 5#64 2#64 (by decide)).trans (by decide)⟩

end AsyncBerkeley.MessageBuffers
