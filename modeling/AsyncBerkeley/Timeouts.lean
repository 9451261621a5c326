import AsyncBerkeley.PollMultiplexer

namespace AsyncBerkeley.Timeouts

open SocketHandles PollMultiplexer

/-- The timeouts that the loop of `poll_` passes to `poll`, one for each call. -/
def timeouts : Int → Int → List PollAnswer → List Int
  | duration, _, [] => [duration]
  | duration, _, .ready _ :: _ => [duration]
  | duration, start, .failed errno now :: answers =>
    duration :: match handlePollError errno with
      | .error _ => []
      | .ok () => if duration > -1
          then timeouts (remainingDuration duration start now) now answers
          else timeouts duration start answers

def interruptions (t : Nat → Int) (k : Nat) : List PollAnswer :=
  (List.range k).map (fun i => .failed ⟨EINTR, by decide⟩ (t (i + 1)))

/-- The timeout of the call after a number of interruptions. -/
def timeout (duration : Int) (t : Nat → Int) : Nat → Int
  | 0 => duration
  | k + 1 => remainingDuration (timeout duration t k) (t k) (t (k + 1))

def wholes (t : Nat → Int) : Nat → Int
  | 0 => 0
  | k + 1 => wholes t k + (t (k + 1) - t k) / 1000000

def parts (t : Nat → Int) : Nat → Int
  | 0 => 0
  | k + 1 => parts t k + (t (k + 1) - t k) % 1000000

variable {duration : Int} {t : Nat → Int} {k : Nat}

theorem remainingDuration_nonneg (duration start now : Int) :
    0 ≤ remainingDuration duration start now :=
  Int.le_max_left _ _

theorem timeout_shift (duration : Int) (t : Nat → Int) (k : Nat) :
    timeout (remainingDuration duration (t 0) (t 1)) (fun i => t (i + 1)) k =
      timeout duration t (k + 1) := by
  induction k with
  | zero => rfl
  | succ k ih =>
    rw [timeout, ih]
    rfl

theorem timeouts_interruptions (hd : 0 ≤ duration) (t : Nat → Int) (k : Nat) :
    timeouts duration (t 0) (interruptions t k) = (List.range (k + 1)).map
      (timeout duration t) := by
  induction k generalizing duration t with
  | zero => rfl
  | succ k ih =>
    have hcons : interruptions t (k + 1) =
        .failed ⟨EINTR, by decide⟩ (t 1) :: interruptions (fun i => t (i + 1)) k := by
      simp only [interruptions, List.range_succ_eq_map, List.map_cons, List.map_map]
      rfl
    have hrest := ih (remainingDuration_nonneg duration (t 0) (t 1)) (fun i => t (i + 1))
    have hgt : duration > -1 := by omega
    rw [hcons, List.range_succ_eq_map, List.map_cons, List.map_map]
    simp only [timeouts, handlePollError, ne_eq, not_true_eq_false, ↓reduceIte, hgt]
    rw [hrest]
    congr 1
    apply List.map_congr_left
    intro i _
    exact timeout_shift duration t i

/-- After the interruptions, the loop comes to its next call with that timeout. -/
theorem pollLoop_interruptions (hd : 0 ≤ duration) (list : List InterestList.Pollfd) (t : Nat → Int)
    (k : Nat) (answers : List PollAnswer) :
    pollLoop list duration (t 0) (interruptions t k ++ answers) =
      pollLoop list (timeout duration t k) (t k) answers := by
  induction k generalizing answers with
  | zero => rfl
  | succ k ih =>
    have hn : timeout duration t k > -1 := by
      cases k with
      | zero => simp only [timeout]; omega
      | succ k => exact Int.lt_of_lt_of_le (by decide) (remainingDuration_nonneg _ _ _)
    have hsnoc : interruptions t (k + 1) =
        interruptions t k ++ [.failed ⟨EINTR, by decide⟩ (t (k + 1))] := by
      simp [interruptions, List.range_succ]
    rw [hsnoc, List.append_assoc, ih, List.singleton_append, pollLoop]
    simp only [handlePollError, ne_eq, not_true_eq_false, ↓reduceIte, hn]
    rfl

theorem toMilliseconds_eq {n : Int} (hn : 0 ≤ n) (hfit : n / 1000000 < 2 ^ 31) :
    toMilliseconds n = n / 1000000 := by
  have hnn : 0 ≤ n / 1000000 := by omega
  rw [toMilliseconds, Int.tdiv_eq_ediv_of_nonneg hn, Int.bmod_eq_of_le_mul_two] <;> omega

theorem timeout_eq (hd : 0 ≤ duration) (hmono : ∀ i < k, t i ≤ t (i + 1))
    (hfit : ∀ i < k, (t (i + 1) - t i) / 1000000 < 2 ^ 31) :
    timeout duration t k = max 0 (duration - wholes t k) := by
  induction k with
  | zero => simp [timeout, wholes, hd]
  | succ k ih =>
    have hprev := ih (fun i hi => hmono i (by omega)) (fun i hi => hfit i (by omega))
    have hle := hmono k (by omega)
    have hms := toMilliseconds_eq (by omega) (hfit k (by omega))
    rw [timeout, remainingDuration, hprev, hms, wholes]
    have hn : 0 ≤ (t (k + 1) - t k) / 1000000 := by omega
    omega

theorem elapsed_eq (t : Nat → Int) (k : Nat) : t k - t 0 = 1000000 * wholes t k + parts t k := by
  induction k with
  | zero => simp [wholes, parts]
  | succ k ih =>
    have hdiv := Int.mul_ediv_add_emod (t (k + 1) - t k) 1000000
    rw [wholes, parts]
    omega

theorem parts_nonneg (t : Nat → Int) (k : Nat) : 0 ≤ parts t k := by
  induction k with
  | zero => exact Int.le_refl 0
  | succ k ih =>
    rw [parts]
    have hm := Int.emod_nonneg (t (k + 1) - t k) (b := 1000000) (by decide)
    omega

theorem timeout_eq_elapsed_iff (hd : 0 ≤ duration) (hmono : ∀ i < k, t i ≤ t (i + 1))
    (hfit : ∀ i < k, (t (i + 1) - t i) / 1000000 < 2 ^ 31) :
    timeout duration t k = max 0 (duration - (t k - t 0) / 1000000) ↔
      duration ≤ wholes t k ∨ parts t k < 1000000 := by
  have hp := parts_nonneg t k
  have he : (t k - t 0) / 1000000 = wholes t k + parts t k / 1000000 := by
    rw [elapsed_eq]
    omega
  rw [timeout_eq hd hmono hfit, he]
  omega

theorem total_le (hd : 0 ≤ duration) (hmono : ∀ i < k, t i ≤ t (i + 1))
    (hfit : ∀ i < k, (t (i + 1) - t i) / 1000000 < 2 ^ 31)
    (hparts : ∀ j ≤ k, duration ≤ wholes t j ∨ parts t j < 1000000)
    (hwait : ∀ i < k, t (i + 1) - t i ≤ 1000000 * timeout duration t i) :
    t k - t 0 + 1000000 * timeout duration t k ≤ 1000000 * (duration + 1) := by
  induction k with
  | zero =>
    simp only [timeout]
    omega
  | succ k ih =>
    have hprev := ih (fun i hi => hmono i (by omega)) (fun i hi => hfit i (by omega))
      (fun j hj => hparts j (by omega)) (fun i hi => hwait i (by omega))
    have hlast := hwait k (by omega)
    have heq := timeout_eq hd hmono hfit
    have helapsed := elapsed_eq t (k + 1)
    by_cases hused : duration ≤ wholes t (k + 1)
    · have hzero : timeout duration t (k + 1) = 0 := by omega
      omega
    · have hsmall := (hparts (k + 1) (Nat.le_refl _)).resolve_left hused
      omega

/-- However often `poll` is interrupted, each timeout it is given is what the
time since the start leaves, and the whole wait is at most a millisecond too
long, exactly when the parts of the intervals below a millisecond add up to
less than one for as long as their whole milliseconds leave something. -/
theorem timeouts_iff (duration : Int) (t : Nat → Int) (k : Nat) (hd : 0 ≤ duration)
    (hmono : ∀ i < k, t i ≤ t (i + 1)) (hfit : ∀ i < k, (t (i + 1) - t i) / 1000000 < 2 ^ 31) :
    (timeouts duration (t 0) (interruptions t k) =
        (List.range (k + 1)).map (fun j => max 0 (duration - (t j - t 0) / 1000000)) ∧
      ((∀ i < k, ∀ timeout ∈ (timeouts duration (t 0) (interruptions t k))[i]?,
          t (i + 1) - t i ≤ 1000000 * timeout) →
        ∀ timeout ∈ (timeouts duration (t 0) (interruptions t k))[k]?,
          t k - t 0 + 1000000 * timeout ≤ 1000000 * (duration + 1))) ↔
    ∀ j ≤ k, duration ≤ wholes t j ∨ parts t j < 1000000 := by
  have hj : ∀ j ≤ k, timeout duration t j = max 0 (duration - (t j - t 0) / 1000000) ↔
      duration ≤ wholes t j ∨ parts t j < 1000000 := fun j hj =>
    timeout_eq_elapsed_iff hd (fun i hi => hmono i (by omega)) (fun i hi => hfit i (by omega))
  rw [timeouts_interruptions hd]
  constructor
  · rintro ⟨heq, -⟩ j hle
    have hget := congrArg (fun l => l[j]?) heq
    have hlt : j < k + 1 := by omega
    simp only [List.getElem?_map, List.getElem?_range hlt, Option.map_some,
      Option.some.injEq] at hget
    exact (hj j hle).mp hget
  · intro hparts
    refine ⟨?_, fun hwait => ?_⟩
    · apply List.map_congr_left
      intro j hm
      have hle : j ≤ k := by have := List.mem_range.mp hm; omega
      exact (hj j hle).mpr (hparts j hle)
    · have hk : k < k + 1 := by omega
      simp only [List.getElem?_map, List.getElem?_range hk, Option.map_some, Option.mem_def,
        Option.some.injEq, forall_eq']
      apply total_le hd hmono hfit hparts
      intro i hi
      have hlt : i < k + 1 := by omega
      exact hwait i hi _ (by simp [hlt])

/-- Two interruptions after 0.6 ms each leave the timeout as it was. -/
theorem timeout_drifts : ¬ ∀ (duration : Int) (t : Nat → Int) (k : Nat), 0 ≤ duration →
    (∀ i < k, t i ≤ t (i + 1)) → (∀ i < k, (t (i + 1) - t i) / 1000000 < 2 ^ 31) →
    timeouts duration (t 0) (interruptions t k) =
      (List.range (k + 1)).map (fun j => max 0 (duration - (t j - t 0) / 1000000)) := by
  intro h
  have ht := h 10 (fun i => 600000 * i) 2 (by decide) (by decide) (by decide)
  revert ht
  decide

theorem timeouts_eight :
    timeouts 10 0 (interruptions (fun i => 8000000 * i) 3) = [10, 2, 0, 0] := by
  have h := ((timeouts_iff 10 (fun i => 8000000 * i) 3 (by decide) (by decide) (by decide)).mpr
    (by decide)).1
  exact h.trans (by decide)

end AsyncBerkeley.Timeouts
