import Mathlib.Algebra.BigOperators.Intervals
import Mathlib.Algebra.CharZero.Defs
import Mathlib.Algebra.Field.Basic
import Mathlib.Tactic.FieldSimp
import Mathlib.Tactic.LinearCombination
import Mathlib.Tactic.Ring

/-!
# Moving averages

The samples are numbered from one. An exponential average takes each step from its own last
value (`IsExponential`). One that takes the step from another average of the samples
(`Restarts`) is the same only if that average has taken the same steps (`Restarts.step_iff`).
-/

namespace MovingAverage

variable {K : Type} [Field K]

/-- The exponential average after one more sample. -/
def emaStep (D : Nat) (average sample : K) : K := (sample - average) * 2 / (D + 1) + average

/-- The sum of the last `D` samples, at least of sample `k` itself. -/
def windowSum (D : Nat) (u : Nat → K) (k : Nat) : K :=
  ∑ i ∈ Finset.Ico (k - (D - 1)) (k + 1), u i

/-- The averages below `n` are the means of all samples at first and exponential from `D` on. -/
structure IsExponential (D n : Nat) (u e : Nat → K) : Prop where
  mean : ∀ k, 1 ≤ k → k < n → k < D → e k = (∑ i ∈ Finset.Icc 1 k, u i) / k
  step : ∀ k, 1 ≤ k → k < n → D ≤ k → e k = emaStep D (e (k - 1)) (u k)

/-- The averages below `n` are those of `m` at first, and from `D` on each is one step away from
    `m`. -/
structure Restarts (D n : Nat) (u m e : Nat → K) : Prop where
  zero : e 0 = m 0
  start : ∀ k, 1 ≤ k → k < n → k < D → e k = m k
  step : ∀ k, 1 ≤ k → k < n → D ≤ k → e k = emaStep D (m (k - 1)) (u k)

variable {D n : Nat} {u m e : Nat → K}

/-! ## Steps -/

/-- With a limit of one, a step forgets the average. -/
theorem emaStep_one [CharZero K] (a x : K) : emaStep 1 a x = x := by
  have htwo : ((1 : Nat) : K) + 1 ≠ 0 := Nat.cast_add_one_ne_zero 1
  unfold emaStep
  field_simp
  push_cast
  ring

/-- With any other limit, different averages stay different. -/
theorem emaStep_inj [CharZero K] (hD : D ≠ 1) {a b x : K} :
    emaStep D a x = emaStep D b x ↔ a = b := by
  have hden : (D : K) + 1 ≠ 0 := Nat.cast_add_one_ne_zero D
  have hrest : (D : K) - 1 ≠ 0 := by
    rw [sub_ne_zero]
    exact_mod_cast hD
  constructor
  · intro h
    unfold emaStep at h
    field_simp at h
    have hprod : ((D : K) - 1) * (a - b) = 0 := by linear_combination h
    exact sub_eq_zero.mp ((mul_eq_zero.mp hprod).resolve_left hrest)
  · intro h
    rw [h]

/-- Before the first step the window holds all samples. -/
theorem windowSum_of_lt {k : Nat} (hk : k < D) (hzero : u 0 = 0) :
    windowSum D u k = ∑ i ∈ Finset.Icc 1 k, u i := by
  unfold windowSum
  have hfrom : k - (D - 1) = 0 := by omega
  rw [hfrom, Finset.sum_eq_sum_Ico_succ_bot (Nat.succ_pos k), hzero, zero_add]
  rfl

/-- A window of two is the last two samples. -/
theorem windowSum_two {k : Nat} (hk : 1 ≤ k) : windowSum 2 u k = u (k - 1) + u k := by
  obtain ⟨j, rfl⟩ : ∃ j, k = j + 1 := ⟨k - 1, by omega⟩
  show ∑ i ∈ Finset.Ico j (j + 2), u i = u j + u (j + 1)
  rw [Finset.sum_Ico_succ_top (Nat.le_succ j), Finset.sum_Ico_succ_top (le_refl j),
    Finset.Ico_self, Finset.sum_empty, zero_add]

/-! ## Restarted averages -/

/-- Restarted averages take exponential steps exactly if the averages that they are restarted
    from do, or if the limit is one. -/
theorem Restarts.step_iff [CharZero K] (h : Restarts D n u m e) :
    (∀ k, 1 ≤ k → k < n → D ≤ k → e k = emaStep D (e (k - 1)) (u k)) ↔
      D = 1 ∨ ∀ k, 1 ≤ k → k + 1 < n → D ≤ k → m k = emaStep D (m (k - 1)) (u k) := by
  constructor
  · intro hstep
    by_cases hD : D = 1
    · exact .inl hD
    right
    intro k hk hkn hDk
    -- the next step starts from `m k` and from `e k`, so these are equal
    have hnext := hstep (k + 1) (Nat.succ_pos k) hkn (by omega)
    rw [h.step (k + 1) (Nat.succ_pos k) hkn (by omega), emaStep_inj hD, Nat.add_sub_cancel] at hnext
    rw [hnext]
    exact h.step k hk (by omega) hDk
  · rintro (rfl | hmean) k hk hkn hDk
    · rw [h.step k hk hkn hDk, emaStep_one, emaStep_one]
    · have hprev : e (k - 1) = m (k - 1) := by
        by_cases hone : k = 1
        · rw [hone]
          exact h.zero
        by_cases hlt : k - 1 < D
        · exact h.start (k - 1) (by omega) (by omega) hlt
        · rw [h.step (k - 1) (by omega) (by omega) (by omega)]
          exact (hmean (k - 1) (by omega) (by omega) (by omega)).symm
      rw [h.step k hk hkn hDk, hprev]

end MovingAverage
