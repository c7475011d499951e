import UxContracts.Spec.ExactReading
import UxContracts.Spec.ResourceEffects

/-!
# Reported usage and the capacity of the chain

`settotalusg` and `set_total` compare the totals with what the chain can do in a day. The NET
is reported in words of eight bytes, and the bytes are counted in 64 bits, so a number of words
from `2 ^ 61` on wraps around before it is compared (`usage_within_capacity`).
-/

namespace UxContracts

namespace ResourceState

variable {F H : Type} [Double F]

/-! ## The capacity -/

omit [Double F] in
/-- The maximum of CPU does not wrap. -/
theorem systemMaxCpu_toNat (g : GlobalState F) :
    (systemMaxCpu g).toNat = g.maxBlockCpuUsage.toNat * 172800 := by
  have hlt := g.maxBlockCpuUsage.toNat_lt
  unfold systemMaxCpu
  simp only [UInt64.toNat_mul, UInt32.toNat_toUInt64, UInt64.reduceToNat]
  omega

omit [Double F] in
/-- The limit of NET is exact if the limit of a block has 32 bits. -/
theorem systemMaxNet_toNat {g : GlobalState F} (h : g.maxBlockNetUsage.toNat < 2 ^ 32) :
    (systemMaxNet g).toNat = g.maxBlockNetUsage.toNat * 172800 := by
  unfold systemMaxNet
  simp only [UInt64.toNat_mul, UInt64.reduceToNat]
  omega

/-- The totals are accepted from an oracle, or recorded in the history. -/
def AcceptsTotals [Checksum H] (s : ResourceState F H) (cpu net : UInt64) : Prop :=
  (∃ ctx source hash start r, s.settotalusg ctx source cpu net hash start = .ok r) ∨
    ∃ start s', s.setTotal cpu net start = .ok s'

/-- Accepted totals are within what the code computes as the maximum. -/
theorem AcceptsTotals.checked [Checksum H] {s : ResourceState F H} {cpu net : UInt64}
    (h : s.AcceptsTotals cpu net) :
    cpu ≤ systemMaxCpu s.sys.gstate ∧ net * 8 ≤ systemMaxNet s.sys.gstate := by
  rcases h with ⟨ctx, source, hash, start, r, h⟩ | ⟨start, s', h⟩
  · simp only [settotalusg, bind_eq_ok, check_eq_ok] at h
    obtain ⟨_, -, _, -, _, -, _, -, _, hcpu, _, hnet, -⟩ := h
    exact ⟨hcpu, hnet⟩
  · obtain ⟨k, last, sym, supply, row, -, -, hcpu, hnet, -⟩ := setTotal_cases h
    exact ⟨hcpu, hnet⟩

/-! ## Fractions -/

section

variable {K : Type} [Field K] [LinearOrder K] (R : RoundedReading F K)

/-- The fraction of a maximum has a denominator and lies between zero and one. -/
def IsUsageFraction (used max : UInt64) : Prop :=
  max ≠ 0 ∧ 0 ≤ R.val (usageRatio used max) ∧ R.val (usageRatio used max) ≤ 1

variable [IsStrictOrderedRing K]

theorem leastUsage_bounds : 0 ≤ R.val leastUsage ∧ R.val leastUsage ≤ 1 := by
  unfold leastUsage
  rw [R.val_ofDecimal]
  constructor
  · rw [← R.round_zero]
    apply R.round_mono
    positivity
  · rw [← R.round_one]
    apply R.round_mono
    norm_num

/-- Rounding does not take a quotient of unsigned numbers out of the bounds. -/
theorem ratio_bounds {used max : UInt64} (h : used ≤ max) (hmax : max ≠ 0) :
    0 ≤ R.val (Double.ofInt used.toNat / Double.ofInt max.toNat) ∧
      R.val (Double.ofInt used.toNat / Double.ofInt max.toNat) ≤ 1 := by
  -- the limit is at least one
  have hone : (1 : K) ≤ max.toNat := by
    have hpos : 1 ≤ max.toNat :=
      Nat.one_le_iff_ne_zero.mpr fun h0 => hmax (UInt64.toNat_inj.mp h0)
    exact_mod_cast hpos
  have hused : 0 ≤ R.round (used.toNat : K) := by
    rw [← R.round_zero]
    exact R.round_mono (Nat.cast_nonneg _)
  -- rounding is monotone, so the fraction is at most one
  have hle : R.round (used.toNat : K) ≤ R.round (max.toNat : K) :=
    R.round_mono (by exact_mod_cast UInt64.le_iff_toNat_le.mp h)
  have hden : 0 < R.round (max.toNat : K) := by
    have hge := R.round_mono hone
    rw [R.round_one] at hge
    linarith
  -- the quotient is rounded three times
  have hval : R.val (Double.ofInt used.toNat / Double.ofInt max.toNat) =
      R.round (R.round used.toNat / R.round max.toNat) := by
    rw [R.val_div _ _ (by rw [R.val_ofInt, Int.cast_natCast]; exact hden.ne'), R.val_ofInt,
      R.val_ofInt, Int.cast_natCast, Int.cast_natCast]
  rw [hval]
  constructor
  · rw [← R.round_zero]
    exact R.round_mono (div_nonneg hused hden.le)
  · rw [← R.round_one]
    exact R.round_mono (div_le_one_of_le₀ hle hden.le)

/-- A part of a maximum that is not zero is a fraction. -/
theorem isUsageFraction_iff {used max : UInt64} (h : used ≤ max) :
    IsUsageFraction R used max ↔ max ≠ 0 := by
  constructor
  · intro hfraction
    exact hfraction.1
  · intro hmax
    apply And.intro hmax
    simp only [usageRatio]
    split
    · exact leastUsage_bounds R
    · exact ratio_bounds R h hmax

/-! ## Acceptance -/

/-- The totals are within the limits of a day of `172800` blocks, counted without bounds, and the
    fractions of the limits that the formula uses lie between zero and one. -/
structure WithinCapacity (g : GlobalState F) (cpu net : UInt64) : Prop where
  cpuTotal : cpu.toNat ≤ g.maxBlockCpuUsage.toNat * 172800
  netTotal : net.toNat * 8 ≤ g.maxBlockNetUsage.toNat * 172800
  cpuFraction : IsUsageFraction R cpu (systemMaxCpu g)
  netFraction : IsUsageFraction R (net * 8) (systemMaxNet g)

/-- Accepted totals are within the capacity of the chain exactly if the number of NET words is
    less than `2 ^ 61` and the limits of a block are not zero. -/
theorem usage_within_capacity [Checksum H] {s : ResourceState F H} {cpu net : UInt64}
    (hlimit : s.sys.gstate.maxBlockNetUsage.toNat < 2 ^ 32) (h : s.AcceptsTotals cpu net) :
    WithinCapacity R s.sys.gstate cpu net ↔
      net.toNat < 2 ^ 61 ∧ s.sys.gstate.maxBlockCpuUsage ≠ 0 ∧
        s.sys.gstate.maxBlockNetUsage ≠ 0 := by
  -- the action compares with the limits of the system
  obtain ⟨hcpu, hnet⟩ := h.checked
  have hmaxCpu := systemMaxCpu_toNat s.sys.gstate
  have hmaxNet := systemMaxNet_toNat hlimit
  have hcpuNat := UInt64.le_iff_toNat_le.mp hcpu
  have hnetNat := UInt64.le_iff_toNat_le.mp hnet
  simp only [UInt64.toNat_mul, UInt64.reduceToNat] at hnetNat
  -- a limit of the system is zero if that of a block is
  have hzeroCpu : systemMaxCpu s.sys.gstate ≠ 0 ↔ s.sys.gstate.maxBlockCpuUsage ≠ 0 := by
    rw [ne_eq, ne_eq, ← UInt64.toNat_inj, ← UInt32.toNat_inj, hmaxCpu, UInt64.toNat_zero,
      UInt32.toNat_zero]
    omega
  have hzeroNet : systemMaxNet s.sys.gstate ≠ 0 ↔ s.sys.gstate.maxBlockNetUsage ≠ 0 := by
    rw [ne_eq, ne_eq, ← UInt64.toNat_inj, ← UInt64.toNat_inj, hmaxNet, UInt64.toNat_zero]
    omega
  rw [← hzeroCpu, ← hzeroNet]
  constructor
  · -- within the capacity the product has not wrapped
    intro hin
    have hbound := hin.netTotal
    exact ⟨by omega, hin.cpuFraction.1, hin.netFraction.1⟩
  · -- and without a wrap the checks are those of the claim
    rintro ⟨hwords, hcpu0, hnet0⟩
    refine ⟨by omega, by omega, ?_, ?_⟩
    · exact (isUsageFraction_iff R hcpu).mpr hcpu0
    · exact (isUsageFraction_iff R hnet).mpr hnet0

end

namespace Sample

open SystemState.Sample

/-- The first oracle submits a number of words. -/
theorem accepts_alice {net : UInt64}
    (h : ((Run.exec step start (setup 2)).settotalusg (ctx [alice] launch) alice 1000000 net
      "commitment".toList 1600000000).isOk = true) :
    (Run.exec step start (setup 2)).AcceptsTotals 1000000 net := by
  left
  refine ⟨ctx [alice] launch, alice, "commitment".toList, 1600000000, ?_⟩
  cases hr : (Run.exec step start (setup 2)).settotalusg (ctx [alice] launch) alice 1000000 net
      "commitment".toList 1600000000 with
  | error e =>
    rw [hr] at h
    cases h
  | ok r => exact ⟨r, rfl⟩

end Sample

open Sample in
/-- Totals of a million microseconds and two thousand words are within the capacity. -/
theorem usage_within_capacity_sample :
    WithinCapacity FieldReading.rational.rounded (Run.exec step start (setup 2)).sys.gstate
      1000000 2000 := by
  have haccepted := @accepts_alice 2000 (by decide +kernel)
  exact (usage_within_capacity FieldReading.rational.rounded (by decide +kernel) haccepted).mpr
    (by decide +kernel)

open Sample in
/-- The bytes of `2 ^ 61` words wrap around to zero, and the words are accepted. -/
theorem usage_within_capacity_wraps :
    (Run.exec step start (setup 2)).AcceptsTotals 1000000 2305843009213693952 ∧
      ¬ (2305843009213693952 : UInt64).toNat * 8 ≤
        (Run.exec step start (setup 2)).sys.gstate.maxBlockNetUsage.toNat * 172800 :=
  ⟨accepts_alice (by decide +kernel), by decide +kernel⟩

end ResourceState

end UxContracts
