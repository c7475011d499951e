import Mathlib.Algebra.Order.Floor.Ring
import Mathlib.Algebra.Order.Ring.Abs
import Mathlib.Data.Rat.Floor
import Mathlib.Tactic.Linarith
import UxContracts.Native.Double

/-!
# Exact readings

An `ExactReading` reads floating point numbers in an ordered ring in which sums, products and
comparisons are exact. A `FieldReading` also has exact quotients, decimals and integer parts.
Neither says anything of `pow`, `log` and `exp`. A `RoundedReading` is for a type of finite
floating point numbers, whose operations round.
-/

namespace UxContracts

/-- A reading of weights that rounds nothing. -/
structure ExactReading (F K : Type) [Double F] [CommRing K] [LinearOrder K] where
  val : F → K
  val_add : ∀ x y : F, val (x + y) = val x + val y
  val_sub : ∀ x y : F, val (x - y) = val x - val y
  val_neg : ∀ x : F, val (-x) = -val x
  val_mul : ∀ x y : F, val (x * y) = val x * val y
  val_ofInt : ∀ i : Int, val (Double.ofInt i) = i
  lt_iff : ∀ x y : F, x < y ↔ val x < val y
  le_iff : ∀ x y : F, x ≤ y ↔ val x ≤ val y

/-- Rational weights are read as they are. -/
def ExactReading.rational : ExactReading Rat Rat where
  val := id
  val_add _ _ := rfl
  val_sub _ _ := rfl
  val_neg _ := rfl
  val_mul _ _ := rfl
  val_ofInt _ := rfl
  lt_iff _ _ := Iff.rfl
  le_iff _ _ := Iff.rfl

variable {F K : Type} [Double F] [CommRing K] [LinearOrder K]

namespace ExactReading

variable (E : ExactReading F K)

theorem val_zero : E.val (Double.ofInt 0) = 0 := by
  rw [E.val_ofInt, Int.cast_zero]

theorem val_fabs [IsStrictOrderedRing K] (x : F) : E.val (Double.fabs x) = |E.val x| := by
  unfold Double.fabs
  split
  · rename_i hneg
    rw [E.lt_iff, E.val_zero] at hneg
    rw [E.val_neg, abs_of_neg hneg]
  · rename_i hneg
    rw [E.lt_iff, E.val_zero, not_lt] at hneg
    rw [abs_of_nonneg hneg]

end ExactReading

/-- A reading in a field. As in the field, a quotient by zero is zero. -/
structure FieldReading (F K : Type) [Double F] [Field K] [LinearOrder K] [FloorRing K] extends
    ExactReading F K where
  val_div : ∀ x y : F, val (x / y) = val x / val y
  val_ofDecimal : ∀ m e : Nat, val (Double.ofDecimal m e) = m / 10 ^ e
  /-- a conversion to an integer rounds towards zero -/
  trunc_eq : ∀ x : F, Double.trunc x = some (if 0 ≤ val x then ⌊val x⌋ else ⌈val x⌉)

/-- The integer part of a rational number. -/
theorem tdiv_num_den (x : Rat) : Int.tdiv x.num x.den = if 0 ≤ x then ⌊x⌋ else ⌈x⌉ := by
  split
  · rename_i hx
    rw [Int.tdiv_eq_ediv_of_nonneg (Rat.num_nonneg.mpr hx), Rat.floor_def']
  · rename_i hx
    have hneg : 0 ≤ (-x).num := Rat.num_nonneg.mpr (by linarith)
    have hceil : ⌈x⌉ = -⌊-x⌋ := by rw [Int.floor_neg, neg_neg]
    rw [hceil, Rat.floor_def', ← Int.tdiv_eq_ediv_of_nonneg hneg, Rat.neg_num, Rat.neg_den,
      Int.neg_tdiv, neg_neg]

def FieldReading.rational : FieldReading Rat Rat where
  toExactReading := .rational
  val_div _ _ := rfl
  val_ofDecimal _ _ := rfl
  trunc_eq x := congrArg some (tdiv_num_den x)

/-- A reading of finite numbers that are rounded in any monotone way. -/
structure RoundedReading (F K : Type) [Double F] [Field K] [LinearOrder K] where
  val : F → K
  round : K → K
  round_mono : Monotone round
  round_zero : round 0 = 0
  round_one : round 1 = 1
  val_ofInt : ∀ i : Int, val (Double.ofInt i) = round i
  val_ofDecimal : ∀ m e : Nat, val (Double.ofDecimal m e) = round (m / 10 ^ e)
  val_div : ∀ x y : F, val y ≠ 0 → val (x / y) = round (val x / val y)
  lt_iff : ∀ x y : F, x < y ↔ val x < val y

/-- An exact reading rounds every number to itself. -/
def FieldReading.rounded {F K : Type} [Double F] [Field K] [LinearOrder K] [FloorRing K]
    (E : FieldReading F K) : RoundedReading F K where
  val := E.val
  round := id
  round_mono := monotone_id
  round_zero := rfl
  round_one := rfl
  val_ofInt := E.val_ofInt
  val_ofDecimal := E.val_ofDecimal
  val_div x y _ := E.val_div x y
  lt_iff := E.lt_iff

end UxContracts
