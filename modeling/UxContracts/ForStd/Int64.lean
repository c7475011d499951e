import Mathlib.Algebra.Group.Int.Defs
import Mathlib.Algebra.Group.Nat.Defs
import Mathlib.Tactic.Common

/-!
# 64-bit arithmetic read as integers

`Int64` and `UInt64` wrap around. The lemmas here say what `+`, `-` and unary `-` mean for the
integer value of the result: exact, or off by one full turn in the direction of the
overflow. They are stated as a case distinction so that `omega` can discard the
cases that a range check rules out. The bits of a `UInt32` are read one flag at a time.
-/

namespace Int64

/-- Addition is exact, or too large by `2 ^ 64`, or too small by `2 ^ 64`. -/
theorem toInt_add_cases (a b : Int64) :
    (a + b).toInt = a.toInt + b.toInt ∨
    (2 ^ 63 ≤ a.toInt + b.toInt ∧ (a + b).toInt = a.toInt + b.toInt - 2 ^ 64) ∨
    (a.toInt + b.toInt < -2 ^ 63 ∧ (a + b).toInt = a.toInt + b.toInt + 2 ^ 64) := by
  have ha := a.le_toInt
  have ha' := a.toInt_lt
  have hb := b.le_toInt
  have hb' := b.toInt_lt
  rw [Int64.toInt_add]
  simp only [Int.bmod]
  split <;> omega

/-- Subtraction is exact, or off by `2 ^ 64`. -/
theorem toInt_sub_cases (a b : Int64) :
    (a - b).toInt = a.toInt - b.toInt ∨
    (2 ^ 63 ≤ a.toInt - b.toInt ∧ (a - b).toInt = a.toInt - b.toInt - 2 ^ 64) ∨
    (a.toInt - b.toInt < -2 ^ 63 ∧ (a - b).toInt = a.toInt - b.toInt + 2 ^ 64) := by
  have ha := a.le_toInt
  have ha' := a.toInt_lt
  have hb := b.le_toInt
  have hb' := b.toInt_lt
  rw [Int64.toInt_sub]
  simp only [Int.bmod]
  split <;> omega

/-- Negation is exact except at the least value. -/
theorem toInt_neg_cases (a : Int64) :
    (-a).toInt = -a.toInt ∨ (a.toInt = -2 ^ 63 ∧ (-a).toInt = -2 ^ 63) := by
  have ha := a.le_toInt
  have ha' := a.toInt_lt
  rw [Int64.toInt_neg]
  simp only [Int.bmod]
  split <;> omega

/-- The negation of a non-negative value does not wrap. -/
theorem toInt_neg_of_nonneg {a : Int64} (h : 0 ≤ a.toInt) : (-a).toInt = -a.toInt := by
  have hcases := a.toInt_neg_cases
  omega

/-- Addition is exact when the sum is in range. -/
theorem toInt_add_of_mem {a b : Int64} (h : -2 ^ 63 ≤ a.toInt + b.toInt)
    (h' : a.toInt + b.toInt < 2 ^ 63) : (a + b).toInt = a.toInt + b.toInt := by
  rcases toInt_add_cases a b with h | h | h <;> omega

/-- Subtraction is exact when the difference is in range. -/
theorem toInt_sub_of_mem {a b : Int64} (h : -2 ^ 63 ≤ a.toInt - b.toInt)
    (h' : a.toInt - b.toInt < 2 ^ 63) : (a - b).toInt = a.toInt - b.toInt := by
  rcases toInt_sub_cases a b with h | h | h <;> omega

/-- A product is exact when it is in range. -/
theorem toInt_mul_of_mem {a b : Int64} (h : -2 ^ 63 ≤ a.toInt * b.toInt)
    (h' : a.toInt * b.toInt < 2 ^ 63) : (a * b).toInt = a.toInt * b.toInt := by
  rw [Int64.toInt_mul, Int.bmod_eq_of_le (by omega) (by omega)]

/-- A product of two numbers that are known, when it is in range. -/
theorem toInt_mul_eq {a b : Int64} {x y : Int} (ha : a.toInt = x) (hb : b.toInt = y)
    (h : -2 ^ 63 ≤ x * y) (h' : x * y < 2 ^ 63) : (a * b).toInt = x * y := by
  subst ha hb
  exact toInt_mul_of_mem h h'

/-- A number that is not negative is the same unsigned number. -/
theorem toNat_toUInt64_of_nonneg {a : Int64} (h : 0 ≤ a.toInt) :
    (a.toUInt64.toNat : Int) = a.toInt := by
  have hle : (0 : Int64) ≤ a := Int64.le_iff_toInt_le.mpr h
  rw [Int64.toNat_toUInt64_of_le hle]
  exact Int.toNat_of_nonneg h

end Int64

namespace UInt64

/-- Addition is exact when the sum is in range. -/
theorem toNat_add_of_lt' {a b : UInt64} (h : a.toNat + b.toNat < 2 ^ 64) :
    (a + b).toNat = a.toNat + b.toNat := by
  rw [UInt64.toNat_add, Nat.mod_eq_of_lt h]

/-- Subtraction is exact when it does not go below zero. -/
theorem toNat_sub_of_ge {a b : UInt64} (h : b.toNat ≤ a.toNat) :
    (a - b).toNat = a.toNat - b.toNat := by
  have hb := b.toNat_lt
  have ha := a.toNat_lt
  rw [UInt64.toNat_sub]
  omega

end UInt64

namespace UInt32

/-- Widened to 64 bits with a sign, a number is what it was. -/
theorem toInt_toInt64 (x : UInt32) : x.toUInt64.toInt64.toInt = x.toNat := by
  have hlt := x.toNat_lt
  have hnat : x.toUInt64.toBitVec.toNat = x.toNat := UInt32.toNat_toUInt64 x
  show x.toUInt64.toBitVec.toInt = _
  rw [BitVec.toInt_eq_toNat_of_lt (by omega), hnat]

/-- A bit that has been set is set. -/
theorem or_and_self (a b : UInt32) : (a ||| b) &&& b = b := by
  apply UInt32.toBitVec_inj.1
  rw [UInt32.toBitVec_and, UInt32.toBitVec_or, BitVec.and_or_distrib_right, BitVec.and_self]
  ext i hi
  simp only [BitVec.getElem_or, BitVec.getElem_and]
  cases b.toBitVec[i] <;> simp

/-- Setting other bits does not matter. -/
theorem or_and_of_disjoint {a b c : UInt32} (h : b &&& c = 0) : (a ||| b) &&& c = a &&& c := by
  apply UInt32.toBitVec_inj.1
  have h := congrArg UInt32.toBitVec h
  rw [UInt32.toBitVec_and] at h ⊢
  rw [UInt32.toBitVec_or, BitVec.and_or_distrib_right, h, UInt32.toBitVec_and]
  exact BitVec.or_zero

end UInt32

namespace Int

/-- A truncated quotient of a number that is not positive is not positive. -/
theorem tdiv_nonpos_of_nonpos {a b : Int} (ha : a ≤ 0) (hb : 0 ≤ b) : a.tdiv b ≤ 0 := by
  have h : 0 ≤ (-a).tdiv b := Int.tdiv_nonneg (by omega) hb
  rw [Int.neg_tdiv] at h
  omega

end Int
