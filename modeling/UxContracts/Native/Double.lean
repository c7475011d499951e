import Mathlib.Algebra.Order.Field.Rat
import Mathlib.Tactic.Common

/-!
# Floating point numbers

The contracts compute votes and inflation in `double`. Nothing that is proved about
them depends on how a `double` is rounded, so the model takes any type `F` with the
operations they use; a rational or a real reading is an instance.

A conversion to an integer truncates, and aborts on a value the integer type cannot
hold.
-/

namespace UxContracts

/-- What the contracts use of `double`. -/
class Double (F : Type) extends Add F, Sub F, Mul F, Div F, Neg F, LT F, LE F where
  decLt : DecidableLT F
  decLe : DecidableLE F
  /-- the value of an integer -/
  ofInt : Int → F
  /-- the literal `m * 10 ^ (-e)` -/
  ofDecimal : Nat → Nat → F
  /-- the integer part; there is none of an infinity or of a value that is no number -/
  trunc : F → Option Int
  pow : F → F → F
  log : F → F
  exp : F → F

namespace Double

variable {F : Type} [Double F]

instance : DecidableLT F := fun a b => Double.decLt a b

instance : DecidableLE F := fun a b => Double.decLe a b

/-- `static_cast<int64_t>`. -/
def toInt64 (x : F) : Except String Int64 :=
  match trunc x with
  | some i =>
    if -2 ^ 63 ≤ i ∧ i < 2 ^ 63 then .ok (Int64.ofInt i)
    else .error "Error, f64.convert_s/i64 overflow"
  | none => .error "Error, f64.convert_s/i64 unrepresentable"

/-- `fabs`. -/
def fabs (x : F) : F := if x < ofInt 0 then -x else x

/-- `fmin`: if one argument is no number, the other one. -/
def fmin (x y : F) : F := if y < x then y else if x ≤ y then x else if y ≤ y then y else x

/-- A successful conversion is exact. -/
theorem toInt64_eq_ok {x : F} {v : Int64} (h : toInt64 x = .ok v) : trunc x = some v.toInt := by
  unfold toInt64 at h
  split at h
  · rename_i i hi
    split at h
    · rename_i hr
      cases h
      rw [hi, Int64.toInt_ofInt_of_le hr.1 hr.2]
    · cases h
  · cases h

/-! ## The rational reading

Sums, products, quotients and comparisons are exact, and so is the integer part. The
transcendental functions are sums of finitely many terms, rounded down to twenty
decimals; the series converge well near one, where the inflation formula evaluates them. -/

namespace Rational

/-- Twenty decimals. -/
def round (x : Rat) : Rat := (x * 10 ^ 20).floor / 10 ^ 20

/-- The sum of `x ^ k / k!` for `k < n`, from the innermost bracket of Horner's scheme. -/
def expSum (x : Rat) : Nat → Nat → Rat
  | 0, _ => 1
  | n + 1, k => 1 + x / k * expSum x n (k + 1)

/-- The sum of `z ^ (2 * i) / (2 * i + k)` for `i < n`. -/
def atanhSum (z : Rat) : Nat → Nat → Rat
  | 0, _ => 0
  | n + 1, k => 1 / k + z * z * atanhSum z n (k + 2)

def exp (x : Rat) : Rat := round (expSum (round x) 24 1)

def log (x : Rat) : Rat :=
  let z := round ((x - 1) / (x + 1))
  round (2 * z * atanhSum z 40 1)

def pow (x y : Rat) : Rat := exp (y * log x)

end Rational

instance : Double Rat where
  decLt := inferInstance
  decLe := inferInstance
  ofInt i := i
  ofDecimal m e := m / 10 ^ e
  trunc x := some (Int.tdiv x.num x.den)
  pow := Rational.pow
  log := Rational.log
  exp := Rational.exp

end Double

end UxContracts
