import UxContracts.Native.Double

/-!
# IEEE doubles

The finite values of `binary64`: rational numbers that an operation rounds to 53 bits, ties to
even. The range of the exponent is not bounded, so there are no infinities and no subnormal
values, which vote weights do not come near.
-/

namespace UxContracts

structure Binary64 where
  value : Rat
deriving DecidableEq

namespace Binary64

/-! ## Rounding -/

/-- The nearest integer; between two of them, the even one. -/
def nearest (x : Rat) : Int :=
  let below := x.floor
  let rest := x - below
  if rest < 1 / 2 ∨ (rest = 1 / 2 ∧ below % 2 = 0) then below else below + 1

def power (x : Rat) : Int → Rat
  | .ofNat n => x ^ n
  | .negSucc n => 1 / x ^ (n + 1)

/-- The exponent of the last of 53 bits. -/
def lastBit (x : Rat) : Int :=
  let e := (Nat.log2 x.num.natAbs : Int) - Nat.log2 x.den - 52
  if x < power 2 (e + 52) ∧ -x < power 2 (e + 52) then e - 1 else e

def round (x : Rat) : Binary64 :=
  if x = 0 then ⟨0⟩ else ⟨nearest (x / power 2 (lastBit x)) * power 2 (lastBit x)⟩

/-! ## Operations -/

/-- The fraction of the exponent is left to the series, the rest is exact. -/
def pow (x y : Rat) : Rat := power x y.floor * Double.Rational.pow x (y - y.floor)

instance : Double Binary64 where
  add a b := round (a.value + b.value)
  sub a b := round (a.value - b.value)
  mul a b := round (a.value * b.value)
  div a b := round (a.value / b.value)
  neg a := ⟨-a.value⟩
  lt a b := a.value < b.value
  le a b := a.value ≤ b.value
  decLt a b := inferInstanceAs (Decidable (a.value < b.value))
  decLe a b := inferInstanceAs (Decidable (a.value ≤ b.value))
  ofInt i := round i
  ofDecimal m e := round (m / 10 ^ e)
  trunc x := some (Int.tdiv x.value.num x.value.den)
  pow x y := round (pow x.value y.value)
  log x := round (Double.Rational.log x.value)
  exp x := round (Double.Rational.exp x.value)

/-- The integers up to `2 ^ 53` are exact, the next one is not. -/
example : Double.ofInt (2 ^ 53) + Double.ofInt 1 = (Double.ofInt (2 ^ 53) : Binary64) := by
  decide +kernel

end Binary64

end UxContracts
