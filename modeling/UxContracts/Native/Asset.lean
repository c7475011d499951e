import UxContracts.Native.Chain

/-!
# Symbols and assets

An `asset` is a signed 64-bit amount with a symbol. The arithmetic operators wrap
around in 64 bits and then check that the result is within `2 ^ 62`; the
constructor makes the same check, but an asset that arrives as an action argument
has not been checked.

The `_spec` lemmas read a successful operation as exact integer arithmetic. They
need one operand within range: a wrapped sum of such an operand never falls back
into the range.
-/

namespace UxContracts

/-! ## Symbols -/

/-- Up to seven capital letters, the first one in the lowest byte. -/
structure SymbolCode where
  raw : UInt64
deriving DecidableEq, Repr

namespace SymbolCode

instance : LinearOrder SymbolCode :=
  LinearOrder.lift' (fun c => c.raw.toNat) (by
    rintro ⟨a⟩ ⟨b⟩ h
    simpa using UInt64.toNat_inj.mp h)

/-- The symbol code literal `s`. -/
def ofString (s : String) : SymbolCode :=
  ⟨s.toList.foldr (fun c (v : UInt64) => (v <<< 8) ||| c.toNat.toUInt64) 0⟩

/-- Up to `i` letters, then only zero bytes. -/
def isValidFrom : Nat → UInt64 → Bool
  | 0, _ => true
  | i + 1, sym =>
    let c := sym &&& 0xFF
    if 65 ≤ c ∧ c ≤ 90 then
      let sym := sym >>> 8
      if sym &&& 0xFF = 0 then sym = 0 else isValidFrom i sym
    else false

def isValid (c : SymbolCode) : Bool := isValidFrom 7 c.raw

end SymbolCode

/-- A symbol code with a number of decimals. -/
structure Symbol where
  code : SymbolCode
  precision : UInt8
deriving DecidableEq, Repr

def Symbol.isValid (s : Symbol) : Bool := s.code.isValid

instance : LinearOrder Symbol :=
  LinearOrder.lift' (fun s => toLex (s.code, s.precision.toNat)) (by
    rintro ⟨a, b⟩ ⟨c, d⟩ h
    simpa [UInt8.toNat_inj] using h)

/-- The symbol of the RAM token. -/
def ramcoreSymbol : Symbol := ⟨SymbolCode.ofString "UTXRAM", 4⟩

/-! ## Assets -/

/-- An amount in the smallest unit of a token. -/
structure Asset where
  amount : Int64
  symbol : Symbol
deriving DecidableEq, Repr

namespace Asset

/-- The greatest magnitude of an asset. -/
def maxAmount : Int64 := 4611686018427387903

def isAmountWithinRange (a : Asset) : Bool := -maxAmount ≤ a.amount ∧ a.amount ≤ maxAmount

def isValid (a : Asset) : Bool := a.isAmountWithinRange && a.symbol.isValid

/-- The checking constructor. -/
def make (amount : Int64) (symbol : Symbol) : Except String Asset := do
  check (-maxAmount ≤ amount ∧ amount ≤ maxAmount)
    "magnitude of asset amount must be less than 2^62"
  check symbol.isValid "invalid symbol name"
  return ⟨amount, symbol⟩

/-- The operator `+=`. -/
def add (a b : Asset) : Except String Asset := do
  check (b.symbol = a.symbol) "attempt to add asset with different symbol"
  let amount := a.amount + b.amount
  check (-maxAmount ≤ amount) "addition underflow"
  check (amount ≤ maxAmount) "addition overflow"
  return ⟨amount, a.symbol⟩

/-- The operator `-=`. -/
def sub (a b : Asset) : Except String Asset := do
  check (b.symbol = a.symbol) "attempt to subtract asset with different symbol"
  let amount := a.amount - b.amount
  check (-maxAmount ≤ amount) "subtraction underflow"
  check (amount ≤ maxAmount) "subtraction overflow"
  return ⟨amount, a.symbol⟩

/-- The unary operator `-`. -/
def neg (a : Asset) : Asset := ⟨-a.amount, a.symbol⟩

/-- The operator `*=`: the product is taken in 128 bits. -/
def mul (a : Asset) (b : Int64) : Except String Asset := do
  let tmp := a.amount.toInt * b.toInt
  check (tmp ≤ maxAmount.toInt) "multiplication overflow"
  check (-maxAmount.toInt ≤ tmp) "multiplication underflow"
  return ⟨Int64.ofInt tmp, a.symbol⟩

/-- The comparison operators: assets of different symbols are not compared. -/
def compare (r : Int64 → Int64 → Bool) (a b : Asset) : Except String Bool := do
  check (a.symbol = b.symbol) "comparison of assets with different symbols is not allowed"
  return r a.amount b.amount

def ge (a b : Asset) : Except String Bool := compare (fun x y => y ≤ x) a b
def le (a b : Asset) : Except String Bool := compare (fun x y => x ≤ y) a b
def gt (a b : Asset) : Except String Bool := compare (fun x y => y < x) a b
def ne (a b : Asset) : Except String Bool := compare (fun x y => x ≠ y) a b

/-! ## Exact readings -/

/-- The amount is within the range that the operators check. -/
def InRange (a : Asset) : Prop := -2 ^ 62 < a.amount.toInt ∧ a.amount.toInt < 2 ^ 62

/-- The bound of an amount as an integer. -/
@[simp] theorem toInt_maxAmount : maxAmount.toInt = 4611686018427387903 := rfl

/-- The upper bound, read on the integer of the amount. -/
theorem le_maxAmount_iff {x : Int64} : x ≤ maxAmount ↔ x.toInt < 2 ^ 62 := by
  rw [Int64.le_iff_toInt_le, toInt_maxAmount]
  omega

/-- The lower bound, read on the integer of the amount. -/
theorem neg_maxAmount_le_iff {x : Int64} : -maxAmount ≤ x ↔ -2 ^ 62 < x.toInt := by
  rw [Int64.le_iff_toInt_le, show (-maxAmount).toInt = -4611686018427387903 from rfl]
  omega

/-- The source's test of the range is `InRange`. -/
theorem isAmountWithinRange_iff {a : Asset} : a.isAmountWithinRange ↔ a.InRange := by
  simp only [isAmountWithinRange, InRange, decide_eq_true_eq, le_maxAmount_iff,
    neg_maxAmount_le_iff]

/-- An asset is valid if its amount is in range and its symbol is valid. -/
theorem isValid_iff {a : Asset} : a.isValid ↔ a.InRange ∧ a.symbol.isValid := by
  rw [isValid, Bool.and_eq_true, isAmountWithinRange_iff]

/-- The constructor of an asset succeeds exactly on an amount in range and a valid symbol. -/
theorem make_eq_ok {x : Int64} {s : Symbol} {a : Asset} :
    make x s = .ok a ↔ -2 ^ 62 < x.toInt ∧ x.toInt < 2 ^ 62 ∧ s.isValid ∧ a = ⟨x, s⟩ := by
  simp only [make, check_bind_eq_ok, pure_eq_ok, le_maxAmount_iff, neg_maxAmount_le_iff, and_assoc]
  simp only [eq_comm (b := a)]

/-- The addition succeeds exactly on equal symbols and a wrapped sum in range. -/
theorem add_eq_ok {a b c : Asset} :
    a.add b = .ok c ↔ b.symbol = a.symbol ∧ -2 ^ 62 < (a.amount + b.amount).toInt ∧
      (a.amount + b.amount).toInt < 2 ^ 62 ∧ c = ⟨a.amount + b.amount, a.symbol⟩ := by
  simp only [add, check_bind_eq_ok, pure_eq_ok, le_maxAmount_iff, neg_maxAmount_le_iff]
  simp only [eq_comm (b := c)]

/-- The subtraction succeeds exactly on equal symbols and a wrapped difference in range. -/
theorem sub_eq_ok {a b c : Asset} :
    a.sub b = .ok c ↔ b.symbol = a.symbol ∧ -2 ^ 62 < (a.amount - b.amount).toInt ∧
      (a.amount - b.amount).toInt < 2 ^ 62 ∧ c = ⟨a.amount - b.amount, a.symbol⟩ := by
  simp only [sub, check_bind_eq_ok, pure_eq_ok, le_maxAmount_iff, neg_maxAmount_le_iff]
  simp only [eq_comm (b := c)]

/-- A successful addition to an amount in range is exact and in range. -/
theorem add_spec {a b c : Asset} (h : a.add b = .ok c) (ha : a.InRange) :
    b.symbol = a.symbol ∧ c.symbol = a.symbol ∧ c.InRange ∧
      c.amount.toInt = a.amount.toInt + b.amount.toInt := by
  obtain ⟨hs, hlo, hhi, rfl⟩ := add_eq_ok.mp h
  have hb := b.amount.le_toInt
  have hb' := b.amount.toInt_lt
  refine ⟨hs, rfl, ⟨hlo, hhi⟩, ?_⟩
  have hcases := Int64.toInt_add_cases a.amount b.amount
  unfold InRange at ha
  simp only
  omega

/-- A successful subtraction from an amount in range is exact and in range. -/
theorem sub_spec {a b c : Asset} (h : a.sub b = .ok c) (ha : a.InRange) :
    b.symbol = a.symbol ∧ c.symbol = a.symbol ∧ c.InRange ∧
      c.amount.toInt = a.amount.toInt - b.amount.toInt := by
  obtain ⟨hs, hlo, hhi, rfl⟩ := sub_eq_ok.mp h
  have hb := b.amount.le_toInt
  have hb' := b.amount.toInt_lt
  refine ⟨hs, rfl, ⟨hlo, hhi⟩, ?_⟩
  have hcases := Int64.toInt_sub_cases a.amount b.amount
  unfold InRange at ha
  simp only
  omega

/-- An addition of one symbol whose exact sum is in range succeeds. -/
theorem add_of_inRange {a b : Asset} (hs : b.symbol = a.symbol)
    (hlo : -2 ^ 62 < a.amount.toInt + b.amount.toInt)
    (hhi : a.amount.toInt + b.amount.toInt < 2 ^ 62) :
    a.add b = .ok ⟨a.amount + b.amount, a.symbol⟩ := by
  have hsum := Int64.toInt_add_of_mem (a := a.amount) (b := b.amount) (by omega) (by omega)
  exact add_eq_ok.mpr ⟨hs, by omega, by omega, rfl⟩

/-- A subtraction of one symbol whose exact difference is in range succeeds. -/
theorem sub_of_inRange {a b : Asset} (hs : b.symbol = a.symbol)
    (hlo : -2 ^ 62 < a.amount.toInt - b.amount.toInt)
    (hhi : a.amount.toInt - b.amount.toInt < 2 ^ 62) :
    a.sub b = .ok ⟨a.amount - b.amount, a.symbol⟩ := by
  have hdiff := Int64.toInt_sub_of_mem (a := a.amount) (b := b.amount) (by omega) (by omega)
  exact sub_eq_ok.mpr ⟨hs, by omega, by omega, rfl⟩

/-- The messages of the range checks of `+=` and `-=`. -/
def rangeErrors : List String :=
  ["addition underflow", "addition overflow", "subtraction underflow", "subtraction overflow"]

/-- An addition fails on the symbol or in the range check. -/
theorem add_eq_error {a b : Asset} {e : String} (h : a.add b = .error e) :
    (b.symbol ≠ a.symbol ∧ e = "attempt to add asset with different symbol") ∨
    ¬ (-2 ^ 62 < a.amount.toInt + b.amount.toInt ∧ a.amount.toInt + b.amount.toInt < 2 ^ 62) := by
  by_cases hs : b.symbol = a.symbol
  · refine .inr fun hr => ?_
    rw [add_of_inRange hs hr.1 hr.2] at h
    cases h
  · simp only [add, check_bind_eq_error] at h
    exact .inl (h.resolve_right fun h' => hs h'.1)

/-- A subtraction fails on the symbol or in the range check. -/
theorem sub_eq_error {a b : Asset} {e : String} (h : a.sub b = .error e) :
    (b.symbol ≠ a.symbol ∧ e = "attempt to subtract asset with different symbol") ∨
    ¬ (-2 ^ 62 < a.amount.toInt - b.amount.toInt ∧ a.amount.toInt - b.amount.toInt < 2 ^ 62) := by
  by_cases hs : b.symbol = a.symbol
  · refine .inr fun hr => ?_
    rw [sub_of_inRange hs hr.1 hr.2] at h
    cases h
  · simp only [sub, check_bind_eq_error] at h
    exact .inl (h.resolve_right fun h' => hs h'.1)

/-- A comparison succeeds exactly on equal symbols. -/
theorem compare_eq_ok {r : Int64 → Int64 → Bool} {a b : Asset} {v : Bool} :
    compare r a b = .ok v ↔ a.symbol = b.symbol ∧ v = r a.amount b.amount := by
  simp only [compare, check_bind_eq_ok, pure_eq_ok]
  simp only [eq_comm (b := v)]

/-- The multiplication is checked in 128 bits, so its product is exact. -/
theorem mul_eq_ok {a c : Asset} {b : Int64} :
    a.mul b = .ok c ↔ a.amount.toInt * b.toInt ≤ 4611686018427387903 ∧
      -4611686018427387903 ≤ a.amount.toInt * b.toInt ∧
      c = ⟨Int64.ofInt (a.amount.toInt * b.toInt), a.symbol⟩ := by
  simp only [mul, check_bind_eq_ok, pure_eq_ok]
  simp only [toInt_maxAmount, eq_comm (b := c)]

end Asset

end UxContracts
