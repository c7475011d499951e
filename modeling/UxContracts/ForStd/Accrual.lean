import Mathlib.Algebra.Order.Field.Basic
import Mathlib.Tactic.Ring
import UxContracts.ForStd.Table

/-!
# Amounts that grow with time

An `Accrual` grows at a steady rate from the time it was last brought up to date. Bringing it up to
date does not change it as a function of time (`adjust_amount`), so a pool and the accounts that it
pools can be brought up to date one at a time, each when it is touched. `Pools` says that the pool
holds what the accounts hold together at every time; then it also grows as they do (`Pools.rate`).
-/

/-- An amount at the time `since`, and what it grows by in each unit of time. -/
structure Accrual (K : Type) where
  value : K
  rate : K
  since : K

namespace Accrual

variable {K : Type} [Field K]

def amount (a : Accrual K) (t : K) : K := a.value + a.rate * (t - a.since)

/-- The account is brought up to date, and then its amount and its rate are changed. -/
def adjust (a : Accrual K) (now value rate : K) : Accrual K :=
  ⟨a.amount now + value, a.rate + rate, now⟩

/-- An adjustment adds the value at once, and the rate from now on. -/
theorem adjust_amount (a : Accrual K) (now value rate t : K) :
    (a.adjust now value rate).amount t = a.amount t + value + rate * (t - now) := by
  simp only [adjust, Accrual.amount]
  ring

/-- At the time of its last change an account has its stored value. -/
@[simp] theorem amount_since (a : Accrual K) : a.amount a.since = a.value := by
  unfold Accrual.amount
  ring

/-- The rate is what the account grows by from time zero to time one. -/
theorem rate_eq (a : Accrual K) : a.rate = a.amount 1 - a.amount 0 := by
  unfold Accrual.amount
  ring

/-- An account that is not negative, and does not shrink, is not negative later on. -/
theorem amount_nonneg [LinearOrder K] [IsStrictOrderedRing K] {a : Accrual K} {t : K}
    (hvalue : 0 ≤ a.value) (hrate : 0 ≤ a.rate) (h : a.since ≤ t) : 0 ≤ a.amount t := by
  have hgrown : 0 ≤ a.rate * (t - a.since) := mul_nonneg hrate (sub_nonneg.mpr h)
  exact add_nonneg hvalue hgrown

end Accrual

/-! ## Pools -/

variable {K I V : Type} [Field K] [LinearOrder I]

/-- The pool holds what the accounts of the rows hold together, at every time. -/
def Pools (pool : Accrual K) (t : Table I V) (account : I → V → Accrual K) : Prop :=
  ∀ time, pool.amount time = t.sum fun k v => (account k v).amount time

namespace Pools

variable {pool : Accrual K} {t : Table I V} {account account' : I → V → Accrual K}

/-- The rate of the pool is the sum of the rates. -/
theorem rate (h : Pools pool t account) : pool.rate = t.sum fun k v => (account k v).rate := by
  rw [pool.rate_eq, h 1, h 0, ← Table.sum_sub]
  exact Table.sum_congr fun k v _ => ((account k v).rate_eq).symm

/-- The pool depends on the accounts of the rows only. -/
theorem congr (h : Pools pool t account)
    (hsame : ∀ k v, t.find? k = some v → account' k v = account k v) : Pools pool t account' := by
  intro time
  rw [h time]
  exact Table.sum_congr fun k v hv => by rw [hsame k v hv]

/-- The account of a row and the pool are adjusted together. -/
theorem adjust (h : Pools pool t account) {k : I} {v v' : V} (hv : t.find? k = some v)
    (hother : ∀ k' v, k' ≠ k → account' k' v = account k' v) {now value rate : K}
    (hk : account' k v' = (account k v).adjust now value rate) :
    Pools (pool.adjust now value rate) (t.set k v') account' := by
  intro time
  rw [Table.sum_set_of_ne t fun k' v hne => by rw [hother k' v hne], hv, Option.elim_some, hk,
    Accrual.adjust_amount, Accrual.adjust_amount, h time]
  ring

/-- An account that holds nothing and does not grow is opened. -/
theorem open_empty (h : Pools pool t account) {k : I} {v : V} (hnew : t.find? k = none)
    (hother : ∀ k' v, k' ≠ k → account' k' v = account k' v) (hvalue : (account' k v).value = 0)
    (hrate : (account' k v).rate = 0) : Pools pool (t.set k v) account' := by
  intro time
  have hzero : (account' k v).amount time = 0 := by
    unfold Accrual.amount
    rw [hvalue, hrate, zero_mul, add_zero]
  rw [Table.sum_set_of_ne t fun k' v hne => by rw [hother k' v hne], hnew, Option.elim_none, hzero,
    h time, sub_zero, add_zero]

end Pools
