import UxContracts.Spec.PeriodChange
import Mathlib.Algebra.Order.Field.Rat
import Mathlib.Tactic.Linarith

/-!
# The pool of the users

The tokens for users of a period are split among the accounts of the data sets that are
distributed in it, each entry getting the part that its CPU is of the agreed total. The
contract checks the CPU of each oracle's data sets against what this oracle has declared,
but different data sets may be settled by different oracles, so together they can exceed
the total (`pool_overdrawn`). The pool is solvent in every run in which what is
distributed in a period fits into the agreed total (`utility_pool_solvent`).

A part is computed in floating point; here it is taken to be exact before it is truncated
(`ExactShares`).
-/

namespace UxContracts

/-- The quotient of a product is exact before it is truncated. -/
def Double.ExactShares (F : Type) [Double F] : Prop :=
  ∀ a b c : Int, 0 < c →
    Double.trunc (Double.ofInt a / Double.ofInt c * Double.ofInt b : F) = some ((a * b).tdiv c)

/-- The rational reading is exact. -/
theorem Double.exactShares_rat : Double.ExactShares Rat := by
  intro a b c hc
  show some _ = some _
  congr 1
  generalize hx : ((a : Rat) / (c : Rat) * (b : Rat)) = x
  have hc0 : (c : Rat) ≠ 0 := by exact_mod_cast hc.ne'
  have hcross : x.num * c = a * b * x.den := by
    have hd0 : (x.den : Rat) ≠ 0 := by exact_mod_cast x.den_nz
    have hq : (x.num : Rat) / x.den = a / c * b := by rw [Rat.num_div_den, hx]
    rw [div_mul_eq_mul_div, div_eq_div_iff hd0 hc0] at hq
    exact_mod_cast hq
  have hden : 0 < (x.den : Int) := by exact_mod_cast x.den_pos
  calc x.num.tdiv x.den = (x.num * c).tdiv (x.den * c) := (Int.mul_tdiv_mul_of_pos_left _ _ hc).symm
    _ = (a * b * x.den).tdiv (c * x.den) := by rw [hcross, mul_comm (x.den : Int) c]
    _ = (a * b).tdiv c := Int.mul_tdiv_mul_of_pos_left _ _ hden

/-- The amount of a row of `resaccpay`. -/
def AccountPay.amount (pay : AccountPay) : Int := pay.balance.amount.toInt

/-- The CPU of a data set. -/
def cpuOf (data : List Metric) : Nat := (data.map fun m => m.u.toNat).sum

/-- The CPU of all data sets that have been distributed in the period. -/
def PeriodRecord.distributedCpu (r : PeriodRecord) : Nat :=
  (r.credited.map fun c => cpuOf c.data).sum

namespace ResourceState

variable {F H : Type}

/-- What all accounts can claim. -/
def accountTotal (accpay : Table Name AccountPay) : Int :=
  accpay.sumOn (fun _ => True) AccountPay.amount

/-- All claims are on proper amounts of one symbol. -/
def AccountRows (sym : Symbol) (accpay : Table Name AccountPay) : Prop :=
  ∀ a pay, accpay.find? a = some pay → pay.balance.symbol = sym ∧ pay.balance.InRange

/-! ## Paying a data set -/

/-- A truncated part of the pool, multiplied by the total, is at most the part times the
    pool. -/
theorem share_mul_le {a b c : Int} (ha : 0 ≤ a) (hc : 0 < c) : (a * b).tdiv c * c ≤ a * max b 0 := by
  rcases le_or_gt 0 b with hb | hb
  · rw [max_eq_left hb, Int.tdiv_eq_ediv_of_nonneg (mul_nonneg ha hb)]
    exact Int.ediv_mul_le _ hc.ne'
  · have hab : a * b ≤ 0 := mul_nonpos_of_nonneg_of_nonpos ha hb.le
    have hq := Int.tdiv_nonpos_of_nonpos hab hc.le
    rw [max_eq_right hb.le, mul_zero]
    exact mul_nonpos_of_nonpos_of_nonneg hq hc.le

variable [Double F]

/-- The accounts of a data set get at most the part of the pool that the CPU of the data set
    is of the total. -/
theorem payAccounts_spec (hexact : Double.ExactShares F) {total : UInt64} (htotal : 0 < total.toNat)
    {pool : Int64} {sym : Symbol} {start : TimePointSec} {data : List Metric}
    {t t' : Table Name AccountPay} (hrows : AccountRows sym t)
    (h : payAccounts (F := F) total pool sym start t data = .ok t') :
    AccountRows sym t' ∧
      (accountTotal t' - accountTotal t) * total.toNat ≤ cpuOf data * max pool.toInt 0 := by
  induction data generalizing t with
  | nil =>
    cases h
    refine ⟨hrows, ?_⟩
    rw [sub_self, zero_mul]
    exact le_of_eq (by simp [cpuOf])
  | cons m data ih =>
    simp only [payAccounts, bind_eq_ok] at h
    obtain ⟨claim, hclaim, payout, hpayout, h⟩ := h
    obtain ⟨hpamt, hpsym, hpr⟩ := Asset.make_spec hpayout
    have htrunc := Double.toInt64_eq_ok hclaim
    rw [hexact _ _ _ (by exact_mod_cast htotal), Option.some.injEq] at htrunc
    have hshare := share_mul_le (b := pool.toInt) (Int.natCast_nonneg m.u.toNat)
      (c := total.toNat) (by exact_mod_cast htotal)
    rw [htrunc, ← hpamt] at hshare
    -- the new row of the account, whether there was one before or not
    obtain ⟨pay, hpay, hamt, h⟩ : ∃ pay : AccountPay,
        (pay.balance.symbol = sym ∧ pay.balance.InRange) ∧
        pay.amount = t.valueAt m.a AccountPay.amount + payout.amount.toInt ∧
        payAccounts (F := F) total pool sym start (t.set m.a pay) data = .ok t' := by
      cases hfind : t.find? m.a with
      | none =>
        simp only [hfind] at h
        refine ⟨⟨payout, start⟩, ⟨hpsym, hpr⟩, ?_, h⟩
        rw [Table.valueAt_none hfind, zero_add]
        rfl
      | some old =>
        simp only [hfind, bind_eq_ok] at h
        obtain ⟨balance, hadd, h⟩ := h
        obtain ⟨hos, hor⟩ := hrows m.a old hfind
        obtain ⟨-, hbs, hbr, hbeq⟩ := Asset.add_spec hadd hor
        refine ⟨⟨balance, start⟩, ⟨hbs.trans hos, hbr⟩, ?_, h⟩
        rw [Table.valueAt_some hfind]
        exact hbeq
    -- the rows are still good
    have hrows₁ : AccountRows sym (t.set m.a pay) := by
      intro a p hp
      rw [Table.find?_set] at hp
      split at hp
      · cases hp
        exact hpay
      · exact hrows a p hp
    obtain ⟨hrows', hle⟩ := ih hrows₁ h
    -- and their total has grown by the payout
    have hset : accountTotal (t.set m.a pay) = accountTotal t + payout.amount.toInt := by
      rw [accountTotal, Table.sumOn_set, if_pos trivial, hamt, accountTotal]
      omega
    have hcpu : (cpuOf (m :: data) : Int) = m.u.toNat + cpuOf data := by
      simp [cpuOf]
    refine ⟨hrows', ?_⟩
    rw [hset] at hle
    rw [hcpu]
    linarith

/-! ## The record of the pool -/

/-- What has been paid into the pool and out of it. -/
structure PoolRecord where
  period : PeriodRecord
  /-- what issuances have transferred to `eosio.upay` -/
  transferred : Int
  /-- what `claimdistrib` has paid -/
  paid : Int
  /-- what has been transferred in the open period -/
  periodTransferred : Int
  /-- what has been credited in the open period -/
  periodCredited : Int

def PoolRecord.empty : PoolRecord := ⟨.empty, 0, 0, 0, 0⟩

/-- The action opens the next period. -/
def isNext : ResourceAction F H → Bool
  | .nextperiod => true
  | _ => false

/-- The core tokens that an issuance has transferred to `eosio.upay`. -/
def transferredBy (s : ResourceState F H) (call : ResourceCall F H) (s' : ResourceState F H) :
    Int :=
  if issues s call s' then s'.coreBalance upayAccount - s.coreBalance upayAccount else 0

/-- The core tokens that `eosio.upay` has paid to an account that claims. -/
def paidBy (s : ResourceState F H) (call : ResourceCall F H) (s' : ResourceState F H) : Int :=
  if (payee call.action).isSome then s.coreBalance upayAccount - s'.coreBalance upayAccount else 0

/-- What accounts have been credited with. -/
def creditedBy (s : ResourceState F H) (call : ResourceCall F H) (s' : ResourceState F H) : Int :=
  match call.action with
  | .addactusg .. => accountTotal s'.accpay - accountTotal s.accpay
  | _ => 0

variable [Checksum H]

def recordPool (r : PoolRecord) (s : ResourceState F H) (call : ResourceCall F H)
    (s' : ResourceState F H) : PoolRecord where
  period := recordPeriod r.period s call s'
  transferred := r.transferred + transferredBy s call s'
  paid := r.paid + paidBy s call s'
  periodTransferred :=
    if isNext call.action then 0 else r.periodTransferred + transferredBy s call s'
  periodCredited := if isNext call.action then 0 else r.periodCredited + creditedBy s call s'

/-- The agreed CPU total of the last issuance. -/
def agreedCpu (s : ResourceState F H) : Nat := s.history.last?.elim 0 fun r => r.2.totalCpuUs.toNat

/-- The data set that an accepted call distributes, with what has been distributed in the
    period already, fits into the agreed total. -/
def FitsTotal (s : ResourceState F H) (r : PeriodRecord) (call : ResourceCall F H) : Prop :=
  match s.step call, s.dueCredit call with
  | .ok _, some c =>
    c.data = [] ∨ 0 < s.agreedCpu ∧ r.distributedCpu + cpuOf c.data ≤ s.agreedCpu
  | _, _ => True

instance (s : ResourceState F H) (r : PeriodRecord) (call : ResourceCall F H) :
    Decidable (FitsTotal s r call) := by
  unfold FitsTotal
  split <;> infer_instance

/-! ## The invariant -/

/-- What has been credited in a period in which inflation has been transferred. -/
structure OpenPool (s : ResourceState F H) (r : PoolRecord) (last : UsageHistory F) : Prop where
  fits : r.period.distributedCpu ≤ last.totalCpuUs.toNat
  transferred : r.periodTransferred = max last.utilityTokens.amount.toInt 0
  /-- what is credited is at most the part that the distributed CPU is of the total -/
  credited : r.periodCredited ≤ r.period.distributedCpu * max last.utilityTokens.amount.toInt 0 /
    last.totalCpuUs.toNat

/-- The invariant of the pool, next to the record of it. -/
structure PoolInv (s : ResourceState F H) (r : PoolRecord) : Prop where
  core : s.sys.CoreToken
  uninit : s.sys.rammarket = none → s.accpay = ∅
  rows : AccountRows s.sys.coreSym s.accpay
  unset : s.history = ∅ → s.getConfig.inflationTransferred = false
  closed : s.getConfig.inflationTransferred = false → r.period.credited = [] ∧
    r.periodTransferred = 0 ∧ r.periodCredited = 0
  opened : s.getConfig.inflationTransferred = true →
    ∃ k last, s.history.last? = some (k, last) ∧ OpenPool s r last
  solvent : accountTotal s.accpay + r.paid + r.periodTransferred ≤
    r.transferred + r.periodCredited

omit [Double F] [Checksum H] in
theorem OpenPool.le {s : ResourceState F H} {r : PoolRecord} {last : UsageHistory F}
    (h : OpenPool s r last) : r.periodCredited ≤ r.periodTransferred := by
  rw [h.transferred]
  refine h.credited.trans ?_
  rcases Nat.eq_zero_or_pos last.totalCpuUs.toNat with hzero | hpos
  · rw [hzero, Nat.cast_zero, Int.ediv_zero]
    exact le_max_right _ _
  · have hmul : (r.period.distributedCpu : Int) * max last.utilityTokens.amount.toInt 0 ≤
        last.totalCpuUs.toNat * max last.utilityTokens.amount.toInt 0 :=
      mul_le_mul_of_nonneg_right (by exact_mod_cast h.fits) (le_max_right _ _)
    refine (Int.ediv_le_ediv (by exact_mod_cast hpos) hmul).trans (le_of_eq ?_)
    exact Int.mul_ediv_cancel_left _ (by exact_mod_cast hpos.ne')

omit [Checksum H] in
/-- No more has been credited in the open period than has been transferred. -/
theorem PoolInv.credited_le {s : ResourceState F H} {r : PoolRecord} (hI : PoolInv s r) :
    r.periodCredited ≤ r.periodTransferred := by
  cases htr : s.getConfig.inflationTransferred with
  | false =>
    obtain ⟨-, ht, hc⟩ := hI.closed htr
    omega
  | true =>
    obtain ⟨k, last, -, hopen⟩ := hI.opened htr
    exact hopen.le

omit [Checksum H] in
theorem genesis_poolInv (maxBlockNetUsage : UInt64) (maxBlockCpuUsage : UInt32) :
    PoolInv (genesis maxBlockNetUsage maxBlockCpuUsage : ResourceState F H) .empty where
  core := SystemState.genesis_coreToken _ _
  uninit := fun _ => rfl
  rows := fun a pay ha => by
    have hnone : (∅ : Table Name AccountPay).find? a = some pay := ha
    rw [Table.find?_empty] at hnone
    cases hnone
  unset := fun _ => rfl
  closed := fun _ => ⟨rfl, rfl, rfl⟩
  opened := fun h => nomatch h
  solvent := le_refl _

/-! ## One step -/

omit [Double F] [Checksum H] in
/-- A call that reports nothing issues nothing. -/
theorem issues_of_quiet {s s' : ResourceState F H} {call : ResourceCall F H}
    (h : isReport call.action = false) : issues s call s' = false := by
  obtain ⟨ctx, action⟩ := call
  cases action with
  | settotalusg => cases h
  | _ => rfl

omit [Double F] [Checksum H] in
/-- A call that reports nothing credits nobody. -/
theorem creditedBy_of_quiet {s s' : ResourceState F H} {call : ResourceCall F H}
    (h : isReport call.action = false) : creditedBy s call s' = 0 := by
  obtain ⟨ctx, action⟩ := call
  cases action with
  | addactusg => cases h
  | _ => rfl

omit [Double F] [Checksum H] in
theorem isNext_of_quiet {action : ResourceAction F H} (h : isReport action = false) :
    isNext action = false := by
  cases action with
  | nextperiod => cases h
  | _ => rfl

/-- A quiet call records at most a payment. -/
theorem recordPool_of_quiet {r : PoolRecord} {s s' : ResourceState F H} {call : ResourceCall F H}
    (h : isReport call.action = false) :
    recordPool r s call s' = { r with paid := r.paid + paidBy s call s' } := by
  have htransferred : transferredBy s call s' = 0 := by
    unfold transferredBy
    rw [issues_of_quiet h]
    rfl
  unfold recordPool
  rw [recordPeriod_of_quiet h, htransferred, creditedBy_of_quiet h, isNext_of_quiet h]
  simp

/-- What a call to `claimdistrib` pays is what the account can claim no longer. -/
theorem paidBy_claim {s s' : ResourceState F H} {call : ResourceCall F H}
    (hI : s.sys.token.Inv) (hrows : AccountRows s.sys.coreSym s.accpay) {account : Name}
    (hpayee : payee call.action = some account) (h : s.step call = .ok s') :
    s'.accpay = s.accpay.erase account ∧ s'.sys.coreSym = s.sys.coreSym ∧
      s'.sys.rammarket = s.sys.rammarket ∧
      accountTotal s'.accpay + paidBy s call s' = accountTotal s.accpay := by
  obtain ⟨ctx, action⟩ := call
  cases action with
  | claimdistrib account' =>
    cases hpayee
    obtain ⟨u, sends, token, hr, hrun, rfl⟩ := commit_eq_ok.mp h
    obtain ⟨pay, hpay, rfl, rfl⟩ := claimdistrib_spec hr
    obtain ⟨hsym, -⟩ := hrows account pay hpay
    refine ⟨rfl, rfl, rfl, ?_⟩
    have hpaid := SystemState.runInline_payment hI hrun
    rw [hsym] at hpaid
    have herase : accountTotal (s.accpay.erase account) = accountTotal s.accpay - pay.amount := by
      rw [accountTotal, Table.sumOn_erase, if_pos trivial, Table.valueAt_some hpay, accountTotal]
    show accountTotal (s.accpay.erase account) +
      (s.sys.token.balance upayAccount s.sys.coreSym.code -
        token.balance upayAccount s.sys.coreSym.code) = _
    rw [herase, hpaid]
    unfold AccountPay.amount
    omega
  | _ => cases hpayee

/-- The rows are proper after a call that has not changed them. -/
theorem PoolInv.keepRows {s s' : ResourceState F H} {r : PoolRecord} {call : ResourceCall F H}
    (hI : PoolInv s r) (h : s.step call = .ok s') (hsame : s'.accpay = s.accpay) :
    (s'.sys.rammarket = none → s'.accpay = ∅) ∧ AccountRows s'.sys.coreSym s'.accpay := by
  rw [hsame]
  cases step_coreSym hI.core h with
  | inl hnone =>
    rw [hI.uninit hnone]
    refine ⟨fun _ => rfl, fun a pay ha => ?_⟩
    rw [Table.find?_empty] at ha
    cases ha
  | inr hmarket =>
    rw [hmarket.1]
    exact ⟨fun hm => absurd hm hmarket.2, hI.rows⟩

/-- A call that is no report: accounts may be paid what they can claim. -/
theorem PoolInv.quiet {s s' : ResourceState F H} {r : PoolRecord} {call : ResourceCall F H}
    (hI : PoolInv s r) (h : s.step call = .ok s') (hquiet : isReport call.action = false)
    (hhist : s'.history = s.history)
    (htransferred : s'.getConfig.inflationTransferred = s.getConfig.inflationTransferred)
    (haccpay : payee call.action = none → s'.accpay = s.accpay) :
    PoolInv s' (recordPool r s call s') := by
  have hcore := step_coreToken hI.core h
  rw [recordPool_of_quiet hquiet]
  -- the calls without a report leave what the pool is about
  have hunset : s'.history = ∅ → s'.getConfig.inflationTransferred = false := by
    rw [hhist, htransferred]
    exact hI.unset
  have hclosed := hI.closed
  have hopened := hI.opened
  have hsolvent := hI.solvent
  rw [← htransferred] at hclosed hopened
  have hopened' : s'.getConfig.inflationTransferred = true → ∃ k last,
      s'.history.last? = some (k, last) ∧
        OpenPool s' { r with paid := r.paid + paidBy s call s' } last := by
    intro htr
    obtain ⟨k, last, hlast, hopen⟩ := hopened htr
    rw [hhist]
    exact ⟨k, last, hlast, hopen.fits, hopen.transferred, hopen.credited⟩
  cases hpayee : payee call.action with
  -- nobody is paid
  | none =>
    obtain ⟨huninit, hrows⟩ := hI.keepRows h (haccpay hpayee)
    refine ⟨hcore, huninit, hrows, hunset, hclosed, hopened', ?_⟩
    have hpaid : paidBy s call s' = 0 := by
      unfold paidBy
      rw [hpayee]
      rfl
    simp only [hpaid, haccpay hpayee]
    omega
  | some account =>
    -- a claim erases the row of what it pays
    obtain ⟨herase, hsym, hmarket, htotal⟩ := paidBy_claim hI.core.token hI.rows hpayee h
    refine ⟨hcore, fun hm => ?_, ?_, hunset, hclosed, hopened', ?_⟩
    · rw [hmarket] at hm
      refine Table.ext_find? fun a => ?_
      rw [herase, hI.uninit hm, Table.find?_erase, Table.find?_empty, ite_self]
    · rw [herase, hsym]
      intro a pay ha
      rw [Table.find?_erase] at ha
      split at ha
      · cases ha
      · exact hI.rows a pay ha
    · -- what the row had is now counted as paid
      show accountTotal s'.accpay + (r.paid + paidBy s call s') + r.periodTransferred ≤
        r.transferred + r.periodCredited
      omega

/-- A report of totals: an issuance opens the pool of the period. -/
theorem PoolInv.totals {s s' : ResourceState F H} {r : PoolRecord} {call : ResourceCall F H}
    (hI : PoolInv s r) (h : s.step call = .ok s') {source : Name} {cpu net : UInt64} {hash : H}
    {start : TimePointSec} (haction : call.action = .settotalusg source cpu net hash start)
    (haccpay : s'.accpay = s.accpay) (hout : TotalsOutcome s call s') :
    PoolInv s' (recordPool r s call s') := by
  have hcore := step_coreToken hI.core h
  obtain ⟨huninit, hrows⟩ := hI.keepRows h haccpay
  have hsolvent := hI.solvent
  -- totals may transfer, but do not credit
  have hr : recordPool r s call s' = { r with
      period := recordPeriod r.period s call s'
      transferred := r.transferred + transferredBy s call s'
      periodTransferred := r.periodTransferred + transferredBy s call s' } := by
    unfold recordPool paidBy creditedBy
    rw [haction]
    simp [isNext, payee]
  have hcredited : (recordPeriod r.period s call s').credited = r.period.credited := by
    rw [recordPeriod_totals haction]
  have hcpu : (recordPeriod r.period s call s').distributedCpu = r.period.distributedCpu := by
    unfold PeriodRecord.distributedCpu
    rw [hcredited]
  rw [hr]
  cases hout with
  | «open» hhist hnoIssue htransferred hdis =>
    -- without an issuance the pool gets nothing
    have hzero : transferredBy s call s' = 0 := by
      unfold transferredBy
      rw [hnoIssue]
      rfl
    rw [hzero, add_zero, add_zero]
    refine ⟨hcore, huninit, hrows, ?_, fun htr => ?_, fun htr => ?_, ?_⟩
    · rw [hhist, htransferred]
      exact hI.unset
    · rw [htransferred] at htr
      rw [hcredited]
      exact hI.closed htr
    · rw [htransferred] at htr
      obtain ⟨k, last, hlast, hopen⟩ := hI.opened htr
      rw [hhist]
      refine ⟨k, last, hlast, ?_, hopen.transferred, ?_⟩
      · rw [hcpu]
        exact hopen.fits
      · rw [hcpu]
        exact hopen.credited
    · rw [haccpay]
      exact hsolvent
  | issued modal modeCount d cpu' net' rest sends k last row sym inflation hwas htransferred
      hagreed hdata hiss hrun hsys hone =>
    obtain ⟨hnil, hpt, hpc⟩ := hI.closed hwas
    have hsym := SystemState.coreSym_of_ok hiss.coreSymbol
    have hsame : s'.sys.coreSym = s.sys.coreSym := by
      rw [hsys]
      rfl
    rw [hiss.sends_eq] at hrun
    obtain ⟨-, -, hupay⟩ := SystemState.inflationSends_effect hI.core.token hiss.inflation_symbol
      hiss.tokens.bppay_symbol hiss.tokens.utility_symbol hrun
    -- the pool gets the part of the users, and nobody has been credited since the round began
    have hmoved : transferredBy s call s' = max row.utilityTokens.amount.toInt 0 := by
      unfold transferredBy coreBalance
      rw [if_pos hone, hsame, ← hsym, hupay]
      omega
    -- the new row is the last one
    have hlast := Table.last?_set_succ row hiss.lastRow
    rw [← hiss.history_eq] at hlast
    -- and nothing has been distributed of it
    have hdistributed : r.period.distributedCpu = 0 := by
      unfold PeriodRecord.distributedCpu
      rw [hnil]
      rfl
    refine ⟨hcore, huninit, hrows, fun hempty => ?_, fun htr => ?_, fun _ => ?_, ?_⟩
    · rw [hempty] at hlast
      cases hlast
    · rw [htransferred] at htr
      cases htr
    · refine ⟨k + 1, row, hlast, ?_, ?_, ?_⟩
      · -- nothing is within any total
        rw [hcpu, hdistributed]
        exact Nat.zero_le _
      · rw [hpt, hmoved, zero_add]
      · rw [hpc, hcpu, hdistributed, Nat.cast_zero, zero_mul, Int.zero_ediv]
    · rw [haccpay]
      show accountTotal s.accpay + r.paid + (r.periodTransferred + transferredBy s call s') ≤
        r.transferred + transferredBy s call s' + r.periodCredited
      omega

/-- A data set: what is credited is at most its part of the pool. -/
theorem PoolInv.dataset (hexact : Double.ExactShares F) {s s' : ResourceState F H}
    {r : PoolRecord} {call : ResourceCall F H} (hI : PoolInv s r)
    (hfits : FitsTotal s r.period call) (h : s.step call = .ok s') {source : Name}
    {datasetId : UInt16} {data : List Metric} {start : TimePointSec}
    (haction : call.action = .addactusg source datasetId data start)
    (htransferred : s.getConfig.inflationTransferred = true)
    (hstill : s'.getConfig.inflationTransferred = true) (hhist : s'.history = s.history)
    (hsys : s'.sys = s.sys)
    (hout : (s.dueCredit call = none ∧ s'.accpay = s.accpay) ∨
      ∃ c, s.dueCredit call = some c ∧ Credits s s' start c.data) :
    PoolInv s' (recordPool r s call s') := by
  have hcore := step_coreToken hI.core h
  have hsolvent := hI.solvent
  obtain ⟨k, last, hlast, hopen⟩ := hI.opened htransferred
  -- a data set may credit, but does not transfer
  have hr : recordPool r s call s' = { r with
      period := recordPeriod r.period s call s'
      periodCredited := r.periodCredited + (accountTotal s'.accpay - accountTotal s.accpay) } := by
    unfold recordPool transferredBy paidBy creditedBy issues
    rw [haction]
    simp [isNext, payee]
  have hcredited : (recordPeriod r.period s call s').credited =
      r.period.credited ++ (s.dueCredit call).toList := by
    rw [recordPeriod_dataset haction]
  rw [hr]
  -- the new rows, and what they have been credited with
  obtain ⟨hrows, huninit, hle, hcpu⟩ : AccountRows s.sys.coreSym s'.accpay ∧
      (s.sys.rammarket = none → s'.accpay = ∅) ∧
      r.periodCredited + (accountTotal s'.accpay - accountTotal s.accpay) ≤
        (recordPeriod r.period s call s').distributedCpu *
          max last.utilityTokens.amount.toInt 0 / last.totalCpuUs.toNat ∧
      (recordPeriod r.period s call s').distributedCpu ≤ last.totalCpuUs.toNat := by
    unfold PeriodRecord.distributedCpu
    rw [hcredited]
    -- nothing is due, or a data set is
    rcases hout with ⟨hnone, hsame⟩ | ⟨c, hsome, k', last', sym, hlast', hsym, hpay⟩
    · rw [hnone, Option.toList_none, List.append_nil, hsame, sub_self, add_zero]
      exact ⟨hI.rows, hI.uninit, hopen.credited, hopen.fits⟩
    · rw [hlast, Option.some.injEq, Prod.mk.injEq] at hlast'
      obtain ⟨-, rfl⟩ := hlast'
      have hcore := SystemState.coreSym_of_ok hsym
      -- a payment needs the core symbol
      have huninit : s.sys.rammarket = none → s'.accpay = ∅ := by
        intro hm
        have hsome := SystemState.rammarket_isSome_of_ok hsym
        rw [hm] at hsome
        cases hsome
      unfold FitsTotal at hfits
      simp only [h, hsome] at hfits
      rw [hsome, Option.toList_some, List.map_append, List.sum_append, List.map_singleton,
        List.sum_singleton]
      rcases hfits with hnil | ⟨hpos, hsum⟩
      · -- nothing is credited for an empty data set
        rw [hnil] at hpay ⊢
        simp only [payAccounts, Except.ok.injEq] at hpay
        rw [← hpay, show cpuOf [] = 0 from rfl, add_zero, sub_self, add_zero]
        exact ⟨hI.rows, hI.uninit, hopen.credited, hopen.fits⟩
      · -- the total that divides is the one of the last row
        have htotal : s.agreedCpu = last.totalCpuUs.toNat := by
          unfold agreedCpu
          rw [hlast]
          rfl
        rw [htotal] at hpos hsum
        obtain ⟨hrows, hle⟩ := payAccounts_spec hexact hpos (hcore ▸ hI.rows) hpay
        refine ⟨hcore ▸ hrows, huninit, ?_, hsum⟩
        -- the old and the new shares are both rounded down, so they fit under the share of both together
        have hpos' : (0 : Int) < last.totalCpuUs.toNat := by exact_mod_cast hpos
        have hold := Int.mul_le_of_le_ediv hpos' hopen.credited
        refine Int.le_ediv_of_mul_le hpos' ?_
        unfold PeriodRecord.distributedCpu at hold
        rw [Nat.cast_add, add_mul, add_mul]
        exact add_le_add hold hle
  refine ⟨hcore, ?_, ?_, ?_, fun htr => ?_, fun _ => ?_, ?_⟩
  · -- the state after the call, part by part
    rw [hsys]
    exact huninit
  · rw [hsys]
    exact hrows
  · rw [hhist]
    intro hempty
    rw [hempty] at hlast
    cases hlast
  · rw [hstill] at htr
    cases htr
  · rw [hhist]
    exact ⟨k, last, hlast, hcpu, hopen.transferred, hle⟩
  · -- the credits of the period enter the balance of the pool
    show accountTotal s'.accpay + r.paid + r.periodTransferred ≤
      r.transferred + (r.periodCredited + (accountTotal s'.accpay - accountTotal s.accpay))
    omega

/-- A call keeps the invariant of the pool, if a data set that it distributes fits. -/
theorem step_poolInv (hexact : Double.ExactShares F) {s s' : ResourceState F H} {r : PoolRecord}
    {call : ResourceCall F H} (hI : PoolInv s r) (hfits : FitsTotal s r.period call)
    (h : s.step call = .ok s') : PoolInv s' (recordPool r s call s') := by
  cases step_period hI.core.token h with
  | kept hquiet husage hdatasets hhist hsame hthreshold hunset haccpay =>
    exact hI.quiet h hquiet hhist hsame.transferred haccpay
  | first hquiet start hempty hhist husage hdatasets horacles htransferred hmade hthreshold haccpay
      hpayee =>
    -- no pool has been opened yet
    have hwas := hI.unset hempty
    obtain ⟨hnil, hpt, hpc⟩ := hI.closed hwas
    obtain ⟨huninit, hrows⟩ := hI.keepRows h haccpay
    -- nobody is paid by a configuration
    have hpaid : paidBy s call s' = 0 := by
      unfold paidBy
      rw [hpayee]
      rfl
    rw [recordPool_of_quiet hquiet, hpaid, add_zero]
    refine ⟨step_coreToken hI.core h, huninit, hrows, fun _ => htransferred,
      fun _ => ⟨hnil, hpt, hpc⟩, fun htr => ?_, ?_⟩
    · rw [htransferred] at htr
      cases htr
    · rw [haccpay]
      exact hI.solvent
  | totals source cpu net hash start haction hfresh husage hrec horacles hthreshold hmade haccpay
      hout =>
    exact hI.totals h haction haccpay hout
  | dataset source datasetId data start haction htransferred s₁ hsubmit husage hdatasets hhist hsys
      horacles hstill hthreshold hout =>
    refine hI.dataset hexact hfits h haction htransferred hstill hhist hsys ?_
    rcases hout with ⟨-, hnone, haccpay, -⟩ | ⟨data', -, hsome, hcredits, -⟩
    · exact .inl ⟨hnone, haccpay⟩
    · exact .inr ⟨_, hsome, hcredits⟩
  | next haction husage hdatasets hhist horacles htransferred hmade hthreshold haccpay hsys =>
    -- what the period has credited is covered by what it has transferred
    have hle := hI.credited_le
    have hsolvent := hI.solvent
    -- the period begins with empty sums
    have hr : recordPool r s call s' = { r with
        period := .empty
        periodTransferred := 0
        periodCredited := 0 } := by
      unfold recordPool transferredBy paidBy creditedBy issues recordPeriod
      rw [haction]
      simp [isNext, payee]
    rw [hr]
    refine ⟨step_coreToken hI.core h, ?_, ?_, fun _ => htransferred, fun _ => ⟨rfl, rfl, rfl⟩,
      fun htr => ?_, ?_⟩
    · rw [hsys, haccpay]
      exact hI.uninit
    · rw [hsys, haccpay]
      exact hI.rows
    · rw [htransferred] at htr
      cases htr
    · -- so what was left over stays in the pool
      rw [haccpay]
      show accountTotal s.accpay + r.paid + 0 ≤ r.transferred + 0
      omega

/-! ## Runs -/

/-- In every run in which the data sets that are distributed in a period fit into its agreed
    CPU total, what accounts can claim and what they have been paid is at most what has been
    transferred to `eosio.upay`; in each period no more is credited than is transferred. -/
theorem utility_pool_solvent (hexact : Double.ExactShares F) (maxBlockNetUsage : UInt64)
    (maxBlockCpuUsage : UInt32) {calls : List (ResourceCall F H)}
    (hfits : Run.Meets (Run.observed step recordPool) (fun p call => FitsTotal p.1 p.2.period call)
      (genesis maxBlockNetUsage maxBlockCpuUsage, .empty) calls) :
    let p := Run.exec (Run.observed step recordPool)
      (genesis maxBlockNetUsage maxBlockCpuUsage, .empty) calls
    accountTotal p.1.accpay + p.2.paid ≤ p.2.transferred ∧
      p.2.periodCredited ≤ p.2.periodTransferred := by
  intro p
  have hstep : ∀ (p : ResourceState F H × PoolRecord) call q, PoolInv p.1 p.2 →
      FitsTotal p.1 p.2.period call → Run.observed step recordPool p call = .ok q →
      PoolInv q.1 q.2 := by
    intro p call q hI hfits h
    obtain ⟨hstep, hrec⟩ := Run.observed_eq_ok h
    rw [hrec]
    exact step_poolInv hexact hI hfits hstep
  have hI : PoolInv p.1 p.2 :=
    Run.exec_of_meets (I := fun p => PoolInv p.1 p.2) hstep (genesis_poolInv _ _) hfits
  have hle := hI.credited_le
  have hsolvent := hI.solvent
  exact ⟨by omega, hle⟩

namespace Sample

open SystemState.Sample

/-- Three oracles have declared the same totals. -/
def declared (threshold : UInt16) : List (ResourceCall Rat (List Char)) :=
  setup threshold ++
    [totals alice 1000000 2000, totals bob 1000000 2000, totals carol 1000000 2000]

/-- Two oracles agree on a data set, and its account is paid. -/
def distributing : List (ResourceCall Rat (List Char)) :=
  declared 2 ++ [dataset carol 1 [⟨bob, 600000⟩], dataset alice 1 [⟨bob, 600000⟩],
    call bob (.claimdistrib bob)]

/-- Each oracle settles a data set of its own, with the whole CPU time for carol. -/
def settling : List (ResourceCall Rat (List Char)) :=
  declared 1 ++ [dataset alice 1 [⟨carol, 1000000⟩], dataset bob 1 [],
    dataset bob 2 [⟨carol, 1000000⟩]]

end Sample

open Sample in
/-- The account of the sample is paid its part of the pool. -/
theorem utility_pool_solvent_sample :
    let p := Run.exec (Run.observed step recordPool) (start, .empty) distributing
    accountTotal p.1.accpay + p.2.paid ≤ p.2.transferred ∧
      p.2.paid = 365247 ∧ p.2.transferred = 608746 := by
  have hfits : Run.Meets (Run.observed step recordPool)
      (fun p call => FitsTotal p.1 p.2.period call) (start, .empty) distributing := by
    decide +kernel
  have hsample := utility_pool_solvent Double.exactShares_rat 1048576 200000 hfits
  have hpaid : (Run.exec (Run.observed step recordPool) (start, .empty) distributing).2.paid =
      365247 ∧ (Run.exec (Run.observed step recordPool) (start, .empty) distributing).2.transferred =
        608746 := by
    decide +kernel
  unfold Sample.start at hpaid ⊢
  exact ⟨hsample.1, hpaid⟩

open Sample in
/-- Carol can claim twice what has been transferred. -/
theorem pool_overdrawn :
    let p := Run.exec (Run.observed step recordPool) (start, .empty) settling
    ¬ accountTotal p.1.accpay + p.2.paid ≤ p.2.transferred ∧
      accountTotal p.1.accpay = 2 * p.2.transferred := by
  decide +kernel

end ResourceState

end UxContracts
