import UxContracts.Spec.HistoryChange
import Mathlib.Tactic.Ring

/-!
# Producer pay is backed

An issuance credits each active producer with an equal part of the producers' amount of
its row and hands the whole amount on to `eosio.bpay`. So what the producers can claim
together is at most what `eosio.bpay` holds, as long as it pays nobody else
(`producer_pay_solvent`), and for each producer what has accrued is what has been claimed
and what is left.
-/

namespace UxContracts

/-- The amount of a row of `prodpay`. -/
def ProducerPay.amount (pay : ProducerPay) : Int := pay.balance.amount.toInt

namespace ResourceState

variable {F H : Type}

/-- What all producers can claim. -/
def payTotal (prodpay : Table Name ProducerPay) : Int :=
  prodpay.sumOn (fun _ => True) ProducerPay.amount

/-- The part of one of `n` producers of the amount of a row. -/
def earnedPay (row : UsageHistory F) (n : Nat) : Int :=
  max (row.bppayTokens.amount.toInt.tdiv n) 0

/-! ## Crediting the producers -/

/-- All pay is in proper, non-negative amounts of one symbol. -/
def PayRows (sym : Symbol) (prodpay : Table Name ProducerPay) : Prop :=
  ∀ p pay, prodpay.find? p = some pay →
    pay.balance.symbol = sym ∧ pay.balance.InRange ∧ 0 ≤ pay.amount

theorem PayRows.set {sym : Symbol} {prodpay : Table Name ProducerPay} {p : Name}
    {pay : ProducerPay} (h : PayRows sym prodpay)
    (hpay : pay.balance.symbol = sym ∧ pay.balance.InRange ∧ 0 ≤ pay.amount) :
    PayRows sym (prodpay.set p pay) := by
  intro q r hq
  rw [Table.find?_set] at hq
  split at hq
  · cases hq
    exact hpay
  · exact h q r hq

/-- Each of the producers gets the same positive amount. -/
theorem creditProducers_spec {earned : Asset} {sym : Symbol} (hsym : earned.symbol = sym)
    (hr : earned.InRange) (hpos : 0 < earned.amount.toInt) {producers : List Name}
    {t t' : Table Name ProducerPay} (hnodup : producers.Nodup) (hrows : PayRows sym t)
    (h : creditProducers earned t producers = .ok t') :
    PayRows sym t' ∧ payTotal t' = payTotal t + producers.length * earned.amount.toInt ∧
      ∀ p, t'.valueAt p ProducerPay.amount = t.valueAt p ProducerPay.amount +
        if p ∈ producers then earned.amount.toInt else 0 := by
  -- induction on the active producers, who are distinct
  induction producers generalizing t with
  | nil =>
    cases h
    simp [hrows]
  | cons p ps ih =>
    obtain ⟨hp, hps⟩ := List.nodup_cons.mp hnodup
    -- the new row of `p`, whether there was one before or not
    obtain ⟨pay, hpay, hamt, h⟩ : ∃ pay : ProducerPay,
        (pay.balance.symbol = sym ∧ pay.balance.InRange ∧ 0 ≤ pay.amount) ∧
        pay.amount = t.valueAt p ProducerPay.amount + earned.amount.toInt ∧
        creditProducers earned (t.set p pay) ps = .ok t' := by
      rw [creditProducers] at h
      cases hfind : t.find? p with
      | none =>
        simp only [hfind] at h
        -- the first pay of this producer
        refine ⟨⟨earned, 0⟩, ⟨hsym, hr, hpos.le⟩, ?_, h⟩
        rw [Table.valueAt_none hfind, zero_add]
        rfl
      | some old =>
        -- the pay is added to what there is
        simp only [hfind, bind_eq_ok] at h
        obtain ⟨balance, hadd, h⟩ := h
        obtain ⟨hos, hor, ho0⟩ := hrows p old hfind
        obtain ⟨-, hbs, hbr, hbeq⟩ := Asset.add_spec hadd hor
        have hbal : ProducerPay.amount { old with balance := balance } =
            old.amount + earned.amount.toInt := hbeq
        refine ⟨{ old with balance := balance }, ⟨hbs.trans hos, hbr, ?_⟩, ?_, h⟩
        · rw [hbal]
          omega
        · rw [Table.valueAt_some hfind]
          exact hbal
    obtain ⟨hrows', htotal, hvalue⟩ := ih hps (hrows.set hpay) h
    refine ⟨hrows', ?_, fun q => ?_⟩
    · -- the total grows by one part for each producer
      rw [htotal, payTotal, Table.sumOn_set, if_pos trivial, hamt, List.length_cons, payTotal]
      push_cast
      ring
    · rw [hvalue q, Table.valueAt_set]
      -- this producer is not paid again by the rest
      by_cases hq : q = p
      · subst hq
        rw [if_pos rfl, if_neg hp, if_pos List.mem_cons_self, hamt, add_zero]
      · rw [if_neg hq]
        simp only [List.mem_cons, hq, false_or]

variable [Double F]

/-- No producer is paid twice. -/
theorem activeProducers_nodup (sys : SystemState F) : (activeProducers sys).Nodup := by
  have hperm : ((rankedProducers sys.producers).map Prod.fst).Perm sys.producers.keys :=
    (List.perm_insertionSort _ _).map _
  have hnodup := hperm.nodup_iff.mpr sys.producers.nodup_keys
  have hsub : (((rankedProducers sys.producers).takeWhile fun p =>
      Double.ofInt 0 < p.2.totalVotes ∧ p.2.isActive).take 21).Sublist
      (rankedProducers sys.producers) :=
    (List.take_sublist _ _).trans (List.takeWhile_sublist _)
  exact hnodup.sublist (hsub.map Prod.fst)

/-- An issuance credits each active producer with its part, all of them together with at
    most what is handed on to `eosio.bpay`. -/
theorem Issuance.credits {sys : SystemState F} {history history' : Table Nat (UsageHistory F)}
    {prodpay prodpay' : Table Name ProducerPay} {cpu net : UInt64} {sends : List InlineAction}
    {k : Nat} {last row : UsageHistory F} {sym : Symbol} {inflation : Asset}
    (h : Issuance sys history history' prodpay prodpay' cpu net sends k last row sym inflation)
    (hrows : PayRows sym prodpay) :
    PayRows sym prodpay' ∧
      payTotal prodpay' ≤ payTotal prodpay + max row.bppayTokens.amount.toInt 0 ∧
      ∀ p, prodpay'.valueAt p ProducerPay.amount = prodpay.valueAt p ProducerPay.amount +
        if p ∈ activeProducers sys then earnedPay row (activeProducers sys).length else 0 := by
  obtain ⟨earned, hesym, heamt, hcredit⟩ := h.credited
  obtain ⟨hpos, hlen⟩ := h.active
  have hnodup := activeProducers_nodup sys
  generalize activeProducers sys = active at *
  have hn : (Int64.ofNat active.length).toInt = active.length :=
    Int64.toInt_ofNat_of_lt (by omega)
  -- each part is the amount divided by the number of producers
  have hdiv : earned.amount.toInt = row.bppayTokens.amount.toInt.tdiv active.length := by
    have hne : Int64.ofNat active.length ≠ -1 := by
      intro he
      rw [he] at hn
      have hneg : (-1 : Int64).toInt = -1 := rfl
      omega
    rw [heamt, Int64.toInt_div_of_ne_right _ _ hne, hn]
  unfold earnedPay
  rw [← hdiv]
  split at hcredit
  · rename_i hgt
    have hgt := Int64.lt_iff_toInt_lt.mp hgt
    rw [Int64.toInt_zero] at hgt
    -- a positive part is a part of a positive amount
    have hbpos : 0 < row.bppayTokens.amount.toInt := by
      by_contra hneg
      have hle := Int.tdiv_nonpos_of_nonpos (not_lt.mp hneg) (Int.natCast_nonneg active.length)
      omega
    -- the parts together are at most the amount
    have hmul : active.length * earned.amount.toInt ≤ row.bppayTokens.amount.toInt := by
      rw [hdiv, Int.tdiv_eq_ediv_of_nonneg hbpos.le]
      exact Int.mul_ediv_self_le (by omega)
    have hle : earned.amount.toInt ≤ row.bppayTokens.amount.toInt := by
      rw [hdiv]
      exact Int.tdiv_le_self _ hbpos.le
    have hbr := h.tokens.bppay_inRange
    have hr : earned.InRange := by
      unfold Asset.InRange at *
      omega
    obtain ⟨hrows', htotal, hvalue⟩ := creditProducers_spec hesym hr hgt hnodup hrows hcredit
    refine ⟨hrows', ?_, fun p => ?_⟩
    · rw [htotal]
      omega
    · rw [hvalue p, max_eq_left hgt.le]
  · rename_i hle
    -- no positive part, and nothing is paid
    rw [gt_iff_lt, Int64.lt_iff_toInt_lt, Int64.toInt_zero] at hle
    cases hcredit
    refine ⟨hrows, ?_, fun p => ?_⟩
    · omega
    · rw [max_eq_right (not_lt.mp hle), ite_self, add_zero]

/-! ## What has accrued and what has been claimed -/

/-- What a call accrues for a producer: an active one gets its part of the amount of the row
    that an issuance has added. -/
def accruedBy (s : ResourceState F H) (call : ResourceCall F H) (s' : ResourceState F H)
    (owner : Name) : Int :=
  match issues s call s', s'.history.last? with
  | true, some (_, row) =>
    if owner ∈ activeProducers s.sys then earnedPay row (activeProducers s.sys).length else 0
  | _, _ => 0

omit [Double F] in
/-- What a call pays to a producer: the core tokens that `eosio.bpay` has spent when the
    producer has claimed. -/
def claimedBy (s : ResourceState F H) (call : ResourceCall F H) (s' : ResourceState F H)
    (owner : Name) : Int :=
  if claimant call.action = some owner then
    s.coreBalance bpayAccount - s'.coreBalance bpayAccount
  else 0

/-- What has accrued for each producer so far, and what has been paid to it. -/
structure PayRecord where
  accrued : Name → Int
  claimed : Name → Int

/-- Nothing has accrued yet. -/
def PayRecord.empty : PayRecord := ⟨fun _ => 0, fun _ => 0⟩

def recordPay (r : PayRecord) (s : ResourceState F H) (call : ResourceCall F H)
    (s' : ResourceState F H) : PayRecord where
  accrued owner := r.accrued owner + accruedBy s call s' owner
  claimed owner := r.claimed owner + claimedBy s call s' owner

/-! ## One step -/

variable [Checksum H]

/-- The core tokens of `eosio.bpay` become fewer by `claimrewards` only. -/
def KeepsBpay (s : ResourceState F H) (call : ResourceCall F H) : Prop :=
  claimant call.action = none →
    s.coreBalance bpayAccount ≤ (Run.next step s call).coreBalance bpayAccount

instance (s : ResourceState F H) (call : ResourceCall F H) : Decidable (KeepsBpay s call) :=
  inferInstanceAs (Decidable (_ → _))

/-- The invariant of the producers' pay, next to the record of it. -/
structure PayInv (s : ResourceState F H) (r : PayRecord) : Prop where
  core : s.sys.CoreToken
  /-- nothing is credited before the contract is initialised -/
  uninit : s.sys.rammarket = none → s.prodpay = ∅
  rows : PayRows s.sys.coreSym s.prodpay
  balanced : ∀ owner, r.accrued owner =
    r.claimed owner + s.prodpay.valueAt owner ProducerPay.amount

omit [Checksum H] in
theorem genesis_payInv (maxBlockNetUsage : UInt64) (maxBlockCpuUsage : UInt32) :
    PayInv (genesis maxBlockNetUsage maxBlockCpuUsage : ResourceState F H) .empty where
  core := SystemState.genesis_coreToken _ _
  uninit := fun _ => rfl
  rows := fun p pay hp => by
    have hnone : (∅ : Table Name ProducerPay).find? p = some pay := hp
    rw [Table.find?_empty] at hnone
    cases hnone
  balanced := fun owner => rfl

theorem payRows_empty (sym : Symbol) : PayRows sym ∅ := by
  intro p pay hp
  rw [Table.find?_empty] at hp
  cases hp

/-- A call that neither issues inflation nor pays a producer. -/
theorem PayInv.keep {s s' : ResourceState F H} {r : PayRecord} {call : ResourceCall F H}
    (hI : PayInv s r) (h : s.step call = .ok s') (hpay : s'.prodpay = s.prodpay)
    (hnone : issues s call s' = false) (hclaim : claimant call.action = none) :
    PayInv s' (recordPay r s call s') := by
  refine ⟨step_coreToken hI.core h, ?_, ?_, fun owner => ?_⟩
  · -- before `init` nobody has pay
    intro hm
    cases step_coreSym hI.core h with
    | inl hnone => rw [hpay, hI.uninit hnone]
    | inr hsame => exact absurd hm hsame.2
  · -- afterwards the core symbol stays
    cases step_coreSym hI.core h with
    | inl hnone =>
      rw [hpay, hI.uninit hnone]
      exact payRows_empty _
    | inr hsame =>
      rw [hpay, hsame.1]
      exact hI.rows
  · -- nothing is accrued or claimed by the call
    have haccrued : accruedBy s call s' owner = 0 := by
      unfold accruedBy
      rw [hnone]
    have hclaimed : claimedBy s call s' owner = 0 := by
      unfold claimedBy
      rw [hclaim, if_neg (by simp)]
    have hbalanced := hI.balanced owner
    simp only [recordPay, haccrued, hclaimed, hpay]
    omega

omit [Double F] [Checksum H] in
/-- A call that pays a producer: what it claims is what `eosio.bpay` spends. -/
theorem claimed_spec {s s' : ResourceState F H} {call : ResourceCall F H} {owner : Name}
    {pay : ProducerPay} {balance : Asset} {time : TimePointSec} (hT : s.sys.token.Inv)
    (hrows : PayRows s.sys.coreSym s.prodpay) (hfind : s.prodpay.find? owner = some pay)
    (hrest : pay.balance.sub pay.balance = .ok balance)
    (hprodpay : s'.prodpay = s.prodpay.set owner ⟨balance, time⟩)
    (hrun : SystemState.runInline call.ctx s.sys.token [⟨[bpayAccount, owner],
      .transfer bpayAccount owner pay.balance "producer reward"⟩] = .ok s'.sys.token)
    (hsys : s'.sys = { s.sys with token := s'.sys.token }) :
    PayRows s.sys.coreSym s'.prodpay ∧
      s'.coreBalance bpayAccount = s.coreBalance bpayAccount - pay.amount ∧
      payTotal s'.prodpay = payTotal s.prodpay - pay.amount ∧
      ∀ p, s'.prodpay.valueAt p ProducerPay.amount =
        if p = owner then 0 else s.prodpay.valueAt p ProducerPay.amount := by
  -- the row of the owner loses all that it has
  obtain ⟨hsym, hr, h0⟩ := hrows owner pay hfind
  obtain ⟨-, hbs, hbr, hbeq⟩ := Asset.sub_spec hrest hr
  have hzero : ProducerPay.amount ⟨balance, time⟩ = 0 := by
    show balance.amount.toInt = 0
    omega
  refine ⟨?_, ?_, ?_, fun p => ?_⟩
  · rw [hprodpay]
    exact hrows.set ⟨hbs.trans hsym, hbr, hzero.ge⟩
  · -- the payment is made in the core symbol
    have hpaid := SystemState.runInline_payment hT hrun
    have hsame : s'.sys.coreSym = s.sys.coreSym := by
      rw [hsys]
      rfl
    unfold coreBalance
    rw [hsame, ← hsym]
    exact hpaid
  · -- the total loses the same amount
    rw [hprodpay, payTotal, Table.sumOn_set, if_pos trivial, Table.valueAt_some hfind, hzero]
    unfold payTotal
    omega
  · -- and the rows of the others stay
    rw [hprodpay, Table.valueAt_set, hzero]
    congr

/-- Every call keeps what producers have accrued in line with what they have claimed. -/
theorem step_payInv {s s' : ResourceState F H} {r : PayRecord} {call : ResourceCall F H}
    (hI : PayInv s r) (h : s.step call = .ok s') : PayInv s' (recordPay r s call s') := by
  have hcore := step_coreToken hI.core h
  cases step_history hI.core.token h with
  | kept hhist hpay hnone hclaim => exact hI.keep h hpay hnone hclaim
  | first start hempty hhist hpay hsys hnone hclaim => exact hI.keep h hpay hnone hclaim
  | issued cpu net sends k last row sym inflation hiss hrun hsys hone hclaim =>
    -- each active producer earns its part, and nobody claims
    have hsame : s'.sys.coreSym = s.sys.coreSym := by
      rw [hsys]
      rfl
    have hsym := SystemState.coreSym_of_ok hiss.coreSymbol
    obtain ⟨hrows, -, hvalue⟩ := hiss.credits (hsym ▸ hI.rows)
    -- there is a core symbol when something is issued
    refine ⟨hcore, fun hm => ?_, ?_, fun owner => ?_⟩
    · have hsome := SystemState.rammarket_isSome_of_ok hiss.coreSymbol
      have hm' : s.sys.rammarket = none := by
        rw [hsys] at hm
        exact hm
      rw [hm'] at hsome
      cases hsome
    · rw [hsame, ← hsym]
      exact hrows
    · -- what the issuance adds to the accrued pay
      have haccrued : accruedBy s call s' owner =
          if owner ∈ activeProducers s.sys then earnedPay row (activeProducers s.sys).length
          else 0 := by
        unfold accruedBy
        rw [hone, hiss.history_eq, Table.last?_set_succ row hiss.lastRow]
      have hclaimed : claimedBy s call s' owner = 0 := by
        unfold claimedBy
        rw [hclaim, if_neg (by simp)]
      have hbalanced := hI.balanced owner
      simp only [recordPay, haccrued, hclaimed, hvalue owner]
      omega
  | claimed owner pay balance time hclaim hhist hnone hfind hpos hrest hprodpay hrun hsys =>
    -- the row is reset, and what it had is paid
    obtain ⟨hrows, hpaid, -, hvalue⟩ :=
      claimed_spec hI.core.token hI.rows hfind hrest hprodpay hrun hsys
    refine ⟨hcore, fun hm => ?_, ?_, fun p => ?_⟩
    · have hm' : s.sys.rammarket = none := by
        rw [hsys] at hm
        exact hm
      rw [hI.uninit hm', Table.find?_empty] at hfind
      cases hfind
    · rw [hsys]
      exact hrows
    · have haccrued : accruedBy s call s' p = 0 := by
        unfold accruedBy
        rw [hnone]
      have hbalanced := hI.balanced p
      simp only [recordPay, haccrued, claimedBy, hclaim, Option.some.injEq, hvalue p]
      by_cases hp : p = owner
      · -- the claimed pay is the row of the owner
        subst hp
        rw [if_pos rfl, if_pos rfl, hpaid]
        rw [Table.valueAt_some hfind] at hbalanced
        omega
      · rw [if_neg fun he => hp he.symm, if_neg hp]
        omega

/-- A call keeps the pay backed. -/
theorem step_payBacked {s s' : ResourceState F H} {r : PayRecord} {call : ResourceCall F H}
    (hI : PayInv s r) (hle : payTotal s.prodpay ≤ s.coreBalance bpayAccount)
    (hkeep : KeepsBpay s call) (h : s.step call = .ok s') :
    payTotal s'.prodpay ≤ s'.coreBalance bpayAccount := by
  -- only a claim takes tokens from `eosio.bpay`
  have hkeep : claimant call.action = none →
      s.coreBalance bpayAccount ≤ s'.coreBalance bpayAccount := by
    intro hnone
    have hbal := hkeep hnone
    rw [Run.next_of_ok h] at hbal
    exact hbal
  cases step_history hI.core.token h with
  | kept hhist hpay hnone hclaim =>
    rw [hpay]
    exact hle.trans (hkeep hclaim)
  | first start hempty hhist hpay hsys hnone hclaim =>
    rw [hpay]
    exact hle.trans (hkeep hclaim)
  | issued cpu net sends k last row sym inflation hiss hrun hsys hone hclaim =>
    -- the issuance brings the amount that the rows divide
    have hsame : s'.sys.coreSym = s.sys.coreSym := by
      rw [hsys]
      rfl
    have hsym := SystemState.coreSym_of_ok hiss.coreSymbol
    obtain ⟨-, htotal, -⟩ := hiss.credits (hsym ▸ hI.rows)
    rw [hiss.sends_eq] at hrun
    obtain ⟨-, hbpay, -⟩ := SystemState.inflationSends_effect hI.core.token hiss.inflation_symbol
      hiss.tokens.bppay_symbol hiss.tokens.utility_symbol hrun
    have hbalance : s'.coreBalance bpayAccount =
        s.coreBalance bpayAccount + max row.bppayTokens.amount.toInt 0 := by
      unfold coreBalance
      rw [hsame, ← hsym]
      exact hbpay
    omega
  | claimed owner pay balance time hclaim hhist hnone hfind hpos hrest hprodpay hrun hsys =>
    -- the payment and the row are the same amount
    obtain ⟨-, hpaid, htotal, -⟩ :=
      claimed_spec hI.core.token hI.rows hfind hrest hprodpay hrun hsys
    omega

/-! ## Runs -/

/-- Every run that keeps the balance of `eosio.bpay` keeps the invariant. -/
theorem exec_payInv (maxBlockNetUsage : UInt64) (maxBlockCpuUsage : UInt32)
    {calls : List (ResourceCall F H)}
    (hkeep : Run.Meets step KeepsBpay (genesis maxBlockNetUsage maxBlockCpuUsage) calls) :
    let p := Run.exec (Run.observed step recordPay)
      (genesis maxBlockNetUsage maxBlockCpuUsage, .empty) calls
    PayInv p.1 p.2 ∧ payTotal p.1.prodpay ≤ p.1.coreBalance bpayAccount := by
  have hstep : ∀ (p : ResourceState F H × PayRecord) call q,
      (PayInv p.1 p.2 ∧ payTotal p.1.prodpay ≤ p.1.coreBalance bpayAccount) →
      KeepsBpay p.1 call → Run.observed step recordPay p call = .ok q →
      PayInv q.1 q.2 ∧ payTotal q.1.prodpay ≤ q.1.coreBalance bpayAccount := by
    intro p call q hI hkeep h
    obtain ⟨hstep, hrec⟩ := Run.observed_eq_ok h
    rw [hrec]
    exact ⟨step_payInv hI.1 hstep, step_payBacked hI.1 hI.2 hkeep hstep⟩
  have hstart : payTotal (genesis maxBlockNetUsage maxBlockCpuUsage : ResourceState F H).prodpay ≤
      (genesis maxBlockNetUsage maxBlockCpuUsage : ResourceState F H).coreBalance bpayAccount :=
    TokenState.init_inv.balance_nonneg _ _
  exact Run.exec_of_meets hstep ⟨genesis_payInv _ _, hstart⟩ (Run.meets_observed recordPay _ hkeep)

/-- In every run in which only `claimrewards` spends the core tokens of `eosio.bpay`, they
    cover what the producers can claim, which is never negative, and what has accrued for a
    producer is what it has claimed and what it can still claim. -/
theorem producer_pay_solvent (maxBlockNetUsage : UInt64) (maxBlockCpuUsage : UInt32)
    {calls : List (ResourceCall F H)}
    (hkeep : Run.Meets step KeepsBpay (genesis maxBlockNetUsage maxBlockCpuUsage) calls) :
    let p := Run.exec (Run.observed step recordPay)
      (genesis maxBlockNetUsage maxBlockCpuUsage, .empty) calls
    payTotal p.1.prodpay ≤ p.1.coreBalance bpayAccount ∧
    (∀ owner pay, p.1.prodpay.find? owner = some pay → 0 ≤ pay.amount) ∧
    ∀ owner, p.2.accrued owner =
      p.2.claimed owner + p.1.prodpay.valueAt owner ProducerPay.amount := by
  intro p
  obtain ⟨hI, hle⟩ := exec_payInv maxBlockNetUsage maxBlockCpuUsage hkeep
  exact ⟨hle, fun owner pay hp => (hI.rows owner pay hp).2.2, hI.balanced⟩

/-- Inflation is issued, and then alice claims her pay. -/
def Sample.paying : List (ResourceCall Rat (List Char)) :=
  setup 1 ++ [totals SystemState.Sample.alice 1000000 2000,
    call SystemState.Sample.alice (.claimrewards SystemState.Sample.alice)]

open Sample SystemState.Sample in
/-- Two of the three producers of the sample can still claim their part. -/
theorem producer_pay_solvent_sample :
    let p := Run.exec (Run.observed step recordPay) (start, .empty) paying
    payTotal p.1.prodpay ≤ p.1.coreBalance bpayAccount ∧ payTotal p.1.prodpay = 1264 ∧
      p.2.accrued alice = 632 ∧ p.2.claimed alice = 632 := by
  have hkeep : Run.Meets step KeepsBpay start paying := by decide +kernel
  have hsolvent := producer_pay_solvent 1048576 200000 hkeep
  unfold Sample.start
  refine ⟨hsolvent.1, ?_, ?_, ?_⟩
  · decide +kernel
  · decide +kernel
  · decide +kernel

end ResourceState

end UxContracts
