import UxContracts.Spec.CoreToken
import UxContracts.Spec.RamSupply

/-!
# The ledger of RAM

Every kilobyte of reserved RAM has been paid for with 1.0000 UTXRAM, and `eosio.ram` still
holds these tokens, unless it spends them otherwise (`LedgerInv`). So the bytes an
account has can always be sold again (`ram_ledger`): no total goes below zero, and the
tokens are there. The account `eosio.ram` itself is the exception. It can be given RAM,
but the transfer of a sale would be one to itself (`ramAccount_cannot_sell`).
-/

namespace UxContracts

namespace SystemState

variable {F : Type}

/-- The UTXRAM tokens of `eosio.ram`. -/
def ramBalance (s : SystemState F) : Int := s.token.balance ramAccount ramcoreSymbol.code

/-- The RAM there is has been bought, and what it cost is still there. -/
structure LedgerInv (s : SystemState F) : Prop where
  core : s.CoreToken
  ram : s.RamRows
  price : s.gstate.totalRamStake.toInt * 1024 = s.gstate.totalRamBytesReserved.toNat * 10000
  paid : s.gstate.totalRamStake.toInt ≤ s.ramBalance
  /-- once something has been bought, there is a market and the token -/
  market : 0 < s.gstate.totalRamStake.toInt → s.rammarket.isSome ∧
    ∃ st, s.token.stat.find? ramcoreSymbol.code = some st ∧ st.supply.symbol = ramcoreSymbol

namespace LedgerInv

variable {s : SystemState F}

/-- What has been paid is within the asset range. -/
theorem totalRamStake_bounds (hI : s.LedgerInv) :
    0 ≤ s.gstate.totalRamStake.toInt ∧ s.gstate.totalRamStake.toInt < 2 ^ 62 := by
  have hprice := hI.price
  refine ⟨by omega, ?_⟩
  by_contra hge
  obtain ⟨-, st, hst, -⟩ := hI.market (by omega)
  have hpaid := hI.paid
  have hsupply := hI.core.token.balance_le_supply ramAccount hst
  have hbounds := hI.core.token.supplyBounds _ st hst
  unfold ramBalance at hpaid
  omega

end LedgerInv

/-! ## Trading -/

/-- The price of the bytes that a sale gives back, in machine arithmetic. -/
theorem sellram_price {bytes : Int64} (hmod : bytes % 1024 = 0) (hpos : 0 < bytes.toInt)
    (hlt : bytes.toInt < 2 ^ 59) :
    0 < (bytes / 1024 * 10000).toInt ∧ (bytes / 1024 * 10000).toInt * 1024 = bytes.toInt * 10000 := by
  obtain ⟨k, hk, hbytes, hdiv⟩ := sellram_tokens hmod hpos
  have h10000 : (10000 : Int64).toInt = 10000 := rfl
  have hmul := Int64.toInt_mul_of_mem (a := bytes / 1024) (b := 10000)
    (by rw [hdiv, h10000]; omega) (by rw [hdiv, h10000]; omega)
  rw [hdiv, h10000] at hmul
  omega

/-- A purchase adds the price to the totals and to the balance of `eosio.ram`. -/
theorem buyram_ledger {ctx : Context} {s u : SystemState F} {token : TokenState}
    {payer receiver : Name} {q : Asset} {sends : List InlineAction} (hI : s.LedgerInv)
    (h : s.buyram ctx payer receiver q = .ok (u, sends))
    (hrun : runInline ctx u.token sends = .ok token)
    (hcore : ({ u with token := token } : SystemState F).CoreToken) :
    ({ u with token := token } : SystemState F).LedgerInv := by
  have hbuy := h
  obtain ⟨s₁, res, limits, hsup, hsym, hmod, hpos, hmarket, hres, rfl, rfl⟩ := buyram_spec h
  obtain ⟨k, hk, hq, hbytes⟩ := buyram_bytes hmod hpos
  -- the market may have grown before
  have hgrow := updateRamSupply_spec hsup
  have htoken : s₁.token = s.token := by rw [hgrow.eq]
  have hstake : s₁.gstate.totalRamStake = s.gstate.totalRamStake := by rw [hgrow.eq]
  have htransfer : s.token.transfer _ payer ramAccount q "buy ram" = .ok token :=
    htoken ▸ runInline_singleton.mp hrun
  -- the tokens have arrived at another account than the payer's
  obtain ⟨-, -, -, hne, -⟩ := TokenState.transfer_rows hI.core.token htransfer
  have hmove := TokenState.transfer_balance hI.core.token htransfer ramAccount ramcoreSymbol.code
  rw [hsym, if_pos ⟨rfl, rfl⟩, if_neg fun hs => hne hs.1.symm, sub_zero] at hmove
  -- and the token's supply bounds them
  obtain ⟨st, hst, hstsym⟩ := TokenState.transfer_symbol htransfer
  obtain ⟨-, hkeep⟩ := runInline_inv hI.core.token (htoken ▸ hrun)
  obtain ⟨st', hst', hsame, -⟩ := hkeep _ st hst
  rw [hsym] at hst' hstsym
  have htokenInv : token.Inv := hcore.token
  have hsupply := htokenInv.balance_le_supply ramAccount hst'
  have hbounds := htokenInv.supplyBounds _ st' hst'
  have hpaid := hI.paid
  have hprice := hI.price
  unfold ramBalance at hpaid
  -- so the sum does not wrap
  have hadd := Int64.toInt_add_of_mem (a := s.gstate.totalRamStake) (b := q.amount)
    (by omega) (by omega)
  obtain ⟨hrows, hreserved⟩ := buyram_ramRows hI.core.stake hI.ram (by omega) hbuy
  have hreserved : ((s₁.gstate.totalRamBytesReserved +
      (q.amount / 10000 * 1024).toUInt64).toNat : Int) =
        s.gstate.totalRamBytesReserved.toNat + (q.amount / 10000 * 1024).toInt := hreserved
  refine ⟨hcore, hrows.of_eq rfl rfl, ?_, ?_, fun _ => ⟨?_, st', hst', hsame.trans hstsym⟩⟩
  · -- the price of all bytes is what has been paid
    show (s₁.gstate.totalRamStake + q.amount).toInt * 1024 = _
    rw [hstake, hadd]
    show _ = ((s₁.gstate.totalRamBytesReserved + _).toNat : Int) * 10000
    omega
  · -- and the account of RAM holds it
    show (s₁.gstate.totalRamStake + q.amount).toInt ≤ token.balance ramAccount ramcoreSymbol.code
    rw [hstake, hadd]
    omega
  · -- the market and the token are still there
    show s₁.rammarket.isSome
    rw [hgrow.market]
    exact hmarket

/-- A sale takes the price from the totals and from the balance of `eosio.ram`. -/
theorem sellram_ledger {ctx : Context} {s u : SystemState F} {token : TokenState}
    {account : Name} {bytes : Int64} {sends : List InlineAction} (hI : s.LedgerInv)
    (h : s.sellram ctx account bytes = .ok (u, sends))
    (hrun : runInline ctx u.token sends = .ok token)
    (hcore : ({ u with token := token } : SystemState F).CoreToken) :
    ({ u with token := token } : SystemState F).LedgerInv := by
  obtain ⟨hrows, hle, hreserved⟩ := sellram_ramRows hI.ram h
  obtain ⟨s₁, res, limits, hsup, hmod, hpos, -, -, -, rfl, rfl⟩ := sellram_spec h
  -- what is sold has been bought for the same price
  obtain ⟨hstake0, hstake⟩ := hI.totalRamStake_bounds
  have hprice := hI.price
  have hpaid := hI.paid
  obtain ⟨hcost, hcost'⟩ := sellram_price hmod hpos (by omega)
  generalize bytes / 1024 * 10000 = cost at *
  have hgrow := updateRamSupply_spec hsup
  have htoken : s₁.token = s.token := by rw [hgrow.eq]
  have hstake₁ : s₁.gstate.totalRamStake = s.gstate.totalRamStake := by rw [hgrow.eq]
  -- the RAM account pays what the bytes are worth
  have htransfer : s.token.transfer _ ramAccount account ⟨cost, ramcoreSymbol⟩ "sell ram" =
      .ok token := htoken ▸ runInline_singleton.mp hrun
  obtain ⟨-, -, -, hne, -⟩ := TokenState.transfer_rows hI.core.token htransfer
  have hmove := TokenState.transfer_balance hI.core.token htransfer ramAccount ramcoreSymbol.code
  rw [if_neg fun hs => hne hs.1, if_pos ⟨rfl, rfl⟩, add_zero] at hmove
  have hmove : token.balance ramAccount ramcoreSymbol.code =
      s.token.balance ramAccount ramcoreSymbol.code - cost.toInt := hmove
  obtain ⟨-, hkeep⟩ := runInline_inv hI.core.token (htoken ▸ hrun)
  have hsub := Int64.toInt_sub_of_mem (a := s.gstate.totalRamStake) (b := cost)
    (by omega) (by omega)
  have hreserved : ((s₁.gstate.totalRamBytesReserved - bytes.toUInt64).toNat : Int) =
      s.gstate.totalRamBytesReserved.toNat - bytes.toInt := hreserved
  unfold ramBalance at hpaid
  refine ⟨hcore, hrows.of_eq rfl rfl, ?_, ?_, fun hsome => ?_⟩
  · -- the price of the bytes that are left
    show (s₁.gstate.totalRamStake - cost).toInt * 1024 = _
    rw [hstake₁, hsub]
    show _ = ((s₁.gstate.totalRamBytesReserved - _).toNat : Int) * 10000
    omega
  · -- is still held by the account of RAM
    show (s₁.gstate.totalRamStake - cost).toInt ≤ token.balance ramAccount ramcoreSymbol.code
    rw [hstake₁, hsub]
    omega
  · have hsome : 0 < (s₁.gstate.totalRamStake - cost).toInt := hsome
    rw [hstake₁, hsub] at hsome
    obtain ⟨hmarket, st, hst, hsym⟩ := hI.market (by omega)
    obtain ⟨st', hst', hsame, -⟩ := hkeep _ st hst
    refine ⟨?_, st', hst', hsame.trans hsym⟩
    show s₁.rammarket.isSome
    rw [hgrow.market]
    exact hmarket

/-! ## Other calls -/

/-- The action trades RAM. -/
def tradesRam : SystemAction F → Bool
  | .buyram .. | .buyrambytes .. | .sellram .. => true
  | _ => false

variable [Double F]

/-- Only trading changes the totals. -/
theorem step_ramTotals {s s' : SystemState F} {call : SystemCall F} (hS : s.StakeInv)
    (hother : tradesRam call.action = false) (h : s.step call = .ok s') :
    s'.gstate.totalRamBytesReserved = s.gstate.totalRamBytesReserved ∧
      s'.gstate.totalRamStake = s.gstate.totalRamStake := by
  obtain ⟨ctx, action⟩ := call
  have hcore : ∀ sym, s.coreSymbol = .ok sym → sym = s.coreSym := fun _ => coreSym_of_ok
  -- a change of votes leaves the totals of RAM
  have hvote : VoteFrame s s' → s'.gstate.totalRamBytesReserved = s.gstate.totalRamBytesReserved ∧
      s'.gstate.totalRamStake = s.gstate.totalRamStake := fun hframe =>
    ⟨congrArg Ledgers.totalRamBytesReserved hframe.ledgers,
      congrArg Ledgers.totalRamStake hframe.ledgers⟩
  cases action with
  | init version core =>
    obtain ⟨u, sends, token, hr, -, rfl⟩ := commit_eq_ok.mp h
    obtain ⟨m, -, -, -, rfl, -⟩ := init_spec hr
    exact ⟨rfl, rfl⟩
  | newaccount creator newact =>
    obtain ⟨zero, bids, limits, -, -, -, rfl⟩ := newaccount_spec h
    exact ⟨rfl, rfl⟩
  | setram maxRamSize =>
    obtain ⟨m, m', -, -, -, -, rfl⟩ := setram_spec h
    exact ⟨rfl, rfl⟩
  | setramrate bytesPerBlock =>
    obtain ⟨-, u, hsup, rfl⟩ := setramrate_spec h
    -- growing the market reserves nothing
    have heq := (updateRamSupply_spec hsup).eq
    exact ⟨by rw [heq], by rw [heq]⟩
  | buyram payer receiver quant => cases hother
  | buyrambytes payer receiver bytes => cases hother
  | sellram account bytes => cases hother
  | delegatebw from_ receiver net cpu transfer =>
    obtain ⟨u, sends, token, hr, -, rfl⟩ := commit_eq_ok.mp h
    -- a change of stake leaves them, too
    obtain ⟨-, -, -, -, hchange⟩ := delegatebw_spec hS.rows hS.noRex hS.stakedOf_nonneg hcore hr
    exact ⟨hchange.totalRamBytesReserved, hchange.totalRamStake⟩
  | undelegatebw from_ receiver net cpu =>
    obtain ⟨u, sends, token, hr, -, rfl⟩ := commit_eq_ok.mp h
    obtain ⟨-, -, -, -, hchange⟩ := undelegatebw_spec hS.rows hS.noRex hS.stakedOf_nonneg hcore hr
    exact ⟨hchange.totalRamBytesReserved, hchange.totalRamStake⟩
  | refund owner =>
    obtain ⟨u, sends, token, hr, -, rfl⟩ := commit_eq_ok.mp h
    obtain ⟨q, amount, -, -, -, rfl, -⟩ := refund_spec hS.rows hr
    exact ⟨rfl, rfl⟩
  | voteproducer voterName proxy producers => exact hvote (voteproducer_frame hS.noRex h)
  | regproxy proxy isproxy => exact hvote (regproxy_frame h)
  | token action =>
    obtain ⟨token, -, rfl⟩ := step_token_spec h
    exact ⟨rfl, rfl⟩
  | producers producers producers2 scheduleSize =>
    simp only [step, Except.ok.injEq] at h
    subst h
    exact ⟨rfl, rfl⟩

/-- No call but a trade of RAM lowers the UTXRAM balance of `eosio.ram`. -/
def KeepsRamTokens (s : SystemState F) (call : SystemCall F) : Prop :=
  tradesRam call.action = false → s.ramBalance ≤ (Run.next step s call).ramBalance

instance (s : SystemState F) (call : SystemCall F) : Decidable (KeepsRamTokens s call) :=
  inferInstanceAs (Decidable (_ → _))

/-- A call that keeps the tokens of `eosio.ram` keeps the ledger. -/
theorem step_ledgerInv {s s' : SystemState F} {call : SystemCall F} (hI : s.LedgerInv)
    (hkeep : KeepsRamTokens s call) (h : s.step call = .ok s') : s'.LedgerInv := by
  have hcore := step_coreToken hI.core h
  cases hother : tradesRam call.action with
  -- a trade moves bytes and tokens together
  | true =>
    obtain ⟨ctx, action⟩ := call
    cases action with
    | buyram payer receiver quant =>
      obtain ⟨u, sends, token, hr, hrun, rfl⟩ := commit_eq_ok.mp h
      exact buyram_ledger hI hr hrun hcore
    | buyrambytes payer receiver bytes =>
      obtain ⟨u, sends, token, hr, hrun, rfl⟩ := commit_eq_ok.mp h
      exact buyram_ledger hI (buyrambytes_spec hr) hrun hcore
    | sellram account bytes =>
      obtain ⟨u, sends, token, hr, hrun, rfl⟩ := commit_eq_ok.mp h
      exact sellram_ledger hI hr hrun hcore
    | _ => cases hother
  | false =>
    -- the other calls do not move the totals
    obtain ⟨hreserved, hstake⟩ := step_ramTotals hI.core.stake hother h
    have hle := hkeep hother
    rw [Run.next_of_ok h] at hle
    obtain ⟨sends, ht⟩ := step_tokens hI.core.stake h
    obtain ⟨-, htokens⟩ := runInline_inv hI.core.token ht
    have hbuys : ramPurchase call.action = none := by
      obtain ⟨ctx, action⟩ := call
      cases action with
      | buyram => cases hother
      | buyrambytes => cases hother
      | _ => rfl
    refine ⟨hcore, ?_, ?_, ?_, fun hpos => ?_⟩
    · -- and write no RAM
      refine step_ramRows hI.core.stake hI.ram (fun bytes hbytes => ?_) h
      rw [hbuys] at hbytes
      cases hbytes
    · rw [hreserved, hstake]
      exact hI.price
    · -- the balance does not shrink
      rw [hstake]
      exact hI.paid.trans hle
    · rw [hstake] at hpos
      obtain ⟨hmarket, st, hst, hsym⟩ := hI.market hpos
      obtain ⟨st', hst', hsame, -⟩ := htokens _ st hst
      refine ⟨?_, st', hst', hsame.trans hsym⟩
      rw [(step_sameMarket hI.core.stake hmarket h).isSome]
      exact hmarket

/-! ## Sales -/

/-- The inline transfer of a sale. -/
def saleOf (account : Name) (bytes : Int64) : InlineAction :=
  ⟨[ramAccount, account],
    .transfer ramAccount account ⟨bytes / 1024 * 10000, ramcoreSymbol⟩ "sell ram"⟩

omit [Double F] in
/-- Whole kilobytes of an account can be sold; the totals go down by the bytes and by
    their price. -/
theorem sellram_ok {ctx : Context} {s : SystemState F} {account : Name} {u : UserResources}
    {bytes : Int64} (hI : s.LedgerInv) (hauth : account ∈ ctx.auth)
    (hu : s.userres.find? account = some u) (hpos : 0 < bytes.toInt) (hmod : bytes % 1024 = 0)
    (hle : bytes.toInt ≤ u.ramBytes.toInt) :
    ∃ s', s.sellram ctx account bytes = .ok (s', [saleOf account bytes]) ∧ s'.token = s.token ∧
      (s'.gstate.totalRamBytesReserved.toNat : Int) =
        s.gstate.totalRamBytesReserved.toNat - bytes.toInt ∧
      0 ≤ s'.gstate.totalRamStake.toInt ∧ s'.gstate.totalRamStake.toInt =
        s.gstate.totalRamStake.toInt - (bytes / 1024 * 10000).toInt := by
  -- the quota of the account is a part of what is reserved
  have hquota := hI.ram.valueAt_le account
  rw [Table.valueAt_some hu] at hquota
  have hquota : u.ramBytes.toInt ≤ s.gstate.totalRamBytesReserved.toNat := hquota
  obtain ⟨hstake0, hstake⟩ := hI.totalRamStake_bounds
  have hprice := hI.price
  -- the bytes cost no more than what has been paid for all
  obtain ⟨hcost, hcost'⟩ := sellram_price hmod hpos (by omega)
  obtain ⟨hmarket, -⟩ := hI.market (by omega)
  obtain ⟨s₁, hsup⟩ := updateRamSupply_ok ctx hmarket
  have hgrow := updateRamSupply_spec hsup
  have hstake₁ : s₁.gstate.totalRamStake = s.gstate.totalRamStake := by rw [hgrow.eq]
  have hsub := Int64.toInt_sub_of_mem (a := s.gstate.totalRamStake) (b := bytes / 1024 * 10000)
    (by omega) (by omega)
  have huser : s₁.userres.find? account = some u := by
    rw [hgrow.eq]
    exact hu
  -- every check of `sellram` passes
  have hsell : ∃ s', s.sellram ctx account bytes = .ok (s', [saleOf account bytes]) := by
    simp only [sellram, bind_eq_ok, check_eq_ok, getRow_eq_ok, pure_eq_ok, requireAuth_eq_ok,
      Asset.make_eq_ok, Prod.mk.injEq]
    refine ⟨_, (), hauth, s₁, hsup, (), ?_, (), hmod, u, huser, (), ?_, (), ?_, _,
      ⟨by omega, by omega, by decide, rfl⟩, (), ?_, (), ?_, rfl, rfl⟩
    · rw [gt_iff_lt, Int64.lt_iff_toInt_lt, Int64.toInt_zero]
      exact hpos
    · exact Int64.le_iff_toInt_le.mpr hle
    · rw [hgrow.market]
      exact hmarket
    · show (1 : Int64) < bytes / 1024 * 10000
      rw [Int64.lt_iff_toInt_lt]
      show 1 < (bytes / 1024 * 10000).toInt
      omega
    · show (0 : Int64) ≤ s₁.gstate.totalRamStake - bytes / 1024 * 10000
      rw [Int64.le_iff_toInt_le, hstake₁, hsub, Int64.toInt_zero]
      omega
  obtain ⟨s', hsell⟩ := hsell
  have hreserved := (sellram_ramRows hI.ram hsell).2.2
  -- and the state after it is the one of its specification
  obtain ⟨s₂, res, limits, hsup₂, -, -, -, -, -, rfl, -⟩ := sellram_spec hsell
  have hgrow₂ := updateRamSupply_spec hsup₂
  have hstake₂ : s₂.gstate.totalRamStake = s.gstate.totalRamStake := by rw [hgrow₂.eq]
  have htoken₂ : s₂.token = s.token := by rw [hgrow₂.eq]
  refine ⟨_, hsell, htoken₂, hreserved, ?_, ?_⟩
  · show 0 ≤ (s₂.gstate.totalRamStake - bytes / 1024 * 10000).toInt
    rw [hstake₂, hsub]
    omega
  · show (s₂.gstate.totalRamStake - bytes / 1024 * 10000).toInt = _
    rw [hstake₂, hsub]

/-- A sale by another account than `eosio.ram` can be paid. -/
theorem sale_paid {ctx : Context} {s : SystemState F} {account : Name} {u : UserResources}
    {bytes : Int64} (hI : s.LedgerInv) (hauth : account ∈ ctx.auth)
    (haccount : ctx.isAccount account) (hne : account ≠ ramAccount)
    (hu : s.userres.find? account = some u) (hpos : 0 < bytes.toInt) (hmod : bytes % 1024 = 0)
    (hle : bytes.toInt ≤ u.ramBytes.toInt) :
    ∃ s', s.step ⟨ctx, .sellram account bytes⟩ = .ok s' := by
  obtain ⟨s', hsell, htoken, hreserved, hstake, hcost⟩ := sellram_ok hI hauth hu hpos hmod hle
  have hprice := hI.price
  have hpaid := hI.paid
  obtain ⟨hstake0, hbound⟩ := hI.totalRamStake_bounds
  obtain ⟨hcost0, hcost'⟩ := sellram_price hmod hpos (by omega)
  obtain ⟨-, st, hst, hsym⟩ := hI.market (by omega)
  obtain ⟨token, hpay⟩ : ∃ token, s.token.transfer (ctx.withAuth [ramAccount, account]) ramAccount
      account ⟨bytes / 1024 * 10000, ramcoreSymbol⟩ "sell ram" = .ok token := by
    have haccount : (ctx.withAuth [ramAccount, account]).isAccount account := haccount
    apply TokenState.transfer_ok hI.core.token hne.symm List.mem_cons_self haccount hst
    · exact hsym.symm
    · exact hcost0
    · decide
    · show (bytes / 1024 * 10000).toInt ≤ s.ramBalance
      omega
  refine ⟨{ s' with token := token }, commit_eq_ok.mpr ⟨s', _, token, hsell, ?_, rfl⟩⟩
  rw [htoken]
  exact runInline_singleton.mpr hpay

theorem genesis_ledgerInv (maxBlockNetUsage : UInt64) (maxBlockCpuUsage : UInt32) :
    (genesis maxBlockNetUsage maxBlockCpuUsage : SystemState F).LedgerInv where
  core := genesis_coreToken _ _
  ram := genesis_ramRows _ _
  price := by
    show (0 : Int64).toInt * 1024 = ((0 : UInt64).toNat : Int) * 10000
    decide
  paid := le_refl 0
  market := fun h => absurd h (lt_irrefl 0)

/-- In every run in which `eosio.ram` does not spend its tokens otherwise, the reserved RAM
    is what the accounts have, in whole kilobytes, and it has been paid for with tokens
    that `eosio.ram` still holds. What an account has can be sold at any time: the totals
    do not go below zero, and every seller but `eosio.ram` is paid. -/
theorem ram_ledger (maxBlockNetUsage : UInt64) (maxBlockCpuUsage : UInt32)
    {calls : List (SystemCall F)}
    (h : Run.Meets step KeepsRamTokens (genesis maxBlockNetUsage maxBlockCpuUsage) calls) :
    let s := Run.exec step (genesis maxBlockNetUsage maxBlockCpuUsage) calls
    s.userres.sumOn (fun _ => True) UserResources.ram = s.gstate.totalRamBytesReserved.toNat ∧
    (∀ r u, s.userres.find? r = some u → 0 ≤ u.ram ∧ 1024 ∣ u.ram) ∧
    s.gstate.totalRamStake.toInt * 1024 = s.gstate.totalRamBytesReserved.toNat * 10000 ∧
    s.gstate.totalRamStake.toInt ≤ s.ramBalance ∧
    ∀ ctx account u bytes, s.userres.find? account = some u → account ∈ ctx.auth →
      0 < bytes.toInt → bytes % 1024 = 0 → bytes.toInt ≤ u.ramBytes.toInt →
      (∃ s', s.sellram ctx account bytes = .ok (s', [saleOf account bytes]) ∧
        (s'.gstate.totalRamBytesReserved.toNat : Int) =
          s.gstate.totalRamBytesReserved.toNat - bytes.toInt ∧
        0 ≤ s'.gstate.totalRamStake.toInt ∧ s'.gstate.totalRamStake.toInt =
          s.gstate.totalRamStake.toInt - (bytes / 1024 * 10000).toInt) ∧
      (account ≠ ramAccount → ctx.isAccount account →
        ∃ s', s.step ⟨ctx, .sellram account bytes⟩ = .ok s') := by
  intro s
  have hI : s.LedgerInv :=
    Run.exec_of_meets (I := LedgerInv) (fun _ _ _ hI hkeep hs => step_ledgerInv hI hkeep hs)
      (genesis_ledgerInv _ _) h
  refine ⟨hI.ram.sum, fun r u hr => ⟨hI.ram.nonneg r u hr, hI.ram.kilobytes r u hr⟩, hI.price,
    hI.paid, ?_⟩
  intro ctx account u bytes hu hauth hpos hmod hle
  obtain ⟨s', hsell, -, htotals⟩ := sellram_ok hI hauth hu hpos hmod hle
  exact ⟨⟨s', hsell, htotals⟩,
    fun hne haccount => sale_paid hI hauth haccount hne hu hpos hmod hle⟩

/-- Alice gives `eosio.ram` a kilobyte. -/
def Sample.selfSale : List (SystemCall Rat) :=
  setup ++ [⟨ctx [alice] launch, .buyram alice ramAccount (utxram 10000)⟩]

open Sample in
/-- `eosio.ram` cannot sell its kilobyte, since it cannot transfer tokens to itself. -/
theorem ramAccount_cannot_sell :
    Run.Meets step KeepsRamTokens (genesis 1048576 200000) selfSale ∧
    let s := Run.exec step (genesis 1048576 200000) selfSale
    s.userres.valueAt ramAccount UserResources.ram = 1024 ∧
      (s.step ⟨ctx [ramAccount] launch, .sellram ramAccount 1024⟩).map (fun _ => ()) =
        .error "cannot transfer to self" := by
  decide +kernel

/-- Bob is given two kilobytes and sells one. -/
def Sample.trading : List (SystemCall Rat) :=
  setup ++ [⟨ctx [alice] launch, .buyram alice bob (utxram 20000)⟩,
    ⟨ctx [bob] launch, .sellram bob 1024⟩]

/-- The reserved RAM of the sample is the kilobyte that is left. -/
theorem ram_ledger_sample :
    let s := Run.exec step (genesis 1048576 200000) Sample.trading
    s.gstate.totalRamBytesReserved = 1024 ∧
      s.userres.sumOn (fun _ => True) UserResources.ram = s.gstate.totalRamBytesReserved.toNat ∧
      s.gstate.totalRamStake.toInt ≤ s.ramBalance := by
  have hkeep : Run.Meets step KeepsRamTokens (genesis 1048576 200000) Sample.trading := by
    decide +kernel
  obtain ⟨hsum, -, -, hpaid, -⟩ := ram_ledger 1048576 200000 hkeep
  exact ⟨by decide +kernel, hsum, hpaid⟩

end SystemState

end UxContracts
