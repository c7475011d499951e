import UxContracts.Spec.DeploymentRows
import UxContracts.Spec.RamLedger
import UxContracts.Spec.StakeBacking
import UxContracts.Spec.TokenAuthority

/-!
# All that is owed is there

Four accounts hold tokens for others: `eosio.stake` the stakes and the refunds, `eosio.names`
the bids, `eosio.bpay` the pay of the producers and `eosio.ram` what has been paid for RAM.
Each is solvent in the runs of its own machine; here all actions of the deployed contracts are
interleaved, and the only assumption is that nobody signs for these accounts (`Keyless`).
-/

namespace UxContracts

/-- The accounts that hold what is owed to others. -/
def escrowAccounts : List Name := [stakeAccount, namesAccount, bpayAccount, ramAccount]

theorem stake_mem_escrow : stakeAccount ∈ escrowAccounts := by decide +kernel
theorem names_mem_escrow : namesAccount ∈ escrowAccounts := by decide +kernel
theorem bpay_mem_escrow : bpayAccount ∈ escrowAccounts := by decide +kernel
theorem ram_mem_escrow : ramAccount ∈ escrowAccounts := by decide +kernel
theorem system_not_mem_escrow : systemAccount ∉ escrowAccounts := by decide +kernel
theorem upay_not_mem_escrow : upayAccount ∉ escrowAccounts := by decide +kernel

namespace SystemState

variable {F : Type}

/-! ## Changes of other tables -/

/-- The ledgers of stake and RAM are the same. -/
structure SameLedgers (s s' : SystemState F) : Prop where
  rammarket : s'.rammarket = s.rammarket
  delband : s'.delband = s.delband
  refunds : s'.refunds = s.refunds
  userres : s'.userres = s.userres
  totalRamBytesReserved : s'.gstate.totalRamBytesReserved = s.gstate.totalRamBytesReserved
  totalRamStake : s'.gstate.totalRamStake = s.gstate.totalRamStake

theorem Books.sameLedgers {s s' : SystemState F} (h : Books s s') : SameLedgers s s' :=
  ⟨h.rammarket, h.delband, h.refunds, h.userres, h.totalRamBytesReserved, h.totalRamStake⟩

namespace SameLedgers

variable {s s' : SystemState F}

/-- Tokens are not part of the ledgers. -/
theorem of_token (s : SystemState F) (token : TokenState) :
    SameLedgers s { s with token := token } :=
  ⟨rfl, rfl, rfl, rfl, rfl, rfl⟩

theorem of_sameSystem (h : AuctionState.SameSystem s s') : SameLedgers s s' := by
  rw [h]
  exact ⟨rfl, rfl, rfl, rfl, rfl, rfl⟩

theorem coreSym (h : SameLedgers s s') : s'.coreSym = s.coreSym := by
  unfold SystemState.coreSym
  rw [h.rammarket]

/-- What the stakes ask for is read from the ledgers. -/
theorem backing (h : SameLedgers s s') : s'.backing = s.backing := by
  unfold SystemState.backing
  rw [h.delband, h.refunds]

/-- The ledger of RAM when `eosio.ram` has lost no tokens. -/
theorem ledgerInv (h : SameLedgers s s') (hI : s.LedgerInv) (core : s'.CoreToken)
    (tokens : TokenState.KeepsTokens s.token s'.token) (hle : s.ramBalance ≤ s'.ramBalance) :
    s'.LedgerInv where
  core := core
  ram := hI.ram.of_eq h.userres h.totalRamBytesReserved
  price := by
    rw [h.totalRamStake, h.totalRamBytesReserved]
    exact hI.price
  paid := by
    rw [h.totalRamStake]
    exact hI.paid.trans hle
  market := by
    rw [h.totalRamStake, h.rammarket]
    intro hpos
    obtain ⟨hm, st, hst, hsym⟩ := hI.market hpos
    obtain ⟨st', hst', hsame, -⟩ := tokens _ st hst
    exact ⟨hm, st', hst', hsame.trans hsym⟩

end SameLedgers

end SystemState

namespace Deployment

open SystemState

variable {F K H : Type}

/-- Nobody signs for the four accounts. -/
def Keyless (call : DeploymentCall F K H) : Prop := ∀ o ∈ escrowAccounts, o ∉ call.ctx.auth

instance (call : DeploymentCall F K H) : Decidable (Keyless call) :=
  inferInstanceAs (Decidable (∀ _ ∈ _, _))

/-! ## The invariant -/

/-- The rows of all ledgers are proper, and each of the four accounts has what it owes. -/
structure Solvent (d : Deployment F K H) : Prop extends Proper d where
  ram : d.sys.LedgerInv
  noStake : d.sys.rammarket = none → d.sys.delband = ∅
  noRefund : d.sys.refunds.find? stakeAccount = none
  stake : d.sys.backing ≤ d.sys.stakeBalance
  names : d.auction.held ≤ d.auction.namesBalance
  pay : ResourceState.payTotal d.prodpay ≤ d.resource.coreBalance bpayAccount

namespace Solvent

variable {d d' : Deployment F K H}

/-- Nothing is bid before there is a market. -/
theorem held_eq_zero {s : AuctionState F} (hI : s.EscrowInv) (hm : s.sys.rammarket = none) :
    s.held = 0 := by
  have hopen : s.openBids = 0 := by
    refine (Table.sum_congr fun n b hb => ?_).trans (Table.sumOn_eq_zero (p := fun _ => False)
      (f := fun b : NameBid => max b.highBid.toInt 0) fun _ _ _ => id)
    have hsome := (hI.bids n b hb).1
    rw [hm] at hsome
    cases hsome
  have howed : s.owedRefunds = 0 := by
    refine (Table.sum_congr fun k a ha => ?_).trans (Table.sumOn_eq_zero (p := fun _ => False)
      (f := fun a : Asset => a.amount.toInt) fun _ _ _ => id)
    have hsome := (hI.refunds k a ha).1
    rw [hm] at hsome
    cases hsome
  unfold AuctionState.held
  rw [hopen, howed]
  rfl

/-- Nothing is staked before there is a market. -/
theorem backing_eq_zero (hI : Solvent d) (hm : d.sys.rammarket = none) : d.sys.backing = 0 := by
  unfold SystemState.backing
  rw [hI.noStake hm, hI.core.stake.uninit hm]
  rfl

/-! ## Actions of the system contract -/

variable [Double F]

/-- Who stakes has signed. -/
theorem staker_auth {ctx : Context} {a : SystemAction F} {s s' : SystemState F} {f : Name}
    (h : s.step ⟨ctx, a⟩ = .ok s') (hf : staker a = some f) : f ∈ ctx.auth := by
  cases a with
  | delegatebw from_ receiver net cpu transfer =>
    cases hf
    obtain ⟨u, sends, token, hr, -, -⟩ := commit_eq_ok.mp h
    obtain ⟨sym, -, -, -, -, hbw⟩ := delegatebw_changebw hr
    exact changebw_auth hbw
  | undelegatebw from_ receiver net cpu =>
    cases hf
    obtain ⟨u, sends, token, hr, -, -⟩ := commit_eq_ok.mp h
    obtain ⟨sym, -, -, -, -, -, hbw⟩ := undelegatebw_changebw hr
    exact changebw_auth hbw
  | _ => cases hf

omit [Double F] in
/-- Stake is paid back by `eosio.stake`, and sold RAM is paid for by `eosio.ram`. -/
theorem paysFrom_cases {a : SystemAction F} {o : Name} (h : a.paysFrom = some o) :
    (o = stakeAccount ∧ movesStake a = true) ∨ (o = ramAccount ∧ tradesRam a = true) := by
  cases a with
  | refund => exact .inl ⟨(Option.some.inj h).symm, rfl⟩
  | sellram => exact .inr ⟨(Option.some.inj h).symm, rfl⟩
  | _ => cases h

/-- Before there is a market nothing is staked and nothing paid back. -/
theorem step_uninit {s s' : SystemState F} {call : SystemCall F} (hI : s.StakeInv)
    (hm : s.rammarket = none) (h : s.step call = .ok s') :
    s'.delband = s.delband ∧ s'.refunds = s.refunds := by
  obtain ⟨ctx, action⟩ := call
  -- the actions that move stake need the core symbol
  have hno : ∀ {sym : Symbol}, s.coreSymbol ≠ .ok sym := by
    intro sym hsym
    have hsome := rammarket_isSome_of_ok hsym
    rw [hm] at hsome
    cases hsome
  cases hmoves : movesStake action with
  | false =>
    cases hinit : isInit action with
    | false =>
      -- the others leave the rows
      have hframe := step_stakeFrame hI.noRex hinit hmoves h
      exact ⟨hframe.delband, hframe.refunds⟩
    | true =>
      cases action with
      | init version core =>
        obtain ⟨u, sends, token, hr, -, rfl⟩ := commit_eq_ok.mp h
        obtain ⟨m, -, -, -, rfl, -⟩ := init_spec hr
        exact ⟨rfl, rfl⟩
      | _ => cases hinit
  | true =>
    cases action with
    | delegatebw from_ receiver net cpu transfer =>
      obtain ⟨u, sends, token, hr, -, -⟩ := commit_eq_ok.mp h
      obtain ⟨sym, hsym, -⟩ := delegatebw_changebw hr
      exact absurd hsym hno
    | undelegatebw from_ receiver net cpu =>
      obtain ⟨u, sends, token, hr, -, -⟩ := commit_eq_ok.mp h
      obtain ⟨sym, hsym, -⟩ := undelegatebw_changebw hr
      exact absurd hsym hno
    | refund owner =>
      obtain ⟨u, sends, token, hr, -, -⟩ := commit_eq_ok.mp h
      obtain ⟨q, amount, hq, -⟩ := refund_cases hr
      -- nor is there a refund to be paid
      rw [hI.uninit hm, Table.find?_empty] at hq
      cases hq
    | _ => cases hmoves

/-- A step of the system contract in which `eosio.stake` does not stake and the four accounts
    spend for the purpose of the action only. -/
theorem system (hI : Solvent d) {ctx : Context} {a : SystemAction F} {s' : SystemState F}
    (h : d.sys.step ⟨ctx, a⟩ = .ok s') (hstaker : staker a ≠ some stakeAccount)
    (hkeep : ∀ o ∈ escrowAccounts, a.paysFrom ≠ some o → ∀ c,
      d.sys.token.balance o c ≤ s'.token.balance o c) : Solvent (d.setSys s') := by
  have hcore := step_coreToken hI.core h
  have hmarket := fun hm => step_sameMarket hI.core.stake hm h
  have hnext := Run.next_of_ok h
  -- only the accounts of stake and RAM pay by an action of this kind
  have hpays : ∀ o, o ≠ stakeAccount → o ≠ ramAccount → a.paysFrom ≠ some o := by
    intro o hs hr hp
    rcases paysFrom_cases hp with ⟨he, -⟩ | ⟨he, -⟩
    · exact hs he
    · exact hr he
  -- the core symbol does not change any more
  have hsym : d.sys.rammarket.isSome → s'.coreSym = d.sys.coreSym := fun hm => (hmarket hm).coreSym
  have hsome : s'.rammarket = none → d.sys.rammarket = none :=
    Proper.market_none fun hm => (hmarket hm).isSome ▸ hm
  refine ⟨hI.toProper.system h, ?_, fun hm => ?_, step_noRefund hI.core.stake hI.noRefund h, ?_, ?_,
    ?_⟩
  -- only a trade pays from the RAM account
  · refine step_ledgerInv hI.ram (fun hother => ?_) h
    rw [hnext]
    refine hkeep ramAccount ram_mem_escrow (fun hp => ?_) _
    rcases paysFrom_cases hp with ⟨he, -⟩ | ⟨-, htrades⟩
    · exact absurd he (by decide +kernel)
    · rw [htrades] at hother
      cases hother
  · -- before `init` nothing is staked
    exact ((step_uninit hI.core.stake (hsome hm) h).1).trans (hI.noStake (hsome hm))
  · cases hm : d.sys.rammarket with
    | none =>
      -- and nothing backs a row
      have hbacking : s'.backing = d.sys.backing := by
        obtain ⟨hdelband, hrefunds⟩ := step_uninit hI.core.stake hm h
        unfold backing
        rw [hdelband, hrefunds]
      rw [sys_setSys, hbacking, hI.backing_eq_zero hm]
      exact hcore.token.balance_nonneg _ _
    | some m =>
      have hisSome : d.sys.rammarket.isSome := by rw [hm]; rfl
      -- only what moves stake pays from its account
      have hkeeps : KeepsStake d.sys ⟨ctx, a⟩ := by
        refine ⟨hstaker, fun hother => ?_⟩
        rw [hnext]
        unfold stakeBalance
        rw [hsym hisSome]
        refine hkeep stakeAccount stake_mem_escrow (fun hp => ?_) _
        rcases paysFrom_cases hp with ⟨-, hmoves⟩ | ⟨he, -⟩
        · rw [hmoves] at hother
          cases hother
        · exact absurd he (by decide +kernel)
      have hle := (step_surplus ⟨hI.core, hisSome, hI.noRefund⟩ hkeeps h).1
      have hstake := hI.stake
      unfold surplus at hle
      rw [sys_setSys]
      omega
  -- what is owed for names is the same, and nothing pays from its account
  · rw [AuctionState.step_held hI.escrow rfl (Proper.auction_system h)]
    cases hm : d.sys.rammarket with
    | none =>
      rw [held_eq_zero hI.escrow hm]
      exact hcore.token.balance_nonneg _ _
    | some m =>
      have hbal := hkeep namesAccount names_mem_escrow
        (hpays _ (by decide +kernel) (by decide +kernel)) d.sys.coreSym.code
      refine hI.names.trans (hbal.trans ?_)
      show _ ≤ s'.token.balance namesAccount s'.coreSym.code
      rw [hsym (by rw [hm]; rfl)]
  -- nor from the account of producer pay
  · cases hm : d.sys.rammarket with
    | none =>
      rw [show (d.setSys s').prodpay = ∅ from hI.noPay hm]
      exact hcore.token.balance_nonneg _ _
    | some m =>
      have hbal := hkeep bpayAccount bpay_mem_escrow
        (hpays _ (by decide +kernel) (by decide +kernel)) d.sys.coreSym.code
      refine hI.pay.trans (hbal.trans ?_)
      show _ ≤ s'.token.balance bpayAccount s'.coreSym.code
      rw [hsym (by rw [hm]; rfl)]

/-! ## The other calls -/

omit [Double F] in
/-- A call that keeps the ledgers of stake and RAM and takes no tokens from their accounts. -/
theorem of_sameLedgers (hI : Solvent d) (proper : Proper d') (ledgers : SameLedgers d.sys d'.sys)
    (tokens : TokenState.KeepsTokens d.sys.token d'.sys.token)
    (hstake : ∀ c, d.sys.token.balance stakeAccount c ≤ d'.sys.token.balance stakeAccount c)
    (hram : ∀ c, d.sys.token.balance ramAccount c ≤ d'.sys.token.balance ramAccount c)
    (names : d'.auction.held ≤ d'.auction.namesBalance)
    (pay : ResourceState.payTotal d'.prodpay ≤ d'.resource.coreBalance bpayAccount) :
    Solvent d' where
  toProper := proper
  ram := ledgers.ledgerInv hI.ram proper.core tokens (hram _)
  noStake := fun hm => by
    rw [ledgers.delband]
    exact hI.noStake (ledgers.rammarket ▸ hm)
  noRefund := by
    rw [ledgers.refunds]
    exact hI.noRefund
  stake := by
    unfold stakeBalance
    rw [ledgers.backing, ledgers.coreSym]
    exact hI.stake.trans (hstake _)
  names := names
  pay := pay

omit [Double F] in
/-- The bids when their rows are the same. -/
theorem names_of_same (hI : Solvent d) (bids : d'.sys.bids = d.sys.bids)
    (refunds : d'.auction.bidRefunds = d.auction.bidRefunds)
    (hsym : d'.sys.coreSym = d.sys.coreSym)
    (hbal : ∀ c, d.sys.token.balance namesAccount c ≤ d'.sys.token.balance namesAccount c) :
    d'.auction.held ≤ d'.auction.namesBalance := by
  have hheld : d'.auction.held = d.auction.held := by
    unfold AuctionState.held AuctionState.openBids AuctionState.owedRefunds
    rw [refunds, show d'.auction.sys.bids = d.auction.sys.bids from bids]
  rw [hheld]
  refine hI.names.trans ((hbal d.sys.coreSym.code).trans ?_)
  show _ ≤ d'.sys.token.balance namesAccount d'.sys.coreSym.code
  rw [hsym]

omit [Double F] in
/-- The pay of the producers when their rows are the same. -/
theorem pay_of_same (hI : Solvent d) (same : d'.prodpay = d.prodpay)
    (hsym : d'.sys.coreSym = d.sys.coreSym)
    (hbal : ∀ c, d.sys.token.balance bpayAccount c ≤ d'.sys.token.balance bpayAccount c) :
    ResourceState.payTotal d'.prodpay ≤ d'.resource.coreBalance bpayAccount := by
  rw [same]
  refine hI.pay.trans ((hbal d.sys.coreSym.code).trans ?_)
  show _ ≤ d'.sys.token.balance bpayAccount d'.sys.coreSym.code
  rw [hsym]

/-- A call of the auctions. -/
theorem auctions (hI : Solvent d) {call : AuctionCall F}
    (hcall : AuctionState.isSystem call.action = false)
    (h : d.auction.step call = .ok d'.auction) (same : SameResource d d')
    (hauth : ∀ o ∈ escrowAccounts, o ∉ call.ctx.auth) : Solvent d' := by
  obtain ⟨hsame, sends, hrun⟩ := AuctionState.step_tokens hcall h
  have hledgers : SameLedgers d.sys d'.sys := .of_sameSystem hsame
  have hbal : ∀ o ∈ escrowAccounts, namesAccount ≠ o → ∀ c,
      d.sys.token.balance o c ≤ d'.sys.token.balance o c := fun o ho hne =>
    AuctionState.step_balance_le hI.escrow hcall h (AuctionState.bidder_ne h (hauth o ho)) hne
  refine hI.of_sameLedgers (hI.toProper.auctions hcall h same) hledgers
    (runInline_inv hI.core.token hrun).2
    (hbal stakeAccount stake_mem_escrow (by decide +kernel))
    (hbal ramAccount ram_mem_escrow (by decide +kernel)) ?_
    (hI.pay_of_same same.prodpay hledgers.coreSym
      (hbal bpayAccount bpay_mem_escrow (by decide +kernel)))
  have hsurplus := AuctionState.step_surplus hI.escrow hcall h
  have hle := hI.names
  unfold AuctionState.surplus at hsurplus
  omega

omit [Double F] in
/-- A call that keeps the books. -/
theorem books (hI : Solvent d) (h : Books d.sys d'.sys) (same : SameResource d d')
    (refunds : d'.auction.bidRefunds = d.auction.bidRefunds) : Solvent d' := by
  have htokens : TokenState.KeepsTokens d.sys.token d'.sys.token := by
    rw [h.token]
    exact .refl _
  have hbal : ∀ o c, d.sys.token.balance o c ≤ d'.sys.token.balance o c := by
    intro o c
    rw [h.token]
  exact hI.of_sameLedgers (hI.toProper.books h same refunds) h.sameLedgers htokens
    (hbal stakeAccount) (hbal ramAccount)
    (hI.names_of_same h.bids refunds h.coreSym (hbal namesAccount))
    (hI.pay_of_same same.prodpay h.coreSym (hbal bpayAccount))

omit [Double F] in
/-- Of the four accounts, an action of the resource model pays from `eosio.bpay` only, when a
    producer claims. -/
theorem own_paysFrom {a : ResourceAction F H} (own : a.isOwn) {o : Name} (ho : o ∈ escrowAccounts)
    (h : a.paysFrom = some o) : o = bpayAccount ∧ ResourceState.claimant a ≠ none := by
  cases a with
  | settotalusg => exact absurd ho (Option.some.inj h ▸ system_not_mem_escrow)
  | claimdistrib => exact absurd ho (Option.some.inj h ▸ upay_not_mem_escrow)
  | claimrewards => exact ⟨(Option.some.inj h).symm, by simp [ResourceState.claimant]⟩
  | system => cases own
  | _ => cases h

variable [Checksum H]

/-- A call of the resource model: its inline actions take tokens from the system account, from
    `eosio.upay`, or from `eosio.bpay` for a producer that claims. -/
theorem resources (hI : Solvent d) {call : ResourceCall F H} (own : call.action.isOwn)
    (h : d.resource.step call = .ok d'.resource) (rest : d' = d.setResource d'.resource)
    (hauth : ∀ o ∈ escrowAccounts, o ∉ call.ctx.auth) : Solvent d' := by
  obtain ⟨hsys, htokens⟩ : d'.sys = { d.sys with token := d'.sys.token } ∧ _ :=
    ResourceState.own_sys hI.core.token own h
  -- the ledgers of the system contract are as before
  have hledgers : SameLedgers d.sys d'.sys := hsys ▸ .of_token d.sys d'.sys.token
  have hbids : d'.sys.bids = d.sys.bids := by rw [hsys]
  have hrefunds : d'.auction.bidRefunds = d.auction.bidRefunds := by
    rw [rest]
    rfl
  -- no custodian pays, except for producers that claim
  have hbal : ∀ o ∈ escrowAccounts, (o = bpayAccount → ResourceState.claimant call.action = none) →
      ∀ c, d.sys.token.balance o c ≤ d'.sys.token.balance o c := by
    intro o ho hclaim
    refine ResourceState.step_balance_le hI.core h (.inr (hauth o ho)) fun hp => ?_
    obtain ⟨hb, hsome⟩ := own_paysFrom own ho hp
    exact hsome (hclaim hb)
  refine hI.of_sameLedgers (hI.toProper.resources own h rest) hledgers htokens
    (hbal stakeAccount stake_mem_escrow fun he => absurd he (by decide +kernel))
    (hbal ramAccount ram_mem_escrow fun he => absurd he (by decide +kernel))
    (hI.names_of_same hbids hrefunds hledgers.coreSym
      (hbal namesAccount names_mem_escrow fun he => absurd he (by decide +kernel))) ?_
  -- the pay of the producers is covered by their account
  refine ResourceState.step_payBacked hI.toProper.payInv hI.pay (fun hnone => ?_) h
  rw [Run.next_of_ok h]
  show _ ≤ d'.sys.token.balance bpayAccount d'.sys.coreSym.code
  rw [hledgers.coreSym]
  exact hbal bpayAccount bpay_mem_escrow (fun _ => hnone) _

variable [Inhabited K]

/-- A call keeps all four accounts solvent, if it is not signed for them. -/
theorem step {isValid : BlockSigningAuthority K → Bool} {call : DeploymentCall F K H}
    (hI : Solvent d) (hkeyless : Keyless call) (h : d.step isValid call = .ok d') : Solvent d' := by
  cases step_change h with
  | system a direct action hstep rest =>
    rw [rest]
    -- the custodians have not signed
    refine hI.system hstep (fun hs => ?_) fun o ho hp c =>
      SystemState.step_balance_le hI.core hstep (.inr (hkeyless o ho)) hp c
    exact hkeyless stakeAccount stake_mem_escrow (staker_auth hstep hs)
  | auction a action hstep same =>
    exact hI.auctions (isSystem_auctionAction action) hstep same hkeyless
  | books action books same refunds => exact hI.books books same refunds
  | resource a own action hstep rest => exact hI.resources own hstep rest hkeyless
  | deferred sender trx u action taken run rest =>
    have hI : Solvent (d.setSys u) := hI.books (.of_takeDeferred taken) rfl rfl
    rw [rest, run]
    cases hs : SystemState.step u ⟨call.ctx.withAuth [trx.owner], .refund trx.owner⟩ with
    -- a refund that fails changes nothing
    | error e =>
      rw [Run.next_of_error hs]
      exact hI
    | ok s' =>
      -- the tokens of a refund are those of `eosio.stake`, whoever has signed
      rw [Run.next_of_ok hs]
      refine hI.system hs (by simp [staker]) fun o ho hp c => ?_
      exact refund_balance_le hI.core.token hs (fun heq => hp (congrArg some heq)) c

end Solvent

/-! ## Runs -/

variable [Checksum H] [Double F] [Inhabited K]

omit [Checksum H] [Inhabited K] in
theorem genesis_solvent (maxBlockNetUsage : UInt64) (maxBlockCpuUsage : UInt32) :
    Solvent (genesis maxBlockNetUsage maxBlockCpuUsage : Deployment F K H) where
  toProper := genesis_proper _ _
  ram := SystemState.genesis_ledgerInv _ _
  noStake := fun _ => rfl
  noRefund := rfl
  stake := TokenState.init_inv.balance_nonneg _ _
  names := TokenState.init_inv.balance_nonneg _ _
  pay := TokenState.init_inv.balance_nonneg _ _

/-- Every run in which nobody signs for the four accounts keeps them solvent. -/
theorem exec_solvent (isValid : BlockSigningAuthority K → Bool) (maxBlockNetUsage : UInt64)
    (maxBlockCpuUsage : UInt32) {calls : List (DeploymentCall F K H)}
    (hkeyless : ∀ call ∈ calls, Keyless call) :
    Solvent (Run.exec (step isValid) (genesis maxBlockNetUsage maxBlockCpuUsage) calls) :=
  Run.exec_of_forall (fun _ _ _ hI hk h => hI.step hk h) (genesis_solvent _ _) hkeyless

/-- Whatever calls of whatever contracts are made in whatever order, each of the four accounts
    holds what it owes, if nobody signs for them: the stakes and refunds, the open bids and the
    bids to be refunded, the pay of the producers, and what the reserved RAM has cost. -/
theorem escrows_solvent (isValid : BlockSigningAuthority K → Bool) (maxBlockNetUsage : UInt64)
    (maxBlockCpuUsage : UInt32) {calls : List (DeploymentCall F K H)}
    (hkeyless : ∀ call ∈ calls, Keyless call) :
    let d := Run.exec (step isValid) (genesis maxBlockNetUsage maxBlockCpuUsage) calls
    d.sys.backing ≤ d.sys.stakeBalance ∧
    d.auction.held ≤ d.auction.namesBalance ∧
    ResourceState.payTotal d.prodpay ≤ d.resource.coreBalance bpayAccount ∧
    d.sys.gstate.totalRamStake.toInt ≤ d.sys.ramBalance ∧
    d.sys.gstate.totalRamStake.toInt * 1024 =
      d.sys.userres.sumOn (fun _ => True) UserResources.ram * 10000 := by
  intro d
  have hI : Solvent d := exec_solvent isValid maxBlockNetUsage maxBlockCpuUsage hkeyless
  refine ⟨hI.stake, hI.names, hI.pay, hI.ram.paid, ?_⟩
  rw [hI.ram.ram.sum]
  exact hI.ram.price

open Sample in
/-- All four accounts owe something in the sample. -/
theorem escrows_solvent_sample :
    let d := Run.exec (step isValid) start (launching ++ claims)
    (d.sys.backing ≤ d.sys.stakeBalance ∧ d.auction.held ≤ d.auction.namesBalance ∧
      ResourceState.payTotal d.prodpay ≤ d.resource.coreBalance bpayAccount ∧
      d.sys.gstate.totalRamStake.toInt ≤ d.sys.ramBalance) ∧
    d.sys.backing = 1500000000000 ∧ d.auction.held = 30000 ∧
      0 < ResourceState.payTotal d.prodpay ∧ d.sys.gstate.totalRamStake = 100000 := by
  have hkeyless : ∀ call ∈ launching ++ claims, Keyless call := by decide +kernel
  have hsolvent := escrows_solvent isValid 1048576 200000 hkeyless
  unfold Sample.start
  obtain ⟨hstake, hnames, hpay, hram, -⟩ := hsolvent
  refine ⟨⟨hstake, hnames, hpay, hram⟩, ?_, ?_, ?_, ?_⟩
  · decide +kernel
  · decide +kernel
  · decide +kernel
  · decide +kernel

end Deployment

end UxContracts
