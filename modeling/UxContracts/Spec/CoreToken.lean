import UxContracts.Spec.StakeLedger
import UxContracts.Spec.TokenTransfer

/-!
# The core token in runs of the system contract

An action of the system contract changes the tables of the token contract by inline
actions only (`step_tokens`). So the invariant of the token contract holds in every run,
and once the system contract is initialised the token of its core symbol stays there
(`exec_coreToken`).
-/

namespace UxContracts

namespace SystemState

variable {F : Type}

/-! ## The market -/

/-- There is a market in `s'` if there is one in `s`, with the same core symbol. -/
structure SameMarket (s s' : SystemState F) : Prop where
  isSome : s'.rammarket.isSome = s.rammarket.isSome
  coreSym : s'.coreSym = s.coreSym

theorem SameMarket.of_eq {s s' : SystemState F} (h : s'.rammarket = s.rammarket) :
    SameMarket s s' := by
  refine ⟨congrArg Option.isSome h, ?_⟩
  unfold SystemState.coreSym
  rw [h]

theorem RamGrowth.sameMarket {s s' : SystemState F} (h : RamGrowth s s') : SameMarket s s' :=
  ⟨h.market, h.coreSym⟩

/-- A known core symbol is the symbol of the market. -/
theorem rammarket_isSome_of_ok {s : SystemState F} {sym : Symbol} (h : s.coreSymbol = .ok sym) :
    s.rammarket.isSome := by
  obtain ⟨m, hm, -⟩ := coreSymbol_eq_ok.mp h
  rw [hm]
  rfl

/-! ## Actions that leave the stakes alone -/

/-- The action moves stake or pays it back. -/
def movesStake : SystemAction F → Bool
  | .delegatebw .. | .undelegatebw .. | .refund _ => true
  | _ => false

/-- The action makes the market. -/
def isInit : SystemAction F → Bool
  | .init .. => true
  | _ => false

/-- The rows of stake and the market's core symbol are the same. -/
structure StakeFrame (s s' : SystemState F) : Prop where
  delband : s'.delband = s.delband
  refunds : s'.refunds = s.refunds
  market : SameMarket s s'

/-- The growth of the supply of RAM is no matter of stakes. -/
theorem RamGrowth.stakeFrame {s s' : SystemState F} (h : RamGrowth s s') : StakeFrame s s' := by
  have heq := h.eq
  refine ⟨?_, ?_, h.sameMarket⟩
  · rw [heq]
  · rw [heq]

/-- Votes are no matter of stakes. -/
theorem VoteFrame.stakeFrame {s s' : SystemState F} (h : VoteFrame s s') : StakeFrame s s' :=
  ⟨h.delband, h.refunds, .of_eq h.rammarket⟩

/-- A purchase of RAM leaves stakes and, before its transfers, tokens alone. -/
theorem buyram_stakeFrame {ctx : Context} {s s' : SystemState F} {payer receiver : Name}
    {q : Asset} {sends : List InlineAction}
    (h : s.buyram ctx payer receiver q = .ok (s', sends)) :
    StakeFrame s s' ∧ s'.token = s.token := by
  obtain ⟨s₁, res, limits, hsup, -, -, -, -, -, rfl, -⟩ := buyram_spec h
  have hgrow := updateRamSupply_spec hsup
  have htoken : s₁.token = s.token := by rw [hgrow.eq]
  have hframe := hgrow.stakeFrame
  exact ⟨⟨hframe.delband, hframe.refunds, hframe.market.isSome, hframe.market.coreSym⟩, htoken⟩

/-- A sale of RAM leaves stakes and, before its transfers, tokens alone. -/
theorem sellram_stakeFrame {ctx : Context} {s s' : SystemState F} {account : Name} {bytes : Int64}
    {sends : List InlineAction} (h : s.sellram ctx account bytes = .ok (s', sends)) :
    StakeFrame s s' ∧ s'.token = s.token := by
  obtain ⟨s₁, res, limits, hsup, -, -, -, -, -, rfl, -⟩ := sellram_spec h
  have hgrow := updateRamSupply_spec hsup
  have htoken : s₁.token = s.token := by rw [hgrow.eq]
  have hframe := hgrow.stakeFrame
  exact ⟨⟨hframe.delband, hframe.refunds, hframe.market.isSome, hframe.market.coreSym⟩, htoken⟩

/-- A new maximum of RAM leaves stakes and tokens alone. -/
theorem setram_stakeFrame {ctx : Context} {s s' : SystemState F} {maxRamSize : UInt64}
    (h : s.setram ctx maxRamSize = .ok s') : StakeFrame s s' ∧ s'.token = s.token := by
  obtain ⟨m, m', hm, hq, -, -, rfl⟩ := setram_spec h
  refine ⟨⟨rfl, rfl, ?_, ?_⟩, rfl⟩
  · rw [hm]
    rfl
  · simp only [SystemState.coreSym, hm, Option.elim_some, hq]

/-- A new rate of RAM leaves stakes and tokens alone. -/
theorem setramrate_stakeFrame {ctx : Context} {s s' : SystemState F} {bytesPerBlock : UInt16}
    (h : s.setramrate ctx bytesPerBlock = .ok s') : StakeFrame s s' ∧ s'.token = s.token := by
  obtain ⟨-, u, hsup, rfl⟩ := setramrate_spec h
  have hgrow := updateRamSupply_spec hsup
  have htoken : u.token = s.token := by rw [hgrow.eq]
  have hframe := hgrow.stakeFrame
  exact ⟨⟨hframe.delband, hframe.refunds, hframe.market.isSome, hframe.market.coreSym⟩, htoken⟩

/-- A new account leaves the stakes of others and all tokens alone. -/
theorem newaccount_stakeFrame {s s' : SystemState F} {creator newact : Name}
    (h : s.newaccount creator newact = .ok s') : StakeFrame s s' ∧ s'.token = s.token := by
  obtain ⟨zero, bids, limits, -, -, -, rfl⟩ := newaccount_spec h
  exact ⟨⟨rfl, rfl, .of_eq rfl⟩, rfl⟩

variable [Double F]

/-- An action that neither moves stake nor makes the market leaves the rows of stake and
    the core symbol alone. -/
theorem step_stakeFrame {s s' : SystemState F} {call : SystemCall F} (hrex : s.rexbalance = ∅)
    (hinit : isInit call.action = false) (hother : movesStake call.action = false)
    (h : s.step call = .ok s') : StakeFrame s s' := by
  obtain ⟨ctx, action⟩ := call
  -- inline actions change the token tables only
  have hcommit : ∀ {u : SystemState F} {token : TokenState}, StakeFrame s u →
      StakeFrame s { u with token := token } := fun hu =>
    ⟨hu.delband, hu.refunds, hu.market.isSome, hu.market.coreSym⟩
  cases action with
  | init version core => cases hinit
  -- none of these writes stake or refunds
  | newaccount creator newact => exact (newaccount_stakeFrame h).1
  | setram maxRamSize => exact (setram_stakeFrame h).1
  | setramrate bytesPerBlock => exact (setramrate_stakeFrame h).1
  | buyram payer receiver quant =>
    obtain ⟨u, sends, token, hr, -, rfl⟩ := commit_eq_ok.mp h
    -- a trade of RAM leaves the stake
    exact hcommit (buyram_stakeFrame hr).1
  | buyrambytes payer receiver bytes =>
    obtain ⟨u, sends, token, hr, -, rfl⟩ := commit_eq_ok.mp h
    exact hcommit (buyram_stakeFrame (buyrambytes_spec hr)).1
  | sellram account bytes =>
    obtain ⟨u, sends, token, hr, -, rfl⟩ := commit_eq_ok.mp h
    exact hcommit (sellram_stakeFrame hr).1
  | delegatebw from_ receiver net cpu transfer => cases hother
  | undelegatebw from_ receiver net cpu => cases hother
  | refund owner => cases hother
  | voteproducer voterName proxy producers => exact (voteproducer_frame hrex h).stakeFrame
  | regproxy proxy isproxy => exact (regproxy_frame h).stakeFrame
  | token action =>
    obtain ⟨token, -, rfl⟩ := step_token_spec h
    exact ⟨rfl, rfl, .of_eq rfl⟩
  | producers producers producers2 scheduleSize =>
    simp only [step, Except.ok.injEq] at h
    subst h
    exact ⟨rfl, rfl, .of_eq rfl⟩

/-- There is no second initialisation. -/
theorem isInit_eq_false {s s' : SystemState F} {call : SystemCall F} (hm : s.rammarket.isSome)
    (h : s.step call = .ok s') : isInit call.action = false := by
  obtain ⟨ctx, action⟩ := call
  cases action with
  | init version core =>
    obtain ⟨u, sends, token, hr, -, -⟩ := commit_eq_ok.mp h
    obtain ⟨m, hnone, -⟩ := init_spec hr
    rw [hnone] at hm
    cases hm
  | _ => rfl

/-! ## The token tables -/

/-- A step changes the token tables by inline actions only. -/
theorem step_tokens {s s' : SystemState F} {call : SystemCall F} (hI : s.StakeInv)
    (h : s.step call = .ok s') : ∃ sends, runInline call.ctx s.token sends = .ok s'.token := by
  obtain ⟨ctx, action⟩ := call
  have hcore : ∀ sym, s.coreSymbol = .ok sym → sym = s.coreSym := fun _ => coreSym_of_ok
  -- actions that send nothing leave the tokens as they are
  have hnone : ∀ {t : TokenState}, t = s.token → ∃ sends, runInline ctx s.token sends = .ok t :=
    fun ht => ⟨[], runInline_nil.mpr ht.symm⟩
  cases action with
  | init version core =>
    obtain ⟨u, sends, token, hr, ht, rfl⟩ := commit_eq_ok.mp h
    obtain ⟨m, -, -, -, rfl, -⟩ := init_spec hr
    exact ⟨sends, ht⟩
  | newaccount creator newact => exact hnone (newaccount_stakeFrame h).2
  | setram maxRamSize => exact hnone (setram_stakeFrame h).2
  | setramrate bytesPerBlock => exact hnone (setramrate_stakeFrame h).2
  | buyram payer receiver quant =>
    -- what the others send runs inline, from the tokens before the call
    obtain ⟨u, sends, token, hr, ht, rfl⟩ := commit_eq_ok.mp h
    exact ⟨sends, (buyram_stakeFrame hr).2 ▸ ht⟩
  | buyrambytes payer receiver bytes =>
    obtain ⟨u, sends, token, hr, ht, rfl⟩ := commit_eq_ok.mp h
    exact ⟨sends, (buyram_stakeFrame (buyrambytes_spec hr)).2 ▸ ht⟩
  | sellram account bytes =>
    obtain ⟨u, sends, token, hr, ht, rfl⟩ := commit_eq_ok.mp h
    exact ⟨sends, (sellram_stakeFrame hr).2 ▸ ht⟩
  | delegatebw from_ receiver net cpu transfer =>
    obtain ⟨u, sends, token, hr, ht, rfl⟩ := commit_eq_ok.mp h
    obtain ⟨-, -, -, -, hchange⟩ := delegatebw_spec hI.rows hI.noRex hI.stakedOf_nonneg hcore hr
    exact ⟨sends, hchange.token ▸ ht⟩
  | undelegatebw from_ receiver net cpu =>
    obtain ⟨u, sends, token, hr, ht, rfl⟩ := commit_eq_ok.mp h
    obtain ⟨-, -, -, -, hchange⟩ := undelegatebw_spec hI.rows hI.noRex hI.stakedOf_nonneg hcore hr
    exact ⟨sends, hchange.token ▸ ht⟩
  | refund owner =>
    obtain ⟨u, sends, token, hr, ht, rfl⟩ := commit_eq_ok.mp h
    obtain ⟨q, amount, -, -, -, rfl, -⟩ := refund_spec hI.rows hr
    exact ⟨sends, ht⟩
  | voteproducer voterName proxy producers => exact hnone (voteproducer_frame hI.noRex h).token
  | regproxy proxy isproxy => exact hnone (regproxy_frame h).token
  | token action =>
    obtain ⟨token, ht, rfl⟩ := step_token_spec h
    -- a call of the token contract is a single inline action
    exact ⟨[⟨ctx.auth, action⟩], runInline_singleton.mpr ht⟩
  | producers producers producers2 scheduleSize =>
    simp only [step, Except.ok.injEq] at h
    subst h
    exact hnone rfl

/-- The ledgers of stake agree, the token tables are proper, and the core symbol is the
    symbol of a token. -/
structure CoreToken (s : SystemState F) : Prop where
  stake : s.StakeInv
  token : s.token.Inv
  core : s.rammarket.isSome →
    ∃ st, s.token.stat.find? s.coreSym.code = some st ∧ st.supply.symbol = s.coreSym

theorem genesis_coreToken (maxBlockNetUsage : UInt64) (maxBlockCpuUsage : UInt32) :
    (genesis maxBlockNetUsage maxBlockCpuUsage : SystemState F).CoreToken where
  stake := (genesis_emptyTables _ _).stakeInv
  token := TokenState.init_inv
  core := fun h => nomatch h

/-- A step keeps the market, or makes it for a token there is. -/
theorem step_market {s s' : SystemState F} {call : SystemCall F} (hI : s.StakeInv)
    (h : s.step call = .ok s') : SameMarket s s' ∨ (s.rammarket = none ∧
      ∃ st, s.token.stat.find? s'.coreSym.code = some st ∧ st.supply.symbol = s'.coreSym) := by
  have hcore : ∀ sym, s.coreSymbol = .ok sym → sym = s.coreSym := fun _ => coreSym_of_ok
  cases hinit : isInit call.action with
  | true =>
    obtain ⟨ctx, action⟩ := call
    cases action with
    | init version core =>
      -- `init` makes the market, with a token that exists
      obtain ⟨u, sends, token, hr, -, rfl⟩ := commit_eq_ok.mp h
      obtain ⟨m, hnone, rfl, hst, rfl, -⟩ := init_spec hr
      exact .inr ⟨hnone, hst⟩
    | _ => cases hinit
  | false =>
    left
    cases hother : movesStake call.action with
    -- without stake and `init` the market keeps its symbol
    | false => exact (step_stakeFrame hI.noRex hinit hother h).market
    | true =>
      obtain ⟨ctx, action⟩ := call
      cases action with
      | delegatebw from_ receiver net cpu transfer =>
        obtain ⟨u, sends, token, hr, -, rfl⟩ := commit_eq_ok.mp h
        obtain ⟨-, -, -, -, hchange⟩ :=
          delegatebw_spec hI.rows hI.noRex hI.stakedOf_nonneg hcore hr
        -- a change of stake does not look at the market
        exact .of_eq hchange.rammarket
      | undelegatebw from_ receiver net cpu =>
        obtain ⟨u, sends, token, hr, -, rfl⟩ := commit_eq_ok.mp h
        obtain ⟨-, -, -, -, hchange⟩ :=
          undelegatebw_spec hI.rows hI.noRex hI.stakedOf_nonneg hcore hr
        exact .of_eq hchange.rammarket
      | refund owner =>
        obtain ⟨u, sends, token, hr, -, rfl⟩ := commit_eq_ok.mp h
        obtain ⟨q, amount, -, -, -, rfl, -⟩ := refund_spec hI.rows hr
        exact .of_eq rfl
      | _ => cases hother

/-- A market stays, with its core symbol. -/
theorem step_sameMarket {s s' : SystemState F} {call : SystemCall F} (hI : s.StakeInv)
    (hm : s.rammarket.isSome) (h : s.step call = .ok s') : SameMarket s s' := by
  cases step_market hI h with
  | inl hsame => exact hsame
  | inr hmade =>
    rw [hmade.1] at hm
    cases hm

/-- The invariant of the core token is kept by every call. -/
theorem step_coreToken {s s' : SystemState F} {call : SystemCall F} (hI : s.CoreToken)
    (h : s.step call = .ok s') : s'.CoreToken := by
  obtain ⟨sends, ht⟩ := step_tokens hI.stake h
  obtain ⟨htoken, hkeep⟩ := runInline_inv hI.token ht
  have hcore : s'.rammarket.isSome →
      ∃ st, s.token.stat.find? s'.coreSym.code = some st ∧ st.supply.symbol = s'.coreSym := by
    intro hsome
    cases step_market hI.stake h with
    | inl hsame =>
      rw [hsame.coreSym]
      exact hI.core (hsame.isSome ▸ hsome)
    | inr hmade => exact hmade.2
  refine ⟨step_stakeInv hI.stake h, htoken, fun hsome => ?_⟩
  obtain ⟨st, hst, hsym⟩ := hcore hsome
  obtain ⟨st', hst', hsame, -⟩ := hkeep _ st hst
  exact ⟨st', hst', hsame.trans hsym⟩

/-- The core token stays intact in every run. -/
theorem exec_coreToken {s : SystemState F} (h : s.CoreToken) (calls : List (SystemCall F)) :
    (Run.exec step s calls).CoreToken :=
  Run.exec_induction (I := CoreToken) (fun _ _ _ hI hs => step_coreToken hI hs) h calls

end SystemState

end UxContracts
