import UxContracts.Native.Deployment
import UxContracts.Spec.AuctionEscrow
import UxContracts.Spec.HistoryChange
import UxContracts.Spec.StakingBlocks

/-!
# Who can take tokens from an account

A transfer takes tokens from its sender and `retire` from the issuer, both with the authority
of that account; no other action of the token contract lowers a balance (`step_balance_le`).
The actions of the system contract send transfers from the account that calls them, or from
the account that holds the tokens for the purpose of the action (`SystemAction.paysFrom`).
-/

namespace UxContracts

namespace TokenAction

/-- The action takes no tokens from `o`, whoever has authorised it. -/
def Spares (o : Name) : TokenAction → Prop
  | .transfer from_ .. => from_ ≠ o
  | .retire .. => False
  | _ => True

end TokenAction

namespace TokenState

/-- Retired tokens are the issuer's. -/
theorem retire_balance {ctx : Context} {s s' : TokenState} {q : Asset} {memo : String}
    (hI : s.Inv) (h : s.retire ctx q memo = .ok s') {o : Name} (ho : o ∉ ctx.auth)
    (c : SymbolCode) : s'.balance o c = s.balance o c := by
  obtain ⟨st, supply, b, -, hauth, -, -, -, -, -, -, rfl⟩ := retire_spec hI h
  show (s.accounts.set ⟨st.issuer, q.symbol.code⟩ b).valueAt ⟨o, c⟩ _ = _
  have hne : (⟨o, c⟩ : Scoped Name SymbolCode) ≠ ⟨st.issuer, q.symbol.code⟩ := by
    intro heq
    simp only [Scoped.mk.injEq] at heq
    exact ho (heq.1 ▸ hauth)
  exact Table.valueAt_set_ne _ _ hne _

/-- A row of zero tokens makes no difference to the balances. -/
theorem openRow_balance {ctx : Context} {s s' : TokenState} {owner : Name} {symbol : Symbol}
    {ramPayer : Name} (h : s.openRow ctx owner symbol ramPayer = .ok s') (o : Name)
    (c : SymbolCode) : s'.balance o c = s.balance o c := by
  rcases openRow_spec h with rfl | ⟨st, -, -, hnone, rfl⟩
  · rfl
  · show (s.accounts.set ⟨owner, symbol.code⟩ ⟨0, symbol⟩).valueAt ⟨o, c⟩ _ = s.accounts.valueAt _ _
    rw [Table.valueAt_set]
    split
    · rename_i heq
      rw [heq, Table.valueAt_none hnone]
      rfl
    · rfl

/-- Closing a row takes no tokens, since it must be empty. -/
theorem close_balance {ctx : Context} {s s' : TokenState} {owner : Name} {symbol : Symbol}
    (h : s.close ctx owner symbol = .ok s') (o : Name) (c : SymbolCode) :
    s'.balance o c = s.balance o c := by
  obtain ⟨b, hb, hzero, rfl⟩ := close_spec h
  show (s.accounts.erase ⟨owner, symbol.code⟩).valueAt ⟨o, c⟩ _ = s.accounts.valueAt _ _
  rw [Table.valueAt_erase]
  split
  · rename_i heq
    rw [heq, Table.valueAt_some hb, hzero]
  · rfl

/-- A transfer needs the sender's authority. -/
theorem transfer_auth {ctx : Context} {s s' : TokenState} {from_ to_ : Name} {q : Asset}
    {memo : String} (h : s.transfer ctx from_ to_ q memo = .ok s') : from_ ∈ ctx.auth := by
  simp only [transfer, bind_eq_ok, check_eq_ok, requireAuth_eq_ok] at h
  obtain ⟨_, -, _, hauth, -⟩ := h
  exact hauth

/-- A transfer from another account takes nothing. -/
theorem transfer_balance_le {ctx : Context} {s s' : TokenState} {from_ to_ : Name} {q : Asset}
    {memo : String} (hI : s.Inv) (h : s.transfer ctx from_ to_ q memo = .ok s') {o : Name}
    (ho : from_ ≠ o) (c : SymbolCode) : s.balance o c ≤ s'.balance o c := by
  obtain ⟨st, bf, bt, -, -, -, hpos, -⟩ := transfer_rows hI h
  rw [transfer_balance hI h, if_neg (c := o = from_ ∧ _) fun heq => ho heq.1.symm]
  split
  · omega
  · omega

/-- Tokens are taken from an account with its authority only. -/
theorem step_balance_le {s s' : TokenState} {call : TokenCall} (hI : s.Inv)
    (h : s.step call = .ok s') {o : Name} (ho : call.action.Spares o ∨ o ∉ call.ctx.auth)
    (c : SymbolCode) : s.balance o c ≤ s'.balance o c := by
  obtain ⟨ctx, action⟩ := call
  cases action with
  | create issuer maximumSupply =>
    obtain ⟨-, -, -, rfl⟩ := create_spec h
    -- a new token has no balances
    exact le_refl _
  | issue to_ quantity memo =>
    obtain ⟨st, supply, b, -, -, -, hpos, -⟩ := issue_spec hI h
    rw [issue_balance hI h]
    split
    · -- an issue adds to the balance of the issuer
      omega
    · omega
  | retire quantity memo =>
    have ho : o ∉ ctx.auth := ho.resolve_left id
    -- only the issuer retires, who has signed
    exact (retire_balance hI h ho c).ge
  | transfer from_ to_ quantity memo =>
    -- the sender has signed
    refine transfer_balance_le hI h ?_ c
    rcases ho with hne | ho
    · exact hne
    · intro heq
      exact ho (heq ▸ transfer_auth h)
  -- rows are opened and closed with a zero balance
  | openRow owner symbol ramPayer => exact (openRow_balance h o c).ge
  | close owner symbol => exact (close_balance h o c).ge

end TokenState

namespace SystemState

open TokenState

variable {F : Type}

/-- Inline actions that spare an account, or do not have its authority, take nothing from it. -/
theorem runInline_balance_le {ctx : Context} {t t' : TokenState} {sends : List InlineAction}
    (hI : t.Inv) (h : runInline ctx t sends = .ok t') {o : Name}
    (ho : ∀ a ∈ sends, a.action.Spares o ∨ o ∉ a.auth) (c : SymbolCode) :
    t.balance o c ≤ t'.balance o c := by
  induction sends generalizing t with
  | nil =>
    rw [runInline_nil] at h
    rw [h]
  | cons a as ih =>
    obtain ⟨u, hu, h⟩ := runInline_cons.mp h
    have hfirst := step_balance_le hI hu (ho a List.mem_cons_self) c
    exact hfirst.trans (ih (step_inv hI hu) h fun b hb => ho b (List.mem_cons_of_mem a hb))

/-- A single transfer from another account. -/
theorem runInline_transfer_le {ctx : Context} {t t' : TokenState} {auth : List Name}
    {from_ to_ : Name} {q : Asset} {memo : String} (hI : t.Inv)
    (h : runInline ctx t [⟨auth, .transfer from_ to_ q memo⟩] = .ok t') {o : Name}
    (ho : from_ ≠ o) (c : SymbolCode) : t.balance o c ≤ t'.balance o c :=
  transfer_balance_le hI (runInline_singleton.mp h) ho c

end SystemState

/-! ## The actions of the system contract -/

/-- The action takes no tokens from `o` by itself, whoever has authorised it. -/
def SystemAction.Spares {F : Type} (o : Name) : SystemAction F → Prop
  | .buyram payer .. | .buyrambytes payer .. => payer ≠ o
  | .delegatebw from_ .. | .undelegatebw from_ .. => from_ ≠ o
  | .token a => a.Spares o
  | _ => True

/-- The account that holds the tokens which the action pays out. -/
def SystemAction.paysFrom {F : Type} : SystemAction F → Option Name
  | .refund _ => some stakeAccount
  | .sellram .. => some ramAccount
  | _ => none

namespace SystemState

open TokenState

variable {F : Type}

/-- A purchase of RAM is signed by the payer. -/
theorem buyram_auth {ctx : Context} {s : SystemState F} {payer receiver : Name} {q : Asset}
    {r : SystemState F × List InlineAction} (h : s.buyram ctx payer receiver q = .ok r) :
    payer ∈ ctx.auth := by
  simp only [buyram, bind_eq_ok, requireAuth_eq_ok] at h
  obtain ⟨_, hauth, -⟩ := h
  exact hauth

variable [Double F]

/-- A change of stake is signed by the staker. -/
theorem changebw_auth {ctx : Context} {s : SystemState F} {from_ receiver : Name} {n c : Asset}
    {transfer : Bool} {r : SystemState F × List InlineAction}
    (h : s.changebw ctx from_ receiver n c transfer = .ok r) : from_ ∈ ctx.auth := by
  simp only [changebw, bind_eq_ok, requireAuth_eq_ok] at h
  obtain ⟨_, hauth, -⟩ := h
  exact hauth

/-- A transfer of stake is the source's. -/
theorem StakeTransfer.balance_le {ctx : Context} {t t' : TokenState} {source : Name} {sym : Symbol}
    {sends : List InlineAction} (h : StakeTransfer source sym sends) (hI : t.Inv)
    (hrun : runInline ctx t sends = .ok t') {o : Name} (ho : source ≠ o) (c : SymbolCode) :
    t.balance o c ≤ t'.balance o c := by
  rcases h with rfl | ⟨q, -, -, rfl⟩
  · rw [runInline_nil] at hrun
    rw [hrun]
  · exact runInline_transfer_le hI hrun ho c

/-- A refund takes tokens from `eosio.stake` only. -/
theorem refund_balance_le {s s' : SystemState F} {ctx : Context} {owner : Name} (hT : s.token.Inv)
    (h : s.step ⟨ctx, .refund owner⟩ = .ok s') {o : Name} (ho : stakeAccount ≠ o)
    (c : SymbolCode) : s.token.balance o c ≤ s'.token.balance o c := by
  obtain ⟨u, sends, token, hr, ht, rfl⟩ := commit_eq_ok.mp h
  obtain ⟨q, amount, -, -, -, rfl, rfl⟩ := refund_cases hr
  exact runInline_transfer_le hT ht ho c

/-- An action of the system contract takes tokens from an account that has authorised it, or
    from the account that pays for this purpose. -/
theorem step_balance_le {s s' : SystemState F} {call : SystemCall F} (hI : s.CoreToken)
    (h : s.step call = .ok s') {o : Name} (ho : call.action.Spares o ∨ o ∉ call.ctx.auth)
    (hpays : call.action.paysFrom ≠ some o) (c : SymbolCode) :
    s.token.balance o c ≤ s'.token.balance o c := by
  obtain ⟨ctx, action⟩ := call
  have hT := hI.token
  have hcore : ∀ sym, s.coreSymbol = .ok sym → sym = s.coreSym := fun _ => coreSym_of_ok
  -- the account that spends has signed
  have hne : ∀ {p : Name}, (action.Spares o → p ≠ o) → p ∈ ctx.auth → p ≠ o := by
    rintro p hspares hp rfl
    rcases ho with hs | ho
    · exact hspares hs rfl
    · exact ho hp
  -- most actions leave the tokens alone
  have hsame : ∀ {t : TokenState}, t = s.token → s.token.balance o c ≤ t.balance o c := by
    rintro t rfl
    exact le_refl _
  cases action with
  | init version core =>
    obtain ⟨u, sends, token, hr, ht, rfl⟩ := commit_eq_ok.mp h
    obtain ⟨m, -, -, -, rfl, rfl⟩ := init_spec hr
    -- opening a row adds no tokens
    exact (openRow_balance (runInline_singleton.mp ht) o c).ge
  | newaccount creator newact => exact hsame (newaccount_stakeFrame h).2
  | setram maxRamSize => exact hsame (setram_stakeFrame h).2
  | setramrate bytesPerBlock => exact hsame (setramrate_stakeFrame h).2
  | buyram payer receiver quant =>
    obtain ⟨u, sends, token, hr, ht, rfl⟩ := commit_eq_ok.mp h
    obtain ⟨s₁, res, limits, -, -, -, -, -, -, -, rfl⟩ := buyram_spec hr
    rw [(buyram_stakeFrame hr).2] at ht
    -- the payer has signed
    exact runInline_transfer_le hT ht (hne id (buyram_auth hr)) c
  | buyrambytes payer receiver bytes =>
    obtain ⟨u, sends, token, hr, ht, rfl⟩ := commit_eq_ok.mp h
    have hr := buyrambytes_spec hr
    obtain ⟨s₁, res, limits, -, -, -, -, -, -, -, rfl⟩ := buyram_spec hr
    rw [(buyram_stakeFrame hr).2] at ht
    exact runInline_transfer_le hT ht (hne id (buyram_auth hr)) c
  | sellram account bytes =>
    obtain ⟨u, sends, token, hr, ht, rfl⟩ := commit_eq_ok.mp h
    obtain ⟨s₁, res, limits, -, -, -, -, -, -, -, rfl⟩ := sellram_spec hr
    rw [(sellram_stakeFrame hr).2] at ht
    -- the account of RAM pays
    exact runInline_transfer_le hT ht (fun heq => hpays (congrArg some heq)) c
  | delegatebw from_ receiver net cpu transfer =>
    obtain ⟨u, sends, token, hr, ht, rfl⟩ := commit_eq_ok.mp h
    obtain ⟨-, -, -, -, hchange⟩ :=
      delegatebw_spec hI.stake.rows hI.stake.noRex hI.stake.stakedOf_nonneg hcore hr
    obtain ⟨sym, -, -, -, -, hbw⟩ := delegatebw_changebw hr
    rw [hchange.token] at ht
    -- the staker has signed
    exact hchange.transfer.balance_le hT ht (hne id (changebw_auth hbw)) c
  | undelegatebw from_ receiver net cpu =>
    obtain ⟨u, sends, token, hr, ht, rfl⟩ := commit_eq_ok.mp h
    obtain ⟨-, -, -, -, hchange⟩ :=
      undelegatebw_spec hI.stake.rows hI.stake.noRex hI.stake.stakedOf_nonneg hcore hr
    obtain ⟨sym, -, -, -, -, -, hbw⟩ := undelegatebw_changebw hr
    rw [hchange.token] at ht
    exact hchange.transfer.balance_le hT ht (hne id (changebw_auth hbw)) c
  -- the account of stake pays
  | refund owner => exact refund_balance_le hT h (fun heq => hpays (congrArg some heq)) c
  | voteproducer voterName proxy producers =>
    exact hsame (voteproducer_frame hI.stake.noRex h).token
  | regproxy proxy isproxy => exact hsame (regproxy_frame h).token
  | token action =>
    obtain ⟨token, ht, rfl⟩ := step_token_spec h
    -- the token contract asks for the authority of whoever spends
    exact TokenState.step_balance_le hT ht ho c
  | producers producers producers2 scheduleSize =>
    simp only [step, Except.ok.injEq] at h
    subst h
    exact le_refl _

end SystemState

/-! ## The auctions -/

namespace AuctionState

open TokenState

variable {F : Type} [Double F]

/-- A bid is signed by the bidder. -/
theorem bidname_auth {s s' : AuctionState F} {ctx : Context} {bidder newname : Name} {bid : Asset}
    (h : s.step ⟨ctx, .bidname bidder newname bid⟩ = .ok s') : bidder ∈ ctx.auth := by
  obtain ⟨u, sends, token, hr, -, -⟩ := commit_ok h
  simp only [bidname, bind_eq_ok, requireAuth_eq_ok] at hr
  obtain ⟨_, hauth, -⟩ := hr
  exact hauth

/-- Who has not signed is no bidder. -/
theorem bidder_ne {s s' : AuctionState F} {call : AuctionCall F} (h : s.step call = .ok s')
    {o : Name} (ho : o ∉ call.ctx.auth) (bidder newname : Name) (bid : Asset)
    (action : call.action = .bidname bidder newname bid) : bidder ≠ o := by
  rintro rfl
  obtain ⟨ctx, a⟩ := call
  cases action
  exact ho (bidname_auth h)

/-- The other calls of the auctions take tokens from a bidder or from `eosio.names`. -/
theorem step_balance_le {s s' : AuctionState F} {call : AuctionCall F} (hI : s.EscrowInv)
    (hcall : isSystem call.action = false) (h : s.step call = .ok s') {o : Name}
    (hbidder : ∀ bidder newname bid, call.action = .bidname bidder newname bid → bidder ≠ o)
    (hne : namesAccount ≠ o) (c : SymbolCode) :
    s.sys.token.balance o c ≤ s'.sys.token.balance o c := by
  have hT := hI.core.token
  cases step_auction h with
  | first bidder newname bid memo action fresh symbol transfer bids refunds same =>
    exact transfer_balance_le hT transfer (hbidder bidder newname bid action) c
  | outbid bidder newname bid memo current action row isOpen symbol transfer bids s₁ added refunds
      same => exact transfer_balance_le hT transfer (hbidder bidder newname bid action) c
  | refunded bidder newname amount memo action row transfer bids refunds same =>
    exact transfer_balance_le hT transfer hne c
  | closed timestamp accepted newname highest sym memo action row isOpen symbol transfer bids refunds
      same => exact transfer_balance_le hT transfer hne c
  | idle timestamp accepted action token bids refunds same => rw [token]
  | system a action hstep refunds =>
    rw [action] at hcall
    cases hcall

end AuctionState

/-! ## The resource model -/

/-- The action takes no tokens from `o` by itself, whoever has authorised it. -/
def ResourceAction.Spares {F H : Type} (o : Name) : ResourceAction F H → Prop
  | .system a => a.Spares o
  | _ => True

/-- An action on resources spends for the custodians only. -/
theorem ResourceAction.spares_of_own {F H : Type} {a : ResourceAction F H} (own : a.isOwn)
    (o : Name) : a.Spares o := by
  cases a with
  | system => cases own
  | _ => trivial

/-- The account that holds the tokens which the action pays out. -/
def ResourceAction.paysFrom {F H : Type} : ResourceAction F H → Option Name
  | .settotalusg .. => some systemAccount
  | .claimdistrib _ => some upayAccount
  | .claimrewards _ => some bpayAccount
  | .system a => a.paysFrom
  | _ => none

namespace ResourceState

open SystemState TokenState

variable {F H : Type}

/-- New tokens are handed on by the system account. -/
theorem inflationSends_balance_le {ctx : Context} {t t' : TokenState} {inflation : Asset}
    {row : UsageHistory F} (hI : t.Inv)
    (h : runInline ctx t (inflationSends inflation row) = .ok t') {o : Name}
    (ho : systemAccount ≠ o) (c : SymbolCode) : t.balance o c ≤ t'.balance o c := by
  refine runInline_balance_le hI h (fun a ha => ?_) c
  unfold inflationSends at ha
  simp only [List.mem_append] at ha
  rcases ha with (ha | ha) | ha
  · split at ha
    · rw [List.mem_singleton.mp ha]
      exact .inl trivial
    · cases ha
  · split at ha
    · rw [List.mem_singleton.mp ha]
      exact .inl ho
    · cases ha
  · split at ha
    · rw [List.mem_singleton.mp ha]
      exact .inl ho
    · cases ha

variable [Checksum H] [Double F]

/-- A call of the resource model takes tokens from the account that pays for its purpose. -/
theorem step_balance_le {s s' : ResourceState F H} {call : ResourceCall F H} (hI : s.sys.CoreToken)
    (h : s.step call = .ok s') {o : Name} (ho : call.action.Spares o ∨ o ∉ call.ctx.auth)
    (hpays : call.action.paysFrom ≠ some o) (c : SymbolCode) :
    s.sys.token.balance o c ≤ s'.sys.token.balance o c := by
  obtain ⟨ctx, action⟩ := call
  have hT := hI.token
  -- actions that send nothing
  have hsame : ∀ {sys : SystemState F}, sys = s.sys →
      s.sys.token.balance o c ≤ sys.token.balance o c := by
    rintro sys rfl
    exact le_refl _
  cases action with
  | initresource batch threshold start seconds rate maxPay =>
    obtain ⟨cfg, -, ⟨-, -, -, -, rfl⟩ | ⟨-, -, -, -, rfl⟩⟩ := initresource_spec h
    · exact hsame rfl
    · exact hsame rfl
  | resactivate active => exact hsame (by rw [resactivate_spec h])
  | settotalusg source cpu net hash start =>
    obtain ⟨u, sends, token, hr, ht, rfl⟩ := commit_eq_ok.mp h
    obtain ⟨hu, -, ⟨-, -, rfl⟩ | ⟨cpu', net', k, last, row, sym, inflation, hiss⟩⟩ :=
      settotalusg_issuance hT hr
    · -- without an issuance nothing is sent
      rw [hu, runInline_nil] at ht
      exact (congrArg (fun t : TokenState => t.balance o c) ht).le
    · -- with one the system account transfers what it has issued
      rw [hu, hiss.sends_eq] at ht
      exact inflationSends_balance_le hT ht (fun heq => hpays (congrArg some heq)) c
  | addactusg source datasetId dataset start => exact hsame (addactusg_frame h).1
  | nextperiod =>
    obtain ⟨sources, rfl⟩ := nextperiod_spec h
    exact hsame rfl
  | claimdistrib account =>
    obtain ⟨u, sends, token, hr, ht, rfl⟩ := commit_eq_ok.mp h
    obtain ⟨pay, -, rfl, rfl⟩ := claimdistrib_spec hr
    -- the payer is a custodian
    exact runInline_transfer_le hT ht (fun heq => hpays (congrArg some heq)) c
  | claimrewards owner =>
    obtain ⟨u, sends, token, hr, ht, rfl⟩ := commit_eq_ok.mp h
    obtain ⟨pay, balance, time, -, -, -, rfl, rfl⟩ := claimrewards_spec hr
    exact runInline_transfer_le hT ht (fun heq => hpays (congrArg some heq)) c
  | system a =>
    simp only [step, bind_eq_ok, pure_eq_ok] at h
    obtain ⟨sys, hsys, rfl⟩ := h
    -- an action of the system contract
    exact SystemState.step_balance_le hI hsys ho hpays c

end ResourceState

end UxContracts
