import UxContracts.Spec.DeploymentRows
import UxContracts.Spec.RefundDelay
import UxContracts.Spec.TokenAuthority

/-!
# What an account has

The core tokens of an account are not only those of its own balance: they are also staked, waiting
to be refunded, bid for a name, waiting to be given back after a bid, or earned as a producer. All
calls move them between these places, and none takes anything from the whole (`Deployment.wealth`)
but a few that give something up (`SystemAction.givesUp`), which the account has to sign, and the
creation of an account under a name that it has won. So whatever others do, in whatever order, an
account loses nothing (`wealth_kept`).
-/

namespace UxContracts

/-- By these actions an account gives core tokens away, or stakes them for somebody else for
    good. -/
def SystemAction.givesUp {F : Type} (f : Name) : SystemAction F → Bool
  | .buyram payer .. | .buyrambytes payer .. => payer = f
  | .delegatebw from_ receiver _ _ transfer => from_ = f ∧ receiver ≠ f ∧ transfer = true
  | .token (.transfer from_ ..) => from_ = f
  | .token (.retire ..) => true
  | _ => false

/-- The action creates an account for `f`, maybe under a name that has been won. -/
def SystemAction.creates {F : Type} (f : Name) : SystemAction F → Bool
  | .newaccount creator _ => creator = f
  | _ => false

namespace SystemState

open TokenState

variable {F : Type}

/-- The core tokens of an account, its stakes, and its refund. -/
def holdings (s : SystemState F) (f : Name) : Int :=
  s.token.balance f s.coreSym.code + s.stakedOf f + s.refunds.valueAt f RefundRequest.total

/-! ## Stakes and refunds -/

/-- The transfer of `changebw` takes the sent amount from the source. -/
theorem StakeTransfer.source_balance {ctx : Context} {t t' : TokenState} {source : Name}
    {sym : Symbol} {sends : List InlineAction} (h : StakeTransfer source sym sends) (hI : t.Inv)
    (hne : source ≠ stakeAccount) (hrun : runInline ctx t sends = .ok t') :
    t'.balance source sym.code = t.balance source sym.code - sentAmount sends := by
  rcases h with rfl | ⟨q, hq, hpos, rfl⟩
  · rw [runInline_nil] at hrun
    subst hrun
    exact (sub_zero _).symm
  · have hmove := transfer_balance hI (runInline_singleton.mp hrun) source sym.code
    rw [hq, if_neg fun hs => hne hs.1, if_pos ⟨rfl, rfl⟩, add_zero] at hmove
    exact hmove

/-- A change of stake moves the source's tokens only, and gives them away only as a gift. -/
theorem StakeChange.holdings {ctx : Context} {s u : SystemState F} {token : TokenState}
    {source owner receiver : Name} {n c : Asset} {sends : List InlineAction} {f : Name}
    (h : StakeChange s.coreSym s u source owner receiver n c sends) (hI : s.token.Inv)
    (hf : f ≠ stakeAccount)
    (hgift : owner ≠ source → source ≠ f ∧ 0 ≤ n.amount.toInt + c.amount.toInt)
    (hrun : runInline ctx u.token sends = .ok token) :
    s.holdings f ≤ ({ u with token := token } : SystemState F).holdings f := by
  rw [h.token] at hrun
  -- the core symbol stays
  have hsym : ({ u with token := token } : SystemState F).coreSym = s.coreSym := by
    simp only [coreSym, h.rammarket]
  have hstaked : ({ u with token := token } : SystemState F).stakedOf f = s.stakedOf f +
      if f = owner then n.amount.toInt + c.amount.toInt else 0 := h.staked f
  unfold SystemState.holdings
  rw [hsym, hstaked]
  show _ ≤ token.balance f s.coreSym.code + _ + u.refunds.valueAt f RefundRequest.total
  by_cases hsource : source = f
  · -- what the source sends and gets back is what it stakes
    have howner : owner = f := by
      by_contra hne
      exact (hgift fun ho => hne (ho.trans hsource)).1 hsource
    subst howner
    have hbalance := h.transfer.source_balance hI (hsource ▸ hf) hrun
    have hrefund := h.refundOf (hsource ▸ hf)
    rw [hsource] at hbalance
    rw [if_pos rfl]
    omega
  · -- the source is somebody else, so the balance does not shrink
    have hbalance := h.transfer.balance_le hI hrun hsource s.coreSym.code
    by_cases howner : f = owner
    · -- what is given is new stake
      have hne : owner ≠ source := fun ho => hsource (ho.symm.trans howner.symm)
      rw [if_pos howner, h.refundsOfGift hne (hgift hne).2]
      have hpos := (hgift hne).2
      omega
    · -- an account that is neither has what it had
      have hrefund : u.refunds.valueAt f RefundRequest.total =
          s.refunds.valueAt f RefundRequest.total := by
        unfold Table.valueAt
        rw [h.refundOthers f howner]
      rw [if_neg howner, hrefund]
      omega

/-- A refund goes to its owner. -/
theorem refund_holdings {ctx : Context} {s u : SystemState F} {token : TokenState} {owner f : Name}
    {sends : List InlineAction} (hI : s.CoreToken) (hf : f ≠ stakeAccount)
    (h : s.refund ctx owner = .ok (u, sends)) (hrun : runInline ctx u.token sends = .ok token) :
    ({ u with token := token } : SystemState F).holdings f = s.holdings f := by
  obtain ⟨q, amount, hq, hsym, hamt, rfl, rfl⟩ := refund_spec hI.stake.rows h
  have htransfer : s.token.transfer _ stakeAccount owner amount "unstake" = .ok token :=
    runInline_singleton.mp hrun
  have hmove := transfer_balance hI.token htransfer f s.coreSym.code
  rw [hsym, if_neg (c := f = stakeAccount ∧ _) fun hs => hf hs.1, sub_zero, hamt] at hmove
  unfold holdings
  show token.balance f s.coreSym.code + s.stakedOf f +
    (s.refunds.erase owner).valueAt f RefundRequest.total = _
  rw [hmove, Table.valueAt_erase]
  by_cases ho : f = owner
  · rw [if_pos ⟨ho, rfl⟩, if_pos ho, ho, Table.valueAt_some hq]
    omega
  · rw [if_neg fun hs => ho hs.1, if_neg ho]
    omega

/-! ## One action of the system contract -/

/-- An action by which the account gives nothing up neither stakes for it nor spends its stake. -/
theorem spares_of_keeps {a : SystemAction F} {f : Name} (h : a.givesUp f = false)
    (hother : movesStake a = false) : a.Spares f := by
  cases a with
  | buyram => exact of_decide_eq_false h
  | buyrambytes => exact of_decide_eq_false h
  | delegatebw => cases hother
  | undelegatebw => cases hother
  | token a =>
    cases a with
    | transfer => exact of_decide_eq_false h
    | retire => cases h
    | _ => trivial
  | _ => trivial

variable [Double F]

omit [Double F] in
/-- A voter's stake is what it has given, so it stays when the rows do. -/
theorem stakedOf_eq {s s' : SystemState F} (hI : s.StakeInv) (hI' : s'.StakeInv)
    (h : s'.delband = s.delband) (f : Name) : s'.stakedOf f = s.stakedOf f := by
  rw [← hI'.given f, ← hI.given f, h]

/-- An action takes nothing from an account that gives nothing up. -/
theorem step_holdings {s s' : SystemState F} {call : SystemCall F} {f : Name} (hI : s.CoreToken)
    (hm : s.rammarket.isSome) (hstake : f ≠ stakeAccount) (hram : f ≠ ramAccount)
    (hkeep : f ∈ call.ctx.auth → call.action.givesUp f = false) (h : s.step call = .ok s') :
    s.holdings f ≤ s'.holdings f := by
  have hS := hI.stake
  have hS' := step_stakeInv hS h
  have hcore : ∀ sym, s.coreSymbol = .ok sym → sym = s.coreSym := fun _ => coreSym_of_ok
  cases hother : movesStake call.action with
  | false =>
    -- a call that moves no stake
    have hframe := step_stakeFrame hS.noRex (isInit_eq_false hm h) hother h
    have hspares : call.action.Spares f ∨ f ∉ call.ctx.auth := by
      by_cases hauth : f ∈ call.ctx.auth
      · exact .inl (spares_of_keeps (hkeep hauth) hother)
      · exact .inr hauth
    -- the account of RAM is another custodian
    have hpays : call.action.paysFrom ≠ some f := by
      intro hp
      cases hact : call.action with
      | refund => rw [hact] at hother; cases hother
      | sellram => rw [hact] at hp; exact hram (Option.some.inj hp).symm
      | _ => rw [hact] at hp; cases hp
    -- so only the balance counts, and it does not shrink
    have hbalance := step_balance_le hI h hspares hpays s.coreSym.code
    unfold holdings
    rw [hframe.market.coreSym, stakedOf_eq hS hS' hframe.delband, hframe.refunds]
    omega
  | true =>
    obtain ⟨ctx, action⟩ := call
    cases action with
    | delegatebw from_ receiver net cpu transfer =>
      obtain ⟨u, sends, token, hr, hrun, rfl⟩ := commit_eq_ok.mp h
      obtain ⟨-, -, hn0, hc0, hchange⟩ := delegatebw_spec hS.rows hS.noRex hS.stakedOf_nonneg hcore hr
      obtain ⟨sym, -, -, -, -, hbw⟩ := delegatebw_changebw hr
      -- a delegation turns balance and refund into stake
      refine hchange.holdings hI.token hstake (fun hne => ⟨fun hfrom => ?_, by omega⟩) hrun
      -- what is staked for good goes to somebody else
      have hkeeps := of_decide_eq_false (hkeep (hfrom ▸ changebw_auth hbw))
      cases transfer with
      | false => exact hne rfl
      | true =>
        refine hkeeps ⟨hfrom, fun hreceiver => hne ?_, rfl⟩
        rw [if_pos rfl, hreceiver, hfrom]
    | undelegatebw from_ receiver net cpu =>
      obtain ⟨u, sends, token, hr, hrun, rfl⟩ := commit_eq_ok.mp h
      obtain ⟨-, -, -, -, hchange⟩ := undelegatebw_spec hS.rows hS.noRex hS.stakedOf_nonneg hcore hr
      -- taking back turns stake into refund
      exact hchange.holdings hI.token hstake (fun hne => absurd rfl hne) hrun
    | refund owner =>
      obtain ⟨u, sends, token, hr, hrun, rfl⟩ := commit_eq_ok.mp h
      -- and the refund goes to the balance
      exact (refund_holdings hI hstake hr hrun).ge
    | _ => cases hother

end SystemState

/-! ## The auctions -/

namespace AuctionState

variable {F : Type}

/-- What an account has bid and nobody has outbid, also in auctions that have been closed. -/
def bidBy (s : AuctionState F) (f : Name) : Int :=
  s.sys.bids.sum fun _ b => if b.highBidder = f then |b.highBid.toInt| else 0

/-- The bids of an account that have been outbid. -/
def owedTo (s : AuctionState F) (f : Name) : Int :=
  s.bidRefunds.sumOn (fun k => k.key = f) fun a => a.amount.toInt

/-- Replacing a bid changes what is bid by its old and by its new bidder. -/
theorem bidBy_set {s s' : AuctionState F} {n f : Name} {b : NameBid}
    (h : s'.sys.bids = s.sys.bids.set n b) : s'.bidBy f = s.bidBy f -
      ((s.sys.bids.find? n).elim 0 fun b => if b.highBidder = f then |b.highBid.toInt| else 0) +
      if b.highBidder = f then |b.highBid.toInt| else 0 := by
  unfold bidBy
  rw [h]
  exact s.sys.bids.sum_set n b _

/-- A transfer of core tokens that leaves the stakes alone. -/
theorem transfer_holdings {s s' : SystemState F} {ctx : Context} {from_ to_ f : Name} {q : Asset}
    {memo : String} (hI : s.CoreToken) (same : SameSystem s s') (hcore : q.symbol = s.coreSym)
    (h : s.token.transfer ctx from_ to_ q memo = .ok s'.token) :
    s'.holdings f = s.holdings f + (if f = to_ then q.amount.toInt else 0) -
      if f = from_ then q.amount.toInt else 0 := by
  have hmove := TokenState.transfer_balance hI.token h f s.coreSym.code
  simp only [hcore, and_true] at hmove
  have hstaked : s'.stakedOf f = s.stakedOf f := by
    rw [same]
    rfl
  have hrefunds : s'.refunds = s.refunds := by rw [same]
  unfold SystemState.holdings
  rw [same.coreSym, hmove, hstaked, hrefunds]
  omega

variable [Double F]

/-- The auctions move the tokens of the bidders. -/
theorem step_bidder {s s' : AuctionState F} {call : AuctionCall F} {f : Name} (hI : s.EscrowInv)
    (hcall : isSystem call.action = false) (hnames : f ≠ namesAccount) (hupay : f ≠ upayAccount)
    (h : s.step call = .ok s') :
    s'.sys.holdings f + s'.bidBy f + s'.owedTo f = s.sys.holdings f + s.bidBy f + s.owedTo f := by
  cases step_auction h with
  | first bidder newname bid memo action fresh symbol transfer bids refunds same =>
    -- the bid goes from the balance to the bids
    obtain ⟨-, hpos, -⟩ := transfer_facts transfer
    have hmove := transfer_holdings (f := f) hI.core same (SystemState.coreSym_of_ok symbol) transfer
    rw [if_neg hnames] at hmove
    have hbids := bidBy_set (f := f) bids
    rw [fresh, Option.elim_none, abs_of_pos hpos] at hbids
    unfold owedTo
    rw [refunds, hmove, hbids]
    simp only [eq_comm (a := f)]
    omega
  | outbid bidder newname bid memo current action row isOpen symbol transfer bids s₁ added refunds
      same =>
    -- the new bid is taken from its bidder
    obtain ⟨-, hpos, -⟩ := transfer_facts transfer
    have hmove := transfer_holdings (f := f) hI.core same (SystemState.coreSym_of_ok symbol) transfer
    rw [if_neg hnames] at hmove
    have hbids := bidBy_set (f := f) bids
    rw [row, Option.elim_some, abs_of_pos hpos, abs_of_pos isOpen] at hbids
    -- the bid that has been outbid is owed to its bidder
    obtain ⟨amount, hset, -, -, hamount⟩ := hI.added symbol added
    have howed : s'.owedTo f = s.owedTo f +
        if current.highBidder = f then current.highBid.toInt else 0 := by
      unfold owedTo
      rw [refunds, hset, Table.sumOn_set, hamount, add_sub_cancel_left]
    rw [hmove, hbids, howed]
    simp only [eq_comm (a := f)]
    omega
  | refunded bidder newname amount memo action row transfer bids refunds same =>
    -- the refund goes from what is owed to the balance
    obtain ⟨-, hgood⟩ := hI.refunds _ amount row
    have hmove := transfer_holdings (f := f) hI.core same hgood.symbol transfer
    rw [if_neg hnames] at hmove
    have howed : s'.owedTo f = s.owedTo f - if bidder = f then amount.amount.toInt else 0 := by
      unfold owedTo
      rw [refunds, Table.sumOn_erase, Table.valueAt_some row]
    unfold bidBy
    rw [bids, hmove, howed]
    simp only [eq_comm (a := f)]
    omega
  | closed timestamp accepted newname highest sym memo action row isOpen symbol transfer bids refunds
      same =>
    -- the bid goes to another custodian
    have hmove := transfer_holdings (f := f) hI.core same (SystemState.coreSym_of_ok symbol) transfer
    rw [if_neg hnames, if_neg hupay] at hmove
    -- a closed bid is a negative one
    have hneg := toInt_negBid (hI.bids newname highest row).2
    have hbids := bidBy_set (f := f) bids
    simp only [row, Option.elim_some, hneg, abs_neg] at hbids
    unfold owedTo
    rw [refunds, hmove, hbids]
    omega
  | idle timestamp accepted action token bids refunds same =>
    -- nothing has moved
    have hstaked : s'.sys.stakedOf f = s.sys.stakedOf f := by
      rw [same]
      rfl
    have hrefunds : s'.sys.refunds = s.sys.refunds := by rw [same]
    unfold SystemState.holdings bidBy owedTo
    rw [token, bids, refunds, same.coreSym, hstaked, hrefunds]
  | system a action hstep refunds =>
    rw [action] at hcall
    cases hcall

end AuctionState

/-! ## All contracts -/

/-- The accounts of the system contract, which hold and pay what belongs to others. -/
def custodians : List Name :=
  [systemAccount, stakeAccount, namesAccount, bpayAccount, upayAccount, ramAccount]

namespace Deployment

open SystemState

variable {F K H : Type}

/-- The core tokens of an account, wherever they are. -/
def wealth (d : Deployment F K H) (f : Name) : Int :=
  d.sys.holdings f + d.auction.bidBy f + d.auction.owedTo f +
    d.prodpay.valueAt f ProducerPay.amount

/-- The action of the system contract that an action is. -/
def systemAction : DeploymentAction F K H → Option (SystemAction F)
  | .election (.system a _) => some a
  | _ => none

/-- The account does not sign away what it has, and no account is created for it. -/
def Keeps (f : Name) (call : DeploymentCall F K H) : Prop :=
  ∀ a ∈ systemAction call.action,
    (f ∈ call.ctx.auth → a.givesUp f = false) ∧ a.creates f = false

instance (f : Name) (call : DeploymentCall F K H) : Decidable (Keeps f call) :=
  inferInstanceAs (Decidable (∀ a ∈ systemAction call.action, _))

variable {d d' : Deployment F K H} {f : Name}

/-- A call that keeps the books. -/
theorem Books.wealth (h : Books d.sys d'.sys) (same : d'.prodpay = d.prodpay)
    (refunds : d'.auction.bidRefunds = d.auction.bidRefunds) : d'.wealth f = d.wealth f := by
  unfold Deployment.wealth holdings AuctionState.bidBy AuctionState.owedTo
  rw [show d'.auction.sys.bids = d.auction.sys.bids from h.bids, refunds, same, h.token, h.coreSym,
    h.staked, h.refunds]

variable [Double F]

/-- An action of the system contract keeps the bids of those it does not create an account for. -/
theorem system_wealth {ctx : Context} {a : SystemAction F} {s' : SystemState F} (hI : Proper d)
    (hm : d.sys.rammarket.isSome) (hf : f ∉ custodians)
    (hkeep : f ∈ ctx.auth → a.givesUp f = false) (hcreates : a.creates f = false)
    (h : d.sys.step ⟨ctx, a⟩ = .ok s') : d.wealth f ≤ (d.setSys s').wealth f := by
  have hstake : f ≠ stakeAccount := fun he => hf (by rw [he]; decide +kernel)
  have hram : f ≠ ramAccount := fun he => hf (by rw [he]; decide +kernel)
  -- stake, refund and balance together
  have hholdings := step_holdings hI.core hm hstake hram hkeep h
  -- a bid of the account is not erased, as only its own creation does that
  have hbids : (d.setSys s').auction.bidBy f = d.auction.bidBy f := by
    unfold AuctionState.bidBy
    rcases step_bids hI.core.stake.noRex h with hbids |
      ⟨creator, newact, haction, -, -, b, hb, hbidder, -, hbids⟩
    · rw [show (d.setSys s').auction.sys.bids = d.auction.sys.bids from hbids]
    · have hne : creator ≠ f := by
        rw [show a = .newaccount creator newact from haction] at hcreates
        exact of_decide_eq_false hcreates
      have hsum := d.sys.bids.sum_erase newact fun _ b =>
        if b.highBidder = f then |b.highBid.toInt| else 0
      rw [hb, Option.elim_some, hbidder, if_neg hne, sub_zero] at hsum
      rw [show (d.setSys s').auction.sys.bids = d.sys.bids.erase newact from hbids, hsum]
      rfl
  unfold wealth
  rw [hbids]
  show _ ≤ s'.holdings f + d.auction.bidBy f + d.auction.owedTo f + _
  have hprodpay : (d.setSys s').prodpay = d.prodpay := rfl
  rw [hprodpay]
  omega

variable [Checksum H]

/-- An own action of the resource model takes tokens from an account of the system contract. -/
theorem own_balance_le {call : ResourceCall F H} (hI : Proper d) (hf : f ∉ custodians)
    (own : call.action.isOwn) (h : d.resource.step call = .ok d'.resource) (c : SymbolCode) :
    d.sys.token.balance f c ≤ d'.sys.token.balance f c := by
  -- the account is none of the custodians
  have hne : ∀ o ∈ custodians, some o ≠ some f := by
    intro o ho heq
    exact hf (Option.some.inj heq ▸ ho)
  refine ResourceState.step_balance_le hI.core h (.inl (ResourceAction.spares_of_own own f))
    (fun hp => ?_) c
  -- the other contract pays from custodians only
  cases hact : call.action with
  | settotalusg =>
    rw [hact] at hp
    exact hne systemAccount (by decide +kernel) hp
  | claimdistrib =>
    rw [hact] at hp
    exact hne upayAccount (by decide +kernel) hp
  | claimrewards =>
    rw [hact] at hp
    exact hne bpayAccount (by decide +kernel) hp
  | system =>
    rw [hact] at own
    cases own
  | _ =>
    rw [hact] at hp
    cases hp

/-- Producers are credited, and paid what they have been credited. -/
theorem pay_balance_le {call : ResourceCall F H} (hI : Proper d) (hf : f ∉ custodians)
    (own : call.action.isOwn) (h : d.resource.step call = .ok d'.resource) :
    d.sys.token.balance f d.sys.coreSym.code + d.prodpay.valueAt f ProducerPay.amount ≤
      d'.sys.token.balance f d.sys.coreSym.code + d'.prodpay.valueAt f ProducerPay.amount := by
  have hle := own_balance_le hI hf own h d.sys.coreSym.code
  cases ResourceState.step_history hI.core.token h with
  -- the rows of the pay are as before, and the balance does not shrink
  | kept hhist hpay hnone hclaim =>
    rw [show d'.prodpay = d.prodpay from hpay]
    omega
  | first start hempty hhist hpay hsys hnone hclaim =>
    rw [show d'.prodpay = d.prodpay from hpay]
    omega
  -- the active producers are credited
  | issued cpu net sends k last row sym inflation hiss hrun hsys hone hclaim =>
    have hrows : ResourceState.PayRows sym d.prodpay := by
      rw [coreSym_of_ok hiss.coreSymbol]
      exact hI.payRows
    obtain ⟨-, -, hvalue⟩ := hiss.credits hrows
    -- nobody earns less than nothing
    have hearned : 0 ≤ ResourceState.earnedPay row
        (ResourceState.activeProducers d.resource.sys).length := le_max_right _ _
    have hvalue : d.prodpay.valueAt f ProducerPay.amount ≤
        d'.prodpay.valueAt f ProducerPay.amount := by
      refine le_of_le_of_eq ?_ (hvalue f).symm
      split
      · exact le_add_of_nonneg_right hearned
      · exact (add_zero _).ge
    omega
  | claimed owner pay balance time hclaim hhist hnone hfind hpos hrest hprodpay hrun hsys =>
    -- the producer has its pay
    obtain ⟨-, -, -, hvalue⟩ :=
      ResourceState.claimed_spec hI.core.token hI.payRows hfind hrest hprodpay hrun hsys
    have hvalue : d'.prodpay.valueAt f ProducerPay.amount =
        if f = owner then 0 else d.prodpay.valueAt f ProducerPay.amount := hvalue f
    by_cases ho : f = owner
    · have hfind : d.prodpay.find? owner = some pay := hfind
      obtain ⟨hpaysym, -⟩ := hI.payRows owner pay hfind
      -- what is claimed goes into the balance
      have hmove : d'.sys.token.balance f pay.balance.symbol.code = _ :=
        TokenState.transfer_balance hI.core.token (runInline_singleton.mp hrun) f
          pay.balance.symbol.code
      have hbpay : f ≠ bpayAccount := fun he => hf (by rw [he]; decide +kernel)
      rw [if_pos ⟨ho, rfl⟩, if_neg fun hs => hbpay hs.1, sub_zero, hpaysym] at hmove
      rw [hvalue, if_pos ho, hmove, ho, Table.valueAt_some hfind]
      exact (add_zero _).ge
    · -- the others have what they had
      rw [hvalue, if_neg ho]
      omega

/-- The resource model keeps the other parts of what an account has. -/
theorem resource_wealth {call : ResourceCall F H} (hI : Proper d) (hf : f ∉ custodians)
    (own : call.action.isOwn) (h : d.resource.step call = .ok d'.resource)
    (rest : d' = d.setResource d'.resource) : d.wealth f ≤ d'.wealth f := by
  obtain ⟨hsys, -⟩ : d'.sys = { d.sys with token := d'.sys.token } ∧ _ :=
    ResourceState.own_sys hI.core.token own h
  have hsym : d'.sys.coreSym = d.sys.coreSym := by
    rw [hsys]
    rfl
  -- nothing of the system contract has changed but the tokens
  have hstaked : d'.sys.stakedOf f = d.sys.stakedOf f := by
    rw [hsys]
    rfl
  have hrefunds : d'.sys.refunds = d.sys.refunds := by rw [hsys]
  have hrows : d'.sys.bids = d.sys.bids := by rw [hsys]
  -- nor have the bids and their refunds
  have hbids : d'.auction.bidBy f = d.auction.bidBy f := by
    unfold AuctionState.bidBy
    rw [show d'.auction.sys.bids = d.auction.sys.bids from hrows]
  have howed : d'.auction.owedTo f = d.auction.owedTo f := by
    rw [rest]
    rfl
  -- the pay and the balance together do not shrink
  have hle := pay_balance_le hI hf own h
  unfold wealth holdings
  rw [hbids, howed, hsym, hstaked, hrefunds]
  omega

variable [Inhabited K]

/-- No call takes anything from an account that does not sign it away. -/
theorem step_wealth {isValid : BlockSigningAuthority K → Bool} {call : DeploymentCall F K H}
    (hI : Proper d) (hm : d.sys.rammarket.isSome) (hf : f ∉ custodians) (hkeep : Keeps f call)
    (h : d.step isValid call = .ok d') : d.wealth f ≤ d'.wealth f := by
  cases step_change h with
  | system a direct action hstep rest =>
    -- the account gives nothing away
    obtain ⟨hgives, hcreates⟩ := hkeep a (by rw [action]; rfl)
    rw [rest]
    exact system_wealth hI hm hf hgives hcreates hstep
  | auction a action hstep same =>
    -- an auction moves tokens between the parts
    have hbidder := AuctionState.step_bidder (f := f) hI.escrow (isSystem_auctionAction action)
      (fun he => hf (by rw [he]; decide +kernel)) (fun he => hf (by rw [he]; decide +kernel)) hstep
    unfold wealth
    rw [same.prodpay]
    exact (congrArg (· + d.prodpay.valueAt f ProducerPay.amount) hbidder).ge
  | books action books same refunds => exact (Books.wealth books same.prodpay refunds).ge
  | resource a own action hstep rest => exact resource_wealth hI hf own hstep rest
  | deferred sender trx u action taken run rest =>
    -- the queue is no part of what the account owns
    have hbooks : Books d.sys (d.setSys u).sys := .of_takeDeferred taken
    have hI : Proper (d.setSys u) := hI.books hbooks rfl rfl
    have heq : (d.setSys u).wealth f = d.wealth f := Books.wealth hbooks rfl rfl
    have hm : (d.setSys u).sys.rammarket.isSome := hbooks.rammarket.symm ▸ hm
    rw [← heq, rest, run]
    cases hs : SystemState.step u ⟨call.ctx.withAuth [trx.owner], .refund trx.owner⟩ with
    | error e => rw [Run.next_of_error hs]
    | ok s' =>
      rw [Run.next_of_ok hs]
      exact system_wealth hI hm hf (fun _ => rfl) rfl hs

/-! ## Runs -/

/-- Once the contract is initialised, an account never loses core tokens in any run, whatever
    others do in whatever order: they stay in its balance, its stakes, its refund, its bids and
    its pay, unless it signs them away or an account is created for it. -/
theorem wealth_kept (isValid : BlockSigningAuthority K → Bool) (maxBlockNetUsage : UInt64)
    (maxBlockCpuUsage : UInt32) {setup calls : List (DeploymentCall F K H)} {f : Name}
    (hm : (Run.exec (step isValid) (genesis maxBlockNetUsage maxBlockCpuUsage)
      setup).sys.rammarket.isSome)
    (hf : f ∉ custodians) (hkeep : ∀ call ∈ calls, Keeps f call) :
    let d := Run.exec (step isValid) (genesis maxBlockNetUsage maxBlockCpuUsage) setup
    d.wealth f ≤ (Run.exec (step isValid) d calls).wealth f := by
  intro d
  have hstart : Proper d ∧ d.sys.rammarket.isSome := ⟨exec_proper (genesis_proper _ _) setup, hm⟩
  refine (Run.exec_rel (I := fun d => Proper d ∧ d.sys.rammarket.isSome) (R := fun d d' => wealth d f ≤ wealth d' f) (fun _ => le_refl _)
    (fun _ _ _ h h' => le_trans h h') (fun d call d' hI hk h => ?_) hstart
    (Run.meets_of_forall hkeep)).2
  obtain ⟨hI, hm⟩ := hI
  refine ⟨⟨hI.step h, ?_⟩, step_wealth hI hm hf hk h⟩
  rw [(hI.step_sameMarket hm h).isSome]
  exact hm

/-- What bob has stays the same while he bids and others trade. -/
theorem wealth_kept_sample :
    let d := Run.exec (step Sample.isValid) Sample.start Sample.launching
    let d' := Run.exec (step Sample.isValid) d Sample.claims
    d.wealth SystemState.Sample.bob ≤ d'.wealth SystemState.Sample.bob ∧
      d.wealth SystemState.Sample.bob = 50000 ∧
      d'.sys.token.balance SystemState.Sample.bob d'.sys.coreSym.code = 30000 := by
  have hm : (Run.exec (step Sample.isValid) (genesis 1048576 200000)
      Sample.launching).sys.rammarket.isSome := by decide +kernel
  have hf : SystemState.Sample.bob ∉ custodians := by decide +kernel
  have hkeep : ∀ call ∈ Sample.claims, Keeps SystemState.Sample.bob call := by decide +kernel
  unfold Sample.start
  refine ⟨wealth_kept Sample.isValid 1048576 200000 hm hf hkeep, ?_, ?_⟩
  · decide +kernel
  · decide +kernel

end Deployment

end UxContracts
