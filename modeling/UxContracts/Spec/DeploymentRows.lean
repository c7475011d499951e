import UxContracts.Spec.DeploymentChange
import UxContracts.Spec.ProducerPay

/-!
# The rows of the deployed contracts

Every call, in whatever order, keeps the rows of the stakes, the auctions and the producers' pay
proper: all amounts are in the core token and within range (`Deployment.Proper`).
-/

namespace UxContracts

namespace AuctionState

variable {F : Type} [Double F]

/-- A call of the auctions keeps the other tables and moves tokens by inline actions. -/
theorem step_tokens {s s' : AuctionState F} {call : AuctionCall F}
    (hcall : isSystem call.action = false) (h : s.step call = .ok s') :
    SameSystem s.sys s'.sys ∧
      ∃ sends, SystemState.runInline call.ctx s.sys.token sends = .ok s'.sys.token := by
  have hsend : ∀ {auth : List Name} {from_ to_ : Name} {q : Asset} {memo : String},
      s.sys.token.transfer (call.ctx.withAuth auth) from_ to_ q memo = .ok s'.sys.token →
      ∃ sends, SystemState.runInline call.ctx s.sys.token sends = .ok s'.sys.token := by
    intro auth from_ to_ q memo htransfer
    exact ⟨[⟨auth, .transfer from_ to_ q memo⟩], SystemState.runInline_singleton.mpr htransfer⟩
  cases step_auction h with
  | first bidder newname bid memo action fresh symbol transfer bids refunds same =>
    exact ⟨same, hsend transfer⟩
  | outbid bidder newname bid memo current action row isOpen symbol transfer bids s₁ added refunds
      same => exact ⟨same, hsend transfer⟩
  | refunded bidder newname amount memo action row transfer bids refunds same =>
    exact ⟨same, hsend transfer⟩
  | closed timestamp accepted newname highest sym memo action row isOpen symbol transfer bids refunds
      same => exact ⟨same, hsend transfer⟩
  | idle timestamp accepted action token bids refunds same =>
    exact ⟨same, [], SystemState.runInline_nil.mpr token.symm⟩
  | system a action hstep refunds =>
    rw [action] at hcall
    cases hcall

end AuctionState

namespace ResourceState

variable {F H : Type} [Checksum H] [Double F]

/-- The resource model changes the tables of the other contracts by inline actions only. -/
theorem own_sys {s s' : ResourceState F H} {call : ResourceCall F H} (hI : s.sys.token.Inv)
    (own : call.action.isOwn) (h : s.step call = .ok s') :
    s'.sys = { s.sys with token := s'.sys.token } ∧
      TokenState.KeepsTokens s.sys.token s'.sys.token := by
  rcases step_sys hI h with ⟨sends, hrun, hsys⟩ | ⟨a, haction, -⟩
  · exact ⟨hsys, (SystemState.runInline_inv hI hrun).2⟩
  · rw [haction] at own
    cases own

end ResourceState

namespace Deployment

open SystemState

variable {F K H : Type}

/-- The rows are proper; nothing is earned before the contract is initialised. -/
structure Proper (d : Deployment F K H) : Prop where
  escrow : d.auction.EscrowInv
  noPay : d.sys.rammarket = none → d.prodpay = ∅
  payRows : ResourceState.PayRows d.sys.coreSym d.prodpay

namespace Proper

variable {d d' : Deployment F K H}

theorem core (hI : Proper d) : d.sys.CoreToken := hI.escrow.core

/-- A call that keeps what has been earned, and the market. -/
theorem of_same (hI : Proper d) (escrow : d'.auction.EscrowInv) (same : d'.prodpay = d.prodpay)
    (hmarket : d'.sys.rammarket = d.sys.rammarket) (hsym : d'.sys.coreSym = d.sys.coreSym) :
    Proper d' := by
  refine ⟨escrow, fun hm => ?_, ?_⟩
  · rw [same]
    exact hI.noPay (hmarket ▸ hm)
  · rw [same, hsym]
    exact hI.payRows

/-- What keeps the books keeps the rows proper. -/
theorem books (hI : Proper d) (h : Books d.sys d'.sys) (same : SameResource d d')
    (refunds : d'.auction.bidRefunds = d.auction.bidRefunds) : Proper d' := by
  refine hI.of_same ⟨h.coreToken hI.core, ?_, ?_⟩ same.prodpay h.rammarket h.coreSym
  · rw [show d'.auction.sys.bids = d.auction.sys.bids from h.bids,
      show d'.auction.sys.rammarket = d.auction.sys.rammarket from h.rammarket]
    exact hI.escrow.bids
  · rw [refunds, show d'.auction.sys.rammarket = d.auction.sys.rammarket from h.rammarket,
      show d'.auction.sys.coreSym = d.auction.sys.coreSym from h.coreSym]
    exact hI.escrow.refunds

variable [Double F]

omit [Double F] in
theorem market_none {s s' : SystemState F} (h : s.rammarket.isSome → s'.rammarket.isSome)
    (hm : s'.rammarket = none) : s.rammarket = none := by
  by_contra hne
  have hsome := h (Option.isSome_iff_ne_none.mpr hne)
  rw [hm] at hsome
  cases hsome

/-- The auctions see an action of the system contract. -/
theorem auction_system {ctx : Context} {a : SystemAction F} {s' : SystemState F}
    (h : d.sys.step ⟨ctx, a⟩ = .ok s') :
    d.auction.step ⟨ctx, .system a⟩ = .ok (d.setSys s').auction := by
  simp only [AuctionState.step, bind_eq_ok, pure_eq_ok]
  exact ⟨s', h, rfl⟩

/-- An action of the system contract keeps the rows proper. -/
theorem system (hI : Proper d) {ctx : Context} {a : SystemAction F} {s' : SystemState F}
    (h : d.sys.step ⟨ctx, a⟩ = .ok s') : Proper (d.setSys s') := by
  have hsame := fun hm => step_sameMarket hI.core.stake hm h
  refine ⟨hI.escrow.step (auction_system h), fun hm => hI.noPay (market_none (fun hm => ?_) hm), ?_⟩
  · rw [sys_setSys, (hsame hm).isSome]
    exact hm
  · cases hm : d.sys.rammarket with
    | none =>
      rw [show (d.setSys s').prodpay = ∅ from hI.noPay hm]
      exact ResourceState.payRows_empty _
    | some m =>
      rw [sys_setSys, (hsame (by rw [hm]; rfl)).coreSym]
      exact hI.payRows

/-- An action of the auctions keeps the rows proper. -/
theorem auctions (hI : Proper d) {call : AuctionCall F}
    (hcall : AuctionState.isSystem call.action = false)
    (h : d.auction.step call = .ok d'.auction) (same : SameResource d d') : Proper d' := by
  obtain ⟨hsame, -⟩ := AuctionState.step_tokens hcall h
  exact hI.of_same (hI.escrow.step h) same.prodpay hsame.rammarket hsame.coreSym

omit [Double F] in
/-- The record of the pay that fits the rows. -/
theorem payInv (hI : Proper d) : ResourceState.PayInv d.resource
    ⟨fun o => d.prodpay.valueAt o ProducerPay.amount, fun _ => 0⟩ :=
  ⟨hI.core, hI.noPay, hI.payRows, fun _ => (zero_add _).symm⟩

variable [Checksum H]

/-- An action on resources keeps the rows proper. -/
theorem resources (hI : Proper d) {call : ResourceCall F H} (own : call.action.isOwn)
    (h : d.resource.step call = .ok d'.resource) (rest : d' = d.setResource d'.resource) :
    Proper d' := by
  obtain ⟨hsys, -⟩ := ResourceState.own_sys hI.core.token own h
  have hpay := ResourceState.step_payInv hI.payInv h
  have hsame : AuctionState.SameSystem d.sys d'.sys := by
    rw [show d'.sys = { d.sys with token := d'.sys.token } from hsys]
    rfl
  have hbids : d'.sys.bids = d.sys.bids := by
    rw [show d'.sys = { d.sys with token := d'.sys.token } from hsys]
  have hrefunds : d'.auction.bidRefunds = d.auction.bidRefunds := by
    rw [rest]
    rfl
  exact ⟨.of_rows hsame hpay.core hbids hrefunds hI.escrow.bids hI.escrow.refunds, hpay.uninit,
    hpay.rows⟩

variable [Inhabited K]

/-- Every call keeps the rows proper. -/
theorem step {isValid : BlockSigningAuthority K → Bool} {call : DeploymentCall F K H}
    (hI : Proper d) (h : d.step isValid call = .ok d') : Proper d' := by
  cases step_change h with
  | system a direct action hstep rest =>
    rw [rest]
    exact hI.system hstep
  | auction a action hstep same => exact hI.auctions (isSystem_auctionAction action) hstep same
  | books action books same refunds => exact hI.books books same refunds
  | resource a own action hstep rest => exact hI.resources own hstep rest
  | deferred sender trx u action taken run rest =>
    have hI : Proper (d.setSys u) := hI.books (.of_takeDeferred taken) rfl rfl
    rw [rest, run]
    cases hs : SystemState.step u ⟨call.ctx.withAuth [trx.owner], .refund trx.owner⟩ with
    | error e =>
      rw [Run.next_of_error hs]
      exact hI
    | ok s' =>
      rw [Run.next_of_ok hs]
      exact hI.system hs

/-- A market stays, with its core symbol. -/
theorem step_sameMarket {isValid : BlockSigningAuthority K → Bool} {call : DeploymentCall F K H}
    (hI : Proper d) (hm : d.sys.rammarket.isSome) (h : d.step isValid call = .ok d') :
    SameMarket d.sys d'.sys := by
  cases step_change h with
  | system a direct action hstep rest => exact SystemState.step_sameMarket hI.core.stake hm hstep
  | auction a action hstep same =>
    -- the auctions do not write the market
    obtain ⟨hsame, -⟩ := AuctionState.step_tokens (isSystem_auctionAction action) hstep
    exact .of_eq hsame.rammarket
  | books action books same refunds => exact .of_eq books.rammarket
  | resource a own action hstep rest =>
    -- the accounting of usage writes tokens only
    obtain ⟨hsys, -⟩ : d'.sys = { d.sys with token := d'.sys.token } ∧ _ :=
      ResourceState.own_sys hI.core.token own hstep
    rw [hsys]
    exact .of_eq rfl
  | deferred sender trx u action taken run rest =>
    -- the refund that the chain runs is taken from the queue first
    have hbooks : Books d.sys u := .of_takeDeferred taken
    rw [run]
    cases hs : SystemState.step u ⟨call.ctx.withAuth [trx.owner], .refund trx.owner⟩ with
    | error e =>
      rw [Run.next_of_error hs]
      exact .of_eq hbooks.rammarket
    | ok s' =>
      rw [Run.next_of_ok hs]
      have hm : u.rammarket.isSome := hbooks.rammarket.symm ▸ hm
      have hsame := SystemState.step_sameMarket (hbooks.coreToken hI.core).stake hm hs
      exact ⟨hsame.isSome.trans (by rw [hbooks.rammarket]), hsame.coreSym.trans hbooks.coreSym⟩

end Proper

/-! ## Runs -/

variable [Double F]

theorem genesis_proper (maxBlockNetUsage : UInt64) (maxBlockCpuUsage : UInt32) :
    Proper (genesis maxBlockNetUsage maxBlockCpuUsage : Deployment F K H) where
  escrow := by
    refine ⟨SystemState.genesis_coreToken _ _, fun n b hb => ?_, fun k a ha => ?_⟩
    · have hnone : (∅ : Table Name NameBid).find? n = some b := hb
      rw [Table.find?_empty] at hnone
      cases hnone
    · have hnone : (∅ : Table (Scoped Name Name) Asset).find? k = some a := ha
      rw [Table.find?_empty] at hnone
      cases hnone
  noPay := fun _ => rfl
  payRows := ResourceState.payRows_empty _

variable [Checksum H] [Inhabited K]

/-- Every run keeps the rows proper. -/
theorem exec_proper {isValid : BlockSigningAuthority K → Bool} {d : Deployment F K H}
    (hI : Proper d) (calls : List (DeploymentCall F K H)) :
    Proper (Run.exec (step isValid) d calls) :=
  Run.exec_induction (fun _ _ _ hI h => hI.step h) hI calls

end Deployment

end UxContracts
