import UxContracts.Native.Deployment
import UxContracts.Spec.AuctionEscrow
import UxContracts.Spec.ElectionChange
import UxContracts.Spec.ResourceEffects

/-!
# What a call does to the deployed contracts

A call of the whole machine is one step of the machine that its action belongs to, and leaves
the tables of the others alone (`DeploymentChange`). Registering producers and pinning limits
keep all that is owned (`Books`), so they are one case.
-/

namespace UxContracts

/-- What an account votes for, and whether it is a proxy. -/
structure Ballot where
  proxy : Name
  producers : List Name
  isProxy : Bool

def VoterBase.ballot (b : VoterBase) : Ballot := ⟨b.proxy, b.producers, b.isProxy⟩

namespace SystemState

variable {F : Type}

/-- An account without a row votes for nobody. -/
def ballotOf (s : SystemState F) (f : Name) : Ballot :=
  ((s.baseOf f).map VoterBase.ballot).getD ⟨⟨0⟩, [], false⟩

/-- `s'` has the same ledgers of tokens, stakes, RAM, bids and ballots as `s`. -/
structure Books (s s' : SystemState F) : Prop where
  token : s'.token = s.token
  rammarket : s'.rammarket = s.rammarket
  userres : s'.userres = s.userres
  delband : s'.delband = s.delband
  refunds : s'.refunds = s.refunds
  bids : s'.bids = s.bids
  rexbalance : s'.rexbalance = s.rexbalance
  totalRamBytesReserved : s'.gstate.totalRamBytesReserved = s.gstate.totalRamBytesReserved
  totalRamStake : s'.gstate.totalRamStake = s.gstate.totalRamStake
  staked : ∀ f, s'.stakedOf f = s.stakedOf f
  ballots : ∀ f, s'.ballotOf f = s.ballotOf f

namespace Books

variable {s s' : SystemState F}

/-- A change of the status of a producer keeps the books. -/
theorem of_status [Double F] {p : Name} {active : Bool} (h : StatusChange s s' p active) :
    Books s s' := by
  have hframe := h.frame
  refine ⟨hframe.token, hframe.rammarket, hframe.userres, hframe.delband, hframe.refunds,
    congrArg Ledgers.bids hframe.ledgers, hframe.rexbalance,
    congrArg Ledgers.totalRamBytesReserved hframe.ledgers,
    congrArg Ledgers.totalRamStake hframe.ledgers, hframe.staked, fun f => ?_⟩
  unfold ballotOf baseOf
  rw [h.voters]

/-- A pinned limit keeps the books. -/
theorem of_setacct [Double F] {ctx : Context} {q : Quota} {account : Name} {value : Option Int64}
    (h : s.setacct ctx q account value = .ok s') : Books s s' := by
  obtain ⟨v, hv, rfl, -⟩ := setacct_spec h
  -- the stake of the row is the old one, or zero in a new row
  have hstaked : v.staked.toInt = s.stakedOf account := by
    rcases hv with ⟨hnone, rfl, -⟩ | hsome
    · rw [stakedOf, Table.valueAt_none hnone]
      rfl
    · exact (stakedOf_some hsome).symm
  have hset : VoteFrame s { s with voters := s.voters.set account { v with
      flags1 := q.setManaged v.flags1 (decide (value ≠ none)) } } := voteFrame_set hstaked
  refine ⟨rfl, rfl, rfl, rfl, rfl, rfl, rfl, rfl, rfl, hset.staked, fun f => ?_⟩
  -- a flag is no part of a ballot
  unfold ballotOf
  show ((({ s with voters := _ } : SystemState F).baseOf f).map _).getD _ = _
  rw [baseOf_set]
  split
  · rename_i hf
    rcases hv with ⟨hnone, rfl, -⟩ | hsome
    · unfold baseOf
      rw [hf, hnone]
      rfl
    · rw [hf, baseOf_some hsome]
      rfl
  · rfl

/-- Taking a deferred transaction out of the queue keeps the books. -/
theorem of_takeDeferred {sender : Name} {trx : DeferredRefund}
    (h : s.takeDeferred sender = .ok (s', trx)) : Books s s' := by
  simp only [takeDeferred, bind_eq_ok, pure_eq_ok, Prod.mk.injEq] at h
  obtain ⟨_, -, rfl, -⟩ := h
  exact ⟨rfl, rfl, rfl, rfl, rfl, rfl, rfl, rfl, rfl, fun _ => rfl, fun _ => rfl⟩

theorem coreSym (h : Books s s') : s'.coreSym = s.coreSym := by
  unfold SystemState.coreSym
  rw [h.rammarket]

/-- The rows of stakes are part of the books. -/
theorem stakeInv (h : Books s s') (hI : s.StakeInv) : s'.StakeInv := by
  refine hI.of_same h.delband h.refunds h.rexbalance h.coreSym ?_ ?_ ?_ h.staked
  · rw [h.rammarket]
    exact id
  · rw [h.userres]
    exact hI.rows.userres
  · rw [h.userres]
    exact fun _ => ⟨rfl, rfl⟩

/-- What the core token rests on is part of the books. -/
theorem coreToken (h : Books s s') (hI : s.CoreToken) : s'.CoreToken where
  stake := h.stakeInv hI.stake
  token := by
    rw [h.token]
    exact hI.token
  core := by
    rw [h.token, h.rammarket, h.coreSym]
    exact hI.core

end Books

end SystemState

namespace Deployment

variable {F K H : Type}

/-- The tables of the resource model are the same. -/
def SameResource (d d' : Deployment F K H) : Prop :=
  d'.resource = { d.resource with sys := d'.sys }

theorem SameResource.prodpay {d d' : Deployment F K H} (h : SameResource d d') :
    d'.prodpay = d.prodpay :=
  congrArg ResourceState.prodpay h

/-- The action of the auctions that an action is. -/
def auctionAction : DeploymentAction F K H → Option (AuctionAction F)
  | .bidname bidder newname bid => some (.bidname bidder newname bid)
  | .bidrefund bidder newname => some (.bidrefund bidder newname)
  | .election (.onblock timestamp _ accepted) => some (.onblock timestamp accepted)
  | _ => none

/-- An action of the auctions is none of the system contract. -/
theorem isSystem_auctionAction {action : DeploymentAction F K H} {a : AuctionAction F}
    (h : auctionAction action = some a) : AuctionState.isSystem a = false := by
  cases action with
  | bidname bidder newname bid =>
    cases h
    rfl
  | bidrefund bidder newname =>
    cases h
    rfl
  | election action =>
    cases action with
    | onblock timestamp producer accepted =>
      cases h
      rfl
    | _ => cases h
  | _ => cases h

variable [Inhabited K] [Checksum H] [Double F]

/-- What a successful call did. -/
inductive DeploymentChange (d : Deployment F K H) (call : DeploymentCall F K H)
    (d' : Deployment F K H) : Prop
  | system (a : SystemAction F) (direct : a.isDirect)
      (action : call.action = .election (.system a direct))
      (step : d.sys.step ⟨call.ctx, a⟩ = .ok d'.sys) (rest : d' = d.setSys d'.sys)
  | auction (a : AuctionAction F) (action : auctionAction call.action = some a)
      (step : d.auction.step ⟨call.ctx, a⟩ = .ok d'.auction) (same : SameResource d d')
  | books (action : auctionAction call.action = none) (books : SystemState.Books d.sys d'.sys)
      (same : SameResource d d') (refunds : d'.auction.bidRefunds = d.auction.bidRefunds)
  | resource (a : ResourceAction F H) (own : a.isOwn) (action : call.action = .resource a own)
      (step : d.resource.step ⟨call.ctx, a⟩ = .ok d'.resource) (rest : d' = d.setResource d'.resource)
  | deferred (sender : Name) (trx : DeferredRefund) (u : SystemState F)
      (action : call.action = .deferredRefund sender)
      (taken : d.sys.takeDeferred sender = .ok (u, trx))
      (run : d'.sys = Run.next SystemState.step u
        ⟨call.ctx.withAuth [trx.owner], .refund trx.owner⟩) (rest : d' = d.setSys d'.sys)

omit [Inhabited K] [Checksum H] [Double F] in
theorem setElection_same (d : Deployment F K H) (election : ElectionState F K) :
    SameResource d { d with election := election } := rfl

/-- Registrations and removals of producers keep the books. -/
theorem registered_books {isValid : BlockSigningAuthority K → Bool} {w w' : ElectionState F K}
    {ctx : Context} {action : ElectionAction F K} (hblock : ∀ t p b, action ≠ .onblock t p b)
    (hsystem : ∀ a direct, action ≠ .system a direct) (h : w.run isValid ⟨ctx, action⟩ = .ok w') :
    SystemState.Books w.sys w'.sys ∧ w'.auction.bidRefunds = w.auction.bidRefunds := by
  -- what registration writes is the status of a producer
  have hregister : ∀ {p : Name} {a : BlockSigningAuthority K} {url : String} {location : UInt16},
      w.registerProducer ctx p a url location = .ok w' →
      SystemState.Books w.sys w'.sys ∧ w'.auction.bidRefunds = w.auction.bidRefunds := by
    intro p a url location h
    simp only [ElectionState.registerProducer, bind_eq_ok, pure_eq_ok] at h
    obtain ⟨sys, hsys, rfl⟩ := h
    exact ⟨.of_status (SystemState.registerProducer_spec hsys).2, rfl⟩
  cases action with
  | regproducer producer producerKey url location =>
    simp only [ElectionState.run, ElectionState.regproducer, bind_eq_ok] at h
    obtain ⟨_, -, _, -, h⟩ := h
    exact hregister h
  | regproducer2 producer producerAuthority url location =>
    simp only [ElectionState.run, ElectionState.regproducer2, bind_eq_ok] at h
    obtain ⟨_, -, _, -, _, -, h⟩ := h
    exact hregister h
  | unregprod producer =>
    simp only [ElectionState.run, ElectionState.unregprod, bind_eq_ok, getRow_eq_ok,
      pure_eq_ok] at h
    obtain ⟨_, -, prod, hprod, rfl⟩ := h
    -- a producer is deactivated
    exact ⟨.of_status (SystemState.deactivate_change hprod), rfl⟩
  | rmvproducer producer =>
    simp only [ElectionState.run, ElectionState.rmvproducer, bind_eq_ok, getRow_eq_ok,
      pure_eq_ok] at h
    obtain ⟨_, -, prod, hprod, rfl⟩ := h
    exact ⟨.of_status (SystemState.deactivate_change hprod), rfl⟩
  -- the other actions have steps of their own
  | onblock timestamp producer accepted => exact absurd rfl (hblock timestamp producer accepted)
  | system a direct => exact absurd rfl (hsystem a direct)

/-- The auctions see the block. -/
theorem onblock_auction {isValid : BlockSigningAuthority K → Bool} {w w' : ElectionState F K}
    {ctx : Context} {timestamp : BlockTimestamp} {producer : Name} {accepted : Bool}
    (h : w.run isValid ⟨ctx, .onblock timestamp producer accepted⟩ = .ok w') :
    w.auction.step ⟨ctx, .onblock timestamp accepted⟩ = .ok w'.auction := by
  simp only [ElectionState.run, ElectionState.commit, bind_eq_ok, pure_eq_ok] at h
  obtain ⟨⟨u, sends⟩, hblock, token, htoken, rfl⟩ := h
  obtain ⟨hauction, -⟩ := ElectionState.onblock_spec hblock
  simp only [AuctionState.step, AuctionState.commit, bind_eq_ok, pure_eq_ok]
  exact ⟨_, hauction, token, htoken, rfl⟩

/-- Every call changes the state in one of these ways. -/
theorem step_change {isValid : BlockSigningAuthority K → Bool} {d d' : Deployment F K H}
    {call : DeploymentCall F K H} (h : d.step isValid call = .ok d') :
    DeploymentChange d call d' := by
  obtain ⟨ctx, action⟩ := call
  cases action with
  | election action =>
    -- the actions of the election come first, and they see the whole system
    simp only [step, bind_eq_ok, pure_eq_ok] at h
    obtain ⟨w, hw, rfl⟩ := h
    obtain ⟨hrun, -⟩ := ElectionState.step_eq_ok hw
    cases action with
    | onblock timestamp producer accepted =>
      exact .auction _ rfl (onblock_auction hrun) (setElection_same d w)
    | system a direct =>
      -- an action of the system contract that the election passes on
      simp only [ElectionState.run, bind_eq_ok, pure_eq_ok] at hrun
      obtain ⟨sys, hsys, rfl⟩ := hrun
      exact .system a direct rfl hsys rfl
    | regproducer producer producerKey url location =>
      -- registration writes no book
      obtain ⟨hbooks, hrefunds⟩ := registered_books (by simp) (by simp) hrun
      exact .books rfl hbooks (setElection_same d w) hrefunds
    | regproducer2 producer producerAuthority url location =>
      obtain ⟨hbooks, hrefunds⟩ := registered_books (by simp) (by simp) hrun
      exact .books rfl hbooks (setElection_same d w) hrefunds
    | unregprod producer =>
      obtain ⟨hbooks, hrefunds⟩ := registered_books (by simp) (by simp) hrun
      exact .books rfl hbooks (setElection_same d w) hrefunds
    | rmvproducer producer =>
      obtain ⟨hbooks, hrefunds⟩ := registered_books (by simp) (by simp) hrun
      exact .books rfl hbooks (setElection_same d w) hrefunds
  | bidname bidder newname bid =>
    simp only [step, bind_eq_ok, pure_eq_ok] at h
    obtain ⟨auction, hauction, rfl⟩ := h
    exact .auction _ rfl hauction (setElection_same d _)
  | bidrefund bidder newname =>
    simp only [step, bind_eq_ok, pure_eq_ok] at h
    obtain ⟨auction, hauction, rfl⟩ := h
    exact .auction _ rfl hauction (setElection_same d _)
  | setacctram account ramBytes =>
    simp only [step, bind_eq_ok, pure_eq_ok] at h
    obtain ⟨sys, hsys, rfl⟩ := h
    -- limits are no part of the books
    exact .books rfl (.of_setacct hsys) rfl rfl
  | setacctnet account netWeight =>
    simp only [step, bind_eq_ok, pure_eq_ok] at h
    obtain ⟨sys, hsys, rfl⟩ := h
    exact .books rfl (.of_setacct hsys) rfl rfl
  | setacctcpu account cpuWeight =>
    simp only [step, bind_eq_ok, pure_eq_ok] at h
    obtain ⟨sys, hsys, rfl⟩ := h
    exact .books rfl (.of_setacct hsys) rfl rfl
  | resource a own =>
    simp only [step, bind_eq_ok, pure_eq_ok] at h
    obtain ⟨r, hr, rfl⟩ := h
    exact .resource a own rfl hr rfl
  | deferredRefund sender =>
    simp only [step, SystemState.chainStep, bind_eq_ok, pure_eq_ok] at h
    obtain ⟨sys, ⟨⟨u, trx⟩, htaken, rfl⟩, rfl⟩ := h
    -- the transaction is taken from the queue and run
    exact .deferred sender trx u rfl htaken rfl rfl
  | droppedRefund sender =>
    simp only [step, SystemState.chainStep, bind_eq_ok, pure_eq_ok] at h
    obtain ⟨sys, ⟨⟨u, trx⟩, htaken, rfl⟩, rfl⟩ := h
    -- it is taken from the queue and not run
    exact .books rfl (.of_takeDeferred htaken) rfl rfl

end Deployment

end UxContracts
