import UxContracts.Spec.CoreToken
import UxContracts.Spec.VoterBase

/-!
# What a call does to voters and producers

`VoterChange` lists what a successful call can do to the tables of voters and producers: it
leaves them alone, casts a vote, registers a proxy, changes a stake, changes the status of a
producer or the flags of an account. The invariants about voting follow from it case by case.
-/

namespace UxContracts

namespace SystemState

variable {F : Type}

/-! ## Tables of votes -/

/-- The stake that counts for the activation of the chain, and the time of the activation. -/
def activation (s : SystemState F) : Int64 × TimePoint :=
  (s.gstate.totalActivatedStake, s.gstate.threshActivatedStakeTime)

/-- The tables that voting reads and writes are the same. -/
structure SameVotes (s s' : SystemState F) : Prop where
  voters : s'.voters = s.voters
  producers : s'.producers = s.producers
  total : s'.gstate.totalProducerVoteWeight = s.gstate.totalProducerVoteWeight
  activation : s'.activation = s.activation

theorem SameVotes.weights {s s' : SystemState F} (h : SameVotes s s') : WeightFrame s s' :=
  .of_tables h.voters h.producers

theorem RamGrowth.sameVotes {s s' : SystemState F} (h : RamGrowth s s') : SameVotes s s' := by
  rw [h.eq]
  exact ⟨rfl, rfl, rfl, rfl⟩

/-- Trading RAM is no matter of votes. -/
theorem buyram_sameVotes {ctx : Context} {s s' : SystemState F} {payer receiver : Name} {q : Asset}
    {sends : List InlineAction} (h : s.buyram ctx payer receiver q = .ok (s', sends)) :
    SameVotes s s' := by
  obtain ⟨s₁, res, limits, hsup, -, -, -, -, -, rfl, -⟩ := buyram_spec h
  have hgrow := (updateRamSupply_spec hsup).sameVotes
  exact ⟨hgrow.voters, hgrow.producers, hgrow.total, hgrow.activation⟩

theorem sellram_sameVotes {ctx : Context} {s s' : SystemState F} {account : Name} {bytes : Int64}
    {sends : List InlineAction} (h : s.sellram ctx account bytes = .ok (s', sends)) :
    SameVotes s s' := by
  obtain ⟨s₁, res, limits, hsup, -, -, -, -, -, rfl, -⟩ := sellram_spec h
  have hgrow := (updateRamSupply_spec hsup).sameVotes
  exact ⟨hgrow.voters, hgrow.producers, hgrow.total, hgrow.activation⟩

/-! ## Stakes -/

/-- A change of stake writes to the ledgers before it comes to voting. -/
theorem votingPoint_state {ctx : Context} {s : SystemState F} {a : SystemAction F}
    {p : VotingPoint F} (hrex : s.rexbalance = ∅) (h : votingPoint ctx s a = .ok p) :
    p.state = { s with
      delband := p.state.delband
      userres := p.state.userres
      limits := p.state.limits
      refunds := p.state.refunds
      deferred := p.state.deferred } := by
  -- the blocks before the vote write no voter and no producer
  have hchange : ∀ {from_ receiver : Name} {n c : Asset} {transfer : Bool},
      s.changebwBefore ctx from_ receiver n c transfer = .ok p → p.state = { s with
        delband := p.state.delband
        userres := p.state.userres
        limits := p.state.limits
        refunds := p.state.refunds
        deferred := p.state.deferred } := by
    intro from_ receiver n c transfer hp
    obtain ⟨s₀, tot, -, -, -, -, -, hstate⟩ := changebwBefore_spec hrex hp
    rw [hstate]
  cases a with
  -- the first checks of the two actions
  | delegatebw from_ receiver net cpu transfer =>
    simp only [votingPoint, delegatebwBefore, bind_eq_ok] at h
    obtain ⟨_, -, _, -, _, -, _, -, _, -, _, -, _, -, _, -, h⟩ := h
    exact hchange h
  | undelegatebw from_ receiver net cpu =>
    simp only [votingPoint, undelegatebwBefore, bind_eq_ok] at h
    obtain ⟨_, -, _, -, _, -, _, -, _, -, _, -, _, -, _, -, _, -, h⟩ := h
    exact hchange h
  | _ => cases h

/-- Before a change of stake comes to its vote, the votes are as they were. -/
theorem votingPoint_sameVotes {ctx : Context} {s : SystemState F} {a : SystemAction F}
    {p : VotingPoint F} (hrex : s.rexbalance = ∅) (h : votingPoint ctx s a = .ok p) :
    SameVotes s p.state := by
  rw [votingPoint_state hrex h]
  exact ⟨rfl, rfl, rfl, rfl⟩

/-! ## Producers -/

variable [Double F]

/-- The status of one producer changes, and its row may be new. -/
structure StatusChange (s s' : SystemState F) (p : Name) (active : Bool) : Prop where
  frame : VoteFrame s s'
  voters : s'.voters = s.voters
  total : s'.gstate.totalProducerVoteWeight = s.gstate.totalProducerVoteWeight
  activation : s'.activation = s.activation
  row : ∃ info', s'.producers = s.producers.set p info' ∧ info'.isActive = active ∧
    ((s.producers.find? p = none ∧ info'.totalVotes = Double.ofInt 0) ∨
      ∃ info, s.producers.find? p = some info ∧ info'.totalVotes = info.totalVotes)

/-- Another producer keeps its status. -/
theorem StatusChange.status {s s' : SystemState F} {p : Name} {active : Bool}
    (h : StatusChange s s' p active) (q : Name) :
    if q = p then ∃ t, s'.statusOf q = some (active, t) else s'.statusOf q = s.statusOf q := by
  obtain ⟨info', hrow, hactive, -⟩ := h.row
  unfold statusOf
  rw [hrow, Table.find?_set]
  split
  · exact ⟨info'.lastClaimTime, by rw [← hactive]; rfl⟩
  · rfl

/-- A deactivated row keeps its votes. -/
theorem deactivate_change {s : SystemState F} {p : Name} {prod : ProducerInfo F}
    (h : s.producers.find? p = some prod) : StatusChange s (s.deactivate p prod) p false :=
  ⟨.of_voters rfl rfl, rfl, rfl, rfl, _, rfl, rfl, .inr ⟨prod, h, rfl⟩⟩

/-- The stake that a producer has given to itself. -/
def selfStake (s : SystemState F) (p : Name) : Int :=
  s.delband.valueAt ⟨p, p⟩ DelegatedBandwidth.net + s.delband.valueAt ⟨p, p⟩ DelegatedBandwidth.cpu

omit [Double F] in
/-- Who may register has staked ten million tokens to itself. -/
theorem checkRegistration_spec {s : SystemState F} {p : Name} {sym : Symbol} {u : Unit}
    (hrows : StakeRows s sym) (h : s.checkRegistration p = .ok u) : 100000000000 ≤ s.selfStake p := by
  simp only [checkRegistration, bind_eq_ok, getRow_eq_ok, check_eq_ok] at h
  obtain ⟨d, hd, total, hadd, hle⟩ := h
  obtain ⟨-, -, -, heq⟩ := Asset.add_spec hadd (hrows.delband _ d hd).net_inRange
  have hle := Int64.le_iff_toInt_le.mp hle
  unfold selfStake
  rw [Table.valueAt_some hd, Table.valueAt_some hd]
  exact hle.trans heq.le

/-- A row that is activated again keeps its votes. -/
theorem reactivate_change (ctx : Context) {s : SystemState F} {p : Name} {info : ProducerInfo F}
    (h : s.producers.find? p = some info) : StatusChange s (s.reactivate ctx p info) p true := by
  let info' : ProducerInfo F := { info with
    isActive := true
    lastClaimTime := if info.lastClaimTime = 0 then ctx.now else info.lastClaimTime }
  cases h2 : s.producers2.find? p with
  | some prod2 =>
    simp only [reactivate, h2]
    exact ⟨.of_voters rfl rfl, rfl, rfl, rfl, info', rfl, rfl, .inr ⟨info, h, rfl⟩⟩
  | none =>
    simp only [reactivate, h2]
    exact ⟨.of_voters rfl rfl, rfl, rfl, rfl, info', rfl, rfl, .inr ⟨info, h, rfl⟩⟩

/-- A registration checks the stake and activates the producer. -/
theorem registerProducer_spec {ctx : Context} {s s' : SystemState F} {p : Name}
    (h : s.registerProducer ctx p = .ok s') :
    s.checkRegistration p = .ok () ∧ StatusChange s s' p true := by
  simp only [registerProducer, bind_eq_ok] at h
  obtain ⟨_, hcheck, h⟩ := h
  refine ⟨hcheck, ?_⟩
  split at h
  · rename_i info hinfo
    simp only [pure_eq_ok] at h
    subst h
    exact reactivate_change ctx hinfo
  · rename_i hnone
    simp only [bind_eq_ok, pure_eq_ok] at h
    obtain ⟨producers2, -, rfl⟩ := h
    exact ⟨.of_voters rfl rfl, rfl, rfl, rfl, _, rfl, rfl, .inl ⟨hnone, rfl⟩⟩

/-! ## Limits -/

/-- Pinning a limit or letting it go changes the flags and the limits of one account. -/
theorem setacct_spec {ctx : Context} {s s' : SystemState F} {q : Quota} {account : Name}
    {value : Option Int64} (h : s.setacct ctx q account value = .ok s') :
    ∃ v, ((s.voters.find? account = none ∧ v = VoterInfo.new ∧ value ≠ none) ∨
        s.voters.find? account = some v) ∧
      s' = { s with
        voters := s.voters.set account
          { v with flags1 := q.setManaged v.flags1 (decide (value ≠ none)) }
        limits := s.limits.set account (q.setLimit (s.getResourceLimits account)
          (value.getD (s.ownLimit q account))) } ∧
      (value = none → q.isManaged v.flags1) := by
  simp only [setacct, bind_eq_ok] at h
  obtain ⟨_, -, h⟩ := h
  cases value with
  | none =>
    simp only [unpinLimit, bind_eq_ok, getRow_eq_ok, check_eq_ok, pure_eq_ok] at h
    obtain ⟨v, hv, _, hmanaged, rfl⟩ := h
    exact ⟨v, .inr hv, rfl, fun _ => hmanaged⟩
  | some value =>
    simp only [pinLimit, bind_eq_ok, pure_eq_ok] at h
    obtain ⟨_, -, rfl⟩ := h
    cases hv : s.voters.find? account with
    | none => exact ⟨VoterInfo.new, .inl ⟨rfl, rfl, by simp⟩, rfl, by simp⟩
    | some v => exact ⟨v, .inr rfl, rfl, by simp⟩

/-! ## One call -/

/-- Without a row of `rexbalance`, a vote is what `update_votes` does. -/
theorem voteproducer_updateVotes {ctx : Context} {s s' : SystemState F} {voterName proxy : Name}
    {producers : List Name} (hrex : s.rexbalance = ∅)
    (h : s.voteproducer ctx voterName proxy producers = .ok s') :
    s.updateVotes ctx voterName proxy producers true = .ok s' := by
  simp only [voteproducer, bind_eq_ok, updateRexStake_of_empty hrex] at h
  obtain ⟨_, -, u, hu, h⟩ := h
  rw [(updateVotes_frame hu).rexbalance, hrex, Table.find?_empty] at h
  rw [hu]
  exact congrArg Except.ok (pure_eq_ok.mp h)

/-- What a successful call did to voters and producers. -/
inductive VoterChange (s : SystemState F) (call : AccountCall F) (s' : SystemState F) : Prop
  | same (same : SameVotes s s')
  | voted (voterName proxy : Name) (producers : List Name)
      (direct : (SystemAction.voteproducer voterName proxy producers : SystemAction F).isDirect)
      (action : call.action = .system (.voteproducer voterName proxy producers) direct)
      (vote : s.updateVotes call.ctx voterName proxy producers true = .ok s')
  | proxied (proxy : Name) (isproxy : Bool)
      (direct : (SystemAction.regproxy proxy isproxy : SystemAction F).isDirect)
      (action : call.action = .system (.regproxy proxy isproxy) direct)
      (reg : s.regproxy call.ctx proxy isproxy = .ok s')
  | staked (a : SystemAction F) (direct : a.isDirect) (action : call.action = .system a direct)
      (p : VotingPoint F) (point : votingPoint call.ctx s a = .ok p) (u : SystemState F)
      (vote : p.state.updateVotingPower call.ctx p.owner p.total = .ok u)
      (token : s' = { u with token := s'.token })
  | status (notSystem : ∀ a direct, call.action ≠ .system a direct) (p : Name) (active : Bool)
      (change : StatusChange s s' p active)
      (selfStaked : active = true → s.checkRegistration p = .ok ())
  | flagged (notSystem : ∀ a direct, call.action ≠ .system a direct) (account : Name) (v : VoterInfo F) (flags1 : UInt32)
      (row : (s.voters.find? account = none ∧ v = VoterInfo.new) ∨
        s.voters.find? account = some v)
      (limits : Table Name ResourceLimits)
      (change : s' = { s with
        voters := s.voters.set account { v with flags1 := flags1 }
        limits := limits })

/-- The action that pins the limit of a quota, or lets it go. -/
def setacctAction : Quota → Name → Option Int64 → AccountAction F
  | .ram, account, value => .setacctram account value
  | .net, account, value => .setacctnet account value
  | .cpu, account, value => .setacctcpu account value

/-- Pinning a limit changes flags of a row only. -/
theorem setacct_change {s s' : SystemState F} {call : AccountCall F} {q : Quota} {account : Name}
    {value : Option Int64} (haction : call.action = setacctAction q account value)
    (h : s.setacct call.ctx q account value = .ok s') : VoterChange s call s' := by
  obtain ⟨v, hv, hs', -⟩ := setacct_spec h
  refine .flagged (fun a direct => ?_) account v _ ?_ _ hs'
  · rw [haction]
    cases q <;> exact nofun
  rcases hv with ⟨hnone, hnew, -⟩ | hsome
  · exact .inl ⟨hnone, hnew⟩
  · exact .inr hsome

/-- An action of the system contract changes voters and producers in one of these ways. -/
theorem step_voterChange {s s' : SystemState F} {ctx : Context} {a : SystemAction F}
    {direct : a.isDirect} (hrex : s.rexbalance = ∅) (h : s.step ⟨ctx, a⟩ = .ok s') :
    VoterChange s ⟨ctx, .system a direct⟩ s' := by
  -- inline actions change the token tables only
  have hcommit : ∀ {u : SystemState F} {token : TokenState}, SameVotes s u →
      VoterChange s ⟨ctx, .system a direct⟩ { u with token := token } := fun hu =>
    .same ⟨hu.voters, hu.producers, hu.total, hu.activation⟩
  -- a change of stake is cast as a vote after its first blocks
  have hstake : ∀ {r : Except String (VotingPoint F)}, votingPoint ctx s a = r →
      commit ctx (r >>= VotingPoint.finish ctx) = .ok s' →
      VoterChange s ⟨ctx, .system a direct⟩ s' := by
    intro r hr hc
    obtain ⟨u, sends, token, hfinish, -, rfl⟩ := commit_eq_ok.mp hc
    simp only [VotingPoint.finish, bind_eq_ok, pure_eq_ok, Prod.mk.injEq] at hfinish
    obtain ⟨p, rfl, u, hvote, rfl, -⟩ := hfinish
    exact .staked a direct rfl p hr u hvote rfl
  cases a with
  | init version core =>
    obtain ⟨u, sends, token, hr, -, rfl⟩ := commit_eq_ok.mp h
    obtain ⟨m, -, -, -, rfl, -⟩ := init_spec hr
    -- the market and the accounts are no part of the votes
    exact hcommit ⟨rfl, rfl, rfl, rfl⟩
  | newaccount creator newact =>
    obtain ⟨zero, bids, limits, -, -, -, rfl⟩ := newaccount_spec h
    exact .same ⟨rfl, rfl, rfl, rfl⟩
  | setram maxRamSize =>
    obtain ⟨m, m', -, -, -, -, rfl⟩ := setram_spec h
    exact .same ⟨rfl, rfl, rfl, rfl⟩
  | setramrate bytesPerBlock =>
    obtain ⟨-, u, hu, rfl⟩ := setramrate_spec h
    -- growing the market changes no vote
    have hgrow := (updateRamSupply_spec hu).sameVotes
    exact .same ⟨hgrow.voters, hgrow.producers, hgrow.total, hgrow.activation⟩
  | buyram payer receiver quant =>
    obtain ⟨u, sends, token, hr, -, rfl⟩ := commit_eq_ok.mp h
    -- nor does a trade
    exact hcommit (buyram_sameVotes hr)
  | buyrambytes payer receiver bytes =>
    obtain ⟨u, sends, token, hr, -, rfl⟩ := commit_eq_ok.mp h
    exact hcommit (buyram_sameVotes (buyrambytes_spec hr))
  | sellram account bytes =>
    obtain ⟨u, sends, token, hr, -, rfl⟩ := commit_eq_ok.mp h
    exact hcommit (sellram_sameVotes hr)
  | delegatebw from_ receiver net cpu transfer =>
    -- the changes of stake
    apply hstake rfl
    simp only [step, delegatebw_eq] at h
    exact h
  | undelegatebw from_ receiver net cpu =>
    apply hstake rfl
    simp only [step, undelegatebw_eq] at h
    exact h
  | refund owner =>
    obtain ⟨u, sends, token, hr, -, rfl⟩ := commit_eq_ok.mp h
    obtain ⟨q, amount, -, -, -, rfl, -⟩ := refund_cases hr
    exact hcommit ⟨rfl, rfl, rfl, rfl⟩
  | voteproducer voterName proxy producers =>
    -- the votes
    exact .voted voterName proxy producers direct rfl (voteproducer_updateVotes hrex h)
  | regproxy proxy isproxy => exact .proxied proxy isproxy direct rfl h
  | token action =>
    obtain ⟨token, -, rfl⟩ := step_token_spec h
    exact .same ⟨rfl, rfl, rfl, rfl⟩
  | producers producers producers2 scheduleSize => cases direct

/-- The action registers a producer, or deactivates it. -/
def registers : AccountAction F → Bool
  | .regproducer .. | .regproducer2 .. | .unregprod _ | .rmvproducer _ => true
  | _ => false

/-- A call is one of the system contract's, changes the status of a producer or a limit. -/
theorem accountStep_cases {s s' : SystemState F} {call : AccountCall F}
    (h : s.accountStep call = .ok s') :
    (∃ a direct, call.action = .system a direct ∧ s.step ⟨call.ctx, a⟩ = .ok s') ∨
    (∃ p active, registers call.action = true ∧ StatusChange s s' p active ∧
      (active = true → s.checkRegistration p = .ok ())) ∨
    ∃ q account value, call.action = setacctAction q account value ∧
      s.setacct call.ctx q account value = .ok s' := by
  obtain ⟨ctx, action⟩ := call
  cases action with
  | regproducer producer url =>
    simp only [accountStep, regproducer, bind_eq_ok] at h
    obtain ⟨_, -, _, -, h⟩ := h
    -- registration, with the check of the stake
    obtain ⟨hstake, hchange⟩ := registerProducer_spec h
    exact .inr (.inl ⟨producer, true, rfl, hchange, fun _ => hstake⟩)
  | regproducer2 producer isValid url =>
    simp only [accountStep, regproducer2, bind_eq_ok] at h
    obtain ⟨_, -, _, -, _, -, h⟩ := h
    obtain ⟨hstake, hchange⟩ := registerProducer_spec h
    exact .inr (.inl ⟨producer, true, rfl, hchange, fun _ => hstake⟩)
  | unregprod producer =>
    simp only [accountStep, unregprod, bind_eq_ok, getRow_eq_ok, pure_eq_ok] at h
    obtain ⟨_, -, prod, hprod, rfl⟩ := h
    -- deactivation
    exact .inr (.inl ⟨producer, false, rfl, deactivate_change hprod, by simp⟩)
  | rmvproducer producer =>
    simp only [accountStep, rmvproducer, bind_eq_ok, getRow_eq_ok, pure_eq_ok] at h
    obtain ⟨_, -, prod, hprod, rfl⟩ := h
    exact .inr (.inl ⟨producer, false, rfl, deactivate_change hprod, by simp⟩)
  -- the limits
  | setacctram account ramBytes => exact .inr (.inr ⟨.ram, account, ramBytes, rfl, h⟩)
  | setacctnet account netWeight => exact .inr (.inr ⟨.net, account, netWeight, rfl, h⟩)
  | setacctcpu account cpuWeight => exact .inr (.inr ⟨.cpu, account, cpuWeight, rfl, h⟩)
  -- the actions of the system contract
  | system a direct => exact .inl ⟨a, direct, rfl, h⟩

/-- Every call changes voters and producers in one of these ways. -/
theorem accountStep_change {s s' : SystemState F} {call : AccountCall F} (hrex : s.rexbalance = ∅)
    (h : s.accountStep call = .ok s') : VoterChange s call s' := by
  rcases accountStep_cases h with ⟨a, direct, haction, hstep⟩ | ⟨p, active, hreg, hchange, hstake⟩ |
    ⟨q, account, value, haction, hset⟩
  · obtain ⟨ctx, action⟩ := call
    obtain rfl : action = .system a direct := haction
    exact step_voterChange hrex hstep
  · refine .status (fun a direct haction => ?_) p active hchange hstake
    rw [haction] at hreg
    cases hreg
  · exact setacct_change haction hset

/-! ## The ledgers of stake -/

/-- Every call keeps the ledgers of stake together. -/
theorem accountStep_stakeInv {s s' : SystemState F} {call : AccountCall F} (hI : s.StakeInv)
    (h : s.accountStep call = .ok s') : s'.StakeInv := by
  rcases accountStep_cases h with ⟨a, direct, -, hstep⟩ | ⟨p, active, -, hchange, -⟩ |
    ⟨q, account, value, -, hset⟩
  · exact step_stakeInv hI hstep
  · exact hI.of_voteFrame hchange.frame
  · obtain ⟨v, hv, rfl, -⟩ := setacct_spec hset
    have hstaked : v.staked.toInt = s.stakedOf account := by
      rcases hv with ⟨hnone, rfl, -⟩ | hsome
      · rw [stakedOf, Table.valueAt_none hnone]
        rfl
      · exact (stakedOf_some hsome).symm
    have hset : VoteFrame s { s with voters := s.voters.set account { v with
        flags1 := q.setManaged v.flags1 (decide (value ≠ none)) } } := voteFrame_set hstaked
    have hI' := hI.of_voteFrame hset
    exact hI'.of_same rfl rfl rfl rfl id hI'.rows.userres (fun _ => ⟨rfl, rfl⟩) fun _ => rfl

/-! ## Where runs start -/

/-- Empty tables without producers. -/
structure NoVotes (s : SystemState F) : Prop extends EmptyTables s where
  producers : s.producers = ∅
  total : s.gstate.totalProducerVoteWeight = Double.ofInt 0

theorem genesis_noVotes (maxBlockNetUsage : UInt64) (maxBlockCpuUsage : UInt32) :
    (genesis maxBlockNetUsage maxBlockCpuUsage : SystemState F).NoVotes :=
  ⟨genesis_emptyTables maxBlockNetUsage maxBlockCpuUsage, rfl, rfl⟩

/-- The state after the setup of the sample run. -/
theorem Sample.start_noVotes : Sample.start.NoVotes where
  voters := Table.eq_empty_of_size (by decide +kernel)
  userres := Table.eq_empty_of_size (by decide +kernel)
  delband := Table.eq_empty_of_size (by decide +kernel)
  refunds := Table.eq_empty_of_size (by decide +kernel)
  rexbalance := Table.eq_empty_of_size (by decide +kernel)
  producers := Table.eq_empty_of_size (by decide +kernel)
  total := by decide +kernel

/-- Every run keeps the ledgers of stakes. -/
theorem exec_accountStep_stakeInv {s : SystemState F} (h : s.StakeInv)
    (calls : List (AccountCall F)) : (Run.exec accountStep s calls).StakeInv :=
  Run.exec_induction (I := StakeInv) (fun _ _ _ hI hs => accountStep_stakeInv hI hs) h calls

end SystemState

end UxContracts
