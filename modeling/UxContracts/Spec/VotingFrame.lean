import UxContracts.Native.Voting

/-!
# What voting leaves alone

The voting functions change vote weights, producers and the global totals of votes.
`VoteFrame s s'` says that nothing else differs between two states: the ledgers of
stake, refunds, RAM and tokens are the same, and every voter has the same stake.
-/

namespace UxContracts

/-- The part of the state that no voting function writes to. -/
structure Ledgers where
  token : TokenState
  rammarket : Option ExchangeState
  userres : Table Name UserResources
  delband : Table (Scoped Name Name) DelegatedBandwidth
  refunds : Table Name RefundRequest
  bids : Table Name NameBid
  rexbalance : Table Name RexBalance
  rexpool : Option RexPool
  limits : Table Name ResourceLimits
  deferred : Table Name DeferredRefund
  maxRamSize : UInt64
  totalRamBytesReserved : UInt64
  totalRamStake : Int64
  newRamPerBlock : UInt16
  lastRamIncrease : BlockTimestamp

namespace SystemState

variable {F : Type}

def ledgers (s : SystemState F) : Ledgers :=
  ⟨s.token, s.rammarket, s.userres, s.delband, s.refunds, s.bids, s.rexbalance, s.rexpool,
    s.limits, s.deferred, s.gstate.maxRamSize, s.gstate.totalRamBytesReserved,
    s.gstate.totalRamStake, s.gstate2.newRamPerBlock, s.gstate2.lastRamIncrease⟩

/-- The stake of a voter; an account without a row has none. -/
def stakedOf (s : SystemState F) (f : Name) : Int :=
  s.voters.valueAt f fun v => v.staked.toInt

/-- `s'` differs from `s` in votes only. -/
structure VoteFrame (s s' : SystemState F) : Prop where
  ledgers : s'.ledgers = s.ledgers
  staked : ∀ f, s'.stakedOf f = s.stakedOf f

namespace VoteFrame

variable {s s' s'' : SystemState F}

theorem refl (s : SystemState F) : VoteFrame s s := ⟨rfl, fun _ => rfl⟩

theorem trans (h : VoteFrame s s') (h' : VoteFrame s' s'') : VoteFrame s s'' :=
  ⟨h'.ledgers.trans h.ledgers, fun f => (h'.staked f).trans (h.staked f)⟩

theorem token (h : VoteFrame s s') : s'.token = s.token := congrArg Ledgers.token h.ledgers

theorem rammarket (h : VoteFrame s s') : s'.rammarket = s.rammarket :=
  congrArg Ledgers.rammarket h.ledgers

theorem userres (h : VoteFrame s s') : s'.userres = s.userres :=
  congrArg Ledgers.userres h.ledgers

theorem delband (h : VoteFrame s s') : s'.delband = s.delband :=
  congrArg Ledgers.delband h.ledgers

theorem refunds (h : VoteFrame s s') : s'.refunds = s.refunds :=
  congrArg Ledgers.refunds h.ledgers

theorem rexbalance (h : VoteFrame s s') : s'.rexbalance = s.rexbalance :=
  congrArg Ledgers.rexbalance h.ledgers

/-- States with the same ledgers and the same `voters` table. -/
theorem of_voters (h : s'.ledgers = s.ledgers) (hv : s'.voters = s.voters) : VoteFrame s s' :=
  ⟨h, fun f => by unfold stakedOf; rw [hv]⟩

end VoteFrame

/-- A change of a voter's row that keeps its stake. -/
theorem voteFrame_set {s : SystemState F} {k : Name} {v : VoterInfo F}
    (h : v.staked.toInt = s.stakedOf k) : VoteFrame s { s with voters := s.voters.set k v } := by
  refine ⟨rfl, fun f => ?_⟩
  show (s.voters.set k v).valueAt f _ = _
  rw [Table.valueAt_set]
  split
  · rename_i hf
    rw [hf, h]
  · rfl

/-- The stake of a voter with a row. -/
theorem stakedOf_some {s : SystemState F} {k : Name} {v : VoterInfo F}
    (h : s.voters.find? k = some v) : s.stakedOf k = v.staked.toInt :=
  Table.valueAt_some h _

/-- Without REX rows, the stake of REX holders is not touched. -/
theorem updateRexStake_of_empty {s : SystemState F} (h : s.rexbalance = ∅) (voter : Name) :
    s.updateRexStake voter = s := by
  unfold updateRexStake
  rw [h, Table.find?_empty]

variable [Double F]

/-! ## Relations that voting keeps -/

/-- A relation between states that every single write of a loop over producers keeps. -/
structure LoopRel (R : SystemState F → SystemState F → Prop) : Prop where
  refl : ∀ s, R s s
  trans : ∀ {s t u}, R s t → R t u → R s u
  /-- the votes of one producer, and the total -/
  votes : ∀ (s : SystemState F) {p : Name} {info : ProducerInfo F} (votes total : F),
    s.producers.find? p = some info → R s { s with
      producers := s.producers.set p { info with totalVotes := votes }
      gstate := { s.gstate with totalProducerVoteWeight := total } }
  /-- what is paid for votes -/
  votepay : ∀ (s : SystemState F) (producers2 : Table Name (ProducerInfo2 F)) (share : F)
    (gstate3 : GlobalState3 F), R s { s with
      producers2 := producers2
      gstate2 := { s.gstate2 with totalProducerVotepayShare := share }
      gstate3 := gstate3 }

/-- A relation that the other writes of the voting functions keep as well. -/
structure VotingRel (R : SystemState F → SystemState F → Prop) : Prop extends LoopRel R where
  /-- the two weights of a voter -/
  weights : ∀ (s : SystemState F) {f : Name} {v : VoterInfo F} (last proxied : F),
    s.voters.find? f = some v → R s { s with
      voters := s.voters.set f { v with lastVoteWeight := last, proxiedVoteWeight := proxied } }

/-- The row of `producers2` is all that is brought up to date. -/
theorem updateVotepay_eq (ctx : Context) (s : SystemState F) (acc : VpayDelta F) (prod : Name)
    (lastClaimTime : TimePoint) (votes delta : F) : ∃ producers2,
    (updateVotepay ctx s acc prod lastClaimTime votes delta).1 =
      { s with producers2 := producers2 } := by
  unfold updateVotepay
  split
  · exact ⟨s.producers2, rfl⟩
  · simp only
    split
    · exact ⟨_, rfl⟩
    · split
      · exact ⟨_, rfl⟩
      · exact ⟨_, rfl⟩

section Loops

variable {R : SystemState F → SystemState F → Prop}

/-- One round of a loop over producers. -/
theorem LoopRel.round (hR : LoopRel R) {ctx : Context} {s : SystemState F} {acc : VpayDelta F}
    {prod : Name} {info : ProducerInfo F} (h : s.producers.find? prod = some info)
    (votes initial delta : F) :
    R s (updateVotepay ctx { s with
      producers := s.producers.set prod { info with totalVotes := votes }
      gstate := { s.gstate with
        totalProducerVoteWeight := s.gstate.totalProducerVoteWeight + delta } }
      acc prod info.lastClaimTime initial delta).1 := by
  have hvotes := hR.votes s votes (s.gstate.totalProducerVoteWeight + delta) h
  obtain ⟨producers2, heq⟩ := updateVotepay_eq ctx { s with
      producers := s.producers.set prod { info with totalVotes := votes }
      gstate := { s.gstate with
        totalProducerVoteWeight := s.gstate.totalProducerVoteWeight + delta } }
    acc prod info.lastClaimTime initial delta
  rw [heq]
  exact hR.trans hvotes (hR.votepay _ producers2 _ _)

/-- The update of the total shares is one of the writes. -/
theorem LoopRel.share (hR : LoopRel R) (s : SystemState F) (ct : TimePoint) (shares rate : F) :
    R s (s.updateTotalVotepayShare ct shares rate) :=
  hR.votepay s s.producers2 _ _

/-- The loop over producers is made of these writes. -/
theorem LoopRel.propagateToProducers (hR : LoopRel R) {ctx : Context} {delta : F}
    {s s' : SystemState F} {acc acc' : VpayDelta F} {producers : List Name}
    (h : propagateToProducers ctx delta s acc producers = .ok (s', acc')) : R s s' := by
  induction producers generalizing s acc with
  | nil =>
    simp only [SystemState.propagateToProducers, Except.ok.injEq, Prod.mk.injEq] at h
    exact h.1 ▸ hR.refl s
  | cons acnt rest ih =>
    simp only [SystemState.propagateToProducers, bind_eq_ok, getRow_eq_ok] at h
    obtain ⟨prod, hprod, h⟩ := h
    exact hR.trans (hR.round hprod _ _ _) (ih h)

/-- The loop over the changes of a vote is made of these writes. -/
theorem LoopRel.applyDeltas (hR : LoopRel R) {ctx : Context} {voting : Bool}
    {s s' : SystemState F} {acc acc' : VpayDelta F} {deltas : List (Name × F × Bool)}
    (h : applyDeltas ctx voting s acc deltas = .ok (s', acc')) : R s s' := by
  induction deltas generalizing s acc with
  | nil =>
    simp only [SystemState.applyDeltas, Except.ok.injEq, Prod.mk.injEq] at h
    exact h.1 ▸ hR.refl s
  | cons d rest ih =>
    obtain ⟨owner, delta, isNew⟩ := d
    simp only [SystemState.applyDeltas] at h
    split at h
    · rename_i prod hprod
      simp only [bind_eq_ok, check_eq_ok] at h
      obtain ⟨-, -, h⟩ := h
      exact hR.trans (hR.round hprod _ _ _) (ih h)
    · simp only [bind_eq_ok, check_eq_ok] at h
      obtain ⟨-, -, h⟩ := h
      exact ih h

/-- A propagation is made of these writes. -/
theorem VotingRel.propagateWeightChange (hR : VotingRel R) {ctx : Context} {depth : Nat}
    {s s' : SystemState F} {owner : Name}
    (h : propagateWeightChange ctx depth s owner = .ok s') : R s s' := by
  -- induction on the depth of calls, which goes down along the chain of proxies
  induction depth generalizing s s' owner with
  | zero => cases h
  | succ depth ih =>
    simp only [SystemState.propagateWeightChange, bind_eq_ok, getRow_eq_ok, check_eq_ok,
      pure_eq_ok] at h
    obtain ⟨voter, -, _, -, u, hu, voter', hv', rfl⟩ := h
    have hpassed : R s u := by
      split at hu
      · split at hu
        · simp only [bind_eq_ok, getRow_eq_ok] at hu
          obtain ⟨proxy, hp, hu⟩ := hu
          exact hR.trans (hR.weights s _ _ hp) (ih hu)
        · simp only [bind_eq_ok, pure_eq_ok] at hu
          obtain ⟨⟨u', acc⟩, hloop, rfl⟩ := hu
          exact hR.trans (hR.propagateToProducers hloop) (hR.share u' _ _ _)
      · exact pure_eq_ok.mp hu ▸ hR.refl s
    exact hR.trans hpassed (hR.weights u _ _ hv')

/-- Undoing a vote is made of these writes. -/
theorem VotingRel.undoVote (hR : VotingRel R) {ctx : Context} {s s' : SystemState F}
    {voter : VoterInfo F} {deltas : ProducerDeltas F}
    (h : s.undoVote ctx voter = .ok (s', deltas)) : R s s' := by
  unfold SystemState.undoVote at h
  split at h
  · split at h
    · simp only [bind_eq_ok, getRow_eq_ok, pure_eq_ok, Prod.mk.injEq] at h
      obtain ⟨proxy, hp, u, hu, rfl, -⟩ := h
      exact hR.trans (hR.weights s _ _ hp) (hR.propagateWeightChange hu)
    · simp only [pure_eq_ok, Prod.mk.injEq] at h
      exact h.1 ▸ hR.refl s
  · simp only [pure_eq_ok, Prod.mk.injEq] at h
    exact h.1 ▸ hR.refl s

/-- Casting a vote is made of these writes. -/
theorem VotingRel.castVote (hR : VotingRel R) {ctx : Context} {s s' : SystemState F}
    {deltas deltas' : ProducerDeltas F} {proxy : Name} {producers : List Name} {weight : F}
    {voting : Bool}
    (h : s.castVote ctx deltas proxy producers weight voting = .ok (s', deltas')) : R s s' := by
  unfold SystemState.castVote at h
  split at h
  · simp only [bind_eq_ok, getRow_eq_ok, check_eq_ok] at h
    obtain ⟨np, hp, _, -, h⟩ := h
    split at h
    · simp only [bind_eq_ok, pure_eq_ok, Prod.mk.injEq] at h
      obtain ⟨u, hu, rfl, -⟩ := h
      exact hR.trans (hR.weights s _ _ hp) (hR.propagateWeightChange hu)
    · simp only [pure_eq_ok, Prod.mk.injEq] at h
      exact h.1 ▸ hR.refl s
  · split at h
    · simp only [pure_eq_ok, Prod.mk.injEq] at h
      exact h.1 ▸ hR.refl s
    · simp only [pure_eq_ok, Prod.mk.injEq] at h
      exact h.1 ▸ hR.refl s

/-- `update_votes` succeeds if its checks do and each of its passes over the votes does: the old
    vote is taken back, the new one cast, the changes added to the producers. Then the choice is
    stored in the row as these passes left it. -/
theorem updateVotes_eq_ok {ctx : Context} {s s' : SystemState F} {voterName proxy : Name}
    {producers : List Name} {voting : Bool} :
    s.updateVotes ctx voterName proxy producers voting = .ok s' ↔
      checkVote voterName proxy producers = .ok () ∧
      ∃ voter, s.voters.find? voterName = some voter ∧ (¬ proxy.isSet ∨ ¬ voter.isProxy) ∧
      ∃ s₁ d₁, (s.activateStake ctx voter).undoVote ctx voter = .ok (s₁, d₁) ∧
      ∃ s₂ d₂, s₁.castVote ctx d₁ proxy producers (newVoteWeight ctx voter) voting =
        .ok (s₂, d₂) ∧
      ∃ s₃ acc, applyDeltas ctx voting s₂ ⟨Double.ofInt 0, Double.ofInt 0⟩ d₂.rows =
        .ok (s₃, acc) ∧
      ∃ s₄, s₄ = s₃.updateTotalVotepayShare ctx.now (-acc.totalInactiveVpayShare)
        acc.deltaChangeRate ∧
      ∃ voter', s₄.voters.find? voterName = some voter' ∧
        s' = { s₄ with voters := s₄.voters.set voterName { voter' with
          lastVoteWeight := newVoteWeight ctx voter, producers := producers, proxy := proxy } } := by
  simp only [SystemState.updateVotes, bind_eq_ok, getRow_eq_ok, check_eq_ok, pure_eq_ok]
  constructor
  · rintro ⟨_, hcheck, voter, hv, _, hnot, ⟨s₁, d₁⟩, hundo, ⟨s₂, d₂⟩, hcast, ⟨s₃, acc⟩, happly,
      voter', hv', rfl⟩
    exact ⟨hcheck, voter, hv, hnot, s₁, d₁, hundo, s₂, d₂, hcast, s₃, acc, happly, _, rfl, voter',
      hv', rfl⟩
  · rintro ⟨hcheck, voter, hv, hnot, s₁, d₁, hundo, s₂, d₂, hcast, s₃, acc, happly, _, rfl, voter',
      hv', rfl⟩
    exact ⟨(), hcheck, voter, hv, (), hnot, (s₁, d₁), hundo, (s₂, d₂), hcast, (s₃, acc), happly,
      voter', hv', rfl⟩

/-- `update_votes` is the activation of the stake, writes of voting, and the new choice. -/
theorem VotingRel.updateVotes (hR : VotingRel R) {ctx : Context} {s s' : SystemState F}
    {voterName proxy : Name} {producers : List Name} {voting : Bool}
    (h : s.updateVotes ctx voterName proxy producers voting = .ok s') :
    ∃ voter voter' : VoterInfo F, ∃ u : SystemState F, s.voters.find? voterName = some voter ∧
      R (s.activateStake ctx voter) u ∧ u.voters.find? voterName = some voter' ∧
      s' = { u with voters := u.voters.set voterName { voter' with
        lastVoteWeight := newVoteWeight ctx voter, producers := producers, proxy := proxy } } := by
  obtain ⟨-, voter, hv, -, s₁, d₁, hundo, s₂, d₂, hcast, s₃, acc, happly, _, rfl, voter', hv',
    rfl⟩ := updateVotes_eq_ok.mp h
  have hvote := hR.trans (hR.undoVote hundo) (hR.castVote hcast)
  have hloop := hR.trans (hR.applyDeltas happly)
    (hR.share s₃ ctx.now (-acc.totalInactiveVpayShare) acc.deltaChangeRate)
  exact ⟨voter, voter', _, hv, hR.trans hvote hloop, hv', rfl⟩

end Loops

/-! ## Weights and votes -/

omit [Double F] in
/-- None of the writes of a vote touches a ledger. -/
theorem voteFrame_votingRel : VotingRel (VoteFrame (F := F)) where
  refl := VoteFrame.refl
  trans := VoteFrame.trans
  votes _ _ _ _ _ _ := .of_voters rfl rfl
  votepay _ _ _ _ := .of_voters rfl rfl
  weights _ _ _ _ _ h := voteFrame_set (stakedOf_some h).symm

/-- A propagation touches no ledger. -/
theorem propagateWeightChange_frame {ctx : Context} {depth : Nat} {s s' : SystemState F}
    {owner : Name} (h : propagateWeightChange ctx depth s owner = .ok s') : VoteFrame s s' :=
  voteFrame_votingRel.propagateWeightChange h

/-- Counting a stake for the activation touches no ledger. -/
theorem activateStake_frame (ctx : Context) (s : SystemState F) (voter : VoterInfo F) :
    VoteFrame s (s.activateStake ctx voter) := by
  unfold activateStake
  split
  · exact .of_voters rfl rfl
  · exact .refl s

/-- `update_votes` changes votes only. -/
theorem updateVotes_frame {ctx : Context} {s s' : SystemState F} {voterName proxy : Name}
    {producers : List Name} {voting : Bool}
    (h : s.updateVotes ctx voterName proxy producers voting = .ok s') : VoteFrame s s' := by
  obtain ⟨voter, voter', u, -, hu, hv', rfl⟩ := voteFrame_votingRel.updateVotes h
  have hframe := (activateStake_frame ctx s voter).trans hu
  exact hframe.trans (voteFrame_set (stakedOf_some hv').symm)

/-- `voteproducer` changes votes only, when there is no REX. -/
theorem voteproducer_frame {ctx : Context} {s s' : SystemState F} {voterName proxy : Name}
    {producers : List Name} (hrex : s.rexbalance = ∅)
    (h : s.voteproducer ctx voterName proxy producers = .ok s') : VoteFrame s s' := by
  simp only [voteproducer, bind_eq_ok, updateRexStake_of_empty hrex] at h
  obtain ⟨_, -, u, hu, h⟩ := h
  have hframe := updateVotes_frame hu
  rw [hframe.rexbalance, hrex, Table.find?_empty] at h
  exact pure_eq_ok.mp h ▸ hframe

/-- `regproxy` turns the flag of a row and passes the weight on, or it adds a row. -/
theorem regproxy_cases {ctx : Context} {s s' : SystemState F} {proxy : Name} {isproxy : Bool}
    (h : s.regproxy ctx proxy isproxy = .ok s') :
    (∃ voter, s.voters.find? proxy = some voter ∧ (¬ isproxy ∨ ¬ voter.proxy.isSet) ∧
      propagateWeightChange ctx s.proxyDepth
        { s with voters := s.voters.set proxy { voter with isProxy := isproxy } } proxy = .ok s') ∨
    (s.voters.find? proxy = none ∧
      s' = { s with voters := s.voters.set proxy { VoterInfo.new with isProxy := isproxy } }) := by
  simp only [regproxy, bind_eq_ok] at h
  obtain ⟨_, -, h⟩ := h
  split at h
  · rename_i voter hv
    simp only [bind_eq_ok, check_eq_ok] at h
    obtain ⟨_, -, _, hnot, h⟩ := h
    exact .inl ⟨voter, hv, hnot, h⟩
  · rename_i hnone
    exact .inr ⟨hnone, (pure_eq_ok.mp h).symm⟩

/-- `regproxy` changes votes only. -/
theorem regproxy_frame {ctx : Context} {s s' : SystemState F} {proxy : Name} {isproxy : Bool}
    (h : s.regproxy ctx proxy isproxy = .ok s') : VoteFrame s s' := by
  obtain ⟨voter, hv, -, h⟩ | ⟨hv, rfl⟩ := regproxy_cases h
  · have hset : VoteFrame s
        { s with voters := s.voters.set proxy { voter with isProxy := isproxy } } :=
      voteFrame_set (stakedOf_some hv).symm
    exact hset.trans (propagateWeightChange_frame h)
  · apply voteFrame_set
    rw [stakedOf, Table.valueAt_none hv]
    rfl

end SystemState

end UxContracts
