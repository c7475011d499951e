import UxContracts.Spec.VotepayShares

/-!
# Shares in every run

`update_votes` counts a vote in up to three loops over producers: the loop of a propagation when
the old vote is taken back, one when the new vote is cast, and its own. The total is brought up to
date after each of them. Between the loops the tallies of votes are exact (`VoteLoop.tally`), so no
votes are negative, and the total is the sum of the shares again (`updateVotes_votepay`). The other
calls leave the shares alone, or give a new producer an empty one.
-/

namespace UxContracts

open Chain

namespace SystemState

variable {F K : Type} [Double F] [Field K] [LinearOrder K] [FloorRing K] {E : FieldReading F K}

/-! ## What the shares are read from -/

/-- What the shares are read from is the same. -/
structure SamePay (s s' : SystemState F) : Prop where
  producers : s'.producers = s.producers
  producers2 : s'.producers2 = s.producers2
  share : s'.gstate2.totalProducerVotepayShare = s.gstate2.totalProducerVotepayShare
  gstate3 : s'.gstate3 = s.gstate3

theorem VotepayInv.of_same {now : Int} {s s' : SystemState F}
    (h : VotepayInv E.toExactReading now s) (hsame : SamePay s s') :
    VotepayInv E.toExactReading now s' := by
  obtain ⟨hproducers, hproducers2, hshare, hgstate3⟩ := hsame
  -- all that the pay reads is the same
  have hdeadline : s'.deadline = s.deadline := by
    unfold deadline
    rw [hproducers]
  have haccount : s'.votepayOf E.toExactReading = s.votepayOf E.toExactReading := by
    unfold votepayOf paidVotes votesOf
    rw [hdeadline, hproducers]
  have htotal : s'.votepayTotal E.toExactReading = s.votepayTotal E.toExactReading := by
    unfold votepayTotal
    rw [hshare, hgstate3]
  refine ⟨⟨?_, ?_, ?_, ?_, ?_, ?_, htotal ▸ h.total⟩, ?_⟩
  · -- hence each part of the invariant
    rw [hgstate3]
    exact h.since
  · rw [hproducers]
    exact h.claimed
  · rw [hproducers2]
    exact h.updated
  · rw [hproducers2]
    exact h.share
  · rw [hproducers2, hdeadline]
    exact h.dropped
  · rw [hproducers, hproducers2]
    exact h.paired
  · rw [hproducers2, haccount, htotal]
    exact h.pools

/-- Later times allow the same rows. -/
theorem VotepayInv.mono {now now' : Int} {s : SystemState F}
    (h : VotepayInv E.toExactReading now s) (hle : now ≤ now') :
    VotepayInv E.toExactReading now' s :=
  ⟨⟨⟨h.since.1, h.since.2.trans hle⟩,
    fun p info hp => ⟨(h.claimed p info hp).1, (h.claimed p info hp).2.trans hle⟩,
    fun p row hp => ⟨(h.updated p row hp).1, (h.updated p row hp).2.trans hle⟩,
    h.share, h.dropped, h.paired, h.total⟩, h.pools⟩

omit [Double F] in
theorem RamGrowth.samePay {s s' : SystemState F} (h : RamGrowth s s') : SamePay s s' := by
  rw [h.eq]
  exact ⟨rfl, rfl, rfl, rfl⟩

omit [Double F] in
/-- Trading RAM is no matter of shares. -/
theorem buyram_samePay {ctx : Context} {s s' : SystemState F} {payer receiver : Name} {q : Asset}
    {sends : List InlineAction} (h : s.buyram ctx payer receiver q = .ok (s', sends)) :
    SamePay s s' := by
  obtain ⟨s₁, res, limits, hsup, -, -, -, -, -, rfl, -⟩ := buyram_spec h
  have hgrow := (updateRamSupply_spec hsup).samePay
  exact ⟨hgrow.producers, hgrow.producers2, hgrow.share, hgrow.gstate3⟩

omit [Double F] in
theorem sellram_samePay {ctx : Context} {s s' : SystemState F} {account : Name} {bytes : Int64}
    {sends : List InlineAction} (h : s.sellram ctx account bytes = .ok (s', sends)) :
    SamePay s s' := by
  obtain ⟨s₁, res, limits, hsup, -, -, -, -, -, rfl, -⟩ := sellram_spec h
  have hgrow := (updateRamSupply_spec hsup).samePay
  exact ⟨hgrow.producers, hgrow.producers2, hgrow.share, hgrow.gstate3⟩

/-- The activation is no matter of shares. -/
theorem activateStake_samePay (ctx : Context) (s : SystemState F) (voter : VoterInfo F) :
    SamePay s (s.activateStake ctx voter) := by
  unfold activateStake
  split
  · exact ⟨rfl, rfl, rfl, rfl⟩
  · exact ⟨rfl, rfl, rfl, rfl⟩

/-! ## Votes -/

variable [IsStrictOrderedRing K]

/-- Exact tallies of weights that are not negative are not negative. -/
theorem votesOf_nonneg {s : SystemState F} (hs : NonnegWeights E.toExactReading s)
    (hgap : ∀ p, s.votesGap E.toExactReading p = 0) (p : Name) :
    0 ≤ s.votesOf E.toExactReading p := by
  rw [sub_eq_zero.mp (hgap p)]
  apply Table.sum_nonneg
  intro f v hv
  unfold toProducer
  split
  · exact (hs f v hv).last
  · exact le_rfl

/-- A propagation counts the change at the end of the chain. -/
theorem propagate_votepay {ctx : Context} (hnow : IsTime ctx.now) {depth : Nat}
    {s s' : SystemState F} {owner : Name} (hI : s.VotesInv)
    (hvotes : ∀ p, 0 ≤ s.votesOf E.toExactReading p)
    (hvotes' : ∀ p, 0 ≤ s'.votesOf E.toExactReading p)
    (hpay : VotepayInv E.toExactReading ctx.now.toInt s)
    (h : propagateWeightChange ctx depth s owner = .ok s') :
    VotepayInv E.toExactReading ctx.now.toInt s' := by
  -- induction on the depth, along the chain of proxies
  induction depth generalizing s s' owner with
  | zero => cases h
  | succ depth ih =>
    obtain ⟨voter, hv, -, u, hu, voter', hv', rfl⟩ := propagate_eq_ok.mp h
    have hvotesU : ∀ p, 0 ≤ u.votesOf E.toExactReading p := hvotes'
    -- storing the weight of the owner touches no pay
    suffices hend : VotepayInv E.toExactReading ctx.now.toInt u from
      hend.of_same ⟨rfl, rfl, rfl, rfl⟩
    simp only [passOn] at hu
    split at hu
    · split at hu
      · simp only [bind_eq_ok, getRow_eq_ok] at hu
        obtain ⟨proxy, hp, hu⟩ := hu
        exact ih (hI.of_weights (weightFrame_setProxied hp _)) hvotes hvotesU
          (hpay.of_same ⟨rfl, rfl, rfl, rfl⟩) hu
      · -- the producers of the last vote in the chain
        simp only [bind_eq_ok, pure_eq_ok] at hu
        obtain ⟨⟨u', acc⟩, hloop, rfl⟩ := hu
        have hnodup := checkVote_nodup (hI.checked owner voter.base (baseOf_some hv))
        exact (propagateToProducers_votepay hnow hnodup hvotes hpay.loop hloop).updateTotal hnow
          hvotesU
    · exact pure_eq_ok.mp hu ▸ hpay

/-- Undoing a vote keeps the total of the shares. -/
theorem undoVote_votepay {ctx : Context} (hnow : IsTime ctx.now) {s s' : SystemState F}
    {voter : VoterInfo F} {deltas : ProducerDeltas F} (hI : s.VotesInv)
    (hvotes : ∀ p, 0 ≤ s.votesOf E.toExactReading p)
    (hvotes' : ∀ p, 0 ≤ s'.votesOf E.toExactReading p)
    (hpay : VotepayInv E.toExactReading ctx.now.toInt s)
    (h : s.undoVote ctx voter = .ok (s', deltas)) :
    VotepayInv E.toExactReading ctx.now.toInt s' := by
  unfold undoVote at h
  split at h
  · split at h
    · simp only [bind_eq_ok, getRow_eq_ok, pure_eq_ok, Prod.mk.injEq] at h
      obtain ⟨proxy, hp, u, hu, rfl, -⟩ := h
      exact propagate_votepay hnow (hI.of_weights (weightFrame_setProxied hp _)) hvotes hvotes'
        (hpay.of_same ⟨rfl, rfl, rfl, rfl⟩) hu
    · simp only [pure_eq_ok, Prod.mk.injEq] at h
      exact h.1 ▸ hpay
  · simp only [pure_eq_ok, Prod.mk.injEq] at h
    exact h.1 ▸ hpay

/-- Casting a vote keeps the total of the shares. -/
theorem castVote_votepay {ctx : Context} (hnow : IsTime ctx.now) {s s' : SystemState F}
    {proxy : Name} {producers : List Name} {weight : F} {voting : Bool}
    {deltas deltas' : ProducerDeltas F} (hI : s.VotesInv)
    (hvotes : ∀ p, 0 ≤ s.votesOf E.toExactReading p)
    (hvotes' : ∀ p, 0 ≤ s'.votesOf E.toExactReading p)
    (hpay : VotepayInv E.toExactReading ctx.now.toInt s)
    (h : s.castVote ctx deltas proxy producers weight voting = .ok (s', deltas')) :
    VotepayInv E.toExactReading ctx.now.toInt s' := by
  unfold castVote at h
  split at h
  · simp only [bind_eq_ok, getRow_eq_ok, check_eq_ok] at h
    obtain ⟨new, hp, _, -, h⟩ := h
    split at h
    · simp only [bind_eq_ok, pure_eq_ok, Prod.mk.injEq] at h
      obtain ⟨u, hu, rfl, -⟩ := h
      exact propagate_votepay hnow (hI.of_weights (weightFrame_setProxied hp _)) hvotes hvotes'
        (hpay.of_same ⟨rfl, rfl, rfl, rfl⟩) hu
    · simp only [pure_eq_ok, Prod.mk.injEq] at h
      exact h.1 ▸ hpay
  · split at h
    · simp only [pure_eq_ok, Prod.mk.injEq] at h
      exact h.1 ▸ hpay
    · simp only [pure_eq_ok, Prod.mk.injEq] at h
      exact h.1 ▸ hpay

/-- `update_votes` keeps the total of the shares. -/
theorem updateVotes_votepay {ctx : Context} (hnow : IsTime ctx.now)
    (hfactor : 0 < E.val (voteFactor ctx : F)) {s s' : SystemState F} {voterName proxy : Name}
    {producers : List Name} {voting : Bool} (hI : s.VotesInv)
    (hs : NonnegWeights E.toExactReading s) (hgaps : NoGaps E.toExactReading s)
    (hchoice : s.Chooses voterName proxy voting) (hpass : VotePasses ctx s voterName proxy)
    (hpay : VotepayInv E.toExactReading ctx.now.toInt s)
    (h : s.updateVotes ctx voterName proxy producers voting = .ok s') :
    VotepayInv E.toExactReading ctx.now.toInt s' := by
  -- the tallies are right before and after the vote
  obtain ⟨hgaps', hs'⟩ := updateVotes_tally hfactor hI hs hgaps hchoice hpass h
  have hvotes' := votesOf_nonneg hs' hgaps'.votes
  obtain ⟨voter, t, deltas, u, acc, hloop, happly, voter', hv', rfl⟩ := updateVotes_loop h
  have hL := hloop.tally hfactor hI hs hgaps hchoice hpass
  obtain ⟨s₁, d₁, hundo, hcast⟩ := hloop.cast
  -- the votes are not negative before and after each of the three loops
  obtain ⟨hframe, hvoters⟩ := activateStake_weights ctx s voter
  have hsame := activateStake_samePay ctx s voter
  -- activating the stake changes no votes
  have hvotes₀ : ∀ p, 0 ≤ (s.activateStake ctx voter).votesOf E.toExactReading p := by
    intro p
    unfold votesOf
    rw [hsame.producers]
    exact votesOf_nonneg hs hgaps.votes p
  have hproxyGap : ∀ a, (s.activateStake ctx voter).proxyGap E.toExactReading a = 0 := by
    intro a
    unfold proxyGap proxiedOf
    rw [hvoters]
    exact hgaps.proxy a
  have hvotesGap : ∀ p, (s.activateStake ctx voter).votesGap E.toExactReading p = 0 := by
    intro p
    unfold votesGap votesOf
    rw [hvoters, hsame.producers]
    exact hgaps.votes p
  have hI₀ := hI.of_weights hframe
  have hrow₀ : (s.activateStake ctx voter).voters.find? voterName = some voter := by
    rw [hvoters]
    exact hloop.row
  -- the old vote is undone
  obtain ⟨-, hvotes₁, -, hs₁, -⟩ := undoVote_tally hfactor hI₀ (hs.of_voters hvoters) hproxyGap
    hrow₀ (hpass voter hloop.row).1 hundo
  have hvotes₁ := votesOf_nonneg hs₁ fun p => (hvotes₁ p).trans (hvotesGap p)
  have hvotesT := votesOf_nonneg hL.nonneg hL.votes
  -- the pay follows each of the three parts
  have hpay₁ := undoVote_votepay hnow hI₀ hvotes₀ hvotes₁ (hpay.of_same hsame) hundo
  have hpayT := castVote_votepay hnow (hI₀.of_weights (undoVote_weights hundo)) hvotes₁ hvotesT hpay₁
    hcast
  have hpayU := applyDeltas_votepay hnow deltas.nodup_keys hvotesT (fun _ _ _ hd => hL.unclamped hd)
    hpayT.loop happly
  -- and the total is settled at the end
  exact (hpayU.updateTotal hnow hvotes').of_same ⟨rfl, rfl, rfl, rfl⟩

/-- Registering as a proxy keeps the total of the shares. -/
theorem regproxy_votepay {ctx : Context} (hnow : IsTime ctx.now)
    (hfactor : 0 < E.val (voteFactor ctx : F)) {s s' : SystemState F} {proxy : Name}
    {isproxy : Bool} (hI : TallyInv E.toExactReading s)
    (hpass : ∀ voter ∈ s.voters.find? proxy, PassesOn ctx s.proxyDepth
      { s with voters := s.voters.set proxy { voter with isProxy := isproxy } } proxy)
    (hpay : VotepayInv E.toExactReading ctx.now.toInt s)
    (h : s.regproxy ctx proxy isproxy = .ok s') :
    VotepayInv E.toExactReading ctx.now.toInt s' := by
  obtain ⟨hgaps', hs'⟩ := regproxy_tally hfactor hI hpass h
  obtain ⟨voter, hv, hnot, h⟩ | ⟨-, rfl⟩ := regproxy_cases h
  · have hb := baseOf_some hv
    have hvotes : ({ s with voters := s.voters.set proxy { voter with isProxy := isproxy } } :
        SystemState F).VotesInv :=
      hI.votes.update (hI.votes.toGraphInv.register hv hnot) (fun _ => rfl)
        (baseOf_set s proxy { voter with isProxy := isproxy })
        (hI.votes.checked proxy voter.base hb) (hI.votes.known proxy voter.base hb)
    have hold := votesOf_nonneg hI.nonneg hI.gaps.votes
    have hnew := votesOf_nonneg hs' hgaps'.votes
    exact propagate_votepay hnow hvotes hold hnew (hpay.of_same ⟨rfl, rfl, rfl, rfl⟩) h
  · exact hpay.of_same ⟨rfl, rfl, rfl, rfl⟩

/-! ## Producers -/

omit [IsStrictOrderedRing K] in
/-- Whether a producer is active is no part of its share. -/
theorem VotepayInv.setProducer {now : Int} {s : SystemState F} {p : Name}
    {info info' : ProducerInfo F} (h : VotepayInv E.toExactReading now s)
    (hinfo : s.producers.find? p = some info) (hvotes : info'.totalVotes = info.totalVotes)
    (hclaim : info'.lastClaimTime = info.lastClaimTime) :
    VotepayInv E.toExactReading now { s with producers := s.producers.set p info' } := by
  -- the row is active or not, and nothing else has changed
  have hdeadline : ∀ q, ({ s with producers := s.producers.set p info' } : SystemState F).deadline q =
      s.deadline q := by
    intro q
    unfold deadline
    rw [Table.valueAt_set]
    split
    · rename_i hq
      rw [hq, Table.valueAt_some hinfo, hclaim]
    · rfl
  have hvotesOf : ∀ q, votesOf E.toExactReading
      { s with producers := s.producers.set p info' } q = s.votesOf E.toExactReading q := by
    intro q
    unfold votesOf
    rw [Table.valueAt_set]
    split
    · rename_i hq
      rw [hq, Table.valueAt_some hinfo, hvotes]
    · rfl
  have haccount : ∀ q row, votepayOf E.toExactReading
      { s with producers := s.producers.set p info' } q row = s.votepayOf E.toExactReading q row := by
    intro q row
    unfold votepayOf paidVotes
    rw [hdeadline, hvotesOf]
  refine ⟨⟨h.since, fun q i hq => ?_, h.updated, h.share, fun q row hq => ?_, fun q i hq => ?_,
    h.total⟩, h.pools.congr fun q row _ => haccount q row⟩
  · -- the claim time of the producer
    rw [Table.find?_set] at hq
    split at hq
    · cases hq
      rw [hclaim]
      exact h.claimed p info hinfo
    · exact h.claimed q i hq
  · -- its deadline
    show deadline _ q ≤ _ → _
    rw [hdeadline]
    exact h.dropped q row hq
  · -- it still has its second row
    rw [Table.find?_set] at hq
    split at hq
    · rename_i hp
      exact hp ▸ h.paired p info hinfo
    · exact h.paired q i hq

omit [IsStrictOrderedRing K] in
/-- A new producer has neither votes nor a share. -/
theorem VotepayInv.newProducer {now : TimePoint} (hnow : IsTime now) {s : SystemState F} {p : Name}
    (h : VotepayInv E.toExactReading now.toInt s)
    (hp2 : s.producers2.find? p = none) :
    VotepayInv E.toExactReading now.toInt { s with
      producers := s.producers.set p ⟨Double.ofInt 0, true, now⟩
      producers2 := s.producers2.set p ⟨Double.ofInt 0, now⟩ } := by
  let s' : SystemState F := { s with
    producers := s.producers.set p ⟨Double.ofInt 0, true, now⟩
    producers2 := s.producers2.set p ⟨Double.ofInt 0, now⟩ }
  -- the other producers are as before
  have hdeadline : ∀ q, q ≠ p → s'.deadline q = s.deadline q := by
    intro q hne
    unfold deadline
    rw [Table.valueAt_set_ne _ _ hne]
  have haccount : ∀ q row, q ≠ p →
      s'.votepayOf E.toExactReading q row = s.votepayOf E.toExactReading q row := by
    intro q row hne
    unfold votepayOf paidVotes votesOf
    rw [hdeadline q hne, Table.valueAt_set_ne _ _ hne]
  -- and this one has no votes
  have hvotes : s'.votesOf E.toExactReading p = 0 := by
    unfold votesOf
    rw [Table.valueAt_set, if_pos rfl, E.val_zero]
  refine ⟨⟨h.since, fun q i hq => ?_, fun q row hq => ?_, fun q row hq => ?_, fun q row hq => ?_,
    fun q i hq => ?_, h.total⟩, ?_⟩
  · -- it has claimed now
    rw [Table.find?_set] at hq
    split at hq
    · cases hq
      exact ⟨hnow.1, le_rfl⟩
    · exact h.claimed q i hq
  · -- its share starts now
    rw [Table.find?_set] at hq
    split at hq
    · cases hq
      exact ⟨hnow.1.le, le_rfl⟩
    · exact h.updated q row hq
  · -- at zero
    rw [Table.find?_set] at hq
    split at hq
    · cases hq
      exact E.val_zero.ge
    · exact h.share q row hq
  · rw [Table.find?_set] at hq
    split at hq
    · cases hq
      exact fun _ => E.val_zero
    · rename_i hne
      rw [show deadline _ q = s.deadline q from hdeadline q hne]
      exact h.dropped q row hq
  · -- and it has both of its rows
    rw [Table.find?_set]
    split
    · exact ⟨_, rfl⟩
    · rename_i hne
      rw [Table.find?_set_ne _ _ hne] at hq
      exact h.paired q i hq
  -- a producer begins without votes and without a share
  · refine h.pools.open_empty hp2 haccount E.val_zero ?_
    show s'.paidVotes E.toExactReading p _ = 0
    unfold paidVotes
    rw [hvotes, ite_self]

omit [IsStrictOrderedRing K] in
/-- A registration keeps the total of the shares. -/
theorem registerProducer_votepay {ctx : Context} (hnow : IsTime ctx.now) {s s' : SystemState F}
    {p : Name} (hpay : VotepayInv E.toExactReading ctx.now.toInt s)
    (h : s.registerProducer ctx p = .ok s') : VotepayInv E.toExactReading ctx.now.toInt s' := by
  simp only [registerProducer, bind_eq_ok] at h
  obtain ⟨_, -, h⟩ := h
  split at h
  · rename_i info hinfo
    obtain ⟨row, hrow⟩ := hpay.paired p info hinfo
    have hclaimed : info.lastClaimTime ≠ 0 := by
      intro hzero
      have hpos := (hpay.claimed p info hinfo).1
      rw [hzero] at hpos
      exact absurd hpos (by decide)
    simp only [reactivate, hrow, if_neg hclaimed, pure_eq_ok] at h
    rw [← h]
    exact hpay.setProducer hinfo rfl rfl
  · simp only [bind_eq_ok, emplaceRow_eq_ok, pure_eq_ok] at h
    obtain ⟨_, ⟨hnone2, rfl⟩, rfl⟩ := h
    exact hpay.newProducer hnow hnone2

/-! ## Calls -/

/-- A change of a stake is voted with again. -/
theorem staked_votepay {ctx : Context} (hnow : IsTime ctx.now)
    (hfactor : 0 < E.val (voteFactor ctx : F)) {s s' : SystemState F} {a : SystemAction F}
    {direct : a.isDirect} (hI : TallyInv E.toExactReading s)
    (hpass : s.CallPasses ⟨ctx, .system a direct⟩)
    (hpay : VotepayInv E.toExactReading ctx.now.toInt s)
    (h : commit ctx (votingPoint ctx s a >>= VotingPoint.finish ctx) = .ok s') :
    VotepayInv E.toExactReading ctx.now.toInt s' := by
  obtain ⟨u, sends, token, hfinish, -, rfl⟩ := commit_eq_ok.mp h
  simp only [VotingPoint.finish, bind_eq_ok, pure_eq_ok, Prod.mk.injEq] at hfinish
  obtain ⟨p, point, u, hvote, rfl, -⟩ := hfinish
  obtain ⟨_, rfl, hstaked, vote⟩ := updateVotingPower_cases hvote
  obtain ⟨hvotes, hgaps, hnonneg⟩ := hI.restaked point hstaked
  -- the blocks before the vote touch no pay
  have hstate : SamePay s (restaked p) := by
    unfold restaked
    rw [votingPoint_state hI.stake.noRex point]
    exact ⟨rfl, rfl, rfl, rfl⟩
  have hpay' := hpay.of_same hstate
  have hrow : (restaked p).voters.find? p.owner =
      some (changeStake (p.state.voters.find? p.owner) p.total.amount) := Table.find?_set_self _ _ _
  suffices hend : VotepayInv E.toExactReading ctx.now.toInt u from
    hend.of_same ⟨rfl, rfl, rfl, rfl⟩
  obtain ⟨hchosen, vote⟩ | rfl := vote
  · -- the vote is cast again
    have hchoice : (restaked p).Chooses p.owner
        (changeStake (p.state.voters.find? p.owner) p.total.amount).proxy false := by
      refine .inr fun hset => ?_
      rw [proxyOf_some hrow]
      exact VoterBase.link_eq_some.mpr ⟨rfl, hset⟩
    exact updateVotes_votepay hnow hfactor hvotes hnonneg hgaps hchoice
      (hpass.2.2 a rfl p (toOption_of_ok point) _ hrow hchosen) hpay' vote
  · -- an account that has made no choice
    exact hpay'

/-- An action of the system contract keeps the total of the shares. -/
theorem step_votepay {ctx : Context} (hnow : IsTime ctx.now)
    (hfactor : 0 < E.val (voteFactor ctx : F)) {s s' : SystemState F} {a : SystemAction F}
    {direct : a.isDirect} (hI : TallyInv E.toExactReading s)
    (hpass : s.CallPasses ⟨ctx, .system a direct⟩)
    (hpay : VotepayInv E.toExactReading ctx.now.toInt s) (h : s.step ⟨ctx, a⟩ = .ok s') :
    VotepayInv E.toExactReading ctx.now.toInt s' := by
  have hrex := hI.stake.noRex
  cases a with
  | init version core =>
    obtain ⟨u, sends, token, hr, -, rfl⟩ := commit_eq_ok.mp h
    obtain ⟨m, -, -, -, rfl, -⟩ := init_spec hr
    -- no producer is touched
    exact hpay.of_same ⟨rfl, rfl, rfl, rfl⟩
  | newaccount creator newact =>
    obtain ⟨zero, bids, limits, -, -, -, rfl⟩ := newaccount_spec h
    exact hpay.of_same ⟨rfl, rfl, rfl, rfl⟩
  | setram maxRamSize =>
    obtain ⟨m, m', -, -, -, -, rfl⟩ := setram_spec h
    exact hpay.of_same ⟨rfl, rfl, rfl, rfl⟩
  | setramrate bytesPerBlock =>
    obtain ⟨-, u, hu, rfl⟩ := setramrate_spec h
    -- growing the market touches no producer
    exact (hpay.of_same (updateRamSupply_spec hu).samePay).of_same ⟨rfl, rfl, rfl, rfl⟩
  | buyram payer receiver quant =>
    obtain ⟨u, sends, token, hr, -, rfl⟩ := commit_eq_ok.mp h
    exact (hpay.of_same (buyram_samePay hr)).of_same ⟨rfl, rfl, rfl, rfl⟩
  | buyrambytes payer receiver bytes =>
    obtain ⟨u, sends, token, hr, -, rfl⟩ := commit_eq_ok.mp h
    exact (hpay.of_same (buyram_samePay (buyrambytes_spec hr))).of_same ⟨rfl, rfl, rfl, rfl⟩
  | sellram account bytes =>
    obtain ⟨u, sends, token, hr, -, rfl⟩ := commit_eq_ok.mp h
    exact (hpay.of_same (sellram_samePay hr)).of_same ⟨rfl, rfl, rfl, rfl⟩
  | delegatebw from_ receiver net cpu transfer =>
    simp only [step, delegatebw_eq] at h
    -- the vote is cast again after a change of stake
    exact staked_votepay hnow hfactor hI hpass hpay h
  | undelegatebw from_ receiver net cpu =>
    simp only [step, undelegatebw_eq] at h
    exact staked_votepay hnow hfactor hI hpass hpay h
  | refund owner =>
    obtain ⟨u, sends, token, hr, -, rfl⟩ := commit_eq_ok.mp h
    obtain ⟨q, amount, -, -, -, rfl, -⟩ := refund_cases hr
    exact hpay.of_same ⟨rfl, rfl, rfl, rfl⟩
  | voteproducer voterName proxy producers =>
    -- the vote itself
    exact updateVotes_votepay hnow hfactor hI.votes hI.nonneg hI.gaps (.inl rfl)
      (hpass.1 ⟨voterName, proxy, producers⟩ rfl) hpay (voteproducer_updateVotes hrex h)
  | regproxy proxy isproxy =>
    -- and a registration of a proxy
    exact regproxy_votepay hnow hfactor hI (hpass.2.1 (proxy, isproxy) rfl) hpay h
  | token action =>
    obtain ⟨token, -, rfl⟩ := step_token_spec h
    exact hpay.of_same ⟨rfl, rfl, rfl, rfl⟩
  | producers producers producers2 scheduleSize => cases direct

/-- Every call keeps the total of the shares. -/
theorem accountStep_votepay {s s' : SystemState F} {call : AccountCall F}
    (hnow : IsTime call.ctx.now) (hfactor : 0 < E.val (voteFactor call.ctx : F))
    (hdrop : s.NoDrop call) (hI : TallyInv E.toExactReading s)
    (hpay : VotepayInv E.toExactReading call.ctx.now.toInt s) (h : s.accountStep call = .ok s') :
    VotepayInv E.toExactReading call.ctx.now.toInt s' := by
  have hpass : s.CallPasses call := hdrop (Run.isOk_of_ok h)
  obtain ⟨ctx, action⟩ := call
  -- a limit touches no pay
  have hset : ∀ {q account value}, s.setacct ctx q account value = .ok s' →
      VotepayInv E.toExactReading ctx.now.toInt s' := by
    intro q account value h
    obtain ⟨v, -, rfl, -⟩ := setacct_spec h
    exact hpay.of_same ⟨rfl, rfl, rfl, rfl⟩
  cases action with
  | regproducer producer url =>
    simp only [accountStep, regproducer, bind_eq_ok] at h
    obtain ⟨_, -, _, -, h⟩ := h
    -- registration makes both rows, or keeps what they say
    exact registerProducer_votepay hnow hpay h
  | regproducer2 producer isValid url =>
    simp only [accountStep, regproducer2, bind_eq_ok] at h
    obtain ⟨_, -, _, -, _, -, h⟩ := h
    exact registerProducer_votepay hnow hpay h
  | unregprod producer =>
    simp only [accountStep, unregprod, bind_eq_ok, getRow_eq_ok, pure_eq_ok] at h
    obtain ⟨_, -, prod, hprod, rfl⟩ := h
    -- a producer is deactivated
    exact hpay.setProducer hprod rfl rfl
  | rmvproducer producer =>
    simp only [accountStep, rmvproducer, bind_eq_ok, getRow_eq_ok, pure_eq_ok] at h
    obtain ⟨_, -, prod, hprod, rfl⟩ := h
    exact hpay.setProducer hprod rfl rfl
  | setacctram account ramBytes => exact hset h
  | setacctnet account netWeight => exact hset h
  | setacctcpu account cpuWeight => exact hset h
  -- the actions of the system contract
  | system action direct => exact step_votepay hnow hfactor hI hpass hpay h

/-! ## Runs -/

/-- No shares have been paid for. -/
structure NoShares (s : SystemState F) : Prop where
  producers2 : s.producers2 = ∅
  share : s.gstate2.totalProducerVotepayShare = Double.ofInt 0
  since : s.gstate3.lastVpayStateUpdate = 0
  rate : s.gstate3.totalVpayShareChangeRate = Double.ofInt 0

theorem genesis_noShares (maxBlockNetUsage : UInt64) (maxBlockCpuUsage : UInt32) :
    (genesis maxBlockNetUsage maxBlockCpuUsage : SystemState F).NoShares :=
  ⟨rfl, rfl, rfl, rfl⟩

omit [IsStrictOrderedRing K] in
/-- Without shares and producers the total is zero. -/
theorem NoShares.votepayInv {s : SystemState F} (h : s.NoShares) (hproducers : s.producers = ∅) :
    VotepayInv E.toExactReading 0 s := by
  refine ⟨⟨?_, fun p info hp => ?_, fun p row hp => ?_, fun p row hp => ?_, fun p row hp => ?_,
    fun p info hp => ?_, ?_⟩, fun time => ?_⟩
  · rw [h.since]
    exact ⟨le_rfl, le_rfl⟩
  · rw [hproducers, Table.find?_empty] at hp
    cases hp
  · rw [h.producers2, Table.find?_empty] at hp
    cases hp
  · rw [h.producers2, Table.find?_empty] at hp
    cases hp
  · rw [h.producers2, Table.find?_empty] at hp
    cases hp
  · rw [hproducers, Table.find?_empty] at hp
    cases hp
  · show 0 ≤ E.val s.gstate2.totalProducerVotepayShare
    rw [h.share, E.val_zero]
  · unfold Accrual.amount votepayTotal
    rw [h.producers2, h.share, h.rate, E.val_zero, zero_mul, add_zero]
    rfl

/-- With exact weights, after every run that drops no change of a weight, the total of the shares
    grows at any time as the shares of all producers do together. Neither the total nor a share nor
    the votes of a producer are negative. A producer that has not been paid for three days when its
    votes change has no share from then on. -/
theorem votepay_shares (E : FieldReading F K) {s : SystemState F} (hs : s.NoVotes)
    (hshares : s.NoShares) {calls : List (AccountCall F)}
    (htimes : ∀ call ∈ calls, IsTime call.ctx.now)
    (hsorted : calls.Pairwise fun c d => c.ctx.now ≤ d.ctx.now)
    (hfactor : ∀ call ∈ calls, 0 < E.val (voteFactor call.ctx : F))
    (hdrop : Run.Meets accountStep NoDrop s calls) :
    let u := Run.exec accountStep s calls
    let votes := fun p (row : ProducerInfo2 F) =>
      if row.lastVotepayShareUpdate.toInt < u.deadline p then
        u.producers.valueAt p fun info => E.val info.totalVotes
      else 0
    (∀ time : K, E.val u.gstate2.totalProducerVotepayShare +
        E.val u.gstate3.totalVpayShareChangeRate * (time - seconds u.gstate3.lastVpayStateUpdate) =
      u.producers2.sum fun p row => E.val row.votepayShare +
        votes p row * (time - seconds row.lastVotepayShareUpdate)) ∧
    E.val u.gstate3.totalVpayShareChangeRate = u.producers2.sum votes ∧
    0 ≤ E.val u.gstate2.totalProducerVotepayShare ∧
    (∀ p info, u.producers.find? p = some info → 0 ≤ E.val info.totalVotes) ∧
    ∀ p row, u.producers2.find? p = some row → 0 ≤ E.val row.votepayShare ∧ 0 ≤ votes p row ∧
      (u.deadline p ≤ row.lastVotepayShareUpdate.toInt → E.val row.votepayShare = 0) := by
  intro u votes
  have hmeets := ((Run.meets_of_forall htimes).and (Run.meets_of_forall hfactor)).and hdrop
  -- both invariants hold at the time of the last call
  obtain ⟨t, -, hI, hpay⟩ : ∃ t : TimePoint, _ ∧ TallyInv E.toExactReading u ∧
      VotepayInv E.toExactReading t.toInt u := by
    refine Run.exec_of_sorted
      (I := fun t s => TallyInv E.toExactReading s ∧ VotepayInv E.toExactReading t.toInt s)
      (fun t t' s hle hI => ⟨hI.1, hI.2.mono (Int64.le_iff_toInt_le.mp hle)⟩)
      (fun s c s' hI hC h => ?_) (t := 0) ⟨hs.tallyInv, hshares.votepayInv hs.producers⟩
      (fun c hc => ?_) hsorted hmeets
    · exact ⟨accountStep_tally hI.1 hC.1.2 hC.2 h,
        accountStep_votepay hC.1.1 hC.1.2 hC.2 hI.1 hI.2 h⟩
    · exact Int64.le_iff_toInt_le.mpr (htimes c hc).1.le
  -- the votes are the tallies of non-negative weights
  have hvotes := votesOf_nonneg hI.nonneg hI.gaps.votes
  refine ⟨hpay.pools, hpay.pools.rate, hpay.total, fun p info hinfo => ?_,
    fun p row hrow => ⟨hpay.share p row hrow, paidVotes_nonneg hvotes p row,
      hpay.dropped p row hrow⟩⟩
  have hnonneg := hvotes p
  rw [votesOf, Table.valueAt_some hinfo] at hnonneg
  exact hnonneg

/-- Bob is voted for as before, and alice adds to her stake on each of the two next days. -/
def Sample.earning : List (AccountCall Rat) :=
  voting.take 6 ++
    [⟨ctx [alice] (launch + 86400),
        .system (.delegatebw alice alice (utx 0) (utx 40) false) rfl⟩,
      ⟨ctx [alice] (launch + 2 * 86400),
        .system (.delegatebw alice alice (utx 0) (utx 10) false) rfl⟩]

theorem Sample.start_noShares : Sample.start.NoShares where
  producers2 := Table.eq_empty_of_size (by decide +kernel)
  share := by decide +kernel
  since := by decide +kernel
  rate := by decide +kernel

/-- The state after the sample run. -/
def Sample.earned : SystemState Rat := Run.exec accountStep start earning

open Sample in
/-- In the sample, the share of bob is the total, and grows with his votes. -/
theorem votepay_shares_sample :
    0 < earned.gstate2.totalProducerVotepayShare ∧ earned.gstate3.totalVpayShareChangeRate =
      earned.producers2.sum fun p row =>
        if row.lastVotepayShareUpdate.toInt < earned.deadline p then
          earned.producers.valueAt p fun info => info.totalVotes
        else 0 := by
  have hnow : ∀ call ∈ earning,
      0 < call.ctx.now.toInt ∧ call.ctx.now.toInt ≤ 1700000000000000 := by
    decide +kernel
  have htimes : ∀ call ∈ earning, IsTime call.ctx.now := fun call hcall =>
    ⟨(hnow call hcall).1, (hnow call hcall).2.trans (by norm_num)⟩
  have hsorted : earning.Pairwise fun c d => c.ctx.now ≤ d.ctx.now := by decide +kernel
  have hfactor : ∀ call ∈ earning,
      0 < FieldReading.rational.val (voteFactor call.ctx : Rat) := by
    decide +kernel
  have hdrop : Run.Meets accountStep NoDrop start earning := by decide +kernel
  obtain ⟨-, hrate, -⟩ := votepay_shares FieldReading.rational start_noVotes start_noShares htimes
    hsorted hfactor hdrop
  have hval : ∀ x : Rat, FieldReading.rational.val x = x := fun _ => rfl
  simp only [hval] at hrate
  exact ⟨by decide +kernel, by unfold earned; exact hrate⟩

end SystemState

end UxContracts
