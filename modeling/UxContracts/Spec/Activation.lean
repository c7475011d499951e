import UxContracts.Spec.TallyRuns

/-!
# The activation of the chain

Until the chain is activated, the stake of a voter is added to `total_activated_stake` when the
voter's last weight is not positive. A stake that has been added has a positive weight
(`Weighty`) and cannot be taken back, so it is not added again, provided that what is delegated to
a registered proxy is never negative (`activation_needs_stake`). A change of a weight that is too
small to be passed on can make it negative, and then a stake is added twice
(`stake_activated_twice`).
-/

namespace UxContracts

open Chain

namespace SystemState

variable {F K : Type} [Double F] [CommRing K] [LinearOrder K]

/-! ## Weights of counted stakes -/

/-- A positive stake whose weight is positive, unless what is delegated to its owner is negative. -/
structure Weighty (E : ExactReading F K) (v : VoterInfo F) : Prop where
  staked : 0 < v.staked.toInt
  last : (v.isProxy = true → 0 ≤ E.val v.proxiedVoteWeight) → 0 < E.val v.lastVoteWeight

/-- Counted stakes stay counted. -/
def KeepsWeighty (E : ExactReading F K) (s s' : SystemState F) : Prop :=
  ∀ f v, s.voters.find? f = some v → Weighty E v → ∃ v', s'.voters.find? f = some v' ∧ Weighty E v'

variable {E : ExactReading F K}

theorem KeepsWeighty.of_voters {s s' : SystemState F} (h : s'.voters = s.voters) :
    KeepsWeighty E s s' := by
  intro f v hv hw
  exact ⟨v, h ▸ hv, hw⟩

theorem KeepsWeighty.trans {s t u : SystemState F} (h : KeepsWeighty E s t)
    (h' : KeepsWeighty E t u) : KeepsWeighty E s u := by
  intro f v hv hw
  obtain ⟨v', hv', hw'⟩ := h f v hv hw
  exact h' f v' hv' hw'

/-- A row is stored. -/
theorem KeepsWeighty.set {s : SystemState F} {f : Name} {v' : VoterInfo F}
    (h : ∀ v, s.voters.find? f = some v → Weighty E v → Weighty E v') :
    KeepsWeighty E s { s with voters := s.voters.set f v' } := by
  intro g v hv hw
  show ∃ w, (s.voters.set f v').find? g = some w ∧ _
  rw [Table.find?_set]
  split
  · rename_i hg
    subst hg
    exact ⟨v', rfl, h v hv hw⟩
  · exact ⟨v, hv, hw⟩

/-- The choice and the flags do not matter. -/
theorem Weighty.of_ballot {v v' : VoterInfo F} (h : Weighty E v) (hballot : SameBallot v v')
    (hproxy : v'.isProxy = v.isProxy) (hstaked : v.staked.toInt ≤ v'.staked.toInt) :
    Weighty E v' where
  staked := lt_of_lt_of_le h.staked hstaked
  last := by
    rw [hballot.last, hballot.proxied, hproxy]
    exact h.last

variable [IsStrictOrderedRing K]

/-- A weight that has just been computed. -/
theorem Weighty.fresh {ctx : Context} (hfactor : 0 < E.val (voteFactor ctx : F)) {v v' : VoterInfo F}
    (hpos : 0 < v.staked.toInt) (hstaked : v'.staked = v.staked) (hproxy : v'.isProxy = v.isProxy)
    (hproxied : v'.proxiedVoteWeight = v.proxiedVoteWeight)
    (hlast : v'.lastVoteWeight = newVoteWeight ctx v) : Weighty E v' where
  staked := hstaked ▸ hpos
  last := by
    intro hnonneg
    have hstake : 0 < E.val (stake2vote ctx v.staked : F) := by
      rw [stake2vote_eq, E.val_mul, E.val_ofInt]
      exact mul_pos (Int.cast_pos.mpr hpos) hfactor
    rw [hlast]
    simp only [newVoteWeight]
    split
    · rename_i hyes
      rw [E.val_add]
      exact add_pos_of_pos_of_nonneg hstake (hproxied ▸ hnonneg (hproxy.trans hyes))
    · exact hstake

/-- A call of `propagate_weight_change` computes the weight of the owner, and keeps the others. -/
theorem propagate_weighty {ctx : Context} (hfactor : 0 < E.val (voteFactor ctx : F)) {depth : Nat}
    {s s' : SystemState F} {owner : Name} (hI : s.GraphInv)
    (h : propagateWeightChange ctx depth s owner = .ok s') {f : Name} {v : VoterInfo F}
    (hv : s.voters.find? f = some v) (hpos : 0 < v.staked.toInt) (hf : f = owner ∨ Weighty E v) :
    ∃ v', s'.voters.find? f = some v' ∧ Weighty E v' := by
  -- induction on the depth, along the chain of proxies
  induction depth generalizing s s' owner v with
  | zero => cases h
  | succ depth ih =>
    obtain ⟨voter, hvoter, -, u, hu, voter', hvoter', rfl⟩ := propagate_eq_ok.mp h
    show ∃ w, (u.voters.set owner _).find? f = some w ∧ _
    rw [Table.find?_set]
    split
    · rename_i hf
      subst hf
      obtain rfl : v = voter := Option.some.inj (hv.symm.trans hvoter)
      -- nothing that is passed on comes back to the owner
      obtain rfl : voter' = v := by
        rw [passOn_row hI hvoter hu] at hvoter'
        exact (Option.some.inj hvoter').symm
      exact ⟨_, rfl, .fresh hfactor hpos rfl rfl rfl rfl⟩
    · -- another row is written only as that of the proxy
      rename_i hne
      have hw : Weighty E v := hf.resolve_left hne
      simp only [passOn] at hu
      split at hu
      · split at hu
        · simp only [bind_eq_ok, getRow_eq_ok] at hu
          obtain ⟨proxy, hp, hu⟩ := hu
          have hframe := weightFrame_setProxied hp
            (proxy.proxiedVoteWeight + (newVoteWeight ctx voter - voter.lastVoteWeight))
          by_cases hfp : f = voter.proxy
          · subst hfp
            obtain rfl : v = proxy := Option.some.inj (hv.symm.trans hp)
            exact ih (hI.of_base hframe.base) hu (Table.find?_set_self _ _ _) hpos (.inl rfl)
          · refine ih (hI.of_base hframe.base) hu ?_ hpos (.inr hw)
            exact (Table.find?_set_ne _ _ hfp).trans hv
        · simp only [bind_eq_ok, pure_eq_ok] at hu
          obtain ⟨⟨u', acc⟩, hloop, rfl⟩ := hu
          exact ⟨v, (congrArg (·.find? f) (propagateToProducers_weights hloop).2).trans hv, hw⟩
      · rw [← pure_eq_ok.mp hu]
        exact ⟨v, hv, hw⟩

/-- What is delegated to a proxy is changed, and the weight of the proxy after it. -/
theorem setProxied_weighty {ctx : Context} (hfactor : 0 < E.val (voteFactor ctx : F)) {depth : Nat}
    {s s' : SystemState F} {p : Name} {proxy : VoterInfo F} (hI : s.GraphInv)
    (hp : s.voters.find? p = some proxy) (w : F)
    (h : propagateWeightChange ctx depth
      { s with voters := s.voters.set p { proxy with proxiedVoteWeight := w } } p = .ok s') :
    KeepsWeighty E s s' := by
  have hI' := hI.of_base (weightFrame_setProxied hp w).base
  intro f v hv hw
  by_cases hf : f = p
  · subst hf
    obtain rfl : v = proxy := Option.some.inj (hv.symm.trans hp)
    exact propagate_weighty hfactor hI' h (Table.find?_set_self _ _ _) hw.staked (.inl rfl)
  · exact propagate_weighty hfactor hI' h ((Table.find?_set_ne _ _ hf).trans hv) hw.staked (.inr hw)

/-- Undoing a vote keeps the weights of all voters in line with their stakes. -/
theorem undoVote_weighty {ctx : Context} (hfactor : 0 < E.val (voteFactor ctx : F))
    {s s' : SystemState F} {voter : VoterInfo F} {deltas : ProducerDeltas F} (hI : s.GraphInv)
    (h : s.undoVote ctx voter = .ok (s', deltas)) : KeepsWeighty E s s' := by
  unfold undoVote at h
  split at h
  · split at h
    · simp only [bind_eq_ok, getRow_eq_ok, pure_eq_ok, Prod.mk.injEq] at h
      obtain ⟨proxy, hp, u, hu, rfl, -⟩ := h
      exact setProxied_weighty hfactor hI hp _ hu
    · simp only [pure_eq_ok, Prod.mk.injEq] at h
      exact .of_voters (h.1 ▸ rfl)
  · simp only [pure_eq_ok, Prod.mk.injEq] at h
    exact .of_voters (h.1 ▸ rfl)

/-- Casting a vote keeps the weights of all voters in line with their stakes. -/
theorem castVote_weighty {ctx : Context} (hfactor : 0 < E.val (voteFactor ctx : F))
    {s s' : SystemState F} {deltas deltas' : ProducerDeltas F} {proxy : Name}
    {producers : List Name} {weight : F} {voting : Bool} (hI : s.GraphInv)
    (h : s.castVote ctx deltas proxy producers weight voting = .ok (s', deltas')) :
    KeepsWeighty E s s' := by
  unfold castVote at h
  split at h
  · simp only [bind_eq_ok, getRow_eq_ok, check_eq_ok] at h
    obtain ⟨np, hp, _, -, h⟩ := h
    split at h
    · simp only [bind_eq_ok, pure_eq_ok, Prod.mk.injEq] at h
      obtain ⟨u, hu, rfl, -⟩ := h
      exact setProxied_weighty hfactor hI hp _ hu
    · simp only [pure_eq_ok, Prod.mk.injEq] at h
      exact .of_voters (h.1 ▸ rfl)
  · split at h
    · simp only [pure_eq_ok, Prod.mk.injEq] at h
      exact .of_voters (h.1 ▸ rfl)
    · simp only [pure_eq_ok, Prod.mk.injEq] at h
      exact .of_voters (h.1 ▸ rfl)

/-- `update_votes` keeps the counted stakes, and the stake that is voted with is like one. -/
theorem updateVotes_weighty {ctx : Context} (hfactor : 0 < E.val (voteFactor ctx : F))
    {s s' : SystemState F} {voterName proxy : Name} {producers : List Name} {voting : Bool}
    (hI : s.GraphInv) (hchoice : s.Chooses voterName proxy voting)
    (h : s.updateVotes ctx voterName proxy producers voting = .ok s') :
    KeepsWeighty E s s' ∧ ∀ voter, s.voters.find? voterName = some voter →
      0 < voter.staked.toInt → ∃ v', s'.voters.find? voterName = some v' ∧ Weighty E v' := by
  obtain ⟨voter, hvoter, hrow⟩ := updateVotes_row hI hchoice h
  -- the voter has a fresh weight
  have hown : 0 < voter.staked.toInt → ∃ v', s'.voters.find? voterName = some v' ∧ Weighty E v' :=
    fun hpos => ⟨_, hrow, .fresh hfactor hpos rfl rfl rfl rfl⟩
  constructor
  · obtain ⟨-, voter₀, -, -, s₁, d₁, hundo, s₂, d₂, hcast, s₃, acc, happly, _, rfl, voter', -,
      rfl⟩ := updateVotes_eq_ok.mp h
    -- each part of the vote keeps the weights of the others
    obtain ⟨hframe, hvoters⟩ := activateStake_weights ctx s voter₀
    have hframe₁ := hframe.trans (undoVote_weights hundo)
    have hkeeps₁ : KeepsWeighty E s s₁ := (KeepsWeighty.of_voters hvoters).trans
      (undoVote_weighty hfactor (hI.of_base hframe.base) hundo)
    have hkeeps₂ : KeepsWeighty E s s₂ :=
      hkeeps₁.trans (castVote_weighty hfactor (hI.of_base hframe₁.base) hcast)
    have hkeeps₃ : KeepsWeighty E s s₃ :=
      hkeeps₂.trans (.of_voters (applyDeltas_weights happly).2)
    intro f v hv hw
    by_cases hf : f = voterName
    · subst hf
      obtain rfl : v = voter := Option.some.inj (hv.symm.trans hvoter)
      exact hown hw.staked
    · obtain ⟨v', hv', hw'⟩ := hkeeps₃ f v hv hw
      exact ⟨v', (Table.find?_set_ne _ _ hf).trans hv', hw'⟩
  · -- and the row of the voter is the one that is stored
    intro v hv hpos
    obtain rfl : v = voter := Option.some.inj (hv.symm.trans hvoter)
    exact hown hpos

/-- Registering as a proxy keeps the weights of all voters in line with their stakes. -/
theorem regproxy_weighty {ctx : Context} (hfactor : 0 < E.val (voteFactor ctx : F))
    {s s' : SystemState F} {proxy : Name} {isproxy : Bool} (hI : s.GraphInv)
    (h : s.regproxy ctx proxy isproxy = .ok s') : KeepsWeighty E s s' := by
  obtain ⟨voter, hvoter, hnot, h⟩ | ⟨hnone, rfl⟩ := regproxy_cases h
  · have hI' := hI.register hvoter hnot
    intro f v hv hw
    by_cases hf : f = proxy
    · subst hf
      obtain rfl : v = voter := Option.some.inj (hv.symm.trans hvoter)
      exact propagate_weighty hfactor hI' h (Table.find?_set_self _ _ _) hw.staked (.inl rfl)
    · exact propagate_weighty hfactor hI' h ((Table.find?_set_ne _ _ hf).trans hv) hw.staked
        (.inr hw)
  · apply KeepsWeighty.set
    intro v hv
    rw [hnone] at hv
    cases hv

/-! ## What counts for the activation -/

/-- What a vote with this row does to the activation. -/
def activated (ctx : Context) (voter : VoterInfo F) (a : Int64 × TimePoint) : Int64 × TimePoint :=
  if a.2 = 0 then
    let stake := if voter.lastVoteWeight ≤ Double.ofInt 0 then a.1 + voter.staked else a.1
    (stake, if minActivatedStake ≤ stake ∧ minActivatedDate ≤ ctx.now then ctx.now else a.2)
  else a

/-- What a vote does to the activation depends on the row of the voter and the time only. -/
theorem activateStake_activation (ctx : Context) (s : SystemState F) (voter : VoterInfo F) :
    (s.activateStake ctx voter).activation = activated ctx voter s.activation := by
  unfold activateStake activated
  split
  · rename_i htime
    rw [if_pos (show s.activation.2 = 0 from htime)]
    rfl
  · rename_i htime
    rw [if_neg (show ¬ s.activation.2 = 0 from htime)]

omit [Double F] in
/-- Nothing but the start of `update_votes` counts for the activation. -/
theorem activation_votingRel :
    VotingRel fun s s' : SystemState F => s'.activation = s.activation where
  refl _ := rfl
  trans h h' := h'.trans h
  votes _ _ _ _ _ _ := rfl
  votepay _ _ _ _ := rfl
  weights _ _ _ _ _ _ := rfl

/-- A vote counts the row that the voter had before it. -/
theorem updateVotes_activation {ctx : Context} {s s' : SystemState F} {voterName proxy : Name}
    {producers : List Name} {voting : Bool}
    (h : s.updateVotes ctx voterName proxy producers voting = .ok s') :
    ∃ voter, s.voters.find? voterName = some voter ∧
      s'.activation = activated ctx voter s.activation := by
  obtain ⟨voter, voter', u, hv, hu, -, rfl⟩ := activation_votingRel.updateVotes h
  exact ⟨voter, hv, hu.trans (activateStake_activation ctx s voter)⟩

/-- Registering as a proxy does not count any stake. -/
theorem regproxy_activation {ctx : Context} {s s' : SystemState F} {proxy : Name} {isproxy : Bool}
    (h : s.regproxy ctx proxy isproxy = .ok s') : s'.activation = s.activation := by
  obtain ⟨voter, -, -, h⟩ | ⟨-, rfl⟩ := regproxy_cases h
  · exact (activation_votingRel.propagateWeightChange h).trans rfl
  · rfl

/-! ## Calls -/

/-- The account whose vote an action casts. -/
def voterOf : SystemAction F → Option Name
  | .voteproducer voterName _ _ => some voterName
  | .delegatebw from_ receiver _ _ transfer => some (if transfer then receiver else from_)
  | .undelegatebw from_ .. => some from_
  | _ => none

omit [Double F] in
/-- The owner of a changed stake is the voter of the action. -/
theorem votingPoint_owner {ctx : Context} {s : SystemState F} {a : SystemAction F}
    {p : VotingPoint F} (hrex : s.rexbalance = ∅) (h : votingPoint ctx s a = .ok p) :
    voterOf a = some p.owner := by
  cases a with
  | delegatebw from_ receiver net cpu transfer =>
    simp only [votingPoint, delegatebwBefore, bind_eq_ok] at h
    obtain ⟨_, -, _, -, _, -, _, -, _, -, _, -, _, -, _, -, h⟩ := h
    obtain ⟨s₀, tot, -, -, -, -, howner, -⟩ := changebwBefore_spec hrex h
    rw [howner]
    rfl
  | undelegatebw from_ receiver net cpu =>
    simp only [votingPoint, undelegatebwBefore, bind_eq_ok] at h
    obtain ⟨_, -, _, -, _, -, _, -, _, -, _, -, _, -, _, -, _, -, h⟩ := h
    obtain ⟨s₀, tot, -, -, -, -, howner, -⟩ := changebwBefore_spec hrex h
    rw [howner]
    rfl
  | _ => cases h

/-- Before the activation no stake is taken back. -/
theorem stakedOf_mono {s s' : SystemState F} {call : AccountCall F} (hI : s.StakeInv)
    (htime : s.gstate.threshActivatedStakeTime = 0) (h : s.accountStep call = .ok s') (f : Name) :
    s.stakedOf f ≤ s'.stakedOf f := by
  have hsym : ∀ sym, s.coreSymbol = .ok sym → sym = s.coreSym := fun _ => coreSym_of_ok
  -- only a change of stake can lower the stake of a voter
  cases accountStep_change hI.noRex h with
  -- rows with the same voters have the same stakes
  | same same =>
    unfold stakedOf
    rw [same.voters]
  | voted voterName proxy producers direct action vote =>
    rw [(updateVotes_frame vote).staked]
  | proxied proxy isproxy direct action reg =>
    rw [(regproxy_frame reg).staked]
  | status notSystem p active change selfStaked =>
    rw [change.frame.staked]
  | flagged notSystem account v flags1 row limits change =>
    -- the flags of an account do not change its stake
    have hstaked : v.staked.toInt = s.stakedOf account := by
      rcases row with ⟨hnone, rfl⟩ | hsome
      · rw [stakedOf, Table.valueAt_none hnone]
        rfl
      · exact (stakedOf_some hsome).symm
    have hset : VoteFrame s { s with voters := s.voters.set account { v with flags1 := flags1 } } :=
      voteFrame_set hstaked
    rw [change]
    exact (hset.staked f).ge
  | staked a direct action p point u vote token =>
    obtain ⟨ctx, act⟩ := call
    obtain rfl : act = .system a direct := action
    have hstep : s.step ⟨ctx, a⟩ = .ok s' := h
    cases a with
    | delegatebw from_ receiver net cpu transfer =>
      -- a delegation adds to the stake
      obtain ⟨w, sends, tokens, hr, -, rfl⟩ := commit_eq_ok.mp hstep
      obtain ⟨-, -, hn, hc, hchange⟩ :=
        delegatebw_spec hI.rows hI.noRex hI.stakedOf_nonneg hsym hr
      have hstaked := hchange.staked f
      show s.stakedOf f ≤ w.stakedOf f
      rw [hstaked]
      split
      · omega
      · omega
    | undelegatebw from_ receiver net cpu =>
      -- nothing can be taken back before the activation
      simp only [votingPoint, undelegatebwBefore, bind_eq_ok, check_eq_ok] at point
      obtain ⟨_, -, _, -, _, -, _, -, _, -, _, -, _, -, _, -, _, htime', -⟩ := point
      exact absurd htime htime'
    | _ => cases point

/-- A vote with the stake of `voterName`, whose row is read as `voter`. -/
structure StakeVote (E : ExactReading F K) (ctx : Context) (s s' : SystemState F) (voterName : Name)
    (voter : VoterInfo F) : Prop where
  row : ∀ old, s.voters.find? voterName = some old →
    SameBallot old voter ∧ voter.isProxy = old.isProxy
  activation : s'.activation = activated ctx voter s.activation
  staked : s'.stakedOf voterName = voter.staked.toInt
  nonneg : 0 ≤ voter.staked.toInt
  weighty : 0 < voter.staked.toInt → ∃ v', s'.voters.find? voterName = some v' ∧ Weighty E v'

omit [IsStrictOrderedRing K] in
/-- The stake that is voted with when it has changed. -/
theorem restaked_weighty {ctx : Context} {s s' : SystemState F} {a : SystemAction F}
    {p : VotingPoint F} (hrex : s.rexbalance = ∅) (point : votingPoint ctx s a = .ok p)
    (hstaked : ∀ f, s'.stakedOf f = (restaked p).stakedOf f)
    (hmono : ∀ f, s.stakedOf f ≤ s'.stakedOf f) : KeepsWeighty E s (restaked p) := by
  have hvoters := (votingPoint_sameVotes hrex point).voters
  refine (KeepsWeighty.of_voters hvoters).trans (KeepsWeighty.set fun v hv hw => ?_)
  rw [hv]
  refine hw.of_ballot ⟨rfl, rfl, rfl, rfl⟩ rfl ?_
  have hle := hmono p.owner
  rw [hstaked, stakedOf_some (hvoters ▸ hv), stakedOf_some (Table.find?_set_self _ _ _), hv] at hle
  exact hle

/-- A change of a stake keeps the counted stakes, and counts at most the stake that has changed. -/
theorem updateVotingPower_weighty {ctx : Context} (hfactor : 0 < E.val (voteFactor ctx : F))
    {s s' : SystemState F} {a : SystemAction F} {p : VotingPoint F} (hI : s.StakeInv)
    (hG : s.GraphInv) (point : votingPoint ctx s a = .ok p)
    (hmono : ∀ f, s.stakedOf f ≤ s'.stakedOf f)
    (vote : p.state.updateVotingPower ctx p.owner p.total = .ok s') :
    KeepsWeighty E s s' ∧
      (s'.activation = s.activation ∨ ∃ voter, StakeVote E ctx s s' p.owner voter) := by
  have hsame := votingPoint_sameVotes hI.noRex point
  have hrow : (restaked p).voters.find? p.owner =
      some (changeStake (p.state.voters.find? p.owner) p.total.amount) :=
    Table.find?_set_self _ _ _
  obtain ⟨_, rfl, hnonneg, ⟨-, vote⟩ | heq⟩ := updateVotingPower_cases vote
  · -- the vote is cast again, with the new stake
    obtain ⟨hG', hchoice⟩ : (restaked p).GraphInv ∧ (restaked p).Chooses p.owner
        (changeStake (p.state.voters.find? p.owner) p.total.amount).proxy false :=
      UpdateCall.graph hI.noRex hG (.stake point rfl hnonneg)
    have hframe := (updateVotes_frame vote).staked
    obtain ⟨hkeeps, hown⟩ := updateVotes_weighty (E := E) hfactor hG' hchoice vote
    obtain ⟨voter, hv, hact⟩ := updateVotes_activation vote
    obtain rfl : voter = changeStake (p.state.voters.find? p.owner) p.total.amount :=
      Option.some.inj (hv.symm.trans hrow)
    refine ⟨(restaked_weighty hI.noRex point hframe hmono).trans hkeeps, .inr ⟨_, ?row, ?_, ?_, ?_,
      hown _ hrow⟩⟩
    case row =>
      -- the row that is voted with differs in its stake only
      intro old hold
      rw [hsame.voters, hold]
      exact ⟨⟨rfl, rfl, rfl, rfl⟩, rfl⟩
    · exact hact.trans (congrArg _ hsame.activation)
    · exact (hframe _).trans (stakedOf_some hrow)
    · rw [← Int64.toInt_zero]
      exact Int64.le_iff_toInt_le.mp hnonneg
  · -- an account that has made no choice
    subst heq
    exact ⟨restaked_weighty hI.noRex point (fun _ => rfl) hmono, .inl hsame.activation⟩

/-- Before the activation a call keeps the counted stakes, and counts at most that of the voter. -/
theorem accountStep_weighty {s s' : SystemState F} {call : AccountCall F}
    (hfactor : 0 < E.val (voteFactor call.ctx : F)) (hI : s.StakeInv) (hG : s.GraphInv)
    (htime : s.gstate.threshActivatedStakeTime = 0) (h : s.accountStep call = .ok s') :
    KeepsWeighty E s s' ∧ (s'.activation = s.activation ∨ ∃ a voterName voter,
      systemOf call.action = some a ∧ voterOf a = some voterName ∧
        StakeVote E call.ctx s s' voterName voter) := by
  have hmono := stakedOf_mono hI htime h
  cases accountStep_change hI.noRex h with
  | same same => exact ⟨.of_voters same.voters, .inl same.activation⟩
  | voted voterName proxy producers direct action vote =>
    obtain ⟨hkeeps, hown⟩ := updateVotes_weighty (E := E) hfactor hG (.inl rfl) vote
    obtain ⟨voter, hv, hact⟩ := updateVotes_activation vote
    have hstaked : s.stakedOf voterName = voter.staked.toInt := stakedOf_some hv
    -- the vote counts the stake that the voter has
    have hvote : StakeVote E call.ctx s s' voterName voter := by
      refine ⟨fun old hold => ?_, hact, ?_, hstaked ▸ hI.stakedOf_nonneg voterName, hown voter hv⟩
      · obtain rfl : old = voter := Option.some.inj (hold.symm.trans hv)
        exact ⟨⟨rfl, rfl, rfl, rfl⟩, rfl⟩
      · exact ((updateVotes_frame vote).staked voterName).trans hstaked
    exact ⟨hkeeps, .inr ⟨_, voterName, voter, by rw [action]; rfl, rfl, hvote⟩⟩
  | proxied proxy isproxy direct action reg =>
    exact ⟨regproxy_weighty hfactor hG reg, .inl (regproxy_activation reg)⟩
  -- the vote that is cast again counts the new stake
  | staked a direct action p point u vote token =>
    have hvoters : s'.voters = u.voters := by rw [token]
    have hact : s'.activation = u.activation := by rw [token]; rfl
    -- the transfer of the tokens changes no row of a voter
    have hstaked : ∀ f, s'.stakedOf f = u.stakedOf f := by
      intro f
      unfold stakedOf
      rw [hvoters]
    obtain ⟨hkeeps, hcount⟩ := updateVotingPower_weighty (E := E) hfactor hI hG point
      (fun f => hstaked f ▸ hmono f) vote
    refine ⟨hkeeps.trans (.of_voters hvoters), ?_⟩
    rcases hcount with hsame | ⟨voter, hvote⟩
    · exact .inl (hact.trans hsame)
    · have hvote' : StakeVote E call.ctx s s' p.owner voter :=
        ⟨hvote.row, hact.trans hvote.activation, (hstaked _).trans hvote.staked, hvote.nonneg,
          hvoters ▸ hvote.weighty⟩
      exact .inr ⟨a, p.owner, voter, by rw [action]; rfl, votingPoint_owner hI.noRex point, hvote'⟩
  | status notSystem p active change selfStaked =>
    exact ⟨.of_voters change.voters, .inl change.activation⟩
  | flagged notSystem account v flags1 row limits change =>
    -- a flag is no part of a ballot
    have hkeeps : KeepsWeighty E s
        { s with voters := s.voters.set account { v with flags1 := flags1 } } := by
      apply KeepsWeighty.set
      intro old hold hw
      rcases row with ⟨hnone, -⟩ | hsome
      · rw [hnone] at hold
        cases hold
      · obtain rfl : old = v := Option.some.inj (hold.symm.trans hsome)
        exact hw.of_ballot ⟨rfl, rfl, rfl, rfl⟩ rfl le_rfl
    rw [change]
    exact ⟨hkeeps, .inl rfl⟩

omit [CommRing K] [LinearOrder K] [IsStrictOrderedRing K] in
/-- Nothing is counted after the activation. -/
theorem accountStep_activated {s s' : SystemState F} {call : AccountCall F}
    (hrex : s.rexbalance = ∅) (htime : s.gstate.threshActivatedStakeTime ≠ 0)
    (h : s.accountStep call = .ok s') : s'.activation = s.activation := by
  -- after the activation nothing is counted any more
  have hdone (ctx : Context) (voter : VoterInfo F) :
      activated ctx voter s.activation = s.activation := if_neg htime
  cases accountStep_change hrex h with
  | same same => exact same.activation
  | voted voterName proxy producers direct action vote =>
    obtain ⟨voter, -, hact⟩ := updateVotes_activation vote
    exact hact.trans (hdone _ voter)
  | proxied proxy isproxy direct action reg => exact regproxy_activation reg
  | staked a direct action p point u vote token =>
    -- the blocks before the vote do not activate
    have hsame := (votingPoint_sameVotes hrex point).activation
    have hu : u.activation = s.activation := by
      obtain ⟨v, -, -, ⟨-, vote⟩ | rfl⟩ := updateVotingPower_cases vote
      · obtain ⟨voter, -, hact⟩ := updateVotes_activation vote
        have hact : u.activation = activated call.ctx voter p.state.activation := hact
        rw [hact, hsame, hdone]
      · exact hsame
    rw [token]
    exact hu
  | status notSystem p active change selfStaked => exact change.activation
  | flagged notSystem account v flags1 row limits change =>
    rw [change]
    rfl

/-! ## The record of a run -/

/-- What all voters have staked. -/
def totalStaked (s : SystemState F) : Int := s.voters.sum fun _ v => v.staked.toInt

/-- The stakes that have been added to `total_activated_stake`, and what was staked by all voters
    when the chain was activated. -/
structure ActivationRecord where
  added : List (Name × Int64)
  atActivation : Option Int

def activationRecord (r : ActivationRecord) (s : SystemState F) (call : AccountCall F)
    (s' : SystemState F) : ActivationRecord where
  added :=
    let amount := s'.gstate.totalActivatedStake - s.gstate.totalActivatedStake
    if amount = 0 then r.added
    else (((systemOf call.action).bind voterOf).getD ⟨0⟩, amount) :: r.added
  atActivation :=
    if s.gstate.threshActivatedStakeTime = 0 ∧ s'.gstate.threshActivatedStakeTime ≠ 0 then
      some s'.totalStaked
    else r.atActivation

/-- What is delegated to a registered proxy is not negative, unless the chain is activated. -/
def ProxiesNonneg (s : SystemState F) (_ : AccountCall F) : Prop :=
  s.gstate.threshActivatedStakeTime = 0 →
    ∀ row ∈ s.voters.rows, row.2.isProxy = true → Double.ofInt 0 ≤ row.2.proxiedVoteWeight

instance (s : SystemState F) (call : AccountCall F) : Decidable (s.ProxiesNonneg call) :=
  inferInstanceAs (Decidable (_ → _))

/-- The added stakes are of different voters, and still there. -/
structure StakesCounted (E : ExactReading F K) (s : SystemState F) (added : List (Name × Int64)) :
    Prop where
  once : (added.map Prod.fst).Nodup
  total : s.gstate.totalActivatedStake.toInt ≤ (added.map fun a => a.2.toInt).sum
  kept : ∀ a ∈ added, a.2.toInt ≤ s.stakedOf a.1 ∧
    ∃ v, s.voters.find? a.1 = some v ∧ Weighty E v

omit [IsStrictOrderedRing K] in
/-- So they add up to no more than what is staked. -/
theorem StakesCounted.total_le {s : SystemState F} {added : List (Name × Int64)}
    (h : StakesCounted E s added) (hI : s.StakeInv) :
    s.gstate.totalActivatedStake.toInt ≤ s.totalStaked := by
  have hadded : (added.map fun a => a.2.toInt).sum ≤ (added.map fun a => s.stakedOf a.1).sum :=
    List.sum_le_sum fun a ha => (h.kept a ha).1
  have hmap : (added.map fun a => s.stakedOf a.1) = (added.map Prod.fst).map s.stakedOf := by
    rw [List.map_map]
    rfl
  have hle : ((added.map Prod.fst).map s.stakedOf).sum ≤ s.totalStaked :=
    Table.sum_valueAt_le h.once fun f v hv => by
      have hnonneg := hI.stakedOf_nonneg f
      rw [stakedOf_some hv] at hnonneg
      exact hnonneg
  calc s.gstate.totalActivatedStake.toInt
      ≤ (added.map fun a => a.2.toInt).sum := h.total
    _ ≤ ((added.map Prod.fst).map s.stakedOf).sum := hmap ▸ hadded
    _ ≤ s.totalStaked := hle

omit [IsStrictOrderedRing K] in
/-- Nothing is added. -/
theorem StakesCounted.keep {s s' : SystemState F} {added : List (Name × Int64)}
    (h : StakesCounted E s added) (hmono : ∀ f, s.stakedOf f ≤ s'.stakedOf f)
    (hkeeps : KeepsWeighty E s s')
    (htotal : s'.gstate.totalActivatedStake = s.gstate.totalActivatedStake) :
    StakesCounted E s' added where
  once := h.once
  total := htotal ▸ h.total
  kept := by
    intro a ha
    obtain ⟨hle, v, hv, hw⟩ := h.kept a ha
    exact ⟨hle.trans (hmono a.1), hkeeps a.1 v hv hw⟩

omit [IsStrictOrderedRing K] in
/-- A stake whose voter has a last weight that is not positive has not been added yet. -/
theorem StakesCounted.not_mem {ctx : Context} {s s' : SystemState F} {call : AccountCall F}
    {added : List (Name × Int64)} {voterName : Name} {voter : VoterInfo F}
    (h : StakesCounted E s added) (hproxies : s.ProxiesNonneg call)
    (htime : s.gstate.threshActivatedStakeTime = 0)
    (hvote : StakeVote E ctx s s' voterName voter)
    (hlast : voter.lastVoteWeight ≤ Double.ofInt 0) : voterName ∉ added.map Prod.fst := by
  intro hmem
  obtain ⟨a, ha, rfl⟩ := List.mem_map.mp hmem
  obtain ⟨-, v, hv, hw⟩ := h.kept a ha
  have hpos := hw.last fun hisProxy => by
    have hnonneg := hproxies htime (a.1, v) (Table.mem_rows.mpr hv) hisProxy
    rwa [E.le_iff, E.val_zero] at hnonneg
  rw [E.le_iff, E.val_zero, (hvote.row v hv).1.last] at hlast
  exact absurd hpos (not_lt.mpr hlast)

omit [IsStrictOrderedRing K] in
/-- The stake of the voter is added. -/
theorem StakesCounted.add {ctx : Context} {s s' : SystemState F} {added : List (Name × Int64)}
    {voterName : Name} {voter : VoterInfo F} (h : StakesCounted E s added)
    (hmono : ∀ f, s.stakedOf f ≤ s'.stakedOf f) (hkeeps : KeepsWeighty E s s')
    (hvote : StakeVote E ctx s s' voterName voter) (hnew : voterName ∉ added.map Prod.fst)
    (hpos : 0 < voter.staked.toInt)
    (htotal : s'.gstate.totalActivatedStake = s.gstate.totalActivatedStake + voter.staked) :
    StakesCounted E s' ((voterName, voter.staked) :: added) where
  once := List.nodup_cons.mpr ⟨hnew, h.once⟩
  total := by
    -- a sum that wraps around becomes smaller
    have hcases := Int64.toInt_add_cases s.gstate.totalActivatedStake voter.staked
    have hlo := s.gstate.totalActivatedStake.le_toInt
    have hle := h.total
    rw [htotal, List.map_cons, List.sum_cons]
    show _ ≤ voter.staked.toInt + _
    omega
  kept := by
    intro a ha
    rcases List.mem_cons.mp ha with rfl | ha
    · exact ⟨hvote.staked.ge, hvote.weighty hpos⟩
    · obtain ⟨hle, v, hv, hw⟩ := h.kept a ha
      exact ⟨hle.trans (hmono a.1), hkeeps a.1 v hv hw⟩

/-- Before the activation, a call adds the stake of a voter at most once. -/
theorem StakesCounted.step {s s' : SystemState F} {call : AccountCall F} {r : ActivationRecord}
    (hfactor : 0 < E.val (voteFactor call.ctx : F)) (hI : s.StakeInv) (hG : s.GraphInv)
    (hcounted : StakesCounted E s r.added) (hproxies : s.ProxiesNonneg call)
    (htime : s.gstate.threshActivatedStakeTime = 0) (h : s.accountStep call = .ok s') :
    StakesCounted E s' (activationRecord r s call s').added ∧
      (s'.gstate.threshActivatedStakeTime ≠ 0 →
        minActivatedStake.toInt ≤ s'.gstate.totalActivatedStake.toInt) := by
  -- before the activation no stake shrinks
  have hmono := stakedOf_mono hI htime h
  obtain ⟨hkeeps, hcount⟩ := accountStep_weighty hfactor hI hG htime h
  -- without a change of the total nothing new is on the record
  have hunchanged : s'.gstate.totalActivatedStake = s.gstate.totalActivatedStake →
      StakesCounted E s' (activationRecord r s call s').added := by
    intro htotal
    have hadded : (activationRecord r s call s').added = r.added := by
      show (if s'.gstate.totalActivatedStake - s.gstate.totalActivatedStake = 0 then _ else _) = _
      rw [if_pos (by rw [htotal]; exact Int64.sub_self _)]
    rw [hadded]
    exact hcounted.keep hmono hkeeps htotal
  -- either no vote is counted by the call, or one is
  rcases hcount with hsame | ⟨a, voterName, voter, haction, hvoter, hvote⟩
  · have htotal : s'.gstate.totalActivatedStake = s.gstate.totalActivatedStake :=
      congrArg Prod.fst hsame
    have htime' : s'.gstate.threshActivatedStakeTime = s.gstate.threshActivatedStakeTime :=
      congrArg Prod.snd hsame
    exact ⟨hunchanged htotal, fun hne => absurd (htime'.trans htime) hne⟩
  · have hact := hvote.activation
    rw [activated, if_pos (show s.activation.2 = 0 from htime)] at hact
    have htotal : s'.gstate.totalActivatedStake =
        if voter.lastVoteWeight ≤ Double.ofInt 0 then s.gstate.totalActivatedStake + voter.staked
        else s.gstate.totalActivatedStake := congrArg Prod.fst hact
    have htime' : s'.gstate.threshActivatedStakeTime =
        if minActivatedStake ≤ s'.gstate.totalActivatedStake ∧ minActivatedDate ≤ call.ctx.now then
          call.ctx.now
        else s.gstate.threshActivatedStakeTime := by
      rw [htotal]
      exact congrArg Prod.snd hact
    constructor
    -- a stake is added by the first vote of its owner, unless it is zero
    · by_cases hadds : voter.lastVoteWeight ≤ Double.ofInt 0 ∧ voter.staked ≠ 0
      · rw [if_pos hadds.1] at htotal
        have hpos : 0 < voter.staked.toInt := by
          have hnonneg := hvote.nonneg
          have hne : voter.staked.toInt ≠ 0 := fun hzero => hadds.2 (Int64.toInt_inj.mp hzero)
          omega
        have hamount : s'.gstate.totalActivatedStake - s.gstate.totalActivatedStake = voter.staked := by
          rw [htotal, Int64.add_comm, Int64.add_sub_cancel]
        have hadded : (activationRecord r s call s').added = (voterName, voter.staked) :: r.added := by
          simp only [activationRecord, hamount, haction, Option.bind_some, hvoter, Option.getD_some]
          exact if_neg hadds.2
        rw [hadded]
        exact hcounted.add hmono hkeeps hvote (hcounted.not_mem hproxies htime hvote hadds.1) hpos
          htotal
      · apply hunchanged
        rw [htotal]
        split
        · rename_i hlast
          have hzero : voter.staked = 0 := by
            by_contra hne
            exact hadds ⟨hlast, hne⟩
          rw [hzero, Int64.add_zero]
        · rfl
    · intro hne
      rw [htime'] at hne
      split at hne
      · rename_i hmin
        exact Int64.le_iff_toInt_le.mp hmin.1
      · exact absurd htime hne

/-- The record explains the state, and the chain has been activated by what was staked. -/
structure ActivationInv (E : ExactReading F K) (s : SystemState F) (r : ActivationRecord) : Prop where
  stake : s.StakeInv
  graph : s.GraphInv
  once : (r.added.map Prod.fst).Nodup
  counted : s.gstate.threshActivatedStakeTime = 0 → StakesCounted E s r.added
  activated : ∀ staked ∈ r.atActivation, minActivatedStake.toInt ≤ staked

/-- A call keeps what is known of the activation. -/
theorem ActivationInv.step {s s' : SystemState F} {call : AccountCall F} {r : ActivationRecord}
    (hI : ActivationInv E s r) (hfactor : 0 < E.val (voteFactor call.ctx : F))
    (hproxies : s.ProxiesNonneg call) (h : s.accountStep call = .ok s') :
    ActivationInv E s' (activationRecord r s call s') := by
  have hS := accountStep_stakeInv hI.stake h
  have hG := accountStep_graph hI.stake.noRex hI.graph h
  by_cases htime : s.gstate.threshActivatedStakeTime = 0
  · -- not activated yet: the stakes are counted
    obtain ⟨hcounted, hmin⟩ :=
      (hI.counted htime).step hfactor hI.stake hI.graph hproxies htime h
    refine ⟨hS, hG, hcounted.once, fun _ => hcounted, fun staked hstaked => ?_⟩
    simp only [activationRecord] at hstaked
    split at hstaked
    · rename_i hnow
      obtain rfl := Option.some.inj hstaked
      exact (hmin hnow.2).trans (hcounted.total_le hS)
    · exact hI.activated staked hstaked
  · -- activated: the total and its time stay
    have hsame := accountStep_activated hI.stake.noRex htime h
    have htotal : s'.gstate.totalActivatedStake = s.gstate.totalActivatedStake :=
      congrArg Prod.fst hsame
    have htime' : s'.gstate.threshActivatedStakeTime = s.gstate.threshActivatedStakeTime :=
      congrArg Prod.snd hsame
    have hrecord : activationRecord r s call s' = r := by
      unfold activationRecord
      simp only [htotal, Int64.sub_self, htime, false_and, if_true, if_false]
    rw [hrecord]
    exact ⟨hS, hG, hI.once, fun hzero => absurd (htime'.symm.trans hzero) htime, hI.activated⟩

/-! ## Runs -/

/-- With exact weights, in every run from empty tables in which nothing negative is delegated to a
    registered proxy before the activation: no stake is added twice, until the activation no more
    is added than is staked, and at the activation the minimum is staked. -/
theorem activation_needs_stake (E : ExactReading F K) {s : SystemState F} (hs : s.NoVotes)
    (hzero : s.gstate.totalActivatedStake = 0) {calls : List (AccountCall F)}
    (hfactor : ∀ call ∈ calls, 0 < E.val (voteFactor call.ctx : F))
    (hproxies : Run.Meets accountStep ProxiesNonneg s calls) :
    let p := Run.exec (Run.observed accountStep activationRecord) (s, ⟨[], none⟩) calls
    (p.2.added.map Prod.fst).Nodup ∧
    (p.1.gstate.threshActivatedStakeTime = 0 →
      p.1.gstate.totalActivatedStake.toInt ≤ p.1.totalStaked) ∧
    ∀ staked ∈ p.2.atActivation, minActivatedStake.toInt ≤ staked := by
  intro p
  have hstart : ActivationInv E s ⟨[], none⟩ := by
    refine ⟨hs.toEmptyTables.stakeInv, hs.graphInv, List.nodup_nil, fun _ => ?_, ?_⟩
    · refine ⟨List.nodup_nil, ?_, ?_⟩
      · rw [hzero]
        exact le_rfl
      · intro a ha
        cases ha
    · intro staked hstaked
      cases hstaked
  have hmeets := Run.meets_observed activationRecord ⟨[], none⟩
    ((Run.meets_of_forall hfactor).and hproxies)
  have hI : ActivationInv E p.1 p.2 := by
    apply Run.exec_of_meets (I := fun p => ActivationInv E p.1 p.2) _ hstart hmeets
    intro p call q hI hC hq
    obtain ⟨hstep, hrecord⟩ := Run.observed_eq_ok hq
    rw [hrecord]
    exact hI.step hC.1 hC.2 hstep
  exact ⟨hI.once, fun htime => (hI.counted htime).total_le hI.stake, hI.activated⟩

/-- A run that drops no change of a weight meets the condition. -/
theorem meets_proxiesNonneg {s : SystemState F} (hs : s.NoVotes) {calls : List (AccountCall F)}
    (hfactor : ∀ call ∈ calls, 0 < E.val (voteFactor call.ctx : F))
    (hdrop : Run.Meets accountStep NoDrop s calls) : Run.Meets accountStep ProxiesNonneg s calls := by
  apply Run.Meets.of_invariant (I := TallyInv E) _ _ hs.tallyInv
    ((Run.meets_of_forall hfactor).and hdrop)
  · intro s call s' hI hC h
    exact accountStep_tally hI hC.1 hC.2 h
  · intro s call hI _ row hrow _
    rw [E.le_iff, E.val_zero]
    exact (hI.nonneg row.1 row.2 (Table.mem_rows.mp hrow)).proxied

/-! ## Samples -/

namespace Sample

/-- The first block, and the same time of day some weeks later. -/
def millennium (auth : List Name) (weeks : Int64) : Context := ctx auth (946684800 + 604800 * weeks)

/-- The setup, all of it in the first block. -/
def oldSetup : List (SystemCall Rat) :=
  setup.map fun call => { call with ctx := { call.ctx with now := (millennium [] 0).now } }

def oldStart : SystemState Rat := Run.exec step (genesis 1048576 200000) oldSetup

def dave : Name := Name.ofString "dave"
def erin : Name := Name.ofString "erin"

/-- Alice stakes for somebody else. -/
def endow (receiver : Name) (amount : Int64) : AccountCall Rat :=
  ⟨millennium [alice] 0, .system (.delegatebw alice receiver (utx amount) (utx 0) true) rfl⟩

def choose (voter proxy : Name) (weeks : Int64) : AccountCall Rat :=
  ⟨millennium [voter] weeks, .system (.voteproducer voter proxy []) rfl⟩

def register (proxy : Name) (isproxy : Bool) : AccountCall Rat :=
  ⟨millennium [proxy] 0, .system (.regproxy proxy isproxy) rfl⟩

/-- Dave and erin choose carol, who unregisters and chooses bob. They leave her in different weeks,
    and each time carol's weight has grown by less than one, which is not passed on to bob. When
    carol leaves bob, he loses more than he has got from her. -/
def smallChanges : List (AccountCall Rat) :=
  [endow bob 1, endow carol 50, endow dave 1, endow erin 1, choose bob ⟨0⟩ 0, register bob true,
    choose carol ⟨0⟩ 0, register carol true, choose dave carol 0, choose erin carol 0,
    register carol false, choose carol bob 0, choose dave ⟨0⟩ 1, choose erin ⟨0⟩ 2,
    choose carol ⟨0⟩ 2, choose bob ⟨0⟩ 2]

def recordedStakes (s : SystemState Rat) (calls : List (AccountCall Rat)) :
    SystemState Rat × ActivationRecord :=
  Run.exec (Run.observed accountStep activationRecord) (s, ⟨[], none⟩) calls

/-- Alice gets enough to activate the chain with her vote. -/
def activating : List (AccountCall Rat) :=
  [⟨ctx [eosioAccount] launch,
      .system (.delegatebw eosioAccount alice (utx 800000000007) (utx 800000000008) true) rfl⟩,
    ⟨ctx [alice] launch, .system (.voteproducer alice ⟨0⟩ []) rfl⟩]

end Sample

open Sample in
/-- After the small changes bob's stake is added again, and more is added than is staked. -/
theorem stake_activated_twice :
    let p := recordedStakes oldStart smallChanges
    ¬ (p.2.added.map Prod.fst).Nodup ∧ p.1.gstate.threshActivatedStakeTime = 0 ∧
      p.1.totalStaked < p.1.gstate.totalActivatedStake.toInt := by
  decide +kernel

open Sample in
/-- In the sample, the chain is activated by a stake that suffices. -/
theorem activation_needs_stake_sample :
    let p := recordedStakes start activating
    (p.2.added.map Prod.fst).Nodup ∧ ∃ staked, p.2.atActivation = some staked ∧
      minActivatedStake.toInt ≤ staked := by
  have hfactor : ∀ call ∈ activating, 0 < ExactReading.rational.val (voteFactor call.ctx : Rat) := by
    decide +kernel
  have hproxies : Run.Meets accountStep ProxiesNonneg start activating := by decide +kernel
  obtain ⟨hnodup, -, hmin⟩ := activation_needs_stake ExactReading.rational start_noVotes
    (by decide +kernel) hfactor hproxies
  have hsome : (recordedStakes start activating).2.atActivation.isSome := by decide +kernel
  obtain ⟨staked, hstaked⟩ := Option.isSome_iff_exists.mp hsome
  exact ⟨hnodup, staked, hstaked, hmin staked hstaked⟩

end SystemState

end UxContracts
