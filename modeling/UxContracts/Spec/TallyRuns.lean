import UxContracts.Spec.VoteTallies

/-!
# Tallies in every run

Every call leaves no gap in the tallies of votes (`accountStep_tally`): a vote and a change of a
stake end in `update_votes`, a proxy registers or unregisters with one propagation, and the other
calls do not touch a weight. So the tallies are exact sums in every state that a run reaches
(`vote_tallies`).
-/

namespace UxContracts

open Chain

namespace SystemState

variable {F K : Type} [Double F] [CommRing K] [LinearOrder K]

/-! ## Rows with the same weights -/

/-- The rows have the same choice and the same weights. -/
structure SameBallot (v v' : VoterInfo F) : Prop where
  proxy : v'.proxy = v.proxy
  producers : v'.producers = v.producers
  last : v'.lastVoteWeight = v.lastVoteWeight
  proxied : v'.proxiedVoteWeight = v.proxiedVoteWeight

/-- Storing a row with the same weights, or a new one, opens no gap. -/
theorem SameGaps.of_ballot {E : ExactReading F K} {s : SystemState F} {f : Name}
    {v v' : VoterInfo F}
    (hrow : (s.voters.find? f = none ∧ v = VoterInfo.new) ∨ s.voters.find? f = some v)
    (h : SameBallot v v') : SameGaps E s { s with voters := s.voters.set f v' } := by
  -- the two rows have the same ballot
  have hlink : v'.base.link = v.base.link := by
    show (if v'.proxy.isSet then some v'.proxy else none) = _
    rw [h.proxy]
    rfl
  refine ⟨fun a => ?_, fun p => ?_, rfl⟩
  · -- what the voter adds to the sums stays
    have hold : s.voters.valueAt f (toProxy E a) = toProxy E a v' := by
      unfold toProxy
      rw [hlink, h.last]
      rcases hrow with ⟨hnone, rfl⟩ | hsome
      · rw [Table.valueAt_none hnone]
        exact (if_neg nofun).symm
      · rw [Table.valueAt_some hsome]
    -- and so does the weight that it has as a proxy
    have hproxied : E.val v'.proxiedVoteWeight = s.proxiedOf E f := by
      rw [h.proxied, proxiedOf]
      rcases hrow with ⟨hnone, rfl⟩ | hsome
      · rw [Table.valueAt_none hnone]
        exact E.val_zero
      · rw [Table.valueAt_some hsome]
    rw [proxyGap_set, hold, hproxied]
    simp
  · have hold : s.voters.valueAt f (toProducer E p) = toProducer E p v' := by
      unfold toProducer
      rw [h.producers, h.last]
      rcases hrow with ⟨hnone, rfl⟩ | hsome
      · rw [Table.valueAt_none hnone]
        exact (if_neg List.not_mem_nil).symm
      · rw [Table.valueAt_some hsome]
    rw [votesGap_set, hold]
    simp

/-- A row that keeps its ballot keeps its weights. -/
theorem NonnegWeights.of_ballot {E : ExactReading F K} {s : SystemState F} {f : Name}
    {v v' : VoterInfo F} (hs : NonnegWeights E s)
    (hrow : (s.voters.find? f = none ∧ v = VoterInfo.new) ∨ s.voters.find? f = some v)
    (h : SameBallot v v') (hstaked : 0 ≤ v'.staked.toInt) :
    NonnegWeights E { s with voters := s.voters.set f v' } := by
  have hv : 0 ≤ E.val v.lastVoteWeight ∧ 0 ≤ E.val v.proxiedVoteWeight := by
    rcases hrow with ⟨-, rfl⟩ | hsome
    · exact ⟨E.val_zero.ge, E.val_zero.ge⟩
    · exact ⟨(hs f v hsome).last, (hs f v hsome).proxied⟩
  exact hs.set ⟨hstaked, h.last ▸ hv.1, h.proxied ▸ hv.2⟩

/-- The status of a producer is no part of the tallies; a new producer has no votes. -/
theorem StatusChange.gaps {E : ExactReading F K} {s s' : SystemState F} {p : Name} {active : Bool}
    (h : StatusChange s s' p active) : SameGaps E s s' := by
  obtain ⟨info', hrow, -, hinfo⟩ := h.row
  -- the votes of the producer stay
  have hold : E.val info'.totalVotes = s.votesOf E p := by
    unfold votesOf
    rcases hinfo with ⟨hnone, hzero⟩ | ⟨info, hsome, hsame⟩
    · rw [Table.valueAt_none hnone, hzero, E.val_zero]
    · rw [Table.valueAt_some hsome, hsame]
  refine ⟨fun a => ?_, fun q => ?_, ?_⟩
  · -- no voter is written
    unfold proxyGap proxiedOf
    rw [h.voters]
  · have hvotes : s'.votesOf E q = s.votesOf E q := by
      show s'.producers.valueAt q _ = _
      rw [hrow, Table.valueAt_set]
      split
      · rename_i hq
        rw [hold, hq]
      · rfl
    unfold votesGap
    rw [h.voters, hvotes]
  · -- and the total stays
    unfold totalGap
    rw [hrow, h.total, Table.sum_set, hold]
    unfold votesOf Table.valueAt
    ring

/-! ## Calls -/

/-- The registration that an action makes, or takes back. -/
def registrationOf : AccountAction F → Option (Name × Bool)
  | .system (.regproxy proxy isproxy) _ => some (proxy, isproxy)
  | _ => none

def systemOf : AccountAction F → Option (SystemAction F)
  | .system a _ => some a
  | _ => none

/-- The state in which a changed stake is voted with. -/
def restaked (p : VotingPoint F) : SystemState F :=
  { p.state with
    voters := p.state.voters.set p.owner
      (changeStake (p.state.voters.find? p.owner) p.total.amount) }

/-- No change of a weight is dropped in a call. -/
def CallPasses (s : SystemState F) (call : AccountCall F) : Prop :=
  (∀ v ∈ voteOf call.action, VotePasses call.ctx s v.voterName v.proxy) ∧
  (∀ r ∈ registrationOf call.action, ∀ voter ∈ s.voters.find? r.1,
    PassesOn call.ctx s.proxyDepth
      { s with voters := s.voters.set r.1 { voter with isProxy := r.2 } } r.1) ∧
  ∀ a ∈ systemOf call.action, ∀ p ∈ (votingPoint call.ctx s a).toOption,
    ∀ v ∈ (restaked p).voters.find? p.owner, v.producers.length ≠ 0 ∨ v.proxy.isSet →
      VotePasses call.ctx (restaked p) p.owner v.proxy

/-- No change of a weight is dropped in a call that succeeds. -/
def NoDrop (s : SystemState F) (call : AccountCall F) : Prop :=
  (s.accountStep call).isOk = true → CallPasses s call

instance (s : SystemState F) (call : AccountCall F) : Decidable (s.NoDrop call) :=
  inferInstanceAs (Decidable (_ = true → _ ∧ _ ∧ _))

variable [IsStrictOrderedRing K]

structure TallyInv (E : ExactReading F K) (s : SystemState F) : Prop where
  stake : s.StakeInv
  votes : s.VotesInv
  gaps : NoGaps E s
  nonneg : NonnegWeights E s

variable {E : ExactReading F K}

omit [CommRing K] [LinearOrder K] [IsStrictOrderedRing K] in
theorem toOption_of_ok {ε α : Type} {x : Except ε α} {a : α} (h : x = .ok a) : a ∈ x.toOption := by
  rw [h]
  rfl

omit [IsStrictOrderedRing K] in
/-- A state in which the stake of the owner is changed, and is not negative. -/
theorem TallyInv.restaked {ctx : Context} {s : SystemState F} (hI : TallyInv E s)
    {a : SystemAction F} {p : VotingPoint F} (hp : votingPoint ctx s a = .ok p)
    (hstaked : 0 ≤ (changeStake (p.state.voters.find? p.owner) p.total.amount).staked) :
    (restaked p).VotesInv ∧ NoGaps E (restaked p) ∧ NonnegWeights E (restaked p) := by
  have hsame := votingPoint_sameVotes hI.stake.noRex hp
  have hvotes := hI.votes.of_weights hsame.weights
  have hnonneg := hI.nonneg.of_voters hsame.voters
  -- the row differs in its stake only
  have hrow : ∃ v, ((p.state.voters.find? p.owner = none ∧ v = VoterInfo.new) ∨
      p.state.voters.find? p.owner = some v) ∧
      SameBallot v (changeStake (p.state.voters.find? p.owner) p.total.amount) := by
    cases hfind : p.state.voters.find? p.owner with
    | none => exact ⟨_, .inl ⟨rfl, rfl⟩, ⟨rfl, rfl, rfl, rfl⟩⟩
    | some v => exact ⟨v, .inr rfl, ⟨rfl, rfl, rfl, rfl⟩⟩
  obtain ⟨v, hv, hballot⟩ := hrow
  have hle := Int64.le_iff_toInt_le.mp hstaked
  rw [Int64.toInt_zero] at hle
  refine ⟨?_, ?_, hnonneg.of_ballot hv hballot hle⟩
  · -- the vote is as before
    have hbase : ∀ g, (SystemState.restaked p).baseOf g = if g = p.owner then
        some (changeBase (p.state.baseOf p.owner) p.total.amount) else p.state.baseOf g := by
      intro g
      unfold SystemState.restaked
      rw [baseOf_set, base_changeStake]
      rfl
    exact hvotes.changeStake (fun _ => rfl) hbase
  · exact (hI.gaps.of_same hsame.gaps).of_same (SameGaps.of_ballot hv hballot)

/-- Registering as a proxy passes the proxied weight on, and leaves no gap. -/
theorem regproxy_tally {ctx : Context} (hfactor : 0 < E.val (voteFactor ctx : F))
    {s s' : SystemState F} {proxy : Name} {isproxy : Bool} (hI : TallyInv E s)
    (hpass : ∀ voter ∈ s.voters.find? proxy, PassesOn ctx s.proxyDepth
      { s with voters := s.voters.set proxy { voter with isProxy := isproxy } } proxy)
    (h : s.regproxy ctx proxy isproxy = .ok s') : NoGaps E s' ∧ NonnegWeights E s' := by
  obtain ⟨voter, hv, hnot, h⟩ | ⟨hnone, rfl⟩ := regproxy_cases h
  · -- the row of the proxy is written, and its new weight passed on
    let t : SystemState F := { s with voters := s.voters.set proxy { voter with isProxy := isproxy } }
    have hballot : SameBallot voter { voter with isProxy := isproxy } := ⟨rfl, rfl, rfl, rfl⟩
    have hgaps : NoGaps E t := hI.gaps.of_same (SameGaps.of_ballot (.inr hv) hballot)
    have hnonneg : NonnegWeights E t :=
      hI.nonneg.of_ballot (.inr hv) hballot (hI.nonneg proxy voter hv).staked
    have hb := baseOf_some hv
    have hbase : ∀ f, t.baseOf f =
        if f = proxy then some { voter.base with isProxy := isproxy } else s.baseOf f :=
      baseOf_set s proxy { voter with isProxy := isproxy }
    have hgraph : t.GraphInv := hI.votes.toGraphInv.register hv hnot
    have hvotes : t.VotesInv := hI.votes.update hgraph (fun _ => rfl) hbase
      (hI.votes.checked proxy voter.base hb) (hI.votes.known proxy voter.base hb)
    exact ⟨hgaps.of_same (propagate_tally hvotes (hpass voter hv) h),
      propagate_nonneg hfactor hvotes hnonneg (fun a _ => hgaps.proxy a) h⟩
  · -- a new row
    have hballot : SameBallot (VoterInfo.new : VoterInfo F) { VoterInfo.new with isProxy := isproxy } :=
      ⟨rfl, rfl, rfl, rfl⟩
    exact ⟨hI.gaps.of_same (SameGaps.of_ballot (.inl ⟨hnone, rfl⟩) hballot),
      hI.nonneg.of_ballot (.inl ⟨hnone, rfl⟩) hballot le_rfl⟩

/-- Every call leaves the tallies exact, if it drops no change of a weight. -/
theorem accountStep_tally {s s' : SystemState F} {call : AccountCall F} (hI : TallyInv E s)
    (hfactor : 0 < E.val (voteFactor call.ctx : F)) (hdrop : s.NoDrop call)
    (h : s.accountStep call = .ok s') : TallyInv E s' := by
  have hpass : s.CallPasses call := hdrop (Run.isOk_of_ok h)
  -- exact weights are not negative, so every vote is cast with a known weight
  have hcasts : s.CastsKnown call := by
    intro _ v hv
    refine .inr (.inr fun voter hvoter => ?_)
    rw [E.le_iff, E.val_zero]
    exact newVoteWeight_nonneg E hfactor (hI.nonneg _ voter hvoter)
  have hrex := hI.stake.noRex
  -- the two other parts hold for every run
  suffices hend : NoGaps E s' ∧ NonnegWeights E s' from
    ⟨accountStep_stakeInv hI.stake h, accountStep_votes hrex hI.votes hcasts h, hend.1, hend.2⟩
  cases accountStep_change hrex h with
  | same same => exact ⟨hI.gaps.of_same same.gaps, hI.nonneg.of_voters same.voters⟩
  | voted voterName proxy producers direct action vote =>
    have hvoteOf : voteOf call.action = some ⟨voterName, proxy, producers⟩ := by
      rw [action]
      rfl
    -- a vote is counted with the weight that it has now
    exact updateVotes_tally hfactor hI.votes hI.nonneg hI.gaps (.inl rfl) (hpass.1 _ hvoteOf) vote
  | proxied proxy isproxy direct action reg =>
    have hreg : registrationOf call.action = some (proxy, isproxy) := by
      -- a registration changes the weight of the proxy
      rw [action]
      rfl
    exact regproxy_tally hfactor hI (hpass.2.1 _ hreg) reg
  | staked a direct action p point u vote token =>
    have hsystem : systemOf call.action = some a := by
      rw [action]
      rfl
    obtain ⟨_, rfl, hstaked, vote⟩ := updateVotingPower_cases vote
    -- the stake is written first, and the vote is cast again
    obtain ⟨hvotes, hgaps, hnonneg⟩ := hI.restaked point hstaked
    have hrow : (restaked p).voters.find? p.owner =
        some (changeStake (p.state.voters.find? p.owner) p.total.amount) := Table.find?_set_self _ _ _
    have hu : NoGaps E u ∧ NonnegWeights E u := by
      obtain ⟨hchosen, vote⟩ | vote := vote
      · have hchoice : (restaked p).Chooses p.owner
            (changeStake (p.state.voters.find? p.owner) p.total.amount).proxy false := by
          refine .inr fun hset => ?_
          rw [proxyOf_some hrow]
          exact VoterBase.link_eq_some.mpr ⟨rfl, hset⟩
        exact updateVotes_tally hfactor hvotes hnonneg hgaps hchoice
          (hpass.2.2 a hsystem p (toOption_of_ok point) _ hrow hchosen) vote
      · exact vote ▸ ⟨hgaps, hnonneg⟩
    rw [token]
    exact ⟨hu.1.of_same ⟨fun _ => rfl, fun _ => rfl, rfl⟩, hu.2⟩
  | status notSystem p active change selfStaked =>
    -- no vote changes with the status of a producer
    exact ⟨hI.gaps.of_same change.gaps, hI.nonneg.of_voters change.voters⟩
  | flagged notSystem account v flags1 row limits change =>
    -- nor with the flags of an account
    have hballot : SameBallot v { v with flags1 := flags1 } := ⟨rfl, rfl, rfl, rfl⟩
    have hstaked : 0 ≤ v.staked.toInt := by
      rcases row with ⟨-, rfl⟩ | hrow
      · exact le_rfl
      · exact (hI.nonneg account v hrow).staked
    have hgaps := hI.gaps.of_same (SameGaps.of_ballot row hballot)
    rw [change]
    exact ⟨hgaps.of_same ⟨fun _ => rfl, fun _ => rfl, rfl⟩, hI.nonneg.of_ballot row hballot hstaked⟩

/-! ## Runs -/

omit [IsStrictOrderedRing K] in
theorem NoVotes.tallyInv {s : SystemState F} (h : s.NoVotes) : TallyInv E s where
  stake := h.toEmptyTables.stakeInv
  votes := h.votesInv
  gaps := by
    refine ⟨fun a => ?_, fun p => ?_, ?_⟩
    · unfold proxyGap proxiedOf
      rw [h.voters]
      exact sub_zero 0
    · unfold votesGap votesOf
      rw [h.voters, h.producers]
      exact sub_zero 0
    · unfold totalGap
      rw [h.producers, h.total, E.val_zero]
      exact sub_zero 0
  nonneg := by
    intro f v hf
    rw [h.voters, Table.find?_empty] at hf
    cases hf

/-- With exact weights, in every state that a run reaches from empty tables without dropping a
    change of a weight, each tally of votes is the sum of what has been voted. The next vote clamps
    no votes either. -/
theorem vote_tallies (E : ExactReading F K) {s : SystemState F} (hs : s.NoVotes)
    {calls : List (AccountCall F)} (hfactor : ∀ call ∈ calls, 0 < E.val (voteFactor call.ctx : F))
    (hdrop : Run.Meets accountStep NoDrop s calls) :
    let u := Run.exec accountStep s calls
    (∀ p info, u.producers.find? p = some info → E.val info.totalVotes =
      u.voters.sum fun _ v => if p ∈ v.producers then E.val v.lastVoteWeight else 0) ∧
    (∀ a v, u.voters.find? a = some v → E.val v.proxiedVoteWeight =
      u.voters.sum fun _ w => if w.proxy = a ∧ a.isSet then E.val w.lastVoteWeight else 0) ∧
    E.val u.gstate.totalProducerVoteWeight =
      u.producers.sum (fun _ info => E.val info.totalVotes) ∧
    ∀ ctx t voterName proxy producers voting, 0 < E.val (voteFactor ctx : F) →
      UpdateCall ctx u t voterName proxy producers voting → VotePasses ctx t voterName proxy →
      ∀ voter w deltas, VoteLoop ctx t voterName proxy producers voting voter w deltas →
      ∀ done p d b rest, deltas.rows = done ++ (p, d, b) :: rest →
      ∀ acc x, applyDeltas ctx voting w ⟨Double.ofInt 0, Double.ofInt 0⟩ done = .ok (x, acc) →
      ∀ info, x.producers.find? p = some info → ¬ info.totalVotes + d < Double.ofInt 0 := by
  intro u
  -- the invariant holds at the end of the run
  have hI : TallyInv E u := by
    have hmeets := (Run.meets_of_forall hfactor).and hdrop
    exact Run.exec_of_meets (I := TallyInv E)
      (fun _ _ _ hI hC h => accountStep_tally hI hC.1 hC.2 h) hs.tallyInv hmeets
  refine ⟨fun p info hinfo => ?_, fun a v hv => ?_, sub_eq_zero.mp hI.gaps.total, ?_⟩
  · -- the votes of a producer
    have hgap := sub_eq_zero.mp (hI.gaps.votes p)
    rw [votesOf, Table.valueAt_some hinfo] at hgap
    exact hgap
  · -- the weight that a proxy has been given
    have hgap := sub_eq_zero.mp (hI.gaps.proxy a)
    rw [proxiedOf, Table.valueAt_some hv] at hgap
    rw [hgap]
    apply Table.sum_congr
    intro f w hw
    unfold toProxy
    simp only [VoterBase.link_eq_some]
    rfl
  · intro ctx t voterName proxy producers voting hnow hupdate hpass voter w deltas hloop done p d b
      rest hrows acc x happly info hinfo
    obtain ⟨-, hchoice⟩ := hupdate.graph hI.stake.noRex hI.votes.toGraphInv
    -- the next vote, or the next change of stake
    obtain ⟨hvotes, hgaps, hnonneg⟩ : t.VotesInv ∧ NoGaps E t ∧ NonnegWeights E t := by
      cases hupdate with
      | vote => exact ⟨hI.votes, hI.gaps, hI.nonneg⟩
      | stake point row nonneg =>
        subst row
        exact hI.restaked point nonneg
    -- the sums of the loop are exact, so none of them falls below zero
    have hL := hloop.tally hnow hvotes hnonneg hgaps hchoice hpass
    exact hloop.unclamped hvotes hL hrows happly hinfo

/-- A week in September 2020 and one in March 2021. -/
def Sample.spring : Int64 := 1615000000

def Sample.carol : Name := Name.ofString "carol"

/-- Bob registers as a producer. Alice chooses carol as her proxy, who votes for bob, and adds to
    her stake half a year later. -/
def Sample.voting : List (AccountCall Rat) :=
  [⟨ctx [eosioAccount] launch,
      .system (.delegatebw eosioAccount bob (utx 50000000000) (utx 50000000000) true) rfl⟩,
    ⟨ctx [bob] launch, .regproducer bob "https://bob"⟩,
    ⟨ctx [alice] launch, .system (.delegatebw alice alice (utx 75) (utx 25) false) rfl⟩,
    ⟨ctx [carol] launch, .system (.regproxy carol true) rfl⟩,
    ⟨ctx [alice] launch, .system (.voteproducer alice carol []) rfl⟩,
    ⟨ctx [carol] launch, .system (.voteproducer carol ⟨0⟩ [bob]) rfl⟩,
    ⟨ctx [alice] spring, .system (.delegatebw alice alice (utx 0) (utx 50) false) rfl⟩]

open Sample in
/-- In the sample, the votes for bob are the weight of the proxy, which is that of alice. -/
theorem vote_tallies_sample :
    let u := Run.exec accountStep start voting
    ∃ info, u.producers.find? bob = some info ∧ 0 < info.totalVotes ∧ info.totalVotes =
      u.voters.sum fun _ v => if bob ∈ v.producers then v.lastVoteWeight else 0 := by
  intro u
  have hfactor : ∀ call ∈ voting,
      0 < ExactReading.rational.val (voteFactor call.ctx : Rat) := by
    decide +kernel
  have hdrop : Run.Meets accountStep NoDrop start voting := by decide +kernel
  obtain ⟨hvotes, -⟩ := vote_tallies ExactReading.rational start_noVotes hfactor hdrop
  have hpos : (u.producers.find? bob).any fun info => decide (0 < info.totalVotes) := by
    decide +kernel
  obtain ⟨info, hinfo, hlt⟩ := (Option.any_eq_true _ _).mp hpos
  exact ⟨info, hinfo, of_decide_eq_true hlt, hvotes bob info hinfo⟩

end SystemState

end UxContracts
