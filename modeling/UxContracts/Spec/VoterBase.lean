import UxContracts.Native.Limits
import UxContracts.Spec.StakingBlocks

/-!
# Who votes for whom

The base of a voter's row is all of it but the two weights. The functions that move weight
around keep the base of every row and the status of every producer (`WeightFrame`), so that
`update_votes` changes the base of the voter only, and `regproxy`, `setacct` and a change of
stake that of one account each.
-/

namespace UxContracts

/-- A row of `voters` without its weights. -/
structure VoterBase where
  proxy : Name
  producers : List Name
  staked : Int64
  isProxy : Bool
  flags1 : UInt32

/-- A new row. -/
def VoterBase.new : VoterBase := ⟨⟨0⟩, [], 0, false, 0⟩

def VoterInfo.base {F : Type} (v : VoterInfo F) : VoterBase :=
  ⟨v.proxy, v.producers, v.staked, v.isProxy, v.flags1⟩

namespace SystemState

variable {F : Type}

def baseOf (s : SystemState F) (f : Name) : Option VoterBase :=
  (s.voters.find? f).map VoterInfo.base

/-- Whether a producer is active, and when it was last paid. -/
def statusOf (s : SystemState F) (p : Name) : Option (Bool × TimePoint) :=
  (s.producers.find? p).map fun info => (info.isActive, info.lastClaimTime)

/-- `s'` differs from `s` in weights and votes only. -/
structure WeightFrame (s s' : SystemState F) : Prop where
  base : ∀ f, s'.baseOf f = s.baseOf f
  status : ∀ p, s'.statusOf p = s.statusOf p

namespace WeightFrame

variable {s s' s'' : SystemState F}

theorem refl (s : SystemState F) : WeightFrame s s := ⟨fun _ => rfl, fun _ => rfl⟩

theorem trans (h : WeightFrame s s') (h' : WeightFrame s' s'') : WeightFrame s s'' :=
  ⟨fun f => (h'.base f).trans (h.base f), fun p => (h'.status p).trans (h.status p)⟩

/-- Neither table differs. -/
theorem of_tables (hv : s'.voters = s.voters) (hp : s'.producers = s.producers) :
    WeightFrame s s' :=
  ⟨fun f => by unfold baseOf; rw [hv], fun p => by unfold statusOf; rw [hp]⟩

/-- A row that was there is there, with the same base. -/
theorem row (h : WeightFrame s s') {f : Name} {v : VoterInfo F} (hv : s.voters.find? f = some v) :
    ∃ v', s'.voters.find? f = some v' ∧ v'.base = v.base := by
  have hbase := h.base f
  unfold baseOf at hbase
  rw [hv, Option.map_some, Option.map_eq_some_iff] at hbase
  exact hbase

end WeightFrame

theorem baseOf_some {s : SystemState F} {f : Name} {v : VoterInfo F}
    (h : s.voters.find? f = some v) : s.baseOf f = some v.base := by
  unfold baseOf
  rw [h]
  rfl

theorem baseOf_eq_some {s : SystemState F} {f : Name} {b : VoterBase} :
    s.baseOf f = some b ↔ ∃ v, s.voters.find? f = some v ∧ v.base = b :=
  Option.map_eq_some_iff

/-- Storing a row stores its base. -/
theorem baseOf_set (s : SystemState F) (f : Name) (v : VoterInfo F) (f' : Name) :
    ({ s with voters := s.voters.set f v } : SystemState F).baseOf f' =
      if f' = f then some v.base else s.baseOf f' := by
  unfold baseOf
  show ((s.voters.set f v).find? f').map _ = _
  rw [Table.find?_set]
  split <;> rfl

/-- A row with the base it had. -/
theorem weightFrame_setVoter {s : SystemState F} {f : Name} {v v' : VoterInfo F}
    (h : s.voters.find? f = some v) (hbase : v'.base = v.base) :
    WeightFrame s { s with voters := s.voters.set f v' } := by
  refine ⟨fun f' => ?_, fun _ => rfl⟩
  rw [baseOf_set]
  split
  · rename_i hf
    rw [hf, baseOf_some h, hbase]
  · rfl

/-- Another weight that is delegated to a proxy. -/
theorem weightFrame_setProxied {s : SystemState F} {f : Name} {v : VoterInfo F}
    (h : s.voters.find? f = some v) (w : F) :
    WeightFrame s { s with voters := s.voters.set f { v with proxiedVoteWeight := w } } :=
  weightFrame_setVoter h rfl

/-- The votes of a producer that has a row. -/
theorem weightFrame_setVotes {s s' : SystemState F} {p : Name} {info : ProducerInfo F} {votes : F}
    (h : s.producers.find? p = some info) (hv : s'.voters = s.voters)
    (hp : s'.producers = s.producers.set p { info with totalVotes := votes }) :
    WeightFrame s s' := by
  refine ⟨fun f => by unfold baseOf; rw [hv], fun p' => ?_⟩
  unfold statusOf
  rw [hp, Table.find?_set]
  split
  · rename_i hp
    rw [hp, h]
    rfl
  · rfl

/-! ## Loops over producers -/

variable [Double F]

/-- One round of a loop over producers: the votes of one of them, the totals and its `producers2`
    row are changed. -/
theorem addVotes_weights {ctx : Context} {s : SystemState F} {acc : VpayDelta F} {prod : Name}
    {info : ProducerInfo F} (h : s.producers.find? prod = some info) (votes initial delta : F)
    (gstate : GlobalState F) :
    let s' := (updateVotepay ctx
      { s with producers := s.producers.set prod { info with totalVotes := votes }, gstate := gstate }
      acc prod info.lastClaimTime initial delta).1
    WeightFrame s s' ∧ s'.voters = s.voters := by
  obtain ⟨producers2, heq⟩ := updateVotepay_eq ctx
    { s with producers := s.producers.set prod { info with totalVotes := votes }, gstate := gstate }
    acc prod info.lastClaimTime initial delta
  rw [heq]
  exact ⟨weightFrame_setVotes h rfl rfl, rfl⟩

omit [Double F] in
/-- A loop over producers changes votes only. -/
theorem weightFrame_loopRel :
    LoopRel fun s s' : SystemState F => WeightFrame s s' ∧ s'.voters = s.voters where
  refl s := ⟨.refl s, rfl⟩
  trans h h' := ⟨h.1.trans h'.1, h'.2.trans h.2⟩
  votes _ _ _ _ _ h := ⟨weightFrame_setVotes h rfl rfl, rfl⟩
  votepay _ _ _ _ := ⟨.of_tables rfl rfl, rfl⟩

/-- The loop over producers changes weights only, and no voters. -/
theorem propagateToProducers_weights {ctx : Context} {delta : F} {s s' : SystemState F}
    {acc acc' : VpayDelta F} {producers : List Name}
    (h : propagateToProducers ctx delta s acc producers = .ok (s', acc')) :
    WeightFrame s s' ∧ s'.voters = s.voters :=
  weightFrame_loopRel.propagateToProducers h

/-- The loop over the changes of a vote changes weights only, and no voters. -/
theorem applyDeltas_weights {ctx : Context} {voting : Bool} {s s' : SystemState F}
    {acc acc' : VpayDelta F} {deltas : List (Name × F × Bool)}
    (h : applyDeltas ctx voting s acc deltas = .ok (s', acc')) :
    WeightFrame s s' ∧ s'.voters = s.voters :=
  weightFrame_loopRel.applyDeltas h

/-! ## Weights -/

/-- How the changed weight of a voter is passed on: to its proxy, or to its producers. -/
def passOn (ctx : Context) (depth : Nat) (s : SystemState F) (voter : VoterInfo F) :
    Except String (SystemState F) :=
  let delta := newVoteWeight ctx voter - voter.lastVoteWeight
  if Double.ofInt 1 < Double.fabs delta then
    if voter.proxy.isSet then do
      let proxy ← Table.getRow s.voters voter.proxy "proxy not found"
      let proxied := proxy.proxiedVoteWeight + delta
      let voters := s.voters.set voter.proxy { proxy with proxiedVoteWeight := proxied }
      propagateWeightChange ctx depth { s with voters := voters } voter.proxy
    else do
      let (s, acc) ← propagateToProducers ctx delta s ⟨Double.ofInt 0, Double.ofInt 0⟩ voter.producers
      pure (updateTotalVotepayShare s ctx.now (-acc.totalInactiveVpayShare) acc.deltaChangeRate)
  else pure s

/-- A call passes the weight on and stores it. -/
theorem propagate_eq_ok {ctx : Context} {depth : Nat} {s s' : SystemState F} {owner : Name} :
    propagateWeightChange ctx (depth + 1) s owner = .ok s' ↔
      ∃ voter, s.voters.find? owner = some voter ∧ (¬ voter.proxy.isSet ∨ ¬ voter.isProxy) ∧
        ∃ u, passOn ctx depth s voter = .ok u ∧ ∃ voter', u.voters.find? owner = some voter' ∧
          s' = { u with
            voters := u.voters.set owner
              { voter' with lastVoteWeight := newVoteWeight ctx voter } } := by
  show (Table.getRow s.voters owner _ >>= fun voter => check _ _ >>= fun _ =>
    passOn ctx depth s voter >>= fun u => Table.getRow u.voters owner _ >>= _) = _ ↔ _
  simp only [bind_eq_ok, getRow_eq_ok, check_eq_ok, pure_eq_ok]
  constructor
  · rintro ⟨voter, hv, _, hcheck, u, hu, voter', hv', rfl⟩
    exact ⟨voter, hv, hcheck, u, hu, voter', hv', rfl⟩
  · rintro ⟨voter, hv, hcheck, u, hu, voter', hv', rfl⟩
    exact ⟨voter, hv, (), hcheck, u, hu, voter', hv', rfl⟩

omit [Double F] in
/-- All that a vote writes on its way are weights. -/
theorem weightFrame_votingRel : VotingRel (WeightFrame (F := F)) where
  refl := WeightFrame.refl
  trans := WeightFrame.trans
  votes s _ _ votes total h := (weightFrame_loopRel.votes s votes total h).1
  votepay _ _ _ _ := .of_tables rfl rfl
  weights _ _ _ _ _ h := weightFrame_setVoter h rfl

/-- A propagation changes weights only. -/
theorem propagateWeightChange_weights {ctx : Context} {depth : Nat} {s s' : SystemState F}
    {owner : Name} (h : propagateWeightChange ctx depth s owner = .ok s') : WeightFrame s s' :=
  weightFrame_votingRel.propagateWeightChange h

/-- A weight that is passed on changes weights. -/
theorem passOn_weights {ctx : Context} {depth : Nat} {s u : SystemState F} {voter : VoterInfo F}
    (h : passOn ctx depth s voter = .ok u) : WeightFrame s u := by
  simp only [passOn] at h
  split at h
  · split at h
    · simp only [bind_eq_ok, getRow_eq_ok] at h
      obtain ⟨proxy, hp, h⟩ := h
      exact (weightFrame_setProxied hp _).trans (propagateWeightChange_weights h)
    · simp only [bind_eq_ok, pure_eq_ok] at h
      obtain ⟨⟨u', acc⟩, hloop, rfl⟩ := h
      exact (propagateToProducers_weights hloop).1.trans (.of_tables rfl rfl)
  · exact pure_eq_ok.mp h ▸ .refl s

/-- Counting a stake for the activation changes no weights. -/
theorem activateStake_weights (ctx : Context) (s : SystemState F) (voter : VoterInfo F) :
    WeightFrame s (s.activateStake ctx voter) ∧ (s.activateStake ctx voter).voters = s.voters := by
  unfold activateStake
  split
  · exact ⟨.of_tables rfl rfl, rfl⟩
  · exact ⟨.refl s, rfl⟩

/-- Undoing a vote changes weights only. -/
theorem undoVote_weights {ctx : Context} {s s' : SystemState F} {voter : VoterInfo F}
    {deltas : ProducerDeltas F} (h : s.undoVote ctx voter = .ok (s', deltas)) :
    WeightFrame s s' :=
  weightFrame_votingRel.undoVote h

/-- Casting a vote changes weights only, and finds the proxy. -/
theorem castVote_weights {ctx : Context} {s s' : SystemState F} {deltas deltas' : ProducerDeltas F}
    {proxy : Name} {producers : List Name} {weight : F} {voting : Bool}
    (h : s.castVote ctx deltas proxy producers weight voting = .ok (s', deltas')) :
    WeightFrame s s' ∧ (proxy.isSet → ∃ b, s.baseOf proxy = some b ∧ (voting = true → b.isProxy)) := by
  refine ⟨weightFrame_votingRel.castVote h, fun hset => ?_⟩
  simp only [castVote, if_pos hset, bind_eq_ok, getRow_eq_ok, check_eq_ok] at h
  obtain ⟨np, hp, _, hisProxy, -⟩ := h
  refine ⟨np.base, baseOf_some hp, fun hvoting => ?_⟩
  rcases hisProxy with hno | hyes
  · exact absurd hvoting hno
  · exact hyes

/-! ## Votes -/

/-- What a successful `update_votes` stored for a voter that had the base `b`. -/
structure VoteCast (s : SystemState F) (voterName proxy : Name) (producers : List Name)
    (voting : Bool) (b : VoterBase) : Prop where
  base : s.baseOf voterName = some b
  checked : checkVote voterName proxy producers = .ok ()
  notProxy : proxy.isSet → b.isProxy = false
  proxy : proxy.isSet → ∃ pb, s.baseOf proxy = some pb ∧ (voting = true → pb.isProxy)

/-- `update_votes` changes the choice of the voter. -/
theorem updateVotes_base {ctx : Context} {s s' : SystemState F} {voterName proxy : Name}
    {producers : List Name} {voting : Bool}
    (h : s.updateVotes ctx voterName proxy producers voting = .ok s') :
    ∃ b, VoteCast s voterName proxy producers voting b ∧
      (∀ f, s'.baseOf f = if f = voterName then some { b with proxy := proxy, producers := producers }
        else s.baseOf f) ∧ ∀ p, s'.statusOf p = s.statusOf p := by
  obtain ⟨hcheck, voter, hv, hnot, s₁, d₁, hundo, s₂, d₂, hcast, s₃, acc, happly, _, rfl, voter',
    hv', rfl⟩ := updateVotes_eq_ok.mp h
  -- none of the parts before the row writes a ballot
  have h₁ := (activateStake_weights ctx s voter).1.trans (undoVote_weights hundo)
  obtain ⟨hframe, hproxy⟩ := castVote_weights hcast
  have h₃ := (h₁.trans hframe).trans (applyDeltas_weights happly).1
  have h₄ : WeightFrame s (s₃.updateTotalVotepayShare ctx.now (-acc.totalInactiveVpayShare)
      acc.deltaChangeRate) := h₃.trans (.of_tables rfl rfl)
  -- so the row that is written has the ballot from before
  have hbase : voter'.base = voter.base := by
    have hrow := h₄.base voterName
    rw [baseOf_some hv', baseOf_some hv, Option.some.injEq] at hrow
    exact hrow
  refine ⟨voter.base, ⟨baseOf_some hv, hcheck, fun hset => ?_, fun hset => ?_⟩, fun f => ?_, fun p => ?_⟩
  · -- who votes by a proxy is none
    rcases hnot with hno | hno
    · exact absurd hset hno
    · exact eq_false_of_ne_true hno
  · -- and the proxy has its row
    obtain ⟨pb, hpb, hvoting⟩ := hproxy hset
    rw [h₁.base] at hpb
    exact ⟨pb, hpb, hvoting⟩
  · -- the new ballot is the one of the call
    rw [baseOf_set]
    split
    · show some { voter'.base with proxy := proxy, producers := producers } = _
      rw [hbase]
    · exact h₄.base f
  · exact h₄.status p

/-- The base of a voter's row after its stake has changed by `amount`. -/
def changeBase (b : Option VoterBase) (amount : Int64) : VoterBase :=
  match b with
  | none => { VoterBase.new with staked := amount }
  | some b => { b with staked := b.staked + amount }

theorem base_changeStake (voter : Option (VoterInfo F)) (amount : Int64) :
    (changeStake voter amount).base = changeBase (voter.map VoterInfo.base) amount := by
  cases voter with
  | none => rfl
  | some v => rfl

/-- A change of stake changes the base of the voter by it. -/
theorem updateVotingPower_base {ctx : Context} {s s' : SystemState F} {voter : Name} {total : Asset}
    (h : s.updateVotingPower ctx voter total = .ok s') :
    (∀ f, s'.baseOf f = if f = voter then some (changeBase (s.baseOf voter) total.amount)
      else s.baseOf f) ∧ ∀ p, s'.statusOf p = s.statusOf p := by
  obtain ⟨v, hrow, -, h⟩ := updateVotingPower_cases h
  have hv := base_changeStake (s.voters.find? voter) total.amount
  rw [← hrow] at hv
  -- the stake is written, and the ballot kept
  have hnew : ∀ f, ({ s with voters := s.voters.set voter v } : SystemState F).baseOf f =
      if f = voter then some (changeBase (s.baseOf voter) total.amount) else s.baseOf f := by
    intro f
    rw [baseOf_set, hv]
    rfl
  obtain ⟨-, h⟩ | rfl := h
  · -- the vote is cast again as it was
    obtain ⟨b, hcast, hbase, hstatus⟩ := updateVotes_base h
    refine ⟨fun f => ?_, hstatus⟩
    have hb := hcast.base
    rw [baseOf_set, if_pos rfl, Option.some.injEq] at hb
    rw [hbase, ← hnew f]
    split
    · rename_i hf
      rw [hf, baseOf_set, if_pos rfl, ← hb]
      rfl
    · rfl
  · exact ⟨hnew, fun _ => rfl⟩

/-- Registration as a proxy changes the base of one row, which may be new. -/
theorem regproxy_base {ctx : Context} {s s' : SystemState F} {proxy : Name} {isproxy : Bool}
    (h : s.regproxy ctx proxy isproxy = .ok s') :
    ∃ b, ((s.baseOf proxy = none ∧ b = VoterBase.new) ∨ s.baseOf proxy = some b) ∧
      (isproxy = true → ¬ b.proxy.isSet) ∧
      (∀ f, s'.baseOf f = if f = proxy then some { b with isProxy := isproxy } else s.baseOf f) ∧
      ∀ p, s'.statusOf p = s.statusOf p := by
  obtain ⟨voter, hv, hnot, h⟩ | ⟨hv, rfl⟩ := regproxy_cases h
  · have hframe := propagateWeightChange_weights h
    refine ⟨voter.base, .inr (baseOf_some hv), fun hyes => ?_, fun f => ?_, hframe.status⟩
    · rcases hnot with hno | hno
      · exact absurd hyes hno
      · exact hno
    · rw [hframe.base, baseOf_set]
      rfl
  · refine ⟨VoterBase.new, .inl ⟨?_, rfl⟩, fun _ => by decide, fun f => ?_, fun _ => rfl⟩
    · unfold baseOf
      rw [hv]
      rfl
    · rw [baseOf_set]
      rfl

end SystemState

end UxContracts
