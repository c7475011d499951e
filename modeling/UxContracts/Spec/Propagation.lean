import UxContracts.Spec.ProxyGraph

/-!
# Passing on a changed weight

`propagate_weight_change` follows the links to proxies. It comes to an end on a graph without
cycles (`propagate_depth`), and it changes only the rows that it comes to (`propagate_other`).
The chain of a voter's old proxy, or of its new one, does not come back to the voter, so
`update_votes` finds the row of the voter as it was (`updateVotes_row`).
-/

namespace UxContracts

open Chain

namespace SystemState

variable {F : Type} [Double F]

/-! ## The end of a propagation -/

/-- The loop over producers can only miss a row. -/
theorem propagateToProducers_error {ctx : Context} {delta : F} {s : SystemState F}
    {acc : VpayDelta F} {producers : List Name} {e : String}
    (h : propagateToProducers ctx delta s acc producers = .error e) : e = "producer not found" := by
  induction producers generalizing s acc with
  | nil => cases h
  | cons acnt rest ih =>
    simp only [propagateToProducers, bind_eq_error, getRow_eq_error] at h
    rcases h with ⟨-, he⟩ | ⟨prod, -, h⟩
    · exact he
    · exact ih h

/-- Any depth above the height of the owner gives the same, and is not exceeded. -/
theorem propagate_depth {ctx : Context} {rank : Name → Nat} {keys : List Name} {depth depth' : Nat}
    {s : SystemState F} {owner : Name} (hfall : Falls s.proxyOf rank)
    (hkeys : ∀ f v, s.voters.find? f = some v → f ∈ keys)
    (hdepth : height keys rank owner < depth) (hdepth' : height keys rank owner < depth') :
    propagateWeightChange ctx depth s owner = propagateWeightChange ctx depth' s owner ∧
      propagateWeightChange ctx depth s owner ≠ .error "call depth exceeded" := by
  -- induction on the depth, which is enough for the rank
  induction depth generalizing depth' s owner with
  | zero => omega
  | succ depth ih =>
    obtain ⟨d, rfl⟩ : ∃ d, depth' = d + 1 := ⟨depth' - 1, by omega⟩
    -- the proxy ranks below the owner, so the call for it has depth to spare
    have hcall : ∀ voter proxy w, s.voters.find? owner = some voter → voter.proxy.isSet →
        s.voters.find? voter.proxy = some proxy →
        let voters := s.voters.set voter.proxy { proxy with proxiedVoteWeight := w }
        propagateWeightChange ctx depth { s with voters := voters } voter.proxy =
            propagateWeightChange ctx d { s with voters := voters } voter.proxy ∧
          propagateWeightChange ctx depth { s with voters := voters } voter.proxy ≠
            .error "call depth exceeded" := by
      intro voter proxy w hv hset hp voters
      have hlt : rank voter.proxy < rank owner := by
        apply hfall
        rw [proxyOf_some hv]
        exact VoterBase.link_eq_some.mpr ⟨rfl, hset⟩
      have hheight := height_lt (hkeys owner voter hv) hlt
      have hframe : WeightFrame s { s with voters := voters } := weightFrame_setProxied hp w
      apply ih
      · rw [hframe.proxyOf]
        exact hfall
      · intro f v hf
        by_cases hfp : f = voter.proxy
        · exact hfp ▸ hkeys voter.proxy proxy hp
        · rw [Table.find?_set_ne _ _ hfp] at hf
          exact hkeys f v hf
      · omega
      · omega
    -- both calls go the same way, up to the call for the proxy
    constructor
    · simp only [propagateWeightChange]
      refine bind_congr_of_ok fun voter hv => bind_congr_of_ok fun _ _ => ?_
      refine congrArg (· >>= _) ?_
      split
      · split
        · rename_i hset
          refine bind_congr_of_ok fun proxy hp => ?_
          exact (hcall voter proxy _ (getRow_eq_ok.mp hv) hset (getRow_eq_ok.mp hp)).1
        · rfl
      · rfl
    · -- and the error does not come from the depth
      intro herr
      simp only [propagateWeightChange, bind_eq_error, getRow_eq_ok, getRow_eq_error,
        check_eq_error, pure_ne_error] at herr
      rcases herr with ⟨-, he⟩ | ⟨voter, hv, ⟨-, he⟩ | ⟨_, -, h | ⟨_, -, ⟨-, he⟩ | h⟩⟩⟩
      · simp at he
      · simp at he
      · split at h
        · split at h
          · rename_i hset
            simp only [bind_eq_error, getRow_eq_ok, getRow_eq_error] at h
            rcases h with ⟨-, he⟩ | ⟨proxy, hp, h⟩
            · simp at he
            · exact (hcall voter proxy _ hv hset hp).2 h
          · simp only [bind_eq_error, pure_ne_error, and_false, exists_false, or_false] at h
            have he := propagateToProducers_error h
            simp at he
        · exact pure_ne_error.mp h
      · simp at he
      · obtain ⟨_, -, h⟩ := h
        exact h

/-! ## The rows that a propagation comes to -/

/-- A call for `owner` at this depth is, or leads to, a call for `r`. A call is counted even where
    the change of the weight is too small to be passed on. -/
inductive Visits : Nat → SystemState F → Name → Name → Prop where
  | here {depth : Nat} {s : SystemState F} {owner : Name} : Visits (depth + 1) s owner owner
  | next {depth : Nat} {s : SystemState F} {owner r : Name} {voter proxy : VoterInfo F} {w : F}
      (row : s.voters.find? owner = some voter) (set : voter.proxy.isSet)
      (target : s.voters.find? voter.proxy = some proxy)
      (call : Visits depth
        { s with voters := s.voters.set voter.proxy { proxy with proxiedVoteWeight := w } }
        voter.proxy r) :
      Visits (depth + 1) s owner r

omit [Double F] in
/-- A row with a proxy is a link. -/
theorem link_of_row {s : SystemState F} {owner : Name} {voter : VoterInfo F}
    (hv : s.voters.find? owner = some voter) (hset : voter.proxy.isSet) :
    Link s.proxyOf owner voter.proxy := by
  show s.proxyOf owner = some voter.proxy
  rw [proxyOf_some hv]
  exact VoterBase.link_eq_some.mpr ⟨rfl, hset⟩

omit [Double F] in
/-- What is visited is reached through links. -/
theorem Visits.leads {depth : Nat} {s : SystemState F} {owner r : Name}
    (h : Visits depth s owner r) : Leads s.proxyOf owner r := by
  induction h with
  | here => exact .refl
  | next row set target call ih =>
    rw [(weightFrame_setProxied target _).proxyOf] at ih
    exact .head (link_of_row row set) ih

/-- A row that the chain does not come to is not changed. -/
theorem propagate_other {ctx : Context} {depth : Nat} {s s' : SystemState F} {owner f : Name}
    (h : propagateWeightChange ctx depth s owner = .ok s') (hf : ¬ Leads s.proxyOf owner f) :
    s'.voters.find? f = s.voters.find? f := by
  -- induction on the depth, along the chain of proxies
  induction depth generalizing s s' owner with
  | zero => cases h
  | succ depth ih =>
    obtain ⟨voter, hv, -, u, hu, voter', hv', rfl⟩ := propagate_eq_ok.mp h
    -- the account is not on the chain, so its row is not written
    have hne : f ≠ owner := by
      intro heq
      exact hf (heq ▸ .refl)
    rw [Table.find?_set_ne _ _ hne]
    simp only [passOn] at hu
    split at hu
    · split at hu
      · rename_i hset
        simp only [bind_eq_ok, getRow_eq_ok] at hu
        obtain ⟨proxy, hp, hu⟩ := hu
        have hlink := link_of_row hv hset
        have hnep : f ≠ voter.proxy := by
          intro heq
          exact hf (heq ▸ .single hlink)
        rw [ih hu, Table.find?_set_ne _ _ hnep]
        rw [(weightFrame_setProxied hp _).proxyOf]
        exact fun hleads => hf (.head hlink hleads)
      · -- the producers have rows of their own
        simp only [bind_eq_ok, pure_eq_ok] at hu
        obtain ⟨⟨u', acc⟩, hloop, rfl⟩ := hu
        show u'.voters.find? f = _
        rw [(propagateToProducers_weights hloop).2]
    · rw [pure_eq_ok.mp hu]

/-- The calls of `propagate_weight_change` in `update_votes`: the state and the owner. -/
inductive VoteCall (ctx : Context) (s : SystemState F) (voterName proxy : Name)
    (producers : List Name) (voting : Bool) : SystemState F → Name → Prop where
  | undo {voter oldProxy : VoterInfo F} {w : F} (row : s.voters.find? voterName = some voter)
      (set : voter.proxy.isSet)
      (old : (s.activateStake ctx voter).voters.find? voter.proxy = some oldProxy) :
      VoteCall ctx s voterName proxy producers voting
        { s.activateStake ctx voter with
          voters := (s.activateStake ctx voter).voters.set voter.proxy
            { oldProxy with proxiedVoteWeight := w } }
        voter.proxy
  | cast {voter newProxy : VoterInfo F} {t : SystemState F} {deltas : ProducerDeltas F} {w : F}
      (checked : checkVote voterName proxy producers = .ok ())
      (row : s.voters.find? voterName = some voter)
      (undone : (s.activateStake ctx voter).undoVote ctx voter = .ok (t, deltas))
      (set : proxy.isSet) (target : t.voters.find? proxy = some newProxy)
      (isProxy : ¬ voting ∨ newProxy.isProxy) :
      VoteCall ctx s voterName proxy producers voting
        { t with voters := t.voters.set proxy { newProxy with proxiedVoteWeight := w } } proxy

/-- A vote is cast for a new choice, or again for the one that is stored. -/
def Chooses (s : SystemState F) (voterName proxy : Name) (voting : Bool) : Prop :=
  voting = true ∨ (proxy.isSet → s.proxyOf voterName = some proxy)

omit [Double F] in
/-- The chain from the new proxy does not come to the voter. -/
theorem GraphInv.not_leads {s : SystemState F} (hI : s.GraphInv) {voterName proxy : Name}
    {producers : List Name} {voting : Bool} {pb : VoterBase}
    (hchecked : checkVote voterName proxy producers = .ok ()) (hset : proxy.isSet)
    (hpb : s.baseOf proxy = some pb) (hproxy : voting = true → pb.isProxy = true)
    (hchoice : s.Chooses voterName proxy voting) : ¬ Leads s.proxyOf proxy voterName := by
  rcases hchoice with hvoting | hstored
  · intro hleads
    have hend := eq_of_leads_of_none (hI.proxyOf_proxy hpb (hproxy hvoting)) hleads
    exact (checkVote_proxy hchecked hset).2 hend.symm
  · obtain ⟨rank, hfall⟩ := hI.acyclic
    exact hfall.not_leads (hstored hset)

/-- A call that `update_votes` makes for the voter's old or new proxy does not come back to the
    voter. -/
theorem VoteCall.not_visits {ctx : Context} {s t : SystemState F} {voterName proxy owner : Name}
    {producers : List Name} {voting : Bool} (hI : s.GraphInv)
    (hchoice : s.Chooses voterName proxy voting)
    (h : VoteCall ctx s voterName proxy producers voting t owner) {depth : Nat} :
    ¬ Visits depth t owner voterName := by
  intro hvisits
  have hleads := hvisits.leads
  cases h with
  | undo row set old =>
    rw [(weightFrame_setProxied old _).proxyOf, (activateStake_weights ctx s _).1.proxyOf] at hleads
    obtain ⟨rank, hfall⟩ := hI.acyclic
    exact hfall.not_leads (link_of_row row set) hleads
  | cast checked row undone set target isProxy =>
    have hframe := (activateStake_weights ctx s _).1.trans (undoVote_weights undone)
    rw [(weightFrame_setProxied target _).proxyOf, hframe.proxyOf] at hleads
    have hpb := hframe.base proxy
    rw [baseOf_some target] at hpb
    refine hI.not_leads checked set hpb.symm (fun hvoting => ?_) hchoice hleads
    rcases isProxy with hno | hyes
    · exact absurd hvoting hno
    · exact hyes

/-! ## The voter's own row -/

/-- Undoing a vote does not touch the row of the voter. -/
theorem undoVote_row {ctx : Context} {s s' : SystemState F} {voterName : Name} {voter : VoterInfo F}
    {deltas : ProducerDeltas F} (hI : s.GraphInv) (hv : s.voters.find? voterName = some voter)
    (h : s.undoVote ctx voter = .ok (s', deltas)) : s'.voters.find? voterName = some voter := by
  unfold undoVote at h
  split at h
  · split at h
    · rename_i hset
      simp only [bind_eq_ok, getRow_eq_ok, pure_eq_ok, Prod.mk.injEq] at h
      obtain ⟨proxy, hp, u, hu, rfl, -⟩ := h
      obtain ⟨rank, hfall⟩ := hI.acyclic
      have hnot := hfall.not_leads (link_of_row hv hset)
      have hne : voterName ≠ voter.proxy := by
        intro heq
        exact hnot (heq ▸ .refl)
      rw [propagate_other hu]
      · rw [Table.find?_set_ne _ _ hne, hv]
      · rw [(weightFrame_setProxied hp _).proxyOf]
        exact hnot
    · simp only [pure_eq_ok, Prod.mk.injEq] at h
      exact h.1 ▸ hv
  · simp only [pure_eq_ok, Prod.mk.injEq] at h
    exact h.1 ▸ hv

/-- Casting a vote does not touch the row of the voter, when no chain of proxies leads back to it.
    -/
theorem castVote_row {ctx : Context} {s s' : SystemState F} {deltas deltas' : ProducerDeltas F}
    {voterName proxy : Name} {producers : List Name} {weight : F} {voting : Bool}
    (hnot : proxy.isSet → ¬ Leads s.proxyOf proxy voterName)
    (h : s.castVote ctx deltas proxy producers weight voting = .ok (s', deltas')) :
    s'.voters.find? voterName = s.voters.find? voterName := by
  unfold castVote at h
  split at h
  · -- the new proxy gets the weight, and is another account
    rename_i hset
    simp only [bind_eq_ok, getRow_eq_ok, check_eq_ok] at h
    obtain ⟨np, hp, _, -, h⟩ := h
    split at h
    · simp only [bind_eq_ok, pure_eq_ok, Prod.mk.injEq] at h
      obtain ⟨u, hu, rfl, -⟩ := h
      have hne : voterName ≠ proxy := by
        intro heq
        exact hnot hset (heq ▸ .refl)
      rw [propagate_other hu]
      · rw [Table.find?_set_ne _ _ hne]
      · rw [(weightFrame_setProxied hp _).proxyOf]
        exact hnot hset
    · simp only [pure_eq_ok, Prod.mk.injEq] at h
      rw [h.1]
  · -- without a proxy no voter is written
    split at h
    · simp only [pure_eq_ok, Prod.mk.injEq] at h
      rw [h.1]
    · simp only [pure_eq_ok, Prod.mk.injEq] at h
      rw [h.1]

/-- `update_votes` stores the new choice in the row that it has read at the start. -/
theorem updateVotes_row {ctx : Context} {s s' : SystemState F} {voterName proxy : Name}
    {producers : List Name} {voting : Bool} (hI : s.GraphInv)
    (hchoice : s.Chooses voterName proxy voting)
    (h : s.updateVotes ctx voterName proxy producers voting = .ok s') :
    ∃ voter, s.voters.find? voterName = some voter ∧
      s'.voters.find? voterName = some { voter with
        lastVoteWeight := newVoteWeight ctx voter, producers := producers, proxy := proxy } := by
  obtain ⟨b, hvote, -, -⟩ := updateVotes_base h
  obtain ⟨-, voter, hv, -, s₁, d₁, hundo, s₂, d₂, hcast, s₃, acc, happly, _, rfl, voter', hv',
    rfl⟩ := updateVotes_eq_ok.mp h
  obtain ⟨hframe, hvoters⟩ := activateStake_weights ctx s voter
  have hframe₁ := hframe.trans (undoVote_weights hundo)
  have hrow₁ : s₁.voters.find? voterName = some voter :=
    undoVote_row (hI.of_base hframe.base) (by rw [hvoters]; exact hv) hundo
  have hrow₂ : s₂.voters.find? voterName = some voter := by
    rw [castVote_row (fun hset => ?_) hcast, hrow₁]
    obtain ⟨pb, hpb, hproxy⟩ := hvote.proxy hset
    rw [hframe₁.proxyOf]
    exact hI.not_leads hvote.checked hset hpb hproxy hchoice
  have hrow₃ : s₃.voters.find? voterName = some voter := by
    rw [(applyDeltas_weights happly).2]
    exact hrow₂
  obtain rfl : voter' = voter := by
    rw [show (s₃.updateTotalVotepayShare ctx.now _ _).voters = s₃.voters from rfl, hrow₃] at hv'
    exact (Option.some.inj hv').symm
  exact ⟨voter', hv, Table.find?_set_self _ _ _⟩

/-! ## Calls in a run -/

/-- The calls of `update_votes` in the actions, with the state they are made in. -/
inductive UpdateCall (ctx : Context) (s : SystemState F) :
    SystemState F → Name → Name → List Name → Bool → Prop where
  | vote {voterName proxy : Name} {producers : List Name} :
      UpdateCall ctx s s voterName proxy producers true
  | stake {a : SystemAction F} {p : VotingPoint F} {v : VoterInfo F}
      (point : votingPoint ctx s a = .ok p)
      (row : v = changeStake (p.state.voters.find? p.owner) p.total.amount)
      (nonneg : 0 ≤ v.staked) :
      UpdateCall ctx s { p.state with voters := p.state.voters.set p.owner v } p.owner v.proxy
        v.producers false

/-- The calls of `propagate_weight_change` in the actions. -/
inductive PropagateCall (ctx : Context) (s : SystemState F) : SystemState F → Name → Prop where
  | vote {t w : SystemState F} {voterName proxy owner : Name} {producers : List Name}
      {voting : Bool} (update : UpdateCall ctx s t voterName proxy producers voting)
      (call : VoteCall ctx t voterName proxy producers voting w owner) : PropagateCall ctx s w owner
  | register {proxy : Name} {voter : VoterInfo F} {isproxy : Bool}
      (row : s.voters.find? proxy = some voter) :
      PropagateCall ctx s
        { s with voters := s.voters.set proxy { voter with isProxy := isproxy } } proxy

/-- A change of the stake does not touch the graph. -/
theorem UpdateCall.graph {ctx : Context} {s t : SystemState F} {voterName proxy : Name}
    {producers : List Name} {voting : Bool} (hrex : s.rexbalance = ∅) (hI : s.GraphInv)
    (h : UpdateCall ctx s t voterName proxy producers voting) :
    t.GraphInv ∧ t.Chooses voterName proxy voting := by
  cases h with
  | vote => exact ⟨hI, .inl rfl⟩
  | @stake a p v point row nonneg =>
    have hpoint : p.state.GraphInv := by
      apply hI.of_base
      intro f
      rw [votingPoint_state hrex point]
      rfl
    have hv : v.base = changeBase (p.state.baseOf p.owner) p.total.amount := by
      rw [row, base_changeStake]
      rfl
    refine ⟨hpoint.changeStake (hv ▸ baseOf_set p.state p.owner v), .inr fun hset => ?_⟩
    rw [proxyOf_some (Table.find?_set_self _ _ _)]
    exact VoterBase.link_eq_some.mpr ⟨rfl, hset⟩

/-- A propagation within a vote finds the proxies as they were. -/
theorem VoteCall.proxyOf {ctx : Context} {s t : SystemState F} {voterName proxy owner : Name}
    {producers : List Name} {voting : Bool}
    (h : VoteCall ctx s voterName proxy producers voting t owner) : t.proxyOf = s.proxyOf := by
  cases h with
  | undo row set old =>
    rw [(weightFrame_setProxied old _).proxyOf, (activateStake_weights ctx s _).1.proxyOf]
  | cast checked row undone set target isProxy =>
    have hframe := (activateStake_weights ctx s _).1.trans (undoVote_weights undone)
    rw [(weightFrame_setProxied target _).proxyOf, hframe.proxyOf]

/-- Wherever a propagation starts, the proxies have no cycle. -/
theorem PropagateCall.acyclic {ctx : Context} {s t : SystemState F} {owner : Name}
    (hrex : s.rexbalance = ∅) (hI : s.GraphInv) (h : PropagateCall ctx s t owner) :
    Acyclic t.proxyOf := by
  cases h with
  | vote update call =>
    rw [call.proxyOf]
    exact (update.graph hrex hI).1.acyclic
  | @register _ voter isproxy row =>
    have hproxy : ({ s with voters := s.voters.set owner { voter with isProxy := isproxy } } :
        SystemState F).proxyOf = s.proxyOf := by
      funext f
      unfold SystemState.proxyOf
      rw [baseOf_set]
      split
      · rename_i hf
        rw [hf, baseOf_some row]
        rfl
      · rfl
    rw [hproxy]
    exact hI.acyclic

/-- The depth that the calls are bounded by is not reached. -/
theorem propagate_ends {ctx : Context} {s : SystemState F} (h : Acyclic s.proxyOf) (owner : Name)
    {depth : Nat} (hdepth : s.proxyDepth ≤ depth) :
    propagateWeightChange ctx depth s owner = propagateWeightChange ctx s.proxyDepth s owner ∧
      propagateWeightChange ctx depth s owner ≠ .error "call depth exceeded" := by
  obtain ⟨rank, hfall⟩ := h
  have hheight := height_le_length s.voters.keys rank owner
  have hsize : s.voters.keys.length = s.voters.size := List.length_map ..
  unfold proxyDepth at hdepth ⊢
  apply propagate_depth hfall
  · intro f v hf
    rw [Table.mem_keys, hf]
    rfl
  · omega
  · omega

/-- In every state that a run reaches from empty tables, no registered proxy has a proxy and the
    graph of proxies has no cycle. So every propagation of a weight in the next action ends, and in
    `update_votes` none of them comes to the row of the voter. -/
theorem proxies_acyclic {s : SystemState F} (hs : s.NoVotes) (calls : List (AccountCall F)) :
    let u := Run.exec accountStep s calls
    (∀ f v, u.voters.find? f = some v → v.isProxy = true → ¬ v.proxy.isSet) ∧
    (∀ f, ¬ Relation.TransGen (Link u.proxyOf) f f) ∧
    (∀ ctx t owner, PropagateCall ctx u t owner → ∀ depth, t.proxyDepth ≤ depth →
      propagateWeightChange ctx depth t owner = propagateWeightChange ctx t.proxyDepth t owner ∧
        propagateWeightChange ctx depth t owner ≠ .error "call depth exceeded") ∧
    ∀ ctx t voterName proxy producers voting, UpdateCall ctx u t voterName proxy producers voting →
      ∀ w owner, VoteCall ctx t voterName proxy producers voting w owner →
        ∀ depth, ¬ Visits depth w owner voterName := by
  intro u
  obtain ⟨hstake, hI⟩ := exec_accountStep_graph hs calls
  refine ⟨fun f v hv => ?_, fun f => ?_, fun ctx t owner hcall depth hdepth => ?_, ?_⟩
  · exact hI.notProxy f v.base (baseOf_some hv)
  · exact hI.acyclic.not_transGen
  · exact propagate_ends (hcall.acyclic hstake.noRex hI) owner hdepth
  · intro ctx t voterName proxy producers voting hupdate w owner hcall depth
    obtain ⟨hgraph, hchoice⟩ := hupdate.graph hstake.noRex hI
    exact hcall.not_visits hgraph hchoice

/-- Alice chooses bob, who then unregisters and chooses the system account. -/
def Sample.chaining : List (AccountCall Rat) :=
  [⟨ctx [bob] launch, .system (.regproxy bob true) rfl⟩,
    ⟨ctx [eosioAccount] launch, .system (.regproxy eosioAccount true) rfl⟩,
    ⟨ctx [alice] launch, .system (.delegatebw alice alice (utx 100) (utx 0) false) rfl⟩,
    ⟨ctx [alice] launch, .system (.voteproducer alice bob []) rfl⟩,
    ⟨ctx [bob] launch, .system (.regproxy bob false) rfl⟩,
    ⟨ctx [bob] launch, .system (.voteproducer bob eosioAccount []) rfl⟩]

open Sample in
/-- In the sample, the chain from alice has two links. -/
theorem proxies_acyclic_sample :
    let u := Run.exec accountStep start chaining
    u.proxyOf alice = some bob ∧ u.proxyOf bob = some eosioAccount ∧
      ∀ f, ¬ Relation.TransGen (Link u.proxyOf) f f := by
  obtain ⟨-, hacyclic, -⟩ := proxies_acyclic start_noVotes chaining
  exact ⟨by decide +kernel, by decide +kernel, hacyclic⟩

end SystemState

end UxContracts
