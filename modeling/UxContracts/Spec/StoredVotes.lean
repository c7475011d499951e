import UxContracts.Native.Binary64
import UxContracts.Spec.Propagation

/-!
# Stored votes

A vote that is stored has passed the checks of `update_votes`, its proxy has a row, and so has
every producer it lists if the vote was cast with a weight that is not negative (`VotesInv`). So
when a stake changes and the vote is cast again, no check of the voting functions fails
(`updateVotes_ok`), whatever the proxy and the producers have become since.
-/

namespace UxContracts

open Chain

namespace SystemState

variable {F : Type}

structure VotesInv (s : SystemState F) : Prop extends GraphInv s where
  checked : ∀ f b, s.baseOf f = some b → checkVote f b.proxy b.producers = .ok ()
  /-- the producers of a stored vote have rows -/
  known : ∀ f b, s.baseOf f = some b → ∀ p ∈ b.producers, (s.statusOf p).isSome

/-- A change of weights keeps the votes. -/
theorem VotesInv.of_weights {s s' : SystemState F} (hI : s.VotesInv) (h : WeightFrame s s') :
    s'.VotesInv := by
  refine ⟨hI.toGraphInv.of_base h.base, fun f b hb => ?_, fun f b hb p hp => ?_⟩
  · rw [h.base] at hb
    exact hI.checked f b hb
  · rw [h.base] at hb
    rw [h.status]
    exact hI.known f b hb p hp

/-- A list that passes the check has no producer twice. -/
theorem checkVote_nodup {voterName proxy : Name} {producers : List Name}
    (h : checkVote voterName proxy producers = .ok ()) : producers.Nodup := by
  by_cases hset : proxy.isSet
  · rw [(checkVote_proxy h hset).1]
    exact .nil
  · have hsorted := List.isChain_iff_pairwise.mp (checkVote_producers h hset).2
    exact hsorted.imp fun hlt => ne_of_lt hlt

variable [Double F]

/-! ## Loops over producers -/

/-- The loop over the producers of a stored vote finds all rows. -/
theorem propagateToProducers_ok {ctx : Context} {delta : F} {s : SystemState F} {acc : VpayDelta F}
    {producers : List Name} (h : ∀ p ∈ producers, (s.statusOf p).isSome) :
    ∃ r, propagateToProducers ctx delta s acc producers = .ok r := by
  induction producers generalizing s acc with
  | nil => exact ⟨_, rfl⟩
  | cons acnt rest ih =>
    obtain ⟨prod, hprod⟩ : ∃ prod, s.producers.find? acnt = some prod := by
      have hrow := h acnt List.mem_cons_self
      unfold statusOf at hrow
      rw [Option.isSome_map] at hrow
      exact Option.isSome_iff_exists.mp hrow
    simp only [propagateToProducers, bind_eq_ok, getRow_eq_ok]
    obtain ⟨hround, -⟩ := addVotes_weights hprod _ _ _ _
    obtain ⟨r, hr⟩ := ih fun p hp => by
      rw [hround.status]
      exact h p (List.mem_cons_of_mem _ hp)
    exact ⟨r, prod, hprod, hr⟩

/-- The loop over the changes of a vote succeeds, if the new producers have rows. -/
theorem applyDeltas_ok (ctx : Context) {s : SystemState F} (acc : VpayDelta F)
    {deltas : List (Name × F × Bool)} (h : ∀ p d, (p, d, true) ∈ deltas → (s.statusOf p).isSome) :
    ∃ r, applyDeltas ctx false s acc deltas = .ok r := by
  -- induction on the changes
  induction deltas generalizing s acc with
  | nil => exact ⟨_, rfl⟩
  | cons d rest ih =>
    obtain ⟨owner, delta, isNew⟩ := d
    simp only [applyDeltas]
    split
    · -- a producer with a row
      rename_i prod hprod
      simp only [bind_eq_ok, check_eq_ok]
      obtain ⟨hround, -⟩ := addVotes_weights hprod _ _ _ _
      obtain ⟨r, hr⟩ := ih _ fun p d hp => by
        rw [hround.status]
        exact h p d (List.mem_cons_of_mem _ hp)
      exact ⟨r, (), fun hvoting => absurd hvoting.1 (by decide), hr⟩
    · -- a producer without one, which only an old vote may name
      rename_i hnone
      simp only [bind_eq_ok, check_eq_ok]
      obtain ⟨r, hr⟩ := ih _ fun p d hp => h p d (List.mem_cons_of_mem _ hp)
      refine ⟨r, (), fun hnew => ?_, hr⟩
      subst hnew
      have hrow := h owner delta List.mem_cons_self
      unfold statusOf at hrow
      rw [hnone] at hrow
      cases hrow

/-- The producers of a new vote have rows. -/
theorem applyDeltas_known {ctx : Context} {voting : Bool} {s s' : SystemState F}
    {acc acc' : VpayDelta F} {deltas : List (Name × F × Bool)}
    (h : applyDeltas ctx voting s acc deltas = .ok (s', acc')) (p : Name) (d : F)
    (hp : (p, d, true) ∈ deltas) : (s.statusOf p).isSome := by
  -- induction on the changes
  induction deltas generalizing s acc with
  | nil => cases hp
  | cons e rest ih =>
    obtain ⟨owner, delta, isNew⟩ := e
    simp only [applyDeltas] at h
    split at h
    · -- the producer has a row, and keeps it
      rename_i prod hprod
      simp only [bind_eq_ok, check_eq_ok] at h
      obtain ⟨-, -, h⟩ := h
      rcases List.mem_cons.mp hp with heq | hp
      · obtain ⟨rfl, rfl, rfl⟩ : p = owner ∧ d = delta ∧ true = isNew := by simpa using heq
        unfold statusOf
        rw [hprod]
        rfl
      · have hrow := ih h hp
        rw [(addVotes_weights hprod _ _ _ _).1.status] at hrow
        exact hrow
    · -- a new vote for a producer without a row would have failed
      simp only [bind_eq_ok, check_eq_ok] at h
      obtain ⟨-, hold, h⟩ := h
      rcases List.mem_cons.mp hp with heq | hp
      · obtain ⟨rfl, rfl, rfl⟩ : p = owner ∧ d = delta ∧ true = isNew := by simpa using heq
        exact absurd rfl hold
      · exact ih h hp

/-- The deltas of the listed producers are changed. -/
theorem changeDeltas_find? (change : F → F) (isNew : Bool) (ds : ProducerDeltas F)
    {producers : List Name} (hnodup : producers.Nodup) (p : Name) :
    (changeDeltas change isNew ds producers).find? p =
      if p ∈ producers then some (change ((ds.find? p).getD (Double.ofInt 0, false)).1, isNew)
      else ds.find? p := by
  unfold changeDeltas
  induction producers generalizing ds with
  | nil => rw [if_neg List.not_mem_nil]; rfl
  | cons q rest ih =>
    obtain ⟨hq, hrest⟩ := List.nodup_cons.mp hnodup
    rw [List.foldl_cons, ih _ hrest]
    by_cases hp : p = q
    · subst hp
      rw [if_neg hq, if_pos List.mem_cons_self, Table.find?_set_self]
    · have hmem : p ∈ q :: rest ↔ p ∈ rest := by
        rw [List.mem_cons]
        exact ⟨fun h => h.resolve_left hp, .inr⟩
      simp only [hmem, Table.find?_set_ne _ _ hp]

/-! ## A stored vote is cast again -/

/-- With depth to spare, every call ends without an error. -/
theorem propagate_ok {ctx : Context} {rank : Name → Nat} {keys : List Name} {depth : Nat}
    {s : SystemState F} {owner : Name} {voter : VoterInfo F} (hI : s.VotesInv)
    (hfall : Falls s.proxyOf rank) (hkeys : ∀ f b, s.baseOf f = some b → f ∈ keys)
    (hrow : s.voters.find? owner = some voter) (hdepth : height keys rank owner < depth) :
    ∃ s', propagateWeightChange ctx depth s owner = .ok s' := by
  -- induction on the depth, which is enough for the height of the owner
  induction depth generalizing s owner voter with
  | zero => omega
  | succ depth ih =>
    -- who has a proxy is none, as the action asks
    have hcheck : ¬ voter.proxy.isSet ∨ ¬ voter.isProxy := by
      by_cases hproxy : voter.isProxy
      · exact .inl (hI.notProxy owner voter.base (baseOf_some hrow) hproxy)
      · exact .inr hproxy
    obtain ⟨u, hu⟩ : ∃ u, passOn ctx depth s voter = .ok u := by
      simp only [passOn]
      split
      · split
        · rename_i hset
          obtain ⟨b, hb⟩ := hI.row owner voter.proxy (link_of_row hrow hset)
          obtain ⟨proxy, hp, -⟩ := baseOf_eq_some.mp hb
          have hframe := weightFrame_setProxied hp
            (proxy.proxiedVoteWeight + (newVoteWeight ctx voter - voter.lastVoteWeight))
          -- the proxy ranks below the owner
          have hlink := link_of_row hrow hset
          have hlt := height_lt (hkeys owner _ (baseOf_some hrow)) (hfall _ _ hlink)
          obtain ⟨u, hu⟩ := ih (hI.of_weights hframe) (hframe.proxyOf ▸ hfall)
            (fun f b hb => hkeys f b (hframe.base f ▸ hb)) (Table.find?_set_self _ _ _) (by omega)
          simp only [bind_eq_ok, getRow_eq_ok]
          exact ⟨u, proxy, hp, hu⟩
        · -- the producers of a vote have rows
          obtain ⟨r, hr⟩ := propagateToProducers_ok (hI.known owner _ (baseOf_some hrow))
          simp only [bind_eq_ok, pure_eq_ok]
          exact ⟨_, r, hr, rfl⟩
      · exact ⟨s, rfl⟩
    -- the row of the owner is still there at the end
    have hframe := passOn_weights hu
    obtain ⟨voter', hv', -⟩ := hframe.row hrow
    exact ⟨_, propagate_eq_ok.mpr ⟨voter, hrow, hcheck, u, hu, voter', hv', rfl⟩⟩

/-- A call for a proxy, after its weight has been changed. -/
theorem propagate_setProxied_ok (ctx : Context) {s : SystemState F} {p : Name} {proxy : VoterInfo F}
    (hI : s.VotesInv) (hp : s.voters.find? p = some proxy) (w : F) :
    ∃ s', propagateWeightChange ctx s.proxyDepth
      { s with voters := s.voters.set p { proxy with proxiedVoteWeight := w } } p = .ok s' := by
  have hframe := weightFrame_setProxied hp w
  obtain ⟨rank, hfall⟩ := hI.acyclic
  have hheight := height_le_length s.voters.keys rank p
  have hsize : s.voters.keys.length = s.voters.size := List.length_map ..
  have hkeys : ∀ f b, s.baseOf f = some b → f ∈ s.voters.keys := by
    intro f b hb
    obtain ⟨v, hv, -⟩ := baseOf_eq_some.mp hb
    rw [Table.mem_keys, hv]
    rfl
  apply propagate_ok (hI.of_weights hframe) (hframe.proxyOf ▸ hfall)
    (fun f b hb => hkeys f b (hframe.base f ▸ hb)) (Table.find?_set_self _ _ _)
  unfold proxyDepth
  omega

/-- A stored vote can be undone. -/
theorem undoVote_ok (ctx : Context) {s : SystemState F} {voterName : Name} {voter : VoterInfo F}
    (hI : s.VotesInv) (hv : s.voters.find? voterName = some voter) :
    ∃ r, s.undoVote ctx voter = .ok r := by
  unfold undoVote
  split
  · split
    · rename_i hset
      obtain ⟨b, hb⟩ := hI.row voterName voter.proxy (link_of_row hv hset)
      obtain ⟨proxy, hp, -⟩ := baseOf_eq_some.mp hb
      obtain ⟨u, hu⟩ := propagate_setProxied_ok ctx hI hp
        (proxy.proxiedVoteWeight - voter.lastVoteWeight)
      refine ⟨(u, ∅), ?_⟩
      simp only [bind_eq_ok, getRow_eq_ok, pure_eq_ok]
      exact ⟨proxy, hp, u, hu, rfl⟩
    · exact ⟨_, rfl⟩
  · exact ⟨(s, ∅), rfl⟩

/-- The producers of the last vote are not marked as new. -/
theorem undoVote_deltas {ctx : Context} {s s' : SystemState F} {voter : VoterInfo F}
    {deltas : ProducerDeltas F} (hnodup : voter.producers.Nodup)
    (h : s.undoVote ctx voter = .ok (s', deltas)) {p : Name} {d : F} {b : Bool}
    (hd : deltas.find? p = some (d, b)) : p ∈ voter.producers ∧ b = false := by
  unfold undoVote at h
  split at h
  · split at h
    · simp only [bind_eq_ok, pure_eq_ok, Prod.mk.injEq] at h
      obtain ⟨_, -, _, -, -, rfl⟩ := h
      cases hd
    · simp only [pure_eq_ok, Prod.mk.injEq] at h
      rw [← h.2, changeDeltas_find? _ _ _ hnodup] at hd
      split at hd
      · rename_i hmem
        cases hd
        exact ⟨hmem, rfl⟩
      · cases hd
  · simp only [pure_eq_ok, Prod.mk.injEq] at h
    rw [← h.2] at hd
    cases hd

/-- A stored vote can be cast again, if its proxy has a row. -/
theorem castVote_ok (ctx : Context) {s : SystemState F} (deltas : ProducerDeltas F) {proxy : Name}
    (producers : List Name) (hI : s.VotesInv)
    (hproxy : proxy.isSet → ∃ b, s.baseOf proxy = some b) (weight : F) :
    ∃ r, s.castVote ctx deltas proxy producers weight false = .ok r := by
  unfold castVote
  split
  · rename_i hset
    obtain ⟨b, hb⟩ := hproxy hset
    obtain ⟨newProxy, hp, -⟩ := baseOf_eq_some.mp hb
    simp only [getRow_eq_ok.mpr hp]
    split
    · obtain ⟨u, hu⟩ := propagate_setProxied_ok ctx hI hp
        (newProxy.proxiedVoteWeight + weight)
      refine ⟨(u, deltas), ?_⟩
      simp only [bind_eq_ok, check_eq_ok, pure_eq_ok]
      exact ⟨newProxy, rfl, (), .inl (by decide), u, hu, rfl⟩
    · refine ⟨(s, deltas), ?_⟩
      simp only [bind_eq_ok, check_eq_ok]
      exact ⟨newProxy, rfl, (), .inl (by decide), rfl⟩
  · split
    · exact ⟨_, rfl⟩
    · exact ⟨(s, deltas), rfl⟩

/-- A delta is one of a new vote, or it was there before. -/
theorem castVote_deltas {ctx : Context} {s s' : SystemState F} {deltas deltas' : ProducerDeltas F}
    {proxy : Name} {producers : List Name} {weight : F} {voting : Bool} (hnodup : producers.Nodup)
    (h : s.castVote ctx deltas proxy producers weight voting = .ok (s', deltas')) {p : Name} {d : F}
    {b : Bool} (hd : deltas'.find? p = some (d, b)) :
    (p ∈ producers ∧ b = true) ∨ deltas.find? p = some (d, b) := by
  unfold castVote at h
  split at h
  · -- a vote by a proxy makes no change
    simp only [bind_eq_ok] at h
    obtain ⟨_, -, _, -, h⟩ := h
    split at h
    · simp only [bind_eq_ok, pure_eq_ok, Prod.mk.injEq] at h
      obtain ⟨_, -, -, rfl⟩ := h
      exact .inr hd
    · simp only [pure_eq_ok, Prod.mk.injEq] at h
      exact .inr (h.2 ▸ hd)
  · -- a change is new if its producer is named
    split at h
    · simp only [pure_eq_ok, Prod.mk.injEq] at h
      rw [← h.2, changeDeltas_find? _ _ _ hnodup] at hd
      split at hd
      · rename_i hmem
        cases hd
        exact .inl ⟨hmem, rfl⟩
      · exact .inr hd
    · simp only [pure_eq_ok, Prod.mk.injEq] at h
      exact .inr (h.2 ▸ hd)

/-- The vote that is stored for an account can be cast again. -/
theorem updateVotes_ok (ctx : Context) {s : SystemState F} {voterName : Name} {voter : VoterInfo F}
    (hI : s.VotesInv) (hv : s.voters.find? voterName = some voter) :
    ∃ s', s.updateVotes ctx voterName voter.proxy voter.producers false = .ok s' := by
  have hb := baseOf_some hv
  have hchecked := hI.checked voterName voter.base hb
  -- who has a proxy is none
  have hnot : ¬ voter.proxy.isSet ∨ ¬ voter.isProxy := by
    by_cases hproxy : voter.isProxy
    · exact .inl (hI.notProxy voterName voter.base hb hproxy)
    · exact .inr hproxy
  obtain ⟨hframe, hvoters⟩ := activateStake_weights ctx s voter
  have hI₁ := hI.of_weights hframe
  -- the old vote can be undone
  obtain ⟨⟨s₁, d₁⟩, hundo⟩ := undoVote_ok ctx hI₁ (hvoters ▸ hv)
  have hframe₁ := hframe.trans (undoVote_weights hundo)
  have hI₂ := hI.of_weights hframe₁
  -- the proxy still has its row
  have hproxy : voter.proxy.isSet → ∃ b, s₁.baseOf voter.proxy = some b := by
    intro hset
    apply hI₂.row voterName
    rw [hframe₁.proxyOf, proxyOf_some hv]
    exact VoterBase.link_eq_some.mpr ⟨rfl, hset⟩
  -- so the vote can be cast
  obtain ⟨⟨s₂, d₂⟩, hcast⟩ := castVote_ok ctx d₁ voter.producers hI₂ hproxy (newVoteWeight ctx voter)
  have hframe₂ := hframe₁.trans (castVote_weights hcast).1
  -- its producers have rows, and those of the old vote need none
  have hknown : ∀ p d, (p, d, true) ∈ d₂.rows → (s₂.statusOf p).isSome := by
    intro p d hp
    rw [hframe₂.status]
    have hnodup := checkVote_nodup hchecked
    rcases castVote_deltas hnodup hcast (Table.mem_rows.mp hp) with ⟨hmem, -⟩ | hold
    · exact hI.known voterName voter.base hb p hmem
    · exact absurd (undoVote_deltas hnodup hundo hold).2 (by decide)
  -- so the changes can be applied
  obtain ⟨⟨s₃, acc⟩, happly⟩ := applyDeltas_ok ctx ⟨Double.ofInt 0, Double.ofInt 0⟩ hknown
  have hframe₃ := hframe₂.trans (applyDeltas_weights happly).1
  obtain ⟨voter', hv', -⟩ := hframe₃.row hv
  exact ⟨_, updateVotes_eq_ok.mpr ⟨hchecked, voter, hv, hnot, s₁, d₁, hundo, s₂, d₂, hcast, s₃, acc,
    happly, _, rfl, voter', hv', rfl⟩⟩

/-! ## A vote is cast -/

/-- A vote for producers that is not cast with a negative weight is for producers that have
    rows. -/
theorem updateVotes_known {ctx : Context} {s s' : SystemState F} {voterName proxy : Name}
    {producers : List Name} {voting : Bool}
    (h : s.updateVotes ctx voterName proxy producers voting = .ok s') (hset : ¬ proxy.isSet) :
    ∃ voter, s.voters.find? voterName = some voter ∧
      (Double.ofInt 0 ≤ (newVoteWeight ctx voter : F) → ∀ p ∈ producers, (s.statusOf p).isSome) := by
  obtain ⟨hchecked, voter, hv, -, s₁, d₁, hundo, s₂, d₂, hcast, s₃, acc, happly, -⟩ :=
    updateVotes_eq_ok.mp h
  refine ⟨voter, hv, fun hweight p hp => ?_⟩
  have hframe := (activateStake_weights ctx s voter).1.trans (undoVote_weights hundo)
  simp only [castVote, if_neg hset, if_pos hweight, pure_eq_ok, Prod.mk.injEq] at hcast
  obtain ⟨rfl, rfl⟩ := hcast
  have hdelta := changeDeltas_find? (fun d => d + newVoteWeight ctx voter) true d₁
    (checkVote_nodup hchecked) p
  rw [if_pos hp] at hdelta
  have hrow := applyDeltas_known happly p _ (Table.mem_rows.mpr hdelta)
  rw [hframe.status] at hrow
  exact hrow

/-- The arguments of `voteproducer`. -/
structure Vote where
  voterName : Name
  proxy : Name
  producers : List Name

/-- The vote that an action casts. -/
def voteOf : AccountAction F → Option Vote
  | .system (.voteproducer voterName proxy producers) _ => some ⟨voterName, proxy, producers⟩
  | _ => none

/-- An accepted vote for a producer without a row is not cast with a negative weight. -/
def CastsKnown (s : SystemState F) (call : AccountCall F) : Prop :=
  (s.accountStep call).isOk → ∀ v ∈ voteOf call.action, v.proxy.isSet ∨ (∀ p ∈ v.producers, (s.producers.find? p).isSome) ∨
    ∀ voter ∈ s.voters.find? v.voterName, Double.ofInt 0 ≤ (newVoteWeight call.ctx voter : F)

instance (s : SystemState F) (call : AccountCall F) : Decidable (s.CastsKnown call) :=
  inferInstanceAs (Decidable (_ → ∀ v ∈ voteOf call.action, _))

/-! ## Runs -/

omit [Double F] in
/-- One row is changed, and its vote has passed the checks. -/
theorem VotesInv.update {s s' : SystemState F} {v : Name} {b : VoterBase} (hI : s.VotesInv)
    (hgraph : s'.GraphInv) (hstatus : ∀ p, s'.statusOf p = s.statusOf p)
    (hbase : ∀ f, s'.baseOf f = if f = v then some b else s.baseOf f)
    (hchecked : checkVote v b.proxy b.producers = .ok ())
    (hknown : ∀ p ∈ b.producers, (s.statusOf p).isSome) : s'.VotesInv := by
  refine ⟨hgraph, fun f b' hb' => ?_, fun f b' hb' p hp => ?_⟩
  · rw [hbase] at hb'
    split at hb'
    · rename_i hf
      cases hb'
      exact hf ▸ hchecked
    · exact hI.checked f b' hb'
  · rw [hbase] at hb'
    rw [hstatus]
    split at hb'
    · cases hb'
      exact hknown p hp
    · exact hI.known f b' hb' p hp

omit [Double F] in
/-- A stake is changed, in a row that may be new. -/
theorem VotesInv.changeStake {s s' : SystemState F} {f : Name} {amount : Int64} (hI : s.VotesInv)
    (hstatus : ∀ p, s'.statusOf p = s.statusOf p)
    (hbase : ∀ g, s'.baseOf g =
      if g = f then some (changeBase (s.baseOf f) amount) else s.baseOf g) : s'.VotesInv := by
  apply hI.update (hI.toGraphInv.changeStake hbase) hstatus hbase
  · cases hb : s.baseOf f with
    | none => rfl
    | some b => exact hI.checked f b hb
  · cases hb : s.baseOf f with
    | none => exact fun q hq => nomatch hq
    | some b => exact hI.known f b hb

/-- An accepted call that casts no unknown vote keeps the stored votes known. -/
theorem accountStep_votes {s s' : SystemState F} {call : AccountCall F} (hrex : s.rexbalance = ∅)
    (hI : s.VotesInv) (hcast : s.CastsKnown call) (h : s.accountStep call = .ok s') :
    s'.VotesInv := by
  have hgraph := accountStep_graph hrex hI.toGraphInv h
  cases accountStep_change hrex h with
  | same same => exact hI.of_weights same.weights
  | voted voterName proxy producers direct action vote =>
    -- the vote that is cast has been checked
    obtain ⟨b, hvote, hbase, hstatus⟩ := updateVotes_base vote
    apply hI.update hgraph hstatus hbase hvote.checked
    intro p hp
    -- a vote for a proxy names no producer
    by_cases hset : proxy.isSet
    · rw [(checkVote_proxy hvote.checked hset).1] at hp
      cases hp
    · -- and its producers are known, by one of the three conditions
      obtain ⟨voter, hv, hweight⟩ := updateVotes_known vote hset
      have hvoteOf : voteOf call.action = some ⟨voterName, proxy, producers⟩ := by
        rw [action]
        rfl
      rcases hcast (Run.isOk_of_ok h) _ hvoteOf with hproxy | hrows | hnonneg
      · exact absurd hproxy hset
      · unfold statusOf
        rw [Option.isSome_map]
        exact hrows p hp
      · exact hweight (hnonneg voter hv) p hp
  | proxied proxy isproxy direct action reg =>
    obtain ⟨b, hb, -, hbase, hstatus⟩ := regproxy_base reg
    -- a new row has no vote
    rcases hb with ⟨-, rfl⟩ | hb
    · exact hI.update hgraph hstatus hbase rfl fun p hp => nomatch hp
    · exact hI.update hgraph hstatus hbase (hI.checked proxy b hb) (hI.known proxy b hb)
  | staked a direct action p point u vote token =>
    -- a change of stake keeps the vote of its row
    have hstate := votingPoint_state hrex point
    obtain ⟨hbase, hstatus⟩ := updateVotingPower_base vote
    apply hI.changeStake
    · intro q
      rw [token]
      show u.statusOf q = _
      rw [hstatus, hstate]
      rfl
    · intro f
      rw [token]
      show u.baseOf f = _
      rw [hbase, hstate]
      rfl
  | status notSystem p active change selfStaked =>
    -- no vote changes, and no producer loses its row
    have hbase : ∀ f, s'.baseOf f = s.baseOf f := by
      intro f
      unfold baseOf
      rw [change.voters]
    refine ⟨hgraph, fun f b hb => ?_, fun f b hb q hq => ?_⟩
    · rw [hbase] at hb
      exact hI.checked f b hb
    · rw [hbase] at hb
      have hrow := change.status q
      split at hrow
      · obtain ⟨t, ht⟩ := hrow
        rw [ht]
        rfl
      · rw [hrow]
        exact hI.known f b hb q hq
  | flagged notSystem account v flags1 row limits change =>
    -- a flag keeps the vote of its row
    have hbase : ∀ f, s'.baseOf f =
        if f = account then some { v.base with flags1 := flags1 } else s.baseOf f := by
      intro f
      rw [change]
      exact baseOf_set s account { v with flags1 := flags1 } f
    have hstatus : ∀ q, s'.statusOf q = s.statusOf q := by
      intro q
      rw [change]
      rfl
    rcases row with ⟨-, rfl⟩ | hrow
    · exact hI.update hgraph hstatus hbase rfl fun p hp => nomatch hp
    · have hb := baseOf_some hrow
      exact hI.update hgraph hstatus hbase (hI.checked account v.base hb) (hI.known account v.base hb)

theorem NoVotes.votesInv {s : SystemState F} (h : s.NoVotes) : s.VotesInv := by
  have hnone : ∀ f, s.baseOf f = none := by
    intro f
    unfold baseOf
    rw [h.voters, Table.find?_empty]
    rfl
  refine ⟨h.graphInv, fun f b hb => ?_, fun f b hb => ?_⟩
  · rw [hnone] at hb
    cases hb
  · rw [hnone] at hb
    cases hb

/-- Every run of such calls keeps the stored votes known. -/
theorem exec_accountStep_votes {s : SystemState F} (hs : s.NoVotes) {calls : List (AccountCall F)}
    (h : Run.Meets accountStep CastsKnown s calls) :
    (Run.exec accountStep s calls).StakeInv ∧ (Run.exec accountStep s calls).VotesInv :=
  Run.exec_of_meets (I := fun s : SystemState F => s.StakeInv ∧ s.VotesInv)
    (fun _ _ _ hI hC hstep => ⟨accountStep_stakeInv hI.1 hstep,
      accountStep_votes hI.1.noRex hI.2 hC hstep⟩)
    ⟨hs.toEmptyTables.stakeInv, hs.votesInv⟩ h

/-! ## A stake changes -/

omit [Double F] in
/-- What an account has staked covers what it takes back. -/
theorem votingPoint_covered {ctx : Context} {s : SystemState F} {a : SystemAction F}
    {p : VotingPoint F} (hI : s.StakeInv) (h : votingPoint ctx s a = .ok p) :
    0 ≤ s.stakedOf p.owner + p.total.amount.toInt ∧ p.total.InRange := by
  -- the stake of the owner covers what is taken back
  have hchange : ∀ {from_ receiver : Name} {n c : Asset} {transfer : Bool},
      s.changebwBefore ctx from_ receiver n c transfer = .ok p →
      0 ≤ s.stakedOf p.owner + p.total.amount.toInt ∧ p.total.InRange := by
    intro from_ receiver n c transfer hp
    obtain ⟨s₀, tot, htotal, habs, hdel, -, howner, -⟩ := changebwBefore_spec hI.noRex hp
    obtain ⟨hd, hsum⟩ := deltas_spec htotal habs
    obtain ⟨d, -, hpair, hnet, hcpu⟩ := updateDelband_spec hI.rows hd hdel
    rw [← howner] at hnet hcpu
    -- since the row is a part of it
    have hnet_le := Table.valueAt_le_sumOn (p := fun k : Scoped Name Name => k.scope = p.owner)
      (fun k d hk => (hI.rows.delband k d hk).net_nonneg) (k := ⟨p.owner, receiver⟩) rfl
    have hcpu_le := Table.valueAt_le_sumOn (p := fun k : Scoped Name Name => k.scope = p.owner)
      (fun k d hk => (hI.rows.delband k d hk).cpu_nonneg) (k := ⟨p.owner, receiver⟩) rfl
    have hgiven := hI.given p.owner
    have hn0 := hpair.net_nonneg
    have hc0 := hpair.cpu_nonneg
    have hrange := hd.total_inRange
    unfold DelegatedBandwidth.net DelegatedBandwidth.cpu at *
    constructor
    · omega
    · unfold Asset.InRange
      omega
  cases a with
  -- the first checks of the two actions
  | delegatebw from_ receiver net cpu transfer =>
    simp only [votingPoint, delegatebwBefore, bind_eq_ok] at h
    obtain ⟨_, -, _, -, _, -, _, -, _, -, _, -, _, -, _, -, h⟩ := h
    exact hchange h
  | undelegatebw from_ receiver net cpu =>
    simp only [votingPoint, undelegatebwBefore, bind_eq_ok] at h
    obtain ⟨_, -, _, -, _, -, _, -, _, -, _, -, _, -, _, -, _, -, h⟩ := h
    exact hchange h
  | _ => cases h

/-- A change of stake that is covered goes through exactly if the new stake fits into 64 bits. -/
theorem updateVotingPower_ok_iff {ctx : Context} {s : SystemState F} {voter : Name} {total : Asset}
    (hI : s.VotesInv) (hb1 : voter ≠ Name.ofString "b1") (hr : total.InRange)
    (h0 : 0 ≤ s.stakedOf voter) (hcovered : 0 ≤ s.stakedOf voter + total.amount.toInt) :
    (∃ s', s.updateVotingPower ctx voter total = .ok s') ↔
      s.stakedOf voter + total.amount.toInt < 2 ^ 63 := by
  let v := changeStake (s.voters.find? voter) total.amount
  -- a sum that does not fit becomes negative, and that is what is checked
  have hnonneg : 0 ≤ v.staked ↔ s.stakedOf voter + total.amount.toInt < 2 ^ 63 := by
    rw [Int64.le_iff_toInt_le, Int64.toInt_zero]
    unfold Asset.InRange at hr
    cases hfind : s.voters.find? voter with
    | none =>
      have hstaked : v.staked = total.amount := by
        show (changeStake (s.voters.find? voter) total.amount).staked = _
        rw [hfind]
        rfl
      rw [stakedOf, Table.valueAt_none hfind] at hcovered ⊢
      rw [hstaked]
      omega
    | some v₀ =>
      have hstaked : v.staked = v₀.staked + total.amount := by
        show (changeStake (s.voters.find? voter) total.amount).staked = _
        rw [hfind]
        rfl
      rw [stakedOf, Table.valueAt_some hfind] at h0 hcovered ⊢
      have hcases := Int64.toInt_add_cases v₀.staked total.amount
      have hlt₀ := v₀.staked.toInt_lt
      have hlt := (v₀.staked + total.amount).toInt_lt
      rw [hstaked]
      omega
  rw [← hnonneg]
  -- the check is all that can fail
  simp only [updateVotingPower, bind_eq_ok, check_eq_ok, if_neg hb1]
  constructor
  · rintro ⟨s', _, hle, -⟩
    exact hle
  · intro hle
    let s₁ : SystemState F := { s with voters := s.voters.set voter v }
    have hbase : ∀ g, s₁.baseOf g =
        if g = voter then some (changeBase (s.baseOf voter) total.amount) else s.baseOf g := by
      intro g
      rw [baseOf_set, base_changeStake]
      rfl
    -- with the new stake the invariant holds, so voting again succeeds
    have hI' : s₁.VotesInv := hI.changeStake (fun _ => rfl) hbase
    obtain ⟨s', hs'⟩ := updateVotes_ok ctx hI' (Table.find?_set_self _ _ _)
    -- the votes are weighed again only if there are any
    by_cases hvotes : v.producers.length ≠ 0 ∨ v.proxy.isSet
    · refine ⟨s', (), hle, (), rfl, ?_⟩
      rw [if_pos hvotes]
      exact hs'
    · refine ⟨s₁, (), hle, (), rfl, ?_⟩
      rw [if_neg hvotes]
      rfl

/-- In a run in which no vote for a producer without a row is cast with a negative weight, voting
    blocks no change of stake: one that has passed its own checks goes through exactly if the
    stake of the owner stays below the bound of 64 bits. -/
theorem stake_changes_not_blocked {s : SystemState F} (hs : s.NoVotes)
    {calls : List (AccountCall F)} (hcasts : Run.Meets accountStep CastsKnown s calls) :
    let u := Run.exec accountStep s calls
    ∀ ctx a p, votingPoint ctx u a = .ok p → p.owner ≠ Name.ofString "b1" →
      ((∃ s', p.state.updateVotingPower ctx p.owner p.total = .ok s') ↔
        u.stakedOf p.owner + p.total.amount.toInt < 2 ^ 63) := by
  intro u ctx a p hpoint hb1
  obtain ⟨hstake, hvotes⟩ := exec_accountStep_votes hs hcasts
  obtain ⟨hcovered, hr⟩ := votingPoint_covered hstake hpoint
  have hstate := votingPoint_state hstake.noRex hpoint
  have hstaked : p.state.stakedOf p.owner = u.stakedOf p.owner := by
    rw [hstate]
    rfl
  have hI : p.state.VotesInv := by
    rw [hstate]
    exact hvotes.of_weights ⟨fun _ => rfl, fun _ => rfl⟩
  rw [← hstaked] at hcovered ⊢
  exact updateVotingPower_ok_iff hI hb1 hr (hstaked ▸ hstake.stakedOf_nonneg p.owner) hcovered

/-! ## Samples -/

open Sample

omit [Double F] in
theorem eq_ok_of_toOption {ε α : Type} {x : Except ε α} {a : α} (h : x.toOption = some a) :
    x = .ok a := by
  cases x with
  | error e => cases h
  | ok b => exact congrArg Except.ok (Option.some.inj h)

/-- In the sample, alice adds to her stake after her proxy has unregistered and has chosen a proxy
    of its own. -/
theorem stake_changes_not_blocked_sample :
    ∃ p s', votingPoint (ctx [alice] launch) (Run.exec accountStep start chaining)
        (.delegatebw alice alice (utx 100) (utx 0) false) = .ok p ∧
      p.state.updateVotingPower (ctx [alice] launch) p.owner p.total = .ok s' := by
  have hmeets : Run.Meets accountStep CastsKnown start chaining := by decide +kernel
  have hpoint : (votingPoint (ctx [alice] launch) (Run.exec accountStep start chaining)
      (.delegatebw alice alice (utx 100) (utx 0) false)).toOption.map
        (fun p => (p.owner, p.total.amount)) = some (alice, 100) := by
    decide +kernel
  obtain ⟨p, hp, howner⟩ := Option.map_eq_some_iff.mp hpoint
  obtain ⟨hname, hamount⟩ := Prod.mk.inj howner
  have hp := eq_ok_of_toOption hp
  have hb1 : p.owner ≠ Name.ofString "b1" := by
    rw [hname]
    decide +kernel
  have hbound : (Run.exec accountStep start chaining).stakedOf p.owner + p.total.amount.toInt <
      2 ^ 63 := by
    rw [hname, hamount]
    decide +kernel
  obtain ⟨s', hs'⟩ := (stake_changes_not_blocked start_noVotes hmeets _ _ p hp hb1).mpr hbound
  exact ⟨p, s', hp, hs'⟩

/-- Both tokens are created and issued, the contract is initialised, and alice gets some UTX; the
    weights of votes are rounded. -/
def Sample.rounded : SystemState Binary64 :=
  Run.exec step (genesis 1048576 200000)
    [⟨ctx [tokenAccount] launch, .token (.create eosioAccount (utx 100000000000000))⟩,
      ⟨ctx [tokenAccount] launch, .token (.create eosioAccount (utxram 1000000000000))⟩,
      ⟨ctx [eosioAccount] launch, .token (.issue eosioAccount (utx 10000000000000) "")⟩,
      ⟨ctx [eosioAccount] launch, .token (.issue eosioAccount (utxram 1000000000000) "")⟩,
      ⟨ctx [systemAccount] launch, .init 0 core⟩,
      ⟨ctx [eosioAccount] launch, .token (.transfer eosioAccount alice (utx 100000) "")⟩]

/-- A large and a small voter choose bob, who has no stake, and leave him; what is left of their
    weights is negative. Then bob votes for alice, who is no producer. -/
def Sample.leaving : List (AccountCall Binary64) :=
  [⟨ctx [bob] launch, .system (.regproxy bob true) rfl⟩,
    ⟨ctx [eosioAccount] launch,
      .system (.delegatebw eosioAccount eosioAccount (utx 1000000000000) (utx 0) false) rfl⟩,
    ⟨ctx [alice] launch, .system (.delegatebw alice alice (utx 8) (utx 0) false) rfl⟩,
    ⟨ctx [eosioAccount] launch, .system (.voteproducer eosioAccount bob []) rfl⟩,
    ⟨ctx [alice] launch, .system (.voteproducer alice bob []) rfl⟩,
    ⟨ctx [eosioAccount] launch, .system (.voteproducer eosioAccount ⟨0⟩ []) rfl⟩,
    ⟨ctx [alice] launch, .system (.voteproducer alice ⟨0⟩ []) rfl⟩,
    ⟨ctx [bob] launch, .system (.voteproducer bob ⟨0⟩ [alice]) rfl⟩]

theorem Sample.rounded_noVotes : Sample.rounded.NoVotes where
  voters := Table.eq_empty_of_size (by decide +kernel)
  userres := Table.eq_empty_of_size (by decide +kernel)
  delband := Table.eq_empty_of_size (by decide +kernel)
  refunds := Table.eq_empty_of_size (by decide +kernel)
  rexbalance := Table.eq_empty_of_size (by decide +kernel)
  producers := Table.eq_empty_of_size (by decide +kernel)
  total := by decide +kernel

/-- In the sample with rounded weights, no stake can be given to bob any more: his vote is cast
    again, now with a positive weight. -/
theorem stake_change_blocked :
    Sample.rounded.NoVotes ∧ ∃ p, votingPoint (ctx [alice] launch)
        (Run.exec accountStep Sample.rounded Sample.leaving)
        (.delegatebw alice bob (utx 100) (utx 0) true) = .ok p ∧
      p.owner ≠ Name.ofString "b1" ∧
      p.state.updateVotingPower (ctx [alice] launch) p.owner p.total =
        .error "producer alice is not registered" := by
  refine ⟨Sample.rounded_noVotes, ?_⟩
  have hpoint : (votingPoint (ctx [alice] launch) (Run.exec accountStep Sample.rounded Sample.leaving)
      (.delegatebw alice bob (utx 100) (utx 0) true)).toOption.map
        (fun p => (p.owner, match p.state.updateVotingPower (ctx [alice] launch) p.owner p.total with
          | .ok _ => none
          | .error e => some e)) = some (bob, some "producer alice is not registered") := by
    decide +kernel
  obtain ⟨p, hp, hvote⟩ := Option.map_eq_some_iff.mp hpoint
  obtain ⟨hname, herror⟩ := Prod.mk.inj hvote
  refine ⟨p, eq_ok_of_toOption hp, ?_, ?_⟩
  · rw [hname]
    decide +kernel
  · split at herror
    · cases herror
    · rename_i e he
      rw [he, Option.some.inj herror]

/-- The stake account stakes without a transfer, so that its stake can outgrow 64 bits. -/
def Sample.outgrowing : List (AccountCall Rat) :=
  [alice, bob, eosioAccount].map fun receiver => ⟨ctx [stakeAccount] launch,
    .system (.delegatebw stakeAccount receiver (utx 4611686018427387903) (utx 0) false) rfl⟩

example : (Run.exec accountStep start Sample.outgrowing).stakedOf stakeAccount = 2 ^ 63 - 2 := by
  decide +kernel

end SystemState

end UxContracts
