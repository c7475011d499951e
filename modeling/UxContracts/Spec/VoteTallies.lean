import UxContracts.Spec.ExactWeights

/-!
# Votes add up

With exact weights, `propagate_weight_change` keeps every gap, provided that it drops no change
(`propagate_tally`): what a voter's last weight changes by is added to its proxy, or to its
producers. `update_votes` takes the old weight out and puts the new one in, and so closes the gaps
again that these two steps open (`updateVotes_tally`).

Weights stay not negative (`NonnegWeights`), since a proxied weight that is a sum of last weights
covers each of them. So the votes of a producer cover what is taken from them, and are never
clamped.
-/

namespace UxContracts

open Chain

namespace SystemState

variable {F K : Type} [Double F] [CommRing K] [LinearOrder K]

/-! ## Weights are not negative -/

/-- The factor of the current time in `stake2vote`. -/
def voteFactor (ctx : Context) : F :=
  let weeks := ((ctx.now.secSinceEpoch.toNat : Int) - 946684800).tdiv (24 * 3600 * 7)
  Double.pow (Double.ofInt 2) (Double.ofInt weeks / Double.ofInt 52)

theorem stake2vote_eq (ctx : Context) (staked : Int64) :
    (stake2vote ctx staked : F) = Double.ofInt staked.toInt * voteFactor ctx := rfl

/-- Neither stakes nor weights are negative. -/
structure NonnegRow (E : ExactReading F K) (v : VoterInfo F) : Prop where
  staked : 0 ≤ v.staked.toInt
  last : 0 ≤ E.val v.lastVoteWeight
  proxied : 0 ≤ E.val v.proxiedVoteWeight

def NonnegWeights (E : ExactReading F K) (s : SystemState F) : Prop :=
  ∀ f v, s.voters.find? f = some v → NonnegRow E v

theorem NonnegWeights.of_voters {E : ExactReading F K} {s s' : SystemState F}
    (h : NonnegWeights E s) (hv : s'.voters = s.voters) : NonnegWeights E s' := by
  intro f v hf
  rw [hv] at hf
  exact h f v hf

theorem NonnegWeights.set {E : ExactReading F K} {s : SystemState F} (h : NonnegWeights E s)
    {f : Name} {v : VoterInfo F} (hv : NonnegRow E v) :
    NonnegWeights E { s with voters := s.voters.set f v } := by
  intro f' v' hf'
  rw [Table.find?_set] at hf'
  split at hf'
  · cases hf'
    exact hv
  · exact h f' v' hf'

variable [IsStrictOrderedRing K] (E : ExactReading F K)

/-- A row without negative entries votes with a weight that is not negative. -/
theorem newVoteWeight_nonneg {ctx : Context} (hfactor : 0 < E.val (voteFactor ctx : F))
    {v : VoterInfo F} (hv : NonnegRow E v) : 0 ≤ E.val (newVoteWeight ctx v : F) := by
  have hstake : 0 ≤ E.val (stake2vote ctx v.staked : F) := by
    rw [stake2vote_eq, E.val_mul, E.val_ofInt]
    exact mul_nonneg (Int.cast_nonneg hv.staked) hfactor.le
  simp only [newVoteWeight]
  split
  · rw [E.val_add]
    exact add_nonneg hstake hv.proxied
  · exact hstake

/-- The proxied weight of an account without a gap covers the last weight of every voter that
    uses it. -/
theorem last_le_proxied {s : SystemState F} (hs : NonnegWeights E s) {f p : Name} {v : VoterInfo F}
    (hv : s.voters.find? f = some v) (hlink : v.base.link = some p) (hgap : s.proxyGap E p = 0) :
    E.val v.lastVoteWeight ≤ s.proxiedOf E p := by
  have hle : toProxy E p v ≤ s.voters.sum fun _ v => toProxy E p v := by
    apply Table.le_sum _ hv
    intro f' v' hv'
    unfold toProxy
    split
    · exact (hs f' v' hv').last
    · exact le_rfl
  unfold toProxy at hle
  rw [if_pos hlink] at hle
  unfold proxyGap toProxy at hgap
  linarith

/-- The votes of a producer without a gap cover the last weight of every voter that lists it. -/
theorem last_le_votes {s : SystemState F} (hs : NonnegWeights E s) {f p : Name} {v : VoterInfo F}
    (hv : s.voters.find? f = some v) (hp : p ∈ v.producers) (hgap : s.votesGap E p = 0) :
    E.val v.lastVoteWeight ≤ s.votesOf E p := by
  have hle : toProducer E p v ≤ s.voters.sum fun _ v => toProducer E p v := by
    apply Table.le_sum _ hv
    intro f' v' hv'
    unfold toProducer
    split
    · exact (hs f' v' hv').last
    · exact le_rfl
  unfold toProducer at hle
  rw [if_pos hp] at hle
  unfold votesGap toProducer at hgap
  linarith

/-! ## Passing on a changed weight -/

/-- A call of `propagate_weight_change` passes every change of a weight on, however small. -/
def PassesOn (ctx : Context) : Nat → SystemState F → Name → Prop
  | 0, _, _ => True
  | depth + 1, s, owner =>
    ∀ voter ∈ s.voters.find? owner,
      let delta : F := newVoteWeight ctx voter - voter.lastVoteWeight
      (Double.ofInt 0 < Double.fabs delta → Double.ofInt 1 < Double.fabs delta) ∧
      (Double.ofInt 1 < Double.fabs delta → voter.proxy.isSet →
        ∀ proxy ∈ s.voters.find? voter.proxy,
          let proxied := proxy.proxiedVoteWeight + delta
          let voters := s.voters.set voter.proxy { proxy with proxiedVoteWeight := proxied }
          PassesOn ctx depth { s with voters := voters } voter.proxy)

instance decidablePassesOn (ctx : Context) :
    (depth : Nat) → (s : SystemState F) → (owner : Name) → Decidable (PassesOn ctx depth s owner)
  | 0, _, _ => isTrue trivial
  | depth + 1, s, owner =>
    have := decidablePassesOn ctx depth
    inferInstanceAs (Decidable (∀ voter ∈ s.voters.find? owner, _))

omit [IsStrictOrderedRing K] [CommRing K] [LinearOrder K] in
/-- The row of the owner is still as it was when its weight has been passed on. -/
theorem passOn_row {ctx : Context} {depth : Nat} {s u : SystemState F} {owner : Name}
    {voter : VoterInfo F} (hI : s.GraphInv) (hv : s.voters.find? owner = some voter)
    (h : passOn ctx depth s voter = .ok u) : u.voters.find? owner = some voter := by
  simp only [passOn] at h
  split at h
  · split at h
    · -- the proxy is another account, since there is no cycle
      rename_i hset
      simp only [bind_eq_ok, getRow_eq_ok] at h
      obtain ⟨proxy, hp, h⟩ := h
      obtain ⟨rank, hfall⟩ := hI.acyclic
      have hnot := hfall.not_leads (link_of_row hv hset)
      have hne : owner ≠ voter.proxy := by
        intro heq
        exact hnot (heq ▸ .refl)
      rw [propagate_other h]
      · rw [Table.find?_set_ne _ _ hne, hv]
      · rw [(weightFrame_setProxied hp _).proxyOf]
        exact hnot
    · -- the producers have rows of their own
      simp only [bind_eq_ok, pure_eq_ok] at h
      obtain ⟨⟨u', acc⟩, hloop, rfl⟩ := h
      show u'.voters.find? owner = _
      rw [(propagateToProducers_weights hloop).2, hv]
  · -- nothing is passed on
    exact pure_eq_ok.mp h ▸ hv

variable {E}

/-- What is passed on opens the gaps of the proxy, or of the producers, by the change. -/
theorem passOn_tally {ctx : Context} {depth : Nat} {s u : SystemState F} {owner : Name}
    {voter : VoterInfo F} (hI : s.VotesInv) (hv : s.voters.find? owner = some voter)
    (hpass : PassesOn ctx (depth + 1) s owner)
    (hcall : ∀ (t t' : SystemState F) p, t.VotesInv → PassesOn ctx depth t p →
      propagateWeightChange ctx depth t p = .ok t' → SameGaps E t t')
    (h : passOn ctx depth s voter = .ok u) :
    let change := E.val (newVoteWeight ctx voter : F) - E.val voter.lastVoteWeight
    (∀ a, u.proxyGap E a = s.proxyGap E a + if voter.base.link = some a then change else 0) ∧
      (∀ p, u.votesGap E p = s.votesGap E p + if p ∈ voter.producers then change else 0) ∧
      u.totalGap E = s.totalGap E := by
  intro change
  have hchange : change = E.val (newVoteWeight ctx voter - voter.lastVoteWeight) :=
    (E.val_sub _ _).symm
  -- the vote in the row has been checked when it was cast
  have hchecked := hI.checked owner voter.base (baseOf_some hv)
  obtain ⟨hsmall, hlarge⟩ := hpass voter hv
  simp only [passOn] at h
  split at h
  · rename_i hfabs
    split at h
    · -- the change goes to the proxy
      rename_i hset
      simp only [bind_eq_ok, getRow_eq_ok] at h
      obtain ⟨proxy, hp, h⟩ := h
      -- what the proxy has got is passed on by the call
      have hgaps := hcall _ _ _ (hI.of_weights (weightFrame_setProxied hp _))
        (hlarge hfabs hset proxy hp) h
      refine ⟨fun a => ?_, fun p => ?_, hgaps.total⟩
      · have hlink : voter.base.link = some a ↔ a = voter.proxy := by
          rw [VoterBase.link_eq_some]
          exact ⟨fun heq => heq.1.symm, fun heq => ⟨heq.symm, heq ▸ hset⟩⟩
        rw [hgaps.proxy, proxyGap_setProxied E hp, E.val_add, ← hchange]
        simp only [hlink, add_sub_cancel_left]
      · rw [hgaps.votes, votesGap_setProxied E hp]
        have hnil : voter.producers = [] := (checkVote_proxy hchecked hset).1
        rw [hnil, if_neg List.not_mem_nil, add_zero]
    · -- or to the producers that are voted for
      rename_i hset
      simp only [bind_eq_ok, pure_eq_ok] at h
      obtain ⟨⟨u', acc⟩, hloop, rfl⟩ := h
      have hvoters := (propagateToProducers_weights hloop).2
      obtain ⟨hvotes, htotal⟩ := propagateToProducers_tally E (checkVote_nodup hchecked) hloop
      -- no proxy has a gap by it
      refine ⟨fun a => ?_, fun p => ?_, htotal⟩
      · have hnone : voter.base.link = none := VoterBase.link_eq_none.mpr hset
        rw [hnone, if_neg (Option.some_ne_none a).symm, add_zero]
        unfold proxyGap proxiedOf
        show u'.voters.valueAt a _ - u'.voters.sum _ = _
        -- each producer has the gap of its voter closed
        rw [hvoters]
      · unfold votesGap
        show u'.votesOf E p - u'.voters.sum _ = _
        rw [hvotes, hvoters, ← hchange]
        show _ + (if p ∈ voter.producers then change else 0) - _ = _
        ring
  · -- the change is zero, since a small one would be dropped
    rename_i hfabs
    have hzero : change = 0 := by
      have hno : ¬ Double.ofInt 0 < Double.fabs (newVoteWeight ctx voter - voter.lastVoteWeight) :=
        fun hpos => hfabs (hsmall hpos)
      rw [E.lt_iff, E.val_zero, E.val_fabs, ← hchange, not_lt] at hno
      exact abs_nonpos_iff.mp hno
    rw [← pure_eq_ok.mp h, hzero]
    -- so nothing has to be passed on
    refine ⟨fun a => ?_, fun p => ?_, rfl⟩
    · rw [ite_self, add_zero]
    · rw [ite_self, add_zero]

/-- A propagation keeps every gap. -/
theorem propagate_tally {ctx : Context} {depth : Nat} {s s' : SystemState F} {owner : Name}
    (hI : s.VotesInv) (hpass : PassesOn ctx depth s owner)
    (h : propagateWeightChange ctx depth s owner = .ok s') : SameGaps E s s' := by
  induction depth generalizing s s' owner with
  | zero => cases h
  | succ depth ih =>
    obtain ⟨voter, hv, -, u, hu, voter', hv', rfl⟩ := propagate_eq_ok.mp h
    have hrow := passOn_row hI.toGraphInv hv hu
    obtain rfl : voter' = voter := by
      rw [hrow] at hv'
      exact (Option.some.inj hv').symm
    obtain ⟨hproxy, hvotes, htotal⟩ := passOn_tally hI hv hpass (fun _ _ _ => ih) hu
    refine ⟨fun a => ?_, fun p => ?_, htotal⟩
    · rw [proxyGap_setLast E hrow, hproxy]
      ring
    · rw [votesGap_setLast E hrow, hvotes]
      ring

/-- A propagation keeps weights from being negative, if the accounts further down the chain have no
    gap. -/
theorem propagate_nonneg {ctx : Context} (hfactor : 0 < E.val (voteFactor ctx : F)) {depth : Nat}
    {s s' : SystemState F} {owner : Name} (hI : s.VotesInv) (hs : NonnegWeights E s)
    (hchain : ∀ a, Relation.TransGen (Link s.proxyOf) owner a → s.proxyGap E a = 0)
    (h : propagateWeightChange ctx depth s owner = .ok s') : NonnegWeights E s' := by
  -- induction on the depth, along the chain of proxies
  induction depth generalizing s s' owner with
  | zero => cases h
  | succ depth ih =>
    obtain ⟨voter, hv, -, u, hu, voter', hv', rfl⟩ := propagate_eq_ok.mp h
    -- nothing that is passed on comes back to the owner
    have hrow := passOn_row hI.toGraphInv hv hu
    obtain rfl : voter' = voter := by
      rw [hrow] at hv'
      exact (Option.some.inj hv').symm
    have hnew := newVoteWeight_nonneg E hfactor (hs owner voter' hv)
    have hu' : NonnegWeights E u := by
      simp only [passOn] at hu
      split at hu
      · split at hu
        · rename_i hset
          simp only [bind_eq_ok, getRow_eq_ok] at hu
          obtain ⟨proxy, hp, hu⟩ := hu
          have hlink := link_of_row hv hset
          have hframe := weightFrame_setProxied hp
            (proxy.proxiedVoteWeight + (newVoteWeight ctx voter' - voter'.lastVoteWeight))
          -- the proxied weight covers the last weight, which the new one replaces
          have hcover : E.val voter'.lastVoteWeight ≤ s.proxiedOf E voter'.proxy :=
            last_le_proxied E hs hv (VoterBase.link_eq_some.mpr ⟨rfl, hset⟩)
              (hchain _ (.single hlink))
          rw [proxiedOf, Table.valueAt_some hp] at hcover
          have hold := hs _ proxy hp
          apply ih (hI.of_weights hframe) (hs.set ⟨hold.staked, hold.last, ?_⟩) _ hu
          · -- the proxied weight stays non-negative
            show 0 ≤ E.val (proxy.proxiedVoteWeight + _)
            rw [E.val_add, E.val_sub]
            linarith
          · -- and no account further down the chain has a gap
            intro a ha
            rw [hframe.proxyOf] at ha
            have hne : a ≠ voter'.proxy := by
              rintro rfl
              exact hI.acyclic.not_transGen ha
            rw [proxyGap_setProxied E hp, if_neg hne, add_zero]
            exact hchain a (.head hlink ha)
        · simp only [bind_eq_ok, pure_eq_ok] at hu
          obtain ⟨⟨u', acc⟩, hloop, rfl⟩ := hu
          exact hs.of_voters (propagateToProducers_weights hloop).2
      · exact pure_eq_ok.mp hu ▸ hs
    -- the owner stores its new weight
    have hold := hs owner voter' hv
    exact hu'.set ⟨hold.staked, hnew, hold.proxied⟩

/-! ## Taking the old vote back -/

/-- The delta of a producer. -/
def deltaOf (E : ExactReading F K) (deltas : ProducerDeltas F) (p : Name) : K :=
  deltas.valueAt p fun d => E.val d.1

omit [IsStrictOrderedRing K] in
/-- The deltas of the listed producers are changed by `c`. -/
theorem deltaOf_changeDeltas {change : F → F} {c : K}
    (hchange : ∀ d, E.val (change d) = E.val d + c) (isNew : Bool) (deltas : ProducerDeltas F)
    {producers : List Name} (hnodup : producers.Nodup) (p : Name) :
    deltaOf E (changeDeltas change isNew deltas producers) p =
      deltaOf E deltas p + if p ∈ producers then c else 0 := by
  unfold deltaOf Table.valueAt
  rw [changeDeltas_find? _ _ _ hnodup]
  split
  · rw [Option.elim_some, hchange]
    cases deltas.find? p with
    | none => rw [Option.getD_none, Option.elim_none, E.val_zero]
    | some d => rfl
  · rw [add_zero]

structure NoGaps (E : ExactReading F K) (s : SystemState F) : Prop where
  proxy : ∀ a, s.proxyGap E a = 0
  votes : ∀ p, s.votesGap E p = 0
  total : s.totalGap E = 0

omit [IsStrictOrderedRing K] in
theorem NoGaps.of_same {s s' : SystemState F} (h : NoGaps E s) (hsame : SameGaps E s s') :
    NoGaps E s' :=
  ⟨fun a => (hsame.proxy a).trans (h.proxy a), fun p => (hsame.votes p).trans (h.votes p),
    hsame.total.trans h.total⟩

/-- The proxied weight of `p` is set to `w`, and what has changed is passed on. -/
def ProxiedPasses (ctx : Context) (s : SystemState F) (p : Name) (w : VoterInfo F → F) : Prop :=
  ∀ proxy ∈ s.voters.find? p,
    PassesOn ctx s.proxyDepth
      { s with voters := s.voters.set p { proxy with proxiedVoteWeight := w proxy } } p

instance (ctx : Context) (s : SystemState F) (p : Name) (w : VoterInfo F → F) :
    Decidable (ProxiedPasses ctx s p w) :=
  inferInstanceAs (Decidable (∀ proxy ∈ s.voters.find? p, _))

def UndoPasses (ctx : Context) (s : SystemState F) (voter : VoterInfo F) : Prop :=
  Double.ofInt 0 < voter.lastVoteWeight → voter.proxy.isSet →
    ProxiedPasses ctx s voter.proxy fun old => old.proxiedVoteWeight - voter.lastVoteWeight

instance (ctx : Context) (s : SystemState F) (voter : VoterInfo F) :
    Decidable (UndoPasses ctx s voter) :=
  inferInstanceAs (Decidable (_ → _))

/-- A call for a proxy whose weight has been changed by `change`, in a state in which the accounts
    further down the chain have no gap. -/
theorem propagate_setProxied_tally {ctx : Context} (hfactor : 0 < E.val (voteFactor ctx : F))
    {s s' : SystemState F} {p : Name} {proxy : VoterInfo F} {w : VoterInfo F → F}
    (hI : s.VotesInv) (hs : NonnegWeights E s) (hp : s.voters.find? p = some proxy)
    (hw : 0 ≤ E.val (w proxy))
    (hchain : ∀ a, Relation.TransGen (Link s.proxyOf) p a → s.proxyGap E a = 0)
    (hpass : ProxiedPasses ctx s p w)
    (h : propagateWeightChange ctx s.proxyDepth
      { s with voters := s.voters.set p { proxy with proxiedVoteWeight := w proxy } } p = .ok s') :
    (∀ a, s'.proxyGap E a =
      s.proxyGap E a + if a = p then E.val (w proxy) - E.val proxy.proxiedVoteWeight else 0) ∧
    (∀ q, s'.votesGap E q = s.votesGap E q) ∧ s'.totalGap E = s.totalGap E ∧
      NonnegWeights E s' := by
  have hframe := weightFrame_setProxied hp (w proxy)
  have hI' := hI.of_weights hframe
  have hgaps : SameGaps E _ s' := propagate_tally hI' (hpass proxy hp) h
  have hold := hs p proxy hp
  refine ⟨fun a => ?_, fun q => ?_, hgaps.total, ?_⟩
  · rw [hgaps.proxy, proxyGap_setProxied E hp]
  · rw [hgaps.votes, votesGap_setProxied E hp]
  · apply propagate_nonneg hfactor hI' (hs.set ⟨hold.staked, hold.last, hw⟩) _ h
    intro a ha
    rw [hframe.proxyOf] at ha
    have hne : a ≠ p := by
      rintro rfl
      exact hI.acyclic.not_transGen ha
    rw [proxyGap_setProxied E hp, if_neg hne, add_zero]
    exact hchain a ha

/-- The last vote is taken out of the proxy's weight, or out of the votes to come. -/
theorem undoVote_tally {ctx : Context} (hfactor : 0 < E.val (voteFactor ctx : F))
    {s s' : SystemState F} {voterName : Name} {voter : VoterInfo F} {deltas : ProducerDeltas F}
    (hI : s.VotesInv) (hs : NonnegWeights E s) (hgap : ∀ a, s.proxyGap E a = 0)
    (hv : s.voters.find? voterName = some voter) (hpass : UndoPasses ctx s voter)
    (h : s.undoVote ctx voter = .ok (s', deltas)) :
    (∀ a, s'.proxyGap E a = -toProxy E a voter) ∧
    (∀ q, s'.votesGap E q = s.votesGap E q) ∧ s'.totalGap E = s.totalGap E ∧
      NonnegWeights E s' ∧ ∀ p, deltaOf E deltas p = -toProducer E p voter := by
  have hchecked := hI.checked voterName voter.base (baseOf_some hv)
  unfold undoVote at h
  split at h
  · -- the last weight is positive, and has to be taken back
    rename_i hpos
    split at h
    · rename_i hset
      simp only [bind_eq_ok, getRow_eq_ok, pure_eq_ok, Prod.mk.injEq] at h
      obtain ⟨proxy, hp, u, hu, rfl, rfl⟩ := h
      -- the proxy has the weight of all that vote through it, so it stays above zero
      have hcover : E.val voter.lastVoteWeight ≤ s.proxiedOf E voter.proxy :=
        last_le_proxied E hs hv (VoterBase.link_eq_some.mpr ⟨rfl, hset⟩) (hgap _)
      rw [proxiedOf, Table.valueAt_some hp] at hcover
      have hw : 0 ≤ E.val (proxy.proxiedVoteWeight - voter.lastVoteWeight) := by
        rw [E.val_sub]
        linarith
      obtain ⟨hproxy, hvotes, htotal, hnonneg⟩ := propagate_setProxied_tally hfactor hI hs hp
        (w := fun old => old.proxiedVoteWeight - voter.lastVoteWeight) hw (fun a _ => hgap a)
        (hpass hpos hset) hu
      refine ⟨fun a => ?_, hvotes, htotal, hnonneg, fun p => ?_⟩
      · -- from the proxy
        have hlink : voter.base.link = some a ↔ a = voter.proxy := by
          rw [VoterBase.link_eq_some]
          exact ⟨fun heq => heq.1.symm, fun heq => ⟨heq.symm, heq ▸ hset⟩⟩
        rw [hproxy, hgap, E.val_sub]
        simp only [toProxy, hlink]
        split
        · ring
        · ring
      · -- a vote for a proxy names no producer
        have hnil : voter.producers = [] := (checkVote_proxy hchecked hset).1
        rw [toProducer, hnil, if_neg List.not_mem_nil, neg_zero]
        rfl
    · -- or from the producers, in the table of changes
      rename_i hset
      simp only [pure_eq_ok, Prod.mk.injEq] at h
      obtain ⟨rfl, rfl⟩ := h
      refine ⟨fun a => ?_, fun _ => rfl, rfl, hs, fun p => ?_⟩
      · rw [hgap, toProxy, VoterBase.link_eq_none.mpr hset, if_neg (Option.some_ne_none a).symm, neg_zero]
      · -- each of them once
        have hnodup : voter.producers.Nodup := checkVote_nodup hchecked
        rw [deltaOf_changeDeltas (c := -E.val voter.lastVoteWeight) _ _ _ hnodup, toProducer]
        · show 0 + _ = _
          split
          · ring
          · ring
        · intro d
          rw [E.val_sub, sub_eq_add_neg]
  · -- the last weight is zero
    rename_i hpos
    simp only [pure_eq_ok, Prod.mk.injEq] at h
    obtain ⟨rfl, rfl⟩ := h
    have hzero : E.val voter.lastVoteWeight = 0 := by
      rw [E.lt_iff, E.val_zero, not_lt] at hpos
      exact le_antisymm hpos (hs voterName voter hv).last
    refine ⟨fun a => ?_, fun _ => rfl, rfl, hs, fun p => ?_⟩
    · rw [hgap, toProxy, hzero, ite_self, neg_zero]
    · rw [toProducer, hzero, ite_self, neg_zero]
      rfl

/-! ## Casting the new vote -/

/-- What a vote adds to the proxied weight of `a`. -/
def newProxied (proxy a : Name) (weight : K) : K := if proxy = a ∧ a.isSet then weight else 0

def CastPasses (ctx : Context) (s : SystemState F) (proxy : Name) (weight : F) : Prop :=
  proxy.isSet → Double.ofInt 0 ≤ weight →
    ProxiedPasses ctx s proxy fun new => new.proxiedVoteWeight + weight

instance (ctx : Context) (s : SystemState F) (proxy : Name) (weight : F) :
    Decidable (CastPasses ctx s proxy weight) :=
  inferInstanceAs (Decidable (_ → _))

/-- The new weight is given to the proxy, or to the votes to come. -/
theorem castVote_tally {ctx : Context} (hfactor : 0 < E.val (voteFactor ctx : F))
    {s s' : SystemState F} {voterName proxy : Name} {producers : List Name} {weight : F}
    {voting : Bool} {deltas deltas' : ProducerDeltas F} (hI : s.VotesInv) (hs : NonnegWeights E s)
    (hweight : 0 ≤ E.val weight) (hchecked : checkVote voterName proxy producers = .ok ())
    (hchain : proxy.isSet → ∀ a, Relation.TransGen (Link s.proxyOf) proxy a → s.proxyGap E a = 0)
    (hpass : CastPasses ctx s proxy weight)
    (h : s.castVote ctx deltas proxy producers weight voting = .ok (s', deltas')) :
    (∀ a, s'.proxyGap E a = s.proxyGap E a + newProxied proxy a (E.val weight)) ∧
    (∀ q, s'.votesGap E q = s.votesGap E q) ∧ s'.totalGap E = s.totalGap E ∧
      NonnegWeights E s' ∧
      ∀ p, deltaOf E deltas' p = deltaOf E deltas p + if p ∈ producers then E.val weight else 0 := by
  have hle : Double.ofInt 0 ≤ weight := by
    rw [E.le_iff, E.val_zero]
    exact hweight
  unfold castVote at h
  split at h
  · -- the weight goes to the new proxy
    rename_i hset
    simp only [bind_eq_ok, getRow_eq_ok, check_eq_ok, pure_eq_ok, Prod.mk.injEq] at h
    obtain ⟨new, hp, _, -, u, hu, rfl, rfl⟩ := h
    have hw : 0 ≤ E.val (new.proxiedVoteWeight + weight) := by
      rw [E.val_add]
      exact add_nonneg (hs proxy new hp).proxied hweight
    obtain ⟨hproxy, hvotes, htotal, hnonneg⟩ := propagate_setProxied_tally hfactor hI hs hp
      (w := fun new => new.proxiedVoteWeight + weight) hw (hchain hset) (hpass hset hle) hu
    refine ⟨fun a => ?_, hvotes, htotal, hnonneg, fun p => ?_⟩
    · have hnew : proxy = a ∧ a.isSet ↔ a = proxy :=
        ⟨fun heq => heq.1.symm, fun heq => ⟨heq.symm, heq ▸ hset⟩⟩
      rw [hproxy, E.val_add, add_sub_cancel_left]
      simp only [newProxied, hnew]
    · rw [(checkVote_proxy hchecked hset).1, if_neg List.not_mem_nil, add_zero]
  · -- or to the producers that are named
    rename_i hset
    simp only [pure_eq_ok, Prod.mk.injEq] at h
    obtain ⟨rfl, rfl⟩ := h
    refine ⟨fun a => ?_, fun _ => rfl, rfl, hs, fun p => ?_⟩
    · have hno : ¬ (proxy = a ∧ a.isSet) := fun heq => hset (heq.1 ▸ heq.2)
      rw [newProxied, if_neg hno, add_zero]
    · -- each of them once
      exact deltaOf_changeDeltas (fun d => E.val_add d weight) true deltas
        (checkVote_nodup hchecked) p

/-! ## The loop over the changed producers -/

/-- The calls of `propagate_weight_change` in `update_votes` pass every change on. -/
def VotePasses (ctx : Context) (s : SystemState F) (voterName proxy : Name) : Prop :=
  ∀ voter ∈ s.voters.find? voterName,
    UndoPasses ctx (s.activateStake ctx voter) voter ∧
    ∀ r ∈ ((s.activateStake ctx voter).undoVote ctx voter).toOption,
      CastPasses ctx r.1 proxy (newVoteWeight ctx voter)

instance (ctx : Context) (s : SystemState F) (voterName proxy : Name) :
    Decidable (VotePasses ctx s voterName proxy) :=
  inferInstanceAs (Decidable (∀ voter ∈ s.voters.find? voterName, _))

/-- `update_votes` comes to its loop over the changed producers with the state `t`. -/
structure VoteLoop (ctx : Context) (s : SystemState F) (voterName proxy : Name)
    (producers : List Name) (voting : Bool) (voter : VoterInfo F) (t : SystemState F)
    (deltas : ProducerDeltas F) : Prop where
  checked : checkVote voterName proxy producers = .ok ()
  row : s.voters.find? voterName = some voter
  notProxy : ¬ proxy.isSet ∨ ¬ voter.isProxy
  cast : ∃ s₁ d₁, (s.activateStake ctx voter).undoVote ctx voter = .ok (s₁, d₁) ∧
    s₁.castVote ctx d₁ proxy producers (newVoteWeight ctx voter) voting = .ok (t, deltas)

/-- What is still missing when `update_votes` comes to its loop. -/
structure LoopTally (E : ExactReading F K) (ctx : Context) (voterName proxy : Name)
    (producers : List Name) (voter : VoterInfo F) (t : SystemState F)
    (deltas : ProducerDeltas F) : Prop where
  row : t.voters.find? voterName = some voter
  nonneg : NonnegWeights E t
  weight : 0 ≤ E.val (newVoteWeight ctx voter : F)
  proxy : ∀ a, t.proxyGap E a =
    newProxied proxy a (E.val (newVoteWeight ctx voter : F)) - toProxy E a voter
  votes : ∀ p, t.votesGap E p = 0
  total : t.totalGap E = 0
  delta : ∀ p, deltaOf E deltas p =
    (if p ∈ producers then E.val (newVoteWeight ctx voter : F) else 0) - toProducer E p voter

/-- Before the loop over the changes of a vote, the gaps are what the changes will close. -/
theorem VoteLoop.tally {ctx : Context} (hfactor : 0 < E.val (voteFactor ctx : F))
    {s t : SystemState F} {voterName proxy : Name} {producers : List Name} {voting : Bool}
    {voter : VoterInfo F} {deltas : ProducerDeltas F} (hI : s.VotesInv) (hs : NonnegWeights E s)
    (hgaps : NoGaps E s) (hchoice : s.Chooses voterName proxy voting)
    (hpass : VotePasses ctx s voterName proxy)
    (h : VoteLoop ctx s voterName proxy producers voting voter t deltas) :
    LoopTally E ctx voterName proxy producers voter t deltas := by
  obtain ⟨s₁, d₁, hundo, hcast⟩ := h.cast
  obtain ⟨hundoes, hcasts⟩ := hpass voter h.row
  -- stakes that are activated are no part of the tallies
  obtain ⟨hframe, hvoters⟩ := activateStake_weights ctx s voter
  have hsame : SameGaps E s (s.activateStake ctx voter) := by
    unfold activateStake
    split
    · exact ⟨fun _ => rfl, fun _ => rfl, rfl⟩
    · exact .refl s
  -- the state in which the old vote is undone
  have hgaps₀ := hgaps.of_same hsame
  have hI₀ := hI.of_weights hframe
  have hrow₀ : (s.activateStake ctx voter).voters.find? voterName = some voter := by
    rw [hvoters]
    exact h.row
  -- after that only the old proxy has a gap
  obtain ⟨hproxy₁, hvotes₁, htotal₁, hnonneg₁, hdelta₁⟩ := undoVote_tally hfactor hI₀
    (hs.of_voters hvoters) hgaps₀.proxy hrow₀ hundoes hundo
  have hframe₁ := hframe.trans (undoVote_weights hundo)
  have hI₁ := hI.of_weights hframe₁
  have hrow₁ := undoVote_row hI₀.toGraphInv hrow₀ hundo
  -- the new weight is not negative
  have hweight := newVoteWeight_nonneg E hfactor (hs voterName voter h.row)
  obtain ⟨hcastFrame, hcastProxy⟩ := castVote_weights hcast
  -- the old proxy is the only account with a gap, and it is not further down the new chain
  have hchain : proxy.isSet → ∀ a, Relation.TransGen (Link s₁.proxyOf) proxy a →
      s₁.proxyGap E a = 0 := by
    intro hset a ha
    rw [hproxy₁, toProxy, if_neg, neg_zero]
    intro hlink
    have hold : s₁.proxyOf voterName = some a := by
      rw [proxyOf_some hrow₁]
      exact hlink
    obtain ⟨pb, hpb, hisProxy⟩ := hcastProxy hset
    rcases hchoice with hvoting | hstored
    · -- a registered proxy is the end of its chain
      obtain ⟨b, hfirst, -⟩ := Relation.TransGen.head'_iff.mp ha
      unfold Link at hfirst
      rw [hI₁.proxyOf_proxy hpb (hisProxy hvoting)] at hfirst
      cases hfirst
    · -- a vote that is cast again keeps its proxy
      have hsame : some a = some proxy := by
        rw [← hold, hframe₁.proxyOf]
        exact hstored hset
      rw [Option.some.inj hsame] at ha
      exact hI₁.acyclic.not_transGen ha
  -- then the new vote is cast
  obtain ⟨hproxy₂, hvotes₂, htotal₂, hnonneg₂, hdelta₂⟩ := castVote_tally hfactor hI₁ hnonneg₁
    hweight h.checked hchain (hcasts (s₁, d₁) (by rw [hundo]; rfl)) hcast
  refine ⟨?_, hnonneg₂, hweight, fun a => ?_, fun p => ?_, ?_, fun p => ?_⟩
  · -- casting has not written the row of the voter
    rw [castVote_row (fun hset => ?_) hcast, hrow₁]
    obtain ⟨pb, hpb, hisProxy⟩ := hcastProxy hset
    rw [hframe₁.base] at hpb
    rw [hframe₁.proxyOf]
    exact hI.not_leads h.checked hset hpb hisProxy hchoice
  · -- the two gaps of the proxies add up
    rw [hproxy₂, hproxy₁]
    ring
  · -- the producers are left to the table of changes
    rw [hvotes₂, hvotes₁, hgaps₀.votes]
  · rw [htotal₂, htotal₁, hgaps₀.total]
  · rw [hdelta₂, hdelta₁]
    ring

/-- The loop does not take more from a producer than the producer has. -/
theorem LoopTally.unclamped {ctx : Context} {t : SystemState F} {voterName proxy : Name}
    {producers : List Name} {voter : VoterInfo F} {deltas : ProducerDeltas F}
    (h : LoopTally E ctx voterName proxy producers voter t deltas) {p : Name} {d : F} {b : Bool}
    (hd : (p, d, b) ∈ deltas.rows) : 0 ≤ t.votesOf E p + E.val d := by
  have hdelta := h.delta p
  rw [deltaOf, Table.valueAt_some (Table.mem_rows.mp hd)] at hdelta
  -- what the new vote adds is not negative
  have hnew : 0 ≤ if p ∈ producers then E.val (newVoteWeight ctx voter : F) else 0 := by
    split
    · exact h.weight
    · exact le_rfl
  -- what the old vote takes away is a part of the votes
  have hold : toProducer E p voter ≤ t.votesOf E p := by
    unfold toProducer
    split
    · rename_i hp
      exact last_le_votes E h.nonneg h.row hp (h.votes p)
    · -- a producer that was not voted for loses nothing
      have hsum : 0 ≤ t.voters.sum fun _ v => toProducer E p v := by
        apply Table.sum_nonneg
        intro f v hv
        unfold toProducer
        split
        · exact (h.nonneg f v hv).last
        · exact le_rfl
      have hgap := h.votes p
      unfold votesGap at hgap
      linarith
  rw [hdelta]
  linarith

/-- What `update_votes` does from the loop on. -/
theorem updateVotes_loop {ctx : Context} {s s' : SystemState F} {voterName proxy : Name}
    {producers : List Name} {voting : Bool}
    (h : s.updateVotes ctx voterName proxy producers voting = .ok s') :
    ∃ voter t deltas u acc, VoteLoop ctx s voterName proxy producers voting voter t deltas ∧
      applyDeltas ctx voting t ⟨Double.ofInt 0, Double.ofInt 0⟩ deltas.rows = .ok (u, acc) ∧
      ∃ voter', u.voters.find? voterName = some voter' ∧
        s' = { u.updateTotalVotepayShare ctx.now (-acc.totalInactiveVpayShare)
            acc.deltaChangeRate with
          voters := u.voters.set voterName { voter' with
            lastVoteWeight := newVoteWeight ctx voter, producers := producers, proxy := proxy } } := by
  obtain ⟨hcheck, voter, hv, hnot, s₁, d₁, hundo, s₂, d₂, hcast, s₃, acc, happly, _, rfl, voter',
    hv', rfl⟩ := updateVotes_eq_ok.mp h
  exact ⟨voter, s₂, d₂, s₃, acc, ⟨hcheck, hv, hnot, s₁, d₁, hundo, hcast⟩, happly, voter', hv', rfl⟩

omit [CommRing K] [LinearOrder K] [IsStrictOrderedRing K] in
theorem VoteLoop.frame {ctx : Context} {s t : SystemState F} {voterName proxy : Name}
    {producers : List Name} {voting : Bool} {voter : VoterInfo F} {deltas : ProducerDeltas F}
    (h : VoteLoop ctx s voterName proxy producers voting voter t deltas) : WeightFrame s t := by
  obtain ⟨s₁, d₁, hundo, hcast⟩ := h.cast
  have hframe := (activateStake_weights ctx s voter).1.trans (undoVote_weights hundo)
  exact hframe.trans (castVote_weights hcast).1

omit [CommRing K] [LinearOrder K] [IsStrictOrderedRing K] in
/-- Every producer that the loop has changed has a row. -/
theorem VoteLoop.known {ctx : Context} {s t u : SystemState F} {voterName proxy : Name}
    {producers : List Name} {voting : Bool} {voter : VoterInfo F} {deltas : ProducerDeltas F}
    {acc acc' : VpayDelta F} {done : List (Name × F × Bool)} (hI : s.VotesInv)
    (h : VoteLoop ctx s voterName proxy producers voting voter t deltas)
    (hdone : ∀ e ∈ done, e ∈ deltas.rows)
    (happly : applyDeltas ctx voting t acc done = .ok (u, acc')) {p : Name} {d : F} {b : Bool}
    (hd : (p, d, b) ∈ done) : (t.statusOf p).isSome := by
  cases b with
  | true => exact applyDeltas_known happly p d hd
  | false =>
    obtain ⟨s₁, d₁, hundo, hcast⟩ := h.cast
    have hb := baseOf_some h.row
    have hfind := Table.mem_rows.mp (hdone _ hd)
    rcases castVote_deltas (checkVote_nodup h.checked) hcast hfind with ⟨-, hnew⟩ | hold
    · cases hnew
    · have hmem := (undoVote_deltas (checkVote_nodup (hI.checked voterName _ hb)) hundo hold).1
      rw [h.frame.status]
      exact hI.known voterName voter.base hb p hmem

/-- When the loop comes to a producer, the producer has the votes that it had at the start, so
    they are not clamped. -/
theorem VoteLoop.unclamped {ctx : Context} {s t u : SystemState F} {voterName proxy : Name}
    {producers : List Name} {voting : Bool} {voter : VoterInfo F} {deltas : ProducerDeltas F}
    {acc acc' : VpayDelta F} {done rest : List (Name × F × Bool)} {p : Name} {d : F} {b : Bool}
    {info : ProducerInfo F} (hI : s.VotesInv)
    (h : VoteLoop ctx s voterName proxy producers voting voter t deltas)
    (hL : LoopTally E ctx voterName proxy producers voter t deltas)
    (hrows : deltas.rows = done ++ (p, d, b) :: rest)
    (happly : applyDeltas ctx voting t acc done = .ok (u, acc'))
    (hinfo : u.producers.find? p = some info) : ¬ info.totalVotes + d < Double.ofInt 0 := by
  -- the changes so far are changes of the table
  have hdone : ∀ e ∈ done, e ∈ deltas.rows := by
    intro e he
    rw [hrows]
    exact List.mem_append_left _ he
  -- each producer comes once
  have hkeys : (done.map Prod.fst ++ p :: rest.map Prod.fst).Nodup := by
    have hnodup := deltas.nodup_keys
    unfold Table.keys at hnodup
    rw [hrows, List.map_append, List.map_cons] at hnodup
    exact hnodup
  obtain ⟨hnodup, -, hdisjoint⟩ := List.nodup_append.mp hkeys
  -- so the votes of this one are those before the loop
  obtain ⟨-, hout, -⟩ := applyDeltas_tally E hnodup
    (fun _ _ _ hd => h.known hI hdone happly hd) (fun _ _ _ hd => hL.unclamped (hdone _ hd)) happly
  have hp : p ∉ done.map Prod.fst := fun hmem =>
    hdisjoint p hmem p List.mem_cons_self rfl
  have hd : (p, d, b) ∈ deltas.rows := by
    rw [hrows]
    exact List.mem_append_right _ List.mem_cons_self
  -- and the change does not take them below zero
  have hnonneg := hL.unclamped hd
  rw [← hout p hp, votesOf, Table.valueAt_some hinfo] at hnonneg
  rw [E.lt_iff, E.val_add, E.val_zero]
  exact not_lt.mpr hnonneg

/-- `update_votes` leaves no gap. -/
theorem updateVotes_tally {ctx : Context} (hfactor : 0 < E.val (voteFactor ctx : F))
    {s s' : SystemState F} {voterName proxy : Name} {producers : List Name} {voting : Bool}
    (hI : s.VotesInv) (hs : NonnegWeights E s) (hgaps : NoGaps E s)
    (hchoice : s.Chooses voterName proxy voting) (hpass : VotePasses ctx s voterName proxy)
    (h : s.updateVotes ctx voterName proxy producers voting = .ok s') :
    NoGaps E s' ∧ NonnegWeights E s' := by
  -- the loop, the table of changes and the row are taken apart
  obtain ⟨voter, t, deltas, u, acc, hloop, happly, voter', hv', hs'⟩ := updateVotes_loop h
  have hL := hloop.tally hfactor hI hs hgaps hchoice hpass
  have hvoters := (applyDeltas_weights happly).2
  have hrow : u.voters.find? voterName = some voter := by
    rw [hvoters]
    exact hL.row
  obtain rfl : voter' = voter := by
    rw [hrow] at hv'
    exact (Option.some.inj hv').symm
  -- the table of changes closes the gaps of the producers
  obtain ⟨hin, hout, htotal⟩ := applyDeltas_tally E deltas.nodup_keys
    (fun _ _ _ hd => hloop.known hI (fun _ he => he) happly hd) (fun _ _ _ hd => hL.unclamped hd) happly
  have hvotes : ∀ p, u.votesOf E p = t.votesOf E p + deltaOf E deltas p := by
    intro p
    cases hd : deltas.find? p with
    | none =>
      have hmem : p ∉ deltas.rows.map Prod.fst := by
        intro hmem
        rw [show deltas.rows.map Prod.fst = deltas.keys from rfl, Table.mem_keys, hd] at hmem
        cases hmem
      rw [hout p hmem, deltaOf, Table.valueAt_none hd, add_zero]
    | some d => rw [hin p d.1 d.2 (Table.mem_rows.mpr hd), deltaOf, Table.valueAt_some hd]
  -- the row is stored in a state whose tables are those after the loop
  let u' := u.updateTotalVotepayShare ctx.now (-acc.totalInactiveVpayShare) acc.deltaChangeRate
  let new : VoterInfo F := { voter' with
    lastVoteWeight := newVoteWeight ctx voter', producers := producers, proxy := proxy }
  have hs' : s' = { u' with voters := u'.voters.set voterName new } := hs'
  have hrow' : u'.voters.find? voterName = some voter' := hrow
  -- what the new row stands for
  have hnewProxy : ∀ a, toProxy E a new = newProxied proxy a (E.val (newVoteWeight ctx voter' : F)) := by
    intro a
    unfold toProxy newProxied
    simp only [VoterBase.link_eq_some]
    rfl
  have hnewProducer : ∀ p, toProducer E p new =
      if p ∈ producers then E.val (newVoteWeight ctx voter' : F) else 0 := fun _ => rfl
  rw [hs']
  refine ⟨⟨fun a => ?_, fun p => ?_, ?_⟩, ?_⟩
  · -- the proxies
    have hgap : u'.proxyGap E a = t.proxyGap E a := by
      unfold proxyGap proxiedOf
      show u.voters.valueAt a _ - u.voters.sum _ = _
      rw [hvoters]
    have hsame : E.val new.proxiedVoteWeight - u'.proxiedOf E voterName = 0 := by
      rw [proxiedOf, Table.valueAt_some hrow']
      exact sub_self _
    rw [proxyGap_set, Table.valueAt_some hrow', hgap, hL.proxy, hsame, hnewProxy, ite_self]
    ring
  · -- the producers
    have hgap : u'.votesGap E p = t.votesGap E p + deltaOf E deltas p := by
      unfold votesGap
      show u.votesOf E p - u.voters.sum _ = _
      rw [hvoters, hvotes]
      ring
    rw [votesGap_set, Table.valueAt_some hrow', hgap, hL.votes, hL.delta, hnewProducer]
    ring
  · -- the total of all votes
    show u.totalGap E = 0
    rw [htotal, hL.total]
  · -- and nothing is negative
    have hu' : NonnegWeights E u' := hL.nonneg.of_voters hvoters
    have hold := hu' voterName voter' hrow'
    exact hu'.set ⟨hold.staked, hL.weight, hold.proxied⟩

end SystemState

end UxContracts
