import UxContracts.Spec.Activation
import UxContracts.Spec.FilledRows
import UxContracts.Spec.Wealth

/-!
# Stake can be taken back

No stake is locked in for ever. In every state that a run reaches after the activation, an
account can take its vote back, undelegate each of its rows, and demand the refund three days
later. All these calls succeed, and all it has staked is then in its balance
(`stake_can_leave`).
-/

namespace UxContracts

namespace SystemState

variable {F : Type}

/-! ## The blocks of `changebw` -/

/-- The two amounts of a row, taken back, pass the checks on the deltas. -/
theorem deltas_back {n c : Asset} (hs : c.symbol = n.symbol) (hn : 0 ≤ n.amount.toInt)
    (hc : 0 ≤ c.amount.toInt) (hpos : 0 < n.amount.toInt + c.amount.toInt)
    (hsum : n.amount.toInt + c.amount.toInt < 2 ^ 62) :
    c.amount + n.amount > 0 ∧ (n.neg.amount ≠ 0 ∨ c.neg.amount ≠ 0) ∧
      ∃ total, n.neg.add c.neg = .ok total ∧
        max n.neg.amount.toInt.natAbs c.neg.amount.toInt.natAbs ≤ total.amount.toInt.natAbs ∧
        total.amount.toInt = -(n.amount.toInt + c.amount.toInt) := by
  have hnneg : n.neg.amount.toInt = -n.amount.toInt := Int64.toInt_neg_of_nonneg hn
  have hcneg : c.neg.amount.toInt = -c.amount.toInt := Int64.toInt_neg_of_nonneg hc
  have htotal : (n.neg.amount + c.neg.amount).toInt = -(n.amount.toInt + c.amount.toInt) := by
    rw [Int64.toInt_add_of_mem (by omega) (by omega), hnneg, hcneg]
    omega
  refine ⟨?_, ?_, _, Asset.add_of_inRange hs (by omega) (by omega), ?_, htotal⟩
  · rw [gt_iff_lt, Int64.lt_iff_toInt_lt, Int64.toInt_add_of_mem (by omega) (by omega),
      Int64.toInt_zero]
    omega
  · by_contra hno
    simp only [not_or, not_not] at hno
    rw [hno.1, Int64.toInt_zero] at hnneg
    rw [hno.2, Int64.toInt_zero] at hcneg
    omega
  · simp only
    omega

/-- A whole row of `delband` is taken back. -/
theorem updateDelband_back {s : SystemState F} {f r : Name} {d : DelegatedBandwidth}
    (hd : s.delband.find? ⟨f, r⟩ = some d) :
    s.updateDelband f r d.netWeight.neg d.cpuWeight.neg =
      .ok { s with delband := s.delband.erase ⟨f, r⟩ } := by
  have hadd (a : Asset) : a.add a.neg = .ok ⟨0, a.symbol⟩ := by
    have hzero : a.amount + a.neg.amount = 0 := Int64.add_right_neg a.amount
    rw [Asset.add_eq_ok, hzero]
    exact ⟨rfl, by decide, by decide, rfl⟩
  simp only [updateDelband, hd, bind_eq_ok, check_eq_ok, pure_eq_ok]
  exact ⟨_, ⟨_, hadd d.netWeight, _, hadd d.cpuWeight, rfl⟩, (), Int64.le_refl 0, (),
    Int64.le_refl 0, rfl⟩

/-- An amount less what is taken back of it. -/
theorem sub_back {a b : Asset} (hs : b.symbol = a.symbol) (hb : 0 ≤ b.amount.toInt)
    (hle : b.amount.toInt ≤ a.amount.toInt) (ha : a.InRange) :
    ∃ c, a.add b.neg = .ok c ∧ 0 ≤ c.amount := by
  have hneg : b.neg.amount.toInt = -b.amount.toInt := Int64.toInt_neg_of_nonneg hb
  obtain ⟨hlo, hhi⟩ := ha
  have hadd := Asset.add_of_inRange (a := a) (b := b.neg) hs (by omega) (by omega)
  refine ⟨_, hadd, ?_⟩
  rw [Int64.le_iff_toInt_le, Int64.toInt_zero, Int64.toInt_add_of_mem (by omega) (by omega)]
  omega

/-- The totals of the receiver cover what is taken back. -/
theorem updateTotals_back {s : SystemState F} {r : Name} {u : UserResources} {n c : Asset}
    (hu : s.userres.find? r = some u) (hpair : StakePair u.netWeight u.cpuWeight)
    (hns : n.symbol = u.netWeight.symbol) (hcs : c.symbol = u.cpuWeight.symbol)
    (hn : 0 ≤ n.amount.toInt ∧ n.amount.toInt ≤ u.net)
    (hc : 0 ≤ c.amount.toInt ∧ c.amount.toInt ≤ u.cpu) :
    ∃ tot, s.updateTotals r n.neg c.neg = .ok tot := by
  obtain ⟨net, hnet, hnet0⟩ := sub_back hns hn.1 hn.2 hpair.net_inRange
  obtain ⟨cpu, hcpu, hcpu0⟩ := sub_back hcs hc.1 hc.2 hpair.cpu_inRange
  simp only [updateTotals, hu, bind_eq_ok, check_eq_ok, pure_eq_ok]
  exact ⟨_, _, ⟨net, hnet, cpu, hcpu, rfl⟩, (), hnet0, (), hcpu0, rfl⟩

/-- What is taken back is added to the refund, and nothing is left of the delta. -/
theorem netAgainst_back {q n : Asset} (hs : n.symbol = q.symbol) (hn : 0 ≤ n.amount.toInt)
    (hq : 0 ≤ q.amount.toInt) (hsum : q.amount.toInt + n.amount.toInt < 2 ^ 62) :
    ∃ a, netAgainst q n.neg = .ok (a, ⟨0, n.symbol⟩) ∧
      a.amount.toInt = q.amount.toInt + n.amount.toInt := by
  have hneg : n.neg.amount.toInt = -n.amount.toInt := Int64.toInt_neg_of_nonneg hn
  have hsub := Asset.sub_of_inRange (a := q) (b := n.neg) hs (by omega) (by omega)
  have hdiff : (q.amount - n.neg.amount).toInt = q.amount.toInt + n.amount.toInt := by
    rw [Int64.toInt_sub_of_mem (by omega) (by omega), hneg]
    omega
  have hpos : ¬ q.amount - n.neg.amount < 0 := by
    rw [Int64.lt_iff_toInt_lt, Int64.toInt_zero, hdiff]
    omega
  refine ⟨⟨q.amount - n.neg.amount, q.symbol⟩, ?_, hdiff⟩
  simp only [netAgainst, bind_eq_ok]
  refine ⟨_, hsub, ?_⟩
  rw [if_neg hpos]
  rfl

/-- A new refund starts with what is taken back. -/
theorem refundPart_back {n : Asset} (hvalid : n.symbol.isValid) (hn : 0 ≤ n.amount.toInt) :
    ∃ a, refundPart n.symbol n.neg = .ok (a, ⟨0, n.symbol⟩) ∧
      a.amount.toInt = n.amount.toInt := by
  have hlt := n.amount.toInt_lt
  have hneg : n.neg.amount.toInt = -n.amount.toInt := Int64.toInt_neg_of_nonneg hn
  unfold refundPart
  by_cases hlt : n.neg.amount < 0
  · -- a part that is taken back
    rw [if_pos hlt]
    refine ⟨_, rfl, ?_⟩
    show (- n.neg.amount).toInt = _
    have hcases := Int64.toInt_neg_cases n.neg.amount
    omega
  · -- a part that is zero
    rw [if_neg hlt]
    rw [Int64.lt_iff_toInt_lt, Int64.toInt_zero] at hlt
    have hzero : n.neg.amount = 0 := Int64.toInt_inj.mp (by rw [Int64.toInt_zero]; omega)
    -- the rest is the zero of the same symbol
    have hmake : Asset.make 0 n.symbol = .ok ⟨0, n.symbol⟩ :=
      Asset.make_eq_ok.mpr ⟨by decide, by decide, hvalid, rfl⟩
    have hrest : n.neg = ⟨0, n.symbol⟩ := by
      rw [← hzero]
      rfl
    refine ⟨⟨0, n.symbol⟩, ?_, ?_⟩
    · simp only [bind_eq_ok, pure_eq_ok]
      exact ⟨_, hmake, by rw [hrest]⟩
    · rw [Int64.toInt_zero]
      omega

/-- The refund of the owner after a whole row has been taken back. -/
theorem updateRefund_back (ctx : Context) (r : Name) {s : SystemState F} {f : Name} {n c : Asset}
    {sym : Symbol} (hns : n.symbol = sym) (hcs : c.symbol = sym) (hvalid : sym.isValid)
    (hcore : s.coreSymbol = .ok sym) (hn : 0 ≤ n.amount.toInt) (hc : 0 ≤ c.amount.toInt)
    (hpos : 0 < n.amount.toInt + c.amount.toInt)
    (hgood : ∀ q, s.refunds.find? f = some q → GoodRefund sym q)
    (hbound : s.refunds.valueAt f RefundRequest.total + n.amount.toInt + c.amount.toInt < 2 ^ 62) :
    ∃ net cpu, s.updateRefund ctx f r n.neg c.neg false =
      .ok ⟨{ s with refunds := s.refunds.set f ⟨ctx.now.secSinceEpoch, net, cpu⟩ }, ⟨0, sym⟩,
        ⟨0, sym⟩, true⟩ := by
  -- the amounts are taken back, with the other sign
  have hnneg : n.neg.amount.toInt = -n.amount.toInt := Int64.toInt_neg_of_nonneg hn
  have hcneg : c.neg.amount.toInt = -c.amount.toInt := Int64.toInt_neg_of_nonneg hc
  have hback : n.neg.amount < 0 ∨ c.neg.amount < 0 := by
    rw [Int64.lt_iff_toInt_lt, Int64.lt_iff_toInt_lt, Int64.toInt_zero]
    omega
  have hnonneg : 0 ≤ s.refunds.valueAt f RefundRequest.total := by
    cases hq : s.refunds.find? f with
    | none => rw [Table.valueAt_none hq]
    | some q =>
      rw [Table.valueAt_some hq]
      exact (hgood q hq).2.1.le
  -- together they are negative, and do not wrap
  have hundelegating : n.neg.amount + c.neg.amount < 0 := by
    rw [Int64.lt_iff_toInt_lt, Int64.toInt_add_of_mem (by omega) (by omega), Int64.toInt_zero]
    omega
  simp only [updateRefund, decide_eq_true hundelegating, Bool.or_true, if_true, if_pos hback]
  cases hq : s.refunds.find? f with
  | none =>
    -- a first refund is what comes back
    subst hns
    obtain ⟨net, hnet, -⟩ := refundPart_back hvalid hn
    obtain ⟨cpu, hcpu, -⟩ := refundPart_back (hcs.symm ▸ hvalid) hc
    rw [hcs] at hcpu
    refine ⟨net, cpu, ?_⟩
    simp only [bind_eq_ok, pure_eq_ok]
    exact ⟨_, hcore, _, hnet, _, hcpu, rfl⟩
  | some q =>
    obtain ⟨hpair, -, hqn, hqc⟩ := hgood q hq
    -- it is added to the refund that is waiting
    rw [Table.valueAt_some hq] at hbound
    unfold RefundRequest.total at hbound
    have hn0 := hpair.net_nonneg
    have hc0 := hpair.cpu_nonneg
    obtain ⟨net, hnet, hnet'⟩ := netAgainst_back (hns.trans hqn.symm) hn hn0 (by omega)
    obtain ⟨cpu, hcpu, hcpu'⟩ := netAgainst_back (hcs.trans hqc.symm) hc hc0 (by omega)
    rw [hns] at hnet
    rw [hcs] at hcpu
    -- the row is kept, since something is in it
    have hfull : (⟨ctx.now.secSinceEpoch, net, cpu⟩ : RefundRequest).isEmpty = false := by
      refine decide_eq_false fun hempty => ?_
      rw [hempty.1, Int64.toInt_zero] at hnet'
      rw [hempty.2, Int64.toInt_zero] at hcpu'
      omega
    refine ⟨net, cpu, ?_⟩
    simp only [bind_eq_ok, check_eq_ok, pure_eq_ok]
    refine ⟨_, hnet, _, hcpu, (), ?_, (), ?_, ?_⟩
    · -- neither part is negative after the addition
      rw [Int64.le_iff_toInt_le, Int64.toInt_zero]
      exact (add_nonneg hn0 hn).trans hnet'.ge
    · rw [Int64.le_iff_toInt_le, Int64.toInt_zero]
      exact (add_nonneg hc0 hc).trans hcpu'.ge
    · rw [hfull]
      rfl

/-- Nothing is left to be sent, so the refund block only writes the refund and schedules it. -/
theorem settleStake_back {ctx : Context} {s : SystemState F} {f r : Name} {n c : Asset}
    {sym : Symbol} (hf : f ≠ stakeAccount) {net cpu : Asset}
    (h : s.updateRefund ctx f r n.neg c.neg false =
      .ok ⟨{ s with refunds := s.refunds.set f ⟨ctx.now.secSinceEpoch, net, cpu⟩ }, ⟨0, sym⟩,
        ⟨0, sym⟩, true⟩) :
    s.settleStake ctx f f r n.neg c.neg false =
      .ok ({ s with
        refunds := s.refunds.set f ⟨ctx.now.secSinceEpoch, net, cpu⟩
        deferred := s.deferred.set f ⟨f, refundDelaySec⟩ }, []) := by
  have hlo : -2 ^ 62 < ((0 : Int64) + 0).toInt := by decide
  have hhi : ((0 : Int64) + 0).toInt < 2 ^ 62 := by decide
  have hzero : (⟨0, sym⟩ : Asset).add ⟨0, sym⟩ = .ok ⟨0, sym⟩ :=
    Asset.add_eq_ok.mpr ⟨rfl, hlo, hhi, rfl⟩
  simp only [settleStake, if_neg hf, bind_eq_ok]
  exact ⟨_, h, _, hzero, rfl⟩

variable [Double F]

/-- Without a vote the stake just changes. -/
theorem updateVotingPower_back {ctx : Context} {s : SystemState F} {f : Name} {v : VoterInfo F}
    {total : Asset} (hv : s.voters.find? f = some v) (hb1 : f ≠ Name.ofString "b1")
    (hvote : v.producers = [] ∧ ¬ v.proxy.isSet) (h0 : 0 ≤ v.staked + total.amount) :
    s.updateVotingPower ctx f total =
      .ok { s with voters := s.voters.set f { v with staked := v.staked + total.amount } } := by
  simp only [updateVotingPower, hv, changeStake, bind_eq_ok, check_eq_ok, if_neg hb1]
  refine ⟨(), h0, (), rfl, ?_⟩
  rw [if_neg]
  · rfl
  · rw [hvote.1]
    exact fun h => h.elim (fun h => h rfl) hvote.2

/-! ## One row -/

/-- The account has no vote, so its stake moves without anything else. -/
def HasNoVote (s : SystemState F) (f : Name) : Prop :=
  ∀ v, s.voters.find? f = some v → v.producers = [] ∧ ¬ v.proxy.isSet

/-- The account is not an active producer. -/
def NotProducing (s : SystemState F) (f : Name) : Prop :=
  ∀ p, s.producers.find? f = some p → ¬ p.isActive

/-- What it takes to undelegate: the ledgers of stake are in order, `eosio.stake` covers what it
    owes, the chain is activated, and the account is neither a producer nor one of the two
    accounts with rules of their own. -/
structure CanRelease (s : SystemState F) (f : Name) : Prop where
  backing : s.BackingInv
  filled : s.FilledRows
  covered : s.backing ≤ s.stakeBalance
  activated : s.gstate.threshActivatedStakeTime ≠ 0
  notProducing : s.NotProducing f
  ne_stake : f ≠ stakeAccount
  ne_b1 : f ≠ Name.ofString "b1"

omit [Double F] in
/-- Who is no active producer may take everything back. -/
theorem checkSelfStake_back {s : SystemState F} {f : Name} (h : s.NotProducing f) (n c : Asset) :
    s.checkSelfStake f n c = .ok () := by
  simp only [checkSelfStake]
  split
  · rename_i p hp
    rw [if_neg (h p hp)]
  · rfl

omit [Double F] in
/-- What is delegated in one row and what is to be refunded are parts of the supply. -/
theorem CanRelease.bound {s : SystemState F} {f r : Name} {d : DelegatedBandwidth}
    (hI : s.CanRelease f) (hd : s.delband.find? ⟨f, r⟩ = some d) :
    s.refunds.valueAt f RefundRequest.total + d.net + d.cpu < 2 ^ 62 := by
  have hS := hI.backing.core.stake
  obtain ⟨st, hst, -⟩ := hI.backing.core.core hI.backing.market
  have hsupply := hI.backing.core.token.balance_le_supply stakeAccount hst
  have hbounds := hI.backing.core.token.supplyBounds _ st hst
  have hnet := Table.valueAt_le_sumOn (p := fun _ : Scoped Name Name => True)
    (fun k d hk => (hS.rows.delband k d hk).net_nonneg) (k := ⟨f, r⟩) trivial
  have hcpu := Table.valueAt_le_sumOn (p := fun _ : Scoped Name Name => True)
    (fun k d hk => (hS.rows.delband k d hk).cpu_nonneg) (k := ⟨f, r⟩) trivial
  have hrefund : s.refunds.valueAt f RefundRequest.total ≤ refundTotal s.refunds :=
    Table.valueAt_le_sumOn (fun f q hq => (hS.rows.refunds f q hq).2.1.le) trivial
  rw [Table.valueAt_some hd] at hnet hcpu
  have hcovered := hI.covered
  unfold SystemState.backing stakeBalance DelegatedBandwidth.net DelegatedBandwidth.cpu at *
  omega

omit [Double F] in
/-- The stake of a voter covers each row that it has given. -/
theorem StakeInv.voter_of_row {s : SystemState F} (hI : s.StakeInv) {f r : Name}
    {d : DelegatedBandwidth} (hd : s.delband.find? ⟨f, r⟩ = some d) (hpos : 0 < d.net + d.cpu) :
    ∃ v, s.voters.find? f = some v ∧ d.net + d.cpu ≤ v.staked.toInt := by
  have hgiven := hI.given f
  have hnet := Table.valueAt_le_sumOn (f := DelegatedBandwidth.net)
    (p := fun k : Scoped Name Name => k.scope = f)
    (fun k d hk => (hI.rows.delband k d hk).net_nonneg) (k := ⟨f, r⟩) rfl
  have hcpu := Table.valueAt_le_sumOn (f := DelegatedBandwidth.cpu)
    (p := fun k : Scoped Name Name => k.scope = f)
    (fun k d hk => (hI.rows.delband k d hk).cpu_nonneg) (k := ⟨f, r⟩) rfl
  rw [Table.valueAt_some hd] at hnet hcpu
  cases hv : s.voters.find? f with
  | none =>
    rw [stakedOf, Table.valueAt_none hv] at hgiven
    omega
  | some v =>
    rw [stakedOf, Table.valueAt_some hv] at hgiven
    exact ⟨v, rfl, by omega⟩

omit [Double F] in
/-- The totals of the receiver cover each row that it has been given. -/
theorem StakeInv.userres_of_row {s : SystemState F} (hI : s.StakeInv) {f r : Name}
    {d : DelegatedBandwidth} (hd : s.delband.find? ⟨f, r⟩ = some d) (hpos : 0 < d.net + d.cpu) :
    ∃ u, s.userres.find? r = some u ∧ d.net ≤ u.net ∧ d.cpu ≤ u.cpu := by
  obtain ⟨hreceived, hreceived'⟩ := hI.received r
  have hnet := Table.valueAt_le_sumOn (f := DelegatedBandwidth.net)
    (p := fun k : Scoped Name Name => k.key = r)
    (fun k d hk => (hI.rows.delband k d hk).net_nonneg) (k := ⟨f, r⟩) rfl
  have hcpu := Table.valueAt_le_sumOn (f := DelegatedBandwidth.cpu)
    (p := fun k : Scoped Name Name => k.key = r)
    (fun k d hk => (hI.rows.delband k d hk).cpu_nonneg) (k := ⟨f, r⟩) rfl
  rw [Table.valueAt_some hd] at hnet hcpu
  rw [hreceived] at hnet
  rw [hreceived'] at hcpu
  cases hu : s.userres.find? r with
  | none =>
    rw [Table.valueAt_none hu] at hnet hcpu
    omega
  | some u =>
    rw [Table.valueAt_some hu] at hnet hcpu
    exact ⟨u, rfl, hnet, hcpu⟩

omit [Double F] in
theorem CanRelease.coreSymbol {s : SystemState F} {f : Name} (hI : s.CanRelease f) :
    s.coreSymbol = .ok s.coreSym := by
  obtain ⟨m, hm⟩ := Option.isSome_iff_exists.mp hI.backing.market
  rw [coreSymbol_eq_ok]
  exact ⟨m, hm, by rw [coreSym, hm, Option.elim_some]⟩

omit [Double F] in
theorem CanRelease.symbol_valid {s : SystemState F} {f : Name} (hI : s.CanRelease f) :
    s.coreSym.isValid := by
  obtain ⟨st, hst, hsym⟩ := hI.backing.core.core hI.backing.market
  rw [← hsym]
  exact (hI.backing.core.token.statKey _ st hst).2.2

/-- A row is gone, the refund starts anew, and only the stake of the voter has changed. -/
structure RowTakenBack (ctx : Context) (f r : Name) (s u : SystemState F) : Prop where
  delband : u.delband = s.delband.erase ⟨f, r⟩
  refunds : ∃ q, u.refunds = s.refunds.set f q ∧ q.requestTime = ctx.now.secSinceEpoch
  voters : ∃ v staked, s.voters.find? f = some v ∧
    u.voters = s.voters.set f { v with staked := staked }
  token : u.token = s.token
  gstate : u.gstate = s.gstate
  producers : u.producers = s.producers

/-- All blocks of `changebw` together. -/
theorem changebw_back {ctx : Context} {s : SystemState F} {f r : Name} {d : DelegatedBandwidth}
    (hI : s.CanRelease f) (hvote : s.HasNoVote f) (hd : s.delband.find? ⟨f, r⟩ = some d)
    (hauth : f ∈ ctx.auth) :
    ∃ u, s.changebw ctx f r d.netWeight.neg d.cpuWeight.neg false = .ok (u, []) ∧
      RowTakenBack ctx f r s u := by
  have hS := hI.backing.core.stake
  have hbound := hI.bound hd
  -- the row that is taken back
  have hpair := hS.rows.delband _ d hd
  obtain ⟨hns, hcs, hpos⟩ := hI.filled.delband _ d hd
  have hn0 : 0 ≤ d.netWeight.amount.toInt := hpair.net_nonneg
  have hc0 : 0 ≤ d.cpuWeight.amount.toInt := hpair.cpu_nonneg
  have hnonneg : 0 ≤ s.refunds.valueAt f RefundRequest.total :=
    Table.valueAt_nonneg (fun f q hq => (hS.rows.refunds f q hq).2.1.le) f
  -- the rows of its voter and of its receiver hold at least as much
  obtain ⟨v, hv, hstaked⟩ := hS.voter_of_row hd hpos
  obtain ⟨u, hu, hunet, hucpu⟩ := hS.userres_of_row hd hpos
  have husym := hI.filled.userres r u hu
  obtain ⟨tot, htot⟩ := updateTotals_back hu (hS.rows.userres r u hu) (hns.trans husym.1.symm)
    (hcs.trans husym.2.symm) ⟨hn0, hunet⟩ ⟨hc0, hucpu⟩
  unfold DelegatedBandwidth.net DelegatedBandwidth.cpu at hbound hpos hstaked
  obtain ⟨-, hnonzero, total, htotal, habs, hsum⟩ :=
    deltas_back (hcs.trans hns.symm) hn0 hc0 hpos (by omega)
  -- so the stake of the voter stays non-negative
  have hrest : 0 ≤ v.staked + total.amount := by
    have hlt := v.staked.toInt_lt
    rw [Int64.le_iff_toInt_le, Int64.toInt_zero, Int64.toInt_add_of_mem (by omega) (by omega), hsum]
    omega
  -- the limits block writes to one table
  obtain ⟨limits, hlim⟩ : ∃ limits,
      ({ s with delband := s.delband.erase ⟨f, r⟩ } : SystemState F).updateLimits r tot =
        { s with delband := s.delband.erase ⟨f, r⟩, limits := limits } := by
    simp only [updateLimits]
    split
    · exact ⟨s.limits, rfl⟩
    · exact ⟨_, rfl⟩
  -- the refund takes it in
  obtain ⟨net, cpu, hrefund⟩ := updateRefund_back ctx r (s := { s with
      delband := s.delband.erase ⟨f, r⟩
      limits := limits
      userres := s.userres.put r tot tot.isEmpty }) hns hcs hI.symbol_valid hI.coreSymbol hn0 hc0 hpos
    (hS.rows.refunds f) hbound
  have hsettle := settleStake_back hI.ne_stake hrefund
  -- the call, block by block
  have hchange : s.changebw ctx f r d.netWeight.neg d.cpuWeight.neg false = .ok ({ s with
      delband := s.delband.erase ⟨f, r⟩
      limits := limits
      userres := s.userres.put r tot tot.isEmpty
      refunds := s.refunds.set f ⟨ctx.now.secSinceEpoch, net, cpu⟩
      deferred := s.deferred.set f ⟨f, refundDelaySec⟩
      voters := s.voters.set f { v with staked := v.staked + total.amount } }, []) := by
    simp only [changebw, bind_eq_ok, check_eq_ok, requireAuth_eq_ok, Bool.false_eq_true, if_false]
    refine ⟨(), hauth, (), hnonzero, total, htotal, (), habs, _, updateDelband_back hd, tot, htot, ?_⟩
    rw [hlim]
    refine ⟨_, hsettle, total, htotal, ?_⟩
    rw [updateRexStake_of_empty (by exact hS.noRex)]
    exact ⟨_, updateVotingPower_back hv hI.ne_b1 (hvote v hv) hrest, rfl⟩
  exact ⟨_, hchange, rfl, ⟨_, rfl, rfl⟩, ⟨v, _, hv, rfl⟩, rfl, rfl, rfl⟩

/-- Everything that one account has given to another can be taken back. -/
theorem undelegatebw_back {ctx : Context} {s : SystemState F} {f r : Name} {d : DelegatedBandwidth}
    (hI : s.CanRelease f) (hvote : s.HasNoVote f) (hd : s.delband.find? ⟨f, r⟩ = some d)
    (hauth : f ∈ ctx.auth) :
    ∃ u, s.undelegatebw ctx f r d.netWeight d.cpuWeight = .ok (u, []) ∧
      RowTakenBack ctx f r s u := by
  have hS := hI.backing.core.stake
  have hbound := hI.bound hd
  -- the row that is taken back
  have hpair := hS.rows.delband _ d hd
  obtain ⟨hns, hcs, hpos⟩ := hI.filled.delband _ d hd
  have hn0 : 0 ≤ d.netWeight.amount.toInt := hpair.net_nonneg
  have hc0 : 0 ≤ d.cpuWeight.amount.toInt := hpair.cpu_nonneg
  have hnonneg : 0 ≤ s.refunds.valueAt f RefundRequest.total :=
    Table.valueAt_nonneg (fun f q hq => (hS.rows.refunds f q hq).2.1.le) f
  -- the change of stake succeeds
  obtain ⟨u, hchange, hback⟩ := changebw_back hI hvote hd hauth
  refine ⟨u, ?_, hback⟩
  unfold DelegatedBandwidth.net DelegatedBandwidth.cpu at hbound hpos
  obtain ⟨hsum, -⟩ := deltas_back (hcs.trans hns.symm) hn0 hc0 hpos (by omega)
  -- so every check of the action passes
  have hzero : Asset.make 0 s.coreSym = .ok ⟨0, s.coreSym⟩ :=
    Asset.make_eq_ok.mpr ⟨by decide, by decide, hI.symbol_valid, rfl⟩
  have hge {a : Asset} (ha : 0 ≤ a.amount.toInt) (hs : a.symbol = s.coreSym) :
      a.ge ⟨0, s.coreSym⟩ = .ok true := by
    refine Asset.compare_eq_ok.mpr ⟨hs, ?_⟩
    rw [eq_comm, decide_eq_true_eq, Int64.le_iff_toInt_le, Int64.toInt_zero]
    exact ha
  simp only [undelegatebw, bind_eq_ok, check_eq_ok]
  exact ⟨_, hI.coreSymbol, _, hzero, (), checkSelfStake_back hI.notProducing _ _, true, hge hc0 hcs,
    (), rfl, true, hge hn0 hns, (), rfl, (), hsum, (), hI.activated, hchange⟩

/-- One row has been taken back, and the account can go on. Its holdings are the same. -/
theorem step_back {ctx : Context} {s : SystemState F} {f r : Name} {d : DelegatedBandwidth}
    (hI : s.CanRelease f) (hvote : s.HasNoVote f) (hd : s.delband.find? ⟨f, r⟩ = some d)
    (hauth : f ∈ ctx.auth) :
    ∃ u, s.step ⟨ctx, .undelegatebw f r d.netWeight d.cpuWeight⟩ = .ok u ∧
      RowTakenBack ctx f r s u ∧ u.CanRelease f ∧ u.HasNoVote f ∧ u.coreSym = s.coreSym ∧
      u.holdings f = s.holdings f := by
  have hS := hI.backing.core.stake
  obtain ⟨u, hundelegate, hback⟩ := undelegatebw_back hI hvote hd hauth
  have hstep : s.step ⟨ctx, .undelegatebw f r d.netWeight d.cpuWeight⟩ = .ok u :=
    commit_eq_ok.mpr ⟨u, [], u.token, hundelegate, runInline_nil.mpr rfl, rfl⟩
  obtain ⟨-, -, -, -, hchange⟩ := undelegatebw_spec hS.rows hS.noRex hS.stakedOf_nonneg
    (fun _ => coreSym_of_ok) hundelegate
  have hsym : u.coreSym = s.coreSym := by simp only [coreSym, hchange.rammarket]
  have hkeep : KeepsStake s ⟨ctx, .undelegatebw f r d.netWeight d.cpuWeight⟩ :=
    ⟨fun he => hI.ne_stake (Option.some.inj he), fun hmoves => by cases hmoves⟩
  -- what backs the rows covers them after the call
  have hsurplus := (step_surplus hI.backing hkeep hstep).1
  have hcovered := hI.covered
  unfold surplus at hsurplus
  refine ⟨u, hstep, hback, ?_, ?_, hsym, ?_⟩
  · refine ⟨step_backingInv hI.backing hstep, step_filledRows hI.filled hS.noRex hstep, by omega, ?_,
      ?_, hI.ne_stake, hI.ne_b1⟩
    · rw [hback.gstate]
      exact hI.activated
    · unfold NotProducing
      rw [hback.producers]
      exact hI.notProducing
  · -- the vote is not changed
    intro v' hv'
    obtain ⟨v, staked, hv, hvoters⟩ := hback.voters
    rw [hvoters, Table.find?_set_self] at hv'
    cases hv'
    exact hvote v hv
  · -- what leaves the stake goes to the refund
    have hrefund := hchange.refundOf hI.ne_stake
    have hstaked := hchange.staked f
    rw [if_pos rfl] at hstaked
    have hsent : sentAmount ([] : List InlineAction) = 0 := rfl
    unfold holdings
    rw [hback.token, hsym, hrefund, hstaked, hsent]
    omega

/-! ## All rows -/

/-- What an account has given to others, and to itself. -/
def givenBy (s : SystemState F) (f : Name) : List (Scoped Name Name × DelegatedBandwidth) :=
  s.delband.rows.filter fun r => r.1.scope = f

/-- Undelegate whole rows. -/
def takeBack (ctx : Context) (rows : List (Scoped Name Name × DelegatedBandwidth)) :
    List (SystemCall F) :=
  rows.map fun r => ⟨ctx, .undelegatebw r.1.scope r.1.key r.2.netWeight r.2.cpuWeight⟩

/-- The account has taken back some rows: only these are gone, and a refund is either the old one
    or has been asked for now. -/
structure TakenBack (ctx : Context) (f : Name) (keys : List (Scoped Name Name))
    (s u : SystemState F) : Prop where
  can : u.CanRelease f
  noVote : u.HasNoVote f
  coreSym : u.coreSym = s.coreSym
  holdings : u.holdings f = s.holdings f
  token : u.token = s.token
  delband : ∀ k, u.delband.find? k = if k ∈ keys then none else s.delband.find? k
  refund : ∀ q, u.refunds.find? f = some q →
    q.requestTime = ctx.now.secSinceEpoch ∨ s.refunds.find? f = some q

/-- Different rows of an account can be taken back one after the other. -/
theorem takeBack_ok {ctx : Context} {s : SystemState F} {f : Name} (hI : s.CanRelease f)
    (hvote : s.HasNoVote f) (hauth : f ∈ ctx.auth)
    {rows : List (Scoped Name Name × DelegatedBandwidth)}
    (hrows : ∀ r ∈ rows, r.1.scope = f ∧ s.delband.find? r.1 = some r.2)
    (hnodup : (rows.map Prod.fst).Nodup) :
    Run.Meets step (fun s call => (s.step call).isOk) s (takeBack ctx rows) ∧
      TakenBack ctx f (rows.map Prod.fst) s (Run.exec step s (takeBack ctx rows)) := by
  -- induction on the rows that are left
  induction rows generalizing s with
  | nil =>
    refine ⟨trivial, hI, hvote, rfl, rfl, rfl, fun k => ?_, fun q hq => .inr hq⟩
    rw [List.map_nil, if_neg List.not_mem_nil]
    rfl
  | cons row rest ih =>
    obtain ⟨⟨scope, r⟩, d⟩ := row
    obtain ⟨rfl, hd⟩ : scope = f ∧ s.delband.find? ⟨scope, r⟩ = some d :=
      hrows _ List.mem_cons_self
    rw [List.map_cons, List.nodup_cons] at hnodup
    -- the first one is taken back
    obtain ⟨u, hstep, hback, hI', hvote', hsym, hholdings⟩ := step_back hI hvote hd hauth
    -- the other rows are still there
    have hrest : ∀ row ∈ rest, row.1.scope = scope ∧ u.delband.find? row.1 = some row.2 := by
      intro row hrow
      obtain ⟨hscope, hfind⟩ := hrows row (List.mem_cons_of_mem _ hrow)
      refine ⟨hscope, ?_⟩
      rw [hback.delband, Table.find?_erase_ne]
      · exact hfind
      · intro heq
        exact hnodup.1 (List.mem_map.mpr ⟨row, hrow, heq⟩)
    obtain ⟨hok, hall⟩ := ih hI' hvote' hrest hnodup.2
    have hnext : Run.next step s ⟨ctx, .undelegatebw scope r d.netWeight d.cpuWeight⟩ = u :=
      Run.next_of_ok hstep
    have hexec : Run.exec step s (takeBack ctx (⟨⟨scope, r⟩, d⟩ :: rest)) =
        Run.exec step u (takeBack ctx rest) := by
      rw [takeBack, List.map_cons, Run.exec_cons, hnext]
      rfl
    rw [hexec]
    -- and then the rest
    refine ⟨⟨?_, ?_⟩, hall.can, hall.noVote, hall.coreSym.trans hsym, hall.holdings.trans hholdings,
      hall.token.trans hback.token, fun k => ?_, fun q hq => ?_⟩
    · show (s.step ⟨ctx, .undelegatebw scope r d.netWeight d.cpuWeight⟩).isOk = true
      rw [hstep]
      rfl
    · rw [hnext]
      exact hok
    · rw [hall.delband, hback.delband, Table.find?_erase, List.map_cons]
      -- a row is gone if it is this one or one of the rest
      by_cases hk : k = ⟨scope, r⟩
      · rw [if_pos hk, ite_self, if_pos]
        rw [hk]
        exact List.mem_cons_self
      · rw [if_neg hk]
        simp only [List.mem_cons, hk, false_or]
    · -- the refund is as old as the last call
      rcases hall.refund q hq with hnow | hold
      · exact .inl hnow
      · obtain ⟨q', hrefunds, hnow⟩ := hback.refunds
        rw [hrefunds, Table.find?_set_self] at hold
        cases hold
        exact .inl hnow

/-- All of an account's rows are taken back: it has nothing staked. -/
theorem takeBack_all {ctx : Context} {s : SystemState F} {f : Name} (hI : s.CanRelease f)
    (hvote : s.HasNoVote f) (hauth : f ∈ ctx.auth) :
    Run.Meets step (fun s call => (s.step call).isOk) s (takeBack ctx (s.givenBy f)) ∧
      TakenBack ctx f ((s.givenBy f).map Prod.fst) s
        (Run.exec step s (takeBack ctx (s.givenBy f))) ∧
      (∀ r, (Run.exec step s (takeBack ctx (s.givenBy f))).delband.find? ⟨f, r⟩ = none) ∧
      (Run.exec step s (takeBack ctx (s.givenBy f))).stakedOf f = 0 := by
  -- the rows of this account, each once
  have hrows : ∀ r ∈ s.givenBy f, r.1.scope = f ∧ s.delband.find? r.1 = some r.2 := by
    intro r hr
    obtain ⟨hmem, hscope⟩ := List.mem_filter.mp hr
    exact ⟨of_decide_eq_true hscope, Table.mem_rows.mp hmem⟩
  have hnodup : ((s.givenBy f).map Prod.fst).Nodup :=
    s.delband.nodup_keys.sublist (List.filter_sublist.map Prod.fst)
  obtain ⟨hok, hback⟩ := takeBack_ok hI hvote hauth hrows hnodup
  have hnone : ∀ r, (Run.exec step s (takeBack ctx (s.givenBy f))).delband.find? ⟨f, r⟩ = none := by
    intro r
    rw [hback.delband]
    split
    · rfl
    · rename_i hnot
      -- a row that is still there would have been one of those
      cases hfind : s.delband.find? ⟨f, r⟩ with
      | none => rfl
      | some d =>
        have hmem : (⟨f, r⟩, d) ∈ s.givenBy f :=
          List.mem_filter.mpr ⟨Table.mem_rows.mpr hfind, decide_eq_true rfl⟩
        exact absurd (List.mem_map_of_mem hmem) hnot
  -- the sum over no row is zero
  refine ⟨hok, hback, hnone, ?_⟩
  have hgiven := hback.can.backing.core.stake.given f
  have hno : ∀ k d, (Run.exec step s (takeBack ctx (s.givenBy f))).delband.find? k = some d →
      ¬ k.scope = f := by
    rintro ⟨scope, r⟩ d hk rfl
    rw [hnone] at hk
    cases hk
  rw [Table.sumOn_eq_zero hno, Table.sumOn_eq_zero hno] at hgiven
  omega

/-! ## The vote -/

/-- Producers that are only taken out of a vote are not new. -/
theorem changeDeltas_old (change : F → F) {producers : List Name} {deltas : ProducerDeltas F}
    (h : ∀ p d b, deltas.find? p = some (d, b) → b = false) :
    ∀ p d b, (changeDeltas change false deltas producers).find? p = some (d, b) → b = false := by
  unfold changeDeltas
  induction producers generalizing deltas with
  | nil => exact h
  | cons q rest ih =>
    rw [List.foldl_cons]
    refine ih fun p d b hp => ?_
    rw [Table.find?_set] at hp
    split at hp
    · cases hp
      rfl
    · exact h p d b hp

/-- Votes can be taken from producers whatever has become of them. -/
theorem applyDeltas_old (ctx : Context) (voting : Bool) (s : SystemState F) (acc : VpayDelta F)
    {deltas : List (Name × F × Bool)} (h : ∀ d ∈ deltas, d.2.2 = false) :
    ∃ r, applyDeltas ctx voting s acc deltas = .ok r := by
  induction deltas generalizing s acc with
  | nil => exact ⟨_, rfl⟩
  | cons d rest ih =>
    obtain ⟨owner, delta, isNew⟩ := d
    obtain rfl : isNew = false := h _ List.mem_cons_self
    have hrest : ∀ d ∈ rest, d.2.2 = false := fun d hd => h d (List.mem_cons_of_mem _ hd)
    simp only [applyDeltas]
    split
    · simp only [bind_eq_ok, check_eq_ok]
      obtain ⟨r, hr⟩ := ih _ _ hrest
      exact ⟨r, (), fun hnew => Bool.false_ne_true hnew.2.2, hr⟩
    · simp only [bind_eq_ok, check_eq_ok]
      obtain ⟨r, hr⟩ := ih _ _ hrest
      exact ⟨r, (), Bool.false_ne_true, hr⟩

/-- A voter without a proxy can take its vote back. -/
theorem updateVotes_none_ok (ctx : Context) {s : SystemState F} {f : Name} {v : VoterInfo F}
    (hv : s.voters.find? f = some v) (hproxy : ¬ v.proxy.isSet) :
    ∃ s', s.updateVotes ctx f ⟨0⟩ [] true = .ok s' := by
  have hunset : ¬ (⟨0⟩ : Name).isSet := by decide
  -- the empty vote is always accepted
  have hcheck : checkVote f ⟨0⟩ [] = .ok () := by
    rw [checkVote, if_neg hunset]
    rfl
  obtain ⟨hframe, -⟩ := activateStake_weights ctx s v
  -- undoing makes changes of old votes only
  obtain ⟨deltas, hundo, hold⟩ : ∃ deltas,
      (s.activateStake ctx v).undoVote ctx v = .ok (s.activateStake ctx v, deltas) ∧
        ∀ p d b, deltas.find? p = some (d, b) → b = false := by
    unfold undoVote
    by_cases hweight : Double.ofInt 0 < v.lastVoteWeight
    · rw [if_pos hweight, if_neg hproxy]
      exact ⟨_, rfl, changeDeltas_old _ fun p d b hp => by cases hp⟩
    · rw [if_neg hweight]
      exact ⟨∅, rfl, fun p d b hp => by cases hp⟩
  -- casting the empty vote adds no change
  have hcast : (s.activateStake ctx v).castVote ctx deltas ⟨0⟩ [] (newVoteWeight ctx v) true =
      .ok (s.activateStake ctx v, deltas) := by
    rw [castVote, if_neg hunset]
    split
    · rfl
    · rfl
  have hrows : ∀ d ∈ deltas.rows, d.2.2 = false := fun d hd =>
    hold d.1 d.2.1 d.2.2 (Table.mem_rows.mp hd)
  -- so no change asks for a registered producer
  obtain ⟨⟨s₃, acc⟩, happly⟩ := applyDeltas_old ctx true (s.activateStake ctx v)
    ⟨Double.ofInt 0, Double.ofInt 0⟩ hrows
  obtain ⟨v', hv', -⟩ := (hframe.trans (applyDeltas_weights happly).1).row hv
  exact ⟨_, updateVotes_eq_ok.mpr ⟨hcheck, v, hv, .inl hunset, _, deltas, hundo, _, deltas, hcast, s₃,
    acc, happly, _, rfl, v', hv', rfl⟩⟩

/-- The vote is gone, and nothing else that undelegating needs. -/
theorem step_clearVote {ctx : Context} {s : SystemState F} {f : Name} {v : VoterInfo F}
    (hI : s.CanRelease f) (hv : s.voters.find? f = some v) (hproxy : ¬ v.proxy.isSet)
    (hauth : f ∈ ctx.auth) :
    ∃ u, s.step ⟨ctx, .voteproducer f ⟨0⟩ []⟩ = .ok u ∧ u.CanRelease f ∧ u.HasNoVote f ∧
      u.coreSym = s.coreSym ∧ u.holdings f = s.holdings f ∧ u.delband = s.delband ∧
      u.refunds = s.refunds ∧ u.token = s.token := by
  have hrex := hI.backing.core.stake.noRex
  obtain ⟨u, hu⟩ := updateVotes_none_ok ctx hv hproxy
  -- the vote changes no stake
  have hframe := updateVotes_frame hu
  have hstep : s.step ⟨ctx, .voteproducer f ⟨0⟩ []⟩ = .ok u := by
    -- there is no REX stake to be updated
    have hnone : u.rexbalance.find? f = none := by
      rw [hframe.rexbalance, hrex, Table.find?_empty]
    simp only [step, voteproducer, bind_eq_ok, requireAuth_eq_ok, updateRexStake_of_empty hrex]
    refine ⟨(), hauth, u, hu, ?_⟩
    rw [hnone]
    rfl
  have hsym : u.coreSym = s.coreSym := by simp only [coreSym, hframe.rammarket]
  have hbacking : u.backing = s.backing := by
    unfold backing
    rw [hframe.delband, hframe.refunds]
  have hbalance : u.stakeBalance = s.stakeBalance := by
    unfold stakeBalance
    rw [hframe.token, hsym]
  obtain ⟨b, -, hbase, hstatus⟩ := updateVotes_base hu
  obtain ⟨voter, -, hactivation⟩ := updateVotes_activation hu
  refine ⟨u, hstep, ?_, ?_, hsym, ?_, hframe.delband, hframe.refunds, hframe.token⟩
  · refine ⟨step_backingInv hI.backing hstep, step_filledRows hI.filled hrex hstep, ?_, ?_, ?_,
      hI.ne_stake, hI.ne_b1⟩
    · -- the balance still covers the rows
      rw [hbacking, hbalance]
      exact hI.covered
    -- the activation has happened before
    · have hsame : activated ctx voter s.activation = s.activation := if_neg hI.activated
      rw [hsame] at hactivation
      have htime := congrArg Prod.snd hactivation
      exact fun h0 => hI.activated (htime.symm.trans h0)
    · intro p' hp' hactive
      have hf := hstatus f
      unfold statusOf at hf
      rw [hp', Option.map_some, eq_comm, Option.map_eq_some_iff] at hf
      -- voting makes nobody a producer
      obtain ⟨p, hp, heq⟩ := hf
      exact hI.notProducing p hp ((congrArg Prod.fst heq).trans hactive)
  · -- the new vote is the empty one
    intro v' hv'
    have hf := hbase f
    rw [if_pos rfl, baseOf_some hv', Option.some.injEq] at hf
    refine ⟨congrArg VoterBase.producers hf, ?_⟩
    rw [show v'.proxy = ⟨0⟩ from congrArg VoterBase.proxy hf]
    decide
  · unfold holdings
    rw [hframe.token, hsym, hframe.staked f, hframe.refunds]

/-! ## Leaving -/

/-- Whether a vote for producers is stored. -/
def hasVote (s : SystemState F) (f : Name) : Bool :=
  (s.voters.find? f).any fun v => v.producers ≠ []

/-- All that an account has to do to get its stake back. -/
def leaving (ctx later : Context) (s : SystemState F) (f : Name) : List (SystemCall F) :=
  (if s.hasVote f then [⟨ctx, .voteproducer f ⟨0⟩ []⟩] else []) ++ takeBack ctx (s.givenBy f) ++
    [⟨later, .refund f⟩]

/-- The last call: what is left is the refund, if there is one. -/
theorem refund_all {s : SystemState F} {f : Name} (hI : s.CanRelease f) (hstaked : s.stakedOf f = 0)
    {later : Context} (hauth : f ∈ later.auth) (haccount : later.isAccount f)
    (hmature : ∀ q, s.refunds.find? f = some q →
      TimePoint.ofSec q.requestTime + TimePoint.ofSec refundDelaySec ≤ later.now) :
    (s.coreBalance f < s.holdings f → (s.step ⟨later, .refund f⟩).isOk) ∧
      (Run.next step s ⟨later, .refund f⟩).coreBalance f = s.holdings f ∧
      (Run.next step s ⟨later, .refund f⟩).delband = s.delband ∧
      (Run.next step s ⟨later, .refund f⟩).refunds.find? f = none := by
  cases hq : s.refunds.find? f with
  | none =>
    -- nothing is waiting, so the call is refused and everything is in the balance
    have hholdings : s.holdings f = s.coreBalance f := by
      unfold holdings coreBalance
      rw [hstaked, Table.valueAt_none hq]
      omega
    -- the action finds no row
    have hfail : ∃ e, s.step ⟨later, .refund f⟩ = .error e := by
      cases hs : s.step ⟨later, .refund f⟩ with
      | error e => exact ⟨e, rfl⟩
      | ok s' =>
        obtain ⟨u, sends, token, hr, -, -⟩ := commit_eq_ok.mp hs
        obtain ⟨q, amount, hq', -⟩ := refund_cases hr
        rw [hq] at hq'
        cases hq'
    obtain ⟨e, he⟩ := hfail
    rw [Run.next_of_error he]
    exact ⟨fun hlt => absurd hholdings hlt.ne', hholdings.symm, rfl, hq⟩
  | some q =>
    -- without a stake the refund is all that is not in the balance
    obtain ⟨s', hs'⟩ := refund_ok hI.backing hI.covered hq (hmature q hq) hauth haccount
    rw [Run.next_of_ok hs']
    refine ⟨fun _ => ?_, ?_⟩
    · rw [hs']
      rfl
    · -- the whole refund has gone to the balance
      obtain ⟨u, sends, token, hr, hrun, rfl⟩ := commit_eq_ok.mp hs'
      have hholdings := refund_holdings hI.backing.core hI.ne_stake hr hrun
      obtain ⟨q', amount, -, -, -, rfl, -⟩ := refund_cases hr
      refine ⟨?_, rfl, Table.find?_erase_self _ _⟩
      rw [← hholdings]
      unfold holdings
      have hzero : (s.refunds.erase f).valueAt f RefundRequest.total = 0 :=
        Table.valueAt_none (Table.find?_erase_self _ _) _
      show token.balance f s.coreSym.code = token.balance f s.coreSym.code + s.stakedOf f +
        (s.refunds.erase f).valueAt f RefundRequest.total
      rw [hstaked, hzero]
      omega

/-- The first call, if there is a vote. -/
theorem clearVote_all {s : SystemState F} {f : Name} (hI : s.CanRelease f)
    (hproxy : ∀ v, s.voters.find? f = some v → ¬ v.proxy.isSet) {ctx : Context}
    (hauth : f ∈ ctx.auth) :
    let calls : List (SystemCall F) := if s.hasVote f then [⟨ctx, .voteproducer f ⟨0⟩ []⟩] else []
    let u := Run.exec step s calls
    Run.Meets step (fun s call => (s.step call).isOk) s calls ∧ u.CanRelease f ∧ u.HasNoVote f ∧
      u.coreSym = s.coreSym ∧ u.holdings f = s.holdings f ∧ u.delband = s.delband ∧
      u.refunds = s.refunds ∧ u.token = s.token := by
  intro calls u
  cases hvote : s.hasVote f with
  | false =>
    -- without a vote there is no call, and nothing to do
    have hcalls : calls = [] := by
      show (if s.hasVote f = true then _ else _) = _
      rw [hvote]
      rfl
    have hu : u = s := by
      show Run.exec step s calls = s
      rw [hcalls]
      rfl
    rw [hu, hcalls]
    refine ⟨trivial, hI, fun v hv => ⟨?_, hproxy v hv⟩, rfl, rfl, rfl, rfl, rfl⟩
    rw [hasVote, hv, Option.any_some] at hvote
    by_contra hne
    rw [decide_eq_true hne] at hvote
    cases hvote
  | true =>
    -- with a vote there is one call, which clears it
    obtain ⟨v, hv, -⟩ := (Option.any_eq_true _ _).mp hvote
    obtain ⟨w, hstep, hsame⟩ := step_clearVote hI hv (hproxy v hv) hauth
    have hcalls : calls = [⟨ctx, .voteproducer f ⟨0⟩ []⟩] := by
      show (if s.hasVote f = true then _ else _) = _
      rw [hvote]
      rfl
    have hu : u = w := by
      show Run.exec step s calls = w
      rw [hcalls]
      exact Run.next_of_ok hstep
    rw [hu, hcalls]
    refine ⟨⟨?_, trivial⟩, hsame⟩
    show (s.step ⟨ctx, .voteproducer f ⟨0⟩ []⟩).isOk = true
    rw [hstep]
    rfl

/-- An account that can release its stake gets all of it. -/
theorem leaving_ok {s : SystemState F} {f : Name} (hI : s.CanRelease f)
    (hproxy : ∀ v, s.voters.find? f = some v → ¬ v.proxy.isSet) {ctx later : Context}
    (hauth : f ∈ ctx.auth) (hauth' : f ∈ later.auth) (haccount : later.isAccount f)
    (hlater : TimePoint.ofSec ctx.now.secSinceEpoch + TimePoint.ofSec refundDelaySec ≤ later.now)
    (hold : ∀ q, s.refunds.find? f = some q →
      TimePoint.ofSec q.requestTime + TimePoint.ofSec refundDelaySec ≤ later.now) :
    let u := Run.exec step s (leaving ctx later s f)
    (s.coreBalance f < s.holdings f →
      Run.Meets step (fun s call => (s.step call).isOk) s (leaving ctx later s f)) ∧
    u.coreBalance f = s.holdings f ∧ (∀ r, u.delband.find? ⟨f, r⟩ = none) ∧
      u.refunds.find? f = none := by
  intro u
  -- the vote is cleared first
  obtain ⟨hok₁, hI₁, hvote₁, hsym₁, hholdings₁, hdel₁, hrefunds₁, htoken₁⟩ :=
    clearVote_all hI hproxy hauth
  -- the rows to be taken back are those of the start
  have hgiven : s.givenBy f = (Run.exec step s (if s.hasVote f then
      [⟨ctx, .voteproducer f ⟨0⟩ []⟩] else [])).givenBy f := by
    unfold givenBy
    rw [hdel₁]
  -- then all rows are taken back
  obtain ⟨hok₂, hback, hnone, hstaked⟩ := takeBack_all hI₁ hvote₁ hauth
  rw [← hgiven] at hok₂ hback hnone hstaked
  -- and the refund that results is paid, if it is old enough
  obtain ⟨hok₃, hbalance, hdel₃, hrefund⟩ := refund_all hback.can hstaked hauth' haccount fun q hq => by
    rcases hback.refund q hq with hnow | hq
    · rw [hnow]
      exact hlater
    · exact hold q (hrefunds₁ ▸ hq)
  -- the three parts are one run
  have hu : u = Run.next step (Run.exec step (Run.exec step s (if s.hasVote f then
      [⟨ctx, .voteproducer f ⟨0⟩ []⟩] else [])) (takeBack ctx (s.givenBy f)))
      ⟨later, .refund f⟩ := by
    show Run.exec step s (leaving ctx later s f) = _
    rw [leaving, Run.exec_append, Run.exec_append]
    rfl
  refine ⟨fun hlt => ?_, ?_, fun r => ?_, ?_⟩
  · -- the balance has not moved until the refund
    have hbalances : (Run.exec step (Run.exec step s (if s.hasVote f then
        [⟨ctx, .voteproducer f ⟨0⟩ []⟩] else [])) (takeBack ctx (s.givenBy f))).coreBalance f =
          s.coreBalance f := by
      unfold coreBalance
      rw [hback.coreSym, hsym₁, hback.token, htoken₁]
    rw [leaving, Run.meets_append, Run.meets_append, Run.exec_append]
    refine ⟨⟨hok₁, hok₂⟩, hok₃ ?_, trivial⟩
    rw [hbalances, hback.holdings, hholdings₁]
    exact hlt
  · rw [hu, hbalance, hback.holdings, hholdings₁]
  · rw [hu, hdel₃]
    exact hnone r
  · rw [hu]
    exact hrefund

/-- In every run in which `eosio.stake` neither stakes nor spends, and at every point of it after
    the activation, an account other than b1 that has anything staked or to be refunded, is not an
    active producer and uses no proxy can get all of it back: it takes its vote back, undelegates
    all it has given, and demands the refund three days later. Every one of these calls succeeds,
    and then its balance is all that it had in balance, stakes and refund. -/
theorem stake_can_leave {s : SystemState F} (h : s.BeforeStaking) {calls : List (SystemCall F)}
    (hkeep : Run.Meets step KeepsStake s calls) {f : Name} (hstake : f ≠ stakeAccount)
    (hb1 : f ≠ Name.ofString "b1")
    (hactivated : (Run.exec step s calls).gstate.threshActivatedStakeTime ≠ 0)
    (hproducing : (Run.exec step s calls).NotProducing f)
    (hproxy : ∀ v, (Run.exec step s calls).voters.find? f = some v → ¬ v.proxy.isSet)
    {ctx later : Context} (hauth : f ∈ ctx.auth) (hauth' : f ∈ later.auth)
    (haccount : later.isAccount f)
    (hlater : TimePoint.ofSec ctx.now.secSinceEpoch + TimePoint.ofSec refundDelaySec ≤ later.now)
    (hold : ∀ q, (Run.exec step s calls).refunds.find? f = some q →
      TimePoint.ofSec q.requestTime + TimePoint.ofSec refundDelaySec ≤ later.now)
    (hdue : (Run.exec step s calls).coreBalance f < (Run.exec step s calls).holdings f) :
    let u := Run.exec step s calls
    let u' := Run.exec step u (leaving ctx later u f)
    Run.Meets step (fun s call => (s.step call).isOk) u (leaving ctx later u f) ∧
      u'.coreBalance f = u.holdings f ∧ (∀ r, u'.delband.find? ⟨f, r⟩ = none) ∧
        u'.refunds.find? f = none := by
  obtain ⟨hI, hcovered⟩ := h.covered hkeep
  obtain ⟨hok, hend⟩ := leaving_ok ⟨hI, h.filledRows calls, hcovered, hactivated, hproducing, hstake,
    hb1⟩ hproxy hauth hauth' haccount hlater hold
  exact ⟨hok hdue, hend⟩

/-- Alice votes for bob with what she has left. -/
def Sample.supporting : List (SystemCall Rat) :=
  unstaking ++ [⟨ctx [systemAccount] launch, .producers (Table.set ∅ bob ⟨0, true, 0⟩) ∅ 0⟩,
    ⟨ctx [alice] launch, .voteproducer alice ⟨0⟩ [bob]⟩]

open Sample in
/-- Alice leaves with all that she has got: her balance, her stake, and the refund that she has
    already asked for. -/
theorem stake_can_leave_sample :
    let u := Run.exec step start supporting
    let leave := leaving (ctx [alice] launch) (ctx [alice] (launch + 259200)) u alice
    leave.length = 3 ∧ Run.Meets step (fun s call => (s.step call).isOk) u leave ∧
      (Run.exec step u leave).coreBalance alice = 1500000100000 := by
  have hstart : start.BeforeStaking := ⟨⟨1048576, 200000, setup, rfl⟩, by decide +kernel,
    Table.eq_empty_of_size (by decide +kernel), Table.eq_empty_of_size (by decide +kernel)⟩
  have hkeep : Run.Meets step KeepsStake start supporting := by decide +kernel
  have hactivated : (Run.exec step start supporting).gstate.threshActivatedStakeTime ≠ 0 := by
    decide +kernel
  have hproducing : (Run.exec step start supporting).NotProducing alice := by
    intro p hp
    have hnone : (Run.exec step start supporting).producers.find? alice = none := by decide +kernel
    rw [hnone] at hp
    cases hp
  have hproxy : ∀ v ∈ (Run.exec step start supporting).voters.find? alice, ¬ v.proxy.isSet := by
    decide +kernel
  have hold : ∀ q ∈ (Run.exec step start supporting).refunds.find? alice,
      TimePoint.ofSec q.requestTime + TimePoint.ofSec refundDelaySec ≤
        (ctx [alice] (launch + 259200)).now := by
    decide +kernel
  have hlater : TimePoint.ofSec (ctx [alice] launch).now.secSinceEpoch +
      TimePoint.ofSec refundDelaySec ≤ (ctx [alice] (launch + 259200)).now := by
    decide +kernel
  have hstake : alice ≠ stakeAccount := by decide +kernel
  have hb1 : alice ≠ Name.ofString "b1" := by decide +kernel
  have hauth : alice ∈ (ctx [alice] launch).auth := List.mem_cons_self
  have hauth' : alice ∈ (ctx [alice] (launch + 259200)).auth := List.mem_cons_self
  have hheld : (Run.exec step start supporting).holdings alice = 1500000100000 := by decide +kernel
  have hdue : (Run.exec step start supporting).coreBalance alice <
      (Run.exec step start supporting).holdings alice := by
    decide +kernel
  have hlength : (leaving (ctx [alice] launch) (ctx [alice] (launch + 259200))
      (Run.exec step start supporting) alice).length = 3 := by
    decide +kernel
  have hsample := stake_can_leave hstart hkeep hstake hb1 hactivated hproducing hproxy hauth hauth'
    rfl hlater hold hdue
  exact ⟨hlength, hsample.imp_right fun h => h.1.trans hheld⟩

end SystemState

end UxContracts
