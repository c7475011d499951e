import UxContracts.Native.Contract
import UxContracts.Spec.RamTrading

/-!
# The ledgers of stake agree

Stake is recorded three times: by giver and receiver in `delband`, by receiver in
`userres` and by giver in the `staked` field of `voters`. `StakeInv` says that the
second is the sum of the first over all givers, for NET and CPU separately, and the
third the sum over all receivers. Every call keeps it (`step_stakeInv`), so it holds in
every state that can be reached from empty tables (`stake_ledgers_agree`).
-/

namespace UxContracts

namespace SystemState

variable {F : Type}

/-- The three ledgers agree, and their rows are proper. -/
structure StakeInv (s : SystemState F) : Prop where
  rows : StakeRows s s.coreSym
  uninit : s.rammarket = none → s.refunds = ∅
  noRex : s.rexbalance = ∅
  received : ∀ r,
    s.delband.sumOn (fun k => k.key = r) DelegatedBandwidth.net =
      s.userres.valueAt r UserResources.net ∧
    s.delband.sumOn (fun k => k.key = r) DelegatedBandwidth.cpu =
      s.userres.valueAt r UserResources.cpu
  given : ∀ f, s.delband.sumOn (fun k => k.scope = f) DelegatedBandwidth.net +
    s.delband.sumOn (fun k => k.scope = f) DelegatedBandwidth.cpu = s.stakedOf f

namespace StakeInv

variable {s s' : SystemState F}

/-- No voter has a negative stake, since no row has. -/
theorem stakedOf_nonneg (hI : s.StakeInv) (f : Name) : 0 ≤ s.stakedOf f := by
  have hnet : 0 ≤ s.delband.sumOn (fun k => k.scope = f) DelegatedBandwidth.net :=
    Table.sumOn_nonneg fun k d hk => (hI.rows.delband k d hk).net_nonneg
  have hcpu : 0 ≤ s.delband.sumOn (fun k => k.scope = f) DelegatedBandwidth.cpu :=
    Table.sumOn_nonneg fun k d hk => (hI.rows.delband k d hk).cpu_nonneg
  have hgiven := hI.given f
  omega

/-- A state with the same stakes, rows and core symbol. -/
theorem of_same (hI : s.StakeInv) (hdel : s'.delband = s.delband)
    (hrefunds : s'.refunds = s.refunds) (hrex : s'.rexbalance = s.rexbalance)
    (hsym : s'.coreSym = s.coreSym) (hmarket : s'.rammarket = none → s.rammarket = none)
    (huser : ∀ r u, s'.userres.find? r = some u → StakePair u.netWeight u.cpuWeight)
    (hweights : ∀ r, s'.userres.valueAt r UserResources.net =
      s.userres.valueAt r UserResources.net ∧
      s'.userres.valueAt r UserResources.cpu = s.userres.valueAt r UserResources.cpu)
    (hstaked : ∀ f, s'.stakedOf f = s.stakedOf f) : s'.StakeInv where
  rows := by
    refine ⟨?_, huser, ?_⟩
    · rw [hdel]
      exact hI.rows.delband
    · rw [hrefunds, hsym]
      exact hI.rows.refunds
  uninit := by
    intro h
    rw [hrefunds]
    exact hI.uninit (hmarket h)
  noRex := hrex.trans hI.noRex
  received := by
    intro r
    rw [hdel, (hweights r).1, (hweights r).2]
    exact hI.received r
  given := by
    intro f
    rw [hdel, hstaked]
    exact hI.given f

/-- Voting keeps the ledgers. -/
theorem of_voteFrame (hI : s.StakeInv) (h : VoteFrame s s') : s'.StakeInv := by
  refine hI.of_same h.delband h.refunds h.rexbalance ?_ ?_ ?_ ?_ h.staked
  · unfold coreSym
    rw [h.rammarket]
  · rw [h.rammarket]
    exact id
  · rw [h.userres]
    exact hI.rows.userres
  · rw [h.userres]
    exact fun _ => ⟨rfl, rfl⟩

/-- The token contract has no part in the ledgers. -/
theorem of_token (hI : s.StakeInv) (token : TokenState) :
    ({ s with token := token } : SystemState F).StakeInv :=
  hI.of_same rfl rfl rfl rfl id hI.rows.userres (fun _ => ⟨rfl, rfl⟩) fun _ => rfl

/-- A grown supply of RAM keeps the ledgers. -/
theorem of_ramGrowth (hI : s.StakeInv) (h : RamGrowth s s') : s'.StakeInv := by
  have hmarket : s'.rammarket = none → s.rammarket = none := by
    intro hnone
    have := h.market
    rw [hnone] at this
    simpa using this.symm
  have heq := h.eq
  refine hI.of_same ?_ ?_ ?_ h.coreSym hmarket ?_ ?_ ?_
  · rw [heq]
  · rw [heq]
  · rw [heq]
  · rw [heq]
    exact hI.rows.userres
  · rw [heq]
    exact fun _ => ⟨rfl, rfl⟩
  · rw [heq]
    exact fun _ => rfl

/-- A `userres` row with the weights it had, or with none if it is new. -/
theorem of_userres_set (hI : s.StakeInv) {receiver : Name} {u : UserResources}
    (hdel : s'.delband = s.delband) (hrefunds : s'.refunds = s.refunds)
    (hrex : s'.rexbalance = s.rexbalance) (hmarket : s'.rammarket = s.rammarket)
    (hvoters : s'.voters = s.voters) (huser : s'.userres = s.userres.set receiver u)
    (hpair : StakePair u.netWeight u.cpuWeight)
    (hnet : u.net = s.userres.valueAt receiver UserResources.net)
    (hcpu : u.cpu = s.userres.valueAt receiver UserResources.cpu) : s'.StakeInv := by
  refine hI.of_same hdel hrefunds hrex ?_ (fun h => hmarket ▸ h) ?_ ?_ ?_
  · unfold coreSym
    rw [hmarket]
  · intro r u' hr
    rw [huser, Table.find?_set] at hr
    split at hr
    · cases hr
      exact hpair
    · exact hI.rows.userres r u' hr
  · intro r
    rw [huser, Table.valueAt_set, Table.valueAt_set]
    split
    · rename_i hr
      rw [hr]
      exact ⟨hnet, hcpu⟩
    · exact ⟨rfl, rfl⟩
  · intro f
    unfold stakedOf
    rw [hvoters]

/-- A change of stake keeps the ledgers together: the row of the owner and the receiver
    is in the receiver's sum and in the owner's. -/
theorem of_stakeChange (hI : s.StakeInv) {source owner receiver : Name} {n c : Asset}
    {sends : List InlineAction}
    (h : StakeChange s.coreSym s s' source owner receiver n c sends) (hinit : s.rammarket ≠ none) :
    s'.StakeInv where
  rows := by
    -- the core symbol stays
    have hsym : s'.coreSym = s.coreSym := by
      unfold coreSym
      rw [h.rammarket]
    rw [hsym]
    exact h.rows hI.rows
  uninit := fun hnone => absurd (h.rammarket ▸ hnone) hinit
  noRex := h.rexbalance.trans hI.noRex
  received := by
    -- both sides of the receiver grow by the quantities
    intro r
    have hold := hI.received r
    have hnew := h.valueAt_userres r
    rw [h.sumOn_net, h.sumOn_cpu, hold.1, hold.2, hnew.1, hnew.2]
    simp only [eq_comm (a := receiver)]
    exact ⟨trivial, trivial⟩
  given := by
    -- and so do both sides of the owner
    intro f
    have hold := hI.given f
    have hnew := h.staked f
    rw [h.sumOn_net, h.sumOn_cpu, hnew]
    simp only [eq_comm (a := owner)]
    split <;> omega

end StakeInv

/-! ## One step -/

/-- A purchase of RAM keeps the ledgers of stakes. -/
theorem buyram_stakeInv {ctx : Context} {s s' : SystemState F} {payer receiver : Name} {q : Asset}
    {sends : List InlineAction} (hI : s.StakeInv)
    (h : s.buyram ctx payer receiver q = .ok (s', sends)) : s'.StakeInv := by
  obtain ⟨s₁, res, limits, hsup, -, -, -, -, hres, rfl, -⟩ := buyram_spec h
  have hI₁ := hI.of_ramGrowth (updateRamSupply_spec hsup)
  obtain ⟨hpair, hnet, hcpu, -⟩ := addRamBytes_spec hI₁.rows hres
  exact hI₁.of_userres_set rfl rfl rfl rfl rfl rfl hpair hnet hcpu

/-- A sale of RAM keeps the ledgers of stakes. -/
theorem sellram_stakeInv {ctx : Context} {s s' : SystemState F} {account : Name} {bytes : Int64}
    {sends : List InlineAction} (hI : s.StakeInv)
    (h : s.sellram ctx account bytes = .ok (s', sends)) : s'.StakeInv := by
  obtain ⟨s₁, res, limits, hsup, -, -, hres, -, -, rfl, -⟩ := sellram_spec h
  have hI₁ := hI.of_ramGrowth (updateRamSupply_spec hsup)
  have hpair := hI₁.rows.userres account res hres
  exact hI₁.of_userres_set rfl rfl rfl rfl rfl rfl hpair 
    (Table.valueAt_some hres UserResources.net).symm (Table.valueAt_some hres UserResources.cpu).symm

/-- A new account keeps the ledgers of stakes. -/
theorem newaccount_stakeInv {s s' : SystemState F} {creator newact : Name} (hI : s.StakeInv)
    (h : s.newaccount creator newact = .ok s') : s'.StakeInv := by
  obtain ⟨zero, bids, limits, hzero, hr, hnone, rfl⟩ := newaccount_spec h
  have h0 : zero.amount.toInt = 0 := by rw [hzero, Int64.toInt_zero]
  refine hI.of_userres_set rfl rfl rfl rfl rfl rfl ⟨h0.ge, h0.ge, hr, hr⟩ ?_ ?_
  · rw [Table.valueAt_none hnone]
    exact h0
  · rw [Table.valueAt_none hnone]
    exact h0

/-- The initialisation keeps the ledgers of stakes. -/
theorem init_stakeInv {ctx : Context} {s s' : SystemState F} {version : UInt32} {core : Symbol}
    {sends : List InlineAction} (hI : s.StakeInv)
    (h : s.init ctx version core = .ok (s', sends)) : s'.StakeInv := by
  obtain ⟨m, hnone, -, -, rfl, -⟩ := init_spec h
  have hempty := hI.uninit hnone
  -- no refund has been made in a symbol that was not there yet
  refine ⟨⟨hI.rows.delband, hI.rows.userres, ?_⟩, (fun hm => nomatch hm), hI.noRex, hI.received,
    hI.given⟩
  intro f q hq
  simp only at hq
  rw [hempty, Table.find?_empty] at hq
  cases hq

/-- Empty tables agree. -/
theorem EmptyTables.stakeInv {s : SystemState F} (h : s.EmptyTables) : s.StakeInv where
  rows := by
    refine ⟨fun k d hk => ?_, fun r u hr => ?_, fun f q hq => ?_⟩
    · rw [h.delband, Table.find?_empty] at hk
      cases hk
    · rw [h.userres, Table.find?_empty] at hr
      cases hr
    · rw [h.refunds, Table.find?_empty] at hq
      cases hq
  uninit := fun _ => h.refunds
  noRex := h.rexbalance
  received := by
    intro r
    rw [h.delband, h.userres]
    exact ⟨rfl, rfl⟩
  given := by
    intro f
    unfold stakedOf
    rw [h.delband, h.voters]
    rfl

variable [Double F]

/-- Every call keeps the ledgers together. -/
theorem step_stakeInv {s s' : SystemState F} {call : SystemCall F} (hI : s.StakeInv)
    (h : s.step call = .ok s') : s'.StakeInv := by
  obtain ⟨ctx, action⟩ := call
  have hcore : ∀ sym, s.coreSymbol = .ok sym → sym = s.coreSym := fun _ => coreSym_of_ok
  -- the core symbol is read from the market
  have hinit : ∀ {sym}, s.coreSymbol = .ok sym → s.rammarket ≠ none := by
    intro sym hsym hnone
    obtain ⟨m, hm, -⟩ := coreSymbol_eq_ok.mp hsym
    rw [hnone] at hm
    cases hm
  cases action with
  | init version core =>
    obtain ⟨u, sends, token, hr, -, rfl⟩ := commit_eq_ok.mp h
    -- the market is made, and no stake
    exact (init_stakeInv hI hr).of_token token
  | newaccount creator newact => exact newaccount_stakeInv hI h
  | setram maxRamSize =>
    obtain ⟨m, m', hm, hq, -, -, rfl⟩ := setram_spec h
    refine hI.of_same rfl rfl rfl ?_ (fun hnone => nomatch hnone) hI.rows.userres
      (fun _ => ⟨rfl, rfl⟩) fun _ => rfl
    -- the core symbol of the market stays
    simp only [coreSym, hm, Option.elim_some, hq]
  | setramrate bytesPerBlock =>
    obtain ⟨-, u, hu, rfl⟩ := setramrate_spec h
    -- growing the market moves no stake
    have hI₁ := hI.of_ramGrowth (updateRamSupply_spec hu)
    exact hI₁.of_same rfl rfl rfl rfl id hI₁.rows.userres (fun _ => ⟨rfl, rfl⟩) fun _ => rfl
  | buyram payer receiver quant =>
    obtain ⟨u, sends, token, hr, -, rfl⟩ := commit_eq_ok.mp h
    -- a trade writes the bytes of its row only
    exact (buyram_stakeInv hI hr).of_token token
  | buyrambytes payer receiver bytes =>
    obtain ⟨u, sends, token, hr, -, rfl⟩ := commit_eq_ok.mp h
    exact (buyram_stakeInv hI (buyrambytes_spec hr)).of_token token
  | sellram account bytes =>
    obtain ⟨u, sends, token, hr, -, rfl⟩ := commit_eq_ok.mp h
    exact (sellram_stakeInv hI hr).of_token token
  | delegatebw from_ receiver net cpu transfer =>
    obtain ⟨u, sends, token, hr, -, rfl⟩ := commit_eq_ok.mp h
    obtain ⟨hsym, -, -, -, hchange⟩ :=
      delegatebw_spec hI.rows hI.noRex hI.stakedOf_nonneg hcore hr
    -- a change of stake moves the ledgers together
    exact (hI.of_stakeChange hchange (hinit hsym)).of_token token
  | undelegatebw from_ receiver net cpu =>
    obtain ⟨u, sends, token, hr, -, rfl⟩ := commit_eq_ok.mp h
    obtain ⟨hsym, -, -, -, hchange⟩ :=
      undelegatebw_spec hI.rows hI.noRex hI.stakedOf_nonneg hcore hr
    exact (hI.of_stakeChange hchange (hinit hsym)).of_token token
  | refund owner =>
    obtain ⟨u, sends, token, hr, -, rfl⟩ := commit_eq_ok.mp h
    obtain ⟨q, amount, -, -, -, rfl, -⟩ := refund_spec hI.rows hr
    refine StakeInv.of_token (s := { s with refunds := s.refunds.erase owner }) ?_ token
    refine ⟨⟨hI.rows.delband, hI.rows.userres, ?_⟩, ?_, hI.noRex, hI.received, hI.given⟩
    · -- the other refunds are as before
      intro f q' hq'
      rw [Table.find?_erase] at hq'
      split at hq'
      · cases hq'
      · exact hI.rows.refunds f q' hq'
    · intro hnone
      rw [hI.uninit hnone]
      rfl
  | voteproducer voterName proxy producers =>
    -- votes move no stake
    exact hI.of_voteFrame (voteproducer_frame hI.noRex h)
  | regproxy proxy isproxy => exact hI.of_voteFrame (regproxy_frame h)
  | token action =>
    obtain ⟨token, -, rfl⟩ := step_token_spec h
    exact hI.of_token token
  | producers producers producers2 scheduleSize =>
    simp only [step, Except.ok.injEq] at h
    subst h
    exact hI.of_same rfl rfl rfl rfl id hI.rows.userres (fun _ => ⟨rfl, rfl⟩) fun _ => rfl

/-- Every run keeps the ledgers of stakes. -/
theorem exec_stakeInv {s : SystemState F} (h : s.StakeInv) (calls : List (SystemCall F)) :
    (Run.exec step s calls).StakeInv :=
  Run.exec_induction (I := StakeInv) (fun _ _ _ hI hs => step_stakeInv hI hs) h calls

/-! ## Agreement -/

/-- Totals and voting stakes are the sums of what has been delegated, and nothing that is
    stored is negative. A missing row counts as zero. -/
structure LedgersAgree (s : SystemState F) : Prop where
  net_received : ∀ r, s.userres.valueAt r UserResources.net =
    s.delband.sumOn (fun k => k.key = r) DelegatedBandwidth.net
  cpu_received : ∀ r, s.userres.valueAt r UserResources.cpu =
    s.delband.sumOn (fun k => k.key = r) DelegatedBandwidth.cpu
  staked_given : ∀ f, s.stakedOf f =
    s.delband.sumOn (fun k => k.scope = f) DelegatedBandwidth.net +
      s.delband.sumOn (fun k => k.scope = f) DelegatedBandwidth.cpu
  delband_nonneg : ∀ k d, s.delband.find? k = some d → 0 ≤ d.net ∧ 0 ≤ d.cpu
  userres_nonneg : ∀ r u, s.userres.find? r = some u → 0 ≤ u.net ∧ 0 ≤ u.cpu
  staked_nonneg : ∀ f v, s.voters.find? f = some v → 0 ≤ v.staked.toInt

/-- In every state that a run of the system contract reaches from empty tables, the
    ledgers of stake agree. -/
theorem stake_ledgers_agree {s : SystemState F} (h : s.EmptyTables)
    (calls : List (SystemCall F)) : (Run.exec step s calls).LedgersAgree := by
  have hI := exec_stakeInv h.stakeInv calls
  exact
    { net_received := fun r => (hI.received r).1.symm
      cpu_received := fun r => (hI.received r).2.symm
      staked_given := fun f => (hI.given f).symm
      delband_nonneg := fun k d hk =>
        ⟨(hI.rows.delband k d hk).net_nonneg, (hI.rows.delband k d hk).cpu_nonneg⟩
      userres_nonneg := fun r u hr =>
        ⟨(hI.rows.userres r u hr).net_nonneg, (hI.rows.userres r u hr).cpu_nonneg⟩
      staked_nonneg := fun f v hv => stakedOf_some hv ▸ hI.stakedOf_nonneg f }

/-- Alice stakes for bob. -/
def Sample.staking : List (SystemCall Rat) :=
  setup ++ [⟨ctx [alice] launch, .delegatebw alice bob (utx 700) (utx 300) false⟩]

/-- The ledgers of the sample agree, and there is something in them. -/
theorem stake_ledgers_agree_sample :
    (Run.exec step (genesis 1048576 200000) Sample.staking).LedgersAgree ∧
      (Run.exec step (genesis 1048576 200000) Sample.staking).stakedOf Sample.alice = 1000 :=
  ⟨stake_ledgers_agree (genesis_emptyTables _ _) Sample.staking, by decide +kernel⟩

end SystemState

end UxContracts
