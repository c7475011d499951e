import UxContracts.Spec.RefundSchedule

/-!
# Staked tokens are backed

`backing` is what `eosio.stake` owes: all that is delegated and all that is to be
refunded. What it holds on top of that is its `surplus`. A change of stake by another
account, and a refund, leave the surplus as it is (`step_surplus`), so the core tokens
of `eosio.stake` cover what it owes as long as nothing else takes tokens from it
(`staked_tokens_backed`), and every refund can be paid once it is mature.
-/

namespace UxContracts

namespace SystemState

variable {F : Type}

/-- The staked core tokens and the ones that wait to be refunded. -/
def backing (s : SystemState F) : Int :=
  s.delband.sumOn (fun _ => True) DelegatedBandwidth.net +
    s.delband.sumOn (fun _ => True) DelegatedBandwidth.cpu + refundTotal s.refunds

/-- The core tokens of `eosio.stake`. -/
def stakeBalance (s : SystemState F) : Int := s.token.balance stakeAccount s.coreSym.code

def surplus (s : SystemState F) : Int := s.stakeBalance - s.backing

/-! ## Inline transfers of stake -/

/-- The transfer of `changebw` brings the sent amount to `eosio.stake`. -/
theorem StakeTransfer.balance {ctx : Context} {t t' : TokenState} {source : Name} {sym : Symbol}
    {sends : List InlineAction} (h : StakeTransfer source sym sends) (hI : t.Inv)
    (hne : source ≠ stakeAccount) (hrun : runInline ctx t sends = .ok t') :
    t'.balance stakeAccount sym.code = t.balance stakeAccount sym.code + sentAmount sends := by
  rcases h with rfl | ⟨q, hq, hpos, rfl⟩
  · rw [runInline_nil] at hrun
    subst hrun
    exact (add_zero _).symm
  · have hmove := TokenState.transfer_balance hI (runInline_singleton.mp hrun) stakeAccount sym.code
    rw [hq, if_pos ⟨rfl, rfl⟩, if_neg fun hs => hne hs.1.symm, sub_zero] at hmove
    exact hmove

/-- A change of stake by another account adds as much to the debt as to the balance. -/
theorem StakeChange.surplus {ctx : Context} {s u : SystemState F} {token : TokenState}
    {source owner receiver : Name} {n c : Asset} {sends : List InlineAction}
    (h : StakeChange s.coreSym s u source owner receiver n c sends) (hI : s.token.Inv)
    (hne : source ≠ stakeAccount) (hrun : runInline ctx u.token sends = .ok token) :
    ({ u with token := token } : SystemState F).surplus = s.surplus := by
  have hnet := h.sumOn_net fun _ => True
  have hcpu := h.sumOn_cpu fun _ => True
  have hrefund := h.refundTotal hne
  rw [h.token] at hrun
  have hbal := h.transfer.balance hI hne hrun
  have hsym : ({ u with token := token } : SystemState F).coreSym = s.coreSym := by
    simp only [coreSym, h.rammarket]
  simp only [if_true] at hnet hcpu
  unfold SystemState.surplus backing stakeBalance
  rw [hsym]
  show token.balance stakeAccount s.coreSym.code - (u.delband.sumOn _ DelegatedBandwidth.net +
    u.delband.sumOn _ DelegatedBandwidth.cpu + SystemState.refundTotal u.refunds) = _
  rw [hnet, hcpu, hrefund, hbal]
  omega

/-- A refund takes what it pays out of the debt. -/
theorem refund_surplus {ctx : Context} {s u : SystemState F} {token : TokenState} {owner : Name}
    {sends : List InlineAction} (hI : s.CoreToken) (h : s.refund ctx owner = .ok (u, sends))
    (hrun : runInline ctx u.token sends = .ok token) :
    ({ u with token := token } : SystemState F).surplus = s.surplus := by
  obtain ⟨q, amount, hq, hsym, hamt, rfl, rfl⟩ := refund_spec hI.stake.rows h
  have htransfer : s.token.transfer _ stakeAccount owner amount "unstake" = .ok token :=
    runInline_singleton.mp hrun
  obtain ⟨-, -, -, hne, -⟩ := TokenState.transfer_rows hI.token htransfer
  have hmove := TokenState.transfer_balance hI.token htransfer stakeAccount s.coreSym.code
  rw [hsym, if_neg fun hs => hne hs.1, if_pos ⟨rfl, rfl⟩, hamt] at hmove
  have hrefund : SystemState.refundTotal (s.refunds.erase owner) =
      SystemState.refundTotal s.refunds - q.total := by
    unfold SystemState.refundTotal
    rw [Table.sumOn_erase, if_pos trivial, Table.valueAt_some hq]
  unfold surplus backing stakeBalance
  show token.balance stakeAccount s.coreSym.code -
    (s.delband.sumOn (fun _ => True) DelegatedBandwidth.net +
      s.delband.sumOn (fun _ => True) DelegatedBandwidth.cpu +
      SystemState.refundTotal (s.refunds.erase owner)) = _
  rw [hmove, hrefund]
  omega

/-! ## One step -/

variable [Double F]

/-- What the surplus needs of a state: there is a market, and `eosio.stake` has no refund. -/
structure BackingInv (s : SystemState F) : Prop where
  core : s.CoreToken
  market : s.rammarket.isSome
  noRefund : s.refunds.find? stakeAccount = none

/-- The account whose stake an action changes. -/
def staker : SystemAction F → Option Name
  | .delegatebw from_ .. | .undelegatebw from_ .. => some from_
  | _ => none

/-- `eosio.stake` does not stake, and nothing but a change of stake or a refund lowers its
    balance. -/
def KeepsStake (s : SystemState F) (call : SystemCall F) : Prop :=
  staker call.action ≠ some stakeAccount ∧
    (movesStake call.action = false → s.stakeBalance ≤ (Run.next step s call).stakeBalance)

/-- Nothing but a change of stake raises the balance of `eosio.stake`. -/
def NoDonation (s : SystemState F) (call : SystemCall F) : Prop :=
  movesStake call.action = false → (Run.next step s call).stakeBalance ≤ s.stakeBalance

instance (s : SystemState F) (call : SystemCall F) : Decidable (KeepsStake s call) :=
  inferInstanceAs (Decidable (_ ∧ _))

instance (s : SystemState F) (call : SystemCall F) : Decidable (NoDonation s call) :=
  inferInstanceAs (Decidable (_ → _))

/-- The surplus is not touched by changes of stake, and what it owes by nothing else. -/
theorem step_surplus {s s' : SystemState F} {call : SystemCall F} (hI : s.BackingInv)
    (hkeep : KeepsStake s call) (h : s.step call = .ok s') :
    s.surplus ≤ s'.surplus ∧ (NoDonation s call → s'.surplus = s.surplus) := by
  have hS := hI.core.stake
  have hcore : ∀ sym, s.coreSymbol = .ok sym → sym = s.coreSym := fun _ => coreSym_of_ok
  cases hother : movesStake call.action with
  | true =>
    obtain ⟨ctx, action⟩ := call
    cases action with
    | delegatebw from_ receiver net cpu transfer =>
      obtain ⟨u, sends, token, hr, hrun, rfl⟩ := commit_eq_ok.mp h
      obtain ⟨-, -, -, -, hchange⟩ := delegatebw_spec hS.rows hS.noRex hS.stakedOf_nonneg hcore hr
      -- the custodian itself does not delegate
      have hne : from_ ≠ stakeAccount := fun he => hkeep.1 (congrArg some he)
      have heq := hchange.surplus hI.core.token hne hrun
      exact ⟨heq.ge, fun _ => heq⟩
    | undelegatebw from_ receiver net cpu =>
      obtain ⟨u, sends, token, hr, hrun, rfl⟩ := commit_eq_ok.mp h
      obtain ⟨-, -, -, -, hchange⟩ := undelegatebw_spec hS.rows hS.noRex hS.stakedOf_nonneg hcore hr
      have hne : from_ ≠ stakeAccount := fun he => hkeep.1 (congrArg some he)
      have heq := hchange.surplus hI.core.token hne hrun
      exact ⟨heq.ge, fun _ => heq⟩
    | refund owner =>
      obtain ⟨u, sends, token, hr, hrun, rfl⟩ := commit_eq_ok.mp h
      -- the refund is paid from what backs it
      have heq := refund_surplus hI.core hr hrun
      exact ⟨heq.ge, fun _ => heq⟩
    | _ => cases hother
  | false =>
    have hframe := step_stakeFrame hS.noRex (isInit_eq_false hI.market h) hother h
    -- the rows are the same, and the balance does not shrink
    have hbacking : s'.backing = s.backing := by
      unfold backing
      rw [hframe.delband, hframe.refunds]
    have hle := hkeep.2 hother
    rw [Run.next_of_ok h] at hle
    refine ⟨?_, fun hnone => ?_⟩
    · unfold surplus
      omega
    · -- or it is the same, if nobody donates
      have hge := hnone hother
      rw [Run.next_of_ok h] at hge
      unfold surplus
      omega

/-- Every call keeps what is known of the rows of stakes and refunds. -/
theorem step_backingInv {s s' : SystemState F} {call : SystemCall F} (hI : s.BackingInv)
    (h : s.step call = .ok s') : s'.BackingInv where
  core := step_coreToken hI.core h
  market := by
    rw [(step_sameMarket hI.core.stake hI.market h).isSome]
    exact hI.market
  noRefund := step_noRefund hI.core.stake hI.noRefund h

/-! ## Runs -/

/-- A run never lowers the surplus. -/
theorem exec_surplus {s : SystemState F} (hI : s.BackingInv) {calls : List (SystemCall F)}
    (h : Run.Meets step KeepsStake s calls) :
    (Run.exec step s calls).BackingInv ∧ s.surplus ≤ (Run.exec step s calls).surplus :=
  Run.exec_rel (R := fun s s' => s.surplus ≤ s'.surplus) (fun _ => le_refl _)
    (fun _ _ _ h h' => le_trans h h')
    (fun _ _ _ hI hkeep hs => ⟨step_backingInv hI hs, (step_surplus hI hkeep hs).1⟩) hI h

/-- A run without donations keeps the surplus. -/
theorem exec_surplus_eq {s : SystemState F} (hI : s.BackingInv) {calls : List (SystemCall F)}
    (h : Run.Meets step KeepsStake s calls) (hnone : Run.Meets step NoDonation s calls) :
    (Run.exec step s calls).surplus = s.surplus := by
  have hrel := Run.exec_rel (R := fun (s t : SystemState F) => s.surplus = t.surplus) (fun _ => rfl)
    (fun _ _ _ h h' => h.trans h')
    (fun _ _ _ hI hC hs =>
      ⟨step_backingInv hI hs, ((step_surplus hI hC.1 hs).2 hC.2).symm⟩) hI (h.and hnone)
  exact hrel.2.symm

omit [Double F] in
/-- A refund is part of what `eosio.stake` owes. -/
theorem refund_le_backing {s : SystemState F} (hI : s.StakeInv) {owner : Name} {q : RefundRequest}
    (hq : s.refunds.find? owner = some q) : q.total ≤ s.backing := by
  have hnet : 0 ≤ s.delband.sumOn (fun _ => True) DelegatedBandwidth.net :=
    Table.sumOn_nonneg fun k d hk => (hI.rows.delband k d hk).net_nonneg
  have hcpu : 0 ≤ s.delband.sumOn (fun _ => True) DelegatedBandwidth.cpu :=
    Table.sumOn_nonneg fun k d hk => (hI.rows.delband k d hk).cpu_nonneg
  have hle : s.refunds.valueAt owner RefundRequest.total ≤ refundTotal s.refunds := by
    refine Table.valueAt_le_sumOn (fun f q hf => ?_) trivial
    exact (hI.rows.refunds f q hf).2.1.le
  rw [Table.valueAt_some hq] at hle
  unfold backing
  omega

/-- A mature refund that is covered can be paid. -/
theorem refund_ok {s : SystemState F} (hI : s.BackingInv) (hle : s.backing ≤ s.stakeBalance)
    {ctx : Context} {owner : Name} {q : RefundRequest} (hq : s.refunds.find? owner = some q)
    (hmature : TimePoint.ofSec q.requestTime + TimePoint.ofSec refundDelaySec ≤ ctx.now)
    (hauth : owner ∈ ctx.auth) (haccount : ctx.isAccount owner) :
    ∃ s', s.step ⟨ctx, .refund owner⟩ = .ok s' := by
  obtain ⟨hpair, hpos, hns, hcs⟩ := hI.core.stake.rows.refunds owner q hq
  obtain ⟨st, hst, hsym⟩ := hI.core.core hI.market
  -- the refund is a part of what backs all rows
  have hcover := (refund_le_backing hI.core.stake hq).trans hle
  have hsupply := hI.core.token.balance_le_supply stakeAccount hst
  have hbounds := hI.core.token.supplyBounds _ st hst
  have hne : stakeAccount ≠ owner := by
    rintro rfl
    rw [hI.noRefund] at hq
    cases hq
  unfold stakeBalance RefundRequest.total at *
  -- the two parts together are a covered amount of the core token
  have hnet0 := hpair.net_nonneg
  have hcpu0 := hpair.cpu_nonneg
  have hadd := Asset.add_of_inRange (hcs.trans hns.symm) (a := q.netAmount) (b := q.cpuAmount)
    (by omega) (by omega)
  have hamt := Int64.toInt_add_of_mem (a := q.netAmount.amount) (b := q.cpuAmount.amount)
    (by omega) (by omega)
  -- so the transfer succeeds
  obtain ⟨token, htoken⟩ : ∃ token, s.token.transfer (ctx.withAuth [stakeAccount, owner])
      stakeAccount owner ⟨q.netAmount.amount + q.cpuAmount.amount, q.netAmount.symbol⟩ "unstake" =
        .ok token := by
    have haccount : (ctx.withAuth [stakeAccount, owner]).isAccount owner := haccount
    apply TokenState.transfer_ok hI.core.token hne List.mem_cons_self haccount (hns ▸ hst)
    · rw [hns, hsym]
    · rw [hamt]
      exact hpos
    · decide
    · rw [hamt, hns]
      exact hcover
  -- and every check of `refund` passes
  have hrefund : s.refund ctx owner = .ok ({ s with refunds := s.refunds.erase owner },
      [⟨[stakeAccount, owner], .transfer stakeAccount owner
        ⟨q.netAmount.amount + q.cpuAmount.amount, q.netAmount.symbol⟩ "unstake"⟩]) := by
    simp only [refund, bind_eq_ok, check_eq_ok, getRow_eq_ok, pure_eq_ok, requireAuth_eq_ok]
    exact ⟨(), hauth, q, hq, (), hmature, _, hadd, rfl⟩
  exact ⟨_, commit_eq_ok.mpr ⟨_, _, token, hrefund, runInline_singleton.mpr htoken, rfl⟩⟩

/-- The contract has been initialised and nobody has staked yet. -/
structure BeforeStaking (s : SystemState F) : Prop where
  reached : ∃ maxNet maxCpu setup, s = Run.exec step (genesis maxNet maxCpu) setup
  market : s.rammarket.isSome
  delband : s.delband = ∅
  refunds : s.refunds = ∅

/-- Before the first stake there is nothing to be backed. -/
theorem BeforeStaking.backingInv {s : SystemState F} (h : s.BeforeStaking) :
    s.BackingInv ∧ s.backing = 0 := by
  obtain ⟨maxNet, maxCpu, setup, hs⟩ := h.reached
  refine ⟨⟨hs ▸ exec_coreToken (genesis_coreToken maxNet maxCpu) setup, h.market, ?_⟩, ?_⟩
  · rw [h.refunds, Table.find?_empty]
  · unfold backing
    rw [h.delband, h.refunds]
    rfl

/-- In every run in which `eosio.stake` neither stakes nor spends, its core tokens cover
    the stakes and the refunds, exactly if it starts with none and nobody donates; so a
    mature refund can be paid. -/
theorem staked_tokens_backed {s : SystemState F} (h : s.BeforeStaking)
    {calls : List (SystemCall F)} (hkeep : Run.Meets step KeepsStake s calls) :
    (Run.exec step s calls).backing ≤ (Run.exec step s calls).stakeBalance ∧
    (s.stakeBalance = 0 → Run.Meets step NoDonation s calls →
      (Run.exec step s calls).backing = (Run.exec step s calls).stakeBalance) ∧
    ∀ ctx owner q, (Run.exec step s calls).refunds.find? owner = some q →
      TimePoint.ofSec q.requestTime + TimePoint.ofSec refundDelaySec ≤ ctx.now →
      owner ∈ ctx.auth → ctx.isAccount owner →
      ∃ s', (Run.exec step s calls).step ⟨ctx, .refund owner⟩ = .ok s' := by
  obtain ⟨hI, hzero⟩ := h.backingInv
  obtain ⟨hI', hle⟩ := exec_surplus hI hkeep
  have hnonneg := hI.core.token.balance_nonneg stakeAccount s.coreSym.code
  have hcover : (Run.exec step s calls).backing ≤ (Run.exec step s calls).stakeBalance := by
    have hstart : s.surplus = s.token.balance stakeAccount s.coreSym.code - 0 := by
      rw [← hzero]
      rfl
    unfold surplus at hle hstart
    omega
  refine ⟨hcover, fun hempty hnone => ?_, ?_⟩
  · have heq := exec_surplus_eq hI hkeep hnone
    unfold surplus at heq
    omega
  · intro ctx owner q hq hmature hauth haccount
    exact refund_ok hI' hcover hq hmature hauth haccount

/-- The system account gives alice a stake that activates the chain, and alice takes a
    part of it back. -/
def Sample.unstaking : List (SystemCall Rat) :=
  [⟨ctx [eosioAccount] launch,
      .delegatebw eosioAccount alice (utx 750000000000) (utx 750000000000) true⟩,
    ⟨ctx [alice] launch, .voteproducer alice ⟨0⟩ []⟩,
    ⟨ctx [alice] launch, .undelegatebw alice alice (utx 300) (utx 200)⟩]

open Sample in
/-- The refund of the sample can be paid after three days. -/
theorem staked_tokens_backed_sample :
    (Run.exec step start unstaking).backing = (Run.exec step start unstaking).stakeBalance ∧
    ∃ s', (Run.exec step start unstaking).step ⟨ctx [alice] (launch + 259200), .refund alice⟩ =
      .ok s' := by
  have hstart : start.BeforeStaking :=
    ⟨⟨_, _, setup, rfl⟩, by decide +kernel, by decide +kernel, by decide +kernel⟩
  have hkeep : Run.Meets step KeepsStake start unstaking := by decide +kernel
  have hnone : Run.Meets step NoDonation start unstaking := by decide +kernel
  obtain ⟨-, heq, hrefund⟩ := staked_tokens_backed hstart hkeep
  have hrow : ((Run.exec step start unstaking).refunds.find? alice).any (fun q =>
      TimePoint.ofSec q.requestTime + TimePoint.ofSec refundDelaySec ≤
        (launch + 259200) * 1000000) := by
    decide +kernel
  obtain ⟨q, hq, hmature⟩ := (Option.any_eq_true _ _).mp hrow
  exact ⟨heq (by decide +kernel) hnone,
    hrefund _ alice q hq (of_decide_eq_true hmature) List.mem_cons_self rfl⟩

end SystemState

end UxContracts
