import UxContracts.Native.Contract
import UxContracts.Spec.Staking

/-!
# The blocks of `changebw` and what they write

`changebw` works on the ledgers first and on votes last. Every block before the last one
writes to its own tables only (`updateDelband_eq`, `settleStake_eq`), so
that voting sees the votes as they were before the action (`changebw_blocks`).
-/

namespace UxContracts

namespace SystemState

variable {F : Type}

/-! ## One block -/

theorem updateDelband_eq {s s' : SystemState F} {from_ receiver : Name} {n c : Asset}
    (h : s.updateDelband from_ receiver n c = .ok s') :
    s' = { s with delband := s'.delband } := by
  simp only [updateDelband, bind_eq_ok, pure_eq_ok] at h
  obtain ⟨d, -, _, -, _, -, rfl⟩ := h
  rfl

theorem updateRefund_eq {ctx : Context} {s : SystemState F} {from_ receiver : Name}
    {n c : Asset} {transfer : Bool} {r : RefundOutcome F}
    (h : s.updateRefund ctx from_ receiver n c transfer = .ok r) :
    r.state = { s with refunds := r.state.refunds } := by
  simp only [updateRefund] at h
  split at h
  · split at h
    · simp only [bind_eq_ok, pure_eq_ok] at h
      obtain ⟨_, -, _, -, _, -, _, -, rfl⟩ := h
      rfl
    · split at h
      · simp only [bind_eq_ok, pure_eq_ok] at h
        obtain ⟨_, -, _, -, _, -, rfl⟩ := h
        rfl
      · cases h
        rfl
  · cases h
    rfl

/-- The refund block writes to the refunds and the deferred transactions. -/
theorem settleStake_eq {ctx : Context} {s s' : SystemState F} {source from_ receiver : Name}
    {n c : Asset} {transfer : Bool} {sends : List InlineAction}
    (h : s.settleStake ctx source from_ receiver n c transfer = .ok (s', sends)) :
    s' = { s with refunds := s'.refunds, deferred := s'.deferred } := by
  unfold settleStake at h
  split at h
  · -- the stake account settles nothing with itself
    simp only [Except.ok.injEq, Prod.mk.injEq] at h
    rw [← h.1]
  · simp only [bind_eq_ok] at h
    obtain ⟨r, hr, t, -, h⟩ := h
    have hstate := updateRefund_eq hr
    -- scheduling writes refunds and transactions
    have hsched : ∀ need, r.state.scheduleRefund from_ need = { s with
        refunds := (r.state.scheduleRefund from_ need).refunds
        deferred := (r.state.scheduleRefund from_ need).deferred } := by
      intro need
      rw [hstate]
      unfold scheduleRefund
      split
      · rfl
      · rfl
    split at h <;>
    · simp only [pure_eq_ok, Prod.mk.injEq] at h
      rw [← h.1]
      exact hsched _

/-- The stake of a holder of REX is not part of the other ledgers. -/
theorem updateRexStake_ledgers (s : SystemState F) (voter : Name) :
    (s.updateRexStake voter).ledgers =
      { s.ledgers with rexbalance := (s.updateRexStake voter).rexbalance } := by
  unfold updateRexStake
  split
  · simp only
    split
    · split
      · split
        · rfl
        · rfl
      · rfl
    · rfl
  · rfl

/-! ## All blocks -/

/-- Where a change of stake is when it comes to the voting power of the owner. -/
structure VotingPoint (F : Type) where
  state : SystemState F
  owner : Name
  total : Asset
  sends : List InlineAction

/-- `changebw` up to `update_voting_power`. -/
def changebwBefore (ctx : Context) (s : SystemState F) (from_ receiver : Name)
    (netDelta cpuDelta : Asset) (transfer : Bool) : Except String (VotingPoint F) := do
  requireAuth ctx from_
  check (netDelta.amount ≠ 0 ∨ cpuDelta.amount ≠ 0) "should stake non-zero amount"
  let total ← netDelta.add cpuDelta
  check (max netDelta.amount.toInt.natAbs cpuDelta.amount.toInt.natAbs ≤
      total.amount.toInt.natAbs) "net and cpu deltas cannot be opposite signs"
  let source := from_
  let from_ := if transfer then receiver else from_
  let s ← s.updateDelband from_ receiver netDelta cpuDelta
  let tot ← s.updateTotals receiver netDelta cpuDelta
  let s := (s.updateLimits receiver tot).storeTotals receiver tot
  let (s, sends) ← s.settleStake ctx source from_ receiver netDelta cpuDelta transfer
  let s := s.updateRexStake from_
  let total ← netDelta.add cpuDelta
  return ⟨s, from_, total, sends⟩

/-- The state that voting starts from, without REX. -/
theorem changebwBefore_spec {ctx : Context} {s : SystemState F} {from_ receiver : Name}
    {n c : Asset} {transfer : Bool} {p : VotingPoint F} (hrex : s.rexbalance = ∅)
    (h : s.changebwBefore ctx from_ receiver n c transfer = .ok p) :
    ∃ s₀ tot, n.add c = .ok p.total ∧
      max n.amount.toInt.natAbs c.amount.toInt.natAbs ≤ p.total.amount.toInt.natAbs ∧
      s.updateDelband (if transfer then receiver else from_) receiver n c = .ok s₀ ∧
      s.updateTotals receiver n c = .ok tot ∧
      p.owner = (if transfer then receiver else from_) ∧
      p.state = { s with
        delband := s₀.delband
        userres := s.userres.put receiver tot tot.isEmpty
        limits := (s.updateLimits receiver tot).limits
        refunds := p.state.refunds
        deferred := p.state.deferred } := by
  simp only [changebwBefore, bind_eq_ok, check_eq_ok, pure_eq_ok] at h
  obtain ⟨_, -, _, -, total, htotal, _, habs, s₀, hdel, tot, htot, ⟨s₂, sends'⟩, hsettle, total',
    htotal', rfl⟩ := h
  obtain rfl : total' = total := by
    rw [htotal, Except.ok.injEq] at htotal'
    exact htotal'.symm
  have hs₀ := updateDelband_eq hdel
  -- the second block looks at a table that the first has not written
  have htot' : s.updateTotals receiver n c = .ok tot := by
    rw [hs₀] at htot
    exact htot
  -- the limits block does not read what is delegated
  have hlim : s₀.updateLimits receiver tot = { s with
      delband := s₀.delband
      limits := (s.updateLimits receiver tot).limits } := by
    rw [hs₀]
    simp only [updateLimits]
    split
    · rfl
    · rfl
  have hs₂ := settleStake_eq hsettle
  rw [hlim] at hs₂
  -- there is no REX stake to be updated
  have hnorex : s₂.rexbalance = ∅ := by
    rw [hs₂]
    exact hrex
  refine ⟨s₀, tot, htotal, habs, hdel, htot', rfl, ?_⟩
  simp only [updateRexStake_of_empty hnorex]
  exact hs₂

/-- The refund block is the last one that writes to the ledgers other than REX, and nothing before
    it writes to refunds. -/
theorem changebwBefore_settles {ctx : Context} {s : SystemState F} {from_ receiver : Name}
    {n c : Asset} {transfer : Bool} {p : VotingPoint F}
    (h : s.changebwBefore ctx from_ receiver n c transfer = .ok p) :
    ∃ u v : SystemState F, u.ledgers = { s.ledgers with
        delband := u.delband, userres := u.userres, limits := u.limits } ∧
      u.settleStake ctx from_ (if transfer then receiver else from_) receiver n c transfer =
        .ok (v, p.sends) ∧
      p.state.ledgers = { v.ledgers with rexbalance := p.state.rexbalance } := by
  simp only [changebwBefore, bind_eq_ok, pure_eq_ok] at h
  obtain ⟨_, -, _, -, _, -, _, -, s₁, hdel, tot, -, ⟨s₂, sends⟩, hsettle, _, -, rfl⟩ := h
  refine ⟨_, s₂, ?_, hsettle, updateRexStake_ledgers s₂ _⟩
  rw [updateDelband_eq hdel]
  unfold updateLimits
  simp only
  split
  · rfl
  · rfl

variable [Double F]

/-- The rest of a change of stake. -/
def VotingPoint.finish (ctx : Context) (p : VotingPoint F) :
    Except String (SystemState F × List InlineAction) := do
  let s ← p.state.updateVotingPower ctx p.owner p.total
  return (s, p.sends)

/-- `changebw` comes to a vote and then finishes. -/
theorem changebw_eq (ctx : Context) (s : SystemState F) (from_ receiver : Name) (n c : Asset)
    (transfer : Bool) : s.changebw ctx from_ receiver n c transfer =
      s.changebwBefore ctx from_ receiver n c transfer >>= VotingPoint.finish ctx := by
  simp only [changebw, changebwBefore, bind_assoc, pure_bind]
  rfl

/-- Voting power is not part of the ledgers. -/
theorem updateVotingPower_ledgers {ctx : Context} {s s' : SystemState F} {voter : Name}
    {total : Asset} (h : s.updateVotingPower ctx voter total = .ok s') :
    s'.ledgers = s.ledgers := by
  obtain ⟨v, -, -, ⟨-, h⟩ | rfl⟩ := updateVotingPower_cases h
  · exact (updateVotes_frame h).ledgers
  · rfl

/-- What a successful `changebw` does to the ledgers from the refund block on. -/
theorem changebw_settles {ctx : Context} {s s' : SystemState F} {from_ receiver : Name}
    {n c : Asset} {transfer : Bool} {sends : List InlineAction}
    (h : s.changebw ctx from_ receiver n c transfer = .ok (s', sends)) :
    ∃ u v : SystemState F, u.ledgers = { s.ledgers with
        delband := u.delband, userres := u.userres, limits := u.limits } ∧
      u.settleStake ctx from_ (if transfer then receiver else from_) receiver n c transfer =
        .ok (v, sends) ∧
      s'.ledgers = { v.ledgers with rexbalance := s'.rexbalance } := by
  rw [changebw_eq] at h
  simp only [VotingPoint.finish, bind_eq_ok, pure_eq_ok, Prod.mk.injEq] at h
  obtain ⟨p, hp, w, hvote, rfl, rfl⟩ := h
  have hledgers := updateVotingPower_ledgers hvote
  obtain ⟨u, v, hu, hsettle, hp⟩ := changebwBefore_settles hp
  rw [hp] at hledgers
  refine ⟨u, v, hu, hsettle, ?_⟩
  rw [hledgers]
  exact congrArg (fun r => { v.ledgers with rexbalance := r })
    (congrArg Ledgers.rexbalance hledgers).symm

/-- `voteproducer` writes to votes and to REX. -/
theorem voteproducer_ledgers {ctx : Context} {s s' : SystemState F} {voterName proxy : Name}
    {producers : List Name} (h : s.voteproducer ctx voterName proxy producers = .ok s') :
    s'.ledgers = { s.ledgers with rexbalance := s'.rexbalance } := by
  simp only [voteproducer, bind_eq_ok] at h
  obtain ⟨_, -, u, hu, h⟩ := h
  have hvotes : u.ledgers = { s.ledgers with rexbalance := u.rexbalance } := by
    have hframe := (updateVotes_frame hu).ledgers
    have hrex : u.rexbalance = (s.updateRexStake voterName).rexbalance :=
      congrArg Ledgers.rexbalance hframe
    rw [hframe, hrex]
    exact updateRexStake_ledgers s voterName
  -- the checks on a holder of REX change nothing
  split at h
  · split at h
    · simp only [bind_eq_ok, pure_eq_ok] at h
      obtain ⟨_, -, _, -, rfl⟩ := h
      exact hvotes
    · exact pure_eq_ok.mp h ▸ hvotes
  · exact pure_eq_ok.mp h ▸ hvotes

/-- A successful `changebw` without REX: the state that voting starts from. -/
theorem changebw_blocks {ctx : Context} {s s' : SystemState F} {from_ receiver : Name}
    {n c : Asset} {transfer : Bool} {sends : List InlineAction} (hrex : s.rexbalance = ∅)
    (h : s.changebw ctx from_ receiver n c transfer = .ok (s', sends)) :
    ∃ total s₀ tot refunds deferred, n.add c = .ok total ∧
      max n.amount.toInt.natAbs c.amount.toInt.natAbs ≤ total.amount.toInt.natAbs ∧
      s.updateDelband (if transfer then receiver else from_) receiver n c = .ok s₀ ∧
      s.updateTotals receiver n c = .ok tot ∧
      updateVotingPower ctx { s with
        delband := s₀.delband
        userres := s.userres.put receiver tot tot.isEmpty
        limits := (s.updateLimits receiver tot).limits
        refunds := refunds
        deferred := deferred } (if transfer then receiver else from_) total = .ok s' := by
  rw [changebw_eq] at h
  simp only [VotingPoint.finish, bind_eq_ok, pure_eq_ok, Prod.mk.injEq] at h
  obtain ⟨p, hp, s₃, hvote, rfl, -⟩ := h
  obtain ⟨s₀, tot, htotal, habs, hdel, htot, howner, hstate⟩ := changebwBefore_spec hrex hp
  rw [howner, hstate] at hvote
  exact ⟨p.total, s₀, tot, p.state.refunds, p.state.deferred, htotal, habs, hdel, htot, hvote⟩

/-- A successful `delegatebw` is a `changebw` by amounts that are not negative. -/
theorem delegatebw_changebw {ctx : Context} {s s' : SystemState F} {from_ receiver : Name}
    {n c : Asset} {transfer : Bool} {sends : List InlineAction}
    (h : s.delegatebw ctx from_ receiver n c transfer = .ok (s', sends)) :
    ∃ sym, s.coreSymbol = .ok sym ∧ n.symbol = sym ∧ 0 ≤ n.amount.toInt ∧ 0 ≤ c.amount.toInt ∧
      s.changebw ctx from_ receiver n c transfer = .ok (s', sends) := by
  simp only [delegatebw, bind_eq_ok, check_eq_ok] at h
  obtain ⟨sym, hsym, zero, hzero, v, hcge, _, hv, w, hnge, _, hw, _, -, _, -, h⟩ := h
  obtain ⟨-, hc0⟩ := ge_zero_spec hzero hcge hv
  obtain ⟨hns, hn0⟩ := ge_zero_spec hzero hnge hw
  exact ⟨sym, hsym, hns, hn0, hc0, h⟩

/-- A successful `undelegatebw` is a `changebw` by the negated amounts, which the self-stake
    of a producer covers. -/
theorem undelegatebw_changebw {ctx : Context} {s s' : SystemState F} {from_ receiver : Name}
    {n c : Asset} {sends : List InlineAction}
    (h : s.undelegatebw ctx from_ receiver n c = .ok (s', sends)) :
    ∃ sym, s.coreSymbol = .ok sym ∧ n.symbol = sym ∧ 0 ≤ n.amount.toInt ∧ 0 ≤ c.amount.toInt ∧
      s.checkSelfStake from_ n c = .ok () ∧
      s.changebw ctx from_ receiver n.neg c.neg false = .ok (s', sends) := by
  simp only [undelegatebw, bind_eq_ok, check_eq_ok] at h
  obtain ⟨sym, hsym, zero, hzero, _, hself, v, hcge, _, hv, w, hnge, _, hw, _, -, _, -, h⟩ := h
  obtain ⟨-, hc0⟩ := ge_zero_spec hzero hcge hv
  obtain ⟨hns, hn0⟩ := ge_zero_spec hzero hnge hw
  exact ⟨sym, hsym, hns, hn0, hc0, hself, h⟩

/-! ## Actions that change a stake -/

def delegatebwBefore (ctx : Context) (s : SystemState F) (from_ receiver : Name)
    (stakeNetQuantity stakeCpuQuantity : Asset) (transfer : Bool) :
    Except String (VotingPoint F) := do
  let sym ← s.coreSymbol
  let zero ← Asset.make 0 sym
  let cpuOk ← stakeCpuQuantity.ge zero
  check cpuOk "must stake a positive amount"
  let netOk ← stakeNetQuantity.ge zero
  check netOk "must stake a positive amount"
  check (stakeNetQuantity.amount + stakeCpuQuantity.amount > 0) "must stake a positive amount"
  check (¬ transfer ∨ from_ ≠ receiver) "cannot use transfer flag if delegating to self"
  s.changebwBefore ctx from_ receiver stakeNetQuantity stakeCpuQuantity transfer

def undelegatebwBefore (ctx : Context) (s : SystemState F) (from_ receiver : Name)
    (unstakeNetQuantity unstakeCpuQuantity : Asset) : Except String (VotingPoint F) := do
  let sym ← s.coreSymbol
  let zero ← Asset.make 0 sym
  s.checkSelfStake from_ unstakeNetQuantity unstakeCpuQuantity
  let cpuOk ← unstakeCpuQuantity.ge zero
  check cpuOk "must unstake a positive amount"
  let netOk ← unstakeNetQuantity.ge zero
  check netOk "must unstake a positive amount"
  check (unstakeCpuQuantity.amount + unstakeNetQuantity.amount > 0)
    "must unstake a positive amount"
  check (s.gstate.threshActivatedStakeTime ≠ 0)
    ("cannot undelegate bandwidth until the chain is activated " ++
      "(at least 15% of all tokens participate in voting)")
  s.changebwBefore ctx from_ receiver unstakeNetQuantity.neg unstakeCpuQuantity.neg false

/-- How far an action comes before it changes the voting power of the owner. -/
def votingPoint (ctx : Context) (s : SystemState F) :
    SystemAction F → Except String (VotingPoint F)
  | .delegatebw from_ receiver net cpu transfer =>
    s.delegatebwBefore ctx from_ receiver net cpu transfer
  | .undelegatebw from_ receiver net cpu => s.undelegatebwBefore ctx from_ receiver net cpu
  | _ => .error "no change of stake"

/-- `delegatebw` comes to a vote and then finishes. -/
theorem delegatebw_eq (ctx : Context) (s : SystemState F) (from_ receiver : Name) (n c : Asset)
    (transfer : Bool) : s.delegatebw ctx from_ receiver n c transfer =
      s.delegatebwBefore ctx from_ receiver n c transfer >>= VotingPoint.finish ctx := by
  simp only [delegatebw, delegatebwBefore, changebw_eq, bind_assoc]

/-- `undelegatebw` comes to a vote and then finishes. -/
theorem undelegatebw_eq (ctx : Context) (s : SystemState F) (from_ receiver : Name) (n c : Asset) :
    s.undelegatebw ctx from_ receiver n c =
      s.undelegatebwBefore ctx from_ receiver n c >>= VotingPoint.finish ctx := by
  simp only [undelegatebw, undelegatebwBefore, changebw_eq, bind_assoc]

end SystemState

end UxContracts
