import UxContracts.Native.Ram
import UxContracts.Native.Voting

/-!
# Staking

`changebw` changes a stake by a pair of signed deltas. It goes through four tables,
one block of the source after the other, and each block is a definition here:

* `updateDelband`   what `from` has delegated to `receiver`
* `updateTotals`    what has been delegated to `receiver` by anyone
* `updateLimits`    the limits that the chain enforces for `receiver`
* `updateRefund`    what is netted against a refund that `from` is waiting for

The rest of the delta is transferred to `eosio.stake`, and the voting power of `from`
changes by the whole of it.
-/

namespace UxContracts

namespace SystemState

variable {F : Type}

/-! ## The blocks of `changebw` -/

/-- Update the stake delegated from one account to another. -/
def updateDelband (s : SystemState F) (from_ receiver : Name) (netDelta cpuDelta : Asset) :
    Except String (SystemState F) := do
  let dbo : DelegatedBandwidth ← (
    match s.delband.find? ⟨from_, receiver⟩ with
    | none => pure ⟨netDelta, cpuDelta⟩
    | some dbo => do
      let net ← dbo.netWeight.add netDelta
      let cpu ← dbo.cpuWeight.add cpuDelta
      pure ⟨net, cpu⟩)
  check (0 ≤ dbo.netWeight.amount) "insufficient staked net bandwidth"
  check (0 ≤ dbo.cpuWeight.amount) "insufficient staked cpu bandwidth"
  -- an empty row is erased again, also one that has just been made
  return { s with delband := s.delband.put ⟨from_, receiver⟩ dbo dbo.isEmpty }

/-- The new totals of `receiver`. -/
def updateTotals (s : SystemState F) (receiver : Name) (netDelta cpuDelta : Asset) :
    Except String UserResources := do
  let tot : UserResources ← (
    match s.userres.find? receiver with
    | none => pure ⟨netDelta, cpuDelta, 0⟩
    | some tot => do
      let net ← tot.netWeight.add netDelta
      let cpu ← tot.cpuWeight.add cpuDelta
      pure { tot with netWeight := net, cpuWeight := cpu })
  check (0 ≤ tot.netWeight.amount) "insufficient staked total net bandwidth"
  check (0 ≤ tot.cpuWeight.amount) "insufficient staked total cpu bandwidth"
  return tot

/-- The limits of `receiver` follow its totals where they are not managed. -/
def updateLimits (s : SystemState F) (receiver : Name) (tot : UserResources) : SystemState F :=
  let voter := s.voters.find? receiver
  let ramManaged := voter.any VoterInfo.ramManaged
  let netManaged := voter.any VoterInfo.netManaged
  let cpuManaged := voter.any VoterInfo.cpuManaged
  if netManaged && cpuManaged then s
  else
    let l := s.getResourceLimits receiver
    s.setResourceLimits receiver
      ⟨if ramManaged then l.ram else max (tot.ramBytes + ramGiftBytes) l.ram,
        if netManaged then l.net else tot.netWeight.amount,
        if cpuManaged then l.cpu else tot.cpuWeight.amount⟩

/-- Store the totals; an empty row is erased. -/
def storeTotals (s : SystemState F) (receiver : Name) (tot : UserResources) : SystemState F :=
  { s with userres := s.userres.put receiver tot tot.isEmpty }

/-- One component of a refund after it has been netted against a delta, and what is
    left of the delta. -/
def netAgainst (amount balance : Asset) : Except String (Asset × Asset) := do
  let amount ← amount.sub balance
  if amount.amount < 0 then return ({ amount with amount := 0 }, amount.neg)
  else return (amount, { balance with amount := 0 })

/-- One component of a new refund, and what is left of the delta. -/
def refundPart (sym : Symbol) (balance : Asset) : Except String (Asset × Asset) :=
  if balance.amount < 0 then return (balance.neg, { balance with amount := 0 })
  else do
    let zero ← Asset.make 0 sym
    return (zero, balance)

/-- What the refund block leaves behind: the tables, the rest of the two deltas, and
    whether a deferred transaction is needed. -/
structure RefundOutcome (F : Type) where
  state : SystemState F
  netBalance : Asset
  cpuBalance : Asset
  needDeferredTrx : Bool

/-- Create the refund of `from_` or update it. -/
def updateRefund (ctx : Context) (s : SystemState F) (from_ receiver : Name)
    (netDelta cpuDelta : Asset) (transfer : Bool) : Except String (RefundOutcome F) :=
  let isUndelegating : Bool := netDelta.amount + cpuDelta.amount < 0
  let isDelegatingToSelf : Bool := !transfer && from_ = receiver
  if isDelegatingToSelf || isUndelegating then
    match s.refunds.find? from_ with
    | some req => do
      let requestTime :=
        if netDelta.amount < 0 ∨ cpuDelta.amount < 0 then ctx.now.secSinceEpoch
        else req.requestTime
      let (net, netBalance) ← netAgainst req.netAmount netDelta
      let (cpu, cpuBalance) ← netAgainst req.cpuAmount cpuDelta
      check (0 ≤ net.amount) "negative net refund amount"
      check (0 ≤ cpu.amount) "negative cpu refund amount"
      let req : RefundRequest := ⟨requestTime, net, cpu⟩
      return ⟨{ s with refunds := s.refunds.put from_ req req.isEmpty }, netBalance, cpuBalance,
        !req.isEmpty⟩
    | none =>
      if netDelta.amount < 0 ∨ cpuDelta.amount < 0 then do
        let sym ← s.coreSymbol
        let (net, netBalance) ← refundPart sym netDelta
        let (cpu, cpuBalance) ← refundPart sym cpuDelta
        let req : RefundRequest := ⟨ctx.now.secSinceEpoch, net, cpu⟩
        return ⟨{ s with refunds := s.refunds.set from_ req }, netBalance, cpuBalance, true⟩
      else return ⟨s, netDelta, cpuDelta, false⟩
  else return ⟨s, netDelta, cpuDelta, false⟩

/-- Replace the deferred refund of an account, or cancel it. -/
def scheduleRefund (s : SystemState F) (from_ : Name) (need : Bool) : SystemState F :=
  if need then { s with deferred := s.deferred.set from_ ⟨from_, refundDelaySec⟩ }
  else { s with deferred := s.deferred.erase from_ }

/-- The refund, the deferred transaction and the transfer of the rest of the deltas. -/
def settleStake (ctx : Context) (s : SystemState F) (source from_ receiver : Name)
    (netDelta cpuDelta : Asset) (transfer : Bool) :
    Except String (SystemState F × List InlineAction) :=
  if source = stakeAccount then .ok (s, [])
  else do
    let r ← s.updateRefund ctx from_ receiver netDelta cpuDelta transfer
    let s := r.state.scheduleRefund from_ r.needDeferredTrx
    let transferAmount ← r.netBalance.add r.cpuBalance
    if 0 < transferAmount.amount then
      return (s, [⟨[source], .transfer source stakeAccount transferAmount "stake bandwidth"⟩])
    else return (s, [])

variable [Double F]

/-- The account b1 can only claim its tokens over ten years. -/
def validateB1Vesting (F : Type) [Double F] (ctx : Context) (stake : Int64) :
    Except String Unit := do
  let maxClaimable : Int64 := 1000000000000
  let age := (ctx.now.secSinceEpoch.toNat : Int) - 1527811200
  let share : F := Double.ofInt maxClaimable.toInt * Double.ofInt age /
    Double.ofInt (10 * (52 * 7 * 24 * 3600))
  let claimable ← Double.toInt64 share
  check (maxClaimable - claimable ≤ stake) "b1 can only claim their tokens over 10 years"

/-- The row of a voter with its stake changed by `amount`. -/
def changeStake (voter : Option (VoterInfo F)) (amount : Int64) : VoterInfo F :=
  match voter with
  | none => { VoterInfo.new with staked := amount }
  | some v => { v with staked := v.staked + amount }

def updateVotingPower (ctx : Context) (s : SystemState F) (voter : Name) (totalUpdate : Asset) :
    Except String (SystemState F) := do
  let v := changeStake (s.voters.find? voter) totalUpdate.amount
  let s := { s with voters := s.voters.set voter v }
  check (0 ≤ v.staked) "stake for voting cannot be negative"
  (if voter = Name.ofString "b1" then validateB1Vesting F ctx v.staked else pure ())
  if v.producers.length ≠ 0 ∨ v.proxy.isSet then
    s.updateVotes ctx voter v.proxy v.producers false
  else return s

/-! ## Actions -/

def changebw (ctx : Context) (s : SystemState F) (from_ receiver : Name)
    (netDelta cpuDelta : Asset) (transfer : Bool) :
    Except String (SystemState F × List InlineAction) := do
  requireAuth ctx from_
  check (netDelta.amount ≠ 0 ∨ cpuDelta.amount ≠ 0) "should stake non-zero amount"
  let total ← netDelta.add cpuDelta
  check (max netDelta.amount.toInt.natAbs cpuDelta.amount.toInt.natAbs ≤
      total.amount.toInt.natAbs) "net and cpu deltas cannot be opposite signs"
  let source := from_
  let from_ := if transfer then receiver else from_
  let s ← s.updateDelband from_ receiver netDelta cpuDelta
  let tot ← s.updateTotals receiver netDelta cpuDelta
  let s := (s.updateLimits receiver tot).storeTotals receiver tot
  let (s, sends) ← s.settleStake ctx source from_ receiver netDelta cpuDelta transfer
  let s := s.updateRexStake from_
  let total ← netDelta.add cpuDelta
  let s ← s.updateVotingPower ctx from_ total
  return (s, sends)

def delegatebw (ctx : Context) (s : SystemState F) (from_ receiver : Name)
    (stakeNetQuantity stakeCpuQuantity : Asset) (transfer : Bool) :
    Except String (SystemState F × List InlineAction) := do
  let sym ← s.coreSymbol
  let zero ← Asset.make 0 sym
  let cpuOk ← stakeCpuQuantity.ge zero
  check cpuOk "must stake a positive amount"
  let netOk ← stakeNetQuantity.ge zero
  check netOk "must stake a positive amount"
  check (stakeNetQuantity.amount + stakeCpuQuantity.amount > 0) "must stake a positive amount"
  check (¬ transfer ∨ from_ ≠ receiver) "cannot use transfer flag if delegating to self"
  s.changebw ctx from_ receiver stakeNetQuantity stakeCpuQuantity transfer

/-- An active producer keeps 10 million UTX staked to itself. The amounts are compared as
    unsigned numbers. -/
def checkSelfStake (s : SystemState F) (from_ : Name) (unstakeNet unstakeCpu : Asset) :
    Except String Unit :=
  let msg := "producer must maintain 10 million UTX tokens staked to self while registered as " ++
    "a producer. Please unregister first."
  match s.producers.find? from_ with
  | some prod =>
    if prod.isActive then do
      let itr ← Table.getRow s.delband ⟨from_, from_⟩ msg
      let stakeChange := (unstakeNet.amount + unstakeCpu.amount).toUInt64
      let totalStaked := (itr.netWeight.amount + itr.cpuWeight.amount).toUInt64
      check (totalStaked - stakeChange ≥ 100000000000) msg
    else .ok ()
  | none => .ok ()

def undelegatebw (ctx : Context) (s : SystemState F) (from_ receiver : Name)
    (unstakeNetQuantity unstakeCpuQuantity : Asset) :
    Except String (SystemState F × List InlineAction) := do
  let sym ← s.coreSymbol
  let zero ← Asset.make 0 sym
  s.checkSelfStake from_ unstakeNetQuantity unstakeCpuQuantity
  let cpuOk ← unstakeCpuQuantity.ge zero
  check cpuOk "must unstake a positive amount"
  let netOk ← unstakeNetQuantity.ge zero
  check netOk "must unstake a positive amount"
  check (unstakeCpuQuantity.amount + unstakeNetQuantity.amount > 0)
    "must unstake a positive amount"
  check (s.gstate.threshActivatedStakeTime ≠ 0)
    ("cannot undelegate bandwidth until the chain is activated " ++
      "(at least 15% of all tokens participate in voting)")
  s.changebw ctx from_ receiver unstakeNetQuantity.neg unstakeCpuQuantity.neg false

def refund (ctx : Context) (s : SystemState F) (owner : Name) :
    Except String (SystemState F × List InlineAction) := do
  requireAuth ctx owner
  let req ← Table.getRow s.refunds owner "refund request not found"
  check (TimePoint.ofSec req.requestTime + TimePoint.ofSec refundDelaySec ≤ ctx.now)
    "refund is not available yet"
  let amount ← req.netAmount.add req.cpuAmount
  return ({ s with refunds := s.refunds.erase owner },
    [⟨[stakeAccount, owner], .transfer stakeAccount owner amount "unstake"⟩])

end SystemState

end UxContracts
