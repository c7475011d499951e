import UxContracts.Native.System

/-!
# Voting

`update_votes` takes back the weight of a voter's last vote, from the old proxy or
from each producer, and casts the new one. A changed weight of a proxy is passed on
by `propagate_weight_change`, which calls itself along the chain of proxies; the
model bounds the depth of these calls by the number of voters, since a longer chain
is a cycle, on which the source does not come back.

An iterator of the source stays on its row while other rows are modified, so a row
that is read again after a modification is looked up again here.
-/

namespace UxContracts

namespace SystemState

variable {F : Type} [Double F]

/-! ## Vote weights -/

/-- A stake counts double for every year since the start of block time. -/
def stake2vote (ctx : Context) (staked : Int64) : F :=
  let weeks := ((ctx.now.secSinceEpoch.toNat : Int) - 946684800).tdiv (24 * 3600 * 7)
  let weight : F := Double.ofInt weeks / Double.ofInt 52
  Double.ofInt staked.toInt * Double.pow (Double.ofInt 2) weight

/-- The weight of a voter's stake, and of what is delegated to a proxy. -/
def newVoteWeight (ctx : Context) (voter : VoterInfo F) : F :=
  let weight : F := stake2vote ctx voter.staked
  if voter.isProxy then weight + voter.proxiedVoteWeight else weight

/-- The seconds between two time points. -/
def elapsed (later earlier : TimePoint) : F :=
  Double.ofInt (later - earlier).toInt / Double.ofInt 1000000

def updateTotalVotepayShare (s : SystemState F) (ct : TimePoint)
    (additionalSharesDelta sharesRateDelta : F) : SystemState F :=
  let delta : F :=
    if s.gstate3.lastVpayStateUpdate < ct then
      s.gstate3.totalVpayShareChangeRate * elapsed ct s.gstate3.lastVpayStateUpdate
    else Double.ofInt 0
  let delta := delta + additionalSharesDelta
  let share :=
    if delta < Double.ofInt 0 ∧ s.gstate2.totalProducerVotepayShare < -delta then Double.ofInt 0
    else s.gstate2.totalProducerVotepayShare + delta
  let rate :=
    if sharesRateDelta < Double.ofInt 0 ∧ s.gstate3.totalVpayShareChangeRate < -sharesRateDelta then
      Double.ofInt 0
    else s.gstate3.totalVpayShareChangeRate + sharesRateDelta
  { s with
    gstate2 := { s.gstate2 with totalProducerVotepayShare := share }
    gstate3 := ⟨ct, rate⟩ }

/-- The new share and the row with it. -/
def updateProducerVotepayShare (prod2 : ProducerInfo2 F) (ct : TimePoint) (sharesRate : F)
    (resetToZero : Bool) : F × ProducerInfo2 F :=
  let delta : F :=
    if Double.ofInt 0 < sharesRate ∧ prod2.lastVotepayShareUpdate < ct then
      sharesRate * elapsed ct prod2.lastVotepayShareUpdate
    else Double.ofInt 0
  let share := prod2.votepayShare + delta
  (share, ⟨if resetToZero then Double.ofInt 0 else share, ct⟩)

/-- What the loops over producers sum up for the total vote pay share. -/
structure VpayDelta (F : Type) where
  deltaChangeRate : F
  totalInactiveVpayShare : F

/-- Bring the `producers2` row of a producer up to date after its votes have changed by
    `delta`. The loops of `update_votes` and `propagate_weight_change` do the same here. -/
def updateVotepay (ctx : Context) (s : SystemState F) (acc : VpayDelta F) (prod : Name)
    (lastClaimTime : TimePoint) (initTotalVotes delta : F) : SystemState F × VpayDelta F :=
  match s.producers2.find? prod with
  | none => (s, acc)
  | some prod2 =>
    let ct := ctx.now
    let lastClaimPlus3Days := lastClaimTime + 3 * (24 * 3600 * 1000000)
    let crossedThreshold : Bool := lastClaimPlus3Days ≤ ct
    -- updated after threshold implies crossed threshold
    let updatedAfterThreshold : Bool := lastClaimPlus3Days ≤ prod2.lastVotepayShareUpdate
    let (newVotepayShare, prod2) := updateProducerVotepayShare prod2 ct
      (if updatedAfterThreshold then Double.ofInt 0 else initTotalVotes)
      (crossedThreshold && !updatedAfterThreshold)
    let s := { s with producers2 := s.producers2.set prod prod2 }
    if !crossedThreshold then
      (s, { acc with deltaChangeRate := acc.deltaChangeRate + delta })
    else if !updatedAfterThreshold then
      (s, ⟨acc.deltaChangeRate - initTotalVotes, acc.totalInactiveVpayShare + newVotepayShare⟩)
    else (s, acc)

/-! ## Passing on a changed weight -/

/-- The loop of `propagate_weight_change`: every producer of the voter gains `delta`. -/
def propagateToProducers (ctx : Context) (delta : F) :
    SystemState F → VpayDelta F → List Name → Except String (SystemState F × VpayDelta F)
  | s, acc, [] => .ok (s, acc)
  | s, acc, acnt :: rest => do
    let prod ← Table.getRow s.producers acnt "producer not found"
    let s := { s with
      producers := s.producers.set acnt { prod with totalVotes := prod.totalVotes + delta }
      gstate := { s.gstate with
        totalProducerVoteWeight := s.gstate.totalProducerVoteWeight + delta } }
    let (s, acc) := updateVotepay ctx s acc acnt prod.lastClaimTime prod.totalVotes delta
    propagateToProducers ctx delta s acc rest

def propagateWeightChange (ctx : Context) :
    Nat → SystemState F → Name → Except String (SystemState F)
  | 0, _, _ => .error "call depth exceeded"
  | depth + 1, s, owner => do
    let voter ← Table.getRow s.voters owner "voter not found"
    check (¬ voter.proxy.isSet ∨ ¬ voter.isProxy)
      "account registered as a proxy is not allowed to use a proxy"
    let newWeight := newVoteWeight ctx voter
    -- small changes are not passed on
    let s ← (
      if Double.ofInt 1 < Double.fabs (newWeight - voter.lastVoteWeight) then
        if voter.proxy.isSet then do
          let proxy ← Table.getRow s.voters voter.proxy "proxy not found"
          let proxied := proxy.proxiedVoteWeight + (newWeight - voter.lastVoteWeight)
          let voters := s.voters.set voter.proxy { proxy with proxiedVoteWeight := proxied }
          propagateWeightChange ctx depth { s with voters := voters } voter.proxy
        else do
          let (s, acc) ← propagateToProducers ctx (newWeight - voter.lastVoteWeight) s
            ⟨Double.ofInt 0, Double.ofInt 0⟩ voter.producers
          pure (updateTotalVotepayShare s ctx.now (-acc.totalInactiveVpayShare)
            acc.deltaChangeRate)
      else pure s)
    let voter ← Table.getRow s.voters owner "voter not found"
    return { s with voters := s.voters.set owner { voter with lastVoteWeight := newWeight } }

/-! ## Casting a vote -/

/-- `min_activated_stake`. -/
def minActivatedStake : Int64 := 1500000000000

/-- `min_activated_date`, the first of September 2020. -/
def minActivatedDate : TimePoint := 1598918400000 * 1000

/-- Until the chain is activated, the stake of a voter counts at its first vote. -/
def activateStake (ctx : Context) (s : SystemState F) (voter : VoterInfo F) : SystemState F :=
  if s.gstate.threshActivatedStakeTime = 0 then
    let stake :=
      if voter.lastVoteWeight ≤ Double.ofInt 0 then s.gstate.totalActivatedStake + voter.staked
      else s.gstate.totalActivatedStake
    let time :=
      if minActivatedStake ≤ stake ∧ minActivatedDate ≤ ctx.now then ctx.now
      else s.gstate.threshActivatedStakeTime
    { s with
      gstate := { s.gstate with totalActivatedStake := stake, threshActivatedStakeTime := time } }
  else s

/-- The changes of the producers' votes, and whether they are in the new set. -/
abbrev ProducerDeltas (F : Type) := Table Name (F × Bool)

/-- Apply `change` to the delta of every producer. -/
def changeDeltas (change : F → F) (isNew : Bool) (deltas : ProducerDeltas F)
    (producers : List Name) : ProducerDeltas F :=
  producers.foldl (fun ds p =>
    let d := (ds.find? p).getD (Double.ofInt 0, false)
    ds.set p (change d.1, isNew)) deltas

/-- The depth of calls after which a chain of proxies must have become a cycle. -/
def proxyDepth (s : SystemState F) : Nat := s.voters.size + 1

/-- Take the last vote of the voter back. -/
def undoVote (ctx : Context) (s : SystemState F) (voter : VoterInfo F) :
    Except String (SystemState F × ProducerDeltas F) :=
  if Double.ofInt 0 < voter.lastVoteWeight then
    if voter.proxy.isSet then do
      let oldProxy ← Table.getRow s.voters voter.proxy "old proxy not found"
      let proxied := oldProxy.proxiedVoteWeight - voter.lastVoteWeight
      let voters := s.voters.set voter.proxy { oldProxy with proxiedVoteWeight := proxied }
      let s ← propagateWeightChange ctx s.proxyDepth { s with voters := voters } voter.proxy
      return (s, ∅)
    else return (s, changeDeltas (fun d => d - voter.lastVoteWeight) false ∅ voter.producers)
  else return (s, ∅)

/-- Give the new weight to the new proxy or to the new producers. -/
def castVote (ctx : Context) (s : SystemState F) (deltas : ProducerDeltas F) (proxy : Name)
    (producers : List Name) (newVoteWeight : F) (voting : Bool) :
    Except String (SystemState F × ProducerDeltas F) :=
  if proxy.isSet then do
    let newProxy ← Table.getRow s.voters proxy "invalid proxy specified"
    check (¬ voting ∨ newProxy.isProxy) "proxy not found"
    if Double.ofInt 0 ≤ newVoteWeight then do
      let proxied := newProxy.proxiedVoteWeight + newVoteWeight
      let voters := s.voters.set proxy { newProxy with proxiedVoteWeight := proxied }
      let s ← propagateWeightChange ctx s.proxyDepth { s with voters := voters } proxy
      return (s, deltas)
    else return (s, deltas)
  else if Double.ofInt 0 ≤ newVoteWeight then
    return (s, changeDeltas (fun d => d + newVoteWeight) true deltas producers)
  else return (s, deltas)

/-- The loop of `update_votes` over the changed producers. -/
def applyDeltas (ctx : Context) (voting : Bool) :
    SystemState F → VpayDelta F → List (Name × F × Bool) →
      Except String (SystemState F × VpayDelta F)
  | s, acc, [] => .ok (s, acc)
  | s, acc, (owner, delta, isNew) :: rest =>
    match s.producers.find? owner with
    | some prod => do
      check (¬ (voting ∧ ¬ prod.isActive ∧ isNew))
        ("producer " ++ String.ofList owner.toText ++ " is not currently registered")
      let votes := prod.totalVotes + delta
      -- floating point arithmetic can give small negative numbers
      let votes := if votes < Double.ofInt 0 then Double.ofInt 0 else votes
      let s := { s with
        producers := s.producers.set owner { prod with totalVotes := votes }
        gstate := { s.gstate with
          totalProducerVoteWeight := s.gstate.totalProducerVoteWeight + delta } }
      let (s, acc) := updateVotepay ctx s acc owner prod.lastClaimTime prod.totalVotes delta
      applyDeltas ctx voting s acc rest
    | none => do
      check (¬ isNew) ("producer " ++ String.ofList owner.toText ++ " is not registered")
      applyDeltas ctx voting s acc rest

/-- The checks on the arguments of a vote. -/
def checkVote (voterName proxy : Name) (producers : List Name) : Except String Unit :=
  if proxy.isSet then do
    check (producers.length = 0) "cannot vote for producers and proxy at same time"
    check (voterName ≠ proxy) "cannot proxy to self"
  else do
    check (producers.length ≤ 30) "attempt to vote for too many producers"
    check (producers.IsChain (· < ·)) "producer votes must be unique and sorted"

def updateVotes (ctx : Context) (s : SystemState F) (voterName proxy : Name)
    (producers : List Name) (voting : Bool) : Except String (SystemState F) := do
  checkVote voterName proxy producers
  let voter ← Table.getRow s.voters voterName "user must stake before they can vote"
  check (¬ proxy.isSet ∨ ¬ voter.isProxy)
    "account registered as a proxy is not allowed to use a proxy"
  let s := s.activateStake ctx voter
  let newWeight := newVoteWeight ctx voter
  let (s, deltas) ← s.undoVote ctx voter
  let (s, deltas) ← s.castVote ctx deltas proxy producers newWeight voting
  let (s, acc) ← applyDeltas ctx voting s ⟨Double.ofInt 0, Double.ofInt 0⟩ deltas.rows
  let s := s.updateTotalVotepayShare ctx.now (-acc.totalInactiveVpayShare) acc.deltaChangeRate
  let voter ← Table.getRow s.voters voterName "voter not found"
  return { s with
    voters := s.voters.set voterName
      { voter with lastVoteWeight := newWeight, producers := producers, proxy := proxy } }

/-! ## REX -/

/-- A product and a quotient of `uint128_t` numbers. -/
def mulDiv128 (a b c : Int64) : Int64 :=
  let wide (x : Int64) : Nat := (x.toInt % 2 ^ 128).toNat
  Int64.ofNat (wide a * wide b % 2 ^ 128 / wide c)

/-- The stake of a holder of REX follows the value of the holder's REX. -/
def updateRexStake (s : SystemState F) (voter : Name) : SystemState F :=
  match s.rexbalance.find? voter, s.rexpool with
  | some rex, some pool =>
    if 0 < pool.totalRex.amount then
      let stake := mulDiv128 rex.rexBalance.amount pool.totalLendable.amount pool.totalRex.amount
      let delta := stake - rex.voteStake.amount
      let s := { s with
        rexbalance := s.rexbalance.set voter
          { rex with voteStake := { rex.voteStake with amount := stake } } }
      match s.voters.find? voter with
      | some v =>
        if delta ≠ 0 then
          { s with voters := s.voters.set voter { v with staked := v.staked + delta } }
        else s
      | none => s
    else s
  | _, _ => s

/-! ## Actions -/

def voteproducer (ctx : Context) (s : SystemState F) (voterName proxy : Name)
    (producers : List Name) : Except String (SystemState F) := do
  requireAuth ctx voterName
  let s := s.updateRexStake voterName
  let s ← s.updateVotes ctx voterName proxy producers true
  match s.rexbalance.find? voterName with
  | some rex =>
    if 0 < rex.rexBalance.amount then do
      let voter ← Table.getRow s.voters voterName
        "voter holding REX tokens must vote for at least 21 producers or for a proxy"
      check (voter.proxy.isSet ∨ 21 ≤ voter.producers.length)
        "voter holding REX tokens must vote for at least 21 producers or for a proxy"
      return s
    else return s
  | none => return s

def regproxy (ctx : Context) (s : SystemState F) (proxy : Name) (isproxy : Bool) :
    Except String (SystemState F) := do
  requireAuth ctx proxy
  match s.voters.find? proxy with
  | some voter =>
    check (isproxy ≠ voter.isProxy) "action has no effect"
    check (¬ isproxy ∨ ¬ voter.proxy.isSet)
      "account that uses a proxy is not allowed to become a proxy"
    let voters := s.voters.set proxy { voter with isProxy := isproxy }
    propagateWeightChange ctx s.proxyDepth { s with voters := voters } proxy
  | none =>
    return { s with voters := s.voters.set proxy { VoterInfo.new with isProxy := isproxy } }

end SystemState

end UxContracts
