import Mathlib.Data.List.Sort
import UxContracts.Native.Double
import UxContracts.Native.Token

/-!
# State of the system contract

The tables of `eosio.system` and the token contract it sends inline actions to. The
`owner` field of a row, and the `from` and `to` fields of a `delband` row, are the
scope and the key the row is stored under, and are not stored a second time.

An action returns the new tables and the inline actions it has sent. The chain runs
these after the action, in the order they were sent, and a failed one undoes the
action with all the others.
-/

namespace UxContracts

/-! ## Rows -/

/-- The fields of `eosio_global_state` that the actions read. -/
structure GlobalState (F : Type) where
  maxBlockNetUsage : UInt64
  maxBlockCpuUsage : UInt32
  maxRamSize : UInt64
  totalRamBytesReserved : UInt64
  totalRamStake : Int64
  totalActivatedStake : Int64
  threshActivatedStakeTime : TimePoint
  lastProducerScheduleSize : UInt16
  /-- the sum of all producer votes -/
  totalProducerVoteWeight : F
deriving DecidableEq

/-- The RAM that is not reserved, in the unsigned arithmetic of the source. -/
def GlobalState.freeRam {F : Type} (g : GlobalState F) : UInt64 :=
  g.maxRamSize - g.totalRamBytesReserved

structure GlobalState2 (F : Type) where
  newRamPerBlock : UInt16
  lastRamIncrease : BlockTimestamp
  totalProducerVotepayShare : F
deriving DecidableEq

structure GlobalState3 (F : Type) where
  lastVpayStateUpdate : TimePoint
  totalVpayShareChangeRate : F
deriving DecidableEq

structure ProducerInfo (F : Type) where
  totalVotes : F
  isActive : Bool
  lastClaimTime : TimePoint
deriving DecidableEq

/-- The key of a row in the index `prototalvote`. -/
def ProducerInfo.byVotes {F : Type} [Double F] (p : ProducerInfo F) : F :=
  if p.isActive then -p.totalVotes else p.totalVotes

/-- The producers in the order of the index; equal keys are in the order of the names. -/
def rankedProducers {F : Type} [Double F] (producers : Table Name (ProducerInfo F)) :
    List (Name × ProducerInfo F) :=
  producers.rows.insertionSort fun p q => ¬ q.2.byVotes < p.2.byVotes

structure ProducerInfo2 (F : Type) where
  votepayShare : F
  lastVotepayShareUpdate : TimePoint
deriving DecidableEq

structure VoterInfo (F : Type) where
  /-- the proxy set by the voter, if any -/
  proxy : Name
  /-- the producers approved by this voter if no proxy set -/
  producers : List Name
  staked : Int64
  /-- the vote weight cast the last time the vote was updated -/
  lastVoteWeight : F
  /-- the total vote weight delegated to this voter as a proxy -/
  proxiedVoteWeight : F
  /-- whether the voter is a proxy for others -/
  isProxy : Bool
  flags1 : UInt32
deriving DecidableEq

/-- A new `voters` row. -/
def VoterInfo.new {F : Type} [Double F] : VoterInfo F :=
  ⟨⟨0⟩, [], 0, Double.ofInt 0, Double.ofInt 0, false, 0⟩

namespace VoterInfo

variable {F : Type}

def ramManaged (v : VoterInfo F) : Bool := v.flags1 &&& 1 ≠ 0
def netManaged (v : VoterInfo F) : Bool := v.flags1 &&& 2 ≠ 0
def cpuManaged (v : VoterInfo F) : Bool := v.flags1 &&& 4 ≠ 0

end VoterInfo

structure UserResources where
  netWeight : Asset
  cpuWeight : Asset
  ramBytes : Int64
deriving DecidableEq

def UserResources.isEmpty (r : UserResources) : Bool :=
  r.netWeight.amount = 0 ∧ r.cpuWeight.amount = 0 ∧ r.ramBytes = 0

/-- Every account 'from' has a scope that uses every recipient 'to' as the primary key. -/
structure DelegatedBandwidth where
  netWeight : Asset
  cpuWeight : Asset
deriving DecidableEq

def DelegatedBandwidth.isEmpty (d : DelegatedBandwidth) : Bool :=
  d.netWeight.amount = 0 ∧ d.cpuWeight.amount = 0

structure RefundRequest where
  requestTime : TimePointSec
  netAmount : Asset
  cpuAmount : Asset
deriving DecidableEq

def RefundRequest.isEmpty (r : RefundRequest) : Bool :=
  r.netAmount.amount = 0 ∧ r.cpuAmount.amount = 0

/-- The RAM market. Its connectors no longer price RAM; the symbol of the quote
    connector is the core symbol. -/
structure ExchangeState where
  supply : Asset
  base : Asset
  quote : Asset
deriving DecidableEq

/-- A name bid; a negative bid is a closed auction waiting to be claimed. -/
structure NameBid where
  highBidder : Name
  highBid : Int64
  lastBidTime : TimePoint
deriving DecidableEq

structure RexBalance where
  voteStake : Asset
  rexBalance : Asset
deriving DecidableEq

structure RexPool where
  totalLendable : Asset
  totalRex : Asset
deriving DecidableEq

/-- What the chain stores with `set_resource_limits`. -/
structure ResourceLimits where
  ram : Int64
  net : Int64
  cpu : Int64
deriving DecidableEq

/-- A `refund` action that the chain runs after a delay. -/
structure DeferredRefund where
  owner : Name
  delaySec : UInt32
deriving DecidableEq

/-- The accounts whose limits are to be checked use it: bytes that are not bought. -/
def ramGiftBytes : Int64 := 0

/-- Three days. -/
def refundDelaySec : UInt32 := 3 * (24 * 3600)

/-! ## The state -/

/-- The tables of the system contract and of the token contract. -/
structure SystemState (F : Type) where
  token : TokenState
  gstate : GlobalState F
  gstate2 : GlobalState2 F
  gstate3 : GlobalState3 F
  rammarket : Option ExchangeState
  voters : Table Name (VoterInfo F)
  producers : Table Name (ProducerInfo F)
  producers2 : Table Name (ProducerInfo2 F)
  userres : Table Name UserResources
  delband : Table (Scoped Name Name) DelegatedBandwidth
  refunds : Table Name RefundRequest
  bids : Table Name NameBid
  rexbalance : Table Name RexBalance
  rexpool : Option RexPool
  /-- the limits the chain enforces -/
  limits : Table Name ResourceLimits
  /-- the deferred transactions by their sender id -/
  deferred : Table Name DeferredRefund

/-- An action sent to the token contract, with the authority it is sent with. -/
structure InlineAction where
  auth : List Name
  action : TokenAction

namespace SystemState

variable {F : Type}

/-- The core symbol is the one of the quote connector. -/
def coreSymbol (s : SystemState F) : Except String Symbol :=
  match s.rammarket with
  | some m => .ok m.quote.symbol
  | none => .error "system contract must first be initialized"

/-- `get_resource_limits`; an account without limits is not limited. -/
def getResourceLimits (s : SystemState F) (account : Name) : ResourceLimits :=
  (s.limits.find? account).getD ⟨-1, -1, -1⟩

def setResourceLimits (s : SystemState F) (account : Name) (l : ResourceLimits) : SystemState F :=
  { s with limits := s.limits.set account l }

/-- Run the inline actions that an action has sent. -/
def runInline (ctx : Context) : TokenState → List InlineAction → Except String TokenState
  | t, [] => .ok t
  | t, a :: as => do
    let t ← t.step ⟨ctx.withAuth a.auth, a.action⟩
    runInline ctx t as

end SystemState

/-! ## The actions' results -/

/-- The core symbol is the one of the quote of the market. -/
@[simp] theorem coreSymbol_eq_ok {F : Type} {s : SystemState F} {sym : Symbol} :
    s.coreSymbol = .ok sym ↔ ∃ m, s.rammarket = some m ∧ m.quote.symbol = sym := by
  unfold SystemState.coreSymbol
  cases s.rammarket with
  | none => simp
  | some m => simp

namespace SystemState

/-- Without inline actions the tokens are as before. -/
@[simp] theorem runInline_nil {ctx : Context} {t t' : TokenState} :
    runInline ctx t [] = .ok t' ↔ t = t' := by
  simp [runInline]

/-- Inline actions run one after the other, each with its own authority. -/
theorem runInline_cons {ctx : Context} {t t' : TokenState} {a : InlineAction}
    {as : List InlineAction} :
    runInline ctx t (a :: as) = .ok t' ↔
      ∃ u, t.step ⟨ctx.withAuth a.auth, a.action⟩ = .ok u ∧ runInline ctx u as = .ok t' := by
  simp only [runInline, bind_eq_ok]

end SystemState

end UxContracts
