import UxContracts.ForStd.Tally
import UxContracts.Native.Contract

/-!
# The tables of the resource model

Once in a period, oracles report how much CPU and NET the chain has used: first the
totals, then data sets of single accounts. When enough oracles agree on the totals,
tokens are issued for producers and users, and when enough of them agree on a data set,
its accounts are credited.

`sha256` and the checksums it returns are a parameter. The contract hashes texts, which
are lists of characters here.
-/

namespace UxContracts

/-- What the contract uses of `checksum256`. -/
class Checksum (H : Type) extends LinearOrder H where
  sha256 : List Char → H
  /-- `extract_as_byte_array` -/
  bytes : H → List UInt8
  /-- the checksum a variable has before it is assigned -/
  zero : H

/-! ## Rows -/

/-- Used primarily for the CPU usage of single accounts, but also for the totals. -/
structure Metric where
  a : Name
  u : UInt64
deriving DecidableEq, Repr

/-- A submitted data set with the hash of its text. -/
structure Dataset (H : Type) where
  hash : H
  data : List Metric

structure ResourceConfig (F : Type) where
  /-- how many seconds in each period -/
  periodSeconds : UInt32
  /-- how many oracles are required for the mode to trigger a distribution -/
  oracleConsensusThreshold : UInt16
  /-- how many individual accounts are submitted at once -/
  datasetBatchSize : UInt16
  /-- when the period currently open for reporting started -/
  periodStart : TimePointSec
  /-- oracles which have sent their totals for this period -/
  submittingOracles : List Name
  inflationTransferred : Bool
  /-- which data sets have reached consensus and been distributed -/
  accountDistributionsMade : List UInt16
  emadraglimit : UInt32
  initialValueTransferRate : F
  maxPayConstant : F
  lastPeriodInflationPrint : TimePointSec
  active : Bool

/-- The configuration before the first action sets one. -/
def ResourceConfig.default {F : Type} [Double F] : ResourceConfig F :=
  ⟨86400, 0, 0, 0, [], false, [], 2, Double.ofDecimal 1 1, Double.ofDecimal 2947 4, 0, false⟩

/-- The points of an oracle. -/
structure Source where
  submissionsScore : UInt32
  submissionsCount : UInt32
deriving DecidableEq

/-- What an oracle has submitted in the current period. -/
structure SystemUsage (H : Type) where
  totalCpuUs : UInt64
  totalNetWords : UInt64
  /-- how much has been allocated to individual accounts -/
  allocatedCpu : UInt64
  /-- the hash of each submission, the totals first -/
  submissionHashList : List H
  /-- acts as commitment for all subsequent data -/
  allDataHash : H

structure UsageHistory (F : Type) where
  daycount : UInt32
  totalCpuUs : UInt64
  totalNetWords : UInt64
  netPercentTotal : F
  cpuPercentTotal : F
  useCpu : F
  useNet : F
  maCpu : F
  maNet : F
  emaCpu : F
  emaNet : F
  emaUtilTotal : F
  utility : F
  utilityDaily : F
  bppay : F
  bppayDaily : F
  inflation : F
  inflationDaily : F
  utilityTokens : Asset
  bppayTokens : Asset
  timestamp : TimePointSec

/-- The tokens an account can claim. -/
structure AccountPay where
  balance : Asset
  timestamp : TimePointSec
deriving DecidableEq

/-- The tokens a producer can claim. -/
structure ProducerPay where
  balance : Asset
  lastClaimTime : TimePointSec
deriving DecidableEq

/-- The tables of the resource model next to those of the system contract. -/
structure ResourceState (F H : Type) where
  sys : SystemState F
  config : Option (ResourceConfig F)
  usage : Table Name (SystemUsage H)
  datasets : Table Nat (Dataset H)
  history : Table Nat (UsageHistory F)
  accpay : Table Name AccountPay
  sources : Table Name Source
  prodpay : Table Name ProducerPay

/-! ## Tables with numbered rows -/

/-- The row before the end of the table. -/
def Table.lastRow {V : Type} (t : Table Nat V) : Except String (Nat × V) :=
  match t.last? with
  | some r => .ok r
  | none => .error "cannot decrement end iterator when the table is empty"

namespace ResourceState

variable {F H : Type}

/-! ## Texts -/

/-- `std::to_string` of a number. -/
def decimal (n : UInt64) : List Char := Nat.toDigits 10 n.toNat

/-- The text of the totals. -/
def totalsText (totalCpuUs totalNetWords : UInt64) : List Char :=
  decimal totalCpuUs ++ '-' :: decimal totalNetWords

/-- The text of a data set: nothing stands between its parts. -/
def datasetText (dataset : List Metric) : List Char :=
  dataset.flatMap fun m => m.a.toText ++ decimal m.u

def hexDigit (n : UInt8) : Char := Nat.digitChar n.toNat

/-- `to_hex` of a checksum. -/
def toHex [Checksum H] (h : H) : List Char :=
  (Checksum.bytes h).flatMap fun (b : UInt8) => [hexDigit (b >>> 4), hexDigit (b &&& 0x0f)]

/-- The text of all submissions of an oracle. -/
def submissionsText [Checksum H] (hashes : List H) : List Char :=
  ['-'].intercalate (hashes.map toHex)

/-! ## Oracles and producers -/

/-- One of the first 21 producers, whether it is active or not. -/
def isOracle [Double F] (sys : SystemState F) (owner : Name) : Bool :=
  ((rankedProducers sys.producers).take 21).any fun p => p.1 = owner

/-- The producers that are paid. -/
def activeProducers [Double F] (sys : SystemState F) : List Name :=
  (((rankedProducers sys.producers).takeWhile fun p =>
    Double.ofInt 0 < p.2.totalVotes ∧ p.2.isActive).take 21).map Prod.fst

/-! ## Configuration -/

def getConfig [Double F] (s : ResourceState F H) : ResourceConfig F :=
  s.config.getD ResourceConfig.default

def setConfig (s : ResourceState F H) (cfg : ResourceConfig F) : ResourceState F H :=
  { s with config := some cfg }

variable [Double F]

/-- The first row of the history. The source leaves out some of its fields. -/
def firstHistory (periodStart : TimePointSec) : UsageHistory F :=
  let zero : F := Double.ofInt 0
  let none : Asset := ⟨0, ⟨⟨0⟩, 0⟩⟩
  ⟨0, 0, 0, zero, zero, zero, zero, zero, zero, zero, zero, zero, zero, zero, zero, zero, zero,
    zero, none, none, periodStart⟩

def initresource (ctx : Context) (s : ResourceState F H)
    (datasetBatchSize oracleConsensusThreshold : UInt16) (periodStart : TimePointSec)
    (periodSeconds : UInt32) (initialValueTransferRate maxPayConstant : F) :
    Except String (ResourceState F H) := do
  requireAuth ctx systemAccount
  let cfg := { s.getConfig with
    datasetBatchSize := datasetBatchSize
    oracleConsensusThreshold := oracleConsensusThreshold
    periodStart := periodStart
    periodSeconds := periodSeconds
    initialValueTransferRate := initialValueTransferRate
    maxPayConstant := maxPayConstant
    lastPeriodInflationPrint := 0
    active := false }
  if s.history.rows.isEmpty then do
    let pk ← Table.availablePrimaryKey s.history
    -- only remove submission state if no history
    let cfg := { cfg with
      submittingOracles := []
      inflationTransferred := false
      accountDistributionsMade := [] }
    return { s with history := s.history.set pk (firstHistory periodStart) }.setConfig cfg
  else return s.setConfig cfg

/-- Activate or deactivate the resource model. -/
def resactivate (ctx : Context) (s : ResourceState F H) (active : Bool) :
    Except String (ResourceState F H) := do
  requireAuth ctx systemAccount
  let cfg := s.getConfig
  let _ ← (
    if active then check (¬ cfg.active) "resource model already active"
    else check cfg.active "resource model already inactive")
  return s.setConfig { cfg with active := active }

/-! ## Claims -/

/-- The transfer runs after the action, so it reads the balance from the message. -/
def claimdistrib (ctx : Context) (s : ResourceState F H) (account : Name) :
    Except String (ResourceState F H × List InlineAction) := do
  requireAuth ctx account
  let pay ← Table.getRow s.accpay account "account balance not found"
  let sym ← s.sys.coreSymbol
  let zero ← Asset.make 0 sym
  let nonzero ← pay.balance.ne zero
  check nonzero "no balance to claim"
  return ({ s with accpay := s.accpay.erase account },
    [⟨[upayAccount, account],
      .transfer upayAccount account pay.balance "utility reward"⟩])

def claimrewards (ctx : Context) (s : ResourceState F H) (owner : Name) :
    Except String (ResourceState F H × List InlineAction) := do
  requireAuth ctx owner
  let pay ← Table.getRow s.prodpay owner "owner balance not found"
  check (pay.balance.amount > 0) "no balance to claim"
  let balance ← pay.balance.sub pay.balance
  return ({ s with
      prodpay := s.prodpay.set owner ⟨balance, ctx.now.secSinceEpoch⟩ },
    [⟨[bpayAccount, owner], .transfer bpayAccount owner pay.balance "producer reward"⟩])

end ResourceState

end UxContracts
