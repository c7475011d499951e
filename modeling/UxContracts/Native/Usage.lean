import UxContracts.Native.Inflation
import Mathlib.Data.Char
import Mathlib.Data.List.Lex

/-!
# Reporting usage

An oracle reports its totals (`settotalusg`) and then its data sets one by one
(`addactusg`). Both count the hashes that the oracles of the period have submitted at one
place of their lists, and act when the most frequent one reaches the threshold. The next
period is opened when enough oracles have submitted what they had committed to
(`nextperiod`).
-/

namespace UxContracts

namespace ResourceState

variable {F H : Type}

/-! ## Stored data sets -/

/-- The stored data set with a hash. The source compares the hash of the row that it has
    found also when it has found none; that hash differs from every other. -/
def findDataset [DecidableEq H] (s : ResourceState F H) (hash : H) : Option (Dataset H) :=
  s.datasets.values.find? fun d => d.hash = hash

/-- Add data and hash to the table if the hash is not already present. -/
def recordDataset [DecidableEq H] (s : ResourceState F H) (hash : H) (data : List Metric) :
    Except String (ResourceState F H) :=
  match s.findDataset hash with
  | some _ => .ok s
  | none => do
    let id ← Table.availablePrimaryKey s.datasets
    return { s with datasets := s.datasets.set id ⟨hash, data⟩ }

/-! ## Tallies -/

variable [Checksum H]

/-- The hashes of some oracles; `pick` takes the one that is counted. -/
def pickHashes (s : ResourceState F H) (pick : SystemUsage H → Option H) :
    List Name → Except String (List H)
  | [] => .ok []
  | o :: oracles => do
    let u ← Table.getRow s.usage o "cannot dereference end iterator"
    let hashes ← pickHashes s pick oracles
    return (pick u).toList ++ hashes

/-- The most frequent hash and its number, which is counted in eight bits. -/
def modalHash (s : ResourceState F H) (pick : SystemUsage H → Option H) (oracles : List Name) :
    Except String (H × UInt8) := do
  let hashes ← s.pickHashes pick oracles
  return Tally.mode (Tally.count hashes) Checksum.zero

variable [Double F]

/-! ## Totals -/

/-- Distribute inflation if it has not been done and enough oracles agree on the totals. -/
def transferInflation (s : ResourceState F H) (cfg : ResourceConfig F)
    (periodStart : TimePointSec) :
    Except String (ResourceState F H × ResourceConfig F × List InlineAction) :=
  if ¬ cfg.inflationTransferred ∧
      cfg.oracleConsensusThreshold.toNat ≤ cfg.submittingOracles.length then do
    let (modal, modeCount) ←
      s.modalHash (fun u => u.submissionHashList[0]?) cfg.submittingOracles
    if cfg.oracleConsensusThreshold.toNat ≤ modeCount.toNat then
      match s.findDataset modal with
      | some d =>
        match d.data with
        | cpu :: net :: _ => do
          let s ← s.setTotal cpu.u net.u periodStart
          let (s, sends) ← s.issueInflation periodStart
          return (s, { cfg with inflationTransferred := true }, sends)
        -- the source reads the first two entries without a check
        | _ => .error "vector index out of range"
      | none => return (s, cfg, [])
    else return (s, cfg, [])
  else .ok (s, cfg, [])

/-- The configuration is read before and stored after the inflation has been transferred,
    so what `issue_inflation` has stored in it is overwritten. -/
def settotalusg (ctx : Context) (s : ResourceState F H) (source : Name)
    (totalCpuUs totalNetWords : UInt64) (allDataHash : H) (periodStart : TimePointSec) :
    Except String (ResourceState F H × List InlineAction) := do
  requireAuth ctx source
  check (isOracle s.sys source) "not a qualified oracle"
  let cfg := s.getConfig
  check cfg.active "resource model not active"
  check (cfg.periodStart = periodStart) "period_start does not match current period_start"
  check (totalCpuUs ≤ systemMaxCpu s.sys.gstate) "measured cpu usage is greater than system total"
  check (totalNetWords * 8 ≤ systemMaxNet s.sys.gstate)
    "measured net usage is greater than system total"
  check (s.usage.find? source).isNone "total already set"
  let hash : H := Checksum.sha256 (totalsText totalCpuUs totalNetWords)
  let data : List Metric :=
    [⟨Name.ofString "cpu.us", totalCpuUs⟩, ⟨Name.ofString "net.words", totalNetWords⟩]
  let s ← s.recordDataset hash data
  let s := { s with
    usage := s.usage.set source ⟨totalCpuUs, totalNetWords, 0, [hash], allDataHash⟩ }
  let cfg := { cfg with submittingOracles := cfg.submittingOracles ++ [source] }
  let (s, cfg, sends) ← s.transferInflation cfg periodStart
  return (s.setConfig cfg, sends)

/-! ## Data sets -/

/-- Add a data set to what an oracle has allocated, which must not exceed its total. -/
def allocate (totalCpuUs : UInt64) : UInt64 → List Metric → Except String UInt64
  | allocated, [] => .ok allocated
  | allocated, m :: dataset => do
    check (m.u > 0) "account cpu measurement must be greater than 0"
    let unallocated := totalCpuUs - allocated
    check (m.u ≤ unallocated) "insufficient unallocated cpu"
    allocate totalCpuUs (allocated + m.u) dataset

/-- Credit each account with its part of the tokens for users. -/
def payAccounts (totalCpu : UInt64) (utilityTokens : Int64) (sym : Symbol)
    (periodStart : TimePointSec) :
    Table Name AccountPay → List Metric → Except String (Table Name AccountPay)
  | t, [] => .ok t
  | t, m :: dataset => do
    let claim ← Double.toInt64 (Double.ofInt m.u.toNat / Double.ofInt totalCpu.toNat *
      Double.ofInt utilityTokens.toInt : F)
    let payout ← Asset.make claim sym
    match t.find? m.a with
    | none =>
      payAccounts totalCpu utilityTokens sym periodStart (t.set m.a ⟨payout, periodStart⟩) dataset
    | some pay => do
      let balance ← pay.balance.add payout
      payAccounts totalCpu utilityTokens sym periodStart (t.set m.a ⟨balance, periodStart⟩) dataset

omit [Double F] in
/-- The data set of the modal hash, if enough oracles agree on it and it has not been
    distributed. -/
def dueDataset (s : ResourceState F H) (cfg : ResourceConfig F) (datasetId : UInt16) :
    Except String (Option (List Metric)) :=
  if cfg.oracleConsensusThreshold.toNat ≤ cfg.submittingOracles.length then do
    let (modal, modeCount) ←
      s.modalHash (fun u => u.submissionHashList[datasetId.toNat]?) cfg.submittingOracles
    if datasetId ∉ cfg.accountDistributionsMade ∧
        cfg.oracleConsensusThreshold.toNat ≤ modeCount.toNat then
      return some (((s.findDataset modal).map Dataset.data).getD [])
    else return none
  else .ok none

/-- Distribute inflation to the accounts of the data set that is due. -/
def distributeDataset (s : ResourceState F H) (cfg : ResourceConfig F) (datasetId : UInt16)
    (periodStart : TimePointSec) : Except String (ResourceState F H × ResourceConfig F) := do
  let due ← s.dueDataset cfg datasetId
  match due with
  | some data => do
    let (_, last) ← Table.lastRow s.history
    let sym ← s.sys.coreSymbol
    -- the shares are parts of what the last row has for users
    let accpay ← payAccounts (F := F) last.totalCpuUs last.utilityTokens.amount sym periodStart
      s.accpay data
    return ({ s with accpay := accpay },
      { cfg with accountDistributionsMade := cfg.accountDistributionsMade ++ [datasetId] })
  | none => return (s, cfg)

omit [Double F] in
/-- Add a data set to the submissions of an oracle. -/
def submitDataset (s : ResourceState F H) (source : Name) (datasetId : UInt16)
    (dataset : List Metric) : Except String (ResourceState F H) := do
  let u ← Table.getRow s.usage source "usage totals not set"
  -- in order, after the totals, which are first in the list
  check (datasetId.toNat = u.submissionHashList.length) "dataset_id differs from expected value"
  let allocated ← allocate u.totalCpuUs u.allocatedCpu dataset
  let hash : H := Checksum.sha256 (datasetText dataset)
  let s := { s with
    usage := s.usage.set source { u with
      allocatedCpu := allocated
      submissionHashList := u.submissionHashList ++ [hash] } }
  s.recordDataset hash dataset

def addactusg (ctx : Context) (s : ResourceState F H) (source : Name) (datasetId : UInt16)
    (dataset : List Metric) (periodStart : TimePointSec) : Except String (ResourceState F H) := do
  requireAuth ctx source
  check (isOracle s.sys source) "not a qualified oracle"
  let cfg := s.getConfig
  check cfg.active "resource model not active"
  check (dataset.length ≤ cfg.datasetBatchSize.toNat) "must supply fewer dataset values"
  check (cfg.periodStart = periodStart) "period_start does not match current period_start"
  check cfg.inflationTransferred "inflation not yet transferred"
  let s ← s.submitDataset source datasetId dataset
  let (s, cfg) ← s.distributeDataset cfg datasetId periodStart
  return s.setConfig cfg

/-! ## The next period -/

/-- The points of an oracle, and whether it has submitted what the others have. -/
def oraclePoints (u : SystemUsage H) (modal : H) : UInt64 × Bool :=
  let reveal : H := Checksum.sha256 (submissionsText u.submissionHashList)
  if reveal = u.allDataHash then
    -- it has submitted what it had committed to
    if u.allDataHash = modal then (10, true) else (1, false)
  else (0, false)

/-- Score the oracles and count those with the full modal data. -/
def scoreOracles (s : ResourceState F H) (modal : H) :
    Table Name Source → Nat → List Name → Except String (Table Name Source × Nat)
  | sources, full, [] => .ok (sources, full)
  | sources, full, o :: oracles => do
    let u ← Table.getRow s.usage o "cannot dereference end iterator"
    let (points, isFull) := oraclePoints u modal
    let source := match sources.find? o with
      | none => ⟨points.toUInt32, 1⟩
      | some source =>
        ⟨source.submissionsScore + points.toUInt32, source.submissionsCount + 1⟩
    scoreOracles s modal (sources.set o source) (if isFull then full + 1 else full) oracles

/-- Called by anyone after the end of the current period. -/
def nextperiod (ctx : Context) (s : ResourceState F H) : Except String (ResourceState F H) := do
  let cfg := s.getConfig
  check cfg.active "resource model not active"
  check (cfg.periodStart + cfg.periodSeconds ≤ ctx.now.secSinceEpoch)
    "current resource period has not ended"
  let threshold := cfg.oracleConsensusThreshold.toNat
  let (modal, modeCount) ← (
    if threshold ≤ cfg.submittingOracles.length then
      s.modalHash (fun u => some u.allDataHash) cfg.submittingOracles
    else pure (Checksum.zero, 0))
  let _ ← s.sys.coreSymbol
  let (sources, full) ← (
    if threshold ≤ modeCount.toNat then scoreOracles s modal s.sources 0 cfg.submittingOracles
    else pure (s.sources, 0))
  -- prevent the period from advancing if no modal data was received
  check (threshold ≤ full) "full modal data not received"
  return { s with datasets := ∅, sources := sources, usage := ∅ }.setConfig { cfg with
    submittingOracles := []
    periodStart := cfg.periodStart + cfg.periodSeconds
    inflationTransferred := false
    accountDistributionsMade := [] }

end ResourceState

/-! ## Runs -/

/-- The actions of the resource model, with the actions of the system contract. -/
inductive ResourceAction (F H : Type) where
  | initresource (datasetBatchSize oracleConsensusThreshold : UInt16)
      (periodStart : TimePointSec) (periodSeconds : UInt32)
      (initialValueTransferRate maxPayConstant : F)
  | resactivate (active : Bool)
  | settotalusg (source : Name) (totalCpuUs totalNetWords : UInt64) (allDataHash : H)
      (periodStart : TimePointSec)
  | addactusg (source : Name) (datasetId : UInt16) (dataset : List Metric)
      (periodStart : TimePointSec)
  | nextperiod
  | claimdistrib (account : Name)
  | claimrewards (owner : Name)
  /-- an action of the system contract or of the token contract -/
  | system (action : SystemAction F)

/-- An action together with the context it runs in. -/
structure ResourceCall (F H : Type) where
  ctx : Context
  action : ResourceAction F H

namespace ResourceState

variable {F H : Type} [Checksum H] [Double F]

/-- Run the inline actions that an action has sent after it. -/
def commit (ctx : Context) (r : Except String (ResourceState F H × List InlineAction)) :
    Except String (ResourceState F H) := do
  let (s, sends) ← r
  let token ← SystemState.runInline ctx s.sys.token sends
  return { s with sys := { s.sys with token := token } }

/-- Run one call. -/
def step (s : ResourceState F H) (call : ResourceCall F H) : Except String (ResourceState F H) :=
  let ctx := call.ctx
  match call.action with
  | .initresource batch threshold start seconds rate maxPay =>
    s.initresource ctx batch threshold start seconds rate maxPay
  | .resactivate active => s.resactivate ctx active
  | .settotalusg source cpu net hash start => commit ctx (s.settotalusg ctx source cpu net hash start)
  | .addactusg source datasetId dataset start => s.addactusg ctx source datasetId dataset start
  | .nextperiod => s.nextperiod ctx
  | .claimdistrib account => commit ctx (s.claimdistrib ctx account)
  | .claimrewards owner => commit ctx (s.claimrewards ctx owner)
  | .system action => do
    let sys ← s.sys.step ⟨ctx, action⟩
    return { s with sys := sys }

omit [Checksum H] in
/-- The state before the first action. -/
def genesis (maxBlockNetUsage : UInt64) (maxBlockCpuUsage : UInt32) : ResourceState F H :=
  ⟨SystemState.genesis maxBlockNetUsage maxBlockCpuUsage, none, ∅, ∅, ∅, ∅, ∅, ∅⟩

/-! ## A sample run -/

namespace Sample

open SystemState.Sample

/-- The bytes of a character. -/
def charBytes (c : Char) : List UInt8 :=
  [c.val.toUInt8, (c.val >>> 8).toUInt8, (c.val >>> 16).toUInt8]

/-- In the samples a text is its own hash. -/
instance : Checksum (List Char) where
  sha256 := id
  bytes h := h.flatMap charBytes
  zero := []

def carol : Name := Name.ofString "carol"

/-- Three active producers. -/
def producers : Table Name (ProducerInfo Rat) :=
  let voted (votes : Rat) : ProducerInfo Rat := ⟨votes, true, 0⟩
  ((∅ : Table Name (ProducerInfo Rat)).set alice (voted 3)).set bob (voted 2) |>.set carol (voted 1)

/-- A call in the first period. -/
def call (who : Name) (action : ResourceAction Rat (List Char)) :
    ResourceCall Rat (List Char) :=
  ⟨ctx [who] launch, action⟩

/-- An oracle reports its totals. -/
def totals (who : Name) (cpu net : UInt64) : ResourceCall Rat (List Char) :=
  call who (.settotalusg who cpu net "commitment".toList 1600000000)

/-- An oracle reports a data set. -/
def dataset (who : Name) (datasetId : UInt16) (data : List Metric) :
    ResourceCall Rat (List Char) :=
  call who (.addactusg who datasetId data 1600000000)

/-- The system contract is set up, there are three producers, and `threshold` of them have to
    agree. -/
def setup (threshold : UInt16) : List (ResourceCall Rat (List Char)) :=
  (SystemState.Sample.setup.map fun c => ⟨c.ctx, .system c.action⟩) ++
  [call systemAccount (.system (.producers producers ∅ 3)),
    call systemAccount (.initresource 10 threshold 1600000000 86400 (1 / 10) (2947 / 10000)),
    call systemAccount (.resactivate true)]

/-- The state before the first action of the samples. -/
def start : ResourceState Rat (List Char) := genesis 1048576 200000

end Sample

end ResourceState

end UxContracts
