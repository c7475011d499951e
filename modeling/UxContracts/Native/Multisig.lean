import UxContracts.Native.Chain

/-!
# The multisig contract

Proposals of transactions, and the approvals that an execution counts. The proposals and
their approvals are two tables with the same keys: the proposer, who is the scope, and the
name of the proposal. Proposals from before the second version of the contract have their
approvals in a third table, without times. The times of the invalidations of accounts are
in a table of their own.

What the chain answers about the permissions of a transaction is part of the context of an
action.
-/

namespace UxContracts

/-! ## Transactions -/

/-- A permission of an account. -/
structure PermissionLevel where
  actor : Name
  permission : Name
deriving DecidableEq, Repr

/-- What the contract reads of a packed transaction. -/
structure TransactionHeader where
  expiration : TimePointSec
deriving DecidableEq, Repr

/-- The bytes after an `unsigned_int`, whose last byte is the first one below `0x80`. -/
def skipUnsignedInt : List UInt8 → Except String (List UInt8)
  | [] => .error "datastream attempted to read past the end"
  | b :: bs => if b &&& 0x80 = 0 then .ok bs else skipUnsignedInt bs

/-- Read the header at the start of a packed transaction. -/
def unpackHeader : List UInt8 → Except String TransactionHeader
  -- the expiration, `ref_block_num` and `ref_block_prefix`
  | e₀ :: e₁ :: e₂ :: e₃ :: _ :: _ :: _ :: _ :: _ :: _ :: bytes => do
    -- `max_net_usage_words`
    let bytes ← skipUnsignedInt bytes
    match bytes with
    | [] => .error "datastream attempted to read past the end"
    -- `max_cpu_usage_ms` and `delay_sec`
    | _ :: bytes =>
      let _ ← skipUnsignedInt bytes
      return ⟨e₀.toUInt32 ||| e₁.toUInt32 <<< 8 ||| e₂.toUInt32 <<< 16 ||| e₃.toUInt32 <<< 24⟩
  | _ => .error "datastream attempted to read past the end"

example : unpackHeader [0x00, 0x10, 0x5e, 0x5f, 2, 0, 3, 0, 0, 0, 0x80, 0, 0, 0, 7] =
    .ok ⟨1600000000⟩ := by decide +kernel

/-- The hash function that `assert_sha256` uses. -/
class BytesChecksum (H : Type) where
  sha256 : List UInt8 → H

/-! ## Tables -/

structure Proposal where
  packedTransaction : List UInt8
deriving DecidableEq, Repr

structure OldApprovalsInfo where
  requestedApprovals : List PermissionLevel
  providedApprovals : List PermissionLevel
deriving DecidableEq, Repr

structure Approval where
  level : PermissionLevel
  time : TimePoint
deriving DecidableEq, Repr

structure ApprovalsInfo where
  /-- The times are there to give both lists the same size only. -/
  requestedApprovals : List Approval
  providedApprovals : List Approval
deriving DecidableEq, Repr

/-- A transaction that has been handed to `send_deferred`. -/
structure DeferredTransaction where
  senderId : BitVec 128
  payer : Name
  packedTransaction : List UInt8
deriving DecidableEq, Repr

/-- The tables of the contract, and the transactions that it has sent. -/
structure MultisigState where
  proposals : Table (Scoped Name Name) Proposal
  oldApprovals : Table (Scoped Name Name) OldApprovalsInfo
  approvals : Table (Scoped Name Name) ApprovalsInfo
  invalidations : Table Name TimePoint
  sent : List DeferredTransaction

/-- The permissions that have authorised an action. -/
structure AuthContext where
  auth : List PermissionLevel

namespace AuthContext

/-- Abort the action unless the account has authorised it with some permission. -/
def requireAuth (ctx : AuthContext) (n : Name) : Except String Unit :=
  check (n ∈ ctx.auth.map PermissionLevel.actor) "missing required authority"

/-- Abort the action unless it is authorised with this permission. -/
def requireLevel (ctx : AuthContext) (level : PermissionLevel) : Except String Unit :=
  check (level ∈ ctx.auth) "missing required authority"

end AuthContext

/-- What an action can ask the chain. -/
structure MultisigContext extends AuthContext where
  /-- the time of the current block -/
  now : TimePoint
  /-- whether `check_transaction_authorization` is positive for a packed transaction and
      the permissions that are provided -/
  isAuthorized : List UInt8 → List PermissionLevel → Bool

namespace ApprovalsInfo

/-- Move an approval from the requested ones to the provided ones. -/
def provide (info : ApprovalsInfo) (level : PermissionLevel) (time : TimePoint) :
    ApprovalsInfo where
  requestedApprovals := info.requestedApprovals.eraseP (·.level = level)
  providedApprovals := info.providedApprovals ++ [⟨level, time⟩]

/-- Move an approval from the provided ones to the requested ones. -/
def revoke (info : ApprovalsInfo) (level : PermissionLevel) (time : TimePoint) :
    ApprovalsInfo where
  requestedApprovals := info.requestedApprovals ++ [⟨level, time⟩]
  providedApprovals := info.providedApprovals.eraseP (·.level = level)

end ApprovalsInfo

namespace MultisigState

variable {H : Type} [BytesChecksum H] [DecidableEq H]

/-! ## Proposing -/

/-- Create a proposal of the transaction that is packed in `trx`. -/
def propose (ctx : MultisigContext) (proposer proposalName : Name)
    (requested : List PermissionLevel) (trx : List UInt8) (s : MultisigState) :
    Except String MultisigState := do
  let header ← unpackHeader trx
  ctx.requireAuth proposer
  check (ctx.now.secSinceEpoch ≤ header.expiration) "transaction expired"
  check (s.proposals.find? ⟨proposer, proposalName⟩ = none) "proposal with the same name exists"
  check (ctx.isAuthorized trx requested) "transaction authorization failed"
  let proposals ← Table.emplaceRow s.proposals ⟨proposer, proposalName⟩ ⟨trx⟩
  let approvals ← Table.emplaceRow s.approvals ⟨proposer, proposalName⟩
    ⟨requested.map fun level => ⟨level, 0⟩, []⟩
  return { s with proposals := proposals, approvals := approvals }

/-! ## Approving -/

/-- Abort the action if the transaction of the proposal has another hash than the one that the
    action comes with. -/
def assertHash (key : Scoped Name Name) (proposalHash : Option H) (s : MultisigState) :
    Except String Unit :=
  match proposalHash with
  | some hash => do
    let prop ← Table.getRow s.proposals key "proposal not found"
    check (BytesChecksum.sha256 prop.packedTransaction = hash) "hash mismatch"
  | none => return ()

def approve (ctx : MultisigContext) (proposer proposalName : Name) (level : PermissionLevel)
    (proposalHash : Option H) (s : MultisigState) : Except String MultisigState := do
  ctx.requireLevel level
  s.assertHash ⟨proposer, proposalName⟩ proposalHash
  match s.approvals.find? ⟨proposer, proposalName⟩ with
  | some info =>
    check (level ∈ info.requestedApprovals.map Approval.level)
      "approval is not on the list of requested approvals"
    return { s with
      approvals := s.approvals.set ⟨proposer, proposalName⟩ (info.provide level ctx.now) }
  | none =>
    let info ← Table.getRow s.oldApprovals ⟨proposer, proposalName⟩ "proposal not found"
    check (level ∈ info.requestedApprovals) "approval is not on the list of requested approvals"
    return { s with
      oldApprovals := s.oldApprovals.set ⟨proposer, proposalName⟩
        ⟨info.requestedApprovals.erase level, info.providedApprovals ++ [level]⟩ }

def unapprove (ctx : MultisigContext) (proposer proposalName : Name) (level : PermissionLevel)
    (s : MultisigState) : Except String MultisigState := do
  ctx.requireLevel level
  match s.approvals.find? ⟨proposer, proposalName⟩ with
  | some info =>
    check (level ∈ info.providedApprovals.map Approval.level) "no approval previously granted"
    return { s with
      approvals := s.approvals.set ⟨proposer, proposalName⟩ (info.revoke level ctx.now) }
  | none =>
    let info ← Table.getRow s.oldApprovals ⟨proposer, proposalName⟩ "proposal not found"
    check (level ∈ info.providedApprovals) "no approval previously granted"
    return { s with
      oldApprovals := s.oldApprovals.set ⟨proposer, proposalName⟩
        ⟨info.requestedApprovals ++ [level], info.providedApprovals.erase level⟩ }

/-! ## Closing a proposal -/

/-- Abort the action unless the transaction has expired. -/
def assertExpired (ctx : MultisigContext) (prop : Proposal) : Except String Unit := do
  let header ← unpackHeader prop.packedTransaction
  check (header.expiration < ctx.now.secSinceEpoch) "cannot cancel until expiration"

def cancel (ctx : MultisigContext) (proposer proposalName canceler : Name) (s : MultisigState) :
    Except String MultisigState := do
  ctx.requireAuth canceler
  let prop ← Table.getRow s.proposals ⟨proposer, proposalName⟩ "proposal not found"
  let _ ← (if canceler ≠ proposer then assertExpired ctx prop else return ())
  let s := { s with proposals := s.proposals.erase ⟨proposer, proposalName⟩ }
  match s.approvals.find? ⟨proposer, proposalName⟩ with
  | some _ => return { s with approvals := s.approvals.erase ⟨proposer, proposalName⟩ }
  | none =>
    check (s.oldApprovals.find? ⟨proposer, proposalName⟩ ≠ none) "proposal not found"
    return { s with oldApprovals := s.oldApprovals.erase ⟨proposer, proposalName⟩ }

/-- The approval has not been invalidated since it was given. -/
def isStanding (s : MultisigState) (p : Approval) : Bool :=
  match s.invalidations.find? p.level.actor with
  | none => true
  | some lastInvalidationTime => lastInvalidationTime < p.time

/-- `exec` up to its call of `check_transaction_authorization`: the packed transaction and
    the permissions it is called with, and the tables by then. -/
def execRequest (ctx : MultisigContext) (proposer proposalName executer : Name)
    (s : MultisigState) : Except String (Proposal × List PermissionLevel × MultisigState) := do
  ctx.requireAuth executer
  let prop ← Table.getRow s.proposals ⟨proposer, proposalName⟩ "proposal not found"
  let header ← unpackHeader prop.packedTransaction
  check (ctx.now.secSinceEpoch ≤ header.expiration) "transaction expired"
  match s.approvals.find? ⟨proposer, proposalName⟩ with
  | some info =>
    let approvals := (info.providedApprovals.filter s.isStanding).map Approval.level
    return (prop, approvals,
      { s with approvals := s.approvals.erase ⟨proposer, proposalName⟩ })
  | none =>
    let info ← Table.getRow s.oldApprovals ⟨proposer, proposalName⟩ "proposal not found"
    let approvals := info.providedApprovals.filter fun level =>
      s.invalidations.find? level.actor = none
    return (prop, approvals,
      { s with oldApprovals := s.oldApprovals.erase ⟨proposer, proposalName⟩ })

/-- The sender id of the transaction of a proposal. -/
def senderId (proposer proposalName : Name) : BitVec 128 :=
  proposer.value.toBitVec.setWidth 128 <<< 64 ||| proposalName.value.toBitVec.setWidth 128

def exec (ctx : MultisigContext) (proposer proposalName executer : Name) (s : MultisigState) :
    Except String MultisigState := do
  let (prop, approvals, s) ← s.execRequest ctx proposer proposalName executer
  check (ctx.isAuthorized prop.packedTransaction approvals) "transaction authorization failed"
  return { s with
    sent := s.sent ++ [⟨senderId proposer proposalName, executer, prop.packedTransaction⟩]
    proposals := s.proposals.erase ⟨proposer, proposalName⟩ }

def invalidate (ctx : MultisigContext) (account : Name) (s : MultisigState) :
    Except String MultisigState := do
  ctx.requireAuth account
  return { s with invalidations := s.invalidations.set account ctx.now }

end MultisigState

/-! ## Runs -/

inductive MultisigAction (H : Type) where
  | propose (proposer proposalName : Name) (requested : List PermissionLevel) (trx : List UInt8)
  | approve (proposer proposalName : Name) (level : PermissionLevel) (proposalHash : Option H)
  | unapprove (proposer proposalName : Name) (level : PermissionLevel)
  | cancel (proposer proposalName canceler : Name)
  | exec (proposer proposalName executer : Name)
  | invalidate (account : Name)

/-- An action together with the context it runs in. -/
structure MultisigCall (H : Type) where
  ctx : MultisigContext
  action : MultisigAction H

namespace MultisigState

variable {H : Type} [BytesChecksum H] [DecidableEq H]

/-- Run one call. -/
def step (s : MultisigState) (call : MultisigCall H) : Except String MultisigState :=
  match call.action with
  | .propose proposer proposalName requested trx =>
    s.propose call.ctx proposer proposalName requested trx
  | .approve proposer proposalName level proposalHash =>
    s.approve call.ctx proposer proposalName level proposalHash
  | .unapprove proposer proposalName level => s.unapprove call.ctx proposer proposalName level
  | .cancel proposer proposalName canceler => s.cancel call.ctx proposer proposalName canceler
  | .exec proposer proposalName executer => s.exec call.ctx proposer proposalName executer
  | .invalidate account => s.invalidate call.ctx account

/-- The state before the first action. -/
def genesis : MultisigState := ⟨∅, ∅, ∅, ∅, []⟩

/-! ## A sample run -/

namespace Sample

/-- In the samples the bytes are their own hash. -/
instance : BytesChecksum (List UInt8) := ⟨id⟩

def alice : Name := Name.ofString "alice"
def bob : Name := Name.ofString "bob"
def first : Name := Name.ofString "first"

/-- The permission that accounts act with. -/
def active (who : Name) : PermissionLevel := ⟨who, Name.ofString "active"⟩

/-- A transaction without actions that expires in March 2021. -/
def trx : List UInt8 := [0x00, 0x10, 0x5e, 0x60, 2, 0, 3, 0, 0, 0, 0, 0, 0, 0, 0, 0]

/-- A context at the given second, in which a transaction needs the permission of alice. -/
def ctx (who : Name) (sec : Int64) : MultisigContext :=
  ⟨⟨[active who]⟩, sec * 1000000, fun _ levels => active alice ∈ levels⟩

def call (who : Name) (sec : Int64) (action : MultisigAction (List UInt8)) :
    MultisigCall (List UInt8) :=
  ⟨ctx who sec, action⟩

/-- Bob takes his approval back, and alice approves again after she has invalidated. -/
def approved : List (MultisigCall (List UInt8)) :=
  [call alice 1600000000 (.propose alice first [active alice, active bob] trx),
    call bob 1600000001 (.approve alice first (active bob) none),
    call alice 1600000001 (.invalidate alice),
    call bob 1600000002 (.unapprove alice first (active bob)),
    call alice 1600000003 (.approve alice first (active alice) (some trx))]

end Sample

end MultisigState

end UxContracts
