import UxContracts.Native.Contract
import UxContracts.Native.Producers

/-!
# Managed limits, and all accounts' actions

The system account can pin the RAM, NET or CPU limit of an account with `setacctram`,
`setacctnet` and `setacctcpu`, and let it follow the account's resources again. The three
actions do the same for their resource, so they are one definition over a `Quota`.

`AccountAction` adds these actions and the registration of producers to the actions of the
system contract.
-/

namespace UxContracts

/-! ## Quotas -/

/-- What an account's limit is for. -/
inductive Quota where
  | ram
  | net
  | cpu
deriving DecidableEq

namespace Quota

/-- The bit of `flags1` that says that the limit is managed. -/
def flag : Quota → UInt32
  | ram => 1
  | net => 2
  | cpu => 4

/-- The limit the chain enforces. -/
def ofLimits : Quota → ResourceLimits → Int64
  | ram, l => l.ram
  | net, l => l.net
  | cpu, l => l.cpu

/-- The limits with one of them changed. -/
def setLimit (q : Quota) (l : ResourceLimits) (value : Int64) : ResourceLimits :=
  match q with
  | ram => { l with ram := value }
  | net => { l with net := value }
  | cpu => { l with cpu := value }

/-- What an account owns of the resource. -/
def ofRow : Quota → UserResources → Int64
  | ram, r => r.ramBytes
  | net, r => r.netWeight.amount
  | cpu, r => r.cpuWeight.amount

/-- What an account gets for nothing. -/
def gift : Quota → Int64
  | ram => ramGiftBytes
  | net => 0
  | cpu => 0

/-- The least value that a limit can be pinned to. -/
def least : Quota → Int64
  | ram => 0
  | net => -1
  | cpu => -1

def unmanagedMsg : Quota → String
  | ram => "RAM of account is already unmanaged"
  | net => "Network bandwidth of account is already unmanaged"
  | cpu => "CPU bandwidth of account is already unmanaged"

def invalidMsg : Quota → String
  | ram => "not allowed to set RAM limit to unlimited"
  | net => "invalid value for net_weight"
  | cpu => "invalid value for cpu_weight"

/-- `has_field`. -/
def isManaged (q : Quota) (flags1 : UInt32) : Bool := flags1 &&& q.flag ≠ 0

/-- `set_field`. -/
def setManaged (q : Quota) (flags1 : UInt32) (value : Bool) : UInt32 :=
  if value then flags1 ||| q.flag else flags1 &&& ~~~ q.flag

end Quota

namespace SystemState

variable {F : Type}

/-! ## Pinning a limit -/

/-- The limit that follows the row of an account. -/
def ownLimit (s : SystemState F) (q : Quota) (account : Name) : Int64 :=
  match s.userres.find? account with
  | some r => q.gift + q.ofRow r
  | none => q.gift

/-- Let a limit follow the resources of the account again. -/
def unpinLimit (s : SystemState F) (q : Quota) (account : Name) : Except String (SystemState F) := do
  let l := s.getResourceLimits account
  let voter ← Table.getRow s.voters account q.unmanagedMsg
  check (q.isManaged voter.flags1) q.unmanagedMsg
  let limit := s.ownLimit q account
  let voter := { voter with flags1 := q.setManaged voter.flags1 false }
  return { s with voters := s.voters.set account voter }.setResourceLimits account
    (q.setLimit l limit)

variable [Double F]

/-- Pin a limit to a value. -/
def pinLimit (s : SystemState F) (q : Quota) (account : Name) (value : Int64) :
    Except String (SystemState F) := do
  let l := s.getResourceLimits account
  check (q.least ≤ value) q.invalidMsg
  let voter := (s.voters.find? account).getD VoterInfo.new
  let voter := { voter with flags1 := q.setManaged voter.flags1 true }
  return { s with voters := s.voters.set account voter }.setResourceLimits account
    (q.setLimit l value)

def setacct (ctx : Context) (s : SystemState F) (q : Quota) (account : Name)
    (value : Option Int64) : Except String (SystemState F) := do
  requireAuth ctx systemAccount
  match value with
  | none => s.unpinLimit q account
  | some value => s.pinLimit q account value

def setacctram (ctx : Context) (s : SystemState F) (account : Name) (ramBytes : Option Int64) :
    Except String (SystemState F) :=
  s.setacct ctx .ram account ramBytes

def setacctnet (ctx : Context) (s : SystemState F) (account : Name) (netWeight : Option Int64) :
    Except String (SystemState F) :=
  s.setacct ctx .net account netWeight

def setacctcpu (ctx : Context) (s : SystemState F) (account : Name) (cpuWeight : Option Int64) :
    Except String (SystemState F) :=
  s.setacct ctx .cpu account cpuWeight

end SystemState

/-! ## Runs -/

/-- The action is not a stand-in for actions that are modelled elsewhere. -/
def SystemAction.isDirect {F : Type} : SystemAction F → Bool
  | .producers .. => false
  | _ => true

inductive AccountAction (F : Type) where
  | regproducer (producer : Name) (url : String)
  | regproducer2 (producer : Name) (isValid : Bool) (url : String)
  | unregprod (producer : Name)
  | rmvproducer (producer : Name)
  | setacctram (account : Name) (ramBytes : Option Int64)
  | setacctnet (account : Name) (netWeight : Option Int64)
  | setacctcpu (account : Name) (cpuWeight : Option Int64)
  /-- an action of the system contract or of the token contract -/
  | system (action : SystemAction F) (direct : action.isDirect)

/-- An action together with the context it runs in. -/
structure AccountCall (F : Type) where
  ctx : Context
  action : AccountAction F

namespace SystemState

variable {F : Type} [Double F]

/-- Run one call. -/
def accountStep (s : SystemState F) (call : AccountCall F) : Except String (SystemState F) :=
  let ctx := call.ctx
  match call.action with
  | .regproducer producer url => s.regproducer ctx producer url
  | .regproducer2 producer isValid url => s.regproducer2 ctx producer isValid url
  | .unregprod producer => s.unregprod ctx producer
  | .rmvproducer producer => s.rmvproducer ctx producer
  | .setacctram account ramBytes => s.setacctram ctx account ramBytes
  | .setacctnet account netWeight => s.setacctnet ctx account netWeight
  | .setacctcpu account cpuWeight => s.setacctcpu ctx account cpuWeight
  | .system action _ => s.step ⟨ctx, action⟩

end SystemState

end UxContracts
