import UxContracts.Native.Deferred
import UxContracts.Native.Election
import UxContracts.Native.Usage

/-!
# The deployed contracts

`eosio.system` and `eosio.token` as they are deployed: every action of the two works on one
state. `ElectionState` has the tables for producers, stakes, auctions and tokens, and
`ResourceState` those of the resource model; both contain the tables of the system contract,
which are kept once here.

Besides the actions there are the deferred refunds, which the chain runs or drops
(`SystemState.chainStep`).
-/

namespace UxContracts

/-- All tables of the two contracts. -/
structure Deployment (F K H : Type) where
  election : ElectionState F K
  config : Option (ResourceConfig F)
  usage : Table Name (SystemUsage H)
  datasets : Table Nat (Dataset H)
  history : Table Nat (UsageHistory F)
  accpay : Table Name AccountPay
  sources : Table Name Source
  prodpay : Table Name ProducerPay

namespace Deployment

variable {F K H : Type}

/-! ## The parts -/

def auction (d : Deployment F K H) : AuctionState F := d.election.auction

def sys (d : Deployment F K H) : SystemState F := d.election.sys

def resource (d : Deployment F K H) : ResourceState F H :=
  ⟨d.sys, d.config, d.usage, d.datasets, d.history, d.accpay, d.sources, d.prodpay⟩

def setAuction (d : Deployment F K H) (auction : AuctionState F) : Deployment F K H :=
  { d with election := { d.election with auction := auction } }

def setSys (d : Deployment F K H) (sys : SystemState F) : Deployment F K H :=
  { d with election := d.election.setSys sys }

def setResource (d : Deployment F K H) (r : ResourceState F H) : Deployment F K H :=
  ⟨d.election.setSys r.sys, r.config, r.usage, r.datasets, r.history, r.accpay, r.sources,
    r.prodpay⟩

/-- The auctions are what has been stored. -/
@[simp] theorem auction_setAuction (d : Deployment F K H) (auction : AuctionState F) :
    (d.setAuction auction).auction = auction := rfl

/-- Storing the auctions stores their system contract. -/
@[simp] theorem sys_setAuction (d : Deployment F K H) (auction : AuctionState F) :
    (d.setAuction auction).sys = auction.sys := rfl

/-- The system contract is what has been stored. -/
@[simp] theorem sys_setSys (d : Deployment F K H) (sys : SystemState F) :
    (d.setSys sys).sys = sys := rfl

/-- The auctions see the system contract that has been stored. -/
@[simp] theorem auction_setSys (d : Deployment F K H) (sys : SystemState F) :
    (d.setSys sys).auction = { d.auction with sys := sys } := rfl

/-- The accounting of usage sees the system contract that has been stored. -/
@[simp] theorem resource_setSys (d : Deployment F K H) (sys : SystemState F) :
    (d.setSys sys).resource = { d.resource with sys := sys } := rfl

/-- The accounting of usage is what has been stored. -/
@[simp] theorem resource_setResource (d : Deployment F K H) (r : ResourceState F H) :
    (d.setResource r).resource = r := rfl

/-- Storing the accounting of usage stores its system contract. -/
@[simp] theorem sys_setResource (d : Deployment F K H) (r : ResourceState F H) :
    (d.setResource r).sys = r.sys := rfl

variable [Double F]

/-- The state before the first action. -/
def genesis (maxBlockNetUsage : UInt64) (maxBlockCpuUsage : UInt32) : Deployment F K H :=
  ⟨⟨⟨.genesis maxBlockNetUsage maxBlockCpuUsage, ∅, 0, 0⟩, ∅⟩, none, ∅, ∅, ∅, ∅, ∅, ∅⟩

end Deployment

/-! ## Runs -/

/-- The action is one of the resource model. -/
def ResourceAction.isOwn {F H : Type} : ResourceAction F H → Bool
  | .system _ => false
  | _ => true

inductive DeploymentAction (F K H : Type) where
  /-- producers, blocks, stakes, votes, RAM, accounts and tokens -/
  | election (action : ElectionAction F K)
  | bidname (bidder newname : Name) (bid : Asset)
  | bidrefund (bidder newname : Name)
  | setacctram (account : Name) (ramBytes : Option Int64)
  | setacctnet (account : Name) (netWeight : Option Int64)
  | setacctcpu (account : Name) (cpuWeight : Option Int64)
  | resource (action : ResourceAction F H) (own : action.isOwn)
  /-- the chain runs the scheduled refund of `sender` -/
  | deferredRefund (sender : Name)
  /-- the scheduled refund of `sender` fails without running -/
  | droppedRefund (sender : Name)

/-- An action together with the context it runs in. -/
structure DeploymentCall (F K H : Type) where
  ctx : Context
  action : DeploymentAction F K H

namespace Deployment

variable {F K H : Type} [Inhabited K] [Checksum H] [Double F]

/-- Run one call. -/
def step (isValid : BlockSigningAuthority K → Bool) (d : Deployment F K H)
    (call : DeploymentCall F K H) : Except String (Deployment F K H) :=
  let ctx := call.ctx
  match call.action with
  | .election action => do
    let election ← d.election.step isValid ⟨ctx, action⟩
    return { d with election := election }
  | .bidname bidder newname bid => do
    let auction ← d.auction.step ⟨ctx, .bidname bidder newname bid⟩
    return d.setAuction auction
  | .bidrefund bidder newname => do
    let auction ← d.auction.step ⟨ctx, .bidrefund bidder newname⟩
    return d.setAuction auction
  | .setacctram account ramBytes => do
    let sys ← d.sys.setacctram ctx account ramBytes
    return d.setSys sys
  | .setacctnet account netWeight => do
    let sys ← d.sys.setacctnet ctx account netWeight
    return d.setSys sys
  | .setacctcpu account cpuWeight => do
    let sys ← d.sys.setacctcpu ctx account cpuWeight
    return d.setSys sys
  | .resource action _ => do
    let r ← d.resource.step ⟨ctx, action⟩
    return d.setResource r
  | .deferredRefund sender => do
    let sys ← d.sys.chainStep (.execute ctx sender)
    return d.setSys sys
  | .droppedRefund sender => do
    let sys ← d.sys.chainStep (.fail sender)
    return d.setSys sys

/-! ## A sample run -/

namespace Sample

open SystemState.Sample

/-- An action of the system contract or of the token contract. -/
def direct (who : Name) (action : SystemAction Rat) (direct : action.isDirect) :
    DeploymentCall Rat Nat (List Char) :=
  ⟨ctx [who] launch, .election (.system action direct)⟩

def call (who : Name) (action : DeploymentAction Rat Nat (List Char)) :
    DeploymentCall Rat Nat (List Char) :=
  ⟨AuctionState.Sample.ctx [who] launch, action⟩

/-- The tokens are created, and the contract is initialised. -/
def launching : List (DeploymentCall Rat Nat (List Char)) :=
  [direct tokenAccount (.token (.create eosioAccount (utx 100000000000000))) rfl,
    direct tokenAccount (.token (.create eosioAccount (utxram 1000000000000))) rfl,
    direct eosioAccount (.token (.issue eosioAccount (utx 10000000000000) "")) rfl,
    direct eosioAccount (.token (.issue eosioAccount (utxram 1000000000000) "")) rfl,
    direct systemAccount (.init 0 core) rfl,
    direct eosioAccount (.token (.transfer eosioAccount alice (utx 100000) "")) rfl,
    direct eosioAccount (.token (.transfer eosioAccount bob (utx 50000) "")) rfl,
    direct eosioAccount (.token (.transfer eosioAccount alice (utxram 500000000000) "")) rfl]

/-- Alice gets a stake and is the producer of a block. She takes a part of her stake back, is
    outbid by bob, buys RAM, and reports usage. -/
def claims : List (DeploymentCall Rat Nat (List Char)) :=
  [direct eosioAccount
      (.delegatebw eosioAccount alice (utx 750000000000) (utx 750000000000) true) rfl,
    call alice (.election (.regproducer alice 1 "https://alice" 0)),
    direct alice (.voteproducer alice ⟨0⟩ [alice]) rfl,
    call systemAccount (.election (.onblock 1000 alice true)),
    direct alice (.undelegatebw alice alice (utx 300) (utx 200)) rfl,
    call alice (.bidname alice AuctionState.Sample.com (utx 10000)),
    call bob (.bidname bob AuctionState.Sample.com (utx 20000)),
    direct alice (.buyram alice alice (utxram 100000)) rfl,
    call systemAccount
      (.resource (.initresource 10 1 1600000000 86400 (1 / 10) (2947 / 10000)) rfl),
    call systemAccount (.resource (.resactivate true) rfl),
    call alice
      (.resource (.settotalusg alice 1000000 2000 "commitment".toList 1600000000) rfl)]

/-- Every authority is accepted. -/
def isValid (_ : BlockSigningAuthority Nat) : Bool := true

def start : Deployment Rat Nat (List Char) := genesis 1048576 200000

end Sample

end Deployment

end UxContracts
