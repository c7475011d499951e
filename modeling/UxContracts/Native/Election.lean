import UxContracts.Native.Auction
import UxContracts.Native.Limits
import UxContracts.Native.ProducerRows
import UxContracts.Native.Producers

/-!
# The election of producers

A producer registers with an authority that signs its blocks. At most once a minute `onblock`
proposes a schedule to the chain: up to 21 producers from the start of the index of votes, in the
order of their names, each with its authority.

The fields of a row that only registration and scheduling read are kept in a table of their own,
next to the rows of the system contract.
-/

namespace UxContracts

/-- The fields of a row of `producers` that are not in `ProducerInfo`. -/
structure Signing (K : Type) where
  producerKey : K
  url : String
  unpaidBlocks : UInt32
  location : UInt16
  producerAuthority : Option (BlockSigningAuthority K)
deriving DecidableEq

/-- `producer_authority`, an entry of a schedule. -/
structure ProducerAuthority (K : Type) where
  producerName : Name
  authority : BlockSigningAuthority K
deriving DecidableEq

/-- The value is a number: `NaN` is not at most itself. -/
def Double.isNumber {F : Type} [Double F] (x : F) : Prop := x ≤ x

instance {F : Type} [Double F] (x : F) : Decidable (Double.isNumber x) :=
  inferInstanceAs (Decidable (x ≤ x))

/-- The state of the system contract with the fields for scheduling. -/
structure ElectionState (F K : Type) where
  auction : AuctionState F
  signing : Table Name (Signing K)

namespace ElectionState

variable {F K : Type}

def sys (w : ElectionState F K) : SystemState F := w.auction.sys

def setSys (w : ElectionState F K) (sys : SystemState F) : ElectionState F K :=
  { w with auction := { w.auction with sys := sys } }

/-- The system contract is what has been stored. -/
@[simp] theorem sys_setSys (w : ElectionState F K) (sys : SystemState F) :
    (w.setSys sys).sys = sys := rfl

variable [Inhabited K]

/-- The fields of a producer; a new row has the default ones. -/
def signingOf (w : ElectionState F K) (producer : Name) : Signing K :=
  (w.signing.find? producer).getD ⟨default, "", 0, 0, none⟩

/-- The row of a producer. -/
def stored (w : ElectionState F K) (producer : Name) (info : ProducerInfo F) :
    StoredProducer F K :=
  let signing := w.signingOf producer
  ⟨producer, info.totalVotes, signing.producerKey, info.isActive, signing.url,
    signing.unpaidBlocks, info.lastClaimTime, signing.location, signing.producerAuthority⟩

/-- Store the fields of a row that are not in `ProducerInfo`. -/
def setStored (w : ElectionState F K) (p : StoredProducer F K) : ElectionState F K :=
  { w with
    signing := w.signing.set p.owner
      ⟨p.producerKey, p.url, p.unpaidBlocks, p.location, p.producerAuthority⟩ }

/-! ## Deactivation -/

/-- A deactivated row loses its key and its authority as well. -/
def deactivate (w : ElectionState F K) (producer : Name) (prod : ProducerInfo F) :
    ElectionState F K :=
  (w.setStored (w.stored producer prod).deactivate).setSys (w.sys.deactivate producer prod)

def unregprod (ctx : Context) (w : ElectionState F K) (producer : Name) :
    Except String (ElectionState F K) := do
  requireAuth ctx producer
  let prod ← Table.getRow w.sys.producers producer "producer not found"
  return w.deactivate producer prod

def rmvproducer (ctx : Context) (w : ElectionState F K) (producer : Name) :
    Except String (ElectionState F K) := do
  requireAuth ctx systemAccount
  let prod ← Table.getRow w.sys.producers producer "producer not found"
  return w.deactivate producer prod

/-! ## Registration -/

variable [Double F]

/-- The authority is stored, and its key as well if it has a single one. -/
def registerProducer (ctx : Context) (w : ElectionState F K) (producer : Name)
    (producerAuthority : BlockSigningAuthority K) (url : String) (location : UInt16) :
    Except String (ElectionState F K) := do
  let sys ← w.sys.registerProducer ctx producer
  let producerKey := match producerAuthority.keys with
    | [k] => k.key
    | _ => default
  let signing := { w.signingOf producer with
    producerKey := producerKey
    url := url
    location := location
    producerAuthority := some producerAuthority }
  return { w.setSys sys with signing := w.signing.set producer signing }

def regproducer (ctx : Context) (w : ElectionState F K) (producer : Name) (producerKey : K)
    (url : String) (location : UInt16) : Except String (ElectionState F K) := do
  requireAuth ctx producer
  check (url.utf8ByteSize < 512) "url too long"
  w.registerProducer ctx producer (convertToBlockSigningAuthority producerKey) url location

/-- `isValid` is `is_valid` of the chain's library. -/
def regproducer2 (isValid : BlockSigningAuthority K → Bool) (ctx : Context)
    (w : ElectionState F K) (producer : Name) (producerAuthority : BlockSigningAuthority K)
    (url : String) (location : UInt16) : Except String (ElectionState F K) := do
  requireAuth ctx producer
  check (url.utf8ByteSize < 512) "url too long"
  check (isValid producerAuthority) "invalid producer authority"
  w.registerProducer ctx producer producerAuthority url location

/-! ## Scheduling -/

/-- The producers to be scheduled with their locations. -/
def topProducers (w : ElectionState F K) : List (ProducerAuthority K × UInt16) :=
  w.auction.topRows.map fun r =>
    let p := w.stored r.1 r.2
    (⟨p.owner, p.getProducerAuthority⟩, p.location)

/-- The schedule that `update_elected_producers` proposes, if it proposes one. -/
def proposedSchedule (w : ElectionState F K) : Option (List (ProducerAuthority K)) :=
  let top := w.topProducers
  if top.length = 0 ∨ top.length < w.sys.gstate.lastProducerScheduleSize.toNat then none
  else
    -- sort by producer name
    let sorted := top.insertionSort fun a b => a.1.producerName ≤ b.1.producerName
    some (sorted.map Prod.fst)

/-- `accepted` is whether the chain accepts the schedule that it is given. -/
def updateElectedProducers (w : ElectionState F K) (blockTime : BlockTimestamp)
    (accepted : Bool) : ElectionState F K :=
  let w := { w with auction := { w.auction with lastProducerScheduleUpdate := blockTime } }
  match w.proposedSchedule with
  | none => w
  | some producers =>
    if accepted then w.setSys { w.sys with
      gstate := { w.sys.gstate with lastProducerScheduleSize := producers.length.toUInt16 } }
    else w

/-- Count a block for its producer, which may have no row. -/
def countBlock (w : ElectionState F K) (producer : Name) : ElectionState F K :=
  match w.sys.producers.find? producer with
  | some prod => w.setStored (w.stored producer prod).countBlock
  | none => w

/-- Run by the chain at the start of each block, which `producer` has produced. -/
def onblock (ctx : Context) (w : ElectionState F K) (timestamp : BlockTimestamp)
    (producer : Name) (accepted : Bool) :
    Except String (ElectionState F K × List InlineAction) := do
  requireAuth ctx systemAccount
  if w.sys.gstate.threshActivatedStakeTime = 0 then return (w, [])
  else
    let w := w.countBlock producer
    if 120 < timestamp - w.auction.lastProducerScheduleUpdate then
      let w := w.updateElectedProducers timestamp accepted
      if blocksPerDay < timestamp - w.auction.lastNameClose then
        let (auction, sends) ← w.auction.closeAuction ctx timestamp
        return ({ w with auction := auction }, sends)
      else return (w, [])
    else return (w, [])

end ElectionState

/-! ## Runs -/

inductive ElectionAction (F K : Type) where
  | regproducer (producer : Name) (producerKey : K) (url : String) (location : UInt16)
  | regproducer2 (producer : Name) (producerAuthority : BlockSigningAuthority K) (url : String)
      (location : UInt16)
  | unregprod (producer : Name)
  | rmvproducer (producer : Name)
  | onblock (timestamp : BlockTimestamp) (producer : Name) (accepted : Bool)
  /-- an action of the system contract, voting among them, or of the token contract -/
  | system (action : SystemAction F) (direct : action.isDirect)

/-- An action together with the context it runs in. -/
structure ElectionCall (F K : Type) where
  ctx : Context
  action : ElectionAction F K

namespace ElectionState

variable {F K : Type} [Inhabited K] [Double F]

/-- Run the inline actions that an action has sent after it. -/
def commit (ctx : Context) (r : Except String (ElectionState F K × List InlineAction)) :
    Except String (ElectionState F K) := do
  let (w, sends) ← r
  let token ← SystemState.runInline ctx w.sys.token sends
  return w.setSys { w.sys with token := token }

/-- Run one action. -/
def run (isValid : BlockSigningAuthority K → Bool) (w : ElectionState F K)
    (call : ElectionCall F K) : Except String (ElectionState F K) :=
  let ctx := call.ctx
  match call.action with
  | .regproducer producer producerKey url location =>
    w.regproducer ctx producer producerKey url location
  | .regproducer2 producer producerAuthority url location =>
    w.regproducer2 isValid ctx producer producerAuthority url location
  | .unregprod producer => w.unregprod ctx producer
  | .rmvproducer producer => w.rmvproducer ctx producer
  | .onblock timestamp producer accepted =>
    commit ctx (w.onblock ctx timestamp producer accepted)
  | .system action _ => do
    let sys ← w.sys.step ⟨ctx, action⟩
    return w.setSys sys

/-- Run one call. The chain refuses a key of the index of votes that is no number. -/
def step (isValid : BlockSigningAuthority K → Bool) (w : ElectionState F K)
    (call : ElectionCall F K) : Except String (ElectionState F K) := do
  let w ← w.run isValid call
  check (∀ r ∈ w.sys.producers.rows, Double.isNumber r.2.totalVotes)
    "NaN is not an allowed value for a secondary key"
  return w

end ElectionState

end UxContracts
