import Mathlib.Data.List.MinMax
import UxContracts.Native.Contract

/-!
# Name auctions

Short names are sold by auction. `bidname` places a bid, which is transferred to
`eosio.names`, `bidrefund` pays an outbid bidder back, `onblock` closes the auction of the
highest bid once a day, and `newaccount` uses up a closed one.

The counters that `onblock` keeps of blocks and buckets, which no action reads, are left
out, and so is the deferred `bidrefund` that `bidname` schedules: anyone may run that
action at any time.
-/

namespace UxContracts

def namesAccount : Name := Name.ofString "eosio.names"

/-- Half seconds of a day. -/
def blocksPerDay : UInt32 := 2 * (24 * 3600)

def usecondsPerDay : Int64 := 24 * 3600 * 1000000

/-- The key of the index of bids: open auctions are at its upper end, the highest bid
    first. -/
def NameBid.byHighBid (b : NameBid) : UInt64 := (-b.highBid).toUInt64

/-- The state of the system contract with the rows of auctions. -/
structure AuctionState (F : Type) where
  sys : SystemState F
  /-- the `bidrefunds` rows, in the scope of the name bid on -/
  bidRefunds : Table (Scoped Name Name) Asset
  lastProducerScheduleUpdate : BlockTimestamp
  lastNameClose : BlockTimestamp

namespace AuctionState

variable {F : Type}

/-! ## Bidding -/

/-- Add the bid of an outbid bidder to the refunds of the name. -/
def addRefund (s : AuctionState F) (newname : Name) (current : NameBid) :
    Except String (AuctionState F) := do
  let sym ← s.sys.coreSymbol
  let bid ← Asset.make current.highBid sym
  match s.bidRefunds.find? ⟨newname, current.highBidder⟩ with
  | some amount =>
    let amount ← amount.add bid
    return { s with bidRefunds := s.bidRefunds.set ⟨newname, current.highBidder⟩ amount }
  | none => return { s with bidRefunds := s.bidRefunds.set ⟨newname, current.highBidder⟩ bid }

/-- Replace the high bid of a name, or make the first one. -/
def placeBid (ctx : Context) (s : AuctionState F) (bidder newname : Name) (bid : Int64) :
    Except String (AuctionState F) :=
  match s.sys.bids.find? newname with
  | none =>
    return { s with sys := { s.sys with bids := s.sys.bids.set newname ⟨bidder, bid, ctx.now⟩ } }
  | some current => do
    check (0 < current.highBid) "this auction has already closed"
    check (current.highBid / 10 < bid - current.highBid) "must increase bid by 10%"
    check (current.highBidder ≠ bidder) "account is already highest bidder"
    -- the `bidrefund` that the source defers is a call of its own
    let s ← s.addRefund newname current
    return { s with sys := { s.sys with bids := s.sys.bids.set newname ⟨bidder, bid, ctx.now⟩ } }

def bidname (ctx : Context) (s : AuctionState F) (bidder newname : Name) (bid : Asset) :
    Except String (AuctionState F × List InlineAction) := do
  requireAuth ctx bidder
  check (newname.suffix = newname) "you can only bid on top-level suffix"
  check newname.isSet "the empty name is not a valid account name to bid on"
  check (newname.value &&& 0xF = 0) "13 character names are not valid account names to bid on"
  check (newname.value &&& 0x1F0 = 0)
    "accounts with 12 character names and no dots can be created without bidding required"
  check (¬ ctx.isAccount newname) "account already exists"
  let sym ← s.sys.coreSymbol
  check (bid.symbol = sym) "asset must be system token"
  check (0 < bid.amount) "insufficient bid"
  let memo := "bid name " ++ String.ofList newname.toText
  let s ← s.placeBid ctx bidder newname bid.amount
  return (s, [⟨[bidder], .transfer bidder namesAccount bid memo⟩])

/-- Pay back what a bidder has got back for a name. -/
def bidrefund (s : AuctionState F) (bidder newname : Name) :
    Except String (AuctionState F × List InlineAction) := do
  let amount ← Table.getRow s.bidRefunds ⟨newname, bidder⟩ "refund not found"
  let memo := "refund bid on name " ++ String.ofList newname.toText
  return ({ s with bidRefunds := s.bidRefunds.erase ⟨newname, bidder⟩ },
    [⟨[namesAccount, bidder], .transfer namesAccount bidder amount memo⟩])

/-! ## Closing an auction -/

/-- The first bid at or after the middle of the index, with its name. -/
def highestBid (s : AuctionState F) : Option (Name × NameBid) :=
  (s.sys.bids.rows.filter fun r => 0xFFFFFFFFFFFFFFFF / 2 ≤ r.2.byHighBid).argmin
    fun r => r.2.byHighBid.toNat

/-- Close the auction of the highest bid, if it has stood for a day. -/
def closeAuction (ctx : Context) (s : AuctionState F) (timestamp : BlockTimestamp) :
    Except String (AuctionState F × List InlineAction) :=
  match s.highestBid with
  | none => return (s, [])
  | some (newname, highest) =>
    let activated := s.sys.gstate.threshActivatedStakeTime
    if 0 < highest.highBid ∧ usecondsPerDay < ctx.now - highest.lastBidTime ∧ 0 < activated ∧
        14 * usecondsPerDay < ctx.now - activated then do
      let sym ← s.sys.coreSymbol
      let bid ← Asset.make highest.highBid sym
      let closed := { highest with highBid := -highest.highBid }
      return ({ s with
          sys := { s.sys with bids := s.sys.bids.set newname closed }
          lastNameClose := timestamp },
        [⟨[namesAccount], .transfer namesAccount upayAccount bid "winning auction bid"⟩])
    else return (s, [])

variable [Double F]

/-- The rows that are scheduled: up to 21 active ones with votes from the start of the index. -/
def topRows (s : AuctionState F) : List (Name × ProducerInfo F) :=
  ((rankedProducers s.sys.producers).takeWhile fun r =>
    Double.ofInt 0 < r.2.totalVotes ∧ r.2.isActive).take 21

/-- The number of producers to be scheduled. -/
def topProducers (s : AuctionState F) : Nat := s.topRows.length

/-- The producers to be scheduled, in the order of the index. The schedule has them in the order
    of their names. -/
def topProducerNames (s : AuctionState F) : List Name := s.topRows.map Prod.fst

/-- `accepted` is whether the chain accepts the schedule that it is given. -/
def updateElectedProducers (s : AuctionState F) (blockTime : BlockTimestamp) (accepted : Bool) :
    AuctionState F :=
  let s := { s with lastProducerScheduleUpdate := blockTime }
  let top := s.topProducers
  if top = 0 ∨ top < s.sys.gstate.lastProducerScheduleSize.toNat then s
  -- only a schedule that is accepted sets the size
  else if accepted then { s with
    sys := { s.sys with
      gstate := { s.sys.gstate with lastProducerScheduleSize := top.toUInt16 } } }
  else s

/-- Run by the chain at the start of each block. -/
def onblock (ctx : Context) (s : AuctionState F) (timestamp : BlockTimestamp) (accepted : Bool) :
    Except String (AuctionState F × List InlineAction) := do
  requireAuth ctx systemAccount
  if s.sys.gstate.threshActivatedStakeTime = 0 then return (s, [])
  -- once a minute, in slots of half a second
  else if 120 < timestamp - s.lastProducerScheduleUpdate then
    let s := s.updateElectedProducers timestamp accepted
    if blocksPerDay < timestamp - s.lastNameClose then s.closeAuction ctx timestamp
    else return (s, [])
  else return (s, [])

end AuctionState

/-! ## Runs -/

inductive AuctionAction (F : Type) where
  | bidname (bidder newname : Name) (bid : Asset)
  | bidrefund (bidder newname : Name)
  | onblock (timestamp : BlockTimestamp) (accepted : Bool)
  /-- an action of the system contract, `newaccount` among them, or of the token contract -/
  | system (action : SystemAction F)

/-- An action together with the context it runs in. -/
structure AuctionCall (F : Type) where
  ctx : Context
  action : AuctionAction F

namespace AuctionState

variable {F : Type}

/-- Run the inline actions that an action has sent after it. -/
def commit (ctx : Context) (r : Except String (AuctionState F × List InlineAction)) :
    Except String (AuctionState F) := do
  let (s, sends) ← r
  let token ← SystemState.runInline ctx s.sys.token sends
  return { s with sys := { s.sys with token := token } }

variable [Double F]

/-- Run one call. -/
def step (s : AuctionState F) (call : AuctionCall F) : Except String (AuctionState F) :=
  let ctx := call.ctx
  match call.action with
  | .bidname bidder newname bid => commit ctx (s.bidname ctx bidder newname bid)
  | .bidrefund bidder newname => commit ctx (s.bidrefund bidder newname)
  | .onblock timestamp accepted => commit ctx (s.onblock ctx timestamp accepted)
  | .system action => do
    let sys ← s.sys.step ⟨ctx, action⟩
    return { s with sys := sys }

/-! ## A sample run -/

namespace Sample

open SystemState.Sample

def com : Name := Name.ofString "com"

/-- A context in which every account but `com` exists. -/
def ctx (auth : List Name) (sec : Int64) : Context := ⟨auth, sec * 1000000, fun n => n ≠ com⟩

/-- No auction has begun. -/
def start : AuctionState Rat := ⟨SystemState.Sample.start, ∅, 0, 0⟩

/-- Bob gets some tokens and outbids alice. -/
def bids : List (AuctionCall Rat) :=
  [⟨ctx [eosioAccount] launch, .system (.token (.transfer eosioAccount bob (utx 50000) ""))⟩,
    ⟨ctx [alice] launch, .bidname alice com (utx 10000)⟩,
    ⟨ctx [bob] (launch + 60), .bidname bob com (utx 20000)⟩]

end Sample

end AuctionState

end UxContracts
