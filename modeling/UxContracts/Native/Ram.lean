import UxContracts.Native.System

/-!
# RAM

RAM is bought and sold at the fixed price of 1.0000 UTXRAM for 1024 bytes. The RAM
for sale grows with time (`update_ram_supply`) and by `setram`.
-/

namespace UxContracts

/-- The system's own account is the only one to run these actions. -/
def systemAccount : Name := eosioAccount

/-- The account of the resource exchange, which is disabled. -/
def rexAccount : Name := Name.ofString "eosio.rex"

/-- The symbol of RAM itself. -/
def ramSymbol : Symbol := ⟨SymbolCode.ofString "RAM", 0⟩

namespace SystemState

variable {F : Type}

/-! ## The supply of RAM -/

/-- Change the base connector of the market; there must be a market. -/
def modifyBase (s : SystemState F) (delta : Int64) : Except String (SystemState F) :=
  match s.rammarket with
  | some m =>
    .ok { s with
      rammarket := some { m with base := { m.base with amount := m.base.amount + delta } } }
  | none => .error "cannot pass end iterator to modify"

/-- The product of slots and rate is taken in 32 bits. -/
def updateRamSupply (ctx : Context) (s : SystemState F) : Except String (SystemState F) :=
  let cbt := ctx.now.toSlot
  if cbt ≤ s.gstate2.lastRamIncrease then .ok s
  else do
    let newRam : UInt32 := (cbt - s.gstate2.lastRamIncrease) * s.gstate2.newRamPerBlock.toUInt32
    let s := { s with
      gstate := { s.gstate with maxRamSize := s.gstate.maxRamSize + newRam.toUInt64 } }
    let s ← s.modifyBase newRam.toUInt64.toInt64
    return { s with gstate2 := { s.gstate2 with lastRamIncrease := cbt } }

def setram (ctx : Context) (s : SystemState F) (maxRamSize : UInt64) :
    Except String (SystemState F) := do
  requireAuth ctx systemAccount
  check (s.gstate.maxRamSize < maxRamSize) "ram may only be increased"
  check (maxRamSize < 1024 * 1024 * 1024 * 1024 * 1024) "ram size is unrealistic"
  check (s.gstate.totalRamBytesReserved < maxRamSize) "attempt to set max below reserved"
  let s ← s.modifyBase (maxRamSize.toInt64 - s.gstate.maxRamSize.toInt64)
  return { s with gstate := { s.gstate with maxRamSize := maxRamSize } }

def setramrate (ctx : Context) (s : SystemState F) (bytesPerBlock : UInt16) :
    Except String (SystemState F) := do
  requireAuth ctx systemAccount
  let s ← s.updateRamSupply ctx
  return { s with gstate2 := { s.gstate2 with newRamPerBlock := bytesPerBlock } }

/-! ## Trading -/

/-- The end of `buyram` and `sellram`: the chain's limit follows the row, unless the
    RAM of the account is managed. -/
def updateRamLimit (s : SystemState F) (owner : Name) (ramBytes : Int64) : SystemState F :=
  if (s.voters.find? owner).all fun v => !v.ramManaged then
    let l := s.getResourceLimits owner
    s.setResourceLimits owner { l with ram := ramBytes + ramGiftBytes }
  else s

/-- Add `bytes` to the row of `receiver`, or make the row. -/
def addRamBytes (s : SystemState F) (receiver : Name) (bytes : Int64) :
    Except String UserResources :=
  match s.userres.find? receiver with
  | none => do
    let sym ← s.coreSymbol
    let zero ← Asset.make 0 sym
    return ⟨zero, zero, bytes⟩
  | some res => return { res with ramBytes := res.ramBytes + bytes }

def buyram (ctx : Context) (s : SystemState F) (payer receiver : Name) (quant : Asset) :
    Except String (SystemState F × List InlineAction) := do
  requireAuth ctx payer
  let s ← s.updateRamSupply ctx
  check (quant.amount % 10000 = 0) "can only buy in exact increments of 1.0000 UTXRAM"
  check (quant.symbol = ramcoreSymbol) "must buy ram with ramcore token"
  check (quant.amount > 0) "must purchase a positive amount"
  let sends : List InlineAction :=
    [⟨[payer, ramAccount], .transfer payer ramAccount quant "buy ram"⟩]
  check s.rammarket.isSome "ram market does not exist"
  let bytesOut := quant.amount / 10000 * 1024
  check (bytesOut > 0) "must reserve a positive amount"
  let s := { s with
    gstate := { s.gstate with
      totalRamBytesReserved := s.gstate.totalRamBytesReserved + bytesOut.toUInt64
      totalRamStake := s.gstate.totalRamStake + quant.amount } }
  let res ← s.addRamBytes receiver bytesOut
  let s := { s with userres := s.userres.set receiver res }
  return (s.updateRamLimit receiver res.ramBytes, sends)

/-- The price of `bytes` is computed in the 32 bits of the argument. -/
def buyrambytes (ctx : Context) (s : SystemState F) (payer receiver : Name) (bytes : UInt32) :
    Except String (SystemState F × List InlineAction) := do
  check (bytes > 0) "must buy positive quantity"
  check (bytes % 1024 = 0) "must buy in exact increments of one kilobyte (1024 bytes)"
  let quant ← Asset.make (bytes / 1024 * 10000).toUInt64.toInt64 ramcoreSymbol
  s.buyram ctx payer receiver quant

def sellram (ctx : Context) (s : SystemState F) (account : Name) (bytes : Int64) :
    Except String (SystemState F × List InlineAction) := do
  requireAuth ctx account
  let s ← s.updateRamSupply ctx
  check (bytes > 0) "cannot sell negative byte"
  check (bytes % 1024 = 0) "can only sell in exact increments of one kilobyte (1024 bytes)"
  let res ← Table.getRow s.userres account "no resource row"
  check (bytes ≤ res.ramBytes) "insufficient quota"
  check s.rammarket.isSome "cannot pass end iterator to modify"
  let tokensOut ← Asset.make (bytes / 1024 * 10000) ramcoreSymbol
  check (tokensOut.amount > 1) "token amount received from selling ram is too low"
  let s := { s with
    gstate := { s.gstate with
      totalRamBytesReserved := s.gstate.totalRamBytesReserved - bytes.toUInt64
      totalRamStake := s.gstate.totalRamStake - tokensOut.amount } }
  -- this shouldn't happen, says the source
  check (0 ≤ s.gstate.totalRamStake)
    "error, attempt to unstake more tokens than previously staked"
  let res := { res with ramBytes := res.ramBytes - bytes }
  let s := { s with userres := s.userres.set account res }
  let sends : List InlineAction :=
    [⟨[ramAccount, account], .transfer ramAccount account tokensOut "sell ram"⟩]
  return (s.updateRamLimit account res.ramBytes, sends)

/-! ## Accounts and initialisation -/

/-- One of the first twelve characters of a name is a dot. -/
def hasDot (newact : Name) : Bool :=
  (List.range 12).any fun i => ((newact.value >>> 4) >>> (5 * i).toUInt64) &&& 0x1F = 0

/-- The bid for a short name, which its winner uses up, or the creator owns the suffix. -/
def claimName (s : SystemState F) (creator newact : Name) : Except String (SystemState F) :=
  if creator ≠ systemAccount ∧ hasDot newact then
    let suffix := newact.suffix
    if suffix = newact then do
      let current ← Table.getRow s.bids newact "no active bid for name"
      check (current.highBidder = creator) "only highest bidder can claim"
      check (current.highBid < 0) "auction for name is not closed yet"
      return { s with bids := s.bids.erase newact }
    else do
      check (creator = suffix) "only suffix may create this account"
      return s
  else .ok s

def newaccount (s : SystemState F) (creator newact : Name) : Except String (SystemState F) := do
  let s ← s.claimName creator newact
  let sym ← s.coreSymbol
  let zero ← Asset.make 0 sym
  let userres ← Table.emplaceRow s.userres newact ⟨zero, zero, 0⟩
  return { s with userres := userres }.setResourceLimits newact ⟨0, 0, 0⟩

def init (ctx : Context) (s : SystemState F) (version : UInt32) (core : Symbol) :
    Except String (SystemState F × List InlineAction) := do
  requireAuth ctx systemAccount
  check (version = 0) "unsupported version for init action"
  check (s.rammarket = none) "system contract has already been initialized"
  let supply ← s.token.getSupply core.code
  check (supply.symbol = core) "specified core symbol does not exist (precision mismatch)"
  check (supply.amount > 0) "system token supply must be greater than 0"
  let market : ExchangeState :=
    ⟨⟨100000000000000, ramcoreSymbol⟩, ⟨s.gstate.freeRam.toInt64, ramSymbol⟩,
      ⟨supply.amount / 1000, core⟩⟩
  return ({ s with rammarket := some market },
    [⟨[systemAccount], .openRow rexAccount core systemAccount⟩])

end SystemState

end UxContracts
