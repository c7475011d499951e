import UxContracts.ForStd.Run
import UxContracts.Native.Asset

/-!
# The token contract

`eosio.token` keeps one `stat` row per symbol code and one balance row per owner
and symbol code. `stat` is scoped by the code that is also its primary key, so a
table keyed by the code alone holds the same rows.

Every function takes the context of the action and the tables, and either returns
the new tables or the text of the check that failed.
-/

namespace UxContracts

/-- A row of `stat`. -/
structure CurrencyStats where
  supply : Asset
  maxSupply : Asset
  issuer : Name
deriving DecidableEq, Repr

/-- The `accounts` rows, scoped by their owner. -/
abbrev Accounts := Table (Scoped Name SymbolCode) Asset

/-- The tables of the token contract. -/
structure TokenState where
  stat : Table SymbolCode CurrencyStats
  accounts : Accounts
deriving DecidableEq

namespace TokenState

/-- No token has been created yet. -/
def init : TokenState := ⟨∅, ∅⟩

/-! ## Balances -/

def subBalance (acnts : Accounts) (owner : Name) (value : Asset) : Except String Accounts := do
  let from_ ← Table.getRow acnts ⟨owner, value.symbol.code⟩ "no balance object found"
  check (value.amount ≤ from_.amount) "overdrawn balance"
  let balance ← from_.sub value
  return acnts.set ⟨owner, value.symbol.code⟩ balance

def addBalance (acnts : Accounts) (owner : Name) (value : Asset) : Except String Accounts :=
  match acnts.find? ⟨owner, value.symbol.code⟩ with
  | none => return acnts.set ⟨owner, value.symbol.code⟩ value
  | some to_ => do
    let balance ← to_.add value
    return acnts.set ⟨owner, value.symbol.code⟩ balance

/-! ## Actions -/

def create (ctx : Context) (s : TokenState) (issuer : Name) (maximumSupply : Asset) :
    Except String TokenState := do
  requireAuth ctx tokenAccount
  let sym := maximumSupply.symbol
  check sym.isValid "invalid symbol name"
  check maximumSupply.isValid "invalid supply"
  check (maximumSupply.amount > 0) "max-supply must be positive"
  check (s.stat.find? sym.code = none) "token with symbol already exists"
  return { s with stat := s.stat.set sym.code ⟨⟨0, maximumSupply.symbol⟩, maximumSupply, issuer⟩ }

def issue (ctx : Context) (s : TokenState) (to_ : Name) (quantity : Asset) (memo : String) :
    Except String TokenState := do
  let sym := quantity.symbol
  check sym.isValid "invalid symbol name"
  check (memo.utf8ByteSize ≤ 256) "memo has more than 256 bytes"
  let st ← Table.getRow s.stat sym.code
    "token with symbol does not exist, create token before issue"
  check (to_ = st.issuer) "tokens can only be issued to issuer account"
  requireAuth ctx st.issuer
  check quantity.isValid "invalid quantity"
  check (quantity.amount > 0) "must issue positive quantity"
  check (quantity.symbol = st.supply.symbol) "symbol precision mismatch"
  check (quantity.amount ≤ st.maxSupply.amount - st.supply.amount)
    "quantity exceeds available supply"
  let supply ← st.supply.add quantity
  let accounts ← addBalance s.accounts st.issuer quantity
  return { stat := s.stat.set sym.code { st with supply := supply }, accounts := accounts }

def retire (ctx : Context) (s : TokenState) (quantity : Asset) (memo : String) :
    Except String TokenState := do
  let sym := quantity.symbol
  check sym.isValid "invalid symbol name"
  check (memo.utf8ByteSize ≤ 256) "memo has more than 256 bytes"
  let st ← Table.getRow s.stat sym.code "token with symbol does not exist"
  requireAuth ctx st.issuer
  check quantity.isValid "invalid quantity"
  check (quantity.amount > 0) "must retire positive quantity"
  check (quantity.symbol = st.supply.symbol) "symbol precision mismatch"
  let supply ← st.supply.sub quantity
  let accounts ← subBalance s.accounts st.issuer quantity
  return { stat := s.stat.set sym.code { st with supply := supply }, accounts := accounts }

def transfer (ctx : Context) (s : TokenState) (from_ to_ : Name) (quantity : Asset)
    (memo : String) : Except String TokenState := do
  check (from_ ≠ to_) "cannot transfer to self"
  requireAuth ctx from_
  check (ctx.isAccount to_) "to account does not exist"
  let st ← Table.getRow s.stat quantity.symbol.code "unable to find key"
  -- telling the parties of the transfer changes nothing here
  check quantity.isValid "invalid quantity"
  check (quantity.amount > 0) "must transfer positive quantity"
  check (quantity.symbol = st.supply.symbol) "symbol precision mismatch"
  check (memo.utf8ByteSize ≤ 256) "memo has more than 256 bytes"
  let accounts ← subBalance s.accounts from_ quantity
  let accounts ← addBalance accounts to_ quantity
  return { s with accounts := accounts }

def openRow (ctx : Context) (s : TokenState) (owner : Name) (symbol : Symbol) (ramPayer : Name) :
    Except String TokenState := do
  requireAuth ctx ramPayer
  check (ctx.isAccount owner) "owner account does not exist"
  let st ← Table.getRow s.stat symbol.code "symbol does not exist"
  check (st.supply.symbol = symbol) "symbol precision mismatch"
  if (s.accounts.find? ⟨owner, symbol.code⟩).isNone then
    let balance ← Asset.make 0 symbol
    return { s with accounts := s.accounts.set ⟨owner, symbol.code⟩ balance }
  else return s

def close (ctx : Context) (s : TokenState) (owner : Name) (symbol : Symbol) :
    Except String TokenState := do
  requireAuth ctx owner
  let it ← Table.getRow s.accounts ⟨owner, symbol.code⟩
    "Balance row already deleted or never existed. Action won't have any effect."
  check (it.amount = 0) "Cannot close because the balance is not zero."
  return { s with accounts := s.accounts.erase ⟨owner, symbol.code⟩ }

/-! ## Reading the tables -/

/-- `get_supply` of the header. -/
def getSupply (s : TokenState) (code : SymbolCode) : Except String Asset := do
  let st ← Table.getRow s.stat code "unable to find key"
  return st.supply

end TokenState

/-! ## Runs -/

/-- The actions of the token contract. `open` is a keyword. -/
inductive TokenAction where
  | create (issuer : Name) (maximumSupply : Asset)
  | issue (to_ : Name) (quantity : Asset) (memo : String)
  | retire (quantity : Asset) (memo : String)
  | transfer (from_ to_ : Name) (quantity : Asset) (memo : String)
  | openRow (owner : Name) (symbol : Symbol) (ramPayer : Name)
  | close (owner : Name) (symbol : Symbol)

/-- An action together with the context it runs in. -/
structure TokenCall where
  ctx : Context
  action : TokenAction

/-- Run one action of the token contract. -/
def TokenState.step (s : TokenState) (call : TokenCall) : Except String TokenState :=
  match call.action with
  | .create issuer maximumSupply => s.create call.ctx issuer maximumSupply
  | .issue to_ quantity memo => s.issue call.ctx to_ quantity memo
  | .retire quantity memo => s.retire call.ctx quantity memo
  | .transfer from_ to_ quantity memo => s.transfer call.ctx from_ to_ quantity memo
  | .openRow owner symbol ramPayer => s.openRow call.ctx owner symbol ramPayer
  | .close owner symbol => s.close call.ctx owner symbol

end UxContracts
