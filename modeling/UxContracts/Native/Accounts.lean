import UxContracts.Native.Auction

/-!
# Accounts

The chain knows which accounts exist. It makes an account before `newaccount` runs, refuses a
name that is taken, and keeps limits for existing accounts only. Nothing removes an account.
-/

namespace UxContracts

/-- The state of the contract with the accounts that exist. -/
structure ChainState (F : Type) where
  auction : AuctionState F
  accounts : List Name

namespace AuctionAction

variable {F : Type}

/-- The account that an action makes. -/
def created : AuctionAction F → Option Name
  | .system (.newaccount _ newact) => some newact
  | _ => none

/-- The account whose limits an action reads and sets. -/
def limited : AuctionAction F → Option Name
  | .system (.buyram _ receiver _) | .system (.buyrambytes _ receiver _) => some receiver
  | .system (.sellram account _) => some account
  | .system (.delegatebw _ receiver ..) | .system (.undelegatebw _ receiver ..) => some receiver
  | _ => none

end AuctionAction

namespace ChainState

variable {F : Type}

/-- What an action can ask the chain. -/
def context (w : ChainState F) (ctx : Context) : Context :=
  { ctx with isAccount := fun n => n ∈ w.accounts }

variable [Double F]

/-- Run one call; what its context says of accounts is replaced. -/
def step (w : ChainState F) (call : AuctionCall F) : Except String (ChainState F) := do
  check (∀ n ∈ call.action.created, n ∉ w.accounts)
    "Cannot create account, as that name is already taken"
  check (∀ n ∈ call.action.limited, n ∈ w.accounts) "unknown account"
  let auction ← w.auction.step ⟨w.context call.ctx, call.action⟩
  return ⟨auction, call.action.created.toList ++ w.accounts⟩

end ChainState

end UxContracts
