import UxContracts.Native.Contract

/-!
# Deferred refunds

`changebw` schedules a refund as a deferred transaction, under the account it belongs to. The chain
takes the transaction when its delay is over and runs it, or it fails without running, for example
because it has expired or could not be paid for. The delay is left out: a refund may run at any time.
-/

namespace UxContracts

/-- A call, or what the chain does with a deferred refund. -/
inductive ChainEvent (F : Type) where
  | call (call : SystemCall F)
  /-- the scheduled refund of `sender` is run -/
  | execute (ctx : Context) (sender : Name)
  /-- the scheduled refund of `sender` fails without running -/
  | fail (sender : Name)

namespace SystemState

variable {F : Type}

/-- Take a deferred transaction. -/
def takeDeferred (s : SystemState F) (sender : Name) :
    Except String (SystemState F × DeferredRefund) := do
  let trx ← Table.getRow s.deferred sender "deferred transaction not found"
  return ({ s with deferred := s.deferred.erase sender }, trx)

variable [Double F]

/-- A deferred transaction that fails changes nothing else. -/
def chainStep (s : SystemState F) : ChainEvent F → Except String (SystemState F)
  | .call call => s.step call
  | .execute ctx sender => do
    let (s, trx) ← s.takeDeferred sender
    return Run.next step s ⟨ctx.withAuth [trx.owner], .refund trx.owner⟩
  | .fail sender => do
    let (s, _) ← s.takeDeferred sender
    return s

end SystemState

end UxContracts
