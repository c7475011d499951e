import UxContracts.Native.Bandwidth

/-!
# Registration of producers

A producer stakes 10 million UTX to itself before it registers. A producer is never
removed from the tables: `unregprod` and `rmvproducer` deactivate it, and another
registration makes it active again.

The signing authority, the website and the location of a producer are not stored here, since
no other action that is modelled reads them; they are only checked.
-/

namespace UxContracts

namespace SystemState

variable {F : Type}

/-! ## Deactivation -/

/-- `deactivate`. -/
def deactivate (s : SystemState F) (producer : Name) (prod : ProducerInfo F) : SystemState F :=
  { s with producers := s.producers.set producer { prod with isActive := false } }

def unregprod (ctx : Context) (s : SystemState F) (producer : Name) :
    Except String (SystemState F) := do
  requireAuth ctx producer
  let prod ← Table.getRow s.producers producer "producer not found"
  return s.deactivate producer prod

def rmvproducer (ctx : Context) (s : SystemState F) (producer : Name) :
    Except String (SystemState F) := do
  requireAuth ctx systemAccount
  let prod ← Table.getRow s.producers producer "producer not found"
  return s.deactivate producer prod

/-! ## Registration -/

variable [Double F]

/-- The producer has staked 10 million UTX to itself. -/
def checkRegistration (s : SystemState F) (producer : Name) : Except String Unit := do
  let msg := "producer must stake 10 million UTX tokens to self in order to call regproducer"
  let itr ← Table.getRow s.delband ⟨producer, producer⟩ msg
  let totalStaked ← itr.netWeight.add itr.cpuWeight
  check (100000000000 ≤ totalStaked.amount) msg

/-- Register a producer that has a row. When its `producers2` row is introduced, its votes count
    from now on. -/
def reactivate (ctx : Context) (s : SystemState F) (producer : Name) (info : ProducerInfo F) :
    SystemState F :=
  let ct := ctx.now
  let info := { info with
    isActive := true
    lastClaimTime := if info.lastClaimTime = 0 then ct else info.lastClaimTime }
  let s := { s with producers := s.producers.set producer info }
  match s.producers2.find? producer with
  | some _ => s
  | none =>
    { s with producers2 := s.producers2.set producer ⟨Double.ofInt 0, ct⟩ }.updateTotalVotepayShare
      ct (Double.ofInt 0) info.totalVotes

def registerProducer (ctx : Context) (s : SystemState F) (producer : Name) :
    Except String (SystemState F) := do
  s.checkRegistration producer
  let ct := ctx.now
  match s.producers.find? producer with
  | some info => return s.reactivate ctx producer info
  | none =>
    let producers2 ← Table.emplaceRow s.producers2 producer ⟨Double.ofInt 0, ct⟩
    return { s with
      producers := s.producers.set producer ⟨Double.ofInt 0, true, ct⟩
      producers2 := producers2 }

def regproducer (ctx : Context) (s : SystemState F) (producer : Name) (url : String) :
    Except String (SystemState F) := do
  requireAuth ctx producer
  check (url.utf8ByteSize < 512) "url too long"
  s.registerProducer ctx producer

/-- `isValid` is what the chain's library says of the authority. -/
def regproducer2 (ctx : Context) (s : SystemState F) (producer : Name) (isValid : Bool)
    (url : String) : Except String (SystemState F) := do
  requireAuth ctx producer
  check (url.utf8ByteSize < 512) "url too long"
  check isValid "invalid producer authority"
  s.registerProducer ctx producer

end SystemState

end UxContracts
