import UxContracts.Native.Bandwidth

/-!
# Runs of the system contract

A run starts in `genesis`, where no table has a row, and is a list of calls: actions
of the system contract, actions of the token contract, and what other actions do to
the `producers` table. A failed call has no effect (`Run.next`).
-/

namespace UxContracts

/-- The actions of the system contract that are modelled, with what may happen between
    them. -/
inductive SystemAction (F : Type) where
  | init (version : UInt32) (core : Symbol)
  | newaccount (creator newact : Name)
  | setram (maxRamSize : UInt64)
  | setramrate (bytesPerBlock : UInt16)
  | buyram (payer receiver : Name) (quant : Asset)
  | buyrambytes (payer receiver : Name) (bytes : UInt32)
  | sellram (account : Name) (bytes : Int64)
  | delegatebw (from_ receiver : Name) (stakeNetQuantity stakeCpuQuantity : Asset)
      (transfer : Bool)
  | undelegatebw (from_ receiver : Name) (unstakeNetQuantity unstakeCpuQuantity : Asset)
  | refund (owner : Name)
  | voteproducer (voterName proxy : Name) (producers : List Name)
  | regproxy (proxy : Name) (isproxy : Bool)
  /-- an action of the token contract -/
  | token (action : TokenAction)
  /-- producers are registered, removed, paid and scheduled by actions that are not
      modelled; they may leave any `producers` tables and any schedule size behind -/
  | producers (producers : Table Name (ProducerInfo F)) (producers2 : Table Name (ProducerInfo2 F))
      (scheduleSize : UInt16)

/-- An action together with the context it runs in. -/
structure SystemCall (F : Type) where
  ctx : Context
  action : SystemAction F

namespace SystemState

variable {F : Type}

/-- Run the inline actions that an action has sent after it. -/
def commit (ctx : Context) (r : Except String (SystemState F × List InlineAction)) :
    Except String (SystemState F) := do
  let (s, sends) ← r
  let token ← runInline ctx s.token sends
  return { s with token := token }

/-- The inline actions ran on the token tables of the action. -/
theorem commit_eq_ok {ctx : Context} {r : Except String (SystemState F × List InlineAction)}
    {s' : SystemState F} :
    commit ctx r = .ok s' ↔ ∃ s sends token, r = .ok (s, sends) ∧
      runInline ctx s.token sends = .ok token ∧ s' = { s with token := token } := by
  simp only [commit, bind_eq_ok, pure_eq_ok]
  constructor
  · rintro ⟨⟨s, sends⟩, hr, token, ht, rfl⟩
    exact ⟨s, sends, token, hr, ht, rfl⟩
  · rintro ⟨s, sends, token, hr, ht, rfl⟩
    exact ⟨(s, sends), hr, token, ht, rfl⟩

variable [Double F]

/-- The state before the first action: `eosio_global_state` has its default values and
    the two limits of the blockchain parameters. -/
def genesis (maxBlockNetUsage : UInt64) (maxBlockCpuUsage : UInt32) : SystemState F where
  token := .init
  gstate := ⟨maxBlockNetUsage, maxBlockCpuUsage, 9 * 1024 * 1024 * 1024, 0, 0, 0, 0, 0,
    Double.ofInt 0⟩
  gstate2 := ⟨0, 0, Double.ofInt 0⟩
  gstate3 := ⟨0, Double.ofInt 0⟩
  rammarket := none
  voters := ∅
  producers := ∅
  producers2 := ∅
  userres := ∅
  delband := ∅
  refunds := ∅
  bids := ∅
  rexbalance := ∅
  rexpool := none
  limits := ∅
  deferred := ∅

/-- Nothing has been staked, bought or voted for yet, and there is no REX. -/
structure EmptyTables (s : SystemState F) : Prop where
  voters : s.voters = ∅
  userres : s.userres = ∅
  delband : s.delband = ∅
  refunds : s.refunds = ∅
  rexbalance : s.rexbalance = ∅

/-- The chain starts with empty tables. -/
theorem genesis_emptyTables (maxBlockNetUsage : UInt64) (maxBlockCpuUsage : UInt32) :
    (genesis maxBlockNetUsage maxBlockCpuUsage : SystemState F).EmptyTables :=
  ⟨rfl, rfl, rfl, rfl, rfl⟩

/-- Run one call. -/
def step (s : SystemState F) (call : SystemCall F) : Except String (SystemState F) :=
  let ctx := call.ctx
  match call.action with
  | .init version core => commit ctx (s.init ctx version core)
  | .newaccount creator newact => s.newaccount creator newact
  | .setram maxRamSize => s.setram ctx maxRamSize
  | .setramrate bytesPerBlock => s.setramrate ctx bytesPerBlock
  | .buyram payer receiver quant => commit ctx (s.buyram ctx payer receiver quant)
  | .buyrambytes payer receiver bytes => commit ctx (s.buyrambytes ctx payer receiver bytes)
  | .sellram account bytes => commit ctx (s.sellram ctx account bytes)
  | .delegatebw from_ receiver net cpu transfer =>
    commit ctx (s.delegatebw ctx from_ receiver net cpu transfer)
  | .undelegatebw from_ receiver net cpu => commit ctx (s.undelegatebw ctx from_ receiver net cpu)
  | .refund owner => commit ctx (s.refund ctx owner)
  | .voteproducer voterName proxy producers => s.voteproducer ctx voterName proxy producers
  | .regproxy proxy isproxy => s.regproxy ctx proxy isproxy
  | .token action => do
    let token ← s.token.step ⟨ctx, action⟩
    return { s with token := token }
  | .producers producers producers2 scheduleSize =>
    .ok { s with
      producers := producers
      producers2 := producers2
      gstate := { s.gstate with lastProducerScheduleSize := scheduleSize } }

/-- A transaction on the token writes to the token alone. -/
theorem step_token_spec {ctx : Context} {s s' : SystemState F} {action : TokenAction}
    (h : s.step ⟨ctx, .token action⟩ = .ok s') :
    ∃ token, s.token.step ⟨ctx, action⟩ = .ok token ∧ s' = { s with token := token } := by
  simp only [step, bind_eq_ok, pure_eq_ok] at h
  obtain ⟨token, ht, rfl⟩ := h
  exact ⟨token, ht, rfl⟩

/-! ## A sample run -/

namespace Sample

/-- A context at the given second, in which every account exists. -/
def ctx (auth : List Name) (sec : Int64) : Context := ⟨auth, sec * 1000000, fun _ => true⟩

def alice : Name := Name.ofString "alice"
def bob : Name := Name.ofString "bob"

def core : Symbol := ⟨SymbolCode.ofString "UTX", 4⟩

def utx (amount : Int64) : Asset := ⟨amount, core⟩
def utxram (amount : Int64) : Asset := ⟨amount, ramcoreSymbol⟩

/-- A second in September 2020. -/
def launch : Int64 := 1600000000

/-- Both tokens are created and issued, the contract is initialised, and alice gets some
    of each token. -/
def setup : List (SystemCall Rat) :=
  [⟨ctx [tokenAccount] launch, .token (.create eosioAccount (utx 100000000000000))⟩,
    ⟨ctx [tokenAccount] launch, .token (.create eosioAccount (utxram 1000000000000))⟩,
    ⟨ctx [eosioAccount] launch, .token (.issue eosioAccount (utx 10000000000000) "")⟩,
    ⟨ctx [eosioAccount] launch, .token (.issue eosioAccount (utxram 1000000000000) "")⟩,
    ⟨ctx [systemAccount] launch, .init 0 core⟩,
    ⟨ctx [eosioAccount] launch, .token (.transfer eosioAccount alice (utx 100000) "")⟩,
    ⟨ctx [eosioAccount] launch, .token (.transfer eosioAccount alice (utxram 500000000000) "")⟩]

/-- The state after the setup. -/
def start : SystemState Rat := Run.exec step (genesis 1048576 200000) setup

end Sample

end SystemState

end UxContracts
