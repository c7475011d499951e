import UxContracts.Native.Chain

/-!
# Verifications of users

The contract `eosio.info` keeps which keys of a user have been verified, and by whom. The
system account says who the providers are and which keys there are, the providers add and
delete the verifications, and a user writes keys of their own.

The rows of a provider are a table of their own, the scope of the provider; a scope without
rows is the empty table.
-/

namespace UxContracts

/-! ## Tables -/

/-- What a key refers to. A key is either for verifications or for the users themselves. -/
structure Keytype where
  definition : String
  user : Bool
deriving DecidableEq, Repr

/-- A key of a user that a provider has verified. -/
structure Userverif where
  user : Name
  verificationKey : Name
  timestamp : TimePoint
deriving DecidableEq, Repr

/-- A key that a user has written. -/
structure Userkey where
  user : Name
  key : Name
  memo : String
deriving DecidableEq, Repr

/-- Two numbers in one of twice the width. -/
def compositeKey (x y : UInt64) : BitVec 128 :=
  (x.toBitVec.setWidth 128 <<< 64) ||| y.toBitVec.setWidth 128

/-- A composite key determines both of its halves. -/
theorem compositeKey_inj {x y x' y' : UInt64} :
    compositeKey x y = compositeKey x' y' ↔ x = x' ∧ y = y' := by
  constructor
  · intro h
    have hbit : ∀ i, (compositeKey x y).getLsbD i = (compositeKey x' y').getLsbD i := by
      intro i
      rw [h]
    constructor
    · -- the upper half
      apply UInt64.toBitVec_inj.mp
      apply BitVec.eq_of_getLsbD_eq
      intro i hi
      have hi' := hbit (64 + i)
      have hout : ∀ z : UInt64, z.toBitVec.getLsbD (64 + i) = false := fun z =>
        BitVec.getLsbD_of_ge _ _ (by omega)
      have hnot : ¬ 64 + i < 64 := by omega
      simpa [compositeKey, hout, hnot, show 64 + i < 128 by omega] using hi'
    · -- the lower half
      apply UInt64.toBitVec_inj.mp
      apply BitVec.eq_of_getLsbD_eq
      intro i hi
      have hi' := hbit i
      simpa [compositeKey, hi, show i < 128 by omega] using hi'
  · rintro ⟨rfl, rfl⟩
    rfl

def Userverif.byCkey (r : Userverif) : BitVec 128 :=
  compositeKey r.user.value r.verificationKey.value

def Userkey.byCkey (r : Userkey) : BitVec 128 :=
  compositeKey r.user.value r.key.value

/-- The index tells rows of different users or keys apart. -/
theorem Userverif.byCkey_eq {r : Userverif} {user key : Name} :
    r.byCkey = compositeKey user.value key.value ↔ r.user = user ∧ r.verificationKey = key := by
  obtain ⟨⟨_⟩, ⟨_⟩, _⟩ := r
  cases user
  cases key
  simp [Userverif.byCkey, compositeKey_inj]

structure InfoState where
  /-- a row has no fields next to its key, the account -/
  kycaccounts : Table Name Unit
  keytypes : Table Name Keytype
  userverifs : Table Name (Table Nat Userverif)
  userkeys : Table Nat Userkey

namespace InfoState

/-- The rows in the scope of an account. -/
def userverifsOf (s : InfoState) (kycAccount : Name) : Table Nat Userverif :=
  (s.userverifs.find? kycAccount).getD ∅

def setUserverifs (s : InfoState) (kycAccount : Name) (t : Table Nat Userverif) : InfoState :=
  { s with userverifs := s.userverifs.set kycAccount t }

/-- Storing the rows of one scope leaves the other scopes. -/
theorem userverifsOf_setUserverifs (s : InfoState) (kycAccount kycAccount' : Name)
    (t : Table Nat Userverif) :
    (s.setUserverifs kycAccount t).userverifsOf kycAccount' =
      if kycAccount' = kycAccount then t else s.userverifsOf kycAccount' := by
  unfold userverifsOf setUserverifs
  rw [Table.find?_set]
  split
  · rfl
  · rfl

/-- Storing verifications leaves the providers. -/
@[simp] theorem setUserverifs_kycaccounts (s : InfoState) (kycAccount : Name)
    (t : Table Nat Userverif) :
    (s.setUserverifs kycAccount t).kycaccounts = s.kycaccounts := rfl

/-- Storing verifications leaves the keys. -/
@[simp] theorem setUserverifs_keytypes (s : InfoState) (kycAccount : Name)
    (t : Table Nat Userverif) :
    (s.setUserverifs kycAccount t).keytypes = s.keytypes := rfl

/-- The account is a provider. -/
def IsProvider (s : InfoState) (account : Name) : Prop := (s.kycaccounts.find? account).isSome

instance (s : InfoState) (account : Name) : Decidable (s.IsProvider account) :=
  inferInstanceAs (Decidable (_ = true))

/-! ## Actions -/

def addkycacc (ctx : Context) (s : InfoState) (account : Name) : Except String InfoState := do
  requireAuth ctx eosioAccount
  check (¬ s.IsProvider account) "account already exists"
  return { s with kycaccounts := s.kycaccounts.set account () }

def delkycacc (ctx : Context) (s : InfoState) (account : Name) : Except String InfoState := do
  requireAuth ctx eosioAccount
  check (s.IsProvider account) "kyc account not present"
  return { s with kycaccounts := s.kycaccounts.erase account }

def addkeytype (ctx : Context) (s : InfoState) (key : Name) (definition : String) (user : Bool) :
    Except String InfoState := do
  requireAuth ctx eosioAccount
  check (s.keytypes.find? key = none) "key already exists"
  return { s with keytypes := s.keytypes.set key ⟨definition, user⟩ }

def updkeytype (ctx : Context) (s : InfoState) (key : Name) (definition : String) (user : Bool) :
    Except String InfoState := do
  requireAuth ctx eosioAccount
  let _ ← Table.getRow s.keytypes key "key not present"
  return { s with keytypes := s.keytypes.set key ⟨definition, user⟩ }

/-- The checks with which `adduserver` and `deluserver` both begin. -/
def checkUserver (ctx : Context) (s : InfoState) (kycAccount user verificationKey : Name) :
    Except String Unit := do
  requireAuth ctx kycAccount
  check (s.IsProvider kycAccount) "kyc account not present"
  check (ctx.isAccount user = true) "no account for specified user"
  let keytype ← Table.getRow s.keytypes verificationKey "verification_key not recognized"
  check (keytype.user = false) "verification_key is a user key"

def adduserver (ctx : Context) (s : InfoState) (kycAccount user verificationKey : Name) :
    Except String InfoState := do
  checkUserver ctx s kycAccount user verificationKey
  let table := s.userverifsOf kycAccount
  let ckey := compositeKey user.value verificationKey.value
  check (table.findBy Userverif.byCkey ckey = none) "user verification already present"
  let id ← Table.availablePrimaryKey table
  let table ← Table.emplaceRow table id ⟨user, verificationKey, ctx.now⟩
  return s.setUserverifs kycAccount table

def deluserver (ctx : Context) (s : InfoState) (kycAccount user verificationKey : Name) :
    Except String InfoState := do
  checkUserver ctx s kycAccount user verificationKey
  let table := s.userverifsOf kycAccount
  let ckey := compositeKey user.value verificationKey.value
  let (id, _) ← Table.getBy table Userverif.byCkey ckey "user verification not present"
  return s.setUserverifs kycAccount (table.erase id)

/-- Unlike a verification, a key of the user may be of either type. -/
def setuserkey (ctx : Context) (s : InfoState) (user key : Name) (memo : String) :
    Except String InfoState := do
  requireAuth ctx user
  check (ctx.isAccount user = true) "no account for specified user"
  check (memo.utf8ByteSize ≤ 1024) "memo exceeds permitted length of 1024 chars"
  let _ ← Table.getRow s.keytypes key "key not recognised"
  match s.userkeys.findBy Userkey.byCkey (compositeKey user.value key.value) with
  | none =>
    let id ← Table.availablePrimaryKey s.userkeys
    let userkeys ← Table.emplaceRow s.userkeys id ⟨user, key, memo⟩
    return { s with userkeys := userkeys }
  | some (id, row) => return { s with userkeys := s.userkeys.set id { row with memo := memo } }

def deluserkey (ctx : Context) (s : InfoState) (user key : Name) : Except String InfoState := do
  requireAuth ctx user
  check (ctx.isAccount user = true) "no account for specified user"
  let (id, _) ← Table.getBy s.userkeys Userkey.byCkey (compositeKey user.value key.value)
    "user key not present"
  return { s with userkeys := s.userkeys.erase id }

end InfoState

/-! ## Runs -/

inductive InfoAction where
  | addkycacc (account : Name)
  | delkycacc (account : Name)
  | addkeytype (key : Name) (definition : String) (user : Bool)
  | updkeytype (key : Name) (definition : String) (user : Bool)
  | adduserver (kycAccount user verificationKey : Name)
  | deluserver (kycAccount user verificationKey : Name)
  | setuserkey (user key : Name) (memo : String)
  | deluserkey (user key : Name)
  /-- an account is made by another contract -/
  | newaccount (account : Name)

/-- An action, with the accounts that have authorised it and the time of its block. -/
structure InfoCall where
  auth : List Name
  now : TimePoint
  action : InfoAction

/-- The tables of the contract with the accounts that exist. Nothing removes an account. -/
structure InfoChain where
  info : InfoState
  accounts : List Name

namespace InfoChain

/-- The contract has no rows. -/
def genesis (accounts : List Name) : InfoChain := ⟨⟨∅, ∅, ∅, ∅⟩, accounts⟩

/-- What a call can ask the chain. -/
def context (w : InfoChain) (call : InfoCall) : Context :=
  ⟨call.auth, call.now, fun n => n ∈ w.accounts⟩

/-- Run one call. -/
def step (w : InfoChain) (call : InfoCall) : Except String InfoChain := do
  let ctx := w.context call
  let s := w.info
  match call.action with
  | .addkycacc account => return { w with info := ← s.addkycacc ctx account }
  | .delkycacc account => return { w with info := ← s.delkycacc ctx account }
  | .addkeytype key definition user =>
    return { w with info := ← s.addkeytype ctx key definition user }
  | .updkeytype key definition user =>
    return { w with info := ← s.updkeytype ctx key definition user }
  | .adduserver kycAccount user verificationKey =>
    return { w with info := ← s.adduserver ctx kycAccount user verificationKey }
  | .deluserver kycAccount user verificationKey =>
    return { w with info := ← s.deluserver ctx kycAccount user verificationKey }
  | .setuserkey user key memo => return { w with info := ← s.setuserkey ctx user key memo }
  | .deluserkey user key => return { w with info := ← s.deluserkey ctx user key }
  | .newaccount account => return { w with accounts := account :: w.accounts }

end InfoChain

end UxContracts
