import UxContracts.Native.Info
import UxContracts.ForStd.Run

/-!
# Withdrawing a verification

A provider has at most one row for a user and a key, in every run (`RowsUnique`). `deluserver`
finds that row, but it also asks that the key is not a user key, which was so when the row was
added and need not be so any more: `updkeytype` can make it a user key, and only another
`updkeytype` gets the row out of the way again.

`verifications_withdrawable` says which runs leave every row removable: those in which no
`updkeytype` makes a key of a stored row a user key, and no account becomes a provider while
its scope has a row of such a key.
-/

namespace UxContracts

namespace InfoState

/-- The key is there, and it is for users. -/
def IsUserKey (s : InfoState) (key : Name) : Prop :=
  ∃ keytype, s.keytypes.find? key = some keytype ∧ keytype.user = true

/-- The key is there, and it is for verifications. -/
def IsVerificationKey (s : InfoState) (key : Name) : Prop :=
  ∃ keytype, s.keytypes.find? key = some keytype ∧ keytype.user = false

/-- A key is of one type. -/
theorem IsVerificationKey.not_user {s : InfoState} {key : Name} (h : s.IsVerificationKey key) :
    ¬ s.IsUserKey key := by
  rintro ⟨keytype, hfind, huser⟩
  obtain ⟨keytype', hfind', huser'⟩ := h
  rw [hfind, Option.some.injEq] at hfind'
  subst hfind'
  rw [huser] at huser'
  cases huser'

/-- A key that is there is of one type or the other. -/
theorem isVerificationKey_of_not_user {s : InfoState} {key : Name}
    (h : (s.keytypes.find? key).isSome) (huser : ¬ s.IsUserKey key) : s.IsVerificationKey key := by
  obtain ⟨keytype, hfind⟩ := Option.isSome_iff_exists.mp h
  refine ⟨keytype, hfind, ?_⟩
  cases hk : keytype.user with
  | false => rfl
  | true => exact absurd ⟨keytype, hfind, hk⟩ huser

/-! ## What the actions do -/

variable {ctx : Context} {s s' : InfoState} {kycAccount user verificationKey : Name}

/-- The checks of `adduserver` and `deluserver`. -/
structure MayVerify (ctx : Context) (s : InfoState) (kycAccount user verificationKey : Name) :
    Prop where
  auth : kycAccount ∈ ctx.auth
  provider : s.IsProvider kycAccount
  account : ctx.isAccount user = true
  key : s.IsVerificationKey verificationKey

/-- When a verification may be added or withdrawn. -/
theorem checkUserver_eq_ok {u : Unit} :
    checkUserver ctx s kycAccount user verificationKey = .ok u ↔
      MayVerify ctx s kycAccount user verificationKey := by
  simp only [checkUserver, bind_eq_ok, requireAuth_eq_ok, check_eq_ok, getRow_eq_ok]
  constructor
  · rintro ⟨-, hauth, -, hprovider, -, haccount, keytype, hfind, huser⟩
    exact ⟨hauth, hprovider, haccount, keytype, hfind, huser⟩
  · rintro ⟨hauth, hprovider, haccount, keytype, hfind, huser⟩
    exact ⟨(), hauth, (), hprovider, (), haccount, keytype, hfind, huser⟩

/-- A row is added under a new id, and there was none of this user and key. -/
theorem adduserver_spec (h : adduserver ctx s kycAccount user verificationKey = .ok s') :
    MayVerify ctx s kycAccount user verificationKey ∧
      ∃ id, (s.userverifsOf kycAccount).find? id = none ∧
        (∀ id' row, (s.userverifsOf kycAccount).find? id' = some row →
          ¬ (row.user = user ∧ row.verificationKey = verificationKey)) ∧
        s' = s.setUserverifs kycAccount
          ((s.userverifsOf kycAccount).set id ⟨user, verificationKey, ctx.now⟩) := by
  simp only [adduserver, bind_eq_ok, check_eq_ok, emplaceRow_eq_ok, pure_eq_ok] at h
  obtain ⟨_, hmay, -, hnone, id, -, table, ⟨hid, rfl⟩, rfl⟩ := h
  refine ⟨checkUserver_eq_ok.mp hmay, id, hid, ?_, rfl⟩
  intro id' row hrow hsame
  exact Table.findBy_eq_none.mp hnone id' row hrow (Userverif.byCkey_eq.mpr hsame)

/-- `deluserver` erases the row that the index finds. -/
theorem deluserver_eq_ok :
    deluserver ctx s kycAccount user verificationKey = .ok s' ↔
      MayVerify ctx s kycAccount user verificationKey ∧
        ∃ id row, (s.userverifsOf kycAccount).findBy Userverif.byCkey
            (compositeKey user.value verificationKey.value) = some (id, row) ∧
          s' = s.setUserverifs kycAccount ((s.userverifsOf kycAccount).erase id) := by
  simp only [deluserver, bind_eq_ok, getBy_eq_ok, pure_eq_ok]
  constructor
  · rintro ⟨_, hmay, ⟨id, row⟩, hfind, rfl⟩
    exact ⟨checkUserver_eq_ok.mp hmay, id, row, hfind, rfl⟩
  · rintro ⟨hmay, id, row, hfind, rfl⟩
    exact ⟨(), checkUserver_eq_ok.mpr hmay, (id, row), hfind, rfl⟩

/-- A key that a user writes or deletes changes one table only. -/
theorem setuserkey_spec {key : Name} {memo : String} (h : setuserkey ctx s user key memo = .ok s') :
    ∃ userkeys, s' = { s with userkeys := userkeys } := by
  simp only [setuserkey, bind_eq_ok] at h
  obtain ⟨-, -, -, -, -, -, -, -, h⟩ := h
  split at h
  · simp only [bind_eq_ok, pure_eq_ok] at h
    obtain ⟨-, -, userkeys, -, rfl⟩ := h
    exact ⟨userkeys, rfl⟩
  · simp only [pure_eq_ok] at h
    exact ⟨_, h.symm⟩

theorem deluserkey_spec {key : Name} (h : deluserkey ctx s user key = .ok s') :
    ∃ userkeys, s' = { s with userkeys := userkeys } := by
  simp only [deluserkey, bind_eq_ok, pure_eq_ok] at h
  obtain ⟨-, -, -, -, -, -, rfl⟩ := h
  exact ⟨_, rfl⟩

end InfoState

namespace InfoChain

open InfoState

/-- What an accepted call has checked and done. -/
inductive Effect (w : InfoChain) (auth : List Name) : InfoAction → InfoChain → Prop where
  | addkycacc {account : Name} (hauth : eosioAccount ∈ auth)
      (hnew : ¬ w.info.IsProvider account) :
      Effect w auth (.addkycacc account)
        { w with info := { w.info with kycaccounts := w.info.kycaccounts.set account () } }
  | delkycacc {account : Name} :
      Effect w auth (.delkycacc account)
        { w with info := { w.info with kycaccounts := w.info.kycaccounts.erase account } }
  | addkeytype {key : Name} {definition : String} {user : Bool}
      (hnew : w.info.keytypes.find? key = none) :
      Effect w auth (.addkeytype key definition user)
        { w with info := { w.info with
            keytypes := w.info.keytypes.set key ⟨definition, user⟩ } }
  | updkeytype {key : Name} {definition : String} {user : Bool} (hauth : eosioAccount ∈ auth) :
      Effect w auth (.updkeytype key definition user)
        { w with info := { w.info with
            keytypes := w.info.keytypes.set key ⟨definition, user⟩ } }
  | adduserver {kycAccount user verificationKey : Name} {now : TimePoint} {id : Nat}
      (haccount : user ∈ w.accounts) (hkey : w.info.IsVerificationKey verificationKey)
      (hid : (w.info.userverifsOf kycAccount).find? id = none)
      (hnone : ∀ id' row, (w.info.userverifsOf kycAccount).find? id' = some row →
        ¬ (row.user = user ∧ row.verificationKey = verificationKey)) :
      Effect w auth (.adduserver kycAccount user verificationKey)
        { w with
          info := w.info.setUserverifs kycAccount
            ((w.info.userverifsOf kycAccount).set id ⟨user, verificationKey, now⟩) }
  | deluserver {kycAccount user verificationKey : Name} {id : Nat} :
      Effect w auth (.deluserver kycAccount user verificationKey)
        { w with
          info := w.info.setUserverifs kycAccount
            ((w.info.userverifsOf kycAccount).erase id) }
  | setuserkey {user key : Name} {memo : String} {userkeys : Table Nat Userkey} :
      Effect w auth (.setuserkey user key memo)
        { w with info := { w.info with userkeys := userkeys } }
  | deluserkey {user key : Name} {userkeys : Table Nat Userkey} :
      Effect w auth (.deluserkey user key)
        { w with info := { w.info with userkeys := userkeys } }
  | newaccount {account : Name} :
      Effect w auth (.newaccount account) { w with accounts := account :: w.accounts }

/-- Every call has one of these effects. -/
theorem step_effect {w w' : InfoChain} {call : InfoCall} (h : w.step call = .ok w') :
    Effect w call.auth call.action w' := by
  obtain ⟨auth, now, action⟩ := call
  cases action with
  | addkycacc account =>
    -- the action has checked the authority and that the provider is new
    simp only [step, InfoState.addkycacc, bind_eq_ok, requireAuth_eq_ok, check_eq_ok,
      pure_eq_ok] at h
    obtain ⟨_, ⟨-, hauth, -, hnew, rfl⟩, rfl⟩ := h
    exact .addkycacc hauth hnew
  | delkycacc account =>
    simp only [step, InfoState.delkycacc, bind_eq_ok, pure_eq_ok] at h
    obtain ⟨_, ⟨-, -, -, -, rfl⟩, rfl⟩ := h
    exact .delkycacc
  | addkeytype key definition user =>
    simp only [step, InfoState.addkeytype, bind_eq_ok, check_eq_ok, pure_eq_ok] at h
    obtain ⟨_, ⟨-, -, -, hnew, rfl⟩, rfl⟩ := h
    exact .addkeytype hnew
  | updkeytype key definition user =>
    simp only [step, InfoState.updkeytype, bind_eq_ok, requireAuth_eq_ok, pure_eq_ok] at h
    -- only the authority is needed below
    obtain ⟨_, ⟨-, hauth, -, -, rfl⟩, rfl⟩ := h
    exact .updkeytype hauth
  | adduserver kycAccount user verificationKey =>
    simp only [step, bind_eq_ok, pure_eq_ok] at h
    obtain ⟨info, hadd, rfl⟩ := h
    -- the key and the provider have been checked
    obtain ⟨hmay, id, hid, hnone, rfl⟩ := adduserver_spec hadd
    exact .adduserver (of_decide_eq_true hmay.account) hmay.key hid hnone
  | deluserver kycAccount user verificationKey =>
    simp only [step, bind_eq_ok, pure_eq_ok] at h
    obtain ⟨info, hdel, rfl⟩ := h
    -- a row that has been there
    obtain ⟨-, id, row, -, rfl⟩ := deluserver_eq_ok.mp hdel
    exact .deluserver
  | setuserkey user key memo =>
    simp only [step, bind_eq_ok, pure_eq_ok] at h
    obtain ⟨info, hset, rfl⟩ := h
    -- the keys of the users have a table of their own
    obtain ⟨userkeys, rfl⟩ := setuserkey_spec hset
    exact .setuserkey
  | deluserkey user key =>
    simp only [step, bind_eq_ok, pure_eq_ok] at h
    obtain ⟨info, hdel, rfl⟩ := h
    obtain ⟨userkeys, rfl⟩ := deluserkey_spec hdel
    exact .deluserkey
  | newaccount account =>
    simp only [step, pure_eq_ok] at h
    subst h
    exact .newaccount

/-! ## What holds in every run -/

/-- The row stands in the scope of the account. -/
def HasRow (w : InfoChain) (kycAccount : Name) (id : Nat) (row : Userverif) : Prop :=
  (w.info.userverifsOf kycAccount).find? id = some row

instance (w : InfoChain) (kycAccount : Name) (id : Nat) (row : Userverif) :
    Decidable (w.HasRow kycAccount id row) :=
  inferInstanceAs (Decidable (_ = _))

/-- In every scope the ids are different, and so are the pairs of a user and a key. -/
structure RowsUnique (w : InfoChain) : Prop where
  ids : ∀ kycAccount, (w.info.userverifsOf kycAccount).keys.Nodup
  pairs : ∀ kycAccount id id' row row', w.HasRow kycAccount id row → w.HasRow kycAccount id' row' →
    row.user = row'.user → row.verificationKey = row'.verificationKey → id = id'

/-- Rows are unique, and their users and keys exist. -/
structure InfoInv (w : InfoChain) : Prop where
  pairs : ∀ kycAccount id id' row row', w.HasRow kycAccount id row → w.HasRow kycAccount id' row' →
    row.user = row'.user → row.verificationKey = row'.verificationKey → id = id'
  user : ∀ kycAccount id row, w.HasRow kycAccount id row → row.user ∈ w.accounts
  key : ∀ kycAccount id row, w.HasRow kycAccount id row →
    (w.info.keytypes.find? row.verificationKey).isSome

theorem InfoInv.rowsUnique {w : InfoChain} (h : InfoInv w) : RowsUnique w :=
  ⟨fun _ => Table.nodup_keys _, h.pairs⟩

theorem genesis_inv (accounts : List Name) : InfoInv (genesis accounts) := by
  have hnone : ∀ kycAccount id row, ¬ (genesis accounts).HasRow kycAccount id row := by
    intro kycAccount id row h
    cases h
  constructor
  · intro kycAccount id id' row row' h
    exact absurd h (hnone kycAccount id row)
  · intro kycAccount id row h
    exact absurd h (hnone kycAccount id row)
  · intro kycAccount id row h
    exact absurd h (hnone kycAccount id row)

/-- The invariant stays when rows go and accounts and keys come. -/
theorem InfoInv.mono {w w' : InfoChain} (h : InfoInv w)
    (hrows : ∀ kycAccount id row, w'.HasRow kycAccount id row → w.HasRow kycAccount id row)
    (haccounts : ∀ n ∈ w.accounts, n ∈ w'.accounts)
    (hkeys : ∀ key, (w.info.keytypes.find? key).isSome → (w'.info.keytypes.find? key).isSome) :
    InfoInv w' := by
  constructor
  · intro kycAccount id id' row row' hrow hrow'
    exact h.pairs kycAccount id id' row row' (hrows _ _ _ hrow) (hrows _ _ _ hrow')
  · intro kycAccount id row hrow
    exact haccounts _ (h.user kycAccount id row (hrows _ _ _ hrow))
  · intro kycAccount id row hrow
    exact hkeys _ (h.key kycAccount id row (hrows _ _ _ hrow))

/-- A key stays when the definition of one is set. -/
theorem isSome_set_keytype {t : Table Name Keytype} {key key' : Name} {keytype : Keytype}
    (h : (t.find? key').isSome) : ((t.set key keytype).find? key').isSome := by
  rw [Table.find?_set]
  split
  · rfl
  · exact h

/-- A row after one has been added. -/
theorem of_hasRow_set {w : InfoChain} {kycAccount kycAccount' : Name} {id id' : Nat}
    {row row' : Userverif}
    (h : HasRow { w with
      info := w.info.setUserverifs kycAccount
        ((w.info.userverifsOf kycAccount).set id row) } kycAccount' id' row') :
    (kycAccount' = kycAccount ∧ id' = id ∧ row' = row) ∨ w.HasRow kycAccount' id' row' := by
  unfold HasRow at h
  rw [userverifsOf_setUserverifs] at h
  split at h
  · rename_i hscope
    subst hscope
    rw [Table.find?_set] at h
    split at h
    · rename_i hid
      exact .inl ⟨rfl, hid, (Option.some.inj h).symm⟩
    · exact .inr h
  · exact .inr h

/-- A row after one has been erased. -/
theorem of_hasRow_erase {w : InfoChain} {kycAccount kycAccount' : Name} {id id' : Nat}
    {row : Userverif}
    (h : HasRow { w with
      info := w.info.setUserverifs kycAccount
        ((w.info.userverifsOf kycAccount).erase id) } kycAccount' id' row) :
    w.HasRow kycAccount' id' row := by
  unfold HasRow at h
  rw [userverifsOf_setUserverifs] at h
  split at h
  · rename_i hscope
    subst hscope
    rw [Table.find?_erase] at h
    split at h
    · cases h
    · exact h
  · exact h

/-- A call keeps the rows unique and the keys of users apart. -/
theorem step_inv {w w' : InfoChain} {call : InfoCall} (hinv : InfoInv w)
    (h : w.step call = .ok w') : InfoInv w' := by
  have heffect := step_effect h
  generalize call.action = action at heffect
  cases heffect with
  | addkycacc | delkycacc | setuserkey | deluserkey =>
    -- the rows are as before
    exact hinv.mono (fun _ _ _ h => h) (fun _ h => h) (fun _ h => h)
  | addkeytype | updkeytype =>
    -- a key that is defined stays defined
    exact hinv.mono (fun _ _ _ h => h) (fun _ h => h) (fun _ h => isSome_set_keytype h)
  | deluserver =>
    exact hinv.mono (fun _ _ _ h => of_hasRow_erase h) (fun _ h => h) (fun _ h => h)
  | newaccount =>
    -- an account that exists goes on existing
    exact hinv.mono (fun _ _ _ h => h) (fun _ h => List.mem_cons_of_mem _ h) (fun _ h => h)
  | @adduserver kycAccount user verificationKey now id haccount hkey hid hnone =>
    -- the new row differs from every old one, since the check has found none of this pair
    constructor
    · intro kycAccount' id₁ id₂ row₁ row₂ h₁ h₂ huser hver
      rcases of_hasRow_set h₁ with ⟨rfl, rfl, rfl⟩ | hold₁
      · rcases of_hasRow_set h₂ with ⟨-, rfl, -⟩ | hold₂
        · rfl
        · exact absurd ⟨huser.symm, hver.symm⟩ (hnone id₂ row₂ hold₂)
      · rcases of_hasRow_set h₂ with ⟨rfl, rfl, rfl⟩ | hold₂
        · exact absurd ⟨huser, hver⟩ (hnone id₁ row₁ hold₁)
        · exact hinv.pairs kycAccount' id₁ id₂ row₁ row₂ hold₁ hold₂ huser hver
    · -- the provider and the account of the new row exist
      intro kycAccount' id' row hrow
      rcases of_hasRow_set hrow with ⟨-, -, rfl⟩ | hrow
      · exact haccount
      · exact hinv.user kycAccount' id' row hrow
    · -- and its key is defined
      intro kycAccount' id' row hrow
      rcases of_hasRow_set hrow with ⟨-, -, rfl⟩ | hrow
      · obtain ⟨keytype, hfind, -⟩ := hkey
        show (w.info.keytypes.find? verificationKey).isSome
        rw [hfind]
        rfl
      · exact hinv.key kycAccount' id' row hrow

/-! ## Which rows can be withdrawn -/

/-- The chain without one row. -/
def without (w : InfoChain) (kycAccount : Name) (id : Nat) : InfoChain :=
  { w with info := w.info.setUserverifs kycAccount ((w.info.userverifsOf kycAccount).erase id) }

/-- Every provider can delete every one of its rows, and nothing else goes with it. -/
def Withdrawable (w : InfoChain) : Prop :=
  ∀ kycAccount id row, w.info.IsProvider kycAccount → w.HasRow kycAccount id row →
    ∀ auth now, kycAccount ∈ auth →
      w.step ⟨auth, now, .deluserver kycAccount row.user row.verificationKey⟩ =
        .ok (w.without kycAccount id)

/-- No row of a provider has a user key. -/
def Clear (w : InfoChain) : Prop :=
  ∀ kycAccount id row, w.info.IsProvider kycAccount → w.HasRow kycAccount id row →
    ¬ w.info.IsUserKey row.verificationKey

/-- Providers can withdraw all of their rows exactly if none of them has a user key. -/
theorem withdrawable_iff {w : InfoChain} (hinv : InfoInv w) : Withdrawable w ↔ Clear w := by
  constructor
  · intro h kycAccount id row hprovider hrow
    have hdel := h kycAccount id row hprovider hrow [kycAccount] 0 List.mem_cons_self
    simp only [step, bind_eq_ok] at hdel
    obtain ⟨info, hdel, -⟩ := hdel
    -- the only check of `deluserver` that the row itself does not meet is that on its key
    exact (deluserver_eq_ok.mp hdel).1.key.not_user
  · intro h kycAccount id row hprovider hrow auth now hauth
    have hmay : MayVerify (w.context ⟨auth, now, .deluserver kycAccount row.user row.verificationKey⟩)
        w.info kycAccount row.user row.verificationKey :=
      { auth := hauth
        provider := hprovider
        account := decide_eq_true (hinv.user kycAccount id row hrow)
        key := isVerificationKey_of_not_user (hinv.key kycAccount id row hrow)
          (h kycAccount id row hprovider hrow) }
    -- the pair is unique in its scope, so the index finds this row and no other
    have hfind : (w.info.userverifsOf kycAccount).findBy Userverif.byCkey row.byCkey =
        some (id, row) := by
      apply Table.findBy_of_unique hrow
      intro id' row' hrow' heq
      obtain ⟨huser, hver⟩ := Userverif.byCkey_eq.mp heq
      exact hinv.pairs kycAccount id' id row' row hrow' hrow huser hver
    have hdel := deluserver_eq_ok.mpr ⟨hmay, id, row, hfind, rfl⟩
    simp only [step, hdel]
    rfl

/-! ## Which calls keep them so -/

/-- The call makes no key of a row of a provider a user key, and no account with a row of a
    user key a provider. -/
def Harmless (w : InfoChain) (call : InfoCall) : Prop :=
  eosioAccount ∈ call.auth →
    match call.action with
    | .updkeytype key _ true => ∀ kycAccount id row, w.info.IsProvider kycAccount →
        w.HasRow kycAccount id row → row.verificationKey ≠ key
    | .addkycacc account => ∀ id row, w.HasRow account id row →
        ¬ w.info.IsUserKey row.verificationKey
    | _ => True

/-- A user key after the definition of a key is set. -/
theorem of_isUserKey_set {s : InfoState} {key key' : Name} {definition : String} {user : Bool}
    (h : IsUserKey { s with keytypes := s.keytypes.set key ⟨definition, user⟩ } key') :
    (key' = key ∧ user = true) ∨ s.IsUserKey key' := by
  obtain ⟨keytype, hfind, huser⟩ := h
  change (s.keytypes.set key ⟨definition, user⟩).find? key' = some keytype at hfind
  rw [Table.find?_set] at hfind
  split at hfind
  · rename_i hkey
    cases hfind
    exact .inl ⟨hkey, huser⟩
  · exact .inr ⟨keytype, hfind, huser⟩

/-- A harmless call gives no provider a row with a user key. -/
theorem step_clear {w w' : InfoChain} {call : InfoCall} (hinv : InfoInv w) (hclear : Clear w)
    (hharmless : Harmless w call) (h : w.step call = .ok w') : Clear w' := by
  have heffect := step_effect h
  unfold Harmless at hharmless
  generalize call.action = action at heffect hharmless
  cases heffect with
  | setuserkey | deluserkey | newaccount => exact hclear
  | @addkycacc account hauth hnew =>
    intro kycAccount id row hprovider hrow
    change ((w.info.kycaccounts.set account ()).find? kycAccount).isSome at hprovider
    rw [Table.find?_set] at hprovider
    split at hprovider
    · -- a new provider has no rows with user keys, by the condition
      rename_i heq
      subst heq
      exact hharmless hauth id row hrow
    · exact hclear kycAccount id row hprovider hrow
  | @delkycacc account =>
    intro kycAccount id row hprovider hrow
    change ((w.info.kycaccounts.erase account).find? kycAccount).isSome at hprovider
    -- a provider that leaves takes none of the other rows along
    rw [Table.find?_erase] at hprovider
    split at hprovider
    · cases hprovider
    · exact hclear kycAccount id row hprovider hrow
  | @addkeytype key definition user hnew =>
    intro kycAccount id row hprovider hrow huser
    rcases of_isUserKey_set huser with ⟨hkey, -⟩ | huser
    · -- the keys of the rows are not new
      have hold := hinv.key kycAccount id row hrow
      rw [hkey, hnew] at hold
      cases hold
    · exact hclear kycAccount id row hprovider hrow huser
  | @updkeytype key definition user hauth =>
    intro kycAccount id row hprovider hrow huser
    -- a key that becomes a user key is in no row, by the condition
    rcases of_isUserKey_set huser with ⟨hkey, rfl⟩ | huser
    · exact hharmless hauth kycAccount id row hprovider hrow hkey
    · exact hclear kycAccount id row hprovider hrow huser
  -- the check of `adduserver` keeps user keys out
  | adduserver _ hkey =>
    -- the new row, and the rows that were there
    intro kycAccount id row hprovider hrow
    rcases of_hasRow_set hrow with ⟨-, -, rfl⟩ | hrow
    · exact hkey.not_user
    · exact hclear kycAccount id row hprovider hrow
  | deluserver =>
    intro kycAccount id row hprovider hrow
    -- the rows that are left were there before
    exact hclear kycAccount id row hprovider (of_hasRow_erase hrow)

/-- After a call that is not harmless some row has a user key. -/
theorem harmless_of_clear {w : InfoChain} {call : InfoCall} (hinv : InfoInv w) (hclear : Clear w)
    (hnext : Clear (Run.next step w call)) : Harmless w call := by
  obtain ⟨auth, now, action⟩ := call
  intro hauth
  cases action with
  | addkycacc account =>
    intro id row hrow
    -- the call fails for a provider, whose rows have no user keys as it is
    by_cases hold : w.info.IsProvider account
    · exact hclear account id row hold hrow
    · have hadd : w.step ⟨auth, now, .addkycacc account⟩ = .ok
          { w with info := { w.info with kycaccounts := w.info.kycaccounts.set account () } } := by
        simp only [step, InfoState.addkycacc, bind_eq_ok, requireAuth_eq_ok, check_eq_ok,
          pure_eq_ok]
        exact ⟨_, ⟨(), hauth, (), hold, rfl⟩, rfl⟩
      rw [Run.next_of_ok hadd] at hnext
      refine hnext account id row ?_ hrow
      show ((w.info.kycaccounts.set account ()).find? account).isSome
      rw [Table.find?_set_self]
      rfl
  | updkeytype key definition user =>
    cases user with
    -- a key that is no user key does no harm
    | false => trivial
    | true =>
      rintro kycAccount id row hprovider hrow rfl
      -- the key of a row is defined, so the call goes through
      obtain ⟨old, hold⟩ := Option.isSome_iff_exists.mp (hinv.key kycAccount id row hrow)
      have hupd : w.step ⟨auth, now, .updkeytype row.verificationKey definition true⟩ = .ok
          { w with info := { w.info with
              keytypes := w.info.keytypes.set row.verificationKey ⟨definition, true⟩ } } := by
        simp only [step, InfoState.updkeytype, bind_eq_ok, requireAuth_eq_ok, getRow_eq_ok,
          pure_eq_ok]
        exact ⟨_, ⟨(), hauth, old, hold, rfl⟩, rfl⟩
      rw [Run.next_of_ok hupd] at hnext
      exact hnext kycAccount id row hprovider hrow ⟨_, Table.find?_set_self _ _ _, rfl⟩
  | delkycacc | addkeytype | adduserver | deluserver | setuserkey | deluserkey | newaccount =>
    trivial

/-- Exactly the harmless calls give no provider a row with a user key. -/
theorem clear_next_iff {w : InfoChain} {call : InfoCall} (hinv : InfoInv w) (hclear : Clear w) :
    Clear (Run.next step w call) ↔ Harmless w call := by
  constructor
  · exact harmless_of_clear hinv hclear
  · intro hharmless
    cases h : w.step call with
    | error e =>
      rw [Run.next_of_error h]
      exact hclear
    | ok w' =>
      rw [Run.next_of_ok h]
      exact step_clear hinv hclear hharmless h

/-- The invariant holds in every state of every run. -/
theorem stateAt_inv (accounts : List Name) (calls : List InfoCall) (i : Nat) :
    InfoInv (Run.stateAt step (genesis accounts) calls i) :=
  Run.exec_induction (fun _ _ _ hinv h => step_inv hinv h) (genesis_inv accounts) (calls.take i)

/-- In every run the rows are unique, and every row of a provider can be withdrawn in every
    state exactly if the calls are harmless. -/
theorem verifications_withdrawable (accounts : List Name) (calls : List InfoCall) :
    (∀ i, RowsUnique (Run.stateAt step (genesis accounts) calls i)) ∧
      ((∀ i, Withdrawable (Run.stateAt step (genesis accounts) calls i)) ↔
        Run.Meets step Harmless (genesis accounts) calls) := by
  have hgenesis : Clear (genesis accounts) := by
    intro kycAccount id row hprovider
    cases hprovider
  have hclear := Run.forall_stateAt_iff_meets (P := Clear)
    (fun _ _ _ hinv h => step_inv hinv h) (fun _ _ hinv hclear => clear_next_iff hinv hclear)
    (genesis_inv accounts) hgenesis calls
  constructor
  · intro i
    exact (stateAt_inv accounts calls i).rowsUnique
  · rw [← hclear]
    exact forall_congr' fun i => withdrawable_iff (stateAt_inv accounts calls i)

namespace Sample

def provider : Name := Name.ofString "provider"
def passport : Name := Name.ofString "passport"
def client : Name := Name.ofString "client"

/-- The provider verifies the passport of the client, and then passports become a user key. -/
def redefined : InfoChain :=
  Run.exec step (genesis [eosioAccount, provider, client])
    [⟨[eosioAccount], 0, .addkycacc provider⟩,
      ⟨[eosioAccount], 0, .addkeytype passport "passport seen" false⟩,
      ⟨[provider], 0, .adduserver provider client passport⟩,
      ⟨[eosioAccount], 0, .updkeytype passport "passport seen" true⟩]

end Sample

open Sample in
/-- The provider cannot withdraw the verification any more. -/
theorem redefined_not_withdrawable : ¬ Withdrawable redefined := by
  intro h
  have hdel := h provider 0 ⟨client, passport, 0⟩ (by decide +kernel) (by decide +kernel)
    [provider] 0 List.mem_cons_self
  have hfails : (redefined.step ⟨[provider], 0, .deluserver provider client passport⟩).isOk = false := by
    decide +kernel
  rw [hdel] at hfails
  cases hfails

end InfoChain

end UxContracts
