import UxContracts.Native.Multisig

/-!
# Limits on changes of permissions

An account can restrict which of its permissions may change its authorities and links
(`limitauthchg`): either to the ones of a list, or to all but the ones of a list. The four
native actions that make such a change ask `check_auth_change`.

A row is stored under its account, and its version is always zero.
-/

namespace UxContracts

/-- The restriction of an account. One of the lists is empty. -/
structure LimitAuthChange where
  allowPerms : List Name
  disallowPerms : List Name
deriving DecidableEq, Repr

def ownerPermission : Name := Name.ofString "owner"

/-- The table `limitauthchg`. -/
abbrev AuthLimits := Table Name LimitAuthChange

namespace AuthLimits

def limitauthchg (ctx : AuthContext) (t : AuthLimits) (account : Name)
    (allowPerms disallowPerms : List Name) : Except String AuthLimits := do
  ctx.requireAuth account
  check (allowPerms.isEmpty ∨ disallowPerms.isEmpty)
    "either allow_perms or disallow_perms must be empty"
  check (allowPerms.isEmpty ∨ ownerPermission ∈ allowPerms) "allow_perms does not contain owner"
  check (disallowPerms.isEmpty ∨ ownerPermission ∉ disallowPerms) "disallow_perms contains owner"
  if ¬ allowPerms.isEmpty ∨ ¬ disallowPerms.isEmpty then
    return t.set account ⟨allowPerms, disallowPerms⟩
  else return t.erase account

/-- `authorizedBy` is an extension that a caller may leave out. -/
def checkAuthChange (ctx : AuthContext) (t : AuthLimits) (account : Name)
    (authorizedBy : Option Name) : Except String Unit := do
  let by_ := authorizedBy.getD ⟨0⟩
  (if by_.isSet then ctx.requireLevel ⟨account, by_⟩ else pure ())
  match t.find? account with
  | none => return ()
  | some row =>
    check by_.isSet "authorized_by is required for this account"
    if ¬ row.allowPerms.isEmpty then
      check (by_ ∈ row.allowPerms) "authorized_by does not appear in allow_perms"
    else
      check (by_ ∉ row.disallowPerms) "authorized_by appears in disallow_perms"

/-! ## The native actions

They have other arguments, which the contract does not look at. -/

def updateauth (ctx : AuthContext) (t : AuthLimits) (account : Name)
    (authorizedBy : Option Name) : Except String Unit :=
  checkAuthChange ctx t account authorizedBy

def deleteauth (ctx : AuthContext) (t : AuthLimits) (account : Name)
    (authorizedBy : Option Name) : Except String Unit :=
  checkAuthChange ctx t account authorizedBy

def linkauth (ctx : AuthContext) (t : AuthLimits) (account : Name)
    (authorizedBy : Option Name) : Except String Unit :=
  checkAuthChange ctx t account authorizedBy

def unlinkauth (ctx : AuthContext) (t : AuthLimits) (account : Name)
    (authorizedBy : Option Name) : Except String Unit :=
  checkAuthChange ctx t account authorizedBy

end AuthLimits

/-! ## Runs -/

inductive AuthAction where
  | limitauthchg (account : Name) (allowPerms disallowPerms : List Name)
  | updateauth (account : Name) (authorizedBy : Option Name)
  | deleteauth (account : Name) (authorizedBy : Option Name)
  | linkauth (account : Name) (authorizedBy : Option Name)
  | unlinkauth (account : Name) (authorizedBy : Option Name)

/-- An action together with the context it runs in. -/
structure AuthCall where
  ctx : AuthContext
  action : AuthAction

namespace AuthLimits

/-- Run one call. The contract only checks a change that the chain makes. -/
def step (t : AuthLimits) (call : AuthCall) : Except String AuthLimits :=
  let ctx := call.ctx
  match call.action with
  | .limitauthchg account allowPerms disallowPerms =>
    limitauthchg ctx t account allowPerms disallowPerms
  | .updateauth account authorizedBy => do
    updateauth ctx t account authorizedBy
    return t
  | .deleteauth account authorizedBy => do
    deleteauth ctx t account authorizedBy
    return t
  | .linkauth account authorizedBy => do
    linkauth ctx t account authorizedBy
    return t
  | .unlinkauth account authorizedBy => do
    unlinkauth ctx t account authorizedBy
    return t

end AuthLimits

end UxContracts
