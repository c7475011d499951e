import UxContracts.ForStd.Run
import UxContracts.Native.AuthChanges

/-!
# Limits on changes of permissions lock nobody out

The row of an account holds the lists of the last `limitauthchg` that was accepted, and there
is no row when both were empty (`LastLimits`). So what `check_auth_change` decides can be read off
from the history of an account (`LastLimits.permits_iff`), and the owner permission can always
be used (`owner_never_locked_out`).
-/

namespace UxContracts

/-- The checks of `limitauthchg` on the lists. -/
structure LimitAuthChange.Valid (l : LimitAuthChange) : Prop where
  oneEmpty : l.allowPerms = [] ∨ l.disallowPerms = []
  ownerAllowed : l.allowPerms = [] ∨ ownerPermission ∈ l.allowPerms
  ownerNotDisallowed : l.disallowPerms = [] ∨ ownerPermission ∉ l.disallowPerms

namespace AuthLimits

/-! ## What a call does -/

/-- When `limitauthchg` succeeds, and what it stores. -/
theorem limitauthchg_eq_ok {ctx : AuthContext} {t t' : AuthLimits} {account : Name}
    {allowPerms disallowPerms : List Name} :
    limitauthchg ctx t account allowPerms disallowPerms = .ok t' ↔
      account ∈ ctx.auth.map PermissionLevel.actor ∧
      LimitAuthChange.Valid ⟨allowPerms, disallowPerms⟩ ∧
      t' = if allowPerms = [] ∧ disallowPerms = [] then t.erase account
        else t.set account ⟨allowPerms, disallowPerms⟩ := by
  simp only [limitauthchg, AuthContext.requireAuth, bind_eq_ok, check_eq_ok, List.isEmpty_iff]
  constructor
  · rintro ⟨_, hauth, _, hone, _, hallowed, _, hdisallowed, h⟩
    refine ⟨hauth, ⟨hone, hallowed, hdisallowed⟩, ?_⟩
    by_cases hboth : allowPerms = [] ∧ disallowPerms = []
    · rw [if_neg (by simp [hboth]), pure_eq_ok] at h
      rw [if_pos hboth, h]
    · rw [if_pos (by tauto), pure_eq_ok] at h
      rw [if_neg hboth, h]
  · rintro ⟨hauth, ⟨hone, hallowed, hdisallowed⟩, rfl⟩
    refine ⟨(), hauth, (), hone, (), hallowed, (), hdisallowed, ?_⟩
    by_cases hboth : allowPerms = [] ∧ disallowPerms = []
    · rw [if_neg (by simp [hboth]), if_pos hboth]
      rfl
    · rw [if_pos (by tauto), if_neg hboth]
      rfl

/-- A permission that is named must be there, and a restriction must not exclude it. -/
theorem checkAuthChange_eq_ok {ctx : AuthContext} {t : AuthLimits} {account by_ : Name}
    {authorizedBy : Option Name} {u : Unit} (hby : authorizedBy.getD ⟨0⟩ = by_) :
    checkAuthChange ctx t account authorizedBy = .ok u ↔
      (by_.isSet → ⟨account, by_⟩ ∈ ctx.auth) ∧
      ∀ row, t.find? account = some row → by_.isSet ∧
        if row.allowPerms = [] then by_ ∉ row.disallowPerms else by_ ∈ row.allowPerms := by
  -- the level is asked for only if there is one
  have hlevel : ∀ v, (if by_.isSet then ctx.requireLevel ⟨account, by_⟩ else pure ()) = .ok v ↔
      (by_.isSet → ⟨account, by_⟩ ∈ ctx.auth) := by
    intro v
    by_cases hset : by_.isSet
    · simp [hset, AuthContext.requireLevel]
    · simp [hset]
  -- the three checks on a row
  have hrow : ∀ row : LimitAuthChange,
      ((do
        check by_.isSet "authorized_by is required for this account"
        if ¬ row.allowPerms.isEmpty then
          check (by_ ∈ row.allowPerms) "authorized_by does not appear in allow_perms"
        else check (by_ ∉ row.disallowPerms) "authorized_by appears in disallow_perms") = .ok u) ↔
        by_.isSet ∧ if row.allowPerms = [] then by_ ∉ row.disallowPerms else by_ ∈ row.allowPerms := by
    intro row
    rw [check_bind_eq_ok]
    apply and_congr_right
    intro _
    by_cases hallow : row.allowPerms = []
    · rw [if_neg (by simp [hallow]), if_pos hallow, check_eq_ok]
    · rw [if_pos (by simp [hallow]), if_neg hallow, check_eq_ok]
  simp only [checkAuthChange, hby, bind_eq_ok, hlevel, exists_and_left, exists_const]
  apply and_congr_right
  intro _
  cases hfind : t.find? account with
  | none => simp
  | some row =>
    simp only [Option.some.injEq, forall_eq']
    exact hrow row

/-! ## The last accepted call -/

/-- Keep the lists of the last accepted `limitauthchg` of an account. -/
def recordLimits (account : Name) (last : Option LimitAuthChange) (_ : AuthLimits)
    (call : AuthCall) (_ : AuthLimits) : Option LimitAuthChange :=
  match call.action with
  | .limitauthchg a allowPerms disallowPerms =>
    if a = account then some ⟨allowPerms, disallowPerms⟩ else last
  | _ => last

/-- The account has no restriction, or has given it up. -/
def OptedOut (last : Option LimitAuthChange) : Prop := last = none ∨ last = some ⟨[], []⟩

/-- The account has not restricted the use of the permission. -/
def Permits (last : Option LimitAuthChange) (p : Name) : Prop :=
  OptedOut last ∨ ∃ l ∈ last,
    (l.allowPerms ≠ [] ∧ p ∈ l.allowPerms) ∨ (l.disallowPerms ≠ [] ∧ p ∉ l.disallowPerms)

/-- The table agrees with the last accepted call. -/
structure LastLimits (account : Name) (t : AuthLimits) (last : Option LimitAuthChange) : Prop where
  valid : ∀ l ∈ last, l.Valid
  optedOut : OptedOut last → t.find? account = none
  optedIn : ¬ OptedOut last → t.find? account = last

/-- The row is that of the last call for the account. -/
theorem LastLimits.limitauthchg {account a : Name} {t t' : AuthLimits}
    {last : Option LimitAuthChange} {ctx : AuthContext} {allowPerms disallowPerms : List Name}
    (hI : LastLimits account t last)
    (h : AuthLimits.limitauthchg ctx t a allowPerms disallowPerms = .ok t') :
    LastLimits account t' (if a = account then some ⟨allowPerms, disallowPerms⟩ else last) := by
  obtain ⟨-, hvalid, rfl⟩ := limitauthchg_eq_ok.mp h
  by_cases ha : a = account
  · -- the row of this account is the one that is set
    subst ha
    rw [if_pos rfl]
    have hout : OptedOut (some ⟨allowPerms, disallowPerms⟩) ↔
        allowPerms = [] ∧ disallowPerms = [] := by
      simp [OptedOut]
    constructor
    · rintro l ⟨⟩
      exact hvalid
    · intro h
      rw [if_pos (hout.mp h), Table.find?_erase_self]
    · intro h
      rw [if_neg (mt hout.mpr h), Table.find?_set_self]
  · rw [if_neg ha]
    -- the others are as before
    have hsame : (if allowPerms = [] ∧ disallowPerms = [] then t.erase a
        else t.set a ⟨allowPerms, disallowPerms⟩).find? account = t.find? account := by
      split
      · exact Table.find?_erase_ne t (Ne.symm ha)
      · exact Table.find?_set_ne t _ (Ne.symm ha)
    exact ⟨hI.valid, fun h => hsame.trans (hI.optedOut h), fun h => hsame.trans (hI.optedIn h)⟩

/-- Every action keeps the row in line with the last call, since the others only read it. -/
theorem step_lastLimits {account : Name} {p q : AuthLimits × Option LimitAuthChange}
    {call : AuthCall} (hI : LastLimits account p.1 p.2)
    (h : Run.observed step (recordLimits account) p call = .ok q) :
    LastLimits account q.1 q.2 := by
  obtain ⟨hstep, hlast⟩ := Run.observed_eq_ok h
  rw [hlast]
  obtain ⟨ctx, action⟩ := call
  unfold step at hstep
  unfold recordLimits
  cases action with
  | limitauthchg a allowPerms disallowPerms => exact hI.limitauthchg hstep
  | _ =>
    -- the change itself is made by the chain, and the table stays as it was
    simp only [bind_eq_ok, pure_eq_ok] at hstep
    obtain ⟨_, -, heq⟩ := hstep
    rw [← heq]
    exact hI

theorem lastLimits_empty (account : Name) : LastLimits account ∅ none :=
  ⟨by simp, fun _ => rfl, fun _ => rfl⟩

/-! ## What is permitted -/

variable {account : Name} {t : AuthLimits} {last : Option LimitAuthChange}

/-- A restriction with an empty list of allowed permissions has one of excluded permissions. -/
theorem disallowPerms_ne_nil {l : LimitAuthChange} (hout : ¬ OptedOut (some l))
    (hallow : l.allowPerms = []) : l.disallowPerms ≠ [] := by
  intro hempty
  obtain ⟨allowPerms, disallowPerms⟩ := l
  subst hallow hempty
  exact hout (.inr rfl)

/-- With the authority that it names, a change is refused only by a restriction. -/
theorem LastLimits.permits_iff (hI : LastLimits account t last) {ctx : AuthContext} {p : Name}
    (hset : p.isSet) (hauth : ⟨account, p⟩ ∈ ctx.auth) :
    checkAuthChange ctx t account (some p) = .ok () ↔ Permits last p := by
  rw [checkAuthChange_eq_ok (Option.getD_some ..)]
  simp only [hset, hauth, imp_self, true_and]
  by_cases hout : OptedOut last
  · simp [Permits, hout, hI.optedOut hout]
  · rw [hI.optedIn hout]
    unfold Permits
    rw [or_iff_right hout]
    cases last with
    | none => exact absurd (.inl rfl) hout
    | some l =>
      have hone := (hI.valid l rfl).oneEmpty
      simp only [Option.some.injEq, forall_eq', Option.mem_def, exists_eq_left']
      by_cases hallow : l.allowPerms = []
      · simp [hallow, disallowPerms_ne_nil hout hallow]
      · simp [hallow, hone.resolve_left hallow]

/-- Without an authority, a change is refused by every restriction. -/
theorem LastLimits.optedOut_iff (hI : LastLimits account t last) {ctx : AuthContext}
    {authorizedBy : Option Name} (hunset : ¬ (authorizedBy.getD ⟨0⟩).isSet) :
    checkAuthChange ctx t account authorizedBy = .ok () ↔ OptedOut last := by
  rw [checkAuthChange_eq_ok rfl]
  simp only [hunset, false_imp_iff, false_and, imp_false, true_and]
  by_cases hout : OptedOut last
  · simp [hout, hI.optedOut hout]
  · rw [hI.optedIn hout]
    cases last with
    | none => exact absurd (.inl rfl) hout
    | some l => simp [hout]

/-- No list that is accepted shuts out the owner permission. -/
theorem LastLimits.permits_owner (hI : LastLimits account t last) : Permits last ownerPermission := by
  by_cases hout : OptedOut last
  · exact .inl hout
  · cases last with
    | none => exact .inl (.inl rfl)
    | some l =>
      obtain ⟨-, hallowed, hdisallowed⟩ := hI.valid l rfl
      refine .inr ⟨l, rfl, ?_⟩
      by_cases hallow : l.allowPerms = []
      · have hdisallow := disallowPerms_ne_nil hout hallow
        exact .inr ⟨hdisallow, hdisallowed.resolve_left hdisallow⟩
      · exact .inl ⟨hallow, hallowed.resolve_left hallow⟩

/-- The owner permission can always change the permissions of an account; another one can unless
    the last accepted `limitauthchg` has excluded it, and without one nothing can be changed while
    there is a restriction. -/
theorem owner_never_locked_out (account : Name) (calls : List AuthCall) :
    let t := Run.exec step ∅ calls
    let last := (Run.exec (Run.observed step (recordLimits account)) (∅, none) calls).2
    (∀ ctx : AuthContext, ⟨account, ownerPermission⟩ ∈ ctx.auth →
      checkAuthChange ctx t account (some ownerPermission) = .ok ()) ∧
    (∀ (ctx : AuthContext) (p : Name), p.isSet → ⟨account, p⟩ ∈ ctx.auth →
      (checkAuthChange ctx t account (some p) = .ok () ↔ Permits last p)) ∧
    ∀ (ctx : AuthContext) (authorizedBy : Option Name),
      authorizedBy = none ∨ authorizedBy = some ⟨0⟩ →
      (checkAuthChange ctx t account authorizedBy = .ok () ↔ OptedOut last) := by
  intro t last
  have hI : LastLimits account t last := by
    have hstep : ∀ (p : AuthLimits × Option LimitAuthChange) (call : AuthCall)
        (q : AuthLimits × Option LimitAuthChange), LastLimits account p.1 p.2 →
        Run.observed step (recordLimits account) p call = .ok q → LastLimits account q.1 q.2 :=
      fun _ _ _ hI h => step_lastLimits hI h
    have hrun := Run.exec_induction hstep (s := (∅, none)) (lastLimits_empty account) calls
    rw [Run.exec_observed_fst] at hrun
    exact hrun
  refine ⟨fun ctx hauth => ?_, fun ctx p hset hauth => hI.permits_iff hset hauth,
    fun ctx authorizedBy hunset => hI.optedOut_iff ?_⟩
  · have hset : ownerPermission.isSet := by decide +kernel
    exact (hI.permits_iff hset hauth).mpr hI.permits_owner
  · rcases hunset with rfl | rfl
    · decide
    · decide

end AuthLimits

end UxContracts
