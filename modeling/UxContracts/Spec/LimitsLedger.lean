import Mathlib.Logic.Function.Basic
import UxContracts.Spec.VoterChange

/-!
# Chain limits follow the ledger

Limits are written by `newaccount`, by the RAM market, by a change of stake and by `setacct`,
each time all three at once. `LimitsInv` says for each of RAM, NET and CPU separately that the
limit of an account is what it was last pinned to while its flag is set, and what the account
owns otherwise. The values that limits are pinned to are kept next to the run (`pinRecord`).
-/

namespace UxContracts

/-! ## Flags -/

/-- The three flags are independent of each other. -/
theorem Quota.isManaged_setManaged (q q' : Quota) (flags1 : UInt32) (value : Bool) :
    q.isManaged (q'.setManaged flags1 value) = if q = q' then value else q.isManaged flags1 := by
  unfold isManaged setManaged
  -- the flag that is set, or another one
  by_cases hq : q = q'
  · subst hq
    rw [if_pos rfl]
    cases value with
    | true =>
      rw [if_pos rfl, UInt32.or_and_self]
      cases q <;> rfl
    | false =>
      -- clearing a flag leaves nothing of it
      have hcancel : ~~~q.flag &&& q.flag = 0 := by cases q <;> rfl
      simp [UInt32.and_assoc, hcancel]
  · rw [if_neg hq]
    cases value with
    | true =>
      -- the flags are different bits
      have hdisjoint : q'.flag &&& q.flag = 0 := by
        revert hq
        cases q <;> cases q' <;> decide
      rw [if_pos rfl, UInt32.or_and_of_disjoint hdisjoint]
    | false =>
      have hkeep : ~~~q'.flag &&& q.flag = q.flag := by
        revert hq
        cases q <;> cases q' <;> decide
      simp only [Bool.false_eq_true, if_false, UInt32.and_assoc, hkeep]

/-- No flag is set in a new row. -/
theorem Quota.isManaged_zero (q : Quota) : q.isManaged 0 = false := by
  cases q <;> rfl

/-- Setting one limit leaves the other two alone. -/
theorem Quota.ofLimits_setLimit (q q' : Quota) (l : ResourceLimits) (value : Int64) :
    q.ofLimits (q'.setLimit l value) = if q = q' then value else q.ofLimits l := by
  cases q <;> cases q' <;> rfl

namespace SystemState

variable {F : Type}

/-! ## What limits are compared with -/

/-- The flag of an account is set. -/
def managed (s : SystemState F) (q : Quota) (account : Name) : Bool :=
  (s.voters.find? account).any fun v => q.isManaged v.flags1

/-- The limit that the chain enforces. -/
def limit (s : SystemState F) (q : Quota) (account : Name) : Int64 :=
  q.ofLimits (s.getResourceLimits account)

/-- Whether a limit is pinned is a flag of the voter's row. -/
theorem managed_eq_base (s : SystemState F) (q : Quota) (account : Name) :
    s.managed q account = (s.baseOf account).any fun b => q.isManaged b.flags1 := by
  unfold managed baseOf
  cases s.voters.find? account <;> rfl

/-- What an account owns: its row, or nothing. -/
theorem ownLimit_eq (s : SystemState F) (q : Quota) (account : Name) :
    s.ownLimit q account = (s.userres.find? account).elim 0 q.ofRow := by
  unfold ownLimit
  split
  · rename_i r hr
    rw [hr, Option.elim_some]
    cases q <;> exact Int64.zero_add _
  · rename_i hr
    rw [hr, Option.elim_none]
    cases q <;> rfl

/-- The limits of an account with a row are those of the row. -/
theorem ownLimit_some {s : SystemState F} {q : Quota} {account : Name} {r : UserResources}
    (h : s.userres.find? account = some r) : s.ownLimit q account = q.ofRow r := by
  rw [ownLimit_eq, h, Option.elim_some]

/-- An empty row is worth as much as none. -/
theorem ownLimit_put {s s' : SystemState F} {account : Name} {r : UserResources}
    (h : s'.userres = s.userres.put account r r.isEmpty) (q : Quota) :
    s'.ownLimit q account = q.ofRow r := by
  rw [ownLimit_eq, h]
  unfold Table.put
  split
  · rename_i he
    rw [Table.find?_erase_self, Option.elim_none]
    simp only [UserResources.isEmpty, decide_eq_true_eq] at he
    cases q with
    | ram => exact he.2.2.symm
    | net => exact he.1.symm
    | cpu => exact he.2.1.symm
  · rw [Table.find?_set_self, Option.elim_some]

theorem getResourceLimits_set (s : SystemState F) (account account' : Name) (l : ResourceLimits) :
    (s.setResourceLimits account l).getResourceLimits account' =
      if account' = account then l else s.getResourceLimits account' := by
  unfold getResourceLimits setResourceLimits
  rw [Table.find?_set]
  split <;> rfl

/-! ## The writers -/

/-- The RAM market sets the limit of RAM, unless it is managed. -/
theorem limit_updateRamLimit (s : SystemState F) (owner account : Name) (ramBytes : Int64)
    (q : Quota) : (s.updateRamLimit owner ramBytes).limit q account =
      if account = owner ∧ q = .ram ∧ s.managed q owner = false then ramBytes
      else s.limit q account := by
  have hall : ((s.voters.find? owner).all fun v => !v.ramManaged) = !s.managed .ram owner := by
    unfold managed
    cases s.voters.find? owner <;> rfl
  unfold updateRamLimit
  rw [hall]
  cases hm : s.managed .ram owner with
  | true =>
    rw [if_neg (by decide), if_neg]
    -- a managed limit is not written
    rintro ⟨-, rfl, hf⟩
    rw [hm] at hf
    cases hf
  | false =>
    simp only [Bool.not_false, if_true]
    unfold limit
    rw [getResourceLimits_set]
    -- an unmanaged one follows the row of the owner
    by_cases ha : account = owner
    · subst ha
      rw [if_pos rfl]
      cases q with
      | ram =>
        rw [if_pos ⟨rfl, rfl, hm⟩]
        exact Int64.add_zero _
      | net =>
        rw [if_neg fun h => nomatch h.2.1]
        rfl
      | cpu =>
        rw [if_neg fun h => nomatch h.2.1]
        rfl
    · rw [if_neg ha, if_neg fun h => ha h.1]

/-- A change of stake sets the limits of the receiver that are not managed. The limit of RAM,
    which it takes the greater value for, and which it does not touch when the two others are
    managed, stays the same if it was what the receiver owns. -/
theorem limit_updateLimits {s : SystemState F} {receiver : Name} {tot : UserResources}
    (hram : s.managed .ram receiver = false → s.limit .ram receiver = tot.ramBytes) (q : Quota) :
    (s.updateLimits receiver tot).limit q receiver =
      if s.managed q receiver then s.limit q receiver else q.ofRow tot := by
  -- the flags are read before anything is written
  have hflags : (s.voters.find? receiver).any VoterInfo.ramManaged = s.managed .ram receiver ∧
      (s.voters.find? receiver).any VoterInfo.netManaged = s.managed .net receiver ∧
      (s.voters.find? receiver).any VoterInfo.cpuManaged = s.managed .cpu receiver :=
    ⟨rfl, rfl, rfl⟩
  simp only [updateLimits, hflags]
  cases hboth : s.managed .net receiver && s.managed .cpu receiver with
  | true =>
    -- nothing is set, and only RAM can follow what the receiver owns
    rw [Bool.and_eq_true] at hboth
    show s.limit q receiver = _
    cases q with
    | ram =>
      cases hm : s.managed .ram receiver with
      | true => rfl
      | false => exact hram hm
    | net => rw [hboth.1]; rfl
    | cpu => rw [hboth.2]; rfl
  | false =>
    -- at least one of the two limits is set, and RAM keeps what it has
    simp only [Bool.false_eq_true, if_false]
    unfold limit at hram ⊢
    rw [getResourceLimits_set, if_pos rfl]
    cases q with
    | ram =>
      cases hm : s.managed .ram receiver with
      | true => rfl
      | false =>
        have hzero : tot.ramBytes + ramGiftBytes = tot.ramBytes := Int64.add_zero _
        have hram : (s.getResourceLimits receiver).ram = tot.ramBytes := hram hm
        show max (tot.ramBytes + ramGiftBytes) (s.getResourceLimits receiver).ram = tot.ramBytes
        rw [hzero, hram]
        exact ite_self _
    | net => rfl
    | cpu => rfl

/-- A change of stake leaves the limits of others alone. -/
theorem limit_updateLimits_ne (s : SystemState F) {receiver account : Name} (tot : UserResources)
    (h : account ≠ receiver) (q : Quota) :
    (s.updateLimits receiver tot).limit q account = s.limit q account := by
  simp only [updateLimits]
  split
  · rfl
  · unfold limit
    rw [getResourceLimits_set, if_neg h]

/-- A change of stakes keeps the RAM of the receiver. -/
theorem updateTotals_ram {s : SystemState F} {receiver : Name} {n c : Asset} {tot : UserResources}
    (h : s.updateTotals receiver n c = .ok tot) : tot.ramBytes = s.ownLimit .ram receiver := by
  simp only [updateTotals, bind_eq_ok, pure_eq_ok] at h
  obtain ⟨tot', htot, _, -, _, -, rfl⟩ := h
  rw [ownLimit_eq]
  cases hfind : s.userres.find? receiver with
  | none =>
    simp only [hfind, pure_eq_ok] at htot
    subst htot
    rfl
  | some r =>
    simp only [hfind, bind_eq_ok, pure_eq_ok] at htot
    obtain ⟨_, -, _, -, rfl⟩ := htot
    rfl

/-- Buying RAM for an account keeps what it has staked. -/
theorem addRamBytes_own {s : SystemState F} {receiver : Name} {bytes : Int64} {res : UserResources}
    (h : s.addRamBytes receiver bytes = .ok res) {q : Quota} (hq : q ≠ .ram) :
    q.ofRow res = s.ownLimit q receiver := by
  rw [ownLimit_eq]
  unfold addRamBytes at h
  split at h
  · rename_i hfind
    simp only [bind_eq_ok, pure_eq_ok, Asset.make_eq_ok] at h
    obtain ⟨sym, -, zero, ⟨-, -, -, rfl⟩, rfl⟩ := h
    rw [hfind]
    cases q with
    | ram => exact absurd rfl hq
    | net => rfl
    | cpu => rfl
  · rename_i r hfind
    simp only [pure_eq_ok] at h
    subst h
    rw [hfind]
    cases q with
    | ram => exact absurd rfl hq
    | net => rfl
    | cpu => rfl

/-! ## The invariant -/

/-- What the limits of an account have last been pinned to. -/
abbrev Pins := Quota → Option Int64

/-- Each limit is what it is pinned to, or what the account owns. -/
def LimitsInv (account : Name) (s : SystemState F) (pins : Pins) : Prop :=
  ∀ q, if s.managed q account then pins q = some (s.limit q account)
    else s.limit q account = s.ownLimit q account

/-- Neither limits nor resources nor flags of the account differ. -/
theorem LimitsInv.of_same {account : Name} {s s' : SystemState F} {pins : Pins}
    (hI : LimitsInv account s pins) (hmanaged : ∀ q, s'.managed q account = s.managed q account)
    (hlimit : ∀ q, s'.limit q account = s.limit q account)
    (hown : ∀ q, s'.ownLimit q account = s.ownLimit q account) : LimitsInv account s' pins := by
  intro q
  rw [hmanaged, hlimit, hown]
  exact hI q

/-- The limits are in line with these three tables. -/
theorem LimitsInv.of_tables {account : Name} {s s' : SystemState F} {pins : Pins}
    (hI : LimitsInv account s pins) (hmanaged : ∀ q, s'.managed q account = s.managed q account)
    (hlimits : s'.limits = s.limits) (huserres : s'.userres = s.userres) :
    LimitsInv account s' pins := by
  refine hI.of_same hmanaged (fun q => ?_) fun q => ?_
  · unfold limit getResourceLimits
    rw [hlimits]
  · unfold ownLimit
    rw [huserres]

/-- A trade on the RAM market. -/
theorem LimitsInv.of_trade {account owner : Name} {s u : SystemState F} {pins : Pins}
    {res : UserResources} (hI : LimitsInv account s pins) (hvoters : u.voters = s.voters)
    (hlimits : u.limits = s.limits) (huserres : u.userres = s.userres.set owner res)
    (hkeep : ∀ q, q ≠ .ram → q.ofRow res = s.ownLimit q owner) :
    LimitsInv account (u.updateRamLimit owner res.ramBytes) pins := by
  -- the trade writes no flag and no other limit
  have hmanaged : ∀ q a, u.managed q a = s.managed q a := by
    intro q a
    unfold managed
    rw [hvoters]
  have hlimit : ∀ q, u.limit q account = s.limit q account := by
    intro q
    unfold limit getResourceLimits
    rw [hlimits]
  obtain ⟨limits, heq⟩ := updateRamLimit_eq u owner res.ramBytes
  intro q
  -- nor does setting the limit of the owner
  have hm : (u.updateRamLimit owner res.ramBytes).managed q account = s.managed q account := by
    rw [heq]
    exact hmanaged q account
  have hown : (u.updateRamLimit owner res.ramBytes).ownLimit q account =
      if account = owner then q.ofRow res else s.ownLimit q account := by
    rw [heq, ownLimit_eq, ownLimit_eq]
    show (u.userres.find? account).elim 0 q.ofRow = _
    rw [huserres, Table.find?_set]
    split <;> rfl
  rw [hm, hown, limit_updateRamLimit, hmanaged, hlimit]
  have hq := hI q
  by_cases ha : account = owner
  · subst ha
    rw [if_pos rfl]
    cases hm : s.managed q account with
    | true =>
      rw [hm] at hq
      -- a managed limit is not written
      have hno : ¬ (account = account ∧ q = .ram ∧ true = false) := fun h => nomatch h.2.2
      rw [if_neg hno]
      exact hq
    | false =>
      rw [hm] at hq
      -- otherwise the new row decides about RAM, and is the old one for the rest
      cases q with
      | ram => exact if_pos ⟨rfl, rfl, rfl⟩
      | net => exact (if_neg fun h => nomatch h.2.1).trans (hq.trans (hkeep .net (by decide)).symm)
      | cpu => exact (if_neg fun h => nomatch h.2.1).trans (hq.trans (hkeep .cpu (by decide)).symm)
  · -- for the other accounts nothing has changed
    have hno : ¬ (account = owner ∧ q = .ram ∧ s.managed q owner = false) := fun h => ha h.1
    rw [if_neg ha, if_neg hno]
    exact hq

/-- A change of stake. -/
theorem LimitsInv.of_totals {account receiver : Name} {s s' : SystemState F} {pins : Pins}
    {n c : Asset} {tot : UserResources} (hI : LimitsInv account s pins)
    (hmanaged : ∀ q, s'.managed q account = s.managed q account)
    (htot : s.updateTotals receiver n c = .ok tot)
    (hlimits : s'.limits = (s.updateLimits receiver tot).limits)
    (huserres : s'.userres = s.userres.put receiver tot tot.isEmpty) :
    LimitsInv account s' pins := by
  -- the limits are those that the block has set
  have hlimit : ∀ q, s'.limit q account = (s.updateLimits receiver tot).limit q account := by
    intro q
    unfold limit getResourceLimits
    rw [hlimits]
  by_cases ha : account = receiver
  · subst ha
    -- for the receiver, RAM keeps what its row has
    have hram : s.managed .ram account = false → s.limit .ram account = tot.ramBytes := by
      intro hm
      have hq := hI .ram
      rw [hm] at hq
      exact hq.trans (updateTotals_ram htot).symm
    intro q
    rw [hmanaged, hlimit, ownLimit_put huserres, limit_updateLimits hram]
    have hq := hI q
    cases hm : s.managed q account with
    | true =>
      rw [hm] at hq
      exact hq
    | false => rfl
  · refine hI.of_same hmanaged (fun q => ?_) fun q => ?_
    · -- no other account is touched
      rw [hlimit, limit_updateLimits_ne s tot ha]
    · rw [ownLimit_eq, ownLimit_eq, huserres, Table.find?_put_ne _ _ _ ha]

variable [Double F]

/-! ## One call -/

/-- The actions of the system contract do not touch flags. -/
theorem step_managed {s s' : SystemState F} {ctx : Context} {a : SystemAction F}
    (direct : a.isDirect) (hrex : s.rexbalance = ∅) (h : s.step ⟨ctx, a⟩ = .ok s') (q : Quota)
    (account : Name) : s'.managed q account = s.managed q account := by
  rw [managed_eq_base, managed_eq_base]
  have hchange : VoterChange s ⟨ctx, .system a direct⟩ s' := step_voterChange hrex h
  cases hchange with
  | same same => rw [same.weights.base]
  -- a vote keeps the flags of its row
  | voted voterName proxy producers direct action vote =>
    obtain ⟨b, hcast, hbase, -⟩ := updateVotes_base vote
    rw [hbase]
    split
    · rename_i hv
      rw [hv, hcast.base]
      rfl
    · rfl
  -- so does a proxy, whose row may be new
  | proxied proxy isproxy direct action reg =>
    obtain ⟨b, hb, -, hbase, -⟩ := regproxy_base reg
    rw [hbase]
    split
    · rename_i hp
      rw [hp]
      rcases hb with ⟨hnone, rfl⟩ | hb
      · rw [hnone]
        exact q.isManaged_zero
      · rw [hb]
        rfl
    · rfl
  -- a change of stake writes the row of the owner with the flags it had
  | staked a direct action p point u vote token =>
    obtain ⟨hbase, -⟩ := updateVotingPower_base vote
    have hstate : ∀ f, p.state.baseOf f = s.baseOf f := by
      intro f
      rw [votingPoint_state hrex point]
      rfl
    rw [token]
    show (u.baseOf account).any _ = _
    rw [hbase, hstate, hstate]
    split
    · rename_i hp
      rw [hp]
      cases s.baseOf p.owner with
      | none => exact q.isManaged_zero
      | some b => rfl
    · rfl
  -- the flags are set by the system account only
  | status notSystem => exact absurd rfl (notSystem a direct)
  | flagged notSystem => exact absurd rfl (notSystem a direct)

/-- The action creates an account. -/
def creates (account : Name) : AccountAction F → Bool
  | .system (.newaccount _ newact) _ => newact = account
  | _ => false

omit [Double F] in
/-- The end of `buyram`. -/
theorem buyram_limits {ctx : Context} {account : Name} {s s' : SystemState F} {pins : Pins}
    {payer receiver : Name} {quant : Asset} {sends : List InlineAction}
    (hI : LimitsInv account s pins) (h : s.buyram ctx payer receiver quant = .ok (s', sends)) :
    LimitsInv account s' pins := by
  simp only [buyram, bind_eq_ok, pure_eq_ok, Prod.mk.injEq] at h
  obtain ⟨_, -, s₁, hsup, _, -, _, -, _, -, _, -, _, -, res, hres, rfl, -⟩ := h
  have heq := (updateRamSupply_spec hsup).eq
  refine hI.of_trade ?_ ?_ ?_ fun q hq => ?_
  · show s₁.voters = _
    rw [heq]
  · show s₁.limits = _
    rw [heq]
  · show s₁.userres.set receiver res = _
    rw [heq]
  · rw [addRamBytes_own hres hq, ownLimit_eq, ownLimit_eq]
    show (s₁.userres.find? receiver).elim 0 q.ofRow = _
    rw [heq]

omit [Double F] in
/-- The end of `sellram`. -/
theorem sellram_limits {ctx : Context} {account : Name} {s s' : SystemState F} {pins : Pins}
    {owner : Name} {bytes : Int64} {sends : List InlineAction}
    (hI : LimitsInv account s pins) (h : s.sellram ctx owner bytes = .ok (s', sends)) :
    LimitsInv account s' pins := by
  simp only [sellram, bind_eq_ok, getRow_eq_ok, pure_eq_ok, Prod.mk.injEq] at h
  obtain ⟨_, -, s₁, hsup, _, -, _, -, res, hres, _, -, _, -, tokens, -, _, -, _, -, rfl, -⟩ := h
  -- growing the market writes neither rows nor limits
  have heq := (updateRamSupply_spec hsup).eq
  have huserres : s₁.userres = s.userres := by rw [heq]
  rw [huserres] at hres
  -- the row with fewer bytes, and the limit that follows it
  let res' : UserResources := { res with ramBytes := res.ramBytes - bytes }
  let u : SystemState F := { s₁ with
    gstate := { s₁.gstate with
      totalRamBytesReserved := s₁.gstate.totalRamBytesReserved - bytes.toUInt64
      totalRamStake := s₁.gstate.totalRamStake - tokens.amount }
    userres := s₁.userres.set owner res' }
  show LimitsInv account (u.updateRamLimit owner res'.ramBytes) pins
  apply hI.of_trade
  · show s₁.voters = _
    rw [heq]
  · show s₁.limits = _
    rw [heq]
  · show s₁.userres.set owner _ = _
    rw [huserres]
  · intro q hq
    rw [ownLimit_some hres]
    cases q with
    | ram => exact absurd rfl hq
    -- stake is not traded
    | net => rfl
    | cpu => rfl

/-- An action of the system contract that does not create the account again. -/
theorem step_limits {account : Name} {s s' : SystemState F} {pins : Pins} {ctx : Context}
    {a : SystemAction F} {direct : a.isDirect} (hrex : s.rexbalance = ∅)
    (hI : LimitsInv account s pins) (hnew : creates account (.system a direct) = false)
    (h : s.step ⟨ctx, a⟩ = .ok s') : LimitsInv account s' pins := by
  have hmanaged := fun q => step_managed direct hrex h q account
  -- inline actions change the token tables only
  have hcommit : ∀ {u : SystemState F} {token : TokenState}, LimitsInv account u pins →
      LimitsInv account { u with token := token } pins := fun hu => hu
  cases a with
  | init version core =>
    obtain ⟨u, sends, token, hr, -, rfl⟩ := commit_eq_ok.mp h
    obtain ⟨m, -, -, -, rfl, -⟩ := init_spec hr
    exact hI.of_tables hmanaged rfl rfl
  | newaccount creator newact =>
    -- a new account is another one
    have hne : account ≠ newact := fun he => by simp [creates, he] at hnew
    simp only [step, newaccount, bind_eq_ok, pure_eq_ok, emplaceRow_eq_ok] at h
    obtain ⟨s₁, hclaim, sym, -, zero, -, userres, ⟨-, rfl⟩, rfl⟩ := h
    have hs₁ := claimName_eq hclaim
    refine hI.of_same hmanaged (fun q => ?_) fun q => ?_
    · unfold limit
      rw [getResourceLimits_set, if_neg hne, hs₁]
      rfl
    · rw [ownLimit_eq, ownLimit_eq]
      show ((s₁.userres.set newact _).find? account).elim 0 q.ofRow = _
      rw [Table.find?_set_ne _ _ hne, hs₁]
  | setram maxRamSize =>
    obtain ⟨m, m', -, -, -, -, rfl⟩ := setram_spec h
    exact hI.of_tables hmanaged rfl rfl
  | setramrate bytesPerBlock =>
    obtain ⟨-, u, hu, rfl⟩ := setramrate_spec h
    have heq := (updateRamSupply_spec hu).eq
    refine hI.of_tables hmanaged ?_ ?_
    · show u.limits = _
      rw [heq]
    · show u.userres = _
      rw [heq]
  | buyram payer receiver quant =>
    obtain ⟨u, sends, token, hr, -, rfl⟩ := commit_eq_ok.mp h
    exact hcommit (buyram_limits hI hr)
  | buyrambytes payer receiver bytes =>
    obtain ⟨u, sends, token, hr, -, rfl⟩ := commit_eq_ok.mp h
    exact hcommit (buyram_limits hI (buyrambytes_spec hr))
  | sellram owner bytes =>
    obtain ⟨u, sends, token, hr, -, rfl⟩ := commit_eq_ok.mp h
    exact hcommit (sellram_limits hI hr)
  | delegatebw from_ receiver net cpu transfer =>
    obtain ⟨u, sends, token, hr, -, rfl⟩ := commit_eq_ok.mp h
    obtain ⟨sym, -, -, -, -, hchange⟩ := delegatebw_changebw hr
    obtain ⟨total, s₀, tot, refunds, deferred, -, -, -, htot, hvote⟩ := changebw_blocks hrex hchange
    -- the limits are set from the totals, and the vote touches none
    have hled := updateVotingPower_ledgers hvote
    exact hI.of_totals hmanaged htot (congrArg Ledgers.limits hled) (congrArg Ledgers.userres hled)
  | undelegatebw from_ receiver net cpu =>
    obtain ⟨u, sends, token, hr, -, rfl⟩ := commit_eq_ok.mp h
    obtain ⟨sym, -, -, -, -, -, hchange⟩ := undelegatebw_changebw hr
    obtain ⟨total, s₀, tot, refunds, deferred, -, -, -, htot, hvote⟩ := changebw_blocks hrex hchange
    have hled := updateVotingPower_ledgers hvote
    exact hI.of_totals hmanaged htot (congrArg Ledgers.limits hled) (congrArg Ledgers.userres hled)
  | refund owner =>
    obtain ⟨u, sends, token, hr, -, rfl⟩ := commit_eq_ok.mp h
    -- a refund sets no limit
    obtain ⟨q, amount, -, -, -, rfl, -⟩ := refund_cases hr
    exact hI.of_tables hmanaged rfl rfl
  | voteproducer voterName proxy producers =>
    have hframe := voteproducer_frame hrex h
    exact hI.of_tables hmanaged (congrArg Ledgers.limits hframe.ledgers) hframe.userres
  | regproxy proxy isproxy =>
    have hframe := regproxy_frame h
    exact hI.of_tables hmanaged (congrArg Ledgers.limits hframe.ledgers) hframe.userres
  | token action =>
    obtain ⟨token, -, rfl⟩ := step_token_spec h
    exact hI.of_tables hmanaged rfl rfl
  | producers producers producers2 scheduleSize => cases direct

omit [Double F] in
/-- Pinning a limit, or letting it go, concerns one limit of one account. -/
theorem managed_setacct {s s' : SystemState F} {q : Quota} {account : Name} {v : VoterInfo F}
    {value : Bool} (hv : (s.voters.find? account = none ∧ v.flags1 = 0) ∨
      s.voters.find? account = some v)
    (hvoters : s'.voters = s.voters.set account { v with flags1 := q.setManaged v.flags1 value })
    (q' : Quota) (account' : Name) : s'.managed q' account' =
      if account' = account ∧ q' = q then value else s.managed q' account' := by
  -- a row that is new has no flag set
  have hold : s.managed q' account = q'.isManaged v.flags1 := by
    unfold managed
    rcases hv with ⟨hnone, hzero⟩ | hsome
    · rw [hnone, hzero, q'.isManaged_zero]
      rfl
    · rw [hsome]
      rfl
  unfold managed at hold ⊢
  rw [hvoters, Table.find?_set]
  by_cases ha : account' = account
  · subst ha
    rw [if_pos rfl]
    show q'.isManaged (q.setManaged v.flags1 value) = _
    rw [Quota.isManaged_setManaged, hold]
    by_cases hq : q' = q
    · -- the flag of this quota is set or cleared
      rw [if_pos hq, if_pos ⟨rfl, hq⟩]
    · have hno : ¬ (account' = account' ∧ q' = q) := fun h => hq h.2
      rw [if_neg hq, if_neg hno]
  · -- the other accounts keep their flags
    have hno : ¬ (account' = account ∧ q' = q) := fun h => ha h.1
    rw [if_neg ha, if_neg hno]

/-- Keep the value that a call pins a limit of the account to. -/
def pinRecord (account : Name) (pins : Pins) (_ : SystemState F) (call : AccountCall F)
    (_ : SystemState F) : Pins :=
  match call.action with
  | .setacctram a (some value) => if a = account then Function.update pins .ram (some value) else pins
  | .setacctnet a (some value) => if a = account then Function.update pins .net (some value) else pins
  | .setacctcpu a (some value) => if a = account then Function.update pins .cpu (some value) else pins
  | _ => pins

omit [Double F] in
/-- A pinned limit is recorded for its account and kind only. -/
theorem pinRecord_setacct {account a : Name} {pins : Pins} {s s' : SystemState F}
    {call : AccountCall F} {q : Quota} {value : Option Int64}
    (h : call.action = setacctAction q a value) (q' : Quota) :
    pinRecord account pins s call s' q' =
      if a = account ∧ q' = q ∧ value ≠ none then value else pins q' := by
  unfold pinRecord
  rw [h]
  cases value with
  | none =>
    have hno : ¬ (a = account ∧ q' = q ∧ (none : Option Int64) ≠ none) := fun h => h.2.2 rfl
    rw [if_neg hno]
    cases q <;> rfl
  | some value =>
    by_cases ha : a = account
    · subst ha
      cases q <;> cases q' <;> simp [setacctAction, Function.update]
    · cases q <;> simp [setacctAction, ha]

/-- Pinning a limit, or freeing it, keeps the limits in line. -/
theorem setacct_limits {account a : Name} {s s' : SystemState F} {pins : Pins}
    {call : AccountCall F} {q : Quota} {value : Option Int64} (hI : LimitsInv account s pins)
    (haction : call.action = setacctAction q a value)
    (h : s.setacct call.ctx q a value = .ok s') :
    LimitsInv account s' (pinRecord account pins s call s') := by
  obtain ⟨v, hv, rfl, -⟩ := setacct_spec h
  -- the flags before the call
  have hflags : (s.voters.find? a = none ∧ v.flags1 = 0) ∨ s.voters.find? a = some v := by
    rcases hv with ⟨hnone, rfl, -⟩ | hsome
    · exact .inl ⟨hnone, rfl⟩
    · exact .inr hsome
  intro q'
  rw [managed_setacct hflags rfl, pinRecord_setacct haction]
  have hq := hI q'
  -- one quota of one account is written
  have hlimit : ∀ l, ({ s with
      voters := s.voters.set a { v with flags1 := q.setManaged v.flags1 (decide (value ≠ none)) }
      limits := s.limits.set a l } : SystemState F).limit q' account =
      if account = a then q'.ofLimits l else s.limit q' account := by
    intro l
    unfold limit
    rw [← apply_ite q'.ofLimits]
    congr 1
    exact getResourceLimits_set s a account l
  rw [hlimit, Quota.ofLimits_setLimit]
  by_cases ha : account = a
  · subst ha
    by_cases hqq : q' = q
    · subst hqq
      cases value with
      -- without a value the limit follows the row again
      | none => simp [ownLimit]
      | some value => simp
    · -- the other quotas of the account
      simpa [hqq, ownLimit, limit] using hq
  · simpa [ha, Ne.symm ha, ownLimit, limit] using hq

/-- Every call that does not create the account again. -/
theorem accountStep_limits {account : Name} {s s' : SystemState F} {pins : Pins}
    {call : AccountCall F} (hrex : s.rexbalance = ∅) (hI : LimitsInv account s pins)
    (hnew : creates account call.action = false) (h : s.accountStep call = .ok s') :
    LimitsInv account s' (pinRecord account pins s call s') := by
  rcases accountStep_cases h with ⟨a, direct, haction, hstep⟩ | ⟨p, active, hreg, hchange, -⟩ |
    ⟨q, a, value, haction, hset⟩
  · -- an action of the system contract pins nothing
    rw [haction] at hnew
    have hpins : pinRecord account pins s call s' = pins := by
      unfold pinRecord
      rw [haction]
    rw [hpins]
    exact step_limits hrex hI hnew hstep
  · -- neither does the registration of a producer
    have hpins : pinRecord account pins s call s' = pins := by
      unfold pinRecord
      cases haction : call.action with
      | setacctram a value => rw [haction] at hreg; cases hreg
      | setacctnet a value => rw [haction] at hreg; cases hreg
      | setacctcpu a value => rw [haction] at hreg; cases hreg
      | _ => rfl
    rw [hpins]
    refine hI.of_tables (fun q => ?_) (congrArg Ledgers.limits hchange.frame.ledgers)
      hchange.frame.userres
    unfold managed
    rw [hchange.voters]
  · -- the three actions that set a limit
    exact setacct_limits hI haction hset

/-! ## Runs -/

/-- An account that is created in a state that a run has reached from empty tables. -/
structure NewAccount (s s' : SystemState F) (account : Name) : Prop where
  reached : ∃ s₀ calls, NoVotes s₀ ∧ s = Run.exec accountStep s₀ calls
  fresh : s.voters.find? account = none
  created : ∃ creator, s.newaccount creator account = .ok s'

/-- A new account has the limits of an empty row and no pins. -/
theorem NewAccount.limitsInv {account : Name} {s s' : SystemState F}
    (h : NewAccount s s' account) : s'.StakeInv ∧ LimitsInv account s' fun _ => none := by
  obtain ⟨s₀, calls, hstart, rfl⟩ := h.reached
  obtain ⟨creator, hcreated⟩ := h.created
  refine ⟨newaccount_stakeInv (exec_accountStep_stakeInv hstart.toEmptyTables.stakeInv calls) hcreated,
    fun q => ?_⟩
  have hfresh := h.fresh
  simp only [newaccount, bind_eq_ok, pure_eq_ok, emplaceRow_eq_ok, Asset.make_eq_ok] at hcreated
  obtain ⟨s₁, hclaim, sym, -, zero, ⟨-, -, -, rfl⟩, userres, ⟨-, rfl⟩, rfl⟩ := hcreated
  -- the account had no row of a voter, hence no flag
  have hvoters : s₁.voters.find? account = none := by
    rw [claimName_eq hclaim]
    exact hfresh
  have hmanaged : (({ s₁ with
      userres := s₁.userres.set account ⟨⟨0, sym⟩, ⟨0, sym⟩, 0⟩ } : SystemState F).setResourceLimits
        account ⟨0, 0, 0⟩).managed q account = false := by
    unfold managed
    show (s₁.voters.find? account).any _ = false
    rw [hvoters]
    rfl
  rw [hmanaged, ownLimit_some (r := ⟨⟨0, sym⟩, ⟨0, sym⟩, 0⟩) (Table.find?_set_self _ _ _)]
  unfold limit
  rw [getResourceLimits_set, if_pos rfl]
  -- all its limits are zero, as is its row
  cases q <;> rfl

/-- After an account has been created, each of its limits is what it was last pinned to while its
    flag is set, and otherwise what its `userres` row says, a missing row counting as zero. -/
theorem limits_follow_ledger {account : Name} {s s' : SystemState F} (h : NewAccount s s' account)
    {calls : List (AccountCall F)} (hcalls : ∀ call ∈ calls, creates account call.action = false) :
    let u := Run.exec accountStep s' calls
    let pins := (Run.exec (Run.observed accountStep (pinRecord account)) (s', fun _ => none) calls).2
    ∀ q, if u.managed q account then pins q = some (u.limit q account)
      else u.limit q account = (u.userres.find? account).elim 0 q.ofRow := by
  intro u pins q
  have hstep : ∀ (p : SystemState F × Pins) call p', p.1.StakeInv ∧ LimitsInv account p.1 p.2 →
      creates account call.action = false →
      Run.observed accountStep (pinRecord account) p call = .ok p' →
      p'.1.StakeInv ∧ LimitsInv account p'.1 p'.2 := by
    intro p call p' ⟨hS, hI⟩ hnew hobs
    obtain ⟨hrun, hrecord⟩ := Run.observed_eq_ok hobs
    rw [hrecord]
    exact ⟨accountStep_stakeInv hS hrun, accountStep_limits hS.noRex hI hnew hrun⟩
  have hend := Run.exec_of_forall hstep (s := (s', fun _ => none)) h.limitsInv hcalls
  rw [Run.exec_observed_fst] at hend
  have hq := hend.2 q
  rw [ownLimit_eq] at hq
  exact hq

/-- Bob is created, gets a stake, and one of his limits is pinned while he is given more. -/
def Sample.created : SystemState Rat := Run.next step start ⟨ctx [alice] launch, .newaccount eosioAccount bob⟩

def Sample.pinning : List (AccountCall Rat) :=
  [⟨ctx [alice] launch, .system (.delegatebw alice bob (utx 300) (utx 200) false) rfl⟩,
    ⟨ctx [eosioAccount] launch, .setacctnet bob (some 7)⟩,
    ⟨ctx [alice] launch, .system (.delegatebw alice bob (utx 100) (utx 100) false) rfl⟩]

open Sample in
/-- In the sample, NET is pinned to 7 and CPU follows the stake. -/
theorem limits_follow_ledger_sample :
    let u := Run.exec accountStep created pinning
    let pins :=
      (Run.exec (Run.observed accountStep (pinRecord bob)) (created, fun _ => none) pinning).2
    pins .net = some (u.limit .net bob) ∧ u.limit .net bob = 7 ∧
      u.limit .cpu bob = (u.userres.find? bob).elim 0 Quota.cpu.ofRow ∧ u.limit .cpu bob = 300 := by
  intro u pins
  have hnew : NewAccount start created bob := by
    refine ⟨⟨start, [], start_noVotes, (Run.exec_nil _ _).symm⟩, ?_, eosioAccount, ?_⟩
    · rw [start_noVotes.voters, Table.find?_empty]
    · have hok : (step start ⟨ctx [alice] launch, .newaccount eosioAccount bob⟩).isOk := by
        decide +kernel
      exact Run.step_eq_next hok
  have hcalls : ∀ call ∈ pinning, creates bob call.action = false := by decide +kernel
  have hnet := limits_follow_ledger hnew hcalls .net
  have hcpu := limits_follow_ledger hnew hcalls .cpu
  have hmanaged : u.managed .net bob = true := by decide +kernel
  have hfree : u.managed .cpu bob = false := by decide +kernel
  rw [if_pos hmanaged] at hnet
  rw [if_neg (by rw [hfree]; decide)] at hcpu
  exact ⟨hnet, by decide +kernel, hcpu, by decide +kernel⟩

end SystemState

end UxContracts
