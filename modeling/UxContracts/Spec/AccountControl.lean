import UxContracts.Spec.Solvency
import UxContracts.Spec.Wealth

/-!
# What others cannot change

In a run in which an account signs nothing, its vote stays as it is, and its RAM, the stake it has
given and its tokens of any kind do not become fewer (`unsigned_untouched`). An action can do so
only where the account itself is an argument (`SystemAction.uses`), and there it has to sign.
-/

namespace UxContracts

/-- The action can change what `f` controls. -/
def SystemAction.uses {F : Type} (f : Name) : SystemAction F → Bool
  | .voteproducer voterName .. => voterName = f
  | .regproxy proxy _ => proxy = f
  | .sellram account _ => account = f
  | .delegatebw from_ .. | .undelegatebw from_ .. => from_ = f
  | .buyram payer .. | .buyrambytes payer .. => payer = f
  | .token (.transfer from_ ..) => from_ = f
  | .token (.retire ..) => true
  | _ => false

namespace SystemState

variable {F : Type}

/-! ## Votes -/

/-- Whoever keeps the choice in its row keeps its ballot. -/
theorem ballotOf_eq {s s' : SystemState F} {f : Name}
    (h : (s'.baseOf f).map VoterBase.ballot = (s.baseOf f).map VoterBase.ballot) :
    s'.ballotOf f = s.ballotOf f := by
  unfold ballotOf
  rw [h]

/-- The ballots are read from `voters`. -/
theorem ballotOf_of_voters {s s' : SystemState F} (h : s'.voters = s.voters) (f : Name) :
    s'.ballotOf f = s.ballotOf f := by
  unfold ballotOf baseOf
  rw [h]

/-- A change of stake is none of the vote. -/
theorem ballot_changeBase (b : Option VoterBase) (amount : Int64) :
    (changeBase b amount).ballot = (b.map VoterBase.ballot).getD ⟨⟨0⟩, [], false⟩ := by
  cases b with
  | none => rfl
  | some b => rfl

/-- An action that does not use the account neither stakes for it nor spends its stake. -/
theorem spares_of_unused {a : SystemAction F} {f : Name} (h : a.uses f = false) : a.Spares f := by
  cases a with
  | buyram => exact of_decide_eq_false h
  | buyrambytes => exact of_decide_eq_false h
  | delegatebw => exact of_decide_eq_false h
  | undelegatebw => exact of_decide_eq_false h
  | token a =>
    cases a with
    | transfer => exact of_decide_eq_false h
    | retire => cases h
    | _ => trivial
  | _ => trivial

variable [Double F]

/-- Who is used by an action of the system contract has signed it. -/
theorem uses_auth {s s' : SystemState F} {ctx : Context} {a : SystemAction F} {f : Name}
    (h : s.step ⟨ctx, a⟩ = .ok s') (htoken : ∀ t, a ≠ .token t) (huses : a.uses f = true) :
    f ∈ ctx.auth := by
  -- each action that uses the account asks for its authority
  cases a with
  | voteproducer voterName proxy producers =>
    rw [← of_decide_eq_true huses]
    simp only [step, voteproducer, bind_eq_ok, requireAuth_eq_ok] at h
    obtain ⟨_, hauth, -⟩ := h
    exact hauth
  | regproxy proxy isproxy =>
    rw [← of_decide_eq_true huses]
    simp only [step, regproxy, bind_eq_ok, requireAuth_eq_ok] at h
    obtain ⟨_, hauth, -⟩ := h
    exact hauth
  | sellram account bytes =>
    rw [← of_decide_eq_true huses]
    obtain ⟨u, sends, token, hr, -, -⟩ := commit_eq_ok.mp h
    simp only [sellram, bind_eq_ok, requireAuth_eq_ok] at hr
    obtain ⟨_, hauth, -⟩ := hr
    exact hauth
  | delegatebw from_ receiver net cpu transfer =>
    rw [← of_decide_eq_true huses]
    obtain ⟨u, sends, token, hr, -, -⟩ := commit_eq_ok.mp h
    obtain ⟨sym, -, -, -, -, hbw⟩ := delegatebw_changebw hr
    exact changebw_auth hbw
  | undelegatebw from_ receiver net cpu =>
    rw [← of_decide_eq_true huses]
    -- whose stake is delegated must sign
    obtain ⟨u, sends, token, hr, -, -⟩ := commit_eq_ok.mp h
    obtain ⟨sym, -, -, -, -, -, hbw⟩ := undelegatebw_changebw hr
    exact changebw_auth hbw
  | buyram payer receiver quant =>
    rw [← of_decide_eq_true huses]
    obtain ⟨u, sends, token, hr, -, -⟩ := commit_eq_ok.mp h
    exact buyram_auth hr
  | buyrambytes payer receiver bytes =>
    rw [← of_decide_eq_true huses]
    obtain ⟨u, sends, token, hr, -, -⟩ := commit_eq_ok.mp h
    exact buyram_auth (buyrambytes_spec hr)
  | token t => exact absurd rfl (htoken t)
  | _ => cases huses

/-- An account that uses no action it has signed is not used by any. -/
theorem uses_eq_false {s s' : SystemState F} {ctx : Context} {a : SystemAction F} {f : Name}
    (h : s.step ⟨ctx, a⟩ = .ok s') (htoken : ∀ t, a ≠ .token t)
    (huses : f ∈ ctx.auth → a.uses f = false) : a.uses f = false := by
  cases hu : a.uses f with
  | false => rfl
  | true => exact hu.symm.trans (huses (uses_auth h htoken hu))

/-- An action changes the vote of an account that has signed it. -/
theorem step_ballot {s s' : SystemState F} {ctx : Context} {a : SystemAction F} {f : Name}
    (direct : a.isDirect) (hrex : s.rexbalance = ∅) (h : s.step ⟨ctx, a⟩ = .ok s')
    (huses : f ∈ ctx.auth → a.uses f = false) : s'.ballotOf f = s.ballotOf f := by
  have hchange : VoterChange s ⟨ctx, .system a direct⟩ s' := step_voterChange hrex h
  -- the choice of a voter changes only by its own vote or registration
  cases hchange with
  | same same => exact ballotOf_of_voters same.voters f
  | voted voterName proxy producers direct action vote =>
    cases action
    obtain ⟨b, -, hbase, -⟩ := updateVotes_base vote
    -- the voter is another account, since this one has not signed
    have hne : f ≠ voterName := by
      rintro rfl
      exact of_decide_eq_false (uses_eq_false h (by simp) huses) rfl
    exact ballotOf_eq (by rw [hbase, if_neg hne])
  | proxied proxy isproxy direct action reg =>
    cases action
    obtain ⟨b, -, -, hbase, -⟩ := regproxy_base reg
    have hne : f ≠ proxy := by
      rintro rfl
      exact of_decide_eq_false (uses_eq_false h (by simp) huses) rfl
    exact ballotOf_eq (by rw [hbase, if_neg hne])
  -- a change of stake writes the row with the choice that was there
  | staked a direct action p point u vote token =>
    obtain ⟨hbase, -⟩ := updateVotingPower_base vote
    have hstate := votingPoint_state hrex point
    have hvoters : p.state.baseOf = s.baseOf := by
      rw [hstate]
      rfl
    have hsame : s'.baseOf f = u.baseOf f := by
      rw [token]
      rfl
    unfold ballotOf
    rw [hsame, hbase, hvoters]
    split
    · rename_i hf
      rw [hf, Option.map_some, Option.getD_some]
      exact ballot_changeBase _ _
    · rfl
  | status notSystem p active change selfStaked => exact absurd rfl (notSystem a direct)
  | flagged notSystem account v flags1 row limits change => exact absurd rfl (notSystem a direct)

/-! ## RAM -/

omit [Double F] in
/-- If one account's RAM is stored and the total does not become less, no account has less. -/
theorem RamRows.ram_le {s s' : SystemState F} {r : Name} {u : UserResources} (hI : s.RamRows)
    (hI' : s'.RamRows) (huser : s'.userres = s.userres.set r u)
    (hle : s.gstate.totalRamBytesReserved.toNat ≤ s'.gstate.totalRamBytesReserved.toNat) (f : Name) :
    s.userres.valueAt f UserResources.ram ≤ s'.userres.valueAt f UserResources.ram := by
  have hsum := Table.sumOn_set s.userres r u (fun _ => True) UserResources.ram
  rw [← huser, hI.sum, hI'.sum, if_pos trivial] at hsum
  rw [huser, Table.valueAt_set]
  split
  · rename_i hf
    rw [hf]
    omega
  · exact le_refl _

omit [Double F] in
/-- What is reserved fits in 59 bits, since it has been paid for. -/
theorem LedgerInv.reserved_lt {s : SystemState F} (hI : s.LedgerInv) :
    s.gstate.totalRamBytesReserved.toNat < 2 ^ 59 := by
  have hprice := hI.price
  have hbounds := hI.totalRamStake_bounds
  omega

omit [Double F] in
/-- A purchase takes no RAM from anybody. -/
theorem buyram_ram_le {ctx : Context} {s u s' : SystemState F} {payer receiver : Name} {q : Asset}
    {sends : List InlineAction} (hI : s.LedgerInv) (hI' : s'.LedgerInv)
    (h : s.buyram ctx payer receiver q = .ok (u, sends)) (huser : s'.userres = u.userres)
    (hres : s'.gstate.totalRamBytesReserved = u.gstate.totalRamBytesReserved) (f : Name) :
    s.userres.valueAt f UserResources.ram ≤ s'.userres.valueAt f UserResources.ram := by
  obtain ⟨s₁, res, limits, hsup, -, hmod, hpos, -, -, rfl, -⟩ := buyram_spec h
  obtain ⟨k, hk, hq, hbytes⟩ := buyram_bytes hmod hpos
  have hgrow := (updateRamSupply_spec hsup).eq
  refine hI.ram.ram_le hI'.ram (u := res) (r := receiver) ?_ ?_ f
  · rw [huser, hgrow]
  · -- the new total does not wrap around
    have hlt := hI.reserved_lt
    have hnat := Int64.toNat_toUInt64_of_nonneg (a := q.amount / 10000 * 1024) (by omega)
    have hlt' := (q.amount / 10000 * 1024).toInt_lt
    rw [hres, hgrow]
    show _ ≤ (s.gstate.totalRamBytesReserved + (q.amount / 10000 * 1024).toUInt64).toNat
    rw [UInt64.toNat_add_of_lt' (by omega)]
    omega

/-- An action takes RAM from an account that has signed it. -/
theorem step_ram_le {s s' : SystemState F} {ctx : Context} {a : SystemAction F} {f : Name}
    (hI : s.LedgerInv) (hI' : s'.LedgerInv) (h : s.step ⟨ctx, a⟩ = .ok s')
    (huses : f ∈ ctx.auth → a.uses f = false) :
    s.userres.valueAt f UserResources.ram ≤ s'.userres.valueAt f UserResources.ram := by
  have hcore : ∀ sym, s.coreSymbol = .ok sym → sym = s.coreSym := fun _ => coreSym_of_ok
  have hS := hI.core.stake
  -- most actions leave the table of RAM and stake alone
  have hsame : ∀ {t : Table Name UserResources}, t = s.userres →
      s.userres.valueAt f UserResources.ram ≤ t.valueAt f UserResources.ram := by
    rintro t rfl
    exact le_refl _
  -- a change of stake keeps the RAM of the row, and erases it only if it is empty
  have hstake : ∀ {u : SystemState F} {source owner receiver : Name} {n c : Asset}
      {sends : List InlineAction}, StakeChange s.coreSym s u source owner receiver n c sends →
      s.userres.valueAt f UserResources.ram ≤ u.userres.valueAt f UserResources.ram := by
    intro u source owner receiver n c sends hchange
    obtain ⟨v, huser, -, -, -, hram⟩ := hchange.userres
    have hram : v.ram = s.userres.valueAt receiver UserResources.ram := hram
    have hzero : v.isEmpty = true → v.ram = 0 := fun he => (UserResources.zero_of_isEmpty he).2.2
    rw [huser, Table.valueAt_put _ _ _ _ hzero]
    split
    · rename_i hf
      rw [hf, hram]
    · exact le_refl _
  cases a with
  | init version core =>
    obtain ⟨u, sends, token, hr, -, rfl⟩ := commit_eq_ok.mp h
    obtain ⟨m, -, -, -, rfl, -⟩ := init_spec hr
    exact hsame rfl
  | newaccount creator newact =>
    obtain ⟨zero, bids, limits, -, -, hnone, rfl⟩ := newaccount_spec h
    -- there has been no row of the new account
    show _ ≤ (s.userres.set newact ⟨zero, zero, 0⟩).valueAt f UserResources.ram
    rw [Table.valueAt_set]
    split
    · rename_i hf
      rw [hf, Table.valueAt_none hnone]
      exact Int64.toInt_zero.ge
    · exact le_refl _
  | setram maxRamSize =>
    obtain ⟨m, m', -, -, -, -, rfl⟩ := setram_spec h
    exact hsame rfl
  | setramrate bytesPerBlock =>
    obtain ⟨-, u, hsup, rfl⟩ := setramrate_spec h
    have hgrow := (updateRamSupply_spec hsup).eq
    exact hsame (by rw [hgrow])
  | buyram payer receiver quant =>
    obtain ⟨u, sends, token, hr, -, rfl⟩ := commit_eq_ok.mp h
    exact buyram_ram_le hI hI' hr rfl rfl f
  | buyrambytes payer receiver bytes =>
    obtain ⟨u, sends, token, hr, -, rfl⟩ := commit_eq_ok.mp h
    exact buyram_ram_le hI hI' (buyrambytes_spec hr) rfl rfl f
  | sellram account bytes =>
    -- who sells has signed
    have hne : account ≠ f := of_decide_eq_false (uses_eq_false h (by simp) huses)
    obtain ⟨u, sends, token, hr, -, rfl⟩ := commit_eq_ok.mp h
    obtain ⟨s₁, res, limits, hsup, -, -, -, -, -, rfl, -⟩ := sellram_spec hr
    have hgrow := (updateRamSupply_spec hsup).eq
    show _ ≤ (s₁.userres.set account _).valueAt f UserResources.ram
    rw [Table.valueAt_set_ne _ _ hne.symm, hgrow]
  | delegatebw from_ receiver net cpu transfer =>
    obtain ⟨u, sends, token, hr, -, rfl⟩ := commit_eq_ok.mp h
    obtain ⟨-, -, -, -, hchange⟩ := delegatebw_spec hS.rows hS.noRex hS.stakedOf_nonneg hcore hr
    exact hstake (u := u) hchange
  | undelegatebw from_ receiver net cpu =>
    obtain ⟨u, sends, token, hr, -, rfl⟩ := commit_eq_ok.mp h
    obtain ⟨-, -, -, -, hchange⟩ := undelegatebw_spec hS.rows hS.noRex hS.stakedOf_nonneg hcore hr
    exact hstake (u := u) hchange
  | refund owner =>
    obtain ⟨u, sends, token, hr, -, rfl⟩ := commit_eq_ok.mp h
    obtain ⟨q, amount, -, -, -, rfl, -⟩ := refund_cases hr
    -- a refund and a vote write no RAM
    exact hsame rfl
  | voteproducer voterName proxy producers => exact hsame (voteproducer_frame hS.noRex h).userres
  | regproxy proxy isproxy => exact hsame (regproxy_frame h).userres
  | token action =>
    obtain ⟨token, -, rfl⟩ := step_token_spec h
    exact hsame rfl
  | producers producers producers2 scheduleSize =>
    simp only [step, Except.ok.injEq] at h
    subst h
    exact hsame rfl

/-! ## Stakes -/

/-- An action lowers the stake that an account has given if the account has signed it. -/
theorem step_staked_le {s s' : SystemState F} {ctx : Context} {a : SystemAction F} {f : Name}
    (hI : s.CoreToken) (hm : s.rammarket.isSome) (h : s.step ⟨ctx, a⟩ = .ok s')
    (huses : f ∈ ctx.auth → a.uses f = false) : s.stakedOf f ≤ s'.stakedOf f := by
  have hS := hI.stake
  have hcore : ∀ sym, s.coreSymbol = .ok sym → sym = s.coreSym := fun _ => coreSym_of_ok
  cases hother : movesStake a with
  | false =>
    -- no stake moves
    have hframe := step_stakeFrame hS.noRex (isInit_eq_false hm h) hother h
    exact (stakedOf_eq hS (step_stakeInv hS h) hframe.delband f).ge
  | true =>
    cases a with
    | delegatebw from_ receiver net cpu transfer =>
      obtain ⟨u, sends, token, hr, -, rfl⟩ := commit_eq_ok.mp h
      obtain ⟨-, -, hn0, hc0, hchange⟩ := delegatebw_spec hS.rows hS.noRex hS.stakedOf_nonneg hcore hr
      -- a delegation adds to the stake of its owner
      refine le_of_le_of_eq ?_ (hchange.staked f).symm
      split
      · omega
      · omega
    | undelegatebw from_ receiver net cpu =>
      -- who takes back stake has signed
      have hne : from_ ≠ f := of_decide_eq_false (uses_eq_false h (by simp) huses)
      obtain ⟨u, sends, token, hr, -, rfl⟩ := commit_eq_ok.mp h
      obtain ⟨-, -, -, -, hchange⟩ := undelegatebw_spec hS.rows hS.noRex hS.stakedOf_nonneg hcore hr
      refine le_of_le_of_eq ?_ (hchange.staked f).symm
      rw [if_neg hne.symm, add_zero]
    | refund owner =>
      obtain ⟨u, sends, token, hr, -, rfl⟩ := commit_eq_ok.mp h
      obtain ⟨q, amount, -, -, -, rfl, -⟩ := refund_cases hr
      -- a refund is paid from what is no stake any more
      exact le_refl _
    | _ => cases hother

end SystemState

namespace Deployment

open SystemState

variable {F K H : Type}

/-- The action can change what `f` controls. -/
def uses (f : Name) : DeploymentAction F K H → Bool
  | .election (.system a _) => a.uses f
  | .bidname bidder .. => bidder = f
  | _ => false

/-- The account has the same vote, and no less RAM, stake or tokens of any kind. -/
structure Untouched (f : Name) (d d' : Deployment F K H) : Prop where
  ballot : d'.sys.ballotOf f = d.sys.ballotOf f
  ram : d.sys.userres.valueAt f UserResources.ram ≤ d'.sys.userres.valueAt f UserResources.ram
  staked : d.sys.stakedOf f ≤ d'.sys.stakedOf f
  tokens : ∀ c, d.sys.token.balance f c ≤ d'.sys.token.balance f c

/-- Only a bid on a name is a bid in the auctions. -/
theorem auctionAction_bidname {action : DeploymentAction F K H} {bidder newname : Name}
    {bid : Asset} (h : auctionAction action = some (.bidname bidder newname bid)) :
    action = .bidname bidder newname bid := by
  cases action with
  | bidname =>
    cases h
    rfl
  | election action =>
    cases action with
    | _ => cases h
  | _ => cases h

namespace Untouched

variable {f : Name} {d d' d'' : Deployment F K H}

theorem refl (f : Name) (d : Deployment F K H) : Untouched f d d :=
  ⟨rfl, le_refl _, le_refl _, fun _ => le_refl _⟩

theorem trans (h : Untouched f d d') (h' : Untouched f d' d'') : Untouched f d d'' :=
  ⟨h'.ballot.trans h.ballot, h.ram.trans h'.ram, h.staked.trans h'.staked,
    fun c => (h.tokens c).trans (h'.tokens c)⟩

/-- What keeps the books touches nobody. -/
theorem of_books (h : Books d.sys d'.sys) : Untouched f d d' :=
  ⟨h.ballots f, by rw [h.userres], by rw [h.staked], fun c => by rw [h.token]⟩

variable [Double F]

/-- An action of the system contract that does not use the account, or is not signed by it. -/
theorem system {ctx : Context} {a : SystemAction F} {s' : SystemState F} (direct : a.isDirect)
    (hI : Solvent d) (hI' : Solvent (d.setSys s')) (hm : d.sys.rammarket.isSome)
    (hf : f ∉ custodians) (huses : f ∈ ctx.auth → a.uses f = false)
    (h : d.sys.step ⟨ctx, a⟩ = .ok s') : Untouched f d (d.setSys s') := by
  refine ⟨step_ballot direct hI.core.stake.noRex h huses, step_ram_le hI.ram hI'.ram h huses,
    step_staked_le hI.core hm h huses, fun c => ?_⟩
  have hpays : a.paysFrom ≠ some f := by
    intro hp
    rcases Solvent.paysFrom_cases hp with ⟨he, -⟩ | ⟨he, -⟩
    · exact hf (by rw [he]; decide +kernel)
    · exact hf (by rw [he]; decide +kernel)
  refine step_balance_le hI.core h ?_ hpays c
  by_cases hauth : f ∈ ctx.auth
  · exact .inl (spares_of_unused (huses hauth))
  · exact .inr hauth

variable [Inhabited K] [Checksum H]

/-- A call that does not use the account, or is not signed by it. -/
theorem step {isValid : BlockSigningAuthority K → Bool} {call : DeploymentCall F K H}
    (hI : Solvent d) (hm : d.sys.rammarket.isSome) (hf : f ∉ custodians) (hkeyless : Keyless call)
    (huses : f ∈ call.ctx.auth → uses f call.action = false)
    (h : d.step isValid call = .ok d') : Untouched f d d' := by
  have hI' := hI.step hkeyless h
  cases step_change h with
  | system a direct action hstep rest =>
    rw [action] at huses
    rw [rest] at hI' ⊢
    exact system direct hI hI' hm hf huses hstep
  -- an auction touches no tokens but those of the bidder and the custodians
  | auction a action hstep same =>
    have hcall := isSystem_auctionAction action
    obtain ⟨hsame, -⟩ := AuctionState.step_tokens hcall hstep
    have hsame : AuctionState.SameSystem d.sys d'.sys := hsame
    have hvoters : d'.sys.voters = d.sys.voters := by rw [hsame]
    refine ⟨ballotOf_of_voters hvoters f, by rw [hsame], ?_, fun c => ?_⟩
    · unfold stakedOf
      rw [hvoters]
    · refine AuctionState.step_balance_le hI.escrow hcall hstep (fun bidder newname bid hbid => ?_)
        (fun he => hf (by rw [← he]; decide +kernel)) c
      by_cases hauth : f ∈ call.ctx.auth
      · obtain rfl : a = .bidname bidder newname bid := hbid
        have huses := huses hauth
        rw [auctionAction_bidname action] at huses
        exact of_decide_eq_false huses
      · exact AuctionState.bidder_ne hstep hauth bidder newname bid hbid
  | books action books same refunds => exact .of_books books
  -- what is issued for usage and paid out comes from the custodians
  | resource a own action hstep rest =>
    obtain ⟨hsys, -⟩ : d'.sys = { d.sys with token := d'.sys.token } ∧ _ :=
      ResourceState.own_sys hI.core.token own hstep
    have hvoters : d'.sys.voters = d.sys.voters := by rw [hsys]
    refine ⟨ballotOf_of_voters hvoters f, by rw [hsys], ?_, fun c => ?_⟩
    · unfold stakedOf
      rw [hvoters]
    · exact own_balance_le hI.toProper hf own hstep c
  -- the chain runs a refund, which gives the owner tokens
  | deferred sender trx u action taken run rest =>
    have hbooks : Books d.sys (d.setSys u).sys := .of_takeDeferred taken
    have hu : Solvent (d.setSys u) := hI.books hbooks rfl rfl
    refine (of_books hbooks).trans ?_
    rw [rest, run] at hI' ⊢
    cases hs : SystemState.step u ⟨call.ctx.withAuth [trx.owner], .refund trx.owner⟩ with
    | error e =>
      rw [Run.next_of_error hs]
      exact .refl f _
    | ok s' =>
      rw [Run.next_of_ok hs] at hI' ⊢
      have hm : (d.setSys u).sys.rammarket.isSome := hbooks.rammarket.symm ▸ hm
      exact system rfl hu hI' hm hf (fun _ => rfl) hs

end Untouched

/-! ## Runs -/

variable [Double F] [Inhabited K] [Checksum H]

/-- Whatever is called in whatever order, an account that signs nothing about its vote, RAM,
    stakes and tokens keeps its vote, and has no less of the rest. Nobody signs for the four
    accounts that hold what belongs to others. -/
theorem unsigned_untouched (isValid : BlockSigningAuthority K → Bool) (maxBlockNetUsage : UInt64)
    (maxBlockCpuUsage : UInt32) {setup calls : List (DeploymentCall F K H)} {f : Name}
    (hm : (Run.exec (step isValid) (genesis maxBlockNetUsage maxBlockCpuUsage)
      setup).sys.rammarket.isSome)
    (hf : f ∉ custodians) (hkeyless : ∀ call ∈ setup ++ calls, Keyless call)
    (huses : ∀ call ∈ calls, f ∈ call.ctx.auth → uses f call.action = false) :
    let d := Run.exec (step isValid) (genesis maxBlockNetUsage maxBlockCpuUsage) setup
    Untouched f d (Run.exec (step isValid) d calls) := by
  intro d
  have hstart : Solvent d ∧ d.sys.rammarket.isSome :=
    ⟨exec_solvent isValid _ _ fun call hc => hkeyless call (List.mem_append_left _ hc), hm⟩
  refine (Run.exec_rel (I := fun d => Solvent d ∧ d.sys.rammarket.isSome)
    (C := fun _ call => Keyless call ∧ (f ∈ call.ctx.auth → uses f call.action = false))
    (R := Untouched f) (Untouched.refl f) (fun _ _ _ => Untouched.trans)
    (fun d call d' hI hC h => ?_) hstart (Run.meets_of_forall fun call hc =>
      ⟨hkeyless call (List.mem_append_right _ hc), huses call hc⟩)).2
  obtain ⟨hI, hm⟩ := hI
  refine ⟨⟨hI.step hC.1 h, ?_⟩, .step hI hm hf hC.1 hC.2 h⟩
  rw [(hI.toProper.step_sameMarket hm h).isSome]
  exact hm

/-- Alice gets a stake, registers, votes for herself and buys RAM. -/
def Sample.owning : List (DeploymentCall Rat Nat (List Char)) :=
  launching ++ claims.take 3 ++
    [direct SystemState.Sample.alice
      (.buyram SystemState.Sample.alice SystemState.Sample.alice (SystemState.Sample.utxram 300000))
      rfl]

/-- Bob stakes, votes, bids and gives alice tokens, and tries to take some of hers. -/
def Sample.dealing : List (DeploymentCall Rat Nat (List Char)) :=
  [direct SystemState.Sample.bob
      (.delegatebw SystemState.Sample.bob SystemState.Sample.bob (SystemState.Sample.utx 100)
        (SystemState.Sample.utx 200) false) rfl,
    direct SystemState.Sample.bob
      (.voteproducer SystemState.Sample.bob ⟨0⟩ [SystemState.Sample.alice]) rfl,
    call systemAccount (.election (.onblock 1000 SystemState.Sample.alice true)),
    call SystemState.Sample.bob (.bidname SystemState.Sample.bob AuctionState.Sample.com
      (SystemState.Sample.utx 20000)),
    direct SystemState.Sample.bob (.token (.transfer SystemState.Sample.bob
      SystemState.Sample.alice (SystemState.Sample.utx 300) "gift")) rfl,
    direct SystemState.Sample.bob (.token (.transfer SystemState.Sample.alice
      SystemState.Sample.bob (SystemState.Sample.utx 400) "theft")) rfl]

open SystemState.Sample Sample in
/-- Alice has a vote, RAM, a stake and tokens, and keeps them while bob is at work. -/
theorem unsigned_untouched_sample :
    let d := Run.exec (step isValid) Sample.start owning
    let d' := Run.exec (step isValid) d dealing
    Untouched alice d d' ∧
      (d.sys.voters.find? alice).map VoterInfo.producers = some [alice] ∧
      d.sys.userres.valueAt alice UserResources.ram = 30720 ∧
      d.sys.stakedOf alice = 1500000000000 ∧
      d.sys.token.balance alice core.code = 100000 ∧
      d'.sys.token.balance alice core.code = 100300 := by
  have hm : (Run.exec (step isValid) (genesis 1048576 200000) owning).sys.rammarket.isSome := by
    decide +kernel
  have hf : alice ∉ custodians := by decide +kernel
  have hkeyless : ∀ call ∈ owning ++ dealing, Keyless call := by decide +kernel
  have huses : ∀ call ∈ dealing, alice ∈ call.ctx.auth → uses alice call.action = false := by
    decide +kernel
  unfold Sample.start
  refine ⟨unsigned_untouched isValid 1048576 200000 hm hf hkeyless huses, ?_, ?_, ?_, ?_, ?_⟩
  · decide +kernel
  · decide +kernel
  · decide +kernel
  · decide +kernel
  · decide +kernel

end Deployment

end UxContracts
