import UxContracts.Spec.StakeBacking
import UxContracts.Spec.StakingBlocks

/-!
# The rows of stake

A row of `delband` is erased when nothing is left in it, and all amounts of stake are in the
core token (`FilledRows`). So every row of a stake or of a refund stands for at least one unit
that `eosio.stake` holds, and nobody can fill these tables without tokens (`rows_backed`).
-/

namespace UxContracts

namespace SystemState

variable {F : Type}

/-- The rows of stake are in the core token, and no row of `delband` is empty. -/
structure FilledRows (s : SystemState F) : Prop where
  delband : ∀ k d, s.delband.find? k = some d →
    d.netWeight.symbol = s.coreSym ∧ d.cpuWeight.symbol = s.coreSym ∧ 0 < d.net + d.cpu
  userres : ∀ r u, s.userres.find? r = some u →
    u.netWeight.symbol = s.coreSym ∧ u.cpuWeight.symbol = s.coreSym
  uninit : s.rammarket = none → s.delband = ∅ ∧ s.userres = ∅

namespace FilledRows

variable {s s' : SystemState F}

/-- There is a market as soon as an account has a row. -/
theorem market_of_row (hI : s.FilledRows) {r : Name} {u : UserResources}
    (hu : s.userres.find? r = some u) : s.rammarket.isSome := by
  rw [Option.isSome_iff_ne_none]
  intro hnone
  rw [(hI.uninit hnone).2, Table.find?_empty] at hu
  cases hu

theorem of_same (hI : s.FilledRows) (hdel : s'.delband = s.delband)
    (huser : s'.userres = s.userres) (hmarket : SameMarket s s') : s'.FilledRows := by
  refine ⟨?_, ?_, fun hnone => ?_⟩
  · rw [hdel, hmarket.coreSym]
    exact hI.delband
  · rw [huser, hmarket.coreSym]
    exact hI.userres
  · have hm := hmarket.isSome
    rw [hnone, eq_comm, Option.isSome_none, Option.isSome_eq_false_iff,
      Option.isNone_iff_eq_none] at hm
    rw [hdel, huser]
    exact hI.uninit hm

/-- Votes keep rows filled. -/
theorem of_voteFrame (hI : s.FilledRows) (h : VoteFrame s s') : s'.FilledRows :=
  hI.of_same h.delband h.userres (.of_eq h.rammarket)

/-- A row of the totals is written in the core token. -/
theorem of_userres_set (hI : s.FilledRows) {r : Name} {u : UserResources}
    (hdel : s'.delband = s.delband) (huser : s'.userres = s.userres.set r u)
    (hmarket : SameMarket s s') (hm : s.rammarket.isSome)
    (hu : u.netWeight.symbol = s.coreSym ∧ u.cpuWeight.symbol = s.coreSym) : s'.FilledRows := by
  refine ⟨?_, fun r' u' hr => ?_, fun hnone => ?_⟩
  · rw [hdel, hmarket.coreSym]
    exact hI.delband
  · rw [hmarket.coreSym]
    rw [huser, Table.find?_set] at hr
    split at hr
    · cases hr
      exact hu
    · exact hI.userres r' u' hr
  · rw [← hmarket.isSome, hnone] at hm
    cases hm

end FilledRows

/-! ## RAM and accounts -/

theorem RamGrowth.filledRows {s s' : SystemState F} (h : RamGrowth s s') (hI : s.FilledRows) :
    s'.FilledRows := by
  have heq := h.eq
  refine hI.of_same ?_ ?_ h.sameMarket
  · rw [heq]
  · rw [heq]

/-- The row of the buyer's receiver stays in the core token. -/
theorem addRamBytes_symbols {s : SystemState F} {receiver : Name} {bytes : Int64}
    {res : UserResources} (hI : s.FilledRows) (h : s.addRamBytes receiver bytes = .ok res) :
    res.netWeight.symbol = s.coreSym ∧ res.cpuWeight.symbol = s.coreSym := by
  unfold addRamBytes at h
  split at h
  · simp only [bind_eq_ok, pure_eq_ok, Asset.make_eq_ok] at h
    obtain ⟨sym, hsym, zero, ⟨-, -, -, rfl⟩, rfl⟩ := h
    exact ⟨coreSym_of_ok hsym, coreSym_of_ok hsym⟩
  · rename_i u hfind
    simp only [pure_eq_ok] at h
    subst h
    exact hI.userres receiver u hfind

/-- A purchase of RAM fills the row of its receiver. -/
theorem buyram_filledRows {ctx : Context} {s s' : SystemState F} {payer receiver : Name} {q : Asset}
    {sends : List InlineAction} (hI : s.FilledRows)
    (h : s.buyram ctx payer receiver q = .ok (s', sends)) : s'.FilledRows := by
  obtain ⟨s₁, res, limits, hsup, -, -, -, hm, hres, rfl, -⟩ := buyram_spec h
  have hgrow := updateRamSupply_spec hsup
  have hI₁ := hgrow.filledRows hI
  rw [← hgrow.market] at hm
  exact hI₁.of_userres_set rfl rfl (.of_eq rfl) hm (addRamBytes_symbols hI₁ hres)

/-- A sale keeps the symbols of the row. -/
theorem sellram_filledRows {ctx : Context} {s s' : SystemState F} {account : Name} {bytes : Int64}
    {sends : List InlineAction} (hI : s.FilledRows)
    (h : s.sellram ctx account bytes = .ok (s', sends)) : s'.FilledRows := by
  obtain ⟨s₁, res, limits, hsup, -, -, hres, -, -, rfl, -⟩ := sellram_spec h
  have hI₁ := (updateRamSupply_spec hsup).filledRows hI
  exact hI₁.of_userres_set rfl rfl (.of_eq rfl) (hI₁.market_of_row hres) (hI₁.userres account res hres)

/-- A new account has an empty row. -/
theorem newaccount_filledRows {s s' : SystemState F} {creator newact : Name} (hI : s.FilledRows)
    (h : s.newaccount creator newact = .ok s') : s'.FilledRows := by
  simp only [newaccount, bind_eq_ok, pure_eq_ok, Asset.make_eq_ok, emplaceRow_eq_ok] at h
  obtain ⟨s₁, hclaim, sym, hsym, zero, ⟨-, -, -, rfl⟩, userres, ⟨-, rfl⟩, rfl⟩ := h
  have hs₁ := claimName_eq hclaim
  have hmarket : SameMarket s s₁ := by
    rw [hs₁]
    exact .of_eq rfl
  have hI₁ : s₁.FilledRows := by
    rw [hs₁]
    exact hI.of_same rfl rfl (.of_eq rfl)
  have hcore := coreSym_of_ok hsym
  exact hI₁.of_userres_set rfl rfl (.of_eq rfl) (rammarket_isSome_of_ok hsym) ⟨hcore, hcore⟩

/-! ## Stakes -/

/-- What is left of a row of `delband` is in the symbol of the row and not empty. -/
theorem updateDelband_filled {s s₀ : SystemState F} {from_ receiver : Name} {n c : Asset}
    (hI : s.FilledRows) (hn : n.symbol = s.coreSym) (hc : c.symbol = s.coreSym)
    (h : s.updateDelband from_ receiver n c = .ok s₀) {k : Scoped Name Name}
    {d : DelegatedBandwidth} (hk : s₀.delband.find? k = some d) :
    d.netWeight.symbol = s.coreSym ∧ d.cpuWeight.symbol = s.coreSym ∧ 0 < d.net + d.cpu := by
  simp only [updateDelband, bind_eq_ok, check_eq_ok, pure_eq_ok] at h
  obtain ⟨d', hd', _, hn0, _, hc0, rfl⟩ := h
  rcases Table.of_find?_put hk with ⟨-, rfl, hfull⟩ | ⟨-, hk⟩
  · -- the symbols come from the quantities, or from the row
    have hsymbols : d.netWeight.symbol = s.coreSym ∧ d.cpuWeight.symbol = s.coreSym := by
      cases hfind : s.delband.find? ⟨from_, receiver⟩ with
      | none =>
        simp only [hfind, pure_eq_ok] at hd'
        subst hd'
        exact ⟨hn, hc⟩
      | some d₀ =>
        simp only [hfind, bind_eq_ok, pure_eq_ok] at hd'
        obtain ⟨net, hnet, cpu, hcpu, rfl⟩ := hd'
        obtain ⟨-, -, -, rfl⟩ := Asset.add_eq_ok.mp hnet
        obtain ⟨-, -, -, rfl⟩ := Asset.add_eq_ok.mp hcpu
        have hrow := hI.delband _ d₀ hfind
        exact ⟨hrow.1, hrow.2.1⟩
    refine ⟨hsymbols.1, hsymbols.2, ?_⟩
    have hn0 := Int64.le_iff_toInt_le.mp hn0
    have hc0 := Int64.le_iff_toInt_le.mp hc0
    rw [Int64.toInt_zero] at hn0 hc0
    -- an empty row would have been erased
    by_contra hle
    unfold DelegatedBandwidth.net DelegatedBandwidth.cpu at hle
    have hn : d.netWeight.amount = 0 := Int64.toInt_inj.mp (by rw [Int64.toInt_zero]; omega)
    have hc : d.cpuWeight.amount = 0 := Int64.toInt_inj.mp (by rw [Int64.toInt_zero]; omega)
    simp [DelegatedBandwidth.isEmpty, hn, hc] at hfull
  · -- the other rows are as before
    exact hI.delband k d hk

/-- The totals stay in the core token. -/
theorem updateTotals_symbols {s : SystemState F} {receiver : Name} {n c : Asset}
    {tot : UserResources} (hI : s.FilledRows) (hn : n.symbol = s.coreSym)
    (hc : c.symbol = s.coreSym) (h : s.updateTotals receiver n c = .ok tot) :
    tot.netWeight.symbol = s.coreSym ∧ tot.cpuWeight.symbol = s.coreSym := by
  simp only [updateTotals, bind_eq_ok, check_eq_ok, pure_eq_ok] at h
  obtain ⟨tot', htot, _, -, _, -, rfl⟩ := h
  cases hfind : s.userres.find? receiver with
  | none =>
    simp only [hfind, pure_eq_ok] at htot
    subst htot
    exact ⟨hn, hc⟩
  | some u =>
    simp only [hfind, bind_eq_ok, pure_eq_ok] at htot
    obtain ⟨net, hnet, cpu, hcpu, rfl⟩ := htot
    obtain ⟨-, -, -, rfl⟩ := Asset.add_eq_ok.mp hnet
    obtain ⟨-, -, -, rfl⟩ := Asset.add_eq_ok.mp hcpu
    exact hI.userres receiver u hfind

variable [Double F]

/-- A change of stakes erases the rows that it empties. -/
theorem changebw_filledRows {ctx : Context} {s s' : SystemState F} {from_ receiver : Name}
    {n c : Asset} {transfer : Bool} {sends : List InlineAction} (hI : s.FilledRows)
    (hrex : s.rexbalance = ∅) (hm : s.rammarket.isSome) (hn : n.symbol = s.coreSym)
    (h : s.changebw ctx from_ receiver n c transfer = .ok (s', sends)) : s'.FilledRows := by
  obtain ⟨total, s₀, tot, refunds, deferred, htotal, -, hdel, htot, hvote⟩ := changebw_blocks hrex h
  have hc : c.symbol = s.coreSym := (Asset.add_eq_ok.mp htotal).1.trans hn
  have hledgers := updateVotingPower_ledgers hvote
  have hdelband : s'.delband = s₀.delband := congrArg Ledgers.delband hledgers
  have huserres : s'.userres = s.userres.put receiver tot tot.isEmpty :=
    congrArg Ledgers.userres hledgers
  have hmarket : SameMarket s s' := .of_eq (congrArg Ledgers.rammarket hledgers)
  refine ⟨fun k d hk => ?_, fun r u hr => ?_, fun hnone => ?_⟩
  · rw [hmarket.coreSym]
    exact updateDelband_filled hI hn hc hdel (hdelband ▸ hk)
  · rw [hmarket.coreSym]
    rw [huserres] at hr
    rcases Table.of_find?_put hr with ⟨-, rfl, -⟩ | ⟨-, hr⟩
    · exact updateTotals_symbols hI hn hc htot
    · exact hI.userres r u hr
  · rw [← hmarket.isSome, hnone] at hm
    cases hm

/-! ## Runs -/

/-- Every call keeps the rows filled. -/
theorem step_filledRows {s s' : SystemState F} {call : SystemCall F} (hI : s.FilledRows)
    (hrex : s.rexbalance = ∅) (h : s.step call = .ok s') : s'.FilledRows := by
  obtain ⟨ctx, action⟩ := call
  -- the transfer of the tokens writes no row of stake or RAM
  have htoken : ∀ {u : SystemState F} (token : TokenState), u.FilledRows →
      ({ u with token := token } : SystemState F).FilledRows := fun token hu =>
    hu.of_same rfl rfl (.of_eq rfl)
  cases action with
  | init version core =>
    obtain ⟨u, sends, token, hr, -, rfl⟩ := commit_eq_ok.mp h
    obtain ⟨m, hnone, -, -, rfl, -⟩ := init_spec hr
    -- there are no rows yet
    obtain ⟨hdel, huser⟩ := hI.uninit hnone
    refine ⟨fun k d hk => ?_, fun r u hr => ?_, fun _ => ⟨hdel, huser⟩⟩
    · have hk : s.delband.find? k = some d := hk
      rw [hdel, Table.find?_empty] at hk
      cases hk
    · have hr : s.userres.find? r = some u := hr
      rw [huser, Table.find?_empty] at hr
      cases hr
  | newaccount creator newact => exact newaccount_filledRows hI h
  | setram maxRamSize =>
    have hmarket := (setram_stakeFrame h).1.market
    obtain ⟨m, m', -, -, -, -, rfl⟩ := setram_spec h
    exact hI.of_same rfl rfl hmarket
  | setramrate bytesPerBlock =>
    obtain ⟨-, u, hsup, rfl⟩ := setramrate_spec h
    exact ((updateRamSupply_spec hsup).filledRows hI).of_same rfl rfl (.of_eq rfl)
  | buyram payer receiver quant =>
    obtain ⟨u, sends, token, hr, -, rfl⟩ := commit_eq_ok.mp h
    exact htoken token (buyram_filledRows hI hr)
  | buyrambytes payer receiver bytes =>
    obtain ⟨u, sends, token, hr, -, rfl⟩ := commit_eq_ok.mp h
    exact htoken token (buyram_filledRows hI (buyrambytes_spec hr))
  | sellram account bytes =>
    obtain ⟨u, sends, token, hr, -, rfl⟩ := commit_eq_ok.mp h
    exact htoken token (sellram_filledRows hI hr)
  | delegatebw from_ receiver net cpu transfer =>
    obtain ⟨u, sends, token, hr, -, rfl⟩ := commit_eq_ok.mp h
    -- a row is written with the quantities added, and erased if it is empty
    obtain ⟨sym, hsym, hn, -, -, hr⟩ := delegatebw_changebw hr
    exact htoken token (changebw_filledRows hI hrex (rammarket_isSome_of_ok hsym)
      (hn.trans (coreSym_of_ok hsym)) hr)
  | undelegatebw from_ receiver net cpu =>
    obtain ⟨u, sends, token, hr, -, rfl⟩ := commit_eq_ok.mp h
    -- taking back stake adds the negative quantities
    obtain ⟨sym, hsym, hn, -, -, -, hr⟩ := undelegatebw_changebw hr
    exact htoken token (changebw_filledRows (n := net.neg) hI hrex (rammarket_isSome_of_ok hsym)
      (hn.trans (coreSym_of_ok hsym)) hr)
  | refund owner =>
    obtain ⟨u, sends, token, hr, -, rfl⟩ := commit_eq_ok.mp h
    obtain ⟨q, amount, -, -, -, rfl, -⟩ := refund_cases hr
    -- a refund only pays out
    exact hI.of_same rfl rfl (.of_eq rfl)
  | voteproducer voterName proxy producers => exact hI.of_voteFrame (voteproducer_frame hrex h)
  | regproxy proxy isproxy => exact hI.of_voteFrame (regproxy_frame h)
  | token action =>
    obtain ⟨token, -, rfl⟩ := step_token_spec h
    exact htoken token hI
  | producers producers producers2 scheduleSize =>
    simp only [step, Except.ok.injEq] at h
    subst h
    exact hI.of_same rfl rfl (.of_eq rfl)

theorem genesis_filledRows (maxBlockNetUsage : UInt64) (maxBlockCpuUsage : UInt32) :
    (genesis maxBlockNetUsage maxBlockCpuUsage : SystemState F).FilledRows := by
  refine ⟨fun k d hk => ?_, fun r u hr => ?_, fun _ => ⟨rfl, rfl⟩⟩
  · cases hk
  · cases hr

omit [Double F] in
/-- Every row of a stake or of a refund is a part of what `eosio.stake` owes. -/
theorem FilledRows.size_le_backing {s : SystemState F} (hI : s.FilledRows) (hS : s.StakeInv) :
    (s.delband.size + s.refunds.size : Int) ≤ s.backing := by
  have hdel : (s.delband.size : Int) ≤ s.delband.sum fun _ d => d.net + d.cpu :=
    Table.size_le_sum fun k d hk => (hI.delband k d hk).2.2
  have hsplit := s.delband.sum_sub (fun _ d => d.net + d.cpu) fun _ d => d.cpu
  simp only [add_sub_cancel_right] at hsplit
  have hrefunds : (s.refunds.size : Int) ≤ s.refunds.sum fun _ q => q.total :=
    Table.size_le_sum fun f q hq => (hS.rows.refunds f q hq).2.1
  have hbacking : s.backing = (s.delband.sum fun _ d => d.net) + (s.delband.sum fun _ d => d.cpu) +
      s.refunds.sum fun _ q => q.total := by
    simp only [backing, refundTotal, Table.sumOn, if_true]
  omega

/-- The rows of every state that a run reaches are filled. -/
theorem exec_filledRows (maxBlockNetUsage : UInt64) (maxBlockCpuUsage : UInt32)
    (calls : List (SystemCall F)) :
    (Run.exec step (genesis maxBlockNetUsage maxBlockCpuUsage) calls).FilledRows := by
  have hstep : ∀ (s : SystemState F) call s', s.StakeInv ∧ s.FilledRows →
      s.step call = .ok s' → s'.StakeInv ∧ s'.FilledRows := by
    rintro s call s' ⟨hS, hI⟩ h
    exact ⟨step_stakeInv hS h, step_filledRows hI hS.noRex h⟩
  exact (Run.exec_induction (I := fun s : SystemState F => s.StakeInv ∧ s.FilledRows) hstep
    ⟨(genesis_emptyTables _ _).stakeInv, genesis_filledRows _ _⟩ calls).2

/-- Every run from before the first stake keeps the rows filled. -/
theorem BeforeStaking.filledRows {s : SystemState F} (h : s.BeforeStaking)
    (calls : List (SystemCall F)) : (Run.exec step s calls).FilledRows := by
  obtain ⟨maxNet, maxCpu, setup, rfl⟩ := h.reached
  rw [← Run.exec_append]
  exact exec_filledRows maxNet maxCpu (setup ++ calls)

/-- What `eosio.stake` owes stays covered. -/
theorem BeforeStaking.covered {s : SystemState F} (h : s.BeforeStaking) {calls : List (SystemCall F)}
    (hkeep : Run.Meets step KeepsStake s calls) : (Run.exec step s calls).BackingInv ∧
      (Run.exec step s calls).backing ≤ (Run.exec step s calls).stakeBalance := by
  obtain ⟨hI, hzero⟩ := h.backingInv
  obtain ⟨hI', hle⟩ := exec_surplus hI hkeep
  have hnonneg := hI.core.token.balance_nonneg stakeAccount s.coreSym.code
  unfold surplus stakeBalance at hle
  refine ⟨hI', ?_⟩
  unfold stakeBalance
  omega

/-- In every run in which `eosio.stake` neither stakes nor spends, there are at most as many rows
    of stakes and refunds as units of the core token that `eosio.stake` holds: no call can add
    a row without tokens. -/
theorem rows_backed {s : SystemState F} (h : s.BeforeStaking) {calls : List (SystemCall F)}
    (hkeep : Run.Meets step KeepsStake s calls) :
    ((Run.exec step s calls).delband.size + (Run.exec step s calls).refunds.size : Int) ≤
      (Run.exec step s calls).stakeBalance := by
  obtain ⟨hI, hcovered⟩ := h.covered hkeep
  exact ((h.filledRows calls).size_le_backing hI.core.stake).trans hcovered

open Sample in
/-- After the sample there are a stake and a refund. -/
theorem rows_backed_sample :
    (Run.exec step start unstaking).delband.size = 1 ∧
    (Run.exec step start unstaking).refunds.size = 1 ∧
    (1 + 1 : Int) ≤ (Run.exec step start unstaking).stakeBalance := by
  have hstart : start.BeforeStaking := ⟨⟨1048576, 200000, setup, rfl⟩, by decide +kernel,
    Table.eq_empty_of_size (by decide +kernel), Table.eq_empty_of_size (by decide +kernel)⟩
  have hkeep : Run.Meets step KeepsStake start unstaking := by decide +kernel
  have hsample := rows_backed hstart hkeep
  have hdel : (Run.exec step start unstaking).delband.size = 1 := by decide +kernel
  have hrefunds : (Run.exec step start unstaking).refunds.size = 1 := by decide +kernel
  rw [hdel, hrefunds] at hsample
  exact ⟨hdel, hrefunds, hsample⟩

end SystemState

end UxContracts
