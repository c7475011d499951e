import UxContracts.Native.Auction
import UxContracts.Spec.CoreToken
import UxContracts.Spec.StakingBlocks

/-!
# What a call does to the auctions

Bids are placed by `bidname`, closed by `onblock` and used up by `newaccount`, and no other
action of the system contract writes to them (`step_bids`). `AuctionChange` lists what a
successful call can do.
-/

namespace UxContracts

namespace SystemState

variable {F : Type}

/-! ## Actions of the system contract -/

/-- A name that is sold by auction: it has a dot, or less than twelve characters, and is its
    own suffix. -/
def Premium (n : Name) : Prop := hasDot n = true ∧ n.suffix = n

instance (n : Name) : Decidable (Premium n) := inferInstanceAs (Decidable (_ ∧ _))

/-- The account is made from a closed auction that its creator has won. -/
def ClaimsBid (s s' : SystemState F) (creator newact : Name) : Prop :=
  ∃ b, s.bids.find? newact = some b ∧ b.highBidder = creator ∧ b.highBid < 0 ∧
    s'.bids = s.bids.erase newact

/-- A new account uses up the closed auction of a premium name and leaves the others alone. -/
theorem newaccount_bids {s s' : SystemState F} {creator newact : Name}
    (h : s.newaccount creator newact = .ok s') :
    if creator ≠ systemAccount ∧ Premium newact then ClaimsBid s s' creator newact
    else s'.bids = s.bids := by
  simp only [newaccount, bind_eq_ok, pure_eq_ok] at h
  obtain ⟨s₁, hclaim, sym, -, zero, -, userres, -, rfl⟩ := h
  show if _ then ClaimsBid s _ creator newact else s₁.bids = s.bids
  simp only [claimName] at hclaim
  split at hclaim
  · rename_i hdot
    split at hclaim
    · rename_i hsuffix
      simp only [bind_eq_ok, check_eq_ok, getRow_eq_ok, pure_eq_ok] at hclaim
      obtain ⟨b, hb, _, hbidder, _, hclosed, rfl⟩ := hclaim
      rw [if_pos ⟨hdot.1, hdot.2, hsuffix⟩]
      exact ⟨b, hb, hbidder, hclosed, rfl⟩
    · rename_i hsuffix
      simp only [bind_eq_ok, check_eq_ok, pure_eq_ok] at hclaim
      obtain ⟨_, -, rfl⟩ := hclaim
      rw [if_neg fun hp => hsuffix hp.2.2]
  · rename_i hdot
    cases hclaim
    rw [if_neg fun hp => hdot ⟨hp.1, hp.2.1⟩]

variable [Double F]

/-- A change of stakes leaves the auctions alone. -/
theorem changebw_bids {ctx : Context} {s s' : SystemState F} {from_ receiver : Name}
    {n c : Asset} {transfer : Bool} {sends : List InlineAction} (hrex : s.rexbalance = ∅)
    (h : s.changebw ctx from_ receiver n c transfer = .ok (s', sends)) : s'.bids = s.bids := by
  obtain ⟨total, s₀, tot, refunds, deferred, -, -, -, -, hvote⟩ := changebw_blocks hrex h
  exact congrArg Ledgers.bids (updateVotingPower_ledgers hvote)

/-- Only `newaccount` uses up a bid. -/
theorem step_bids {s s' : SystemState F} {call : SystemCall F} (hrex : s.rexbalance = ∅)
    (h : s.step call = .ok s') : s'.bids = s.bids ∨ ∃ creator newact,
      call.action = .newaccount creator newact ∧ creator ≠ systemAccount ∧ Premium newact ∧
        ClaimsBid s s' creator newact := by
  obtain ⟨ctx, action⟩ := call
  cases action with
  -- only a new account takes a bid away
  | newaccount creator newact =>
    have hbids := newaccount_bids h
    split at hbids
    · rename_i hp
      exact .inr ⟨creator, newact, rfl, hp.1, hp.2, hbids⟩
    · exact .inl hbids
  -- the other actions leave the table of bids as it is
  | init version core =>
    obtain ⟨u, sends, token, hr, -, rfl⟩ := commit_eq_ok.mp h
    obtain ⟨m, -, -, -, rfl, -⟩ := init_spec hr
    exact .inl rfl
  | setram maxRamSize =>
    obtain ⟨m, m', -, -, -, -, rfl⟩ := setram_spec h
    exact .inl rfl
  | setramrate bytesPerBlock =>
    obtain ⟨-, u, hsup, rfl⟩ := setramrate_spec h
    have hgrow := (updateRamSupply_spec hsup).eq
    left
    rw [hgrow]
  | buyram payer receiver quant =>
    obtain ⟨u, sends, token, hr, -, rfl⟩ := commit_eq_ok.mp h
    obtain ⟨s₁, res, limits, hsup, -, -, -, -, -, rfl, -⟩ := buyram_spec hr
    left
    show s₁.bids = s.bids
    rw [(updateRamSupply_spec hsup).eq]
  | buyrambytes payer receiver bytes =>
    obtain ⟨u, sends, token, hr, -, rfl⟩ := commit_eq_ok.mp h
    obtain ⟨s₁, res, limits, hsup, -, -, -, -, -, rfl, -⟩ := buyram_spec (buyrambytes_spec hr)
    left
    show s₁.bids = s.bids
    rw [(updateRamSupply_spec hsup).eq]
  | sellram account bytes =>
    obtain ⟨u, sends, token, hr, -, rfl⟩ := commit_eq_ok.mp h
    obtain ⟨s₁, res, limits, hsup, -, -, -, -, -, rfl, -⟩ := sellram_spec hr
    left
    show s₁.bids = s.bids
    rw [(updateRamSupply_spec hsup).eq]
  -- a change of stake is a change of the ledgers of stake only
  | delegatebw from_ receiver net cpu transfer =>
    obtain ⟨u, sends, token, hr, -, rfl⟩ := commit_eq_ok.mp h
    obtain ⟨sym, -, -, -, -, hr⟩ := delegatebw_changebw hr
    have hbids := changebw_bids hrex hr
    exact .inl hbids
  | undelegatebw from_ receiver net cpu =>
    obtain ⟨u, sends, token, hr, -, rfl⟩ := commit_eq_ok.mp h
    obtain ⟨sym, -, -, -, -, -, hr⟩ := undelegatebw_changebw hr
    have hbids := changebw_bids hrex hr
    exact .inl hbids
  | refund owner =>
    obtain ⟨u, sends, token, hr, -, rfl⟩ := commit_eq_ok.mp h
    obtain ⟨q, amount, -, -, -, rfl, -⟩ := refund_cases hr
    exact .inl rfl
  | voteproducer voterName proxy producers =>
    exact .inl (congrArg Ledgers.bids (voteproducer_frame hrex h).ledgers)
  | regproxy proxy isproxy => exact .inl (congrArg Ledgers.bids (regproxy_frame h).ledgers)
  | token action =>
    obtain ⟨token, -, rfl⟩ := step_token_spec h
    exact .inl rfl
  | producers producers producers2 scheduleSize =>
    simp only [step, Except.ok.injEq] at h
    subst h
    exact .inl rfl

end SystemState

namespace AuctionState

variable {F : Type}

/-! ## One action -/

/-- What a bidder has got back for a name grows by the bid. -/
theorem addRefund_spec {s s' : AuctionState F} {newname : Name} {current : NameBid} {sym : Symbol}
    (hcore : s.sys.coreSymbol = .ok sym)
    (hrow : ∀ a, s.bidRefunds.find? ⟨newname, current.highBidder⟩ = some a →
      a.symbol = sym ∧ a.InRange)
    (h : s.addRefund newname current = .ok s') :
    ∃ amount : Asset, s' = { s with
        bidRefunds := s.bidRefunds.set ⟨newname, current.highBidder⟩ amount } ∧
      amount.symbol = sym ∧ amount.InRange ∧
      amount.amount.toInt = s.bidRefunds.valueAt ⟨newname, current.highBidder⟩
        (fun a => a.amount.toInt) + current.highBid.toInt := by
  simp only [addRefund, bind_eq_ok] at h
  obtain ⟨sym', hsym, bid, hbid, h⟩ := h
  obtain rfl : sym' = sym := Except.ok.inj (hsym.symm.trans hcore)
  obtain ⟨hlo, hhi, -, rfl⟩ := Asset.make_eq_ok.mp hbid
  split at h
  · rename_i a ha
    simp only [bind_eq_ok, pure_eq_ok] at h
    obtain ⟨amount, hadd, rfl⟩ := h
    obtain ⟨hs, hr⟩ := hrow a ha
    obtain ⟨-, hs', hr', heq⟩ := Asset.add_spec hadd hr
    rw [Table.valueAt_some ha]
    exact ⟨amount, rfl, hs'.trans hs, hr', heq⟩
  · rename_i hnone
    simp only [pure_eq_ok] at h
    rw [Table.valueAt_none hnone, zero_add]
    exact ⟨_, h.symm, rfl, ⟨hlo, hhi⟩, rfl⟩

/-- A committed action has run its inline actions. -/
theorem commit_ok {ctx : Context} {r : Except String (AuctionState F × List InlineAction)}
    {s' : AuctionState F} (h : commit ctx r = .ok s') : ∃ s sends token, r = .ok (s, sends) ∧
      SystemState.runInline ctx s.sys.token sends = .ok token ∧
      s' = { s with sys := { s.sys with token := token } } := by
  simp only [commit, bind_eq_ok, pure_eq_ok] at h
  obtain ⟨⟨s, sends⟩, hr, token, ht, rfl⟩ := h
  exact ⟨s, sends, token, hr, ht, rfl⟩

/-- The highest bid is one of the bids. -/
theorem find?_of_highestBid {s : AuctionState F} {newname : Name} {b : NameBid}
    (h : s.highestBid = some (newname, b)) : s.sys.bids.find? newname = some b :=
  Table.mem_rows.mp (List.mem_filter.mp (List.argmin_mem h)).1

/-- The auction of the highest bid is closed if it is due, or nothing happens. -/
theorem closeAuction_spec {ctx : Context} {s s' : AuctionState F} {timestamp : BlockTimestamp}
    {sends : List InlineAction} (h : s.closeAuction ctx timestamp = .ok (s', sends)) :
    (s' = s ∧ sends = []) ∨ ∃ newname highest sym memo, s.highestBid = some (newname, highest) ∧
      0 < highest.highBid ∧ usecondsPerDay < ctx.now - highest.lastBidTime ∧
      0 < s.sys.gstate.threshActivatedStakeTime ∧
      14 * usecondsPerDay < ctx.now - s.sys.gstate.threshActivatedStakeTime ∧
      s.sys.coreSymbol = .ok sym ∧
      s' = { s with
        sys := { s.sys with
          bids := s.sys.bids.set newname { highest with highBid := -highest.highBid } }
        lastNameClose := timestamp } ∧
      sends = [⟨[namesAccount], .transfer namesAccount upayAccount ⟨highest.highBid, sym⟩ memo⟩] := by
  unfold closeAuction at h
  split at h
  · simp only [pure_eq_ok, Prod.mk.injEq] at h
    exact .inl ⟨h.1.symm, h.2.symm⟩
  · rename_i newname highest hhighest
    simp only at h
    split at h
    · rename_i hcond
      obtain ⟨hopen, hidle, hactive, hactivated⟩ := hcond
      simp only [bind_eq_ok, pure_eq_ok, Prod.mk.injEq] at h
      obtain ⟨sym, hsym, bid, hbid, rfl, rfl⟩ := h
      obtain ⟨-, -, -, rfl⟩ := Asset.make_eq_ok.mp hbid
      exact .inr ⟨newname, highest, sym, _, hhighest, hopen, hidle, hactive, hactivated, hsym, rfl,
        rfl⟩
    · simp only [pure_eq_ok, Prod.mk.injEq] at h
      exact .inl ⟨h.1.symm, h.2.symm⟩

variable [Double F]

/-- Scheduling producers changes the size of the schedule. -/
theorem updateElectedProducers_eq (s : AuctionState F) (blockTime : BlockTimestamp)
    (accepted : Bool) : ∃ size, s.updateElectedProducers blockTime accepted = { s with
      lastProducerScheduleUpdate := blockTime
      sys := { s.sys with gstate := { s.sys.gstate with lastProducerScheduleSize := size } } } := by
  simp only [updateElectedProducers]
  split
  · exact ⟨s.sys.gstate.lastProducerScheduleSize, rfl⟩
  · split
    · exact ⟨_, rfl⟩
    · exact ⟨s.sys.gstate.lastProducerScheduleSize, rfl⟩

/-- A block may schedule producers, and then it may close an auction. -/
theorem onblock_cases {ctx : Context} {s u : AuctionState F} {timestamp : BlockTimestamp}
    {accepted : Bool} {sends : List InlineAction}
    (h : s.onblock ctx timestamp accepted = .ok (u, sends)) :
    ∃ s₁, (s₁ = s ∨ s₁ = s.updateElectedProducers timestamp accepted) ∧
      ((u = s₁ ∧ sends = []) ∨
        blocksPerDay < timestamp - s₁.lastNameClose ∧
          s₁.closeAuction ctx timestamp = .ok (u, sends)) := by
  simp only [onblock, bind_eq_ok] at h
  obtain ⟨_, -, h⟩ := h
  split at h
  · simp only [pure_eq_ok, Prod.mk.injEq] at h
    exact ⟨s, .inl rfl, .inl ⟨h.1.symm, h.2.symm⟩⟩
  · split at h
    · split at h
      · rename_i hday
        exact ⟨_, .inr rfl, .inr ⟨hday, h⟩⟩
      · simp only [pure_eq_ok, Prod.mk.injEq] at h
        exact ⟨_, .inr rfl, .inl ⟨h.1.symm, h.2.symm⟩⟩
    · simp only [pure_eq_ok, Prod.mk.injEq] at h
      exact ⟨s, .inl rfl, .inl ⟨h.1.symm, h.2.symm⟩⟩

/-- Whether it has scheduled producers or not makes no difference to the auctions. -/
theorem scheduled_eq {s s₁ : AuctionState F} {timestamp : BlockTimestamp} {accepted : Bool}
    (h : s₁ = s ∨ s₁ = s.updateElectedProducers timestamp accepted) :
    ∃ slot size, s₁ = { s with
      lastProducerScheduleUpdate := slot
      sys := { s.sys with gstate := { s.sys.gstate with lastProducerScheduleSize := size } } } := by
  rcases h with rfl | rfl
  · exact ⟨s₁.lastProducerScheduleUpdate, s₁.sys.gstate.lastProducerScheduleSize, rfl⟩
  · exact ⟨timestamp, updateElectedProducers_eq s timestamp accepted⟩

/-! ## One call -/

/-- The system contract differs in bids, tokens and the size of the schedule only. -/
def SameSystem (s s' : SystemState F) : Prop :=
  s' = { s with
    bids := s'.bids
    token := s'.token
    gstate := { s.gstate with lastProducerScheduleSize := s'.gstate.lastProducerScheduleSize } }

/-- What a successful call did: a first bid, a higher bid, a refund, the end of an auction, or
    nothing but an action of the system contract. -/
inductive AuctionChange (s : AuctionState F) (call : AuctionCall F) (s' : AuctionState F) : Prop
  | first (bidder newname : Name) (bid : Asset) (memo : String)
      (action : call.action = .bidname bidder newname bid)
      (fresh : s.sys.bids.find? newname = none) (symbol : s.sys.coreSymbol = .ok bid.symbol)
      (transfer : s.sys.token.transfer (call.ctx.withAuth [bidder]) bidder namesAccount bid memo =
        .ok s'.sys.token)
      (bids : s'.sys.bids = s.sys.bids.set newname ⟨bidder, bid.amount, call.ctx.now⟩)
      (refunds : s'.bidRefunds = s.bidRefunds) (same : SameSystem s.sys s'.sys)
  | outbid (bidder newname : Name) (bid : Asset) (memo : String) (current : NameBid)
      (action : call.action = .bidname bidder newname bid)
      (row : s.sys.bids.find? newname = some current) (isOpen : 0 < current.highBid.toInt)
      (symbol : s.sys.coreSymbol = .ok bid.symbol)
      (transfer : s.sys.token.transfer (call.ctx.withAuth [bidder]) bidder namesAccount bid memo =
        .ok s'.sys.token)
      (bids : s'.sys.bids = s.sys.bids.set newname ⟨bidder, bid.amount, call.ctx.now⟩)
      (s₁ : AuctionState F) (added : s.addRefund newname current = .ok s₁)
      (refunds : s'.bidRefunds = s₁.bidRefunds) (same : SameSystem s.sys s'.sys)
  | refunded (bidder newname : Name) (amount : Asset) (memo : String)
      (action : call.action = .bidrefund bidder newname)
      (row : s.bidRefunds.find? ⟨newname, bidder⟩ = some amount)
      (transfer : s.sys.token.transfer (call.ctx.withAuth [namesAccount, bidder]) namesAccount
        bidder amount memo = .ok s'.sys.token)
      (bids : s'.sys.bids = s.sys.bids)
      (refunds : s'.bidRefunds = s.bidRefunds.erase ⟨newname, bidder⟩)
      (same : SameSystem s.sys s'.sys)
  | closed (timestamp : BlockTimestamp) (accepted : Bool) (newname : Name) (highest : NameBid)
      (sym : Symbol) (memo : String) (action : call.action = .onblock timestamp accepted)
      (row : s.sys.bids.find? newname = some highest) (isOpen : 0 < highest.highBid.toInt)
      (symbol : s.sys.coreSymbol = .ok sym)
      (transfer : s.sys.token.transfer (call.ctx.withAuth [namesAccount]) namesAccount upayAccount
        ⟨highest.highBid, sym⟩ memo = .ok s'.sys.token)
      (bids : s'.sys.bids =
        s.sys.bids.set newname { highest with highBid := -highest.highBid })
      (refunds : s'.bidRefunds = s.bidRefunds) (same : SameSystem s.sys s'.sys)
  | idle (timestamp : BlockTimestamp) (accepted : Bool)
      (action : call.action = .onblock timestamp accepted) (token : s'.sys.token = s.sys.token)
      (bids : s'.sys.bids = s.sys.bids) (refunds : s'.bidRefunds = s.bidRefunds)
      (same : SameSystem s.sys s'.sys)
  | system (a : SystemAction F) (action : call.action = .system a)
      (step : s.sys.step ⟨call.ctx, a⟩ = .ok s'.sys) (refunds : s'.bidRefunds = s.bidRefunds)

/-- A bid places itself as the high bid and turns the old one into a refund. -/
theorem bidname_change {s s' : AuctionState F} {ctx : Context} {bidder newname : Name} {bid : Asset}
    (h : s.step ⟨ctx, .bidname bidder newname bid⟩ = .ok s') :
    AuctionChange s ⟨ctx, .bidname bidder newname bid⟩ s' := by
  obtain ⟨u, sends, token, hr, hrun, rfl⟩ := commit_ok h
  simp only [bidname, bind_eq_ok, check_eq_ok, pure_eq_ok, Prod.mk.injEq] at hr
  obtain ⟨_, -, _, -, _, -, _, -, _, -, _, -, sym, hsym, _, hbid, _, -, u', hplace, rfl, rfl⟩ := hr
  rw [SystemState.runInline_singleton] at hrun
  subst hbid
  unfold placeBid at hplace
  split at hplace
  · -- nobody has bid for the name
    rename_i hfresh
    simp only [pure_eq_ok] at hplace
    subst hplace
    exact .first bidder newname bid _ rfl hfresh hsym hrun rfl rfl rfl
  · rename_i current hrow
    simp only [bind_eq_ok, check_eq_ok, pure_eq_ok] at hplace
    obtain ⟨_, hopen, _, -, _, -, s₁, hadd, rfl⟩ := hplace
    -- the refund of the bidder before is written, and nothing else
    have hs₁ : s₁ = { s with bidRefunds := s₁.bidRefunds } := by
      simp only [addRefund, bind_eq_ok] at hadd
      obtain ⟨_, -, _, -, hadd⟩ := hadd
      split at hadd
      · simp only [bind_eq_ok, pure_eq_ok] at hadd
        obtain ⟨_, -, rfl⟩ := hadd
        rfl
      · simp only [pure_eq_ok] at hadd
        rw [← hadd]
    have hsys : s₁.sys = s.sys := by rw [hs₁]
    rw [hsys] at hrun ⊢
    exact .outbid bidder newname bid _ current rfl hrow (Int64.lt_iff_toInt_lt.mp hopen) hsym hrun
      rfl s₁ hadd rfl rfl

/-- A block closes at most one auction. -/
theorem onblock_change {s s' : AuctionState F} {ctx : Context} {timestamp : BlockTimestamp}
    {accepted : Bool} (h : s.step ⟨ctx, .onblock timestamp accepted⟩ = .ok s') :
    AuctionChange s ⟨ctx, .onblock timestamp accepted⟩ s' := by
  obtain ⟨u, sends, token, hr, hrun, rfl⟩ := commit_ok h
  obtain ⟨s₁, hs₁, hcases⟩ := onblock_cases hr
  obtain ⟨slot, size, rfl⟩ := scheduled_eq hs₁
  rcases hcases with ⟨rfl, rfl⟩ | ⟨-, hclose⟩
  · obtain rfl := SystemState.runInline_nil.mp hrun
    exact .idle timestamp accepted rfl rfl rfl rfl rfl
  rcases closeAuction_spec hclose with ⟨rfl, rfl⟩ |
    ⟨newname, highest, sym, memo, hhighest, hopen, -, -, -, hsym, rfl, rfl⟩
  · obtain rfl := SystemState.runInline_nil.mp hrun
    exact .idle timestamp accepted rfl rfl rfl rfl rfl
  · have hrow := find?_of_highestBid hhighest
    rw [SystemState.runInline_singleton] at hrun
    exact .closed timestamp accepted newname highest sym memo rfl hrow
      (Int64.lt_iff_toInt_lt.mp hopen) hsym hrun rfl rfl rfl

/-- Every call does one of these things to the auctions. -/
theorem step_auction {s s' : AuctionState F} {call : AuctionCall F} (h : s.step call = .ok s') :
    AuctionChange s call s' := by
  obtain ⟨ctx, action⟩ := call
  cases action with
  | bidname bidder newname bid => exact bidname_change h
  | bidrefund bidder newname =>
    obtain ⟨u, sends, token, hr, hrun, rfl⟩ := commit_ok h
    simp only [bidrefund, bind_eq_ok, getRow_eq_ok, pure_eq_ok, Prod.mk.injEq] at hr
    obtain ⟨amount, hrow, rfl, rfl⟩ := hr
    rw [SystemState.runInline_singleton] at hrun
    exact .refunded bidder newname amount _ rfl hrow hrun rfl rfl rfl
  | onblock timestamp accepted => exact onblock_change h
  | system a =>
    simp only [step, bind_eq_ok, pure_eq_ok] at h
    obtain ⟨sys, hsys, rfl⟩ := h
    exact .system a rfl hsys rfl

end AuctionState

end UxContracts
