import UxContracts.Native.Accounts
import UxContracts.Spec.PremiumNames

/-!
# Closed names

`bidname` refuses a name that is an account already, but an auction is closed from its row alone.
Ordinary creators need a closed auction for such a name, so the name is free as long as the system
account does not take it while its auction is open (`closed_name_is_free`).
-/

namespace UxContracts

/-! ## Names of auctions -/

/-- A name whose twelfth character is empty has a dot. -/
theorem SystemState.hasDot_of_last {n : Name} (h : n.value &&& 0x1F0 = 0) : hasDot n = true := by
  have hlast : (n.value >>> 4) &&& 0x1F = 0 := by
    have hshift := congrArg (· >>> (4 : UInt64)) h
    rw [UInt64.shiftRight_and] at hshift
    exact hshift
  unfold hasDot
  rw [List.any_eq_true]
  refine ⟨0, by decide, ?_⟩
  rw [decide_eq_true_eq]
  show ((n.value >>> 4) >>> (0 : UInt64)) &&& 0x1F = 0
  rw [UInt64.shiftRight_zero, hlast]

/-! ## Rows of resources -/

/-- A row of resources is made for a new account or for one whose limits are set. -/
theorem SystemState.step_users {F : Type} [Double F] {s s' : SystemState F} {call : SystemCall F}
    (hS : s.StakeInv) (h : s.step call = .ok s') {a : Name}
    (hnot : ∀ n ∈ (AuctionAction.system call.action).created, n ≠ a)
    (hnot' : ∀ n ∈ (AuctionAction.system call.action).limited, n ≠ a) :
    s'.userres.find? a = s.userres.find? a := by
  obtain ⟨ctx, action⟩ := call
  have hcore : ∀ sym, s.coreSymbol = .ok sym → sym = s.coreSym := fun _ => coreSym_of_ok
  -- a row is written for a new account, or for the receiver of RAM or stake
  cases action with
  | init version core =>
    obtain ⟨u, sends, token, hr, -, rfl⟩ := commit_eq_ok.mp h
    obtain ⟨m, -, -, -, rfl, -⟩ := init_spec hr
    rfl
  | newaccount creator newact =>
    obtain ⟨zero, bids, limits, -, -, -, rfl⟩ := newaccount_spec h
    -- the row of the new account
    exact Table.find?_set_ne _ _ (hnot newact rfl).symm
  | setram maxRamSize =>
    obtain ⟨m, m', -, -, -, -, rfl⟩ := setram_spec h
    rfl
  | setramrate bytesPerBlock =>
    obtain ⟨-, u, hsup, rfl⟩ := setramrate_spec h
    show u.userres.find? a = _
    rw [(updateRamSupply_spec hsup).eq]
  | buyram payer receiver quant =>
    obtain ⟨u, sends, token, hr, -, rfl⟩ := commit_eq_ok.mp h
    obtain ⟨s₁, res, limits, hsup, -, -, -, -, -, rfl, -⟩ := buyram_spec hr
    show (s₁.userres.set receiver res).find? a = _
    -- the row of the receiver
    rw [Table.find?_set_ne _ _ (hnot' receiver rfl).symm, (updateRamSupply_spec hsup).eq]
  | buyrambytes payer receiver bytes =>
    obtain ⟨u, sends, token, hr, -, rfl⟩ := commit_eq_ok.mp h
    obtain ⟨s₁, res, limits, hsup, -, -, -, -, -, rfl, -⟩ := buyram_spec (buyrambytes_spec hr)
    show (s₁.userres.set receiver res).find? a = _
    rw [Table.find?_set_ne _ _ (hnot' receiver rfl).symm, (updateRamSupply_spec hsup).eq]
  | sellram account bytes =>
    obtain ⟨u, sends, token, hr, -, rfl⟩ := commit_eq_ok.mp h
    obtain ⟨s₁, res, limits, hsup, -, -, -, -, -, rfl, -⟩ := sellram_spec hr
    show (s₁.userres.set account _).find? a = _
    rw [Table.find?_set_ne _ _ (hnot' account rfl).symm, (updateRamSupply_spec hsup).eq]
  | delegatebw from_ receiver net cpu transfer =>
    obtain ⟨u, sends, token, hr, -, rfl⟩ := commit_eq_ok.mp h
    obtain ⟨-, -, -, -, hchange⟩ := delegatebw_spec hS.rows hS.noRex hS.stakedOf_nonneg hcore hr
    -- the row of the receiver of the stake
    obtain ⟨row, hrow, -⟩ := hchange.userres
    show u.userres.find? a = _
    rw [hrow, Table.find?_put_ne _ _ _ (hnot' receiver rfl).symm]
  | undelegatebw from_ receiver net cpu =>
    obtain ⟨u, sends, token, hr, -, rfl⟩ := commit_eq_ok.mp h
    obtain ⟨-, -, -, -, hchange⟩ := undelegatebw_spec hS.rows hS.noRex hS.stakedOf_nonneg hcore hr
    obtain ⟨row, hrow, -⟩ := hchange.userres
    show u.userres.find? a = _
    rw [hrow, Table.find?_put_ne _ _ _ (hnot' receiver rfl).symm]
  | refund owner =>
    obtain ⟨u, sends, token, hr, -, rfl⟩ := commit_eq_ok.mp h
    obtain ⟨q, amount, -, -, -, rfl, -⟩ := refund_spec hS.rows hr
    rfl
  | voteproducer voterName proxy producers => rw [(voteproducer_frame hS.noRex h).userres]
  | regproxy proxy isproxy => rw [(regproxy_frame h).userres]
  | token action =>
    obtain ⟨token, -, rfl⟩ := step_token_spec h
    rfl
  | producers producers producers2 scheduleSize =>
    cases h
    rfl

namespace AuctionState

variable {F : Type}

/-- A name that is bid on is a premium name and no account. -/
theorem bidname_spec {ctx : Context} {s : AuctionState F} {bidder newname : Name} {bid : Asset}
    {r : AuctionState F × List InlineAction} (h : s.bidname ctx bidder newname bid = .ok r) :
    SystemState.Premium newname ∧ ¬ ctx.isAccount newname := by
  simp only [bidname, bind_eq_ok, check_eq_ok] at h
  obtain ⟨_, -, _, hsuffix, _, -, _, -, _, hlast, _, hfree, -⟩ := h
  exact ⟨⟨SystemState.hasDot_of_last hlast, hsuffix⟩, hfree⟩

variable [Double F]

/-- The winner of a closed auction can make the account. -/
theorem winner_creates {s : AuctionState F} (hI : s.EscrowInv) {n : Name} {b : NameBid}
    (hb : s.sys.bids.find? n = some b) (hclosed : b.highBid < 0) (hp : SystemState.Premium n)
    (huser : s.sys.userres.find? n = none) (ctx : Context) :
    ∃ s', s.step ⟨ctx, .system (.newaccount b.highBidder n)⟩ = .ok s' := by
  have hclaim : ∃ bids, s.sys.claimName b.highBidder n = .ok { s.sys with bids := bids } := by
    unfold SystemState.claimName
    split
    · simp only [hp.2, bind_eq_ok, check_eq_ok, getRow_eq_ok, pure_eq_ok, if_true]
      exact ⟨_, b, hb, (), rfl, (), hclosed, rfl⟩
    · exact ⟨s.sys.bids, rfl⟩
  obtain ⟨bids, hclaim⟩ := hclaim
  obtain ⟨m, hm⟩ := Option.isSome_iff_exists.mp (hI.bids n b hb).1
  obtain ⟨st, hst, hstsym⟩ := hI.core.core (hI.bids n b hb).1
  have hvalid := (hI.core.token.statKey _ st hst).2.2
  rw [hstsym, SystemState.coreSym, hm, Option.elim_some] at hvalid
  have hzero : Asset.make 0 m.quote.symbol = .ok ⟨0, m.quote.symbol⟩ :=
    Asset.make_eq_ok.mpr ⟨by decide, by decide, hvalid, rfl⟩
  simp only [step, SystemState.step, SystemState.newaccount, bind_eq_ok, pure_eq_ok,
    emplaceRow_eq_ok]
  exact ⟨_, _, ⟨_, hclaim, _, coreSymbol_eq_ok.mpr ⟨m, hm, rfl⟩, _, hzero, _, ⟨huser, rfl⟩, rfl⟩, rfl⟩

end AuctionState

/-! ## Accounts -/

namespace ChainState

variable {F : Type} [Double F]

/-- What an accepted call did. -/
theorem step_spec {w w' : ChainState F} {call : AuctionCall F} (h : w.step call = .ok w') :
    (∀ n ∈ call.action.created, n ∉ w.accounts) ∧ (∀ n ∈ call.action.limited, n ∈ w.accounts) ∧
      w.auction.step ⟨w.context call.ctx, call.action⟩ = .ok w'.auction ∧
      w'.accounts = call.action.created.toList ++ w.accounts := by
  simp only [step, bind_eq_ok, check_eq_ok, pure_eq_ok] at h
  obtain ⟨_, hcreated, _, hlimited, auction, hstep, rfl⟩ := h
  exact ⟨hcreated, hlimited, hstep, rfl⟩

/-- The names of the auctions are premium names, those that are still open are free, and only
    accounts have resources. -/
structure NamesInv (w : ChainState F) : Prop where
  escrow : w.auction.EscrowInv
  premium : ∀ n b, w.auction.sys.bids.find? n = some b → SystemState.Premium n
  free : ∀ n b, w.auction.sys.bids.find? n = some b → 0 < b.highBid.toInt → n ∉ w.accounts
  users : ∀ n u, w.auction.sys.userres.find? n = some u → n ∈ w.accounts

/-- The system account does not take a name while its auction is open. -/
def KeepsAuctions (w : ChainState F) (call : AuctionCall F) : Prop :=
  ∀ n, call.action = .system (.newaccount systemAccount n) →
    ∀ b, w.auction.sys.bids.find? n = some b → ¬ 0 < b.highBid.toInt

namespace NamesInv

variable {w w' : ChainState F}

omit [Double F] in
/-- An action of the auctions makes no account, so each row is an old one or a proper one. -/
theorem of_rows (hI : w.NamesInv) (hescrow : w'.auction.EscrowInv)
    (haccounts : w'.accounts = w.accounts)
    (hsame : AuctionState.SameSystem w.auction.sys w'.auction.sys)
    (hrows : ∀ n b, w'.auction.sys.bids.find? n = some b → w.auction.sys.bids.find? n = some b ∨
      SystemState.Premium n ∧ (0 < b.highBid.toInt → n ∉ w.accounts)) : w'.NamesInv where
  escrow := hescrow
  premium n b hb := by
    rcases hrows n b hb with hb | hnew
    · exact hI.premium n b hb
    · exact hnew.1
  free n b hb hopen := by
    rw [haccounts]
    rcases hrows n b hb with hb | hnew
    · exact hI.free n b hb hopen
    · exact hnew.2 hopen
  users n u hu := by
    have huserres : w'.auction.sys.userres = w.auction.sys.userres := by rw [hsame]
    rw [haccounts]
    rw [huserres] at hu
    exact hI.users n u hu

omit [Double F] in
/-- A new account takes no name that is still being sold. -/
theorem created_not_open (hI : w.NamesInv) {ctx : Context} {creator newact : Name}
    {sys : SystemState F} (hkeeps : KeepsAuctions w ⟨ctx, .system (.newaccount creator newact)⟩)
    (h : w.auction.sys.newaccount creator newact = .ok sys) {b : NameBid}
    (hb : sys.bids.find? newact = some b) : ¬ 0 < b.highBid.toInt := by
  have hbids := SystemState.newaccount_bids h
  split at hbids
  · -- the row has been used up
    obtain ⟨_, -, -, -, herase⟩ := hbids
    rw [herase, Table.find?_erase_self] at hb
    cases hb
  · rename_i hclaims
    rw [hbids] at hb
    by_cases hcreator : creator = systemAccount
    · subst hcreator
      exact hkeeps newact rfl b hb
    · exact absurd ⟨hcreator, hI.premium newact b hb⟩ hclaims

/-- An action of the system contract keeps the closed names free, unless it creates one of them. -/
theorem of_system (hI : w.NamesInv) {ctx : Context} {action : SystemAction F}
    (hescrow : w'.auction.EscrowInv) (hkeeps : KeepsAuctions w ⟨ctx, .system action⟩)
    (hlimited : ∀ n ∈ (AuctionAction.system action).limited, n ∈ w.accounts)
    (hstep : w.auction.sys.step ⟨w.context ctx, action⟩ = .ok w'.auction.sys)
    (haccounts : w'.accounts = (AuctionAction.system action).created.toList ++ w.accounts) :
    w'.NamesInv := by
  -- no auction is opened or closed
  have hold : ∀ n b, w'.auction.sys.bids.find? n = some b →
      w.auction.sys.bids.find? n = some b := by
    intro n b hb
    rcases SystemState.step_bids hI.escrow.core.stake.noRex hstep with hbids |
      ⟨creator, newact, -, -, -, _, -, -, -, hbids⟩
    · rwa [hbids] at hb
    · rw [hbids, Table.find?_erase] at hb
      split at hb
      · cases hb
      · exact hb
  have hmem {n : Name} : n ∈ w'.accounts ↔
      (AuctionAction.system action).created = some n ∨ n ∈ w.accounts := by
    rw [haccounts, List.mem_append, Option.mem_toList]
  refine ⟨hescrow, fun n b hb => hI.premium n b (hold n b hb), fun n b hb hopen => ?_,
    fun n u hu => ?_⟩
  · -- a name whose auction is open is not created
    rw [hmem]
    rintro (hnew | hn)
    · cases action with
      | newaccount creator newact =>
        cases hnew
        exact hI.created_not_open hkeeps hstep hb hopen
      | _ => cases hnew
    · exact hI.free n b (hold n b hb) hopen hn
  · rw [hmem]
    -- a new row belongs to an account that exists by then
    by_cases hnew : (AuctionAction.system action).created = some n
    · exact .inl hnew
    · right
      -- a row that is written belongs to an account that was there
      by_cases hlim : (AuctionAction.system action).limited = some n
      · exact hlimited n hlim
      · have hsame := SystemState.step_users (a := n) hI.escrow.core.stake hstep
          (fun m hm heq => hnew (heq ▸ hm)) (fun m hm heq => hlim (heq ▸ hm))
        rw [hsame] at hu
        exact hI.users n u hu

/-- A call that keeps the auctions keeps the closed names free. -/
theorem step {call : AuctionCall F} (hI : w.NamesInv) (hkeeps : KeepsAuctions w call)
    (h : w.step call = .ok w') : w'.NamesInv := by
  obtain ⟨hcreated, hlimited, hstep, haccounts⟩ := step_spec h
  have hescrow := hI.escrow.step hstep
  obtain ⟨ctx, action⟩ := call
  -- a row that a bid has set is of a premium name, and free while it is open
  have hset : ∀ {n : Name} {b : NameBid}, w'.auction.sys.bids = w.auction.sys.bids.set n b →
      SystemState.Premium n → (0 < b.highBid.toInt → n ∉ w.accounts) →
      ∀ n' b', w'.auction.sys.bids.find? n' = some b' → w.auction.sys.bids.find? n' = some b' ∨
        SystemState.Premium n' ∧ (0 < b'.highBid.toInt → n' ∉ w.accounts) := by
    intro n b hbids hpremium hfree n' b' hb'
    rw [hbids, Table.find?_set] at hb'
    split at hb'
    · rename_i hn
      cases hb'
      subst hn
      exact .inr ⟨hpremium, hfree⟩
    · exact .inl hb'
  -- a bid is on a premium name without an account
  have hbidname : ∀ {bidder newname : Name} {bid : Asset}, action = .bidname bidder newname bid →
      SystemState.Premium newname ∧ newname ∉ w.accounts := by
    rintro bidder newname bid rfl
    obtain ⟨u, sends, token, hr, -⟩ := AuctionState.commit_ok hstep
    obtain ⟨hpremium, hfree⟩ := AuctionState.bidname_spec hr
    exact ⟨hpremium, fun hmem => hfree (decide_eq_true hmem)⟩
  cases AuctionState.step_auction hstep with
  | first bidder newname bid memo haction fresh symbol transfer bids refunds same =>
    -- the name is free as long as it is for sale
    obtain ⟨hpremium, hfree⟩ := hbidname haction
    cases haction
    exact hI.of_rows hescrow haccounts same (hset bids hpremium fun _ => hfree)
  | outbid bidder newname bid memo current haction row isOpen symbol transfer bids s₁ added refunds
      same =>
    obtain ⟨hpremium, hfree⟩ := hbidname haction
    cases haction
    exact hI.of_rows hescrow haccounts same (hset bids hpremium fun _ => hfree)
  | refunded bidder newname amount memo haction row transfer bids refunds same =>
    cases haction
    -- a refund changes no bid
    exact hI.of_rows hescrow haccounts same fun n b hb => .inl (bids ▸ hb)
  | closed timestamp accepted newname highest sym memo haction row isOpen symbol transfer bids refunds
      same =>
    cases haction
    refine hI.of_rows hescrow haccounts same (hset bids (hI.premium newname highest row) ?_)
    -- a closed auction is not open
    have hneg := AuctionState.toInt_negBid (hI.escrow.bids newname highest row).2
    intro hopen
    simp only at hopen
    omega
  | idle timestamp accepted haction token bids refunds same =>
    cases haction
    exact hI.of_rows hescrow haccounts same fun n b hb => .inl (bids ▸ hb)
  | system a haction hsys refunds =>
    cases haction
    -- the other actions do not open or close an auction
    exact hI.of_system hescrow hkeeps hlimited hsys haccounts

end NamesInv

/-! ## Runs -/

/-- There are no auctions yet, and only accounts have resources. -/
structure ChainStart (w : ChainState F) : Prop where
  auction : AuctionState.AuctionStart w.auction
  users : ∀ n u, w.auction.sys.userres.find? n = some u → n ∈ w.accounts

/-- At the start no auction is closed. -/
theorem ChainStart.namesInv {w : ChainState F} (h : ChainStart w) : w.NamesInv := by
  have hbids : ∀ n b, w.auction.sys.bids.find? n ≠ some b := by
    intro n b hb
    rw [h.auction.bids, Table.find?_empty] at hb
    cases hb
  exact ⟨h.auction.escrowInv, fun n b hb => absurd hb (hbids n b),
    fun n b hb => absurd hb (hbids n b), h.users⟩

/-- Request number `i` of a run is a block that closes the auction of `n` and takes the bid. -/
def ClosedAt (w : ChainState F) (calls : List (AuctionCall F)) (i : Nat) (n : Name)
    (b : NameBid) : Prop :=
  ∃ call, calls[i]? = some call ∧
    step (Run.stateAt step w calls i) call = .ok (Run.stateAt step w calls (i + 1)) ∧
    AuctionState.Closes (Run.stateAt step w calls i).auction
      ⟨(Run.stateAt step w calls i).context call.ctx, call.action⟩
      (Run.stateAt step w calls (i + 1)).auction n b

/-- The name of a closed auction is no account, and its high bidder can create it. -/
structure Claimable (w : ChainState F) (n : Name) (b : NameBid) : Prop where
  free : n ∉ w.accounts
  creates : ∀ ctx, ∃ w', w.step ⟨ctx, .system (.newaccount b.highBidder n)⟩ = .ok w'

/-- When a block closes an auction, the winner can create the name. -/
theorem NamesInv.claimable {w w' : ChainState F} {call : AuctionCall F} {n : Name} {b : NameBid}
    (hI : w.NamesInv) (hI' : w'.NamesInv) (h : w.step call = .ok w')
    (hcloses : AuctionState.Closes w.auction ⟨w.context call.ctx, call.action⟩ w'.auction n b) :
    Claimable w' n b := by
  obtain ⟨-, -, -, haccounts⟩ := step_spec h
  obtain ⟨⟨timestamp, accepted, haction⟩, hrow, hopen, hclosed, -⟩ := hcloses
  have haction : call.action = .onblock timestamp accepted := haction
  rw [haction] at haccounts
  -- the name has no account, and gets none by this block
  have hfree : n ∉ w'.accounts := by
    rw [haccounts]
    exact hI.free n b hrow hopen
  -- its bid is closed now
  have hrow' : w'.auction.sys.bids.find? n = some { b with highBid := -b.highBid } := by
    rw [hclosed]
    exact Table.find?_set_self _ _ _
  have hneg : -b.highBid < 0 := by
    apply Int64.lt_iff_toInt_lt.mpr
    rw [AuctionState.toInt_negBid (hI.escrow.bids n b hrow).2, Int64.toInt_zero]
    omega
  -- a row of resources would belong to an account
  have huser : w'.auction.sys.userres.find? n = none := by
    cases hu : w'.auction.sys.userres.find? n with
    | none => rfl
    | some u => exact absurd (hI'.users n u hu) hfree
  refine ⟨hfree, fun ctx => ?_⟩
  -- so the winner may create it
  obtain ⟨auction, hcreate⟩ := AuctionState.winner_creates hI'.escrow hrow' hneg
    (hI.premium n b hrow) huser (w'.context ctx)
  refine ⟨⟨auction, n :: w'.accounts⟩, ?_⟩
  simp only [ChainState.step, bind_eq_ok, check_eq_ok, pure_eq_ok]
  refine ⟨(), ?_, (), ?_, auction, hcreate, rfl⟩
  · intro m hm
    cases hm
    exact hfree
  · intro m hm
    cases hm

/-- In every run in which the system account takes no name with an open auction, a block closes
    auctions of names that are free only, and the high bidder can create them. -/
theorem closed_name_is_free {w : ChainState F} (hw : ChainStart w) {calls : List (AuctionCall F)}
    (hcalls : Run.Meets step KeepsAuctions w calls) {i : Nat} {n : Name} {b : NameBid}
    (h : ClosedAt w calls i n b) : Claimable (Run.stateAt step w calls (i + 1)) n b := by
  have hI (k : Nat) : (Run.stateAt step w calls k).NamesInv :=
    Run.exec_of_meets (fun _ _ _ hI hC hs => hI.step hC hs) hw.namesInv (hcalls.take k)
  obtain ⟨call, -, hstep, hcloses⟩ := h
  exact (hI i).claimable (hI (i + 1)) hstep hcloses

/-! ## Samples -/

namespace Sample

open SystemState.Sample AuctionState.Sample

/-- The chain is activated, and its first accounts exist. -/
def activated : ChainState Rat :=
  ⟨AuctionState.Sample.activated,
    [systemAccount, tokenAccount, stakeAccount, namesAccount, upayAccount, ramAccount, alice, bob]⟩

/-- Alice bids for a name, and a block closes the auction. -/
def auctioned : List (AuctionCall Rat) :=
  [⟨SystemState.Sample.ctx [alice] launch, .bidname alice com (utx 20000)⟩,
    ⟨SystemState.Sample.ctx [systemAccount] (launch + 15 * 24 * 3600), .onblock 1400000000 true⟩]

/-- The system account takes the name in between. -/
def taken : List (AuctionCall Rat) :=
  [⟨SystemState.Sample.ctx [alice] launch, .bidname alice com (utx 20000)⟩,
    ⟨SystemState.Sample.ctx [systemAccount] launch, .system (.newaccount systemAccount com)⟩,
    ⟨SystemState.Sample.ctx [systemAccount] (launch + 15 * 24 * 3600), .onblock 1400000000 true⟩]

end Sample

open Sample SystemState.Sample AuctionState.Sample in
/-- A block takes alice's bid for a name that has become an account. Alice cannot create it. -/
theorem taken_name_is_closed :
    (Run.exec step activated taken).auction.sys.bids.find? com =
      some ⟨alice, -20000, launch * 1000000⟩ ∧
    com ∈ (Run.exec step activated taken).accounts ∧
    ((Run.exec step activated taken).step ⟨SystemState.Sample.ctx [alice] launch,
      .system (.newaccount alice com)⟩).map (fun _ => ()) =
        .error "Cannot create account, as that name is already taken" := by
  decide +kernel

open Sample SystemState.Sample AuctionState.Sample in
/-- Alice can create the name whose auction she has won. -/
theorem closed_name_is_free_sample : ∃ b, b.highBidder = alice ∧
    ClosedAt activated auctioned 1 com b ∧
    Claimable (Run.stateAt step activated auctioned 2) com b := by
  have hstart : ChainStart activated := by
    refine ⟨⟨⟨1048576, 200000, setup ++ activation, ?_⟩,
      Table.eq_empty_of_size (by decide +kernel), rfl⟩, fun n u hu => ?_⟩
    · rw [Run.exec_append]
      rfl
    · have hkeys : ∀ k ∈ activated.auction.sys.userres.keys, k ∈ activated.accounts := by
        decide +kernel
      exact hkeys n (Table.mem_keys.mpr (Option.isSome_iff_exists.mpr ⟨u, hu⟩))
  have hkeeps : Run.Meets step KeepsAuctions activated auctioned := by
    refine ⟨?_, ?_, trivial⟩ <;>
    · intro n h
      cases h
  let s := Run.stateAt step activated auctioned 1
  let s' := Run.stateAt step activated auctioned 2
  let block : AuctionCall Rat :=
    ⟨SystemState.Sample.ctx [systemAccount] (launch + 15 * 24 * 3600), .onblock 1400000000 true⟩
  have hok : (s.step block).isOk := by decide +kernel
  have hstep : s.step block = .ok s' := Run.step_eq_next hok
  have hrow : s'.auction.sys.bids.find? com = some ⟨alice, -20000, launch * 1000000⟩ := by
    decide +kernel
  have hrow' : s.auction.sys.bids.find? com ≠ some ⟨alice, -20000, launch * 1000000⟩ := by
    decide +kernel
  have hrex : s.auction.sys.rexbalance = ∅ := Table.eq_empty_of_size (by decide +kernel)
  obtain ⟨b, hcloses, hb⟩ :=
    (AuctionState.step_auction (step_spec hstep).2.2.1).closes hrex hrow hrow' (by decide)
  have hclosed : ClosedAt activated auctioned 1 com b := ⟨block, rfl, hstep, hcloses⟩
  exact ⟨b, (congrArg NameBid.highBidder hb).symm, hclosed,
    closed_name_is_free hstart hkeeps hclosed⟩

end ChainState

end UxContracts
