import UxContracts.Spec.AuctionChange

/-!
# The escrow of the name auctions

`eosio.names` holds the high bids of the open auctions and what outbid bidders have got
back. A bid, a refund and the end of an auction change this sum (`held`) by what they
transfer, so the surplus of the account stays the same (`step_surplus`) while it spends in
no other way, and everything that is owed can be paid (`auction_escrow`).
-/

namespace UxContracts

/-! ## Memos -/

/-- A name has at most 13 characters. -/
theorem Name.length_toText_le (n : Name) : n.toText.length ≤ 13 := by
  have hwrite : ∀ i v, (writeAsString i v).length ≤ i := by
    intro i
    induction i with
    | zero => intro v; exact le_refl _
    | succ i ih =>
      intro v
      simp only [writeAsString]
      split
      · exact Nat.zero_le _
      · exact Nat.succ_le_succ (ih _)
  exact hwrite 13 n.value

/-- A character takes at most four bytes. -/
theorem utf8ByteSize_ofList_le (l : List Char) : (String.ofList l).utf8ByteSize ≤ 4 * l.length := by
  induction l with
  | nil => exact Nat.zero_le _
  | cons c l ih =>
    rw [String.ofList_cons, String.utf8ByteSize_append, String.utf8ByteSize_singleton,
      List.length_cons]
    have hc := c.utf8Size_le_four
    omega

/-- A memo that ends in a name is short enough for a transfer. -/
theorem memo_size {text : String} (n : Name) (h : text.utf8ByteSize ≤ 204) :
    (text ++ String.ofList n.toText).utf8ByteSize ≤ 256 := by
  have hlist := utf8ByteSize_ofList_le n.toText
  have hname := n.length_toText_le
  rw [String.utf8ByteSize_append]
  omega

namespace AuctionState

variable {F : Type}

/-! ## What is held -/

/-- The high bids of the open auctions. -/
def openBids (s : AuctionState F) : Int := s.sys.bids.sum fun _ b => max b.highBid.toInt 0

/-- What outbid bidders have got back, for all names. -/
def owedRefunds (s : AuctionState F) : Int := s.bidRefunds.sum fun _ a => a.amount.toInt

def held (s : AuctionState F) : Int := s.openBids + s.owedRefunds

/-- The balance of `eosio.names` in the core token. -/
def namesBalance (s : AuctionState F) : Int :=
  s.sys.token.balance namesAccount s.sys.coreSym.code

/-- What `eosio.names` has more than it holds. -/
def surplus (s : AuctionState F) : Int := s.namesBalance - s.held

/-- The sum of the open bids with another bid on a name. -/
theorem sum_set_bid (bids : Table Name NameBid) (n : Name) (b : NameBid) :
    (bids.set n b).sum (fun _ b => max b.highBid.toInt 0) =
      bids.sum (fun _ b => max b.highBid.toInt 0) -
        bids.valueAt n (fun b => max b.highBid.toInt 0) + max b.highBid.toInt 0 :=
  bids.sum_set n b _

/-- Setting a refund changes the sum by the difference to the old one. -/
theorem sum_set_refund (refunds : Table (Scoped Name Name) Asset) (k : Scoped Name Name)
    (a : Asset) : (refunds.set k a).sum (fun _ a => a.amount.toInt) =
      refunds.sum (fun _ a => a.amount.toInt) - refunds.valueAt k (fun a => a.amount.toInt) +
        a.amount.toInt :=
  refunds.sum_set k a _

/-- Erasing a refund takes it out of the sum. -/
theorem sum_erase_refund (refunds : Table (Scoped Name Name) Asset) (k : Scoped Name Name) :
    (refunds.erase k).sum (fun _ a => a.amount.toInt) =
      refunds.sum (fun _ a => a.amount.toInt) - refunds.valueAt k (fun a => a.amount.toInt) :=
  refunds.sum_erase k _

/-! ## The invariant -/

/-- A bid is within range, and not by `eosio.names`. -/
structure GoodBid (b : NameBid) : Prop where
  lower : -2 ^ 62 < b.highBid.toInt
  upper : b.highBid.toInt < 2 ^ 62
  bidder : b.highBidder ≠ namesAccount

/-- The end of an auction changes the sign of its bid. -/
theorem toInt_negBid {b : NameBid} (h : GoodBid b) : (-b.highBid).toInt = -b.highBid.toInt := by
  have hlo := h.lower
  have hcases := Int64.toInt_neg_cases b.highBid
  omega

/-- What a bidder has got back is a positive amount of the core token. -/
structure GoodBack (sym : Symbol) (bidder : Name) (a : Asset) : Prop where
  positive : 0 < a.amount.toInt
  inRange : a.InRange
  symbol : a.symbol = sym
  bidder : bidder ≠ namesAccount

/-- The rows of the auctions are proper, and there are some only when there is a core token. -/
structure EscrowInv (s : AuctionState F) : Prop where
  core : s.sys.CoreToken
  bids : ∀ n b, s.sys.bids.find? n = some b → s.sys.rammarket.isSome ∧ GoodBid b
  refunds : ∀ k a, s.bidRefunds.find? k = some a →
    s.sys.rammarket.isSome ∧ GoodBack s.sys.coreSym k.key a

namespace EscrowInv

variable {s s' : AuctionState F}

theorem openBids_nonneg (s : AuctionState F) : 0 ≤ s.openBids :=
  Table.sum_nonneg fun _ _ _ => le_max_right _ _

theorem owedRefunds_nonneg (hI : s.EscrowInv) : 0 ≤ s.owedRefunds :=
  Table.sum_nonneg fun k a h => (hI.refunds k a h).2.positive.le

/-- A refund is part of what is held. -/
theorem refund_le_held (hI : s.EscrowInv) {k : Scoped Name Name} {a : Asset}
    (h : s.bidRefunds.find? k = some a) : a.amount.toInt ≤ s.held := by
  have hle : a.amount.toInt ≤ s.owedRefunds :=
    Table.le_sum (f := fun _ a => a.amount.toInt)
      (fun k a h => (hI.refunds k a h).2.positive.le) h
  have hnonneg := openBids_nonneg s
  unfold held
  omega

/-- An open bid is part of what is held. -/
theorem bid_le_held (hI : s.EscrowInv) {n : Name} {b : NameBid}
    (h : s.sys.bids.find? n = some b) : b.highBid.toInt ≤ s.held := by
  have hle : max b.highBid.toInt 0 ≤ s.openBids :=
    Table.le_sum (f := fun _ b => max b.highBid.toInt 0) (fun _ _ _ => le_max_right _ _) h
  have hnonneg := hI.owedRefunds_nonneg
  unfold held
  omega

end EscrowInv

/-! ## Transfers -/

/-- A transfer keeps the core token, whatever happens to bids and the schedule. -/
theorem SameSystem.coreToken {s s' : SystemState F} {ctx : Context} {from_ to_ : Name} {q : Asset}
    {memo : String} (hsame : SameSystem s s') (hI : s.CoreToken)
    (h : s.token.transfer ctx from_ to_ q memo = .ok s'.token) : s'.CoreToken := by
  have hstep : s.token.step ⟨ctx, .transfer from_ to_ q memo⟩ = .ok s'.token := h
  have hkeep := TokenState.step_stat hI.token hstep
  have htoken := TokenState.step_inv hI.token hstep
  have hrows := hI.stake.rows
  rw [hsame]
  refine ⟨⟨⟨hrows.delband, hrows.userres, hrows.refunds⟩, hI.stake.uninit, hI.stake.noRex,
    hI.stake.received, hI.stake.given⟩, htoken, fun hsome => ?_⟩
  obtain ⟨st, hst, hsym⟩ := hI.core hsome
  obtain ⟨st', hst', hsame', -⟩ := hkeep _ st hst
  exact ⟨st', hst', hsame'.trans hsym⟩

theorem SameSystem.rammarket {s s' : SystemState F} (hsame : SameSystem s s') :
    s'.rammarket = s.rammarket := by
  rw [hsame]

theorem SameSystem.coreSym {s s' : SystemState F} (hsame : SameSystem s s') :
    s'.coreSym = s.coreSym := by
  rw [hsame]
  rfl

/-- A transfer of the core token changes the balance of `eosio.names` by what it gets and
    gives. -/
theorem namesBalance_transfer {s s' : AuctionState F} {ctx : Context} {from_ to_ : Name} {q : Asset}
    {memo : String} (hI : s.sys.token.Inv) (hsame : SameSystem s.sys s'.sys)
    (hcore : s.sys.coreSymbol = .ok q.symbol)
    (h : s.sys.token.transfer ctx from_ to_ q memo = .ok s'.sys.token) :
    s'.namesBalance = s.namesBalance + (if namesAccount = to_ then q.amount.toInt else 0) -
      (if namesAccount = from_ then q.amount.toInt else 0) := by
  have hsym : q.symbol = s.sys.coreSym := SystemState.coreSym_of_ok hcore
  have hbal := TokenState.transfer_balance hI h namesAccount s.sys.coreSym.code
  unfold namesBalance
  rw [hsame.coreSym, hbal, hsym]
  simp only [and_true]

/-! ## One call -/

/-- What is transferred is positive and within range, and not to the sender. -/
theorem transfer_facts {ctx : Context} {t t' : TokenState} {from_ to_ : Name} {q : Asset}
    {memo : String} (h : t.transfer ctx from_ to_ q memo = .ok t') :
    from_ ≠ to_ ∧ 0 < q.amount.toInt ∧ q.InRange := by
  simp only [TokenState.transfer, bind_eq_ok, check_eq_ok] at h
  obtain ⟨_, hne, _, -, _, -, st, -, _, hvalid, _, hpos, -⟩ := h
  exact ⟨hne, Int64.lt_iff_toInt_lt.mp hpos, (Asset.isValid_iff.mp hvalid).1⟩

/-- Only the schedule differs. -/
theorem EscrowInv.of_same {s s' : AuctionState F} (hI : s.EscrowInv)
    (same : SameSystem s.sys s'.sys) (token : s'.sys.token = s.sys.token)
    (bids : s'.sys.bids = s.sys.bids) (refunds : s'.bidRefunds = s.bidRefunds) :
    s'.EscrowInv := by
  have hrows := hI.core.stake.rows
  refine ⟨?_, ?_, ?_⟩
  · rw [same, token]
    exact ⟨⟨⟨hrows.delband, hrows.userres, hrows.refunds⟩, hI.core.stake.uninit,
      hI.core.stake.noRex, hI.core.stake.received, hI.core.stake.given⟩, hI.core.token,
      hI.core.core⟩
  · rw [bids, same.rammarket]
    exact hI.bids
  · rw [refunds, same.rammarket, same.coreSym]
    exact hI.refunds

/-- The rows after a change of the tables of the auctions. -/
theorem EscrowInv.of_rows {s s' : AuctionState F} {bids : Table Name NameBid}
    {refunds : Table (Scoped Name Name) Asset} (same : SameSystem s.sys s'.sys)
    (core : s'.sys.CoreToken) (hbids : s'.sys.bids = bids) (hrefunds : s'.bidRefunds = refunds)
    (hb : ∀ n b, bids.find? n = some b → s.sys.rammarket.isSome ∧ GoodBid b)
    (hr : ∀ k a, refunds.find? k = some a →
      s.sys.rammarket.isSome ∧ GoodBack s.sys.coreSym k.key a) : s'.EscrowInv := by
  refine ⟨core, ?_, ?_⟩
  · rw [hbids, same.rammarket]
    exact hb
  · rw [hrefunds, same.rammarket, same.coreSym]
    exact hr

/-- A proper bid takes its place among the others. -/
theorem EscrowInv.set_bid {s : AuctionState F} (hI : s.EscrowInv) (newname : Name)
    {b : NameBid} (hmarket : s.sys.rammarket.isSome) (hgood : GoodBid b) (n : Name) (c : NameBid)
    (hc : (s.sys.bids.set newname b).find? n = some c) :
    s.sys.rammarket.isSome ∧ GoodBid c := by
  rw [Table.find?_set] at hc
  split at hc
  · cases hc
    exact ⟨hmarket, hgood⟩
  · exact hI.bids n c hc

/-- What a transferred bid is. -/
theorem goodBid_of_transfer {ctx : Context} {t t' : TokenState} {bidder : Name} {bid : Asset}
    {memo : String} (now : TimePoint)
    (h : t.transfer ctx bidder namesAccount bid memo = .ok t') :
    GoodBid ⟨bidder, bid.amount, now⟩ := by
  obtain ⟨hne, -, hlo, hhi⟩ := transfer_facts h
  exact ⟨hlo, hhi, hne⟩

/-- A bid that has been outbid is added to what its bidder gets back. -/
theorem EscrowInv.added {s s₁ : AuctionState F} (hI : s.EscrowInv) {newname : Name}
    {current : NameBid} {sym : Symbol} (hsym : s.sys.coreSymbol = .ok sym)
    (h : s.addRefund newname current = .ok s₁) : ∃ amount : Asset,
      s₁.bidRefunds = s.bidRefunds.set ⟨newname, current.highBidder⟩ amount ∧
      amount.symbol = s.sys.coreSym ∧ amount.InRange ∧ amount.amount.toInt =
        s.bidRefunds.valueAt ⟨newname, current.highBidder⟩ (fun a => a.amount.toInt) +
          current.highBid.toInt := by
  obtain rfl := SystemState.coreSym_of_ok hsym
  obtain ⟨amount, rfl, hsymbol, hinRange, hamount⟩ := addRefund_spec hsym
    (fun a ha => ⟨(hI.refunds _ a ha).2.symbol, (hI.refunds _ a ha).2.inRange⟩) h
  exact ⟨amount, rfl, hsymbol, hinRange, hamount⟩

variable [Double F]

/-- Of the actions of the system contract, only `newaccount` takes away a bid. -/
theorem EscrowInv.system {s s' : AuctionState F} (hI : s.EscrowInv) {ctx : Context}
    {a : SystemAction F} (h : s.sys.step ⟨ctx, a⟩ = .ok s'.sys)
    (refunds : s'.bidRefunds = s.bidRefunds) : s'.EscrowInv := by
  -- the market stays, with its core symbol
  have hmarket : s.sys.rammarket.isSome → s'.sys.rammarket.isSome ∧
      s'.sys.coreSym = s.sys.coreSym := by
    intro hm
    have hkeep := SystemState.step_sameMarket hI.core.stake hm h
    exact ⟨hkeep.isSome ▸ hm, hkeep.coreSym⟩
  -- no row of a bid is written
  have hrow : ∀ n b, s'.sys.bids.find? n = some b → s.sys.bids.find? n = some b := by
    intro n b hb
    rcases SystemState.step_bids hI.core.stake.noRex h with hbids |
      ⟨creator, newact, -, -, -, _, -, -, -, hbids⟩
    · rw [← hbids]
      exact hb
    · rw [hbids, Table.find?_erase] at hb
      split at hb
      · cases hb
      · exact hb
  refine ⟨SystemState.step_coreToken hI.core h, fun n b hb => ?_, fun k a ha => ?_⟩
  · obtain ⟨hm, hgood⟩ := hI.bids n b (hrow n b hb)
    exact ⟨(hmarket hm).1, hgood⟩
  · rw [refunds] at ha
    obtain ⟨hm, hgood⟩ := hI.refunds k a ha
    rw [(hmarket hm).2]
    exact ⟨(hmarket hm).1, hgood⟩

/-- A call keeps the rows proper. -/
theorem EscrowInv.step {s s' : AuctionState F} {call : AuctionCall F} (hI : s.EscrowInv)
    (h : s.step call = .ok s') : s'.EscrowInv := by
  cases step_auction h with
  | first bidder newname bid memo action fresh symbol transfer bids refunds same =>
    -- the first bid becomes the bid of the auction
    have hbids := hI.set_bid newname (SystemState.rammarket_isSome_of_ok symbol)
      (goodBid_of_transfer call.ctx.now transfer)
    exact .of_rows same (same.coreToken hI.core transfer) bids refunds hbids hI.refunds
  | outbid bidder newname bid memo current action row isOpen symbol transfer bids s₁ added refunds
      same =>
    -- the higher bid replaces the one of the bidder before
    have hbids := hI.set_bid newname (SystemState.rammarket_isSome_of_ok symbol)
      (goodBid_of_transfer call.ctx.now transfer)
    obtain ⟨hm, hcurrent⟩ := hI.bids newname current row
    obtain ⟨amount, hset, hsymbol, hinRange, hamount⟩ := hI.added symbol added
    -- what the bidder before gets back is added to what is waiting already
    have hold := Table.valueAt_nonneg (f := fun a : Asset => a.amount.toInt)
      (fun k a ha => (hI.refunds k a ha).2.positive.le)
      (⟨newname, current.highBidder⟩ : Scoped Name Name)
    refine .of_rows same (same.coreToken hI.core transfer) bids (refunds.trans hset) hbids
      fun k a ha => ?_
    rw [Table.find?_set] at ha
    split at ha
    · rename_i hk
      cases ha
      rw [hk]
      exact ⟨hm, by omega, hinRange, hsymbol, hcurrent.bidder⟩
    · exact hI.refunds k a ha
  | refunded bidder newname amount memo action row transfer bids refunds same =>
    -- a refund leaves the other waiting refunds
    refine .of_rows same (same.coreToken hI.core transfer) bids refunds hI.bids fun k a ha => ?_
    rw [Table.find?_erase] at ha
    split at ha
    · cases ha
    · exact hI.refunds k a ha
  | closed timestamp accepted newname highest sym memo action row isOpen symbol transfer bids refunds
      same =>
    obtain ⟨hm, hgood⟩ := hI.bids newname highest row
    -- a closed auction keeps its bid with the other sign
    have hneg := toInt_negBid hgood
    have hlower := hgood.lower
    have hclosed : GoodBid { highest with highBid := -highest.highBid } := by
      refine ⟨?_, ?_, hgood.bidder⟩
      · show -2 ^ 62 < (-highest.highBid).toInt
        have hupper := hgood.upper
        omega
      · show (-highest.highBid).toInt < 2 ^ 62
        omega
    exact .of_rows same (same.coreToken hI.core transfer) bids refunds (hI.set_bid newname hm hclosed)
      hI.refunds
  | idle timestamp accepted action token bids refunds same =>
    -- nothing of the auctions has changed
    exact hI.of_same same token bids refunds
  | system a action hstep refunds => exact hI.system hstep refunds

/-- The call is not one of the auctions. -/
def isSystem : AuctionAction F → Bool
  | .system _ => true
  | _ => false

omit [Double F] in
/-- Replacing a bid changes the sum of the open bids by the two of them. -/
theorem openBids_eq {s s' : AuctionState F} {n : Name} {b : NameBid}
    (h : s'.sys.bids = s.sys.bids.set n b) : s'.openBids = s.openBids -
      s.sys.bids.valueAt n (fun b => max b.highBid.toInt 0) + max b.highBid.toInt 0 := by
  unfold openBids
  rw [h]
  exact sum_set_bid _ _ _

/-- A bid, a refund or the end of an auction moves what it transfers. -/
theorem step_surplus {s s' : AuctionState F} {call : AuctionCall F} (hI : s.EscrowInv)
    (hcall : isSystem call.action = false) (h : s.step call = .ok s') : s'.surplus = s.surplus := by
  cases step_auction h with
  | first bidder newname bid memo action fresh symbol transfer bids refunds same =>
    -- the bid comes in, and is held as the open bid
    obtain ⟨hne, hpos, -⟩ := transfer_facts transfer
    have hbalance := namesBalance_transfer hI.core.token same symbol transfer
    rw [if_pos rfl, if_neg hne.symm] at hbalance
    have hopen := openBids_eq bids
    rw [Table.valueAt_none fresh, max_eq_left hpos.le] at hopen
    unfold surplus held owedRefunds
    rw [refunds]
    omega
  | outbid bidder newname bid memo current action row isOpen symbol transfer bids s₁ added refunds
      same =>
    -- the new bid comes in, and the old one is owed to its bidder
    obtain ⟨hne, hpos, -⟩ := transfer_facts transfer
    have hbalance := namesBalance_transfer hI.core.token same symbol transfer
    rw [if_pos rfl, if_neg hne.symm] at hbalance
    have hopen := openBids_eq bids
    rw [Table.valueAt_some row, max_eq_left hpos.le, max_eq_left isOpen.le] at hopen
    -- the bid that has been outbid goes from the bids to the refunds
    obtain ⟨amount, hset, -, -, hamount⟩ := hI.added symbol added
    have howed := sum_set_refund s.bidRefunds ⟨newname, current.highBidder⟩ amount
    unfold surplus held owedRefunds
    rw [refunds, hset]
    omega
  | refunded bidder newname amount memo action row transfer bids refunds same =>
    obtain ⟨hm, hgood⟩ := hI.refunds _ amount row
    -- the refund is paid in the core symbol
    have hcore : s.sys.coreSymbol = .ok amount.symbol := by
      obtain ⟨m, hm⟩ := Option.isSome_iff_exists.mp hm
      rw [hgood.symbol]
      unfold SystemState.coreSym
      rw [hm]
      exact coreSymbol_eq_ok.mpr ⟨m, hm, rfl⟩
    have hbalance := namesBalance_transfer hI.core.token same hcore transfer
    rw [if_pos rfl, if_neg (transfer_facts transfer).1] at hbalance
    -- what is paid is no longer owed
    have howed := sum_erase_refund s.bidRefunds ⟨newname, bidder⟩
    rw [Table.valueAt_some row] at howed
    unfold surplus held owedRefunds openBids
    rw [refunds, bids]
    omega
  | closed timestamp accepted newname highest sym memo action row isOpen symbol transfer bids refunds
      same =>
    -- the bid is paid out of the account
    have hbalance := namesBalance_transfer hI.core.token same symbol transfer
    rw [if_pos rfl, if_neg (transfer_facts transfer).1] at hbalance
    have hneg := toInt_negBid (hI.bids newname highest row).2
    have hopen := openBids_eq bids
    rw [Table.valueAt_some row, max_eq_left isOpen.le] at hopen
    -- a closed auction does not count
    have hzero : max (-highest.highBid).toInt 0 = 0 := by
      rw [hneg]
      exact max_eq_right (by omega)
    simp only [hzero] at hopen hbalance
    unfold surplus held owedRefunds
    rw [refunds]
    omega
  | idle timestamp accepted action token bids refunds same =>
    -- neither side moves
    unfold surplus held owedRefunds openBids namesBalance
    rw [refunds, bids, token, same.coreSym]
  | system a action hstep refunds =>
    rw [action] at hcall
    cases hcall

/-- The other actions leave what is held alone: an auction that `newaccount` uses up has been
    paid. -/
theorem step_held {s s' : AuctionState F} {call : AuctionCall F} (hI : s.EscrowInv)
    (hcall : isSystem call.action = true) (h : s.step call = .ok s') : s'.held = s.held := by
  obtain ⟨ctx, action⟩ := call
  cases action with
  | system a =>
    simp only [step, bind_eq_ok, pure_eq_ok] at h
    obtain ⟨sys, hsys, rfl⟩ := h
    -- only a closed row may be erased, which is not counted
    have hopen : sys.bids.sum (fun _ b => max b.highBid.toInt 0) = s.openBids := by
      rcases SystemState.step_bids hI.core.stake.noRex hsys with hbids |
        ⟨creator, newact, -, -, -, b, hb, -, hclosed, hbids⟩
      · rw [hbids]
        rfl
      · have hclosed := Int64.lt_iff_toInt_lt.mp hclosed
        rw [Int64.toInt_zero] at hclosed
        have hsum := s.sys.bids.sum_erase newact fun _ b => max b.highBid.toInt 0
        rw [hb, Option.elim_some, max_eq_right hclosed.le, sub_zero] at hsum
        rw [hbids]
        exact hsum
    exact congrArg (· + s.owedRefunds) hopen
  | bidname bidder newname bid => cases hcall
  | bidrefund bidder newname => cases hcall
  | onblock timestamp accepted => cases hcall

/-! ## Payments -/

omit [Double F] in
/-- `eosio.names` can pay what it holds. -/
theorem pay_ok {s : AuctionState F} {ctx : Context} {to_ : Name} {q : Asset} {memo : String}
    (hI : s.EscrowInv) (hheld : s.held ≤ s.namesBalance) (hm : s.sys.rammarket.isSome)
    (hsym : q.symbol = s.sys.coreSym) (hpos : 0 < q.amount.toInt) (hle : q.amount.toInt ≤ s.held)
    (hauth : namesAccount ∈ ctx.auth) (hto : ctx.isAccount to_) (hne : namesAccount ≠ to_)
    (hmemo : memo.utf8ByteSize ≤ 256) :
    ∃ t, s.sys.token.transfer ctx namesAccount to_ q memo = .ok t := by
  obtain ⟨st, hst, hstsym⟩ := hI.core.core hm
  rw [← hsym] at hst hstsym
  apply TokenState.transfer_ok hI.core.token hne hauth hto hst hstsym.symm hpos hmemo
  rw [hsym]
  exact hle.trans hheld

omit [Double F] in
/-- An action whose inline actions succeed is committed. -/
theorem commit_of_ok {ctx : Context} {s : AuctionState F} {sends : List InlineAction}
    {token : TokenState} (h : SystemState.runInline ctx s.sys.token sends = .ok token) :
    ∃ s', commit ctx (.ok (s, sends)) = .ok s' := by
  refine ⟨{ s with sys := { s.sys with token := token } }, ?_⟩
  simp only [commit, bind_eq_ok, pure_eq_ok]
  exact ⟨(s, sends), rfl, token, h, rfl⟩

/-- While the balance covers what is held, each refund is paid. -/
theorem bidrefund_ok {s : AuctionState F} (hI : s.EscrowInv) (hheld : s.held ≤ s.namesBalance)
    {ctx : Context} {newname bidder : Name} {amount : Asset}
    (hrow : s.bidRefunds.find? ⟨newname, bidder⟩ = some amount) (hto : ctx.isAccount bidder) :
    ∃ s', s.step ⟨ctx, .bidrefund bidder newname⟩ = .ok s' := by
  obtain ⟨hm, hgood⟩ := hI.refunds _ amount hrow
  have hmemo : ("refund bid on name " ++ String.ofList newname.toText).utf8ByteSize ≤ 256 :=
    memo_size newname (by decide)
  have hauth : namesAccount ∈ (ctx.withAuth [namesAccount, bidder]).auth := List.mem_cons_self
  obtain ⟨t, ht⟩ := pay_ok hI hheld hm hgood.symbol hgood.positive (hI.refund_le_held hrow) hauth hto
    hgood.bidder.symm hmemo
  have hrun : s.bidrefund bidder newname = .ok ({ s with
      bidRefunds := s.bidRefunds.erase ⟨newname, bidder⟩ }, [⟨[namesAccount, bidder],
        .transfer namesAccount bidder amount
          ("refund bid on name " ++ String.ofList newname.toText)⟩]) := by
    simp only [bidrefund, bind_eq_ok, getRow_eq_ok, pure_eq_ok]
    exact ⟨amount, hrow, rfl⟩
  show ∃ s', commit ctx (s.bidrefund bidder newname) = .ok s'
  rw [hrun]
  exact commit_of_ok (SystemState.runInline_singleton.mpr ht)

omit [Double F] in
/-- While the balance covers what is held, the winning bid is paid. -/
theorem closeAuction_ok {s : AuctionState F} (hI : s.EscrowInv) (hheld : s.held ≤ s.namesBalance)
    {ctx : Context} (hto : ctx.isAccount upayAccount) (timestamp : BlockTimestamp) :
    ∃ s', commit ctx (s.closeAuction ctx timestamp) = .ok s' := by
  unfold closeAuction
  cases hhighest : s.highestBid with
  -- there is no bid at all
  | none => exact commit_of_ok (SystemState.runInline_nil.mpr rfl)
  | some p =>
    obtain ⟨newname, highest⟩ := p
    simp only
    split
    · rename_i hcond
      -- the bid is one of the rows, so it is good
      have hrow := find?_of_highestBid hhighest
      obtain ⟨hm, hgood⟩ := hI.bids newname highest hrow
      obtain ⟨st, hst, hstsym⟩ := hI.core.core hm
      have hvalid := (hI.core.token.statKey _ st hst).2.2
      rw [hstsym] at hvalid
      -- the core symbol is known
      have hcore : s.sys.coreSymbol = .ok s.sys.coreSym := by
        obtain ⟨m, hm⟩ := Option.isSome_iff_exists.mp hm
        unfold SystemState.coreSym
        rw [hm]
        exact coreSymbol_eq_ok.mpr ⟨m, hm, rfl⟩
      have hmake : Asset.make highest.highBid s.sys.coreSym =
          .ok ⟨highest.highBid, s.sys.coreSym⟩ :=
        Asset.make_eq_ok.mpr ⟨hgood.lower, hgood.upper, hvalid, rfl⟩
      rw [hcore]
      simp only [bind, Except.bind, hmake]
      -- the payment succeeds
      have hauth : namesAccount ∈ (ctx.withAuth [namesAccount]).auth := List.mem_cons_self
      have hmemo : "winning auction bid".utf8ByteSize ≤ 256 := by decide
      have hpos : 0 < highest.highBid.toInt := Int64.lt_iff_toInt_lt.mp hcond.1
      have hsym : (⟨highest.highBid, s.sys.coreSym⟩ : Asset).symbol = s.sys.coreSym := rfl
      obtain ⟨t, ht⟩ := pay_ok hI hheld hm hsym hpos (hI.bid_le_held hrow) hauth hto (by decide) hmemo
      exact commit_of_ok (SystemState.runInline_singleton.mpr ht)
    · -- the highest auction is not due
      exact commit_of_ok (SystemState.runInline_nil.mpr rfl)

/-- While the balance covers what is held, no block fails for want of tokens. -/
theorem onblock_ok {s : AuctionState F} (hI : s.EscrowInv) (hheld : s.held ≤ s.namesBalance)
    {ctx : Context} (hauth : systemAccount ∈ ctx.auth) (hto : ctx.isAccount upayAccount)
    (timestamp : BlockTimestamp) (accepted : Bool) :
    ∃ s', s.step ⟨ctx, .onblock timestamp accepted⟩ = .ok s' := by
  have hrun : s.onblock ctx timestamp accepted =
      if s.sys.gstate.threshActivatedStakeTime = 0 then .ok (s, [])
      else if 120 < timestamp - s.lastProducerScheduleUpdate then
        if blocksPerDay < timestamp - (s.updateElectedProducers timestamp accepted).lastNameClose then
          (s.updateElectedProducers timestamp accepted).closeAuction ctx timestamp
        else .ok (s.updateElectedProducers timestamp accepted, [])
      else .ok (s, []) := by
    unfold onblock requireAuth
    rw [check_bind_of hauth]
    rfl
  obtain ⟨size, hsize⟩ := updateElectedProducers_eq s timestamp accepted
  show ∃ s', commit ctx (s.onblock ctx timestamp accepted) = .ok s'
  rw [hrun, hsize]
  split
  · -- before the activation there is nothing to do
    exact commit_of_ok (SystemState.runInline_nil.mpr rfl)
  · split
    · split
      · -- the producers are elected first, which touches no bid
        apply closeAuction_ok _ _ hto timestamp
        · exact hI.of_same rfl rfl rfl rfl
        · exact hheld
      · exact commit_of_ok (SystemState.runInline_nil.mpr rfl)
    · exact commit_of_ok (SystemState.runInline_nil.mpr rfl)

/-! ## Runs -/

/-- There are no auctions yet, in a state of the system contract that a run has reached. -/
structure AuctionStart (s : AuctionState F) : Prop where
  reached : ∃ maxBlockNetUsage maxBlockCpuUsage calls, s.sys = Run.exec SystemState.step
    (SystemState.genesis maxBlockNetUsage maxBlockCpuUsage) calls
  bids : s.sys.bids = ∅
  refunds : s.bidRefunds = ∅

/-- The invariant holds before the first bid. -/
theorem AuctionStart.escrowInv {s : AuctionState F} (h : AuctionStart s) : s.EscrowInv := by
  obtain ⟨maxNet, maxCpu, calls, hs⟩ := h.reached
  refine ⟨?_, fun n b hb => ?_, fun k a ha => ?_⟩
  · rw [hs]
    exact SystemState.exec_coreToken (SystemState.genesis_coreToken maxNet maxCpu) calls
  · rw [h.bids, Table.find?_empty] at hb
    cases hb
  · rw [h.refunds, Table.find?_empty] at ha
    cases ha

/-- Before the first bid nothing is held. -/
theorem AuctionStart.held_eq {s : AuctionState F} (h : AuctionStart s) : s.held = 0 := by
  unfold held openBids owedRefunds
  rw [h.bids, h.refunds]
  rfl

/-- `eosio.names` spends nothing by other actions. -/
def SpendsHere (s : AuctionState F) (call : AuctionCall F) : Prop :=
  isSystem call.action = true → s.namesBalance ≤ (Run.next step s call).namesBalance

/-- Other actions leave the balance of `eosio.names` alone. -/
def NoDonation (s : AuctionState F) (call : AuctionCall F) : Prop :=
  isSystem call.action = true → (Run.next step s call).namesBalance = s.namesBalance

instance (s : AuctionState F) (call : AuctionCall F) : Decidable (SpendsHere s call) :=
  inferInstanceAs (Decidable (_ → _))

instance (s : AuctionState F) (call : AuctionCall F) : Decidable (NoDonation s call) :=
  inferInstanceAs (Decidable (_ → _))

/-- In every run from empty auctions in which `eosio.names` spends only by auctions: it owns
    what it holds, and exactly that when nobody else gives to it, and so every refund and the
    winning bid that a block closes can be paid. -/
theorem auction_escrow {s : AuctionState F} (hs : AuctionStart s) {calls : List (AuctionCall F)}
    (hspend : Run.Meets step SpendsHere s calls) :
    let u := Run.exec step s calls
    u.openBids + u.owedRefunds ≤ u.namesBalance ∧
    (s.namesBalance = 0 → Run.Meets step NoDonation s calls →
      u.openBids + u.owedRefunds = u.namesBalance) ∧
    (∀ ctx newname bidder amount, u.bidRefunds.find? ⟨newname, bidder⟩ = some amount →
      ctx.isAccount bidder → ∃ u', u.step ⟨ctx, .bidrefund bidder newname⟩ = .ok u') ∧
    ∀ ctx timestamp accepted, systemAccount ∈ ctx.auth → ctx.isAccount upayAccount →
      ∃ u', u.step ⟨ctx, .onblock timestamp accepted⟩ = .ok u' := by
  intro u
  -- the balance covers what is held after every call
  have hstep : ∀ (s : AuctionState F) call s', s.EscrowInv ∧ s.held ≤ s.namesBalance →
      SpendsHere s call → s.step call = .ok s' → s'.EscrowInv ∧ s'.held ≤ s'.namesBalance := by
    intro s call s' ⟨hI, hheld⟩ hspend h
    refine ⟨hI.step h, ?_⟩
    cases hcall : isSystem call.action with
    -- a call of the auctions moves both sides alike
    | false =>
      have hsurplus := step_surplus hI hcall h
      unfold surplus at hsurplus
      omega
    | true =>
      have hbalance := hspend hcall
      rw [Run.next_of_ok h] at hbalance
      rw [step_held hI hcall h]
      exact hheld.trans hbalance
  -- without a donation from outside nothing is left over either
  have hexact : ∀ (s : AuctionState F) call s', s.EscrowInv ∧ s.surplus = 0 →
      NoDonation s call → s.step call = .ok s' → s'.EscrowInv ∧ s'.surplus = 0 := by
    intro s call s' ⟨hI, hsurplus⟩ hno h
    refine ⟨hI.step h, ?_⟩
    cases hcall : isSystem call.action with
    | false => rw [step_surplus hI hcall h, hsurplus]
    | true =>
      have hbalance := hno hcall
      rw [Run.next_of_ok h] at hbalance
      unfold surplus at hsurplus ⊢
      rw [step_held hI hcall h, hbalance]
      exact hsurplus
  -- at the start no bid is open and no refund waits
  have hstart := hs.escrowInv
  have hnonneg : s.held ≤ s.namesBalance := by
    rw [hs.held_eq]
    exact hstart.core.token.balance_nonneg _ _
  obtain ⟨hI, hheld⟩ : u.EscrowInv ∧ u.held ≤ u.namesBalance :=
    Run.exec_of_meets (I := fun s : AuctionState F => s.EscrowInv ∧ s.held ≤ s.namesBalance) hstep
      ⟨hstart, hnonneg⟩ hspend
  refine ⟨hheld, fun hzero hno => ?_, fun ctx newname bidder amount hrow hto =>
    bidrefund_ok hI hheld hrow hto, fun ctx timestamp accepted hauth hto =>
    onblock_ok hI hheld hauth hto timestamp accepted⟩
  -- the exact balance needs that there was none at the start
  have hsurplus : s.surplus = 0 := by
    unfold surplus
    rw [hzero, hs.held_eq]
    rfl
  obtain ⟨-, heq⟩ : u.EscrowInv ∧ u.surplus = 0 :=
    Run.exec_of_meets (I := fun s : AuctionState F => s.EscrowInv ∧ s.surplus = 0) hexact
      ⟨hstart, hsurplus⟩ hno
  unfold surplus held at heq
  omega

open Sample in
/-- The two bids of the sample are there, and alice can be paid back. -/
theorem auction_escrow_sample :
    let u := Run.exec step start bids
    u.openBids = 20000 ∧ u.owedRefunds = 10000 ∧ u.namesBalance = 30000 ∧
      ∃ u', u.step ⟨ctx [] SystemState.Sample.launch,
        .bidrefund SystemState.Sample.alice com⟩ = .ok u' := by
  intro u
  have hstart : AuctionStart start := ⟨⟨1048576, 200000, SystemState.Sample.setup, rfl⟩,
    Table.eq_empty_of_size (by decide +kernel), rfl⟩
  have hspend : Run.Meets step SpendsHere start bids := by decide +kernel
  have hno : Run.Meets step NoDonation start bids := by decide +kernel
  have hopen : u.openBids = 20000 := by decide +kernel
  have howed : u.owedRefunds = 10000 := by decide +kernel
  have hrow : u.bidRefunds.find? ⟨com, SystemState.Sample.alice⟩ =
      some (SystemState.Sample.utx 10000) := by
    decide +kernel
  obtain ⟨-, hexact, hpay, -⟩ := auction_escrow hstart hspend
  have hexact : u.openBids + u.owedRefunds = u.namesBalance := hexact (by decide +kernel) hno
  refine ⟨hopen, howed, ?_, hpay _ _ _ _ hrow (by decide)⟩
  rw [← hexact, hopen, howed]
  rfl

end AuctionState

end UxContracts
