import UxContracts.Spec.AuctionClose

/-!
# The pace of the auctions

Each bid on a name is more than a tenth higher than the one before it, so an auction has at
most 431 bids: it cannot be kept open for ever (`auction_bids_bounded`). Blocks close one
auction a day, and a premium name takes a closed auction, so at most one premium name a day
comes into being, whoever bids for how many (`premium_names_pace`).
-/

namespace UxContracts

namespace AuctionState

variable {F : Type}

/-! ## Bids -/

/-- The least high bid after a number of bids. -/
def leastBid : Nat → Nat
  | 0 => 0
  | n + 1 => leastBid n + leastBid n / 10 + 1

/-- More bids lead to a higher least bid. -/
theorem leastBid_mono {m n : Nat} (h : m ≤ n) : leastBid m ≤ leastBid n := by
  induction h with
  | refl => exact le_refl _
  | @step k h ih =>
    have hnext : leastBid k.succ = leastBid k + leastBid k / 10 + 1 := rfl
    omega

/-- There are no bids of 62 bits after 431 of them. -/
theorem bids_le {n bid : Nat} (h : leastBid n ≤ bid) (hbid : bid < 2 ^ 62) : n ≤ 431 := by
  by_contra hlt
  have hle : leastBid 432 ≤ leastBid n := leastBid_mono (by omega)
  have hmax : 2 ^ 62 ≤ leastBid 432 := by decide +kernel
  omega

/-- A bid that is accepted is more than a tenth higher than the one before it. -/
theorem increase_of_bid {old bid : Int64} (hold : 0 < old.toInt) (hpos : 0 < bid.toInt)
    (h : old / 10 < bid - old) : old.toInt + old.toInt / 10 < bid.toInt := by
  have hlt := Int64.toInt_lt old
  have hlt' := Int64.toInt_lt bid
  have hsub : (bid - old).toInt = bid.toInt - old.toInt := by
    apply Int64.toInt_sub_of_mem <;> omega
  have hdiv : (old / 10).toInt = old.toInt / 10 := by
    rw [Int64.toInt_div_of_ne_right _ _ (by decide), Int.tdiv_eq_ediv_of_nonneg hold.le]
    rfl
  rw [Int64.lt_iff_toInt_lt, hsub, hdiv] at h
  omega

/-- The number of bids in the auction of each name. -/
def recordBids (r : Name → Nat) (s : AuctionState F) (call : AuctionCall F)
    (_ : AuctionState F) : Name → Nat :=
  match call.action with
  | .bidname _ newname _ =>
    Function.update r newname (if (s.sys.bids.find? newname).isSome then r newname + 1 else 1)
  | _ => r

variable [Double F]

/-- What an accepted bid does: it is the first one, or it is high enough. -/
theorem bidname_increase {s s' : AuctionState F} {ctx : Context} {bidder newname : Name}
    {bid : Asset} (h : s.step ⟨ctx, .bidname bidder newname bid⟩ = .ok s') :
    0 < bid.amount.toInt ∧ bid.InRange ∧
      s'.sys.bids = s.sys.bids.set newname ⟨bidder, bid.amount, ctx.now⟩ ∧
      ∀ current, s.sys.bids.find? newname = some current →
        0 < current.highBid.toInt ∧ current.highBid / 10 < bid.amount - current.highBid := by
  -- a higher bid is open and exceeds a tenth
  have hincrease : ∀ current, s.sys.bids.find? newname = some current →
      0 < current.highBid.toInt ∧ current.highBid / 10 < bid.amount - current.highBid := by
    intro current hrow
    obtain ⟨u, sends, token, hr, -, rfl⟩ := commit_ok h
    simp only [bidname, placeBid, hrow, bind_eq_ok, check_eq_ok, pure_eq_ok, Prod.mk.injEq] at hr
    obtain ⟨_, -, _, -, _, -, _, -, _, -, _, -, sym, -, _, -, _, -, u', ⟨_, hopen, _, hinc, -⟩, -⟩ :=
      hr
    exact ⟨Int64.lt_iff_toInt_lt.mp hopen, hinc⟩
  cases bidname_change h with
  | first bidder' newname' bid' memo action fresh symbol transfer bids refunds same =>
    cases action
    -- in both cases the bid that is stored has been transferred
    obtain ⟨-, hpos, hrange⟩ := transfer_facts transfer
    exact ⟨hpos, hrange, bids, hincrease⟩
  | outbid bidder' newname' bid' memo current action row isOpen symbol transfer bids s₁ added
      refunds same =>
    cases action
    obtain ⟨-, hpos, hrange⟩ := transfer_facts transfer
    exact ⟨hpos, hrange, bids, hincrease⟩
  | refunded bidder newname amount memo action => cases action
  | closed timestamp accepted newname highest sym memo action => cases action
  | idle timestamp accepted action => cases action
  | system a action => cases action

/-- The high bid of an auction is the least one after its bids, or more. -/
def BidsCounted (s : AuctionState F) (r : Name → Nat) : Prop :=
  ∀ n b, s.sys.bids.find? n = some b → leastBid (r n) ≤ b.highBid.toInt.natAbs

/-- A call keeps the count of bids in line with the high bids. -/
theorem step_bidsCounted {s s' : AuctionState F} {r : Name → Nat} {call : AuctionCall F}
    (hI : s.EscrowInv) (hr : BidsCounted s r) (h : s.step call = .ok s') :
    BidsCounted s' (recordBids r s call s') := by
  obtain ⟨ctx, action⟩ := call
  intro n b' hb'
  cases action with
  | bidname bidder newname bid =>
    obtain ⟨hpos, -, hbids, hincrease⟩ := bidname_increase h
    rw [hbids, Table.find?_set] at hb'
    simp only [recordBids, Function.update_apply]
    split at hb'
    · rename_i hn
      rw [if_pos hn]
      cases hb'
      cases hrow : s.sys.bids.find? newname with
      -- the first bid is positive
      | none =>
        rw [Option.isSome_none, if_neg Bool.false_ne_true]
        show 1 ≤ bid.amount.toInt.natAbs
        omega
      | some current =>
        -- the bids so far, and one more
        obtain ⟨hopen, hinc⟩ := hincrease current hrow
        have hmore := increase_of_bid hopen hpos hinc
        have hleast := hr newname current hrow
        rw [Option.isSome_some, if_pos rfl]
        show leastBid (r newname) + leastBid (r newname) / 10 + 1 ≤ bid.amount.toInt.natAbs
        omega
    · -- the other auctions keep their bids
      rename_i hn
      rw [if_neg hn]
      exact hr n b' hb'
  | bidrefund bidder newname =>
    cases step_auction h with
    | refunded bidder' newname' amount memo action row transfer bids refunds same =>
      -- a refund changes no bid
      rw [bids] at hb'
      exact hr n b' hb'
    | first bidder newname bid memo action => cases action
    | outbid bidder newname bid memo current action => cases action
    | closed timestamp accepted newname highest sym memo action => cases action
    | idle timestamp accepted action => cases action
    | system a action => cases action
  | onblock timestamp accepted =>
    cases onblock_change h with
    | closed timestamp' accepted' newname highest sym memo action row isOpen symbol transfer bids
        refunds same =>
      -- closing an auction only turns the sign of its bid
      rw [bids, Table.find?_set] at hb'
      split at hb'
      · rename_i hn
        cases hb'
        have hold := hr newname highest row
        have hneg := toInt_negBid (hI.bids newname highest row).2
        rw [hn]
        show leastBid (r newname) ≤ (-highest.highBid).toInt.natAbs
        rw [hneg, Int.natAbs_neg]
        exact hold
      · exact hr n b' hb'
    | idle timestamp' accepted' action token bids refunds same =>
      rw [bids] at hb'
      exact hr n b' hb'
    | first bidder newname bid memo action => cases action
    | outbid bidder newname bid memo current action => cases action
    | refunded bidder newname amount memo action => cases action
    | system a action => cases action
  -- a new account erases the row of its name, and no row is changed
  | system a =>
    simp only [step, bind_eq_ok, pure_eq_ok] at h
    obtain ⟨sys, hsys, rfl⟩ := h
    -- the other actions keep the bids or erase one
    have hb' : sys.bids.find? n = some b' := hb'
    rcases SystemState.step_bids hI.core.stake.noRex hsys with hbids |
      ⟨creator, newact, -, -, -, _, -, -, -, hbids⟩
    · rw [hbids] at hb'
      exact hr n b' hb'
    · rw [hbids, Table.find?_erase] at hb'
      split at hb'
      · cases hb'
      · exact hr n b' hb'

/-- In every run from empty auctions, whoever bids on what and when: the high bid of a name is
    at least the one that as many bids as it had must have led to, so it had at most 431. -/
theorem auction_bids_bounded {s : AuctionState F} (hs : AuctionStart s)
    (calls : List (AuctionCall F)) :
    let p := Run.exec (Run.observed step recordBids) (s, fun _ => 0) calls
    ∀ n b, p.1.sys.bids.find? n = some b →
      leastBid (p.2 n) ≤ b.highBid.toInt.natAbs ∧ p.2 n ≤ 431 := by
  intro p n b hb
  -- one call counts its bid
  have hstep : ∀ (p : AuctionState F × (Name → Nat)) call q,
      p.1.EscrowInv ∧ BidsCounted p.1 p.2 → Run.observed step recordBids p call = .ok q →
      q.1.EscrowInv ∧ BidsCounted q.1 q.2 := by
    intro p call q hI h
    obtain ⟨hstep, hrec⟩ := Run.observed_eq_ok h
    rw [hrec]
    exact ⟨hI.1.step hstep, step_bidsCounted hI.1 hI.2 hstep⟩
  -- at the start no auction is open
  have h0 : s.EscrowInv ∧ BidsCounted s fun _ => 0 := by
    refine ⟨hs.escrowInv, fun n b hb => ?_⟩
    rw [hs.bids, Table.find?_empty] at hb
    cases hb
  have hI : p.1.EscrowInv ∧ BidsCounted p.1 p.2 :=
    Run.exec_induction (I := fun p : AuctionState F × (Name → Nat) => p.1.EscrowInv ∧
      BidsCounted p.1 p.2) hstep h0 calls
  -- a bid in range bounds the number of bids
  have hleast := hI.2 n b hb
  have hgood := (hI.1.bids n b hb).2
  have hlower := hgood.lower
  have hupper := hgood.upper
  exact ⟨hleast, bids_le hleast (by omega)⟩

open Sample in
/-- Two bids have been made on the name of the sample. -/
theorem auction_bids_bounded_sample :
    let p := Run.exec (Run.observed step recordBids) (start, fun _ => 0) bids
    (p.1.sys.bids.find? com).isSome ∧ p.2 com = 2 ∧ p.2 com ≤ 431 := by
  have hstart : AuctionStart start := ⟨⟨1048576, 200000, SystemState.Sample.setup, rfl⟩,
    Table.eq_empty_of_size (by decide +kernel), rfl⟩
  have hsample := auction_bids_bounded hstart bids
  have hrow : ((Run.exec (Run.observed step recordBids) (start, fun _ => 0) bids).1.sys.bids.find?
      com).isSome := by
    decide +kernel
  have htwo : (Run.exec (Run.observed step recordBids) (start, fun _ => 0) bids).2 com = 2 := by
    decide +kernel
  obtain ⟨b, hb⟩ := Option.isSome_iff_exists.mp hrow
  exact ⟨hrow, htwo, (hsample com b hb).2⟩

/-! ## Closings -/

/-- The auctions that have been closed and not been used up. -/
def closedAuctions (s : AuctionState F) : Int :=
  s.sys.bids.sum fun _ b => if b.highBid < 0 then 1 else 0

/-- What blocks and new accounts have done to the auctions. -/
structure PaceRecord where
  /-- the auctions that blocks have closed -/
  closings : Int
  /-- the premium names that others than the system account have created -/
  created : Int

def recordPace (r : PaceRecord) (s : AuctionState F) (call : AuctionCall F)
    (s' : AuctionState F) : PaceRecord :=
  match call.action with
  | .onblock .. => { r with closings := r.closings + (s'.closedAuctions - s.closedAuctions) }
  | .system (.newaccount creator newact) =>
    if creator ≠ systemAccount ∧ SystemState.Premium newact then
      { r with created := r.created + 1 }
    else r
  | _ => r

/-- A block is not older than the last closing. -/
def NotBeforeClose (s : AuctionState F) (call : AuctionCall F) : Prop :=
  match call.action with
  | .onblock timestamp _ => s.lastNameClose.toNat ≤ timestamp.toNat
  | _ => True

instance (s : AuctionState F) (call : AuctionCall F) : Decidable (NotBeforeClose s call) := by
  unfold NotBeforeClose
  split <;> infer_instance

omit [Double F] in
/-- The closed auctions after another bid has been stored. -/
theorem closedAuctions_set {s s' : AuctionState F} {n : Name} {b : NameBid}
    (h : s'.sys.bids = s.sys.bids.set n b) : s'.closedAuctions = s.closedAuctions -
      s.sys.bids.valueAt n (fun b => if b.highBid < 0 then 1 else 0) +
        if b.highBid < 0 then 1 else 0 := by
  unfold closedAuctions
  rw [h]
  exact s.sys.bids.sum_set n b fun _ b => if b.highBid < 0 then 1 else 0

omit [Double F] in
/-- The closed auctions are read from the bids. -/
theorem closedAuctions_congr {s s' : AuctionState F} (h : s'.sys.bids = s.sys.bids) :
    s'.closedAuctions = s.closedAuctions := by
  unfold closedAuctions
  rw [h]

omit [Double F] in
theorem not_neg_of_pos {b : Int64} (h : 0 < b.toInt) : ¬ b < 0 := by
  rw [Int64.lt_iff_toInt_lt, Int64.toInt_zero]
  omega

/-- A block closes an auction a day after the last one, or none. -/
theorem onblock_pace {s s' : AuctionState F} {ctx : Context} {timestamp : BlockTimestamp}
    {accepted : Bool} (htime : s.lastNameClose.toNat ≤ timestamp.toNat)
    (h : s.step ⟨ctx, .onblock timestamp accepted⟩ = .ok s') :
    s'.lastNameClose = s.lastNameClose ∧ s'.closedAuctions = s.closedAuctions ∨
      s.lastNameClose.toNat + 172801 ≤ s'.lastNameClose.toNat ∧
        s'.closedAuctions = s.closedAuctions + 1 := by
  obtain ⟨u, sends, token, hr, -, rfl⟩ := commit_ok h
  obtain ⟨s₁, hs₁, hcases⟩ := onblock_cases hr
  obtain ⟨slot, size, rfl⟩ := scheduled_eq hs₁
  rcases hcases with ⟨rfl, -⟩ | ⟨hday, hclose⟩
  · exact .inl ⟨rfl, closedAuctions_congr rfl⟩
  rcases closeAuction_spec hclose with ⟨rfl, -⟩ |
    ⟨newname, highest, sym, memo, hhighest, hopen, -, -, -, -, rfl, -⟩
  · exact .inl ⟨rfl, closedAuctions_congr rfl⟩
  · right
    have hrow := find?_of_highestBid hhighest
    have hopen := Int64.lt_iff_toInt_lt.mp hopen
    have hneg := Int64.toInt_neg_of_nonneg hopen.le
    have hday := (blocksPerDay_lt_iff htime).mp hday
    refine ⟨hday, ?_⟩
    rw [closedAuctions_set (s := s) (n := newname) rfl, Table.valueAt_some hrow,
      if_neg (not_neg_of_pos hopen), if_pos, sub_zero]
    rw [Int64.lt_iff_toInt_lt, hneg]
    have hzero : (0 : Int64).toInt = 0 := rfl
    omega

omit [Double F] in
/-- A bid is a positive amount, so it leaves the closed auctions alone. -/
theorem closedAuctions_bid {s s' : AuctionState F} {n : Name} {b : NameBid}
    (hpos : 0 < b.highBid.toInt)
    (hopen : ∀ current, s.sys.bids.find? n = some current → 0 < current.highBid.toInt)
    (h : s'.sys.bids = s.sys.bids.set n b) : s'.closedAuctions = s.closedAuctions := by
  have hold : s.sys.bids.valueAt n (fun b => if b.highBid < 0 then (1 : Int) else 0) = 0 := by
    cases hrow : s.sys.bids.find? n with
    | none => exact Table.valueAt_none hrow _
    | some current => rw [Table.valueAt_some hrow, if_neg (not_neg_of_pos (hopen current hrow))]
  rw [closedAuctions_set h, hold, if_neg (not_neg_of_pos hpos)]
  omega

/-- A new account takes a closed auction, if its name is a premium one. -/
theorem newaccount_pace {s s' : AuctionState F} {ctx : Context} {creator newact : Name}
    (h : s.step ⟨ctx, .system (.newaccount creator newact)⟩ = .ok s') :
    s'.lastNameClose = s.lastNameClose ∧ s'.closedAuctions = s.closedAuctions -
      if creator ≠ systemAccount ∧ SystemState.Premium newact then 1 else 0 := by
  simp only [step, bind_eq_ok, pure_eq_ok] at h
  obtain ⟨sys, hsys, rfl⟩ := h
  refine ⟨rfl, ?_⟩
  have hclaim := SystemState.newaccount_bids hsys
  split at hclaim
  · rename_i hp
    obtain ⟨b, hrow, -, hclosed, hbids⟩ := hclaim
    rw [if_pos hp]
    unfold closedAuctions
    rw [show (⟨sys, s.bidRefunds, s.lastProducerScheduleUpdate, s.lastNameClose⟩ :
      AuctionState F).sys.bids = s.sys.bids.erase newact from hbids]
    rw [Table.sum_erase s.sys.bids newact fun _ b => if b.highBid < 0 then (1 : Int) else 0]
    rw [hrow, Option.elim_some, if_pos hclosed]
  · rename_i hp
    rw [if_neg hp, sub_zero]
    exact closedAuctions_congr hclaim

/-- The closed auctions are those that no premium name has taken, and each has had its day. -/
structure PaceInv (first : BlockTimestamp) (s : AuctionState F) (r : PaceRecord) : Prop where
  escrow : s.EscrowInv
  used : r.created + s.closedAuctions = r.closings
  days : first.toNat + 172801 * r.closings ≤ s.lastNameClose.toNat

omit [Double F] in
/-- What changes neither the auctions nor the time of the last closing. -/
theorem PaceInv.same {first : BlockTimestamp} {s s' : AuctionState F} {r : PaceRecord}
    (hI : PaceInv first s r) (h : s'.EscrowInv) (hlast : s'.lastNameClose = s.lastNameClose)
    (hclosed : s'.closedAuctions = s.closedAuctions) : PaceInv first s' r where
  escrow := h
  used := by
    rw [hclosed]
    exact hI.used
  days := by
    rw [hlast]
    exact hI.days

/-- Only blocks close auctions. -/
theorem step_lastNameClose {s s' : AuctionState F} {call : AuctionCall F}
    (hblock : ∀ timestamp accepted, call.action ≠ .onblock timestamp accepted)
    (h : s.step call = .ok s') : s'.lastNameClose = s.lastNameClose := by
  obtain ⟨ctx, action⟩ := call
  cases action with
  | bidname bidder newname bid =>
    -- a bid writes bids and refunds
    obtain ⟨u, sends, token, hr, -, rfl⟩ := commit_ok h
    simp only [bidname, placeBid, addRefund, bind_eq_ok, check_eq_ok, pure_eq_ok,
      Prod.mk.injEq] at hr
    obtain ⟨_, -, _, -, _, -, _, -, _, -, _, -, sym, -, _, -, _, -, u', hplace, rfl, -⟩ := hr
    split at hplace
    · simp only [pure_eq_ok] at hplace
      rw [← hplace]
    · simp only [bind_eq_ok, pure_eq_ok] at hplace
      obtain ⟨_, -, _, -, _, -, s₁, ⟨_, -, _, -, hadd⟩, rfl⟩ := hplace
      split at hadd
      · simp only [bind_eq_ok, pure_eq_ok] at hadd
        obtain ⟨_, -, rfl⟩ := hadd
        rfl
      · simp only [pure_eq_ok] at hadd
        rw [← hadd]
  | bidrefund bidder newname =>
    obtain ⟨u, sends, token, hr, -, rfl⟩ := commit_ok h
    simp only [bidrefund, bind_eq_ok, pure_eq_ok, Prod.mk.injEq] at hr
    -- a refund erases its row
    obtain ⟨amount, -, rfl, -⟩ := hr
    rfl
  | onblock timestamp accepted => exact absurd rfl (hblock timestamp accepted)
  | system a =>
    simp only [step, bind_eq_ok, pure_eq_ok] at h
    -- the system contract has no clock of closings
    obtain ⟨sys, -, rfl⟩ := h
    rfl

/-- A call keeps the pace. -/
theorem step_paceInv {first : BlockTimestamp} {s s' : AuctionState F} {r : PaceRecord}
    {call : AuctionCall F} (hI : PaceInv first s r) (htime : NotBeforeClose s call)
    (h : s.step call = .ok s') : PaceInv first s' (recordPace r s call s') := by
  have hescrow := hI.escrow.step h
  obtain ⟨ctx, action⟩ := call
  cases action with
  | bidname bidder newname bid =>
    obtain ⟨hpos, -, hbids, hincrease⟩ := bidname_increase h
    have hlast := step_lastNameClose (fun _ _ he => by cases he) h
    -- a bid closes no auction
    exact hI.same hescrow hlast
      (closedAuctions_bid hpos (fun current hrow => (hincrease current hrow).1) hbids)
  | bidrefund bidder newname =>
    have hlast := step_lastNameClose (fun _ _ he => by cases he) h
    cases step_auction h with
    | refunded bidder' newname' amount memo action row transfer bids refunds same =>
      -- nor does a refund
      exact hI.same hescrow hlast (closedAuctions_congr bids)
    | first bidder newname bid memo action => cases action
    | outbid bidder newname bid memo current action => cases action
    | closed timestamp accepted newname highest sym memo action => cases action
    | idle timestamp accepted action => cases action
    | system a action => cases action
  | onblock timestamp accepted =>
    have hused := hI.used
    have hdays := hI.days
    rcases onblock_pace htime h with ⟨hlast, hclosed⟩ | ⟨hlast, hclosed⟩
    -- no auction is closed
    · refine ⟨hescrow, ?_, ?_⟩
      · show r.created + s'.closedAuctions = r.closings + (s'.closedAuctions - s.closedAuctions)
        omega
      · show first.toNat + 172801 * (r.closings + (s'.closedAuctions - s.closedAuctions)) ≤ _
        rw [hlast, hclosed]
        omega
    -- one is closed, more than a day after the last one
    · refine ⟨hescrow, ?_, ?_⟩
      · show r.created + s'.closedAuctions = r.closings + (s'.closedAuctions - s.closedAuctions)
        omega
      · show first.toNat + 172801 * (r.closings + (s'.closedAuctions - s.closedAuctions)) ≤ _
        rw [hclosed]
        omega
  | system a =>
    cases a with
    | newaccount creator newact =>
      obtain ⟨hlast, hclosed⟩ := newaccount_pace h
      have hused := hI.used
      have hdays := hI.days
      rw [← hlast] at hdays
      simp only [recordPace]
      -- a premium name uses up the auction that it has been sold in
      split
      · rename_i hp
        rw [if_pos hp] at hclosed
        refine ⟨hescrow, ?_, hdays⟩
        show r.created + 1 + s'.closedAuctions = r.closings
        omega
      · -- any other new account leaves the auctions alone
        rename_i hp
        rw [if_neg hp] at hclosed
        refine ⟨hescrow, ?_, hdays⟩
        omega
    | _ =>
      -- no other action touches the auctions
      have hlast := step_lastNameClose (fun _ _ he => by cases he) h
      simp only [step, bind_eq_ok, pure_eq_ok] at h
      obtain ⟨sys, hsys, rfl⟩ := h
      rcases SystemState.step_bids hI.escrow.core.stake.noRex hsys with hbids |
        ⟨creator, newact, haction, -⟩
      · exact hI.same hescrow hlast (closedAuctions_congr hbids)
      · cases haction

/-- In every run from empty auctions whose blocks are not older than the last closing: the
    premium names that others than the system account have created are at most as many as the
    auctions that blocks have closed, and there are more than 172800 slots, a day, for each. -/
theorem premium_names_pace {s : AuctionState F} (hs : AuctionStart s) {calls : List (AuctionCall F)}
    (htimes : Run.Meets step NotBeforeClose s calls) :
    let p := Run.exec (Run.observed step recordPace) (s, ⟨0, 0⟩) calls
    p.2.created ≤ p.2.closings ∧
      s.lastNameClose.toNat + 172801 * p.2.closings ≤ p.1.lastNameClose.toNat := by
  intro p
  -- one call keeps the pace
  have hstep : ∀ (p : AuctionState F × PaceRecord) call q, PaceInv s.lastNameClose p.1 p.2 →
      NotBeforeClose p.1 call → Run.observed step recordPace p call = .ok q →
      PaceInv s.lastNameClose q.1 q.2 := by
    intro p call q hI htime h
    obtain ⟨hstep, hrec⟩ := Run.observed_eq_ok h
    rw [hrec]
    exact step_paceInv hI htime hstep
  -- at the start nothing is closed
  have h0 : PaceInv s.lastNameClose s ⟨0, 0⟩ := by
    refine ⟨hs.escrowInv, ?_, ?_⟩
    · unfold closedAuctions
      rw [hs.bids]
      rfl
    · show (s.lastNameClose.toNat : Int) + 172801 * 0 ≤ s.lastNameClose.toNat
      omega
  have hI : PaceInv s.lastNameClose p.1 p.2 :=
    Run.exec_of_meets (I := fun p : AuctionState F × PaceRecord =>
      PaceInv s.lastNameClose p.1 p.2) hstep h0 (Run.meets_observed recordPace ⟨0, 0⟩ htimes)
  -- the closed auctions that are left are not used up
  have hclosed : 0 ≤ p.1.closedAuctions := by
    apply Table.sum_nonneg
    intro n b _
    split <;> decide
  have hused := hI.used
  exact ⟨by omega, hI.days⟩

open Sample in
/-- One auction is closed in the sample, and alice has created its name. -/
theorem premium_names_pace_sample :
    let p := Run.exec (Run.observed step recordPace) (activated, ⟨0, 0⟩) sale
    p.2.created = 1 ∧ p.2.closings = 1 ∧ p.2.created ≤ p.2.closings := by
  have hstart : AuctionStart activated := by
    refine ⟨⟨1048576, 200000, SystemState.Sample.setup ++ activation, ?_⟩,
      Table.eq_empty_of_size (by decide +kernel), rfl⟩
    rw [Run.exec_append]
    rfl
  have htimes : Run.Meets step NotBeforeClose activated sale := by decide +kernel
  have hsample := premium_names_pace hstart htimes
  have hcounts : (Run.exec (Run.observed step recordPace) (activated, ⟨0, 0⟩) sale).2.created = 1 ∧
      (Run.exec (Run.observed step recordPace) (activated, ⟨0, 0⟩) sale).2.closings = 1 := by
    decide +kernel
  exact ⟨hcounts.1, hcounts.2, hsample.1⟩

end AuctionState

end UxContracts
