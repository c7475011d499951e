import UxContracts.Spec.AuctionEscrow

/-!
# Premium names

A premium name is created by the winner of its auction, after `onblock` has closed the
auction and paid the bid to `eosio.upay`. The closed auction is a row with a negative bid,
which only `onblock` can make (`AuctionChange.closes`) and which `newaccount` uses up.
-/

namespace UxContracts

namespace AuctionState

variable {F : Type} [Double F]

/-! ## Closing and creating -/

/-- A block closes the auction of `n` with the high bid `b`, which is paid to `eosio.upay`. -/
structure Closes (s : AuctionState F) (call : AuctionCall F) (s' : AuctionState F) (n : Name)
    (b : NameBid) : Prop where
  isBlock : ∃ timestamp accepted, call.action = .onblock timestamp accepted
  row : s.sys.bids.find? n = some b
  isOpen : 0 < b.highBid.toInt
  closed : s'.sys.bids = s.sys.bids.set n { b with highBid := -b.highBid }
  paid : ∃ sym memo, s.sys.coreSymbol = .ok sym ∧
    s.sys.token.transfer (call.ctx.withAuth [namesAccount]) namesAccount upayAccount
      ⟨b.highBid, sym⟩ memo = .ok s'.sys.token

/-- Request number `i` of a run closes the auction of `n`. -/
def ClosedAt (s : AuctionState F) (calls : List (AuctionCall F)) (i : Nat) (n : Name)
    (b : NameBid) : Prop :=
  ∃ call, calls[i]? = some call ∧
    step (Run.stateAt step s calls i) call = .ok (Run.stateAt step s calls (i + 1)) ∧
    Closes (Run.stateAt step s calls i) call (Run.stateAt step s calls (i + 1)) n b

/-- Request number `j` of a run creates the premium name `n` for `creator`. -/
def CreatedAt (s : AuctionState F) (calls : List (AuctionCall F)) (j : Nat) (creator n : Name) :
    Prop :=
  creator ≠ systemAccount ∧ SystemState.Premium n ∧
    ∃ ctx, calls[j]? = some ⟨ctx, .system (.newaccount creator n)⟩ ∧
      step (Run.stateAt step s calls j) ⟨ctx, .system (.newaccount creator n)⟩ =
        .ok (Run.stateAt step s calls (j + 1))

/-! ## One call -/

/-- A row with a negative bid that a call has made is an auction that it has closed. -/
theorem AuctionChange.closes {s s' : AuctionState F} {call : AuctionCall F}
    (hrex : s.sys.rexbalance = ∅) (h : AuctionChange s call s') {n : Name} {b' : NameBid}
    (hnew : s'.sys.bids.find? n = some b') (hold : s.sys.bids.find? n ≠ some b')
    (hneg : b'.highBid.toInt < 0) :
    ∃ b, Closes s call s' n b ∧ b' = { b with highBid := -b.highBid } := by
  -- a bid that has been transferred is positive
  have hset : ∀ {bidder newname : Name} {bid : Asset} {now : TimePoint},
      s'.sys.bids = s.sys.bids.set newname ⟨bidder, bid.amount, now⟩ → 0 < bid.amount.toInt →
      False := by
    intro bidder newname bid now hbids hpos
    rw [hbids, Table.find?_set] at hnew
    split at hnew
    · cases hnew
      exact absurd hneg (by simp only; omega)
    · exact hold hnew
  cases h with
  | first bidder newname bid memo action fresh symbol transfer bids refunds same =>
    -- a bid leaves the row positive
    exact (hset bids (transfer_facts transfer).2.1).elim
  | outbid bidder newname bid memo current action row isOpen symbol transfer bids s₁ added refunds
      same =>
    exact (hset bids (transfer_facts transfer).2.1).elim
  | refunded bidder newname amount memo action row transfer bids refunds same =>
    -- a refund does not write the bids
    rw [bids] at hnew
    exact absurd hnew hold
  | closed timestamp accepted newname highest sym memo action row isOpen symbol transfer bids refunds
      same =>
    -- the closing of this auction, or of another one
    by_cases hn : n = newname
    · subst hn
      rw [bids, Table.find?_set_self, Option.some.injEq] at hnew
      exact ⟨highest, ⟨⟨timestamp, accepted, action⟩, row, isOpen, bids,
        ⟨sym, memo, symbol, transfer⟩⟩, hnew.symm⟩
    · rw [bids, Table.find?_set_ne _ _ hn] at hnew
      exact absurd hnew hold
  | idle timestamp accepted action token bids refunds same =>
    rw [bids] at hnew
    exact absurd hnew hold
  | system a action hstep refunds =>
    -- the other actions keep the bids or erase one
    rcases SystemState.step_bids hrex hstep with hbids | ⟨creator, newact, -, -, -, _, -, -, -, hbids⟩
    · rw [hbids] at hnew
      exact absurd hnew hold
    · rw [hbids, Table.find?_erase] at hnew
      split at hnew
      · cases hnew
      · exact absurd hnew hold

omit [Double F] in
/-- A block closes one auction. -/
theorem Closes.unique {s s' : AuctionState F} {call : AuctionCall F} {n n' : Name} {b b' : NameBid}
    (h : Closes s call s' n b) (h' : Closes s call s' n' b') : n = n' := by
  by_contra hne
  have hrow : s'.sys.bids.find? n = some b := by
    rw [h'.closed, Table.find?_set_ne _ _ hne]
    exact h.row
  rw [h.closed, Table.find?_set_self, Option.some.injEq] at hrow
  -- the bid would be equal to its negation
  have hbid : -b.highBid = b.highBid := congrArg NameBid.highBid hrow
  have hcases := Int64.toInt_neg_cases b.highBid
  have hopen := h.isOpen
  rw [hbid] at hcases
  omega

/-- The row that a creation has used is there before it and gone after it. -/
theorem CreatedAt.row {s : AuctionState F} {calls : List (AuctionCall F)} {j : Nat}
    {creator n : Name} (h : CreatedAt s calls j creator n) :
    (∃ b', (Run.stateAt step s calls j).sys.bids.find? n = some b' ∧ b'.highBidder = creator ∧
      b'.highBid.toInt < 0) ∧
    (Run.stateAt step s calls (j + 1)).sys.bids.find? n = none := by
  obtain ⟨hcreator, hpremium, ctx, -, hstep⟩ := h
  simp only [step, bind_eq_ok, pure_eq_ok] at hstep
  obtain ⟨sys, hsys, hsys'⟩ := hstep
  have hclaim := SystemState.newaccount_bids hsys
  rw [if_pos ⟨hcreator, hpremium⟩] at hclaim
  obtain ⟨b', hb', hbidder, hclosed, hbids⟩ := hclaim
  have hclosed := Int64.lt_iff_toInt_lt.mp hclosed
  refine ⟨⟨b', hb', hbidder, hclosed⟩, ?_⟩
  rw [← hsys']
  show sys.bids.find? n = none
  rw [hbids]
  exact Table.find?_erase_self _ _

/-! ## Runs -/

/-- A creation follows the closing of the auction that its creator has won, and the row has not
    changed in between. -/
theorem exists_closing {s : AuctionState F} (hs : AuctionStart s) {calls : List (AuctionCall F)}
    {j : Nat} {creator n : Name} (h : CreatedAt s calls j creator n) :
    ∃ i b, i < j ∧ ClosedAt s calls i n b ∧ b.highBidder = creator ∧
      ∀ k, i < k → k ≤ j → (Run.stateAt step s calls k).sys.bids.find? n =
        some { b with highBid := -b.highBid } := by
  obtain ⟨⟨b', hb', hbidder, hneg⟩, -⟩ := h.row
  have hempty : s.sys.bids.find? n ≠ some b' := by
    rw [hs.bids, Table.find?_empty]
    exact nofun
  obtain ⟨i, call, hij, hcall, hnot, hstep, hsince⟩ :=
    Run.exists_origin (P := fun u : AuctionState F => u.sys.bids.find? n = some b') hempty hb'
  have hI : (Run.stateAt step s calls i).EscrowInv :=
    Run.exec_induction (fun _ _ _ hI hr => hI.step hr) hs.escrowInv _
  have hnew := hsince (i + 1) (Nat.lt_succ_self i) hij
  obtain ⟨b, hcloses, rfl⟩ := (step_auction hstep).closes hI.core.stake.noRex hnew hnot hneg
  exact ⟨i, b, hij, ⟨call, hcall, hstep, hcloses⟩, hbidder, hsince⟩

/-- In every run from empty auctions, each creation of a premium name has a closing of its own:
    an earlier block closed the auction of that name with the creator as the high bidder and paid
    the bid to `eosio.upay`, and the closed auction has stayed the same until the creation. -/
theorem premium_name_paid {s : AuctionState F} (hs : AuctionStart s)
    (calls : List (AuctionCall F)) :
    ∃ closing : Nat → Nat,
      (∀ j creator n, CreatedAt s calls j creator n → ∃ b, closing j < j ∧
        ClosedAt s calls (closing j) n b ∧ b.highBidder = creator ∧
        ∀ k, closing j < k → k ≤ j → (Run.stateAt step s calls k).sys.bids.find? n =
          some { b with highBid := -b.highBid }) ∧
      ∀ j j' creator creator' n n', CreatedAt s calls j creator n →
        CreatedAt s calls j' creator' n' → closing j = closing j' → j = j' := by
  -- a closing is chosen for each creation
  classical
  have hchoose : ∀ j, ∃ i, ∀ creator n, CreatedAt s calls j creator n → ∃ b, i < j ∧
      ClosedAt s calls i n b ∧ b.highBidder = creator ∧
      ∀ k, i < k → k ≤ j → (Run.stateAt step s calls k).sys.bids.find? n =
        some { b with highBid := -b.highBid } := by
    intro j
    by_cases hj : ∃ creator n, CreatedAt s calls j creator n
    · obtain ⟨creator, n, hj⟩ := hj
      obtain ⟨i, b, hclosing⟩ := exists_closing hs hj
      refine ⟨i, fun creator' n' hj' => ?_⟩
      obtain ⟨-, -, ctx, hcall, -⟩ := hj
      obtain ⟨-, -, ctx', hcall', -⟩ := hj'
      rw [hcall] at hcall'
      cases hcall'
      exact ⟨b, hclosing⟩
    · exact ⟨0, fun creator n h => absurd ⟨creator, n, h⟩ hj⟩
  choose closing hclosing using hchoose
  refine ⟨closing, hclosing, ?_⟩
  -- a closing that two creations share is used up by the first one
  have hlt : ∀ j j' creator creator' n n', CreatedAt s calls j creator n →
      CreatedAt s calls j' creator' n' → closing j = closing j' → ¬ j < j' := by
    intro j j' creator creator' n n' hj hj' heq hlt
    obtain ⟨b, hbefore, ⟨call, hcall, -, hcloses⟩, -, -⟩ := hclosing j creator n hj
    obtain ⟨b', -, ⟨call', hcall', -, hcloses'⟩, -, hsince⟩ := hclosing j' creator' n' hj'
    rw [heq] at hcloses hcall hbefore
    rw [hcall] at hcall'
    cases hcall'
    obtain rfl := hcloses.unique hcloses'
    have hrow := hsince (j + 1) (by omega) hlt
    rw [hj.row.2] at hrow
    cases hrow
  -- so two creations with one closing are the same
  intro j j' creator creator' n n' hj hj' heq
  have h := hlt j j' creator creator' n n' hj hj' heq
  have h' := hlt j' j creator' creator n' n hj' hj heq.symm
  omega

namespace Sample

open SystemState.Sample

/-- A stake of 150 million tokens activates the chain. -/
def activation : List (SystemCall Rat) :=
  [⟨ctx [eosioAccount] launch,
      .delegatebw eosioAccount eosioAccount (utx 1000000000000) (utx 500000000000) false⟩,
    ⟨ctx [eosioAccount] launch, .voteproducer eosioAccount ⟨0⟩ []⟩]

def activated : AuctionState Rat :=
  ⟨Run.exec SystemState.step SystemState.Sample.start activation, ∅, 0, 0⟩

/-- Alice bids for a name, and creates it after the auction has been closed. -/
def sale : List (AuctionCall Rat) :=
  [⟨ctx [alice] launch, .bidname alice com (utx 10000)⟩,
    ⟨ctx [systemAccount] (launch + 15 * 24 * 3600), .onblock 1400000000 true⟩,
    ⟨ctx [alice] (launch + 15 * 24 * 3600), .system (.newaccount alice com)⟩]

end Sample

open Sample in
/-- In the sample, alice creates the name that she has paid for. -/
theorem premium_name_paid_sample :
    CreatedAt activated sale 2 SystemState.Sample.alice com ∧
    ∃ i b, i < 2 ∧ ClosedAt activated sale i com b ∧ b.highBidder = SystemState.Sample.alice := by
  have hstart : AuctionStart activated := by
    refine ⟨⟨1048576, 200000, SystemState.Sample.setup ++ activation, ?_⟩,
      Table.eq_empty_of_size (by decide +kernel), rfl⟩
    rw [Run.exec_append]
    rfl
  have hcreated : CreatedAt activated sale 2 SystemState.Sample.alice com := by
    refine ⟨by decide, by decide +kernel, _, rfl, ?_⟩
    have hok : (step (Run.stateAt step activated sale 2) ⟨ctx [SystemState.Sample.alice]
        (SystemState.Sample.launch + 15 * 24 * 3600),
        .system (.newaccount SystemState.Sample.alice com)⟩).isOk := by
      decide +kernel
    have hnext : Run.stateAt step activated sale 3 = _ := Run.stateAt_succ rfl
    rw [hnext]
    exact Run.step_eq_next hok
  obtain ⟨closing, hclosing, -⟩ := premium_name_paid hstart sale
  obtain ⟨b, hlt, hclosed, hbidder, -⟩ := hclosing 2 _ _ hcreated
  exact ⟨hcreated, closing 2, b, hlt, hclosed, hbidder⟩

end AuctionState

end UxContracts
