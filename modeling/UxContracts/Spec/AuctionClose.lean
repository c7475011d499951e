import UxContracts.Spec.PremiumNames

/-!
# Which auction closes

Open and closed auctions share the index of bids. Its keys are the negated bids as unsigned
numbers, so the open ones are those from the middle on, the highest bid first
(`highestBid_spec`). A block closes that auction or none (`onblock_closes`).
-/

namespace UxContracts

/-! ## The index of bids -/

namespace NameBid

/-- The bid fits in 63 bits, with room to spare. -/
def Small (b : NameBid) : Prop := -2 ^ 62 < b.highBid.toInt ∧ b.highBid.toInt < 2 ^ 62

/-- The keys of closed auctions are small, those of open ones are counted from the end. -/
theorem byHighBid_toNat {b : NameBid} (h : b.Small) :
    (b.byHighBid.toNat : Int) =
      if 0 < b.highBid.toInt then 2 ^ 64 - b.highBid.toInt else -b.highBid.toInt := by
  obtain ⟨hlo, hhi⟩ := h
  have hneg : (-b.highBid).toInt = -b.highBid.toInt := by
    have hcases := Int64.toInt_neg_cases b.highBid
    omega
  -- the key has the bits of the negated bid, read without a sign
  have hcond : (-b.highBid).toInt = if 2 * b.byHighBid.toNat < 2 ^ 64 then
      (b.byHighBid.toNat : Int) else (b.byHighBid.toNat : Int) - (2 ^ 64 : Nat) :=
    BitVec.toInt_eq_toNat_cond _
  rw [hneg] at hcond
  have hlt := b.byHighBid.toNat_lt
  split at hcond <;> split <;> omega

/-- The open auctions are those from the middle of the index on. -/
theorem middle_le_iff {b : NameBid} (h : b.Small) :
    0xFFFFFFFFFFFFFFFF / 2 ≤ b.byHighBid ↔ 0 < b.highBid.toInt := by
  have hkey := byHighBid_toNat h
  obtain ⟨hlo, hhi⟩ := h
  have hmiddle : (0xFFFFFFFFFFFFFFFF / 2 : UInt64).toNat = 2 ^ 63 - 1 := by decide
  rw [UInt64.le_iff_toNat_le, hmiddle]
  split at hkey <;> omega

/-- Among open auctions, a smaller key is a higher bid. -/
theorem byHighBid_le_iff {b c : NameBid} (hb : b.Small) (hc : c.Small)
    (hbopen : 0 < b.highBid.toInt) (hcopen : 0 < c.highBid.toInt) :
    b.byHighBid.toNat ≤ c.byHighBid.toNat ↔ c.highBid.toInt ≤ b.highBid.toInt := by
  have hkeyb := byHighBid_toNat hb
  have hkeyc := byHighBid_toNat hc
  rw [if_pos hbopen] at hkeyb
  rw [if_pos hcopen] at hkeyc
  omega

end NameBid

namespace AuctionState

variable {F : Type}

/-- An open auction whose bid is not lower than any other one. -/
structure IsHighest (s : AuctionState F) (n : Name) (b : NameBid) : Prop where
  row : s.sys.bids.find? n = some b
  isOpen : 0 < b.highBid.toInt
  highest : ∀ m c, s.sys.bids.find? m = some c → 0 < c.highBid.toInt →
    c.highBid.toInt ≤ b.highBid.toInt

/-- The lower bound in the index is the highest bid of the open auctions. -/
theorem highestBid_spec {s : AuctionState F}
    (hsmall : ∀ n b, s.sys.bids.find? n = some b → b.Small) {n : Name} {b : NameBid}
    (h : s.highestBid = some (n, b)) : s.IsHighest n b := by
  have hmem := List.mem_filter.mp (List.argmin_mem h)
  have hrow := find?_of_highestBid h
  have hopen := (NameBid.middle_le_iff (hsmall n b hrow)).mp (decide_eq_true_eq.mp hmem.2)
  refine ⟨hrow, hopen, ?_⟩
  intro m c hc hcopen
  -- another open auction is in the same half of the index
  have hcmem : (m, c) ∈ s.sys.bids.rows.filter
      fun r => 0xFFFFFFFFFFFFFFFF / 2 ≤ r.2.byHighBid := by
    apply List.mem_filter.mpr ⟨Table.mem_rows.mpr hc, ?_⟩
    exact decide_eq_true_eq.mpr ((NameBid.middle_le_iff (hsmall m c hc)).mpr hcopen)
  have hle : b.byHighBid.toNat ≤ c.byHighBid.toNat :=
    List.le_of_mem_argmin (f := fun r : Name × NameBid => r.2.byHighBid.toNat) hcmem h
  exact (NameBid.byHighBid_le_iff (hsmall n b hrow) (hsmall m c hc) hopen hcopen).mp hle

/-! ## Times -/

/-- The times of a block: it is not older than the last closing, and no time is negative. -/
structure Timely (s : AuctionState F) (ctx : Context) (timestamp : BlockTimestamp) : Prop where
  now : 0 ≤ ctx.now.toInt
  bids : ∀ n b, s.sys.bids.find? n = some b → 0 ≤ b.lastBidTime.toInt
  lastClose : s.lastNameClose.toNat ≤ timestamp.toNat

/-- More than `useconds` have passed between two times. -/
theorem elapsed_iff {now since useconds : TimePoint} (hnow : 0 ≤ now.toInt)
    (hsince : 0 ≤ since.toInt) :
    useconds < now - since ↔ since.toInt + useconds.toInt < now.toInt := by
  have hlt := Int64.toInt_lt now
  have hlt' := Int64.toInt_lt since
  have hsub : (now - since).toInt = now.toInt - since.toInt := by
    apply Int64.toInt_sub_of_mem <;> omega
  rw [Int64.lt_iff_toInt_lt, hsub]
  omega

/-- The auction had no bid for more than a day. -/
def Idle (ctx : Context) (b : NameBid) : Prop :=
  b.lastBidTime.toInt + 24 * 3600 * 1000000 < ctx.now.toInt

/-! ## Blocks -/

variable [Double F]

/-- A block closes the auction of `n`, whose high bid was `b`. -/
structure BlockCloses (s : AuctionState F) (ctx : Context) (timestamp : BlockTimestamp)
    (s' : AuctionState F) (n : Name) (b : NameBid) : Prop where
  highest : s.IsHighest n b
  idle : Idle ctx b
  /-- the chain was activated more than fourteen days ago -/
  activated : 0 < s.sys.gstate.threshActivatedStakeTime.toInt ∧
    s.sys.gstate.threshActivatedStakeTime.toInt + 14 * (24 * 3600 * 1000000) < ctx.now.toInt
  /-- the last closing was more than a day of slots ago -/
  lastClose : s.lastNameClose.toNat + 2 * (24 * 3600) < timestamp.toNat
  row : ∃ b', s'.sys.bids.find? n = some b' ∧ b'.highBid.toInt = -b.highBid.toInt ∧
    b'.highBidder = b.highBidder ∧ b'.lastBidTime = b.lastBidTime
  others : ∀ m, m ≠ n → s'.sys.bids.find? m = s.sys.bids.find? m
  paid : ∃ sym memo, s.sys.coreSymbol = .ok sym ∧
    s.sys.token.transfer (ctx.withAuth [namesAccount]) namesAccount upayAccount ⟨b.highBid, sym⟩
      memo = .ok s'.sys.token

/-- The block leaves the auctions and all tokens alone. -/
def ClosesNone (s s' : AuctionState F) : Prop :=
  s'.sys.bids = s.sys.bids ∧ s'.sys.token = s.sys.token

/-- The days that the conditions of a closing count. -/
theorem usecondsPerDay_toInt : usecondsPerDay.toInt = 24 * 3600 * 1000000 ∧
    (14 * usecondsPerDay).toInt = 14 * (24 * 3600 * 1000000) := by decide

/-- Whether a day of slots has passed. -/
theorem blocksPerDay_lt_iff {timestamp since : BlockTimestamp} (h : since.toNat ≤ timestamp.toNat) :
    blocksPerDay < timestamp - since ↔ since.toNat + 2 * (24 * 3600) < timestamp.toNat := by
  have hsub : (timestamp - since).toNat = timestamp.toNat - since.toNat :=
    UInt32.toNat_sub_of_le _ _ (UInt32.le_iff_toNat_le.mpr h)
  have hday : blocksPerDay.toNat = 2 * (24 * 3600) := by decide
  rw [UInt32.lt_iff_toNat_lt, hsub, hday]
  omega

/-- A block closes no auction, or the one of the highest bid. -/
theorem onblock_outcome {s s' : AuctionState F} {ctx : Context} {timestamp : BlockTimestamp}
    {accepted : Bool} (hsmall : ∀ n b, s.sys.bids.find? n = some b → b.Small)
    (htimely : s.Timely ctx timestamp) (h : s.step ⟨ctx, .onblock timestamp accepted⟩ = .ok s') :
    ClosesNone s s' ∨ ∃ n b, BlockCloses s ctx timestamp s' n b := by
  obtain ⟨u, sends, token, hr, hrun, rfl⟩ := commit_ok h
  obtain ⟨s₁, hs₁, hcases⟩ := onblock_cases hr
  obtain ⟨slot, size, rfl⟩ := scheduled_eq hs₁
  rcases hcases with ⟨rfl, rfl⟩ | ⟨hday, hclose⟩
  · -- not a day since the last closing
    obtain rfl := SystemState.runInline_nil.mp hrun
    exact .inl ⟨rfl, rfl⟩
  rcases closeAuction_spec hclose with ⟨rfl, rfl⟩ |
    ⟨n, b, sym, memo, hhighest, -, hidle, hactive, hactivated, hsym, rfl, rfl⟩
  · -- no auction to be closed
    obtain rfl := SystemState.runInline_nil.mp hrun
    exact .inl ⟨rfl, rfl⟩
  right
  -- the smallest key of the index is the highest bid
  have htop : s.IsHighest n b := highestBid_spec hsmall hhighest
  have hactive : 0 < s.sys.gstate.threshActivatedStakeTime.toInt := Int64.lt_iff_toInt_lt.mp hactive
  rw [elapsed_iff htimely.now (htimely.bids n b htop.row), usecondsPerDay_toInt.1] at hidle
  rw [elapsed_iff htimely.now hactive.le, usecondsPerDay_toInt.2] at hactivated
  refine ⟨n, b, htop, hidle, ⟨hactive, hactivated⟩,
    (blocksPerDay_lt_iff htimely.lastClose).mp hday, ?_, ?_, ?_⟩
  · -- the row keeps its bid with the other sign
    refine ⟨{ b with highBid := -b.highBid }, Table.find?_set_self _ _ _, ?_, rfl, rfl⟩
    exact Int64.toInt_neg_of_nonneg htop.isOpen.le
  · -- the other rows are as before
    intro m hm
    exact Table.find?_set_ne _ _ hm
  · -- and the bid is paid
    rw [SystemState.runInline_singleton] at hrun
    exact ⟨sym, memo, hsym, hrun⟩

/-- Every block closes at most one auction: an open one with the highest bid that has stood for a
    day, two weeks after the activation and a day after the last closing. If no open auction
    with the highest bid has stood for a day, it closes none. -/
theorem onblock_closes {s s' : AuctionState F} {ctx : Context} {timestamp : BlockTimestamp}
    {accepted : Bool} (hsmall : ∀ n b, s.sys.bids.find? n = some b → b.Small)
    (htimely : s.Timely ctx timestamp) (h : s.step ⟨ctx, .onblock timestamp accepted⟩ = .ok s') :
    (ClosesNone s s' ∨ ∃ n b, BlockCloses s ctx timestamp s' n b) ∧
      ((∀ n b, s.IsHighest n b → ¬ Idle ctx b) → ClosesNone s s') := by
  have houtcome := onblock_outcome hsmall htimely h
  refine ⟨houtcome, ?_⟩
  intro hbusy
  rcases houtcome with hnone | ⟨n, b, hcloses⟩
  · exact hnone
  · exact absurd hcloses.idle (hbusy n b hcloses.highest)

namespace Sample

open SystemState.Sample

def org : Name := Name.ofString "org"
def net : Name := Name.ofString "net"
def biz : Name := Name.ofString "biz"

/-- A context in which four names are free. -/
def market (auth : List Name) (sec : Int64) : Context :=
  ⟨auth, sec * 1000000, fun n => n ∉ [com, org, net, biz]⟩

/-- Alice bids for four names, and two blocks close the auctions of `org` and `net`. -/
def auctions : List (AuctionCall Rat) :=
  [⟨market [alice] launch, .bidname alice com (utx 10000)⟩,
    ⟨market [alice] launch, .bidname alice org (utx 20000)⟩,
    ⟨market [alice] launch, .bidname alice net (utx 15000)⟩,
    ⟨market [alice] launch, .bidname alice biz (utx 5000)⟩,
    ⟨market [systemAccount] (launch + 15 * 24 * 3600), .onblock 1400000000 true⟩,
    ⟨market [systemAccount] (launch + 17 * 24 * 3600), .onblock 1400345600 true⟩]

/-- Two auctions are closed, and two are open. -/
def waiting : AuctionState Rat := Run.exec step activated auctions

/-- The block that closes the auction of `com`. -/
def closing : AuctionCall Rat :=
  ⟨market [systemAccount] (launch + 19 * 24 * 3600), .onblock 1400691200 true⟩

end Sample

open Sample in
/-- Of the two auctions that are open in the sample, the block closes the one of the higher bid. -/
theorem onblock_closes_sample :
    waiting.sys.bids.rows.countP (fun r => r.2.highBid < 0) = 2 ∧
      waiting.sys.bids.rows.countP (fun r => 0 < r.2.highBid) = 2 ∧
      ∃ s', waiting.step closing = .ok s' ∧
        ∃ b, BlockCloses waiting closing.ctx 1400691200 s' com b := by
  have hok : (waiting.step closing).isOk := by decide +kernel
  have hstep : waiting.step closing = .ok (Run.next step waiting closing) := Run.step_eq_next hok
  refine ⟨by decide +kernel, by decide +kernel, _, hstep, ?_⟩
  -- the bid on the name has another sign after the block
  have hchanged : ¬ ClosesNone waiting (Run.next step waiting closing) := by
    intro hnone
    have hrow := congrArg (fun bids : Table Name NameBid => bids.find? com) hnone.1
    revert hrow
    decide +kernel
  have hrows : ∀ r ∈ waiting.sys.bids.rows, -2 ^ 62 < r.2.highBid.toInt ∧
      r.2.highBid.toInt < 2 ^ 62 ∧ 0 ≤ r.2.lastBidTime.toInt := by
    decide +kernel
  have hsmall : ∀ n b, waiting.sys.bids.find? n = some b → b.Small := fun n b hb =>
    let hrow := hrows (n, b) (Table.mem_rows.mpr hb)
    ⟨hrow.1, hrow.2.1⟩
  have htimely : waiting.Timely closing.ctx 1400691200 := by
    refine ⟨by decide, fun n b hb => ?_, by decide +kernel⟩
    exact (hrows (n, b) (Table.mem_rows.mpr hb)).2.2
  generalize Run.next step waiting closing = s' at hstep hchanged ⊢
  obtain ⟨n, b, hcloses⟩ := (onblock_closes hsmall htimely hstep).1.resolve_left hchanged
  -- no other open auction has a bid that is as high
  have hcom : ∀ r ∈ waiting.sys.bids.rows, 0 < r.2.highBid.toInt → 10000 ≤ r.2.highBid.toInt →
      r.1 = com := by
    decide +kernel
  have hbid : (waiting.sys.bids.find? com).map (fun c => c.highBid.toInt) = some 10000 := by
    decide +kernel
  obtain ⟨c, hc, hamount⟩ := Option.map_eq_some_iff.mp hbid
  have hle := hcloses.highest.highest com c hc (by omega)
  have hname : n = com :=
    hcom (n, b) (Table.mem_rows.mpr hcloses.highest.row) hcloses.highest.isOpen (hamount ▸ hle)
  exact ⟨b, hname ▸ hcloses⟩

end AuctionState

end UxContracts
