import UxContracts.ForStd.Accrual
import UxContracts.Spec.TallyRuns

/-!
# Shares of the pay for votes

The share of a producer grows by its votes in each second, until the producer has not been paid for
three days. The contract stores what the shares were when they were last brought up to date: a row
of `producers2` when the votes of its producer change, the total of all shares after each loop over
producers. So the stored numbers are accruals, and with exact weights the total pools the rows
(`VotepayInv`). Each round of a loop adjusts one row and notes what the total has to be adjusted by
(`VotepayLoop.round`), and `update_total_votepay_share` does it (`VotepayLoop.updateTotal`).
-/

namespace UxContracts

open Chain

namespace SystemState

/-! ## Times -/

/-- Times are after the epoch, and far from the end of the range of the type. -/
def IsTime (t : TimePoint) : Prop := 0 < t.toInt ∧ t.toInt ≤ 2 ^ 62

/-- A time in seconds. -/
def seconds {K : Type} [Field K] (t : TimePoint) : K := (t.toInt : K) / 1000000

/-- Three days, in microseconds. -/
def threeDays : Int := 3 * (24 * 3600 * 1000000)

/-- Three days from a time on record do not overflow. -/
theorem add_threeDays {t : TimePoint} (h0 : 0 ≤ t.toInt) (h : t.toInt ≤ 2 ^ 62) :
    (t + 3 * (24 * 3600 * 1000000)).toInt = t.toInt + threeDays := by
  have hdays : (3 * (24 * 3600 * 1000000) : Int64).toInt = threeDays := by decide
  rw [← hdays]
  apply Int64.toInt_add_of_mem
  · rw [hdays]
    unfold threeDays
    omega
  · rw [hdays]
    unfold threeDays
    omega

variable {F K : Type} [Double F] [Field K] [LinearOrder K] [FloorRing K]

theorem val_elapsed (E : FieldReading F K) {later earlier : TimePoint} (h0 : 0 ≤ earlier.toInt)
    (hle : earlier.toInt ≤ later.toInt) :
    E.val (elapsed later earlier : F) = seconds later - seconds earlier := by
  have hsub : (later - earlier).toInt = later.toInt - earlier.toInt := by
    apply Int64.toInt_sub_of_mem
    · omega
    · have hmax := later.toInt_lt
      omega
  unfold elapsed seconds
  rw [E.val_div, E.val_ofInt, E.val_ofInt, hsub]
  push_cast
  ring

/-! ## Shares -/

/-- When the producer loses its share, unless it is paid before. -/
def deadline (s : SystemState F) (p : Name) : Int :=
  s.producers.valueAt p (fun info => info.lastClaimTime.toInt) + threeDays

/-- The votes that the share of a producer grows by. -/
def paidVotes (E : ExactReading F K) (s : SystemState F) (p : Name) (row : ProducerInfo2 F) : K :=
  if row.lastVotepayShareUpdate.toInt < s.deadline p then s.votesOf E p else 0

/-- The share of a producer. -/
def votepayOf (E : ExactReading F K) (s : SystemState F) (p : Name) (row : ProducerInfo2 F) :
    Accrual K :=
  ⟨E.val row.votepayShare, s.paidVotes E p row, seconds row.lastVotepayShareUpdate⟩

/-- The total of all shares. -/
def votepayTotal (E : ExactReading F K) (s : SystemState F) : Accrual K :=
  ⟨E.val s.gstate2.totalProducerVotepayShare, E.val s.gstate3.totalVpayShareChangeRate,
    seconds s.gstate3.lastVpayStateUpdate⟩

/-- The rows of shares and of producers fit together at the time `now`. -/
structure VotepayRows (E : ExactReading F K) (now : Int) (s : SystemState F) : Prop where
  since : 0 ≤ s.gstate3.lastVpayStateUpdate.toInt ∧ s.gstate3.lastVpayStateUpdate.toInt ≤ now
  claimed : ∀ p info, s.producers.find? p = some info →
    0 < info.lastClaimTime.toInt ∧ info.lastClaimTime.toInt ≤ now
  updated : ∀ p row, s.producers2.find? p = some row →
    0 ≤ row.lastVotepayShareUpdate.toInt ∧ row.lastVotepayShareUpdate.toInt ≤ now
  share : ∀ p row, s.producers2.find? p = some row → 0 ≤ E.val row.votepayShare
  /-- a producer that has lost its share has none -/
  dropped : ∀ p row, s.producers2.find? p = some row →
    s.deadline p ≤ row.lastVotepayShareUpdate.toInt → E.val row.votepayShare = 0
  paired : ∀ p info, s.producers.find? p = some info → ∃ row, s.producers2.find? p = some row
  total : 0 ≤ (s.votepayTotal E).value

/-- Up to the time `now`, the total is the sum of all shares. -/
structure VotepayInv (E : ExactReading F K) (now : Int) (s : SystemState F) : Prop extends
    VotepayRows E now s where
  pools : Pools (s.votepayTotal E) s.producers2 (s.votepayOf E)

/-- In a loop at the time `now`, the total has still to be adjusted by what the loop has noted. -/
structure VotepayLoop (E : ExactReading F K) (now : TimePoint) (s : SystemState F)
    (acc : VpayDelta F) : Prop extends VotepayRows E now.toInt s where
  pools : Pools ((s.votepayTotal E).adjust (seconds now) (-E.val acc.totalInactiveVpayShare)
    (E.val acc.deltaChangeRate)) s.producers2 (s.votepayOf E)

variable {E : FieldReading F K}

/-- Before the first round of a loop there is nothing to be adjusted. -/
theorem VotepayInv.loop {now : TimePoint} {s : SystemState F}
    (h : VotepayInv E.toExactReading now.toInt s) :
    VotepayLoop E.toExactReading now s ⟨Double.ofInt 0, Double.ofInt 0⟩ := by
  refine ⟨h.toVotepayRows, fun time => ?_⟩
  rw [Accrual.adjust_amount, E.val_zero, neg_zero, add_zero, zero_mul, add_zero]
  exact h.pools time

/-! ## One round of a loop -/

omit [Double F] in
/-- What the code compares is whether the deadline has passed. -/
theorem deadline_le_iff {s : SystemState F} {p : Name} {info : ProducerInfo F}
    (h : s.producers.find? p = some info) (h0 : 0 ≤ info.lastClaimTime.toInt)
    (hmax : info.lastClaimTime.toInt ≤ 2 ^ 62) (t : TimePoint) :
    info.lastClaimTime + 3 * (24 * 3600 * 1000000) ≤ t ↔ s.deadline p ≤ t.toInt := by
  rw [Int64.le_iff_toInt_le, add_threeDays h0 hmax, deadline, Table.valueAt_some h]

/-- The share of a row that is brought up to date. -/
theorem val_votepayShare (E : FieldReading F K) {row : ProducerInfo2 F} {ct : TimePoint} {rate : F}
    (reset : Bool) (hrate : 0 ≤ E.val rate) (h0 : 0 ≤ row.lastVotepayShareUpdate.toInt)
    (hle : row.lastVotepayShareUpdate.toInt ≤ ct.toInt) :
    E.val (updateProducerVotepayShare row ct rate reset).1 = E.val row.votepayShare +
      E.val rate * (seconds ct - seconds row.lastVotepayShareUpdate) := by
  simp only [updateProducerVotepayShare]
  rw [E.val_add]
  congr 1
  split
  · rw [E.val_mul, val_elapsed E h0 hle]
  · rename_i hno
    rw [E.lt_iff, E.val_zero, Int64.lt_iff_toInt_lt, not_and_or, not_lt, not_lt] at hno
    rw [E.val_zero]
    rcases hno with hzero | hsame
    · rw [le_antisymm hzero hrate, zero_mul]
    · have heq : row.lastVotepayShareUpdate.toInt = ct.toInt := le_antisymm hle hsame
      rw [seconds, seconds, heq, sub_self, mul_zero]

/-- The row of a producer has been brought up to date, and what has changed has been noted. -/
theorem VotepayLoop.adjust {now : TimePoint} {s s' : SystemState F} {acc acc' : VpayDelta F}
    {p : Name} {info : ProducerInfo F} {row row' : ProducerInfo2 F} {votes : F} {d e : K}
    (h : VotepayLoop E.toExactReading now s acc) (hinfo : s.producers.find? p = some info)
    (hrow : s.producers2.find? p = some row)
    (hproducers : s'.producers = s.producers.set p { info with totalVotes := votes })
    (hproducers2 : s'.producers2 = s.producers2.set p row')
    (htotal : s'.votepayTotal E.toExactReading = s.votepayTotal E.toExactReading)
    (hsince : s'.gstate3 = s.gstate3) (hnow : row'.lastVotepayShareUpdate = now)
    (hshare : 0 ≤ E.val row'.votepayShare)
    (hdropped : s.deadline p ≤ now.toInt → E.val row'.votepayShare = 0)
    (haccount : s'.votepayOf E.toExactReading p row' =
      (s.votepayOf E.toExactReading p row).adjust (seconds now) d e)
    (hvalue : E.val acc'.totalInactiveVpayShare = E.val acc.totalInactiveVpayShare - d)
    (hrate : E.val acc'.deltaChangeRate = E.val acc.deltaChangeRate + e) :
    VotepayLoop E.toExactReading now s' acc' := by
  -- the deadline depends on the claim, which is kept
  have hdeadline : ∀ q, s'.deadline q = s.deadline q := by
    intro q
    unfold deadline
    rw [hproducers, Table.valueAt_set]
    split
    · rename_i hq
      rw [hq, Table.valueAt_some hinfo]
    · rfl
  have hupdated := h.updated p row hrow
  -- the row of `p` is new, the others are as before
  refine ⟨⟨hsince ▸ h.since, fun q i hq => ?_, fun q r hq => ?_, fun q r hq => ?_, fun q r hq => ?_,
    fun q i hq => ?_, htotal ▸ h.total⟩, fun time => ?_⟩
  · -- claims, times and shares of the two rows
    rw [hproducers, Table.find?_set] at hq
    split at hq
    · cases hq
      exact h.claimed p info hinfo
    · exact h.claimed q i hq
  · rw [hproducers2, Table.find?_set] at hq
    split at hq
    · cases hq
      rw [hnow]
      exact ⟨hupdated.1.trans hupdated.2, le_rfl⟩
    · exact h.updated q r hq
  · rw [hproducers2, Table.find?_set] at hq
    split at hq
    · cases hq
      exact hshare
    · exact h.share q r hq
  · rw [hproducers2, Table.find?_set] at hq
    rw [hdeadline]
    split at hq
    · rename_i hp
      cases hq
      rw [hnow, hp]
      exact hdropped
    · exact h.dropped q r hq
  · -- both rows of `p` are there
    rw [hproducers2, Table.find?_set]
    split
    · exact ⟨row', rfl⟩
    · rename_i hne
      rw [hproducers, Table.find?_set_ne _ _ hne] at hq
      exact h.paired q i hq
  -- of the shares only the one of `p` has changed
  · have hother : ∀ q r, q ≠ p →
        s'.votepayOf E.toExactReading q r = s.votepayOf E.toExactReading q r := by
      intro q r hne
      unfold votepayOf paidVotes votesOf
      rw [hdeadline, hproducers, Table.valueAt_set_ne _ _ hne]
    have hpools := h.pools.adjust hrow hother haccount time
    rw [hproducers2, ← hpools, htotal]
    simp only [Accrual.adjust_amount, hvalue, hrate]
    ring

theorem paidVotes_nonneg {s : SystemState F} (hvotes : ∀ p, 0 ≤ s.votesOf E.toExactReading p)
    (p : Name) (row : ProducerInfo2 F) : 0 ≤ s.paidVotes E.toExactReading p row := by
  unfold paidVotes
  split
  · exact hvotes p
  · exact le_rfl

variable [IsStrictOrderedRing K]

/-- No share is negative when no votes are. -/
theorem VotepayRows.amount_nonneg {now : TimePoint} {s : SystemState F}
    (h : VotepayRows E.toExactReading now.toInt s) (hvotes : ∀ p, 0 ≤ s.votesOf E.toExactReading p)
    {p : Name} {row : ProducerInfo2 F} (hrow : s.producers2.find? p = some row) :
    0 ≤ (s.votepayOf E.toExactReading p row).amount (seconds now) := by
  apply Accrual.amount_nonneg (h.share p row hrow) (paidVotes_nonneg hvotes p row)
  · show (row.lastVotepayShareUpdate.toInt : K) / 1000000 ≤ (now.toInt : K) / 1000000
    have hle : (row.lastVotepayShareUpdate.toInt : K) ≤ now.toInt :=
      Int.cast_le.mpr (h.updated p row hrow).2
    exact div_le_div_of_nonneg_right hle (by norm_num)

/-- One round of a loop over producers. -/
theorem VotepayLoop.round {ctx : Context} (hnow : IsTime ctx.now) {s : SystemState F}
    {acc : VpayDelta F} {p : Name} {info : ProducerInfo F} {votes delta : F}
    (h : VotepayLoop E.toExactReading ctx.now s acc) (hinfo : s.producers.find? p = some info)
    (hvotes : E.val votes = E.val info.totalVotes + E.val delta)
    (hold : 0 ≤ E.val info.totalVotes) :
    let r := updateVotepay ctx
      { s with
        producers := s.producers.set p { info with totalVotes := votes }
        gstate := { s.gstate with
          totalProducerVoteWeight := s.gstate.totalProducerVoteWeight + delta } }
      acc p info.lastClaimTime info.totalVotes delta
    VotepayLoop E.toExactReading ctx.now r.1 r.2 := by
  -- the two rows of the producer, and what is known of them
  obtain ⟨row, hrow⟩ := h.paired p info hinfo
  obtain ⟨hclaimed, hclaimedNow⟩ := h.claimed p info hinfo
  obtain ⟨hupdated, hupdatedNow⟩ := h.updated p row hrow
  have hshare := h.share p row hrow
  have hthreshold := deadline_le_iff hinfo hclaimed.le (hclaimedNow.trans hnow.2)
  have hseconds : (seconds row.lastVotepayShareUpdate : K) ≤ seconds ctx.now := by
    have hle : (row.lastVotepayShareUpdate.toInt : K) ≤ ctx.now.toInt := Int.cast_le.mpr hupdatedNow
    exact div_le_div_of_nonneg_right hle (by norm_num)
  -- what the share has grown to is not negative
  have hgrown : 0 ≤ E.val row.votepayShare +
      E.val info.totalVotes * (seconds ctx.now - seconds row.lastVotepayShareUpdate) :=
    add_nonneg hshare (mul_nonneg hold (sub_nonneg.mpr hseconds))
  have hvotesOf : s.votesOf E.toExactReading p = E.val info.totalVotes := Table.valueAt_some hinfo _
  -- the account of the row that is stored
  have hdeadline : ∀ votes', deadline { s with
      producers := s.producers.set p { info with totalVotes := votes' } } p = s.deadline p := by
    intro votes'
    unfold deadline
    rw [Table.valueAt_set, if_pos rfl, Table.valueAt_some hinfo]
  -- its account after the round, whatever share is stored
  have hpaid : ∀ share : F, votepayOf E.toExactReading { s with
      producers := s.producers.set p { info with totalVotes := votes } } p ⟨share, ctx.now⟩ =
      ⟨E.val share, if ctx.now.toInt < s.deadline p then E.val votes else 0, seconds ctx.now⟩ := by
    intro share
    unfold votepayOf paidVotes votesOf
    rw [hdeadline, Table.valueAt_set, if_pos rfl]
  simp only [updateVotepay, hrow]
  -- the deadline of the producer has passed, or not
  by_cases hcrossed : s.deadline p ≤ ctx.now.toInt
  · by_cases hafter : s.deadline p ≤ row.lastVotepayShareUpdate.toInt
    · -- the share has been lost before
      have hzero := h.dropped p row hrow hafter
      have hnew : E.val (updateProducerVotepayShare row ctx.now (Double.ofInt 0) false).1 = 0 := by
        rw [val_votepayShare E false E.val_zero.ge hupdated hupdatedNow, hzero, E.val_zero, zero_mul,
          add_zero]
      simp only [hthreshold, hcrossed, hafter, decide_true, Bool.not_true, Bool.and_false,
        if_true, Bool.false_eq_true, if_false]
      refine h.adjust (d := 0) (e := 0) hinfo hrow rfl rfl rfl rfl rfl hnew.ge (fun _ => hnew) ?_
        (sub_zero _).symm (add_zero _).symm
      -- a share that is lost stays zero, and does not grow
      refine (hpaid _).trans ?_
      rw [if_neg (not_lt.mpr hcrossed)]
      unfold Accrual.adjust Accrual.amount votepayOf paidVotes
      simp only [if_neg (not_lt.mpr hafter), hzero, zero_mul, add_zero]
      rw [← hnew]
      rfl
    · -- the share is lost now
      -- it has grown to this until now
      have hnew : E.val (updateProducerVotepayShare row ctx.now info.totalVotes true).1 =
          (s.votepayOf E.toExactReading p row).amount (seconds ctx.now) := by
        rw [val_votepayShare E true hold hupdated hupdatedNow]
        unfold Accrual.amount votepayOf paidVotes
        rw [if_pos (not_le.mp hafter), hvotesOf]
      simp only [hthreshold, hcrossed, hafter, decide_true, decide_false, Bool.not_true,
        Bool.not_false, Bool.and_true, if_true, if_false, Bool.false_eq_true]
      -- and it leaves the total, together with its votes
      refine h.adjust (d := -(s.votepayOf E.toExactReading p row).amount (seconds ctx.now))
        (e := -E.val info.totalVotes) hinfo hrow rfl rfl rfl rfl rfl E.val_zero.ge
        (fun _ => E.val_zero) ?_ ?_ ?_
      · -- the account is empty from now on
        refine (hpaid _).trans ?_
        show (⟨E.val (Double.ofInt 0), _, _⟩ : Accrual K) = _
        rw [if_neg (not_lt.mpr hcrossed)]
        unfold Accrual.adjust
        rw [E.val_zero, add_neg_cancel]
        congr 1
        unfold votepayOf paidVotes
        rw [if_pos (not_le.mp hafter), hvotesOf, add_neg_cancel]
      · -- the two sums keep what has been taken out
        rw [E.val_add, hnew, sub_neg_eq_add]
      · rw [E.val_sub, sub_eq_add_neg]
  · -- the share grows by the new votes from now on
    have hafter : ¬ s.deadline p ≤ row.lastVotepayShareUpdate.toInt := fun hle =>
      hcrossed (hle.trans hupdatedNow)
    -- the share has grown to this until now
    have hnew : E.val (updateProducerVotepayShare row ctx.now info.totalVotes false).1 =
        (s.votepayOf E.toExactReading p row).amount (seconds ctx.now) := by
      rw [val_votepayShare E false hold hupdated hupdatedNow]
      unfold Accrual.amount votepayOf paidVotes
      rw [if_pos (not_le.mp hafter), hvotesOf]
    have hnonneg : 0 ≤ E.val (updateProducerVotepayShare row ctx.now info.totalVotes false).1 := by
      rw [val_votepayShare E false hold hupdated hupdatedNow]
      exact hgrown
    simp only [hthreshold, hcrossed, hafter, decide_false, Bool.not_false, Bool.false_and,
      if_false, if_true, Bool.false_eq_true]
    -- nothing leaves the total, and the rate changes by the new votes
    refine h.adjust (d := 0) (e := E.val delta) hinfo hrow rfl rfl rfl rfl rfl hnonneg
      (fun hle => absurd hle hcrossed) ?_ (sub_zero _).symm (E.val_add _ _)
    refine (hpaid _).trans ?_
    rw [if_pos (not_le.mp hcrossed)]
    unfold Accrual.adjust
    rw [← hnew, add_zero]
    congr 1
    unfold votepayOf paidVotes
    rw [if_pos (not_le.mp hafter), hvotesOf, hvotes]

/-! ## The loops -/

/-- The total is adjusted by what the loop has noted. It covers that, so it is not clamped. -/
theorem VotepayLoop.updateTotal {now : TimePoint} (hnow : IsTime now) {s : SystemState F}
    {acc : VpayDelta F} (h : VotepayLoop E.toExactReading now s acc)
    (hvotes : ∀ p, 0 ≤ s.votesOf E.toExactReading p) :
    VotepayInv E.toExactReading now.toInt
      (s.updateTotalVotepayShare now (-acc.totalInactiveVpayShare) acc.deltaChangeRate) := by
  obtain ⟨hsince, hsinceNow⟩ := h.since
  -- the total as the sum of the accounts says
  let total := (s.votepayTotal E.toExactReading).adjust (seconds now)
    (-E.val acc.totalInactiveVpayShare) (E.val acc.deltaChangeRate)
  -- it is not negative, as none of the accounts is
  have hvalue : 0 ≤ total.value := by
    rw [← total.amount_since, h.pools]
    exact Table.sum_nonneg fun p row hrow => h.amount_nonneg hvotes hrow
  -- and neither is its rate
  have hrate : 0 ≤ total.rate := by
    rw [h.pools.rate]
    exact Table.sum_nonneg fun p row _ => paidVotes_nonneg hvotes p row
  let delta : F :=
    (if s.gstate3.lastVpayStateUpdate < now then
      s.gstate3.totalVpayShareChangeRate * elapsed now s.gstate3.lastVpayStateUpdate
    else Double.ofInt 0) + -acc.totalInactiveVpayShare
  -- what the code adds up is the total at this time
  have hdelta : E.val s.gstate2.totalProducerVotepayShare + E.val delta = total.value := by
    -- since the last update it has grown at the old rate
    have hgrown : E.val (if s.gstate3.lastVpayStateUpdate < now then
        s.gstate3.totalVpayShareChangeRate * elapsed now s.gstate3.lastVpayStateUpdate
        else Double.ofInt 0) = E.val s.gstate3.totalVpayShareChangeRate *
          (seconds now - seconds s.gstate3.lastVpayStateUpdate) := by
      split
      · rw [E.val_mul, val_elapsed E hsince hsinceNow]
      · rename_i hno
        rw [Int64.lt_iff_toInt_lt, not_lt] at hno
        rw [E.val_zero, seconds, seconds, le_antisymm hno hsinceNow, sub_self, mul_zero]
    rw [E.val_add, hgrown, E.val_neg]
    exact (add_assoc _ _ _).symm
  -- so the code stores the total at this time
  have htotal : votepayTotal E.toExactReading
      (s.updateTotalVotepayShare now (-acc.totalInactiveVpayShare) acc.deltaChangeRate) = total := by
    -- neither of the two bounds at zero takes effect
    have hshare : ¬ (delta < Double.ofInt 0 ∧ s.gstate2.totalProducerVotepayShare < -delta) := by
      rw [E.lt_iff, E.lt_iff, E.val_neg]
      intro hno
      linarith
    have hkept : ¬ (acc.deltaChangeRate < Double.ofInt 0 ∧
        s.gstate3.totalVpayShareChangeRate < -acc.deltaChangeRate) := by
      rw [E.lt_iff, E.lt_iff, E.val_neg]
      have hsum : total.rate =
        E.val s.gstate3.totalVpayShareChangeRate + E.val acc.deltaChangeRate := rfl
      intro hno
      linarith
    show (⟨E.val (if delta < Double.ofInt 0 ∧ s.gstate2.totalProducerVotepayShare < -delta then
        Double.ofInt 0 else s.gstate2.totalProducerVotepayShare + delta),
      E.val (if acc.deltaChangeRate < Double.ofInt 0 ∧
        s.gstate3.totalVpayShareChangeRate < -acc.deltaChangeRate then Double.ofInt 0
        else s.gstate3.totalVpayShareChangeRate + acc.deltaChangeRate),
      seconds now⟩ : Accrual K) = total
    rw [if_neg hshare, if_neg hkept, E.val_add _ delta, hdelta, E.val_add]
    rfl
  refine ⟨⟨⟨hnow.1.le, le_rfl⟩, h.claimed, h.updated, h.share, h.dropped, h.paired, ?_⟩, ?_⟩
  · -- the invariant holds with it
    rw [htotal]
    exact hvalue
  · rw [htotal]
    exact h.pools

/-- The loop over the producers of a voter notes what it changes. -/
theorem propagateToProducers_votepay {ctx : Context} (hnow : IsTime ctx.now) {delta : F}
    {s s' : SystemState F} {acc acc' : VpayDelta F} {producers : List Name}
    (hnodup : producers.Nodup) (hvotes : ∀ p, 0 ≤ s.votesOf E.toExactReading p)
    (hpay : VotepayLoop E.toExactReading ctx.now s acc)
    (h : propagateToProducers ctx delta s acc producers = .ok (s', acc')) :
    VotepayLoop E.toExactReading ctx.now s' acc' := by
  -- the votes before the loop are not negative
  have hlisted : ∀ p ∈ producers, 0 ≤ s.votesOf E.toExactReading p := fun p _ => hvotes p
  clear hvotes
  -- induction on the producers, who are distinct
  induction producers generalizing s acc with
  | nil =>
    simp only [propagateToProducers, Except.ok.injEq, Prod.mk.injEq] at h
    obtain ⟨rfl, rfl⟩ := h
    exact hpay
  | cons acnt rest ih =>
    obtain ⟨hacnt, hrest⟩ := List.nodup_cons.mp hnodup
    simp only [propagateToProducers, bind_eq_ok, getRow_eq_ok] at h
    obtain ⟨prod, hprod, h⟩ := h
    have hold := hlisted acnt List.mem_cons_self
    rw [votesOf, Table.valueAt_some hprod] at hold
    -- one round of the loop
    have hround := hpay.round hnow hprod (E.val_add prod.totalVotes delta) hold
    obtain ⟨hsame, -⟩ := addVotes_tally E.toExactReading ctx acc hprod
      (prod.totalVotes + delta) prod.totalVotes delta
    refine ih hrest hround h fun p hp => ?_
    -- which is not about the rest
    have hne : p ≠ acnt := fun heq => hacnt (heq ▸ hp)
    rw [hsame, if_neg hne]
    exact hlisted p (List.mem_cons_of_mem _ hp)

/-- The loop over the changes of a vote notes what it changes, since no clamp takes effect. -/
theorem applyDeltas_votepay {ctx : Context} (hnow : IsTime ctx.now) {voting : Bool}
    {s s' : SystemState F} {acc acc' : VpayDelta F} {deltas : List (Name × F × Bool)}
    (hnodup : (deltas.map Prod.fst).Nodup) (hvotes : ∀ p, 0 ≤ s.votesOf E.toExactReading p)
    (hclamp : ∀ p d b, (p, d, b) ∈ deltas → 0 ≤ s.votesOf E.toExactReading p + E.val d)
    (hpay : VotepayLoop E.toExactReading ctx.now s acc)
    (h : applyDeltas ctx voting s acc deltas = .ok (s', acc')) :
    VotepayLoop E.toExactReading ctx.now s' acc' := by
  -- induction on the changes, which name each producer once
  induction deltas generalizing s acc with
  | nil =>
    simp only [applyDeltas, Except.ok.injEq, Prod.mk.injEq] at h
    obtain ⟨rfl, rfl⟩ := h
    exact hpay
  | cons e rest ih =>
    obtain ⟨owner, delta, isNew⟩ := e
    rw [List.map_cons] at hnodup
    obtain ⟨howner, hrest⟩ := List.nodup_cons.mp hnodup
    simp only [applyDeltas] at h
    split at h
    · rename_i prod hprod
      have hold := hvotes owner
      have hnew := hclamp owner delta isNew List.mem_cons_self
      rw [votesOf, Table.valueAt_some hprod] at hold hnew
      -- the votes of the producer do not fall below zero
      have hno : ¬ prod.totalVotes + delta < Double.ofInt 0 := by
        rw [E.lt_iff, E.val_add, E.val_zero]
        exact not_lt.mpr hnew
      simp only [bind_eq_ok, check_eq_ok, if_neg hno] at h
      obtain ⟨_, -, h⟩ := h
      -- one round of the loop
      have hround := hpay.round hnow hprod (E.val_add prod.totalVotes delta) hold
      obtain ⟨hsame, -⟩ := addVotes_tally E.toExactReading ctx acc hprod
        (prod.totalVotes + delta) prod.totalVotes delta
      -- and the rest, from the state after it
      refine ih hrest (fun p => ?_) (fun p d b hp => ?_) hround h
      · rw [hsame]
        split
        · rw [E.val_add]
          exact hnew
        · exact hvotes p
      -- a producer is there once
      · have hne : p ≠ owner := by
          rintro rfl
          exact howner (List.mem_map.mpr ⟨_, hp, rfl⟩)
        rw [hsame, if_neg hne]
        exact hclamp p d b (List.mem_cons_of_mem _ hp)
    · -- a name without a producer is passed over
      simp only [bind_eq_ok, check_eq_ok] at h
      obtain ⟨_, -, h⟩ := h
      exact ih hrest hvotes (fun p d b hp => hclamp p d b (List.mem_cons_of_mem _ hp)) hpay h

end SystemState

end UxContracts
