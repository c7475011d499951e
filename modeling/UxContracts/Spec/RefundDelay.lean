import UxContracts.Spec.RamPurchase
import UxContracts.Spec.StakeBacking

/-!
# The delay of refunds

A row of refunds collects everything that its owner undelegates until it is paid. Whatever makes
the row grow sets its time (`changebw_row`), and stake that the owner gives to itself comes out of
the row as far as it is not transferred. So a refund pays no more than what has been undelegated
since the row was created, and nothing of it before three days are over (`refund_delayed`).
-/

namespace UxContracts

/-! ## Times of blocks -/

/-- The time of a block, which `current_time_point` returns. -/
def BlockTimestamp.toTimePoint (slot : BlockTimestamp) : TimePoint :=
  (slot.toUInt64.toInt64 * 500 + blockTimestampEpoch) * 1000

/-- A slot is half a second, counted from the year 2000. -/
theorem BlockTimestamp.toTimePoint_toInt (slot : BlockTimestamp) :
    (BlockTimestamp.toTimePoint slot).toInt = (slot.toNat * 500 + 946684800000) * 1000 := by
  have hlt := slot.toNat_lt
  have hslot : slot.toUInt64.toInt64.toInt = slot.toNat := UInt32.toInt_toInt64 slot
  have hepoch : blockTimestampEpoch.toInt = 946684800000 := rfl
  -- every intermediate value fits into 64 bits
  have hmul : (slot.toUInt64.toInt64 * 500).toInt = slot.toNat * 500 :=
    Int64.toInt_mul_eq hslot (by rfl) (by omega) (by omega)
  have hadd : (slot.toUInt64.toInt64 * 500 + blockTimestampEpoch).toInt =
      slot.toNat * 500 + 946684800000 := by
    rw [Int64.toInt_add_of_mem (by omega) (by omega), hmul, hepoch]
  exact Int64.toInt_mul_eq hadd (by rfl) (by omega) (by omega)

/-- The time of a block has whole seconds of 32 bits. -/
theorem BlockTimestamp.secSinceEpoch_toNat (slot : BlockTimestamp) :
    ((BlockTimestamp.toTimePoint slot).secSinceEpoch.toNat : Int) =
      (BlockTimestamp.toTimePoint slot).toInt / 1000000 := by
  have hlt := slot.toNat_lt
  have hint := BlockTimestamp.toTimePoint_toInt slot
  generalize BlockTimestamp.toTimePoint slot = t at hint ⊢
  have hdiv : (t / 1000000).toInt = t.toInt / 1000000 := by
    rw [Int64.toInt_div_of_ne_right _ _ (by decide), Int.tdiv_eq_ediv_of_nonneg (by omega)]
    rfl
  have hnat := Int64.toNat_toUInt64_of_nonneg (a := t / 1000000) (by omega)
  unfold TimePoint.secSinceEpoch
  rw [UInt64.toNat_toUInt32]
  omega

/-- The time point of a second is exact. -/
theorem TimePoint.ofSec_toInt (t : TimePointSec) : (TimePoint.ofSec t).toInt = t.toNat * 1000000 := by
  have hlt := t.toNat_lt
  exact Int64.toInt_mul_eq (UInt32.toInt_toInt64 t) (by rfl) (by omega) (by omega)

namespace SystemState

variable {F : Type}

/-! ## The refund block -/

/-- What is left of a delta after netting is at most its positive part. -/
theorem netAgainst_rest {amount balance amount' balance' : Asset} (ha : amount.InRange)
    (h0 : 0 ≤ amount.amount.toInt) (h : netAgainst amount balance = .ok (amount', balance')) :
    0 ≤ balance'.amount.toInt ∧ balance'.amount.toInt ≤ max 0 balance.amount.toInt := by
  obtain ⟨-, -, -, hnonneg, -, hrest, -, hmoved⟩ := netAgainst_spec ha h
  refine ⟨hrest, ?_⟩
  simp only [netAgainst, bind_eq_ok] at h
  obtain ⟨diff, -, h⟩ := h
  -- one of the two sides is used up
  have hused : amount'.amount.toInt = 0 ∨ balance'.amount.toInt = 0 := by
    split at h
    · obtain ⟨rfl, rfl⟩ := Prod.mk.inj (pure_eq_ok.mp h)
      exact .inl Int64.toInt_zero
    · obtain ⟨rfl, rfl⟩ := Prod.mk.inj (pure_eq_ok.mp h)
      exact .inr Int64.toInt_zero
  omega

/-- What is left of a delta after a part of a new refund is its positive part. -/
theorem refundPart_rest {sym : Symbol} {balance amount' balance' : Asset}
    (h : refundPart sym balance = .ok (amount', balance')) :
    0 ≤ balance'.amount.toInt ∧ balance'.amount.toInt ≤ max 0 balance.amount.toInt := by
  have hzero : (0 : Int64).toInt = 0 := Int64.toInt_zero
  unfold refundPart at h
  split at h
  · obtain ⟨-, rfl⟩ := Prod.mk.inj (pure_eq_ok.mp h)
    show 0 ≤ (0 : Int64).toInt ∧ (0 : Int64).toInt ≤ _
    omega
  · rename_i hneg
    rw [Int64.lt_iff_toInt_lt, hzero] at hneg
    simp only [bind_eq_ok, pure_eq_ok] at h
    obtain ⟨zero, -, h⟩ := h
    obtain ⟨-, rfl⟩ := Prod.mk.inj h
    omega

/-- The sign of the whole change, as the refund block computes it. -/
theorem Deltas.add_neg_iff {n c : Asset} (hd : Deltas n c) :
    n.amount + c.amount < 0 ↔ n.amount < 0 ∨ c.amount < 0 := by
  have hrange := hd.total_inRange
  have hsign := hd.sameSign
  rw [Int64.lt_iff_toInt_lt, Int64.lt_iff_toInt_lt, Int64.lt_iff_toInt_lt,
    Int64.toInt_add_of_mem (by omega) (by omega), Int64.toInt_zero]
  omega

/-- What is left to be transferred is at most what is staked. -/
theorem updateRefund_rest {ctx : Context} {s : SystemState F} {from_ receiver : Name}
    {n c : Asset} {transfer : Bool} {r : RefundOutcome F} {sym : Symbol}
    (hrow : ∀ q, s.refunds.find? from_ = some q → GoodRefund sym q) (hd : Deltas n c)
    (h : s.updateRefund ctx from_ receiver n c transfer = .ok r) :
    (0 ≤ r.netBalance.amount.toInt ∧ r.netBalance.amount.toInt ≤ max 0 n.amount.toInt) ∧
    (0 ≤ r.cpuBalance.amount.toInt ∧ r.cpuBalance.amount.toInt ≤ max 0 c.amount.toInt) := by
  -- a part that is not taken back stays what it is
  have hpositive : ¬ (n.amount < 0 ∨ c.amount < 0) →
      (0 ≤ n.amount.toInt ∧ n.amount.toInt ≤ max 0 n.amount.toInt) ∧
      (0 ≤ c.amount.toInt ∧ c.amount.toInt ≤ max 0 c.amount.toInt) := by
    rw [Int64.lt_iff_toInt_lt, Int64.lt_iff_toInt_lt, Int64.toInt_zero]
    omega
  simp only [updateRefund] at h
  split at h
  · split at h
    · -- the refund that is there gives what it can
      rename_i q hq
      obtain ⟨hpair, -⟩ := hrow q hq
      simp only [bind_eq_ok, pure_eq_ok] at h
      obtain ⟨⟨net, nb⟩, hnet, ⟨cpu, cb⟩, hcpu, _, -, _, -, rfl⟩ := h
      exact ⟨netAgainst_rest hpair.net_inRange hpair.net_nonneg hnet,
        netAgainst_rest hpair.cpu_inRange hpair.cpu_nonneg hcpu⟩
    · -- without one the parts are made from the quantities
      split at h
      · simp only [bind_eq_ok, pure_eq_ok] at h
        obtain ⟨_, -, ⟨net, nb⟩, hnet, ⟨cpu, cb⟩, hcpu, rfl⟩ := h
        exact ⟨refundPart_rest hnet, refundPart_rest hcpu⟩
      · rename_i hneg
        obtain rfl := pure_eq_ok.mp h
        exact hpositive hneg
  · -- stake is given to somebody else
    rename_i hidle
    obtain rfl := pure_eq_ok.mp h
    apply hpositive
    intro hneg
    apply hidle
    rw [Bool.or_eq_true, decide_eq_true_eq]
    exact .inr (hd.add_neg_iff.mpr hneg)

/-- Whatever makes a row grow sets its time. -/
theorem updateRefund_time {ctx : Context} {s : SystemState F} {from_ receiver : Name}
    {n c : Asset} {transfer : Bool} {r : RefundOutcome F} (hd : Deltas n c)
    (h : s.updateRefund ctx from_ receiver n c transfer = .ok r) {q' : RefundRequest}
    (hq' : r.state.refunds.find? from_ = some q') :
    (n.amount + c.amount < 0 → q'.requestTime = ctx.now.secSinceEpoch) ∧
    (¬ n.amount + c.amount < 0 →
      ∃ q, s.refunds.find? from_ = some q ∧ q'.requestTime = q.requestTime) := by
  rw [hd.add_neg_iff]
  simp only [updateRefund] at h
  split at h
  · split at h
    · -- the row has the time of the call if something is undelegated
      rename_i q hq
      simp only [bind_eq_ok, pure_eq_ok] at h
      obtain ⟨⟨net, nb⟩, -, ⟨cpu, cb⟩, -, _, -, _, -, rfl⟩ := h
      rcases Table.of_find?_put hq' with ⟨-, rfl, -⟩ | ⟨hne, -⟩
      · exact ⟨fun hneg => if_pos hneg, fun hneg => ⟨q, hq, if_neg hneg⟩⟩
      · exact absurd rfl hne
    · -- a new row has it, too
      rename_i hnone
      split at h
      · rename_i hneg
        simp only [bind_eq_ok, pure_eq_ok] at h
        obtain ⟨_, -, ⟨net, nb⟩, -, ⟨cpu, cb⟩, -, rfl⟩ := h
        rw [Table.find?_set_self] at hq'
        obtain rfl := Option.some.inj hq'
        exact ⟨fun _ => rfl, fun hpos => absurd hneg hpos⟩
      · rename_i hneg
        obtain rfl := pure_eq_ok.mp h
        exact ⟨fun h => absurd h hneg, fun _ => ⟨q', hq', rfl⟩⟩
  · -- an idle call undelegates nothing
    rename_i hidle
    obtain rfl := pure_eq_ok.mp h
    refine ⟨fun hneg => absurd ?_ hidle, fun _ => ⟨q', hq', rfl⟩⟩
    rw [Bool.or_eq_true, decide_eq_true_eq]
    exact .inr (hd.add_neg_iff.mpr hneg)

/-! ## A change of stake -/

/-- What `changebw` does to the row of `owner` and sends. -/
structure RowChange (now : TimePoint) (s s' : SystemState F) (owner : Name) (n c : Asset)
    (sends : List InlineAction) : Prop where
  sent_nonneg : 0 ≤ sentAmount sends
  sent_le : sentAmount sends ≤ max 0 n.amount.toInt + max 0 c.amount.toInt
  time : ∀ q', s'.refunds.find? owner = some q' →
    (n.amount + c.amount < 0 → q'.requestTime = now.secSinceEpoch) ∧
    (¬ n.amount + c.amount < 0 →
      ∃ q, s.refunds.find? owner = some q ∧ q'.requestTime = q.requestTime)

/-- What a change of stakes does to the refund of the owner. -/
theorem settleStake_row {ctx : Context} {s s' : SystemState F} {source from_ receiver : Name}
    {n c : Asset} {transfer : Bool} {sends : List InlineAction} {sym : Symbol}
    (hrow : ∀ q, s.refunds.find? from_ = some q → GoodRefund sym q) (hd : Deltas n c)
    (hsource : source ≠ stakeAccount)
    (h : s.settleStake ctx source from_ receiver n c transfer = .ok (s', sends)) :
    RowChange ctx.now s s' from_ n c sends := by
  unfold settleStake at h
  rw [if_neg hsource] at h
  simp only [bind_eq_ok] at h
  obtain ⟨r, hr, t, ht, h⟩ := h
  obtain ⟨⟨hn0, hn⟩, hc0, hc⟩ := updateRefund_rest hrow hd hr
  have hrange := hd.total_inRange
  have hsign := hd.sameSign
  -- the total is the sum of the two balances
  have htotal : t.amount.toInt = r.netBalance.amount.toInt + r.cpuBalance.amount.toInt := by
    obtain ⟨-, -, -, rfl⟩ := Asset.add_eq_ok.mp ht
    exact Int64.toInt_add_of_mem (by omega) (by omega)
  -- scheduling writes no row
  have hrefunds : (r.state.scheduleRefund from_ r.needDeferredTrx).refunds = r.state.refunds := by
    unfold scheduleRefund
    split
    · rfl
    · rfl
  -- either the total is transferred, or it is not positive
  split at h
  · obtain ⟨rfl, rfl⟩ := Prod.mk.inj (pure_eq_ok.mp h)
    refine ⟨?_, ?_, fun q' hq' => updateRefund_time hd hr (hrefunds ▸ hq')⟩
    · show 0 ≤ t.amount.toInt
      omega
    · show t.amount.toInt ≤ _
      omega
  · obtain ⟨rfl, rfl⟩ := Prod.mk.inj (pure_eq_ok.mp h)
    refine ⟨le_refl 0, ?_, fun q' hq' => updateRefund_time hd hr (hrefunds ▸ hq')⟩
    show 0 ≤ _
    omega

/-- The row of the owner changes by the deltas, as far as they are not transferred. -/
theorem StakeChange.refundOf {s s' : SystemState F} {sym : Symbol} {source owner receiver : Name}
    {n c : Asset} {sends : List InlineAction}
    (h : StakeChange sym s s' source owner receiver n c sends) (hsource : source ≠ stakeAccount) :
    s'.refunds.valueAt owner RefundRequest.total =
      s.refunds.valueAt owner RefundRequest.total + sentAmount sends -
        (n.amount.toInt + c.amount.toInt) := by
  have htotal := h.refundTotal hsource
  have hothers : s'.refunds.erase owner = s.refunds.erase owner := by
    apply Table.ext_find?
    intro f
    rw [Table.find?_erase, Table.find?_erase]
    split
    · rfl
    · rename_i hne
      exact h.refundOthers f hne
  have hsum (t : Table Name RefundRequest) : SystemState.refundTotal (t.erase owner) =
      SystemState.refundTotal t - t.valueAt owner RefundRequest.total := by
    unfold SystemState.refundTotal
    rw [Table.sumOn_erase, if_pos trivial]
  have hleft := hsum s'.refunds
  rw [hothers, hsum s.refunds] at hleft
  omega

/-- The transfer of `changebw` takes the sent amount from the source. -/
theorem StakeTransfer.charges {ctx : Context} {t t' : TokenState} {source : Name} {sym : Symbol}
    {sends : List InlineAction} (h : StakeTransfer source sym sends)
    (hrun : runInline ctx t sends = .ok t') :
    t'.balance source sym.code = t.balance source sym.code - sentAmount sends := by
  rcases h with rfl | ⟨q, hq, -, rfl⟩
  · rw [runInline_nil] at hrun
    subst hrun
    exact (sub_zero _).symm
  · rw [← hq]
    exact transfer_charges (runInline_singleton.mp hrun)

/-- The core tokens of an account. -/
def coreBalance (s : SystemState F) (a : Name) : Int := s.token.balance a s.coreSym.code

variable [Double F]

/-- The refund of the owner changes, and all others are kept. -/
theorem changebw_row {ctx : Context} {s s' : SystemState F} {from_ receiver : Name} {n c : Asset}
    {transfer : Bool} {sends : List InlineAction} {sym : Symbol}
    (hrows : ∀ f q, s.refunds.find? f = some q → GoodRefund sym q) (hfrom : from_ ≠ stakeAccount)
    (h : s.changebw ctx from_ receiver n c transfer = .ok (s', sends)) :
    RowChange ctx.now s s' (if transfer then receiver else from_) n c sends := by
  obtain ⟨u, v, hu, hsettle, hs'⟩ := changebw_settles h
  have hrefunds : u.refunds = s.refunds := congrArg Ledgers.refunds hu
  have hrefunds' : s'.refunds = v.refunds := congrArg Ledgers.refunds hs'
  have hrow := settleStake_row (fun q hq => hrows _ q (hrefunds ▸ hq)) (changebw_deltas h).1 hfrom
    hsettle
  refine ⟨hrow.sent_nonneg, hrow.sent_le, ?_⟩
  rw [hrefunds', ← hrefunds]
  exact hrow.time

/-! ## The record of an account -/

/-- What an account has undelegated since its row of refunds was created, and when, and what it
    has taken back by staking to itself. -/
structure Unstaked where
  times : List TimePointSec
  undelegated : Int
  takenBack : Int

def Unstaked.nothing : Unstaked := ⟨[], 0, 0⟩

/-- The record of `a` after a call from `s` to `s'`. -/
def unstakedRecord (a : Name) (r : Unstaked) (s : SystemState F) (call : SystemCall F)
    (s' : SystemState F) : Unstaked :=
  if (s'.refunds.find? a).isNone then .nothing
  else
    match call.action with
    | .undelegatebw from_ _ net cpu =>
      if from_ = a then
        ⟨call.ctx.now.secSinceEpoch :: r.times,
          r.undelegated + (net.amount.toInt + cpu.amount.toInt), r.takenBack⟩
      else r
    | .delegatebw from_ receiver net cpu transfer =>
      if from_ = a ∧ receiver = a ∧ transfer = false then
        -- what has not been transferred comes out of the refund
        { r with takenBack := r.takenBack +
            (net.amount.toInt + cpu.amount.toInt - (s.coreBalance a - s'.coreBalance a)) }
      else r
    | _ => r

/-- The row of `a` holds what the record says, and is at least as young as everything in it. -/
structure DelayInv (a : Name) (now : Int) (s : SystemState F) (r : Unstaked) : Prop where
  core : s.CoreToken
  noRefund : s.refunds.find? stakeAccount = none
  total : s.refunds.valueAt a RefundRequest.total = r.undelegated - r.takenBack
  takenBack_nonneg : 0 ≤ r.takenBack
  young : ∀ q, s.refunds.find? a = some q → ∀ x ∈ r.times, x.toNat ≤ q.requestTime.toNat
  past : ∀ x ∈ r.times, (x.toNat : Int) * 1000000 ≤ now

omit [Double F] in
/-- Nothing is on record for an account without a refund. -/
theorem unstakedRecord_of_none {a : Name} {r : Unstaked} {s s' : SystemState F}
    {call : SystemCall F} (h : s'.refunds.find? a = none) :
    unstakedRecord a r s call s' = .nothing := by
  unfold unstakedRecord
  rw [h]
  rfl

omit [Double F] in
/-- Without a row there is nothing to be recorded. -/
theorem DelayInv.of_none {a : Name} {now : Int} {s : SystemState F} (hcore : s.CoreToken)
    (hno : s.refunds.find? stakeAccount = none) (h : s.refunds.find? a = none) :
    DelayInv a now s .nothing where
  core := hcore
  noRefund := hno
  total := by
    rw [Table.valueAt_none h]
    rfl
  takenBack_nonneg := le_refl 0
  young := by
    intro q hq
    rw [h] at hq
    cases hq
  past := by
    intro x hx
    cases hx

omit [Double F] in
/-- A call that leaves the row alone. -/
theorem DelayInv.keep {a : Name} {now : Int} {s s' : SystemState F} {r : Unstaked}
    (hI : DelayInv a now s r) (hcore : s'.CoreToken)
    (hno : s'.refunds.find? stakeAccount = none)
    (hrow : s'.refunds.find? a = s.refunds.find? a) : DelayInv a now s' r where
  core := hcore
  noRefund := hno
  total := by
    rw [← hI.total]
    unfold Table.valueAt
    rw [hrow]
  takenBack_nonneg := hI.takenBack_nonneg
  young := by
    intro q hq
    exact hI.young q (hrow ▸ hq)
  past := hI.past

omit [Double F] in
/-- The row grows: its time is set, and nothing is sent. -/
theorem DelayInv.undelegate {a receiver : Name} {sym : Symbol} {slot : BlockTimestamp}
    {s u : SystemState F} {token : TokenState} {r : Unstaked} {n c : Asset}
    {sends : List InlineAction} (hI : DelayInv a (BlockTimestamp.toTimePoint slot).toInt s r)
    (hcore : ({ u with token := token } : SystemState F).CoreToken)
    (hno : u.refunds.find? stakeAccount = none) (ha : a ≠ stakeAccount)
    (hchange : StakeChange sym s u a a receiver n.neg c.neg sends)
    (hrow : RowChange (BlockTimestamp.toTimePoint slot) s u a n.neg c.neg sends)
    (hne : n.neg.amount.toInt ≠ 0 ∨ c.neg.amount.toInt ≠ 0) (hn : 0 ≤ n.amount.toInt)
    (hc : 0 ≤ c.amount.toInt) :
    DelayInv a (BlockTimestamp.toTimePoint slot).toInt { u with token := token }
      ⟨(BlockTimestamp.toTimePoint slot).secSinceEpoch :: r.times,
        r.undelegated + (n.amount.toInt + c.amount.toInt), r.takenBack⟩ := by
  -- the amounts with their own sign
  have hnneg : n.neg.amount.toInt = -n.amount.toInt := Int64.toInt_neg_of_nonneg hn
  have hcneg : c.neg.amount.toInt = -c.amount.toInt := Int64.toInt_neg_of_nonneg hc
  have hsec := BlockTimestamp.secSinceEpoch_toNat slot
  have hrefund := hchange.refundOf ha
  have htotal := hI.total
  -- taking back sends nothing
  have hsent : sentAmount sends = 0 := by
    have hsent := hrow.sent_le
    have hsent' := hrow.sent_nonneg
    omega
  refine ⟨hcore, hno, ?_, hI.takenBack_nonneg, fun q hq x hx => ?_, fun x hx => ?_⟩
  · -- the refund has grown by what is undelegated
    show u.refunds.valueAt a _ = r.undelegated + _ - r.takenBack
    rw [hrefund]
    omega
  · -- the row has the time of this call
    have htime := (hrow.time q hq).1 (undelegating hchange.deltas hne hn hc)
    rw [htime]
    rcases List.mem_cons.mp hx with rfl | hx
    · exact le_refl _
    · -- everything before is in the past
      have hpast := hI.past x hx
      omega
  · -- nothing is recorded for the future
    rcases List.mem_cons.mp hx with rfl | hx
    · omega
    · exact hI.past x hx

omit [Double F] in
/-- The row shrinks by what is staked and not transferred, and keeps its time. -/
theorem DelayInv.stakeBack {a : Name} {sym : Symbol} {now : TimePoint} {s u : SystemState F}
    {token : TokenState} {r : Unstaked} {n c : Asset} {sends : List InlineAction} {paid : Int}
    (hI : DelayInv a now.toInt s r)
    (hcore : ({ u with token := token } : SystemState F).CoreToken)
    (hno : u.refunds.find? stakeAccount = none) (ha : a ≠ stakeAccount)
    (hchange : StakeChange sym s u a a a n c sends)
    (hrow : RowChange now s u a n c sends) (hn : 0 ≤ n.amount.toInt) (hc : 0 ≤ c.amount.toInt)
    (hpaid : paid = sentAmount sends) :
    DelayInv a now.toInt { u with token := token }
      { r with takenBack := r.takenBack + (n.amount.toInt + c.amount.toInt - paid) } := by
  have hrefund := hchange.refundOf ha
  have htotal := hI.total
  have hback := hI.takenBack_nonneg
  have hsent := hrow.sent_le
  refine ⟨hcore, hno, ?_, ?_, fun q hq x hx => ?_, hI.past⟩
  · show u.refunds.valueAt a _ = r.undelegated - (r.takenBack + _)
    rw [hrefund]
    omega
  · show 0 ≤ r.takenBack + _
    omega
  · have hnonneg : ¬ n.amount + c.amount < 0 := by
      rw [hchange.deltas.add_neg_iff, Int64.lt_iff_toInt_lt, Int64.lt_iff_toInt_lt,
        Int64.toInt_zero]
      omega
    obtain ⟨q₀, hq₀, htime⟩ := (hrow.time q hq).2 hnonneg
    rw [htime]
    exact hI.young q₀ hq₀ x hx

/-- Stake that is not given to oneself leaves the rows alone. -/
theorem changebw_idle {ctx : Context} {s s' : SystemState F} {from_ receiver : Name}
    {n c : Asset} {transfer : Bool} {sends : List InlineAction}
    (hidle : transfer = true ∨ from_ ≠ receiver) (hpos : ¬ n.amount + c.amount < 0)
    (h : s.changebw ctx from_ receiver n c transfer = .ok (s', sends)) : s'.refunds = s.refunds := by
  obtain ⟨-, hsettled, -⟩ := changebw_schedule h
  cases hsettled with
  | none same => exact congrArg Schedule.refunds same
  | cancelled idle refunds deferred => exact refunds
  | kept looks row =>
    rcases looks with hself | hneg
    · rcases hidle with rfl | hne
      · cases hself
      · cases transfer with
        | true => cases hself
        | false => exact absurd (of_decide_eq_true hself) hne
    · exact absurd hneg hpos

/-- A call keeps the row in line with what has been undelegated, and when. -/
theorem step_delayInv {a : Name} {s s' : SystemState F} {r : Unstaked} {call : SystemCall F}
    {slot : BlockTimestamp} (hslot : call.ctx.now = slot.toTimePoint)
    (hI : DelayInv a call.ctx.now.toInt s r) (h : s.step call = .ok s') :
    DelayInv a call.ctx.now.toInt s' (unstakedRecord a r s call s') := by
  have hS := hI.core.stake
  have hcore := step_coreToken hI.core h
  have hno := step_noRefund hS hI.noRefund h
  have hsym : ∀ sym, s.coreSymbol = .ok sym → sym = s.coreSym := fun _ => coreSym_of_ok
  -- without a row nothing is on the record
  cases hrow : s'.refunds.find? a with
  | none =>
    rw [unstakedRecord_of_none hrow]
    exact .of_none hcore hno hrow
  | some q =>
    -- `eosio.stake` has no row
    have ha : a ≠ stakeAccount := by
      rintro rfl
      rw [hno] at hrow
      cases hrow
    obtain ⟨ctx, action⟩ := call
    cases action with
    | delegatebw from_ receiver net cpu transfer =>
      simp only [unstakedRecord, hrow, Option.isNone_some, Bool.false_eq_true, if_false]
      obtain ⟨u, sends, token, hr, hrun, rfl⟩ := commit_eq_ok.mp h
      obtain ⟨-, -, -, -, -, hbw⟩ := delegatebw_changebw hr
      obtain ⟨-, -, hn, hc, hchange⟩ :=
        delegatebw_spec hS.rows hS.noRex hS.stakedOf_nonneg hsym hr
      -- a delegation to itself takes the stake from the refund first
      by_cases hself : from_ = a ∧ receiver = a ∧ transfer = false
      · obtain ⟨rfl, rfl, rfl⟩ := hself
        rw [if_pos ⟨rfl, rfl, rfl⟩]
        refine hI.stakeBack hcore hno ha hchange (changebw_row hS.rows.refunds ha hbw) hn hc ?_
        -- what is not in the refund is charged
        have hcharge := hchange.transfer.charges hrun
        rw [hchange.token] at hcharge
        have hsame : ({ u with token := token } : SystemState F).coreSym = s.coreSym := by
          simp only [coreSym, hchange.rammarket]
        unfold coreBalance
        rw [hsame]
        show _ - token.balance _ _ = _
        omega
      · -- other delegations do not look at this refund
        rw [if_neg hself]
        apply hI.keep hcore hno
        show u.refunds.find? a = s.refunds.find? a
        -- nor does one that this account owns, since nothing is taken back
        by_cases howner : a = if transfer then receiver else from_
        · have hidle : transfer = true ∨ from_ ≠ receiver := by
            cases transfer with
            | true => exact .inl rfl
            | false =>
              have howner : a = from_ := howner
              exact .inr fun he => hself ⟨howner.symm, he ▸ howner.symm, rfl⟩
          have hpos : ¬ net.amount + cpu.amount < 0 := by
            rw [hchange.deltas.add_neg_iff, Int64.lt_iff_toInt_lt, Int64.lt_iff_toInt_lt,
              Int64.toInt_zero]
            omega
          rw [changebw_idle hidle hpos hbw]
        · exact hchange.refundOthers a howner
    | undelegatebw from_ receiver net cpu =>
      simp only [unstakedRecord, hrow, Option.isNone_some, Bool.false_eq_true, if_false]
      obtain ⟨u, sends, token, hr, hrun, rfl⟩ := commit_eq_ok.mp h
      obtain ⟨-, -, -, -, -, -, hbw⟩ := undelegatebw_changebw hr
      obtain ⟨-, -, hn, hc, hchange⟩ :=
        undelegatebw_spec hS.rows hS.noRex hS.stakedOf_nonneg hsym hr
      -- its own undelegation is recorded with its time
      by_cases hfrom : from_ = a
      · subst hfrom
        rw [if_pos rfl]
        have hrc := changebw_row hS.rows.refunds ha hbw
        have hslot : ctx.now = slot.toTimePoint := hslot
        show DelayInv from_ ctx.now.toInt _ ⟨ctx.now.secSinceEpoch :: _, _, _⟩
        have hI : DelayInv from_ ctx.now.toInt s r := hI
        rw [hslot] at hI hrc ⊢
        exact hI.undelegate hcore hno ha hchange hrc (changebw_deltas hbw).2 hn hc
      · -- the others are about another row
        rw [if_neg hfrom]
        exact hI.keep hcore hno (hchange.refundOthers a (Ne.symm hfrom))
    | refund owner =>
      simp only [unstakedRecord, hrow, Option.isNone_some, Bool.false_eq_true, if_false]
      obtain ⟨u, sends, token, hr, hrun, rfl⟩ := commit_eq_ok.mp h
      obtain ⟨q, amount, -, -, -, rfl, -⟩ := refund_spec hS.rows hr
      apply hI.keep hcore hno
      -- the row that is paid is gone
      have hrow : (s.refunds.erase owner).find? a = some _ := hrow
      show (s.refunds.erase owner).find? a = _
      rw [Table.find?_erase] at hrow ⊢
      split at hrow
      · cases hrow
      · rename_i hne
        rw [if_neg hne]
    | _ =>
      -- the rest of the actions move no refund
      have hrefunds : s'.refunds = s.refunds :=
        congrArg Schedule.refunds (step_keepsSchedule rfl h)
      simp only [unstakedRecord, hrow, Option.isNone_some, Bool.false_eq_true, if_false]
      exact hI.keep hcore hno (by rw [hrefunds])

omit [Double F] in
/-- Nothing of the past is in the future later on. -/
theorem DelayInv.later {a : Name} {now now' : Int} {s : SystemState F} {r : Unstaked}
    (hI : DelayInv a now s r) (hle : now ≤ now') : DelayInv a now' s r where
  core := hI.core
  noRefund := hI.noRefund
  total := hI.total
  takenBack_nonneg := hI.takenBack_nonneg
  young := hI.young
  past := fun x hx => le_trans (hI.past x hx) hle

/-! ## Runs -/

/-- The calls come in the order of their times, which are times of blocks. -/
def ChainTimes (calls : List (SystemCall F)) : Prop :=
  (calls.Pairwise fun c d => c.ctx.now ≤ d.ctx.now) ∧
    ∀ c ∈ calls, ∃ slot : BlockTimestamp, c.ctx.now = slot.toTimePoint

/-- Every run of the chain keeps the row in line with what has been undelegated, and when. -/
theorem exec_delayInv (maxBlockNetUsage : UInt64) (maxBlockCpuUsage : UInt32) (a : Name)
    {calls : List (SystemCall F)} {call : SystemCall F} (h : ChainTimes (calls ++ [call])) :
    let p := Run.exec (Run.observed step (unstakedRecord a))
      (genesis maxBlockNetUsage maxBlockCpuUsage, .nothing) calls
    DelayInv a call.ctx.now.toInt p.1 p.2 := by
  obtain ⟨hsorted, hblock⟩ := h
  obtain ⟨hsorted, -, hlast⟩ := List.pairwise_append.mp hsorted
  -- the times of the calls are those of blocks
  have hnonneg : ∀ c ∈ calls ++ [call], (0 : Int) ≤ c.ctx.now.toInt := by
    intro c hc
    obtain ⟨slot, hslot⟩ := hblock c hc
    rw [hslot, BlockTimestamp.toTimePoint_toInt]
    omega
  -- at the start nothing has been undelegated
  have hstart : DelayInv a 0 (genesis maxBlockNetUsage maxBlockCpuUsage : SystemState F) .nothing :=
    .of_none (genesis_coreToken _ _) (Table.find?_empty _) (Table.find?_empty _)
  have hmono : ∀ (t t' : Int) (p : SystemState F × Unstaked), t ≤ t' → DelayInv a t p.1 p.2 →
      DelayInv a t' p.1 p.2 :=
    fun _ _ _ hle hI => hI.later hle
  -- one call keeps the invariant at its own time
  have hstep : ∀ (p : SystemState F × Unstaked) (c : SystemCall F) q,
      DelayInv a c.ctx.now.toInt p.1 p.2 →
      (∃ slot : BlockTimestamp, c.ctx.now = slot.toTimePoint) →
      Run.observed step (unstakedRecord a) p c = .ok q → DelayInv a c.ctx.now.toInt q.1 q.2 := by
    intro p c q hI hslot hq
    obtain ⟨hstep, hrecord⟩ := Run.observed_eq_ok hq
    obtain ⟨slot, hslot⟩ := hslot
    rw [hrecord]
    exact step_delayInv hslot hI hstep
  -- so it holds at the end of the run
  obtain ⟨now, hnow, hI⟩ := Run.exec_of_sorted
    (I := fun (t : Int) (p : SystemState F × Unstaked) => DelayInv a t p.1 p.2) (t := 0)
    (s := (genesis maxBlockNetUsage maxBlockCpuUsage, .nothing)) hmono hstep hstart
    (fun c hc => hnonneg c (List.mem_append_left _ hc))
    (hsorted.imp fun h => Int64.le_iff_toInt_le.mp h)
    (Run.meets_of_forall fun c hc => hblock c (List.mem_append_left _ hc))
  exact hI.later (hnow _ (hnonneg call (List.mem_append_right _ List.mem_cons_self)) fun c hc =>
    Int64.le_iff_toInt_le.mp (hlast c hc call List.mem_cons_self))

omit [Double F] in
/-- A refund pays its row to the owner. -/
theorem refund_pays {ctx : Context} {s u : SystemState F} {token : TokenState} {owner : Name}
    {sends : List InlineAction} (hI : s.CoreToken) (h : s.refund ctx owner = .ok (u, sends))
    (hrun : runInline ctx u.token sends = .ok token) :
    ({ u with token := token } : SystemState F).coreBalance owner =
      s.coreBalance owner + s.refunds.valueAt owner RefundRequest.total := by
  obtain ⟨q, amount, hq, hsym, hamt, rfl, rfl⟩ := refund_spec hI.stake.rows h
  have htransfer : s.token.transfer _ stakeAccount owner amount "unstake" = .ok token :=
    runInline_singleton.mp hrun
  obtain ⟨-, -, -, hne, -⟩ := TokenState.transfer_rows hI.token htransfer
  have hmove := TokenState.transfer_balance hI.token htransfer owner s.coreSym.code
  rw [hsym, if_pos ⟨rfl, rfl⟩, if_neg fun hs => hne hs.1.symm, hamt, sub_zero] at hmove
  rw [Table.valueAt_some hq]
  exact hmove

/-- What a refund at the time `now` pays, given the record of the owner. -/
structure PaysMature (now : TimePoint) (owner : Name) (s s' : SystemState F) (r : Unstaked) :
    Prop where
  mature : ∀ x ∈ r.times, x.toNat + refundDelaySec.toNat ≤ now.secSinceEpoch.toNat
  paid : s'.coreBalance owner - s.coreBalance owner = r.undelegated - r.takenBack
  takenBack_nonneg : 0 ≤ r.takenBack

/-- A refund that is paid is of stakes that were undelegated three days ago. -/
theorem DelayInv.paysMature {a : Name} {ctx : Context} {s s' : SystemState F} {r : Unstaked}
    {slot : BlockTimestamp} (hslot : ctx.now = slot.toTimePoint)
    (hI : DelayInv a ctx.now.toInt s r) (h : s.step ⟨ctx, .refund a⟩ = .ok s') :
    PaysMature ctx.now a s s' r := by
  obtain ⟨u, sends, token, hr, hrun, rfl⟩ := commit_eq_ok.mp h
  have hpays := refund_pays hI.core hr hrun
  refine ⟨fun x hx => ?_, ?_, hI.takenBack_nonneg⟩
  · obtain ⟨q, amount, hq, hmature, -⟩ := refund_cases hr
    change _ ≤ ctx.now at hmature
    have hyoung := hI.young q hq x hx
    have htime := TimePoint.ofSec_toInt q.requestTime
    have hdelay := TimePoint.ofSec_toInt refundDelaySec
    have hdays : refundDelaySec.toNat = 259200 := rfl
    have hlt := q.requestTime.toNat_lt
    have hsec := BlockTimestamp.secSinceEpoch_toNat slot
    rw [Int64.le_iff_toInt_le, Int64.toInt_add_of_mem (by omega) (by omega)] at hmature
    rw [← hslot] at hsec
    omega
  · rw [hpays, hI.total]
    omega

/-- In every run at times of blocks that do not decrease: when a refund is paid, three days have
    passed since each undelegation of the owner since its row was created, and it pays what was
    undelegated less what was taken back by staking to self. -/
theorem refund_delayed (maxBlockNetUsage : UInt64) (maxBlockCpuUsage : UInt32)
    {calls : List (SystemCall F)} {ctx : Context} {owner : Name} {s' : SystemState F}
    (htimes : ChainTimes (calls ++ [⟨ctx, .refund owner⟩]))
    (h : (Run.exec step (genesis maxBlockNetUsage maxBlockCpuUsage) calls).step
      ⟨ctx, .refund owner⟩ = .ok s') :
    PaysMature ctx.now owner (Run.exec step (genesis maxBlockNetUsage maxBlockCpuUsage) calls) s'
      (Run.exec (Run.observed step (unstakedRecord owner))
        (genesis maxBlockNetUsage maxBlockCpuUsage, .nothing) calls).2 := by
  have hI := exec_delayInv maxBlockNetUsage maxBlockCpuUsage owner htimes
  obtain ⟨slot, hslot⟩ := htimes.2 _ (List.mem_append_right _ List.mem_cons_self)
  simp only [Run.exec_observed_fst] at hI
  exact hI.paysMature hslot h

/-! ## Samples -/

namespace Sample

/-- Alice undelegates twice and stakes to herself in between. -/
def stakingBack : List (SystemCall Rat) :=
  setup ++ [⟨ctx [eosioAccount] launch,
      .delegatebw eosioAccount eosioAccount (utx 1000000000000) (utx 500000000000) false⟩,
    ⟨ctx [eosioAccount] launch, .voteproducer eosioAccount ⟨0⟩ []⟩,
    ⟨ctx [alice] launch, .delegatebw alice alice (utx 300) (utx 200) false⟩,
    ⟨ctx [alice] (launch + 60), .undelegatebw alice alice (utx 100) (utx 100)⟩,
    ⟨ctx [alice] (launch + 120), .delegatebw alice alice (utx 30) (utx 120) false⟩,
    ⟨ctx [alice] (launch + 180), .undelegatebw alice alice (utx 50) (utx 0)⟩]

/-- Alice's refund three days after she has undelegated the last time. -/
def refundCall : SystemCall Rat := ⟨ctx [alice] (launch + 259380), .refund alice⟩

/-- What alice has done since her row was created. -/
def unstaked : Unstaked :=
  (Run.exec (Run.observed step (unstakedRecord alice)) (genesis 1048576 200000, .nothing)
    stakingBack).2

end Sample

open Sample in
/-- Of the 250 that alice has undelegated 130 have gone back into her stake, and she gets 120. -/
theorem refund_delayed_sample :
    unstaked.undelegated = 250 ∧ unstaked.takenBack = 130 ∧ ∃ s',
      (Run.exec step (genesis 1048576 200000) stakingBack).step refundCall = .ok s' ∧
      PaysMature refundCall.ctx.now alice (Run.exec step (genesis 1048576 200000) stakingBack) s'
        unstaked := by
  have hok : ((Run.exec step (genesis 1048576 200000) stakingBack).step refundCall).isOk := by
    decide +kernel
  have hsorted : (stakingBack ++ [refundCall]).Pairwise fun c d => c.ctx.now ≤ d.ctx.now := by
    decide +kernel
  have hblock : ∀ c ∈ stakingBack ++ [refundCall],
      c.ctx.now = (TimePoint.toSlot c.ctx.now).toTimePoint := by
    decide +kernel
  have hstep := Run.step_eq_next hok
  exact ⟨by decide +kernel, by decide +kernel, _, hstep,
    refund_delayed 1048576 200000 ⟨hsorted, fun c hc => ⟨_, hblock c hc⟩⟩ hstep⟩

end SystemState

end UxContracts
