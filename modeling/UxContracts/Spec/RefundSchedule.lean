import UxContracts.Native.Deferred
import UxContracts.Spec.CoreToken
import UxContracts.Spec.StakingBlocks

/-!
# The schedule of refunds

A row of refunds and the deferred transaction that is to pay it are written together, but the
transaction is cancelled whenever `changebw` has not looked at the row. Without such a change of
stake in between, every row has its transaction until the chain has taken it (`refund_scheduled`).
-/

namespace UxContracts

namespace SystemState

variable {F : Type}

/-! ## The refund block -/

/-- The row that the block has looked at needs a transaction, if it is still there. -/
theorem updateRefund_need {ctx : Context} {s : SystemState F} {from_ receiver : Name}
    {n c : Asset} {transfer : Bool} {r : RefundOutcome F}
    (hlooks : (!transfer && from_ = receiver) = true ∨ n.amount + c.amount < 0)
    (h : s.updateRefund ctx from_ receiver n c transfer = .ok r) :
    (r.state.refunds.find? from_).isSome → r.needDeferredTrx = true := by
  -- the call looks at the refund
  have hlooks : ((!transfer && decide (from_ = receiver)) || decide (n.amount + c.amount < 0)) =
      true := by
    rw [Bool.or_eq_true, decide_eq_true_eq]
    exact hlooks
  simp only [updateRefund, hlooks, if_true] at h
  split at h
  · -- a row that is left is not empty
    simp only [bind_eq_ok, pure_eq_ok] at h
    obtain ⟨⟨net, nb⟩, -, ⟨cpu, cb⟩, -, _, -, _, -, rfl⟩ := h
    intro hrow
    obtain ⟨q, hq⟩ := Option.isSome_iff_exists.mp hrow
    rcases Table.of_find?_put hq with ⟨-, -, hempty⟩ | ⟨hne, -⟩
    · show (!RefundRequest.isEmpty _) = true
      rw [hempty]
      rfl
    · exact absurd rfl hne
  · rename_i hnone
    -- a new row always needs a transaction
    split at h
    · simp only [bind_eq_ok, pure_eq_ok] at h
      obtain ⟨_, -, _, -, _, -, rfl⟩ := h
      exact fun _ => rfl
    · -- without a row nothing is needed
      cases h
      intro hrow
      rw [hnone] at hrow
      cases hrow

/-- The block writes to the row of one account. -/
theorem updateRefund_others {ctx : Context} {s : SystemState F} {from_ receiver : Name}
    {n c : Asset} {transfer : Bool} {r : RefundOutcome F}
    (h : s.updateRefund ctx from_ receiver n c transfer = .ok r) {a : Name} (ha : a ≠ from_) :
    r.state.refunds.find? a = s.refunds.find? a := by
  simp only [updateRefund] at h
  split at h
  · split at h
    · simp only [bind_eq_ok, pure_eq_ok] at h
      obtain ⟨_, -, _, -, _, -, _, -, rfl⟩ := h
      exact Table.find?_put_ne _ _ _ ha
    · split at h
      · simp only [bind_eq_ok, pure_eq_ok] at h
        obtain ⟨_, -, _, -, _, -, rfl⟩ := h
        exact Table.find?_set_ne _ _ ha
      · cases h
        rfl
  · cases h
    rfl

/-- A gift and a stake for somebody else leave the row alone. -/
theorem updateRefund_idle {ctx : Context} {s : SystemState F} {from_ receiver : Name}
    {n c : Asset} {transfer : Bool} {r : RefundOutcome F}
    (hidle : ¬ ((!transfer && from_ = receiver) = true ∨ n.amount + c.amount < 0))
    (h : s.updateRefund ctx from_ receiver n c transfer = .ok r) :
    r.state = s ∧ r.needDeferredTrx = false := by
  have hidle : ¬ ((!transfer && decide (from_ = receiver)) || decide (n.amount + c.amount < 0)) =
      true := by
    rw [Bool.or_eq_true, decide_eq_true_eq]
    exact hidle
  simp only [updateRefund, if_neg hidle] at h
  cases h
  exact ⟨rfl, rfl⟩

/-- The rows of refunds and the deferred transactions. -/
structure Schedule where
  refunds : Table Name RefundRequest
  deferred : Table Name DeferredRefund

def schedule (s : SystemState F) : Schedule := ⟨s.refunds, s.deferred⟩

/-- What the refund block does to the row and the transaction of an account. -/
inductive Settled (t t' : Schedule) (owner : Name) (looks : Prop) : Prop
  /-- the stake of `eosio.stake` has no refund -/
  | none (same : t' = t)
  /-- the row has been looked at, and a row that is left has its transaction -/
  | kept (looks : looks)
      (row : (t'.refunds.find? owner).isSome → (t'.deferred.find? owner).isSome)
  /-- the row has not been looked at, and its transaction is cancelled -/
  | cancelled (idle : ¬ looks) (refunds : t'.refunds = t.refunds)
      (deferred : t'.deferred = t.deferred.erase owner)

/-- Of all refunds and transactions only those of the owner change. -/
theorem settleStake_schedule {ctx : Context} {s s' : SystemState F} {source from_ receiver : Name}
    {n c : Asset} {transfer : Bool} {sends : List InlineAction}
    (h : s.settleStake ctx source from_ receiver n c transfer = .ok (s', sends)) :
    (∀ a, a ≠ from_ → s'.refunds.find? a = s.refunds.find? a ∧
      s'.deferred.find? a = s.deferred.find? a) ∧
    Settled s.schedule s'.schedule from_
      ((!transfer && from_ = receiver) = true ∨ n.amount + c.amount < 0) ∧
    (source = stakeAccount → s'.schedule = s.schedule) := by
  unfold settleStake at h
  split at h
  -- stake out of the stake account itself settles nothing
  · simp only [Except.ok.injEq, Prod.mk.injEq] at h
    obtain ⟨rfl, -⟩ := h
    exact ⟨fun _ _ => ⟨rfl, rfl⟩, .none rfl, fun _ => rfl⟩
  · rename_i hsource
    simp only [bind_eq_ok] at h
    obtain ⟨r, hr, t, -, h⟩ := h
    -- whatever is transferred, the refund is scheduled or canceled
    obtain rfl : s' = r.state.scheduleRefund from_ r.needDeferredTrx := by
      split at h
      · exact (Prod.mk.inj (pure_eq_ok.mp h)).1.symm
      · exact (Prod.mk.inj (pure_eq_ok.mp h)).1.symm
    have hstate := updateRefund_eq hr
    refine ⟨?_, ?_, fun heq => absurd heq hsource⟩
    · -- the other accounts keep their rows and their transactions
      intro a ha
      have hrow := updateRefund_others hr ha
      have hdeferred : r.state.deferred = s.deferred := by rw [hstate]
      unfold scheduleRefund
      split
      · exact ⟨hrow, by rw [Table.find?_set_ne _ _ ha, hdeferred]⟩
      · exact ⟨hrow, by rw [Table.find?_erase_ne _ ha, hdeferred]⟩
    -- whether the call looks at the refund of the account
    · by_cases hlooks : (!transfer && from_ = receiver) = true ∨ n.amount + c.amount < 0
      · -- it does, and schedules a transaction for a row that is left
        refine .kept hlooks fun hrow => ?_
        have hsame : (r.state.scheduleRefund from_ r.needDeferredTrx).refunds = r.state.refunds := by
          unfold scheduleRefund
          split
          · rfl
          · rfl
        have hneed := updateRefund_need hlooks hr (hsame ▸ hrow)
        show ((r.state.scheduleRefund from_ r.needDeferredTrx).deferred.find? from_).isSome
        unfold scheduleRefund
        rw [if_pos hneed, Table.find?_set_self]
        rfl
      · -- it does not, and cancels the transaction
        obtain ⟨hs, hneed⟩ := updateRefund_idle hlooks hr
        have hsched : r.state.scheduleRefund from_ r.needDeferredTrx =
            { s with deferred := s.deferred.erase from_ } := by
          rw [hneed, hs]
          rfl
        rw [hsched]
        exact .cancelled hlooks rfl rfl

/-! ## Calls -/

/-- The owner of stake that an action gives without looking at the owner's refund. -/
def stakesElsewhere : SystemAction F → Option Name
  | .delegatebw from_ receiver _ _ transfer =>
    if from_ = stakeAccount ∨ (!transfer && from_ = receiver) = true then none
    else some (if transfer then receiver else from_)
  | _ => none

/-- What an accepted call did to rows and transactions. -/
inductive ScheduleChange (s s' : SystemState F) (action : SystemAction F) : Prop
  | same (same : s'.schedule = s.schedule)
  /-- the refund is paid -/
  | paid (owner : Name) (action : action = .refund owner)
      (schedule : s'.schedule = ⟨s.refunds.erase owner, s.deferred⟩)
  /-- a stake of `owner` has changed -/
  | staked (owner : Name) (looks : Prop)
      (others : ∀ a, a ≠ owner → s'.refunds.find? a = s.refunds.find? a ∧
        s'.deferred.find? a = s.deferred.find? a)
      (settled : Settled s.schedule s'.schedule owner looks)
      (elsewhere : ¬ looks → s'.schedule = s.schedule ∨ stakesElsewhere action = some owner)

/-- The schedule is a part of the ledgers. -/
theorem schedule_of_ledgers {s s' : SystemState F} {r : Table Name RexBalance}
    (h : s'.ledgers = { s.ledgers with rexbalance := r }) : s'.schedule = s.schedule := by
  have hrefunds : s'.refunds = s.refunds := congrArg Ledgers.refunds h
  have hdeferred : s'.deferred = s.deferred := congrArg Ledgers.deferred h
  unfold schedule
  rw [hrefunds, hdeferred]

variable [Double F]

/-- A change of stake, from its refund block on. -/
theorem changebw_schedule {ctx : Context} {s s' : SystemState F} {from_ receiver : Name}
    {n c : Asset} {transfer : Bool} {sends : List InlineAction}
    (h : s.changebw ctx from_ receiver n c transfer = .ok (s', sends)) :
    let owner := if transfer then receiver else from_
    (∀ a, a ≠ owner → s'.refunds.find? a = s.refunds.find? a ∧
      s'.deferred.find? a = s.deferred.find? a) ∧
    Settled s.schedule s'.schedule owner
      ((!transfer && owner = receiver) = true ∨ n.amount + c.amount < 0) ∧
    (from_ = stakeAccount → s'.schedule = s.schedule) := by
  intro owner
  obtain ⟨u, v, hu, hsettle, hs'⟩ := changebw_settles h
  have hrefunds : u.refunds = s.refunds := congrArg Ledgers.refunds hu
  have hdeferred : u.deferred = s.deferred := congrArg Ledgers.deferred hu
  have hrefunds' : s'.refunds = v.refunds := congrArg Ledgers.refunds hs'
  have hdeferred' : s'.deferred = v.deferred := congrArg Ledgers.deferred hs'
  have hschedule : u.schedule = s.schedule := by
    unfold schedule
    rw [hrefunds, hdeferred]
  rw [schedule_of_ledgers hs', hrefunds', hdeferred', ← hschedule, ← hrefunds, ← hdeferred]
  exact settleStake_schedule hsettle

/-- The deltas of a successful `changebw` are amounts of one sign, and not both zero. -/
theorem changebw_deltas {ctx : Context} {s s' : SystemState F} {from_ receiver : Name}
    {n c : Asset} {transfer : Bool} {sends : List InlineAction}
    (h : s.changebw ctx from_ receiver n c transfer = .ok (s', sends)) :
    Deltas n c ∧ (n.amount.toInt ≠ 0 ∨ c.amount.toInt ≠ 0) := by
  simp only [changebw, bind_eq_ok, check_eq_ok] at h
  obtain ⟨_, -, _, hne, total, htotal, _, habs, -⟩ := h
  refine ⟨(deltas_spec htotal habs).1, ?_⟩
  rw [← Int64.toInt_zero, Ne, Ne, Int64.toInt_inj, Int64.toInt_inj]
  exact hne

/-- Stake is taken back by a negative sum. -/
theorem undelegating {n c : Asset} (hd : Deltas n.neg c.neg)
    (hne : n.neg.amount.toInt ≠ 0 ∨ c.neg.amount.toInt ≠ 0) (hn : 0 ≤ n.amount.toInt)
    (hc : 0 ≤ c.amount.toInt) : n.neg.amount + c.neg.amount < 0 := by
  have hsum := hd.total_inRange
  have hnneg : n.neg.amount.toInt = -n.amount.toInt := Int64.toInt_neg_of_nonneg hn
  have hcneg : c.neg.amount.toInt = -c.amount.toInt := Int64.toInt_neg_of_nonneg hc
  apply Int64.lt_iff_toInt_lt.mpr
  rw [Int64.toInt_add_of_mem (by omega) (by omega), Int64.toInt_zero]
  omega

/-- An action that neither moves stake nor pays it back leaves rows and transactions alone. -/
theorem step_keepsSchedule {s s' : SystemState F} {call : SystemCall F}
    (hother : movesStake call.action = false) (h : s.step call = .ok s') :
    s'.schedule = s.schedule := by
  obtain ⟨ctx, action⟩ := call
  cases action with
  | init version core =>
    obtain ⟨u, sends, token, hr, -, rfl⟩ := commit_eq_ok.mp h
    obtain ⟨m, -, -, -, rfl, -⟩ := init_spec hr
    -- without a stake nothing is scheduled
    rfl
  | newaccount creator newact =>
    obtain ⟨zero, bids, limits, -, -, -, rfl⟩ := newaccount_spec h
    rfl
  | setram maxRamSize =>
    obtain ⟨m, m', -, -, -, -, rfl⟩ := setram_spec h
    rfl
  | setramrate bytesPerBlock =>
    obtain ⟨-, u, hsup, rfl⟩ := setramrate_spec h
    rw [(updateRamSupply_spec hsup).eq]
    rfl
  | buyram payer receiver quant =>
    obtain ⟨u, sends, token, hr, -, rfl⟩ := commit_eq_ok.mp h
    obtain ⟨s₁, res, limits, hsup, -, -, -, -, -, rfl, -⟩ := buyram_spec hr
    -- trades of RAM move no refund
    rw [(updateRamSupply_spec hsup).eq]
    rfl
  | buyrambytes payer receiver bytes =>
    obtain ⟨u, sends, token, hr, -, rfl⟩ := commit_eq_ok.mp h
    obtain ⟨s₁, res, limits, hsup, -, -, -, -, -, rfl, -⟩ := buyram_spec (buyrambytes_spec hr)
    rw [(updateRamSupply_spec hsup).eq]
    rfl
  | sellram account bytes =>
    obtain ⟨u, sends, token, hr, -, rfl⟩ := commit_eq_ok.mp h
    obtain ⟨s₁, res, limits, hsup, -, -, -, -, -, rfl, -⟩ := sellram_spec hr
    rw [(updateRamSupply_spec hsup).eq]
    rfl
  | delegatebw from_ receiver net cpu transfer => cases hother
  | undelegatebw from_ receiver net cpu => cases hother
  | refund owner => cases hother
  | voteproducer voterName proxy producers =>
    -- votes move no refund
    exact schedule_of_ledgers (voteproducer_ledgers h)
  | regproxy proxy isproxy =>
    exact schedule_of_ledgers (regproxy_frame h).ledgers
  | token action =>
    obtain ⟨token, -, rfl⟩ := step_token_spec h
    rfl
  | producers producers producers2 scheduleSize =>
    cases h
    rfl

/-- No call makes a refund for `eosio.stake`. -/
theorem step_noRefund {s s' : SystemState F} {call : SystemCall F} (hI : s.StakeInv)
    (hnone : s.refunds.find? stakeAccount = none) (h : s.step call = .ok s') :
    s'.refunds.find? stakeAccount = none := by
  have hcore : ∀ sym, s.coreSymbol = .ok sym → sym = s.coreSym := fun _ => coreSym_of_ok
  cases hother : movesStake call.action with
  | false =>
    -- what moves no stake moves no refund
    have hrefunds : s'.refunds = s.refunds := congrArg Schedule.refunds (step_keepsSchedule hother h)
    rw [hrefunds]
    exact hnone
  | true =>
    obtain ⟨ctx, action⟩ := call
    cases action with
    | delegatebw from_ receiver net cpu transfer =>
      obtain ⟨u, sends, token, hr, hrun, rfl⟩ := commit_eq_ok.mp h
      obtain ⟨-, -, hn0, hc0, hchange⟩ := delegatebw_spec hI.rows hI.noRex hI.stakedOf_nonneg hcore hr
      show u.refunds.find? stakeAccount = none
      by_cases hfrom : from_ = stakeAccount
      · rw [(hchange.ofStake hfrom).1]
        exact hnone
      · -- a delegation of another account
        -- what it is given makes no refund
        by_cases howner : stakeAccount = if transfer then receiver else from_
        · rw [hchange.refundsOfGift (fun he => hfrom (he.symm.trans howner.symm)) (by omega)]
          exact hnone
        · rw [hchange.refundOthers _ howner]
          exact hnone
    | undelegatebw from_ receiver net cpu =>
      obtain ⟨u, sends, token, hr, hrun, rfl⟩ := commit_eq_ok.mp h
      obtain ⟨-, -, -, -, hchange⟩ := undelegatebw_spec hI.rows hI.noRex hI.stakedOf_nonneg hcore hr
      show u.refunds.find? stakeAccount = none
      by_cases hfrom : from_ = stakeAccount
      · rw [(hchange.ofStake hfrom).1]
        exact hnone
      · rw [hchange.refundOthers _ (Ne.symm hfrom)]
        exact hnone
    | refund owner =>
      obtain ⟨u, sends, token, hr, hrun, rfl⟩ := commit_eq_ok.mp h
      obtain ⟨q, amount, -, -, -, rfl, -⟩ := refund_spec hI.rows hr
      show (s.refunds.erase owner).find? stakeAccount = none
      -- erasing a row adds none
      rw [Table.find?_erase, hnone, ite_self]
    | _ => cases hother

/-- Every call changes the schedule in one of these ways. -/
theorem step_schedule {s s' : SystemState F} {call : SystemCall F} (h : s.step call = .ok s') :
    ScheduleChange s s' call.action := by
  cases hother : movesStake call.action with
  -- nothing moves
  | false => exact .same (step_keepsSchedule hother h)
  | true =>
    obtain ⟨ctx, action⟩ := call
    cases action with
    | delegatebw from_ receiver net cpu transfer =>
      obtain ⟨u, sends, token, hr, -, rfl⟩ := commit_eq_ok.mp h
      obtain ⟨sym, -, -, -, -, hchange⟩ := delegatebw_changebw hr
      obtain ⟨hothers, hsettled, hstake⟩ := changebw_schedule hchange
      refine .staked _ _ hothers hsettled fun hidle => ?_
      by_cases hfrom : from_ = stakeAccount
      · exact .inl (hstake hfrom)
      · -- an idle call of another account
        right
        have hself : ¬ (!transfer && from_ = receiver) = true := by
          intro hself
          have htransfer : transfer = false := by simpa using (Bool.and_eq_true_iff.mp hself).1
          subst htransfer
          exact hidle (.inl hself)
        exact if_neg fun hor => hor.elim hfrom hself
    | undelegatebw from_ receiver net cpu =>
      obtain ⟨u, sends, token, hr, -, rfl⟩ := commit_eq_ok.mp h
      obtain ⟨sym, -, -, hn, hc, -, hchange⟩ := undelegatebw_changebw hr
      obtain ⟨hothers, hsettled, hstake⟩ := changebw_schedule hchange
      -- taking back is never idle
      obtain ⟨hd, hne⟩ := changebw_deltas hchange
      exact .staked _ _ hothers hsettled fun hidle => absurd (.inr (undelegating hd hne hn hc)) hidle
    | refund owner =>
      obtain ⟨u, sends, token, hr, -, rfl⟩ := commit_eq_ok.mp h
      obtain ⟨q, amount, -, -, -, rfl, -⟩ := refund_cases hr
      -- the refund erases its row
      exact .paid owner rfl rfl
    | _ => cases hother

/-! ## Runs -/

/-- The accounts whose scheduled refund has been executed or has failed, and that have got no new
    one since. -/
def settledRecord (done : List Name) (_ : SystemState F) (e : ChainEvent F) (s' : SystemState F) :
    List Name :=
  match e with
  | .call _ => done.filter fun a => (s'.deferred.find? a).isNone
  | .execute _ sender | .fail sender => sender :: done

/-- The owner whose transaction is cancelled without a look at the row. -/
def cancels : ChainEvent F → Option Name
  | .call call => stakesElsewhere call.action
  | _ => none

/-- No accepted call gives stake to somebody else by or for an account whose refund is
    scheduled. -/
def KeepsRefund (s : SystemState F) (e : ChainEvent F) : Prop :=
  (s.chainStep e).isOk → ∀ owner ∈ cancels e, (s.refunds.find? owner).isSome → s.deferred.find? owner = none

instance (s : SystemState F) (e : ChainEvent F) : Decidable (KeepsRefund s e) := by
  unfold KeepsRefund
  infer_instance

/-- A row of refunds has its transaction, or the chain has taken it. -/
def RefundScheduled (s : SystemState F) (done : List Name) : Prop :=
  ∀ a, (s.refunds.find? a).isSome → (s.deferred.find? a).isSome ∨ a ∈ done

omit [Double F] in
/-- An account that is settled stays so while it has no transaction. -/
theorem mem_settled {s s' : SystemState F} {done : List Name} {call : SystemCall F} {a : Name} :
    (s'.deferred.find? a).isSome ∨ a ∈ done →
      (s'.deferred.find? a).isSome ∨ a ∈ settledRecord done s (.call call) s' := by
  cases ha : s'.deferred.find? a with
  | some d => exact fun _ => .inl rfl
  | none =>
    rintro (hsome | hmem)
    · cases hsome
    · exact .inr (List.mem_filter.mpr ⟨hmem, by rw [ha]; rfl⟩)

/-- A call that cancels no refund of others keeps the refunds scheduled. -/
theorem call_refundScheduled {s s' : SystemState F} {done : List Name} {call : SystemCall F}
    (hI : RefundScheduled s done) (hkeeps : KeepsRefund s (.call call)) (h : s.step call = .ok s') :
    RefundScheduled s' (settledRecord done s (.call call) s') := by
  intro a ha
  apply mem_settled
  -- the same rows and transactions
  have hsame : s'.schedule = s.schedule → (s'.deferred.find? a).isSome ∨ a ∈ done := by
    intro heq
    have hrefunds : s'.refunds = s.refunds := congrArg Schedule.refunds heq
    have hdeferred : s'.deferred = s.deferred := congrArg Schedule.deferred heq
    rw [hdeferred]
    exact hI a (hrefunds ▸ ha)
  cases step_schedule h with
  | same same => exact hsame same
  | paid owner action schedule =>
    -- the refund that has been paid has no row any more
    have hrefunds : s'.refunds = s.refunds.erase owner := congrArg Schedule.refunds schedule
    have hdeferred : s'.deferred = s.deferred := congrArg Schedule.deferred schedule
    rw [hdeferred]
    rw [hrefunds, Table.find?_erase] at ha
    split at ha
    · cases ha
    · exact hI a ha
  | staked owner looks others settled elsewhere =>
    -- the account whose stake has moved
    by_cases howner : a = owner
    · subst howner
      cases settled with
      | none same => exact hsame same
      -- the row that is left has its transaction
      | kept looks row => exact .inl (row ha)
      | cancelled idle refunds deferred =>
        have hrefunds : s'.refunds = s.refunds := refunds
        rcases elsewhere idle with heq | helse
        · exact hsame heq
        · -- the row was there, so its transaction had been taken
          have hrow : (s.refunds.find? a).isSome := hrefunds ▸ ha
          have hnone := hkeeps (Run.isOk_of_ok h) a helse hrow
          rcases hI a hrow with hsome | hmem
          · rw [hnone] at hsome
            cases hsome
          · exact .inr hmem
    · -- the other accounts
      obtain ⟨hrefunds, hdeferred⟩ := others a howner
      rw [hdeferred]
      rw [hrefunds] at ha
      exact hI a ha

omit [Double F] in
theorem takeDeferred_spec {s u : SystemState F} {sender : Name} {trx : DeferredRefund}
    (h : s.takeDeferred sender = .ok (u, trx)) :
    u = { s with deferred := s.deferred.erase sender } := by
  simp only [takeDeferred, bind_eq_ok, pure_eq_ok, Prod.mk.injEq] at h
  obtain ⟨_, -, rfl, -⟩ := h
  rfl

omit [Double F] in
/-- The transaction of another account is left alone. -/
theorem taken_refundScheduled {s : SystemState F} {done : List Name}
    (hI : RefundScheduled s done) (sender : Name) :
    RefundScheduled { s with deferred := s.deferred.erase sender } (sender :: done) := by
  intro a ha
  by_cases hsender : a = sender
  · exact .inr (hsender ▸ List.mem_cons_self)
  · show ((s.deferred.erase sender).find? a).isSome ∨ _
    rw [Table.find?_erase_ne _ hsender]
    exact (hI a ha).imp id (List.mem_cons_of_mem sender)

/-- What the chain executes, or fails to, is settled. -/
theorem chainStep_refundScheduled {s s' : SystemState F} {done : List Name} {e : ChainEvent F}
    (hI : RefundScheduled s done) (hkeeps : KeepsRefund s e) (h : s.chainStep e = .ok s') :
    RefundScheduled s' (settledRecord done s e s') := by
  cases e with
  -- a call of an account
  | call call => exact call_refundScheduled hI hkeeps h
  | execute ctx sender =>
    simp only [chainStep, bind_eq_ok, pure_eq_ok] at h
    obtain ⟨⟨u, trx⟩, htake, rfl⟩ := h
    -- the transaction is taken from the queue
    have htaken := taken_refundScheduled hI sender
    rw [← takeDeferred_spec htake] at htaken
    intro a ha
    -- a refund that is paid takes its row along
    cases hs : u.step ⟨ctx.withAuth [trx.owner], .refund trx.owner⟩ with
    | error msg =>
      rw [Run.next_of_error hs] at ha ⊢
      exact htaken a ha
    | ok v =>
      rw [Run.next_of_ok hs] at ha ⊢
      have hpaid : v.schedule = ⟨u.refunds.erase trx.owner, u.deferred⟩ := by
        obtain ⟨w, sends, token, hr, -, rfl⟩ := commit_eq_ok.mp hs
        obtain ⟨q, amount, -, -, -, rfl, -⟩ := refund_cases hr
        rfl
      have hrefunds : v.refunds = u.refunds.erase trx.owner := congrArg Schedule.refunds hpaid
      have hdeferred : v.deferred = u.deferred := congrArg Schedule.deferred hpaid
      rw [hdeferred]
      rw [hrefunds, Table.find?_erase] at ha
      split at ha
      · cases ha
      · exact htaken a ha
  -- the chain drops the transaction
  | fail sender =>
    simp only [chainStep, bind_eq_ok, pure_eq_ok] at h
    obtain ⟨⟨u, trx⟩, htake, rfl⟩ := h
    rw [takeDeferred_spec htake]
    exact taken_refundScheduled hI _

/-- In every run from a state without refunds in which no stake is given to somebody else by or for
    an account whose refund is scheduled: an account with a row of refunds has its transaction, unless
    the chain has taken it. -/
theorem refund_scheduled {s : SystemState F} (hs : s.refunds = ∅) {events : List (ChainEvent F)}
    (h : Run.Meets chainStep KeepsRefund s events) :
    let r := Run.exec (Run.observed chainStep settledRecord) (s, []) events
    RefundScheduled r.1 r.2 := by
  apply Run.exec_of_meets (I := fun p => RefundScheduled p.1 p.2) _ _
    (Run.meets_observed settledRecord [] h)
  · intro p e q hI hkeeps hq
    obtain ⟨hstep, hrecord⟩ := Run.observed_eq_ok hq
    rw [hrecord]
    exact chainStep_refundScheduled hI hkeeps hstep
  · intro a ha
    have hnone : s.refunds.find? a = none := by
      rw [hs]
      exact Table.find?_empty a
    have ha : (s.refunds.find? a).isSome := ha
    rw [hnone] at ha
    cases ha

/-! ## Samples -/

namespace Sample

/-- The chain is activated, and alice takes back some of her stake. -/
def withdrawing : List (ChainEvent Rat) :=
  [.call ⟨ctx [eosioAccount] launch,
      .delegatebw eosioAccount eosioAccount (utx 1000000000000) (utx 500000000000) false⟩,
    .call ⟨ctx [eosioAccount] launch, .voteproducer eosioAccount ⟨0⟩ []⟩,
    .call ⟨ctx [alice] launch, .delegatebw alice alice (utx 300) (utx 200) false⟩,
    .call ⟨ctx [alice] (launch + 60), .undelegatebw alice alice (utx 100) (utx 100)⟩]

/-- Somebody else gives alice a stake. -/
def gift : ChainEvent Rat :=
  .call ⟨ctx [eosioAccount] (launch + 120), .delegatebw eosioAccount alice (utx 10) (utx 10) true⟩

/-- The record of a run from the start. -/
def recorded (events : List (ChainEvent Rat)) : SystemState Rat × List Name :=
  Run.exec (Run.observed chainStep settledRecord) (start, []) events

end Sample

open Sample in
/-- The gift cancels the transaction that is to pay alice's refund. -/
theorem gift_cancels_refund :
    ((recorded withdrawing).1.deferred.find? alice).isSome ∧
    ((recorded (withdrawing ++ [gift])).1.refunds.find? alice).isSome ∧
    (recorded (withdrawing ++ [gift])).1.deferred.find? alice = none ∧
    (recorded (withdrawing ++ [gift])).2 = [] := by
  decide +kernel

open Sample in
/-- Without the gift, alice's refund stays scheduled. -/
theorem refund_scheduled_sample : RefundScheduled (recorded withdrawing).1 (recorded withdrawing).2 :=
  refund_scheduled (Table.eq_empty_of_size (by decide +kernel)) (by decide +kernel)

end SystemState

end UxContracts
