import UxContracts.Native.Election
import UxContracts.Spec.AuctionChange
import UxContracts.Spec.SelfStake

/-!
# What a call does to the election

A call registers a producer with an authority, deactivates one, proposes a schedule, or is an
action of the system contract that leaves the status of every producer and the size of the
schedule alone (`ElectionChange`). The size of the schedule never decreases.
-/

namespace UxContracts

namespace SystemState

variable {F : Type}

/-! ## The size of the schedule -/

def scheduleSize (s : SystemState F) : UInt16 := s.gstate.lastProducerScheduleSize

theorem RamGrowth.scheduleSize {s s' : SystemState F} (h : RamGrowth s s') :
    s'.scheduleSize = s.scheduleSize := by
  rw [h.eq]
  rfl

/-- Trading RAM leaves the size of the last schedule alone. -/
theorem buyram_scheduleSize {ctx : Context} {s s' : SystemState F} {payer receiver : Name}
    {q : Asset} {sends : List InlineAction}
    (h : s.buyram ctx payer receiver q = .ok (s', sends)) :
    s'.scheduleSize = s.scheduleSize := by
  obtain ⟨s₁, res, limits, hsup, -, -, -, -, -, rfl, -⟩ := buyram_spec h
  exact (updateRamSupply_spec hsup).scheduleSize

theorem sellram_scheduleSize {ctx : Context} {s s' : SystemState F} {account : Name}
    {bytes : Int64} {sends : List InlineAction}
    (h : s.sellram ctx account bytes = .ok (s', sends)) : s'.scheduleSize = s.scheduleSize := by
  obtain ⟨s₁, res, limits, hsup, -, -, -, -, -, rfl, -⟩ := sellram_spec h
  exact (updateRamSupply_spec hsup).scheduleSize

/-- What a vote writes leaves the size of the last schedule alone. -/
theorem scheduleSize_votingRel :
    VotingRel fun s s' : SystemState F => s'.scheduleSize = s.scheduleSize where
  refl _ := rfl
  trans h h' := h'.trans h
  votes _ _ _ _ _ _ := rfl
  votepay _ _ _ _ := rfl
  weights _ _ _ _ _ _ := rfl

variable [Double F]

/-- `update_votes` leaves the size of the last schedule alone. -/
theorem updateVotes_scheduleSize {ctx : Context} {s s' : SystemState F} {voterName proxy : Name}
    {producers : List Name} {voting : Bool}
    (h : s.updateVotes ctx voterName proxy producers voting = .ok s') :
    s'.scheduleSize = s.scheduleSize := by
  obtain ⟨voter, voter', u, -, hu, -, rfl⟩ := scheduleSize_votingRel.updateVotes h
  have hactivate : (s.activateStake ctx voter).scheduleSize = s.scheduleSize := by
    unfold activateStake
    split
    · rfl
    · rfl
  exact hu.trans hactivate

/-- A vote that is cast again leaves the size of the last schedule alone. -/
theorem updateVotingPower_scheduleSize {ctx : Context} {s s' : SystemState F} {voter : Name}
    {total : Asset} (h : s.updateVotingPower ctx voter total = .ok s') :
    s'.scheduleSize = s.scheduleSize := by
  obtain ⟨v, -, -, ⟨-, h⟩ | rfl⟩ := updateVotingPower_cases h
  · have hsize := updateVotes_scheduleSize h
    exact hsize
  · rfl

/-- A change of stake leaves the size of the last schedule alone. -/
theorem changebw_scheduleSize {ctx : Context} {s s' : SystemState F} {from_ receiver : Name}
    {n c : Asset} {transfer : Bool} {sends : List InlineAction} (hrex : s.rexbalance = ∅)
    (h : s.changebw ctx from_ receiver n c transfer = .ok (s', sends)) :
    s'.scheduleSize = s.scheduleSize := by
  obtain ⟨total, s₀, tot, refunds, deferred, -, -, -, -, hvote⟩ := changebw_blocks hrex h
  have hsize := updateVotingPower_scheduleSize hvote
  exact hsize

theorem regproxy_scheduleSize {ctx : Context} {s s' : SystemState F} {proxy : Name}
    {isproxy : Bool} (h : s.regproxy ctx proxy isproxy = .ok s') :
    s'.scheduleSize = s.scheduleSize := by
  obtain ⟨voter, -, -, h⟩ | ⟨-, rfl⟩ := regproxy_cases h
  · have hsize := scheduleSize_votingRel.propagateWeightChange h
    exact hsize
  · rfl

/-- No action of the system contract sets the size. -/
theorem step_scheduleSize {s s' : SystemState F} {ctx : Context} {a : SystemAction F}
    (direct : a.isDirect) (hrex : s.rexbalance = ∅) (h : s.step ⟨ctx, a⟩ = .ok s') :
    s'.scheduleSize = s.scheduleSize := by
  cases a with
  | init version core =>
    -- the schedule has no part in the actions of accounts and of RAM
    obtain ⟨u, sends, token, hr, -, rfl⟩ := commit_eq_ok.mp h
    obtain ⟨m, -, -, -, rfl, -⟩ := init_spec hr
    rfl
  | newaccount creator newact =>
    obtain ⟨zero, bids, limits, -, -, -, rfl⟩ := newaccount_spec h
    rfl
  | setram maxRamSize =>
    obtain ⟨m, m', -, -, -, -, rfl⟩ := setram_spec h
    rfl
  | setramrate bytesPerBlock =>
    obtain ⟨-, u, hsup, rfl⟩ := setramrate_spec h
    exact (updateRamSupply_spec hsup).scheduleSize
  | buyram payer receiver quant =>
    obtain ⟨u, sends, token, hr, -, rfl⟩ := commit_eq_ok.mp h
    show u.scheduleSize = s.scheduleSize
    exact buyram_scheduleSize hr
  | buyrambytes payer receiver bytes =>
    obtain ⟨u, sends, token, hr, -, rfl⟩ := commit_eq_ok.mp h
    show u.scheduleSize = s.scheduleSize
    exact buyram_scheduleSize (buyrambytes_spec hr)
  | sellram account bytes =>
    obtain ⟨u, sends, token, hr, -, rfl⟩ := commit_eq_ok.mp h
    show u.scheduleSize = s.scheduleSize
    -- a change of stake may vote again, which keeps the size
    exact sellram_scheduleSize hr
  | delegatebw from_ receiver net cpu transfer =>
    obtain ⟨u, sends, token, hr, -, rfl⟩ := commit_eq_ok.mp h
    obtain ⟨sym, -, -, -, -, hr⟩ := delegatebw_changebw hr
    show u.scheduleSize = s.scheduleSize
    exact changebw_scheduleSize hrex hr
  | undelegatebw from_ receiver net cpu =>
    obtain ⟨u, sends, token, hr, -, rfl⟩ := commit_eq_ok.mp h
    obtain ⟨sym, -, -, -, -, -, hr⟩ := undelegatebw_changebw hr
    show u.scheduleSize = s.scheduleSize
    exact changebw_scheduleSize hrex hr
  | refund owner =>
    obtain ⟨u, sends, token, hr, -, rfl⟩ := commit_eq_ok.mp h
    obtain ⟨q, amount, -, -, -, rfl, -⟩ := refund_cases hr
    rfl
  | voteproducer voterName proxy producers =>
    exact updateVotes_scheduleSize (voteproducer_updateVotes hrex h)
  | regproxy proxy isproxy => exact regproxy_scheduleSize h
  | token action =>
    obtain ⟨token, -, rfl⟩ := step_token_spec h
    rfl
  | producers producers producers2 scheduleSize => cases direct

/-- A registration leaves the size of the last schedule alone. -/
theorem registerProducer_scheduleSize {ctx : Context} {s s' : SystemState F} {producer : Name}
    (h : s.registerProducer ctx producer = .ok s') : s'.scheduleSize = s.scheduleSize := by
  simp only [registerProducer, bind_eq_ok] at h
  obtain ⟨_, -, h⟩ := h
  split at h
  · rename_i info hinfo
    rw [pure_eq_ok] at h
    subst h
    simp only [reactivate]
    split
    · rfl
    · rfl
  · simp only [bind_eq_ok, pure_eq_ok] at h
    obtain ⟨producers2, -, rfl⟩ := h
    rfl

end SystemState

namespace AuctionState

variable {F : Type} [Double F]

/-- At most 21 producers are scheduled. -/
theorem topProducers_le (s : AuctionState F) : s.topProducers ≤ 21 :=
  List.length_take_le 21 _

/-- A schedule that is proposed is not smaller than the last one. -/
theorem updateElectedProducers_scheduleSize (s : AuctionState F) (blockTime : BlockTimestamp)
    (accepted : Bool) :
    s.sys.scheduleSize.toNat ≤ (s.updateElectedProducers blockTime accepted).sys.scheduleSize.toNat := by
  have hle := s.topProducers_le
  simp only [updateElectedProducers]
  split
  · exact le_refl _
  · rename_i hcond
    split
    · show s.sys.gstate.lastProducerScheduleSize.toNat ≤ (s.topProducers.toUInt16).toNat
      -- at most 21 producers are counted, so 16 bits are enough
      have hfits : s.topProducers.toUInt16.toNat = s.topProducers := by
        show (UInt16.ofNat s.topProducers).toNat = s.topProducers
        rw [UInt16.toNat_ofNat']
        omega
      rw [hfits]
      exact Nat.le_of_not_lt fun hlt => hcond (.inr hlt)
    · exact le_refl _

/-- A block does not make the schedule smaller. -/
theorem onblock_scheduleSize {ctx : Context} {s s' : AuctionState F} {timestamp : BlockTimestamp}
    {accepted : Bool} {sends : List InlineAction}
    (h : s.onblock ctx timestamp accepted = .ok (s', sends)) :
    s.sys.scheduleSize.toNat ≤ s'.sys.scheduleSize.toNat := by
  obtain ⟨s₁, hs₁, hcases⟩ := onblock_cases h
  have hsize : s.sys.scheduleSize.toNat ≤ s₁.sys.scheduleSize.toNat := by
    rcases hs₁ with rfl | rfl
    · exact le_refl _
    · exact s.updateElectedProducers_scheduleSize timestamp accepted
  rcases hcases with ⟨rfl, -⟩ | ⟨-, hclose⟩
  · exact hsize
  · rcases closeAuction_spec hclose with ⟨rfl, -⟩ |
      ⟨newname, highest, sym, memo, -, -, -, -, -, -, rfl, -⟩
    · exact hsize
    · exact hsize

end AuctionState

namespace ElectionAction

variable {F K : Type}

/-- The authority that an action gives to a producer. -/
def given : ElectionAction F K → Option (Name × BlockSigningAuthority K)
  | .regproducer producer producerKey _ _ =>
    some (producer, convertToBlockSigningAuthority producerKey)
  | .regproducer2 producer producerAuthority _ _ => some (producer, producerAuthority)
  | _ => none

end ElectionAction

namespace ElectionState

open SystemState (StatusChange)
open AuctionState (SameSystem)

variable {F K : Type} [Inhabited K]

/-- The authority in the row of a producer. -/
def authorityOf (w : ElectionState F K) (producer : Name) : Option (BlockSigningAuthority K) :=
  (w.signingOf producer).producerAuthority

theorem signingOf_set (w : ElectionState F K) (p q : Name) (signing : Signing K)
    (auction : AuctionState F) :
    (ElectionState.mk auction (w.signing.set p signing)).signingOf q =
      if q = p then signing else w.signingOf q := by
  unfold signingOf
  rw [Table.find?_set]
  split
  · rfl
  · rfl

/-! ## Blocks -/

/-- Counting a block keeps the authorities. -/
theorem countBlock_spec (w : ElectionState F K) (producer : Name) :
    (w.countBlock producer).auction = w.auction ∧
      ∀ q, (w.countBlock producer).authorityOf q = w.authorityOf q := by
  unfold countBlock
  split
  · refine ⟨rfl, fun q => ?_⟩
    show (signingOf (ElectionState.mk w.auction (w.signing.set producer _)) q).producerAuthority = _
    rw [signingOf_set]
    split
    · rename_i hq
      rw [hq]
      rfl
    · rfl
  · exact ⟨rfl, fun _ => rfl⟩

variable [Double F]

/-- Each row that is read is scheduled. -/
theorem length_topProducers (w : ElectionState F K) :
    w.topProducers.length = w.auction.topProducers :=
  List.length_map _

/-- A schedule is proposed unless it would be empty or smaller than the last one. -/
theorem proposedSchedule_eq_none {w : ElectionState F K} : w.proposedSchedule = none ↔
    w.auction.topProducers = 0 ∨ w.auction.topProducers < w.sys.scheduleSize.toNat := by
  simp only [proposedSchedule, length_topProducers]
  split
  · rename_i hcond
    exact iff_of_true rfl hcond
  · rename_i hcond
    refine iff_of_false ?_ hcond
    intro h
    cases h

/-- A proposed schedule has all rows that are read. -/
theorem length_of_proposed {w : ElectionState F K} {schedule : List (ProducerAuthority K)}
    (h : w.proposedSchedule = some schedule) : schedule.length = w.auction.topProducers := by
  simp only [proposedSchedule] at h
  split at h
  · cases h
  · rw [Option.some.injEq] at h
    rw [← h, List.length_map, List.length_insertionSort, length_topProducers]

/-- Scheduling is what it is without the authorities. -/
theorem updateElectedProducers_spec (w : ElectionState F K) (blockTime : BlockTimestamp)
    (accepted : Bool) :
    (w.updateElectedProducers blockTime accepted).auction =
        w.auction.updateElectedProducers blockTime accepted ∧
      (w.updateElectedProducers blockTime accepted).signing = w.signing := by
  simp only [updateElectedProducers, AuctionState.updateElectedProducers]
  split
  · rename_i hnone
    have hcond := proposedSchedule_eq_none.mp hnone
    refine ⟨?_, rfl⟩
    -- too few producers, and none is proposed
    symm
    exact if_pos hcond
  · rename_i schedule hsome
    -- a schedule is proposed, and its length is the number of producers
    rw [length_of_proposed hsome]
    have hcond := fun h => Option.some_ne_none schedule
      (hsome.symm.trans (proposedSchedule_eq_none.mpr h))
    cases accepted with
    -- the chain has taken the schedule, or not
    | true =>
      refine ⟨?_, rfl⟩
      symm
      exact if_neg hcond
    | false =>
      refine ⟨?_, rfl⟩
      symm
      exact if_neg hcond

/-- A block does what it does without the authorities, and keeps them. -/
theorem onblock_spec {ctx : Context} {w w' : ElectionState F K} {timestamp : BlockTimestamp}
    {producer : Name} {accepted : Bool} {sends : List InlineAction}
    (h : w.onblock ctx timestamp producer accepted = .ok (w', sends)) :
    w.auction.onblock ctx timestamp accepted = .ok (w'.auction, sends) ∧
      ∀ q, w'.authorityOf q = w.authorityOf q := by
  -- counting the block changes what only it reads, and no authority
  obtain ⟨hcount, hauthority⟩ := w.countBlock_spec producer
  obtain ⟨helected, hsigning⟩ := (w.countBlock producer).updateElectedProducers_spec timestamp
    accepted
  rw [hcount] at helected
  have hauthority' (q : Name) : ((w.countBlock producer).updateElectedProducers timestamp
      accepted).authorityOf q = w.authorityOf q := by
    rw [← hauthority q]
    unfold authorityOf signingOf
    rw [hsigning]
  -- both readings start with the same authority check
  simp only [onblock, bind_eq_ok] at h
  obtain ⟨_, hauth, h⟩ := h
  simp only [AuctionState.onblock, bind_eq_ok]
  -- the branches of the two readings of `onblock` are taken together
  suffices hcases : _ ∧ _ from ⟨⟨(), hauth, hcases.1⟩, hcases.2⟩
  split at h
  · -- before the activation nothing happens
    rename_i hinactive
    simp only [pure_eq_ok, Prod.mk.injEq] at h
    obtain ⟨rfl, rfl⟩ := h
    exact ⟨if_pos hinactive, fun _ => rfl⟩
  · rename_i hactive
    change ¬ w.auction.sys.gstate.threshActivatedStakeTime = 0 at hactive
    rw [hcount] at h
    split at h
    · -- a minute has passed, and the producers are elected
      rename_i hminute
      rw [helected] at h
      split at h
      · -- a day has passed, and the highest bid is closed
        rename_i hday
        simp only [bind_eq_ok, pure_eq_ok, Prod.mk.injEq] at h
        obtain ⟨⟨auction, sends'⟩, hclose, rfl, rfl⟩ := h
        refine ⟨?_, hauthority'⟩
        rw [if_neg hactive, if_pos hminute, if_pos hday]
        exact hclose
      · -- no auction is closed
        rename_i hday
        simp only [pure_eq_ok, Prod.mk.injEq] at h
        obtain ⟨rfl, rfl⟩ := h
        refine ⟨?_, hauthority'⟩
        rw [if_neg hactive, if_pos hminute, if_neg hday, helected]
        rfl
    · -- within a minute only the block is counted
      rename_i hminute
      simp only [pure_eq_ok, Prod.mk.injEq] at h
      obtain ⟨rfl, rfl⟩ := h
      refine ⟨?_, hauthority⟩
      rw [if_neg hactive, if_neg hminute, hcount]
      rfl

/-! ## One call -/

/-- What a successful call did: a producer was registered or deactivated, a schedule may have been
    proposed, or the status of the producers and their authorities are the same. -/
inductive ElectionChange (w : ElectionState F K) (call : ElectionCall F K)
    (w' : ElectionState F K) : Prop
  | registered (p : Name) (a : BlockSigningAuthority K) (given : call.action.given = some (p, a))
      (threshold : a.threshold ≠ 0) (change : StatusChange w.sys w'.sys p true)
      (size : w'.sys.scheduleSize = w.sys.scheduleSize)
      (authority : ∀ q, w'.authorityOf q = if q = p then some a else w.authorityOf q)
  | deactivated (p : Name) (given : call.action.given = none)
      (change : StatusChange w.sys w'.sys p false)
      (size : w'.sys.scheduleSize = w.sys.scheduleSize)
      (authority : ∀ q, q ≠ p → w'.authorityOf q = w.authorityOf q)
  | scheduled (given : call.action.given = none) (same : SameSystem w.sys w'.sys)
      (size : w.sys.scheduleSize.toNat ≤ w'.sys.scheduleSize.toNat)
      (authority : ∀ q, w'.authorityOf q = w.authorityOf q)
  | system (a : SystemAction F) (direct : a.isDirect) (given : call.action.given = none)
      (step : w.sys.step ⟨call.ctx, a⟩ = .ok w'.sys)
      (authority : ∀ q, w'.authorityOf q = w.authorityOf q)

/-- A registration gives the producer its authority and activates it. -/
theorem registerProducer_change {w w' : ElectionState F K} {call : ElectionCall F K} {p : Name}
    {a : BlockSigningAuthority K} {url : String} {location : UInt16}
    (hgiven : call.action.given = some (p, a)) (hthreshold : a.threshold ≠ 0)
    (h : w.registerProducer call.ctx p a url location = .ok w') : ElectionChange w call w' := by
  simp only [registerProducer, bind_eq_ok, pure_eq_ok] at h
  obtain ⟨sys, hsys, rfl⟩ := h
  refine .registered p a hgiven hthreshold (SystemState.registerProducer_spec hsys).2
    (SystemState.registerProducer_scheduleSize hsys) fun q => ?_
  unfold authorityOf
  rw [signingOf_set]
  split
  · rfl
  · rfl

omit [Double F] in
/-- The authorities of the others are kept. -/
theorem deactivate_authority (w : ElectionState F K) {p q : Name} (prod : ProducerInfo F)
    (h : q ≠ p) : (w.deactivate p prod).authorityOf q = w.authorityOf q := by
  show ((ElectionState.mk _ (w.signing.set p _)).signingOf q).producerAuthority = _
  rw [signingOf_set, if_neg h]
  rfl

/-- A producer that is taken out is not active any more. -/
theorem deactivate_electionChange {w : ElectionState F K} {call : ElectionCall F K} {p : Name}
    {prod : ProducerInfo F} (hgiven : call.action.given = none)
    (hprod : w.sys.producers.find? p = some prod) : ElectionChange w call (w.deactivate p prod) :=
  .deactivated p hgiven (SystemState.deactivate_change hprod) rfl fun _ hq =>
    w.deactivate_authority prod hq

/-- Every call changes the election in one of these ways. -/
theorem run_change {isValid : BlockSigningAuthority K → Bool}
    (hvalid : ∀ a, isValid a = true → a.threshold ≠ 0) {w w' : ElectionState F K}
    {call : ElectionCall F K} (h : w.run isValid call = .ok w') : ElectionChange w call w' := by
  obtain ⟨ctx, action⟩ := call
  cases action with
  | regproducer producer producerKey url location =>
    simp only [run, regproducer, bind_eq_ok] at h
    obtain ⟨_, -, _, -, h⟩ := h
    -- a single key has the threshold one
    have hone : (convertToBlockSigningAuthority producerKey).threshold ≠ 0 := by
      show (1 : UInt32) ≠ 0
      decide
    exact registerProducer_change rfl hone h
  | regproducer2 producer producerAuthority url location =>
    simp only [run, regproducer2, bind_eq_ok, check_eq_ok] at h
    obtain ⟨_, -, _, -, _, hcheck, h⟩ := h
    exact registerProducer_change rfl (hvalid producerAuthority hcheck) h
  | unregprod producer =>
    simp only [run, unregprod, bind_eq_ok, getRow_eq_ok, pure_eq_ok] at h
    obtain ⟨_, -, prod, hprod, rfl⟩ := h
    exact deactivate_electionChange rfl hprod
  -- `rmvproducer` differs from `unregprod` in who may call it
  | rmvproducer producer =>
    simp only [run, rmvproducer, bind_eq_ok, getRow_eq_ok, pure_eq_ok] at h
    obtain ⟨_, -, prod, hprod, rfl⟩ := h
    exact deactivate_electionChange rfl hprod
  | onblock timestamp producer accepted =>
    simp only [run, commit, bind_eq_ok, pure_eq_ok] at h
    obtain ⟨⟨u, sends⟩, hblock, token, htoken, rfl⟩ := h
    obtain ⟨hauction, hauthority⟩ := onblock_spec hblock
    -- the auctions see the same block
    have hstep : w.auction.step ⟨ctx, .onblock timestamp accepted⟩ =
        .ok { u.auction with sys := { u.auction.sys with token := token } } := by
      simp only [AuctionState.step, AuctionState.commit, bind_eq_ok, pure_eq_ok]
      exact ⟨_, hauction, token, htoken, rfl⟩
    -- a block is no bid, no refund and no action of the system contract
    have hsame : SameSystem w.auction.sys { u.auction.sys with token := token } := by
      cases AuctionState.onblock_change hstep with
      | closed _ _ _ _ _ _ _ _ _ _ _ _ _ same => exact same
      | idle _ _ _ _ _ _ same => exact same
      | first _ _ _ _ action => cases action
      | outbid _ _ _ _ _ action => cases action
      | refunded _ _ _ _ action => cases action
      | system _ action => cases action
    have hsize := AuctionState.onblock_scheduleSize hauction
    exact .scheduled rfl hsame hsize hauthority
  | system action direct =>
    -- the system contract acts on its own state
    simp only [run, bind_eq_ok, pure_eq_ok] at h
    obtain ⟨sys, hsys, rfl⟩ := h
    exact .system action direct rfl hsys fun _ => rfl

/-- Every row has a number of votes after a call. -/
theorem step_eq_ok {isValid : BlockSigningAuthority K → Bool} {w w' : ElectionState F K}
    {call : ElectionCall F K} (h : w.step isValid call = .ok w') :
    w.run isValid call = .ok w' ∧
      ∀ r ∈ w'.sys.producers.rows, Double.isNumber r.2.totalVotes := by
  simp only [step, bind_eq_ok, check_eq_ok, pure_eq_ok] at h
  obtain ⟨u, hrun, _, hnum, rfl⟩ := h
  exact ⟨hrun, hnum⟩

end ElectionState

end UxContracts
