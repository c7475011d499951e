import UxContracts.Spec.Solvency

/-!
# All that is due can be paid

The four accounts hold what they owe (`Solvent`), so nobody has to be first: whatever refunds,
outbid bids, producer rewards and RAM sales are due, all of them can be demanded one after the
other, in any order (`payouts_in_any_order`). A demand is for one row (`Demand.row`) and leaves
the others as they are.
-/

namespace UxContracts

/-- A payment that an account can demand. -/
inductive Payout where
  | refund (owner : Name)
  | bidrefund (bidder newname : Name)
  | claimrewards (owner : Name)
  | sellram (account : Name) (bytes : Int64)

/-- The row that a payment is taken from. -/
inductive PayoutRow where
  | refund (owner : Name)
  | bidRefund (bidder newname : Name)
  | prodpay (owner : Name)
  | userres (account : Name)
deriving DecidableEq

namespace Payout

def row : Payout → PayoutRow
  | .refund owner => .refund owner
  | .bidrefund bidder newname => .bidRefund bidder newname
  | .claimrewards owner => .prodpay owner
  | .sellram account _ => .userres account

def claimant : Payout → Name
  | .refund owner => owner
  | .bidrefund bidder _ => bidder
  | .claimrewards owner => owner
  | .sellram account _ => account

def action {F K H : Type} : Payout → DeploymentAction F K H
  | .refund owner => .election (.system (.refund owner) rfl)
  | .bidrefund bidder newname => .bidrefund bidder newname
  | .claimrewards owner => .resource (.claimrewards owner) rfl
  | .sellram account bytes => .election (.system (.sellram account bytes) rfl)

end Payout

/-- A payout with the context in which it is demanded. -/
structure Demand where
  ctx : Context
  payout : Payout

namespace Demand

variable {F K H : Type}

def call (p : Demand) : DeploymentCall F K H := ⟨p.ctx, p.payout.action⟩

/-- The claimant exists and has signed, and nobody has signed for the four accounts. -/
structure Signed (p : Demand) : Prop where
  auth : p.payout.claimant ∈ p.ctx.auth
  account : p.ctx.isAccount p.payout.claimant
  keyless : ∀ o ∈ escrowAccounts, o ∉ p.ctx.auth

/-- There is something to be paid: a refund is mature, a bid has been outbid, a producer has
    earned something, or an account has the bytes it sells. -/
def Due (d : Deployment F K H) (p : Demand) : Prop :=
  match p.payout with
  | .refund owner => ∃ q ∈ d.sys.refunds.find? owner,
      TimePoint.ofSec q.requestTime + TimePoint.ofSec refundDelaySec ≤ p.ctx.now
  | .bidrefund bidder newname => ∃ amount, d.auction.bidRefunds.find? ⟨newname, bidder⟩ = some amount
  | .claimrewards owner => ∃ pay ∈ d.prodpay.find? owner, 0 < pay.amount
  | .sellram account bytes => ∃ u ∈ d.sys.userres.find? account, 0 < bytes.toInt ∧
      bytes % 1024 = 0 ∧ bytes.toInt ≤ u.ramBytes.toInt

end Demand

namespace Deployment

open SystemState

variable {F K H : Type}

/-! ## The votes of the producers -/

/-- Every row of a producer has a number of votes. -/
def Numbers [Double F] (d : Deployment F K H) : Prop :=
  ∀ r ∈ d.sys.producers.rows, Double.isNumber r.2.totalVotes

namespace Numbers

variable [Double F]

theorem of_eq {d d' : Deployment F K H} (hI : Numbers d)
    (h : d'.sys.producers = d.sys.producers) : Numbers d' := by
  unfold Numbers
  rw [h]
  exact hI

/-- A refund leaves the producers alone. -/
theorem refund_producers {s s' : SystemState F} {ctx : Context} {owner : Name}
    (h : s.step ⟨ctx, .refund owner⟩ = .ok s') : s'.producers = s.producers := by
  obtain ⟨u, sends, token, hr, -, rfl⟩ := commit_eq_ok.mp h
  obtain ⟨q, amount, -, -, -, rfl, -⟩ := refund_cases hr
  rfl

omit [Double F] in
theorem takeDeferred_producers {s s' : SystemState F} {sender : Name} {trx : DeferredRefund}
    (h : s.takeDeferred sender = .ok (s', trx)) : s'.producers = s.producers := by
  simp only [takeDeferred, bind_eq_ok, pure_eq_ok, Prod.mk.injEq] at h
  obtain ⟨_, -, rfl, -⟩ := h
  rfl

variable [Inhabited K] [Checksum H]

/-- A call keeps the votes numbers. -/
theorem step {isValid : BlockSigningAuthority K → Bool} {d d' : Deployment F K H}
    {call : DeploymentCall F K H} (hI : Numbers d) (hT : d.sys.token.Inv)
    (h : d.step isValid call = .ok d') : Numbers d' := by
  -- limits are no part of the rows of the producers
  have hacct : ∀ {ctx : Context} {q : Quota} {account : Name} {value : Option Int64}
      {s' : SystemState F}, d.sys.setacct ctx q account value = .ok s' →
      s'.producers = d.sys.producers := by
    intro ctx q account value s' h
    obtain ⟨v, -, rfl, -⟩ := setacct_spec h
    rfl
  obtain ⟨ctx, action⟩ := call
  cases action with
  | election action =>
    -- the chain has looked at the rows
    simp only [Deployment.step, bind_eq_ok, pure_eq_ok] at h
    obtain ⟨w, hw, rfl⟩ := h
    exact (ElectionState.step_eq_ok hw).2
  | bidname bidder newname bid =>
    simp only [Deployment.step, bind_eq_ok, pure_eq_ok] at h
    obtain ⟨auction, hauction, rfl⟩ := h
    -- the auctions do not write the rows
    refine hI.of_eq ?_
    rw [sys_setAuction, (AuctionState.step_tokens rfl hauction).1]
    rfl
  | bidrefund bidder newname =>
    simp only [Deployment.step, bind_eq_ok, pure_eq_ok] at h
    obtain ⟨auction, hauction, rfl⟩ := h
    refine hI.of_eq ?_
    rw [sys_setAuction, (AuctionState.step_tokens rfl hauction).1]
    rfl
  | setacctram account ramBytes =>
    simp only [Deployment.step, bind_eq_ok, pure_eq_ok] at h
    obtain ⟨sys, hsys, rfl⟩ := h
    exact hI.of_eq (hacct hsys)
  | setacctnet account netWeight =>
    simp only [Deployment.step, bind_eq_ok, pure_eq_ok] at h
    obtain ⟨sys, hsys, rfl⟩ := h
    exact hI.of_eq (hacct hsys)
  | setacctcpu account cpuWeight =>
    simp only [Deployment.step, bind_eq_ok, pure_eq_ok] at h
    obtain ⟨sys, hsys, rfl⟩ := h
    exact hI.of_eq (hacct hsys)
  | resource action own =>
    -- the other contract sends inline actions only
    simp only [Deployment.step, bind_eq_ok, pure_eq_ok] at h
    obtain ⟨r, hr, rfl⟩ := h
    rcases ResourceState.step_sys hT hr with ⟨sends, -, hsys⟩ | ⟨a, rfl, -⟩
    · refine hI.of_eq ?_
      rw [sys_setResource, hsys]
      rfl
    · cases own
  | deferredRefund sender =>
    simp only [Deployment.step, chainStep, bind_eq_ok, pure_eq_ok] at h
    obtain ⟨sys, ⟨⟨u, trx⟩, htaken, rfl⟩, rfl⟩ := h
    -- the refund may fail, or write the rows of stake
    refine hI.of_eq ?_
    rw [sys_setSys, ← takeDeferred_producers htaken]
    cases hs : SystemState.step u ⟨ctx.withAuth [trx.owner], .refund trx.owner⟩ with
    | error e => rw [Run.next_of_error hs]
    | ok s' =>
      rw [Run.next_of_ok hs]
      exact refund_producers hs
  | droppedRefund sender =>
    simp only [Deployment.step, chainStep, bind_eq_ok, pure_eq_ok] at h
    obtain ⟨sys, ⟨⟨u, trx⟩, htaken, rfl⟩, rfl⟩ := h
    exact hI.of_eq (takeDeferred_producers htaken)

end Numbers

/-! ## One payment -/

/-- All rows but one are the same. -/
structure KeepsOthers (row : PayoutRow) (d d' : Deployment F K H) : Prop where
  refunds : ∀ owner, row ≠ .refund owner → d'.sys.refunds.find? owner = d.sys.refunds.find? owner
  bidRefunds : ∀ bidder newname, row ≠ .bidRefund bidder newname →
    d'.auction.bidRefunds.find? ⟨newname, bidder⟩ = d.auction.bidRefunds.find? ⟨newname, bidder⟩
  prodpay : ∀ owner, row ≠ .prodpay owner → d'.prodpay.find? owner = d.prodpay.find? owner
  userres : ∀ account, row ≠ .userres account →
    d'.sys.userres.find? account = d.sys.userres.find? account

/-- What is due from another row stays due. -/
theorem KeepsOthers.due {row : PayoutRow} {d d' : Deployment F K H} (h : KeepsOthers row d d')
    {p : Demand} (hp : p.Due d) (hne : row ≠ p.payout.row) : p.Due d' := by
  obtain ⟨ctx, payout⟩ := p
  cases payout with
  | refund owner =>
    obtain ⟨q, hq, hmature⟩ := hp
    exact ⟨q, (h.refunds owner hne).trans hq, hmature⟩
  | bidrefund bidder newname =>
    obtain ⟨amount, hrow⟩ := hp
    exact ⟨amount, (h.bidRefunds bidder newname hne).trans hrow⟩
  | claimrewards owner =>
    obtain ⟨pay, hpay, hpos⟩ := hp
    exact ⟨pay, (h.prodpay owner hne).trans hpay, hpos⟩
  | sellram account bytes =>
    obtain ⟨u, hu, hbytes⟩ := hp
    exact ⟨u, (h.userres account hne).trans hu, hbytes⟩

variable [Double F]

omit [Double F] in
/-- A producer's pay can be paid. -/
theorem Solvent.claimrewards_ok {d : Deployment F K H} (hI : Solvent d) {ctx : Context}
    {owner : Name} {pay : ProducerPay} (hpay : d.prodpay.find? owner = some pay)
    (hpos : 0 < pay.amount) (hauth : owner ∈ ctx.auth) (haccount : ctx.isAccount owner)
    (hne : bpayAccount ≠ owner) :
    ∃ token balance, ResourceState.commit ctx (d.resource.claimrewards ctx owner) =
      .ok { d.resource with
        sys := { d.sys with token := token }
        prodpay := d.prodpay.set owner ⟨balance, ctx.now.secSinceEpoch⟩ } := by
  obtain ⟨hsym, hr, -⟩ := hI.payRows owner pay hpay
  -- a core symbol, since somebody is to be paid
  have hm : d.sys.rammarket.isSome := by
    rw [Option.isSome_iff_ne_none]
    intro hm
    rw [hI.noPay hm, Table.find?_empty] at hpay
    cases hpay
  obtain ⟨st, hst, hstsym⟩ := hI.core.core hm
  -- the row is a part of what `eosio.bpay` holds
  have hcover : pay.amount ≤ d.sys.token.balance bpayAccount d.sys.coreSym.code := by
    have hle : d.prodpay.valueAt owner ProducerPay.amount ≤ ResourceState.payTotal d.prodpay :=
      Table.valueAt_le_sumOn (fun p pay hp => (hI.payRows p pay hp).2.2) trivial
    rw [Table.valueAt_some hpay] at hle
    exact hle.trans hI.pay
  -- so the transfer succeeds
  obtain ⟨token, htoken⟩ : ∃ token, d.sys.token.transfer (ctx.withAuth [bpayAccount, owner])
      bpayAccount owner pay.balance "producer reward" = .ok token := by
    have haccount : (ctx.withAuth [bpayAccount, owner]).isAccount owner := haccount
    apply TokenState.transfer_ok hI.core.token hne List.mem_cons_self haccount (hsym ▸ hst)
    · rw [hsym, hstsym]
    · exact hpos
    · decide
    · rw [hsym]
      exact hcover
  -- and the row is reset to zero
  have hsub := Asset.sub_of_inRange (a := pay.balance) (b := pay.balance) rfl (by omega) (by omega)
  have hclaim : d.resource.claimrewards ctx owner = .ok ({ d.resource with
      prodpay := d.prodpay.set owner ⟨⟨pay.balance.amount - pay.balance.amount, pay.balance.symbol⟩,
        ctx.now.secSinceEpoch⟩ },
      [⟨[bpayAccount, owner], .transfer bpayAccount owner pay.balance "producer reward"⟩]) := by
    simp only [ResourceState.claimrewards, bind_eq_ok, check_eq_ok, getRow_eq_ok, pure_eq_ok,
      requireAuth_eq_ok]
    refine ⟨(), hauth, pay, hpay, (), ?_, _, hsub, rfl⟩
    rw [gt_iff_lt, Int64.lt_iff_toInt_lt, Int64.toInt_zero]
    exact hpos
  exact ⟨token, _, ResourceState.commit_eq_ok.mpr
    ⟨_, _, token, hclaim, runInline_singleton.mpr htoken, rfl⟩⟩

variable [Inhabited K] [Checksum H]

omit [Checksum H] in
/-- A direct action succeeds if the rows of the producers stay as they are. -/
theorem election_ok {isValid : BlockSigningAuthority K → Bool} {d : Deployment F K H}
    (hnum : Numbers d) {ctx : Context} {a : SystemAction F} (direct : a.isDirect)
    {s' : SystemState F} (h : d.sys.step ⟨ctx, a⟩ = .ok s')
    (hprod : s'.producers = d.sys.producers) :
    d.election.step isValid ⟨ctx, .system a direct⟩ = .ok (d.election.setSys s') := by
  simp only [ElectionState.step, ElectionState.run, bind_eq_ok, pure_eq_ok, check_eq_ok]
  refine ⟨_, ⟨s', h, rfl⟩, (), ?_, rfl⟩
  rw [ElectionState.sys_setSys, hprod]
  exact hnum

variable {isValid : BlockSigningAuthority K → Bool} {d : Deployment F K H} {ctx : Context}

/-- A mature refund is paid, and the other demands are as before. -/
theorem refund_payout (hI : Solvent d) (hnum : Numbers d) {owner : Name} {q : RefundRequest}
    (hq : d.sys.refunds.find? owner = some q)
    (hmature : TimePoint.ofSec q.requestTime + TimePoint.ofSec refundDelaySec ≤ ctx.now)
    (hauth : owner ∈ ctx.auth) (haccount : ctx.isAccount owner) :
    ∃ d', d.step isValid ⟨ctx, Payout.action (.refund owner)⟩ = .ok d' ∧
      KeepsOthers (.refund owner) d d' := by
  have hm : d.sys.rammarket.isSome := by
    rw [Option.isSome_iff_ne_none]
    intro hm
    rw [hI.core.stake.uninit hm, Table.find?_empty] at hq
    cases hq
  obtain ⟨s', hs'⟩ := refund_ok ⟨hI.core, hm, hI.noRefund⟩ hI.stake hq hmature hauth haccount
  refine ⟨d.setSys s', ?_, ?_⟩
  · simp only [step, Payout.action, bind_eq_ok, pure_eq_ok]
    exact ⟨_, election_ok hnum rfl hs' (Numbers.refund_producers hs'), rfl⟩
  · obtain ⟨u, sends, token, hr, -, rfl⟩ := commit_eq_ok.mp hs'
    obtain ⟨q', amount, -, -, -, rfl, -⟩ := refund_cases hr
    refine ⟨fun o ho => ?_, fun _ _ _ => rfl, fun _ _ => rfl, fun _ _ => rfl⟩
    show (d.sys.refunds.erase owner).find? o = _
    rw [Table.find?_erase, if_neg]
    rintro rfl
    exact ho rfl

/-- An outbid bidder gets the bid back, and the other demands are as before. -/
theorem bidrefund_payout (hI : Solvent d) {bidder newname : Name} {amount : Asset}
    (hrow : d.auction.bidRefunds.find? ⟨newname, bidder⟩ = some amount)
    (haccount : ctx.isAccount bidder) :
    ∃ d', d.step isValid ⟨ctx, Payout.action (.bidrefund bidder newname)⟩ = .ok d' ∧
      KeepsOthers (.bidRefund bidder newname) d d' := by
  -- the names account holds the refund
  obtain ⟨auction, hauction⟩ := AuctionState.bidrefund_ok hI.escrow hI.names hrow haccount
  refine ⟨d.setAuction auction, ?_, ?_⟩
  · simp only [step, Payout.action, bind_eq_ok, pure_eq_ok]
    exact ⟨auction, hauction, rfl⟩
  · have hsame := (AuctionState.step_tokens rfl hauction).1
    -- exactly this refund is erased
    have hrefunds : auction.bidRefunds = d.auction.bidRefunds.erase ⟨newname, bidder⟩ := by
      cases AuctionState.step_auction hauction with
      | refunded bidder' newname' amount memo action row transfer bids refunds same =>
        cases action
        exact refunds
      | first bidder newname bid memo action => cases action
      | outbid bidder newname bid memo current action => cases action
      | closed timestamp accepted newname highest sym memo action => cases action
      | idle timestamp accepted action => cases action
      | system a action => cases action
    refine ⟨fun o _ => ?_, fun b n hne => ?_, fun _ _ => rfl, fun o _ => ?_⟩
    · -- the refunds of stake are as before
      rw [sys_setAuction, hsame]
      rfl
    · -- and so are the refunds of other bids
      rw [auction_setAuction, hrefunds, Table.find?_erase, if_neg]
      intro heq
      simp only [Scoped.mk.injEq] at heq
      rw [heq.1, heq.2] at hne
      exact hne rfl
    · rw [sys_setAuction, hsame]
      rfl

/-- A producer gets its pay, and the other demands are as before. -/
theorem claimrewards_payout (hI : Solvent d) {owner : Name} {pay : ProducerPay}
    (hpay : d.prodpay.find? owner = some pay) (hpos : 0 < pay.amount) (hauth : owner ∈ ctx.auth)
    (haccount : ctx.isAccount owner) (hne : bpayAccount ≠ owner) :
    ∃ d', d.step isValid ⟨ctx, Payout.action (.claimrewards owner)⟩ = .ok d' ∧
      KeepsOthers (.prodpay owner) d d' := by
  obtain ⟨token, balance, hclaim⟩ := hI.claimrewards_ok hpay hpos hauth haccount hne
  refine ⟨d.setResource { d.resource with
    sys := { d.sys with token := token }
    prodpay := d.prodpay.set owner ⟨balance, ctx.now.secSinceEpoch⟩ }, ?_, ?_⟩
  · simp only [step, Payout.action, bind_eq_ok, pure_eq_ok]
    exact ⟨_, hclaim, rfl⟩
  · refine ⟨fun _ _ => rfl, fun _ _ _ => rfl, fun o ho => ?_, fun _ _ => rfl⟩
    show (d.prodpay.set owner _).find? o = _
    rw [Table.find?_set, if_neg]
    rintro rfl
    exact ho rfl

/-- A sale of RAM is paid, and the other demands are as before. -/
theorem sellram_payout (hI : Solvent d) (hnum : Numbers d) {account : Name} {bytes : Int64}
    {u : UserResources} (hu : d.sys.userres.find? account = some u) (hpos : 0 < bytes.toInt)
    (hmod : bytes % 1024 = 0) (hle : bytes.toInt ≤ u.ramBytes.toInt) (hauth : account ∈ ctx.auth)
    (haccount : ctx.isAccount account) (hne : account ≠ ramAccount) :
    ∃ d', d.step isValid ⟨ctx, Payout.action (.sellram account bytes)⟩ = .ok d' ∧
      KeepsOthers (.userres account) d d' := by
  obtain ⟨s', hs'⟩ := sale_paid hI.ram hauth haccount hne hu hpos hmod hle
  obtain ⟨v, sends, token, hr, -, hv⟩ := commit_eq_ok.mp hs'
  obtain ⟨s₁, res, limits, hsup, -, -, -, -, -, rfl, -⟩ := sellram_spec hr
  have hgrow := (updateRamSupply_spec hsup).eq
  have hprod : s'.producers = d.sys.producers := by rw [hv, hgrow]
  have hrefunds : s'.refunds = d.sys.refunds := by rw [hv, hgrow]
  have huserres : s'.userres = d.sys.userres.set account
      { res with ramBytes := res.ramBytes - bytes } := by rw [hv, hgrow]
  refine ⟨d.setSys s', ?_, ?_⟩
  · simp only [step, Payout.action, bind_eq_ok, pure_eq_ok]
    exact ⟨_, election_ok hnum rfl hs' hprod, rfl⟩
  · refine ⟨fun o _ => ?_, fun _ _ _ => rfl, fun _ _ => rfl, fun o ho => ?_⟩
    · rw [sys_setSys, hrefunds]
    · rw [sys_setSys, huserres, Table.find?_set, if_neg]
      rintro rfl
      exact ho rfl

/-- What is due is paid, and from its own row. -/
theorem payout_ok (hI : Solvent d) (hnum : Numbers d) {p : Demand} (hsigned : p.Signed)
    (hdue : p.Due d) :
    ∃ d', d.step isValid p.call = .ok d' ∧ KeepsOthers p.payout.row d d' := by
  obtain ⟨ctx, payout⟩ := p
  obtain ⟨hauth, haccount, hkeyless⟩ := hsigned
  cases payout with
  | refund owner =>
    obtain ⟨q, hq, hmature⟩ := hdue
    exact refund_payout hI hnum hq hmature hauth haccount
  | bidrefund bidder newname =>
    obtain ⟨amount, hrow⟩ := hdue
    exact bidrefund_payout hI hrow haccount
  | claimrewards owner =>
    obtain ⟨pay, hpay, hpos⟩ := hdue
    refine claimrewards_payout hI hpay hpos hauth haccount ?_
    rintro rfl
    exact hkeyless bpayAccount bpay_mem_escrow hauth
  | sellram account bytes =>
    obtain ⟨u, hu, hpos, hmod, hle⟩ := hdue
    refine sellram_payout hI hnum hu hpos hmod hle hauth haccount ?_
    rintro rfl
    exact hkeyless ramAccount ram_mem_escrow hauth

/-! ## All payments -/

/-- Both invariants hold in every run in which nobody signs for the custodians. -/
theorem exec_numbers (isValid : BlockSigningAuthority K → Bool) (maxBlockNetUsage : UInt64)
    (maxBlockCpuUsage : UInt32) {calls : List (DeploymentCall F K H)}
    (hkeyless : ∀ call ∈ calls, Keyless call) :
    Solvent (Run.exec (step isValid) (genesis maxBlockNetUsage maxBlockCpuUsage) calls) ∧
      Numbers (Run.exec (step isValid) (genesis maxBlockNetUsage maxBlockCpuUsage) calls) := by
  refine Run.exec_of_forall (I := fun d => Solvent d ∧ Numbers d) (fun d call d' hI hk h => ?_)
    ⟨genesis_solvent _ _, fun r hr => ?_⟩ hkeyless
  · exact ⟨hI.1.step hk h, hI.2.step hI.1.core.token h⟩
  · cases hr

/-- After any run in which nobody has signed for the four accounts, all payments that are due,
    however many, can be demanded one after the other in any order, if no two are for the same
    row. -/
theorem payouts_in_any_order (isValid : BlockSigningAuthority K → Bool) (maxBlockNetUsage : UInt64)
    (maxBlockCpuUsage : UInt32) {calls : List (DeploymentCall F K H)}
    (hkeyless : ∀ call ∈ calls, Keyless call) {demands : List Demand}
    (hsigned : ∀ p ∈ demands, p.Signed)
    (hdue : ∀ p ∈ demands,
      p.Due (Run.exec (step isValid) (genesis maxBlockNetUsage maxBlockCpuUsage) calls))
    (hrows : (demands.map fun p => p.payout.row).Nodup) :
    Run.Meets (fun d p => step isValid d (Demand.call p)) (fun d p => (step isValid d p.call).isOk)
      (Run.exec (step isValid) (genesis maxBlockNetUsage maxBlockCpuUsage) calls) demands := by
  have hstart := exec_numbers isValid maxBlockNetUsage maxBlockCpuUsage hkeyless
  refine Run.meets_of_pairwise (I := fun d => Solvent d ∧ Numbers d)
    (E := fun d p => Demand.Signed p ∧ p.Due d) (R := fun p q => p.payout.row ≠ q.payout.row)
    ?_ ?_ hstart (fun p hp => ⟨hsigned p hp, hdue p hp⟩) (List.pairwise_map.mp hrows)
  · rintro d p ⟨hI, hnum⟩ ⟨hp, hpdue⟩
    obtain ⟨d', hd', -⟩ : ∃ d', d.step isValid p.call = .ok d' ∧ KeepsOthers p.payout.row d d' :=
      payout_ok hI hnum hp hpdue
    have hkeyless : Keyless (p.call : DeploymentCall F K H) := hp.keyless
    exact ⟨d', hd', hI.step hkeyless hd', hnum.step hI.core.token hd'⟩
  · rintro d p q d' ⟨hI, hnum⟩ ⟨hp, hpdue⟩ ⟨hq, hqdue⟩ hne hd'
    obtain ⟨d'', hd'', hkeep⟩ := payout_ok hI hnum hp hpdue
    rw [hd'] at hd''
    cases hd''
    exact ⟨hq, hkeep.due hqdue hne⟩

end Deployment

/-! ## A sample -/

open SystemState.Sample in
/-- Alice demands her refund after three days, her bid, her pay, and the price of her RAM. -/
def Deployment.Sample.demands : List Demand :=
  let later := ctx [alice] (launch + 259200)
  [⟨later, .sellram alice 10240⟩, ⟨later, .refund alice⟩, ⟨later, .claimrewards alice⟩,
    ⟨later, .bidrefund alice AuctionState.Sample.com⟩]

open Deployment Deployment.Sample SystemState.Sample in
/-- All demands of the sample succeed in the order in which they are listed. -/
theorem payouts_in_any_order_sample :
    Run.Meets (fun d p => Deployment.step isValid d (Demand.call p))
      (fun d p => (Deployment.step isValid d p.call).isOk)
      (Run.exec (Deployment.step isValid) Deployment.Sample.start (launching ++ claims)) demands := by
  have hkeyless : ∀ call ∈ launching ++ claims, Keyless call := by decide +kernel
  have hsigned : ∀ p ∈ demands, p.Signed := by
    intro p hp
    have hauth : ∀ o ∈ escrowAccounts, o ∉ [alice] := by decide +kernel
    simp only [demands, List.mem_cons, List.not_mem_nil, or_false] at hp
    rcases hp with rfl | rfl | rfl | rfl
    · exact ⟨List.mem_cons_self, rfl, hauth⟩
    · exact ⟨List.mem_cons_self, rfl, hauth⟩
    · exact ⟨List.mem_cons_self, rfl, hauth⟩
    · exact ⟨List.mem_cons_self, rfl, hauth⟩
  have hrows : (demands.map fun p => p.payout.row).Nodup := by decide +kernel
  unfold Deployment.Sample.start
  refine payouts_in_any_order isValid 1048576 200000 hkeyless hsigned (fun p hp => ?_) hrows
  simp only [demands, List.mem_cons, List.not_mem_nil, or_false] at hp
  rcases hp with rfl | rfl | rfl | rfl
  · show ∃ u ∈ Table.find? _ alice, _
    decide +kernel
  · show ∃ q ∈ Table.find? _ alice, _
    decide +kernel
  · show ∃ pay ∈ Table.find? _ alice, _
    decide +kernel
  · refine Option.isSome_iff_exists.mp ?_
    decide +kernel

end UxContracts
