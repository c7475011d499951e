import UxContracts.Native.Bandwidth
import UxContracts.Spec.VotingFrame

/-!
# What a change of stake does

One lemma for each block of `changebw`, and `changebw_spec` that puts them together.
The checks at the start of `changebw` bound both deltas and exclude opposite signs
(`deltas_spec`), so every sum of the later blocks is exact.

In exact numbers: the `delband` row of the owner and the receiver, the totals of the
receiver and the voting stake of the owner change by the deltas, and what is transferred
to `eosio.stake` is the sum of the deltas plus the change of the owner's refund.
-/

namespace UxContracts

namespace SystemState

variable {F : Type}

/-! ## Rows -/

/-- A pair of staked amounts: not negative and within the asset range. -/
structure StakePair (net cpu : Asset) : Prop where
  net_nonneg : 0 ≤ net.amount.toInt
  cpu_nonneg : 0 ≤ cpu.amount.toInt
  net_inRange : net.InRange
  cpu_inRange : cpu.InRange

/-- A refund is of the symbol `sym` and not empty. -/
def GoodRefund (sym : Symbol) (q : RefundRequest) : Prop :=
  StakePair q.netAmount q.cpuAmount ∧ 0 < q.netAmount.amount.toInt + q.cpuAmount.amount.toInt ∧
    q.netAmount.symbol = sym ∧ q.cpuAmount.symbol = sym

/-- The rows of the three tables of stake hold proper pairs. -/
structure StakeRows (s : SystemState F) (sym : Symbol) : Prop where
  delband : ∀ k d, s.delband.find? k = some d → StakePair d.netWeight d.cpuWeight
  userres : ∀ r u, s.userres.find? r = some u → StakePair u.netWeight u.cpuWeight
  refunds : ∀ f q, s.refunds.find? f = some q → GoodRefund sym q

end SystemState

def DelegatedBandwidth.net (d : DelegatedBandwidth) : Int := d.netWeight.amount.toInt
def DelegatedBandwidth.cpu (d : DelegatedBandwidth) : Int := d.cpuWeight.amount.toInt
def UserResources.net (u : UserResources) : Int := u.netWeight.amount.toInt
def UserResources.cpu (u : UserResources) : Int := u.cpuWeight.amount.toInt
def RefundRequest.total (q : RefundRequest) : Int :=
  q.netAmount.amount.toInt + q.cpuAmount.amount.toInt

/-- An empty row is worth nothing. -/
theorem DelegatedBandwidth.zero_of_isEmpty {d : DelegatedBandwidth} (h : d.isEmpty) :
    d.net = 0 ∧ d.cpu = 0 := by
  simp only [isEmpty, decide_eq_true_eq] at h
  unfold net cpu
  rw [h.1, h.2, Int64.toInt_zero]
  exact ⟨rfl, rfl⟩

theorem UserResources.zero_of_isEmpty {u : UserResources} (h : u.isEmpty) :
    u.net = 0 ∧ u.cpu = 0 ∧ u.ramBytes.toInt = 0 := by
  simp only [isEmpty, decide_eq_true_eq] at h
  unfold net cpu
  rw [h.1, h.2.1, h.2.2, Int64.toInt_zero]
  exact ⟨rfl, rfl, rfl⟩

theorem RefundRequest.zero_of_isEmpty {q : RefundRequest} (h : q.isEmpty) : q.total = 0 := by
  simp only [isEmpty, decide_eq_true_eq] at h
  unfold total
  rw [h.1, h.2, Int64.toInt_zero]
  rfl

/-- A row that is not empty has an amount other than zero. -/
theorem RefundRequest.ne_zero_of_not_isEmpty {q : RefundRequest} (h : q.isEmpty = false) :
    q.netAmount.amount.toInt ≠ 0 ∨ q.cpuAmount.amount.toInt ≠ 0 := by
  by_contra hz
  push Not at hz
  have hnet : q.netAmount.amount = 0 := Int64.toInt_inj.mp hz.1
  have hcpu : q.cpuAmount.amount = 0 := Int64.toInt_inj.mp hz.2
  simp [isEmpty, hnet, hcpu] at h

namespace SystemState

variable {F : Type}

/-! ## The deltas -/

/-- Two amounts of one sign whose sum is in range, as the checks of `changebw` leave
    them. -/
structure Deltas (n c : Asset) : Prop where
  symbol : c.symbol = n.symbol
  net_inRange : n.InRange
  cpu_inRange : c.InRange
  total_inRange : -2 ^ 62 < n.amount.toInt + c.amount.toInt ∧
    n.amount.toInt + c.amount.toInt < 2 ^ 62
  sameSign : (0 ≤ n.amount.toInt ∧ 0 ≤ c.amount.toInt) ∨
    (n.amount.toInt ≤ 0 ∧ c.amount.toInt ≤ 0)

/-- The check on the magnitudes rules out a wrapped sum as well as opposite signs. -/
theorem deltas_spec {n c total : Asset} (h : n.add c = .ok total)
    (habs : max n.amount.toInt.natAbs c.amount.toInt.natAbs ≤ total.amount.toInt.natAbs) :
    Deltas n c ∧ total.amount.toInt = n.amount.toInt + c.amount.toInt := by
  obtain ⟨hs, hlo, hhi, rfl⟩ := Asset.add_eq_ok.mp h
  have hcases := Int64.toInt_add_cases n.amount c.amount
  simp only at habs
  have hexact : (n.amount + c.amount).toInt = n.amount.toInt + c.amount.toInt := by omega
  refine ⟨⟨hs, ?_, ?_, ?_, ?_⟩, hexact⟩
  · unfold Asset.InRange; omega
  · unfold Asset.InRange; omega
  · omega
  · omega

/-! ## `delband` and `userres` -/

/-- What is staked by one account for another changes by the deltas. -/
theorem updateDelband_spec {s s' : SystemState F} {from_ receiver : Name} {n c : Asset}
    {sym : Symbol} (hrows : StakeRows s sym) (hd : Deltas n c)
    (h : s.updateDelband from_ receiver n c = .ok s') :
    ∃ d : DelegatedBandwidth, s' = { s with
        delband := s.delband.put ⟨from_, receiver⟩ d d.isEmpty } ∧
      StakePair d.netWeight d.cpuWeight ∧
      d.net = s.delband.valueAt ⟨from_, receiver⟩ DelegatedBandwidth.net + n.amount.toInt ∧
      d.cpu = s.delband.valueAt ⟨from_, receiver⟩ DelegatedBandwidth.cpu + c.amount.toInt := by
  simp only [updateDelband, bind_eq_ok, check_eq_ok, pure_eq_ok] at h
  obtain ⟨d, hd', _, hn, _, hc, rfl⟩ := h
  have hn := Int64.le_iff_toInt_le.mp hn
  have hc := Int64.le_iff_toInt_le.mp hc
  rw [Int64.toInt_zero] at hn hc
  refine ⟨d, rfl, ?_⟩
  cases hfind : s.delband.find? ⟨from_, receiver⟩ with
  -- a first row has the quantities
  | none =>
    simp only [hfind, pure_eq_ok] at hd'
    subst hd'
    rw [Table.valueAt_none hfind, Table.valueAt_none hfind, zero_add, zero_add]
    exact ⟨⟨hn, hc, hd.net_inRange, hd.cpu_inRange⟩, rfl, rfl⟩
  -- a row that is there adds them
  | some d₀ =>
    simp only [hfind, bind_eq_ok, pure_eq_ok] at hd'
    obtain ⟨net, hnet, cpu, hcpu, rfl⟩ := hd'
    have hpair := hrows.delband _ d₀ hfind
    obtain ⟨-, -, hnr, hneq⟩ := Asset.add_spec hnet hpair.net_inRange
    obtain ⟨-, -, hcr, hceq⟩ := Asset.add_spec hcpu hpair.cpu_inRange
    rw [Table.valueAt_some hfind, Table.valueAt_some hfind]
    exact ⟨⟨hn, hc, hnr, hcr⟩, hneq, hceq⟩

/-- The totals of the receiver change by the deltas; its RAM stays. -/
theorem updateTotals_spec {s : SystemState F} {receiver : Name} {n c : Asset}
    {tot : UserResources} {sym : Symbol} (hrows : StakeRows s sym) (hd : Deltas n c)
    (h : s.updateTotals receiver n c = .ok tot) :
    StakePair tot.netWeight tot.cpuWeight ∧
      tot.net = s.userres.valueAt receiver UserResources.net + n.amount.toInt ∧
      tot.cpu = s.userres.valueAt receiver UserResources.cpu + c.amount.toInt ∧
      tot.ramBytes.toInt = s.userres.valueAt receiver fun u => u.ramBytes.toInt := by
  simp only [updateTotals, bind_eq_ok, check_eq_ok, pure_eq_ok] at h
  obtain ⟨tot, htot, _, hn, _, hc, rfl⟩ := h
  have hn := Int64.le_iff_toInt_le.mp hn
  have hc := Int64.le_iff_toInt_le.mp hc
  rw [Int64.toInt_zero] at hn hc
  cases hfind : s.userres.find? receiver with
  -- a first row has the quantities
  | none =>
    simp only [hfind, pure_eq_ok] at htot
    subst htot
    rw [Table.valueAt_none hfind, Table.valueAt_none hfind, Table.valueAt_none hfind, zero_add,
      zero_add]
    exact ⟨⟨hn, hc, hd.net_inRange, hd.cpu_inRange⟩, rfl, rfl, Int64.toInt_zero⟩
  -- a row that is there adds them
  | some u =>
    simp only [hfind, bind_eq_ok, pure_eq_ok] at htot
    obtain ⟨net, hnet, cpu, hcpu, rfl⟩ := htot
    have hpair := hrows.userres _ u hfind
    obtain ⟨-, -, hnr, hneq⟩ := Asset.add_spec hnet hpair.net_inRange
    obtain ⟨-, -, hcr, hceq⟩ := Asset.add_spec hcpu hpair.cpu_inRange
    rw [Table.valueAt_some hfind, Table.valueAt_some hfind, Table.valueAt_some hfind]
    exact ⟨⟨hn, hc, hnr, hcr⟩, hneq, hceq, rfl⟩

/-! ## Refunds -/

/-- Netting moves the same amount out of the refund and out of the delta. -/
theorem netAgainst_spec {amount balance amount' balance' : Asset} (ha : amount.InRange)
    (h : netAgainst amount balance = .ok (amount', balance')) :
    balance.symbol = amount.symbol ∧ amount'.symbol = amount.symbol ∧
      balance'.symbol = amount.symbol ∧ 0 ≤ amount'.amount.toInt ∧ amount'.InRange ∧
      0 ≤ balance'.amount.toInt ∧ balance'.InRange ∧
      balance'.amount.toInt =
        balance.amount.toInt + (amount'.amount.toInt - amount.amount.toInt) := by
  simp only [netAgainst, bind_eq_ok] at h
  obtain ⟨diff, hdiff, h⟩ := h
  obtain ⟨hs, hs', hr, heq⟩ := Asset.sub_spec hdiff ha
  have hzero : (0 : Int64).toInt = 0 := Int64.toInt_zero
  unfold Asset.InRange at *
  split at h
  · -- more is taken than there is, and the rest is to be paid
    rename_i hneg
    have hneg := Int64.lt_iff_toInt_lt.mp hneg
    simp only [pure_eq_ok, Prod.mk.injEq] at h
    obtain ⟨rfl, rfl⟩ := h
    have hcases := Int64.toInt_neg_cases diff.amount
    simp only [Asset.neg]
    refine ⟨hs, hs', hs', ?_⟩
    omega
  · -- the balance covers it
    rename_i hnn
    rw [Int64.lt_iff_toInt_lt] at hnn
    simp only [pure_eq_ok, Prod.mk.injEq] at h
    obtain ⟨rfl, rfl⟩ := h
    refine ⟨hs, hs', hs, ?_⟩
    simp only
    omega

/-- A part of a new refund takes over a negative delta. -/
theorem refundPart_spec {sym : Symbol} {balance amount' balance' : Asset} (hr : balance.InRange)
    (hs : balance.symbol = sym) (h : refundPart sym balance = .ok (amount', balance')) :
    amount'.symbol = sym ∧ balance'.symbol = sym ∧ 0 ≤ amount'.amount.toInt ∧ amount'.InRange ∧
      0 ≤ balance'.amount.toInt ∧ balance'.InRange ∧
      balance'.amount.toInt = balance.amount.toInt + amount'.amount.toInt := by
  unfold refundPart at h
  have hzero : (0 : Int64).toInt = 0 := Int64.toInt_zero
  unfold Asset.InRange at *
  split at h
  · rename_i hneg
    have hneg := Int64.lt_iff_toInt_lt.mp hneg
    simp only [pure_eq_ok, Prod.mk.injEq] at h
    obtain ⟨rfl, rfl⟩ := h
    have hcases := Int64.toInt_neg_cases balance.amount
    simp only [Asset.neg]
    refine ⟨hs, hs, ?_⟩
    omega
  · rename_i hnn
    rw [Int64.lt_iff_toInt_lt] at hnn
    simp only [bind_eq_ok, Asset.make_eq_ok, pure_eq_ok, Prod.mk.injEq] at h
    obtain ⟨zero, ⟨-, -, -, rfl⟩, rfl, rfl⟩ := h
    refine ⟨rfl, hs, ?_⟩
    simp only
    omega

/-- What all refunds add up to. -/
def refundTotal (t : Table Name RefundRequest) : Int :=
  t.sumOn (fun _ => True) RefundRequest.total

/-- The rest of the deltas is what the refunds have changed by plus the deltas. -/
theorem updateRefund_spec {ctx : Context} {s : SystemState F} {from_ receiver : Name}
    {n c : Asset} {transfer : Bool} {r : RefundOutcome F} {sym : Symbol}
    (hrows : StakeRows s sym) (hd : Deltas n c) (hsym : n.symbol = sym)
    (hcore : s.coreSymbol = .ok sym)
    (h : s.updateRefund ctx from_ receiver n c transfer = .ok r) :
    ∃ refunds, r.state = { s with refunds := refunds } ∧
      (∀ f q, refunds.find? f = some q → GoodRefund sym q) ∧
      (∀ f, f ≠ from_ → refunds.find? f = s.refunds.find? f) ∧
      (transfer = true → 0 ≤ n.amount.toInt + c.amount.toInt → refunds = s.refunds) ∧
      r.netBalance.symbol = sym ∧ r.cpuBalance.symbol = sym ∧ r.netBalance.InRange ∧
      0 ≤ r.netBalance.amount.toInt ∧ 0 ≤ r.cpuBalance.amount.toInt ∧
      refundTotal refunds = refundTotal s.refunds + r.netBalance.amount.toInt +
        r.cpuBalance.amount.toInt - (n.amount.toInt + c.amount.toInt) := by
  have hcsym : c.symbol = sym := hd.symbol.trans hsym
  have hsame := hd.sameSign
  have hzero : (0 : Int64).toInt = 0 := Int64.toInt_zero
  -- the two quantities have one sign, and their sum does not wrap
  have hsum := Int64.toInt_add_of_mem (a := n.amount) (b := c.amount)
    (by have := hd.total_inRange; omega) (by have := hd.total_inRange; omega)
  simp only [updateRefund] at h
  split at h
  · rename_i hyes
    -- a gift is neither staked to oneself nor taken back
    have hgift : transfer = true → ¬ 0 ≤ n.amount.toInt + c.amount.toInt := by
      intro ht h0
      have hnn : ¬ n.amount + c.amount < 0 := by
        rw [Int64.lt_iff_toInt_lt, hsum, hzero]
        omega
      simp [ht, hnn] at hyes
    -- the refund is looked at: netted if there is one, made if stake is taken back
    split at h
    · rename_i q hq
      simp only [bind_eq_ok, check_eq_ok, pure_eq_ok] at h
      -- both parts of the row are netted against what is given or taken
      obtain ⟨⟨net, nb⟩, hnet, ⟨cpu, cb⟩, hcpu, _, -, _, -, rfl⟩ := h
      obtain ⟨hpair, hpos, hns, hcs⟩ := hrows.refunds _ q hq
      obtain ⟨-, hns', hnbs, hn0, hnr, hnb0, hnbr, hneq⟩ :=
        netAgainst_spec hpair.net_inRange hnet
      obtain ⟨-, hcs', hcbs, hc0, hcr, hcb0, hcbr, hceq⟩ :=
        netAgainst_spec hpair.cpu_inRange hcpu
      refine ⟨_, rfl, ?_, ?_, fun ht h0 => absurd h0 (hgift ht), hnbs.trans hns, hcbs.trans hcs,
        hnbr, hnb0, hcb0, ?_⟩
      · -- the rows stay good: this one, if it is kept, and the others
        intro f q' hq'
        rcases Table.of_find?_put hq' with ⟨-, rfl, hne⟩ | ⟨-, hq'⟩
        · have hne := RefundRequest.ne_zero_of_not_isEmpty hne
          simp only at hne
          exact ⟨⟨hn0, hc0, hnr, hcr⟩, by simp only; omega, hns'.trans hns, hcs'.trans hcs⟩
        · exact hrows.refunds f q' hq'
      · exact fun f hf => Table.find?_put_ne _ _ _ hf
      · -- what the refunds lose is what the caller need not transfer
        rw [refundTotal, Table.sumOn_put _ _ _ _ RefundRequest.zero_of_isEmpty, if_pos trivial,
          Table.valueAt_some hq]
        simp only [refundTotal, RefundRequest.total]
        omega
    · rename_i hq
      split at h
      · -- there is none, and the negative parts make a new one
        rename_i hneg
        simp only [bind_eq_ok, pure_eq_ok] at h
        obtain ⟨sym', hsym', ⟨net, nb⟩, hnet, ⟨cpu, cb⟩, hcpu, rfl⟩ := h
        obtain rfl : sym = sym' := by
          rw [hcore, Except.ok.injEq] at hsym'
          exact hsym'
        obtain ⟨hns, hnbs, hn0, hnr, hnb0, hnbr, hneq⟩ := refundPart_spec hd.net_inRange hsym hnet
        obtain ⟨hcs, hcbs, hc0, hcr, hcb0, hcbr, hceq⟩ := refundPart_spec hd.cpu_inRange hcsym hcpu
        rw [Int64.lt_iff_toInt_lt, Int64.lt_iff_toInt_lt] at hneg
        refine ⟨_, rfl, ?_, ?_, fun ht h0 => absurd h0 (hgift ht), hnbs, hcbs, hnbr, hnb0, hcb0,
          ?_⟩
        · intro f q' hq'
          rw [Table.find?_set] at hq'
          split at hq'
          · cases hq'
            exact ⟨⟨hn0, hc0, hnr, hcr⟩, by simp only; omega, hns, hcs⟩
          · exact hrows.refunds f q' hq'
        · exact fun f hf => Table.find?_set_ne _ _ hf
        · -- the new refund is what has been taken back
          rw [refundTotal, Table.sumOn_set, if_pos trivial, Table.valueAt_none hq]
          simp only [refundTotal, RefundRequest.total]
          omega
      · -- nothing is negative, so there is nothing to refund
        rename_i hnn
        simp only [pure_eq_ok] at h
        subst h
        rw [Int64.lt_iff_toInt_lt, Int64.lt_iff_toInt_lt] at hnn
        have hn0 : 0 ≤ n.amount.toInt := by omega
        have hc0 : 0 ≤ c.amount.toInt := by omega
        exact ⟨s.refunds, rfl, hrows.refunds, fun _ _ => rfl, fun _ _ => rfl, hsym, hcsym,
          hd.net_inRange, hn0, hc0, by simp only; omega⟩
  · -- stake is given to someone else, so the sum is not negative
    rename_i hno
    simp only [pure_eq_ok] at h
    subst h
    have hnn : ¬ n.amount + c.amount < 0 := by
      intro hlt
      simp [hlt] at hno
    rw [Int64.lt_iff_toInt_lt, hsum] at hnn
    have hn0 : 0 ≤ n.amount.toInt := by omega
    have hc0 : 0 ≤ c.amount.toInt := by omega
    exact ⟨s.refunds, rfl, hrows.refunds, fun _ _ => rfl, fun _ _ => rfl, hsym, hcsym,
      hd.net_inRange, hn0, hc0, by simp only; omega⟩

/-- The tokens that an inline transfer of `changebw` moves. -/
def sentAmount : List InlineAction → Int
  | [⟨_, .transfer _ _ q _⟩] => q.amount.toInt
  | _ => 0

/-- The only inline action of `changebw`: the source stakes a positive amount. -/
def StakeTransfer (source : Name) (sym : Symbol) (sends : List InlineAction) : Prop :=
  sends = [] ∨ ∃ q : Asset, q.symbol = sym ∧ 0 < q.amount.toInt ∧
    sends = [⟨[source], .transfer source stakeAccount q "stake bandwidth"⟩]

/-- What is sent to `eosio.stake` is the deltas plus the change of the refunds. -/
theorem settleStake_spec {ctx : Context} {s s' : SystemState F} {source from_ receiver : Name}
    {n c : Asset} {transfer : Bool} {sends : List InlineAction} {sym : Symbol}
    (hrows : StakeRows s sym) (hd : Deltas n c) (hsym : n.symbol = sym)
    (hcore : s.coreSymbol = .ok sym)
    (h : s.settleStake ctx source from_ receiver n c transfer = .ok (s', sends)) :
    ∃ refunds deferred, s' = { s with refunds := refunds, deferred := deferred } ∧
      (∀ f q, refunds.find? f = some q → GoodRefund sym q) ∧
      (∀ f, f ≠ from_ → refunds.find? f = s.refunds.find? f) ∧
      (transfer = true → 0 ≤ n.amount.toInt + c.amount.toInt → refunds = s.refunds) ∧
      StakeTransfer source sym sends ∧
      (source = stakeAccount → refunds = s.refunds ∧ sends = []) ∧
      (source ≠ stakeAccount → refundTotal refunds = refundTotal s.refunds + sentAmount sends -
        (n.amount.toInt + c.amount.toInt)) := by
  unfold settleStake at h
  split at h
  · -- the stake account settles nothing with itself
    rename_i hs
    simp only [Except.ok.injEq, Prod.mk.injEq] at h
    obtain ⟨rfl, rfl⟩ := h
    exact ⟨s.refunds, s.deferred, rfl, hrows.refunds, fun _ _ => rfl, fun _ _ => rfl, .inl rfl,
      fun _ => ⟨rfl, rfl⟩, fun hne => absurd hs hne⟩
  · rename_i hs
    simp only [bind_eq_ok] at h
    obtain ⟨r, hr, t, ht, h⟩ := h
    -- the refund takes its part, and the rest is transferred
    obtain ⟨refunds, hstate, hgood, hothers, hgift, hns, hcs, hnr, hn0, hc0, htotal⟩ :=
      updateRefund_spec hrows hd hsym hcore hr
    obtain ⟨-, hts, htr, hteq⟩ := Asset.add_spec ht hnr
    -- scheduling touches the deferred transactions only
    have hsched : ∃ deferred, r.state.scheduleRefund from_ r.needDeferredTrx =
        { s with refunds := refunds, deferred := deferred } := by
      unfold scheduleRefund
      rw [hstate]
      split
      · exact ⟨_, rfl⟩
      · exact ⟨_, rfl⟩
    obtain ⟨deferred, hdef⟩ := hsched
    rw [hdef] at h
    split at h
    · -- something is left to be paid in
      rename_i hpos
      have hpos := Int64.lt_iff_toInt_lt.mp hpos
      rw [Int64.toInt_zero] at hpos
      simp only [pure_eq_ok, Prod.mk.injEq] at h
      obtain ⟨rfl, rfl⟩ := h
      refine ⟨refunds, deferred, rfl, hgood, hothers, hgift,
        .inr ⟨t, hts.trans hns, hpos, rfl⟩, fun he => absurd he hs, fun _ => ?_⟩
      simp only [sentAmount]
      omega
    · -- nothing is left
      rename_i hnpos
      rw [Int64.lt_iff_toInt_lt, Int64.toInt_zero] at hnpos
      simp only [pure_eq_ok, Prod.mk.injEq] at h
      obtain ⟨rfl, rfl⟩ := h
      refine ⟨refunds, deferred, rfl, hgood, hothers, hgift, .inl rfl,
        fun he => absurd he hs, fun _ => ?_⟩
      simp only [sentAmount]
      omega

/-! ## The whole change -/

/-- How `changebw` changes the ledgers when `source` stakes for `receiver` and `owner` is
    to own the stake. -/
structure StakeChange (sym : Symbol) (s s' : SystemState F) (source owner receiver : Name)
    (n c : Asset) (sends : List InlineAction) : Prop where
  deltas : Deltas n c
  delband : ∃ d : DelegatedBandwidth,
    s'.delband = s.delband.put ⟨owner, receiver⟩ d d.isEmpty ∧
    StakePair d.netWeight d.cpuWeight ∧
    d.net = s.delband.valueAt ⟨owner, receiver⟩ DelegatedBandwidth.net + n.amount.toInt ∧
    d.cpu = s.delband.valueAt ⟨owner, receiver⟩ DelegatedBandwidth.cpu + c.amount.toInt
  userres : ∃ u : UserResources, s'.userres = s.userres.put receiver u u.isEmpty ∧
    StakePair u.netWeight u.cpuWeight ∧
    u.net = s.userres.valueAt receiver UserResources.net + n.amount.toInt ∧
    u.cpu = s.userres.valueAt receiver UserResources.cpu + c.amount.toInt ∧
    u.ramBytes.toInt = s.userres.valueAt receiver fun u => u.ramBytes.toInt
  refundRows : ∀ f q, s'.refunds.find? f = some q → GoodRefund sym q
  refundOthers : ∀ f, f ≠ owner → s'.refunds.find? f = s.refunds.find? f
  refundsOfGift : owner ≠ source → 0 ≤ n.amount.toInt + c.amount.toInt →
    s'.refunds = s.refunds
  transfer : StakeTransfer source sym sends
  ofStake : source = stakeAccount → s'.refunds = s.refunds ∧ sends = []
  refundTotal : source ≠ stakeAccount → refundTotal s'.refunds = refundTotal s.refunds +
    sentAmount sends - (n.amount.toInt + c.amount.toInt)
  staked : ∀ f, s'.stakedOf f =
    s.stakedOf f + if f = owner then n.amount.toInt + c.amount.toInt else 0
  staked_nonneg : 0 ≤ s'.stakedOf owner
  token : s'.token = s.token
  rammarket : s'.rammarket = s.rammarket
  rexbalance : s'.rexbalance = s.rexbalance
  maxRamSize : s'.gstate.maxRamSize = s.gstate.maxRamSize
  totalRamBytesReserved : s'.gstate.totalRamBytesReserved = s.gstate.totalRamBytesReserved
  totalRamStake : s'.gstate.totalRamStake = s.gstate.totalRamStake
  gstate2 : s'.gstate2.newRamPerBlock = s.gstate2.newRamPerBlock ∧
    s'.gstate2.lastRamIncrease = s.gstate2.lastRamIncrease

/-! ## Sums after a change -/

namespace StakeChange

variable {s s' : SystemState F} {sym : Symbol} {source owner receiver : Name} {n c : Asset}
  {sends : List InlineAction}

/-- The rows stay proper. -/
theorem rows (h : StakeChange sym s s' source owner receiver n c sends)
    (hrows : StakeRows s sym) : StakeRows s' sym := by
  obtain ⟨d, hd, hdpair, -⟩ := h.delband
  obtain ⟨u, hu, hupair, -⟩ := h.userres
  refine ⟨fun k d' hk => ?_, fun r u' hr => ?_, h.refundRows⟩
  · rw [hd] at hk
    rcases Table.of_find?_put hk with ⟨-, rfl, -⟩ | ⟨-, hk⟩
    · exact hdpair
    · exact hrows.delband k d' hk
  · rw [hu] at hr
    rcases Table.of_find?_put hr with ⟨-, rfl, -⟩ | ⟨-, hr⟩
    · exact hupair
    · exact hrows.userres r u' hr

/-- A sum of NET weights changes by the delta if it contains the row. -/
theorem sumOn_net (h : StakeChange sym s s' source owner receiver n c sends)
    (p : Scoped Name Name → Prop) [DecidablePred p] :
    s'.delband.sumOn p DelegatedBandwidth.net = s.delband.sumOn p DelegatedBandwidth.net +
      if p ⟨owner, receiver⟩ then n.amount.toInt else 0 := by
  obtain ⟨d, hd, -, hnet, -⟩ := h.delband
  rw [hd, Table.sumOn_put _ _ _ _ fun he => (DelegatedBandwidth.zero_of_isEmpty he).1, hnet]
  split <;> omega

/-- A sum of CPU weights changes by the delta if it contains the row. -/
theorem sumOn_cpu (h : StakeChange sym s s' source owner receiver n c sends)
    (p : Scoped Name Name → Prop) [DecidablePred p] :
    s'.delband.sumOn p DelegatedBandwidth.cpu = s.delband.sumOn p DelegatedBandwidth.cpu +
      if p ⟨owner, receiver⟩ then c.amount.toInt else 0 := by
  obtain ⟨d, hd, -, -, hcpu⟩ := h.delband
  rw [hd, Table.sumOn_put _ _ _ _ fun he => (DelegatedBandwidth.zero_of_isEmpty he).2, hcpu]
  split <;> omega

/-- The totals of the receiver change by the deltas. -/
theorem valueAt_userres (h : StakeChange sym s s' source owner receiver n c sends) (r : Name) :
    s'.userres.valueAt r UserResources.net = (s.userres.valueAt r UserResources.net +
      if r = receiver then n.amount.toInt else 0) ∧
    s'.userres.valueAt r UserResources.cpu = s.userres.valueAt r UserResources.cpu +
      if r = receiver then c.amount.toInt else 0 := by
  obtain ⟨u, hu, -, hnet, hcpu, -⟩ := h.userres
  rw [hu, Table.valueAt_put _ _ _ _ fun he => (UserResources.zero_of_isEmpty he).1,
    Table.valueAt_put _ _ _ _ fun he => (UserResources.zero_of_isEmpty he).2.1]
  split
  · rename_i hr
    subst hr
    exact ⟨hnet, hcpu⟩
  · exact ⟨(add_zero _).symm, (add_zero _).symm⟩

end StakeChange

/-! ## The actions -/

/-- What a successful `refund` checked and wrote. -/
theorem refund_cases {ctx : Context} {s s' : SystemState F} {owner : Name}
    {sends : List InlineAction} (h : s.refund ctx owner = .ok (s', sends)) :
    ∃ q amount, s.refunds.find? owner = some q ∧
      TimePoint.ofSec q.requestTime + TimePoint.ofSec refundDelaySec ≤ ctx.now ∧
      q.netAmount.add q.cpuAmount = .ok amount ∧
      s' = { s with refunds := s.refunds.erase owner } ∧
      sends = [⟨[stakeAccount, owner], .transfer stakeAccount owner amount "unstake"⟩] := by
  simp only [refund, bind_eq_ok, check_eq_ok, getRow_eq_ok, pure_eq_ok, Prod.mk.injEq] at h
  obtain ⟨_, -, q, hq, _, hmature, amount, hadd, rfl, rfl⟩ := h
  exact ⟨q, amount, hq, hmature, hadd, rfl, rfl⟩

/-- The same over the rows of a symbol: what is paid is what the row adds up to. -/
theorem refund_spec {ctx : Context} {s s' : SystemState F} {owner : Name}
    {sends : List InlineAction} {sym : Symbol} (hrows : StakeRows s sym)
    (h : s.refund ctx owner = .ok (s', sends)) :
    ∃ q amount, s.refunds.find? owner = some q ∧ amount.symbol = sym ∧
      amount.amount.toInt = q.total ∧ s' = { s with refunds := s.refunds.erase owner } ∧
      sends = [⟨[stakeAccount, owner], .transfer stakeAccount owner amount "unstake"⟩] := by
  obtain ⟨q, amount, hq, -, hadd, rfl, rfl⟩ := refund_cases h
  obtain ⟨hpair, -, hs, -⟩ := hrows.refunds owner q hq
  obtain ⟨-, hs', -, hamt⟩ := Asset.add_spec hadd hpair.net_inRange
  exact ⟨q, amount, hq, hs'.trans hs, hamt, rfl, rfl⟩

/-- Setting limits writes to no other table. -/
private theorem updateLimits_eq (s : SystemState F) (receiver : Name) (tot : UserResources) :
    ∃ limits, s.updateLimits receiver tot = { s with limits := limits } := by
  simp only [updateLimits]
  split
  · exact ⟨s.limits, rfl⟩
  · exact ⟨_, rfl⟩

/-- An amount that is at least the zero of the core symbol. -/
theorem ge_zero_spec {sym : Symbol} {zero a : Asset} {v : Bool}
    (hzero : Asset.make 0 sym = .ok zero) (hge : a.ge zero = .ok v) (hv : v = true) :
    a.symbol = sym ∧ 0 ≤ a.amount.toInt := by
  obtain ⟨-, -, -, rfl⟩ := Asset.make_eq_ok.mp hzero
  obtain ⟨hs, hle⟩ := Asset.compare_eq_ok.mp hge
  rw [hv, eq_comm, decide_eq_true_eq] at hle
  have hle := Int64.le_iff_toInt_le.mp hle
  rw [Int64.toInt_zero] at hle
  exact ⟨hs, hle⟩

variable [Double F]

/-- The stake of the voter changes, and a voter that has made a choice votes again. -/
theorem updateVotingPower_cases {ctx : Context} {s s' : SystemState F} {voter : Name}
    {total : Asset} (h : s.updateVotingPower ctx voter total = .ok s') :
    ∃ v, v = changeStake (s.voters.find? voter) total.amount ∧ 0 ≤ v.staked ∧
      (((v.producers.length ≠ 0 ∨ v.proxy.isSet) ∧
        updateVotes ctx { s with voters := s.voters.set voter v } voter v.proxy v.producers false =
          .ok s') ∨
      s' = { s with voters := s.voters.set voter v }) := by
  simp only [updateVotingPower, bind_eq_ok, check_eq_ok] at h
  obtain ⟨_, hnonneg, _, -, h⟩ := h
  refine ⟨_, rfl, hnonneg, ?_⟩
  split at h
  · rename_i hchosen
    exact .inl ⟨hchosen, h⟩
  · exact .inr (pure_eq_ok.mp h).symm

/-- The voting stake of an account changes by the sum of the deltas and ends up not
    negative: a wrapped sum would be caught by the check. -/
theorem updateVotingPower_spec {ctx : Context} {s s' : SystemState F} {voter : Name}
    {total : Asset} (hr : total.InRange) (h0 : 0 ≤ s.stakedOf voter)
    (h : s.updateVotingPower ctx voter total = .ok s') :
    s'.ledgers = s.ledgers ∧ 0 ≤ s'.stakedOf voter ∧
      ∀ f, s'.stakedOf f = s.stakedOf f + if f = voter then total.amount.toInt else 0 := by
  obtain ⟨v, hv, hnn, h⟩ := updateVotingPower_cases h
  have hv := hv.symm
  have hnn := Int64.le_iff_toInt_le.mp hnn
  rw [Int64.toInt_zero] at hnn
  have hstaked : v.staked.toInt = s.stakedOf voter + total.amount.toInt := by
    unfold Asset.InRange at hr
    cases hfind : s.voters.find? voter with
    | none =>
      rw [hfind] at hv
      rw [stakedOf, Table.valueAt_none hfind, ← hv, zero_add]
      rfl
    | some v₀ =>
      rw [hfind] at hv
      rw [stakedOf, Table.valueAt_some hfind] at h0 ⊢
      -- a sum that does not fit becomes negative, and is refused
      have hcases := Int64.toInt_add_cases v₀.staked total.amount
      have hlt := v₀.staked.toInt_lt
      have hnew : v.staked = v₀.staked + total.amount := by rw [← hv]; rfl
      rw [hnew] at hnn ⊢
      omega
  -- only this voter has another stake
  have hset : ∀ f, ({ s with voters := s.voters.set voter v } : SystemState F).stakedOf f =
      s.stakedOf f + if f = voter then total.amount.toInt else 0 := by
    intro f
    show (s.voters.set voter v).valueAt f _ = _
    rw [Table.valueAt_set]
    split
    · rename_i hf
      rw [hf, hstaked]
    · rw [add_zero]
      rfl
  -- voting again changes no stake
  have hend : VoteFrame { s with voters := s.voters.set voter v } s' := by
    obtain ⟨-, h⟩ | rfl := h
    · exact updateVotes_frame h
    · exact .refl _
  refine ⟨hend.ledgers, ?_, fun f => (hend.staked f).trans (hset f)⟩
  rw [hend.staked, hset, if_pos rfl, ← hstaked]
  exact hnn

/-- `changebw` from a state with proper rows and without REX. -/
theorem changebw_spec {ctx : Context} {s s' : SystemState F} {from_ receiver : Name}
    {n c : Asset} {transfer : Bool} {sends : List InlineAction} {sym : Symbol}
    (hrows : StakeRows s sym) (hrex : s.rexbalance = ∅) (h0 : ∀ f, 0 ≤ s.stakedOf f)
    (hsym : n.symbol = sym) (hcore : s.coreSymbol = .ok sym)
    (h : s.changebw ctx from_ receiver n c transfer = .ok (s', sends)) :
    StakeChange sym s s' from_ (if transfer then receiver else from_) receiver n c sends := by
  simp only [changebw, bind_eq_ok, check_eq_ok, pure_eq_ok, Prod.mk.injEq] at h
  obtain ⟨_, -, _, -, total, htotal, _, habs, s₁, hdel, tot, htot, ⟨s₂, sends'⟩, hsettle, total', htotal',
    s₃, hvote, rfl, rfl⟩ := h
  obtain rfl : total' = total := by
    rw [htotal, Except.ok.injEq] at htotal'
    exact htotal'.symm
  -- the quantities have one sign, and their sum is the total
  obtain ⟨hd, heq⟩ := deltas_spec htotal habs
  generalize howner : (if transfer = true then receiver else from_) = owner at hdel hsettle hvote ⊢
  -- the first block: what is delegated
  obtain ⟨d, rfl, hdpair, hdn, hdc⟩ := updateDelband_spec hrows hd hdel
  -- `updateTotals` looks at `userres` only, which the first block has left alone
  have hrows₁ : StakeRows { s with delband := s.delband.put ⟨owner, receiver⟩ d d.isEmpty } sym := by
    refine ⟨fun k d' hk => ?_, hrows.userres, hrows.refunds⟩
    rcases Table.of_find?_put hk with ⟨-, rfl, -⟩ | ⟨-, hk⟩
    · exact hdpair
    · exact hrows.delband k d' hk
  -- the second block: what the receiver has
  obtain ⟨hupair, hun, huc, hur⟩ := updateTotals_spec hrows₁ hd htot
  obtain ⟨limits, hlim⟩ := updateLimits_eq
    { s with delband := s.delband.put ⟨owner, receiver⟩ d d.isEmpty } receiver tot
  rw [hlim] at hsettle
  simp only [storeTotals] at hsettle
  have hrows₂ : StakeRows { s with
      delband := s.delband.put ⟨owner, receiver⟩ d d.isEmpty
      limits := limits
      userres := s.userres.put receiver tot tot.isEmpty } sym := by
    refine ⟨hrows₁.delband, fun r u hr => ?_, hrows.refunds⟩
    rcases Table.of_find?_put hr with ⟨-, rfl, -⟩ | ⟨-, hr⟩
    · exact hupair
    · exact hrows.userres r u hr
  -- the third block: the refund and the transfer
  obtain ⟨refunds, deferred, rfl, hrr, hro, hgift, hsend, hstake, hrt⟩ :=
    settleStake_spec hrows₂ hd hsym hcore hsettle
  rw [updateRexStake_of_empty] at hvote
  swap
  · exact hrex
  have hrange : total'.InRange := by
    have := hd.total_inRange
    unfold Asset.InRange
    omega
  -- the last block: the vote
  obtain ⟨hled, hnn, hstaked⟩ := updateVotingPower_spec hrange (by exact h0 owner) hvote
  rw [heq] at hstaked
  exact
    { deltas := hd
      delband := ⟨d, congrArg Ledgers.delband hled, hdpair, hdn, hdc⟩
      userres := ⟨tot, congrArg Ledgers.userres hled, hupair, hun, huc, hur⟩
      refundRows := by
        rw [show s₃.refunds = refunds from congrArg Ledgers.refunds hled]
        exact hrr
      refundOthers := by
        rw [show s₃.refunds = refunds from congrArg Ledgers.refunds hled]
        exact hro
      refundsOfGift := by
        rw [show s₃.refunds = refunds from congrArg Ledgers.refunds hled]
        intro hne
        refine hgift ?_
        by_contra ht
        rw [if_neg ht] at howner
        exact hne howner.symm
      transfer := hsend
      ofStake := by
        rw [show s₃.refunds = refunds from congrArg Ledgers.refunds hled]
        exact hstake
      refundTotal := by
        rw [show s₃.refunds = refunds from congrArg Ledgers.refunds hled]
        exact hrt
      staked := hstaked
      staked_nonneg := hnn
      token := congrArg Ledgers.token hled
      rammarket := congrArg Ledgers.rammarket hled
      rexbalance := congrArg Ledgers.rexbalance hled
      maxRamSize := congrArg Ledgers.maxRamSize hled
      totalRamBytesReserved := congrArg Ledgers.totalRamBytesReserved hled
      totalRamStake := congrArg Ledgers.totalRamStake hled
      gstate2 := ⟨congrArg Ledgers.newRamPerBlock hled, congrArg Ledgers.lastRamIncrease hled⟩ }

/-- What a successful `delegatebw` did. -/
theorem delegatebw_spec {ctx : Context} {s s' : SystemState F} {from_ receiver : Name}
    {n c : Asset} {transfer : Bool} {sends : List InlineAction} {sym : Symbol}
    (hrows : StakeRows s sym) (hrex : s.rexbalance = ∅) (h0 : ∀ f, 0 ≤ s.stakedOf f)
    (hcore : ∀ sym', s.coreSymbol = .ok sym' → sym' = sym)
    (h : s.delegatebw ctx from_ receiver n c transfer = .ok (s', sends)) :
    s.coreSymbol = .ok sym ∧ n.symbol = sym ∧ 0 ≤ n.amount.toInt ∧ 0 ≤ c.amount.toInt ∧
      StakeChange sym s s' from_ (if transfer then receiver else from_) receiver n c sends := by
  simp only [delegatebw, bind_eq_ok, check_eq_ok] at h
  obtain ⟨sym', hsym, zero, hzero, v, hcge, _, hv, w, hnge, _, hw, _, -, _, -, h⟩ := h
  obtain rfl := hcore sym' hsym
  obtain ⟨hcs, hc0⟩ := ge_zero_spec hzero hcge hv
  obtain ⟨hns, hn0⟩ := ge_zero_spec hzero hnge hw
  exact ⟨hsym, hns, hn0, hc0, changebw_spec hrows hrex h0 hns hsym h⟩

/-- What a successful `undelegatebw` did: a change by the negated amounts. -/
theorem undelegatebw_spec {ctx : Context} {s s' : SystemState F} {from_ receiver : Name}
    {n c : Asset} {sends : List InlineAction} {sym : Symbol}
    (hrows : StakeRows s sym) (hrex : s.rexbalance = ∅) (h0 : ∀ f, 0 ≤ s.stakedOf f)
    (hcore : ∀ sym', s.coreSymbol = .ok sym' → sym' = sym)
    (h : s.undelegatebw ctx from_ receiver n c = .ok (s', sends)) :
    s.coreSymbol = .ok sym ∧ n.symbol = sym ∧ 0 ≤ n.amount.toInt ∧ 0 ≤ c.amount.toInt ∧
      StakeChange sym s s' from_ from_ receiver n.neg c.neg sends := by
  simp only [undelegatebw, bind_eq_ok, check_eq_ok] at h
  obtain ⟨sym', hsym, zero, hzero, _, -, v, hcge, _, hv, w, hnge, _, hw, _, -, _, -, h⟩ := h
  obtain rfl := hcore sym' hsym
  obtain ⟨hcs, hc0⟩ := ge_zero_spec hzero hcge hv
  obtain ⟨hns, hn0⟩ := ge_zero_spec hzero hnge hw
  have hchange := changebw_spec (n := n.neg) hrows hrex h0 hns hsym h
  exact ⟨hsym, hns, hn0, hc0, hchange⟩

end SystemState

end UxContracts
