import UxContracts.Spec.VoterChange

/-!
# The self-stake of active producers

A producer stakes 10 million UTX to itself before it is registered, and `undelegatebw`
refuses to go below that while it is active. The guard subtracts unsigned numbers of 64 bits
that nothing has checked yet. What makes it safe is checked later: the deltas are exact and of
one sign, and no row goes below zero (`checkSelfStake_spec`).
-/

namespace UxContracts

namespace SystemState

variable {F : Type}

/-! ## The guard -/

/-- The sum of two amounts that are not negative is exact as an unsigned number. -/
theorem toNat_toUInt64_add {a b : Int64} (ha : 0 ≤ a.toInt) (hb : 0 ≤ b.toInt) :
    ((a + b).toUInt64.toNat : Int) = a.toInt + b.toInt := by
  have hsum : (a + b).toUInt64 = a.toUInt64 + b.toUInt64 := rfl
  have hlt := a.toInt_lt
  have hlt' := b.toInt_lt
  have hA := Int64.toNat_toUInt64_of_nonneg ha
  have hB := Int64.toNat_toUInt64_of_nonneg hb
  rw [hsum, UInt64.toNat_add]
  omega

/-- The guard of `undelegatebw` passes an active producer if enough of the self-stake is left, and
    also if the amounts are more than the self-stake and the difference wraps around to a number
    that is large enough. -/
theorem checkSelfStake_eq_ok {s : SystemState F} {sym : Symbol} {p : Name} {n c : Asset}
    {info : ProducerInfo F} (hrows : StakeRows s sym) (hn : 0 ≤ n.amount.toInt)
    (hc : 0 ≤ c.amount.toInt) (hinfo : s.producers.find? p = some info)
    (hactive : info.isActive = true) : s.checkSelfStake p n c = .ok () ↔
      (s.delband.find? ⟨p, p⟩).isSome ∧
        (100000000000 ≤ s.selfStake p - (n.amount.toInt + c.amount.toInt) ∨
          s.selfStake p < n.amount.toInt + c.amount.toInt ∧
            n.amount.toInt + c.amount.toInt ≤ s.selfStake p + 2 ^ 64 - 100000000000) := by
  simp only [checkSelfStake, hinfo, hactive, if_true, bind_eq_ok, getRow_eq_ok, check_eq_ok]
  have hchange := toNat_toUInt64_add hn hc
  cases hd : s.delband.find? ⟨p, p⟩ with
  | none => simp
  | some d =>
    obtain ⟨hnet0, hcpu0, -, -⟩ := hrows.delband _ d hd
    have hself : s.selfStake p = d.netWeight.amount.toInt + d.cpuWeight.amount.toInt := by
      unfold selfStake
      rw [Table.valueAt_some hd, Table.valueAt_some hd]
      rfl
    have hstaked := toNat_toUInt64_add hnet0 hcpu0
    have hlt := (n.amount + c.amount).toUInt64.toNat_lt
    have hlt' := (d.netWeight.amount + d.cpuWeight.amount).toUInt64.toNat_lt
    have hmin : (100000000000 : UInt64).toNat = 100000000000 := rfl
    simp only [Option.some.injEq, exists_eq_left', Option.isSome_some, true_and, ge_iff_le,
      UInt64.le_iff_toNat_le, hmin]
    rw [UInt64.toNat_sub]
    omega

/-- If the amounts are not more than the self-stake, the guard compares what would be left. -/
theorem checkSelfStake_spec {s : SystemState F} {sym : Symbol} {p : Name} {n c : Asset}
    {info : ProducerInfo F} (hrows : StakeRows s sym) (hn : 0 ≤ n.amount.toInt)
    (hc : 0 ≤ c.amount.toInt) (hle : n.amount.toInt + c.amount.toInt ≤ s.selfStake p)
    (hinfo : s.producers.find? p = some info) (hactive : info.isActive = true)
    (h : s.checkSelfStake p n c = .ok ()) :
    100000000000 ≤ s.selfStake p - (n.amount.toInt + c.amount.toInt) := by
  obtain ⟨-, hguard⟩ := (checkSelfStake_eq_ok hrows hn hc hinfo hactive).mp h
  omega

/-! ## One change of stake -/

/-- The self-stake of an account changes by the deltas if it is the owner and the receiver. -/
theorem StakeChange.selfStake {s s' : SystemState F} {sym : Symbol} {source owner receiver : Name}
    {n c : Asset} {sends : List InlineAction}
    (h : StakeChange sym s s' source owner receiver n c sends) (p : Name) :
    (p = owner ∧ p = receiver ∧ 0 ≤ s'.selfStake p ∧
        s'.selfStake p = s.selfStake p + (n.amount.toInt + c.amount.toInt)) ∨
      (¬ (p = owner ∧ p = receiver) ∧ s'.selfStake p = s.selfStake p) := by
  obtain ⟨d, hd, hpair, hnet, hcpu⟩ := h.delband
  unfold SystemState.selfStake
  rw [hd, Table.valueAt_put _ _ _ _ fun he => (DelegatedBandwidth.zero_of_isEmpty he).1,
    Table.valueAt_put _ _ _ _ fun he => (DelegatedBandwidth.zero_of_isEmpty he).2]
  simp only [Scoped.mk.injEq]
  by_cases hp : p = owner ∧ p = receiver
  · left
    have hnet0 : 0 ≤ d.net := hpair.net_nonneg
    have hcpu0 : 0 ≤ d.cpu := hpair.cpu_nonneg
    rw [if_pos hp, if_pos hp]
    obtain ⟨rfl, rfl⟩ := hp
    exact ⟨rfl, rfl, by omega, by omega⟩
  · right
    rw [if_neg hp, if_neg hp]
    exact ⟨hp, rfl⟩

/-! ## The invariant -/

/-- An active producer has staked 10 million UTX to itself. -/
def ActiveStaked (s : SystemState F) : Prop :=
  ∀ p t, s.statusOf p = some (true, t) → 100000000000 ≤ s.selfStake p

/-- No self-stake is lower, and no other producer is active. -/
theorem ActiveStaked.mono {s s' : SystemState F} (h : s.ActiveStaked)
    (hstatus : ∀ p, s'.statusOf p = s.statusOf p)
    (hstake : ∀ p t, s.statusOf p = some (true, t) → 100000000000 ≤ s.selfStake p →
      100000000000 ≤ s'.selfStake p) : s'.ActiveStaked := by
  intro p t hp
  rw [hstatus] at hp
  exact hstake p t hp (h p t hp)

theorem selfStake_of_delband {s s' : SystemState F} (h : s'.delband = s.delband) (p : Name) :
    s'.selfStake p = s.selfStake p := by
  unfold selfStake
  rw [h]

theorem statusOf_active {s : SystemState F} {p : Name} {t : TimePoint}
    (h : s.statusOf p = some (true, t)) :
    ∃ info, s.producers.find? p = some info ∧ info.isActive = true := by
  obtain ⟨info, hinfo, heq⟩ := Option.map_eq_some_iff.mp h
  exact ⟨info, hinfo, (Prod.mk.inj heq).1⟩

variable [Double F]

/-- Only registration and deactivation change the status of a producer. -/
theorem VoterChange.status_eq {s s' : SystemState F} {call : AccountCall F}
    (hrex : s.rexbalance = ∅) (h : VoterChange s call s') :
    (∀ p, s'.statusOf p = s.statusOf p) ∨
      (∀ a direct, call.action ≠ .system a direct) ∧ ∃ p active, StatusChange s s' p active ∧
        (active = true → s.checkRegistration p = .ok ()) := by
  cases h with
  -- only registration changes the status of a producer
  | same hsame => exact .inl hsame.weights.status
  | voted voterName proxy producers direct action vote =>
    obtain ⟨b, -, -, hstatus⟩ := updateVotes_base vote
    exact .inl hstatus
  | proxied proxy isproxy direct action reg =>
    left
    obtain ⟨b, -, -, -, hstatus⟩ := regproxy_base reg
    exact hstatus
  | staked a direct action p point u vote token =>
    obtain ⟨-, hstatus⟩ := updateVotingPower_base vote
    have hstate := votingPoint_state hrex point
    left
    intro q
    rw [token]
    show u.statusOf q = _
    rw [hstatus, hstate]
    rfl
  | status notSystem p active change selfStaked =>
    exact .inr ⟨notSystem, p, active, change, selfStaked⟩
  | flagged notSystem account v flags1 row limits change =>
    subst change
    exact .inl fun _ => rfl

/-- A call of the system contract keeps the self-stakes of active producers. -/
theorem step_selfStake {s s' : SystemState F} {ctx : Context} {a : SystemAction F}
    (hI : s.StakeInv) (h : s.step ⟨ctx, a⟩ = .ok s') (p : Name) (t : TimePoint)
    (hp : s.statusOf p = some (true, t)) (hstake : 100000000000 ≤ s.selfStake p) :
    100000000000 ≤ s'.selfStake p := by
  have hcore : ∀ sym, s.coreSymbol = .ok sym → sym = s.coreSym := fun _ => coreSym_of_ok
  cases hmoves : movesStake a with
  | false =>
    -- no stake moves, so the row is the same
    have hdel : s'.delband = s.delband := by
      cases hinit : isInit a with
      | false => exact (step_stakeFrame hI.noRex hinit hmoves h).delband
      | true =>
        cases a with
        | init version core =>
          obtain ⟨u, sends, token, hr, -, rfl⟩ := commit_eq_ok.mp h
          obtain ⟨m, -, -, -, rfl, -⟩ := init_spec hr
          rfl
        | _ => cases hinit
    rw [selfStake_of_delband hdel]
    exact hstake
  | true =>
    cases a with
    | delegatebw from_ receiver net cpu transfer =>
      obtain ⟨u, sends, token, hr, -, rfl⟩ := commit_eq_ok.mp h
      obtain ⟨-, -, hn0, hc0, hchange⟩ := delegatebw_spec hI.rows hI.noRex hI.stakedOf_nonneg hcore hr
      -- a delegation adds to the row
      show 100000000000 ≤ u.selfStake p
      rcases hchange.selfStake p with ⟨-, -, -, heq⟩ | ⟨-, heq⟩
      · omega
      · omega
    | undelegatebw from_ receiver net cpu =>
      obtain ⟨u, sends, token, hr, -, rfl⟩ := commit_eq_ok.mp h
      obtain ⟨-, -, -, -, -, hguard, -⟩ := undelegatebw_changebw hr
      obtain ⟨-, -, hn0, hc0, hchange⟩ :=
        undelegatebw_spec hI.rows hI.noRex hI.stakedOf_nonneg hcore hr
      show 100000000000 ≤ u.selfStake p
      -- the row of the producer itself, or another one
      rcases hchange.selfStake p with ⟨rfl, -, hleft, heq⟩ | ⟨-, heq⟩
      · -- what is taken back is not more than what is there
        have hneg : net.neg.amount.toInt = -net.amount.toInt := Int64.toInt_neg_of_nonneg hn0
        have hneg' : cpu.neg.amount.toInt = -cpu.amount.toInt := Int64.toInt_neg_of_nonneg hc0
        obtain ⟨info, hinfo, hactive⟩ := statusOf_active hp
        have hkept := checkSelfStake_spec hI.rows hn0 hc0 (by omega) hinfo hactive hguard
        omega
      · omega
    | refund owner =>
      obtain ⟨u, sends, token, hr, -, rfl⟩ := commit_eq_ok.mp h
      obtain ⟨q, amount, -, -, -, rfl, -⟩ := refund_spec hI.rows hr
      -- a refund is paid from what has left the row
      exact hstake
    | _ => cases hmoves

/-- No call leaves an active producer without its stake. -/
theorem accountStep_activeStaked {s s' : SystemState F} {call : AccountCall F} (hI : s.StakeInv)
    (hactive : s.ActiveStaked) (h : s.accountStep call = .ok s') : s'.ActiveStaked := by
  rcases (accountStep_change hI.noRex h).status_eq hI.noRex with hstatus |
    ⟨-, p, active, hchange, hself⟩
  · -- the same status, and the stake has not gone below the minimum
    refine hactive.mono hstatus fun p t hp hstake => ?_
    rcases accountStep_cases h with ⟨a, direct, -, hstep⟩ | ⟨q, active, -, hchange, -⟩ |
      ⟨q, account, value, -, hset⟩
    · -- an action of the system contract
      exact step_selfStake hI hstep p t hp hstake
    · rw [selfStake_of_delband hchange.frame.delband]
      exact hstake
    · -- a limit is no stake
      obtain ⟨v, -, rfl, -⟩ := setacct_spec hset
      exact hstake
  · -- the producer that registers has been checked
    intro q t hq
    rw [selfStake_of_delband hchange.frame.delband]
    have hrow := hchange.status q
    split at hrow
    · rename_i hqp
      obtain ⟨t', hrow⟩ := hrow
      rw [hq, Option.some.injEq, Prod.mk.injEq] at hrow
      rw [hqp]
      exact checkRegistration_spec hI.rows (hself hrow.1.symm)
    · rw [hrow] at hq
      exact hactive q t hq

/-! ## Runs -/

/-- In every state that a run reaches from empty tables, the ledgers agree and active producers have
    staked enough. -/
theorem exec_activeStaked {s : SystemState F} (hs : s.NoVotes) (calls : List (AccountCall F)) :
    (Run.exec accountStep s calls).StakeInv ∧ (Run.exec accountStep s calls).ActiveStaked := by
  have hstart : s.ActiveStaked := by
    intro p t hp
    unfold statusOf at hp
    rw [hs.producers, Table.find?_empty] at hp
    cases hp
  exact Run.exec_induction (I := fun s : SystemState F => s.StakeInv ∧ s.ActiveStaked)
    (fun _ _ _ hI h => ⟨accountStep_stakeInv hI.1 h, accountStep_activeStaked hI.1 hI.2 h⟩)
    ⟨hs.toEmptyTables.stakeInv, hstart⟩ calls

omit [Double F] in
theorem ActiveStaked.of_row {s : SystemState F} (h : s.ActiveStaked) {p : Name}
    {info : ProducerInfo F} (hinfo : s.producers.find? p = some info)
    (hactive : info.isActive = true) : 100000000000 ≤ s.selfStake p := by
  refine h p info.lastClaimTime ?_
  unfold statusOf
  rw [hinfo, ← hactive]
  rfl

omit [Double F] in
/-- An account with a self-stake has a row. -/
theorem exists_selfRow {s : SystemState F} {p : Name} (h : 0 < s.selfStake p) :
    ∃ d, s.delband.find? ⟨p, p⟩ = some d ∧ s.selfStake p = d.net + d.cpu := by
  unfold selfStake at h ⊢
  cases hd : s.delband.find? ⟨p, p⟩ with
  | none =>
    rw [Table.valueAt_none hd, Table.valueAt_none hd] at h
    exact absurd h (by decide)
  | some d =>
    rw [Table.valueAt_some hd, Table.valueAt_some hd]
    exact ⟨d, rfl, rfl⟩

/-- In every state that a run reaches from empty tables, an active producer has a `delband` row to
    itself with at least 10 million UTX. -/
theorem active_producers_staked {s : SystemState F} (hs : s.NoVotes) (calls : List (AccountCall F)) :
    let u := Run.exec accountStep s calls
    ∀ p info, u.producers.find? p = some info → info.isActive = true →
      ∃ d, u.delband.find? ⟨p, p⟩ = some d ∧ 100000000000 ≤ d.net + d.cpu := by
  intro u p info hinfo hactive
  have hself : 100000000000 ≤ u.selfStake p :=
    (exec_activeStaked hs calls).2.of_row hinfo hactive
  obtain ⟨d, hd, heq⟩ := exists_selfRow (s := u) (p := p) (by omega)
  exact ⟨d, hd, by omega⟩

/-- Bob is given 10 million UTX of stake and registers; he cannot take any of it back. -/
def Sample.registration : List (AccountCall Rat) :=
  [⟨ctx [eosioAccount] launch,
      .system (.delegatebw eosioAccount bob (utx 60000000000) (utx 40000000000) true) rfl⟩,
    ⟨ctx [bob] launch, .regproducer bob "https://bob"⟩,
    ⟨ctx [bob] launch, .system (.undelegatebw bob bob (utx 1) (utx 0)) rfl⟩]

open Sample in
/-- In the sample, bob is active and has staked 10 million UTX to himself. -/
theorem active_producers_staked_sample :
    ∃ d, (Run.exec accountStep start registration).delband.find? ⟨bob, bob⟩ = some d ∧
      100000000000 ≤ d.net + d.cpu := by
  have hrow : ((Run.exec accountStep start registration).producers.find? bob).any
      ProducerInfo.isActive := by
    decide +kernel
  obtain ⟨info, hinfo, hactive⟩ := (Option.any_eq_true _ _).mp hrow
  exact active_producers_staked start_noVotes registration bob info hinfo hactive

/-! ## What the guard refuses -/

/-- The self-stake of `p` when it has taken back `n` and `c` from `receiver`. -/
def selfStakeAfter (s : SystemState F) (p receiver : Name) (n c : Asset) : Int :=
  s.selfStake p - if receiver = p then n.amount.toInt + c.amount.toInt else 0

/-- What `undelegatebw` does to the self-stake. -/
theorem undelegatebw_selfStake {s s' : SystemState F} {ctx : Context} {p receiver : Name}
    {n c : Asset} (hI : s.StakeInv) (h : s.step ⟨ctx, .undelegatebw p receiver n c⟩ = .ok s') :
    s'.selfStake p = s.selfStakeAfter p receiver n c := by
  have hcore : ∀ sym, s.coreSymbol = .ok sym → sym = s.coreSym := fun _ => coreSym_of_ok
  obtain ⟨u, sends, token, hr, -, rfl⟩ := commit_eq_ok.mp h
  obtain ⟨-, -, hn0, hc0, hchange⟩ :=
    undelegatebw_spec hI.rows hI.noRex hI.stakedOf_nonneg hcore hr
  have hneg : n.neg.amount.toInt = -n.amount.toInt := Int64.toInt_neg_of_nonneg hn0
  have hneg' : c.neg.amount.toInt = -c.amount.toInt := Int64.toInt_neg_of_nonneg hc0
  show u.selfStake p = _
  unfold selfStakeAfter
  rcases hchange.selfStake p with ⟨-, hp, -, heq⟩ | ⟨hp, heq⟩
  · rw [if_pos hp.symm]
    omega
  · rw [if_neg fun hr => hp ⟨rfl, hr.symm⟩]
    omega

/-- In a state that a run has reached, the guard of `undelegatebw` refuses what would leave an
    active producer with less than 10 million UTX of self-stake, and nothing else, exactly in two
    cases: the producer is the receiver and the amounts are at most its self-stake, or it is not
    the receiver and the amounts are so small that they could be taken from the self-stake, or
    more than it. -/
theorem self_stake_guard {s : SystemState F} (hs : s.NoVotes) (calls : List (AccountCall F))
    {p : Name} {info : ProducerInfo F} {n c : Asset} (receiver : Name)
    (hinfo : (Run.exec accountStep s calls).producers.find? p = some info)
    (hactive : info.isActive = true) (hn : 0 ≤ n.amount.toInt) (hc : 0 ≤ c.amount.toInt) :
    let u := Run.exec accountStep s calls
    (∀ ctx u', u.step ⟨ctx, .undelegatebw p receiver n c⟩ = .ok u' →
      u'.selfStake p = u.selfStakeAfter p receiver n c) ∧
    ((u.checkSelfStake p n c ≠ .ok () ↔ u.selfStakeAfter p receiver n c < 100000000000) ↔
      if receiver = p then n.amount.toInt + c.amount.toInt ≤ u.selfStake p
      else n.amount.toInt + c.amount.toInt ≤ u.selfStake p - 100000000000 ∨
        u.selfStake p < n.amount.toInt + c.amount.toInt) := by
  intro u
  obtain ⟨hI, hstaked⟩ : u.StakeInv ∧ u.ActiveStaked := exec_activeStaked hs calls
  have hself : 100000000000 ≤ u.selfStake p := hstaked.of_row hinfo hactive
  obtain ⟨d, hd, -⟩ := exists_selfRow (s := u) (p := p) (by omega)
  refine ⟨fun ctx u' h => undelegatebw_selfStake hI h, ?_⟩
  have hlt := n.amount.toInt_lt
  have hlt' := c.amount.toInt_lt
  rw [ne_eq, checkSelfStake_eq_ok hI.rows hn hc hinfo hactive, hd]
  unfold selfStakeAfter
  split
  · simp only [Option.isSome_some, true_and]
    omega
  · simp only [Option.isSome_some, true_and]
    omega

/-- Bob has 10 million UTX of self-stake and has registered. Then he lends some tokens to alice. -/
def Sample.lending : List (AccountCall Rat) :=
  registration ++
    [⟨ctx [eosioAccount] launch, .system (.token (.transfer eosioAccount bob (utx 1000) "")) rfl⟩,
      ⟨ctx [bob] launch, .system (.delegatebw bob alice (utx 1000) (utx 0) false) rfl⟩]

open Sample in
/-- The guard refuses that bob takes back a part of his self-stake. -/
theorem self_stake_guard_sample :
    let u := Run.exec accountStep start registration
    u.checkSelfStake bob (utx 1) (utx 0) ≠ .ok () ∧
      u.selfStakeAfter bob bob (utx 1) (utx 0) < 100000000000 := by
  intro u
  have hrow : (u.producers.find? bob).any ProducerInfo.isActive := by decide +kernel
  obtain ⟨info, hinfo, hactive⟩ := (Option.any_eq_true _ _).mp hrow
  obtain ⟨-, hexact⟩ := self_stake_guard start_noVotes registration bob hinfo hactive
    (n := utx 1) (c := utx 0) (by decide) (by decide)
  have hafter : u.selfStakeAfter bob bob (utx 1) (utx 0) < 100000000000 := by decide +kernel
  exact ⟨(hexact.mpr (by decide +kernel)).mpr hafter, hafter⟩

open Sample in
/-- The guard refuses that bob takes back what he has lent to alice, which leaves his self-stake as
    it is, and it lets him ask for more than his self-stake. -/
theorem self_stake_guard_misses :
    let u := Run.exec accountStep start lending
    (u.producers.find? bob).any ProducerInfo.isActive ∧
      (u.delband.find? ⟨bob, alice⟩).any (fun d => d.net = 1000) ∧
      u.checkSelfStake bob (utx 1000) (utx 0) ≠ .ok () ∧
      u.selfStakeAfter bob alice (utx 1000) (utx 0) = 100000000000 ∧
      u.checkSelfStake bob (utx 200000000000) (utx 0) = .ok () ∧
      u.selfStakeAfter bob bob (utx 200000000000) (utx 0) < 0 := by
  decide +kernel

end SystemState

end UxContracts
