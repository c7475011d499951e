import UxContracts.ForStd.List
import UxContracts.Spec.HonestOracles
import UxContracts.Spec.UtilityPool

/-!
# The pool of honest oracles

The pool of the users can be overdrawn by oracles whose data sets together exceed the
agreed total. If fewer accounts than the threshold are bad, what is distributed was
measured, so it fits into the measured total, and the pool is solvent (`honest_pool`).
Two data sets with one text are excluded here: with them a bad oracle could replace the
data that the others have agreed on.
-/

namespace UxContracts

/-- The data sets have entries with CPU only, and they fit into the measured total. -/
structure MeasuredUsage.Fits (w : MeasuredUsage) : Prop where
  sum_le : (w.datasets.map cpuOf).sum ≤ w.totals.1.toNat
  pos : ∀ d ∈ w.datasets, ∀ m ∈ d, 0 < m.u.toNat

/-- There is CPU in a measured data set, if it has an entry. -/
theorem MeasuredUsage.Fits.cpuOf_pos {w : MeasuredUsage} (h : w.Fits) {d : List Metric}
    (hd : d ∈ w.datasets) (hne : d ≠ []) : 0 < cpuOf d := by
  cases d with
  | nil => exact absurd rfl hne
  | cons m d =>
    have hpos := h.pos _ hd m List.mem_cons_self
    unfold cpuOf
    rw [List.map_cons, List.sum_cons]
    omega

namespace ResourceState

variable {F H : Type} [Checksum H] [Double F]

/-- What has been credited in the period are measured data sets, each at most once. -/
structure CreditInv (measured : TimePointSec → MeasuredUsage) (bad : Finset Name)
    (s : ResourceState F H) (r : PeriodRecord) : Prop where
  honest : HonestInv measured bad s r
  stored : DataInv s r
  credited : r.credited.map Credit.datasetId = s.getConfig.accountDistributionsMade
  once : s.getConfig.accountDistributionsMade.Nodup
  measured : ∀ c ∈ r.credited,
    (measured s.getConfig.periodStart).dataset c.datasetId = some c.data

namespace CreditInv

variable {measured : TimePointSec → MeasuredUsage} {bad : Finset Name} {s s' : ResourceState F H}
  {r : PeriodRecord}

/-- In a period in which nothing has been distributed nothing has been credited. -/
theorem of_none (hhonest : HonestInv measured bad s r) (hstored : DataInv s r)
    (hcredited : r.credited = []) (hmade : s.getConfig.accountDistributionsMade = []) :
    CreditInv measured bad s r where
  honest := hhonest
  stored := hstored
  credited := by
    rw [hcredited, hmade]
    rfl
  once := by
    rw [hmade]
    exact List.nodup_nil
  measured := fun c hc => by
    rw [hcredited] at hc
    cases hc

theorem genesis (maxBlockNetUsage : UInt64) (maxBlockCpuUsage : UInt32) :
    CreditInv measured bad (genesis maxBlockNetUsage maxBlockCpuUsage : ResourceState F H)
      .empty :=
  of_none (.genesis _ _) (genesis_dataInv _ _) rfl rfl

/-- A call that distributes nothing. -/
theorem same (hI : CreditInv measured bad s r) {r' : PeriodRecord}
    (hhonest : HonestInv measured bad s' r') (hstored : DataInv s' r')
    (hcredited : r'.credited = r.credited)
    (hmade : s'.getConfig.accountDistributionsMade = s.getConfig.accountDistributionsMade)
    (hstart : s'.getConfig.periodStart = s.getConfig.periodStart) :
    CreditInv measured bad s' r' := by
  refine ⟨hhonest, hstored, ?_, ?_, ?_⟩
  · rw [hcredited, hmade]
    exact hI.credited
  · rw [hmade]
    exact hI.once
  · rw [hcredited, hstart]
    exact hI.measured

omit [Double F] in
/-- What as many oracles as the threshold asks for have submitted is what was measured. -/
theorem measured_of_passers {w : MeasuredUsage} (hI : ReportsMeasured w bad s r)
    {datasetId : UInt16} {data : List Metric} (h : bad.card < (r.passers datasetId data).card) :
    w.dataset datasetId = some data := by
  obtain ⟨o, ho, hbad⟩ := Finset.exists_mem_notMem_of_card_lt_card h
  exact hI.datasets o datasetId data (mem_passers.mp ho) hbad

/-- What a call credits is the measured data set of its number, since no other one has its text. -/
theorem step (hsha : Function.Injective (Checksum.sha256 : List Char → H))
    (hI : CreditInv measured bad s r) {call : ResourceCall F H} (hcall : Honest measured bad s call)
    (hno : NoCollision s call) (h : s.step call = .ok s') :
    CreditInv measured bad s' (recordPeriod r s call s') := by
  -- both invariants are kept by the step
  have hhonest := hI.honest.step hsha hcall h
  have hstored := step_dataInv hI.stored hno h
  cases step_period hI.honest.core.token h with
  | kept hquiet husage hdatasets hhist hsame hthreshold hunset haccpay =>
    rw [recordPeriod_of_quiet hquiet] at hhonest hstored ⊢
    -- a new period is no quiet call
    have hnext : call.action ≠ .nextperiod := by
      intro he
      rw [he] at hquiet
      cases hquiet
    have hstart := (step_config h).2 hnext
    rcases hcall.start with horacles | hkeep
    · -- the start may be set again, since nothing has been distributed yet
      have hmade := (hI.honest.idle horacles).2.1
      have hcredited := hI.credited
      rw [hmade] at hcredited
      exact of_none hhonest hstored (List.map_eq_nil_iff.mp hcredited) (hsame.made.trans hmade)
    · -- otherwise the credits are for the same start
      exact hI.same hhonest hstored rfl hsame.made (hstart.trans hkeep)
  | first hquiet start hempty hhist husage hdatasets horacles htransferred hmade hthreshold =>
    rw [recordPeriod_of_quiet hquiet] at hhonest hstored ⊢
    obtain ⟨-, -, -, rfl⟩ := hI.honest.submissions.unset hempty
    exact of_none hhonest hstored rfl hmade
  | totals source cpu net hash start haction hfresh husage hrec horacles hthreshold hmade haccpay
      hout =>
    have hnext : call.action ≠ .nextperiod := fun he => by
      rw [he] at haction
      cases haction
    have hstart := (step_config h).2 hnext
    rw [haction] at hstart
    -- totals credit nothing
    refine hI.same hhonest hstored ?_ hmade hstart
    rw [recordPeriod_totals haction]
  | dataset source datasetId data start haction htransferred s₁ hsubmit husage hdatasets hhist hsys
      horacles hstill hthreshold hout =>
    have hnext : call.action ≠ .nextperiod := fun he => by
      rw [he] at haction
      cases haction
    have hstart := (step_config h).2 hnext
    rw [haction] at hstart
    have hr : (recordPeriod r s call s').credited = r.credited ++ (s.dueCredit call).toList := by
      rw [recordPeriod_dataset haction]
    rcases hout with ⟨-, hnone, -, hmade⟩ | ⟨due, hdue, hsome, -, hmade⟩
    · -- nothing is due
      rw [hnone, Option.toList_none, List.append_nil] at hr
      exact hI.same hhonest hstored hr hmade hstart
    · rw [hsome, Option.toList_some] at hr
      -- what is due has not been distributed before
      have hnew := (dueDataset_spec hdue).1
      refine ⟨hhonest, hstored, ?_, ?_, fun c hc => ?_⟩
      · -- the credits are numbered as the data sets that are distributed
        rw [hr, hmade, List.map_append, hI.credited]
        rfl
      · rw [hmade]
        exact List.Nodup.append hI.once (List.nodup_singleton _) (by simpa using hnew)
      · have hpassers := hstored.authentic c hc
        rw [hr] at hc
        -- each credit is the measured data set of its number
        rcases List.mem_append.mp hc with hold | hnew
        · have hstart : s'.getConfig.periodStart = s.getConfig.periodStart := hstart
          rw [hstart]
          exact hI.measured c hold
        · obtain rfl := List.mem_singleton.mp hnew
          -- more oracles than the bad ones have submitted it
          apply measured_of_passers hhonest.reports
          refine lt_of_lt_of_le (hI.honest.threshold fun hempty => ?_) hpassers
          have hopen := (hI.honest.submissions.unset hempty).2.1
          rw [htransferred] at hopen
          cases hopen
  | next haction husage hdatasets hhist horacles htransferred hmade hthreshold =>
    rw [recordPeriod_next haction] at hhonest hstored ⊢
    -- a new period starts without credits
    exact of_none hhonest hstored rfl hmade

/-- What has been distributed is a part of what was measured. -/
theorem distributed_le (hI : CreditInv measured bad s r) :
    r.distributedCpu ≤ ((measured s.getConfig.periodStart).datasets.map cpuOf).sum := by
  have hplaces : ∀ c ∈ r.credited, 0 < c.datasetId.toNat ∧
      (measured s.getConfig.periodStart).datasets[c.datasetId.toNat - 1]? = some c.data :=
    fun c hc => MeasuredUsage.dataset_eq_some.mp (hI.measured c hc)
  have hids : (r.credited.map Credit.datasetId).Nodup := by
    rw [hI.credited]
    exact hI.once
  apply List.sum_le_sum_of_places fun c => c.datasetId.toNat - 1
  · have hmap : (r.credited.map fun c => c.datasetId.toNat - 1) =
        (r.credited.map Credit.datasetId).map fun i => i.toNat - 1 := by
      rw [List.map_map]
      rfl
    rw [hmap]
    refine hids.map_on fun i hi j hj heq => ?_
    obtain ⟨c, hc, rfl⟩ := List.mem_map.mp hi
    obtain ⟨c', hc', rfl⟩ := List.mem_map.mp hj
    have hpos := (hplaces c hc).1
    have hpos' := (hplaces c' hc').1
    exact UInt16.toNat_inj.mp (by omega)
  · exact fun c hc => ⟨c.data, (hplaces c hc).2, rfl⟩

/-- What an accepted call distributes fits into the agreed total. -/
theorem fits (hsha : Function.Injective (Checksum.sha256 : List Char → H))
    (hmeasured : ∀ start, (measured start).Fits) (hI : CreditInv measured bad s r)
    {call : ResourceCall F H} (hcall : Honest measured bad s call) (hno : NoCollision s call) :
    FitsTotal s r call := by
  unfold FitsTotal
  split
  · rename_i s' c h hdue
    obtain ⟨ctx, action⟩ := call
    cases action with
    | addactusg source datasetId data start =>
      have hI' := hI.step hsha hcall hno h
      have hstart : s'.getConfig.periodStart = s.getConfig.periodStart :=
        (step_config h).2 (fun he => by cases he)
      -- after the call the credit is on the record
      have hr : (recordPeriod r s ⟨ctx, .addactusg source datasetId data start⟩ s').credited =
          r.credited ++ [c] := by
        show r.credited ++ (s.dueCredit ⟨ctx, .addactusg source datasetId data start⟩).toList = _
        rw [hdue]
        rfl
      have hw := hmeasured s.getConfig.periodStart
      have hle := hI'.distributed_le
      have hdata := hI'.measured c (by rw [hr]; exact List.mem_append_right _ List.mem_cons_self)
      unfold PeriodRecord.distributedCpu at hle
      rw [hr, hstart, List.map_append, List.sum_append, List.map_singleton,
        List.sum_singleton] at hle
      rw [hstart] at hdata
      -- the agreed total is the measured one
      have htransferred : s.getConfig.inflationTransferred = true := (addactusg_spec h).1
      obtain ⟨k, row, hlast, htime⟩ := hI.honest.transferred htransferred
      have htotals := hI.honest.history k row (Table.last?_eq_some.mp hlast).1
      have hagreed : s.agreedCpu = (measured s.getConfig.periodStart).totals.1.toNat := by
        unfold agreedCpu
        rw [hlast, ← htime, ← htotals]
        rfl
      -- what has been distributed is a part of the measured sum
      have hsum : r.distributedCpu + cpuOf c.data ≤ s.agreedCpu := by
        rw [hagreed]
        exact hle.trans hw.sum_le
      by_cases hnil : c.data = []
      · exact .inl hnil
      · have hmem := List.mem_of_getElem? (MeasuredUsage.dataset_eq_some.mp hdata).2
        have hpos := hw.cpuOf_pos hmem hnil
        exact .inr ⟨by omega, hsum⟩
    | _ => cases hdue
  · trivial

end CreditInv

/-! ## Runs -/

/-- With fewer bad oracles than the threshold, measured data sets that fit into the measured
    totals and no two data sets with one text: what accounts can claim and what they have been
    paid is at most what has been transferred to `eosio.upay`, and in each period no more is
    credited than is transferred. -/
theorem honest_pool (hsha : Function.Injective (Checksum.sha256 : List Char → H))
    (hexact : Double.ExactShares F) {measured : TimePointSec → MeasuredUsage}
    (hmeasured : ∀ start, (measured start).Fits) (bad : Finset Name) (maxBlockNetUsage : UInt64)
    (maxBlockCpuUsage : UInt32) {calls : List (ResourceCall F H)}
    (hrun : Run.Meets step (Honest measured bad) (genesis maxBlockNetUsage maxBlockCpuUsage) calls)
    (hno : Run.Meets step NoCollision (genesis maxBlockNetUsage maxBlockCpuUsage) calls) :
    let p := Run.exec (Run.observed step recordPool)
      (genesis maxBlockNetUsage maxBlockCpuUsage, .empty) calls
    accountTotal p.1.accpay + p.2.paid ≤ p.2.transferred ∧
      p.2.periodCredited ≤ p.2.periodTransferred := by
  intro p
  have hstep : ∀ (p : ResourceState F H × PoolRecord) call q,
      CreditInv measured bad p.1 p.2.period ∧ PoolInv p.1 p.2 →
      (Honest measured bad p.1 call ∧ NoCollision p.1 call) →
      Run.observed step recordPool p call = .ok q →
      CreditInv measured bad q.1 q.2.period ∧ PoolInv q.1 q.2 := by
    intro p call q hI hcall h
    obtain ⟨hstep, hrec⟩ := Run.observed_eq_ok h
    rw [hrec]
    have hfits := hI.1.fits hsha hmeasured hcall.1 hcall.2
    exact ⟨hI.1.step hsha hcall.1 hcall.2 hstep, step_poolInv hexact hI.2 hfits hstep⟩
  have hI : CreditInv measured bad p.1 p.2.period ∧ PoolInv p.1 p.2 :=
    Run.exec_of_meets (I := fun p => CreditInv measured bad p.1 p.2.period ∧ PoolInv p.1 p.2) hstep
      ⟨.genesis maxBlockNetUsage maxBlockCpuUsage, genesis_poolInv _ _⟩
      (Run.meets_observed recordPool .empty (hrun.and hno))
  have hle := hI.2.credited_le
  have hsolvent := hI.2.solvent
  exact ⟨by omega, hle⟩

/-- Bob claims what he is paid for his CPU, although carol has lied about him. -/
def Sample.claiming : List (ResourceCall Rat (List Char)) :=
  lying ++ [dataset SystemState.Sample.alice 1 [⟨SystemState.Sample.bob, 600000⟩],
    call SystemState.Sample.bob (.claimdistrib SystemState.Sample.bob)]

open Sample in
/-- The pool of the sample pays him. -/
theorem honest_pool_sample :
    let p := Run.exec (Run.observed step recordPool) (start, .empty) claiming
    accountTotal p.1.accpay + p.2.paid ≤ p.2.transferred ∧ 0 < p.2.paid := by
  have hmeasured : ∀ start, (measured start).Fits := by
    intro start
    unfold measured
    refine ⟨by decide, fun d hd m hm => ?_⟩
    rw [List.mem_singleton.mp hd] at hm
    rw [List.mem_singleton.mp hm]
    decide
  have hrun : Run.Meets step (Honest measured {carol}) start claiming := by decide +kernel
  have hno : Run.Meets step NoCollision start claiming := by decide +kernel
  have hsample := honest_pool Function.injective_id Double.exactShares_rat hmeasured {carol} 1048576
    200000 hrun hno
  have hpaid : 0 < (Run.exec (Run.observed step recordPool) (start, .empty) claiming).2.paid := by
    decide +kernel
  unfold Sample.start at hpaid ⊢
  exact ⟨hsample.1, hpaid⟩

end ResourceState

end UxContracts
