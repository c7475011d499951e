import UxContracts.Spec.HonestOracles
import UxContracts.Spec.PeriodClose

/-!
# Periods of honest oracles

A period closes only with as many oracles as the threshold asks for that have submitted
what they had committed to. If fewer accounts than that are under the control of an
attacker, one of them is honest and has submitted all that was measured. So a period that
closes is complete: its totals are in the history, and each of its data sets has been
distributed once, and nothing else has (`honest_period`).
-/

namespace UxContracts

namespace ResourceState

variable {F H : Type} [Checksum H] [Double F]

/-! ## Runs from the first action -/

/-- The invariant of the period holds from the first configuration on. -/
theorem step_configured {t : UInt16} (h0 : 0 < t.toNat)
    (hsha : Function.Injective (Checksum.sha256 : List Char → H)) {s s' : ResourceState F H}
    {r : PeriodRecord} {call : ResourceCall F H} (htotals : TotalsInv t s r)
    (hI : s.history ≠ ∅ → CloseInv t s r) (hkeep : KeepsThreshold t call)
    (hfew : FewOracles s call) (h : s.step call = .ok s') :
    s'.history ≠ ∅ → CloseInv t s' (recordPeriod r s call s') := by
  intro hne'
  by_cases hempty : s.history = ∅
  · -- the first configuration, and no other call, writes a history
    have htotals' := htotals.step h0 hsha hkeep hfew h
    cases step_period htotals.core.token h with
    | first hquiet start hempty hhist husage hdatasets horacles htransferred hmade hthreshold =>
      refine ⟨htotals', ?_, ?_, fun d hash hd hle => ?_⟩
      · unfold KeepsThreshold at hkeep
        rw [← hthreshold] at hkeep
        exact hkeep
      · rw [hmade]
        exact List.nodup_nil
      · rw [votes_nil horacles] at hle
        omega
    | kept hquiet husage hdatasets hhist => exact absurd (hhist.trans hempty) hne'
    | totals source cpu net hash start haction hfresh husage hrec horacles hthreshold hmade haccpay
        hout =>
      exact absurd hempty (htotals.submissions.history_ne_empty husage hrec horacles hthreshold hout)
    | dataset source datasetId data start haction htransferred s₁ hsubmit husage hdatasets hhist =>
      exact absurd (hhist.trans hempty) hne'
    | next haction husage hdatasets hhist => exact absurd (hhist.trans hempty) hne'
  · -- afterwards every call keeps the invariant
    exact step_closeInv h0 hsha (hI hempty) hkeep hfew h

/-- A run with one threshold keeps the invariant of closing, in the period it has come to. -/
theorem exec_closeInv {t : UInt16} (h0 : 0 < t.toNat)
    (hsha : Function.Injective (Checksum.sha256 : List Char → H)) (maxBlockNetUsage : UInt64)
    (maxBlockCpuUsage : UInt32) {calls : List (ResourceCall F H)}
    (hkeep : ∀ call ∈ calls, KeepsThreshold t call)
    (hfew : Run.Meets step FewOracles (genesis maxBlockNetUsage maxBlockCpuUsage) calls)
    (hne : (Run.exec step (genesis maxBlockNetUsage maxBlockCpuUsage) calls).history ≠ ∅) :
    ∃ r, CloseInv t (Run.exec step (genesis maxBlockNetUsage maxBlockCpuUsage) calls) r := by
  have hstep : ∀ (p : ResourceState F H × PeriodRecord) call q,
      TotalsInv t p.1 p.2 ∧ (p.1.history ≠ ∅ → CloseInv t p.1 p.2) →
      (KeepsThreshold t call ∧ FewOracles p.1 call) →
      Run.observed step recordPeriod p call = .ok q →
      TotalsInv t q.1 q.2 ∧ (q.1.history ≠ ∅ → CloseInv t q.1 q.2) := by
    intro p call q hI hcond h
    obtain ⟨hstep, hrec⟩ := Run.observed_eq_ok h
    rw [hrec]
    exact ⟨hI.1.step h0 hsha hcond.1 hcond.2 hstep,
      step_configured h0 hsha hI.1 hI.2 hcond.1 hcond.2 hstep⟩
  have hmeets : Run.Meets step (fun s call => KeepsThreshold t call ∧ FewOracles s call)
      (genesis maxBlockNetUsage maxBlockCpuUsage) calls :=
    (Run.meets_of_forall hkeep).and hfew
  have hI := Run.exec_of_meets
    (I := fun p => TotalsInv t p.1 p.2 ∧ (p.1.history ≠ ∅ → CloseInv t p.1 p.2)) hstep
    ⟨.genesis h0 maxBlockNetUsage maxBlockCpuUsage, fun h => absurd rfl h⟩
    (Run.meets_observed recordPeriod .empty hmeets)
  rw [Run.exec_observed_fst] at hI
  exact ⟨_, hI.2 hne⟩

/-! ## Full oracles -/

/-- The full oracles that `nextperiod` has counted have an honest one among them. -/
theorem exists_honest_full {s : ResourceState F H} {r : PeriodRecord} (hsub : SubmissionInv s r)
    {bad : Finset Name} {modal : H}
    (h : bad.card < (s.getConfig.submittingOracles.filter (s.isFull modal)).length) :
    ∃ o ∈ s.getConfig.submittingOracles, o ∉ bad ∧ s.isFull modal o := by
  rw [← hsub.card_full] at h
  obtain ⟨o, ho, hbad⟩ := Finset.exists_mem_notMem_of_card_lt_card h
  obtain ⟨hmem, hfull⟩ := List.mem_filter.mp (List.mem_toFinset.mp ho)
  exact ⟨o, hmem, hbad, hfull⟩

/-- An honest oracle that is full has submitted all that was measured. -/
theorem ReportsMeasured.full {w : MeasuredUsage} {bad : Finset Name} {s : ResourceState F H}
    {r : PeriodRecord} (hI : ReportsMeasured w bad s r)
    (hsha : Function.Injective (Checksum.sha256 : List Char → H))
    (hbytes : Function.Injective (Checksum.bytes : H → List UInt8)) (hsub : SubmissionInv s r)
    {modal : H} {o : Name} (hbad : o ∉ bad) (hfull : s.isFull modal o) :
    ∃ u, s.usage.find? o = some u ∧ u.submissionHashList = w.hashes ∧
      Checksum.sha256 (submissionsText u.submissionHashList) = modal := by
  obtain ⟨u, hu, hcommit, hreveal⟩ := isFull_spec hfull
  refine ⟨u, hu, ?_, hreveal⟩
  have htext := hsha (hreveal.trans (hcommit.symm.trans (hI.commits o u hu hbad)))
  exact submissionsText_inj hbytes (List.length_pos_iff.mp (hsub.hashes_pos hu))
    (List.cons_ne_nil _ _) htext

/-! ## Closing a period -/

/-- With fewer bad oracles than the threshold: when a period closes, its totals are those of the
    last row of the history, and the data sets that have been distributed are the measured ones,
    each once. -/
theorem honest_period {t : UInt16} (hsha : Function.Injective (Checksum.sha256 : List Char → H))
    (hbytes : Function.Injective (Checksum.bytes : H → List UInt8))
    (measured : TimePointSec → MeasuredUsage) {bad : Finset Name} (hbad : bad.card < t.toNat)
    (maxBlockNetUsage : UInt64) (maxBlockCpuUsage : UInt32) {calls : List (ResourceCall F H)}
    (hrun : Run.Meets step (Honest measured bad) (genesis maxBlockNetUsage maxBlockCpuUsage) calls)
    (hkeep : ∀ call ∈ calls, KeepsThreshold t call)
    (hfew : Run.Meets step FewOracles (genesis maxBlockNetUsage maxBlockCpuUsage) calls)
    {ctx : Context} {s' : ResourceState F H} :
    let s := Run.exec step (genesis maxBlockNetUsage maxBlockCpuUsage) calls
    let w := measured s.getConfig.periodStart
    s.history ≠ ∅ → s.step ⟨ctx, .nextperiod⟩ = .ok s' →
    (∃ k row, s.history.last? = some (k, row) ∧ row.timestamp = s.getConfig.periodStart ∧
      (row.totalCpuUs, row.totalNetWords) = w.totals) ∧
    (s.getConfig.accountDistributionsMade.map UInt16.toNat).Perm
      (List.range' 1 w.datasets.length) := by
  intro s w hne hclose
  have h0 : 0 < t.toNat := Nat.zero_lt_of_lt hbad
  -- the record that goes with the run
  obtain ⟨r, hI⟩ := exec_honestInv hsha measured bad maxBlockNetUsage maxBlockCpuUsage hrun
  obtain ⟨r', hclosed⟩ := exec_closeInv h0 hsha maxBlockNetUsage maxBlockCpuUsage hkeep hfew hne
  -- an honest oracle has been counted, and the others agree with it
  obtain ⟨modal, hfull⟩ := nextperiod_full hclose
  rw [hclosed.threshold] at hfull
  obtain ⟨o, -, hgood, ho⟩ :=
    exists_honest_full hI.submissions (lt_of_lt_of_le hbad hfull)
  obtain ⟨u, hu, hlist, hreveal⟩ := hI.reports.full hsha hbytes hI.submissions hgood ho
  have hlength : u.submissionHashList.length = w.datasets.length + 1 := by
    rw [hlist]
    simp [MeasuredUsage.hashes, w, s]
  -- the list of this oracle has enough votes at every place
  have hvotes : ∀ d (hd : d < u.submissionHashList.length),
      t.toNat ≤ s.votes d u.submissionHashList[d] := fun d hd =>
    hfull.trans (full_votes hsha hbytes hI.submissions hu hreveal hd)
  constructor
  · -- so the totals have been issued, from a row that is measured
    have htransferred : s.getConfig.inflationTransferred = true :=
      hclosed.totals.consensus.mpr ⟨_, hvotes 0 (by omega)⟩
    obtain ⟨k, row, hlast, htime⟩ := hI.transferred htransferred
    have htotals := hI.history k row (Table.last?_eq_some.mp hlast).1
    rw [htime] at htotals
    exact ⟨k + 1, row, hlast, htime, htotals⟩
  · -- and the data sets distributed are numbered as the measured ones
    have hnodup : (s.getConfig.accountDistributionsMade.map UInt16.toNat).Nodup :=
      hclosed.once.map fun _ _ => UInt16.toNat_inj.mp
    refine (List.perm_ext_iff_of_nodup hnodup List.nodup_range').mpr fun d => ?_
    rw [List.mem_map, List.mem_range'_1]
    constructor
    · -- a number that is distributed belongs to a measured data set
      rintro ⟨datasetId, hmade, rfl⟩
      obtain ⟨data, hdata⟩ := hI.made datasetId hmade
      obtain ⟨hpos, hle⟩ := MeasuredUsage.number_of_dataset hdata
      have hle : datasetId.toNat ≤ w.datasets.length := hle
      exact ⟨hpos, by omega⟩
    · -- a measured data set has the votes, so it is distributed
      rintro ⟨hpos, hlt⟩
      have hd : d < u.submissionHashList.length := by omega
      exact hclosed.distributed d _ hpos (hvotes d hd)

open Sample in
/-- Carol's lies are in the sample, but it closes with what was measured. -/
theorem honest_period_sample :
    let s := Run.exec step start (lying ++
      [dataset SystemState.Sample.alice 1 [⟨SystemState.Sample.bob, 600000⟩]])
    (∃ s', s.step close = .ok s') ∧ (∃ k row, s.history.last? = some (k, row) ∧
      row.timestamp = s.getConfig.periodStart ∧
      (row.totalCpuUs, row.totalNetWords) = (1000000, 2000)) ∧
    (s.getConfig.accountDistributionsMade.map UInt16.toNat).Perm [1] := by
  intro s
  have hrun : Run.Meets step (Honest measured {carol}) start (lying ++
      [dataset SystemState.Sample.alice 1 [⟨SystemState.Sample.bob, 600000⟩]]) := by
    decide +kernel
  have hkeep : ∀ call ∈ lying ++
      [dataset SystemState.Sample.alice 1 [⟨SystemState.Sample.bob, 600000⟩]],
      KeepsThreshold 2 call := by
    decide +kernel
  have hfew : Run.Meets step FewOracles start (lying ++
      [dataset SystemState.Sample.alice 1 [⟨SystemState.Sample.bob, 600000⟩]]) := by
    decide +kernel
  have hbad : ({carol} : Finset Name).card < (2 : UInt16).toNat := by decide
  have hsize : s.history.size ≠ 0 := by decide +kernel
  have hok : (s.step close).isOk := by decide +kernel
  have hne : s.history ≠ ∅ := fun hempty => hsize (congrArg Table.size hempty)
  have hstep := Run.step_eq_next hok
  exact ⟨⟨_, hstep⟩, honest_period Function.injective_id bytes_injective measured hbad
    1048576 200000 hrun hkeep hfew hne hstep⟩

end ResourceState

end UxContracts
