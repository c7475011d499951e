import UxContracts.Spec.HonestPeriods

/-!
# Bad oracles cannot keep a period open

When its time is over, a period closes exactly if as many oracles as the threshold asks for have
submitted what was measured, whatever else has been submitted (`honest_quorum_closes`). For an
honest oracle it is enough that it has submitted all its data sets (`ReportsMeasured.submitted`).
With fewer bad oracles than the threshold, no other commitment than the measured one can have enough
votes, so it is the one that the oracles are scored against (`ReportsMeasured.modal_commit`).
-/

namespace UxContracts

namespace ResourceState

variable {F H : Type} [Checksum H]

/-! ## Scoring -/

/-- The oracles are scored if they have rows. -/
theorem scoreOracles_ok {s : ResourceState F H} (modal : H) {oracles : List Name}
    (h : ∀ o ∈ oracles, (s.usage.find? o).isSome) (sources : Table Name Source) (full : Nat) :
    ∃ sources', s.scoreOracles modal sources full oracles =
      .ok (sources', full + (oracles.filter (s.isFull modal)).length) := by
  obtain ⟨⟨sources', full'⟩, hscore⟩ :
      ∃ r, s.scoreOracles modal sources full oracles = .ok r := by
    induction oracles generalizing sources full with
    | nil => exact ⟨_, rfl⟩
    | cons o os ih =>
      obtain ⟨u, hu⟩ := Option.isSome_iff_exists.mp (h o List.mem_cons_self)
      simp only [scoreOracles, bind_eq_ok, getRow_eq_ok]
      obtain ⟨r, hr⟩ := ih (fun o' ho' => h o' (List.mem_cons_of_mem _ ho')) _ _
      exact ⟨r, u, hu, hr⟩
  refine ⟨sources', ?_⟩
  rw [hscore, scoreOracles_spec hscore]

/-- An oracle whose row has all of the report is counted as full. -/
theorem isFull_of_hasSubmitted {s : ResourceState F H} {hashes : List H} {o : Name}
    (h : HasSubmitted s hashes o) : s.isFull (Checksum.sha256 (submissionsText hashes)) o := by
  obtain ⟨u, hu, hlist, hcommit⟩ := h
  simp only [isFull, hu, Option.any_some, oraclePoints, hlist, hcommit, if_true]

variable [Double F]

/-! ## Commitments -/

variable {w : MeasuredUsage} {bad : Finset Name} {s : ResourceState F H} {r : PeriodRecord}

/-- An honest oracle that has submitted all its data sets has submitted what was measured, as it
    had committed to. -/
theorem ReportsMeasured.submitted (hI : ReportsMeasured w bad s r) (hsub : SubmissionInv s r)
    {o : Name} {u : SystemUsage H} (hbad : o ∉ bad) (hu : s.usage.find? o = some u)
    (hlength : u.submissionHashList.length = w.datasets.length + 1) :
    HasSubmitted s w.hashes o := by
  refine ⟨u, hu, ?_, hI.commits o u hu hbad⟩
  -- both lists have one hash for each report
  have hlength' : u.submissionHashList.length = (w.hashes : List H).length := by
    simp [hlength, MeasuredUsage.hashes]
  refine List.ext_getElem hlength' fun d hd hd' => ?_
  have hget := List.getElem?_eq_getElem hd
  cases d with
  | zero =>
    -- the totals
    obtain ⟨⟨o', totals⟩, hmem, rfl⟩ := List.mem_map.mp (hsub.known o u hu)
    have hfirst := hsub.first o' totals hmem
    rw [hu, Option.bind_some, hget, Option.some.injEq] at hfirst
    rw [hfirst, hI.totals o' totals hmem hbad]
    rfl
  | succ d =>
    -- the data set with this number
    obtain ⟨datasetId, data, hmem, hid, hhash⟩ := hsub.later o u (d + 1) _ hu (Nat.succ_pos d) hget
    obtain ⟨-, hdata⟩ := MeasuredUsage.dataset_eq_some.mp (hI.datasets o datasetId data hmem hbad)
    rw [hid, Nat.add_sub_cancel] at hdata
    obtain ⟨hlt, hdata⟩ := List.getElem?_eq_some_iff.mp hdata
    rw [hhash, ← hdata]
    simp [MeasuredUsage.hashes]

/-- The commitment that most oracles have made is the one to what was measured. -/
theorem ReportsMeasured.modal_commit (hI : ReportsMeasured w bad s r) (hsub : SubmissionInv s r)
    {t : Nat} (hbad : bad.card < t) {modal : H} {modeCount : UInt8}
    (hmode : s.modalHash (fun u => some u.allDataHash) s.getConfig.submittingOracles =
      .ok (modal, modeCount)) (hreached : t ≤ modeCount.toNat) :
    modal = Checksum.sha256 (submissionsText (w.hashes : List H)) := by
  have hvotes := le_count_of_modalHash (Nat.zero_lt_of_lt hbad) hmode hreached
  obtain ⟨o, -, hgood, hcommit⟩ :=
    exists_honest_voter hsub.oracles_nodup (lt_of_lt_of_le hbad hvotes)
  obtain ⟨u, hu, hmodal⟩ := Option.bind_eq_some_iff.mp hcommit
  rw [← Option.some.inj hmodal]
  exact hI.commits o u hu hgood

/-! ## Closing a period -/

/-- The time of the period is over, and the contract is in use. -/
structure PeriodOver (s : ResourceState F H) (ctx : Context) : Prop where
  active : s.getConfig.active
  time : s.getConfig.periodStart + s.getConfig.periodSeconds ≤ ctx.now.secSinceEpoch
  token : s.sys.rammarket.isSome

instance (s : ResourceState F H) (ctx : Context) : Decidable (PeriodOver s ctx) :=
  decidable_of_iff (s.getConfig.active ∧
    s.getConfig.periodStart + s.getConfig.periodSeconds ≤ ctx.now.secSinceEpoch ∧
    s.sys.rammarket.isSome)
    ⟨fun h => ⟨h.1, h.2.1, h.2.2⟩, fun h => ⟨h.active, h.time, h.token⟩⟩

/-- A period closes only when its time is over. -/
theorem nextperiod_over {ctx : Context} {s s' : ResourceState F H}
    (h : s.nextperiod ctx = .ok s') : PeriodOver s ctx := by
  simp only [nextperiod, bind_eq_ok, check_eq_ok, coreSymbol_eq_ok] at h
  obtain ⟨_, hactive, _, htime, _, -, _, ⟨m, hm, -⟩, -⟩ := h
  exact ⟨hactive, htime, Option.isSome_of_eq_some hm⟩

/-- A period that is over closes if enough oracles are full. -/
theorem nextperiod_ok {ctx : Context} (hover : PeriodOver s ctx)
    (hrows : ∀ o ∈ s.getConfig.submittingOracles, (s.usage.find? o).isSome) {modal : H}
    {modeCount : UInt8} (hmode : s.modalHash (fun u => some u.allDataHash)
      s.getConfig.submittingOracles = .ok (modal, modeCount))
    (hreached : s.getConfig.oracleConsensusThreshold.toNat ≤ modeCount.toNat)
    (hfull : s.getConfig.oracleConsensusThreshold.toNat ≤
      (s.getConfig.submittingOracles.filter (s.isFull modal)).length) :
    ∃ s', s.nextperiod ctx = .ok s' := by
  obtain ⟨m, hm⟩ := Option.isSome_iff_exists.mp hover.token
  have hlength := hfull.trans (List.length_filter_le _ _)
  obtain ⟨sources, hscore⟩ := scoreOracles_ok modal hrows s.sources 0
  simp only [nextperiod, bind_eq_ok, check_eq_ok, coreSymbol_eq_ok, pure_eq_ok]
  refine ⟨_, (), hover.active, (), hover.time, (modal, modeCount), ?_, m.quote.symbol, ⟨m, hm, rfl⟩,
    (sources, 0 + (s.getConfig.submittingOracles.filter (s.isFull modal)).length), ?_, (), ?_, rfl⟩
  · rw [if_pos hlength]
    exact hmode
  · rw [if_pos hreached]
    exact hscore
  · rw [Nat.zero_add]
    exact hfull

/-- The oracles that have submitted what was measured are full, and no other commitment than
    theirs is scored. -/
theorem HonestInv.closes {measured : TimePointSec → MeasuredUsage}
    (hI : HonestInv measured bad s r) (hfew : s.getConfig.submittingOracles.length < 256)
    {ctx : Context} (hover : PeriodOver s ctx) {voters : Finset Name}
    (hcard : s.getConfig.oracleConsensusThreshold.toNat ≤ voters.card)
    (hvoters : ∀ o ∈ voters,
      HasSubmitted s (measured s.getConfig.periodStart).hashes o) :
    ∃ s', s.nextperiod ctx = .ok s' := by
  have hsub := hI.submissions
  -- the rows that `nextperiod` reads are there
  have hrows : ∀ o ∈ s.getConfig.submittingOracles, (s.usage.find? o).isSome :=
    fun o ho => hsub.row ho
  rcases Nat.eq_zero_or_pos s.getConfig.oracleConsensusThreshold.toNat with hzero | h0
  · -- before the first configuration nothing is asked for
    apply nextperiod_ok hover hrows (modalHash_eq_ok.mpr ⟨hrows, rfl⟩)
    · rw [hzero]
      exact Nat.zero_le _
    · rw [hzero]
      exact Nat.zero_le _
  · have hne : s.history ≠ ∅ := by
      intro hempty
      rw [(hsub.unset hempty).1] at h0
      exact absurd h0 (by decide)
    -- the voters are on the list
    have hmem : ∀ o ∈ voters, o ∈ s.getConfig.submittingOracles := by
      intro o ho
      obtain ⟨u, hu, -⟩ := hvoters o ho
      rw [hsub.oracles]
      exact hsub.known o u hu
    -- the commitment of the voters has enough votes, so the modal one has, too
    have hvotes : voters.card ≤
        (s.picked (fun u => some u.allDataHash) s.getConfig.submittingOracles).count
          (Checksum.sha256 (submissionsText
            ((measured s.getConfig.periodStart).hashes : List H))) := by
      apply le_count_picked
      intro o ho
      obtain ⟨u, hu, -, hcommit⟩ := hvoters o ho
      refine ⟨hmem o ho, ?_⟩
      rw [hu, Option.bind_some, hcommit]
    obtain ⟨modal, modeCount, hmode, hreached⟩ :=
      modalHash_of_le_count h0 hrows hfew (hcard.trans hvotes)
    -- the modal commitment is the measured one
    have hmodal := hI.reports.modal_commit hsub (hI.threshold hne) hmode hreached
    apply nextperiod_ok hover hrows hmode hreached
    -- each voter has submitted all of it
    rw [hmodal]
    refine hcard.trans (le_trans (Finset.card_le_card fun o ho => ?_) (List.toFinset_card_le _))
    rw [List.mem_toFinset, List.mem_filter]
    exact ⟨hmem o ho, isFull_of_hasSubmitted (hvoters o ho)⟩

/-- When a period closes, the oracles that were counted have submitted what was measured. -/
theorem HonestInv.quorum {measured : TimePointSec → MeasuredUsage}
    (hI : HonestInv measured bad s r)
    (hsha : Function.Injective (Checksum.sha256 : List Char → H))
    (hbytes : Function.Injective (Checksum.bytes : H → List UInt8)) {ctx : Context}
    {s' : ResourceState F H} (h : s.nextperiod ctx = .ok s') :
    ∃ voters : Finset Name, s.getConfig.oracleConsensusThreshold.toNat ≤ voters.card ∧
      ∀ o ∈ voters, HasSubmitted s (measured s.getConfig.periodStart).hashes o := by
  have hsub := hI.submissions
  by_cases hempty : s.history = ∅
  · refine ⟨∅, ?_, fun o ho => absurd ho (Finset.notMem_empty o)⟩
    rw [(hsub.unset hempty).1]
    exact Nat.zero_le _
  · obtain ⟨modal, hfull⟩ := nextperiod_full h
    obtain ⟨o, -, hgood, ho⟩ :=
      exists_honest_full hsub (lt_of_lt_of_le (hI.threshold hempty) hfull)
    obtain ⟨u, hu, hlist, hreveal⟩ := hI.reports.full hsha hbytes hsub hgood ho
    refine ⟨(s.getConfig.submittingOracles.filter (s.isFull modal)).toFinset, ?_, ?_⟩
    · rw [hsub.card_full]
      exact hfull
    · intro o' ho'
      have hfull' := (List.mem_filter.mp (List.mem_toFinset.mp ho')).2
      rw [← hlist]
      exact full_hasSubmitted hsha hbytes hsub hu hreveal hfull'

/-- In every run with fewer bad oracles than each threshold that is set: a period with fewer than
    256 oracles closes exactly if its time is over and as many oracles as the threshold asks for
    have submitted what was measured. Honest oracles need only submit all their data sets. -/
theorem honest_quorum_closes (hsha : Function.Injective (Checksum.sha256 : List Char → H))
    (hbytes : Function.Injective (Checksum.bytes : H → List UInt8))
    (measured : TimePointSec → MeasuredUsage) (bad : Finset Name) (maxBlockNetUsage : UInt64)
    (maxBlockCpuUsage : UInt32) {calls : List (ResourceCall F H)}
    (hrun : Run.Meets step (Honest measured bad) (genesis maxBlockNetUsage maxBlockCpuUsage) calls)
    (hfew : (Run.exec step (genesis maxBlockNetUsage maxBlockCpuUsage)
      calls).getConfig.submittingOracles.length < 256) (ctx : Context) :
    let s := Run.exec step (genesis maxBlockNetUsage maxBlockCpuUsage) calls
    let w := measured s.getConfig.periodStart
    ((∃ s', s.step ⟨ctx, .nextperiod⟩ = .ok s') ↔ PeriodOver s ctx ∧
      ∃ voters : Finset Name, s.getConfig.oracleConsensusThreshold.toNat ≤ voters.card ∧
        ∀ o ∈ voters, HasSubmitted s w.hashes o) ∧
    ∀ o u, o ∉ bad → s.usage.find? o = some u →
      u.submissionHashList.length = w.datasets.length + 1 → HasSubmitted s w.hashes o := by
  intro s w
  obtain ⟨r, hI⟩ := exec_honestInv hsha measured bad maxBlockNetUsage maxBlockCpuUsage hrun
  refine ⟨⟨?_, ?_⟩, fun o u hgood hu hlength => hI.reports.submitted hI.submissions hgood hu hlength⟩
  · rintro ⟨s', h⟩
    exact ⟨nextperiod_over h, hI.quorum hsha hbytes h⟩
  · rintro ⟨hover, voters, hcard, hvoters⟩
    exact hI.closes hfew hover hcard hvoters

open Sample in
/-- Carol has lied, but alice and bob are enough. -/
theorem honest_quorum_closes_sample :
    let s := Run.exec step start (lying ++
      [dataset SystemState.Sample.alice 1 [⟨SystemState.Sample.bob, 600000⟩]])
    ∃ s', s.step close = .ok s' := by
  intro s
  have hrun : Run.Meets step (Honest measured {carol}) start (lying ++
      [dataset SystemState.Sample.alice 1 [⟨SystemState.Sample.bob, 600000⟩]]) := by
    decide +kernel
  have hfew : s.getConfig.submittingOracles.length < 256 := by decide +kernel
  have hover : PeriodOver s close.ctx := by decide +kernel
  obtain ⟨hcloses, hsubmitted⟩ := honest_quorum_closes Function.injective_id bytes_injective
    measured {carol} 1048576 200000 hrun hfew close.ctx
  refine hcloses.mpr ⟨hover, {SystemState.Sample.alice, SystemState.Sample.bob}, by decide +kernel,
    fun o ho => ?_⟩
  -- alice and bob have submitted their totals and one data set
  have hfull : o ∉ ({carol} : Finset Name) ∧
      (s.usage.find? o).any fun u => u.submissionHashList.length = 2 := by
    simp only [Finset.mem_insert, Finset.mem_singleton] at ho
    rcases ho with rfl | rfl
    · decide +kernel
    · decide +kernel
  obtain ⟨u, hu, hlength⟩ := (Option.any_eq_true _ _).mp hfull.2
  exact hsubmitted o u hfull.1 hu (of_decide_eq_true hlength)

end ResourceState

end UxContracts
