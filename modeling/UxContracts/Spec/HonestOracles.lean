import UxContracts.Spec.DatasetConsensus
import UxContracts.Spec.IssuedHistory
import UxContracts.Spec.UsageAverages

/-!
# Oracles that may lie

Let fewer accounts than the threshold be under the control of an attacker, who submits for
them what he likes and when he likes. The other accounts sign only reports of what was
measured. A hash with as many votes as the threshold asks for has one of an honest oracle.
So every row of the history has the totals that were measured in its period
(`honest_history`), and what is credited for a data set has the text of the one that was
measured (`honest_credits`).
-/

namespace UxContracts

namespace ResourceState

variable {F H : Type} [Checksum H] [Double F]

/-! ## Reports -/

/-- Totals are reported by their oracle, for the current period. -/
theorem settotalusg_signed {s s' : ResourceState F H} {ctx : Context} {source : Name}
    {cpu net : UInt64} {hash : H} {start : TimePointSec}
    (h : s.step ⟨ctx, .settotalusg source cpu net hash start⟩ = .ok s') :
    source ∈ ctx.auth ∧ s.getConfig.periodStart = start := by
  obtain ⟨u, sends, token, hr, -, rfl⟩ := commit_eq_ok.mp h
  simp only [settotalusg, requireAuth, bind_eq_ok, check_eq_ok] at hr
  obtain ⟨_, hauth, _, -, _, -, _, hstart, -⟩ := hr
  exact ⟨hauth, hstart⟩

/-- A data set is reported by its oracle, for the current period. -/
theorem addactusg_signed {s s' : ResourceState F H} {ctx : Context} {source : Name}
    {datasetId : UInt16} {dataset : List Metric} {start : TimePointSec}
    (h : s.step ⟨ctx, .addactusg source datasetId dataset start⟩ = .ok s') :
    source ∈ ctx.auth ∧ s.getConfig.periodStart = start := by
  simp only [step, addactusg, requireAuth, bind_eq_ok, check_eq_ok] at h
  obtain ⟨_, hauth, _, -, _, -, _, -, _, hstart, -⟩ := h
  exact ⟨hauth, hstart⟩

omit [Checksum H] in
/-- The row of an issuance is the one of its period. -/
theorem issuedHistory_row {s : ResourceState F H} {totals : UInt64 × UInt64} {start : TimePointSec}
    {history : Table Nat (UsageHistory F)} (h : s.issuedHistory totals start = .ok history) :
    ∃ k last row, s.history.last? = some (k, last) ∧ history = s.history.set (k + 1) row ∧
      (row.totalCpuUs, row.totalNetWords) = totals ∧ row.timestamp = start := by
  simp only [issuedHistory, bind_eq_ok, pure_eq_ok] at h
  obtain ⟨s₁, hset, ⟨s₂, sends⟩, hissue, rfl⟩ := h
  obtain ⟨k, last, sym, supply, row, hlast, -, -, -, -, -, hrow, rfl⟩ := setTotal_cases hset
  -- `issue_inflation` writes the row again with other tokens
  obtain ⟨utility, bppay, hhist⟩ := issueInflation_tokens (Table.last?_set_succ row hlast) hissue
  refine ⟨k, last, { row with utilityTokens := utility, bppayTokens := bppay }, hlast, ?_, ?_⟩
  · rw [hhist]
    exact Table.set_set _ _ _ _
  · simp only [nextHistory, bind_eq_ok, pure_eq_ok] at hrow
    obtain ⟨_, -, _, -, rfl⟩ := hrow
    exact ⟨rfl, rfl⟩

end ResourceState

/-! ## What was measured -/

/-- The usage of a period as it was measured. -/
structure MeasuredUsage where
  /-- CPU, then NET -/
  totals : UInt64 × UInt64
  /-- the data sets in the order of their numbers, which begin with one -/
  datasets : List (List Metric)
deriving DecidableEq

namespace MeasuredUsage

/-- The measured data set with this number. -/
def dataset (w : MeasuredUsage) (datasetId : UInt16) : Option (List Metric) :=
  if 0 < datasetId.toNat then w.datasets[datasetId.toNat - 1]? else none

/-- The hashes that an oracle submits for what was measured. -/
def hashes {H : Type} [Checksum H] (w : MeasuredUsage) : List H :=
  Checksum.sha256 (ResourceState.totalsText w.totals.1 w.totals.2) ::
    w.datasets.map fun d => Checksum.sha256 (ResourceState.datasetText d)

/-- The numbers of data sets begin with one. -/
theorem dataset_eq_some {w : MeasuredUsage} {datasetId : UInt16} {data : List Metric} :
    w.dataset datasetId = some data ↔
      0 < datasetId.toNat ∧ w.datasets[datasetId.toNat - 1]? = some data := by
  unfold dataset
  by_cases hpos : 0 < datasetId.toNat
  · rw [if_pos hpos, and_iff_right hpos]
  · rw [if_neg hpos]
    exact ⟨fun h => (by cases h), fun h => absurd h.1 hpos⟩

/-- The numbers of the data sets. -/
theorem number_of_dataset {w : MeasuredUsage} {datasetId : UInt16} {data : List Metric}
    (h : w.dataset datasetId = some data) :
    0 < datasetId.toNat ∧ datasetId.toNat ≤ w.datasets.length := by
  obtain ⟨hpos, hget⟩ := dataset_eq_some.mp h
  obtain ⟨hlt, -⟩ := List.getElem?_eq_some_iff.mp hget
  exact ⟨hpos, by omega⟩

end MeasuredUsage

namespace ResourceState

variable {F H : Type} [Checksum H]

/-- The accounts that are not in `bad` sign reports of what was measured only. -/
def SignsMeasured (measured : TimePointSec → MeasuredUsage) (bad : Finset Name)
    (call : ResourceCall F H) : Prop :=
  match call.action with
  | .settotalusg source cpu net hash start => source ∈ call.ctx.auth → source ∉ bad →
    (cpu, net) = (measured start).totals ∧
      hash = Checksum.sha256 (submissionsText ((measured start).hashes : List H))
  | .addactusg source datasetId dataset start => source ∈ call.ctx.auth → source ∉ bad →
    (measured start).dataset datasetId = some dataset
  | _ => True

instance (measured : TimePointSec → MeasuredUsage) (bad : Finset Name) :
    (call : ResourceCall F H) → Decidable (SignsMeasured measured bad call)
  | ⟨ctx, .settotalusg source cpu net hash start⟩ => inferInstanceAs (Decidable
      (source ∈ ctx.auth → source ∉ bad → (cpu, net) = (measured start).totals ∧
        hash = Checksum.sha256 (submissionsText ((measured start).hashes : List H))))
  | ⟨ctx, .addactusg source datasetId dataset start⟩ => inferInstanceAs (Decidable
      (source ∈ ctx.auth → source ∉ bad → (measured start).dataset datasetId = some dataset))
  | ⟨_, .initresource ..⟩ | ⟨_, .resactivate _⟩ | ⟨_, .nextperiod⟩ | ⟨_, .claimdistrib _⟩
  | ⟨_, .claimrewards _⟩ | ⟨_, .system _⟩ => isTrue trivial

variable [Double F]

/-- A call of a run with bad oracles: the honest ones report what was measured, a threshold is
    set only above the number of the bad ones, and the start of a period is not set again once
    oracles have submitted in it. -/
structure Honest (measured : TimePointSec → MeasuredUsage) (bad : Finset Name)
    (s : ResourceState F H) (call : ResourceCall F H) : Prop where
  signs : SignsMeasured measured bad call
  threshold : ∀ t ∈ newThreshold call.action, bad.card < t.toNat
  start : s.getConfig.submittingOracles = [] ∨
    (newStart call.action).getD s.getConfig.periodStart = s.getConfig.periodStart

instance (measured : TimePointSec → MeasuredUsage) (bad : Finset Name) (s : ResourceState F H)
    (call : ResourceCall F H) : Decidable (Honest measured bad s call) :=
  -- the values of an option, not all thresholds, are gone through
  have : Decidable (∀ t ∈ newThreshold call.action, bad.card < t.toNat) :=
    Option.decidableForallMem _
  decidable_of_iff (SignsMeasured measured bad call ∧
    (∀ t ∈ newThreshold call.action, bad.card < t.toNat) ∧
    (s.getConfig.submittingOracles = [] ∨
      (newStart call.action).getD s.getConfig.periodStart = s.getConfig.periodStart))
    ⟨fun h => ⟨h.1, h.2.1, h.2.2⟩, fun h => ⟨h.signs, h.threshold, h.start⟩⟩

/-! ## Honest voters -/

omit [Double F] in
/-- A hash with more votes than there are bad oracles has one of an honest oracle. -/
theorem exists_honest_voter {s : ResourceState F H} {pick : SystemUsage H → Option H}
    {oracles : List Name} {hash : H} {bad : Finset Name} (hnodup : oracles.Nodup)
    (h : bad.card < (s.picked pick oracles).count hash) :
    ∃ o ∈ oracles, o ∉ bad ∧ (s.usage.find? o).bind pick = some hash := by
  by_contra hnone
  apply not_le.mpr h
  apply count_picked_le hnodup
  intro o ho hhash
  by_contra hbad
  exact hnone ⟨o, ho, hbad, hhash⟩

/-- What honest oracles have submitted in the period is what was measured. -/
structure ReportsMeasured (w : MeasuredUsage) (bad : Finset Name) (s : ResourceState F H)
    (r : PeriodRecord) : Prop where
  totals : ∀ o totals, (o, totals) ∈ r.totals → o ∉ bad → totals = w.totals
  commits : ∀ o u, s.usage.find? o = some u → o ∉ bad →
    u.allDataHash = Checksum.sha256 (submissionsText (w.hashes : List H))
  datasets : ∀ o datasetId data, (o, datasetId, data) ∈ r.datasets → o ∉ bad →
    w.dataset datasetId = some data

omit [Double F] in
/-- Without submissions there is nothing to be measured. -/
theorem ReportsMeasured.empty {w : MeasuredUsage} {bad : Finset Name} {s : ResourceState F H}
    (h : s.usage = ∅) : ReportsMeasured w bad s .empty where
  totals := fun o totals hmem => absurd hmem List.not_mem_nil
  commits := fun o u hu => by
    rw [h, Table.find?_empty] at hu
    cases hu
  datasets := fun o datasetId data hmem => absurd hmem List.not_mem_nil

/-- What is stored under a hash is the totals or the data set it is the hash of. -/
def StoredTexts (s : ResourceState F H) : Prop :=
  ∀ hash d, s.findDataset hash = some d →
    (∃ totals : UInt64 × UInt64, hash = totalsHash totals ∧
      d.data = totalsData totals.1 totals.2) ∨
    hash = Checksum.sha256 (datasetText d.data)

omit [Double F] in
/-- Texts are of two kinds, and so are their hashes. -/
theorem StoredTexts.kinds {s : ResourceState F H} (h : StoredTexts s) : StoredKinds s := by
  intro hash d hd
  rcases h hash d hd with htotals | hdata
  · exact .inl htotals
  · exact .inr ⟨d.data, hdata⟩

omit [Double F] in
theorem StoredTexts.congr {s s' : ResourceState F H} (h : StoredTexts s)
    (hdatasets : s'.datasets = s.datasets) : StoredTexts s' := by
  intro hash d hd
  rw [findDataset_congr hdatasets] at hd
  exact h hash d hd

omit [Double F] in
/-- What is recorded under the hash of its text is stored under the hash of its text. -/
theorem Recorded.texts {s s' : ResourceState F H} {hash : H} {data : List Metric}
    (h : Recorded s s' hash data) (hI : StoredTexts s)
    (hnew : (∃ totals : UInt64 × UInt64, hash = totalsHash totals ∧
      data = totalsData totals.1 totals.2) ∨ hash = Checksum.sha256 (datasetText data)) :
    StoredTexts s' := by
  intro hash' d hd
  rcases h.found hd with hold | ⟨rfl, -, rfl⟩
  · exact hI hash' d hold
  · exact hnew

omit [Double F] in
/-- What is stored under the hash of a data set has its text. -/
theorem StoredTexts.text_eq {s : ResourceState F H} (h : StoredTexts s)
    (hsha : Function.Injective (Checksum.sha256 : List Char → H)) {data : List Metric}
    {d : Dataset H} (hd : s.findDataset (Checksum.sha256 (datasetText data)) = some d) :
    datasetText d.data = datasetText data := by
  rcases h _ d hd with ⟨totals, hhash, -⟩ | hhash
  · exact absurd (hsha hhash).symm (totalsText_ne_datasetText _ _ _)
  · exact (hsha hhash).symm

/-- The totals that the oracles agree on are the measured ones. -/
theorem ReportsMeasured.agreed {w : MeasuredUsage} {bad : Finset Name} {s : ResourceState F H}
    {r : PeriodRecord} (hI : ReportsMeasured w bad s r)
    (hsha : Function.Injective (Checksum.sha256 : List Char → H)) (hsub : SubmissionInv s r)
    (hkinds : StoredKinds s) (hfew : bad.card < s.getConfig.oracleConsensusThreshold.toNat)
    {modal : H} {modeCount : UInt8} {d : Dataset H}
    (hagreed : Agreed s s.getConfig modal modeCount d) :
    d.data = totalsData w.totals.1 w.totals.2 := by
  have hvotes := le_votes_of_mode (Nat.zero_lt_of_lt hfew) hagreed.tally hagreed.reached
  obtain ⟨o, ho, hbad, hhash⟩ := exists_honest_voter hsub.oracles_nodup (lt_of_lt_of_le hfew hvotes)
  rw [hsub.oracles] at ho
  obtain ⟨⟨o', totals⟩, hmem, rfl⟩ := List.mem_map.mp ho
  -- the honest voter has submitted the measured totals
  rw [hsub.first o' totals hmem, Option.some.injEq, hI.totals o' totals hmem hbad] at hhash
  apply hkinds.data_eq hsha
  rw [hhash]
  exact hagreed.found

/-- What is due under a number has the text of the measured data set with this number. -/
theorem ReportsMeasured.due {w : MeasuredUsage} {bad : Finset Name} {s s₁ : ResourceState F H}
    {r : PeriodRecord} {cfg : ResourceConfig F} {datasetId : UInt16} {due : List Metric}
    (hI : ReportsMeasured w bad s r) (hsha : Function.Injective (Checksum.sha256 : List Char → H))
    (hsub : SubmissionInv s r) (htexts : StoredTexts s)
    (hstored : ∀ o datasetId data, (o, datasetId, data) ∈ r.datasets →
      (s.findDataset (Checksum.sha256 (datasetText data))).isSome)
    (hfew : bad.card < cfg.oracleConsensusThreshold.toNat) (hnumber : 0 < datasetId.toNat)
    (husage : s.usage = s₁.usage) (hdatasets : s.datasets = s₁.datasets)
    (horacles : s.getConfig.submittingOracles = cfg.submittingOracles)
    (h : s₁.dueDataset cfg datasetId = .ok (some due)) :
    ∃ data, w.dataset datasetId = some data ∧ datasetText due = datasetText data := by
  obtain ⟨-, modal, modeCount, htally, hreached, hdue⟩ := dueDataset_spec h
  rw [← modalHash_congr husage, ← horacles] at htally
  have hvotes := le_votes_of_mode (Nat.zero_lt_of_lt hfew) htally hreached
  obtain ⟨o, -, hbad, hmodal⟩ := exists_honest_voter hsub.oracles_nodup (lt_of_lt_of_le hfew hvotes)
  obtain ⟨u, hu, hget⟩ := Option.bind_eq_some_iff.mp hmodal
  obtain ⟨datasetId', data, hmem, hid, rfl⟩ := hsub.later o u _ modal hu hnumber hget
  obtain rfl : datasetId' = datasetId := UInt16.toNat_inj.mp hid
  -- what is found by its hash is stored with its text
  obtain ⟨d, hd⟩ := Option.isSome_iff_exists.mp (hstored o datasetId' data hmem)
  refine ⟨data, hI.datasets o datasetId' data hmem hbad, ?_⟩
  have hdata : due = d.data := by
    rw [hdue, storedData, ← findDataset_congr hdatasets, hd]
    rfl
  rw [hdata]
  exact htexts.text_eq hsha hd

/-! ## The invariant -/

/-- The two totals of a row. -/
def rowTotals (row : UsageHistory F) : UInt64 × UInt64 := (row.totalCpuUs, row.totalNetWords)

/-- The history and the open period are about what was measured. -/
structure HonestInv (measured : TimePointSec → MeasuredUsage) (bad : Finset Name)
    (s : ResourceState F H) (r : PeriodRecord) : Prop where
  core : s.sys.CoreToken
  submissions : SubmissionInv s r
  texts : StoredTexts s
  stored : ∀ o datasetId data, (o, datasetId, data) ∈ r.datasets →
    (s.findDataset (Checksum.sha256 (datasetText data))).isSome
  threshold : s.history ≠ ∅ → bad.card < s.getConfig.oracleConsensusThreshold.toNat
  reports : ReportsMeasured (measured s.getConfig.periodStart) bad s r
  /-- nothing has happened before the first submission -/
  idle : s.getConfig.submittingOracles = [] → s.getConfig.inflationTransferred = false ∧
    s.getConfig.accountDistributionsMade = [] ∧ r.datasets = []
  made : ∀ datasetId ∈ s.getConfig.accountDistributionsMade,
    ∃ data, (measured s.getConfig.periodStart).dataset datasetId = some data
  history : ∀ k row, s.history.find? (k + 1) = some row →
    rowTotals row = (measured row.timestamp).totals
  transferred : s.getConfig.inflationTransferred = true →
    ∃ k row, s.history.last? = some (k + 1, row) ∧ row.timestamp = s.getConfig.periodStart

namespace HonestInv

variable {measured : TimePointSec → MeasuredUsage} {bad : Finset Name} {s s' : ResourceState F H}
  {r : PeriodRecord}

theorem genesis (maxBlockNetUsage : UInt64) (maxBlockCpuUsage : UInt32) :
    HonestInv measured bad (genesis maxBlockNetUsage maxBlockCpuUsage : ResourceState F H)
      .empty where
  core := SystemState.genesis_coreToken _ _
  submissions := .genesis _ _
  texts := fun hash d hd => by cases hd
  stored := fun o datasetId data hmem => absurd hmem List.not_mem_nil
  threshold := fun h => absurd rfl h
  reports := .empty rfl
  idle := fun _ => ⟨rfl, rfl, rfl⟩
  made := fun datasetId hmem => absurd hmem List.not_mem_nil
  history := fun k row hrow => by cases hrow
  transferred := fun h => by cases h

/-- A new period is about what was measured in it, whatever this is. -/
theorem of_idle (hcore : s.sys.CoreToken) (hsub : SubmissionInv s .empty) (htexts : StoredTexts s)
    (hthreshold : s.history ≠ ∅ → bad.card < s.getConfig.oracleConsensusThreshold.toNat)
    (husage : s.usage = ∅) (htransferred : s.getConfig.inflationTransferred = false)
    (hmade : s.getConfig.accountDistributionsMade = [])
    (hhist : ∀ k row, s.history.find? (k + 1) = some row →
      rowTotals row = (measured row.timestamp).totals) : HonestInv measured bad s .empty where
  core := hcore
  submissions := hsub
  texts := htexts
  stored := fun o datasetId data hmem => absurd hmem List.not_mem_nil
  threshold := hthreshold
  reports := .empty husage
  idle := fun _ => ⟨htransferred, hmade, rfl⟩
  made := fun datasetId hmem => by
    rw [hmade] at hmem
    cases hmem
  history := hhist
  transferred := fun h => by
    rw [htransferred] at h
    cases h

/-- Nothing is recorded of a period without oracles. -/
theorem record_eq_empty (hI : HonestInv measured bad s r)
    (horacles : s.getConfig.submittingOracles = []) :
    r.totals = [] ∧ r.datasets = [] ∧ ∀ o, s.usage.find? o = none := by
  have htotals : r.totals = [] := by
    rw [hI.submissions.oracles] at horacles
    exact List.map_eq_nil_iff.mp horacles
  refine ⟨htotals, (hI.idle horacles).2.2, fun o => ?_⟩
  cases hrow : s.usage.find? o with
  | none => rfl
  | some u =>
    have hknown := hI.submissions.known o u hrow
    rw [htotals] at hknown
    cases hknown

/-- A call that leaves the period alone may set its start again only before the first
    submission. -/
theorem kept (hI : HonestInv measured bad s r) {call : ResourceCall F H}
    (hcall : Honest measured bad s call) (hcore : s'.sys.CoreToken) (hsub : SubmissionInv s' r)
    (husage : s'.usage = s.usage) (hdatasets : s'.datasets = s.datasets)
    (hhist : s'.history = s.history) (hsame : SamePeriod s s')
    (hthreshold : s'.getConfig.oracleConsensusThreshold =
      (newThreshold call.action).getD s.getConfig.oracleConsensusThreshold)
    (hstart : s'.getConfig.periodStart = (newStart call.action).getD s.getConfig.periodStart) :
    HonestInv measured bad s' r := by
  -- the threshold stays above the number of dishonest oracles
  have hthreshold' : s'.history ≠ ∅ →
      bad.card < s'.getConfig.oracleConsensusThreshold.toNat := by
    intro hne
    rw [hthreshold]
    cases hnew : newThreshold call.action with
    | none =>
      rw [hhist] at hne
      exact hI.threshold hne
    | some t => exact hcall.threshold t (by rw [hnew]; rfl)
  -- what is stored stays stored
  have hstored : ∀ o datasetId data, (o, datasetId, data) ∈ r.datasets →
      (s'.findDataset (Checksum.sha256 (datasetText data))).isSome := by
    intro o datasetId data hmem
    rw [findDataset_congr hdatasets]
    exact hI.stored o datasetId data hmem
  -- without a report the period has done nothing yet
  have hidle : s'.getConfig.submittingOracles = [] → s'.getConfig.inflationTransferred = false ∧
      s'.getConfig.accountDistributionsMade = [] ∧ r.datasets = [] := by
    rw [hsame.oracles, hsame.transferred, hsame.made]
    exact hI.idle
  have hrows : ∀ k row, s'.history.find? (k + 1) = some row →
      rowTotals row = (measured row.timestamp).totals := by
    rw [hhist]
    exact hI.history
  -- either no oracle has reported, or the start of the period is kept
  rcases hcall.start with horacles | hkeep
  · -- then the record is empty, whatever the new start is
    obtain ⟨htotals, hnone, hrow⟩ := hI.record_eq_empty horacles
    obtain ⟨hopen, hmade, -⟩ := hI.idle horacles
    refine ⟨hcore, hsub, hI.texts.congr hdatasets, hstored, hthreshold', ⟨?_, ?_, ?_⟩, hidle, ?_,
      hrows, ?_⟩
    · intro o totals hmem
      rw [htotals] at hmem
      cases hmem
    · intro o u hu
      rw [husage, hrow] at hu
      cases hu
    · intro o datasetId data hmem
      rw [hnone] at hmem
      cases hmem
    · rw [hsame.made, hmade]
      exact fun datasetId hmem => absurd hmem List.not_mem_nil
    · rw [hsame.transferred, hopen]
      exact fun h => by cases h
  · rw [hkeep] at hstart
    -- the reports were measured for the same start
    refine ⟨hcore, hsub, hI.texts.congr hdatasets, hstored, hthreshold', ?_, hidle, ?_, hrows, ?_⟩
    · rw [hstart]
      refine ⟨hI.reports.totals, ?_, hI.reports.datasets⟩
      rw [husage]
      exact hI.reports.commits
    · rw [hstart, hsame.made]
      exact hI.made
    · rw [hstart, hsame.transferred, hhist]
      exact hI.transferred

/-- A report of totals: an honest oracle submits the measured ones, and inflation is issued for
    them. -/
theorem totals (hsha : Function.Injective (Checksum.sha256 : List Char → H))
    (hI : HonestInv measured bad s r) {ctx : Context} {source : Name} {cpu net : UInt64} {hash : H}
    {start : TimePointSec}
    (hcall : Honest measured bad s ⟨ctx, .settotalusg source cpu net hash start⟩)
    (h : s.step ⟨ctx, .settotalusg source cpu net hash start⟩ = .ok s') (hcore : s'.sys.CoreToken)
    (hsub : SubmissionInv s'
      (recordPeriod r s ⟨ctx, .settotalusg source cpu net hash start⟩ s'))
    (hne : s.history ≠ ∅) (husage : s'.usage = s.usage.set source (totalsUsage cpu net hash))
    (hrec : Recorded s s' (Checksum.sha256 (totalsText cpu net)) (totalsData cpu net))
    (horacles : s'.getConfig.submittingOracles = s.getConfig.submittingOracles ++ [source])
    (hthreshold : s'.getConfig.oracleConsensusThreshold = s.getConfig.oracleConsensusThreshold)
    (hmade : s'.getConfig.accountDistributionsMade = s.getConfig.accountDistributionsMade)
    (hout : TotalsOutcome s ⟨ctx, .settotalusg source cpu net hash start⟩ s') :
    HonestInv measured bad s' (recordPeriod r s ⟨ctx, .settotalusg source cpu net hash start⟩ s') := by
  -- the action checks the start that it is given
  obtain ⟨hauth, hstart⟩ := settotalusg_signed h
  have hstart' : s'.getConfig.periodStart = start :=
    ((step_config h).2 (fun he => by cases he)).trans hstart
  have hfew : bad.card < s'.getConfig.oracleConsensusThreshold.toNat := by
    rw [hthreshold]
    exact hI.threshold hne
  -- the stored texts are those of totals and of data sets
  have htexts : StoredTexts s' := hrec.texts hI.texts (.inl ⟨(cpu, net), rfl, rfl⟩)
  have hsigns := hcall.signs hauth
  -- the new totals, and the new commitment, are measured if the oracle is honest
  have hreports : ReportsMeasured (measured s'.getConfig.periodStart) bad s'
      (recordPeriod r s ⟨ctx, .settotalusg source cpu net hash start⟩ s') := by
    have hold := hI.reports
    rw [hstart] at hold
    rw [hstart']
    refine ⟨fun o totals hmem hbad => ?_, fun o u hu hbad => ?_, hold.datasets⟩
    · rcases List.mem_append.mp hmem with hmem | hnew
      · exact hold.totals o totals hmem hbad
      · obtain ⟨rfl, rfl⟩ := Prod.mk.inj (List.mem_singleton.mp hnew)
        exact (hsigns hbad).1
    · rw [husage, Table.find?_set] at hu
      split at hu
      · rename_i hos
        cases hu
        exact (hsigns (hos ▸ hbad)).2
      · exact hold.commits o u hu hbad
  refine ⟨hcore, hsub, htexts, ?_, fun _ => hfew, hreports, ?_, ?_, ?_, ?_⟩
  · -- what was stored before is still stored
    intro o datasetId data hmem
    exact hrec.isSome (hI.stored o datasetId data hmem)
  · -- the oracle is on the list now
    intro hempty
    rw [horacles] at hempty
    exact absurd hempty (List.append_ne_nil_of_right_ne_nil _ (List.cons_ne_nil _ _))
  · -- the totals distribute nothing
    have hold := hI.made
    rw [hstart] at hold
    rw [hmade, hstart']
    exact hold
  · rcases settotalusg_history hI.core.token h with hsame |
      ⟨modal, modeCount, d, cpu', net', rest, hagreed, hdata, hissued⟩
    · -- nothing has been issued
      rw [hsame.history]
      exact hI.history
    · obtain ⟨k, last, row, hlast, hhist, htotals, htime⟩ := issuedHistory_row hissued
      -- the totals of the new row are those that the oracles agree on
      have hmeasured := hreports.agreed hsha hsub htexts.kinds hfew hagreed
      rw [hdata, hstart'] at hmeasured
      have hnew : rowTotals row = (measured row.timestamp).totals := by
        have hcpu : cpu'.u = (measured start).totals.1 := by rw [(List.cons.inj hmeasured).1]
        have hnet : net'.u = (measured start).totals.2 := by
          rw [(List.cons.inj (List.cons.inj hmeasured).2).1]
        rw [htime]
        exact htotals.trans (Prod.ext hcpu hnet)
      intro k' row' hrow
      rw [hhist, Table.find?_set] at hrow
      split at hrow
      · cases hrow
        exact hnew
      · exact hI.history k' row' hrow
  · intro htransferred
    rw [hstart']
    cases hout with
    | «open» hhist hnoIssue htr hdis =>
      -- this call has issued nothing
      rw [htr] at htransferred
      rw [hhist, ← hstart]
      exact hI.transferred htransferred
    | issued modal modeCount d cpu' net' rest sends k last row sym inflation hwas htr hagreed hdata
        hiss hrun hsys hone =>
      rcases settotalusg_history hI.core.token h with hsame |
        ⟨_, _, _, _, _, _, -, -, hissued⟩
      · -- an issuance adds a row
        have hsize := hone
        unfold issues at hsize
        rw [hsame.history] at hsize
        simp at hsize
      · -- the new row carries the start of the period
        obtain ⟨k', last', row', hlast', hhist', -, htime⟩ := issuedHistory_row hissued
        refine ⟨k', row', ?_, htime⟩
        rw [hhist']
        exact Table.last?_set_succ row' hlast'

/-- A data set: an honest oracle submits the measured one, and what is distributed has its
    text. -/
theorem dataset (hsha : Function.Injective (Checksum.sha256 : List Char → H))
    (hI : HonestInv measured bad s r) {ctx : Context} {source : Name} {datasetId : UInt16}
    {data : List Metric} {start : TimePointSec}
    (hcall : Honest measured bad s ⟨ctx, .addactusg source datasetId data start⟩)
    (h : s.step ⟨ctx, .addactusg source datasetId data start⟩ = .ok s') (hcore : s'.sys.CoreToken)
    (hsub : SubmissionInv s' (recordPeriod r s ⟨ctx, .addactusg source datasetId data start⟩ s')) :
    HonestInv measured bad s' (recordPeriod r s ⟨ctx, .addactusg source datasetId data start⟩ s') ∧
    (s'.accpay = s.accpay ∨ ∃ due measuredData, Credits s s' start due ∧
      (measured start).dataset datasetId = some measuredData ∧
      datasetText due = datasetText measuredData) := by
  -- the action checks the start that it is given
  obtain ⟨hauth, hstart⟩ := addactusg_signed h
  have hstart' : s'.getConfig.periodStart = start :=
    ((step_config h).2 (fun he => by cases he)).trans hstart
  have hsigns := hcall.signs hauth
  -- an `addactusg` that succeeds is a step of its own kind
  cases addactusg_period h with
  | kept hquiet => cases hquiet
  | first hquiet => cases hquiet
  | totals source' cpu net hash start' haction => cases haction
  | next haction => cases haction
  | dataset source' datasetId' data' start' haction htransferred s₁ hsubmit husage hdatasets hhist
      hsys horacles hstill hthreshold hout =>
    cases haction
    obtain ⟨u₀, allocated, hrow, hid, -, husage', hrec⟩ :=
      submitDataset_tables hsubmit husage hdatasets
    -- totals have been issued, so the history is not empty
    have hne : s.history ≠ ∅ := by
      intro hempty
      have hopen := (hI.submissions.unset hempty).2.1
      rw [htransferred] at hopen
      cases hopen
    have hfew : bad.card < s.getConfig.oracleConsensusThreshold.toNat := hI.threshold hne
    -- data sets are numbered from one
    have hpos : 0 < datasetId.toNat := by
      rw [hid]
      exact hI.submissions.hashes_pos hrow
    have htexts : StoredTexts s' := hrec.texts hI.texts (.inr rfl)
    have hr : (recordPeriod r s ⟨ctx, .addactusg source datasetId data start⟩ s').datasets =
        r.datasets ++ [(source, datasetId, data)] := rfl
    -- every data set on the record is stored
    have hstored : ∀ o datasetId' data', (o, datasetId', data') ∈
        (recordPeriod r s ⟨ctx, .addactusg source datasetId data start⟩ s').datasets →
        (s'.findDataset (Checksum.sha256 (datasetText data'))).isSome := by
      intro o datasetId' data' hmem
      rw [hr] at hmem
      rcases List.mem_append.mp hmem with hmem | hnew
      · exact hrec.isSome (hI.stored o datasetId' data' hmem)
      · have hdata := (Prod.mk.inj (Prod.mk.inj (List.mem_singleton.mp hnew)).2).2
        rw [hdata]
        exact hrec.isSome_self
    -- the new data set is measured if the oracle is honest
    have hold := hI.reports
    rw [hstart] at hold
    have hreports : ReportsMeasured (measured start) bad s'
        (recordPeriod r s ⟨ctx, .addactusg source datasetId data start⟩ s') := by
      refine ⟨hold.totals, fun o u hu hbad => ?_, fun o datasetId' data' hmem hbad => ?_⟩
      · -- the commitment of the oracle is the one of its totals
        rw [husage', Table.find?_set] at hu
        split at hu
        · rename_i hos
          cases hu
          exact hold.commits source u₀ hrow (hos ▸ hbad)
        · exact hold.commits o u hu hbad
      · rw [hr] at hmem
        rcases List.mem_append.mp hmem with hmem | hnew
        · exact hold.datasets o datasetId' data' hmem hbad
        · simp only [List.mem_singleton, Prod.mk.injEq] at hnew
          obtain ⟨rfl, rfl, rfl⟩ := hnew
          exact hsigns hbad
    -- the tally of the action is the one of the state after it
    have hdue : ∀ due, s₁.dueDataset s.getConfig datasetId = .ok (some due) →
        ∃ measuredData, (measured start).dataset datasetId = some measuredData ∧
          datasetText due = datasetText measuredData := fun due hdue =>
      hreports.due hsha hsub htexts hstored hfew hpos husage hdatasets horacles hdue
    -- what is distributed has a number of the measured data sets
    have hmade : ∀ datasetId' ∈ s'.getConfig.accountDistributionsMade,
        ∃ data', (measured start).dataset datasetId' = some data' := by
      have hbefore := hI.made
      rw [hstart] at hbefore
      intro datasetId' hmem
      rcases hout with ⟨-, -, -, hmade⟩ | ⟨due, hsome, -, -, hmade⟩
      · -- nothing is due
        rw [hmade] at hmem
        exact hbefore datasetId' hmem
      · -- the data set that is due is agreed on, hence measured
        rw [hmade, List.mem_append, List.mem_singleton] at hmem
        rcases hmem with hmem | rfl
        · exact hbefore datasetId' hmem
        · obtain ⟨measuredData, hmeasured, -⟩ := hdue due hsome
          exact ⟨measuredData, hmeasured⟩
    refine ⟨⟨hcore, hsub, htexts, hstored, fun _ => ?_, ?_, fun hempty => ?_, ?_, ?_, fun _ => ?_⟩,
      ?_⟩
    · -- the rest of the state is as before
      rw [hthreshold]
      exact hfew
    · rw [hstart']
      exact hreports
    · -- its oracle has a row
      rw [horacles] at hempty
      have hnone := (hI.record_eq_empty hempty).2.2 source
      rw [hrow] at hnone
      cases hnone
    · rw [hstart']
      exact hmade
    · rw [hhist]
      exact hI.history
    · rw [hstart', hhist, ← hstart]
      exact hI.transferred htransferred
    · rcases hout with ⟨-, -, haccpay, -⟩ | ⟨due, hsome, -, hcredits, -⟩
      · -- nobody is credited
        exact .inl haccpay
      · -- the accounts of the data set that is due are credited
        obtain ⟨measuredData, hmeasured, htext⟩ := hdue due hsome
        exact .inr ⟨due, measuredData, hcredits, hmeasured, htext⟩

/-- A call of which each good oracle signs only what was measured keeps the invariant. -/
theorem step (hsha : Function.Injective (Checksum.sha256 : List Char → H))
    (hI : HonestInv measured bad s r) {call : ResourceCall F H} (hcall : Honest measured bad s call)
    (h : s.step call = .ok s') : HonestInv measured bad s' (recordPeriod r s call s') := by
  have hcore := step_coreToken hI.core h
  have hchange := step_period hI.core.token h
  have hsub := hI.submissions.step hchange
  cases hchange with
  | kept hquiet husage hdatasets hhist hsame hthreshold hunset haccpay =>
    rw [recordPeriod_of_quiet hquiet] at hsub ⊢
    -- a new period is no quiet call
    have hnext : call.action ≠ .nextperiod := by
      intro he
      rw [he] at hquiet
      cases hquiet
    exact hI.kept hcall hcore hsub husage hdatasets hhist hsame hthreshold
      ((step_config h).2 hnext)
  | first hquiet start hempty hhist husage hdatasets horacles htransferred hmade hthreshold =>
    rw [recordPeriod_of_quiet hquiet] at hsub ⊢
    -- before the first configuration the record is empty
    obtain ⟨-, -, hnone, rfl⟩ := hI.submissions.unset hempty
    refine .of_idle hcore hsub (hI.texts.congr hdatasets) (fun _ => ?_) (husage.trans hnone)
      htransferred hmade fun k row hrow => ?_
    · exact hcall.threshold _ hthreshold.symm
    · rw [hhist, Table.find?_set_ne _ _ (Nat.succ_ne_zero k)] at hrow
      exact hI.history k row hrow
  | totals source cpu net hash start haction hfresh husage hrec horacles hthreshold hmade haccpay
      hout =>
    obtain ⟨ctx, action⟩ := call
    cases haction
    have hne := hI.submissions.history_ne_empty husage hrec horacles hthreshold hout
    exact hI.totals hsha hcall h hcore hsub hne husage hrec horacles hthreshold hmade hout
  | dataset source datasetId data start haction =>
    obtain ⟨ctx, action⟩ := call
    cases haction
    exact (hI.dataset hsha hcall h hcore hsub).1
  | next haction husage hdatasets hhist horacles htransferred hmade hthreshold =>
    rw [recordPeriod_next haction] at hsub ⊢
    refine .of_idle hcore hsub (fun hash d hd => ?_) (fun hne => ?_) husage htransferred hmade ?_
    · -- a new period has no texts
      unfold findDataset at hd
      rw [hdatasets] at hd
      cases hd
    · -- and keeps the history and the threshold
      rw [hhist] at hne
      rw [hthreshold]
      exact hI.threshold hne
    · rw [hhist]
      exact hI.history

end HonestInv

/-! ## Runs -/

/-- The invariant holds after every such run. -/
theorem exec_honestInv (hsha : Function.Injective (Checksum.sha256 : List Char → H))
    (measured : TimePointSec → MeasuredUsage) (bad : Finset Name) (maxBlockNetUsage : UInt64)
    (maxBlockCpuUsage : UInt32) {calls : List (ResourceCall F H)}
    (hrun : Run.Meets step (Honest measured bad) (genesis maxBlockNetUsage maxBlockCpuUsage) calls) :
    ∃ r, HonestInv measured bad
      (Run.exec step (genesis maxBlockNetUsage maxBlockCpuUsage) calls) r := by
  have hstep : ∀ (p : ResourceState F H × PeriodRecord) call q, HonestInv measured bad p.1 p.2 →
      Honest measured bad p.1 call → Run.observed step recordPeriod p call = .ok q →
      HonestInv measured bad q.1 q.2 := by
    intro p call q hI hcall h
    obtain ⟨hstep, hrec⟩ := Run.observed_eq_ok h
    rw [hrec]
    exact hI.step hsha hcall hstep
  have hI := Run.exec_of_meets (I := fun p => HonestInv measured bad p.1 p.2) hstep
    (.genesis maxBlockNetUsage maxBlockCpuUsage) (Run.meets_observed recordPeriod .empty hrun)
  rw [Run.exec_observed_fst] at hI
  exact ⟨_, hI⟩

/-- With fewer bad oracles than the threshold, every row that an issuance has added to the
    history has the totals that were measured in its period. -/
theorem honest_history (hsha : Function.Injective (Checksum.sha256 : List Char → H))
    (measured : TimePointSec → MeasuredUsage) (bad : Finset Name) (maxBlockNetUsage : UInt64)
    (maxBlockCpuUsage : UInt32) {calls : List (ResourceCall F H)}
    (hrun : Run.Meets step (Honest measured bad) (genesis maxBlockNetUsage maxBlockCpuUsage) calls) :
    let s := Run.exec step (genesis maxBlockNetUsage maxBlockCpuUsage) calls
    ∀ k row, s.history.find? (k + 1) = some row →
      (row.totalCpuUs, row.totalNetWords) = (measured row.timestamp).totals := by
  obtain ⟨r, hI⟩ := exec_honestInv hsha measured bad maxBlockNetUsage maxBlockCpuUsage hrun
  exact hI.history

/-- And whenever a data set changes what accounts can claim, they are credited with data that
    has the text of the measured data set with its number. -/
theorem honest_credits (hsha : Function.Injective (Checksum.sha256 : List Char → H))
    (measured : TimePointSec → MeasuredUsage) (bad : Finset Name) (maxBlockNetUsage : UInt64)
    (maxBlockCpuUsage : UInt32) {calls : List (ResourceCall F H)}
    (hrun : Run.Meets step (Honest measured bad) (genesis maxBlockNetUsage maxBlockCpuUsage) calls)
    {ctx : Context} {source : Name} {datasetId : UInt16} {data : List Metric} {start : TimePointSec}
    {s' : ResourceState F H} :
    let s := Run.exec step (genesis maxBlockNetUsage maxBlockCpuUsage) calls
    SignsMeasured measured bad (⟨ctx, .addactusg source datasetId data start⟩ : ResourceCall F H) →
    s.step ⟨ctx, .addactusg source datasetId data start⟩ = .ok s' →
    s'.accpay = s.accpay ∨ ∃ due measuredData, Credits s s' start due ∧
      (measured start).dataset datasetId = some measuredData ∧
      datasetText due = datasetText measuredData := by
  intro s hsigns h
  obtain ⟨r, hI⟩ := exec_honestInv hsha measured bad maxBlockNetUsage maxBlockCpuUsage hrun
  have hcall : Honest measured bad s ⟨ctx, .addactusg source datasetId data start⟩ :=
    ⟨hsigns, fun t ht => (by cases ht), .inr rfl⟩
  exact (hI.dataset hsha hcall h (step_coreToken hI.core h)
    (hI.submissions.step (addactusg_period h))).2

/-! ## A lying oracle -/

namespace Sample

open SystemState.Sample

/-- In each period of the samples bob has used all of the CPU. -/
def measured : TimePointSec → MeasuredUsage := fun _ => ⟨(1000000, 2000), [[⟨bob, 600000⟩]]⟩

/-- An honest oracle reports its totals. -/
def honestTotals (who : Name) : ResourceCall Rat (List Char) :=
  let hashes : List (List Char) := (measured 1600000000).hashes
  call who (.settotalusg who 1000000 2000 (submissionsText hashes) 1600000000)

/-- Carol claims that she has used the CPU herself. -/
def lying : List (ResourceCall Rat (List Char)) :=
  setup 2 ++ [totals carol 2000000 1, honestTotals alice, honestTotals bob,
    dataset carol 1 [⟨carol, 2000000⟩], dataset bob 1 [⟨bob, 600000⟩]]

end Sample

open Sample in
/-- The row of the sample has the totals of alice and bob. -/
theorem honest_history_sample :
    ∃ row, (Run.exec step start lying).history.find? 1 = some row ∧
      (row.totalCpuUs, row.totalNetWords) = (1000000, 2000) := by
  have hrun : Run.Meets step (Honest measured {carol}) start lying := by decide +kernel
  have hrow : ((Run.exec step start lying).history.find? 1).isSome := by decide +kernel
  obtain ⟨row, hrow⟩ := Option.isSome_iff_exists.mp hrow
  exact ⟨row, hrow,
    honest_history Function.injective_id measured {carol} 1048576 200000 hrun 0 row hrow⟩

open Sample in
/-- The vote of alice is the one that pays bob. -/
theorem honest_credits_sample :
    ∃ s' due, (Run.exec step start lying).step
        (dataset SystemState.Sample.alice 1 [⟨SystemState.Sample.bob, 600000⟩]) = .ok s' ∧
      Credits (Run.exec step start lying) s' 1600000000 due ∧
      datasetText due = "bob600000".toList := by
  have hrun : Run.Meets step (Honest measured {carol}) start lying := by decide +kernel
  have hok : ((Run.exec step start lying).step
      (dataset SystemState.Sample.alice 1 [⟨SystemState.Sample.bob, 600000⟩])).isOk := by
    decide +kernel
  have hpaid : (Run.next step (Run.exec step start lying)
      (dataset SystemState.Sample.alice 1 [⟨SystemState.Sample.bob, 600000⟩])).accpay.size ≠
        (Run.exec step start lying).accpay.size := by
    decide +kernel
  have hsigns : SignsMeasured measured {carol}
      (dataset SystemState.Sample.alice 1 [⟨SystemState.Sample.bob, 600000⟩]) := by
    decide +kernel
  have hstep := Run.step_eq_next hok
  rcases honest_credits Function.injective_id measured {carol} 1048576 200000 hrun hsigns hstep with
    hsame | ⟨due, measuredData, hcredits, hmeasured, htext⟩
  · exact absurd (congrArg Table.size hsame) hpaid
  · cases hmeasured
    exact ⟨_, due, hstep, hcredits, htext⟩

end ResourceState

end UxContracts
