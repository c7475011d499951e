import UxContracts.Spec.DatasetConsensus
import UxContracts.Spec.DatasetPayouts
import UxContracts.Spec.IssuedHistory
import UxContracts.Spec.PeriodClose
import UxContracts.Spec.SubmissionTables

/-!
# Oracles that report the same

Let all oracles of a period report the same totals and the same data sets, and enough of
them all of it. A data set is paid within the action that brings the last vote that was
missing for its number, while the other oracles are behind or ahead. However the actions
are interleaved, each number is paid once, so the accounts end up with the same rows.

What is paid under a number is looked up by the hash of the text, and it is the first data
set with this text. This is the one that was reported unless two data sets of the report
have one text (`interleavings_agree`).
-/

namespace UxContracts

/-- What the oracles of a period report. -/
structure PeriodReport where
  oracles : Finset Name
  cpu : UInt64
  net : UInt64
  start : TimePointSec
  datasets : List (List Metric)

namespace ResourceState

variable {F H : Type}

/-! ## Reports -/

/-- The data set that is found by a text: the first one. -/
def findText (datasets : List (List Metric)) (text : List Char) : List Metric :=
  (datasets.find? fun d => datasetText d = text).getD []

/-- What is paid for the data sets. -/
def foundDatasets (datasets : List (List Metric)) : List (List Metric) :=
  datasets.map fun d => findText datasets (datasetText d)

/-- A data set is found if none before it has its text. -/
theorem findText_of_first {datasets : List (List Metric)} {i : Nat} {d : List Metric}
    (hd : datasets[i]? = some d)
    (hfirst : ∀ j d', j < i → datasets[j]? = some d' → datasetText d' ≠ datasetText d) :
    findText datasets (datasetText d) = d := by
  obtain ⟨hi, hget⟩ := List.getElem?_eq_some_iff.mp hd
  have hfind : datasets.find? (fun d' => datasetText d' = datasetText d) = some d := by
    rw [List.find?_eq_some_iff_getElem]
    refine ⟨decide_eq_true rfl, i, hi, hget, fun j hj => ?_⟩
    have hne := hfirst j _ hj (List.getElem?_eq_getElem (by omega))
    simp [hne]
  unfold findText
  rw [hfind]
  rfl

/-- No two different data sets have the same text. -/
def TextsDiffer (datasets : List (List Metric)) : Prop :=
  ∀ d ∈ datasets, ∀ d' ∈ datasets, datasetText d = datasetText d' → d = d'

instance (datasets : List (List Metric)) : Decidable (TextsDiffer datasets) :=
  inferInstanceAs (Decidable (∀ d ∈ datasets, ∀ d' ∈ datasets, datasetText d = datasetText d' →
    d = d'))

/-- A data set that its text tells apart is found. -/
theorem findText_eq {datasets : List (List Metric)} (h : TextsDiffer datasets) {d : List Metric}
    (hd : d ∈ datasets) : findText datasets (datasetText d) = d := by
  unfold findText
  cases hfind : datasets.find? (fun d' => datasetText d' = datasetText d) with
  | none =>
    have hnone := List.find?_eq_none.mp hfind d hd
    exact absurd (decide_eq_true rfl) hnone
  | some d' =>
    have htext : datasetText d' = datasetText d := by simpa using List.find?_some hfind
    exact h d' (List.mem_of_find?_eq_some hfind) d hd htext

/-- Data sets that their texts tell apart are found. -/
theorem foundDatasets_eq {datasets : List (List Metric)} (h : TextsDiffer datasets) :
    foundDatasets datasets = datasets :=
  (List.map_congr_left fun _ hd => findText_eq h hd).trans (List.map_id _)

/-- The action is a part of the report, by one of the oracles. -/
def IsPart (w : PeriodReport) (call : ResourceCall F H) : Prop :=
  match call.action with
  | .settotalusg source totalCpuUs totalNetWords _ periodStart =>
    source ∈ w.oracles ∧ totalCpuUs = w.cpu ∧ totalNetWords = w.net ∧ periodStart = w.start
  | .addactusg source datasetId dataset periodStart =>
    source ∈ w.oracles ∧ 0 < datasetId.toNat ∧ w.datasets[datasetId.toNat - 1]? = some dataset ∧
      periodStart = w.start
  | _ => False

instance (w : PeriodReport) : (call : ResourceCall F H) → Decidable (IsPart w call)
  | ⟨_, .settotalusg source cpu net _ start⟩ => inferInstanceAs (Decidable
      (source ∈ w.oracles ∧ cpu = w.cpu ∧ net = w.net ∧ start = w.start))
  | ⟨_, .addactusg source datasetId dataset start⟩ => inferInstanceAs (Decidable
      (source ∈ w.oracles ∧ 0 < datasetId.toNat ∧
        w.datasets[datasetId.toNat - 1]? = some dataset ∧ start = w.start))
  | ⟨_, .initresource ..⟩ | ⟨_, .resactivate _⟩ | ⟨_, .nextperiod⟩ | ⟨_, .claimdistrib _⟩
  | ⟨_, .claimrewards _⟩ | ⟨_, .system _⟩ => isFalse id

/-- The oracle reports its totals. -/
def reportsTotals (o : Name) : ResourceAction F H → Bool
  | .settotalusg source .. => source = o
  | _ => false

/-- The oracle reports its data set of this number. -/
def reportsDataset (o : Name) (number : Nat) : ResourceAction F H → Bool
  | .addactusg source datasetId .. => source = o ∧ datasetId.toNat = number
  | _ => false

/-- The oracle reports all of it. -/
def Completes (w : PeriodReport) (calls : List (ResourceCall F H)) (o : Name) : Prop :=
  (∃ call ∈ calls, reportsTotals o call.action) ∧
    ∀ i < w.datasets.length, ∃ call ∈ calls, reportsDataset o (i + 1) call.action

instance (w : PeriodReport) (calls : List (ResourceCall F H)) (o : Name) :
    Decidable (Completes w calls o) :=
  inferInstanceAs (Decidable (_ ∧ _))

variable [Checksum H] [Double F]

/-- The calls are an interleaving of the actions by which the oracles make their report, each
    of them is accepted, and as many oracles as the threshold asks for report all of it. An
    oracle is held to the order of its own actions by the numbers of the data sets. -/
structure Interleaving (w : PeriodReport) (s : ResourceState F H) (calls : List (ResourceCall F H)) :
    Prop where
  parts : ∀ call ∈ calls, IsPart w call
  accepted : Run.Meets step (fun s call => (s.step call).isOk) s calls
  complete : ∃ voters : Finset Name,
    s.getConfig.oracleConsensusThreshold.toNat ≤ voters.card ∧ ∀ o ∈ voters, Completes w calls o

/-! ## The invariant -/

/-- The tokens for users that an issuance for the reported totals adds to the history. -/
def reportedTokens (w : PeriodReport) (s : ResourceState F H) : Int :=
  match s.issuedHistory (w.cpu, w.net) w.start with
  | .ok history => history.last?.elim 0 fun r => r.2.utilityTokens.amount.toInt
  | .error _ => 0

/-- What is found under the hash of a data set, which has entries only if there is CPU. -/
def Found (w : PeriodReport) (s : ResourceState F H) (data : List Metric) : Prop :=
  ∃ d, s.findDataset (Checksum.sha256 (datasetText data)) = some d ∧
    d.data = findText w.datasets (datasetText data) ∧ (d.data ≠ [] → 0 < w.cpu.toNat)

/-- The invariant of an interleaving that has started in `s₀`. -/
structure ReportInv (w : PeriodReport) (s₀ s : ResourceState F H) (r : PeriodRecord) : Prop where
  close : CloseInv s₀.getConfig.oracleConsensusThreshold s r
  totals : ∀ o totals, (o, totals) ∈ r.totals → o ∈ w.oracles ∧ totals = (w.cpu, w.net)
  parts : ∀ o datasetId data, (o, datasetId, data) ∈ r.datasets →
    0 < datasetId.toNat ∧ w.datasets[datasetId.toNat - 1]? = some data
  /-- a data set is in the list of its oracle -/
  listed : ∀ o datasetId data, (o, datasetId, data) ∈ r.datasets →
    (s.usage.find? o).bind (fun u => u.submissionHashList[datasetId.toNat]?) =
      some (Checksum.sha256 (datasetText data))
  rows : ∀ o u, s.usage.find? o = some u → u.totalCpuUs = w.cpu ∧ u.allocatedCpu ≤ u.totalCpuUs
  found : ∀ o datasetId data, (o, datasetId, data) ∈ r.datasets → Found w s data
  /-- nothing else is stored -/
  kinds : ∀ hash d, s.findDataset hash = some d →
    (hash = totalsHash (w.cpu, w.net) ∧ d.data = totalsData w.cpu w.net) ∨
    ∃ o datasetId data, (o, datasetId, data) ∈ r.datasets ∧
      hash = Checksum.sha256 (datasetText data)
  made : s.getConfig.accountDistributionsMade = r.credited.map Credit.datasetId
  credited : ∀ c ∈ r.credited, 0 < c.datasetId.toNat ∧ ∃ data,
    w.datasets[c.datasetId.toNat - 1]? = some data ∧
      c.data = findText w.datasets (datasetText data)
  coreSym : s.sys.coreSym = s₀.sys.coreSym
  /-- before the issuance nothing that it reads has changed -/
  before : s.getConfig.inflationTransferred = false → SameIssuance s₀ s
  after : s.getConfig.inflationTransferred = true →
    s₀.issuedHistory (w.cpu, w.net) w.start = .ok s.history
  paid : Paid w.cpu (s₀.reportedTokens w) s₀.sys.coreSym w.start
    (r.credited.map Credit.data).flatten s₀.accpay s.accpay

/-! ## Steps -/

omit [Double F] in
/-- The hash of totals is not the one of a data set. -/
theorem totalsHash_ne (hsha : Function.Injective (Checksum.sha256 : List Char → H))
    (totals : UInt64 × UInt64) (data : List Metric) :
    (totalsHash totals : H) ≠ Checksum.sha256 (datasetText data) := by
  intro h
  exact totalsText_ne_datasetText _ _ _ (hsha h)

omit [Checksum H] [Double F] in
/-- An allocation with entries has a positive total. -/
theorem allocate_pos {total allocated allocated' : UInt64} {data : List Metric}
    (hle : allocated ≤ total) (hne : data ≠ []) (h : allocate total allocated data = .ok allocated') :
    0 < total.toNat := by
  obtain ⟨hle', hsum⟩ := allocate_spec hle h
  have hle' := UInt64.le_iff_toNat_le.mp hle'
  cases data with
  | nil => exact absurd rfl hne
  | cons m data =>
    simp only [allocate, bind_eq_ok, check_eq_ok] at h
    obtain ⟨_, hpos, -⟩ := h
    have hpos := UInt64.lt_iff_toNat_lt.mp hpos
    simp only [cpuOf, List.map_cons, List.sum_cons] at hsum
    have hzero : (0 : UInt64).toNat = 0 := rfl
    omega

omit [Checksum H] in
/-- The last row after the issuance. -/
theorem issuedHistory_last {s : ResourceState F H} {w : PeriodReport}
    {history : Table Nat (UsageHistory F)} (hI : s.sys.token.Inv)
    (h : s.issuedHistory (w.cpu, w.net) w.start = .ok history) : ∃ k row,
      history.last? = some (k, row) ∧ row.totalCpuUs = w.cpu ∧
        row.utilityTokens.amount.toInt = s.reportedTokens w := by
  have hissued := h
  simp only [issuedHistory, bind_eq_ok, pure_eq_ok] at h
  obtain ⟨s₁, hset, ⟨s₂, sends⟩, hissue, rfl⟩ := h
  obtain ⟨⟨k, last, row, sym, inflation, hiss⟩, -⟩ := issuance_spec hI hset hissue
  have hlast : s₂.history.last? = some (k + 1, row) := by
    rw [hiss.history_eq]
    exact Table.last?_set_succ row hiss.lastRow
  refine ⟨k + 1, row, hlast, hiss.totalCpuUs, ?_⟩
  unfold reportedTokens
  simp only [hissued, hlast]
  rfl

/-- The oracles of the report are few. -/
theorem fewOracles_of_report {w : PeriodReport} {s s' : ResourceState F H} {r : PeriodRecord}
    {call : ResourceCall F H} (hfew : w.oracles.card < 256) (hsub : SubmissionInv s' r)
    (hmem : ∀ o totals, (o, totals) ∈ r.totals → o ∈ w.oracles) (h : s.step call = .ok s') :
    FewOracles s call := by
  unfold FewOracles
  rw [Run.next_of_ok h, hsub.oracles, ← List.toFinset_card_of_nodup hsub.nodup]
  refine lt_of_le_of_lt (Finset.card_le_card fun o ho => ?_) hfew
  obtain ⟨⟨o', totals⟩, hx, rfl⟩ := List.mem_map.mp (List.mem_toFinset.mp ho)
  exact hmem o' totals hx

/-- What is due under a number is found by the text of the data set with this number. -/
theorem due_found {w : PeriodReport} {s s₁ : ResourceState F H} {r : PeriodRecord}
    {cfg : ResourceConfig F} {datasetId : UInt16} {due : List Metric}
    (h0 : 0 < cfg.oracleConsensusThreshold.toNat) (hsub : SubmissionInv s r)
    (hnumber : 0 < datasetId.toNat)
    (hparts : ∀ o datasetId data, (o, datasetId, data) ∈ r.datasets →
      0 < datasetId.toNat ∧ w.datasets[datasetId.toNat - 1]? = some data)
    (hfound : ∀ o datasetId data, (o, datasetId, data) ∈ r.datasets → Found w s data)
    (husage : s.usage = s₁.usage) (hdatasets : s.datasets = s₁.datasets)
    (horacles : s.getConfig.submittingOracles = cfg.submittingOracles)
    (h : s₁.dueDataset cfg datasetId = .ok (some due)) : ∃ data,
      w.datasets[datasetId.toNat - 1]? = some data ∧ due = findText w.datasets (datasetText data) ∧
        (due ≠ [] → 0 < w.cpu.toNat) := by
  obtain ⟨-, modal, modeCount, htally, hreached, hdue⟩ := dueDataset_spec h
  rw [← modalHash_congr husage, ← horacles] at htally
  have hvotes := le_votes_of_mode h0 htally hreached
  -- a voter has submitted the data set with this number
  obtain ⟨o, -, hmodal⟩ := exists_voter (lt_of_lt_of_le h0 hvotes)
  obtain ⟨u, hu, hget⟩ := Option.bind_eq_some_iff.mp hmodal
  obtain ⟨datasetId', data, hmem, hid, rfl⟩ := hsub.later o u _ modal hu hnumber hget
  obtain ⟨d, hd, htext, hpos⟩ := hfound o datasetId' data hmem
  have hdata : due = d.data := by
    rw [hdue, storedData, ← findDataset_congr hdatasets, hd]
    rfl
  rw [hdata]
  exact ⟨data, hid ▸ (hparts o datasetId' data hmem).2, htext, hpos⟩

namespace ReportInv

variable {w : PeriodReport} {s₀ s s' : ResourceState F H} {r : PeriodRecord}

/-- The totals that are agreed on are the reported ones: a hash that oracles have voted for is
    the one of totals, and there are no others. -/
theorem agreed_reported {t : UInt16} (h0 : 0 < t.toNat)
    (hsha : Function.Injective (Checksum.sha256 : List Char → H)) (hclose : CloseInv t s' r)
    (hkinds : ∀ hash d, s'.findDataset hash = some d →
      (hash = totalsHash (w.cpu, w.net) ∧ d.data = totalsData w.cpu w.net) ∨
      ∃ o datasetId data, (o, datasetId, data) ∈ r.datasets ∧
        hash = Checksum.sha256 (datasetText data))
    {modal : H} {modeCount : UInt8} {d : Dataset H}
    (hagreed : Agreed s' s'.getConfig modal modeCount d) : d.data = totalsData w.cpu w.net := by
  have hreached := hagreed.reached
  rw [hclose.threshold] at hreached
  have hvotes := le_votes_of_mode h0 hagreed.tally hreached
  obtain ⟨o, totals, -, hmodal⟩ :=
    hclose.totals.submissions.exists_totals (lt_of_lt_of_le h0 hvotes)
  rcases hkinds modal d hagreed.found with ⟨-, hd⟩ | ⟨o, datasetId, data, -, hhash⟩
  · exact hd
  · exact absurd (hmodal.symm.trans hhash) (totalsHash_ne hsha totals data)

/-- A report of totals leaves the issuance open, or it issues for the reported totals. -/
theorem totals_issuance (hI : ReportInv w s₀ s r) {call : ResourceCall F H}
    (hhistory : SameIssuance s s' ∨ ∃ modal modeCount d cpu net rest,
      Agreed s' s'.getConfig modal modeCount d ∧ d.data = cpu :: net :: rest ∧
      s.issuedHistory (cpu.u, net.u) w.start = .ok s'.history)
    (hreported : ∀ modal modeCount d, Agreed s' s'.getConfig modal modeCount d →
      d.data = totalsData w.cpu w.net)
    (hout : TotalsOutcome s call s') :
    (s'.getConfig.inflationTransferred = false → SameIssuance s₀ s') ∧
      (s'.getConfig.inflationTransferred = true →
        s₀.issuedHistory (w.cpu, w.net) w.start = .ok s'.history) := by
  cases hout with
  | «open» hhist hnoIssue htransferred hdis =>
    rw [htransferred, hhist]
    refine ⟨fun hclosed => ?_, hI.after⟩
    -- there is no issuance, since there is no agreement
    rcases hhistory with hsame | ⟨modal, modeCount, d, cpu, net, rest, hagreed, -⟩
    · exact (hI.before hclosed).trans hsame
    · exact absurd hagreed (hdis hclosed modal modeCount d)
  | issued modal modeCount d cpu net rest sends k last row sym inflation hwas htransferred =>
    -- the issuance takes place now
    refine ⟨fun hclosed => absurd (htransferred.symm.trans hclosed) Bool.noConfusion, fun _ => ?_⟩
    rcases hhistory with hsame | ⟨modal, modeCount, d, cpu, net, rest, hagreed, hdata, hissued⟩
    · -- it writes a row, so the history is not the same
      have hconfig := congrArg ResourceConfig.inflationTransferred hsame.config
      rw [htransferred] at hconfig
      exact absurd (hconfig.trans hwas) Bool.noConfusion
    · -- the row has the totals that all report
      have htext := hreported modal modeCount d hagreed
      rw [hdata] at htext
      have hcpu : cpu.u = w.cpu := by rw [(List.cons.inj htext).1]
      have hnet : net.u = w.net := by
        rw [(List.cons.inj (List.cons.inj htext).2).1]
      rw [hcpu, hnet] at hissued
      exact (hI.before hwas).issuedHistory hissued

/-- A report of totals. -/
theorem settotalusg (h0 : 0 < s₀.getConfig.oracleConsensusThreshold.toNat)
    (hsha : Function.Injective (Checksum.sha256 : List Char → H)) (hfew : w.oracles.card < 256)
    (hI : ReportInv w s₀ s r) {ctx : Context} {source : Name} {cpu net : UInt64} {hash : H}
    {start : TimePointSec}
    (hpart : IsPart w (⟨ctx, .settotalusg source cpu net hash start⟩ : ResourceCall F H))
    (h : s.step ⟨ctx, .settotalusg source cpu net hash start⟩ = .ok s') :
    ReportInv w s₀ s' (recordPeriod r s ⟨ctx, .settotalusg source cpu net hash start⟩ s') := by
  obtain ⟨hsource, rfl, rfl, rfl⟩ := hpart
  have hcore := hI.close.totals.core
  have hchange := settotalusg_period hcore.token h
  have hsub := hI.close.totals.submissions.step hchange
  have htotals : ∀ o totals, (o, totals) ∈
      (recordPeriod r s ⟨ctx, .settotalusg source w.cpu w.net hash w.start⟩ s').totals →
      o ∈ w.oracles ∧ totals = (w.cpu, w.net) := by
    intro o totals hmem
    rcases List.mem_append.mp hmem with hold | hnew
    · exact hI.totals o totals hold
    · rw [List.mem_singleton, Prod.mk.injEq] at hnew
      exact ⟨hnew.1 ▸ hsource, hnew.2⟩
  have hkeep : KeepsThreshold s₀.getConfig.oracleConsensusThreshold
      (⟨ctx, .settotalusg source w.cpu w.net hash w.start⟩ : ResourceCall F H) := rfl
  have hclose := step_closeInv h0 hsha hI.close hkeep
    (fewOracles_of_report hfew hsub (fun o totals hmem => (htotals o totals hmem).1) h) h
  have hcoreSym : s'.sys.coreSym = s.sys.coreSym := by
    rcases step_sys hcore.token h with ⟨sends, -, hsys⟩ | ⟨action, haction, -⟩
    · rw [hsys]
      rfl
    · cases haction
  have hhistory := settotalusg_history hcore.token h
  cases hchange with
  | kept hquiet => cases hquiet
  | first hquiet => cases hquiet
  | dataset source' datasetId data start' haction => cases haction
  | next haction => cases haction
  | totals source' cpu' net' hash' start' haction hfresh husage hrec horacles hthreshold hmade
      haccpay hout =>
    cases haction
    -- an oracle that has no row yet has not submitted data sets
    have hne : ∀ o datasetId data, (o, datasetId, data) ∈ r.datasets → o ≠ source := by
      rintro o datasetId data hmem rfl
      have hlisted := hI.listed o datasetId data hmem
      rw [hfresh] at hlisted
      cases hlisted
    have hkinds : ∀ hash' d, s'.findDataset hash' = some d →
        (hash' = totalsHash (w.cpu, w.net) ∧ d.data = totalsData w.cpu w.net) ∨
        ∃ o datasetId data, (o, datasetId, data) ∈ r.datasets ∧
          hash' = Checksum.sha256 (datasetText data) := by
      intro hash' d hd
      rcases hrec.found hd with hold | ⟨rfl, -, rfl⟩
      · exact hI.kinds hash' d hold
      · exact .inl ⟨rfl, rfl⟩
    -- whatever the tally finds are the totals that all oracles report
    have hreported : ∀ modal modeCount d, Agreed s' s'.getConfig modal modeCount d →
        d.data = totalsData w.cpu w.net := fun _ _ _ hagreed =>
      agreed_reported h0 hsha hclose hkinds hagreed
    refine ⟨hclose, htotals, hI.parts, fun o datasetId data hmem => ?_, fun o u hu => ?_,
      fun o datasetId data hmem => ?_, hkinds, ?_, hI.credited, hcoreSym.trans hI.coreSym,
      fun hclosed => ?_, fun htr => ?_, ?_⟩
    · rw [husage, Table.find?_set_ne _ _ (hne o datasetId data hmem)]
      exact hI.listed o datasetId data hmem
    · rw [husage, Table.find?_set] at hu
      -- the report of a data set is still in the record of the oracle
      split at hu
      · cases hu
        exact ⟨rfl, UInt64.le_iff_toNat_le.mpr (Nat.zero_le _)⟩
      · exact hI.rows o u hu
    · obtain ⟨d, hd, hfound⟩ := hI.found o datasetId data hmem
      exact ⟨d, hrec.keeps hd, hfound⟩
    · rw [hmade]
      exact hI.made
    · exact (hI.totals_issuance hhistory hreported hout).1 hclosed
    · exact (hI.totals_issuance hhistory hreported hout).2 htr
    · -- the totals pay nothing for usage
      rw [haccpay]
      exact hI.paid

/-- A data set that has been submitted is found by its text. Its oracle has submitted the ones
    before it, so if none of its text is stored, it is the first one with this text. -/
theorem found_submitted (hsha : Function.Injective (Checksum.sha256 : List Char → H))
    (hI : ReportInv w s₀ s r) {source : Name} {datasetId : UInt16} {data : List Metric}
    {u : SystemUsage H} (hrow : s.usage.find? source = some u)
    (hid : datasetId.toNat = u.submissionHashList.length)
    (hdata : w.datasets[datasetId.toNat - 1]? = some data) (hpos : data ≠ [] → 0 < w.cpu.toNat)
    (hrec : Recorded s s' (Checksum.sha256 (datasetText data)) data) : Found w s' data := by
  obtain ⟨d, hd⟩ := Option.isSome_iff_exists.mp hrec.isSome_self
  rcases hrec.found hd with hold | ⟨-, hnone, rfl⟩
  · rcases hI.kinds _ d hold with ⟨hhash, -⟩ | ⟨o, datasetId', data', hmem, hhash⟩
    · exact absurd hhash.symm (totalsHash_ne hsha _ data)
    · obtain ⟨d', hd', hfound⟩ := hI.found o datasetId' data' hmem
      rw [← hsha hhash, hold, Option.some.injEq] at hd'
      rw [← hsha hhash, ← hd'] at hfound
      exact ⟨d, hd, hfound⟩
  · refine ⟨_, hd, (findText_of_first hdata fun j d' hj hd' htext => ?_).symm, hpos⟩
    have hlt : j + 1 < u.submissionHashList.length := by omega
    obtain ⟨datasetId', data', hmem, hid', -⟩ := hI.close.totals.submissions.later source u (j + 1) _
      hrow (Nat.succ_pos j) (List.getElem?_eq_getElem hlt)
    obtain ⟨-, hpart⟩ := hI.parts source datasetId' data' hmem
    rw [hid', Nat.add_sub_cancel, hd', Option.some.injEq] at hpart
    obtain ⟨d, hd, -⟩ := hI.found source datasetId' data' hmem
    rw [← hpart, htext, hnone] at hd
    cases hd

/-- What a data set that is due pays. The tokens are those of the row that the issuance has added. -/
theorem paid_due (hexact : Double.ExactShares F) (hcore₀ : s₀.sys.token.Inv)
    (hI : ReportInv w s₀ s r) (htransferred : s.getConfig.inflationTransferred = true)
    {due : List Metric} (hpos : due ≠ [] → 0 < w.cpu.toNat) (h : Credits s s' w.start due) :
    Paid w.cpu (s₀.reportedTokens w) s₀.sys.coreSym w.start
      ((r.credited.map Credit.data).flatten ++ due) s₀.accpay s'.accpay := by
  obtain ⟨k, last, sym, hlast, hsym, hpay⟩ := h
  obtain ⟨k', row, hrow, hcpu, htokens⟩ := issuedHistory_last hcore₀ (hI.after htransferred)
  rw [hlast, Option.some.injEq, Prod.mk.injEq] at hrow
  obtain ⟨-, rfl⟩ := hrow
  rw [SystemState.coreSym_of_ok hsym, hI.coreSym, hcpu] at hpay
  have hpaid := payAccounts_paid hexact hpos hpay
  rw [htokens] at hpaid
  exact hI.paid.append hpaid

/-- A data set is credited when it is due, and only then. -/
theorem dataset_credits (hexact : Double.ExactShares F) (hcore₀ : s₀.sys.token.Inv)
    (hI : ReportInv w s₀ s r) (htransferred : s.getConfig.inflationTransferred = true)
    {s₁ : ResourceState F H} {datasetId : UInt16} (hnumber : 0 < datasetId.toNat)
    {call : ResourceCall F H}
    (hfound : ∀ due, s₁.dueDataset s.getConfig datasetId = .ok (some due) → ∃ data,
      w.datasets[datasetId.toNat - 1]? = some data ∧ due = findText w.datasets (datasetText data) ∧
        (due ≠ [] → 0 < w.cpu.toNat))
    (hout : (s₁.dueDataset s.getConfig datasetId = .ok none ∧ s.dueCredit call = none ∧
        s'.accpay = s.accpay ∧ s'.getConfig.accountDistributionsMade =
          s.getConfig.accountDistributionsMade) ∨
      ∃ due, s₁.dueDataset s.getConfig datasetId = .ok (some due) ∧
        s.dueCredit call = some ⟨datasetId, due, s.getConfig.oracleConsensusThreshold⟩ ∧
        Credits s s' w.start due ∧ s'.getConfig.accountDistributionsMade =
          s.getConfig.accountDistributionsMade ++ [datasetId]) :
    s'.getConfig.accountDistributionsMade =
        (r.credited ++ (s.dueCredit call).toList).map Credit.datasetId ∧
      (∀ c ∈ r.credited ++ (s.dueCredit call).toList, 0 < c.datasetId.toNat ∧ ∃ data,
        w.datasets[c.datasetId.toNat - 1]? = some data ∧
          c.data = findText w.datasets (datasetText data)) ∧
      Paid w.cpu (s₀.reportedTokens w) s₀.sys.coreSym w.start
        ((r.credited ++ (s.dueCredit call).toList).map Credit.data).flatten s₀.accpay s'.accpay := by
  rcases hout with ⟨-, hnone, haccpay, hmade⟩ | ⟨due, hdue, hsome, hcredits, hmade⟩
  · -- nothing is due yet
    rw [hnone, Option.toList_none, List.append_nil, hmade, haccpay]
    exact ⟨hI.made, hI.credited, hI.paid⟩
  · -- the data set is due, and is credited now
    obtain ⟨data, hdata, htext, hpos⟩ := hfound due hdue
    rw [hsome, Option.toList_some, hmade, hI.made, List.map_append, List.map_append,
      List.flatten_append]
    refine ⟨rfl, fun c hc => ?_, ?_⟩
    · rcases List.mem_append.mp hc with hold | hnew
      · exact hI.credited c hold
      · rw [List.mem_singleton.mp hnew]
        exact ⟨hnumber, data, hdata, htext⟩
    · have hflat : (List.map Credit.data
          [⟨datasetId, due, s.getConfig.oracleConsensusThreshold⟩]).flatten = due :=
        List.append_nil due
      rw [hflat]
      exact hI.paid_due hexact hcore₀ htransferred hpos hcredits

/-- A data set. -/
theorem addactusg (h0 : 0 < s₀.getConfig.oracleConsensusThreshold.toNat)
    (hexact : Double.ExactShares F)
    (hsha : Function.Injective (Checksum.sha256 : List Char → H)) (hfew : w.oracles.card < 256)
    (hcore₀ : s₀.sys.token.Inv) (hI : ReportInv w s₀ s r) {ctx : Context} {source : Name}
    {datasetId : UInt16} {data : List Metric} {start : TimePointSec}
    (hpart : IsPart w (⟨ctx, .addactusg source datasetId data start⟩ : ResourceCall F H))
    (h : s.step ⟨ctx, .addactusg source datasetId data start⟩ = .ok s') :
    ReportInv w s₀ s' (recordPeriod r s ⟨ctx, .addactusg source datasetId data start⟩ s') := by
  obtain ⟨-, hnumber, hdata, rfl⟩ := hpart
  have hchange := addactusg_period h
  have hsub := hI.close.totals.submissions.step hchange
  have hkeep : KeepsThreshold s₀.getConfig.oracleConsensusThreshold
      (⟨ctx, .addactusg source datasetId data w.start⟩ : ResourceCall F H) := rfl
  have hclose := step_closeInv h0 hsha hI.close hkeep
    (fewOracles_of_report hfew hsub (fun o totals hmem => (hI.totals o totals hmem).1) h) h
  cases hchange with
  | kept hquiet => cases hquiet
  | first hquiet => cases hquiet
  | totals source' cpu net hash start' haction => cases haction
  | next haction => cases haction
  | dataset source' datasetId' data' start' haction htransferred s₁ hsubmit husage hdatasets hhist
      hsys horacles hstill hthreshold hout =>
    cases haction
    obtain ⟨u, allocated, hrow, hid, halloc, husage', hrec⟩ :=
      submitDataset_tables hsubmit husage hdatasets
    obtain ⟨htotal, hle⟩ := hI.rows source u hrow
    -- a data set that is not empty allocates a positive total
    have hpos : data ≠ [] → 0 < w.cpu.toNat := fun hne => htotal ▸ allocate_pos hle hne halloc
    -- a data set of the record is an old one or the new one
    have hmem_cases : ∀ {o datasetId' data'}, (o, datasetId', data') ∈
        r.datasets ++ [(source, datasetId, data)] → (o, datasetId', data') ∈ r.datasets ∨
          o = source ∧ datasetId' = datasetId ∧ data' = data := by
      intro o datasetId' data' hmem
      rcases List.mem_append.mp hmem with hold | hnew
      · exact .inl hold
      · simp only [List.mem_singleton, Prod.mk.injEq] at hnew
        exact .inr hnew
    have hparts : ∀ o datasetId' data', (o, datasetId', data') ∈
        r.datasets ++ [(source, datasetId, data)] →
        0 < datasetId'.toNat ∧ w.datasets[datasetId'.toNat - 1]? = some data' := by
      -- the parts that are recorded are parts of the window
      intro o datasetId' data' hmem
      rcases hmem_cases hmem with hold | ⟨rfl, rfl, rfl⟩
      · exact hI.parts o datasetId' data' hold
      · exact ⟨hnumber, hdata⟩
    have hfound : ∀ o datasetId' data', (o, datasetId', data') ∈
        r.datasets ++ [(source, datasetId, data)] → Found w s' data' := by
      -- the text of each recorded data set stays stored
      intro o datasetId' data' hmem
      rcases hmem_cases hmem with hold | ⟨rfl, rfl, rfl⟩
      · obtain ⟨d, hd, hrest⟩ := hI.found o datasetId' data' hold
        exact ⟨d, hrec.keeps hd, hrest⟩
      · exact hI.found_submitted hsha hrow hid hdata hpos hrec
    have hthr : 0 < s.getConfig.oracleConsensusThreshold.toNat := by
      rw [hI.close.threshold]
      exact h0
    -- what is due is the data set that all oracles have at this place
    have hcredited := hI.dataset_credits hexact hcore₀ htransferred hnumber
      (fun due hdue => due_found hthr hsub hnumber hparts hfound husage hdatasets horacles hdue) hout
    refine ⟨hclose, hI.totals, hparts, fun o datasetId' data' hmem => ?_, fun o u' hu => ?_, hfound,
      fun hash d hd => ?_, hcredited.1, hcredited.2.1, ?_, fun hclosed => ?_, fun _ => ?_,
      hcredited.2.2⟩
    · rw [husage']
      rcases hmem_cases hmem with hold | ⟨rfl, rfl, rfl⟩
      · exact listed_addDataset hrow (hI.listed o datasetId' data' hold)
      · rw [Table.find?_set_self, hid]
        exact List.getElem?_concat_length
    · -- the hashes that an oracle has listed
      rw [husage', Table.find?_set] at hu
      split at hu
      · cases hu
        exact ⟨htotal, (allocate_spec hle halloc).1⟩
      · exact hI.rows o u' hu
    · -- a stored text is the one of totals or of a data set
      rcases hrec.found hd with hold | ⟨rfl, -, -⟩
      · refine (hI.kinds hash d hold).imp id ?_
        rintro ⟨o, datasetId', data', hmem, hhash⟩
        exact ⟨o, datasetId', data', List.mem_append_left _ hmem, hhash⟩
      · exact .inr ⟨source, datasetId, data, List.mem_append_right _ List.mem_cons_self, rfl⟩
    · -- the issuance is not touched
      rw [hsys]
      exact hI.coreSym
    · rw [hstill] at hclosed
      cases hclosed
    · rw [hhist]
      exact hI.after htransferred

/-- At the start of a period nothing has been reported. -/
theorem start (h0 : 0 < s.getConfig.oracleConsensusThreshold.toNat) (h : PeriodStart s) :
    ReportInv w s s .empty where
  close := h.closeInv h0 rfl
  totals := fun o totals hmem => absurd hmem List.not_mem_nil
  parts := fun o datasetId data hmem => absurd hmem List.not_mem_nil
  listed := fun o datasetId data hmem => absurd hmem List.not_mem_nil
  -- the tables of the period are empty
  rows := fun o u hu => by
    rw [h.usage, Table.find?_empty] at hu
    cases hu
  found := fun o datasetId data hmem => absurd hmem List.not_mem_nil
  kinds := fun hash d hd => by
    unfold findDataset at hd
    rw [h.datasets] at hd
    cases hd
  made := h.made
  credited := fun c hc => absurd hc List.not_mem_nil
  coreSym := rfl
  before := fun _ => .refl s
  after := fun htr => by
    rw [h.transferred] at htr
    -- and nothing has been transferred
    cases htr
  paid := .nil s.accpay

/-- A part of the report keeps the invariant. -/
theorem step (h0 : 0 < s₀.getConfig.oracleConsensusThreshold.toNat)
    (hexact : Double.ExactShares F)
    (hsha : Function.Injective (Checksum.sha256 : List Char → H)) (hfew : w.oracles.card < 256)
    (hcore₀ : s₀.sys.token.Inv) (hI : ReportInv w s₀ s r) {call : ResourceCall F H}
    (hpart : IsPart w call) (h : s.step call = .ok s') :
    ReportInv w s₀ s' (recordPeriod r s call s') := by
  obtain ⟨ctx, action⟩ := call
  cases action with
  | settotalusg source cpu net hash start => exact hI.settotalusg h0 hsha hfew hpart h
  | addactusg source datasetId data start =>
    exact hI.addactusg h0 hexact hsha hfew hcore₀ hpart h
  | _ => exact hpart.elim

end ReportInv

/-! ## Runs -/

section

variable {w : PeriodReport} {s : ResourceState F H} {calls : List (ResourceCall F H)}

/-- What a part of the report records, and the others keep, is in the record at the end. -/
theorem exec_recorded {Q : PeriodRecord → Prop} (hparts : ∀ call ∈ calls, IsPart w call)
    (haccepted : Run.Meets step (fun s call => (s.step call).isOk) s calls)
    (hkeep : ∀ r (s : ResourceState F H) call s', IsPart w call → Q r →
      Q (recordPeriod r s call s'))
    {call : ResourceCall F H} (hmem : call ∈ calls)
    (hnow : ∀ r s s', Q (recordPeriod r s call s')) :
    Q (Run.exec (Run.observed step recordPeriod) (s, .empty) calls).2 := by
  refine Run.exec_of_mem (I := fun p => Q p.2) (fun p b q hp hpart hq => ?_) (fun p q hq => ?_) hmem
    hparts
    ((Run.meets_observed recordPeriod .empty haccepted).imp fun p call h => Run.observed_isOk h)
  · obtain ⟨-, hrec⟩ := Run.observed_eq_ok hq
    rw [hrec]
    exact hkeep _ _ _ _ hpart hp
  · obtain ⟨-, hrec⟩ := Run.observed_eq_ok hq
    rw [hrec]
    exact hnow _ _ _

/-- The record of an interleaving has the totals of each oracle that reports them. -/
theorem recorded_totals (hparts : ∀ call ∈ calls, IsPart w call)
    (haccepted : Run.Meets step (fun s call => (s.step call).isOk) s calls) {o : Name}
    (h : ∃ call ∈ calls, reportsTotals o call.action) :
    (o, w.cpu, w.net) ∈ (Run.exec (Run.observed step recordPeriod) (s, .empty) calls).2.totals := by
  obtain ⟨call, hmem, hreports⟩ := h
  apply exec_recorded (Q := fun r => (o, w.cpu, w.net) ∈ r.totals) hparts haccepted _ hmem _
  · rintro r s ⟨ctx, action⟩ s' hpart hr
    cases action with
    | settotalusg => exact List.mem_append_left _ hr
    | addactusg => exact hr
    | _ => exact hpart.elim
  · intro r s s'
    have hpart := hparts call hmem
    obtain ⟨ctx, action⟩ := call
    cases action with
    | settotalusg source cpu net hash start =>
      obtain ⟨-, rfl, rfl, -⟩ := hpart
      obtain rfl : source = o := of_decide_eq_true hreports
      exact List.mem_append_right _ List.mem_cons_self
    | _ => cases hreports

/-- The record has the data sets of each oracle that reports them. -/
theorem recorded_dataset (hparts : ∀ call ∈ calls, IsPart w call)
    (haccepted : Run.Meets step (fun s call => (s.step call).isOk) s calls) {o : Name} {n : Nat}
    (h : ∃ call ∈ calls, reportsDataset o n call.action) : ∃ datasetId data,
    datasetId.toNat = n ∧ (o, datasetId, data) ∈
      (Run.exec (Run.observed step recordPeriod) (s, .empty) calls).2.datasets := by
  obtain ⟨call, hmem, hreports⟩ := h
  apply exec_recorded (Q := fun r => ∃ datasetId data, datasetId.toNat = n ∧
    (o, datasetId, data) ∈ r.datasets) hparts haccepted _ hmem _
  · rintro r s ⟨ctx, action⟩ s' hpart ⟨datasetId, data, hn, hr⟩
    refine ⟨datasetId, data, hn, ?_⟩
    cases action with
    | settotalusg => exact hr
    | addactusg => exact List.mem_append_left _ hr
    | _ => exact hpart.elim
  · intro r s s'
    obtain ⟨ctx, action⟩ := call
    cases action with
    | addactusg source datasetId data start =>
      obtain ⟨rfl, hn⟩ : source = o ∧ datasetId.toNat = n := of_decide_eq_true hreports
      exact ⟨datasetId, data, hn, List.mem_append_right _ List.mem_cons_self⟩
    | _ => cases hreports

/-- By its number each data set is credited once. -/
theorem ReportInv.credited_numbers {s' : ResourceState F H} {r : PeriodRecord}
    (hI : ReportInv w s s' r)
    (hall : ∀ i < w.datasets.length,
      ∃ datasetId ∈ s'.getConfig.accountDistributionsMade, datasetId.toNat = i + 1) :
    (r.credited.map fun c => c.datasetId.toNat).Perm
      ((List.range w.datasets.length).map (· + 1)) := by
  rw [List.perm_ext_iff_of_nodup]
  · intro n
    simp only [List.mem_map, List.mem_range]
    constructor
    · -- a credit has the number of its data set
      rintro ⟨c, hc, rfl⟩
      obtain ⟨hpos, data, hdata, -⟩ := hI.credited c hc
      have hlt := (List.getElem?_eq_some_iff.mp hdata).1
      exact ⟨c.datasetId.toNat - 1, hlt, Nat.sub_add_cancel hpos⟩
    · -- each data set has been distributed, so there is a credit
      rintro ⟨i, hi, rfl⟩
      obtain ⟨datasetId, hmade, hid⟩ := hall i hi
      rw [hI.made] at hmade
      obtain ⟨c, hc, rfl⟩ := List.mem_map.mp hmade
      exact ⟨c, hc, hid⟩
  · -- no number is distributed twice
    have honce := hI.close.once
    rw [hI.made] at honce
    have hnodup := honce.map fun _ _ => UInt16.toNat_inj.mp
    rw [List.map_map] at hnodup
    exact hnodup
  · exact List.nodup_range.map fun _ _ h => Nat.succ_inj.mp h

/-- The data sets that have been paid are those that are found, in some order. -/
theorem ReportInv.credited_perm {s' : ResourceState F H} {r : PeriodRecord}
    (hI : ReportInv w s s' r)
    (hall : ∀ i < w.datasets.length,
      ∃ datasetId ∈ s'.getConfig.accountDistributionsMade, datasetId.toNat = i + 1) :
    (r.credited.map Credit.data).Perm (foundDatasets w.datasets) := by
  -- what is paid for a number is what its text finds
  let found (n : Nat) := findText w.datasets (datasetText (w.datasets.getD (n - 1) []))
  have hcredited : r.credited.map Credit.data =
      (r.credited.map fun c => c.datasetId.toNat).map found := by
    rw [List.map_map]
    refine List.map_congr_left fun c hc => ?_
    obtain ⟨-, data, hdata, hfound⟩ := hI.credited c hc
    show c.data = findText w.datasets
      (datasetText (w.datasets.getD (c.datasetId.toNat - 1) []))
    rw [List.getD_eq_getElem?_getD, hdata]
    exact hfound
  -- and so are the data sets that the claim lists
  have hfoundDatasets : foundDatasets w.datasets =
      ((List.range w.datasets.length).map (· + 1)).map found := by
    rw [List.map_map]
    apply List.ext_getElem
    · simp [foundDatasets]
    · intro i hi hi'
      have hlt : i < w.datasets.length := by simpa [foundDatasets] using hi
      simp [foundDatasets, found, hlt]
  rw [hcredited, hfoundDatasets]
  exact (hI.credited_numbers hall).map found

/-- Under each number its own data set is credited exactly if the texts tell the data sets
    apart. -/
theorem ReportInv.credited_own_iff {s' : ResourceState F H} {r : PeriodRecord}
    (hI : ReportInv w s s' r)
    (hall : ∀ i < w.datasets.length,
      ∃ datasetId ∈ s'.getConfig.accountDistributionsMade, datasetId.toNat = i + 1) :
    (∀ c ∈ r.credited, w.datasets[c.datasetId.toNat - 1]? = some c.data) ↔
      TextsDiffer w.datasets := by
  constructor
  · intro hown
    -- the text of a data set that has been credited as its own finds this data set
    have hself : ∀ d ∈ w.datasets, d = findText w.datasets (datasetText d) := by
      intro d hd
      obtain ⟨i, hi, hget⟩ := List.getElem_of_mem hd
      obtain ⟨datasetId, hmade, hid⟩ := hall i hi
      rw [hI.made] at hmade
      obtain ⟨c, hc, rfl⟩ := List.mem_map.mp hmade
      obtain ⟨-, data, hdata, hfound⟩ := hI.credited c hc
      have hsame : data = c.data := Option.some.inj (hdata.symm.trans (hown c hc))
      rw [hid, Nat.add_sub_cancel, List.getElem?_eq_getElem hi, hget] at hdata
      obtain rfl : d = data := Option.some.inj hdata
      exact hsame.trans hfound
    intro d hd d' hd' htext
    calc d = findText w.datasets (datasetText d) := hself d hd
      _ = findText w.datasets (datasetText d') := by rw [htext]
      _ = d' := (hself d' hd').symm
  · -- conversely, a text without a second data set finds its own
    intro hdiffer c hc
    obtain ⟨-, data, hdata, hfound⟩ := hI.credited c hc
    rw [hdata, hfound, findText_eq hdiffer (List.mem_of_getElem? hdata)]

/-- What an interleaving leaves behind: one row has been added to the history, the data sets
    that are found have been paid, each number once, and each number its own data set exactly if
    the texts tell them apart. -/
theorem Interleaving.outcome (h0 : 0 < s.getConfig.oracleConsensusThreshold.toNat)
    (hexact : Double.ExactShares F)
    (hsha : Function.Injective (Checksum.sha256 : List Char → H)) (hstart : PeriodStart s)
    (hfew : w.oracles.card < 256) (h : Interleaving w s calls) :
    let credited := (Run.exec (Run.observed step recordPeriod) (s, .empty) calls).2.credited
    s.issuedHistory (w.cpu, w.net) w.start = .ok (Run.exec step s calls).history ∧
    Paid w.cpu (s.reportedTokens w) s.sys.coreSym w.start (foundDatasets w.datasets).flatten
      s.accpay (Run.exec step s calls).accpay ∧
    (credited.map fun c => c.datasetId.toNat).Perm ((List.range w.datasets.length).map (· + 1)) ∧
    ((∀ c ∈ credited, w.datasets[c.datasetId.toNat - 1]? = some c.data) ↔
      TextsDiffer w.datasets) := by
  intro credited
  have hcore := (hstart.closeInv h0 rfl).totals.core
  -- one call of the report keeps the record of the period
  have hstep : ∀ (p : ResourceState F H × PeriodRecord) call q, ReportInv w s p.1 p.2 →
      IsPart w call → Run.observed step recordPeriod p call = .ok q → ReportInv w s q.1 q.2 := by
    intro p call q hI hpart hq
    obtain ⟨hstep, hrec⟩ := Run.observed_eq_ok hq
    rw [hrec]
    exact hI.step h0 hexact hsha hfew hcore.token hpart hstep
  -- and so does the whole run
  have hI : ReportInv w s
      (Run.exec (Run.observed step recordPeriod) (s, PeriodRecord.empty) calls).1
      (Run.exec (Run.observed step recordPeriod) (s, PeriodRecord.empty) calls).2 :=
    Run.exec_of_forall (I := fun p : ResourceState F H × PeriodRecord => ReportInv w s p.1 p.2)
      hstep (.start h0 hstart) h.parts
  obtain ⟨voters, hcard, hcomplete⟩ := h.complete
  have htotals := fun o (ho : o ∈ voters) =>
    recorded_totals h.parts h.accepted (hcomplete o ho).1
  have hdatasets := fun o (ho : o ∈ voters) i (hi : i < w.datasets.length) =>
    recorded_dataset h.parts h.accepted ((hcomplete o ho).2 i hi)
  rw [Run.exec_observed_fst] at hI
  unfold credited
  generalize (Run.exec (Run.observed step recordPeriod) (s, PeriodRecord.empty) calls).2 = r
    at hI htotals hdatasets ⊢
  have hsub := hI.close.totals.submissions
  -- each voter is an oracle of the period
  have hlisted : ∀ o ∈ voters, o ∈ (Run.exec step s calls).getConfig.submittingOracles := by
    -- whoever has reported totals is on the list
    intro o ho
    rw [hsub.oracles]
    exact List.mem_map.mpr ⟨_, htotals o ho, rfl⟩
  -- they agree on the totals
  have htransferred : (Run.exec step s calls).getConfig.inflationTransferred = true := by
    refine hI.close.totals.consensus.mpr ⟨totalsHash (w.cpu, w.net), hcard.trans ?_⟩
    exact le_count_picked fun o ho => ⟨hlisted o ho, hsub.first o _ (htotals o ho)⟩
  -- and on each data set
  have hall : ∀ i < w.datasets.length, ∃ datasetId ∈
      (Run.exec step s calls).getConfig.accountDistributionsMade, datasetId.toNat = i + 1 := by
    intro i hi
    refine hI.close.distributed (i + 1) (Checksum.sha256 (datasetText w.datasets[i]))
      (Nat.succ_pos i) (hcard.trans (le_count_picked fun o ho => ⟨hlisted o ho, ?_⟩))
    obtain ⟨datasetId, data, hid, hmem⟩ := hdatasets o ho i hi
    obtain ⟨-, hdata⟩ := hI.parts o datasetId data hmem
    rw [hid, Nat.add_sub_cancel, List.getElem?_eq_getElem hi, Option.some.injEq] at hdata
    rw [hdata, ← hid]
    exact hI.listed o datasetId data hmem
  exact ⟨hI.after htransferred, hI.paid.perm (hI.credited_perm hall).flatten,
    hI.credited_numbers hall, hI.credited_own_iff hall⟩

end

/-- What an account can claim. -/
def claimable (s : ResourceState F H) (a : Name) : Int := s.accpay.valueAt a AccountPay.amount

/-- Two interleavings of a report leave the same rows of accounts behind. Each number is credited
    once, and each account gets its share of the tokens that the last row of the history has for
    users for each entry of the data sets that are found by their texts. Under each number its own
    data set is credited exactly if no two different data sets have the same text, and then each
    account gets its share for each entry of the data sets that have been reported. -/
theorem interleavings_agree {w : PeriodReport} {s : ResourceState F H}
    {calls calls' : List (ResourceCall F H)}
    (h0 : 0 < s.getConfig.oracleConsensusThreshold.toNat) (hexact : Double.ExactShares F)
    (hsha : Function.Injective (Checksum.sha256 : List Char → H)) (hstart : PeriodStart s)
    (hfew : w.oracles.card < 256) (h : Interleaving w s calls) (h' : Interleaving w s calls') :
    let s' := Run.exec step s calls
    let credited := (Run.exec (Run.observed step recordPeriod) (s, .empty) calls).2.credited
    s'.accpay = (Run.exec step s calls').accpay ∧
    s'.history = (Run.exec step s calls').history ∧
    (credited.map fun c => c.datasetId.toNat).Perm ((List.range w.datasets.length).map (· + 1)) ∧
    ((∀ c ∈ credited, w.datasets[c.datasetId.toNat - 1]? = some c.data) ↔
      TextsDiffer w.datasets) ∧
    ∃ k row, s'.history.last? = some (k, row) ∧ row.totalCpuUs = w.cpu ∧
      (∀ a, s'.claimable a = s.claimable a +
        sharesOf w.cpu row.utilityTokens.amount.toInt (foundDatasets w.datasets).flatten a) ∧
      (TextsDiffer w.datasets → ∀ a, s'.claimable a = s.claimable a +
        sharesOf w.cpu row.utilityTokens.amount.toInt w.datasets.flatten a) := by
  intro s' credited
  have hcore := (hstart.closeInv h0 rfl).totals.core
  obtain ⟨hissued, hpaid, hnumbers, hown⟩ := h.outcome h0 hexact hsha hstart hfew
  obtain ⟨hissued', hpaid', -⟩ := h'.outcome h0 hexact hsha hstart hfew
  obtain ⟨k, row, hlast, hcpu, htokens⟩ := issuedHistory_last hcore.token hissued
  -- the issuance is a function of the state at the start and of the reported totals
  have hhistory : s'.history = (Run.exec step s calls').history :=
    Except.ok.inj (hissued.symm.trans hissued')
  have hshares : ∀ a, s'.claimable a = s.claimable a +
      sharesOf w.cpu row.utilityTokens.amount.toInt (foundDatasets w.datasets).flatten a := by
    intro a
    rw [htokens]
    exact hpaid.valueAt a
  refine ⟨hpaid.unique hpaid', hhistory, hnumbers, hown, k, row, hlast, hcpu, hshares,
    fun hdiffer a => ?_⟩
  rw [hshares a, foundDatasets_eq hdiffer]

namespace Sample

open SystemState.Sample

/-- The accounts of three oracles' data sets; bob has an entry in both of them. -/
def agreed : PeriodReport :=
  ⟨{alice, bob, carol}, 1000000, 2000, 1600000000,
    [[⟨bob, 600000⟩], [⟨carol, 100000⟩, ⟨bob, 200000⟩]]⟩

/-- Alice and bob report everything, and carol comes later. -/
def aliceFirst : List (ResourceCall Rat (List Char)) :=
  [totals alice 1000000 2000, totals bob 1000000 2000, dataset alice 1 [⟨bob, 600000⟩],
    dataset bob 1 [⟨bob, 600000⟩], totals carol 1000000 2000,
    dataset bob 2 [⟨carol, 100000⟩, ⟨bob, 200000⟩], dataset carol 1 [⟨bob, 600000⟩],
    dataset alice 2 [⟨carol, 100000⟩, ⟨bob, 200000⟩]]

/-- Carol is ahead, and alice follows. -/
def carolFirst : List (ResourceCall Rat (List Char)) :=
  [totals carol 1000000 2000, totals alice 1000000 2000, dataset carol 1 [⟨bob, 600000⟩],
    dataset carol 2 [⟨carol, 100000⟩, ⟨bob, 200000⟩], totals bob 1000000 2000,
    dataset alice 1 [⟨bob, 600000⟩], dataset alice 2 [⟨carol, 100000⟩, ⟨bob, 200000⟩]]

/-- Two data sets with the text `a12`. -/
def sameText : PeriodReport :=
  ⟨{alice, bob}, 1000000, 2000, 1600000000,
    [[⟨Name.ofString "a", 12⟩], [⟨Name.ofString "a1", 2⟩]]⟩

/-- Alice and bob report them. -/
def sameTextCalls : List (ResourceCall Rat (List Char)) :=
  [totals alice 1000000 2000, totals bob 1000000 2000, dataset alice 1 [⟨Name.ofString "a", 12⟩],
    dataset bob 1 [⟨Name.ofString "a", 12⟩], dataset alice 2 [⟨Name.ofString "a1", 2⟩],
    dataset bob 2 [⟨Name.ofString "a1", 2⟩]]

end Sample

open Sample in
/-- In the two samples bob is credited for both of his entries. -/
theorem interleavings_agree_sample :
    let s := Run.exec step start (setup 2)
    (Run.exec step s aliceFirst).accpay = (Run.exec step s carolFirst).accpay ∧
      (Run.exec step s aliceFirst).claimable SystemState.Sample.bob = 365247 + 121749 := by
  intro s
  have h : Interleaving agreed s aliceFirst :=
    ⟨by decide +kernel, by decide +kernel,
      ⟨{SystemState.Sample.alice, SystemState.Sample.bob}, by decide +kernel, by decide +kernel⟩⟩
  have h' : Interleaving agreed s carolFirst :=
    ⟨by decide +kernel, by decide +kernel,
      ⟨{carol, SystemState.Sample.alice}, by decide +kernel, by decide +kernel⟩⟩
  obtain ⟨hsame, -, -, -, k, row, hlast, -, -, hshares⟩ := interleavings_agree (by decide +kernel)
    Double.exactShares_rat Function.injective_id setup_periodStart (by decide +kernel) h h'
  refine ⟨hsame, (hshares (by decide +kernel) SystemState.Sample.bob).trans ?_⟩
  -- the tokens for users are those of the last row
  have htokens : (Run.exec step s aliceFirst).history.last?.map
      (fun q => sharesOf agreed.cpu q.2.utilityTokens.amount.toInt agreed.datasets.flatten
        SystemState.Sample.bob) = some (365247 + 121749) := by
    decide +kernel
  rw [hlast] at htokens
  have hbob : sharesOf agreed.cpu row.utilityTokens.amount.toInt agreed.datasets.flatten
      SystemState.Sample.bob = 365247 + 121749 :=
    Option.some.inj htokens
  rw [hbob]
  decide +kernel

open Sample in
/-- The first of two data sets with one text is paid twice, and the second one not at all. -/
theorem same_text_misdirected :
    let s := Run.exec step start (setup 2)
    PeriodStart s ∧ sameText.oracles.card < 256 ∧ Interleaving sameText s sameTextCalls ∧
      ∃ k row, (Run.exec step s sameTextCalls).history.last? = some (k, row) ∧
        ¬ ∀ a, (Run.exec step s sameTextCalls).claimable a = s.claimable a +
          sharesOf sameText.cpu row.utilityTokens.amount.toInt sameText.datasets.flatten a := by
  intro s
  have hnot : (Run.exec step s sameTextCalls).history.last?.map (fun q =>
      decide ((Run.exec step s sameTextCalls).claimable (Name.ofString "a1") =
        s.claimable (Name.ofString "a1") + sharesOf sameText.cpu
          q.2.utilityTokens.amount.toInt sameText.datasets.flatten (Name.ofString "a1"))) =
      some false := by
    decide +kernel
  cases hlast : (Run.exec step s sameTextCalls).history.last? with
  | none =>
    rw [hlast] at hnot
    cases hnot
  | some q =>
    rw [hlast] at hnot
    exact ⟨setup_periodStart, by decide +kernel, ⟨by decide +kernel, by decide +kernel,
      ⟨{SystemState.Sample.alice, SystemState.Sample.bob}, by decide +kernel, by decide +kernel⟩⟩,
      q.1, q.2, rfl, fun hall => of_decide_eq_false (Option.some.inj hnot) (hall _)⟩

end ResourceState

end UxContracts
