import UxContracts.Spec.HistoryChange
import Mathlib.Data.Finset.Card

/-!
# What a call does to the open period

A `PeriodRecord` is kept next to a run. It says what has happened since the last
`nextperiod`: what the oracles have submitted, which totals have been added to the
history, and which data sets have been distributed. `step_period` says what a call does
to the tables of the period.
-/

namespace UxContracts

/-- A data set that has been distributed, and the threshold it has reached. -/
structure Credit where
  datasetId : UInt16
  data : List Metric
  threshold : UInt16

/-- What has happened since the last `nextperiod`. -/
structure PeriodRecord where
  /-- the totals that oracles have submitted: CPU, then NET -/
  totals : List (Name × UInt64 × UInt64)
  /-- the data sets that oracles have submitted, with their numbers -/
  datasets : List (Name × UInt16 × List Metric)
  /-- the totals of the rows that have been added to the history -/
  appended : List (UInt64 × UInt64)
  credited : List Credit

namespace PeriodRecord

def empty : PeriodRecord := ⟨[], [], [], []⟩

/-- The oracles that have submitted these totals. -/
def supporters (r : PeriodRecord) (totals : UInt64 × UInt64) : Finset Name :=
  ((r.totals.filter fun x => x.2 = totals).map Prod.fst).toFinset

/-- The oracles that have submitted this data set under this number. -/
def passers (r : PeriodRecord) (datasetId : UInt16) (data : List Metric) : Finset Name :=
  ((r.datasets.filter fun x => x.2 = (datasetId, data)).map Prod.fst).toFinset

end PeriodRecord

namespace ResourceState

variable {F H : Type}

/-! ## The record -/

/-- The action reports usage or closes the period. -/
def isReport : ResourceAction F H → Bool
  | .settotalusg .. | .addactusg .. | .nextperiod => true
  | _ => false

/-- The threshold an action sets. -/
def newThreshold : ResourceAction F H → Option UInt16
  | .initresource _ threshold _ _ _ _ => some threshold
  | _ => none

/-- The account that claims its part of the tokens for users. -/
def payee : ResourceAction F H → Option Name
  | .claimdistrib account => some account
  | _ => none

/-- The totals that a call adds to the history. -/
def appendedBy (s : ResourceState F H) (call : ResourceCall F H) (s' : ResourceState F H) :
    List (UInt64 × UInt64) :=
  match issues s call s', s'.history.last? with
  | true, some (_, row) => [(row.totalCpuUs, row.totalNetWords)]
  | _, _ => []

variable [Checksum H] [Double F]

/-- The data set that is due when a call has submitted its own. -/
def dueCredit (s : ResourceState F H) (call : ResourceCall F H) : Option Credit :=
  match call.action with
  | .addactusg source datasetId dataset _ =>
    match s.submitDataset source datasetId dataset with
    | .ok s =>
      match s.dueDataset s.getConfig datasetId with
      | .ok (some data) => some ⟨datasetId, data, s.getConfig.oracleConsensusThreshold⟩
      | _ => none
    | .error _ => none
  | _ => none

def recordPeriod (r : PeriodRecord) (s : ResourceState F H) (call : ResourceCall F H)
    (s' : ResourceState F H) : PeriodRecord :=
  match call.action with
  | .settotalusg source cpu net _ _ =>
    { r with
      totals := r.totals ++ [(source, cpu, net)]
      appended := r.appended ++ appendedBy s call s' }
  | .addactusg source datasetId dataset _ =>
    { r with
      datasets := r.datasets ++ [(source, datasetId, dataset)]
      credited := r.credited ++ (s.dueCredit call).toList }
  | .nextperiod => .empty
  | _ => r

/-- Only reports are recorded. -/
theorem recordPeriod_of_quiet {r : PeriodRecord} {s s' : ResourceState F H}
    {call : ResourceCall F H} (h : isReport call.action = false) :
    recordPeriod r s call s' = r := by
  obtain ⟨ctx, action⟩ := call
  cases action with
  | settotalusg => cases h
  | addactusg => cases h
  | nextperiod => cases h
  | _ => rfl

section

variable {r : PeriodRecord} {s s' : ResourceState F H} {call : ResourceCall F H}

theorem recordPeriod_totals {source : Name} {cpu net : UInt64} {hash : H} {start : TimePointSec}
    (haction : call.action = .settotalusg source cpu net hash start) :
    recordPeriod r s call s' = { r with
      totals := r.totals ++ [(source, cpu, net)]
      appended := r.appended ++ appendedBy s call s' } := by
  unfold recordPeriod
  rw [haction]

theorem recordPeriod_dataset {source : Name} {datasetId : UInt16} {dataset : List Metric}
    {start : TimePointSec} (haction : call.action = .addactusg source datasetId dataset start) :
    recordPeriod r s call s' = { r with
      datasets := r.datasets ++ [(source, datasetId, dataset)]
      credited := r.credited ++ (s.dueCredit call).toList } := by
  unfold recordPeriod
  rw [haction]

/-- The next period starts with nothing recorded. -/
theorem recordPeriod_next (haction : call.action = .nextperiod) :
    recordPeriod r s call s' = .empty := by
  unfold recordPeriod
  rw [haction]

end

/-! ## Lookups in the tables of the period -/

omit [Double F] in
/-- A tally reads the usage table only. -/
theorem modalHash_congr {s s' : ResourceState F H} (h : s'.usage = s.usage)
    (pick : SystemUsage H → Option H) (oracles : List Name) :
    s'.modalHash pick oracles = s.modalHash pick oracles := by
  have hpick : s'.pickHashes pick oracles = s.pickHashes pick oracles := by
    induction oracles with
    | nil => rfl
    | cons o os ih =>
      unfold pickHashes
      rw [ih, h]
  unfold modalHash
  rw [hpick]

omit [Double F] in
theorem findDataset_congr {s s' : ResourceState F H} (h : s'.datasets = s.datasets) (hash : H) :
    s'.findDataset hash = s.findDataset hash := by
  unfold findDataset
  rw [h]

omit [Double F] in
/-- What the submission of a data set leaves in the tables, which are not changed by the
    distribution that follows. -/
theorem submitDataset_tables {s s₁ s' : ResourceState F H} {source : Name} {datasetId : UInt16}
    {dataset : List Metric} (h : s.submitDataset source datasetId dataset = .ok s₁)
    (husage : s'.usage = s₁.usage) (hdatasets : s'.datasets = s₁.datasets) :
    ∃ u allocated, s.usage.find? source = some u ∧
      datasetId.toNat = u.submissionHashList.length ∧
      allocate u.totalCpuUs u.allocatedCpu dataset = .ok allocated ∧
      s'.usage = s.usage.set source (addDataset u allocated dataset) ∧
      Recorded s s' (Checksum.sha256 (datasetText dataset)) dataset := by
  obtain ⟨u, allocated, hrow, hid, halloc, hs₁, hrec⟩ := submitDataset_spec h
  refine ⟨u, allocated, hrow, hid, halloc, ?_, fun hash => ?_⟩
  · rw [husage, hs₁]
  · rw [findDataset_congr hdatasets]
    exact hrec hash

omit [Checksum H] [Double F] in
/-- A hash in the list of an oracle stays there when a data set is added. -/
theorem listed_addDataset {usage : Table Name (SystemUsage H)} [Checksum H] {source o : Name}
    {u : SystemUsage H} {allocated : UInt64} {dataset : List Metric} {d : Nat} {hash : H}
    (hrow : usage.find? source = some u)
    (h : (usage.find? o).bind (fun u => u.submissionHashList[d]?) = some hash) :
    ((usage.set source (addDataset u allocated dataset)).find? o).bind
      (fun u => u.submissionHashList[d]?) = some hash := by
  rw [Table.find?_set]
  split
  · rename_i hos
    rw [hos, hrow, Option.bind_some] at h
    show (u.submissionHashList ++ [_])[d]? = _
    rw [List.getElem?_append_left (List.getElem?_eq_some_iff.mp h).1]
    exact h
  · exact h

/-! ## The kinds of calls -/

/-- What the configuration says about the period is the same. -/
structure SamePeriod (s s' : ResourceState F H) : Prop where
  oracles : s'.getConfig.submittingOracles = s.getConfig.submittingOracles
  transferred : s'.getConfig.inflationTransferred = s.getConfig.inflationTransferred
  made : s'.getConfig.accountDistributionsMade = s.getConfig.accountDistributionsMade

/-- A report of totals leads to an issuance, or there is no agreement yet. -/
inductive TotalsOutcome (s : ResourceState F H) (call : ResourceCall F H)
    (s' : ResourceState F H) : Prop where
  | open (history : s'.history = s.history) (noIssue : issues s call s' = false)
      (transferred : s'.getConfig.inflationTransferred = s.getConfig.inflationTransferred)
      (disagreed : s.getConfig.inflationTransferred = false →
        ∀ modal modeCount d, ¬ Agreed s' s'.getConfig modal modeCount d)
  | issued (modal : H) (modeCount : UInt8) (d : Dataset H) (cpu net : Metric) (rest : List Metric)
      (sends : List InlineAction) (k : Nat) (last row : UsageHistory F) (sym : Symbol)
      (inflation : Asset) (wasOpen : s.getConfig.inflationTransferred = false)
      (transferred : s'.getConfig.inflationTransferred = true)
      (agreed : Agreed s' s'.getConfig modal modeCount d) (data : d.data = cpu :: net :: rest)
      (issuance : Issuance s.sys s.history s'.history s.prodpay s'.prodpay cpu.u net.u sends k
        last row sym inflation)
      (run : SystemState.runInline call.ctx s.sys.token sends = .ok s'.sys.token)
      (sys : s'.sys = { s.sys with token := s'.sys.token }) (one : issues s call s' = true)

/-- A call leaves the period alone, or makes the first configuration, or reports totals or a
    data set, or opens the next period. -/
inductive PeriodChange (s : ResourceState F H) (call : ResourceCall F H)
    (s' : ResourceState F H) : Prop where
  | kept (quiet : isReport call.action = false) (usage : s'.usage = s.usage)
      (datasets : s'.datasets = s.datasets) (history : s'.history = s.history)
      (same : SamePeriod s s')
      (threshold : s'.getConfig.oracleConsensusThreshold =
        (newThreshold call.action).getD s.getConfig.oracleConsensusThreshold)
      (unset : s.history = ∅ → newThreshold call.action = none)
      (accpay : payee call.action = none → s'.accpay = s.accpay)
  | first (quiet : isReport call.action = false) (start : TimePointSec) (empty : s.history = ∅)
      (history : s'.history = s.history.set 0 (firstHistory start)) (usage : s'.usage = s.usage)
      (datasets : s'.datasets = s.datasets) (oracles : s'.getConfig.submittingOracles = [])
      (transferred : s'.getConfig.inflationTransferred = false)
      (made : s'.getConfig.accountDistributionsMade = [])
      (threshold : some s'.getConfig.oracleConsensusThreshold = newThreshold call.action)
      (accpay : s'.accpay = s.accpay) (noPayee : payee call.action = none)
  | totals (source : Name) (cpu net : UInt64) (hash : H) (start : TimePointSec)
      (action : call.action = .settotalusg source cpu net hash start)
      (fresh : s.usage.find? source = none)
      (usage : s'.usage = s.usage.set source (totalsUsage cpu net hash))
      (recorded : Recorded s s' (Checksum.sha256 (totalsText cpu net)) (totalsData cpu net))
      (oracles : s'.getConfig.submittingOracles = s.getConfig.submittingOracles ++ [source])
      (threshold : s'.getConfig.oracleConsensusThreshold = s.getConfig.oracleConsensusThreshold)
      (made : s'.getConfig.accountDistributionsMade = s.getConfig.accountDistributionsMade)
      (accpay : s'.accpay = s.accpay) (outcome : TotalsOutcome s call s')
  | dataset (source : Name) (datasetId : UInt16) (dataset : List Metric) (start : TimePointSec)
      (action : call.action = .addactusg source datasetId dataset start)
      (transferred : s.getConfig.inflationTransferred = true) (s₁ : ResourceState F H)
      (submit : s.submitDataset source datasetId dataset = .ok s₁) (usage : s'.usage = s₁.usage)
      (datasets : s'.datasets = s₁.datasets) (history : s'.history = s.history)
      (sys : s'.sys = s.sys)
      (oracles : s'.getConfig.submittingOracles = s.getConfig.submittingOracles)
      (stillTransferred : s'.getConfig.inflationTransferred = true)
      (threshold : s'.getConfig.oracleConsensusThreshold = s.getConfig.oracleConsensusThreshold)
      (outcome : (s₁.dueDataset s.getConfig datasetId = .ok none ∧ s.dueCredit call = none ∧
          s'.accpay = s.accpay ∧ s'.getConfig.accountDistributionsMade =
            s.getConfig.accountDistributionsMade) ∨
        ∃ data, s₁.dueDataset s.getConfig datasetId = .ok (some data) ∧
          s.dueCredit call =
            some ⟨datasetId, data, s.getConfig.oracleConsensusThreshold⟩ ∧
          Credits s s' start data ∧ s'.getConfig.accountDistributionsMade =
            s.getConfig.accountDistributionsMade ++ [datasetId])
  | next (action : call.action = .nextperiod) (usage : s'.usage = ∅) (datasets : s'.datasets = ∅)
      (history : s'.history = s.history) (oracles : s'.getConfig.submittingOracles = [])
      (transferred : s'.getConfig.inflationTransferred = false)
      (made : s'.getConfig.accountDistributionsMade = [])
      (threshold : s'.getConfig.oracleConsensusThreshold = s.getConfig.oracleConsensusThreshold)
      (accpay : s'.accpay = s.accpay) (sys : s'.sys = s.sys)

/-! ## Reports -/

omit [Double F] in
/-- An agreement is one on the tables and the configuration of the period. -/
theorem Agreed.congr {s s' : ResourceState F H} {cfg cfg' : ResourceConfig F} {modal : H}
    {modeCount : UInt8} {d : Dataset H} (h : Agreed s cfg modal modeCount d)
    (husage : s'.usage = s.usage) (hdatasets : s'.datasets = s.datasets)
    (horacles : cfg'.submittingOracles = cfg.submittingOracles)
    (hthreshold : cfg'.oracleConsensusThreshold = cfg.oracleConsensusThreshold) :
    Agreed s' cfg' modal modeCount d where
  enough := by
    rw [horacles, hthreshold]
    exact h.enough
  tally := by
    rw [horacles, modalHash_congr husage]
    exact h.tally
  reached := by
    rw [hthreshold]
    exact h.reached
  found := by
    rw [findDataset_congr hdatasets]
    exact h.found

/-- Totals open the period or wait, and are noted. -/
theorem settotalusg_period {s s' : ResourceState F H} {ctx : Context} {source : Name}
    {cpu net : UInt64} {hash : H} {start : TimePointSec} (hI : s.sys.token.Inv)
    (h : s.step ⟨ctx, .settotalusg source cpu net hash start⟩ = .ok s') :
    PeriodChange s ⟨ctx, .settotalusg source cpu net hash start⟩ s' := by
  -- the action and its inline actions
  obtain ⟨u, sends, token, hr, hrun, rfl⟩ := commit_eq_ok.mp h
  obtain ⟨-, hfresh, s₁, s₂, cfg, hs₁, hrec, htransfer, rfl⟩ := settotalusg_spec hr
  have hI₁ : s₁.sys.token.Inv := by
    rw [hs₁]
    exact hI
  rcases transferInflation_spec hI₁ htransfer with ⟨rfl, rfl, rfl, hdis⟩ |
    ⟨modal, modeCount, d, cpu', net', rest, hopen, hagreed, hdata, rfl,
      ⟨k, last, row, sym, inflation, hiss⟩, hs₂⟩
  -- nothing is transferred
  · refine .totals source cpu net hash start rfl hfresh ?_ hrec rfl rfl rfl ?_ (.open ?_ ?_ rfl ?_)
    · show s₂.usage = _
      rw [hs₁]
    · show s₂.accpay = _
      rw [hs₁]
    · show s₂.history = _
      rw [hs₁]
    · show decide (s.history.size < s₂.history.size) = false
      rw [hs₁]
      simp
    · intro hopen modal modeCount d hagreed
      exact hdis hopen modal modeCount d (hagreed.congr rfl rfl rfl rfl)
  -- an issuance writes the history and the pay, but no report
  · have husage : s₂.usage = s₁.usage := by rw [hs₂]
    have hdatasets : s₂.datasets = s₁.datasets := by rw [hs₂]
    have hsys : s₂.sys = s.sys := by rw [hs₂, hs₁]
    rw [hs₁] at hiss
    refine .totals source cpu net hash start rfl hfresh ?_ ?_ rfl rfl rfl ?_
      (.issued modal modeCount d cpu' net' rest sends k last row sym inflation hopen rfl
        (hagreed.congr husage hdatasets rfl rfl) hdata hiss ?_ ?_ ?_)
    · show s₂.usage = _
      rw [husage, hs₁]
    · intro hash'
      rw [← hrec hash']
      exact findDataset_congr hdatasets hash'
    · show s₂.accpay = _
      rw [hs₂, hs₁]
    · rw [← hsys]
      exact hrun
    · show { s₂.sys with token := token } = { s.sys with token := token }
      rw [hsys]
    · show decide (s.history.size < s₂.history.size) = true
      rw [hiss.history_eq, Table.size_set_succ row hiss.lastRow]
      simp

/-- A data set is noted, and credited when it is due. -/
theorem addactusg_period {s s' : ResourceState F H} {ctx : Context} {source : Name}
    {datasetId : UInt16} {dataset : List Metric} {start : TimePointSec}
    (h : s.step ⟨ctx, .addactusg source datasetId dataset start⟩ = .ok s') :
    PeriodChange s ⟨ctx, .addactusg source datasetId dataset start⟩ s' := by
  obtain ⟨htransferred, s₁, s₂, cfg, hsubmit, hdist, rfl⟩ := addactusg_spec h
  obtain ⟨u, allocated, -, -, -, hs₁, -⟩ := submitDataset_spec hsubmit
  have hcfg : s₁.getConfig = s.getConfig := by rw [hs₁]; rfl
  -- the credit on the record is the one that is paid
  have hdue : s.dueCredit ⟨ctx, .addactusg source datasetId dataset start⟩ =
      match s₁.dueDataset s.getConfig datasetId with
      | .ok (some data) => some ⟨datasetId, data, s.getConfig.oracleConsensusThreshold⟩
      | _ => none := by
    simp only [dueCredit, hsubmit, hcfg]
  rcases distributeDataset_spec hdist with ⟨hnone, rfl, rfl⟩ | ⟨data, hsome, hcredits, hs₂, rfl⟩
  · -- nothing is due
    refine .dataset source datasetId dataset start rfl htransferred s₂ hsubmit rfl rfl ?_ ?_ rfl
      htransferred rfl (.inl ⟨hnone, ?_, ?_, rfl⟩)
    · show s₂.history = _
      rw [hs₁]
    · show s₂.sys = _
      rw [hs₁]
    · rw [hdue, hnone]
    · show s₂.accpay = _
      rw [hs₁]
  · -- the data set is due, and its accounts are paid
    refine .dataset source datasetId dataset start rfl htransferred s₁ hsubmit ?_ ?_ ?_ ?_ rfl
      htransferred rfl (.inr ⟨data, hsome, ?_, ?_, rfl⟩)
    · show s₂.usage = _
      rw [hs₂]
    · show s₂.datasets = _
      rw [hs₂]
    · show s₂.history = _
      rw [hs₂, hs₁]
    · show s₂.sys = _
      rw [hs₂, hs₁]
    · rw [hdue, hsome]
    · obtain ⟨k, last, sym, hlast, hsym, hpay⟩ := hcredits
      rw [hs₁] at hlast hsym hpay
      exact ⟨k, last, sym, hlast, hsym, hpay⟩

/-- Every call changes the period in one of these ways. -/
theorem step_period {s s' : ResourceState F H} {call : ResourceCall F H}
    (hI : s.sys.token.Inv) (h : s.step call = .ok s') : PeriodChange s call s' := by
  obtain ⟨ctx, action⟩ := call
  cases action with
  | initresource batch threshold start seconds rate maxPay =>
    obtain ⟨cfg, hthreshold, ⟨hempty, hor, htr, hmade, rfl⟩ | ⟨hne, hor, htr, hmade, rfl⟩⟩ :=
      initresource_spec h
    · -- the first configuration
      refine .first rfl start (Table.ext_find? fun k => ?_) rfl rfl rfl hor htr hmade
        (congrArg some hthreshold) rfl rfl
      unfold Table.find?
      rw [hempty]
      rfl
    · -- a later one
      refine .kept rfl rfl rfl rfl ⟨hor, htr, hmade⟩ hthreshold (fun hempty => ?_) fun _ => rfl
      rw [hempty] at hne
      exact absurd rfl hne
  | resactivate active =>
    have heq := resactivate_spec h
    subst heq
    exact .kept rfl rfl rfl rfl ⟨rfl, rfl, rfl⟩ rfl (fun _ => rfl) fun _ => rfl
  | settotalusg source cpu net hash start => exact settotalusg_period hI h
  | addactusg source datasetId dataset start => exact addactusg_period h
  | nextperiod =>
    obtain ⟨sources, rfl⟩ := nextperiod_spec h
    exact .next rfl rfl rfl rfl rfl rfl rfl rfl rfl rfl
  | claimdistrib account =>
    obtain ⟨u, sends, token, hr, -, rfl⟩ := commit_eq_ok.mp h
    obtain ⟨pay, -, rfl, -⟩ := claimdistrib_spec hr
    -- a payout of usage resets the row of the account
    exact .kept rfl rfl rfl rfl ⟨rfl, rfl, rfl⟩ rfl (fun _ => rfl) fun hnone => nomatch hnone
  | claimrewards owner =>
    obtain ⟨u, sends, token, hr, -, rfl⟩ := commit_eq_ok.mp h
    obtain ⟨pay, balance, time, -, -, -, rfl, -⟩ := claimrewards_spec hr
    exact .kept rfl rfl rfl rfl ⟨rfl, rfl, rfl⟩ rfl (fun _ => rfl) fun _ => rfl
  | system action =>
    simp only [step, bind_eq_ok, pure_eq_ok] at h
    obtain ⟨sys, -, rfl⟩ := h
    -- the other contracts have tables of their own
    exact .kept rfl rfl rfl rfl ⟨rfl, rfl, rfl⟩ rfl (fun _ => rfl) fun _ => rfl

end ResourceState

end UxContracts
