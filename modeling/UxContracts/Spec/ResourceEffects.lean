import UxContracts.Spec.Issuance

/-!
# What the actions of the resource model do

One lemma for each action that has succeeded: what it has checked, and which tables it
has changed. None of them changes a table of the system contract, and the tables of the
token contract change by inline actions only (`step_sys`), so every call keeps the
invariant of the core token (`step_coreToken`).
-/

namespace UxContracts

namespace ResourceState

variable {F H : Type}

/-! ## Stored data sets -/

/-- In `s'` a data set is stored under the hash: the one of `s`, or else a new one with the
    given data. -/
def Recorded [DecidableEq H] (s s' : ResourceState F H) (hash : H) (data : List Metric) : Prop :=
  ∀ hash', s'.findDataset hash' =
    if hash' = hash then some ((s.findDataset hash).getD ⟨hash, data⟩) else s.findDataset hash'

namespace Recorded

variable [DecidableEq H] {s s' : ResourceState F H} {hash hash' : H} {data : List Metric}
  {d : Dataset H}

/-- What is stored is not overwritten. -/
theorem keeps (h : Recorded s s' hash data) (hd : s.findDataset hash' = some d) :
    s'.findDataset hash' = some d := by
  rw [h hash']
  split
  · rename_i he
    rw [← he, hd]
    rfl
  · exact hd

/-- What is stored stays stored. -/
theorem isSome (h : Recorded s s' hash data) (hsome : (s.findDataset hash').isSome) :
    (s'.findDataset hash').isSome := by
  obtain ⟨d, hd⟩ := Option.isSome_iff_exists.mp hsome
  rw [h.keeps hd]
  rfl

theorem isSome_self (h : Recorded s s' hash data) : (s'.findDataset hash).isSome := by
  rw [h hash, if_pos rfl]
  rfl

/-- What is found was found before, or it is what has been recorded. -/
theorem found (h : Recorded s s' hash data) (hd : s'.findDataset hash' = some d) :
    s.findDataset hash' = some d ∨
      hash' = hash ∧ s.findDataset hash = none ∧ d = ⟨hash, data⟩ := by
  rw [h hash'] at hd
  split at hd
  · rename_i he
    rw [he]
    cases hold : s.findDataset hash with
    | some d' =>
      rw [hold, Option.getD_some] at hd
      exact .inl hd
    | none =>
      rw [hold, Option.getD_none, Option.some.injEq] at hd
      exact .inr ⟨rfl, rfl, hd.symm⟩
  · exact .inl hd

end Recorded

/-- A data set is stored under its hash unless there is one already. -/
theorem recordDataset_spec [DecidableEq H] {s s' : ResourceState F H} {hash : H}
    {data : List Metric} (h : s.recordDataset hash data = .ok s') :
    s' = { s with datasets := s'.datasets } ∧ Recorded s s' hash data := by
  unfold recordDataset at h
  cases hfind : s.findDataset hash with
  | some d =>
    -- a hash that is known adds no row
    simp only [hfind, Except.ok.injEq] at h
    subst h
    refine ⟨rfl, fun hash' => ?_⟩
    split
    · rename_i he
      rw [he, hfind]
      rfl
    · rfl
  | none =>
    -- the new row gets the next key
    simp only [hfind, bind_eq_ok, pure_eq_ok] at h
    obtain ⟨id, hid, rfl⟩ := h
    refine ⟨rfl, fun hash' => ?_⟩
    -- the new row is the last one, so it is found only if no other one is
    have hlast : ∀ k v, s.datasets.find? k = some v → k < id := by
      intro k v hk
      cases hl : s.datasets.last? with
      | none =>
        have hmem := Table.mem_rows.mpr hk
        rw [Table.last?_eq_none.mp hl] at hmem
        cases hmem
      | some r =>
        obtain ⟨k', v'⟩ := r
        rw [availablePrimaryKey_spec hl hid]
        exact Nat.lt_succ_of_le ((Table.last?_eq_some.mp hl).2 k v hk)
    -- a search sees the old rows first
    have hvalues : ({ s with datasets := s.datasets.set id ⟨hash, data⟩ } :
        ResourceState F H).findDataset hash' =
        (s.findDataset hash').or (if hash' = hash then some ⟨hash, data⟩ else none) := by
      unfold findDataset Table.values
      rw [Table.rows_set_end _ _ hlast, List.map_append, List.find?_append]
      congr 1
      by_cases he : hash' = hash
      · rw [if_pos he, he]
        simp
      · rw [if_neg he]
        simp [Ne.symm he]
    rw [hvalues]
    by_cases he : hash' = hash
    · rw [he, hfind, if_pos rfl, if_pos rfl]
      rfl
    · rw [if_neg he, if_neg he, Option.or_none]

/-! ## Totals -/

variable [Checksum H] [Double F]

/-- The oracles of a period agree on the totals in the data set `d`. -/
structure Agreed (s : ResourceState F H) (cfg : ResourceConfig F) (modal : H) (modeCount : UInt8)
    (d : Dataset H) : Prop where
  enough : cfg.oracleConsensusThreshold.toNat ≤ cfg.submittingOracles.length
  tally : s.modalHash (fun u => u.submissionHashList[0]?) cfg.submittingOracles =
    .ok (modal, modeCount)
  reached : cfg.oracleConsensusThreshold.toNat ≤ modeCount.toNat
  found : s.findDataset modal = some d

/-- Either nothing is done, since there is no agreement, or there is an issuance. -/
theorem transferInflation_spec {s s' : ResourceState F H} {cfg cfg' : ResourceConfig F}
    {start : TimePointSec} {sends : List InlineAction} (hI : s.sys.token.Inv)
    (h : s.transferInflation cfg start = .ok (s', cfg', sends)) :
    (s' = s ∧ cfg' = cfg ∧ sends = [] ∧ (cfg.inflationTransferred = false →
      ∀ modal modeCount d, ¬ Agreed s cfg modal modeCount d)) ∨
    (∃ modal modeCount d cpu net rest, cfg.inflationTransferred = false ∧
      Agreed s cfg modal modeCount d ∧ d.data = cpu :: net :: rest ∧ cfg' = { cfg with inflationTransferred := true } ∧
      (∃ k last row sym inflation, Issuance s.sys s.history s'.history s.prodpay s'.prodpay
        cpu.u net.u sends k last row sym inflation) ∧
      s' = { s with history := s'.history, prodpay := s'.prodpay, config := s'.config }) := by
  unfold transferInflation at h
  split at h
  · rename_i hopen
    rw [Bool.not_eq_true] at hopen
    simp only [bind_eq_ok] at h
    obtain ⟨⟨modal, modeCount⟩, htally, h⟩ := h
    split at h
    · rename_i hreached
      split at h
      · rename_i d hfound
        split at h
        · rename_i cpu net rest hdata
          -- the oracles agree on totals that are stored
          simp only [bind_eq_ok, pure_eq_ok, Prod.mk.injEq] at h
          obtain ⟨s₁, hset, ⟨s₂, sends'⟩, hissue, rfl, rfl, rfl⟩ := h
          obtain ⟨hissuance, heq⟩ := issuance_spec hI hset hissue
          exact .inr ⟨modal, modeCount, d, cpu, net, rest, hopen.1,
            ⟨hopen.2, htally, hreached, hfound⟩, hdata, rfl, hissuance, heq⟩
        · cases h
      -- nothing is stored under the modal hash
      · rename_i hfound
        simp only [pure_eq_ok, Prod.mk.injEq] at h
        obtain ⟨rfl, rfl, rfl⟩ := h
        refine .inl ⟨rfl, rfl, rfl, fun _ modal' modeCount' d hagreed => ?_⟩
        have heq := hagreed.tally
        rw [htally, Except.ok.injEq, Prod.mk.injEq] at heq
        rw [heq.1, hagreed.found] at hfound
        cases hfound
    -- the modal hash has too few votes
    · rename_i hreached
      simp only [pure_eq_ok, Prod.mk.injEq] at h
      obtain ⟨rfl, rfl, rfl⟩ := h
      refine .inl ⟨rfl, rfl, rfl, fun _ modal' modeCount' d hagreed => ?_⟩
      have heq := hagreed.tally
      rw [htally, Except.ok.injEq, Prod.mk.injEq] at heq
      exact hreached (heq.2 ▸ hagreed.reached)
  -- inflation has been transferred, or there are too few oracles
  · rename_i hclosed
    rw [Bool.not_eq_true] at hclosed
    simp only [Except.ok.injEq, Prod.mk.injEq] at h
    obtain ⟨rfl, rfl, rfl⟩ := h
    exact .inl ⟨rfl, rfl, rfl, fun hopen modal modeCount d hagreed =>
      hclosed ⟨hopen, hagreed.enough⟩⟩

/-- The data set that stands for totals. -/
def totalsData (cpu net : UInt64) : List Metric :=
  [⟨Name.ofString "cpu.us", cpu⟩, ⟨Name.ofString "net.words", net⟩]

/-- The row of an oracle that has submitted its totals. -/
def totalsUsage (cpu net : UInt64) (allDataHash : H) : SystemUsage H :=
  ⟨cpu, net, 0, [Checksum.sha256 (totalsText cpu net)], allDataHash⟩

/-- What a successful `settotalusg` did: the totals are recorded, and then inflation may be
    transferred. -/
theorem settotalusg_spec {ctx : Context} {s s' : ResourceState F H} {source : Name}
    {cpu net : UInt64} {allDataHash : H} {start : TimePointSec} {sends : List InlineAction}
    (h : s.settotalusg ctx source cpu net allDataHash start = .ok (s', sends)) :
    s.getConfig.active ∧ s.usage.find? source = none ∧
    ∃ s₁ s₂ cfg, s₁ = { s with
        usage := s.usage.set source (totalsUsage cpu net allDataHash)
        datasets := s₁.datasets } ∧
      Recorded s s₁ (Checksum.sha256 (totalsText cpu net)) (totalsData cpu net) ∧
      s₁.transferInflation
        { s.getConfig with submittingOracles := s.getConfig.submittingOracles ++ [source] }
        start = .ok (s₂, cfg, sends) ∧
      s' = s₂.setConfig cfg := by
  simp only [settotalusg, bind_eq_ok, check_eq_ok, pure_eq_ok, Prod.mk.injEq,
    Option.isNone_iff_eq_none] at h
  obtain ⟨_, -, _, -, _, hactive, _, -, _, -, _, -, _, hnone, s₁, hrec, ⟨s₂, cfg, sends'⟩, htransfer,
    rfl, rfl⟩ := h
  obtain ⟨heq, hfind⟩ := recordDataset_spec hrec
  refine ⟨hactive, hnone, { s₁ with
    usage := s₁.usage.set source (totalsUsage cpu net allDataHash) }, s₂, cfg, ?_, hfind, htransfer,
    rfl⟩
  rw [heq]

/-- A `settotalusg` has issued inflation if it has added a row to the history. -/
theorem settotalusg_issuance {ctx : Context} {s s' : ResourceState F H} {source : Name}
    {cpu net : UInt64} {allDataHash : H} {start : TimePointSec} {sends : List InlineAction}
    (hI : s.sys.token.Inv)
    (h : s.settotalusg ctx source cpu net allDataHash start = .ok (s', sends)) :
    s'.sys = s.sys ∧ s'.accpay = s.accpay ∧
    ((s'.history = s.history ∧ s'.prodpay = s.prodpay ∧ sends = []) ∨
      ∃ cpu net k last row sym inflation, Issuance s.sys s.history s'.history s.prodpay s'.prodpay
        cpu net sends k last row sym inflation) := by
  obtain ⟨-, -, s₁, s₂, cfg, hs₁, -, htransfer, rfl⟩ := settotalusg_spec h
  have hI₁ : s₁.sys.token.Inv := by rw [hs₁]; exact hI
  rcases transferInflation_spec hI₁ htransfer with
    ⟨rfl, -, rfl, -⟩ |
    ⟨_, _, _, cpu', net', _, -, -, -, -, ⟨k, last, row, sym, inflation, hiss⟩, hs₂⟩
  · rw [hs₁]
    exact ⟨rfl, rfl, .inl ⟨rfl, rfl, rfl⟩⟩
  · rw [hs₁] at hiss
    refine ⟨?_, ?_, .inr ⟨cpu'.u, net'.u, k, last, row, sym, inflation, hiss⟩⟩
    · show s₂.sys = _
      rw [hs₂, hs₁]
    · show s₂.accpay = _
      rw [hs₂, hs₁]

/-! ## Data sets -/

/-- The data of the data set that is stored under a hash. -/
def storedData (s : ResourceState F H) (hash : H) : List Metric :=
  ((s.findDataset hash).map Dataset.data).getD []

omit [Double F] in
/-- A data set is due if the oracles of the period agree on its hash. -/
theorem dueDataset_spec {s : ResourceState F H} {cfg : ResourceConfig F} {datasetId : UInt16}
    {data : List Metric} (h : s.dueDataset cfg datasetId = .ok (some data)) :
    datasetId ∉ cfg.accountDistributionsMade ∧ ∃ modal modeCount,
      s.modalHash (fun u => u.submissionHashList[datasetId.toNat]?) cfg.submittingOracles =
        .ok (modal, modeCount) ∧
      cfg.oracleConsensusThreshold.toNat ≤ modeCount.toNat ∧ data = s.storedData modal := by
  unfold dueDataset at h
  split at h
  · simp only [bind_eq_ok] at h
    obtain ⟨⟨modal, modeCount⟩, htally, h⟩ := h
    split at h
    · rename_i hopen
      simp only [pure_eq_ok, Option.some.injEq] at h
      exact ⟨hopen.1, modal, modeCount, htally, hopen.2, h.symm⟩
    · simp only [pure_eq_ok] at h
      cases h
  · simp only [Except.ok.injEq] at h
    cases h

/-- The accounts of `data` are credited. -/
def Credits (s s' : ResourceState F H) (start : TimePointSec) (data : List Metric) : Prop :=
  ∃ k last sym, s.history.last? = some (k, last) ∧ s.sys.coreSymbol = .ok sym ∧
    payAccounts (F := F) last.totalCpuUs last.utilityTokens.amount sym start s.accpay data =
      .ok s'.accpay

/-- A data set is distributed if it is due. -/
theorem distributeDataset_spec {s s' : ResourceState F H} {cfg cfg' : ResourceConfig F}
    {datasetId : UInt16} {start : TimePointSec}
    (h : s.distributeDataset cfg datasetId start = .ok (s', cfg')) :
    (s.dueDataset cfg datasetId = .ok none ∧ s' = s ∧ cfg' = cfg) ∨
    (∃ data, s.dueDataset cfg datasetId = .ok (some data) ∧ Credits s s' start data ∧
      s' = { s with accpay := s'.accpay } ∧
      cfg' = { cfg with
        accountDistributionsMade := cfg.accountDistributionsMade ++ [datasetId] }) := by
  simp only [distributeDataset, bind_eq_ok] at h
  obtain ⟨due, hdue, h⟩ := h
  cases due with
  | none =>
    simp only [pure_eq_ok, Prod.mk.injEq] at h
    obtain ⟨rfl, rfl⟩ := h
    exact .inl ⟨hdue, rfl, rfl⟩
  | some data =>
    simp only [bind_eq_ok, lastRow_eq_ok, pure_eq_ok, Prod.mk.injEq] at h
    obtain ⟨⟨k, last⟩, hlast, sym, hsym, accpay, hpay, rfl, rfl⟩ := h
    exact .inr ⟨data, hdue, ⟨k, last, sym, hlast, hsym, hpay⟩, rfl, rfl⟩

/-- The row of an oracle with one more data set. -/
def addDataset (u : SystemUsage H) (allocated : UInt64) (dataset : List Metric) :
    SystemUsage H :=
  { u with
    allocatedCpu := allocated
    submissionHashList := u.submissionHashList ++ [Checksum.sha256 (datasetText dataset)] }

omit [Double F] in
/-- A submission appends its hash to the list of the oracle and allocates its CPU. -/
theorem submitDataset_spec {s s' : ResourceState F H} {source : Name} {datasetId : UInt16}
    {dataset : List Metric} (h : s.submitDataset source datasetId dataset = .ok s') :
    ∃ u allocated, s.usage.find? source = some u ∧
      datasetId.toNat = u.submissionHashList.length ∧
      allocate u.totalCpuUs u.allocatedCpu dataset = .ok allocated ∧
      s' = { s with
        usage := s.usage.set source (addDataset u allocated dataset)
        datasets := s'.datasets } ∧
      Recorded s s' (Checksum.sha256 (datasetText dataset)) dataset := by
  simp only [submitDataset, bind_eq_ok, check_eq_ok, getRow_eq_ok] at h
  obtain ⟨u, hu, _, hid, allocated, halloc, hrec⟩ := h
  obtain ⟨heq, hfind⟩ := recordDataset_spec hrec
  exact ⟨u, allocated, hu, hid, halloc, heq, hfind⟩

/-- What a successful `addactusg` did: the data set is recorded, and then a data set may be
    distributed. -/
theorem addactusg_spec {ctx : Context} {s s' : ResourceState F H} {source : Name}
    {datasetId : UInt16} {dataset : List Metric} {start : TimePointSec}
    (h : s.addactusg ctx source datasetId dataset start = .ok s') :
    s.getConfig.inflationTransferred ∧
    ∃ s₁ s₂ cfg, s.submitDataset source datasetId dataset = .ok s₁ ∧
      s₁.distributeDataset s.getConfig datasetId start = .ok (s₂, cfg) ∧
      s' = s₂.setConfig cfg := by
  simp only [addactusg, bind_eq_ok, check_eq_ok, pure_eq_ok] at h
  obtain ⟨_, -, _, -, _, -, _, -, _, -, _, htransferred, s₁, hsubmit, ⟨s₂, cfg⟩, hdist, rfl⟩ := h
  exact ⟨htransferred, s₁, s₂, cfg, hsubmit, hdist, rfl⟩

/-- A data set changes neither the history nor what producers can claim. -/
theorem addactusg_frame {ctx : Context} {s s' : ResourceState F H} {source : Name}
    {datasetId : UInt16} {dataset : List Metric} {start : TimePointSec}
    (h : s.addactusg ctx source datasetId dataset start = .ok s') :
    s'.sys = s.sys ∧ s'.history = s.history ∧ s'.prodpay = s.prodpay := by
  obtain ⟨-, s₁, s₂, cfg, hsubmit, hdist, rfl⟩ := addactusg_spec h
  obtain ⟨u, allocated, -, -, -, hs₁, -⟩ := submitDataset_spec hsubmit
  rcases distributeDataset_spec hdist with ⟨-, rfl, -⟩ | ⟨data, -, -, hs₂, -⟩
  · rw [hs₁]
    exact ⟨rfl, rfl, rfl⟩
  · rw [hs₂, hs₁]
    exact ⟨rfl, rfl, rfl⟩

/-! ## The next period and the rest -/

/-- What a successful `nextperiod` did: the submissions of the period are gone. -/
theorem nextperiod_spec {ctx : Context} {s s' : ResourceState F H}
    (h : s.nextperiod ctx = .ok s') :
    ∃ sources, s' = { s with
      datasets := ∅
      sources := sources
      usage := ∅
      config := some { s.getConfig with
        submittingOracles := []
        periodStart := s.getConfig.periodStart + s.getConfig.periodSeconds
        inflationTransferred := false
        accountDistributionsMade := [] } } := by
  simp only [nextperiod, bind_eq_ok, check_eq_ok, pure_eq_ok] at h
  obtain ⟨_, -, _, -, mode, -, sym, -, ⟨sources, full⟩, -, _, -, rfl⟩ := h
  exact ⟨sources, rfl⟩

omit [Checksum H] in
/-- What a successful `initresource` did. -/
theorem initresource_spec {ctx : Context} {s s' : ResourceState F H} {batch threshold : UInt16}
    {start : TimePointSec} {seconds : UInt32} {rate maxPay : F}
    (h : s.initresource ctx batch threshold start seconds rate maxPay = .ok s') :
    ∃ cfg : ResourceConfig F, cfg.oracleConsensusThreshold = threshold ∧
      ((s.history.rows = [] ∧ cfg.submittingOracles = [] ∧ cfg.inflationTransferred = false ∧
        cfg.accountDistributionsMade = [] ∧
        s' = { s with history := s.history.set 0 (firstHistory start), config := some cfg }) ∨
      (s.history.rows ≠ [] ∧ cfg.submittingOracles = s.getConfig.submittingOracles ∧
        cfg.inflationTransferred = s.getConfig.inflationTransferred ∧
        cfg.accountDistributionsMade = s.getConfig.accountDistributionsMade ∧
        s' = { s with config := some cfg })) := by
  simp only [initresource, bind_eq_ok] at h
  obtain ⟨_, -, h⟩ := h
  split at h
  · rename_i hempty
    rw [List.isEmpty_iff] at hempty
    simp only [bind_eq_ok, pure_eq_ok] at h
    obtain ⟨pk, hpk, rfl⟩ := h
    -- the key of the first row is zero
    have hzero : pk = 0 := by
      simp only [Table.availablePrimaryKey, Table.last?_eq_none.mpr hempty] at hpk
      split at hpk
      · cases hpk
        rfl
      · cases hpk
    subst hzero
    -- the first configuration resets the whole period
    let cfg : ResourceConfig F := { s.getConfig with
      datasetBatchSize := batch
      oracleConsensusThreshold := threshold
      periodStart := start
      periodSeconds := seconds
      initialValueTransferRate := rate
      maxPayConstant := maxPay
      lastPeriodInflationPrint := 0
      active := false
      submittingOracles := []
      inflationTransferred := false
      accountDistributionsMade := [] }
    exact ⟨cfg, rfl, .inl ⟨hempty, rfl, rfl, rfl, rfl⟩⟩
  · rename_i hempty
    rw [List.isEmpty_iff] at hempty
    simp only [pure_eq_ok] at h
    subst h
    -- a later one leaves the reports
    let cfg : ResourceConfig F := { s.getConfig with
      datasetBatchSize := batch
      oracleConsensusThreshold := threshold
      periodStart := start
      periodSeconds := seconds
      initialValueTransferRate := rate
      maxPayConstant := maxPay
      lastPeriodInflationPrint := 0
      active := false }
    exact ⟨cfg, rfl, .inr ⟨hempty, rfl, rfl, rfl, rfl⟩⟩

omit [Checksum H] in
theorem resactivate_spec {ctx : Context} {s s' : ResourceState F H} {active : Bool}
    (h : s.resactivate ctx active = .ok s') :
    s' = { s with config := some { s.getConfig with active := active } } := by
  simp only [resactivate, bind_eq_ok, pure_eq_ok] at h
  obtain ⟨_, -, _, -, rfl⟩ := h
  rfl

omit [Checksum H] [Double F] in
/-- A claim pays the row of the account and erases it. -/
theorem claimdistrib_spec {ctx : Context} {s s' : ResourceState F H} {account : Name}
    {sends : List InlineAction} (h : s.claimdistrib ctx account = .ok (s', sends)) :
    ∃ pay, s.accpay.find? account = some pay ∧
      s' = { s with accpay := s.accpay.erase account } ∧
      sends = [⟨[upayAccount, account],
        .transfer upayAccount account pay.balance "utility reward"⟩] := by
  simp only [claimdistrib, bind_eq_ok, check_eq_ok, getRow_eq_ok, pure_eq_ok, Prod.mk.injEq] at h
  obtain ⟨_, -, pay, hpay, sym, -, zero, -, v, -, _, -, rfl, rfl⟩ := h
  exact ⟨pay, hpay, rfl, rfl⟩

omit [Checksum H] [Double F] in
/-- A claim of a producer pays its balance and leaves the row at zero. -/
theorem claimrewards_spec {ctx : Context} {s s' : ResourceState F H} {owner : Name}
    {sends : List InlineAction} (h : s.claimrewards ctx owner = .ok (s', sends)) :
    ∃ pay balance time, s.prodpay.find? owner = some pay ∧ 0 < pay.balance.amount.toInt ∧
      pay.balance.sub pay.balance = .ok balance ∧
      s' = { s with prodpay := s.prodpay.set owner ⟨balance, time⟩ } ∧
      sends = [⟨[bpayAccount, owner],
        .transfer bpayAccount owner pay.balance "producer reward"⟩] := by
  simp only [claimrewards, bind_eq_ok, check_eq_ok, getRow_eq_ok, pure_eq_ok, Prod.mk.injEq] at h
  obtain ⟨_, -, pay, hpay, _, hpos, balance, hsub, rfl, rfl⟩ := h
  have hpos := Int64.lt_iff_toInt_lt.mp hpos
  rw [Int64.toInt_zero] at hpos
  exact ⟨pay, balance, ctx.now.secSinceEpoch, hpay, hpos, hsub, rfl, rfl⟩

/-! ## The tables of the other contracts -/

omit [Checksum H] [Double F] in
/-- The inline actions ran on the token tables of the action. -/
theorem commit_eq_ok {ctx : Context} {r : Except String (ResourceState F H × List InlineAction)}
    {s' : ResourceState F H} :
    commit ctx r = .ok s' ↔ ∃ s sends token, r = .ok (s, sends) ∧
      SystemState.runInline ctx s.sys.token sends = .ok token ∧
      s' = { s with sys := { s.sys with token := token } } := by
  simp only [commit, bind_eq_ok, pure_eq_ok]
  constructor
  · rintro ⟨⟨s, sends⟩, hr, token, ht, he⟩
    exact ⟨s, sends, token, hr, ht, he.symm⟩
  · rintro ⟨s, sends, token, hr, ht, he⟩
    exact ⟨(s, sends), hr, token, ht, he.symm⟩

/-- An action of the resource model changes the tables of the other contracts by inline
    actions only; the other actions change nothing else. -/
theorem step_sys {s s' : ResourceState F H} {call : ResourceCall F H} (hI : s.sys.token.Inv)
    (h : s.step call = .ok s') :
    (∃ sends, SystemState.runInline call.ctx s.sys.token sends = .ok s'.sys.token ∧
      s'.sys = { s.sys with token := s'.sys.token }) ∨
    (∃ action, call.action = .system action ∧ s.sys.step ⟨call.ctx, action⟩ = .ok s'.sys ∧
      s' = { s with sys := s'.sys }) := by
  obtain ⟨ctx, action⟩ := call
  -- what sends nothing leaves the system contract
  have hnone : ∀ {u : ResourceState F H}, u.sys = s.sys →
      ∃ sends, SystemState.runInline ctx s.sys.token sends = .ok u.sys.token ∧
        u.sys = { s.sys with token := u.sys.token } := fun hu =>
    ⟨[], SystemState.runInline_nil.mpr (congrArg SystemState.token hu.symm), by rw [hu]⟩
  cases action with
  | initresource batch threshold start seconds rate maxPay =>
    obtain ⟨cfg, -, ⟨-, -, -, -, rfl⟩ | ⟨-, -, -, -, rfl⟩⟩ := initresource_spec h
    · exact .inl (hnone rfl)
    · exact .inl (hnone rfl)
  | resactivate active =>
    have heq := resactivate_spec h
    exact .inl (hnone (by rw [heq]))
  | settotalusg source cpu net hash start =>
    obtain ⟨u, sends, token, hr, ht, rfl⟩ := commit_eq_ok.mp h
    obtain ⟨hu, -, -⟩ := settotalusg_issuance hI hr
    rw [hu] at ht
    -- the totals send the inflation
    exact .inl ⟨sends, ht, by rw [hu]⟩
  | addactusg source datasetId dataset start => exact .inl (hnone (addactusg_frame h).1)
  | nextperiod =>
    obtain ⟨sources, rfl⟩ := nextperiod_spec h
    exact .inl (hnone rfl)
  | claimdistrib account =>
    obtain ⟨u, sends, token, hr, ht, rfl⟩ := commit_eq_ok.mp h
    obtain ⟨pay, -, rfl, -⟩ := claimdistrib_spec hr
    -- a payout sends one transfer
    exact .inl ⟨sends, ht, rfl⟩
  | claimrewards owner =>
    obtain ⟨u, sends, token, hr, ht, rfl⟩ := commit_eq_ok.mp h
    obtain ⟨pay, balance, time, -, -, -, rfl, -⟩ := claimrewards_spec hr
    exact .inl ⟨sends, ht, rfl⟩
  | system action =>
    simp only [step, bind_eq_ok, pure_eq_ok] at h
    obtain ⟨sys, hsys, rfl⟩ := h
    -- an action of the system contract is its own step
    exact .inr ⟨action, rfl, hsys, rfl⟩

/-- The invariant of the core token is kept by every call. -/
theorem step_coreToken {s s' : ResourceState F H} {call : ResourceCall F H}
    (hI : s.sys.CoreToken) (h : s.step call = .ok s') : s'.sys.CoreToken := by
  cases step_sys hI.token h with
  | inl hinline =>
    obtain ⟨sends, hrun, hsys⟩ := hinline
    obtain ⟨htoken, hkeep⟩ := SystemState.runInline_inv hI.token hrun
    rw [hsys]
    refine ⟨hI.stake.of_token _, htoken, fun hsome => ?_⟩
    obtain ⟨st, hst, hsym⟩ := hI.core hsome
    obtain ⟨st', hst', hsame, -⟩ := hkeep _ st hst
    exact ⟨st', hst', hsame.trans hsym⟩
  | inr hsystem =>
    obtain ⟨action, -, hsys, -⟩ := hsystem
    exact SystemState.step_coreToken hI hsys

/-- A market stays, with its core symbol. -/
theorem step_sameMarket {s s' : ResourceState F H} {call : ResourceCall F H}
    (hI : s.sys.CoreToken) (hm : s.sys.rammarket.isSome) (h : s.step call = .ok s') :
    SystemState.SameMarket s.sys s'.sys := by
  cases step_sys hI.token h with
  | inl hinline =>
    obtain ⟨sends, -, hsys⟩ := hinline
    rw [hsys]
    exact .of_eq rfl
  | inr hsystem =>
    obtain ⟨action, -, hsys, -⟩ := hsystem
    exact SystemState.step_sameMarket hI.stake hm hsys

/-- A core symbol stays, once the contract is initialised. -/
theorem step_coreSym {s s' : ResourceState F H} {call : ResourceCall F H} (hI : s.sys.CoreToken)
    (h : s.step call = .ok s') : s.sys.rammarket = none ∨
      (s'.sys.coreSym = s.sys.coreSym ∧ s'.sys.rammarket ≠ none) := by
  cases hm : s.sys.rammarket with
  | none => exact .inl rfl
  | some m =>
    have hsome : s.sys.rammarket.isSome := by
      rw [hm]
      rfl
    have hsame := step_sameMarket hI hsome h
    refine .inr ⟨hsame.coreSym, fun hnone => ?_⟩
    have hisSome := hsame.isSome
    rw [hnone, hm] at hisSome
    cases hisSome

end ResourceState

end UxContracts
