import UxContracts.Spec.TotalsConsensus

/-!
# Consensus on data sets

Votes are counted on the hashes of texts, and the data that is paid out is looked up by
the hash in a table whose first writer wins. The text of a data set does not determine it
(`a` with 12 and `a1` with 2 are both written `a12`), so the data that is paid out may be
other data than the oracles have agreed on (`colliding_data_credited`). It is theirs in
every run in which no data set is submitted while another one is stored under its hash
(`distributed_data_authentic`).
-/

namespace UxContracts

/-- Every data set that has been distributed was submitted, under its number, by as many
    oracles as the threshold asks for. -/
def PeriodRecord.Authentic (r : PeriodRecord) : Prop :=
  ∀ c ∈ r.credited, c.threshold.toNat ≤ (r.passers c.datasetId c.data).card

instance (r : PeriodRecord) : Decidable r.Authentic :=
  inferInstanceAs (Decidable (∀ c ∈ r.credited, _ ≤ _))

namespace ResourceState

variable {F H : Type} [Checksum H] [Double F]

/-- An accepted data set is the one that is stored under the hash of its text, if there is
    one. -/
def NoCollision (s : ResourceState F H) (call : ResourceCall F H) : Prop :=
  match call.action, s.step call with
  | .addactusg _ _ dataset _, .ok _ =>
    (s.findDataset (Checksum.sha256 (datasetText dataset))).all fun d => d.data = dataset
  | _, _ => True

instance (s : ResourceState F H) (call : ResourceCall F H) : Decidable (NoCollision s call) := by
  unfold NoCollision
  split <;> infer_instance

/-- The data sets of the period are stored, and those that have been distributed were
    agreed on. -/
structure DataInv (s : ResourceState F H) (r : PeriodRecord) : Prop where
  core : s.sys.CoreToken
  submissions : SubmissionInv s r
  stored : ∀ o datasetId data, (o, datasetId, data) ∈ r.datasets →
    ∃ d, s.findDataset (Checksum.sha256 (datasetText data)) = some d ∧ d.data = data
  authentic : r.Authentic

theorem genesis_dataInv (maxBlockNetUsage : UInt64) (maxBlockCpuUsage : UInt32) :
    DataInv (genesis maxBlockNetUsage maxBlockCpuUsage : ResourceState F H) .empty where
  core := SystemState.genesis_coreToken _ _
  submissions := .genesis _ _
  stored := fun _ _ _ h => nomatch h
  authentic := fun _ h => nomatch h

/-- The data set that is due was submitted by the oracles that have voted for its hash. -/
theorem due_authentic {s s₁ : ResourceState F H} {r : PeriodRecord} {cfg : ResourceConfig F}
    {datasetId : UInt16} {data : List Metric} (hsub : SubmissionInv s r) (hpos : 0 < datasetId.toNat)
    (hstored : ∀ o datasetId data, (o, datasetId, data) ∈ r.datasets →
      ∃ d, s.findDataset (Checksum.sha256 (datasetText data)) = some d ∧ d.data = data)
    (husage : s.usage = s₁.usage) (hdatasets : s.datasets = s₁.datasets)
    (horacles : s.getConfig.submittingOracles = cfg.submittingOracles)
    (h : s₁.dueDataset cfg datasetId = .ok (some data)) :
    cfg.oracleConsensusThreshold.toNat ≤ (r.passers datasetId data).card := by
  obtain ⟨-, modal, modeCount, htally, hreached, hdata⟩ := dueDataset_spec h
  rcases Nat.eq_zero_or_pos cfg.oracleConsensusThreshold.toNat with hzero | h0
  · rw [hzero]
    exact Nat.zero_le _
  rw [← modalHash_congr husage, ← horacles] at htally
  have hvotes := le_votes_of_mode h0 htally hreached
  refine hvotes.trans (count_picked_le hsub.oracles_nodup fun o ho hmodal => ?_)
  -- each voter has submitted data with this hash, and that is what is stored
  obtain ⟨u, hu, hget⟩ := Option.bind_eq_some_iff.mp hmodal
  obtain ⟨datasetId', data', hmem, hid, hhash⟩ := hsub.later o u _ modal hu hpos hget
  obtain ⟨d, hd, hsame⟩ := hstored o datasetId' data' hmem
  have hdata' : data = data' := by
    rw [hdata, storedData, ← findDataset_congr hdatasets, hhash, hd]
    exact hsame
  rw [mem_passers, hdata', ← UInt16.toNat_inj.mp hid]
  exact hmem

/-- A call keeps the invariant of the data sets, unless data sets collide. -/
theorem step_dataInv {s s' : ResourceState F H} {r : PeriodRecord} {call : ResourceCall F H}
    (hI : DataInv s r) (hno : NoCollision s call) (h : s.step call = .ok s') :
    DataInv s' (recordPeriod r s call s') := by
  have hcore := step_coreToken hI.core h
  have hchange := step_period hI.core.token h
  have hsub := hI.submissions.step hchange
  cases hchange with
  -- calls that pass no data leave the record as it is
  | kept hquiet husage hdatasets hhist hsame hthreshold hunset haccpay =>
    rw [recordPeriod_of_quiet hquiet] at hsub ⊢
    refine ⟨hcore, hsub, fun o datasetId data hmem => ?_, hI.authentic⟩
    rw [findDataset_congr hdatasets]
    exact hI.stored o datasetId data hmem
  | first hquiet start hempty hhist husage hdatasets horacles htransferred hmade hthreshold =>
    -- the first configuration stores no text
    rw [recordPeriod_of_quiet hquiet] at hsub ⊢
    refine ⟨hcore, hsub, fun o datasetId data hmem => ?_, hI.authentic⟩
    rw [findDataset_congr hdatasets]
    exact hI.stored o datasetId data hmem
  | totals source cpu net hash start haction hfresh husage hrec horacles hthreshold hmade haccpay
      hout =>
    -- totals are stored beside the data sets
    rw [recordPeriod_totals haction] at hsub ⊢
    refine ⟨hcore, hsub, fun o datasetId data hmem => ?_, hI.authentic⟩
    obtain ⟨d, hd, hsame⟩ := hI.stored o datasetId data hmem
    exact ⟨d, hrec.keeps hd, hsame⟩
  | dataset source datasetId data start haction htransferred s₁ hsubmit husage hdatasets hhist hsys
      horacles hstill hthreshold hout =>
    obtain ⟨u₀, allocated, hrow, hid, halloc, husage', hrec⟩ :=
      submitDataset_tables hsubmit husage hdatasets
    have hr : recordPeriod r s call s' = _ := recordPeriod_dataset haction
    -- every data set that has been passed is stored with its own text
    have hstored : ∀ o datasetId' data',
        (o, datasetId', data') ∈ (recordPeriod r s call s').datasets →
        ∃ d, s'.findDataset (Checksum.sha256 (datasetText data')) = some d ∧ d.data = data' := by
      intro o datasetId' data' hmem
      rw [hr] at hmem
      cases List.mem_append.mp hmem with
      | inl hold =>
        obtain ⟨d, hd, hsame⟩ := hI.stored o datasetId' data' hold
        exact ⟨d, hrec.keeps hd, hsame⟩
      | inr hnew =>
        simp only [List.mem_singleton, Prod.mk.injEq] at hnew
        rw [hnew.2.2]
        -- the data set is the one that was stored before, or it is stored now
        unfold NoCollision at hno
        rw [haction, h] at hno
        obtain ⟨d, hd⟩ := Option.isSome_iff_exists.mp hrec.isSome_self
        refine ⟨d, hd, ?_⟩
        rcases hrec.found hd with hold | ⟨-, -, rfl⟩
        · simp only [hold, Option.all_some, decide_eq_true_eq] at hno
          exact hno
        · rfl
    refine ⟨hcore, hsub, hstored, fun c hc => ?_⟩
    -- what is credited was credited before, or is due by this call
    have hc' : c ∈ r.credited ++ (s.dueCredit call).toList := by
      rw [hr] at hc
      exact hc
    rcases List.mem_append.mp hc' with hold | hnew
    · -- whoever passed it before is still on the record
      refine (hI.authentic c hold).trans (Finset.card_le_card fun o ho => ?_)
      rw [mem_passers] at ho ⊢
      rw [hr]
      exact List.mem_append_left _ ho
    · rcases hout with ⟨-, hnone, -, -⟩ | ⟨data', hdue, hsome, -, -⟩
      · rw [hnone] at hnew
        cases hnew
      · rw [hsome, Option.toList_some, List.mem_singleton] at hnew
        rw [hnew]
        -- data sets are numbered from one
        have hpos : 0 < datasetId.toNat := by
          rw [hid]
          exact hI.submissions.hashes_pos hrow
        exact due_authentic hsub hpos hstored husage hdatasets horacles hdue
  | next haction husage hdatasets hhist horacles htransferred hmade hthreshold =>
    -- a new period forgets the texts and the record of them
    rw [recordPeriod_next haction] at hsub ⊢
    exact ⟨hcore, hsub, (fun o datasetId data hmem => nomatch hmem), fun c hc => nomatch hc⟩

/-! ## Runs -/

/-- A data set that changes what accounts can claim credits its accounts with the last
    data set of the record. -/
theorem addactusg_credits {s s' : ResourceState F H} {ctx : Context} {source : Name}
    {datasetId : UInt16} {dataset : List Metric} {start : TimePointSec} (r : PeriodRecord)
    (h : s.step ⟨ctx, .addactusg source datasetId dataset start⟩ = .ok s') :
    s'.accpay = s.accpay ∨ ∃ c,
      (recordPeriod r s ⟨ctx, .addactusg source datasetId dataset start⟩ s').credited =
        r.credited ++ [c] ∧ c.datasetId = datasetId ∧ Credits s s' start c.data := by
  cases addactusg_period h with
  | kept hquiet => cases hquiet
  | first hquiet => cases hquiet
  | totals source' cpu net hash start' haction => cases haction
  | next haction => cases haction
  | dataset source' datasetId' dataset' start' haction htransferred s₁ hsubmit husage hdatasets
      hhist hsys horacles hstill hthreshold hout =>
    cases haction
    rcases hout with ⟨-, -, haccpay, -⟩ | ⟨data, hdue, hsome, hcredits, -⟩
    · exact .inl haccpay
    · refine .inr ⟨⟨datasetId, data, s.getConfig.oracleConsensusThreshold⟩, ?_, rfl, hcredits⟩
      show r.credited ++ (dueCredit s _).toList = _
      rw [hsome]
      rfl

/-- In every run without a collision, the data sets that have been submitted are stored. -/
theorem exec_dataInv (maxBlockNetUsage : UInt64) (maxBlockCpuUsage : UInt32)
    {calls : List (ResourceCall F H)}
    (hno : Run.Meets step NoCollision (genesis maxBlockNetUsage maxBlockCpuUsage) calls) :
    let p := Run.exec (Run.observed step recordPeriod)
      (genesis maxBlockNetUsage maxBlockCpuUsage, .empty) calls
    DataInv p.1 p.2 := by
  have hstep : ∀ (p : ResourceState F H × PeriodRecord) call q, DataInv p.1 p.2 →
      NoCollision p.1 call → Run.observed step recordPeriod p call = .ok q →
      DataInv q.1 q.2 := by
    intro p call q hI hno h
    obtain ⟨hstep, hrec⟩ := Run.observed_eq_ok h
    rw [hrec]
    exact step_dataInv hI hno hstep
  exact Run.exec_of_meets hstep (genesis_dataInv _ _) (Run.meets_observed recordPeriod _ hno)

/-- In every run without collisions, what is credited for a data set is what as many oracles
    as the threshold asks for have submitted under its number in the period. -/
theorem distributed_data_authentic (maxBlockNetUsage : UInt64) (maxBlockCpuUsage : UInt32)
    {calls : List (ResourceCall F H)}
    (hno : Run.Meets step NoCollision (genesis maxBlockNetUsage maxBlockCpuUsage) calls) :
    let p := Run.exec (Run.observed step recordPeriod)
      (genesis maxBlockNetUsage maxBlockCpuUsage, .empty) calls
    p.2.Authentic ∧
    ∀ ctx source datasetId dataset start s',
      p.1.step ⟨ctx, .addactusg source datasetId dataset start⟩ = .ok s' →
      s'.accpay = p.1.accpay ∨ ∃ c,
        (recordPeriod p.2 p.1 ⟨ctx, .addactusg source datasetId dataset start⟩ s').credited =
          p.2.credited ++ [c] ∧ c.datasetId = datasetId ∧ Credits p.1 s' start c.data := by
  intro p
  have hI : DataInv p.1 p.2 := exec_dataInv maxBlockNetUsage maxBlockCpuUsage hno
  exact ⟨hI.authentic, fun ctx source datasetId dataset start s' h => addactusg_credits p.2 h⟩

namespace Sample

open SystemState.Sample

/-- Three oracles have agreed on totals, and two of them have to agree on data sets. -/
def reported : List (ResourceCall Rat (List Char)) :=
  setup 2 ++ [totals alice 1000000 2000, totals bob 1000000 2000, totals carol 1000000 2000]

/-- Two oracles agree on a data set. -/
def matching : List (ResourceCall Rat (List Char)) :=
  reported ++ [dataset carol 1 [⟨bob, 600000⟩], dataset alice 1 [⟨bob, 600000⟩]]

/-- Carol submits other data than alice and bob, with the same text. -/
def colliding : List (ResourceCall Rat (List Char)) :=
  reported ++ [dataset carol 1 [⟨Name.ofString "a1", 2⟩], dataset alice 1 [⟨Name.ofString "a", 12⟩],
    dataset bob 1 [⟨Name.ofString "a", 12⟩]]

end Sample

open Sample in
/-- The data set of the sample is the one of the two oracles. -/
theorem distributed_data_authentic_sample :
    let p := Run.exec (Run.observed step recordPeriod) (start, .empty) matching
    p.2.Authentic ∧ p.2.credited.map Credit.data = [[⟨SystemState.Sample.bob, 600000⟩]] := by
  have hno : Run.Meets step NoCollision start matching := by decide +kernel
  have hsample := distributed_data_authentic 1048576 200000 hno
  have hcredited : (Run.exec (Run.observed step recordPeriod) (start, .empty) matching).2.credited.map
      Credit.data = [[⟨SystemState.Sample.bob, 600000⟩]] := by
    decide +kernel
  unfold Sample.start at hcredited ⊢
  exact ⟨hsample.1, hcredited⟩

open Sample in
/-- The data of carol is paid out with the votes for the data of the others. -/
theorem colliding_data_credited :
    let p := Run.exec (Run.observed step recordPeriod) (start, .empty) colliding
    ¬ p.2.Authentic ∧ p.2.credited.map Credit.data = [[⟨Name.ofString "a1", 2⟩]] := by
  decide +kernel

end ResourceState

end UxContracts
