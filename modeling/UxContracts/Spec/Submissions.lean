import UxContracts.Spec.PeriodChange
import Mathlib.Data.List.Basic
import Mathlib.Data.List.Dedup

/-!
# The submissions of a period

The usage table has one row for each oracle that has submitted its totals in the period,
with the hash of each of its submissions. `SubmissionInv` relates the rows to the record
of the period, so that a tally of hashes counts oracles (`count_picked_le`,
`le_count_picked`), and `sha256` keeps the texts of totals and of data sets apart.
-/

namespace UxContracts

namespace ResourceState

/-! ## Texts -/

/-- A number is determined by its decimal digits. -/
theorem decimal_injective : Function.Injective decimal := by
  intro n m h
  have hn : Nat.ofDigitChars 10 (decimal n) 0 = n.toNat := Nat.ofDigitChars_ten_toDigits
  have hm : Nat.ofDigitChars 10 (decimal m) 0 = m.toNat := Nat.ofDigitChars_ten_toDigits
  rw [h, hm] at hn
  exact UInt64.toNat_inj.mp hn.symm

/-- There is no dash in a number. -/
theorem dash_notMem_decimal (n : UInt64) : '-' ∉ decimal n := by
  intro h
  have hdigit := Nat.isDigit_of_mem_toDigits (by decide) (by decide) h
  exact absurd hdigit (by decide)

/-- There is no dash in a name. -/
theorem dash_notMem_toText (n : Name) : '-' ∉ n.toText := by
  intro h
  have hmem := Name.mem_charmap_of_mem_toText h
  exact absurd hmem (by decide)

/-- A data set is written without dashes. -/
theorem dash_notMem_datasetText (dataset : List Metric) : '-' ∉ datasetText dataset := by
  intro h
  obtain ⟨m, -, hm⟩ := List.mem_flatMap.mp h
  cases List.mem_append.mp hm with
  | inl hname => exact dash_notMem_toText m.a hname
  | inr hnumber => exact dash_notMem_decimal m.u hnumber

/-- The dash separates the totals. -/
theorem totalsText_inj {cpu net cpu' net' : UInt64}
    (h : totalsText cpu net = totalsText cpu' net') : (cpu, net) = (cpu', net') := by
  obtain ⟨hcpu, -, hnet⟩ := (List.append_cons_inj_of_notMem (dash_notMem_decimal cpu)
    (dash_notMem_decimal net)).mp h
  rw [decimal_injective hcpu, decimal_injective hnet]

/-- The text of a data set is not that of totals, which has a dash. -/
theorem totalsText_ne_datasetText (cpu net : UInt64) (dataset : List Metric) :
    totalsText cpu net ≠ datasetText dataset := by
  intro h
  apply dash_notMem_datasetText dataset
  rw [← h]
  exact List.mem_append_right _ List.mem_cons_self

/-! ## Tallies count oracles -/

variable {F H : Type} [Checksum H]

/-- The hashes that are counted. -/
def picked (s : ResourceState F H) (pick : SystemUsage H → Option H) (oracles : List Name) :
    List H :=
  oracles.filterMap fun o => (s.usage.find? o).bind pick

omit [Checksum H] in
/-- The hashes are picked if there is a row for each of the oracles. -/
theorem pickHashes_eq_ok {s : ResourceState F H} {pick : SystemUsage H → Option H}
    {oracles : List Name} {hashes : List H} : s.pickHashes pick oracles = .ok hashes ↔
      (∀ o ∈ oracles, (s.usage.find? o).isSome) ∧ s.picked pick oracles = hashes := by
  induction oracles generalizing hashes with
  | nil => simp [pickHashes, picked]
  | cons o os ih =>
    simp only [pickHashes, bind_eq_ok, getRow_eq_ok, pure_eq_ok, ih, List.forall_mem_cons]
    have hcons : ∀ u, s.usage.find? o = some u →
        s.picked pick (o :: os) = (pick u).toList ++ s.picked pick os := by
      intro u hu
      unfold picked
      rw [List.filterMap_cons, hu, Option.bind_some]
      cases pick u <;> rfl
    constructor
    · rintro ⟨u, hu, rest, ⟨hall, hrest⟩, he⟩
      refine ⟨⟨by rw [hu]; rfl, hall⟩, ?_⟩
      rw [hcons u hu, hrest]
      exact he
    · rintro ⟨⟨hsome, hall⟩, he⟩
      obtain ⟨u, hu⟩ := Option.isSome_iff_exists.mp hsome
      rw [hcons u hu] at he
      exact ⟨u, hu, _, ⟨hall, rfl⟩, he⟩

/-- The modal hash is counted when every oracle has a row. -/
theorem modalHash_eq_ok {s : ResourceState F H} {pick : SystemUsage H → Option H}
    {oracles : List Name} {mode : H × UInt8} : s.modalHash pick oracles = .ok mode ↔
      (∀ o ∈ oracles, (s.usage.find? o).isSome) ∧
        Tally.mode (Tally.count (s.picked pick oracles)) Checksum.zero = mode := by
  simp only [modalHash, bind_eq_ok, pickHashes_eq_ok, pure_eq_ok]
  constructor
  · rintro ⟨hashes, ⟨hall, hpicked⟩, he⟩
    exact ⟨hall, hpicked ▸ he⟩
  · rintro ⟨hall, he⟩
    exact ⟨_, ⟨hall, rfl⟩, he⟩

/-- A tally that reaches a threshold has found as many votes for the modal hash. -/
theorem le_count_of_modalHash {s : ResourceState F H} {pick : SystemUsage H → Option H}
    {oracles : List Name} {t : Nat} {modal : H} {modeCount : UInt8} (h0 : 0 < t)
    (h : s.modalHash pick oracles = .ok (modal, modeCount)) (hle : t ≤ modeCount.toNat) :
    t ≤ (s.picked pick oracles).count modal := by
  obtain ⟨-, hmode⟩ := modalHash_eq_ok.mp h
  have hle : t ≤ (Tally.mode (Tally.count (s.picked pick oracles)) Checksum.zero).2.toNat := by
    rw [hmode]
    exact hle
  have hcount := Tally.le_count_of_mode h0 hle
  rw [hmode] at hcount
  exact hcount

/-- A hash with enough votes is found by the tally of less than 256 oracles. -/
theorem modalHash_of_le_count {s : ResourceState F H} {pick : SystemUsage H → Option H}
    {oracles : List Name} {t : Nat} {hash : H} (h0 : 0 < t)
    (hrows : ∀ o ∈ oracles, (s.usage.find? o).isSome) (hfew : oracles.length < 256)
    (h : t ≤ (s.picked pick oracles).count hash) :
    ∃ modal modeCount, s.modalHash pick oracles = .ok (modal, modeCount) ∧
      t ≤ modeCount.toNat := by
  refine ⟨_, _, modalHash_eq_ok.mpr ⟨hrows, rfl⟩, ?_⟩
  have hlen : (s.picked pick oracles).length < 256 :=
    lt_of_le_of_lt (List.length_filterMap_le _ _) hfew
  exact (Tally.mode_ge_iff hlen Checksum.zero h0).mpr ⟨hash, h⟩

/-- The oracles with one hash, as a list. -/
theorem count_picked (s : ResourceState F H) (pick : SystemUsage H → Option H)
    (oracles : List Name) (hash : H) : (s.picked pick oracles).count hash =
      (oracles.filter fun o => (s.usage.find? o).bind pick = some hash).length := by
  unfold picked
  rw [List.count_filterMap, List.countP_eq_length_filter]
  congr 2
  funext o
  exact beq_eq_decide _ _

/-- A hash has at most as many votes as there are oracles in a set that has all its voters. -/
theorem count_picked_le {s : ResourceState F H} {pick : SystemUsage H → Option H}
    {oracles : List Name} {hash : H} {voters : Finset Name} (hnodup : oracles.Nodup)
    (h : ∀ o ∈ oracles, (s.usage.find? o).bind pick = some hash → o ∈ voters) :
    (s.picked pick oracles).count hash ≤ voters.card := by
  rw [count_picked, ← List.toFinset_card_of_nodup (hnodup.filter _)]
  apply Finset.card_le_card
  intro o ho
  rw [List.mem_toFinset, List.mem_filter, decide_eq_true_eq] at ho
  exact h o ho.1 ho.2

/-- A hash has at least as many votes as there are oracles in a set of voters. -/
theorem le_count_picked {s : ResourceState F H} {pick : SystemUsage H → Option H}
    {oracles : List Name} {hash : H} {voters : Finset Name}
    (h : ∀ o ∈ voters, o ∈ oracles ∧ (s.usage.find? o).bind pick = some hash) :
    voters.card ≤ (s.picked pick oracles).count hash := by
  rw [count_picked]
  refine le_trans (Finset.card_le_card fun o ho => ?_) (List.toFinset_card_le _)
  rw [List.mem_toFinset, List.mem_filter, decide_eq_true_eq]
  exact h o ho

/-- A hash with a vote has a voter. -/
theorem exists_voter {s : ResourceState F H} {pick : SystemUsage H → Option H}
    {oracles : List Name} {hash : H} (h : 0 < (s.picked pick oracles).count hash) :
    ∃ o ∈ oracles, (s.usage.find? o).bind pick = some hash := by
  exact List.mem_filterMap.mp (List.count_pos_iff.mp h)

/-! ## The record of the submissions -/

/-- Who has submitted what. -/
@[simp] theorem mem_supporters {r : PeriodRecord} {totals : UInt64 × UInt64} {o : Name} :
    o ∈ r.supporters totals ↔ (o, totals) ∈ r.totals := by
  simp [PeriodRecord.supporters]

@[simp] theorem mem_passers {r : PeriodRecord} {datasetId : UInt16} {data : List Metric}
    {o : Name} : o ∈ r.passers datasetId data ↔ (o, datasetId, data) ∈ r.datasets := by
  simp [PeriodRecord.passers]

variable [Double F]

/-- The hash of the text of totals. -/
def totalsHash (totals : UInt64 × UInt64) : H := Checksum.sha256 (totalsText totals.1 totals.2)

/-- The usage table has the submissions of the period. -/
structure SubmissionInv (s : ResourceState F H) (r : PeriodRecord) : Prop where
  oracles : s.getConfig.submittingOracles = r.totals.map Prod.fst
  nodup : (r.totals.map Prod.fst).Nodup
  /-- a row is one of an oracle that has submitted its totals -/
  known : ∀ o u, s.usage.find? o = some u → o ∈ r.totals.map Prod.fst
  /-- the first hash of an oracle is the one of its totals -/
  first : ∀ o totals, (o, totals) ∈ r.totals →
    (s.usage.find? o).bind (fun u => u.submissionHashList[0]?) = some (totalsHash totals)
  /-- the other hashes of an oracle are those of its data sets -/
  later : ∀ o u d hash, s.usage.find? o = some u → 0 < d → u.submissionHashList[d]? = some hash →
    ∃ datasetId data, (o, datasetId, data) ∈ r.datasets ∧ datasetId.toNat = d ∧
      hash = Checksum.sha256 (datasetText data)
  /-- nothing can be submitted before the first configuration -/
  unset : s.history = ∅ → s.getConfig.oracleConsensusThreshold = 0 ∧
    s.getConfig.inflationTransferred = false ∧ s.usage = ∅ ∧ r = .empty

namespace SubmissionInv

variable {s s' : ResourceState F H} {r : PeriodRecord} {call : ResourceCall F H}

/-- There is a row for each of the oracles. -/
theorem row (hI : SubmissionInv s r) {o : Name} (ho : o ∈ s.getConfig.submittingOracles) :
    (s.usage.find? o).isSome := by
  rw [hI.oracles] at ho
  obtain ⟨⟨o', totals⟩, hmem, rfl⟩ := List.mem_map.mp ho
  have hfirst := hI.first o' totals hmem
  cases hrow : s.usage.find? o' with
  | none =>
    rw [hrow] at hfirst
    cases hfirst
  | some u => rfl

/-- No oracle is there twice. -/
theorem oracles_nodup (hI : SubmissionInv s r) : s.getConfig.submittingOracles.Nodup := by
  rw [hI.oracles]
  exact hI.nodup

/-- Nothing has been submitted when a period begins. -/
theorem of_empty (husage : s.usage = ∅) (horacles : s.getConfig.submittingOracles = [])
    (hunset : s.history = ∅ → s.getConfig.oracleConsensusThreshold = 0 ∧
      s.getConfig.inflationTransferred = false) : SubmissionInv s .empty where
  oracles := horacles
  nodup := List.nodup_nil
  known := fun o u hu => by
    rw [husage, Table.find?_empty] at hu
    cases hu
  first := fun o totals h => absurd h List.not_mem_nil
  later := fun o u d hash hu => by
    rw [husage, Table.find?_empty] at hu
    cases hu
  unset := fun hempty => ⟨(hunset hempty).1, (hunset hempty).2, husage, rfl⟩

theorem genesis (maxBlockNetUsage : UInt64) (maxBlockCpuUsage : UInt32) :
    SubmissionInv (genesis maxBlockNetUsage maxBlockCpuUsage : ResourceState F H) .empty :=
  of_empty rfl rfl fun _ => ⟨rfl, rfl⟩

/-- An oracle with a row has a first hash. -/
theorem hashes_pos (hI : SubmissionInv s r) {o : Name} {u : SystemUsage H}
    (h : s.usage.find? o = some u) : 0 < u.submissionHashList.length := by
  obtain ⟨⟨o', totals⟩, hmem, rfl⟩ := List.mem_map.mp (hI.known o u h)
  have hfirst := hI.first o' totals hmem
  rw [h, Option.bind_some] at hfirst
  exact (List.getElem?_eq_some_iff.mp hfirst).1

/-- The totals are submitted once by each oracle. -/
theorem fresh (hI : SubmissionInv s r) {source : Name} (h : s.usage.find? source = none) :
    source ∉ r.totals.map Prod.fst := by
  intro hmem
  rw [← hI.oracles] at hmem
  have hrow := hI.row hmem
  rw [h] at hrow
  cases hrow

/-- Before the first configuration no report is accepted: the threshold is zero, so the
    first report of totals would already be an agreement. -/
theorem history_ne_empty (hI : SubmissionInv s r) {source : Name} {cpu net : UInt64} {hash : H}
    (husage : s'.usage = s.usage.set source (totalsUsage cpu net hash))
    (hrec : Recorded s s' (Checksum.sha256 (totalsText cpu net)) (totalsData cpu net))
    (horacles : s'.getConfig.submittingOracles = s.getConfig.submittingOracles ++ [source])
    (hthreshold : s'.getConfig.oracleConsensusThreshold = s.getConfig.oracleConsensusThreshold)
    (hout : TotalsOutcome s call s') : s.history ≠ ∅ := by
  -- without a history the threshold is zero, and the first totals issue
  intro hempty
  obtain ⟨hzero, hopen, hnone, hr⟩ := hI.unset hempty
  cases hout with
  | «open» hhist hnoIssue htransferred hdis =>
    -- the oracle is the only one of the period
    have hos : s'.getConfig.submittingOracles = [source] := by
      rw [horacles, hI.oracles, hr]
      rfl
    have hrow : s'.usage.find? source = some (totalsUsage cpu net hash) := by
      rw [husage, Table.find?_set_self]
    have hpicked : s'.picked (fun u => u.submissionHashList[0]?) [source] =
        [Checksum.sha256 (totalsText cpu net)] := by
      unfold picked
      rw [List.filterMap_cons, hrow]
      rfl
    -- its totals are stored
    have hfound := hrec (Checksum.sha256 (totalsText cpu net))
    rw [if_pos rfl] at hfound
    -- so the totals agree, and the issuance is not open any more
    apply hdis hopen (Checksum.sha256 (totalsText cpu net)) 1 _
    constructor
    · rw [hthreshold, hzero]
      exact Nat.zero_le _
    · rw [hos, modalHash_eq_ok, hpicked]
      refine ⟨fun o ho => ?_, rfl⟩
      rw [List.mem_singleton.mp ho, hrow]
      rfl
    · rw [hthreshold, hzero]
      exact Nat.zero_le _
    · exact hfound
  | issued modal modeCount d cpu net rest sends k last row sym inflation hwas htr hagreed hdata hiss =>
    -- an issuance reads the last row
    have hlast := hiss.lastRow
    rw [hempty] at hlast
    cases hlast

/-- A report of totals adds its oracle. -/
theorem totals (hI : SubmissionInv s r) {source : Name} {cpu net : UInt64} {hash : H}
    {start : TimePointSec} (haction : call.action = .settotalusg source cpu net hash start)
    (hfresh : s.usage.find? source = none)
    (husage : s'.usage = s.usage.set source (totalsUsage cpu net hash))
    (hrec : Recorded s s' (Checksum.sha256 (totalsText cpu net)) (totalsData cpu net))
    (horacles : s'.getConfig.submittingOracles = s.getConfig.submittingOracles ++ [source])
    (hthreshold : s'.getConfig.oracleConsensusThreshold = s.getConfig.oracleConsensusThreshold)
    (hout : TotalsOutcome s call s') : SubmissionInv s' (recordPeriod r s call s') := by
  have hne := hI.history_ne_empty husage hrec horacles hthreshold hout
  have hne' : s'.history ≠ ∅ := by
    cases hout with
    | «open» hhist => rw [hhist]; exact hne
    | issued modal modeCount d cpu net rest sends k last row sym inflation hwas htr hagreed hdata
        hiss =>
      -- an issuance leaves a row behind
      intro hempty
      have hrow : s'.history.find? (k + 1) = some row := by
        rw [hiss.history_eq, Table.find?_set_self]
      rw [hempty, Table.find?_empty] at hrow
      cases hrow
  have hnew := hI.fresh hfresh
  rw [recordPeriod_totals haction]
  refine ⟨?_, ?_, fun o u hu => ?_, fun o totals ho => ?_, fun o u d hash' hu hd hh => ?_,
    fun hempty => absurd hempty hne'⟩
  · -- the oracle is appended to the list
    rw [horacles, hI.oracles, List.map_append]
    rfl
  · -- once
    rw [List.map_append]
    exact List.Nodup.append hI.nodup (List.nodup_singleton _) (by simpa using hnew)
  · -- and has a row
    rw [List.map_append, List.mem_append]
    rw [husage, Table.find?_set] at hu
    split at hu
    · rename_i hos
      exact .inr (List.mem_singleton.mpr hos)
    · exact .inl (hI.known o u hu)
  · rw [List.mem_append, List.mem_singleton] at ho
    rw [husage, Table.find?_set]
    -- the oracle is new, so none of the old totals are its own
    by_cases hos : o = source
    · rw [if_pos hos]
      cases ho with
      | inl hmem => exact absurd (List.mem_map.mpr ⟨_, hmem, hos⟩) hnew
      | inr heq =>
        rw [(Prod.mk.inj heq).2]
        rfl
    · rw [if_neg hos]
      cases ho with
      | inl hmem => exact hI.first o totals hmem
      | inr heq => exact absurd (Prod.mk.inj heq).1 hos
  · rw [husage, Table.find?_set] at hu
    split at hu
    · -- a new row has no data set yet
      cases hu
      have hlen : d < 1 := (List.getElem?_eq_some_iff.mp hh).1
      omega
    · exact hI.later o u d hash' hu hd hh

/-- A data set is added to the list of its oracle. -/
theorem dataset (hI : SubmissionInv s r) {source : Name} {datasetId : UInt16} {data : List Metric}
    {start : TimePointSec} {u₀ : SystemUsage H} {allocated : UInt64}
    (haction : call.action = .addactusg source datasetId data start)
    (htransferred : s.getConfig.inflationTransferred = true)
    (hrow : s.usage.find? source = some u₀)
    (hid : datasetId.toNat = u₀.submissionHashList.length)
    (husage : s'.usage = s.usage.set source (addDataset u₀ allocated data))
    (hhist : s'.history = s.history)
    (horacles : s'.getConfig.submittingOracles = s.getConfig.submittingOracles) :
    SubmissionInv s' (recordPeriod r s call s') := by
  rw [recordPeriod_dataset haction]
  refine ⟨?_, hI.nodup, fun o u hu => ?_, fun o totals ho => ?_, fun o u d hash' hu hd hh => ?_,
    fun hempty => ?_⟩
  · -- the oracles are as before
    rw [horacles]
    exact hI.oracles
  · rw [husage, Table.find?_set] at hu
    split at hu
    · rename_i hos
      rw [hos]
      exact hI.known source u₀ hrow
    · exact hI.known o u hu
  · -- the first hash stays the first one
    rw [husage]
    exact listed_addDataset hrow (hI.first o totals ho)
  · rw [husage, Table.find?_set] at hu
    split at hu
    · rename_i hos
      cases hu
      have hh : (u₀.submissionHashList ++ [Checksum.sha256 (datasetText data)])[d]? = some hash' :=
        hh
      -- the hash has been there before, or it is the one at the end
      rcases lt_or_ge d u₀.submissionHashList.length with hlt | hge
      · rw [List.getElem?_append_left hlt] at hh
        obtain ⟨id', data', hmem, hrest⟩ := hI.later source u₀ d hash' hrow hd hh
        rw [hos]
        exact ⟨id', data', List.mem_append_left _ hmem, hrest⟩
      · rw [List.getElem?_append_right hge] at hh
        obtain ⟨hlt, hget⟩ := List.getElem?_eq_some_iff.mp hh
        have hlt : d - u₀.submissionHashList.length < 1 := hlt
        refine ⟨datasetId, data, ?_, by omega, ?_⟩
        · rw [hos]
          exact List.mem_append_right _ List.mem_cons_self
        · rw [← hget]
          simp
    · obtain ⟨id', data', hmem, hrest⟩ := hI.later o u d hash' hu hd hh
      exact ⟨id', data', List.mem_append_left _ hmem, hrest⟩
  · -- data sets come after the issuance, when there is a history
    rw [hhist] at hempty
    obtain ⟨-, hopen, -⟩ := hI.unset hempty
    rw [htransferred] at hopen
    cases hopen

/-- A call keeps the record of the submissions true. -/
theorem step (hI : SubmissionInv s r) (h : PeriodChange s call s') :
    SubmissionInv s' (recordPeriod r s call s') := by
  cases h with
  | kept hquiet husage hdatasets hhist hsame hthreshold hunset haccpay =>
    rw [recordPeriod_of_quiet hquiet]
    refine ⟨?_, hI.nodup, ?_, ?_, ?_, fun hempty => ?_⟩
    · -- the list, the rows and the hashes are as before
      rw [hsame.oracles]
      exact hI.oracles
    · rw [husage]
      exact hI.known
    · rw [husage]
      exact hI.first
    · rw [husage]
      exact hI.later
    · rw [hhist] at hempty
      rw [hthreshold, hunset hempty, hsame.transferred, husage]
      exact hI.unset hempty
  | first hquiet start hempty hhist husage hdatasets horacles htransferred hmade hthreshold =>
    rw [recordPeriod_of_quiet hquiet]
    obtain ⟨-, -, hnone, rfl⟩ := hI.unset hempty
    -- the first configuration writes the first row
    have hne' : s'.history ≠ ∅ := by
      intro hempty'
      have hrow : s'.history.find? 0 = some (firstHistory start) := by
        rw [hhist, Table.find?_set_self]
      rw [hempty', Table.find?_empty] at hrow
      cases hrow
    exact .of_empty (husage.trans hnone) horacles fun hempty' => absurd hempty' hne'
  | totals source cpu net hash start haction hfresh husage hrec horacles hthreshold hmade haccpay
      hout =>
    exact hI.totals haction hfresh husage hrec horacles hthreshold hout
  | dataset source datasetId data start haction htransferred s₁ hsubmit husage hdatasets hhist hsys
      horacles hstill hthreshold hout =>
    obtain ⟨u₀, allocated, hrow, hid, halloc, husage', hrec⟩ :=
      submitDataset_tables hsubmit husage hdatasets
    exact hI.dataset haction htransferred hrow hid husage' hhist horacles
  | next haction husage hdatasets hhist horacles htransferred hmade hthreshold =>
    rw [recordPeriod_next haction]
    -- a new period is empty
    refine .of_empty husage horacles fun hempty => ?_
    rw [hhist] at hempty
    rw [hthreshold]
    exact ⟨(hI.unset hempty).1, htransferred⟩

end SubmissionInv

end ResourceState

end UxContracts
