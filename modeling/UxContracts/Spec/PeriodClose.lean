import UxContracts.ForStd.List
import UxContracts.Spec.TotalsConsensus

/-!
# A period closes only when it is complete

`nextperiod` asks for as many oracles as the threshold says whose lists of hashes are the
same, since the text of the list determines it (`submissionsText_inj`). By then their
votes at each place of the list have led to the issuance and to the distribution of each
data set (`CloseInv`), so nothing of the period is left undone (`period_complete`).
-/

namespace UxContracts

namespace ResourceState

variable {F H : Type} [Checksum H]

/-! ## Texts of lists of hashes -/

/-- Different digits are written differently. -/
theorem hexDigit_eq {m n : UInt8} (hm : m.toNat < 16) (hn : n.toNat < 16)
    (h : hexDigit m = hexDigit n) : m = n := by
  have hall : ∀ i j : Fin 16, Nat.digitChar i = Nat.digitChar j → i = j := by decide
  have hij := hall ⟨m.toNat, hm⟩ ⟨n.toNat, hn⟩ h
  rw [Fin.mk.injEq] at hij
  exact UInt8.toNat_inj.mp hij

/-- There is no dash in a digit. -/
theorem dash_ne_hexDigit {n : UInt8} (hn : n.toNat < 16) : '-' ≠ hexDigit n := by
  have hall : ∀ i : Fin 16, '-' ≠ Nat.digitChar i := by decide
  exact hall ⟨n.toNat, hn⟩

/-- The upper and the lower half of a byte. -/
theorem halves_of_byte (b : UInt8) : (b >>> 4).toNat = b.toNat / 16 ∧
    (b &&& 0x0f).toNat = b.toNat % 16 := by
  constructor
  · rw [UInt8.toNat_shiftRight]
    exact Nat.shiftRight_eq_div_pow _ 4
  · rw [UInt8.toNat_and]
    exact Nat.and_two_pow_sub_one_eq_mod _ 4

/-- The two digits of a byte. -/
theorem hexByte_injective :
    Function.Injective fun b : UInt8 => [hexDigit (b >>> 4), hexDigit (b &&& 0x0f)] := by
  intro a b h
  obtain ⟨hau, hal⟩ := halves_of_byte a
  obtain ⟨hbu, hbl⟩ := halves_of_byte b
  have ha := a.toNat_lt
  have hb := b.toNat_lt
  simp only [List.cons.injEq, and_true] at h
  have hu := hexDigit_eq (by omega) (by omega) h.1
  have hl := hexDigit_eq (by omega) (by omega) h.2
  rw [← UInt8.toNat_inj, hau, hbu] at hu
  rw [← UInt8.toNat_inj, hal, hbl] at hl
  apply UInt8.toNat_inj.mp
  omega

/-- A hash is determined by how it is written. -/
theorem toHex_injective (hbytes : Function.Injective (Checksum.bytes : H → List UInt8)) :
    Function.Injective (toHex : H → List Char) := by
  intro g h hgh
  exact hbytes (List.flatMap_injective_of_length (n := 2) (by decide) (fun _ => rfl)
    hexByte_injective hgh)

/-- A written hash has no dash. -/
theorem dash_notMem_toHex (h : H) : '-' ∉ toHex h := by
  intro hmem
  obtain ⟨b, -, hb⟩ := List.mem_flatMap.mp hmem
  obtain ⟨hu, hl⟩ := halves_of_byte b
  have hlt := b.toNat_lt
  simp only [List.mem_cons, List.not_mem_nil, or_false] at hb
  cases hb with
  | inl he => exact dash_ne_hexDigit (by omega) he
  | inr he => exact dash_ne_hexDigit (by omega) he

/-- The text of a list of hashes determines the list. -/
theorem submissionsText_inj (hbytes : Function.Injective (Checksum.bytes : H → List UInt8))
    {gs hs : List H} (hg : gs ≠ []) (hh : hs ≠ []) (h : submissionsText gs = submissionsText hs) :
    gs = hs := by
  have hparts : ∀ (l : List H), ∀ part ∈ l.map toHex, '-' ∉ part := by
    intro l part hpart
    obtain ⟨x, -, rfl⟩ := List.mem_map.mp hpart
    exact dash_notMem_toHex x
  have hmap := List.intercalate_singleton_inj (by simpa using hg) (by simpa using hh) (hparts gs)
    (hparts hs) h
  exact (toHex_injective hbytes).list_map hmap

/-! ## Scores -/

/-- The oracle has submitted what it had committed to, and that is the modal commitment. -/
def isFull (s : ResourceState F H) (modal : H) (o : Name) : Bool :=
  (s.usage.find? o).any fun u => (oraclePoints u modal).2

/-- The oracles with the full submission are counted. -/
theorem scoreOracles_spec {s : ResourceState F H} {modal : H} {sources sources' : Table Name Source}
    {full full' : Nat} {oracles : List Name}
    (h : s.scoreOracles modal sources full oracles = .ok (sources', full')) :
    full' = full + (oracles.filter (s.isFull modal)).length := by
  induction oracles generalizing sources full with
  | nil =>
    simp only [scoreOracles, Except.ok.injEq, Prod.mk.injEq] at h
    rw [← h.2, List.filter_nil, List.length_nil, add_zero]
  | cons o os ih =>
    simp only [scoreOracles, bind_eq_ok, getRow_eq_ok] at h
    obtain ⟨u, hu, h⟩ := h
    have hfull : s.isFull modal o = (oraclePoints u modal).2 := by
      unfold isFull
      rw [hu, Option.any_some]
    rw [ih h]
    cases hp : (oraclePoints u modal).2 with
    | false =>
      rw [List.filter_cons_of_neg (by rw [hfull, hp]; decide), if_neg (by decide)]
    | true =>
      rw [List.filter_cons_of_pos (hfull.trans hp), if_pos rfl, List.length_cons]
      omega

/-- What a full oracle has submitted. -/
theorem isFull_spec {s : ResourceState F H} {modal : H} {o : Name} (h : s.isFull modal o) :
    ∃ u, s.usage.find? o = some u ∧ u.allDataHash = modal ∧
      Checksum.sha256 (submissionsText u.submissionHashList) = modal := by
  unfold isFull at h
  obtain ⟨u, hu, hpoints⟩ := (Option.any_eq_true _ _).mp h
  unfold oraclePoints at hpoints
  simp only at hpoints
  split at hpoints
  · rename_i hreveal
    split at hpoints
    · rename_i hmodal
      exact ⟨u, hu, hmodal, hreveal.trans hmodal⟩
    · cases hpoints
  · cases hpoints

variable [Double F]

/-- The oracles that are full, as a set. -/
theorem SubmissionInv.card_full {s : ResourceState F H} {r : PeriodRecord}
    (hI : SubmissionInv s r) (modal : H) :
    (s.getConfig.submittingOracles.filter (s.isFull modal)).toFinset.card =
      (s.getConfig.submittingOracles.filter (s.isFull modal)).length :=
  List.toFinset_card_of_nodup (hI.oracles_nodup.filter _)

/-- `nextperiod` has found enough full oracles. -/
theorem nextperiod_full {ctx : Context} {s s' : ResourceState F H}
    (h : s.nextperiod ctx = .ok s') :
    ∃ modal, s.getConfig.oracleConsensusThreshold.toNat ≤
      (s.getConfig.submittingOracles.filter (s.isFull modal)).length := by
  simp only [nextperiod, bind_eq_ok, check_eq_ok] at h
  obtain ⟨_, -, _, -, ⟨modal, modeCount⟩, -, _, -, ⟨sources, full⟩, hscore, _, hfull, -⟩ := h
  refine ⟨modal, ?_⟩
  split at hscore
  · have hcount := scoreOracles_spec hscore
    simp only at hfull hcount
    omega
  · simp only [pure_eq_ok, Prod.mk.injEq] at hscore
    simp only at hfull
    omega

/-! ## The invariant -/

/-- The data sets that enough oracles agree on have been distributed, each once. -/
structure CloseInv (t : UInt16) (s : ResourceState F H) (r : PeriodRecord) : Prop where
  totals : TotalsInv t s r
  threshold : s.getConfig.oracleConsensusThreshold = t
  once : s.getConfig.accountDistributionsMade.Nodup
  distributed : ∀ d hash, 0 < d → t.toNat ≤ s.votes d hash →
    ∃ datasetId ∈ s.getConfig.accountDistributionsMade, datasetId.toNat = d

omit [Double F] in
/-- A data set that is agreed on but not due has been distributed. -/
theorem dueDataset_none {s : ResourceState F H} {cfg : ResourceConfig F} {datasetId : UInt16}
    {modal : H} {modeCount : UInt8} (h : s.dueDataset cfg datasetId = .ok none)
    (henough : cfg.oracleConsensusThreshold.toNat ≤ cfg.submittingOracles.length)
    (htally : s.modalHash (fun u => u.submissionHashList[datasetId.toNat]?)
      cfg.submittingOracles = .ok (modal, modeCount))
    (hreached : cfg.oracleConsensusThreshold.toNat ≤ modeCount.toNat) :
    datasetId ∈ cfg.accountDistributionsMade := by
  by_contra hnot
  unfold dueDataset at h
  rw [if_pos henough, htally] at h
  have h : (if datasetId ∉ cfg.accountDistributionsMade ∧
      cfg.oracleConsensusThreshold.toNat ≤ modeCount.toNat then
        (pure (some (s.storedData modal)) : Except String (Option (List Metric)))
      else pure none) = .ok none := h
  rw [if_pos ⟨hnot, hreached⟩] at h
  cases h

/-- With enough votes for a hash, a data set that is not due has been distributed. -/
theorem CloseInv.made_of_not_due {t : UInt16} (h0 : 0 < t.toNat) {s s₁ s' : ResourceState F H}
    {r r' : PeriodRecord} {datasetId : UInt16} {hash : H} (hI : CloseInv t s r)
    (hsub : SubmissionInv s' r') (hfew : s'.getConfig.submittingOracles.length < 256)
    (husage : s'.usage = s₁.usage)
    (horacles : s'.getConfig.submittingOracles = s.getConfig.submittingOracles)
    (hdue : s₁.dueDataset s.getConfig datasetId = .ok none)
    (hle : t.toNat ≤ s'.votes datasetId.toNat hash) :
    datasetId ∈ s.getConfig.accountDistributionsMade := by
  have hlen := votes_le_length s' datasetId.toNat hash
  -- the tally of the action has found an agreement
  obtain ⟨modal, modeCount, hmode, hreached⟩ :=
    mode_of_le_votes h0 (fun o ho => hsub.row ho) hfew hle
  rw [modalHash_congr husage, horacles] at hmode
  apply dueDataset_none hdue _ hmode
  · rw [hI.threshold]
    exact hreached
  · rw [hI.threshold, ← horacles]
    exact hle.trans hlen

/-- A call keeps the invariant of the period. -/
theorem step_closeInv {t : UInt16} (h0 : 0 < t.toNat)
    (hsha : Function.Injective (Checksum.sha256 : List Char → H)) {s s' : ResourceState F H}
    {r : PeriodRecord} {call : ResourceCall F H} (hI : CloseInv t s r)
    (hkeep : KeepsThreshold t call) (hfew : FewOracles s call) (h : s.step call = .ok s') :
    CloseInv t s' (recordPeriod r s call s') := by
  have htotals := hI.totals.step h0 hsha hkeep hfew h
  -- without oracles there are no votes
  have hnone : s'.getConfig.submittingOracles = [] → ∀ d hash, 0 < d →
      t.toNat ≤ s'.votes d hash →
      ∃ datasetId ∈ s'.getConfig.accountDistributionsMade, datasetId.toNat = d := by
    intro hos d hash hd hle
    rw [votes_nil hos] at hle
    omega
  unfold FewOracles at hfew
  rw [Run.next_of_ok h] at hfew
  cases step_period hI.totals.core.token h with
  | kept hquiet husage hdatasets hhist hsame hthreshold hunset haccpay =>
    -- votes and data sets are as before
    refine ⟨htotals, ?_, ?_, fun d hash hd hle => ?_⟩
    · rw [hthreshold, hI.threshold]
      exact hkeep
    · rw [hsame.made]
      exact hI.once
    · rw [votes_congr hsame.oracles fun o _ => by rw [husage]] at hle
      rw [hsame.made]
      exact hI.distributed d hash hd hle
  | first hquiet start hempty hhist husage hdatasets horacles htransferred hmade hthreshold =>
    refine ⟨htotals, ?_, ?_, hnone horacles⟩
    · -- the first configuration sets the threshold
      unfold KeepsThreshold at hkeep
      rw [← hthreshold] at hkeep
      exact hkeep
    · rw [hmade]
      exact List.nodup_nil
  | totals source cpu net hash start haction hfresh husage hrec horacles hthreshold hmade haccpay
      hout =>
    refine ⟨htotals, hthreshold.trans hI.threshold, ?_, fun d hash' hd hle => ?_⟩
    · rw [hmade]
      exact hI.once
    · -- the new oracle has no data set yet
      have hnotMem : source ∉ s.getConfig.submittingOracles := by
        rw [hI.totals.submissions.oracles]
        exact hI.totals.submissions.fresh hfresh
      have hlater : (totalsUsage cpu net hash).submissionHashList[d]? = none :=
        List.getElem?_eq_none hd
      rw [votes_totals hnotMem husage horacles, hlater] at hle
      rw [hmade]
      exact hI.distributed d hash' hd hle
  | dataset source datasetId data start haction htransferred s₁ hsubmit husage hdatasets hhist hsys
      horacles hstill hthreshold hout =>
    obtain ⟨u₀, allocated, hrow, hid, halloc, husage', hrec⟩ :=
      submitDataset_tables hsubmit husage hdatasets
    -- the votes at the other places have not changed
    have hold : ∀ d hash, 0 < d → d ≠ datasetId.toNat → t.toNat ≤ s'.votes d hash →
        ∃ i ∈ s.getConfig.accountDistributionsMade, i.toNat = d := by
      intro d hash hd hne hle
      rw [votes_dataset hrow husage' horacles (hid ▸ hne)] at hle
      exact hI.distributed d hash hd hle
    rcases hout with ⟨hdue, -, -, hmade⟩ | ⟨data', hdue, -, -, hmade⟩
    · -- not due: it was distributed before, or has too few votes
      refine ⟨htotals, hthreshold.trans hI.threshold, ?_, fun d hash hd hle => ?_⟩
      · rw [hmade]
        exact hI.once
      · rw [hmade]
        by_cases hne : d = datasetId.toNat
        · rw [hne] at hle
          have hmem := hI.made_of_not_due h0 htotals.submissions hfew husage horacles hdue hle
          exact ⟨datasetId, hmem, hne.symm⟩
        · exact hold d hash hd hne hle
    · -- due: it is distributed now, for the first time
      have hnew := (dueDataset_spec hdue).1
      refine ⟨htotals, hthreshold.trans hI.threshold, ?_, fun d hash hd hle => ?_⟩
      · rw [hmade]
        exact List.Nodup.append hI.once (List.nodup_singleton _) (by simpa using hnew)
      · rw [hmade]
        by_cases hne : d = datasetId.toNat
        · exact ⟨datasetId, List.mem_append_right _ List.mem_cons_self, hne.symm⟩
        · obtain ⟨i, hi, hid'⟩ := hold d hash hd hne hle
          exact ⟨i, List.mem_append_left _ hi, hid'⟩
  | next haction husage hdatasets hhist horacles htransferred hmade hthreshold =>
    -- a new period has no oracles
    refine ⟨htotals, hthreshold.trans hI.threshold, ?_, hnone horacles⟩
    rw [hmade]
    exact List.nodup_nil

/-! ## The start of a period -/

/-- A period has just begun in a state that a run has reached. -/
structure PeriodStart (s : ResourceState F H) : Prop where
  reached : ∃ maxBlockNetUsage maxBlockCpuUsage calls,
    s = Run.exec step (genesis maxBlockNetUsage maxBlockCpuUsage) calls
  oracles : s.getConfig.submittingOracles = []
  usage : s.usage = ∅
  datasets : s.datasets = ∅
  transferred : s.getConfig.inflationTransferred = false
  made : s.getConfig.accountDistributionsMade = []

/-- The record of a run is true. -/
theorem exec_submissionInv (maxBlockNetUsage : UInt64) (maxBlockCpuUsage : UInt32)
    (calls : List (ResourceCall F H)) : ∃ r, SubmissionInv
      (Run.exec step (genesis maxBlockNetUsage maxBlockCpuUsage : ResourceState F H) calls) r ∧
      (Run.exec step (genesis maxBlockNetUsage maxBlockCpuUsage : ResourceState F H)
        calls).sys.CoreToken := by
  have hstep : ∀ (s : ResourceState F H) call s', (∃ r, SubmissionInv s r ∧ s.sys.CoreToken) →
      s.step call = .ok s' → ∃ r, SubmissionInv s' r ∧ s'.sys.CoreToken := by
    intro s call s' ⟨r, hI, hcore⟩ h
    exact ⟨_, hI.step (step_period hcore.token h), step_coreToken hcore h⟩
  exact Run.exec_induction hstep ⟨.empty, .genesis _ _, SystemState.genesis_coreToken _ _⟩ calls

/-- A period starts with nothing to count. -/
theorem PeriodStart.closeInv {t : UInt16} (h0 : 0 < t.toNat) {s : ResourceState F H}
    (h : PeriodStart s) (ht : s.getConfig.oracleConsensusThreshold = t) :
    CloseInv t s .empty := by
  obtain ⟨maxNet, maxCpu, calls, hs⟩ := h.reached
  -- the state before is a reachable one, with its own record
  obtain ⟨r, hI, hcore⟩ := exec_submissionInv maxNet maxCpu calls
  rw [← hs] at hI hcore
  -- no text is stored
  have hfind : ∀ hash, s.findDataset hash = none := by
    intro hash
    unfold findDataset
    rw [h.datasets]
    rfl
  -- so the record of the period starts empty
  have hsub : SubmissionInv s .empty :=
    .of_empty h.usage h.oracles fun hempty => ⟨(hI.unset hempty).1, h.transferred⟩
  refine ⟨⟨hcore, hsub, fun _ => ht, fun hash d hd => ?_, (fun o totals ho => nomatch ho),
    TotalsInv.no_votes h0 h.oracles h.transferred, ?_, fun totals ho => nomatch ho⟩, ht, ?_,
    fun d hash hd hle => ?_⟩
  · rw [hfind] at hd
    cases hd
  · rw [h.transferred]
    rfl
  · rw [h.made]
    exact List.nodup_nil
  · rw [votes_nil h.oracles] at hle
    omega

/-! ## Closing a period -/

/-- The oracle has submitted the hashes of `hashes`, and had committed to them. -/
def HasSubmitted (s : ResourceState F H) (hashes : List H) (o : Name) : Prop :=
  ∃ u, s.usage.find? o = some u ∧ u.submissionHashList = hashes ∧
    u.allDataHash = Checksum.sha256 (submissionsText hashes)

/-- What is left behind when a period has closed. -/
structure Cleared (s : ResourceState F H) : Prop where
  oracles : s.getConfig.submittingOracles = []
  usage : s.usage = ∅
  datasets : s.datasets = ∅
  made : s.getConfig.accountDistributionsMade = []
  transferred : s.getConfig.inflationTransferred = false

/-- Full oracles have submitted one list of hashes. -/
theorem full_hasSubmitted (hsha : Function.Injective (Checksum.sha256 : List Char → H))
    (hbytes : Function.Injective (Checksum.bytes : H → List UInt8)) {s : ResourceState F H}
    {r : PeriodRecord} (hsub : SubmissionInv s r) {modal : H} {o : Name} {u : SystemUsage H}
    (hu : s.usage.find? o = some u)
    (hreveal : Checksum.sha256 (submissionsText u.submissionHashList) = modal) {o' : Name}
    (ho' : s.isFull modal o') : HasSubmitted s u.submissionHashList o' := by
  obtain ⟨u', hu', hcommit, hreveal'⟩ := isFull_spec ho'
  have hne : ∀ {v : SystemUsage H}, 0 < v.submissionHashList.length → v.submissionHashList ≠ [] :=
    fun hpos => List.length_pos_iff.mp hpos
  have hlist := submissionsText_inj hbytes (hne (hsub.hashes_pos hu')) (hne (hsub.hashes_pos hu))
    (hsha (hreveal'.trans hreveal.symm))
  exact ⟨u', hu', hlist, hcommit.trans hreveal.symm⟩

/-- The full oracles vote for each hash of their list. -/
theorem full_votes (hsha : Function.Injective (Checksum.sha256 : List Char → H))
    (hbytes : Function.Injective (Checksum.bytes : H → List UInt8)) {s : ResourceState F H}
    {r : PeriodRecord} (hsub : SubmissionInv s r) {modal : H} {o : Name} {u : SystemUsage H}
    (hu : s.usage.find? o = some u)
    (hreveal : Checksum.sha256 (submissionsText u.submissionHashList) = modal) {d : Nat}
    (hd : d < u.submissionHashList.length) :
    (s.getConfig.submittingOracles.filter (s.isFull modal)).length ≤
      s.votes d u.submissionHashList[d] := by
  rw [← hsub.card_full]
  apply le_count_picked
  intro o' ho'
  obtain ⟨hmem, hfull⟩ := List.mem_filter.mp (List.mem_toFinset.mp ho')
  obtain ⟨u', hu', hlist, -⟩ := full_hasSubmitted hsha hbytes hsub hu hreveal hfull
  refine ⟨hmem, ?_⟩
  rw [hu', Option.bind_some, hlist]
  exact List.getElem?_eq_getElem hd

/-- When a period closes, enough oracles have submitted one list of hashes that they had
    committed to, inflation has been transferred, each data set of the list has been
    distributed once, and nothing is left behind. -/
theorem period_complete {t : UInt16} (h0 : 0 < t.toNat)
    (hsha : Function.Injective (Checksum.sha256 : List Char → H))
    (hbytes : Function.Injective (Checksum.bytes : H → List UInt8)) {s : ResourceState F H}
    (hstart : PeriodStart s) (ht : s.getConfig.oracleConsensusThreshold = t)
    {calls : List (ResourceCall F H)} (hkeep : ∀ call ∈ calls, KeepsThreshold t call)
    (hfew : Run.Meets step FewOracles s calls) {ctx : Context} {s' : ResourceState F H}
    (hclose : (Run.exec step s calls).step ⟨ctx, .nextperiod⟩ = .ok s') :
    (∃ hashes, hashes ≠ [] ∧
      (∃ voters : Finset Name, t.toNat ≤ voters.card ∧
        ∀ o ∈ voters, HasSubmitted (Run.exec step s calls) hashes o) ∧
      ∀ d, 0 < d → d < hashes.length →
        ((Run.exec step s calls).getConfig.accountDistributionsMade.map UInt16.toNat).count d = 1) ∧
    (Run.exec step s calls).getConfig.inflationTransferred = true ∧ Cleared s' := by
  -- one call keeps the invariant with the record of the period
  have hstep : ∀ (p : ResourceState F H × PeriodRecord) call q, CloseInv t p.1 p.2 →
      (KeepsThreshold t call ∧ FewOracles p.1 call) →
      Run.observed step recordPeriod p call = .ok q → CloseInv t q.1 q.2 := by
    intro p call q hI hcond h
    obtain ⟨hstep, hrec⟩ := Run.observed_eq_ok h
    rw [hrec]
    exact step_closeInv h0 hsha hI hcond.1 hcond.2 hstep
  have hmeets : Run.Meets step (fun s call => KeepsThreshold t call ∧ FewOracles s call) s calls :=
    (Run.meets_of_forall hkeep).and hfew
  -- and so does the run
  have hI := Run.exec_of_meets (I := fun p => CloseInv t p.1 p.2) hstep (hstart.closeInv h0 ht)
    (Run.meets_observed recordPeriod .empty hmeets)
  rw [Run.exec_observed_fst] at hI
  generalize (Run.exec (Run.observed step recordPeriod) (s, PeriodRecord.empty) calls).2 = r at hI
  generalize Run.exec step s calls = u at hI hclose
  have hsub := hI.totals.submissions
  -- the oracles that `nextperiod` has counted
  obtain ⟨modal, hfull⟩ := nextperiod_full hclose
  rw [hI.threshold] at hfull
  obtain ⟨o, ho⟩ := List.exists_mem_of_length_pos (lt_of_lt_of_le h0 hfull)
  obtain ⟨usage, husage, -, hreveal⟩ := isFull_spec (List.mem_filter.mp ho).2
  have hcard : t.toNat ≤
      (u.getConfig.submittingOracles.filter (u.isFull modal)).toFinset.card := by
    rw [hsub.card_full]
    exact hfull
  -- all of them have submitted the list of the first
  have hsubmitted : ∀ o ∈ (u.getConfig.submittingOracles.filter (u.isFull modal)).toFinset,
      HasSubmitted u usage.submissionHashList o := by
    intro o' ho'
    have hfull' := (List.mem_filter.mp (List.mem_toFinset.mp ho')).2
    exact full_hasSubmitted hsha hbytes hsub husage hreveal hfull'
  -- their votes at each place of the list
  have hvotes : ∀ d (hd : d < usage.submissionHashList.length),
      t.toNat ≤ u.votes d usage.submissionHashList[d] := fun d hd =>
    hfull.trans (full_votes hsha hbytes hsub husage hreveal hd)
  have hpos := hsub.hashes_pos husage
  refine ⟨⟨usage.submissionHashList, List.length_pos_iff.mp hpos,
    ⟨_, hcard, hsubmitted⟩, fun d hd hlt => ?_⟩,
    hI.totals.consensus.mpr ⟨_, hvotes 0 hpos⟩, ?_⟩
  · -- a place with enough votes has been distributed once
    obtain ⟨datasetId, hmem, hid⟩ := hI.distributed d _ hd (hvotes d hlt)
    apply List.count_eq_one_of_mem
    · exact hI.once.map fun _ _ => UInt16.toNat_inj.mp
    · rw [← hid]
      exact List.mem_map_of_mem hmem
  · -- and the period has been reset
    obtain ⟨sources, rfl⟩ := nextperiod_spec hclose
    exact ⟨rfl, rfl, rfl, rfl, rfl⟩

/-! ## A period that closes -/

namespace Sample

theorem charBytes_injective : Function.Injective charBytes := by
  intro a b h
  have hlt : ∀ c : Char, c.val.toNat < 2 ^ 24 := by
    intro c
    have hvalid := c.valid
    simp only [UInt32.isValidChar, Nat.isValidChar] at hvalid
    omega
  have ha := hlt a
  have hb := hlt b
  have h8 : (8 : UInt32).toNat % 32 = 8 := rfl
  have h16 : (16 : UInt32).toNat % 32 = 16 := rfl
  simp only [charBytes, List.cons.injEq, and_true, ← UInt8.toNat_inj, UInt32.toNat_toUInt8,
    UInt32.toNat_shiftRight, Nat.shiftRight_eq_div_pow, h8, h16] at h
  apply Char.ext
  apply UInt32.toNat_inj.mp
  omega

/-- The sample's bytes determine the hash. -/
theorem bytes_injective : Function.Injective (Checksum.bytes : List Char → List UInt8) :=
  List.flatMap_injective_of_length (n := 3) (by decide) (fun _ => rfl) charBytes_injective

/-- The hashes of the totals and of a data set of bob. -/
def hashes : List (List Char) :=
  [totalsText 1000000 2000, datasetText [⟨SystemState.Sample.bob, 600000⟩]]

/-- An oracle reports its totals with the commitment to `hashes`. -/
def committed (who : Name) : ResourceCall Rat (List Char) :=
  call who (.settotalusg who 1000000 2000 (submissionsText hashes) 1600000000)

/-- Carol commits to other data than alice and bob, who submit all of theirs. -/
def submitted : List (ResourceCall Rat (List Char)) :=
  [committed SystemState.Sample.alice, totals carol 1000000 2000,
    committed SystemState.Sample.bob,
    dataset SystemState.Sample.bob 1 [⟨SystemState.Sample.bob, 600000⟩],
    dataset SystemState.Sample.alice 1 [⟨SystemState.Sample.bob, 600000⟩]]

/-- Anyone may close the period after a day. -/
def close : ResourceCall Rat (List Char) :=
  ⟨SystemState.Sample.ctx [] 1600086400, .nextperiod⟩

/-- A period begins when the contracts are set up. -/
theorem setup_periodStart : PeriodStart (Run.exec step start (setup 2)) := by
  refine ⟨⟨1048576, 200000, setup 2, rfl⟩, ?_, Table.eq_empty_of_size ?_,
    Table.eq_empty_of_size ?_, ?_, ?_⟩ <;> decide +kernel

end Sample

open Sample in
/-- The sample has one data set to distribute. -/
theorem period_complete_sample :
    let u := Run.exec step (Run.exec step start (setup 2)) submitted
    (∃ s', u.step close = .ok s' ∧ Cleared s') ∧ u.getConfig.inflationTransferred = true ∧
      u.getConfig.accountDistributionsMade = [1] := by
  intro u
  have hkeep : ∀ call ∈ submitted, KeepsThreshold 2 call := by decide +kernel
  have hfew : Run.Meets step FewOracles (Run.exec step start (setup 2)) submitted := by
    decide +kernel
  have hthreshold : (Run.exec step start (setup 2)).getConfig.oracleConsensusThreshold = 2 := by
    decide +kernel
  have hmade : u.getConfig.accountDistributionsMade = [1] := by
    decide +kernel
  have hok : (u.step close).isOk = true := by decide +kernel
  cases hclose : u.step close with
  | error e =>
    rw [hclose] at hok
    cases hok
  | ok s' =>
    obtain ⟨-, htransferred, hcleared⟩ := period_complete (by decide) Function.injective_id
      bytes_injective setup_periodStart hthreshold hkeep hfew hclose
    exact ⟨⟨s', rfl, hcleared⟩, htransferred, hmade⟩

end ResourceState

end UxContracts
