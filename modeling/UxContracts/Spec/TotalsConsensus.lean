import UxContracts.Spec.Submissions

/-!
# Consensus on totals

The votes of a hash are the oracles that have submitted it at one place of their lists.
Inflation is transferred in a period exactly when the hash of some totals gets as many
votes as the threshold asks for (`TotalsInv.consensus`). Since the hash keeps the texts
apart, its votes are the oracles that have submitted these totals, and the row that is
added to the history has these totals (`totals_consensus`).
-/

namespace UxContracts

namespace ResourceState

variable {F H : Type} [Checksum H] [Double F]

/-! ## Votes -/

/-- The oracles of the period that have submitted `hash` at the place `d` of their lists. -/
def votes (s : ResourceState F H) (d : Nat) (hash : H) : Nat :=
  (s.picked (fun u => u.submissionHashList[d]?) s.getConfig.submittingOracles).count hash

/-- A tally over the oracles of the period that reaches a threshold has found as many votes. -/
theorem le_votes_of_mode {s : ResourceState F H} {d t : Nat} {modal : H} {modeCount : UInt8}
    (h0 : 0 < t) (h : s.modalHash (fun u => u.submissionHashList[d]?)
      s.getConfig.submittingOracles = .ok (modal, modeCount)) (hle : t ≤ modeCount.toNat) :
    t ≤ s.votes d modal :=
  le_count_of_modalHash h0 h hle

/-- A hash with enough votes is found by the tally of less than 256 oracles. -/
theorem mode_of_le_votes {s : ResourceState F H} {d t : Nat} {hash : H} (h0 : 0 < t)
    (hrows : ∀ o ∈ s.getConfig.submittingOracles, (s.usage.find? o).isSome)
    (hfew : s.getConfig.submittingOracles.length < 256) (h : t ≤ s.votes d hash) :
    ∃ modal modeCount, s.modalHash (fun u => u.submissionHashList[d]?)
      s.getConfig.submittingOracles = .ok (modal, modeCount) ∧ t ≤ modeCount.toNat :=
  modalHash_of_le_count h0 hrows hfew h

/-- There are at most as many votes as oracles. -/
theorem votes_le_length (s : ResourceState F H) (d : Nat) (hash : H) :
    s.votes d hash ≤ s.getConfig.submittingOracles.length :=
  List.count_le_length.trans (List.length_filterMap_le _ _)

/-- The votes are on the rows of the oracles. -/
theorem votes_congr {s s' : ResourceState F H} {d : Nat}
    (horacles : s'.getConfig.submittingOracles = s.getConfig.submittingOracles)
    (hrows : ∀ o ∈ s.getConfig.submittingOracles,
      (s'.usage.find? o).bind (fun u => u.submissionHashList[d]?) =
        (s.usage.find? o).bind (fun u => u.submissionHashList[d]?)) (hash : H) :
    s'.votes d hash = s.votes d hash := by
  unfold votes picked
  rw [horacles, List.filterMap_congr hrows]

theorem votes_nil {s : ResourceState F H} (h : s.getConfig.submittingOracles = []) (d : Nat)
    (hash : H) : s.votes d hash = 0 := by
  unfold votes picked
  rw [h]
  rfl

/-- An oracle that reports its totals adds its votes to those of the others. -/
theorem votes_totals {s s' : ResourceState F H} {source : Name} {cpu net : UInt64} {hash : H}
    (hfresh : source ∉ s.getConfig.submittingOracles)
    (husage : s'.usage = s.usage.set source (totalsUsage cpu net hash))
    (horacles : s'.getConfig.submittingOracles = s.getConfig.submittingOracles ++ [source])
    (d : Nat) (h : H) : s'.votes d h =
      s.votes d h + ((totalsUsage cpu net hash).submissionHashList[d]?).toList.count h := by
  have hold : s'.picked (fun u => u.submissionHashList[d]?) s.getConfig.submittingOracles =
      s.picked (fun u => u.submissionHashList[d]?) s.getConfig.submittingOracles := by
    unfold picked
    refine List.filterMap_congr fun o ho => ?_
    have hne : o ≠ source := fun he => hfresh (he ▸ ho)
    rw [husage, Table.find?_set_ne _ _ hne]
  have hnew : s'.picked (fun u => u.submissionHashList[d]?) [source] =
      ((totalsUsage cpu net hash).submissionHashList[d]?).toList := by
    unfold picked
    rw [List.filterMap_cons, husage, Table.find?_set_self, Option.bind_some]
    cases (totalsUsage cpu net hash).submissionHashList[d]? <;> rfl
  unfold votes
  rw [horacles, ← hold, ← hnew]
  unfold picked
  rw [List.filterMap_append, List.count_append]

/-- A data set that is submitted adds one vote at its place. -/
theorem votes_dataset {s s' : ResourceState F H} {source : Name} {u : SystemUsage H}
    {allocated : UInt64} {data : List Metric} (hrow : s.usage.find? source = some u)
    (husage : s'.usage = s.usage.set source (addDataset u allocated data))
    (horacles : s'.getConfig.submittingOracles = s.getConfig.submittingOracles) {d : Nat}
    (hd : d ≠ u.submissionHashList.length) (h : H) : s'.votes d h = s.votes d h := by
  refine votes_congr horacles (fun o _ => ?_) h
  rw [husage, Table.find?_set]
  split
  · rename_i hos
    rw [hos, hrow, Option.bind_some, Option.bind_some]
    show (u.submissionHashList ++ [_])[d]? = _
    rcases lt_or_ge d u.submissionHashList.length with hlt | hge
    · exact List.getElem?_append_left hlt
    · rw [List.getElem?_eq_none hge, List.getElem?_eq_none]
      rw [List.length_append, List.length_singleton]
      omega
  · rfl

/-- The votes of totals are the oracles that have submitted them. -/
theorem SubmissionInv.votes_eq {s : ResourceState F H} {r : PeriodRecord}
    (hI : SubmissionInv s r) (hsha : Function.Injective (Checksum.sha256 : List Char → H))
    (totals : UInt64 × UInt64) : s.votes 0 (totalsHash totals) = (r.supporters totals).card := by
  apply le_antisymm
  · apply count_picked_le hI.oracles_nodup
    intro o ho hhash
    rw [hI.oracles] at ho
    obtain ⟨⟨o', totals'⟩, hmem, rfl⟩ := List.mem_map.mp ho
    rw [hI.first o' totals' hmem, Option.some.injEq] at hhash
    have hsame : totals' = totals := totalsText_inj (hsha hhash)
    rw [mem_supporters, ← hsame]
    exact hmem
  · apply le_count_picked
    intro o ho
    rw [mem_supporters] at ho
    refine ⟨?_, hI.first o totals ho⟩
    rw [hI.oracles]
    exact List.mem_map.mpr ⟨_, ho, rfl⟩

/-- Supporters do not get lost when totals are added. -/
theorem supporters_card_mono {r r' : PeriodRecord} (h : ∀ x ∈ r.totals, x ∈ r'.totals)
    (totals : UInt64 × UInt64) : (r.supporters totals).card ≤ (r'.supporters totals).card := by
  apply Finset.card_le_card
  intro o ho
  rw [mem_supporters] at ho ⊢
  exact h _ ho

/-- A first hash with a vote is the hash of totals. -/
theorem SubmissionInv.exists_totals {s : ResourceState F H} {r : PeriodRecord}
    (hI : SubmissionInv s r) {hash : H} (h : 0 < s.votes 0 hash) :
    ∃ o totals, (o, totals) ∈ r.totals ∧ hash = totalsHash totals := by
  obtain ⟨o, ho, hhash⟩ := exists_voter h
  rw [hI.oracles] at ho
  obtain ⟨⟨o', totals⟩, hmem, rfl⟩ := List.mem_map.mp ho
  rw [hI.first o' totals hmem, Option.some.injEq] at hhash
  exact ⟨o', totals, hmem, hhash.symm⟩

/-! ## The invariant -/

/-- A call does not set another threshold than `t`. -/
def KeepsThreshold (t : UInt16) (call : ResourceCall F H) : Prop :=
  (newThreshold call.action).getD t = t

instance (t : UInt16) (call : ResourceCall F H) : Decidable (KeepsThreshold t call) :=
  inferInstanceAs (Decidable (_ = _))

/-- There are fewer than 256 oracles in the period after a call. -/
def FewOracles (s : ResourceState F H) (call : ResourceCall F H) : Prop :=
  (Run.next step s call).getConfig.submittingOracles.length < 256

instance (s : ResourceState F H) (call : ResourceCall F H) : Decidable (FewOracles s call) :=
  inferInstanceAs (Decidable (_ < _))

/-- What is stored under the hash of totals are these totals, or the hash is the one of a
    data set. -/
def StoredKinds (s : ResourceState F H) : Prop :=
  ∀ hash d, s.findDataset hash = some d →
    (∃ totals : UInt64 × UInt64, hash = totalsHash totals ∧
      d.data = totalsData totals.1 totals.2) ∨
    ∃ data, hash = Checksum.sha256 (datasetText data)

/-- The totals of a period and their effect, for the threshold `t`. -/
structure TotalsInv (t : UInt16) (s : ResourceState F H) (r : PeriodRecord) : Prop where
  core : s.sys.CoreToken
  submissions : SubmissionInv s r
  threshold : s.history ≠ ∅ → s.getConfig.oracleConsensusThreshold = t
  kinds : StoredKinds s
  stored : ∀ o totals, (o, totals) ∈ r.totals → (s.findDataset (totalsHash totals)).isSome
  consensus : s.getConfig.inflationTransferred = true ↔ ∃ hash, t.toNat ≤ s.votes 0 hash
  once : r.appended.length = if s.getConfig.inflationTransferred then 1 else 0
  agreed : ∀ totals ∈ r.appended, t.toNat ≤ (r.supporters totals).card

omit [Double F] in
/-- What is recorded keeps the kinds of what is stored. -/
theorem Recorded.kinds {s s' : ResourceState F H} {hash : H} {data : List Metric}
    (h : Recorded s s' hash data) (hI : StoredKinds s)
    (hnew : (∃ totals : UInt64 × UInt64, hash = totalsHash totals ∧
      data = totalsData totals.1 totals.2) ∨ ∃ data, hash = Checksum.sha256 (datasetText data)) :
    StoredKinds s' := by
  intro hash' d hd
  rcases h.found hd with hold | ⟨rfl, -, rfl⟩
  · exact hI hash' d hold
  · exact hnew

omit [Double F] in
theorem StoredKinds.congr {s s' : ResourceState F H} (h : StoredKinds s)
    (hfind : ∀ hash, s'.findDataset hash = s.findDataset hash) : StoredKinds s' := by
  intro hash d hd
  rw [hfind] at hd
  exact h hash d hd

omit [Double F] in
/-- What is stored under the hash of totals are these totals. -/
theorem StoredKinds.data_eq {s : ResourceState F H} (h : StoredKinds s)
    (hsha : Function.Injective (Checksum.sha256 : List Char → H)) {totals : UInt64 × UInt64}
    {d : Dataset H} (hd : s.findDataset (totalsHash totals) = some d) :
    d.data = totalsData totals.1 totals.2 := by
  rcases h _ d hd with ⟨totals', hhash, hdata⟩ | ⟨data, hhash⟩
  · have hsame : totals = totals' := totalsText_inj (hsha hhash)
    rw [hsame]
    exact hdata
  · -- a data set has another text
    exact absurd (hsha hhash) (totalsText_ne_datasetText _ _ _)

/-- With enough votes for a hash the tally finds an agreement. -/
theorem exists_agreed {t : UInt16} {s : ResourceState F H} {r : PeriodRecord} (h0 : 0 < t.toNat)
    (hI : SubmissionInv s r) (hfew : s.getConfig.submittingOracles.length < 256)
    (ht : s.getConfig.oracleConsensusThreshold = t)
    (hstored : ∀ o totals, (o, totals) ∈ r.totals → (s.findDataset (totalsHash totals)).isSome)
    {hash : H} (hle : t.toNat ≤ s.votes 0 hash) :
    ∃ modal modeCount d, Agreed s s.getConfig modal modeCount d := by
  obtain ⟨modal, modeCount, hmode, hreached⟩ :=
    mode_of_le_votes h0 (fun o ho => hI.row ho) hfew hle
  have hvotes := le_votes_of_mode h0 hmode hreached
  -- the modal hash is the one of totals, which are stored
  obtain ⟨o, totals, hmem, hmodal⟩ := hI.exists_totals (lt_of_lt_of_le h0 hvotes)
  obtain ⟨d, hd⟩ := Option.isSome_iff_exists.mp (hstored o totals hmem)
  rw [← hmodal] at hd
  rw [← ht] at hvotes hreached
  exact ⟨modal, modeCount, d, hvotes.trans (votes_le_length s 0 modal), hmode, hreached, hd⟩

/-! ## One step -/

namespace TotalsInv

variable {t : UInt16} {s s' : ResourceState F H} {r : PeriodRecord} {call : ResourceCall F H}

theorem genesis (h0 : 0 < t.toNat) (maxBlockNetUsage : UInt64) (maxBlockCpuUsage : UInt32) :
    TotalsInv t (genesis maxBlockNetUsage maxBlockCpuUsage : ResourceState F H) .empty where
  core := SystemState.genesis_coreToken _ _
  submissions := .genesis _ _
  threshold := fun h => absurd rfl h
  kinds := fun hash d hd => nomatch hd
  stored := fun o totals h => nomatch h
  consensus := by
    constructor
    · exact fun h => nomatch h
    · rintro ⟨hash, h⟩
      rw [votes_nil rfl] at h
      omega
  once := rfl
  agreed := fun totals h => nomatch h

/-- With no oracle there is no agreement. -/
theorem no_votes (h0 : 0 < t.toNat) (horacles : s'.getConfig.submittingOracles = [])
    (htransferred : s'.getConfig.inflationTransferred = false) :
    s'.getConfig.inflationTransferred = true ↔ ∃ hash, t.toNat ≤ s'.votes 0 hash := by
  rw [htransferred]
  constructor
  · exact fun h => nomatch h
  · rintro ⟨hash, h⟩
    rw [votes_nil horacles] at h
    omega

/-- The totals of the period are stored after one more report of totals. -/
theorem stored_concat (hI : TotalsInv t s r) {source : Name} {cpu net : UInt64}
    (hrec : Recorded s s' (Checksum.sha256 (totalsText cpu net)) (totalsData cpu net)) {o : Name}
    {totals : UInt64 × UInt64} (hmem : (o, totals) ∈ r.totals ++ [(source, cpu, net)]) :
    (s'.findDataset (totalsHash totals)).isSome := by
  rw [List.mem_append, List.mem_singleton] at hmem
  cases hmem with
  | inl hold => exact hrec.isSome (hI.stored o totals hold)
  | inr hnew =>
    rw [(Prod.mk.inj hnew).2]
    exact hrec.isSome_self

/-- A report of totals is followed by an issuance exactly if it makes an agreement. -/
theorem totals (h0 : 0 < t.toNat) (hsha : Function.Injective (Checksum.sha256 : List Char → H))
    (hI : TotalsInv t s r) (hsub : SubmissionInv s' (recordPeriod r s call s'))
    (hcore : s'.sys.CoreToken) (hfew : s'.getConfig.submittingOracles.length < 256)
    {source : Name} {cpu net : UInt64} {hash : H} {start : TimePointSec}
    (haction : call.action = .settotalusg source cpu net hash start)
    (hfresh : s.usage.find? source = none)
    (husage : s'.usage = s.usage.set source (totalsUsage cpu net hash))
    (hrec : Recorded s s' (Checksum.sha256 (totalsText cpu net)) (totalsData cpu net))
    (horacles : s'.getConfig.submittingOracles = s.getConfig.submittingOracles ++ [source])
    (hthreshold : s'.getConfig.oracleConsensusThreshold = s.getConfig.oracleConsensusThreshold)
    (hout : TotalsOutcome s call s') : TotalsInv t s' (recordPeriod r s call s') := by
  have hne := hI.submissions.history_ne_empty husage hrec horacles hthreshold hout
  -- the threshold is the one of the whole run
  have ht : s'.getConfig.oracleConsensusThreshold = t := hthreshold.trans (hI.threshold hne)
  have hkinds : StoredKinds s' := hrec.kinds hI.kinds (.inl ⟨(cpu, net), rfl, rfl⟩)
  have htotals : (recordPeriod r s call s').totals = r.totals ++ [(source, cpu, net)] := by
    rw [recordPeriod_totals haction]
  have happended : (recordPeriod r s call s').appended = r.appended ++ appendedBy s call s' := by
    rw [recordPeriod_totals haction]
  -- the new totals are stored, and the old ones stay
  have hstored : ∀ o totals, (o, totals) ∈ (recordPeriod r s call s').totals →
      (s'.findDataset (totalsHash totals)).isSome := by
    intro o totals hmem
    rw [htotals] at hmem
    exact hI.stored_concat hrec hmem
  -- support only grows
  have hgrows : ∀ totals, (r.supporters totals).card ≤
      ((recordPeriod r s call s').supporters totals).card := by
    intro totals
    apply supporters_card_mono
    intro x hx
    rw [htotals]
    exact List.mem_append_left _ hx
  -- and so do the votes
  have hmono : ∀ h, s.votes 0 h ≤ s'.votes 0 h := by
    intro h
    have hnotMem : source ∉ s.getConfig.submittingOracles := by
      rw [hI.submissions.oracles]
      exact hI.submissions.fresh hfresh
    rw [votes_totals hnotMem husage horacles]
    exact Nat.le_add_right _ _
  cases hout with
  | «open» hhist hnoIssue htransferred hdis =>
    -- nothing has been issued
    have happ : (recordPeriod r s call s').appended = r.appended := by
      rw [happended]
      unfold appendedBy
      rw [hnoIssue, List.append_nil]
    refine ⟨hcore, hsub, fun _ => ht, hkinds, hstored, ?_, ?_, fun totals hmem => ?_⟩
    · rw [htransferred]
      by_cases htr : s.getConfig.inflationTransferred = true
      · obtain ⟨h, hle⟩ := hI.consensus.mp htr
        exact ⟨fun _ => ⟨h, hle.trans (hmono h)⟩, fun _ => htr⟩
      · -- with enough votes the tally would have found an agreement
        refine ⟨fun h => absurd h htr, fun ⟨h, hle⟩ => ?_⟩
        obtain ⟨modal, modeCount, d, hagreed⟩ := exists_agreed h0 hsub hfew ht hstored hle
        exact absurd hagreed (hdis (Bool.eq_false_iff.mpr htr) modal modeCount d)
    · rw [happ, htransferred]
      exact hI.once
    · rw [happ] at hmem
      exact (hI.agreed totals hmem).trans (hgrows totals)
  | issued modal modeCount d cpu' net' rest sends k last row sym inflation hwas htransferred
      hagreed hdata hiss hrun hsys hone =>
    -- the modal totals have enough votes
    have hvotes : t.toNat ≤ s'.votes 0 modal :=
      le_votes_of_mode h0 hagreed.tally (by rw [← ht]; exact hagreed.reached)
    obtain ⟨o, totals, hmem, hmodal⟩ := hsub.exists_totals (lt_of_lt_of_le h0 hvotes)
    -- what is stored under the modal hash are the totals
    have hstoredData := hkinds.data_eq hsha (hmodal ▸ hagreed.found)
    rw [hdata] at hstoredData
    have hcpu : cpu'.u = totals.1 := by rw [(List.cons.inj hstoredData).1]
    have hnet : net'.u = totals.2 := by rw [(List.cons.inj (List.cons.inj hstoredData).2).1]
    -- they are the first that are appended in this period
    have hold : r.appended = [] := by
      have hlen := hI.once
      rw [hwas] at hlen
      exact List.length_eq_zero_iff.mp hlen
    have happ : (recordPeriod r s call s').appended = [totals] := by
      rw [happended, hold]
      unfold appendedBy
      rw [hone, hiss.history_eq, Table.last?_set_succ row hiss.lastRow]
      show [(row.totalCpuUs, row.totalNetWords)] = [totals]
      rw [hiss.totalCpuUs, hiss.totalNetWords, hcpu, hnet]
    refine ⟨hcore, hsub, fun _ => ht, hkinds, hstored, ?_, ?_, fun totals' hmem' => ?_⟩
    · exact ⟨fun _ => ⟨modal, hvotes⟩, fun _ => htransferred⟩
    · rw [happ, htransferred]
      rfl
    · -- and have as many supporters as votes
      rw [happ] at hmem'
      rw [List.mem_singleton.mp hmem', ← hsub.votes_eq hsha, ← hmodal]
      exact hvotes

/-- A call keeps the invariant of the totals. -/
theorem step (h0 : 0 < t.toNat) (hsha : Function.Injective (Checksum.sha256 : List Char → H))
    (hI : TotalsInv t s r) (hkeep : KeepsThreshold t call) (hfew : FewOracles s call)
    (h : s.step call = .ok s') : TotalsInv t s' (recordPeriod r s call s') := by
  have hcore := step_coreToken hI.core h
  have hchange := step_period hI.core.token h
  have hsub := hI.submissions.step hchange
  unfold FewOracles at hfew
  rw [Run.next_of_ok h] at hfew
  cases hchange with
  | kept hquiet husage hdatasets hhist hsame hthreshold hunset haccpay =>
    rw [recordPeriod_of_quiet hquiet] at hsub ⊢
    -- no vote has changed, and no text
    have hvotes : ∀ hash, s'.votes 0 hash = s.votes 0 hash :=
      votes_congr hsame.oracles fun o _ => by rw [husage]
    have hfind : ∀ hash, s'.findDataset hash = s.findDataset hash := findDataset_congr hdatasets
    refine ⟨hcore, hsub, fun hne => ?_, ?_, ?_, ?_, ?_, hI.agreed⟩
    · rw [hhist] at hne
      rw [hthreshold, hI.threshold hne]
      exact hkeep
    · exact hI.kinds.congr hfind
    · intro o totals hmem
      rw [hfind]
      exact hI.stored o totals hmem
    · simp only [hsame.transferred, hvotes]
      exact hI.consensus
    · rw [hsame.transferred]
      exact hI.once
  | first hquiet start hempty hhist husage hdatasets horacles htransferred hmade hthreshold =>
    rw [recordPeriod_of_quiet hquiet] at hsub ⊢
    -- before the first configuration the record is empty
    have hr := (hI.submissions.unset hempty).2.2.2
    have hfind : ∀ hash, s'.findDataset hash = s.findDataset hash := findDataset_congr hdatasets
    refine ⟨hcore, hsub, fun _ => ?_, ?_, ?_, no_votes h0 horacles htransferred, ?_, hI.agreed⟩
    · have hset := hkeep
      unfold KeepsThreshold at hset
      rw [← hthreshold] at hset
      exact hset
    · exact hI.kinds.congr hfind
    · intro o totals hmem
      rw [hfind]
      exact hI.stored o totals hmem
    · rw [htransferred, hr]
      rfl
  | totals source cpu net hash start haction hfresh husage hrec horacles hthreshold hmade haccpay
      hout =>
    exact hI.totals h0 hsha hsub hcore hfew haction hfresh husage hrec horacles hthreshold hout
  | dataset source datasetId data start haction htransferred s₁ hsubmit husage hdatasets hhist hsys
      horacles hstill hthreshold hout =>
    obtain ⟨u₀, allocated, hrow, hid, halloc, husage', hrec⟩ :=
      submitDataset_tables hsubmit husage hdatasets
    have hr : (recordPeriod r s call s').totals = r.totals ∧
        (recordPeriod r s call s').appended = r.appended := by
      rw [recordPeriod_dataset haction]
      exact ⟨rfl, rfl⟩
    -- the first hash of the oracle is the one of its totals
    have hlen : 0 ≠ u₀.submissionHashList.length := (hI.submissions.hashes_pos hrow).ne
    refine ⟨hcore, hsub, fun hne => ?_, ?_, ?_, ?_, ?_, ?_⟩
    · rw [hhist] at hne
      rw [hthreshold]
      exact hI.threshold hne
    · -- a data set is another kind of text than totals
      exact hrec.kinds hI.kinds (.inr ⟨data, rfl⟩)
    · intro o totals hmem
      rw [hr.1] at hmem
      exact hrec.isSome (hI.stored o totals hmem)
    · -- so it changes neither the votes on the totals nor their tally
      simp only [hstill, votes_dataset hrow husage' horacles hlen, ← hI.consensus, htransferred]
    · have honce := hI.once
      rw [htransferred] at honce
      rw [hr.2, hstill]
      exact honce
    · intro totals hmem
      rw [hr.2] at hmem
      have hsame : (recordPeriod r s call s').supporters totals = r.supporters totals := by
        unfold PeriodRecord.supporters
        rw [hr.1]
      rw [hsame]
      exact hI.agreed totals hmem
  | next haction husage hdatasets hhist horacles htransferred hmade hthreshold =>
    rw [recordPeriod_next haction] at hsub ⊢
    refine ⟨hcore, hsub, fun hne => ?_, ?_, (fun o totals hmem => nomatch hmem),
      no_votes h0 horacles htransferred, ?_, fun totals hmem => nomatch hmem⟩
    · -- a new period keeps the history and the threshold
      rw [hhist] at hne
      rw [hthreshold]
      exact hI.threshold hne
    · -- and forgets the texts
      intro hash d hd
      unfold findDataset at hd
      rw [hdatasets] at hd
      cases hd
    · rw [htransferred]
      rfl

end TotalsInv

/-! ## Runs -/

/-- The invariant holds after every run with one threshold and few oracles. -/
theorem exec_totalsInv {t : UInt16} (h0 : 0 < t.toNat)
    (hsha : Function.Injective (Checksum.sha256 : List Char → H)) {s : ResourceState F H}
    {r : PeriodRecord} (hI : TotalsInv t s r) {calls : List (ResourceCall F H)}
    (hkeep : ∀ call ∈ calls, KeepsThreshold t call) (hfew : Run.Meets step FewOracles s calls) :
    let p := Run.exec (Run.observed step recordPeriod) (s, r) calls
    TotalsInv t p.1 p.2 := by
  have hstep : ∀ (p : ResourceState F H × PeriodRecord) call q, TotalsInv t p.1 p.2 →
      (KeepsThreshold t call ∧ FewOracles p.1 call) →
      Run.observed step recordPeriod p call = .ok q → TotalsInv t q.1 q.2 := by
    intro p call q hI hcond h
    obtain ⟨hstep, hrec⟩ := Run.observed_eq_ok h
    rw [hrec]
    exact hI.step h0 hsha hcond.1 hcond.2 hstep
  have hmeets : Run.Meets step (fun s call => KeepsThreshold t call ∧ FewOracles s call) s calls :=
    (Run.meets_of_forall hkeep).and hfew
  exact Run.exec_of_meets hstep hI (Run.meets_observed recordPeriod r hmeets)

/-- In every run with the threshold `t` and fewer than 256 oracles in a period: inflation has
    been transferred exactly if `t` oracles have submitted the same totals in the period, this
    has happened at most once, and the row that it has added has such totals. -/
theorem totals_consensus {t : UInt16} (h0 : 0 < t.toNat)
    (hsha : Function.Injective (Checksum.sha256 : List Char → H)) (maxBlockNetUsage : UInt64)
    (maxBlockCpuUsage : UInt32) {calls : List (ResourceCall F H)}
    (hkeep : ∀ call ∈ calls, KeepsThreshold t call)
    (hfew : Run.Meets step FewOracles (genesis maxBlockNetUsage maxBlockCpuUsage) calls) :
    let p := Run.exec (Run.observed step recordPeriod)
      (genesis maxBlockNetUsage maxBlockCpuUsage, .empty) calls
    (p.1.getConfig.inflationTransferred = true ↔
      ∃ totals, t.toNat ≤ (p.2.supporters totals).card) ∧
    p.2.appended.length ≤ 1 ∧
    ∀ totals ∈ p.2.appended, t.toNat ≤ (p.2.supporters totals).card := by
  intro p
  have hI : TotalsInv t p.1 p.2 :=
    exec_totalsInv h0 hsha (.genesis h0 maxBlockNetUsage maxBlockCpuUsage) hkeep hfew
  refine ⟨?_, ?_, hI.agreed⟩
  · rw [hI.consensus]
    constructor
    · rintro ⟨hash, hle⟩
      obtain ⟨o, totals, -, hhash⟩ := hI.submissions.exists_totals (lt_of_lt_of_le h0 hle)
      rw [hhash, hI.submissions.votes_eq hsha] at hle
      exact ⟨totals, hle⟩
    · rintro ⟨totals, hle⟩
      rw [← hI.submissions.votes_eq hsha] at hle
      exact ⟨_, hle⟩
  · rw [hI.once]
    split
    · exact le_refl _
    · exact Nat.zero_le _

/-- Two of three oracles agree. -/
def Sample.agreeing : List (ResourceCall Rat (List Char)) :=
  setup 2 ++ [totals SystemState.Sample.alice 1000000 2000, totals carol 999999 2000,
    totals SystemState.Sample.bob 1000000 2000]

open Sample in
/-- The totals of the two oracles are in the history of the sample. -/
theorem totals_consensus_sample :
    let p := Run.exec (Run.observed step recordPeriod) (start, .empty) agreeing
    p.1.getConfig.inflationTransferred = true ∧ p.2.appended = [(1000000, 2000)] ∧
      2 ≤ (p.2.supporters (1000000, 2000)).card := by
  have hkeep : ∀ call ∈ agreeing, KeepsThreshold 2 call := by decide +kernel
  have hfew : Run.Meets step FewOracles start agreeing := by decide +kernel
  have hsample := totals_consensus (t := 2) (by decide) Function.injective_id 1048576 200000 hkeep hfew
  have happended : (Run.exec (Run.observed step recordPeriod) (start, .empty) agreeing).2.appended =
      [(1000000, 2000)] := by
    decide +kernel
  unfold Sample.start at happended ⊢
  have hcard := hsample.2.2 (1000000, 2000) (by rw [happended]; exact List.mem_singleton.mpr rfl)
  exact ⟨hsample.1.mpr ⟨_, hcard⟩, happended, hcard⟩

end ResourceState

end UxContracts
