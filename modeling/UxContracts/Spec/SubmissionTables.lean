import UxContracts.Spec.Submissions
import UxContracts.Spec.UtilityPool

/-!
# The tables of the submissions agree

The oracles of a period are listed in the configuration, and what they have submitted is
in the usage table. `initresource` resets the first and not the second, and the lookups of
the listed oracles are not checked. In every state that a run reaches the two agree all
the same (`submission_tables`): each listed oracle has a row, and what it has not yet
allocated is a difference that does not wrap.
-/

namespace UxContracts

namespace ResourceState

variable {F H : Type} [Checksum H]

/-! ## Allocated CPU -/

omit [Checksum H] in
/-- An allocation adds the CPU of its data set and stays within the total. -/
theorem allocate_spec {total allocated allocated' : UInt64} {data : List Metric}
    (hle : allocated ≤ total) (h : allocate total allocated data = .ok allocated') :
    allocated' ≤ total ∧ allocated'.toNat = allocated.toNat + cpuOf data := by
  -- induction on the entries of the data set
  induction data generalizing allocated with
  | nil =>
    cases h
    exact ⟨hle, rfl⟩
  | cons m data ih =>
    simp only [allocate, bind_eq_ok, check_eq_ok] at h
    obtain ⟨_, -, _, hfits, h⟩ := h
    -- what is left of the total is enough, so the sum does not wrap
    have hle := UInt64.le_iff_toNat_le.mp hle
    have hfits := UInt64.le_iff_toNat_le.mp hfits
    rw [UInt64.toNat_sub_of_le _ _ (UInt64.le_iff_toNat_le.mpr hle)] at hfits
    have htotal := total.toNat_lt
    have hsum : (allocated + m.u).toNat = allocated.toNat + m.u.toNat := by
      rw [UInt64.toNat_add]
      exact Nat.mod_eq_of_lt (by omega)
    obtain ⟨hle', heq⟩ := ih (UInt64.le_iff_toNat_le.mpr (by omega)) h
    refine ⟨hle', ?_⟩
    rw [heq, hsum]
    simp only [cpuOf, List.map_cons, List.sum_cons]
    omega

/-! ## Rows -/

/-- The data sets that have been accepted from each oracle since its totals. -/
def recordAccepted (accepted : Name → List (List Metric)) (_ : ResourceState F H)
    (call : ResourceCall F H) (_ : ResourceState F H) : Name → List (List Metric) :=
  match call.action with
  | .settotalusg source .. => Function.update accepted source []
  | .addactusg source _ dataset _ =>
    Function.update accepted source (accepted source ++ [dataset])
  | _ => accepted

omit [Checksum H] in
/-- Only reports are accepted. -/
theorem recordAccepted_of_quiet {accepted : Name → List (List Metric)} {s s' : ResourceState F H}
    {call : ResourceCall F H} (h : isReport call.action = false) :
    recordAccepted accepted s call s' = accepted := by
  obtain ⟨ctx, action⟩ := call
  cases action with
  | settotalusg => cases h
  | addactusg => cases h
  | _ => rfl

/-- A row has the hash of its own totals first, and has allocated the CPU of the data sets
    that have been accepted. -/
structure RowAgrees (u : SystemUsage H) (accepted : List (List Metric)) : Prop where
  first : u.submissionHashList.head? = some (totalsHash (u.totalCpuUs, u.totalNetWords))
  allocated : u.allocatedCpu.toNat = (accepted.map cpuOf).sum
  le_total : u.allocatedCpu ≤ u.totalCpuUs

/-- A new row has the totals and no data sets. -/
theorem RowAgrees.totals (cpu net : UInt64) (hash : H) : RowAgrees (totalsUsage cpu net hash) [] where
  first := rfl
  allocated := rfl
  le_total := UInt64.le_iff_toNat_le.mpr (Nat.zero_le _)

/-- An accepted data set is appended, and its CPU allocated. -/
theorem RowAgrees.addDataset {u : SystemUsage H} {accepted : List (List Metric)}
    (h : RowAgrees u accepted) {allocated : UInt64} {data : List Metric}
    (halloc : allocate u.totalCpuUs u.allocatedCpu data = .ok allocated) :
    RowAgrees (addDataset u allocated data) (accepted ++ [data]) := by
  obtain ⟨hle, heq⟩ := allocate_spec h.le_total halloc
  refine ⟨?_, ?_, hle⟩
  · show (u.submissionHashList ++ [_]).head? = _
    rw [List.head?_append, h.first]
    rfl
  · show allocated.toNat = _
    rw [heq, h.allocated, List.map_append, List.sum_append, List.map_singleton, List.sum_singleton]

variable [Double F]

/-- The oracles that are listed are those with a row, each once, and the rows agree with what
    has been accepted. -/
structure TablesAgree (s : ResourceState F H) (accepted : Name → List (List Metric)) : Prop where
  nodup : s.getConfig.submittingOracles.Nodup
  listed : ∀ o, o ∈ s.getConfig.submittingOracles ↔ (s.usage.find? o).isSome
  rows : ∀ o u, s.usage.find? o = some u → RowAgrees u (accepted o)

/-- A call keeps the agreement of the rows. -/
theorem step_rowAgrees {s s' : ResourceState F H} {accepted : Name → List (List Metric)}
    {call : ResourceCall F H} (hrows : ∀ o u, s.usage.find? o = some u → RowAgrees u (accepted o))
    (h : PeriodChange s call s') {o : Name} {u : SystemUsage H} (hu : s'.usage.find? o = some u) :
    RowAgrees u (recordAccepted accepted s call s' o) := by
  cases h with
  -- no row is written
  | kept hquiet husage =>
    rw [recordAccepted_of_quiet hquiet]
    rw [husage] at hu
    exact hrows o u hu
  | first hquiet start hempty hhist husage =>
    rw [recordAccepted_of_quiet hquiet]
    rw [husage] at hu
    exact hrows o u hu
  | totals source cpu net hash start haction hfresh husage =>
    unfold recordAccepted
    rw [haction]
    simp only
    rw [husage, Table.find?_set] at hu
    split at hu
    · -- a new row starts with no data set
      rename_i hos
      cases hu
      rw [hos, Function.update_self]
      exact .totals cpu net hash
    · -- the rows of the others
      rename_i hos
      rw [Function.update_of_ne hos]
      exact hrows o u hu
  | dataset source datasetId data start haction htransferred s₁ hsubmit husage =>
    obtain ⟨u₀, allocated, hrow, -, halloc, hs₁, -⟩ := submitDataset_spec hsubmit
    unfold recordAccepted
    rw [haction]
    simp only
    rw [husage, hs₁, Table.find?_set] at hu
    split at hu
    · -- the data set is appended to the row of its oracle
      rename_i hos
      cases hu
      rw [hos, Function.update_self]
      exact (hrows source u₀ hrow).addDataset halloc
    · rename_i hos
      rw [Function.update_of_ne hos]
      exact hrows o u hu
  | next haction husage =>
    -- a new period has no rows
    rw [husage, Table.find?_empty] at hu
    cases hu

/-- The invariant of the tables: the rows agree, next to a record of the submissions. -/
structure TablesInv (s : ResourceState F H) (accepted : Name → List (List Metric)) : Prop where
  core : s.sys.CoreToken
  submissions : ∃ r, SubmissionInv s r
  rows : ∀ o u, s.usage.find? o = some u → RowAgrees u (accepted o)

namespace TablesInv

variable {s s' : ResourceState F H} {accepted : Name → List (List Metric)}
  {call : ResourceCall F H}

theorem genesis (maxBlockNetUsage : UInt64) (maxBlockCpuUsage : UInt32) :
    TablesInv (genesis maxBlockNetUsage maxBlockCpuUsage : ResourceState F H) fun _ => [] where
  core := SystemState.genesis_coreToken _ _
  submissions := ⟨.empty, .genesis _ _⟩
  rows := fun o u hu => by
    have hnone : (∅ : Table Name (SystemUsage H)).find? o = some u := hu
    rw [Table.find?_empty] at hnone
    cases hnone

/-- A call keeps the rows in line with what has been accepted. -/
theorem step (hI : TablesInv s accepted) (h : s.step call = .ok s') :
    TablesInv s' (recordAccepted accepted s call s') := by
  obtain ⟨r, hsub⟩ := hI.submissions
  have hchange := step_period hI.core.token h
  exact ⟨step_coreToken hI.core h, ⟨_, hsub.step hchange⟩,
    fun o u hu => step_rowAgrees hI.rows hchange hu⟩

theorem agree (hI : TablesInv s accepted) : TablesAgree s accepted := by
  obtain ⟨r, hsub⟩ := hI.submissions
  refine ⟨hsub.oracles_nodup, fun o => ⟨fun ho => hsub.row ho, fun ho => ?_⟩, hI.rows⟩
  obtain ⟨u, hu⟩ := Option.isSome_iff_exists.mp ho
  rw [hsub.oracles]
  exact hsub.known o u hu

end TablesInv

/-! ## Lookups -/

/-- The message of a lookup whose row is missing. -/
def lookupErrors : List String := ["cannot dereference end iterator"]

omit [Double F] in
/-- Where the oracles of the list have their rows, counting their votes misses none. -/
theorem modalHash_avoids {s : ResourceState F H} {pick : SystemUsage H → Option H}
    {oracles : List Name} (hrows : ∀ o ∈ oracles, (s.usage.find? o).isSome) :
    Avoids lookupErrors (s.modalHash pick oracles) := by
  intro e he
  rw [modalHash_eq_ok.mpr ⟨hrows, rfl⟩] at he
  cases he

omit [Double F] in
/-- Where the oracles of the list have their rows, scoring them misses none. -/
theorem scoreOracles_avoids {s : ResourceState F H} {modal : H} {oracles : List Name}
    (hrows : ∀ o ∈ oracles, (s.usage.find? o).isSome) (sources : Table Name Source) (full : Nat) :
    Avoids lookupErrors (s.scoreOracles modal sources full oracles) := by
  induction oracles generalizing sources full with
  | nil => exact avoids_ok
  | cons o oracles ih =>
    obtain ⟨u, hu⟩ := Option.isSome_iff_exists.mp (hrows o List.mem_cons_self)
    unfold scoreOracles
    refine avoids_bind (fun e he => ?_) fun _ _ =>
      ih (fun o ho => hrows o (List.mem_cons_of_mem _ ho)) _ _
    rw [getRow_eq_ok.mpr hu] at he
    cases he

/-! The other steps of the reports fail with other messages. -/

section

omit [Checksum H]

omit [Double F] in
theorem make_avoids (x : Int64) (sym : Symbol) : Avoids lookupErrors (Asset.make x sym) := by
  refine avoids_bind (avoids_check (by decide)) fun _ _ => ?_
  exact avoids_bind (avoids_check (by decide)) fun _ _ => avoids_pure

omit [Double F] in
theorem add_avoids (a b : Asset) : Avoids lookupErrors (a.add b) := by
  refine avoids_bind (avoids_check (by decide)) fun _ _ => ?_
  refine avoids_bind (avoids_check (by decide)) fun _ _ => ?_
  exact avoids_bind (avoids_check (by decide)) fun _ _ => avoids_pure

omit [Double F] in
theorem sub_avoids (a b : Asset) : Avoids lookupErrors (a.sub b) := by
  refine avoids_bind (avoids_check (by decide)) fun _ _ => ?_
  refine avoids_bind (avoids_check (by decide)) fun _ _ => ?_
  exact avoids_bind (avoids_check (by decide)) fun _ _ => avoids_pure

omit [Double F] in
theorem compare_avoids (r : Int64 → Int64 → Bool) (a b : Asset) :
    Avoids lookupErrors (Asset.compare r a b) :=
  avoids_bind (avoids_check (by decide)) fun _ _ => avoids_pure

theorem toInt64_avoids (x : F) : Avoids lookupErrors (Double.toInt64 x) := by
  unfold Double.toInt64
  split
  · exact avoids_ite avoids_ok (avoids_error (by decide))
  · exact avoids_error (by decide)

omit [Double F] in
theorem coreSymbol_avoids (sys : SystemState F) : Avoids lookupErrors sys.coreSymbol := by
  unfold SystemState.coreSymbol
  split
  · exact avoids_ok
  · exact avoids_error (by decide)

omit [Double F] in
theorem lastRow_avoids {V : Type} (t : Table Nat V) : Avoids lookupErrors (Table.lastRow t) := by
  unfold Table.lastRow
  split
  · exact avoids_ok
  · exact avoids_error (by decide)

omit [Double F] in
theorem availablePrimaryKey_avoids {V : Type} (t : Table Nat V) :
    Avoids lookupErrors (Table.availablePrimaryKey t) := by
  unfold Table.availablePrimaryKey
  exact avoids_ite avoids_ok (avoids_error (by decide))

theorem shareOf_avoids (rate : F) (supply : Asset) (sym : Symbol) :
    Avoids lookupErrors (shareOf rate supply sym) :=
  avoids_bind (toInt64_avoids _) fun _ _ => make_avoids _ _

/-- Setting the totals looks up no submission. -/
theorem setTotal_avoids (s : ResourceState F H) (cpu net : UInt64) (start : TimePointSec) :
    Avoids lookupErrors (s.setTotal cpu net start) := by
  refine avoids_bind (lastRow_avoids _) fun _ _ => ?_
  refine avoids_bind (avoids_check (by decide)) fun _ _ => ?_
  refine avoids_bind (avoids_check (by decide)) fun _ _ => ?_
  refine avoids_bind (avoids_check (by decide)) fun _ _ => ?_
  refine avoids_bind (availablePrimaryKey_avoids _) fun _ _ => ?_
  refine avoids_bind (coreSymbol_avoids _) fun _ _ => ?_
  refine avoids_bind ?_ fun _ _ => ?_
  · exact avoids_bind (avoids_getRow (by decide)) fun _ _ => avoids_pure
  refine avoids_bind ?_ fun _ _ => avoids_pure
  refine avoids_bind (shareOf_avoids _ _ _) fun _ _ => ?_
  exact avoids_bind (shareOf_avoids _ _ _) fun _ _ => avoids_pure

theorem fitSupply_avoids (row : UsageHistory F) (inflation remaining : Asset) (sym : Symbol) :
    Avoids lookupErrors (fitSupply row inflation remaining sym) := by
  refine avoids_bind (compare_avoids _ _ _) fun _ _ => ?_
  split
  · refine avoids_bind (toInt64_avoids _) fun _ _ => ?_
    refine avoids_bind (make_avoids _ _) fun _ _ => ?_
    refine avoids_bind (sub_avoids _ _) fun _ _ => ?_
    exact avoids_bind (add_avoids _ _) fun _ _ => avoids_pure
  · exact avoids_pure

omit [Double F] in
theorem creditProducers_avoids (earned : Asset) (t : Table Name ProducerPay) (ps : List Name) :
    Avoids lookupErrors (creditProducers earned t ps) := by
  induction ps generalizing t with
  | nil => exact avoids_ok
  | cons p ps ih =>
    unfold creditProducers
    split
    · exact ih _
    · exact avoids_bind (add_avoids _ _) fun _ _ => ih _

/-- An issuance looks up no submission. -/
theorem issueInflation_avoids (s : ResourceState F H) (start : TimePointSec) :
    Avoids lookupErrors (s.issueInflation start) := by
  refine avoids_bind (lastRow_avoids _) fun _ _ => ?_
  refine avoids_bind (add_avoids _ _) fun _ _ => ?_
  refine avoids_bind (coreSymbol_avoids _) fun _ _ => ?_
  refine avoids_bind ?_ fun _ _ => ?_
  · refine avoids_bind (make_avoids _ _) fun _ _ => ?_
    refine avoids_bind (avoids_check (by decide)) fun _ _ => ?_
    exact avoids_bind (avoids_check (by decide)) fun _ _ => avoids_pure
  refine avoids_bind (compare_avoids _ _ _) fun _ _ => ?_
  refine avoids_bind (avoids_check (by decide)) fun _ _ => ?_
  refine avoids_bind (avoids_getRow (by decide)) fun _ _ => ?_
  refine avoids_bind (sub_avoids _ _) fun _ _ => ?_
  refine avoids_bind (avoids_check (by decide)) fun _ _ => ?_
  refine avoids_bind (fitSupply_avoids _ _ _ _) fun _ _ => ?_
  refine avoids_bind (avoids_check (by decide)) fun _ _ => ?_
  refine avoids_bind (avoids_check (by decide)) fun _ _ => ?_
  refine avoids_bind (make_avoids _ _) fun _ _ => ?_
  exact avoids_bind (avoids_ite (creditProducers_avoids _ _ _) avoids_pure) fun _ _ => avoids_pure

theorem payAccounts_avoids (total : UInt64) (pool : Int64) (sym : Symbol) (start : TimePointSec)
    (t : Table Name AccountPay) (data : List Metric) :
    Avoids lookupErrors (payAccounts (F := F) total pool sym start t data) := by
  induction data generalizing t with
  | nil => exact avoids_ok
  | cons m data ih =>
    unfold payAccounts
    refine avoids_bind (toInt64_avoids _) fun _ _ => ?_
    refine avoids_bind (make_avoids _ _) fun _ _ => ?_
    split
    · exact ih _
    · exact avoids_bind (add_avoids _ _) fun _ _ => ih _

omit [Double F] in
theorem allocate_avoids (total allocated : UInt64) (data : List Metric) :
    Avoids lookupErrors (allocate total allocated data) := by
  induction data generalizing allocated with
  | nil => exact avoids_ok
  | cons m data ih =>
    unfold allocate
    refine avoids_bind (avoids_check (by decide)) fun _ _ => ?_
    exact avoids_bind (avoids_check (by decide)) fun _ _ => ih _

end

omit [Double F] in
theorem recordDataset_avoids (s : ResourceState F H) (hash : H) (data : List Metric) :
    Avoids lookupErrors (s.recordDataset hash data) := by
  unfold recordDataset
  split
  · exact avoids_ok
  · exact avoids_bind (availablePrimaryKey_avoids _) fun _ _ => avoids_pure

/-- A transfer of inflation finds the rows that it counts, -/
theorem transferInflation_avoids {s : ResourceState F H} {cfg : ResourceConfig F}
    (hrows : ∀ o ∈ cfg.submittingOracles, (s.usage.find? o).isSome) (start : TimePointSec) :
    Avoids lookupErrors (s.transferInflation cfg start) := by
  unfold transferInflation
  refine avoids_ite (avoids_bind (modalHash_avoids hrows) fun _ _ => ?_) avoids_ok
  refine avoids_ite ?_ avoids_pure
  split
  · split
    · refine avoids_bind (setTotal_avoids _ _ _ _) fun _ _ => ?_
      exact avoids_bind (issueInflation_avoids _ _) fun _ _ => avoids_pure
    · exact avoids_error (by decide)
  · exact avoids_pure

/-- A distribution finds the rows that it counts. -/
theorem distributeDataset_avoids {s : ResourceState F H} {cfg : ResourceConfig F}
    (hrows : ∀ o ∈ cfg.submittingOracles, (s.usage.find? o).isSome) (datasetId : UInt16)
    (start : TimePointSec) : Avoids lookupErrors (s.distributeDataset cfg datasetId start) := by
  refine avoids_bind ?_ fun due _ => ?_
  · unfold dueDataset
    refine avoids_ite (avoids_bind (modalHash_avoids hrows) fun _ _ => ?_) avoids_ok
    exact avoids_ite avoids_pure avoids_pure
  · cases due with
    | none => exact avoids_pure
    | some data =>
      refine avoids_bind (lastRow_avoids _) fun _ _ => ?_
      refine avoids_bind (coreSymbol_avoids _) fun _ _ => ?_
      exact avoids_bind (payAccounts_avoids _ _ _ _ _ _) fun _ _ => avoids_pure

/-! ## The actions -/

namespace TablesAgree

variable {s : ResourceState F H} {accepted : Name → List (List Metric)}

/-- Every listed oracle has a row, also when an oracle has got a new one. -/
theorem row_set (h : TablesAgree s accepted) (source : Name) (u : SystemUsage H) {o : Name}
    (ho : o = source ∨ o ∈ s.getConfig.submittingOracles) :
    ((s.usage.set source u).find? o).isSome := by
  rw [Table.find?_set]
  split
  · rfl
  · rename_i hos
    exact (h.listed o).mp (ho.resolve_left hos)

/-- No lookup fails while totals are reported. -/
theorem settotalusg_avoids (h : TablesAgree s accepted) (ctx : Context) (source : Name)
    (cpu net : UInt64) (hash : H) (start : TimePointSec) :
    Avoids lookupErrors (s.settotalusg ctx source cpu net hash start) := by
  refine avoids_bind (avoids_check (by decide)) fun _ _ => ?_
  refine avoids_bind (avoids_check (by decide)) fun _ _ => ?_
  refine avoids_bind (avoids_check (by decide)) fun _ _ => ?_
  refine avoids_bind (avoids_check (by decide)) fun _ _ => ?_
  refine avoids_bind (avoids_check (by decide)) fun _ _ => ?_
  refine avoids_bind (avoids_check (by decide)) fun _ _ => ?_
  refine avoids_bind (avoids_check (by decide)) fun _ _ => ?_
  refine avoids_bind (recordDataset_avoids _ _ _) fun s₁ hrec => ?_
  refine avoids_bind (transferInflation_avoids (fun o ho => ?_) start) fun _ _ => avoids_pure
  -- the row of the new oracle has been stored before the tally
  obtain ⟨hs₁, -⟩ := recordDataset_spec hrec
  rw [hs₁]
  apply h.row_set source
  rcases List.mem_append.mp ho with hold | hnew
  · exact .inr hold
  · exact .inl (List.mem_singleton.mp hnew)

/-- No lookup fails while data sets are reported. -/
theorem addactusg_avoids (h : TablesAgree s accepted) (ctx : Context) (source : Name)
    (datasetId : UInt16) (dataset : List Metric) (start : TimePointSec) :
    Avoids lookupErrors (s.addactusg ctx source datasetId dataset start) := by
  refine avoids_bind (avoids_check (by decide)) fun _ _ => ?_
  refine avoids_bind (avoids_check (by decide)) fun _ _ => ?_
  refine avoids_bind (avoids_check (by decide)) fun _ _ => ?_
  refine avoids_bind (avoids_check (by decide)) fun _ _ => ?_
  refine avoids_bind (avoids_check (by decide)) fun _ _ => ?_
  refine avoids_bind (avoids_check (by decide)) fun _ _ => ?_
  refine avoids_bind ?_ fun s₁ hsubmit => ?_
  · refine avoids_bind (avoids_getRow (by decide)) fun _ _ => ?_
    refine avoids_bind (avoids_check (by decide)) fun _ _ => ?_
    refine avoids_bind (allocate_avoids _ _ _) fun _ _ => ?_
    exact recordDataset_avoids _ _ _
  refine avoids_bind (distributeDataset_avoids (fun o ho => ?_) datasetId start) fun _ _ =>
    avoids_pure
  obtain ⟨u, allocated, -, -, -, hs₁, -⟩ := submitDataset_spec hsubmit
  rw [hs₁]
  exact h.row_set source _ (.inr ho)

/-- No lookup fails while a period closes. -/
theorem nextperiod_avoids (h : TablesAgree s accepted) (ctx : Context) :
    Avoids lookupErrors (s.nextperiod ctx) := by
  have hrows : ∀ o ∈ s.getConfig.submittingOracles, (s.usage.find? o).isSome :=
    fun o ho => (h.listed o).mp ho
  refine avoids_bind (avoids_check (by decide)) fun _ _ => ?_
  refine avoids_bind (avoids_check (by decide)) fun _ _ => ?_
  refine avoids_bind (avoids_ite (modalHash_avoids hrows) avoids_pure) fun _ _ => ?_
  refine avoids_bind (coreSymbol_avoids _) fun _ _ => ?_
  refine avoids_bind (avoids_ite (scoreOracles_avoids hrows _ _) avoids_pure) fun _ _ => ?_
  exact avoids_bind (avoids_check (by decide)) fun _ _ => avoids_pure

end TablesAgree

/-- The tables agree with the record after every run. -/
theorem exec_tablesInv (maxBlockNetUsage : UInt64) (maxBlockCpuUsage : UInt32)
    (calls : List (ResourceCall F H)) :
    let p := Run.exec (Run.observed step recordAccepted)
      (genesis maxBlockNetUsage maxBlockCpuUsage, fun _ => []) calls
    TablesInv p.1 p.2 := by
  have hstep : ∀ (p : ResourceState F H × (Name → List (List Metric))) call q,
      TablesInv p.1 p.2 → Run.observed step recordAccepted p call = .ok q →
      TablesInv q.1 q.2 := by
    intro p call q hI h
    obtain ⟨hstep, hrec⟩ := Run.observed_eq_ok h
    rw [hrec]
    exact hI.step hstep
  exact Run.exec_induction hstep (TablesInv.genesis maxBlockNetUsage maxBlockCpuUsage) calls

/-- There is a row for each of the listed oracles in every state that a run reaches. -/
theorem exec_oracle_rows (maxBlockNetUsage : UInt64) (maxBlockCpuUsage : UInt32)
    (calls : List (ResourceCall F H)) :
    let s := Run.exec step (genesis maxBlockNetUsage maxBlockCpuUsage) calls
    ∀ o ∈ s.getConfig.submittingOracles, (s.usage.find? o).isSome := by
  intro s o ho
  have h := (exec_tablesInv maxBlockNetUsage maxBlockCpuUsage calls).agree
  rw [Run.exec_observed_fst] at h
  exact (h.listed o).mp ho

/-- In every state that a run reaches: the listed oracles are those with a row, each once, and
    each row agrees with what has been accepted from its oracle since its totals; no lookup of
    a listed oracle misses its row; and what a row has not allocated yet is a difference that
    does not wrap, also after any entries have been added to it. -/
theorem submission_tables (maxBlockNetUsage : UInt64) (maxBlockCpuUsage : UInt32)
    (calls : List (ResourceCall F H)) :
    let p := Run.exec (Run.observed step recordAccepted)
      (genesis maxBlockNetUsage maxBlockCpuUsage, fun _ => []) calls
    TablesAgree p.1 p.2 ∧
    (∀ ctx source cpu net hash start,
      Avoids lookupErrors (p.1.settotalusg ctx source cpu net hash start)) ∧
    (∀ ctx source datasetId dataset start,
      Avoids lookupErrors (p.1.addactusg ctx source datasetId dataset start)) ∧
    (∀ ctx, Avoids lookupErrors (p.1.nextperiod ctx)) ∧
    ∀ o u entries allocated, p.1.usage.find? o = some u →
      allocate u.totalCpuUs u.allocatedCpu entries = .ok allocated →
      allocated ≤ u.totalCpuUs ∧
        (u.totalCpuUs - allocated).toNat = u.totalCpuUs.toNat - allocated.toNat := by
  intro p
  have h := (exec_tablesInv maxBlockNetUsage maxBlockCpuUsage calls).agree
  refine ⟨h, h.settotalusg_avoids, h.addactusg_avoids, h.nextperiod_avoids,
    fun o u entries allocated hu halloc => ?_⟩
  obtain ⟨hle, -⟩ := allocate_spec (h.rows o u hu).le_total halloc
  exact ⟨hle, UInt64.toNat_sub_of_le _ _ hle⟩

end ResourceState

end UxContracts
