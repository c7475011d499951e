import UxContracts.Spec.HistoryChange

/-!
# Updates of the resource configuration

`settotalusg`, `set_total` and `issue_inflation` each load the configuration and write the whole
record back. The write of `settotalusg` is the last one, and it goes back to the oldest load:
what `issue_inflation` has written is lost (`issuance_config`).
-/

namespace UxContracts

namespace ResourceState

variable {F H : Type}

/-- The start of the period that an action sets. -/
def newStart : ResourceAction F H → Option TimePointSec
  | .initresource _ _ start _ _ _ => some start
  | _ => none

variable [Checksum H] [Double F]

/-- The changes that the three functions make to the configuration, none of them lost. -/
def allUpdates (cfg : ResourceConfig F) (source : Name) (start : TimePointSec) :
    ResourceConfig F :=
  { cfg with
    submittingOracles := cfg.submittingOracles ++ [source]
    inflationTransferred := true
    lastPeriodInflationPrint := start }

/-- Nothing has been done, or the flag is set in the configuration of the caller. -/
theorem transferInflation_config {s s' : ResourceState F H} {cfg cfg' : ResourceConfig F}
    {start : TimePointSec} {sends : List InlineAction}
    (h : s.transferInflation cfg start = .ok (s', cfg', sends)) :
    (s' = s ∧ cfg' = cfg) ∨ cfg' = { cfg with inflationTransferred := true } := by
  unfold transferInflation at h
  split at h
  · simp only [bind_eq_ok] at h
    obtain ⟨⟨modal, modeCount⟩, -, h⟩ := h
    split at h
    · split at h
      · split at h
        · -- the only branch that issues: the new state is dropped from the configuration
          simp only [bind_eq_ok, pure_eq_ok, Prod.mk.injEq] at h
          obtain ⟨s₁, -, ⟨s₂, sends'⟩, -, -, rfl, -⟩ := h
          exact .inr rfl
        · cases h
      · simp only [pure_eq_ok, Prod.mk.injEq] at h
        exact .inl ⟨h.1.symm, h.2.1.symm⟩
    · simp only [pure_eq_ok, Prod.mk.injEq] at h
      exact .inl ⟨h.1.symm, h.2.1.symm⟩
  · simp only [Except.ok.injEq, Prod.mk.injEq] at h
    exact .inl ⟨h.1.symm, h.2.1.symm⟩

/-- No action sets the limit of the averages, and the start of the period is changed by
    `initresource` and `nextperiod` only. -/
theorem step_config {s s' : ResourceState F H} {call : ResourceCall F H}
    (h : s.step call = .ok s') :
    s'.getConfig.emadraglimit = s.getConfig.emadraglimit ∧
      (call.action ≠ .nextperiod →
        s'.getConfig.periodStart = (newStart call.action).getD s.getConfig.periodStart) := by
  obtain ⟨ctx, action⟩ := call
  cases action with
  | initresource batch threshold start seconds rate maxPay =>
    simp only [step, initresource, bind_eq_ok] at h
    obtain ⟨_, -, h⟩ := h
    split at h
    · -- the first configuration
      simp only [bind_eq_ok, pure_eq_ok] at h
      obtain ⟨pk, -, rfl⟩ := h
      exact ⟨rfl, fun _ => rfl⟩
    · -- a later one overwrites the parameters only
      simp only [pure_eq_ok] at h
      rw [← h]
      exact ⟨rfl, fun _ => rfl⟩
  | resactivate active =>
    rw [resactivate_spec h]
    exact ⟨rfl, fun _ => rfl⟩
  | settotalusg source cpu net hash start =>
    obtain ⟨u, sends, token, hr, -, rfl⟩ := commit_eq_ok.mp h
    obtain ⟨-, -, s₁, s₂, cfg, -, -, htransfer, rfl⟩ := settotalusg_spec hr
    -- the totals may issue, and leave the rest of the configuration
    rcases transferInflation_config htransfer with ⟨-, rfl⟩ | rfl
    · exact ⟨rfl, fun _ => rfl⟩
    · exact ⟨rfl, fun _ => rfl⟩
  | addactusg source datasetId dataset start =>
    obtain ⟨-, s₁, s₂, cfg, -, hdist, rfl⟩ := addactusg_spec h
    -- the data set may be paid
    rcases distributeDataset_spec hdist with ⟨-, -, rfl⟩ | ⟨data, -, -, -, rfl⟩
    · exact ⟨rfl, fun _ => rfl⟩
    · exact ⟨rfl, fun _ => rfl⟩
  | nextperiod =>
    obtain ⟨sources, rfl⟩ := nextperiod_spec h
    -- a new period alone resets the counters
    exact ⟨rfl, fun hne => absurd rfl hne⟩
  | claimdistrib account =>
    obtain ⟨u, sends, token, hr, -, rfl⟩ := commit_eq_ok.mp h
    obtain ⟨pay, -, rfl, -⟩ := claimdistrib_spec hr
    exact ⟨rfl, fun _ => rfl⟩
  | claimrewards owner =>
    obtain ⟨u, sends, token, hr, -, rfl⟩ := commit_eq_ok.mp h
    obtain ⟨pay, balance, time, -, -, -, rfl, -⟩ := claimrewards_spec hr
    exact ⟨rfl, fun _ => rfl⟩
  | system action =>
    -- the other contracts do not touch the configuration
    simp only [step, bind_eq_ok, pure_eq_ok] at h
    obtain ⟨sys, -, rfl⟩ := h
    exact ⟨rfl, fun _ => rfl⟩

/-- After an issuance the configuration has the oracle and the flag, and nothing else is new. -/
theorem settotalusg_config {ctx : Context} {s s' : ResourceState F H} {source : Name}
    {cpu net : UInt64} {hash : H} {start : TimePointSec} {sends : List InlineAction}
    (h : s.settotalusg ctx source cpu net hash start = .ok (s', sends))
    (hgrown : s.history.size < s'.history.size) :
    s'.getConfig = { s.getConfig with
      submittingOracles := s.getConfig.submittingOracles ++ [source]
      inflationTransferred := true } := by
  obtain ⟨-, -, s₁, s₂, cfg, hs₁, -, htransfer, rfl⟩ := settotalusg_spec h
  rcases transferInflation_config htransfer with ⟨rfl, -⟩ | rfl
  · -- without an issuance the history is the same
    have hkept : (s₂.setConfig cfg).history = s.history := by
      show s₂.history = s.history
      rw [hs₁]
    rw [hkept] at hgrown
    exact absurd hgrown (Nat.lt_irrefl _)
  · rfl

/-- Every update of an issuance is stored exactly if the last period with an issuance was
    stored as this period before. -/
theorem issuance_config {ctx : Context} {s s' : ResourceState F H} {source : Name}
    {cpu net : UInt64} {hash : H} {start : TimePointSec}
    (h : s.step ⟨ctx, .settotalusg source cpu net hash start⟩ = .ok s')
    (hissue : issues s ⟨ctx, .settotalusg source cpu net hash start⟩ s' = true) :
    s'.getConfig = allUpdates s.getConfig source start ↔
      s.getConfig.lastPeriodInflationPrint = start := by
  obtain ⟨u, sends, token, hr, -, rfl⟩ := commit_eq_ok.mp h
  have hcfg := settotalusg_config hr (of_decide_eq_true hissue)
  show u.getConfig = _ ↔ _
  rw [hcfg]
  constructor
  · intro heq
    have hprint := congrArg ResourceConfig.lastPeriodInflationPrint heq
    exact hprint
  · intro hprint
    unfold allUpdates
    rw [← hprint]

namespace Sample

open SystemState.Sample

/-- Two oracles have to agree on the totals of a period, and alice has submitted hers. -/
def halfAgreed (start' : TimePointSec) : ResourceState Rat (List Char) :=
  Run.exec step start (setup 2 ++
    [call systemAccount (.initresource 10 2 start' 86400 (1 / 10) (2947 / 10000)),
      call systemAccount (.resactivate true),
      call alice (.settotalusg alice 1000000 2000 "commitment".toList start')])

/-- Bob submits the same totals. -/
def secondTotals (start' : TimePointSec) : ResourceCall Rat (List Char) :=
  call bob (.settotalusg bob 1000000 2000 "commitment".toList start')

/-- The agreement leads to an issuance. -/
theorem secondTotals_issues {start' : TimePointSec}
    (h : ((halfAgreed start').step (secondTotals start')).isOk = true)
    (hissue : issues (halfAgreed start') (secondTotals start')
      (Run.next step (halfAgreed start') (secondTotals start')) = true) :
    ∃ s', (halfAgreed start').step (secondTotals start') = .ok s' ∧
      issues (halfAgreed start') (secondTotals start') s' = true :=
  ⟨_, Run.step_eq_next h, hissue⟩

end Sample

open Sample in
/-- In a period that starts at zero every update is stored. -/
theorem issuance_config_sample :
    ∃ s', (halfAgreed 0).step (secondTotals 0) = .ok s' ∧
      s'.getConfig = allUpdates (halfAgreed 0).getConfig SystemState.Sample.bob 0 := by
  obtain ⟨s', hstep, hissue⟩ := @secondTotals_issues 0 (by decide +kernel) (by decide +kernel)
  exact ⟨s', hstep, (issuance_config hstep hissue).mpr (by decide +kernel)⟩

open Sample in
/-- In any other period the last print is not. -/
theorem issuance_config_loses :
    ∃ s', (halfAgreed 1600000000).step (secondTotals 1600000000) = .ok s' ∧
      issues (halfAgreed 1600000000) (secondTotals 1600000000) s' = true ∧
      s'.getConfig ≠
        allUpdates (halfAgreed 1600000000).getConfig SystemState.Sample.bob 1600000000 := by
  obtain ⟨s', hstep, hissue⟩ :=
    @secondTotals_issues 1600000000 (by decide +kernel) (by decide +kernel)
  refine ⟨s', hstep, hissue, ?_⟩
  intro hcfg
  have hprint := congrArg ResourceConfig.lastPeriodInflationPrint hcfg
  rw [← Run.next_of_ok hstep] at hprint
  revert hprint
  decide +kernel

end ResourceState

end UxContracts
