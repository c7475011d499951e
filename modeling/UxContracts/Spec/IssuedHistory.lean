import UxContracts.Spec.PeriodChange

/-!
# What an issuance depends on

The row that an issuance adds to the history is computed from the totals and from what the
reports of other oracles leave alone (`SameIssuance`). So the history after an issuance does
not depend on who has reported before it.
-/

namespace UxContracts

namespace ResourceState

variable {F H : Type} [Double F]

/-- The history after an issuance for some totals. -/
def issuedHistory (s : ResourceState F H) (totals : UInt64 × UInt64) (start : TimePointSec) :
    Except String (Table Nat (UsageHistory F)) := do
  let s ← s.setTotal totals.1 totals.2 start
  let (s, _) ← s.issueInflation start
  return s.history

/-- Nothing that an issuance reads has changed: only oracles have been added. -/
structure SameIssuance (s s' : ResourceState F H) : Prop where
  sys : s'.sys = s.sys
  history : s'.history = s.history
  prodpay : s'.prodpay = s.prodpay
  config : s'.getConfig =
    { s.getConfig with submittingOracles := s'.getConfig.submittingOracles }

/-- The next row does not depend on the oracles. -/
theorem nextHistory_congr (cfg : ResourceConfig F) (oracles : List Name) (g : GlobalState F)
    (history : Table Nat (UsageHistory F)) (last : UsageHistory F) (pk : Nat) (supply : Asset)
    (sym : Symbol) (cpu net : UInt64) (start : TimePointSec) :
    nextHistory { cfg with submittingOracles := oracles } g history last pk supply sym cpu net
      start = nextHistory cfg g history last pk supply sym cpu net start := by
  unfold nextHistory
  rfl

namespace SameIssuance

variable {s s' s'' u' : ResourceState F H} {start : TimePointSec}

theorem refl (s : ResourceState F H) : SameIssuance s s := ⟨rfl, rfl, rfl, rfl⟩

theorem trans (h : SameIssuance s s') (h' : SameIssuance s' s'') : SameIssuance s s'' := by
  refine ⟨h'.sys.trans h.sys, h'.history.trans h.history, h'.prodpay.trans h.prodpay, ?_⟩
  rw [h'.config, h.config]

/-- States with one issuance set the totals alike. -/
theorem setTotal (hs : SameIssuance s s') {cpu net : UInt64}
    (h : s'.setTotal cpu net start = .ok u') :
    ∃ u, s.setTotal cpu net start = .ok u ∧ SameIssuance u u' := by
  unfold ResourceState.setTotal at h ⊢
  rw [hs.config, hs.sys, hs.history] at h
  simp only [bind_eq_ok, check_eq_ok, pure_eq_ok, nextHistory_congr] at h
  obtain ⟨⟨k, last⟩, hlast, u₁, hdays, u₂, hcpu, u₃, hnet, pk, hpk, sym, hsym, supply, hsupply, row,
    hrow, rfl⟩ := h
  simp only [bind_eq_ok, check_eq_ok, pure_eq_ok]
  refine ⟨_, ⟨⟨k, last⟩, hlast, u₁, hdays, u₂, hcpu, u₃, hnet, pk, hpk, sym, hsym, supply, hsupply,
    row, hrow, rfl⟩, ?_⟩
  exact ⟨rfl, rfl, hs.prodpay, rfl⟩

/-- States with one issuance issue the same tokens. -/
theorem issueInflation (hs : SameIssuance s s') {sends : List InlineAction}
    (h : s'.issueInflation start = .ok (u', sends)) :
    ∃ u, s.issueInflation start = .ok (u, sends) ∧ u.history = u'.history := by
  unfold ResourceState.issueInflation at h ⊢
  rw [hs.sys, hs.history, hs.prodpay] at h
  simp only [bind_eq_ok, check_eq_ok, pure_eq_ok, Prod.mk.injEq] at h
  obtain ⟨⟨pk, row⟩, hrow, sum, hsum, sym, hsym, cap, hcap, capped, hcapped, u₁, hle, st, hst,
    remaining, hremaining, u₂, hpos, ⟨inflation, row'⟩, hfit, u₃, hactive, u₄, hlen, earned, hearned,
    prodpay, hcredit, rfl, rfl⟩ := h
  simp only [bind_eq_ok, check_eq_ok, pure_eq_ok, Prod.mk.injEq]
  refine ⟨_, ⟨⟨pk, row⟩, hrow, sum, hsum, sym, hsym, cap, hcap, capped, hcapped, u₁, hle, st, hst,
    remaining, hremaining, u₂, hpos, ⟨inflation, row'⟩, hfit, u₃, hactive, u₄, hlen, earned, hearned,
    prodpay, hcredit, rfl, rfl⟩, ?_⟩
  rfl

/-- States with one issuance add the same row to the history. -/
theorem issuedHistory (hs : SameIssuance s s') {totals : UInt64 × UInt64}
    {history : Table Nat (UsageHistory F)} (h : s'.issuedHistory totals start = .ok history) :
    s.issuedHistory totals start = .ok history := by
  simp only [ResourceState.issuedHistory, bind_eq_ok, pure_eq_ok] at h ⊢
  obtain ⟨s₁', hset', ⟨s₂', sends⟩, hissue', rfl⟩ := h
  obtain ⟨s₁, hset, hs₁⟩ := hs.setTotal hset'
  obtain ⟨s₂, hissue, hhist⟩ := hs₁.issueInflation hissue'
  exact ⟨s₁, hset, ⟨s₂, sends⟩, hissue, hhist⟩

end SameIssuance

/-! ## Reports of totals -/

variable [Checksum H]

/-- An agreement leads to an issuance. -/
theorem Agreed.issuedHistory {s s' : ResourceState F H} {cfg cfg' : ResourceConfig F} {modal : H}
    {modeCount : UInt8} {d : Dataset H} {cpu net : Metric} {rest : List Metric}
    {start : TimePointSec} {sends : List InlineAction} (hagreed : Agreed s cfg modal modeCount d)
    (hopen : cfg.inflationTransferred = false) (hdata : d.data = cpu :: net :: rest)
    (h : s.transferInflation cfg start = .ok (s', cfg', sends)) :
    s.issuedHistory (cpu.u, net.u) start = .ok s'.history := by
  unfold transferInflation at h
  rw [if_pos ⟨by rw [hopen]; exact Bool.false_ne_true, hagreed.enough⟩] at h
  simp only [bind_eq_ok] at h
  obtain ⟨mode, htally, h⟩ := h
  rw [hagreed.tally, Except.ok.injEq] at htally
  subst htally
  simp only [if_pos hagreed.reached, hagreed.found, hdata, bind_eq_ok, pure_eq_ok,
    Prod.mk.injEq] at h
  obtain ⟨s₁, hset, ⟨s₂, sends'⟩, hissue, rfl, -, -⟩ := h
  simp only [ResourceState.issuedHistory, bind_eq_ok, pure_eq_ok]
  exact ⟨s₁, hset, ⟨s₂, sends'⟩, hissue, rfl⟩

/-- What a report of totals does to the history: nothing that an issuance reads changes, or
    there is an issuance for the totals that are agreed on. -/
theorem settotalusg_history {s s' : ResourceState F H} {ctx : Context} {source : Name}
    {cpu net : UInt64} {hash : H} {start : TimePointSec} (hI : s.sys.token.Inv)
    (h : s.step ⟨ctx, .settotalusg source cpu net hash start⟩ = .ok s') :
    SameIssuance s s' ∨ ∃ modal modeCount d cpu' net' rest,
      Agreed s' s'.getConfig modal modeCount d ∧ d.data = cpu' :: net' :: rest ∧
      s.issuedHistory (cpu'.u, net'.u) start = .ok s'.history := by
  obtain ⟨u, sends, token, hr, hrun, rfl⟩ := commit_eq_ok.mp h
  obtain ⟨-, -, s₁, s₂, cfg, hs₁, -, htransfer, rfl⟩ := settotalusg_spec hr
  -- the submission writes no issuance
  have hsame : SameIssuance s s₁ := by
    rw [hs₁]
    exact ⟨rfl, rfl, rfl, rfl⟩
  have hI₁ : s₁.sys.token.Inv := by
    rw [hsame.sys]
    exact hI
  rcases transferInflation_spec hI₁ htransfer with ⟨rfl, rfl, rfl, -⟩ |
    ⟨modal, modeCount, d, cpu', net', rest, hopen, hagreed, hdata, rfl, -, hs₂⟩
  · -- nothing is issued
    refine .inl ⟨?_, hsame.history, hsame.prodpay, rfl⟩
    rw [SystemState.runInline_nil] at hrun
    show { s₂.sys with token := token } = s.sys
    rw [← hrun]
    exact hsame.sys
  · refine .inr ⟨modal, modeCount, d, cpu', net', rest, ?_, hdata, ?_⟩
    · -- the agreement is read from the reports alone
      refine hagreed.congr ?_ ?_ rfl rfl
      · show s₂.usage = _
        rw [hs₂]
      · show s₂.datasets = _
        rw [hs₂]
    · have hiss := hagreed.issuedHistory hopen hdata htransfer
      exact hsame.issuedHistory hiss

end ResourceState

end UxContracts
