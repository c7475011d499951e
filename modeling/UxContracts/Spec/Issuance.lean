import UxContracts.Native.Usage
import UxContracts.Spec.InflationTokens

/-!
# What an issuance does

`settotalusg` runs `set_total` and `issue_inflation` one after the other. `Issuance` is
what they do together: one row is added to the history, its two amounts add up to the
tokens that are issued, within the daily cap and the maximum supply, and the active
producers are credited with equal parts of the producers' amount.
-/

namespace UxContracts

/-- The two amounts of a row are proper amounts of one symbol. -/
structure UsageHistory.Tokens {F : Type} (row : UsageHistory F) (sym : Symbol) : Prop where
  bppay_symbol : row.bppayTokens.symbol = sym
  utility_symbol : row.utilityTokens.symbol = sym
  bppay_inRange : row.bppayTokens.InRange
  utility_inRange : row.utilityTokens.InRange

/-- What the two amounts of a row add up to. -/
def UsageHistory.total {F : Type} (row : UsageHistory F) : Int :=
  row.bppayTokens.amount.toInt + row.utilityTokens.amount.toInt

/-- A new asset has the amount and the symbol it is made of. -/
theorem Asset.make_spec {x : Int64} {sym : Symbol} {a : Asset} (h : Asset.make x sym = .ok a) :
    a.amount = x ∧ a.symbol = sym ∧ a.InRange := by
  obtain ⟨hlo, hhi, -, rfl⟩ := Asset.make_eq_ok.mp h
  exact ⟨rfl, rfl, hlo, hhi⟩

namespace ResourceState

variable {F H : Type} [Double F]

/-! ## `set_total` -/

/-- A share is in the symbol it is asked for, and in range. -/
theorem shareOf_spec {rate : F} {supply a : Asset} {sym : Symbol}
    (h : shareOf rate supply sym = .ok a) : a.symbol = sym ∧ a.InRange := by
  simp only [shareOf, bind_eq_ok] at h
  obtain ⟨x, -, h⟩ := h
  exact (Asset.make_spec h).2

/-- The next row continues the count of days and has the totals of the period. -/
theorem nextHistory_spec {cfg : ResourceConfig F} {g : GlobalState F}
    {history : Table Nat (UsageHistory F)} {last row : UsageHistory F} {pk : Nat} {supply : Asset}
    {sym : Symbol} {cpu net : UInt64} {start : TimePointSec}
    (h : nextHistory cfg g history last pk supply sym cpu net start = .ok row) :
    row.daycount = last.daycount + 1 ∧ row.totalCpuUs = cpu ∧ row.totalNetWords = net ∧
      row.Tokens sym := by
  simp only [nextHistory, bind_eq_ok, pure_eq_ok] at h
  obtain ⟨utility, hutility, bppay, hbppay, rfl⟩ := h
  obtain ⟨hus, hur⟩ := shareOf_spec hutility
  obtain ⟨hbs, hbr⟩ := shareOf_spec hbppay
  exact ⟨rfl, rfl, rfl, hbs, hus, hbr, hur⟩

@[simp] theorem lastRow_eq_ok {V : Type} {t : Table Nat V} {r : Nat × V} :
    Table.lastRow t = .ok r ↔ t.last? = some r := by
  unfold Table.lastRow
  split <;> simp_all

/-- `set_total` adds one row to the history, made from the last row and the supply, while the period
    of inflation lasts and the totals are within the maxima. -/
theorem setTotal_cases {s s' : ResourceState F H} {cpu net : UInt64} {start : TimePointSec}
    (h : s.setTotal cpu net start = .ok s') :
    ∃ k last sym supply row, s.history.last? = some (k, last) ∧ last.daycount.toNat < 1096 ∧
      cpu ≤ systemMaxCpu s.sys.gstate ∧ net * 8 ≤ systemMaxNet s.sys.gstate ∧
      s.sys.coreSymbol = .ok sym ∧ s.sys.token.getSupply sym.code = .ok supply ∧
      nextHistory s.getConfig s.sys.gstate s.history last (k + 1) supply sym cpu net start =
        .ok row ∧
      s' = { s with history := s.history.set (k + 1) row, config := some s.getConfig } := by
  simp only [setTotal, bind_eq_ok, check_eq_ok, lastRow_eq_ok, pure_eq_ok] at h
  obtain ⟨⟨k, last⟩, hlast, _, hday, _, hcpu, _, hnet, pk, hpk, sym, hsym, supply, hsupply, row,
    hrow, rfl⟩ := h
  obtain rfl := availablePrimaryKey_spec hlast hpk
  exact ⟨k, last, sym, supply, row, hlast, hday, hcpu, hnet, hsym, hsupply, hrow, rfl⟩

/-- What the row that `set_total` adds says of the totals, and the symbol of its tokens. -/
theorem setTotal_spec {s s' : ResourceState F H} {cpu net : UInt64} {start : TimePointSec}
    (h : s.setTotal cpu net start = .ok s') :
    ∃ k last row sym, s.history.last? = some (k, last) ∧ last.daycount.toNat < 1096 ∧
      s.sys.coreSymbol = .ok sym ∧ row.daycount = last.daycount + 1 ∧ row.totalCpuUs = cpu ∧
      row.totalNetWords = net ∧ row.Tokens sym ∧
      s' = { s with history := s.history.set (k + 1) row, config := some s.getConfig } := by
  obtain ⟨k, last, sym, supply, row, hlast, hday, -, -, hsym, -, hrow, rfl⟩ := setTotal_cases h
  obtain ⟨hdays, hcpu, hnet, htokens⟩ := nextHistory_spec hrow
  exact ⟨k, last, row, sym, hlast, hday, hsym, hdays, hcpu, hnet, htokens, rfl⟩

/-! ## `issue_inflation` -/

/-- The cap is one and a half million tokens of precision four. -/
theorem inflationCap_spec {sym : Symbol} {cap : Asset} (h : inflationCap sym = .ok cap) :
    cap.symbol = sym ∧ cap.amount.toInt = 15000000000 := by
  simp only [inflationCap, bind_eq_ok] at h
  obtain ⟨one, hone, hmul⟩ := h
  obtain ⟨hamt, hsym, -⟩ := Asset.make_spec hone
  obtain ⟨-, -, rfl⟩ := Asset.mul_eq_ok.mp hmul
  refine ⟨hsym, ?_⟩
  show (Int64.ofInt (one.amount.toInt * Int64.toInt 1500000)).toInt = _
  rw [hamt]
  decide

/-- The amounts that fit into the supply still add up to the inflation, which is not
    increased and at most what remains. -/
theorem fitSupply_spec {row row' : UsageHistory F} {inflation inflation' remaining : Asset}
    {sym : Symbol} (htokens : row.Tokens sym) (hsym : inflation.symbol = sym)
    (hsum : inflation.amount.toInt = row.total) (hrem : remaining.InRange)
    (h : fitSupply row inflation remaining sym = .ok (inflation', row')) :
    row' = { row with
      bppayTokens := row'.bppayTokens
      utilityTokens := row'.utilityTokens } ∧ row'.Tokens sym ∧ inflation'.symbol = sym ∧
      inflation'.amount.toInt = row'.total ∧
      inflation'.amount.toInt ≤ inflation.amount.toInt ∧
      inflation'.amount.toInt ≤ remaining.amount.toInt := by
  simp only [fitSupply, bind_eq_ok] at h
  obtain ⟨exceeds, hgt, h⟩ := h
  obtain ⟨-, hgt⟩ := Asset.compare_eq_ok.mp hgt
  split at h
  · -- the sum does not fit, so both parts are taken from what remains
    rename_i hexceeds
    rw [hexceeds, eq_comm, decide_eq_true_eq, Int64.lt_iff_toInt_lt] at hgt
    simp only [bind_eq_ok, pure_eq_ok, Prod.mk.injEq] at h
    obtain ⟨x, -, bppay, hbppay, utility, hutility, sum, hadd, rfl, rfl⟩ := h
    obtain ⟨-, hbs, hbr⟩ := Asset.make_spec hbppay
    obtain ⟨-, hus, hur, hueq⟩ := Asset.sub_spec hutility hrem
    obtain ⟨husb, hss, -, hseq⟩ := Asset.add_spec hadd hbr
    refine ⟨rfl, ⟨hbs, husb.trans hbs, hbr, hur⟩, hss.trans hbs, hseq, ?_, ?_⟩
    · omega
    · omega
  · -- the sum fits
    rename_i hexceeds
    rw [Bool.not_eq_true] at hexceeds
    rw [hexceeds, eq_comm, decide_eq_false_iff_not, Int64.lt_iff_toInt_lt] at hgt
    simp only [pure_eq_ok, Prod.mk.injEq] at h
    obtain ⟨rfl, rfl⟩ := h
    exact ⟨rfl, htokens, hsym, hsum, le_refl _, not_lt.mp hgt⟩

/-! ## The whole issuance -/

/-- What one issuance does: `last` is the last row of the history, under the key `k`, and
    `row` the new one. -/
structure Issuance (sys : SystemState F) (history history' : Table Nat (UsageHistory F))
    (prodpay prodpay' : Table Name ProducerPay) (cpu net : UInt64) (sends : List InlineAction)
    (k : Nat) (last row : UsageHistory F) (sym : Symbol) (inflation : Asset) : Prop where
  lastRow : history.last? = some (k, last)
  days : last.daycount.toNat < 1096
  coreSymbol : sys.coreSymbol = .ok sym
  daycount : row.daycount = last.daycount + 1
  totalCpuUs : row.totalCpuUs = cpu
  totalNetWords : row.totalNetWords = net
  tokens : row.Tokens sym
  inflation_symbol : inflation.symbol = sym
  inflation_total : inflation.amount.toInt = row.total
  capped : inflation.amount.toInt ≤ 15000000000
  supplied : ∃ st, sys.token.stat.find? sym.code = some st ∧
    inflation.amount.toInt ≤ st.maxSupply.amount.toInt - st.supply.amount.toInt
  sends_eq : sends = inflationSends inflation row
  active : 0 < (activeProducers sys).length ∧ (activeProducers sys).length ≤ 21
  credited : ∃ earned : Asset, earned.symbol = sym ∧
    earned.amount = row.bppayTokens.amount / Int64.ofNat (activeProducers sys).length ∧
    (if earned.amount > 0 then creditProducers earned prodpay (activeProducers sys)
      else .ok prodpay) = .ok prodpay'
  history_eq : history' = history.set (k + 1) row

/-- At most 21 producers are paid. -/
theorem activeProducers_length (sys : SystemState F) : (activeProducers sys).length ≤ 21 := by
  unfold activeProducers
  rw [List.length_map]
  exact List.length_take_le _ _

/-- `set_total` and `issue_inflation` together are an issuance. -/
theorem issuance_spec {s s₁ s' : ResourceState F H} {cpu net : UInt64} {start : TimePointSec}
    {sends : List InlineAction} (hI : s.sys.token.Inv) (hset : s.setTotal cpu net start = .ok s₁)
    (hissue : s₁.issueInflation start = .ok (s', sends)) :
    (∃ k last row sym inflation, Issuance s.sys s.history s'.history s.prodpay s'.prodpay cpu net
      sends k last row sym inflation) ∧
    s' = { s with history := s'.history, prodpay := s'.prodpay, config := s'.config } := by
  obtain ⟨k, last, row₀, sym, hlast, hday, hsym, hdays, hcpu, hnet, htokens, rfl⟩ :=
    setTotal_spec hset
  -- the new row is the last one now
  have hlast₁ : (s.history.set (k + 1) row₀).last? = some (k + 1, row₀) :=
    Table.last?_set_succ row₀ hlast
  simp only [issueInflation, bind_eq_ok, check_eq_ok, lastRow_eq_ok, getRow_eq_ok, pure_eq_ok,
    Prod.mk.injEq] at hissue
  obtain ⟨⟨k', row'⟩, hrow', sum, hsum, sym', hsym', cap, hcap, capped, hcapped, _, hle, st, hst,
    remaining, hremaining, _, -, ⟨inflation, row⟩, hfit, _, hpos, _, -, earned, hearned, prodpay,
    hcredit, rfl, rfl⟩ := hissue
  simp only at hrow' hsym' hst hfit hpos hearned hcredit
  rw [hlast₁, Option.some.injEq, Prod.mk.injEq] at hrow'
  obtain ⟨rfl, rfl⟩ := hrow'
  obtain rfl : sym = sym' := by
    rw [hsym, Except.ok.injEq] at hsym'
    exact hsym'
  -- the cap compares what is asked for with the supply
  obtain ⟨hus, hss, -, hseq⟩ := Asset.add_spec hsum htokens.bppay_inRange
  obtain ⟨-, hcapamt⟩ := inflationCap_spec hcap
  obtain ⟨-, hcmp⟩ := Asset.compare_eq_ok.mp hcapped
  rw [hle, eq_comm, decide_eq_true_eq] at hcmp
  have hcmp := Int64.le_iff_toInt_le.mp hcmp
  -- the supply stays below its maximum
  have hbounds := hI.supplyBounds _ st hst
  have hmax : st.maxSupply.InRange := by unfold Asset.InRange; omega
  obtain ⟨-, -, hremr, hremeq⟩ := Asset.sub_spec hremaining hmax
  -- what the row says is fitted to the rest
  obtain ⟨hrow, htok, hisym, hitotal, hle₁, hle₂⟩ :=
    fitSupply_spec htokens (hss.trans htokens.bppay_symbol) hseq hremr hfit
  obtain ⟨heamt, hesym, -⟩ := Asset.make_spec hearned
  refine ⟨⟨k, last, row, sym, inflation, ?_⟩, rfl⟩
  exact
    { lastRow := hlast
      days := hday
      coreSymbol := hsym
      daycount := by rw [hrow]; exact hdays
      totalCpuUs := by rw [hrow]; exact hcpu
      totalNetWords := by rw [hrow]; exact hnet
      tokens := htok
      inflation_symbol := hisym
      inflation_total := hitotal
      capped := by omega
      supplied := ⟨st, hst, by omega⟩
      sends_eq := rfl
      active := ⟨hpos, activeProducers_length _⟩
      credited := ⟨earned, hesym, heamt, hcredit⟩
      history_eq := Table.set_set _ _ _ _ }

end ResourceState

end UxContracts
