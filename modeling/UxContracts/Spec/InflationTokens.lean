import UxContracts.Native.Inflation
import UxContracts.Spec.CoreToken

/-!
# The tokens of the inflation

`issue_inflation` sends up to three inline actions: it issues the inflation to the system
account and hands the two parts on to `eosio.bpay` and `eosio.upay`, each if it is
positive. `inflationSends_effect` says what they do to the supply and to all balances
together.
-/

namespace UxContracts

namespace TokenState

/-- The supply of a token; a token that does not exist has none. -/
def supply (s : TokenState) (code : SymbolCode) : Int :=
  s.stat.valueAt code fun st => st.supply.amount.toInt

/-- A transfer keeps the supplies. -/
theorem transfer_supply {ctx : Context} {s s' : TokenState} {from_ to_ : Name} {q : Asset}
    {memo : String} (hI : s.Inv) (h : s.transfer ctx from_ to_ q memo = .ok s')
    (c : SymbolCode) : s'.supply c = s.supply c := by
  obtain ⟨st, bf, bt, -, -, -, -, -, -, -, -, -, rfl⟩ := transfer_rows hI h
  rfl

/-- An issue adds to the supply of its token. -/
theorem issue_supply {ctx : Context} {s s' : TokenState} {to_ : Name} {q : Asset}
    {memo : String} (hI : s.Inv) (h : s.issue ctx to_ q memo = .ok s') (c : SymbolCode) :
    s'.supply c = s.supply c + if c = q.symbol.code then q.amount.toInt else 0 := by
  obtain ⟨st, supply, b, hst, rfl, -, -, -, -, -, hsupply, -, -, rfl⟩ := issue_spec hI h
  show (s.stat.set q.symbol.code { st with supply := supply }).valueAt c _ = _
  rw [Table.valueAt_set]
  by_cases hc : c = q.symbol.code
  · subst hc
    rw [if_pos rfl, if_pos rfl, TokenState.supply, Table.valueAt_some hst]
    exact hsupply
  · rw [if_neg hc, if_neg hc, add_zero]
    rfl

end TokenState

namespace SystemState

open TokenState

theorem bpay_ne_system : bpayAccount ≠ systemAccount := by decide +kernel

theorem upay_ne_system : upayAccount ≠ systemAccount := by decide +kernel

theorem bpay_ne_upay : bpayAccount ≠ upayAccount := by decide +kernel

/-- Inline actions run one after the other. -/
theorem runInline_append {ctx : Context} {t t' : TokenState} {as bs : List InlineAction} :
    runInline ctx t (as ++ bs) = .ok t' ↔
      ∃ u, runInline ctx t as = .ok u ∧ runInline ctx u bs = .ok t' := by
  induction as generalizing t with
  | nil =>
    rw [List.nil_append]
    constructor
    · exact fun h => ⟨t, runInline_nil.mpr rfl, h⟩
    · rintro ⟨u, hu, h⟩
      rw [runInline_nil.mp hu]
      exact h
  | cons a as ih =>
    rw [List.cons_append, runInline_cons]
    constructor
    · rintro ⟨v, hv, h⟩
      obtain ⟨u, hu, h⟩ := ih.mp h
      exact ⟨u, runInline_cons.mpr ⟨v, hv, hu⟩, h⟩
    · rintro ⟨u, hu, h⟩
      obtain ⟨v, hv, hu⟩ := runInline_cons.mp hu
      exact ⟨v, hv, ih.mpr ⟨u, hu, h⟩⟩

/-- A transfer that is sent only if its amount is positive. -/
theorem sendIfPositive_effect {ctx : Context} {t t' : TokenState} {from_ to_ : Name} {q : Asset}
    {memo : String} {auth : List Name} (hI : t.Inv)
    (h : runInline ctx t
      (if q.amount > 0 then [⟨auth, .transfer from_ to_ q memo⟩] else []) = .ok t') :
    t'.Inv ∧ (∀ c, t'.supply c = t.supply c) ∧ ∀ o c, t'.balance o c = t.balance o c +
      (if o = to_ ∧ c = q.symbol.code then max q.amount.toInt 0 else 0) -
      (if o = from_ ∧ c = q.symbol.code then max q.amount.toInt 0 else 0) := by
  refine ⟨(runInline_inv hI h).1, ?_⟩
  split at h
  · rename_i hpos
    have hpos := Int64.lt_iff_toInt_lt.mp hpos
    rw [Int64.toInt_zero] at hpos
    have htransfer : t.transfer _ from_ to_ q memo = .ok t' := runInline_singleton.mp h
    rw [max_eq_left hpos.le]
    exact ⟨transfer_supply hI htransfer, transfer_balance hI htransfer⟩
  · rename_i hpos
    rw [gt_iff_lt, Int64.lt_iff_toInt_lt, Int64.toInt_zero] at hpos
    rw [runInline_nil] at h
    rw [max_eq_right (not_lt.mp hpos)]
    subst h
    refine ⟨fun _ => rfl, fun o c => ?_⟩
    simp

/-- A payment takes its amount from the account that pays. -/
theorem runInline_payment {ctx : Context} {t t' : TokenState} {from_ to_ : Name} {q : Asset}
    {memo : String} {auth : List Name} (hI : t.Inv)
    (h : runInline ctx t [⟨auth, .transfer from_ to_ q memo⟩] = .ok t') :
    t'.balance from_ q.symbol.code = t.balance from_ q.symbol.code - q.amount.toInt := by
  have htransfer : t.transfer _ from_ to_ q memo = .ok t' := runInline_singleton.mp h
  obtain ⟨st, bf, bt, hne, -⟩ := transfer_rows hI htransfer
  rw [transfer_balance hI htransfer, if_neg fun he => hne he.1, if_pos ⟨rfl, rfl⟩, add_zero]

/-- The inflation is added to the supply, and its parts end up at `eosio.bpay` and
    `eosio.upay`; what may be left over stays at the system account. -/
theorem inflationSends_effect {F : Type} {ctx : Context} {t t' : TokenState} {inflation : Asset}
    {row : UsageHistory F} {sym : Symbol} (hI : t.Inv) (hsi : inflation.symbol = sym)
    (hsb : row.bppayTokens.symbol = sym) (hsu : row.utilityTokens.symbol = sym)
    (h : runInline ctx t (ResourceState.inflationSends inflation row) = .ok t') :
    t'.supply sym.code = t.supply sym.code + max inflation.amount.toInt 0 ∧
    t'.balance bpayAccount sym.code =
      t.balance bpayAccount sym.code + max row.bppayTokens.amount.toInt 0 ∧
    t'.balance upayAccount sym.code =
      t.balance upayAccount sym.code + max row.utilityTokens.amount.toInt 0 := by
  unfold ResourceState.inflationSends at h
  obtain ⟨t₂, h₁₂, h₃⟩ := runInline_append.mp h
  obtain ⟨t₁, h₁, h₂⟩ := runInline_append.mp h₁₂
  -- the issue
  have hissue : t₁.Inv ∧ t₁.supply sym.code = t.supply sym.code + max inflation.amount.toInt 0 ∧
      ∀ o, o ≠ systemAccount → t₁.balance o sym.code = t.balance o sym.code := by
    refine ⟨(runInline_inv hI h₁).1, ?_⟩
    split at h₁
    · -- something is issued, to the system account
      rename_i hpos
      have hpos := Int64.lt_iff_toInt_lt.mp hpos
      rw [Int64.toInt_zero] at hpos
      have hissue : t.issue _ systemAccount inflation "issue daily inflation" = .ok t₁ :=
        runInline_singleton.mp h₁
      refine ⟨?_, fun o ho => ?_⟩
      · rw [issue_supply hI hissue, hsi, if_pos rfl, max_eq_left hpos.le]
      · rw [issue_balance hI hissue, if_neg fun he => ho he.1, add_zero]
    · -- nothing is issued
      rename_i hpos
      rw [gt_iff_lt, Int64.lt_iff_toInt_lt, Int64.toInt_zero] at hpos
      rw [runInline_nil] at h₁
      subst h₁
      refine ⟨?_, fun _ _ => rfl⟩
      rw [max_eq_right (not_lt.mp hpos), add_zero]
  obtain ⟨hI₁, hsupply₁, hbal₁⟩ := hissue
  -- the two transfers to the pay accounts
  obtain ⟨hI₂, hsupply₂, hbal₂⟩ := sendIfPositive_effect hI₁ h₂
  obtain ⟨-, hsupply₃, hbal₃⟩ := sendIfPositive_effect hI₂ h₃
  rw [hsb] at hbal₂
  rw [hsu] at hbal₃
  refine ⟨by rw [hsupply₃, hsupply₂, hsupply₁], ?_, ?_⟩
  · -- the account of the producers
    rw [hbal₃, hbal₂, hbal₁ _ bpay_ne_system]
    simp only [bpay_ne_system, bpay_ne_upay, false_and, and_self, if_true, if_false]
    omega
  · -- the account of usage
    rw [hbal₃, hbal₂, hbal₁ _ upay_ne_system]
    simp only [upay_ne_system, bpay_ne_upay.symm, false_and, and_self, if_true, if_false]
    omega

end SystemState

end UxContracts
