import UxContracts.Spec.TokenConservation
import UxContracts.Native.System

/-!
# Effects of token actions

What the other contracts rely on when they send inline actions to `eosio.token`: how
`transfer` and `issue` move balances (`transfer_balance`, `issue_balance`), that a
transfer that is covered by the sender's balance succeeds (`transfer_ok`), and that a
`stat` row keeps its symbol, maximum supply and issuer in every run (`step_stat`).
-/

namespace UxContracts

namespace TokenState

/-! ## Balances -/

/-- A transfer moves the quantity from the sender to the receiver and nothing else. -/
theorem transfer_balance {ctx : Context} {s s' : TokenState} {from_ to_ : Name} {q : Asset}
    {memo : String} (hI : s.Inv) (h : s.transfer ctx from_ to_ q memo = .ok s') (o : Name)
    (c : SymbolCode) :
    s'.balance o c = s.balance o c + (if o = to_ ∧ c = q.symbol.code then q.amount.toInt else 0) -
      (if o = from_ ∧ c = q.symbol.code then q.amount.toInt else 0) := by
  obtain ⟨st, bf, bt, hne, -, -, -, -, -, -, hf, ht, rfl⟩ := transfer_rows hI h
  show ((s.accounts.set ⟨from_, q.symbol.code⟩ bf).set ⟨to_, q.symbol.code⟩ bt).valueAt ⟨o, c⟩ _ = _
  rw [Table.valueAt_set, Table.valueAt_set]
  by_cases hto : o = to_ ∧ c = q.symbol.code
  · obtain ⟨rfl, rfl⟩ := hto
    rw [if_pos rfl, if_pos ⟨rfl, rfl⟩, if_neg fun hfrom => hne hfrom.1.symm]
    omega
  · rw [if_neg (by simpa using hto), if_neg hto]
    by_cases hfrom : o = from_ ∧ c = q.symbol.code
    · obtain ⟨rfl, rfl⟩ := hfrom
      rw [if_pos rfl, if_pos ⟨rfl, rfl⟩]
      omega
    · rw [if_neg (by simpa using hfrom), if_neg hfrom]
      simp only [balance]
      omega

/-- Only tokens that exist are transferred. -/
theorem transfer_symbol {ctx : Context} {s s' : TokenState} {from_ to_ : Name} {q : Asset}
    {memo : String} (h : s.transfer ctx from_ to_ q memo = .ok s') :
    ∃ st, s.stat.find? q.symbol.code = some st ∧ st.supply.symbol = q.symbol := by
  simp only [transfer, bind_eq_ok, check_eq_ok, requireAuth_eq_ok, getRow_eq_ok] at h
  obtain ⟨_, -, _, -, _, -, st, hst, _, -, _, -, _, hsym, -⟩ := h
  exact ⟨st, hst, hsym.symm⟩

/-- Issued tokens go to the issuer. -/
theorem issue_balance {ctx : Context} {s s' : TokenState} {to_ : Name} {q : Asset}
    {memo : String} (hI : s.Inv) (h : s.issue ctx to_ q memo = .ok s') (o : Name)
    (c : SymbolCode) :
    s'.balance o c = s.balance o c +
      (if o = to_ ∧ c = q.symbol.code then q.amount.toInt else 0) := by
  obtain ⟨st, supply, b, -, rfl, -, -, -, -, -, -, -, hb, rfl⟩ := issue_spec hI h
  show (s.accounts.set ⟨st.issuer, q.symbol.code⟩ b).valueAt ⟨o, c⟩ _ = _
  rw [Table.valueAt_set]
  by_cases ho : o = st.issuer ∧ c = q.symbol.code
  · obtain ⟨rfl, rfl⟩ := ho
    rw [if_pos rfl, if_pos ⟨rfl, rfl⟩, hb]
  · rw [if_neg (by simpa using ho), if_neg ho]
    simp [balance]

/-- A covered transfer between two existing accounts succeeds. -/
theorem transfer_ok {ctx : Context} {s : TokenState} {from_ to_ : Name} {q : Asset}
    {memo : String} {st : CurrencyStats} (hI : s.Inv) (hne : from_ ≠ to_) (hauth : from_ ∈ ctx.auth)
    (hto : ctx.isAccount to_) (hst : s.stat.find? q.symbol.code = some st)
    (hsym : q.symbol = st.supply.symbol) (hpos : 0 < q.amount.toInt)
    (hmemo : memo.utf8ByteSize ≤ 256) (hle : q.amount.toInt ≤ s.balance from_ q.symbol.code) :
    ∃ s', s.transfer ctx from_ to_ q memo = .ok s' := by
  have hbounds := hI.supplyBounds _ st hst
  -- both balances are within the supply
  have hsup := hI.balance_le_supply from_ hst
  have htwo := hI.add_balance_le_supply hst hne
  have hnn := hI.balance_nonneg to_ q.symbol.code
  have hvalid : q.isValid := by
    refine Asset.isValid_iff.mpr ⟨⟨by omega, by omega⟩, ?_⟩
    rw [hsym]
    exact (hI.statKey _ st hst).2.2
  -- the sender has a row, since its balance is not zero
  cases hb : s.accounts.find? ⟨from_, q.symbol.code⟩ with
  | none =>
    rw [balance, Table.valueAt_none hb] at hle
    omega
  | some b =>
    rw [balance, Table.valueAt_some hb] at hle hsup htwo
    have hbs : q.symbol = b.symbol := by
      obtain ⟨-, st', hst', hbs⟩ := hI.balanceRow _ b hb
      simp only [hst, Option.some.injEq] at hst'
      rw [hsym, hst', hbs]
    -- so the subtraction stays in range
    have hsub := Asset.sub_of_inRange hbs (by omega) (by omega)
    have hkey : (⟨to_, q.symbol.code⟩ : Scoped Name SymbolCode) ≠ ⟨from_, q.symbol.code⟩ := by
      simpa using hne.symm
    have hfrom : subBalance s.accounts from_ q =
        .ok (s.accounts.set ⟨from_, q.symbol.code⟩ ⟨b.amount - q.amount, b.symbol⟩) := by
      simp only [subBalance, bind_eq_ok, getRow_eq_ok, check_eq_ok, pure_eq_ok]
      exact ⟨b, hb, (), Int64.le_iff_toInt_le.mpr hle, _, hsub, rfl⟩
    -- the receiver has a row already, or gets one
    have hadd : ∃ acnts, addBalance
        (s.accounts.set ⟨from_, q.symbol.code⟩ ⟨b.amount - q.amount, b.symbol⟩) to_ q =
          .ok acnts := by
      unfold addBalance
      rw [Table.find?_set_ne _ _ hkey]
      cases ht : s.accounts.find? ⟨to_, q.symbol.code⟩ with
      | none => exact ⟨_, rfl⟩
      | some bt =>
        rw [balance, Table.valueAt_some ht] at hnn htwo
        have hts : q.symbol = bt.symbol := by
          obtain ⟨-, st', hst', hts⟩ := hI.balanceRow _ bt ht
          simp only [hst, Option.some.injEq] at hst'
          rw [hsym, hst', hts]
        -- the sum is within the supply
        have hsum := Asset.add_of_inRange hts (by omega) (by omega)
        exact ⟨_, by simp only [hsum]; rfl⟩
    obtain ⟨acnts, hadd⟩ := hadd
    refine ⟨{ s with accounts := acnts }, ?_⟩
    simp only [transfer, bind_eq_ok, check_eq_ok, requireAuth_eq_ok, getRow_eq_ok, pure_eq_ok]
    exact ⟨(), hne, (), hauth, (), hto, st, hst, (), hvalid, (),
      Int64.lt_iff_toInt_lt.mpr hpos, (), hsym, (), hmemo, _, hfrom, acnts, hadd, rfl⟩

/-! ## The `stat` rows -/

/-- The parts of a `stat` row that no action changes. -/
def SameToken (st st' : CurrencyStats) : Prop :=
  st'.supply.symbol = st.supply.symbol ∧ st'.maxSupply = st.maxSupply ∧ st'.issuer = st.issuer

/-- `s'` has every token of `s`, with the same symbol, maximum supply and issuer. -/
def KeepsTokens (s s' : TokenState) : Prop :=
  ∀ code st, s.stat.find? code = some st →
    ∃ st', s'.stat.find? code = some st' ∧ SameToken st st'

theorem KeepsTokens.refl (s : TokenState) : KeepsTokens s s :=
  fun _ st h => ⟨st, h, rfl, rfl, rfl⟩

theorem KeepsTokens.trans {s s' s'' : TokenState} (h : KeepsTokens s s')
    (h' : KeepsTokens s' s'') : KeepsTokens s s'' := by
  intro code st hst
  obtain ⟨st', hst', hsym, hmax, hiss⟩ := h code st hst
  obtain ⟨st'', hst'', hsym', hmax', hiss'⟩ := h' code st' hst'
  exact ⟨st'', hst'', hsym'.trans hsym, hmax'.trans hmax, hiss'.trans hiss⟩

/-- A new supply for one row keeps all tokens. -/
private theorem keepsTokens_supply {s : TokenState} {accounts : Accounts} {code : SymbolCode}
    {st : CurrencyStats} {supply : Asset} (hst : s.stat.find? code = some st)
    (hsym : supply.symbol = st.supply.symbol) :
    KeepsTokens s ⟨s.stat.set code { st with supply := supply }, accounts⟩ := by
  intro code' st' hst'
  by_cases hc : code' = code
  · subst hc
    rw [hst, Option.some.injEq] at hst'
    subst hst'
    exact ⟨_, Table.find?_set_self _ _ _, hsym, rfl, rfl⟩
  · exact ⟨st', by rw [Table.find?_set_ne _ _ hc, hst'], rfl, rfl, rfl⟩

/-- Every action keeps the tokens there are. -/
theorem step_stat {s s' : TokenState} {call : TokenCall} (hI : s.Inv)
    (h : s.step call = .ok s') : KeepsTokens s s' := by
  obtain ⟨ctx, action⟩ := call
  cases action with
  | create issuer maximumSupply =>
    obtain ⟨-, -, hnone, rfl⟩ := create_spec h
    -- the new token has a code without a row
    intro code st hst
    refine ⟨st, ?_, rfl, rfl, rfl⟩
    rw [Table.find?_set_ne _ _ (by rintro rfl; rw [hnone] at hst; exact nomatch hst), hst]
  | issue to_ quantity memo =>
    obtain ⟨st, supply, b, hst, -, -, -, -, hsym, -, -, -, -, rfl⟩ := issue_spec hI h
    -- the supply changes, and nothing else
    exact keepsTokens_supply hst hsym
  | retire quantity memo =>
    obtain ⟨st, supply, b, hst, -, -, hsym, -, -, -, -, rfl⟩ := retire_spec hI h
    exact keepsTokens_supply hst hsym
  | transfer from_ to_ quantity memo =>
    obtain ⟨st, bf, bt, -, -, -, -, -, -, -, -, -, rfl⟩ := transfer_rows hI h
    -- balances only
    exact KeepsTokens.refl s
  | openRow owner symbol ramPayer =>
    rcases openRow_spec h with rfl | ⟨st, -, -, -, rfl⟩
    · exact KeepsTokens.refl _
    · exact KeepsTokens.refl s
  | close owner symbol =>
    obtain ⟨b, -, -, rfl⟩ := close_spec h
    exact KeepsTokens.refl s

end TokenState

/-! ## Inline actions -/

namespace SystemState

open TokenState

/-- Inline actions keep the invariant of the token contract and its tokens. -/
theorem runInline_inv {ctx : Context} {t t' : TokenState} {sends : List InlineAction}
    (hI : t.Inv) (h : runInline ctx t sends = .ok t') : t'.Inv ∧ KeepsTokens t t' := by
  induction sends generalizing t with
  | nil =>
    rw [runInline_nil] at h
    exact h ▸ ⟨hI, KeepsTokens.refl t⟩
  | cons a as ih =>
    obtain ⟨u, hu, h⟩ := runInline_cons.mp h
    obtain ⟨hI', hkeep⟩ := ih (step_inv hI hu) h
    exact ⟨hI', (step_stat hI hu).trans hkeep⟩

/-- A single inline action is one step of the token contract. -/
theorem runInline_singleton {ctx : Context} {t t' : TokenState} {a : InlineAction} :
    runInline ctx t [a] = .ok t' ↔ t.step ⟨ctx.withAuth a.auth, a.action⟩ = .ok t' := by
  rw [runInline_cons]
  simp only [runInline_nil, exists_eq_right]

end SystemState

end UxContracts
