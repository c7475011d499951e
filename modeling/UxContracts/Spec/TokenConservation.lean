import UxContracts.Native.Token

/-!
# Conservation of tokens

The supply of a token is the sum of all balances of its symbol code, in every state
that the six actions of `eosio.token` can reach (`token_conservation`).

The invariant `TokenState.Inv` adds to the equation what makes it inductive: a `stat`
row is stored under the code of its own symbol, its supply is between zero and a
maximum supply within the asset range, and every balance row belongs to a token
with a `stat` row of the same symbol. The effect of the two balance helpers is
stated once (`subBalance_spec`, `addBalance_spec`); the actions are read back
through `balance`, which counts a missing row as zero.
-/

namespace UxContracts

namespace TokenState

/-! ## Balances and their sum -/

/-- The balance of `owner`; an account without a row has none. -/
def balance (s : TokenState) (owner : Name) (code : SymbolCode) : Int :=
  s.accounts.valueAt ⟨owner, code⟩ fun b => b.amount.toInt

/-- The sum of all balances of one code. -/
def balanceSum (acnts : Accounts) (code : SymbolCode) : Int :=
  acnts.sumOn (fun k => k.key = code) fun b => b.amount.toInt

/-! ## The balance helpers -/

/-- `subBalance` takes `value` from a row that holds at least as much. -/
theorem subBalance_spec {acnts acnts' : Accounts} {owner : Name} {value : Asset}
    (h : subBalance acnts owner value = .ok acnts')
    (hr : ∀ b, acnts.find? ⟨owner, value.symbol.code⟩ = some b → b.InRange) :
    ∃ b b', acnts.find? ⟨owner, value.symbol.code⟩ = some b ∧
      acnts' = acnts.set ⟨owner, value.symbol.code⟩ b' ∧
      value.amount.toInt ≤ b.amount.toInt ∧ value.symbol = b.symbol ∧ b'.symbol = b.symbol ∧
      b'.InRange ∧ b'.amount.toInt = b.amount.toInt - value.amount.toInt := by
  simp only [subBalance, bind_eq_ok, check_eq_ok, getRow_eq_ok, pure_eq_ok] at h
  obtain ⟨b, hb, _, hle, b', hsub, rfl⟩ := h
  obtain ⟨hs, hs', hr', hamt⟩ := Asset.sub_spec hsub (hr b hb)
  exact ⟨b, b', hb, rfl, Int64.le_iff_toInt_le.mp hle, hs, hs', hr', hamt⟩

/-- `addBalance` adds `value` to the row of the owner, or makes the row. -/
theorem addBalance_spec {acnts acnts' : Accounts} {owner : Name} {value : Asset}
    (h : addBalance acnts owner value = .ok acnts') (hv : value.InRange)
    (hr : ∀ b, acnts.find? ⟨owner, value.symbol.code⟩ = some b → b.InRange) :
    ∃ b', acnts' = acnts.set ⟨owner, value.symbol.code⟩ b' ∧ b'.symbol = value.symbol ∧
      b'.InRange ∧ b'.amount.toInt =
        (acnts.valueAt ⟨owner, value.symbol.code⟩ fun b => b.amount.toInt) +
          value.amount.toInt := by
  unfold addBalance at h
  cases hfind : acnts.find? ⟨owner, value.symbol.code⟩ with
  | none =>
    simp only [hfind, pure_eq_ok] at h
    exact ⟨value, h.symm, rfl, hv, by rw [Table.valueAt_none hfind, zero_add]⟩
  | some b =>
    simp only [hfind, bind_eq_ok, pure_eq_ok] at h
    obtain ⟨b', hadd, rfl⟩ := h
    obtain ⟨hs, hs', hr', hamt⟩ := Asset.add_spec hadd (hr b hfind)
    exact ⟨b', rfl, hs'.trans hs.symm, hr', by rw [Table.valueAt_some hfind, hamt]⟩

/-! ## The invariant -/

/-- The tables of the token contract fit together. -/
structure Inv (s : TokenState) : Prop where
  /-- a row is stored under the code of its own symbol, and has one symbol -/
  statKey : ∀ code st, s.stat.find? code = some st →
    st.supply.symbol.code = code ∧ st.maxSupply.symbol = st.supply.symbol ∧
      st.supply.symbol.isValid
  /-- the supply is between zero and the maximum -/
  supplyBounds : ∀ code st, s.stat.find? code = some st →
    0 ≤ st.supply.amount.toInt ∧ st.supply.amount.toInt ≤ st.maxSupply.amount.toInt ∧
      st.maxSupply.amount.toInt < 2 ^ 62
  /-- a balance is stored under the code of its symbol, and its token exists -/
  balanceRow : ∀ k b, s.accounts.find? k = some b →
    0 ≤ b.amount.toInt ∧ ∃ st, s.stat.find? k.key = some st ∧ b.symbol = st.supply.symbol
  /-- the balances of a token add up to its supply -/
  conserved : ∀ code st, s.stat.find? code = some st →
    balanceSum s.accounts code = st.supply.amount.toInt

namespace Inv

variable {s : TokenState}

private theorem accounts_nonneg (hI : s.Inv) (k : Scoped Name SymbolCode) (b : Asset)
    (hk : s.accounts.find? k = some b) : 0 ≤ b.amount.toInt :=
  (hI.balanceRow k b hk).1

/-- No balance is negative. -/
theorem balance_nonneg (hI : s.Inv) (owner : Name) (code : SymbolCode) :
    0 ≤ s.balance owner code :=
  Table.valueAt_nonneg hI.accounts_nonneg _

/-- A balance is at most the supply of its token. -/
theorem balance_le_supply (hI : s.Inv) (owner : Name) {code : SymbolCode} {st : CurrencyStats}
    (hst : s.stat.find? code = some st) : s.balance owner code ≤ st.supply.amount.toInt := by
  rw [← hI.conserved code st hst]
  exact Table.valueAt_le_sumOn hI.accounts_nonneg rfl

/-- Two different owners hold at most the supply together. -/
theorem add_balance_le_supply (hI : s.Inv) {owner owner' : Name} {code : SymbolCode}
    {st : CurrencyStats} (hst : s.stat.find? code = some st) (hne : owner ≠ owner') :
    s.balance owner code + s.balance owner' code ≤ st.supply.amount.toInt := by
  rw [← hI.conserved code st hst]
  exact Table.valueAt_add_le_sumOn hI.accounts_nonneg rfl rfl (by simpa using hne.symm)

/-- A stored balance is within the asset range. -/
theorem balance_inRange (hI : s.Inv) {k : Scoped Name SymbolCode} {b : Asset}
    (hk : s.accounts.find? k = some b) : b.InRange := by
  obtain ⟨h0, st, hst, -⟩ := hI.balanceRow k b hk
  have hle := hI.balance_le_supply k.scope hst
  have hb := hI.supplyBounds _ st hst
  have heq : s.balance k.scope k.key = b.amount.toInt := Table.valueAt_some hk _
  unfold Asset.InRange
  omega

end Inv

/-! ## What the actions do -/

/-- The invariant of the rows survives a change of one balance of an existing token. -/
private theorem balanceRow_set {s : TokenState} {owner : Name} {code : SymbolCode}
    {st : CurrencyStats} {b : Asset} (hst : s.stat.find? code = some st)
    (hs : b.symbol = st.supply.symbol) (hb : 0 ≤ b.amount.toInt) {acnts : Accounts}
    (hacnts : ∀ k b, acnts.find? k = some b →
      0 ≤ b.amount.toInt ∧ ∃ st, s.stat.find? k.key = some st ∧ b.symbol = st.supply.symbol) :
    ∀ k b', (acnts.set ⟨owner, code⟩ b).find? k = some b' →
      0 ≤ b'.amount.toInt ∧
        ∃ st, s.stat.find? k.key = some st ∧ b'.symbol = st.supply.symbol := by
  intro k b' hk
  rw [Table.find?_set] at hk
  split at hk
  · rename_i heq
    cases hk
    subst heq
    exact ⟨hb, st, hst, hs⟩
  · exact hacnts k b' hk

/-- A row whose supply alone has changed still fits all balances of its token. -/
private theorem balanceRow_stat {s : TokenState} {code : SymbolCode} {st : CurrencyStats}
    {supply : Asset} (hst : s.stat.find? code = some st) (hs : supply.symbol = st.supply.symbol)
    {k : Scoped Name SymbolCode} {b : Asset}
    (h : ∃ st, s.stat.find? k.key = some st ∧ b.symbol = st.supply.symbol) :
    ∃ st', (s.stat.set code { st with supply := supply }).find? k.key = some st' ∧
      b.symbol = st'.supply.symbol := by
  obtain ⟨st₀, hst₀, hb⟩ := h
  by_cases hk : k.key = code
  · rw [hk, hst, Option.some.injEq] at hst₀
    subst hst₀
    exact ⟨_, by rw [hk, Table.find?_set_self], hb.trans hs.symm⟩
  · exact ⟨st₀, by rw [Table.find?_set_ne _ _ hk, hst₀], hb⟩

/-- What a successful `create` did. -/
theorem create_spec {ctx : Context} {s s' : TokenState} {issuer : Name} {maxSupply : Asset}
    (h : s.create ctx issuer maxSupply = .ok s') :
    maxSupply.isValid ∧ 0 < maxSupply.amount.toInt ∧ s.stat.find? maxSupply.symbol.code = none ∧
      s' = ⟨s.stat.set maxSupply.symbol.code ⟨⟨0, maxSupply.symbol⟩, maxSupply, issuer⟩,
        s.accounts⟩ := by
  simp only [create, bind_eq_ok, check_eq_ok, requireAuth_eq_ok, pure_eq_ok] at h
  obtain ⟨_, -, _, -, _, hvalid, _, hpos, _, hnone, rfl⟩ := h
  exact ⟨hvalid, Int64.lt_iff_toInt_lt.mp hpos, hnone, rfl⟩

/-- What a successful `issue` did: the supply and the balance of the issuer grow. -/
theorem issue_spec {ctx : Context} {s s' : TokenState} {to_ : Name} {q : Asset} {memo : String}
    (hI : s.Inv) (h : s.issue ctx to_ q memo = .ok s') :
    ∃ st supply b, s.stat.find? q.symbol.code = some st ∧ to_ = st.issuer ∧
      st.issuer ∈ ctx.auth ∧ 0 < q.amount.toInt ∧ q.symbol = st.supply.symbol ∧
      supply.symbol = st.supply.symbol ∧ b.symbol = st.supply.symbol ∧
      supply.amount.toInt = st.supply.amount.toInt + q.amount.toInt ∧
      supply.amount.toInt ≤ st.maxSupply.amount.toInt ∧
      b.amount.toInt = s.balance st.issuer q.symbol.code + q.amount.toInt ∧
      s' = ⟨s.stat.set q.symbol.code { st with supply := supply },
        s.accounts.set ⟨st.issuer, q.symbol.code⟩ b⟩ := by
  simp only [issue, bind_eq_ok, check_eq_ok, requireAuth_eq_ok, getRow_eq_ok, pure_eq_ok] at h
  obtain ⟨_, -, _, -, st, hst, _, hto, _, hauth, _, hvalid, _, hpos, _, hsym, _, hmax, supply,
    hsupply, acnts, hacnts, rfl⟩ := h
  have hbounds := hI.supplyBounds _ st hst
  have hr : st.supply.InRange := by unfold Asset.InRange; omega
  have hq := Asset.isValid_iff.mp hvalid
  obtain ⟨-, hsym', -, hamt⟩ := Asset.add_spec hsupply hr
  obtain ⟨b, rfl, hbs, -, hbamt⟩ := addBalance_spec hacnts hq.1 fun b hb => hI.balance_inRange hb
  -- the difference that `issue` compares with does not wrap
  have hdiff := Int64.toInt_sub_of_mem (a := st.maxSupply.amount) (b := st.supply.amount)
    (by omega) (by omega)
  have hle := Int64.le_iff_toInt_le.mp hmax
  exact ⟨st, supply, b, hst, hto, hauth, Int64.lt_iff_toInt_lt.mp hpos, hsym, hsym',
    hbs.trans hsym, hamt, by omega, hbamt, rfl⟩

/-- What a successful `retire` did: the supply and the balance of the issuer shrink. -/
theorem retire_spec {ctx : Context} {s s' : TokenState} {q : Asset} {memo : String}
    (hI : s.Inv) (h : s.retire ctx q memo = .ok s') :
    ∃ st supply b, s.stat.find? q.symbol.code = some st ∧
      st.issuer ∈ ctx.auth ∧ 0 < q.amount.toInt ∧
      supply.symbol = st.supply.symbol ∧ b.symbol = st.supply.symbol ∧
      supply.amount.toInt = st.supply.amount.toInt - q.amount.toInt ∧
      0 ≤ b.amount.toInt ∧
      b.amount.toInt = s.balance st.issuer q.symbol.code - q.amount.toInt ∧
      s' = ⟨s.stat.set q.symbol.code { st with supply := supply },
        s.accounts.set ⟨st.issuer, q.symbol.code⟩ b⟩ := by
  simp only [retire, bind_eq_ok, check_eq_ok, requireAuth_eq_ok, getRow_eq_ok, pure_eq_ok] at h
  obtain ⟨_, -, _, -, st, hst, _, hauth, _, -, _, hpos, _, hsym, supply, hsupply, acnts, hacnts,
    rfl⟩ := h
  have hbounds := hI.supplyBounds _ st hst
  have hr : st.supply.InRange := by unfold Asset.InRange; omega
  obtain ⟨-, hsym', -, hamt⟩ := Asset.sub_spec hsupply hr
  obtain ⟨b, b', hb, rfl, hle, hbs, hbs', -, hbamt⟩ :=
    subBalance_spec hacnts fun b hb => hI.balance_inRange hb
  have hbal : s.balance st.issuer q.symbol.code = b.amount.toInt := Table.valueAt_some hb _
  exact ⟨st, supply, b', hst, hauth, Int64.lt_iff_toInt_lt.mp hpos, hsym',
    hbs'.trans (hbs.symm.trans hsym), hamt, by omega, by omega, rfl⟩

/-- What a successful `transfer` did: the receiver's row is set after the sender's. -/
theorem transfer_rows {ctx : Context} {s s' : TokenState} {from_ to_ : Name} {q : Asset}
    {memo : String} (hI : s.Inv) (h : s.transfer ctx from_ to_ q memo = .ok s') :
    ∃ st bf bt, from_ ≠ to_ ∧ from_ ∈ ctx.auth ∧ s.stat.find? q.symbol.code = some st ∧
      0 < q.amount.toInt ∧ bf.symbol = st.supply.symbol ∧ bt.symbol = st.supply.symbol ∧
      0 ≤ bf.amount.toInt ∧ bf.amount.toInt = s.balance from_ q.symbol.code - q.amount.toInt ∧
      bt.amount.toInt = s.balance to_ q.symbol.code + q.amount.toInt ∧
      s' = ⟨s.stat,
        (s.accounts.set ⟨from_, q.symbol.code⟩ bf).set ⟨to_, q.symbol.code⟩ bt⟩ := by
  simp only [transfer, bind_eq_ok, check_eq_ok, requireAuth_eq_ok, getRow_eq_ok, pure_eq_ok] at h
  obtain ⟨_, hne, _, hauth, _, -, st, hst, _, hvalid, _, hpos, _, hsym, _, -, acnts, hsub, acnts',
    hadd, rfl⟩ := h
  have hq := Asset.isValid_iff.mp hvalid
  obtain ⟨b, bf, hb, rfl, hle, hbs, hbs', hbr, hbamt⟩ :=
    subBalance_spec hsub fun b hb => hI.balance_inRange hb
  have hkey : (⟨to_, q.symbol.code⟩ : Scoped Name SymbolCode) ≠ ⟨from_, q.symbol.code⟩ := by
    simpa using hne.symm
  obtain ⟨bt, rfl, hts, -, htamt⟩ := addBalance_spec hadd hq.1 fun b hb =>
    hI.balance_inRange (Table.find?_set_ne s.accounts bf hkey ▸ hb)
  rw [Table.valueAt_set_ne _ _ hkey] at htamt
  have hbal : s.balance from_ q.symbol.code = b.amount.toInt := Table.valueAt_some hb _
  exact ⟨st, bf, bt, hne, hauth, hst, Int64.lt_iff_toInt_lt.mp hpos,
    hbs'.trans (hbs.symm.trans hsym), hts.trans hsym, by omega, by omega, htamt, rfl⟩

/-- What a successful `openRow` did: a balance of zero, or nothing. -/
theorem openRow_spec {ctx : Context} {s s' : TokenState} {owner : Name} {symbol : Symbol}
    {ramPayer : Name} (h : s.openRow ctx owner symbol ramPayer = .ok s') :
    s' = s ∨ ∃ st, s.stat.find? symbol.code = some st ∧ st.supply.symbol = symbol ∧
      s.accounts.find? ⟨owner, symbol.code⟩ = none ∧
      s' = ⟨s.stat, s.accounts.set ⟨owner, symbol.code⟩ ⟨0, symbol⟩⟩ := by
  simp only [openRow, bind_eq_ok, check_eq_ok, requireAuth_eq_ok, getRow_eq_ok] at h
  obtain ⟨_, -, _, -, st, hst, _, hsym, h⟩ := h
  split at h
  · rename_i hnone
    simp only [bind_eq_ok, pure_eq_ok, Asset.make_eq_ok] at h
    obtain ⟨b, ⟨-, -, -, rfl⟩, rfl⟩ := h
    exact .inr ⟨st, hst, hsym, by simpa using hnone, rfl⟩
  · exact .inl (pure_eq_ok.mp h).symm

/-- What a successful `close` did: a row without tokens is erased. -/
theorem close_spec {ctx : Context} {s s' : TokenState} {owner : Name} {symbol : Symbol}
    (h : s.close ctx owner symbol = .ok s') :
    ∃ b, s.accounts.find? ⟨owner, symbol.code⟩ = some b ∧ b.amount.toInt = 0 ∧
      s' = ⟨s.stat, s.accounts.erase ⟨owner, symbol.code⟩⟩ := by
  simp only [close, bind_eq_ok, check_eq_ok, requireAuth_eq_ok, getRow_eq_ok, pure_eq_ok] at h
  obtain ⟨_, -, b, hb, _, hzero, rfl⟩ := h
  exact ⟨b, hb, by rw [hzero]; rfl, rfl⟩

/-! ## One step -/

/-- A new token has no supply. -/
theorem create_inv {ctx : Context} {s s' : TokenState} {issuer : Name} {maxSupply : Asset}
    (hI : s.Inv) (h : s.create ctx issuer maxSupply = .ok s') : s'.Inv := by
  obtain ⟨hvalid, hpos, hnone, rfl⟩ := create_spec h
  obtain ⟨hr, hsym⟩ := Asset.isValid_iff.mp hvalid
  refine ⟨?_, ?_, ?_, ?_⟩
  · -- the new token has its own code
    intro code st hst
    rw [Table.find?_set] at hst
    split at hst
    · rename_i heq
      cases hst
      exact ⟨heq.symm, rfl, hsym⟩
    · exact hI.statKey code st hst
  · -- its supply is zero, below its maximum
    intro code st hst
    rw [Table.find?_set] at hst
    split at hst
    · cases hst
      exact ⟨le_refl _, hpos.le, hr.2⟩
    · exact hI.supplyBounds code st hst
  · -- no balance is written
    intro k b hk
    obtain ⟨h0, st, hst, hb⟩ := hI.balanceRow k b hk
    refine ⟨h0, st, ?_, hb⟩
    rw [Table.find?_set_ne _ _ (by rintro heq; rw [heq, hnone] at hst; exact nomatch hst), hst]
  · intro code st hst
    rw [Table.find?_set] at hst
    split at hst
    · -- no balance row can exist for a code without a `stat` row
      rename_i heq
      cases hst
      refine Table.sumOn_eq_zero fun k b hk hkey => ?_
      obtain ⟨-, st, hst, -⟩ := hI.balanceRow k b hk
      rw [hkey, heq, hnone] at hst
      cases hst
    · exact hI.conserved code st hst

/-- `issue` and `retire` move the supply and one balance by the same amount. -/
private theorem inv_of_supply {s : TokenState} (hI : s.Inv) {owner : Name} {code : SymbolCode}
    {st : CurrencyStats} {supply b : Asset} (hst : s.stat.find? code = some st)
    (hsym : supply.symbol = st.supply.symbol) (hbsym : b.symbol = st.supply.symbol)
    (hb0 : 0 ≤ b.amount.toInt) (h0 : 0 ≤ supply.amount.toInt)
    (hmax : supply.amount.toInt ≤ st.maxSupply.amount.toInt)
    (hmove : supply.amount.toInt - st.supply.amount.toInt =
      b.amount.toInt - s.balance owner code) :
    Inv ⟨s.stat.set code { st with supply := supply }, s.accounts.set ⟨owner, code⟩ b⟩ := by
  have hkey := hI.statKey code st hst
  have hbounds := hI.supplyBounds code st hst
  refine ⟨?_, ?_, ?_, ?_⟩
  · -- the rows of the tokens keep their symbols
    intro code' st' hst'
    rw [Table.find?_set] at hst'
    split at hst'
    · rename_i heq
      cases hst'
      subst heq
      exact ⟨by rw [hsym]; exact hkey.1, by rw [hsym]; exact hkey.2.1, by rw [hsym]; exact hkey.2.2⟩
    · exact hI.statKey code' st' hst'
  · -- the new supply is within its bounds
    intro code' st' hst'
    rw [Table.find?_set] at hst'
    split at hst'
    · cases hst'
      exact ⟨h0, hmax, hbounds.2.2⟩
    · exact hI.supplyBounds code' st' hst'
  · -- the balances are in the symbol of their token
    intro k b' hk
    have hrow := balanceRow_set hst hbsym hb0 hI.balanceRow k b' hk
    exact ⟨hrow.1, balanceRow_stat hst hsym hrow.2⟩
  · intro code' st' hst'
    rw [Table.find?_set] at hst'
    -- the sum of this token, and of no other, changes by what the balance does
    show (s.accounts.set ⟨owner, code⟩ b).sumOn (fun k => k.key = code') _ = _
    rw [Table.sumOn_set]
    unfold balance at hmove
    split at hst'
    · rename_i heq
      cases hst'
      subst heq
      have hsum := hI.conserved _ st hst
      unfold balanceSum at hsum
      rw [if_pos rfl]
      simp only
      omega
    · rename_i hne
      rw [if_neg (Ne.symm hne), add_zero]
      exact hI.conserved code' st' hst'

/-- What is issued is added to the supply and to the issuer's balance. -/
theorem issue_inv {ctx : Context} {s s' : TokenState} {to_ : Name} {q : Asset} {memo : String}
    (hI : s.Inv) (h : s.issue ctx to_ q memo = .ok s') : s'.Inv := by
  obtain ⟨st, supply, b, hst, -, -, hpos, -, hsym, hbsym, hamt, hmax, hb, rfl⟩ := issue_spec hI h
  have hbal := hI.balance_nonneg st.issuer q.symbol.code
  have hbounds := hI.supplyBounds _ st hst
  exact inv_of_supply hI hst hsym hbsym (by omega) (by omega) hmax (by omega)

/-- What is retired is taken from the supply and from the issuer's balance. -/
theorem retire_inv {ctx : Context} {s s' : TokenState} {q : Asset} {memo : String}
    (hI : s.Inv) (h : s.retire ctx q memo = .ok s') : s'.Inv := by
  obtain ⟨st, supply, b, hst, -, hpos, hsym, hbsym, hamt, hb0, hb, rfl⟩ := retire_spec hI h
  have hle := hI.balance_le_supply st.issuer hst
  have hbounds := hI.supplyBounds _ st hst
  exact inv_of_supply hI hst hsym hbsym hb0 (by omega) (by omega) (by omega)

/-- What is transferred is taken from one balance and added to another. -/
theorem transfer_inv {ctx : Context} {s s' : TokenState} {from_ to_ : Name} {q : Asset}
    {memo : String} (hI : s.Inv) (h : s.transfer ctx from_ to_ q memo = .ok s') : s'.Inv := by
  obtain ⟨st, bf, bt, hne, -, hst, hpos, hfs, hts, hf0, hf, ht, rfl⟩ := transfer_rows hI h
  have ht0 : 0 ≤ bt.amount.toInt := by
    have := hI.balance_nonneg to_ q.symbol.code
    omega
  refine ⟨hI.statKey, hI.supplyBounds,
    balanceRow_set hst hts ht0 (balanceRow_set hst hfs hf0 hI.balanceRow), ?_⟩
  intro code st' hst'
  have hkey : (⟨to_, q.symbol.code⟩ : Scoped Name SymbolCode) ≠ ⟨from_, q.symbol.code⟩ := by
    simpa using hne.symm
  have hsum := hI.conserved code st' hst'
  unfold balance at hf ht
  unfold balanceSum at hsum
  show ((s.accounts.set ⟨from_, q.symbol.code⟩ bf).set ⟨to_, q.symbol.code⟩ bt).sumOn
    (fun k => k.key = code) _ = _
  rw [Table.sumOn_set, Table.sumOn_set, Table.valueAt_set_ne _ _ hkey]
  simp only
  split <;> omega

/-- A row is opened empty. -/
theorem openRow_inv {ctx : Context} {s s' : TokenState} {owner : Name} {symbol : Symbol}
    {ramPayer : Name} (hI : s.Inv) (h : s.openRow ctx owner symbol ramPayer = .ok s') :
    s'.Inv := by
  rcases openRow_spec h with rfl | ⟨st, hst, hsym, hnone, rfl⟩
  · exact hI
  · refine ⟨hI.statKey, hI.supplyBounds,
      balanceRow_set hst hsym.symm (le_refl _) hI.balanceRow, ?_⟩
    intro code st' hst'
    have hsum := hI.conserved code st' hst'
    show (s.accounts.set ⟨owner, symbol.code⟩ ⟨0, symbol⟩).sumOn (fun k => k.key = code) _ = _
    rw [Table.sumOn_set, Table.valueAt_none hnone]
    simpa [balanceSum] using hsum

/-- A row is closed empty. -/
theorem close_inv {ctx : Context} {s s' : TokenState} {owner : Name} {symbol : Symbol}
    (hI : s.Inv) (h : s.close ctx owner symbol = .ok s') : s'.Inv := by
  obtain ⟨b, hb, hzero, rfl⟩ := close_spec h
  refine ⟨hI.statKey, hI.supplyBounds, ?_, ?_⟩
  · intro k b' hk
    rw [Table.find?_erase] at hk
    split at hk
    · cases hk
    · exact hI.balanceRow k b' hk
  · intro code st hst
    have hsum := hI.conserved code st hst
    show (s.accounts.erase ⟨owner, symbol.code⟩).sumOn (fun k => k.key = code) _ = _
    rw [Table.sumOn_erase, Table.valueAt_some hb, hzero]
    simpa [balanceSum] using hsum

/-- Every action keeps the invariant. -/
theorem step_inv {s s' : TokenState} {call : TokenCall} (hI : s.Inv)
    (h : s.step call = .ok s') : s'.Inv := by
  obtain ⟨ctx, action⟩ := call
  cases action with
  | create issuer maximumSupply => exact create_inv hI h
  | issue to_ quantity memo => exact issue_inv hI h
  | retire quantity memo => exact retire_inv hI h
  | transfer from_ to_ quantity memo => exact transfer_inv hI h
  | openRow owner symbol ramPayer => exact openRow_inv hI h
  | close owner symbol => exact close_inv hI h

theorem init_inv : init.Inv :=
  ⟨fun _ _ h => (nomatch h), fun _ _ h => (nomatch h), fun _ _ h => (nomatch h),
    fun _ _ h => (nomatch h)⟩

/-- The invariant holds after every run. -/
theorem exec_inv {s : TokenState} (hI : s.Inv) (calls : List TokenCall) :
    (Run.exec step s calls).Inv :=
  Run.exec_induction (I := Inv) (fun _ _ _ hI h => step_inv hI h) hI calls

/-! ## No overflow

In a state with the invariant, none of the range checks of the asset operators can
fail: every sum that an action forms is bounded by a maximum supply. -/

/-- Sums below 62 bits are amounts. -/
private theorem avoids_add {a b : Asset} (hlo : -2 ^ 62 < a.amount.toInt + b.amount.toInt)
    (hhi : a.amount.toInt + b.amount.toInt < 2 ^ 62) : Avoids Asset.rangeErrors (a.add b) := by
  intro e he
  rcases Asset.add_eq_error he with ⟨-, rfl⟩ | h
  · decide
  · exact absurd ⟨hlo, hhi⟩ h

/-- Differences below 62 bits are amounts. -/
private theorem avoids_sub {a b : Asset} (hlo : -2 ^ 62 < a.amount.toInt - b.amount.toInt)
    (hhi : a.amount.toInt - b.amount.toInt < 2 ^ 62) : Avoids Asset.rangeErrors (a.sub b) := by
  intro e he
  rcases Asset.sub_eq_error he with ⟨-, rfl⟩ | h
  · decide
  · exact absurd ⟨hlo, hhi⟩ h

/-- `addBalance` stays in range when the new balance does. -/
private theorem avoids_addBalance {acnts : Accounts} {owner : Name} {value : Asset}
    (hlo : -2 ^ 62 < (acnts.valueAt ⟨owner, value.symbol.code⟩ fun b => b.amount.toInt) +
      value.amount.toInt)
    (hhi : (acnts.valueAt ⟨owner, value.symbol.code⟩ fun b => b.amount.toInt) +
      value.amount.toInt < 2 ^ 62) :
    Avoids Asset.rangeErrors (addBalance acnts owner value) := by
  unfold addBalance
  cases hfind : acnts.find? ⟨owner, value.symbol.code⟩ with
  | none => exact avoids_pure
  | some b =>
    rw [Table.valueAt_some hfind] at hlo hhi
    exact avoids_bind (avoids_add hlo hhi) fun _ _ => avoids_pure

/-- `subBalance` stays in range when value and balance are not negative. -/
private theorem avoids_subBalance {acnts : Accounts} {owner : Name} {value : Asset}
    (hv : 0 < value.amount.toInt)
    (hr : ∀ b, acnts.find? ⟨owner, value.symbol.code⟩ = some b → b.InRange) :
    Avoids Asset.rangeErrors (subBalance acnts owner value) := by
  refine avoids_bind (avoids_getRow (by decide)) fun b hb => ?_
  refine avoids_bind (avoids_check (by decide)) fun _ hle => ?_
  have hle := Int64.le_iff_toInt_le.mp (check_eq_ok.mp hle)
  have hbr := hr b (getRow_eq_ok.mp hb)
  unfold Asset.InRange at hbr
  exact avoids_bind (avoids_sub (by omega) (by omega)) fun _ _ => avoids_pure

/-- No creation of a token fails for a range. -/
private theorem create_avoids (ctx : Context) (s : TokenState) (issuer : Name)
    (maxSupply : Asset) : Avoids Asset.rangeErrors (s.create ctx issuer maxSupply) := by
  refine avoids_bind (avoids_check (by decide)) fun _ _ => ?_
  refine avoids_bind (avoids_check (by decide)) fun _ _ => ?_
  refine avoids_bind (avoids_check (by decide)) fun _ _ => ?_
  refine avoids_bind (avoids_check (by decide)) fun _ _ => ?_
  exact avoids_bind (avoids_check (by decide)) fun _ _ => avoids_pure

/-- No issue fails for a range. -/
private theorem issue_avoids {ctx : Context} {s : TokenState} (hI : s.Inv) (to_ : Name)
    (q : Asset) (memo : String) : Avoids Asset.rangeErrors (s.issue ctx to_ q memo) := by
  -- none of the checks has the text of a range error
  refine avoids_bind (avoids_check (by decide)) fun _ _ => ?_
  refine avoids_bind (avoids_check (by decide)) fun _ _ => ?_
  refine avoids_bind (avoids_getRow (by decide)) fun st hst => ?_
  refine avoids_bind (avoids_check (by decide)) fun _ _ => ?_
  refine avoids_bind (avoids_check (by decide)) fun _ _ => ?_
  refine avoids_bind (avoids_check (by decide)) fun _ _ => ?_
  refine avoids_bind (avoids_check (by decide)) fun _ hpos => ?_
  refine avoids_bind (avoids_check (by decide)) fun _ hsym => ?_
  refine avoids_bind (avoids_check (by decide)) fun _ hmax => ?_
  -- the supply stays below its maximum, which is in range
  have hst := getRow_eq_ok.mp hst
  have hpos := Int64.lt_iff_toInt_lt.mp (check_eq_ok.mp hpos)
  have hmax := Int64.le_iff_toInt_le.mp (check_eq_ok.mp hmax)
  have hbounds := hI.supplyBounds _ st hst
  have hdiff := Int64.toInt_sub_of_mem (a := st.maxSupply.amount) (b := st.supply.amount)
    (by omega) (by omega)
  have hbal := hI.balance_nonneg st.issuer q.symbol.code
  have hle := hI.balance_le_supply st.issuer hst
  rw [Int64.toInt_zero] at hpos
  refine avoids_bind (avoids_add (by omega) (by omega)) fun _ _ => ?_
  unfold balance at hbal hle
  exact avoids_bind (avoids_addBalance (by omega) (by omega)) fun _ _ => avoids_pure

/-- No retirement fails for a range. -/
private theorem retire_avoids {ctx : Context} {s : TokenState} (hI : s.Inv) (q : Asset)
    (memo : String) : Avoids Asset.rangeErrors (s.retire ctx q memo) := by
  refine avoids_bind (avoids_check (by decide)) fun _ _ => ?_
  refine avoids_bind (avoids_check (by decide)) fun _ _ => ?_
  refine avoids_bind (avoids_getRow (by decide)) fun st hst => ?_
  refine avoids_bind (avoids_check (by decide)) fun _ _ => ?_
  refine avoids_bind (avoids_check (by decide)) fun _ hvalid => ?_
  refine avoids_bind (avoids_check (by decide)) fun _ hpos => ?_
  refine avoids_bind (avoids_check (by decide)) fun _ hsym => ?_
  have hpos := Int64.lt_iff_toInt_lt.mp (check_eq_ok.mp hpos)
  rw [Int64.toInt_zero] at hpos
  have hbounds := hI.supplyBounds _ st (getRow_eq_ok.mp hst)
  have hq := (Asset.isValid_iff.mp (check_eq_ok.mp hvalid)).1
  unfold Asset.InRange at hq
  -- the supply is reduced before the balance is looked at, so it may go below zero here
  refine avoids_bind (avoids_sub (by omega) (by omega)) fun _ _ => ?_
  exact avoids_bind (avoids_subBalance hpos fun b hb => hI.balance_inRange hb)
    fun _ _ => avoids_pure

/-- No transfer fails for a range. -/
private theorem transfer_avoids {ctx : Context} {s : TokenState} (hI : s.Inv) (from_ to_ : Name)
    (q : Asset) (memo : String) :
    Avoids Asset.rangeErrors (s.transfer ctx from_ to_ q memo) := by
  -- none of the checks has the text of a range error
  refine avoids_bind (avoids_check (by decide)) fun _ hne => ?_
  refine avoids_bind (avoids_check (by decide)) fun _ _ => ?_
  refine avoids_bind (avoids_check (by decide)) fun _ _ => ?_
  refine avoids_bind (avoids_getRow (by decide)) fun st hst => ?_
  refine avoids_bind (avoids_check (by decide)) fun _ _ => ?_
  refine avoids_bind (avoids_check (by decide)) fun _ hpos => ?_
  refine avoids_bind (avoids_check (by decide)) fun _ hsym => ?_
  refine avoids_bind (avoids_check (by decide)) fun _ _ => ?_
  have hne := check_eq_ok.mp hne
  have hst := getRow_eq_ok.mp hst
  have hpos := Int64.lt_iff_toInt_lt.mp (check_eq_ok.mp hpos)
  -- the subtraction is covered by the balance
  refine avoids_bind (avoids_subBalance hpos fun b hb => hI.balance_inRange hb) fun a ha => ?_
  obtain ⟨b, b', hb, rfl, hle, -⟩ := subBalance_spec ha fun b hb => hI.balance_inRange hb
  have hkey : (⟨to_, q.symbol.code⟩ : Scoped Name SymbolCode) ≠ ⟨from_, q.symbol.code⟩ := by
    simpa using hne.symm
  -- sender and receiver together hold at most the supply
  have hsum := hI.add_balance_le_supply hst hne
  have hbal := hI.balance_nonneg to_ q.symbol.code
  have hbounds := hI.supplyBounds _ st hst
  rw [balance, Table.valueAt_some hb] at hsum
  unfold balance at hsum hbal
  rw [Int64.toInt_zero] at hpos
  have hval := Table.valueAt_set_ne s.accounts b' hkey fun b => b.amount.toInt
  exact avoids_bind (avoids_addBalance (by omega) (by omega)) fun _ _ => avoids_pure

/-- Opening a row never fails for a range. -/
private theorem openRow_avoids (ctx : Context) (s : TokenState) (owner : Name) (symbol : Symbol)
    (ramPayer : Name) : Avoids Asset.rangeErrors (s.openRow ctx owner symbol ramPayer) := by
  refine avoids_bind (avoids_check (by decide)) fun _ _ => ?_
  refine avoids_bind (avoids_check (by decide)) fun _ _ => ?_
  refine avoids_bind (avoids_getRow (by decide)) fun _ _ => ?_
  refine avoids_bind (avoids_check (by decide)) fun _ _ => ?_
  split
  · refine avoids_bind ?_ fun _ _ => avoids_pure
    refine avoids_bind (avoids_check (by decide)) fun _ _ => ?_
    exact avoids_bind (avoids_check (by decide)) fun _ _ => avoids_pure
  · exact avoids_pure

/-- Closing a row never fails for a range. -/
private theorem close_avoids (ctx : Context) (s : TokenState) (owner : Name) (symbol : Symbol) :
    Avoids Asset.rangeErrors (s.close ctx owner symbol) := by
  refine avoids_bind (avoids_check (by decide)) fun _ _ => ?_
  refine avoids_bind (avoids_getRow (by decide)) fun _ _ => ?_
  exact avoids_bind (avoids_check (by decide)) fun _ _ => avoids_pure

/-- No action fails in the range check of an asset operator. -/
theorem step_avoids_rangeErrors {s : TokenState} (hI : s.Inv) (call : TokenCall) (e : String)
    (h : s.step call = .error e) : e ∉ Asset.rangeErrors := by
  obtain ⟨ctx, action⟩ := call
  cases action with
  | create issuer maximumSupply => exact create_avoids ctx s issuer maximumSupply e h
  | issue to_ quantity memo => exact issue_avoids hI to_ quantity memo e h
  | retire quantity memo => exact retire_avoids hI quantity memo e h
  | transfer from_ to_ quantity memo => exact transfer_avoids hI from_ to_ quantity memo e h
  | openRow owner symbol ramPayer => exact openRow_avoids ctx s owner symbol ramPayer e h
  | close owner symbol => exact close_avoids ctx s owner symbol e h

/-! ## Conservation -/

/-- After every run of the token contract, the balances of a token add up to its
    supply, which is between zero and a maximum supply below `2 ^ 62`; no balance is
    negative or of another precision than its token; and no action that is tried
    next overflows: neither the difference that `issue` compares with nor an asset
    operator. -/
theorem token_conservation (calls : List TokenCall) :
    let s := Run.exec step init calls
    (∀ code st, s.stat.find? code = some st →
      balanceSum s.accounts code = st.supply.amount.toInt ∧
      0 ≤ st.supply.amount.toInt ∧
      st.supply.amount.toInt ≤ st.maxSupply.amount.toInt ∧
      st.maxSupply.amount.toInt < 2 ^ 62 ∧
      (st.maxSupply.amount - st.supply.amount).toInt =
        st.maxSupply.amount.toInt - st.supply.amount.toInt ∧
      ∀ owner b, s.accounts.find? ⟨owner, code⟩ = some b →
        0 ≤ b.amount.toInt ∧ b.symbol.precision = st.supply.symbol.precision) ∧
    (∀ k b, s.accounts.find? k = some b → ∃ st, s.stat.find? k.key = some st) ∧
    ∀ call e, s.step call = .error e → e ∉ Asset.rangeErrors := by
  intro s
  have hI : s.Inv := exec_inv init_inv calls
  refine ⟨fun code st hst => ?_, fun k b hk => ?_, step_avoids_rangeErrors hI⟩
  · have hbounds := hI.supplyBounds code st hst
    refine ⟨hI.conserved code st hst, hbounds.1, hbounds.2.1, hbounds.2.2,
      Int64.toInt_sub_of_mem (by omega) (by omega), fun owner b hb => ?_⟩
    obtain ⟨h0, st', hst', hsym⟩ := hI.balanceRow _ b hb
    simp only [hst, Option.some.injEq] at hst'
    exact ⟨h0, by rw [hsym, hst']⟩
  · obtain ⟨-, st, hst, -⟩ := hI.balanceRow k b hk
    exact ⟨st, hst⟩

end TokenState
end UxContracts
