import UxContracts.Spec.Staking

/-!
# What the RAM actions do

One lemma for each function of the RAM market and for `newaccount`, which makes the
first `userres` row of an account. Amounts of bytes stay in the machine types here;
that the sums do not wrap around follows from the ledgers only.
-/

namespace UxContracts

namespace SystemState

variable {F : Type}

/-! ## The core symbol -/

/-- The core symbol, or the empty symbol before the contract is initialised. -/
def coreSym (s : SystemState F) : Symbol :=
  s.rammarket.elim ⟨⟨0⟩, 0⟩ fun m => m.quote.symbol

theorem coreSym_of_ok {s : SystemState F} {sym : Symbol} (h : s.coreSymbol = .ok sym) :
    sym = s.coreSym := by
  obtain ⟨m, hm, rfl⟩ := coreSymbol_eq_ok.mp h
  rw [coreSym, hm, Option.elim_some]

/-! ## The supply of RAM -/

/-- A change of the base connector keeps the quote connector. -/
theorem modifyBase_spec {s s' : SystemState F} {delta : Int64} (h : s.modifyBase delta = .ok s') :
    ∃ m m' : ExchangeState, s.rammarket = some m ∧ m'.quote = m.quote ∧
      s' = { s with rammarket := some m' } := by
  unfold modifyBase at h
  split at h
  · rename_i m hm
    cases h
    refine ⟨m, _, hm, ?_, rfl⟩
    rfl
  · cases h

/-- Only the supply of RAM, the market's base connector and the time of the last increase
    change. The supply grows by at most the greatest rate for each slot. -/
structure RamGrowth (s s' : SystemState F) : Prop where
  eq : s' = { s with
    gstate := { s.gstate with maxRamSize := s'.gstate.maxRamSize }
    rammarket := s'.rammarket
    gstate2 := { s.gstate2 with lastRamIncrease := s'.gstate2.lastRamIncrease } }
  market : s'.rammarket.isSome = s.rammarket.isSome
  coreSym : s'.coreSym = s.coreSym
  grown : ∃ grown : UInt32, s'.gstate.maxRamSize = s.gstate.maxRamSize + grown.toUInt64 ∧
    s.gstate2.lastRamIncrease ≤ s'.gstate2.lastRamIncrease ∧
    grown.toNat ≤ (s'.gstate2.lastRamIncrease.toNat - s.gstate2.lastRamIncrease.toNat) * 65535

/-- The growth changes the supply, the market and the slot only. -/
theorem updateRamSupply_spec {ctx : Context} {s s' : SystemState F}
    (h : s.updateRamSupply ctx = .ok s') : RamGrowth s s' := by
  simp only [updateRamSupply] at h
  split at h
  · -- the blocks have been counted before
    cases h
    exact ⟨rfl, rfl, rfl, 0, by simp, UInt32.le_refl _, by simp⟩
  · -- the market grows with the supply
    rename_i hlt
    have hlt := UInt32.not_le.mp hlt
    simp only [bind_eq_ok, pure_eq_ok] at h
    obtain ⟨s₁, hmod, rfl⟩ := h
    obtain ⟨m, m', hm, hq, rfl⟩ := modifyBase_spec hmod
    refine ⟨rfl, ?_, ?_, _, rfl, UInt32.le_of_lt hlt, ?_⟩
    · simp only at hm ⊢
      rw [hm]
      rfl
    · simp only at hm
      simp only [coreSym, hm, Option.elim_some, hq]
    · -- the 32-bit product is at most the exact one
      have hsub : (ctx.now.toSlot - s.gstate2.lastRamIncrease).toNat =
          ctx.now.toSlot.toNat - s.gstate2.lastRamIncrease.toNat :=
        UInt32.toNat_sub_of_le _ _ (UInt32.le_of_lt hlt)
      have hrate : s.gstate2.newRamPerBlock.toNat ≤ 65535 := by
        have := s.gstate2.newRamPerBlock.toNat_lt
        omega
      rw [UInt32.toNat_mul, hsub, UInt16.toNat_toUInt32]
      exact (Nat.mod_le _ _).trans (Nat.mul_le_mul_left _ hrate)

/-- With a market the supply can be brought up to date. -/
theorem updateRamSupply_ok (ctx : Context) {s : SystemState F} (hm : s.rammarket.isSome) :
    ∃ s', s.updateRamSupply ctx = .ok s' := by
  obtain ⟨m, hm⟩ := Option.isSome_iff_exists.mp hm
  simp only [updateRamSupply]
  split
  · exact ⟨s, rfl⟩
  · simp only [modifyBase, hm]
    exact ⟨_, rfl⟩

/-! ## Buying -/

/-- The receiver's row with the bytes added; its weights stay. -/
theorem addRamBytes_spec {s : SystemState F} {receiver : Name} {bytes : Int64}
    {res : UserResources} {sym : Symbol} (hrows : StakeRows s sym)
    (h : s.addRamBytes receiver bytes = .ok res) :
    StakePair res.netWeight res.cpuWeight ∧
      res.net = s.userres.valueAt receiver UserResources.net ∧
      res.cpu = s.userres.valueAt receiver UserResources.cpu ∧
      ((s.userres.find? receiver = none ∧ res.ramBytes = bytes) ∨
        ∃ u, s.userres.find? receiver = some u ∧ res.ramBytes = u.ramBytes + bytes) := by
  unfold addRamBytes at h
  split at h
  · rename_i hfind
    simp only [bind_eq_ok, pure_eq_ok, Asset.make_eq_ok] at h
    obtain ⟨sym', -, zero, ⟨hlo, hhi, -, rfl⟩, rfl⟩ := h
    rw [Table.valueAt_none hfind, Table.valueAt_none hfind]
    exact ⟨⟨Int64.toInt_zero.ge, Int64.toInt_zero.ge, ⟨hlo, hhi⟩, ⟨hlo, hhi⟩⟩, Int64.toInt_zero,
      Int64.toInt_zero, .inl ⟨hfind, rfl⟩⟩
  · rename_i u hfind
    simp only [pure_eq_ok] at h
    subst h
    rw [Table.valueAt_some hfind, Table.valueAt_some hfind]
    exact ⟨hrows.userres _ u hfind, rfl, rfl, .inr ⟨u, hfind, rfl⟩⟩

/-- The limit of an account is stored in one table. -/
theorem updateRamLimit_eq (s : SystemState F) (owner : Name) (ramBytes : Int64) :
    ∃ limits, s.updateRamLimit owner ramBytes = { s with limits := limits } := by
  unfold updateRamLimit
  split
  · exact ⟨_, rfl⟩
  · exact ⟨s.limits, rfl⟩

/-- Whole kilobytes at their price. -/
theorem buyram_bytes {q : Int64} (hmod : q % 10000 = 0) (hpos : 0 < q.toInt) :
    ∃ k : Int, 0 < k ∧ q.toInt = 10000 * k ∧ (q / 10000 * 1024).toInt = 1024 * k := by
  have hlt := q.toInt_lt
  have hdiv : (q / 10000).toInt = q.toInt.tdiv 10000 :=
    Int64.toInt_div_of_ne_right _ _ (by decide)
  have hrem : (q % 10000).toInt = q.toInt.tmod 10000 := Int64.toInt_mod _ _
  rw [hmod, Int64.toInt_zero] at hrem
  have heq := Int.mul_tdiv_add_tmod q.toInt 10000
  rw [← hrem, add_zero] at heq
  have h1024 : (1024 : Int64).toInt = 1024 := rfl
  refine ⟨q.toInt.tdiv 10000, by omega, by omega, ?_⟩
  rw [Int64.toInt_mul_of_mem (by rw [hdiv, h1024]; omega) (by rw [hdiv, h1024]; omega), hdiv, h1024]
  omega

/-- What a successful `buyram` did, after the supply has been brought up to date. -/
theorem buyram_spec {ctx : Context} {s s' : SystemState F} {payer receiver : Name} {q : Asset}
    {sends : List InlineAction} (h : s.buyram ctx payer receiver q = .ok (s', sends)) :
    ∃ s₁ res limits, s.updateRamSupply ctx = .ok s₁ ∧ q.symbol = ramcoreSymbol ∧
      q.amount % 10000 = 0 ∧ 0 < q.amount.toInt ∧ s.rammarket.isSome ∧
      s₁.addRamBytes receiver (q.amount / 10000 * 1024) = .ok res ∧
      s' = { s₁ with
        gstate := { s₁.gstate with
          totalRamBytesReserved :=
            s₁.gstate.totalRamBytesReserved + (q.amount / 10000 * 1024).toUInt64
          totalRamStake := s₁.gstate.totalRamStake + q.amount }
        userres := s₁.userres.set receiver res
        limits := limits } ∧
      sends = [⟨[payer, ramAccount], .transfer payer ramAccount q "buy ram"⟩] := by
  simp only [buyram, bind_eq_ok, check_eq_ok, pure_eq_ok, Prod.mk.injEq] at h
  obtain ⟨_, -, s₁, hsup, _, hmod, _, hsym, _, hpos, _, hmk, _, -, res, hres, hs', rfl⟩ := h
  obtain ⟨limits, hlim⟩ := updateRamLimit_eq { s₁ with
    gstate := { s₁.gstate with
      totalRamBytesReserved :=
        s₁.gstate.totalRamBytesReserved + (q.amount / 10000 * 1024).toUInt64
      totalRamStake := s₁.gstate.totalRamStake + q.amount }
    userres := s₁.userres.set receiver res } receiver res.ramBytes
  rw [hlim] at hs'
  have hpos := Int64.lt_iff_toInt_lt.mp hpos
  rw [Int64.toInt_zero] at hpos
  rw [(updateRamSupply_spec hsup).market] at hmk
  exact ⟨s₁, res, limits, hsup, hsym, hmod, hpos, hmk, hres, hs'.symm, rfl⟩

/-- `buyrambytes` is a purchase at the price it computes. -/
theorem buyrambytes_spec {ctx : Context} {s : SystemState F} {payer receiver : Name}
    {bytes : UInt32} {r : SystemState F × List InlineAction}
    (h : s.buyrambytes ctx payer receiver bytes = .ok r) :
    s.buyram ctx payer receiver
      ⟨(bytes / 1024 * 10000).toUInt64.toInt64, ramcoreSymbol⟩ = .ok r := by
  simp only [buyrambytes, bind_eq_ok, check_eq_ok, Asset.make_eq_ok] at h
  obtain ⟨_, -, _, -, quant, ⟨-, -, -, rfl⟩, h⟩ := h
  exact h

/-! ## Selling -/

/-- The price of whole kilobytes. -/
theorem sellram_tokens {bytes : Int64} (hmod : bytes % 1024 = 0) (hpos : 0 < bytes.toInt) :
    ∃ k : Int, 0 < k ∧ bytes.toInt = 1024 * k ∧ (bytes / 1024).toInt = k := by
  have hdiv : (bytes / 1024).toInt = bytes.toInt.tdiv 1024 :=
    Int64.toInt_div_of_ne_right _ _ (by decide)
  have hrem : (bytes % 1024).toInt = bytes.toInt.tmod 1024 := Int64.toInt_mod _ _
  rw [hmod, Int64.toInt_zero] at hrem
  have heq := Int.mul_tdiv_add_tmod bytes.toInt 1024
  rw [← hrem, add_zero] at heq
  exact ⟨bytes.toInt.tdiv 1024, by omega, by omega, hdiv⟩

/-- What a successful `sellram` did, after the supply has been brought up to date. -/
theorem sellram_spec {ctx : Context} {s s' : SystemState F} {account : Name} {bytes : Int64}
    {sends : List InlineAction} (h : s.sellram ctx account bytes = .ok (s', sends)) :
    ∃ s₁ res limits, s.updateRamSupply ctx = .ok s₁ ∧ bytes % 1024 = 0 ∧ 0 < bytes.toInt ∧
      s₁.userres.find? account = some res ∧ bytes.toInt ≤ res.ramBytes.toInt ∧
      (⟨bytes / 1024 * 10000, ramcoreSymbol⟩ : Asset).InRange ∧
      s' = { s₁ with
        gstate := { s₁.gstate with
          totalRamBytesReserved := s₁.gstate.totalRamBytesReserved - bytes.toUInt64
          totalRamStake := s₁.gstate.totalRamStake - bytes / 1024 * 10000 }
        userres := s₁.userres.set account { res with ramBytes := res.ramBytes - bytes }
        limits := limits } ∧
      sends = [⟨[ramAccount, account], .transfer ramAccount account
        ⟨bytes / 1024 * 10000, ramcoreSymbol⟩ "sell ram"⟩] := by
  simp only [sellram, bind_eq_ok, check_eq_ok, getRow_eq_ok, pure_eq_ok, Prod.mk.injEq,
    Asset.make_eq_ok] at h
  obtain ⟨_, -, s₁, hsup, _, hpos, _, hmod, res, hres, _, hle, _, -, tokens, ⟨hlo, hhi, -, rfl⟩, _, -,
    _, -, hs', rfl⟩ := h
  obtain ⟨limits, hlim⟩ := updateRamLimit_eq { s₁ with
    gstate := { s₁.gstate with
      totalRamBytesReserved := s₁.gstate.totalRamBytesReserved - bytes.toUInt64
      totalRamStake := s₁.gstate.totalRamStake - bytes / 1024 * 10000 }
    userres := s₁.userres.set account { res with ramBytes := res.ramBytes - bytes } } account
    (res.ramBytes - bytes)
  rw [hlim] at hs'
  have hpos := Int64.lt_iff_toInt_lt.mp hpos
  rw [Int64.toInt_zero] at hpos
  exact ⟨s₁, res, limits, hsup, hmod, hpos, hres, Int64.le_iff_toInt_le.mp hle, ⟨hlo, hhi⟩,
    hs'.symm, rfl⟩

/-! ## Accounts and initialisation -/

/-- Claiming a name can only use up a bid. -/
theorem claimName_eq {s s' : SystemState F} {creator newact : Name}
    (h : s.claimName creator newact = .ok s') : s' = { s with bids := s'.bids } := by
  simp only [claimName] at h
  split at h
  · split at h
    · simp only [bind_eq_ok, pure_eq_ok] at h
      obtain ⟨_, -, _, -, _, -, rfl⟩ := h
      rfl
    · simp only [bind_eq_ok, pure_eq_ok] at h
      obtain ⟨_, -, rfl⟩ := h
      rfl
  · cases h
    rfl

/-- A new account has an empty row. -/
theorem newaccount_spec {s s' : SystemState F} {creator newact : Name}
    (h : s.newaccount creator newact = .ok s') :
    ∃ zero : Asset, ∃ bids limits, zero.amount = 0 ∧ zero.InRange ∧
      s.userres.find? newact = none ∧
      s' = { s with
        bids := bids
        userres := s.userres.set newact ⟨zero, zero, 0⟩
        limits := limits } := by
  simp only [newaccount, bind_eq_ok, pure_eq_ok, Asset.make_eq_ok, emplaceRow_eq_ok] at h
  obtain ⟨s₁, hclaim, sym, -, zero, ⟨hlo, hhi, -, rfl⟩, userres, ⟨hnone, rfl⟩, rfl⟩ := h
  rw [claimName_eq hclaim] at hnone ⊢
  exact ⟨⟨0, sym⟩, s₁.bids, s.limits.set newact ⟨0, 0, 0⟩, rfl, ⟨hlo, hhi⟩, hnone, rfl⟩

/-- Initialisation makes the market of an existing token. -/
theorem init_spec {ctx : Context} {s s' : SystemState F} {version : UInt32} {core : Symbol}
    {sends : List InlineAction} (h : s.init ctx version core = .ok (s', sends)) :
    ∃ m : ExchangeState, s.rammarket = none ∧ m.quote.symbol = core ∧
      (∃ st, s.token.stat.find? core.code = some st ∧ st.supply.symbol = core) ∧
      s' = { s with rammarket := some m } ∧
      sends = [⟨[systemAccount], .openRow rexAccount core systemAccount⟩] := by
  simp only [init, bind_eq_ok, check_eq_ok, pure_eq_ok, Prod.mk.injEq, TokenState.getSupply,
    getRow_eq_ok] at h
  obtain ⟨_, -, _, -, _, hnone, supply, ⟨st, hst, rfl⟩, _, hsym, _, -, rfl, rfl⟩ := h
  exact ⟨_, hnone, rfl, ⟨st, hst, hsym⟩, rfl, rfl⟩

/-- Raising the supply by hand changes the supply and the market's base connector. -/
theorem setram_spec {ctx : Context} {s s' : SystemState F} {maxRamSize : UInt64}
    (h : s.setram ctx maxRamSize = .ok s') :
    ∃ m m' : ExchangeState, s.rammarket = some m ∧ m'.quote = m.quote ∧
      maxRamSize.toNat < 2 ^ 50 ∧
      s.gstate.totalRamBytesReserved < maxRamSize ∧
      s' = { s with
        rammarket := some m'
        gstate := { s.gstate with maxRamSize := maxRamSize } } := by
  simp only [setram, bind_eq_ok, check_eq_ok, pure_eq_ok] at h
  obtain ⟨_, -, _, -, _, hlt, _, hres, s₁, hmod, rfl⟩ := h
  obtain ⟨m, m', hm, hq, rfl⟩ := modifyBase_spec hmod
  have hlt := UInt64.lt_iff_toNat_lt.mp hlt
  exact ⟨m, m', hm, hq, hlt, hres, rfl⟩

/-- Setting the rate first grows the supply at the old one. -/
theorem setramrate_spec {ctx : Context} {s s' : SystemState F} {bytesPerBlock : UInt16}
    (h : s.setramrate ctx bytesPerBlock = .ok s') :
    systemAccount ∈ ctx.auth ∧ ∃ u, s.updateRamSupply ctx = .ok u ∧
      s' = { u with gstate2 := { u.gstate2 with newRamPerBlock := bytesPerBlock } } := by
  simp only [setramrate, bind_eq_ok, pure_eq_ok, requireAuth_eq_ok] at h
  obtain ⟨_, hauth, u, hsup, rfl⟩ := h
  exact ⟨hauth, u, hsup, rfl⟩

end SystemState

end UxContracts
