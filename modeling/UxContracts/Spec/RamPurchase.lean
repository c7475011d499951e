import UxContracts.Spec.CoreToken

/-!
# Buying RAM by the byte

`buyrambytes` computes the price of its bytes in 32 bits. Where the price fits, it is the purchase
`buyram` makes for that price (`buyrambytes_eq_buyram`). Where it wraps around, it is no longer a
multiple of 1.0000 UTXRAM, and `buyram` refuses it (`buyrambytes_of_wrap`).
-/

namespace UxContracts

namespace SystemState

variable {F : Type}

/-- One UTXRAM for each kilobyte. -/
def kilobytePrice (bytes : UInt32) : Asset :=
  ⟨Int64.ofNat (bytes.toNat / 1024 * 10000), ramcoreSymbol⟩

def ramBytesOf (s : SystemState F) (account : Name) : Int64 :=
  (s.userres.find? account).elim 0 UserResources.ramBytes

/-! ## The price -/

theorem kilobytePrice_toInt (bytes : UInt32) :
    (kilobytePrice bytes).amount.toInt = (bytes.toNat / 1024 * 10000 : Nat) := by
  have hlt := bytes.toNat_lt
  show (Int64.ofNat _).toInt = _
  rw [Int64.toInt_ofNat_of_lt (by omega)]

/-- The price that is computed in 32 bits. -/
theorem toNat_price (bytes : UInt32) :
    (bytes / 1024 * 10000).toNat = bytes.toNat / 1024 * 10000 % 2 ^ 32 := by
  rw [UInt32.toNat_mul, UInt32.toNat_div]
  rfl

/-- A price that fits into 32 bits is the exact one. -/
theorem price_eq {bytes : UInt32} (h : bytes.toNat / 1024 * 10000 < 2 ^ 32) :
    (bytes / 1024 * 10000).toUInt64.toInt64 = (kilobytePrice bytes).amount := by
  apply Int64.toInt_inj.mp
  rw [kilobytePrice_toInt, UInt32.toInt_toInt64, toNat_price, Nat.mod_eq_of_lt h]

/-- A price that does not fit is not a multiple of the price of a kilobyte: `2 ^ 32` would have to
    be taken off at least 625 times. -/
theorem price_mod_ne_zero {bytes : UInt32} (h : 2 ^ 32 ≤ bytes.toNat / 1024 * 10000) :
    (bytes / 1024 * 10000).toUInt64.toInt64 % 10000 ≠ 0 := by
  intro hzero
  have hlt := bytes.toNat_lt
  have hmod := congrArg Int64.toInt hzero
  rw [Int64.toInt_mod, UInt32.toInt_toInt64, toNat_price, Int64.toInt_zero,
    show (10000 : Int64).toInt = 10000 from rfl, Int.tmod_eq_emod_of_nonneg (by omega)] at hmod
  omega

/-! ## A purchase -/

/-- A transfer takes its amount from the sender. -/
theorem transfer_charges {ctx : Context} {t t' : TokenState} {from_ to_ : Name} {q : Asset}
    {memo : String} (h : t.transfer ctx from_ to_ q memo = .ok t') :
    t'.balance from_ q.symbol.code = t.balance from_ q.symbol.code - q.amount.toInt := by
  simp only [TokenState.transfer, bind_eq_ok, check_eq_ok, pure_eq_ok] at h
  obtain ⟨_, hne, _, -, _, -, st, -, _, -, _, hpos, _, -, _, -, acnts, hsub, acnts', hadd, rfl⟩ := h
  -- sender and receiver have different rows
  have hkey : (⟨from_, q.symbol.code⟩ : Scoped Name SymbolCode) ≠ ⟨to_, q.symbol.code⟩ := by
    simpa using hne
  -- so the row of the sender is the one after the subtraction
  have hkept : acnts'.find? ⟨from_, q.symbol.code⟩ = acnts.find? ⟨from_, q.symbol.code⟩ := by
    unfold TokenState.addBalance at hadd
    split at hadd
    · rw [← pure_eq_ok.mp hadd, Table.find?_set_ne _ _ hkey]
    · simp only [bind_eq_ok, pure_eq_ok] at hadd
      obtain ⟨_, -, rfl⟩ := hadd
      rw [Table.find?_set_ne _ _ hkey]
  simp only [TokenState.subBalance, bind_eq_ok, getRow_eq_ok, check_eq_ok, pure_eq_ok] at hsub
  -- which does not wrap, since the balance covers it
  obtain ⟨b, hb, _, hle, c, hc, rfl⟩ := hsub
  show Table.valueAt acnts' _ _ = Table.valueAt t.accounts _ _ - _
  rw [Table.valueAt, hkept, Table.find?_set_self, Table.valueAt_some hb]
  obtain ⟨-, -, -, rfl⟩ := Asset.sub_eq_ok.mp hc
  have hpos := Int64.lt_iff_toInt_lt.mp hpos
  have hle := Int64.le_iff_toInt_le.mp hle
  have hlt := b.amount.toInt_lt
  rw [Int64.toInt_zero] at hpos
  exact Int64.toInt_sub_of_mem (by omega) (by omega)

variable [Double F]

/-- What buying `bytes` for `bytes / 1024` UTXRAM does. -/
structure BytesBought (payer receiver : Name) (bytes : UInt32) (s s' : SystemState F) : Prop where
  charged : s'.token.balance payer ramcoreSymbol.code =
    s.token.balance payer ramcoreSymbol.code - (bytes.toNat / 1024 * 10000 : Nat)
  ramBytes : s'.ramBytesOf receiver = s.ramBytesOf receiver + bytes.toUInt64.toInt64
  reserved : s'.gstate.totalRamBytesReserved = s.gstate.totalRamBytesReserved + bytes.toUInt64

/-- `buyrambytes` has the outcome of the purchase for one UTXRAM a kilobyte. -/
structure AgreesWithBuyram (ctx : Context) (s : SystemState F) (payer receiver : Name)
    (bytes : UInt32) : Prop where
  outcome : s.step ⟨ctx, .buyrambytes payer receiver bytes⟩ =
    s.step ⟨ctx, .buyram payer receiver (kilobytePrice bytes)⟩
  bought : ∀ s', s.step ⟨ctx, .buyrambytes payer receiver bytes⟩ = .ok s' →
    BytesBought payer receiver bytes s s'

omit [Double F] in
/-- For whole kilobytes whose price fits 32 bits the two actions are the same. -/
theorem buyrambytes_eq_buyram {bytes : UInt32} (hpos : 0 < bytes) (hmod : bytes % 1024 = 0)
    (h : bytes.toNat / 1024 * 10000 < 2 ^ 32) (ctx : Context) (s : SystemState F)
    (payer receiver : Name) :
    s.buyrambytes ctx payer receiver bytes = s.buyram ctx payer receiver (kilobytePrice bytes) := by
  unfold buyrambytes
  rw [check_bind_of hpos, check_bind_of hmod]
  have hmake : Asset.make (bytes / 1024 * 10000).toUInt64.toInt64 ramcoreSymbol =
      .ok (kilobytePrice bytes) := by
    rw [Asset.make_eq_ok, price_eq h, kilobytePrice_toInt]
    exact ⟨by omega, by omega, by decide +kernel, rfl⟩
  rw [hmake]
  rfl

omit [Double F] in
/-- What a purchase adds to the receiver and to the total. -/
theorem buyram_ramBytes {ctx : Context} {s s' : SystemState F} {payer receiver : Name} {q : Asset}
    {sends : List InlineAction} (h : s.buyram ctx payer receiver q = .ok (s', sends)) :
    s'.ramBytesOf receiver = s.ramBytesOf receiver + q.amount / 10000 * 1024 ∧
      s'.gstate.totalRamBytesReserved =
        s.gstate.totalRamBytesReserved + (q.amount / 10000 * 1024).toUInt64 := by
  obtain ⟨s₁, res, limits, hsup, -, -, -, -, hres, rfl, -⟩ := buyram_spec h
  -- growing the market reserves nothing
  have hgrowth := updateRamSupply_spec hsup
  have huserres : s₁.userres = s.userres := by rw [hgrowth.eq]
  have hreserved : s₁.gstate.totalRamBytesReserved = s.gstate.totalRamBytesReserved := by
    rw [hgrowth.eq]
  constructor
  · -- the receiver has the bytes, on top of those it had
    unfold ramBytesOf
    rw [Table.find?_set_self, ← huserres]
    unfold addRamBytes at hres
    split at hres
    · -- the first bytes of the receiver
      rename_i hnone
      simp only [bind_eq_ok, pure_eq_ok] at hres
      obtain ⟨_, -, _, -, rfl⟩ := hres
      rw [hnone]
      exact (Int64.zero_add _).symm
    · rename_i u hu
      rw [pure_eq_ok] at hres
      rw [hu, ← hres]
      rfl
  · rw [← hreserved]

/-- The bytes of a price. -/
theorem kilobytePrice_bytes {bytes : UInt32} (hmod : bytes % 1024 = 0) :
    (kilobytePrice bytes).amount / 10000 * 1024 = bytes.toUInt64.toInt64 := by
  have hlt := bytes.toNat_lt
  have hmod := congrArg UInt32.toNat hmod
  rw [UInt32.toNat_mod, show (1024 : UInt32).toNat = 1024 from rfl,
    show (0 : UInt32).toNat = 0 from rfl] at hmod
  have hdiv : ((kilobytePrice bytes).amount / 10000).toInt = bytes.toNat / 1024 := by
    rw [Int64.toInt_div_of_ne_right _ _ (by decide), kilobytePrice_toInt,
      show (10000 : Int64).toInt = 10000 from rfl, Int.tdiv_eq_ediv_of_nonneg (by omega)]
    omega
  have h1024 : (1024 : Int64).toInt = 1024 := rfl
  apply Int64.toInt_inj.mp
  rw [Int64.toInt_mul_of_mem (by rw [hdiv, h1024]; omega) (by rw [hdiv, h1024]; omega), hdiv, h1024,
    UInt32.toInt_toInt64]
  omega

/-- The bytes that have been asked for are bought when their price is paid. -/
theorem step_buyrambytes {ctx : Context} {s s' : SystemState F} {payer receiver : Name}
    {bytes : UInt32} (hmod : bytes % 1024 = 0)
    (h : s.step ⟨ctx, .buyram payer receiver (kilobytePrice bytes)⟩ = .ok s') :
    BytesBought payer receiver bytes s s' := by
  obtain ⟨u, sends, token, hr, ht, rfl⟩ := commit_eq_ok.mp h
  obtain ⟨hram, hreserved⟩ := buyram_ramBytes hr
  obtain ⟨s₁, _, _, hsup, -, -, -, -, -, hu, rfl⟩ := buyram_spec hr
  rw [kilobytePrice_bytes hmod] at hram hreserved
  have htoken : u.token = s.token := by
    rw [hu]
    show s₁.token = _
    rw [(updateRamSupply_spec hsup).eq]
  rw [runInline_singleton, htoken] at ht
  have hcharged := transfer_charges ht
  rw [kilobytePrice_toInt] at hcharged
  exact ⟨hcharged, hram, hreserved⟩

/-- A price that does not fit into 32 bits is refused. -/
theorem buyrambytes_of_wrap {bytes : UInt32} (h : 2 ^ 32 ≤ bytes.toNat / 1024 * 10000)
    (ctx : Context) (s s' : SystemState F) (payer receiver : Name) :
    s.step ⟨ctx, .buyrambytes payer receiver bytes⟩ ≠ .ok s' := by
  intro hstep
  obtain ⟨_, _, _, hr, -, -⟩ := commit_eq_ok.mp hstep
  obtain ⟨_, _, _, -, -, hmod, -⟩ := buyram_spec (buyrambytes_spec hr)
  exact price_mod_ne_zero h hmod

/-! ## When the outcomes agree -/

/-- The market is open, and alice has the UTXRAM of the samples. -/
def Sample.market : SystemState F :=
  { genesis 0 0 with
    rammarket := some ⟨utxram 0, utxram 0, utx 0⟩
    token := Sample.start.token }

open Sample in
/-- With enough tokens, every purchase of whole kilobytes goes through. -/
theorem market_buyram {q : Asset} (hsym : q.symbol = ramcoreSymbol) (hmod : q.amount % 10000 = 0)
    (hpos : 0 < q.amount.toInt) (hle : q.amount.toInt ≤ 500000000000) :
    ∃ s', (market : SystemState F).step ⟨ctx [alice] launch, .buyram alice alice q⟩ = .ok s' := by
  -- growing the market succeeds
  obtain ⟨s₁, hsup⟩ := updateRamSupply_ok (ctx [alice] launch) (s := (market : SystemState F)) rfl
  have hgrowth := updateRamSupply_spec hsup
  have hbytes : q.amount / 10000 * 1024 > 0 := by
    obtain ⟨k, hk, -, hbytes⟩ := buyram_bytes hmod hpos
    apply Int64.lt_iff_toInt_lt.mpr
    rw [hbytes, Int64.toInt_zero]
    omega
  have hmarket : s₁.rammarket.isSome := by
    rw [hgrowth.market]
    rfl
  obtain ⟨m, hm⟩ := Option.isSome_iff_exists.mp hmarket
  -- the new row starts with zero
  have hzero : Asset.make 0 m.quote.symbol = .ok ⟨0, m.quote.symbol⟩ := by
    have hcore : m.quote.symbol = core := by
      rw [coreSym_of_ok (coreSymbol_eq_ok.mpr ⟨m, hm, rfl⟩), hgrowth.coreSym]
      rfl
    rw [hcore]
    decide +kernel
  have hres : s₁.addRamBytes alice (q.amount / 10000 * 1024) =
      .ok ⟨⟨0, m.quote.symbol⟩, ⟨0, m.quote.symbol⟩, q.amount / 10000 * 1024⟩ := by
    have hnone : s₁.userres.find? alice = none := by
      rw [hgrowth.eq]
      rfl
    simp only [addRamBytes, hnone, bind_eq_ok, coreSymbol_eq_ok, pure_eq_ok]
    exact ⟨m.quote.symbol, ⟨m, hm, rfl⟩, _, hzero, rfl⟩
  -- so every check of `buyram` passes
  obtain ⟨⟨u, sends⟩, hr⟩ : ∃ r, (market : SystemState F).buyram (ctx [alice] launch) alice alice q =
      .ok r := by
    simp only [buyram, bind_eq_ok, check_eq_ok, requireAuth_eq_ok]
    have hpos' : q.amount > 0 := by
      apply Int64.lt_iff_toInt_lt.mpr
      rw [Int64.toInt_zero]
      exact hpos
    exact ⟨_, (), List.mem_singleton_self _, s₁, hsup, (), hmod, (), hsym, (), hpos', (), hmarket, (),
      hbytes, _, hres, rfl⟩
  obtain ⟨s₂, _, _, hsup', -, -, -, -, -, hu, rfl⟩ := buyram_spec hr
  have htoken : u.token = Sample.start.token := by
    rw [hu]
    show s₂.token = _
    rw [(updateRamSupply_spec hsup').eq]
    rfl
  -- the sample account has enough tokens
  have hI : Sample.start.token.Inv :=
    (exec_coreToken (genesis_coreToken 1048576 200000) Sample.setup).token
  have hbalance : Sample.start.token.balance alice ramcoreSymbol.code = 500000000000 := by
    decide +kernel
  have hstat : ∃ st, Sample.start.token.stat.find? ramcoreSymbol.code = some st ∧
      st.supply.symbol = ramcoreSymbol := by
    decide +kernel
  obtain ⟨st, hst, hstsym⟩ := hstat
  -- the only inline action is the transfer of the price
  obtain ⟨token, ht⟩ : ∃ token, Sample.start.token.transfer
      ((ctx [alice] launch).withAuth [alice, ramAccount]) alice ramAccount q "buy ram" = .ok token := by
    apply TokenState.transfer_ok hI (by decide +kernel) List.mem_cons_self rfl
    · rw [hsym]
      exact hst
    · exact hsym.trans hstsym.symm
    · exact hpos
    · decide +kernel
    · rw [hsym, hbalance]
      exact hle
  refine ⟨_, commit_eq_ok.mpr ⟨u, _, token, hr, ?_, rfl⟩⟩
  rw [runInline_singleton, htoken]
  exact ht

/-- `buyrambytes` agrees with `buyram` in every state exactly if the price of the bytes fits into
    32 bits. -/
theorem buyrambytes_agrees {bytes : UInt32} (hpos : 0 < bytes) (hmod : bytes % 1024 = 0) :
    (∀ (ctx : Context) (s : SystemState F) (payer receiver : Name),
      AgreesWithBuyram ctx s payer receiver bytes) ↔ bytes.toNat / 1024 * 10000 < 2 ^ 32 := by
  constructor
  · -- if the actions agree, the price has not wrapped
    intro hagrees
    by_contra hwrap
    have hlt := bytes.toNat_lt
    have hbytes := congrArg UInt32.toNat hmod
    rw [UInt32.toNat_mod, show (1024 : UInt32).toNat = 1024 from rfl,
      show (0 : UInt32).toNat = 0 from rfl] at hbytes
    -- the price is a whole number of kilobytes
    have hprice := kilobytePrice_toInt bytes
    have hrem : (kilobytePrice bytes).amount % 10000 = 0 := by
      apply Int64.toInt_inj.mp
      rw [Int64.toInt_mod, hprice, Int64.toInt_zero, show (10000 : Int64).toInt = 10000 from rfl,
        Int.tmod_eq_emod_of_nonneg (by omega)]
      omega
    -- alice can afford the purchase, but not by `buyrambytes`
    obtain ⟨s', hbuy⟩ := market_buyram (F := F) (q := kilobytePrice bytes) rfl hrem (by omega) (by omega)
    rw [← (hagrees _ _ _ _).outcome] at hbuy
    exact buyrambytes_of_wrap (by omega) _ _ _ _ _ hbuy
  · -- without a wrap both actions buy the same
    intro hfits ctx s payer receiver
    have hsame : s.step ⟨ctx, .buyrambytes payer receiver bytes⟩ =
        s.step ⟨ctx, .buyram payer receiver (kilobytePrice bytes)⟩ := by
      show commit ctx _ = commit ctx _
      rw [buyrambytes_eq_buyram hpos hmod hfits]
    exact ⟨hsame, fun s' h => step_buyrambytes hmod (hsame ▸ h)⟩

open Sample in
/-- 419.43 MiB cost 42,949.70 UTXRAM. Alice can buy them by `buyram`, but not by `buyrambytes`. -/
theorem buyrambytes_wraps :
    (439804928 : UInt32) % 1024 = 0 ∧
    (start.step ⟨ctx [alice] launch, .buyrambytes alice alice 439804928⟩).map (fun _ => ()) =
      .error "can only buy in exact increments of 1.0000 UTXRAM" ∧
    (start.step ⟨ctx [alice] launch,
      .buyram alice alice (kilobytePrice 439804928)⟩).map (fun _ => ()) = .ok () := by
  decide +kernel

/-- A gigabyte is too much, 64 kilobytes are not. -/
theorem buyrambytes_agrees_sample :
    (∀ (ctx : Context) (s : SystemState Rat) (payer receiver : Name),
      AgreesWithBuyram ctx s payer receiver 65536) ∧
    ¬ ∀ (ctx : Context) (s : SystemState Rat) (payer receiver : Name),
      AgreesWithBuyram ctx s payer receiver 1073741824 :=
  ⟨(buyrambytes_agrees (by decide) (by decide)).mpr (by decide),
    fun h => absurd ((buyrambytes_agrees (by decide) (by decide)).mp h) (by decide)⟩

end SystemState

end UxContracts
