import UxContracts.Spec.StakeLedger

/-!
# Reserved RAM

`total_ram_bytes_reserved` is the sum of the RAM of all accounts, which is a whole number
of kilobytes for each of them (`RamRows`). That it is at most `max_ram_size` is not
checked by `buyram`: one large purchase reserves more RAM than there is (`ram_oversold`).
When every purchase is covered by the free RAM at its time, no run reserves more than
the supply (`ram_not_oversold`).
-/

namespace UxContracts

def UserResources.ram (u : UserResources) : Int := u.ramBytes.toInt

namespace SystemState

variable {F : Type}

/-! ## The rows of RAM -/

/-- Every account has whole kilobytes, and together they are the reserved RAM. -/
structure RamRows (s : SystemState F) : Prop where
  nonneg : ∀ r u, s.userres.find? r = some u → 0 ≤ u.ram
  kilobytes : ∀ r u, s.userres.find? r = some u → 1024 ∣ u.ram
  sum : s.userres.sumOn (fun _ => True) UserResources.ram = s.gstate.totalRamBytesReserved.toNat

namespace RamRows

variable {s s' : SystemState F}

/-- An account has at most the reserved RAM. -/
theorem valueAt_le (hI : s.RamRows) (r : Name) :
    s.userres.valueAt r UserResources.ram ≤ s.gstate.totalRamBytesReserved.toNat := by
  rw [← hI.sum]
  exact Table.valueAt_le_sumOn hI.nonneg trivial

/-- An account has whole kilobytes, none if it has no row. -/
theorem dvd_valueAt (hI : s.RamRows) (r : Name) : 1024 ∣ s.userres.valueAt r UserResources.ram := by
  cases hfind : s.userres.find? r with
  | none =>
    rw [Table.valueAt_none hfind]
    exact Int.dvd_zero _
  | some u =>
    rw [Table.valueAt_some hfind]
    exact hI.kilobytes r u hfind

/-- A state with the same rows and the same total. -/
theorem of_eq (hI : s.RamRows) (huser : s'.userres = s.userres)
    (hres : s'.gstate.totalRamBytesReserved = s.gstate.totalRamBytesReserved) : s'.RamRows := by
  refine ⟨?_, ?_, ?_⟩
  · rw [huser]
    exact hI.nonneg
  · rw [huser]
    exact hI.kilobytes
  · rw [huser, hres]
    exact hI.sum

/-- The RAM of one account changes by whole kilobytes, and the total by as much. -/
theorem of_set (hI : s.RamRows) {r : Name} {u : UserResources} {d : Int}
    (huser : s'.userres = s.userres.set r u)
    (hram : u.ram = s.userres.valueAt r UserResources.ram + d) (h0 : 0 ≤ u.ram) (hd : 1024 ∣ d)
    (hres : (s'.gstate.totalRamBytesReserved.toNat : Int) =
      s.gstate.totalRamBytesReserved.toNat + d) : s'.RamRows := by
  refine ⟨fun r' u' hr' => ?_, fun r' u' hr' => ?_, ?_⟩
  · rw [huser, Table.find?_set] at hr'
    split at hr'
    · cases hr'
      exact h0
    · exact hI.nonneg r' u' hr'
  · rw [huser, Table.find?_set] at hr'
    split at hr'
    · cases hr'
      rw [hram]
      exact Int.dvd_add (hI.dvd_valueAt r) hd
    · exact hI.kilobytes r' u' hr'
  · rw [huser, Table.sumOn_set, if_pos trivial, hI.sum, hres, hram]
    omega

theorem of_ramGrowth (hI : s.RamRows) (h : RamGrowth s s') : s'.RamRows := by
  have heq := h.eq
  refine hI.of_eq ?_ ?_
  · rw [heq]
  · rw [heq]

theorem of_voteFrame (hI : s.RamRows) (h : VoteFrame s s') : s'.RamRows :=
  hI.of_eq h.userres (congrArg Ledgers.totalRamBytesReserved h.ledgers)

/-- A change of stake keeps the RAM of the receiver, also when its row goes. -/
theorem of_stakeChange (hI : s.RamRows) {sym : Symbol} {source owner receiver : Name}
    {n c : Asset} {sends : List InlineAction}
    (h : StakeChange sym s s' source owner receiver n c sends) : s'.RamRows := by
  obtain ⟨u, huser, -, -, -, hram⟩ := h.userres
  have hzero : u.isEmpty → u.ram = 0 := fun he => (UserResources.zero_of_isEmpty he).2.2
  have hram : u.ram = s.userres.valueAt receiver UserResources.ram := hram
  refine ⟨fun r u' hr => ?_, fun r u' hr => ?_, ?_⟩
  · rw [huser] at hr
    rcases Table.of_find?_put hr with ⟨-, rfl, -⟩ | ⟨-, hr⟩
    · rw [hram]
      exact Table.valueAt_nonneg hI.nonneg receiver
    · exact hI.nonneg r u' hr
  · rw [huser] at hr
    rcases Table.of_find?_put hr with ⟨-, rfl, -⟩ | ⟨-, hr⟩
    · rw [hram]
      exact hI.dvd_valueAt receiver
    · exact hI.kilobytes r u' hr
  · rw [huser, Table.sumOn_put _ _ _ _ hzero, if_pos trivial, hram, sub_self, add_zero, hI.sum,
      h.totalRamBytesReserved]

end RamRows

/-- Buying RAM for an account, if the total fits in 63 bits. -/
theorem buyram_ramRows {ctx : Context} {s s' : SystemState F} {payer receiver : Name} {q : Asset}
    {sends : List InlineAction} (hS : s.StakeInv) (hI : s.RamRows)
    (hfits : s.gstate.totalRamBytesReserved.toNat + (q.amount / 10000 * 1024).toInt < 2 ^ 63)
    (h : s.buyram ctx payer receiver q = .ok (s', sends)) :
    s'.RamRows ∧ (s'.gstate.totalRamBytesReserved.toNat : Int) =
      s.gstate.totalRamBytesReserved.toNat + (q.amount / 10000 * 1024).toInt := by
  -- what the purchase does to the row and the total
  obtain ⟨s₁, res, limits, hsup, -, hmod, hpos, -, hres, rfl, -⟩ := buyram_spec h
  obtain ⟨k, hk, -, hbytes⟩ := buyram_bytes hmod hpos
  generalize q.amount / 10000 * 1024 = bytes at *
  have hgrow := updateRamSupply_spec hsup
  have hI₁ := hI.of_ramGrowth hgrow
  have htot : s₁.gstate.totalRamBytesReserved = s.gstate.totalRamBytesReserved := by rw [hgrow.eq]
  -- the bytes are positive, so the conversion keeps them
  have hnat := Int64.toNat_toUInt64_of_nonneg (a := bytes) (by omega)
  -- and the total does not wrap, by the condition
  have hsum : ((s₁.gstate.totalRamBytesReserved + bytes.toUInt64).toNat : Int) =
      s₁.gstate.totalRamBytesReserved.toNat + bytes.toInt := by
    rw [UInt64.toNat_add_of_lt' (by rw [htot]; omega)]
    omega
  have hle := hI₁.valueAt_le receiver
  have h0 := Table.valueAt_nonneg hI₁.nonneg receiver
  -- the sum in the row is exact, since it is at most the new total
  have hram : res.ram = s₁.userres.valueAt receiver UserResources.ram + bytes.toInt := by
    obtain ⟨-, -, -, hcase⟩ := addRamBytes_spec (hS.of_ramGrowth hgrow).rows hres
    rcases hcase with ⟨hfind, hb⟩ | ⟨u, hfind, hb⟩
    · rw [Table.valueAt_none hfind, zero_add, UserResources.ram, hb]
    · rw [Table.valueAt_some hfind] at hle h0 ⊢
      unfold UserResources.ram at hle h0 ⊢
      rw [hb, Int64.toInt_add_of_mem (by omega) (by rw [htot] at hle; omega)]
  refine ⟨hI₁.of_set rfl hram (by omega) ⟨k, hbytes⟩ hsum, ?_⟩
  rw [← htot]
  exact hsum

/-- Selling RAM of an account never takes the total below zero. -/
theorem sellram_ramRows {ctx : Context} {s s' : SystemState F} {account : Name} {bytes : Int64}
    {sends : List InlineAction} (hI : s.RamRows)
    (h : s.sellram ctx account bytes = .ok (s', sends)) :
    s'.RamRows ∧ bytes.toInt ≤ s.gstate.totalRamBytesReserved.toNat ∧
      (s'.gstate.totalRamBytesReserved.toNat : Int) =
        s.gstate.totalRamBytesReserved.toNat - bytes.toInt := by
  -- what the sale does to the row and the total
  obtain ⟨s₁, res, limits, hsup, hmod, hpos, hres, hle, -, rfl, -⟩ := sellram_spec h
  obtain ⟨k, hk, hbytes, -⟩ := sellram_tokens hmod hpos
  have hgrow := updateRamSupply_spec hsup
  have hI₁ := hI.of_ramGrowth hgrow
  have htot : s₁.gstate.totalRamBytesReserved = s.gstate.totalRamBytesReserved := by rw [hgrow.eq]
  -- the row holds at least the bytes, and the total at least the row
  have hle₁ := hI₁.valueAt_le account
  rw [Table.valueAt_some hres] at hle₁
  unfold UserResources.ram at hle₁
  have hnat := Int64.toNat_toUInt64_of_nonneg (a := bytes) (by omega)
  -- so neither subtraction wraps
  have hsub : ((s₁.gstate.totalRamBytesReserved - bytes.toUInt64).toNat : Int) =
      s₁.gstate.totalRamBytesReserved.toNat - bytes.toInt := by
    rw [UInt64.toNat_sub_of_ge (by omega)]
    omega
  have hlt := res.ramBytes.toInt_lt
  have hnew := Int64.toInt_sub_of_mem (a := res.ramBytes) (b := bytes) (by omega) (by omega)
  have hram : ({ res with ramBytes := res.ramBytes - bytes } : UserResources).ram =
      s₁.userres.valueAt account UserResources.ram + -bytes.toInt := by
    rw [Table.valueAt_some hres]
    show (res.ramBytes - bytes).toInt = res.ramBytes.toInt + -bytes.toInt
    omega
  have hram0 : 0 ≤ ({ res with ramBytes := res.ramBytes - bytes } : UserResources).ram := by
    show 0 ≤ (res.ramBytes - bytes).toInt
    omega
  refine ⟨hI₁.of_set rfl hram hram0 ⟨-k, by omega⟩ hsub, ?_, ?_⟩
  · rw [← htot]
    omega
  · rw [← htot]
    exact hsub

/-- A new account begins without RAM. -/
theorem newaccount_ramRows {s s' : SystemState F} {creator newact : Name} (hI : s.RamRows)
    (h : s.newaccount creator newact = .ok s') : s'.RamRows := by
  obtain ⟨zero, bids, limits, -, -, hnone, rfl⟩ := newaccount_spec h
  have hram : (⟨zero, zero, 0⟩ : UserResources).ram = 0 := Int64.toInt_zero
  refine hI.of_set (d := 0) rfl ?_ hram.ge (Int.dvd_zero _) (add_zero _).symm
  rw [Table.valueAt_none hnone, hram, add_zero]

/-! ## Purchases -/

/-- The bytes that an action buys, if it buys any. -/
def ramPurchase : SystemAction F → Option Int
  | .buyram _ _ quant => some (quant.amount / 10000 * 1024).toInt
  | .buyrambytes _ _ bytes =>
    some ((bytes / 1024 * 10000).toUInt64.toInt64 / 10000 * 1024).toInt
  | _ => none

section Step

variable [Double F]

/-- Every call keeps the rows of RAM, if what it buys fits in 63 bits. -/
theorem step_ramRows {s s' : SystemState F} {call : SystemCall F} (hS : s.StakeInv)
    (hI : s.RamRows)
    (hfits : ∀ bytes, ramPurchase call.action = some bytes →
      s.gstate.totalRamBytesReserved.toNat + bytes < 2 ^ 63)
    (h : s.step call = .ok s') : s'.RamRows := by
  obtain ⟨ctx, action⟩ := call
  have hcore : ∀ sym, s.coreSymbol = .ok sym → sym = s.coreSym := fun _ => coreSym_of_ok
  cases action with
  | init version core =>
    obtain ⟨u, sends, token, hr, -, rfl⟩ := commit_eq_ok.mp h
    obtain ⟨m, -, -, -, rfl, -⟩ := init_spec hr
    -- an action without RAM leaves the rows
    exact hI.of_eq rfl rfl
  | newaccount creator newact => exact newaccount_ramRows hI h
  | setram maxRamSize =>
    obtain ⟨m, m', -, -, -, -, rfl⟩ := setram_spec h
    exact hI.of_eq rfl rfl
  | setramrate bytesPerBlock =>
    obtain ⟨-, u, hsup, rfl⟩ := setramrate_spec h
    -- growing the market reserves nothing
    exact (hI.of_ramGrowth (updateRamSupply_spec hsup)).of_eq rfl rfl
  | buyram payer receiver quant =>
    obtain ⟨u, sends, token, hr, -, rfl⟩ := commit_eq_ok.mp h
    -- the row and the total grow by the same bytes
    exact (buyram_ramRows hS hI (hfits _ rfl) hr).1.of_eq rfl rfl
  | buyrambytes payer receiver bytes =>
    obtain ⟨u, sends, token, hr, -, rfl⟩ := commit_eq_ok.mp h
    have hfits := hfits _ rfl
    have hbuy := buyram_ramRows hS hI (by simpa only using hfits) (buyrambytes_spec hr)
    exact hbuy.1.of_eq rfl rfl
  | sellram account bytes =>
    obtain ⟨u, sends, token, hr, -, rfl⟩ := commit_eq_ok.mp h
    exact (sellram_ramRows hI hr).1.of_eq rfl rfl
  | delegatebw from_ receiver net cpu transfer =>
    obtain ⟨u, sends, token, hr, -, rfl⟩ := commit_eq_ok.mp h
    obtain ⟨-, -, -, -, hchange⟩ := delegatebw_spec hS.rows hS.noRex hS.stakedOf_nonneg hcore hr
    -- a change of stake keeps the bytes of its row
    exact (hI.of_stakeChange hchange).of_eq rfl rfl
  | undelegatebw from_ receiver net cpu =>
    obtain ⟨u, sends, token, hr, -, rfl⟩ := commit_eq_ok.mp h
    obtain ⟨-, -, -, -, hchange⟩ := undelegatebw_spec hS.rows hS.noRex hS.stakedOf_nonneg hcore hr
    exact (hI.of_stakeChange hchange).of_eq rfl rfl
  | refund owner =>
    obtain ⟨u, sends, token, hr, -, rfl⟩ := commit_eq_ok.mp h
    obtain ⟨q, amount, -, -, -, rfl, -⟩ := refund_spec hS.rows hr
    exact hI.of_eq rfl rfl
  | voteproducer voterName proxy producers =>
    exact hI.of_voteFrame (voteproducer_frame hS.noRex h)
  | regproxy proxy isproxy => exact hI.of_voteFrame (regproxy_frame h)
  | token action =>
    obtain ⟨token, -, rfl⟩ := step_token_spec h
    exact hI.of_eq rfl rfl
  | producers producers producers2 scheduleSize =>
    simp only [step, Except.ok.injEq] at h
    subst h
    exact hI.of_eq rfl rfl

end Step

/-! ## The supply -/

/-- The RAM there is at the time of `ctx`: the stored supply and what the slots since the
    last increase add to it. -/
def ramSupply (ctx : Context) (s : SystemState F) : Nat :=
  s.gstate.maxRamSize.toNat +
    if ctx.now.toSlot ≤ s.gstate2.lastRamIncrease then 0
    else ((ctx.now.toSlot - s.gstate2.lastRamIncrease) * s.gstate2.newRamPerBlock.toUInt32).toNat

/-- The supply is what `setram` allows plus the greatest rate for every slot so far. -/
def SupplyBound (s : SystemState F) : Prop :=
  s.gstate.maxRamSize.toNat ≤ 2 ^ 50 + s.gstate2.lastRamIncrease.toNat * 65535

/-- The supply after an update, which does not wrap around. -/
theorem updateRamSupply_supply {ctx : Context} {s s' : SystemState F} (hb : s.SupplyBound)
    (h : s.updateRamSupply ctx = .ok s') :
    s'.SupplyBound ∧ s'.gstate.maxRamSize.toNat = ramSupply ctx s ∧
      s.gstate.maxRamSize.toNat ≤ s'.gstate.maxRamSize.toNat := by
  -- the supply grows with the blocks
  have hgrow := updateRamSupply_spec h
  obtain ⟨grown, hmax, hlast, hle⟩ := hgrow.grown
  have hslot := s'.gstate2.lastRamIncrease.toNat_lt
  have hlast := UInt32.le_iff_toNat_le.mp hlast
  -- at most the greatest rate for each block
  have hrate : s.gstate2.lastRamIncrease.toNat * 65535 +
      (s'.gstate2.lastRamIncrease.toNat - s.gstate2.lastRamIncrease.toNat) * 65535 =
        s'.gstate2.lastRamIncrease.toNat * 65535 := by
    omega
  unfold SupplyBound at *
  -- so it does not wrap
  have hnat : s'.gstate.maxRamSize.toNat = s.gstate.maxRamSize.toNat + grown.toNat := by
    rw [hmax, UInt64.toNat_add_of_lt' (by rw [UInt32.toNat_toUInt64]; omega), UInt32.toNat_toUInt64]
  refine ⟨by omega, ?_, by omega⟩
  simp only [updateRamSupply] at h
  unfold ramSupply
  split at h
  · -- nothing has grown
    rename_i hnow
    cases h
    rw [if_pos hnow, add_zero]
  · -- the supply has grown by a 32-bit number
    rename_i hnow
    simp only [bind_eq_ok, pure_eq_ok] at h
    obtain ⟨s₁, hmod, rfl⟩ := h
    obtain ⟨m, m', -, -, rfl⟩ := modifyBase_spec hmod
    have hgrown := (UInt64.add_right_inj _).mp hmax
    rw [if_neg hnow, hnat, ← UInt32.toNat_toUInt64 grown, ← hgrown, UInt32.toNat_toUInt64]

/-- The supply is far from the greatest 63-bit number. -/
theorem ramSupply_lt {s : SystemState F} (hb : s.SupplyBound) (ctx : Context) :
    ramSupply ctx s < 2 ^ 52 := by
  have hslot := s.gstate2.lastRamIncrease.toNat_lt
  have hnew := ((ctx.now.toSlot - s.gstate2.lastRamIncrease) *
    s.gstate2.newRamPerBlock.toUInt32).toNat_lt
  unfold SupplyBound at hb
  unfold ramSupply
  split <;> omega

/-- The rows of RAM fit together and the supply covers them. -/
structure SupplyInv (s : SystemState F) : Prop where
  stake : s.StakeInv
  ram : s.RamRows
  bound : s.SupplyBound
  covered : s.gstate.totalRamBytesReserved.toNat ≤ s.gstate.maxRamSize.toNat

/-- The bytes of a purchase are free, so the supply covers them afterwards. -/
theorem buyram_covered {ctx : Context} {s s' : SystemState F} {payer receiver : Name} {q : Asset}
    {sends : List InlineAction} (hI : s.SupplyInv)
    (hfree : s.gstate.totalRamBytesReserved.toNat + (q.amount / 10000 * 1024).toInt ≤
      ramSupply ctx s) (h : s.buyram ctx payer receiver q = .ok (s', sends)) :
    s'.SupplyBound ∧ s'.gstate.totalRamBytesReserved.toNat ≤ s'.gstate.maxRamSize.toNat := by
  have hlt := ramSupply_lt hI.bound ctx
  have hsum := (buyram_ramRows hI.stake hI.ram (by omega) h).2
  obtain ⟨s₁, res, limits, hsup, -, -, -, -, -, rfl, -⟩ := buyram_spec h
  obtain ⟨hb₁, hmax, -⟩ := updateRamSupply_supply hI.bound hsup
  refine ⟨hb₁, ?_⟩
  show (_ : Nat) ≤ s₁.gstate.maxRamSize.toNat
  omega

/-- A sale frees RAM. -/
theorem sellram_covered {ctx : Context} {s s' : SystemState F} {account : Name} {bytes : Int64}
    {sends : List InlineAction} (hI : s.SupplyInv)
    (h : s.sellram ctx account bytes = .ok (s', sends)) :
    s'.SupplyBound ∧ s'.gstate.totalRamBytesReserved.toNat ≤ s'.gstate.maxRamSize.toNat := by
  have hsum := (sellram_ramRows hI.ram h).2.2
  obtain ⟨s₁, res, limits, hsup, -, hpos, -, -, -, rfl, -⟩ := sellram_spec h
  obtain ⟨hb₁, -, hle⟩ := updateRamSupply_supply hI.bound hsup
  have hcovered := hI.covered
  refine ⟨hb₁, ?_⟩
  show (_ : Nat) ≤ s₁.gstate.maxRamSize.toNat
  omega

/-- The numbers of the supply are the same. -/
theorem SupplyInv.covered_of_eq {s s' : SystemState F} (hI : s.SupplyInv)
    (hmax : s'.gstate.maxRamSize = s.gstate.maxRamSize)
    (hres : s'.gstate.totalRamBytesReserved = s.gstate.totalRamBytesReserved)
    (hlast : s'.gstate2.lastRamIncrease = s.gstate2.lastRamIncrease) :
    s'.SupplyBound ∧ s'.gstate.totalRamBytesReserved.toNat ≤ s'.gstate.maxRamSize.toNat := by
  unfold SupplyBound
  rw [hmax, hres, hlast]
  exact ⟨hI.bound, hI.covered⟩

/-- Votes leave the supply alone. -/
theorem SupplyInv.covered_of_voteFrame {s s' : SystemState F} (hI : s.SupplyInv)
    (h : VoteFrame s s') :
    s'.SupplyBound ∧ s'.gstate.totalRamBytesReserved.toNat ≤ s'.gstate.maxRamSize.toNat :=
  hI.covered_of_eq (congrArg Ledgers.maxRamSize h.ledgers)
    (congrArg Ledgers.totalRamBytesReserved h.ledgers) (congrArg Ledgers.lastRamIncrease h.ledgers)

variable [Double F]

/-- The RAM that an accepted call buys is free at its time. -/
def RamForSale (s : SystemState F) (call : SystemCall F) : Prop :=
  (s.step call).isOk → ∀ bytes ∈ ramPurchase call.action,
    s.gstate.totalRamBytesReserved.toNat + bytes ≤ ramSupply call.ctx s

instance (s : SystemState F) (call : SystemCall F) : Decidable (RamForSale s call) := by
  unfold RamForSale
  infer_instance

/-- The supply covers the reserved RAM after every call whose purchase it covers. -/
theorem step_covered {s s' : SystemState F} {call : SystemCall F} (hI : s.SupplyInv)
    (hfree : RamForSale s call) (h : s.step call = .ok s') :
    s'.SupplyBound ∧ s'.gstate.totalRamBytesReserved.toNat ≤ s'.gstate.maxRamSize.toNat := by
  have hS := hI.stake
  have hfree := hfree (Run.isOk_of_ok h)
  obtain ⟨ctx, action⟩ := call
  have hcore : ∀ sym, s.coreSymbol = .ok sym → sym = s.coreSym := fun _ => coreSym_of_ok
  cases action with
  | init version core =>
    obtain ⟨u, sends, token, hr, -, rfl⟩ := commit_eq_ok.mp h
    obtain ⟨m, -, -, -, rfl, -⟩ := init_spec hr
    exact ⟨hI.bound, hI.covered⟩
  | newaccount creator newact =>
    obtain ⟨zero, bids, limits, -, -, -, rfl⟩ := newaccount_spec h
    exact ⟨hI.bound, hI.covered⟩
  | setram maxRamSize =>
    -- the action checks both bounds itself
    obtain ⟨m, m', -, -, hlt, hres, rfl⟩ := setram_spec h
    have hres := UInt64.lt_iff_toNat_lt.mp hres
    refine ⟨?_, hres.le⟩
    show maxRamSize.toNat ≤ _
    omega
  | setramrate bytesPerBlock =>
    obtain ⟨-, u, hsup, rfl⟩ := setramrate_spec h
    -- the supply only grows, and nothing is reserved
    obtain ⟨hb, -, hle⟩ := updateRamSupply_supply hI.bound hsup
    have htot : u.gstate.totalRamBytesReserved = s.gstate.totalRamBytesReserved := by
      rw [(updateRamSupply_spec hsup).eq]
    exact ⟨hb, (htot ▸ hI.covered).trans hle⟩
  | buyram payer receiver quant =>
    obtain ⟨u, sends, token, hr, -, rfl⟩ := commit_eq_ok.mp h
    -- the call has been promised enough free bytes
    have hcovered := buyram_covered hI (hfree _ rfl) hr
    exact hcovered
  | buyrambytes payer receiver bytes =>
    obtain ⟨u, sends, token, hr, -, rfl⟩ := commit_eq_ok.mp h
    have hfree := hfree _ rfl
    have hcovered := buyram_covered hI (by simpa only using hfree) (buyrambytes_spec hr)
    exact hcovered
  | sellram account bytes =>
    obtain ⟨u, sends, token, hr, -, rfl⟩ := commit_eq_ok.mp h
    -- what is sold is free again
    have hcovered := sellram_covered hI hr
    exact hcovered
  | delegatebw from_ receiver net cpu transfer =>
    obtain ⟨u, sends, token, hr, -, rfl⟩ := commit_eq_ok.mp h
    obtain ⟨-, -, -, -, hchange⟩ := delegatebw_spec hS.rows hS.noRex hS.stakedOf_nonneg hcore hr
    -- a change of stake reserves no RAM
    exact hI.covered_of_eq hchange.maxRamSize hchange.totalRamBytesReserved hchange.gstate2.2
  | undelegatebw from_ receiver net cpu =>
    obtain ⟨u, sends, token, hr, -, rfl⟩ := commit_eq_ok.mp h
    obtain ⟨-, -, -, -, hchange⟩ := undelegatebw_spec hS.rows hS.noRex hS.stakedOf_nonneg hcore hr
    exact hI.covered_of_eq hchange.maxRamSize hchange.totalRamBytesReserved hchange.gstate2.2
  | refund owner =>
    obtain ⟨u, sends, token, hr, -, rfl⟩ := commit_eq_ok.mp h
    obtain ⟨q, amount, -, -, -, rfl, -⟩ := refund_spec hS.rows hr
    exact ⟨hI.bound, hI.covered⟩
  | voteproducer voterName proxy producers =>
    exact hI.covered_of_voteFrame (voteproducer_frame hS.noRex h)
  | regproxy proxy isproxy => exact hI.covered_of_voteFrame (regproxy_frame h)
  | token action =>
    obtain ⟨token, -, rfl⟩ := step_token_spec h
    exact ⟨hI.bound, hI.covered⟩
  | producers producers producers2 scheduleSize =>
    simp only [step, Except.ok.injEq] at h
    subst h
    exact ⟨hI.bound, hI.covered⟩

/-- An accepted call that buys no more than what is free keeps the supply. -/
theorem step_supplyInv {s s' : SystemState F} {call : SystemCall F} (hI : s.SupplyInv)
    (hfree : RamForSale s call) (h : s.step call = .ok s') : s'.SupplyInv := by
  obtain ⟨hbound, hcovered⟩ := step_covered hI hfree h
  have hlt := ramSupply_lt hI.bound call.ctx
  refine ⟨step_stakeInv hI.stake h, ?_, hbound, hcovered⟩
  refine step_ramRows hI.stake hI.ram (fun bytes hbytes => ?_) h
  have hle := hfree (Run.isOk_of_ok h) bytes hbytes
  omega

theorem genesis_ramRows (maxBlockNetUsage : UInt64) (maxBlockCpuUsage : UInt32) :
    (genesis maxBlockNetUsage maxBlockCpuUsage : SystemState F).RamRows :=
  ⟨(fun _ _ h => nomatch h), (fun _ _ h => nomatch h), rfl⟩

theorem genesis_supplyInv (maxBlockNetUsage : UInt64) (maxBlockCpuUsage : UInt32) :
    (genesis maxBlockNetUsage maxBlockCpuUsage : SystemState F).SupplyInv where
  stake := (genesis_emptyTables _ _).stakeInv
  ram := genesis_ramRows _ _
  bound := by
    unfold SupplyBound
    show 9 * 1024 * 1024 * 1024 ≤ 2 ^ 50 + 0 * 65535
    omega
  covered := Nat.zero_le _

/-- When every purchase is of free RAM, no run reserves more RAM than there is, and the
    free RAM is the exact difference. -/
theorem ram_not_oversold (maxBlockNetUsage : UInt64) (maxBlockCpuUsage : UInt32)
    {calls : List (SystemCall F)}
    (h : Run.Meets step RamForSale (genesis maxBlockNetUsage maxBlockCpuUsage) calls) :
    let g := (Run.exec step (genesis maxBlockNetUsage maxBlockCpuUsage) calls).gstate
    g.totalRamBytesReserved ≤ g.maxRamSize ∧
      g.freeRam.toNat + g.totalRamBytesReserved.toNat = g.maxRamSize.toNat := by
  intro g
  have hI : SupplyInv (Run.exec step (genesis maxBlockNetUsage maxBlockCpuUsage) calls) :=
    Run.exec_of_meets (I := SupplyInv) (fun _ _ _ hI hfree hs => step_supplyInv hI hfree hs)
      (genesis_supplyInv _ _) h
  have hcovered : g.totalRamBytesReserved.toNat ≤ g.maxRamSize.toNat := hI.covered
  refine ⟨UInt64.le_iff_toNat_le.mpr hcovered, ?_⟩
  rw [GlobalState.freeRam, UInt64.toNat_sub_of_ge hcovered]
  omega

/-- Alice buys ten million kilobytes, which is more RAM than there is. -/
def Sample.overselling : List (SystemCall Rat) :=
  setup ++ [⟨ctx [alice] launch, .buyram alice alice (utxram 100000000000)⟩]

/-- The purchase goes through, more is reserved than there is, and the free RAM wraps
    around. -/
theorem ram_oversold :
    let g := (Run.exec step (genesis 1048576 200000) Sample.overselling).gstate
    ¬ g.totalRamBytesReserved ≤ g.maxRamSize ∧ g.maxRamSize < g.freeRam := by
  decide +kernel

/-- Bob buys a kilobyte of free RAM. -/
def Sample.purchase : List (SystemCall Rat) :=
  setup ++ [⟨ctx [alice] launch, .buyrambytes alice bob 1024⟩]

/-- The purchase of the sample is covered. -/
theorem ram_not_oversold_sample :
    let g := (Run.exec step (genesis 1048576 200000) Sample.purchase).gstate
    g.totalRamBytesReserved = 1024 ∧ g.totalRamBytesReserved ≤ g.maxRamSize :=
  ⟨by decide +kernel, (ram_not_oversold 1048576 200000 (by decide +kernel)).1⟩

end SystemState

end UxContracts
