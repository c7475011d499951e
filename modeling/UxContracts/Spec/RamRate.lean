import UxContracts.Spec.CoreToken
import UxContracts.Spec.StakingBlocks

/-!
# The growth of RAM over time

Every block adds the current rate to the supply of RAM, but the supply is brought up to date only
when RAM is traded or the rate changes. `RamClock` is what the growth depends on, `tick` one
update of it, and `growth` the sum of rate and elapsed slots that the updates should add up to.
They do as long as no update comes so late that its product leaves 32 bits
(`ram_growth_independent`).
-/

namespace UxContracts

/-! ## Growth by changing rates -/

/-- What a rate and its changes, each with its slot, add up to from `last` to `now`. -/
def growth (last rate : Nat) : List (Nat × Nat) → Nat → Nat
  | [], now => (now - last) * rate
  | (slot, rate') :: changes, now =>
    (slot - last) * rate + growth (max last slot) rate' changes now

/-- The sum may be split at a slot before the first change. -/
theorem growth_split {last rate slot now : Nat} {changes : List (Nat × Nat)}
    (hchanges : ∀ c ∈ changes, slot ≤ c.1) (hnow : slot ≤ now) :
    growth last rate changes now =
      (slot - last) * rate + growth (max last slot) rate changes now := by
  have hsplit {t : Nat} (ht : slot ≤ t) :
      (t - last) * rate = (slot - last) * rate + (t - max last slot) * rate := by
    rw [← Nat.add_mul]
    congr 1
    omega
  cases changes with
  | nil => exact hsplit hnow
  | cons c changes =>
    have hslot : slot ≤ c.1 := hchanges c List.mem_cons_self
    have hmax : max (max last slot) c.1 = max last c.1 := by omega
    show (c.1 - last) * rate + growth (max last c.1) c.2 changes now =
      (slot - last) * rate +
        ((c.1 - max last slot) * rate + growth (max (max last slot) c.1) c.2 changes now)
    rw [hmax, hsplit hslot]
    omega

/-- The greatest rate bounds the sum. -/
theorem growth_le {last rate now bound : Nat} {changes : List (Nat × Nat)} (hrate : rate ≤ bound)
    (hchanges : ∀ c ∈ changes, c.1 ≤ now ∧ c.2 ≤ bound) :
    growth last rate changes now ≤ (now - last) * bound := by
  induction changes generalizing last rate with
  | nil => exact Nat.mul_le_mul_left _ hrate
  | cons c changes ih =>
    obtain ⟨hslot, hbound⟩ := hchanges c List.mem_cons_self
    have hrest : growth (max last c.1) c.2 changes now ≤ (now - max last c.1) * bound :=
      ih hbound fun d hd => hchanges d (List.mem_cons_of_mem c hd)
    calc growth last rate (c :: changes) now
        = (c.1 - last) * rate + growth (max last c.1) c.2 changes now := rfl
      _ ≤ (c.1 - last) * bound + (now - max last c.1) * bound :=
        Nat.add_le_add (Nat.mul_le_mul_left _ hrate) hrest
      _ = (now - last) * bound := by
        rw [← Nat.add_mul]
        congr 1
        omega

/-! ## The clock -/

/-- What the growth of RAM reads and writes. -/
structure RamClock where
  maxRamSize : UInt64
  market : Option ExchangeState
  lastRamIncrease : BlockTimestamp
  newRamPerBlock : UInt16

namespace RamClock

/-- The rate for all slots since the last increase. -/
def due (c : RamClock) (slot : BlockTimestamp) : Nat :=
  (slot.toNat - c.lastRamIncrease.toNat) * c.newRamPerBlock.toNat

/-- One update, as the action computes it. -/
def tick (c : RamClock) (slot : BlockTimestamp) : RamClock :=
  if slot ≤ c.lastRamIncrease then c
  else
    let newRam : UInt32 := (slot - c.lastRamIncrease) * c.newRamPerBlock.toUInt32
    { c with
      maxRamSize := c.maxRamSize + newRam.toUInt64
      market := c.market.map fun m =>
        { m with base := { m.base with amount := m.base.amount + newRam.toUInt64.toInt64 } }
      lastRamIncrease := slot }

/-- What the market has for sale. -/
def base (c : RamClock) : Int64 := c.market.elim 0 fun m => m.base.amount

/-- Both counters have been increased by `g`. -/
structure Adds (c c' : RamClock) (g : Nat) : Prop where
  maxRamSize : c'.maxRamSize = c.maxRamSize + UInt64.ofNat g
  base : c'.base = c.base + Int64.ofNat g

theorem Adds.trans {c c' c'' : RamClock} {g g' : Nat} (h : Adds c c' g) (h' : Adds c' c'' g') :
    Adds c c'' (g + g') where
  maxRamSize := by rw [h'.maxRamSize, h.maxRamSize, UInt64.ofNat_add, UInt64.add_assoc]
  base := by rw [h'.base, h.base, Int64.ofNat_add, Int64.add_assoc]

/-- Where a counter has room for the increase, it is one of numbers. -/
theorem Adds.toNat {c c' : RamClock} {g : Nat} (h : Adds c c' g)
    (hroom : c.maxRamSize.toNat + g < 2 ^ 64) : c'.maxRamSize.toNat = c.maxRamSize.toNat + g := by
  have hnat : (UInt64.ofNat g).toNat = g :=
    UInt64.toNat_ofNat_of_lt' (lt_of_le_of_lt (Nat.le_add_left _ _) hroom)
  rw [h.maxRamSize, UInt64.toNat_add_of_lt' (by omega), hnat]

/-- Below 63 bits the supply grows by the exact amount. -/
theorem Adds.toInt {c c' : RamClock} {g : Nat} (h : Adds c c' g) (hg : g < 2 ^ 63)
    (hroom : c.base.toInt + g < 2 ^ 63) : c'.base.toInt = c.base.toInt + g := by
  have hint : (Int64.ofNat g).toInt = g := Int64.toInt_ofNat_of_lt hg
  have hlo := c.base.le_toInt
  rw [h.base, Int64.toInt_add_of_mem (by omega) (by omega), hint]

/-- An update that comes in time adds what is due. -/
theorem tick_spec {c : RamClock} {slot : BlockTimestamp} (hm : c.market.isSome)
    (hfits : c.due slot < 2 ^ 32) :
    Adds c (c.tick slot) (c.due slot) ∧ (c.tick slot).market.isSome ∧
      (c.tick slot).newRamPerBlock = c.newRamPerBlock ∧
      (c.tick slot).lastRamIncrease.toNat = max c.lastRamIncrease.toNat slot.toNat := by
  obtain ⟨m, hm⟩ := Option.isSome_iff_exists.mp hm
  by_cases hle : slot ≤ c.lastRamIncrease
  · -- the time has been counted before
    have hnat := UInt32.le_iff_toNat_le.mp hle
    have hzero : c.due slot = 0 := by
      unfold due
      rw [Nat.sub_eq_zero_of_le hnat, Nat.zero_mul]
    have htick : c.tick slot = c := if_pos hle
    rw [htick, hzero, hm]
    exact ⟨⟨(UInt64.add_zero _).symm, (Int64.add_zero _).symm⟩, rfl, rfl, (max_eq_left hnat).symm⟩
  · -- the blocks since then, at the rate of that time
    have hlt := UInt32.not_le.mp hle
    have hnat := UInt32.lt_iff_toNat_lt.mp hlt
    let newRam : UInt32 := (slot - c.lastRamIncrease) * c.newRamPerBlock.toUInt32
    -- the product fits in 32 bits
    have hnew : newRam.toNat = c.due slot := by
      rw [UInt32.toNat_mul, UInt32.toNat_sub_of_le _ _ (UInt32.le_of_lt hlt), UInt16.toNat_toUInt32]
      exact Nat.mod_eq_of_lt hfits
    have htick : c.tick slot = { c with
        maxRamSize := c.maxRamSize + newRam.toUInt64
        market := c.market.map fun m =>
          { m with base := { m.base with amount := m.base.amount + newRam.toUInt64.toInt64 } }
        lastRamIncrease := slot } := if_neg hle
    rw [htick, ← hnew]
    refine ⟨⟨?_, ?_⟩, ?_, rfl, (max_eq_right hnat.le).symm⟩
    · show c.maxRamSize + newRam.toUInt64 = _
      rw [← UInt32.toNat_toUInt64, UInt64.ofNat_toNat]
    · -- the connector grows by the same number
      have hint : newRam.toUInt64.toInt64 = Int64.ofNat newRam.toNat := by
        apply Int64.toInt_inj.mp
        have hbound := newRam.toNat_lt
        rw [UInt32.toInt_toInt64, Int64.toInt_ofNat_of_lt (by omega)]
      simp only [base, hm, Option.map_some, Option.elim_some, hint]
    · rw [hm]
      rfl

end RamClock

/-- The clock is a part of the ledgers. -/
def Ledgers.ramClock (l : Ledgers) : RamClock :=
  ⟨l.maxRamSize, l.rammarket, l.lastRamIncrease, l.newRamPerBlock⟩

namespace SystemState

variable {F : Type}

def ramClock (s : SystemState F) : RamClock := s.ledgers.ramClock

/-! ## What an action does to the clock -/

/-- With a market, an update is a tick of the clock. -/
theorem updateRamSupply_ramClock {ctx : Context} {s s' : SystemState F}
    (h : s.updateRamSupply ctx = .ok s') : s'.ramClock = s.ramClock.tick ctx.now.toSlot := by
  simp only [updateRamSupply] at h
  split at h
  · rename_i hle
    cases h
    exact (if_pos hle).symm
  · rename_i hlt
    simp only [bind_eq_ok, pure_eq_ok, modifyBase] at h
    obtain ⟨s₁, hmod, rfl⟩ := h
    cases hm : s.rammarket with
    | none =>
      rw [hm] at hmod
      cases hmod
    | some m =>
      rw [hm] at hmod
      cases hmod
      refine Eq.trans ?_ (if_neg hlt).symm
      show RamClock.mk _ _ _ _ = RamClock.mk _ (s.rammarket.map _) _ _
      rw [hm]
      rfl

section Voting

variable [Double F]

/-- A change of stake does not touch the clock. -/
theorem changebw_ramClock {ctx : Context} {s s' : SystemState F} {from_ receiver : Name}
    {n c : Asset} {transfer : Bool} {sends : List InlineAction}
    (h : s.changebw ctx from_ receiver n c transfer = .ok (s', sends)) :
    s'.ramClock = s.ramClock := by
  obtain ⟨u, v, hu, hsettle, hs'⟩ := changebw_settles h
  calc s'.ramClock
      = s'.ledgers.ramClock := rfl
    _ = v.ledgers.ramClock := by
      rw [hs']
      rfl
    _ = u.ledgers.ramClock := by
      rw [settleStake_eq hsettle]
      rfl
    _ = s.ramClock := by
      rw [hu]
      rfl

end Voting

/-! ## Calls -/

/-- A call, or a bare update of the supply. -/
inductive RamEvent (F : Type) where
  | call (call : SystemCall F)
  | update (ctx : Context)

namespace RamEvent

def ctx : RamEvent F → Context
  | .call c => c.ctx
  | .update ctx => ctx

def slot (e : RamEvent F) : BlockTimestamp := e.ctx.now.toSlot

/-- The supply is brought up to date first. -/
def updates : RamEvent F → Bool
  | .call ⟨_, .setramrate _⟩ | .call ⟨_, .buyram ..⟩ | .call ⟨_, .buyrambytes ..⟩
  | .call ⟨_, .sellram ..⟩ | .update _ => true
  | .call _ => false

/-- The rate that an authorised `setramrate` sets. -/
def newRate : RamEvent F → Option UInt16
  | .call ⟨ctx, .setramrate bytesPerBlock⟩ =>
    if systemAccount ∈ ctx.auth then some bytesPerBlock else none
  | _ => none

/-- Only the system account sets a rate. -/
theorem newRate_eq_some {e : RamEvent F} {r : UInt16} (h : e.newRate = some r) :
    ∃ ctx, e = .call ⟨ctx, .setramrate r⟩ ∧ systemAccount ∈ ctx.auth := by
  unfold newRate at h
  split at h
  · split at h
    · rename_i ctx _ hauth
      cases h
      exact ⟨ctx, rfl, hauth⟩
    · cases h
  · cases h

/-- The supply is set by hand. -/
def isSetram : RamEvent F → Bool
  | .call ⟨_, .setram _⟩ => true
  | _ => false

end RamEvent

/-- What a request does to the clock. -/
structure ClockStep (c : RamClock) (e : RamEvent F) (c' : RamClock) : Prop where
  rate : ∀ r, e.newRate = some r → c' = { c.tick e.slot with newRamPerBlock := r }
  noRate : e.newRate = none → c' = c ∨ e.updates ∧ c' = c.tick e.slot

/-- A request that neither updates the supply nor sets the rate. -/
theorem ClockStep.same {c c' : RamClock} {e : RamEvent F} (h : c' = c) (hnone : e.newRate = none) :
    ClockStep c e c' where
  rate r hr := by
    rw [hnone] at hr
    cases hr
  noRate _ := .inl h

/-- A request that only updates the supply. -/
theorem ClockStep.tick {c c' : RamClock} {e : RamEvent F} (h : c' = c.tick e.slot)
    (hup : e.updates) (hnone : e.newRate = none) : ClockStep c e c' where
  rate r hr := by
    rw [hnone] at hr
    cases hr
  noRate _ := .inr ⟨hup, h⟩

variable [Double F]

def ramStep (s : SystemState F) : RamEvent F → Except String (SystemState F)
  | .call call => s.step call
  | .update ctx => s.updateRamSupply ctx

/-- An accepted call with a market. -/
theorem step_clockStep {s s' : SystemState F} {call : SystemCall F} (hm : s.rammarket.isSome)
    (hno : ¬ (RamEvent.call call).isSetram) (h : s.step call = .ok s') :
    ClockStep s.ramClock (.call call) s'.ramClock := by
  obtain ⟨ctx, action⟩ := call
  cases action with
  | init version core =>
    -- there is a market already
    obtain ⟨u, sends, token, hr, -, rfl⟩ := commit_eq_ok.mp h
    obtain ⟨m, hnone, -⟩ := init_spec hr
    rw [hnone] at hm
    cases hm
  | setram maxRamSize => exact absurd rfl hno
  | newaccount creator newact =>
    obtain ⟨zero, bids, limits, -, -, -, rfl⟩ := newaccount_spec h
    -- a new account leaves the clock
    exact .same rfl rfl
  | setramrate bytesPerBlock =>
    obtain ⟨hauth, u, hsup, rfl⟩ := setramrate_spec h
    have hnew : (RamEvent.call (F := F) ⟨ctx, .setramrate bytesPerBlock⟩).newRate =
      some bytesPerBlock := if_pos hauth
    constructor
    · intro r hr
      rw [hnew] at hr
      cases hr
      -- the old rate is used up to now
      show { u.ramClock with newRamPerBlock := bytesPerBlock } = _
      rw [updateRamSupply_ramClock hsup]
      rfl
    · intro hnone
      rw [hnew] at hnone
      cases hnone
  | buyram payer receiver quant =>
    obtain ⟨u, sends, token, hr, -, rfl⟩ := commit_eq_ok.mp h
    obtain ⟨s₁, res, limits, hsup, -, -, -, -, -, rfl, -⟩ := buyram_spec hr
    -- trades tick before they price
    have hclock := updateRamSupply_ramClock hsup
    exact .tick hclock rfl rfl
  | buyrambytes payer receiver bytes =>
    obtain ⟨u, sends, token, hr, -, rfl⟩ := commit_eq_ok.mp h
    obtain ⟨s₁, res, limits, hsup, -, -, -, -, -, rfl, -⟩ := buyram_spec (buyrambytes_spec hr)
    have hclock := updateRamSupply_ramClock hsup
    exact .tick hclock rfl rfl
  | sellram account bytes =>
    obtain ⟨u, sends, token, hr, -, rfl⟩ := commit_eq_ok.mp h
    obtain ⟨s₁, res, limits, hsup, -, -, -, -, -, rfl, -⟩ := sellram_spec hr
    have hclock := updateRamSupply_ramClock hsup
    exact .tick hclock rfl rfl
  | delegatebw from_ receiver net cpu transfer =>
    obtain ⟨u, sends, token, hr, -, rfl⟩ := commit_eq_ok.mp h
    obtain ⟨sym, -, -, -, -, hchange⟩ := delegatebw_changebw hr
    -- a change of stake leaves the clock
    have hclock := changebw_ramClock hchange
    exact .same hclock rfl
  | undelegatebw from_ receiver net cpu =>
    obtain ⟨u, sends, token, hr, -, rfl⟩ := commit_eq_ok.mp h
    obtain ⟨sym, -, -, -, -, -, hchange⟩ := undelegatebw_changebw hr
    have hclock := changebw_ramClock hchange
    exact .same hclock rfl
  | refund owner =>
    obtain ⟨u, sends, token, hr, -, rfl⟩ := commit_eq_ok.mp h
    obtain ⟨q, amount, -, -, -, rfl, -⟩ := refund_cases hr
    exact .same rfl rfl
  | voteproducer voterName proxy producers =>
    -- and so do votes
    have hclock := congrArg Ledgers.ramClock (voteproducer_ledgers h)
    exact .same hclock rfl
  | regproxy proxy isproxy =>
    have hclock := congrArg Ledgers.ramClock (regproxy_frame h).ledgers
    exact .same hclock rfl
  | token action =>
    obtain ⟨token, -, rfl⟩ := step_token_spec h
    exact .same rfl rfl
  | producers producers producers2 scheduleSize =>
    cases h
    exact .same rfl rfl

/-- With a market, every request leads on: an update cannot fail. -/
theorem next_clockStep {s : SystemState F} {e : RamEvent F} (hm : s.rammarket.isSome)
    (hno : ¬ e.isSetram) : ClockStep s.ramClock e (Run.next ramStep s e).ramClock := by
  cases h : ramStep s e with
  | ok s' =>
    rw [Run.next_of_ok h]
    -- a call, or growth alone
    cases e with
    | call call => exact step_clockStep hm hno h
    | update ctx => exact .tick (updateRamSupply_ramClock h) rfl rfl
  -- a call that fails changes nothing
  | error msg =>
    rw [Run.next_of_error h]
    cases hr : e.newRate with
    | none => exact .same rfl hr
    | some r =>
      -- an authorised change of the rate succeeds
      obtain ⟨ctx, rfl, hauth⟩ := RamEvent.newRate_eq_some hr
      obtain ⟨u, hu⟩ := updateRamSupply_ok ctx hm
      have hok : ramStep s (.call ⟨ctx, .setramrate r⟩) =
          .ok { u with gstate2 := { u.gstate2 with newRamPerBlock := r } } := by
        simp only [ramStep, step, setramrate, bind_eq_ok, requireAuth_eq_ok, pure_eq_ok]
        exact ⟨(), hauth, u, hu, rfl⟩
      rw [hok] at h
      cases h

/-! ## Runs -/

/-- The changes of the rate, each with its slot. -/
def rateChanges (events : List (RamEvent F)) : List (Nat × Nat) :=
  events.filterMap fun e => e.newRate.map fun r => (e.slot.toNat, r.toNat)

/-- The request comes before the product of its update leaves 32 bits. -/
def UpdateFits (s : SystemState F) (e : RamEvent F) : Prop :=
  e.updates → s.ramClock.due e.slot < 2 ^ 32

instance (s : SystemState F) (e : RamEvent F) : Decidable (UpdateFits s e) := by
  unfold UpdateFits
  infer_instance

/-- The growth of RAM until `now`. -/
def ramGrowth (c : RamClock) (events : List (RamEvent F)) (now : BlockTimestamp) : Nat :=
  growth c.lastRamIncrease.toNat c.newRamPerBlock.toNat (rateChanges events) now.toNat

/-- A run up to the slot `now`: its requests come in the order of their slots, none sets the supply
    by hand, and every update comes in time, a last one included. -/
structure TimelyRun (s : SystemState F) (events : List (RamEvent F)) (now : BlockTimestamp) :
    Prop where
  sorted : events.Pairwise fun e e' => e.slot ≤ e'.slot
  past : ∀ e ∈ events, e.slot ≤ now
  noSetram : ∀ e ∈ events, ¬ e.isSetram
  fits : Run.Meets ramStep UpdateFits s events
  fitsLast : (Run.exec ramStep s events).ramClock.due now < 2 ^ 32

/-- One request, and what is due afterwards. -/
theorem next_ramGrowth {s : SystemState F} {e : RamEvent F} {events : List (RamEvent F)}
    {now : BlockTimestamp} (hm : s.rammarket.isSome) (hno : ¬ e.isSetram) (hfits : UpdateFits s e)
    (hsorted : ∀ e' ∈ events, e.slot ≤ e'.slot) (hnow : e.slot ≤ now) :
    let c := (Run.next ramStep s e).ramClock
    c.market.isSome ∧ ∃ g, RamClock.Adds s.ramClock c g ∧
      ramGrowth s.ramClock (e :: events) now = g + ramGrowth c events now := by
  have hstep := next_clockStep hm hno
  cases hr : e.newRate with
  | some r =>
    -- the rate changes now: the bytes so far are at the old rate
    obtain ⟨ctx, rfl, -⟩ := RamEvent.newRate_eq_some hr
    obtain ⟨hadds, hmarket, -, hlast⟩ := RamClock.tick_spec (c := s.ramClock) hm (hfits rfl)
    have hchanges : rateChanges (.call ⟨ctx, .setramrate r⟩ :: events) =
        (ctx.now.toSlot.toNat, r.toNat) :: rateChanges events :=
      List.filterMap_cons_some (by rw [hr]; rfl)
    rw [hstep.rate r hr]
    refine ⟨hmarket, _, ⟨hadds.maxRamSize, hadds.base⟩, ?_⟩
    show growth _ _ (rateChanges _) _ =
      _ + growth (s.ramClock.tick _).lastRamIncrease.toNat r.toNat (rateChanges events) _
    rw [hchanges, hlast]
    rfl
  | none =>
    have hchanges : rateChanges (e :: events) = rateChanges events :=
      List.filterMap_cons_none (by rw [hr]; rfl)
    rcases hstep.noRate hr with hsame | ⟨hup, htick⟩
    · -- the clock has not moved
      rw [hsame]
      refine ⟨hm, 0, ⟨(UInt64.add_zero _).symm, (Int64.add_zero _).symm⟩, ?_⟩
      unfold ramGrowth
      rw [hchanges, Nat.zero_add]
    · -- it ticks: the growth is split at this block
      obtain ⟨hadds, hmarket, hrate, hlast⟩ := RamClock.tick_spec (c := s.ramClock) hm (hfits hup)
      rw [htick]
      refine ⟨hmarket, _, hadds, ?_⟩
      unfold ramGrowth
      rw [hchanges, hrate, hlast]
      apply growth_split _ (UInt32.le_iff_toNat_le.mp hnow)
      -- the changes come later
      intro c hc
      obtain ⟨e', he', hmap⟩ := List.mem_filterMap.mp hc
      obtain ⟨r, -, rfl⟩ := Option.map_eq_some_iff.mp hmap
      exact UInt32.le_iff_toNat_le.mp (hsorted e' he')

/-- The growth over a run, and at its end. -/
theorem exec_ramGrowth {s : SystemState F} {events : List (RamEvent F)} {now : BlockTimestamp}
    (hm : s.rammarket.isSome) (hrun : TimelyRun s events now) :
    (Run.exec ramStep s events).rammarket.isSome ∧
      RamClock.Adds s.ramClock ((Run.exec ramStep s events).ramClock.tick now)
        (ramGrowth s.ramClock events now) := by
  induction events generalizing s with
  | nil => exact ⟨hm, (RamClock.tick_spec (c := s.ramClock) hm hrun.fitsLast).1⟩
  | cons e events ih =>
    obtain ⟨hfirst, hsorted⟩ := List.pairwise_cons.mp hrun.sorted
    have hrest : TimelyRun (Run.next ramStep s e) events now :=
      ⟨hsorted, fun e' he' => hrun.past e' (List.mem_cons_of_mem e he'),
        fun e' he' => hrun.noSetram e' (List.mem_cons_of_mem e he'), hrun.fits.2, hrun.fitsLast⟩
    obtain ⟨hmarket, g, hadds, hgrowth⟩ := next_ramGrowth hm (hrun.noSetram e List.mem_cons_self)
      hrun.fits.1 hfirst (hrun.past e List.mem_cons_self)
    obtain ⟨hend, htail⟩ := ih hmarket hrest
    rw [hgrowth]
    exact ⟨hend, hadds.trans htail⟩

/-- The growth of all slots there are stays far below the size of a counter. -/
theorem ramGrowth_lt {s : SystemState F} {events : List (RamEvent F)} {now : BlockTimestamp}
    (hrun : TimelyRun s events now) : ramGrowth s.ramClock events now < 2 ^ 63 := by
  have hrate (r : UInt16) : r.toNat ≤ 65535 := Nat.le_of_lt_succ r.toNat_lt
  have hle : ramGrowth s.ramClock events now ≤
      (now.toNat - s.ramClock.lastRamIncrease.toNat) * 65535 := by
    apply growth_le (hrate _)
    intro c hc
    obtain ⟨e, he, hmap⟩ := List.mem_filterMap.mp hc
    obtain ⟨r, -, rfl⟩ := Option.map_eq_some_iff.mp hmap
    exact ⟨UInt32.le_iff_toNat_le.mp (hrun.past e he), hrate r⟩
  have hslots := now.toNat_lt
  omega

/-- Two timely runs to the same slot with the same changes of the rate make the same RAM, which is
    the sum of rate and elapsed slots, whatever else they do. -/
theorem ram_growth_independent {s : SystemState F} (hm : s.rammarket.isSome)
    {events events' : List (RamEvent F)} {ctx ctx' : Context}
    (hnow : ctx'.now.toSlot = ctx.now.toSlot) (hrun : TimelyRun s events ctx.now.toSlot)
    (hrun' : TimelyRun s events' ctx'.now.toSlot) (hrates : rateChanges events' = rateChanges events) :
    let g := ramGrowth s.ramClock events ctx.now.toSlot
    ∃ u u', (Run.exec ramStep s events).updateRamSupply ctx = .ok u ∧
      (Run.exec ramStep s events').updateRamSupply ctx' = .ok u' ∧
      u'.gstate.maxRamSize = u.gstate.maxRamSize ∧
      RamClock.Adds s.ramClock u.ramClock g ∧ RamClock.Adds s.ramClock u'.ramClock g ∧
      (s.gstate.maxRamSize.toNat + g < 2 ^ 64 →
        u.gstate.maxRamSize.toNat = s.gstate.maxRamSize.toNat + g) ∧
      (s.ramClock.base.toInt + g < 2 ^ 63 →
        u.ramClock.base.toInt = s.ramClock.base.toInt + g ∧
        u'.ramClock.base.toInt = s.ramClock.base.toInt + g) := by
  intro g
  have hg : ramGrowth s.ramClock events' ctx'.now.toSlot = g := by
    show ramGrowth _ _ _ = ramGrowth _ _ _
    unfold ramGrowth
    rw [hrates, hnow]
  have hlt : g < 2 ^ 63 := ramGrowth_lt hrun
  obtain ⟨hend, hadds⟩ := exec_ramGrowth hm hrun
  obtain ⟨hend', hadds'⟩ := exec_ramGrowth hm hrun'
  obtain ⟨u, hu⟩ := updateRamSupply_ok ctx hend
  obtain ⟨u', hu'⟩ := updateRamSupply_ok ctx' hend'
  rw [← updateRamSupply_ramClock hu] at hadds
  rw [← updateRamSupply_ramClock hu', hg] at hadds'
  exact ⟨u, u', hu, hu', hadds'.maxRamSize.trans hadds.maxRamSize.symm, hadds, hadds', hadds.toNat,
    fun hroom => ⟨hadds.toInt hlt hroom, hadds'.toInt hlt hroom⟩⟩

/-! ## Samples -/

namespace Sample

/-- The greatest rate, and one purchase some time later. -/
def purchaseAfter (sec : Int64) : List (RamEvent Rat) :=
  [.call ⟨ctx [eosioAccount] launch, .setramrate 65535⟩,
    .call ⟨ctx [alice] (launch + sec), .buyram alice alice (utxram 10000)⟩]

/-- The supply of RAM some time after the launch. -/
def supplyAfter (events : List (RamEvent Rat)) (sec : Int64) : Except String UInt64 :=
  ((Run.exec ramStep start events).updateRamSupply (ctx [] (launch + sec))).map fun s =>
    s.gstate.maxRamSize

end Sample

open Sample in
/-- In 70,000 slots without an update, `2 ^ 32` bytes get lost. -/
theorem ram_growth_lost :
    supplyAfter (purchaseAfter 17500) 35000 = .ok (9 * 1024 * 1024 * 1024 + 70000 * 65535) ∧
    supplyAfter (purchaseAfter 35000) 35000 =
      .ok (9 * 1024 * 1024 * 1024 + 70000 * 65535 - 4294967296) := by
  decide +kernel

open Sample in
/-- Two purchases at times at which the gaps are short enough. -/
theorem ram_growth_independent_sample :
    ramGrowth start.ramClock (purchaseAfter 17500) (TimePoint.toSlot ((launch + 35000) * 1000000)) =
      70000 * 65535 ∧
    ∃ u u', (Run.exec ramStep start (purchaseAfter 17500)).updateRamSupply (ctx [] (launch + 35000)) =
        .ok u ∧
      (Run.exec ramStep start (purchaseAfter 10000)).updateRamSupply (ctx [] (launch + 35000)) =
        .ok u' ∧ u'.gstate.maxRamSize = u.gstate.maxRamSize := by
  have hrun : TimelyRun start (purchaseAfter 17500) (ctx [] (launch + 35000)).now.toSlot :=
    ⟨by decide +kernel, by decide +kernel, by decide +kernel, by decide +kernel, by decide +kernel⟩
  have hrun' : TimelyRun start (purchaseAfter 10000) (ctx [] (launch + 35000)).now.toSlot :=
    ⟨by decide +kernel, by decide +kernel, by decide +kernel, by decide +kernel, by decide +kernel⟩
  obtain ⟨u, u', hu, hu', heq, -⟩ :=
    ram_growth_independent (s := start) (by decide +kernel) rfl hrun hrun' (by decide +kernel)
  exact ⟨by decide +kernel, u, u', hu, hu', heq⟩

end SystemState

end UxContracts
