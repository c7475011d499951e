import UxContracts.Native.Resource

/-!
# Inflation

`set_total` evaluates the inflation formula for the agreed totals of a period and adds
the result to the history. `issue_inflation` issues the tokens of the last row, at most
the daily cap and what is left of the maximum supply, and credits the active producers.
-/

namespace UxContracts

namespace ResourceState

variable {F H : Type} [Double F]

/-! ## The formula -/

/-- `C[x] = -x * ln(x) * exp(1)`. -/
def getC (x : F) : F := -x * Double.log x * Double.exp (Double.ofInt 1)

/-- A moving average; the number of samples is stored in eight bits. -/
def calcMA (sum : F) (timeperiod : UInt8) (newVal : F) : F :=
  (sum + newVal) / Double.ofInt timeperiod.toNat

/-- An exponential moving average. -/
def calcEMA (previousAverage : F) (timePeriod : Int32) (newVal : F) : F :=
  let mult : F := Double.ofInt 2 / (Double.ofInt timePeriod.toInt + Double.ofInt 1)
  (newVal - previousAverage) * mult + previousAverage

/-- `0.00000000001` -/
def leastUsage : F := Double.ofDecimal 1 11

/-- The part of a maximum that has been used, but not zero. -/
def usageRatio (used max : UInt64) : F :=
  let ratio : F := Double.ofInt used.toNat / Double.ofInt max.toNat
  if ratio < leastUsage then leastUsage else ratio

/-- The greatest CPU time of a day in microseconds. -/
def systemMaxCpu (g : GlobalState F) : UInt64 := g.maxBlockCpuUsage.toUInt64 * 2 * 60 * 60 * 24

/-- The greatest number of NET bytes of a day. -/
def systemMaxNet (g : GlobalState F) : UInt64 := g.maxBlockNetUsage * 2 * 60 * 60 * 24

/-- The averages that the formula uses: half of the CPU and NET averages, and their sum
    kept between zero and one. -/
structure Utilization (F : Type) where
  cpu : F
  net : F
  total : F

def clampUtilization (cpu net : F) : Utilization F :=
  let total := cpu + net
  let u : Utilization F := ⟨cpu, net, total⟩
  let u : Utilization F :=
    if u.total < leastUsage then
      ⟨u.cpu / u.total * leastUsage, u.net / u.total * leastUsage, leastUsage⟩
    else u
  let most : F := Double.ofDecimal 99999999999 11
  if most < u.total then ⟨u.cpu / u.total * most, u.net / u.total * most, most⟩ else u

/-- What the formula computes for one day. -/
structure DailyRates (F : Type) where
  inflation : F
  inflationDaily : F
  upaygross : F
  bppay : F
  utilityDaily : F
  cpuPay : F
  bppayDaily : F
  finalBpDaily : F

/-- The inflation of a day and its parts for users and producers. -/
def dailyRates (valueTransfer maxPay : F) (u : Utilization F) : DailyRates F :=
  let one : F := Double.ofInt 1
  let inflation := (one - u.total) / (one - u.total - getC u.total * valueTransfer) - one
  let bpU := maxPay * getC u.total
  let upaygross := Double.pow (one + inflation) (one - bpU) - one
  let bppay := inflation - upaygross
  -- inflation waterfall
  let waterfallBp := inflation * (one - u.total)
  let bppayFinal := Double.fmin bppay waterfallBp
  let uppaynet := inflation - bppayFinal
  let inflationDaily := Double.pow (one + inflation) (one / Double.ofInt 365) - one
  -- allocate proportionally to utility and to producers
  let utilityDaily := uppaynet / inflation * inflationDaily
  let cpuPay := utilityDaily * (u.cpu / u.total)
  let netPay := utilityDaily - cpuPay
  let bppayDaily := bppayFinal / inflation * inflationDaily
  ⟨inflation, inflationDaily, upaygross, bppay, utilityDaily, cpuPay, bppayDaily,
    bppayDaily + netPay⟩

/-- The usages of the last rows of the history, the last one first. -/
def recentUsage (history : Table Nat (UsageHistory F)) (draglimit : UInt32) : F × F :=
  ((history.rows.reverse.map Prod.snd).take (draglimit.toNat - 1)).foldl
    (fun sums r => (sums.1 + r.useCpu, sums.2 + r.useNet)) (Double.ofInt 0, Double.ofInt 0)

/-! ## `set_total` -/

/-- An amount of core tokens as a part of their supply. -/
def shareOf (rate : F) (supply : Asset) (sym : Symbol) : Except String Asset := do
  let amount ← Double.toInt64 (rate * Double.ofInt supply.amount.toInt)
  Asset.make amount sym

/-- The next row of the history: `last` is the row before it, `pk` the key of the new one. -/
def nextHistory (cfg : ResourceConfig F) (g : GlobalState F)
    (history : Table Nat (UsageHistory F)) (last : UsageHistory F) (pk : Nat) (supply : Asset)
    (sym : Symbol) (totalCpuUs totalNetWords : UInt64) (periodStart : TimePointSec) :
    Except String (UsageHistory F) := do
  let dayCount := last.daycount
  let valueTransfer : F :=
    Double.pow (Double.ofInt 2) (-(Double.ofInt dayCount.toNat / Double.ofInt 365)) *
      cfg.initialValueTransferRate
  let usageCpu : F := usageRatio totalCpuUs (systemMaxCpu g)
  let usageNet : F := usageRatio (totalNetWords * 8) (systemMaxNet g)
  let (cpuTotal, netTotal) := recentUsage history cfg.emadraglimit
  -- the period of the moving averages while there are few samples
  let period : UInt8 :=
    if dayCount.toNat < cfg.emadraglimit.toNat then (dayCount.toNat + 1).toUInt8
    else cfg.emadraglimit.toNat.toUInt8
  let maCpu := calcMA cpuTotal period usageCpu
  let maNet := calcMA netTotal period usageNet
  let emaCpu :=
    if cfg.emadraglimit.toNat ≤ pk then calcEMA last.maCpu cfg.emadraglimit.toInt32 usageCpu
    else maCpu
  let emaNet :=
    if cfg.emadraglimit.toNat ≤ pk then calcEMA last.maNet cfg.emadraglimit.toInt32 usageNet
    else maNet
  let u := clampUtilization (emaCpu / Double.ofInt 2) (emaNet / Double.ofInt 2)
  let rates := dailyRates valueTransfer cfg.maxPayConstant u
  let utilityTokens ← shareOf rates.cpuPay supply sym
  let bppayTokens ← shareOf rates.finalBpDaily supply sym
  return {
    daycount := dayCount + 1
    totalCpuUs := totalCpuUs
    totalNetWords := totalNetWords
    netPercentTotal := usageNet / (usageNet + usageCpu)
    cpuPercentTotal := usageCpu / (usageNet + usageCpu)
    useCpu := usageCpu
    useNet := usageNet
    maCpu := maCpu
    maNet := maNet
    emaCpu := emaCpu
    emaNet := emaNet
    emaUtilTotal := u.total
    utility := rates.upaygross
    utilityDaily := rates.utilityDaily
    bppay := rates.bppay
    bppayDaily := rates.bppayDaily
    inflation := rates.inflation
    inflationDaily := rates.inflationDaily
    utilityTokens := utilityTokens
    bppayTokens := bppayTokens
    timestamp := periodStart }

def setTotal (s : ResourceState F H) (totalCpuUs totalNetWords : UInt64)
    (periodStart : TimePointSec) : Except String (ResourceState F H) := do
  let cfg := s.getConfig
  let (_, last) ← Table.lastRow s.history
  -- the first three years, one of them a leap year
  check (last.daycount.toNat < 1096) "inflation period has ended"
  check (totalCpuUs ≤ systemMaxCpu s.sys.gstate) "measured cpu usage is greater than system total"
  check (totalNetWords * 8 ≤ systemMaxNet s.sys.gstate)
    "measured net usage is greater than system total"
  let pk ← Table.availablePrimaryKey s.history
  let sym ← s.sys.coreSymbol
  let supply ← s.sys.token.getSupply sym.code
  let row ← nextHistory cfg s.sys.gstate s.history last pk supply sym totalCpuUs totalNetWords
    periodStart
  return { s with history := s.history.set pk row }.setConfig cfg

/-! ## `issue_inflation` -/

/-- The cap on the inflation of a period: one and a half million tokens. -/
def inflationCap (sym : Symbol) : Except String Asset := do
  let one ← Asset.make 10000 sym
  one.mul 1500000

/-- The two amounts of a row, reduced in proportion if they are more than what may still be
    issued. -/
def fitSupply (row : UsageHistory F) (inflation remaining : Asset) (sym : Symbol) :
    Except String (Asset × UsageHistory F) := do
  let exceeds ← inflation.gt remaining
  if exceeds then do
    let amount ← Double.toInt64 (Double.ofInt row.bppayTokens.amount.toInt /
      Double.ofInt inflation.amount.toInt * Double.ofInt remaining.amount.toInt : F)
    let bppay ← Asset.make amount sym
    let utility ← remaining.sub bppay
    let inflation ← bppay.add utility
    return (inflation, { row with bppayTokens := bppay, utilityTokens := utility })
  else return (inflation, row)

/-- Credit each producer. -/
def creditProducers (earned : Asset) :
    Table Name ProducerPay → List Name → Except String (Table Name ProducerPay)
  | t, [] => .ok t
  | t, p :: ps =>
    match t.find? p with
    | none => creditProducers earned (t.set p ⟨earned, 0⟩) ps
    | some pay => do
      let balance ← pay.balance.add earned
      creditProducers earned (t.set p { pay with balance := balance }) ps

/-- The inline actions that issue the inflation and hand it on. -/
def inflationSends (inflation : Asset) (row : UsageHistory F) : List InlineAction :=
  (if inflation.amount > 0 then
    [⟨[systemAccount], .issue systemAccount inflation "issue daily inflation"⟩] else []) ++
  (if row.bppayTokens.amount > 0 then
    [⟨[systemAccount], .transfer systemAccount bpayAccount row.bppayTokens "producer daily"⟩]
    else []) ++
  (if row.utilityTokens.amount > 0 then
    [⟨[systemAccount], .transfer systemAccount upayAccount row.utilityTokens "usage daily"⟩]
    else [])

def issueInflation (s : ResourceState F H) (periodStart : TimePointSec) :
    Except String (ResourceState F H × List InlineAction) := do
  let cfg := s.getConfig
  let (pk, row) ← Table.lastRow s.history
  let inflation ← row.bppayTokens.add row.utilityTokens
  let sym ← s.sys.coreSymbol
  let cap ← inflationCap sym
  let capped ← inflation.le cap
  check capped "period inflation cap exceeded"
  let st ← Table.getRow s.sys.token.stat sym.code "unable to find key"
  let remaining ← st.maxSupply.sub st.supply
  check (remaining.amount > 0) "cannot exceed max token supply"
  let (inflation, row) ← fitSupply row inflation remaining sym
  let s := { s with history := s.history.set pk row }
  let active := activeProducers s.sys
  check (active.length > 0) "No active producers"
  check (active.length = s.sys.gstate.lastProducerScheduleSize.toNat)
    "active_producers must equal last_producer_schedule_size"
  let earned ← Asset.make (row.bppayTokens.amount / Int64.ofNat active.length) sym
  let prodpay ← (
    if earned.amount > 0 then creditProducers earned s.prodpay active else pure s.prodpay)
  return ({ s with prodpay := prodpay }.setConfig
    { cfg with lastPeriodInflationPrint := periodStart }, inflationSends inflation row)

end ResourceState

end UxContracts
