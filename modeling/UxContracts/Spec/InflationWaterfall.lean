import UxContracts.Spec.UsageAverages

/-!
# The inflation waterfall

`set_total` keeps the sum of the two averages between two bounds, divides the inflation of a day
between users and producers, and hands the NET part of the users' share on to the producers. In
an exact reading nothing gets lost on the way (`inflation_waterfall`): the two parts add up to
the inflation of the day, and each amount of tokens loses less than one unit.
-/

namespace UxContracts

namespace ResourceState

variable {F H : Type} [Double F]

section

variable {K : Type} [Field K] [LinearOrder K] [FloorRing K] (E : FieldReading F K)

/-! ## The clamps -/

/-- The averages are parts of a positive sum. -/
structure Utilization.Parts (u : Utilization F) : Prop where
  cpu : 0 ≤ E.val u.cpu
  net : 0 ≤ E.val u.net
  total : 0 < E.val u.total
  sum : E.val u.cpu + E.val u.net = E.val u.total

theorem val_leastUsage : E.val leastUsage = 1 / 10 ^ 11 := by
  unfold leastUsage
  rw [E.val_ofDecimal, Nat.cast_one]

/-- `0.99999999999` -/
theorem val_mostUsage : E.val (Double.ofDecimal 99999999999 11) = 1 - 1 / 10 ^ 11 := by
  rw [E.val_ofDecimal]
  norm_num

theorem val_fmin (x y : F) : E.val (Double.fmin x y) = min (E.val x) (E.val y) := by
  unfold Double.fmin
  split
  · rename_i hlt
    rw [E.lt_iff] at hlt
    exact (min_eq_right hlt.le).symm
  · rename_i hge
    rw [E.lt_iff, not_lt] at hge
    rw [if_pos ((E.le_iff x y).mpr hge)]
    exact (min_eq_left hge).symm

variable [IsStrictOrderedRing K]

/-- Both averages are rescaled to another sum. -/
theorem Utilization.Parts.rescale {u : Utilization F} (h : u.Parts E) {total : F}
    (htotal : 0 < E.val total) :
    Utilization.Parts E ⟨u.cpu / u.total * total, u.net / u.total * total, total⟩ := by
  have hpos := h.total
  have hcpu := h.cpu
  have hnet := h.net
  refine ⟨?_, ?_, htotal, ?_⟩
  · show 0 ≤ E.val (u.cpu / u.total * total)
    rw [E.val_mul, E.val_div]
    positivity
  · show 0 ≤ E.val (u.net / u.total * total)
    rw [E.val_mul, E.val_div]
    positivity
  · show E.val (u.cpu / u.total * total) + E.val (u.net / u.total * total) = E.val total
    rw [E.val_mul, E.val_mul, E.val_div, E.val_div, ← add_mul, ← add_div, h.sum, div_self hpos.ne',
      one_mul]

/-- The sum of the averages ends up between the bounds, whichever clamp is taken. -/
theorem clampUtilization_spec {cpu net : F} (h : Utilization.Parts E ⟨cpu, net, cpu + net⟩) :
    (clampUtilization cpu net).Parts E ∧ E.val (clampUtilization cpu net).total < 1 := by
  have hleast : 0 < E.val leastUsage := by
    rw [val_leastUsage]
    positivity
  have hmost : 0 < E.val (Double.ofDecimal 99999999999 11) := by
    rw [val_mostUsage]
    norm_num
  -- the first clamp
  have hfirst : ∃ u : Utilization F, u.Parts E ∧
      (if cpu + net < leastUsage then
        ⟨cpu / (cpu + net) * leastUsage, net / (cpu + net) * leastUsage, leastUsage⟩
      else ⟨cpu, net, cpu + net⟩ : Utilization F) = u := by
    split
    · exact ⟨_, h.rescale E hleast, rfl⟩
    · exact ⟨_, h, rfl⟩
  obtain ⟨u, hu, heq⟩ := hfirst
  -- the second clamp takes what the first one has left
  simp only [clampUtilization, heq]
  split
  · refine ⟨hu.rescale E hmost, ?_⟩
    show E.val (Double.ofDecimal 99999999999 11) < 1
    rw [val_mostUsage]
    norm_num
  · rename_i hle
    rw [E.lt_iff, not_lt, val_mostUsage] at hle
    exact ⟨hu, lt_of_le_of_lt hle (by norm_num)⟩

/-! ## The parts of a day -/

/-- What the formula divides by. -/
structure DivisorsNonzero (cpu net valueTransfer : F) (u : Utilization F) (r : DailyRates F) :
    Prop where
  /-- in the first clamp -/
  sum : E.val (cpu + net) ≠ 0
  /-- in the second clamp -/
  clamped : max (E.val (cpu + net)) (E.val leastUsage) ≠ 0
  total : E.val u.total ≠ 0
  inflation : E.val r.inflation ≠ 0
  transfer : 1 - E.val u.total - E.val (getC u.total) * E.val valueTransfer ≠ 0

/-- What the parts of the inflation of a day add up to. -/
structure PartsOfDay (u : Utilization F) (r : DailyRates F) : Prop where
  split : E.val r.cpuPay + E.val r.finalBpDaily = E.val r.inflationDaily
  users : E.val u.total * E.val r.inflationDaily ≤ E.val r.utilityDaily
  cpuPay : 0 ≤ E.val r.cpuPay
  finalBpDaily : 0 ≤ E.val r.finalBpDaily

/-- The formula with the assumptions on the functions that it calls. -/
structure ProperRates (r : DailyRates F) : Prop where
  inflation : 0 < E.val r.inflation
  bppay : 0 ≤ E.val r.bppay
  bppay_le : E.val r.bppay ≤ E.val r.inflation
  inflationDaily : 0 < E.val r.inflationDaily

omit [IsStrictOrderedRing K] in
/-- The parts of the inflation of a day in the reading; `bp` is what the producers get before
    the NET part. -/
theorem val_dailyRates (valueTransfer maxPay : F) (u : Utilization F) :
    let r := dailyRates valueTransfer maxPay u
    let bp := min (E.val r.bppay) (E.val r.inflation * (1 - E.val u.total))
    E.val r.utilityDaily =
        (E.val r.inflation - bp) / E.val r.inflation * E.val r.inflationDaily ∧
      E.val r.cpuPay = E.val r.utilityDaily * (E.val u.cpu / E.val u.total) ∧
      E.val r.finalBpDaily = bp / E.val r.inflation * E.val r.inflationDaily +
        (E.val r.utilityDaily - E.val r.cpuPay) := by
  intro r bp
  have hbp : E.val (Double.fmin r.bppay (r.inflation * (Double.ofInt 1 - u.total))) = bp := by
    rw [val_fmin, E.val_mul, E.val_sub, E.val_ofInt, Int.cast_one]
  have hutility : r.utilityDaily = (r.inflation -
      Double.fmin r.bppay (r.inflation * (Double.ofInt 1 - u.total))) / r.inflation *
        r.inflationDaily := rfl
  have hcpuPay : r.cpuPay = r.utilityDaily * (u.cpu / u.total) := rfl
  have hfinal : r.finalBpDaily = Double.fmin r.bppay (r.inflation * (Double.ofInt 1 - u.total)) /
      r.inflation * r.inflationDaily + (r.utilityDaily - r.cpuPay) := rfl
  refine ⟨?_, ?_, ?_⟩
  · rw [hutility, E.val_mul, E.val_div, E.val_sub, hbp]
  · rw [hcpuPay, E.val_mul, E.val_div]
  · rw [hfinal, E.val_add, E.val_sub, E.val_mul, E.val_div, hbp]

/-- The rates of a day are parts of the utilization. -/
theorem dailyRates_parts {valueTransfer maxPay : F} {u : Utilization F} (hu : u.Parts E)
    (hone : E.val u.total < 1) (hr : ProperRates E (dailyRates valueTransfer maxPay u)) :
    PartsOfDay E u (dailyRates valueTransfer maxPay u) := by
  obtain ⟨hutility, hcpuPay, hfinal⟩ := val_dailyRates E valueTransfer maxPay u
  generalize dailyRates valueTransfer maxPay u = r at *
  have hinflation := hr.inflation
  have hdaily := hr.inflationDaily
  have htotal := hu.total
  -- the producers' share of the inflation
  obtain ⟨b, hb⟩ : ∃ b, min (E.val r.bppay) (E.val r.inflation * (1 - E.val u.total)) /
      E.val r.inflation = b := ⟨_, rfl⟩
  have hb0 : 0 ≤ b := by
    rw [← hb]
    apply div_nonneg _ hinflation.le
    exact le_min hr.bppay (mul_nonneg hinflation.le (by linarith))
  have hb1 : b ≤ 1 - E.val u.total := by
    rw [← hb, div_le_iff₀ hinflation, mul_comm]
    exact min_le_right _ _
  rw [sub_div, hb, div_self hinflation.ne'] at hutility
  rw [hb] at hfinal
  -- the CPU part of the users' share
  have hpart : E.val u.cpu / E.val u.total ≤ 1 := by
    rw [div_le_one htotal, ← hu.sum]
    exact le_add_of_nonneg_right hu.net
  have hpart0 : 0 ≤ E.val u.cpu / E.val u.total := div_nonneg hu.cpu htotal.le
  have hutility0 : 0 ≤ E.val r.utilityDaily := by
    rw [hutility]
    exact mul_nonneg (by linarith) hdaily.le
  have hcpuPay1 : E.val r.cpuPay ≤ E.val r.utilityDaily := by
    rw [hcpuPay]
    exact mul_le_of_le_one_right hutility0 hpart
  -- the NET part is what the users' share has more than the CPU part, so the parts add up
  refine ⟨?_, ?_, ?_, ?_⟩
  · rw [hfinal, hutility]
    ring
  · rw [hutility]
    exact mul_le_mul_of_nonneg_right (by linarith) hdaily.le
  · rw [hcpuPay]
    exact mul_nonneg hutility0 hpart0
  · rw [hfinal]
    have hbp := mul_nonneg hb0 hdaily.le
    linarith

/-! ## The divisors -/

/-- A quotient by zero would be zero, and the inflation negative. -/
theorem transfer_ne_zero {valueTransfer maxPay : F} {u : Utilization F}
    (h : 0 < E.val (dailyRates valueTransfer maxPay u).inflation) :
    1 - E.val u.total - E.val (getC u.total) * E.val valueTransfer ≠ 0 := by
  have hinflation : E.val (dailyRates valueTransfer maxPay u).inflation =
      (1 - E.val u.total) /
        (1 - E.val u.total - E.val (getC u.total) * E.val valueTransfer) - 1 := by
    show E.val ((Double.ofInt 1 - u.total) /
      (Double.ofInt 1 - u.total - getC u.total * valueTransfer) - Double.ofInt 1) = _
    rw [E.val_sub, E.val_div, E.val_sub, E.val_sub, E.val_sub, E.val_mul, E.val_ofInt, Int.cast_one]
  -- with a divisor of zero the reading of the inflation is `-1`
  intro hzero
  rw [hinflation, hzero, div_zero, zero_sub] at h
  linarith

/-! ## Tokens -/

/-- An amount of tokens loses less than one unit. -/
theorem shareOf_floor {rate : F} {supply a : Asset} {sym : Symbol} (hrate : 0 ≤ E.val rate)
    (hsupply : 0 ≤ supply.amount.toInt) (h : shareOf rate supply sym = .ok a) :
    0 ≤ a.amount.toInt ∧ (a.amount.toInt : K) ≤ E.val rate * supply.amount.toInt ∧
      E.val rate * supply.amount.toInt < a.amount.toInt + 1 := by
  simp only [shareOf, bind_eq_ok] at h
  obtain ⟨amount, hamount, hmake⟩ := h
  have htrunc := Double.toInt64_eq_ok hamount
  have hval : E.val (rate * Double.ofInt supply.amount.toInt) =
      E.val rate * supply.amount.toInt := by
    rw [E.val_mul, E.val_ofInt]
  have hnonneg : (0 : K) ≤ E.val rate * supply.amount.toInt :=
    mul_nonneg hrate (by exact_mod_cast hsupply)
  rw [E.trunc_eq, hval, if_pos hnonneg, Option.some.injEq] at htrunc
  rw [(Asset.make_spec hmake).1, ← htrunc]
  exact ⟨Int.floor_nonneg.mpr hnonneg, Int.floor_le _, Int.lt_floor_add_one _⟩

/-! ## A row of the history -/

omit E in
/-- The averages of a row after the clamps. -/
def utilization (row : UsageHistory F) : Utilization F :=
  clampUtilization (row.emaCpu / Double.ofInt 2) (row.emaNet / Double.ofInt 2)

/-- The value transfer rate of the day after `last`. -/
def valueTransfer (cfg : ResourceConfig F) (last : UsageHistory F) : F :=
  Double.pow (Double.ofInt 2) (-(Double.ofInt last.daycount.toNat / Double.ofInt 365)) *
    cfg.initialValueTransferRate

/-- What the formula computes for a row. -/
def ratesOf (cfg : ResourceConfig F) (last row : UsageHistory F) : DailyRates F :=
  dailyRates (valueTransfer cfg last) cfg.maxPayConstant (utilization row)

/-- The tokens of a new row are parts of the supply. -/
theorem nextHistory_tokens {cfg : ResourceConfig F} {g : GlobalState F}
    {history : Table Nat (UsageHistory F)} {last row : UsageHistory F} {pk : Nat} {supply : Asset}
    {sym : Symbol} {cpu net : UInt64} {start : TimePointSec}
    (h : nextHistory cfg g history last pk supply sym cpu net start = .ok row) :
    shareOf (ratesOf cfg last row).cpuPay supply sym = .ok row.utilityTokens ∧
      shareOf (ratesOf cfg last row).finalBpDaily supply sym = .ok row.bppayTokens := by
  simp only [nextHistory, bind_eq_ok, pure_eq_ok] at h
  obtain ⟨utility, hutility, bppay, hbppay, rfl⟩ := h
  exact ⟨hutility, hbppay⟩

/-- The averages that `set_total` computes are not negative, and not both zero. -/
structure AdmittedAverages (row : UsageHistory F) : Prop where
  cpu : 0 ≤ E.val row.emaCpu
  net : 0 ≤ E.val row.emaNet
  sum : 0 < E.val row.emaCpu + E.val row.emaNet

/-- The inflation of a day is divided up without a loss but for two units of tokens. -/
structure Waterfall (cfg : ResourceConfig F) (last row : UsageHistory F) (supply : Asset) :
    Prop where
  parts : PartsOfDay E (utilization row) (ratesOf cfg last row)
  utilityTokens : 0 ≤ row.utilityTokens.amount.toInt
  bppayTokens : 0 ≤ row.bppayTokens.amount.toInt
  atMost : (row.utilityTokens.amount.toInt : K) + row.bppayTokens.amount.toInt ≤
    E.val (ratesOf cfg last row).inflationDaily * supply.amount.toInt
  moreThan : E.val (ratesOf cfg last row).inflationDaily * supply.amount.toInt - 2 <
    (row.utilityTokens.amount.toInt : K) + row.bppayTokens.amount.toInt
  divisors : DivisorsNonzero E (row.emaCpu / Double.ofInt 2) (row.emaNet / Double.ofInt 2)
    (valueTransfer cfg last) (utilization row) (ratesOf cfg last row)

/-- Half of each average is a part of the utilization. -/
theorem AdmittedAverages.parts {row : UsageHistory F} (h : AdmittedAverages E row) :
    Utilization.Parts E ⟨row.emaCpu / Double.ofInt 2, row.emaNet / Double.ofInt 2,
      row.emaCpu / Double.ofInt 2 + row.emaNet / Double.ofInt 2⟩ := by
  have hcpu := h.cpu
  have hnet := h.net
  have hsum := h.sum
  refine ⟨?_, ?_, ?_, (E.val_add _ _).symm⟩
  · show 0 ≤ E.val (row.emaCpu / Double.ofInt 2)
    rw [E.val_div, E.val_ofInt]
    positivity
  · show 0 ≤ E.val (row.emaNet / Double.ofInt 2)
    rw [E.val_div, E.val_ofInt]
    positivity
  · show 0 < E.val (row.emaCpu / Double.ofInt 2 + row.emaNet / Double.ofInt 2)
    rw [E.val_add, E.val_div, E.val_div, E.val_ofInt, ← add_div]
    positivity

/-- Whatever `pow`, `log` and `exp` return: if the inflation of the year and of the day are
    positive and the pay of the producers is a part of it, the waterfall loses nothing. -/
theorem inflation_waterfall {cfg : ResourceConfig F} {g : GlobalState F}
    {history : Table Nat (UsageHistory F)} {last row : UsageHistory F} {pk : Nat} {supply : Asset}
    {sym : Symbol} {cpu net : UInt64} {start : TimePointSec}
    (h : nextHistory cfg g history last pk supply sym cpu net start = .ok row)
    (hadmitted : AdmittedAverages E row) (hsupply : 0 ≤ supply.amount.toInt)
    (hproper : ProperRates E (ratesOf cfg last row)) : Waterfall E cfg last row supply := by
  obtain ⟨hutility, hbppay⟩ := nextHistory_tokens h
  obtain ⟨hclamped, hone⟩ := clampUtilization_spec E hadmitted.parts
  have hparts : PartsOfDay E (utilization row) (ratesOf cfg last row) :=
    dailyRates_parts E hclamped hone hproper
  obtain ⟨hu0, hu1, hu2⟩ := shareOf_floor E hparts.cpuPay hsupply hutility
  obtain ⟨hb0, hb1, hb2⟩ := shareOf_floor E hparts.finalBpDaily hsupply hbppay
  -- each of the two amounts loses less than one unit of its part of the split
  have hsplit : E.val (ratesOf cfg last row).inflationDaily * supply.amount.toInt =
      E.val (ratesOf cfg last row).cpuPay * supply.amount.toInt +
        E.val (ratesOf cfg last row).finalBpDaily * supply.amount.toInt := by
    rw [← hparts.split, add_mul]
  refine ⟨hparts, hu0, hb0, ?_, ?_, ?_⟩
  · rw [hsplit]
    exact add_le_add hu1 hb1
  · rw [hsplit]
    linarith
  · have hsum := hadmitted.parts.total
    exact ⟨hsum.ne', (lt_max_of_lt_left hsum).ne', hclamped.total.ne', hproper.inflation.ne',
      transfer_ne_zero E hproper.inflation⟩

/-! ## The averages of a run -/

open MovingAverage

/-- A step between positive averages. -/
theorem emaStep_pos {D : Nat} (hD : 1 ≤ D) {a x : K} (ha : 0 ≤ a) (hx : 0 < x) :
    0 < emaStep D a x := by
  have hD' : (0 : K) ≤ D - 1 := by
    rw [sub_nonneg]
    exact_mod_cast hD
  have hden : (0 : K) < D + 1 := by linarith
  have heq : emaStep D a x = ((D - 1) * a + 2 * x) / (D + 1) := by
    unfold emaStep
    field_simp
    ring
  rw [heq]
  positivity

omit [FloorRing K] in
/-- A mean of usages that are not negative is not negative. -/
theorem recentMean_nonneg {D k : Nat} {u : Nat → K} (hu : ∀ i, i ≤ k → 0 ≤ u i) :
    0 ≤ recentMean D u k := by
  unfold recentMean windowSum
  apply div_nonneg _ (Nat.cast_nonneg _)
  exact Finset.sum_nonneg fun i hi => hu i (Nat.le_of_lt_succ (Finset.mem_Ico.mp hi).2)

/-- With a limit that eight bits can count, the averages of all rows but the first are
    positive. -/
theorem ReadsAverages.ema_pos {c : Channel F} {D : Nat} {rows : List (UsageHistory F)}
    (h : ReadsAverages E c D rows) (hD : 1 ≤ D) (hD' : D ≤ 255) {k : Nat} (hk : 1 ≤ k)
    (hkn : k < rows.length) : 0 < valueAt E rows c.ema k := by
  have hu : ∀ i, i < rows.length → 0 ≤ valueAt E rows c.use i := by
    intro i hi
    cases i with
    | zero => exact h.zero.1.ge
    | succ i => exact (h.pos (i + 1) (Nat.succ_pos i) hi).le
  -- from the limit on the averages are steps, before it they are means
  by_cases hreached : D ≤ k
  · rw [h.restarts.step k hk hkn hreached]
    exact emaStep_pos hD (recentMean_nonneg fun i hi => hu i (by omega)) (h.pos k hk hkn)
  · rw [h.restarts.start k hk hkn (by omega), recentMean_of_lt (by omega) (by omega) h.zero.1]
    apply div_pos
    · apply Finset.sum_pos
      · intro i hi
        have hi := Finset.mem_Icc.mp hi
        exact h.pos i hi.1 (by omega)
      · exact ⟨1, Finset.mem_Icc.mpr ⟨le_refl 1, hk⟩⟩
    · exact_mod_cast hk

/-- The averages of the row that `set_total` adds are admitted. -/
theorem FollowsRows.admitted {draglimit : UInt32} {rows : List (UsageHistory F)}
    {last row : UsageHistory F} (hD : 1 ≤ draglimit.toNat) (hD' : draglimit.toNat ≤ 255)
    (hrows : IsHistory draglimit (rows ++ [last]))
    (h : FollowsRows draglimit (rows ++ [last]) last row) : AdmittedAverages E row := by
  have hall := IsHistory.next hrows h
  have hlength : (rows ++ [last] ++ [row]).length = (rows ++ [last]).length + 1 := by simp
  have hpos : 1 ≤ (rows ++ [last]).length := by simp
  have hcpu := (hall.reads E (.inl rfl)).ema_pos E hD hD' hpos (by omega)
  have hnet := (hall.reads E (.inr rfl)).ema_pos E hD hD' hpos (by omega)
  rw [valueAt_append_self E rfl] at hcpu hnet
  exact ⟨hcpu.le, hnet.le, add_pos hcpu hnet⟩

/-- The row that `set_total` adds after any run has admitted averages, so its waterfall loses
    nothing either. -/
theorem setTotal_waterfall [Checksum H] (maxBlockNetUsage : UInt64) (maxBlockCpuUsage : UInt32)
    (calls : List (ResourceCall F H)) {s' : ResourceState F H} {cpu net : UInt64}
    {start : TimePointSec} :
    let s := Run.exec step (genesis maxBlockNetUsage maxBlockCpuUsage) calls
    s.setTotal cpu net start = .ok s' →
      ∃ k last row sym supply, s.history.last? = some (k, last) ∧
        s'.history = s.history.set (k + 1) row ∧ s.sys.token.getSupply sym = .ok supply ∧
        (ProperRates E (ratesOf s.getConfig last row) →
          Waterfall E s.getConfig last row supply) := by
  intro s h
  -- no action changes the limit that the first configuration has
  have hI : s.sys.CoreToken ∧ RowsInv 2 s := by
    have hstart : (genesis maxBlockNetUsage maxBlockCpuUsage : ResourceState F H).sys.CoreToken ∧
        RowsInv 2 (genesis maxBlockNetUsage maxBlockCpuUsage : ResourceState F H) :=
      ⟨SystemState.genesis_coreToken _ _,
        rowsInv_of_empty (s := genesis maxBlockNetUsage maxBlockCpuUsage) rfl⟩
    have hstep : ∀ (u : ResourceState F H) call u', u.sys.CoreToken ∧ RowsInv 2 u →
        u.step call = .ok u' → u'.sys.CoreToken ∧ RowsInv 2 u' := by
      intro u call u' hI h
      exact ⟨step_coreToken hI.1 h, step_rowsInv hI.2 h⟩
    exact Run.exec_induction (I := fun u : ResourceState F H => u.sys.CoreToken ∧ RowsInv 2 u)
      hstep hstart calls
  obtain ⟨hcore, hrows⟩ := hI
  -- the row was written by this call, from the last row
  obtain ⟨k, last, sym, supply, row, hlast, hday, -, -, -, hsupply, hrow, rfl⟩ := setTotal_cases h
  have hlength := hrows.numbered k last hlast
  obtain ⟨hcpu, hnet⟩ := nextHistory_averaged hlength.symm hrow
  rw [hrows.limit] at hcpu hnet
  -- its averages follow the rows before it
  obtain ⟨init, hinit⟩ := last_of_values hlast
  have hhistory := hrows.rows
  rw [hinit] at hcpu hnet hhistory
  have hadmitted : AdmittedAverages E row :=
    FollowsRows.admitted E (by decide) (by decide) hhistory
      ⟨hday, (nextHistory_spec hrow).1, hcpu, hnet⟩
  -- the supply is never negative
  have hnonneg : 0 ≤ supply.amount.toInt := by
    have hget := hsupply
    simp only [TokenState.getSupply, bind_eq_ok, getRow_eq_ok, pure_eq_ok] at hget
    obtain ⟨st, hst, rfl⟩ := hget
    exact (hcore.token.supplyBounds _ st hst).1
  exact ⟨k, last, row, sym.code, supply, hlast, rfl, hsupply,
    inflation_waterfall E hrow hadmitted hnonneg⟩

end

namespace Sample

open SystemState.Sample

/-- The core tokens of the samples. -/
def issued : Asset := ⟨10000000000000, core⟩

/-- The first day of the samples with a million microseconds and two thousand words. -/
def firstDay : Except String (UsageHistory Rat) :=
  let s := Run.exec step start (setup 2)
  nextHistory s.getConfig s.sys.gstate s.history (firstHistory 1600000000) 1 issued core 1000000 2000
    1600000000

/-- The row of the first day. -/
def firstRow : UsageHistory Rat :=
  match firstDay with
  | .ok row => row
  | .error _ => firstHistory 0

theorem firstDay_eq : firstDay = .ok firstRow := by
  have hok : firstDay.isOk = true := by decide +kernel
  unfold firstRow
  cases hday : firstDay with
  | error e =>
    rw [hday] at hok
    cases hok
  | ok row => rfl

end Sample

open Sample in
/-- The waterfall of the first day. -/
theorem inflation_waterfall_sample :
    Waterfall FieldReading.rational (Run.exec step start (setup 2)).getConfig
      (firstHistory 1600000000) firstRow issued := by
  apply inflation_waterfall FieldReading.rational firstDay_eq
  · exact ⟨by decide +kernel, by decide +kernel, by decide +kernel⟩
  · decide
  · exact ⟨by decide +kernel, by decide +kernel, by decide +kernel, by decide +kernel⟩

end ResourceState

end UxContracts
