import Mathlib.Algebra.Order.BigOperators.Group.Finset
import UxContracts.ForStd.MovingAverage
import UxContracts.Spec.ConfigUpdates
import UxContracts.Spec.ExactReading

/-!
# Averages of the usage

A row of the history has the mean of the last usages (`ma`) and an exponential average (`ema`),
for CPU and for NET. The next exponential average is computed from the mean of the row before,
not from its exponential average, so it is one of the whole history only in special cases
(`usage_average`).
-/

namespace UxContracts

namespace ResourceState

variable {F H : Type}

/-! ## The averages of a row -/

/-- The fields of a row for CPU, or those for NET. -/
structure Channel (F : Type) where
  use : UsageHistory F → F
  ma : UsageHistory F → F
  ema : UsageHistory F → F

def cpuChannel : Channel F := ⟨UsageHistory.useCpu, UsageHistory.maCpu, UsageHistory.emaCpu⟩

def netChannel : Channel F := ⟨UsageHistory.useNet, UsageHistory.maNet, UsageHistory.emaNet⟩

variable [Double F]

/-- The usages of the last rows, added up. -/
def recentSum (c : Channel F) (rows : List (UsageHistory F)) (draglimit : UInt32) : F :=
  (rows.reverse.take (draglimit.toNat - 1)).foldl (fun sum r => sum + c.use r) (Double.ofInt 0)

/-- The number of samples of a mean, in eight bits. -/
def samplePeriod (draglimit daycount : UInt32) : UInt8 :=
  if daycount.toNat < draglimit.toNat then (daycount.toNat + 1).toUInt8
  else draglimit.toNat.toUInt8

/-- The averages of a new row after `rows`, the last of which is `last`. -/
structure Averaged (c : Channel F) (draglimit : UInt32) (rows : List (UsageHistory F))
    (last row : UsageHistory F) : Prop where
  use : ∃ used max, c.use row = usageRatio used max
  ma : c.ma row =
    calcMA (recentSum c rows draglimit) (samplePeriod draglimit last.daycount) (c.use row)
  ema : c.ema row = if draglimit.toNat ≤ rows.length then
      calcEMA (c.ma last) draglimit.toInt32 (c.use row)
    else c.ma row

/-- The two sums are one sum over two columns. -/
theorem recentUsage_eq (history : Table Nat (UsageHistory F)) (draglimit : UInt32) :
    recentUsage history draglimit =
      (recentSum cpuChannel history.values draglimit,
        recentSum netChannel history.values draglimit) := by
  -- the source adds up both channels in one loop
  have hfold : ∀ (l : List (UsageHistory F)) (a b : F),
      l.foldl (fun sums r => (sums.1 + r.useCpu, sums.2 + r.useNet)) (a, b) =
        (l.foldl (fun sum r => sum + r.useCpu) a, l.foldl (fun sum r => sum + r.useNet) b) := by
    intro l
    induction l with
    | nil => exact fun _ _ => rfl
    | cons r l ih => exact fun a b => ih (a + r.useCpu) (b + r.useNet)
  unfold recentUsage
  rw [hfold, List.map_reverse]
  rfl

/-- `set_total` computes both averages of the new row. -/
theorem nextHistory_averaged {cfg : ResourceConfig F} {g : GlobalState F}
    {history : Table Nat (UsageHistory F)} {last row : UsageHistory F} {pk : Nat} {supply : Asset}
    {sym : Symbol} {cpu net : UInt64} {start : TimePointSec} (hpk : pk = history.values.length)
    (h : nextHistory cfg g history last pk supply sym cpu net start = .ok row) :
    Averaged cpuChannel cfg.emadraglimit history.values last row ∧
      Averaged netChannel cfg.emadraglimit history.values last row := by
  subst hpk
  simp only [nextHistory, recentUsage_eq, bind_eq_ok, pure_eq_ok] at h
  obtain ⟨utility, -, bppay, -, rfl⟩ := h
  exact ⟨⟨⟨_, _, rfl⟩, rfl, rfl⟩, ⟨⟨_, _, rfl⟩, rfl, rfl⟩⟩

/-! ## Steps of the history -/

/-- Both averages of a new row and the count of its day. -/
structure FollowsRows (draglimit : UInt32) (rows : List (UsageHistory F))
    (last row : UsageHistory F) : Prop where
  days : last.daycount.toNat < 1096
  daycount : row.daycount = last.daycount + 1
  cpu : Averaged cpuChannel draglimit rows last row
  net : Averaged netChannel draglimit rows last row

/-- The averages do not depend on the tokens of a row. -/
theorem FollowsRows.setTokens {draglimit : UInt32} {rows : List (UsageHistory F)}
    {last row : UsageHistory F} (h : FollowsRows draglimit rows last row) (utility bppay : Asset) :
    FollowsRows draglimit rows last
      { row with utilityTokens := utility, bppayTokens := bppay } :=
  ⟨h.days, h.daycount, ⟨h.cpu.use, h.cpu.ma, h.cpu.ema⟩, ⟨h.net.use, h.net.ma, h.net.ema⟩⟩

/-- The new row follows from the rows before it. -/
theorem setTotal_follows {s s' : ResourceState F H} {cpu net : UInt64} {start : TimePointSec}
    (h : s.setTotal cpu net start = .ok s') :
    ∃ k last row, s.history.last? = some (k, last) ∧
      (s.history.values.length = k + 1 →
        FollowsRows s.getConfig.emadraglimit s.history.values last row) ∧
      s'.history = s.history.set (k + 1) row := by
  obtain ⟨k, last, sym, supply, row, hlast, hday, -, -, -, -, hrow, rfl⟩ := setTotal_cases h
  refine ⟨k, last, row, hlast, fun hlength => ?_, rfl⟩
  obtain ⟨hcpu, hnet⟩ := nextHistory_averaged hlength.symm hrow
  exact ⟨hday, (nextHistory_spec hrow).1, hcpu, hnet⟩

/-- Only the tokens of the row are fitted to the supply. -/
theorem fitSupply_tokens {row row' : UsageHistory F} {inflation inflation' remaining : Asset}
    {sym : Symbol} (h : fitSupply row inflation remaining sym = .ok (inflation', row')) :
    ∃ utility bppay, row' = { row with utilityTokens := utility, bppayTokens := bppay } := by
  simp only [fitSupply, bind_eq_ok] at h
  obtain ⟨exceeds, -, h⟩ := h
  split at h
  · simp only [bind_eq_ok, pure_eq_ok, Prod.mk.injEq] at h
    obtain ⟨_, -, bppay, -, utility, -, _, -, -, rfl⟩ := h
    exact ⟨utility, bppay, rfl⟩
  · simp only [pure_eq_ok, Prod.mk.injEq] at h
    obtain ⟨-, rfl⟩ := h
    exact ⟨row.utilityTokens, row.bppayTokens, rfl⟩

/-- The issuance fills in the tokens of the last row only. -/
theorem issueInflation_tokens {s s' : ResourceState F H} {start : TimePointSec} {k : Nat}
    {row : UsageHistory F} {sends : List InlineAction} (hlast : s.history.last? = some (k, row))
    (h : s.issueInflation start = .ok (s', sends)) :
    ∃ utility bppay, s'.history =
      s.history.set k { row with utilityTokens := utility, bppayTokens := bppay } := by
  simp only [issueInflation, bind_eq_ok, check_eq_ok, lastRow_eq_ok, pure_eq_ok, Prod.mk.injEq] at h
  obtain ⟨⟨k', row'⟩, hlast', _, -, _, -, _, -, _, -, _, -, _, -, _, -, _, -, ⟨_, fitted⟩, hfit, _, -,
    _, -, _, -, _, -, rfl, -⟩ := h
  rw [hlast, Option.some.injEq, Prod.mk.injEq] at hlast'
  obtain ⟨rfl, rfl⟩ := hlast'
  obtain ⟨utility, bppay, rfl⟩ := fitSupply_tokens hfit
  exact ⟨utility, bppay, rfl⟩

/-- A call leaves the history alone, makes its first row, or adds the next one. -/
inductive HistoryStep (s s' : ResourceState F H) : Prop where
  | kept (history : s'.history = s.history)
  | first (start : TimePointSec) (empty : s.history.rows = [])
      (history : s'.history = s.history.set 0 (firstHistory start))
  | next (k : Nat) (last row : UsageHistory F) (lastRow : s.history.last? = some (k, last))
      (follows : s.history.values.length = k + 1 →
        FollowsRows s.getConfig.emadraglimit s.history.values last row)
      (history : s'.history = s.history.set (k + 1) row)

variable [Checksum H]

/-- A transfer of inflation adds a row and fills it in. -/
theorem transferInflation_history {s s' : ResourceState F H} {cfg cfg' : ResourceConfig F}
    {start : TimePointSec} {sends : List InlineAction}
    (h : s.transferInflation cfg start = .ok (s', cfg', sends)) : HistoryStep s s' := by
  unfold transferInflation at h
  split at h
  · -- before the issuance there is a tally
    simp only [bind_eq_ok] at h
    obtain ⟨⟨modal, modeCount⟩, -, h⟩ := h
    split at h
    · split at h
      · split at h
        · simp only [bind_eq_ok, pure_eq_ok, Prod.mk.injEq] at h
          obtain ⟨s₁, hset, ⟨s₂, sends'⟩, hissue, rfl, -, -⟩ := h
          -- `set_total` adds the row, and the issuance writes it again with other tokens
          obtain ⟨k, last, row, hlast, hfollows, hhist⟩ := setTotal_follows hset
          have hlast₁ : s₁.history.last? = some (k + 1, row) := by
            rw [hhist]
            exact Table.last?_set_succ row hlast
          obtain ⟨utility, bppay, hhist₂⟩ := issueInflation_tokens hlast₁ hissue
          refine .next k last _ hlast (fun hlength => (hfollows hlength).setTokens utility bppay) ?_
          rw [hhist₂, hhist, Table.set_set]
        · cases h
      · -- no text for the modal hash
        simp only [pure_eq_ok, Prod.mk.injEq] at h
        exact .kept (by rw [← h.1])
    · -- too few oracles agree
      simp only [pure_eq_ok, Prod.mk.injEq] at h
      exact .kept (by rw [← h.1])
  · -- the totals have been issued before
    simp only [Except.ok.injEq, Prod.mk.injEq] at h
    exact .kept (by rw [← h.1])

omit [Checksum H] in
theorem HistoryStep.congr {s s' u : ResourceState F H} (hhist : u.history = s.history)
    (hlimit : u.getConfig.emadraglimit = s.getConfig.emadraglimit) (h : HistoryStep u s') :
    HistoryStep s s' := by
  cases h with
  | kept history => exact .kept (history.trans hhist)
  | first start empty history =>
    rw [hhist] at empty history
    exact .first start empty history
  | next k last row lastRow follows history =>
    rw [hhist] at lastRow follows history
    rw [hlimit] at follows
    exact .next k last row lastRow follows history

/-- What any call does to the history, whatever the tables of the tokens are. -/
theorem step_historyStep {s s' : ResourceState F H} {call : ResourceCall F H}
    (h : s.step call = .ok s') : HistoryStep s s' := by
  obtain ⟨ctx, action⟩ := call
  cases action with
  | initresource batch threshold start seconds rate maxPay =>
    obtain ⟨cfg, -, ⟨hempty, -, -, -, rfl⟩ | ⟨-, -, -, -, rfl⟩⟩ := initresource_spec h
    · -- the first configuration writes the first row
      exact .first start hempty rfl
    · exact .kept rfl
  | resactivate active =>
    rw [resactivate_spec h]
    exact .kept rfl
  | settotalusg source cpu net hash start =>
    obtain ⟨u, sends, token, hr, -, rfl⟩ := commit_eq_ok.mp h
    obtain ⟨-, -, s₁, s₂, cfg, hs₁, -, htransfer, rfl⟩ := settotalusg_spec hr
    have hstep : HistoryStep s₁ s₂ := transferInflation_history htransfer
    -- what the submission has stored is not part of the history
    have hsame := hstep.congr (s := s) (by rw [hs₁]) (by rw [hs₁]; rfl)
    cases hsame with
    | kept history => exact .kept history
    | first start empty history => exact .first start empty history
    | next k last row lastRow follows history => exact .next k last row lastRow follows history
  -- data sets and payouts leave the history
  | addactusg source datasetId dataset start => exact .kept (addactusg_frame h).2.1
  | nextperiod =>
    obtain ⟨sources, rfl⟩ := nextperiod_spec h
    exact .kept rfl
  | claimdistrib account =>
    obtain ⟨u, sends, token, hr, -, rfl⟩ := commit_eq_ok.mp h
    obtain ⟨pay, -, rfl, -⟩ := claimdistrib_spec hr
    exact .kept rfl
  | claimrewards owner =>
    obtain ⟨u, sends, token, hr, -, rfl⟩ := commit_eq_ok.mp h
    obtain ⟨pay, balance, time, -, -, -, rfl, -⟩ := claimrewards_spec hr
    exact .kept rfl
  | system action =>
    simp only [step, bind_eq_ok, pure_eq_ok] at h
    obtain ⟨sys, -, rfl⟩ := h
    exact .kept rfl

/-! ## Histories -/

/-- The rows that calls add to an empty history, one after the other. -/
inductive IsHistory (draglimit : UInt32) : List (UsageHistory F) → Prop where
  | nil : IsHistory draglimit []
  | first (start : TimePointSec) : IsHistory draglimit [firstHistory start]
  | next {rows : List (UsageHistory F)} {last row : UsageHistory F}
      (before : IsHistory draglimit (rows ++ [last]))
      (follows : FollowsRows draglimit (rows ++ [last]) last row) :
      IsHistory draglimit (rows ++ [last] ++ [row])

/-- The rows are numbered from zero and follow one another. -/
structure RowsInv (draglimit : UInt32) (s : ResourceState F H) : Prop where
  limit : s.getConfig.emadraglimit = draglimit
  numbered : ∀ k last, s.history.last? = some (k, last) → s.history.values.length = k + 1
  rows : IsHistory draglimit s.history.values

omit [Checksum H] in
/-- There are no rows at the start. -/
theorem rowsInv_of_empty {s : ResourceState F H} (h : s.history.rows = []) :
    RowsInv s.getConfig.emadraglimit s := by
  refine ⟨rfl, ?_, ?_⟩
  · intro k last hlast
    rw [Table.last?_eq_none.mpr h] at hlast
    cases hlast
  · unfold Table.values
    rw [h]
    exact .nil

omit [Checksum H] [Double F] in
/-- The last row is the last one of the list. -/
theorem last_of_values {s : ResourceState F H} {k : Nat}
    {last : UsageHistory F} (hlast : s.history.last? = some (k, last)) :
    ∃ init, s.history.values = init ++ [last] := by
  obtain ⟨init, hinit⟩ := List.getLast?_eq_some_iff.mp hlast
  refine ⟨init.map Prod.snd, ?_⟩
  unfold Table.values
  rw [hinit, List.map_append]
  rfl

/-- Every call keeps each row in line with the rows before it. -/
theorem step_rowsInv {draglimit : UInt32} {s s' : ResourceState F H} {call : ResourceCall F H}
    (hI : RowsInv draglimit s) (h : s.step call = .ok s') : RowsInv draglimit s' := by
  have hlimit := (step_config h).1.trans hI.limit
  cases step_historyStep h with
  | kept history => exact ⟨hlimit, history ▸ hI.numbered, history ▸ hI.rows⟩
  | first start empty history =>
    -- the first row is alone
    have hone : s'.history = (∅ : Table Nat (UsageHistory F)).set 0 (firstHistory start) := by
      rw [history, Table.eq_empty_of_size (t := s.history) (by rw [Table.size, empty]; rfl)]
    refine ⟨hlimit, ?_, ?_⟩
    · intro k last hlast
      rw [hone] at hlast ⊢
      cases hlast
      rfl
    · rw [hone]
      exact .first start
  | next k last row lastRow follows history =>
    -- the new row comes after the last one
    have hlength := hI.numbered k last lastRow
    obtain ⟨-, hle⟩ := Table.last?_eq_some.mp lastRow
    have hvalues : s'.history.values = s.history.values ++ [row] := by
      rw [history]
      unfold Table.values
      rw [Table.rows_set_end _ row fun k' v' hk' => Nat.lt_succ_of_le (hle k' v' hk'),
        List.map_append]
      rfl
    refine ⟨hlimit, ?_, ?_⟩
    · intro k' last' hlast'
      rw [history, Table.last?_set_succ row lastRow, Option.some.injEq, Prod.mk.injEq] at hlast'
      rw [hvalues, List.length_append, hlength, ← hlast'.1]
      rfl
    · -- and its averages follow from the last row
      obtain ⟨init, hsplit⟩ := last_of_values lastRow
      have hrow := follows hlength
      rw [hI.limit, hsplit] at hrow
      have hrows := hI.rows
      rw [hsplit] at hrows
      rw [hvalues, hsplit]
      exact .next hrows hrow

/-! ## Means of the last usages -/

section

open MovingAverage

variable {K : Type} [Field K]

/-- The mean of the last usages; their number is stored in eight bits. -/
def recentMean (D : Nat) (u : Nat → K) (k : Nat) : K :=
  windowSum D u k / ((min k D % 256 : Nat) : K)

theorem recentMean_zero {D : Nat} (u : Nat → K) : recentMean D u 0 = 0 := by
  unfold recentMean
  rw [Nat.zero_min, Nat.zero_mod, Nat.cast_zero, div_zero]

/-- While there are few rows, the mean is over all of them. -/
theorem recentMean_of_lt {D k : Nat} {u : Nat → K} (hk : k < D) (hfew : k < 256)
    (hzero : u 0 = 0) : recentMean D u k = (∑ i ∈ Finset.Icc 1 k, u i) / k := by
  unfold recentMean
  rw [windowSum_of_lt hk hzero, min_eq_left hk.le, Nat.mod_eq_of_lt hfew]

/-- The means of the last usages are exponential averages themselves while they are used, and
    the number of samples fits in eight bits while it counts all of them. -/
structure MeansAreExponential (D n : Nat) (u : Nat → K) : Prop where
  counted : D ≤ 256 ∨ n ≤ 256
  step : D = 1 ∨ ∀ k, 1 ≤ k → k + 1 < n → D ≤ k →
    recentMean D u k = emaStep D (recentMean D u (k - 1)) (u k)

/-- With a limit of two, all usages but the last have to be the same. -/
theorem meansAreExponential_two [CharZero K] {n : Nat} {u : Nat → K} (hzero : u 0 = 0) :
    MeansAreExponential 2 n u ↔ ∀ k, 1 ≤ k → k + 1 < n → u k = u 1 := by
  -- the first mean is the first usage
  have hone : recentMean 2 u 1 = u 1 := by
    rw [recentMean_of_lt (by decide) (by decide) hzero, Finset.Icc_self, Finset.sum_singleton,
      Nat.cast_one, div_one]
  -- the later ones are means of two
  have hpair : ∀ k, 2 ≤ k → recentMean 2 u k = (u (k - 1) + u k) / 2 := by
    intro k hk
    unfold recentMean
    rw [windowSum_two (by omega), min_eq_right hk]
    norm_num
  -- equal usages have equal means
  have hconst : ∀ k, 1 ≤ k → (∀ j, 1 ≤ j → j ≤ k → u j = u 1) → recentMean 2 u k = u 1 := by
    intro k hk hsame
    by_cases hk1 : k = 1
    · rw [hk1, hone]
    · rw [hpair k (by omega), hsame (k - 1) (by omega) (by omega), hsame k hk (le_refl k)]
      ring
  -- the mean of two moves by a half, the exponential average by two thirds
  have hstep : ∀ a b : K, (a + b) / 2 = emaStep 2 a b ↔ b = a := by
    intro a b
    unfold emaStep
    constructor
    · intro h
      push_cast at h
      linear_combination -6 * h
    · intro h
      rw [h]
      ring
  constructor
  · intro hmeans k
    have hsteps := hmeans.step.resolve_left (by decide)
    -- each usage is the first one once those before it are
    induction k using Nat.strongRecOn with
    | ind k ih =>
      intro hk hkn
      by_cases hk1 : k = 1
      · rw [hk1]
      -- the usages before sample `k` are the same, so the mean is the first one
      have hbefore : ∀ j, 1 ≤ j → j ≤ k - 1 → u j = u 1 := by
        intro j hj hjk
        exact ih j (by omega) hj (by omega)
      have hmean := hsteps k hk hkn (by omega)
      rw [hpair k (by omega), hconst (k - 1) (by omega) hbefore,
        hbefore (k - 1) (by omega) (le_refl _)] at hmean
      exact (hstep (u 1) (u k)).mp hmean
  · -- conversely, equal usages keep both averages
    intro hsame
    refine ⟨.inl (by decide), .inr ?_⟩
    intro k hk hkn hDk
    rw [hconst k hk fun j hj hjk => hsame j hj (by omega),
      hconst (k - 1) (by omega) fun j hj hjk => hsame j hj (by omega), hsame k hk hkn]
    unfold emaStep
    ring

end

/-! ## Readings -/

section

open MovingAverage

variable {K : Type} [Field K] [LinearOrder K] [FloorRing K] (E : FieldReading F K)

/-- The value that a field has in row `k`. -/
def valueAt (rows : List (UsageHistory F)) (field : UsageHistory F → F) (k : Nat) : K :=
  rows[k]?.elim 0 fun row => E.val (field row)

variable {rows : List (UsageHistory F)} {field : UsageHistory F → F} {row : UsageHistory F} {k : Nat}

theorem valueAt_append_left (hk : k < rows.length) :
    valueAt E (rows ++ [row]) field k = valueAt E rows field k := by
  unfold valueAt
  rw [List.getElem?_append_left hk]

theorem valueAt_append_self (hk : k = rows.length) :
    valueAt E (rows ++ [row]) field k = E.val (field row) := by
  subst hk
  unfold valueAt
  rw [List.getElem?_concat_length]
  rfl

theorem val_foldl (l : List (UsageHistory F)) (x : F) :
    E.val (l.foldl (fun sum r => sum + field r) x) =
      E.val x + (l.map fun r => E.val (field r)).sum := by
  induction l generalizing x with
  | nil => simp
  | cons r l ih =>
    rw [List.foldl_cons, ih, E.val_add, List.map_cons, List.sum_cons, add_assoc]

/-- The sum of the last values of a list, as a sum over their places. -/
theorem sum_lastValues (rows : List (UsageHistory F)) (d : Nat) :
    ((rows.reverse.take d).map fun r => E.val (field r)).sum =
      ∑ i ∈ Finset.Ico (rows.length - d) rows.length, valueAt E rows field i := by
  -- the loop starts at the last row, and so does the induction
  induction rows using List.reverseRecOn generalizing d with
  | nil => simp
  | append_singleton rows row ih =>
    cases d with
    | zero => simp
    | succ d =>
      have hbelow : ∀ i ∈ Finset.Ico (rows.length - d) rows.length,
          valueAt E (rows ++ [row]) field i = valueAt E rows field i := by
        intro i hi
        exact valueAt_append_left E (Finset.mem_Ico.mp hi).2
      rw [List.reverse_append, List.reverse_singleton, List.singleton_append, List.take_succ_cons,
        List.map_cons, List.sum_cons, ih, List.length_append, List.length_singleton,
        Nat.add_sub_add_right, Finset.sum_Ico_succ_top (Nat.sub_le _ _), Finset.sum_congr rfl hbelow,
        valueAt_append_self E rfl, add_comm]

/-- What the code adds up are the usages of the last rows. -/
theorem val_recentSum (c : Channel F) (rows : List (UsageHistory F)) (draglimit : UInt32) :
    E.val (recentSum c rows draglimit) =
      ∑ i ∈ Finset.Ico (rows.length - (draglimit.toNat - 1)) rows.length,
        valueAt E rows c.use i := by
  unfold recentSum
  rw [val_foldl, E.val_zero, zero_add, sum_lastValues]

/-- The mean of a window that ends before a new row, with the usage of that row. -/
theorem windowSum_append (rows : List (UsageHistory F)) (row : UsageHistory F) (D : Nat) :
    windowSum D (valueAt E (rows ++ [row]) field) rows.length =
      (∑ i ∈ Finset.Ico (rows.length - (D - 1)) rows.length, valueAt E rows field i) +
        E.val (field row) := by
  unfold windowSum
  rw [Finset.sum_Ico_succ_top (Nat.sub_le _ _), valueAt_append_self E rfl]
  congr 1
  exact Finset.sum_congr rfl fun i hi => valueAt_append_left E (Finset.mem_Ico.mp hi).2

/-! ## The averages of a history -/

/-- The number of days is cast to 8 bits. -/
theorem samplePeriod_toNat (draglimit daycount : UInt32) :
    (samplePeriod draglimit daycount).toNat =
      min (daycount.toNat + 1) draglimit.toNat % 256 := by
  unfold samplePeriod
  split
  · rename_i hlt
    rw [min_eq_left (Nat.succ_le_of_lt hlt)]
    exact UInt8.toNat_ofNat'
  · rename_i hge
    rw [min_eq_right (by omega)]
    exact UInt8.toNat_ofNat'

/-- The limit is a small number when it is reached. -/
theorem val_calcEMA {draglimit : UInt32} (h : draglimit.toNat < 2 ^ 31) (average sample : F) :
    E.val (calcEMA average draglimit.toInt32 sample) =
      emaStep draglimit.toNat (E.val average) (E.val sample) := by
  have hlimit : draglimit.toInt32.toInt = draglimit.toNat := by
    show draglimit.toBitVec.toInt = _
    rw [BitVec.toInt_eq_toNat_cond]
    have hnat : draglimit.toBitVec.toNat = draglimit.toNat := rfl
    rw [hnat, if_pos (by omega)]
  unfold calcEMA emaStep
  rw [E.val_add, E.val_mul, E.val_sub, E.val_div, E.val_add, E.val_ofInt, E.val_ofInt, E.val_ofInt,
    hlimit, mul_div_assoc]
  push_cast
  rfl

/-- What the fields of a channel are in the reading. -/
structure ReadsAverages (c : Channel F) (D : Nat) (rows : List (UsageHistory F)) : Prop where
  days : ∀ k (row : UsageHistory F), rows[k]? = some row → row.daycount.toNat = k
  short : rows.length ≤ 1097
  zero : valueAt E rows c.use 0 = 0 ∧ valueAt E rows c.ma 0 = 0 ∧ valueAt E rows c.ema 0 = 0
  pos : ∀ k, 1 ≤ k → k < rows.length → 0 < valueAt E rows c.use k
  ma : ∀ k, 1 ≤ k → k < rows.length →
    valueAt E rows c.ma k = recentMean D (valueAt E rows c.use) k
  ema : ∀ k, 1 ≤ k → k < rows.length → valueAt E rows c.ema k =
    if D ≤ k then emaStep D (valueAt E rows c.ma (k - 1)) (valueAt E rows c.use k)
    else valueAt E rows c.ma k

theorem usageRatio_pos [IsStrictOrderedRing K] (used max : UInt64) :
    0 < E.val (usageRatio used max) := by
  have hleast : 0 < E.val leastUsage := by
    unfold leastUsage
    rw [E.val_ofDecimal]
    positivity
  simp only [usageRatio]
  split
  · exact hleast
  · rename_i hge
    rw [E.lt_iff, not_lt] at hge
    exact hleast.trans_le hge

/-- A mean is one of the rows up to its own. -/
theorem recentMean_append {D : Nat} (hk : k < rows.length) :
    recentMean D (valueAt E (rows ++ [row]) field) k = recentMean D (valueAt E rows field) k := by
  unfold recentMean windowSum
  congr 1
  refine Finset.sum_congr rfl fun i hi => valueAt_append_left E ?_
  have hle := (Finset.mem_Ico.mp hi).2
  omega

/-- A history of the code reads as averages of its usages. -/
theorem IsHistory.reads [IsStrictOrderedRing K] {c : Channel F} {draglimit : UInt32}
    (hc : c = cpuChannel ∨ c = netChannel) (h : IsHistory draglimit rows) :
    ReadsAverages E c draglimit.toNat rows := by
  induction h with
  -- without rows there is nothing to be read
  | nil =>
    refine ⟨?_, Nat.zero_le _, ⟨rfl, rfl, rfl⟩, ?_, ?_, ?_⟩
    · intro k row hk
      cases hk
    all_goals
      intro k hk hlt
      cases hlt
  -- the first row is zero everywhere
  | first start =>
    refine ⟨?_, by simp, ?_, ?_, ?_, ?_⟩
    · intro k row hk
      cases k with
      | zero =>
        cases hk
        rfl
      | succ k => cases hk
    · rcases hc with rfl | rfl
      · exact ⟨E.val_zero, E.val_zero, E.val_zero⟩
      · exact ⟨E.val_zero, E.val_zero, E.val_zero⟩
    all_goals
      intro k hk hlt
      rw [List.length_singleton] at hlt
      omega
  | @next rows last row before follows ih =>
    -- the new row is averaged from the one before
    have haveraged : Averaged c draglimit (rows ++ [last]) last row := by
      rcases hc with rfl | rfl
      · exact follows.cpu
      · exact follows.net
    have hlast : last.daycount.toNat = rows.length := by
      apply ih.days
      rw [List.getElem?_concat_length]
    have hlength : (rows ++ [last]).length = rows.length + 1 := by simp
    have hdays := follows.days
    have hlen : (rows ++ [last] ++ [row]).length = rows.length + 2 := by simp
    rw [hlast] at hdays
    -- a number below the new length is one of an old row or the one of the new row
    have hcases : ∀ {k}, k < (rows ++ [last] ++ [row]).length →
        k < (rows ++ [last]).length ∨ k = (rows ++ [last]).length := by
      intro k hk
      omega
    refine ⟨?_, by omega, ?_, ?_, ?_, ?_⟩
    · -- its number is the next one
      intro k r hk
      rcases hcases (List.getElem?_eq_some_iff.mp hk).1 with hlt | rfl
      · rw [List.getElem?_append_left hlt] at hk
        exact ih.days k r hk
      · rw [List.getElem?_concat_length, Option.some.injEq] at hk
        rw [← hk, follows.daycount, UInt32.toNat_add, hlast, hlength]
        show (rows.length + 1) % 2 ^ 32 = _
        omega
    · have hpos : 0 < (rows ++ [last]).length := by omega
      rw [valueAt_append_left E hpos, valueAt_append_left E hpos, valueAt_append_left E hpos]
      exact ih.zero
    · intro k hk hlt
      rcases hcases hlt with hlt | rfl
      · rw [valueAt_append_left E hlt]
        exact ih.pos k hk hlt
      · obtain ⟨used, max, huse⟩ := haveraged.use
        rw [valueAt_append_self E rfl, huse]
        exact usageRatio_pos E used max
    · intro k hk hlt
      rcases hcases hlt with hlt | rfl
      · rw [valueAt_append_left E hlt, recentMean_append E hlt]
        exact ih.ma k hk hlt
      · rw [valueAt_append_self E rfl, haveraged.ma]
        unfold recentMean calcMA
        rw [windowSum_append, E.val_div, E.val_add, val_recentSum, E.val_ofInt, samplePeriod_toNat,
          hlast, hlength, Int.cast_natCast]
    · intro k hk hlt
      rcases hcases hlt with hlt | rfl
      · rw [valueAt_append_left E hlt, valueAt_append_left E hlt, valueAt_append_left E hlt,
          valueAt_append_left E (lt_of_le_of_lt (Nat.sub_le k 1) hlt)]
        exact ih.ema k hk hlt
      · rw [valueAt_append_self E rfl, valueAt_append_self E rfl, valueAt_append_self E rfl,
          valueAt_append_left E (by omega), valueAt_append_self E (by omega), haveraged.ema]
        split
        · rename_i hreached
          exact val_calcEMA E (by omega) _ _
        · rfl

/-! ## When the averages are exponential -/

/-- The average is restarted from the mean. -/
theorem ReadsAverages.restarts {c : Channel F} {D : Nat} (h : ReadsAverages E c D rows) :
    Restarts D rows.length (valueAt E rows c.use) (recentMean D (valueAt E rows c.use))
      (valueAt E rows c.ema) := by
  have hma : ∀ k, k < rows.length →
      valueAt E rows c.ma k = recentMean D (valueAt E rows c.use) k := by
    intro k hk
    cases k with
    | zero => rw [recentMean_zero, h.zero.2.1]
    | succ k => exact h.ma (k + 1) (Nat.succ_pos k) hk
  refine ⟨?_, ?_, ?_⟩
  · rw [recentMean_zero, h.zero.2.2]
  · intro k hk hkn hkD
    rw [h.ema k hk hkn, if_neg (by omega), hma k hkn]
  · intro k hk hkn hDk
    rw [h.ema k hk hkn, if_pos hDk, hma (k - 1) (by omega)]

variable [IsStrictOrderedRing K]

/-- The first averages are the means of all usages as long as eight bits can count them. -/
theorem ReadsAverages.mean_iff {c : Channel F} {D : Nat} (h : ReadsAverages E c D rows) :
    (∀ k, 1 ≤ k → k < rows.length → k < D →
      valueAt E rows c.ema k = (∑ i ∈ Finset.Icc 1 k, valueAt E rows c.use i) / k) ↔
      D ≤ 256 ∨ rows.length ≤ 256 := by
  constructor
  · -- more than 255 samples in the window
    intro hmean
    by_contra hmany
    rw [not_or, not_le, not_le] at hmany
    -- row 256 is divided by zero
    have h256 := hmean 256 (by decide) hmany.2 hmany.1
    rw [h.restarts.start 256 (by decide) hmany.2 hmany.1] at h256
    have hzero : recentMean D (valueAt E rows c.use) 256 = 0 := by
      unfold recentMean
      rw [min_eq_left hmany.1.le, Nat.mod_self, Nat.cast_zero, div_zero]
    rw [hzero] at h256
    -- but the samples are positive
    have hsum : 0 < ∑ i ∈ Finset.Icc 1 256, valueAt E rows c.use i := by
      apply Finset.sum_pos
      · intro i hi
        have hi := Finset.mem_Icc.mp hi
        exact h.pos i hi.1 (by omega)
      · exact ⟨1, Finset.mem_Icc.mpr ⟨le_refl 1, by decide⟩⟩
    have hpos : (0 : K) < (∑ i ∈ Finset.Icc 1 256, valueAt E rows c.use i) / (256 : Nat) :=
      div_pos hsum (by norm_num)
    exact absurd h256 hpos.ne
  · -- the counter of the code does not wrap
    intro hfew k hk hkn hkD
    rw [h.restarts.start k hk hkn hkD, recentMean_of_lt hkD (by omega) h.zero.1]

/-- The average is the exponential one exactly if the means are. -/
theorem ReadsAverages.isExponential_iff {c : Channel F} {D : Nat}
    (h : ReadsAverages E c D rows) :
    IsExponential D rows.length (valueAt E rows c.use) (valueAt E rows c.ema) ↔
      MeansAreExponential D rows.length (valueAt E rows c.use) := by
  constructor
  · intro hexp
    exact ⟨h.mean_iff.mp hexp.mean, h.restarts.step_iff.mp hexp.step⟩
  · intro hmeans
    exact ⟨h.mean_iff.mpr hmeans.counted, h.restarts.step_iff.mpr hmeans.step⟩

/-! ## Runs -/

/-- In every run from an empty history, the averages of CPU and NET are exponential averages of
    all usages exactly if the means of the last usages are. -/
theorem usage_average {s : ResourceState F H} (hempty : s.history.rows = [])
    (calls : List (ResourceCall F H)) :
    let D := s.getConfig.emadraglimit.toNat
    let rows := (Run.exec step s calls).history.values
    IsExponential D rows.length (valueAt E rows UsageHistory.useCpu)
        (valueAt E rows UsageHistory.emaCpu) ∧
      IsExponential D rows.length (valueAt E rows UsageHistory.useNet)
        (valueAt E rows UsageHistory.emaNet) ↔
    MeansAreExponential D rows.length (valueAt E rows UsageHistory.useCpu) ∧
      MeansAreExponential D rows.length (valueAt E rows UsageHistory.useNet) := by
  intro D rows
  have hrows : IsHistory s.getConfig.emadraglimit rows :=
    (Run.exec_induction (fun _ _ _ hI h => step_rowsInv hI h) (rowsInv_of_empty hempty) calls).rows
  have hcpu := hrows.reads E (.inl rfl)
  have hnet := hrows.reads E (.inr rfl)
  exact and_congr hcpu.isExponential_iff hnet.isExponential_iff

end

namespace Sample

open SystemState.Sample MovingAverage

/-- Alice alone reports the totals of a day, and anyone closes it. -/
def reportedDay (day : UInt32) (cpu : UInt64) : List (ResourceCall Rat (List Char)) :=
  [call SystemState.Sample.alice (.settotalusg SystemState.Sample.alice cpu 2000
      "commitment".toList (1600000000 + 86400 * day)),
    ⟨ctx [] (1600086400 + 86400 * day.toInt32.toInt64), .nextperiod⟩]

/-- The rows of the history after two days. -/
def twoDays : List (UsageHistory Rat) :=
  (Run.exec step start (setup 0 ++ reportedDay 0 1000000 ++ reportedDay 1 2000000)).history.values

/-- The rows after the third day. -/
def threeDays : List (UsageHistory Rat) :=
  (Run.exec step start (setup 0 ++ reportedDay 0 1000000 ++ reportedDay 1 2000000 ++
    reportedDay 2 1000000)).history.values

end Sample

open Sample MovingAverage in
/-- For two days the averages agree. -/
theorem usage_average_sample :
    IsExponential 2 3 (valueAt FieldReading.rational twoDays UsageHistory.useCpu)
      (valueAt FieldReading.rational twoDays UsageHistory.emaCpu) := by
  have hlength : twoDays.length = 3 := by decide +kernel
  have hmeans : ∀ u : Nat → Rat, MeansAreExponential 2 twoDays.length u := by
    intro u
    rw [hlength]
    refine ⟨.inl (by decide), .inr ?_⟩
    intro k hk hkn hDk
    omega
  have h := (usage_average FieldReading.rational (s := start) rfl
    (setup 0 ++ reportedDay 0 1000000 ++ reportedDay 1 2000000)).mpr ⟨hmeans _, hmeans _⟩
  rw [← hlength]
  exact h.1

open Sample MovingAverage in
/-- On the third day they do not. -/
theorem usage_average_forgets :
    ¬ IsExponential 2 threeDays.length (valueAt FieldReading.rational threeDays UsageHistory.useCpu)
      (valueAt FieldReading.rational threeDays UsageHistory.emaCpu) := by
  intro h
  have hthird := h.step 3 (by decide) (by decide +kernel) (by decide)
  revert hthird
  decide +kernel

end ResourceState

end UxContracts
