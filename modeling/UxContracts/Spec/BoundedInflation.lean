import UxContracts.Spec.HistoryChange

/-!
# Bounded inflation

The history is a table of numbered rows: row `k` is the one of day `k`, and row zero is
made by the first `initresource`. Each issuance adds one row, and none is made from day
1096 on, so there are at most 1096 of them. `IssueRecord` is what one issuance has done
to the token tables; `bounded_inflation` bounds it for every run.
-/

namespace UxContracts

namespace ResourceState

variable {F H : Type} [Checksum H] [Double F]

/-! ## One issuance -/

/-- What one issuance has done: the amounts of its row, and by how much the supply and the
    two balances have grown. -/
structure IssueRecord where
  bppayTokens : Int
  utilityTokens : Int
  supply : Int
  bpay : Int
  upay : Int

/-- The issuance between two states that has added `row` to the history. -/
def IssueRecord.between (s s' : ResourceState F H) (row : UsageHistory F) : IssueRecord where
  bppayTokens := row.bppayTokens.amount.toInt
  utilityTokens := row.utilityTokens.amount.toInt
  supply := s'.coreSupply - s.coreSupply
  bpay := s'.coreBalance bpayAccount - s.coreBalance bpayAccount
  upay := s'.coreBalance upayAccount - s.coreBalance upayAccount

/-- Add the issuance of a call to the record. -/
def recordIssue (issued : List IssueRecord) (s : ResourceState F H) (call : ResourceCall F H)
    (s' : ResourceState F H) : List IssueRecord :=
  match issues s call s', s'.history.last? with
  | true, some (_, row) => issued ++ [.between s s' row]
  | _, _ => issued

/-- At most one and a half million tokens are issued, and if the amounts of the row are not
    negative, then they are the tokens that are issued and handed on. -/
structure IssueRecord.Bounded (i : IssueRecord) : Prop where
  capped : i.supply ≤ 15000000000
  handedOn : 0 ≤ i.bppayTokens → 0 ≤ i.utilityTokens →
    i.supply = i.bpay + i.upay ∧ i.bpay = i.bppayTokens ∧ i.upay = i.utilityTokens

omit [Checksum H] in
/-- An issuance keeps within its bounds. -/
theorem Issuance.bounded {s s' : ResourceState F H} {ctx : Context} {cpu net : UInt64}
    {sends : List InlineAction} {k : Nat} {last row : UsageHistory F} {sym : Symbol}
    {inflation : Asset} (h : Issuance s.sys s.history s'.history s.prodpay s'.prodpay cpu net sends k
      last row sym inflation) (hI : s.sys.token.Inv)
    (hrun : SystemState.runInline ctx s.sys.token sends = .ok s'.sys.token)
    (hsys : s'.sys = { s.sys with token := s'.sys.token }) :
    (IssueRecord.between s s' row).Bounded := by
  have hsym : s.sys.coreSym = sym := (SystemState.coreSym_of_ok h.coreSymbol).symm
  -- the symbol is the core symbol before and after
  have hsym' : s'.sys.coreSym = sym := by
    rw [hsys]
    exact hsym
  rw [h.sends_eq] at hrun
  -- what the inline actions move
  obtain ⟨hsupply, hbpay, hupay⟩ := SystemState.inflationSends_effect hI h.inflation_symbol
    h.tokens.bppay_symbol h.tokens.utility_symbol hrun
  have htotal := h.inflation_total
  have hcap := h.capped
  unfold UsageHistory.total at htotal
  -- so the record has the amounts of the row
  have heq : IssueRecord.between s s' row = ⟨row.bppayTokens.amount.toInt,
      row.utilityTokens.amount.toInt, max inflation.amount.toInt 0,
      max row.bppayTokens.amount.toInt 0, max row.utilityTokens.amount.toInt 0⟩ := by
    unfold IssueRecord.between coreSupply coreBalance
    rw [hsym, hsym', hsupply, hbpay, hupay]
    simp only [add_sub_cancel_left]
  rw [heq]
  constructor
  · show max inflation.amount.toInt 0 ≤ 15000000000
    omega
  · -- the pay and the pool together are what has been issued
    intro hb hu
    simp only at hb hu ⊢
    omega

/-! ## Runs -/

/-- The invariant of the history, next to the record of the issuances. -/
structure HistoryInv (s : ResourceState F H) (issued : List IssueRecord) : Prop where
  core : s.sys.CoreToken
  /-- there is one row more than issuances, once there is one at all -/
  rows : s.history = ∅ ∧ issued = [] ∨ s.history.IsSeq (issued.length + 1)
  days : ∀ k row, s.history.find? k = some row → row.daycount.toNat = k
  count : issued.length ≤ 1096
  bounded : ∀ i ∈ issued, i.Bounded

omit [Checksum H] in
theorem genesis_historyInv (maxBlockNetUsage : UInt64) (maxBlockCpuUsage : UInt32) :
    HistoryInv (genesis maxBlockNetUsage maxBlockCpuUsage : ResourceState F H) [] where
  core := SystemState.genesis_coreToken _ _
  rows := .inl ⟨rfl, rfl⟩
  days := fun k row hk => by
    show row.daycount.toNat = k
    rw [show (genesis maxBlockNetUsage maxBlockCpuUsage : ResourceState F H).history = ∅ from rfl,
      Table.find?_empty] at hk
    cases hk
  count := Nat.zero_le _
  bounded := fun _ hi => nomatch hi

/-- A call adds a row to the history exactly if it issues. -/
theorem step_historyInv {s s' : ResourceState F H} {issued : List IssueRecord}
    {call : ResourceCall F H} (hI : HistoryInv s issued) (h : s.step call = .ok s') :
    HistoryInv s' (recordIssue issued s call s') := by
  have hcore := step_coreToken hI.core h
  cases step_history hI.core.token h with
  -- without an issuance, rows and record stay as they are
  | kept hhist hpay hnone hclaim =>
    have hrec : recordIssue issued s call s' = issued := by
      unfold recordIssue
      rw [hnone]
    rw [hrec]
    exact ⟨hcore, hhist ▸ hI.rows, hhist ▸ hI.days, hI.count, hI.bounded⟩
  | claimed owner pay balance time haction hhist hnone hfind hpos hsub hpay hrun hsys =>
    -- a claim writes no row of the history either
    have hrec : recordIssue issued s call s' = issued := by
      unfold recordIssue
      rw [hnone]
    rw [hrec]
    exact ⟨hcore, hhist ▸ hI.rows, hhist ▸ hI.days, hI.count, hI.bounded⟩
  -- the first row has the number zero, and nothing has been issued
  | first start hempty hhist hpay hsys hnone hclaim =>
    have hrec : recordIssue issued s call s' = issued := by
      unfold recordIssue
      rw [hnone]
    have hissued : issued = [] := by
      cases hI.rows with
      | inl hnil => exact hnil.2
      | inr hseq =>
        have hzero := (hseq 0).mpr (Nat.succ_pos _)
        rw [hempty, Table.find?_empty] at hzero
        cases hzero
    rw [hrec, hissued]
    rw [hempty] at hhist
    refine ⟨hcore, .inr ?_, fun k row hk => ?_, Nat.zero_le _, fun _ hi => nomatch hi⟩
    · rw [hhist]
      exact Table.isSeq_empty.set_end _
    · -- the only row is the first one
      rw [hhist, Table.find?_set, Table.find?_empty] at hk
      split at hk
      · rename_i hk0
        cases hk
        rw [hk0]
        rfl
      · cases hk
  | issued cpu net sends k last row sym inflation hiss hrun hsys hone hclaim =>
    -- the issuance is the one between the two last rows
    have hrec : recordIssue issued s call s' = issued ++ [.between s s' row] := by
      unfold recordIssue
      rw [hone, hiss.history_eq, Table.last?_set_succ row hiss.lastRow]
    have hlast := (Table.last?_eq_some.mp hiss.lastRow).1
    -- the last row is the one of the last issuance
    have hseq : s.history.IsSeq (issued.length + 1) := by
      cases hI.rows with
      | inl hnil =>
        rw [hnil.1, Table.find?_empty] at hlast
        cases hlast
      | inr hseq => exact hseq
    -- so the number of the last row counts the issuances
    have hk : k = issued.length := by
      obtain ⟨v, -, hv⟩ := hseq.last?_succ
      rw [hiss.lastRow, Option.some.injEq, Prod.mk.injEq] at hv
      exact hv.1
    have hday : last.daycount.toNat = issued.length := (hI.days k last hlast).trans hk
    have hdays := hiss.days
    rw [hrec]
    refine ⟨hcore, .inr ?_, fun j r hj => ?_, ?_, fun i hi => ?_⟩
    · -- the rows stay in sequence
      rw [hiss.history_eq, hk, List.length_append]
      exact hseq.set_end row
    · -- the number of the new row is its day
      rw [hiss.history_eq, Table.find?_set] at hj
      split at hj
      · rename_i hjk
        cases hj
        rw [hiss.daycount, UInt32.toNat_add, hday, hjk, hk]
        show (issued.length + 1) % 2 ^ 32 = _
        omega
      · exact hI.days j r hj
    · -- there is one more issuance and one more row
      rw [List.length_append, List.length_singleton]
      omega
    · -- and it is bounded like the ones before
      rcases List.mem_append.mp hi with hi | hi
      · exact hI.bounded i hi
      · rw [List.mem_singleton.mp hi]
        exact hiss.bounded hI.core.token hrun hsys

/-- In every run, the rows of the history are the issues on record. -/
theorem exec_historyInv (maxBlockNetUsage : UInt64) (maxBlockCpuUsage : UInt32)
    (calls : List (ResourceCall F H)) :
    let p := Run.exec (Run.observed step recordIssue)
      (genesis maxBlockNetUsage maxBlockCpuUsage, []) calls
    HistoryInv p.1 p.2 := by
  have hstep : ∀ (p : ResourceState F H × List IssueRecord) call q, HistoryInv p.1 p.2 →
      Run.observed step recordIssue p call = .ok q → HistoryInv q.1 q.2 := by
    intro p call q hI h
    obtain ⟨hstep, hrec⟩ := Run.observed_eq_ok h
    rw [hrec]
    exact step_historyInv hI hstep
  exact Run.exec_induction hstep (genesis_historyInv _ _) calls

/-- In every run, the rows of the history are numbered from zero by the days, inflation is
    issued at most 1096 times, each time at most one and a half million tokens, which end up
    at `eosio.bpay` and `eosio.upay`, and the core supply is at most its maximum. -/
theorem bounded_inflation (maxBlockNetUsage : UInt64) (maxBlockCpuUsage : UInt32)
    (calls : List (ResourceCall F H)) :
    let p := Run.exec (Run.observed step recordIssue)
      (genesis maxBlockNetUsage maxBlockCpuUsage, []) calls
    (∃ n, p.1.history.IsSeq n) ∧
    (∀ k row, p.1.history.find? k = some row → row.daycount.toNat = k) ∧
    p.2.length ≤ 1096 ∧ (∀ i ∈ p.2, i.Bounded) ∧
    ∀ st, p.1.sys.token.stat.find? p.1.sys.coreSym.code = some st →
      st.supply.amount.toInt ≤ st.maxSupply.amount.toInt := by
  intro p
  have hI : HistoryInv p.1 p.2 := exec_historyInv maxBlockNetUsage maxBlockCpuUsage calls
  refine ⟨?_, hI.days, hI.count, hI.bounded, fun st hst => ?_⟩
  · cases hI.rows with
    | inl hnil =>
      rw [hnil.1]
      exact ⟨0, Table.isSeq_empty⟩
    | inr hseq => exact ⟨_, hseq⟩
  · exact (hI.core.token.supplyBounds _ st hst).2.1

end ResourceState

end UxContracts
