import UxContracts.Spec.UtilityPool

/-!
# Paying entries in any order

Each entry of a data set is paid the truncated part of the tokens that its CPU is of the
total. `Paid` says what this leaves in the table of the accounts and nothing about the
order in which the entries have been paid. Payments compose (`Paid.append`), the entries
count up to their order only (`Paid.perm`), and they determine the table (`Paid.unique`).
-/

namespace UxContracts

/-- An addition of an amount in range is exact, whatever it is added to. -/
theorem Asset.add_exact {a b c : Asset} (h : a.add b = .ok c) (hb : b.InRange) :
    b.symbol = a.symbol ∧ c.symbol = a.symbol ∧
      c.amount.toInt = a.amount.toInt + b.amount.toInt := by
  obtain ⟨hs, hlo, hhi, rfl⟩ := Asset.add_eq_ok.mp h
  have ha := a.amount.le_toInt
  have ha' := a.amount.toInt_lt
  refine ⟨hs, rfl, ?_⟩
  have hcases := Int64.toInt_add_cases a.amount b.amount
  unfold InRange at hb
  simp only
  omega

namespace ResourceState

variable {F : Type}

/-! ## Shares -/

/-- The tokens of one entry. -/
def share (total : UInt64) (tokens : Int) (m : Metric) : Int :=
  (m.u.toNat * tokens).tdiv total.toNat

/-- The tokens of an account for all its entries. -/
def sharesOf (total : UInt64) (tokens : Int) (entries : List Metric) (a : Name) : Int :=
  ((entries.filter fun m => m.a = a).map (share total tokens)).sum

variable {total : UInt64} {tokens : Int} {entries entries' : List Metric} {a : Name}

/-- The shares of two lists of entries add up. -/
theorem sharesOf_append : sharesOf total tokens (entries ++ entries') a =
    sharesOf total tokens entries a + sharesOf total tokens entries' a := by
  unfold sharesOf
  rw [List.filter_append, List.map_append, List.sum_append]

/-- An account without an entry gets nothing. -/
theorem sharesOf_of_notMem (h : a ∉ entries.map Metric.a) : sharesOf total tokens entries a = 0 := by
  have hnil : (entries.filter fun m => m.a = a) = [] := by
    rw [List.filter_eq_nil_iff]
    intro m hm hma
    exact h (List.mem_map.mpr ⟨m, hm, of_decide_eq_true hma⟩)
  unfold sharesOf
  rw [hnil]
  rfl

/-- The order of the entries does not matter. -/
theorem sharesOf_perm (h : entries.Perm entries') :
    sharesOf total tokens entries a = sharesOf total tokens entries' a :=
  ((h.filter _).map _).sum_eq

/-! ## Payments -/

/-- The entries have been paid: the accounts that they name have their tokens in addition to
    what they could claim before, and the rows of the others are as they were. -/
def Paid (total : UInt64) (tokens : Int) (sym : Symbol) (start : TimePointSec)
    (entries : List Metric) (t t' : Table Name AccountPay) : Prop :=
  ∀ a, if a ∈ entries.map Metric.a then
      ∃ amount : Int64, t'.find? a = some ⟨⟨amount, sym⟩, start⟩ ∧
        amount.toInt = t.valueAt a AccountPay.amount + sharesOf total tokens entries a
    else t'.find? a = t.find? a

namespace Paid

variable {sym : Symbol} {start : TimePointSec} {t t' t'' : Table Name AccountPay}

theorem nil (t : Table Name AccountPay) : Paid total tokens sym start [] t t := by
  intro a
  exact rfl

/-- What an account can claim then. -/
theorem valueAt (h : Paid total tokens sym start entries t t') (a : Name) :
    t'.valueAt a AccountPay.amount =
      t.valueAt a AccountPay.amount + sharesOf total tokens entries a := by
  have ha := h a
  split at ha
  · obtain ⟨amount, hrow, heq⟩ := ha
    rw [Table.valueAt_some hrow]
    exact heq
  · rename_i hnot
    rw [sharesOf_of_notMem hnot, add_zero]
    unfold Table.valueAt
    rw [ha]

/-- One payment after the other. -/
theorem append (h : Paid total tokens sym start entries t t')
    (h' : Paid total tokens sym start entries' t' t'') :
    Paid total tokens sym start (entries ++ entries') t t'' := by
  intro a
  have hvalue := h.valueAt a
  have ha := h a
  have ha' := h' a
  rw [List.map_append, sharesOf_append]
  by_cases hlater : a ∈ entries'.map Metric.a
  · rw [if_pos hlater] at ha'
    rw [if_pos (List.mem_append_right _ hlater)]
    obtain ⟨amount, hrow, heq⟩ := ha'
    exact ⟨amount, hrow, by omega⟩
  · rw [if_neg hlater] at ha'
    rw [sharesOf_of_notMem hlater, add_zero, ha']
    by_cases hfirst : a ∈ entries.map Metric.a
    · rw [if_pos (List.mem_append_left _ hfirst)]
      rw [if_pos hfirst] at ha
      exact ha
    · rw [if_neg fun hmem => (List.mem_append.mp hmem).elim hfirst hlater]
      rw [if_neg hfirst] at ha
      exact ha

/-- The order of the entries does not matter. -/
theorem perm (hperm : entries.Perm entries') (h : Paid total tokens sym start entries t t') :
    Paid total tokens sym start entries' t t' := by
  intro a
  have ha := h a
  rw [sharesOf_perm hperm] at ha
  by_cases hmem : a ∈ entries.map Metric.a
  · rw [if_pos hmem] at ha
    rw [if_pos ((hperm.map _).mem_iff.mp hmem)]
    exact ha
  · rw [if_neg hmem] at ha
    rw [if_neg fun hmem' => hmem ((hperm.map _).mem_iff.mpr hmem')]
    exact ha

/-- Paying the same entries leads to the same table. -/
theorem unique (h : Paid total tokens sym start entries t t')
    (h' : Paid total tokens sym start entries t t'') : t' = t'' := by
  refine Table.ext_find? fun a => ?_
  have ha := h a
  have ha' := h' a
  by_cases hmem : a ∈ entries.map Metric.a
  · rw [if_pos hmem] at ha ha'
    obtain ⟨amount, hrow, heq⟩ := ha
    obtain ⟨amount', hrow', heq'⟩ := ha'
    have hsame : amount = amount' := Int64.toInt_inj.mp (heq.trans heq'.symm)
    rw [hrow, hrow', hsame]
  · rw [if_neg hmem] at ha ha'
    rw [ha, ha']

end Paid

variable [Double F] {t t' : Table Name AccountPay}

/-- Paying a data set pays its entries. -/
theorem payAccounts_paid (hexact : Double.ExactShares F) {pool : Int64} {sym : Symbol}
    {start : TimePointSec} {data : List Metric} (htotal : data ≠ [] → 0 < total.toNat)
    (h : payAccounts (F := F) total pool sym start t data = .ok t') :
    Paid total pool.toInt sym start data t t' := by
  induction data generalizing t with
  | nil =>
    cases h
    exact .nil _
  | cons m data ih =>
    -- an entry needs a positive total to have a share
    have hpos := htotal (List.cons_ne_nil m data)
    simp only [payAccounts, bind_eq_ok] at h
    obtain ⟨claim, hclaim, payout, hpayout, h⟩ := h
    obtain ⟨hpamt, hpsym, hpr⟩ := Asset.make_spec hpayout
    have htrunc := Double.toInt64_eq_ok hclaim
    rw [hexact _ _ _ (by exact_mod_cast hpos), Option.some.injEq, ← hpamt] at htrunc
    -- the payout is the truncated share
    have hshare : sharesOf total pool.toInt [m] m.a = payout.amount.toInt := by
      simp [sharesOf, share, htrunc]
    -- a balance is determined by its amount and its symbol
    have hasset : ∀ {asset : Asset} {amount : Int64}, asset.amount = amount →
        asset.symbol = sym → (⟨amount, sym⟩ : Asset) = asset := by
      rintro asset _ rfl rfl
      rfl
    -- the first entry is paid, whether its account had a row before or not
    obtain ⟨amount, hamt, h⟩ : ∃ amount : Int64,
        amount.toInt = t.valueAt m.a AccountPay.amount + payout.amount.toInt ∧
        payAccounts (F := F) total pool sym start (t.set m.a ⟨⟨amount, sym⟩, start⟩) data =
          .ok t' := by
      cases hfind : t.find? m.a with
      | none =>
        simp only [hfind] at h
        refine ⟨payout.amount, ?_, ?_⟩
        · -- the balance starts with this payout
          rw [Table.valueAt_none hfind, zero_add]
        · rw [hasset rfl hpsym]
          exact h
      | some old =>
        simp only [hfind, bind_eq_ok] at h
        obtain ⟨balance, hadd, h⟩ := h
        obtain ⟨hsame, hbsym, hbeq⟩ := Asset.add_exact hadd hpr
        refine ⟨balance.amount, ?_, ?_⟩
        · -- the payout is added to the balance
          rw [Table.valueAt_some hfind]
          exact hbeq
        · rw [hasset rfl (hbsym.trans (hsame.symm.trans hpsym))]
          exact h
    -- what one entry does to the table
    have hfirst : Paid total pool.toInt sym start [m] t (t.set m.a ⟨⟨amount, sym⟩, start⟩) := by
      intro a
      by_cases ha : a = m.a
      · rw [if_pos (by rw [ha]; exact List.mem_cons_self), ha]
        exact ⟨amount, Table.find?_set_self _ _ _, by rw [hamt, hshare]⟩
      · rw [if_neg (by simpa using ha), Table.find?_set_ne _ _ ha]
    exact hfirst.append (ih (fun _ => hpos) h)

end ResourceState

end UxContracts
