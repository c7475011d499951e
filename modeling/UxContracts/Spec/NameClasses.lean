import Mathlib.Algebra.Order.Group.Nat
import Mathlib.Data.Nat.Prime.Basic
import UxContracts.Spec.ClosedNames

/-!
# Names to bid on

`newaccount` looks for a dot among the first twelve characters and compares the name with its
suffix, and `bidname` tests the last two characters and the suffix. Both pick out the same names
(`premium_iff`): a name is its own suffix only if its dots are all at its end
(`Name.suffix_eq_self_iff`).
-/

namespace UxContracts

namespace Name

/-! ## Characters -/

/-- A character of the name, from left to right; the last one has four bits. -/
def charAt (n : Name) (i : Nat) : UInt64 :=
  if i < 12 then (n.value >>> (59 - 5 * i).toUInt64) &&& 0x1F else n.value &&& 0x0F

/-- There is a dot that a character follows. -/
def ActualDot (n : Name) : Prop :=
  ∃ i j, i < j ∧ j ≤ 12 ∧ n.charAt i = 0 ∧ n.charAt j ≠ 0

/-- The positions of `lastDot` after some characters. -/
def dotsBefore (n : Name) (k : Nat) : Nat × Nat :=
  (List.range k).foldl (fun (p : Nat × Nat) i =>
    let remaining := 59 - 5 * i
    if (n.value >>> remaining.toUInt64) &&& 0x1F = 0 then (remaining, p.2) else (p.1, p.1)) (0, 0)

/-- One more character moves the first dot of a run or leaves it. -/
theorem dotsBefore_succ {n : Name} {k : Nat} (hk : k < 12) :
    n.dotsBefore (k + 1) = if n.charAt k = 0 then (59 - 5 * k, (n.dotsBefore k).2)
      else ((n.dotsBefore k).1, (n.dotsBefore k).1) := by
  unfold dotsBefore charAt
  rw [List.range_succ, List.foldl_append, if_pos hk]
  rfl

/-- What the two positions say of the first characters. -/
structure DotsFound (n : Name) (k : Nat) (p : Nat × Nat) : Prop where
  seen : p.1 ≠ 0 ↔ ∃ i < k, n.charAt i = 0
  last : p.2 ≠ 0 ↔ ∃ i j, i < j ∧ j < k ∧ n.charAt i = 0 ∧ n.charAt j ≠ 0
  seenRange : p.1 ≠ 0 → 4 ≤ p.1 ∧ p.1 ≤ 59
  lastRange : p.2 ≠ 0 → 4 ≤ p.2 ∧ p.2 ≤ 59

/-- What the scan has found after each character. -/
theorem dotsFound (n : Name) {k : Nat} (hk : k ≤ 12) : DotsFound n k (n.dotsBefore k) := by
  -- induction on the number of characters that have been read
  induction k with
  | zero =>
    -- no character has been read
    refine ⟨?_, ?_, ?_, ?_⟩
    · simp [dotsBefore]
    · simp [dotsBefore]
    · intro h
      exact absurd rfl h
    · intro h
      exact absurd rfl h
  | succ k ih =>
    have ih := ih (by omega)
    rw [dotsBefore_succ hk]
    split
    · -- a dot: nothing follows it yet
      rename_i hdot
      refine ⟨?_, ?_, ?_, ih.lastRange⟩
      · -- the place of a dot has been seen
        constructor
        · intro _
          exact ⟨k, Nat.lt_succ_self k, hdot⟩
        · intro _
          show 59 - 5 * k ≠ 0
          omega
      · -- a dot does not count as a character that follows one
        rw [ih.last]
        constructor
        · rintro ⟨i, j, hij, hj, hi, hne⟩
          exact ⟨i, j, hij, by omega, hi, hne⟩
        · rintro ⟨i, j, hij, hj, hi, hne⟩
          have hjk : j ≠ k := by
            rintro rfl
            exact hne hdot
          exact ⟨i, j, hij, by omega, hi, hne⟩
      · intro _
        show 4 ≤ 59 - 5 * k ∧ 59 - 5 * k ≤ 59
        omega
    · -- no dot: it follows all that have been seen
      rename_i hchar
      refine ⟨?_, ?_, ih.seenRange, ih.seenRange⟩
      · -- no dot is new
        rw [ih.seen]
        constructor
        · rintro ⟨i, hi, hdot⟩
          exact ⟨i, by omega, hdot⟩
        · rintro ⟨i, hi, hdot⟩
          have hik : i ≠ k := by
            rintro rfl
            exact hchar hdot
          exact ⟨i, by omega, hdot⟩
      · -- and this character follows each dot
        rw [ih.seen]
        constructor
        · rintro ⟨i, hi, hdot⟩
          exact ⟨i, k, hi, Nat.lt_succ_self k, hdot, hchar⟩
        · rintro ⟨i, j, hij, hj, hdot, -⟩
          exact ⟨i, by omega, hdot⟩

/-- `lastDot` finds a dot that a character follows, if there is one. -/
theorem lastDot_spec (n : Name) :
    (n.lastDot ≠ 0 ↔ n.ActualDot) ∧ (n.lastDot ≠ 0 → 4 ≤ n.lastDot ∧ n.lastDot ≤ 59) := by
  have hfound := n.dotsFound (le_refl 12)
  have hlast : n.lastDot =
      if n.charAt 12 ≠ 0 then (n.dotsBefore 12).1 else (n.dotsBefore 12).2 := rfl
  rw [hlast]
  -- the thirteenth character has only four bits, and the loop does not come to it
  split
  · -- the last character is no dot, so it follows every dot
    rename_i hchar
    refine ⟨?_, hfound.seenRange⟩
    rw [hfound.seen]
    constructor
    · rintro ⟨i, hi, hdot⟩
      exact ⟨i, 12, hi, le_refl 12, hdot, hchar⟩
    · rintro ⟨i, j, hij, hj, hdot, -⟩
      exact ⟨i, by omega, hdot⟩
  · -- the last character is a dot
    rename_i hchar
    rw [not_not] at hchar
    refine ⟨?_, hfound.lastRange⟩
    rw [hfound.last]
    constructor
    · rintro ⟨i, j, hij, hj, hdot, hne⟩
      exact ⟨i, j, hij, hj.le, hdot, hne⟩
    · rintro ⟨i, j, hij, hj, hdot, hne⟩
      have hj12 : j ≠ 12 := by
        rintro rfl
        exact hne hchar
      exact ⟨i, j, hij, by omega, hdot, hne⟩

/-! ## Suffixes -/

/-- The mask of the bits from the fourth one up to a position. -/
theorem and_mask {v L : Nat} (hL : 4 ≤ L) (hlow : v % 16 = 0) : v &&& (2 ^ L - 16) = v % 2 ^ L := by
  have hmask : 2 ^ L - 16 = (2 ^ (L - 4) - 1) <<< 4 := by
    rw [Nat.shiftLeft_eq, Nat.sub_mul, ← pow_add, Nat.sub_add_cancel hL, one_mul]
  apply Nat.eq_of_testBit_eq
  intro i
  rw [Nat.testBit_and, hmask, Nat.testBit_shiftLeft, Nat.testBit_two_pow_sub_one,
    Nat.testBit_mod_two_pow]
  -- the mask has ones from bit four on, and below it `v` has none
  by_cases hi : 4 ≤ i
  · have hiff : i - 4 < L - 4 ↔ i < L := by omega
    simp [hi, hiff, Bool.and_comm]
  · have hbit : v.testBit i = false := by
      have hmod := Nat.testBit_mod_two_pow v 4 i
      rw [show (2 : Nat) ^ 4 = 16 from rfl, hlow, Nat.zero_testBit] at hmod
      simpa [show i < 4 by omega] using hmod.symm
    simp [hbit]

/-- A number that is its own lower part, moved up, is zero. -/
theorem eq_zero_of_shift {v L k : Nat} (hk : 0 < k) (h : v = v % 2 ^ L * 2 ^ k) : v = 0 := by
  -- `v % 2 ^ L * (2 ^ k - 1)` is a multiple of `2 ^ L`, and the second factor is odd
  have hodd : Nat.Coprime (2 ^ L) (2 ^ k - 1) := by
    apply Nat.Coprime.pow_left
    rw [Nat.coprime_two_left]
    refine ⟨2 ^ (k - 1) - 1, ?_⟩
    have hpow : 2 ^ k = 2 * 2 ^ (k - 1) := by
      rw [← pow_succ', Nat.sub_add_cancel hk]
    have hpos := Nat.pow_pos (n := k - 1) (show 0 < 2 by decide)
    omega
  have hdvd : 2 ^ L ∣ v % 2 ^ L * (2 ^ k - 1) := by
    rw [Nat.mul_sub, mul_one, ← h]
    exact Nat.dvd_sub_mod v
  have hzero : v % 2 ^ L = 0 :=
    Nat.eq_zero_of_dvd_of_lt (hodd.dvd_of_dvd_mul_right hdvd) (Nat.mod_lt _ (Nat.pow_pos (by decide)))
  calc v = v % 2 ^ L * 2 ^ k := h
    _ = 0 := by rw [hzero, zero_mul]

/-- A name without characters has no dot that counts. -/
theorem not_actualDot_zero {n : Name} (h : n.value = 0) : ¬ n.ActualDot := by
  rintro ⟨i, j, -, -, -, hne⟩
  apply hne
  unfold charAt
  rw [h]
  split
  · simp
  · rfl

theorem toNat_shiftLeft_of_lt (v : UInt64) {k : Nat} (hk : k < 64) :
    (v <<< k.toUInt64).toNat = v.toNat * 2 ^ k % 2 ^ 64 := by
  have hnat : k.toUInt64.toNat = k := Nat.mod_eq_of_lt (by omega)
  rw [UInt64.toNat_shiftLeft, hnat, Nat.mod_eq_of_lt hk, Nat.shiftLeft_eq]

theorem toNat_shiftRight_of_lt (v : UInt64) {k : Nat} (hk : k < 64) :
    (v >>> k.toUInt64).toNat = v.toNat / 2 ^ k := by
  have hnat : k.toUInt64.toNat = k := Nat.mod_eq_of_lt (by omega)
  rw [UInt64.toNat_shiftRight, hnat, Nat.mod_eq_of_lt hk, Nat.shiftRight_eq_div_pow]

/-- The number of a suffix. -/
theorem suffix_toNat {n : Name} (hlo : 4 ≤ n.lastDot) (hhi : n.lastDot ≤ 59) :
    n.suffix.value.toNat =
      ((n.value.toNat &&& (2 ^ n.lastDot - 16)) * 2 ^ (64 - n.lastDot) % 2 ^ 64 +
        n.value.toNat % 16 * 2 ^ (63 - n.lastDot) % 2 ^ 64) % 2 ^ 64 := by
  have hne : n.lastDot ≠ 0 := by omega
  unfold suffix
  rw [if_neg hne]
  generalize n.lastDot = L at hlo hhi
  -- the power that the source shifts to
  have hpow : 2 ^ 4 ≤ 2 ^ L := Nat.pow_le_pow_right (by decide) hlo
  have hpow' : 2 ^ L < 2 ^ 64 := Nat.pow_lt_pow_right (by decide) (by omega)
  -- every shift of the source is by less than 64 bits
  have hbit : ((1 : UInt64) <<< L.toUInt64).toNat = 2 ^ L := by
    rw [toNat_shiftLeft_of_lt 1 (by omega)]
    show 1 * 2 ^ L % 2 ^ 64 = _
    rw [one_mul, Nat.mod_eq_of_lt hpow']
  -- the mask keeps all but the last four bits below it
  have hmask : (((1 : UInt64) <<< L.toUInt64) - 16).toNat = 2 ^ L - 16 := by
    have hle : (16 : UInt64) ≤ (1 : UInt64) <<< L.toUInt64 := by
      rw [UInt64.le_iff_toNat_le, hbit]
      exact hpow
    rw [UInt64.toNat_sub_of_le _ _ hle, hbit]
    rfl
  -- the two subtractions of the source are one
  have hshift : (64 - L).toUInt64 - 1 = (63 - L).toUInt64 := by
    rw [← UInt64.toNat_inj, UInt64.toNat_sub_of_le]
    · show (64 - L) % 2 ^ 64 - 1 = (63 - L) % 2 ^ 64
      omega
    · rw [UInt64.le_iff_toNat_le]
      show 1 ≤ (64 - L) % 2 ^ 64
      omega
  -- the last four bits go to the place of the thirteenth character
  have hlast : (n.value &&& 0x0F).toNat = n.value.toNat % 16 := by
    rw [UInt64.toNat_and]
    exact Nat.and_two_pow_sub_one_eq_mod n.value.toNat 4
  show (((n.value &&& (1 <<< L.toUInt64 - 16)) <<< (64 - L).toUInt64) +
    ((n.value &&& 0x0F) <<< ((64 - L).toUInt64 - 1))).toNat = _
  rw [hshift, UInt64.toNat_add, toNat_shiftLeft_of_lt _ (by omega), toNat_shiftLeft_of_lt _ (by omega),
    UInt64.toNat_and, hmask, hlast]

/-- A name is its own suffix exactly if no character follows a dot. -/
theorem suffix_eq_self_iff (n : Name) : n.suffix = n ↔ ¬ n.ActualDot := by
  obtain ⟨hdot, hrange⟩ := n.lastDot_spec
  rw [← hdot, not_not]
  constructor
  · intro h
    by_contra hne
    obtain ⟨hlo, hhi⟩ := hrange hne
    apply not_actualDot_zero _ (hdot.mp hne)
    have hnat := suffix_toNat hlo hhi
    rw [h] at hnat
    -- both parts have been moved up, so the last four bits are zero
    have hlow : n.value.toNat % 16 = 0 := by
      have hfirst : 2 ^ (64 - n.lastDot) = 2 ^ (60 - n.lastDot) * 16 := by
        rw [show 64 - n.lastDot = 60 - n.lastDot + 4 by omega, pow_add]
        rfl
      have hsecond : 2 ^ (63 - n.lastDot) = 2 ^ (59 - n.lastDot) * 16 := by
        rw [show 63 - n.lastDot = 59 - n.lastDot + 4 by omega, pow_add]
        rfl
      rw [hfirst, hsecond, ← mul_assoc, ← mul_assoc] at hnat
      omega
    -- nothing is lost when the suffix is moved up
    have hlt : n.value.toNat % 2 ^ n.lastDot * 2 ^ (64 - n.lastDot) < 2 ^ 64 := by
      calc n.value.toNat % 2 ^ n.lastDot * 2 ^ (64 - n.lastDot)
          < 2 ^ n.lastDot * 2 ^ (64 - n.lastDot) :=
            Nat.mul_lt_mul_of_pos_right (Nat.mod_lt _ (Nat.pow_pos (by decide)))
              (Nat.pow_pos (by decide))
        _ = 2 ^ 64 := by rw [← pow_add, Nat.add_sub_cancel' (by omega)]
    rw [hlow, and_mask hlo hlow, zero_mul, Nat.zero_mod, add_zero, Nat.mod_mod,
      Nat.mod_eq_of_lt hlt] at hnat
    -- so the name is its own lower part moved up, which only an empty name is
    rw [← UInt64.toNat_inj]
    exact eq_zero_of_shift (by omega) hnat
  · intro h
    unfold suffix
    rw [if_pos h]

end Name

namespace SystemState

/-! ## The two tests -/

/-- The loop of `newaccount` goes over the first twelve characters. -/
theorem hasDot_iff (n : Name) : hasDot n = true ↔ ∃ i, i < 12 ∧ n.charAt i = 0 := by
  -- the loop reads groups of five bits from the end, characters count from the front
  have hgroup : ∀ i, i < 12 →
      ((n.value >>> 4) >>> (5 * i).toUInt64) &&& 0x1F = n.charAt (11 - i) := by
    intro i hi
    unfold Name.charAt
    rw [if_pos (by omega)]
    congr 1
    have hplace : 59 - 5 * (11 - i) = 4 + 5 * i := by omega
    have hfour : (n.value >>> 4).toNat = n.value.toNat / 2 ^ 4 :=
      Name.toNat_shiftRight_of_lt n.value (show 4 < 64 by decide)
    rw [← UInt64.toNat_inj, Name.toNat_shiftRight_of_lt _ (by omega), hfour, hplace,
      Name.toNat_shiftRight_of_lt _ (by omega), Nat.div_div_eq_div_mul, ← pow_add]
  unfold hasDot
  rw [List.any_eq_true]
  -- a group of zeros is a dot among the first twelve characters
  constructor
  · rintro ⟨i, hi, hzero⟩
    rw [List.mem_range] at hi
    rw [decide_eq_true_eq, hgroup i hi] at hzero
    exact ⟨11 - i, by omega, hzero⟩
  · rintro ⟨i, hi, hzero⟩
    refine ⟨11 - i, List.mem_range.mpr (by omega), ?_⟩
    rw [decide_eq_true_eq, hgroup (11 - i) (by omega), show 11 - (11 - i) = i by omega]
    exact hzero

/-- The last two characters are dots. -/
theorem and_of_last {v : UInt64} (h12 : v &&& 0x0F = 0) (h11 : (v >>> 4) &&& 0x1F = 0) :
    v &&& 0x1F0 = 0 := by
  have hlow : v.toNat % 2 ^ 4 = 0 := by
    rw [← Nat.and_two_pow_sub_one_eq_mod]
    exact UInt64.toNat_inj.mpr h12
  have hnext : v.toNat / 2 ^ 4 % 2 ^ 5 = 0 := by
    rw [← Nat.and_two_pow_sub_one_eq_mod, ← Name.toNat_shiftRight_of_lt v (show 4 < 64 by decide)]
    exact UInt64.toNat_inj.mpr h11
  have hboth : v.toNat &&& 511 = 0 := by
    rw [show 511 = 2 ^ 9 - 1 from rfl, Nat.and_two_pow_sub_one_eq_mod]
    omega
  rw [← UInt64.toNat_inj, UInt64.toNat_and]
  show v.toNat &&& (511 &&& 496) = 0
  rw [← Nat.and_assoc, hboth, Nat.zero_and]

/-- The names that `newaccount` gives to the winner of an auction are the ones that `bidname`
    accepts. -/
theorem premium_iff {n : Name} :
    Premium n ↔ n.suffix = n ∧ n.value &&& 0xF = 0 ∧ n.value &&& 0x1F0 = 0 := by
  constructor
  · rintro ⟨hdot, hsuffix⟩
    obtain ⟨i, hi, hchar⟩ := (hasDot_iff n).mp hdot
    have hnone := (Name.suffix_eq_self_iff n).mp hsuffix
    -- behind the dot there are dots only, up to the last two characters
    have hrest : ∀ j, i ≤ j → j ≤ 12 → n.charAt j = 0 := by
      intro j hij hj
      by_contra hne
      have hlt : i ≠ j := by
        rintro rfl
        exact hne hchar
      exact hnone ⟨i, j, by omega, hj, hchar, hne⟩
    have h12 : n.value &&& 0x0F = 0 := hrest 12 (by omega) (le_refl 12)
    have h11 : (n.value >>> 4) &&& 0x1F = 0 := hrest 11 (by omega) (by decide)
    exact ⟨hsuffix, h12, and_of_last h12 h11⟩
  · rintro ⟨hsuffix, -, hlast⟩
    exact ⟨hasDot_of_last hlast, hsuffix⟩

/-! ## Making an account -/

variable {F : Type}

/-- The creator has won the auction of a name. -/
def Won (s : SystemState F) (creator newact : Name) : Prop :=
  ∃ b, s.bids.find? newact = some b ∧ b.highBidder = creator ∧ b.highBid < 0

variable (F) in
/-- The creator can make the account exactly if it has won the auction and the system account,
    for which there are no rules on names, could make it. -/
def RequiresWonAuction (creator newact : Name) : Prop :=
  ∀ s : SystemState F, (∃ s', s.newaccount creator newact = .ok s') ↔
    s.Won creator newact ∧ ∃ s', s.newaccount systemAccount newact = .ok s'

/-- The rules on names. -/
theorem claimName_ok_iff {s : SystemState F} {creator newact : Name}
    (hcreator : creator ≠ systemAccount) :
    (∃ s', s.claimName creator newact = .ok s') ↔
      hasDot newact = false ∨
        (newact.suffix = newact ∧ s.Won creator newact ∨
          newact.suffix ≠ newact ∧ creator = newact.suffix) := by
  unfold claimName Won
  cases hdot : hasDot newact with
  -- a name without a dot is free of the check
  | false => simp
  | true =>
    rw [if_pos ⟨hcreator, rfl⟩]
    -- a suffix of its own is for sale, any other name belongs to its suffix
    by_cases hsuffix : newact.suffix = newact
    · simp only [hsuffix, if_true, bind_eq_ok, check_eq_ok, getRow_eq_ok, pure_eq_ok]
      constructor
      · rintro ⟨s', b, hb, _, hbidder, _, hclosed, -⟩
        exact .inr (.inl ⟨trivial, b, hb, hbidder, hclosed⟩)
      · rintro (h | ⟨-, b, hb, hbidder, hclosed⟩ | ⟨h, -⟩)
        · cases h
        · exact ⟨_, b, hb, (), hbidder, (), hclosed, rfl⟩
        · exact absurd rfl h
    · simp only [hsuffix, if_false, bind_eq_ok, check_eq_ok, pure_eq_ok]
      constructor
      · rintro ⟨s', _, hcreator, -⟩
        exact .inr (.inr ⟨hsuffix, hcreator⟩)
      · rintro (h | ⟨h, -⟩ | ⟨-, hcreator⟩)
        · cases h
        · cases h
        · exact ⟨_, (), hcreator, rfl⟩

/-- What stands in the way of any creator. -/
def Creatable (s : SystemState F) (newact : Name) : Prop :=
  ∃ sym zero, s.coreSymbol = .ok sym ∧ Asset.make 0 sym = .ok zero ∧ s.userres.find? newact = none

/-- A name can be created if it can be claimed and its class admits it. -/
theorem newaccount_ok_iff {s : SystemState F} {creator newact : Name} :
    (∃ s', s.newaccount creator newact = .ok s') ↔
      (∃ s', s.claimName creator newact = .ok s') ∧ s.Creatable newact := by
  simp only [newaccount, bind_eq_ok, emplaceRow_eq_ok, pure_eq_ok]
  constructor
  · rintro ⟨s', s₁, hclaim, sym, hsym, zero, hzero, userres, ⟨hnone, -⟩, -⟩
    rw [claimName_eq hclaim] at hsym hnone
    exact ⟨⟨s₁, hclaim⟩, sym, zero, hsym, hzero, hnone⟩
  · rintro ⟨⟨s₁, hclaim⟩, sym, zero, hsym, hzero, hnone⟩
    have hs₁ := claimName_eq hclaim
    refine ⟨_, s₁, hclaim, sym, ?_, zero, hzero, _, ⟨?_, rfl⟩, rfl⟩
    · rw [hs₁]
      exact hsym
    · rw [hs₁]
      exact hnone

/-- The system account needs no auction. -/
theorem system_newaccount_ok_iff {s : SystemState F} {newact : Name} :
    (∃ s', s.newaccount systemAccount newact = .ok s') ↔ s.Creatable newact := by
  rw [newaccount_ok_iff]
  constructor
  · rintro ⟨-, hcreatable⟩
    exact hcreatable
  · intro hcreatable
    refine ⟨⟨s, ?_⟩, hcreatable⟩
    unfold claimName
    rw [if_neg]
    rintro ⟨hne, -⟩
    exact hne rfl

variable [Double F]

/-- An initialised contract with some bids. -/
def withBids (bids : Table Name NameBid) : SystemState F :=
  { genesis 0 0 with
    bids := bids
    rammarket := some ⟨⟨0, ramcoreSymbol⟩, ⟨0, ramcoreSymbol⟩, ⟨0, ramcoreSymbol⟩⟩ }

/-- The class of a name is no matter of the bids. -/
theorem withBids_creatable (bids : Table Name NameBid) (newact : Name) :
    (withBids bids : SystemState F).Creatable newact :=
  ⟨ramcoreSymbol, ⟨0, ramcoreSymbol⟩, rfl,
    Asset.make_eq_ok.mpr ⟨by decide, by decide, by decide +kernel, rfl⟩, Table.find?_empty _⟩

variable (F) in
/-- The names that need an auction are the premium ones. -/
theorem requiresWonAuction_iff {creator newact : Name} (hcreator : creator ≠ systemAccount) :
    RequiresWonAuction F creator newact ↔ Premium newact := by
  constructor
  · intro hrequires
    -- an open or unsold name can be made without any bid
    have hnone := hrequires (withBids ∅)
    have hnotWon : ¬ (withBids ∅ : SystemState F).Won creator newact := by
      rintro ⟨b, hb, -⟩
      rw [show (withBids ∅ : SystemState F).bids = ∅ from rfl, Table.find?_empty] at hb
      cases hb
    have hblocked : ¬ ∃ s', (withBids ∅ : SystemState F).claimName creator newact = .ok s' := by
      intro hclaim
      exact hnotWon (hnone.mp (newaccount_ok_iff.mpr ⟨hclaim, withBids_creatable _ _⟩)).1
    -- and a name with the suffix of another account cannot be made with a bid either
    have hsold := hrequires (withBids ((∅ : Table Name NameBid).set newact ⟨creator, -1, 0⟩))
    have hwon : (withBids ((∅ : Table Name NameBid).set newact ⟨creator, -1, 0⟩) :
        SystemState F).Won creator newact :=
      ⟨⟨creator, -1, 0⟩, Table.find?_set_self _ _ _, rfl, show (-1 : Int64) < 0 by decide⟩
    have hmade := hsold.mpr ⟨hwon, system_newaccount_ok_iff.mpr (withBids_creatable _ _)⟩
    have hclaim := (claimName_ok_iff hcreator).mp (newaccount_ok_iff.mp hmade).1
    rw [claimName_ok_iff hcreator] at hblocked
    rcases hclaim with hdot | ⟨hsuffix, -⟩ | hother
    · exact absurd (.inl hdot) hblocked
    · refine ⟨?_, hsuffix⟩
      by_contra hdot
      exact hblocked (.inl (by simpa using hdot))
    · exact absurd (.inr (.inr hother)) hblocked
  · rintro ⟨hdot, hsuffix⟩ s
    rw [newaccount_ok_iff, system_newaccount_ok_iff, claimName_ok_iff hcreator, hdot]
    simp [hsuffix]

end SystemState

namespace AuctionState

variable {F : Type}

/-! ## Bidding -/

/-- The checks of `bidname` on the name. -/
def checkNewname (ctx : Context) (newname : Name) : Except String Unit := do
  check (newname.suffix = newname) "you can only bid on top-level suffix"
  check newname.isSet "the empty name is not a valid account name to bid on"
  check (newname.value &&& 0xF = 0) "13 character names are not valid account names to bid on"
  check (newname.value &&& 0x1F0 = 0)
    "accounts with 12 character names and no dots can be created without bidding required"
  check (¬ ctx.isAccount newname) "account already exists"

/-- `bidname` makes these checks first, and then those on the bid. -/
theorem bidname_eq (ctx : Context) (s : AuctionState F) (bidder newname : Name) (bid : Asset) :
    s.bidname ctx bidder newname bid = (do
      requireAuth ctx bidder
      checkNewname ctx newname
      let sym ← s.sys.coreSymbol
      check (bid.symbol = sym) "asset must be system token"
      check (0 < bid.amount) "insufficient bid"
      let memo := "bid name " ++ String.ofList newname.toText
      let s ← s.placeBid ctx bidder newname bid.amount
      return (s, [⟨[bidder], .transfer bidder namesAccount bid memo⟩])) := by
  simp only [bidname, checkNewname, bind_assoc]

/-- The names that can be bid on are the premium ones that are free. -/
theorem checkNewname_eq_ok {ctx : Context} {newname : Name} :
    checkNewname ctx newname = .ok () ↔
      newname.isSet ∧ SystemState.Premium newname ∧ ¬ ctx.isAccount newname := by
  simp only [checkNewname, check_bind_eq_ok, check_eq_ok, SystemState.premium_iff]
  constructor
  · rintro ⟨hsuffix, hset, h12, h11, hfree⟩
    exact ⟨hset, ⟨hsuffix, h12, h11⟩, hfree⟩
  · rintro ⟨hset, ⟨hsuffix, h12, h11⟩, hfree⟩
    exact ⟨hsuffix, hset, h12, h11, hfree⟩

variable [Double F]

variable (F) in
/-- A name that is not empty and not taken has to be won in an auction exactly if it can be bid
    on. -/
theorem names_classified_alike {ctx : Context} {creator newact : Name} (hset : newact.isSet)
    (hfree : ¬ ctx.isAccount newact) (hcreator : creator ≠ systemAccount) :
    SystemState.RequiresWonAuction F creator newact ↔ checkNewname ctx newact = .ok () := by
  rw [SystemState.requiresWonAuction_iff F hcreator, checkNewname_eq_ok]
  constructor
  · intro hpremium
    exact ⟨hset, hpremium, hfree⟩
  · rintro ⟨-, hpremium, -⟩
    exact hpremium

open Sample in
/-- The name `com` has to be won. -/
theorem names_classified_alike_sample :
    SystemState.RequiresWonAuction Rat SystemState.Sample.alice com :=
  (@names_classified_alike Rat _ (Sample.ctx [] 0) SystemState.Sample.alice com (by decide +kernel)
    (by decide +kernel) (by decide +kernel)).mpr (by decide +kernel)

end AuctionState

end UxContracts
