import UxContracts.ForStd.Table
import Mathlib.Data.List.Count
import Mathlib.Data.Set.Image
import Mathlib.Order.Bounds.Basic

/-!
# Tallies with small counters

Votes are counted in a table of 8-bit counters, and the mode is the first key, in the
order of the keys, with the greatest counter. A counter wraps around after 255 votes, so
it is never more than the number of votes (`counter_le_count`), and it is that number as
long as there are fewer than 256 votes (`counter_eq_count`).

* `le_count_of_mode`  the mode has at least as many votes as its counter says
* `mode_ge_iff`       the mode reaches a threshold exactly if some key does
* `isMode_iff`        the mode is the one of the votes exactly if no key has 256 votes
-/

namespace Tally

variable {K : Type} [LinearOrder K]

/-- Count one more vote. -/
def vote (t : Table K UInt8) (k : K) : Table K UInt8 := t.set k ((t.find? k).getD 0 + 1)

/-- Count all votes. -/
def count (votes : List K) : Table K UInt8 := votes.foldl vote ∅

/-- The first key with the greatest counter and that counter; `default` and zero if no
    counter is above zero. -/
def mode (t : Table K UInt8) (default : K) : K × UInt8 :=
  t.rows.foldl (fun best r => if r.2 > best.2 then r else best) (default, 0)

/-- The counter of a key. -/
def counter (t : Table K UInt8) (k : K) : UInt8 := (t.find? k).getD 0

/-! ## Counting -/

/-- A vote raises the counter of its key, modulo 256. -/
theorem counter_vote (t : Table K UInt8) (k k' : K) :
    counter (vote t k) k' = if k' = k then counter t k + 1 else counter t k' := by
  unfold counter vote
  rw [Table.find?_set]
  split <;> rfl

/-- The counters after more votes. -/
private theorem counter_foldl (votes : List K) (t : Table K UInt8) (k : K) :
    counter (votes.foldl vote t) k = counter t k + UInt8.ofNat (votes.count k) := by
  induction votes generalizing t with
  | nil => simp
  | cons v votes ih =>
    rw [List.foldl_cons, ih, counter_vote]
    by_cases hk : k = v
    · subst hk
      rw [if_pos rfl, List.count_cons_self, UInt8.ofNat_add, UInt8.add_assoc]
      congr 1
      exact UInt8.add_comm _ _
    · rw [if_neg hk, List.count_cons_of_ne (Ne.symm hk)]

/-- A counter is the number of votes modulo 256. -/
theorem counter_count (votes : List K) (k : K) :
    counter (count votes) k = UInt8.ofNat (votes.count k) := by
  unfold count
  rw [counter_foldl]
  show 0 + _ = _
  rw [UInt8.zero_add]

/-- A counter never exceeds the votes. -/
theorem counter_le_count (votes : List K) (k : K) :
    (counter (count votes) k).toNat ≤ votes.count k := by
  rw [counter_count, UInt8.toNat_ofNat']
  exact Nat.mod_le _ _

/-- A counter is exact as long as its key has fewer than 256 votes. -/
theorem counter_eq_of_lt {votes : List K} {k : K} (h : votes.count k < 256) :
    (counter (count votes) k).toNat = votes.count k := by
  rw [counter_count, UInt8.toNat_ofNat']
  exact Nat.mod_eq_of_lt h

/-- Below 256 votes a counter is exact. -/
theorem counter_eq_count {votes : List K} (h : votes.length < 256) (k : K) :
    (counter (count votes) k).toNat = votes.count k :=
  counter_eq_of_lt (lt_of_le_of_lt List.count_le_length h)

/-! ## The mode -/

omit [LinearOrder K] in
/-- The scan for the best row: it is one of the rows, and no row is better. -/
private theorem foldl_spec (rows : List (K × UInt8)) (best : K × UInt8) :
    let m := rows.foldl (fun best r => if r.2 > best.2 then r else best) best
    (m = best ∨ m ∈ rows) ∧ best.2 ≤ m.2 ∧ ∀ r ∈ rows, r.2 ≤ m.2 := by
  induction rows generalizing best with
  | nil => exact ⟨.inl rfl, UInt8.le_refl _, fun _ h => nomatch h⟩
  | cons r rows ih =>
    simp only [List.foldl_cons]
    obtain ⟨hmem, hle, hall⟩ := ih (if r.2 > best.2 then r else best)
    have hbest : best.2 ≤ (if r.2 > best.2 then r else best).2 ∧
        r.2 ≤ (if r.2 > best.2 then r else best).2 := by
      split
      · rename_i hgt
        exact ⟨UInt8.le_of_lt hgt, UInt8.le_refl _⟩
      · rename_i hgt
        exact ⟨UInt8.le_refl _, UInt8.not_lt.mp hgt⟩
    refine ⟨?_, UInt8.le_trans hbest.1 hle, ?_⟩
    · rcases hmem with heq | hmem
      · rw [heq]
        split
        · exact .inr List.mem_cons_self
        · exact .inl rfl
      · exact .inr (List.mem_cons_of_mem _ hmem)
    · intro r' hr'
      rcases List.mem_cons.mp hr' with rfl | hr'
      · exact UInt8.le_trans hbest.2 hle
      · exact hall r' hr'

omit [LinearOrder K] in
/-- A row that is not above the best one does not replace it. -/
private theorem foldl_eq_best {rows : List (K × UInt8)} {best : K × UInt8}
    (h : ∀ r ∈ rows, r.2 ≤ best.2) :
    rows.foldl (fun best r => if r.2 > best.2 then r else best) best = best := by
  induction rows with
  | nil => rfl
  | cons r rows ih =>
    have hr : ¬ r.2 > best.2 := UInt8.not_lt.mpr (h r List.mem_cons_self)
    rw [List.foldl_cons, if_neg hr]
    exact ih fun r' hr' => h r' (List.mem_cons_of_mem _ hr')

/-- Of the rows with the greatest counter the fold finds the first one. -/
private theorem foldl_first {rows : List (K × UInt8)} (hsorted : rows.Pairwise fun a b => a.1 < b.1)
    (best : K × UInt8) :
    let m := rows.foldl (fun best r => if r.2 > best.2 then r else best) best
    best.2 < m.2 → ∀ r ∈ rows, r.2 = m.2 → m.1 ≤ r.1 := by
  induction rows generalizing best with
  | nil =>
    intro m _ r hr
    cases hr
  | cons r₀ rows ih =>
    obtain ⟨hfirst, hsorted⟩ := List.pairwise_cons.mp hsorted
    simp only [List.foldl_cons]
    intro hlt r hr heq
    by_cases hr₀ : r₀.2 > best.2
    · rw [if_pos hr₀] at hlt heq ⊢
      obtain ⟨-, hle, hall⟩ := foldl_spec rows r₀
      by_cases hlater : r₀.2 < (rows.foldl (fun best r => if r.2 > best.2 then r else best) r₀).2
      · -- a later row is above `r₀`
        cases List.mem_cons.mp hr with
        | inl hself =>
          rw [hself] at heq
          exact absurd (heq ▸ hlater) (UInt8.lt_irrefl _)
        | inr hmem => exact ih hsorted r₀ hlater r hmem heq
      · -- no later row is above `r₀`, which stays
        have hstay := foldl_eq_best fun r' hr' => UInt8.le_trans (hall r' hr') (UInt8.not_lt.mp hlater)
        rw [hstay]
        cases List.mem_cons.mp hr with
        | inl hself => rw [hself]
        | inr hmem => exact (hfirst r hmem).le
    · rw [if_neg hr₀] at hlt heq ⊢
      cases List.mem_cons.mp hr with
      | inl hself =>
        rw [hself] at heq
        exact absurd (heq ▸ hlt) hr₀
      | inr hmem => exact ih hsorted best hlt r hmem heq

/-- The counter of the mode is the counter of its key, if it is above zero. -/
theorem counter_mode {t : Table K UInt8} {default : K} (h : 0 < (mode t default).2) :
    counter t (mode t default).1 = (mode t default).2 := by
  obtain ⟨hmem, -, -⟩ := foldl_spec t.rows (default, 0)
  rcases hmem with heq | hmem
  · unfold mode at h
    rw [heq] at h
    exact absurd h (UInt8.lt_irrefl 0)
  · have hfind := Table.mem_rows.mp hmem
    unfold counter mode
    rw [hfind]
    rfl

/-- No counter is above the one of the mode. -/
theorem counter_le_mode (t : Table K UInt8) (default k : K) :
    counter t k ≤ (mode t default).2 := by
  obtain ⟨-, -, hall⟩ := foldl_spec t.rows (default, 0)
  unfold counter
  cases hk : t.find? k with
  | none => exact UInt8.zero_le
  | some c => exact hall (k, c) (Table.mem_rows.mpr hk)

/-- Without a counter above zero there is nothing to find. -/
theorem mode_eq_zero {t : Table K UInt8} (h : ∀ k, counter t k = 0) (default : K) :
    (mode t default).2 = 0 := by
  by_cases hpos : 0 < (mode t default).2
  · rw [← counter_mode hpos, h]
  · exact UInt8.le_antisymm (UInt8.not_lt.mp hpos) UInt8.zero_le

/-- The mode is the first key with its counter. -/
theorem mode_le {t : Table K UInt8} {default k : K} (h : 0 < (mode t default).2)
    (hk : counter t k = (mode t default).2) : (mode t default).1 ≤ k := by
  have hfind : t.find? k = some (mode t default).2 := by
    unfold counter at hk
    cases hc : t.find? k with
    | none =>
      rw [hc] at hk
      rw [← hk] at h
      exact absurd h (UInt8.lt_irrefl 0)
    | some c =>
      rw [hc] at hk
      exact congrArg some hk
  exact foldl_first t.sorted (default, 0) h _ (Table.mem_rows.mpr hfind) rfl

/-- The mode has at least as many votes as its counter says. -/
theorem le_count_of_mode {votes : List K} {default : K} {t : Nat} (h0 : 0 < t)
    (h : t ≤ (mode (count votes) default).2.toNat) :
    t ≤ votes.count (mode (count votes) default).1 := by
  have hpos : 0 < (mode (count votes) default).2 := by
    rw [UInt8.lt_iff_toNat_lt]
    exact lt_of_lt_of_le h0 h
  have hle := counter_le_count votes (mode (count votes) default).1
  rw [counter_mode hpos] at hle
  omega

/-- With fewer than 256 votes, the mode reaches a threshold exactly if some key does. -/
theorem mode_ge_iff {votes : List K} (hlen : votes.length < 256) (default : K) {t : Nat}
    (h0 : 0 < t) : t ≤ (mode (count votes) default).2.toNat ↔ ∃ k, t ≤ votes.count k := by
  constructor
  · intro h
    exact ⟨_, le_count_of_mode h0 h⟩
  · rintro ⟨k, hk⟩
    rw [← counter_eq_count hlen] at hk
    exact hk.trans (UInt8.le_iff_toNat_le.mp (counter_le_mode _ default k))

/-! ## Exact tallies -/

/-- What a tally is for: `n` is the greatest number of votes that a key has, and `k` is the first
    of the keys that have as many, if there are votes at all. -/
structure IsMode (votesFor : K → Nat) (k : K) (n : Nat) : Prop where
  greatest : IsGreatest (Set.range votesFor) n
  least : 0 < n → IsLeast {k' | votesFor k' = n} k

/-- The tally is exact exactly if no key has 256 votes or more. -/
theorem isMode_iff (votes : List K) (default : K) :
    IsMode (fun k => votes.count k) (mode (count votes) default).1
        (mode (count votes) default).2.toNat ↔ ∀ k, votes.count k < 256 := by
  constructor
  · intro h k
    have hle := h.greatest.2 ⟨k, rfl⟩
    have hlt := UInt8.toNat_lt (mode (count votes) default).2
    exact lt_of_le_of_lt hle hlt
  · intro h
    have hle : ∀ k, votes.count k ≤ (mode (count votes) default).2.toNat := by
      intro k
      rw [← counter_eq_of_lt (h k)]
      exact UInt8.le_iff_toNat_le.mp (counter_le_mode _ default k)
    have hmode : 0 < (mode (count votes) default).2.toNat →
        votes.count (mode (count votes) default).1 = (mode (count votes) default).2.toNat := by
      intro hpos
      rw [← counter_eq_of_lt (h _), counter_mode (UInt8.lt_iff_toNat_lt.mpr hpos)]
    refine ⟨⟨?_, ?_⟩, fun hpos => ⟨hmode hpos, ?_⟩⟩
    · by_cases hpos : 0 < (mode (count votes) default).2.toNat
      · exact ⟨_, hmode hpos⟩
      · -- nobody has a vote, `default` included
        have hdefault : votes.count default ≤ _ := hle default
        have hzero : votes.count default = (mode (count votes) default).2.toNat := by omega
        exact ⟨default, hzero⟩
    · rintro n ⟨k, rfl⟩
      exact hle k
    · intro k hk
      apply mode_le (UInt8.lt_iff_toNat_lt.mpr hpos)
      rw [← UInt8.toNat_inj, counter_eq_of_lt (h k)]
      exact hk

end Tally
