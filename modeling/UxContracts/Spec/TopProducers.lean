import Mathlib.Data.List.TakeWhile
import UxContracts.ForStd.Ranking
import UxContracts.Native.Auction
import UxContracts.Native.Producers
import UxContracts.Native.Resource

/-!
# The top producers

Three actions read the start of the index of producers: `isOracle` takes its first 21 rows,
`activeProducers` and `topProducerNames` stop before the first row that is inactive or has no
votes. They agree exactly if such a row never comes among the first 21 (`viewsAgree_iff`).
-/

namespace UxContracts

/-- What a comparison of numbers has to do. In `double`, every value but `NaN` is a number, and
    `NaN` is no key of an index. -/
structure Double.Ordered (F : Type) [Double F] (isNumber : F → Prop) : Prop where
  zero : isNumber (Double.ofInt 0)
  neg : ∀ x : F, isNumber x → isNumber (-x)
  lt_asymm : ∀ x y : F, isNumber x → isNumber y → x < y → ¬ y < x
  lt_or_lt : ∀ x y z : F, isNumber x → isNumber y → isNumber z → x < z → x < y ∨ y < z
  neg_lt_neg : ∀ x y : F, isNumber x → isNumber y → (-x < -y ↔ y < x)

theorem Double.ordered_rat : Double.Ordered Rat fun _ => True where
  zero := trivial
  neg _ _ := trivial
  lt_asymm _ _ _ _ h := lt_asymm h
  lt_or_lt _ y _ _ _ _ h := (lt_or_ge _ y).imp id fun hy => lt_of_le_of_lt hy h
  neg_lt_neg _ _ _ _ := neg_lt_neg_iff

namespace ResourceState

variable {F : Type} [Double F]

abbrev ProducerRow (F : Type) := Name × ProducerInfo F

/-- The row is active with votes. -/
def eligible (p : ProducerRow F) : Bool := Double.ofInt 0 < p.2.totalVotes ∧ p.2.isActive

/-- The order of the index. -/
def before (p q : ProducerRow F) : Prop :=
  p.2.byVotes < q.2.byVotes ∨ ¬ q.2.byVotes < p.2.byVotes ∧ p.1 < q.1

/-- More votes, or as many and the smaller name. -/
def outranks (p q : ProducerRow F) : Prop :=
  q.2.totalVotes < p.2.totalVotes ∨ ¬ p.2.totalVotes < q.2.totalVotes ∧ p.1 < q.1

instance : DecidableRel (before (F := F)) := fun p q => by unfold before; infer_instance

instance : DecidableRel (outranks (F := F)) := fun p q => by unfold outranks; infer_instance

/-- The actions have one view of the top producers: up to 21 active producers that have most
    votes. -/
structure ViewsAgree (s : AuctionState F) : Prop where
  oracles : ∀ a, isOracle s.sys a = true ↔ a ∈ activeProducers s.sys
  elected : s.topProducerNames = activeProducers s.sys
  most : ∀ p ∈ s.sys.producers.rows, p.1 ∈ activeProducers s.sys ↔
    eligible p ∧ s.sys.producers.rows.countP (fun q => eligible q && decide (outranks q p)) < 21
  qualified : ∀ a, isOracle s.sys a = true →
    ∃ info, s.sys.producers.find? a = some info ∧ info.isActive ∧ Double.ofInt 0 < info.totalVotes

/-! ## The index -/

variable {isNumber : F → Prop}

/-- Every row has a number of votes. -/
def Numbered (isNumber : F → Prop) (t : Table Name (ProducerInfo F)) : Prop :=
  ∀ p ∈ t.rows, isNumber p.2.totalVotes

/-- The key of a row is a number if its votes are. -/
theorem isNumber_byVotes (law : Double.Ordered F isNumber) {p : ProducerInfo F}
    (h : isNumber p.totalVotes) : isNumber p.byVotes := by
  unfold ProducerInfo.byVotes
  split
  · exact law.neg _ h
  · exact h

/-- The index has the rows of the table, -/
theorem mem_ranked {t : Table Name (ProducerInfo F)} {p : ProducerRow F} :
    p ∈ rankedProducers t ↔ p ∈ t.rows := by
  unfold rankedProducers
  rw [List.mem_insertionSort]

/-- The index has as many rows of a kind as the table. -/
theorem countP_ranked (t : Table Name (ProducerInfo F)) (f : ProducerRow F → Bool) :
    (rankedProducers t).countP f = t.rows.countP f :=
  (List.perm_insertionSort _ _).countP_eq f

/-- The index is in its order. -/
theorem pairwise_ranked (law : Double.Ordered F isNumber) {t : Table Name (ProducerInfo F)}
    (hnum : Numbered isNumber t) : (rankedProducers t).Pairwise before := by
  have hkey : ∀ p ∈ t.rows, isNumber p.2.byVotes := fun p hp => isNumber_byVotes law (hnum p hp)
  have hstable : (rankedProducers t).Pairwise fun p q =>
      ¬ q.2.byVotes < p.2.byVotes ∧ (¬ p.2.byVotes < q.2.byVotes → p.1 < q.1) := by
    apply Ranking.pairwise_insertionSort_stable
    · intro p hp q hq
      by_cases h : q.2.byVotes < p.2.byVotes
      · exact .inr (law.lt_asymm _ _ (hkey q hq) (hkey p hp) h)
      · exact .inl h
    · intro p hp q hq r hr hpq hqr hpr
      rcases law.lt_or_lt _ _ _ (hkey r hr) (hkey q hq) (hkey p hp) hpr with h | h
      · exact hqr h
      · exact hpq h
    · exact t.sorted
  apply hstable.imp
  intro p q h
  by_cases hlt : p.2.byVotes < q.2.byVotes
  · exact .inl hlt
  · exact .inr ⟨h.1, h.2 hlt⟩

/-- The order of the index has no ties. -/
theorem before_asymm (law : Double.Ordered F isNumber) {t : Table Name (ProducerInfo F)}
    (hnum : Numbered isNumber t) {p q : ProducerRow F} (hp : p ∈ t.rows) (hq : q ∈ t.rows)
    (h : before p q) : ¬ before q p := by
  have hasymm := law.lt_asymm p.2.byVotes q.2.byVotes (isNumber_byVotes law (hnum p hp))
    (isNumber_byVotes law (hnum q hq))
  rintro (hlt | ⟨hle, hname⟩)
  · rcases h with h | h
    · exact hasymm h hlt
    · exact h.1 hlt
  · rcases h with h | h
    · exact hle h
    · exact lt_asymm h.2 hname

/-- Between eligible rows, the index has the one with more votes first. -/
theorem before_iff_outranks (law : Double.Ordered F isNumber) {p q : ProducerRow F}
    (hp : eligible p) (hq : eligible q) (hnp : isNumber p.2.totalVotes)
    (hnq : isNumber q.2.totalVotes) : before p q ↔ outranks p q := by
  have hkey : ∀ {r : ProducerRow F}, eligible r → r.2.byVotes = -r.2.totalVotes :=
    fun hr => if_pos (of_decide_eq_true hr).2
  unfold before outranks
  rw [hkey hp, hkey hq, law.neg_lt_neg _ _ hnp hnq, law.neg_lt_neg _ _ hnq hnp]

/-- The schedule and the payment read the same part of the index. -/
theorem topProducerNames_eq (s : AuctionState F) : s.topProducerNames = activeProducers s.sys :=
  rfl

/-! ## Oracles -/

theorem isOracle_iff {sys : SystemState F} {a : Name} :
    isOracle sys a = true ↔ ∃ p ∈ (rankedProducers sys.producers).take 21, p.1 = a := by
  unfold isOracle
  simp only [List.any_eq_true, decide_eq_true_eq]

omit [Double F] in
/-- Rows of one name are one row. -/
theorem eq_of_name_eq {t : Table Name (ProducerInfo F)} {p q : ProducerRow F} (hp : p ∈ t.rows)
    (hq : q ∈ t.rows) (h : p.1 = q.1) : p = q := by
  obtain ⟨a, info⟩ := p
  obtain ⟨b, info'⟩ := q
  obtain rfl : a = b := h
  have hfind := Table.mem_rows.mp hp
  rw [Table.mem_rows.mp hq] at hfind
  cases hfind
  rfl

/-- Only eligible producers are paid. -/
theorem eligible_of_active {sys : SystemState F} {p : ProducerRow F} (hp : p ∈ sys.producers.rows)
    (h : p.1 ∈ activeProducers sys) : eligible p := by
  obtain ⟨q, hq, hname⟩ := List.mem_map.mp h
  have hq := List.mem_of_mem_take hq
  have helig : eligible q := List.mem_takeWhile_imp hq
  have hmem := mem_ranked.mp ((List.takeWhile_sublist eligible).subset hq)
  rw [← eq_of_name_eq hmem hp hname]
  exact helig

/-- Without an ineligible row among the first 21, nothing stops the collection before them. -/
theorem activeProducers_eq {sys : SystemState F}
    (h : ∀ p ∈ (rankedProducers sys.producers).take 21, eligible p) :
    activeProducers sys = ((rankedProducers sys.producers).take 21).map Prod.fst := by
  show List.map Prod.fst (List.take 21 (List.takeWhile eligible _)) = _
  rw [List.take_takeWhile, List.takeWhile_eq_self_iff.mpr h]

/-- If the first 21 are eligible, they are the ones that are paid. -/
theorem mem_activeProducers {sys : SystemState F} {p : ProducerRow F}
    (h : ∀ p ∈ (rankedProducers sys.producers).take 21, eligible p) (hp : p ∈ sys.producers.rows) :
    p.1 ∈ activeProducers sys ↔ p ∈ (rankedProducers sys.producers).take 21 := by
  rw [activeProducers_eq h, List.mem_map]
  constructor
  · rintro ⟨q, hq, hname⟩
    rw [← eq_of_name_eq (mem_ranked.mp (List.mem_of_mem_take hq)) hp hname]
    exact hq
  · intro hmem
    exact ⟨p, hmem, rfl⟩

/-! ## Agreement -/

/-- The first 21 rows are eligible exactly if enough rows are before each one that is not. -/
theorem eligible_take_iff (law : Double.Ordered F isNumber) {t : Table Name (ProducerInfo F)}
    (hnum : Numbered isNumber t) :
    (∀ p ∈ (rankedProducers t).take 21, eligible p) ↔
      ∀ p ∈ t.rows, ¬ eligible p → 21 ≤ t.rows.countP fun q => decide (before q p) := by
  have hasymm : ∀ p ∈ rankedProducers t, ∀ q ∈ rankedProducers t, before p q → ¬ before q p :=
    fun p hp q hq => before_asymm law hnum (mem_ranked.mp hp) (mem_ranked.mp hq)
  have hfirst (p : ProducerRow F) := Ranking.mem_take_iff (x := p) (n := 21)
    (pairwise_ranked law hnum) hasymm
  simp only [countP_ranked, mem_ranked] at hfirst
  constructor
  · intro h p hp hnot
    by_contra hfew
    exact hnot (h p ((hfirst p).mpr ⟨hp, by omega⟩))
  · intro h p hp
    obtain ⟨hmem, hfew⟩ := (hfirst p).mp hp
    by_contra hnot
    have hmany := h p hmem hnot
    omega

/-- Agreement, when the first 21 rows are eligible. -/
theorem viewsAgree_of_eligible (law : Double.Ordered F isNumber) {s : AuctionState F}
    (hnum : Numbered isNumber s.sys.producers)
    (h : ∀ p ∈ (rankedProducers s.sys.producers).take 21, eligible p) : ViewsAgree s where
  oracles a := by
    rw [isOracle_iff, activeProducers_eq h, List.mem_map]
  elected := topProducerNames_eq s
  most p hp := by
    rw [mem_activeProducers h hp]
    -- an eligible producer is read if fewer than so many come before it
    by_cases helig : eligible p
    · rw [Ranking.mem_take_iff_of_forall (pairwise_ranked law hnum) _ h, mem_ranked, countP_ranked]
      · simp only [hp, helig, true_and]
        -- the rows that are counted are eligible, and so is `p`
        have hcount : s.sys.producers.rows.countP (fun q => eligible q && decide (before q p)) =
            s.sys.producers.rows.countP (fun q => eligible q && decide (outranks q p)) := by
          apply List.countP_congr
          intro q hq
          rw [Bool.and_eq_true_iff, Bool.and_eq_true_iff, decide_eq_true_iff, decide_eq_true_iff]
          exact and_congr_right fun hqe =>
            before_iff_outranks law hqe helig (hnum q hq) (hnum p hp)
        rw [hcount]
      · exact fun q hq r hr => before_asymm law hnum (mem_ranked.mp hq) (mem_ranked.mp hr)
    · -- the others are not read at all
      exact ⟨fun hmem => absurd (h p hmem) helig, fun hand => absurd hand.1 helig⟩
  qualified a ha := by
    -- an oracle is one of the rows that are read
    obtain ⟨p, hp, rfl⟩ := isOracle_iff.mp ha
    have hand := of_decide_eq_true (h p hp)
    exact ⟨p.2, Table.mem_rows.mp (mem_ranked.mp (List.mem_of_mem_take hp)), hand.2, hand.1⟩

/-- The views agree exactly if at least 21 rows of the index are before every row that is inactive
    or has no votes. -/
theorem viewsAgree_iff (law : Double.Ordered F isNumber) (s : AuctionState F)
    (hnum : ∀ p ∈ s.sys.producers.rows, isNumber p.2.totalVotes) :
    ViewsAgree s ↔ ∀ p ∈ s.sys.producers.rows, ¬ eligible p →
      21 ≤ s.sys.producers.rows.countP fun q => decide (before q p) := by
  rw [← eligible_take_iff law hnum]
  constructor
  · intro h p hp
    -- an oracle is paid, and only eligible producers are
    have horacle := isOracle_iff.mpr ⟨p, hp, rfl⟩
    exact eligible_of_active (mem_ranked.mp (List.mem_of_mem_take hp)) ((h.oracles p.1).mp horacle)
  · exact viewsAgree_of_eligible law hnum

/-- Alice has votes, bob has registered without any. -/
def registered : AuctionState Rat :=
  ⟨{ SystemState.Sample.start with
    producers := (Table.set ∅ SystemState.Sample.alice ⟨3, true, 0⟩).set SystemState.Sample.bob
      ⟨0, true, 0⟩ }, ∅, 0, 0⟩

/-- Bob has unregistered. -/
def unregistered : AuctionState Rat :=
  { registered with sys := registered.sys.deactivate SystemState.Sample.bob ⟨0, true, 0⟩ }

/-- There are 21 producers with more votes than alice. -/
def crowded : AuctionState Rat :=
  { unregistered with sys := { unregistered.sys with
      producers := (List.range 21).foldl (fun t i => t.set ⟨UInt64.ofNat (i + 1)⟩ ⟨i + 10, true, 0⟩)
        unregistered.sys.producers } }

/-- In the crowd bob is not among the first 21 producers, and the views agree. -/
theorem viewsAgree_sample : ViewsAgree crowded ∧
    (∃ info, crowded.sys.producers.find? SystemState.Sample.bob = some info ∧ ¬ info.isActive) ∧
    isOracle crowded.sys SystemState.Sample.bob = false ∧
    (activeProducers crowded.sys).length = 21 :=
  ⟨(viewsAgree_iff Double.ordered_rat _ fun _ _ => trivial).mpr (by decide +kernel),
    ⟨⟨0, false, 0⟩, by decide +kernel, by decide⟩, by decide +kernel, by decide +kernel⟩

/-- An account that has unregistered is an oracle, but not among the producers that are paid. -/
theorem unregistered_isOracle :
    isOracle unregistered.sys SystemState.Sample.bob = true ∧
      activeProducers unregistered.sys = [SystemState.Sample.alice] ∧
      ¬ ViewsAgree unregistered := by
  have horacle : isOracle unregistered.sys SystemState.Sample.bob = true := by decide
  have hactive : activeProducers unregistered.sys = [SystemState.Sample.alice] := by decide
  refine ⟨horacle, hactive, fun h => ?_⟩
  have hbob := (h.oracles SystemState.Sample.bob).mp horacle
  rw [hactive] at hbob
  revert hbob
  decide

end ResourceState

end UxContracts
