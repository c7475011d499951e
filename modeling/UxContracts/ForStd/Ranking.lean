import Mathlib.Data.List.Count
import Mathlib.Data.List.Sort
import Mathlib.Data.List.TakeWhile

/-!
# Rankings

A list is ranked by a key that entries may share; those that share it stay in the order they
came in. The relation of the keys has to be total and transitive on the entries of the list only.

* `pairwise_insertionSort_stable`  the ranked list, with the order of the entries that share a key
* `mem_take_iff`                   an entry is among the first `n` if fewer than `n` are before it
* `mem_take_iff_of_forall`         the same when only entries with a property are counted
* `forall_mem_take_iff`            when no entry with a property is missed by taking entries up to
                                   the first one without it
-/

namespace Ranking

open List

variable {α : Type} {r tie : α → α → Prop} [DecidableRel r]

/-! ## Stable sorting -/

/-- Insertion puts an entry before those that share its key. -/
theorem pairwise_orderedInsert_stable {a : α} {l : List α}
    (htotal : ∀ b ∈ l, r a b ∨ r b a) (htrans : ∀ b ∈ l, ∀ c ∈ l, r a b → r b c → r a c)
    (htie : ∀ b ∈ l, tie a b) (h : l.Pairwise fun b c => r b c ∧ (r c b → tie b c)) :
    (l.orderedInsert r a).Pairwise fun b c => r b c ∧ (r c b → tie b c) := by
  induction l with
  | nil => exact pairwise_singleton _ a
  | cons b l ih =>
    have hhead := (pairwise_cons.mp h).1
    have htail := (pairwise_cons.mp h).2
    by_cases hab : r a b
    · rw [orderedInsert_cons_of_le r l hab]
      apply Pairwise.cons _ h
      intro c hc
      refine ⟨?_, fun _ => htie c hc⟩
      rcases mem_cons.mp hc with rfl | hc'
      · exact hab
      · exact htrans b mem_cons_self c hc hab (hhead c hc').1
    · rw [orderedInsert_of_not_le r l hab]
      apply Pairwise.cons
      · intro c hc
        rcases (mem_orderedInsert r).mp hc with rfl | hc
        · have hba : r b c := (htotal b mem_cons_self).resolve_left hab
          exact ⟨hba, fun hcb => absurd hcb hab⟩
        · exact hhead c hc
      · exact ih (fun c hc => htotal c (mem_cons_of_mem b hc))
          (fun c hc d hd => htrans c (mem_cons_of_mem b hc) d (mem_cons_of_mem b hd))
          (fun c hc => htie c (mem_cons_of_mem b hc)) htail

/-- A sorted list is in the order of the keys, and in the old order where keys are shared. -/
theorem pairwise_insertionSort_stable {l : List α}
    (htotal : ∀ a ∈ l, ∀ b ∈ l, r a b ∨ r b a)
    (htrans : ∀ a ∈ l, ∀ b ∈ l, ∀ c ∈ l, r a b → r b c → r a c) (htie : l.Pairwise tie) :
    (l.insertionSort r).Pairwise fun b c => r b c ∧ (r c b → tie b c) := by
  induction l with
  | nil => exact .nil
  | cons a l ih =>
    have hmem : ∀ b ∈ l.insertionSort r, b ∈ a :: l :=
      fun b hb => mem_cons_of_mem a ((mem_insertionSort r).mp hb)
    obtain ⟨hhead, htail⟩ := pairwise_cons.mp htie
    show ((l.insertionSort r).orderedInsert r a).Pairwise _
    apply pairwise_orderedInsert_stable
    · exact fun b hb => htotal a mem_cons_self b (hmem b hb)
    · exact fun b hb c hc => htrans a mem_cons_self b (hmem b hb) c (hmem c hc)
    · exact fun b hb => hhead b ((mem_insertionSort r).mp hb)
    · exact ih (fun b hb c hc => htotal b (mem_cons_of_mem a hb) c (mem_cons_of_mem a hc))
        (fun b hb c hc d hd => htrans b (mem_cons_of_mem a hb) c (mem_cons_of_mem a hc) d
          (mem_cons_of_mem a hd)) htail

/-! ## The first entries -/

variable {R : α → α → Prop} [DecidableRel R] {l : List α} {x : α} {n : Nat}

/-- An entry is among the first `n` if fewer than `n` entries are before it. -/
theorem mem_take_iff (h : l.Pairwise R) (hasymm : ∀ a ∈ l, ∀ b ∈ l, R a b → ¬ R b a) :
    x ∈ l.take n ↔ x ∈ l ∧ l.countP (R · x) < n := by
  induction l generalizing n with
  | nil => simp
  | cons y l ih =>
    obtain ⟨hhead, htail⟩ := pairwise_cons.mp h
    cases n with
    | zero => simp
    | succ n =>
      have ih := ih htail (fun a ha b hb => hasymm a (mem_cons_of_mem y ha) b (mem_cons_of_mem y hb))
        (n := n)
      rw [take_succ_cons, mem_cons, mem_cons, ih]
      by_cases hxy : x = y
      · -- nothing is before the first entry
        have hzero : (y :: l).countP (R · x) = 0 := by
          apply countP_eq_zero.mpr
          intro z hz hR
          subst hxy
          have hR : R z x := of_decide_eq_true hR
          have hR' : ¬ R x z := hasymm z hz x mem_cons_self hR
          rcases mem_cons.mp hz with rfl | hz
          · exact hR' hR
          · exact hR' (hhead z hz)
        rw [hzero]
        exact ⟨fun _ => ⟨.inl hxy, Nat.succ_pos n⟩, fun _ => .inl hxy⟩
      · have hcount (hx : x ∈ l) : (y :: l).countP (R · x) = l.countP (R · x) + 1 :=
          countP_cons_of_pos (decide_eq_true (hhead x hx))
        constructor
        · rintro (heq | ⟨hx, hlt⟩)
          · exact absurd heq hxy
          · exact ⟨.inr hx, by rw [hcount hx]; omega⟩
        · rintro ⟨hx, hlt⟩
          have hx := hx.resolve_left hxy
          rw [hcount hx] at hlt
          exact .inr ⟨hx, by omega⟩

/-- When the first `n` entries have a property, an entry is among them exactly if fewer than `n`
    entries with the property are before it. -/
theorem mem_take_iff_of_forall {p : α → Bool} (h : l.Pairwise R)
    (hasymm : ∀ a ∈ l, ∀ b ∈ l, R a b → ¬ R b a) (hp : ∀ a ∈ l.take n, p a) :
    x ∈ l.take n ↔ x ∈ l ∧ l.countP (fun a => p a && decide (R a x)) < n := by
  constructor
  · intro hx
    obtain ⟨hmem, hlt⟩ := (mem_take_iff h hasymm).mp hx
    refine ⟨hmem, lt_of_le_of_lt ?_ hlt⟩
    apply countP_mono_left
    intro a _ ha
    exact (Bool.and_eq_true_iff.mp ha).2
  · rintro ⟨hmem, hlt⟩
    by_contra hx
    have hlength : (l.take n).length = n := by
      rw [length_take, min_eq_left]
      by_contra hshort
      rw [take_of_length_le (by omega)] at hx
      exact hx hmem
    -- the entry comes after the first `n`, and these have the property
    have hdrop : x ∈ l.drop n := by
      rw [← take_append_drop n l, mem_append] at hmem
      exact hmem.resolve_left hx
    rw [← take_append_drop n l] at h hlt
    have hbefore := (pairwise_append.mp h).2.2
    have hall : (l.take n).countP (fun a => p a && decide (R a x)) = n := by
      rw [countP_eq_length.mpr, hlength]
      intro a ha
      rw [hp a ha, Bool.true_and]
      exact decide_eq_true (hbefore a ha x hdrop)
    rw [countP_append, hall] at hlt
    omega

/-! ## The first entries with a property -/

section Prefix

variable {p : α → Bool}

omit [DecidableRel R] in
/-- An entry that is not taken comes after those that are. -/
theorem rel_of_not_mem_take {y : α} (h : l.Pairwise R) (hx : x ∈ (l.takeWhile p).take n)
    (hy : y ∈ l) (hnot : y ∉ (l.takeWhile p).take n) : R x y := by
  have htake : (l.takeWhile p).take n <+: l.takeWhile p := take_prefix n _
  obtain ⟨rest, hrest⟩ := htake.trans <| takeWhile_prefix p
  rw [← hrest, mem_append] at hy
  rw [← hrest, pairwise_append] at h
  exact h.2.2 x hx y (hy.resolve_left hnot)

/-- Entries up to the first one without the property are taken, `n` at most. All with the property
    are among them, unless there are `n`, exactly if `n` entries come before every one without it
    that comes before one with it. -/
theorem forall_mem_take_iff (h : l.Pairwise R) (hasymm : ∀ a ∈ l, ∀ b ∈ l, R a b → ¬ R b a) :
    (((l.takeWhile p).take n).length < n → ∀ x ∈ l, p x → x ∈ (l.takeWhile p).take n) ↔
      ∀ y ∈ l, ¬ p y → ∀ x ∈ l, p x → R y x → n ≤ l.countP (R · y) := by
  have hall : ∀ a ∈ l.takeWhile p, p a := fun a ha => mem_takeWhile_imp ha
  constructor
  · intro hmem y hy hnot x hx hpx hyx
    by_contra hfew
    have hytake : y ∈ l.take n := (mem_take_iff h hasymm).mpr ⟨hy, by omega⟩
    -- the entries end before `y`, so fewer than `n` are taken
    have hshort : (l.takeWhile p).length < n := by
      by_contra hlong
      obtain ⟨rest, hrest⟩ := takeWhile_prefix (l := l) p
      rw [← hrest, take_append_of_le_length (by omega)] at hytake
      exact hnot (hall y (mem_of_mem_take hytake))
    have hxmem := hmem (by rw [length_take]; omega) x hx hpx
    have hxy : R x y := rel_of_not_mem_take h hxmem hy fun hymem =>
      hnot (hall y (mem_of_mem_take hymem))
    exact hasymm y hy x hx hyx hxy
  · intro hmany hshort x hx hpx
    by_contra hxnot
    rw [length_take] at hshort
    have hlength : (l.takeWhile p).length < n := by omega
    rw [take_of_length_le (by omega)] at hxnot
    have hsplit := takeWhile_append_dropWhile (p := p) (l := l)
    cases hdrop : l.dropWhile p with
    | nil =>
      rw [hdrop, append_nil] at hsplit
      rw [hsplit] at hxnot
      exact hxnot hx
    | cons y rest =>
      -- `y` is the first entry without the property, and `x` comes after it
      have hynot : ¬ p y := by
        have hhead := head?_dropWhile_not p l
        rw [hdrop] at hhead
        simpa using hhead
      rw [hdrop] at hsplit
      have hy : y ∈ l := hsplit ▸ mem_append_right _ mem_cons_self
      have hxrest : x ∈ rest := by
        rw [← hsplit, mem_append] at hx
        rcases mem_cons.mp (hx.resolve_left hxnot) with rfl | hx
        · exact absurd hpx hynot
        · exact hx
      have hpair := h
      rw [← hsplit] at hpair
      have hafter := (pairwise_cons.mp (pairwise_append.mp hpair).2.1).1
      have hn := hmany y hy hynot x hx hpx (hafter x hxrest)
      -- only the entries that are taken come before `y`
      have hzero : (y :: rest).countP (R · y) = 0 := by
        apply countP_eq_zero.mpr
        intro z hz hzy
        have hzy : R z y := of_decide_eq_true hzy
        have hzl : z ∈ l := hsplit ▸ mem_append_right _ hz
        rcases mem_cons.mp hz with rfl | hz
        · exact hasymm z hy z hy hzy hzy
        · exact hasymm z hzl y hy hzy (hafter z hz)
      have hcount : l.countP (R · y) ≤ (l.takeWhile p).length := by
        rw [← hsplit, countP_append, hzero, hsplit]
        exact countP_le_length
      omega

end Prefix

end Ranking
