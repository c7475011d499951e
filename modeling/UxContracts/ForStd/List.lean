import Mathlib.Algebra.GroupWithZero.Nat
import Mathlib.Algebra.Order.BigOperators.Group.List
import Mathlib.Algebra.Order.Group.Nat
import Mathlib.Logic.Function.Basic
import Mathlib.Tactic.Common

/-!
# List lemmas

Two ways to join lists so that the parts can be told apart: parts of one length, and parts
with a separator between them. An element that moves from one list to another stays in both
together. A sum over different places of a list is at most the sum over the list.
-/

namespace List

variable {α β : Type}

/-- Parts of one positive length can be told apart. -/
theorem flatMap_injective_of_length {f : α → List β} {n : Nat} (hn : 0 < n)
    (hlen : ∀ a, (f a).length = n) (hf : Function.Injective f) :
    Function.Injective fun l : List α => l.flatMap f := by
  have hne : ∀ a l, [] ≠ f a ++ l := by
    intro a l h
    have hlength := congrArg List.length h
    rw [List.length_append, hlen, List.length_nil] at hlength
    omega
  intro xs
  induction xs with
  | nil =>
    intro ys h
    cases ys with
    | nil => rfl
    | cons y ys => exact absurd (h.trans List.flatMap_cons) (hne y _)
  | cons x xs ih =>
    intro ys h
    cases ys with
    | nil => exact absurd (h.symm.trans List.flatMap_cons) (hne x _)
    | cons y ys =>
      have h : f x ++ xs.flatMap f = f y ++ ys.flatMap f := h
      obtain ⟨hhead, htail⟩ := List.append_inj h ((hlen x).trans (hlen y).symm)
      rw [hf hhead, ih htail]

/-- Parts without the separator can be told apart, if there is at least one. -/
theorem intercalate_singleton_inj [DecidableEq α] {sep : α} {xs ys : List (List α)}
    (hxs : xs ≠ []) (hys : ys ≠ []) (hx : ∀ l ∈ xs, sep ∉ l) (hy : ∀ l ∈ ys, sep ∉ l)
    (h : [sep].intercalate xs = [sep].intercalate ys) : xs = ys := by
  rw [← List.splitOn_intercalate sep hx hxs, h, List.splitOn_intercalate sep hy hys]

/-! ## Moving elements -/

/-- Erasing an element by one of its parts erases that part. -/
theorem map_eraseP [DecidableEq β] (f : α → β) (b : β) (l : List α) :
    (l.eraseP fun a => f a = b).map f = (l.map f).erase b := by
  rw [List.erase_eq_eraseP', List.eraseP_map]
  rfl

/-- What is erased from one list and added to the other one stays in both together. -/
theorem erase_append_concat_perm [DecidableEq α] {a : α} {l : List α} (h : a ∈ l) (l' : List α) :
    (l.erase a ++ (l' ++ [a])).Perm (l ++ l') := by
  have hfront : (l.erase a ++ (l' ++ [a])).Perm (a :: (l.erase a ++ l')) := by
    rw [← List.append_assoc]
    exact List.perm_append_comm
  exact hfront.trans ((List.perm_cons_erase h).symm.append_right l')

/-! ## Sums over places -/

/-- The values at the places of a list, and none after its end. -/
theorem map_range_elim (l : List β) (f : β → Nat) :
    ((List.range l.length).map fun i => l[i]?.elim 0 f) = l.map f := by
  apply List.ext_getElem
  · rw [List.length_map, List.length_map, List.length_range]
  · intro i hi hi'
    rw [List.length_map] at hi'
    rw [List.getElem_map, List.getElem_map, List.getElem_range, List.getElem?_eq_getElem hi']
    rfl

/-- What different places have is at most what the whole list has. -/
theorem sum_le_sum_of_places {l : List α} {m : List β} (place : α → Nat) {f : α → Nat}
    {g : β → Nat} (hnodup : (l.map place).Nodup)
    (h : ∀ a ∈ l, ∃ b, m[place a]? = some b ∧ f a = g b) : (l.map f).sum ≤ (m.map g).sum := by
  have hmap : l.map f = (l.map place).map fun i => m[i]?.elim 0 g := by
    rw [List.map_map]
    refine List.map_congr_left fun a ha => ?_
    obtain ⟨b, hb, heq⟩ := h a ha
    rw [Function.comp_apply, hb, heq]
    rfl
  have hsubset : l.map place ⊆ List.range m.length := by
    intro i hi
    obtain ⟨a, ha, rfl⟩ := List.mem_map.mp hi
    obtain ⟨b, hb, -⟩ := h a ha
    exact List.mem_range.mpr (List.getElem?_eq_some_iff.mp hb).1
  -- the places are some of all places, in another order
  obtain ⟨l', hperm, hsub⟩ := List.subperm_of_subset hnodup hsubset
  rw [hmap, ← (hperm.map _).sum_eq, ← map_range_elim m g]
  exact (hsub.map _).sum_le_sum fun n _ => Nat.zero_le n

end List
