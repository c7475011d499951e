import Mathlib.Logic.Function.Basic
import Mathlib.Logic.Relation
import Mathlib.Data.List.Count

/-!
# Links without cycles

A function `next : α → Option α` links an element to at most one other. It has no cycle when
there is a rank that falls along every link (`Falls`), and such a rank survives two changes of a
link:

* `Acyclic.update_none`  a link is removed
* `Acyclic.update_some`  an element is linked to another one that has no link itself

Following the links from an element of a finite list takes at most `height` steps, which is
not more than the length of the list.
-/

namespace Chain

variable {α : Type} {next : α → Option α} {rank : α → Nat} {a b p : α}

def Link (next : α → Option α) (a b : α) : Prop := next a = some b

/-- Following the links from `a` leads to `b`. -/
abbrev Leads (next : α → Option α) : α → α → Prop := Relation.ReflTransGen (Link next)

/-- The rank falls along every link. -/
def Falls (next : α → Option α) (rank : α → Nat) : Prop := ∀ a b, next a = some b → rank b < rank a

def Acyclic (next : α → Option α) : Prop := ∃ rank, Falls next rank

/-- Without links there is no cycle. -/
theorem acyclic_of_none (h : ∀ a, next a = none) : Acyclic next := by
  refine ⟨fun _ => 0, fun a b hab => ?_⟩
  rw [h a] at hab
  cases hab

/-- The rank does not grow along a path. -/
theorem Falls.le_of_leads (h : Falls next rank) (hab : Leads next a b) :
    rank b ≤ rank a := by
  induction hab with
  | refl => exact Nat.le_refl _
  | tail _ hlink ih => exact Nat.le_trans (Nat.le_of_lt (h _ _ hlink)) ih

/-- What a link leads to does not lead back. -/
theorem Falls.not_leads (h : Falls next rank) (hab : next a = some b) :
    ¬ Leads next b a := fun hback =>
  Nat.not_le_of_lt (h a b hab) (h.le_of_leads hback)

/-- No path leads back to where it starts. -/
theorem Acyclic.not_transGen (h : Acyclic next) : ¬ Relation.TransGen (Link next) a a := by
  obtain ⟨rank, h⟩ := h
  intro hcycle
  obtain ⟨b, hlink, hback⟩ := Relation.TransGen.head'_iff.mp hcycle
  exact h.not_leads hlink hback

/-- An element without a link leads nowhere. -/
theorem eq_of_leads_of_none (h : next a = none) (hab : Leads next a b) :
    a = b := by
  rcases Relation.ReflTransGen.cases_head hab with heq | ⟨c, hlink, -⟩
  · exact heq
  · unfold Link at hlink
    rw [h] at hlink
    cases hlink

variable [DecidableEq α]

/-- Taking a link away makes no cycle. -/
theorem Acyclic.update_none (h : Acyclic next) (a : α) : Acyclic (Function.update next a none) := by
  obtain ⟨rank, h⟩ := h
  refine ⟨rank, fun x y hxy => ?_⟩
  by_cases hx : x = a
  · subst hx
    rw [Function.update_self] at hxy
    cases hxy
  · rw [Function.update_of_ne hx] at hxy
    exact h x y hxy

/-- The new end of the chain gets the least rank. -/
theorem Acyclic.update_some (h : Acyclic next) (hp : next p = none) (hne : a ≠ p) :
    Acyclic (Function.update next a (some p)) := by
  obtain ⟨rank, h⟩ := h
  refine ⟨fun x => if x = p then 0 else rank x + 1, fun x y hxy => ?_⟩
  by_cases hx : x = a
  · subst hx
    rw [Function.update_self, Option.some.injEq] at hxy
    subst hxy
    simp [hne]
  · rw [Function.update_of_ne hx] at hxy
    have hlt := h x y hxy
    have hxp : x ≠ p := by
      rintro rfl
      rw [hp] at hxy
      cases hxy
    simp only [if_neg hxp]
    split
    · exact Nat.succ_pos _
    · exact Nat.succ_lt_succ hlt

/-! ## Heights -/

omit [DecidableEq α]

/-- The number of elements that rank at most as high. -/
def height (keys : List α) (rank : α → Nat) (a : α) : Nat := keys.countP fun k => rank k ≤ rank a

/-- There are no more keys below than keys. -/
theorem height_le_length (keys : List α) (rank : α → Nat) (a : α) :
    height keys rank a ≤ keys.length :=
  List.countP_le_length

/-- The height falls with the rank. -/
theorem height_lt {keys : List α} (ha : a ∈ keys) (h : rank b < rank a) :
    height keys rank b < height keys rank a := by
  induction keys with
  | nil => cases ha
  | cons k keys ih =>
    have hmono : height keys rank b ≤ height keys rank a := by
      refine List.countP_mono_left fun x _ hx => ?_
      simp only [decide_eq_true_eq] at hx ⊢
      omega
    unfold height at ih hmono ⊢
    rw [List.countP_cons, List.countP_cons]
    rcases List.mem_cons.mp ha with rfl | ha
    · have hb : ¬ rank a ≤ rank b := by omega
      simp only [hb, Nat.le_refl, decide_true, decide_false, if_true, Bool.false_eq_true, if_false]
      omega
    · have hlt := ih ha
      by_cases hk : rank k ≤ rank b
      · have hk' : rank k ≤ rank a := by omega
        simp only [hk, hk', decide_true, if_true]
        omega
      · simp only [hk, decide_false, Bool.false_eq_true, if_false]
        omega

end Chain
