import Mathlib.Data.Prod.Lex
import Mathlib.Algebra.BigOperators.Group.List.Basic
import Mathlib.Algebra.Order.BigOperators.Group.List
import Mathlib.Algebra.Order.Group.Int
import Mathlib.Tactic.Abel

/-!
# Finite tables in key order

A `Table K V` is a finite map whose rows are kept in increasing key order. The
order is carried as a proof field, so a table never holds two rows of one key
and two tables that answer every lookup alike are equal (`Table.ext_find?`).

`Table.sum f` adds `f` over all rows. The three laws that relate it to updates

* `sum_set`    setting a row adds the new value and takes the old one away
* `sum_erase`  erasing a row takes its value away
* `le_sum`     one row is at most the sum, when no row is negative

are what a conservation argument over an unbounded number of rows needs. `sumOn`
restricts the sum to the keys with a property, as the rows of one scope, and
`valueAt` reads one row, a missing row counting as zero.

`Scoped S K` is the key of a table that is split into scopes: rows are ordered
by scope first and by their key inside the scope second.
-/

/-! ## Keys with a scope -/

/-- A key inside a scope. -/
structure Scoped (S K : Type) where
  scope : S
  key : K
deriving DecidableEq, Repr

namespace Scoped

variable {S K : Type} [LinearOrder S] [LinearOrder K]

/-- Scopes are compared first, keys second. -/
instance : LinearOrder (Scoped S K) :=
  LinearOrder.lift' (fun p => toLex (p.scope, p.key)) (by
    rintro ⟨a, b⟩ ⟨c, d⟩ h
    simpa using h)

end Scoped

/-- A finite map with its rows in increasing key order. -/
structure Table (K V : Type) [LinearOrder K] where
  rows : List (K × V)
  sorted : rows.Pairwise (fun a b => a.1 < b.1)

namespace Table

variable {K V : Type} [LinearOrder K]

/-! ## Row lists -/

/-- The value stored under `k`. -/
def findRow (k : K) : List (K × V) → Option V
  | [] => none
  | r :: rs => if r.1 = k then some r.2 else findRow k rs

/-- Put `v` under `k`, replacing the row of `k` if there is one. -/
def setRow (k : K) (v : V) : List (K × V) → List (K × V)
  | [] => [(k, v)]
  | r :: rs =>
    if k < r.1 then (k, v) :: r :: rs
    else if r.1 = k then (k, v) :: rs
    else r :: setRow k v rs

/-- Drop the row of `k`. -/
def eraseRow (k : K) : List (K × V) → List (K × V)
  | [] => []
  | r :: rs => if r.1 = k then rs else r :: eraseRow k rs

/-- Every row of `setRow` is the new one or an old one. -/
theorem mem_setRow {k : K} {v : V} {r : K × V} {l : List (K × V)}
    (h : r ∈ setRow k v l) : r = (k, v) ∨ r ∈ l := by
  induction l with
  | nil => simpa [setRow] using h
  | cons x xs ih =>
    simp only [setRow] at h
    split at h
    · simpa using h
    · split at h
      · rcases List.mem_cons.mp h with h | h
        · exact .inl h
        · exact .inr (List.mem_cons_of_mem _ h)
      · rcases List.mem_cons.mp h with rfl | h
        · exact .inr List.mem_cons_self
        · exact (ih h).imp_right (List.mem_cons_of_mem _)

/-- `setRow` keeps the key order. -/
theorem sorted_setRow (k : K) (v : V) {l : List (K × V)}
    (h : l.Pairwise (fun a b => a.1 < b.1)) :
    (setRow k v l).Pairwise (fun a b => a.1 < b.1) := by
  induction l with
  | nil => simp [setRow]
  | cons x xs ih =>
    rw [List.pairwise_cons] at h
    simp only [setRow]
    split
    · rename_i hlt
      refine List.pairwise_cons.mpr ⟨?_, List.pairwise_cons.mpr h⟩
      intro r hr
      rcases List.mem_cons.mp hr with rfl | hr
      · exact hlt
      · exact hlt.trans (h.1 r hr)
    · split
      · rename_i heq
        exact List.pairwise_cons.mpr ⟨fun r hr => heq ▸ h.1 r hr, h.2⟩
      · rename_i hnlt hne
        refine List.pairwise_cons.mpr ⟨fun r hr => ?_, ih h.2⟩
        rcases mem_setRow hr with rfl | hr
        · exact lt_of_le_of_ne (not_lt.mp hnlt) hne
        · exact h.1 r hr

/-- Erasing only leaves rows out. -/
theorem eraseRow_sublist (k : K) (l : List (K × V)) : (eraseRow k l).Sublist l := by
  induction l with
  | nil => exact .slnil
  | cons x xs ih =>
    simp only [eraseRow]
    split
    · exact List.sublist_cons_self x xs
    · exact ih.cons_cons x

/-! ## Operations -/

/-- The table without rows. -/
def empty : Table K V := ⟨[], .nil⟩

instance : EmptyCollection (Table K V) := ⟨empty⟩

instance : Inhabited (Table K V) := ⟨empty⟩

instance [DecidableEq V] : DecidableEq (Table K V) := fun a b =>
  decidable_of_iff (a.rows = b.rows) (by cases a; cases b; simp)

/-- The row of `k`, if there is one. -/
def find? (t : Table K V) (k : K) : Option V := findRow k t.rows

/-- Insert or replace the row of `k`. -/
def set (t : Table K V) (k : K) (v : V) : Table K V :=
  ⟨setRow k v t.rows, sorted_setRow k v t.sorted⟩

/-- Remove the row of `k`. -/
def erase (t : Table K V) (k : K) : Table K V :=
  ⟨eraseRow k t.rows, t.sorted.sublist (eraseRow_sublist k t.rows)⟩

/-- Store the row of `k`, or remove it if it has become empty. -/
def put (t : Table K V) (k : K) (v : V) (isEmpty : Bool) : Table K V :=
  if isEmpty then t.erase k else t.set k v

/-- The keys in increasing order. -/
def keys (t : Table K V) : List K := t.rows.map Prod.fst

/-- The values in key order. -/
def values (t : Table K V) : List V := t.rows.map Prod.snd

/-- Number of rows. -/
def size (t : Table K V) : Nat := t.rows.length

/-- The row with the greatest key. -/
def last? (t : Table K V) : Option (K × V) := t.rows.getLast?

/-- The sum of `f` over all rows. -/
def sum {M : Type} [AddCommMonoid M] (t : Table K V) (f : K → V → M) : M :=
  (t.rows.map fun r => f r.1 r.2).sum

/-! ## Lookups after updates -/

/-- The empty table has no rows. -/
@[simp] theorem find?_empty (k : K) : (∅ : Table K V).find? k = none := rfl

/-- The empty table lists no rows. -/
@[simp] theorem rows_empty : (∅ : Table K V).rows = [] := rfl

/-- A row that is set is found, and the others as before. -/
private theorem findRow_setRow (k k' : K) (v : V) (l : List (K × V)) :
    findRow k' (setRow k v l) = if k' = k then some v else findRow k' l := by
  induction l with
  | nil => simp [setRow, findRow, eq_comm]
  | cons x xs ih =>
    simp only [setRow]
    split
    · simp only [findRow, eq_comm]
    · split
      · rename_i heq
        by_cases hk : k' = k
        · simp [findRow, hk]
        · simp [findRow, hk, heq, Ne.symm hk]
      · rename_i hne
        simp only [findRow, ih]
        by_cases hk : k' = k
        · subst hk; simp [hne]
        · simp [hk]

/-- What a lookup finds after a row is set. -/
theorem find?_set (t : Table K V) (k k' : K) (v : V) :
    (t.set k v).find? k' = if k' = k then some v else t.find? k' :=
  findRow_setRow k k' v t.rows

/-- The row that is set is found. -/
@[simp] theorem find?_set_self (t : Table K V) (k : K) (v : V) :
    (t.set k v).find? k = some v := by
  rw [find?_set, if_pos rfl]

/-- The other rows are found as before. -/
theorem find?_set_ne (t : Table K V) {k k' : K} (v : V) (h : k' ≠ k) :
    (t.set k v).find? k' = t.find? k' := by
  rw [find?_set, if_neg h]

/-- A key that no row has is not found. -/
private theorem findRow_eq_none {k : K} {l : List (K × V)} (h : ∀ r ∈ l, r.1 ≠ k) :
    findRow k l = none := by
  induction l with
  | nil => rfl
  | cons x xs ih =>
    rw [findRow, if_neg (h x List.mem_cons_self)]
    exact ih fun r hr => h r (List.mem_cons_of_mem _ hr)

/-- A row that is erased is not found, and the others as before. -/
private theorem findRow_eraseRow (k k' : K) {l : List (K × V)}
    (hs : l.Pairwise (fun a b => a.1 < b.1)) :
    findRow k' (eraseRow k l) = if k' = k then none else findRow k' l := by
  induction l with
  | nil => simp [eraseRow, findRow]
  | cons x xs ih =>
    rw [List.pairwise_cons] at hs
    simp only [eraseRow]
    split
    · rename_i heq
      by_cases hk : k' = k
      · subst hk
        rw [if_pos rfl]
        exact findRow_eq_none fun r hr => (heq ▸ hs.1 r hr).ne'
      · simp [findRow, hk, heq, Ne.symm hk]
    · rename_i hne
      simp only [findRow, ih hs.2]
      by_cases hk : k' = k
      · subst hk; simp [hne]
      · simp [hk]

/-- What a lookup finds after a row is erased. -/
theorem find?_erase (t : Table K V) (k k' : K) :
    (t.erase k).find? k' = if k' = k then none else t.find? k' :=
  findRow_eraseRow k k' t.sorted

/-- The row that is erased is not found. -/
@[simp] theorem find?_erase_self (t : Table K V) (k : K) : (t.erase k).find? k = none := by
  rw [find?_erase, if_pos rfl]

/-- The other rows are found as before. -/
theorem find?_erase_ne (t : Table K V) {k k' : K} (h : k' ≠ k) :
    (t.erase k).find? k' = t.find? k' := by
  rw [find?_erase, if_neg h]

/-- The rows of other keys are found as before. -/
theorem find?_put_ne (t : Table K V) {k k' : K} (v : V) (isEmpty : Bool) (h : k' ≠ k) :
    (t.put k v isEmpty).find? k' = t.find? k' := by
  unfold put
  split
  · exact find?_erase_ne t h
  · exact find?_set_ne t v h

/-- A row after `put` is the new one or one of another key. -/
theorem of_find?_put {t : Table K V} {k k' : K} {v v' : V} {isEmpty : Bool}
    (h : (t.put k v isEmpty).find? k' = some v') :
    (k' = k ∧ v' = v ∧ isEmpty = false) ∨ (k' ≠ k ∧ t.find? k' = some v') := by
  by_cases hk : k' = k
  · subst hk
    unfold put at h
    cases isEmpty with
    | true => simp at h
    | false =>
      simp only [Bool.false_eq_true, if_false, find?_set_self, Option.some.injEq] at h
      exact .inl ⟨rfl, h.symm, rfl⟩
  · exact .inr ⟨hk, find?_put_ne t v isEmpty hk ▸ h⟩

/-! ## Rows and lookups -/

/-- In a sorted list the rows are what lookups find. -/
private theorem mem_iff_findRow {k : K} {v : V} {l : List (K × V)}
    (hs : l.Pairwise (fun a b => a.1 < b.1)) : (k, v) ∈ l ↔ findRow k l = some v := by
  induction l with
  | nil => simp [findRow]
  | cons x xs ih =>
    obtain ⟨a, b⟩ := x
    rw [List.pairwise_cons] at hs
    rw [List.mem_cons, ih hs.2, findRow]
    by_cases hk : a = k
    · subst hk
      have hnone : findRow a xs = none := findRow_eq_none fun r hr => (hs.1 r hr).ne'
      simp [hnone, eq_comm]
    · simp [hk, Ne.symm hk]

/-- The rows of a table are what lookups find. -/
theorem mem_rows {t : Table K V} {k : K} {v : V} : (k, v) ∈ t.rows ↔ t.find? k = some v :=
  mem_iff_findRow t.sorted

/-- The keys of a table are those with a row. -/
theorem mem_keys {t : Table K V} {k : K} : k ∈ t.keys ↔ (t.find? k).isSome := by
  simp only [keys, List.mem_map, Option.isSome_iff_exists]
  constructor
  · rintro ⟨⟨a, v⟩, hr, rfl⟩
    exact ⟨v, mem_rows.mp hr⟩
  · rintro ⟨v, hv⟩
    exact ⟨(k, v), mem_rows.mpr hv, rfl⟩

/-- No key has two rows. -/
theorem nodup_keys (t : Table K V) : t.keys.Nodup :=
  List.pairwise_map.mpr (t.sorted.imp fun h => h.ne)

/-- The last row has the greatest key. -/
theorem last?_eq_some {t : Table K V} {k : K} {v : V} :
    t.last? = some (k, v) ↔ t.find? k = some v ∧ ∀ k' v', t.find? k' = some v' → k' ≤ k := by
  have hmax : ∀ {k v}, t.last? = some (k, v) → ∀ k' v', t.find? k' = some v' → k' ≤ k := by
    intro k v h k' v' hk'
    obtain ⟨l, hl⟩ := List.getLast?_eq_some_iff.mp h
    have hmem := mem_rows.mpr hk'
    have hs := t.sorted
    rw [hl, List.pairwise_append] at hs
    rw [hl, List.mem_append, List.mem_singleton] at hmem
    rcases hmem with hmem | heq
    · exact (hs.2.2 _ hmem _ List.mem_cons_self).le
    · exact (congrArg Prod.fst heq).le
  constructor
  · intro h
    exact ⟨mem_rows.mp (List.mem_of_getLast? h), hmax h⟩
  · rintro ⟨hk, hle⟩
    cases hlast : t.last? with
    | none =>
      have hmem := mem_rows.mpr hk
      rw [List.getLast?_eq_none_iff.mp hlast] at hmem
      cases hmem
    | some r =>
      obtain ⟨k', v'⟩ := r
      have hk' := mem_rows.mp (List.mem_of_getLast? hlast)
      obtain rfl := le_antisymm (hle k' v' hk') (hmax hlast k v hk)
      rw [hk, Option.some.injEq] at hk'
      rw [hk']

/-- Only an empty table has no last row. -/
theorem last?_eq_none {t : Table K V} : t.last? = none ↔ t.rows = [] :=
  List.getLast?_eq_none_iff

/-- Two tables that answer every lookup alike are equal. -/
theorem ext_find? {s t : Table K V} (h : ∀ k, s.find? k = t.find? k) : s = t := by
  have hmem : ∀ r, r ∈ s.rows ↔ r ∈ t.rows := by
    rintro ⟨k, v⟩
    rw [mem_rows, mem_rows, h]
  have hnodup : ∀ u : Table K V, u.rows.Nodup := fun u =>
    u.sorted.imp fun hlt heq => hlt.ne (congrArg Prod.fst heq)
  have hperm : s.rows.Perm t.rows := (List.perm_ext_iff_of_nodup (hnodup s) (hnodup t)).mpr hmem
  have heq : s.rows = t.rows :=
    hperm.eq_of_pairwise (fun a b _ _ hab hba => absurd (hab.trans hba) (lt_irrefl _)) s.sorted
      t.sorted
  cases s; cases t; simpa using heq

/-! ## Sums over the rows -/

section Sum

variable {M : Type} [AddCommGroup M]

/-- The empty table sums up to zero. -/
@[simp] theorem sum_empty (f : K → V → M) : (∅ : Table K V).sum f = 0 := rfl

/-- Setting a row replaces its summand. -/
private theorem sum_setRow (k : K) (v : V) (f : K → V → M) {l : List (K × V)}
    (hs : l.Pairwise (fun a b => a.1 < b.1)) :
    ((setRow k v l).map fun r => f r.1 r.2).sum =
      (l.map fun r => f r.1 r.2).sum - (findRow k l).elim 0 (f k) + f k v := by
  induction l with
  | nil => simp [setRow, findRow]
  | cons x xs ih =>
    rw [List.pairwise_cons] at hs
    simp only [setRow]
    split
    · rename_i hlt
      have hnone : findRow k (x :: xs) = none := by
        refine findRow_eq_none fun r hr => ?_
        rcases List.mem_cons.mp hr with rfl | hr
        · exact hlt.ne'
        · exact (hlt.trans (hs.1 r hr)).ne'
      simp only [hnone, List.map_cons, List.sum_cons, Option.elim_none]
      abel
    · split
      · rename_i heq
        subst heq
        simp only [findRow, List.map_cons, List.sum_cons, if_true, Option.elim_some]
        abel
      · rename_i hne
        simp only [findRow, List.map_cons, List.sum_cons, if_neg hne, ih hs.2]
        abel

/-- Setting a row adds the new value and takes the replaced one away. -/
theorem sum_set (t : Table K V) (k : K) (v : V) (f : K → V → M) :
    (t.set k v).sum f = t.sum f - (t.find? k).elim 0 (f k) + f k v :=
  sum_setRow k v f t.sorted

/-- Erasing a row takes its summand away. -/
private theorem sum_eraseRow (k : K) (f : K → V → M) (l : List (K × V)) :
    ((eraseRow k l).map fun r => f r.1 r.2).sum =
      (l.map fun r => f r.1 r.2).sum - (findRow k l).elim 0 (f k) := by
  induction l with
  | nil => simp [eraseRow, findRow]
  | cons x xs ih =>
    simp only [eraseRow, findRow]
    split
    · rename_i heq
      subst heq
      simp
    · simp only [List.map_cons, List.sum_cons, ih]
      abel

/-- Erasing a row takes its value away. -/
theorem sum_erase (t : Table K V) (k : K) (f : K → V → M) :
    (t.erase k).sum f = t.sum f - (t.find? k).elim 0 (f k) :=
  sum_eraseRow k f t.rows

end Sum

section SumOn

variable {M : Type} [AddCommGroup M]

/-- The sum of `f` over the rows whose key has the property `p`. -/
def sumOn (t : Table K V) (p : K → Prop) [DecidablePred p] (f : V → M) : M :=
  t.sum fun k v => if p k then f v else 0

/-- The value `f` takes at the row of `k`; a missing row counts as zero. -/
def valueAt (t : Table K V) (k : K) (f : V → M) : M := (t.find? k).elim 0 f

/-- The value at a key with a row. -/
theorem valueAt_some {t : Table K V} {k : K} {v : V} (h : t.find? k = some v) (f : V → M) :
    t.valueAt k f = f v := by
  rw [valueAt, h, Option.elim_some]

/-- The value at a key without a row is zero. -/
theorem valueAt_none {t : Table K V} {k : K} (h : t.find? k = none) (f : V → M) :
    t.valueAt k f = 0 := by
  rw [valueAt, h, Option.elim_none]

/-- The values of the empty table are zero. -/
@[simp] theorem valueAt_empty (k : K) (f : V → M) : (∅ : Table K V).valueAt k f = 0 := rfl

/-- A part of the empty table sums up to zero. -/
@[simp] theorem sumOn_empty (p : K → Prop) [DecidablePred p] (f : V → M) :
    (∅ : Table K V).sumOn p f = 0 := rfl

/-- The values after a row is set. -/
theorem valueAt_set (t : Table K V) (k k' : K) (v : V) (f : V → M) :
    (t.set k v).valueAt k' f = if k' = k then f v else t.valueAt k' f := by
  unfold valueAt
  rw [find?_set]
  split <;> rfl

/-- The values at other keys stay. -/
theorem valueAt_set_ne (t : Table K V) {k k' : K} (v : V) (h : k' ≠ k) (f : V → M) :
    (t.set k v).valueAt k' f = t.valueAt k' f := by
  rw [valueAt_set, if_neg h]

/-- The values after a row is erased. -/
theorem valueAt_erase (t : Table K V) (k k' : K) (f : V → M) :
    (t.erase k).valueAt k' f = if k' = k then 0 else t.valueAt k' f := by
  unfold valueAt
  rw [find?_erase]
  split <;> rfl

/-- A condition on the value of an optional row may be asked first. -/
private theorem elim_ite (o : Option V) (c : Prop) [Decidable c] (f : V → M) :
    (o.elim 0 fun v => if c then f v else 0) = if c then o.elim 0 f else 0 := by
  cases o <;> simp

/-- Setting a row changes the sums its key belongs to by the change of its value. -/
theorem sumOn_set (t : Table K V) (k : K) (v : V) (p : K → Prop) [DecidablePred p] (f : V → M) :
    (t.set k v).sumOn p f = t.sumOn p f + if p k then f v - t.valueAt k f else 0 := by
  rw [sumOn, sum_set, elim_ite]
  simp only [sumOn, valueAt]
  split
  · abel
  · abel

/-- Erasing a row takes its value out of the sums its key belongs to. -/
theorem sumOn_erase (t : Table K V) (k : K) (p : K → Prop) [DecidablePred p] (f : V → M) :
    (t.erase k).sumOn p f = t.sumOn p f - if p k then t.valueAt k f else 0 := by
  rw [sumOn, sum_erase, elim_ite]
  rfl

/-- Storing a row, where an empty row has no value. -/
theorem valueAt_put (t : Table K V) (k k' : K) (v : V) {isEmpty : Bool} {f : V → M}
    (h : isEmpty = true → f v = 0) :
    (t.put k v isEmpty).valueAt k' f = if k' = k then f v else t.valueAt k' f := by
  unfold put
  split
  · rename_i he
    rw [valueAt_erase, h he]
  · rw [valueAt_set]

/-- Storing a row changes the sums its key belongs to by the change of its value. -/
theorem sumOn_put (t : Table K V) (k : K) (v : V) {isEmpty : Bool} (p : K → Prop)
    [DecidablePred p] {f : V → M} (h : isEmpty = true → f v = 0) :
    (t.put k v isEmpty).sumOn p f = t.sumOn p f + if p k then f v - t.valueAt k f else 0 := by
  unfold put
  split
  · rename_i he
    rw [sumOn_erase, h he]
    split
    · abel
    · abel
  · rw [sumOn_set]

end SumOn

/-- Sums of functions that agree on the rows are equal. -/
theorem sum_congr {M : Type} [AddCommMonoid M] {t : Table K V} {f g : K → V → M}
    (h : ∀ k v, t.find? k = some v → f k v = g k v) : t.sum f = t.sum g := by
  unfold sum
  congr 1
  exact List.map_congr_left fun r hr => h r.1 r.2 (mem_rows.mp hr)

/-- Setting a row when the function has changed for its key alone. -/
theorem sum_set_of_ne {M : Type} [AddCommGroup M] (t : Table K V) {k : K} {v : V}
    {f g : K → V → M} (h : ∀ k' v', k' ≠ k → g k' v' = f k' v') :
    (t.set k v).sum g = t.sum f - (t.find? k).elim 0 (f k) + g k v := by
  have herase : (t.erase k).sum g = (t.erase k).sum f := by
    apply sum_congr
    intro k' v' hk'
    apply h
    rintro rfl
    rw [find?_erase, if_pos rfl] at hk'
    cases hk'
  rw [sum_erase, sum_erase] at herase
  rw [sum_set, herase]

/-- A sum of differences is the difference of the sums. -/
theorem sum_sub {M : Type} [AddCommGroup M] (t : Table K V) (f g : K → V → M) :
    t.sum (fun k v => f k v - g k v) = t.sum f - t.sum g := by
  unfold sum
  induction t.rows with
  | nil => simp
  | cons r rs ih =>
    simp only [List.map_cons, List.sum_cons, ih]
    abel

/-- A sum over keys without rows is zero. -/
theorem sumOn_eq_zero {M : Type} [AddCommGroup M] {t : Table K V} {p : K → Prop}
    [DecidablePred p] {f : V → M} (h : ∀ k v, t.find? k = some v → ¬ p k) :
    t.sumOn p f = 0 := by
  have hzero : ∀ k v, t.find? k = some v → (if p k then f v else 0) = 0 := by
    intro k v hk
    rw [if_neg (h k v hk)]
  rw [sumOn, sum_congr hzero, sum]
  simp

/-- A sum without negative summands is not negative. -/
theorem sum_nonneg {M : Type} [AddCommMonoid M] [PartialOrder M] [IsOrderedAddMonoid M]
    {t : Table K V} {f : K → V → M} (h : ∀ k v, t.find? k = some v → 0 ≤ f k v) :
    0 ≤ t.sum f := by
  refine List.sum_nonneg fun x hx => ?_
  obtain ⟨r, hr, rfl⟩ := List.mem_map.mp hx
  exact h r.1 r.2 (mem_rows.mp hr)

/-- One row is at most the sum, when no summand is negative. -/
theorem le_sum {M : Type} [AddCommMonoid M] [PartialOrder M] [IsOrderedAddMonoid M]
    {t : Table K V} {f : K → V → M} {k : K} {v : V} (h : ∀ k v, t.find? k = some v → 0 ≤ f k v)
    (hk : t.find? k = some v) : f k v ≤ t.sum f := by
  refine List.single_le_sum (fun x hx => ?_) _ (List.mem_map.mpr ⟨(k, v), mem_rows.mpr hk, rfl⟩)
  obtain ⟨r, hr, rfl⟩ := List.mem_map.mp hx
  exact h r.1 r.2 (mem_rows.mp hr)

/-- There are at most as many rows as the sum, when every row counts. -/
theorem size_le_sum {t : Table K V} {f : K → V → Int}
    (h : ∀ k v, t.find? k = some v → 1 ≤ f k v) : (t.size : Int) ≤ t.sum f := by
  have hle : ((t.rows.map fun r => f r.1 r.2).length • 1 : Int) ≤
      (t.rows.map fun r => f r.1 r.2).sum := by
    refine List.card_nsmul_le_sum _ 1 fun x hx => ?_
    obtain ⟨r, hr, rfl⟩ := List.mem_map.mp hx
    exact h r.1 r.2 (mem_rows.mp hr)
  rw [List.length_map, nsmul_one] at hle
  exact hle

section OrderedSums

variable {t : Table K V} {p : K → Prop} [DecidablePred p] {f : V → Int}

/-- A value is not negative when no row's is. -/
theorem valueAt_nonneg (h : ∀ k v, t.find? k = some v → 0 ≤ f v) (k : K) :
    0 ≤ t.valueAt k f := by
  cases hk : t.find? k with
  | none => rw [valueAt_none hk]
  | some v => rw [valueAt_some hk]; exact h k v hk

/-- A condition keeps a value from being negative. -/
private theorem ite_nonneg (h : ∀ k v, t.find? k = some v → 0 ≤ f v) (k : K) (v : V)
    (hk : t.find? k = some v) : 0 ≤ if p k then f v else 0 := by
  have hv := h k v hk
  split
  · exact hv
  · exact le_refl 0

/-- A sum of non-negative values is not negative. -/
theorem sumOn_nonneg (h : ∀ k v, t.find? k = some v → 0 ≤ f v) : 0 ≤ t.sumOn p f :=
  sum_nonneg (ite_nonneg h)

/-- The value of one row is at most a sum its key belongs to, when no value is negative. -/
theorem valueAt_le_sumOn (h : ∀ k v, t.find? k = some v → 0 ≤ f v) {k : K} (hk : p k) :
    t.valueAt k f ≤ t.sumOn p f := by
  cases hfind : t.find? k with
  | none => rw [valueAt_none hfind]; exact sumOn_nonneg h
  | some v =>
    have hle := le_sum (ite_nonneg (p := p) h) hfind
    rwa [if_pos hk, ← valueAt_some hfind f] at hle

/-- The values of different rows together are at most the sum, when no value is negative. -/
theorem sum_valueAt_le {l : List K} (hl : l.Nodup) (h : ∀ k v, t.find? k = some v → 0 ≤ f v) :
    (l.map fun k => t.valueAt k f).sum ≤ t.sum fun _ v => f v := by
  induction l generalizing t with
  | nil => exact sum_nonneg h
  | cons k l ih =>
    obtain ⟨hk, hl⟩ := List.nodup_cons.mp hl
    have hrest : (l.map fun k' => t.valueAt k' f) = l.map fun k' => (t.erase k).valueAt k' f := by
      apply List.map_congr_left
      intro k' hk'
      rw [valueAt_erase, if_neg]
      rintro rfl
      exact hk hk'
    have hle := ih (t := t.erase k) hl fun k' v hv => by
      rw [find?_erase] at hv
      split at hv
      · cases hv
      · exact h k' v hv
    have herase : (t.erase k).sum (fun _ v => f v) = t.sum (fun _ v => f v) - t.valueAt k f :=
      sum_erase t k fun _ v => f v
    rw [List.map_cons, List.sum_cons, hrest]
    omega

/-- Two rows of a sum together are at most the sum, when no value is negative. -/
theorem valueAt_add_le_sumOn (h : ∀ k v, t.find? k = some v → 0 ≤ f v) {k k' : K} (hk : p k)
    (hk' : p k') (hne : k' ≠ k) : t.valueAt k f + t.valueAt k' f ≤ t.sumOn p f := by
  -- what is left after the first row is taken out still contains the second
  have hsum := sumOn_erase t k p f
  have hnonneg : ∀ j v, (t.erase k).find? j = some v → 0 ≤ f v := by
    intro j v hj
    rw [find?_erase] at hj
    split at hj
    · cases hj
    · exact h j v hj
  have hle := valueAt_le_sumOn (p := p) hnonneg hk'
  rw [valueAt_erase, if_neg hne] at hle
  rw [if_pos hk] at hsum
  omega

end OrderedSums

/-- A row with the greatest key is set at the end. -/
private theorem setRow_append {k : K} {v : V} {l : List (K × V)} (h : ∀ r ∈ l, r.1 < k) :
    setRow k v l = l ++ [(k, v)] := by
  induction l with
  | nil => rfl
  | cons r rs ih =>
    have hr := h r List.mem_cons_self
    rw [setRow, if_neg hr.not_gt, if_neg hr.ne, ih fun r' hr' => h r' (List.mem_cons_of_mem _ hr')]
    rfl

/-- A row with a greater key than all others is added at the end. -/
theorem rows_set_end (t : Table K V) {k : K} (v : V) (h : ∀ k' v', t.find? k' = some v' → k' < k) :
    (t.set k v).rows = t.rows ++ [(k, v)] :=
  setRow_append fun r hr => h r.1 r.2 (mem_rows.mp hr)

/-- The second of two rows under one key stays. -/
theorem set_set (t : Table K V) (k : K) (v v' : V) : (t.set k v).set k v' = t.set k v' := by
  refine ext_find? fun k' => ?_
  rw [find?_set, find?_set, find?_set]
  split <;> rfl

/-! ## Numbered rows -/

section Numbered

variable {V : Type} {t : Table Nat V} {n : Nat}

/-- The keys are the numbers below `n`. -/
def IsSeq (t : Table Nat V) (n : Nat) : Prop := ∀ k, (t.find? k).isSome ↔ k < n

/-- The empty table is the sequence of length zero. -/
theorem isSeq_empty : IsSeq (∅ : Table Nat V) 0 := by
  intro k
  rw [find?_empty]
  simp

/-- A row is added at the end. -/
theorem IsSeq.set_end (h : IsSeq t n) (v : V) : IsSeq (t.set n v) (n + 1) := by
  intro k
  rw [find?_set]
  split
  · rename_i hk
    simp [hk]
  · rename_i hk
    rw [h k]
    omega

/-- The last row is the one with the greatest number. -/
theorem IsSeq.last?_succ (h : IsSeq t (n + 1)) :
    ∃ v, t.find? n = some v ∧ t.last? = some (n, v) := by
  obtain ⟨v, hv⟩ := Option.isSome_iff_exists.mp ((h n).mpr (Nat.lt_succ_self n))
  refine ⟨v, hv, last?_eq_some.mpr ⟨hv, fun k v' hk => ?_⟩⟩
  have hlt := (h k).mp (by rw [hk]; rfl)
  omega

/-- A table of no rows is empty. -/
theorem eq_empty_of_size {t : Table K V} (h : t.size = 0) : t = ∅ := by
  obtain ⟨rows, sorted⟩ := t
  have hrows : rows = [] := List.eq_nil_of_length_eq_zero h
  subst hrows
  rfl

/-- A row after the last one is one more row. -/
theorem size_set_succ {k : Nat} {last : V} (v : V) (h : t.last? = some (k, last)) :
    (t.set (k + 1) v).size = t.size + 1 := by
  obtain ⟨-, hle⟩ := last?_eq_some.mp h
  unfold size
  rw [rows_set_end t v fun k' v' hk' => Nat.lt_succ_of_le (hle k' v' hk')]
  simp

/-- A row after the last one is the last one now. -/
theorem last?_set_succ {k : Nat} {last : V} (v : V) (h : t.last? = some (k, last)) :
    (t.set (k + 1) v).last? = some (k + 1, v) := by
  obtain ⟨-, hle⟩ := last?_eq_some.mp h
  refine last?_eq_some.mpr ⟨find?_set_self _ _ _, fun k' v' hk' => ?_⟩
  rw [find?_set] at hk'
  split at hk'
  · rename_i he
    exact he.le
  · exact (hle k' v' hk').trans (Nat.le_succ k)

end Numbered

/-! ## Secondary indices -/

section FindBy

variable {V I : Type} [DecidableEq I] {t : Table Nat V} {index : V → I} {value : I}

/-- The first row with this value of an index; rows of one value are in the order of their ids. -/
def findBy (t : Table Nat V) (index : V → I) (value : I) : Option (Nat × V) :=
  t.rows.find? fun r => index r.2 = value

/-- What is found is a row with the value. -/
theorem of_findBy {id : Nat} {v : V} (h : t.findBy index value = some (id, v)) :
    t.find? id = some v ∧ index v = value := by
  have hmem := List.mem_of_find?_eq_some h
  have hval := List.find?_some h
  exact ⟨mem_rows.mp hmem, of_decide_eq_true hval⟩

/-- Nothing is found exactly if no row has the value. -/
theorem findBy_eq_none :
    t.findBy index value = none ↔ ∀ id v, t.find? id = some v → index v ≠ value := by
  unfold findBy
  rw [List.find?_eq_none]
  constructor
  · intro h id v hv heq
    exact h (id, v) (mem_rows.mpr hv) (decide_eq_true heq)
  · intro h r hr heq
    exact h r.1 r.2 (mem_rows.mp hr) (of_decide_eq_true heq)

/-- If the values of an index are all different, a row is found under its own. -/
theorem findBy_of_unique {id : Nat} {v : V} (hv : t.find? id = some v)
    (hunique : ∀ id' v', t.find? id' = some v' → index v' = index v → id' = id) :
    t.findBy index (index v) = some (id, v) := by
  cases hfind : t.findBy index (index v) with
  | none => exact absurd rfl (findBy_eq_none.mp hfind id v hv)
  | some r =>
    obtain ⟨id', v'⟩ := r
    obtain ⟨hv', heq⟩ := of_findBy hfind
    obtain rfl := hunique id' v' hv' heq
    rw [hv, Option.some.injEq] at hv'
    rw [hv']

end FindBy

end Table
