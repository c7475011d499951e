/-!
# Runs of a state machine with failing requests

A machine is a step function `σ → α → Except ε σ`: a request either produces the
next state or fails. A failed request leaves the state as it was, so every list of
requests is a run (`exec`) and a theorem about every list of requests is a theorem
about every run.

* `exec_induction`  what every accepted request preserves holds after every run
* `Meets`           every request of a run meets a condition in the state it is made in
* `exec_of_meets`   the induction rule for runs that meet a condition
* `exec_of_mem`     the rule for what one request of the run brings about
* `exec_of_sorted`  the rule for an invariant that speaks about the time of the last request
* `exec_rel`        the rule for a relation between the first and the last state
* `observed`        a step that keeps a record of what has happened next to the state
* `stateAt`         the state before each request of a run
* `stateAt_rel`     the rule for a relation between two states of a run
* `forall_stateAt_iff_meets`  the rule for a property that exactly the requests with `C` keep
* `exists_origin`   what holds now, and did not hold at the start, was brought about by a request
-/

namespace Run

variable {σ α ε γ : Type}

/-- The state after a request: unchanged if the request fails. -/
def next (step : σ → α → Except ε σ) (s : σ) (a : α) : σ :=
  match step s a with
  | .ok s' => s'
  | .error _ => s

/-- The state after a list of requests. -/
def exec (step : σ → α → Except ε σ) (s : σ) (as : List α) : σ :=
  as.foldl (next step) s

/-- A run without calls stays where it is. -/
@[simp] theorem exec_nil (step : σ → α → Except ε σ) (s : σ) : exec step s [] = s := rfl

/-- A run begins with its first call. -/
@[simp] theorem exec_cons (step : σ → α → Except ε σ) (s : σ) (a : α) (as : List α) :
    exec step s (a :: as) = exec step (next step s a) as := rfl

/-- A run of two parts runs one after the other. -/
theorem exec_append (step : σ → α → Except ε σ) (s : σ) (as bs : List α) :
    exec step s (as ++ bs) = exec step (exec step s as) bs :=
  List.foldl_append

/-- `next` is the new state of an accepted request. -/
theorem next_of_ok {step : σ → α → Except ε σ} {s s' : σ} {a : α} (h : step s a = .ok s') :
    next step s a = s' := by
  simp only [next, h]

/-- A request that leads to a state is accepted. -/
theorem isOk_of_ok {step : σ → α → Except ε σ} {s s' : σ} {a : α} (h : step s a = .ok s') :
    (step s a).isOk := by
  rw [h]
  rfl

/-- An accepted request leads to `next`. -/
theorem step_eq_next {step : σ → α → Except ε σ} {s : σ} {a : α} (h : (step s a).isOk) :
    step s a = .ok (next step s a) := by
  cases hs : step s a with
  | error e => rw [hs] at h; cases h
  | ok s' => rw [next_of_ok hs]

/-- `next` is the old state when the request fails. -/
theorem next_of_error {step : σ → α → Except ε σ} {s : σ} {a : α} {e : ε}
    (h : step s a = .error e) : next step s a = s := by
  simp only [next, h]

/-! ## Conditions on the requests of a run -/

/-- Every request of the run meets `C` in the state it is made in. -/
def Meets (step : σ → α → Except ε σ) (C : σ → α → Prop) : σ → List α → Prop
  | _, [] => True
  | s, a :: as => C s a ∧ Meets step C (next step s a) as

instance decidableMeets (step : σ → α → Except ε σ) (C : σ → α → Prop)
    [∀ s a, Decidable (C s a)] : (s : σ) → (as : List α) → Decidable (Meets step C s as)
  | _, [] => isTrue trivial
  | s, a :: as =>
    have := decidableMeets step C (next step s a) as
    inferInstanceAs (Decidable (C s a ∧ Meets step C (next step s a) as))

/-- A condition on the requests alone is met when every request has it. -/
theorem meets_of_forall {step : σ → α → Except ε σ} {C : α → Prop} {s : σ} {as : List α}
    (h : ∀ a ∈ as, C a) : Meets step (fun _ a => C a) s as := by
  induction as generalizing s with
  | nil => trivial
  | cons a as ih =>
    exact ⟨h a List.mem_cons_self, ih fun b hb => h b (List.mem_cons_of_mem _ hb)⟩

/-- A weaker condition is met as well. -/
theorem Meets.imp {step : σ → α → Except ε σ} {C D : σ → α → Prop}
    (hCD : ∀ s a, C s a → D s a) {s : σ} {as : List α} (h : Meets step C s as) :
    Meets step D s as := by
  induction as generalizing s with
  | nil => trivial
  | cons a as ih => exact ⟨hCD s a h.1, ih h.2⟩

/-- Two conditions that are met are met together. -/
theorem Meets.and {step : σ → α → Except ε σ} {C D : σ → α → Prop} {s : σ} {as : List α}
    (hC : Meets step C s as) (hD : Meets step D s as) :
    Meets step (fun s a => C s a ∧ D s a) s as := by
  induction as generalizing s with
  | nil => trivial
  | cons a as ih => exact ⟨⟨hC.1, hD.1⟩, ih hC.2 hD.2⟩

/-- The first requests meet a condition when all do. -/
theorem Meets.take {step : σ → α → Except ε σ} {C : σ → α → Prop} {s : σ} {as : List α}
    (h : Meets step C s as) (n : Nat) : Meets step C s (as.take n) := by
  induction as generalizing s n with
  | nil =>
    rw [List.take_nil]
    trivial
  | cons a as ih =>
    cases n with
    | zero => trivial
    | succ n => exact ⟨h.1, ih h.2 n⟩

/-- A condition is met by two runs in a row when each of them meets it. -/
theorem meets_append {step : σ → α → Except ε σ} {C : σ → α → Prop} {s : σ} {as bs : List α} :
    Meets step C s (as ++ bs) ↔ Meets step C s as ∧ Meets step C (exec step s as) bs := by
  induction as generalizing s with
  | nil => exact ⟨fun h => ⟨trivial, h⟩, fun h => h.2⟩
  | cons a as ih =>
    rw [List.cons_append, exec_cons, Meets, Meets, ih, and_assoc]

/-- What every accepted request that meets `C` preserves holds after every run that
    meets `C`. -/
theorem exec_of_meets {step : σ → α → Except ε σ} {C : σ → α → Prop} {I : σ → Prop}
    (hstep : ∀ s a s', I s → C s a → step s a = .ok s' → I s') {s : σ} (h0 : I s)
    {as : List α} (h : Meets step C s as) : I (exec step s as) := by
  induction as generalizing s with
  | nil => exact h0
  | cons a as ih =>
    refine ih ?_ h.2
    cases hs : step s a with
    | error e => rw [next_of_error hs]; exact h0
    | ok s' => rw [next_of_ok hs]; exact hstep s a s' h0 h.1 hs

/-- What an invariant of the run implies is met as well. -/
theorem Meets.of_invariant {step : σ → α → Except ε σ} {C D : σ → α → Prop} {I : σ → Prop}
    (hstep : ∀ s a s', I s → C s a → step s a = .ok s' → I s') (hD : ∀ s a, I s → D s a) {s : σ}
    (h0 : I s) {as : List α} (h : Meets step C s as) : Meets step D s as := by
  induction as generalizing s with
  | nil => trivial
  | cons a as ih =>
    refine ⟨hD s a h0, ih ?_ h.2⟩
    cases hs : step s a with
    | error e => rw [next_of_error hs]; exact h0
    | ok s' => rw [next_of_ok hs]; exact hstep s a s' h0 h.1 hs

/-- What every accepted request preserves holds after every run. -/
theorem exec_induction {step : σ → α → Except ε σ} {I : σ → Prop}
    (hstep : ∀ s a s', I s → step s a = .ok s' → I s') {s : σ} (h0 : I s) (as : List α) :
    I (exec step s as) :=
  exec_of_meets (C := fun _ _ => True) (fun s a s' hI _ h => hstep s a s' hI h) h0
    (meets_of_forall fun _ _ => trivial)

/-- The rule for a condition on the requests alone. -/
theorem exec_of_forall {step : σ → α → Except ε σ} {C : α → Prop} {I : σ → Prop}
    (hstep : ∀ s a s', I s → C a → step s a = .ok s' → I s') {s : σ} (h0 : I s)
    {as : List α} (h : ∀ a ∈ as, C a) : I (exec step s as) :=
  exec_of_meets (C := fun _ a => C a) (fun s a s' hI hC hs => hstep s a s' hI hC hs) h0
    (meets_of_forall h)

/-- What an accepted request brings about, and the others keep, holds after a run without
    failures that contains it. -/
theorem exec_of_mem {step : σ → α → Except ε σ} {C : α → Prop} {I : σ → Prop} {a : α}
    (hkeep : ∀ s b s', I s → C b → step s b = .ok s' → I s')
    (hnow : ∀ s s', step s a = .ok s' → I s') {s : σ} {as : List α} (ha : a ∈ as)
    (hC : ∀ b ∈ as, C b) (h : Meets step (fun s b => (step s b).isOk) s as) :
    I (exec step s as) := by
  induction as generalizing s with
  | nil => cases ha
  | cons b bs ih =>
    have hrest : ∀ c ∈ bs, C c := fun c hc => hC c (List.mem_cons_of_mem b hc)
    rcases List.mem_cons.mp ha with rfl | ha
    · exact exec_of_forall hkeep (hnow s _ (step_eq_next h.1)) hrest
    · exact ih ha hrest h.2

/-- What every request preserves at its time, and stays true as time goes by, holds after every
    run whose requests come in the order of their times, up to any later time. -/
theorem exec_of_sorted {τ : Type} [LE τ] {time : α → τ} {step : σ → α → Except ε σ}
    {C : σ → α → Prop} {I : τ → σ → Prop} (hmono : ∀ t t' s, t ≤ t' → I t s → I t' s)
    (hstep : ∀ s a s', I (time a) s → C s a → step s a = .ok s' → I (time a) s') {t : τ} {s : σ}
    (h0 : I t s) {as : List α} (hle : ∀ a ∈ as, t ≤ time a)
    (hsorted : as.Pairwise fun a b => time a ≤ time b) (h : Meets step C s as) :
    ∃ t', (∀ T, t ≤ T → (∀ a ∈ as, time a ≤ T) → t' ≤ T) ∧ I t' (exec step s as) := by
  induction as generalizing t s with
  | nil => exact ⟨t, fun T hT _ => hT, h0⟩
  | cons a as ih =>
    obtain ⟨hfirst, hrest⟩ := List.pairwise_cons.mp hsorted
    have hI : I (time a) s := hmono t (time a) s (hle a List.mem_cons_self) h0
    have hnext : I (time a) (next step s a) := by
      cases hs : step s a with
      | error e => rw [next_of_error hs]; exact hI
      | ok s' => rw [next_of_ok hs]; exact hstep s a s' hI h.1 hs
    obtain ⟨t', hbound, hend⟩ := ih hnext hfirst hrest h.2
    exact ⟨t', fun T _ hT => hbound T (hT a List.mem_cons_self) fun b hb =>
      hT b (List.mem_cons_of_mem a hb), hend⟩

/-- Requests that can be made, each of which leaves the others possible, can be made in any
    order. -/
theorem meets_of_pairwise {step : σ → α → Except ε σ} {I : σ → Prop} {E : σ → α → Prop}
    {R : α → α → Prop} (hok : ∀ s a, I s → E s a → ∃ s', step s a = .ok s' ∧ I s')
    (hkeep : ∀ s a b s', I s → E s a → E s b → R a b → step s a = .ok s' → E s' b) {s : σ}
    (h0 : I s) {as : List α} (has : ∀ a ∈ as, E s a) (hR : as.Pairwise R) :
    Meets step (fun s a => (step s a).isOk) s as := by
  induction as generalizing s with
  | nil => trivial
  | cons a as ih =>
    obtain ⟨hR, hrest⟩ := List.pairwise_cons.mp hR
    have ha : E s a := has a List.mem_cons_self
    obtain ⟨s', hs', hI⟩ := hok s a h0 ha
    have hdone : (step s a).isOk := by
      rw [hs']
      rfl
    refine ⟨hdone, ?_⟩
    rw [next_of_ok hs']
    exact ih hI (fun b hb => hkeep s a b s' h0 ha (has b (List.mem_cons_of_mem a hb)) (hR b hb) hs')
      hrest

/-! ## Relating the ends of a run -/

/-- A reflexive and transitive relation that every accepted request establishes, from
    states with an invariant, holds between the ends of every run. -/
theorem exec_rel {step : σ → α → Except ε σ} {C : σ → α → Prop} {I : σ → Prop}
    {R : σ → σ → Prop} (hrefl : ∀ s, R s s) (htrans : ∀ s t u, R s t → R t u → R s u)
    (hstep : ∀ s a s', I s → C s a → step s a = .ok s' → I s' ∧ R s s') {s : σ} (h0 : I s)
    {as : List α} (h : Meets step C s as) : I (exec step s as) ∧ R s (exec step s as) := by
  induction as generalizing s with
  | nil => exact ⟨h0, hrefl s⟩
  | cons a as ih =>
    rw [exec_cons]
    cases hs : step s a with
    | error e =>
      have hrest := h.2
      rw [next_of_error hs] at hrest ⊢
      exact ih h0 hrest
    | ok s' =>
      have hrest := h.2
      rw [next_of_ok hs] at hrest ⊢
      obtain ⟨h1, hR⟩ := hstep s a s' h0 h.1 hs
      obtain ⟨hI, hR'⟩ := ih h1 hrest
      exact ⟨hI, htrans _ _ _ hR hR'⟩

/-! ## The states of a run -/

/-- The state before request number `i`, or the last one. -/
def stateAt (step : σ → α → Except ε σ) (s : σ) (as : List α) (i : Nat) : σ :=
  exec step s (as.take i)

/-- A request is made in the state before it. -/
theorem stateAt_succ {step : σ → α → Except ε σ} {s : σ} {as : List α} {i : Nat} {a : α}
    (h : as[i]? = some a) : stateAt step s as (i + 1) = next step (stateAt step s as i) a := by
  unfold stateAt
  rw [List.take_add_one, h, Option.toList_some, exec_append]
  rfl

/-- After the last request nothing changes. -/
theorem stateAt_succ_of_none {step : σ → α → Except ε σ} {s : σ} {as : List α} {i : Nat}
    (h : as[i]? = none) : stateAt step s as (i + 1) = stateAt step s as i := by
  unfold stateAt
  rw [List.take_add_one, h, Option.toList_none, List.append_nil]

/-- The rule for a relation between two states of a run. -/
theorem stateAt_rel {step : σ → α → Except ε σ} {I : σ → Prop} {R : σ → σ → Prop}
    (hrefl : ∀ s, R s s) (htrans : ∀ s t u, R s t → R t u → R s u)
    (hstep : ∀ s a s', I s → step s a = .ok s' → I s' ∧ R s s') {s : σ} (h0 : I s) (as : List α)
    {i j : Nat} (hij : i ≤ j) : R (stateAt step s as i) (stateAt step s as j) := by
  have hi : I (stateAt step s as i) :=
    exec_induction (fun s a s' hI h => (hstep s a s' hI h).1) h0 (as.take i)
  -- the requests from `i` to `j`
  have hj : stateAt step s as j = exec step (stateAt step s as i) ((as.drop i).take (j - i)) := by
    unfold stateAt
    rw [← exec_append, ← List.take_add, Nat.add_sub_cancel' hij]
  rw [hj]
  exact (exec_rel (C := fun _ _ => True) hrefl htrans (fun s a s' hI _ h => hstep s a s' hI h) hi
    (meets_of_forall fun _ _ => trivial)).2

/-- A property that exactly the requests with `C` keep holds in all states of exactly the runs
    that meet `C`. -/
theorem forall_stateAt_iff_meets {step : σ → α → Except ε σ} {C : σ → α → Prop} {I P : σ → Prop}
    (hI : ∀ s a s', I s → step s a = .ok s' → I s')
    (hstep : ∀ s a, I s → P s → (P (next step s a) ↔ C s a)) {s : σ} (h0 : I s) (hP : P s)
    (as : List α) : (∀ i, P (stateAt step s as i)) ↔ Meets step C s as := by
  induction as generalizing s with
  | nil => exact ⟨fun _ => trivial, fun _ _ => by rw [stateAt, List.take_nil]; exact hP⟩
  | cons a as ih =>
    have hnext : I (next step s a) := exec_induction hI h0 [a]
    constructor
    · intro h
      have hfirst : P (next step s a) := h 1
      exact ⟨(hstep s a h0 hP).mp hfirst, (ih hnext hfirst).mp fun i => h (i + 1)⟩
    · rintro ⟨hC, hrest⟩ i
      have hfirst : P (next step s a) := (hstep s a h0 hP).mpr hC
      cases i with
      | zero => exact hP
      | succ i => exact (ih hnext hfirst).mpr hrest i

/-- What holds before request number `j`, and did not hold at the start, was brought about by an
    accepted request and has held ever since. -/
theorem exists_origin {step : σ → α → Except ε σ} {P : σ → Prop} {s : σ} {as : List α} {j : Nat}
    (h0 : ¬ P s) (hj : P (stateAt step s as j)) :
    ∃ i a, i < j ∧ as[i]? = some a ∧ ¬ P (stateAt step s as i) ∧
      step (stateAt step s as i) a = .ok (stateAt step s as (i + 1)) ∧
      ∀ k, i < k → k ≤ j → P (stateAt step s as k) := by
  induction j with
  | zero => exact absurd hj h0
  | succ j ih =>
    by_cases hp : P (stateAt step s as j)
    · obtain ⟨i, a, hij, ha, hi, hstep, hsince⟩ := ih hp
      refine ⟨i, a, Nat.lt_succ_of_lt hij, ha, hi, hstep, fun k hik hkj => ?_⟩
      rcases Nat.le_succ_iff.mp hkj with hkj | rfl
      · exact hsince k hik hkj
      · exact hj
    · cases ha : as[j]? with
      | none =>
        rw [stateAt_succ_of_none ha] at hj
        exact absurd hj hp
      | some a =>
        have hnext : stateAt step s as (j + 1) = next step (stateAt step s as j) a := stateAt_succ ha
        cases hs : step (stateAt step s as j) a with
        | error e =>
          rw [hnext, next_of_error hs] at hj
          exact absurd hj hp
        | ok s' =>
          refine ⟨j, a, Nat.lt_succ_self j, ha, hp, ?_, fun k hik hkj => ?_⟩
          · rw [hs, hnext, next_of_ok hs]
          · obtain rfl : k = j + 1 := by omega
            exact hj

/-! ## Keeping a record -/

/-- Run `step` and bring the record up to date from the state before the request, the
    request and the state after it. -/
def observed (step : σ → α → Except ε σ) (record : γ → σ → α → σ → γ) :
    σ × γ → α → Except ε (σ × γ) :=
  fun p a => (step p.1 a).map fun s' => (s', record p.2 p.1 a s')

/-- An observed step is a step together with its new record. -/
theorem observed_eq_ok {step : σ → α → Except ε σ} {record : γ → σ → α → σ → γ}
    {p q : σ × γ} {a : α} (h : observed step record p a = .ok q) :
    step p.1 a = .ok q.1 ∧ q.2 = record p.2 p.1 a q.1 := by
  unfold observed at h
  cases hs : step p.1 a with
  | error e => rw [hs] at h; cases h
  | ok s' =>
    rw [hs] at h
    cases h
    exact ⟨rfl, rfl⟩

/-- A step that is accepted is accepted when it is observed. -/
theorem observed_isOk {step : σ → α → Except ε σ} {record : γ → σ → α → σ → γ} {p : σ × γ} {a : α}
    (h : (step p.1 a).isOk) : (observed step record p a).isOk := by
  unfold observed
  rw [step_eq_next h]
  rfl

/-- The record does not influence the run. -/
theorem exec_observed_fst (step : σ → α → Except ε σ) (record : γ → σ → α → σ → γ)
    (p : σ × γ) (as : List α) :
    (exec (observed step record) p as).1 = exec step p.1 as := by
  induction as generalizing p with
  | nil => rfl
  | cons a as ih =>
    rw [exec_cons, exec_cons, ih]
    congr 1
    cases hs : step p.1 a with
    | error e =>
      rw [next_of_error hs, next_of_error (e := e)]
      simp only [observed, hs]; rfl
    | ok s' =>
      have hobs : observed step record p a = .ok (s', record p.2 p.1 a s') := by
        simp only [observed, hs]; rfl
      rw [next_of_ok hs, next_of_ok hobs]

/-- A condition on the requests of the run is one on the requests of the observed run. -/
theorem meets_observed {step : σ → α → Except ε σ} {C : σ → α → Prop}
    (record : γ → σ → α → σ → γ) {s : σ} (r : γ) {as : List α} (h : Meets step C s as) :
    Meets (observed step record) (fun p a => C p.1 a) (s, r) as := by
  induction as generalizing s r with
  | nil => trivial
  | cons a as ih =>
    refine ⟨h.1, ?_⟩
    have hfst := exec_observed_fst step record (s, r) [a]
    rw [exec_cons, exec_cons, exec_nil, exec_nil] at hfst
    obtain ⟨r', hnext⟩ : ∃ r', next (observed step record) (s, r) a = (next step s a, r') :=
      ⟨(next (observed step record) (s, r) a).2, Prod.ext hfst rfl⟩
    rw [hnext]
    exact ih r' h.2

end Run
