import UxContracts.ForStd.Run
import UxContracts.ForStd.Table

/-!
# Parts of a state that do not interfere

A part of the state is local if a request that does not concern it leaves it alone, and what any
other request does to it depends on the part alone (`Run.Local`). Then the part looks, after
every run, as if only the requests that concern it had been made, and the same of them are
accepted (`Local.exec_filter`, `Local.accepted_filter`). A state that consists of local parts
does not depend on how the requests for different parts are interleaved (`exec_interleaved`).

Where the parts are rows of tables, the requests write at the keys of a part (`Table.WritesAt`).
-/

namespace Run

variable {σ α β ε κ : Type}

/-- The requests of a run that are accepted. -/
def accepted (step : σ → α → Except ε σ) : σ → List α → List α
  | _, [] => []
  | s, a :: as =>
    if (step s a).isOk then a :: accepted step (next step s a) as
    else accepted step (next step s a) as

/-- A part of the state that only the requests that concern it change, and that decides about
    them. -/
structure Local (step : σ → α → Except ε σ) (view : σ → β) (concerns : α → Prop) : Prop where
  frame : ∀ s a s', ¬ concerns a → step s a = .ok s' → view s' = view s
  agree : ∀ s t a s', concerns a → view s = view t → step s a = .ok s' →
    ∃ t', step t a = .ok t' ∧ view s' = view t'

namespace Local

variable {step : σ → α → Except ε σ} {view : σ → β} {concerns : α → Prop}

/-- Other requests leave the part alone, whether they are accepted or not. -/
theorem next_frame (h : Local step view concerns) (s : σ) {a : α} (ha : ¬ concerns a) :
    view (next step s a) = view s := by
  cases hs : step s a with
  | error e => rw [next_of_error hs]
  | ok s' =>
    rw [next_of_ok hs]
    exact h.frame s a s' ha hs

/-- A request is accepted in both states or in none. -/
theorem isOk_iff (h : Local step view concerns) {s t : σ} (hst : view s = view t) {a : α}
    (ha : concerns a) : (step s a).isOk ↔ (step t a).isOk := by
  -- one direction is enough, as the part is the same in both
  have hone : ∀ {s t : σ}, view s = view t → (step s a).isOk → (step t a).isOk := by
    intro s t hst hok
    obtain ⟨t', ht', -⟩ := h.agree s t a _ ha hst (step_eq_next hok)
    rw [ht']
    rfl
  exact ⟨hone hst, hone hst.symm⟩

/-- A call that is about the view takes equal views to equal views. -/
theorem next_agree (h : Local step view concerns) {s t : σ} (hst : view s = view t) {a : α}
    (ha : concerns a) : view (next step s a) = view (next step t a) := by
  cases hs : step s a with
  | ok s' =>
    obtain ⟨t', ht', hview⟩ := h.agree s t a s' ha hst hs
    rw [next_of_ok hs, next_of_ok ht']
    exact hview
  | error e =>
    cases ht : step t a with
    | error e' => rw [next_of_error hs, next_of_error ht, hst]
    | ok t' =>
      -- it would be accepted in the other state, too
      obtain ⟨s', hs', -⟩ := h.agree t s a t' ha hst.symm ht
      rw [hs] at hs'
      cases hs'

variable [DecidablePred concerns]

/-- Two runs from states with the same part, one of them without the other requests. -/
theorem exec_filter_of_eq (h : Local step view concerns) {s t : σ} (hst : view s = view t)
    (as : List α) :
    view (exec step s as) = view (exec step t (as.filter concerns)) ∧
      (accepted step s as).filter concerns = accepted step t (as.filter concerns) := by
  -- request by request: those that are left out do not change the part
  induction as generalizing s t with
  | nil => exact ⟨hst, rfl⟩
  | cons a as ih =>
    by_cases ha : concerns a
    · have hkeep (l : List α) : (a :: l).filter concerns = a :: l.filter concerns :=
        List.filter_cons_of_pos (by simpa using ha)
      rw [hkeep, exec_cons, exec_cons]
      obtain ⟨hexec, haccepted⟩ := ih (h.next_agree hst ha)
      refine ⟨hexec, ?_⟩
      simp only [accepted]
      -- the request is in both lists or in none
      by_cases hok : (step s a).isOk
      · rw [if_pos hok, if_pos ((h.isOk_iff hst ha).mp hok),
          hkeep, haccepted]
      · rw [if_neg hok, if_neg fun ht => hok ((h.isOk_iff hst ha).mpr ht), haccepted]
    · have hdrop (l : List α) : (a :: l).filter concerns = l.filter concerns :=
        List.filter_cons_of_neg (by simpa using ha)
      rw [hdrop, exec_cons]
      obtain ⟨hexec, haccepted⟩ := ih ((h.next_frame s ha).trans hst)
      refine ⟨hexec, ?_⟩
      simp only [accepted]
      split
      · rw [hdrop, haccepted]
      · exact haccepted

/-- After every run the part is what the requests that concern it make of it. -/
theorem exec_filter (h : Local step view concerns) (s : σ) (as : List α) :
    view (exec step s as) = view (exec step s (as.filter concerns)) :=
  (h.exec_filter_of_eq rfl as).1

/-- The other requests do not decide which of them are accepted. -/
theorem accepted_filter (h : Local step view concerns) (s : σ) (as : List α) :
    (accepted step s as).filter concerns = accepted step s (as.filter concerns) :=
  (h.exec_filter_of_eq rfl as).2

end Local

/-- If all parts are local and make up the state, only the order of the requests for one part
    matters. -/
theorem exec_interleaved {step : σ → α → Except ε σ} {view : κ → σ → β} {concerns : κ → α → Prop}
    [∀ k, DecidablePred (concerns k)] (h : ∀ k, Local step (view k) (concerns k))
    (hext : ∀ s t, (∀ k, view k s = view k t) → s = t) (s : σ) {as bs : List α}
    (hsame : ∀ k, as.filter (concerns k) = bs.filter (concerns k)) :
    exec step s as = exec step s bs := by
  refine hext _ _ fun k => ?_
  -- each part is what its own requests make of it, and they are the same
  rw [(h k).exec_filter s as, (h k).exec_filter s bs, hsame k]

end Run

namespace Table

variable {K V : Type} [LinearOrder K] {k : K} {f : Table K V → Table K V}

/-- `f` writes at one key, and what it writes depends on the row there. -/
structure WritesAt (k : K) (f : Table K V → Table K V) : Prop where
  same : ∀ {t u : Table K V}, t.find? k = u.find? k → (f t).find? k = (f u).find? k
  frame : ∀ {t : Table K V} {k' : K}, k' ≠ k → (f t).find? k' = t.find? k'

/-- Writing nothing writes at every key. -/
theorem WritesAt.id : WritesAt k fun t : Table K V => t :=
  ⟨fun h => h, fun _ => rfl⟩

/-- Setting a row writes at its key. -/
theorem WritesAt.set (v : V) : WritesAt k fun t => t.set k v where
  same := by
    intro t u _
    rw [find?_set_self, find?_set_self]
  frame := fun h => find?_set_ne _ v h

/-- Erasing a row writes at its key. -/
theorem WritesAt.erase : WritesAt k fun t : Table K V => t.erase k where
  same := by
    intro t u _
    rw [find?_erase_self, find?_erase_self]
  frame := fun h => find?_erase_ne _ h

/-- A row under another key that had been the same in both tables still is. -/
theorem WritesAt.find?_same (hf : WritesAt k f) {t u : Table K V} {k' : K}
    (hk : t.find? k = u.find? k) (hk' : t.find? k' = u.find? k') :
    (f t).find? k' = (f u).find? k' := by
  by_cases h : k' = k
  · rw [h]
    exact hf.same hk
  · rw [hf.frame h, hf.frame h, hk']

end Table
