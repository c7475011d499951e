import UxContracts.ForStd.List
import UxContracts.Spec.ProposalRecord

/-!
# Approval lists are conserved

`propose` creates a proposal together with one row of approvals, and `cancel` and `exec` erase
both. In between `approve` and `unapprove` move levels from one list of the row to the other, so
that both lists together stay what has been requested (`approval_lists_conserved`).
-/

namespace UxContracts

/-! ## Purpose -/

/-- The levels that the lists of a row have together. -/
def ApprovalsInfo.levels (info : ApprovalsInfo) : List PermissionLevel :=
  info.requestedApprovals.map Approval.level ++ info.providedApprovals.map Approval.level

def OldApprovalsInfo.levels (info : OldApprovalsInfo) : List PermissionLevel :=
  info.requestedApprovals ++ info.providedApprovals

/-- What the last successful `propose` of each name has requested. -/
def recordRequested {H : Type} (given : Table (Scoped Name Name) (List PermissionLevel))
    (_ : MultisigState) (call : MultisigCall H) (_ : MultisigState) :
    Table (Scoped Name Name) (List PermissionLevel) :=
  match call.action with
  | .propose proposer proposalName requested _ => given.set ⟨proposer, proposalName⟩ requested
  | _ => given

namespace MultisigState

/-- The levels of each row with approvals of a proposal, in both tables. -/
def approvalRows (s : MultisigState) (key : Scoped Name Name) : List (List PermissionLevel) :=
  ((s.approvals.find? key).map ApprovalsInfo.levels).toList ++
    ((s.oldApprovals.find? key).map OldApprovalsInfo.levels).toList

/-- How a lookup fails. -/
def missingRow : List String := ["proposal not found"]

/-- How a new row fails that is already there. -/
def leftoverRow : List String :=
  ["could not insert object, most likely a uniqueness constraint was violated"]

/-! ## Levels that move -/

/-- Providing an approval moves its level from one list to the other. -/
theorem provide_levels {info : ApprovalsInfo} {level : PermissionLevel}
    (h : level ∈ info.requestedApprovals.map Approval.level) (time : TimePoint) :
    (info.provide level time).levels.Perm info.levels := by
  unfold ApprovalsInfo.levels ApprovalsInfo.provide
  rw [List.map_eraseP, List.map_append]
  exact List.erase_append_concat_perm h _

/-- Taking it back moves the level again. -/
theorem revoke_levels {info : ApprovalsInfo} {level : PermissionLevel}
    (h : level ∈ info.providedApprovals.map Approval.level) (time : TimePoint) :
    (info.revoke level time).levels.Perm info.levels := by
  unfold ApprovalsInfo.levels ApprovalsInfo.revoke
  rw [List.map_eraseP, List.map_append]
  -- the lists have changed places
  exact List.perm_append_comm.trans
    ((List.erase_append_concat_perm h _).trans List.perm_append_comm)

/-! ## The invariant -/

/-- There is a row of approvals exactly for each proposal, and it has what was requested. -/
structure ListsInv (s : MultisigState)
    (given : Table (Scoped Name Name) (List PermissionLevel)) : Prop where
  noOld : s.oldApprovals = ∅
  paired : ∀ key, s.proposals.find? key = none ↔ s.approvals.find? key = none
  conserved : ∀ key info, s.approvals.find? key = some info →
    ∃ requested, given.find? key = some requested ∧ info.levels.Perm requested

namespace ListsInv

variable {s s' : MultisigState} {given : Table (Scoped Name Name) (List PermissionLevel)}

theorem genesis : ListsInv genesis ∅ where
  noOld := rfl
  paired _ := ⟨fun _ => rfl, fun _ => rfl⟩
  conserved _ _ h := nomatch h

/-- The rows of a new proposal. -/
theorem create (hI : ListsInv s given) (key : Scoped Name Name) (prop : Proposal)
    (requested : List PermissionLevel) :
    ListsInv { s with
      proposals := s.proposals.set key prop
      approvals := s.approvals.set key ⟨requested.map fun level => ⟨level, 0⟩, []⟩ }
      (given.set key requested) where
  noOld := hI.noOld
  paired key' := by
    simp only [Table.find?_set]
    split
    · simp
    · exact hI.paired key'
  conserved key' info hinfo := by
    rw [Table.find?_set]
    split
    · rename_i hkey
      rw [hkey, Table.find?_set_self, Option.some.injEq] at hinfo
      refine ⟨requested, rfl, ?_⟩
      subst hinfo
      simp [ApprovalsInfo.levels, Function.comp_def]
    · rename_i hkey
      rw [Table.find?_set_ne _ _ hkey] at hinfo
      exact hI.conserved key' info hinfo

/-- Levels move in the row of a proposal. -/
theorem move (hI : ListsInv s given) {key : Scoped Name Name} {info info' : ApprovalsInfo}
    (hrow : s.approvals.find? key = some info) (hperm : info'.levels.Perm info.levels) :
    ListsInv { s with approvals := s.approvals.set key info' } given where
  noOld := hI.noOld
  paired key' := by
    simp only [Table.find?_set]
    split
    · rename_i hkey
      rw [hI.paired, hkey, hrow]
      simp
    · exact hI.paired key'
  conserved key' info₁ hinfo := by
    rw [Table.find?_set] at hinfo
    split at hinfo
    · rename_i hkey
      rw [Option.some.injEq] at hinfo
      obtain ⟨requested, hgiven, hold⟩ := hI.conserved key info hrow
      rw [hkey, ← hinfo]
      exact ⟨requested, hgiven, hperm.trans hold⟩
    · exact hI.conserved key' info₁ hinfo

/-- The rows of a proposal are erased together. -/
theorem close (hI : ListsInv s given) (key : Scoped Name Name) (sent : List DeferredTransaction) :
    ListsInv { s with
      proposals := s.proposals.erase key
      approvals := s.approvals.erase key
      sent := sent } given where
  noOld := hI.noOld
  paired key' := by
    simp only [Table.find?_erase]
    split
    · simp
    · exact hI.paired key'
  conserved key' info hinfo := by
    rw [Table.find?_erase] at hinfo
    split at hinfo
    · cases hinfo
    · exact hI.conserved key' info hinfo

/-- No proposal has its approvals in the old table. -/
theorem find?_old (hI : ListsInv s given) (key : Scoped Name Name) :
    s.oldApprovals.find? key = none := by
  rw [hI.noOld, Table.find?_empty]

variable {H : Type} [BytesChecksum H] [DecidableEq H]

/-- A call keeps the levels of each proposal. -/
theorem step {call : MultisigCall H} (hI : ListsInv s given) (h : s.step call = .ok s') :
    ListsInv s' (recordRequested given s call s') := by
  obtain ⟨ctx, action⟩ := call
  cases action with
  | propose proposer proposalName requested trx =>
    obtain ⟨-, rfl⟩ := propose_spec h
    exact hI.create _ _ requested
  | approve proposer proposalName level hash =>
    obtain ⟨-, ⟨info, hinfo, hlisted, rfl⟩ | ⟨-, info, hold, -⟩⟩ := approve_cases h
    · exact hI.move hinfo (provide_levels hlisted ctx.now)
    · -- there is no row in the older table
      rw [hI.find?_old] at hold
      cases hold
  | unapprove proposer proposalName level =>
    obtain ⟨info, hinfo, hlisted, rfl⟩ | ⟨-, info, hold, -⟩ := unapprove_cases h
    · exact hI.move hinfo (revoke_levels hlisted ctx.now)
    · rw [hI.find?_old] at hold
      cases hold
  | cancel proposer proposalName canceler =>
    obtain ⟨-, rfl⟩ | ⟨-, hold, -⟩ := cancel_cases h
    · -- both rows of the proposal are erased
      exact hI.close _ s.sent
    · exact absurd (hI.find?_old _) hold
  | exec proposer proposalName executer =>
    obtain ⟨prop, levels, s₁, hrequest, -, rfl⟩ := exec_spec h
    obtain ⟨-, ⟨info, -, -, rfl⟩ | ⟨-, hold, -⟩⟩ := execRequest_cases hrequest
    · exact hI.close _ _
    · exact absurd (hI.find?_old _) hold
  | invalidate account =>
    have hs' := invalidate_spec h
    subst hs'
    -- invalidations have a table of their own
    exact ⟨hI.noOld, hI.paired, hI.conserved⟩

/-! ## Lookups -/

omit [BytesChecksum H] [DecidableEq H] in
/-- A proposal has one row of approvals. -/
theorem approvalRows_eq (hI : ListsInv s given) (key : Scoped Name Name) :
    s.approvalRows key = ((s.approvals.find? key).map ApprovalsInfo.levels).toList := by
  unfold approvalRows
  rw [hI.find?_old]
  simp

omit [BytesChecksum H] [DecidableEq H] in
/-- The row of approvals of a proposal. -/
theorem row (hI : ListsInv s given) {key : Scoped Name Name} (h : s.proposals.find? key ≠ none) :
    ∃ info, s.approvals.find? key = some info :=
  Option.ne_none_iff_exists'.mp fun hnone => h ((hI.paired key).mpr hnone)

end ListsInv

/-- Reading a variable length number can only fail at the end of the bytes. -/
theorem skipUnsignedInt_avoids {errors : List String}
    (h : "datastream attempted to read past the end" ∉ errors) (bytes : List UInt8) :
    Avoids errors (skipUnsignedInt bytes) := by
  induction bytes with
  | nil => exact avoids_error h
  | cons b bytes ih =>
    unfold skipUnsignedInt
    exact avoids_ite avoids_ok ih

/-- Reading the header of a transaction can only fail at the end of the bytes. -/
theorem unpackHeader_avoids {errors : List String}
    (h : "datastream attempted to read past the end" ∉ errors) (bytes : List UInt8) :
    Avoids errors (unpackHeader bytes) := by
  unfold unpackHeader
  split
  · refine avoids_bind (skipUnsignedInt_avoids h _) fun bytes _ => ?_
    cases bytes with
    | nil => exact avoids_error h
    | cons _ bytes => exact avoids_bind (skipUnsignedInt_avoids h bytes) fun _ _ => avoids_pure
  · exact avoids_error h

/-- A row that is found is no missing row. -/
theorem getRow_avoids {K V : Type} [LinearOrder K] {t : Table K V} {k : K} {v : V} {msg : String}
    {errors : List String} (h : t.find? k = some v) : Avoids errors (Table.getRow t k msg) := by
  rw [getRow_eq_ok.mpr h]
  exact avoids_ok

/-- A row that is not there can be added. -/
theorem emplaceRow_avoids {K V : Type} [LinearOrder K] {t : Table K V} {k : K} {v : V}
    {errors : List String} (h : t.find? k = none) : Avoids errors (Table.emplaceRow t k v) := by
  rw [emplaceRow_eq_ok.mpr ⟨h, rfl⟩]
  exact avoids_ok

section Lookups

variable {s : MultisigState} {given : Table (Scoped Name Name) (List PermissionLevel)}
  {proposer proposalName : Name}

/-- A proposal is not refused for a row that is left over. -/
theorem propose_avoids (hI : ListsInv s given) (ctx : MultisigContext)
    (requested : List PermissionLevel) (trx : List UInt8) :
    Avoids leftoverRow (s.propose ctx proposer proposalName requested trx) := by
  refine avoids_bind (unpackHeader_avoids (by decide) _) fun _ _ => ?_
  refine avoids_bind (avoids_check (by decide)) fun _ _ => ?_
  refine avoids_bind (avoids_check (by decide)) fun _ _ => ?_
  refine avoids_bind (avoids_check (by decide)) fun _ hfree => ?_
  refine avoids_bind (avoids_check (by decide)) fun _ _ => ?_
  -- the name is free in both tables
  have hfree := check_eq_ok.mp hfree
  refine avoids_bind (emplaceRow_avoids hfree) fun _ _ => ?_
  exact avoids_bind (emplaceRow_avoids ((hI.paired _).mp hfree)) fun _ _ => avoids_pure

variable {H : Type} [BytesChecksum H] [DecidableEq H]

/-- An approval of an open proposal finds the row of its approvals. -/
theorem approve_avoids (hI : ListsInv s given)
    (h : s.proposals.find? ⟨proposer, proposalName⟩ ≠ none) (ctx : MultisigContext)
    (level : PermissionLevel) (hash : Option H) :
    Avoids missingRow (s.approve ctx proposer proposalName level hash) := by
  obtain ⟨prop, hprop⟩ := Option.ne_none_iff_exists'.mp h
  obtain ⟨info, hinfo⟩ := hI.row h
  refine avoids_bind (avoids_check (by decide)) fun _ _ => avoids_bind ?_ fun _ _ => ?_
  · unfold assertHash
    cases hash with
    | none => exact avoids_pure
    | some hash =>
      exact avoids_bind (getRow_avoids hprop) fun _ _ => avoids_check (by decide)
  · rw [hinfo]
    exact avoids_bind (avoids_check (by decide)) fun _ _ => avoids_pure

omit [BytesChecksum H] [DecidableEq H] in
/-- Taking an approval of an open proposal back finds the row of its approvals. -/
theorem unapprove_avoids (hI : ListsInv s given)
    (h : s.proposals.find? ⟨proposer, proposalName⟩ ≠ none) (ctx : MultisigContext)
    (level : PermissionLevel) : Avoids missingRow (s.unapprove ctx proposer proposalName level) := by
  obtain ⟨info, hinfo⟩ := hI.row h
  refine avoids_bind (avoids_check (by decide)) fun _ _ => ?_
  rw [hinfo]
  exact avoids_bind (avoids_check (by decide)) fun _ _ => avoids_pure

omit [BytesChecksum H] [DecidableEq H] in
/-- Cancelling an open proposal finds the row of its approvals. -/
theorem cancel_avoids (hI : ListsInv s given)
    (h : s.proposals.find? ⟨proposer, proposalName⟩ ≠ none) (ctx : MultisigContext)
    (canceler : Name) : Avoids missingRow (s.cancel ctx proposer proposalName canceler) := by
  obtain ⟨prop, hprop⟩ := Option.ne_none_iff_exists'.mp h
  obtain ⟨info, hinfo⟩ := hI.row h
  refine avoids_bind (avoids_check (by decide)) fun _ _ => ?_
  refine avoids_bind (getRow_avoids hprop) fun prop _ => ?_
  refine avoids_bind (avoids_ite ?_ avoids_pure) fun _ _ => ?_
  · exact avoids_bind (unpackHeader_avoids (by decide) _) fun _ _ => avoids_check (by decide)
  · simp only [hinfo]
    exact avoids_pure

omit [BytesChecksum H] [DecidableEq H] in
/-- Executing an open proposal finds the row of its approvals. -/
theorem exec_avoids (hI : ListsInv s given)
    (h : s.proposals.find? ⟨proposer, proposalName⟩ ≠ none) (ctx : MultisigContext)
    (executer : Name) : Avoids missingRow (s.exec ctx proposer proposalName executer) := by
  obtain ⟨prop, hprop⟩ := Option.ne_none_iff_exists'.mp h
  obtain ⟨info, hinfo⟩ := hI.row h
  refine avoids_bind ?_ fun _ _ => avoids_bind (avoids_check (by decide)) fun _ _ => avoids_pure
  refine avoids_bind (avoids_check (by decide)) fun _ _ => ?_
  refine avoids_bind (getRow_avoids hprop) fun _ _ => ?_
  refine avoids_bind (unpackHeader_avoids (by decide) _) fun _ _ => ?_
  refine avoids_bind (avoids_check (by decide)) fun _ _ => ?_
  rw [hinfo]
  exact avoids_pure

end Lookups

/-! ## Runs -/

variable {H : Type} [BytesChecksum H] [DecidableEq H]

/-- In every state that a run from empty tables reaches: exactly the proposals have a row of
    approvals, one in both tables together, and its levels are a permutation of what the last
    `propose` of the name has requested; no action on a proposal misses a row, and no new proposal
    finds a row that is left over. -/
theorem approval_lists_conserved (calls : List (MultisigCall H)) :
    let p := Run.exec (Run.observed step recordRequested) (genesis, ∅) calls
    (∀ key, p.1.proposals.find? key ≠ none ↔ (p.1.approvalRows key).length = 1) ∧
    (∀ key, ∀ levels ∈ p.1.approvalRows key,
      ∃ requested, p.2.find? key = some requested ∧ levels.Perm requested) ∧
    (∀ ctx proposer proposalName, p.1.proposals.find? ⟨proposer, proposalName⟩ ≠ none →
      (∀ level (hash : Option H),
        Avoids missingRow (p.1.approve ctx proposer proposalName level hash)) ∧
      (∀ level, Avoids missingRow (p.1.unapprove ctx proposer proposalName level)) ∧
      (∀ canceler, Avoids missingRow (p.1.cancel ctx proposer proposalName canceler)) ∧
      ∀ executer, Avoids missingRow (p.1.exec ctx proposer proposalName executer)) ∧
    ∀ ctx proposer proposalName requested trx,
      Avoids leftoverRow (p.1.propose ctx proposer proposalName requested trx) := by
  intro p
  -- one call keeps the invariant, and so does a run
  have hstep : ∀ (p : MultisigState × Table (Scoped Name Name) (List PermissionLevel))
      (call : MultisigCall H) q, ListsInv p.1 p.2 →
      Run.observed step recordRequested p call = .ok q → ListsInv q.1 q.2 := by
    intro p call q hI h
    obtain ⟨hstep, hrec⟩ := Run.observed_eq_ok h
    rw [hrec]
    exact hI.step hstep
  have hI : ListsInv p.1 p.2 := Run.exec_induction
    (I := fun (p : MultisigState × Table (Scoped Name Name) (List PermissionLevel)) =>
      ListsInv p.1 p.2) hstep .genesis calls
  refine ⟨fun key => ?_, fun key levels hlevels => ?_, fun ctx proposer proposalName h => ?_,
    fun ctx proposer proposalName requested trx => propose_avoids hI ctx requested trx⟩
  · -- the rows are there for the same keys
    rw [ne_eq, hI.paired key, hI.approvalRows_eq]
    cases p.1.approvals.find? key <;> simp
  · -- with the requested levels
    rw [hI.approvalRows_eq, Option.mem_toList, Option.map_eq_some_iff] at hlevels
    obtain ⟨info, hinfo, rfl⟩ := hlevels
    exact hI.conserved key info hinfo
  · -- and the next call finds its rows
    exact ⟨approve_avoids hI h ctx, unapprove_avoids hI h ctx, cancel_avoids hI h ctx,
      exec_avoids hI h ctx⟩

open Sample in
example : (Run.exec step genesis approved).approvalRows ⟨alice, first⟩ =
    [[active bob, active alice]] := by decide +kernel

end MultisigState

end UxContracts
