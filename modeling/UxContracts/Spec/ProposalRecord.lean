import Mathlib.Data.List.Nodup
import UxContracts.ForStd.Run
import UxContracts.Native.Multisig

/-!
# The record of proposals

A proposal can be cancelled or executed and then made again under the same name. The
record tells these instances apart: it numbers them, and keeps what has been done to the
latest instance of each name. `RecordInv` ties the tables to it.
-/

namespace UxContracts

/-! ## Instances -/

/-- A successful `approve` or `unapprove`. -/
structure ApprovalAct (H : Type) where
  approves : Bool
  level : PermissionLevel
  time : TimePoint
  hash : Option H
deriving DecidableEq

/-- A proposal from its creation on. -/
structure ProposalInstance (H : Type) where
  id : Nat
  requested : List PermissionLevel
  trx : List UInt8
  /-- what has been done to it, the first act first -/
  acts : List (ApprovalAct H)
deriving DecidableEq

/-- What has happened in a run. -/
structure MultisigRecord (H : Type) where
  /-- the number of proposals created -/
  created : Nat
  /-- the latest instance of each name -/
  latest : Table (Scoped Name Name) (ProposalInstance H)
  /-- the time of the last `invalidate` of each account -/
  invalidated : Table Name TimePoint
  /-- the instances that have been sent, each under its name, the first one first -/
  executed : List (Scoped Name Name × ProposalInstance H)

namespace MultisigRecord

variable {H : Type}

/-- Nothing has happened since the state `s`. -/
def since (s : MultisigState) : MultisigRecord H := ⟨0, ∅, s.invalidations, []⟩

/-- The numbers of the instances that have been sent. -/
def executedIds (r : MultisigRecord H) : List Nat := r.executed.map fun e => e.2.id

/-- The latest instance of a name has got an act. -/
def act (r : MultisigRecord H) (key : Scoped Name Name) (a : ApprovalAct H) : MultisigRecord H :=
  match r.latest.find? key with
  | some inst => { r with latest := r.latest.set key { inst with acts := inst.acts ++ [a] } }
  | none => r

/-- The latest instance of a name has been sent. -/
def execute (r : MultisigRecord H) (key : Scoped Name Name) : MultisigRecord H :=
  match r.latest.find? key with
  | some inst => { r with executed := r.executed ++ [(key, inst)] }
  | none => r

end MultisigRecord

/-- The record after a successful call. -/
def recordMultisig {H : Type} (r : MultisigRecord H) (_ : MultisigState) (call : MultisigCall H)
    (_ : MultisigState) : MultisigRecord H :=
  match call.action with
  | .propose proposer proposalName requested trx => { r with
      created := r.created + 1
      latest := r.latest.set ⟨proposer, proposalName⟩ ⟨r.created, requested, trx, []⟩ }
  | .approve proposer proposalName level hash =>
    r.act ⟨proposer, proposalName⟩ ⟨true, level, call.ctx.now, hash⟩
  | .unapprove proposer proposalName level =>
    r.act ⟨proposer, proposalName⟩ ⟨false, level, call.ctx.now, none⟩
  | .cancel _ _ _ => r
  | .exec proposer proposalName _ => r.execute ⟨proposer, proposalName⟩
  | .invalidate account => { r with invalidated := r.invalidated.set account call.ctx.now }

namespace MultisigState

variable {H : Type} [BytesChecksum H] [DecidableEq H]

/-! ## What a successful action did -/

/-- `propose` opens a proposal without approvals, under a name that has none. -/
theorem propose_spec {ctx : MultisigContext} {proposer proposalName : Name}
    {requested : List PermissionLevel} {trx : List UInt8} {s s' : MultisigState}
    (h : s.propose ctx proposer proposalName requested trx = .ok s') :
    s.approvals.find? ⟨proposer, proposalName⟩ = none ∧
    s' = { s with
      proposals := s.proposals.set ⟨proposer, proposalName⟩ ⟨trx⟩
      approvals := s.approvals.set ⟨proposer, proposalName⟩
        ⟨requested.map fun level => ⟨level, 0⟩, []⟩ } := by
  simp only [propose, bind_eq_ok, check_eq_ok, emplaceRow_eq_ok, pure_eq_ok] at h
  obtain ⟨_, -, _, -, _, -, _, -, _, -, _, ⟨-, rfl⟩, _, ⟨hnone, rfl⟩, rfl⟩ := h
  exact ⟨hnone, rfl⟩

/-- `approve` moves a level in the row of the proposal, in the table that has the row. -/
theorem approve_cases {ctx : MultisigContext} {proposer proposalName : Name}
    {level : PermissionLevel} {proposalHash : Option H} {s s' : MultisigState}
    (h : s.approve ctx proposer proposalName level proposalHash = .ok s') :
    (∀ hash, proposalHash = some hash → ∃ prop,
      s.proposals.find? ⟨proposer, proposalName⟩ = some prop ∧
      BytesChecksum.sha256 prop.packedTransaction = hash) ∧
    ((∃ info, s.approvals.find? ⟨proposer, proposalName⟩ = some info ∧
        level ∈ info.requestedApprovals.map Approval.level ∧
        s' = { s with
          approvals := s.approvals.set ⟨proposer, proposalName⟩ (info.provide level ctx.now) }) ∨
      (s.approvals.find? ⟨proposer, proposalName⟩ = none ∧
        ∃ info, s.oldApprovals.find? ⟨proposer, proposalName⟩ = some info ∧
          level ∈ info.requestedApprovals ∧
          s' = { s with
            oldApprovals := s.oldApprovals.set ⟨proposer, proposalName⟩
              ⟨info.requestedApprovals.erase level, info.providedApprovals ++ [level]⟩ })) := by
  simp only [approve, bind_eq_ok] at h
  obtain ⟨_, -, _, hhash, h⟩ := h
  refine ⟨fun hash hsome => ?_, ?_⟩
  · subst hsome
    simp only [assertHash, bind_eq_ok, getRow_eq_ok, check_eq_ok] at hhash
    exact hhash
  · split at h
    · rename_i info hinfo
      simp only [bind_eq_ok, check_eq_ok, pure_eq_ok] at h
      obtain ⟨_, hlisted, rfl⟩ := h
      exact .inl ⟨info, hinfo, hlisted, rfl⟩
    · rename_i hnone
      simp only [bind_eq_ok, getRow_eq_ok, check_eq_ok, pure_eq_ok] at h
      obtain ⟨info, hinfo, _, hlisted, rfl⟩ := h
      exact .inr ⟨hnone, info, hinfo, hlisted, rfl⟩

/-- `approve` moves the level to the provided ones, in the newer or in the older table. -/
theorem approve_spec {ctx : MultisigContext} {proposer proposalName : Name}
    {level : PermissionLevel} {proposalHash : Option H} {s s' : MultisigState}
    (h : s.approve ctx proposer proposalName level proposalHash = .ok s') :
    (∀ hash, proposalHash = some hash → ∃ prop,
      s.proposals.find? ⟨proposer, proposalName⟩ = some prop ∧
      BytesChecksum.sha256 prop.packedTransaction = hash) ∧
    ((∃ info, s.approvals.find? ⟨proposer, proposalName⟩ = some info ∧
        level ∈ info.requestedApprovals.map Approval.level ∧
        s' = { s with
          approvals := s.approvals.set ⟨proposer, proposalName⟩ (info.provide level ctx.now) }) ∨
      (s.approvals.find? ⟨proposer, proposalName⟩ = none ∧
        ∃ oldApprovals, s' = { s with oldApprovals := oldApprovals })) := by
  obtain ⟨hhash, hnew | ⟨hnone, _, -, -, hs'⟩⟩ := approve_cases h
  · exact ⟨hhash, .inl hnew⟩
  · exact ⟨hhash, .inr ⟨hnone, _, hs'⟩⟩

/-- `unapprove` moves a level back. -/
theorem unapprove_cases {ctx : MultisigContext} {proposer proposalName : Name}
    {level : PermissionLevel} {s s' : MultisigState}
    (h : s.unapprove ctx proposer proposalName level = .ok s') :
    (∃ info, s.approvals.find? ⟨proposer, proposalName⟩ = some info ∧
      level ∈ info.providedApprovals.map Approval.level ∧
      s' = { s with
        approvals := s.approvals.set ⟨proposer, proposalName⟩ (info.revoke level ctx.now) }) ∨
    (s.approvals.find? ⟨proposer, proposalName⟩ = none ∧
      ∃ info, s.oldApprovals.find? ⟨proposer, proposalName⟩ = some info ∧
        level ∈ info.providedApprovals ∧
        s' = { s with
          oldApprovals := s.oldApprovals.set ⟨proposer, proposalName⟩
            ⟨info.requestedApprovals ++ [level], info.providedApprovals.erase level⟩ }) := by
  simp only [unapprove, bind_eq_ok] at h
  obtain ⟨_, -, h⟩ := h
  split at h
  · rename_i info hinfo
    simp only [bind_eq_ok, check_eq_ok, pure_eq_ok] at h
    obtain ⟨_, hlisted, rfl⟩ := h
    exact .inl ⟨info, hinfo, hlisted, rfl⟩
  · rename_i hnone
    simp only [bind_eq_ok, getRow_eq_ok, check_eq_ok, pure_eq_ok] at h
    obtain ⟨info, hinfo, _, hlisted, rfl⟩ := h
    exact .inr ⟨hnone, info, hinfo, hlisted, rfl⟩

/-- `unapprove` moves the level back to the requested ones, in the newer or in the older table. -/
theorem unapprove_spec {ctx : MultisigContext} {proposer proposalName : Name}
    {level : PermissionLevel} {s s' : MultisigState}
    (h : s.unapprove ctx proposer proposalName level = .ok s') :
    (∃ info, s.approvals.find? ⟨proposer, proposalName⟩ = some info ∧
      level ∈ info.providedApprovals.map Approval.level ∧
      s' = { s with
        approvals := s.approvals.set ⟨proposer, proposalName⟩ (info.revoke level ctx.now) }) ∨
    (s.approvals.find? ⟨proposer, proposalName⟩ = none ∧
      ∃ oldApprovals, s' = { s with oldApprovals := oldApprovals }) := by
  obtain hnew | ⟨hnone, _, -, -, hs'⟩ := unapprove_cases h
  · exact .inl hnew
  · exact .inr ⟨hnone, _, hs'⟩

/-- `cancel` erases the proposal and its approvals, in the table that has them. -/
theorem cancel_cases {ctx : MultisigContext} {proposer proposalName canceler : Name}
    {s s' : MultisigState} (h : s.cancel ctx proposer proposalName canceler = .ok s') :
    (s.approvals.find? ⟨proposer, proposalName⟩ ≠ none ∧
      s' = { s with
        proposals := s.proposals.erase ⟨proposer, proposalName⟩
        approvals := s.approvals.erase ⟨proposer, proposalName⟩ }) ∨
    (s.approvals.find? ⟨proposer, proposalName⟩ = none ∧
      s.oldApprovals.find? ⟨proposer, proposalName⟩ ≠ none ∧
      s' = { s with
        proposals := s.proposals.erase ⟨proposer, proposalName⟩
        oldApprovals := s.oldApprovals.erase ⟨proposer, proposalName⟩ }) := by
  simp only [cancel, bind_eq_ok] at h
  obtain ⟨_, -, prop, -, _, -, h⟩ := h
  split at h
  · rename_i info hinfo
    simp only [pure_eq_ok] at h
    subst h
    exact .inl ⟨by rw [hinfo]; exact Option.some_ne_none _, rfl⟩
  · rename_i hnone
    simp only [bind_eq_ok, check_eq_ok, pure_eq_ok] at h
    obtain ⟨_, hold, rfl⟩ := h
    exact .inr ⟨hnone, hold, rfl⟩

/-- `cancel` closes the proposal and erases its approvals in one of the tables. -/
theorem cancel_spec {ctx : MultisigContext} {proposer proposalName canceler : Name}
    {s s' : MultisigState} (h : s.cancel ctx proposer proposalName canceler = .ok s') :
    ∃ approvals oldApprovals,
      (∀ key, key ≠ ⟨proposer, proposalName⟩ → approvals.find? key = s.approvals.find? key) ∧
      s' = { s with
        proposals := s.proposals.erase ⟨proposer, proposalName⟩
        approvals := approvals
        oldApprovals := oldApprovals } := by
  obtain ⟨-, rfl⟩ | ⟨-, -, rfl⟩ := cancel_cases h
  · exact ⟨_, _, fun key hne => by rw [Table.find?_erase, if_neg hne], rfl⟩
  · exact ⟨_, _, fun _ _ => rfl, rfl⟩

/-- `exec` erases the approvals before it asks the chain, in the table that has them. -/
theorem execRequest_cases {ctx : MultisigContext} {proposer proposalName executer : Name}
    {s s₁ : MultisigState} {prop : Proposal} {levels : List PermissionLevel}
    (h : s.execRequest ctx proposer proposalName executer = .ok (prop, levels, s₁)) :
    s.proposals.find? ⟨proposer, proposalName⟩ = some prop ∧
    ((∃ info, s.approvals.find? ⟨proposer, proposalName⟩ = some info ∧
        levels = (info.providedApprovals.filter s.isStanding).map Approval.level ∧
        s₁ = { s with approvals := s.approvals.erase ⟨proposer, proposalName⟩ }) ∨
      (s.approvals.find? ⟨proposer, proposalName⟩ = none ∧
        s.oldApprovals.find? ⟨proposer, proposalName⟩ ≠ none ∧
        s₁ = { s with oldApprovals := s.oldApprovals.erase ⟨proposer, proposalName⟩ })) := by
  simp only [execRequest, bind_eq_ok, getRow_eq_ok] at h
  obtain ⟨_, -, prop', hprop, _, -, _, -, h⟩ := h
  split at h
  · rename_i info hinfo
    simp only [pure_eq_ok, Prod.mk.injEq] at h
    obtain ⟨rfl, rfl, rfl⟩ := h
    exact ⟨hprop, .inl ⟨info, hinfo, rfl, rfl⟩⟩
  · rename_i hnone
    simp only [bind_eq_ok, getRow_eq_ok, pure_eq_ok, Prod.mk.injEq] at h
    obtain ⟨old, hold, rfl, rfl, rfl⟩ := h
    exact ⟨hprop, .inr ⟨hnone, by rw [hold]; exact Option.some_ne_none _, rfl⟩⟩

/-- `exec` counts the provided approvals that no invalidation is later than. -/
theorem execRequest_spec {ctx : MultisigContext} {proposer proposalName executer : Name}
    {s s₁ : MultisigState} {prop : Proposal} {levels : List PermissionLevel}
    (h : s.execRequest ctx proposer proposalName executer = .ok (prop, levels, s₁)) :
    s.proposals.find? ⟨proposer, proposalName⟩ = some prop ∧
    (∀ info, s.approvals.find? ⟨proposer, proposalName⟩ = some info →
      levels = (info.providedApprovals.filter s.isStanding).map Approval.level) ∧
    ∃ approvals oldApprovals,
      (∀ key, key ≠ ⟨proposer, proposalName⟩ → approvals.find? key = s.approvals.find? key) ∧
      s₁ = { s with approvals := approvals, oldApprovals := oldApprovals } := by
  obtain ⟨hprop, ⟨info, hinfo, hlevels, rfl⟩ | ⟨hnone, -, rfl⟩⟩ := execRequest_cases h
  · refine ⟨hprop, fun info' hinfo' => ?_, _, _, fun key hne => ?_, rfl⟩
    · cases hinfo.symm.trans hinfo'
      exact hlevels
    · rw [Table.find?_erase, if_neg hne]
  · refine ⟨hprop, fun info' hinfo' => ?_, _, _, fun _ _ => rfl, rfl⟩
    rw [hnone] at hinfo'
    cases hinfo'

/-- What `exec` has counted authorises the transaction, which is then sent. -/
theorem exec_spec {ctx : MultisigContext} {proposer proposalName executer : Name}
    {s s' : MultisigState} (h : s.exec ctx proposer proposalName executer = .ok s') :
    ∃ prop levels s₁, s.execRequest ctx proposer proposalName executer = .ok (prop, levels, s₁) ∧
      ctx.isAuthorized prop.packedTransaction levels = true ∧
      s' = { s₁ with
        sent := s₁.sent ++ [⟨senderId proposer proposalName, executer, prop.packedTransaction⟩]
        proposals := s₁.proposals.erase ⟨proposer, proposalName⟩ } := by
  simp only [exec, bind_eq_ok, check_eq_ok, pure_eq_ok] at h
  obtain ⟨⟨prop, levels, s₁⟩, hrequest, _, hauth, rfl⟩ := h
  exact ⟨prop, levels, s₁, hrequest, hauth, rfl⟩

theorem invalidate_spec {ctx : MultisigContext} {account : Name} {s s' : MultisigState}
    (h : s.invalidate ctx account = .ok s') :
    s' = { s with invalidations := s.invalidations.set account ctx.now } := by
  simp only [invalidate, bind_eq_ok, pure_eq_ok] at h
  obtain ⟨_, -, rfl⟩ := h
  rfl

/-! ## The invariant -/

omit [BytesChecksum H] [DecidableEq H] in
/-- The approvals of an instance come from its acts. -/
structure Explained (inst : ProposalInstance H) (info : ApprovalsInfo) : Prop where
  given : ∀ p ∈ info.providedApprovals, ∃ a ∈ inst.acts,
    a.approves = true ∧ a.level = p.level ∧ a.time = p.time
  requested : ∀ p ∈ info.requestedApprovals, p.level ∈ inst.requested
  provided : ∀ p ∈ info.providedApprovals, p.level ∈ inst.requested

/-- The proposal of this name is the instance. -/
structure OpenInstance (s : MultisigState) (key : Scoped Name Name) (inst : ProposalInstance H) :
    Prop where
  proposal : s.proposals.find? key = some ⟨inst.trx⟩
  hashes : ∀ a ∈ inst.acts, ∀ hash, a.hash = some hash → BytesChecksum.sha256 inst.trx = hash
  approvals : ∃ info, s.approvals.find? key = some info ∧ Explained inst info

/-- The tables agree with the record. -/
structure RecordInv (s : MultisigState) (r : MultisigRecord H) : Prop where
  instances : ∀ key inst, r.latest.find? key = some inst → s.proposals.find? key ≠ none →
    OpenInstance s key inst
  invalidated : r.invalidated = s.invalidations
  ids : ∀ key inst, r.latest.find? key = some inst → inst.id < r.created
  injective : ∀ key key' inst inst', r.latest.find? key = some inst →
    r.latest.find? key' = some inst' → inst.id = inst'.id → key = key'
  unsent : ∀ key inst, r.latest.find? key = some inst → s.proposals.find? key ≠ none →
    inst.id ∉ r.executedIds
  executed : ∀ id ∈ r.executedIds, id < r.created
  once : r.executedIds.Nodup

omit [DecidableEq H] in
/-- A record begins with nothing known of what is open. -/
theorem RecordInv.since (s : MultisigState) : RecordInv s (.since s : MultisigRecord H) where
  instances _ _ h := nomatch h
  invalidated := rfl
  ids _ _ h := nomatch h
  injective _ _ _ _ h := nomatch h
  unsent _ _ h := nomatch h
  executed _ h := nomatch h
  once := List.nodup_nil

omit [DecidableEq H] in
/-- An instance depends on the rows of its name. -/
theorem OpenInstance.congr {s s' : MultisigState} {key : Scoped Name Name}
    {inst : ProposalInstance H} (h : OpenInstance s key inst)
    (hproposals : s'.proposals.find? key = s.proposals.find? key)
    (happrovals : s'.approvals.find? key = s.approvals.find? key) : OpenInstance s' key inst where
  proposal := hproposals.trans h.proposal
  hashes := h.hashes
  approvals := by
    rw [happrovals]
    exact h.approvals

omit [BytesChecksum H] [DecidableEq H] in
/-- The instances after an act. -/
theorem find?_act {r : MultisigRecord H} {key key' : Scoped Name Name} {a : ApprovalAct H}
    {inst' : ProposalInstance H} (h : (r.act key a).latest.find? key' = some inst') :
    (key' = key ∧ ∃ inst, r.latest.find? key = some inst ∧
      inst' = { inst with acts := inst.acts ++ [a] }) ∨
    (key' ≠ key ∧ r.latest.find? key' = some inst') := by
  unfold MultisigRecord.act at h
  by_cases hkey : key' = key
  · refine .inl ⟨hkey, ?_⟩
    rw [hkey] at h
    split at h
    · rename_i inst hinst
      simp only [Table.find?_set_self, Option.some.injEq] at h
      exact ⟨inst, hinst, h.symm⟩
    · rename_i hnone
      rw [hnone] at h
      cases h
  · refine .inr ⟨hkey, ?_⟩
    split at h
    · simp only at h
      rwa [Table.find?_set_ne _ _ hkey] at h
    · exact h

omit [BytesChecksum H] [DecidableEq H] in
/-- An act changes nothing but the acts of one instance. -/
theorem act_eq (r : MultisigRecord H) (key : Scoped Name Name) (a : ApprovalAct H) :
    r.act key a = { r with latest := (r.act key a).latest } := by
  unfold MultisigRecord.act
  split <;> rfl

omit [DecidableEq H] in
/-- `approve` and `unapprove` on the proposal of a name. -/
theorem RecordInv.act {s s' : MultisigState} {r : MultisigRecord H} (hI : RecordInv s r)
    {key : Scoped Name Name} {a : ApprovalAct H} (hproposals : s'.proposals = s.proposals)
    (hinval : s'.invalidations = s.invalidations)
    (hother : ∀ key', key' ≠ key → s'.approvals.find? key' = s.approvals.find? key')
    (hopen : ∀ inst : ProposalInstance H, OpenInstance s key inst →
      OpenInstance s' key { inst with acts := inst.acts ++ [a] }) :
    RecordInv s' (r.act key a) := by
  -- an instance after the approval is one from before, with one more event
  have hlatest : ∀ key' inst', (r.act key a).latest.find? key' = some inst' →
      ∃ inst, r.latest.find? key' = some inst ∧ inst'.id = inst.id ∧
        (OpenInstance s key' inst → OpenInstance s' key' inst') := by
    intro key' inst' h
    cases find?_act h with
    | inl hself =>
      obtain ⟨rfl, inst, hinst, rfl⟩ := hself
      exact ⟨inst, hinst, rfl, hopen inst⟩
    | inr hne =>
      obtain ⟨hne, hinst⟩ := hne
      exact ⟨inst', hinst, rfl, fun ho => ho.congr (by rw [hproposals]) (hother key' hne)⟩
  rw [act_eq]
  refine ⟨fun key' inst' h hne => ?_, hI.invalidated.trans hinval.symm, fun key' inst' h => ?_,
    fun k k' i i' h h' hid => ?_, fun key' inst' h hne => ?_, hI.executed, hI.once⟩
  · -- the instances that are open
    obtain ⟨inst, hinst, -, ho⟩ := hlatest key' inst' h
    rw [hproposals] at hne
    exact ho (hI.instances key' inst hinst hne)
  · -- numbers do not change
    obtain ⟨inst, hinst, hid, -⟩ := hlatest key' inst' h
    rw [hid]
    exact hI.ids key' inst hinst
  · obtain ⟨j, hj, hjd, -⟩ := hlatest k i h
    obtain ⟨j', hj', hjd', -⟩ := hlatest k' i' h'
    exact hI.injective k k' j j' hj hj' (by rw [← hjd, ← hjd', hid])
  · -- and nothing is sent
    obtain ⟨inst, hinst, hid, -⟩ := hlatest key' inst' h
    rw [hproposals] at hne
    rw [hid]
    exact hI.unsent key' inst hinst hne

omit [DecidableEq H] in
/-- `cancel` and `exec` close the proposal of a name. -/
theorem RecordInv.close {s s' : MultisigState} {r : MultisigRecord H} (hI : RecordInv s r)
    {key : Scoped Name Name} (hproposals : s'.proposals = s.proposals.erase key)
    (hinval : s'.invalidations = s.invalidations)
    (hother : ∀ key', key' ≠ key → s'.approvals.find? key' = s.approvals.find? key') :
    RecordInv s' r := by
  have hopen : ∀ key', s'.proposals.find? key' ≠ none →
      key' ≠ key ∧ s'.proposals.find? key' = s.proposals.find? key' := by
    intro key' h
    rw [hproposals, Table.find?_erase] at h ⊢
    split at h
    · exact absurd rfl h
    · rename_i hne
      exact ⟨hne, if_neg hne⟩
  refine ⟨fun key' inst h hne => ?_, hI.invalidated.trans hinval.symm, hI.ids, hI.injective,
    fun key' inst h hne => ?_, hI.executed, hI.once⟩
  · obtain ⟨hk, heq⟩ := hopen key' hne
    rw [heq] at hne
    exact (hI.instances key' inst h hne).congr heq (hother key' hk)
  · obtain ⟨-, heq⟩ := hopen key' hne
    rw [heq] at hne
    exact hI.unsent key' inst h hne

omit [DecidableEq H] in
/-- `exec` sends the latest instance of a name. -/
theorem RecordInv.execute {s s' : MultisigState} {r : MultisigRecord H} (hI : RecordInv s r)
    {key : Scoped Name Name} (hprop : s.proposals.find? key ≠ none)
    (hclose : RecordInv s' r) (hproposals : s'.proposals = s.proposals.erase key) :
    RecordInv s' (r.execute key) := by
  unfold MultisigRecord.execute
  split
  · rename_i inst hinst
    -- the instance has not been sent before
    have hunsent := hI.unsent key inst hinst hprop
    -- its number is appended
    have hids : MultisigRecord.executedIds { r with executed := r.executed ++ [(key, inst)] } =
        r.executedIds ++ [inst.id] := List.map_append
    refine ⟨hclose.instances, hclose.invalidated, hI.ids, hI.injective, fun key' inst' h hne => ?_,
      fun id hid => ?_, ?_⟩
    · rw [hids, List.mem_append, not_or]
      refine ⟨hclose.unsent key' inst' h hne, fun hid => ?_⟩
      -- only the instance that has been sent has its number, and it is not open any more
      have hkey := hI.injective key' key inst' inst h hinst (List.mem_singleton.mp hid)
      rw [hproposals, hkey, Table.find?_erase_self] at hne
      exact hne rfl
    · -- the numbers that have been sent are below the counter
      rw [hids] at hid
      cases List.mem_append.mp hid with
      | inl hmem => exact hI.executed id hmem
      | inr hmem =>
        rw [List.mem_singleton.mp hmem]
        exact hI.ids key inst hinst
    · -- and none comes twice
      rw [hids]
      apply List.Nodup.append hI.once (List.nodup_singleton _)
      simpa using hunsent
  · -- without an instance nothing is recorded
    exact hclose

omit [BytesChecksum H] [DecidableEq H] in
/-- The lists of a new proposal. -/
theorem Explained.new (id : Nat) (requested : List PermissionLevel) (trx : List UInt8) :
    Explained (⟨id, requested, trx, []⟩ : ProposalInstance H)
      ⟨requested.map fun level => ⟨level, 0⟩, []⟩ where
  given _ h := nomatch h
  requested p h := by
    obtain ⟨level, hlevel, rfl⟩ := List.mem_map.mp h
    exact hlevel
  provided _ h := nomatch h

omit [DecidableEq H] in
/-- A new instance has no acts and has not been sent. -/
theorem RecordInv.propose {s : MultisigState} {r : MultisigRecord H} (hI : RecordInv s r)
    (key : Scoped Name Name) (requested : List PermissionLevel) (trx : List UInt8) :
    RecordInv
      { s with
        proposals := s.proposals.set key ⟨trx⟩
        approvals := s.approvals.set key ⟨requested.map fun level => ⟨level, 0⟩, []⟩ }
      { r with
        created := r.created + 1
        latest := r.latest.set key ⟨r.created, requested, trx, []⟩ } := by
  -- the new instance is the one of its key, the others are as before
  have hlatest : ∀ key' inst', (r.latest.set key ⟨r.created, requested, trx, []⟩).find? key' =
      some inst' → (key' = key ∧ inst' = ⟨r.created, requested, trx, []⟩) ∨
        (key' ≠ key ∧ r.latest.find? key' = some inst') := by
    intro key' inst' h
    rw [Table.find?_set] at h
    split at h
    · rename_i heq
      exact .inl ⟨heq, (Option.some.inj h).symm⟩
    · rename_i hne
      exact .inr ⟨hne, h⟩
  refine ⟨fun key' inst' h hne => ?_, hI.invalidated, fun key' inst' h => ?_,
    fun k k' i i' h h' hid => ?_, fun key' inst' h hne => ?_, fun id hid => ?_, hI.once⟩
  · -- the instances that are open
    rcases hlatest key' inst' h with ⟨rfl, rfl⟩ | ⟨hkey, hinst⟩
    · exact ⟨Table.find?_set_self _ _ _, (fun a ha => nomatch ha), _, Table.find?_set_self _ _ _,
        Explained.new _ _ _⟩
    · rw [Table.find?_set_ne _ _ hkey] at hne
      exact (hI.instances key' inst' hinst hne).congr (Table.find?_set_ne _ _ hkey)
        (Table.find?_set_ne _ _ hkey)
  · -- the numbers stay below the counter
    rcases hlatest key' inst' h with ⟨-, rfl⟩ | ⟨-, hinst⟩
    · exact Nat.lt_succ_self _
    · exact Nat.lt_succ_of_lt (hI.ids key' inst' hinst)
  · -- and stay different from each other
    rcases hlatest k i h with ⟨hk, rfl⟩ | ⟨-, hi⟩
    · rcases hlatest k' i' h' with ⟨hk', -⟩ | ⟨-, hi'⟩
      · rw [hk, hk']
      · exact absurd hid.symm (hI.ids k' i' hi').ne
    · rcases hlatest k' i' h' with ⟨-, rfl⟩ | ⟨-, hi'⟩
      · exact absurd hid (hI.ids k i hi).ne
      · exact hI.injective k k' i i' hi hi' hid
  · -- a new instance has not been sent
    rcases hlatest key' inst' h with ⟨-, rfl⟩ | ⟨hkey, hinst⟩
    · intro hid
      exact absurd (hI.executed _ hid) (lt_irrefl _)
    · rw [Table.find?_set_ne _ _ hkey] at hne
      exact hI.unsent key' inst' hinst hne
  · exact Nat.lt_succ_of_lt (hI.executed id hid)

omit [BytesChecksum H] [DecidableEq H] in
/-- A new approval is explained by the act that gives it. -/
theorem Explained.provide {inst : ProposalInstance H} {info : ApprovalsInfo}
    (h : Explained inst info) {level : PermissionLevel} (time : TimePoint) (hash : Option H)
    (hlisted : level ∈ info.requestedApprovals.map Approval.level) :
    Explained { inst with acts := inst.acts ++ [⟨true, level, time, hash⟩] }
      (info.provide level time) where
  given p hp := by
    cases List.mem_append.mp hp with
    | inl hold =>
      obtain ⟨a, ha, hact⟩ := h.given p hold
      exact ⟨a, List.mem_append_left _ ha, hact⟩
    | inr hnew =>
      rw [List.mem_singleton.mp hnew]
      exact ⟨_, List.mem_append_right _ List.mem_cons_self, rfl, rfl, rfl⟩
  requested p hp := h.requested p (List.mem_of_mem_eraseP hp)
  provided p hp := by
    cases List.mem_append.mp hp with
    | inl hold => exact h.provided p hold
    | inr hnew =>
      obtain ⟨q, hq, hlevel⟩ := List.mem_map.mp hlisted
      rw [List.mem_singleton.mp hnew]
      exact hlevel ▸ h.requested q hq

omit [BytesChecksum H] [DecidableEq H] in
/-- What is left after one has been taken back is explained as before. -/
theorem Explained.revoke {inst : ProposalInstance H} {info : ApprovalsInfo}
    (h : Explained inst info) {level : PermissionLevel} (time : TimePoint)
    (hlisted : level ∈ info.providedApprovals.map Approval.level) :
    Explained { inst with acts := inst.acts ++ [⟨false, level, time, none⟩] }
      (info.revoke level time) where
  given p hp := by
    obtain ⟨a, ha, hact⟩ := h.given p (List.mem_of_mem_eraseP hp)
    exact ⟨a, List.mem_append_left _ ha, hact⟩
  requested p hp := by
    cases List.mem_append.mp hp with
    | inl hold => exact h.requested p hold
    | inr hnew =>
      obtain ⟨q, hq, hlevel⟩ := List.mem_map.mp hlisted
      rw [List.mem_singleton.mp hnew]
      exact hlevel ▸ h.provided q hq
  provided p hp := h.provided p (List.mem_of_mem_eraseP hp)

/-- A call keeps the tables in agreement with the record. -/
theorem RecordInv.step {s s' : MultisigState} {r : MultisigRecord H} {call : MultisigCall H}
    (hI : RecordInv s r) (h : s.step call = .ok s') :
    RecordInv s' (recordMultisig r s call s') := by
  obtain ⟨ctx, action⟩ := call
  cases action with
  | propose proposer proposalName requested trx =>
    obtain ⟨-, rfl⟩ := propose_spec h
    exact hI.propose _ requested trx
  | approve proposer proposalName level hash =>
    obtain ⟨hhash, ⟨info, hinfo, hlisted, rfl⟩ | ⟨hnone, old, rfl⟩⟩ := approve_spec h
    · -- the approval goes to the row of the proposal
      refine hI.act rfl rfl (fun key' hne => Table.find?_set_ne _ _ hne) fun inst ho => ?_
      obtain ⟨info', hinfo', hexp⟩ := ho.approvals
      cases hinfo.symm.trans hinfo'
      refine ⟨ho.proposal, fun a ha hash' hsome => ?_, _, Table.find?_set_self _ _ _,
        hexp.provide ctx.now hash hlisted⟩
      cases List.mem_append.mp ha with
      | inl hold => exact ho.hashes a hold hash' hsome
      | inr hnew =>
        rw [List.mem_singleton.mp hnew] at hsome
        obtain ⟨prop, hprop, hsha⟩ := hhash hash' hsome
        cases ho.proposal.symm.trans hprop
        exact hsha
    · -- the old table of approvals has no instance
      refine hI.act rfl rfl (fun _ _ => rfl) fun inst ho => ?_
      obtain ⟨info', hinfo', -⟩ := ho.approvals
      rw [hnone] at hinfo'
      cases hinfo'
  | unapprove proposer proposalName level =>
    obtain ⟨info, hinfo, hlisted, rfl⟩ | ⟨hnone, old, rfl⟩ := unapprove_spec h
    · -- the same for taking an approval back
      refine hI.act rfl rfl (fun key' hne => Table.find?_set_ne _ _ hne) fun inst ho => ?_
      obtain ⟨info', hinfo', hexp⟩ := ho.approvals
      cases hinfo.symm.trans hinfo'
      refine ⟨ho.proposal, fun a ha hash' hsome => ?_, _, Table.find?_set_self _ _ _,
        hexp.revoke ctx.now hlisted⟩
      cases List.mem_append.mp ha with
      | inl hold => exact ho.hashes a hold hash' hsome
      | inr hnew =>
        rw [List.mem_singleton.mp hnew] at hsome
        cases hsome
    · refine hI.act rfl rfl (fun _ _ => rfl) fun inst ho => ?_
      obtain ⟨info', hinfo', -⟩ := ho.approvals
      rw [hnone] at hinfo'
      cases hinfo'
  | cancel proposer proposalName canceler =>
    obtain ⟨approvals, old, hother, rfl⟩ := cancel_spec h
    -- canceling closes the proposal
    exact hI.close rfl rfl hother
  | exec proposer proposalName executer =>
    obtain ⟨prop, levels, s₁, hrequest, -, rfl⟩ := exec_spec h
    obtain ⟨hprop, -, approvals, old, hother, rfl⟩ := execRequest_spec hrequest
    -- executing closes it and records what is sent
    refine hI.execute ?_ (hI.close rfl rfl hother) rfl
    rw [hprop]
    exact Option.some_ne_none _
  | invalidate account =>
    have hs' := invalidate_spec h
    subst hs'
    -- the time of the invalidation is recorded as it is stored
    refine ⟨fun key inst hinst hne => ?_, ?_, hI.ids, hI.injective, hI.unsent, hI.executed,
      hI.once⟩
    · exact (hI.instances key inst hinst hne).congr rfl rfl
    · show r.invalidated.set account ctx.now = s.invalidations.set account ctx.now
      rw [hI.invalidated]

end MultisigState

end UxContracts
