import UxContracts.ForStd.Local
import UxContracts.Native.Multisig

/-!
# Proposals do not interfere

Anyone may propose, under any name, and the deferred transactions of all proposals are sent by one
account. Every action but `invalidate` is about one proposal (`MultisigAction.key`), and what the
contract has of a proposal is a local part of its tables (`view_local`): its rows, the times of the
invalidations, which count in every proposal, and what has been sent under its sender id, which it
shares with no other proposal (`senderId_inj`). So other proposals can neither change it nor make
its actions fail (`proposals_independent`).
-/

namespace UxContracts

/-- The proposal that an action is about. An invalidation is about all of them. -/
def MultisigAction.key {H : Type} : MultisigAction H → Option (Scoped Name Name)
  | .propose proposer proposalName _ _ => some ⟨proposer, proposalName⟩
  | .approve proposer proposalName _ _ => some ⟨proposer, proposalName⟩
  | .unapprove proposer proposalName _ => some ⟨proposer, proposalName⟩
  | .cancel proposer proposalName _ => some ⟨proposer, proposalName⟩
  | .exec proposer proposalName _ => some ⟨proposer, proposalName⟩
  | .invalidate _ => none

namespace MultisigState

/-! ## Sender ids -/

/-- The lower half of a sender id is the name of the proposal, the upper half the proposer. -/
private theorem getLsbD_senderId (proposer proposalName : Name) {i : Nat} (hi : i < 64) :
    (senderId proposer proposalName).getLsbD i = proposalName.value.toBitVec.getLsbD i ∧
      (senderId proposer proposalName).getLsbD (64 + i) =
        proposer.value.toBitVec.getLsbD i := by
  have hlow : i < 128 := by omega
  have hhigh : 64 + i < 128 := by omega
  constructor
  · simp [senderId, hi, hlow]
  · simp [senderId, hhigh]

/-- Names whose bits are the same are the same. -/
private theorem name_ext {n n' : Name}
    (h : ∀ i, i < 64 → n.value.toBitVec.getLsbD i = n'.value.toBitVec.getLsbD i) : n = n' := by
  have hvalue : n.value = n'.value := UInt64.eq_of_toBitVec_eq (BitVec.eq_of_getLsbD_eq h)
  cases n
  cases n'
  exact congrArg Name.mk hvalue

/-- The sender id determines the proposal. -/
theorem senderId_inj {proposer proposer' proposalName proposalName' : Name}
    (h : senderId proposer proposalName = senderId proposer' proposalName') :
    proposer = proposer' ∧ proposalName = proposalName' := by
  constructor
  · refine name_ext fun i hi => ?_
    rw [← (getLsbD_senderId proposer proposalName hi).2, h, (getLsbD_senderId _ _ hi).2]
  · refine name_ext fun i hi => ?_
    rw [← (getLsbD_senderId proposer proposalName hi).1, h, (getLsbD_senderId _ _ hi).1]

/-! ## What there is of a proposal -/

/-- What the contract has of a proposal. -/
structure ProposalView where
  proposal : Option Proposal
  approvals : Option ApprovalsInfo
  oldApprovals : Option OldApprovalsInfo
  /-- for all accounts, whatever levels the proposal asks for -/
  invalidations : Table Name TimePoint
  /-- what has been sent under the sender id of the proposal -/
  sent : List DeferredTransaction

def view (key : Scoped Name Name) (s : MultisigState) : ProposalView where
  proposal := s.proposals.find? key
  approvals := s.approvals.find? key
  oldApprovals := s.oldApprovals.find? key
  invalidations := s.invalidations
  sent := s.sent.filter fun trx => trx.senderId = senderId key.scope key.key

/-- `s` has become `s'` and `t` has become `t'` by writes to the rows of one proposal, which are
    the same after as before, and by sending the same. -/
structure Alike (key : Scoped Name Name) (s s' t t' : MultisigState) : Prop where
  same : view key s' = view key t'
  frame : ∀ k, k ≠ key → view k s' = view k s

namespace Alike

variable {key : Scoped Name Name} {s s' t t' : MultisigState}

/-- The rows of a proposal are written. -/
theorem write (h : Alike key s s' t t')
    {f : Table (Scoped Name Name) Proposal → Table (Scoped Name Name) Proposal}
    {g : Table (Scoped Name Name) ApprovalsInfo → Table (Scoped Name Name) ApprovalsInfo}
    {o : Table (Scoped Name Name) OldApprovalsInfo → Table (Scoped Name Name) OldApprovalsInfo}
    (hf : Table.WritesAt key f) (hg : Table.WritesAt key g) (ho : Table.WritesAt key o) :
    Alike key
      s { s' with
        proposals := f s'.proposals
        approvals := g s'.approvals
        oldApprovals := o s'.oldApprovals }
      t { t' with
        proposals := f t'.proposals
        approvals := g t'.approvals
        oldApprovals := o t'.oldApprovals } := by
  refine ⟨?_, fun k hk => ?_⟩
  · have hsame := h.same
    simp only [view, ProposalView.mk.injEq] at hsame ⊢
    exact ⟨hf.same hsame.1, hg.same hsame.2.1, ho.same hsame.2.2.1, hsame.2.2.2⟩
  · rw [← h.frame k hk]
    simp only [view, hf.frame hk, hg.frame hk, ho.frame hk]

/-- A transaction is sent for the proposal. -/
theorem send (h : Alike key s s' t t') (payer : Name) (trx : List UInt8) :
    Alike key
      s { s' with sent := s'.sent ++ [⟨senderId key.scope key.key, payer, trx⟩] }
      t { t' with sent := t'.sent ++ [⟨senderId key.scope key.key, payer, trx⟩] } := by
  refine ⟨?_, fun k hk => ?_⟩
  · have hsame := h.same
    simp only [view, ProposalView.mk.injEq, List.filter_append] at hsame ⊢
    exact ⟨hsame.1, hsame.2.1, hsame.2.2.1, hsame.2.2.2.1, congrArg (· ++ _) hsame.2.2.2.2⟩
  -- another proposal has another sender id, so nothing of its own is sent
  · have hne : senderId key.scope key.key ≠ senderId k.scope k.key := by
      intro heq
      obtain ⟨hscope, hkey⟩ := senderId_inj heq
      cases key
      cases k
      exact hk (congrArg₂ Scoped.mk hscope.symm hkey.symm)
    rw [← h.frame k hk]
    simp only [view, List.filter_append, List.filter_cons, List.filter_nil, hne, decide_false,
      Bool.false_eq_true, if_false, List.append_nil]

end Alike

/-! ## The actions -/

variable {H : Type} [BytesChecksum H] [DecidableEq H]

section

variable {ctx : MultisigContext} {proposer proposalName : Name} {s s' t : MultisigState}

/-- What `propose` does depends on the view of its proposal only. -/
theorem propose_local {requested : List PermissionLevel} {trx : List UInt8}
    (hsame : view ⟨proposer, proposalName⟩ s = view ⟨proposer, proposalName⟩ t)
    (h : s.propose ctx proposer proposalName requested trx = .ok s') :
    ∃ t', t.propose ctx proposer proposalName requested trx = .ok t' ∧
      Alike ⟨proposer, proposalName⟩ s s' t t' := by
  have halike : Alike ⟨proposer, proposalName⟩ s s t t := ⟨hsame, fun _ _ => rfl⟩
  simp only [view, ProposalView.mk.injEq] at hsame
  obtain ⟨hproposals, happrovals, -⟩ := hsame
  simp only [propose, bind_eq_ok, check_eq_ok, emplaceRow_eq_ok, pure_eq_ok] at h ⊢
  obtain ⟨header, hheader, _, hauth, _, htime, _, hnone, _, hlevels, _, ⟨-, rfl⟩, _, ⟨hnew, rfl⟩,
    rfl⟩ := h
  rw [hproposals] at hnone
  rw [happrovals] at hnew
  exact ⟨_, ⟨header, hheader, (), hauth, (), htime, (), hnone, (), hlevels, _, ⟨hnone, rfl⟩, _,
    ⟨hnew, rfl⟩, rfl⟩, halike.write (.set _) (.set _) .id⟩

/-- Only the proposal decides about the hash. -/
theorem assertHash_congr {key : Scoped Name Name} {hash : Option H}
    (h : s.proposals.find? key = t.proposals.find? key) :
    s.assertHash key hash = t.assertHash key hash := by
  cases hash with
  | none => rfl
  | some hash => simp only [assertHash, Table.getRow, h]

/-- What `approve` does depends on the view of its proposal only. -/
theorem approve_local {level : PermissionLevel} {hash : Option H}
    (hsame : view ⟨proposer, proposalName⟩ s = view ⟨proposer, proposalName⟩ t)
    (h : s.approve ctx proposer proposalName level hash = .ok s') :
    ∃ t', t.approve ctx proposer proposalName level hash = .ok t' ∧
      Alike ⟨proposer, proposalName⟩ s s' t t' := by
  have halike : Alike ⟨proposer, proposalName⟩ s s t t := ⟨hsame, fun _ _ => rfl⟩
  simp only [view, ProposalView.mk.injEq] at hsame
  obtain ⟨hproposals, happrovals, hold, -⟩ := hsame
  simp only [approve, bind_eq_ok, assertHash_congr hproposals] at h ⊢
  obtain ⟨_, hauth, _, hhash, h⟩ := h
  rw [← happrovals]
  -- the approvals are in the one table, or in the older one
  cases hrow : s.approvals.find? ⟨proposer, proposalName⟩ with
  | some info =>
    simp only [hrow, bind_eq_ok, check_eq_ok, pure_eq_ok] at h ⊢
    obtain ⟨_, hlisted, rfl⟩ := h
    exact ⟨_, ⟨(), hauth, (), hhash, (), hlisted, rfl⟩, halike.write .id (.set _) .id⟩
  | none =>
    simp only [hrow, bind_eq_ok, getRow_eq_ok, check_eq_ok, pure_eq_ok, ← hold] at h ⊢
    obtain ⟨info, hinfo, _, hlisted, rfl⟩ := h
    exact ⟨_, ⟨(), hauth, (), hhash, info, hinfo, (), hlisted, rfl⟩, halike.write .id .id (.set _)⟩

omit [BytesChecksum H] [DecidableEq H] in
/-- What `unapprove` does depends on the view of its proposal only. -/
theorem unapprove_local {level : PermissionLevel}
    (hsame : view ⟨proposer, proposalName⟩ s = view ⟨proposer, proposalName⟩ t)
    (h : s.unapprove ctx proposer proposalName level = .ok s') :
    ∃ t', t.unapprove ctx proposer proposalName level = .ok t' ∧
      Alike ⟨proposer, proposalName⟩ s s' t t' := by
  have halike : Alike ⟨proposer, proposalName⟩ s s t t := ⟨hsame, fun _ _ => rfl⟩
  simp only [view, ProposalView.mk.injEq] at hsame
  obtain ⟨-, happrovals, hold, -⟩ := hsame
  simp only [unapprove, bind_eq_ok] at h ⊢
  obtain ⟨_, hauth, h⟩ := h
  rw [← happrovals]
  cases hrow : s.approvals.find? ⟨proposer, proposalName⟩ with
  | some info =>
    simp only [hrow, bind_eq_ok, check_eq_ok, pure_eq_ok] at h ⊢
    obtain ⟨_, hlisted, rfl⟩ := h
    exact ⟨_, ⟨(), hauth, (), hlisted, rfl⟩, halike.write .id (.set _) .id⟩
  | none =>
    simp only [hrow, bind_eq_ok, getRow_eq_ok, check_eq_ok, pure_eq_ok, ← hold] at h ⊢
    obtain ⟨info, hinfo, _, hlisted, rfl⟩ := h
    exact ⟨_, ⟨(), hauth, info, hinfo, (), hlisted, rfl⟩, halike.write .id .id (.set _)⟩

/-- What `cancel` does depends on the view of its proposal only. -/
theorem cancel_local {canceler : Name}
    (hsame : view ⟨proposer, proposalName⟩ s = view ⟨proposer, proposalName⟩ t)
    (h : s.cancel ctx proposer proposalName canceler = .ok s') :
    ∃ t', t.cancel ctx proposer proposalName canceler = .ok t' ∧
      Alike ⟨proposer, proposalName⟩ s s' t t' := by
  have halike : Alike ⟨proposer, proposalName⟩ s s t t := ⟨hsame, fun _ _ => rfl⟩
  simp only [view, ProposalView.mk.injEq] at hsame
  obtain ⟨hproposals, happrovals, hold, -⟩ := hsame
  simp only [cancel, bind_eq_ok, getRow_eq_ok, ← hproposals, ← happrovals, ← hold] at h ⊢
  obtain ⟨_, hauth, prop, hprop, _, hexpired, h⟩ := h
  cases hrow : s.approvals.find? ⟨proposer, proposalName⟩ with
  | some info =>
    simp only [hrow, pure_eq_ok] at h ⊢
    subst h
    exact ⟨_, ⟨(), hauth, prop, hprop, (), hexpired, rfl⟩, halike.write .erase .erase .id⟩
  | none =>
    simp only [hrow, bind_eq_ok, check_eq_ok, pure_eq_ok] at h ⊢
    obtain ⟨_, hsome, rfl⟩ := h
    exact ⟨_, ⟨(), hauth, prop, hprop, (), hexpired, (), hsome, rfl⟩, halike.write .erase .id .erase⟩

/-- What an execution counts comes from the rows of the proposal and the invalidations. -/
theorem execRequest_local {executer : Name} {prop : Proposal} {levels : List PermissionLevel}
    (hsame : view ⟨proposer, proposalName⟩ s = view ⟨proposer, proposalName⟩ t)
    (h : s.execRequest ctx proposer proposalName executer = .ok (prop, levels, s')) :
    ∃ t', t.execRequest ctx proposer proposalName executer = .ok (prop, levels, t') ∧
      Alike ⟨proposer, proposalName⟩ s s' t t' := by
  -- nothing has been written yet
  have halike : Alike ⟨proposer, proposalName⟩ s s t t := ⟨hsame, fun _ _ => rfl⟩
  simp only [view, ProposalView.mk.injEq] at hsame
  obtain ⟨hproposals, happrovals, hold, hinvalidations, -⟩ := hsame
  -- all accounts have the same invalidations
  have hinvalidated (account : Name) :
      s.invalidations.find? account = t.invalidations.find? account := by
    rw [hinvalidations]
  have hstanding : s.isStanding = t.isStanding := by
    funext p
    simp only [isStanding, hinvalidations]
  simp only [execRequest, bind_eq_ok, getRow_eq_ok, hproposals, happrovals, hinvalidated,
    hstanding] at h ⊢
  obtain ⟨_, hauth, prop', hprop, header, hheader, _, htime, h⟩ := h
  cases hrow : t.approvals.find? ⟨proposer, proposalName⟩ with
  -- the approvals in the new table
  | some info =>
    simp only [hrow, pure_eq_ok, Prod.mk.injEq] at h ⊢
    obtain ⟨rfl, rfl, rfl⟩ := h
    exact ⟨_, ⟨(), hauth, _, hprop, header, hheader, (), htime, rfl, rfl, rfl⟩,
      halike.write .id .erase .id⟩
  -- the approvals in the older table
  | none =>
    simp only [hrow, bind_eq_ok, getRow_eq_ok, pure_eq_ok, Prod.mk.injEq, hold] at h ⊢
    obtain ⟨info, hinfo, rfl, rfl, rfl⟩ := h
    exact ⟨_, ⟨(), hauth, _, hprop, header, hheader, (), htime, info, hinfo, rfl, rfl, rfl⟩,
      halike.write .id .id .erase⟩

/-- What `exec` does depends on the view of its proposal only. -/
theorem exec_local {executer : Name}
    (hsame : view ⟨proposer, proposalName⟩ s = view ⟨proposer, proposalName⟩ t)
    (h : s.exec ctx proposer proposalName executer = .ok s') :
    ∃ t', t.exec ctx proposer proposalName executer = .ok t' ∧
      Alike ⟨proposer, proposalName⟩ s s' t t' := by
  simp only [exec, bind_eq_ok, check_eq_ok, pure_eq_ok] at h ⊢
  obtain ⟨⟨prop, levels, s₁⟩, hrequest, _, hauth, rfl⟩ := h
  obtain ⟨t₁, hrequest', halike⟩ := execRequest_local hsame hrequest
  -- the approvals are gone with the request, the proposal goes after the sending
  have hsend := halike.send executer prop.packedTransaction
  exact ⟨_, ⟨(prop, levels, t₁), hrequest', (), hauth, rfl⟩, hsend.write .erase .id .id⟩

end

/-- An action on a proposal reads and writes what there is of it alone. -/
theorem step_local {key : Scoped Name Name} {s s' t : MultisigState} {call : MultisigCall H}
    (hkey : call.action.key = some key) (hsame : view key s = view key t)
    (h : s.step call = .ok s') : ∃ t', t.step call = .ok t' ∧ Alike key s s' t t' := by
  obtain ⟨ctx, action⟩ := call
  cases action with
  | propose proposer proposalName requested trx =>
    cases hkey
    exact propose_local hsame h
  | approve proposer proposalName level hash =>
    cases hkey
    exact approve_local hsame h
  | unapprove proposer proposalName level =>
    cases hkey
    exact unapprove_local hsame h
  | cancel proposer proposalName canceler =>
    cases hkey
    exact cancel_local hsame h
  | exec proposer proposalName executer =>
    cases hkey
    exact exec_local hsame h
  | invalidate account => cases hkey

/-- An invalidation is the same for all proposals. -/
theorem invalidate_local {key : Scoped Name Name} {s s' t : MultisigState} {call : MultisigCall H}
    (hkey : call.action.key = none) (hsame : view key s = view key t) (h : s.step call = .ok s') :
    ∃ t', t.step call = .ok t' ∧ view key s' = view key t' := by
  obtain ⟨ctx, action⟩ := call
  cases action with
  | invalidate account =>
    simp only [step, invalidate, bind_eq_ok, pure_eq_ok] at h ⊢
    obtain ⟨_, hauth, rfl⟩ := h
    refine ⟨_, ⟨(), hauth, rfl⟩, ?_⟩
    simp only [view, ProposalView.mk.injEq] at hsame ⊢
    obtain ⟨hproposals, happrovals, hold, hinvalidations, hsent⟩ := hsame
    -- the same time is written in both
    exact ⟨hproposals, happrovals, hold, hinvalidations ▸ rfl, hsent⟩
  | propose => cases hkey
  | approve => cases hkey
  | unapprove => cases hkey
  | cancel => cases hkey
  | exec => cases hkey

/-- The actions on other proposals leave the view of a proposal alone. -/
theorem view_local (key : Scoped Name Name) :
    Run.Local (step (H := H)) (view key)
      fun call => call.action.key = none ∨ call.action.key = some key where
  frame := by
    intro s _ s' hne h
    -- what does not concern the proposal is on another one
    obtain ⟨k, hk⟩ := Option.ne_none_iff_exists'.mp fun hnone => hne (.inl hnone)
    obtain ⟨t', -, halike⟩ := step_local hk rfl h
    exact halike.frame key fun heq => hne (.inr (heq ▸ hk))
  agree := by
    rintro s t _ s' (hnone | hsome) hsame h
    · exact invalidate_local hnone hsame h
    · obtain ⟨t', ht', halike⟩ := step_local hsome hsame h
      exact ⟨t', ht', halike.same⟩

/-- After every run a proposal is what the actions on it and the invalidations alone make of it:
    its rows, what has been sent under its sender id, and which of these actions have been
    accepted. -/
theorem proposals_independent (s : MultisigState) (calls : List (MultisigCall H))
    (key : Scoped Name Name) :
    let own := calls.filter fun call => call.action.key = none ∨ call.action.key = some key
    view key (Run.exec step s calls) = view key (Run.exec step s own) ∧
      (Run.accepted step s calls).filter
          (fun call => call.action.key = none ∨ call.action.key = some key) =
        Run.accepted step s own :=
  ⟨(view_local key).exec_filter s calls, (view_local key).accepted_filter s calls⟩

end MultisigState

end UxContracts
