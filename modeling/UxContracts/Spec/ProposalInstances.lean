import UxContracts.Spec.ProposalRecord

/-!
# An execution is of what has been approved

A run from empty tables: `exec` sends the bytes of the latest instance of the name, what it counts
has been given to this instance, and an approval that came with a hash was for these bytes. What
has been sent are the transactions of the executed instances, one after the other, and no instance
is executed twice (`executed_proposal_approved`).
-/

namespace UxContracts

namespace MultisigState

variable {H : Type} [BytesChecksum H] [DecidableEq H]

omit [DecidableEq H] in
/-- The approvals of an instance that came with a hash came with the one of its transaction. -/
def HashesMatch (inst : ProposalInstance H) : Prop :=
  ∀ a ∈ inst.acts, ∀ hash, a.hash = some hash → BytesChecksum.sha256 inst.trx = hash

/-- What has been sent are the transactions of the executed instances, in this order, each under
    the sender id of its name. -/
def SendsExecuted (s : MultisigState) (r : MultisigRecord H) : Prop :=
  s.sent.map (fun trx => (trx.senderId, trx.packedTransaction)) =
    r.executed.map fun e => (senderId e.1.scope e.1.key, e.2.trx)

/-- The record covers all proposals and all transactions that have been sent. -/
structure CompleteInv (s : MultisigState) (r : MultisigRecord H) : Prop where
  record : RecordInv s r
  known : ∀ key, s.proposals.find? key ≠ none → r.latest.find? key ≠ none
  sends : SendsExecuted s r
  hashes : ∀ e ∈ r.executed, HashesMatch e.2

omit [DecidableEq H] in
/-- Nothing has been proposed and nothing has been sent. -/
theorem CompleteInv.genesis : CompleteInv genesis (.since genesis : MultisigRecord H) where
  record := .since _
  known _ h := absurd rfl h
  sends := rfl
  hashes _ h := nomatch h

omit [BytesChecksum H] [DecidableEq H] in
/-- An act does not forget an instance. -/
theorem find?_act_ne_none {r : MultisigRecord H} {key key' : Scoped Name Name} (a : ApprovalAct H)
    (h : r.latest.find? key' ≠ none) : (r.act key a).latest.find? key' ≠ none := by
  unfold MultisigRecord.act
  split
  · show (Table.set _ _ _).find? key' ≠ none
    rw [Table.find?_set]
    split
    · exact Option.some_ne_none _
    · exact h
  · exact h

omit [BytesChecksum H] [DecidableEq H] in
/-- An act sends nothing. -/
theorem executed_act (r : MultisigRecord H) (key : Scoped Name Name) (a : ApprovalAct H) :
    (r.act key a).executed = r.executed := by
  rw [act_eq]

omit [DecidableEq H] in
/-- `approve` and `unapprove` keep the record complete, since they neither open a proposal nor send
    one. -/
theorem CompleteInv.act {s s' : MultisigState} {r : MultisigRecord H} (hI : CompleteInv s r)
    {key : Scoped Name Name} {a : ApprovalAct H} (hrecord : RecordInv s' (r.act key a))
    (hproposals : s'.proposals = s.proposals) (hsent : s'.sent = s.sent) :
    CompleteInv s' (r.act key a) where
  record := hrecord
  known key' hne := find?_act_ne_none a (hI.known key' (hproposals ▸ hne))
  sends := by
    unfold SendsExecuted
    rw [executed_act, hsent]
    exact hI.sends
  hashes e he := hI.hashes e (executed_act r key a ▸ he)

omit [DecidableEq H] in
/-- `exec` sends the latest instance of its name, whose bytes are those of the proposal. -/
theorem CompleteInv.execute {s s' : MultisigState} {r : MultisigRecord H} (hI : CompleteInv s r)
    {key : Scoped Name Name} {prop : Proposal} {payer : Name}
    (hprop : s.proposals.find? key = some prop)
    (hrecord : RecordInv s' (r.execute key)) (hproposals : s'.proposals = s.proposals.erase key)
    (hsent : s'.sent = s.sent ++ [⟨senderId key.scope key.key, payer, prop.packedTransaction⟩]) :
    CompleteInv s' (r.execute key) := by
  -- the proposal that is executed is open, so it has an instance
  have hopen : s.proposals.find? key ≠ none := by
    rw [hprop]
    exact Option.some_ne_none _
  obtain ⟨inst, hinst⟩ := Option.ne_none_iff_exists'.mp (hI.known key hopen)
  have ho := hI.record.instances key inst hinst hopen
  -- and its bytes are those of the instance
  have hbytes : prop = ⟨inst.trx⟩ := Option.some.inj (hprop.symm.trans ho.proposal)
  have hexecute : r.execute key = { r with executed := r.executed ++ [(key, inst)] } := by
    unfold MultisigRecord.execute
    rw [hinst]
  refine ⟨hrecord, fun key' hne => ?_, ?_, fun e he => ?_⟩
  · -- a proposal that is still open was open before
    rw [hexecute]
    apply hI.known
    intro hnone
    rw [hproposals, Table.find?_erase, hnone, ite_self] at hne
    exact hne rfl
  · -- one more is sent, and one more is recorded
    unfold SendsExecuted
    rw [hexecute, hsent, List.map_append, List.map_append, ← hI.sends, hbytes]
    rfl
  · rw [hexecute] at he
    cases List.mem_append.mp he with
    | inl hold => exact hI.hashes e hold
    | inr hnew =>
      rw [List.mem_singleton.mp hnew]
      -- the hashes of the instance have been checked
      exact ho.hashes

/-- A call keeps the record complete. -/
theorem CompleteInv.step {s s' : MultisigState} {r : MultisigRecord H} {call : MultisigCall H}
    (hI : CompleteInv s r) (h : s.step call = .ok s') :
    CompleteInv s' (recordMultisig r s call s') := by
  have hrecord := hI.record.step h
  obtain ⟨ctx, action⟩ := call
  cases action with
  | propose proposer proposalName requested trx =>
    obtain ⟨-, rfl⟩ := propose_spec h
    refine ⟨hrecord, fun key hne => ?_, hI.sends, hI.hashes⟩
    -- the new instance is known
    show (r.latest.set _ _).find? key ≠ none
    by_cases hkey : key = ⟨proposer, proposalName⟩
    · rw [hkey, Table.find?_set_self]
      exact Option.some_ne_none _
    · rw [Table.find?_set_ne _ _ hkey]
      have hne : (s.proposals.set ⟨proposer, proposalName⟩ ⟨trx⟩).find? key ≠ none := hne
      rw [Table.find?_set_ne _ _ hkey] at hne
      exact hI.known key hne
  | approve proposer proposalName level hash =>
    obtain ⟨-, ⟨info, -, -, rfl⟩ | ⟨-, old, rfl⟩⟩ := approve_spec h
    · -- an approval is recorded in one of the two tables
      exact hI.act hrecord rfl rfl
    · exact hI.act hrecord rfl rfl
  | unapprove proposer proposalName level =>
    obtain ⟨info, -, -, rfl⟩ | ⟨-, old, rfl⟩ := unapprove_spec h
    · -- and taken back from one of the two tables
      exact hI.act hrecord rfl rfl
    · exact hI.act hrecord rfl rfl
  | cancel proposer proposalName canceler =>
    obtain ⟨approvals, old, -, rfl⟩ := cancel_spec h
    -- a canceled proposal is not open any more
    refine ⟨hrecord, fun key hne => hI.known key fun hnone => ?_, hI.sends, hI.hashes⟩
    have hne : (s.proposals.erase ⟨proposer, proposalName⟩).find? key ≠ none := hne
    rw [Table.find?_erase, hnone, ite_self] at hne
    exact hne rfl
  | exec proposer proposalName executer =>
    obtain ⟨prop, levels, s₁, hrequest, -, rfl⟩ := exec_spec h
    obtain ⟨hprop, -, approvals, old, -, rfl⟩ := execRequest_spec hrequest
    -- what is sent is recorded with its instance
    exact hI.execute hprop hrecord rfl rfl
  | invalidate account =>
    have hs' := invalidate_spec h
    subst hs'
    exact ⟨hrecord, hI.known, hI.sends, hI.hashes⟩

/-- In every run from empty tables: a successful `exec` sends the bytes that the latest instance of
    the name was proposed with, each level that it counts has been approved on this instance, and
    the approvals of the instance that came with a hash came with the hash of these bytes. All that
    has been sent are the transactions of the executed instances, and these are distinct. -/
theorem executed_proposal_approved (calls : List (MultisigCall H)) :
    let p := Run.exec (Run.observed step recordMultisig) (genesis, .since genesis) calls
    (∀ ctx proposer proposalName executer s',
      p.1.step ⟨ctx, (.exec proposer proposalName executer : MultisigAction H)⟩ = .ok s' →
      ∃ inst prop levels s₁, p.2.latest.find? ⟨proposer, proposalName⟩ = some inst ∧
        p.1.execRequest ctx proposer proposalName executer = .ok (prop, levels, s₁) ∧
        prop.packedTransaction = inst.trx ∧
        s'.sent = p.1.sent ++
          [⟨senderId proposer proposalName, executer, prop.packedTransaction⟩] ∧
        (recordMultisig p.2 p.1 ⟨ctx, .exec proposer proposalName executer⟩ s').executed =
          p.2.executed ++ [(⟨proposer, proposalName⟩, inst)] ∧
        (∀ level ∈ levels, ∃ a ∈ inst.acts, a.approves = true ∧ a.level = level) ∧
        ∀ a ∈ inst.acts, ∀ hash, a.hash = some hash →
          BytesChecksum.sha256 prop.packedTransaction = hash) ∧
    SendsExecuted p.1 p.2 ∧ p.2.executedIds.Nodup ∧ ∀ e ∈ p.2.executed, HashesMatch e.2 := by
  intro p
  -- a call keeps the record complete, and so does the run
  have hstep : ∀ (p : MultisigState × MultisigRecord H) call q, CompleteInv p.1 p.2 →
      Run.observed step recordMultisig p call = .ok q → CompleteInv q.1 q.2 := by
    intro p call q hI h
    obtain ⟨hstep, hrec⟩ := Run.observed_eq_ok h
    rw [hrec]
    exact hI.step hstep
  have hI : CompleteInv p.1 p.2 :=
    Run.exec_induction (I := fun (p : MultisigState × MultisigRecord H) => CompleteInv p.1 p.2)
      hstep .genesis calls
  refine ⟨fun ctx proposer proposalName executer s' h => ?_, hI.sends, hI.record.once,
    hI.hashes⟩
  -- `exec` has found the proposal and the approvals
  obtain ⟨prop, levels, s₁, hrequest, -, rfl⟩ := exec_spec h
  obtain ⟨hprop, hlevels, approvals, old, -, rfl⟩ := execRequest_spec hrequest
  have hopen : p.1.proposals.find? ⟨proposer, proposalName⟩ ≠ none := by
    rw [hprop]
    exact Option.some_ne_none _
  obtain ⟨inst, hinst⟩ := Option.ne_none_iff_exists'.mp (hI.known _ hopen)
  have ho := hI.record.instances _ inst hinst hopen
  obtain ⟨info, hinfo, hexp⟩ := ho.approvals
  -- the bytes that are sent are those of the instance
  have hbytes : prop = ⟨inst.trx⟩ := Option.some.inj (hprop.symm.trans ho.proposal)
  refine ⟨inst, prop, levels, _, hinst, hrequest, ?_, rfl, ?_, fun level hlevel => ?_,
    fun a ha hash hsome => ?_⟩
  · rw [hbytes]
  · show (p.2.execute _).executed = _
    unfold MultisigRecord.execute
    rw [hinst]
  · -- each level has been approved for this instance
    rw [hlevels info hinfo] at hlevel
    obtain ⟨approval, happroval, rfl⟩ := List.mem_map.mp hlevel
    obtain ⟨a, ha, happroves, heq, -⟩ := hexp.given approval (List.mem_of_mem_filter happroval)
    exact ⟨a, ha, happroves, heq⟩
  · -- and a hash that came with an approval is the one of these bytes
    rw [hbytes]
    exact ho.hashes a ha hash hsome

open Sample in
/-- Bob executes what alice has approved. -/
theorem executed_proposal_approved_sample :
    let p := Run.exec (Run.observed step recordMultisig) (genesis, .since genesis) approved
    ∃ s' inst, p.1.step (call bob 1600000004 (.exec alice first bob)) = .ok s' ∧
      s'.sent = [⟨senderId alice first, bob, trx⟩] ∧
      p.2.latest.find? ⟨alice, first⟩ = some inst ∧ inst.trx = trx ∧
      ∃ a ∈ inst.acts, a.approves = true ∧ a.level = active alice := by
  intro p
  have hlevels : (p.1.execRequest (ctx bob 1600000004) alice first bob).map (fun q => q.2.1) =
      .ok [active alice] := by
    decide +kernel
  have hsent : (p.1.step (call bob 1600000004 (.exec alice first bob))).map MultisigState.sent =
      .ok [⟨senderId alice first, bob, trx⟩] := by
    decide +kernel
  cases hexec : p.1.step (call bob 1600000004 (.exec alice first bob)) with
  | error e =>
    rw [hexec] at hsent
    cases hsent
  | ok s' =>
    rw [hexec] at hsent
    obtain ⟨inst, prop, levels, s₁, hinst, hrequest, hbytes, hsend, -, hgiven, -⟩ :=
      (executed_proposal_approved approved).1 _ _ _ _ _ hexec
    have hrequest : p.1.execRequest (ctx bob 1600000004) alice first bob = _ := hrequest
    rw [hrequest] at hlevels
    cases hlevels
    have hsent : s'.sent = _ := Except.ok.inj hsent
    have hnone : p.1.sent = [] := by decide +kernel
    have htrx : inst.trx = trx := by
      rw [hsend, hnone, hbytes] at hsent
      exact congrArg DeferredTransaction.packedTransaction (List.cons.inj hsent).1
    exact ⟨s', inst, rfl, hsent, hinst, htrx, hgiven _ List.mem_cons_self⟩

end MultisigState

end UxContracts
