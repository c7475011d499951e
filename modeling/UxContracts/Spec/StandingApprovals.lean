import UxContracts.Spec.ProposalRecord

/-!
# Only standing approvals count

The levels that `exec` asks the chain about have been requested, and their last act on the
instance is an approval later than the last invalidation of the actor
(`standing_approvals_count`). There is one exception: a requested list may name a level
twice, and then `unapprove` takes back only the first of its approvals
(`revoked_approval_counted`).
-/

namespace UxContracts

/-- The last act of a level on an instance. -/
def ProposalInstance.lastAct {H : Type} (inst : ProposalInstance H) (level : PermissionLevel) :
    Option (ApprovalAct H) :=
  (inst.acts.filter (·.level = level)).getLast?

/-- The last act is the new one if it is on this level. -/
theorem lastAct_concat {H : Type} (inst : ProposalInstance H) (a : ApprovalAct H)
    (level : PermissionLevel) :
    ({ inst with acts := inst.acts ++ [a] } : ProposalInstance H).lastAct level =
      if a.level = level then some a else inst.lastAct level := by
  unfold ProposalInstance.lastAct
  rw [List.filter_append]
  split
  · rename_i heq
    rw [List.filter_cons_of_pos (by simpa using heq), List.filter_nil, List.getLast?_concat]
  · rename_i hne
    rw [List.filter_cons_of_neg (by simpa using hne), List.filter_nil, List.append_nil]

/-- The last act is one of the acts. -/
theorem mem_of_lastAct {H : Type} {inst : ProposalInstance H} {level : PermissionLevel}
    {a : ApprovalAct H} (h : inst.lastAct level = some a) : a ∈ inst.acts :=
  (List.mem_filter.mp (List.mem_of_getLast? h)).1

/-- The level has been asked for, its last act on the instance is an approval, and its actor has
    not invalidated it since. -/
def Standing {H : Type} (r : MultisigRecord H) (inst : ProposalInstance H)
    (level : PermissionLevel) : Prop :=
  level ∈ inst.requested ∧ ∃ a, inst.lastAct level = some a ∧ a.approves = true ∧
    ∀ time, r.invalidated.find? level.actor = some time → time < a.time

namespace MultisigState

variable {H : Type} [BytesChecksum H] [DecidableEq H]

/-- How often a level is among the provided approvals of a proposal. -/
def providedCount (s : MultisigState) (key : Scoped Name Name) (level : PermissionLevel) : Nat :=
  match s.approvals.find? key with
  | some info => (info.providedApprovals.map Approval.level).count level
  | none => 0

/-- No accepted call takes back a level that has been provided more than once. -/
def UnapprovesOnce (s : MultisigState) (call : MultisigCall H) : Prop :=
  match call.action, s.step call with
  | .unapprove proposer proposalName level, .ok _ =>
    s.providedCount ⟨proposer, proposalName⟩ level ≤ 1
  | _, _ => True

instance (s : MultisigState) (call : MultisigCall H) : Decidable (UnapprovesOnce s call) := by
  unfold UnapprovesOnce
  split <;> infer_instance

/-! ## Approvals with an act behind them -/

omit [BytesChecksum H] [DecidableEq H] in
/-- The last act of each provided level is an approval, and at least as late as what is stored. -/
def Backed (inst : ProposalInstance H) (info : ApprovalsInfo) : Prop :=
  ∀ p ∈ info.providedApprovals, ∃ a, inst.lastAct p.level = some a ∧ a.approves = true ∧
    p.time ≤ a.time

omit [BytesChecksum H] [DecidableEq H] in
/-- A new approval is backed by its own act. -/
theorem Backed.provide {inst : ProposalInstance H} {info : ApprovalsInfo} (h : Backed inst info)
    (level : PermissionLevel) {time : TimePoint} (hash : Option H)
    (hpast : ∀ a ∈ inst.acts, a.time ≤ time) :
    Backed { inst with acts := inst.acts ++ [⟨true, level, time, hash⟩] }
      (info.provide level time) := by
  intro p hp
  rw [lastAct_concat]
  cases List.mem_append.mp hp with
  | inl hold =>
    obtain ⟨a, hlast, happroves, htime⟩ := h p hold
    split
    · exact ⟨_, rfl, rfl, Int64.le_trans htime (hpast a (mem_of_lastAct hlast))⟩
    · exact ⟨a, hlast, happroves, htime⟩
  | inr hnew =>
    rw [List.mem_singleton.mp hnew]
    exact ⟨_, if_pos rfl, rfl, Int64.le_refl _⟩

omit [BytesChecksum H] [DecidableEq H] in
/-- What has been provided once is gone when it is taken back. -/
theorem level_ne_of_mem_eraseP {level : PermissionLevel} {l : List Approval}
    (hcount : (l.map Approval.level).count level ≤ 1) {p : Approval}
    (hp : p ∈ l.eraseP (·.level = level)) : p.level ≠ level := by
  induction l with
  | nil => cases hp
  | cons q l ih =>
    rw [List.map_cons, List.count_cons] at hcount
    by_cases hq : q.level = level
    · rw [List.eraseP_cons_of_pos (by simpa using hq)] at hp
      intro heq
      have hpos := List.count_pos_iff.mpr (List.mem_map_of_mem (f := Approval.level) hp)
      rw [heq] at hpos
      rw [if_pos (by simpa using hq)] at hcount
      omega
    · rw [List.eraseP_cons_of_neg (by simpa using hq)] at hp
      cases List.mem_cons.mp hp with
      | inl heq => rwa [heq]
      | inr hmem => exact ih (by omega) hmem

omit [BytesChecksum H] [DecidableEq H] in
/-- An approval that stood once is gone when it has been taken back. -/
theorem Backed.revoke {inst : ProposalInstance H} {info : ApprovalsInfo} (h : Backed inst info)
    {level : PermissionLevel} (time : TimePoint)
    (hcount : (info.providedApprovals.map Approval.level).count level ≤ 1) :
    Backed { inst with acts := inst.acts ++ [⟨false, level, time, none⟩] }
      (info.revoke level time) := by
  intro p hp
  have hne := level_ne_of_mem_eraseP hcount hp
  rw [lastAct_concat, if_neg hne.symm]
  exact h p (List.mem_of_mem_eraseP hp)

/-! ## The invariant -/

/-- At the time `now`: the approvals of each open instance have an act behind them. -/
structure StandingInv (now : TimePoint) (s : MultisigState) (r : MultisigRecord H) : Prop where
  record : RecordInv s r
  backed : ∀ key inst info, r.latest.find? key = some inst → s.proposals.find? key ≠ none →
    s.approvals.find? key = some info → Backed inst info
  past : ∀ key inst, r.latest.find? key = some inst → ∀ a ∈ inst.acts, a.time ≤ now

omit [DecidableEq H] in
/-- An act on one proposal keeps the invariant of all. -/
theorem StandingInv.act {s s' : MultisigState} {r : MultisigRecord H} {key : Scoped Name Name}
    {a : ApprovalAct H} (hI : StandingInv a.time s r) (hrecord : RecordInv s' (r.act key a))
    (hproposals : s'.proposals = s.proposals)
    (hother : ∀ key', key' ≠ key → s'.approvals.find? key' = s.approvals.find? key')
    (hbacked : ∀ inst info info', r.latest.find? key = some inst →
      s.approvals.find? key = some info → s'.approvals.find? key = some info' →
      Backed inst info → Backed { inst with acts := inst.acts ++ [a] } info') :
    StandingInv a.time s' (r.act key a) := by
  refine ⟨hrecord, fun key' inst' info' h hne hinfo' => ?_, fun key' inst' h b hb => ?_⟩
  · rw [hproposals] at hne
    rcases find?_act h with ⟨rfl, inst, hinst, rfl⟩ | ⟨hkey, hinst⟩
    · obtain ⟨info, hinfo, -⟩ := (hI.record.instances key' inst hinst hne).approvals
      exact hbacked inst info info' hinst hinfo hinfo' (hI.backed key' inst info hinst hne hinfo)
    · rw [hother key' hkey] at hinfo'
      exact hI.backed key' inst' info' hinst hne hinfo'
  · rcases find?_act h with ⟨-, inst, hinst, rfl⟩ | ⟨-, hinst⟩
    · cases List.mem_append.mp hb with
      | inl hold => exact hI.past key inst hinst b hold
      | inr hnew =>
        rw [List.mem_singleton.mp hnew]
        exact Int64.le_refl _
    · exact hI.past key' inst' hinst b hb

omit [DecidableEq H] in
/-- Closing a proposal keeps the invariant of the others. -/
theorem StandingInv.close {now : TimePoint} {s s' : MultisigState} {r r' : MultisigRecord H}
    (hI : StandingInv now s r) (hrecord : RecordInv s' r') (hlatest : r'.latest = r.latest)
    {key : Scoped Name Name} (hproposals : s'.proposals = s.proposals.erase key)
    (hother : ∀ key', key' ≠ key → s'.approvals.find? key' = s.approvals.find? key') :
    StandingInv now s' r' := by
  refine ⟨hrecord, fun key' inst info h hne hinfo => ?_, fun key' inst h => ?_⟩
  · rw [hlatest] at h
    by_cases hkey : key' = key
    · rw [hproposals, hkey, Table.find?_erase_self] at hne
      exact absurd rfl hne
    · rw [hproposals, Table.find?_erase_ne _ hkey] at hne
      rw [hother key' hkey] at hinfo
      exact hI.backed key' inst info h hne hinfo
  · rw [hlatest] at h
    exact hI.past key' inst h

omit [BytesChecksum H] [DecidableEq H] in
@[simp] theorem latest_execute (r : MultisigRecord H) (key : Scoped Name Name) :
    (r.execute key).latest = r.latest := by
  unfold MultisigRecord.execute
  split <;> rfl

/-- A call at the time `now` keeps the invariant. -/
theorem StandingInv.step {s s' : MultisigState} {r : MultisigRecord H} {call : MultisigCall H}
    (hI : StandingInv call.ctx.now s r) (hcond : UnapprovesOnce s call)
    (h : s.step call = .ok s') : StandingInv call.ctx.now s' (recordMultisig r s call s') := by
  have hrecord := hI.record.step h
  obtain ⟨ctx, action⟩ := call
  cases action with
  | propose proposer proposalName requested trx =>
    obtain ⟨-, rfl⟩ := propose_spec h
    refine ⟨hrecord, fun key inst info hinst hne hinfo => ?_, fun key inst hinst a ha => ?_⟩
    -- a new proposal has no approvals yet
    · by_cases hkey : key = ⟨proposer, proposalName⟩
      · have hnew := (Table.find?_set_self _ _ _).symm.trans (hkey ▸ hinfo)
        cases hnew
        intro p hp
        cases hp
      · have hinst := (Table.find?_set_ne _ _ hkey).symm.trans hinst
        -- the proposals of other keys are as before
        have hinfo := (Table.find?_set_ne _ _ hkey).symm.trans hinfo
        have hne : s.proposals.find? key ≠ none := by
          rw [← Table.find?_set_ne s.proposals ⟨trx⟩ hkey]
          exact hne
        exact hI.backed key inst info hinst hne hinfo
    · by_cases hkey : key = ⟨proposer, proposalName⟩
      · have hnew := (Table.find?_set_self _ _ _).symm.trans (hkey ▸ hinst)
        cases hnew
        cases ha
      · exact hI.past key inst ((Table.find?_set_ne _ _ hkey).symm.trans hinst) a ha
  | approve proposer proposalName level hash =>
    obtain ⟨-, ⟨info, hinfo, hlisted, rfl⟩ | ⟨hnone, old, rfl⟩⟩ := approve_spec h
    · -- the approval is the last one of its level
      apply StandingInv.act (s := s) (a := ⟨true, level, ctx.now, hash⟩) hI hrecord rfl
        (fun key' hne => Table.find?_set_ne _ _ hne)
      intro inst info' info'' hinst hinfo' hinfo'' hbacked
      cases hinfo.symm.trans hinfo'
      cases (Table.find?_set_self _ _ _).symm.trans hinfo''
      exact hbacked.provide level hash (hI.past _ inst hinst)
    -- the approvals in the older table do not stand in the new one
    · apply StandingInv.act (s := s) (a := ⟨true, level, ctx.now, hash⟩) hI hrecord rfl (fun _ _ => rfl)
      intro inst info' info'' hinst hinfo'
      rw [hnone] at hinfo'
      cases hinfo'
  | unapprove proposer proposalName level =>
    obtain ⟨info, hinfo, hlisted, rfl⟩ | ⟨hnone, old, rfl⟩ := unapprove_spec h
    -- no second approval of the level is left behind
    · have hcount : s.providedCount ⟨proposer, proposalName⟩ level ≤ 1 := by
        unfold UnapprovesOnce at hcond
        rw [h] at hcond
        exact hcond
      unfold providedCount at hcount
      rw [hinfo] at hcount
      apply StandingInv.act (s := s) (a := ⟨false, level, ctx.now, none⟩) hI hrecord rfl
        (fun key' hne => Table.find?_set_ne _ _ hne)
      intro inst info' info'' hinst hinfo' hinfo'' hbacked
      cases hinfo.symm.trans hinfo'
      cases (Table.find?_set_self _ _ _).symm.trans hinfo''
      exact hbacked.revoke ctx.now hcount
    · -- an approval in the older table
      apply StandingInv.act (s := s) (a := ⟨false, level, ctx.now, none⟩) hI hrecord rfl (fun _ _ => rfl)
      intro inst info' info'' hinst hinfo'
      rw [hnone] at hinfo'
      cases hinfo'
  | cancel proposer proposalName canceler =>
    obtain ⟨approvals, old, hother, rfl⟩ := cancel_spec h
    -- a closed proposal backs nothing
    exact hI.close hrecord rfl rfl hother
  | exec proposer proposalName executer =>
    obtain ⟨prop, levels, s₁, hrequest, -, rfl⟩ := exec_spec h
    obtain ⟨-, -, approvals, old, hother, rfl⟩ := execRequest_spec hrequest
    exact hI.close hrecord (latest_execute r _) rfl hother
  | invalidate account =>
    have hs' := invalidate_spec h
    subst hs'
    -- what stands in the tables does not look at invalidations
    exact ⟨hrecord, hI.backed, hI.past⟩

/-! ## Runs -/

/-- In every run from any state, whose times do not decrease and in which no level that a
    proposal has been provided with more than once is taken back: the levels that `exec` calls
    `check_transaction_authorization` with stand. -/
theorem standing_approvals_count (s : MultisigState) {calls : List (MultisigCall H)}
    (hsorted : calls.Pairwise fun a b => a.ctx.now ≤ b.ctx.now)
    (hcond : Run.Meets step UnapprovesOnce s calls) {ctx : MultisigContext}
    {proposer proposalName executer : Name} {prop : Proposal} {levels : List PermissionLevel}
    {s₁ : MultisigState} {inst : ProposalInstance H} :
    let p := Run.exec (Run.observed step recordMultisig) (s, .since s) calls
    p.1.execRequest ctx proposer proposalName executer = .ok (prop, levels, s₁) →
    p.2.latest.find? ⟨proposer, proposalName⟩ = some inst →
    ∀ level ∈ levels, Standing p.2 inst level := by
  intro p hrequest hinst level hlevel
  -- one call keeps the invariant at its own time
  have hstep : ∀ (p : MultisigState × MultisigRecord H) (call : MultisigCall H) q,
      StandingInv call.ctx.now p.1 p.2 → UnapprovesOnce p.1 call →
      Run.observed step recordMultisig p call = .ok q → StandingInv call.ctx.now q.1 q.2 := by
    intro p call q hI hcond h
    obtain ⟨hstep, hrec⟩ := Run.observed_eq_ok h
    rw [hrec]
    exact hI.step hcond hstep
  -- and it holds at any later time
  have hmono : ∀ (t t' : TimePoint) (p : MultisigState × MultisigRecord H), t ≤ t' →
      StandingInv t p.1 p.2 → StandingInv t' p.1 p.2 := by
    intro t t' p hle hI
    exact ⟨hI.record, hI.backed, fun key inst h a ha =>
      Int64.le_trans (hI.past key inst h a ha) hle⟩
  have hstart : StandingInv Int64.minValue s (.since s : MultisigRecord H) :=
    ⟨.since s, (fun _ _ _ h => nomatch h), fun _ _ h => nomatch h⟩
  have hmin : ∀ call ∈ calls, Int64.minValue ≤ call.ctx.now := by
    intro call _
    rw [Int64.le_iff_toInt_le]
    exact Int64.minValue_le_toInt _
  -- so it holds at the end of a run that is ordered in time
  obtain ⟨now, -, hI⟩ := Run.exec_of_sorted
    (I := fun t (p : MultisigState × MultisigRecord H) => StandingInv t p.1 p.2)
    (C := fun (p : MultisigState × MultisigRecord H) call => UnapprovesOnce p.1 call)
    hmono hstep hstart hmin hsorted
    (Run.meets_observed recordMultisig (.since s) hcond)
  have hI : StandingInv now p.1 p.2 := hI
  -- what `exec` has read
  obtain ⟨hprop, hlevels, -⟩ := execRequest_spec hrequest
  have hopen : p.1.proposals.find? ⟨proposer, proposalName⟩ ≠ none := by
    rw [hprop]
    exact Option.some_ne_none _
  obtain ⟨info, hinfo, hexp⟩ := (hI.record.instances _ inst hinst hopen).approvals
  rw [hlevels info hinfo] at hlevel
  -- a level that counts comes from a provided approval
  obtain ⟨approval, happroval, rfl⟩ := List.mem_map.mp hlevel
  obtain ⟨hprovided, hstanding⟩ := List.mem_filter.mp happroval
  obtain ⟨a, hlast, happroves, htime⟩ := hI.backed _ inst info hinst hopen hinfo approval hprovided
  -- which is later than the invalidation
  refine ⟨hexp.provided approval hprovided, a, hlast, happroves, fun time hinval => ?_⟩
  rw [hI.record.invalidated] at hinval
  unfold isStanding at hstanding
  rw [hinval] at hstanding
  exact Int64.lt_of_lt_of_le (of_decide_eq_true hstanding) htime

namespace Sample

/-- Alice approves twice what asks for her twice, and takes back one approval. -/
def repeated : List (MultisigCall (List UInt8)) :=
  [call alice 1600000000 (.propose alice first [active alice, active alice] trx),
    call alice 1600000001 (.approve alice first (active alice) none),
    call alice 1600000002 (.approve alice first (active alice) none),
    call alice 1600000003 (.unapprove alice first (active alice))]

end Sample

open Sample in
/-- The sample passes on the approval of alice. -/
theorem standing_approvals_count_sample :
    let p := Run.exec (Run.observed step recordMultisig) (genesis, .since genesis) approved
    ∃ prop s₁ inst,
      p.1.execRequest (ctx bob 1600000004) alice first bob = .ok (prop, [active alice], s₁) ∧
      p.2.latest.find? ⟨alice, first⟩ = some inst ∧ Standing p.2 inst (active alice) := by
  intro p
  have hsorted : approved.Pairwise fun a b => a.ctx.now ≤ b.ctx.now := by decide +kernel
  have hcond : Run.Meets step UnapprovesOnce genesis approved := by decide +kernel
  have hlevels : (p.1.execRequest (ctx bob 1600000004) alice first bob).map (fun q => q.2.1) =
      .ok [active alice] := by
    decide +kernel
  have hsome : (p.2.latest.find? ⟨alice, first⟩).isSome = true := by decide +kernel
  obtain ⟨inst, hinst⟩ := Option.isSome_iff_exists.mp hsome
  cases hrequest : p.1.execRequest (ctx bob 1600000004) alice first bob with
  | error e =>
    rw [hrequest] at hlevels
    cases hlevels
  | ok q =>
    obtain ⟨prop, levels, s₁⟩ := q
    rw [hrequest] at hlevels
    cases hlevels
    exact ⟨prop, s₁, inst, rfl, hinst, standing_approvals_count genesis hsorted hcond hrequest
      hinst _ List.mem_cons_self⟩

open Sample in
/-- The approval of alice counts, though her last act is `unapprove`. -/
theorem revoked_approval_counted :
    let p := Run.exec (Run.observed step recordMultisig) (genesis, .since genesis) repeated
    (repeated.Pairwise fun a b => a.ctx.now ≤ b.ctx.now) ∧
    (p.1.execRequest (ctx bob 1600000004) alice first bob).map (fun q => q.2.1) =
      .ok [active alice] ∧
    ∃ inst, p.2.latest.find? ⟨alice, first⟩ = some inst ∧ ¬ Standing p.2 inst (active alice) := by
  intro p
  have hlast : ((p.2.latest.find? ⟨alice, first⟩).bind fun inst =>
      (inst.lastAct (active alice)).map ApprovalAct.approves) = some false := by
    decide +kernel
  refine ⟨by decide +kernel, by decide +kernel, ?_⟩
  obtain ⟨inst, hinst, hact⟩ := Option.bind_eq_some_iff.mp hlast
  refine ⟨inst, hinst, ?_⟩
  rintro ⟨-, a, ha, happroves, -⟩
  rw [ha, Option.map_some, happroves] at hact
  cases hact

end MultisigState

end UxContracts
