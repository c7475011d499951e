import UxContracts.ForStd.Local
import UxContracts.Native.Contract

/-!
# Tokens do not interfere

One contract holds all tokens, and anyone may create one. Every action is about one symbol code
(`TokenAction.code`), and the rows of that code are a local part of the tables (`rowsOf_local`):
no other action reads or writes them. So the issuer of one token can neither change another token
nor make its actions fail (`tokens_independent`), and how the actions on different tokens are
interleaved does not matter (`token_order`).
-/

namespace UxContracts

/-- The token that an action is about. -/
def TokenAction.code : TokenAction → SymbolCode
  | .create _ maximumSupply => maximumSupply.symbol.code
  | .issue _ quantity _ => quantity.symbol.code
  | .retire quantity _ => quantity.symbol.code
  | .transfer _ _ quantity _ => quantity.symbol.code
  | .openRow _ symbol _ => symbol.code
  | .close _ symbol => symbol.code

namespace TokenState

/-! ## The rows of a token -/

/-- The `stat` row of a token and the balances of all owners. -/
def rowsOf (code : SymbolCode) (s : TokenState) : Option CurrencyStats × (Name → Option Asset) :=
  (s.stat.find? code, fun owner => s.accounts.find? ⟨owner, code⟩)

/-- Two states agree on a token if they have the same rows of it. -/
theorem rowsOf_eq {code : SymbolCode} {s t : TokenState} : rowsOf code s = rowsOf code t ↔
    s.stat.find? code = t.stat.find? code ∧
      ∀ owner, s.accounts.find? ⟨owner, code⟩ = t.accounts.find? ⟨owner, code⟩ := by
  simp only [rowsOf, Prod.mk.injEq, funext_iff]

/-- Only the row of the owner decides what `sub_balance` does. -/
theorem subBalance_local {a a' b : Accounts} {owner : Name} {value : Asset}
    (h : subBalance a owner value = .ok a')
    (hab : a.find? ⟨owner, value.symbol.code⟩ = b.find? ⟨owner, value.symbol.code⟩) :
    ∃ row, a' = a.set ⟨owner, value.symbol.code⟩ row ∧
      subBalance b owner value = .ok (b.set ⟨owner, value.symbol.code⟩ row) := by
  simp only [subBalance, bind_eq_ok, check_eq_ok, getRow_eq_ok, pure_eq_ok] at h
  obtain ⟨from_, hfrom, _, hle, balance, hsub, rfl⟩ := h
  refine ⟨balance, rfl, ?_⟩
  simp only [subBalance, bind_eq_ok, check_eq_ok, getRow_eq_ok, pure_eq_ok]
  exact ⟨from_, hab ▸ hfrom, (), hle, balance, hsub, rfl⟩

/-- Only the row of the owner decides what `add_balance` does. -/
theorem addBalance_local {a a' b : Accounts} {owner : Name} {value : Asset}
    (h : addBalance a owner value = .ok a')
    (hab : a.find? ⟨owner, value.symbol.code⟩ = b.find? ⟨owner, value.symbol.code⟩) :
    ∃ row, a' = a.set ⟨owner, value.symbol.code⟩ row ∧
      addBalance b owner value = .ok (b.set ⟨owner, value.symbol.code⟩ row) := by
  unfold addBalance at h ⊢
  rw [← hab]
  cases hto : a.find? ⟨owner, value.symbol.code⟩ with
  | none =>
    -- a first balance is a new row
    simp only [hto, pure_eq_ok] at h
    exact ⟨value, h.symm, rfl⟩
  | some to_ =>
    simp only [hto, bind_eq_ok, pure_eq_ok] at h
    obtain ⟨balance, hadd, rfl⟩ := h
    refine ⟨balance, rfl, ?_⟩
    simp only [bind_eq_ok, pure_eq_ok]
    exact ⟨balance, hadd, rfl⟩

/-! ## Writing to the rows of one token -/

/-- `s` has become `s'` and `t` has become `t'` by writes to the rows of one token, which are the
    same after as before. -/
structure Alike (code : SymbolCode) (s s' t t' : TokenState) : Prop where
  same : rowsOf code s' = rowsOf code t'
  frame : ∀ c, c ≠ code → rowsOf c s' = rowsOf c s

namespace Alike

variable {code : SymbolCode} {s s' t t' : TokenState}

/-- Writing the same `stat` row keeps the states alike. -/
theorem writeStat (h : Alike code s s' t t')
    {f : Table SymbolCode CurrencyStats → Table SymbolCode CurrencyStats}
    (hf : Table.WritesAt code f) :
    Alike code s { s' with stat := f s'.stat } t { t' with stat := f t'.stat } := by
  obtain ⟨hstat, hbalances⟩ := rowsOf_eq.mp h.same
  refine ⟨rowsOf_eq.mpr ⟨hf.same hstat, hbalances⟩, fun c hc => ?_⟩
  obtain ⟨hstat, hbalances⟩ := rowsOf_eq.mp (h.frame c hc)
  exact rowsOf_eq.mpr ⟨(hf.frame hc).trans hstat, hbalances⟩

/-- Writing the same balance keeps the states alike. -/
theorem writeBalance (h : Alike code s s' t t') {owner : Name} {f : Accounts → Accounts}
    (hf : Table.WritesAt ⟨owner, code⟩ f) :
    Alike code s { s' with accounts := f s'.accounts } t
      { t' with accounts := f t'.accounts } := by
  obtain ⟨hstat, hbalances⟩ := rowsOf_eq.mp h.same
  refine ⟨rowsOf_eq.mpr ⟨hstat, fun o => hf.find?_same (hbalances owner) (hbalances o)⟩,
    fun c hc => ?_⟩
  obtain ⟨hstat, hbalances⟩ := rowsOf_eq.mp (h.frame c hc)
  refine rowsOf_eq.mpr ⟨hstat, fun o => ?_⟩
  -- the balances of another token are under other keys, whoever owns them
  have hne : (⟨o, c⟩ : Scoped Name SymbolCode) ≠ ⟨owner, code⟩ := by simp [hc]
  exact (hf.frame hne).trans (hbalances o)

end Alike

/-! ## The actions -/

section

variable {ctx : Context} {s s' t : TokenState}

/-- What `create` does depends on the rows of its token only. -/
theorem create_local {issuer : Name} {maximumSupply : Asset}
    (hsame : rowsOf maximumSupply.symbol.code s = rowsOf maximumSupply.symbol.code t)
    (h : s.create ctx issuer maximumSupply = .ok s') :
    ∃ t', t.create ctx issuer maximumSupply = .ok t' ∧
      Alike maximumSupply.symbol.code s s' t t' := by
  have halike : Alike maximumSupply.symbol.code s s t t := ⟨hsame, fun _ _ => rfl⟩
  obtain ⟨hstat, -⟩ := rowsOf_eq.mp hsame
  simp only [create, bind_eq_ok, check_eq_ok, requireAuth_eq_ok, pure_eq_ok] at h ⊢
  obtain ⟨_, hauth, _, hsym, _, hvalid, _, hpos, _, hnone, rfl⟩ := h
  exact ⟨_, ⟨(), hauth, (), hsym, (), hvalid, (), hpos, (), hstat ▸ hnone, rfl⟩, halike.writeStat (.set _)⟩

/-- What `issue` does depends on the rows of its token only. -/
theorem issue_local {to_ : Name} {q : Asset} {memo : String}
    (hsame : rowsOf q.symbol.code s = rowsOf q.symbol.code t)
    (h : s.issue ctx to_ q memo = .ok s') :
    ∃ t', t.issue ctx to_ q memo = .ok t' ∧ Alike q.symbol.code s s' t t' := by
  have halike : Alike q.symbol.code s s t t := ⟨hsame, fun _ _ => rfl⟩
  obtain ⟨hstat, hbalances⟩ := rowsOf_eq.mp hsame
  simp only [issue, bind_eq_ok, check_eq_ok, requireAuth_eq_ok, getRow_eq_ok, pure_eq_ok] at h ⊢
  obtain ⟨_, hsym, _, hmemo, st, hst, _, hto, _, hauth, _, hvalid, _, hpos, _, hprec, _, hmax, supply,
    hsupply, accounts, hadd, rfl⟩ := h
  obtain ⟨row, rfl, hadd'⟩ := addBalance_local hadd (hbalances st.issuer)
  exact ⟨_, ⟨(), hsym, (), hmemo, st, hstat ▸ hst, (), hto, (), hauth, (), hvalid, (), hpos, (), hprec,
    (), hmax, supply, hsupply, _, hadd', rfl⟩, (halike.writeStat (.set _)).writeBalance (.set _)⟩

/-- What `retire` does depends on the rows of its token only. -/
theorem retire_local {q : Asset} {memo : String}
    (hsame : rowsOf q.symbol.code s = rowsOf q.symbol.code t)
    (h : s.retire ctx q memo = .ok s') :
    ∃ t', t.retire ctx q memo = .ok t' ∧ Alike q.symbol.code s s' t t' := by
  have halike : Alike q.symbol.code s s t t := ⟨hsame, fun _ _ => rfl⟩
  obtain ⟨hstat, hbalances⟩ := rowsOf_eq.mp hsame
  simp only [retire, bind_eq_ok, check_eq_ok, requireAuth_eq_ok, getRow_eq_ok, pure_eq_ok] at h ⊢
  obtain ⟨_, hsym, _, hmemo, st, hst, _, hauth, _, hvalid, _, hpos, _, hprec, supply, hsupply,
    accounts, hsub, rfl⟩ := h
  obtain ⟨row, rfl, hsub'⟩ := subBalance_local hsub (hbalances st.issuer)
  exact ⟨_, ⟨(), hsym, (), hmemo, st, hstat ▸ hst, (), hauth, (), hvalid, (), hpos, (), hprec, supply,
    hsupply, _, hsub', rfl⟩, (halike.writeStat (.set _)).writeBalance (.set _)⟩

/-- What `transfer` does depends on the rows of its token only. -/
theorem transfer_local {from_ to_ : Name} {q : Asset} {memo : String}
    (hsame : rowsOf q.symbol.code s = rowsOf q.symbol.code t)
    (h : s.transfer ctx from_ to_ q memo = .ok s') :
    ∃ t', t.transfer ctx from_ to_ q memo = .ok t' ∧ Alike q.symbol.code s s' t t' := by
  have halike : Alike q.symbol.code s s t t := ⟨hsame, fun _ _ => rfl⟩
  obtain ⟨hstat, hbalances⟩ := rowsOf_eq.mp hsame
  simp only [transfer, bind_eq_ok, check_eq_ok, requireAuth_eq_ok, getRow_eq_ok, pure_eq_ok] at h ⊢
  obtain ⟨_, hne, _, hauth, _, hto, st, hst, _, hvalid, _, hpos, _, hprec, _, hmemo, accounts, hsub,
    accounts', hadd, rfl⟩ := h
  obtain ⟨paid, rfl, hsub'⟩ := subBalance_local hsub (hbalances from_)
  have halike : Alike q.symbol.code s
      { s with accounts := s.accounts.set ⟨from_, q.symbol.code⟩ paid } t
      { t with accounts := t.accounts.set ⟨from_, q.symbol.code⟩ paid } :=
    halike.writeBalance (.set paid)
  obtain ⟨row, rfl, hadd'⟩ := addBalance_local hadd ((rowsOf_eq.mp halike.same).2 to_)
  exact ⟨_, ⟨(), hne, (), hauth, (), hto, st, hstat ▸ hst, (), hvalid, (), hpos, (), hprec, (), hmemo,
    _, hsub', _, hadd', rfl⟩, halike.writeBalance (.set row)⟩

/-- What `open` does depends on the rows of its token only. -/
theorem openRow_local {owner : Name} {symbol : Symbol} {ramPayer : Name}
    (hsame : rowsOf symbol.code s = rowsOf symbol.code t)
    (h : s.openRow ctx owner symbol ramPayer = .ok s') :
    ∃ t', t.openRow ctx owner symbol ramPayer = .ok t' ∧ Alike symbol.code s s' t t' := by
  have halike : Alike symbol.code s s t t := ⟨hsame, fun _ _ => rfl⟩
  obtain ⟨hstat, hbalances⟩ := rowsOf_eq.mp hsame
  simp only [openRow, bind_eq_ok, check_eq_ok, requireAuth_eq_ok, getRow_eq_ok] at h ⊢
  rw [← hbalances owner]
  obtain ⟨_, hauth, _, howner, st, hst, _, hprec, h⟩ := h
  split at h
  · rename_i hnone
    simp only [bind_eq_ok, pure_eq_ok] at h
    obtain ⟨balance, hmake, rfl⟩ := h
    refine ⟨_, ⟨(), hauth, (), howner, st, hstat ▸ hst, (), hprec, ?_⟩, halike.writeBalance (.set balance)⟩
    rw [if_pos hnone, hmake]
    rfl
  · rename_i hsome
    -- a row that exists is left as it is
    simp only [pure_eq_ok] at h
    subst h
    refine ⟨_, ⟨(), hauth, (), howner, st, hstat ▸ hst, (), hprec, ?_⟩, halike⟩
    rw [if_neg hsome]
    rfl

/-- What `close` does depends on the rows of its token only. -/
theorem close_local {owner : Name} {symbol : Symbol}
    (hsame : rowsOf symbol.code s = rowsOf symbol.code t)
    (h : s.close ctx owner symbol = .ok s') :
    ∃ t', t.close ctx owner symbol = .ok t' ∧ Alike symbol.code s s' t t' := by
  have halike : Alike symbol.code s s t t := ⟨hsame, fun _ _ => rfl⟩
  obtain ⟨-, hbalances⟩ := rowsOf_eq.mp hsame
  simp only [close, bind_eq_ok, check_eq_ok, requireAuth_eq_ok, getRow_eq_ok, pure_eq_ok] at h ⊢
  obtain ⟨_, hauth, it, hit, _, hzero, rfl⟩ := h
  exact ⟨_, ⟨(), hauth, it, hbalances owner ▸ hit, (), hzero, rfl⟩, halike.writeBalance .erase⟩

/-- An action reads and writes the rows of its token alone. -/
theorem step_local {call : TokenCall}
    (hsame : rowsOf call.action.code s = rowsOf call.action.code t) (h : s.step call = .ok s') :
    ∃ t', t.step call = .ok t' ∧ Alike call.action.code s s' t t' := by
  obtain ⟨ctx, action⟩ := call
  cases action with
  | create issuer maximumSupply => exact create_local hsame h
  | issue to_ quantity memo => exact issue_local hsame h
  | retire quantity memo => exact retire_local hsame h
  | transfer from_ to_ quantity memo => exact transfer_local hsame h
  | openRow owner symbol ramPayer => exact openRow_local hsame h
  | close owner symbol => exact close_local hsame h

end

/-- The actions on other tokens leave the rows of a token alone. -/
theorem rowsOf_local (code : SymbolCode) :
    Run.Local step (rowsOf code) fun call => call.action.code = code where
  frame := by
    intro s call s' hne h
    obtain ⟨t', -, halike⟩ := step_local rfl h
    exact halike.frame code fun heq => hne heq.symm
  agree := by
    rintro s t call s' rfl hsame h
    obtain ⟨t', ht', halike⟩ := step_local hsame h
    exact ⟨t', ht', halike.same⟩

/-! ## Runs -/

/-- After every run the rows of a token are those of the run of its own actions alone, and the same
    of its actions have been accepted. -/
theorem tokens_independent (s : TokenState) (calls : List TokenCall) (code : SymbolCode) :
    let own := calls.filter fun call => call.action.code = code
    rowsOf code (Run.exec step s calls) = rowsOf code (Run.exec step s own) ∧
      (Run.accepted step s calls).filter (fun call => call.action.code = code) =
        Run.accepted step s own :=
  ⟨(rowsOf_local code).exec_filter s calls, (rowsOf_local code).accepted_filter s calls⟩

/-- Two runs in which the actions on each token come in the same order end alike. -/
theorem token_order (s : TokenState) (calls calls' : List TokenCall)
    (hsame : ∀ code, calls.filter (fun call => call.action.code = code) =
      calls'.filter fun call => call.action.code = code) :
    Run.exec step s calls = Run.exec step s calls' := by
  refine Run.exec_interleaved rowsOf_local (fun s t hrows => ?_) s hsame
  obtain ⟨stat, accounts⟩ := s
  obtain ⟨stat', accounts'⟩ := t
  -- the rows of all tokens are the tables
  have hstat : stat = stat' := Table.ext_find? fun code => (rowsOf_eq.mp (hrows code)).1
  have haccounts : accounts = accounts' := by
    refine Table.ext_find? fun k => ?_
    exact (rowsOf_eq.mp (hrows k.key)).2 k.scope
  rw [hstat, haccounts]

section

open SystemState.Sample

/-- The actions on the core token in the first week. -/
def Sample.coreCalls : List TokenCall :=
  [⟨ctx [tokenAccount] launch, .create eosioAccount (utx 1000)⟩,
    ⟨ctx [eosioAccount] launch, .issue eosioAccount (utx 700) "first week"⟩,
    ⟨ctx [eosioAccount] launch, .transfer eosioAccount alice (utx 300) "first week"⟩]

/-- Alice gets RAM tokens in the meantime, and the rest is burnt. -/
def Sample.ramCalls : List TokenCall :=
  [⟨ctx [tokenAccount] launch, .create eosioAccount (utxram 50)⟩,
    ⟨ctx [eosioAccount] launch, .issue eosioAccount (utxram 50) ""⟩,
    ⟨ctx [eosioAccount] launch, .transfer eosioAccount alice (utxram 10) ""⟩,
    ⟨ctx [eosioAccount] launch, .retire (utxram 40) ""⟩]

/-- All actions of the one token before those of the other, in both orders. -/
theorem token_order_sample :
    (Run.accepted step .init (Sample.coreCalls ++ Sample.ramCalls)).length = 7 ∧
      Run.exec step .init (Sample.coreCalls ++ Sample.ramCalls) =
        Run.exec step .init (Sample.ramCalls ++ Sample.coreCalls) := by
  refine ⟨by decide +kernel, token_order _ _ _ fun code => ?_⟩
  have hcore : ∀ call ∈ Sample.coreCalls, call.action.code = core.code := by decide
  have hram : ∀ call ∈ Sample.ramCalls, call.action.code = ramcoreSymbol.code := by decide
  rw [List.filter_append, List.filter_append]
  by_cases hcode : code = core.code
  · have hnone : Sample.ramCalls.filter (fun call => call.action.code = code) = [] := by
      refine List.filter_eq_nil_iff.mpr fun call hcall => ?_
      simp only [hram call hcall, hcode, decide_eq_true_eq]
      decide
    rw [hnone, List.append_nil, List.nil_append]
  · have hnone : Sample.coreCalls.filter (fun call => call.action.code = code) = [] := by
      refine List.filter_eq_nil_iff.mpr fun call hcall => ?_
      simp only [hcore call hcall, decide_eq_true_eq]
      exact fun heq => hcode heq.symm
    rw [hnone, List.append_nil, List.nil_append]

end

end TokenState

end UxContracts
