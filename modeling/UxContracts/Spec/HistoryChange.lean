import UxContracts.Spec.ResourceEffects

/-!
# What a call does to the history

The history grows in two ways: the first `initresource` makes its first row, and an
issuance of inflation adds one row and credits the producers. The other calls keep the
history, and only `claimrewards` changes what producers can claim (`step_history`).
-/

namespace UxContracts

namespace ResourceState

variable {F H : Type}

/-! ## What can be seen of a call -/

/-- The core tokens of an account. -/
def coreBalance (s : ResourceState F H) (owner : Name) : Int :=
  s.sys.token.balance owner s.sys.coreSym.code

/-- The supply of the core token. -/
def coreSupply (s : ResourceState F H) : Int := s.sys.token.supply s.sys.coreSym.code

/-- `issue_inflation` has completed in a call: only `settotalusg` runs it, after
    `set_total` has added a row to the history. -/
def issues (s : ResourceState F H) (call : ResourceCall F H) (s' : ResourceState F H) : Bool :=
  match call.action with
  | .settotalusg .. => s.history.size < s'.history.size
  | _ => false

/-- The producer that claims its pay. -/
def claimant : ResourceAction F H → Option Name
  | .claimrewards owner => some owner
  | _ => none

/-! ## The four kinds of calls -/

variable [Checksum H] [Double F]

/-- A call makes the first row of the history, or issues inflation, or pays a producer, or
    leaves the history and the pay of the producers alone. -/
inductive HistoryChange (s : ResourceState F H) (call : ResourceCall F H)
    (s' : ResourceState F H) : Prop where
  | kept (history : s'.history = s.history) (prodpay : s'.prodpay = s.prodpay)
      (noIssue : issues s call s' = false) (noClaim : claimant call.action = none)
  | first (start : TimePointSec) (empty : s.history = ∅)
      (history : s'.history = s.history.set 0 (firstHistory start))
      (prodpay : s'.prodpay = s.prodpay) (sys : s'.sys = s.sys)
      (noIssue : issues s call s' = false) (noClaim : claimant call.action = none)
  | issued (cpu net : UInt64) (sends : List InlineAction) (k : Nat) (last row : UsageHistory F)
      (sym : Symbol) (inflation : Asset)
      (issuance : Issuance s.sys s.history s'.history s.prodpay s'.prodpay cpu net sends k last
        row sym inflation)
      (run : SystemState.runInline call.ctx s.sys.token sends = .ok s'.sys.token)
      (sys : s'.sys = { s.sys with token := s'.sys.token }) (one : issues s call s' = true)
      (noClaim : claimant call.action = none)
  | claimed (owner : Name) (pay : ProducerPay) (balance : Asset) (time : TimePointSec)
      (claim : claimant call.action = some owner) (history : s'.history = s.history)
      (noIssue : issues s call s' = false) (found : s.prodpay.find? owner = some pay)
      (pos : 0 < pay.balance.amount.toInt) (rest : pay.balance.sub pay.balance = .ok balance)
      (prodpay : s'.prodpay = s.prodpay.set owner ⟨balance, time⟩)
      (run : SystemState.runInline call.ctx s.sys.token [⟨[bpayAccount, owner],
        .transfer bpayAccount owner pay.balance "producer reward"⟩] = .ok s'.sys.token)
      (sys : s'.sys = { s.sys with token := s'.sys.token })

/-- Every call keeps the history or adds one row for an issuance. -/
theorem step_history {s s' : ResourceState F H} {call : ResourceCall F H}
    (hI : s.sys.token.Inv) (h : s.step call = .ok s') : HistoryChange s call s' := by
  obtain ⟨ctx, action⟩ := call
  cases action with
  | initresource batch threshold start seconds rate maxPay =>
    obtain ⟨cfg, -, ⟨hempty, -, -, -, rfl⟩ | ⟨-, -, -, -, rfl⟩⟩ := initresource_spec h
    · -- the first configuration makes the history
      refine .first start (Table.ext_find? fun k => ?_) rfl rfl rfl rfl rfl
      unfold Table.find?
      rw [hempty]
      rfl
    · -- a later one keeps it
      exact .kept rfl rfl rfl rfl
  | resactivate active =>
    have heq := resactivate_spec h
    exact .kept (by rw [heq]) (by rw [heq]) rfl rfl
  | settotalusg source cpu net hash start =>
    obtain ⟨u, sends, token, hr, ht, rfl⟩ := commit_eq_ok.mp h
    obtain ⟨hu, -, ⟨hhist, hpay, rfl⟩ | ⟨cpu', net', k, last, row, sym, inflation, hiss⟩⟩ :=
      settotalusg_issuance hI hr
    · -- the totals do not issue
      refine .kept hhist hpay ?_ rfl
      show decide (s.history.size < u.history.size) = false
      rw [hhist]
      simp
    · -- the totals issue, and there is one row more
      rw [hu] at ht
      refine .issued cpu' net' sends k last row sym inflation hiss ht (by rw [hu]) ?_ rfl
      show decide (s.history.size < u.history.size) = true
      rw [hiss.history_eq, Table.size_set_succ row hiss.lastRow]
      simp
  | addactusg source datasetId dataset start =>
    obtain ⟨-, hhist, hpay⟩ := addactusg_frame h
    -- usage is paid from what has been issued
    exact .kept hhist hpay rfl rfl
  | nextperiod =>
    obtain ⟨sources, rfl⟩ := nextperiod_spec h
    -- a new period starts without a row
    exact .kept rfl rfl rfl rfl
  | claimdistrib account =>
    obtain ⟨u, sends, token, hr, ht, rfl⟩ := commit_eq_ok.mp h
    obtain ⟨pay, -, rfl, -⟩ := claimdistrib_spec hr
    exact .kept rfl rfl rfl rfl
  | claimrewards owner =>
    obtain ⟨u, sends, token, hr, ht, rfl⟩ := commit_eq_ok.mp h
    obtain ⟨pay, balance, time, hpay, hpos, hsub, rfl, rfl⟩ := claimrewards_spec hr
    -- a producer takes the pay of one row
    exact .claimed owner pay balance time rfl rfl rfl hpay hpos hsub rfl ht rfl
  | system action =>
    simp only [step, bind_eq_ok, pure_eq_ok] at h
    obtain ⟨sys, hsys, rfl⟩ := h
    exact .kept rfl rfl rfl rfl

end ResourceState

end UxContracts
