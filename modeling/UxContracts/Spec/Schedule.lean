import UxContracts.Spec.ElectionChange
import UxContracts.Spec.StoredVotes
import UxContracts.Spec.TopProducers

/-!
# Elected schedules

Whenever a schedule is proposed, its producers are the ones that the index of votes has first
(`Elected`): nobody with more votes is left out, and each signs with the authority of its latest
registration. Somebody may be left out although there is room (`Complete`), exactly when a
deactivated producer with less than no votes stops the scan (`Unblocked`); rounding can leave a
producer with less than no votes.
-/

namespace UxContracts

namespace ElectionState

open ResourceState (ProducerRow Numbered eligible before outranks)
open SystemState (StatusChange statusOf_active)
open AuctionState (SameSystem)

variable {F K : Type} [Double F]

/-! ## Purpose -/

/-- The authorities of the latest registrations. -/
def recordGiven (given : Table Name (BlockSigningAuthority K)) (_ : ElectionState F K)
    (call : ElectionCall F K) (_ : ElectionState F K) : Table Name (BlockSigningAuthority K) :=
  match call.action.given with
  | some (p, a) => given.set p a
  | none => given

/-- What a proposed schedule is. -/
structure Elected (s : SystemState F) (given : Table Name (BlockSigningAuthority K))
    (schedule : List (ProducerAuthority K)) : Prop where
  sorted : schedule.Pairwise fun a b => a.producerName < b.producerName
  least : max 1 s.scheduleSize.toNat ≤ schedule.length
  most : schedule.length ≤ 21
  qualified : ∀ e ∈ schedule, ∃ info, s.producers.find? e.producerName = some info ∧
    info.isActive = true ∧ Double.ofInt 0 < info.totalVotes
  votes : ∀ p ∈ s.producers.rows, eligible p → (∀ e ∈ schedule, e.producerName ≠ p.1) →
    ∀ e ∈ schedule, ∀ info, s.producers.find? e.producerName = some info →
      ¬ info.totalVotes < p.2.totalVotes
  authority : ∀ e ∈ schedule, given.find? e.producerName = some e.authority

/-- Nobody is left out while there is room. -/
def Complete (s : SystemState F) (schedule : List (ProducerAuthority K)) : Prop :=
  schedule.length < 21 →
    ∀ p ∈ s.producers.rows, eligible p → ∃ e ∈ schedule, e.producerName = p.1

/-- Before no eligible producer of the index is there a deactivated one with less than no votes that
    has fewer than 21 rows before it. -/
def Unblocked (s : SystemState F) : Prop :=
  ∀ p ∈ s.producers.rows, ¬ p.2.isActive = true → p.2.totalVotes < Double.ofInt 0 →
    ∀ q ∈ s.producers.rows, eligible q → before p q →
      21 ≤ s.producers.rows.countP fun r => decide (before r p)

/-! ## The invariant -/

variable [Inhabited K]

/-- What holds in every state of a run: each row has a number of votes, and each active producer the
    authority it was last given. -/
structure ElectionInv (w : ElectionState F K) (given : Table Name (BlockSigningAuthority K)) :
    Prop where
  stakes : w.sys.StakeInv
  numbered : Numbered Double.isNumber w.sys.producers
  authority : ∀ p t, w.sys.statusOf p = some (true, t) →
    ∃ a, w.authorityOf p = some a ∧ a.threshold ≠ 0 ∧ given.find? p = some a

omit [Inhabited K] [Double F] in
theorem sameSystem_stakeInv {s s' : SystemState F} (h : SameSystem s s') (hI : s.StakeInv) :
    s'.StakeInv := by
  rw [h]
  exact hI.of_same rfl rfl rfl rfl id hI.rows.userres (fun _ => ⟨rfl, rfl⟩) fun _ => rfl

/-- An active producer keeps its authority when no producer changes its status. -/
theorem authority_of_same {w w' : ElectionState F K}
    {given : Table Name (BlockSigningAuthority K)} (h : ElectionInv w given)
    (hstatus : ∀ q, w'.sys.statusOf q = w.sys.statusOf q)
    (hauthority : ∀ q, w'.authorityOf q = w.authorityOf q) {p : Name} {t : TimePoint}
    (hp : w'.sys.statusOf p = some (true, t)) :
    ∃ a, w'.authorityOf p = some a ∧ a.threshold ≠ 0 ∧ given.find? p = some a := by
  rw [hstatus] at hp
  rw [hauthority]
  exact h.authority p t hp

/-- Every call keeps the invariant, and does not make the last schedule smaller. -/
theorem ElectionInv.step {isValid : BlockSigningAuthority K → Bool}
    (hvalid : ∀ a, isValid a = true → a.threshold ≠ 0) {w w' : ElectionState F K}
    {given : Table Name (BlockSigningAuthority K)} {call : ElectionCall F K}
    (h : ElectionInv w given) (hstep : w.step isValid call = .ok w') :
    ElectionInv w' (recordGiven given w call w') ∧
      w.sys.scheduleSize.toNat ≤ w'.sys.scheduleSize.toNat := by
  obtain ⟨hrun, hnumbered⟩ := step_eq_ok hstep
  unfold recordGiven
  cases run_change hvalid hrun with
  -- a producer registers, with an authority that has a threshold
  | registered p a hgiven hthreshold hchange hsize hauthority =>
    refine ⟨⟨h.stakes.of_voteFrame hchange.frame, hnumbered, fun q t hq => ?_⟩, hsize ▸ le_refl _⟩
    have hrow := hchange.status q
    rw [hgiven]
    show ∃ b, w'.authorityOf q = some b ∧ b.threshold ≠ 0 ∧ (given.set p a).find? q = some b
    rw [hauthority, Table.find?_set]
    split at hrow
    · exact ⟨a, if_pos ‹_›, hthreshold, if_pos ‹_›⟩
    · rename_i hqp
      rw [if_neg hqp, if_neg hqp]
      exact h.authority q t (hrow ▸ hq)
  | deactivated p hgiven hchange hsize hauthority =>
    -- a deactivated producer loses its authority, but it is not active any more
    refine ⟨⟨h.stakes.of_voteFrame hchange.frame, hnumbered, fun q t hq => ?_⟩, hsize ▸ le_refl _⟩
    have hrow := hchange.status q
    rw [hgiven]
    split at hrow
    · obtain ⟨t', hrow⟩ := hrow
      rw [hq] at hrow
      cases hrow
    · -- the authority of another producer is the one it had
      rename_i hqp
      rw [hauthority q hqp]
      exact h.authority q t (hrow ▸ hq)
  -- a block elects producers, and changes none
  | scheduled hgiven hsame hsize hauthority =>
    refine ⟨⟨sameSystem_stakeInv hsame h.stakes, hnumbered, fun q t hq => ?_⟩, hsize⟩
    have hstatus (r : Name) : w'.sys.statusOf r = w.sys.statusOf r := by
      rw [hsame]
      rfl
    rw [hgiven]
    exact authority_of_same h hstatus hauthority hq
  | system a direct hgiven hstep hauthority =>
    have hsize := SystemState.step_scheduleSize direct h.stakes.noRex hstep
    refine ⟨⟨SystemState.step_stakeInv h.stakes hstep, hnumbered, fun q t hq => ?_⟩,
      hsize ▸ le_refl _⟩
    rw [hgiven]
    -- no action of the system contract changes the status of a producer
    have hcall : w.sys.accountStep ⟨call.ctx, .system a direct⟩ = .ok w'.sys := hstep
    rcases (SystemState.accountStep_change h.stakes.noRex hcall).status_eq h.stakes.noRex with
      hstatus | ⟨hnot, -⟩
    · exact authority_of_same h hstatus hauthority hq
    · exact absurd rfl (hnot a direct)

/-! ## The index -/

omit [Inhabited K] in
/-- Of the rows that are not eligible, only a deactivated one with less than no votes comes before
    an eligible one. -/
theorem negative_of_before (law : Double.Ordered F Double.isNumber)
    (hzero : ¬ (Double.ofInt 0 : F) < -Double.ofInt 0) {p q : ProducerRow F}
    (hnp : Double.isNumber p.2.totalVotes) (hnq : Double.isNumber q.2.totalVotes)
    (hp : ¬ eligible p) (hq : eligible q) (h : before p q) :
    ¬ p.2.isActive = true ∧ p.2.totalVotes < Double.ofInt 0 := by
  obtain ⟨hpositive, hactive⟩ := of_decide_eq_true hq
  have hkey : q.2.byVotes = -q.2.totalVotes := if_pos hactive
  -- in both cases the key of `p` is not above that of `q`
  have hle : ¬ q.2.byVotes < p.2.byVotes := by
    rcases h with hlt | ⟨hle, -⟩
    · exact law.lt_asymm _ _ (ResourceState.isNumber_byVotes law hnp)
        (ResourceState.isNumber_byVotes law hnq) hlt
    · exact hle
  rw [hkey] at hle
  have hnneg := law.neg _ hnq
  by_cases hpa : p.2.isActive = true
  · -- an active row has no votes, and its key is not below zero
    have hpkey : p.2.byVotes = -p.2.totalVotes := if_pos hpa
    rw [hpkey, law.neg_lt_neg _ _ hnq hnp] at hle
    rcases law.lt_or_lt _ p.2.totalVotes _ law.zero hnp hnq hpositive with hvotes | hvotes
    · exact absurd (decide_eq_true ⟨hvotes, hpa⟩) hp
    · exact absurd hvotes hle
  · have hpkey : p.2.byVotes = p.2.totalVotes := if_neg hpa
    rw [hpkey] at hle
    refine ⟨hpa, ?_⟩
    -- `- votes q < - 0`, and `- 0` is not above zero
    have hneg : -q.2.totalVotes < -Double.ofInt 0 :=
      (law.neg_lt_neg _ _ hnq law.zero).mpr hpositive
    have hnzero := law.neg _ law.zero
    have hpneg := (law.lt_or_lt _ p.2.totalVotes _ hnneg hnp hnzero hneg).resolve_left hle
    exact (law.lt_or_lt _ (Double.ofInt 0) _ hnp law.zero hnzero hpneg).resolve_right hzero

variable {w : ElectionState F K}

omit [Inhabited K] in
/-- The rows that are read are the first of the index. -/
theorem topRows_eq (w : ElectionState F K) :
    w.auction.topRows = ((rankedProducers w.sys.producers).takeWhile eligible).take 21 :=
  rfl

omit [Inhabited K] in
/-- The rows that are read are in the order of the index. -/
theorem topRows_sublist (w : ElectionState F K) :
    w.auction.topRows.Sublist (rankedProducers w.sys.producers) := by
  rw [topRows_eq]
  exact (List.take_sublist 21 _).trans (List.takeWhile_sublist eligible)

omit [Inhabited K] in
/-- A row that is read is active with votes. -/
theorem mem_topRows {p : ProducerRow F} (h : p ∈ w.auction.topRows) :
    p ∈ w.sys.producers.rows ∧ eligible p := by
  have hrow := ResourceState.mem_ranked.mp (w.topRows_sublist.subset h)
  -- the scan ends before the first row that is not eligible
  rw [topRows_eq] at h
  exact ⟨hrow, List.mem_takeWhile_imp (List.mem_of_mem_take h)⟩

omit [Inhabited K] in
/-- No producer is read twice. -/
theorem nodup_topRows (w : ElectionState F K) : (w.auction.topRows.map Prod.fst).Nodup := by
  have hranked : ((rankedProducers w.sys.producers).map Prod.fst).Nodup :=
    ((List.perm_insertionSort _ _).map Prod.fst).nodup_iff.mpr w.sys.producers.nodup_keys
  exact hranked.sublist (w.topRows_sublist.map Prod.fst)

/-! ## The proposal -/

/-- What is proposed: the rows that are read, sorted by name. -/
theorem proposedSchedule_eq_some {schedule : List (ProducerAuthority K)}
    (h : w.proposedSchedule = some schedule) :
    max 1 w.sys.scheduleSize.toNat ≤ schedule.length ∧
      schedule.Pairwise (fun a b => a.producerName ≤ b.producerName) ∧
      schedule.Perm (w.auction.topRows.map fun r =>
        ⟨r.1, (w.stored r.1 r.2).getProducerAuthority⟩) := by
  have hlength := length_of_proposed h
  -- a schedule is proposed
  have hsome : ¬ w.proposedSchedule = none := by
    rw [h]
    exact Option.some_ne_none schedule
  rw [proposedSchedule_eq_none, ← hlength] at hsome
  refine ⟨by omega, ?_⟩
  simp only [proposedSchedule] at h
  split at h
  · cases h
  · rw [Option.some.injEq] at h
    let le (a b : ProducerAuthority K × UInt16) : Prop := a.1.producerName ≤ b.1.producerName
    -- insertion sort sorts, and only permutes
    have hsorted : (w.topProducers.insertionSort le).Pairwise le := by
      have htotal : Std.Total le := ⟨fun a b => le_total _ _⟩
      have htrans : IsTrans (ProducerAuthority K × UInt16) le := ⟨fun a b c => le_trans⟩
      exact List.pairwise_insertionSort le _
    have hperm := (List.perm_insertionSort le w.topProducers).map Prod.fst
    -- the locations take no part in the sorting
    have hmap : w.topProducers.map Prod.fst =
        w.auction.topRows.map fun r => ⟨r.1, (w.stored r.1 r.2).getProducerAuthority⟩ := by
      show (w.auction.topRows.map _).map Prod.fst = _
      rw [List.map_map]
      rfl
    rw [hmap] at hperm
    rw [← h]
    exact ⟨List.pairwise_map.mpr hsorted, hperm⟩

/-- The producers of a schedule are the rows that are read. -/
theorem mem_proposed {schedule : List (ProducerAuthority K)}
    (h : w.proposedSchedule = some schedule) {e : ProducerAuthority K} :
    e ∈ schedule ↔
      ∃ r ∈ w.auction.topRows, e = ⟨r.1, (w.stored r.1 r.2).getProducerAuthority⟩ := by
  rw [(proposedSchedule_eq_some h).2.2.mem_iff, List.mem_map]
  exact exists_congr fun r => and_congr_right fun _ => eq_comm

/-- A row that is in the table is scheduled if it is read. -/
theorem scheduled_iff {schedule : List (ProducerAuthority K)}
    (h : w.proposedSchedule = some schedule) {p : ProducerRow F}
    (hp : p ∈ w.sys.producers.rows) :
    (∃ e ∈ schedule, e.producerName = p.1) ↔ p ∈ w.auction.topRows := by
  constructor
  · rintro ⟨e, he, hname⟩
    obtain ⟨r, hr, rfl⟩ := (mem_proposed h).mp he
    rw [← ResourceState.eq_of_name_eq (mem_topRows hr).1 hp hname]
    exact hr
  · intro hread
    exact ⟨_, (mem_proposed h).mpr ⟨p, hread, rfl⟩, rfl⟩

/-- An active producer signs with the authority it was last given. -/
theorem ElectionInv.signs {given : Table Name (BlockSigningAuthority K)} (h : ElectionInv w given)
    {p : Name} {info : ProducerInfo F} (hinfo : w.sys.producers.find? p = some info)
    (hactive : info.isActive = true) :
    given.find? p = some (w.stored p info).getProducerAuthority := by
  have hstatus : w.sys.statusOf p = some (true, info.lastClaimTime) := by
    unfold SystemState.statusOf
    rw [hinfo, ← hactive]
    rfl
  obtain ⟨a, hauthority, hthreshold, hgiven⟩ := h.authority p _ hstatus
  have hstored : (w.stored p info).producerAuthority = some a := hauthority
  rw [hgiven]
  unfold StoredProducer.getProducerAuthority
  rw [hstored]
  exact congrArg some (if_neg hthreshold).symm

/-- What is proposed is as the purpose says. -/
theorem ElectionInv.elected (law : Double.Ordered F Double.isNumber)
    {given : Table Name (BlockSigningAuthority K)} (hI : ElectionInv w given)
    {schedule : List (ProducerAuthority K)} (h : w.proposedSchedule = some schedule) :
    Elected w.sys given schedule where
  sorted := by
    obtain ⟨-, hsorted, hperm⟩ := proposedSchedule_eq_some h
    -- the names are sorted, and none of them comes twice
    have hnames : (schedule.map ProducerAuthority.producerName).Nodup := by
      rw [(hperm.map _).nodup_iff, List.map_map]
      exact w.nodup_topRows
    have hne : schedule.Pairwise fun a b => a.producerName ≠ b.producerName :=
      List.pairwise_map.mp hnames
    exact (hsorted.and hne).imp fun hand => lt_of_le_of_ne hand.1 hand.2
  least := (proposedSchedule_eq_some h).1
  -- no more than the size of the schedule
  most := by
    rw [length_of_proposed h]
    exact w.auction.topProducers_le
  -- every elected producer is active and has votes
  qualified e he := by
    obtain ⟨r, hr, rfl⟩ := (mem_proposed h).mp he
    obtain ⟨hrow, helig⟩ := mem_topRows hr
    obtain ⟨hpositive, hactive⟩ := of_decide_eq_true helig
    exact ⟨r.2, Table.mem_rows.mp hrow, hactive, hpositive⟩
  -- whoever is left out has no more votes
  votes p hp helig hleft e he info hinfo := by
    obtain ⟨r, hr, rfl⟩ := (mem_proposed h).mp he
    obtain ⟨hrow, hreligible⟩ := mem_topRows hr
    have hfind := Table.mem_rows.mp hrow
    obtain rfl : r.2 = info := Option.some.inj (hfind.symm.trans hinfo)
    -- the producer is not among the rows that are read
    have hnot : p ∉ w.auction.topRows := by
      rw [← scheduled_iff h hp]
      rintro ⟨e', he', hname⟩
      exact hleft e' he' hname
    -- what is not read comes later, and eligible rows are in the order of their votes
    have hbefore : before r p := by
      rw [topRows_eq] at hr hnot
      exact Ranking.rel_of_not_mem_take (ResourceState.pairwise_ranked law hI.numbered) hr
        (ResourceState.mem_ranked.mpr hp) hnot
    have hnr := hI.numbered r hrow
    have hnp := hI.numbered p hp
    rcases (ResourceState.before_iff_outranks law hreligible helig hnr hnp).mp hbefore with
      hlt | ⟨hle, -⟩
    · exact law.lt_asymm _ _ hnp hnr hlt
    · exact hle
  authority e he := by
    obtain ⟨r, hr, rfl⟩ := (mem_proposed h).mp he
    obtain ⟨hrow, helig⟩ := mem_topRows hr
    exact hI.signs (Table.mem_rows.mp hrow) (of_decide_eq_true helig).2

/-- Nobody is left out exactly if the index is not blocked. -/
theorem complete_iff (law : Double.Ordered F Double.isNumber)
    (hzero : ¬ (Double.ofInt 0 : F) < -Double.ofInt 0)
    (hnum : Numbered Double.isNumber w.sys.producers) {schedule : List (ProducerAuthority K)}
    (h : w.proposedSchedule = some schedule) : Complete w.sys schedule ↔ Unblocked w.sys := by
  have hlength : schedule.length = w.auction.topRows.length := by
    rw [(proposedSchedule_eq_some h).2.2.length_eq, List.length_map]
  have hasymm : ∀ a ∈ rankedProducers w.sys.producers, ∀ b ∈ rankedProducers w.sys.producers,
      before a b → ¬ before b a := fun a ha b hb =>
    ResourceState.before_asymm law hnum (ResourceState.mem_ranked.mp ha)
      (ResourceState.mem_ranked.mp hb)
  -- what is missed because of any row, first
  have hprefix := Ranking.forall_mem_take_iff (p := eligible) (n := 21)
    (ResourceState.pairwise_ranked law hnum) hasymm
  rw [← topRows_eq, ← hlength] at hprefix
  simp only [ResourceState.mem_ranked, ResourceState.countP_ranked] at hprefix
  have hcomplete : Complete w.sys schedule ↔
      (schedule.length < 21 → ∀ p ∈ w.sys.producers.rows, eligible p → p ∈ w.auction.topRows) := by
    apply imp_congr_right
    intro _
    exact forall₂_congr fun p hp => imp_congr_right fun _ => scheduled_iff h hp
  -- only a deactivated row with less than no votes can be in the way
  rw [hcomplete, hprefix]
  constructor
  · intro hmany p hp hinactive _ q hq helig hbefore
    exact hmany p hp (fun hpe => hinactive (of_decide_eq_true hpe).2) q hq helig hbefore
  · intro hmany p hp hnot q hq helig hbefore
    obtain ⟨hinactive, hnegative⟩ :=
      negative_of_before law hzero (hnum p hp) (hnum q hq) hnot helig hbefore
    exact hmany p hp hinactive hnegative q hq helig hbefore

/-! ## Runs -/

/-- Counting a block does not change what is proposed. -/
theorem ElectionInv.countBlock {given : Table Name (BlockSigningAuthority K)}
    (h : ElectionInv w given) (producer : Name) : ElectionInv (w.countBlock producer) given := by
  obtain ⟨hauction, hauthority⟩ := w.countBlock_spec producer
  have hsys : (w.countBlock producer).sys = w.sys := congrArg AuctionState.sys hauction
  refine ⟨hsys ▸ h.stakes, hsys ▸ h.numbered, fun p t hp => ?_⟩
  rw [hsys] at hp
  rw [hauthority]
  exact h.authority p t hp

/-- At the start no producer is registered. -/
theorem electionInv_start {start : ElectionState F K} (h : start.sys.NoVotes) :
    ElectionInv start ∅ := by
  refine ⟨h.toEmptyTables.stakeInv, ?_, fun p t hp => ?_⟩
  · rw [h.producers]
    exact fun p hp => absurd hp List.not_mem_nil
  · unfold SystemState.statusOf at hp
    rw [h.producers, Table.find?_empty] at hp
    cases hp

/-- In every state of a run that starts without producers, the schedule that a block proposes, of
    whichever producer it is, consists of the first producers by votes with the authorities that
    they were last given. Nobody is left out while there is room exactly if the index is not blocked.
    The size of the schedule never decreases. -/
theorem elected_schedule (law : Double.Ordered F Double.isNumber)
    (hzero : ¬ (Double.ofInt 0 : F) < -Double.ofInt 0)
    {isValid : BlockSigningAuthority K → Bool} (hvalid : ∀ a, isValid a = true → a.threshold ≠ 0)
    {start : ElectionState F K} (hs : start.sys.NoVotes) (calls : List (ElectionCall F K)) :
    let states := Run.stateAt (Run.observed (step isValid) recordGiven) (start, ∅) calls
    (∀ i producer schedule, ((states i).1.countBlock producer).proposedSchedule = some schedule →
      Elected (states i).1.sys (states i).2 schedule ∧
        (Complete (states i).1.sys schedule ↔ Unblocked (states i).1.sys)) ∧
      ∀ i j, i ≤ j → (states i).1.sys.scheduleSize ≤ (states j).1.sys.scheduleSize := by
  intro states
  -- the size of the schedule never shrinks
  let R (p q : ElectionState F K × Table Name (BlockSigningAuthority K)) : Prop :=
    p.1.sys.scheduleSize ≤ q.1.sys.scheduleSize
  have hstep : ∀ p call p', ElectionInv p.1 p.2 →
      Run.observed (step isValid) recordGiven p call = .ok p' →
      ElectionInv p'.1 p'.2 ∧ R p p' := by
    intro p call p' hI h
    obtain ⟨hok, hgiven⟩ := Run.observed_eq_ok h
    rw [hgiven]
    obtain ⟨hI', hsize⟩ := hI.step hvalid hok
    exact ⟨hI', UInt16.le_iff_toNat_le.mpr hsize⟩
  constructor
  · -- each schedule that is proposed in the run
    intro i producer schedule h
    have hI : ElectionInv (states i).1 (states i).2 :=
      Run.exec_induction (I := fun p => ElectionInv p.1 p.2)
        (fun p call p' hI h => (hstep p call p' hI h).1) (electionInv_start hs) (calls.take i)
    have hI := hI.countBlock producer
    have hsys : ((states i).1.countBlock producer).sys = (states i).1.sys :=
      congrArg AuctionState.sys ((states i).1.countBlock_spec producer).1
    rw [← hsys]
    exact ⟨hI.elected law h, complete_iff law hzero hI.numbered h⟩
  · -- and the size along the run
    intro i j hij
    exact Run.stateAt_rel (I := fun p => ElectionInv p.1 p.2) (R := R) (fun p => UInt16.le_refl _)
      (fun p q r => UInt16.le_trans) hstep (electionInv_start hs) calls hij

omit [Double F] [Inhabited K] in
/-- The numbers of `double` are ordered. -/
theorem Double.ordered_binary64 : Double.Ordered Binary64 Double.isNumber where
  zero := le_refl (Double.ofInt 0 : Binary64).value
  neg x _ := le_refl (-x).value
  lt_asymm _ _ _ _ h := lt_asymm (α := Rat) h
  lt_or_lt x y _ _ _ _ h := (lt_or_ge x.value y.value).imp id fun hy => lt_of_le_of_lt hy h
  neg_lt_neg _ _ _ _ := neg_lt_neg_iff (α := Rat)

namespace Sample

open SystemState.Sample

def erin : Name := Name.ofString "erin"

def xavier : Name := Name.ofString "xavier"

/-- Keys are different, and they reach the threshold, which is not zero. -/
def isValid (a : BlockSigningAuthority Nat) : Bool :=
  a.threshold ≠ 0 ∧ (a.keys.map KeyWeight.key).Nodup ∧
    a.threshold.toNat ≤ (a.keys.map fun k => k.weight.toNat).sum

theorem threshold_of_isValid (a : BlockSigningAuthority Nat) (h : isValid a = true) :
    a.threshold ≠ 0 :=
  (of_decide_eq_true h).1

def start : ElectionState Binary64 Nat := ⟨⟨SystemState.Sample.rounded, ∅, 0, 0⟩, ∅⟩

/-- The account with the tokens stakes for somebody. -/
def stakes (receiver : Name) (units : Int64) (transfer : Bool) : ElectionCall Binary64 Nat :=
  ⟨ctx [eosioAccount] launch,
    .system (.delegatebw eosioAccount receiver (utx units) (utx 0) transfer) rfl⟩

def votes (voter proxy : Name) (producers : List Name) : ElectionCall Binary64 Nat :=
  ⟨ctx [voter] launch, .system (.voteproducer voter proxy producers) rfl⟩

/-- Alice, bob and erin register. Voters of different sizes choose alice and bob and leave them:
    what is left is positive for alice and negative for bob, whose own vote has come through a
    proxy. Erin has votes of her own. At last bob unregisters. -/
def leaving : List (ElectionCall Binary64 Nat) :=
  [stakes alice 100000000006 true,
    stakes bob 100000000005 true,
    stakes erin 100000000000 true,
    ⟨ctx [alice] launch, .regproducer alice 1 "https://alice" 0⟩,
    ⟨ctx [bob] launch, .regproducer bob 2 "https://bob" 0⟩,
    ⟨ctx [erin] launch, .regproducer2 erin ⟨1, [⟨3, 1⟩, ⟨4, 1⟩]⟩ "https://erin" 0⟩,
    ⟨ctx [xavier] launch, .system (.regproxy xavier true) rfl⟩,
    votes xavier ⟨0⟩ [bob],
    votes bob xavier [],
    votes alice ⟨0⟩ [alice],
    votes erin ⟨0⟩ [erin],
    stakes eosioAccount 5000000000000 false,
    votes eosioAccount ⟨0⟩ [alice, bob],
    votes eosioAccount ⟨0⟩ [],
    votes alice ⟨0⟩ [],
    votes bob ⟨0⟩ [],
    ⟨ctx [bob] launch, .unregprod bob⟩]

/-- The states of the run, with the authorities that were given. -/
def states (i : Nat) : ElectionState Binary64 Nat × Table Name (BlockSigningAuthority Nat) :=
  Run.stateAt (Run.observed (step isValid) recordGiven) (start, ∅) leaving i

end Sample

open Sample SystemState.Sample

omit [Double F] [Inhabited K] in
/-- As long as bob is registered, nobody is left out. -/
theorem elected_schedule_sample : ∃ schedule,
    ((Sample.states 16).1.countBlock bob).proposedSchedule = some schedule ∧
      Elected (Sample.states 16).1.sys (Sample.states 16).2 schedule ∧
      Complete (Sample.states 16).1.sys schedule := by
  have hzero : ¬ (Double.ofInt 0 : Binary64) < -Double.ofInt 0 := by decide +kernel
  -- every producer is active, so nothing stops the scan
  have hactive : ((Sample.states 16).1.sys.producers.rows.all fun p => p.2.isActive) = true := by
    decide +kernel
  have hsome : ((Sample.states 16).1.countBlock bob).proposedSchedule.isSome := by decide +kernel
  obtain ⟨schedule, h⟩ := Option.isSome_iff_exists.mp hsome
  have hs : Sample.start.sys.NoVotes := SystemState.Sample.rounded_noVotes
  obtain ⟨helected, hcomplete⟩ : Elected (Sample.states 16).1.sys (Sample.states 16).2 schedule ∧
      (Complete (Sample.states 16).1.sys schedule ↔ Unblocked (Sample.states 16).1.sys) :=
    (elected_schedule Double.ordered_binary64 hzero threshold_of_isValid hs leaving).1 16 bob
      schedule h
  refine ⟨schedule, h, helected, hcomplete.mpr fun p hp hinactive => ?_⟩
  exact absurd (List.all_eq_true.mp hactive p hp) hinactive

omit [Double F] [Inhabited K] in
/-- After bob has unregistered, his row comes first in the index, and the scan stops at it. Alice is
    left out although she is active with votes and there is room. -/
theorem alice_left_out : Sample.start.sys.NoVotes ∧ ∃ schedule,
    ((Sample.states 17).1.countBlock bob).proposedSchedule = some schedule ∧
      schedule.map ProducerAuthority.producerName = [erin] ∧
      ¬ Complete (Sample.states 17).1.sys schedule := by
  refine ⟨SystemState.Sample.rounded_noVotes, ?_⟩
  have hnames : ((Sample.states 17).1.countBlock bob).proposedSchedule.map
      (List.map ProducerAuthority.producerName) = some [erin] := by
    decide +kernel
  have halice : ((Sample.states 17).1.sys.producers.rows.any fun p => p.1 = alice ∧ eligible p) =
      true := by
    decide +kernel
  obtain ⟨schedule, h, hnames⟩ := Option.map_eq_some_iff.mp hnames
  refine ⟨schedule, h, hnames, fun hcomplete => ?_⟩
  have hlength : schedule.length = 1 := by
    rw [← List.length_map ProducerAuthority.producerName, hnames]
    rfl
  obtain ⟨p, hp, hrow⟩ := List.any_eq_true.mp halice
  obtain ⟨hname, helig⟩ := of_decide_eq_true hrow
  obtain ⟨e, he, hentry⟩ := hcomplete (by omega) p hp helig
  have hmem := List.mem_map_of_mem (f := ProducerAuthority.producerName) he
  rw [hnames, hentry, hname] at hmem
  revert hmem
  decide +kernel

end ElectionState

end UxContracts
