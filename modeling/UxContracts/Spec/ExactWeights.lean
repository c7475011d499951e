import Mathlib.Tactic.Linarith
import Mathlib.Tactic.Ring
import UxContracts.Spec.ExactReading
import UxContracts.Spec.StoredVotes

/-!
# Exact weights

An `ExactReading` reads weights in an ordered ring in which sums, products and comparisons are
exact. The bookkeeping of votes is then a matter of three gaps, each between what is stored and
what it should be the sum of:

* `proxyGap`  the proxied weight of an account, and the weights of the voters that use it
* `votesGap`  the votes of a producer, and the weights of the voters that list it
* `totalGap`  the total of votes, and the votes of all producers
-/

namespace UxContracts

open Chain

variable {F K : Type} [Double F] [CommRing K] [LinearOrder K]

namespace SystemState

variable (E : ExactReading F K)

/-! ## Gaps -/

/-- What a voter adds to the proxied weight of `a`. -/
def toProxy (a : Name) (v : VoterInfo F) : K :=
  if v.base.link = some a then E.val v.lastVoteWeight else 0

/-- What a voter adds to the votes of `p`. -/
def toProducer (p : Name) (v : VoterInfo F) : K :=
  if p ∈ v.producers then E.val v.lastVoteWeight else 0

def proxiedOf (s : SystemState F) (a : Name) : K :=
  s.voters.valueAt a fun v => E.val v.proxiedVoteWeight

def votesOf (s : SystemState F) (p : Name) : K :=
  s.producers.valueAt p fun info => E.val info.totalVotes

def proxyGap (s : SystemState F) (a : Name) : K :=
  s.proxiedOf E a - s.voters.sum fun _ v => toProxy E a v

def votesGap (s : SystemState F) (p : Name) : K :=
  s.votesOf E p - s.voters.sum fun _ v => toProducer E p v

def totalGap (s : SystemState F) : K :=
  E.val s.gstate.totalProducerVoteWeight - s.producers.sum fun _ info => E.val info.totalVotes

structure SameGaps (s s' : SystemState F) : Prop where
  proxy : ∀ a, s'.proxyGap E a = s.proxyGap E a
  votes : ∀ p, s'.votesGap E p = s.votesGap E p
  total : s'.totalGap E = s.totalGap E

variable {E}

theorem SameGaps.refl (s : SystemState F) : SameGaps E s s := ⟨fun _ => rfl, fun _ => rfl, rfl⟩

theorem SameGaps.trans {s s' s'' : SystemState F} (h : SameGaps E s s') (h' : SameGaps E s' s'') :
    SameGaps E s s'' :=
  ⟨fun a => (h'.proxy a).trans (h.proxy a), fun p => (h'.votes p).trans (h.votes p),
    h'.total.trans h.total⟩

/-- The tables of votes are the same. -/
theorem SameVotes.gaps {s s' : SystemState F} (h : SameVotes s s') : SameGaps E s s' := by
  refine ⟨fun a => ?_, fun p => ?_, ?_⟩
  · unfold proxyGap proxiedOf
    rw [h.voters]
  · unfold votesGap votesOf
    rw [h.voters, h.producers]
  · unfold totalGap
    rw [h.producers, h.total]

/-! ## A voter's row is stored -/

variable (E)

/-- Storing a row, whatever was there before. -/
theorem proxyGap_set (s : SystemState F) (f : Name) (v : VoterInfo F) (a : Name) :
    ({ s with voters := s.voters.set f v } : SystemState F).proxyGap E a = s.proxyGap E a +
      (if a = f then E.val v.proxiedVoteWeight - s.proxiedOf E f else 0) -
      (toProxy E a v - s.voters.valueAt f (toProxy E a)) := by
  unfold proxyGap proxiedOf
  show (s.voters.set f v).valueAt a _ - (s.voters.set f v).sum _ = _
  rw [Table.valueAt_set, Table.sum_set]
  unfold Table.valueAt
  split
  · rename_i ha
    subst ha
    ring
  · ring

/-- Replacing a voter's row changes the gap of a producer by what the row gives to it. -/
theorem votesGap_set (s : SystemState F) (f : Name) (v : VoterInfo F) (p : Name) :
    ({ s with voters := s.voters.set f v } : SystemState F).votesGap E p = s.votesGap E p -
      (toProducer E p v - s.voters.valueAt f (toProducer E p)) := by
  unfold votesGap votesOf
  show _ - (s.voters.set f v).sum _ = _
  rw [Table.sum_set]
  unfold Table.valueAt
  ring

/-- The weight that is delegated to a proxy is changed. -/
theorem proxyGap_setProxied {s : SystemState F} {f : Name} {v : VoterInfo F}
    (h : s.voters.find? f = some v) (w : F) (a : Name) :
    ({ s with voters := s.voters.set f { v with proxiedVoteWeight := w } } :
      SystemState F).proxyGap E a =
      s.proxyGap E a + if a = f then E.val w - E.val v.proxiedVoteWeight else 0 := by
  rw [proxyGap_set, Table.valueAt_some h, proxiedOf, Table.valueAt_some h]
  show _ - (toProxy E a v - toProxy E a v) = _
  ring

/-- A proxied weight is not what producers are voted with. -/
theorem votesGap_setProxied {s : SystemState F} {f : Name} {v : VoterInfo F}
    (h : s.voters.find? f = some v) (w : F) (p : Name) :
    ({ s with voters := s.voters.set f { v with proxiedVoteWeight := w } } :
      SystemState F).votesGap E p = s.votesGap E p := by
  rw [votesGap_set, Table.valueAt_some h]
  show _ - (toProducer E p v - toProducer E p v) = _
  ring

/-- The last weight of a voter is changed. -/
theorem proxyGap_setLast {s : SystemState F} {f : Name} {v : VoterInfo F}
    (h : s.voters.find? f = some v) (w : F) (a : Name) :
    ({ s with voters := s.voters.set f { v with lastVoteWeight := w } } :
      SystemState F).proxyGap E a =
      s.proxyGap E a - if v.base.link = some a then E.val w - E.val v.lastVoteWeight else 0 := by
  rw [proxyGap_set, Table.valueAt_some h, proxiedOf, Table.valueAt_some h]
  have hlink : ({ v with lastVoteWeight := w } : VoterInfo F).base.link = v.base.link := rfl
  simp only [toProxy, hlink]
  split
  · split
    · ring
    · ring
  · split
    · ring
    · ring

/-- A last weight is. -/
theorem votesGap_setLast {s : SystemState F} {f : Name} {v : VoterInfo F}
    (h : s.voters.find? f = some v) (w : F) (p : Name) :
    ({ s with voters := s.voters.set f { v with lastVoteWeight := w } } :
      SystemState F).votesGap E p =
      s.votesGap E p - if p ∈ v.producers then E.val w - E.val v.lastVoteWeight else 0 := by
  rw [votesGap_set, Table.valueAt_some h]
  simp only [toProducer]
  split
  · ring
  · ring

/-! ## Loops over producers -/

/-- One round of a loop over producers changes the votes of one of them. -/
theorem addVotes_tally (ctx : Context) {s : SystemState F} (acc : VpayDelta F) {prod : Name}
    {info : ProducerInfo F} (h : s.producers.find? prod = some info) (votes initial delta : F) :
    let s' := (updateVotepay ctx
      { s with
        producers := s.producers.set prod { info with totalVotes := votes }
        gstate := { s.gstate with
          totalProducerVoteWeight := s.gstate.totalProducerVoteWeight + delta } }
      acc prod info.lastClaimTime initial delta).1
    (∀ p, s'.votesOf E p = if p = prod then E.val votes else s.votesOf E p) ∧
      s'.totalGap E = s.totalGap E + E.val delta - (E.val votes - E.val info.totalVotes) := by
  intro s'
  -- the votepay of the producer is another table
  obtain ⟨producers2, heq⟩ := updateVotepay_eq ctx
    { s with
      producers := s.producers.set prod { info with totalVotes := votes }
      gstate := { s.gstate with
        totalProducerVoteWeight := s.gstate.totalProducerVoteWeight + delta } }
    acc prod info.lastClaimTime initial delta
  have hproducers : s'.producers = s.producers.set prod { info with totalVotes := votes } := by
    rw [show s' = _ from heq]
  have htotal : s'.gstate.totalProducerVoteWeight = s.gstate.totalProducerVoteWeight + delta := by
    rw [show s' = _ from heq]
  constructor
  · -- the votes of this producer alone have changed
    intro p
    unfold votesOf
    rw [hproducers, Table.valueAt_set]
    by_cases hp : p = prod
    · rw [if_pos hp, if_pos hp]
    · rw [if_neg hp, if_neg hp]
  · -- by as much as the total of all
    unfold totalGap
    rw [hproducers, htotal, Table.sum_set, h, E.val_add]
    show _ - (_ - E.val info.totalVotes + E.val votes) = _
    ring

/-- Every listed producer gains `delta`. -/
theorem propagateToProducers_tally {ctx : Context} {delta : F} {s s' : SystemState F}
    {acc acc' : VpayDelta F} {producers : List Name} (hnodup : producers.Nodup)
    (h : propagateToProducers ctx delta s acc producers = .ok (s', acc')) :
    (∀ p, s'.votesOf E p = s.votesOf E p + if p ∈ producers then E.val delta else 0) ∧
      s'.totalGap E = s.totalGap E := by
  -- induction on the producers, who are distinct
  induction producers generalizing s acc with
  | nil =>
    simp only [propagateToProducers, Except.ok.injEq, Prod.mk.injEq] at h
    rw [← h.1]
    exact ⟨fun p => (add_zero _).symm, rfl⟩
  | cons acnt rest ih =>
    obtain ⟨hacnt, hrest⟩ := List.nodup_cons.mp hnodup
    simp only [propagateToProducers, bind_eq_ok, getRow_eq_ok] at h
    obtain ⟨prod, hprod, h⟩ := h
    obtain ⟨hvotes, htotal⟩ := ih hrest h
    -- one round for the first of them
    obtain ⟨hround, hgap⟩ := addVotes_tally E ctx acc hprod
      (prod.totalVotes + delta) prod.totalVotes delta
    constructor
    · intro p
      rw [hvotes, hround]
      -- which is not among the rest
      by_cases hp : p = acnt
      · subst hp
        rw [if_pos rfl, if_neg hacnt, if_pos List.mem_cons_self, E.val_add, add_zero, votesOf,
          Table.valueAt_some hprod]
      · have hmem : p ∈ acnt :: rest ↔ p ∈ rest := by
          rw [List.mem_cons]
          exact ⟨fun h => h.resolve_left hp, .inr⟩
        rw [if_neg hp]
        simp only [hmem]
    · rw [htotal, hgap, E.val_add]
      ring

/-- The loop of `update_votes` changes the votes of every listed producer by its delta, when no
    votes become negative. -/
theorem applyDeltas_tally {ctx : Context} {voting : Bool} {s s' : SystemState F}
    {acc acc' : VpayDelta F} {deltas : List (Name × F × Bool)}
    (hnodup : (deltas.map Prod.fst).Nodup)
    (hrows : ∀ p d b, (p, d, b) ∈ deltas → (s.statusOf p).isSome)
    (hclamp : ∀ p d b, (p, d, b) ∈ deltas → 0 ≤ s.votesOf E p + E.val d)
    (h : applyDeltas ctx voting s acc deltas = .ok (s', acc')) :
    (∀ p d b, (p, d, b) ∈ deltas → s'.votesOf E p = s.votesOf E p + E.val d) ∧
      (∀ p, p ∉ deltas.map Prod.fst → s'.votesOf E p = s.votesOf E p) ∧
      s'.totalGap E = s.totalGap E := by
  -- induction on the changes, which name each producer once
  induction deltas generalizing s acc with
  | nil =>
    simp only [applyDeltas, Except.ok.injEq, Prod.mk.injEq] at h
    rw [← h.1]
    exact ⟨fun p d b hp => absurd hp List.not_mem_nil, fun p _ => rfl, rfl⟩
  | cons e rest ih =>
    obtain ⟨owner, delta, isNew⟩ := e
    rw [List.map_cons] at hnodup
    obtain ⟨howner, hrest⟩ := List.nodup_cons.mp hnodup
    have hrow := hrows owner delta isNew List.mem_cons_self
    unfold statusOf at hrow
    rw [Option.isSome_map] at hrow
    obtain ⟨prod, hprod⟩ := Option.isSome_iff_exists.mp hrow
    have hnonneg := hclamp owner delta isNew List.mem_cons_self
    -- the total of this producer before the loop
    have hold : s.votesOf E owner = E.val prod.totalVotes := by
      rw [votesOf, Table.valueAt_some hprod]
    -- so the guard against negative totals does not fire
    have hno : ¬ prod.totalVotes + delta < Double.ofInt 0 := by
      rw [E.lt_iff, E.val_add, E.val_zero, ← hold]
      exact not_lt.mpr hnonneg
    simp only [applyDeltas, hprod, bind_eq_ok, check_eq_ok, if_neg hno] at h
    obtain ⟨_, -, h⟩ := h
    -- one round adds its change to the tally
    obtain ⟨hround, hgap⟩ := addVotes_tally E ctx acc hprod
      (prod.totalVotes + delta) prod.totalVotes delta
    -- the rest of the loop does not come to this producer again
    have hother : ∀ p d b, (p, d, b) ∈ rest → p ≠ owner := by
      rintro p d b hp rfl
      exact howner (List.mem_map.mpr ⟨_, hp, rfl⟩)
    obtain ⟨hin, hout, htotal⟩ := ih hrest
      (fun p d b hp => by
        rw [(addVotes_weights hprod _ _ _ _).1.status]
        exact hrows p d b (List.mem_cons_of_mem _ hp))
      (fun p d b hp => by
        rw [hround, if_neg (hother p d b hp)]
        exact hclamp p d b (List.mem_cons_of_mem _ hp)) h
    refine ⟨fun p d b hp => ?_, fun p hp => ?_, ?_⟩
    · rcases List.mem_cons.mp hp with heq | hp
      · -- the producer of this round, which the rest leaves alone
        obtain ⟨rfl, rfl, -⟩ : p = owner ∧ d = delta ∧ b = isNew := by simpa using heq
        rw [hout p howner, hround, if_pos rfl, E.val_add, hold]
      · rw [hin p d b hp, hround, if_neg (hother p d b hp)]
    · rw [List.map_cons, List.mem_cons, not_or] at hp
      -- a producer that no round names
      rw [hout p hp.2, hround, if_neg hp.1]
    · rw [htotal, hgap, E.val_add]
      ring

end SystemState

end UxContracts
