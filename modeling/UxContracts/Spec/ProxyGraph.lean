import UxContracts.ForStd.Chain
import UxContracts.Spec.VoterChange

/-!
# The graph of proxies

Every voter is linked to the proxy it uses. A link is made to a registered proxy, which has no
link itself then, and an account with a link cannot register. So the graph never has a cycle
(`GraphInv`), although a proxy that unregisters keeps its voters and may choose a proxy of its
own, so that chains of any length come up.
-/

namespace UxContracts

open Chain

/-- The proxy that is used, if any. -/
def VoterBase.link (b : VoterBase) : Option Name := if b.proxy.isSet then some b.proxy else none

theorem VoterBase.link_eq_some {b : VoterBase} {p : Name} :
    b.link = some p ↔ b.proxy = p ∧ p.isSet := by
  unfold link
  split
  · rename_i hset
    rw [Option.some.injEq]
    exact ⟨fun h => ⟨h, h ▸ hset⟩, And.left⟩
  · rename_i hset
    exact ⟨nofun, fun h => absurd (h.1 ▸ h.2) hset⟩

theorem VoterBase.link_eq_none {b : VoterBase} : b.link = none ↔ ¬ b.proxy.isSet := by
  unfold link
  split
  · rename_i hset
    exact ⟨nofun, fun h => absurd hset h⟩
  · rename_i hset
    exact ⟨fun _ => hset, fun _ => rfl⟩

namespace SystemState

/-- Who votes through a proxy votes for no producers and not through itself. -/
theorem checkVote_proxy {voterName proxy : Name} {producers : List Name}
    (h : checkVote voterName proxy producers = .ok ()) (hset : proxy.isSet) :
    producers = [] ∧ voterName ≠ proxy := by
  unfold checkVote at h
  rw [if_pos hset] at h
  simp only [bind_eq_ok, check_eq_ok] at h
  obtain ⟨_, hlen, hne⟩ := h
  exact ⟨List.eq_nil_of_length_eq_zero hlen, hne⟩

/-- Who votes for producers names at most 30, in their order. -/
theorem checkVote_producers {voterName proxy : Name} {producers : List Name}
    (h : checkVote voterName proxy producers = .ok ()) (hset : ¬ proxy.isSet) :
    producers.length ≤ 30 ∧ producers.IsChain (· < ·) := by
  unfold checkVote at h
  rw [if_neg hset] at h
  simp only [bind_eq_ok, check_eq_ok] at h
  obtain ⟨_, hlen, hchain⟩ := h
  exact ⟨hlen, hchain⟩

variable {F : Type}

/-- The proxy that an account uses. -/
def proxyOf (s : SystemState F) (f : Name) : Option Name := (s.baseOf f).bind VoterBase.link

theorem proxyOf_some {s : SystemState F} {f : Name} {v : VoterInfo F}
    (h : s.voters.find? f = some v) : s.proxyOf f = v.base.link := by
  unfold proxyOf
  rw [baseOf_some h]
  rfl

theorem proxyOf_base {s : SystemState F} {f : Name} {b : VoterBase} (h : s.baseOf f = some b) :
    s.proxyOf f = b.link := by
  unfold proxyOf
  rw [h]
  rfl

/-- A change of weights keeps the proxies. -/
theorem WeightFrame.proxyOf {s s' : SystemState F} (h : WeightFrame s s') :
    s'.proxyOf = s.proxyOf := by
  funext f
  unfold SystemState.proxyOf
  rw [h.base]

structure GraphInv (s : SystemState F) : Prop where
  notProxy : ∀ f b, s.baseOf f = some b → b.isProxy = true → ¬ b.proxy.isSet
  /-- a proxy has a row -/
  row : ∀ f p, s.proxyOf f = some p → ∃ b, s.baseOf p = some b
  acyclic : Acyclic s.proxyOf

/-- A registered proxy is the end of a chain. -/
theorem GraphInv.proxyOf_proxy {s : SystemState F} (hI : s.GraphInv) {p : Name} {b : VoterBase}
    (hb : s.baseOf p = some b) (hproxy : b.isProxy = true) : s.proxyOf p = none := by
  rw [proxyOf_base hb]
  exact VoterBase.link_eq_none.mpr (hI.notProxy p b hb hproxy)

/-- The graph is read from the choices of the voters. -/
theorem GraphInv.of_base {s s' : SystemState F} (hI : s.GraphInv)
    (h : ∀ f, s'.baseOf f = s.baseOf f) : s'.GraphInv := by
  have hbase : s'.baseOf = s.baseOf := funext h
  have hproxy : s'.proxyOf = s.proxyOf := by
    funext f
    unfold proxyOf
    rw [h]
  constructor
  · rw [hbase]
    exact hI.notProxy
  · rw [hproxy, hbase]
    exact hI.row
  · rw [hproxy]
    exact hI.acyclic

/-- One row is changed: its link goes away, stays as it is, or goes to a registered proxy. -/
theorem GraphInv.update {s s' : SystemState F} {v : Name} {b : VoterBase} (hI : s.GraphInv)
    (hbase : ∀ f, s'.baseOf f = if f = v then some b else s.baseOf f)
    (hnot : b.isProxy = true → ¬ b.proxy.isSet)
    (hlink : b.link = none ∨ b.link = s.proxyOf v ∨
      ∃ p pb, b.link = some p ∧ v ≠ p ∧ s.baseOf p = some pb ∧ pb.isProxy = true) :
    s'.GraphInv := by
  -- one link of the graph has changed
  have hproxy : s'.proxyOf = Function.update s.proxyOf v b.link := by
    funext f
    unfold proxyOf
    rw [hbase]
    by_cases hf : f = v
    · subst hf
      rw [if_pos rfl, Function.update_self]
      rfl
    · rw [if_neg hf, Function.update_of_ne hf]
  constructor
  · -- a proxy has no proxy
    intro f b' hb' hisProxy
    rw [hbase] at hb'
    split at hb'
    · cases hb'
      exact hnot hisProxy
    · exact hI.notProxy f b' hb' hisProxy
  · intro f p hp
    -- rows do not go away
    have hkept : ∀ b₀, s.baseOf p = some b₀ → ∃ b₁, s'.baseOf p = some b₁ := by
      intro b₀ hb₀
      rw [hbase]
      split
      · exact ⟨b, rfl⟩
      · exact ⟨b₀, hb₀⟩
    rw [hproxy] at hp
    by_cases hf : f = v
    · subst hf
      rw [Function.update_self] at hp
      rcases hlink with hnone | hold | ⟨q, qb, hnew, -, hq, -⟩
      · rw [hnone] at hp
        cases hp
      · rw [hold] at hp
        obtain ⟨b₀, hb₀⟩ := hI.row f p hp
        exact hkept b₀ hb₀
      · rw [hnew, Option.some.injEq] at hp
        subst hp
        exact hkept qb hq
    · rw [Function.update_of_ne hf] at hp
      obtain ⟨b₀, hb₀⟩ := hI.row f p hp
      exact hkept b₀ hb₀
  · rw [hproxy]
    -- no cycle comes from taking a link away, or from a link to a proxy
    rcases hlink with hnone | hold | ⟨p, pb, hnew, hne, hp, hisProxy⟩
    · rw [hnone]
      exact hI.acyclic.update_none v
    · rw [hold, Function.update_eq_self]
      exact hI.acyclic
    · rw [hnew]
      exact hI.acyclic.update_some (hI.proxyOf_proxy hp hisProxy) hne

/-- An account without a proxy registers as one, or a proxy unregisters. -/
theorem GraphInv.register {s : SystemState F} (hI : s.GraphInv) {f : Name} {voter : VoterInfo F}
    (hv : s.voters.find? f = some voter) {isproxy : Bool}
    (hnot : ¬ isproxy = true ∨ ¬ voter.proxy.isSet) :
    ({ s with voters := s.voters.set f { voter with isProxy := isproxy } } :
      SystemState F).GraphInv := by
  apply hI.update (baseOf_set s f { voter with isProxy := isproxy })
  · intro hyes
    exact hnot.resolve_left fun hno => hno hyes
  · exact .inr (.inl (proxyOf_some hv).symm)

/-! ## Runs -/

variable [Double F]

theorem NoVotes.graphInv {s : SystemState F} (h : s.NoVotes) : s.GraphInv := by
  have hbase : ∀ f, s.baseOf f = none := by
    intro f
    unfold baseOf
    rw [h.voters, Table.find?_empty]
    rfl
  have hproxy : ∀ f, s.proxyOf f = none := by
    intro f
    unfold proxyOf
    rw [hbase]
    rfl
  constructor
  · intro f b hb
    rw [hbase] at hb
    cases hb
  · intro f p hp
    rw [hproxy] at hp
    cases hp
  · exact acyclic_of_none hproxy

omit [Double F] in
/-- A new row, or a change of the stake, leaves the link alone. -/
theorem changeBase_link (s : SystemState F) (f : Name) (amount : Int64) :
    (changeBase (s.baseOf f) amount).link = s.proxyOf f := by
  unfold proxyOf
  cases s.baseOf f with
  | none => rfl
  | some b => rfl

omit [Double F] in
/-- A change of stake keeps the choice. -/
theorem GraphInv.changeStake {s s' : SystemState F} {f : Name} {amount : Int64} (hI : s.GraphInv)
    (hbase : ∀ g, s'.baseOf g =
      if g = f then some (changeBase (s.baseOf f) amount) else s.baseOf g) : s'.GraphInv := by
  apply hI.update hbase
  · cases hb : s.baseOf f with
    | none => exact nofun
    | some b => exact hI.notProxy f b hb
  · exact .inr (.inl (changeBase_link s f amount))

/-- Every call keeps the graph of proxies free of cycles. -/
theorem accountStep_graph {s s' : SystemState F} {call : AccountCall F} (hrex : s.rexbalance = ∅)
    (hI : s.GraphInv) (h : s.accountStep call = .ok s') : s'.GraphInv := by
  cases accountStep_change hrex h with
  | same same => exact hI.of_base same.weights.base
  | voted voterName proxy producers direct action vote =>
    obtain ⟨b, hcast, hbase, -⟩ := updateVotes_base vote
    apply hI.update hbase
    · -- who votes by a proxy is none
      intro hisProxy hset
      rw [hcast.notProxy hset] at hisProxy
      cases hisProxy
    · -- the new link leads to a registered proxy, or there is none
      by_cases hset : proxy.isSet
      · obtain ⟨pb, hpb, hisProxy⟩ := hcast.proxy hset
        exact .inr (.inr ⟨proxy, pb, VoterBase.link_eq_some.mpr ⟨rfl, hset⟩,
          (checkVote_proxy hcast.checked hset).2, hpb, hisProxy rfl⟩)
      · exact .inl (VoterBase.link_eq_none.mpr hset)
  | proxied proxy isproxy direct action reg =>
    obtain ⟨b, hb, hnot, hbase, -⟩ := regproxy_base reg
    apply hI.update hbase hnot
    -- registration does not change the link
    rcases hb with ⟨-, rfl⟩ | hb
    · exact .inl rfl
    · exact .inr (.inl (proxyOf_base hb).symm)
  | staked a direct action p point u vote token =>
    -- a change of stake keeps the links
    have hpoint : ∀ f, p.state.baseOf f = s.baseOf f := by
      intro f
      rw [votingPoint_state hrex point]
      rfl
    obtain ⟨hbase, -⟩ := updateVotingPower_base vote
    have hu : u.GraphInv := (hI.of_base hpoint).changeStake hbase
    rw [token]
    exact hu.of_base fun _ => rfl
  | status notSystem p active change selfStaked =>
    -- the status of a producer is no row of a voter
    apply hI.of_base
    intro f
    unfold baseOf
    rw [change.voters]
  | flagged notSystem account v flags1 row limits change =>
    -- the flags are no part of the link
    have hbase : ∀ f, s'.baseOf f =
        if f = account then some { v.base with flags1 := flags1 } else s.baseOf f := by
      intro f
      rw [change]
      exact baseOf_set s account { v with flags1 := flags1 } f
    apply hI.update hbase
    · rcases row with ⟨-, rfl⟩ | hrow
      · exact nofun
      · exact hI.notProxy account v.base (baseOf_some hrow)
    · rcases row with ⟨-, rfl⟩ | hrow
      · exact .inl rfl
      · exact .inr (.inl (proxyOf_some hrow).symm)

/-- Every run from before the first vote keeps the graph free of cycles. -/
theorem exec_accountStep_graph {s : SystemState F} (hs : s.NoVotes) (calls : List (AccountCall F)) :
    (Run.exec accountStep s calls).StakeInv ∧ (Run.exec accountStep s calls).GraphInv :=
  Run.exec_induction (I := fun s : SystemState F => s.StakeInv ∧ s.GraphInv)
    (fun _ _ _ hI h => ⟨accountStep_stakeInv hI.1 h, accountStep_graph hI.1.noRex hI.2 h⟩)
    ⟨hs.toEmptyTables.stakeInv, hs.graphInv⟩ calls

end SystemState

end UxContracts
