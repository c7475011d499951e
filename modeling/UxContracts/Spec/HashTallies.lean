import UxContracts.Spec.SubmissionTables
import UxContracts.Spec.TotalsConsensus

/-!
# The tallies of hashes

`settotalusg`, `addactusg` and `nextperiod` each count one hash of every listed oracle, and take
the most frequent one. A tally is exact if it finds how many oracles share a hash at most
(`sharing`) and the first hash that as many share. The counters have eight bits, so this is so
exactly if no 256 oracles share a hash (`hash_tally_exact`).
-/

namespace UxContracts

/-- Where hashes are counted. -/
inductive TallyPlace where
  | settotalusg
  | addactusg (datasetId : UInt16)
  | nextperiod
deriving DecidableEq

namespace TallyPlace

/-- The hash of an oracle that is counted; an oracle whose list is too short has none. -/
def hash {H : Type} : TallyPlace → SystemUsage H → Option H
  | settotalusg => fun u => u.submissionHashList[0]?
  | addactusg datasetId => fun u => u.submissionHashList[datasetId.toNat]?
  | nextperiod => fun u => some u.allDataHash

end TallyPlace

namespace ResourceState

variable {F H : Type} [Checksum H]

/-- How many of the listed oracles have this hash at the place. -/
def sharing (s : ResourceState F H) (place : TallyPlace) (oracles : List Name) (hash : H) : Nat :=
  (oracles.filter fun o => (s.usage.find? o).bind place.hash = some hash).length

/-- The oracles that share a hash are its votes. -/
theorem sharing_eq_count (s : ResourceState F H) (place : TallyPlace) (oracles : List Name) :
    s.sharing place oracles = fun hash => (s.picked place.hash oracles).count hash := by
  funext hash
  exact (count_picked s place.hash oracles hash).symm

/-- The tally of the shared hashes is exact exactly if no 256 oracles share one. -/
theorem isMode_sharing_iff (s : ResourceState F H) (place : TallyPlace) (oracles : List Name)
    (default : H) :
    let mode := Tally.mode (Tally.count (s.picked place.hash oracles)) default
    Tally.IsMode (s.sharing place oracles) mode.1 mode.2.toNat ↔
      ∀ hash, s.sharing place oracles hash < 256 := by
  rw [sharing_eq_count]
  exact Tally.isMode_iff _ _

/-- For every list of oracles with a row each: the tally finds how many oracles share a hash at
    most, and the first hash that as many share, exactly if no 256 oracles share a hash. -/
theorem hash_tally_exact (place : TallyPlace) {s : ResourceState F H} {oracles : List Name}
    (hrows : ∀ o ∈ oracles, (s.usage.find? o).isSome) :
    (∃ modal modeCount, s.modalHash place.hash oracles = .ok (modal, modeCount) ∧
      Tally.IsMode (s.sharing place oracles) modal modeCount.toNat) ↔
    ∀ hash, s.sharing place oracles hash < 256 := by
  constructor
  · rintro ⟨modal, modeCount, hfound, hexact⟩
    obtain ⟨-, hmode⟩ := modalHash_eq_ok.mp hfound
    apply (isMode_sharing_iff s place oracles Checksum.zero).mp
    rw [hmode]
    exact hexact
  · intro hfew
    refine ⟨_, _, modalHash_eq_ok.mpr ⟨hrows, rfl⟩, ?_⟩
    exact (isMode_sharing_iff s place oracles Checksum.zero).mpr hfew

open Sample in
/-- Of three oracles two agree. -/
theorem hash_tally_exact_sample :
    let s := Run.exec step start agreeing
    ∃ modal modeCount, s.modalHash TallyPlace.settotalusg.hash s.getConfig.submittingOracles =
        .ok (modal, modeCount) ∧
      Tally.IsMode (s.sharing .settotalusg s.getConfig.submittingOracles) modal
        modeCount.toNat := by
  intro s
  have hrows : ∀ o ∈ s.getConfig.submittingOracles, (s.usage.find? o).isSome :=
    exec_oracle_rows 1048576 200000 agreeing
  have hfew : s.getConfig.submittingOracles.length < 256 := by decide +kernel
  apply (hash_tally_exact .settotalusg hrows).mpr
  intro hash
  exact lt_of_le_of_lt (List.length_filter_le _ _) hfew

/-! ## A tally that wraps around -/

/-- Oracles with the same row share what is counted, and nothing else. -/
theorem sharing_of_same {s : ResourceState F H} {oracles : List Name} {u : SystemUsage H}
    (hrows : ∀ o ∈ oracles, s.usage.find? o = some u) (place : TallyPlace) (hash : H) :
    s.sharing place oracles hash = if place.hash u = some hash then oracles.length else 0 := by
  have hfilter : (oracles.filter fun o => (s.usage.find? o).bind place.hash = some hash) =
      oracles.filter fun _ => place.hash u = some hash := by
    apply List.filter_congr
    intro o ho
    rw [hrows o ho, Option.bind_some]
  unfold sharing
  rw [hfilter]
  split
  · rename_i hhash
    simp [hhash]
  · rename_i hhash
    simp [hhash]

/-- Nothing is found among 256 oracles with the same row. -/
theorem modalHash_of_same {s : ResourceState F H} {oracles : List Name} {u : SystemUsage H}
    (hrows : ∀ o ∈ oracles, s.usage.find? o = some u) (hlength : oracles.length = 256)
    (place : TallyPlace) : ∃ modal, s.modalHash place.hash oracles = .ok (modal, 0) := by
  have hzero : ∀ hash, Tally.counter (Tally.count (s.picked place.hash oracles)) hash = 0 := by
    intro hash
    have hcount := congrFun (sharing_eq_count s place oracles) hash
    rw [sharing_of_same hrows] at hcount
    rw [Tally.counter_count, ← hcount]
    split
    · rw [hlength]
      rfl
    · rfl
  have hmode := Tally.mode_eq_zero hzero Checksum.zero
  refine ⟨(Tally.mode (Tally.count (s.picked place.hash oracles)) Checksum.zero).1, ?_⟩
  apply modalHash_eq_ok.mpr
  constructor
  · intro o ho
    rw [hrows o ho]
    rfl
  · exact Prod.ext rfl hmode

namespace Sample

/-- A report of totals; the commitment is the hash of the totals. -/
def report : SystemUsage (List Char) := totalsUsage 5 7 (totalsText 5 7)

/-- The oracles have all made this report. -/
def unanimous (oracles : List Name) : ResourceState Rat (List Char) :=
  { start with usage := oracles.foldl (fun t o => t.set o report) ∅ }

/-- 256 accounts. -/
def crowd : List Name :=
  (List.range 256).map fun i =>
    ⟨(Name.ofString "oracle").value + 16777216 * UInt64.ofNat (i + 1)⟩

theorem nodup_crowd : crowd.Nodup := by
  unfold crowd
  refine List.Nodup.map_on (fun i hi j hj h => ?_) List.nodup_range
  rw [List.mem_range] at hi hj
  -- the numbers are too small to wrap around
  have hvalue := congrArg (fun n : Name => n.value.toNat) h
  simp only [UInt64.toNat_add, UInt64.toNat_mul, UInt64.toNat_ofNat, UInt64.toNat_ofNat'] at hvalue
  omega

/-- Every oracle of the list has made the same report. -/
theorem find?_unanimous {oracles : List Name} {o : Name} (ho : o ∈ oracles) :
    (unanimous oracles).usage.find? o = some report := by
  suffices ∀ t : Table Name (SystemUsage (List Char)), o ∈ oracles ∨ t.find? o = some report →
      (oracles.foldl (fun t o => t.set o report) t).find? o = some report from this ∅ (.inl ho)
  clear ho
  induction oracles with
  | nil =>
    intro t ht
    simpa using ht
  | cons o' oracles ih =>
    intro t ht
    apply ih
    by_cases hself : o = o'
    · right
      rw [hself, Table.find?_set_self]
    · rw [Table.find?_set_ne _ _ hself]
      rw [List.mem_cons] at ht
      cases ht with
      | inl hmem => exact .inl (hmem.resolve_left hself)
      | inr hfind => exact .inr hfind

end Sample

open Sample in
/-- 256 oracles share a hash, and the tally finds none. -/
theorem hash_tally_wraps :
    crowd.Nodup ∧ (∀ o ∈ crowd, ((unanimous crowd).usage.find? o).isSome) ∧
    ∀ place ∈ [TallyPlace.settotalusg, .addactusg 0, .nextperiod],
      (unanimous crowd).sharing place crowd (totalsText 5 7) = 256 ∧
      (∃ modal, (unanimous crowd).modalHash place.hash crowd = .ok (modal, 0)) ∧
      ¬ ∃ modal modeCount, (unanimous crowd).modalHash place.hash crowd = .ok (modal, modeCount) ∧
        Tally.IsMode ((unanimous crowd).sharing place crowd) modal modeCount.toNat := by
  -- everyone in the crowd has reported the same
  have hrows : ∀ o ∈ crowd, (unanimous crowd).usage.find? o = some report :=
    fun _ ho => find?_unanimous ho
  have hlength : crowd.length = 256 := by
    unfold crowd
    rw [List.length_map, List.length_range]
  refine ⟨nodup_crowd, fun o ho => ?_, fun place hplace => ?_⟩
  · rw [hrows o ho]
    rfl
  · -- so the hash is shared by 256 of them
    have hhash : place.hash report = some (totalsText 5 7) := by
      simp only [List.mem_cons, List.not_mem_nil, or_false] at hplace
      obtain rfl | rfl | rfl := hplace <;> rfl
    have hshared : (unanimous crowd).sharing place crowd (totalsText 5 7) = 256 := by
      rw [sharing_of_same hrows, if_pos hhash, hlength]
    obtain ⟨modal, htally⟩ := modalHash_of_same hrows hlength place
    refine ⟨hshared, ⟨modal, htally⟩, ?_⟩
    rintro ⟨modal', modeCount, hfound, hexact⟩
    -- the tally has one result, and its count is zero
    cases htally.symm.trans hfound
    have hle := hexact.greatest.2 ⟨_, hshared⟩
    exact absurd hle (by decide)

end ResourceState

end UxContracts
