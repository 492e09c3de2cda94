import StorageSlots.Proofs.Resolution

/-!
What record declarations contribute to an analysis.

Each declaration contributes on its own: an entry if a better order of its members spares slots, and
the number of these slots to the total. A declaration with a member of unknown size contributes
nothing.
-/

namespace StorageSlots

theorem total_map_filter_ne_zero {α : Type} (f : α → Nat) (as : List α) :
    total ((as.filter fun a => !(f a == 0)).map f) = total (as.map f) := by
  induction as with
  | nil => rfl
  | cons a as ih =>
    rw [List.map_cons, total_cons, ← ih, List.filter_cons]
    split
    · rfl
    · next hzero =>
      have hzero : f a = 0 := by simpa using hzero
      rw [hzero, Nat.zero_add]

theorem total_map_filterMap {α β : Type} (g : α → Option β) (f : β → Nat) (as : List α) :
    total ((as.filterMap g).map f) = total (as.map fun a => (g a).elim 0 f) := by
  induction as with
  | nil => rfl
  | cons a as ih =>
    rw [List.map_cons, total_cons, ← ih, List.filterMap_cons]
    cases g a with
    | none => exact (Nat.zero_add _).symm
    | some b => rfl

theorem RecordsAnalysis.totalSpared_ofTypes (solver : Solver) (types : List RecordType) :
    (ofTypes solver types).totalSpared =
      total (types.map fun type => (type.analyze solver).outcome.sparedSlots) := by
  have hloose := total_map_filter_ne_zero (fun entry : RecordAnalysis => entry.outcome.sparedSlots)
    (types.map (RecordType.analyze solver))
  rw [List.map_map] at hloose
  exact hloose

namespace RecordDeclaration

variable {record : RecordDeclaration} {solver : Solver} {position : Nat}

/-- The slots that a better order of the members spares; none if one of them has no known size. -/
def sparedSlots (solver : Solver) (record : RecordDeclaration) : Nat :=
  match resolveAll record.eligibleMembers with
  | .ok members => (compare members solver).sparedSlots
  | .error _ => 0

def improvement? (solver : Solver) (record : RecordDeclaration) (position : Nat) :
    Option RecordAnalysis :=
  ((record.resolve position).toOption.map (RecordType.analyze solver)).filter
    fun entry => !entry.outcome.isTight

theorem resolve_eq_ok {type : RecordType} (h : record.resolve position = .ok type) :
    type.name = record.name ∧ type.position = position ∧
      resolveAll record.eligibleMembers = .ok type.members := by
  rw [resolve] at h
  cases hmembers : resolveAll record.eligibleMembers with
  | error fault =>
    rw [hmembers] at h
    cases h
  | ok members =>
    rw [hmembers] at h
    cases h
    exact ⟨rfl, rfl, rfl⟩

theorem sparedSlots_eq (position : Nat) :
    record.sparedSlots solver =
      (record.resolve position).toOption.elim 0
        fun type => (type.analyze solver).outcome.sparedSlots := by
  rw [sparedSlots, resolve]
  cases resolveAll record.eligibleMembers with
  | error _ => rfl
  | ok _ => rfl

theorem improvement?_eq_some_iff {entry : RecordAnalysis} :
    record.improvement? solver position = some entry ↔
      ∃ type, record.resolve position = .ok type ∧ type.analyze solver = entry ∧
        entry.outcome.isTight = false := by
  rw [improvement?, Option.filter_eq_some_iff, Option.map_eq_some_iff, Bool.not_eq_true']
  constructor
  · rintro ⟨⟨type, htype, hentry⟩, hloose⟩
    cases hresolve : record.resolve position with
    | error fault =>
      rw [hresolve] at htype
      cases htype
    | ok found =>
      rw [hresolve] at htype
      cases htype
      exact ⟨type, rfl, hentry, hloose⟩
  · rintro ⟨type, hresolve, hentry, hloose⟩
    rw [hresolve]
    exact ⟨⟨type, rfl, hentry⟩, hloose⟩

theorem position_of_improvement? {entry : RecordAnalysis}
    (h : record.improvement? solver position = some entry) : entry.position = position := by
  obtain ⟨type, hresolve, rfl, _⟩ := improvement?_eq_some_iff.mp h
  exact (resolve_eq_ok hresolve).2.1

end RecordDeclaration

namespace Contract

theorem improvable_recordTypes (contract : Contract) (solver : Solver) :
    (RecordsAnalysis.ofTypes solver contract.recordTypes).improvable =
      contract.records.zipIdx.filterMap fun r => r.1.improvement? solver r.2 := by
  rw [RecordsAnalysis.ofTypes, recordTypes, resolvedRecords, List.filterMap_map,
    List.map_filterMap, List.filter_filterMap]
  rfl

theorem mem_improvable_iff {contract : Contract} {solver : Solver} {entry : RecordAnalysis} :
    entry ∈ (RecordsAnalysis.ofTypes solver contract.recordTypes).improvable ↔
      ∃ record type, contract.records[entry.position]? = some record ∧
        record.resolve entry.position = .ok type ∧ type.analyze solver = entry ∧
          entry.outcome.isTight = false := by
  rw [improvable_recordTypes, List.mem_filterMap]
  constructor
  · rintro ⟨⟨record, position⟩, hmem, hentry⟩
    obtain rfl := RecordDeclaration.position_of_improvement? hentry
    obtain ⟨type, htype⟩ := RecordDeclaration.improvement?_eq_some_iff.mp hentry
    exact ⟨record, type, List.mem_zipIdx_iff_getElem?.mp hmem, htype⟩
  · rintro ⟨record, type, hget, htype⟩
    exact ⟨(record, entry.position), List.mem_zipIdx_iff_getElem?.mpr hget,
      RecordDeclaration.improvement?_eq_some_iff.mpr ⟨type, htype⟩⟩

theorem totalSpared_recordTypes (contract : Contract) (solver : Solver) :
    (RecordsAnalysis.ofTypes solver contract.recordTypes).totalSpared =
      total (contract.records.map (RecordDeclaration.sparedSlots solver)) := by
  calc (RecordsAnalysis.ofTypes solver contract.recordTypes).totalSpared
      = total (contract.recordTypes.map fun type =>
          (type.analyze solver).outcome.sparedSlots) :=
        RecordsAnalysis.totalSpared_ofTypes solver contract.recordTypes
    _ = total (contract.records.zipIdx.map fun r => r.1.sparedSlots solver) := by
        rw [recordTypes, resolvedRecords, List.filterMap_map, total_map_filterMap]
        simp only [Function.comp_apply, ← RecordDeclaration.sparedSlots_eq]
    _ = total (contract.records.map (RecordDeclaration.sparedSlots solver)) := by
        have hfst := congrArg (List.map (RecordDeclaration.sparedSlots solver))
          (List.zipIdx_map_fst 0 contract.records)
        rw [List.map_map] at hfst
        exact congrArg total hfst

theorem improvable_ascending (contract : Contract) (solver : Solver) :
    (RecordsAnalysis.ofTypes solver contract.recordTypes).improvable.Pairwise
      fun entry later => entry.position < later.position := by
  have hrecords : contract.records.zipIdx.Pairwise fun r later => r.2 < later.2 := by
    apply List.pairwise_map.mp
    rw [List.zipIdx_map_snd]
    exact List.pairwise_lt_range'
  rw [improvable_recordTypes]
  apply hrecords.filterMap
  intro r later hlt entry hentry other hother
  rwa [RecordDeclaration.position_of_improvement? hentry,
    RecordDeclaration.position_of_improvement? hother]

end Contract

structure RecordsAnalysis.Covers (analysis : RecordsAnalysis) (solver : Solver)
    (records : List RecordDeclaration) : Prop where
  ascending : analysis.improvable.Pairwise fun entry later => entry.position < later.position
  mem_improvable_iff : ∀ entry, entry ∈ analysis.improvable ↔
    ∃ record type, records[entry.position]? = some record ∧
      record.resolve entry.position = .ok type ∧ type.analyze solver = entry ∧
        entry.outcome.isTight = false
  totalSpared_eq :
    analysis.totalSpared = total (records.map (RecordDeclaration.sparedSlots solver))

theorem Contract.covers_recordTypes (contract : Contract) (solver : Solver) :
    (RecordsAnalysis.ofTypes solver contract.recordTypes).Covers solver contract.records where
  ascending := contract.improvable_ascending solver
  mem_improvable_iff _ := mem_improvable_iff
  totalSpared_eq := contract.totalSpared_recordTypes solver

end StorageSlots
