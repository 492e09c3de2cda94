import StorageSlots.Proofs.Comparison
import StorageSlots.Proofs.RecordTypes
import StorageSlots.Report

/-!
What an analysis of record types adds up to.

Gathering the record types one by one keeps the total equal to the sum of the entries, and so equal
to the slots of the declared orders less those of the layouts that are kept. An analysis is tight
exactly if there are no entries, and a report says in one line that all is tight exactly if it is.
-/

namespace StorageSlots

theorem sparedSlots_add_kept (items : List Item) (solver : Solver) :
    (compare items solver).sparedSlots +
        ((compare items solver).optimized.getD (.ofOrder items)).slotCount =
      (Layout.ofOrder items).slotCount := by
  cases h : (compare items solver).optimized with
  | none => rw [PackingOutcome.sparedSlots_of_none h, Nat.zero_add, Option.getD_none]
  | some layout =>
    obtain ⟨_, _, _, _, hlt, hspared⟩ := compare_optimized h
    rw [hspared, Option.getD_some, Nat.sub_add_cancel (Nat.le_of_lt hlt)]

theorem PackingOutcome.isTight_iff {outcome : PackingOutcome} :
    outcome.isTight = true ↔ outcome.sparedSlots = 0 := by
  rw [isTight, beq_iff_eq]

/-- The layout of the members that the type keeps: a better one if there is one. -/
def RecordType.keptLayout (solver : Solver) (type : RecordType) : Layout :=
  (compare type.members solver).optimized.getD (.ofOrder type.members)

namespace RecordsAnalysis

variable {solver : Solver}

def append (analysis later : RecordsAnalysis) : RecordsAnalysis :=
  ⟨analysis.totalSpared + later.totalSpared, analysis.improvable ++ later.improvable⟩

instance : Append RecordsAnalysis :=
  ⟨append⟩

theorem append_eq (analysis later : RecordsAnalysis) :
    analysis ++ later =
      ⟨analysis.totalSpared + later.totalSpared, analysis.improvable ++ later.improvable⟩ := rfl

theorem ofTypes_append (solver : Solver) (types later : List RecordType) :
    ofTypes solver (types ++ later) = ofTypes solver types ++ ofTypes solver later := by
  simp only [ofTypes, append_eq, List.map_append, List.filter_append, total_append]

theorem addType_eq (solver : Solver) (analysis : RecordsAnalysis) (type : RecordType) :
    addType solver analysis type = analysis ++ ofTypes solver [type] := by
  rw [addType, ofTypes, append_eq]
  cases h : (type.analyze solver).outcome.isTight with
  | true => simp [h]
  | false => simp [h]

theorem foldl_addType (solver : Solver) (analysis : RecordsAnalysis) (types : List RecordType) :
    types.foldl (addType solver) analysis = analysis ++ ofTypes solver types := by
  induction types generalizing analysis with
  | nil => simp [ofTypes, append_eq]
  | cons type types ih =>
    have hcons := ofTypes_append solver [type] types
    rw [List.singleton_append] at hcons
    rw [List.foldl_cons, ih, addType_eq, hcons]
    simp [append_eq, Nat.add_assoc]

theorem improvable_ofTypes (solver : Solver) (types : List RecordType) :
    (ofTypes solver types).improvable =
      (types.filter fun type => !(compare type.members solver).isTight).map fun type =>
        ⟨type.name, type.position, compare type.members solver⟩ := by
  rw [ofTypes, List.filter_map]
  rfl

theorem totalSpared_add_kept (solver : Solver) (types : List RecordType) :
    (ofTypes solver types).totalSpared +
        total (types.map fun type => (type.keptLayout solver).slotCount) =
      total (types.map fun type => (Layout.ofOrder type.members).slotCount) := by
  rw [totalSpared_ofTypes, total_map_add]
  exact congrArg total (List.map_congr_left fun type _ => sparedSlots_add_kept type.members solver)

theorem isTight_ofTypes_iff {types : List RecordType} :
    (ofTypes solver types).isTight = true ↔ (ofTypes solver types).improvable = [] := by
  rw [isTight, beq_iff_eq, totalSpared_ofTypes, total_eq_zero_iff, improvable_ofTypes,
    List.map_eq_nil_iff, List.filter_eq_nil_iff, List.forall_mem_map]
  simp only [Bool.not_eq_true', Bool.not_eq_false, PackingOutcome.isTight_iff]
  rfl

end RecordsAnalysis

namespace Report

variable {report : Report}

theorem render_of_isTight (h : report.analysis.isTight = true) :
    report.render =
      report.path ++ " -> " ++ report.analysis.contract ++ "'s storage is tight packed.\n" := by
  obtain ⟨hrecords, hstorage⟩ := (Bool.and_eq_true _ _).mp h
  rw [render, lines, recordsLines, storageLines, if_pos hrecords, if_pos hstorage]
  simp [String.append_assoc, toString]

theorem exists_lines_of_not_isTight (h : report.analysis.isTight = false) :
    ∃ told more, report.lines = (report.path ++ " -> " ++ report.analysis.contract ++ told) :: more ∧
      (told = "'s structs are not tight packed." ∨ told = "'s storage is not tight packed.") := by
  rw [lines, recordsLines, storageLines]
  cases hrecords : report.analysis.records.isTight with
  | false =>
    exact ⟨_, _, rfl, .inl rfl⟩
  | true =>
    have hstorage : report.analysis.storage.isTight = false := by
      rwa [ContractAnalysis.isTight, hrecords, Bool.true_and] at h
    rw [hstorage]
    exact ⟨_, _, rfl, .inr rfl⟩

theorem render_of_lines {line : String} {more : List String} (h : report.lines = line :: more) :
    ∃ rest, report.render = line ++ rest := by
  rw [render, h, List.map_cons, String.join_cons, String.append_assoc]
  exact ⟨_, rfl⟩

theorem isTight_iff_render_eq : report.analysis.isTight = true ↔
    report.render =
      report.path ++ " -> " ++ report.analysis.contract ++ "'s storage is tight packed.\n" := by
  constructor
  · exact render_of_isTight
  · intro hrender
    by_contra hloose
    obtain ⟨told, more, hlines, htold⟩ :=
      exists_lines_of_not_isTight (Bool.eq_false_of_not_eq_true hloose)
    obtain ⟨rest, hrest⟩ := render_of_lines hlines
    -- What is told differs from the line within its own length, so it does not matter what follows.
    rw [hrest, String.append_assoc, String.append_right_inj] at hrender
    rcases htold with rfl | rfl
    · simp [← String.toList_inj] at hrender
    · simp [← String.toList_inj] at hrender

end Report

namespace RecordsAnalysis

theorem ofTypes_aggregates (solver : Solver) (types later : List RecordType) :
    types.foldl (addType solver) ⟨0, []⟩ = ofTypes solver types ∧
    (ofTypes solver types).improvable =
      (types.filter fun type => !(compare type.members solver).isTight).map (fun type =>
        ⟨type.name, type.position, compare type.members solver⟩) ∧
    (ofTypes solver types).totalSpared =
      total ((ofTypes solver types).improvable.map fun entry => entry.outcome.sparedSlots) ∧
    (ofTypes solver types).totalSpared +
        total (types.map fun type => (type.keptLayout solver).slotCount) =
      total (types.map fun type => (Layout.ofOrder type.members).slotCount) ∧
    ((ofTypes solver types).isTight = true ↔ (ofTypes solver types).improvable = []) ∧
    ofTypes solver (types ++ later) = ofTypes solver types ++ ofTypes solver later ∧
    ∀ report : Report, report.analysis.isTight = true ↔
      report.render =
        report.path ++ " -> " ++ report.analysis.contract ++ "'s storage is tight packed.\n" := by
  refine ⟨?_, improvable_ofTypes solver types, rfl, totalSpared_add_kept solver types,
    isTight_ofTypes_iff, ofTypes_append solver types later, fun _ => Report.isTight_iff_render_eq⟩
  rw [foldl_addType, append_eq, Nat.zero_add, List.nil_append]

end RecordsAnalysis

end StorageSlots
