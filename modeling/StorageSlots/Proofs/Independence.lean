import StorageSlots.Proofs.RecordTypes

/-!
The parts of a contract are analyzed apart.

Another record declaration in the place of one changes its own entry and its share of the total, and
other state variables change nothing in the records part, as long as one of them is eligible.
-/

namespace StorageSlots

theorem filter_zipIdx_set {α : Type} (a : α) (as : List α) (i first : Nat) :
    (((as.set i a).zipIdx first).filter fun r => r.2 != first + i) =
      (as.zipIdx first).filter fun r => r.2 != first + i := by
  induction as generalizing i first with
  | nil => rfl
  | cons b as ih =>
    cases i with
    | zero => simp
    | succ i =>
      -- Behind the head, positions start one later and the place is one nearer.
      rw [List.set_cons_succ, List.zipIdx_cons, List.zipIdx_cons, List.filter_cons,
        List.filter_cons, Nat.add_succ, ← Nat.succ_add, ih i (first + 1)]

theorem total_set_add (n : Nat) (ns : List Nat) {i : Nat} (h : i < ns.length) :
    total (ns.set i n) + ns[i] = total ns + n := by
  induction ns generalizing i with
  | nil => cases h
  | cons m ns ih =>
    cases i with
    | zero =>
      rw [List.set_cons_zero, total_cons, total_cons, List.getElem_cons_zero]
      omega
    | succ i =>
      have hrest := ih (Nat.lt_of_succ_lt_succ h)
      rw [List.set_cons_succ, total_cons, total_cons, List.getElem_cons_succ]
      omega

namespace Contract

def replaceRecord (contract : Contract) (position : Nat) (record : RecordDeclaration) : Contract :=
  { contract with records := contract.records.set position record }

def replaceStateVariables (contract : Contract) (declarations : List Declaration) : Contract :=
  { contract with stateVariables := declarations }

theorem filter_improvable (contract : Contract) (solver : Solver) (keep : Nat → Bool) :
    ((RecordsAnalysis.ofTypes solver contract.recordTypes).improvable.filter
        fun entry => keep entry.position) =
      (contract.records.zipIdx.filter fun r => keep r.2).filterMap
        fun r => r.1.improvement? solver r.2 := by
  -- An entry has the position of its declaration, so either side may be asked for it.
  rw [improvable_recordTypes, List.filter_filterMap, List.filterMap_filter]
  apply List.filterMap_congr
  rintro ⟨record, position⟩ _
  dsimp only
  cases hentry : record.improvement? solver position with
  | none => rw [Option.filter_none, ite_self]
  | some entry => rw [Option.filter_some, RecordDeclaration.position_of_improvement? hentry]

section Replace

variable {contract : Contract} {position : Nat} {solver : Solver}

theorem improvable_replaceRecord (record : RecordDeclaration) :
    ((RecordsAnalysis.ofTypes solver
        (contract.replaceRecord position record).recordTypes).improvable.filter
      fun entry => entry.position != position) =
    (RecordsAnalysis.ofTypes solver contract.recordTypes).improvable.filter
      fun entry => entry.position != position := by
  have hrecords := filter_zipIdx_set record contract.records position 0
  rw [Nat.zero_add] at hrecords
  rw [filter_improvable _ solver (· != position), filter_improvable _ solver (· != position),
    replaceRecord, hrecords]

theorem totalSpared_replaceRecord (h : position < contract.records.length)
    (record : RecordDeclaration) :
    (RecordsAnalysis.ofTypes solver
          (contract.replaceRecord position record).recordTypes).totalSpared +
        contract.records[position].sparedSlots solver =
      (RecordsAnalysis.ofTypes solver contract.recordTypes).totalSpared +
        record.sparedSlots solver := by
  have hspared : position <
      (contract.records.map (RecordDeclaration.sparedSlots solver)).length := by
    rwa [List.length_map]
  have hset := total_set_add (record.sparedSlots solver) _ hspared
  rw [List.getElem_map] at hset
  rw [totalSpared_recordTypes, totalSpared_recordTypes, replaceRecord, List.map_set, hset]

end Replace

theorem analyze_independent (contract : Contract) (config : Config) :
    (∀ (position : Nat) (h : position < contract.records.length) (record : RecordDeclaration),
      match contract.analyze config, (contract.replaceRecord position record).analyze config with
      | .ok analysis, .ok found =>
        found.contract = analysis.contract ∧ found.storage = analysis.storage ∧
          (found.records.improvable.filter fun entry => entry.position != position) =
            (analysis.records.improvable.filter fun entry => entry.position != position) ∧
          found.records.totalSpared + contract.records[position].sparedSlots config.solver =
            analysis.records.totalSpared + record.sparedSlots config.solver
      | .error fault, .error found => found = fault
      | _, _ => False) ∧
    ∀ declarations, contract.HasEligible →
      (contract.replaceStateVariables declarations).HasEligible →
      ∃ analysis found, contract.analyze config = .ok analysis ∧
        (contract.replaceStateVariables declarations).analyze config = .ok found ∧
        found.records = analysis.records := by
  constructor
  · intro position h record
    by_cases heligible : contract.HasEligible
    · have hother : (contract.replaceRecord position record).HasEligible := heligible
      rw [analyze_of_hasEligible heligible, analyze_of_hasEligible hother]
      exact ⟨rfl, rfl, improvable_replaceRecord record, totalSpared_replaceRecord h record⟩
    · have hother : ¬ (contract.replaceRecord position record).HasEligible := heligible
      rw [analyze_of_not_hasEligible heligible, analyze_of_not_hasEligible hother]
      rfl
  · intro declarations heligible hother
    exact ⟨_, _, analyze_of_hasEligible heligible, analyze_of_hasEligible hother, rfl⟩

def unsizedEntry : RecordDeclaration :=
  ⟨"Entry", [{ name := "price", label := "Price", size := some 64 }]⟩

theorem analyze_independent_vault :
    (∃ analysis found, SourceUnit.vault.analyze { solver := .firstFit } = .ok analysis ∧
      (SourceUnit.vault.replaceRecord 0 unsizedEntry).analyze { solver := .firstFit } = .ok found ∧
      found.storage = analysis.storage ∧
      found.records.totalSpared + 1 = analysis.records.totalSpared + 0) ∧
    ∃ analysis found, SourceUnit.vault.analyze { solver := .firstFit } = .ok analysis ∧
      (SourceUnit.vault.replaceStateVariables unsizedEntry.members).analyze
        { solver := .firstFit } = .ok found ∧
      found.records = analysis.records := by
  obtain ⟨hrecord, hvariables⟩ := analyze_independent SourceUnit.vault { solver := .firstFit }
  have hspared : SourceUnit.vault.records[0].sparedSlots .firstFit = 1 := by cbv
  constructor
  · obtain ⟨-, hstorage, -, htotal⟩ := hrecord 0 (by decide) unsizedEntry
    rw [hspared] at htotal
    exact ⟨_, _, rfl, rfl, hstorage, htotal⟩
  · exact hvariables unsizedEntry.members ⟨_, List.mem_cons_self, rfl⟩
      ⟨_, List.mem_cons_self, rfl⟩

end Contract

end StorageSlots
