import StorageSlots.Proofs.Comparison
import StorageSlots.Proofs.RecordTypes

/-!
Which declarations a result speaks of.

The items of a layout are the declarations that take part in it, each at its own position and with
the size that it resolves to there: state variables in the layout of the storage, and the members of
the named record in the layout of an entry.
-/

namespace StorageSlots

theorem compare_optimized_perm {items : List Item} {solver : Solver} {layout : Layout}
    (h : (compare items solver).optimized = some layout) : items.Perm layout.items := by
  obtain ⟨packing, _, hvalid, rfl, _⟩ := compare_optimized h
  exact (Packing.items_layout_perm hvalid).symm

theorem PackingOutcome.exists_of_not_isTight {outcome : PackingOutcome}
    (h : outcome.isTight = false) : ∃ layout, outcome.optimized = some layout := by
  rw [isTight, beq_eq_false_iff_ne] at h
  exact Option.isSome_iff_exists.mp (outcome.present_iff.mpr (Nat.pos_of_ne_zero h))

namespace Contract

variable {contract : Contract} {config : Config}

theorem storageOutcome_of_unsized
    (h : Unsized Declaration.isEligible contract.stateVariables) :
    contract.resolved.storageOutcome config = .tight := by
  rw [ResolvedContract.storageOutcome, resolved]
  cases hvariables : contract.eligibleVariables with
  | error fault => rfl
  | ok items => exact absurd h (not_unsized_of_resolveAll hvariables)

theorem represents_storage {layout : Layout}
    (h : (contract.resolved.storageOutcome config).optimized = some layout) :
    Represents Declaration.isEligible contract.stateVariables layout.items := by
  rw [ResolvedContract.storageOutcome, resolved] at h
  cases hvariables : contract.eligibleVariables with
  | error fault =>
    rw [hvariables] at h
    cases h
  | ok items =>
    rw [hvariables] at h
    dsimp only [Except.toOption] at h
    split at h
    · cases h
    · exact (Represents.of_resolveAll hvariables).perm (compare_optimized_perm h)

end Contract

theorem RecordDeclaration.represents_members {record : RecordDeclaration} {position : Nat}
    {type : RecordType} {solver : Solver} {layout : Layout}
    (h : record.resolve position = .ok type)
    (hlayout : (type.analyze solver).outcome.optimized = some layout) :
    Represents (fun declaration => !declaration.dynamic) record.members layout.items :=
  (Represents.of_resolveAll (resolve_eq_ok h).2.2).perm (compare_optimized_perm hlayout)

structure ContractAnalysis.Describes (analysis : ContractAnalysis) (contract : Contract) :
    Prop where
  storage : ∀ layout, analysis.storage.optimized = some layout →
    Represents Declaration.isEligible contract.stateVariables layout.items
  records : ∀ entry ∈ analysis.records.improvable, ∃ record layout,
    contract.records[entry.position]? = some record ∧ entry.record = record.name ∧
    entry.outcome.optimized = some layout ∧
    Represents (fun declaration => !declaration.dynamic) record.members layout.items
  storage_of_unsized : Unsized Declaration.isEligible contract.stateVariables →
    analysis.storage = .tight
  position_ne_of_unsized : ∀ position record, contract.records[position]? = some record →
    Unsized (fun declaration => !declaration.dynamic) record.members →
    ∀ entry ∈ analysis.records.improvable, entry.position ≠ position

namespace SourceUnit

theorem analyze_describes {source : SourceUnit} {config : Config} {analysis : ContractAnalysis}
    (h : source.analyze config = .ok analysis) :
    ∃ contract, source.contracts.head? = some contract ∧ analysis.Describes contract := by
  obtain ⟨contract, hcontract, _, rfl⟩ := analyze_eq_ok h
  refine ⟨contract, hcontract, fun layout => Contract.represents_storage, ?_,
    Contract.storageOutcome_of_unsized, ?_⟩
  · intro entry hentry
    obtain ⟨record, type, hget, hresolve, rfl, hloose⟩ := Contract.mem_improvable_iff.mp hentry
    obtain ⟨layout, hlayout⟩ := PackingOutcome.exists_of_not_isTight hloose
    exact ⟨record, layout, hget, (RecordDeclaration.resolve_eq_ok hresolve).1, hlayout,
      RecordDeclaration.represents_members hresolve hlayout⟩
  · rintro _ record hget hunsized entry hentry rfl
    obtain ⟨found, type, hfound, hresolve, _⟩ := Contract.mem_improvable_iff.mp hentry
    rw [hget] at hfound
    cases hfound
    exact not_unsized_of_resolveAll (RecordDeclaration.resolve_eq_ok hresolve).2.2 hunsized

theorem analyze_describes_vaultWithBalances :
    ∃ analysis, analyze ⟨[vaultWithBalances]⟩ { solver := .firstFit } = .ok analysis ∧
      (analysis.storage.optimized.map fun layout => layout.items.map Item.position) =
        some [1, 4, 3] ∧
      (analysis.records.improvable.map RecordAnalysis.position) = [0] ∧
      analysis.Describes vaultWithBalances := by
  have hanalyze : analyze ⟨[vaultWithBalances]⟩ { solver := .firstFit } =
      .ok (vaultWithBalances.resolved.analysis { solver := .firstFit }) := rfl
  obtain ⟨contract, hcontract, hdescribes⟩ := analyze_describes hanalyze
  cases hcontract
  exact ⟨_, hanalyze, by cbv, by cbv, hdescribes⟩

end SourceUnit

end StorageSlots
