import StorageSlots.Batch
import StorageSlots.Proofs.RecordTypes

/-!
Which units fail.

A unit without a contract fails, and one whose first contract has no eligible state variable.
Nothing else does: neither declarations of unknown size nor the solver can keep a unit from its
analysis, and the record types are compared whatever the state variables are.
-/

namespace StorageSlots

theorem Declaration.isEligible_iff {declaration : Declaration} :
    declaration.isEligible = true ↔
      declaration.dynamic = false ∧ declaration.inherited = false := by
  rw [isEligible, Bool.and_eq_true, Bool.not_eq_true', Bool.not_eq_true']

namespace Contract

variable {contract : Contract} {config : Config}

theorem hasEligible_iff : contract.HasEligible ↔
    ∃ d ∈ contract.stateVariables, d.dynamic = false ∧ d.inherited = false := by
  simp only [HasEligible, Declaration.isEligible_iff]

theorem not_hasEligible_iff : ¬ contract.HasEligible ↔
    ∀ d ∈ contract.stateVariables, d.dynamic = true ∨ d.inherited = true := by
  have hneither (d : Declaration) : (d.dynamic = true ∨ d.inherited = true) ↔
      ¬ (d.dynamic = false ∧ d.inherited = false) := by
    rw [not_and_or, Bool.not_eq_false, Bool.not_eq_false]
  simp only [hasEligible_iff, hneither, not_exists, not_and]

theorem analyze_eq_error_iff {fault : AnalysisFault} :
    contract.analyze config = .error fault ↔
      ¬ contract.HasEligible ∧ fault = .noEligibleVariables contract.name := by
  by_cases h : contract.HasEligible
  · rw [analyze_of_hasEligible h]
    constructor
    · rintro ⟨⟩
    · rintro ⟨hnone, _⟩
      exact absurd h hnone
  · rw [analyze_of_not_hasEligible h]
    constructor
    · rintro ⟨⟩
      exact ⟨h, rfl⟩
    · rintro ⟨_, rfl⟩
      rfl

end Contract

theorem Source.exists_cause {file : Source} {source : SourceUnit} {config : Config} {fault : Fault}
    (hload : file.load = .ok source) (h : file.analyze config = .error fault) :
    ∃ cause, source.analyze config = .error cause ∧ fault = .analysis cause := by
  rw [Source.analyze, hload] at h
  dsimp only at h
  cases hanalyze : source.analyze config with
  | error cause =>
    rw [hanalyze] at h
    cases h
    exact ⟨cause, rfl, rfl⟩
  | ok analysis =>
    rw [hanalyze] at h
    cases h

namespace SourceUnit

theorem exists_ok_iff {source : SourceUnit} {config : Config} :
    (∃ analysis, source.analyze config = .ok analysis) ↔
      ∃ contract, source.contracts.head? = some contract ∧ contract.HasEligible := by
  constructor
  · rintro ⟨analysis, h⟩
    obtain ⟨contract, hcontract, heligible, _⟩ := analyze_eq_ok h
    exact ⟨contract, hcontract, heligible⟩
  · rintro ⟨contract, hcontract, heligible⟩
    exact ⟨_, (analyze_of_head? hcontract).trans (Contract.analyze_of_hasEligible heligible)⟩

theorem analyze_eq_error_iff {source : SourceUnit} {config : Config} {fault : AnalysisFault} :
    source.analyze config = .error fault ↔
      source.contracts = [] ∧ fault = .noEligibleContract ∨
        ∃ contract, source.contracts.head? = some contract ∧ ¬ contract.HasEligible ∧
          fault = .noEligibleVariables contract.name := by
  obtain ⟨contracts⟩ := source
  cases contracts with
  | nil =>
    constructor
    · rintro ⟨⟩
      exact .inl ⟨rfl, rfl⟩
    · rintro (⟨_, rfl⟩ | ⟨contract, ⟨⟩, _⟩)
      rfl
  | cons contract later =>
    change contract.analyze config = .error fault ↔ _
    rw [Contract.analyze_eq_error_iff]
    constructor
    · intro h
      exact .inr ⟨contract, rfl, h⟩
    · rintro (⟨⟨⟩, _⟩ | ⟨_, ⟨⟩, h⟩)
      exact h

theorem analyze_result (source : SourceUnit) (config : Config) :
    (source.analyze config = .error .noEligibleContract ↔ source.contracts = []) ∧
    (∀ name, source.analyze config = .error (.noEligibleVariables name) ↔
      ∃ contract, source.contracts.head? = some contract ∧ name = contract.name ∧
        ∀ d ∈ contract.stateVariables, d.dynamic = true ∨ d.inherited = true) ∧
    ((∃ analysis, source.analyze config = .ok analysis) ↔
      ∃ contract, source.contracts.head? = some contract ∧
        ∃ d ∈ contract.stateVariables, d.dynamic = false ∧ d.inherited = false) ∧
    (∀ analysis, source.analyze config = .ok analysis →
      ∃ contract, source.contracts.head? = some contract ∧ analysis.contract = contract.name ∧
        analysis.records.Covers config.solver contract.records) ∧
    ∀ file : Source, file.load = .ok source → ∀ fault, file.analyze config = .error fault →
      ∃ cause, source.analyze config = .error cause ∧ fault = .analysis cause := by
  refine ⟨?_, ?_, ?_, ?_, ?_⟩
  · rw [analyze_eq_error_iff]
    constructor
    · rintro (⟨hnone, _⟩ | ⟨_, _, _, ⟨⟩⟩)
      exact hnone
    · intro hnone
      exact .inl ⟨hnone, rfl⟩
  · intro name
    rw [analyze_eq_error_iff]
    constructor
    · rintro (⟨_, ⟨⟩⟩ | ⟨contract, hcontract, hnone, ⟨⟩⟩)
      exact ⟨contract, hcontract, rfl, Contract.not_hasEligible_iff.mp hnone⟩
    · rintro ⟨contract, hcontract, rfl, hnone⟩
      exact .inr ⟨contract, hcontract, Contract.not_hasEligible_iff.mpr hnone, rfl⟩
  · simp only [exists_ok_iff, Contract.hasEligible_iff]
  · intro analysis h
    obtain ⟨contract, hcontract, _, rfl⟩ := analyze_eq_ok h
    exact ⟨contract, hcontract, rfl, contract.covers_recordTypes config.solver⟩
  · intro file hload fault h
    exact Source.exists_cause hload h

def quotes : Contract where
  name := "Quotes"
  stateVariables := [{ name := "price", label := "Price", size := some 64 }]
  records := [⟨"Stale", [{ name := "price", label := "Price", size := some 64 }]⟩, ⟨"Entry", [
    { name := "low", label := "uint128", size := some 16 },
    { name := "whole", label := "uint256", size := some 32 },
    { name := "high", label := "uint128", size := some 16 }]⟩]

theorem analyze_result_quotes :
    (∃ cause, analyze ⟨[]⟩ {} = .error cause ∧
      Source.analyze {} ⟨"empty.json", .ok "\x7b\x7d"⟩ = .error (.analysis cause)) ∧
    ∃ analysis, analyze ⟨[quotes]⟩ { solver := .firstFit } = .ok analysis ∧
      analysis.storage = .tight ∧ analysis.contract = "Quotes" ∧
      analysis.records.improvable.map RecordAnalysis.position = [1] ∧
      analysis.records.Covers .firstFit quotes.records := by
  constructor
  · obtain ⟨-, -, -, -, hfile⟩ := analyze_result ⟨[]⟩ {}
    obtain ⟨cause, hanalyze, hcause⟩ := hfile ⟨"empty.json", .ok "\x7b\x7d"⟩ rfl _ rfl
    exact ⟨cause, hanalyze, congrArg Except.error hcause⟩
  · have hanalyze : analyze ⟨[quotes]⟩ { solver := .firstFit } =
        .ok (quotes.resolved.analysis { solver := .firstFit }) := rfl
    obtain ⟨-, -, -, hresult, -⟩ := analyze_result ⟨[quotes]⟩ { solver := .firstFit }
    obtain ⟨contract, hcontract, hname, hrecords⟩ := hresult _ hanalyze
    cases hcontract
    exact ⟨_, hanalyze, rfl, hname, by cbv, hrecords⟩

end SourceUnit

end StorageSlots
