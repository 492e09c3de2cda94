import StorageSlots.Contract

/-!
The analysis of a contract.

A contract is resolved, its record types are compared, and then its storage. A state variable whose
size is not known leaves the storage uncompared, and so does a number of state variables below the
configured minimum; the record types are compared in any case.
-/

namespace StorageSlots

structure Config where
  solver : Solver := ({} : ExactSolver).solver
  /-- The number of eligible state variables below which storage is not compared. -/
  minimumVariables : Nat := 3

/-- A contract whose declarations are resolved. -/
structure ResolvedContract where
  name : String
  /-- The eligible state variables, unless one of them has no known size. -/
  stateVariables : Option (List Item)
  recordTypes : List RecordType
  deriving DecidableEq, Repr

structure ContractAnalysis where
  contract : String
  records : RecordsAnalysis
  storage : PackingOutcome
  deriving DecidableEq, Repr

namespace Contract

/-- Resolves a contract that has an eligible state variable. -/
def resolve (contract : Contract) : Except AnalysisFault ResolvedContract :=
  if contract.eligibleDeclarations.isEmpty then .error (.noEligibleVariables contract.name)
  else .ok ⟨contract.name, contract.eligibleVariables.toOption, contract.recordTypes⟩

def resolveJournal (contract : Contract) : Journal :=
  match contract.resolve with
  | .error _ => []
  | .ok resolved =>
    (match contract.eligibleVariables with
      | .ok _ => []
      | .error fault => [.storageUnsized contract.name fault]) ++
    contract.recordJournal ++
    [.resolved (resolved.stateVariables.elim 0 List.length) resolved.recordTypes.length
      contract.name]

end Contract

namespace ResolvedContract

def recordsAnalysis (resolved : ResolvedContract) (config : Config) : RecordsAnalysis :=
  .ofTypes config.solver resolved.recordTypes

def recordsJournal (resolved : ResolvedContract) (config : Config) : Journal :=
  RecordsAnalysis.journal config.solver resolved.recordTypes

def storageOutcome (resolved : ResolvedContract) (config : Config) : PackingOutcome :=
  match resolved.stateVariables with
  | none => .tight
  | some items =>
    if items.length < config.minimumVariables then .tight else compare items config.solver

def storageJournal (resolved : ResolvedContract) (config : Config) : Journal :=
  match resolved.stateVariables with
  | none => []
  | some items =>
    if items.length < config.minimumVariables then
      [.storageTooSmall resolved.name items.length]
    else compareJournal items config.solver

def analysis (resolved : ResolvedContract) (config : Config) : ContractAnalysis :=
  ⟨resolved.name, resolved.recordsAnalysis config, resolved.storageOutcome config⟩

end ResolvedContract

def ContractAnalysis.isTight (analysis : ContractAnalysis) : Bool :=
  analysis.records.isTight && analysis.storage.isTight

namespace Contract

def analyze (contract : Contract) (config : Config) : Except AnalysisFault ContractAnalysis :=
  match contract.resolve with
  | .ok resolved => .ok (resolved.analysis config)
  | .error fault => .error fault

def analyzeJournal (contract : Contract) (config : Config) : Journal :=
  contract.resolveJournal ++
    match contract.resolve with
    | .ok resolved => resolved.recordsJournal config ++ resolved.storageJournal config
    | .error _ => []

end Contract

namespace SourceUnit

def analyze (source : SourceUnit) (config : Config) : Except AnalysisFault ContractAnalysis :=
  match source.primary with
  | .ok contract => contract.analyze config
  | .error fault => .error fault

def analyzeJournal (source : SourceUnit) (config : Config) : Journal :=
  match source.primary with
  | .ok contract => contract.analyzeJournal config
  | .error _ => []

end SourceUnit

end StorageSlots
