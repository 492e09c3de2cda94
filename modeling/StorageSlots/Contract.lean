import StorageSlots.Declaration
import StorageSlots.RecordType

/-!
Contracts and source units.

A contract lists its state variables and its record types. Dynamic and inherited state variables
take no part in its layout; of a record type only the dynamic members do not. What is left is
resolved with the positions that the declarations have in the full lists.
-/

namespace StorageSlots

structure RecordDeclaration where
  name : String
  members : List Declaration
  deriving DecidableEq, Repr

structure Contract where
  name : String
  stateVariables : List Declaration
  records : List RecordDeclaration
  deriving DecidableEq, Repr

/-- The contracts that one input defines. Only the first is analyzed. -/
structure SourceUnit where
  contracts : List Contract
  deriving DecidableEq, Repr

/-- The declarations that pass `keep`, each with its position among all. -/
def positioned (keep : Declaration → Bool) (declarations : List Declaration) :
    List (Declaration × Nat) :=
  declarations.zipIdx.filter fun d => keep d.1

/-- Resolves declarations at their positions; the first that fails decides. -/
def resolveAll (declarations : List (Declaration × Nat)) : Except InputFault (List Item) :=
  declarations.mapM fun d => d.1.resolve d.2

namespace RecordDeclaration

def eligibleMembers (record : RecordDeclaration) : List (Declaration × Nat) :=
  positioned (fun d => !d.dynamic) record.members

def resolve (record : RecordDeclaration) (position : Nat) : Except InputFault RecordType :=
  match resolveAll record.eligibleMembers with
  | .ok members => .ok ⟨record.name, position, members⟩
  | .error fault => .error fault

end RecordDeclaration

namespace Contract

def named (name : String) : Contract :=
  ⟨name, [], []⟩

def addVariable (contract : Contract) (declaration : Declaration) : Contract :=
  { contract with stateVariables := contract.stateVariables ++ [declaration] }

def addRecord (contract : Contract) (record : RecordDeclaration) : Contract :=
  { contract with records := contract.records ++ [record] }

/-- The state variables that take part in the layout, with their positions. -/
def eligibleDeclarations (contract : Contract) : List (Declaration × Nat) :=
  positioned Declaration.isEligible contract.stateVariables

def eligibleVariables (contract : Contract) : Except InputFault (List Item) :=
  resolveAll contract.eligibleDeclarations

/-- Each record declaration together with the record type that it resolves to. -/
def resolvedRecords (contract : Contract) :
    List (RecordDeclaration × Except InputFault RecordType) :=
  contract.records.zipIdx.map fun r => (r.1, r.1.resolve r.2)

/-- The record types of the contract, without those that have a member of unknown size. -/
def recordTypes (contract : Contract) : List RecordType :=
  contract.resolvedRecords.filterMap fun r => r.2.toOption

def recordJournal (contract : Contract) : Journal :=
  contract.resolvedRecords.filterMap fun r =>
    match r.2 with
    | .ok _ => none
    | .error fault => some (.recordSkipped r.1.name contract.name fault)

end Contract

def SourceUnit.primary (source : SourceUnit) : Except AnalysisFault Contract :=
  match source.contracts with
  | [] => .error .noEligibleContract
  | contract :: _ => .ok contract

end StorageSlots
