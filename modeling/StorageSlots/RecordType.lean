import StorageSlots.Outcome

/-!
Record types and what a better order of their members would spare.

Every record type is compared on its own. Those that can be improved are listed in the order of
declaration, with the total of the slots that they spare.
-/

namespace StorageSlots

structure RecordType where
  name : String
  /-- The place of the type among the record types of its contract. -/
  position : Nat
  members : List Item
  deriving DecidableEq, Repr

structure RecordAnalysis where
  record : String
  position : Nat
  outcome : PackingOutcome
  deriving DecidableEq, Repr

structure RecordsAnalysis where
  totalSpared : Nat
  improvable : List RecordAnalysis
  deriving DecidableEq, Repr

namespace RecordType

def analyze (solver : Solver) (type : RecordType) : RecordAnalysis :=
  ⟨type.name, type.position, compare type.members solver⟩

def journal (solver : Solver) (type : RecordType) : Journal :=
  let outcome := compare type.members solver
  [.analyzingRecord type.name] ++ compareJournal type.members solver ++
    if outcome.isTight then [] else [.looseRecord type.name outcome.sparedSlots]

end RecordType

namespace RecordsAnalysis

def ofTypes (solver : Solver) (types : List RecordType) : RecordsAnalysis :=
  let improvable := (types.map (RecordType.analyze solver)).filter fun a => !a.outcome.isTight
  ⟨total (improvable.map fun a => a.outcome.sparedSlots), improvable⟩

/-- The analysis with what one more record type gives: nothing if its order is tight. -/
def addType (solver : Solver) (analysis : RecordsAnalysis) (type : RecordType) : RecordsAnalysis :=
  let entry := type.analyze solver
  if entry.outcome.isTight then analysis
  else ⟨analysis.totalSpared + entry.outcome.sparedSlots, analysis.improvable ++ [entry]⟩

def isTight (analysis : RecordsAnalysis) : Bool :=
  analysis.totalSpared == 0

/-- The first improvable record type with the given name. -/
def get? (analysis : RecordsAnalysis) (name : String) : Option RecordAnalysis :=
  analysis.improvable.find? fun a => a.record == name

def journal (solver : Solver) (types : List RecordType) : Journal :=
  types.flatMap (RecordType.journal solver)

end RecordsAnalysis

end StorageSlots
